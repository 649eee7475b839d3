import Rc700.Sdlc.BitRecovery

/-!
# The round trip of an SDLC frame

The stages of the receiver undo those of the transmitter, each for every input: NRZI
(`nrziFrom_encode`), the flags and the zeros that are stuffed (`findFrames_capture`), and the
bits of bytes (`bitsToBytes_append`).  So a payload is found in its capture, by either way of
getting bits from samples (`sdlc_round_trip`).
-/

namespace Rc700
namespace Sdlc

/-! ### NRZI -/

/-- The level after bits. -/
def levelAfter : Bool → List Bool → Bool
  | lvl, [] => lvl
  | lvl, b :: bits => levelAfter (if b = false then !lvl else lvl) bits

theorem nrziFrom_encode (lvl : Bool) (bits more : List Bool) :
    nrziFrom lvl (nrziEncode lvl bits ++ more) = bits ++ nrziFrom (levelAfter lvl bits) more := by
  induction bits generalizing lvl with
  | nil => rfl
  | cons b bits ih =>
      rw [nrziEncode, List.cons_append, nrziFrom, ih, levelAfter]
      cases b with
      | false => cases lvl <;> rfl
      | true => cases lvl <;> rfl

theorem nrziEncode_append (lvl : Bool) (bits more : List Bool) :
    nrziEncode lvl (bits ++ more) =
      nrziEncode lvl bits ++ nrziEncode (levelAfter lvl bits) more := by
  induction bits generalizing lvl with
  | nil => rfl
  | cons b bits ih =>
      rw [List.cons_append, nrziEncode, nrziEncode, ih, levelAfter]
      rfl

theorem nrziFrom_idle (m : Nat) (more : List Bool) :
    nrziFrom true (List.replicate m true ++ more) =
      List.replicate m true ++ nrziFrom true more := by
  induction m with
  | zero => rfl
  | succ m ih => exact congrArg (true :: ·) ih

/-- Behind some of the idle line, the bits come back. -/
theorem nrziDecode_capture (m : Nat) (bits more : List Bool) :
    nrziDecode (List.replicate m true ++ nrziEncode true bits ++ more) =
      List.replicate m true ++ (bits ++ nrziFrom (levelAfter true bits) more) := by
  rw [nrziDecode, List.append_assoc, nrziFrom_idle, nrziFrom_encode]

/-! ### Flags and stuffed zeros -/

theorem flag_eq : byteToLsbBits 0x7E#8 = FLAG := by decide

theorem flags_succ (n : Nat) : flags (n + 1) = FLAG ++ flags n := by
  rw [flags, List.replicate_succ, List.flatten_cons, flag_eq]
  rfl

theorem skipFlags_flags (n : Nat) (bits : List Bool) :
    skipFlags (flags n ++ bits) = skipFlags bits := by
  induction n with
  | zero => rfl
  | succ n ih =>
      rw [flags_succ, List.append_assoc]
      show skipFlags (flags n ++ bits) = _
      exact ih

theorem skipFlags_eq_self {bits : List Bool} (hflag : ¬FLAG <+: bits) : skipFlags bits = bits := by
  unfold skipFlags
  split
  · exact absurd ⟨_, rfl⟩ hflag
  · rfl

/-- There are no six ones in a row before the zero that follows stuffed bits. -/
theorem stuffFrom_ones {ones : Nat} (hones : ones < 5) (bits rest : List Bool) :
    ¬List.replicate (6 - ones) true <+: stuffFrom ones bits ++ false :: rest := by
  induction bits generalizing ones with
  | nil =>
      obtain ⟨k, hk⟩ : ∃ k, 6 - ones = k + 1 := ⟨5 - ones, by omega⟩
      rw [hk, List.replicate_succ]
      intro hprefix
      exact absurd (List.cons_prefix_cons.mp hprefix).1 (by decide)
  | cons b bits ih =>
      obtain ⟨k, hk⟩ : ∃ k, 6 - ones = k + 2 := ⟨4 - ones, by omega⟩
      rw [hk, List.replicate_succ, stuffFrom]
      intro hprefix
      by_cases hb : b = true
      · rw [if_pos hb] at hprefix
        by_cases hfive : ones + 1 = 5
        · rw [if_pos hfive, List.replicate_succ] at hprefix
          have hnext := (List.cons_prefix_cons.mp hprefix).2
          exact absurd (List.cons_prefix_cons.mp hnext).1 (by decide)
        · rw [if_neg hfive] at hprefix
          have hless : 6 - (ones + 1) = k + 1 := by omega
          have hrest := ih (show ones + 1 < 5 by omega)
          rw [hless] at hrest
          exact hrest (List.cons_prefix_cons.mp hprefix).2
      · rw [if_neg hb] at hprefix
        exact hb (List.cons_prefix_cons.mp hprefix).1.symm

/-- Stuffed bits do not begin with a flag. -/
theorem not_flag_first {bits : List Bool} (hbits : bits ≠ []) (rest : List Bool) :
    ¬FLAG <+: hdlcStuff bits ++ false :: rest := by
  cases bits with
  | nil => exact absurd rfl hbits
  | cons b bits =>
      intro hprefix
      unfold hdlcStuff stuffFrom at hprefix
      cases b with
      | true => exact absurd (List.cons_prefix_cons.mp hprefix).1 (by decide)
      | false =>
          have hsix := (List.cons_prefix_cons.mp hprefix).2
          refine stuffFrom_ones (show 0 < 5 by decide) bits rest (List.IsPrefix.trans ?_ hsix)
          exact ⟨[false], rfl⟩

/-- Zero-deletion takes out what was stuffed. -/
theorem accumulate_stuffed {ones : Nat} (hones : ones < 5) (frameBits bits rest : List Bool) :
    ∃ ones' < 5, accumulate ones frameBits (stuffFrom ones bits ++ rest) =
      accumulate ones' (frameBits ++ bits) rest := by
  induction bits generalizing ones frameBits with
  | nil =>
      rw [List.append_nil]
      exact ⟨ones, hones, rfl⟩
  | cons b bits ih =>
      have hcons : frameBits ++ b :: bits = frameBits ++ [b] ++ bits := by
        rw [List.append_assoc]
        rfl
      have hne : ¬ones = 5 := by omega
      rw [stuffFrom, hcons]
      by_cases hb : b = true
      · by_cases hfive : ones + 1 = 5
        · -- the zero that follows is deleted
          obtain ⟨ones', hones', heq⟩ := ih (show 0 < 5 by decide) (frameBits ++ [b])
          refine ⟨ones', hones', ?_⟩
          rw [if_pos hb, if_pos hfive, List.cons_append, accumulate, if_neg hne, if_pos hb, hfive,
            List.cons_append, accumulate, if_pos rfl, if_pos rfl, heq]
        · obtain ⟨ones', hones', heq⟩ := ih (show ones + 1 < 5 by omega) (frameBits ++ [b])
          refine ⟨ones', hones', ?_⟩
          rw [if_pos hb, if_neg hfive, List.cons_append, accumulate, if_neg hne, if_pos hb, heq]
      · obtain ⟨ones', hones', heq⟩ := ih (show 0 < 5 by decide) (frameBits ++ [b])
        refine ⟨ones', hones', ?_⟩
        rw [if_neg hb, List.cons_append, accumulate, if_neg hne, if_neg hb, heq]

/-- What a closing flag has before its last zero. -/
def CLOSING : List Bool := [false, true, true, true, true, true, true]

/-- The closing flag ends the frame, but for its first zero; its sixth one is seen again. -/
theorem accumulate_closing {ones : Nat} (hones : ones < 5) (frameBits rest : List Bool) :
    accumulate ones frameBits (CLOSING ++ rest) = (frameBits ++ [false], true :: rest) := by
  have hne : ¬ones = 5 := by omega
  have hfive : accumulate 0 (frameBits ++ [false])
      (true :: true :: true :: true :: true :: true :: rest) =
      (((frameBits ++ [false]) ++ List.replicate 5 true).take
        ((frameBits ++ [false] ++ List.replicate 5 true).length - 5), true :: rest) := by
    simp [accumulate]
  show accumulate ones frameBits (false :: true :: true :: true :: true :: true :: true :: rest) = _
  rw [accumulate, if_neg hne, if_neg (by decide), hfive, List.length_append, List.length_replicate,
    Nat.add_sub_cancel, List.take_left]

theorem findFrames_idle {bits : List Bool} (hlen : 8 ≤ bits.length) :
    findFrames (true :: bits) = findFrames bits := by
  have hmore : 8 < (true :: bits).length := Nat.lt_succ_of_le hlen
  have hflag : (true :: bits).take 8 ≠ FLAG := by
    rw [List.take_succ_cons]
    intro heq
    exact absurd (List.cons.inj heq).1 (by decide)
  rw [findFrames, dif_pos hmore, dif_neg hflag, List.drop_one, List.tail_cons]

/-- **The first frame** behind the idle line and any number of flags is that of the stuffed
bits, with one more zero. -/
theorem findFrames_capture (m n : Nat) {bits : List Bool} (hbits : bits ≠ []) (rest : List Bool) :
    bits ++ [false] ∈ findFrames
      (List.replicate m true ++ (flags (n + 1) ++ (hdlcStuff bits ++ (CLOSING ++ rest)))) := by
  have hlen : 8 < (flags (n + 1) ++ (hdlcStuff bits ++ (CLOSING ++ rest))).length := by
    rw [flags_succ]
    simp only [List.length_append, FLAG, CLOSING, List.length_cons, List.length_nil]
    omega
  induction m with
  | zero =>
      have hflag : (flags (n + 1) ++ (hdlcStuff bits ++ (CLOSING ++ rest))).take 8 = FLAG := by
        rw [flags_succ, List.append_assoc]
        rfl
      have hskip : skipFlags (flags (n + 1) ++ (hdlcStuff bits ++ (CLOSING ++ rest))) =
          hdlcStuff bits ++ (CLOSING ++ rest) := by
        rw [skipFlags_flags]
        exact skipFlags_eq_self (not_flag_first hbits _)
      obtain ⟨ones, hones, htaken⟩ :=
        accumulate_stuffed (show 0 < 5 by decide) [] bits (CLOSING ++ rest)
      have hframe : (accumulate 0 [] (hdlcStuff bits ++ (CLOSING ++ rest))).1 =
        bits ++ [false] := by
        rw [hdlcStuff, htaken, accumulate_closing hones, List.nil_append]
      rw [List.replicate_zero, List.nil_append, findFrames, dif_pos hlen, dif_pos hflag, hskip]
      dsimp only
      rw [hframe, if_pos (List.append_ne_nil_of_right_ne_nil _ (List.cons_ne_nil _ _))]
      exact List.mem_cons_self
  | succ m ih =>
      rw [List.replicate_succ, List.cons_append, findFrames_idle]
      · exact ih
      · rw [List.length_append]
        omega

/-! ### Bytes -/

theorem byteOf_lsb : ∀ b : Byte, ∃ b₀ b₁ b₂ b₃ b₄ b₅ b₆ b₇,
    byteToLsbBits b = [b₀, b₁, b₂, b₃, b₄, b₅, b₆, b₇] ∧ byteOf b₀ b₁ b₂ b₃ b₄ b₅ b₆ b₇ = b := by
  intro b
  refine ⟨_, _, _, _, _, _, _, _, rfl, ?_⟩
  revert b
  decide +kernel

/-- Less than a byte more is dropped. -/
theorem bitsToBytes_append (bs : List Byte) {extra : List Bool} (hextra : extra.length < 8) :
    bitsToBytes (bytesToLsbBits bs ++ extra) = bs := by
  induction bs with
  | nil =>
      show bitsToBytes extra = []
      unfold bitsToBytes
      split
      · simp only [List.length_cons] at hextra
        omega
      · rfl
  | cons b bs ih =>
      obtain ⟨b₀, b₁, b₂, b₃, b₄, b₅, b₆, b₇, hbits, hbyte⟩ := byteOf_lsb b
      show bitsToBytes (byteToLsbBits b ++ bytesToLsbBits bs ++ extra) = _
      rw [hbits]
      show byteOf _ _ _ _ _ _ _ _ :: bitsToBytes (bytesToLsbBits bs ++ extra) = _
      rw [hbyte, ih]

theorem bytesToLsbBits_ne_nil {bs : List Byte} (hbs : bs ≠ []) : bytesToLsbBits bs ≠ [] := by
  intro hnil
  have hback := bitsToBytes_append bs (show ([] : List Bool).length < 8 by decide)
  rw [hnil] at hback
  exact hbs hback.symm

/-! ### Captures -/

theorem runsFit_flags (n : Nat) {k : Nat} (hk : k ≤ 6) {bits : List Bool}
    (hfit : RunsFit 1 bits) : RunsFit k (flags (n + 1) ++ bits) := by
  induction n generalizing k with
  | zero => exact ⟨by omega, by decide, hfit⟩
  | succ n ih =>
      rw [flags_succ, List.append_assoc]
      exact ⟨by omega, by decide, ih (k := 1) (by decide)⟩

theorem runsFit_stuffed {ones k : Nat} (hones : ones < 5) (hk : k ≤ ones + 1) (bits : List Bool)
    {rest : List Bool} (hfit : ∀ k ≤ 6, RunsFit k rest) :
    RunsFit k (stuffFrom ones bits ++ rest) := by
  induction bits generalizing ones k with
  | nil => exact hfit k (by omega)
  | cons b bits ih =>
      rw [stuffFrom]
      cases b with
      | false =>
          rw [if_neg (by decide)]
          exact ⟨by omega, ih (show 0 < 5 by decide) (Nat.le_refl 1)⟩
      | true =>
          rw [if_pos rfl]
          by_cases hfive : ones + 1 = 5
          · rw [if_pos hfive]
            exact ⟨by omega, ih (show 0 < 5 by decide) (Nat.le_refl 1)⟩
          · rw [if_neg hfive]
            exact ih (k := k + 1) (show ones + 1 < 5 by omega) (by omega)

/-- All bits of a capture, from the first zero to the last. -/
theorem capture_bits (payload : List Byte) (leadingFlags trailingFlags : Nat) :
    ∃ bits rest, flags leadingFlags ++ buildFrameBits payload ++ flags trailingFlags =
        false :: bits ++ [false] ∧
      false :: bits = flags (leadingFlags + 1) ++
        (hdlcStuff (bytesToLsbBits (payload ++ crcBytes payload)) ++ (CLOSING ++ rest)) ∧
      RunsFit 1 bits := by
  let stuffed := hdlcStuff (bytesToLsbBits (payload ++ crcBytes payload))
  have hsnoc : ∀ n, flags (n + 1) = flags n ++ FLAG := by
    intro n
    rw [flags, List.replicate_succ', List.flatten_append, flag_eq]
    exact congrArg (flags n ++ ·) (List.append_nil FLAG)
  -- a 0 ends each flag, so it can be taken from the last of them
  obtain ⟨rest, hrest⟩ : ∃ rest, FLAG ++ flags trailingFlags = CLOSING ++ rest ++ [false] := by
    cases trailingFlags with
    | zero => exact ⟨[], rfl⟩
    | succ n =>
        refine ⟨[false] ++ flags n ++ CLOSING, ?_⟩
        rw [hsnoc]
        simp only [FLAG, CLOSING, List.append_assoc, List.cons_append, List.nil_append]
  have hall : flags leadingFlags ++ buildFrameBits payload ++ flags trailingFlags =
      flags (leadingFlags + 1) ++ (stuffed ++ (CLOSING ++ rest)) ++ [false] := by
    have hframe : buildFrameBits payload = FLAG ++ stuffed ++ FLAG := by
      unfold buildFrameBits
      rw [flag_eq]
    rw [hframe, hsnoc]
    simp only [List.append_assoc]
    rw [hrest]
    simp only [List.append_assoc]
  let bits := FLAG.tail ++ (flags leadingFlags ++ (stuffed ++ (CLOSING ++ rest)))
  have hbits : false :: bits = flags (leadingFlags + 1) ++ (stuffed ++ (CLOSING ++ rest)) := by
    rw [flags_succ, List.append_assoc]
    rfl
  refine ⟨bits, rest, hall.trans (by rw [← hbits]), hbits, ?_⟩
  -- runs of ones never get longer than a flag has them
  have hclosing : ∀ k ≤ 6, RunsFit k (FLAG ++ flags trailingFlags) := by
    intro k hk
    have hend : (1 : Nat) ≤ 8 := by decide
    have hflags := runsFit_flags trailingFlags hk (show RunsFit 1 [] from hend)
    rwa [List.append_nil, flags_succ] at hflags
  have hstuffed : RunsFit 1 (stuffed ++ (FLAG ++ flags trailingFlags)) :=
    runsFit_stuffed (show 0 < 5 by decide) (Nat.le_refl 1) _ hclosing
  have hfit := runsFit_flags leadingFlags (Nat.zero_le 6) hstuffed
  have hsame : flags (leadingFlags + 1) ++ (stuffed ++ (FLAG ++ flags trailingFlags)) =
      false :: (bits ++ [false]) := by
    rw [hrest, ← List.cons_append, hbits]
    simp only [List.append_assoc]
  rw [hsame] at hfit
  exact hfit.2.front

/-- What the receiver makes of bits that begin with some of the idle line. -/
theorem payload_found (payload : List Byte) {bits rest : List Bool} {leadingFlags : Nat}
    (hbits : bits = flags (leadingFlags + 1) ++
      (hdlcStuff (bytesToLsbBits (payload ++ crcBytes payload)) ++ (CLOSING ++ rest)))
    (m : Nat) (more : List Bool) :
    ∃ frame ∈ findFrames (nrziDecode (List.replicate m true ++ nrziEncode true bits ++ more)),
      bitsToBytes frame = payload ++ crcBytes payload := by
  have hne : bytesToLsbBits (payload ++ crcBytes payload) ≠ [] :=
    bytesToLsbBits_ne_nil (List.append_ne_nil_of_right_ne_nil _ (List.cons_ne_nil _ _))
  refine ⟨_, ?_, bitsToBytes_append (payload ++ crcBytes payload)
    (show [false].length < 8 by decide)⟩
  rw [nrziDecode_capture, hbits]
  simp only [List.append_assoc]
  exact findFrames_capture m leadingFlags hne _

/-- **The round trip of a frame.**  For every payload, number of samples in a bit, pin, number
of flags and time on the idle line, of which there is some in front, the capture gives back the
payload with its CRC, among the candidates: by run lengths, and by phase, which ends. -/
theorem sdlc_round_trip (payload : List Byte) (sps leadingFlags trailingFlags leadingIdle
    trailingIdle : Nat) (rxdBit : Fin 8) (hsps : 1 ≤ sps) (hidle : 1 ≤ leadingIdle) :
    let samples := buildCapture payload sps leadingFlags trailingFlags leadingIdle trailingIdle
      rxdBit
    let mask := 1#8 <<< rxdBit.val
    (∃ frame ∈ findFrames (nrziDecode (samplesToBits samples mask sps)),
      bitsToBytes frame = payload ++ crcBytes payload) ∧
    ∃ bits, (∃ enough, ∀ fuel, enough ≤ fuel → dpllBits fuel samples mask sps = some bits) ∧
      ∃ frame ∈ findFrames (nrziDecode bits), bitsToBytes frame = payload ++ crcBytes payload := by
  obtain ⟨bits, rest, hall, hbits, hfit⟩ := capture_bits payload leadingFlags trailingFlags
  intro samples mask
  have hsamples : samples = oversample (nrziEncode true (false :: bits ++ [false])) sps rxdBit
      leadingIdle trailingIdle := by
    show buildCapture _ _ _ _ _ _ _ = _
    unfold buildCapture
    rw [← hall]
  rw [hsamples]
  constructor
  · obtain ⟨m, more, heq⟩ := samplesToBits_capture rxdBit hsps hidle trailingIdle hfit
    rw [show mask = maskOf rxdBit from rfl, heq]
    exact payload_found payload hbits m more
  · refine ⟨nrziEncode true (false :: bits ++ [false]) ++ List.replicate trailingIdle true,
      ⟨(bits ++ [false]).length + 1 + trailingIdle + 1, fun fuel hfuel => ?_⟩, ?_⟩
    · exact dpllBits_capture rxdBit hsps hidle trailingIdle (Nat.lt_of_succ_le hfuel)
    · have hfound := payload_found payload hbits 0
        (nrziEncode (levelAfter true (false :: bits)) [false] ++ List.replicate trailingIdle true)
      rw [nrziEncode_append, List.append_assoc]
      exact hfound

/-- One byte, with one sample in a bit and nothing more than is needed around the frame. -/
theorem sdlc_round_trip_least :
    let samples := buildCapture [0x7E#8] 1 0 0 1 0 1
    (∃ frame ∈ findFrames (nrziDecode (samplesToBits samples (1#8 <<< 1) (1 : Nat))),
      bitsToBytes frame = [0x7E#8] ++ crcBytes [0x7E#8]) ∧
    ∃ bits, (∃ enough, ∀ fuel, enough ≤ fuel →
        dpllBits fuel samples (1#8 <<< 1) (1 : Nat) = some bits) ∧
      ∃ frame ∈ findFrames (nrziDecode bits),
        bitsToBytes frame = [0x7E#8] ++ crcBytes [0x7E#8] :=
  sdlc_round_trip [0x7E#8] 1 0 0 1 0 1 (Nat.le_refl 1) (Nat.le_refl 1)

end Sdlc
end Rc700
