import Rc700.Sdlc.RoundTrip

/-!
# The search for frames

Several frames on one line, with any number of flags around each.  The search stops in the
middle of the flag that closes a frame, so this flag does not open the next one: it takes a
second flag for that (`findFrames_line`).
-/

namespace Rc700
namespace Sdlc

/-- Frames on the line, each with so many flags behind it. -/
def framesOnLine (parts : List (List Byte × Nat)) : List Bool :=
  parts.flatMap fun part => hdlcStuff (bytesToLsbBits part.1) ++ flags part.2

/-- Flags, and frames with flags behind them. -/
def line (lead : Nat) (parts : List (List Byte × Nat)) : List Bool :=
  flags lead ++ framesOnLine parts

/-- The frames that have two flags in front of them, or the frame before them passed over. -/
def foundFrames : List (List Byte × Nat) → List (List Byte)
  | [] => []
  | [part] => [part.1]
  | part :: next :: parts =>
      if part.2 = 1 then part.1 :: foundFrames parts else part.1 :: foundFrames (next :: parts)

/-! ### Bits without a flag -/

theorem findFrames_skip {b : Bool} {bits : List Bool} (hflag : ¬FLAG <+: b :: bits) :
    findFrames (b :: bits) = findFrames bits := by
  by_cases hmore : 8 < (b :: bits).length
  · have htake : (b :: bits).take 8 ≠ FLAG := by
      intro heq
      exact hflag (heq ▸ List.take_prefix 8 _)
    rw [findFrames, dif_pos hmore, dif_neg htake, List.drop_one, List.tail_cons]
  · have hshort : ¬8 < bits.length := by
      rw [List.length_cons] at hmore
      omega
    rw [findFrames, dif_neg hmore, findFrames, dif_neg hshort]

theorem findFrames_one (bits : List Bool) : findFrames (true :: bits) = findFrames bits := by
  refine findFrames_skip fun hprefix => ?_
  exact absurd (List.cons_prefix_cons.mp hprefix).1 (by decide)

/-- A zero before stuffed bits is no flag's. -/
theorem findFrames_zero (bits rest : List Bool) :
    findFrames (false :: (stuffFrom 0 bits ++ false :: rest)) =
      findFrames (stuffFrom 0 bits ++ false :: rest) := by
  refine findFrames_skip fun hprefix => ?_
  have hsix := (List.cons_prefix_cons.mp hprefix).2
  exact stuffFrom_ones (show 0 < 5 by decide) bits rest (List.IsPrefix.trans ⟨[false], rfl⟩ hsix)

/-- Stuffed bits are passed over, where no flag was seen before them. -/
theorem findFrames_stuffed {ones : Nat} (hones : ones < 5) (bits rest : List Bool) :
    findFrames (stuffFrom ones bits ++ false :: rest) = findFrames (false :: rest) := by
  induction bits generalizing ones with
  | nil => rfl
  | cons b bits ih =>
      have hzero : findFrames (false :: (stuffFrom 0 bits ++ false :: rest)) =
          findFrames (false :: rest) := by
        rw [findFrames_zero, ih (show 0 < 5 by decide)]
      rw [stuffFrom]
      cases b with
      | false => exact hzero
      | true =>
          by_cases hfive : ones + 1 = 5
          · -- the zero that was stuffed
            rw [if_pos rfl, if_pos hfive, List.cons_append, List.cons_append, findFrames_one, hzero]
          · rw [if_pos rfl, if_neg hfive, List.cons_append, findFrames_one]
            exact ih (by omega)

/-! ### One frame -/

theorem flags_one_more (n : Nat) (rest : List Bool) :
    flags (n + 1) ++ rest = CLOSING ++ false :: (flags n ++ rest) := by
  rw [flags_succ, List.append_assoc]
  rfl

/-- From flags on, the next frame is found, and the search goes on in its closing flag. -/
theorem findFrames_frame (n g : Nat) {bits : List Bool} (hbits : bits ≠ []) (rest : List Bool) :
    findFrames (flags (n + 1) ++ (hdlcStuff bits ++ (flags (g + 1) ++ rest))) =
      (bits ++ [false]) :: findFrames (true :: false :: (flags g ++ rest)) := by
  have hlen : 8 < (flags (n + 1) ++ (hdlcStuff bits ++ (flags (g + 1) ++ rest))).length := by
    rw [flags_succ, flags_succ]
    simp only [List.length_append, FLAG, List.length_cons, List.length_nil]
    omega
  have hflag : (flags (n + 1) ++ (hdlcStuff bits ++ (flags (g + 1) ++ rest))).take 8 = FLAG := by
    rw [flags_succ, List.append_assoc]
    rfl
  have hskip : skipFlags (flags (n + 1) ++ (hdlcStuff bits ++ (flags (g + 1) ++ rest))) =
      hdlcStuff bits ++ (CLOSING ++ false :: (flags g ++ rest)) := by
    rw [skipFlags_flags, flags_one_more]
    exact skipFlags_eq_self (not_flag_first hbits _)
  obtain ⟨ones, hones, htaken⟩ := accumulate_stuffed (show 0 < 5 by decide) [] bits
    (CLOSING ++ false :: (flags g ++ rest))
  have hframe : accumulate 0 [] (hdlcStuff bits ++ (CLOSING ++ false :: (flags g ++ rest))) =
      (bits ++ [false], true :: false :: (flags g ++ rest)) := by
    rw [hdlcStuff, htaken, accumulate_closing hones, List.nil_append]
  rw [findFrames, dif_pos hlen, dif_pos hflag, hskip]
  dsimp only
  rw [hframe, if_pos (List.append_ne_nil_of_right_ne_nil _ (List.cons_ne_nil _ _))]

/-- With a second flag the search is in front of the next frame again. -/
theorem findFrames_behind_flags (g : Nat) (rest : List Bool) :
    findFrames (true :: false :: (flags (g + 1) ++ rest)) = findFrames (flags (g + 1) ++ rest) := by
  rw [findFrames_one, flags_one_more]
  exact findFrames_zero [] _

/-- With a single flag the next frame is passed over. -/
theorem findFrames_behind_flag (bits : List Bool) (g : Nat) (rest : List Bool) :
    findFrames (true :: false :: (flags 0 ++ (hdlcStuff bits ++ (flags (g + 1) ++ rest)))) =
      findFrames (flags (g + 1) ++ rest) := by
  rw [findFrames_one, flags_one_more]
  show findFrames (false :: (stuffFrom 0 bits ++ false :: _)) = _
  rw [findFrames_zero, findFrames_stuffed (show 0 < 5 by decide)]
  rfl

/-- Flags alone have no frame in them. -/
theorem findFrames_flags (n : Nat) : findFrames (flags n) = [] := by
  have hskip : skipFlags (flags n) = [] := by
    have hall := skipFlags_flags n []
    rwa [List.append_nil] at hall
  have hnil : findFrames [] = [] := by simp [findFrames]
  by_cases hmore : 8 < (flags n).length
  · cases n with
    | zero => exact hnil
    | succ n =>
        have hflag : (flags (n + 1)).take 8 = FLAG := by
          rw [flags_succ]
          rfl
        rw [findFrames, dif_pos hmore, dif_pos hflag, hskip]
        exact hnil
  · rw [findFrames, dif_neg hmore]

/-! ### Frames on the line -/

theorem framesOnLine_cons (part : List Byte × Nat) (parts : List (List Byte × Nat)) :
    framesOnLine (part :: parts) =
      hdlcStuff (bytesToLsbBits part.1) ++ (flags part.2 ++ framesOnLine parts) := by
  rw [← List.append_assoc]
  rfl

/-- The first frame of several is found. -/
theorem findFrames_line_cons (lead : Nat) {part : List Byte × Nat} (hframe : part.1 ≠ [])
    (hgap : 1 ≤ part.2) (parts : List (List Byte × Nat)) :
    (findFrames (line (lead + 1) (part :: parts))).map bitsToBytes =
      part.1 :: (findFrames
        (true :: false :: (flags (part.2 - 1) ++ framesOnLine parts))).map bitsToBytes := by
  obtain ⟨g, hg⟩ : ∃ g, part.2 = g + 1 := ⟨part.2 - 1, by omega⟩
  rw [line, framesOnLine_cons, hg, findFrames_frame _ _ (bytesToLsbBits_ne_nil hframe),
    List.map_cons, bitsToBytes_append _ (show [false].length < 8 by decide), Nat.add_sub_cancel]

/-- What is found of frames on the line: the search starts at flags. -/
theorem findFrames_line (lead : Nat) (parts : List (List Byte × Nat))
    (hparts : ∀ part ∈ parts, part.1 ≠ [] ∧ 1 ≤ part.2) :
    (findFrames (line (lead + 1) parts)).map bitsToBytes = foundFrames parts := by
  induction parts using foundFrames.induct generalizing lead with
  | case1 =>
      rw [line, framesOnLine, List.flatMap_nil, List.append_nil, findFrames_flags]
      rfl
  | case2 part =>
      obtain ⟨hframe, hgap⟩ := hparts part (by simp)
      rw [findFrames_line_cons lead hframe hgap, findFrames_one, framesOnLine, List.flatMap_nil,
        List.append_nil]
      -- what is left of the last flag, and any flags behind it
      cases hg : part.2 - 1 with
      | zero => simp [foundFrames, findFrames, flags]
      | succ g =>
          have hlast := findFrames_behind_flags g []
          rw [List.append_nil, findFrames_one] at hlast
          rw [hlast, findFrames_flags]
          rfl
  | case3 part next parts hsingle ih =>
      obtain ⟨hframe, hgap⟩ := hparts part (by simp)
      obtain ⟨hnext, hgap'⟩ := hparts next (by simp)
      obtain ⟨g, hg⟩ : ∃ g, next.2 = g + 1 := ⟨next.2 - 1, by omega⟩
      rw [findFrames_line_cons lead hframe hgap, hsingle, framesOnLine_cons, hg,
        findFrames_behind_flag, foundFrames, if_pos hsingle]
      have hrest := ih g fun p hp => hparts p (by simp [hp])
      rw [line] at hrest
      rw [hrest]
  | case4 part next parts hsingle ih =>
      obtain ⟨hframe, hgap⟩ := hparts part (by simp)
      obtain ⟨g, hg⟩ : ∃ g, part.2 - 1 = g + 1 := ⟨part.2 - 2, by omega⟩
      rw [findFrames_line_cons lead hframe hgap, hg, findFrames_behind_flags, foundFrames,
        if_neg hsingle]
      have hrest := ih g fun p hp => hparts p (by simp [List.mem_cons.mp hp])
      rw [line] at hrest
      rw [hrest]

/-! ### Every frame -/

theorem foundFrames_sublist (parts : List (List Byte × Nat)) :
    (foundFrames parts).Sublist (parts.map Prod.fst) := by
  induction parts using foundFrames.induct with
  | case1 => exact List.Sublist.refl _
  | case2 part => exact List.Sublist.refl _
  | case3 part next parts hsingle ih =>
      rw [foundFrames, if_pos hsingle]
      exact (ih.cons next.1).cons_cons part.1
  | case4 part next parts hsingle ih =>
      rw [foundFrames, if_neg hsingle]
      exact ih.cons_cons part.1

theorem foundFrames_eq_iff (parts : List (List Byte × Nat)) :
    foundFrames parts = parts.map Prod.fst ↔ ∀ part ∈ parts.dropLast, part.2 ≠ 1 := by
  induction parts using foundFrames.induct with
  | case1 => simp [foundFrames]
  | case2 part => simp [foundFrames]
  | case3 part next parts hsingle ih =>
      have hless := (foundFrames_sublist parts).length_le
      rw [foundFrames, if_pos hsingle]
      constructor
      · intro heq
        have hlen := congrArg List.length heq
        simp only [List.length_cons, List.length_map] at hlen hless
        omega
      · intro hall
        exact absurd hsingle (hall part (by simp))
  | case4 part next parts hsingle ih =>
      rw [foundFrames, if_neg hsingle, List.map_cons, List.dropLast_cons_cons, List.cons.injEq, ih]
      simp [hsingle]

/-- **Every frame is found, in order**, exactly where there are two flags or more between each
two frames. -/
theorem frames_found_iff (lead : Nat) (parts : List (List Byte × Nat)) (hlead : 1 ≤ lead)
    (hframes : ∀ part ∈ parts, 2 ≤ part.1.length) (hgaps : ∀ part ∈ parts, 1 ≤ part.2) :
    (parts.map Prod.fst).Sublist ((findFrames (line lead parts)).map bitsToBytes) ↔
      ∀ part ∈ parts.dropLast, 2 ≤ part.2 := by
  obtain ⟨n, rfl⟩ : ∃ n, lead = n + 1 := ⟨lead - 1, by omega⟩
  have hparts : ∀ part ∈ parts, part.1 ≠ [] ∧ 1 ≤ part.2 := by
    intro part hpart
    refine ⟨fun hnil => ?_, hgaps part hpart⟩
    have hlong := hframes part hpart
    rw [hnil] at hlong
    exact absurd hlong (by decide)
  rw [findFrames_line n parts hparts]
  have hboth : (parts.map Prod.fst).Sublist (foundFrames parts) ↔
      foundFrames parts = parts.map Prod.fst := by
    constructor
    · exact (foundFrames_sublist parts).antisymm
    · intro heq
      rw [heq]
  rw [hboth, foundFrames_eq_iff]
  constructor
  · intro hall part hpart
    have hgap := hgaps part (List.mem_of_mem_dropLast hpart)
    have hne := hall part hpart
    omega
  · intro hall part hpart
    have htwo := hall part hpart
    omega

/-- Two frames, and two flags between them. -/
theorem frames_found_iff_two :
    [[0x31#8, 0x32#8], [0x33#8, 0x34#8]].Sublist ((findFrames
        (line 1 [([0x31#8, 0x32#8], 2), ([0x33#8, 0x34#8], 1)])).map bitsToBytes) ↔
      ∀ part ∈ [([0x31#8, 0x32#8], 2), ([0x33#8, 0x34#8], 1)].dropLast, 2 ≤ part.2 :=
  frames_found_iff 1 [([0x31#8, 0x32#8], 2), ([0x33#8, 0x34#8], 1)] (Nat.le_refl 1)
    (by simp) (by simp)

/-- The flag between two frames is shared, and the second is not found. -/
theorem frames_not_found :
    ¬∀ (lead : Nat) (parts : List (List Byte × Nat)), 1 ≤ lead →
      (∀ part ∈ parts, 2 ≤ part.1.length) → (∀ part ∈ parts, 1 ≤ part.2) →
      (parts.map Prod.fst).Sublist ((findFrames (line lead parts)).map bitsToBytes) := by
  intro hall
  have hfound := hall 1 [([0x31#8, 0x32#8], 1), ([0x33#8, 0x34#8], 1)] (Nat.le_refl 1)
    (by simp) (by simp)
  rw [findFrames_line 0 _ (by simp)] at hfound
  exact absurd hfound.length_le (by decide)

end Sdlc
end Rc700
