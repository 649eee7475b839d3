import Rc700.Link.Receiving

/-!
# Sending a frame

SNDMSG as a sender of one message, whose phases are what it waits for: the answer to ENQ,
to the header and to the message.  Both ports run as this sender does (`sends_run`), as
long as nobody looks at the stack.

On the stack they differ.  The port that jumps to `GETACK` in the end has no return
address of its own there, so that `SNDRET` discards one of the caller's; `taken` counts
them (`taken_feed`).
-/

namespace Rc700
namespace Link

open Library Snios

/-! ### The sender -/

/-- What the sender waits for, or its result. -/
inductive Phase
  | enq (d : Byte)
  | header
  | message
  | over (a : Byte)
  deriving DecidableEq, Repr

structure Sender where
  phase : Phase
  retcnt : Byte
  /-- What has been sent, oldest first. -/
  sent : List Byte

/-- An ACK came in time. -/
def Acked : Option Byte → Prop
  | none => False
  | some b => low7 b = ACK

instance Acked.decidable : ∀ x, Decidable (Acked x)
  | none => isFalse id
  | some b => inferInstanceAs (Decidable (low7 b = ACK))

/-- A header on the line. -/
def headerBytes (hdr : List Byte) : List Byte := SOH :: hdr ++ [0#8 - sumFrom SOH hdr]

/-- A payload on the line. -/
def messageBytes (payload : List Byte) : List Byte :=
  STX :: payload ++ [ETX, 0#8 - (sumFrom STX payload + ETX), EOT]

namespace Sender

variable (hdr payload : List Byte)

/-- The sender at its first try. -/
def start : Sender := ⟨.enq TMRETRY, MAXRETRY, [ENQ]⟩

/-- One try less, from ENQ on. -/
def again (s : Sender) : Sender :=
  if s.retcnt - 1#8 ≠ 0#8 then ⟨.enq TMRETRY, s.retcnt - 1#8, s.sent ++ [ENQ]⟩
  else ⟨.over 0xFF#8, s.retcnt - 1#8, s.sent⟩

/-- What comes, or nothing in time. -/
def hear (x : Option Byte) (s : Sender) : Sender :=
  match s.phase with
  | .enq d =>
      match x with
      | none =>
          if d - 1#8 ≠ 0#8 then { s with phase := .enq (d - 1#8) }
          else { s with phase := .over 0xFF#8 }
      | some b =>
          if low7 b = ACK then { s with phase := .header, sent := s.sent ++ headerBytes hdr }
          else s.again
  | .header =>
      if Acked x then { s with phase := .message, sent := s.sent ++ messageBytes payload }
      else s.again
  | .message => if Acked x then { s with phase := .over 0#8 } else s.again
  | .over _ => s

/-- The sender goes on with what comes. -/
def run (s : Sender) (xs : List (Option Byte)) : Sender :=
  xs.foldl (fun s x => s.hear hdr payload x) s

/-- What comes of a byte, or of silence. -/
inductive Heard (hdr payload : List Byte) (s : Sender) (x : Option Byte) : Sender → Prop
  | waits (d : Byte) (hphase : s.phase = .enq d) (hx : x = none) :
      Heard hdr payload s x { s with phase := .enq (d - 1#8) }
  | silence (d : Byte) (hphase : s.phase = .enq d) (hx : x = none) :
      Heard hdr payload s x { s with phase := .over 0xFF#8 }
  | header (d : Byte) (hphase : s.phase = .enq d) (hack : Acked x) :
      Heard hdr payload s x { s with phase := .header, sent := s.sent ++ headerBytes hdr }
  | message (hphase : s.phase = .header) (hack : Acked x) :
      Heard hdr payload s x { s with phase := .message, sent := s.sent ++ messageBytes payload }
  | done (hphase : s.phase = .message) (hack : Acked x) :
      Heard hdr payload s x { s with phase := .over 0#8 }
  | again (hack : ¬ Acked x) : Heard hdr payload s x s.again
  | over (a : Byte) (hphase : s.phase = .over a) : Heard hdr payload s x s

theorem heard (s : Sender) (x : Option Byte) :
    Heard hdr payload s x (s.hear hdr payload x) := by
  obtain ⟨phase, retcnt, sent⟩ := s
  unfold hear
  cases phase with
  | enq d =>
      cases x with
      | none =>
          simp only
          split
          · exact .waits d rfl rfl
          · exact .silence d rfl rfl
      | some b =>
          simp only
          split
          · rename_i hack
            exact .header d rfl hack
          · rename_i hack
            exact .again hack
  | header =>
      simp only
      split
      · rename_i hack
        exact .message rfl hack
      · rename_i hack
        exact .again hack
  | message =>
      simp only
      split
      · rename_i hack
        exact .done rfl hack
      · rename_i hack
        exact .again hack
  | «over» a => exact .over a rfl

/-- Another try starts with ENQ, or it was the last. -/
theorem again_phase (s : Sender) :
    s.again.phase = .enq TMRETRY ∨ s.again.phase = .over 0xFF#8 := by
  unfold again
  split
  · exact .inl rfl
  · exact .inr rfl

end Sender

/-! ### What the ports send -/

variable (port : Port) {hdr payload : List Byte} {m : Snios} {s : Sender}

/-- **`MSOLP`** sends from memory. -/
theorem msolp_eq (n : Nat) (m : Snios) :
    msolp n m = { m with
      d := sumFrom m.d (loadAt m.mem m.hl n)
      hl := m.hl + BitVec.ofNat 16 n
      e := m.e - BitVec.ofNat 8 n
      sent := m.sent ++ loadAt m.mem m.hl n } := by
  induction n generalizing m with
  | zero =>
      show m = { m with
        hl := m.hl + 0#16
        e := m.e - 0#8
        sent := m.sent ++ [] }
      rw [BitVec.add_zero, BitVec.sub_zero, List.append_nil]
  | succ n ih =>
      have hhl : m.hl + BitVec.ofNat 16 (n + 1) = m.hl + 1#16 + BitVec.ofNat 16 n :=
        (add_one_add_ofNat m.hl n).symm
      have he : m.e - BitVec.ofNat 8 (n + 1) = m.e - 1#8 - BitVec.ofNat 8 n := by
        bv_omega
      have hsent : m.sent ++ loadAt m.mem m.hl (n + 1) =
          m.sent ++ [m.mem m.hl] ++ loadAt m.mem (m.hl + 1#16) n := by
        rw [List.append_assoc]
        rfl
      rw [msolp, ih, hhl, he, hsent]
      rfl

/-- The return address of the last `CALL GETACK`, where there is one. -/
def final : Port → List Return
  | .cpnos => []
  | .cpnet => [.dataAck]

/-- The message and the counts of a sender, in the machine. -/
structure Carries (hdr payload : List Byte) (m : Snios) (s : Sender) : Prop where
  header : loadAt m.mem m.msgadr 5 = hdr
  message : loadAt m.mem (m.msgadr + 5#16) ((siz hdr).toNat + 1) = payload
  retcnt : m.retcnt = s.retcnt
  sent : m.sent = s.sent

/-- The machine is in a phase of the sender. -/
def At (port : Port) (m : Snios) : Phase → Prop
  | .enq d => m.place = .waiting .enqrsp ∧ m.stack = [] ∧ m.hl = m.msgadr ∧ m.d = d
  | .header => m.place = .waiting .getack ∧ m.stack = [.headerAck] ∧ m.hl = m.msgadr + 5#16
  | .message => m.place = .waiting .getack ∧ m.stack = final port
  | .over a => (∃ word, m.place = .returned word ∧ m.popped = word + 1) ∧ m.stack = [] ∧ m.a = a

/-- The machine does as the sender does. -/
structure Sends (port : Port) (hdr payload : List Byte) (m : Snios) (s : Sender) : Prop where
  carries : Carries hdr payload m s
  place : At port m s.phase

/-- How many words of the caller's stack have been taken before the one returned to. -/
def taken (m : Snios) : Nat :=
  match m.place with
  | .waiting _ => m.popped
  | .returned word => word

/-- The header goes out. -/
theorem sends_sendHeader (hm : Carries hdr payload m s) (hstack : m.stack = [])
    (hhl : m.hl = m.msgadr) :
    Sends port hdr payload (sendHeader m)
        { s with phase := .header, sent := s.sent ++ headerBytes hdr } ∧
      taken (sendHeader m) = m.popped := by
  have hfive : passes 5#8 = 5 := by decide
  have hsent : (sendHeader m).sent = m.sent ++ headerBytes (loadAt m.mem m.hl 5) := by
    unfold sendHeader msgout
    simp only [netout, sendby, hfive, msolp_eq, await]
    rw [headerBytes, BitVec.zero_add, List.append_assoc, List.append_assoc]
    rfl
  have hother : sendHeader m = { m with
      d := (sendHeader m).d
      e := (sendHeader m).e
      hl := m.hl + 5#16
      stack := .headerAck :: m.stack
      place := .waiting .getack
      sent := (sendHeader m).sent } := by
    unfold sendHeader msgout
    simp only [netout, sendby, hfive, msolp_eq, await]
  rw [hhl, hm.header, hm.sent] at hsent
  generalize sendHeader m = m' at hsent hother ⊢
  rw [hother]
  refine ⟨⟨⟨hm.header, hm.message, hm.retcnt, hsent⟩, rfl, ?_, ?_⟩, rfl⟩
  · show _ :: m.stack = _
    rw [hstack]
  · show m.hl + 5#16 = m.msgadr + 5#16
    rw [hhl]

/-- The message goes out. -/
theorem sends_sendData (hm : Carries hdr payload m s) (hstack : m.stack = [])
    (hhl : m.hl = m.msgadr + 5#16) :
    Sends port hdr payload (sendData port m)
        { s with phase := .message, sent := s.sent ++ messageBytes payload } ∧
      taken (sendData port m) = m.popped := by
  -- the header is in front of the data, so SIZ is the byte before HL
  have hsiz : m.mem (m.hl - 1#16) = siz hdr := by
    have hadr : m.hl - 1#16 = m.msgadr + BitVec.ofNat 16 4 := by
      rw [hhl]
      bv_omega
    have hlen : 4 < (loadAt m.mem m.msgadr 5).length := by
      rw [length_loadAt]
      decide
    rw [hadr, ← getElem_loadAt m.mem m.msgadr hlen, siz, ← hm.header,
      List.getD_eq_getElem _ _ hlen]
  have hpasses : passes (siz hdr + 1#8) = (siz hdr).toNat + 1 := by
    unfold passes
    bv_omega
  have hsent : (sendData port m).sent = m.sent ++
      messageBytes (loadAt m.mem m.hl ((siz hdr).toNat + 1)) := by
    unfold sendData msgout
    simp only [netout, sendby, hsiz, hpasses, msolp_eq, await]
    cases port
    all_goals
      simp only [messageBytes, BitVec.zero_add, List.append_assoc, List.cons_append,
        List.nil_append]
  have hother : sendData port m = { m with
      d := (sendData port m).d
      e := (sendData port m).e
      hl := (sendData port m).hl
      stack := final port ++ m.stack
      place := .waiting .getack
      sent := (sendData port m).sent } := by
    unfold sendData msgout
    simp only [netout, sendby, msolp_eq, await]
    cases port <;> rfl
  rw [hhl, hm.message, hm.sent] at hsent
  generalize sendData port m = m' at hsent hother ⊢
  rw [hother]
  refine ⟨⟨⟨hm.header, hm.message, hm.retcnt, hsent⟩, rfl, ?_⟩, rfl⟩
  show final port ++ m.stack = _
  rw [hstack, List.append_nil]

/-! ### Trying again -/

/-- The sender is over. -/
theorem sends_over {a : Byte} (hm : Carries hdr payload m s) (hstack : m.stack = [])
    (ha : m.a = a) :
    Sends port hdr payload (ret port m) { s with phase := .over a } ∧
      taken (ret port m) = m.popped := by
  rw [ret, hstack]
  exact ⟨⟨⟨hm.header, hm.message, hm.retcnt, hm.sent⟩, ⟨m.popped, rfl, rfl⟩, rfl, ha⟩, rfl⟩

/-- **`SNDRET`** discards what is on top of the stack. -/
theorem sends_sndret (hm : Carries hdr payload m s) (hstack : (pop m).stack = []) :
    Sends port hdr payload (sndret port m) s.again ∧
      taken (sndret port m) = (pop m).popped := by
  have hpop : Carries hdr payload (pop m) s := by
    unfold pop
    split
    · exact ⟨hm.header, hm.message, hm.retcnt, hm.sent⟩
    · exact ⟨hm.header, hm.message, hm.retcnt, hm.sent⟩
  have hpred : (pop m).retcnt - 1#8 = s.retcnt - 1#8 := congrArg (· - 1#8) hpop.retcnt
  unfold sndret Sender.again
  generalize pop m = m' at hstack hpop hpred ⊢
  by_cases hzero : s.retcnt - 1#8 = 0#8
  · rw [if_neg (not_not_intro hzero), if_neg (not_not_intro (hpred.trans hzero))]
    exact sends_over (s := ⟨s.phase, s.retcnt - 1#8, s.sent⟩) port
      ⟨hpop.header, hpop.message, hpred, hpop.sent⟩ hstack rfl
  · rw [if_pos hzero, if_pos (fun h => hzero (hpred.symm.trans h))]
    refine ⟨⟨⟨hpop.header, hpop.message, hpred, ?_⟩, rfl, hstack, rfl, rfl⟩, rfl⟩
    show m'.sent ++ [ENQ] = s.sent ++ [ENQ]
    rw [hpop.sent]

/-- `CHKACK` -/
theorem chkack_eq (b : Byte) (m : Snios) :
    chkack port b m = if low7 b = ACK then ret port { m with a := 0#8 }
      else sndret port { m with a := low7 b - ACK } := by
  have hzero : low7 b - ACK = 0#8 ↔ low7 b = ACK := by
    constructor
    · intro h
      bv_omega
    · intro h
      rw [h, BitVec.sub_self]
  unfold chkack
  by_cases hack : low7 b = ACK
  · rw [if_pos hack, if_pos (hzero.mpr hack), hzero.mpr hack]
  · rw [if_neg hack, if_neg (fun h => hack (hzero.mp h))]

/-! ### Steps and runs -/

/-- One word of the caller's stack is discarded: `SNDRET` has no return address of its own
to discard. -/
def Slips (port : Port) (s : Sender) (x : Option Byte) : Prop :=
  port = .cpnos ∧ s.phase = .message ∧ ¬ Acked x

instance (port : Port) (s : Sender) (x : Option Byte) : Decidable (Slips port s x) :=
  inferInstanceAs (Decidable (_ ∧ _ ∧ ¬ _))

theorem taken_waiting {w : Wait} (hplace : m.place = .waiting w) : taken m = m.popped := by
  rw [taken, hplace]

/-- `ENQRSP` -/
theorem feed_enqrsp (hplace : m.place = .waiting .enqrsp) :
    feed port none m = (if m.d - 1#8 ≠ 0#8 then { m with d := m.d - 1#8 }
      else sndtmo port { m with d := m.d - 1#8 }) ∧
    ∀ b, feed port (some b) m = if low7 b = ACK then sendHeader { m with a := 0#8 }
      else sndret port { m with a := low7 b - ACK, stack := .enqAck :: m.stack } := by
  cases m
  cases hplace
  exact ⟨rfl, fun b => chkack_eq port b _⟩

/-- `GETACK` -/
theorem feed_getack (hplace : m.place = .waiting .getack) (x : Option Byte) :
    ∃ a, feed port x m = if Acked x then ret port { m with a := 0#8 }
      else sndret port { m with a := a } := by
  cases x with
  | none =>
      have hfeed : feed port none m = sndret port m := by
        unfold feed
        rw [hplace]
      exact ⟨m.a, hfeed⟩
  | some b =>
      have hfeed : feed port (some b) m = chkack port b m := by
        unfold feed
        rw [hplace]
      exact ⟨low7 b - ACK, hfeed.trans (chkack_eq port b m)⟩

/-- **One step**: the machine goes on as the sender does. -/
theorem sends_feed (hm : Sends port hdr payload m s) (x : Option Byte) :
    Sends port hdr payload (feed port x m) (s.hear hdr payload x) ∧
      taken (feed port x m) = taken m + if Slips port s x then 1 else 0 := by
  obtain ⟨phase, retcnt, sent⟩ := s
  obtain ⟨⟨hheader, hmessage, hretcnt, hsent⟩, hat⟩ := hm
  have hslips : phase ≠ .message → ¬ Slips port ⟨phase, retcnt, sent⟩ x :=
    fun hphase hslips => hphase hslips.2.1
  cases phase with
  | enq d =>
      obtain ⟨hplace, hstack, hhl, rfl⟩ := hat
      obtain ⟨hsilence, hheard⟩ := feed_enqrsp port hplace
      rw [if_neg (hslips (by simp)), Nat.add_zero, taken_waiting hplace]
      unfold Sender.hear
      cases x with
      | none =>
          rw [hsilence]
          by_cases hzero : m.d - 1#8 = 0#8
          · simp only [hzero, ne_eq, not_true_eq_false, if_false]
            have hover := sends_over (m := errrtn SNDERR { m with d := 0#8 }) (a := 0xFF#8) port
              ⟨hheader, hmessage, hretcnt, hsent⟩ hstack rfl
            exact hover
          · simp only [hzero, ne_eq, not_false_eq_true, if_true]
            have hwaits : taken { m with d := m.d - 1#8 } = m.popped :=
              taken_waiting (m := { m with d := m.d - 1#8 }) hplace
            exact ⟨⟨⟨hheader, hmessage, hretcnt, hsent⟩, hplace, hstack, hhl, rfl⟩, hwaits⟩
      | some b =>
          rw [hheard b]
          simp only
          by_cases hack : low7 b = ACK
          · rw [if_pos hack, if_pos hack]
            exact sends_sendHeader (m := { m with a := 0#8 }) port
              ⟨hheader, hmessage, hretcnt, hsent⟩ hstack hhl
          · rw [if_neg hack, if_neg hack]
            exact sends_sndret (m := { m with a := low7 b - ACK, stack := .enqAck :: m.stack }) port
              ⟨hheader, hmessage, hretcnt, hsent⟩ hstack
  | header =>
      obtain ⟨hplace, hstack, hhl⟩ := hat
      obtain ⟨a, hfeed⟩ := feed_getack port hplace x
      rw [if_neg (hslips (by simp)), Nat.add_zero, taken_waiting hplace, hfeed]
      unfold Sender.hear
      simp only
      by_cases hack : Acked x
      · rw [if_pos hack, if_pos hack, ret]
        show Sends port hdr payload (retTo port m.stack { m with a := 0#8 }) _ ∧ _
        rw [hstack]
        exact sends_sendData (m := { m with a := 0#8, stack := [] }) port
          ⟨hheader, hmessage, hretcnt, hsent⟩ rfl hhl
      · rw [if_neg hack, if_neg hack]
        have hpop : pop { m with a := a } = { m with a := a, stack := [] } := by
          unfold pop
          rw [hstack]
        have hagain := sends_sndret (m := { m with a := a }) port
          ⟨hheader, hmessage, hretcnt, hsent⟩
          (congrArg Snios.stack hpop)
        rw [hpop] at hagain
        exact hagain
  | message =>
      obtain ⟨hplace, hstack⟩ := hat
      obtain ⟨a, hfeed⟩ := feed_getack port hplace x
      rw [taken_waiting hplace, hfeed]
      unfold Sender.hear
      simp only
      by_cases hack : Acked x
      · rw [if_pos hack, if_pos hack, if_neg (fun hslips => hslips.2.2 hack), Nat.add_zero, ret]
        show Sends port hdr payload (retTo port m.stack { m with a := 0#8 }) _ ∧ _
        rw [hstack]
        cases port
        all_goals
          exact sends_over (m := { m with a := 0#8, stack := [] }) _
            ⟨hheader, hmessage, hretcnt, hsent⟩ rfl rfl
      · rw [if_neg hack, if_neg hack]
        cases port with
        | cpnos =>
            -- nothing of its own is on the stack
            have hpop : pop { m with a := a } =
                { m with a := a, stack := [], popped := m.popped + 1 } := by
              unfold pop
              rw [hstack]
              rfl
            have hagain := sends_sndret (m := { m with a := a }) .cpnos
              ⟨hheader, hmessage, hretcnt, hsent⟩
              (congrArg Snios.stack hpop)
            rw [hpop] at hagain
            rw [if_pos ⟨rfl, rfl, hack⟩]
            exact hagain
        | cpnet =>
            have hpop : pop { m with a := a } = { m with a := a, stack := [] } := by
              unfold pop
              rw [hstack]
              rfl
            have hagain := sends_sndret (m := { m with a := a }) .cpnet
              ⟨hheader, hmessage, hretcnt, hsent⟩
              (congrArg Snios.stack hpop)
            rw [hpop] at hagain
            rw [if_neg (by rintro ⟨⟨⟩, _⟩)]
            exact hagain
  | «over» a =>
      obtain ⟨⟨word, hplace, hpopped⟩, hstack, ha⟩ := hat
      rw [if_neg (hslips (by simp)), Nat.add_zero]
      unfold feed Sender.hear
      rw [hplace]
      exact ⟨⟨⟨hheader, hmessage, hretcnt, hsent⟩, ⟨word, hplace, hpopped⟩, hstack, ha⟩, rfl⟩

/-- **The run**: the machine sends what the sender sends, and has the sender's result. -/
theorem sends_run (hm : Sends port hdr payload m s) (xs : List (Option Byte)) :
    Sends port hdr payload (run port m xs) (s.run hdr payload xs) := by
  induction xs generalizing m s with
  | nil => exact hm
  | cons x xs ih => exact ih (sends_feed port hm x).1

/-! ### Calls -/

/-- The header that SNDMSG sends: it has the number of the node for SID. -/
def hdrAt (bc : Word) (m : Snios) : List Byte :=
  loadAt (Function.update m.mem (bc + 2#16) m.slaveid) bc 5

/-- The payload that SNDMSG sends. -/
def payloadAt (bc : Word) (m : Snios) : List Byte :=
  loadAt (Function.update m.mem (bc + 2#16) m.slaveid) (bc + 5#16) ((siz (hdrAt bc m)).toNat + 1)

/-- **SNDMSG of an active node** starts as the sender does. -/
theorem sends_sndmsg (bc : Word) (hactive : m.netst &&& ACTIVE ≠ 0#8) :
    Sends port (hdrAt bc m) (payloadAt bc m) (sndmsg port bc m) .start ∧
      taken (sndmsg port bc m) = 0 := by
  have hsnd : sndmsg port bc m = sndms0 bc (called m) := if_neg hactive
  rw [hsnd]
  exact ⟨⟨⟨rfl, rfl, rfl, rfl⟩, rfl, rfl, rfl, rfl⟩, rfl⟩

/-- SNDMSG of a node that is not active returns at once. -/
theorem sndmsg_inactive (bc : Word) (hinactive : m.netst &&& ACTIVE = 0#8) :
    sndmsg port bc m = { called m with a := 0xFF#8, popped := 1, place := .returned 0 } :=
  if_pos hinactive

end Link
end Rc700
