import Rc700.Link.Sending

/-!
# What SNIOS stores

SNDMSG stores nothing but the number of the node, in the message.  RCVMSG stores what it
receives from the start of the buffer on: a header, and then as many bytes as its SIZ says.
So it stays within a buffer, as long as the data do (`feed_stores`).
-/

namespace Rc700
namespace Link

open Library Snios

variable (port : Port) {m m' : Snios}

/-- The node is active. -/
def Active (m : Snios) : Prop := m.netst &&& ACTIVE ≠ 0#8

/-! ### What is kept -/

/-- The memory is as it was, and what a call does not change. -/
structure Keeps (m m' : Snios) : Prop where
  mem : m'.mem = m.mem
  msgadr : m'.msgadr = m.msgadr
  slaveid : m'.slaveid = m.slaveid
  active : Active m → Active m'

theorem Keeps.refl (m : Snios) : Keeps m m := ⟨rfl, rfl, rfl, id⟩

theorem Keeps.trans {m'' : Snios} (hfirst : Keeps m m') (hrest : Keeps m' m'') : Keeps m m'' :=
  ⟨hrest.mem.trans hfirst.mem, hrest.msgadr.trans hfirst.msgadr,
    hrest.slaveid.trans hfirst.slaveid, fun hactive => hrest.active (hfirst.active hactive)⟩

/-- An error leaves the node active. -/
theorem Keeps.errrtn (hm : Keeps m m') (bit : Byte) : Keeps m (errrtn bit m') := by
  refine hm.trans ⟨rfl, rfl, rfl, fun hactive hnone => hactive ?_⟩
  have hsplit : (m'.netst ||| bit) &&& ACTIVE = 0#8 := hnone
  ext i hi
  have hbit := congrArg (·.getLsbD i) hsplit
  simp only [BitVec.getLsbD_and, BitVec.getLsbD_or, BitVec.getLsbD_zero] at hbit
  rw [← BitVec.getLsbD_eq_getElem, ← BitVec.getLsbD_eq_getElem, BitVec.getLsbD_and,
    BitVec.getLsbD_zero]
  cases hnetst : m'.netst.getLsbD i with
  | false => rfl
  | true =>
      rw [hnetst, Bool.true_or] at hbit
      exact hbit

theorem Keeps.msolp (hm : Keeps m m') (n : Nat) : Keeps m (msolp n m') := by
  induction n generalizing m' with
  | zero => exact hm
  | succ n ih => exact ih (hm.trans ⟨rfl, rfl, rfl, id⟩)

theorem Keeps.sendHeader (hm : Keeps m m') : Keeps m (sendHeader m') := by
  have hout : Keeps m (msgout SOH { m' with e := 5#8 }) := by
    refine Keeps.msolp ?_ _
    exact hm.trans ⟨rfl, rfl, rfl, id⟩
  exact hout.trans ⟨rfl, rfl, rfl, id⟩

theorem Keeps.sendData (hm : Keeps m m') : Keeps m (sendData port m') := by
  have hout : Keeps m (msgout STX { m' with e := m'.mem (m'.hl - 1#16) + 1#8 }) := by
    refine Keeps.msolp ?_ _
    exact hm.trans ⟨rfl, rfl, rfl, id⟩
  unfold Snios.sendData
  generalize msgout STX { m' with e := m'.mem (m'.hl - 1#16) + 1#8 } = m₀ at hout ⊢
  cases port with
  | cpnos => exact hout.trans ⟨rfl, rfl, rfl, id⟩
  | cpnet => exact hout.trans ⟨rfl, rfl, rfl, id⟩

theorem Keeps.retTo (hm : Keeps m m') (stack : List Return) : Keeps m (retTo port stack m') := by
  induction stack generalizing m' with
  | nil =>
      rw [Snios.retTo]
      exact hm.trans ⟨rfl, rfl, rfl, id⟩
  | cons r stack ih =>
      cases r with
      | enqAck =>
          rw [Snios.retTo]
          refine Keeps.sendHeader ?_
          exact hm.trans ⟨rfl, rfl, rfl, id⟩
      | headerAck =>
          rw [Snios.retTo]
          refine Keeps.sendData port ?_
          exact hm.trans ⟨rfl, rfl, rfl, id⟩
      | dataAck =>
          rw [Snios.retTo]
          exact ih hm
      | «recall» =>
          rw [Snios.retTo]
          split
          · exact hm.trans ⟨rfl, rfl, rfl, id⟩
          · refine ih (Keeps.errrtn ?_ RCVERR)
            exact hm.trans ⟨rfl, rfl, rfl, id⟩

theorem Keeps.ret (hm : Keeps m m') : Keeps m (ret port m') := hm.retTo port m'.stack

theorem Keeps.pop (hm : Keeps m m') : Keeps m (pop m') := by
  unfold Snios.pop
  split
  · exact hm.trans ⟨rfl, rfl, rfl, id⟩
  · exact hm.trans ⟨rfl, rfl, rfl, id⟩

theorem Keeps.sndret (hm : Keeps m m') : Keeps m (sndret port m') := by
  unfold Snios.sndret
  simp only
  split
  · exact hm.pop.trans ⟨rfl, rfl, rfl, id⟩
  · refine Keeps.ret port (Keeps.errrtn ?_ SNDERR)
    exact hm.pop.trans ⟨rfl, rfl, rfl, id⟩

theorem Keeps.chkack (hm : Keeps m m') (b : Byte) : Keeps m (chkack port b m') := by
  unfold Snios.chkack
  simp only
  split
  · refine Keeps.ret port ?_
    exact hm.trans ⟨rfl, rfl, rfl, id⟩
  · refine Keeps.sndret port ?_
    exact hm.trans ⟨rfl, rfl, rfl, id⟩

/-- **SNDMSG stores nothing** while it waits for an answer. -/
theorem keeps_feed {w : Wait} (hplace : m.place = .waiting w) (hsends : w.receives = false)
    (x : Option Byte) : Keeps m (feed port x m) := by
  cases w with
  | enqrsp =>
      unfold feed
      rw [hplace]
      cases x with
      | none =>
          simp only
          split
          · exact ⟨rfl, rfl, rfl, id⟩
          · refine Keeps.ret port (Keeps.errrtn ?_ SNDERR)
            exact ⟨rfl, rfl, rfl, id⟩
      | some b =>
          refine Keeps.chkack port ?_ b
          exact ⟨rfl, rfl, rfl, id⟩
  | getack =>
      unfold feed
      rw [hplace]
      cases x with
      | none => exact Keeps.sndret port (Keeps.refl m)
      | some b => exact Keeps.chkack port (Keeps.refl m) b
  | _ => exact nomatch hsends

/-- SNDMSG waits for an answer, or it has returned. -/
theorem sends_place {hdr payload : List Byte} {s : Sender} (hsends : Sends port hdr payload m s) :
    (∃ w : Wait, m.place = .waiting w ∧ w.receives = false) ∨ m.place = .returned (taken m) := by
  obtain ⟨phase, retcnt, sent⟩ := s
  have hat := hsends.place
  cases phase with
  | enq d => exact .inl ⟨.enqrsp, hat.1, rfl⟩
  | header => exact .inl ⟨.getack, hat.1, rfl⟩
  | message => exact .inl ⟨.getack, hat.1, rfl⟩
  | «over» a =>
      obtain ⟨⟨word, hplace, -⟩, -⟩ := hat
      refine .inr ?_
      rw [taken, hplace]

theorem keeps_run {hdr payload : List Byte} {s : Sender} (hsends : Sends port hdr payload m s)
    (xs : List (Option Byte)) : Keeps m (run port m xs) := by
  induction xs generalizing m s with
  | nil => exact Keeps.refl m
  | cons x xs ih =>
      have hfirst : Keeps m (feed port x m) := by
        rcases sends_place port hsends with ⟨w, hplace, hwaits⟩ | hplace
        · exact keeps_feed port hplace hwaits x
        · have hsame : feed port x m = m := run_returned port hplace [x]
          rw [hsame]
          exact Keeps.refl m
      exact hfirst.trans (ih (sends_feed port hsends x).1)

/-! ### What RCVMSG stores -/

/-- Where RCVMSG is to store the header. -/
def Aims (m : Snios) : Prop :=
  match m.place with
  | .waiting .rcvfst => m.hl = m.msgadr
  | .waiting .soh => m.hl = m.msgadr
  | .waiting .header => (m.hl - m.msgadr).toNat + passes m.e = 5
  | _ => True

/-- What has been stored is in the buffer. -/
structure Stores (size : Nat) (m m' : Snios) : Prop where
  aims : Aims m'
  msgadr : m'.msgadr = m.msgadr
  slaveid : m'.slaveid = m.slaveid
  active : Active m → Active m'
  other : ∀ p, size ≤ (p - m.msgadr).toNat → m'.mem p = m.mem p

theorem Keeps.stores {size : Nat} (hkeeps : Keeps m m') (haims : Aims m') :
    Stores size m m' :=
  ⟨haims, hkeeps.msgadr, hkeeps.slaveid, hkeeps.active, fun p _ => congrFun hkeeps.mem p⟩

/-- Another try starts at the buffer. -/
theorem stores_ret {size : Nat} {m₀ : Snios} (hkeeps : Keeps m m₀)
    (hstack : m₀.stack = [.recall]) : Stores size m (ret port m₀) := by
  refine (hkeeps.ret port).stores ?_
  rw [ret, hstack, retTo]
  split
  · exact rfl
  · exact trivial

theorem stores_accept {size : Nat} (hstack : m.stack = [.recall]) :
    Stores size m (accept port m) := by
  unfold accept
  rw [pop_recall hstack]
  refine Keeps.stores (Keeps.ret port ?_) trivial
  exact ⟨rfl, rfl, rfl, id⟩

/-- One byte is stored, and there are more to come or not. -/
theorem stores_msgin {size : Nat} (b : Byte) (hinside : (m.hl - m.msgadr).toNat < size)
    (haims : Aims m') (hmem : m'.mem = (msgin b m).mem) (hmsgadr : m'.msgadr = m.msgadr)
    (hslaveid : m'.slaveid = m.slaveid) (hnetst : m'.netst = m.netst) : Stores size m m' := by
  refine ⟨haims, hmsgadr, hslaveid, fun hactive => ?_, fun p hp => ?_⟩
  · rw [Active, hnetst]
    exact hactive
  · rw [hmem]
    refine Function.update_of_ne (fun heq => ?_) _ _
    rw [heq] at hp
    omega

/-- After a byte that is not the last, the same place is reached with the next one. -/
theorem aims_next (hsmall : (m.hl - m.msgadr).toNat + passes m.e < 2 ^ 16)
    (hmore : m.e - 1#8 ≠ 0#8) (b : Byte) :
    ((msgin b m).hl - (msgin b m).msgadr).toNat + passes (msgin b m).e =
      (m.hl - m.msgadr).toNat + passes m.e := by
  show (m.hl + 1#16 - m.msgadr).toNat + passes (m.e - 1#8) = _
  unfold passes at hsmall ⊢
  bv_omega

/-- **One byte more**: what RCVMSG stores is in the buffer, as long as the data are. -/
theorem feed_stores {size : Nat} (hm : Receiving m) (haims : Aims m) (hsize : 5 ≤ size)
    (x : Option Byte)
    (hfits : m.place = .waiting .data → x ≠ none → (m.hl - m.msgadr).toNat < size) :
    Stores size m (feed port x m) := by
  obtain ⟨⟨w, hplace, hreceives⟩, hstack, -, -⟩ := hm
  have hstays : Stores size m m := (Keeps.refl m).stores haims
  unfold Aims at haims
  unfold feed
  rw [hplace] at haims ⊢
  -- what the byte does, by the place in the receiver
  cases w with
  | enqrsp => exact nomatch hreceives
  | getack => exact nomatch hreceives
  | rcvfst =>
      cases x with
      | none =>
          simp only
          split
          · exact Keeps.stores ⟨rfl, rfl, rfl, id⟩ haims
          · -- the wait is over, and RCVMSG with it
            have hpop : pop { m with d := m.d - 1#8 } = { m with d := m.d - 1#8, stack := [] } :=
              pop_recall hstack
            rw [hplace] at hpop
            rw [hpop]
            refine Keeps.stores (Keeps.ret port (Keeps.errrtn ?_ RCVERR)) trivial
            exact ⟨rfl, rfl, rfl, id⟩
      | some b =>
          simp only
          split
          · exact Keeps.stores ⟨rfl, rfl, rfl, id⟩ haims
          · exact Keeps.stores ⟨rfl, rfl, rfl, id⟩ rfl
  | soh =>
      cases x with
      | none => exact hstays
      | some b =>
          simp only
          split
          · refine Keeps.stores ⟨rfl, rfl, rfl, id⟩ ?_
            -- a header goes to the start of the message, all five bytes of it
            have hstart : m.hl = m.msgadr := haims
            show (m.hl - m.msgadr).toNat + passes 5#8 = 5
            rw [hstart, BitVec.sub_self]
            rfl
          · exact stores_ret port (Keeps.refl m) hstack
  | header =>
      have hbytes : (m.hl - m.msgadr).toNat + passes m.e = 5 := haims
      have hinside : (m.hl - m.msgadr).toNat < size := by
        unfold passes at hbytes
        omega
      cases x with
      | none => exact hstays
      | some b =>
          simp only
          split
          · rename_i hmore
            refine stores_msgin b hinside ?_ rfl rfl rfl rfl
            have hplace' : (msgin b m).place = .waiting .header := hplace
            rw [Aims, hplace']
            exact (aims_next (by omega) hmore b).trans hbytes
          · exact stores_msgin b hinside trivial rfl rfl rfl rfl
  | hcs =>
      cases x with
      | none => exact hstays
      | some b =>
          simp only
          split
          · refine stores_ret port ?_ hstack
            exact ⟨rfl, rfl, rfl, id⟩
          · exact Keeps.stores ⟨rfl, rfl, rfl, id⟩ trivial
  | stx =>
      cases x with
      | none => exact hstays
      | some b =>
          simp only
          split
          · exact Keeps.stores ⟨rfl, rfl, rfl, id⟩ trivial
          · exact stores_ret port (Keeps.refl m) hstack
  | data =>
      cases x with
      | none => exact hstays
      | some b =>
          have hinside := hfits hplace (Option.some_ne_none b)
          simp only
          split
          · refine stores_msgin b hinside ?_ rfl rfl rfl rfl
            have hplace' : (msgin b m).place = .waiting .data := hplace
            rw [Aims, hplace']
            exact trivial
          · exact stores_msgin b hinside trivial rfl rfl rfl rfl
  | etx =>
      cases x with
      | none => exact hstays
      | some b =>
          simp only
          split
          · exact Keeps.stores ⟨rfl, rfl, rfl, id⟩ trivial
          · exact stores_ret port (Keeps.refl m) hstack
  | cks =>
      cases x with
      | none => exact hstays
      | some b => exact Keeps.stores ⟨rfl, rfl, rfl, id⟩ trivial
  | eot =>
      cases x with
      | none => exact hstays
      | some b =>
          simp only
          split
          · split
            · refine stores_ret port ?_ hstack
              exact ⟨rfl, rfl, rfl, id⟩
            · exact stores_accept port hstack
          · exact stores_ret port (Keeps.refl m) hstack

/-! ### What RCVMSG accepts -/

/-- The byte ends a message for this node. -/
def Takes (m : Snios) (x : Option Byte) : Prop :=
  m.place = .waiting .eot ∧ x.map low7 = some EOT ∧ m.d = 0#8 ∧
    verdict m.slaveid (m.mem (m.msgadr + 1#16)) = 0x00#8

instance (m : Snios) (x : Option Byte) : Decidable (Takes m x) :=
  inferInstanceAs (Decidable (_ ∧ _ ∧ _ ∧ _))

/-- A try that fails and is the last gives an error. -/
theorem ret_fails {word : Nat} (hstack : m.stack = [.recall])
    (hplace : (ret port m).place = .returned word) : (ret port m).a = 0xFF#8 := by
  rw [ret, hstack, retTo] at hplace ⊢
  split
  · rename_i hmore
    rw [if_pos hmore] at hplace
    cases hplace
  · rfl

/-- Before EOT only an error ends RCVMSG. -/
theorem feed_fails {word : Nat} {w : Wait} (hwaits : m.place = .waiting w)
    (hreceives : w.receives = true) (hbefore : w ≠ .eot) (hstack : m.stack = [.recall])
    {x : Option Byte} (hplace : (feed port x m).place = .returned word) :
    (feed port x m).a = 0xFF#8 := by
  -- a control byte ends a try, or leads to the next place
  have hcontrol : ∀ {c : Prop} [Decidable c] {m' : Snios} {w' : Wait},
      (if c then await w' m' else ret port m).place = .returned word →
        (if c then await w' m' else ret port m).a = 0xFF#8 := by
    intro c _ m' w' hplace
    by_cases hc : c
    · rw [if_pos hc] at hplace
      exact nomatch hplace
    · rw [if_neg hc] at hplace ⊢
      exact ret_fails port hstack hplace
  cases x with
  | none =>
      unfold feed at hplace ⊢
      rw [hwaits] at hplace ⊢
      cases w with
      | enqrsp => exact nomatch hreceives
      | getack => exact nomatch hreceives
      | rcvfst =>
          simp only at hplace ⊢
          split
          · rename_i hmore
            rw [if_pos hmore] at hplace
            exact nomatch hplace
          · have hpop : pop { m with d := m.d - 1#8 } = { m with d := m.d - 1#8, stack := [] } :=
              pop_recall hstack
            rw [hwaits] at hpop
            rw [hpop]
            rfl
      | _ => exact nomatch hwaits.symm.trans hplace
  | some b =>
      unfold feed at hplace ⊢
      rw [hwaits] at hplace ⊢
      cases w with
      | enqrsp => exact nomatch hreceives
      | getack => exact nomatch hreceives
      | eot => exact absurd rfl hbefore
      | rcvfst =>
          simp only at hplace ⊢
          split at hplace
          · exact nomatch hplace
          · exact nomatch hplace
      | soh => exact hcontrol hplace
      | stx => exact hcontrol hplace
      | etx => exact hcontrol hplace
      | cks => exact nomatch hplace
      | header =>
          simp only at hplace ⊢
          split at hplace
          · exact nomatch hwaits.symm.trans hplace
          · exact nomatch hplace
      | data =>
          simp only at hplace ⊢
          split at hplace
          · exact nomatch hwaits.symm.trans hplace
          · exact nomatch hplace
      | hcs =>
          simp only at hplace ⊢
          by_cases hsum : m.d + b ≠ 0#8
          · rw [if_pos hsum] at hplace ⊢
            exact ret_fails (m := sendby NAK { m with d := m.d + b, place := _ }) port hstack hplace
          · rw [if_neg hsum] at hplace
            exact nomatch hplace

/-- **The result 0** is that of a message which is taken; it leaves the memory as it is. -/
theorem feed_takes {word : Nat} (hm : Receiving m) {x : Option Byte}
    (hplace : (feed port x m).place = .returned word) (ha : (feed port x m).a = 0#8) :
    Takes m x ∧ (feed port x m).mem = m.mem := by
  obtain ⟨⟨w, hwaits, hreceives⟩, hstack, -, -⟩ := hm
  by_cases heot : w = .eot
  · subst heot
    cases x with
    | none =>
        have hsilent : feed port none m = m := by
          unfold feed
          rw [hwaits]
        rw [hsilent, hwaits] at hplace
        exact nomatch hplace
    | some b =>
        have hfeed : feed port (some b) m = if low7 b = EOT then
            if m.d ≠ 0#8 then badcks port m else accept port m else ret port m := by
          unfold feed
          rw [hwaits]
        rw [hfeed] at hplace ha ⊢
        by_cases hend : low7 b = EOT
        · rw [if_pos hend] at hplace ha ⊢
          by_cases hsum : m.d = 0#8
          · rw [if_neg (not_not_intro hsum)] at hplace ha ⊢
            rw [accept_result port hstack] at ha
            refine ⟨⟨hwaits, congrArg some hend, hsum, ha⟩, ?_⟩
            unfold accept
            rw [pop_recall hstack]
            rfl
          · rw [if_pos hsum] at hplace ha
            have hfails := ret_fails (m := sendby NAK m) port hstack hplace
            exact nomatch hfails.symm.trans ha
        · rw [if_neg hend] at hplace ha
          exact nomatch (ret_fails port hstack hplace).symm.trans ha
  · exact nomatch (feed_fails port hwaits hreceives heot hstack hplace).symm.trans ha

end Link
end Rc700
