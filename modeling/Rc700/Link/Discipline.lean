import Rc700.Library.Run
import Rc700.Link.Sending

/-!
# The call discipline of SNIOS

A call ends with a return to its caller, the caller's stack as it was, and a result in A.
RCVMSG of both ports keeps to this, and so does SNDMSG of the port that calls `GETACK` in
the end.  The port that jumps there returns to a word too far up for each answer to EOT
that is no ACK, and keeps to it just where every answer to EOT is one
(`calls_disciplined_iff`).

Nobody but the caller sees the difference: the two ports send the same bytes and have the
same results.
-/

namespace Rc700
namespace Link

open Library Snios

variable (port : Port) {hdr payload : List Byte} {m : Snios} {s : Sender}
  {xs : List (Option Byte)}

/-! ### The answer to EOT -/

/-- The message ends with EOT. -/
theorem hear_message {x : Option Byte} (hphase : (s.hear hdr payload x).phase = .message) :
    ∃ front, (s.hear hdr payload x).sent = front ++ [EOT] := by
  have hheard := s.heard hdr payload x
  generalize s.hear hdr payload x = s' at hheard hphase ⊢
  cases hheard with
  | waits d => cases hphase
  | silence => cases hphase
  | header d => cases hphase
  | message =>
      refine ⟨s.sent ++ (STX :: payload ++ [ETX, 0#8 - (sumFrom STX payload + ETX)]), ?_⟩
      show s.sent ++ messageBytes payload = _
      rw [messageBytes, List.append_assoc, List.append_assoc]
      rfl
  | done => cases hphase
  | again =>
      rcases s.again_phase with hagain | hagain
      · cases hagain.symm.trans hphase
      · cases hagain.symm.trans hphase
  | «over» a hover => cases hover.symm.trans hphase

/-- The result is 0 only if the message is answered with an ACK. -/
theorem hear_done {x : Option Byte} (hbefore : s.phase ≠ .over 0#8)
    (hphase : (s.hear hdr payload x).phase = .over 0#8) : s.phase = .message ∧ Acked x := by
  have hheard := s.heard hdr payload x
  generalize s.hear hdr payload x = s' at hheard hphase
  cases hheard with
  | waits d => exact nomatch hphase
  | silence => exact absurd (Phase.over.inj hphase) (by decide)
  | header d => exact nomatch hphase
  | message => exact nomatch hphase
  | done hmessage hack => exact ⟨hmessage, hack⟩
  | again =>
      rcases s.again_phase with hagain | hagain
      · exact nomatch hagain.symm.trans hphase
      · exact absurd (Phase.over.inj (hagain.symm.trans hphase)) (by decide)
  | «over» a => exact absurd hphase hbefore

/-- **A run of the sender** that ends with the result 0 has an ACK for the answer to EOT. -/
theorem run_done (hmessage : s.phase = .message → ∃ front, s.sent = front ++ [EOT])
    (hbefore : s.phase ≠ .over 0#8) (hphase : (s.run hdr payload xs).phase = .over 0#8) :
    ∃ ys b zs, xs = ys ++ some b :: zs ∧ low7 b = ACK ∧
      (s.run hdr payload ys).phase = .message ∧
      (∃ front, (s.run hdr payload ys).sent = front ++ [EOT]) ∧
      (s.run hdr payload (ys ++ [some b])).phase = .over 0#8 := by
  induction xs generalizing s with
  | nil => exact absurd hphase hbefore
  | cons x xs ih =>
      by_cases hafter : (s.hear hdr payload x).phase = .over 0#8
      · obtain ⟨hphase', hack⟩ := hear_done hbefore hafter
        cases x with
        | none => exact hack.elim
        | some b => exact ⟨[], b, xs, rfl, hack, hphase', hmessage hphase', hafter⟩
      · obtain ⟨ys, b, zs, rfl, hack, hrun, hsent, hover⟩ := ih hear_message hafter hphase
        exact ⟨x :: ys, b, zs, rfl, hack, hrun, hsent, hover⟩

/-- SNDMSG waits for what answers EOT. -/
def AwaitsEotAck (port : Port) (m : Snios) : Prop :=
  m.place = .waiting .getack ∧ m.stack = final port ∧ ∃ front, m.sent = front ++ [EOT]

/-- What answers EOT is an ACK, at the port that jumps to `GETACK`. -/
def AcksEot (m : Snios) (x : Option Byte) : Prop :=
  m.place = .waiting .getack → m.stack = [] → Acked x

instance (m : Snios) (x : Option Byte) : Decidable (AcksEot m x) :=
  inferInstanceAs (Decidable (_ → _ → _))

/-- Every answer to EOT is an ACK, at the port that jumps to `GETACK`. -/
def EotAcked (bc : Word) (m : Snios) (xs : List (Option Byte)) : Prop :=
  EveryStep (fun m x => feed .cpnos x m) AcksEot (sndmsg .cpnos bc m) xs

instance (bc : Word) (m : Snios) (xs : List (Option Byte)) : Decidable (EotAcked bc m xs) :=
  EveryStep.decidable _ _ _ _

/-- A word of the caller's stack is discarded just with an answer that is no ACK. -/
theorem slips_iff (hm : Sends .cpnos hdr payload m s) (x : Option Byte) :
    Slips .cpnos s x ↔ ¬ AcksEot m x := by
  obtain ⟨phase, retcnt, sent⟩ := s
  have hat := hm.place
  cases phase with
  | enq d =>
      refine iff_of_false (fun hslips => nomatch hslips.2.1) (not_not_intro fun hplace => ?_)
      exact nomatch hat.1.symm.trans hplace
  | header =>
      refine iff_of_false (fun hslips => nomatch hslips.2.1) (not_not_intro fun _ hstack => ?_)
      exact nomatch hat.2.1.symm.trans hstack
  | message =>
      constructor
      · intro hslips hacks
        exact hslips.2.2 (hacks hat.1 hat.2)
      · intro hacks
        exact ⟨rfl, rfl, fun hack => hacks fun _ _ => hack⟩
  | «over» a =>
      obtain ⟨word, hplace, -⟩ := hat.1
      refine iff_of_false (fun hslips => nomatch hslips.2.1) (not_not_intro fun hwaits => ?_)
      exact nomatch hplace.symm.trans hwaits

/-- **How far up the port that jumps to `GETACK` returns**: to its caller, if every answer
to EOT is an ACK, and else further. -/
theorem taken_run (hm : Sends .cpnos hdr payload m s) (xs : List (Option Byte)) :
    taken m ≤ taken (run .cpnos m xs) ∧
      (taken (run .cpnos m xs) = taken m ↔
        EveryStep (fun m x => feed .cpnos x m) AcksEot m xs) := by
  induction xs generalizing m s with
  | nil => exact ⟨Nat.le_refl _, iff_of_true rfl trivial⟩
  | cons x xs ih =>
      obtain ⟨hnext, htaken⟩ := sends_feed .cpnos hm x
      obtain ⟨hle, hiff⟩ := ih hnext
      rw [run_cons, EveryStep]
      by_cases hacks : AcksEot m x
      · rw [if_neg (fun hslips => (slips_iff hm x).mp hslips hacks), Nat.add_zero] at htaken
        rw [htaken] at hle hiff
        exact ⟨hle, hiff.trans (and_iff_right hacks).symm⟩
      · rw [if_pos ((slips_iff hm x).mpr hacks)] at htaken
        refine ⟨by omega, iff_of_false ?_ (fun hevery => hacks hevery.1)⟩
        omega

/-- The port that calls `GETACK` always returns to its caller. -/
theorem taken_run_cpnet (hm : Sends .cpnet hdr payload m s) (xs : List (Option Byte)) :
    taken (run .cpnet m xs) = taken m := by
  induction xs generalizing m s with
  | nil => rfl
  | cons x xs ih =>
      obtain ⟨hnext, htaken⟩ := sends_feed .cpnet hm x
      rw [if_neg (fun hslips => nomatch hslips.1), Nat.add_zero] at htaken
      rw [run_cons, ih hnext, htaken]

/-- The result is 0 or 0xFF. -/
theorem hear_result {x : Option Byte}
    (hbefore : ∀ a, s.phase = .over a → a = 0x00#8 ∨ a = 0xFF#8) {a : Byte}
    (hphase : (s.hear hdr payload x).phase = .over a) : a = 0x00#8 ∨ a = 0xFF#8 := by
  have hheard := s.heard hdr payload x
  generalize s.hear hdr payload x = s' at hheard hphase
  cases hheard with
  | waits d => exact nomatch hphase
  | silence => exact .inr (Phase.over.inj hphase).symm
  | header d => exact nomatch hphase
  | message => exact nomatch hphase
  | done => exact .inl (Phase.over.inj hphase).symm
  | again =>
      rcases s.again_phase with hagain | hagain
      · exact nomatch hagain.symm.trans hphase
      · exact .inr (Phase.over.inj (hphase.symm.trans hagain))
  | «over» => exact hbefore a hphase

theorem run_result (hbefore : ∀ a, s.phase = .over a → a = 0x00#8 ∨ a = 0xFF#8) {a : Byte}
    (hphase : (s.run hdr payload xs).phase = .over a) : a = 0x00#8 ∨ a = 0xFF#8 := by
  induction xs generalizing s with
  | nil => exact hbefore a hphase
  | cons x xs ih => exact ih (fun _ hafter => hear_result hbefore hafter) hphase

theorem start_result {a : Byte} (hphase : (Sender.start.run hdr payload xs).phase = .over a) :
    a = 0x00#8 ∨ a = 0xFF#8 := by
  refine run_result (fun b hstart => ?_) hphase
  exact absurd hstart (by simp [Sender.start])

/-! ### Calls -/

/-- The machine has returned where the sender is over. -/
theorem returned_iff (hm : Sends port hdr payload m s) {a : Byte} :
    ((∃ word, m.place = .returned word) ∧ m.a = a) ↔ s.phase = .over a := by
  obtain ⟨phase, retcnt, sent⟩ := s
  have hat := hm.place
  constructor
  · rintro ⟨⟨word, hplace⟩, rfl⟩
    cases phase with
    | enq d => exact nomatch hat.1.symm.trans hplace
    | header => exact nomatch hat.1.symm.trans hplace
    | message => exact nomatch hat.1.symm.trans hplace
    | «over» a => rw [hat.2.2]
  · rintro rfl
    obtain ⟨⟨word, hplace, -⟩, -, ha⟩ := hat
    exact ⟨⟨word, hplace⟩, ha⟩

/-- If the call has returned, then to its caller, with the caller's stack as it was and
with a result. -/
def Disciplined (m : Snios) : Prop := ∀ word, m.place = .returned word → Returned m

/-- Two calls have sent the same bytes, and have the same result, or none yet. -/
def Alike (m n : Snios) : Prop :=
  m.sent = n.sent ∧ ∀ a, ((∃ word, m.place = .returned word) ∧ m.a = a) ↔
    ((∃ word, n.place = .returned word) ∧ n.a = a)

/-- The discipline of the calls with a buffer, for what comes over the line. -/
structure CallsDisciplined (bc : Word) (m : Snios) (xs : List (Option Byte)) : Prop where
  sends : ∀ port, Disciplined (run port (sndmsg port bc m) xs)
  receives : ∀ port, Disciplined (run port (rcvmsg port bc m) xs)
  /-- With the result 0 the last byte was an ACK that answered EOT. -/
  acked : ∀ port word, (run port (sndmsg port bc m) xs).place = .returned word →
    (run port (sndmsg port bc m) xs).a = 0x00#8 →
    ∃ ys b zs, xs = ys ++ some b :: zs ∧ low7 b = ACK ∧
      AwaitsEotAck port (run port (sndmsg port bc m) ys) ∧
      ∃ word, (run port (sndmsg port bc m) (ys ++ [some b])).place = .returned word
  sendAlike : Alike (run .cpnos (sndmsg .cpnos bc m) xs) (run .cpnet (sndmsg .cpnet bc m) xs)
  receiveAlike : Alike (run .cpnos (rcvmsg .cpnos bc m) xs) (run .cpnet (rcvmsg .cpnet bc m) xs)

/-- A call that is refused. -/
theorem returned_refused : Returned (ret port { called m with a := 0xFF#8 }) :=
  ⟨rfl, rfl, rfl, .inr rfl⟩

theorem rcvmsg_starts (bc : Word) :
    Receiving (rcvmsg port bc m) ∨ Returned (rcvmsg port bc m) := by
  by_cases hactive : m.netst &&& ACTIVE = 0#8
  · have hrefused : rcvmsg port bc m = ret port { called m with a := 0xFF#8 } := if_pos hactive
    rw [hrefused]
    exact .inr (returned_refused port)
  · have hstart : rcvmsg port bc m = rcvms0 bc (called m) := if_neg hactive
    rw [hstart]
    have htries : 0 < MAXRETRY.toNat := by decide
    exact .inl ⟨⟨.rcvfst, rfl, rfl⟩, rfl, rfl, htries⟩

theorem rcvmsg_disciplined (bc : Word) (xs : List (Option Byte)) :
    Disciplined (run port (rcvmsg port bc m) xs) := by
  intro word hplace
  rcases (run_receiving port (rcvmsg_starts port bc) xs).1 with hm | hm
  · obtain ⟨w, hwaits, -⟩ := hm.waits
    exact nomatch hwaits.symm.trans hplace
  · exact hm

theorem ret_port (hstack : m.stack = [.recall]) : ret .cpnos m = ret .cpnet m := by
  rw [ret, ret, hstack]
  rfl

theorem accept_port (hstack : m.stack = [.recall]) : accept .cpnos m = accept .cpnet m := by
  unfold accept
  rw [pop_recall hstack]
  rfl

theorem badcks_port (hstack : m.stack = [.recall]) : badcks .cpnos m = badcks .cpnet m :=
  ret_port (m := sendby NAK m) hstack

theorem rcvtmo_port (hstack : m.stack = [.recall]) :
    rcvtmo .cpnos (pop m) = rcvtmo .cpnet (pop m) := by
  rw [pop_recall hstack]
  rfl

/-- RCVMSG is the same at both ports. -/
theorem feed_receiving_port (hm : Receiving m) (x : Option Byte) :
    feed .cpnos x m = feed .cpnet x m := by
  obtain ⟨⟨w, hplace, hreceives⟩, hstack, -, -⟩ := hm
  have hret := ret_port hstack
  unfold feed
  -- by the place in the receiver; where the code depends on the port, so do the lemmas above
  rw [hplace]
  cases w with
  | enqrsp => exact nomatch hreceives
  | getack => exact nomatch hreceives
  | rcvfst =>
      cases x with
      | none =>
          simp only
          split
          · rfl
          · exact rcvtmo_port hstack
      | some b => rfl
  | soh =>
      cases x with
      | none => rfl
      | some b => simp only [hret]
  | header =>
      cases x with
      | none => rfl
      | some b => rfl
  | hcs =>
      cases x with
      | none => rfl
      | some b =>
          simp only
          split
          · exact badcks_port hstack
          · rfl
  | stx =>
      cases x with
      | none => rfl
      | some b => simp only [hret]
  | data =>
      cases x with
      | none => rfl
      | some b => rfl
  | etx =>
      cases x with
      | none => rfl
      | some b => simp only [hret]
  | cks =>
      cases x with
      | none => rfl
      | some b => rfl
  | eot =>
      cases x with
      | none => rfl
      | some b => simp only [hret, accept_port hstack, badcks_port hstack]

theorem run_receiving_port (hm : Receiving m ∨ Returned m) (xs : List (Option Byte)) :
    run .cpnos m xs = run .cpnet m xs := by
  induction xs generalizing m with
  | nil => rfl
  | cons x xs ih =>
      rcases hm with hm | hm
      · rw [run_cons, run_cons, feed_receiving_port hm x]
        exact ih (feed_receiving .cpnet hm x).1
      · rw [run_returned .cpnos hm.place, run_returned .cpnet hm.place]

theorem Alike.refl (m : Snios) : Alike m m := ⟨rfl, fun _ => Iff.rfl⟩

theorem rcvmsg_alike (bc : Word) (xs : List (Option Byte)) :
    Alike (run .cpnos (rcvmsg .cpnos bc m) xs) (run .cpnet (rcvmsg .cpnet bc m) xs) := by
  have hstart : rcvmsg .cpnos bc m = rcvmsg .cpnet bc m := by
    unfold rcvmsg
    rfl
  rw [hstart, run_receiving_port (rcvmsg_starts .cpnet bc)]
  exact Alike.refl _

/-- A sender that is over has returned to its caller if nothing of the caller's is gone. -/
theorem disciplined_iff (hm : Sends port hdr payload m s)
    (hresult : ∀ a, s.phase = .over a → a = 0x00#8 ∨ a = 0xFF#8) :
    Disciplined m ↔ ∀ word, m.place = .returned word → taken m = 0 := by
  constructor
  · intro hdisciplined word hplace
    rw [taken, (hdisciplined word hplace).place]
  · intro htaken word hplace
    have hover := (returned_iff port hm).mp ⟨⟨word, hplace⟩, rfl⟩
    have hat := hm.place
    rw [hover] at hat
    obtain ⟨⟨word', hplace', hpopped⟩, hstack, -⟩ := hat
    have hword : word' = 0 := by
      have hzero := htaken word' hplace'
      rw [taken, hplace'] at hzero
      exact hzero
    rw [hword] at hplace' hpopped
    exact ⟨hplace', hstack, hpopped, hresult m.a hover⟩

/-- After the return nothing is answered. -/
theorem acksEot_returned {word : Nat} (hplace : m.place = .returned word)
    (xs : List (Option Byte)) : EveryStep (fun m x => feed .cpnos x m) AcksEot m xs := by
  induction xs with
  | nil => trivial
  | cons x xs ih =>
      have hfeed : feed .cpnos x m = m := run_returned .cpnos hplace [x]
      have hrest : EveryStep (fun m x => feed .cpnos x m) AcksEot (feed .cpnos x m) xs := by
        rw [hfeed]
        exact ih
      exact ⟨fun hwaits => absurd (hplace.symm.trans hwaits) (by simp), hrest⟩

/-- A call that is refused keeps to the discipline. -/
theorem calls_disciplined_inactive (bc : Word) (hinactive : m.netst &&& ACTIVE = 0#8)
    (xs : List (Option Byte)) : CallsDisciplined bc m xs := by
  have hrun : ∀ port, run port (sndmsg port bc m) xs =
      { called m with a := 0xFF#8, popped := 1, place := .returned 0 } := by
    intro port
    rw [sndmsg_inactive port bc hinactive, run_returned port rfl]
  constructor
  case sends =>
    intro port _ _
    rw [hrun port]
    exact ⟨rfl, rfl, rfl, .inr rfl⟩
  case receives => exact fun port => rcvmsg_disciplined port bc xs
  case acked =>
    intro port _ _ ha
    rw [hrun port] at ha
    exact absurd ha (by simp)
  case sendAlike =>
    rw [hrun .cpnos, hrun .cpnet]
    exact Alike.refl _
  case receiveAlike => exact rcvmsg_alike bc xs

/-- A call of an active node keeps to the discipline if SNDMSG of the port that jumps to
`GETACK` returns to its caller. -/
theorem calls_disciplined_active (bc : Word) (hactive : m.netst &&& ACTIVE ≠ 0#8)
    (xs : List (Option Byte)) (hcpnos : Disciplined (run .cpnos (sndmsg .cpnos bc m) xs)) :
    CallsDisciplined bc m xs := by
  have hstart := fun port => (sends_sndmsg port bc hactive).1
  have hrun := fun port => sends_run port (hstart port) xs
  constructor
  case sends =>
    intro port
    cases port with
    | cpnos => exact hcpnos
    | cpnet =>
        refine (disciplined_iff .cpnet (hrun .cpnet) fun _ => start_result).mpr fun word _ => ?_
        rw [taken_run_cpnet (hstart .cpnet)]
        exact (sends_sndmsg .cpnet bc hactive).2
  case receives => exact fun port => rcvmsg_disciplined port bc xs
  case acked =>
    intro port word hplace ha
    have hover := (returned_iff port (hrun port)).mp ⟨⟨word, hplace⟩, ha⟩
    obtain ⟨ys, b, zs, hsplit, hack, hmessage, hsent, hend⟩ :=
      run_done (by simp [Sender.start]) (by simp [Sender.start]) hover
    refine ⟨ys, b, zs, hsplit, hack, ?_, ?_⟩
    · have hafter := sends_run port (hstart port) ys
      have hat := hafter.place
      rw [hmessage] at hat
      rw [← hafter.carries.sent] at hsent
      exact ⟨hat.1, hat.2, hsent⟩
    · exact ((returned_iff port (sends_run port (hstart port) (ys ++ [some b]))).mpr hend).1
  case sendAlike =>
    refine ⟨(hrun .cpnos).carries.sent.trans (hrun .cpnet).carries.sent.symm, fun a => ?_⟩
    exact (returned_iff .cpnos (hrun .cpnos)).trans (returned_iff .cpnet (hrun .cpnet)).symm
  case receiveAlike => exact rcvmsg_alike bc xs

/-- **The calls keep to the discipline** just where, at the port that jumps to `GETACK`,
every answer to EOT is an ACK, or SNDMSG has not returned. -/
theorem calls_disciplined_iff (bc : Word) (m : Snios) (xs : List (Option Byte)) :
    CallsDisciplined bc m xs ↔
      ∀ word, (run .cpnos (sndmsg .cpnos bc m) xs).place = .returned word → EotAcked bc m xs := by
  by_cases hactive : m.netst &&& ACTIVE = 0#8
  · refine iff_of_true (calls_disciplined_inactive bc hactive xs) fun _ _ => ?_
    unfold EotAcked
    rw [sndmsg_inactive .cpnos bc hactive]
    exact acksEot_returned rfl xs
  · obtain ⟨hstart, hzero⟩ := sends_sndmsg .cpnos bc hactive
    have htaken := (taken_run hstart xs).2
    rw [hzero] at htaken
    have hcpnos := disciplined_iff .cpnos (sends_run .cpnos hstart xs) fun _ => start_result
    constructor
    · intro hcalls word hplace
      exact htaken.mp (hcpnos.mp (hcalls.sends .cpnos) word hplace)
    · intro hacked
      refine calls_disciplined_active bc hactive xs (hcpnos.mpr fun word hplace => ?_)
      exact htaken.mpr (hacked word hplace)

/-- A message of one byte, of which the answer to EOT is lost, and which is then sent
again: SNDMSG takes a word of its caller's for the return address. -/
theorem calls_undisciplined : ¬ ∀ bc m xs, CallsDisciplined bc m xs := by
  intro hcalls
  let m : Snios := ⟨0#8, 0#8, 0#8, 0#16, fun _ => 0#8, 0#16, 0#8, ACTIVE, 0#8, [], 0,
    .returned 0, []⟩
  let ack : Option Byte := some ACK
  have hplace : (run .cpnos (sndmsg .cpnos 0#16 m) [ack, ack, none, ack, ack, ack]).place =
      .returned 1 := by
    decide
  have hreturned := (hcalls 0#16 m _).sends .cpnos 1 hplace
  exact nomatch hplace.symm.trans hreturned.place

end Link
end Rc700
