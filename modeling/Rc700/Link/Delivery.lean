import Rc700.Link.Parts

/-!
# Requests on a line that loses bytes

SNDMSG and the loop of the server, on a line that loses bytes in both directions.  The two get
out of step: the server gives up in the middle of a frame and looks for ENQ, and the client
takes whatever is not an ACK for a reason to send ENQ again.  `Talks` lists the situations that
this leads to, and for each of them how often the message can have been dispatched.

What keeps them together is that a part of a frame is answered with ACK only if all of it has
come, as long as ENQ is not among the bytes of the message: then ENQ cannot take the place of a
byte that is lost (`Part.Sound`), and does not start a frame where none is.
-/

namespace Rc700
namespace Link

open Library Snios

variable (port : Port) {hdr payload : List Byte} {c : Client} {s : Sender} {us : List Byte}

/-! ### What the sender hears -/

theorem Sender.again_cases (s : Sender) :
    (s.again.phase = .enq TMRETRY ∧ s.again.sent = s.sent ++ [ENQ]) ∨
      (s.again.phase = .over 0xFF#8 ∧ s.again.sent = s.sent) := by
  unfold Sender.again
  by_cases hlast : s.retcnt - 1#8 = 0#8
  · rw [if_neg (not_not_intro hlast)]
    exact .inr ⟨rfl, rfl⟩
  · rw [if_pos hlast]
    exact .inl ⟨rfl, rfl⟩

/-- A byte that is not an ACK starts the message again. -/
theorem Sender.hear_nack {b : Byte} (hb : low7 b ≠ ACK) (hphase : ∀ a, s.phase ≠ .over a) :
    s.hear hdr payload (some b) = s.again := by
  obtain ⟨phase, retcnt, sent⟩ := s
  cases phase with
  | enq d => exact if_neg hb
  | header => exact if_neg hb
  | message => exact if_neg hb
  | «over» a => exact absurd rfl (hphase a)

/-- So does silence, but not after ENQ. -/
theorem Sender.hear_silence (hphase : s.phase = .header ∨ s.phase = .message) :
    s.hear hdr payload none = s.again := by
  obtain ⟨phase, retcnt, sent⟩ := s
  rcases hphase with rfl | rfl
  · rfl
  · rfl

theorem Sender.hear_enq_silence (hdr payload : List Byte) {d : Byte} (hphase : s.phase = .enq d) :
    (s.hear hdr payload none).sent = s.sent ∧
      ((s.hear hdr payload none).phase = .enq (d - 1#8) ∨
        (s.hear hdr payload none).phase = .over 0xFF#8) := by
  obtain ⟨phase, retcnt, sent⟩ := s
  subst hphase
  show (if d - 1#8 ≠ 0#8 then (⟨.enq (d - 1#8), retcnt, sent⟩ : Sender)
    else ⟨.over 0xFF#8, retcnt, sent⟩).sent = sent ∧ _
  unfold Sender.hear
  dsimp only
  by_cases hlast : d - 1#8 = 0#8
  · rw [if_neg (not_not_intro hlast)]
    exact ⟨rfl, .inr rfl⟩
  · rw [if_pos hlast]
    exact ⟨rfl, .inl rfl⟩

/-! ### The client -/

/-- The client does as a sender does, and has these bytes to say. -/
structure Speaks (hdr payload : List Byte) (c : Client) (s : Sender) (us : List Byte) : Prop where
  sends : Sends port hdr payload c.machine s
  unsaid : ∃ front, c.machine.sent = front ++ us ∧ c.said = front.length

theorem Speaks.next {b : Byte} (hspeaks : Speaks port hdr payload c s (b :: us)) :
    Client.act port c = .say b { c with said := c.said + 1 } ∧
      Speaks port hdr payload { c with said := c.said + 1 } s us := by
  obtain ⟨hsends, front, hsent, hsaid⟩ := hspeaks
  constructor
  · have hnext : c.machine.sent[c.said]? = some b := by
      rw [hsent, hsaid, List.getElem?_append_right (Nat.le_refl _), Nat.sub_self]
      rfl
    unfold Client.act
    rw [hnext]
  · refine ⟨hsends, front ++ [b], ?_, ?_⟩
    · rw [List.append_assoc]
      exact hsent
    · rw [List.length_append, ← hsaid]
      rfl

/-- A client that has said all waits, or has returned. -/
theorem Speaks.settled (hspeaks : Speaks port hdr payload c s []) : c = settled c.machine := by
  obtain ⟨-, front, hsent, hsaid⟩ := hspeaks
  rw [List.append_nil] at hsent
  rw [← hsent] at hsaid
  obtain ⟨machine, said⟩ := c
  exact congrArg (Client.mk machine) hsaid

theorem Speaks.waits (hspeaks : Speaks port hdr payload c s []) (hphase : ∀ a, s.phase ≠ .over a) :
    ∃ w, c.machine.place = .waiting w := by
  have hat := hspeaks.sends.place
  generalize s.phase = phase at hat hphase
  cases phase with
  | enq d => exact ⟨_, hat.1⟩
  | header => exact ⟨_, hat.1⟩
  | message => exact ⟨_, hat.1⟩
  | «over» a => exact absurd rfl (hphase a)

theorem Speaks.rests {a : Byte} (hspeaks : Speaks port hdr payload c s [])
    (hphase : s.phase = .over a) : Client.act port c = .rest := by
  have hat := hspeaks.sends.place
  rw [hphase] at hat
  obtain ⟨⟨word, hplace, -⟩, -⟩ := hat
  rw [hspeaks.settled]
  exact settled_rest port hplace

/-- What the client hears, or that it hears nothing. -/
theorem Speaks.hears {next : Option Byte → Client} (hspeaks : Speaks port hdr payload c s us)
    (hact : Client.act port c = .hear next) :
    us = [] ∧ (∀ a, s.phase ≠ .over a) ∧
      ∀ x us', (s.hear hdr payload x).sent = s.sent ++ us' →
        Speaks port hdr payload (next x) (s.hear hdr payload x) us' ∧
          taken (next x).machine = taken c.machine + if Slips port s x then 1 else 0 := by
  cases us with
  | cons b us =>
      rw [(hspeaks.next).1] at hact
      cases hact
  | nil =>
      have hphase : ∀ a, s.phase ≠ .over a := by
        intro a hover
        rw [hspeaks.rests port hover] at hact
        cases hact
      obtain ⟨w, hplace⟩ := hspeaks.waits port hphase
      have hsettled := hspeaks.settled
      rw [hsettled, settled_act port hplace] at hact
      cases hact
      refine ⟨rfl, hphase, fun x us' hsent => ?_⟩
      obtain ⟨hnext, htaken⟩ := sends_feed port hspeaks.sends x
      refine ⟨⟨hnext, c.machine.sent, ?_, rfl⟩, htaken⟩
      rw [hspeaks.sends.carries.sent, ← hsent]
      exact hnext.carries.sent

/-- SNDMSG, when it has been called. -/
theorem speaks_sndmsg {m : Snios} (bc : Word) (hactive : m.netst &&& ACTIVE ≠ 0#8) :
    Speaks port (hdrAt bc m) (payloadAt bc m) ⟨sndmsg port bc m, 0⟩ .start [ENQ] ∧
      taken (sndmsg port bc m) = 0 := by
  obtain ⟨hsends, htaken⟩ := sends_sndmsg port bc hactive
  exact ⟨⟨hsends, [], hsends.carries.sent, rfl⟩, htaken⟩

/-! ### Situations -/

variable {σ : Type} {handleRequest : List Byte → List Byte → σ → Answer σ} {v : Serving σ}
  {stage : Stage} {as : List Byte}

/-- Where the two are: what the client waits for, what the server can still hear of it, what
the server does, and what is on its way to the client.  `owed` is 1 where the message has been
dispatched once more than bytes have been lost, and `slips` is 1 where it has been dispatched
once more than the client has come from the message back to ENQ. -/
inductive Situation (hdr payload : List Byte) :
    Phase → List Byte → Stage → List Byte → Nat → Nat → Prop
  /-- Nothing is on its way but what makes the client send ENQ again. -/
  | idle {phase : Phase} {stage : Stage} {as : List Byte} {slips : Nat}
      (hphase : ∀ a, phase ≠ .over a) (hrefusing : Refusing as stage)
      (hslips : slips ≤ if phase = .message then 1 else 0) :
      Situation hdr payload phase [] stage as 0 slips
  | calling {d : Byte} {stage : Stage} (hstage : Apart stage) :
      Situation hdr payload (.enq d) [ENQ] stage [] 0 0
  /-- ENQ is lost, or taken for something else, and is not sent again. -/
  | unheard {d : Byte} {stage : Stage} (hstage : Listening stage) :
      Situation hdr payload (.enq d) [] stage [] 0 0
  | greets {d : Byte} : Situation hdr payload (.enq d) [] (.receiving (.within recvRest)) [] 0 0
  | greeted {d : Byte} :
      Situation hdr payload (.enq d) [] (.receiving (.within recvHeader)) [ACK] 0 0
  | saying {q : Part} {us : List Byte} {stage : Stage}
      (hq : q = headerPart hdr ∨ q = messagePart hdr payload) (hheard : q.Heard us stage) :
      Situation hdr payload q.phase us stage [] 0 0
  | accepts {q : Part} (hq : q = headerPart hdr ∨ q = messagePart hdr payload) :
      Situation hdr payload q.phase [] (.receiving (.within (.say ACK (q.next q.bytes)))) [] 0 0
  | accepted : Situation hdr payload .header [] (.receiving (.within (recvMessage hdr))) [ACK] 0 0
  | delivered {stage : Stage} {as : List Byte} (hrefusing : Refusing as stage) :
      Situation hdr payload .message [] stage (ACK :: as) 1 1
  | done {stage : Stage} {as : List Byte} (hrefusing : Refusing as stage) :
      Situation hdr payload (.over 0x00#8) [] stage as 1 1

/-- The two ends of a line on which so many bytes have been lost on their way to the client. -/
inductive Talks (hdr payload : List Byte) (lost : Nat) (c : Net Byte Client (Serving σ)) : Prop
  | talks {s : Sender} {us : List Byte} {n owed slips : Nat}
      (hspeaks : Speaks port hdr payload c.left s us)
      (hdispatched : c.right.dispatched = List.replicate n (hdr, payload)) (howed : owed ≤ n)
      (hlost : n ≤ lost + owed) (hslips : port = .cpnos → n ≤ taken c.left.machine + slips)
      (hsituation : Situation hdr payload s.phase (c.toRight ++ us) c.right.stage c.toLeft owed
        slips)
  | failed (hrests : Client.act port c.left = .rest) (ha : c.left.machine.a = 0xFF#8)

variable {phase : Phase} {owed slips : Nat}

/-! ### What happens to the bytes -/

/-- A byte to the server is lost. -/
theorem Situation.lostToRight {front back : List Byte} {b : Byte}
    (hsituation : Situation hdr payload phase (front ++ b :: back) stage as owed slips) :
    Situation hdr payload phase (front ++ back) stage as owed slips := by
  have hnil : [] ≠ front ++ b :: back :=
    (List.append_ne_nil_of_right_ne_nil front (List.cons_ne_nil b back)).symm
  have hsub : (front ++ back).Sublist (front ++ b :: back) :=
    (List.sublist_cons_self b back).append_left front
  have hcount : (front ++ back).length + 1 = (front ++ b :: back).length := by
    rw [List.length_append, List.length_append]
    rfl
  generalize front ++ b :: back = coming at hsituation hnil hsub hcount
  generalize front ++ back = coming' at hsub hcount ⊢
  cases hsituation with
  | idle => exact absurd rfl hnil
  | unheard => exact absurd rfl hnil
  | greets => exact absurd rfl hnil
  | greeted => exact absurd rfl hnil
  | accepts => exact absurd rfl hnil
  | accepted => exact absurd rfl hnil
  | delivered => exact absurd rfl hnil
  | done => exact absurd rfl hnil
  | calling hapart =>
      have hlost : coming' = [] := List.length_eq_zero_iff.mp (Nat.succ.inj hcount)
      rw [hlost]
      exact .unheard hapart.listening
  | saying hq hheard => exact .saying hq (hheard.loses hsub)

/-- A byte to the client is lost. -/
theorem Situation.lostToLeft {front back : List Byte} {b : Byte}
    (hregular : Regular hdr payload)
    (hsituation : Situation hdr payload phase us stage (front ++ b :: back) owed slips) :
    ∃ owed', owed ≤ owed' + 1 ∧ owed' ≤ owed ∧
      Situation hdr payload phase us stage (front ++ back) owed' slips := by
  generalize has : front ++ b :: back = as at hsituation
  have hnil : [] ≠ front ++ b :: back :=
    (List.append_ne_nil_of_right_ne_nil front (List.cons_ne_nil b back)).symm
  -- an ACK is all that is on its way
  have hsingle : front ++ b :: back = [ACK] → front ++ back = [] := by
    intro hack
    have hcount := congrArg List.length hack
    rw [List.length_append, List.length_cons, List.length_singleton] at hcount
    rw [List.append_eq_nil_iff, ← List.length_eq_zero_iff, ← List.length_eq_zero_iff]
    omega
  cases hsituation with
  | idle hphase hrefusing hslips =>
      subst has
      exact ⟨0, by omega, le_refl 0, .idle hphase hrefusing.loses hslips⟩
  | calling => exact absurd has.symm hnil
  | unheard => exact absurd has.symm hnil
  | greets => exact absurd has.symm hnil
  | saying => exact absurd has.symm hnil
  | accepts => exact absurd has.symm hnil
  | greeted =>
      rw [hsingle has]
      exact ⟨0, by omega, le_refl 0, .unheard (heard_header hregular).listening⟩
  | accepted =>
      rw [hsingle has]
      have hapart : Apart (.receiving (.within (recvMessage hdr))) :=
        ((heard_message hregular).loses (List.nil_sublist _)).apart
          (hregular.sound (.inr rfl))
      exact ⟨0, by omega, le_refl 0, .idle nofun (.still hapart) (Nat.zero_le _)⟩
  | @delivered stage as hrefusing =>
      cases front with
      | nil =>
          obtain ⟨rfl, rfl⟩ := List.cons.inj has
          exact ⟨0, by omega, by omega, .idle nofun hrefusing (le_refl 1)⟩
      | cons a front =>
          obtain ⟨rfl, rfl⟩ := List.cons.inj has
          exact ⟨1, by omega, le_refl 1, .delivered hrefusing.loses⟩
  | done hrefusing =>
      subst has
      exact ⟨1, by omega, le_refl 1, .done hrefusing.loses⟩

/-- **The server says a byte.**  With the ACK for the message it dispatches it. -/
theorem Situation.rightSays {b : Byte} {v' : Serving σ} (hregular : Regular hdr payload)
    (hsituation : Situation hdr payload phase us v.stage as owed slips)
    (hact : v.act handleRequest = .say b v') :
    (v'.dispatched = v.dispatched ∧
        Situation hdr payload phase us v'.stage (as ++ [b]) owed slips) ∨
      (owed = 0 ∧ slips = 0 ∧ v'.dispatched = v.dispatched ++ [(hdr, payload)] ∧
        Situation hdr payload phase us v'.stage (as ++ [b]) 1 1) := by
  generalize hstage : v.stage = stage at hsituation
  have hlistening : ¬ Listening stage := by
    intro hlistening
    rw [← hstage] at hlistening
    exact hlistening.silent b v' hact
  -- a server that listens says nothing, so these situations are ruled out
  cases hsituation with
  | calling hapart => exact absurd hapart.listening hlistening
  | unheard hstage' => exact absurd hstage' hlistening
  | greeted => exact absurd (heard_header hregular).listening hlistening
  | saying _ hheard => exact absurd hheard.listening hlistening
  | accepted => exact absurd (heard_message hregular).listening hlistening
  | idle hphase hrefusing hslips =>
      rw [← hstage] at hrefusing
      obtain ⟨stage', rfl, hrefusing'⟩ := hrefusing.next hact
      exact .inl ⟨rfl, .idle hphase hrefusing' hslips⟩
  | delivered hrefusing =>
      rw [← hstage] at hrefusing
      obtain ⟨stage', rfl, hrefusing'⟩ := hrefusing.next hact
      exact .inl ⟨rfl, .delivered hrefusing'⟩
  | done hrefusing =>
      rw [← hstage] at hrefusing
      obtain ⟨stage', rfl, hrefusing'⟩ := hrefusing.next hact
      exact .inl ⟨rfl, .done hrefusing'⟩
  | greets =>
      obtain ⟨state, _, dispatched⟩ := v
      cases hstage
      cases hact
      exact .inl ⟨rfl, .greeted⟩
  | accepts hq =>
      obtain ⟨state, _, dispatched⟩ := v
      cases hstage
      rcases hq with rfl | rfl
      · -- the header
        have hnext : (headerPart hdr).next (headerPart hdr).bytes = recvMessage hdr :=
          congrArg recvMessage (headerIn_bytes hregular.header)
        rw [hnext] at hact
        cases hact
        exact .inl ⟨rfl, .accepted⟩
      · -- the message
        have hnext : (messagePart hdr payload).next (messagePart hdr payload).bytes =
            .done (some (hdr, payload)) := by
          show Dialogue.done (some (hdr, payloadIn hdr (messageBytes payload))) = _
          rw [payloadIn_bytes hregular.message]
        rw [hnext] at hact
        cases hact
        obtain ⟨hdispatched, hrefusing⟩ := refusing_dispatch handleRequest hdr payload
          ⟨state, .receiving (.within (.say ACK (.done (some (hdr, payload))))), dispatched⟩
        exact .inr ⟨rfl, rfl, hdispatched, .delivered hrefusing⟩

/-- The server hears a byte. -/
theorem Situation.rightHears {b : Byte} {next : Option Byte → Serving σ}
    (hregular : Regular hdr payload)
    (hsituation : Situation hdr payload phase (b :: us) v.stage as owed slips)
    (hact : v.act handleRequest = .hear next) :
    ∃ stage, next (some b) = { v with stage := stage } ∧
      Situation hdr payload phase us stage as owed slips := by
  generalize hcoming : b :: us = coming at hsituation
  generalize hstage : v.stage = stage at hsituation
  cases hsituation with
  | idle => cases hcoming
  | unheard => cases hcoming
  | greets => cases hcoming
  | greeted => cases hcoming
  | accepts => cases hcoming
  | accepted => cases hcoming
  | delivered => cases hcoming
  | done => cases hcoming
  | calling hapart =>
      cases hcoming
      rw [← hstage] at hapart
      rcases hapart.enq hact with hnext | hnext | ⟨stage', hnext, hlistening⟩
      · exact ⟨_, hnext, .greets⟩
      · exact ⟨_, hnext, .idle nofun .refuses (Nat.zero_le _)⟩
      · exact ⟨_, hnext, .unheard hlistening⟩
  | @saying q us' _ hq hheard =>
      cases hcoming
      rw [← hstage] at hheard
      have hphase : ∀ a, q.phase ≠ .over a := by
        rcases hq with rfl | rfl
        · exact nofun
        · exact nofun
      rcases hheard.hears (hregular.sound hq) hact with
        ⟨stage', hnext, hrest⟩ | ⟨rfl, hnext⟩ | ⟨rfl, hnext⟩
      · exact ⟨_, hnext, .saying hq hrest⟩
      · exact ⟨_, hnext, .idle hphase .refuses (Nat.zero_le _)⟩
      · exact ⟨_, hnext, .accepts hq⟩

/-- The server waits in vain, and looks for ENQ then. -/
theorem Situation.rightWaits {next : Option Byte → Serving σ}
    (hsituation : Situation hdr payload phase [] v.stage [] owed slips)
    (hact : v.act handleRequest = .hear next) :
    next none = { v with stage := .hunting } ∧
      Situation hdr payload phase [] .hunting [] owed slips := by
  have hsaid : ∀ b d, v.stage ≠ .receiving (.within (.say b d)) := by
    intro b d hstage
    obtain ⟨state, stage, dispatched⟩ := v
    subst hstage
    cases hact
  generalize hstage : v.stage = stage at hsituation hsaid
  cases hsituation with
  | idle hphase hrefusing hslips =>
      rw [← hstage] at hrefusing
      have hapart := hrefusing.apart hact
      exact ⟨hapart.listening.waits hact, .idle hphase (.still .hunting) hslips⟩
  | unheard hlistening =>
      rw [← hstage] at hlistening
      exact ⟨hlistening.waits hact, .unheard .hunting⟩
  | greets => exact absurd rfl (hsaid ACK _)
  | saying hq hheard =>
      rw [← hstage] at hheard
      exact ⟨hheard.listening.waits hact, .saying hq (.gaveUp (List.nil_sublist _))⟩
  | accepts hq => exact absurd rfl (hsaid ACK _)
  | done hrefusing =>
      rw [← hstage] at hrefusing
      have hapart := hrefusing.apart hact
      exact ⟨hapart.listening.waits hact, .done (.still .hunting)⟩

/-! ### What happens to the two ends -/

variable {line : Net Byte Client (Serving σ)} {lost n : Nat}

theorem Speaks.silent (hspeaks : Speaks port hdr payload c s []) : (Client.act port c).Silent := by
  intro b c' hact
  have hplace : c.machine.sent[c.said]? = none := by
    rw [hspeaks.settled]
    exact List.getElem?_eq_none (Nat.le_refl _)
  unfold Client.act at hact
  rw [hplace] at hact
  dsimp only at hact
  split at hact
  · cases hact
  · cases hact

/-- The client sends ENQ again, or has sent it for the last time. -/
theorem talks_again {next : Option Byte → Client} {x : Option Byte}
    (hspeaks : Speaks port hdr payload line.left s us)
    (hact : Client.act port line.left = .hear next) (hx : ¬ Acked x)
    (hagain : s.hear hdr payload x = s.again) (hapart : Apart line.right.stage)
    (hdispatched : line.right.dispatched = List.replicate n (hdr, payload)) (hlost : n ≤ lost)
    (hslips : port = .cpnos → n ≤ taken line.left.machine + if s.phase = .message then 1 else 0) :
    Talks port hdr payload lost (⟨next x, line.right, [], []⟩ : Net Byte Client (Serving σ)) := by
  obtain ⟨-, -, hnext⟩ := hspeaks.hears port hact
  rcases s.again_cases with ⟨hphase, hsent⟩ | ⟨hphase, hsent⟩
  · obtain ⟨hspeaks', htaken⟩ := hnext x [ENQ] (hagain ▸ hsent)
    rw [hagain] at hspeaks'
    refine .talks hspeaks' hdispatched (Nat.zero_le n) hlost
      (?_ : port = .cpnos → n ≤ taken (next x).machine + 0) ?_
    · intro hport
      have hbound := hslips hport
      rw [htaken]
      by_cases hmessage : s.phase = .message
      · rw [if_pos hmessage] at hbound
        rw [if_pos ⟨hport, hmessage, hx⟩]
        exact hbound
      · rw [if_neg hmessage] at hbound
        omega
    · rw [hphase]
      exact .calling hapart
  · obtain ⟨hspeaks', -⟩ := hnext x [] (by rw [hagain, hsent, List.append_nil])
    rw [hagain] at hspeaks'
    have hat := hspeaks'.sends.place
    rw [hphase] at hat
    exact .failed (hspeaks'.rests port hphase) hat.2.2

/-- The client says a byte. -/
theorem Talks.leftSays {b : Byte} {l : Client} (htalks : Talks port hdr payload lost line)
    (hact : Client.act port line.left = .say b l) :
    Talks port hdr payload lost { line with left := l, toRight := line.toRight ++ [b] } := by
  cases htalks with
  | failed hrests _ =>
      rw [hrests] at hact
      cases hact
  | @talks s us n owed slips hspeaks hdispatched howed hlost hslips hsituation =>
      cases us with
      | nil => exact absurd hact (hspeaks.silent port b l)
      | cons b' us =>
          obtain ⟨hsaid, hspeaks'⟩ := hspeaks.next port
          rw [hsaid] at hact
          cases hact
          refine .talks hspeaks' hdispatched howed hlost hslips ?_
          show Situation hdr payload s.phase (line.toRight ++ [b] ++ us) _ _ owed slips
          rw [List.append_assoc]
          exact hsituation

/-- The client hears a byte. -/
theorem Talks.leftHears {next : Option Byte → Client} {b : Byte} {ys : List Byte}
    (hregular : Regular hdr payload) (htalks : Talks port hdr payload lost line)
    (hact : Client.act port line.left = .hear next) (hqueue : line.toLeft = b :: ys) :
    Talks port hdr payload lost { line with left := next (some b), toLeft := ys } := by
  cases htalks with
  | failed hrests _ =>
      rw [hrests] at hact
      cases hact
  | @talks s us n owed slips hspeaks hdispatched howed hlost hslips hsituation =>
      obtain ⟨rfl, hphase, hnext⟩ := hspeaks.hears port hact
      rw [List.append_nil, hqueue] at hsituation
      obtain ⟨left, ⟨state, stage, dispatched⟩, toRight, toLeft⟩ := line
      obtain ⟨phase, retcnt, sent⟩ := s
      dsimp only at hsituation hqueue hphase
      -- each situation in which there is a byte for the client
      cases hsituation with
      | idle _ hrefusing hbound =>
          obtain ⟨hb, rfl, hapart⟩ := hrefusing.hears
          exact talks_again port hspeaks hact hb (Sender.hear_nack hb hphase) hapart hdispatched
            hlost
            fun hport => (hslips hport).trans (Nat.add_le_add_left hbound _)
      | greeted =>
          obtain ⟨hspeaks', htaken⟩ := hnext (some ACK) (headerBytes hdr) rfl
          refine .talks hspeaks' hdispatched howed hlost
            (?_ : port = .cpnos → n ≤ taken (next (some ACK)).machine + 0) ?_
          · intro hport
            rw [htaken]
            exact (hslips hport).trans (Nat.le_add_right _ _)
          · exact .saying (.inl rfl) (heard_header hregular)
      | accepted =>
          obtain ⟨hspeaks', htaken⟩ := hnext (some ACK) (messageBytes payload) rfl
          refine .talks hspeaks' hdispatched howed hlost
            (?_ : port = .cpnos → n ≤ taken (next (some ACK)).machine + 0) ?_
          · intro hport
            rw [htaken]
            exact (hslips hport).trans (Nat.le_add_right _ _)
          · exact .saying (.inr rfl) (heard_message hregular)
      | delivered hrefusing =>
          obtain ⟨hspeaks', htaken⟩ := hnext (some ACK) [] (List.append_nil sent).symm
          refine .talks hspeaks' hdispatched howed hlost
            (?_ : port = .cpnos → n ≤ taken (next (some ACK)).machine + 1) ?_
          · intro hport
            rw [htaken]
            exact (hslips hport).trans (Nat.add_le_add_right (Nat.le_add_right _ _) 1)
          · exact .done hrefusing
      | done _ => exact absurd rfl (hphase 0x00#8)

/-- The client waits in vain for the answer to ENQ. -/
theorem talks_silence {next : Option Byte → Client} {d : Byte}
    (hspeaks : Speaks port hdr payload line.left s us)
    (hact : Client.act port line.left = .hear next) (hphase : s.phase = .enq d)
    (hlistening : Listening line.right.stage)
    (hdispatched : line.right.dispatched = List.replicate n (hdr, payload)) (hlost : n ≤ lost)
    (hslips : port = .cpnos → n ≤ taken line.left.machine) :
    Talks port hdr payload lost (⟨next none, line.right, [], []⟩ :
      Net Byte Client (Serving σ)) := by
  obtain ⟨-, -, hnext⟩ := hspeaks.hears port hact
  obtain ⟨hsent, hafter⟩ := Sender.hear_enq_silence hdr payload hphase
  obtain ⟨hspeaks', htaken⟩ := hnext none [] (by rw [hsent, List.append_nil])
  rcases hafter with hafter | hafter
  · refine .talks hspeaks' hdispatched (Nat.zero_le n) hlost
      (?_ : port = .cpnos → n ≤ taken (next none).machine + 0) ?_
    · intro hport
      rw [htaken]
      exact (hslips hport).trans (Nat.le_add_right _ _)
    · rw [hafter]
      exact .unheard hlistening
  · have hat := hspeaks'.sends.place
    rw [hafter] at hat
    exact .failed (hspeaks'.rests port hafter) hat.2.2

/-- The client waits in vain, and the server has nothing to do with its message. -/
theorem talks_apart {next : Option Byte → Client}
    (hspeaks : Speaks port hdr payload line.left s us)
    (hact : Client.act port line.left = .hear next) (hapart : Apart line.right.stage)
    (hdispatched : line.right.dispatched = List.replicate n (hdr, payload)) (hlost : n ≤ lost)
    (hslips : port = .cpnos → n ≤ taken line.left.machine + if s.phase = .message then 1 else 0) :
    Talks port hdr payload lost (⟨next none, line.right, [], []⟩ :
      Net Byte Client (Serving σ)) := by
  obtain ⟨-, hwaits, -⟩ := hspeaks.hears port hact
  have hagain : s.phase = .header ∨ s.phase = .message →
      Talks port hdr payload lost (⟨next none, line.right, [], []⟩ : Net Byte Client (Serving σ)) :=
    fun hphase => talks_again port hspeaks hact id (Sender.hear_silence hphase) hapart hdispatched
      hlost hslips
  cases hphase : s.phase with
  | enq d =>
      rw [hphase] at hslips
      exact talks_silence port hspeaks hact hphase hapart.listening hdispatched hlost hslips
  | header => exact hagain (.inl hphase)
  | message => exact hagain (.inr hphase)
  | «over» a => exact absurd hphase (hwaits a)

/-- The client waits in vain. -/
theorem Talks.leftWaits {next : Option Byte → Client} (hregular : Regular hdr payload)
    (htalks : Talks port hdr payload lost line) (hact : Client.act port line.left = .hear next)
    (hleft : line.toLeft = []) (hright : line.toRight = [])
    (hother : (line.right.act handleRequest).Silent) :
    Talks port hdr payload lost { line with left := next none } := by
  cases htalks with
  | failed hrests _ =>
      rw [hrests] at hact
      cases hact
  | @talks s us n owed slips hspeaks hdispatched howed hlost hslips hsituation =>
      obtain ⟨rfl, hwaits, -⟩ := hspeaks.hears port hact
      rw [hleft, hright, List.append_nil] at hsituation
      have hline : ({ line with left := next none } : Net Byte Client (Serving σ)) =
          ⟨next none, line.right, [], []⟩ := by
        rw [hleft, hright]
      rw [hline]
      generalize hstage : line.right.stage = stage at hsituation
      generalize hphase : s.phase = phase at hsituation
      generalize hcoming : ([] : List Byte) = coming at hsituation
      cases hsituation with
      | idle hphase' hrefusing hbound =>
          rw [← hstage] at hrefusing
          refine talks_apart port hspeaks hact (hrefusing.silent hother) hdispatched hlost
            fun hport => ?_
          rw [hphase]
          exact (hslips hport).trans (Nat.add_le_add_left hbound _)
      | unheard hlistening =>
          rw [← hstage] at hlistening
          exact talks_silence port hspeaks hact hphase hlistening hdispatched hlost hslips
      | greets => exact absurd hother (not_silent hstage)
      | saying hq hheard =>
          cases hcoming
          rw [← hstage] at hheard
          exact talks_apart port hspeaks hact (hheard.apart (hregular.sound hq)) hdispatched hlost
            fun hport => (hslips hport).trans (Nat.le_add_right _ _)
      | accepts hq => exact absurd hother (not_silent hstage)
      | done hrefusing => exact absurd hphase (hwaits 0x00#8)

/-- The server says a byte. -/
theorem Talks.rightSays {b : Byte} {v' : Serving σ} (hregular : Regular hdr payload)
    (htalks : Talks port hdr payload lost line) (hact : line.right.act handleRequest = .say b v') :
    Talks port hdr payload lost { line with right := v', toLeft := line.toLeft ++ [b] } := by
  cases htalks with
  | failed hrests ha => exact .failed hrests ha
  | @talks s us n owed slips hspeaks hdispatched howed hlost hslips hsituation =>
      rcases hsituation.rightSays hregular hact with
        ⟨hsame, hsituation'⟩ | ⟨rfl, rfl, hmore, hsituation'⟩
      · exact .talks hspeaks (hsame.trans hdispatched) howed hlost hslips hsituation'
      · have hcount : v'.dispatched = List.replicate (n + 1) (hdr, payload) := by
          rw [hmore, hdispatched, List.replicate_succ']
        exact .talks hspeaks hcount (Nat.le_add_left 1 n) (Nat.add_le_add_right hlost 1)
          (fun hport => Nat.add_le_add_right (hslips hport) 1) hsituation'

/-- The server hears a byte. -/
theorem Talks.rightHears {next : Option Byte → Serving σ} {b : Byte} {xs : List Byte}
    (hregular : Regular hdr payload) (htalks : Talks port hdr payload lost line)
    (hact : line.right.act handleRequest = .hear next) (hqueue : line.toRight = b :: xs) :
    Talks port hdr payload lost { line with right := next (some b), toRight := xs } := by
  cases htalks with
  | failed hrests ha => exact .failed hrests ha
  | @talks s us n owed slips hspeaks hdispatched howed hlost hslips hsituation =>
      rw [hqueue] at hsituation
      obtain ⟨stage, hnext, hsituation'⟩ := hsituation.rightHears hregular hact
      rw [hnext]
      exact .talks hspeaks hdispatched howed hlost hslips hsituation'

/-- The server waits in vain. -/
theorem Talks.rightWaits {next : Option Byte → Serving σ}
    (htalks : Talks port hdr payload lost line) (hact : line.right.act handleRequest = .hear next)
    (hleft : line.toLeft = []) (hright : line.toRight = [])
    (hother : (Client.act port line.left).Silent) :
    Talks port hdr payload lost { line with right := next none } := by
  cases htalks with
  | failed hrests ha => exact .failed hrests ha
  | @talks s us n owed slips hspeaks hdispatched howed hlost hslips hsituation =>
      have hus : us = [] := by
        cases us with
        | nil => rfl
        | cons b us => exact absurd (hspeaks.next port).1 (hother b _)
      subst hus
      rw [hleft, hright, List.append_nil] at hsituation
      obtain ⟨hnext, hsituation'⟩ := hsituation.rightWaits hact
      rw [hnext]
      refine .talks hspeaks hdispatched howed hlost hslips ?_
      rw [hleft, hright, List.append_nil]
      exact hsituation'

/-- A byte to the server is lost. -/
theorem Talks.lostToRight {xs xs' : List Byte} {b : Byte}
    (htalks : Talks port hdr payload lost line) (hqueue : line.toRight = xs ++ b :: xs') :
    Talks port hdr payload lost { line with toRight := xs ++ xs' } := by
  cases htalks with
  | failed hrests ha => exact .failed hrests ha
  | @talks s us n owed slips hspeaks hdispatched howed hlost hslips hsituation =>
      rw [hqueue, List.append_assoc, List.cons_append] at hsituation
      refine .talks hspeaks hdispatched howed hlost hslips ?_
      show Situation hdr payload s.phase (xs ++ xs' ++ us) _ _ owed slips
      rw [List.append_assoc]
      exact hsituation.lostToRight

/-- A byte to the client is lost. -/
theorem Talks.lostToLeft {ys ys' : List Byte} {b : Byte} (hregular : Regular hdr payload)
    (htalks : Talks port hdr payload lost line) (hqueue : line.toLeft = ys ++ b :: ys') :
    Talks port hdr payload (lost + 1) { line with toLeft := ys ++ ys' } := by
  cases htalks with
  | failed hrests ha => exact .failed hrests ha
  | @talks s us n owed slips hspeaks hdispatched howed hlost hslips hsituation =>
      rw [hqueue] at hsituation
      obtain ⟨owed', hmore, hless, hsituation'⟩ := hsituation.lostToLeft hregular
      exact .talks hspeaks hdispatched (hless.trans howed) (by omega) hslips hsituation'

/-! ### Runs -/

/-- **One step** on the line. -/
theorem talks_step {k : Nat} {line' : Net Byte Client (Serving σ)} (hregular : Regular hdr payload)
    (htalks : Talks port hdr payload lost line)
    (hstep : LossyStep (Client.act port) (Serving.act handleRequest) line k line') :
    Talks port hdr payload (lost + k) line' := by
  cases hstep with
  | leftSays hact => exact htalks.leftSays port hact
  | leftHears hact hqueue => exact htalks.leftHears port hregular hact hqueue
  | rightSays hact => exact htalks.rightSays port hregular hact
  | rightHears hact hqueue => exact htalks.rightHears port hregular hact hqueue
  | lostToRight hqueue => exact htalks.lostToRight port hqueue
  | lostToLeft hqueue => exact htalks.lostToLeft port hregular hqueue
  | leftWaits hact hleft hright hother =>
      exact htalks.leftWaits port hregular hact hleft hright hother
  | rightWaits hact hleft hright hother => exact htalks.rightWaits port hact hleft hright hother

/-- The server looks for ENQ, and has dispatched nothing yet. -/
def serving (state : σ) : Serving σ := ⟨state, .hunting, []⟩

/-- The line at a call of SNDMSG. -/
def calling (bc : Word) (m : Snios) (state : σ) : Net Byte Client (Serving σ) :=
  ⟨⟨sndmsg port bc m, 0⟩, serving state, [], []⟩

theorem regular_message {m : Snios} (bc : Word) (hheader : ENQ ∉ headerBytes (hdrAt bc m))
    (hmessage : ENQ ∉ messageBytes (payloadAt bc m)) : Regular (hdrAt bc m) (payloadAt bc m) :=
  ⟨length_loadAt _ _ _, length_loadAt _ _ _, hheader, hmessage⟩

theorem talks_start (bc : Word) (m : Snios) (state : σ) :
    Talks port (hdrAt bc m) (payloadAt bc m) 0 (calling port bc m state) := by
  by_cases hactive : m.netst &&& ACTIVE = 0#8
  · have hinactive := sndmsg_inactive port bc hactive
    have hrests : Client.act port (settled (sndmsg port bc m)) = .rest := by
      rw [hinactive]
      exact settled_rest port rfl
    have hsent : (sndmsg port bc m).sent = [] := by
      rw [hinactive]
      rfl
    rw [settled, hsent] at hrests
    refine .failed hrests ?_
    show (sndmsg port bc m).a = _
    rw [hinactive]
  · obtain ⟨hspeaks, htaken⟩ := speaks_sndmsg port bc hactive
    exact .talks hspeaks (n := 0) rfl (Nat.le_refl 0) (Nat.le_refl 0) (fun _ => Nat.zero_le _)
      (.calling .hunting)

/-- When SNDMSG has returned, its result is that of the sender. -/
theorem Speaks.returned {word : Nat} (hspeaks : Speaks port hdr payload c s us)
    (hplace : c.machine.place = .returned word) :
    s.phase = .over c.machine.a ∧ taken c.machine = word := by
  have hat := hspeaks.sends.place
  have hwaiting : ∀ w, c.machine.place ≠ .waiting w := by
    intro w hw
    rw [hplace] at hw
    cases hw
  refine ⟨?_, by rw [taken, hplace]⟩
  cases hphase : s.phase with
  | enq d =>
      rw [hphase] at hat
      exact absurd hat.1 (hwaiting _)
  | header =>
      rw [hphase] at hat
      exact absurd hat.1 (hwaiting _)
  | message =>
      rw [hphase] at hat
      exact absurd hat.1 (hwaiting _)
  | «over» a =>
      rw [hphase] at hat
      rw [hat.2.2]

/-- When the sender is over, the message has been dispatched. -/
theorem Situation.over {a : Byte}
    (hsituation : Situation hdr payload phase us stage as owed slips) (hphase : phase = .over a) :
    owed = 1 ∧ slips = 1 := by
  cases hsituation with
  | idle hwaits => exact absurd hphase (hwaits a)
  | saying hq =>
      rcases hq with rfl | rfl
      · cases hphase
      · cases hphase
  | accepts hq =>
      rcases hq with rfl | rfl
      · cases hphase
      · cases hphase
  | done => exact ⟨rfl, rfl⟩
  | _ => cases hphase

/-- **Every run.**  When SNDMSG has returned 0, the message has been dispatched, and nothing
else; the number of times is bounded by what has been lost, and by what has been taken off the
stack. -/
theorem delivered_once (bc : Word) (m : Snios) (state : σ)
    (hheader : ENQ ∉ headerBytes (hdrAt bc m)) (hmessage : ENQ ∉ messageBytes (payloadAt bc m))
    (hrun : LossyRun (Client.act port) (Serving.act handleRequest) (calling port bc m state)
      lost line)
    {word : Nat} (hplace : line.left.machine.place = .returned word)
    (ha : line.left.machine.a = 0x00#8) :
    ∃ n, line.right.dispatched = List.replicate (n + 1) (hdrAt bc m, payloadAt bc m) ∧ n ≤ lost ∧
      (port = .cpnos → n ≤ word) := by
  have hregular := regular_message bc hheader hmessage
  have htalks : Talks port (hdrAt bc m) (payloadAt bc m) lost line :=
    hrun.keeps (talks_start port bc m state) fun _ _ _ _ => talks_step port hregular
  cases htalks with
  | failed _ hfailed => exact absurd (hfailed.symm.trans ha) (by decide)
  | @talks s us n owed slips hspeaks hdispatched howed hlost hslips hsituation =>
      obtain ⟨hphase, htaken⟩ := hspeaks.returned port hplace
      rw [ha] at hphase
      obtain ⟨rfl, rfl⟩ := hsituation.over hphase
      obtain ⟨n, rfl⟩ := Nat.exists_eq_add_of_le' howed
      refine ⟨n, hdispatched, Nat.le_of_succ_le_succ hlost, fun hport => ?_⟩
      rw [← htaken]
      exact Nat.le_of_succ_le_succ (hslips hport)

end Link
end Rc700
