import Rc700.Library.LossyNet
import Rc700.Link.Parties

/-!
# The server's loop

`run` of `cpnet/server.py`: `recv_frame`, `handle_request` and, for a reply, `send_frame`, over
and over.  What `handle_request` does is left open here; it is given what `recv_frame` has
received, and has a frame to send, or none, or raises an exception that ends the loop.

While the server waits for a byte it says nothing, and if none comes it goes back to looking for
ENQ (`Listening`).  It is `Apart` if ENQ does not make it answer with ACK, unless it looks for it.
-/

namespace Rc700
namespace Link

open Library

/-! ### The loop -/

/-- Where the loop is. -/
inductive Stage
  | receiving (r : Receiver)
  | replying (d : Dialogue Byte Bool)
  | stopped

/-- `recv_frame` looks for ENQ. -/
abbrev Stage.hunting : Stage := .receiving .hunting

structure Serving (σ : Type) where
  state : σ
  stage : Stage
  /-- What `handle_request` has been called with, oldest first. -/
  dispatched : List (List Byte × List Byte)

/-- What comes of a call of `handle_request`. -/
inductive Answer (σ : Type)
  | sends (state : σ) (hdr payload : List Byte)
  | returns (state : σ)
  | raises

variable {σ : Type} (handleRequest : List Byte → List Byte → σ → Answer σ)

/-- `handle_request` is called. -/
def Serving.dispatch (hdr payload : List Byte) (v : Serving σ) : Serving σ :=
  let v := { v with dispatched := v.dispatched ++ [(hdr, payload)] }
  match handleRequest hdr payload v.state with
  | .sends state hdr payload =>
      { v with state := state, stage := .replying (sendFrame hdr payload) }
  | .returns state => { v with state := state, stage := .hunting }
  | .raises => { v with stage := .stopped }

/-- The loop goes on when `recv_frame` or `send_frame` has returned. -/
def Serving.goOn (stage : Stage) (v : Serving σ) : Serving σ :=
  match stage with
  | .receiving (.within (.done none)) => { v with stage := .hunting }
  | .receiving (.within (.done (some (hdr, payload)))) => dispatch handleRequest hdr payload v
  | .replying (.done _) => { v with stage := .hunting }
  | stage => { v with stage := stage }

/-- `run` -/
def Serving.act (v : Serving σ) : Act Byte (Serving σ) :=
  match v.stage with
  | .receiving r => r.act.map fun r => v.goOn handleRequest (.receiving r)
  | .replying d => (Dialogue.act d).map fun d => v.goOn handleRequest (.replying d)
  | .stopped => .rest

/-! ### Waiting -/

variable {handleRequest} {v : Serving σ}

/-- The server waits for a byte, and goes back to looking for ENQ if none comes; or it has
stopped. -/
inductive Listening : Stage → Prop
  | hunting : Listening .hunting
  | within {k : Option Byte → Dialogue Byte (Option (List Byte × List Byte))}
      (hsilence : k none = .done none) : Listening (.receiving (.within (.hear k)))
  | replying (d : Dialogue Byte Bool) : Listening (.replying (answered d))
  | stopped : Listening .stopped

/-- What becomes of a frame that ENQ does not belong to. -/
inductive Confused : Dialogue Byte (Option (List Byte × List Byte)) → Prop
  | gaveUp : Confused (.done none)
  | refused : Confused (.say NAK (.done none))
  | listens {k : Option Byte → Dialogue Byte (Option (List Byte × List Byte))}
      (hsilence : k none = .done none) : Confused (.hear k)

/-- The server waits for a byte, and answers ENQ with ACK only if it looks for ENQ. -/
inductive Apart : Stage → Prop
  | hunting : Apart .hunting
  | within {k : Option Byte → Dialogue Byte (Option (List Byte × List Byte))}
      (hsilence : k none = .done none) (henq : Confused (k (some ENQ))) :
      Apart (.receiving (.within (.hear k)))
  | replying (d : Dialogue Byte Bool) : Apart (.replying (answered d))
  | stopped : Apart .stopped

theorem Apart.listening {stage : Stage} (hstage : Apart stage) : Listening stage := by
  cases hstage with
  | hunting => exact .hunting
  | within hsilence _ => exact .within hsilence
  | replying d => exact .replying d
  | stopped => exact .stopped

theorem Listening.silent (hstage : Listening v.stage) : (v.act handleRequest).Silent := by
  obtain ⟨state, stage, dispatched⟩ := v
  intro b v' hact
  cases hstage with
  | hunting => cases hact
  | within _ => cases hact
  | replying d => cases hact
  | stopped => cases hact

theorem Listening.waits {next : Option Byte → Serving σ} (hstage : Listening v.stage)
    (hact : v.act handleRequest = .hear next) : next none = { v with stage := .hunting } := by
  obtain ⟨state, stage, dispatched⟩ := v
  cases hstage with
  | hunting =>
      cases hact
      rfl
  | @within k hsilence =>
      cases hact
      dsimp only
      rw [hsilence]
      rfl
  | replying d =>
      cases hact
      rfl
  | stopped => cases hact

theorem not_silent {b : Byte} {d : Dialogue Byte (Option (List Byte × List Byte))}
    (hstage : v.stage = .receiving (.within (.say b d))) : ¬ (v.act handleRequest).Silent := by
  obtain ⟨state, stage, dispatched⟩ := v
  subst hstage
  exact fun hsilent => hsilent b _ rfl

/-- ENQ starts a frame, or is taken for a byte of another one. -/
theorem Apart.enq {next : Option Byte → Serving σ} (hstage : Apart v.stage)
    (hact : v.act handleRequest = .hear next) :
    next (some ENQ) = { v with stage := .receiving (.within recvRest) } ∨
      next (some ENQ) = { v with stage := .receiving (.within (.say NAK (.done none))) } ∨
      ∃ stage, next (some ENQ) = { v with stage := stage } ∧ Listening stage := by
  obtain ⟨state, stage, dispatched⟩ := v
  cases hstage with
  | hunting =>
      cases hact
      exact .inl rfl
  | @within k hsilence henq =>
      cases hact
      dsimp only
      generalize k (some ENQ) = d at henq ⊢
      cases henq with
      | gaveUp => exact .inr (.inr ⟨_, rfl, .hunting⟩)
      | refused => exact .inr (.inl rfl)
      | listens hsilence => exact .inr (.inr ⟨_, rfl, .within hsilence⟩)
  | replying d =>
      cases hact
      exact .inr (.inr ⟨_, rfl, .hunting⟩)
  | stopped => cases hact

/-! ### What is not an ACK -/

/-- What the server has said, or is about to say, is not an ACK, and then it is apart. -/
inductive Refusing : List Byte → Stage → Prop
  | still {stage : Stage} (hstage : Apart stage) : Refusing [] stage
  | said {b : Byte} {stage : Stage} (hb : low7 b ≠ ACK) (hstage : Apart stage) : Refusing [b] stage
  | refuses : Refusing [] (.receiving (.within (.say NAK (.done none))))
  | offers (d : Dialogue Byte Bool) : Refusing [] (.replying (.say ENQ (answered d)))

variable {as : List Byte} {stage : Stage}

theorem Refusing.next {b : Byte} {v' : Serving σ} (hrefusing : Refusing as v.stage)
    (hact : v.act handleRequest = .say b v') :
    ∃ stage, v' = { v with stage := stage } ∧ Refusing (as ++ [b]) stage := by
  obtain ⟨state, stage, dispatched⟩ := v
  cases hrefusing with
  | still hstage => exact absurd hact (hstage.listening.silent b v')
  | said _ hstage => exact absurd hact (hstage.listening.silent b v')
  | refuses =>
      cases hact
      exact ⟨.hunting, rfl, .said (by decide) .hunting⟩
  | offers d =>
      cases hact
      exact ⟨.replying (answered d), rfl, .said (by decide) (.replying d)⟩

theorem Refusing.apart {next : Option Byte → Serving σ} (hrefusing : Refusing as v.stage)
    (hact : v.act handleRequest = .hear next) : Apart v.stage := by
  obtain ⟨state, stage, dispatched⟩ := v
  cases hrefusing with
  | still hstage => exact hstage
  | said _ hstage => exact hstage
  | refuses => cases hact
  | offers d => cases hact

theorem Refusing.silent (hrefusing : Refusing [] v.stage) (hsilent : (v.act handleRequest).Silent) :
    Apart v.stage := by
  obtain ⟨state, stage, dispatched⟩ := v
  cases hrefusing with
  | still hstage => exact hstage
  | refuses => exact absurd rfl (hsilent NAK _)
  | offers d => exact absurd rfl (hsilent ENQ _)

theorem Refusing.hears {b : Byte} (hrefusing : Refusing (b :: as) stage) :
    low7 b ≠ ACK ∧ as = [] ∧ Apart stage := by
  cases hrefusing with
  | said hb hstage => exact ⟨hb, rfl, hstage⟩

theorem Refusing.loses {b : Byte} {as' : List Byte} (hrefusing : Refusing (as ++ b :: as') stage) :
    Refusing (as ++ as') stage := by
  cases as with
  | nil =>
      obtain ⟨-, rfl, hstage⟩ := hrefusing.hears
      exact .still hstage
  | cons a as =>
      obtain ⟨-, hnil, -⟩ := hrefusing.hears
      exact absurd hnil (List.append_ne_nil_of_right_ne_nil as (List.cons_ne_nil b as'))

variable (handleRequest) in
/-- The server has dispatched a message. -/
theorem refusing_dispatch (hdr payload : List Byte) (v : Serving σ) :
    (v.dispatch handleRequest hdr payload).dispatched = v.dispatched ++ [(hdr, payload)] ∧
      Refusing [] (v.dispatch handleRequest hdr payload).stage := by
  unfold Serving.dispatch
  dsimp only
  split
  · exact ⟨rfl, .offers _⟩
  · exact ⟨rfl, .still .hunting⟩
  · exact ⟨rfl, .still .stopped⟩

end Link
end Rc700
