import Rc700.Library.Network

/-!
# Calls of a service

A program that calls a service and goes on from each reply, as a tree: the requests, and for
every reply the rest of the program.  What comes of it where the service is a function is
`eval`.

On a line between two parties each call is made of turns.  If one call is carried, with its
reply, so is every program (`Program.carried`): both ends come to where `eval` comes, whatever
the program asks for after what it has been told, and in every run of the two
(`Program.concludes`).
-/

namespace Rc700
namespace Library

inductive Program (ρ ρ' α : Type*)
  | done (a : α)
  | call (request : ρ) (next : ρ' → Program ρ ρ' α)

namespace Program

variable {ρ ρ' α γ σ : Type*}

/-- One program, and then another. -/
def bind : Program ρ ρ' α → (α → Program ρ ρ' γ) → Program ρ ρ' γ
  | .done a, f => f a
  | .call r next, f => .call r fun reply => (next reply).bind f

/-- What comes of a program, and of the state of the service.  There is no result if a call is
not answered. -/
def eval (serve : ρ → σ → Option (ρ' × σ)) : Program ρ ρ' α → σ → Option (α × σ)
  | .done a, s => some (a, s)
  | .call r next, s => (serve r s).bind fun answer => (next answer.1).eval serve answer.2

variable {serve : ρ → σ → Option (ρ' × σ)}

theorem eval_call {r : ρ} {next : ρ' → Program ρ ρ' α} {s s' : σ} {reply : ρ'}
    (hserve : serve r s = some (reply, s')) :
    (Program.call r next).eval serve s = (next reply).eval serve s' := by
  rw [eval, hserve]
  rfl

theorem eval_bind (p : Program ρ ρ' α) (f : α → Program ρ ρ' γ) (s : σ) :
    (p.bind f).eval serve s =
      (p.eval serve s).bind fun result => (f result.1).eval serve result.2 := by
  induction p generalizing s with
  | done a => rfl
  | call r next ih =>
      rw [bind, eval, eval]
      cases serve r s with
      | none => rfl
      | some answer => exact ih answer.1 answer.2

/-! ### What is called -/

/-- The requests that are made, oldest first. -/
def requests (serve : ρ → σ → Option (ρ' × σ)) : Program ρ ρ' α → σ → List ρ
  | .done _, _ => []
  | .call r next, s =>
      r :: ((serve r s).map fun answer => (next answer.1).requests serve answer.2).getD []

theorem requests_call {r : ρ} {next : ρ' → Program ρ ρ' α} {s s' : σ} {reply : ρ'}
    (hserve : serve r s = some (reply, s')) :
    (Program.call r next).requests serve s = r :: (next reply).requests serve s' := by
  rw [requests, hserve]
  rfl

/-- The service keeps a record of its requests. -/
def recording (serve : ρ → σ → Option (ρ' × σ)) (r : ρ) (s : σ × List ρ) :
    Option (ρ' × (σ × List ρ)) :=
  (serve r s.1).map fun answer => (answer.1, (answer.2, s.2 ++ [r]))

theorem eval_recording {p : Program ρ ρ' α} {s s' : σ} {a : α} (rs : List ρ)
    (heval : p.eval serve s = some (a, s')) :
    p.eval (recording serve) (s, rs) = some (a, (s', rs ++ p.requests serve s)) := by
  induction p generalizing s rs with
  | done b =>
      cases heval
      rw [requests, List.append_nil]
      rfl
  | call r next ih =>
      obtain ⟨⟨reply, s₁⟩, hserve, hrest⟩ := Option.bind_eq_some_iff.mp heval
      have hrecorded : recording serve r (s, rs) = some (reply, (s₁, rs ++ [r])) := by
        rw [recording, hserve]
        rfl
      rw [eval_call hrecorded, ih reply (rs ++ [r]) hrest, requests_call hserve, List.append_assoc]
      rfl

/-! ### Calls over a line -/

section Line

variable {β κ υ τ : Type*}

/-- A call is carried: the party that makes it, and the one that serves it, take the same turns
with each other, and come to where the call has been answered. -/
def Carries (actL : υ → Act β υ) (actR : τ → Act β τ) (serve : ρ → σ → Option (ρ' × σ))
    (asks : Program ρ ρ' α → κ → υ) (Ready : κ → Prop) (At : σ → τ → Prop) : Prop :=
  ∀ (r : ρ) (next : ρ' → Program ρ ρ' α) (k : κ) (s s' : σ) (v : τ) (reply : ρ'), Ready k →
    At s v → serve r s = some (reply, s') →
    ∃ turns k' v', Ready k' ∧ At s' v' ∧
      Follows actL (asks (.call r next) k) turns (asks (next reply) k') ∧
      Follows actR v (turns.map Turn.dual) v'

variable {actL : υ → Act β υ} {actR : τ → Act β τ} {asks : Program ρ ρ' α → κ → υ}
  {Ready : κ → Prop} {At : σ → τ → Prop} {p : Program ρ ρ' α} {a : α} {k : κ} {s s' : σ} {v : τ}

/-- **Where a call is carried, so is a program.** -/
theorem carried (hcarries : Carries actL actR serve asks Ready At)
    (heval : p.eval serve s = some (a, s')) (hready : Ready k) (hat : At s v) :
    ∃ turns k' v', Ready k' ∧ At s' v' ∧ Follows actL (asks p k) turns (asks (.done a) k') ∧
      Follows actR v (turns.map Turn.dual) v' := by
  induction p generalizing k s v with
  | done b =>
      cases heval
      exact ⟨[], k, v, hready, hat, .nil _, .nil _⟩
  | call r next ih =>
      obtain ⟨⟨reply, s₁⟩, hserve, hrest⟩ := Option.bind_eq_some_iff.mp heval
      obtain ⟨first, k₁, v₁, hready₁, hat₁, hl, hr⟩ :=
        hcarries r next k s s₁ v reply hready hat hserve
      obtain ⟨later, k', v', hready', hat', hl', hr'⟩ := ih reply hrest hready₁ hat₁
      refine ⟨first ++ later, k', v', hready', hat', hl.append hl', ?_⟩
      rw [List.map_append]
      exact hr.append hr'

/-- Every run of the two ends where `eval` does. -/
theorem concludes (hcarries : Carries actL actR serve asks Ready At)
    (heval : p.eval serve s = some (a, s')) (hready : Ready k) (hat : At s v)
    (hrest : ∀ k, actL (asks (.done a) k) = .rest)
    (hwaits : ∀ v, At s' v → ∃ next, actR v = .hear next) :
    ∃ k' v', Ready k' ∧ At s' v' ∧
      Concludes (NetStep actL actR) ⟨asks p k, v, [], []⟩ ⟨asks (.done a) k', v', [], []⟩ := by
  obtain ⟨turns, k', v', hready', hat', hl, hr⟩ := carried hcarries heval hready hat
  obtain ⟨n, hrun⟩ := hl.converse hr
  obtain ⟨next, hnext⟩ := hwaits v' hat'
  exact ⟨k', v', hready', hat', .of_steps NetStep.diamond hrun (NetStep.waits (hrest k') hnext)⟩

end Line

end Program

end Library
end Rc700
