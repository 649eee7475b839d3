import Mathlib.Tactic.Common

/-!
# Progress in an environment

A machine that takes one step at a time, each with what its environment does just before.
While it is blocked it stays where it is; any other step takes it nearer to its end.  If it
is not blocked forever, it gets there (`reaches_end`).
-/

namespace Rc700
namespace Library
namespace Progress

variable {State Env : Type*} (tick : Env → State → State)

/-- The state after so many steps. -/
def runFor (env : Nat → Env) (s : State) : Nat → State
  | 0 => s
  | n + 1 => tick (env n) (runFor env s n)

@[simp] theorem runFor_zero (env : Nat → Env) (s : State) : runFor tick env s 0 = s := rfl

theorem runFor_succ (env : Nat → Env) (s : State) (n : Nat) :
    runFor tick env s (n + 1) = tick (env n) (runFor tick env s n) := rfl

/-- What every step keeps holds at all times. -/
theorem runFor_invariant (Inv : State → Prop) (hstep : ∀ e s, Inv s → Inv (tick e s))
    (env : Nat → Env) {s : State} (hstart : Inv s) (n : Nat) : Inv (runFor tick env s n) := by
  induction n with
  | zero => exact hstart
  | succ n ih => exact hstep _ _ ih

/-- **The end is reached** by a machine that some rank brings nearer to it with every step
that is not blocked, if at no time it is blocked from then on forever. -/
theorem reaches_end {ended : State → Prop} (blocked : Env → State → Prop) (Inv : State → Prop)
    (rank : State → Nat) (hkeep : ∀ e s, Inv s → Inv (tick e s))
    (hblocked : ∀ e s, Inv s → blocked e s → rank (tick e s) = rank s)
    (hstep : ∀ e s, Inv s → ¬ended s → ¬blocked e s → rank (tick e s) < rank s)
    (env : Nat → Env) {s : State} (hstart : Inv s)
    (hfair : ∀ n, ¬ended (runFor tick env s n) →
      ∃ k ≥ n, ¬blocked (env k) (runFor tick env s k)) :
    ∃ n, ended (runFor tick env s n) := by
  have hinv := runFor_invariant tick Inv hkeep env hstart
  by_contra hnever
  simp only [not_exists] at hnever
  -- the rank never grows, and grows smaller after any time
  have hless : ∀ n, rank (runFor tick env s (n + 1)) ≤ rank (runFor tick env s n) := by
    intro n
    by_cases hb : blocked (env n) (runFor tick env s n)
    · exact Nat.le_of_eq (hblocked _ _ (hinv n) hb)
    · exact Nat.le_of_lt (hstep _ _ (hinv n) (hnever n) hb)
  have hmono : ∀ n k, n ≤ k → rank (runFor tick env s k) ≤ rank (runFor tick env s n) := by
    intro n k hk
    induction hk with
    | refl => exact Nat.le_refl _
    | step _ ih => exact Nat.le_trans (hless _) ih
  have hsmall : ∀ r n, rank (runFor tick env s n) ≤ r → False := by
    intro r
    induction r with
    | zero =>
        intro n hn
        obtain ⟨k, hk, hfree⟩ := hfair n (hnever n)
        have hdown := hstep _ _ (hinv k) (hnever k) hfree
        have := hmono n k hk
        omega
    | succ r ih =>
        intro n hn
        obtain ⟨k, hk, hfree⟩ := hfair n (hnever n)
        have hdown := hstep _ _ (hinv k) (hnever k) hfree
        have := hmono n k hk
        exact ih (k + 1) (by rw [runFor_succ]; omega)
  exact hsmall _ 0 (Nat.le_refl _)

end Progress
end Library
end Rc700
