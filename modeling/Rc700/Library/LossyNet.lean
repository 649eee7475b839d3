import Rc700.Library.Network

/-!
# A line that loses symbols

Two parties, as in `Net`, whose line loses some of the symbols that are on their way.  A wait
ends without a symbol only when nothing more can come: nothing is on its way in either
direction, and the other party does not say anything.  A run counts the symbols that are lost
on their way to the left.

A worse line also puts other symbols in place of those that are on their way (`NoisyStep`).
-/

namespace Rc700
namespace Library

variable {β σ τ : Type*}

/-- A party that does not say anything now. -/
def Act.Silent (a : Act β σ) : Prop := ∀ b s, a ≠ .say b s

variable (actL : σ → Act β σ) (actR : τ → Act β τ)

/-- A step on a line that loses symbols, and how many are lost on their way to the left. -/
inductive LossyStep (c : Net β σ τ) : Nat → Net β σ τ → Prop
  | leftSays {b : β} {l : σ} (hact : actL c.left = .say b l) :
      LossyStep c 0 { c with left := l, toRight := c.toRight ++ [b] }
  | leftHears {next : Option β → σ} {b : β} {ys : List β} (hact : actL c.left = .hear next)
      (hqueue : c.toLeft = b :: ys) :
      LossyStep c 0 { c with left := next (some b), toLeft := ys }
  | rightSays {b : β} {r : τ} (hact : actR c.right = .say b r) :
      LossyStep c 0 { c with right := r, toLeft := c.toLeft ++ [b] }
  | rightHears {next : Option β → τ} {b : β} {xs : List β} (hact : actR c.right = .hear next)
      (hqueue : c.toRight = b :: xs) :
      LossyStep c 0 { c with right := next (some b), toRight := xs }
  | lostToRight {xs xs' : List β} {b : β} (hqueue : c.toRight = xs ++ b :: xs') :
      LossyStep c 0 { c with toRight := xs ++ xs' }
  | lostToLeft {ys ys' : List β} {b : β} (hqueue : c.toLeft = ys ++ b :: ys') :
      LossyStep c 1 { c with toLeft := ys ++ ys' }
  | leftWaits {next : Option β → σ} (hact : actL c.left = .hear next) (hleft : c.toLeft = [])
      (hright : c.toRight = []) (hother : (actR c.right).Silent) :
      LossyStep c 0 { c with left := next none }
  | rightWaits {next : Option β → τ} (hact : actR c.right = .hear next) (hleft : c.toLeft = [])
      (hright : c.toRight = []) (hother : (actL c.left).Silent) :
      LossyStep c 0 { c with right := next none }

/-- A run, and how many symbols are lost on their way to the left. -/
inductive LossyRun (c : Net β σ τ) : Nat → Net β σ τ → Prop
  | refl : LossyRun c 0 c
  | tail {n k : Nat} {d e : Net β σ τ} (hrun : LossyRun c n d)
      (hstep : LossyStep actL actR d k e) : LossyRun c (n + k) e

/-- A step on a line that also changes symbols. -/
inductive NoisyStep (c : Net β σ τ) : Net β σ τ → Prop
  | lossy {k : Nat} {d : Net β σ τ} (hstep : LossyStep actL actR c k d) : NoisyStep c d
  | changedToRight {xs xs' : List β} {b : β} (b' : β) (hqueue : c.toRight = xs ++ b :: xs') :
      NoisyStep c { c with toRight := xs ++ b' :: xs' }
  | changedToLeft {ys ys' : List β} {b : β} (b' : β) (hqueue : c.toLeft = ys ++ b :: ys') :
      NoisyStep c { c with toLeft := ys ++ b' :: ys' }

/-- A run on a line that also changes symbols. -/
inductive NoisyRun (c : Net β σ τ) : Net β σ τ → Prop
  | refl : NoisyRun c c
  | tail {d e : Net β σ τ} (hrun : NoisyRun c d) (hstep : NoisyStep actL actR d e) : NoisyRun c e

variable {actL actR} {c d e : Net β σ τ}

/-- **What every step keeps, every run keeps.** -/
theorem LossyRun.keeps {P : Nat → Net β σ τ → Prop} (hstart : P 0 c)
    (hstep : ∀ n k d e, P n d → LossyStep actL actR d k e → P (n + k) e) {n : Nat}
    (hrun : LossyRun actL actR c n d) : P n d := by
  induction hrun with
  | refl => exact hstart
  | tail _ hlast ih => exact hstep _ _ _ _ ih hlast

/-! ### The line may keep all symbols -/

theorem NetStep.lossy (hstep : NetStep actL actR c d) : LossyStep actL actR c 0 d := by
  obtain ⟨l, r, xs, ys⟩ := d
  rcases hstep with hstep | hstep
  · generalize hd : (⟨l, r, xs, ys⟩ : Net β σ τ) = d at hstep ⊢
    cases hstep with
    | sends hact => exact .leftSays hact
    | takes hact hqueue => exact .leftHears hact hqueue
  · generalize hd : Net.flip (⟨l, r, xs, ys⟩ : Net β σ τ) = d at hstep
    cases hstep with
    | sends hact =>
        cases hd
        exact .rightSays hact
    | takes hact hqueue =>
        cases hd
        exact .rightHears hact hqueue

theorem LossyRun.steps {k n : Nat} (hrun : LossyRun actL actR c k d)
    (hsteps : Steps (NetStep actL actR) n d e) : LossyRun actL actR c k e := by
  induction hsteps with
  | refl d => exact hrun
  | head hstep _ ih => exact ih (hrun.tail hstep.lossy)

theorem LossyRun.noisy {k : Nat} (hrun : LossyRun actL actR c k d) : NoisyRun actL actR c d := by
  induction hrun with
  | refl => exact .refl
  | tail _ hstep ih => exact ih.tail (.lossy hstep)

theorem NoisyRun.steps {n : Nat} (hrun : NoisyRun actL actR c d)
    (hsteps : Steps (NetStep actL actR) n d e) : NoisyRun actL actR c e := by
  induction hsteps with
  | refl d => exact hrun
  | head hstep _ ih => exact ih (hrun.tail (.lossy hstep.lossy))

/-- Any of the symbols on their way to the right may be lost. -/
theorem LossyRun.losesToRight {k : Nat} {l : σ} {r : τ} (front : List β) {xs xs' ys : List β}
    (hsub : xs'.Sublist xs) (hrun : LossyRun actL actR c k ⟨l, r, front ++ xs, ys⟩) :
    LossyRun actL actR c k ⟨l, r, front ++ xs', ys⟩ := by
  induction hsub generalizing front with
  | slnil => exact hrun
  | cons b _ ih => exact ih front (hrun.tail (.lostToRight rfl))
  | cons_cons b _ ih =>
      rw [List.append_cons] at hrun ⊢
      exact ih (front ++ [b]) hrun

end Library
end Rc700
