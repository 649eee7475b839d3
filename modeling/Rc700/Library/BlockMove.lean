import Mathlib.Logic.Function.Basic
import Mathlib.Tactic.Common

/-!
# Block moves

Loops that store, fill or copy one element at a time, over a memory of an
arbitrary element type, and the two closed forms they reduce to:

* `fillRange`: one value in a range of addresses;
* `copyRange`: a range shifted to another place, taken from the old contents.

Copies overlap in both directions.  A forward loop copies a block down, a
backward loop copies it up; a forward loop into the next cell, and a backward
loop into the previous one, fill a range with its first element.
-/

namespace Rc700
namespace Library

variable {α β γ : Type*}

/-! ### Closed forms -/

/-- The memory with `n` cells from `lo` on set to `v`. -/
def fillRange (lo n : Nat) (v : α) (mem : Nat → α) : Nat → α :=
  fun a => if lo ≤ a ∧ a < lo + n then v else mem a

/-- The memory with `n` cells from `dst` on replaced by those from `src` on. -/
def copyRange (src dst n : Nat) (mem : Nat → α) : Nat → α :=
  fun a => if dst ≤ a ∧ a < dst + n then mem (src + (a - dst)) else mem a

@[simp] theorem fillRange_zero (lo : Nat) (v : α) (mem : Nat → α) :
    fillRange lo 0 v mem = mem := by
  funext a
  unfold fillRange
  rw [if_neg (by omega)]

@[simp] theorem copyRange_zero (src dst : Nat) (mem : Nat → α) :
    copyRange src dst 0 mem = mem := by
  funext a
  unfold copyRange
  rw [if_neg (by omega)]

/-- One cell is a range of length one. -/
theorem update_eq_fillRange (a : Nat) (v : α) (mem : Nat → α) :
    Function.update mem a v = fillRange a 1 v mem := by
  funext b
  unfold fillRange
  by_cases hb : b = a
  · subst hb
    rw [Function.update_self, if_pos (by omega)]
  · rw [Function.update_of_ne hb, if_neg (by omega)]

/-- Two adjacent ranges. -/
theorem fillRange_append (lo m n : Nat) (v : α) (mem : Nat → α) :
    fillRange (lo + m) n v (fillRange lo m v mem) = fillRange lo (m + n) v mem := by
  funext a
  unfold fillRange
  by_cases hsecond : lo + m ≤ a ∧ a < lo + m + n
  · rw [if_pos hsecond, if_pos (by omega)]
  · rw [if_neg hsecond]
    by_cases hfirst : lo ≤ a ∧ a < lo + m
    · rw [if_pos hfirst, if_pos (by omega)]
    · rw [if_neg hfirst, if_neg (by omega)]

/-! ### Loops -/

/-- Store `v` into `n` cells, upwards from `dst`. -/
def memset : Nat → Nat → α → (Nat → α) → Nat → α
  | 0, _, _, mem => mem
  | n + 1, dst, v, mem => memset n (dst + 1) v (Function.update mem dst v)

/-- Copy `n` cells, upwards. -/
def ldir : Nat → Nat → Nat → (Nat → α) → Nat → α
  | 0, _, _, mem => mem
  | n + 1, src, dst, mem => ldir n (src + 1) (dst + 1) (Function.update mem dst (mem src))

/-- Copy `n` cells, downwards. -/
def lddr : Nat → Nat → Nat → (Nat → α) → Nat → α
  | 0, _, _, mem => mem
  | n + 1, src, dst, mem => lddr n (src - 1) (dst - 1) (Function.update mem dst (mem src))

theorem memset_eq (n dst : Nat) (v : α) (mem : Nat → α) :
    memset n dst v mem = fillRange dst n v mem := by
  induction n generalizing dst mem with
  | zero =>
      simp [memset]
  | succ n ih =>
      rw [memset, ih, update_eq_fillRange, fillRange_append, Nat.add_comm 1 n]

/-- **Copying a block down.** -/
theorem ldir_eq (n : Nat) {src dst : Nat} (hdown : dst ≤ src) (mem : Nat → α) :
    ldir n src dst mem = copyRange src dst n mem := by
  induction n generalizing src dst mem with
  | zero =>
      simp [ldir]
  | succ n ih =>
      rw [ldir, ih (by omega)]
      funext a
      unfold copyRange
      by_cases hrest : dst + 1 ≤ a ∧ a < dst + 1 + n
      · -- the cell read is ahead of every cell written so far
        have hahead : src + 1 + (a - (dst + 1)) ≠ dst := by omega
        have hsame : src + 1 + (a - (dst + 1)) = src + (a - dst) := by omega
        rw [if_pos hrest, if_pos (by omega), Function.update_of_ne hahead, hsame]
      · rw [if_neg hrest]
        by_cases hfirst : a = dst
        · subst hfirst
          rw [Function.update_self, if_pos (by omega), Nat.sub_self, Nat.add_zero]
        · rw [Function.update_of_ne hfirst, if_neg (by omega)]

/-- **Copying a block up.** -/
theorem lddr_eq (n : Nat) {src dst : Nat} (hup : src ≤ dst) (hroom : n ≤ src + 1)
    (mem : Nat → α) :
    lddr n src dst mem = copyRange (src + 1 - n) (dst + 1 - n) n mem := by
  -- by induction on the bytes that are left, the highest of them first
  induction n generalizing src dst mem with
  | zero =>
      simp [lddr]
  | succ n ih =>
      by_cases hlast : n = 0
      · subst hlast
        rw [lddr, lddr]
        funext a
        unfold copyRange
        by_cases ha : a = dst
        · subst ha
          rw [Function.update_self, if_pos (by omega)]
          congr 1
          omega
        · rw [Function.update_of_ne ha, if_neg (by omega)]
      · rw [lddr, ih (by omega) (by omega)]
        funext a
        unfold copyRange
        -- what is copied later does not read the byte that was stored
        by_cases hrest : dst - 1 + 1 - n ≤ a ∧ a < dst - 1 + 1 - n + n
        · have hbehind : src - 1 + 1 - n + (a - (dst - 1 + 1 - n)) ≠ dst := by omega
          have hsame : src - 1 + 1 - n + (a - (dst - 1 + 1 - n)) =
              src + 1 - (n + 1) + (a - (dst + 1 - (n + 1))) := by omega
          rw [if_pos hrest, if_pos (by omega), Function.update_of_ne hbehind, hsame]
        · rw [if_neg hrest]
          by_cases hfirst : a = dst
          · subst hfirst
            rw [Function.update_self, if_pos (by omega)]
            congr 1
            omega
          · rw [Function.update_of_ne hfirst, if_neg (by omega)]

/-- A forward copy into the next cell fills the range. -/
theorem ldir_succ (n a : Nat) (mem : Nat → α) :
    ldir n a (a + 1) mem = fillRange (a + 1) n (mem a) mem := by
  induction n generalizing a mem with
  | zero =>
      simp [ldir]
  | succ n ih =>
      rw [ldir, ih, Function.update_self, update_eq_fillRange, fillRange_append,
        Nat.add_comm 1 n]

/-- A backward copy into the previous cell fills the range. -/
theorem lddr_pred (n a : Nat) (hroom : n ≤ a) (mem : Nat → α) :
    lddr n a (a - 1) mem = fillRange (a - n) n (mem a) mem := by
  induction n generalizing a mem with
  | zero =>
      simp [lddr]
  | succ n ih =>
      rw [lddr, ih (a - 1) (by omega), Function.update_self, update_eq_fillRange]
      have hlow : a - 1 = a - 1 - n + n := by omega
      funext b
      unfold fillRange
      by_cases hlower : a - 1 - n ≤ b ∧ b < a - 1 - n + n
      · rw [if_pos hlower, if_pos (by omega)]
      · rw [if_neg hlower]
        by_cases hfirst : a - 1 ≤ b ∧ b < a - 1 + 1
        · rw [if_pos hfirst, if_pos (by omega)]
        · rw [if_neg hfirst, if_neg (by omega)]

-- the loops are reasoned about through their closed forms only
attribute [irreducible] memset ldir lddr

/-! ### Two memories side by side -/

/-- Both memories as one. -/
def zipWith (f : α → β → γ) (mem : Nat → α) (mem' : Nat → β) : Nat → γ :=
  fun a => f (mem a) (mem' a)

theorem zipWith_fillRange (f : α → β → γ) (lo n : Nat) (v : α) (w : β) (mem : Nat → α)
    (mem' : Nat → β) :
    zipWith f (fillRange lo n v mem) (fillRange lo n w mem') =
      fillRange lo n (f v w) (zipWith f mem mem') := by
  funext a
  unfold zipWith fillRange
  split <;> rfl

theorem zipWith_copyRange (f : α → β → γ) (src dst n : Nat) (mem : Nat → α)
    (mem' : Nat → β) :
    zipWith f (copyRange src dst n mem) (copyRange src dst n mem') =
      copyRange src dst n (zipWith f mem mem') := by
  funext a
  unfold zipWith copyRange
  split <;> rfl

end Library
end Rc700
