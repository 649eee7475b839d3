import Mathlib.Data.BitVec
import Mathlib.Logic.Function.Iterate
import Mathlib.Tactic.Common

/-!
# Shift registers with feedback

A register that takes in bits at its low end, one for each shift, and feeds what it shifts
out back at the places of a polynomial.  It is linear in exclusive or, and where the
polynomial has the top bit no shift loses anything.  So a change of no more bits than the
register has cannot go unseen (`feed_burst`), however many bits come before and behind it.
-/

namespace Rc700
namespace Library
namespace ShiftRegister

variable {w : Nat} (poly : BitVec w)

/-- One shift. -/
def shift (reg : BitVec w) : BitVec w :=
  if reg.getLsbD 0 then (reg >>> 1) ^^^ poly else reg >>> 1

/-- A bit at the low end of a register. -/
def low (w : Nat) (b : Bool) : BitVec w := (BitVec.ofBool b).setWidth w

/-- Bits are taken in, one for each shift. -/
def feed (reg : BitVec w) : List Bool → BitVec w
  | [] => reg
  | b :: bits => feed (shift poly (reg ^^^ low w b)) bits

/-- Bits as a word, the first at the low end. -/
def word (w : Nat) : List Bool → BitVec w
  | [] => 0#w
  | b :: bits => low w b ^^^ (word w bits <<< 1)

/-! ### Linearity -/

theorem shift_zero : shift poly 0#w = 0#w := by
  simp [shift]

theorem xor_cancel (a b p : BitVec w) : (a ^^^ p) ^^^ (b ^^^ p) = a ^^^ b := by
  calc (a ^^^ p) ^^^ (b ^^^ p) = (a ^^^ b) ^^^ (p ^^^ p) := by ac_rfl
    _ = a ^^^ b := by simp

theorem shift_xor (a b : BitVec w) : shift poly (a ^^^ b) = shift poly a ^^^ shift poly b := by
  unfold shift
  rw [BitVec.getLsbD_xor, BitVec.ushiftRight_xor_distrib]
  rcases Bool.eq_false_or_eq_true (a.getLsbD 0) with ha | ha <;>
    rcases Bool.eq_false_or_eq_true (b.getLsbD 0) with hb | hb
  · -- both feed back, which cancels
    simp [ha, hb, xor_cancel]
  · simp only [ha, hb, Bool.xor_false, if_true, Bool.false_eq_true, if_false]
    ac_rfl
  · simp only [ha, hb, Bool.false_xor, if_true, Bool.false_eq_true, if_false]
    ac_rfl
  · simp [ha, hb]

theorem low_xor (a b : Bool) : low w (a ^^ b) = low w a ^^^ low w b := by
  cases a <;> cases b <;> simp [low]

theorem iterate_shift_xor (n : Nat) (a b : BitVec w) :
    (shift poly)^[n] (a ^^^ b) = (shift poly)^[n] a ^^^ (shift poly)^[n] b := by
  induction n generalizing a b with
  | zero => rfl
  | succ n ih => rw [Function.iterate_succ_apply, shift_xor, ih]; rfl

/-- The difference of two registers takes in the difference of the bits. -/
theorem feed_xor (a b : BitVec w) (xs ys : List Bool) (hlen : xs.length = ys.length) :
    feed poly a xs ^^^ feed poly b ys = feed poly (a ^^^ b) (xs.zipWith xor ys) := by
  induction xs generalizing a b ys with
  | nil =>
      cases ys with
      | nil => rfl
      | cons y ys => simp at hlen
  | cons x xs ih =>
      cases ys with
      | nil => simp at hlen
      | cons y ys =>
          have hrest : xs.length = ys.length := by simpa using hlen
          rw [feed, feed, ih _ _ _ hrest, ← shift_xor, List.zipWith_cons_cons, feed, low_xor]
          congr 2
          ac_rfl

theorem feed_append (reg : BitVec w) (xs ys : List Bool) :
    feed poly reg (xs ++ ys) = feed poly (feed poly reg xs) ys := by
  induction xs generalizing reg with
  | nil => rfl
  | cons x xs ih => exact ih _

/-- Zeros only shift. -/
theorem feed_zeros (reg : BitVec w) (n : Nat) :
    feed poly reg (List.replicate n false) = (shift poly)^[n] reg := by
  induction n generalizing reg with
  | zero => rfl
  | succ n ih =>
      rw [List.replicate_succ, feed, ih, Function.iterate_succ_apply]
      simp [low]

/-! ### Nothing is lost -/

/-- With the top bit in the polynomial, only zero is shifted to zero. -/
theorem shift_eq_zero (hw : 0 < w) (hpoly : poly.getLsbD (w - 1) = true) {reg : BitVec w}
    (hzero : shift poly reg = 0#w) : reg = 0#w := by
  rcases Bool.eq_false_or_eq_true (reg.getLsbD 0) with hlow | hlow
  · -- the top bit of the result is that of the polynomial
    have htop := congrArg (fun r => r.getLsbD (w - 1)) hzero
    simp only [shift, hlow, if_true, BitVec.getLsbD_xor, BitVec.getLsbD_ushiftRight, hpoly] at htop
    have hout : reg.getLsbD (1 + (w - 1)) = false := BitVec.getLsbD_of_ge reg _ (by omega)
    simp [hout] at htop
  · apply BitVec.eq_of_getLsbD_eq
    intro i hi
    cases i with
    | zero => simpa using hlow
    | succ i =>
        have hbit := congrArg (fun r => r.getLsbD i) hzero
        simpa [shift, hlow, Nat.add_comm] using hbit

theorem iterate_shift_eq_zero (hw : 0 < w) (hpoly : poly.getLsbD (w - 1) = true) {n : Nat}
    {reg : BitVec w} (hzero : (shift poly)^[n] reg = 0#w) : reg = 0#w := by
  induction n with
  | zero => exact hzero
  | succ n ih =>
      rw [Function.iterate_succ_apply'] at hzero
      exact ih (shift_eq_zero poly hw hpoly hzero)

theorem iterate_shift_injective (hw : 0 < w) (hpoly : poly.getLsbD (w - 1) = true) (n : Nat) :
    Function.Injective (shift poly)^[n] := by
  intro a b heq
  have hdiff : (shift poly)^[n] (a ^^^ b) = 0#w := by
    rw [iterate_shift_xor, heq, BitVec.xor_self]
  exact BitVec.xor_eq_zero_iff.mp (iterate_shift_eq_zero poly hw hpoly hdiff)

/-! ### Bits at once -/

theorem low_getLsbD (b : Bool) (i : Nat) :
    (low w b).getLsbD i = (decide (i < w) && (decide (i = 0) && b)) := by
  cases b <;> cases i <;> simp [low]

theorem word_getLsbD (bits : List Bool) (i : Nat) :
    (word w bits).getLsbD i = (decide (i < w) && bits.getD i false) := by
  induction bits generalizing i with
  | nil => simp [word]
  | cons b bits ih =>
      rw [word, BitVec.getLsbD_xor, low_getLsbD, BitVec.getLsbD_shiftLeft]
      cases i with
      | zero => simp
      | succ i =>
          by_cases hi : i + 1 < w
          · have hless : i < w := by omega
            have hdown := ih i
            rw [BitVec.getLsbD_eq_getElem hless] at hdown
            simpa [hi, hless] using hdown
          · simp [hi]

/-- Bits that fit come down as they went up. -/
theorem shift_word {bits : List Bool} (hlen : bits.length < w) :
    shift poly (word w bits <<< 1) = word w bits := by
  have hlow : (word w bits <<< 1).getLsbD 0 = false := by simp
  unfold shift
  rw [hlow]
  apply BitVec.eq_of_getLsbD_eq
  intro i hi
  by_cases hnext : i + 1 < w
  · have hone : 1 + i < w := by omega
    simp [hone, BitVec.getLsbD_eq_getElem hi]
  · -- the top place: there are not so many bits
    have hnone : bits.length ≤ i := by omega
    simp [word_getLsbD, hnone]

/-- Not more bits than the register has might as well be taken in at once. -/
theorem feed_word (reg : BitVec w) {bits : List Bool} (hlen : bits.length ≤ w) :
    feed poly reg bits = (shift poly)^[bits.length] (reg ^^^ word w bits) := by
  induction bits generalizing reg with
  | nil => simp [feed, word]
  | cons b bits ih =>
      have hfit : bits.length < w := hlen
      rw [feed, ih _ (Nat.le_of_lt hfit), List.length_cons, Function.iterate_succ_apply, word,
        ← BitVec.xor_assoc, shift_xor poly (reg ^^^ low w b), shift_word poly hfit]

theorem word_eq_zero {bits : List Bool} (hlen : bits.length ≤ w) (hzero : word w bits = 0#w) :
    ∀ b ∈ bits, b = false := by
  intro b hb
  obtain ⟨i, hi, rfl⟩ := List.getElem_of_mem hb
  have hless : i < w := by omega
  have hbit : (word w bits).getLsbD i = false := by
    rw [hzero]
    simp
  rw [word_getLsbD] at hbit
  simpa [hless, hi] using hbit

/-- **A burst is seen**: bits of which one is set, not more than the register has, leave a
clear register different from zero, with any number of zeros before and behind them. -/
theorem feed_burst (hpoly : poly.getLsbD (w - 1) = true) (before behind : Nat) {burst : List Bool}
    (hlen : burst.length ≤ w) (hset : true ∈ burst) :
    feed poly 0#w (List.replicate before false ++ (burst ++ List.replicate behind false)) ≠
      0#w := by
  have hw : 0 < w := by
    have hsome := List.length_pos_of_mem hset
    omega
  have hclear : (shift poly)^[before] 0#w = 0#w := by
    induction before with
    | zero => rfl
    | succ n ih => rw [Function.iterate_succ_apply, shift_zero, ih]
  intro hzero
  rw [feed_append, feed_append, feed_zeros, feed_zeros, hclear, feed_word poly 0#w hlen] at hzero
  have hword := iterate_shift_eq_zero poly hw hpoly (iterate_shift_eq_zero poly hw hpoly hzero)
  rw [BitVec.zero_xor] at hword
  exact absurd (word_eq_zero hlen hword true hset) (by decide)

/-- Bits of which none is set are zeros. -/
theorem eq_replicate_of_clear {bits : List Bool} (hclear : ∀ j : Nat, bits[j]? ≠ some true) :
    bits = List.replicate bits.length false := by
  rw [List.eq_replicate_iff]
  refine ⟨rfl, fun b hb => ?_⟩
  obtain ⟨j, hj⟩ := List.getElem?_of_mem hb
  cases b with
  | false => rfl
  | true => exact absurd hj (hclear j)

/-- The same, for bits that are set in a window of the width of the register only. -/
theorem feed_window (hpoly : poly.getLsbD (w - 1) = true) {bits : List Bool} {start : Nat}
    (hset : true ∈ bits) (hwindow : ∀ j, bits[j]? = some true → start ≤ j ∧ j < start + w) :
    feed poly 0#w bits ≠ 0#w := by
  have hfront : bits.take start = List.replicate (bits.take start).length false := by
    refine eq_replicate_of_clear fun j hj => ?_
    rw [List.getElem?_take] at hj
    split at hj
    · have hin := hwindow j hj
      omega
    · cases hj
  have hback : (bits.drop start).drop w =
      List.replicate ((bits.drop start).drop w).length false := by
    refine eq_replicate_of_clear fun j hj => ?_
    rw [List.getElem?_drop, List.getElem?_drop] at hj
    have hin := hwindow _ hj
    omega
  have hsplit : bits =
      bits.take start ++ ((bits.drop start).take w ++ (bits.drop start).drop w) := by
    rw [List.take_append_drop, List.take_append_drop]
  rw [hsplit, hfront, hback]
  refine feed_burst poly hpoly _ _ (List.length_take_le _ _) ?_
  -- what is set is neither in front of the window nor behind it
  rw [hsplit, hfront, hback] at hset
  simpa [List.mem_replicate] using hset

end ShiftRegister
end Library
end Rc700
