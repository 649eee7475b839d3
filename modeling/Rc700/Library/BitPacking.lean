import Mathlib.Data.BitVec
import Mathlib.Data.List.GetD
import Mathlib.Tactic.Common

/-!
# Bits packed into words

A list of bits is packed into words of `w` bits, the first bit of a word on top, and the last
word filled up with zeros.  The bits are read back by their number (`bitAt_pack`), also where
only some of the words are left (`bitAt_take`).
-/

namespace Rc700
namespace Library

variable {w : Nat}

/-- The word of these bits, the first of them on top. -/
def packWord (w : Nat) (bit : Nat → Bool) : BitVec w :=
  (List.range w).foldl
    (fun word j => if bit j then word ||| BitVec.twoPow w (w - 1) >>> j else word) 0#w

/-- The words of a list of bits. -/
def pack (w : Nat) (bits : List Bool) : List (BitVec w) :=
  (List.range ((bits.length + w - 1) / w)).map fun i =>
    packWord w fun j => bits.getD (w * i + j) false

/-- A bit, by its number. -/
def bitAt (words : List (BitVec w)) (i : Nat) : Option Bool :=
  words[i / w]?.map fun word => word.getLsbD (w - 1 - i % w)

/-- After some of its bits. -/
theorem getLsbD_packed (bit : Nat → Bool) {i k : Nat} (hi : i < w) (hk : k ≤ w) :
    ((List.range k).foldl
      (fun word j => if bit j then word ||| BitVec.twoPow w (w - 1) >>> j else word)
      0#w).getLsbD (w - 1 - i) = (decide (i < k) && bit i) := by
  induction k with
  | zero => simp
  | succ k ih =>
      have htop : (BitVec.twoPow w (w - 1) >>> k).getLsbD (w - 1 - i) = decide (i = k) := by
        rw [BitVec.getLsbD_ushiftRight, BitVec.getLsbD_twoPow]
        by_cases heq : i = k
        · rw [decide_eq_true heq, Bool.and_eq_true, decide_eq_true_eq, decide_eq_true_eq]
          omega
        · rw [decide_eq_false heq, Bool.and_eq_false_iff, decide_eq_false_iff_not,
            decide_eq_false_iff_not]
          omega
      rw [List.range_succ, List.foldl_append, List.foldl_cons, List.foldl_nil]
      by_cases hbit : bit k = true
      · rw [if_pos hbit, BitVec.getLsbD_or, ih (by omega), htop]
        by_cases heq : i = k
        · rw [heq, hbit]
          simp
        · have hlt : i < k + 1 ↔ i < k := by omega
          simp [heq, hlt]
      · rw [if_neg hbit, ih (by omega)]
        by_cases heq : i = k
        · rw [heq, Bool.not_eq_true _ |>.mp hbit, Bool.and_false, Bool.and_false]
        · have hlt : i < k + 1 ↔ i < k := by omega
          simp only [hlt]

theorem getLsbD_packWord (bit : Nat → Bool) {i : Nat} (hi : i < w) :
    (packWord w bit).getLsbD (w - 1 - i) = bit i := by
  rw [packWord, getLsbD_packed bit hi (Nat.le_refl w), decide_eq_true hi, Bool.true_and]

theorem length_pack (bits : List Bool) : (pack w bits).length = (bits.length + w - 1) / w := by
  rw [pack, List.length_map, List.length_range]

/-- **What is packed is read back.** -/
theorem bitAt_pack (hw : 0 < w) {bits : List Bool} {i : Nat} (hi : i < bits.length) :
    bitAt (pack w bits) i = some (bits.getD i false) := by
  have hword : i / w < (bits.length + w - 1) / w := by
    rw [Nat.div_lt_iff_lt_mul hw]
    have hround : bits.length ≤ (bits.length + w - 1) / w * w := by
      have hdiv := Nat.div_add_mod (bits.length + w - 1) w
      have hmod := Nat.mod_lt (bits.length + w - 1) hw
      rw [Nat.mul_comm] at hdiv
      omega
    exact Nat.lt_of_lt_of_le hi hround
  rw [bitAt, pack, List.getElem?_map, List.getElem?_range hword, Option.map_some, Option.map_some,
    getLsbD_packWord _ (Nat.mod_lt i hw), Nat.div_add_mod]

/-- Some of the words have the first of the bits. -/
theorem bitAt_take (words : List (BitVec w)) (n i : Nat) :
    bitAt (words.take n) i = if i / w < n then bitAt words i else none := by
  unfold bitAt
  rw [List.getElem?_take]
  split
  · rfl
  · rfl

end Library
end Rc700
