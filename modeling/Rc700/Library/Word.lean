import Mathlib.Data.BitVec

/-!
# Machine words

Names for the two widths of an 8-bit machine with a 16-bit address space, and how numbers are
taken apart into bytes and put together.
-/

namespace Rc700

/-- An 8-bit byte. -/
abbrev Byte := BitVec 8

/-- A 16-bit word: an address or a register pair. -/
abbrev Word := BitVec 16

theorem and_low (n : Nat) : n &&& 0xFF = n % 256 := Nat.and_two_pow_sub_one_eq_mod n 8

/-- A low byte is put behind a number. -/
theorem shift_or_low (n : Nat) {low : Nat} (hlow : low < 256) :
    n <<< 8 ||| low = 256 * n + low := by
  have hbits : low < 2 ^ 8 := hlow
  rw [← Nat.shiftLeft_add_eq_or_of_lt hbits, Nat.shiftLeft_eq, Nat.mul_comm]

end Rc700
