import Mathlib.Data.BitVec
import Mathlib.Logic.Function.Basic
import Mathlib.Tactic.Common

/-!
# Buffers

A memory with addresses of `w` bits, which wrap.  `loadAt` reads a list from a buffer
and `storeAt` writes one, element by element upwards, as loops over a pointer do.
-/

namespace Rc700
namespace Library

variable {α : Type*} {w : Nat}

/-- The elements from an address on. -/
def loadAt (mem : BitVec w → α) (adr : BitVec w) : Nat → List α
  | 0 => []
  | n + 1 => mem adr :: loadAt mem (adr + 1) n

/-- Write elements from an address on. -/
def storeAt (mem : BitVec w → α) (adr : BitVec w) : List α → BitVec w → α
  | [] => mem
  | b :: bytes => storeAt (Function.update mem adr b) (adr + 1) bytes

theorem length_loadAt (mem : BitVec w → α) (adr : BitVec w) (n : Nat) :
    (loadAt mem adr n).length = n := by
  induction n generalizing adr with
  | zero => rfl
  | succ n ih => rw [loadAt, List.length_cons, ih]

/-- One address further. -/
theorem add_one_add_ofNat (adr : BitVec w) (i : Nat) :
    adr + 1 + BitVec.ofNat w i = adr + BitVec.ofNat w (i + 1) := by
  rw [BitVec.add_assoc, Nat.add_comm i 1, BitVec.ofNat_add]
  rfl

theorem getElem_loadAt (mem : BitVec w → α) (adr : BitVec w) {n i : Nat}
    (hi : i < (loadAt mem adr n).length) :
    (loadAt mem adr n)[i] = mem (adr + BitVec.ofNat w i) := by
  induction n generalizing adr i with
  | zero => exact absurd hi (Nat.not_lt_zero i)
  | succ n ih =>
      cases i with
      | zero =>
          rw [BitVec.add_zero]
          rfl
      | succ i =>
          rw [← add_one_add_ofNat]
          exact ih (adr + 1) (Nat.lt_of_succ_lt_succ hi)

/-- A buffer is read in two pieces. -/
theorem loadAt_append (mem : BitVec w → α) (adr : BitVec w) (n k : Nat) :
    loadAt mem adr (n + k) = loadAt mem adr n ++ loadAt mem (adr + BitVec.ofNat w n) k := by
  induction n generalizing adr with
  | zero =>
      rw [Nat.zero_add, BitVec.add_zero]
      rfl
  | succ n ih =>
      rw [Nat.succ_add, loadAt, ih, loadAt, List.cons_append, add_one_add_ofNat]

/-- Two memories that are the same in a buffer. -/
theorem loadAt_congr {mem mem' : BitVec w → α} {adr : BitVec w} {n : Nat}
    (hsame : ∀ i < n, mem (adr + BitVec.ofNat w i) = mem' (adr + BitVec.ofNat w i)) :
    loadAt mem adr n = loadAt mem' adr n := by
  apply List.ext_getElem
  · rw [length_loadAt, length_loadAt]
  · intro i hi hi'
    rw [length_loadAt] at hi
    rw [getElem_loadAt, getElem_loadAt, hsame i hi]

/-- What is written outside of a buffer is not read from it. -/
theorem loadAt_update_other (mem : BitVec w → α) {adr x : BitVec w} (v : α) {n : Nat}
    (hx : ∀ i < n, x ≠ adr + BitVec.ofNat w i) :
    loadAt (Function.update mem x v) adr n = loadAt mem adr n :=
  loadAt_congr fun i hi => Function.update_of_ne (hx i hi).symm _ _

/-- What is written into a buffer is read in its place. -/
theorem loadAt_update (mem : BitVec w → α) (adr : BitVec w) (v : α) {n i : Nat}
    (hn : n ≤ 2 ^ w) (hi : i < n) :
    loadAt (Function.update mem (adr + BitVec.ofNat w i) v) adr n = (loadAt mem adr n).set i v := by
  apply List.ext_getElem
  · rw [List.length_set, length_loadAt, length_loadAt]
  · intro j hj hj'
    rw [length_loadAt] at hj
    rw [getElem_loadAt, List.getElem_set, getElem_loadAt]
    by_cases hij : i = j
    · rw [if_pos hij, hij, Function.update_self]
    · have hne : adr + BitVec.ofNat w j ≠ adr + BitVec.ofNat w i := by
        intro heq
        have hnat := congrArg BitVec.toNat ((BitVec.add_right_inj _).mp heq)
        rw [BitVec.toNat_ofNat, BitVec.toNat_ofNat, Nat.mod_eq_of_lt (by omega),
          Nat.mod_eq_of_lt (by omega)] at hnat
        exact hij hnat.symm
      rw [if_neg hij, Function.update_of_ne hne]

theorem storeAt_append (mem : BitVec w → α) (adr : BitVec w) (front back : List α) :
    storeAt mem adr (front ++ back) =
      storeAt (storeAt mem adr front) (adr + BitVec.ofNat w front.length) back := by
  induction front generalizing mem adr with
  | nil =>
      rw [List.nil_append, storeAt, List.length_nil, BitVec.add_zero]
  | cons b front ih =>
      rw [List.cons_append, storeAt, ih, storeAt, List.length_cons, add_one_add_ofNat]

/-- Addresses outside of the buffer keep what they have. -/
theorem storeAt_other (mem : BitVec w → α) (adr : BitVec w) {bytes : List α} {x : BitVec w}
    (hx : ∀ i < bytes.length, x ≠ adr + BitVec.ofNat w i) : storeAt mem adr bytes x = mem x := by
  induction bytes generalizing mem adr with
  | nil => rfl
  | cons b bytes ih =>
      have hfirst : x ≠ adr := by
        have hzero := hx 0 (Nat.zero_lt_succ _)
        rw [BitVec.add_zero] at hzero
        exact hzero
      rw [storeAt, ih, Function.update_of_ne hfirst]
      intro i hi
      rw [add_one_add_ofNat]
      exact hx (i + 1) (Nat.succ_lt_succ hi)

/-- **What is written** is there, if the buffer does not reach around the memory. -/
theorem storeAt_self (mem : BitVec w → α) (adr : BitVec w) {bytes : List α} {i : Nat}
    (hlen : bytes.length ≤ 2 ^ w) (hi : i < bytes.length) :
    storeAt mem adr bytes (adr + BitVec.ofNat w i) = bytes[i] := by
  induction bytes generalizing mem adr i with
  | nil => exact absurd hi (Nat.not_lt_zero i)
  | cons b bytes ih =>
      rw [List.length_cons] at hlen hi
      cases i with
      | zero =>
          rw [storeAt, BitVec.add_zero, storeAt_other, Function.update_self]
          · rfl
          · intro j hj heq
            rw [add_one_add_ofNat] at heq
            have hzero : BitVec.ofNat w (j + 1) = 0#w := BitVec.add_right_eq_self.mp heq.symm
            have hnat := congrArg BitVec.toNat hzero
            rw [BitVec.toNat_ofNat, BitVec.toNat_zero, Nat.mod_eq_of_lt (by omega)] at hnat
            omega
      | succ i =>
          rw [storeAt, ← add_one_add_ofNat, ih _ _ (by omega) (by omega)]
          rfl

/-- A buffer holds what is written to it. -/
theorem loadAt_storeAt (mem : BitVec w → α) (adr : BitVec w) {bytes : List α}
    (hlen : bytes.length ≤ 2 ^ w) : loadAt (storeAt mem adr bytes) adr bytes.length = bytes := by
  apply List.ext_getElem
  · exact length_loadAt _ _ _
  · intro i hi hi'
    rw [getElem_loadAt, storeAt_self _ _ hlen hi']

/-- A part of what is written is read back. -/
theorem loadAt_storeAt_part (mem : BitVec w → α) (adr : BitVec w) {bytes : List α} {k n : Nat}
    (hlen : bytes.length ≤ 2 ^ w) (hpart : k + n ≤ bytes.length) :
    loadAt (storeAt mem adr bytes) (adr + BitVec.ofNat w k) n = (bytes.drop k).take n := by
  apply List.ext_getElem
  · rw [length_loadAt, List.length_take, List.length_drop]
    omega
  · intro i hi hi'
    rw [length_loadAt] at hi
    rw [getElem_loadAt, BitVec.add_assoc, ← BitVec.ofNat_add, storeAt_self _ _ hlen (by omega),
      List.getElem_take, List.getElem_drop]

end Library
end Rc700
