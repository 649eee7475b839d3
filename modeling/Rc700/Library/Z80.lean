import Mathlib.Logic.Relation
import Rc700.Library.Buffer
import Rc700.Library.Word

/-!
# Some of the Z80

The instructions that sum bytes, compare, and call: enough for a checksum loop and a text that
is printed.  A program is placed in memory as the bytes of its instructions, and runs one
instruction at a time (`step_of_placed`).  Addresses wrap.

Of the flags there are zero and carry; no instruction here reads another one.
-/

namespace Rc700
namespace Library
namespace Z80

/-- The upper byte of a pair. -/
def high (w : Word) : Byte := w.extractLsb' 8 8

/-- The lower byte of a pair. -/
def low (w : Word) : Byte := w.extractLsb' 0 8

/-- A pair of two bytes. -/
def join (h l : Byte) : Word := h ++ l

structure Cpu where
  a : Byte
  zero : Bool
  carry : Bool
  bc : Word
  de : Word
  hl : Word
  sp : Word
  pc : Word
  mem : Word → Byte

inductive Instr
  | ldBC (n : Word)
  | ldDE (n : Word)
  | ldHL (n : Word)
  | ldAIndirect
  | addAE
  | ldEA
  | jrNC (e : Byte)
  | incD
  | incHL
  | decBC
  | ldAB
  | orC
  | jrNZ (e : Byte)
  | ldAE
  | ldAD
  | cp (n : Byte)
  | ldE (n : Byte)
  | ldC (n : Byte)
  | call (n : Word)
  | ret
  deriving DecidableEq, Repr

namespace Instr

/-- The bytes of an instruction. -/
def encode : Instr → List Byte
  | ldBC n => [0x01#8, low n, high n]
  | ldDE n => [0x11#8, low n, high n]
  | ldHL n => [0x21#8, low n, high n]
  | ldAIndirect => [0x7E#8]
  | addAE => [0x83#8]
  | ldEA => [0x5F#8]
  | jrNC e => [0x30#8, e]
  | incD => [0x14#8]
  | incHL => [0x23#8]
  | decBC => [0x0B#8]
  | ldAB => [0x78#8]
  | orC => [0xB1#8]
  | jrNZ e => [0x20#8, e]
  | ldAE => [0x7B#8]
  | ldAD => [0x7A#8]
  | cp n => [0xFE#8, n]
  | ldE n => [0x1E#8, n]
  | ldC n => [0x0E#8, n]
  | call n => [0xCD#8, low n, high n]
  | ret => [0xC9#8]

/-- The instruction of an opcode and the two bytes after it. -/
def decode (op b b' : Byte) : Option Instr :=
  match op.toNat with
  | 0x01 => some (ldBC (join b' b))
  | 0x11 => some (ldDE (join b' b))
  | 0x21 => some (ldHL (join b' b))
  | 0x7E => some ldAIndirect
  | 0x83 => some addAE
  | 0x5F => some ldEA
  | 0x30 => some (jrNC b)
  | 0x14 => some incD
  | 0x23 => some incHL
  | 0x0B => some decBC
  | 0x78 => some ldAB
  | 0xB1 => some orC
  | 0x20 => some (jrNZ b)
  | 0x7B => some ldAE
  | 0x7A => some ldAD
  | 0xFE => some (cp b)
  | 0x1E => some (ldE b)
  | 0x0E => some (ldC b)
  | 0xCD => some (call (join b' b))
  | 0xC9 => some ret
  | _ => none

/-- What an instruction does, with the program counter behind it. -/
def exec (c : Cpu) : Instr → Cpu
  | ldBC n => { c with bc := n }
  | ldDE n => { c with de := n }
  | ldHL n => { c with hl := n }
  | ldAIndirect => { c with a := c.mem c.hl }
  | addAE =>
      let sum := c.a + low c.de
      { c with a := sum, zero := sum = 0#8, carry := 256 ≤ c.a.toNat + (low c.de).toNat }
  | ldEA => { c with de := join (high c.de) c.a }
  | jrNC e => if c.carry then c else { c with pc := c.pc + e.signExtend 16 }
  | incD =>
      let d := high c.de + 1#8
      { c with de := join d (low c.de), zero := d = 0#8 }
  | incHL => { c with hl := c.hl + 1#16 }
  | decBC => { c with bc := c.bc - 1#16 }
  | ldAB => { c with a := high c.bc }
  | orC =>
      let value := c.a ||| low c.bc
      { c with a := value, zero := value = 0#8, carry := false }
  | jrNZ e => if c.zero then c else { c with pc := c.pc + e.signExtend 16 }
  | ldAE => { c with a := low c.de }
  | ldAD => { c with a := high c.de }
  | cp n => { c with zero := c.a = n, carry := c.a < n }
  | ldE n => { c with de := join (high c.de) n }
  | ldC n => { c with bc := join (high c.bc) n }
  | call n =>
      { c with
        mem := Function.update (Function.update c.mem (c.sp - 1#16) (high c.pc)) (c.sp - 2#16)
          (low c.pc)
        sp := c.sp - 2#16
        pc := n }
  | ret => { c with pc := join (c.mem (c.sp + 1#16)) (c.mem c.sp), sp := c.sp + 2#16 }

/-- The length of an instruction. -/
def length (i : Instr) : Nat := i.encode.length

end Instr

/-- One instruction; none, at an opcode that is not here. -/
def step (c : Cpu) : Option Cpu :=
  (Instr.decode (c.mem c.pc) (c.mem (c.pc + 1#16)) (c.mem (c.pc + 2#16))).map fun i =>
    i.exec { c with pc := c.pc + BitVec.ofNat 16 i.length }

/-! ### Pairs -/

theorem high_join (h l : Byte) : high (join h l) = h := by
  unfold high join
  exact BitVec.extractLsb'_append_eq_left

theorem low_join (h l : Byte) : low (join h l) = l := by
  unfold low join
  exact BitVec.extractLsb'_append_eq_right

theorem toNat_join (h l : Byte) : (join h l).toNat = 256 * h.toNat + l.toNat := by
  have hl : l.toNat < 256 := l.isLt
  unfold join
  rw [BitVec.toNat_append, shift_or_low _ hl]

theorem join_high_low (w : Word) : join (high w) (low w) = w := by
  have hhigh : (high w).toNat = w.toNat / 256 % 256 := by
    simp [high, BitVec.extractLsb'_toNat, Nat.shiftRight_eq_div_pow]
  have hlow : (low w).toNat = w.toNat % 256 := by simp [low, BitVec.extractLsb'_toNat]
  have hw : w.toNat < 65536 := w.isLt
  refine BitVec.eq_of_toNat_eq ?_
  rw [toNat_join, hhigh, hlow]
  omega

/-! ### Programs -/

/-- The first bytes of memory at an address. -/
theorem loadAt_three (mem : Word → Byte) (a : Word) :
    loadAt mem a 3 = [mem a, mem (a + 1#16), mem (a + 2#16)] := by
  simp [loadAt, BitVec.add_assoc]

theorem decode_encode {i : Instr} {op b b' : Byte} (h : i.encode <+: [op, b, b']) :
    Instr.decode op b b' = some i := by
  cases i <;> simp only [Instr.encode, List.cons_prefix_cons, List.nil_prefix, and_true] at h
  case ldBC n | ldDE n | ldHL n | call n =>
    obtain ⟨rfl, rfl, rfl⟩ := h
    show some _ = some _
    rw [join_high_low]
  case jrNC n | jrNZ n | cp n | ldE n | ldC n =>
    obtain ⟨rfl, rfl⟩ := h
    rfl
  all_goals
    subst h
    rfl

/-- The instructions of a program are in memory, one after another. -/
def Placed (mem : Word → Byte) : Word → List Instr → Prop
  | _, [] => True
  | a, i :: program =>
      loadAt mem a i.length = i.encode ∧ Placed mem (a + BitVec.ofNat 16 i.length) program

/-- The bytes of a program. -/
def assemble (program : List Instr) : List Byte := program.flatMap Instr.encode

/-- The address behind a program. -/
def behind (a : Word) (program : List Instr) : Word :=
  a + BitVec.ofNat 16 (assemble program).length

theorem assemble_cons (i : Instr) (program : List Instr) :
    assemble (i :: program) = i.encode ++ assemble program := rfl

theorem behind_cons (a : Word) (i : Instr) (program : List Instr) :
    behind a (i :: program) = behind (a + BitVec.ofNat 16 i.length) program := by
  rw [behind, behind, assemble_cons, List.length_append, BitVec.ofNat_add, BitVec.add_assoc]
  rfl

theorem placed_of_loadAt {mem : Word → Byte} {a : Word} {program : List Instr}
    (h : loadAt mem a (assemble program).length = assemble program) : Placed mem a program := by
  induction program generalizing a with
  | nil => trivial
  | cons i program ih =>
      rw [assemble_cons, List.length_append, loadAt_append] at h
      obtain ⟨hi, hrest⟩ := List.append_inj h (length_loadAt mem a _)
      exact ⟨hi, ih hrest⟩

theorem placed_append {mem : Word → Byte} {a : Word} {first second : List Instr} :
    Placed mem a (first ++ second) ↔
      Placed mem a first ∧ Placed mem (behind a first) second := by
  induction first generalizing a with
  | nil => simp [Placed, behind, assemble]
  | cons i first ih => rw [List.cons_append, Placed, Placed, ih, behind_cons, and_assoc]

theorem length_le_three (i : Instr) : i.length ≤ 3 := by
  cases i <;> exact Nat.le_of_ble_eq_true rfl

/-- No instruction of a program is at an address. -/
def Avoids (x : Word) : Word → List Instr → Prop
  | _, [] => True
  | a, i :: program => a ≠ x ∧ Avoids x (a + BitVec.ofNat 16 i.length) program

theorem length_pos (i : Instr) : 0 < i.length := by
  cases i <;> exact Nat.le_of_ble_eq_true rfl

theorem avoids_of_forall {x a : Word} {program : List Instr}
    (h : ∀ k < (assemble program).length, x ≠ a + BitVec.ofNat 16 k) : Avoids x a program := by
  induction program generalizing a with
  | nil => trivial
  | cons i program ih =>
      rw [assemble_cons, List.length_append] at h
      have hpos : 0 < i.encode.length := length_pos i
      refine ⟨?_, ih fun k hk => ?_⟩
      · have hfirst := h 0 (by omega)
        rw [BitVec.add_zero] at hfirst
        exact hfirst.symm
      · have hlater := h (i.encode.length + k) (by omega)
        rw [BitVec.ofNat_add, ← BitVec.add_assoc] at hlater
        exact hlater

theorem avoids_append {x a : Word} {first second : List Instr} :
    Avoids x a (first ++ second) ↔ Avoids x a first ∧ Avoids x (behind a first) second := by
  induction first generalizing a with
  | nil => simp [Avoids, behind, assemble]
  | cons i first ih => rw [List.cons_append, Avoids, Avoids, ih, behind_cons, and_assoc]

/-- An instruction that is at the program counter is what is done. -/
theorem step_of_placed {c : Cpu} {i : Instr} (h : loadAt c.mem c.pc i.length = i.encode) :
    step c = some (i.exec { c with pc := c.pc + BitVec.ofNat 16 i.length }) := by
  have hprefix : i.encode <+: [c.mem c.pc, c.mem (c.pc + 1#16), c.mem (c.pc + 2#16)] := by
    rw [← loadAt_three, ← h]
    obtain ⟨rest, hrest⟩ := Nat.exists_eq_add_of_le (length_le_three i)
    rw [hrest, loadAt_append]
    exact List.prefix_append _ _
  rw [step, decode_encode hprefix]
  rfl

end Z80
end Library
end Rc700
