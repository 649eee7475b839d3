import Rc700.Library.Z80

/-!
# The install validator

The Z80 code that `build_validator` of `mk_sysgen_hex.py` emits, as the instructions it is,
and what it does when it is run: it sums the bytes of the regions, prints whether the sum is
the expected one, and returns (`validator_prints`).

The operating system is entered at 0x0005.  What the code needs of it is that function 2 prints
a character and returns, and keeps the memory that is not its own.
-/

namespace Rc700
namespace Install

open Library Library.Z80

/-! ### The generator -/

/-- `build_checksum16_loop` -/
def buildChecksum16Loop : List Byte :=
  [0x7E#8, 0x83#8, 0x5F#8, 0x30#8, 0x01#8, 0x14#8, 0x23#8, 0x0B#8, 0x78#8, 0xB1#8, 0x20#8, 0xF4#8]

/-- `n & 0xFF` -/
def lowByte (n : Nat) : Byte := BitVec.ofNat 8 (n &&& 0xFF)

/-- `(n >> 8) & 0xFF` -/
def highByte (n : Nat) : Byte := BitVec.ofNat 8 (n >>> 8 &&& 0xFF)

/-- The code that prints a text. -/
def emitText (code : List Byte) (text : List Char) : List Byte :=
  text.foldl
    (fun code ch =>
      code ++ [0x1E#8, BitVec.ofNat 8 ch.toNat, 0x0E#8, 0x02#8, 0xCD#8, 0x05#8, 0x00#8])
    code

/-- The code for one region. -/
def emitRegion (code : List Byte) (region : Nat × Nat) : List Byte :=
  code ++ [0x21#8, lowByte region.1, highByte region.1] ++
    [0x01#8, lowByte region.2, highByte region.2] ++ buildChecksum16Loop

def okText : List Char := "OK\r\n$".toList

def failText : List Char := "FAIL\r\n$".toList

/-- `build_validator` -/
def buildValidator (expectedSum : Nat) (regions : List (Nat × Nat)) : List Byte :=
  let code := [0x11#8, 0x00#8, 0x00#8]
  let code := regions.foldl emitRegion code
  let code := code ++ [0x7B#8, 0xFE#8, lowByte expectedSum]
  let code := code ++ [0x20#8, 0x00#8]
  let failJr1Pos := code.length - 1
  let code := code ++ [0x7A#8, 0xFE#8, highByte expectedSum]
  let code := code ++ [0x20#8, 0x00#8]
  let failJr2Pos := code.length - 1
  let code := emitText code okText
  let code := code ++ [0xC9#8]
  let failStart := code.length
  let code := code.set failJr1Pos (lowByte (failStart - (failJr1Pos + 1)))
  let code := code.set failJr2Pos (lowByte (failStart - (failJr2Pos + 1)))
  let code := emitText code failText
  code ++ [0xC9#8]

/-! ### The listing -/

/-- A byte is added. -/
def addByte : List Instr := [.ldAIndirect, .addAE, .ldEA, .jrNC 1#8, .incD]

/-- The next byte, as long as there is one. -/
def countByte : List Instr := [.incHL, .decBC, .ldAB, .orC, .jrNZ 0xF4#8]

/-- The loop of the sum. -/
def sumLoop : List Instr := addByte ++ countByte

def sumRegion (region : Nat × Nat) : List Instr :=
  .ldHL (BitVec.ofNat 16 region.1) :: .ldBC (BitVec.ofNat 16 region.2) :: sumLoop

/-- The comparison, with the jumps to the text of the failure. -/
def compareSum (expectedSum : Nat) : List Instr :=
  [.ldAE, .cp (lowByte expectedSum), .jrNZ 0x29#8, .ldAD, .cp (highByte expectedSum), .jrNZ 0x24#8]

def printChar (ch : Char) : List Instr :=
  [.ldE (BitVec.ofNat 8 ch.toNat), .ldC 0x02#8, .call 0x0005#16]

def printText (text : List Char) : List Instr := text.flatMap printChar ++ [.ret]

def listing (expectedSum : Nat) (regions : List (Nat × Nat)) : List Instr :=
  [.ldDE 0#16] ++ regions.flatMap sumRegion ++ compareSum expectedSum ++ printText okText ++
    printText failText

theorem low_ofNat (n : Nat) : low (BitVec.ofNat 16 n) = lowByte n := by
  refine BitVec.eq_of_toNat_eq ?_
  simp only [low, lowByte, BitVec.extractLsb'_toNat, BitVec.toNat_ofNat, and_low,
    Nat.shiftRight_zero]
  omega

theorem high_ofNat (n : Nat) : high (BitVec.ofNat 16 n) = highByte n := by
  refine BitVec.eq_of_toNat_eq ?_
  have hmask : n >>> 8 &&& 0xFF = n / 256 % 256 := by
    rw [Nat.shiftRight_eq_div_pow]
    exact and_low _
  rw [highByte, hmask]
  simp only [high, BitVec.extractLsb'_toNat, BitVec.toNat_ofNat, Nat.shiftRight_eq_div_pow]
  omega

theorem emitText_eq (code : List Byte) (text : List Char) :
    emitText code text = code ++ assemble (text.flatMap printChar) := by
  induction text generalizing code with
  | nil => simp [emitText, assemble]
  | cons ch text ih =>
      show emitText (code ++ _) text = _
      rw [ih, List.append_assoc]
      rfl

theorem assemble_append (first second : List Instr) :
    assemble (first ++ second) = assemble first ++ assemble second := List.flatMap_append

theorem emitRegions_eq (code : List Byte) (regions : List (Nat × Nat)) :
    regions.foldl emitRegion code = code ++ assemble (regions.flatMap sumRegion) := by
  induction regions generalizing code with
  | nil => simp [assemble]
  | cons region regions ih =>
      rw [List.foldl_cons, ih, List.flatMap_cons, assemble_append, ← List.append_assoc, emitRegion]
      simp only [← low_ofNat, ← high_ofNat, List.append_assoc]
      rfl

/-- Two bytes are patched. -/
theorem set_two {α : Type} (front middle rest : List α) (x y x' y' : α) :
    ((front ++ x :: (middle ++ y :: rest)).set front.length x').set
      (front.length + (middle.length + 1)) y' = front ++ x' :: (middle ++ y' :: rest) := by
  simp [List.set_append_right]

/-- The code is that of the listing: the jumps are patched to the text of the failure. -/
theorem buildValidator_eq (expectedSum : Nat) (regions : List (Nat × Nat)) :
    buildValidator expectedSum regions = assemble (listing expectedSum regions) := by
  have hok : (assemble (okText.flatMap printChar)).length = 35 := by decide
  have hlisting : assemble (listing expectedSum regions) =
      (([0x11#8, 0x00#8, 0x00#8] ++ assemble (regions.flatMap sumRegion) ++
          [0x7B#8, 0xFE#8, lowByte expectedSum, 0x20#8]) ++ 0x29#8 ::
        ([0x7A#8, 0xFE#8, highByte expectedSum, 0x20#8] ++ 0x24#8 ::
          (assemble (okText.flatMap printChar) ++ [0xC9#8]))) ++
        (assemble (failText.flatMap printChar) ++ [0xC9#8]) := by
    simp only [listing, printText, assemble_append]
    simp [assemble, compareSum, Instr.encode]
    decide
  rw [hlisting, ← set_two _ _ _ 0x00#8 0x00#8]
  simp only [buildValidator, emitText_eq, emitRegions_eq, List.append_assoc]
  generalize assemble (regions.flatMap sumRegion) = sums
  simp only [List.length_append, List.length_cons, List.length_nil, hok, Nat.zero_add,
    Nat.reduceAdd]
  have hpos₁ : 3 + (sums.length + 5) - 1 = 3 + (sums.length + 4) := by omega
  have hpos₂ : 3 + (sums.length + 10) - 1 = 3 + (sums.length + 4) + 5 := by omega
  have hjump₁ : 3 + (sums.length + 46) - (3 + (sums.length + 4) + 1) = 41 := by omega
  have hjump₂ : 3 + (sums.length + 46) - (3 + (sums.length + 4) + 5 + 1) = 36 := by omega
  have hbyte₁ : lowByte 41 = 0x29#8 := by decide
  have hbyte₂ : lowByte 36 = 0x24#8 := by decide
  rw [hpos₁, hpos₂, hjump₁, hjump₂, hbyte₁, hbyte₂]
  rfl

/-- The length of the code. -/
theorem length_buildValidator (expectedSum : Nat) (regions : List (Nat × Nat)) :
    (buildValidator expectedSum regions).length = 99 + 18 * regions.length := by
  have hok : (assemble (printText okText)).length = 36 := by decide
  have hfail : (assemble (printText failText)).length = 50 := by decide
  have hregions : (assemble (regions.flatMap sumRegion)).length = 18 * regions.length := by
    induction regions with
    | nil => rfl
    | cons region regions ih =>
        rw [List.flatMap_cons, assemble_append, List.length_append, ih, List.length_cons]
        show 18 + _ = _
        omega
  have hcompare : (assemble (compareSum expectedSum)).length = 10 := rfl
  have hclear : (assemble [.ldDE 0#16]).length = 3 := rfl
  rw [buildValidator_eq, listing]
  simp only [assemble_append, List.length_append, hok, hfail, hregions, hcompare, hclear]
  omega

/-! ### The machine and the operating system -/

/-- The machine and what was printed on its console. -/
structure System where
  cpu : Cpu
  console : List Byte

/-- Where the operating system is entered. -/
def entry : Word := 0x0005#16

/-- The operating system: what a call does, and the memory that is its own. -/
structure Bdos where
  call : System → System
  own : Word → Prop

/-- Function 2 prints the character in E, returns, and keeps the memory of others. -/
structure Bdos.Prints (bdos : Bdos) : Prop where
  console : ∀ s, s.cpu.pc = entry → low s.cpu.bc = 0x02#8 →
    (bdos.call s).console = s.console ++ [low s.cpu.de]
  returns : ∀ s, s.cpu.pc = entry → low s.cpu.bc = 0x02#8 →
    (bdos.call s).cpu.pc = join (s.cpu.mem (s.cpu.sp + 1#16)) (s.cpu.mem s.cpu.sp)
  stack : ∀ s, s.cpu.pc = entry → low s.cpu.bc = 0x02#8 →
    (bdos.call s).cpu.sp = s.cpu.sp + 2#16
  memory : ∀ s, s.cpu.pc = entry → low s.cpu.bc = 0x02#8 → ∀ x, ¬ bdos.own x →
    (bdos.call s).cpu.mem x = s.cpu.mem x

/-- One instruction, or one call of the operating system. -/
def System.step (bdos : Bdos) (s : System) : Option System :=
  if s.cpu.pc = entry then some (bdos.call s)
  else (Z80.step s.cpu).map fun cpu => { s with cpu := cpu }

/-- The states a run comes to. -/
def Reaches (bdos : Bdos) : System → System → Prop :=
  Relation.ReflTransGen fun s s' => s.step bdos = some s'

variable {bdos : Bdos} {s s' : System}

/-- One instruction of a program. -/
theorem Reaches.instr {i : Instr} (hpc : s.cpu.pc ≠ entry)
    (hplaced : loadAt s.cpu.mem s.cpu.pc i.length = i.encode)
    (hrest : Reaches bdos
      { s with cpu := i.exec { s.cpu with pc := s.cpu.pc + BitVec.ofNat 16 i.length } } s') :
    Reaches bdos s s' := by
  refine Relation.ReflTransGen.head ?_ hrest
  rw [System.step, if_neg hpc, step_of_placed hplaced]
  rfl

/-! ### The sum -/

/-- A byte is added to the sum, with the carry into the upper byte. -/
theorem add_byte (de : Word) (b : Byte) :
    join (if 256 ≤ b.toNat + (low de).toNat then high de + 1#8 else high de) (b + low de) =
      de + b.setWidth 16 := by
  have hde : de.toNat = 256 * (high de).toNat + (low de).toNat := by
    rw [← toNat_join, join_high_low]
  have hhigh := (high de).isLt
  have hlow := (low de).isLt
  have hb := b.isLt
  refine BitVec.eq_of_toNat_eq ?_
  rw [toNat_join, BitVec.toNat_add, BitVec.toNat_add, BitVec.toNat_setWidth, hde]
  split
  · rw [BitVec.toNat_add]
    simp only [BitVec.toNat_ofNat]
    omega
  · omega

/-- The counter is zero where both its bytes are. -/
theorem or_eq_zero (bc : Word) : high bc ||| low bc = 0#8 ↔ bc = 0#16 := by
  rw [BitVec.or_eq_zero_iff]
  constructor
  · rintro ⟨hhigh, hlow⟩
    rw [← join_high_low bc, hhigh, hlow]
    rfl
  · rintro rfl
    exact ⟨rfl, rfl⟩

variable (bdos) (console : List Byte) {c : Cpu}

theorem reaches_addByte (hplaced : Placed c.mem c.pc addByte)
    (havoids : Avoids entry c.pc addByte) :
    ∃ a zero carry, Reaches bdos ⟨c, console⟩
      ⟨{ c with
          a := a
          zero := zero
          carry := carry
          de := c.de + (c.mem c.hl).setWidth 16
          pc := behind c.pc addByte }, console⟩ := by
  obtain ⟨h₁, h₂, h₃, h₄, h₅, -⟩ := hplaced
  obtain ⟨g₁, g₂, g₃, g₄, g₅, -⟩ := havoids
  have hsum := add_byte c.de (c.mem c.hl)
  have hbehind : behind c.pc addByte = c.pc + 1#16 + 1#16 + 1#16 + 2#16 + 1#16 := by
    simp only [BitVec.add_assoc]
    rfl
  let added : Cpu :=
    { c with
      a := c.mem c.hl + low c.de
      zero := c.mem c.hl + low c.de = 0#8
      carry := 256 ≤ (c.mem c.hl).toNat + (low c.de).toNat
      de := join (high c.de) (c.mem c.hl + low c.de)
      pc := c.pc + 1#16 + 1#16 + 1#16 + 2#16 }
  have hadded : Reaches bdos ⟨c, console⟩ ⟨(Instr.jrNC 1#8).exec added, console⟩ :=
    Reaches.instr g₁ h₁ (Reaches.instr g₂ h₂ (Reaches.instr g₃ h₃ (Reaches.instr g₄ h₄ .refl)))
  by_cases hcarry : 256 ≤ (c.mem c.hl).toNat + (low c.de).toNat
  · -- the carry goes into D
    have hjump : (Instr.jrNC 1#8).exec added = added := if_pos (decide_eq_true hcarry)
    let incremented : Cpu := Instr.incD.exec { added with pc := added.pc + 1#16 }
    have hinc : Reaches bdos ⟨added, console⟩ ⟨incremented, console⟩ :=
      Reaches.instr g₅ h₅ .refl
    rw [hjump] at hadded
    rw [if_pos hcarry] at hsum
    refine ⟨incremented.a, incremented.zero, incremented.carry, (hadded.trans hinc).trans ?_⟩
    have hde : join (high added.de + 1#8) (low added.de) = c.de + (c.mem c.hl).setWidth 16 := by
      show join (high (join _ _) + 1#8) (low (join _ _)) = _
      rw [high_join, low_join, hsum]
    rw [← hde, hbehind]
    exact .refl
  · -- the increment is jumped over
    have hjump : (Instr.jrNC 1#8).exec added = { added with pc := added.pc + 1#16 } :=
      if_neg (by rw [decide_eq_true_iff]; exact hcarry)
    rw [hjump] at hadded
    rw [if_neg hcarry] at hsum
    refine ⟨added.a, added.zero, added.carry, hadded.trans ?_⟩
    rw [← hsum, hbehind]

theorem reaches_countByte (hplaced : Placed c.mem c.pc countByte)
    (havoids : Avoids entry c.pc countByte) :
    ∃ a zero carry, Reaches bdos ⟨c, console⟩
      ⟨{ c with
          a := a
          zero := zero
          carry := carry
          hl := c.hl + 1#16
          bc := c.bc - 1#16
          pc := if c.bc - 1#16 = 0#16 then behind c.pc countByte
            else behind c.pc countByte + (0xF4#8).signExtend 16 }, console⟩ := by
  obtain ⟨h₁, h₂, h₃, h₄, h₅, -⟩ := hplaced
  obtain ⟨g₁, g₂, g₃, g₄, g₅, -⟩ := havoids
  have hbehind : behind c.pc countByte = c.pc + 1#16 + 1#16 + 1#16 + 1#16 + 2#16 := by
    simp only [BitVec.add_assoc]
    rfl
  let counted : Cpu :=
    { c with
      a := high (c.bc - 1#16) ||| low (c.bc - 1#16)
      zero := high (c.bc - 1#16) ||| low (c.bc - 1#16) = 0#8
      carry := false
      hl := c.hl + 1#16
      bc := c.bc - 1#16
      pc := c.pc + 1#16 + 1#16 + 1#16 + 1#16 + 2#16 }
  have hcounted : Reaches bdos ⟨c, console⟩ ⟨(Instr.jrNZ 0xF4#8).exec counted, console⟩ :=
    Reaches.instr g₁ h₁ (Reaches.instr g₂ h₂ (Reaches.instr g₃ h₃ (Reaches.instr g₄ h₄
      (Reaches.instr g₅ h₅ .refl))))
  refine ⟨counted.a, counted.zero, counted.carry, hcounted.trans ?_⟩
  rw [hbehind]
  by_cases hzero : c.bc - 1#16 = 0#16
  · have hjump : (Instr.jrNZ 0xF4#8).exec counted = counted :=
      if_pos (decide_eq_true ((or_eq_zero _).mpr hzero))
    rw [hjump, if_pos hzero]
  · have hjump : (Instr.jrNZ 0xF4#8).exec counted =
        { counted with pc := counted.pc + (0xF4#8).signExtend 16 } :=
      if_neg (by rw [decide_eq_true_iff]; exact fun h => hzero ((or_eq_zero _).mp h))
    rw [hjump, if_neg hzero]

/-- One pass of the loop. -/
theorem reaches_pass (hplaced : Placed c.mem c.pc sumLoop) (havoids : Avoids entry c.pc sumLoop) :
    ∃ a zero carry, Reaches bdos ⟨c, console⟩
      ⟨{ c with
          a := a
          zero := zero
          carry := carry
          de := c.de + (c.mem c.hl).setWidth 16
          hl := c.hl + 1#16
          bc := c.bc - 1#16
          pc := if c.bc - 1#16 = 0#16 then behind c.pc sumLoop else c.pc }, console⟩ := by
  obtain ⟨hadd, hcount⟩ := placed_append.mp hplaced
  obtain ⟨gadd, gcount⟩ := avoids_append.mp havoids
  have hback : behind (behind c.pc addByte) countByte + (0xF4#8).signExtend 16 = c.pc := by
    show c.pc + 6#16 + 6#16 + 0xFFF4#16 = c.pc
    rw [BitVec.add_assoc, BitVec.add_assoc]
    exact BitVec.add_zero _
  have hbehind : behind (behind c.pc addByte) countByte = behind c.pc sumLoop := by
    show c.pc + 6#16 + 6#16 = c.pc + 12#16
    rw [BitVec.add_assoc]
    rfl
  obtain ⟨a₁, zero₁, carry₁, hfirst⟩ := reaches_addByte bdos console hadd gadd
  obtain ⟨a₂, zero₂, carry₂, hsecond⟩ := @reaches_countByte bdos console
    { c with
      a := a₁
      zero := zero₁
      carry := carry₁
      de := c.de + (c.mem c.hl).setWidth 16
      pc := behind c.pc addByte } hcount gcount
  rw [hback, hbehind] at hsecond
  exact ⟨a₂, zero₂, carry₂, hfirst.trans hsecond⟩

/-- The sum of the bytes of a region. -/
def regionSum (mem : Word → Byte) (region : Nat × Nat) : Nat :=
  ((loadAt mem (BitVec.ofNat 16 region.1) region.2).map BitVec.toNat).sum

/-- The sum of the bytes of all regions. -/
def regionsSum (mem : Word → Byte) (regions : List (Nat × Nat)) : Nat :=
  (regions.map (regionSum mem)).sum

/-- **The loop**: the sum of all the bytes, for a counter that is not zero. -/
theorem reaches_loop {n : Nat} (hpos : 0 < n) (hn : n < 65536) (hbc : c.bc = BitVec.ofNat 16 n)
    (hplaced : Placed c.mem c.pc sumLoop) (havoids : Avoids entry c.pc sumLoop) :
    ∃ c' : Cpu, Reaches bdos ⟨c, console⟩ ⟨c', console⟩ ∧ c'.mem = c.mem ∧ c'.sp = c.sp ∧
      c'.de = c.de + BitVec.ofNat 16 (((loadAt c.mem c.hl n).map BitVec.toNat).sum) ∧
      c'.pc = behind c.pc sumLoop := by
  -- by induction on BC; one pass of the loop and the rest from there
  induction n generalizing c with
  | zero => exact absurd hpos (Nat.lt_irrefl 0)
  | succ n ih =>
      obtain ⟨a, zero, carry, hpass⟩ := reaches_pass bdos console hplaced havoids
      have hcount : c.bc - 1#16 = BitVec.ofNat 16 n := by
        rw [hbc, BitVec.ofNat_add]
        exact BitVec.add_sub_cancel _ _
      have hbyte : (c.mem c.hl).setWidth 16 = BitVec.ofNat 16 (c.mem c.hl).toNat := by
        rw [BitVec.ofNat_toNat]
      have hload : ((loadAt c.mem c.hl (n + 1)).map BitVec.toNat).sum =
          (c.mem c.hl).toNat + ((loadAt c.mem (c.hl + 1#16) n).map BitVec.toNat).sum := rfl
      -- DEC BC has come to zero, and the loop is left
      rcases Nat.eq_zero_or_pos n with rfl | hmore
      · rw [if_pos hcount] at hpass
        refine ⟨_, hpass, rfl, rfl, ?_, rfl⟩
        rw [hload, hbyte]
        rfl
      · have hne : BitVec.ofNat 16 n ≠ 0#16 := by
          intro h
          have := congrArg BitVec.toNat h
          simp only [BitVec.toNat_ofNat] at this
          omega
        rw [hcount, if_neg hne] at hpass
        let next : Cpu :=
          { c with
            a := a
            zero := zero
            carry := carry
            de := c.de + (c.mem c.hl).setWidth 16
            hl := c.hl + 1#16
            bc := BitVec.ofNat 16 n }
        obtain ⟨c', hrest, hmem, hsp, hde, hpc⟩ :=
          ih (c := next) hmore (by omega) rfl hplaced havoids
        refine ⟨c', hpass.trans hrest, hmem, hsp, ?_, hpc⟩
        have hnext : c'.de = c.de + (c.mem c.hl).setWidth 16 +
            BitVec.ofNat 16 ((loadAt c.mem (c.hl + 1#16) n).map BitVec.toNat).sum := hde
        rw [hnext, hload, hbyte, BitVec.ofNat_add, BitVec.add_assoc]

/-- The regions that the generator is made for. -/
def Regions (regions : List (Nat × Nat)) : Prop :=
  ∀ region ∈ regions, 1 ≤ region.2 ∧ region.2 ≤ 65535

theorem reaches_region {region : Nat × Nat} (hregion : 1 ≤ region.2 ∧ region.2 ≤ 65535)
    (hplaced : Placed c.mem c.pc (sumRegion region))
    (havoids : Avoids entry c.pc (sumRegion region)) :
    ∃ c' : Cpu, Reaches bdos ⟨c, console⟩ ⟨c', console⟩ ∧ c'.mem = c.mem ∧ c'.sp = c.sp ∧
      c'.de = c.de + BitVec.ofNat 16 (regionSum c.mem region) ∧
      c'.pc = behind c.pc (sumRegion region) := by
  obtain ⟨h₁, h₂, hloop⟩ := hplaced
  obtain ⟨g₁, g₂, gloop⟩ := havoids
  let started : Cpu :=
    { c with
      hl := BitVec.ofNat 16 region.1
      bc := BitVec.ofNat 16 region.2
      pc := c.pc + 3#16 + 3#16 }
  have hstarted : Reaches bdos ⟨c, console⟩ ⟨started, console⟩ :=
    Reaches.instr g₁ h₁ (Reaches.instr g₂ h₂ .refl)
  obtain ⟨c', hrun, hmem, hsp, hde, hpc⟩ :=
    @reaches_loop bdos console started region.2 (by omega) (by omega) rfl hloop gloop
  refine ⟨c', hstarted.trans hrun, hmem, hsp, hde, ?_⟩
  rw [hpc, sumRegion, behind_cons, behind_cons]
  rfl

theorem reaches_regions {regions : List (Nat × Nat)} (hregions : Regions regions)
    (hplaced : Placed c.mem c.pc (regions.flatMap sumRegion))
    (havoids : Avoids entry c.pc (regions.flatMap sumRegion)) :
    ∃ c' : Cpu, Reaches bdos ⟨c, console⟩ ⟨c', console⟩ ∧ c'.mem = c.mem ∧ c'.sp = c.sp ∧
      c'.de = c.de + BitVec.ofNat 16 (regionsSum c.mem regions) ∧
      c'.pc = behind c.pc (regions.flatMap sumRegion) := by
  induction regions generalizing c with
  | nil =>
      refine ⟨c, .refl, rfl, rfl, ?_, ?_⟩
      · exact (BitVec.add_zero _).symm
      · exact (BitVec.add_zero _).symm
  | cons region regions ih =>
      rw [List.flatMap_cons] at hplaced havoids ⊢
      obtain ⟨hfirst, hrest⟩ := placed_append.mp hplaced
      obtain ⟨gfirst, grest⟩ := avoids_append.mp havoids
      obtain ⟨c₁, hrun₁, hmem₁, hsp₁, hde₁, hpc₁⟩ :=
        reaches_region bdos console (hregions region (by simp)) hfirst gfirst
      rw [← hmem₁, ← hpc₁] at hrest
      rw [← hpc₁] at grest
      obtain ⟨c₂, hrun₂, hmem₂, hsp₂, hde₂, hpc₂⟩ :=
        ih (fun next hnext => hregions next (List.mem_cons_of_mem region hnext)) hrest grest
      refine ⟨c₂, hrun₁.trans hrun₂, hmem₂.trans hmem₁, hsp₂.trans hsp₁, ?_, ?_⟩
      · rw [hde₂, hde₁, hmem₁, BitVec.add_assoc, ← BitVec.ofNat_add]
        rfl
      · rw [hpc₂, hpc₁, behind, behind, behind, assemble_append, List.length_append,
          BitVec.ofNat_add, BitVec.add_assoc]

/-! ### The text -/

variable {bdos} {program before after : List Instr} {org sp ret : Word}

/-- The program is apart from where the operating system is entered, from what a call pushes, and
from the memory of the operating system, which does not hold the return address either. -/
structure Apart (bdos : Bdos) (code : List Byte) (org sp : Word) : Prop where
  entered : ∀ k < code.length, entry ≠ org + BitVec.ofNat 16 k
  pushed : ∀ k < code.length,
    sp - 1#16 ≠ org + BitVec.ofNat 16 k ∧ sp - 2#16 ≠ org + BitVec.ofNat 16 k
  own : ∀ k < code.length, ¬ bdos.own (org + BitVec.ofNat 16 k)
  back : ¬ bdos.own sp ∧ ¬ bdos.own (sp + 1#16)

/-- The program is in memory, and the return address is on the stack. -/
structure Kept (code : List Byte) (org sp ret : Word) (s : System) : Prop where
  loaded : loadAt s.cpu.mem org code.length = code
  stack : s.cpu.sp = sp
  back : join (s.cpu.mem (sp + 1#16)) (s.cpu.mem sp) = ret

theorem Kept.placed (hkept : Kept (assemble program) org sp ret s) : Placed s.cpu.mem org program :=
  placed_of_loadAt hkept.loaded

theorem loadAt_congr {mem mem' : Word → Byte} {a : Word} {n : Nat}
    (h : ∀ k < n, mem' (a + BitVec.ofNat 16 k) = mem (a + BitVec.ofNat 16 k)) :
    loadAt mem' a n = loadAt mem a n := by
  refine List.ext_getElem (by rw [length_loadAt, length_loadAt]) fun k hk hk' => ?_
  rw [length_loadAt] at hk
  rw [getElem_loadAt, getElem_loadAt, h k hk]

theorem behind_append (a : Word) (first second : List Instr) :
    behind a (first ++ second) = behind (behind a first) second := by
  rw [behind, behind, behind, assemble_append, List.length_append, BitVec.ofNat_add,
    BitVec.add_assoc]

/-- What is printed for a character. -/
theorem reaches_printChar (hprints : bdos.Prints) (ch : Char)
    (hprogram : program = before ++ printChar ch ++ after)
    (hapart : Apart bdos (assemble program) org sp)
    (hkept : Kept (assemble program) org sp ret s) (hpc : s.cpu.pc = behind org before) :
    ∃ s', Reaches bdos s s' ∧ Kept (assemble program) org sp ret s' ∧
      s'.cpu.pc = behind org (before ++ printChar ch) ∧
      s'.console = s.console ++ [BitVec.ofNat 8 ch.toNat] := by
  obtain ⟨c, console⟩ := s
  have hplaced : Placed c.mem c.pc (printChar ch) := by
    have hall := hkept.placed
    rw [hprogram] at hall
    change c.pc = _ at hpc
    rw [hpc]
    exact (placed_append.mp (placed_append.mp hall).1).2
  have havoids : Avoids entry c.pc (printChar ch) := by
    have hall := avoids_of_forall hapart.entered
    rw [hprogram] at hall
    change c.pc = _ at hpc
    rw [hpc]
    exact (avoids_append.mp (avoids_append.mp hall).1).2
  obtain ⟨h₁, h₂, h₃, -⟩ := hplaced
  obtain ⟨g₁, g₂, g₃, -⟩ := havoids
  obtain rfl : c.sp = sp := hkept.stack
  -- CALL pushes the address behind it, and the BDOS is entered
  let next : Word := c.pc + 2#16 + 2#16 + 3#16
  let pushed : Word → Byte :=
    Function.update (Function.update c.mem (c.sp - 1#16) (high next)) (c.sp - 2#16) (low next)
  let called : System :=
    ⟨{ c with
        de := join (high c.de) (BitVec.ofNat 8 ch.toNat)
        bc := join (high c.bc) 0x02#8
        mem := pushed
        sp := c.sp - 2#16
        pc := entry }, console⟩
  have hcalled : Reaches bdos ⟨c, console⟩ called :=
    Reaches.instr g₁ h₁ (Reaches.instr g₂ h₂ (Reaches.instr g₃ h₃ .refl))
  have hfunction : low called.cpu.bc = 0x02#8 := low_join _ _
  have hreturn : called.step bdos = some (bdos.call called) := if_pos rfl
  have hone : c.sp - 2#16 + 1#16 = c.sp - 1#16 := by bv_omega
  have hne : c.sp - 1#16 ≠ c.sp - 2#16 := by bv_omega
  have hhigh : pushed (c.sp - 1#16) = high next :=
    (Function.update_of_ne hne _ _).trans (Function.update_self ..)
  have hlow : pushed (c.sp - 2#16) = low next := Function.update_self ..
  -- below the stack pointer is the only memory that the call itself changes
  have hother : ∀ x, x ≠ c.sp - 1#16 → x ≠ c.sp - 2#16 → pushed x = c.mem x :=
    fun x hx₁ hx₂ => (Function.update_of_ne hx₂ _ _).trans (Function.update_of_ne hx₁ _ _)
  have hmemory : ∀ x, ¬ bdos.own x → x ≠ c.sp - 1#16 → x ≠ c.sp - 2#16 →
      (bdos.call called).cpu.mem x = c.mem x := by
    intro x hx hx₁ hx₂
    rw [hprints.memory called rfl hfunction x hx]
    exact hother x hx₁ hx₂
  have hreturned : (bdos.call called).cpu.pc = next := by
    rw [hprints.returns called rfl hfunction]
    show join (pushed (c.sp - 2#16 + 1#16)) (pushed (c.sp - 2#16)) = next
    rw [hone, hhigh, hlow, join_high_low]
  refine ⟨bdos.call called, hcalled.tail hreturn, ⟨?_, ?_, ?_⟩, ?_, ?_⟩
  · refine Eq.trans (loadAt_congr fun k hk => ?_) hkept.loaded
    obtain ⟨hpush₁, hpush₂⟩ := hapart.pushed k hk
    exact hmemory _ (hapart.own k hk) hpush₁.symm hpush₂.symm
  · rw [hprints.stack called rfl hfunction]
    exact BitVec.sub_add_cancel _ _
  · have hback := hkept.back
    rw [hmemory _ hapart.back.1 (by bv_omega) (by bv_omega),
      hmemory _ hapart.back.2 (by bv_omega) (by bv_omega)]
    exact hback
  · change c.pc = _ at hpc
    rw [hreturned, behind_append, ← hpc]
    show c.pc + 2#16 + 2#16 + 3#16 = c.pc + 7#16
    rw [BitVec.add_assoc, BitVec.add_assoc]
    rfl
  · rw [hprints.console called rfl hfunction]
    show console ++ [low (join _ _)] = _
    rw [low_join]

/-- A text is printed, and the program returns. -/
theorem reaches_printText (hprints : bdos.Prints) (text : List Char)
    (hprogram : program = before ++ printText text ++ after)
    (hapart : Apart bdos (assemble program) org sp)
    (hkept : Kept (assemble program) org sp ret s) (hpc : s.cpu.pc = behind org before) :
    ∃ s', Reaches bdos s s' ∧ s'.cpu.pc = ret ∧ s'.cpu.sp = sp + 2#16 ∧
      s'.console = s.console ++ text.map fun ch => BitVec.ofNat 8 ch.toNat := by
  induction text generalizing s before with
  | nil =>
      have hplaced := hkept.placed
      have havoids := avoids_of_forall hapart.entered
      rw [hprogram] at hplaced havoids
      obtain ⟨h₁, -⟩ := (placed_append.mp (placed_append.mp hplaced).1).2
      obtain ⟨g₁, -⟩ := (avoids_append.mp (avoids_append.mp havoids).1).2
      rw [← hpc] at h₁ g₁
      refine ⟨_, Reaches.instr g₁ h₁ .refl, ?_, ?_, ?_⟩
      · show join (s.cpu.mem (s.cpu.sp + 1#16)) (s.cpu.mem s.cpu.sp) = ret
        rw [hkept.stack, hkept.back]
      · show s.cpu.sp + 2#16 = _
        rw [hkept.stack]
      · exact (List.append_nil _).symm
  | cons ch text ih =>
      have hfirst : program = before ++ printChar ch ++ (printText text ++ after) := by
        rw [hprogram, printText, printText, List.flatMap_cons]
        simp only [List.append_assoc]
      have hrest : program = before ++ printChar ch ++ printText text ++ after := by
        rw [hfirst, List.append_assoc _ (printText text)]
      obtain ⟨s₁, hrun₁, hkept₁, hpc₁, hconsole₁⟩ :=
        reaches_printChar hprints ch hfirst hapart hkept hpc
      obtain ⟨s₂, hrun₂, hpc₂, hsp₂, hconsole₂⟩ := ih hrest hkept₁ hpc₁
      refine ⟨s₂, hrun₁.trans hrun₂, hpc₂, hsp₂, ?_⟩
      rw [hconsole₂, hconsole₁, List.append_assoc]
      rfl

/-! ### The validator -/

/-- The sum is the expected one where both bytes are. -/
theorem sum_eq_iff (de : Word) (expectedSum : Nat) :
    de = BitVec.ofNat 16 expectedSum ↔
      low de = lowByte expectedSum ∧ high de = highByte expectedSum := by
  rw [← low_ofNat, ← high_ofNat]
  constructor
  · rintro rfl
    exact ⟨rfl, rfl⟩
  · rintro ⟨hlow, hhigh⟩
    rw [← join_high_low de, hlow, hhigh, join_high_low]

theorem length_okText : (assemble (printText okText)).length = 36 := by decide

variable (bdos) {c : Cpu} in
/-- The comparison goes to the text of the failure unless the sum is the expected one. -/
theorem reaches_compare (console : List Byte) (expectedSum : Nat)
    (hplaced : Placed c.mem c.pc (compareSum expectedSum))
    (havoids : Avoids entry c.pc (compareSum expectedSum)) :
    ∃ c' : Cpu, Reaches bdos ⟨c, console⟩ ⟨c', console⟩ ∧ c'.mem = c.mem ∧ c'.sp = c.sp ∧
      c'.pc = if c.de = BitVec.ofNat 16 expectedSum then behind c.pc (compareSum expectedSum)
        else behind c.pc (compareSum expectedSum ++ printText okText) := by
  obtain ⟨h₁, h₂, h₃, h₄, h₅, h₆, -⟩ := hplaced
  obtain ⟨g₁, g₂, g₃, g₄, g₅, g₆, -⟩ := havoids
  have hfail : behind c.pc (compareSum expectedSum ++ printText okText) = c.pc + 46#16 := by
    rw [behind, assemble_append, List.length_append, length_okText]
    rfl
  have hok : behind c.pc (compareSum expectedSum) = c.pc + 10#16 := rfl
  let first : Cpu :=
    { c with
      a := low c.de
      zero := low c.de = lowByte expectedSum
      carry := low c.de < lowByte expectedSum
      pc := c.pc + 1#16 + 2#16 + 2#16 }
  have hfirst : Reaches bdos ⟨c, console⟩ ⟨(Instr.jrNZ 0x29#8).exec first, console⟩ :=
    Reaches.instr g₁ h₁ (Reaches.instr g₂ h₂ (Reaches.instr g₃ h₃ .refl))
  -- E is compared first, and D only if E is right
  by_cases hlow : low c.de = lowByte expectedSum
  · have hstay : (Instr.jrNZ 0x29#8).exec first = first := if_pos (decide_eq_true hlow)
    let second : Cpu :=
      { first with
        a := high c.de
        zero := high c.de = highByte expectedSum
        carry := high c.de < highByte expectedSum
        pc := first.pc + 1#16 + 2#16 + 2#16 }
    have hsecond : Reaches bdos ⟨first, console⟩ ⟨(Instr.jrNZ 0x24#8).exec second, console⟩ :=
      Reaches.instr g₄ h₄ (Reaches.instr g₅ h₅ (Reaches.instr g₆ h₆ .refl))
    rw [hstay] at hfirst
    by_cases hhigh : high c.de = highByte expectedSum
    · have hstay' : (Instr.jrNZ 0x24#8).exec second = second := if_pos (decide_eq_true hhigh)
      rw [hstay'] at hsecond
      refine ⟨second, hfirst.trans hsecond, rfl, rfl, ?_⟩
      rw [if_pos ((sum_eq_iff c.de expectedSum).mpr ⟨hlow, hhigh⟩), hok]
      show c.pc + 1#16 + 2#16 + 2#16 + 1#16 + 2#16 + 2#16 = _
      simp only [BitVec.add_assoc]
      rfl
    · have hjump : (Instr.jrNZ 0x24#8).exec second =
          { second with pc := second.pc + (0x24#8).signExtend 16 } :=
        if_neg (by rw [decide_eq_true_iff]; exact hhigh)
      rw [hjump] at hsecond
      refine ⟨_, hfirst.trans hsecond, rfl, rfl, ?_⟩
      rw [if_neg fun h => hhigh ((sum_eq_iff c.de expectedSum).mp h).2, hfail]
      show c.pc + 1#16 + 2#16 + 2#16 + 1#16 + 2#16 + 2#16 + 36#16 = _
      simp only [BitVec.add_assoc]
      rfl
  · have hjump : (Instr.jrNZ 0x29#8).exec first =
        { first with pc := first.pc + (0x29#8).signExtend 16 } :=
      if_neg (by rw [decide_eq_true_iff]; exact hlow)
    rw [hjump] at hfirst
    refine ⟨_, hfirst, rfl, rfl, ?_⟩
    rw [if_neg fun h => hlow ((sum_eq_iff c.de expectedSum).mp h).1, hfail]
    show c.pc + 1#16 + 2#16 + 2#16 + 41#16 = _
    simp only [BitVec.add_assoc]
    rfl

/-- A text on the console. -/
def printed (text : List Char) : List Byte := text.map fun ch => BitVec.ofNat 8 ch.toNat

/-- The sum of the regions is the expected one. -/
def Valid (mem : Word → Byte) (expectedSum : Nat) (regions : List (Nat × Nat)) : Prop :=
  regionsSum mem regions % 65536 = expectedSum % 65536

instance (mem : Word → Byte) (expectedSum : Nat) (regions : List (Nat × Nat)) :
    Decidable (Valid mem expectedSum regions) :=
  inferInstanceAs (Decidable (_ = _))

/-- The validator is called: it is in memory, apart from the stack and the operating system. -/
structure Called (bdos : Bdos) (code : List Byte) (org : Word) (s : System) : Prop where
  start : s.cpu.pc = org
  loaded : loadAt s.cpu.mem org code.length = code
  apart : Apart bdos code org s.cpu.sp

/-- It returns from the call, after a text. -/
def ReturnsAfter (bdos : Bdos) (s : System) (text : List Char) : Prop :=
  ∃ s', Reaches bdos s s' ∧
    s'.cpu.pc = join (s.cpu.mem (s.cpu.sp + 1#16)) (s.cpu.mem s.cpu.sp) ∧
    s'.cpu.sp = s.cpu.sp + 2#16 ∧ s'.console = s.console ++ printed text

/-- **The validator** prints whether the sum is the expected one, and returns. -/
theorem validator_prints (hprints : bdos.Prints) {regions : List (Nat × Nat)}
    (hregions : Regions regions) (expectedSum : Nat)
    (hcalled : Called bdos (buildValidator expectedSum regions) org s) :
    ReturnsAfter bdos s (if Valid s.cpu.mem expectedSum regions then okText else failText) := by
  obtain ⟨hpc, hloaded, hapart⟩ := hcalled
  obtain ⟨c, console⟩ := s
  rw [buildValidator_eq] at hloaded hapart
  change c.pc = org at hpc
  subst hpc
  have hplaced := placed_of_loadAt hloaded
  have havoids := avoids_of_forall hapart.entered
  have hlisting : listing expectedSum regions =
      .ldDE 0#16 :: (regions.flatMap sumRegion ++ (compareSum expectedSum ++
        (printText okText ++ printText failText))) := by
    simp only [listing, List.append_assoc]
    rfl
  rw [hlisting] at hplaced havoids
  -- the program in its parts: the sums, the comparison, and the two texts
  obtain ⟨h₁, hrest⟩ := hplaced
  obtain ⟨g₁, grest⟩ := havoids
  obtain ⟨hsums, hrest⟩ := placed_append.mp hrest
  obtain ⟨gsums, grest⟩ := avoids_append.mp grest
  obtain ⟨hcompare, -⟩ := placed_append.mp hrest
  obtain ⟨gcompare, -⟩ := avoids_append.mp grest
  let cleared : Cpu := { c with de := 0#16, pc := c.pc + 3#16 }
  have hcleared : Reaches bdos ⟨c, console⟩ ⟨cleared, console⟩ := Reaches.instr g₁ h₁ .refl
  obtain ⟨c₁, hrun₁, hmem₁, hsp₁, hde₁, hpc₁⟩ :=
    @reaches_regions bdos console cleared regions hregions hsums gsums
  have hcompare₁ : Placed c₁.mem c₁.pc (compareSum expectedSum) := by
    rw [hmem₁, hpc₁]
    exact hcompare
  have gcompare₁ : Avoids entry c₁.pc (compareSum expectedSum) := by
    rw [hpc₁]
    exact gcompare
  obtain ⟨c₂, hrun₂, hmem₂, hsp₂, hpc₂⟩ :=
    reaches_compare bdos console expectedSum hcompare₁ gcompare₁
  have hrun : Reaches bdos ⟨c, console⟩ ⟨c₂, console⟩ := hcleared.trans (hrun₁.trans hrun₂)
  have hmem : c₂.mem = c.mem := hmem₂.trans hmem₁
  have hkept : Kept (assemble (listing expectedSum regions)) c.pc c.sp
      (join (c.mem (c.sp + 1#16)) (c.mem c.sp)) ⟨c₂, console⟩ := by
    refine ⟨?_, hsp₂.trans hsp₁, ?_⟩
    · show loadAt c₂.mem _ _ = _
      rw [hmem]
      exact hloaded
    · show join (c₂.mem _) (c₂.mem _) = _
      rw [hmem]
  have hsum : c₁.de = BitVec.ofNat 16 expectedSum ↔ Valid c.mem expectedSum regions := by
    rw [hde₁, ← BitVec.toNat_inj]
    show (0#16 + BitVec.ofNat 16 (regionsSum c.mem regions)).toNat = _ ↔ _
    rw [BitVec.zero_add, BitVec.toNat_ofNat, BitVec.toNat_ofNat]
    exact Iff.rfl
  -- the text that is printed is where the comparison goes on
  by_cases hvalid : Valid c.mem expectedSum regions
  · rw [if_pos (hsum.mpr hvalid)] at hpc₂
    have hprogram : listing expectedSum regions =
        (.ldDE 0#16 :: (regions.flatMap sumRegion ++ compareSum expectedSum)) ++
          printText okText ++ printText failText := by
      rw [hlisting]
      simp only [List.cons_append, List.append_assoc]
    have hstart : c₂.pc =
        behind c.pc (.ldDE 0#16 :: (regions.flatMap sumRegion ++ compareSum expectedSum)) := by
      rw [behind_cons, behind_append, hpc₂, hpc₁]
      rfl
    obtain ⟨s', hprint, hpc', hsp', hconsole⟩ :=
      reaches_printText hprints okText hprogram hapart hkept hstart
    refine ⟨s', hrun.trans hprint, hpc', hsp', ?_⟩
    rw [if_pos hvalid]
    exact hconsole
  · rw [if_neg fun h => hvalid (hsum.mp h)] at hpc₂
    have hprogram : listing expectedSum regions =
        (.ldDE 0#16 :: (regions.flatMap sumRegion ++ (compareSum expectedSum ++
          printText okText))) ++ printText failText ++ [] := by
      rw [hlisting]
      simp only [List.cons_append, List.append_assoc, List.append_nil]
    have hstart : c₂.pc =
        behind c.pc (.ldDE 0#16 :: (regions.flatMap sumRegion ++ (compareSum expectedSum ++
          printText okText))) := by
      rw [behind_cons, behind_append, hpc₂, hpc₁]
      rfl
    obtain ⟨s', hprint, hpc', hsp', hconsole⟩ :=
      reaches_printText hprints failText hprogram hapart hkept hstart
    refine ⟨s', hrun.trans hprint, hpc', hsp', ?_⟩
    rw [if_neg hvalid]
    exact hconsole

end Install
end Rc700
