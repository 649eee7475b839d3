import Rc700.Library.Word
import Mathlib.Algebra.Order.Floor.Semiring
import Mathlib.Data.Rat.Floor
import Mathlib.Tactic.Common

/-!
# The SDLC receiver

The signal processing of `sdlc_receiver.py`: from samples of the line to bits, by run
lengths or by phase, and from bits to frames.  A level and a bit is a `Bool`; the bits of
a line are read from the front of a list, where the source keeps an index into it.

Floats are rational numbers, as in exact arithmetic.
-/

namespace Rc700
namespace Sdlc

/-! ### Samples -/

/-- The level of a sample. -/
def level (rxdMask b : Byte) : Bool := b &&& rxdMask ≠ 0#8

/-- `round`, which goes to the even neighbour from the middle. -/
def pyRound (q : ℚ) : Int :=
  let low := ⌊q⌋
  if q - low < 1 / 2 then low
  else if 1 / 2 < q - low then low + 1
  else if low % 2 = 0 then low else low + 1

def MAX_RUN_BITS : Nat := 8

/-- How many bits a run of samples is. -/
def runBits (sps : ℚ) (run : Nat) : Nat := min MAX_RUN_BITS (max 1 (pyRound (run / sps))).toNat

/-- The loop of `samples_to_bits`, within a run.  The last run is not emitted. -/
def quantize (rxdMask : Byte) (sps : ℚ) : Bool → Nat → List Byte → List Bool
  | _, _, [] => []
  | prev, run, b :: samples =>
      if level rxdMask b = prev then quantize rxdMask sps prev (run + 1) samples
      else List.replicate (runBits sps run) prev ++
        quantize rxdMask sps (level rxdMask b) 1 samples

/-- `samples_to_bits` -/
def samplesToBits (samples : List Byte) (rxdMask : Byte) (sps : ℚ) : List Bool :=
  match samples with
  | [] => []
  | b :: _ => quantize rxdMask sps (level rxdMask b) 0 samples

/-- The first of so many samples from `j` on whose level is not that of the one before. -/
def firstChange (lvl : Nat → Bool) : Nat → Nat → Bool → Option Nat
  | 0, _, _ => none
  | count + 1, j, prev =>
      if lvl j ≠ prev then some j else firstChange lvl count (j + 1) (lvl j)

/-- The time of the next cell centre. -/
def nextCentre (lvl : Nat → Bool) (n : Nat) (sps t : ℚ) : ℚ :=
  let idx := ⌊t⌋₊
  let stop := min n (⌊t + sps / 2⌋₊ + 1)
  match firstChange lvl (stop - idx) idx (lvl idx) with
  | some j => j + sps / 2
  | none => t + sps

/-- The loop of `dpll_bits`, for so many cells; none if there are more. -/
def dpllLoop (lvl : Nat → Bool) (n : Nat) (sps : ℚ) : Nat → ℚ → Option (List Bool)
  | 0, _ => none
  | fuel + 1, t =>
      if t < n then
        if n ≤ ⌊t⌋₊ then some []
        else (dpllLoop lvl n sps fuel (nextCentre lvl n sps t)).map (lvl ⌊t⌋₊ :: ·)
      else some []

/-- `dpll_bits` -/
def dpllBits (fuel : Nat) (samples : List Byte) (rxdMask : Byte) (sps : ℚ) :
    Option (List Bool) :=
  match samples with
  | [] => some []
  | b :: _ =>
      let i := (samples.takeWhile (fun b' => b' &&& rxdMask = b &&& rxdMask)).length
      if samples.length ≤ i then some []
      else dpllLoop (fun j => level rxdMask (samples.getD j 0#8)) samples.length sps fuel
        (i + sps / 2)

/-! ### Bits -/

/-- The loop of `nrzi_decode`. -/
def nrziFrom : Bool → List Bool → List Bool
  | _, [] => []
  | prev, cur :: bits => decide (cur = prev) :: nrziFrom cur bits

/-- `nrzi_decode` -/
def nrziDecode (bits : List Bool) : List Bool := nrziFrom true bits

def FLAG : List Bool := [false, true, true, true, true, true, true, false]

/-- Past back-to-back flags. -/
def skipFlags : List Bool → List Bool
  | false :: true :: true :: true :: true :: true :: true :: false :: bits => skipFlags bits
  | bits => bits

/-- The bits of a frame up to the next flag, with zero-deletion, and what follows. -/
def accumulate : Nat → List Bool → List Bool → List Bool × List Bool
  | _, frameBits, [] => (frameBits, [])
  | ones, frameBits, b :: bits =>
      if ones = 5 then
        if b = false then accumulate 0 frameBits bits
        -- six ones: the five that were taken are no data, and the sixth is seen again
        else (frameBits.take (frameBits.length - 5), b :: bits)
      else accumulate (if b = true then ones + 1 else 0) (frameBits ++ [b]) bits

theorem length_skipFlags_le (bits : List Bool) : (skipFlags bits).length ≤ bits.length := by
  induction bits using skipFlags.induct with
  | case1 bits ih =>
      rw [skipFlags]
      simp only [List.length_cons]
      omega
  | case2 bits hnot =>
      rw [skipFlags]
      exact hnot

theorem length_accumulate_le (ones : Nat) (frameBits bits : List Bool) :
    (accumulate ones frameBits bits).2.length ≤ bits.length := by
  induction bits generalizing ones frameBits with
  | nil => exact Nat.le_refl _
  | cons b bits ih =>
      have hmore := fun ones frameBits => Nat.le_succ_of_le (ih ones frameBits)
      unfold accumulate
      split
      · split
        · exact hmore _ _
        · exact Nat.le_refl _
      · exact hmore _ _

/-- A flag is skipped. -/
theorem length_skipFlags_lt {bits : List Bool} (hflag : bits.take 8 = FLAG) :
    (skipFlags bits).length < bits.length := by
  obtain ⟨rest, rfl⟩ : ∃ rest, bits = FLAG ++ rest :=
    ⟨bits.drop 8, by rw [← hflag, List.take_append_drop]⟩
  have hrest := length_skipFlags_le rest
  show (skipFlags rest).length < _
  rw [List.length_append]
  show _ < 8 + _
  omega

/-- `find_frames` -/
def findFrames (bits : List Bool) : List (List Bool) :=
  if hmore : 8 < bits.length then
    if hflag : bits.take 8 = FLAG then
      let frame := accumulate 0 [] (skipFlags bits)
      if frame.1 ≠ [] then frame.1 :: findFrames frame.2 else findFrames frame.2
    else findFrames (bits.drop 1)
  else []
termination_by bits.length
decreasing_by
  · exact Nat.lt_of_le_of_lt (length_accumulate_le _ _ _) (length_skipFlags_lt hflag)
  · exact Nat.lt_of_le_of_lt (length_accumulate_le _ _ _) (length_skipFlags_lt hflag)
  · rw [List.length_drop]
    omega

/-! ### Bytes -/

/-- The byte of eight bits, the lowest first. -/
def byteOf (b₀ b₁ b₂ b₃ b₄ b₅ b₆ b₇ : Bool) : Byte :=
  [b₀, b₁, b₂, b₃, b₄, b₅, b₆, b₇].zipIdx.foldl
    (fun v bit => v ||| (BitVec.setWidth 8 (BitVec.ofBool bit.1) <<< bit.2)) 0#8

/-- `bits_to_bytes` -/
def bitsToBytes : List Bool → List Byte
  | b₀ :: b₁ :: b₂ :: b₃ :: b₄ :: b₅ :: b₆ :: b₇ :: bits =>
      byteOf b₀ b₁ b₂ b₃ b₄ b₅ b₆ b₇ :: bitsToBytes bits
  | _ => []

/-- One bit of the CRC. -/
def crcBit (crc : Word) : Word :=
  if crc &&& 1#16 ≠ 0#16 then (crc >>> 1) ^^^ 0x8408#16 else crc >>> 1

/-- `crc_ccitt` -/
def crcCcitt (data : List Byte) : Word :=
  (data.foldl (fun crc byte => crcBit^[8] (crc ^^^ BitVec.setWidth 16 byte)) 0xFFFF#16) ^^^
    0xFFFF#16

end Sdlc
end Rc700
