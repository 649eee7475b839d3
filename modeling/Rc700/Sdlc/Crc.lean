import Rc700.Library.ShiftRegister
import Rc700.Sdlc.RoundTrip

/-!
# The CRC of an SDLC frame

The bit-serial CRC of the receiver is a shift register with feedback, which takes in the
bits of a frame in line order (`crcRegister_eq_feed`).  The frames that pass the test of the
receiver are those that leave the residue (`crcTest_iff`), so no burst within the width of
the register passes it (`burst_detected`).
-/

namespace Rc700
namespace Sdlc

open Library.ShiftRegister

/-- The polynomial, reflected. -/
def POLY : Word := 0x8408#16

/-- The register of `crc_ccitt` after data, not complemented. -/
def crcRegister (data : List Byte) : Word :=
  data.foldl (fun crc byte => crcBit^[8] (crc ^^^ BitVec.setWidth 16 byte)) 0xFFFF#16

/-- The test of `evaluate_config`, on the bytes of a frame candidate. -/
def crcTest (f : List Byte) : Bool :=
  let dataB := f.take (f.length - 2)
  let crcRx := f.drop (f.length - 2)
  crcBytes dataB = crcRx

/-! ### The register -/

theorem crcCcitt_eq (data : List Byte) : crcCcitt data = crcRegister data ^^^ 0xFFFF#16 := rfl

theorem crcBit_eq_shift : crcBit = shift POLY := by
  funext crc
  have hlow : (crc &&& 1#16 ≠ 0#16) ↔ crc.getLsbD 0 = true := by
    rw [show (1#16 : Word) = BitVec.twoPow 16 0 by decide, BitVec.and_twoPow]
    cases crc.getLsbD 0 <;> decide
  unfold crcBit shift
  by_cases hbit : crc.getLsbD 0 = true
  · rw [if_pos (hlow.mpr hbit), if_pos hbit]
    rfl
  · rw [if_neg (hlow.not.mpr hbit), if_neg hbit]

theorem byteToLsbBits_getD (b : Byte) (i : Nat) : (byteToLsbBits b).getD i false = b.getLsbD i := by
  by_cases hi : i < 8
  · have hbit : (b >>> i &&& 1#8 = 1#8) ↔ b.getLsbD i = true := by
      rw [show (1#8 : Byte) = BitVec.twoPow 8 0 by decide, BitVec.and_twoPow,
        BitVec.getLsbD_ushiftRight]
      cases b.getLsbD (i + 0) <;> decide
    simp [byteToLsbBits, hi, hbit]
  · simp [byteToLsbBits, hi, BitVec.getLsbD_of_ge b i (by omega)]

/-- The bits of a byte, as they are on the line. -/
theorem word_byte (b : Byte) : word 16 (byteToLsbBits b) = BitVec.setWidth 16 b := by
  apply BitVec.eq_of_getLsbD_eq
  intro i hi
  rw [word_getLsbD, byteToLsbBits_getD, BitVec.getLsbD_setWidth]

theorem feed_byte (reg : Word) (b : Byte) :
    feed POLY reg (byteToLsbBits b) = crcBit^[8] (reg ^^^ BitVec.setWidth 16 b) := by
  rw [feed_word POLY reg (show (byteToLsbBits b).length ≤ 16 by simp [byteToLsbBits]), word_byte,
    crcBit_eq_shift]
  simp [byteToLsbBits]

theorem feed_bytes (reg : Word) (bs : List Byte) :
    feed POLY reg (bytesToLsbBits bs) =
      bs.foldl (fun crc byte => crcBit^[8] (crc ^^^ BitVec.setWidth 16 byte)) reg := by
  induction bs generalizing reg with
  | nil => rfl
  | cons b bs ih =>
      show feed POLY reg (byteToLsbBits b ++ bytesToLsbBits bs) = _
      rw [feed_append, feed_byte, ih]
      rfl

theorem crcRegister_eq_feed (bs : List Byte) :
    crcRegister bs = feed POLY 0xFFFF#16 (bytesToLsbBits bs) := (feed_bytes _ bs).symm

/-! ### The residue -/

theorem length_byteToLsbBits (b : Byte) : (byteToLsbBits b).length = 8 := by
  simp [byteToLsbBits]

/-- The word of two bytes, the low one first. -/
theorem word_pair (lo hi : Byte) : word 16 (byteToLsbBits lo ++ byteToLsbBits hi) = hi ++ lo := by
  apply BitVec.eq_of_getLsbD_eq
  intro i hi'
  rw [word_getLsbD, BitVec.getLsbD_append]
  by_cases hless : i < 8
  · have hlo := byteToLsbBits_getD lo i
    rw [List.getD_eq_getElem?_getD] at hlo ⊢
    rw [List.getElem?_append_left (by rw [length_byteToLsbBits]; exact hless), hlo]
    simp [hless, hi']
  · have hhi := byteToLsbBits_getD hi (i - 8)
    rw [List.getD_eq_getElem?_getD] at hhi ⊢
    rw [List.getElem?_append_right (by rw [length_byteToLsbBits]; omega), length_byteToLsbBits, hhi]
    simp [hless, hi']

/-- What the last two bytes make of the register. -/
theorem crcRegister_pair (data : List Byte) (lo hi : Byte) :
    crcRegister (data ++ [lo, hi]) = (shift POLY)^[16] (crcRegister data ^^^ (hi ++ lo)) := by
  have hbits : bytesToLsbBits (data ++ [lo, hi]) =
      bytesToLsbBits data ++ (byteToLsbBits lo ++ byteToLsbBits hi) := by
    simp [bytesToLsbBits]
  have hlen : (byteToLsbBits lo ++ byteToLsbBits hi).length = 16 := by
    simp [byteToLsbBits]
  rw [crcRegister_eq_feed, hbits, feed_append, ← crcRegister_eq_feed,
    feed_word POLY _ (Nat.le_of_eq hlen), hlen, word_pair]

/-- A word is that of its two bytes. -/
theorem word_of_bytes (c : Word) :
    BitVec.setWidth 8 (c >>> 8) ++ BitVec.setWidth 8 c = c := by
  apply BitVec.eq_of_getLsbD_eq
  intro i hi
  rw [BitVec.getLsbD_append, BitVec.getLsbD_setWidth, BitVec.getLsbD_setWidth,
    BitVec.getLsbD_ushiftRight]
  by_cases hless : i < 8
  · simp only [hless, decide_true, Bool.true_and, if_true]
  · have hback : 8 + (i - 8) = i := by omega
    have hin : i - 8 < 8 := by omega
    simp only [hless, hback, hin, decide_true, Bool.true_and, if_false]

/-- The bytes of the CRC, read as one word. -/
theorem crcBytes_eq_iff (data : List Byte) (lo hi : Byte) :
    crcBytes data = [lo, hi] ↔ crcCcitt data = hi ++ lo := by
  have hbytes : ∀ c : Word, BitVec.setWidth 8 c = lo ∧ BitVec.setWidth 8 (c >>> 8) = hi ↔
      c = hi ++ lo := by
    intro c
    constructor
    · rintro ⟨rfl, rfl⟩
      exact (word_of_bytes c).symm
    · rintro rfl
      have hsame := word_of_bytes (hi ++ lo)
      refine ⟨BitVec.setWidth_append_eq_right, ?_⟩
      rw [BitVec.setWidth_append_eq_right] at hsame
      exact (BitVec.append_left_inj lo).mp hsame
  rw [← hbytes]
  simp [crcBytes]

def RESIDUE : Word := 0xF0B8#16

theorem residue_eq : (shift POLY)^[16] 0xFFFF#16 = RESIDUE := by
  decide +kernel

/-- **The residue.**  The frames that pass the test are those after which the register has
the residue in it. -/
theorem crcTest_iff {f : List Byte} (hlen : 2 ≤ f.length) :
    crcTest f = true ↔ crcRegister f = RESIDUE := by
  obtain ⟨lo, hi, hlast⟩ : ∃ lo hi, f.drop (f.length - 2) = [lo, hi] := by
    rw [← List.length_eq_two, List.length_drop]
    omega
  have hf : f = f.take (f.length - 2) ++ [lo, hi] := by
    rw [← hlast, List.take_append_drop]
  rw [crcTest, decide_eq_true_iff, hlast, crcBytes_eq_iff]
  conv_rhs => rw [hf, crcRegister_pair, ← residue_eq,
    (iterate_shift_injective POLY (by decide) (by decide) 16).eq_iff]
  rw [crcCcitt_eq]
  -- complemented on one side, or on the other
  constructor
  · intro heq
    rw [← heq, ← BitVec.xor_assoc, BitVec.xor_self, BitVec.zero_xor]
  · intro heq
    rw [← heq, ← BitVec.xor_assoc, BitVec.xor_self, BitVec.zero_xor]

theorem length_crcBytes (data : List Byte) : (crcBytes data).length = 2 := rfl

/-- A frame as it is built passes. -/
theorem crcTest_frame (data : List Byte) : crcTest (data ++ crcBytes data) = true := by
  have hdata : (data ++ crcBytes data).length - 2 = data.length := by
    rw [List.length_append, length_crcBytes, Nat.add_sub_cancel]
  rw [crcTest, decide_eq_true_iff, hdata, List.take_left, List.drop_left]

/-! ### Bursts -/

theorem length_bytesToLsbBits (bs : List Byte) : (bytesToLsbBits bs).length = 8 * bs.length := by
  induction bs with
  | nil => rfl
  | cons b bs ih =>
      have hcons : bytesToLsbBits (b :: bs) = byteToLsbBits b ++ bytesToLsbBits bs := rfl
      rw [hcons, List.length_append, length_byteToLsbBits, ih, List.length_cons]
      omega

theorem bytesToLsbBits_injective : Function.Injective bytesToLsbBits := by
  intro bs bs' heq
  have hback := bitsToBytes_append bs (show ([] : List Bool).length < 8 by decide)
  rw [heq, bitsToBytes_append bs' (show ([] : List Bool).length < 8 by decide)] at hback
  exact hback.symm

/-- The places in which two rows of bits differ. -/
theorem zipWith_xor_getElem? {xs ys : List Bool} (hlen : xs.length = ys.length) (j : Nat) :
    (xs.zipWith xor ys)[j]? = some true ↔ xs[j]? ≠ ys[j]? := by
  by_cases hj : j < xs.length
  · have hj' : j < ys.length := hlen ▸ hj
    rw [List.getElem?_eq_getElem hj, List.getElem?_eq_getElem hj']
    simp [hj, hj']
  · have hj' : ¬j < ys.length := hlen ▸ hj
    simp [Nat.not_lt.mp hj, Nat.not_lt.mp hj']

/-- **No short burst is missed.**  Behind the data and its CRC the register has the residue in
it; and of the frames that differ from this one in some bits, all of them among 16 that
follow each other on the line, none passes the test. -/
theorem burst_detected (data : List Byte) :
    crcRegister (data ++ crcBytes data) = RESIDUE ∧
    ∀ (f : List Byte) (start : Nat), f.length = (data ++ crcBytes data).length →
      f ≠ data ++ crcBytes data →
      (∀ j, (bytesToLsbBits f)[j]? ≠ (bytesToLsbBits (data ++ crcBytes data))[j]? →
        start ≤ j ∧ j < start + 16) →
      crcTest f = false := by
  have hlong : 2 ≤ (data ++ crcBytes data).length := by
    rw [List.length_append, length_crcBytes]
    exact Nat.le_add_left _ _
  have hresidue := (crcTest_iff hlong).mp (crcTest_frame data)
  refine ⟨hresidue, fun f start hlen hne hwindow => ?_⟩
  rw [Bool.eq_false_iff]
  intro hpass
  have hsame : crcRegister f = crcRegister (data ++ crcBytes data) :=
    ((crcTest_iff (hlen ▸ hlong)).mp hpass).trans hresidue.symm
  have hbits : (bytesToLsbBits f).length = (bytesToLsbBits (data ++ crcBytes data)).length := by
    rw [length_bytesToLsbBits, length_bytesToLsbBits, hlen]
  -- the register of the difference is clear, though not all of its bits are
  have hdiff := feed_xor POLY 0xFFFF#16 0xFFFF#16 _ _ hbits
  rw [← crcRegister_eq_feed, ← crcRegister_eq_feed, hsame, BitVec.xor_self,
    BitVec.xor_self] at hdiff
  have hset : true ∈ (bytesToLsbBits f).zipWith xor (bytesToLsbBits (data ++ crcBytes data)) := by
    by_contra hclear
    refine hne (bytesToLsbBits_injective (List.ext_getElem? fun j => ?_))
    by_contra hj
    exact hclear (List.mem_of_getElem? ((zipWith_xor_getElem? hbits j).mpr hj))
  exact feed_window POLY (by decide) hset
    (fun j hj => hwindow j ((zipWith_xor_getElem? hbits j).mp hj)) hdiff.symm

/-- The last bit of the data and the first one of the CRC. -/
theorem burst_detected_straddling :
    crcRegister ([0x31#8] ++ crcBytes [0x31#8]) = RESIDUE ∧
      crcTest [0xB1#8, 0x73#8, 0xD0#8] = false := by
  refine ⟨(burst_detected [0x31#8]).1,
    (burst_detected [0x31#8]).2 _ 7 (by decide) (by decide) fun j hj => ?_⟩
  have hlow : ∀ j < 24, (bytesToLsbBits [0xB1#8, 0x73#8, 0xD0#8])[j]? ≠
      (bytesToLsbBits ([0x31#8] ++ crcBytes [0x31#8]))[j]? → 7 ≤ j ∧ j < 7 + 16 := by
    decide
  refine hlow j ?_ hj
  by_contra hbehind
  refine hj ?_
  rw [List.getElem?_eq_none (Nat.not_lt.mp hbehind), List.getElem?_eq_none (Nat.not_lt.mp hbehind)]

end Sdlc
end Rc700
