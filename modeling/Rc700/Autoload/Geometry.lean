import Rc700.Library.Word
import Mathlib.Tactic.Common

/-!
# Track geometry in the boot ROM

`fdc_detect_sector_size_and_density` of `rom.c` takes the size code of a Read ID, looks up the
sectors of a track for it, and computes how many bytes the track has.

The table has four rows for each kind of drive and the size code is one of eight: what it is
looked up in may be the rows of the other kind, or what is behind the table.
-/

namespace Rc700
namespace Autoload

/-- `format_entry` -/
structure FormatEntry where
  eot : Byte
  gap3 : Byte
  deriving DecidableEq, Repr

/-- `eot_gap3_table[is_mini][N][side]` -/
def eotGap3Table : List (List (List FormatEntry)) :=
  [ -- maxi (8")
    [[⟨0x1A#8, 0x07#8⟩, ⟨0x34#8, 0x07#8⟩],
      [⟨0x0F#8, 0x0E#8⟩, ⟨0x1A#8, 0x0E#8⟩],
      [⟨0x08#8, 0x1B#8⟩, ⟨0x0F#8, 0x1B#8⟩],
      [⟨0x00#8, 0x00#8⟩, ⟨0x08#8, 0x35#8⟩]],
    -- mini (5.25")
    [[⟨0x10#8, 0x07#8⟩, ⟨0x20#8, 0x07#8⟩],
      [⟨0x09#8, 0x0E#8⟩, ⟨0x10#8, 0x0E#8⟩],
      [⟨0x05#8, 0x1B#8⟩, ⟨0x09#8, 0x1B#8⟩],
      [⟨0x00#8, 0x00#8⟩, ⟨0x05#8, 0x35#8⟩]]]

/-- The variables of the ROM: the drive, `fdc_cmd`, and the transfer. -/
structure RomState where
  isMini : Bool
  isMfm : Bool
  isDoubleSided : Bool
  diskType : Byte
  cylinder : Byte
  head : Byte
  sector : Byte
  sizeShift : Byte
  eot : Byte
  gap3 : Byte
  dtl : Byte
  moreTracksToRead : Bool
  dmaTransferAddress : Word
  dmaTransferSize : Word
  bytesLeftToRead : Word
  deriving DecidableEq, Repr

/-- Where an entry of the table is. -/
def entryPlace (isMini : Bool) (sizeShift : Byte) (isMfm : Bool) : Nat :=
  (isMini.toNat * 4 + sizeShift.toNat) * 2 + isMfm.toNat

variable (behind : Nat → FormatEntry)

/-- The entry at a place, with what is behind the table. -/
def entryAt (place : Nat) : FormatEntry :=
  eotGap3Table.flatten.flatten[place]?.getD (behind (place - 16))

/-- `lookup_sectors_and_gap3_for_current_track` -/
def lookupSectorsAndGap3ForCurrentTrack (s : RomState) : RomState :=
  let fmt := entryAt behind (entryPlace s.isMini s.sizeShift s.isMfm)
  { s with eot := fmt.eot, gap3 := fmt.gap3, dtl := 0x80#8 }

/-- `for (byte i = ...; i != 0; i--) tb <<= 1` -/
def doubled : Nat → Word → Word
  | 0, tb => tb
  | i + 1, tb => doubled i (tb <<< 1)

/-- `sectors` of `calc_size_of_current_track` -/
def sectors (s : RomState) : Byte :=
  if s.diskType &&& 0b10000000#8 ≠ 0 ∧ s.head = 1#8 then 10#8 else s.eot - s.sector + 1#8

/-- `calc_size_of_current_track` -/
def calcSizeOfCurrentTrack (s : RomState) : RomState :=
  let tb := (sectors s).setWidth 16
  { s with dmaTransferSize := doubled (7#8 + s.sizeShift).toNat tb }

/-- What is done with the size code of a Read ID. -/
def setUp (s : RomState) (sizeCode : Byte) : RomState :=
  calcSizeOfCurrentTrack
    (lookupSectorsAndGap3ForCurrentTrack behind { s with sizeShift := sizeCode &&& 0b00000111#8 })

/-- `fdc_detect_sector_size_and_density`: what the seeks return, and the size codes of the Read
IDs that find one, in FM and in MFM. -/
def fdcDetectSectorSizeAndDensity (seek : Bool → Byte) (readId : Bool → Option Byte)
    (s : RomState) : Option RomState :=
  let s := { s with isMfm := false }
  if seek false ≠ 0 then none
  else
    let s := { s with dmaTransferSize := 4#16 }
    match readId false with
    | some sizeCode => some (setUp behind s sizeCode)
    | none =>
        let s := { s with isMfm := true }
        if seek true ≠ 0 then none
        else (readId true).map (setUp behind s)

/-- The geometry is one that is set up for some Read ID. -/
def Detected (s : RomState) : Prop :=
  ∃ (seek : Bool → Byte) (readId : Bool → Option Byte) (s₀ s₁ : RomState),
    fdcDetectSectorSizeAndDensity behind seek readId s₀ = some s₁ ∧ s.isMini = s₁.isMini ∧
      s.isMfm = s₁.isMfm ∧ s.sizeShift = s₁.sizeShift ∧ s.eot = s₁.eot

/-! ### Sizes -/

theorem toNat_doubled (n : Nat) (tb : Word) : (doubled n tb).toNat = tb.toNat * 2 ^ n % 65536 := by
  induction n generalizing tb with
  | zero =>
      have := tb.isLt
      simp [doubled]
      omega
  | succ n ih =>
      have hshift : (tb <<< 1).toNat = tb.toNat * 2 % 65536 := by
        rw [BitVec.toNat_shiftLeft, Nat.shiftLeft_eq]
      rw [doubled, ih, hshift, Nat.mod_mul_mod, Nat.mul_assoc, Nat.pow_succ']

variable {behind} {s : RomState}

/-- What is set up: one of eight size codes, and the entry for it. -/
theorem detected_iff : Detected behind s ↔
    s.sizeShift.toNat < 8 ∧
      s.eot = (entryAt behind (entryPlace s.isMini s.sizeShift s.isMfm)).eot := by
  constructor
  · rintro ⟨seek, readId, s₀, s₁, hdetect, hmini, hmfm, hsize, heot⟩
    have hset : ∃ s₂ sizeCode, s₁ = setUp behind s₂ sizeCode := by
      unfold fdcDetectSectorSizeAndDensity at hdetect
      dsimp only at hdetect
      split at hdetect
      · exact nomatch hdetect
      · split at hdetect
        · exact ⟨_, _, (Option.some.inj hdetect).symm⟩
        · split at hdetect
          · exact nomatch hdetect
          · obtain ⟨sizeCode, -, hset⟩ := Option.map_eq_some_iff.mp hdetect
            exact ⟨_, _, hset.symm⟩
    obtain ⟨s₂, sizeCode, rfl⟩ := hset
    rw [hmini, hmfm, hsize, heot]
    refine ⟨?_, rfl⟩
    show (sizeCode &&& 0b00000111#8).toNat < 8
    rw [BitVec.toNat_and]
    exact Nat.lt_succ_of_le Nat.and_le_right
  · rintro ⟨hsize, heot⟩
    have hmask : s.sizeShift &&& 0b00000111#8 = s.sizeShift := by
      refine BitVec.eq_of_toNat_eq ?_
      rw [BitVec.toNat_and]
      exact (Nat.and_two_pow_sub_one_eq_mod _ 3).trans (Nat.mod_eq_of_lt hsize)
    -- the Read ID of its own density finds its size code
    refine ⟨fun _ => 0, fun isMfm => if isMfm = s.isMfm then some s.sizeShift else none, s, ?_⟩
    cases hmfm : s.isMfm with
    | false =>
        refine ⟨setUp behind { s with isMfm := false, dmaTransferSize := 4#16 } s.sizeShift, rfl,
          rfl, rfl, hmask.symm, ?_⟩
        rw [heot, hmfm]
        show _ = (entryAt behind (entryPlace _ (s.sizeShift &&& 0b00000111#8) _)).eot
        rw [hmask]
    | true =>
        refine ⟨setUp behind { s with isMfm := true, dmaTransferSize := 4#16 } s.sizeShift, rfl,
          rfl, rfl, hmask.symm, ?_⟩
        rw [heot, hmfm]
        show _ = (entryAt behind (entryPlace _ (s.sizeShift &&& 0b00000111#8) _)).eot
        rw [hmask]

/-- The size of a track on a head, when it is read from sector 1 on. -/
def trackSize (s : RomState) (head : Nat) : Nat :=
  (if s.diskType &&& 0b10000000#8 ≠ 0 ∧ head = 1 then 10 else s.eot.toNat) *
    (128 * 2 ^ s.sizeShift.toNat) % 65536

theorem calcSize_toNat (hsector : s.sector = 1#8) (hsize : s.sizeShift.toNat < 8) :
    (calcSizeOfCurrentTrack s).dmaTransferSize.toNat = trackSize s s.head.toNat := by
  have hshift : (7#8 + s.sizeShift).toNat = 7 + s.sizeShift.toNat := by
    rw [BitVec.toNat_add]
    exact Nat.mod_eq_of_lt (by simp only [BitVec.toNat_ofNat]; omega)
  have hsectors : (sectors s).toNat =
      if s.diskType &&& 0b10000000#8 ≠ 0 ∧ s.head.toNat = 1 then 10 else s.eot.toNat := by
    have hhead : s.head.toNat = 1 ↔ s.head = 1#8 := @BitVec.toNat_inj 8 s.head 1#8
    rw [sectors, hsector, BitVec.sub_add_cancel, apply_ite BitVec.toNat]
    simp only [hhead]
    rfl
  have hwide : ((sectors s).setWidth 16).toNat = (sectors s).toNat := by
    have := (sectors s).isLt
    rw [BitVec.toNat_setWidth]
    omega
  show (doubled _ _).toNat = _
  rw [toNat_doubled, hwide, hsectors, hshift, trackSize, Nat.pow_add]

/-- Where the table has the size code, and for MFM where sectors have 1024 bytes, all sizes are
in the range of signed words. -/
theorem trackSize_range (hdetected : Detected behind s)
    (hcode : s.sizeShift.toNat ≤ 2 ∨ (s.sizeShift.toNat = 3 ∧ s.isMfm = true)) (head : Nat) :
    0 < trackSize s head ∧ trackSize s head < 32768 := by
  obtain ⟨-, heot⟩ := detected_iff.mp hdetected
  have hentry : ∀ isMini isMfm : Bool, ∀ n < 4, n ≤ 2 ∨ (n = 3 ∧ isMfm = true) →
      ∃ entry, eotGap3Table.flatten.flatten[(isMini.toNat * 4 + n) * 2 + isMfm.toNat]? =
        some entry ∧ 0 < entry.eot.toNat * (128 * 2 ^ n) ∧
          entry.eot.toNat * (128 * 2 ^ n) < 32768 ∧ 10 * (128 * 2 ^ n) < 32768 := by
    decide
  obtain ⟨entry, hplace, hsome, hless, hten⟩ :=
    hentry s.isMini s.isMfm s.sizeShift.toNat (by omega) hcode
  have hsame : s.eot = entry.eot := by
    rw [heot, entryAt, entryPlace, hplace]
    rfl
  rw [trackSize, hsame]
  split
  · rw [Nat.mod_eq_of_lt (by omega)]
    have : 0 < 2 ^ s.sizeShift.toNat := Nat.two_pow_pos _
    omega
  · rw [Nat.mod_eq_of_lt (by omega)]
    exact ⟨hsome, hless⟩

end Autoload
end Rc700
