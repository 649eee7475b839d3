import Rc700.Disk.Calls
import Rc700.Library.Run

/-!
# Selecting a drive

`bios_hw_init` takes the drive-format table of the configuration block, counts its drives
up to the first `0xFF` and initialises two disk parameter headers.  `SELDSK` checks a drive
against that count and not against the number of headers, so that the third drive of a
table, which the shipped one has, is selected outside `dph_table`
(`seldsk_inside_iff`).
-/

namespace Rc700
namespace Disk

open Library

/-! ### The drive table -/

/-- `fd0`, with the terminator that follows it. -/
def fd0Of (infd : Fin 16 → Byte) (d : Nat) : Nat :=
  if h : d < 16 then (infd ⟨d, h⟩).toNat else 0xFF

/-- The loop that counts the configured drives, for the `n` drives from `d` on. -/
def countDrives (fd0 : Nat → Nat) : Nat → Nat → Nat → Nat
  | 0, _, maxDriveNum => maxDriveNum
  | n + 1, d, maxDriveNum => if fd0 d = 0xFF then maxDriveNum else countDrives fd0 n (d + 1) d

/-- The table that `bios_hw_init` sets up from the configuration block. -/
def driveTable (infd : Fin 16 → Byte) : DriveTable where
  fd0 := fd0Of infd
  maxDriveNum := countDrives (fd0Of infd) 16 0 0

/-- The table of `boot_confi.c`: two maxi floppies and a hard disk. -/
def shippedTable : Fin 16 → Byte
  | 0 => 0x08#8
  | 1 => 0x08#8
  | 2 => 0x20#8
  | _ => 0xFF#8

/-! ### One call -/

/-- The machine before and after agree but for the driver's format variables and the
`dpb` fields of `dph_table`. -/
def OnlyFormat (m m' : Machine) : Prop :=
  m' = { m with
    cpmDisk := m'.cpmDisk
    currentFormatIdx := m'.currentFormatIdx
    currentFormat := m'.currentFormat
    track0SectorsPerSide := m'.track0SectorsPerSide
    sp := m'.sp
    dphDpb := m'.dphDpb } ∧
  ∀ d, 2 ≤ d → m'.dphDpb d = m.dphDpb d

/-- A call returns null and changes nothing, or an element of `dph_table` that `initial` has
initialised, and writes nothing but that and the format variables. -/
def SeldskInside (initial : Machine) (table : DriveTable) (fdc : Nat → Attempt) (m : Machine)
    (drive : Byte) : Prop :=
  match biosSeldskC table fdc drive.toNat m with
  | (m', none) => m' = m
  | (m', some entry) => entry < 2 ∧ initial.dphDpb entry ≠ none ∧ OnlyFormat m m'

/-- `SELDSK` as a step. -/
def seldsk (table : DriveTable) (fdc : Nat → Attempt) (m : Machine) (drive : Byte) : Machine :=
  (biosSeldskC table fdc drive.toNat m).1

variable {table : DriveTable} {fdc : Nat → Attempt} {m : Machine} {drive : Byte}

theorem biosSeldskC_invalid {drive : Nat} (hdrive : table.maxDriveNum < drive) :
    biosSeldskC table fdc drive m = (m, none) := by
  unfold biosSeldskC
  rw [if_pos hdrive]

/-- With a clean buffer there is nothing to flush. -/
theorem biosSeldskC_valid {drive : Nat} (hdrive : drive ≤ table.maxDriveNum)
    (hclean : m.hostbufDirty = false) :
    biosSeldskC table fdc drive m = (selectDrive table drive m, some drive) := by
  unfold biosSeldskC
  rw [if_neg (Nat.not_lt.mpr hdrive)]
  have hkeep : ¬(table.fd0 drive ≠ { m with cpmDisk := drive }.currentFormatIdx ∧
      { m with cpmDisk := drive }.hostbufDirty = true) := by
    rintro ⟨-, hdirty⟩
    exact Bool.false_ne_true (hclean.symm.trans hdirty)
  simp only [if_neg hkeep]
  rfl

theorem seldsk_clean (hclean : m.hostbufDirty = false) :
    (seldsk table fdc m drive).hostbufDirty = false := by
  unfold seldsk
  by_cases hdrive : table.maxDriveNum < drive.toNat
  · rw [biosSeldskC_invalid hdrive]
    exact hclean
  · rw [biosSeldskC_valid (Nat.not_lt.mp hdrive) hclean]
    exact hclean

theorem selectDrive_onlyFormat {drive : Nat} (hdrive : drive < 2) :
    OnlyFormat m (selectDrive table drive m) := by
  refine ⟨rfl, fun d hd => ?_⟩
  exact Function.update_of_ne (by omega) _ _

/-- A call stays inside for the drives that have a header, and those that are refused. -/
theorem seldskInside_iff {mem : Word → Byte} {disk : Chs → Nat → Byte}
    (hclean : m.hostbufDirty = false) :
    SeldskInside (biosHwInit table mem disk) table fdc m drive ↔
      drive.toNat < 2 ∨ table.maxDriveNum < drive.toNat := by
  unfold SeldskInside
  by_cases hdrive : table.maxDriveNum < drive.toNat
  · rw [biosSeldskC_invalid hdrive]
    exact iff_of_true rfl (.inr hdrive)
  · rw [biosSeldskC_valid (Nat.not_lt.mp hdrive) hclean]
    simp only [hdrive, or_false]
    constructor
    · exact fun hinside => hinside.1
    · intro hlow
      refine ⟨hlow, ?_, selectDrive_onlyFormat hlow⟩
      -- the second header is initialised where the table lists a second drive
      have hinit : drive.toNat = 0 ∨ (drive.toNat = 1 ∧ 1 ≤ table.maxDriveNum) := by omega
      show (if _ then some dpbMaxi512 else none) ≠ none
      rw [if_pos hinit]
      exact nofun

/-! ### Sequences of calls -/

theorem everyStep_seldsk_iff {initial : Machine} {inside : Byte → Prop}
    (hstep : ∀ m, m.hostbufDirty = false → ∀ drive,
      SeldskInside initial table fdc m drive ↔ inside drive)
    (drives : List Byte) (hclean : m.hostbufDirty = false) :
    EveryStep (seldsk table fdc) (SeldskInside initial table fdc) m drives ↔
      ∀ drive ∈ drives, inside drive := by
  induction drives generalizing m with
  | nil => exact iff_of_true trivial fun _ hmem => absurd hmem List.not_mem_nil
  | cons drive drives ih =>
      rw [EveryStep, hstep m hclean drive, ih (seldsk_clean hclean), List.forall_mem_cons]

/-- **When `SELDSK` stays inside the table of headers.**  For every drive-format table and
every sequence of calls after the initialisation: every call is refused, or returns an
initialised element of `dph_table` and writes nothing else, if and only if every drive is one
of the first two or is beyond the drives of the table. -/
theorem seldsk_inside_iff (infd : Fin 16 → Byte) (fdc : Nat → Attempt) (mem : Word → Byte)
    (disk : Chs → Nat → Byte) (drives : List Byte) :
    let initial := biosHwInit (driveTable infd) mem disk
    EveryStep (seldsk (driveTable infd) fdc) (SeldskInside initial (driveTable infd) fdc) initial
        drives ↔
      ∀ drive ∈ drives, drive.toNat < 2 ∨ (driveTable infd).maxDriveNum < drive.toNat :=
  everyStep_seldsk_iff (fun _ hclean _ => seldskInside_iff hclean) drives rfl

/-- With the shipped table, drive C is selected outside the table of headers. -/
theorem seldsk_outside : ¬∀ infd fdc mem disk drives,
    EveryStep (seldsk (driveTable infd) fdc)
      (SeldskInside (biosHwInit (driveTable infd) mem disk) (driveTable infd) fdc)
      (biosHwInit (driveTable infd) mem disk) drives := by
  intro hinside
  have hcalls := hinside shippedTable (fun _ => ⟨0#8, fun _ => 0#8⟩) (fun _ => 0#8)
    (fun _ _ => 0#8) [2#8]
  have hlow := (everyStep_seldsk_iff (fun _ hclean _ => seldskInside_iff hclean) _ rfl).mp
    hcalls 2#8 (List.mem_singleton_self _)
  -- the table counts drives up to 2
  revert hlow
  decide

end Disk
end Rc700
