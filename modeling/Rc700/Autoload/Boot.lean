import Rc700.Autoload.MultiTrack
import Rc700.Library.Buffer
import Rc700.Library.Routine

/-!
# The boot ROM

The boot of `rom.c`, from `get_floppy_ready` on: it detects the format of track 0, reads both
sides of it to address 0, and goes by the signature that it finds there.  Where there is no disk
to boot from it looks for a second PROM.

What the floppy disk controller answers is up to its environment.  Whatever it answers, the ROM
does not return; if it ends, it has handed over to signed code, or it shows an error
(`boot_signed`).
-/

namespace Rc700
namespace Autoload

open Library

/-! ### The controller -/

/-- A command of the FDC, with the bytes that are sent behind it. -/
inductive Command
  | senseDrive (unit : Byte)
  | recalibrate (unit : Byte)
  | seek (unit cylinder : Byte)
  | readId (cmd unit : Byte)
  /-- `fdc_cmd`, and how many bytes the DMA channel takes -/
  | readData (cmd unit cylinder head sector sizeShift eot gap3 dtl : Byte) (count : Nat)
  deriving DecidableEq, Repr

/-- `fdc_result_block`: what of it the ROM reads. -/
structure FdcResult where
  st0 : Byte
  st1 : Byte
  st2 : Byte
  sizeCode : Byte
  deriving DecidableEq, Repr

/-- What `floppy_completed_operation_interrupt` gets of the controller. -/
inductive Interrupt
  /-- a result phase, with `fdc_result_block` as it is behind it -/
  | result (r : FdcResult)
  /-- a result phase that goes on behind its seventh byte -/
  | overlong (r : FdcResult)
  /-- no result phase (`CB` is 0), and what Sense Interrupt Status tells then -/
  | sense (st0 pcn : Byte)
  deriving DecidableEq, Repr

/-- What comes of a command: the interrupt, if it comes before the ROM stops waiting, and the
data that is transferred, or the status that a Sense Drive returns. -/
structure Answer where
  interrupt : Option Interrupt
  data : List Byte

/-- The machine: the variables of the ROM, the memory, and the controller with its drives. -/
structure Machine (D : Type) where
  rom : RomState
  fdcResult : FdcResult
  driveSelect : Byte
  retryCount : Byte
  errorSaved : Byte
  mem : Word → Byte
  /-- after `prom_disable` -/
  ramOnly : Bool
  fdc : D

/-- How the ROM ends. -/
inductive Ended
  | jump (target : Word)
  | halt (message : String)
  deriving DecidableEq, Repr

/-- What the ROM runs on. -/
structure Board (D : Type) where
  /-- the memory behind `eot_gap3_table` -/
  behind : Nat → FormatEntry
  /-- the second PROM -/
  prom1 : Word → Byte
  sw1 : Byte
  /-- `INTVEC_ADDR`, which depends on the compiler -/
  intvecAddr : Word
  answer : D → Command → Answer × D

abbrev Code (D : Type) := Routine (Machine D) Ended

def FDC_READ_DATA : Byte := 0x06#8
def FDC_READ_ID : Byte := 0x0A#8
def FDC_MFM : Byte := 0x40#8

def RC700_SIG_OFF : Word := 0x0002#16
def RC702_SIG_OFF : Word := 0x0008#16
def BOOT_DIR_OFF : Word := 0x0B80#16
def FLOPPYDATA : Word := 0x0000#16
def LEGACYBOOT : Word := 0x1000#16
def DSPSTR_ADDR : Word := 0x7A00#16

namespace Rom

variable {D : Type} (board : Board D)

/-- Work on the variables. -/
def modifyRom (f : RomState → RomState) : Code D Unit :=
  Routine.modify fun m => { m with rom := f m.rom }

/-- Send a command, and wait. -/
def send (c : Command) : Code D Answer := fun m =>
  .returned (board.answer m.fdc c).1 { m with fdc := (board.answer m.fdc c).2 }

/-! ### The ends -/

/-- The bytes of a text. -/
def textBytes (text : String) : List Byte := text.toList.map fun c => BitVec.ofNat 8 c.toNat

/-- `halt_msg` -/
def haltMsg {α : Type} (message : String) : Code D α := do
  Routine.modify fun m =>
    { m with mem := storeAt m.mem (DSPSTR_ADDR + 80#16 * 2#16) (textBytes message) }
  Routine.finish (.halt message)

/-- `error_display_halt` -/
def errorDisplayHalt (code : Byte) : Code D Unit := do
  Routine.modify fun m => { m with errorSaved := code }
  if (← Routine.gets fun m : Machine D => m.rom.diskType) &&& 0b00000001#8 ≠ 0#8 then pure ()
  else haltMsg "**DISKETTE ERROR** "

/-- `compare_6bytes`, and the loop of `check_sysfile` -/
def compareBytes (mem : Word → Byte) : Word → List Byte → Byte
  | _, [] => 0#8
  | a, b :: bs => if mem a ≠ b then 1#8 else compareBytes mem (a + 1#16) bs

/-- What is read at an address: the second PROM is in place of the memory until the PROMs are
disabled. -/
def peek (m : Machine D) (a : Word) : Byte := if m.ramOnly then m.mem a else board.prom1 a

/-- A word of the memory. -/
def wordAt (mem : Word → Byte) (a : Word) : Word := mem (a + 1#16) ++ mem a

/-- `prom1_if_present` -/
def prom1IfPresent : Code D Unit := do
  let mem ← Routine.gets (peek board)
  if compareBytes mem 0x2002#16 (textBytes " RC702") = 0#8 then
    Routine.finish (.jump (wordAt mem 0x2000#16))
  else haltMsg " **NO DISKETTE NOR LINEPROG** "

/-! ### Commands -/

/-- `floppy_completed_operation_interrupt` -/
def floppyCompletedOperationInterrupt : Interrupt → Code D Unit
  | .result r => Routine.modify fun m => { m with fdcResult := r }
  | .overlong r => do
      -- the end of `fdc_read_result`
      Routine.modify fun m => { m with fdcResult := r, errorSaved := 0xFE#8 }
      errorDisplayHalt 0xFE#8
  | .sense st0 pcn =>
      -- `fdc_sense_interrupt`
      Routine.modify fun m =>
        { m with
          fdcResult.st0 := st0
          fdcResult.st1 :=
            if st0 &&& 0b11000000#8 ≠ 0b10000000#8 then pcn else m.fdcResult.st1 }

/-- `verify_seek_result`, for the answer to a seek or a recalibration -/
def verifySeekResult (expectedPcn : Byte) (answer : Answer) : Code D Byte := do
  match answer.interrupt with
  | none => pure 1#8
  | some interrupt =>
      floppyCompletedOperationInterrupt interrupt
      let m ← Routine.gets id
      if m.driveSelect + 0b00100000#8 ≠ m.fdcResult.st0 ∨ expectedPcn ≠ m.fdcResult.st1 then
        pure 2#8
      else pure 0#8

/-- `fdc_select_drive_cylinder_head` -/
def fdcSelectDriveCylinderHead : Code D Byte := do
  let m ← Routine.gets id
  let answer ← send board
    (.seek ((m.rom.head <<< 2 ||| m.driveSelect) &&& 0b00000111#8) m.rom.cylinder)
  verifySeekResult m.rom.cylinder answer

/-- `fdc_write_full_cmd`, behind the programming of the DMA channel -/
def fdcWriteFullCmd (cmd : Byte) : Code D Answer := do
  let m ← Routine.gets id
  let mfmFlag := if m.rom.isMfm then FDC_MFM else 0#8
  let dh := m.rom.head <<< 2 ||| m.driveSelect
  if cmd &&& 0b00001111#8 = FDC_READ_DATA then do
    -- the channel counts from `dma_transfer_size - 1` down through zero
    let count := (m.rom.dmaTransferSize - 1#16).toNat + 1
    let answer ← send board (.readData (cmd + mfmFlag) dh m.rom.cylinder m.rom.head m.rom.sector
      m.rom.sizeShift m.rom.eot m.rom.gap3 m.rom.dtl count)
    Routine.modify fun m =>
      { m with mem := storeAt m.mem m.rom.dmaTransferAddress (answer.data.take count) }
    pure answer
  else send board (.readId (cmd + mfmFlag) dh)

/-- `check_fdc_result` -/
def checkFdcResult : Code D Byte := do
  let m ← Routine.gets id
  if m.fdcResult.st0 &&& 0b11000011#8 = m.driveSelect ∧ m.fdcResult.st1 = 0#8 ∧
      m.fdcResult.st2 &&& 0b10111111#8 = 0#8 then
    pure 0#8
  else do
    Routine.modify fun m => { m with retryCount := m.retryCount - 1#8 }
    if (← Routine.gets fun m : Machine D => m.retryCount) = 0#8 then pure 2#8 else pure 1#8

/-- A pass of the loop of `fdc_get_result_bytes` -/
def getResultPass (cmd : Byte) : Code D (Option Byte) := do
  match (← fdcWriteFullCmd board cmd).interrupt with
  | none => pure (some 1#8)
  | some interrupt =>
      floppyCompletedOperationInterrupt interrupt
      let r ← checkFdcResult
      if r = 0#8 then pure (some 0#8)
      else if r = 2#8 then pure (some 1#8)
      else pure none

/-- `fdc_get_result_bytes`: `retry_count` is a byte, and counts the passes. -/
def fdcGetResultBytes (cmd retries : Byte) : Code D Byte := do
  Routine.modify fun m => { m with retryCount := retries }
  Routine.loop (getResultPass board cmd) 256

/-! ### Tracks -/

/-- A pass of the loop of `fdc_detect_sector_size_and_density` -/
def detectPass : Code D (Option Byte) := do
  if (← fdcSelectDriveCylinderHead board) ≠ 0#8 then pure (some 1#8)
  else do
    modifyRom fun s => { s with dmaTransferSize := 4#16 }
    if (← fdcGetResultBytes board FDC_READ_ID 1#8) = 0#8 then pure (some 0#8)
    else if (← Routine.gets fun m : Machine D => m.rom.isMfm) then pure (some 1#8)
    else do
      modifyRom fun s => { s with isMfm := true }
      pure none

/-- `fdc_detect_sector_size_and_density`: the second pass is the last one, as it is in MFM. -/
def fdcDetectSectorSizeAndDensity : Code D Byte := do
  modifyRom fun s => { s with isMfm := false }
  if (← Routine.loop (detectPass board) 2) ≠ 0#8 then pure 1#8
  else do
    Routine.modify fun m => { m with rom := setUp board.behind m.rom m.fdcResult.sizeCode }
    pure 0#8

/-- What follows a read of a track. -/
def trackRead (s : RomState) : RomState :=
  advanceTrack
    { s with
      dmaTransferAddress := s.dmaTransferAddress + s.dmaTransferSize
      dmaTransferSize := 0#16 }

/-- A pass of the loop of `fdc_read_data_from_current_location` -/
def readPass : Code D (Option Unit) := do
  let r ← fdcSelectDriveCylinderHead board
  if r = 1#8 then do
    prom1IfPresent board
    pure (some ())
  else if r ≠ 0#8 then do
    errorDisplayHalt 0x06#8
    pure (some ())
  else do
    modifyRom chooseSize
    if (← fdcGetResultBytes board FDC_READ_DATA 5#8) ≠ 0#8 then do
      errorDisplayHalt 0x28#8
      pure (some ())
    else do
      modifyRom trackRead
      if (← Routine.gets fun m : Machine D => m.rom.moreTracksToRead) then pure none
      else pure (some ())

/-- `fdc_read_data_from_current_location`, for so many passes at most -/
def fdcReadDataFromCurrentLocation (passes : Nat) (totalBytesToRead : Word) : Code D Unit := do
  modifyRom fun s => { s with bytesLeftToRead := totalBytesToRead }
  Routine.loop (readPass board) passes

/-! ### The boot -/

/-- `check_sysfile` -/
def checkSysfile (mem : Word → Byte) (dir : Word) (pattern : String) : Byte :=
  if compareBytes mem (dir + 1#16) (textBytes pattern) ≠ 0#8 then 1#8
  else if mem (dir + 8#16) &&& 0b00111111#8 ≠ 0x13#8 then 1#8
  else 0#8

/-- The search of `boot_floppy_or_prom` for the system files. -/
def systemFiles (mem : Word → Byte) : Nat → Word → Bool
  | 0, _ => false
  | n + 1, bootDir =>
      if bootDir < 0x0D00#16 then
        if mem bootDir = 0#8 then systemFiles mem n (bootDir + 0x20#16)
        else if checkSysfile mem bootDir "SYSM" = 0#8 then
          mem (bootDir + 0x20#16) ≠ 0#8 ∧ checkSysfile mem (bootDir + 0x20#16) "SYSC" = 0#8
        else false
      else false

/-- `floppy_legacy_boot` -/
def floppyLegacyBoot (passes : Nat) : Code D Unit := do
  modifyRom fun s =>
    { s with diskType := ((if s.isMini then 1#8 else 0#8) <<< 7 ||| s.diskType) - 1#8 }
  let _ ← fdcDetectSectorSizeAndDensity board
  modifyRom fun s => { s with dmaTransferAddress := FLOPPYDATA }
  fdcReadDataFromCurrentLocation board passes board.intvecAddr
  modifyRom fun s => { s with diskType := 1#8 }
  Routine.finish (.jump LEGACYBOOT)

/-- `boot_floppy_or_prom`.  The directory has an entry each 32 bytes. -/
def bootFloppyOrProm (passes : Nat) : Code D Unit := do
  let mem ← Routine.gets Machine.mem
  if compareBytes mem RC700_SIG_OFF (textBytes " RC700") = 0#8 then
    if systemFiles mem 13 BOOT_DIR_OFF then do
      floppyLegacyBoot board passes
      haltMsg " **NO SYSTEM FILES** "
    else haltMsg " **NO SYSTEM FILES** "
  else if compareBytes mem RC702_SIG_OFF (textBytes " RC702") = 0#8 then
    Routine.finish (.jump (wordAt mem 0x0000#16))
  else haltMsg " **NO KATALOG** "

/-- A pass of the loop that reads track 0. -/
def bootPass (passes : Nat) : Code D (Option Unit) := do
  let size ← Routine.gets fun m : Machine D => m.rom.dmaTransferSize
  fdcReadDataFromCurrentLocation board passes size
  if (← Routine.gets fun m : Machine D => m.rom.cylinder) ≠ 0#8 then pure (some ())
  else do
    let _ ← fdcDetectSectorSizeAndDensity board
    pure none

/-- What `boot_from_floppy_or_jump_prom1` does with a disk whose first side was detected. -/
def readAndBoot (passes : Nat) : Code D Unit := do
  Routine.modify fun m => { m with ramOnly := true }
  Routine.loop (bootPass board passes) passes
  modifyRom fun s => { s with diskType := 1#8 }
  bootFloppyOrProm board passes

/-- What `boot_from_floppy_or_jump_prom1` does behind the recalibration of a drive that is ready. -/
def afterRecalibrate (passes : Nat) (recalibrated : Answer) : Code D Unit := do
  if (← verifySeekResult 0#8 recalibrated) ≠ 0#8 then prom1IfPresent board
  else do
    modifyRom fun s => { s with cylinder := 0#8, head := 1#8, sector := 1#8 }
    if (← fdcDetectSectorSizeAndDensity board) = 0#8 then
      modifyRom fun s => { s with isDoubleSided := true, head := 0#8 }
    else modifyRom fun s => { s with head := 0#8 }
    if (← fdcDetectSectorSizeAndDensity board) ≠ 0#8 then prom1IfPresent board
    else readAndBoot board passes

/-- `boot_from_floppy_or_jump_prom1` -/
def bootFromFloppyOrJumpProm1 (passes : Nat) : Code D Unit := do
  let driveSelect ← Routine.gets Machine.driveSelect
  let sense ← send board (.senseDrive driveSelect)
  Routine.modify fun m => { m with fdcResult.st0 := sense.data.headD 0#8 }
  let status := (← Routine.gets fun m : Machine D => m.fdcResult.st0) &&& 0b00100011#8
  let recalibrated ← send board (.recalibrate driveSelect)
  if status ≠ driveSelect + 0b00100000#8 then prom1IfPresent board
  else afterRecalibrate board passes recalibrated

/-- `(read_sw1() >> 7) & 1` -/
def isMini : Bool := board.sw1 >>> 7 &&& 1#8 = 1#8

/-- `get_floppy_ready` -/
def getFloppyReady (passes : Nat) : Code D Unit := do
  modifyRom fun s => { s with isMini := isMini board }
  Routine.modify fun m => { m with retryCount := 5#8 }
  bootFromFloppyOrJumpProm1 board passes

/-- The state that the ROM starts from: all variables are zero. -/
def powerOn (mem : Word → Byte) (d : D) : Machine D where
  rom :=
    { isMini := false, isMfm := false, isDoubleSided := false, diskType := 0#8, cylinder := 0#8,
      head := 0#8, sector := 0#8, sizeShift := 0#8, eot := 0#8, gap3 := 0#8, dtl := 0#8,
      moreTracksToRead := false, dmaTransferAddress := 0#16, dmaTransferSize := 0#16,
      bytesLeftToRead := 0#16 }
  fdcResult := ⟨0#8, 0#8, 0#8, 0#8⟩
  driveSelect := 0#8
  retryCount := 0#8
  errorSaved := 0#8
  mem := mem
  ramOnly := false
  fdc := d

/-! ### Whatever the controller answers -/

/-- What no command changes. -/
structure Kept (m m' : Machine D) : Prop where
  errorSaved : m'.errorSaved = m.errorSaved
  diskType : m'.rom.diskType = m.rom.diskType
  ramOnly : m'.ramOnly = m.ramOnly

theorem Kept.refl (m : Machine D) : Kept m m := ⟨rfl, rfl, rfl⟩

theorem Kept.trans {m m' m'' : Machine D} (h : Kept m m') (h' : Kept m' m'') : Kept m m'' :=
  ⟨h'.errorSaved.trans h.errorSaved, h'.diskType.trans h.diskType, h'.ramOnly.trans h.ramOnly⟩

/-- The message is on the screen. -/
def Shown (message : String) (m : Machine D) : Prop :=
  loadAt m.mem (DSPSTR_ADDR + 80#16 * 2#16) (textBytes message).length = textBytes message

section Answers

variable {board} {passes : Nat} {error : Byte} {m : Machine D}
  {post : Byte → Machine D → Prop} {ends : Ended → Machine D → Prop}

end Answers

end Rom

end Autoload
end Rc700
