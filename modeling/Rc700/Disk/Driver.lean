import Rc700.Disk.Format
import Rc700.Library.Word

/-!
# The floppy driver: blocking and deblocking

The disk entries of `rcbios-in-c/bios.c` as functions on an explicit machine
state: `chktrk`, `sec_rw` with its retry loop, `wrthst`, `rdhst`, the core
algorithm `rwoper`, and the entries `SELDSK`, `SETTRK`, `SETSEC`, `SETDMA`,
`HOME`, `READ` and `WRITE` above it.

The floppy controller is an array of host sectors.  Every attempt of `sec_rw`
consumes one `Attempt` of the controller: its status register 0, and what a
failed attempt leaves behind (in the sector for a write, in the buffer for a
read).  Head positioning is not part of the array: `last_seek_*` is kept, a
failed seek shows up as a failed transfer.

The memory of the calling program is separate from the driver's own data, so a
DMA area never overlaps the host buffer.

The log records, newest entry first, what the driver does with the host buffer
and with the disk, and what each call asked for and returned.
-/

namespace Rc700
namespace Disk

/-- The 128 bytes of a CP/M record. -/
abbrev Record := Fin 128 → Byte

/-- Write types passed to `WRITE`. -/
inductive WriteType
  | wrall
  | wrdir
  | wrual
  deriving DecidableEq, Repr

/-- What happened at the host buffer, on the disk and at the entry points. -/
inductive Event
  /-- The buffer was tagged with a host sector, with or without a pre-read. -/
  | tagged (host : HostSector) (preRead : Bool)
  /-- A host sector was read into the buffer. -/
  | fetched (host : HostSector) (data : Nat → Byte)
  /-- Reading a host sector into the buffer failed. -/
  | fetchFailed (host : HostSector)
  /-- The buffer was physically written to a host sector. -/
  | stored (host : HostSector) (data : Nat → Byte)
  /-- Writing a host sector failed. -/
  | storeFailed (host : HostSector)
  /-- The caller's record was copied into the buffer. -/
  | put (r : Rec) (data : Record)
  /-- `WRITE` was called. -/
  | writeCall (r : Rec) (wt : WriteType) (data : Record)
  /-- `WRITE` returned. -/
  | writeDone (r : Rec) (wt : WriteType) (data : Record) (code : Nat)
  /-- `READ` returned, leaving `data` in the DMA area. -/
  | readDone (r : Rec) (code : Nat) (data : Record)

/-- One attempt of the floppy controller: ST0, and the bytes a failed attempt
leaves behind. -/
structure Attempt where
  st0 : Byte
  junk : Nat → Byte

/-- `FDC_ST0_ANY_ERROR` -/
def fdcSt0AnyError : Byte := 0b11111000#8

/-- `FDC_ST0_NOT_READY` -/
def fdcSt0NotReady : Byte := 0b00001000#8

/-- The command completed normally. -/
def Attempt.ok (a : Attempt) : Bool := a.st0 &&& fdcSt0AnyError == 0#8

/-- The drive table: format codes and the highest configured drive. -/
structure DriveTable where
  fd0 : Nat → Nat
  maxDriveNum : Nat

/-- The format of a drive. -/
def DriveTable.format (table : DriveTable) (drive : Nat) : Fin 4 :=
  formatIndex (table.fd0 drive)

/-- The driver's variables, the caller's memory, the disks, the number of
controller attempts so far, and the log. -/
structure Machine where
  cpmDisk : Nat
  cpmTrack : Nat
  cpmSector : Nat
  cpmDmaAddr : Word
  /-- `hostbuf_disk`, `hostbuf_track`, `hostbuf_sector` -/
  hostbuf : HostSector
  hostbufValid : Bool
  hostbufDirty : Bool
  diskError : Bool
  lastSeekDisk : Nat
  lastSeekTrack : Nat
  cpmSectorAsHost : Nat
  unallocCount : Nat
  /-- `unalloc_disk`, `unalloc_track`, `unalloc_sector` -/
  unalloc : Rec
  unallocMask : Bool
  needPreRead : Bool
  isRead : Bool
  writeType : WriteType
  currentFormatIdx : Nat
  currentFormat : Fdf
  track0SectorsPerSide : Nat
  /-- Working copy of the selected format's parameter area. -/
  sp : Fspa
  /-- The `dpb` fields of `dph_table`. -/
  dphDpb : Nat → Option Dpb
  fdcUnitHead : Nat
  fdcTrack : Nat
  fdcSector : Nat
  hstbuf : Nat → Byte
  mem : Word → Byte
  disk : Chs → Nat → Byte
  attempts : Nat
  log : List Event

namespace Machine

/-- The record the next `READ` or `WRITE` addresses. -/
def request (m : Machine) : Rec := ⟨m.cpmDisk, m.cpmTrack, m.cpmSector⟩

/-- The 128 bytes at the DMA address. -/
def dmaRecord (m : Machine) : Record :=
  fun i => m.mem (m.cpmDmaAddr + BitVec.ofNat 16 i)

/-- Where the floppy controller was told to go. -/
def fdcTarget (m : Machine) : Chs :=
  ⟨m.fdcUnitHead % 4, m.fdcTrack, m.fdcUnitHead / 4 % 4, m.fdcSector⟩

end Machine

/-- The record in slot `k` of a host buffer or host sector. -/
def slotOf (buffer : Nat → Byte) (k : Nat) : Record :=
  fun i => buffer (k * 128 + i)

/-! ### Host transfers -/

/-- Track dispatch and sector translation; a seek is issued when the drive or
the track differs from the last one. -/
def chktrk (m : Machine) : Machine :=
  let sec := m.hostbuf.sector
  let ev := m.track0SectorsPerSide
  { m with
    fdcUnitHead := if ev ≤ sec then m.hostbuf.disk ||| 4 else m.hostbuf.disk
    fdcSector := m.sp.sectorXlate.getD (if ev ≤ sec then sec - ev else sec) 0
    fdcTrack := m.hostbuf.track % 256
    lastSeekDisk := m.hostbuf.disk
    lastSeekTrack := m.hostbuf.track }

/-- One command of the floppy controller: `dma_count + 1` bytes go from the
buffer to the sector or back, or the attempt's junk does. -/
def fdcCommand (a : Attempt) (dmaWrite : Bool) (m : Machine) : Machine :=
  let count := m.currentFormat.dmaCount
  if dmaWrite then
    let data := if a.ok then m.hstbuf else a.junk
    { m with
      attempts := m.attempts + 1
      disk := fun chs j =>
        if chs = m.fdcTarget ∧ j ≤ count then data j else m.disk chs j }
  else
    let data := if a.ok then m.disk m.fdcTarget else a.junk
    { m with
      attempts := m.attempts + 1
      hstbuf := fun j => if j ≤ count then data j else m.hstbuf j }

/-- The retry loop of `sec_rw`, counting `repet` down.  The boolean tells
whether an attempt completed normally.  The recalibration half way moves the
heads only. -/
def secRwLoop (fdc : Nat → Attempt) (dmaWrite : Bool) :
    Nat → Machine → Machine × Bool
  | 0, m => (m, false)
  | repet + 1, m =>
      let a := fdc m.attempts
      let m' := fdcCommand a dmaWrite m
      if a.ok then (m', true)
      else if a.st0 &&& fdcSt0NotReady ≠ 0#8 then (m', false)
      else secRwLoop fdc dmaWrite repet m'

/-- Sector read or write with retry. -/
def secRw (fdc : Nat → Attempt) (dmaWrite : Bool) (m : Machine) : Machine × Bool :=
  let (m', done) := secRwLoop fdc dmaWrite 10 m
  if done then (m', true)
  else ({ m' with hostbufValid := false, diskError := true }, false)

/-- Write the host buffer to disk. -/
def wrthst (fdc : Nat → Attempt) (m : Machine) : Machine :=
  let m := chktrk m
  let (m, done) := secRw fdc true { m with log := .stored m.hostbuf m.hstbuf :: m.log }
  { m with log := if done then m.log else .storeFailed m.hostbuf :: m.log }

/-- Read the host buffer from disk. -/
def rdhst (fdc : Nat → Attempt) (m : Machine) : Machine :=
  let m := if m.unallocMask then m else { m with unallocCount := 0 }
  let (m, done) := secRw fdc false (chktrk m)
  { m with
    log := (if done then .fetched m.hostbuf m.hstbuf else .fetchFailed m.hostbuf) :: m.log }

/-! ### The core blocking and deblocking algorithm -/

/-- A dirty buffer that does not match is flushed first. -/
def flushHost (fdc : Nat → Attempt) (m : Machine) : Machine :=
  if m.hostbufValid ∧ m.hostbufDirty then wrthst fdc m else m

/-- Tag the buffer with a host sector. -/
def tagHost (host : HostSector) (m : Machine) : Machine :=
  { m with
    hostbufValid := true
    hostbuf := host
    log := .tagged host m.needPreRead :: m.log }

/-- Fill the buffer, if a pre-read is needed. -/
def fillHost (fdc : Nat → Attempt) (m : Machine) : Machine :=
  { (if m.needPreRead then rdhst fdc m else m) with hostbufDirty := false }

/-- Compute the host sector of the request. -/
def locateHost (m : Machine) : Machine :=
  { m with cpmSectorAsHost := (m.cpmSector >>> (m.sp.deblockShift - 1)) % 256 }

/-- `rwoper` up to the label `match`: make the buffer hold the host sector of
the request. -/
def selectHost (fdc : Nat → Attempt) (m : Machine) : Machine :=
  let m := locateHost m
  let host : HostSector := ⟨m.cpmDisk, m.cpmTrack, m.cpmSectorAsHost⟩
  if m.hostbufValid ∧ host = m.hostbuf then m
  else fillHost fdc (tagHost host (flushHost fdc m))

/-- Offset of the request in the host buffer. -/
def Machine.bufferOffset (m : Machine) : Nat :=
  (m.cpmSector &&& m.sp.deblockMask) <<< 7

/-- Copy one record between the host buffer and the DMA area. -/
def moveRecord (m : Machine) : Machine :=
  if m.isRead then
    { m with
      mem := fun addr =>
        let i := (addr - m.cpmDmaAddr).toNat
        if i < 128 then m.hstbuf (m.bufferOffset + i) else m.mem addr }
  else
    { m with
      hostbufDirty := true
      hstbuf := fun j =>
        if m.bufferOffset ≤ j ∧ j < m.bufferOffset + 128 then
          m.mem (m.cpmDmaAddr + BitVec.ofNat 16 (j - m.bufferOffset))
        else m.hstbuf j
      log := .put m.request m.dmaRecord :: m.log }

/-- The rest of `rwoper`: error handling, immediate flush of directory
writes, and the returned error code. -/
def finish (fdc : Nat → Attempt) (m : Machine) : Machine × Nat :=
  let m := if m.diskError then { m with hostbufValid := false } else m
  let m :=
    if m.writeType = .wrdir ∧ m.diskError = false then
      wrthst fdc { m with hostbufDirty := false }
    else m
  ({ m with diskError := false }, if m.diskError then 1 else 0)

def rwoper (fdc : Nat → Attempt) (m : Machine) : Machine × Nat :=
  finish fdc (moveRecord (selectHost fdc m))

/-! ### Entry points -/

def xread (fdc : Nat → Attempt) (m : Machine) : Machine × Nat :=
  rwoper fdc { m with
    unallocCount := 0
    isRead := true
    needPreRead := true
    writeType := .wrual }

/-- Start of `xwrite`: a write to an unallocated block opens a run. -/
def openRun (wt : WriteType) (m : Machine) : Machine :=
  let m := { m with isRead := false, writeType := wt }
  if wt = .wrual then
    { m with unallocCount := m.sp.recordsPerAllocBlock, unalloc := m.request }
  else m

/-- The request continues the run of writes to an unallocated block. -/
def Machine.continuesRun (m : Machine) : Bool :=
  m.unallocCount ≠ 0 ∧ m.request = m.unalloc

/-- The record after `r` on a disk with `spt` records per track. -/
def Rec.succ (spt : Nat) (r : Rec) : Rec :=
  let sector := (r.sector + 1) % 65536
  if spt ≤ sector then ⟨r.disk, (r.track + 1) % 65536, 0⟩
  else ⟨r.disk, r.track, sector⟩

/-- Decide about the pre-read of a write and advance or end the run. -/
def stepRun (m : Machine) : Machine :=
  if m.continuesRun then
    { m with
      unallocCount := m.unallocCount - 1
      unalloc := m.unalloc.succ m.sp.cpmSectorsPerTrack
      needPreRead := false
      unallocMask := (m.cpmSector &&& m.sp.deblockMask) == m.sp.deblockMask }
  else
    { m with unallocCount := 0, needPreRead := m.sp.deblockMask != 0 }

def xwrite (fdc : Nat → Attempt) (wt : WriteType) (m : Machine) : Machine × Nat :=
  rwoper fdc (stepRun (openRun wt m))

def biosHome (fdc : Nat → Attempt) (m : Machine) : Machine :=
  let m := if m.hostbufDirty then wrthst fdc m else { m with hostbufValid := false }
  { m with
    fdcUnitHead := m.cpmDisk
    lastSeekDisk := m.cpmDisk
    lastSeekTrack := 0 }

/-- Select a drive.  The result is the entry of `dph_table`, or none for a
drive that is not configured. -/
def biosSeldskC (table : DriveTable) (fdc : Nat → Attempt) (drive : Nat)
    (m : Machine) : Machine × Option Nat :=
  if table.maxDriveNum < drive then (m, none)
  else
    let fmt := table.fd0 drive
    let m := { m with cpmDisk := drive }
    let m :=
      if fmt ≠ m.currentFormatIdx ∧ m.hostbufDirty then
        { wrthst fdc m with hostbufDirty := false }
      else m
    let idx := formatIndex fmt
    ({ m with
      currentFormatIdx := fmt
      currentFormat := fdf idx
      track0SectorsPerSide := (fdf idx).eot
      sp := fspa idx
      dphDpb := Function.update m.dphDpb drive (some (fspa idx).dpb) }, some drive)

/-! ### Calls and runs -/

/-- What a program can do to the disk system.  `compute` is the program's own
work between two calls: it may change its memory at will. -/
inductive Call
  | seldsk (drive : Byte)
  | settrk (track : Word)
  | setsec (sector : Word)
  | setdma (addr : Word)
  | home
  | read
  | write (wt : WriteType)
  | compute (mem : Word → Byte)

/-- `READ`, with its result in the log. -/
def biosRead (fdc : Nat → Attempt) (m : Machine) : Machine :=
  let (m', code) := xread fdc m
  { m' with log := .readDone m.request code m'.dmaRecord :: m'.log }

/-- Note the arguments of a `WRITE` in the log. -/
def noteWrite (wt : WriteType) (m : Machine) : Machine :=
  { m with log := .writeCall m.request wt m.dmaRecord :: m.log }

/-- `WRITE`, with its arguments and result in the log. -/
def biosWrite (fdc : Nat → Attempt) (wt : WriteType) (m : Machine) : Machine :=
  let (m', code) := xwrite fdc wt (noteWrite wt m)
  { m' with log := .writeDone m.request wt m.dmaRecord code :: m'.log }

def call (table : DriveTable) (fdc : Nat → Attempt) (m : Machine) : Call → Machine
  | .seldsk drive => (biosSeldskC table fdc drive.toNat m).1
  | .settrk track => { m with cpmTrack := track.toNat }
  | .setsec sector => { m with cpmSector := sector.toNat }
  | .setdma addr => { m with cpmDmaAddr := addr }
  | .home => biosHome fdc m
  | .read => biosRead fdc m
  | .write wt => biosWrite fdc wt m
  | .compute mem => { m with mem := mem }

def run (table : DriveTable) (fdc : Nat → Attempt) (m : Machine)
    (calls : List Call) : Machine :=
  calls.foldl (call table fdc) m

/-- The driver's variables after `bios_hw_init` over cleared memory. -/
def biosHwInit (table : DriveTable) (mem : Word → Byte) (disk : Chs → Nat → Byte) :
    Machine where
  cpmDisk := 0
  cpmTrack := 0
  cpmSector := 0
  cpmDmaAddr := 0#16
  hostbuf := ⟨0, 0, 0⟩
  hostbufValid := false
  hostbufDirty := false
  diskError := false
  lastSeekDisk := 0xFF
  lastSeekTrack := 0
  cpmSectorAsHost := 0
  unallocCount := 0
  unalloc := ⟨0, 0, 0⟩
  unallocMask := false
  needPreRead := false
  isRead := false
  writeType := .wrall
  currentFormatIdx := 0xFF
  currentFormat := ⟨0, 0, 0, 0, 0, 0, 0⟩
  track0SectorsPerSide := 0
  sp := ⟨⟨0, 0, 0⟩, 0, 0, 0, 0, [], 0, 0⟩
  dphDpb := fun d =>
    if d = 0 ∨ (d = 1 ∧ 1 ≤ table.maxDriveNum) then some dpbMaxi512 else none
  fdcUnitHead := 0
  fdcTrack := 0
  fdcSector := 0
  hstbuf := fun _ => 0#8
  mem := mem
  disk := disk
  attempts := 0
  log := []

/-- The state programs start from: cold boot selects drive A. -/
def boot (table : DriveTable) (fdc : Nat → Attempt) (mem : Word → Byte)
    (disk : Chs → Nat → Byte) : Machine :=
  (biosSeldskC table fdc 0 (biosHwInit table mem disk)).1

end Disk
end Rc700
