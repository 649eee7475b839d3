import Rc700.Bdos.FileCalls
import Rc700.Disk.WarmBoot

/-!
# The file system: on the disk driver

The BDOS calls the disk entries of `bios.c`, as they are modelled in `Rc700.Disk`, with the
parameters of the drive's format.  On fault-free drives they do what the BDOS relies on
(`driver_works`), in every state of the host buffer and of the run of writes without pre-read:
the records of a block that a write of type 2 opens are undefined, and the BDOS asks for no more.
What the file system says of its volume is so on the disk after the final flush
(`files_on_disk`).
-/

namespace Rc700
namespace Disk

open Library

variable {table : DriveTable} {fdc : Nat → Attempt} {base : Rec → Option Record} {m : Machine}

/-- A write succeeds, and the store has the record. -/
theorem write_stores (hfdc : FaultFree fdc) (hm : Transparent table base m) {wt : WriteType}
    (hc : Addressed table m (.write wt)) (hstays : StaysInBlock table m wt) :
    (xwrite fdc wt (noteWrite wt m)).2 = 0 ∧
      contents table base (biosWrite fdc wt m).log =
        writeRecord (contents table base (noteWrite wt m).log) m.request m.dmaRecord := by
  have hafter : Transparent table base (biosWrite fdc wt m) := by
    refine call_transparent hfdc (c := .write wt) hc (fun wt' h => ?_) hm
    cases h
    exact hstays
  obtain ⟨code, rest, hlog, hcalls, -⟩ := biosWrite_answered fdc hm.inv hc.1 hc.2 hstays
  have hentry : (biosWrite fdc wt m).log =
      .writeDone m.request wt m.dmaRecord (xwrite fdc wt (noteWrite wt m)).2 ::
        (xwrite fdc wt (noteWrite wt m)).1.log := rfl
  have hrest : rest = (xwrite fdc wt (noteWrite wt m)).1.log := by
    rw [hlog] at hentry
    exact (List.cons.inj hentry).2
  have hnoted : (noteWrite wt m).log.filter Event.isCall = rest.filter Event.isCall := by
    rw [hcalls]
    rfl
  have hsame : contents table base (xwrite fdc wt (noteWrite wt m)).1.log =
      contents table base (noteWrite wt m).log := by
    rw [← hrest, ← contents_filter, ← hnoted, contents_filter]
  have hfaithful := hafter.faithful
  rw [hentry] at hfaithful ⊢
  exact ⟨hfaithful.1, congrArg (fun want => writeRecord want m.request m.dmaRecord) hsame⟩

theorem biosHome_request (fdc : Nat → Attempt) (m : Machine) :
    (biosHome fdc m).request = m.request := by
  unfold biosHome
  split
  · obtain ⟨n, disk, heq, -⟩ := wrthst_eq fdc m
    rw [heq]
    rfl
  · rfl

/-- The program puts a record at the DMA address. -/
def Machine.fill (x : Record) (m : Machine) : Machine :=
  { m with
    mem := fun addr =>
      let i := (addr - m.cpmDmaAddr).toNat
      if h : i < 128 then x ⟨i, h⟩ else m.mem addr }

theorem fill_dmaRecord (x : Record) (m : Machine) : (m.fill x).dmaRecord = x := by
  funext i
  have hi : (m.cpmDmaAddr + BitVec.ofNat 16 i.val - m.cpmDmaAddr).toNat = i.val := by
    rw [BitVec.add_comm, BitVec.add_sub_cancel, BitVec.toNat_ofNat]
    exact Nat.mod_eq_of_lt (by omega)
  have hlt : (m.cpmDmaAddr + BitVec.ofNat 16 i.val - m.cpmDmaAddr).toNat < 128 :=
    hi.trans_lt i.isLt
  show (if h : (m.cpmDmaAddr + BitVec.ofNat 16 i.val - m.cpmDmaAddr).toNat < 128 then
    x ⟨_, h⟩ else _) = x i
  rw [dif_pos hlt]
  exact congrArg x (Fin.ext hi)

end Disk

namespace Bdos

open Library Disk

/-- `WRITE` looks at the types 1 and 2. -/
def writeType (wrtype : Byte) : WriteType :=
  if wrtype = 1#8 then .wrdir else if wrtype = 2#8 then .wrual else .wrall

/-- The entries of `bios.c`; `bios_sectran` leaves the sector as it is. -/
def driverBios (table : DriveTable) (fdc : Nat → Attempt) : Bios Machine where
  home m := call table fdc m .home
  settrk track m := call table fdc m (.settrk track)
  setsec sector m := call table fdc m (.setsec sector)
  sectran sector := sector
  read m := ((BitVec.ofNat 8 (xread fdc m).2, (biosRead fdc m).dmaRecord), call table fdc m .read)
  write wrtype x m :=
    (BitVec.ofNat 8
      (xwrite fdc (writeType wrtype) (noteWrite (writeType wrtype) (m.fill x))).2,
      call table fdc (m.fill x) (.write (writeType wrtype)))
  conin m := (0#8, m)

/-- The parameters of a drive. -/
def drivePar (table : DriveTable) (drive : Nat) : Dpb := dpbOf (table.format drive)

/-- Where a record is on the disk. -/
def recordOf (dpb : Dpb) (drive r : Nat) : Rec :=
  ⟨drive, r / dpb.sectpt.toNat + dpb.offset.toNat, r % dpb.sectpt.toNat⟩

/-- The drive is selected, and the driver has what is known of its records. -/
structure OnDriver (table : DriveTable) (base : Rec → Option Record) (drive : Nat) (m : Machine)
    (place : Word × Word) (store : Nat → Option Record) : Prop where
  steady : Steady table base m
  request : m.request = ⟨drive, place.1.toNat, place.2.toNat⟩
  known : ∀ r x, r < capacity (drivePar table drive) → store r = some x →
    contents table base m.log (recordOf (drivePar table drive) drive r) = some x

/-! ### Numbers and places -/

/-- The parameters of the two modules are of one drive. -/
theorem dpbOf_format (f : Fin 4) :
    (dpbOf f).sectpt.toNat = (fspa f).cpmSectorsPerTrack ∧
    (dpbOf f).offset.toNat = (fspa f).dpb.off ∧
    Bdos.blockRecords (dpbOf f) = Disk.blockRecords f ∧
    capacity (dpbOf f) ≤ (77 - (fspa f).dpb.off) * (fspa f).cpmSectorsPerTrack ∧
    0 < (fspa f).cpmSectorsPerTrack ∧ (fspa f).dpb.off < 77 := by
  obtain ⟨hspt, -, hoff⟩ := dpbOf_driver f
  refine ⟨hspt.trans (dpb_spt f), hoff, ?_⟩
  clear hspt hoff
  revert f
  decide

variable {table : DriveTable} {fdc : Nat → Attempt} {base : Rec → Option Record} {m : Machine}
  {drive r q : Nat}

theorem recordOf_legal (hdrive : drive < 2) (hr : r < capacity (drivePar table drive)) :
    (recordOf (drivePar table drive) drive r).Legal (table.format drive) := by
  obtain ⟨hspt, hoff, -, hcapacity, hpos, hsystem⟩ := dpbOf_format (table.format drive)
  unfold recordOf drivePar at *
  rw [hspt, hoff]
  have htrack : r / (fspa (table.format drive)).cpmSectorsPerTrack <
      77 - (fspa (table.format drive)).dpb.off :=
    Nat.div_lt_of_lt_mul (by rw [Nat.mul_comm]; omega)
  exact ⟨hdrive, by dsimp only; omega, Nat.mod_lt _ hpos⟩

theorem recordOf_inArea :
    (recordOf (drivePar table drive) drive r).InArea (table.format drive) := by
  obtain ⟨-, hoff, -⟩ := dpbOf_format (table.format drive)
  unfold recordOf drivePar Rec.InArea
  rw [hoff]
  exact Nat.le_add_left ..

/-- The driver counts records as the BDOS does. -/
theorem recordOf_index :
    (recordOf (drivePar table drive) drive r).index (table.format drive) = r := by
  obtain ⟨hspt, hoff, -⟩ := dpbOf_format (table.format drive)
  unfold recordOf drivePar Rec.index
  rw [hspt, hoff]
  dsimp only
  rw [Nat.add_sub_cancel]
  exact Nat.div_add_mod' r _

theorem recordOf_injective
    (heq : recordOf (drivePar table drive) drive q = recordOf (drivePar table drive) drive r) :
    q = r := by
  have hindex := congrArg (Rec.index (table.format drive)) heq
  rwa [recordOf_index, recordOf_index] at hindex

/-- Records of one block have numbers of one block. -/
theorem recordOf_sameBlock
    (hsame : SameBlock table (recordOf (drivePar table drive) drive r)
      (recordOf (drivePar table drive) drive q)) :
    q / Bdos.blockRecords (drivePar table drive) =
      r / Bdos.blockRecords (drivePar table drive) := by
  obtain ⟨-, -, hblock, -⟩ := dpbOf_format (table.format drive)
  have hindex := hsame.2.2.2
  have hdisk : (recordOf (drivePar table drive) drive r).disk = drive := rfl
  rw [hdisk, recordOf_index, recordOf_index] at hindex
  unfold drivePar
  rwa [hblock]

theorem recordOf_blockStart (haligned : r % Bdos.blockRecords (drivePar table drive) = 0) :
    BlockStart table (recordOf (drivePar table drive) drive r) := by
  obtain ⟨-, -, hblock, -⟩ := dpbOf_format (table.format drive)
  have hdisk : (recordOf (drivePar table drive) drive r).disk = drive := rfl
  unfold BlockStart
  rw [hdisk, recordOf_index, ← hblock]
  exact ⟨recordOf_inArea, haligned⟩

/-- The BIOS is told where the record is. -/
theorem address_driver (hr : r < capacity (drivePar table drive)) (hdrive : drive < 2) :
    (⟨drive, (address (driverBios table fdc) (drivePar table drive) r).1.toNat,
        (address (driverBios table fdc) (drivePar table drive) r).2.toNat⟩ : Rec) =
      recordOf (drivePar table drive) drive r := by
  obtain ⟨-, htrack, hsector⟩ := recordOf_legal hdrive hr
  have hspt := sectorsPerTrack_le (table.format drive)
  unfold recordOf at htrack hsector ⊢
  unfold address driverBios
  dsimp only at htrack hsector ⊢
  have hquotient : (BitVec.ofNat 16 (r / (drivePar table drive).sectpt.toNat)).toNat =
      r / (drivePar table drive).sectpt.toNat := by
    rw [BitVec.toNat_ofNat]
    exact Nat.mod_eq_of_lt ((Nat.le_add_right ..).trans_lt (htrack.trans (by decide)))
  have hsum : (BitVec.ofNat 16 (r / (drivePar table drive).sectpt.toNat) +
      (drivePar table drive).offset).toNat =
        r / (drivePar table drive).sectpt.toNat + (drivePar table drive).offset.toNat := by
    rw [BitVec.toNat_add, hquotient]
    exact Nat.mod_eq_of_lt (htrack.trans (by decide))
  have hmod : (BitVec.ofNat 16 (r % (drivePar table drive).sectpt.toNat)).toNat =
      r % (drivePar table drive).sectpt.toNat := by
    rw [BitVec.toNat_ofNat]
    exact Nat.mod_eq_of_lt (hsector.trans (hspt.trans_lt (by decide)))
  rw [hsum, hmod]

/-! ### What the BDOS relies on -/

namespace OnDriver

variable {place : Word × Word} {store : Nat → Option Record}

/-- A call that is no transfer. -/
theorem quiet (hfdc : FaultFree fdc) (h : OnDriver table base drive m place store) {c : Call}
    (hc : BlockAligned table m c) (hread : c ≠ .read) (hwrite : ∀ wt, c ≠ .write wt)
    {place' : Word × Word}
    (hrequest : (call table fdc m c).request = ⟨drive, place'.1.toNat, place'.2.toNat⟩) :
    OnDriver table base drive (call table fdc m c) place' store where
  steady := steady_call hfdc h.steady hc
  request := hrequest
  known := by
    rw [contents_quiet h.steady.transparent.inv.wf hc.addressed hread hwrite]
    exact h.known

theorem cpmDisk (h : OnDriver table base drive m place store) : m.cpmDisk = drive :=
  congrArg Rec.disk h.request

theorem disk_lt (h : OnDriver table base drive m place store) : drive < 2 :=
  h.cpmDisk ▸ h.steady.transparent.inv.wf.disk_lt

/-- At the address of a record it is the one that is asked for. -/
theorem at_record (hr : r < capacity (drivePar table drive))
    (h : OnDriver table base drive m (address (driverBios table fdc) (drivePar table drive) r)
      store) :
    m.request = recordOf (drivePar table drive) drive r ∧
      m.request.Legal (table.format m.cpmDisk) := by
  have hrequest := h.request.trans (address_driver hr h.disk_lt)
  refine ⟨hrequest, ?_⟩
  rw [hrequest, h.cpmDisk]
  exact recordOf_legal h.disk_lt hr

theorem read (hfdc : FaultFree fdc) {x : Record} (hr : r < capacity (drivePar table drive))
    (hx : store r = some x)
    (h : OnDriver table base drive m (address (driverBios table fdc) (drivePar table drive) r)
      store) :
    ((driverBios table fdc).read m).1 = (0#8, x) ∧
      OnDriver table base drive ((driverBios table fdc).read m).2
        (address (driverBios table fdc) (drivePar table drive) r) store := by
  obtain ⟨hrequest, hlegal⟩ := h.at_record hr
  obtain ⟨hcode, hstore, hdata⟩ := read_delivers hfdc h.steady.transparent hlegal
  have hframe := biosRead_frame fdc h.steady.transparent.inv.wf hlegal
  refine ⟨?_, steady_call hfdc (c := .read) h.steady hlegal, hframe.request.trans h.request, ?_⟩
  · refine Prod.ext (congrArg (BitVec.ofNat 8) hcode) (hdata x ?_)
    rw [hrequest]
    exact h.known r x hr hx
  · show ∀ q y, _ → _ → contents table base (biosRead fdc m).log _ = _
    rw [hstore]
    exact h.known

/-- What a write leaves of the store, and of the block it opens. -/
theorem known_written (h : OnDriver table base drive m place store) (wrtype : Byte) (x : Record)
    (hrequest : m.request = recordOf (drivePar table drive) drive r) {y : Record}
    (hq : q < capacity (drivePar table drive))
    (hy : written (drivePar table drive) wrtype store r x q = some y) :
    writeRecord (contents table base (noteWrite (writeType wrtype) m).log) m.request x
      (recordOf (drivePar table drive) drive q) = some y := by
  unfold written at hy
  unfold writeRecord
  rw [hrequest]
  by_cases hqr : q = r
  · rw [if_pos (congrArg _ hqr)]
    rwa [hqr, Function.update_self] at hy
  · rw [Function.update_of_ne hqr] at hy
    rw [if_neg fun heq => hqr (recordOf_injective heq)]
    split at hy
    · cases hy
    · next hother =>
      have hold := h.known q y hq hy
      by_cases htwo : wrtype = 2#8
      · -- another block stays as it is
        have hnote : contents table base (noteWrite (writeType wrtype) m).log =
            killBlock table (contents table base m.log) m.request := by
          rw [htwo]
          rfl
        rw [hnote, hrequest, killBlock,
          if_neg fun hsame => hother ⟨htwo, recordOf_sameBlock hsame⟩]
        exact hold
      · have hnote : contents table base (noteWrite (writeType wrtype) m).log =
            contents table base m.log := by
          unfold writeType
          rw [if_neg htwo]
          split <;> rfl
        rw [hnote]
        exact hold

theorem write (hfdc : FaultFree fdc) (wrtype : Byte) (x : Record)
    (hr : r < capacity (drivePar table drive))
    (haligned : wrtype = 2#8 → r % Bdos.blockRecords (drivePar table drive) = 0)
    (h : OnDriver table base drive m (address (driverBios table fdc) (drivePar table drive) r)
      store) :
    ((driverBios table fdc).write wrtype x m).1 = 0#8 ∧
      OnDriver table base drive ((driverBios table fdc).write wrtype x m).2
        (address (driverBios table fdc) (drivePar table drive) r)
        (written (drivePar table drive) wrtype store r x) := by
  have hfilled : OnDriver table base drive (m.fill x)
      (address (driverBios table fdc) (drivePar table drive) r) store :=
    h.quiet hfdc (c := .compute (m.fill x).mem) trivial (fun h => nomatch h)
      (fun _ h => nomatch h) h.request
  obtain ⟨hrequest, hlegal⟩ := hfilled.at_record hr
  have hopens : writeType wrtype = .wrual → wrtype = 2#8 := by
    unfold writeType
    split
    · exact nofun
    · split
      · exact fun _ => ‹_›
      · exact nofun
  have hc : BlockAligned table (m.fill x) (.write (writeType wrtype)) := by
    by_cases hwt : writeType wrtype = .wrual
    · rw [hwt]
      refine ⟨hlegal, ?_⟩
      rw [hrequest]
      exact recordOf_blockStart (haligned (hopens hwt))
    · have haddressed : Addressed table (m.fill x) (.write (writeType wrtype)) :=
        ⟨hlegal, fun heq => absurd heq hwt⟩
      generalize writeType wrtype = wt at hwt haddressed ⊢
      cases wt with
      | wrual => exact absurd rfl hwt
      | wrall => exact haddressed
      | wrdir => exact haddressed
  have htransparent := hfilled.steady.transparent
  have hstays : StaysInBlock table (m.fill x) (writeType wrtype) :=
    hfilled.steady.aligned.staysInBlock htransparent.inv
  obtain ⟨hcode, hstore⟩ := write_stores hfdc htransparent hc.addressed hstays
  have hsame := biosWrite_request fdc htransparent.inv hc.addressed.1 hc.addressed.2 hstays
  refine ⟨congrArg (BitVec.ofNat 8) hcode, steady_call hfdc hfilled.steady hc,
    hsame.trans hfilled.request, fun q y hq hy => ?_⟩
  show contents table base (biosWrite fdc (writeType wrtype) (m.fill x)).log _ = _
  rw [hstore, fill_dmaRecord]
  exact hfilled.known_written wrtype x hrequest hq hy

end OnDriver

/-- **The disk driver does what the BDOS relies on**, on a drive of any of the formats. -/
theorem driver_works (hfdc : FaultFree fdc) :
    Works (driverBios table fdc) (drivePar table drive) (OnDriver table base drive) where
  home {m place _} h := ⟨place, h.quiet hfdc (c := .home) trivial (fun h => nomatch h)
    (fun _ h => nomatch h) ((biosHome_request fdc m).trans h.request)⟩
  settrk track h := h.quiet hfdc (c := .settrk track) trivial
    (fun h => nomatch h) (fun _ h => nomatch h)
    (congrArg (fun q : Rec => (⟨q.disk, track.toNat, q.sector⟩ : Rec)) h.request)
  setsec sector h := h.quiet hfdc (c := .setsec sector) trivial
    (fun h => nomatch h) (fun _ h => nomatch h)
    (congrArg (fun q : Rec => (⟨q.disk, q.track, sector.toNat⟩ : Rec)) h.request)
  read hr hx h := h.read hfdc hr hx
  write wrtype x hr haligned h := h.write hfdc wrtype x hr haligned

/-! ### From boot -/

/-- The volume of a disk. -/
def volumeOn (table : DriveTable) (drive : Nat) (disk : Chs → Nat → Byte) : Volume where
  dir k i := recordAt table disk (recordOf (drivePar table drive) drive (k / dirrec))
    ⟨(fcblen * (k % dirrec) + i) % 128, Nat.mod_lt _ (Nat.zero_lt_succ 127)⟩
  data r := some (recordAt table disk (recordOf (drivePar table drive) drive r))

theorem volumeOn_store (table : DriveTable) (drive : Nat) (disk : Chs → Nat → Byte) (r : Nat) :
    (volumeOn table drive disk).store (drivePar table drive) r =
      some (recordAt table disk (recordOf (drivePar table drive) drive r)) := by
  unfold Volume.store
  split
  · refine congrArg some (funext fun i => ?_)
    have hi := i.isLt
    have hrecord : (dirrec * r + i.val / fcblen) / dirrec = r := by
      unfold dirrec fcblen
      omega
    have hplace : (fcblen * ((dirrec * r + i.val / fcblen) % dirrec) + i.val % fcblen) % 128 =
        i.val := by
      unfold dirrec fcblen
      omega
    show recordAt table disk (recordOf _ drive ((dirrec * r + i.val / fcblen) / dirrec))
      ⟨_, _⟩ = _
    rw [hrecord]
    exact congrArg _ (Fin.ext hplace)
  · rfl

/-- The BDOS after cold boot. -/
def booted (table : DriveTable) (fdc : Nat → Attempt) (mem : Word → Byte)
    (disk : Chs → Nat → Byte) : State Machine where
  io := ⟨boot table fdc mem disk, 0#16, 0#16, 0#16, .dmaad, fun _ => 0#8⟩
  tables := ⟨0#16, false, fun _ => 0#8, fun _ => 0#8⟩
  access := ⟨0#8, 0#16, 0#16, 0, fun _ => 0#8, 0#8⟩
  usrcode := 0#8
  lret := 0#8
  fcb := fun _ => 0#8
  data := fun _ => 0#8

/-- Drive A holds the volume of its disk. -/
theorem booted_ready (table : DriveTable) (fdc : Nat → Attempt) (mem : Word → Byte)
    (disk : Chs → Nat → Byte) :
    Ready (drivePar table 0) (OnDriver table (originals table disk) 0) (volumeOn table 0 disk)
      (booted table fdc mem disk) where
  holds := by
    refine ⟨(BitVec.ofNat 16 0, BitVec.ofNat 16 0), steady_boot table fdc mem disk, ?_,
      fun r x _ hx => ?_⟩
    · unfold booted boot biosSeldskC
      rw [if_neg (Nat.not_lt_zero _)]
      simp only
      rw [if_neg (by simp [biosHwInit])]
      rfl
    · rw [volumeOn_store] at hx
      show contents table _ (boot table fdc mem disk).log _ = _
      rw [boot_log]
      exact hx
  onTrack := (Nat.zero_mul _).symm
  dma := rfl
  rodsk := rfl

/-- **The file system on the disk.**  Drive A of any format holds a disk with a sound directory.
It is logged in, any calls are made that are allowed, and the host buffer is flushed: all of them
return, and the disk has the volume as the calls leave it, record for record. -/
theorem files_on_disk (table : DriveTable) {fdc : Nat → Attempt} (mem : Word → Byte)
    (disk : Chs → Nat → Byte) (hfdc : FaultFree fdc)
    (hsound : Sound (drivePar table 0) (volumeOn table 0 disk)) {calls : List FileCall}
    (hallowed : AllowedAll (drivePar table 0) (volumeOn table 0 disk) calls) :
    ∃ s', callAll (driverBios table fdc) (drivePar table 0) (.login :: calls)
        (booted table fdc mem disk) = .returned () s' ∧
      ∀ r x, r < capacity (drivePar table 0) →
        (afterAll (drivePar table 0) (volumeOn table 0 disk) calls).store (drivePar table 0) r =
          some x →
        recordAt table (flushBuffer fdc s'.io.drive).disk (recordOf (drivePar table 0) 0 r) =
          x := by
  have hworks : Works (driverBios table fdc) (drivePar table 0)
      (OnDriver table (originals table disk) 0) := driver_works hfdc
  have hvalid : (drivePar table 0).Valid := dpbOf_valid _
  have hreturns := Routine.returns_mono
    (initialize_returns hworks hvalid (booted_ready table fdc mem disk))
    fun _ _ hlogged => callAll_returns hworks hvalid ⟨hlogged.1, hlogged.2, hsound⟩ hallowed
  obtain ⟨_, s', hrun, hin⟩ := Routine.returns_iff.mp
    ((Routine.returns_bind _ _ _).mpr hreturns)
  obtain ⟨place, hholds⟩ := hin.mounted.holds
  refine ⟨s', hrun, fun r x hr hx => ?_⟩
  exact hholds.steady.transparent.flushed hfdc (recordOf_legal Nat.zero_lt_two hr)
    (hholds.known r x hr hx)

/-- A maxi disk that has just been formatted. -/
def formatted : Chs → Nat → Byte := fun _ _ => 0xE5#8

theorem formatted_sound : Sound (drivePar maxi512 0) (volumeOn maxi512 0 formatted) :=
  ⟨fun _ _ => .inl rfl, fun _ _ _ _ _ hnames => absurd rfl hnames.1,
    fun _ _ _ hnames => absurd rfl hnames.1⟩

/-- A file is made on it and gets another name, which is then in the first record of the
directory. -/
theorem files_on_disk_formatted : ∃ s',
    callAll (driverBios maxi512 reliable) (drivePar maxi512 0) [.login, .make fileA, .rename fileA]
        (booted maxi512 reliable (fun _ => 0#8) formatted) = .returned () s' ∧
      recordAt maxi512 (flushBuffer reliable s'.io.drive).disk ⟨0, 2, 0⟩ 0 = 0x00#8 ∧
      recordAt maxi512 (flushBuffer reliable s'.io.drive).disk ⟨0, 2, 0⟩ 1 = 0x42#8 := by
  have hname : NamesUser fileA := by
    unfold NamesUser
    decide
  have hallowed : AllowedAll (drivePar maxi512 0) (volumeOn maxi512 0 formatted)
      [.make fileA, .rename fileA] :=
    ⟨hname, ⟨hname, by decide +kernel⟩, trivial⟩
  obtain ⟨s', hrun, hdisk⟩ := files_on_disk maxi512 (fun _ => 0#8) formatted reliable_faultFree
    formatted_sound hallowed
  have hrecord := hdisk 0 _ (by decide) (if_pos (by decide))
  exact ⟨s', hrun, (congrFun hrecord 0).trans (by decide),
    (congrFun hrecord 1).trans (by decide)⟩

end Bdos
end Rc700
