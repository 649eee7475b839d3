import Rc700.Disk.Transfer
import Rc700.Library.LineCache

/-!
# The host buffer as a one-line write-back cache

The host buffer, its tag and flags and the two disks form a one-line cache of
host sectors (`view`).  What the driver owes its caller is a partial map from
records to contents; `demandOf` spreads such a map over host sectors and slots.

The lemmas of this module follow one call through the driver and are about an
arbitrary controller.  They all have the same shape: as long as the error flag
stays clear, every transfer was done and coherence with the caller's map is
kept.  What is assumed of the drive table and of the requests is collected in
`Wf`, which no failure can break.
-/

namespace Rc700
namespace Disk

open Library

/-- The cache formed by the host buffer and the disks. -/
def view (table : DriveTable) (m : Machine) : LineCache HostSector Nat Record where
  valid := m.hostbufValid
  dirty := m.hostbufDirty
  tag := m.hostbuf
  line := slotOf m.hstbuf
  store := fun host k => slotOf (m.disk (host.chs (table.format host.disk))) k

/-- What is demanded of the slots of host sectors, given what is demanded of
records. -/
def demandOf (table : DriveTable) (want : Rec → Option Record) :
    HostSector → Nat → Option Record :=
  fun host k =>
    if host.Legal (table.format host.disk) ∧ k < slots (table.format host.disk) then
      want (host.record (table.format host.disk) k)
    else none

/-- The machine presents the records `want`. -/
abbrev Presents (table : DriveTable) (want : Rec → Option Record) (m : Machine) :
    Prop :=
  LineCache.Coherent (demandOf table want) (view table m)

/-- What holds of the driver's variables between any two steps. -/
structure Wf (table : DriveTable) (m : Machine) : Prop where
  disk_lt : m.cpmDisk < 2
  selected : Selected (table.format m.cpmDisk) m
  formatIdx : m.currentFormatIdx = table.fd0 m.cpmDisk
  hostbuf_legal : m.hostbufValid = true ∨ m.hostbufDirty = true →
    m.hostbuf.Legal (table.format m.hostbuf.disk)
  dirty_format : m.hostbufDirty = true →
    table.fd0 m.hostbuf.disk = table.fd0 m.cpmDisk

/-- The variables `Wf` looks at. -/
def Machine.selection (m : Machine) :=
  (m.cpmDisk, m.currentFormatIdx, m.currentFormat, m.track0SectorsPerSide, m.sp, m.hostbuf,
    m.hostbufValid, m.hostbufDirty)

theorem Wf.congr {table : DriveTable} {m m' : Machine} (hm : Wf table m)
    (hsame : m'.selection = m.selection) : Wf table m' := by
  simp only [Machine.selection, Prod.mk.injEq] at hsame
  obtain ⟨hdisk, hidx, hformat, hside, hsp, hhostbuf, hvalid, hdirty⟩ := hsame
  constructor
  · exact hdisk ▸ hm.disk_lt
  · rw [hdisk]
    exact ⟨hsp.trans hm.selected.sp, hformat.trans hm.selected.currentFormat,
      hside.trans hm.selected.side⟩
  · rw [hidx, hdisk]
    exact hm.formatIdx
  · rw [hvalid, hdirty, hhostbuf]
    exact hm.hostbuf_legal
  · rw [hdirty, hhostbuf, hdisk]
    exact hm.dirty_format

/-- The buffer is given up. -/
theorem Wf.invalid {table : DriveTable} {m : Machine} (hm : Wf table m) :
    Wf table { m with hostbufValid := false } :=
  ⟨hm.disk_lt, ⟨hm.selected.sp, hm.selected.currentFormat, hm.selected.side⟩, hm.formatIdx,
    fun h => hm.hostbuf_legal (h.imp_left fun h => absurd h Bool.false_ne_true), hm.dirty_format⟩

/-- The entries of the log that a caller sees. -/
def Event.isCall : Event → Bool
  | .writeCall _ _ _ => true
  | .writeDone _ _ _ _ => true
  | .readDone _ _ _ => true
  | _ => false

/-- What a transfer leaves alone. -/
structure SameCall (m m' : Machine) : Prop where
  request : m'.request = m.request
  cpmDisk : m'.cpmDisk = m.cpmDisk
  dma : m'.cpmDmaAddr = m.cpmDmaAddr
  mem : m'.mem = m.mem
  isRead : m'.isRead = m.isRead
  writeType : m'.writeType = m.writeType
  unalloc : m'.unalloc = m.unalloc
  sp : m'.sp = m.sp
  calls : m'.log.filter Event.isCall = m.log.filter Event.isCall

theorem SameCall.refl (m : Machine) : SameCall m m :=
  ⟨rfl, rfl, rfl, rfl, rfl, rfl, rfl, rfl, rfl⟩

theorem SameCall.trans {m m' m'' : Machine} (h : SameCall m m') (h' : SameCall m' m'') :
    SameCall m m'' :=
  ⟨h'.request.trans h.request, h'.cpmDisk.trans h.cpmDisk, h'.dma.trans h.dma,
    h'.mem.trans h.mem, h'.isRead.trans h.isRead, h'.writeType.trans h.writeType,
    h'.unalloc.trans h.unalloc, h'.sp.trans h.sp, h'.calls.trans h.calls⟩

theorem sameCall_afterWrite (m : Machine) (n : Nat) (disk : Chs → Nat → Byte)
    (done : Bool) : SameCall m (afterWrite m n disk done) :=
  ⟨rfl, rfl, rfl, rfl, rfl, rfl, rfl, rfl, by cases done <;> rfl⟩

/-! ### Demands -/

theorem demandOf_eq_some {table : DriveTable} {want : Rec → Option Record}
    {host : HostSector} {k : Nat} {v : Record} :
    demandOf table want host k = some v ↔
      host.Legal (table.format host.disk) ∧ k < slots (table.format host.disk) ∧
        want (host.record (table.format host.disk) k) = some v := by
  unfold demandOf
  split
  · rename_i h
    simp [h]
  · rename_i h
    simp only [reduceCtorEq, false_iff]
    rintro ⟨hlegal, hslot, _⟩
    exact h ⟨hlegal, hslot⟩

/-- A legal record is demanded at its own host sector and slot. -/
theorem demandOf_record {table : DriveTable} (want : Rec → Option Record) {r : Rec}
    (hlegal : r.Legal (table.format r.disk)) :
    demandOf table want (r.host (table.format r.disk)) (r.slot (table.format r.disk)) =
      want r := by
  have hhost := Rec.host_legal hlegal
  unfold demandOf
  rw [if_pos]
  · exact congrArg want (Rec.record_host_slot _ r)
  · exact ⟨hhost, Rec.slot_lt _ r⟩

theorem demandOf_mono {table : DriveTable} {want want' : Rec → Option Record}
    (hle : ∀ r v, want' r = some v → want r = some v)
    (host : HostSector) (k : Nat) (v : Record)
    (h : demandOf table want' host k = some v) :
    demandOf table want host k = some v := by
  rw [demandOf_eq_some] at h ⊢
  exact ⟨h.1, h.2.1, hle _ _ h.2.2⟩

/-- Presenting fewer records. -/
theorem presents_mono {table : DriveTable} {want want' : Rec → Option Record}
    {m : Machine} (hm : Presents table want m)
    (hle : ∀ r v, want' r = some v → want r = some v) :
    Presents table want' m :=
  hm.weaken (demandOf_mono hle)

/-- Every machine presents nothing. -/
theorem presents_none (table : DriveTable) (m : Machine) :
    Presents table (fun _ => none) m :=
  (LineCache.Coherent.of_none (view table m)).weaken (by
    intro host k v h
    rw [demandOf_eq_some] at h
    exact absurd h.2.2 (by simp))

/-! ### The transfers -/

theorem Wf.afterWrite {table : DriveTable} {m : Machine} (hm : Wf table m)
    (n : Nat) (disk : Chs → Nat → Byte) (done : Bool) :
    Wf table (afterWrite m n disk done) where
  disk_lt := hm.disk_lt
  selected := ⟨hm.selected.sp, hm.selected.currentFormat, hm.selected.side⟩
  formatIdx := hm.formatIdx
  hostbuf_legal := by
    intro h
    apply hm.hostbuf_legal
    rcases h with h | h
    · left
      change (done && m.hostbufValid) = true at h
      exact (Bool.and_eq_true_iff.mp h).2
    · exact Or.inr h
  dirty_format := hm.dirty_format

/-- A dirty buffer belongs to a drive of the selected format. -/
theorem Wf.format_of_dirty {table : DriveTable} {m : Machine} (hm : Wf table m)
    (hdirty : m.hostbufDirty = true) :
    table.format m.hostbuf.disk = table.format m.cpmDisk :=
  congrArg formatIndex (hm.dirty_format hdirty)

/-- Writing back a buffer of the selected format puts the whole demand on the
disk, unless the transfer fails.  The dirty flag may have been cleared before. -/
theorem wrthst_presents {table : DriveTable} (fdc : Nat → Attempt) {f : Fin 4}
    {m : Machine} (hsel : Selected f m)
    (hformat : table.format m.hostbuf.disk = f) (hlegal : m.hostbuf.Legal f) :
    ∃ n disk done, wrthst fdc m = afterWrite m n disk done ∧
      (FaultFree fdc → done = true) ∧
      (done = true → ∀ want dirty, Presents table want { m with hostbufDirty := dirty } →
        m.hostbufValid = true ∨ dirty = true →
        ∀ host k v, demandOf table want host k = some v →
          (view table (afterWrite m n disk done)).store host k = v) := by
  obtain ⟨n, disk, done, heq, hfree, hhit, hmiss⟩ := wrthst_spec fdc hsel hlegal
  refine ⟨n, disk, done, heq, hfree, ?_⟩
  intro hdone want dirty hpres hwas
  apply hpres.store_of_writeBack hwas
  · intro k hk
    have hk' : k < slots f := by
      by_contra hlarge
      apply hk
      simp only [demandOf, view, hformat]
      rw [if_neg (fun h => hlarge h.2)]
    show slotOf (disk (m.hostbuf.chs (table.format m.hostbuf.disk))) k = slotOf m.hstbuf k
    rw [hformat]
    exact hhit hdone k hk'
  · intro host k hne hk
    have hhost : host.Legal (table.format host.disk) := by
      by_contra hillegal
      apply hk
      simp only [demandOf]
      rw [if_neg (fun h => hillegal h.1)]
    have hchs : host.chs (table.format host.disk) ≠ m.hostbuf.chs f := by
      intro h
      apply hne
      apply chs_injective (table.format host.disk) f hhost hlegal _ h
      intro hdisk
      rw [hdisk, hformat]
    show slotOf (disk _) k = slotOf (m.disk _) k
    rw [hmiss _ hchs]

/-- Reading the tagged sector leaves in the buffer what is demanded of it,
unless the transfer fails. -/
theorem rdhst_presents (table : DriveTable) (fdc : Nat → Attempt) {f : Fin 4}
    (want : Rec → Option Record) {m : Machine} (hsel : Selected f m)
    (hformat : table.format m.hostbuf.disk = f) (hlegal : m.hostbuf.Legal f) :
    ∃ n hstbuf done, rdhst fdc m = afterRead m n hstbuf done ∧
      (FaultFree fdc → done = true) ∧
      (done = true →
        (∀ host k v, demandOf table want host k = some v →
          (view table m).store host k = v) →
        ∀ k v, demandOf table want m.hostbuf k = some v → slotOf hstbuf k = v) := by
  obtain ⟨n, hstbuf, done, heq, hfree, hhit⟩ := rdhst_spec fdc hsel hlegal
  refine ⟨n, hstbuf, done, heq, hfree, ?_⟩
  intro hdone hall k v hk
  have hslot : k < slots f := by
    rw [demandOf_eq_some, hformat] at hk
    exact hk.2.1
  have hstore := hall m.hostbuf k v hk
  change slotOf (m.disk (m.hostbuf.chs (table.format m.hostbuf.disk))) k = v at hstore
  rw [hformat] at hstore
  rw [hhit hdone k hslot]
  exact hstore

/-! ### Selecting the host sector -/

/-- The host sector computed by `rwoper` is the one the request lies in. -/
theorem selectHost_eq (fdc : Nat → Attempt) {f : Fin 4} {m : Machine}
    (hsel : Selected f m) (hlegal : m.request.Legal f) :
    selectHost fdc m =
      if m.hostbufValid = true ∧ m.request.host f = m.hostbuf then locateHost m
      else fillHost fdc (tagHost (m.request.host f) (flushHost fdc (locateHost m))) := by
  have hhost : (⟨m.cpmDisk, m.cpmTrack, (locateHost m).cpmSectorAsHost⟩ : HostSector) =
      m.request.host f := by
    have hsector : m.cpmSector < (fspa f).cpmSectorsPerTrack := hlegal.2.2
    have hbound := sectorsPerTrack_le f
    have hdiv : m.cpmSector / slots f ≤ m.cpmSector := Nat.div_le_self _ _
    unfold locateHost
    rw [hsel.sp, shiftRight_eq_div_slots, Nat.mod_eq_of_lt (by omega)]
    rfl
  rw [← hhost]
  rfl

theorem sameCall_locateHost (m : Machine) : SameCall m (locateHost m) :=
  ⟨rfl, rfl, rfl, rfl, rfl, rfl, rfl, rfl, rfl⟩

theorem Wf.locateHost {table : DriveTable} {m : Machine} (hm : Wf table m) :
    Wf table (locateHost m) :=
  hm.congr rfl

/-- Flushing before the buffer is reused: whatever is demanded is on the disk,
unless the transfer fails. -/
theorem flushHost_presents {table : DriveTable} (fdc : Nat → Attempt)
    (want : Rec → Option Record) {m : Machine} (hm : Wf table m) :
    Wf table (flushHost fdc m) ∧ SameCall m (flushHost fdc m) ∧
      (flushHost fdc m).hstbuf = m.hstbuf ∧
      (flushHost fdc m).needPreRead = m.needPreRead ∧
      (flushHost fdc m).unallocMask = m.unallocMask ∧
      (flushHost fdc m).unallocCount = m.unallocCount ∧
      (FaultFree fdc → (flushHost fdc m).diskError = m.diskError) ∧
      ((flushHost fdc m).diskError = false → m.diskError = false ∧
        (Presents table want m → ∀ host k v, demandOf table want host k = some v →
          (view table (flushHost fdc m)).store host k = v)) := by
  unfold flushHost
  split
  · rename_i h
    obtain ⟨hvalid, hdirty⟩ := h
    have hformat := hm.format_of_dirty hdirty
    have hlegal := hm.hostbuf_legal (Or.inl hvalid)
    obtain ⟨n, disk, done, heq, hfree, hstore⟩ :=
      wrthst_presents fdc hm.selected hformat (hformat ▸ hlegal)
    rw [heq]
    refine ⟨hm.afterWrite n disk done, sameCall_afterWrite m n disk done,
      rfl, rfl, rfl, rfl, ?_, ?_⟩
    · intro hok
      simp [afterWrite, hfree hok]
    · intro herr
      have hdone : done = true ∧ m.diskError = false := by
        simpa [afterWrite] using herr
      exact ⟨hdone.2, fun hpres => hstore hdone.1 want m.hostbufDirty hpres (Or.inl hvalid)⟩
  · rename_i h
    refine ⟨hm, SameCall.refl m, rfl, rfl, rfl, rfl, fun _ => rfl, ?_⟩
    intro herr
    exact ⟨herr, fun hpres => hpres.store_of_clean h⟩

/-- What `rwoper` establishes before it moves the record: the buffer is tagged
with the request's host sector, and if no error is pending it is valid and
presents what the caller may rely on. -/
structure HostSelected (table : DriveTable) (fdc : Nat → Attempt)
    (want : Rec → Option Record) (m m' : Machine) : Prop where
  wf : Wf table m'
  same : SameCall m m'
  hostbuf : m'.hostbuf = m.request.host (table.format m.cpmDisk)
  unallocCount : m'.unallocCount = m.unallocCount
  noFault : FaultFree fdc → m'.diskError = m.diskError
  presents : m'.diskError = false →
    m.diskError = false ∧ m'.hostbufValid = true ∧ Presents table want m'

/-- Tagging the buffer and taking it over, with the pre-read if one is needed.
`m` is the machine after the flush. -/
theorem fillHost_presents {table : DriveTable} (fdc : Nat → Attempt)
    {want : Rec → Option Record} {m : Machine} (hm : Wf table m)
    (hlegal : m.request.Legal (table.format m.cpmDisk))
    (hall : m.diskError = false → ∀ host k v, demandOf table want host k = some v →
      (view table m).store host k = v)
    (hcount : m.needPreRead = true → m.unallocCount = 0)
    (hclaim : m.needPreRead = false → m.diskError = false → ∀ k v,
      demandOf table want (m.request.host (table.format m.cpmDisk)) k = some v →
      slotOf m.hstbuf k = v) :
    HostSelected table fdc want m
      (fillHost fdc (tagHost (m.request.host (table.format m.cpmDisk)) m)) := by
  have hhostLegal := Rec.host_legal hlegal
  have hsel : Selected (table.format m.cpmDisk)
      (tagHost (m.request.host (table.format m.cpmDisk)) m) :=
    ⟨hm.selected.sp, hm.selected.currentFormat, hm.selected.side⟩
  unfold fillHost
  -- either the sector is read, or what is demanded of it is in the buffer already
  by_cases hneed : m.needPreRead = true
  · rw [if_pos (show (tagHost _ m).needPreRead = true from hneed)]
    obtain ⟨n, hstbuf, done, heq, hfree, hread⟩ :=
      rdhst_presents table fdc want hsel rfl hhostLegal
    rw [heq]
    refine ⟨⟨hm.disk_lt, ⟨hsel.sp, hsel.currentFormat, hsel.side⟩, hm.formatIdx,
        fun _ => hhostLegal, ?_⟩,
      ⟨rfl, rfl, rfl, rfl, rfl, rfl, rfl, rfl, by cases done <;> rfl⟩, rfl, ?_, ?_, ?_⟩
    · intro h
      exact absurd h Bool.false_ne_true
    · show (if m.unallocMask then m.unallocCount else 0) = m.unallocCount
      rw [hcount hneed, ite_self]
    · intro hok
      simp [afterRead, tagHost, hfree hok]
    · intro herr
      have hdone : done = true ∧ m.diskError = false := by
        simpa [afterRead, tagHost] using herr
      refine ⟨hdone.2, by simp [afterRead, tagHost, hdone.1], ?_⟩
      exact LineCache.Coherent.claim (hall hdone.2) (hread hdone.1 (hall hdone.2))
  · rw [if_neg (show ¬ (tagHost _ m).needPreRead = true from hneed)]
    refine ⟨⟨hm.disk_lt, ⟨hsel.sp, hsel.currentFormat, hsel.side⟩, hm.formatIdx,
        fun _ => hhostLegal, ?_⟩, ⟨rfl, rfl, rfl, rfl, rfl, rfl, rfl, rfl, rfl⟩, rfl, rfl,
      fun _ => rfl, ?_⟩
    · intro h
      exact absurd h Bool.false_ne_true
    · intro herr
      exact ⟨herr, rfl, LineCache.Coherent.claim (hall herr)
        (hclaim (Bool.eq_false_of_not_eq_true hneed) herr)⟩

/-- Making the buffer hold the request's host sector.  Without a pre-read the
buffer has to present already what is demanded of that sector. -/
theorem selectHost_presents {table : DriveTable} (fdc : Nat → Attempt)
    {want : Rec → Option Record} {m : Machine} (hm : Wf table m)
    (hlegal : m.request.Legal (table.format m.cpmDisk))
    (hpres : m.diskError = false → Presents table want m)
    (hcount : m.needPreRead = true → m.unallocCount = 0)
    (hclaim : m.needPreRead = false → m.diskError = false → ∀ k v,
      demandOf table want (m.request.host (table.format m.cpmDisk)) k = some v →
      slotOf m.hstbuf k = v) :
    HostSelected table fdc want m (selectHost fdc m) := by
  rw [selectHost_eq fdc hm.selected hlegal]
  split
  · -- the buffer already holds the host sector
    rename_i hhit
    refine ⟨hm.locateHost, sameCall_locateHost m, hhit.2.symm, rfl, fun _ => rfl, ?_⟩
    intro herr
    exact ⟨herr, hhit.1, hpres herr⟩
  · obtain ⟨hwf1, hsame1, hbuf, hneed, _, hcnt, hfree1, hstore1⟩ :=
      flushHost_presents fdc want hm.locateHost
    have hsame := (sameCall_locateHost m).trans hsame1
    change _ = m.hstbuf at hbuf
    change _ = m.needPreRead at hneed
    change _ = m.unallocCount at hcnt
    rw [← hsame.request, ← hsame.cpmDisk] at hlegal hclaim ⊢
    rw [← hneed] at hcount hclaim
    rw [← hcnt] at hcount
    rw [← hbuf] at hclaim
    obtain ⟨hwf', hsame', hhostbuf', hcount', hfree', hpres'⟩ := fillHost_presents fdc hwf1 hlegal
      (fun herr => (hstore1 herr).2 (hpres (hstore1 herr).1)) hcount
      (fun hneed herr => hclaim hneed (hstore1 herr).1)
    refine ⟨hwf', hsame.trans hsame', ?_, hcount'.trans hcnt, ?_, ?_⟩
    · rw [hhostbuf', hsame.request, hsame.cpmDisk]
    · intro hok
      rw [hfree' hok, hfree1 hok]
      rfl
    · intro herr
      obtain ⟨herr1, hvalid, hp⟩ := hpres' herr
      exact ⟨(hstore1 herr1).1, hvalid, hp⟩

/-! ### Moving the record and returning -/

/-- The caller's map after it wrote a record. -/
def writeRecord (want : Rec → Option Record) (r : Rec) (data : Record) :
    Rec → Option Record :=
  fun q => if q = r then some data else want q

/-- Offset of the request's slot in the buffer. -/
theorem bufferOffset_eq {f : Fin 4} {m : Machine} (hsp : m.sp = fspa f) :
    m.bufferOffset = m.request.slot f * 128 := by
  unfold Machine.bufferOffset Rec.slot
  rw [hsp, and_mask_eq_mod_slots, Nat.shiftLeft_eq]
  rfl

/-- A read delivers the slot of the request to the DMA area. -/
theorem moveRecord_read {f : Fin 4} {m : Machine} (hsp : m.sp = fspa f)
    (hread : m.isRead = true) :
    (moveRecord m).dmaRecord = slotOf m.hstbuf (m.request.slot f) := by
  funext i
  have hi := i.isLt
  simp only [Machine.dmaRecord, moveRecord, hread, if_true, slotOf]
  have hsub : (m.cpmDmaAddr + BitVec.ofNat 16 i - m.cpmDmaAddr).toNat = i := by
    rw [BitVec.add_comm, BitVec.add_sub_cancel, BitVec.toNat_ofNat]
    exact Nat.mod_eq_of_lt (by omega)
  rw [hsub, if_pos hi, bufferOffset_eq hsp]

/-- A write puts the DMA record into the slot of the request. -/
theorem moveRecord_write_hit {f : Fin 4} {m : Machine} (hsp : m.sp = fspa f)
    (hread : m.isRead = false) :
    slotOf (moveRecord m).hstbuf (m.request.slot f) = m.dmaRecord := by
  funext i
  have hi := i.isLt
  simp only [moveRecord, hread, slotOf, bufferOffset_eq hsp, Machine.dmaRecord,
    Bool.false_eq_true, if_false]
  rw [if_pos (by omega)]
  congr 2
  congr 1
  omega

/-- A write leaves the other slots alone. -/
theorem moveRecord_write_miss {f : Fin 4} {m : Machine} (hsp : m.sp = fspa f)
    (hread : m.isRead = false) {k : Nat} (hk : k ≠ m.request.slot f) :
    slotOf (moveRecord m).hstbuf k = slotOf m.hstbuf k := by
  funext i
  have hi := i.isLt
  simp only [moveRecord, hread, slotOf, bufferOffset_eq hsp, Bool.false_eq_true, if_false]
  rw [if_neg]
  intro h
  apply hk
  omega

/-- After a write the machine presents the new record. -/
theorem moveRecord_presents {table : DriveTable} {want : Rec → Option Record}
    {m : Machine} (hm : Wf table m) (hread : m.isRead = false)
    (hhostbuf : m.hostbuf = m.request.host (table.format m.cpmDisk))
    (hvalid : m.hostbufValid = true) (hpres : Presents table want m) :
    Presents table (writeRecord want m.request m.dmaRecord) (moveRecord m) := by
  apply LineCache.Coherent.put hpres hvalid (m.request.slot (table.format m.cpmDisk))
  · simpa [view, moveRecord, hread] using hvalid
  · simp [view, moveRecord, hread]
  · simp [view, moveRecord, hread]
  · simp [view, moveRecord, hread]
  · intro k hk
    exact moveRecord_write_miss hm.selected.sp hread hk
  · intro host k v hdemand
    rw [demandOf_eq_some] at hdemand
    obtain ⟨hlegal, hslot, hwant⟩ := hdemand
    -- the record that is written, or another record that is not in its slot
    by_cases hsame : host.record (table.format host.disk) k = m.request
    · left
      have hdisk : host.disk = m.cpmDisk := congrArg Rec.disk hsame
      have hhost : m.request.host (table.format host.disk) = host := by
        rw [← hsame]
        exact HostSector.host_record _ host hslot
      have hk : m.request.slot (table.format host.disk) = k := by
        rw [← hsame]
        exact HostSector.slot_record _ host hslot
      rw [hdisk] at hhost hk
      refine ⟨?_, hk.symm, ?_⟩
      · show host = m.hostbuf
        rw [hhostbuf, hhost]
      · have hdata : some m.dmaRecord = some v := by
          rw [← hwant]
          simp only [writeRecord]
          rw [if_pos hsame]
        exact (moveRecord_write_hit hm.selected.sp hread).trans (Option.some.inj hdata)
    · right
      have hold : want (host.record (table.format host.disk) k) = some v := by
        rw [← hwant]
        simp only [writeRecord]
        rw [if_neg hsame]
      refine ⟨?_, demandOf_eq_some.mpr ⟨hlegal, hslot, hold⟩⟩
      by_contra hboth
      rw [not_or, not_not, not_not] at hboth
      obtain ⟨hhost, hk⟩ := hboth
      apply hsame
      have htag : host = m.request.host (table.format m.cpmDisk) := hhost.trans hhostbuf
      have hdisk : host.disk = m.cpmDisk := congrArg HostSector.disk htag
      rw [hdisk, htag, hk]
      exact Rec.record_host_slot _ _

end Disk
end Rc700
