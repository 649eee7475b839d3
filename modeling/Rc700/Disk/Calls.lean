import Rc700.Disk.Blocks
import Rc700.Disk.Coherence

/-!
# What each call keeps

One lemma per entry point of the driver, for an arbitrary controller.  A call
that reports success keeps the caller's map; a call without a result (`HOME`,
`SELDSK`) keeps it as long as the error flag stays clear.

The writes without pre-read need an invariant of their own, `RunInv`: inside
the block opened by the last write of type 2, everything from the expected
record on is undemanded, and the buffer holds what is demanded of the expected
record's host sector.
-/

namespace Rc700
namespace Disk

open Library

variable {table : DriveTable} {fdc : Nat → Attempt} {want : Rec → Option Record}
  {m m' : Machine}

/-! ### The end of `rwoper` -/

/-- What the end of `rwoper` does to a buffer that holds the request's host
sector. -/
structure Finished (table : DriveTable) (fdc : Nat → Attempt)
    (want : Rec → Option Record) (m m' : Machine) (code : Nat) : Prop where
  wf : Wf table m'
  same : SameCall m m'
  hostbuf : m'.hostbuf = m.hostbuf
  hstbuf : m'.hstbuf = m.hstbuf
  unallocCount : m'.unallocCount = m.unallocCount
  diskError : m'.diskError = false
  noFault : FaultFree fdc → m.diskError = false → code = 0
  done : code = 0 → m.diskError = false ∧
    (m.hostbufValid = true → Presents table want m →
      m'.hostbufValid = true ∧ Presents table want m')

theorem finish_of_error (herr : m.diskError = true) :
    finish fdc m = ({ m with hostbufValid := false, diskError := false }, 1) := by
  simp [finish, herr]

theorem finish_of_directory (herr : m.diskError = false) (hdir : m.writeType = .wrdir) :
    finish fdc m =
      ({ wrthst fdc { m with hostbufDirty := false } with diskError := false },
        if (wrthst fdc { m with hostbufDirty := false }).diskError then 1 else 0) := by
  have hkeep : (if m.diskError then { m with hostbufValid := false } else m) = m := by
    rw [if_neg (by simp [herr])]
  simp only [finish, hkeep]
  rw [if_pos ⟨hdir, herr⟩]

theorem finish_of_ok (herr : m.diskError = false) (hdir : m.writeType ≠ .wrdir) :
    finish fdc m = ({ m with diskError := false }, 0) := by
  simp [finish, herr, hdir]

theorem finish_finished (hm : Wf table m) (hdisk : m.hostbuf.disk = m.cpmDisk)
    (hlegal : m.hostbuf.Legal (table.format m.cpmDisk)) :
    Finished table fdc want m (finish fdc m).1 (finish fdc m).2 := by
  -- an error is reported as it is; a directory write goes to the disk at once
  by_cases herr : m.diskError = true
  · rw [finish_of_error herr]
    refine ⟨hm.invalid.congr rfl,
      ⟨rfl, rfl, rfl, rfl, rfl, rfl, rfl, rfl, rfl⟩, rfl, rfl, rfl, rfl, ?_, ?_⟩
    · intro _ h
      exact absurd h (by simp [herr])
    · intro h
      exact absurd h (by simp)
  · have herr' : m.diskError = false := Bool.eq_false_of_not_eq_true herr
    by_cases hdir : m.writeType = .wrdir
    · rw [finish_of_directory herr' hdir]
      have hformat : table.format m.hostbuf.disk = table.format m.cpmDisk := by rw [hdisk]
      have hsel : Selected (table.format m.cpmDisk) { m with hostbufDirty := false } :=
        ⟨hm.selected.sp, hm.selected.currentFormat, hm.selected.side⟩
      obtain ⟨n, disk, done, heq, hfree, hstore⟩ :=
        wrthst_presents fdc hsel hformat hlegal
      rw [heq]
      refine ⟨⟨hm.disk_lt, ⟨hsel.sp, hsel.currentFormat, hsel.side⟩, hm.formatIdx,
          fun _ => ?_, fun h => absurd h Bool.false_ne_true⟩,
        ⟨rfl, rfl, rfl, rfl, rfl, rfl, rfl, rfl, by cases done <;> rfl⟩,
        rfl, rfl, rfl, rfl, ?_, ?_⟩
      · show m.hostbuf.Legal (table.format m.hostbuf.disk)
        rw [hformat]
        exact hlegal
      · intro hok _
        simp [afterWrite, hfree hok, herr']
      · intro hcode
        have hdone : done = true := by
          cases done
          · exact absurd hcode (by simp [afterWrite])
          · rfl
        refine ⟨herr', fun hvalid hpres => ?_⟩
        subst hdone
        refine ⟨by simpa [afterWrite] using hvalid, ?_⟩
        apply LineCache.Coherent.claim (hstore rfl want m.hostbufDirty hpres (Or.inl hvalid))
        exact hpres.line_eq (Or.inl hvalid)
    · rw [finish_of_ok herr' hdir]
      refine ⟨hm.congr rfl,
        ⟨rfl, rfl, rfl, rfl, rfl, rfl, rfl, rfl, rfl⟩, rfl, rfl, rfl, rfl,
        fun _ _ => rfl, ?_⟩
      intro _
      exact ⟨herr', fun hvalid hpres => ⟨hvalid, hpres⟩⟩

/-! ### Reading -/

/-- What `READ` does, given what the caller may rely on. -/
structure ReadResult (table : DriveTable) (fdc : Nat → Attempt)
    (want : Rec → Option Record) (m m' : Machine) (code : Nat) : Prop where
  wf : Wf table m'
  hostbuf : m'.hostbuf = m.request.host (table.format m.cpmDisk)
  unallocCount : m'.unallocCount = 0
  calls : m'.log.filter Event.isCall = m.log.filter Event.isCall
  diskError : m'.diskError = false
  noFault : FaultFree fdc → m.diskError = false → code = 0
  done : code = 0 → m.diskError = false ∧ Presents table want m' ∧
    ∀ v, want m.request = some v → m'.dmaRecord = v

theorem xread_result (hm : Wf table m) (hlegal : m.request.Legal (table.format m.cpmDisk))
    (hpres : m.diskError = false → Presents table want m) :
    ReadResult table fdc want m (xread fdc m).1 (xread fdc m).2 := by
  unfold xread rwoper
  generalize hm0 : ({ m with
    unallocCount := 0, isRead := true, needPreRead := true, writeType := .wrual } :
      Machine) = m0
  have hsel : HostSelected table fdc want m0 (selectHost fdc m0) := by
    subst hm0
    refine selectHost_presents fdc (hm.congr rfl) hlegal hpres (fun _ => rfl) ?_
    intro h
    exact absurd h (by simp)
  have hrequest : m0.request = m.request := by subst hm0; rfl
  have hcpmDisk : m0.cpmDisk = m.cpmDisk := by subst hm0; rfl
  have hisRead : (selectHost fdc m0).isRead = true := by
    rw [hsel.same.isRead]
    subst hm0
    rfl
  generalize selectHost fdc m0 = m1 at hsel hisRead
  have hmove : moveRecord m1 = { m1 with mem := (moveRecord m1).mem } := by
    simp only [moveRecord, hisRead, if_true]
  have hdma : (moveRecord m1).dmaRecord =
      slotOf m1.hstbuf (m1.request.slot (table.format m1.cpmDisk)) :=
    moveRecord_read hsel.wf.selected.sp hisRead
  generalize moveRecord m1 = m2 at hmove hdma
  have hdisk1 : m1.cpmDisk = m.cpmDisk := hsel.same.cpmDisk.trans hcpmDisk
  have hrequest1 : m1.request = m.request := hsel.same.request.trans hrequest
  have hhostbuf1 : m1.hostbuf = m.request.host (table.format m.cpmDisk) := by
    rw [hsel.hostbuf, hrequest, hcpmDisk]
  have hfin : Finished table fdc want m2 (finish fdc m2).1 (finish fdc m2).2 := by
    apply finish_finished
    · rw [hmove]
      exact hsel.wf.congr rfl
    · rw [hmove]
      show m1.hostbuf.disk = m1.cpmDisk
      rw [hhostbuf1, hdisk1]
      rfl
    · rw [hmove]
      show m1.hostbuf.Legal (table.format m1.cpmDisk)
      rw [hhostbuf1, hdisk1]
      exact Rec.host_legal hlegal
  have herr2 : m2.diskError = m1.diskError := by rw [hmove]
  refine ⟨hfin.wf, ?_, ?_, ?_, hfin.diskError, ?_, ?_⟩
  · rw [hfin.hostbuf, hmove]
    exact hhostbuf1
  · rw [hfin.unallocCount, hmove]
    show m1.unallocCount = 0
    rw [hsel.unallocCount]
    subst hm0
    rfl
  · rw [hfin.same.calls, hmove]
    show m1.log.filter Event.isCall = _
    rw [hsel.same.calls]
    subst hm0
    rfl
  · intro hok herr
    apply hfin.noFault hok
    rw [herr2, hsel.noFault hok]
    subst hm0
    exact herr
  · intro hcode
    obtain ⟨herr, hkeep⟩ := hfin.done hcode
    rw [herr2] at herr
    obtain ⟨herr0, hvalid, hpres1⟩ := hsel.presents herr
    have hvalid2 : m2.hostbufValid = true := by
      rw [hmove]
      exact hvalid
    have hpres2 : Presents table want m2 := by
      rw [hmove]
      exact hpres1
    refine ⟨?_, (hkeep hvalid2 hpres2).2, ?_⟩
    · subst hm0
      exact herr0
    · intro v hv
      have hfinal : (finish fdc m2).1.dmaRecord = m2.dmaRecord := by
        unfold Machine.dmaRecord
        rw [hfin.same.dma, hfin.same.mem]
      have hdisk : m.request.disk = m.cpmDisk := rfl
      rw [hfinal, hdma, hrequest1, hdisk1]
      apply hpres1.line_eq (Or.inl hvalid)
      show demandOf table want m1.hostbuf _ = some v
      rw [hhostbuf1, ← hdisk, demandOf_record want hlegal]
      exact hv

/-! ### Writing -/

/-- The bookkeeping of `xwrite` before the transfer touches these variables
only. -/
theorem startWrite_eq (wt : WriteType) (m : Machine) :
    stepRun (openRun wt m) =
      { m with
        isRead := false
        writeType := wt
        unallocCount := (stepRun (openRun wt m)).unallocCount
        unalloc := (stepRun (openRun wt m)).unalloc
        unallocMask := (stepRun (openRun wt m)).unallocMask
        needPreRead := (stepRun (openRun wt m)).needPreRead } := by
  unfold stepRun openRun
  split
  · split <;> rfl
  · split <;> rfl

/-- A pre-read is done for a write outside the run only, and not for a host
sector of one record. -/
theorem startWrite_needPreRead {f : Fin 4} (wt : WriteType) (hsp : m.sp = fspa f) :
    (stepRun (openRun wt m)).needPreRead =
      (!(openRun wt m).continuesRun && decide (slots f ≠ 1)) := by
  have hsp' : (openRun wt m).sp = fspa f := by
    unfold openRun
    split <;> exact hsp
  unfold stepRun
  split
  · rename_i hrun
    simp [hrun]
  · rename_i hrun
    simp only [hsp', Bool.eq_false_of_not_eq_true hrun, Bool.not_false, Bool.true_and]
    unfold slots
    cases h : (fspa f).deblockMask <;> simp

theorem startWrite_unallocCount (wt : WriteType)
    (hrun : (openRun wt m).continuesRun = false) :
    (stepRun (openRun wt m)).unallocCount = 0 := by
  unfold stepRun
  rw [if_neg (by simp [hrun])]

/-- What `WRITE` does, given what the caller may rely on. -/
structure WriteResult (table : DriveTable) (fdc : Nat → Attempt)
    (want : Rec → Option Record) (wt : WriteType) (m m' : Machine) (code : Nat) :
    Prop where
  wf : Wf table m'
  request : m'.request = m.request
  hostbuf : m'.hostbuf = m.request.host (table.format m.cpmDisk)
  unallocCount : m'.unallocCount = (stepRun (openRun wt m)).unallocCount
  unalloc : m'.unalloc = (stepRun (openRun wt m)).unalloc
  calls : m'.log.filter Event.isCall = m.log.filter Event.isCall
  diskError : m'.diskError = false
  noFault : FaultFree fdc → m.diskError = false → code = 0
  done : code = 0 → m.diskError = false ∧ m'.hostbufValid = true ∧
    Presents table (writeRecord want m.request m.dmaRecord) m'

/-- The caller's map without one record. -/
def forget (want : Rec → Option Record) (r : Rec) : Rec → Option Record :=
  fun q => if q = r then none else want q

theorem forget_le {r q : Rec} {v : Record} (h : forget want r q = some v) :
    q ≠ r ∧ want q = some v := by
  unfold forget at h
  split at h
  · exact absurd h (by simp)
  · exact ⟨‹_›, h⟩

theorem writeRecord_forget (r : Rec) (data : Record) :
    writeRecord (forget want r) r data = writeRecord want r data := by
  funext q
  unfold writeRecord forget
  split <;> rfl

/-- A host sector of one record is overwritten as a whole. -/
theorem demandOf_forget_of_slots_eq_one {r : Rec} {k : Nat} {v : Record}
    (hslots : slots (table.format r.disk) = 1) :
    demandOf table (forget want r) (r.host (table.format r.disk)) k ≠ some v := by
  intro h
  rw [demandOf_eq_some] at h
  obtain ⟨_, hk, hwant⟩ := h
  change k < slots (table.format r.disk) at hk
  have hk' : k = r.slot (table.format r.disk) := by
    have := Rec.slot_lt (table.format r.disk) r
    omega
  apply (forget_le hwant).1
  rw [hk']
  exact Rec.record_host_slot _ r

theorem xwrite_result (wt : WriteType) (hm : Wf table m)
    (hlegal : m.request.Legal (table.format m.cpmDisk))
    (hpres : m.diskError = false → Presents table want m)
    (hclaim : (openRun wt m).continuesRun = true → slots (table.format m.cpmDisk) ≠ 1 →
      m.diskError = false → ∀ k v,
      demandOf table want (m.request.host (table.format m.cpmDisk)) k = some v →
        slotOf m.hstbuf k = v) :
    WriteResult table fdc want wt m (xwrite fdc wt m).1 (xwrite fdc wt m).2 := by
  unfold xwrite rwoper
  -- what opening the run leaves of the machine
  have hneed := startWrite_needPreRead (m := m) wt hm.selected.sp
  have hcount := startWrite_unallocCount (m := m) wt
  have hstart := startWrite_eq wt m
  generalize hm0 : stepRun (openRun wt m) = m0 at hneed hcount hstart
  have hrequest : m0.request = m.request := by rw [hstart]; rfl
  have hcpmDisk : m0.cpmDisk = m.cpmDisk := by rw [hstart]
  have hdma : m0.dmaRecord = m.dmaRecord := by rw [hstart]; rfl
  have herr0 : m0.diskError = m.diskError := by rw [hstart]
  have hlog0 : m0.log = m.log := by rw [hstart]
  -- the record that is written now is demanded of nobody, so it need not be read
  have hsel : HostSelected table fdc (forget want m.request) m0 (selectHost fdc m0) := by
    apply selectHost_presents
    · rw [hstart]
      exact hm.congr rfl
    · rw [hrequest, hcpmDisk]
      exact hlegal
    · intro herr
      rw [herr0] at herr
      have hweak : Presents table (forget want m.request) m :=
        presents_mono (hpres herr) (fun q v h => (forget_le h).2)
      rw [hstart]
      exact hweak
    · intro h
      rw [hneed] at h
      apply hcount
      simp only [Bool.and_eq_true, Bool.not_eq_true'] at h
      exact h.1
    · intro h herr k v hdemand
      rw [hrequest, hcpmDisk] at hdemand
      have hbuf : m0.hstbuf = m.hstbuf := by rw [hstart]
      -- with one record a sector there is no other record that could be demanded
      by_cases hslots : slots (table.format m.cpmDisk) = 1
      · exact absurd hdemand (demandOf_forget_of_slots_eq_one hslots)
      · rw [hneed] at h
        have hrun : (openRun wt m).continuesRun = true := by
          simpa [hslots] using h
        rw [hbuf]
        exact hclaim hrun hslots (herr0 ▸ herr) k v
          (demandOf_mono (fun q v h => (forget_le h).2) _ k v hdemand)
  have hisRead : (selectHost fdc m0).isRead = false := by
    rw [hsel.same.isRead, hstart]
  generalize selectHost fdc m0 = m1 at hsel hisRead
  have hdisk1 : m1.cpmDisk = m.cpmDisk := hsel.same.cpmDisk.trans hcpmDisk
  have hrequest1 : m1.request = m.request := hsel.same.request.trans hrequest
  have hhostbuf1 : m1.hostbuf = m.request.host (table.format m.cpmDisk) := by
    rw [hsel.hostbuf, hrequest, hcpmDisk]
  have hdma1 : m1.dmaRecord = m.dmaRecord := by
    rw [← hdma]
    unfold Machine.dmaRecord
    rw [hsel.same.dma, hsel.same.mem]
  -- a write changes the buffer, its flag and the log only
  have hmove : moveRecord m1 = { m1 with
      hostbufDirty := true
      hstbuf := (moveRecord m1).hstbuf
      log := .put m1.request m1.dmaRecord :: m1.log } := by
    simp only [moveRecord, hisRead, Bool.false_eq_true, if_false]
  have hlegal1 : m1.hostbuf.Legal (table.format m1.cpmDisk) := by
    rw [hhostbuf1, hdisk1]
    exact Rec.host_legal hlegal
  have hhostDisk1 : m1.hostbuf.disk = m1.cpmDisk := by
    rw [hhostbuf1, hdisk1]
    rfl
  have hfin : Finished table fdc (writeRecord want m.request m.dmaRecord) (moveRecord m1)
      (finish fdc (moveRecord m1)).1 (finish fdc (moveRecord m1)).2 := by
    apply finish_finished
    · rw [hmove]
      refine ⟨hsel.wf.disk_lt, ⟨hsel.wf.selected.sp, hsel.wf.selected.currentFormat,
        hsel.wf.selected.side⟩, hsel.wf.formatIdx, fun _ => ?_, fun _ => ?_⟩
      · show m1.hostbuf.Legal (table.format m1.hostbuf.disk)
        rw [hhostDisk1]
        exact hlegal1
      · show table.fd0 m1.hostbuf.disk = table.fd0 m1.cpmDisk
        rw [hhostDisk1]
    · rw [hmove]
      exact hhostDisk1
    · rw [hmove]
      exact hlegal1
  have herr2 : (moveRecord m1).diskError = m1.diskError := by rw [hmove]
  refine ⟨hfin.wf, ?_, ?_, ?_, ?_, ?_, hfin.diskError, ?_, ?_⟩
  · rw [hfin.same.request, hmove]
    exact hrequest1
  · rw [hfin.hostbuf, hmove]
    exact hhostbuf1
  · rw [hfin.unallocCount, hmove]
    show m1.unallocCount = _
    rw [hsel.unallocCount, hm0]
  · rw [hfin.same.unalloc, hmove]
    show m1.unalloc = _
    rw [hsel.same.unalloc, hm0]
  · rw [hfin.same.calls, hmove]
    show m1.log.filter Event.isCall = _
    rw [hsel.same.calls, hlog0]
  · intro hok herr
    apply hfin.noFault hok
    rw [herr2, hsel.noFault hok, herr0]
    exact herr
  -- the answer 0: the buffer is claimed with the record in it, and `finish` keeps the claim
  · intro hcode
    obtain ⟨herr, hkeep⟩ := hfin.done hcode
    rw [herr2] at herr
    obtain ⟨hstartErr, hvalid, hpres1⟩ := hsel.presents herr
    have hput := moveRecord_presents hsel.wf hisRead
      (by rw [hhostbuf1, hrequest1, hdisk1]) hvalid hpres1
    rw [hrequest1, hdma1, writeRecord_forget] at hput
    have hvalid2 : (moveRecord m1).hostbufValid = true := by
      rw [hmove]
      exact hvalid
    exact ⟨herr0 ▸ hstartErr, hkeep hvalid2 hput⟩

/-! ### Calls without a result -/

/-- A step that moves no record and reports nothing. -/
structure Quiet (table : DriveTable) (fdc : Nat → Attempt) (m m' : Machine) : Prop where
  wf : Wf table m'
  hstbuf : m'.hstbuf = m.hstbuf
  unallocCount : m'.unallocCount = m.unallocCount
  unalloc : m'.unalloc = m.unalloc
  calls : m'.log.filter Event.isCall = m.log.filter Event.isCall
  noFault : FaultFree fdc → m'.diskError = m.diskError
  presents : m'.diskError = false → m.diskError = false ∧
    ∀ want, Presents table want m → Presents table want m'

theorem biosHome_quiet (hm : Wf table m) : Quiet table fdc m (biosHome fdc m) := by
  unfold biosHome
  split
  · rename_i hdirty
    have hformat := hm.format_of_dirty hdirty
    have hlegal : m.hostbuf.Legal (table.format m.cpmDisk) :=
      hformat ▸ hm.hostbuf_legal (Or.inr hdirty)
    obtain ⟨n, disk, done, heq, hfree, hstore⟩ :=
      wrthst_presents fdc hm.selected hformat hlegal
    rw [heq]
    have hwf := hm.afterWrite n disk done
    refine ⟨hwf.congr rfl, rfl, rfl, rfl, (sameCall_afterWrite m n disk done).calls, ?_, ?_⟩
    · intro hok
      simp [afterWrite, hfree hok]
    · intro herr
      have hdone : done = true ∧ m.diskError = false := by
        simpa [afterWrite] using herr
      refine ⟨hdone.2, fun want hpres => ?_⟩
      apply LineCache.Coherent.claim
      · exact hstore hdone.1 want m.hostbufDirty hpres (Or.inr hdirty)
      · exact hpres.line_eq (Or.inr hdirty)
  · rename_i hdirty
    refine ⟨hm.invalid.congr rfl, rfl, rfl, rfl, rfl, fun _ => rfl, fun herr => ⟨herr, ?_⟩⟩
    refine fun want hpres => ⟨?_, ?_⟩
    · rintro (h | h)
      · exact absurd h Bool.false_ne_true
      · exact absurd h hdirty
    · intro host k v hdemand _
      exact hpres.store_of_clean (fun h => hdirty h.2) host k v hdemand

/-- The variables `SELDSK` sets for a drive. -/
def selectDrive (table : DriveTable) (drive : Nat) (m : Machine) : Machine :=
  { m with
    cpmDisk := drive
    currentFormatIdx := table.fd0 drive
    currentFormat := fdf (table.format drive)
    track0SectorsPerSide := (fdf (table.format drive)).eot
    sp := fspa (table.format drive)
    dphDpb := Function.update m.dphDpb drive (some (fspa (table.format drive)).dpb) }

/-- Selecting a drive keeps the driver well-formed, unless a dirty buffer of
another format is left behind. -/
theorem Wf.selectDrive (hm : Wf table m) {drive : Nat} (hdrive : drive < 2)
    (hdirty : m.hostbufDirty = true → table.fd0 m.hostbuf.disk = table.fd0 drive) :
    Wf table (selectDrive table drive m) :=
  ⟨hdrive, ⟨rfl, rfl, rfl⟩, rfl, hm.hostbuf_legal, hdirty⟩

theorem biosSeldskC_quiet (hm : Wf table m) {drive : Nat} (hdrive : drive < 2) :
    Quiet table fdc m (biosSeldskC table fdc drive m).1 := by
  unfold biosSeldskC
  split
  · exact ⟨hm, rfl, rfl, rfl, rfl, fun _ => rfl, fun herr => ⟨herr, fun _ hpres => hpres⟩⟩
  · simp only
    split
    · -- the format changes under a dirty buffer
      rename_i hflush
      have hdirty : m.hostbufDirty = true := hflush.2
      have hformat := hm.format_of_dirty hdirty
      have hlegal : m.hostbuf.Legal (table.format m.cpmDisk) :=
        hformat ▸ hm.hostbuf_legal (Or.inr hdirty)
      have hsel : Selected (table.format m.cpmDisk) { m with cpmDisk := drive } :=
        ⟨hm.selected.sp, hm.selected.currentFormat, hm.selected.side⟩
      obtain ⟨n, disk, done, heq, hfree, hstore⟩ := wrthst_presents fdc hsel hformat hlegal
      rw [heq]
      refine ⟨⟨hdrive, ⟨rfl, rfl, rfl⟩, rfl, fun _ => hm.hostbuf_legal (Or.inr hdirty),
          fun h => absurd h Bool.false_ne_true⟩, rfl, rfl, rfl,
        (sameCall_afterWrite { m with cpmDisk := drive } n disk done).calls, ?_, ?_⟩
      · intro hok
        simp [afterWrite, hfree hok]
      · intro herr
        have hdone : done = true ∧ m.diskError = false := by
          simpa [afterWrite] using herr
        refine ⟨hdone.2, fun want hpres => ?_⟩
        apply LineCache.Coherent.claim
        · exact hstore hdone.1 want m.hostbufDirty hpres (Or.inr hdirty)
        · exact hpres.line_eq (Or.inr hdirty)
    · rename_i hkeep
      have hdirty : m.hostbufDirty = true → table.fd0 m.hostbuf.disk = table.fd0 drive := by
        intro hdirty
        by_contra hne
        apply hkeep
        refine ⟨?_, hdirty⟩
        show table.fd0 drive ≠ m.currentFormatIdx
        rw [hm.formatIdx, ← hm.dirty_format hdirty]
        exact Ne.symm hne
      exact ⟨hm.selectDrive hdrive hdirty, rfl, rfl, rfl, rfl, fun _ => rfl,
        fun herr => ⟨herr, fun _ hpres => hpres⟩⟩

end Disk
end Rc700
