import Rc700.Disk.Calls
import Rc700.Library.Run

/-!
# What the driver owes its caller, over whole runs

`owed` reads off the log what a caller may rely on: a write that was accepted
defines its record, a write of type 2 makes the rest of its block undefined,
and a failed call ends every promise.  `Inv` ties that map to the driver's
variables; `call_inv` shows that every call of a program keeps it, whatever the
controller does.
-/

namespace Rc700
namespace Disk

open Library

variable {table : DriveTable} {fdc : Nat → Attempt} {want base : Rec → Option Record}
  {m m' : Machine} {log : List Event} {q r : Rec}

/-! ### Reading the log -/

/-- The record addressed by the last write of type 2. -/
def lastUnalloc : List Event → Option Rec
  | [] => none
  | .writeCall r .wrual _ :: _ => some r
  | _ :: log => lastUnalloc log

/-- The caller's map after a block was declared dead. -/
def killBlock (table : DriveTable) (want : Rec → Option Record) (q : Rec) :
    Rec → Option Record :=
  fun r => if SameBlock table q r then none else want r

/-- What the caller may rely on, starting from `base`. -/
def owed (table : DriveTable) (base : Rec → Option Record) :
    List Event → Rec → Option Record
  | [] => base
  | .writeCall r .wrual _ :: log => killBlock table (owed table base log) r
  | .writeDone r _ data code :: log =>
      if code = 0 then writeRecord (owed table base log) r data else fun _ => none
  | .readDone _ code _ :: log =>
      if code = 0 then owed table base log else fun _ => none
  | _ :: log => owed table base log

/-- Only the entries for calls count. -/
theorem lastUnalloc_filter (log : List Event) :
    lastUnalloc (log.filter Event.isCall) = lastUnalloc log := by
  induction log with
  | nil => rfl
  | cons e log ih =>
      cases e with
      | writeCall r wt data =>
          cases wt
          · exact ih
          · exact ih
          · rfl
      | _ => exact ih

theorem owed_filter (log : List Event) :
    owed table base (log.filter Event.isCall) = owed table base log := by
  induction log with
  | nil => rfl
  | cons e log ih =>
      cases e with
      | writeCall r wt data =>
          cases wt
          · exact ih
          · exact ih
          · exact congrArg (killBlock table · r) ih
      | writeDone r wt data code =>
          simp only [List.filter_cons, Event.isCall, if_true, owed, ih]
      | readDone r code data =>
          simp only [List.filter_cons, Event.isCall, if_true, owed, ih]
      | _ => exact ih

theorem lastUnalloc_congr {log' : List Event}
    (hcalls : log'.filter Event.isCall = log.filter Event.isCall) :
    lastUnalloc log' = lastUnalloc log := by
  rw [← lastUnalloc_filter log', hcalls, lastUnalloc_filter]

theorem owed_congr {log' : List Event}
    (hcalls : log'.filter Event.isCall = log.filter Event.isCall) :
    owed table base log' = owed table base log := by
  rw [← owed_filter log', hcalls, owed_filter]

/-! ### The run of writes without pre-read -/

/-- Where a run stands that was opened at record `q`. -/
structure RunShape (table : DriveTable) (q : Rec) (m : Machine) : Prop where
  disk : m.unalloc.disk = q.disk
  start_area : q.InArea (table.format q.disk)
  area : m.unalloc.InArea (table.format q.disk)
  index_le : q.index (table.format q.disk) ≤ m.unalloc.index (table.format q.disk)
  count : m.unalloc.index (table.format q.disk) + m.unallocCount =
    q.index (table.format q.disk) + (fspa (table.format q.disk)).recordsPerAllocBlock

/-- What a run that was opened at record `q` may rely on. -/
structure RunAt (table : DriveTable) (want : Rec → Option Record) (q : Rec)
    (m : Machine) : Prop extends RunShape table q m where
  /-- The rest of the block is undemanded. -/
  tail : ∀ r, SameBlock table q r →
    m.unalloc.index (table.format q.disk) ≤ r.index (table.format q.disk) → want r = none
  /-- The buffer presents the host sector of the next record. -/
  buffer : SameBlock table q m.unalloc → m.diskError = false → ∀ k v,
    demandOf table want (m.unalloc.host (table.format q.disk)) k = some v →
    slotOf m.hstbuf k = v

/-- While the count is not used up, a run is open. -/
def RunInv (table : DriveTable) (want : Rec → Option Record) (m : Machine) : Prop :=
  m.unallocCount ≠ 0 → ∃ q, lastUnalloc m.log = some q ∧ RunAt table want q m

/-- A run opened at the first record of a block stays in it. -/
theorem RunShape.sameBlock (hrun : RunShape table q m) (hstart : BlockStart table q)
    (hcount : m.unallocCount ≠ 0) : SameBlock table q m.unalloc := by
  refine ⟨hrun.disk, hrun.start_area, hrun.area, ?_⟩
  have hcnt := hrun.count
  have hle := recordsPerAllocBlock_le (table.format q.disk)
  have hindex := hrun.index_le
  have hmod := hstart.2
  generalize blockRecords (table.format q.disk) = blk at *
  have hblk : 0 < blk := by omega
  have hq := Nat.div_add_mod (q.index (table.format q.disk)) blk
  rw [hmod, Nat.add_zero] at hq
  apply Nat.div_eq_of_lt_le
  · rw [Nat.mul_comm]
    omega
  · rw [Nat.mul_comm, Nat.mul_add, Nat.mul_one]
    omega

/-- Nothing is demanded of a host sector whose records are all undemanded. -/
theorem demandOf_host_ne_some {p : Rec} (hp : SameBlock table q p)
    (hdead : ∀ k, SameBlock table q ((p.host (table.format q.disk)).record
      (table.format q.disk) k) →
      want ((p.host (table.format q.disk)).record (table.format q.disk) k) = none)
    (k : Nat) (v : Record) :
    demandOf table want (p.host (table.format q.disk)) k ≠ some v := by
  intro h
  have hdisk : (p.host (table.format q.disk)).disk = q.disk := hp.1
  rw [demandOf_eq_some, hdisk] at h
  obtain ⟨_, hk, hwant⟩ := h
  have hsame := HostSector.host_record (table.format q.disk)
    (p.host (table.format q.disk)) hk
  rw [hdead k (hp.of_host_eq hsame)] at hwant
  exact absurd hwant (by simp)

/-- A write of type 2 opens a run. -/
theorem openRun_runShape (hsp : m.sp = fspa (table.format m.cpmDisk))
    (harea : m.request.InArea (table.format m.cpmDisk)) :
    RunShape table m.request (openRun .wrual m) where
  disk := rfl
  start_area := harea
  area := harea
  index_le := Nat.le_refl _
  count := by
    show _ + m.sp.recordsPerAllocBlock = _
    rw [hsp]
    rfl

theorem openRun_runAt (hsp : m.sp = fspa (table.format m.cpmDisk))
    (harea : m.request.InArea (table.format m.cpmDisk))
    (hdead : ∀ r, SameBlock table m.request r → want r = none) :
    RunAt table want m.request (openRun .wrual m) where
  toRunShape := openRun_runShape hsp harea
  tail := fun r hr _ => hdead r hr
  buffer := by
    intro hblock _ k v h
    exact absurd h (demandOf_host_ne_some hblock (fun _ hr => hdead _ hr) k v)

/-- The run moves on by one record with every write that continues it. -/
theorem RunShape.advance (hrun : RunShape table q m) (hcount : m.unallocCount ≠ 0)
    (hlegal : m.unalloc.Legal (table.format q.disk))
    (hcount' : m'.unallocCount = m.unallocCount - 1)
    (hunalloc' : m'.unalloc =
      m.unalloc.succ (fspa (table.format q.disk)).cpmSectorsPerTrack) :
    RunShape table q m' := by
  have hindex := Rec.index_succ hlegal hrun.area
  rw [← hunalloc'] at hindex
  have hsum := hrun.count
  have hle := hrun.index_le
  refine ⟨?_, hrun.start_area, ?_, by omega, by omega⟩
  · rw [hunalloc', Rec.succ_disk, hrun.disk]
  · rw [hunalloc']
    exact Rec.succ_inArea hlegal hrun.area

theorem RunAt.advance (hrun : RunAt table want q m) (hcount : m.unallocCount ≠ 0)
    (hlegal : m.unalloc.Legal (table.format q.disk)) {want' : Rec → Option Record}
    (hcount' : m'.unallocCount = m.unallocCount - 1)
    (hunalloc' : m'.unalloc =
      m.unalloc.succ (fspa (table.format q.disk)).cpmSectorsPerTrack)
    (hle : ∀ r v, r ≠ m.unalloc → want' r = some v → want r = some v)
    (hbuffer : m'.diskError = false → ∀ k v,
      demandOf table want' (m.unalloc.host (table.format q.disk)) k = some v →
      slotOf m'.hstbuf k = v) :
    RunAt table want' q m' := by
  have hindex := Rec.index_succ hlegal hrun.area
  rw [← hunalloc'] at hindex
  -- behind the record that was written the block stays dead
  have htail : ∀ r, SameBlock table q r →
      m'.unalloc.index (table.format q.disk) ≤ r.index (table.format q.disk) →
      want' r = none := by
    intro r hr hafter
    have hne : r ≠ m.unalloc := by
      rintro rfl
      omega
    by_contra hsome
    obtain ⟨v, hv⟩ := Option.ne_none_iff_exists'.mp hsome
    have hdead := hrun.tail r hr (by omega)
    rw [hle r v hne hv] at hdead
    exact absurd hdead (by simp)
  refine ⟨hrun.toRunShape.advance hcount hlegal hcount' hunalloc', htail, ?_⟩
  intro hblock herr k v hdemand
  rcases Rec.succ_host_or_slot hlegal with hhost | hslot
  · rw [hunalloc', hhost] at hdemand
    exact hbuffer herr k v hdemand
  · -- a new host sector: its records are all in the dead rest of the block
    rw [← hunalloc'] at hslot
    refine absurd hdemand (demandOf_host_ne_some hblock (fun j hr => htail _ hr ?_) k v)
    have hnext := Rec.index_record (f := table.format q.disk) (p := m'.unalloc) j
    omega

theorem RunShape.congr (hrun : RunShape table q m) (hunalloc : m'.unalloc = m.unalloc)
    (hcount : m'.unallocCount = m.unallocCount) : RunShape table q m' where
  disk := by rw [hunalloc]; exact hrun.disk
  start_area := hrun.start_area
  area := by rw [hunalloc]; exact hrun.area
  index_le := by rw [hunalloc]; exact hrun.index_le
  count := by rw [hunalloc, hcount]; exact hrun.count

theorem RunAt.congr (hrun : RunAt table want q m) (hunalloc : m'.unalloc = m.unalloc)
    (hcount : m'.unallocCount = m.unallocCount) (hstbuf : m'.hstbuf = m.hstbuf)
    (herr : m'.diskError = false → m.diskError = false) : RunAt table want q m' where
  toRunShape := hrun.toRunShape.congr hunalloc hcount
  tail := by rw [hunalloc]; exact hrun.tail
  buffer := by
    rw [hunalloc, hstbuf]
    exact fun hblock herr' => hrun.buffer hblock (herr herr')

/-! ### The invariant -/

/-- The driver's variables and the caller's map fit together. -/
structure Inv (table : DriveTable) (want : Rec → Option Record) (m : Machine) : Prop where
  wf : Wf table m
  presents : m.diskError = false → Presents table want m
  run : RunInv table want m

/-- Calls without a result keep the invariant. -/
theorem Inv.quiet (hm : Inv table want m) (hquiet : Quiet table fdc m m') :
    Inv table want m' where
  wf := hquiet.wf
  presents := by
    intro herr
    obtain ⟨herr', hpres⟩ := hquiet.presents herr
    exact hpres want (hm.presents herr')
  run := by
    intro hcount
    rw [hquiet.unallocCount] at hcount
    obtain ⟨q, hq, hrun⟩ := hm.run hcount
    refine ⟨q, (lastUnalloc_congr hquiet.calls).trans hq, ?_⟩
    exact hrun.congr hquiet.unalloc hquiet.unallocCount hquiet.hstbuf
      (fun herr => (hquiet.presents herr).1)

/-- A write of type 0 or 1 that the driver takes for a continuation of the run
lies in the block opened by the last write of type 2, or is alone in its host
sector. -/
def StaysInBlock (table : DriveTable) (m : Machine) (wt : WriteType) : Prop :=
  wt ≠ .wrual → m.continuesRun = true → slots (table.format m.cpmDisk) ≠ 1 →
    ∃ q ∈ lastUnalloc m.log, SameBlock table q m.request

instance (table : DriveTable) (m : Machine) (wt : WriteType) :
    Decidable (StaysInBlock table m wt) :=
  inferInstanceAs (Decidable (_ → _ → _ → ∃ q ∈ lastUnalloc m.log, _))

/-- The run that a write continues, opened by this very write if it is of
type 2. -/
theorem openRun_run {wt : WriteType} (hm : Inv table (owed table base m.log) m)
    (harea : wt = .wrual → m.request.InArea (table.format m.cpmDisk))
    (hstays : StaysInBlock table m wt)
    (hcontinues : (openRun wt m).continuesRun = true) :
    ∃ q, lastUnalloc (.writeCall m.request wt m.dmaRecord :: m.log) = some q ∧
      RunAt table (owed table base (.writeCall m.request wt m.dmaRecord :: m.log)) q
        (openRun wt m) ∧
      (slots (table.format m.cpmDisk) ≠ 1 → SameBlock table q m.request) := by
  -- a run that was opened before goes on; only `wrual` opens one
  have hrest : wt ≠ .wrual →
      ∃ q, lastUnalloc m.log = some q ∧
        RunAt table (owed table base m.log) q (openRun wt m) ∧
        (slots (table.format m.cpmDisk) ≠ 1 → SameBlock table q m.request) := by
    intro hwt
    have hopen : openRun wt m = { m with isRead := false, writeType := wt } := by
      simp only [openRun, hwt, if_false]
    have hcontinues' : m.continuesRun = true := by
      rw [hopen] at hcontinues
      exact hcontinues
    have hcount : m.unallocCount ≠ 0 := by
      simp only [Machine.continuesRun, decide_eq_true_eq] at hcontinues'
      exact hcontinues'.1
    obtain ⟨q, hq, hrun⟩ := hm.run hcount
    refine ⟨q, hq, ?_, ?_⟩
    · rw [hopen]
      exact hrun.congr rfl rfl rfl id
    · intro hslots
      obtain ⟨q', hq', hblock⟩ := hstays hwt hcontinues' hslots
      rw [hq] at hq'
      cases hq'
      exact hblock
  cases wt with
  | wrall => exact hrest (by simp)
  | wrdir => exact hrest (by simp)
  | wrual =>
      refine ⟨m.request, rfl, openRun_runAt hm.wf.selected.sp (harea rfl) ?_,
        fun _ => SameBlock.refl (harea rfl)⟩
      intro r hr
      exact if_pos hr

/-- Declaring a block dead only takes promises back. -/
theorem owed_writeCall_le {wt : WriteType} {data : Record} {p : Rec} {v : Record}
    (h : owed table base (.writeCall r wt data :: log) p = some v) :
    owed table base log p = some v := by
  cases wt with
  | wrall => exact h
  | wrdir => exact h
  | wrual =>
      simp only [owed, killBlock] at h
      split at h
      · exact absurd h (by simp)
      · exact h

/-! ### Reading and writing -/

/-- What a `READ` or `WRITE` leaves behind; `entry` is its entry in the log. -/
structure Answered (table : DriveTable) (fdc : Nat → Attempt)
    (base : Rec → Option Record) (m m' : Machine) (code : Nat) : Prop where
  inv : Inv table (owed table base m'.log) m'
  hostbuf : m'.hostbuf = m.request.host (table.format m.cpmDisk)
  diskError : m'.diskError = false
  noFault : FaultFree fdc → m.diskError = false → code = 0
  error : code = 0 → m.diskError = false

theorem biosRead_answered (fdc : Nat → Attempt) (hm : Inv table (owed table base m.log) m)
    (hlegal : m.request.Legal (table.format m.cpmDisk)) :
    ∃ code data rest, (biosRead fdc m).log = .readDone m.request code data :: rest ∧
      rest.filter Event.isCall = m.log.filter Event.isCall ∧
      Answered table fdc base m (biosRead fdc m) code ∧
      (code = 0 → ∀ v, owed table base m.log m.request = some v → data = v) := by
  have hres : ReadResult table fdc (owed table base m.log) m (xread fdc m).1 (xread fdc m).2 :=
    xread_result hm.wf hlegal hm.presents
  unfold biosRead
  generalize xread fdc m = result at hres ⊢
  obtain ⟨m', code⟩ := result
  have hlog : owed table base (.readDone m.request code m'.dmaRecord :: m'.log) =
      if code = 0 then owed table base m.log else fun _ => none := by
    simp only [owed]
    rw [owed_congr hres.calls]
  refine ⟨code, m'.dmaRecord, m'.log, rfl, hres.calls, ?_, fun hcode => (hres.done hcode).2.2⟩
  refine ⟨?_, hres.hostbuf, hres.diskError, hres.noFault, fun hcode => (hres.done hcode).1⟩
  refine ⟨hres.wf.congr rfl, ?_, ?_⟩
  · intro _
    simp only [hlog]
    split
    · exact (hres.done ‹_›).2.1
    · exact presents_none table _
  · intro hcount
    exact absurd hres.unallocCount hcount

theorem continuesRun_iff :
    m.continuesRun = true ↔ m.unallocCount ≠ 0 ∧ m.request = m.unalloc := by
  simp only [Machine.continuesRun, decide_eq_true_eq]

theorem openRun_request (wt : WriteType) (m : Machine) :
    (openRun wt m).request = m.request := by
  unfold openRun
  split <;> rfl

theorem openRun_hstbuf (wt : WriteType) (m : Machine) :
    (openRun wt m).hstbuf = m.hstbuf := by
  unfold openRun
  split <;> rfl

theorem openRun_diskError (wt : WriteType) (m : Machine) :
    (openRun wt m).diskError = m.diskError := by
  unfold openRun
  split <;> rfl

theorem openRun_sp (wt : WriteType) (m : Machine) : (openRun wt m).sp = m.sp := by
  unfold openRun
  split <;> rfl

/-- A write that continues the run moves it on by one record. -/
theorem startWrite_continues {wt : WriteType}
    (hcontinues : (openRun wt m).continuesRun = true) :
    (stepRun (openRun wt m)).unallocCount = (openRun wt m).unallocCount - 1 ∧
      (stepRun (openRun wt m)).unalloc = m.request.succ m.sp.cpmSectorsPerTrack := by
  have hnext := (continuesRun_iff.mp hcontinues).2
  rw [openRun_request] at hnext
  unfold stepRun
  rw [if_pos hcontinues]
  refine ⟨rfl, ?_⟩
  rw [hnext, ← openRun_sp wt m]

/-- The run after a write: it has ended, or it was continued and moved on. -/
theorem xwrite_runInv {wt : WriteType} {code : Nat}
    (hlegal : m.request.Legal (table.format m.cpmDisk))
    (hsp : m.sp = fspa (table.format m.cpmDisk))
    (hopen : (openRun wt m).continuesRun = true →
      ∃ q, lastUnalloc m.log = some q ∧ RunAt table want q (openRun wt m))
    (hres : WriteResult table fdc want wt m m' code) :
    RunInv table
      (if code = 0 then writeRecord want m.request m.dmaRecord else fun _ => none) m' := by
  intro hcount
  rw [hres.unallocCount] at hcount
  have hcontinues : (openRun wt m).continuesRun = true := by
    by_contra h
    exact hcount (startWrite_unallocCount wt (Bool.eq_false_of_not_eq_true h))
  obtain ⟨q, hq, hrun⟩ := hopen hcontinues
  refine ⟨q, (lastUnalloc_congr hres.calls).trans hq, ?_⟩
  obtain ⟨hcount0, hnext⟩ := continuesRun_iff.mp hcontinues
  rw [openRun_request] at hnext
  have hdisk : q.disk = m.cpmDisk := by
    rw [← hrun.disk, ← hnext]
    rfl
  obtain ⟨hcount', hunalloc'⟩ := startWrite_continues hcontinues
  refine hrun.advance hcount0 ?_ ?_ ?_ ?_ ?_
  · rw [← hnext, hdisk]
    exact hlegal
  · rw [hres.unallocCount, hcount']
  · rw [hres.unalloc, hunalloc', hnext, hsp, hdisk]
  · intro r v hne hv
    -- after a failure nothing is owed
    by_cases hcode : code = 0
    · rw [if_pos hcode] at hv
      simp only [writeRecord] at hv
      rw [if_neg (by rw [hnext]; exact hne)] at hv
      exact hv
    · rw [if_neg hcode] at hv
      exact absurd hv (by simp)
  · intro _ k v hdemand
    by_cases hcode : code = 0
    · obtain ⟨_, hvalid, hpres⟩ := hres.done hcode
      apply hpres.line_eq (Or.inl hvalid)
      show demandOf table _ m'.hostbuf k = some v
      rw [hres.hostbuf]
      rw [if_pos hcode, ← hnext, hdisk] at hdemand
      exact hdemand
    · rw [if_neg hcode, demandOf_eq_some] at hdemand
      exact absurd hdemand.2.2 (by simp)

theorem openRun_noteWrite (wt : WriteType) (m : Machine) :
    openRun wt (noteWrite wt m) =
      { openRun wt m with log := .writeCall m.request wt m.dmaRecord :: m.log } := by
  unfold openRun noteWrite
  split <;> rfl

/-- A write that continues a run, or opens one. -/
theorem noteWrite_run {wt : WriteType} (hm : Inv table (owed table base m.log) m)
    (harea : wt = .wrual → m.request.InArea (table.format m.cpmDisk))
    (hstays : StaysInBlock table m wt)
    (hcontinues : (openRun wt (noteWrite wt m)).continuesRun = true) :
    ∃ q, lastUnalloc (noteWrite wt m).log = some q ∧
      RunAt table (owed table base (noteWrite wt m).log) q (openRun wt (noteWrite wt m)) ∧
      (slots (table.format m.cpmDisk) ≠ 1 → SameBlock table q m.request) := by
  rw [openRun_noteWrite] at hcontinues ⊢
  obtain ⟨q, hq, hrun, hblock⟩ := openRun_run hm harea hstays hcontinues
  exact ⟨q, hq, hrun.congr rfl rfl rfl id, hblock⟩

theorem noteWrite_result (fdc : Nat → Attempt) {wt : WriteType}
    (hm : Inv table (owed table base m.log) m)
    (hlegal : m.request.Legal (table.format m.cpmDisk))
    (harea : wt = .wrual → m.request.InArea (table.format m.cpmDisk))
    (hstays : StaysInBlock table m wt) :
    WriteResult table fdc (owed table base (noteWrite wt m).log) wt (noteWrite wt m)
      (xwrite fdc wt (noteWrite wt m)).1 (xwrite fdc wt (noteWrite wt m)).2 := by
  have hwf0 : Wf table (noteWrite wt m) := hm.wf.congr rfl
  -- a call of WRITE can only make less of what is owed
  have hpres0 : m.diskError = false →
      Presents table (owed table base (noteWrite wt m).log) m :=
    fun herr => presents_mono (hm.presents herr) (fun _ _ h => owed_writeCall_le h)
  refine xwrite_result wt hwf0 hlegal hpres0 ?_
  intro hcontinues hslots herr k v hdemand
  obtain ⟨q, _, hrun, hblock⟩ := noteWrite_run hm harea hstays hcontinues
  have hnext := (continuesRun_iff.mp hcontinues).2
  rw [openRun_request] at hnext
  have hdisk : q.disk = m.cpmDisk := (hblock hslots).1.symm
  have hbuffer := hrun.buffer
  rw [← hnext, hdisk, openRun_hstbuf, openRun_diskError] at hbuffer
  exact hbuffer (hblock hslots) herr k v hdemand

/-- A write stays at its record. -/
theorem biosWrite_request (fdc : Nat → Attempt) {wt : WriteType}
    (hm : Inv table (owed table base m.log) m)
    (hlegal : m.request.Legal (table.format m.cpmDisk))
    (harea : wt = .wrual → m.request.InArea (table.format m.cpmDisk))
    (hstays : StaysInBlock table m wt) : (biosWrite fdc wt m).request = m.request :=
  (noteWrite_result fdc hm hlegal harea hstays).request

theorem biosWrite_answered (fdc : Nat → Attempt) {wt : WriteType}
    (hm : Inv table (owed table base m.log) m)
    (hlegal : m.request.Legal (table.format m.cpmDisk))
    (harea : wt = .wrual → m.request.InArea (table.format m.cpmDisk))
    (hstays : StaysInBlock table m wt) :
    ∃ code rest,
      (biosWrite fdc wt m).log = .writeDone m.request wt m.dmaRecord code :: rest ∧
      rest.filter Event.isCall =
        .writeCall m.request wt m.dmaRecord :: m.log.filter Event.isCall ∧
      Answered table fdc base m (biosWrite fdc wt m) code := by
  have hres := noteWrite_result fdc hm hlegal harea hstays
  have hopen := @noteWrite_run table base m wt hm harea hstays
  have hsp : (noteWrite wt m).sp = fspa (table.format m.cpmDisk) := hm.wf.selected.sp
  unfold biosWrite
  generalize xwrite fdc wt (noteWrite wt m) = result at hres ⊢
  obtain ⟨m', code⟩ := result
  have hlog : owed table base (.writeDone m.request wt m.dmaRecord code :: m'.log) =
      if code = 0 then
        writeRecord (owed table base (noteWrite wt m).log) m.request m.dmaRecord
      else fun _ => none := by
    simp only [owed]
    rw [owed_congr hres.calls]
  refine ⟨code, m'.log, rfl, hres.calls, ?_⟩
  refine ⟨?_, hres.hostbuf, hres.diskError, hres.noFault, fun hcode => (hres.done hcode).1⟩
  refine ⟨hres.wf.congr rfl, ?_, ?_⟩
  · intro _
    simp only [hlog]
    split
    · exact (hres.done ‹_›).2.2
    · exact presents_none table _
  · intro hcount
    obtain ⟨q, hq, hrun⟩ := xwrite_runInv (m := noteWrite wt m) hlegal hsp
      (fun h => (hopen h).imp (fun q hq => ⟨hq.1, hq.2.1⟩)) hres hcount
    simp only [hlog]
    exact ⟨q, hq, hrun.congr rfl rfl rfl id⟩

/-! ### Programs -/

/-- The calls a program may make: drives 0 and 1, transfers inside the selected
drive's format, and writes of type 2 only where allocation blocks are. -/
def Addressed (table : DriveTable) (m : Machine) : Call → Prop
  | .seldsk drive => drive.toNat < 2
  | .read => m.request.Legal (table.format m.cpmDisk)
  | .write wt => m.request.Legal (table.format m.cpmDisk) ∧
      (wt = .wrual → m.request.InArea (table.format m.cpmDisk))
  | _ => True

/-- In addition a write of type 2 addresses the first record of a block. -/
def BlockAligned (table : DriveTable) (m : Machine) : Call → Prop
  | .write .wrual => m.request.Legal (table.format m.cpmDisk) ∧ BlockStart table m.request
  | c => Addressed table m c

instance (table : DriveTable) (m : Machine) : ∀ c, Decidable (Addressed table m c)
  | .seldsk _ => inferInstanceAs (Decidable (_ < _))
  | .read => inferInstanceAs (Decidable (Rec.Legal _ _))
  | .write _ => inferInstanceAs (Decidable (_ ∧ _))
  | .settrk _ | .setsec _ | .setdma _ | .home | .compute _ => isTrue trivial

instance (table : DriveTable) (m : Machine) : ∀ c, Decidable (BlockAligned table m c)
  | .write .wrual => inferInstanceAs (Decidable (_ ∧ _))
  | .write .wrall | .write .wrdir => inferInstanceAs (Decidable (Addressed table m (.write _)))
  | .seldsk drive => inferInstanceAs (Decidable (Addressed table m (.seldsk drive)))
  | .read => inferInstanceAs (Decidable (Addressed table m .read))
  | .settrk _ | .setsec _ | .setdma _ | .home | .compute _ => isTrue trivial

theorem BlockAligned.addressed {c : Call} (hc : BlockAligned table m c) :
    Addressed table m c := by
  cases c with
  | write wt =>
      cases wt with
      | wrual => exact ⟨hc.1, fun _ => hc.2.1⟩
      | _ => exact hc
  | _ => exact hc

/-- Every call but `READ` and `WRITE` is quiet. -/
theorem call_quiet {c : Call} (hwf : Wf table m) (hc : Addressed table m c)
    (hread : c ≠ .read) (hwrite : ∀ wt, c ≠ .write wt) :
    Quiet table fdc m (call table fdc m c) := by
  -- calls that only set a variable
  have hset : ∀ track sector dma mem, Quiet table fdc m { m with
      cpmTrack := track, cpmSector := sector, cpmDmaAddr := dma, mem := mem } :=
    fun track sector dma mem => ⟨hwf.congr rfl, rfl, rfl, rfl, rfl, fun _ => rfl,
      fun herr => ⟨herr, fun _ hpres => hpres⟩⟩
  cases c with
  | seldsk drive => exact biosSeldskC_quiet hwf hc
  | settrk track => exact hset track.toNat m.cpmSector m.cpmDmaAddr m.mem
  | setsec sector => exact hset m.cpmTrack sector.toNat m.cpmDmaAddr m.mem
  | setdma addr => exact hset m.cpmTrack m.cpmSector addr m.mem
  | home => exact biosHome_quiet hwf
  | read => exact absurd rfl hread
  | write wt => exact absurd rfl (hwrite wt)
  | compute mem => exact hset m.cpmTrack m.cpmSector m.cpmDmaAddr mem

/-- **One call keeps the invariant**, whatever the controller does. -/
theorem call_inv (fdc : Nat → Attempt) {c : Call} (hm : Inv table (owed table base m.log) m)
    (hc : Addressed table m c) (hstays : ∀ wt, c = .write wt → StaysInBlock table m wt) :
    Inv table (owed table base (call table fdc m c).log) (call table fdc m c) := by
  by_cases hread : c = .read
  · subst hread
    obtain ⟨_, _, _, _, _, hanswer, _⟩ := biosRead_answered fdc hm hc
    exact hanswer.inv
  · by_cases hwrite : ∃ wt, c = .write wt
    · obtain ⟨wt, rfl⟩ := hwrite
      obtain ⟨_, _, _, _, hanswer⟩ := biosWrite_answered fdc hm hc.1 hc.2 (hstays wt rfl)
      exact hanswer.inv
    · have hquiet : Quiet table fdc m (call table fdc m c) :=
        call_quiet hm.wf hc hread (not_exists.mp hwrite)
      rw [owed_congr hquiet.calls]
      exact hm.quiet hquiet

/-- The call is a write of type 2. -/
def Call.isUnalloc : Call → Bool
  | .write .wrual => true
  | _ => false

/-- The last write of type 2 after a call. -/
theorem call_lastUnalloc (fdc : Nat → Attempt) {c : Call}
    (hm : Inv table (owed table base m.log) m) (hc : Addressed table m c)
    (hstays : ∀ wt, c = .write wt → StaysInBlock table m wt) :
    lastUnalloc (call table fdc m c).log =
      if c.isUnalloc then some m.request else lastUnalloc m.log := by
  by_cases hread : c = .read
  · subst hread
    obtain ⟨_, _, rest, hlog, hcalls, _⟩ := biosRead_answered fdc hm hc
    show lastUnalloc (biosRead fdc m).log = lastUnalloc m.log
    rw [hlog]
    show lastUnalloc rest = lastUnalloc m.log
    exact lastUnalloc_congr hcalls
  · by_cases hwrite : ∃ wt, c = .write wt
    · obtain ⟨wt, rfl⟩ := hwrite
      obtain ⟨_, rest, hlog, hcalls, _⟩ :=
        biosWrite_answered fdc hm hc.1 hc.2 (hstays wt rfl)
      have hcalls' : rest.filter Event.isCall =
          (Event.writeCall m.request wt m.dmaRecord :: m.log).filter Event.isCall := hcalls
      show lastUnalloc (biosWrite fdc wt m).log = _
      rw [hlog]
      show lastUnalloc rest = _
      rw [lastUnalloc_congr hcalls']
      cases wt <;> rfl
    · have hquiet : Quiet table fdc m (call table fdc m c) :=
        call_quiet hm.wf hc hread (not_exists.mp hwrite)
      rw [lastUnalloc_congr hquiet.calls, if_neg]
      cases c with
      | write wt => exact absurd ⟨wt, rfl⟩ hwrite
      | _ => exact Bool.false_ne_true

/-- The last run was opened at the first record of a block. -/
def StartsAligned (table : DriveTable) (m : Machine) : Prop :=
  ∀ q ∈ lastUnalloc m.log, BlockStart table q

/-- Runs opened at the first record of a block never leave it. -/
theorem StartsAligned.staysInBlock {wt : WriteType} (hm : Inv table want m)
    (hstart : StartsAligned table m) : StaysInBlock table m wt := by
  intro _ hcontinues _
  obtain ⟨hcount, hnext⟩ := continuesRun_iff.mp hcontinues
  obtain ⟨q, hq, hrun⟩ := hm.run hcount
  refine ⟨q, hq, ?_⟩
  rw [hnext]
  exact hrun.toRunShape.sameBlock (hstart q hq) hcount

theorem StartsAligned.call {c : Call} (hm : Inv table (owed table base m.log) m)
    (hstart : StartsAligned table m) (hc : BlockAligned table m c) :
    StartsAligned table (call table fdc m c) := by
  unfold StartsAligned
  rw [call_lastUnalloc fdc hm hc.addressed (fun _ _ => hstart.staysInBlock hm)]
  split
  · rename_i hwrite
    cases c with
    | write wt =>
        cases wt with
        | wrual =>
            intro q hq
            cases hq
            exact hc.2
        | _ => exact absurd hwrite Bool.false_ne_true
    | _ => exact absurd hwrite Bool.false_ne_true
  · exact hstart

/-! ### The start and the end of a run -/

/-- The record `r` as it stands on the disk. -/
def recordAt (table : DriveTable) (disk : Chs → Nat → Byte) (r : Rec) : Record :=
  slotOf (disk ((r.host (table.format r.disk)).chs (table.format r.disk)))
    (r.slot (table.format r.disk))

/-- All records of the disk as they stand. -/
def originals (table : DriveTable) (disk : Chs → Nat → Byte) : Rec → Option Record :=
  fun r => some (recordAt table disk r)

/-- After boot the disks are the caller's map. -/
theorem boot_inv (table : DriveTable) (fdc : Nat → Attempt) (mem : Word → Byte)
    (disk : Chs → Nat → Byte) :
    Inv table (originals table disk) (boot table fdc mem disk) := by
  have hboot : boot table fdc mem disk = selectDrive table 0 (biosHwInit table mem disk) := by
    unfold boot biosSeldskC
    rw [if_neg (Nat.not_lt_zero _)]
    simp only
    rw [if_neg (by simp [biosHwInit])]
    rfl
  rw [hboot]
  refine ⟨⟨Nat.zero_lt_two, ⟨rfl, rfl, rfl⟩, rfl, ?_, ?_⟩, fun _ => ⟨?_, ?_⟩, ?_⟩
  · rintro (h | h) <;> exact absurd h Bool.false_ne_true
  · intro h
    exact absurd h Bool.false_ne_true
  · rintro (h | h) <;> exact absurd h Bool.false_ne_true
  · intro host k v hdemand _
    rw [demandOf_eq_some] at hdemand
    obtain ⟨_, hk, hwant⟩ := hdemand
    rw [← Option.some.inj hwant]
    have hdisk : (host.record (table.format host.disk) k).disk = host.disk := rfl
    unfold recordAt
    rw [hdisk, HostSector.host_record _ host hk, HostSector.slot_record _ host hk]
    rfl
  · intro h
    exact absurd rfl h

/-- The final flush of a dirty host buffer. -/
def flushBuffer (fdc : Nat → Attempt) (m : Machine) : Machine :=
  if m.hostbufDirty then wrthst fdc m else m

/-- After the final flush the disk holds what is owed, if the flush succeeds. -/
theorem flushBuffer_presents (hm : Inv table want m)
    (herr : (flushBuffer fdc m).diskError = false)
    (hlegal : r.Legal (table.format r.disk)) {v : Record} (hr : want r = some v) :
    recordAt table (flushBuffer fdc m).disk r = v := by
  have hdemand := demandOf_record want hlegal
  rw [hr] at hdemand
  unfold flushBuffer at herr ⊢
  split at herr
  · rename_i hdirty
    rw [if_pos hdirty]
    have hformat := hm.wf.format_of_dirty hdirty
    obtain ⟨n, disk, done, heq, _, hstore⟩ := wrthst_presents fdc hm.wf.selected hformat
      (hformat ▸ hm.wf.hostbuf_legal (Or.inr hdirty))
    rw [heq] at herr ⊢
    have hdone : done = true ∧ m.diskError = false := by
      simpa [afterWrite] using herr
    exact hstore hdone.1 want m.hostbufDirty (hm.presents hdone.2) (Or.inr hdirty) _ _ v hdemand
  · rename_i hdirty
    rw [if_neg hdirty]
    exact (hm.presents herr).store_of_clean (fun h => hdirty h.2) _ _ v hdemand

/-- On a fault-free drive the final flush succeeds. -/
theorem flushBuffer_diskError (hm : Wf table m) (hfdc : FaultFree fdc) :
    (flushBuffer fdc m).diskError = m.diskError := by
  unfold flushBuffer
  split
  · rename_i hdirty
    have hformat := hm.format_of_dirty hdirty
    obtain ⟨n, disk, done, heq, hfree, _⟩ := wrthst_presents fdc hm.selected hformat
      (hformat ▸ hm.hostbuf_legal (Or.inr hdirty))
    rw [heq]
    simp [afterWrite, hfree hfdc]
  · rfl

end Disk
end Rc700
