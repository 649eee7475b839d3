import Rc700.Disk.Deblocking

/-!
# Writes without pre-read

`xwrite` skips the pre-read of a host sector while it believes to be filling a
fresh block.  It counts a full block's worth of records from the record of the
last write of type 2, wherever in its block that record lies.  So a run opened
inside a block can reach the next block, and the first write there takes the
host sector over without reading it: `preRead_destroys_live_record`.

What a program has to keep to is a matter of its requests alone: `chain` reads
off them how far they have followed the last write of type 2, and as long as
the records that follow one another stay inside its block, nothing is lost.
-/

namespace Rc700
namespace Disk

open Library

variable {table : DriveTable} {fdc : Nat → Attempt} {base : Rec → Option Record}
  {m m' : Machine} {log : List Event}

/-- Every host sector of several records that was taken over without pre-read
lies in the block opened by the last write of type 2. -/
def TagsInBlock (table : DriveTable) : List Event → Prop
  | [] => True
  | .tagged host false :: log =>
      (slots (table.format host.disk) ≠ 1 →
        ∃ q ∈ lastUnalloc log, ∀ k, k < slots (table.format host.disk) →
          SameBlock table q (host.record (table.format host.disk) k)) ∧
        TagsInBlock table log
  | _ :: log => TagsInBlock table log

theorem TagsInBlock.tagged (hlog : TagsInBlock table log) {host : HostSector}
    {earlier : List Event} (htag : (.tagged host false :: earlier) <:+ log)
    (hslots : slots (table.format host.disk) ≠ 1) :
    ∃ q ∈ lastUnalloc earlier, ∀ k, k < slots (table.format host.disk) →
      SameBlock table q (host.record (table.format host.disk) k) := by
  induction log with
  | nil => exact absurd htag (by simp)
  | cons e log ih =>
      rcases List.suffix_cons_iff.mp htag with heq | hlater
      · cases heq
        exact hlog.1 hslots
      · refine ih ?_ hlater
        cases e with
        | tagged host preRead =>
            cases preRead
            · exact hlog.2
            · exact hlog
        | _ => exact hlog

/-! ### Only tagging matters -/

theorem tagsInBlock_wrthst (fdc : Nat → Attempt) :
    TagsInBlock table (wrthst fdc m).log ↔ TagsInBlock table m.log := by
  rw [(wrthst_log fdc m).1]
  split <;> rfl

theorem tagsInBlock_rdhst (fdc : Nat → Attempt) :
    TagsInBlock table (rdhst fdc m).log ↔ TagsInBlock table m.log := by
  rw [(rdhst_log fdc m).1]
  split <;> rfl

theorem tagsInBlock_moveRecord :
    TagsInBlock table (moveRecord m).log ↔ TagsInBlock table m.log := by
  unfold moveRecord
  split <;> rfl

theorem tagsInBlock_finish (fdc : Nat → Attempt) :
    TagsInBlock table (finish fdc m).1.log ↔ TagsInBlock table m.log := by
  by_cases herr : m.diskError = true
  · rw [finish_of_error herr]
  · have herr' := Bool.eq_false_of_not_eq_true herr
    by_cases hdir : m.writeType = .wrdir
    · rw [finish_of_directory herr' hdir]
      exact tagsInBlock_wrthst fdc
    · rw [finish_of_ok herr' hdir]

theorem tagsInBlock_biosHome (fdc : Nat → Attempt) :
    TagsInBlock table (biosHome fdc m).log ↔ TagsInBlock table m.log := by
  unfold biosHome
  split
  · exact tagsInBlock_wrthst fdc
  · rfl

theorem tagsInBlock_biosSeldskC (fdc : Nat → Attempt) (drive : Nat) :
    TagsInBlock table (biosSeldskC table fdc drive m).1.log ↔ TagsInBlock table m.log := by
  unfold biosSeldskC
  split
  · rfl
  · simp only
    split
    · exact tagsInBlock_wrthst fdc
    · rfl

/-- Taking a host sector over needs a pre-read, or a block around it. -/
theorem tagsInBlock_selectHost (fdc : Nat → Attempt) (hwf : Wf table m)
    (hlegal : m.request.Legal (table.format m.cpmDisk)) (hm : TagsInBlock table m.log)
    (hblock : m.needPreRead = false → slots (table.format m.cpmDisk) ≠ 1 →
      ∃ q ∈ lastUnalloc m.log, SameBlock table q m.request) :
    TagsInBlock table (selectHost fdc m).log := by
  rw [selectHost_eq fdc hwf.selected hlegal]
  split
  · exact hm
  · obtain ⟨_, hsame, _, hneed, _⟩ := flushHost_presents fdc (fun _ => none) hwf.locateHost
    have hflushed : TagsInBlock table (flushHost fdc (locateHost m)).log := by
      unfold flushHost
      split
      · exact (tagsInBlock_wrthst fdc).mpr hm
      · exact hm
    have hlast : lastUnalloc (flushHost fdc (locateHost m)).log = lastUnalloc m.log :=
      lastUnalloc_congr hsame.calls
    change _ = m.needPreRead at hneed
    generalize flushHost fdc (locateHost m) = m1 at hneed hflushed hlast
    have htagged : TagsInBlock table
        (tagHost (m.request.host (table.format m.cpmDisk)) m1).log := by
      unfold tagHost
      cases hpre : m1.needPreRead with
      | true => exact hflushed
      | false =>
          refine ⟨fun hslots => ?_, hflushed⟩
          rw [hlast]
          obtain ⟨q, hq, hsame⟩ := hblock (hneed.symm.trans hpre) hslots
          refine ⟨q, hq, fun k hk => ?_⟩
          have hdisk : q.disk = m.cpmDisk := hsame.1.symm
          apply hsame.of_host_eq
          rw [hdisk]
          exact HostSector.host_record _ _ hk
    unfold fillHost
    split
    · exact (tagsInBlock_rdhst fdc).mpr htagged
    · exact htagged

/-! ### Writes that follow one another -/

/-- How many records are written without pre-read, from that of a write of type 2
on: as many as a block has, and half as many in format 3. -/
def runLength (f : Fin 4) : Nat := if f.val = 3 then blockRecords f / 2 else blockRecords f

theorem recordsPerAllocBlock_eq (f : Fin 4) :
    (fspa f).recordsPerAllocBlock = runLength f := by
  fin_cases f <;> rfl

/-- Record `r` is the `n`-th behind `q`. -/
def Follows (table : DriveTable) (q : Rec) (n : Nat) (r : Rec) : Prop :=
  r.disk = q.disk ∧
    q.InArea (table.format q.disk) ∧ r.InArea (table.format q.disk) ∧
    r.index (table.format q.disk) = q.index (table.format q.disk) + n

instance (table : DriveTable) (q : Rec) (n : Nat) (r : Rec) : Decidable (Follows table q n r) :=
  inferInstanceAs (Decidable (_ ∧ _))

/-- The record of the last write of type 2, and how many records were written
from it on, if no other was, and none was read. -/
def chain (table : DriveTable) : List Event → Option (Rec × Nat)
  | [] => none
  | .writeCall r .wrual _ :: _ => some (r, 1)
  | .writeCall r _ _ :: log =>
      (chain table log).bind fun c =>
        if Follows table c.1 c.2 r then some (c.1, c.2 + 1) else none
  | .readDone _ _ _ :: _ => none
  | _ :: log => chain table log

theorem chain_filter (log : List Event) :
    chain table (log.filter Event.isCall) = chain table log := by
  induction log with
  | nil => rfl
  | cons e log ih =>
      cases e with
      | writeCall r wt data =>
          cases wt with
          | wrual => rfl
          | wrall | wrdir => exact congrArg (Option.bind · _) ih
      | readDone r code data => rfl
      | _ => exact ih

theorem chain_congr {log' : List Event}
    (hcalls : log'.filter Event.isCall = log.filter Event.isCall) :
    chain table log' = chain table log := by
  rw [← chain_filter log', hcalls, chain_filter]

/-- It begins at the last write of type 2. -/
theorem lastUnalloc_of_chain {q : Rec} {n : Nat} (hchain : chain table log = some (q, n)) :
    lastUnalloc log = some q := by
  induction log generalizing q n with
  | nil => exact nomatch hchain
  | cons e log ih =>
      cases e with
      | writeCall r wt data =>
          cases wt with
          | wrual => exact congrArg some (Prod.mk.inj (Option.some.inj hchain)).1
          | wrall | wrdir =>
              obtain ⟨⟨q', n'⟩, hc, hnext⟩ := Option.bind_eq_some_iff.mp hchain
              split at hnext
              · exact (ih hc).trans (congrArg some (Prod.mk.inj (Option.some.inj hnext)).1)
              · exact nomatch hnext
      | readDone r code data => exact nomatch hchain
      | _ => exact ih hchain

/-- A write that is not of type 2 stays inside the block of the last that was, if
it is one of the records that follow it. -/
def StaysInside (table : DriveTable) (m : Machine) (wt : WriteType) : Prop :=
  wt ≠ .wrual → slots (table.format m.cpmDisk) ≠ 1 →
    ∀ c ∈ chain table m.log, Follows table c.1 c.2 m.request →
      c.2 < runLength (table.format c.1.disk) →
      c.1.index (table.format c.1.disk) % blockRecords (table.format c.1.disk) + c.2 <
        blockRecords (table.format c.1.disk)

instance (table : DriveTable) (m : Machine) (wt : WriteType) :
    Decidable (StaysInside table m wt) :=
  inferInstanceAs (Decidable (_ → _ → ∀ c ∈ chain table m.log, _ → _ → _))

/-- The driver counts down what is left of the run. -/
def Counts (table : DriveTable) (m : Machine) : Prop :=
  m.unallocCount ≠ 0 → ∃ q n, chain table m.log = some (q, n) ∧
    m.unallocCount + n = runLength (table.format q.disk)

/-- The record it waits for is the next of those that follow. -/
theorem Counts.follows {want : Rec → Option Record} (hcounts : Counts table m)
    (hm : Inv table want m) (hcount : m.unallocCount ≠ 0) :
    ∃ q n, chain table m.log = some (q, n) ∧
      m.unallocCount + n = runLength (table.format q.disk) ∧ Follows table q n m.unalloc := by
  obtain ⟨q, n, hchain, hsum⟩ := hcounts hcount
  obtain ⟨q', hq, hrun⟩ := hm.run hcount
  rw [lastUnalloc_of_chain hchain] at hq
  obtain rfl := Option.some.inj hq
  have hindex := hrun.count
  rw [recordsPerAllocBlock_eq] at hindex
  exact ⟨q, n, hchain, hsum, hrun.disk, hrun.start_area, hrun.area, by omega⟩

/-- So a program that stays inside its blocks makes the driver stay there. -/
theorem Counts.staysInBlock {want : Rec → Option Record} {wt : WriteType}
    (hcounts : Counts table m) (hm : Inv table want m) (hinside : StaysInside table m wt) :
    StaysInBlock table m wt := by
  intro hwt hcontinues hslots
  obtain ⟨hcount, hnext⟩ := continuesRun_iff.mp hcontinues
  obtain ⟨q, n, hchain, hsum, hfollows⟩ := hcounts.follows hm hcount
  rw [← hnext] at hfollows
  have hroom := hinside hwt hslots (q, n) hchain hfollows (by dsimp only; omega)
  obtain ⟨hdisk, hstart, harea, hindex⟩ := hfollows
  refine ⟨q, lastUnalloc_of_chain hchain, hdisk, hstart, harea, ?_⟩
  rw [hindex]
  dsimp only at hroom
  generalize q.index (table.format q.disk) = i at hroom ⊢
  generalize blockRecords (table.format q.disk) = blk at hroom ⊢
  have hsplit := Nat.div_add_mod i blk
  refine Nat.div_eq_of_lt_le ?_ ?_
  · rw [Nat.mul_comm]
    omega
  · rw [Nat.mul_comm, Nat.mul_add, Nat.mul_one]
    omega

/-- A write moves the chain on, if it moves the run on. -/
theorem Counts.write {wt : WriteType} (fdc : Nat → Attempt) (hcounts : Counts table m)
    (hm : Inv table (owed table base m.log) m) (hc : Addressed table m (.write wt))
    (hstays : StaysInBlock table m wt) : Counts table (biosWrite fdc wt m) := by
  have hres := noteWrite_result fdc hm hc.1 hc.2 hstays
  have hlog : chain table (biosWrite fdc wt m).log =
      chain table (.writeCall m.request wt m.dmaRecord :: m.log) := by
    show chain table (xwrite fdc wt (noteWrite wt m)).1.log = _
    exact chain_congr hres.calls
  have hcount : (biosWrite fdc wt m).unallocCount =
      (stepRun (openRun wt (noteWrite wt m))).unallocCount := hres.unallocCount
  intro hopen
  rw [hcount] at hopen
  have hcontinues : (openRun wt (noteWrite wt m)).continuesRun = true := by
    by_contra h
    exact hopen (startWrite_unallocCount wt (Bool.eq_false_of_not_eq_true h))
  rw [hlog, hcount, (startWrite_continues hcontinues).1]
  rw [openRun_noteWrite] at hcontinues ⊢
  obtain ⟨hleft, hnext⟩ := continuesRun_iff.mp hcontinues
  by_cases hwt : wt = .wrual
  · -- the run that is opened is as long as the drive's parameters say
    subst hwt
    have hlength : (openRun .wrual m).unallocCount = runLength (table.format m.cpmDisk) := by
      rw [← recordsPerAllocBlock_eq, ← hm.wf.selected.sp]
      rfl
    have hopened : (openRun .wrual m).unallocCount ≠ 0 := hleft
    refine ⟨m.request, 1, rfl, ?_⟩
    show (openRun .wrual m).unallocCount - 1 + 1 = runLength (table.format m.cpmDisk)
    omega
  · have hsame : openRun wt m = { m with isRead := false, writeType := wt } := by
      simp only [openRun, hwt, if_false]
    rw [hsame] at hleft hnext ⊢
    have hbefore : m.unallocCount ≠ 0 := hleft
    have hrequest : m.request = m.unalloc := hnext
    obtain ⟨q, n, hchain, hsum, hfollows⟩ := hcounts.follows hm hbefore
    rw [← hrequest] at hfollows
    have hlonger : chain table (.writeCall m.request wt m.dmaRecord :: m.log) =
        (chain table m.log).bind fun c =>
          if Follows table c.1 c.2 m.request then some (c.1, c.2 + 1) else none := by
      cases wt with
      | wrual => exact absurd rfl hwt
      | wrall | wrdir => rfl
    refine ⟨q, n + 1, ?_, ?_⟩
    · rw [hlonger, hchain, Option.bind_some, if_pos hfollows]
    · show m.unallocCount - 1 + (n + 1) = _
      omega

theorem Counts.call (fdc : Nat → Attempt) {c : Call} (hcounts : Counts table m)
    (hm : Inv table (owed table base m.log) m) (hc : Addressed table m c)
    (hstays : ∀ wt, c = .write wt → StaysInBlock table m wt) :
    Counts table (call table fdc m c) := by
  by_cases hread : c = .read
  · -- a read ends the run
    subst hread
    intro hcount
    exact absurd (xread_result hm.wf hc hm.presents).unallocCount hcount
  · by_cases hwrite : ∃ wt, c = .write wt
    · obtain ⟨wt, rfl⟩ := hwrite
      exact hcounts.write fdc hm hc (hstays wt rfl)
    · have hquiet : Quiet table fdc m (Disk.call table fdc m c) :=
        call_quiet hm.wf hc hread (not_exists.mp hwrite)
      intro hcount
      rw [hquiet.unallocCount] at hcount ⊢
      rw [chain_congr hquiet.calls]
      exact hcounts hcount

/-! ### Whole calls and runs -/

/-- A write opens a run in the block of its record, or continues one there. -/
theorem continuation_in_block {wt : WriteType} (hm : Inv table (owed table base m.log) m)
    (hc : Addressed table m (.write wt)) (hstays : StaysInBlock table m wt)
    (hneed : (stepRun (openRun wt (noteWrite wt m))).needPreRead = false)
    (hslots : slots (table.format m.cpmDisk) ≠ 1) :
    ∃ q ∈ lastUnalloc (noteWrite wt m).log, SameBlock table q m.request := by
  have hsp : (noteWrite wt m).sp = fspa (table.format m.cpmDisk) := hm.wf.selected.sp
  rw [startWrite_needPreRead wt hsp] at hneed
  have hcontinues : (openRun wt (noteWrite wt m)).continuesRun = true := by
    simpa [hslots] using hneed
  rw [openRun_noteWrite] at hcontinues
  obtain ⟨q, hq, _, hblock⟩ := openRun_run hm hc.2 hstays hcontinues
  exact ⟨q, hq, hblock hslots⟩

theorem tagsInBlock_call (fdc : Nat → Attempt) {c : Call}
    (hm : Inv table (owed table base m.log) m) (hc : Addressed table m c)
    (hstays : ∀ wt, c = .write wt → StaysInBlock table m wt)
    (htags : TagsInBlock table m.log) : TagsInBlock table (call table fdc m c).log := by
  -- only the two transfers read a sector
  cases c with
  | seldsk drive => exact (tagsInBlock_biosSeldskC fdc drive.toNat).mpr htags
  | settrk track => exact htags
  | setsec sector => exact htags
  | setdma addr => exact htags
  | home => exact (tagsInBlock_biosHome fdc).mpr htags
  | compute mem => exact htags
  | read =>
      show TagsInBlock table (xread fdc m).1.log
      unfold xread rwoper
      rw [tagsInBlock_finish, tagsInBlock_moveRecord]
      have hwf := hm.wf
      refine tagsInBlock_selectHost fdc
        ⟨hwf.disk_lt, ⟨hwf.selected.sp, hwf.selected.currentFormat, hwf.selected.side⟩,
          hwf.formatIdx, hwf.hostbuf_legal, hwf.dirty_format⟩ hc htags ?_
      intro h
      exact absurd h (by simp)
  | write wt =>
      show TagsInBlock table (xwrite fdc wt (noteWrite wt m)).1.log
      have hblock := continuation_in_block hm hc (hstays wt rfl)
      unfold xwrite rwoper
      rw [tagsInBlock_finish, tagsInBlock_moveRecord]
      have hstart := startWrite_eq wt (noteWrite wt m)
      generalize stepRun (openRun wt (noteWrite wt m)) = m0 at hblock hstart
      have hwf := hm.wf
      have hrequest : m0.request = m.request := by rw [hstart]; rfl
      have hcpmDisk : m0.cpmDisk = m.cpmDisk := by rw [hstart]; rfl
      have hlog : m0.log = (noteWrite wt m).log := by rw [hstart]
      refine tagsInBlock_selectHost fdc ?_ ?_ ?_ ?_
      · rw [hstart]
        exact ⟨hwf.disk_lt, ⟨hwf.selected.sp, hwf.selected.currentFormat,
          hwf.selected.side⟩, hwf.formatIdx, hwf.hostbuf_legal, hwf.dirty_format⟩
      · rw [hrequest, hcpmDisk]
        exact hc.1
      · rw [hlog]
        exact htags
      · rw [hrequest, hcpmDisk, hlog]
        exact hblock

/-- The caller wrote to the record, or declared its block dead. -/
def Event.touches (table : DriveTable) (r : Rec) : Event → Prop
  | .writeCall q wt _ => q = r ∨ (wt = .wrual ∧ SameBlock table q r)
  | .writeDone q _ _ _ => q = r
  | _ => False

instance (table : DriveTable) (r : Rec) : ∀ e, Decidable (Event.touches table r e)
  | .writeCall _ _ _ => inferInstanceAs (Decidable (_ ∨ _))
  | .writeDone _ _ _ _ => inferInstanceAs (Decidable (_ = _))
  | .tagged _ _ | .fetched _ _ | .fetchFailed _ | .stored _ _ | .storeFailed _ | .put _ _
  | .readDone _ _ _ => isFalse id

/-- The caller never wrote the record and it lies in no dead block. -/
def Untouched (table : DriveTable) (log : List Event) (r : Rec) : Prop :=
  ∀ e ∈ log, ¬ e.touches table r

instance (table : DriveTable) (log : List Event) (r : Rec) :
    Decidable (Untouched table log r) :=
  inferInstanceAs (Decidable (∀ e ∈ log, _))

/-- The store keeps what was not touched. -/
theorem contents_of_untouched {r : Rec} (hlog : Untouched table log r) :
    contents table base log r = base r := by
  induction log with
  | nil => rfl
  | cons e log ih =>
      have hrest := ih (fun e he => hlog e (List.mem_cons_of_mem _ he))
      have hhead := hlog e List.mem_cons_self
      cases e with
      | writeCall q wt data =>
          cases wt with
          | wrual =>
              simp only [Event.touches, true_and, not_or] at hhead
              simp only [contents, killBlock]
              rw [if_neg hhead.2]
              exact hrest
          | _ => exact hrest
      | writeDone q wt data code =>
          simp only [Event.touches] at hhead
          simp only [contents, writeRecord]
          rw [if_neg (fun h => hhead h.symm)]
          exact hrest
      | _ => exact hrest

/-- A call that, if it writes one of the records behind those of the last write of
type 2, stays inside its block. -/
def StaysAddressed (table : DriveTable) (m : Machine) : Call → Prop
  | .write wt => Addressed table m (.write wt) ∧ StaysInside table m wt
  | c => Addressed table m c

instance (table : DriveTable) (m : Machine) : ∀ c, Decidable (StaysAddressed table m c)
  | .write _ => inferInstanceAs (Decidable (_ ∧ _))
  | .seldsk drive => inferInstanceAs (Decidable (Addressed table m (.seldsk drive)))
  | .read => inferInstanceAs (Decidable (Addressed table m .read))
  | .settrk _ | .setsec _ | .setdma _ | .home | .compute _ => isTrue trivial

theorem StaysAddressed.split {c : Call} (hc : StaysAddressed table m c) :
    Addressed table m c ∧ ∀ wt, c = .write wt → StaysInside table m wt := by
  cases c with
  | write wt =>
      refine ⟨hc.1, fun wt' hwt => ?_⟩
      cases hwt
      exact hc.2
  | _ => exact ⟨hc, fun wt hwt => Call.noConfusion hwt⟩

/-- **Writes without pre-read keep live data**, in every run in which the records
that follow a write of type 2 stay inside its block: untouched records
are on the disk after the final flush, and every host sector of several records
that was taken over without pre-read lies inside the block opened last. -/
theorem preRead_keeps_live_data (table : DriveTable) (fdc : Nat → Attempt)
    (mem : Word → Byte) (disk : Chs → Nat → Byte) (calls : List Call)
    (hfdc : FaultFree fdc)
    (hcalls : EveryStep (call table fdc) (StaysAddressed table)
      (boot table fdc mem disk) calls) :
    (∀ r, r.Legal (table.format r.disk) →
      Untouched table (run table fdc (boot table fdc mem disk) calls).log r →
      recordAt table
          (flushBuffer fdc (run table fdc (boot table fdc mem disk) calls)).disk r =
        recordAt table disk r) ∧
    (∀ host earlier,
      (Event.tagged host false :: earlier) <:+
          (run table fdc (boot table fdc mem disk) calls).log →
      slots (table.format host.disk) ≠ 1 →
      ∃ q ∈ lastUnalloc earlier, ∀ k, k < slots (table.format host.disk) →
        SameBlock table q (host.record (table.format host.disk) k)) := by
  have hstep : ∀ m c, StaysAddressed table m c →
      Transparent table (originals table disk) m ∧ TagsInBlock table m.log ∧ Counts table m →
      Transparent table (originals table disk) (call table fdc m c) ∧
        TagsInBlock table (call table fdc m c).log ∧ Counts table (call table fdc m c) := by
    rintro m c hc ⟨hm, htags, hcounts⟩
    obtain ⟨hc, hinside⟩ := hc.split
    have hstays : ∀ wt, c = .write wt → StaysInBlock table m wt :=
      fun wt hwt => hcounts.staysInBlock hm.inv (hinside wt hwt)
    exact ⟨call_transparent hfdc hc hstays hm, tagsInBlock_call fdc hm.inv hc hstays htags,
      hcounts.call fdc hm.inv hc hstays⟩
  have hboot : TagsInBlock table (boot table fdc mem disk).log := by
    rw [boot_log]
    exact trivial
  have hcount : (boot table fdc mem disk).unallocCount = 0 := by
    simp [boot, biosSeldskC, biosHwInit]
  obtain ⟨hend, htags, -⟩ := foldl_invariant hstep hcalls
    ⟨boot_transparent table fdc mem disk, hboot, fun h => absurd hcount h⟩
  constructor
  · intro r hlegal hr
    exact hend.flushed hfdc hlegal (contents_of_untouched hr)
  · intro host earlier htag hslots
    exact htags.tagged htag hslots

/-- A new block is begun at its second record, and its last record stays
unwritten. -/
def innerCalls : List Call :=
  [.settrk 2#16, .setsec 1#16, .write .wrual, .setsec 2#16, .write .wrall, .home]

theorem preRead_keeps_live_data_inner :
    FaultFree reliable ∧
      EveryStep (call maxi512 reliable) (StaysAddressed maxi512)
        (boot maxi512 reliable (fun _ => 0#8) (fun _ _ => 0x55#8)) innerCalls ∧
      recordAt maxi512 (flushBuffer reliable (run maxi512 reliable
        (boot maxi512 reliable (fun _ => 0#8) (fun _ _ => 0x55#8)) innerCalls)).disk
        ⟨0, 2, 16⟩ = fun _ => 0x55#8 := by
  have hcalls : EveryStep (call maxi512 reliable) (StaysAddressed maxi512)
      (boot maxi512 reliable (fun _ => 0#8) (fun _ _ => 0x55#8)) innerCalls := by
    decide
  refine ⟨reliable_faultFree, hcalls, ?_⟩
  exact (preRead_keeps_live_data maxi512 reliable (fun _ => 0#8) (fun _ _ => 0x55#8)
    innerCalls reliable_faultFree hcalls).1 ⟨0, 2, 16⟩ (by decide) (by decide)

/-- The last record of a block is written first, as type 2; the next write goes
to the first record of the next block, which is in use. -/
def crossingCalls : List Call :=
  [.settrk 2#16, .setsec 15#16, .write .wrual, .setsec 16#16, .write .wrall, .home]

/-- **Live data is lost**: the second record of the next block, which was never
written and lies in no dead block, is overwritten with what the buffer held
before. -/
theorem preRead_destroys_live_record :
    FaultFree reliable ∧
      EveryStep (call maxi512 reliable) (Addressed maxi512)
        (boot maxi512 reliable (fun _ => 0#8) (fun _ _ => 0x55#8)) crossingCalls ∧
      Rec.Legal (maxi512.format 0) ⟨0, 2, 17⟩ ∧
      Untouched maxi512 (run maxi512 reliable
        (boot maxi512 reliable (fun _ => 0#8) (fun _ _ => 0x55#8)) crossingCalls).log
        ⟨0, 2, 17⟩ ∧
      recordAt maxi512 (flushBuffer reliable (run maxi512 reliable
        (boot maxi512 reliable (fun _ => 0#8) (fun _ _ => 0x55#8)) crossingCalls)).disk
        ⟨0, 2, 17⟩ ≠ recordAt maxi512 (fun _ _ => 0x55#8) ⟨0, 2, 17⟩ := by
  refine ⟨reliable_faultFree, by decide, by decide, by decide, ?_⟩
  intro h
  have hbyte := congrFun h 0
  revert hbyte
  decide

end Disk
end Rc700
