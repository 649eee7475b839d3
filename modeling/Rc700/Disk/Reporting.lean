import Rc700.Disk.PreRead

/-!
# No accepted write is lost silently

The controller is arbitrary here.  Two results together say that a program can
trust the codes it gets:

* a failed flush, wherever it happens, makes the next `READ` or `WRITE` report
  an error (`FailuresReported`): the error flag survives until then;
* a write that was accepted, and was followed by successful calls only, is on
  the disk as soon as the buffer holds another host sector.
-/

namespace Rc700
namespace Disk

open Library

variable {table : DriveTable} {fdc : Nat → Attempt} {base : Rec → Option Record}
  {m m' : Machine} {log : List Event} {r : Rec}

/-! ### Failed flushes are reported -/

/-- The code returned by a `READ` or `WRITE`. -/
def Event.answer : Event → Option Nat
  | .writeDone _ _ _ code => some code
  | .readDone _ code _ => some code
  | _ => none

/-- A flush failed since the last answer. -/
def unreported : List Event → Bool
  | [] => false
  | .storeFailed _ :: _ => true
  | .writeDone _ _ _ _ :: _ => false
  | .readDone _ _ _ :: _ => false
  | _ :: log => unreported log

/-- Every answer after a failed flush is an error. -/
def FailuresReported : List Event → Prop
  | [] => True
  | .writeDone _ _ _ code :: log => (unreported log = true → code ≠ 0) ∧ FailuresReported log
  | .readDone _ code _ :: log => (unreported log = true → code ≠ 0) ∧ FailuresReported log
  | _ :: log => FailuresReported log

/-- The error flag remembers every failed flush that was not reported yet. -/
structure Remembers (m : Machine) : Prop where
  flag : unreported m.log = true → m.diskError = true
  reported : FailuresReported m.log

theorem remembers_wrthst (fdc : Nat → Attempt) (hm : Remembers m) :
    Remembers (wrthst fdc m) := by
  obtain ⟨hlog, herr⟩ := wrthst_log fdc m
  constructor
  · rw [hlog, herr]
    cases completes fdc 10 m.attempts
    · exact fun _ => rfl
    · exact hm.flag
  · rw [hlog]
    cases completes fdc 10 m.attempts <;> exact hm.reported

theorem remembers_rdhst (fdc : Nat → Attempt) (hm : Remembers m) :
    Remembers (rdhst fdc m) := by
  obtain ⟨hlog, herr⟩ := rdhst_log fdc m
  constructor
  · rw [hlog, herr]
    cases completes fdc 10 m.attempts
    · exact fun _ => rfl
    · exact hm.flag
  · rw [hlog]
    cases completes fdc 10 m.attempts <;> exact hm.reported

theorem remembers_fillHost (fdc : Nat → Attempt) (host : HostSector) (hm : Remembers m) :
    Remembers (fillHost fdc (tagHost host m)) := by
  have htag : Remembers (tagHost host m) := ⟨hm.flag, hm.reported⟩
  unfold fillHost
  split
  · have hread := remembers_rdhst fdc htag
    exact ⟨hread.flag, hread.reported⟩
  · exact ⟨htag.flag, htag.reported⟩

theorem remembers_selectHost (fdc : Nat → Attempt) (hm : Remembers m) :
    Remembers (selectHost fdc m) := by
  unfold selectHost
  simp only
  split
  · exact ⟨hm.flag, hm.reported⟩
  · have hflush : Remembers (flushHost fdc (locateHost m)) := by
      unfold flushHost
      split
      · exact remembers_wrthst fdc ⟨hm.flag, hm.reported⟩
      · exact ⟨hm.flag, hm.reported⟩
    exact remembers_fillHost fdc _ hflush

theorem remembers_moveRecord (hm : Remembers m) : Remembers (moveRecord m) := by
  unfold moveRecord
  split <;> exact ⟨hm.flag, hm.reported⟩

/-- The end of `rwoper` turns the flag into the answer. -/
theorem reported_finish (fdc : Nat → Attempt) (hm : Remembers m) :
    FailuresReported (finish fdc m).1.log ∧
      (unreported (finish fdc m).1.log = true → (finish fdc m).2 ≠ 0) := by
  by_cases herr : m.diskError = true
  · rw [finish_of_error herr]
    exact ⟨hm.reported, fun _ => Nat.one_ne_zero⟩
  · have herr' := Bool.eq_false_of_not_eq_true herr
    by_cases hdir : m.writeType = .wrdir
    · rw [finish_of_directory herr' hdir]
      have hflush := remembers_wrthst fdc (m := { m with hostbufDirty := false })
        ⟨hm.flag, hm.reported⟩
      refine ⟨hflush.reported, fun h => ?_⟩
      rw [if_pos (hflush.flag h)]
      exact Nat.one_ne_zero
    · rw [finish_of_ok herr' hdir]
      exact ⟨hm.reported, fun h => absurd (hm.flag h) herr⟩

theorem reported_rwoper (fdc : Nat → Attempt) (hm : Remembers m) :
    FailuresReported (rwoper fdc m).1.log ∧
      (unreported (rwoper fdc m).1.log = true → (rwoper fdc m).2 ≠ 0) :=
  reported_finish fdc (remembers_moveRecord (remembers_selectHost fdc hm))

/-- Every call keeps the failures reported, legal or not. -/
theorem call_remembers (table : DriveTable) (fdc : Nat → Attempt) (m : Machine) (c : Call)
    (hm : Remembers m) : Remembers (call table fdc m c) := by
  cases c with
  | seldsk drive =>
      show Remembers (biosSeldskC table fdc drive.toNat m).1
      unfold biosSeldskC
      split
      · exact hm
      · simp only
        split
        · have hflush := remembers_wrthst fdc (m := { m with cpmDisk := drive.toNat })
            ⟨hm.flag, hm.reported⟩
          exact ⟨hflush.flag, hflush.reported⟩
        · exact ⟨hm.flag, hm.reported⟩
  | home =>
      show Remembers (biosHome fdc m)
      unfold biosHome
      split
      · have hflush := remembers_wrthst fdc hm
        exact ⟨hflush.flag, hflush.reported⟩
      · exact ⟨hm.flag, hm.reported⟩
  | read =>
      obtain ⟨hlog, hcode⟩ := reported_rwoper fdc (m := { m with
        unallocCount := 0, isRead := true, needPreRead := true, writeType := .wrual })
        ⟨hm.flag, hm.reported⟩
      exact ⟨fun h => absurd h Bool.false_ne_true, ⟨hcode, hlog⟩⟩
  | write wt =>
      have hstart := startWrite_eq wt (noteWrite wt m)
      obtain ⟨hlog, hcode⟩ := reported_rwoper fdc
        (m := stepRun (openRun wt (noteWrite wt m))) (by
          rw [hstart]
          exact ⟨hm.flag, hm.reported⟩)
      exact ⟨fun h => absurd h Bool.false_ne_true, ⟨hcode, hlog⟩⟩
  | settrk track => exact ⟨hm.flag, hm.reported⟩
  | setsec sector => exact ⟨hm.flag, hm.reported⟩
  | setdma addr => exact ⟨hm.flag, hm.reported⟩
  | compute mem => exact ⟨hm.flag, hm.reported⟩

theorem unreported_of_between {between earlier : List Event} {host : HostSector}
    (hbetween : ∀ e ∈ between, e.answer = none) :
    unreported (between ++ .storeFailed host :: earlier) = true := by
  induction between with
  | nil => rfl
  | cons e between ih =>
      have hrest := ih (fun e he => hbetween e (List.mem_cons_of_mem _ he))
      have hhead := hbetween e List.mem_cons_self
      cases e with
      | writeDone r wt data code => exact absurd hhead (by simp [Event.answer])
      | readDone r code data => exact absurd hhead (by simp [Event.answer])
      | storeFailed host => rfl
      | _ => exact hrest

/-- The first answer after a failed flush. -/
theorem FailuresReported.answer (hlog : FailuresReported log)
    {later between earlier : List Event} {e : Event} {host : HostSector} {code : Nat}
    (heq : log = later ++ e :: (between ++ .storeFailed host :: earlier))
    (hbetween : ∀ e ∈ between, e.answer = none) (hcode : e.answer = some code) :
    code ≠ 0 := by
  subst heq
  induction later with
  | nil =>
      have hpending : unreported (between ++ .storeFailed host :: earlier) = true :=
        unreported_of_between hbetween
      cases e with
      | writeDone r wt data code' =>
          cases hcode
          exact hlog.1 hpending
      | readDone r code' data =>
          cases hcode
          exact hlog.1 hpending
      | _ => exact absurd hcode (by simp [Event.answer])
  | cons e' later ih =>
      apply ih
      cases e' with
      | writeDone r wt data code' => exact hlog.2
      | readDone r code' data => exact hlog.2
      | _ => exact hlog

/-! ### Accepted writes reach the disk -/

/-- The event is no failed answer. -/
def Event.succeeded (e : Event) : Prop := ∀ code, e.answer = some code → code = 0

/-- What an accepted write defines stays owed over successful calls that leave
its record alone. -/
theorem owed_of_accepted {later earlier : List Event} {wt : WriteType} {data : Record}
    (hsucceeded : ∀ e ∈ later, e.succeeded)
    (hkept : ∀ e ∈ later, ¬ e.touches table r) :
    owed table base (later ++ .writeDone r wt data 0 :: earlier) r = some data := by
  -- by induction on the log, from the newest event to the write
  induction later with
  | nil =>
      show owed table base (.writeDone r wt data 0 :: earlier) r = some data
      simp [owed, writeRecord]
  | cons e later ih =>
      have hrest := ih (fun e he => hsucceeded e (List.mem_cons_of_mem _ he))
        (fun e he => hkept e (List.mem_cons_of_mem _ he))
      have hok := hsucceeded e List.mem_cons_self
      have hmiss := hkept e List.mem_cons_self
      rw [List.cons_append]
      cases e with
      | writeCall q wt data =>
          cases wt with
          | wrual =>
              simp only [Event.touches, true_and, not_or] at hmiss
              simp only [owed, killBlock]
              rw [if_neg hmiss.2]
              exact hrest
          | _ => exact hrest
      | writeDone q wt data code =>
          simp only [Event.touches] at hmiss
          simp only [owed, if_pos (hok code rfl), writeRecord]
          rw [if_neg (fun h => hmiss h.symm)]
          exact hrest
      | readDone q code data =>
          simp only [owed, if_pos (hok code rfl)]
          exact hrest
      | _ => exact hrest

/-- Every record that was written has a legal address. -/
def WritesLegal (table : DriveTable) (log : List Event) : Prop :=
  ∀ r wt data code, Event.writeDone r wt data code ∈ log → r.Legal (table.format r.disk)

theorem writesLegal_congr {log' : List Event}
    (hcalls : log'.filter Event.isCall = log.filter Event.isCall)
    (hlog : WritesLegal table log) : WritesLegal table log' := by
  intro r wt data code hmem
  apply hlog r wt data code
  have hfilter : Event.writeDone r wt data code ∈ log.filter Event.isCall := by
    rw [← hcalls]
    exact List.mem_filter.mpr ⟨hmem, rfl⟩
  exact (List.mem_filter.mp hfilter).1

/-- What holds between the calls of a program, whatever the controller does. -/
structure Accepting (table : DriveTable) (m : Machine) : Prop where
  inv : Inv table (owed table (fun _ => none) m.log) m
  start : StartsAligned table m
  legal : WritesLegal table m.log
  remembers : Remembers m

theorem call_accepting (fdc : Nat → Attempt) (m : Machine) (c : Call)
    (hc : BlockAligned table m c) (hm : Accepting table m) :
    Accepting table (call table fdc m c) := by
  have hstays : ∀ wt, c = .write wt → StaysInBlock table m wt :=
    fun _ _ => hm.start.staysInBlock hm.inv
  refine ⟨call_inv fdc hm.inv hc.addressed hstays, hm.start.call hm.inv hc, ?_,
    call_remembers table fdc m c hm.remembers⟩
  by_cases hread : c = .read
  · subst hread
    obtain ⟨code, data, rest, hlog, hcalls, _⟩ := biosRead_answered fdc hm.inv hc
    show WritesLegal table (biosRead fdc m).log
    rw [hlog]
    intro r wt data' code' hmem
    refine writesLegal_congr hcalls hm.legal r wt data' code' ?_
    simpa using hmem
  · by_cases hwrite : ∃ wt, c = .write wt
    · obtain ⟨wt, rfl⟩ := hwrite
      obtain ⟨code, rest, hlog, hcalls, _⟩ :=
        biosWrite_answered fdc hm.inv hc.addressed.1 hc.addressed.2 (hstays wt rfl)
      show WritesLegal table (biosWrite fdc wt m).log
      have hcalls' : rest.filter Event.isCall =
          (Event.writeCall m.request wt m.dmaRecord :: m.log).filter Event.isCall := hcalls
      have hnoted : WritesLegal table (.writeCall m.request wt m.dmaRecord :: m.log) := by
        intro r wt' data code' hmem
        exact hm.legal r wt' data code' (by simpa using hmem)
      rw [hlog]
      intro r wt' data code' hmem
      rcases List.mem_cons.mp hmem with heq | hrest
      · cases heq
        exact hc.addressed.1
      · exact writesLegal_congr hcalls' hnoted r wt' data code' hrest
    · have hquiet : Quiet table fdc m (call table fdc m c) :=
        call_quiet hm.inv.wf hc.addressed hread (not_exists.mp hwrite)
      exact writesLegal_congr hquiet.calls hm.legal

theorem boot_accepting (table : DriveTable) (fdc : Nat → Attempt) (mem : Word → Byte)
    (disk : Chs → Nat → Byte) : Accepting table (boot table fdc mem disk) := by
  have hboot := boot_inv table fdc mem disk
  have hcount : (boot table fdc mem disk).unallocCount = 0 := by
    simp [boot, biosSeldskC, biosHwInit]
  refine ⟨⟨hboot.wf, ?_, fun h => absurd hcount h⟩, boot_startsAligned table fdc mem disk,
    ?_, ?_, ?_⟩
  · intro _
    rw [boot_log]
    exact presents_none table _
  · rw [boot_log]
    intro r wt data code hmem
    exact absurd hmem (by simp)
  · rw [boot_log]
    intro h
    exact absurd h Bool.false_ne_true
  · rw [boot_log]
    exact trivial

/-- `READ` and `WRITE`. -/
def Call.isTransfer : Call → Bool
  | .read => true
  | .write _ => true
  | _ => false

/-- After a successful `READ` or `WRITE` everything that is owed outside its
host sector is on the disk. -/
theorem call_onDisk (fdc : Nat → Attempt) {c : Call} (htransfer : c.isTransfer = true)
    (hc : BlockAligned table m c) (hm : Accepting table m) {v : Record}
    (hlegal : r.Legal (table.format r.disk))
    (hother : m.request.host (table.format m.cpmDisk) ≠ r.host (table.format r.disk))
    (howed : owed table (fun _ => none) (call table fdc m c).log r = some v) :
    recordAt table (call table fdc m c).disk r = v := by
  have hstays : ∀ wt, c = .write wt → StaysInBlock table m wt :=
    fun _ _ => hm.start.staysInBlock hm.inv
  have hanswer : ∃ code, Answered table fdc (fun _ => none) m (call table fdc m c) code := by
    cases c with
    | read =>
        obtain ⟨code, _, _, _, _, hanswer, _⟩ := biosRead_answered fdc hm.inv hc
        exact ⟨code, hanswer⟩
    | write wt =>
        obtain ⟨code, _, _, _, hanswer⟩ :=
          biosWrite_answered fdc hm.inv hc.addressed.1 hc.addressed.2 (hstays wt rfl)
        exact ⟨code, hanswer⟩
    | _ => exact absurd htransfer Bool.false_ne_true
  obtain ⟨code, hanswer⟩ := hanswer
  have hdemand := demandOf_record (owed table (fun _ => none) (call table fdc m c).log) hlegal
  rw [howed] at hdemand
  refine (hanswer.inv.presents hanswer.diskError).store_eq _ _ v hdemand ?_
  rintro ⟨_, _, htag⟩
  apply hother
  rw [htag, ← hanswer.hostbuf]
  rfl

/-- **No accepted write is lost silently**, whatever the controller does.  If a
write of `r` was accepted, all later answers were successes, nothing later
touched `r`, and the run ends with a `READ` or `WRITE` in another host sector,
then the disk holds the data.  And the first answer after any failed flush is
an error. -/
theorem accepted_write_not_lost (table : DriveTable) (fdc : Nat → Attempt)
    (mem : Word → Byte) (disk : Chs → Nat → Byte) (calls : List Call)
    (hcalls : EveryStep (call table fdc) (BlockAligned table)
      (boot table fdc mem disk) calls) :
    (∀ before c r wt data later earlier, calls = before ++ [c] → c.isTransfer = true →
      (run table fdc (boot table fdc mem disk) calls).log =
        later ++ .writeDone r wt data 0 :: earlier →
      (∀ e ∈ later, e.succeeded) → (∀ e ∈ later, ¬ e.touches table r) →
      (run table fdc (boot table fdc mem disk) before).request.host
          (table.format (run table fdc (boot table fdc mem disk) before).cpmDisk) ≠
        r.host (table.format r.disk) →
      recordAt table (run table fdc (boot table fdc mem disk) calls).disk r = data) ∧
    (∀ later e between host earlier code,
      (run table fdc (boot table fdc mem disk) calls).log =
        later ++ e :: (between ++ .storeFailed host :: earlier) →
      (∀ e ∈ between, e.answer = none) → e.answer = some code → code ≠ 0) := by
  have hend := foldl_invariant (call_accepting fdc) hcalls (boot_accepting table fdc mem disk)
  change Accepting table (run table fdc (boot table fdc mem disk) calls) at hend
  constructor
  -- the invariant holds before the last call as well
  · intro before c r wt data later earlier hsplit htransfer hlog hsucceeded hkept hother
    subst hsplit
    rw [EveryStep.append] at hcalls
    obtain ⟨hbefore, hc, _⟩ := hcalls
    have hm : Accepting table (run table fdc (boot table fdc mem disk) before) :=
      foldl_invariant (call_accepting fdc) hbefore (boot_accepting table fdc mem disk)
    have hlast : run table fdc (boot table fdc mem disk) (before ++ [c]) =
        call table fdc (run table fdc (boot table fdc mem disk) before) c := by
      unfold run
      rw [List.foldl_append]
      rfl
    have howed : owed table (fun _ => none)
        (run table fdc (boot table fdc mem disk) (before ++ [c])).log r = some data := by
      rw [hlog]
      exact owed_of_accepted hsucceeded hkept
    have hlegal : r.Legal (table.format r.disk) := by
      apply hend.legal r wt data 0
      rw [hlog]
      simp
    rw [hlast] at howed ⊢
    exact call_onDisk fdc htransfer hc hm hlegal hother howed
  · intro later e between host earlier code hlog hbetween hcode
    exact hend.remembers.reported.answer hlog hbetween hcode

/-- A controller whose first attempt fails. -/
def flaky : Nat → Attempt := fun n => ⟨if n = 0 then 0x40#8 else 0#8, fun _ => 0#8⟩

/-- Write a record, then read one in another host sector. -/
def acceptedCalls : List Call :=
  [.settrk 2#16, .compute (fun _ => 0xE5#8), .write .wrall, .setsec 4#16, .read]

theorem accepted_write_not_lost_flaky :
    EveryStep (call maxi512 flaky) (BlockAligned maxi512)
        (boot maxi512 flaky (fun _ => 0#8) (fun _ _ => 0#8)) acceptedCalls ∧
      recordAt maxi512 (run maxi512 flaky
        (boot maxi512 flaky (fun _ => 0#8) (fun _ _ => 0#8)) acceptedCalls).disk
        ⟨0, 2, 0⟩ = fun _ => 0xE5#8 := by
  have hcalls : EveryStep (call maxi512 flaky) (BlockAligned maxi512)
      (boot maxi512 flaky (fun _ => 0#8) (fun _ _ => 0#8)) acceptedCalls := by
    decide
  refine ⟨hcalls, ?_⟩
  refine (accepted_write_not_lost maxi512 flaky (fun _ => 0#8) (fun _ _ => 0#8)
    acceptedCalls hcalls).1 (acceptedCalls.take 4) .read ⟨0, 2, 0⟩ .wrall (fun _ => 0xE5#8)
    ((run maxi512 flaky (boot maxi512 flaky (fun _ => 0#8) (fun _ _ => 0#8))
      acceptedCalls).log.take 4)
    ((run maxi512 flaky (boot maxi512 flaky (fun _ => 0#8) (fun _ _ => 0#8))
      acceptedCalls).log.drop 5) rfl rfl rfl ?_ (by decide) (by decide)
  intro e he code hcode
  have hanswers : ((run maxi512 flaky (boot maxi512 flaky (fun _ => 0#8) (fun _ _ => 0#8))
      acceptedCalls).log.take 4).map Event.answer = [some 0, none, none, none] := rfl
  have hmem := List.mem_map_of_mem (f := Event.answer) he
  rw [hanswers, hcode] at hmem
  simpa using hmem

end Disk
end Rc700
