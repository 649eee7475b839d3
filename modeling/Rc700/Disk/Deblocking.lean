import Rc700.Disk.Contract

/-!
# Deblocking is transparent on a fault-free drive

The abstract disk is a store of 128-byte records: `contents` folds the writes of
the log over the original disk, with the records of a block opened by a write of
type 2 undefined until they are written.  On a fault-free drive the driver is
that store.
-/

namespace Rc700
namespace Disk

open Library

variable {table : DriveTable} {fdc : Nat → Attempt} {base : Rec → Option Record}
  {m m' : Machine} {log : List Event}

/-- The abstract record store after the calls of the log, `none` for the
unwritten records of a dead block. -/
def contents (table : DriveTable) (base : Rec → Option Record) :
    List Event → Rec → Option Record
  | [] => base
  | .writeCall r .wrual _ :: log => killBlock table (contents table base log) r
  | .writeDone r _ data _ :: log => writeRecord (contents table base log) r data
  | _ :: log => contents table base log

/-- Every call of the log succeeded, and every read delivered what the store
held at that time. -/
def Faithful (table : DriveTable) (base : Rec → Option Record) : List Event → Prop
  | [] => True
  | .readDone r code data :: log =>
      (code = 0 ∧ ∀ v, contents table base log r = some v → data = v) ∧
        Faithful table base log
  | .writeDone _ _ _ code :: log => code = 0 ∧ Faithful table base log
  | _ :: log => Faithful table base log

theorem contents_filter (log : List Event) :
    contents table base (log.filter Event.isCall) = contents table base log := by
  induction log with
  | nil => rfl
  | cons e log ih =>
      cases e with
      | writeCall r wt data =>
          cases wt
          · exact ih
          · exact ih
          · exact congrArg (killBlock table · r) ih
      | writeDone r wt data code => exact congrArg (writeRecord · r data) ih
      | _ => exact ih

theorem faithful_filter (log : List Event) :
    Faithful table base (log.filter Event.isCall) ↔ Faithful table base log := by
  induction log with
  | nil => rfl
  | cons e log ih =>
      cases e with
      | writeDone r wt data code => exact and_congr_right (fun _ => ih)
      | readDone r code data =>
          simp only [List.filter_cons, Event.isCall, if_true, Faithful, contents_filter, ih]
      | _ => exact ih

theorem faithful_congr {log' : List Event}
    (hcalls : log'.filter Event.isCall = log.filter Event.isCall) :
    Faithful table base log' ↔ Faithful table base log := by
  rw [← faithful_filter log', hcalls, faithful_filter]

/-- Without failures everything that is stored is owed. -/
theorem owed_eq_contents (hlog : Faithful table base log) :
    owed table base log = contents table base log := by
  induction log with
  | nil => rfl
  | cons e log ih =>
      cases e with
      | writeCall r wt data =>
          cases wt
          · exact ih hlog
          · exact ih hlog
          · exact congrArg (killBlock table · r) (ih hlog)
      | writeDone r wt data code =>
          simp only [owed, contents, if_pos hlog.1, ih hlog.2]
      | readDone r code data =>
          simp only [owed, contents, if_pos hlog.1.1, ih hlog.2]
      | _ => exact ih hlog

/-- A faithful log at each of its reads. -/
theorem Faithful.read (hlog : Faithful table base log) {r : Rec} {code : Nat}
    {data : Record} {earlier : List Event}
    (hread : (.readDone r code data :: earlier) <:+ log) :
    code = 0 ∧ ∀ v, contents table base earlier r = some v → data = v := by
  induction log with
  | nil => exact absurd hread (by simp)
  | cons e log ih =>
      rcases List.suffix_cons_iff.mp hread with heq | hlater
      · cases heq
        exact hlog.1
      · refine ih ?_ hlater
        cases e with
        | writeDone r wt data code => exact hlog.2
        | readDone r code data => exact hlog.2
        | _ => exact hlog

/-- What holds between the calls of a program on a fault-free drive. -/
structure Transparent (table : DriveTable) (base : Rec → Option Record) (m : Machine) :
    Prop where
  inv : Inv table (owed table base m.log) m
  diskError : m.diskError = false
  faithful : Faithful table base m.log

/-- **One call on a fault-free drive.** -/
theorem call_transparent (hfdc : FaultFree fdc) {c : Call} (hc : Addressed table m c)
    (hstays : ∀ wt, c = .write wt → StaysInBlock table m wt)
    (hm : Transparent table base m) : Transparent table base (call table fdc m c) := by
  have hinv := call_inv fdc hm.inv hc hstays
  by_cases hread : c = .read
  · subst hread
    obtain ⟨code, data, rest, hlog, hcalls, hanswer, hdata⟩ :=
      biosRead_answered fdc hm.inv hc
    have hcode := hanswer.noFault hfdc hm.diskError
    refine ⟨hinv, hanswer.diskError, ?_⟩
    show Faithful table base (biosRead fdc m).log
    rw [hlog]
    refine ⟨⟨hcode, ?_⟩, (faithful_congr hcalls).mpr hm.faithful⟩
    intro v hv
    rw [← contents_filter, hcalls, contents_filter, ← owed_eq_contents hm.faithful] at hv
    exact hdata hcode v hv
  · by_cases hwrite : ∃ wt, c = .write wt
    · obtain ⟨wt, rfl⟩ := hwrite
      obtain ⟨code, rest, hlog, hcalls, hanswer⟩ :=
        biosWrite_answered fdc hm.inv hc.1 hc.2 (hstays wt rfl)
      have hcalls' : rest.filter Event.isCall =
          (Event.writeCall m.request wt m.dmaRecord :: m.log).filter Event.isCall := hcalls
      refine ⟨hinv, hanswer.diskError, ?_⟩
      show Faithful table base (biosWrite fdc wt m).log
      rw [hlog]
      exact ⟨hanswer.noFault hfdc hm.diskError, (faithful_congr hcalls').mpr hm.faithful⟩
    · have hquiet : Quiet table fdc m (call table fdc m c) :=
        call_quiet hm.inv.wf hc hread (not_exists.mp hwrite)
      exact ⟨hinv, (hquiet.noFault hfdc).trans hm.diskError,
        (faithful_congr hquiet.calls).mpr hm.faithful⟩

theorem boot_log (table : DriveTable) (fdc : Nat → Attempt) (mem : Word → Byte)
    (disk : Chs → Nat → Byte) : (boot table fdc mem disk).log = [] := by
  simp [boot, biosSeldskC, biosHwInit]

theorem boot_transparent (table : DriveTable) (fdc : Nat → Attempt) (mem : Word → Byte)
    (disk : Chs → Nat → Byte) :
    Transparent table (originals table disk) (boot table fdc mem disk) := by
  refine ⟨?_, ?_, ?_⟩
  · rw [boot_log]
    exact boot_inv table fdc mem disk
  · simp [boot, biosSeldskC, biosHwInit]
  · rw [boot_log]
    exact trivial

theorem boot_startsAligned (table : DriveTable) (fdc : Nat → Attempt) (mem : Word → Byte)
    (disk : Chs → Nat → Byte) : StartsAligned table (boot table fdc mem disk) := by
  intro q hq
  rw [boot_log] at hq
  exact absurd hq (by simp [lastUnalloc])

/-- Whole runs whose writes of type 2 open blocks at their first record. -/
theorem run_transparent (hfdc : FaultFree fdc) {calls : List Call}
    (hcalls : EveryStep (call table fdc) (BlockAligned table) m calls)
    (hm : Transparent table base m) (hstart : StartsAligned table m) :
    Transparent table base (run table fdc m calls) := by
  have hstep : ∀ m c, BlockAligned table m c →
      Transparent table base m ∧ StartsAligned table m →
      Transparent table base (call table fdc m c) ∧
        StartsAligned table (call table fdc m c) := by
    rintro m c hc ⟨hm, hstart⟩
    exact ⟨call_transparent hfdc hc.addressed (fun _ _ => hstart.staysInBlock hm.inv) hm,
      hstart.call hm.inv hc⟩
  exact (foldl_invariant hstep hcalls ⟨hm, hstart⟩).1

/-- On a fault-free drive the final flush leaves the store on the disk. -/
theorem Transparent.flushed (hm : Transparent table base m) (hfdc : FaultFree fdc)
    {r : Rec} {v : Record} (hlegal : r.Legal (table.format r.disk))
    (hv : contents table base m.log r = some v) :
    recordAt table (flushBuffer fdc m).disk r = v := by
  apply flushBuffer_presents hm.inv _ hlegal
  · rw [owed_eq_contents hm.faithful]
    exact hv
  · rw [flushBuffer_diskError hm.inv.wf hfdc]
    exact hm.diskError

/-- **Deblocking is transparent.**  Whatever calls a program makes on fault-free
drives of any formats, every `READ` succeeds and delivers what the record store
holds at that time, and after the final flush the disks hold the store. -/
theorem deblocking_transparent (table : DriveTable) (fdc : Nat → Attempt)
    (mem : Word → Byte) (disk : Chs → Nat → Byte) (calls : List Call)
    (hfdc : FaultFree fdc)
    (hcalls : EveryStep (call table fdc) (BlockAligned table)
      (boot table fdc mem disk) calls) :
    (∀ r code data earlier,
      (Event.readDone r code data :: earlier) <:+
          (run table fdc (boot table fdc mem disk) calls).log →
        code = 0 ∧
          ∀ v, contents table (originals table disk) earlier r = some v → data = v) ∧
    (∀ r v, r.Legal (table.format r.disk) →
      contents table (originals table disk)
          (run table fdc (boot table fdc mem disk) calls).log r = some v →
        recordAt table
          (flushBuffer fdc (run table fdc (boot table fdc mem disk) calls)).disk r = v) := by
  have hend := run_transparent hfdc hcalls (boot_transparent table fdc mem disk)
    (boot_startsAligned table fdc mem disk)
  generalize run table fdc (boot table fdc mem disk) calls = m at hend ⊢
  exact ⟨fun r code data earlier hread => hend.faithful.read hread,
    fun r v hlegal hv => hend.flushed hfdc hlegal hv⟩

/-- A controller that never fails. -/
def reliable : Nat → Attempt := fun _ => ⟨0#8, fun _ => 0#8⟩

theorem reliable_faultFree : FaultFree reliable := by
  intro n
  show (0#8 &&& fdcSt0AnyError == 0#8) = true
  decide

/-- Two drives with sectors of 512 bytes. -/
def maxi512 : DriveTable := ⟨fun _ => 8, 1⟩

/-- Open a block on drive A, write a second record of it on the same host
sector, move to drive B and read back. -/
def sampleCalls : List Call :=
  [.settrk 2#16, .compute (fun _ => 0xE5#8), .write .wrual, .setsec 1#16, .write .wrall,
    .seldsk 1#8, .read, .seldsk 0#8, .read]

theorem deblocking_transparent_sample :
    FaultFree reliable ∧
      EveryStep (call maxi512 reliable) (BlockAligned maxi512)
        (boot maxi512 reliable (fun _ => 0#8) (fun _ _ => 0#8)) sampleCalls ∧
      recordAt maxi512 (flushBuffer reliable (run maxi512 reliable
        (boot maxi512 reliable (fun _ => 0#8) (fun _ _ => 0#8)) sampleCalls)).disk
        ⟨0, 2, 1⟩ = fun _ => 0xE5#8 := by
  have hcalls : EveryStep (call maxi512 reliable) (BlockAligned maxi512)
      (boot maxi512 reliable (fun _ => 0#8) (fun _ _ => 0#8)) sampleCalls := by
    decide
  refine ⟨reliable_faultFree, hcalls, ?_⟩
  exact (deblocking_transparent maxi512 reliable (fun _ => 0#8) (fun _ _ => 0#8) sampleCalls
    reliable_faultFree hcalls).2 ⟨0, 2, 1⟩ (fun _ => 0xE5#8) (by decide) rfl

end Disk
end Rc700
