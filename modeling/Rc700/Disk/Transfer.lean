import Mathlib.Tactic.Common
import Rc700.Disk.Driver

/-!
# What a host transfer does

Specification lemmas for `wrthst` and `rdhst`.  Each says which variables of
the driver change, and what is known about the disk and the buffer afterwards,
for an arbitrary controller: a transfer either completes, or leaves the error
flag set and the buffer invalid.  The retry loop is dealt with here once.
-/

namespace Rc700
namespace Disk

/-- Every attempt of the controller completes normally. -/
def FaultFree (fdc : Nat → Attempt) : Prop := ∀ n, (fdc n).ok = true

/-- The working variables of the driver are those of format `f`. -/
structure Selected (f : Fin 4) (m : Machine) : Prop where
  sp : m.sp = fspa f
  currentFormat : m.currentFormat = fdf f
  side : m.track0SectorsPerSide = (fdf f).eot

/-! ### The retry loop -/

/-- A transfer whose first attempt is the `n`-th of the controller completes
within `repet` attempts. -/
def completes (fdc : Nat → Attempt) : Nat → Nat → Bool
  | 0, _ => false
  | repet + 1, n =>
      if (fdc n).ok then true
      else if (fdc n).st0 &&& fdcSt0NotReady ≠ 0#8 then false
      else completes fdc repet (n + 1)

theorem completes_of_faultFree {fdc : Nat → Attempt} (hfdc : FaultFree fdc)
    (repet n : Nat) : completes fdc (repet + 1) n = true := by
  unfold completes
  rw [if_pos (hfdc n)]

/-- Writing: only the target sector changes, and it holds the buffer when the
loop reports success. -/
theorem secRwLoop_write (fdc : Nat → Attempt) (repet : Nat) (m : Machine) :
    ∃ n disk, secRwLoop fdc true repet m =
        ({ m with attempts := n, disk := disk }, completes fdc repet m.attempts) ∧
      (∀ chs, chs ≠ m.fdcTarget → disk chs = m.disk chs) ∧
      (completes fdc repet m.attempts = true → ∀ j, j ≤ m.currentFormat.dmaCount →
        disk m.fdcTarget j = m.hstbuf j) := by
  -- by induction on the tries that are left; each of them stores at the target only
  induction repet generalizing m with
  | zero =>
      refine ⟨m.attempts, m.disk, rfl, fun _ _ => rfl, ?_⟩
      intro h
      exact absurd h Bool.false_ne_true
  | succ repet ih =>
      have hother : ∀ chs, chs ≠ m.fdcTarget →
          (fdcCommand (fdc m.attempts) true m).disk chs = m.disk chs := by
        intro chs hchs
        funext j
        simp [fdcCommand, hchs]
      unfold completes
      by_cases hok : (fdc m.attempts).ok = true
      · rw [if_pos hok]
        refine ⟨m.attempts + 1, (fdcCommand (fdc m.attempts) true m).disk, ?_, hother, ?_⟩
        · simp [secRwLoop, fdcCommand, hok]
        · intro _ j hj
          simp [fdcCommand, hok, hj]
      · rw [if_neg hok]
        by_cases hready : (fdc m.attempts).st0 &&& fdcSt0NotReady ≠ 0#8
        · rw [if_pos hready]
          refine ⟨m.attempts + 1, (fdcCommand (fdc m.attempts) true m).disk, ?_, hother, ?_⟩
          · simp only [secRwLoop, if_neg hok, if_pos hready]
            simp [fdcCommand]
          · intro h
            exact absurd h Bool.false_ne_true
        · rw [if_neg hready]
          obtain ⟨n, disk, heq, hmiss, hhit⟩ := ih (fdcCommand (fdc m.attempts) true m)
          refine ⟨n, disk, ?_, ?_, ?_⟩
          · simp only [secRwLoop, if_neg hok, if_neg hready]
            rw [heq]
            simp [fdcCommand]
          · intro chs hchs
            rw [hmiss chs hchs, hother chs hchs]
          · intro hdone j hj
            exact hhit hdone j hj

/-- Reading: only the buffer changes, and it holds the target sector when the
loop reports success. -/
theorem secRwLoop_read (fdc : Nat → Attempt) (repet : Nat) (m : Machine) :
    ∃ n hstbuf, secRwLoop fdc false repet m =
        ({ m with attempts := n, hstbuf := hstbuf }, completes fdc repet m.attempts) ∧
      (completes fdc repet m.attempts = true → ∀ j, j ≤ m.currentFormat.dmaCount →
        hstbuf j = m.disk m.fdcTarget j) := by
  induction repet generalizing m with
  | zero =>
      refine ⟨m.attempts, m.hstbuf, rfl, ?_⟩
      intro h
      exact absurd h Bool.false_ne_true
  | succ repet ih =>
      unfold completes
      by_cases hok : (fdc m.attempts).ok = true
      · rw [if_pos hok]
        refine ⟨m.attempts + 1, (fdcCommand (fdc m.attempts) false m).hstbuf, ?_, ?_⟩
        · simp [secRwLoop, fdcCommand, hok]
        · intro _ j hj
          simp [fdcCommand, hok, hj]
      · rw [if_neg hok]
        by_cases hready : (fdc m.attempts).st0 &&& fdcSt0NotReady ≠ 0#8
        · rw [if_pos hready]
          refine ⟨m.attempts + 1, (fdcCommand (fdc m.attempts) false m).hstbuf, ?_, ?_⟩
          · simp only [secRwLoop, if_neg hok, if_pos hready]
            simp [fdcCommand]
          · intro h
            exact absurd h Bool.false_ne_true
        · rw [if_neg hready]
          obtain ⟨n, hstbuf, heq, hhit⟩ := ih (fdcCommand (fdc m.attempts) false m)
          refine ⟨n, hstbuf, ?_, ?_⟩
          · simp only [secRwLoop, if_neg hok, if_neg hready]
            rw [heq]
            simp [fdcCommand]
          · intro hdone j hj
            exact hhit hdone j hj

/-! ### The target of a transfer -/

theorem unitHead_mod (disk : Nat) (hdisk : disk < 2) : (disk ||| 4) % 4 = disk := by
  have h : disk = 0 ∨ disk = 1 := by omega
  rcases h with rfl | rfl <;> rfl

theorem unitHead_div (disk : Nat) (hdisk : disk < 2) : (disk ||| 4) / 4 % 4 = 1 := by
  have h : disk = 0 ∨ disk = 1 := by omega
  rcases h with rfl | rfl <;> rfl

/-- The controller is sent to the physical address of the tagged sector. -/
theorem chktrk_target {f : Fin 4} {m : Machine} (hsel : Selected f m)
    (hlegal : m.hostbuf.Legal f) :
    (chktrk m).fdcTarget = m.hostbuf.chs f := by
  obtain ⟨hdisk, htrack, _⟩ := hlegal
  have htrack' : m.hostbuf.track % 256 = m.hostbuf.track := Nat.mod_eq_of_lt (by omega)
  have hmod : m.hostbuf.disk % 4 = m.hostbuf.disk := Nat.mod_eq_of_lt (by omega)
  have hdiv : m.hostbuf.disk / 4 % 4 = 0 := by omega
  by_cases hside : (fdf f).eot ≤ m.hostbuf.sector
  · simp [Machine.fdcTarget, chktrk, HostSector.chs, physical, hsel.sp, hsel.side, hside,
      htrack', unitHead_mod _ hdisk, unitHead_div _ hdisk]
  · simp [Machine.fdcTarget, chktrk, HostSector.chs, physical, hsel.sp, hsel.side, hside,
      htrack', hmod, hdiv]

/-- A read may end the run of writes without pre-read, and changes nothing else
before the transfer. -/
theorem chktrk_endRun (m : Machine) :
    chktrk (if m.unallocMask then m else { m with unallocCount := 0 }) =
      { chktrk m with unallocCount := if m.unallocMask then m.unallocCount else 0 } := by
  by_cases hmask : m.unallocMask = true
  · rw [if_pos hmask, if_pos hmask]
    rfl
  · rw [if_neg hmask, if_neg hmask]
    rfl

/-- Two buffers that agree on the transferred bytes agree on every slot. -/
theorem slotOf_congr {f : Fin 4} {buffer buffer' : Nat → Byte}
    (heq : ∀ j, j ≤ (fdf f).dmaCount → buffer j = buffer' j) {k : Nat}
    (hk : k < slots f) : slotOf buffer k = slotOf buffer' k := by
  funext i
  apply heq
  have hsize := slots_mul_128 f
  have hle : (k + 1) * 128 ≤ slots f * 128 := Nat.mul_le_mul_right _ hk
  omega

/-! ### The two transfers -/

/-- The machine after `wrthst`, given what the controller made of the disk. -/
def afterWrite (m : Machine) (n : Nat) (disk : Chs → Nat → Byte) (done : Bool) :
    Machine :=
  { chktrk m with
    attempts := n
    disk := disk
    hostbufValid := done && m.hostbufValid
    diskError := !done || m.diskError
    log := (if done then [] else [.storeFailed m.hostbuf]) ++
      .stored m.hostbuf m.hstbuf :: m.log }

/-- The machine after `rdhst`, given what the controller put into the buffer. -/
def afterRead (m : Machine) (n : Nat) (hstbuf : Nat → Byte) (done : Bool) :
    Machine :=
  { chktrk m with
    attempts := n
    hstbuf := hstbuf
    unallocCount := if m.unallocMask then m.unallocCount else 0
    hostbufValid := done && m.hostbufValid
    diskError := !done || m.diskError
    log := (if done then .fetched m.hostbuf hstbuf else .fetchFailed m.hostbuf) :: m.log }

/-- What `wrthst` does, wherever the controller is sent. -/
theorem wrthst_eq (fdc : Nat → Attempt) (m : Machine) :
    ∃ n disk, wrthst fdc m = afterWrite m n disk (completes fdc 10 m.attempts) ∧
      (∀ chs, chs ≠ (chktrk m).fdcTarget → disk chs = m.disk chs) ∧
      (completes fdc 10 m.attempts = true → ∀ j, j ≤ m.currentFormat.dmaCount →
        disk (chktrk m).fdcTarget j = m.hstbuf j) := by
  obtain ⟨n, disk, heq, hmiss, hhit⟩ := secRwLoop_write fdc 10
    { chktrk m with log := .stored (chktrk m).hostbuf (chktrk m).hstbuf :: (chktrk m).log }
  change secRwLoop fdc true 10 _ = (_, completes fdc 10 m.attempts) at heq
  refine ⟨n, disk, ?_, hmiss, hhit⟩
  generalize completes fdc 10 m.attempts = done at heq ⊢
  unfold wrthst secRw
  simp only [heq]
  cases done <;> rfl

/-- What `rdhst` does, wherever the controller is sent. -/
theorem rdhst_eq (fdc : Nat → Attempt) (m : Machine) :
    ∃ n hstbuf, rdhst fdc m = afterRead m n hstbuf (completes fdc 10 m.attempts) ∧
      (completes fdc 10 m.attempts = true → ∀ j, j ≤ m.currentFormat.dmaCount →
        hstbuf j = m.disk (chktrk m).fdcTarget j) := by
  have hstart := chktrk_endRun m
  obtain ⟨n, hstbuf, heq, hhit⟩ := secRwLoop_read fdc 10
    { chktrk m with unallocCount := if m.unallocMask then m.unallocCount else 0 }
  change secRwLoop fdc false 10 _ = (_, completes fdc 10 m.attempts) at heq
  refine ⟨n, hstbuf, ?_, hhit⟩
  generalize completes fdc 10 m.attempts = done at heq ⊢
  unfold rdhst secRw
  simp only [hstart, heq]
  cases done <;> rfl

/-- **Writing the host buffer.**  No sector but the tagged one changes, and on
success the tagged sector holds the buffer. -/
theorem wrthst_spec (fdc : Nat → Attempt) {f : Fin 4} {m : Machine}
    (hsel : Selected f m) (hlegal : m.hostbuf.Legal f) :
    ∃ n disk done, wrthst fdc m = afterWrite m n disk done ∧
      (FaultFree fdc → done = true) ∧
      (done = true → ∀ k, k < slots f →
        slotOf (disk (m.hostbuf.chs f)) k = slotOf m.hstbuf k) ∧
      (∀ chs, chs ≠ m.hostbuf.chs f → disk chs = m.disk chs) := by
  obtain ⟨n, disk, heq, hmiss, hhit⟩ := wrthst_eq fdc m
  rw [chktrk_target hsel hlegal] at hmiss hhit
  refine ⟨n, disk, completes fdc 10 m.attempts, heq,
    fun hfdc => completes_of_faultFree hfdc 9 m.attempts, ?_, hmiss⟩
  intro hdone k hk
  apply slotOf_congr _ hk
  intro j hj
  exact hhit hdone j (by rw [hsel.currentFormat]; exact hj)

/-- **Reading the host buffer.**  On success the buffer holds the tagged
sector. -/
theorem rdhst_spec (fdc : Nat → Attempt) {f : Fin 4} {m : Machine}
    (hsel : Selected f m) (hlegal : m.hostbuf.Legal f) :
    ∃ n hstbuf done, rdhst fdc m = afterRead m n hstbuf done ∧
      (FaultFree fdc → done = true) ∧
      (done = true → ∀ k, k < slots f →
        slotOf hstbuf k = slotOf (m.disk (m.hostbuf.chs f)) k) := by
  obtain ⟨n, hstbuf, heq, hhit⟩ := rdhst_eq fdc m
  rw [chktrk_target hsel hlegal] at hhit
  refine ⟨n, hstbuf, completes fdc 10 m.attempts, heq,
    fun hfdc => completes_of_faultFree hfdc 9 m.attempts, ?_⟩
  intro hdone k hk
  apply slotOf_congr _ hk
  intro j hj
  exact hhit hdone j (by rw [hsel.currentFormat]; exact hj)

/-! ### What the transfers leave in the log -/

/-- The log and the error flag after a write, for any controller. -/
theorem wrthst_log (fdc : Nat → Attempt) (m : Machine) :
    (wrthst fdc m).log = (if completes fdc 10 m.attempts then [] else
        [.storeFailed m.hostbuf]) ++ .stored m.hostbuf m.hstbuf :: m.log ∧
      (wrthst fdc m).diskError = (!completes fdc 10 m.attempts || m.diskError) := by
  obtain ⟨n, disk, heq, _⟩ := wrthst_eq fdc m
  rw [heq]
  exact ⟨rfl, rfl⟩

/-- The log and the error flag after a read, for any controller. -/
theorem rdhst_log (fdc : Nat → Attempt) (m : Machine) :
    (rdhst fdc m).log = (if completes fdc 10 m.attempts then
        .fetched m.hostbuf (rdhst fdc m).hstbuf else .fetchFailed m.hostbuf) :: m.log ∧
      (rdhst fdc m).diskError = (!completes fdc 10 m.attempts || m.diskError) := by
  obtain ⟨n, hstbuf, heq, _⟩ := rdhst_eq fdc m
  rw [heq]
  exact ⟨rfl, rfl⟩

end Disk
end Rc700
