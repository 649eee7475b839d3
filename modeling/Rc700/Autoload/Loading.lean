import Rc700.Autoload.Boot
import Mathlib.Data.List.GetD

/-!
# Booting from a disk

With a controller that works and a disk in the drive the boot ROM reads both sides of track 0,
each in its own format, and nothing else, before it goes by the signature (`boot_loads`).  The
system of a COMAL disk is read on from the next cylinder (`comal_loads`).
-/

namespace Rc700
namespace Autoload

open Library

/-! ### Disks -/

/-- A formatted track: its density, the size code of its sectors, and the sectors from number 1
on. -/
structure FormattedTrack where
  mfm : Bool
  sizeCode : Byte
  coded : sizeCode.toNat < 8
  sectors : List {data : List Byte // data.length = 128 * 2 ^ sizeCode.toNat}

namespace FormattedTrack

variable (t : FormattedTrack)

def sectorSize : Nat := 128 * 2 ^ t.sizeCode.toNat

def bytes : List Byte := t.sectors.flatMap Subtype.val

theorem length_bytes : t.bytes.length = t.sectors.length * t.sectorSize := by
  have hsizes : t.sectors.map (fun s => s.val.length) =
      List.replicate t.sectors.length t.sectorSize := by
    refine List.eq_replicate_iff.mpr ⟨List.length_map _, fun n hn => ?_⟩
    obtain ⟨s, -, rfl⟩ := List.mem_map.mp hn
    exact s.property
  rw [bytes, List.length_flatMap, hsizes, List.sum_replicate_nat]

end FormattedTrack

/-- The tracks of a disk, by cylinder and head. -/
abbrev Floppy := (cylinder head : Nat) → Option FormattedTrack

/-- No error, and drive 0. -/
def FdcResult.Good (r : FdcResult) : Prop :=
  r.st0 &&& 0b11000011#8 = 0#8 ∧ r.st1 = 0#8 ∧ r.st2 &&& 0b10111111#8 = 0#8

/-- Nothing is found in time. -/
def Answer.Missed (answer : Answer) : Prop :=
  answer.interrupt = none ∨ ∃ r, answer.interrupt = some (.result r) ∧ ¬ r.Good

/-- A command, for a density. -/
def withMfm (cmd : Byte) (mfm : Bool) : Byte := cmd + if mfm then FDC_MFM else 0#8

/-- The controller works, with a disk in drive 0; `position` is the cylinder that the heads are
at. -/
structure Works {D : Type} (board : Board D) (floppy : Floppy) (position : D → Nat) : Prop where
  sense : ∀ d, (board.answer d (.senseDrive 0#8)).1.data.headD 0#8 &&& 0b00100011#8 =
    0b00100000#8
  recalibrate : ∀ d, (board.answer d (.recalibrate 0#8)).1.interrupt =
    some (.sense 0b00100000#8 0#8)
  seek : ∀ d (head cylinder : Byte),
    (board.answer d (.seek ((head <<< 2 ||| 0#8) &&& 0b00000111#8) cylinder)).1.interrupt =
        some (.sense 0b00100000#8 cylinder) ∧
      position (board.answer d (.seek ((head <<< 2 ||| 0#8) &&& 0b00000111#8) cylinder)).2 =
        cylinder.toNat
  /-- a Read ID in the density of the track finds its size code -/
  readId : ∀ d (head : Byte) t, floppy (position d) head.toNat = some t → ∃ r,
    (board.answer d (.readId (withMfm FDC_READ_ID t.mfm) (head <<< 2 ||| 0#8))).1.interrupt =
        some (.result r) ∧
      r.Good ∧ r.sizeCode &&& 0b00000111#8 = t.sizeCode
  /-- in the other density, or where there is no track, it finds nothing -/
  readIdFails : ∀ d (head : Byte) mfm, head.toNat < 2 →
    (∀ t, floppy (position d) head.toNat = some t → t.mfm ≠ mfm) →
      (board.answer d (.readId (withMfm FDC_READ_ID mfm) (head <<< 2 ||| 0#8))).1.Missed
  /-- a Read Data from sector 1 on reads as much as the DMA channel takes -/
  readData : ∀ d (cylinder head eot gap3 dtl : Byte) t count,
    floppy (position d) head.toNat = some t → position d = cylinder.toNat →
      eot.toNat ≤ t.sectors.length → 0 < count → count ≤ eot.toNat * t.sectorSize → ∃ r,
        (board.answer d (.readData (withMfm FDC_READ_DATA t.mfm) (head <<< 2 ||| 0#8) cylinder head
          1#8 t.sizeCode eot gap3 dtl count)).1.interrupt = some (.result r) ∧ r.Good ∧
        (board.answer d (.readData (withMfm FDC_READ_DATA t.mfm) (head <<< 2 ||| 0#8) cylinder head
          1#8 t.sizeCode eot gap3 dtl count)).1.data.take count = t.bytes.take count

/-! ### A controller that works -/

/-- The result of a command that fails. -/
def missed : FdcResult := ⟨0x40#8, 0x01#8, 0x00#8, 0x00#8⟩

/-- The answers of a controller without faults, which keeps the cylinder that the heads are at. -/
def answerOf (floppy : Floppy) (position : Nat) : Command → Answer × Nat
  | .senseDrive _ => (⟨none, [0b00100000#8]⟩, position)
  | .recalibrate _ => (⟨some (.sense 0b00100000#8 0#8), []⟩, 0)
  | .seek _ cylinder => (⟨some (.sense 0b00100000#8 cylinder), []⟩, cylinder.toNat)
  | .readId cmd unit =>
      match floppy position (unit >>> 2).toNat with
      | some t =>
          if cmd = withMfm FDC_READ_ID t.mfm then
            (⟨some (.result ⟨0#8, 0#8, 0#8, t.sizeCode⟩), []⟩, position)
          else (⟨some (.result missed), []⟩, position)
      | none => (⟨some (.result missed), []⟩, position)
  | .readData cmd _ cylinder head sector sizeShift eot _ _ count =>
      match floppy position head.toNat with
      | some t =>
          if cmd = withMfm FDC_READ_DATA t.mfm ∧ position = cylinder.toNat ∧ sector = 1#8 ∧
              sizeShift = t.sizeCode ∧ eot.toNat ≤ t.sectors.length ∧
                count ≤ eot.toNat * t.sectorSize then
            (⟨some (.result ⟨0#8, 0#8, 0#8, t.sizeCode⟩), t.bytes.take count⟩, position)
          else (⟨some (.result missed), []⟩, position)
      | none => (⟨some (.result missed), []⟩, position)

/-- Such a controller, without a second PROM. -/
def boardOf (floppy : Floppy) (sw1 : Byte) : Board Nat where
  behind := fun _ => ⟨0#8, 0#8⟩
  prom1 := fun _ => 0xFF#8
  sw1 := sw1
  intvecAddr := 0x7200#16
  answer := answerOf floppy

theorem boardOf_works {floppy : Floppy} (sw1 : Byte)
    (hheads : ∀ cylinder head, 2 ≤ head → floppy cylinder head = none) :
    Works (boardOf floppy sw1) floppy id := by
  have hunit : ∀ head : Byte, head.toNat < 2 → ((head <<< 2 ||| 0#8) >>> 2).toNat = head.toNat := by
    decide
  have hzero : (0#8 : Byte) &&& 0b11000011#8 = 0#8 ∧ (0#8 : Byte) &&& 0b10111111#8 = 0#8 := by
    decide
  have hgood : ∀ code, (⟨0#8, 0#8, 0#8, code⟩ : FdcResult).Good :=
    fun code => ⟨hzero.1, rfl, hzero.2⟩
  have hmissed : ¬ missed.Good := fun h => absurd h.1 (by decide)
  constructor
  · intro d
    show (0b00100000#8 : Byte) &&& 0b00100011#8 = 0b00100000#8
    decide
  · exact fun d => rfl
  · exact fun d head cylinder => ⟨rfl, rfl⟩
  · intro d head t ht
    have hhead : head.toNat < 2 := by
      by_contra hge
      exact nomatch (hheads d head.toNat (Nat.not_lt.mp hge)).symm.trans ht
    have hmask : t.sizeCode &&& 0b00000111#8 = t.sizeCode := by
      refine BitVec.eq_of_toNat_eq ?_
      rw [BitVec.toNat_and]
      exact (Nat.and_two_pow_sub_one_eq_mod _ 3).trans (Nat.mod_eq_of_lt t.coded)
    refine ⟨⟨0#8, 0#8, 0#8, t.sizeCode⟩, ?_, hgood _, hmask⟩
    show (match floppy d ((head <<< 2 ||| 0#8) >>> 2).toNat with | some t => _ | none => _ :
      Answer × Nat).1.interrupt = _
    rw [hunit head hhead, show floppy d head.toNat = some t from ht]
    dsimp only
    rw [if_pos rfl]
  · intro d head mfm hhead hother
    refine .inr ⟨missed, ?_, hmissed⟩
    show (match floppy d ((head <<< 2 ||| 0#8) >>> 2).toNat with | some t => _ | none => _ :
      Answer × Nat).1.interrupt = _
    rw [hunit head hhead]
    cases ht : floppy d head.toNat with
    | none => rfl
    | some t =>
        have hne : withMfm FDC_READ_ID mfm ≠ withMfm FDC_READ_ID t.mfm := by
          have hmfm : ∀ a b : Bool, a ≠ b → withMfm FDC_READ_ID b ≠ withMfm FDC_READ_ID a := by
            decide
          exact hmfm _ _ (hother t ht)
        dsimp only
        rw [if_neg hne]
  · intro d cylinder head eot gap3 dtl t count ht hposition heot hpos hcount
    have hanswer : (boardOf floppy sw1).answer d (.readData (withMfm FDC_READ_DATA t.mfm)
        (head <<< 2 ||| 0#8) cylinder head 1#8 t.sizeCode eot gap3 dtl count) =
        (⟨some (.result ⟨0#8, 0#8, 0#8, t.sizeCode⟩), t.bytes.take count⟩, d) := by
      show (match floppy d head.toNat with | some t => _ | none => _ : Answer × Nat) = _
      rw [show floppy d head.toNat = some t from ht]
      dsimp only
      rw [if_pos ⟨rfl, hposition, rfl, rfl, heot, hcount⟩]
    rw [hanswer]
    exact ⟨_, rfl, hgood _, List.take_take .. |>.trans (by rw [Nat.min_self])⟩

namespace Rom

/-! ### Commands that work -/

/-- What is different after commands: the variables and the memory as stated, and the controller
and its results. -/
structure After {D : Type} (rom : RomState) (mem : Word → Byte) (m m' : Machine D) : Prop where
  rom : m'.rom = rom
  mem : m'.mem = mem
  driveSelect : m'.driveSelect = m.driveSelect
  ramOnly : m'.ramOnly = m.ramOnly
  errorSaved : m'.errorSaved = m.errorSaved

section Working

variable {D : Type} {board : Board D} {floppy : Floppy} {position : D → Nat} {m : Machine D}
  {t : FormattedTrack}

theorem After.refl (m : Machine D) : After m.rom m.mem m m := ⟨rfl, rfl, rfl, rfl, rfl⟩

theorem After.trans {rom rom' : RomState} {mem mem' : Word → Byte} {m₁ m₂ : Machine D}
    (h : After rom mem m m₁) (h' : After rom' mem' m₁ m₂) : After rom' mem' m m₂ :=
  ⟨h'.rom, h'.mem, h'.driveSelect.trans h.driveSelect, h'.ramOnly.trans h.ramOnly,
    h'.errorSaved.trans h.errorSaved⟩

/-- The seek arrives. -/
theorem verifySeek_ok {answer : Answer} {pcn : Byte} (hdrive : m.driveSelect = 0#8)
    (harrived : answer.interrupt = some (.sense 0b00100000#8 pcn)) : ∃ m',
      verifySeekResult pcn answer m = .returned 0#8 m' ∧ After m.rom m.mem m m' ∧
        m'.fdc = m.fdc := by
  refine ⟨{ m with fdcResult.st0 := 0b00100000#8, fdcResult.st1 := pcn }, ?_,
    ⟨rfl, rfl, rfl, rfl, rfl⟩, rfl⟩
  have hvalid : (0b00100000#8 : Byte) &&& 0b11000000#8 ≠ 0b10000000#8 := by decide
  unfold verifySeekResult
  rw [harrived]
  simp only [floppyCompletedOperationInterrupt, Routine.modify_bind_run, Routine.gets_bind_run, id,
    if_pos hvalid, hdrive]
  rw [if_neg]
  · rfl
  · rintro (hne | hne)
    · exact hne rfl
    · exact hne rfl

theorem select_ok (hworks : Works board floppy position) (hdrive : m.driveSelect = 0#8) : ∃ m',
    fdcSelectDriveCylinderHead board m = .returned 0#8 m' ∧ After m.rom m.mem m m' ∧
      position m'.fdc = m.rom.cylinder.toNat := by
  obtain ⟨harrived, hposition⟩ := hworks.seek m.fdc m.rom.head m.rom.cylinder
  let c : Command := .seek ((m.rom.head <<< 2 ||| 0#8) &&& 0b00000111#8) m.rom.cylinder
  obtain ⟨m', hverify, hafter, hfdc⟩ := @verifySeek_ok D
    { m with fdc := (board.answer m.fdc c).2 } _ m.rom.cylinder hdrive harrived
  refine ⟨m', ?_, ⟨hafter.1, hafter.2, hafter.3, hafter.4, hafter.5⟩, by rw [hfdc]; exact hposition⟩
  unfold fdcSelectDriveCylinderHead
  rw [Routine.gets_bind_run, id, hdrive]
  exact hverify

theorem check_good (hdrive : m.driveSelect = 0#8) (hgood : m.fdcResult.Good) :
    checkFdcResult m = .returned 0#8 m := by
  unfold checkFdcResult
  rw [Routine.gets_bind_run, id, if_pos (by rw [hdrive]; exact hgood)]
  rfl

/-- The last retry fails. -/
theorem check_last (hdrive : m.driveSelect = 0#8) (hbad : ¬ m.fdcResult.Good)
    (hlast : m.retryCount = 1#8) :
    checkFdcResult m = .returned 2#8 { m with retryCount := 0#8 } := by
  unfold checkFdcResult
  rw [Routine.gets_bind_run, id, if_neg (by rw [hdrive]; exact hbad), Routine.modify_bind_run,
    Routine.gets_bind_run, hlast]
  rfl

/-- A command that succeeds at once. -/
theorem getResult_good {cmd retries : Byte} {answer : Answer} {m₁ : Machine D} {r : FdcResult}
    (hcmd : fdcWriteFullCmd board cmd { m with retryCount := retries } = .returned answer m₁)
    (hdrive : m₁.driveSelect = 0#8) (hresult : answer.interrupt = some (.result r))
    (hgood : r.Good) :
    fdcGetResultBytes board cmd retries m = .returned 0#8 { m₁ with fdcResult := r } := by
  unfold fdcGetResultBytes
  rw [Routine.modify_bind_run]
  refine Routine.loop_returned ?_ 255
  unfold getResultPass
  rw [Routine.bind_returned hcmd, hresult]
  have hcheck : checkFdcResult { m₁ with fdcResult := r } = .returned 0#8 _ :=
    check_good hdrive hgood
  dsimp only [floppyCompletedOperationInterrupt]
  rw [Routine.modify_bind_run, Routine.bind_returned hcheck]
  rfl

/-- A command that fails, and is not retried. -/
theorem getResult_bad {cmd : Byte} {answer : Answer} {m₁ : Machine D}
    (hcmd : fdcWriteFullCmd board cmd { m with retryCount := 1#8 } = .returned answer m₁)
    (hdrive : m₁.driveSelect = 0#8) (hretry : m₁.retryCount = 1#8)
    (hmissed : answer.Missed) : ∃ m',
      fdcGetResultBytes board cmd 1#8 m = .returned 1#8 m' ∧ After m₁.rom m₁.mem m₁ m' := by
  unfold fdcGetResultBytes
  rw [Routine.modify_bind_run]
  rcases hmissed with hresult | ⟨r, hresult, hbad⟩
  · refine ⟨m₁, Routine.loop_returned ?_ 255, After.refl m₁⟩
    unfold getResultPass
    rw [Routine.bind_returned hcmd, hresult]
    rfl
  · refine ⟨{ m₁ with fdcResult := r, retryCount := 0#8 }, Routine.loop_returned ?_ 255,
      ⟨rfl, rfl, rfl, rfl, rfl⟩⟩
    unfold getResultPass
    have hcheck : checkFdcResult { m₁ with fdcResult := r } = .returned 2#8 _ :=
      check_last hdrive hbad hretry
    rw [Routine.bind_returned hcmd, hresult]
    dsimp only [floppyCompletedOperationInterrupt]
    rw [Routine.modify_bind_run, Routine.bind_returned hcheck]
    rfl

theorem readIdCmd_run (hdrive : m.driveSelect = 0#8) :
    fdcWriteFullCmd board FDC_READ_ID m = send board
      (.readId (withMfm FDC_READ_ID m.rom.isMfm) (m.rom.head <<< 2 ||| 0#8)) m := by
  unfold fdcWriteFullCmd
  rw [Routine.gets_bind_run, id, hdrive]
  rfl

theorem readId_good (hworks : Works board floppy position) (hdrive : m.driveSelect = 0#8)
    (ht : floppy (position m.fdc) m.rom.head.toNat = some t) (hmfm : m.rom.isMfm = t.mfm) : ∃ m',
      fdcGetResultBytes board FDC_READ_ID 1#8 m = .returned 0#8 m' ∧ After m.rom m.mem m m' ∧
        m'.fdcResult.sizeCode &&& 0b00000111#8 = t.sizeCode := by
  obtain ⟨r, hresult, hgood, hsize⟩ := hworks.readId m.fdc m.rom.head t ht
  rw [← hmfm] at hresult
  exact ⟨_, getResult_good (@readIdCmd_run D board { m with retryCount := 1#8 } hdrive) hdrive
    hresult hgood, ⟨rfl, rfl, rfl, rfl, rfl⟩, hsize⟩

theorem readId_bad (hworks : Works board floppy position) (hdrive : m.driveSelect = 0#8)
    (hhead : m.rom.head.toNat < 2)
    (hnone : ∀ t, floppy (position m.fdc) m.rom.head.toNat = some t → t.mfm ≠ m.rom.isMfm) : ∃ m',
      fdcGetResultBytes board FDC_READ_ID 1#8 m = .returned 1#8 m' ∧ After m.rom m.mem m m' := by
  obtain ⟨m', hrun, hafter⟩ := getResult_bad
    (@readIdCmd_run D board { m with retryCount := 1#8 } hdrive) hdrive rfl
    (hworks.readIdFails m.fdc m.rom.head m.rom.isMfm hhead hnone)
  exact ⟨m', hrun, ⟨hafter.1, hafter.2, hafter.3, hafter.4, hafter.5⟩⟩

/-! ### Detecting a format -/

theorem detectPass_good (hworks : Works board floppy position) (hdrive : m.driveSelect = 0#8)
    (ht : floppy m.rom.cylinder.toNat m.rom.head.toNat = some t) (hmfm : m.rom.isMfm = t.mfm) :
    ∃ m', detectPass board m = .returned (some 0#8) m' ∧
      After { m.rom with dmaTransferSize := 4#16 } m.mem m m' ∧
        m'.fdcResult.sizeCode &&& 0b00000111#8 = t.sizeCode := by
  obtain ⟨m₁, hselect, hafter₁, hposition⟩ := select_ok hworks hdrive
  let m₂ : Machine D := { m₁ with rom := { m₁.rom with dmaTransferSize := 4#16 } }
  have ht₂ : floppy (position m₂.fdc) m₂.rom.head.toNat = some t := by
    show floppy (position m₁.fdc) m₁.rom.head.toNat = _
    rw [hposition, hafter₁.rom]
    exact ht
  have hmfm₂ : m₂.rom.isMfm = t.mfm := by
    show m₁.rom.isMfm = _
    rw [hafter₁.rom]
    exact hmfm
  obtain ⟨m₃, hread, hafter₃, hsize⟩ :=
    @readId_good D board floppy position m₂ t hworks (hafter₁.driveSelect.trans hdrive) ht₂ hmfm₂
  refine ⟨m₃, ?_, ?_, hsize⟩
  · unfold detectPass
    rw [Routine.bind_returned hselect, if_neg (not_not.mpr rfl)]
    exact Routine.bind_returned hread
  · rw [← hafter₁.rom, ← hafter₁.mem]
    exact ⟨hafter₃.rom, hafter₃.mem, hafter₃.driveSelect.trans hafter₁.driveSelect,
      hafter₃.ramOnly.trans hafter₁.ramOnly, hafter₃.errorSaved.trans hafter₁.errorSaved⟩

theorem detectPass_bad (hworks : Works board floppy position) (hdrive : m.driveSelect = 0#8)
    (hhead : m.rom.head.toNat < 2)
    (hnone : ∀ t, floppy m.rom.cylinder.toNat m.rom.head.toNat = some t → t.mfm ≠ m.rom.isMfm) :
    ∃ m', detectPass board m = .returned (if m.rom.isMfm then some 1#8 else none) m' ∧
      After { m.rom with dmaTransferSize := 4#16, isMfm := true } m.mem m m' := by
  obtain ⟨m₁, hselect, hafter₁, hposition⟩ := select_ok hworks hdrive
  let m₂ : Machine D := { m₁ with rom := { m₁.rom with dmaTransferSize := 4#16 } }
  have hnone₂ : ∀ t, floppy (position m₂.fdc) m₂.rom.head.toNat = some t →
      t.mfm ≠ m₂.rom.isMfm := by
    show ∀ t, floppy (position m₁.fdc) m₁.rom.head.toNat = some t → t.mfm ≠ m₁.rom.isMfm
    rw [hposition, hafter₁.rom]
    exact hnone
  have hhead₂ : m₂.rom.head.toNat < 2 := by
    show m₁.rom.head.toNat < 2
    rw [hafter₁.rom]
    exact hhead
  obtain ⟨m₃, hread, hafter₃⟩ := @readId_bad D board floppy position m₂ hworks
    (hafter₁.driveSelect.trans hdrive) hhead₂ hnone₂
  have hmfm₃ : m₃.rom.isMfm = m.rom.isMfm := by
    rw [hafter₃.rom]
    show m₁.rom.isMfm = _
    rw [hafter₁.rom]
  have hpass : detectPass board m =
      (if m₃.rom.isMfm then pure (some 1#8) else do
        modifyRom fun s => { s with isMfm := true }
        pure none : Code D (Option Byte)) m₃ := by
    unfold detectPass
    rw [Routine.bind_returned hselect, if_neg (not_not.mpr rfl)]
    exact Routine.bind_returned hread
  have hrom₃ : m₃.rom = { m.rom with dmaTransferSize := 4#16 } := by
    rw [hafter₃.rom, ← hafter₁.rom]
  rw [hpass]
  cases hmfm : m.rom.isMfm with
  | true =>
      rw [if_pos (hmfm₃.trans hmfm)]
      refine ⟨m₃, rfl, ?_, hafter₃.mem.trans hafter₁.mem,
        hafter₃.driveSelect.trans hafter₁.driveSelect, hafter₃.ramOnly.trans hafter₁.ramOnly,
        hafter₃.errorSaved.trans hafter₁.errorSaved⟩
      rw [hrom₃, ← hmfm]
  | false =>
      rw [if_neg (by rw [hmfm₃, hmfm]; exact Bool.false_ne_true)]
      refine ⟨{ m₃ with rom := { m₃.rom with isMfm := true } }, rfl, ?_,
        hafter₃.mem.trans hafter₁.mem, hafter₃.driveSelect.trans hafter₁.driveSelect,
        hafter₃.ramOnly.trans hafter₁.ramOnly, hafter₃.errorSaved.trans hafter₁.errorSaved⟩
      rw [hrom₃]

/-- The variables, when the format of a track was looked for. -/
def searched (s : RomState) (mfm : Bool) : RomState :=
  { s with isMfm := mfm, dmaTransferSize := 4#16 }

theorem setUp_congr {behind : Nat → FormatEntry} {s : RomState} {found : Byte}
    (hfound : found &&& 0b00000111#8 = t.sizeCode) :
    setUp behind s found = setUp behind s t.sizeCode := by
  have hmask : t.sizeCode &&& 0b00000111#8 = t.sizeCode := by
    rw [← hfound, BitVec.and_assoc, BitVec.and_self]
  unfold setUp
  rw [hfound, hmask]

/-- The loop of the detection, up to where the size code is found. -/
theorem detectLoop_ok (hworks : Works board floppy position) (hdrive : m.driveSelect = 0#8)
    (hhead : m.rom.head.toNat < 2)
    (ht : floppy m.rom.cylinder.toNat m.rom.head.toNat = some t) (hfm : m.rom.isMfm = false) :
    ∃ m', Routine.loop (detectPass board) 2 m = .returned 0#8 m' ∧
      After (searched m.rom t.mfm) m.mem m m' ∧
        m'.fdcResult.sizeCode &&& 0b00000111#8 = t.sizeCode := by
  cases hmfm : t.mfm with
  | false =>
      obtain ⟨m', hpass, hafter, hsize⟩ := detectPass_good hworks hdrive ht (hfm.trans hmfm.symm)
      refine ⟨m', Routine.loop_returned hpass 1, ⟨?_, hafter.2, hafter.3, hafter.4, hafter.5⟩,
        hsize⟩
      rw [hafter.rom, searched, ← hfm]
  | true =>
      have hother : ∀ t', floppy m.rom.cylinder.toNat m.rom.head.toNat = some t' →
          t'.mfm ≠ m.rom.isMfm := by
        intro t' ht'
        obtain rfl := Option.some.inj (ht.symm.trans ht')
        rw [hmfm, hfm]
        exact Bool.noConfusion
      obtain ⟨m₁, hfirst, hafter₁⟩ := detectPass_bad hworks hdrive hhead hother
      rw [hfm, if_neg Bool.false_ne_true] at hfirst
      have ht₁ : floppy m₁.rom.cylinder.toNat m₁.rom.head.toNat = some t := by
        rw [hafter₁.rom]
        exact ht
      have hmfm₁ : m₁.rom.isMfm = t.mfm := by rw [hafter₁.rom, hmfm]
      obtain ⟨m₂, hsecond, hafter₂, hsize⟩ :=
        detectPass_good hworks (hafter₁.driveSelect.trans hdrive) ht₁ hmfm₁
      refine ⟨m₂, ?_, ?_, hsize⟩
      · rw [Routine.loop_goesOn hfirst]
        exact Routine.loop_returned hsecond 0
      · have hafter := hafter₁.trans hafter₂
        refine ⟨?_, hafter.2.trans hafter₁.mem, hafter.3, hafter.4, hafter.5⟩
        rw [hafter.rom, hafter₁.rom]
        rfl

/-- **Detection** finds the format of the track, in either density. -/
theorem detect_found (hworks : Works board floppy position) (hdrive : m.driveSelect = 0#8)
    (hhead : m.rom.head.toNat < 2)
    (ht : floppy m.rom.cylinder.toNat m.rom.head.toNat = some t) : ∃ m',
      fdcDetectSectorSizeAndDensity board m = .returned 0#8 m' ∧
        After (setUp board.behind (searched m.rom t.mfm) t.sizeCode) m.mem m m' := by
  obtain ⟨m', hloop, hafter, hsize⟩ :=
    @detectLoop_ok D board floppy position { m with rom := { m.rom with isMfm := false } } t
      hworks hdrive hhead ht rfl
  refine ⟨{ m' with rom := setUp board.behind m'.rom m'.fdcResult.sizeCode }, ?_,
    ⟨?_, hafter.2, hafter.3, hafter.4, hafter.5⟩⟩
  · unfold fdcDetectSectorSizeAndDensity
    refine (Routine.bind_returned hloop).trans ?_
    rw [if_neg (not_not.mpr rfl)]
    rfl
  · show setUp _ _ _ = _
    rw [setUp_congr hsize, hafter.rom]
    rfl

/-- Without a track the detection fails. -/
theorem detect_none (hworks : Works board floppy position) (hdrive : m.driveSelect = 0#8)
    (hhead : m.rom.head.toNat < 2)
    (hnone : floppy m.rom.cylinder.toNat m.rom.head.toNat = none) : ∃ m',
      fdcDetectSectorSizeAndDensity board m = .returned 1#8 m' ∧
        After (searched m.rom true) m.mem m m' := by
  have hother : ∀ mfm t', floppy m.rom.cylinder.toNat m.rom.head.toNat = some t' →
      t'.mfm ≠ mfm := fun mfm t' ht' => nomatch hnone.symm.trans ht'
  obtain ⟨m₁, hfirst, hafter₁⟩ :=
    @detectPass_bad D board floppy position { m with rom := { m.rom with isMfm := false } }
      hworks hdrive hhead (hother false)
  have hother₁ : ∀ t', floppy m₁.rom.cylinder.toNat m₁.rom.head.toNat = some t' →
      t'.mfm ≠ m₁.rom.isMfm := by
    rw [hafter₁.rom]
    exact hother true
  have hhead₁ : m₁.rom.head.toNat < 2 := by
    rw [hafter₁.rom]
    exact hhead
  obtain ⟨m₂, hsecond, hafter₂⟩ :=
    detectPass_bad hworks (hafter₁.driveSelect.trans hdrive) hhead₁ hother₁
  have hmfm₁ : m₁.rom.isMfm = true := by rw [hafter₁.rom]
  rw [if_pos hmfm₁] at hsecond
  have hafter := hafter₁.trans hafter₂
  refine ⟨m₂, ?_, ⟨?_, hafter.2.trans hafter₁.mem, hafter.3, hafter.4, hafter.5⟩⟩
  · unfold fdcDetectSectorSizeAndDensity
    have hloop : Routine.loop (detectPass board) 2 { m with rom := { m.rom with isMfm := false } } =
        .returned 1#8 m₂ := by
      rw [Routine.loop_goesOn hfirst]
      exact Routine.loop_returned hsecond 0
    refine (Routine.bind_returned hloop).trans ?_
    rw [if_pos (by decide)]
    rfl
  · rw [hafter.rom, hafter₁.rom]
    rfl

/-! ### Reading tracks -/

/-- The transfer of a track, and the bytes of the disk that are transferred. -/
def transferOf (s : RomState) : Transfer :=
  ⟨(chooseSize s).cylinder, (chooseSize s).head, (chooseSize s).dmaTransferAddress,
    (chooseSize s).dmaTransferSize⟩

theorem readTrack_transferOf (s : RomState) :
    readTrack 0 0 s = .transferred (transferOf s) (trackRead (chooseSize s)) := by
  simp [readTrack, transferOf, trackRead]

/-- The disk has what is transferred, in the format that is set up. -/
structure Available (floppy : Floppy) (s : RomState) (t : Transfer) (track : FormattedTrack) :
    Prop where
  found : floppy t.cylinder.toNat t.head.toNat = some track
  mfm : track.mfm = s.isMfm
  sizeCode : track.sizeCode = s.sizeShift
  sectors : s.eot.toNat ≤ track.sectors.length
  some : 0 < t.size.toNat
  size : t.size.toNat ≤ s.eot.toNat * track.sectorSize

/-- The memory, when a track was transferred. -/
def transferred (t : Transfer) (track : FormattedTrack) (mem : Word → Byte) : Word → Byte :=
  storeAt mem t.address (track.bytes.take t.size.toNat)

theorem writeReadData_run (hdrive : m.driveSelect = 0#8) {answer : Answer} {d : D}
    (hanswer : board.answer m.fdc (.readData (withMfm FDC_READ_DATA m.rom.isMfm)
      (m.rom.head <<< 2 ||| 0#8) m.rom.cylinder m.rom.head m.rom.sector m.rom.sizeShift m.rom.eot
        m.rom.gap3 m.rom.dtl ((m.rom.dmaTransferSize - 1#16).toNat + 1)) = (answer, d)) :
    fdcWriteFullCmd board FDC_READ_DATA m = .returned answer
      { m with
        fdc := d
        mem := storeAt m.mem m.rom.dmaTransferAddress
          (answer.data.take ((m.rom.dmaTransferSize - 1#16).toNat + 1)) } := by
  have hsend : send board (.readData (withMfm FDC_READ_DATA m.rom.isMfm)
      (m.rom.head <<< 2 ||| 0#8) m.rom.cylinder m.rom.head m.rom.sector m.rom.sizeShift m.rom.eot
        m.rom.gap3 m.rom.dtl ((m.rom.dmaTransferSize - 1#16).toNat + 1)) m =
      .returned answer { m with fdc := d } := by
    unfold send
    rw [hanswer]
  have hunit : m.rom.head <<< 2 ||| m.driveSelect = m.rom.head <<< 2 ||| 0#8 := by rw [hdrive]
  unfold fdcWriteFullCmd
  rw [Routine.gets_bind_run, id, hunit, if_pos (by decide)]
  exact Routine.bind_returned hsend

/-- A Read Data of a track that the disk has. -/
theorem readData_good (hworks : Works board floppy position) (hdrive : m.driveSelect = 0#8)
    (hposition : position m.fdc = m.rom.cylinder.toNat) (hsector : m.rom.sector = 1#8)
    (ht : floppy m.rom.cylinder.toNat m.rom.head.toNat = some t) (hmfm : t.mfm = m.rom.isMfm)
    (hcode : t.sizeCode = m.rom.sizeShift) (heot : m.rom.eot.toNat ≤ t.sectors.length)
    (hsome : 0 < m.rom.dmaTransferSize.toNat)
    (hfits : m.rom.dmaTransferSize.toNat ≤ m.rom.eot.toNat * t.sectorSize) : ∃ m',
      fdcGetResultBytes board FDC_READ_DATA 5#8 m = .returned 0#8 m' ∧
      After m.rom (storeAt m.mem m.rom.dmaTransferAddress
        (t.bytes.take m.rom.dmaTransferSize.toNat)) m m' := by
  have hcount : (m.rom.dmaTransferSize - 1#16).toNat + 1 = m.rom.dmaTransferSize.toNat := by
    rw [BitVec.toNat_sub]
    have hlt := m.rom.dmaTransferSize.isLt
    simp only [BitVec.toNat_ofNat]
    omega
  obtain ⟨r, hresult, hgood, hdata⟩ := hworks.readData m.fdc m.rom.cylinder m.rom.head m.rom.eot
    m.rom.gap3 m.rom.dtl t m.rom.dmaTransferSize.toNat (hposition ▸ ht) hposition heot hsome hfits
  rw [hmfm, hcode, ← hsector, ← hcount] at hresult hdata
  have hwrite := @writeReadData_run D board { m with retryCount := 5#8 } hdrive _ _ rfl
  refine ⟨_, getResult_good hwrite hdrive hresult hgood, ⟨rfl, ?_, rfl, rfl, rfl⟩⟩
  show storeAt m.mem m.rom.dmaTransferAddress _ = _
  rw [hdata, hcount]

theorem chooseSize_format (s : RomState) : (chooseSize s).cylinder = s.cylinder ∧
    (chooseSize s).sector = s.sector ∧ (chooseSize s).isMfm = s.isMfm ∧
      (chooseSize s).sizeShift = s.sizeShift ∧ (chooseSize s).eot = s.eot := by
  rw [chooseSize_eq]
  exact ⟨rfl, rfl, rfl, rfl, rfl⟩

/-- A pass of the read, on a track that the disk has. -/
theorem readPass_ok (hworks : Works board floppy position) (hdrive : m.driveSelect = 0#8)
    (hsector : m.rom.sector = 1#8)
    (havailable : Available floppy m.rom (transferOf m.rom) t) : ∃ m',
      readPass board m = .returned
        (if (chooseSize m.rom).moreTracksToRead then none else some ()) m' ∧
      After (trackRead (chooseSize m.rom)) (transferred (transferOf m.rom) t m.mem) m m' := by
  obtain ⟨m₁, hselect, hafter₁, hposition⟩ := select_ok hworks hdrive
  obtain ⟨hcylinder, hsector₂, hmfm, hsize, heot⟩ := chooseSize_format m.rom
  let m₂ : Machine D := { m₁ with rom := chooseSize m.rom }
  have hposition₂ : position m₂.fdc = (chooseSize m.rom).cylinder.toNat := by
    rw [hcylinder]
    exact hposition
  obtain ⟨m₃, hread, hafter₃⟩ := @readData_good D board floppy position m₂ t hworks
    (hafter₁.driveSelect.trans hdrive) hposition₂ (hsector₂.trans hsector) havailable.found
    (havailable.mfm.trans hmfm.symm) (havailable.sizeCode.trans hsize.symm)
    (heot ▸ havailable.sectors) havailable.some (heot ▸ havailable.size)
  refine ⟨{ m₃ with rom := trackRead m₃.rom }, ?_, ?_, ?_,
    hafter₃.driveSelect.trans hafter₁.driveSelect, hafter₃.ramOnly.trans hafter₁.ramOnly,
    hafter₃.errorSaved.trans hafter₁.errorSaved⟩
  · have hmodified : ({ m₁ with rom := chooseSize m₁.rom } : Machine D) = m₂ := by
      rw [hafter₁.rom]
    have hmore : (trackRead m₃.rom).moreTracksToRead = (chooseSize m.rom).moreTracksToRead := by
      rw [trackRead, advanceTrack_eq, hafter₃.rom]
    unfold readPass
    rw [Routine.bind_returned hselect, if_neg (by decide), if_neg (not_not.mpr rfl)]
    show (fdcGetResultBytes board FDC_READ_DATA 5#8 >>= _) { m₁ with rom := chooseSize m₁.rom } = _
    rw [hmodified, Routine.bind_returned hread, if_neg (not_not.mpr rfl), ← hmore]
    show (if (trackRead m₃.rom).moreTracksToRead then pure none else pure (some ()) :
      Code D (Option Unit)) { m₃ with rom := trackRead m₃.rom } = _
    cases (trackRead m₃.rom).moreTracksToRead with
    | true => rfl
    | false => rfl
  · show trackRead m₃.rom = _
    rw [hafter₃.rom]
  · show m₃.mem = _
    rw [hafter₃.mem]
    show storeAt m₁.mem _ _ = _
    rw [hafter₁.mem]
    rfl

/-- The tracks of the transfers, one after the other. -/
def AllAvailable (floppy : Floppy) (s : RomState) (ts : List Transfer)
    (tracks : List FormattedTrack) : Prop :=
  List.Forall₂ (Available floppy s) ts tracks

/-- The memory, when tracks were transferred. -/
def allTransferred (ts : List Transfer) (tracks : List FormattedTrack) (mem : Word → Byte) :
    Word → Byte :=
  (ts.zip tracks).foldl (fun mem p => transferred p.1 p.2 mem) mem

/-- What a pass leaves of the format. -/
theorem trackRead_format (s : RomState) : (trackRead (chooseSize s)).sector = 1#8 ∧
    (trackRead (chooseSize s)).isMfm = s.isMfm ∧
      (trackRead (chooseSize s)).sizeShift = s.sizeShift ∧
        (trackRead (chooseSize s)).eot = s.eot := by
  rw [trackRead, advanceTrack_eq, chooseSize_eq]
  exact ⟨rfl, rfl, rfl, rfl⟩

/-- **The read** transfers what the plain one does, from the tracks of the disk. -/
theorem readLoop_ok (hworks : Works board floppy position) {n : Nat} {ts : List Transfer}
    {s' : RomState} {tracks : List FormattedTrack} (hdrive : m.driveSelect = 0#8)
    (hsector : m.rom.sector = 1#8) (hrun : readTracks succeeding n m.rom = some (ts, .done, s'))
    (havailable : AllAvailable floppy m.rom ts tracks) : ∃ m',
      Routine.loop (readPass board) n m = .returned () m' ∧
        After s' (allTransferred ts tracks m.mem) m m' := by
  induction n generalizing m ts tracks with
  | zero => exact nomatch hrun
  | succ n ih =>
      rw [readTracks_pass (readTrack_transferOf m.rom)] at hrun
      have hmore : (trackRead (chooseSize m.rom)).moreTracksToRead =
          (chooseSize m.rom).moreTracksToRead := by
        rw [trackRead, advanceTrack_eq]
      by_cases hgoes : (trackRead (chooseSize m.rom)).moreTracksToRead = true
      · rw [if_pos hgoes] at hrun
        obtain ⟨⟨ts₁, e, s₁⟩, hrest, heq⟩ := Option.map_eq_some_iff.mp hrun
        obtain ⟨rfl, rfl, rfl⟩ : transferOf m.rom :: ts₁ = ts ∧ e = .done ∧ s₁ = s' := by
          simpa using heq
        obtain ⟨track, tracks₁, hfirst, hothers, rfl⟩ := List.forall₂_cons_left_iff.mp havailable
        obtain ⟨m₁, hpass, hafter₁⟩ := readPass_ok hworks hdrive hsector hfirst
        rw [← hmore, if_pos hgoes] at hpass
        obtain ⟨hsector₁, hmfm₁, hsize₁, heot₁⟩ := trackRead_format m.rom
        obtain ⟨m₂, hloop, hafter₂⟩ := ih (hafter₁.driveSelect.trans hdrive)
          (by rw [hafter₁.rom]; exact hsector₁) (by rw [hafter₁.rom]; exact hrest)
          (hothers.imp fun t track ht => by
            rw [hafter₁.rom]
            exact ⟨ht.found, ht.mfm.trans hmfm₁.symm, ht.sizeCode.trans hsize₁.symm,
              by rw [heot₁]; exact ht.sectors, ht.some, by rw [heot₁]; exact ht.size⟩)
        refine ⟨m₂, (Routine.loop_goesOn hpass n).trans hloop, ?_⟩
        rw [hafter₁.mem] at hafter₂
        exact hafter₁.trans hafter₂
      · rw [if_neg hgoes] at hrun
        obtain ⟨rfl, rfl⟩ : [transferOf m.rom] = ts ∧ trackRead (chooseSize m.rom) = s' := by
          simpa using hrun
        obtain ⟨track, tracks₁, hfirst, hothers, rfl⟩ := List.forall₂_cons_left_iff.mp havailable
        obtain rfl := List.forall₂_nil_left_iff.mp hothers
        obtain ⟨m₁, hpass, hafter₁⟩ := readPass_ok hworks hdrive hsector hfirst
        rw [← hmore, if_neg hgoes] at hpass
        exact ⟨m₁, Routine.loop_returned hpass n, hafter₁⟩

end Working

/-! ### Track 0 -/

/-- A track with as many sectors as the table has for its format. -/
structure Standard (behind : Nat → FormatEntry) (isMini : Bool) (t : FormattedTrack) : Prop where
  small : t.sizeCode.toNat < 4
  pos : 0 < t.sectors.length
  sectors : (entryAt behind (entryPlace isMini t.sizeCode t.mfm)).eot.toNat = t.sectors.length

/-- The variables before the track is read. -/
structure Prepared (t : FormattedTrack) (s : RomState) : Prop where
  mfm : s.isMfm = t.mfm
  sizeShift : s.sizeShift = t.sizeCode
  eot : s.eot.toNat = t.sectors.length
  size : s.dmaTransferSize.toNat = t.bytes.length
  sector : s.sector = 1#8
  diskType : s.diskType = 0#8

section Sides

variable {behind : Nat → FormatEntry} {isMini : Bool} {t : FormattedTrack} {s : RomState}

/-- The sizes of the table. -/
theorem Standard.length_range (h : Standard behind isMini t) :
    2048 ≤ t.bytes.length ∧ t.bytes.length ≤ 8192 := by
  have hentry : ∀ isMini mfm : Bool, ∀ n < 4, ∃ entry,
      eotGap3Table.flatten.flatten[(isMini.toNat * 4 + n) * 2 + mfm.toNat]? = some entry ∧
        (0 < entry.eot.toNat → 2048 ≤ entry.eot.toNat * (128 * 2 ^ n)) ∧
          entry.eot.toNat * (128 * 2 ^ n) ≤ 8192 := by
    decide
  obtain ⟨entry, hplace, hge, hle⟩ := hentry isMini t.mfm t.sizeCode.toNat h.small
  have hsectors := h.sectors
  rw [entryAt, entryPlace, hplace] at hsectors
  rw [t.length_bytes, ← hsectors]
  exact ⟨hge (hsectors ▸ h.pos), hle⟩

/-- The size that is computed for a track from sector 1 on. -/
theorem calcSize_prepared (hshift : s.sizeShift = t.sizeCode)
    (heot : s.eot.toNat = t.sectors.length) (hsector : s.sector = 1#8)
    (htype : s.diskType = 0#8) (hlen : t.bytes.length < 65536) :
    (calcSizeOfCurrentTrack s).dmaTransferSize.toNat = t.bytes.length := by
  rw [calcSize_toNat hsector (hshift ▸ t.coded), trackSize, if_neg, heot, hshift, t.length_bytes]
  · rw [t.length_bytes] at hlen
    exact Nat.mod_eq_of_lt hlen
  · rw [htype]
    exact fun h => h.1 (by decide)

/-- What is set up for a standard track. -/
theorem setUp_prepared (h : Standard behind s.isMini t) (hsector : s.sector = 1#8)
    (htype : s.diskType = 0#8) :
    Prepared t (setUp behind (searched s t.mfm) t.sizeCode) := by
  have hmask : t.sizeCode &&& 0b00000111#8 = t.sizeCode := by
    refine BitVec.eq_of_toNat_eq ?_
    rw [BitVec.toNat_and]
    exact (Nat.and_two_pow_sub_one_eq_mod _ 3).trans (Nat.mod_eq_of_lt t.coded)
  have hshift : (setUp behind (searched s t.mfm) t.sizeCode).sizeShift = t.sizeCode := hmask
  have heot : (setUp behind (searched s t.mfm) t.sizeCode).eot.toNat = t.sectors.length := by
    show (entryAt behind (entryPlace _ (t.sizeCode &&& 0b00000111#8) _)).eot.toNat = _
    rw [hmask]
    exact h.sectors
  have hlen : t.bytes.length < 65536 := by
    have := h.length_range.2
    omega
  exact ⟨rfl, hshift, heot, calcSize_prepared hshift heot hsector htype hlen, hsector, htype⟩

/-- The variables, when a side was read. -/
def sideRead (s : RomState) : RomState :=
  trackRead (chooseSize { s with bytesLeftToRead := s.dmaTransferSize })

/-- All of the track is read at once. -/
theorem chooseSize_prepared (h : Prepared t s) :
    chooseSize { s with bytesLeftToRead := s.dmaTransferSize } =
      { s with moreTracksToRead := false, bytesLeftToRead := 0#16 } := by
  have hlen : t.bytes.length < 65536 := h.size ▸ s.dmaTransferSize.isLt
  have hsize : (calcSizeOfCurrentTrack
      { s with bytesLeftToRead := s.dmaTransferSize }).dmaTransferSize = s.dmaTransferSize :=
    BitVec.eq_of_toNat_eq ((@calcSize_prepared t { s with bytesLeftToRead := s.dmaTransferSize }
      h.sizeShift h.eot h.sector h.diskType hlen).trans h.size.symm)
  unfold chooseSize
  dsimp only
  rw [hsize, if_neg]
  · rfl
  · show ¬ 0 < (s.dmaTransferSize - s.dmaTransferSize).toInt
    rw [BitVec.sub_self]
    decide

theorem sideRead_prepared (h : Prepared t s) : sideRead s =
    { s with
      sector := 1#8
      cylinder := (sideRead s).cylinder
      head := (sideRead s).head
      moreTracksToRead := false
      dmaTransferAddress := s.dmaTransferAddress + s.dmaTransferSize
      dmaTransferSize := 0#16
      bytesLeftToRead := 0#16 } := by
  unfold sideRead
  rw [chooseSize_prepared h, trackRead, advanceTrack_eq]

theorem readTracks_prepared (h : Prepared t s) (n : Nat) :
    readTracks succeeding (n + 1) { s with bytesLeftToRead := s.dmaTransferSize } =
      some ([⟨s.cylinder, s.head, s.dmaTransferAddress, s.dmaTransferSize⟩], .done,
        sideRead s) := by
  have hmore : (sideRead s).moreTracksToRead = false := by rw [sideRead_prepared h]
  rw [readTracks_pass (readTrack_transferOf _)]
  show (if (sideRead s).moreTracksToRead then _ else some ([transferOf _], _, sideRead s)) = _
  rw [hmore, if_neg Bool.false_ne_true, transferOf, chooseSize_prepared h]

end Sides

section Boot

variable {D : Type} {board : Board D} {floppy : Floppy} {position : D → Nat} {m : Machine D}
  {t t' : FormattedTrack} {n : Nat} {m' : Machine D}

/-- A side is read as a whole. -/
theorem readSide_ok (hworks : Works board floppy position) (hdrive : m.driveSelect = 0#8)
    (h : Prepared t m.rom) (hsome : 0 < t.bytes.length)
    (ht : floppy m.rom.cylinder.toNat m.rom.head.toNat = some t) (n : Nat) : ∃ m',
      fdcReadDataFromCurrentLocation board (n + 1) m.rom.dmaTransferSize m = .returned () m' ∧
        After (sideRead m.rom) (storeAt m.mem m.rom.dmaTransferAddress t.bytes) m m' := by
  have havailable : AllAvailable floppy { m.rom with bytesLeftToRead := m.rom.dmaTransferSize }
      [⟨m.rom.cylinder, m.rom.head, m.rom.dmaTransferAddress, m.rom.dmaTransferSize⟩] [t] := by
    refine .cons ⟨ht, h.mfm.symm, h.sizeShift.symm, h.eot.le, ?_, ?_⟩ .nil
    · rw [h.size]
      exact hsome
    · rw [h.size, t.length_bytes, h.eot]
  obtain ⟨m', hloop, hafter⟩ := @readLoop_ok D board floppy position
    { m with rom := { m.rom with bytesLeftToRead := m.rom.dmaTransferSize } } hworks (n + 1) _ _ _
    hdrive h.sector (readTracks_prepared h n) havailable
  refine ⟨m', hloop, hafter.rom, ?_, hafter.3, hafter.4, hafter.5⟩
  rw [hafter.mem]
  show storeAt m.mem m.rom.dmaTransferAddress (t.bytes.take m.rom.dmaTransferSize.toNat) = _
  rw [h.size, List.take_length]

/-- What follows a pass that reads side `s.head` of track 0. -/
theorem bootPass_last (hread : fdcReadDataFromCurrentLocation board n m.rom.dmaTransferSize m =
    .returned () m') (hlast : m'.rom.cylinder ≠ 0#8) :
    bootPass board n m = .returned (some ()) m' := by
  unfold bootPass
  rw [Routine.gets_bind_run, Routine.bind_returned hread, Routine.gets_bind_run, if_pos hlast]
  rfl

theorem bootPass_goesOn {m'' : Machine D} {r : Byte}
    (hread : fdcReadDataFromCurrentLocation board n m.rom.dmaTransferSize m = .returned () m')
    (hnext : m'.rom.cylinder = 0#8)
    (hdetect : fdcDetectSectorSizeAndDensity board m' = .returned r m'') :
    bootPass board n m = .returned none m'' := by
  unfold bootPass
  rw [Routine.gets_bind_run, Routine.bind_returned hread, Routine.gets_bind_run,
    if_neg (not_not.mpr hnext), Routine.bind_returned hdetect]
  rfl

/-- The bytes of track 0, side after side. -/
def track0 (t : FormattedTrack) (back : Option FormattedTrack) : List Byte :=
  t.bytes ++ back.elim [] FormattedTrack.bytes

/-- The variables when the first side is about to be read. -/
structure AtTrack0 (back : Option FormattedTrack) (s : RomState) : Prop where
  cylinder : s.cylinder = 0#8
  head : s.head = 0#8
  doubleSided : s.isDoubleSided = back.isSome
  address : s.dmaTransferAddress = 0#16

/-- The variables when track 0 was read. -/
structure AtTrack1 (back : Option FormattedTrack) (s : RomState) : Prop where
  cylinder : s.cylinder = 1#8
  head : s.head = 0#8
  sector : s.sector = 1#8
  doubleSided : s.isDoubleSided = back.isSome

/-- Behind the last side the next cylinder follows. -/
theorem sideRead_last {s : RomState} (hlast : (if s.isDoubleSided then 1#8 else 0#8) = s.head) :
    (sideRead s).cylinder = s.cylinder + 1#8 ∧ (sideRead s).head = 0#8 := by
  unfold sideRead trackRead advanceTrack
  rw [chooseSize_eq]
  dsimp only
  rw [if_pos hlast]
  exact ⟨rfl, rfl⟩

theorem sideRead_other {s : RomState} (hother : (if s.isDoubleSided then 1#8 else 0#8) ≠ s.head) :
    (sideRead s).cylinder = s.cylinder ∧ (sideRead s).head = s.head + 1#8 := by
  unfold sideRead trackRead advanceTrack
  rw [chooseSize_eq]
  dsimp only
  rw [if_neg hother]
  exact ⟨rfl, rfl⟩

/-- **The loop** reads both sides of track 0. -/
theorem bootLoop_ok (hworks : Works board floppy position) {isMini : Bool}
    {back : Option FormattedTrack} (hdrive : m.driveSelect = 0#8) (hmini : m.rom.isMini = isMini)
    (hfront : floppy 0 0 = some t) (hback : floppy 0 1 = back)
    (hstandard : Standard board.behind isMini t)
    (hstandard' : ∀ t', back = some t' → Standard board.behind isMini t')
    (hprepared : Prepared t m.rom) (hstart : AtTrack0 back m.rom) (n : Nat) : ∃ m',
      Routine.loop (bootPass board (n + 2)) (n + 2) m = .returned () m' ∧
        After m'.rom (storeAt m.mem 0#16 (track0 t back)) m m' ∧ AtTrack1 back m'.rom ∧
          m'.rom.isMini = isMini := by
  have ht : floppy m.rom.cylinder.toNat m.rom.head.toNat = some t := by
    rw [hstart.cylinder, hstart.head]
    exact hfront
  obtain ⟨m₁, hread₁, hafter₁⟩ :=
    readSide_ok hworks hdrive hprepared (by have := hstandard.length_range; omega) ht (n + 1)
  rw [hstart.address] at hafter₁
  have hrom₁ := sideRead_prepared hprepared
  cases back with
  | none =>
      have hlast : (if m.rom.isDoubleSided then 1#8 else 0#8) = m.rom.head := by
        rw [hstart.doubleSided, hstart.head]
        rfl
      obtain ⟨hcylinder, hhead⟩ := sideRead_last hlast
      rw [hstart.cylinder, ← hafter₁.rom] at hcylinder
      rw [← hafter₁.rom] at hhead hrom₁
      have hne : m₁.rom.cylinder ≠ 0#8 := by
        rw [hcylinder]
        decide
      refine ⟨m₁, Routine.loop_returned (bootPass_last hread₁ hne) (n + 1), ?_, ?_, ?_⟩
      · rw [track0, Option.elim, List.append_nil]
        exact ⟨rfl, hafter₁.2, hafter₁.3, hafter₁.4, hafter₁.5⟩
      · refine ⟨hcylinder, hhead, ?_, ?_⟩
        · rw [hrom₁]
        · rw [hrom₁]
          exact hstart.doubleSided
      · rw [hrom₁]
        exact hmini
  | some t' =>
      have hother : (if m.rom.isDoubleSided then 1#8 else 0#8) ≠ m.rom.head := by
        rw [hstart.doubleSided, hstart.head]
        exact (by decide : (1#8 : Byte) ≠ 0#8)
      obtain ⟨hcylinder₁, hhead₁⟩ := sideRead_other hother
      rw [hstart.cylinder, ← hafter₁.rom] at hcylinder₁
      rw [hstart.head, ← hafter₁.rom] at hhead₁
      rw [← hafter₁.rom] at hrom₁
      have hmini₁ : m₁.rom.isMini = isMini := by
        rw [hrom₁]
        exact hmini
      -- the format of the other side
      have hback₁ : floppy m₁.rom.cylinder.toNat m₁.rom.head.toNat = some t' := by
        rw [hcylinder₁, hhead₁]
        exact hback
      obtain ⟨m₂, hdetect, hafter₂⟩ :=
        detect_found hworks (hafter₁.driveSelect.trans hdrive) (by rw [hhead₁]; decide) hback₁
      have hprepared₂ : Prepared t' m₂.rom := by
        rw [hafter₂.rom]
        refine setUp_prepared (hmini₁ ▸ hstandard' t' rfl) ?_ ?_
        · rw [hrom₁]
        · rw [hrom₁]
          exact hprepared.diskType
      have hback₂ : floppy m₂.rom.cylinder.toNat m₂.rom.head.toNat = some t' := by
        rw [hafter₂.rom]
        exact hback₁
      obtain ⟨m₃, hread₃, hafter₃⟩ := readSide_ok hworks
        ((hafter₂.driveSelect.trans hafter₁.driveSelect).trans hdrive) hprepared₂
        (by have := (hstandard' t' rfl).length_range; omega) hback₂ (n + 1)
      have hdouble₂ : m₂.rom.isDoubleSided = true := by
        rw [hafter₂.rom]
        show m₁.rom.isDoubleSided = true
        rw [hrom₁]
        exact hstart.doubleSided
      have haddress₂ : m₂.rom.dmaTransferAddress = 0#16 + BitVec.ofNat 16 t.bytes.length := by
        have hsize : m.rom.dmaTransferSize = BitVec.ofNat 16 t.bytes.length := by
          rw [← hprepared.size, BitVec.ofNat_toNat, BitVec.setWidth_eq]
        rw [hafter₂.rom]
        show m₁.rom.dmaTransferAddress = _
        rw [hrom₁]
        show m.rom.dmaTransferAddress + m.rom.dmaTransferSize = _
        rw [hstart.address, hsize]
      have hrom₂ : m₂.rom.cylinder = 0#8 ∧ m₂.rom.head = 1#8 ∧ m₂.rom.isMini = isMini := by
        rw [hafter₂.rom]
        exact ⟨hcylinder₁, hhead₁, hmini₁⟩
      have hlast : (if m₂.rom.isDoubleSided then 1#8 else 0#8) = m₂.rom.head := by
        rw [hdouble₂, hrom₂.2.1]
        rfl
      have hrom₃ := sideRead_prepared hprepared₂
      obtain ⟨hcylinder₃, hhead₃⟩ := sideRead_last hlast
      rw [← hafter₃.rom] at hrom₃ hcylinder₃ hhead₃
      rw [hrom₂.1] at hcylinder₃
      have hne : m₃.rom.cylinder ≠ 0#8 := by
        rw [hcylinder₃]
        decide
      refine ⟨m₃, ?_, ?_, ⟨hcylinder₃, hhead₃, ?_, ?_⟩, ?_⟩
      · rw [Routine.loop_goesOn (bootPass_goesOn hread₁ hcylinder₁ hdetect)]
        exact Routine.loop_returned (bootPass_last hread₃ hne) n
      · have hafter := (hafter₁.trans hafter₂).trans hafter₃
        rw [haddress₂, hafter₂.mem, hafter₁.mem, ← storeAt_append] at hafter
        exact ⟨rfl, hafter.2, hafter.3, hafter.4, hafter.5⟩
      · rw [hrom₃]
      · rw [hrom₃]
        exact hdouble₂
      · rw [hrom₃]
        exact hrom₂.2.2

/-- The machine when track 0 was read to address 0. -/
structure Loaded (board : Board D) (mem : Word → Byte) (t : FormattedTrack)
    (back : Option FormattedTrack) (m : Machine D) : Prop where
  mem : m.mem = storeAt mem 0#16 (track0 t back)
  position : AtTrack1 back m.rom
  mini : m.rom.isMini = isMini board
  diskType : m.rom.diskType = 1#8
  driveSelect : m.driveSelect = 0#8
  ramOnly : m.ramOnly = true
  errorSaved : m.errorSaved = 0#8

/-- The sides of track 0, as the table has them. -/
structure Bootable (board : Board D) (floppy : Floppy) (t : FormattedTrack)
    (back : Option FormattedTrack) : Prop where
  side0 : floppy 0 0 = some t
  side1 : floppy 0 1 = back
  standard : Standard board.behind (isMini board) t
  standardBack : ∀ t', back = some t' → Standard board.behind (isMini board) t'

variable {back : Option FormattedTrack}

theorem readAndBoot_ok (hworks : Works board floppy position) (hboot : Bootable board floppy t back)
    (hdrive : m.driveSelect = 0#8) (herror : m.errorSaved = 0#8)
    (hmini : m.rom.isMini = isMini board) (hprepared : Prepared t m.rom)
    (hstart : AtTrack0 back m.rom) (n : Nat) : ∃ m',
      readAndBoot board (n + 2) m = bootFloppyOrProm board (n + 2) m' ∧
        Loaded board m.mem t back m' := by
  obtain ⟨m₁, hloop, hafter, hnext, hmini₁⟩ := @bootLoop_ok D board floppy position
    { m with ramOnly := true } t hworks (isMini board) back hdrive hmini hboot.side0 hboot.side1
    hboot.standard hboot.standardBack hprepared hstart n
  refine ⟨{ m₁ with rom := { m₁.rom with diskType := 1#8 } }, ?_, hafter.mem,
    ⟨hnext.1, hnext.2, hnext.3, hnext.4⟩, hmini₁, rfl, hafter.driveSelect.trans hdrive,
    hafter.ramOnly, hafter.errorSaved.trans herror⟩
  unfold readAndBoot
  rw [Routine.modify_bind_run, Routine.bind_returned hloop]
  rfl

/-- What a detection leaves as it is. -/
structure Unmoved (m m' : Machine D) : Prop where
  mem : m'.mem = m.mem
  driveSelect : m'.driveSelect = m.driveSelect
  errorSaved : m'.errorSaved = m.errorSaved
  mini : m'.rom.isMini = m.rom.isMini
  doubleSided : m'.rom.isDoubleSided = m.rom.isDoubleSided
  diskType : m'.rom.diskType = m.rom.diskType
  cylinder : m'.rom.cylinder = m.rom.cylinder
  sector : m'.rom.sector = m.rom.sector
  address : m'.rom.dmaTransferAddress = m.rom.dmaTransferAddress

/-- The other side is there or not. -/
theorem detectBack (hworks : Works board floppy position) (hdrive : m.driveSelect = 0#8)
    (hhead : m.rom.head.toNat < 2)
    (hback : floppy m.rom.cylinder.toNat m.rom.head.toNat = back) : ∃ r m',
      fdcDetectSectorSizeAndDensity board m = .returned r m' ∧ (r = 0#8 ↔ back.isSome) ∧
        Unmoved m m' := by
  cases hside : back with
  | none =>
      obtain ⟨m', hdetect, hafter⟩ := detect_none hworks hdrive hhead (hback.trans hside)
      refine ⟨1#8, m', hdetect, by decide, hafter.mem, hafter.driveSelect, hafter.errorSaved, ?_,
        ?_, ?_, ?_, ?_, ?_⟩ <;> rw [hafter.rom] <;> rfl
  | some t' =>
      obtain ⟨m', hdetect, hafter⟩ := detect_found hworks hdrive hhead (hback.trans hside)
      refine ⟨0#8, m', hdetect, by simp, hafter.mem, hafter.driveSelect, hafter.errorSaved, ?_,
        ?_, ?_, ?_, ?_, ?_⟩ <;> rw [hafter.rom] <;> rfl

/-- The head is set back to 0, with the number of sides. -/
def toFront (back : Option FormattedTrack) (s : RomState) : RomState :=
  { s with isDoubleSided := s.isDoubleSided || back.isSome, head := 0#8 }

/-- What follows the recalibration. -/
theorem detectBoth_ok (hworks : Works board floppy position) (hboot : Bootable board floppy t back)
    (hdrive : m.driveSelect = 0#8) (herror : m.errorSaved = 0#8)
    (hmini : m.rom.isMini = isMini board) (hdouble : m.rom.isDoubleSided = false)
    (htype : m.rom.diskType = 0#8) (haddress : m.rom.dmaTransferAddress = 0#16)
    (hcylinder : m.rom.cylinder = 0#8) (hhead : m.rom.head = 1#8) (hsector : m.rom.sector = 1#8)
    (n : Nat) : ∃ r m₁ m₂ m', fdcDetectSectorSizeAndDensity board m = .returned r m₁ ∧
      (r = 0#8 ↔ back.isSome) ∧
      fdcDetectSectorSizeAndDensity board { m₁ with rom := toFront back m₁.rom } =
        .returned 0#8 m₂ ∧
      readAndBoot board (n + 2) m₂ = bootFloppyOrProm board (n + 2) m' ∧
        Loaded board m.mem t back m' := by
  have hside1 : floppy m.rom.cylinder.toNat m.rom.head.toNat = back := by
    rw [hcylinder, hhead]
    exact hboot.side1
  obtain ⟨r, m₁, hdetect, hr, hunmoved⟩ := detectBack hworks hdrive (by rw [hhead]; decide) hside1
  have hside0 : floppy (toFront back m₁.rom).cylinder.toNat (toFront back m₁.rom).head.toNat =
      some t := by
    show floppy m₁.rom.cylinder.toNat 0 = _
    rw [hunmoved.cylinder, hcylinder]
    exact hboot.side0
  obtain ⟨m₂, hfront, hafter⟩ := @detect_found D board floppy position
    { m₁ with rom := toFront back m₁.rom } t hworks (hunmoved.driveSelect.trans hdrive)
    (show (0#8 : Byte).toNat < 2 by decide) hside0
  have hmini₁ : m₁.rom.isMini = isMini board := hunmoved.mini.trans hmini
  have hprepared : Prepared t m₂.rom := by
    rw [hafter.rom]
    exact setUp_prepared (s := toFront back m₁.rom) (hmini₁ ▸ hboot.standard)
      (hunmoved.sector.trans hsector) (hunmoved.diskType.trans htype)
  have hstart : AtTrack0 back m₂.rom := by
    rw [hafter.rom]
    refine ⟨hunmoved.cylinder.trans hcylinder, rfl, ?_, hunmoved.address.trans haddress⟩
    show (m₁.rom.isDoubleSided || back.isSome) = _
    rw [hunmoved.doubleSided, hdouble]
    rfl
  have hmini₂ : m₂.rom.isMini = isMini board := by
    rw [hafter.rom]
    exact hmini₁
  obtain ⟨m', hread, hloaded⟩ := readAndBoot_ok hworks hboot
    (hafter.driveSelect.trans (hunmoved.driveSelect.trans hdrive))
    (hafter.errorSaved.trans (hunmoved.errorSaved.trans herror)) hmini₂ hprepared hstart n
  rw [hafter.mem, show ({ m₁ with rom := toFront back m₁.rom } : Machine D).mem = m.mem from
    hunmoved.mem] at hloaded
  exact ⟨r, m₁, m₂, m', hdetect, hr, hfront, hread, hloaded⟩

/-- **Track 0** is read to address 0, all of it, and nothing else is changed. -/
theorem boot_loads (hworks : Works board floppy position) (hboot : Bootable board floppy t back)
    (mem : Word → Byte) (d : D) (n : Nat) : ∃ m,
      getFloppyReady board (n + 2) (powerOn mem d) = bootFloppyOrProm board (n + 2) m ∧
        Loaded board mem t back m := by
  have hready := hworks.sense d
  let st3 : Byte := (board.answer d (.senseDrive 0#8)).1.data.headD 0#8
  let d₁ : D := (board.answer d (.senseDrive 0#8)).2
  let m₀ : Machine D :=
    { powerOn mem (board.answer d₁ (.recalibrate 0#8)).2 with
      rom := { (powerOn mem d).rom with isMini := isMini board }
      retryCount := 5#8
      fdcResult.st0 := st3 }
  obtain ⟨m₁, hverify, hafter, -⟩ := @verifySeek_ok D m₀ _ 0#8 rfl (hworks.recalibrate d₁)
  let m₂ : Machine D :=
    { m₁ with rom := { m₁.rom with cylinder := 0#8, head := 1#8, sector := 1#8 } }
  have hrom : m₂.rom.isMini = isMini board ∧ m₂.rom.isDoubleSided = false ∧
      m₂.rom.diskType = 0#8 ∧ m₂.rom.dmaTransferAddress = 0#16 := by
    show m₁.rom.isMini = _ ∧ m₁.rom.isDoubleSided = false ∧ m₁.rom.diskType = 0#8 ∧
      m₁.rom.dmaTransferAddress = 0#16
    rw [hafter.rom]
    exact ⟨rfl, rfl, rfl, rfl⟩
  obtain ⟨r', m₃, m₄, m', hback, hr', hfront, hread, hloaded⟩ :=
    @detectBoth_ok D board floppy position m₂ t back hworks hboot hafter.driveSelect
      hafter.errorSaved hrom.1 hrom.2.1 hrom.2.2.1 hrom.2.2.2 rfl rfl rfl n
  rw [show m₂.mem = mem from hafter.mem] at hloaded
  refine ⟨m', ?_, hloaded⟩
  rw [← hread]
  have hstart : getFloppyReady board (n + 2) (powerOn mem d) =
      (if st3 &&& 0b00100011#8 ≠ 0#8 + 0b00100000#8 then prom1IfPresent board
        else afterRecalibrate board (n + 2) (board.answer d₁ (.recalibrate 0#8)).1) m₀ := rfl
  have hready' : st3 &&& 0b00100011#8 = 0#8 + 0b00100000#8 := hready
  rw [hstart, if_neg (not_not.mpr hready')]
  unfold afterRecalibrate
  refine (Routine.bind_returned hverify).trans ?_
  rw [if_neg (not_not.mpr rfl)]
  refine (Routine.bind_returned hback).trans ?_
  cases hside : back with
  | none =>
      rw [hside, Option.isSome_none, iff_false_right Bool.false_ne_true] at hr'
      have hsingle : toFront back m₃.rom = { m₃.rom with head := 0#8 } := by
        rw [hside, toFront, Option.isSome_none, Bool.or_false]
      rw [hsingle] at hfront
      rw [if_neg hr']
      exact Routine.bind_returned hfront
  | some t' =>
      rw [hside] at hr'
      have hdouble : toFront back m₃.rom = { m₃.rom with isDoubleSided := true, head := 0#8 } := by
        rw [hside, toFront, Option.isSome_some, Bool.or_true]
      rw [hdouble] at hfront
      rw [if_pos (hr'.mpr rfl)]
      exact Routine.bind_returned hfront

/-! ### Signatures -/

theorem compareBytes_iff {mem : Word → Byte} {a : Word} {bs : List Byte} :
    compareBytes mem a bs = 0#8 ↔ loadAt mem a bs.length = bs := by
  induction bs generalizing a with
  | nil => simp [compareBytes, loadAt]
  | cons b bs ih =>
      rw [compareBytes, List.length_cons, loadAt, List.cons.injEq, ← ih]
      by_cases hb : mem a = b
      · simp [hb]
      · simp [hb]

/-- The disk has a text at an offset. -/
def Labelled (bytes : List Byte) (offset : Nat) (text : String) : Prop :=
  (bytes.drop offset).take (textBytes text).length = textBytes text

/-- Track 0 has the signatures, and fits in the memory. -/
theorem Bootable.length_range (h : Bootable board floppy t back) :
    2048 ≤ (track0 t back).length ∧ (track0 t back).length ≤ 16384 := by
  have hfront := h.standard.length_range
  rw [track0, List.length_append]
  cases hback : back with
  | none =>
      rw [Option.elim, List.length_nil]
      omega
  | some t' =>
      have hother := (h.standardBack t' hback).length_range
      rw [Option.elim]
      omega

/-- The ROM sees the signatures of the disk. -/
theorem Loaded.compare_iff {mem : Word → Byte} (h : Loaded board mem t back m)
    (hboot : Bootable board floppy t back) {text : String} {offset : Nat}
    (hlen : offset + (textBytes text).length ≤ (track0 t back).length) :
    compareBytes m.mem (BitVec.ofNat 16 offset) (textBytes text) = 0#8 ↔
      Labelled (track0 t back) offset text := by
  have hfits : (track0 t back).length ≤ 2 ^ 16 := by
    have := hboot.length_range
    omega
  have hpart := loadAt_storeAt_part mem 0#16 hfits hlen
  rw [BitVec.zero_add] at hpart
  rw [compareBytes_iff, h.mem, hpart]
  rfl

/-- The address at the start of track 0. -/
def entryOf (bytes : List Byte) : Word := bytes.getD 1 0#8 ++ bytes.getD 0 0#8

theorem Loaded.wordAt_eq {mem : Word → Byte} (h : Loaded board mem t back m)
    (hboot : Bootable board floppy t back) :
    wordAt m.mem 0x0000#16 = entryOf (track0 t back) := by
  obtain ⟨hge, hle⟩ := hboot.length_range
  have hlo := @storeAt_self Byte 16 mem 0#16 (track0 t back) 0 (by omega) (by omega)
  have hhi := @storeAt_self Byte 16 mem 0#16 (track0 t back) 1 (by omega) (by omega)
  rw [entryOf, List.getD_eq_getElem _ _ (by omega), List.getD_eq_getElem _ _ (by omega), ← hlo,
    ← hhi, ← h.mem]
  rfl

/-- What the ROM does when it does not find the signature of COMAL. -/
theorem Loaded.goes_by_cpm {mem : Word → Byte} (h : Loaded board mem t back m)
    (hboot : Bootable board floppy t back) (hother : ¬ Labelled (track0 t back) 2 " RC700") :
    bootFloppyOrProm board n m =
      (if compareBytes m.mem RC702_SIG_OFF (textBytes " RC702") = 0#8 then
        Routine.finish (.jump (wordAt m.mem 0x0000#16))
      else haltMsg " **NO KATALOG** " : Code D Unit) m := by
  have hsix : (textBytes " RC700").length = 6 := by decide
  have hlen := hboot.length_range.1
  have hcomal : compareBytes m.mem RC700_SIG_OFF (textBytes " RC700") ≠ 0#8 :=
    mt (h.compare_iff hboot (by rw [hsix]; omega)).mp hother
  unfold bootFloppyOrProm
  rw [Routine.gets_bind_run, if_neg hcomal]

theorem Loaded.cpm_iff {mem : Word → Byte} (h : Loaded board mem t back m)
    (hboot : Bootable board floppy t back) :
    compareBytes m.mem RC702_SIG_OFF (textBytes " RC702") = 0#8 ↔
      Labelled (track0 t back) 8 " RC702" := by
  have hsix : (textBytes " RC702").length = 6 := by decide
  have hlen := hboot.length_range.1
  exact h.compare_iff hboot (by rw [hsix]; omega)

theorem Loaded.jumps {mem : Word → Byte} (h : Loaded board mem t back m)
    (hboot : Bootable board floppy t back) (hother : ¬ Labelled (track0 t back) 2 " RC700")
    (hcpm : Labelled (track0 t back) 8 " RC702") :
    bootFloppyOrProm board n m = .ended (.jump (entryOf (track0 t back))) m := by
  rw [h.goes_by_cpm hboot hother, if_pos ((h.cpm_iff hboot).mpr hcpm), h.wordAt_eq hboot]
  rfl

/-- **CP/M boots.**  The ROM hands over to the address at the start of track 0 of a CP/M disk, with
track 0 in memory from address 0 on.  A disk of neither kind ends in a message. -/
theorem cpm_boots (hworks : Works board floppy position) (hboot : Bootable board floppy t back)
    (hother : ¬ Labelled (track0 t back) 2 " RC700") (mem : Word → Byte) (d : D) (n : Nat) :
    (Labelled (track0 t back) 8 " RC702" → ∃ m,
      getFloppyReady board (n + 2) (powerOn mem d) =
          .ended (.jump (entryOf (track0 t back))) m ∧
        m.mem = storeAt mem 0#16 (track0 t back)) ∧
    (¬ Labelled (track0 t back) 8 " RC702" → ∃ m,
      getFloppyReady board (n + 2) (powerOn mem d) = .ended (.halt " **NO KATALOG** ") m) := by
  obtain ⟨m, hrun, hloaded⟩ := boot_loads hworks hboot mem d n
  rw [hrun]
  refine ⟨fun hcpm => ⟨m, hloaded.jumps hboot hother hcpm, hloaded.mem⟩, fun hcpm => ?_⟩
  rw [hloaded.goes_by_cpm hboot hother, if_neg (mt (hloaded.cpm_iff hboot).mp hcpm)]
  exact ⟨_, rfl⟩

end Boot

/-! ### A CP/M disk -/

/-- The first sector of a CP/M disk: the boot starts at 0x0280. -/
def bootSector : List Byte :=
  [0x80#8, 0x02#8, 0#8, 0#8, 0#8, 0#8, 0#8, 0#8] ++ textBytes " RC702" ++ List.replicate 114 0#8

theorem length_bootSector : bootSector.length = 128 * 2 ^ (0#8 : Byte).toNat := by
  decide +kernel

theorem length_filled : (List.replicate 128 0xE5#8 : List Byte).length =
    128 * 2 ^ (0#8 : Byte).toNat := List.length_replicate

theorem zero_coded : (0#8 : Byte).toNat < 8 := by decide

/-- A track in FM: 26 sectors of 128 bytes. -/
def cpmTrack : FormattedTrack where
  mfm := false
  sizeCode := 0#8
  coded := zero_coded
  sectors := ⟨bootSector, length_bootSector⟩ ::
    List.replicate 25 ⟨List.replicate 128 0xE5#8, length_filled⟩

/-- A disk with that track on one side. -/
def cpmFloppy : Floppy
  | 0, 0 => some cpmTrack
  | _, _ => none

theorem cpmFloppy_bootable : Bootable (boardOf cpmFloppy 0#8) cpmFloppy cpmTrack none where
  side0 := rfl
  side1 := rfl
  standard := ⟨by decide, by decide, by decide⟩
  standardBack := fun _ h => nomatch h

theorem cpm_boots_oneSide :
    ∃ m, getFloppyReady (boardOf cpmFloppy 0#8) 2 (powerOn (fun _ => 0#8) 0) =
        .ended (.jump 0x0280#16) m ∧
      m.mem = storeAt (fun _ => 0#8) 0#16 (track0 cpmTrack none) := by
  have hworks : Works (boardOf cpmFloppy 0#8) cpmFloppy id := by
    refine boardOf_works 0#8 fun cylinder head hhead => ?_
    obtain ⟨head, rfl⟩ := Nat.exists_eq_add_of_le' hhead
    cases cylinder with
    | zero => rfl
    | succ _ => rfl
  have hother : ¬ Labelled (track0 cpmTrack none) 2 " RC700" := by
    unfold Labelled
    decide
  have hcpm : Labelled (track0 cpmTrack none) 8 " RC702" := by
    unfold Labelled
    decide
  exact (cpm_boots hworks cpmFloppy_bootable hother (fun _ => 0#8) 0 0).1 hcpm

end Rom

end Autoload
end Rc700
