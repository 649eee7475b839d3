import Rc700.Disk.Driver
import Rc700.Library.Routine

/-!
# The file system: the drive

The state that the disk functions of `cpm/OS3BDOS.ASM` work on, for one drive, and the
subroutines that reach its BIOS: `home`, `seek`, `rdbuff` and `wrbuff`.

A record of the drive has a number, `arecord`.  `seek` goes from the track it is on to the track of
the record by subtractions and additions, with a carry when the records of the drive come to the
end of the numbers.  `seek_run` is what comes of it: the BIOS is given the track and the sector of
the record, wherever the last seek went.
-/

namespace Rc700
namespace Bdos

open Library

/-- The 128 bytes of a record. -/
abbrev Record := Disk.Record

/-- The disk parameter block, from `sectpt` to `offset`. -/
structure Dpb where
  sectpt : Word
  blkshf : Byte
  blkmsk : Byte
  extmsk : Byte
  maxall : Word
  dirmax : Word
  /-- the two bytes of `dirblk` -/
  al0 : Byte
  al1 : Byte
  chksiz : Word
  offset : Word
  deriving DecidableEq, Repr

/-- The BIOS entries for the drive. -/
structure Bios (D : Type) where
  home : D → D
  settrk : Word → D → D
  setsec : Word → D → D
  sectran : Word → Word
  /-- the code, and the record at the DMA address then -/
  read : D → (Byte × Record) × D
  /-- with the write type, and the record at the DMA address -/
  write : Byte → Record → D → Byte × D
  /-- a key, when an error was reported -/
  conin : D → Byte × D

/-- Where the DMA address points. -/
inductive Dma
  | buffa
  | dmaad
  deriving DecidableEq, Repr

/-- The drive, where it stands, and the directory buffer. -/
structure Io (D : Type) where
  drive : D
  curtrk : Word
  currec : Word
  arecord : Word
  dma : Dma
  buff : Nat → Byte

/-- The tables of the drive. -/
structure Tables where
  cdrmax : Word
  /-- the bit of the drive in `rodsk` -/
  rodsk : Bool
  check : Nat → Byte
  alloc : Nat → Byte

/-- Local variables for directory access. -/
structure Access where
  dptr : Byte
  dcnt : Word
  drec : Word
  searchl : Nat
  /-- the memory from `searcha` on -/
  searcha : Nat → Byte
  dirloc : Byte

/-- The variables of the BDOS, and the memory of the program that a function works on. -/
structure State (D : Type) where
  io : Io D
  tables : Tables
  access : Access
  usrcode : Byte
  lret : Byte
  /-- the memory from `info` on -/
  fcb : Nat → Byte
  /-- the record at `dmaad` -/
  data : Record

/-- What ends the program. -/
inductive Error
  | badSector
  | readOnlyDisk
  | readOnlyFile
  deriving DecidableEq, Repr

abbrev Code (D : Type) := Routine (State D) Error

def enddir : Word := 0xFFFF#16
def ctlc : Byte := 0x03#8

section Code

variable {D : Type} (bios : Bios D) (dpb : Dpb)

def modifyIo (f : Io D → Io D) : Code D Unit := Routine.modify fun s => { s with io := f s.io }

def modifyAccess (f : Access → Access) : Code D Unit :=
  Routine.modify fun s => { s with access := f s.access }

def modifyTables (f : Tables → Tables) : Code D Unit :=
  Routine.modify fun s => { s with tables := f s.tables }

/-- `home` -/
def home : Code D Unit :=
  modifyIo fun io => { io with drive := bios.home io.drive, curtrk := 0#16, currec := 0#16 }

/-- More passes than there are numbers. -/
def allPasses : Nat := 0x10002

/-- A pass of the loop at `seek0` -/
def seek0Pass : Code D (Option Unit) := do
  let io ← Routine.gets State.io
  if io.arecord < io.currec then do
    modifyIo fun io => { io with currec := io.currec - dpb.sectpt, curtrk := io.curtrk - 1#16 }
    pure none
  else pure (some ())

/-- A pass of the loop at `seek1`: the carry of the sum ends it too. -/
def seek1Pass : Code D (Option Unit) := do
  let io ← Routine.gets State.io
  if 0x10000 ≤ io.currec.toNat + dpb.sectpt.toNat ∨ io.arecord < io.currec + dpb.sectpt then
    pure (some ())
  else do
    modifyIo fun io => { io with currec := io.currec + dpb.sectpt, curtrk := io.curtrk + 1#16 }
    pure none

/-- `seek` -/
def seek : Code D Unit := do
  Routine.loop (seek0Pass dpb) allPasses
  Routine.loop (seek1Pass dpb) allPasses
  modifyIo fun io => { io with drive := bios.settrk (io.curtrk + dpb.offset) io.drive }
  modifyIo fun io =>
    { io with drive := bios.setsec (bios.sectran (io.arecord - io.currec)) io.drive }

/-- `seekdir` -/
def seekdir : Code D Unit := do
  Routine.modify fun s =>
    { s with
      io.arecord := s.access.dcnt >>> 2
      access.drec := s.access.dcnt >>> 2 }
  seek bios dpb

/-- `persub`: the error is ignored unless the answer is `ctlc`. -/
def persub : Code D Unit := do
  let io ← Routine.gets State.io
  modifyIo fun io => { io with drive := (bios.conin io.drive).2 }
  if (bios.conin io.drive).1 = ctlc then Routine.finish .badSector else pure ()

/-- `diocomp` -/
def diocomp (code : Byte) : Code D Unit := if code = 0#8 then pure () else persub bios

/-- The memory from the directory buffer on, with a record in the buffer. -/
def overwrite (record : Record) (buff : Nat → Byte) : Nat → Byte :=
  fun i => if h : i < 128 then record ⟨i, h⟩ else buff i

/-- A record comes to the DMA address. -/
def State.deliver (s : State D) (record : Record) : State D :=
  match s.io.dma with
  | .buffa => { s with io.buff := overwrite record s.io.buff }
  | .dmaad => { s with data := record }

/-- `rdbuff` -/
def rdbuff : Code D Unit := do
  let (result, drive) := bios.read (← Routine.gets State.io).drive
  modifyIo fun io => { io with drive := drive }
  Routine.modify fun s => s.deliver result.2
  diocomp bios result.1

/-- The record at the DMA address. -/
def State.dmaRecord (s : State D) : Record :=
  match s.io.dma with
  | .buffa => fun i => s.io.buff i
  | .dmaad => s.data

/-- `wrbuff` -/
def wrbuff (wrtype : Byte) : Code D Unit := do
  let s ← Routine.gets id
  let (code, drive) := bios.write wrtype s.dmaRecord s.io.drive
  modifyIo fun io => { io with drive := drive }
  diocomp bios code

/-- `setdata` -/
def setdata : Code D Unit := modifyIo fun io => { io with dma := .dmaad }

/-- `setdir` -/
def setdir : Code D Unit := modifyIo fun io => { io with dma := .buffa }

end Code

/-! ### Where a seek goes -/

section Seek

variable {D : Type} {bios : Bios D} {dpb : Dpb}

/-- `currec` is the first record of `curtrk`. -/
def Io.OnTrack (dpb : Dpb) (io : Io D) : Prop :=
  io.currec.toNat = io.curtrk.toNat * dpb.sectpt.toNat

/-- The track and the sector of a record, as the BIOS is told. -/
def address (bios : Bios D) (dpb : Dpb) (r : Nat) : Word × Word :=
  (BitVec.ofNat 16 (r / dpb.sectpt.toNat) + dpb.offset,
    bios.sectran (BitVec.ofNat 16 (r % dpb.sectpt.toNat)))

/-- The drive at a record. -/
def Io.sought (bios : Bios D) (dpb : Dpb) (io : Io D) : Io D :=
  { io with
    curtrk := BitVec.ofNat 16 (io.arecord.toNat / dpb.sectpt.toNat)
    currec := BitVec.ofNat 16 (io.arecord.toNat / dpb.sectpt.toNat * dpb.sectpt.toNat)
    drive := bios.setsec (address bios dpb io.arecord.toNat).2
      (bios.settrk (address bios dpb io.arecord.toNat).1 io.drive) }

variable {s : State D}

theorem onTrack_home (io : Io D) :
    Io.OnTrack dpb { io with drive := bios.home io.drive, curtrk := 0#16, currec := 0#16 } := by
  unfold Io.OnTrack
  simp

/-- Only the track and its first record have changed. -/
def Shifted (s s' : State D) : Prop :=
  s' = { s with io.curtrk := s'.io.curtrk, io.currec := s'.io.currec }

theorem Shifted.refl (s : State D) : Shifted s s := rfl

theorem Shifted.trans {s' s'' : State D} (h : Shifted s s') (h' : Shifted s' s'') :
    Shifted s s'' := by
  unfold Shifted at *
  rw [h'.trans (by rw [h])]

theorem Shifted.arecord {s' : State D} (h : Shifted s s') : s'.io.arecord = s.io.arecord := by
  rw [h]

theorem sectpt_pos (hspt : dpb.sectpt ≠ 0#16) : 0 < dpb.sectpt.toNat := by
  rw [Nat.pos_iff_ne_zero]
  exact fun h => hspt (BitVec.eq_of_toNat_eq h)

/-- Down to a track that does not begin behind the record. -/
theorem seek0_returns (hspt : dpb.sectpt ≠ 0#16) (htrack : s.io.OnTrack dpb) :
    (Routine.loop (seek0Pass dpb) allPasses).returns (fun _ s' =>
      Shifted s s' ∧ s'.io.OnTrack dpb ∧ s'.io.currec.toNat ≤ s'.io.arecord.toNat) s := by
  have hpos := sectpt_pos hspt
  refine Routine.returns_loop (fun s' => Shifted s s' ∧ s'.io.OnTrack dpb)
    (fun s' => s'.io.currec.toNat) ?_ ⟨Shifted.refl s, htrack⟩ ?_
  · rintro s' ⟨hshift, hon⟩
    unfold seek0Pass
    simp only [Routine.returns_bind, Routine.returns_gets, Routine.returns_ite]
    refine ⟨fun hlt => ?_, fun hge => ⟨hshift, hon, BitVec.not_lt.mp hge⟩⟩
    have hlt' : s'.io.arecord.toNat < s'.io.currec.toNat := hlt
    unfold Io.OnTrack at hon
    -- the track is not the first one
    obtain ⟨k, hk⟩ : ∃ k, s'.io.curtrk.toNat = k + 1 := by
      refine Nat.exists_eq_succ_of_ne_zero fun h0 => ?_
      rw [h0, Nat.zero_mul] at hon
      omega
    rw [hk, Nat.succ_mul] at hon
    have hcurrec : (s'.io.currec - dpb.sectpt).toNat = k * dpb.sectpt.toNat := by
      rw [BitVec.toNat_sub_of_le (by rw [BitVec.le_def]; omega)]
      omega
    have hcurtrk : (s'.io.curtrk - 1#16).toNat = k := by
      rw [BitVec.toNat_sub_of_le (by rw [BitVec.le_def, hk]; simp), hk]
      rfl
    refine ⟨⟨hshift.trans rfl, ?_⟩, ?_⟩
    · show (s'.io.currec - dpb.sectpt).toNat = (s'.io.curtrk - 1#16).toNat * _
      rw [hcurrec, hcurtrk]
    · show (s'.io.currec - dpb.sectpt).toNat < _
      omega
  · have hlt := s.io.currec.isLt
    unfold allPasses
    omega

/-- Up to the track of the record. -/
theorem seek1_returns (hspt : dpb.sectpt ≠ 0#16) (htrack : s.io.OnTrack dpb)
    (hle : s.io.currec.toNat ≤ s.io.arecord.toNat) :
    (Routine.loop (seek1Pass dpb) allPasses).returns (fun _ s' =>
      Shifted s s' ∧ s'.io.OnTrack dpb ∧ s'.io.currec.toNat ≤ s'.io.arecord.toNat ∧
        s'.io.arecord.toNat < s'.io.currec.toNat + dpb.sectpt.toNat) s := by
  have hpos := sectpt_pos hspt
  refine Routine.returns_loop
    (fun s' => Shifted s s' ∧ s'.io.OnTrack dpb ∧
      s'.io.currec.toNat ≤ s'.io.arecord.toNat)
    (fun s' => s'.io.arecord.toNat - s'.io.currec.toNat) ?_ ⟨Shifted.refl s, htrack, hle⟩ ?_
  · rintro s' ⟨hshift, hon, hbelow⟩
    have harecord := s'.io.arecord.isLt
    unfold seek1Pass
    simp only [Routine.returns_bind, Routine.returns_gets, Routine.returns_ite]
    refine ⟨fun hstop => ⟨hshift, hon, hbelow, ?_⟩, fun hgo => ?_⟩
    · rcases hstop with hcarry | hlt
      · omega
      · have hlt' : s'.io.arecord.toNat < (s'.io.currec + dpb.sectpt).toNat := hlt
        rw [BitVec.toNat_add] at hlt'
        exact Nat.lt_of_lt_of_le hlt' (Nat.mod_le _ _)
    · obtain ⟨hcarry, hge⟩ := not_or.mp hgo
      have hsum : (s'.io.currec + dpb.sectpt).toNat =
          s'.io.currec.toNat + dpb.sectpt.toNat := by
        rw [BitVec.toNat_add]
        exact Nat.mod_eq_of_lt (by omega)
      have hge' : (s'.io.currec + dpb.sectpt).toNat ≤ s'.io.arecord.toNat :=
        BitVec.not_lt.mp hge
      unfold Io.OnTrack at hon
      have htrk : s'.io.curtrk.toNat ≤ s'.io.currec.toNat := by
        rw [hon]
        exact Nat.le_mul_of_pos_right _ hpos
      have hnext : (s'.io.curtrk + 1#16).toNat = s'.io.curtrk.toNat + 1 := by
        rw [BitVec.toNat_add]
        exact Nat.mod_eq_of_lt (by
          show _ + 1 < 2 ^ 16
          omega)
      refine ⟨⟨hshift.trans rfl, ?_, hge'⟩, ?_⟩
      · show (s'.io.currec + dpb.sectpt).toNat = (s'.io.curtrk + 1#16).toNat * _
        rw [hsum, hnext, hon, Nat.succ_mul]
      · show s'.io.arecord.toNat - (s'.io.currec + dpb.sectpt).toNat < _
        omega
  · have hlt := s.io.arecord.isLt
    unfold allPasses
    omega

/-- A seek goes to the record. -/
theorem seek_run (hspt : dpb.sectpt ≠ 0#16) (htrack : s.io.OnTrack dpb) :
    seek bios dpb s = .returned () { s with io := s.io.sought bios dpb } := by
  have hpos := sectpt_pos hspt
  have hreturns : (seek bios dpb).returns
      (fun _ s' => s' = { s with io := s.io.sought bios dpb }) s := by
    unfold seek
    rw [Routine.returns_bind]
    refine Routine.returns_mono (seek0_returns hspt htrack) fun _ s₁ ⟨hshift₁, hon₁, hle₁⟩ => ?_
    rw [Routine.returns_bind]
    refine Routine.returns_mono (seek1_returns hspt hon₁ hle₁)
      fun _ s₂ ⟨hshift₂, hon₂, hle₂, hlt₂⟩ => ?_
    have hshift := hshift₁.trans hshift₂
    rw [hshift.arecord] at hle₂ hlt₂
    unfold Io.OnTrack at hon₂
    -- the track is the quotient, and the sector the remainder
    have hcurtrk : s₂.io.curtrk.toNat = s.io.arecord.toNat / dpb.sectpt.toNat := by
      refine ((Nat.div_eq_iff hpos).mpr ⟨?_, ?_⟩).symm
      · rw [← hon₂]
        exact hle₂
      · rw [Nat.add_sub_assoc hpos, ← hon₂]
        omega
    have htrk : s₂.io.curtrk =
        BitVec.ofNat 16 (s.io.arecord.toNat / dpb.sectpt.toNat) := by
      rw [← hcurtrk, BitVec.ofNat_toNat, BitVec.setWidth_eq]
    have hrec : s₂.io.currec = BitVec.ofNat 16
        (s.io.arecord.toNat / dpb.sectpt.toNat * dpb.sectpt.toNat) := by
      rw [← hcurtrk, ← hon₂, BitVec.ofNat_toNat, BitVec.setWidth_eq]
    have hsector : s.io.arecord - s₂.io.currec =
        BitVec.ofNat 16 (s.io.arecord.toNat % dpb.sectpt.toNat) := by
      refine BitVec.eq_of_toNat_eq ?_
      have hmod := Nat.mod_add_div' s.io.arecord.toNat dpb.sectpt.toNat
      rw [BitVec.toNat_sub_of_le hle₂, hon₂, hcurtrk, BitVec.toNat_ofNat,
        Nat.mod_eq_of_lt (Nat.lt_of_le_of_lt (Nat.mod_le _ _) s.io.arecord.isLt)]
      omega
    rw [hrec] at hsector
    rw [hshift]
    simp only [Routine.returns_bind, modifyIo, Routine.returns_modify, hrec, htrk, hsector]
    rfl
  obtain ⟨_, s', hrun, rfl⟩ := Routine.returns_iff.mp hreturns
  exact hrun

theorem Io.onTrack_sought (io : Io D) : Io.OnTrack dpb (io.sought bios dpb) := by
  have hle := Nat.div_mul_le_self io.arecord.toNat dpb.sectpt.toNat
  have hlt := io.arecord.isLt
  have hdiv := Nat.div_le_self io.arecord.toNat dpb.sectpt.toNat
  show (BitVec.ofNat 16 _).toNat = (BitVec.ofNat 16 _).toNat * _
  rw [BitVec.toNat_ofNat, BitVec.toNat_ofNat, Nat.mod_eq_of_lt (by omega),
    Nat.mod_eq_of_lt (by omega)]

end Seek

end Bdos
end Rc700
