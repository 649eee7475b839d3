import Rc700.Bdos.Directory

/-!
# The file system: what is on the drive

A volume is a directory of entries and the records behind it.  `Mounted` says that the drive holds
a volume and that the tables of the BDOS go with it; here is what the directory subroutines do
then, in terms of the volume.

All that is asked of the BIOS is in `Works`, which the disk driver of `bios.c` meets
(`driver_works`).  A write of type 2 makes the other records of its block undefined, and it is only
made at the first record of a block.
-/

namespace Rc700
namespace Bdos

open Library

/-- The entries of the directory, and what is known of the records. -/
structure Volume where
  dir : Nat → Nat → Byte
  data : Nat → Option Record

/-- The number of directory records. -/
def dirRecords (dpb : Dpb) : Nat := dpb.dirmax.toNat / dirrec + 1

/-- The number of records in a block. -/
def blockRecords (dpb : Dpb) : Nat := 2 ^ dpb.blkshf.toNat

/-- The number of records on the drive. -/
def capacity (dpb : Dpb) : Nat := (dpb.maxall.toNat + 1) * blockRecords dpb

namespace Volume

/-- A record of the directory. -/
def record (vol : Volume) (r : Nat) : Record :=
  fun i => vol.dir (dirrec * r + i.val / fcblen) (i.val % fcblen)

/-- All records. -/
def store (dpb : Dpb) (vol : Volume) (r : Nat) : Option Record :=
  if r < dirRecords dpb then some (vol.record r) else vol.data r

/-- An entry is changed. -/
def put (vol : Volume) (k : Nat) (e : Nat → Byte) : Volume :=
  { vol with dir := Function.update vol.dir k e }

end Volume

/-- The records after a write. -/
def written (dpb : Dpb) (wrtype : Byte) (store : Nat → Option Record) (r : Nat) (x : Record) :
    Nat → Option Record :=
  Function.update
    (fun q =>
      if wrtype = 2#8 ∧ q / blockRecords dpb = r / blockRecords dpb then none else store q)
    r (some x)

/-- The BIOS does what the BDOS relies on: `Holds` says where a drive is and what is on it. -/
structure Works {D : Type} (bios : Bios D) (dpb : Dpb)
    (Holds : D → Word × Word → (Nat → Option Record) → Prop) : Prop where
  home : ∀ {d place store}, Holds d place store → ∃ place', Holds (bios.home d) place' store
  settrk : ∀ {d place store} (track : Word), Holds d place store →
    Holds (bios.settrk track d) (track, place.2) store
  setsec : ∀ {d place store} (sector : Word), Holds d place store →
    Holds (bios.setsec sector d) (place.1, sector) store
  read : ∀ {d store r x}, r < capacity dpb → store r = some x →
    Holds d (address bios dpb r) store →
      (bios.read d).1 = (0#8, x) ∧ Holds (bios.read d).2 (address bios dpb r) store
  write : ∀ {d store r} (wrtype : Byte) (x : Record), r < capacity dpb →
    (wrtype = 2#8 → r % blockRecords dpb = 0) → Holds d (address bios dpb r) store →
      (bios.write wrtype x d).1 = 0#8 ∧
      Holds (bios.write wrtype x d).2 (address bios dpb r) (written dpb wrtype store r x)

/-- Parameters as they go together. -/
structure Dpb.Valid (dpb : Dpb) : Prop where
  sectpt : dpb.sectpt ≠ 0#16
  dirmax : dpb.dirmax.toNat < 0xFFFF
  records : capacity dpb ≤ 0x10000
  dirRecords : dirRecords dpb ≤ capacity dpb

section Mounted

variable {D : Type} {bios : Bios D} {dpb : Dpb}
  {Holds : D → Word × Word → (Nat → Option Record) → Prop}

/-- The drive holds the volume. -/
structure Ready (dpb : Dpb) (Holds : D → Word × Word → (Nat → Option Record) → Prop)
    (vol : Volume) (s : State D) : Prop where
  holds : ∃ place, Holds s.io.drive place (vol.store dpb)
  onTrack : s.io.OnTrack dpb
  dma : s.io.dma = .dmaad
  rodsk : s.tables.rodsk = false

/-- The checksum of a record, if it has one. -/
def Correct (dpb : Dpb) (vol : Volume) (t : Tables) (r : Nat) : Prop :=
  r < dpb.chksiz.toNat →
    t.check r = computecs fun i => vol.dir (dirrec * r + i / fcblen) (i % fcblen)

/-- The checksums of the first records. -/
def CheckedTo (dpb : Dpb) (vol : Volume) (n : Nat) (t : Tables) : Prop :=
  ∀ r < n, Correct dpb vol t r

/-- Behind `cdrmax` there are no entries. -/
def EndsAt (dpb : Dpb) (vol : Volume) (cdrmax : Word) : Prop :=
  ∀ k, cdrmax.toNat ≤ k → k ≤ dpb.dirmax.toNat → vol.dir k 0 = empty

/-- The drive holds the volume, and the tables go with it. -/
structure Mounted (dpb : Dpb) (Holds : D → Word × Word → (Nat → Option Record) → Prop)
    (vol : Volume) (s : State D) : Prop extends Ready dpb Holds vol s where
  checked : CheckedTo dpb vol (dirRecords dpb) s.tables
  ends : EndsAt dpb vol s.tables.cdrmax

/-- The record of entry `k` is in the buffer, and the drive is at it. -/
structure Buffered (bios : Bios D) (dpb : Dpb)
    (Holds : D → Word × Word → (Nat → Option Record) → Prop) (vol : Volume) (k : Nat)
    (s : State D) : Prop where
  drec : s.access.drec = BitVec.ofNat 16 (k / dirrec)
  buff : ∀ i < 128, s.io.buff i = vol.dir (dirrec * (k / dirrec) + i / fcblen) (i % fcblen)
  holds : Holds s.io.drive (address bios dpb (k / dirrec)) (vol.store dpb)

/-- Entry `k` is the current one. -/
structure At (bios : Bios D) (dpb : Dpb)
    (Holds : D → Word × Word → (Nat → Option Record) → Prop) (vol : Volume) (k : Nat)
    (s : State D) : Prop extends Buffered bios dpb Holds vol k s where
  le : k ≤ dpb.dirmax.toNat
  dcnt : s.access.dcnt = BitVec.ofNat 16 k
  dptr : s.access.dptr.toNat = fcblen * (k % dirrec)

/-- Entry `k` is the next one. -/
structure Before (bios : Bios D) (dpb : Dpb)
    (Holds : D → Word × Word → (Nat → Option Record) → Prop) (vol : Volume) (k : Nat)
    (s : State D) : Prop where
  dcnt : s.access.dcnt + 1#16 = BitVec.ofNat 16 k
  buffered : k % dirrec ≠ 0 → Buffered bios dpb Holds vol k s

variable {vol : Volume} {s : State D} {k : Nat}

theorem At.before_next (h : At bios dpb Holds vol k s) : Before bios dpb Holds vol (k + 1) s := by
  refine ⟨?_, fun hnext => ?_⟩
  · rw [h.dcnt, ← BitVec.ofNat_add]
  · have hsame : (k + 1) / dirrec = k / dirrec := by
      unfold dirrec at *
      omega
    exact ⟨hsame ▸ h.drec, hsame ▸ h.buff, hsame ▸ h.holds⟩

/-- The current entry. -/
theorem At.entry (h : At bios dpb Holds vol k s) {i : Nat} (hi : i < fcblen) :
    s.entry i = vol.dir k i := by
  unfold State.entry
  rw [h.dptr, h.buff _ (by unfold fcblen dirrec at *; omega)]
  congr 1
  · unfold fcblen dirrec at *
    omega
  · unfold fcblen at *
    omega

/-! ### Seeking and transferring -/

section Transfers

variable {post : Unit → State D → Prop}

@[simp]
theorem returns_modifyIo (f : Io D → Io D) :
    (modifyIo f).returns post s ↔ post () { s with io := f s.io } := Iff.rfl

@[simp]
theorem returns_modifyAccess (f : Access → Access) :
    (modifyAccess f).returns post s ↔ post () { s with access := f s.access } := Iff.rfl

@[simp]
theorem returns_modifyTables (f : Tables → Tables) :
    (modifyTables f).returns post s ↔ post () { s with tables := f s.tables } := Iff.rfl

variable (hworks : Works bios dpb Holds) (hvalid : dpb.Valid) {store : Nat → Option Record}

include hworks

theorem holds_sought {place : Word × Word} (h : Holds s.io.drive place store) :
    Holds (s.io.sought bios dpb).drive (address bios dpb s.io.arecord.toNat) store :=
  hworks.setsec _ (hworks.settrk _ h)

/-- A record is read to where the DMA address points. -/
theorem rdbuff_run {r : Nat} {x : Record} (hr : r < capacity dpb) (hx : store r = some x)
    (h : Holds s.io.drive (address bios dpb r) store) :
    rdbuff bios s = .returned ()
      (State.deliver { s with io.drive := (bios.read s.io.drive).2 } x) := by
  obtain ⟨hresult, -⟩ := hworks.read hr hx h
  unfold rdbuff
  rw [Routine.gets_bind_run]
  simp only [hresult]
  rfl

/-- The record at the DMA address is written. -/
theorem wrbuff_run {r : Nat} {wrtype : Byte} (hr : r < capacity dpb)
    (haligned : wrtype = 2#8 → r % blockRecords dpb = 0)
    (h : Holds s.io.drive (address bios dpb r) store) :
    wrbuff bios wrtype s = .returned ()
      { s with io.drive := (bios.write wrtype s.dmaRecord s.io.drive).2 } := by
  obtain ⟨hresult, -⟩ := hworks.write wrtype s.dmaRecord hr haligned h
  unfold wrbuff
  rw [Routine.gets_bind_run]
  simp only [id, hresult]
  rfl

/-- A directory record is read. -/
theorem rddir_run {r : Nat} {x : Record} (hr : r < capacity dpb) (hx : store r = some x)
    (h : Holds s.io.drive (address bios dpb r) store) :
    rddir bios s = .returned ()
      { s with
        io.drive := (bios.read s.io.drive).2
        io.buff := overwrite x s.io.buff
        io.dma := .dmaad } := by
  unfold rddir setdir setdata modifyIo
  rw [Routine.modify_bind_run]
  exact (Routine.bind_returned
    (rdbuff_run hworks (s := { s with io.dma := .buffa }) hr hx h)).trans rfl

omit hworks in
theorem seekdir_run (hspt : dpb.sectpt ≠ 0#16) (htrack : s.io.OnTrack dpb) :
    seekdir bios dpb s = .returned ()
      { s with
        io := Io.sought bios dpb { s.io with arecord := s.access.dcnt >>> 2 }
        access.drec := s.access.dcnt >>> 2 } := by
  unfold seekdir
  rw [Routine.modify_bind_run]
  exact seek_run (s := { s with
    io.arecord := s.access.dcnt >>> 2, access.drec := s.access.dcnt >>> 2 }) hspt htrack

end Transfers

/-! ### Checksums -/

theorem checksum_true : checksum dpb true s = .returned ()
    { s with
      tables.check :=
        if s.access.drec < dpb.chksiz then
          Function.update s.tables.check s.access.drec.toNat (computecs s.io.buff)
        else s.tables.check } := by
  unfold checksum
  rw [Routine.gets_bind_run]
  simp only [id]
  split
  · rfl
  · rfl

theorem checksum_false (h : s.access.drec < dpb.chksiz →
    computecs s.io.buff = s.tables.check s.access.drec.toNat) :
    checksum dpb false s = .returned () s := by
  unfold checksum
  rw [Routine.gets_bind_run]
  simp only [id]
  split
  · next hlt =>
      rw [if_neg Bool.false_ne_true, if_pos (h hlt)]
      rfl
  · rfl

theorem computecs_congr {buff buff' : Nat → Byte} (h : ∀ i < 128, buff i = buff' i) :
    computecs buff = computecs buff' := by
  unfold computecs
  have hall : ∀ (is : List Nat) (a : Byte), (∀ i ∈ is, i < 128) →
      is.foldl (fun a i => a + buff i) a = is.foldl (fun a i => a + buff' i) a := by
    intro is
    induction is with
    | nil => exact fun _ _ => rfl
    | cons i is ih =>
        intro a hlt
        rw [List.foldl_cons, List.foldl_cons, h i (hlt i (List.mem_cons_self ..))]
        exact ih _ fun j hj => hlt j (List.mem_cons_of_mem _ hj)
  exact hall _ _ fun i hi => List.mem_range.mp hi

/-- The checksum of a record is entered. -/
theorem correct_update {t : Tables} {drec : Word} {cs : Byte} {n r : Nat}
    (hdrec : drec.toNat = n)
    (hcs : cs = computecs fun i => vol.dir (dirrec * n + i / fcblen) (i % fcblen))
    (hr : Correct dpb vol t r ∨ r = n) :
    Correct dpb vol { t with
      check := if drec < dpb.chksiz then Function.update t.check drec.toNat cs else t.check }
        r := by
  intro hlt
  have hiff : drec < dpb.chksiz ↔ n < dpb.chksiz.toNat := by
    rw [BitVec.lt_def, hdrec]
  by_cases hrn : r = n
  · rw [hrn] at hlt ⊢
    simp only [if_pos (hiff.mpr hlt), hdrec, Function.update_self]
    exact hcs
  · have hold := hr.resolve_right hrn hlt
    simp only [hdrec]
    split
    · rw [Function.update_of_ne hrn]
      exact hold
    · exact hold

/-! ### The next entry -/

theorem toNat_dptr (k : Nat) :
    (((BitVec.ofNat 16 k).setWidth 8 &&& 0b11#8) <<< 5).toNat = fcblen * (k % dirrec) := by
  rw [BitVec.toNat_shiftLeft, BitVec.toNat_and, BitVec.toNat_setWidth, BitVec.toNat_ofNat,
    Nat.shiftLeft_eq]
  have hand : k % 2 ^ 16 % 2 ^ 8 &&& (0b11#8).toNat = k % 2 ^ 16 % 2 ^ 8 % 4 :=
    Nat.and_two_pow_sub_one_eq_mod _ 2
  rw [hand]
  unfold fcblen dirrec
  omega

/-- A byte of a directory record in the buffer. -/
theorem overwrite_record (vol : Volume) (r : Nat) (buff : Nat → Byte) {i : Nat} (hi : i < 128) :
    overwrite (vol.record r) buff i = vol.dir (dirrec * r + i / fcblen) (i % fcblen) := by
  unfold overwrite
  rw [dif_pos hi]
  rfl

/-- What `read$dir` leaves as it is. -/
def Stepped (s s' : State D) : Prop :=
  s' = { s with
    io := s'.io
    tables.check := s'.tables.check
    access := { s.access with
      dptr := s'.access.dptr, dcnt := s'.access.dcnt, drec := s'.access.drec } }

variable {c : Bool}

/-- The next entry becomes the current one. -/
theorem readdir_returns (hworks : Works bios dpb Holds) (hvalid : dpb.Valid)
    (hready : Ready dpb Holds vol s) (hbefore : Before bios dpb Holds vol k s)
    (hk : k ≤ dpb.dirmax.toNat)
    (hc : c = true ∨ ∀ r, r < dirRecords dpb → Correct dpb vol s.tables r) :
    (readdir bios dpb c).returns (fun _ s' =>
      Stepped s s' ∧ Ready dpb Holds vol s' ∧ At bios dpb Holds vol k s' ∧
      (c = false → s'.tables = s.tables) ∧
      ∀ r, Correct dpb vol s.tables r ∨ (c = true ∧ r = k / dirrec ∧ k % dirrec = 0) →
        Correct dpb vol s'.tables r) s := by
  have hdirmax := hvalid.dirmax
  have hkword : (BitVec.ofNat 16 k).toNat = k := by
    rw [BitVec.toNat_ofNat]
    exact Nat.mod_eq_of_lt (by omega)
  have hin : ¬ dpb.dirmax < BitVec.ofNat 16 k := by
    rw [BitVec.lt_def, hkword]
    omega
  have hdiv : k / dirrec < dirRecords dpb := Nat.lt_succ_of_le (Nat.div_le_div_right hk)
  unfold readdir
  simp only [Routine.returns_bind, returns_modifyAccess, Routine.returns_gets, id, hbefore.dcnt]
  rw [if_neg hin]
  simp only [Routine.returns_bind, returns_modifyAccess]
  rw [Routine.returns_ite]
  refine ⟨fun hne => ?_, fun heq => ?_⟩
  · -- the record is in the buffer
    have hmod : k % dirrec ≠ 0 := fun h0 => hne (BitVec.eq_of_toNat_eq (by
      rw [toNat_dptr, h0]
      rfl))
    have hbuffered := hbefore.buffered hmod
    refine ⟨rfl, ⟨hready.holds, hready.onTrack, hready.dma, hready.rodsk⟩,
      ⟨⟨hbuffered.drec, hbuffered.buff, hbuffered.holds⟩, hk, rfl, toNat_dptr k⟩,
      fun _ => rfl, fun r hr => ?_⟩
    rcases hr with hr | ⟨-, -, h0⟩
    · exact hr
    · exact absurd h0 hmod
  · have hmod : k % dirrec = 0 := by
      have hnat := congrArg BitVec.toNat (not_not.mp heq)
      rw [toNat_dptr] at hnat
      unfold fcblen at hnat
      have hzero : (0#8 : Byte).toNat = 0 := rfl
      omega
    have hshift : BitVec.ofNat 16 k >>> 2 = BitVec.ofNat 16 (k / dirrec) := by
      refine BitVec.eq_of_toNat_eq ?_
      rw [BitVec.toNat_ushiftRight, hkword, Nat.shiftRight_eq_div_pow, BitVec.toNat_ofNat]
      unfold dirrec
      exact (Nat.mod_eq_of_lt (by omega)).symm
    have hdrec : (BitVec.ofNat 16 (k / dirrec)).toNat = k / dirrec := by
      rw [BitVec.toNat_ofNat]
      exact Nat.mod_eq_of_lt (by unfold dirrec; omega)
    have hstore : vol.store dpb (k / dirrec) = some (vol.record (k / dirrec)) := if_pos hdiv
    have hcap : k / dirrec < capacity dpb := Nat.lt_of_lt_of_le hdiv hvalid.dirRecords
    obtain ⟨place, hplace⟩ := hready.holds
    have hsought := holds_sought hworks (s := { s with
      io.arecord := BitVec.ofNat 16 k >>> 2 }) hplace
    simp only [hshift, hdrec] at hsought
    obtain ⟨-, hread⟩ := hworks.read hcap hstore hsought
    have hbuff : ∀ i < 128, overwrite (vol.record (k / dirrec)) s.io.buff i =
        vol.dir (dirrec * (k / dirrec) + i / fcblen) (i % fcblen) :=
      fun i hi => overwrite_record vol _ _ hi
    rw [Routine.returns_bind]
    refine (Routine.returns_run (seekdir_run hvalid.sectpt (by exact hready.onTrack))).mpr ?_
    simp only [hshift]
    rw [Routine.returns_bind]
    refine (Routine.returns_run (rddir_run hworks hcap hstore (by exact hsought))).mpr ?_
    have hcs := computecs_congr hbuff
    have onTrack : Io.OnTrack dpb (Io.sought bios dpb
        { s.io with arecord := BitVec.ofNat 16 (k / dirrec) }) := Io.onTrack_sought _
    cases c with
    | true =>
        refine (Routine.returns_run checksum_true).mpr
          ⟨rfl, ⟨⟨_, hread⟩, onTrack, rfl, hready.rodsk⟩,
            ⟨⟨rfl, hbuff, hread⟩, hk, rfl, toNat_dptr k⟩, ?_, fun r hr hlt => ?_⟩
        · intro h
          cases h
        · exact correct_update hdrec hcs (hr.imp_right fun h => h.2.1) hlt
    | false =>
        refine (Routine.returns_run (checksum_false ?_)).mpr
          ⟨rfl, ⟨⟨_, hread⟩, onTrack, rfl, hready.rodsk⟩,
            ⟨⟨rfl, hbuff, hread⟩, hk, rfl, toNat_dptr k⟩, fun _ => rfl, fun r hr => ?_⟩
        · intro hlt
          have hlt' : k / dirrec < dpb.chksiz.toNat := by
            rw [← hdrec]
            exact hlt
          show _ = s.tables.check (BitVec.ofNat 16 (k / dirrec)).toNat
          rw [hdrec, (hc.resolve_left Bool.false_ne_true) _ hdiv hlt']
          exact hcs
        · rcases hr with hr | ⟨h, -⟩
          · exact hr
          · cases h

theorem At.not_endofdir (hvalid : dpb.Valid) (hat : At bios dpb Holds vol k s) :
    endofdir s = false := by
  have hdirmax := hvalid.dirmax
  have hle := hat.le
  unfold endofdir
  rw [hat.dcnt, beq_eq_false_iff_ne]
  intro h
  have hnat := congrArg BitVec.toNat h
  rw [BitVec.toNat_ofNat, Nat.mod_eq_of_lt (by omega)] at hnat
  have hend : enddir.toNat = 0xFFFF := rfl
  omega

theorem Before.toNat_next (hvalid : dpb.Valid) (hbefore : Before bios dpb Holds vol k s)
    (hle : k ≤ dpb.dirmax.toNat + 1) : (s.access.dcnt + 1#16).toNat = k := by
  have hdirmax := hvalid.dirmax
  rw [hbefore.dcnt, BitVec.toNat_ofNat]
  exact Nat.mod_eq_of_lt (by omega)

/-- Behind the last entry the directory ends. -/
theorem readdir_end (hvalid : dpb.Valid) (hbefore : Before bios dpb Holds vol k s)
    (hk : dpb.dirmax.toNat < k) (hlt : k ≤ dpb.dirmax.toNat + 1) :
    readdir bios dpb c s = .returned () { s with access.dcnt := enddir } := by
  have hdirmax := hvalid.dirmax
  have hout : dpb.dirmax < BitVec.ofNat 16 k := by
    rw [BitVec.lt_def, BitVec.toNat_ofNat, Nat.mod_eq_of_lt (by omega)]
    exact hk
  unfold readdir modifyAccess
  rw [Routine.modify_bind_run, Routine.gets_bind_run]
  simp only [id, hbefore.dcnt, if_pos hout]
  rfl

end Mounted

/-! ### The parameters of `bios.c` -/

/-- `DDF_BSH` -/
def ddfBsh (bls : Nat) : Nat :=
  if bls = 1024 then 3 else if bls = 2048 then 4 else if bls = 4096 then 5
  else if bls = 8192 then 6 else if bls = 16384 then 7 else 0xFF

/-- `DDF_EXM` -/
def ddfExm (bls dks : Nat) : Nat :=
  if bls = 1024 then 0
  else if bls = 2048 then if dks ≤ 256 then 1 else 0
  else if bls = 4096 then if dks ≤ 256 then 3 else 1
  else if bls = 8192 then if dks ≤ 256 then 7 else 3
  else if bls = 16384 then if dks ≤ 256 then 15 else 7
  else 0xFF

/-- `DDF_AL_BITS` -/
def ddfAlBits (dir bls : Nat) : Word := 0xFFFF#16 - 0xFFFF#16 >>> ((dir * 32 + bls - 1) / bls)

/-- `DISKDEF` -/
def diskdef (physicalSpt sectorSize sides bls dks dir : Nat) (removable : Bool) (ofs : Nat) :
    Dpb where
  sectpt := BitVec.ofNat 16 (physicalSpt * (sectorSize / 128) * sides)
  blkshf := BitVec.ofNat 8 (ddfBsh bls)
  blkmsk := BitVec.ofNat 8 (bls / 128 - 1)
  extmsk := BitVec.ofNat 8 (ddfExm bls dks)
  maxall := BitVec.ofNat 16 (dks - 1)
  dirmax := BitVec.ofNat 16 (dir - 1)
  al0 := (ddfAlBits dir bls >>> 8).setWidth 8
  al1 := (ddfAlBits dir bls &&& 0xFF#16).setWidth 8
  chksiz := BitVec.ofNat 16 (if removable then dir / 4 else 0)
  offset := BitVec.ofNat 16 ofs

/-- `dpb_maxi_128`, `dpb_maxi_512`, `dpb_mini_512` and `dpb_maxi_256` -/
def dpbOf : Fin 4 → Dpb
  | 0 => diskdef 26 128 1 1024 243 64 true 2
  | 1 => diskdef 15 512 2 2048 450 128 true 2
  | 2 => diskdef 26 128 1 1024 243 64 true 0
  | 3 => diskdef 26 256 2 2048 472 128 true 0

/-- They go with those that the disk driver uses. -/
theorem dpbOf_driver : ∀ f : Fin 4,
    (dpbOf f).sectpt.toNat = (Disk.fspa f).dpb.spt ∧
    (dpbOf f).blkmsk.toNat = (Disk.fspa f).dpb.blm ∧
    (dpbOf f).offset.toNat = (Disk.fspa f).dpb.off := by
  decide

theorem dpbOf_valid (f : Fin 4) : (dpbOf f).Valid where
  sectpt := by revert f; decide
  dirmax := by revert f; decide
  records := by revert f; decide
  dirRecords := by revert f; decide

/-! ### An array of records -/

/-- A drive that holds its records by track and sector. -/
structure ArrayDrive where
  place : Word × Word
  records : Word × Word → Record

def arrayBios : Bios ArrayDrive where
  home d := { d with place := (0#16, d.place.2) }
  settrk track d := { d with place := (track, d.place.2) }
  setsec sector d := { d with place := (d.place.1, sector) }
  sectran sector := sector
  read d := ((0#8, d.records d.place), d)
  write _ x d := (0#8, { d with records := Function.update d.records d.place x })
  conin d := (0#8, d)

/-- The array holds what is known of the records. -/
def OnArray (dpb : Dpb) (d : ArrayDrive) (place : Word × Word) (store : Nat → Option Record) :
    Prop :=
  d.place = place ∧
    ∀ r x, r < capacity dpb → store r = some x → d.records (address arrayBios dpb r) = x

/-- No two records have one address. -/
theorem address_injective {dpb : Dpb} (hvalid : dpb.Valid) {r q : Nat} (hr : r < capacity dpb)
    (hq : q < capacity dpb) (heq : address arrayBios dpb r = address arrayBios dpb q) : r = q := by
  have hrecords := hvalid.records
  have hsmall : ∀ {n m : Nat}, n ≤ r → m ≤ q → BitVec.ofNat 16 n = BitVec.ofNat 16 m → n = m := by
    intro n m hn hm h
    have hnat := congrArg BitVec.toNat h
    rw [BitVec.toNat_ofNat, BitVec.toNat_ofNat, Nat.mod_eq_of_lt (by omega),
      Nat.mod_eq_of_lt (by omega)] at hnat
    exact hnat
  obtain ⟨htrack, hsector⟩ := Prod.mk.inj heq
  have hdiv := hsmall (Nat.div_le_self ..) (Nat.div_le_self ..) (add_right_cancel htrack)
  have hmod := hsmall (Nat.mod_le ..) (Nat.mod_le ..) hsector
  rw [← Nat.div_add_mod r dpb.sectpt.toNat, ← Nat.div_add_mod q dpb.sectpt.toNat, hdiv, hmod]

theorem array_works {dpb : Dpb} (hvalid : dpb.Valid) : Works arrayBios dpb (OnArray dpb) where
  home h := ⟨_, rfl, h.2⟩
  settrk track h := ⟨by rw [← h.1]; rfl, h.2⟩
  setsec sector h := ⟨by rw [← h.1]; rfl, h.2⟩
  read hr hx h := by
    refine ⟨?_, h⟩
    show (0#8, _) = _
    rw [h.1, h.2 _ _ hr hx]
  write {d store r} wrtype x hr haligned h := by
    refine ⟨rfl, h.1, fun q y hq hy => ?_⟩
    show Function.update _ _ _ _ = _
    rw [h.1]
    unfold written at hy
    rcases eq_or_ne q r with rfl | hne
    · rw [Function.update_self] at hy
      rw [Function.update_self]
      exact Option.some.inj hy
    · rw [Function.update_of_ne hne] at hy
      rw [Function.update_of_ne fun heq => hne (address_injective hvalid hq hr heq)]
      split at hy
      · cases hy
      · exact h.2 _ _ hq hy

/-- The variables of the BDOS as they are loaded, with a volume in the drive. -/
def loaded (dpb : Dpb) (vol : Volume) : State ArrayDrive where
  io := ⟨⟨(0#16, 0#16), fun p =>
      vol.record ((p.1 - dpb.offset).toNat * dpb.sectpt.toNat + p.2.toNat)⟩,
    0#16, 0#16, 0#16, .dmaad, fun _ => 0#8⟩
  tables := ⟨0#16, false, fun _ => 0#8, fun _ => 0#8⟩
  access := ⟨0#8, 0#16, 0#16, 0, fun _ => 0#8, 0#8⟩
  usrcode := 0#8
  lret := 0#8
  fcb := fun _ => 0#8
  data := fun _ => 0#8

theorem loaded_ready {dpb : Dpb} (hvalid : dpb.Valid) {dir : Nat → Nat → Byte} :
    Ready dpb (OnArray dpb) ⟨dir, fun _ => none⟩ (loaded dpb ⟨dir, fun _ => none⟩) where
  holds := by
    refine ⟨_, rfl, fun r x hr hx => ?_⟩
    have hrecords := hvalid.records
    unfold Volume.store at hx
    split at hx
    · have hdiv := Nat.div_le_self r dpb.sectpt.toNat
      have hmod := Nat.mod_le r dpb.sectpt.toNat
      have hplace : ((address arrayBios dpb r).1 - dpb.offset).toNat * dpb.sectpt.toNat +
          (address arrayBios dpb r).2.toNat = r := by
        show (BitVec.ofNat 16 _ + dpb.offset - dpb.offset).toNat * _ + (BitVec.ofNat 16 _).toNat = r
        rw [BitVec.add_sub_cancel, BitVec.toNat_ofNat, BitVec.toNat_ofNat,
          Nat.mod_eq_of_lt (by omega), Nat.mod_eq_of_lt (by omega), Nat.mul_comm]
        exact Nat.div_add_mod r _
      rw [← Option.some.inj hx, ← congrArg (Volume.record ⟨dir, fun _ => none⟩) hplace]
      rfl
    · cases hx
  onTrack := (Nat.zero_mul _).symm
  dma := rfl
  rodsk := rfl

/-- The tables of a drive logged in, with the directory blocks allocated. -/
def mountedTables (dpb : Dpb) (dir : Nat → Nat → Byte) : Tables where
  cdrmax := dpb.dirmax + 1#16
  rodsk := false
  check r := computecs fun i => dir (dirrec * r + i / fcblen) (i % fcblen)
  alloc i := if i = 0 then 0xE0#8 else 0#8

/-- The same, logged in. -/
def ready (dpb : Dpb) (dir : Nat → Nat → Byte) : State ArrayDrive :=
  { loaded dpb ⟨dir, fun _ => none⟩ with tables := mountedTables dpb dir }

theorem mountedTables_ends {dpb : Dpb} (hvalid : dpb.Valid) (dir : Nat → Nat → Byte) :
    EndsAt dpb ⟨dir, fun _ => none⟩ (mountedTables dpb dir).cdrmax := by
  intro k hcdr hle
  have hdirmax := hvalid.dirmax
  have hnext : (mountedTables dpb dir).cdrmax.toNat = dpb.dirmax.toNat + 1 := by
    unfold mountedTables
    rw [BitVec.toNat_add_of_lt (by rw [BitVec.toNat_ofNat]; omega), BitVec.toNat_ofNat]
  omega

theorem mountedTables_checked (dpb : Dpb) (dir : Nat → Nat → Byte) (n : Nat) :
    CheckedTo dpb ⟨dir, fun _ => none⟩ n (mountedTables dpb dir) := by
  intro r _ _
  simp only [mountedTables]

theorem ready_mounted {dpb : Dpb} (hvalid : dpb.Valid) (dir : Nat → Nat → Byte) :
    Mounted dpb (OnArray dpb) ⟨dir, fun _ => none⟩ (ready dpb dir) where
  holds := (loaded_ready hvalid).holds
  onTrack := (Nat.zero_mul _).symm
  dma := rfl
  rodsk := rfl
  checked := mountedTables_checked dpb dir _
  ends := mountedTables_ends hvalid dir

/-- The directory of a disk with one file, of user 0, in block 2. -/
def oneFile : Nat → Nat → Byte := fun k i =>
  if k = 0 then if i = dskmap then 2#8 else 0#8 else empty

end Bdos
end Rc700
