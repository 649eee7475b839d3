import Rc700.Disk.WarmBoot
import Rc700.Formats.ImdImages
import Mathlib.Data.List.GetD

/-!
# Disk images and the disk driver

Two scripts read an IMD image the way the BIOS reads the disk: `verify_checksums.py` sums the
records of each track, and `verify_against_imd.py` extracts the CCP and the BDOS.  Both have their
own copy of the interleave tables and of the deblocking.

On a drive that holds the image the BIOS delivers what the scripts compute with: the checksums of
`compute_checksums` are the sums of what `READ` delivers (`checksums_of_reads`), and a boot loads
the bytes of `extract_ccp_bdos_from_imd` (`boot_loads_extracted`).
-/

namespace Rc700
namespace Disk

open Library Formats

/-! ### Records that are delivered -/

/-- `READ` delivered the record in some run of a program that had not written it. -/
structure Delivered (table : DriveTable) (disk : Chs → Nat → Byte) (r : Rec) (data : Record) :
    Prop where
  run : ∃ (fdc : Nat → Attempt) (mem : Word → Byte) (calls : List Call) (earlier : List Event),
    FaultFree fdc ∧
      EveryStep (call table fdc) (BlockAligned table) (boot table fdc mem disk) calls ∧
      (∃ code, (Event.readDone r code data :: earlier) <:+
        (Disk.run table fdc (boot table fdc mem disk) calls).log) ∧
      contents table (originals table disk) earlier r = originals table disk r

theorem Delivered.eq {table : DriveTable} {disk : Chs → Nat → Byte} {r : Rec} {data : Record}
    (h : Delivered table disk r data) : data = recordAt table disk r := by
  obtain ⟨fdc, mem, calls, earlier, hfdc, hcalls, ⟨code, hread⟩, hkept⟩ := h.run
  have hend := run_transparent hfdc hcalls (boot_transparent table fdc mem disk)
    (boot_startsAligned table fdc mem disk)
  exact (hend.faithful.read hread).2 _ hkept

/-- Each record of drive A is delivered in some run. -/
theorem delivered_recordAt {table : DriveTable} {disk : Chs → Nat → Byte} {trk s : Nat}
    (hlegal : (⟨0, trk, s⟩ : Rec).Legal (table.format 0)) :
    Delivered table disk ⟨0, trk, s⟩ (recordAt table disk ⟨0, trk, s⟩) := by
  have htrk : (BitVec.ofNat 16 trk).toNat = trk := by
    have hlt := hlegal.2.1
    dsimp only at hlt
    rw [BitVec.toNat_ofNat]
    exact Nat.mod_eq_of_lt (by omega)
  have hs : (BitVec.ofNat 16 s).toNat = s := by
    have hlt := hlegal.2.2.trans_le (sectorsPerTrack_le _)
    dsimp only at hlt
    rw [BitVec.toNat_ofNat]
    exact Nat.mod_eq_of_lt (by omega)
  let m := run table reliable (boot table reliable (fun _ => 0#8) disk)
    [.settrk (BitVec.ofNat 16 trk), .setsec (BitVec.ofNat 16 s)]
  have hm : Steady table (originals table disk) m :=
    steady_call reliable_faultFree (c := .setsec (BitVec.ofNat 16 s))
      (steady_call reliable_faultFree (c := .settrk (BitVec.ofNat 16 trk))
        (steady_boot table reliable _ disk) trivial) trivial
  have hdrive : m.cpmDisk = 0 := biosSeldskC_disk table reliable _
  have hrequest : m.request = ⟨0, trk, s⟩ := by
    show (⟨m.cpmDisk, (BitVec.ofNat 16 trk).toNat, (BitVec.ofNat 16 s).toNat⟩ : Rec) = _
    rw [hdrive, htrk, hs]
  have hlegal' : m.request.Legal (table.format m.cpmDisk) := by
    rw [hrequest, hdrive]
    exact hlegal
  have hlog : m.log = [] := boot_log table reliable _ disk
  obtain ⟨-, hstore, -⟩ := read_delivers reliable_faultFree hm.transparent hlegal'
  have hdelivered : Delivered table disk ⟨0, trk, s⟩ (biosRead reliable m).dmaRecord := by
    refine ⟨reliable, fun _ => 0#8, [.settrk (BitVec.ofNat 16 trk), .setsec (BitVec.ofNat 16 s),
      .read], (xread reliable m).1.log, reliable_faultFree, ⟨trivial, trivial, hlegal', trivial⟩,
      ⟨(xread reliable m).2, ?_⟩, ?_⟩
    · rw [← hrequest]
      exact List.suffix_refl _
    · exact congrFun (hstore.trans (by rw [hlog]; rfl)) _
  rw [← hdelivered.eq]
  exact hdelivered

/-- The sum of the bytes of a record. -/
def recordSum (v : Record) : Nat := (List.ofFn fun i => (v i).toNat).sum

end Disk

namespace Formats
namespace VerifyChecksums

/-! ### `verify_checksums.py` -/

def TRAN8 : List Nat := [1, 5, 9, 13, 2, 6, 10, 14, 3, 7, 11, 15, 4, 8, 12]

/-- `list(range(1, 27))` -/
def TRAN24 : List Nat := List.range' 1 26

/-- `find_sector` -/
def findSector (sectors : List Entry) (cyl head secId : Nat) : Option (List Byte) :=
  (sectors.find? fun s => s.1.toNat = cyl ∧ s.2.1.toNat = head ∧ s.2.2.1.toNat = secId).map
    fun s => s.2.2.2

/-- The sum so far, with the sector of a record: the sum and the errors. -/
def addChunk (data : Option (List Byte)) (recOffset : Nat) (sum : Nat × Nat) : Nat × Nat :=
  match data with
  | none => (sum.1, sum.2 + 1)
  | some data =>
      ((sum.1 + (((data.drop recOffset).take 128).map BitVec.toNat).sum) &&& 0xFFFF, sum.2)

/-- `compute_track_cksum` -/
def computeTrackCksum (sectors : List Entry) (trk cpmSectorsPerTrack deblockShift
    track0SectorsPerSide : Nat) (sectorXlate : List Nat) : Nat × Nat :=
  (List.range cpmSectorsPerTrack).foldl (fun sum cpmSec =>
    let hostbufSector := cpmSec >>> (deblockShift - 1)
    let (side, physSec) :=
      if hostbufSector < track0SectorsPerSide then (0, sectorXlate.getD hostbufSector 0)
      else (1, sectorXlate.getD (hostbufSector - track0SectorsPerSide) 0)
    let deblockMask := (1 <<< (deblockShift - 1)) - 1
    let recOffset := (cpmSec &&& deblockMask) * 128
    addChunk (findSector sectors trk side physSec) recOffset sum) (0, 0)

/-- Side 1 of track 0: `for cpm_sec in range(52, 104)`. -/
def side1Cksum (sectors : List Entry) : Nat × Nat :=
  (List.range' 52 52).foldl (fun sum cpmSec =>
    let hostbufSector := cpmSec >>> 1
    let physSec := TRAN24.getD (hostbufSector - 26) 0
    let recOffset := (cpmSec &&& 1) * 128
    addChunk (findSector sectors 0 1 physSec) recOffset sum) (0, 0)

/-- `max(c for c,h,s,d in sectors)` -/
def maxCyl (sectors : List Entry) : Nat := (sectors.map fun s => s.1.toNat).foldl max 0

/-- The sums of the tracks: the first side, the second side, and the other tracks. -/
def trackCksums (sectors : List Entry) : List (Nat × Nat) :=
  computeTrackCksum sectors 0 26 1 26 TRAN24 :: side1Cksum sectors ::
    (List.range' 1 (maxCyl sectors)).map fun trk => computeTrackCksum sectors trk 120 3 15 TRAN8

/-- `compute_checksums`: the sum of the disk, and the errors. -/
def computeChecksums (sectors : List Entry) : Except ImdError (Nat × Nat) :=
  if sectors = [] then .error .value
  else
    .ok ((trackCksums sectors).foldl
      (fun disk track => ((disk.1 + track.1) &&& 0xFFFF, disk.2 + track.2)) (0, 0))

end VerifyChecksums
end Formats

namespace Disk

open Formats Formats.VerifyChecksums

/-! ### The sum of a track -/

section Sums

variable {find : Nat → Option (List Byte)} {off : Nat → Nat} {xs : List Nat} {sum : Nat × Nat}

theorem addChunk_errors {data : Option (List Byte)} {o : Nat} :
    sum.2 ≤ (addChunk data o sum).2 := by
  cases data with
  | none => exact Nat.le_succ _
  | some data => exact Nat.le_refl _

theorem foldl_errors :
    sum.2 ≤ (xs.foldl (fun sum x => addChunk (find x) (off x) sum) sum).2 := by
  induction xs generalizing sum with
  | nil => exact Nat.le_refl _
  | cons x xs ih => exact addChunk_errors.trans ih

/-- A sum without errors, modulo 2^16, by induction on the records. -/
theorem foldl_addChunk {chunk : Nat → Nat}
    (hchunk : ∀ x ∈ xs, ∀ data, find x = some data →
      (((data.drop (off x)).take 128).map BitVec.toNat).sum = chunk x)
    (hsum : sum.1 < 65536)
    (hnone : (xs.foldl (fun sum x => addChunk (find x) (off x) sum) sum).2 = 0) :
    (xs.foldl (fun sum x => addChunk (find x) (off x) sum) sum).1 =
      (sum.1 + (xs.map chunk).sum) % 65536 := by
  induction xs generalizing sum with
  | nil => simp [Nat.mod_eq_of_lt hsum]
  | cons x xs ih =>
      obtain ⟨hx, hxs⟩ := List.forall_mem_cons.mp hchunk
      rw [List.foldl_cons] at hnone ⊢
      cases hfind : find x with
      | none =>
          rw [hfind] at hnone
          have hone : sum.2 + 1 ≤ 0 := (@foldl_errors find off xs (sum.1, sum.2 + 1)).trans hnone.le
          exact absurd hone (Nat.not_succ_le_zero _)
      | some data =>
          rw [hfind] at hnone
          have hmask : ∀ n : Nat, n &&& 0xFFFF = n % 65536 :=
            fun n => Nat.and_two_pow_sub_one_eq_mod n 16
          rw [ih hxs (by rw [addChunk, hmask]; exact Nat.mod_lt _ (by decide)) hnone]
          simp only [addChunk, hmask, hx data hfind, List.map_cons, List.sum_cons]
          omega

end Sums

/-! ### Images on a drive -/

/-- The sectors that are found are on the drive. -/
def Holds (disk : Chs → Nat → Byte) (drive : Nat)
    (find : Nat → Nat → Nat → Option (List Byte)) : Prop :=
  ∀ cyl head sec data, find cyl head sec = some data →
    ∀ k < data.length, disk ⟨drive, cyl, head, sec⟩ k = data.getD k 0#8

section Tracks

variable {table : DriveTable} {disk : Chs → Nat → Byte} {drive : Nat} {sectors : List Entry}

/-- The bytes of a record of a sector. -/
theorem chunk_eq {data : List Byte} {slot : Nat} (hlen : (slot + 1) * 128 ≤ data.length) :
    (data.drop (slot * 128)).take 128 =
      List.ofFn fun i : Fin 128 => data.getD (slot * 128 + i) 0#8 := by
  apply List.ext_getElem
  · simp only [List.length_take, List.length_drop, List.length_ofFn]
    omega
  · intro i hi hi'
    rw [List.length_ofFn] at hi'
    rw [List.getElem_take, List.getElem_drop, List.getElem_ofFn, List.getD_eq_getElem]

theorem sum_chunk {f : Fin 4} {data : List Byte} {chs : Chs} {x : Nat}
    (hlen : data.length = slots f * 128)
    (hholds : ∀ k < data.length, disk chs k = data.getD k 0#8) :
    (((data.drop (x % slots f * 128)).take 128).map BitVec.toNat).sum =
      recordSum (slotOf (disk chs) (x % slots f)) := by
  have hslot : (x % slots f + 1) * 128 ≤ data.length := by
    rw [hlen]
    exact Nat.mul_le_mul_right 128 (Nat.mod_lt x (slots_pos f))
  rw [chunk_eq hslot, List.map_ofFn, recordSum]
  refine congrArg (fun g => (List.ofFn g).sum) (funext fun i => ?_)
  have hi : x % slots f * 128 + i < data.length := by
    have hi := i.isLt
    omega
  rw [Function.comp_apply, slotOf, hholds _ hi]

/-- The sum of some records, with the driver's sides, sectors and offsets. -/
def recordsCksum (sectors : List Entry) (f : Fin 4) (trk : Nat) (xs : List Nat) : Nat × Nat :=
  xs.foldl (fun sum x =>
    addChunk (findSector sectors trk (physical f (x / slots f)).1 (physical f (x / slots f)).2)
      (x % slots f * 128) sum) (0, 0)

/-- The script's side, sector and offset are those of the driver. -/
theorem computeTrackCksum_eq (f : Fin 4) (trk : Nat) :
    computeTrackCksum sectors trk (fspa f).cpmSectorsPerTrack (fspa f).deblockShift (fdf f).eot
        (fspa f).sectorXlate =
      recordsCksum sectors f trk (List.range (fspa f).cpmSectorsPerTrack) := by
  have hmask : (1 <<< ((fspa f).deblockShift - 1)) - 1 = (fspa f).deblockMask := by
    fin_cases f <;> rfl
  unfold computeTrackCksum recordsCksum
  refine congrArg (fun step => List.foldl step (0, 0) _) (funext fun sum => funext fun x => ?_)
  rw [hmask, shiftRight_eq_div_slots]
  dsimp only
  rw [and_mask_eq_mod_slots]
  unfold physical
  by_cases hside : x / slots f < (fdf f).eot
  · rw [if_pos hside, if_neg (Nat.not_le.mpr hside)]
  · rw [if_neg hside, if_pos (Nat.not_lt.mp hside)]

theorem side1Cksum_eq : side1Cksum sectors = recordsCksum sectors 3 0 (List.range' 52 52) := by
  have htable : TRAN24 = (fspa 3).sectorXlate := by decide
  unfold side1Cksum recordsCksum
  refine List.foldl_ext _ _ _ fun sum x hx => ?_
  have hside : (fdf 3).eot ≤ x / slots 3 := by
    have hx := (List.mem_range'_1.mp hx).1
    show 26 ≤ x / 2
    omega
  have hhalf : x >>> 1 = x / slots 3 := Nat.shiftRight_eq_div_pow x 1
  have hrest : x &&& 1 = x % slots 3 := Nat.and_two_pow_sub_one_eq_mod x 1
  unfold physical
  rw [if_pos hside, hhalf, hrest, htable]
  rfl

/-- **The sum of records** is that of what `READ` delivers. -/
theorem recordsCksum_of_reads {f : Fin 4} {trk : Nat} {xs : List Nat} {reads : Nat → Record}
    (hformat : table.format drive = f) (hholds : Holds disk drive (findSector sectors))
    (hsizes : ∀ x ∈ xs, ∀ sec data,
      findSector sectors trk (physical f (x / slots f)).1 sec = some data →
        data.length = slots f * 128)
    (hreads : ∀ x ∈ xs, Delivered table disk ⟨drive, trk, x⟩ (reads x))
    (hnone : (recordsCksum sectors f trk xs).2 = 0) :
    (recordsCksum sectors f trk xs).1 = (xs.map fun x => recordSum (reads x)).sum % 65536 := by
  have hchunk : ∀ x ∈ xs, ∀ data,
      findSector sectors trk (physical f (x / slots f)).1 (physical f (x / slots f)).2 =
        some data →
      (((data.drop (x % slots f * 128)).take 128).map BitVec.toNat).sum = recordSum (reads x) := by
    intro x hx data hfind
    rw [(hreads x hx).eq, recordAt, hformat]
    exact sum_chunk (hsizes x hx _ data hfind) (hholds _ _ _ data hfind)
  unfold recordsCksum at hnone ⊢
  rw [foldl_addChunk hchunk (by decide) hnone, Nat.zero_add]

end Tracks

/-! ### The sum of a disk -/

/-- The sizes of the sectors: 128 and 256 bytes on the sides of track 0, and 512 elsewhere. -/
structure MaxiSizes (sectors : List Entry) : Prop where
  side0 : ∀ sec data, findSector sectors 0 0 sec = some data → data.length = 128
  side1 : ∀ sec data, findSector sectors 0 1 sec = some data → data.length = 256
  others : ∀ trk head sec data, 0 < trk → findSector sectors trk head sec = some data →
    data.length = 512

/-- The sum of the tracks, and that of their errors. -/
theorem foldl_tracks {tracks : List (Nat × Nat)} {disk : Nat × Nat} (hdisk : disk.1 < 65536) :
    tracks.foldl (fun disk track => ((disk.1 + track.1) &&& 0xFFFF, disk.2 + track.2)) disk =
      ((disk.1 + (tracks.map Prod.fst).sum) % 65536, disk.2 + (tracks.map Prod.snd).sum) := by
  have hmask : ∀ n : Nat, n &&& 0xFFFF = n % 65536 :=
    fun n => Nat.and_two_pow_sub_one_eq_mod n 16
  induction tracks generalizing disk with
  | nil => simp [Nat.mod_eq_of_lt hdisk]
  | cons track tracks ih =>
      rw [List.foldl_cons, ih (by rw [hmask]; exact Nat.mod_lt _ (by decide)), hmask]
      simp only [List.map_cons, List.sum_cons, Prod.mk.injEq]
      omega

/-- Sums of remainders. -/
theorem sum_map_mod {xs : List Nat} {g h : Nat → Nat} (hmod : ∀ x ∈ xs, g x = h x % 65536) :
    (xs.map g).sum % 65536 = (xs.map h).sum % 65536 := by
  induction xs with
  | nil => rfl
  | cons x xs ih =>
      obtain ⟨hx, hxs⟩ := List.forall_mem_cons.mp hmod
      have hrest := ih hxs
      rw [List.map_cons, List.map_cons, List.sum_cons, List.sum_cons, hx]
      omega

/-- The driver's host sectors of the first side of track 0. -/
theorem side0_physical {x : Nat} (hx : x < 26) : (physical 2 (x / slots 2)).1 = 0 := by
  have hside : ¬ (fdf 2).eot ≤ x / slots 2 := by
    show ¬ 26 ≤ x / 1
    omega
  unfold physical
  rw [if_neg hside]

theorem side1_physical {x : Nat} (hx : 52 ≤ x) : (physical 3 (x / slots 3)).1 = 1 := by
  have hside : (fdf 3).eot ≤ x / slots 3 := by
    show 26 ≤ x / 2
    omega
  unfold physical
  rw [if_pos hside]

/-- **The checksum of a disk** is the sum of the records that `READ` delivers on it, each part of
the disk read in its own format. -/
theorem checksums_of_reads {sectors : List Entry} {disk : Chs → Nat → Byte} {drive cksum : Nat}
    {table16 table24 table8 : DriveTable} {reads16 reads24 : Nat → Record}
    {reads8 : Nat → Nat → Record} (hsum : computeChecksums sectors = .ok (cksum, 0))
    (hholds : Holds disk drive (findSector sectors)) (hsizes : MaxiSizes sectors)
    (h16 : table16.format drive = 2) (h24 : table24.format drive = 3)
    (h8 : table8.format drive = 1)
    (hreads16 : ∀ s < 26, Delivered table16 disk ⟨drive, 0, s⟩ (reads16 s))
    (hreads24 : ∀ s, 52 ≤ s → s < 104 → Delivered table24 disk ⟨drive, 0, s⟩ (reads24 s))
    (hreads8 : ∀ trk, 0 < trk → trk ≤ maxCyl sectors → ∀ s < 120,
      Delivered table8 disk ⟨drive, trk, s⟩ (reads8 trk s)) :
    cksum = (((List.range 26).map fun s => recordSum (reads16 s)).sum +
      ((List.range' 52 52).map fun s => recordSum (reads24 s)).sum +
      ((List.range' 1 (maxCyl sectors)).map fun trk =>
        ((List.range 120).map fun s => recordSum (reads8 trk s)).sum).sum) % 65536 := by
  have hsides : computeTrackCksum sectors 0 26 1 26 TRAN24 =
      recordsCksum sectors 2 0 (List.range 26) := by
    have htable : TRAN24 = (fspa 2).sectorXlate := by decide
    rw [htable]
    exact computeTrackCksum_eq 2 0
  have htracks : ∀ trk, computeTrackCksum sectors trk 120 3 15 TRAN8 =
      recordsCksum sectors 1 trk (List.range 120) := fun trk => computeTrackCksum_eq 1 trk
  have hsums : cksum = (((trackCksums sectors).map Prod.fst).sum) % 65536 ∧
      ((trackCksums sectors).map Prod.snd).sum = 0 := by
    unfold computeChecksums at hsum
    split_ifs at hsum
    rw [foldl_tracks (by decide), Nat.zero_add, Nat.zero_add] at hsum
    obtain ⟨hfirst, hsecond⟩ := Prod.mk.inj (Except.ok.inj hsum)
    exact ⟨hfirst.symm, hsecond⟩
  obtain ⟨rfl, hnone⟩ := hsums
  simp only [trackCksums, hsides, side1Cksum_eq, htracks, List.map_cons, List.map_map,
    List.sum_cons, Function.comp_def, Nat.add_eq_zero_iff] at hnone ⊢
  obtain ⟨hnone16, hnone24, hnone8⟩ := hnone
  have hsum16 := recordsCksum_of_reads h16 hholds (fun x hx sec data hfind => by
    rw [side0_physical (List.mem_range.mp hx)] at hfind
    exact hsizes.side0 sec data hfind) (fun x hx => hreads16 x (List.mem_range.mp hx)) hnone16
  have hsum24 := recordsCksum_of_reads h24 hholds (fun x hx sec data hfind => by
    rw [side1_physical (List.mem_range'_1.mp hx).1] at hfind
    exact hsizes.side1 sec data hfind)
    (fun x hx => hreads24 x (List.mem_range'_1.mp hx).1 (List.mem_range'_1.mp hx).2) hnone24
  have hsum8 : ∀ trk ∈ List.range' 1 (maxCyl sectors),
      (recordsCksum sectors 1 trk (List.range 120)).1 =
        ((List.range 120).map fun s => recordSum (reads8 trk s)).sum % 65536 := by
    intro trk htrk
    obtain ⟨hlo, hhi⟩ := List.mem_range'_1.mp htrk
    have hnone : (recordsCksum sectors 1 trk (List.range 120)).2 = 0 :=
      List.sum_eq_zero_iff_forall_eq_nat.mp hnone8 _ (List.mem_map_of_mem htrk)
    exact recordsCksum_of_reads h8 hholds
      (fun x _ sec data hfind => hsizes.others trk _ sec data hlo hfind)
      (fun x hx => hreads8 trk hlo (by omega) x (List.mem_range.mp hx)) hnone
  have hrest := sum_map_mod hsum8
  rw [hsum16, hsum24]
  omega

/-- A side whose sectors hold their numbers. -/
def numberedSide (cyl head : Byte) (eot size : Nat) : List Entry :=
  (List.range' 1 eot).map fun n =>
    (cyl, head, BitVec.ofNat 8 n, List.replicate size (BitVec.ofNat 8 n))

/-- Track 0 and one more. -/
def twoTracks : List Entry :=
  numberedSide 0#8 0#8 26 128 ++ numberedSide 0#8 1#8 26 256 ++
    (numberedSide 1#8 0#8 15 512 ++ numberedSide 1#8 1#8 15 512)

/-- The disk that they are read from. -/
def numberedDisk (chs : Chs) (_ : Nat) : Byte := BitVec.ofNat 8 chs.sector

theorem find_twoTracks {cyl head sec : Nat} {data : List Byte}
    (hfind : findSector twoTracks cyl head sec = some data) :
    ∃ size, data = List.replicate size (BitVec.ofNat 8 sec) ∧
      (cyl = 0 ∧ head = 0 ∧ size = 128 ∨ cyl = 0 ∧ head = 1 ∧ size = 256 ∨
        cyl = 1 ∧ size = 512) := by
  obtain ⟨e, he, rfl⟩ := Option.map_eq_some_iff.mp hfind
  have hwhere := List.find?_some he
  simp only [decide_eq_true_eq] at hwhere
  obtain ⟨rfl, rfl, rfl⟩ := hwhere
  rw [BitVec.ofNat_toNat, BitVec.setWidth_eq]
  rcases List.mem_append.mp (List.mem_of_find?_eq_some he) with hmem | hmem
  · rcases List.mem_append.mp hmem with hmem | hmem
    · obtain ⟨n, -, rfl⟩ := List.mem_map.mp hmem
      exact ⟨128, rfl, .inl ⟨rfl, rfl, rfl⟩⟩
    · obtain ⟨n, -, rfl⟩ := List.mem_map.mp hmem
      exact ⟨256, rfl, .inr (.inl ⟨rfl, rfl, rfl⟩)⟩
  · rcases List.mem_append.mp hmem with hmem | hmem
    · obtain ⟨n, -, rfl⟩ := List.mem_map.mp hmem
      exact ⟨512, rfl, .inr (.inr ⟨rfl, rfl⟩)⟩
    · obtain ⟨n, -, rfl⟩ := List.mem_map.mp hmem
      exact ⟨512, rfl, .inr (.inr ⟨rfl, rfl⟩)⟩

/-- The bytes of a sector are its number, and need not be added one by one. -/
theorem addChunk_twoTracks {cyl head sec o : Nat} {sum : Nat × Nat} :
    addChunk (findSector twoTracks cyl head sec) o sum =
      if (findSector twoTracks cyl head sec).isSome then
        ((sum.1 + min 128 ((if cyl = 0 then if head = 0 then 128 else 256 else 512) - o) *
          (BitVec.ofNat 8 sec).toNat) &&& 0xFFFF, sum.2)
      else (sum.1, sum.2 + 1) := by
  cases hfind : findSector twoTracks cyl head sec with
  | none => rfl
  | some data =>
      obtain ⟨size, rfl, hwhere⟩ := find_twoTracks hfind
      have hsize : (if cyl = 0 then if head = 0 then 128 else 256 else 512) = size := by
        obtain ⟨rfl, rfl, rfl⟩ | ⟨rfl, rfl, rfl⟩ | ⟨rfl, rfl⟩ := hwhere <;> rfl
      rw [hsize, addChunk, List.drop_replicate, List.take_replicate, List.map_replicate,
        List.sum_replicate_nat]
      rfl

/-- Drives of one format. -/
def uniform (code : Nat) : DriveTable := ⟨fun _ => code, 1⟩

/-- What `READ` delivers there, on drives of one format. -/
def numberedRecord (code trk s : Nat) : Record :=
  recordAt (uniform code) numberedDisk ⟨0, trk, s⟩

theorem checksums_of_reads_twoTracks :
    computeChecksums twoTracks = .ok (0xEE80, 0) ∧
      0xEE80 = (((List.range 26).map fun s => recordSum (numberedRecord 16 0 s)).sum +
        ((List.range' 52 52).map fun s => recordSum (numberedRecord 24 0 s)).sum +
        ((List.range' 1 (maxCyl twoTracks)).map fun trk =>
          ((List.range 120).map fun s => recordSum (numberedRecord 8 trk s)).sum).sum) % 65536 ∧
      maxCyl twoTracks = 1 := by
  have hsum : computeChecksums twoTracks = .ok (0xEE80, 0) := by
    unfold computeChecksums trackCksums computeTrackCksum side1Cksum
    simp only [addChunk_twoTracks]
    decide +kernel
  have hmax : maxCyl twoTracks = 1 := by decide +kernel
  have hholds : Holds numberedDisk 0 (findSector twoTracks) := by
    intro cyl head sec data hfind k hk
    obtain ⟨size, rfl, -⟩ := find_twoTracks hfind
    rw [List.getD_eq_getElem _ _ hk, List.getElem_replicate]
    rfl
  have hsizes : MaxiSizes twoTracks := by
    constructor
    · intro sec data hfind
      obtain ⟨size, rfl, hwhere⟩ := find_twoTracks hfind
      rw [List.length_replicate]
      omega
    · intro sec data hfind
      obtain ⟨size, rfl, hwhere⟩ := find_twoTracks hfind
      rw [List.length_replicate]
      omega
    · intro trk head sec data hpos hfind
      obtain ⟨size, rfl, hwhere⟩ := find_twoTracks hfind
      rw [List.length_replicate]
      omega
  refine ⟨hsum, @checksums_of_reads twoTracks numberedDisk 0 0xEE80 (uniform 16)
    (uniform 24) (uniform 8) (numberedRecord 16 0) (numberedRecord 24 0) (numberedRecord 8)
    hsum hholds hsizes rfl rfl rfl ?_ ?_ ?_, hmax⟩
  · intro s hs
    exact delivered_recordAt ⟨Nat.zero_lt_two, Nat.succ_pos 76, hs⟩
  · intro s _ hs
    exact delivered_recordAt ⟨Nat.zero_lt_two, Nat.succ_pos 76, hs⟩
  · intro trk hlo hhi s hs
    have htrk : trk < 77 := by omega
    exact delivered_recordAt ⟨Nat.zero_lt_two, htrk, hs⟩

end Disk
end Rc700

namespace Rc700
namespace Formats
namespace VerifyAgainstImd

/-! ### `verify_against_imd.py` -/

/-- `XLT`, by the sectors of a track. -/
def XLT : Nat → Option (List Nat)
  | 15 => some [1, 5, 9, 13, 2, 6, 10, 14, 3, 7, 11, 15, 4, 8, 12]
  | 9 => some [1, 3, 5, 7, 9, 2, 4, 6, 8]
  | 10 => some [1, 3, 5, 7, 9, 2, 4, 6, 8, 10]
  | _ => none

inductive ExtractError
  | imd (e : ImdError)
  /-- "no track 1 in IMD" -/
  | noTrack
  /-- "unsupported geometry" -/
  | geometry (spt : Nat)
  /-- "expected 512B sectors" -/
  | sectors (sectsize : Nat)
  | index
  | key
  deriving DecidableEq, Repr

/-- `{s[0]: s[1] for s in side[5]}`: of two sectors with one number, the last. -/
def sideSector (side : ImdTrack) (physId : Nat) : Option (List Byte) :=
  (side.sectors.reverse.find? fun s => s.1.toNat = physId).map Prod.snd

/-- A record of the loop over `num_cpm_sectors`. -/
def logicalRecord (t1 : List ImdTrack) (spt : Nat) (xlt : List Nat) (cpm : Nat) :
    Except ExtractError (List Byte) :=
  let host := cpm >>> 2
  let side := host / spt
  let offset := (cpm &&& 3) * 128
  match t1[side]?, xlt[host % spt]? with
  | some t, some physId =>
      match sideSector t physId with
      | some data => .ok ((data.drop offset).take 128)
      | none => .error .key
  | _, _ => .error .index

/-- `for cpm in range(num_cpm_sectors)` -/
def logicalRecords (t1 : List ImdTrack) (spt : Nat) (xlt : List Nat) :
    List Nat → Except ExtractError (List Byte)
  | [] => .ok []
  | cpm :: cpms => do
      let record ← logicalRecord t1 spt xlt cpm
      let rest ← logicalRecords t1 spt xlt cpms
      .ok (record ++ rest)

/-- The tracks of cylinder 1, sorted by their heads. -/
def track1 (tracks : List ImdTrack) : List ImdTrack :=
  (tracks.filter fun t => t.cyl = 1#8).mergeSort fun t t' => decide (t.head.toNat ≤ t'.head.toNat)

/-- `extract_ccp_bdos_from_imd`, behind `parse_imd`. -/
def extractFrom (tracks : List ImdTrack) (numCpmSectors : Nat) :
    Except ExtractError (List Byte) :=
  match track1 tracks with
  | [] => .error .noTrack
  | first :: sides =>
      match XLT first.nsect with
      | none => .error (.geometry first.nsect)
      | some xlt =>
          if first.sectsize ≠ 512 then .error (.sectors first.sectsize)
          else logicalRecords (first :: sides) first.nsect xlt (List.range numCpmSectors)

/-- `extract_ccp_bdos_from_imd` -/
def extractCcpBdosFromImd (data : List Byte) (numCpmSectors : Nat) :
    Except ExtractError (List Byte) := do
  let (tracks, _) ← (parseImd data).mapError ExtractError.imd
  extractFrom tracks numCpmSectors

end VerifyAgainstImd
end Formats

namespace Disk

open Library Formats Formats.VerifyAgainstImd

/-! ### What a boot loads -/

section Booting

variable {table : DriveTable} {fdc : Nat → Attempt} {disk : Chs → Nat → Byte}

/-- The records of the script, one behind the other. -/
theorem logicalRecords_eq {t1 : List ImdTrack} {spt : Nat} {xlt cpms : List Nat}
    {bytes : List Byte} {record : Nat → List Byte}
    (hrecord : ∀ cpm ∈ cpms, ∀ data, logicalRecord t1 spt xlt cpm = .ok data → data = record cpm)
    (h : logicalRecords t1 spt xlt cpms = .ok bytes) : bytes = cpms.flatMap record := by
  induction cpms generalizing bytes with
  | nil => exact (Except.ok.inj h).symm
  | cons cpm cpms ih =>
      obtain ⟨hfirst, hcpms⟩ := List.forall_mem_cons.mp hrecord
      rw [logicalRecords] at h
      cases hdata : logicalRecord t1 spt xlt cpm with
      | error e =>
          rw [hdata] at h
          exact nomatch h
      | ok data =>
          cases hrest : logicalRecords t1 spt xlt cpms with
          | error e =>
              rw [hdata, hrest] at h
              exact nomatch h
          | ok rest =>
              rw [hdata, hrest] at h
              rw [← Except.ok.inj h, hfirst data hdata, ih hcpms hrest, List.flatMap_cons]

theorem logicalRecords_ok {t1 : List ImdTrack} {spt : Nat} {xlt cpms : List Nat}
    {record : Nat → List Byte}
    (hrecord : ∀ cpm ∈ cpms, logicalRecord t1 spt xlt cpm = .ok (record cpm)) :
    logicalRecords t1 spt xlt cpms = .ok (cpms.flatMap record) := by
  induction cpms with
  | nil => rfl
  | cons cpm cpms ih =>
      obtain ⟨hfirst, hcpms⟩ := List.forall_mem_cons.mp hrecord
      rw [logicalRecords, hfirst, ih hcpms, List.flatMap_cons]
      rfl

/-- The record that the script takes from side 0 is the one that the driver reads. -/
theorem logicalRecord_eq {first : ImdTrack} {sides : List ImdTrack} {s : Nat} {record : List Byte}
    (hformat : table.format 0 = 1) (hs : s < NSECTS)
    (hsizes : ∀ sector ∈ first.sectors, sector.2.length = 512)
    (hholds : ∀ sec data, sideSector first sec = some data → ∀ k < data.length,
      disk ⟨0, 1, 0, sec⟩ k = data.getD k 0#8)
    (h : logicalRecord (first :: sides) 15 xltMaxi512 s = .ok record) :
    record = List.ofFn (recordAt table disk ⟨0, 1, s⟩) := by
  have hquarter : s >>> 2 = s / 4 := Nat.shiftRight_eq_div_pow s 2
  have hrest : s &&& 3 = s % 4 := Nat.and_two_pow_sub_one_eq_mod s 2
  have hlt : s / 4 < 15 := by
    simp only [NSECTS] at hs
    omega
  have hphys : xltMaxi512[s / 4]? = some (xltMaxi512.getD (s / 4) 0) := by
    rw [List.getD_eq_getElem _ _ hlt]
    exact List.getElem?_eq_getElem hlt
  have hwhere : recordAt table disk ⟨0, 1, s⟩ =
      slotOf (disk ⟨0, 1, 0, xltMaxi512.getD (s / 4) 0⟩) (s % 4) := by
    have hphysical : physical 1 (s / 4) = (0, xltMaxi512.getD (s / 4) 0) := by
      have hside : ¬ (fdf 1).eot ≤ s / 4 := Nat.not_le.mpr hlt
      unfold physical
      rw [if_neg hside]
      rfl
    rw [recordAt, hformat]
    show slotOf (disk ⟨0, 1, (physical 1 (s / 4)).1, (physical 1 (s / 4)).2⟩) (s % 4) = _
    rw [hphysical]
  unfold logicalRecord at h
  rw [hquarter, hrest] at h
  dsimp only at h
  rw [Nat.div_eq_of_lt hlt, Nat.mod_eq_of_lt hlt, hphys, List.getElem?_cons_zero] at h
  dsimp only at h
  cases hfind : sideSector first (xltMaxi512.getD (s / 4) 0) with
  | none =>
      rw [hfind] at h
      cases h
  | some data =>
      rw [hfind] at h
      have hlen : data.length = 512 := by
        obtain ⟨sector, hsector, rfl⟩ := Option.map_eq_some_iff.mp hfind
        exact hsizes sector (List.mem_reverse.mp (List.mem_of_find?_eq_some hsector))
      have hslot : (s % 4 + 1) * 128 ≤ data.length := by omega
      rw [← Except.ok.inj h, hwhere, chunk_eq hslot]
      refine congrArg List.ofFn (funext fun i => ?_)
      have hi : s % 4 * 128 + i < data.length := by
        have hi := i.isLt
        omega
      exact (hholds _ data hfind _ hi).symm

theorem length_records (reads : Nat → Record) (count : Nat) :
    ((List.range count).flatMap fun s => List.ofFn (reads s)).length = count * 128 := by
  induction count with
  | zero => rfl
  | succ count ih =>
      rw [List.range_succ, List.flatMap_append, List.flatMap_singleton, List.length_append, ih,
        List.length_ofFn, Nat.succ_mul]

/-- A byte of records that are one behind the other. -/
theorem getElem_records {reads : Nat → Record} {count i : Nat}
    (hi : i < ((List.range count).flatMap fun s => List.ofFn (reads s)).length) :
    ((List.range count).flatMap fun s => List.ofFn (reads s))[i] =
      reads (i / 128) ⟨i % 128, Nat.mod_lt i (by decide)⟩ := by
  induction count with
  | zero => exact absurd hi (Nat.not_lt_zero _)
  | succ count ih =>
      have hlen := length_records reads count
      have hlt : i < count * 128 + 128 := by
        rw [length_records] at hi
        omega
      simp only [List.range_succ, List.flatMap_append, List.flatMap_singleton]
      by_cases hbefore : i < count * 128
      · rw [List.getElem_append_left (by rw [hlen]; exact hbefore)]
        exact ih (by rw [hlen]; exact hbefore)
      · rw [List.getElem_append_right (by rw [hlen]; omega), List.getElem_ofFn]
        have hdiv : i / 128 = count := by omega
        have hmod : i % 128 = i - count * 128 := by omega
        simp only [hlen, hdiv, hmod]

/-- The sectors of a track of an image have its size. -/
theorem sizes_of_image {raw : List Byte} {tracks : List ImdTrack}
    (hread : parseImd raw = .ok (tracks, raw.length)) {t : ImdTrack} (ht : t ∈ tracks) :
    ∀ sector ∈ t.sectors, sector.2.length = t.sectsize := by
  obtain ⟨image, -, rfl⟩ := accepts_iff.mp hread
  obtain ⟨track, -, rfl⟩ := List.mem_map.mp ht
  intro sector hsector
  obtain ⟨s, -, rfl⟩ := List.mem_map.mp hsector
  cases s.2 with
  | absent => exact List.length_replicate
  | full _ _ hlen => exact hlen
  | filled _ _ => exact List.length_replicate

/-- **A boot loads the bytes** that the script extracts from the image of the disk: `wboot_c`, from
the state that `bios_hw_init` leaves, puts them at `CCP_BASE`. -/
theorem boot_loads_extracted {raw bytes : List Byte} {tracks sides : List ImdTrack}
    {first : ImdTrack} (mem : Word → Byte) (hfdc : FaultFree fdc) (hformat : table.format 0 = 1)
    (hread : parseImd raw = .ok (tracks, raw.length)) (htrack1 : track1 tracks = first :: sides)
    (hspt : first.nsect = 15)
    (hholds : ∀ sec data, sideSector first sec = some data → ∀ k < data.length,
      disk ⟨0, 1, 0, sec⟩ k = data.getD k 0#8)
    (hextract : extractCcpBdosFromImd raw NSECTS = .ok bytes) :
    ∃ m drive, wbootC table fdc (biosHwInit table mem disk) = some (m, drive) ∧
      bytes.length = NSECTS * 128 ∧
      ∀ i (hi : i < bytes.length), m.mem (CCP_BASE + BitVec.ofNat 16 i) = bytes[i] := by
  have hspt' : NSECTS ≤ (fspa (table.format 0)).cpmSectorsPerTrack := by
    rw [hformat]
    decide
  obtain ⟨m, drive, hboot, hbooted⟩ := wbootLoad_booted hfdc hspt'
    (steady_boot table fdc mem disk) (biosSeldskC_disk table fdc _)
  have hbytes : bytes = (List.range NSECTS).flatMap fun s =>
      List.ofFn (recordAt table disk ⟨0, 1, s⟩) := by
    have hmem : first ∈ tracks := by
      have hfirst : first ∈ track1 tracks := htrack1 ▸ List.mem_cons_self
      exact List.mem_of_mem_filter (List.mem_mergeSort.mp hfirst)
    rw [extractCcpBdosFromImd, hread] at hextract
    change extractFrom tracks NSECTS = .ok bytes at hextract
    rw [extractFrom, htrack1] at hextract
    dsimp only at hextract
    rw [hspt] at hextract
    change (if first.sectsize ≠ 512 then .error (.sectors first.sectsize)
      else logicalRecords (first :: sides) 15 xltMaxi512 (List.range NSECTS)) = _ at hextract
    split_ifs at hextract with hsize
    have hsize : first.sectsize = 512 := not_not.mp hsize
    refine logicalRecords_eq (fun s hs data hdata => ?_) hextract
    exact logicalRecord_eq hformat (List.mem_range.mp hs)
      (fun sector hsector => (sizes_of_image hread hmem sector hsector).trans hsize) hholds hdata
  subst hbytes
  refine ⟨m, drive, hboot, length_records _ _, fun i hi => ?_⟩
  have hi' : i < NSECTS * 128 := by
    rw [length_records] at hi
    exact hi
  have hstored : contents table (originals table disk) (boot table fdc mem disk).log
      ⟨0, 1, i / 128⟩ = some (recordAt table disk ⟨0, 1, i / 128⟩) := by
    rw [boot_log]
    rfl
  have hloaded := hbooted.loaded (i / 128) (by omega) _ hstored
    ⟨i % 128, Nat.mod_lt i (by decide)⟩
  rw [getElem_records hi, ← hloaded, ccpAddr, Nat.div_add_mod]

end Booting

/-- A track of the image of a disk: each sector filled with its number. -/
def numberedImage : Formats.Image where
  comment := []
  unended := unended_nil
  tracks := [{
    mode := 5#8
    cyl := 1#8
    head := ⟨0, zero_lt_heads⟩
    sizeCode := 2#8
    sectors := (List.range' 1 15).map fun n =>
      (BitVec.ofNat 8 n, .filled ⟨0, zero_lt_flags⟩ (BitVec.ofNat 8 n))
    count := by simp
    cylMap := none
    headMap := none }]

def numberedTrack : ImdTrack :=
  ⟨1#8, 0#8, 5#8, 15, 512, (List.range' 1 15).map fun n =>
    (BitVec.ofNat 8 n, List.replicate 512 (BitVec.ofNat 8 n))⟩

theorem parseImd_numberedImage :
    parseImd numberedImage.bytes = .ok ([numberedTrack], numberedImage.bytes.length) := by
  rw [VerifyAgainstImd.parseImd_bytes]
  refine congrArg (fun track => Except.ok ([track], numberedImage.bytes.length)) ?_
  decide +kernel

theorem track1_numberedTrack : track1 [numberedTrack] = [numberedTrack] := by
  rw [track1, List.filter_cons_of_pos (by decide), List.filter_nil, List.mergeSort_singleton]

theorem logicalRecords_numberedTrack :
    logicalRecords [numberedTrack] 15 xltMaxi512 (List.range NSECTS) =
      .ok ((List.range NSECTS).flatMap fun s =>
        List.replicate 128 (BitVec.ofNat 8 (xltMaxi512.getD (s / 4) 0))) := by
  have hrecord : ∀ s < NSECTS, logicalRecord [numberedTrack] 15 xltMaxi512 s =
      .ok (List.replicate 128 (BitVec.ofNat 8 (xltMaxi512.getD (s / 4) 0))) := by
    decide +kernel
  exact logicalRecords_ok fun s hs => hrecord s (List.mem_range.mp hs)

theorem boot_loads_extracted_numbered :
    ∃ bytes m drive, extractCcpBdosFromImd numberedImage.bytes NSECTS = .ok bytes ∧
      wbootC (uniform 8) reliable (biosHwInit (uniform 8) (fun _ => 0#8)
        fun chs _ => BitVec.ofNat 8 chs.sector) = some (m, drive) ∧
      bytes.length = NSECTS * 128 ∧
      ∀ i (hi : i < bytes.length), m.mem (CCP_BASE + BitVec.ofNat 16 i) = bytes[i] := by
  have hextract : extractCcpBdosFromImd numberedImage.bytes NSECTS =
      logicalRecords [numberedTrack] 15 xltMaxi512 (List.range NSECTS) := by
    rw [extractCcpBdosFromImd, parseImd_numberedImage]
    change extractFrom [numberedTrack] NSECTS = _
    rw [extractFrom, track1_numberedTrack]
    rfl
  rw [logicalRecords_numberedTrack] at hextract
  have hholds : ∀ sec data, sideSector numberedTrack sec = some data → ∀ k < data.length,
      BitVec.ofNat 8 sec = data.getD k 0#8 := by
    intro sec data hfind k hk
    obtain ⟨sector, hsector, rfl⟩ := Option.map_eq_some_iff.mp hfind
    have hnumber := List.find?_some hsector
    have hmem := List.mem_reverse.mp (List.mem_of_find?_eq_some hsector)
    obtain ⟨n, -, rfl⟩ := List.mem_map.mp hmem
    rw [List.getD_eq_getElem _ _ hk, List.getElem_replicate]
    simp only [decide_eq_true_eq] at hnumber
    rw [← hnumber, BitVec.ofNat_toNat, BitVec.setWidth_eq]
  obtain ⟨m, drive, hboot⟩ := @boot_loads_extracted (uniform 8) reliable
    (fun chs _ => BitVec.ofNat 8 chs.sector) numberedImage.bytes _ _ _ _ (fun _ => 0#8)
    reliable_faultFree rfl parseImd_numberedImage track1_numberedTrack rfl hholds hextract
  exact ⟨_, m, drive, hextract, hboot⟩

end Disk
end Rc700
