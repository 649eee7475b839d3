import Rc700.Formats.ImdImages
import Mathlib.Data.List.Dedup

/-!
# Putting a BIOS on an image

`patch` of `patch_bios.py`.  It writes the bytes of a `.cim` over the sectors of Track 0 in the
order of their numbers, first those of side 0 and then those of side 1, and leaves what is
behind them.

`extract_track0` of the file that it writes gives the `.cim` back, followed by what was there
before, and every other track is copied as it is (`patch_extracts`).  This asks for a Track 0
without the optional maps: `write_track` writes the bits that announce them, and not the maps.
-/

namespace Rc700
namespace Formats
namespace PatchBios

/-- A track of `parse_imd`: what is read, the bytes in front of it, and where it is. -/
structure Trk where
  imd : ImdTrack
  headByte : Byte
  sectsizeCode : Byte
  secnums : List Byte
  rawStart : Nat
  rawEnd : Nat

def trkAt (data : List Byte) (imd : ImdTrack) (pos next : Nat) : Trk :=
  ⟨imd, data.getD (pos + 2) 0#8, data.getD (pos + 4) 0#8, (data.drop (pos + 5)).take imd.nsect, pos,
    next⟩

/-- `while pos < len(data)` -/
def readTrks (data : List Byte) (pos : Nat) : Except ImdError (List Trk) :=
  if pos < data.length then
    match _h : readTrack VerifyAgainstImd.sectorReader 0x3F#8 data pos with
    | .error e => .error e
    | .ok (imd, next) => (readTrks data next).map (trkAt data imd pos next :: ·)
  else .ok []
termination_by data.length - pos
decreasing_by
  have := readTrack_lt _h
  omega

/-- `parse_imd`: the header and the tracks. -/
def parseImd (data : List Byte) : Except ImdError (List Byte × List Trk) :=
  match data.idxOf? 0x1A#8 with
  | none => .error .value
  | some hdrEnd => (readTrks data (hdrEnd + 1)).map fun tracks => (data.take (hdrEnd + 1), tracks)

inductive PatchError
  | imd (e : ImdError)
  | key
  | exit
  deriving DecidableEq, Repr

/-- `data_map[secnum]`: of two sectors with one number, the last. -/
def dataMap (sectorsData : List (Byte × List Byte)) (secnum : Byte) : Option (List Byte) :=
  (sectorsData.reverse.find? fun s => s.1 = secnum).map Prod.snd

/-- A record: one byte for a sector of equal bytes. -/
def recordBytes (sdata : List Byte) : List Byte :=
  match sdata.dedup with
  | [b] => [0x02#8, b]
  | _ => 0x01#8 :: sdata

/-- `for secnum in trk['secnums']` -/
def writeRecords (sectorsData : List (Byte × List Byte)) : List Byte → Except PatchError (List Byte)
  | [] => .ok []
  | secnum :: secnums =>
      match dataMap sectorsData secnum with
      | none => .error .key
      | some sdata => (writeRecords sectorsData secnums).map (recordBytes sdata ++ ·)

/-- `write_track` -/
def writeTrack (trk : Trk) (sectorsData : List (Byte × List Byte)) :
    Except PatchError (List Byte) :=
  (writeRecords sectorsData trk.secnums).map fun records =>
    [trk.imd.mode, trk.imd.cyl, trk.headByte, BitVec.ofNat 8 trk.imd.nsect, trk.sectsizeCode] ++
      (trk.secnums ++ records)

/-- `for secnum, orig_data in sorted_s0`: the new sectors, and `cim_pos`. -/
def fill (cimData : List Byte) (ss : Nat) :
    (cimPos : Nat) → List (Byte × List Byte) → List (Byte × List Byte) × Nat
  | cimPos, [] => ([], cimPos)
  | cimPos, (secnum, origData) :: sectors =>
      if cimPos < cimData.length then
        let remaining := cimData.length - cimPos
        let data :=
          if ss ≤ remaining then (cimData.drop cimPos).take ss
          else (cimData.drop cimPos).take remaining ++ origData.drop remaining
        let (rest, cimPos) := fill cimData ss (cimPos + ss) sectors
        ((secnum, data) :: rest, cimPos)
      else
        let (rest, cimPos) := fill cimData ss cimPos sectors
        ((secnum, origData) :: rest, cimPos)

/-- What is written for a track. -/
def rebuild (imdData : List Byte) (newS0 : List (Byte × List Byte))
    (newS1 : Option (List (Byte × List Byte))) (trk : Trk) : Except PatchError (List Byte) :=
  let verbatim := (imdData.drop trk.rawStart).take (trk.rawEnd - trk.rawStart)
  if trk.imd.cyl = 0#8 ∧ trk.imd.head = 0#8 then writeTrack trk newS0
  else if trk.imd.cyl = 0#8 ∧ trk.imd.head = 1#8 then
    match newS1 with
    | some newS1 => writeTrack trk newS1
    | none => .ok verbatim
  else .ok verbatim

/-- `for trk in tracks` -/
def rebuildAll (imdData : List Byte) (newS0 : List (Byte × List Byte))
    (newS1 : Option (List (Byte × List Byte))) : List Trk → Except PatchError (List Byte)
  | [] => .ok []
  | trk :: tracks => do
      let bytes ← rebuild imdData newS0 newS1 trk
      let rest ← rebuildAll imdData newS0 newS1 tracks
      .ok (bytes ++ rest)

/-- The capacity of a side. -/
def total (trk : Trk) : Nat := trk.imd.nsect * trk.imd.sectsize

/-- `patch`: the file that is written. -/
def patch (imdData cimData : List Byte) : Except PatchError (List Byte) := do
  let (header, tracks) ← (parseImd imdData).mapError PatchError.imd
  let t0Tracks := tracks.filter fun t => t.imd.cyl = 0#8
  match t0Tracks.find? fun t => t.imd.head = 0#8 with
  | none => .error .exit
  | some t0s0 =>
      let t0s1 := t0Tracks.find? fun t => t.imd.head = 1#8
      if total t0s0 + (t0s1.map total).getD 0 < cimData.length then .error .exit
      else
        let (newS0, cimPos) :=
          fill cimData t0s0.imd.sectsize 0 (Imd2raw.sortSectors t0s0.imd.sectors)
        let newS1 := t0s1.bind fun t0s1 =>
          if cimPos < cimData.length then
            some (fill cimData t0s1.imd.sectsize cimPos (Imd2raw.sortSectors t0s1.imd.sectors)).1
          else none
        (rebuildAll imdData newS0 newS1 tracks).map (header ++ ·)

/-! ### Filling sectors -/

/-- The first sequence in front of what it does not reach of the second. -/
def overlay {α : Type*} (xs ys : List α) : List α := xs.take ys.length ++ ys.drop xs.length

section Overlay

variable {α : Type*} (xs : List α)

theorem length_overlay (ys : List α) : (overlay xs ys).length = ys.length := by
  rw [overlay, List.length_append, List.length_take, List.length_drop]
  omega

theorem overlay_append (ys zs : List α) :
    overlay xs (ys ++ zs) = overlay xs ys ++ overlay (xs.drop ys.length) zs := by
  unfold overlay
  rw [List.length_append, List.length_drop, List.drop_append, List.take_add]
  by_cases hlen : ys.length ≤ xs.length
  · rw [List.drop_eq_nil_of_le hlen, List.nil_append, List.append_nil, List.append_assoc]
  · rw [List.drop_eq_nil_of_le (by omega : xs.length ≤ ys.length)]
    simp [Nat.sub_eq_zero_of_le (Nat.le_of_not_le hlen)]

theorem overlay_nil (ys : List α) : overlay [] ys = ys := by simp [overlay]

theorem overlay_of_le {ys : List α} (h : xs.length ≤ ys.length) :
    overlay xs ys = xs ++ ys.drop xs.length := by
  rw [overlay, List.take_of_length_le h]

end Overlay

section Filling

variable {cimData : List Byte} {ss : Nat}

/-- The sectors that `fill` writes. -/
structure Filled (cimData : List Byte) (ss cimPos : Nat) (sectors : List (Byte × List Byte))
    (run : List (Byte × List Byte) × Nat) : Prop where
  numbers : run.1.map Prod.fst = sectors.map Prod.fst
  sizes : ∀ s ∈ run.1, s.2.length = ss
  data : run.1.flatMap Prod.snd = overlay (cimData.drop cimPos) (sectors.flatMap Prod.snd)
  left : cimData.drop run.2 = (cimData.drop cimPos).drop (sectors.flatMap Prod.snd).length

theorem fill_filled {sectors : List (Byte × List Byte)} (hsizes : ∀ s ∈ sectors, s.2.length = ss)
    (cimPos : Nat) : Filled cimData ss cimPos sectors (fill cimData ss cimPos sectors) := by
  induction sectors generalizing cimPos with
  | nil => exact ⟨rfl, fun _ hmem => (nomatch hmem), by simp [fill, overlay], by simp [fill]⟩
  | cons s sectors ih =>
      obtain ⟨secnum, origData⟩ := s
      obtain ⟨hsize, hsizes⟩ := List.forall_mem_cons.mp hsizes
      dsimp only at hsize
      rw [fill]
      by_cases hpos : cimPos < cimData.length
      · rw [if_pos hpos]
        dsimp only
        have hdata : (if ss ≤ cimData.length - cimPos then (cimData.drop cimPos).take ss
            else (cimData.drop cimPos).take (cimData.length - cimPos) ++
              origData.drop (cimData.length - cimPos)) =
            overlay (cimData.drop cimPos) origData := by
          rw [overlay, List.length_drop, hsize]
          split_ifs with hfull
          · have hnone : origData.drop (cimData.length - cimPos) = [] :=
              List.drop_eq_nil_of_le (by omega)
            rw [hnone, List.append_nil]
          · rw [List.take_of_length_le (by rw [List.length_drop]),
              List.take_of_length_le (by rw [List.length_drop]; omega)]
        obtain ⟨hnumbers, hlens, hflat, hleft⟩ := ih hsizes (cimPos + ss)
        rw [hdata]
        refine ⟨by simp [hnumbers], ?_, ?_, ?_⟩
        · refine List.forall_mem_cons.mpr ⟨?_, hlens⟩
          rw [length_overlay, hsize]
        · rw [List.flatMap_cons, List.flatMap_cons, overlay_append, hflat, List.drop_drop, hsize]
        · rw [hleft, List.flatMap_cons, List.length_append, hsize, List.drop_drop, List.drop_drop]
          congr 1
          omega
      · rw [if_neg hpos]
        dsimp only
        have hnil : cimData.drop cimPos = [] := List.drop_eq_nil_of_le (Nat.not_lt.mp hpos)
        obtain ⟨hnumbers, hlens, hflat, hleft⟩ := ih hsizes cimPos
        refine ⟨by simp [hnumbers], List.forall_mem_cons.mpr ⟨hsize, hlens⟩, ?_, ?_⟩
        · rw [List.flatMap_cons, hflat, hnil, overlay_nil, overlay_nil, List.flatMap_cons]
        · rw [hleft, hnil, List.drop_nil, List.drop_nil]

end Filling

/-! ### Sectors by their numbers -/

section Numbers

variable {sectors : List (Byte × List Byte)}

/-- Sorted sectors of different numbers are what sorting gives of them in any order. -/
theorem sort_of_perm {sectors' : List (Byte × List Byte)} (hperm : sectors.Perm sectors')
    (hnodup : (sectors'.map Prod.fst).Nodup)
    (hsorted : sectors'.Pairwise fun s s' => s.1.toNat ≤ s'.1.toNat) :
    Imd2raw.sortSectors sectors = sectors' := by
  have hsort : (Imd2raw.sortSectors sectors).Pairwise fun s s' => s.1.toNat ≤ s'.1.toNat := by
    refine (List.pairwise_mergeSort (fun a b c hab hbc => ?_) (fun a b => ?_) sectors).imp
      of_decide_eq_true
    · exact decide_eq_true ((of_decide_eq_true hab).trans (of_decide_eq_true hbc))
    · rw [Bool.or_eq_true, decide_eq_true_eq, decide_eq_true_eq]
      exact Nat.le_total _ _
  have hsorts : (Imd2raw.sortSectors sectors).Perm sectors' :=
    (List.mergeSort_perm sectors _).trans hperm
  refine hsorts.eq_of_pairwise (fun s s' hs hs' hle hle' => ?_) hsort hsorted
  exact List.inj_on_of_nodup_map hnodup (hsorts.mem_iff.mp hs) hs'
    (BitVec.eq_of_toNat_eq (Nat.le_antisymm hle hle'))

/-- Of sectors with different numbers each is found. -/
theorem dataMap_of_mem (hnodup : (sectors.map Prod.fst).Nodup) {s : Byte × List Byte}
    (hs : s ∈ sectors) : dataMap sectors s.1 = some s.2 := by
  unfold dataMap
  cases hfind : sectors.reverse.find? fun s' => s'.1 = s.1 with
  | none =>
      have hnone := List.find?_eq_none.mp hfind s (List.mem_reverse.mpr hs)
      simp at hnone
  | some s' =>
      have hs' : s' ∈ sectors := List.mem_reverse.mp (List.mem_of_find?_eq_some hfind)
      have hnumber : s'.1 = s.1 := by simpa using List.find?_some hfind
      rw [List.inj_on_of_nodup_map hnodup hs' hs hnumber]
      rfl

end Numbers

/-! ### A track with new sectors -/

/-- The record of a new sector. -/
def newRecord (size : Nat) (sdata : List Byte) : Record size :=
  match sdata.dedup with
  | [b] => .filled ⟨0, zero_lt_flags⟩ b
  | _ => if hlen : sdata.length = size then .full ⟨0, zero_lt_flags⟩ sdata hlen else .absent

section NewRecord

variable {size : Nat} {sdata : List Byte}

theorem bytes_newRecord (hlen : sdata.length = size) :
    (newRecord size sdata).bytes = recordBytes sdata := by
  unfold newRecord recordBytes
  split
  · rfl
  · rw [dif_pos hlen]
    rfl

theorem data_newRecord (hlen : sdata.length = size) : (newRecord size sdata).data = sdata := by
  unfold newRecord
  split
  · rename_i b hdedup
    refine (List.eq_replicate_iff.mpr ⟨hlen, fun c hc => ?_⟩).symm
    rw [← List.mem_dedup, hdedup] at hc
    exact List.mem_singleton.mp hc
  · rw [dif_pos hlen]
    rfl

end NewRecord

/-- The track with new sectors, and without the maps. -/
def rewritten (t : Track) (sectorsData : List (Byte × List Byte)) : Track where
  mode := t.mode
  cyl := t.cyl
  head := t.head
  sizeCode := t.sizeCode
  sectors := t.sectors.map fun s => (s.1, newRecord _ ((dataMap sectorsData s.1).getD []))
  count := by rw [List.length_map]; exact t.count
  cylMap := none
  headMap := none

/-- A side of Track 0 that can be written. -/
structure Side (t : Track) : Prop where
  numbers : (t.sectors.map Prod.fst).Nodup
  some : t.sectors ≠ []
  cylMap : t.cylMap = none
  headMap : t.headMap = none

/-- Sectors for each number of the track. -/
structure Fits (t : Track) (sectorsData : List (Byte × List Byte)) : Prop where
  numbers : (sectorsData.map Prod.fst).Perm (t.sectors.map Prod.fst)
  sizes : ∀ s ∈ sectorsData, s.2.length = t.size
  sorted : sectorsData.Pairwise fun s s' => s.1.toNat ≤ s'.1.toNat

section Rewriting

variable {t : Track} {sectorsData : List (Byte × List Byte)}

theorem Fits.dataMap (hfits : Fits t sectorsData) (hside : Side t) {s : Byte × List Byte}
    (hs : s ∈ sectorsData) : PatchBios.dataMap sectorsData s.1 = some s.2 :=
  dataMap_of_mem (hfits.numbers.nodup_iff.mpr hside.numbers) hs

theorem Fits.found (hfits : Fits t sectorsData) (hside : Side t) {secnum : Byte}
    (hmem : secnum ∈ t.sectors.map Prod.fst) :
    ∃ sdata, PatchBios.dataMap sectorsData secnum = some sdata ∧ sdata.length = t.size := by
  obtain ⟨s, hs, rfl⟩ := List.mem_map.mp (hfits.numbers.mem_iff.mpr hmem)
  exact ⟨s.2, hfits.dataMap hside hs, hfits.sizes s hs⟩

theorem side_rewritten (hside : Side t) : Side (rewritten t sectorsData) where
  numbers := by
    have hnumbers := hside.numbers
    simpa [rewritten, Function.comp_def] using hnumbers
  some := by simpa [rewritten] using hside.some
  cylMap := rfl
  headMap := rfl

/-- What is read of the track are the new sectors, in the order of the track. -/
theorem sectorData_rewritten (hfits : Fits t sectorsData) (hside : Side t) :
    sectorData (rewritten t sectorsData).sectors =
      (t.sectors.map Prod.fst).map fun secnum =>
        (secnum, (PatchBios.dataMap sectorsData secnum).getD []) := by
  rw [sectorData, rewritten, List.map_map, List.map_map]
  refine List.map_congr_left fun s hs => ?_
  obtain ⟨sdata, hfound, hlen⟩ := hfits.found hside (List.mem_map_of_mem hs)
  simp only [Function.comp_apply, hfound, Option.getD_some]
  exact congrArg (Prod.mk s.1) (data_newRecord hlen)

theorem sort_rewritten (hfits : Fits t sectorsData) (hside : Side t) :
    Imd2raw.sortSectors (sectorData (rewritten t sectorsData).sectors) = sectorsData := by
  have hsame : (sectorsData.map Prod.fst).map (fun secnum =>
      (secnum, (PatchBios.dataMap sectorsData secnum).getD [])) = sectorsData := by
    rw [List.map_map]
    refine (List.map_congr_left fun s hs => ?_).trans (List.map_id _)
    simp only [Function.comp_apply, hfits.dataMap hside hs, Option.getD_some, id_eq]
  have hperm : (sectorData (rewritten t sectorsData).sectors).Perm sectorsData := by
    rw [sectorData_rewritten hfits hside]
    exact (hfits.numbers.symm.map _).trans (by rw [hsame])
  exact sort_of_perm hperm (hfits.numbers.nodup_iff.mpr hside.numbers) hfits.sorted

theorem writeRecords_numbers (hfits : Fits t sectorsData) (hside : Side t)
    {sectors : List (Byte × Record t.size)}
    (hmem : ∀ s ∈ sectors, s.1 ∈ t.sectors.map Prod.fst) :
    writeRecords sectorsData (sectors.map Prod.fst) = .ok (sectorBytes (sectors.map fun s =>
      (s.1, newRecord t.size ((PatchBios.dataMap sectorsData s.1).getD [])))) := by
  induction sectors with
  | nil => rfl
  | cons s sectors ih =>
      obtain ⟨hs, hsectors⟩ := List.forall_mem_cons.mp hmem
      obtain ⟨sdata, hfound, hlen⟩ := hfits.found hside hs
      rw [List.map_cons, writeRecords, hfound]
      dsimp only
      rw [ih hsectors, ← bytes_newRecord hlen]
      simp [Except.map, sectorBytes, hfound]

end Rewriting

/-! ### The tracks of an image -/

/-- A track and its place. -/
def trkOf (pos : Nat) (t : Track) : Trk :=
  ⟨t.read 0x3F#8, t.headByte, t.sizeCode, t.sectors.map Prod.fst, pos, pos + t.bytes.length⟩

def trksFrom : Nat → List Track → List Trk
  | _, [] => []
  | pos, t :: tracks => trkOf pos t :: trksFrom (pos + t.bytes.length) tracks

section Images

variable {raw rest : List Byte} {pos : Nat}

theorem getD_of_byteAt {b : Byte} (h : byteAt raw pos = .ok b) : raw.getD pos 0#8 = b := by
  rw [List.getD_eq_getElem?_getD, ← List.head?_drop, drop_of_byteAt h]
  rfl

theorem trkAt_bytes {t : Track} (h : raw.drop pos = t.bytes ++ rest) :
    trkAt raw (t.read 0x3F#8) pos (pos + t.bytes.length) = trkOf pos t := by
  have hat := trackAt h
  have hnumbers : (raw.drop (pos + 5)).take t.sectors.length = t.sectors.map Prod.fst := by
    have hlen : t.sectors.length = (t.sectors.map Prod.fst).length := by rw [List.length_map]
    rw [hat.numbers, hlen, List.take_left]
  have hnsect : (t.read 0x3F#8).nsect = t.sectors.length := rfl
  rw [trkAt, getD_of_byteAt hat.head, getD_of_byteAt hat.size, hnsect, hnumbers]
  rfl

theorem readTrks_step (hpos : pos < raw.length) :
    readTrks raw pos = (readTrack VerifyAgainstImd.sectorReader 0x3F#8 raw pos >>= fun run =>
      (readTrks raw run.2).map (trkAt raw run.1 pos run.2 :: ·)) := by
  rw [readTrks, if_pos hpos]
  split
  · rename_i e herror
    rw [herror]
    rfl
  · rename_i imd next hok
    rw [hok]
    rfl

theorem readTrks_bytes {tracks : List Track} (h : raw.drop pos = tracks.flatMap Track.bytes) :
    readTrks raw pos = .ok (trksFrom pos tracks) := by
  induction tracks generalizing pos with
  | nil =>
      rw [readTrks, if_neg (Nat.not_lt.mpr (List.drop_eq_nil_iff.mp h))]
      rfl
  | cons t tracks ih =>
      rw [List.flatMap_cons] at h
      have hread : readTrack VerifyAgainstImd.sectorReader 0x3F#8 raw pos =
          .ok (t.read 0x3F#8, pos + t.bytes.length) :=
        readTrack_eq (fun sector _ => VerifyAgainstImd.readSector_bytes sector.2) h
      rw [readTrks_step (before_end h), hread, ok_bind, ih (drop_of_drop h), trkAt_bytes h]
      rfl

theorem parseImd_image (image : Image) :
    parseImd image.bytes = .ok (image.comment ++ [0x1A#8],
      trksFrom (image.comment.length + 1) image.tracks) := by
  have hheader : image.bytes.take (image.comment.length + 1) = image.comment ++ [0x1A#8] := by
    rw [Image.bytes, List.take_length_add_append]
    rfl
  rw [parseImd, image.find_end]
  dsimp only
  rw [readTrks_bytes image.drop_comment, hheader]
  rfl

/-- The bytes of a track that is copied. -/
theorem verbatim {t : Track} (h : raw.drop pos = t.bytes ++ rest) :
    (raw.drop (trkOf pos t).rawStart).take ((trkOf pos t).rawEnd - (trkOf pos t).rawStart) =
      t.bytes := by
  have hlen : pos + t.bytes.length - pos = t.bytes.length := Nat.add_sub_cancel_left _ _
  dsimp only [trkOf]
  rw [hlen, h, List.take_left]

theorem writeTrack_side {t : Track} {sectorsData : List (Byte × List Byte)}
    (hfits : Fits t sectorsData) (hside : Side t) :
    writeTrack (trkOf pos t) sectorsData = .ok (rewritten t sectorsData).bytes := by
  have hrecords : writeRecords sectorsData (t.sectors.map Prod.fst) =
      .ok (sectorBytes (rewritten t sectorsData).sectors) :=
    writeRecords_numbers hfits hside fun s hs => List.mem_map_of_mem hs
  have hhead : t.headByte = (rewritten t sectorsData).headByte := by
    simp [Track.headByte, rewritten, hside.cylMap, hside.headMap]
  have hnumbers : t.sectors.map Prod.fst = (rewritten t sectorsData).sectors.map Prod.fst := by
    simp [rewritten]
  have hcount : t.sectors.length = (rewritten t sectorsData).sectors.length := by
    simp [rewritten]
  have hparts : writeTrack (trkOf pos t) sectorsData =
      .ok ([t.mode, t.cyl, t.headByte, BitVec.ofNat 8 t.sectors.length, t.sizeCode] ++
        (t.sectors.map Prod.fst ++ sectorBytes (rewritten t sectorsData).sectors)) := by
    unfold writeTrack
    rw [show (trkOf pos t).secnums = t.sectors.map Prod.fst from rfl, hrecords]
    rfl
  rw [hparts, hhead, hnumbers, hcount]
  rfl

/-- The other tracks are copied. -/
theorem rebuildAll_others {tracks : List Track} {newS0 : List (Byte × List Byte)}
    {newS1 : Option (List (Byte × List Byte))} (hothers : ∀ t ∈ tracks, t.cyl ≠ 0#8)
    (h : raw.drop pos = tracks.flatMap Track.bytes) :
    rebuildAll raw newS0 newS1 (trksFrom pos tracks) = .ok (tracks.flatMap Track.bytes) := by
  induction tracks generalizing pos with
  | nil => rfl
  | cons t tracks ih =>
      obtain ⟨ht, htracks⟩ := List.forall_mem_cons.mp hothers
      rw [List.flatMap_cons] at h
      have hcyl : ¬ ((trkOf pos t).imd.cyl = 0#8 ∧ (trkOf pos t).imd.head = 0#8) :=
        fun hside => ht hside.1
      have hcyl' : ¬ ((trkOf pos t).imd.cyl = 0#8 ∧ (trkOf pos t).imd.head = 1#8) :=
        fun hside => ht hside.1
      have hcopy : rebuild raw newS0 newS1 (trkOf pos t) = .ok t.bytes := by
        unfold rebuild
        rw [if_neg hcyl, if_neg hcyl', verbatim h]
      rw [trksFrom, rebuildAll, hcopy, ih htracks (drop_of_drop h)]
      rfl

end Images

/-! ### Disks to boot from -/

/-- An image that begins with the two sides of Track 0. -/
structure BootDisk (image : Image) (s0 s1 : Track) (rest : List Track) : Prop where
  tracks : image.tracks = s0 :: s1 :: rest
  cyl0 : s0.cyl = 0#8
  head0 : s0.head.val = 0
  side0 : Side s0
  cyl1 : s1.cyl = 0#8
  head1 : s1.head.val = 1
  side1 : Side s1
  others : ∀ t ∈ rest, t.cyl ≠ 0#8

/-- The sectors of a side in the order of their numbers. -/
def sorted (t : Track) : List (Byte × List Byte) := Imd2raw.sortSectors (sectorData t.sectors)

/-- The bytes of a side. -/
def sideBytes (t : Track) : List Byte := (sorted t).flatMap Prod.snd

section BootDisks

variable {image : Image} {s0 s1 t : Track} {rest : List Track} {cimData : List Byte}

theorem length_data {size : Nat} (r : Record size) : r.data.length = size := by
  cases r with
  | absent => exact List.length_replicate
  | full _ _ hlen => exact hlen
  | filled _ _ => exact List.length_replicate

theorem sizes_sorted : ∀ s ∈ sorted t, s.2.length = t.size := by
  intro s hs
  rw [sorted, Imd2raw.sortSectors, List.mem_mergeSort, sectorData] at hs
  obtain ⟨sector, -, rfl⟩ := List.mem_map.mp hs
  exact length_data sector.2

theorem numbers_sorted : ((sorted t).map Prod.fst).Perm (t.sectors.map Prod.fst) := by
  have hnumbers : (sectorData t.sectors).map Prod.fst = t.sectors.map Prod.fst := by
    rw [sectorData, List.map_map]
    rfl
  rw [← hnumbers]
  exact (List.mergeSort_perm _ _).map Prod.fst

theorem pairwise_sorted : (sorted t).Pairwise fun s s' => s.1.toNat ≤ s'.1.toNat := by
  refine (List.pairwise_mergeSort (fun a b c hab hbc => ?_) (fun a b => ?_) _).imp
    of_decide_eq_true
  · exact decide_eq_true ((of_decide_eq_true hab).trans (of_decide_eq_true hbc))
  · rw [Bool.or_eq_true, decide_eq_true_eq, decide_eq_true_eq]
    exact Nat.le_total _ _

theorem sorted_ne_nil (hside : Side t) : sorted t ≠ [] := by
  intro hnil
  have hlen := (@numbers_sorted t).length_eq
  rw [hnil, List.map_nil, List.length_nil, List.length_map] at hlen
  exact hside.some (List.eq_nil_of_length_eq_zero hlen.symm)

theorem length_sideBytes : (sideBytes t).length = t.sectors.length * t.size := by
  have hlen : (sorted t).length = t.sectors.length := by
    have hlen := (@numbers_sorted t).length_eq
    rwa [List.length_map, List.length_map] at hlen
  rw [sideBytes, List.length_flatMap, List.map_congr_left sizes_sorted, List.map_const',
    List.sum_replicate_nat, hlen]

/-- What `fill` makes of a side fits it. -/
theorem fits_filled {cimPos : Nat} {run : List (Byte × List Byte) × Nat}
    (h : Filled cimData t.size cimPos (sorted t) run) : Fits t run.1 where
  numbers := by rw [h.numbers]; exact numbers_sorted
  sizes := h.sizes
  sorted := by
    have hpairwise : ((sorted t).map Prod.fst).Pairwise fun n n' : Byte => n.toNat ≤ n'.toNat :=
      List.pairwise_map.mpr pairwise_sorted
    rw [← h.numbers, List.pairwise_map] at hpairwise
    exact hpairwise

theorem sideBytes_rewritten {sectorsData : List (Byte × List Byte)}
    (hfits : Fits t sectorsData) (hside : Side t) :
    sideBytes (rewritten t sectorsData) = sectorsData.flatMap Prod.snd := by
  rw [sideBytes, sorted, sort_rewritten hfits hside]

/-- `extract_track0` yields the two sides. -/
theorem BootDisk.extract (h : BootDisk image s0 s1 rest) :
    Imd2raw.extractTrack0 image.bytes = .ok (sideBytes s0 ++ sideBytes s1) := by
  have hrest : Imd2raw.track0 (rest.map (Track.read 0x3F#8)) = .ok [] := by
    cases rest with
    | nil => rfl
    | cons t rest =>
        have ht : (t.read 0x3F#8).cyl ≠ 0#8 := h.others t List.mem_cons_self
        rw [List.map_cons, Imd2raw.track0, if_pos ht]
  have hside : ∀ (t : Track) (tracks : List ImdTrack), t.cyl = 0#8 → Side t →
      Imd2raw.track0 (t.read 0x3F#8 :: tracks) =
        (Imd2raw.track0 tracks).map (sideBytes t ++ ·) := by
    intro t tracks hcyl hside
    have hcyl' : ¬ (t.read 0x3F#8).cyl ≠ 0#8 := not_not.mpr hcyl
    have hsorted : Imd2raw.sortSectors (t.read 0x3F#8).sectors = sorted t := rfl
    rw [Imd2raw.track0, if_neg hcyl', hsorted, sideBytes]
    cases hcons : sorted t with
    | nil => exact absurd hcons (sorted_ne_nil hside)
    | cons s sectors => rfl
  have hparse : Imd2raw.parseImd image.bytes = _ := VerifyAgainstImd.parseImd_bytes image
  rw [Imd2raw.extractTrack0, hparse, ok_bind, h.tracks]
  dsimp only
  rw [List.map_cons, List.map_cons, hside s0 _ h.cyl0 h.side0, hside s1 _ h.cyl1 h.side1, hrest]
  simp [Except.map]

/-- The sides in front of the other tracks, and where they are. -/
theorem BootDisk.parse (h : BootDisk image s0 s1 rest) :
    ∃ pos, image.bytes.drop pos = s0.bytes ++ (s1.bytes ++ rest.flatMap Track.bytes) ∧
      parseImd image.bytes = .ok (image.comment ++ [0x1A#8],
        trkOf pos s0 :: trkOf (pos + s0.bytes.length) s1 ::
          trksFrom (pos + s0.bytes.length + s1.bytes.length) rest) := by
  refine ⟨image.comment.length + 1, ?_, ?_⟩
  · rw [image.drop_comment, h.tracks, List.flatMap_cons, List.flatMap_cons]
  · rw [parseImd_image, h.tracks]
    rfl

theorem filter_others {pos : Nat} (hothers : ∀ t ∈ rest, t.cyl ≠ 0#8) :
    (trksFrom pos rest).filter (fun t => t.imd.cyl = 0#8) = [] := by
  induction rest generalizing pos with
  | nil => rfl
  | cons t rest ih =>
      obtain ⟨ht, hrest⟩ := List.forall_mem_cons.mp hothers
      have hcyl : ¬ (trkOf pos t).imd.cyl = 0#8 := ht
      rw [trksFrom, List.filter_cons_of_neg (by simpa using hcyl), ih hrest]

theorem head_trkOf (pos : Nat) : (trkOf pos t).imd.head = BitVec.ofNat 8 t.head.val :=
  (headByte_bits t.head t.cylMap.isSome t.headMap.isSome).2.2.1

theorem total_trkOf (pos : Nat) : total (trkOf pos t) = (sideBytes t).length := by
  rw [length_sideBytes]
  rfl

/-- The new sectors of side 0. -/
def newS0 (cimData : List Byte) (s0 : Track) : List (Byte × List Byte) × Nat :=
  fill cimData s0.size 0 (sorted s0)

/-- The new sectors of side 1, where the bytes go beyond side 0. -/
def newS1 (cimData : List Byte) (s0 s1 : Track) : Option (List (Byte × List Byte)) :=
  if (newS0 cimData s0).2 < cimData.length then
    some (fill cimData s1.size (newS0 cimData s0).2 (sorted s1)).1
  else none

/-- `patch`, on a disk to boot from. -/
theorem BootDisk.patch (h : BootDisk image s0 s1 rest) : ∃ pos,
    image.bytes.drop pos = s0.bytes ++ (s1.bytes ++ rest.flatMap Track.bytes) ∧
    PatchBios.patch image.bytes cimData =
      if (sideBytes s0 ++ sideBytes s1).length < cimData.length then .error .exit
      else (rebuildAll image.bytes (newS0 cimData s0).1 (newS1 cimData s0 s1)
        (trkOf pos s0 :: trkOf (pos + s0.bytes.length) s1 ::
          trksFrom (pos + s0.bytes.length + s1.bytes.length) rest)).map
            (image.comment ++ [0x1A#8] ++ ·) := by
  obtain ⟨pos, hdrop, hparse⟩ := h.parse
  refine ⟨pos, hdrop, ?_⟩
  have hhead0 : (trkOf pos s0).imd.head = 0#8 := by rw [head_trkOf, h.head0]
  have hhead1 : (trkOf (pos + s0.bytes.length) s1).imd.head = 1#8 := by rw [head_trkOf, h.head1]
  have hcyl0 : (trkOf pos s0).imd.cyl = 0#8 := h.cyl0
  have hcyl1 : (trkOf (pos + s0.bytes.length) s1).imd.cyl = 0#8 := h.cyl1
  have hfilter : (trkOf pos s0 :: trkOf (pos + s0.bytes.length) s1 ::
      trksFrom (pos + s0.bytes.length + s1.bytes.length) rest).filter
        (fun t => t.imd.cyl = 0#8) = [trkOf pos s0, trkOf (pos + s0.bytes.length) s1] := by
    rw [List.filter_cons_of_pos (by simpa using hcyl0),
      List.filter_cons_of_pos (by simpa using hcyl1), filter_others h.others]
  have hfirst : [trkOf pos s0, trkOf (pos + s0.bytes.length) s1].find?
      (fun t => t.imd.head = 0#8) = some (trkOf pos s0) := by
    rw [List.find?_cons_of_pos (by simpa using hhead0)]
  have hsecond : [trkOf pos s0, trkOf (pos + s0.bytes.length) s1].find?
      (fun t => t.imd.head = 1#8) = some (trkOf (pos + s0.bytes.length) s1) := by
    rw [List.find?_cons_of_neg (by rw [hhead0]; decide),
      List.find?_cons_of_pos (by simpa using hhead1)]
  unfold PatchBios.patch
  rw [hparse]
  dsimp only [Except.mapError, bind, Except.bind]
  rw [hfilter, hfirst]
  dsimp only
  rw [hsecond, Option.map_some, Option.getD_some, total_trkOf, total_trkOf, ← List.length_append]
  rfl

theorem rebuild_side0 {pos : Nat} {newS0 : List (Byte × List Byte)}
    {newS1 : Option (List (Byte × List Byte))} (h : BootDisk image s0 s1 rest)
    (hfits : Fits s0 newS0) :
    rebuild image.bytes newS0 newS1 (trkOf pos s0) = .ok (rewritten s0 newS0).bytes := by
  have hside : (trkOf pos s0).imd.cyl = 0#8 ∧ (trkOf pos s0).imd.head = 0#8 :=
    ⟨h.cyl0, by rw [head_trkOf, h.head0]⟩
  unfold rebuild
  rw [if_pos hside, writeTrack_side hfits h.side0]

theorem rebuild_side1 {pos : Nat} {newS0 : List (Byte × List Byte)}
    {newS1 : Option (List (Byte × List Byte))} (h : BootDisk image s0 s1 rest)
    (hdrop : image.bytes.drop pos = s1.bytes ++ rest.flatMap Track.bytes)
    (hfits : ∀ sectors ∈ newS1, Fits s1 sectors) :
    rebuild image.bytes newS0 newS1 (trkOf pos s1) =
      .ok ((newS1.map (rewritten s1)).getD s1).bytes := by
  have hhead : (trkOf pos s1).imd.head = 1#8 := by rw [head_trkOf, h.head1]
  have hother : ¬ ((trkOf pos s1).imd.cyl = 0#8 ∧ (trkOf pos s1).imd.head = 0#8) := by
    rw [hhead]
    rintro ⟨-, heq⟩
    exact absurd heq (by decide)
  have hside : (trkOf pos s1).imd.cyl = 0#8 ∧ (trkOf pos s1).imd.head = 1#8 := ⟨h.cyl1, hhead⟩
  unfold rebuild
  rw [if_neg hother, if_pos hside]
  cases newS1 with
  | none => exact congrArg Except.ok (verbatim hdrop)
  | some sectors => exact writeTrack_side (hfits sectors rfl) h.side1

/-- The same layout of the sectors. -/
structure SameLayout (t t' : Track) : Prop where
  mode : t'.mode = t.mode
  sizeCode : t'.sizeCode = t.sizeCode
  numbers : t'.sectors.map Prod.fst = t.sectors.map Prod.fst

theorem sameLayout_rewritten (sectorsData : List (Byte × List Byte)) :
    SameLayout t (rewritten t sectorsData) :=
  ⟨rfl, rfl, by simp [rewritten]⟩

/-- The new sides, and their bytes. -/
theorem new_sides (h : BootDisk image s0 s1 rest) :
    Fits s0 (newS0 cimData s0).1 ∧ (∀ sectors ∈ newS1 cimData s0 s1, Fits s1 sectors) ∧
      sideBytes (rewritten s0 (newS0 cimData s0).1) ++
          sideBytes (((newS1 cimData s0 s1).map (rewritten s1)).getD s1) =
        overlay cimData (sideBytes s0 ++ sideBytes s1) := by
  have hfilled0 : Filled cimData s0.size 0 (sorted s0) (newS0 cimData s0) :=
    fill_filled sizes_sorted 0
  have hfilled1 := @fill_filled cimData s1.size (sorted s1) sizes_sorted (newS0 cimData s0).2
  have hfits0 := fits_filled hfilled0
  have hdata0 : sideBytes (rewritten s0 (newS0 cimData s0).1) = overlay cimData (sideBytes s0) := by
    rw [sideBytes_rewritten hfits0 h.side0, hfilled0.data, List.drop_zero]
    rfl
  have hleft : cimData.drop (newS0 cimData s0).2 = cimData.drop (sideBytes s0).length := by
    rw [hfilled0.left, List.drop_zero]
    rfl
  refine ⟨hfits0, fun sectors hsectors => ?_, ?_⟩
  · unfold newS1 at hsectors
    split_ifs at hsectors
    · rw [← Option.mem_some.mp hsectors]
      exact fits_filled hfilled1
    · exact nomatch hsectors
  · rw [overlay_append, hdata0, ← hleft]
    refine congrArg (overlay cimData (sideBytes s0) ++ ·) ?_
    unfold newS1
    split_ifs with hmore
    · rw [Option.map_some, Option.getD_some, sideBytes_rewritten (fits_filled hfilled1) h.side1,
        hfilled1.data]
      rfl
    · rw [List.drop_eq_nil_of_le (Nat.not_lt.mp hmore), overlay_nil]
      rfl

/-- The sides are filled, where the bytes fit. -/
theorem patch_fits {t0 : List Byte} (cimData : List Byte) (h : BootDisk image s0 s1 rest)
    (hread : Imd2raw.extractTrack0 image.bytes = .ok t0) (hlen : cimData.length ≤ t0.length) :
    ∃ (out : Image) (s0' s1' : Track),
      PatchBios.patch image.bytes cimData = .ok out.bytes ∧ out.comment = image.comment ∧
        BootDisk out s0' s1' rest ∧ SameLayout s0 s0' ∧ SameLayout s1 s1' ∧
          Imd2raw.extractTrack0 out.bytes = .ok (cimData ++ t0.drop cimData.length) := by
  obtain rfl : sideBytes s0 ++ sideBytes s1 = t0 := Except.ok.inj (h.extract.symm.trans hread)
  obtain ⟨pos, hdrop, hpatch⟩ := @BootDisk.patch image s0 s1 rest cimData h
  obtain ⟨hfits0, hfits1, hbytes⟩ := @new_sides image s0 s1 rest cimData h
  have hs1 : Side (((newS1 cimData s0 s1).map (rewritten s1)).getD s1) ∧
      SameLayout s1 (((newS1 cimData s0 s1).map (rewritten s1)).getD s1) ∧
      (((newS1 cimData s0 s1).map (rewritten s1)).getD s1).cyl = 0#8 ∧
      (((newS1 cimData s0 s1).map (rewritten s1)).getD s1).head.val = 1 := by
    cases newS1 cimData s0 s1 with
    | none => exact ⟨h.side1, ⟨rfl, rfl, rfl⟩, h.cyl1, h.head1⟩
    | some sectors =>
        exact ⟨side_rewritten h.side1, sameLayout_rewritten sectors, h.cyl1, h.head1⟩
  obtain ⟨hside1, hlayout1, hcyl1, hhead1⟩ := hs1
  let out : Image := ⟨image.comment, image.unended, rewritten s0 (newS0 cimData s0).1 ::
    ((newS1 cimData s0 s1).map (rewritten s1)).getD s1 :: rest⟩
  have hdisk : BootDisk out _ _ rest :=
    ⟨rfl, h.cyl0, h.head0, side_rewritten h.side0, hcyl1, hhead1, hside1, h.others⟩
  refine ⟨out, _, _, ?_, rfl, hdisk, sameLayout_rewritten _, hlayout1, ?_⟩
  · have hdrop1 := drop_of_drop hdrop
    rw [hpatch, if_neg (Nat.not_lt.mpr hlen), rebuildAll, rebuild_side0 h hfits0, rebuildAll,
      rebuild_side1 h hdrop1 hfits1, rebuildAll_others h.others (drop_of_drop hdrop1)]
    simp [bind, Except.bind, Except.map, out, Image.bytes]
  · rw [hdisk.extract, hbytes, overlay_of_le cimData hlen]

/-- **A patched image** yields the bytes that were put on it, in front of what was behind them,
and keeps the other tracks; bytes that Track 0 does not hold are refused. -/
theorem patch_extracts {t0 : List Byte} (cimData : List Byte) (h : BootDisk image s0 s1 rest)
    (hread : Imd2raw.extractTrack0 image.bytes = .ok t0) :
    (cimData.length ≤ t0.length → ∃ (out : Image) (s0' s1' : Track),
      PatchBios.patch image.bytes cimData = .ok out.bytes ∧ out.comment = image.comment ∧
        BootDisk out s0' s1' rest ∧ SameLayout s0 s0' ∧ SameLayout s1 s1' ∧
          Imd2raw.extractTrack0 out.bytes = .ok (cimData ++ t0.drop cimData.length)) ∧
    (t0.length < cimData.length → PatchBios.patch image.bytes cimData = .error .exit) := by
  refine ⟨patch_fits cimData h hread, fun hlen => ?_⟩
  obtain rfl : sideBytes s0 ++ sideBytes s1 = t0 := Except.ok.inj (h.extract.symm.trans hread)
  obtain ⟨pos, -, hpatch⟩ := @BootDisk.patch image s0 s1 rest cimData h
  rw [hpatch, if_pos hlen]

end BootDisks

theorem one_lt_heads : 1 < 64 := by decide

/-- Two sectors on side 0, the second in front, and one on side 1. -/
def frontSide : Track :=
  ⟨0x00#8, 0#8, ⟨0, zero_lt_heads⟩, 0#8,
    [(2#8, .filled ⟨0, zero_lt_flags⟩ 0xE5#8), (1#8, .filled ⟨1, one_lt_flags⟩ 0x20#8)],
    by decide, none, none⟩

def backSide : Track :=
  ⟨0x03#8, 0#8, ⟨1, one_lt_heads⟩, 1#8, [(1#8, .absent)], by decide, none, none⟩

def twoSides : Image := ⟨[], unended_nil, [frontSide, backSide]⟩

theorem twoSides_bootDisk : BootDisk twoSides frontSide backSide [] where
  tracks := rfl
  cyl0 := rfl
  head0 := rfl
  side0 := ⟨by decide, List.cons_ne_nil _ _, rfl, rfl⟩
  cyl1 := rfl
  head1 := rfl
  side1 := ⟨by decide, List.cons_ne_nil _ _, rfl, rfl⟩
  others := fun _ hmem => nomatch hmem

/-- The bytes that are put on it end in the second sector of side 0. -/
theorem patch_extracts_twoSides : ∃ (out : Image) (s0' s1' : Track),
    PatchBios.patch twoSides.bytes (List.replicate 130 0x41#8) = .ok out.bytes ∧
      out.comment = twoSides.comment ∧ BootDisk out s0' s1' [] ∧ SameLayout frontSide s0' ∧
        SameLayout backSide s1' ∧ Imd2raw.extractTrack0 out.bytes =
          .ok (List.replicate 130 0x41#8 ++ (sideBytes frontSide ++ sideBytes backSide).drop
            (List.replicate 130 0x41#8 : List Byte).length) := by
  refine (patch_extracts (List.replicate 130 0x41#8) twoSides_bootDisk
    twoSides_bootDisk.extract).1 ?_
  rw [List.length_append, length_sideBytes, length_sideBytes, List.length_replicate]
  decide

end PatchBios
end Formats
end Rc700
