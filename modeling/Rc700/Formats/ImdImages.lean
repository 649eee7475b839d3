import Rc700.Formats.Imd

/-!
# What the readers of IMD images accept

`parse_imd` of `imd2raw.py`, and the two tools on it: `extract_track0`, and `rebase` of
`imd_rebase_sectors.py`, which walks the same bytes once more to change the sector numbers.

The reader ends at the end of the file on the images and on nothing else (`accepts_iff`).  So
what is proved about images holds of every file that is read to its end: `rebase` keeps
everything but the numbers, is undone by the opposite one, and leaves Track 0 as it is for
`extract_track0` (`rebase_keeps`).
-/

namespace Rc700
namespace Formats

/-! ### Every file that is read to its end is an image -/

section Accepting

variable {raw : List Byte} {size pos next : Nat}

theorem drop_of_byteAt {b : Byte} (h : byteAt raw pos = .ok b) :
    raw.drop pos = b :: raw.drop (pos + 1) := by
  unfold byteAt at h
  cases hget : raw[pos]? with
  | none =>
      rw [hget] at h
      exact nomatch h
  | some c =>
      rw [hget] at h
      obtain ⟨hlt, rfl⟩ := List.getElem?_eq_some_iff.mp hget
      rw [← Except.ok.inj h]
      exact List.drop_eq_getElem_cons hlt

theorem fullFlags {stype : Byte} (h : stype ∈ [0x01#8, 0x03#8, 0x05#8, 0x07#8]) :
    ∃ flags : Fin 4, stype = BitVec.ofNat 8 (2 * flags.val + 1) := by
  simp only [List.mem_cons, List.not_mem_nil, or_false] at h
  rcases h with rfl | rfl | rfl | rfl
  · exact ⟨0, rfl⟩
  · exact ⟨1, rfl⟩
  · exact ⟨2, rfl⟩
  · exact ⟨3, rfl⟩

theorem filledFlags {stype : Byte} (h : stype ∈ [0x02#8, 0x04#8, 0x06#8, 0x08#8]) :
    ∃ flags : Fin 4, stype = BitVec.ofNat 8 (2 * flags.val + 2) := by
  simp only [List.mem_cons, List.not_mem_nil, or_false] at h
  rcases h with rfl | rfl | rfl | rfl
  · exact ⟨0, rfl⟩
  · exact ⟨1, rfl⟩
  · exact ⟨2, rfl⟩
  · exact ⟨3, rfl⟩

/-- A record that is read, and that the file does not cut. -/
theorem exists_record {data : List Byte}
    (h : VerifyAgainstImd.readSector raw size pos = .ok (data, next)) (hin : next ≤ raw.length) :
    ∃ r : Record size, raw.drop pos = r.bytes ++ raw.drop next := by
  unfold VerifyAgainstImd.readSector at h
  obtain ⟨stype, htype, h⟩ := bind_ok h
  rw [drop_of_byteAt htype]
  split_ifs at h with habsent hfull hfilled
  · obtain ⟨-, rfl⟩ := Prod.mk.inj (Except.ok.inj h)
    exact ⟨.absent, by rw [habsent]; rfl⟩
  · obtain ⟨-, rfl⟩ := Prod.mk.inj (Except.ok.inj h)
    obtain ⟨flags, rfl⟩ := fullFlags hfull
    have hlen : ((raw.drop (pos + 1)).take size).length = size := by
      rw [List.length_take, List.length_drop]
      omega
    have hdata : raw.drop (pos + 1) =
        (raw.drop (pos + 1)).take size ++ raw.drop (pos + 1 + size) := by
      rw [← @List.drop_drop _ size (pos + 1), List.take_append_drop]
    exact ⟨.full flags _ hlen, congrArg (List.cons _) hdata⟩
  · obtain ⟨fill, hfill, h⟩ := bind_ok h
    obtain ⟨-, rfl⟩ := Prod.mk.inj (Except.ok.inj h)
    obtain ⟨flags, rfl⟩ := filledFlags hfilled
    refine ⟨.filled flags fill, ?_⟩
    rw [drop_of_byteAt hfill]
    rfl

theorem exists_records {secMap : List Byte} {count i : Nat} {sectors : List (Byte × List Byte)}
    (h : readSectors (VerifyAgainstImd.readSector raw size) secMap count i pos =
      .ok (sectors, next)) (hin : next ≤ raw.length) :
    ∃ records : List (Byte × Record size), records.map Prod.fst = (secMap.drop i).take count ∧
      records.length = count ∧ raw.drop pos = sectorBytes records ++ raw.drop next := by
  induction count generalizing i pos sectors with
  | zero =>
      obtain ⟨-, rfl⟩ := Prod.mk.inj (Except.ok.inj h)
      exact ⟨[], rfl, rfl, rfl⟩
  | succ count ih =>
      rw [readSectors] at h
      obtain ⟨⟨data, middle⟩, hdata, h⟩ := bind_ok h
      obtain ⟨id, hid, h⟩ := bind_ok h
      obtain ⟨⟨later, last⟩, hlater, h⟩ := bind_ok h
      obtain ⟨-, rfl⟩ := Prod.mk.inj (Except.ok.inj h)
      have hle : middle ≤ last :=
        @readSectors_le VerifyAgainstImd.sectorReader _ _ _ _ _ _ _ _ hlater
      obtain ⟨r, hr⟩ := exists_record hdata (hle.trans hin)
      obtain ⟨records, hids, hlen, hrecords⟩ := ih hlater
      refine ⟨(id, r) :: records, ?_, by rw [List.length_cons, hlen], ?_⟩
      · rw [drop_of_byteAt hid, List.take_succ_cons, List.map_cons, hids]
      · rw [hr, hrecords, ← List.append_assoc]
        rfl

/-- The head byte is the head with the bits of the maps. -/
theorem headByte_parts : ∀ b : Fin 256,
    let b := BitVec.ofNat 8 b.val
    b = BitVec.ofNat 8 ((b &&& 0x3F#8).toNat + (if b &&& 0x80#8 ≠ 0#8 then 0x80 else 0) +
      (if b &&& 0x40#8 ≠ 0#8 then 0x40 else 0)) ∧ (b &&& 0x3F#8).toNat < 64 := by
  decide +kernel

/-- A map that a bit of the head byte announces. -/
theorem exists_map {present : Prop} [Decidable present] (count : Nat)
    (hin : (if present then pos + count else pos) ≤ raw.length) :
    ∃ map : Option {map : List Byte // map.length = count}, (map.isSome ↔ present) ∧
      raw.drop pos = (map.map Subtype.val).getD [] ++
        raw.drop (if present then pos + count else pos) := by
  by_cases hpresent : present
  · rw [if_pos hpresent] at hin ⊢
    have hlen : ((raw.drop pos).take count).length = count := by
      rw [List.length_take, List.length_drop]
      omega
    refine ⟨some ⟨_, hlen⟩, by simp [hpresent], ?_⟩
    rw [← List.drop_drop]
    exact (List.take_append_drop count _).symm
  · rw [if_neg hpresent]
    exact ⟨none, by simp [hpresent], rfl⟩

/-- The bytes of a track that is read, and that the file does not cut. -/
theorem exists_track {track : ImdTrack}
    (h : readTrack VerifyAgainstImd.sectorReader 0x3F#8 raw pos = .ok (track, next))
    (hin : next ≤ raw.length) : ∃ t : Track, raw.drop pos = t.bytes ++ raw.drop next := by
  unfold readTrack at h
  obtain ⟨mode, hmode, h⟩ := bind_ok h
  obtain ⟨cyl, hcyl, h⟩ := bind_ok h
  obtain ⟨headByte, hhead, h⟩ := bind_ok h
  obtain ⟨nsec, hnsec, h⟩ := bind_ok h
  obtain ⟨sizeCode, hsize, h⟩ := bind_ok h
  obtain ⟨⟨sectors, last⟩, hsectors, h⟩ := bind_ok h
  obtain ⟨-, rfl⟩ := Prod.mk.inj (Except.ok.inj h)
  have hle := @readSectors_le VerifyAgainstImd.sectorReader _ _ _ _ _ _ _ _ hsectors
  obtain ⟨records, hids, hlen, hrecords⟩ := exists_records hsectors hin
  rw [← hlen] at hle hids hrecords
  -- the maps are in the file, as the records behind them are
  have hmaps := hle.trans hin
  have hfirst : (if headByte &&& 0x80#8 ≠ 0#8 then pos + 5 + records.length + records.length
      else pos + 5 + records.length) ≤ raw.length := by
    split_ifs at hmaps ⊢ <;> omega
  obtain ⟨cylMap, hcylMap, hcylBytes⟩ := exists_map records.length hfirst
  obtain ⟨headMap, hheadMap, hheadBytes⟩ := exists_map records.length hmaps
  have hparts := headByte_parts ⟨headByte.toNat, headByte.isLt⟩
  rw [BitVec.ofNat_toNat, BitVec.setWidth_eq] at hparts
  obtain ⟨hbyte, hhead64⟩ := hparts
  have hcount : records.length < 256 := by
    rw [hlen]
    exact nsec.isLt
  let t : Track := ⟨mode, cyl, ⟨_, hhead64⟩, sizeCode, records, hcount, cylMap, headMap⟩
  have hheader : [mode, cyl, headByte, nsec, sizeCode] =
      [t.mode, t.cyl, t.headByte, BitVec.ofNat 8 t.sectors.length, t.sizeCode] := by
    have hnsecs : nsec = BitVec.ofNat 8 records.length := by
      rw [hlen, BitVec.ofNat_toNat, BitVec.setWidth_eq]
    have hheads : headByte = t.headByte := by
      rw [Track.headByte]
      simp only [t, hcylMap, hheadMap]
      exact hbyte
    rw [← hnsecs, ← hheads]
  have hnumbers : raw.drop (pos + 5) =
      records.map Prod.fst ++ raw.drop (pos + 5 + records.length) := by
    rw [hids, List.drop_zero, List.take_take, Nat.min_self, ← @List.drop_drop _ _ (pos + 5),
      List.take_append_drop]
  have hbody : raw.drop (pos + 5) =
      t.sectors.map Prod.fst ++ (t.cylBytes ++ (t.headBytes ++
        (sectorBytes t.sectors ++ raw.drop last))) := by
    rw [hnumbers, hcylBytes, hheadBytes]
    exact congrArg (fun bytes => _ ++ (_ ++ (_ ++ bytes))) hrecords
  refine ⟨t, ?_⟩
  calc raw.drop pos = [mode, cyl, headByte, nsec, sizeCode] ++ raw.drop (pos + 5) := by
        rw [drop_of_byteAt hmode, drop_of_byteAt hcyl, drop_of_byteAt hhead, drop_of_byteAt hnsec,
          drop_of_byteAt hsize]
        rfl
    _ = t.bytes ++ raw.drop last := by
        rw [hheader, hbody, Track.bytes, sectorBytes]
        simp only [List.append_assoc]

/-- The passes over the tracks: none, or one and the others. -/
theorem readTracks_cases {reader : SectorReader} {headMask : Byte} {tracks : List ImdTrack}
    {last : Nat} (h : readTracks reader headMask raw pos = .ok (tracks, last)) :
    (raw.length ≤ pos ∧ tracks = [] ∧ last = pos) ∨
      ∃ track middle rest, readTrack reader headMask raw pos = .ok (track, middle) ∧
        readTracks reader headMask raw middle = .ok (rest, last) ∧ tracks = track :: rest := by
  by_cases hpos : pos < raw.length
  · right
    rw [readTracks_step hpos] at h
    obtain ⟨⟨track, middle⟩, htrack, h⟩ := bind_ok h
    cases hrest : readTracks reader headMask raw middle with
    | error e =>
        rw [hrest] at h
        exact nomatch h
    | ok run =>
        rw [hrest] at h
        obtain ⟨rfl, rfl⟩ := Prod.mk.inj (Except.ok.inj h)
        exact ⟨track, middle, run.1, htrack, hrest, rfl⟩
  · left
    rw [readTracks, if_neg hpos] at h
    obtain ⟨rfl, rfl⟩ := Prod.mk.inj (Except.ok.inj h)
    exact ⟨Nat.not_lt.mp hpos, rfl, rfl⟩

theorem readTracks_le {reader : SectorReader} {headMask : Byte} {tracks : List ImdTrack}
    {last : Nat} (h : readTracks reader headMask raw pos = .ok (tracks, last)) : pos ≤ last := by
  induction tracks generalizing pos with
  | nil =>
      rcases readTracks_cases h with ⟨-, -, rfl⟩ | ⟨_, _, _, -, -, hcons⟩
      · exact Nat.le_refl _
      · exact nomatch hcons
  | cons track tracks ih =>
      rcases readTracks_cases h with ⟨-, hnil, -⟩ | ⟨_, middle, _, htrack, hrest, hcons⟩
      · exact nomatch hnil
      · obtain ⟨-, rfl⟩ := List.cons.inj hcons
        exact (readTrack_lt htrack).le.trans (ih hrest)

theorem exists_tracks {tracks : List ImdTrack}
    (h : readTracks VerifyAgainstImd.sectorReader 0x3F#8 raw pos = .ok (tracks, raw.length)) :
    ∃ ts : List Track, raw.drop pos = ts.flatMap Track.bytes := by
  induction tracks generalizing pos with
  | nil =>
      rcases readTracks_cases h with ⟨hend, -, -⟩ | ⟨_, _, _, -, -, hcons⟩
      · exact ⟨[], List.drop_eq_nil_of_le hend⟩
      · exact nomatch hcons
  | cons track tracks ih =>
      rcases readTracks_cases h with ⟨-, hnil, -⟩ | ⟨_, middle, _, htrack, hrest, hcons⟩
      · exact nomatch hnil
      · obtain ⟨-, rfl⟩ := List.cons.inj hcons
        obtain ⟨t, ht⟩ := exists_track htrack (readTracks_le hrest)
        obtain ⟨ts, hts⟩ := ih hrest
        exact ⟨t :: ts, by rw [ht, hts, List.flatMap_cons]⟩

/-- **The reader** ends at the end of the file on images only, and reads what is in them. -/
theorem accepts_iff {tracks : List ImdTrack} :
    VerifyAgainstImd.parseImd raw = .ok (tracks, raw.length) ↔
      ∃ image : Image, image.bytes = raw ∧ tracks = image.tracks.map (Track.read 0x3F#8) := by
  constructor
  · intro h
    have hexists : ∃ image : Image, image.bytes = raw := by
      rw [VerifyAgainstImd.parseImd, readImage] at h
      cases hfind : raw.idxOf? 0x1A#8 with
      | none =>
          rw [hfind] at h
          cases h
      | some i =>
          rw [hfind] at h
          obtain ⟨hi, heq, hbefore⟩ := List.idxOf?_eq_some_iff.mp hfind
          obtain ⟨ts, hts⟩ := exists_tracks h
          refine ⟨⟨raw.take i, fun hmem => ?_, ts⟩, ?_⟩
          · obtain ⟨j, hj, hget⟩ := List.mem_iff_getElem.mp hmem
            rw [List.getElem_take] at hget
            exact hbefore j (by rw [List.length_take] at hj; omega) hget
          · show raw.take i ++ 0x1A#8 :: ts.flatMap Track.bytes = raw
            rw [← hts, ← heq, ← List.drop_eq_getElem_cons hi, List.take_append_drop]
    obtain ⟨image, rfl⟩ := hexists
    rw [VerifyAgainstImd.parseImd_bytes] at h
    exact ⟨image, rfl, (Prod.mk.inj (Except.ok.inj h)).1.symm⟩
  · rintro ⟨image, rfl, rfl⟩
    exact VerifyAgainstImd.parseImd_bytes image

end Accepting

/-! ### The tools -/

namespace Imd2raw

/-- `parse_imd`: the code of `verify_against_imd.py`, but that an unknown type ends the script. -/
def parseImd (data : List Byte) : Except ImdError (List ImdTrack × Nat) :=
  readImage VerifyAgainstImd.sectorReader 0x3F#8 data

/-- `sectors.sort(key=lambda s: s[0])`, which is stable. -/
def sortSectors (sectors : List (Byte × List Byte)) : List (Byte × List Byte) :=
  sectors.mergeSort fun s s' => decide (s.1.toNat ≤ s'.1.toNat)

/-- `for cyl, head, mode, nsect, sectsize, sectors in tracks`.  The line that is printed reads
`sectors[0]`. -/
def track0 : List ImdTrack → Except ImdError (List Byte)
  | [] => .ok []
  | t :: tracks =>
      if t.cyl ≠ 0#8 then .ok []
      else
        match sortSectors t.sectors with
        | [] => .error .index
        | s :: sectors => (track0 tracks).map ((s :: sectors).flatMap Prod.snd ++ ·)

/-- `extract_track0` -/
def extractTrack0 (data : List Byte) : Except ImdError (List Byte) := do
  let (tracks, _) ← parseImd data
  track0 tracks

end Imd2raw

namespace ImdRebase

/-- `s + delta` is a byte. -/
def InRange (delta : Int) (s : Byte) : Prop := 0 ≤ s.toNat + delta ∧ s.toNat + delta < 256

instance (delta : Int) (s : Byte) : Decidable (InRange delta s) :=
  inferInstanceAs (Decidable (_ ∧ _))

def shift (delta : Int) (s : Byte) : Byte := BitVec.ofInt 8 (s.toNat + delta)

/-- `bytes(secnums_new)` -/
def shiftNumbers (delta : Int) : List Byte → Except ImdError (List Byte)
  | [] => .ok []
  | s :: numbers =>
      if InRange delta s then (shiftNumbers delta numbers).map (shift delta s :: ·)
      else .error .value

/-- What is copied of a record, and where the next one is. -/
def copySector (data : List Byte) (sectsize pos : Nat) : Except ImdError (List Byte × Nat) := do
  let stype ← byteAt data pos
  let pos := pos + 1
  if stype = 0x00#8 then .ok ([stype], pos)
  else if [0x01#8, 0x03#8, 0x05#8, 0x07#8].contains stype then
    .ok (stype :: (data.drop pos).take sectsize, pos + sectsize)
  else if [0x02#8, 0x04#8, 0x06#8, 0x08#8].contains stype then do
    let fill ← byteAt data pos
    .ok ([stype, fill], pos + 1)
  else .error (.unknownType stype (pos - 1))

/-- `for _ in range(nsect)` -/
def copySectors (data : List Byte) (sectsize : Nat) :
    (count pos : Nat) → Except ImdError (List Byte × Nat)
  | 0, pos => .ok ([], pos)
  | count + 1, pos => do
      let (record, pos) ← copySector data sectsize pos
      let (records, pos) ← copySectors data sectsize count pos
      .ok (record ++ records, pos)

/-- One pass of `while pos < len(data)`.  The report reads `secnums_orig[0]`. -/
def rebaseTrack (data : List Byte) (delta : Int) (pos : Nat) :
    Except ImdError (List Byte × Nat) := do
  let _mode ← byteAt data pos
  let _cyl ← byteAt data (pos + 1)
  let headByte ← byteAt data (pos + 2)
  let nsect ← byteAt data (pos + 3)
  let sectsizeCode ← byteAt data (pos + 4)
  let nsect := nsect.toNat
  let sectsize := 128 <<< sectsizeCode.toNat
  let header := (data.drop pos).take 5
  let pos := pos + 5
  let secnumsOrig := (data.drop pos).take nsect
  let secnumsNew ← shiftNumbers delta secnumsOrig
  let pos := pos + nsect
  if 0 < nsect ∧ secnumsOrig = [] then .error .index
  else do
    let (cylMap, pos) :=
      if headByte &&& 0x80#8 ≠ 0#8 then ((data.drop pos).take nsect, pos + nsect) else ([], pos)
    let (headMap, pos) :=
      if headByte &&& 0x40#8 ≠ 0#8 then ((data.drop pos).take nsect, pos + nsect) else ([], pos)
    let (records, pos) ← copySectors data sectsize nsect pos
    .ok (header ++ (secnumsNew ++ (cylMap ++ (headMap ++ records))), pos)

theorem copySector_lt {data : List Byte} {sectsize pos : Nat} {record : List Byte} {next : Nat}
    (h : copySector data sectsize pos = .ok (record, next)) : pos < next := by
  unfold copySector at h
  obtain ⟨stype, -, h⟩ := bind_ok h
  split_ifs at h
  · simp at h; omega
  · simp at h; omega
  · obtain ⟨fill, -, h⟩ := bind_ok h
    simp at h; omega

theorem copySectors_le {data : List Byte} {sectsize count pos : Nat} {records : List Byte}
    {next : Nat} (h : copySectors data sectsize count pos = .ok (records, next)) : pos ≤ next := by
  induction count generalizing pos records next with
  | zero =>
      obtain ⟨-, rfl⟩ := Prod.mk.inj (Except.ok.inj h)
      exact Nat.le_refl _
  | succ count ih =>
      rw [copySectors] at h
      obtain ⟨⟨record, middle⟩, hrecord, h⟩ := bind_ok h
      obtain ⟨⟨rest, last⟩, hrest, h⟩ := bind_ok h
      obtain ⟨-, rfl⟩ := Prod.mk.inj (Except.ok.inj h)
      exact (copySector_lt hrecord).le.trans (ih hrest)

theorem rebaseTrack_lt {data : List Byte} {delta : Int} {pos : Nat} {bytes : List Byte}
    {next : Nat} (h : rebaseTrack data delta pos = .ok (bytes, next)) : pos < next := by
  unfold rebaseTrack at h
  obtain ⟨_, -, h⟩ := bind_ok h
  obtain ⟨_, -, h⟩ := bind_ok h
  obtain ⟨headByte, -, h⟩ := bind_ok h
  obtain ⟨nsect, -, h⟩ := bind_ok h
  obtain ⟨_, -, h⟩ := bind_ok h
  obtain ⟨numbers, -, h⟩ := bind_ok h
  dsimp only at h
  split_ifs at h with hcut hcyl hhead hhead
  all_goals
    obtain ⟨⟨records, last⟩, hrecords, h⟩ := bind_ok h
    obtain ⟨-, rfl⟩ := Prod.mk.inj (Except.ok.inj h)
    have hle := copySectors_le hrecords
    dsimp only at hle
    omega

/-- `while pos < len(data)`: what is written, and how many tracks. -/
def rebaseTracks (data : List Byte) (delta : Int) (pos : Nat) :
    Except ImdError (List Byte × Nat) :=
  if pos < data.length then
    match _h : rebaseTrack data delta pos with
    | .error e => .error e
    | .ok (bytes, next) =>
        (rebaseTracks data delta next).map fun rest => (bytes ++ rest.1, rest.2 + 1)
  else .ok ([], 0)
termination_by data.length - pos
decreasing_by
  have := rebaseTrack_lt _h
  omega

/-- `rebase`: the file, and how many tracks. -/
def rebase (data : List Byte) (delta : Int) : Except ImdError (List Byte × Nat) :=
  match data.idxOf? 0x1A#8 with
  | none => .error .value
  | some hdrEnd =>
      (rebaseTracks data delta (hdrEnd + 1)).map fun run =>
        (data.take (hdrEnd + 1) ++ run.1, run.2)

end ImdRebase

/-! ### A track where it is in a file -/

/-- The bytes of a track in a file, one after the other. -/
structure TrackAt (raw : List Byte) (pos : Nat) (t : Track) (rest : List Byte) : Prop where
  mode : byteAt raw pos = .ok t.mode
  cyl : byteAt raw (pos + 1) = .ok t.cyl
  head : byteAt raw (pos + 2) = .ok t.headByte
  count : byteAt raw (pos + 3) = .ok (BitVec.ofNat 8 t.sectors.length)
  size : byteAt raw (pos + 4) = .ok t.sizeCode
  header : (raw.drop pos).take 5 =
    [t.mode, t.cyl, t.headByte, BitVec.ofNat 8 t.sectors.length, t.sizeCode]
  numbers : raw.drop (pos + 5) = t.sectors.map Prod.fst ++
    (t.cylBytes ++ (t.headBytes ++ (sectorBytes t.sectors ++ rest)))
  cylMap : raw.drop (pos + 5 + t.sectors.length) =
    t.cylBytes ++ (t.headBytes ++ (sectorBytes t.sectors ++ rest))
  headMap : raw.drop (pos + 5 + t.sectors.length + t.cylBytes.length) =
    t.headBytes ++ (sectorBytes t.sectors ++ rest)
  records : raw.drop (pos + 5 + t.sectors.length + t.cylBytes.length + t.headBytes.length) =
    sectorBytes t.sectors ++ rest

theorem trackAt {raw rest : List Byte} {pos : Nat} {t : Track}
    (h : raw.drop pos = t.bytes ++ rest) : TrackAt raw pos t rest := by
  have h₀ : raw.drop pos = t.mode :: t.cyl :: t.headByte :: BitVec.ofNat 8 t.sectors.length ::
      t.sizeCode :: (t.sectors.map Prod.fst ++ (t.cylBytes ++ (t.headBytes ++
        (sectorBytes t.sectors ++ rest)))) := by
    rw [h]
    simp [Track.bytes, sectorBytes]
  have h₁ := drop_succ h₀
  have h₂ := drop_succ h₁
  have h₃ := drop_succ h₂
  have h₄ := drop_succ h₃
  have h₅ := drop_succ h₄
  have h₆ := drop_of_drop h₅
  rw [List.length_map] at h₆
  have h₇ := drop_of_drop h₆
  exact ⟨byteAt_of_drop h₀, byteAt_of_drop h₁, byteAt_of_drop h₂, byteAt_of_drop h₃,
    byteAt_of_drop h₄, by rw [h₀]; rfl, h₅, h₆, h₇, drop_of_drop h₇⟩

/-! ### Other numbers -/

namespace ImdRebase

section Shifting

variable {delta : Int} {b : Byte}

theorem toNat_shift (h : InRange delta b) : ((shift delta b).toNat : Int) = b.toNat + delta := by
  obtain ⟨hlo, hhi⟩ := h
  rw [shift, BitVec.toNat_ofInt]
  omega

theorem inRange_shift (h : InRange delta b) : InRange (-delta) (shift delta b) := by
  rw [InRange, toNat_shift h]
  have hlt := b.isLt
  omega

theorem shift_shift (h : InRange delta b) : shift (-delta) (shift delta b) = b := by
  apply BitVec.eq_of_toNat_eq
  have hback := toNat_shift (inRange_shift h)
  rw [toNat_shift h] at hback
  omega

theorem shiftNumbers_inRange {numbers : List Byte} (h : ∀ s ∈ numbers, InRange delta s) :
    shiftNumbers delta numbers = .ok (numbers.map (shift delta)) := by
  induction numbers with
  | nil => rfl
  | cons s numbers ih =>
      obtain ⟨hs, hnumbers⟩ := List.forall_mem_cons.mp h
      rw [shiftNumbers, if_pos hs, ih hnumbers]
      rfl

theorem shiftNumbers_out {numbers : List Byte} (h : ∃ s ∈ numbers, ¬ InRange delta s) :
    shiftNumbers delta numbers = .error .value := by
  induction numbers with
  | nil => simp at h
  | cons s numbers ih =>
      rw [shiftNumbers]
      split_ifs with hs
      · obtain ⟨s', hs', hout⟩ := h
        rcases List.mem_cons.mp hs' with rfl | hs'
        · exact absurd hs hout
        · rw [ih ⟨s', hs', hout⟩]
          rfl
      · rfl

end Shifting

end ImdRebase

namespace Track

/-- The track with other numbers on its sectors. -/
def renumber (f : Byte → Byte) (t : Track) : Track where
  mode := t.mode
  cyl := t.cyl
  head := t.head
  sizeCode := t.sizeCode
  sectors := t.sectors.map fun sector => (f sector.1, sector.2)
  count := by rw [List.length_map]; exact t.count
  cylMap := t.cylMap.map fun map => ⟨map.1, by rw [List.length_map]; exact map.2⟩
  headMap := t.headMap.map fun map => ⟨map.1, by rw [List.length_map]; exact map.2⟩

variable (f : Byte → Byte) (t : Track)

theorem headByte_renumber : (t.renumber f).headByte = t.headByte := by
  simp [headByte, renumber]

theorem cylBytes_renumber : (t.renumber f).cylBytes = t.cylBytes := by
  simp [cylBytes, renumber, Function.comp_def]

theorem headBytes_renumber : (t.renumber f).headBytes = t.headBytes := by
  simp [headBytes, renumber, Function.comp_def]

theorem numbers_renumber :
    (t.renumber f).sectors.map Prod.fst = (t.sectors.map Prod.fst).map f := by
  simp [renumber]

theorem length_renumber : (t.renumber f).sectors.length = t.sectors.length := by
  simp [renumber]

theorem sectorBytes_renumber : sectorBytes (t.renumber f).sectors = sectorBytes t.sectors := by
  simp [renumber, sectorBytes, List.flatMap_map]

theorem bytes_renumber :
    (t.renumber f).bytes = [t.mode, t.cyl, t.headByte, BitVec.ofNat 8 t.sectors.length,
      t.sizeCode] ++ ((t.sectors.map Prod.fst).map f ++ (t.cylBytes ++ (t.headBytes ++
        sectorBytes t.sectors))) := by
  rw [bytes, ← sectorBytes, headByte_renumber, cylBytes_renumber, headBytes_renumber,
    numbers_renumber, length_renumber, sectorBytes_renumber]
  rfl

theorem length_bytes_renumber : (t.renumber f).bytes.length = t.bytes.length := by
  rw [bytes_renumber, bytes, ← sectorBytes]
  simp only [List.length_append, List.length_map]

theorem renumber_renumber {g : Byte → Byte} (h : ∀ sector ∈ t.sectors, g (f sector.1) = sector.1) :
    ((t.renumber f).renumber g).bytes = t.bytes := by
  have hback : ((t.sectors.map Prod.fst).map f).map g = t.sectors.map Prod.fst := by
    rw [List.map_map, List.map_map]
    exact List.map_congr_left h
  rw [bytes_renumber, headByte_renumber, cylBytes_renumber, headBytes_renumber, numbers_renumber,
    length_renumber, sectorBytes_renumber, hback]
  rfl

/-- The reader reads the other numbers. -/
theorem read_renumber (headMask : Byte) : (t.renumber f).read headMask =
    { t.read headMask with sectors := (t.read headMask).sectors.map fun s => (f s.1, s.2) } := by
  rw [read, headByte_renumber, length_renumber]
  simp [read, renumber, sectorData, size, Function.comp_def]

end Track

namespace Image

/-- The image with other numbers. -/
def renumber (f : Byte → Byte) (image : Image) : Image :=
  ⟨image.comment, image.unended, image.tracks.map (Track.renumber f)⟩

/-- The numbers are bytes after the change. -/
def InRange (delta : Int) (image : Image) : Prop :=
  ∀ t ∈ image.tracks, ∀ sector ∈ t.sectors, ImdRebase.InRange delta sector.1

variable (f : Byte → Byte) (image : Image)

theorem length_bytes_renumber : (image.renumber f).bytes.length = image.bytes.length := by
  rw [bytes, bytes, renumber]
  simp only [List.length_append, List.length_cons, List.length_flatMap, List.map_map,
    Function.comp_def, Track.length_bytes_renumber]

theorem renumber_renumber {g : Byte → Byte}
    (h : ∀ t ∈ image.tracks, ∀ sector ∈ t.sectors, g (f sector.1) = sector.1) :
    ((image.renumber f).renumber g).bytes = image.bytes := by
  rw [bytes, bytes, renumber, renumber]
  dsimp only
  rw [List.map_map, List.flatMap_map]
  refine congrArg (fun bytes => image.comment ++ 0x1A#8 :: bytes) (List.flatMap_congr ?_)
  intro t ht
  exact t.renumber_renumber f (h t ht)

end Image

/-! ### Rebasing an image -/

namespace ImdRebase

section Copying

variable {raw rest : List Byte} {pos size : Nat}

theorem copySector_bytes (r : Record size) (h : raw.drop pos = r.bytes ++ rest) :
    copySector raw size pos = .ok (r.bytes, pos + r.bytes.length) := by
  have hpayload : raw.drop (pos + 1) = r.payload ++ rest := drop_succ h
  unfold copySector
  rw [byteAt_of_drop h, ok_bind, Record.length_bytes]
  cases r with
  | absent => rfl
  | full flags data hlen =>
      obtain ⟨h₀, h₁⟩ : (Record.full flags data hlen).type ≠ 0x00#8 ∧
        (Record.full flags data hlen).type ∈ [0x01#8, 0x03#8, 0x05#8, 0x07#8] := fullType flags
      have htake : (data ++ rest).take size = data := by rw [← hlen, List.take_left]
      dsimp only [Record.payload, Record.bytes] at hpayload ⊢
      rw [if_neg h₀, if_pos (List.contains_iff_mem.mpr h₁), hpayload, htake, hlen,
        Nat.add_assoc, Nat.add_comm 1]
  | filled flags fill =>
      obtain ⟨h₀, h₁, h₂⟩ : (Record.filled flags fill : Record size).type ≠ 0x00#8 ∧
        (Record.filled flags fill : Record size).type ∉ [0x01#8, 0x03#8, 0x05#8, 0x07#8] ∧
        (Record.filled flags fill : Record size).type ∈ [0x02#8, 0x04#8, 0x06#8, 0x08#8] :=
        filledType flags
      dsimp only [Record.payload, Record.bytes] at hpayload ⊢
      rw [if_neg h₀, if_neg (mt List.contains_iff_mem.mp h₁), if_pos (List.contains_iff_mem.mpr h₂),
        byteAt_of_drop hpayload]
      rfl

theorem copySectors_bytes {sectors : List (Byte × Record size)}
    (h : raw.drop pos = sectorBytes sectors ++ rest) :
    copySectors raw size sectors.length pos =
      .ok (sectorBytes sectors, pos + (sectorBytes sectors).length) := by
  induction sectors generalizing pos with
  | nil => rfl
  | cons sector sectors ih =>
      have hfirst : raw.drop pos = sector.2.bytes ++ (sectorBytes sectors ++ rest) := by
        rw [h, ← List.append_assoc]
        rfl
      rw [List.length_cons, copySectors, copySector_bytes sector.2 hfirst, ok_bind]
      dsimp only
      rw [ih (drop_of_drop hfirst), ok_bind]
      simp [sectorBytes, Nat.add_assoc]

/-- A map is copied where its bit announces it. -/
theorem copyMap {present : Prop} [Decidable present] {map : List Byte} {count : Nat}
    (hlen : map.length = if present then count else 0) (h : raw.drop pos = map ++ rest) :
    (if present then ((raw.drop pos).take count, pos + count) else ([], pos)) =
      (map, pos + map.length) := by
  by_cases hpresent : present
  · rw [if_pos hpresent] at hlen ⊢
    rw [h, ← hlen, List.take_left]
  · rw [if_neg hpresent] at hlen ⊢
    rw [List.eq_nil_of_length_eq_zero hlen]
    rfl

theorem rebaseTrack_numbers {t : Track} {delta : Int} (h : raw.drop pos = t.bytes ++ rest) :
    rebaseTrack raw delta pos = (shiftNumbers delta (t.sectors.map Prod.fst) >>= fun numbers =>
      .ok ([t.mode, t.cyl, t.headByte, BitVec.ofNat 8 t.sectors.length, t.sizeCode] ++
        (numbers ++ (t.cylBytes ++ (t.headBytes ++ sectorBytes t.sectors))),
          pos + t.bytes.length)) := by
  have hat := trackAt h
  have hcount : (BitVec.ofNat 8 t.sectors.length).toNat = t.sectors.length := by
    rw [BitVec.toNat_ofNat]
    exact Nat.mod_eq_of_lt t.count
  have hnumbers : (raw.drop (pos + 5)).take t.sectors.length = t.sectors.map Prod.fst := by
    have hlen : t.sectors.length = (t.sectors.map Prod.fst).length := by rw [List.length_map]
    rw [hat.numbers, hlen, List.take_left]
  have hsome : ¬ (0 < t.sectors.length ∧ t.sectors.map Prod.fst = []) := by
    rintro ⟨hpos, hnil⟩
    rw [List.map_eq_nil_iff.mp hnil] at hpos
    exact Nat.lt_irrefl 0 hpos
  have hend : pos + 5 + t.sectors.length + t.cylBytes.length + t.headBytes.length +
      (sectorBytes t.sectors).length = pos + t.bytes.length := by
    rw [t.length_bytes]
    omega
  unfold rebaseTrack
  rw [hat.mode, ok_bind, hat.cyl, ok_bind, hat.head, ok_bind, hat.count, ok_bind, hat.size, ok_bind,
    hat.header, hcount]
  dsimp only
  rw [hnumbers]
  refine congrArg (shiftNumbers delta _ >>= ·) (funext fun numbers => ?_)
  rw [if_neg hsome, copyMap t.length_cylBytes hat.cylMap]
  dsimp only
  rw [copyMap t.length_headBytes hat.headMap]
  dsimp only
  rw [copySectors_bytes hat.records, ok_bind, hend]

/-- The pass over a track writes it with the other numbers. -/
theorem rebaseTrack_bytes {t : Track} {delta : Int}
    (hrange : ∀ sector ∈ t.sectors, InRange delta sector.1) (h : raw.drop pos = t.bytes ++ rest) :
    rebaseTrack raw delta pos =
      .ok ((t.renumber (shift delta)).bytes, pos + t.bytes.length) := by
  rw [rebaseTrack_numbers h, shiftNumbers_inRange (List.forall_mem_map.mpr hrange), ok_bind,
    Track.bytes_renumber]

theorem rebaseTrack_out {t : Track} {delta : Int}
    (hout : ∃ sector ∈ t.sectors, ¬ InRange delta sector.1) (h : raw.drop pos = t.bytes ++ rest) :
    rebaseTrack raw delta pos = .error .value := by
  obtain ⟨sector, hmem, hsector⟩ := hout
  rw [rebaseTrack_numbers h,
    shiftNumbers_out ⟨sector.1, List.mem_map_of_mem hmem, hsector⟩]
  rfl

theorem rebaseTracks_step {delta : Int} (hpos : pos < raw.length) :
    rebaseTracks raw delta pos = (rebaseTrack raw delta pos >>= fun run =>
      (rebaseTracks raw delta run.2).map fun rest => (run.1 ++ rest.1, rest.2 + 1)) := by
  rw [rebaseTracks, if_pos hpos]
  split
  · rename_i e herror
    rw [herror]
    rfl
  · rename_i bytes next hok
    rw [hok]
    rfl

/-- The passes over the tracks, by induction on them. -/
theorem rebaseTracks_bytes {tracks : List Track} {delta : Int}
    (hrange : ∀ t ∈ tracks, ∀ sector ∈ t.sectors, InRange delta sector.1)
    (h : raw.drop pos = tracks.flatMap Track.bytes) :
    rebaseTracks raw delta pos =
      .ok ((tracks.map (Track.renumber (shift delta))).flatMap Track.bytes, tracks.length) := by
  induction tracks generalizing pos with
  | nil =>
      rw [rebaseTracks, if_neg (Nat.not_lt.mpr (List.drop_eq_nil_iff.mp h))]
      rfl
  | cons t tracks ih =>
      obtain ⟨ht, htracks⟩ := List.forall_mem_cons.mp hrange
      rw [List.flatMap_cons] at h
      rw [rebaseTracks_step (before_end h), rebaseTrack_bytes ht h, ok_bind,
        ih htracks (drop_of_drop h)]
      rfl

theorem rebaseTracks_out {tracks : List Track} {delta : Int}
    (hout : ∃ t ∈ tracks, ∃ sector ∈ t.sectors, ¬ InRange delta sector.1)
    (h : raw.drop pos = tracks.flatMap Track.bytes) :
    rebaseTracks raw delta pos = .error .value := by
  induction tracks generalizing pos with
  | nil => simp at hout
  | cons t tracks ih =>
      rw [List.flatMap_cons] at h
      rw [rebaseTracks_step (before_end h)]
      by_cases ht : ∃ sector ∈ t.sectors, ¬ InRange delta sector.1
      · rw [rebaseTrack_out ht h]
        rfl
      · obtain ⟨t', ht', hsector⟩ := hout
        rcases List.mem_cons.mp ht' with rfl | ht'
        · exact absurd hsector ht
        · push Not at ht
          rw [rebaseTrack_bytes ht h, ok_bind, ih ⟨t', ht', hsector⟩ (drop_of_drop h)]
          rfl

end Copying

theorem rebase_image (image : Image) (delta : Int) :
    rebase image.bytes delta =
      (rebaseTracks image.bytes delta (image.comment.length + 1)).map fun run =>
        (image.bytes.take (image.comment.length + 1) ++ run.1, run.2) := by
  rw [rebase, image.find_end]

theorem rebase_bytes {image : Image} {delta : Int} (hrange : image.InRange delta) :
    rebase image.bytes delta =
      .ok ((image.renumber (shift delta)).bytes, image.tracks.length) := by
  have hcomment : image.bytes.take (image.comment.length + 1) = image.comment ++ [0x1A#8] := by
    rw [Image.bytes, List.take_length_add_append]
    rfl
  rw [rebase_image, rebaseTracks_bytes hrange image.drop_comment, hcomment]
  simp [Except.map, Image.bytes, Image.renumber]

theorem rebase_out {image : Image} {delta : Int} (hout : ¬ image.InRange delta) :
    rebase image.bytes delta = .error .value := by
  have hsector : ∃ t ∈ image.tracks, ∃ sector ∈ t.sectors, ¬ InRange delta sector.1 := by
    simpa [Image.InRange] using hout
  rw [rebase_image, rebaseTracks_out hsector image.drop_comment]
  rfl

end ImdRebase

/-! ### Track 0 -/

namespace Imd2raw

/-- A track that was read, with other numbers. -/
def renumber (f : Byte → Byte) (t : ImdTrack) : ImdTrack :=
  { t with sectors := t.sectors.map fun s => (f s.1, s.2) }

/-- Numbers that all change by the same are sorted as before. -/
theorem sortSectors_shift {delta : Int} {sectors : List (Byte × List Byte)}
    (hrange : ∀ s ∈ sectors, ImdRebase.InRange delta s.1) :
    sortSectors (sectors.map fun s => (ImdRebase.shift delta s.1, s.2)) =
      (sortSectors sectors).map fun s => (ImdRebase.shift delta s.1, s.2) := by
  unfold sortSectors
  refine (List.map_mergeSort fun s hs s' hs' => ?_).symm
  have hfirst := ImdRebase.toNat_shift (hrange s hs)
  have hsecond := ImdRebase.toNat_shift (hrange s' hs')
  rw [decide_eq_decide]
  dsimp only
  omega

theorem track0_shift {delta : Int} {tracks : List ImdTrack}
    (hrange : ∀ t ∈ tracks, ∀ s ∈ t.sectors, ImdRebase.InRange delta s.1) :
    track0 (tracks.map (renumber (ImdRebase.shift delta))) = track0 tracks := by
  induction tracks with
  | nil => rfl
  | cons t tracks ih =>
      obtain ⟨ht, htracks⟩ := List.forall_mem_cons.mp hrange
      rw [List.map_cons, track0, track0, ih htracks]
      have hsort : sortSectors (renumber (ImdRebase.shift delta) t).sectors =
          (sortSectors t.sectors).map fun s => (ImdRebase.shift delta s.1, s.2) :=
        sortSectors_shift ht
      rw [hsort]
      cases sortSectors t.sectors with
      | nil => rfl
      | cons s sectors =>
          simp [renumber, List.flatMap_map]

end Imd2raw

/-- The number map of an image in the files that are read to their end. -/
theorem inRange_iff {image : Image} {delta : Int} :
    (∀ t ∈ image.tracks.map (Track.read 0x3F#8), ∀ s ∈ t.sectors, ImdRebase.InRange delta s.1) ↔
      image.InRange delta := by
  simp [Image.InRange, Track.read, sectorData]

/-- What `rebase` makes of a file. -/
structure Rebased (delta : Int) (raw : List Byte) (tracks : List ImdTrack) (out : List Byte) :
    Prop where
  written : ImdRebase.rebase raw delta = .ok (out, tracks.length)
  length : out.length = raw.length
  reads : Imd2raw.parseImd out =
    .ok (tracks.map (Imd2raw.renumber (ImdRebase.shift delta)), out.length)
  back : ImdRebase.rebase out (-delta) = .ok (raw, tracks.length)
  track0 : Imd2raw.extractTrack0 out = Imd2raw.extractTrack0 raw

/-- **Rebasing** a file that is read to its end changes the numbers and nothing else, is undone by
the opposite one, and changes nothing for `extract_track0`; and it fails where a number is no
byte after it. -/
theorem rebase_keeps {raw : List Byte} {tracks : List ImdTrack} (delta : Int)
    (hread : Imd2raw.parseImd raw = .ok (tracks, raw.length)) :
    ((∀ t ∈ tracks, ∀ s ∈ t.sectors, ImdRebase.InRange delta s.1) →
      ∃ out, Rebased delta raw tracks out) ∧
    ((∃ t ∈ tracks, ∃ s ∈ t.sectors, ¬ ImdRebase.InRange delta s.1) →
      ImdRebase.rebase raw delta = .error .value) := by
  obtain ⟨image, rfl, rfl⟩ := accepts_iff.mp hread
  constructor
  · intro hall
    have hrange : image.InRange delta := inRange_iff.mp hall
    have hlen := image.length_bytes_renumber (ImdRebase.shift delta)
    have hreads : Imd2raw.parseImd (image.renumber (ImdRebase.shift delta)).bytes =
        .ok ((image.tracks.map (Track.read 0x3F#8)).map
          (Imd2raw.renumber (ImdRebase.shift delta)),
            (image.renumber (ImdRebase.shift delta)).bytes.length) := by
      refine (VerifyAgainstImd.parseImd_bytes _).trans ?_
      rw [Image.renumber, List.map_map, List.map_map]
      exact congrArg (fun tracks => Except.ok (tracks, _))
        (List.map_congr_left fun t _ => t.read_renumber _ _)
    refine ⟨(image.renumber (ImdRebase.shift delta)).bytes, ?_, hlen, hreads, ?_, ?_⟩
    · rw [ImdRebase.rebase_bytes hrange, List.length_map]
    · have hback : (image.renumber (ImdRebase.shift delta)).InRange (-delta) := by
        intro t' ht' sector' hsector'
        obtain ⟨t, ht, rfl⟩ := List.mem_map.mp ht'
        obtain ⟨sector, hsector, rfl⟩ := List.mem_map.mp hsector'
        exact ImdRebase.inRange_shift (hrange t ht sector hsector)
      rw [ImdRebase.rebase_bytes hback, image.renumber_renumber _ fun t ht sector hsector =>
        ImdRebase.shift_shift (hrange t ht sector hsector)]
      simp [Image.renumber]
    · rw [Imd2raw.extractTrack0, Imd2raw.extractTrack0, hreads, hread]
      exact Imd2raw.track0_shift hall
  · rintro ⟨t, ht, s, hs, hout⟩
    exact ImdRebase.rebase_out fun hrange => hout (inRange_iff.mpr hrange t ht s hs)

theorem unended_nil : (0x1A#8 : Byte) ∉ ([] : List Byte) := List.not_mem_nil

theorem zero_lt_heads : 0 < 64 := by decide

theorem zero_lt_flags : 0 < 4 := by decide

theorem one_lt_flags : 1 < 4 := by decide

/-- Two sectors with the numbers 0 and 1. -/
def zeroBased : Image where
  comment := []
  unended := unended_nil
  tracks := [⟨0x03#8, 0#8, ⟨0, zero_lt_heads⟩, 0#8,
    [(0#8, .filled ⟨0, zero_lt_flags⟩ 0xE5#8), (1#8, .filled ⟨1, one_lt_flags⟩ 0x20#8)],
    by decide, none, none⟩]

theorem rebase_keeps_zeroBased :
    (∃ out, Rebased 1 zeroBased.bytes (zeroBased.tracks.map (Track.read 0x3F#8)) out) ∧
      ImdRebase.rebase zeroBased.bytes (-1) = .error .value := by
  have hread : Imd2raw.parseImd zeroBased.bytes = _ := VerifyAgainstImd.parseImd_bytes zeroBased
  constructor
  · refine (rebase_keeps 1 hread).1 (inRange_iff.mpr fun t ht sector hsector => ?_)
    obtain rfl := List.mem_singleton.mp ht
    simp only [List.mem_cons, List.not_mem_nil, or_false] at hsector
    rcases hsector with rfl | rfl
    · decide
    · decide
  · exact (rebase_keeps (-1) hread).2 ⟨_, List.mem_cons_self, _, List.mem_cons_self, by decide⟩

end Formats
end Rc700
