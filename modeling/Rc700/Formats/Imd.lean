import Mathlib.Data.List.Basic
import Mathlib.Tactic.Common
import Rc700.Library.Word

/-!
# IMD disk images

The two readers of IMD images, `parse_imd` of `verify_checksums.py` and of
`verify_against_imd.py`, and the images they are given.

Both walk the same tracks.  They differ in the bits of the head byte that they keep, and the
first takes a record of type 5 to 8 for one without data and goes on inside its data.  Where
no track needs either, they agree; and they do not where the first such record says anything
(`imd_readers_agree`).
-/

namespace Rc700
namespace Formats

/-! ### Images -/

/-- The record of a sector: types 0, the odd ones, and the even ones. -/
inductive Record (size : Nat)
  | absent
  | full (flags : Fin 4) (data : List Byte) (hlen : data.length = size)
  | filled (flags : Fin 4) (fill : Byte)

namespace Record

variable {size : Nat}

def type : Record size → Byte
  | absent => 0#8
  | full flags _ _ => BitVec.ofNat 8 (2 * flags.val + 1)
  | filled flags _ => BitVec.ofNat 8 (2 * flags.val + 2)

/-- What follows the type. -/
def payload : Record size → List Byte
  | absent => []
  | full _ data _ => data
  | filled _ fill => [fill]

def bytes (r : Record size) : List Byte := r.type :: r.payload

theorem length_bytes (r : Record size) : r.bytes.length = r.payload.length + 1 := rfl

/-- The data of the sector. -/
def data : Record size → List Byte
  | absent => List.replicate size 0#8
  | full _ data _ => data
  | filled _ fill => List.replicate size fill

/-- A record of type 0 to 4. -/
def Plain : Record size → Prop
  | absent => True
  | full flags _ _ => flags.val < 2
  | filled flags _ => flags.val < 2

end Record

/-- A track, with the numbers and the records of its sectors. -/
structure Track where
  mode : Byte
  cyl : Byte
  head : Fin 64
  sizeCode : Byte
  sectors : List (Byte × Record (128 <<< sizeCode.toNat))
  count : sectors.length < 256
  cylMap : Option {map : List Byte // map.length = sectors.length}
  headMap : Option {map : List Byte // map.length = sectors.length}

namespace Track

def headByte (t : Track) : Byte :=
  BitVec.ofNat 8 (t.head.val + (if t.cylMap.isSome then 0x80 else 0) +
    (if t.headMap.isSome then 0x40 else 0))

/-- The optional maps. -/
def cylBytes (t : Track) : List Byte := (t.cylMap.map Subtype.val).getD []

def headBytes (t : Track) : List Byte := (t.headMap.map Subtype.val).getD []

def bytes (t : Track) : List Byte :=
  [t.mode, t.cyl, t.headByte, BitVec.ofNat 8 t.sectors.length, t.sizeCode] ++
    (t.sectors.map Prod.fst ++ (t.cylBytes ++ (t.headBytes ++
      t.sectors.flatMap fun sector => sector.2.bytes)))

/-- Every sector has a record of type 0 to 4 and is on head 0 or 1. -/
def Plain (t : Track) : Prop := ∀ sector ∈ t.sectors, t.head.val ≤ 1 ∧ sector.2.Plain

end Track

/-- An image: a comment that 0x1A ends, and the tracks. -/
structure Image where
  comment : List Byte
  unended : 0x1A#8 ∉ comment
  tracks : List Track

namespace Image

def bytes (image : Image) : List Byte :=
  image.comment ++ 0x1A#8 :: image.tracks.flatMap Track.bytes

def Plain (image : Image) : Prop := ∀ t ∈ image.tracks, t.Plain

end Image

/-! ### The readers -/

inductive ImdError
  | value
  | index
  | unknownType (stype : Byte) (offset : Nat)
  deriving DecidableEq, Repr

/-- `raw[pos]` -/
def byteAt (raw : List Byte) (pos : Nat) : Except ImdError Byte :=
  match raw[pos]? with
  | some b => .ok b
  | none => .error .index

/-- How a record is read: its data and where the next one is. -/
structure SectorReader where
  read : List Byte → Nat → Nat → Except ImdError (List Byte × Nat)
  advances : ∀ {raw size pos data next}, read raw size pos = .ok (data, next) → pos < next

/-- `for i in range(nsec)` -/
def readSectors (read : Nat → Except ImdError (List Byte × Nat)) (secMap : List Byte) :
    (count i pos : Nat) → Except ImdError (List (Byte × List Byte) × Nat)
  | 0, _, pos => .ok ([], pos)
  | count + 1, i, pos => do
      let (sdata, pos) ← read pos
      let id ← byteAt secMap i
      let (sectors, pos) ← readSectors read secMap count (i + 1) pos
      .ok ((id, sdata) :: sectors, pos)

/-- A track that was read. -/
structure ImdTrack where
  cyl : Byte
  head : Byte
  mode : Byte
  nsect : Nat
  sectsize : Nat
  sectors : List (Byte × List Byte)
  deriving DecidableEq, Repr

/-- A sector: cylinder, head, number and data. -/
abbrev Entry := Byte × Byte × Byte × List Byte

def ImdTrack.entries (t : ImdTrack) : List Entry :=
  t.sectors.map fun sector => (t.cyl, t.head, sector.1, sector.2)

/-- One pass of `while pos < len(raw)`. -/
def readTrack (reader : SectorReader) (headMask : Byte) (raw : List Byte) (pos : Nat) :
    Except ImdError (ImdTrack × Nat) := do
  let mode ← byteAt raw pos
  let cyl ← byteAt raw (pos + 1)
  let headByte ← byteAt raw (pos + 2)
  let nsec ← byteAt raw (pos + 3)
  let secsizeCode ← byteAt raw (pos + 4)
  let nsec := nsec.toNat
  let secsize := 128 <<< secsizeCode.toNat
  let secMap := (raw.drop (pos + 5)).take nsec
  let pos := pos + 5 + nsec
  let pos := if headByte &&& 0x80#8 ≠ 0#8 then pos + nsec else pos
  let pos := if headByte &&& 0x40#8 ≠ 0#8 then pos + nsec else pos
  let (sectors, pos) ← readSectors (reader.read raw secsize) secMap nsec 0 pos
  .ok (⟨cyl, headByte &&& headMask, mode, nsec, secsize, sectors⟩, pos)

/-! A pass goes forward. -/

theorem bind_ok {α β : Type} {x : Except ImdError α} {f : α → Except ImdError β} {b : β}
    (h : (x >>= f) = .ok b) : ∃ a, x = .ok a ∧ f a = .ok b := by
  cases x with
  | error e => exact nomatch h
  | ok a => exact ⟨a, rfl, h⟩

theorem readSectors_le {reader : SectorReader} {raw secMap : List Byte} {size count i pos : Nat}
    {sectors : List (Byte × List Byte)} {next : Nat}
    (h : readSectors (reader.read raw size) secMap count i pos = .ok (sectors, next)) :
    pos ≤ next := by
  induction count generalizing i pos sectors next with
  | zero =>
      rw [readSectors] at h
      exact (Prod.mk.inj (Except.ok.inj h)).2.le
  | succ count ih =>
      rw [readSectors] at h
      obtain ⟨⟨sdata, middle⟩, hread, h⟩ := bind_ok h
      obtain ⟨id, -, h⟩ := bind_ok h
      obtain ⟨⟨rest, last⟩, hrest, h⟩ := bind_ok h
      have hlast : last = next := (Prod.mk.inj (Except.ok.inj h)).2
      have hforward := reader.advances hread
      have hmore := ih hrest
      omega

theorem readTrack_lt {reader : SectorReader} {headMask : Byte} {raw : List Byte} {pos : Nat}
    {track : ImdTrack} {next : Nat} (h : readTrack reader headMask raw pos = .ok (track, next)) :
    pos < next := by
  unfold readTrack at h
  obtain ⟨_, -, h⟩ := bind_ok h
  obtain ⟨_, -, h⟩ := bind_ok h
  obtain ⟨headByte, -, h⟩ := bind_ok h
  obtain ⟨nsec, -, h⟩ := bind_ok h
  obtain ⟨_, -, h⟩ := bind_ok h
  obtain ⟨⟨sectors, last⟩, hsectors, h⟩ := bind_ok h
  have hlast : last = next := (Prod.mk.inj (Except.ok.inj h)).2
  have hforward := readSectors_le hsectors
  subst hlast
  refine lt_of_lt_of_le ?_ hforward
  split <;> split <;> omega

/-- `while pos < len(raw)`: the tracks, and the position at the end. -/
def readTracks (reader : SectorReader) (headMask : Byte) (raw : List Byte) (pos : Nat) :
    Except ImdError (List ImdTrack × Nat) :=
  if pos < raw.length then
    match _h : readTrack reader headMask raw pos with
    | .error e => .error e
    | .ok (track, next) =>
        (readTracks reader headMask raw next).map fun rest => (track :: rest.1, rest.2)
  else .ok ([], pos)
termination_by raw.length - pos
decreasing_by
  have := readTrack_lt _h
  omega

/-- The body of both functions. -/
def readImage (reader : SectorReader) (headMask : Byte) (raw : List Byte) :
    Except ImdError (List ImdTrack × Nat) :=
  match raw.idxOf? 0x1A#8 with
  | none => .error .value
  | some i => readTracks reader headMask raw (i + 1)

namespace VerifyChecksums

/-- One pass of the loop over the sectors. -/
def readSector (raw : List Byte) (secsize pos : Nat) : Except ImdError (List Byte × Nat) := do
  let dtype ← byteAt raw pos
  let pos := pos + 1
  if dtype = 0#8 then .ok (List.replicate secsize 0#8, pos)
  else if dtype = 1#8 then .ok ((raw.drop pos).take secsize, pos + secsize)
  else if dtype = 2#8 then do
    let fill ← byteAt raw pos
    .ok (List.replicate secsize fill, pos + 1)
  else if dtype = 3#8 then .ok ((raw.drop pos).take secsize, pos + secsize)
  else if dtype = 4#8 then do
    let fill ← byteAt raw pos
    .ok (List.replicate secsize fill, pos + 1)
  else .ok (List.replicate secsize 0#8, pos)

theorem readSector_lt {raw : List Byte} {secsize pos : Nat} {data : List Byte} {next : Nat}
    (h : readSector raw secsize pos = .ok (data, next)) : pos < next := by
  unfold readSector at h
  obtain ⟨dtype, -, h⟩ := bind_ok h
  split_ifs at h
  · simp at h; omega
  · simp at h; omega
  · obtain ⟨fill, -, h⟩ := bind_ok h
    simp at h; omega
  · simp at h; omega
  · obtain ⟨fill, -, h⟩ := bind_ok h
    simp at h; omega
  · simp at h; omega

def sectorReader : SectorReader := ⟨readSector, readSector_lt⟩

/-- `parse_imd`: the sectors, and the position at the end. -/
def parseImd (raw : List Byte) : Except ImdError (List Entry × Nat) :=
  (readImage sectorReader 0x01#8 raw).map fun image => (image.1.flatMap ImdTrack.entries, image.2)

end VerifyChecksums

namespace VerifyAgainstImd

/-- One pass of the loop over the sectors. -/
def readSector (data : List Byte) (sectsize pos : Nat) : Except ImdError (List Byte × Nat) := do
  let stype ← byteAt data pos
  let pos := pos + 1
  if stype = 0x00#8 then .ok (List.replicate sectsize 0#8, pos)
  else if stype ∈ [0x01#8, 0x03#8, 0x05#8, 0x07#8] then
    .ok ((data.drop pos).take sectsize, pos + sectsize)
  else if stype ∈ [0x02#8, 0x04#8, 0x06#8, 0x08#8] then do
    let fill ← byteAt data pos
    .ok (List.replicate sectsize fill, pos + 1)
  else .error (.unknownType stype (pos - 1))

theorem readSector_lt {raw : List Byte} {sectsize pos : Nat} {data : List Byte} {next : Nat}
    (h : readSector raw sectsize pos = .ok (data, next)) : pos < next := by
  unfold readSector at h
  obtain ⟨stype, -, h⟩ := bind_ok h
  split_ifs at h
  · simp at h; omega
  · simp at h; omega
  · obtain ⟨fill, -, h⟩ := bind_ok h
    simp at h; omega

def sectorReader : SectorReader := ⟨readSector, readSector_lt⟩

/-- `parse_imd`: the tracks, and the position at the end. -/
def parseImd (data : List Byte) : Except ImdError (List ImdTrack × Nat) :=
  readImage sectorReader 0x3F#8 data

end VerifyAgainstImd

/-- Both readers consume the whole image, and yield the same sectors. -/
def Agree (image : Image) : Prop :=
  ∃ entries tracks,
    VerifyChecksums.parseImd image.bytes = .ok (entries, image.bytes.length) ∧
    VerifyAgainstImd.parseImd image.bytes = .ok (tracks, image.bytes.length) ∧
    entries = tracks.flatMap ImdTrack.entries

/-! ### Reading what was written -/

section Reading

variable {raw rest : List Byte} {pos : Nat}

theorem byteAt_of_drop {b : Byte} (h : raw.drop pos = b :: rest) : byteAt raw pos = .ok b := by
  have hget : raw[pos]? = some b := by
    rw [← List.head?_drop, h]
    rfl
  rw [byteAt, hget]

theorem drop_of_drop {xs : List Byte} (h : raw.drop pos = xs ++ rest) :
    raw.drop (pos + xs.length) = rest := by
  rw [← List.drop_drop, h, List.drop_left]

theorem drop_succ {b : Byte} (h : raw.drop pos = b :: rest) : raw.drop (pos + 1) = rest :=
  @drop_of_drop raw rest pos [b] h

theorem ok_bind {α β : Type} (a : α) (f : α → Except ImdError β) : (Except.ok a >>= f) = f a := rfl

variable {size : Nat}

/-- The types of the records. -/
theorem fullType : ∀ flags : Fin 4,
    BitVec.ofNat 8 (2 * flags.val + 1) ≠ 0x00#8 ∧
      BitVec.ofNat 8 (2 * flags.val + 1) ∈ [0x01#8, 0x03#8, 0x05#8, 0x07#8] := by decide

theorem filledType : ∀ flags : Fin 4,
    BitVec.ofNat 8 (2 * flags.val + 2) ≠ 0x00#8 ∧
      BitVec.ofNat 8 (2 * flags.val + 2) ∉ [0x01#8, 0x03#8, 0x05#8, 0x07#8] ∧
      BitVec.ofNat 8 (2 * flags.val + 2) ∈ [0x02#8, 0x04#8, 0x06#8, 0x08#8] := by decide

/-- The second reader takes every record. -/
theorem VerifyAgainstImd.readSector_bytes (r : Record size) (h : raw.drop pos = r.bytes ++ rest) :
    VerifyAgainstImd.readSector raw size pos = .ok (r.data, pos + r.bytes.length) := by
  have hpayload : raw.drop (pos + 1) = r.payload ++ rest := drop_succ h
  unfold VerifyAgainstImd.readSector
  rw [byteAt_of_drop h, ok_bind, Record.length_bytes]
  cases r with
  | absent => rfl
  | full flags data hlen =>
      obtain ⟨h₀, h₁⟩ : (Record.full flags data hlen).type ≠ 0x00#8 ∧
        (Record.full flags data hlen).type ∈ [0x01#8, 0x03#8, 0x05#8, 0x07#8] := fullType flags
      dsimp only [Record.payload, Record.data] at hpayload ⊢
      rw [if_neg h₀, if_pos h₁, hpayload, ← hlen, List.take_left, Nat.add_assoc, Nat.add_comm 1]
  | filled flags fill =>
      obtain ⟨h₀, h₁, h₂⟩ : (Record.filled flags fill : Record size).type ≠ 0x00#8 ∧
        (Record.filled flags fill : Record size).type ∉ [0x01#8, 0x03#8, 0x05#8, 0x07#8] ∧
        (Record.filled flags fill : Record size).type ∈ [0x02#8, 0x04#8, 0x06#8, 0x08#8] :=
        filledType flags
      dsimp only [Record.payload, Record.data] at hpayload ⊢
      rw [if_neg h₀, if_neg h₁, if_pos h₂, byteAt_of_drop hpayload]
      rfl

theorem fullType_cases : ∀ flags : Fin 4,
    (flags.val < 2 ∧ (BitVec.ofNat 8 (2 * flags.val + 1) = 1#8 ∨
      BitVec.ofNat 8 (2 * flags.val + 1) = 3#8)) ∨
    ¬ flags.val < 2 ∧ BitVec.ofNat 8 (2 * flags.val + 1) ∉ [0#8, 1#8, 2#8, 3#8, 4#8] := by decide

theorem filledType_cases : ∀ flags : Fin 4,
    (flags.val < 2 ∧ (BitVec.ofNat 8 (2 * flags.val + 2) = 2#8 ∨
      BitVec.ofNat 8 (2 * flags.val + 2) = 4#8)) ∨
    ¬ flags.val < 2 ∧ BitVec.ofNat 8 (2 * flags.val + 2) ∉ [0#8, 1#8, 2#8, 3#8, 4#8] := by decide

/-- The first reader takes a record of type 0 to 4. -/
theorem VerifyChecksums.readSector_plain {r : Record size} (hplain : r.Plain)
    (h : raw.drop pos = r.bytes ++ rest) :
    VerifyChecksums.readSector raw size pos = .ok (r.data, pos + r.bytes.length) := by
  have hpayload : raw.drop (pos + 1) = r.payload ++ rest := drop_succ h
  unfold VerifyChecksums.readSector
  rw [byteAt_of_drop h, ok_bind, Record.length_bytes]
  cases r with
  | absent => rfl
  | full flags data hlen =>
      have hdata : (Except.ok ((raw.drop (pos + 1)).take size, pos + 1 + size) :
          Except ImdError (List Byte × Nat)) = .ok (data, pos + (data.length + 1)) := by
        dsimp only [Record.payload] at hpayload
        rw [hpayload, ← hlen, List.take_left, Nat.add_assoc, Nat.add_comm 1]
      -- of the record types the script takes 1 to 4 only, those of plain sectors
      rcases fullType_cases flags with ⟨-, htype⟩ | ⟨hout, -⟩
      · have htype' : (Record.full flags data hlen).type = 1#8 ∨
          (Record.full flags data hlen).type = 3#8 := htype
        rcases htype' with htype' | htype'
        · rw [htype']
          exact hdata
        · rw [htype']
          exact hdata
      · exact absurd hplain hout
  | filled flags fill =>
      have hdata : (byteAt raw (pos + 1) >>= fun b =>
          (Except.ok (List.replicate size b, pos + 1 + 1) : Except ImdError (List Byte × Nat))) =
          .ok (List.replicate size fill, pos + 2) := by
        rw [byteAt_of_drop hpayload]
        rfl
      rcases filledType_cases flags with ⟨-, htype⟩ | ⟨hout, -⟩
      · have htype' : (Record.filled flags fill : Record size).type = 2#8 ∨
          (Record.filled flags fill : Record size).type = 4#8 := htype
        rcases htype' with htype' | htype'
        · rw [htype']
          exact hdata
        · rw [htype']
          exact hdata
      · exact absurd hplain hout

/-- The first reader takes any other record for zeros, and stays before its data. -/
theorem VerifyChecksums.readSector_other {r : Record size} (hother : ¬ r.Plain)
    (h : raw.drop pos = r.bytes ++ rest) :
    VerifyChecksums.readSector raw size pos = .ok (List.replicate size 0#8, pos + 1) := by
  have htype : r.type ∉ [0#8, 1#8, 2#8, 3#8, 4#8] := by
    cases r with
    | absent => exact absurd trivial hother
    | full flags data hlen =>
        rcases fullType_cases flags with ⟨hin, -⟩ | ⟨-, htype⟩
        · exact absurd hin hother
        · exact htype
    | filled flags fill =>
        rcases filledType_cases flags with ⟨hin, -⟩ | ⟨-, htype⟩
        · exact absurd hin hother
        · exact htype
  simp only [List.mem_cons, List.not_mem_nil, or_false, not_or] at htype
  obtain ⟨h₀, h₁, h₂, h₃, h₄⟩ := htype
  unfold VerifyChecksums.readSector
  rw [byteAt_of_drop h, ok_bind]
  simp only [h₀, h₁, h₂, h₃, h₄, if_false]

/-! ### The sectors of a track -/

/-- The bytes of some sectors. -/
def sectorBytes (sectors : List (Byte × Record size)) : List Byte :=
  sectors.flatMap fun sector => sector.2.bytes

/-- What is to be read of some sectors. -/
def sectorData (sectors : List (Byte × Record size)) : List (Byte × List Byte) :=
  sectors.map fun sector => (sector.1, sector.2.data)

/-- A reader that takes each of the sectors takes all of them. -/
theorem readSectors_eq {read : Nat → Except ImdError (List Byte × Nat)}
    {sectors : List (Byte × Record size)}
    (hread : ∀ sector ∈ sectors, ∀ {pos rest}, raw.drop pos = sector.2.bytes ++ rest →
      read pos = .ok (sector.2.data, pos + sector.2.bytes.length))
    {ids : List Byte} {i : Nat} (hids : ids.drop i = sectors.map Prod.fst)
    (h : raw.drop pos = sectorBytes sectors ++ rest) :
    readSectors read ids sectors.length i pos =
      .ok (sectorData sectors, pos + (sectorBytes sectors).length) := by
  induction sectors generalizing i pos with
  | nil => rfl
  | cons sector sectors ih =>
      have hfirst : raw.drop pos = sector.2.bytes ++ (sectorBytes sectors ++ rest) := by
        rw [h, ← List.append_assoc]
        rfl
      have hid : byteAt ids i = .ok sector.1 := byteAt_of_drop hids
      rw [List.length_cons, readSectors, hread sector (by simp) hfirst, ok_bind]
      dsimp only
      rw [hid, ok_bind, ih (fun next hnext => hread next (List.mem_cons_of_mem sector hnext))
        (drop_succ hids) (drop_of_drop hfirst), ok_bind]
      simp [sectorData, sectorBytes, Nat.add_assoc]

/-- A sector that is taken for zeros, and is zeros. -/
def Blank (sector : Byte × Record size) : Prop :=
  ¬ sector.2.Plain ∧ sector.2.data = List.replicate size 0#8

/-- Sectors that the first reader gets right have records of type 0 to 4, up to a blank one. -/
theorem VerifyChecksums.readSectors_right {sectors : List (Byte × Record size)} {ids : List Byte}
    {i next : Nat} (hids : ids.drop i = sectors.map Prod.fst)
    (h : raw.drop pos = sectorBytes sectors ++ rest)
    (hrun : readSectors (VerifyChecksums.readSector raw size) ids sectors.length i pos =
      .ok (sectorData sectors, next)) :
    (∀ sector ∈ sectors, sector.2.Plain) ∨
      ∃ before sector after, sectors = before ++ sector :: after ∧
        (∀ earlier ∈ before, earlier.2.Plain) ∧ Blank sector := by
  -- by induction on the sectors: all are plain, or the first that is not is blank
  induction sectors generalizing i pos next with
  | nil => exact .inl fun _ hmem => nomatch hmem
  | cons sector sectors ih =>
      have hfirst : raw.drop pos = sector.2.bytes ++ (sectorBytes sectors ++ rest) := by
        rw [h, ← List.append_assoc]
        rfl
      rw [List.length_cons, readSectors] at hrun
      obtain ⟨⟨data, middle⟩, hdata, hrun⟩ := bind_ok hrun
      obtain ⟨id, -, hrun⟩ := bind_ok hrun
      obtain ⟨⟨later, last⟩, hlater, hrun⟩ := bind_ok hrun
      obtain ⟨hcons, rfl⟩ := Prod.mk.inj (Except.ok.inj hrun)
      obtain ⟨hhead, htail⟩ := List.cons.inj hcons
      subst htail
      by_cases hplain : sector.2.Plain
      · rw [VerifyChecksums.readSector_plain hplain hfirst] at hdata
        obtain ⟨-, rfl⟩ := Prod.mk.inj (Except.ok.inj hdata)
        rcases ih (drop_succ hids) (drop_of_drop hfirst) hlater with hall | hblank
        · left
          intro other hother
          rcases List.mem_cons.mp hother with rfl | hother
          · exact hplain
          · exact hall other hother
        · obtain ⟨before, blank, after, rfl, hbefore, hblank⟩ := hblank
          refine .inr ⟨sector :: before, blank, after, rfl, fun other hother => ?_, hblank⟩
          rcases List.mem_cons.mp hother with rfl | hother
          · exact hplain
          · exact hbefore other hother
      -- this sector is taken for zeros, and the data is right all the same
      · rw [VerifyChecksums.readSector_other hplain hfirst] at hdata
        obtain ⟨rfl, -⟩ := Prod.mk.inj (Except.ok.inj hdata)
        refine .inr ⟨[], sector, sectors, rfl, fun _ hmem => (nomatch hmem), hplain, ?_⟩
        exact (Prod.mk.inj hhead).2.symm

end Reading

/-! ### A track -/

section Tracks

variable {raw rest : List Byte} {pos : Nat}

theorem headByte_bits : ∀ (head : Fin 64) (cyl headMap : Bool),
    let b := BitVec.ofNat 8 (head.val + (if cyl then 0x80 else 0) + (if headMap then 0x40 else 0))
    (b &&& 0x80#8 ≠ 0#8 ↔ cyl = true) ∧ (b &&& 0x40#8 ≠ 0#8 ↔ headMap = true) ∧
      b &&& 0x3F#8 = BitVec.ofNat 8 head.val ∧ b &&& 0x01#8 = BitVec.ofNat 8 (head.val % 2) := by
  decide

namespace Track

/-- The size of the sectors. -/
def size (t : Track) : Nat := 128 <<< t.sizeCode.toNat

/-- What is to be read of a track, with the head that is kept. -/
def read (headMask : Byte) (t : Track) : ImdTrack :=
  ⟨t.cyl, t.headByte &&& headMask, t.mode, t.sectors.length, t.size, sectorData t.sectors⟩

/-- The sectors of a track. -/
def entries (t : Track) : List Entry :=
  t.sectors.map fun sector => (t.cyl, BitVec.ofNat 8 t.head.val, sector.1, sector.2.data)

theorem length_cylBytes (t : Track) :
    t.cylBytes.length = if t.headByte &&& 0x80#8 ≠ 0#8 then t.sectors.length else 0 := by
  have hbit := (headByte_bits t.head t.cylMap.isSome t.headMap.isSome).1
  change (t.headByte &&& 0x80#8 ≠ 0#8 ↔ _) at hbit
  cases hmap : t.cylMap with
  | none => simp_all [cylBytes]
  | some map => simp_all [cylBytes, map.2]

theorem length_headBytes (t : Track) :
    t.headBytes.length = if t.headByte &&& 0x40#8 ≠ 0#8 then t.sectors.length else 0 := by
  have hbit := (headByte_bits t.head t.cylMap.isSome t.headMap.isSome).2.1
  change (t.headByte &&& 0x40#8 ≠ 0#8 ↔ _) at hbit
  cases hmap : t.headMap with
  | none => simp_all [headBytes]
  | some map => simp_all [headBytes, map.2]

theorem length_bytes (t : Track) :
    t.bytes.length = 5 + t.sectors.length + t.cylBytes.length + t.headBytes.length +
      (sectorBytes t.sectors).length := by
  simp only [bytes, sectorBytes, List.length_append, List.length_cons, List.length_map,
    List.length_nil]
  omega

/-- The second reader keeps the head. -/
theorem entries_read (t : Track) : (t.read 0x3F#8).entries = t.entries := by
  have hhead := (headByte_bits t.head t.cylMap.isSome t.headMap.isSome).2.2.1
  change t.headByte &&& 0x3F#8 = _ at hhead
  simp only [ImdTrack.entries, read, entries, sectorData, List.map_map, hhead]
  rfl

theorem head_low (t : Track) : t.headByte &&& 0x01#8 = BitVec.ofNat 8 (t.head.val % 2) :=
  (headByte_bits t.head t.cylMap.isSome t.headMap.isSome).2.2.2

theorem bytes_ne_nil (t : Track) : t.bytes ≠ [] := by simp [bytes]

end Track

/-- The pass over a track comes to its records. -/
theorem readTrack_bytes {reader : SectorReader} {headMask : Byte} (t : Track)
    (h : raw.drop pos = t.bytes ++ rest) :
    ∃ start, raw.drop start = sectorBytes t.sectors ++ rest ∧
      start + (sectorBytes t.sectors).length = pos + t.bytes.length ∧
      readTrack reader headMask raw pos =
        (readSectors (reader.read raw t.size) (t.sectors.map Prod.fst) t.sectors.length 0 start >>=
          fun run => .ok (⟨t.cyl, t.headByte &&& headMask, t.mode, t.sectors.length, t.size, run.1⟩,
            run.2)) := by
  -- the track without its first bytes, one after the other
  have h₁ : raw.drop (pos + 1) = t.cyl :: t.headByte :: BitVec.ofNat 8 t.sectors.length ::
      t.sizeCode :: (t.sectors.map Prod.fst ++ (t.cylBytes ++ (t.headBytes ++
        (sectorBytes t.sectors ++ rest)))) := by
    rw [drop_succ h]
    simp [sectorBytes]
  have h₂ := drop_succ h₁
  have h₃ := drop_succ h₂
  have h₄ := drop_succ h₃
  have h₅ := drop_succ h₄
  have h₆ := drop_of_drop h₅
  have h₇ := drop_of_drop h₆
  have h₈ := drop_of_drop h₇
  have hcount : (BitVec.ofNat 8 t.sectors.length).toNat = t.sectors.length := by
    rw [BitVec.toNat_ofNat]
    exact Nat.mod_eq_of_lt t.count
  have hmap : (raw.drop (pos + 5)).take t.sectors.length = t.sectors.map Prod.fst := by
    have hlen : t.sectors.length = (t.sectors.map Prod.fst).length := by rw [List.length_map]
    rw [show pos + 5 = pos + 1 + 1 + 1 + 1 + 1 from rfl, h₅, hlen, List.take_left]
  refine ⟨pos + 5 + t.sectors.length + t.cylBytes.length + t.headBytes.length, ?_, ?_, ?_⟩
  · rw [List.length_map] at h₈
    exact h₈
  · rw [t.length_bytes]
    omega
  · unfold readTrack
    rw [byteAt_of_drop h, ok_bind, byteAt_of_drop h₁, ok_bind, byteAt_of_drop h₂, ok_bind,
      byteAt_of_drop h₃, ok_bind, byteAt_of_drop h₄, ok_bind, hcount, t.length_cylBytes,
      t.length_headBytes]
    dsimp only
    rw [hmap]
    -- the two optional maps
    by_cases hcyl : t.headByte &&& 0x80#8 ≠ 0#8
    · by_cases hhead : t.headByte &&& 0x40#8 ≠ 0#8
      · simp only [hcyl, hhead, if_true, not_false_eq_true, ne_eq]
        rfl
      · simp only [hcyl, hhead, if_true, if_false, not_false_eq_true, ne_eq, Nat.add_zero]
        rfl
    · by_cases hhead : t.headByte &&& 0x40#8 ≠ 0#8
      · simp only [hcyl, hhead, if_true, if_false, not_false_eq_true, ne_eq, Nat.add_zero]
        rfl
      · simp only [hcyl, hhead, if_false, Nat.add_zero]
        rfl

/-- A reader that takes the records of a track takes the track. -/
theorem readTrack_eq {reader : SectorReader} {headMask : Byte} {t : Track}
    (hread : ∀ sector ∈ t.sectors, ∀ {pos rest}, raw.drop pos = sector.2.bytes ++ rest →
      reader.read raw t.size pos = .ok (sector.2.data, pos + sector.2.bytes.length))
    (h : raw.drop pos = t.bytes ++ rest) :
    readTrack reader headMask raw pos = .ok (t.read headMask, pos + t.bytes.length) := by
  obtain ⟨start, hstart, hend, hrun⟩ := @readTrack_bytes _ _ _ reader headMask t h
  rw [hrun, readSectors_eq hread rfl hstart, ok_bind, hend]
  rfl

/-! ### The image -/

theorem readTracks_step {reader : SectorReader} {headMask : Byte} (hpos : pos < raw.length) :
    readTracks reader headMask raw pos =
      (readTrack reader headMask raw pos >>= fun run =>
        (readTracks reader headMask raw run.2).map fun rest => (run.1 :: rest.1, rest.2)) := by
  rw [readTracks, if_pos hpos]
  split
  · rename_i e herror
    rw [herror]
    rfl
  · rename_i track next hok
    rw [hok]
    rfl

/-- The position after some bytes. -/
theorem after_le {xs : List Byte} (h : raw.drop pos = xs ++ rest) (hpos : pos ≤ raw.length) :
    pos + xs.length ≤ raw.length := by
  have hlen := congrArg List.length h
  rw [List.length_drop, List.length_append] at hlen
  omega

theorem before_end {t : Track} (h : raw.drop pos = t.bytes ++ rest) : pos < raw.length := by
  by_contra hout
  rw [List.drop_eq_nil_of_le (by omega)] at h
  exact t.bytes_ne_nil (List.append_eq_nil_iff.mp h.symm).1

/-- A reader that takes each of the tracks takes all of them. -/
theorem readTracks_eq {reader : SectorReader} {headMask : Byte} {tracks : List Track}
    (hread : ∀ t ∈ tracks, ∀ {pos rest}, raw.drop pos = t.bytes ++ rest →
      readTrack reader headMask raw pos = .ok (t.read headMask, pos + t.bytes.length))
    (h : raw.drop pos = tracks.flatMap Track.bytes) (hpos : pos ≤ raw.length) :
    readTracks reader headMask raw pos = .ok (tracks.map (Track.read headMask), raw.length) := by
  induction tracks generalizing pos with
  | nil =>
      have hend : raw.length ≤ pos := List.drop_eq_nil_iff.mp h
      rw [readTracks, if_neg (Nat.not_lt.mpr hend), Nat.le_antisymm hpos hend]
      rfl
  | cons t tracks ih =>
      rw [List.flatMap_cons] at h
      rw [readTracks_step (before_end h), hread t (by simp) h, ok_bind,
        ih (fun next hnext => hread next (List.mem_cons_of_mem t hnext)) (drop_of_drop h)
          (after_le h hpos)]
      rfl

/-- A track whose first record of another type is blank, and that is right up to it. -/
def FirstBlank (t : Track) : Prop :=
  t.head.val ≤ 1 ∧ ∃ before sector after, t.sectors = before ++ sector :: after ∧
    (∀ earlier ∈ before, earlier.2.Plain) ∧ Blank sector

theorem length_readSectors {read : Nat → Except ImdError (List Byte × Nat)} {ids : List Byte}
    {count i start next : Nat} {sectors : List (Byte × List Byte)}
    (h : readSectors read ids count i start = .ok (sectors, next)) : sectors.length = count := by
  induction count generalizing i start sectors next with
  | zero =>
      rw [readSectors] at h
      rw [← (Prod.mk.inj (Except.ok.inj h)).1]
      rfl
  | succ count ih =>
      rw [readSectors] at h
      obtain ⟨⟨data, middle⟩, -, h⟩ := bind_ok h
      obtain ⟨id, -, h⟩ := bind_ok h
      obtain ⟨⟨later, last⟩, hlater, h⟩ := bind_ok h
      rw [← (Prod.mk.inj (Except.ok.inj h)).1, List.length_cons, ih hlater]

/-- The low bit is the head, for a head of 0 or 1 only. -/
theorem head_low_eq : ∀ head : Fin 64,
    BitVec.ofNat 8 (head.val % 2) = BitVec.ofNat 8 head.val ↔ head.val ≤ 1 := by decide

/-- The first reader, on a track: what it yields has the right length; and where it is right,
the track is plain, or right up to a blank record. -/
theorem VerifyChecksums.readTrack_right {t : Track} {track : ImdTrack} {next : Nat}
    (h : raw.drop pos = t.bytes ++ rest)
    (hrun : readTrack VerifyChecksums.sectorReader 0x01#8 raw pos = .ok (track, next)) :
    track.entries.length = t.entries.length ∧
      (track.entries = t.entries → t.Plain ∨ FirstBlank t) := by
  obtain ⟨start, hstart, -, heq⟩ := @readTrack_bytes _ _ _ VerifyChecksums.sectorReader 0x01#8 t h
  rw [heq] at hrun
  obtain ⟨⟨sectors, last⟩, hsectors, hrun⟩ := bind_ok hrun
  obtain ⟨rfl, rfl⟩ := Prod.mk.inj (Except.ok.inj hrun)
  have hlen := length_readSectors hsectors
  refine ⟨by simp only [ImdTrack.entries, Track.entries, List.length_map, hlen], fun hright => ?_⟩
  have hdata : sectors = sectorData t.sectors := by
    have hmapped := congrArg (List.map fun entry : Entry => (entry.2.2.1, entry.2.2.2)) hright
    simpa [ImdTrack.entries, Track.entries, sectorData, Function.comp_def] using hmapped
  by_cases hnone : t.sectors = []
  · exact .inl fun _ hmem => by rw [hnone] at hmem; exact nomatch hmem
  · have hhead : t.head.val ≤ 1 := by
      obtain ⟨sector, others, hcons⟩ := List.exists_cons_of_ne_nil hnone
      rw [hdata] at hright
      simp only [ImdTrack.entries, Track.entries, sectorData, hcons, List.map_cons,
        List.cons.injEq, Prod.mk.injEq] at hright
      rw [t.head_low] at hright
      exact (head_low_eq t.head).mp hright.1.2.1
    rw [hdata] at hsectors
    rcases VerifyChecksums.readSectors_right rfl hstart hsectors with hall | hblank
    · exact .inl fun sector hsector => ⟨hhead, hall sector hsector⟩
    · exact .inr ⟨hhead, hblank⟩

/-- The first reader takes a plain track. -/
theorem VerifyChecksums.readTrack_plain {t : Track} (hplain : t.Plain)
    (h : raw.drop pos = t.bytes ++ rest) :
    readTrack VerifyChecksums.sectorReader 0x01#8 raw pos =
      .ok (t.read 0x01#8, pos + t.bytes.length) :=
  readTrack_eq (fun sector hsector => VerifyChecksums.readSector_plain (hplain sector hsector).2) h

theorem VerifyChecksums.entries_plain {t : Track} (hplain : t.Plain) :
    (t.read 0x01#8).entries = t.entries := by
  by_cases hnone : t.sectors = []
  · simp [ImdTrack.entries, Track.read, Track.entries, sectorData, hnone]
  · obtain ⟨sector, others, hcons⟩ := List.exists_cons_of_ne_nil hnone
    have hhead := (hplain sector (by simp [hcons])).1
    simp only [ImdTrack.entries, Track.read, Track.entries, sectorData, List.map_map, t.head_low,
      (head_low_eq t.head).mpr hhead]
    rfl

/-- Where the first reader is right, all tracks are plain, or they are up to a blank record. -/
theorem VerifyChecksums.readTracks_right {tracks : List Track} {read : List ImdTrack} {next : Nat}
    (h : raw.drop pos = tracks.flatMap Track.bytes)
    (hrun : readTracks VerifyChecksums.sectorReader 0x01#8 raw pos = .ok (read, next))
    (hright : read.flatMap ImdTrack.entries = tracks.flatMap Track.entries) :
    (∀ t ∈ tracks, t.Plain) ∨
      ∃ before t after, tracks = before ++ t :: after ∧ (∀ t' ∈ before, t'.Plain) ∧
        FirstBlank t := by
  induction tracks generalizing pos read next with
  | nil => exact .inl fun _ hmem => nomatch hmem
  | cons t tracks ih =>
      rw [List.flatMap_cons] at h
      rw [readTracks_step (before_end h)] at hrun
      obtain ⟨⟨track, middle⟩, htrack, hrun⟩ := bind_ok hrun
      cases hlater : readTracks VerifyChecksums.sectorReader 0x01#8 raw middle with
      | error e =>
          rw [hlater] at hrun
          exact nomatch hrun
      | ok later =>
          rw [hlater] at hrun
          obtain ⟨rfl, rfl⟩ := Prod.mk.inj (Except.ok.inj hrun)
          obtain ⟨hlen, hplain⟩ := VerifyChecksums.readTrack_right h htrack
          obtain ⟨hhere, hthere⟩ := List.append_inj hright hlen
          rcases hplain hhere with hplain | hblank
          · rw [VerifyChecksums.readTrack_plain hplain h] at htrack
            obtain ⟨-, rfl⟩ := Prod.mk.inj (Except.ok.inj htrack)
            rcases ih (drop_of_drop h) hlater hthere with hall | hblank
            · exact .inl fun other hother => (List.mem_cons.mp hother).elim
                (fun heq => heq ▸ hplain) (hall other)
            · obtain ⟨before, blank, after, rfl, hbefore, hblank⟩ := hblank
              exact .inr ⟨t :: before, blank, after, rfl, fun other hother =>
                (List.mem_cons.mp hother).elim (fun heq => heq ▸ hplain) (hbefore other), hblank⟩
          · exact .inr ⟨[], t, tracks, rfl, fun _ hmem => (nomatch hmem), hblank⟩

end Tracks

/-! ### The two readers -/

/-- The end of the comment. -/
theorem Image.find_end (image : Image) :
    image.bytes.idxOf? 0x1A#8 = some image.comment.length := by
  rw [List.idxOf?_eq_some_iff]
  refine ⟨by simp [Image.bytes], by simp [Image.bytes], fun j hj heq => image.unended ?_⟩
  have hget : image.bytes[j]? = some 0x1A#8 := List.getElem?_eq_some_iff.mpr ⟨_, heq⟩
  rw [Image.bytes, List.getElem?_append_left hj] at hget
  exact List.mem_of_getElem? hget

/-- The readers find the end of the comment. -/
theorem readImage_bytes (reader : SectorReader) (headMask : Byte) (image : Image) :
    readImage reader headMask image.bytes =
      readTracks reader headMask image.bytes (image.comment.length + 1) := by
  rw [readImage, image.find_end]

theorem Image.drop_comment (image : Image) :
    image.bytes.drop (image.comment.length + 1) = image.tracks.flatMap Track.bytes := by
  rw [← List.drop_drop, Image.bytes, List.drop_left]
  rfl

theorem Image.comment_le (image : Image) : image.comment.length + 1 ≤ image.bytes.length := by
  simp [Image.bytes]

/-- The second reader yields what is in the image. -/
theorem VerifyAgainstImd.parseImd_bytes (image : Image) :
    VerifyAgainstImd.parseImd image.bytes =
      .ok (image.tracks.map (Track.read 0x3F#8), image.bytes.length) := by
  rw [VerifyAgainstImd.parseImd, readImage_bytes]
  refine readTracks_eq (fun t _ pos rest h => readTrack_eq (fun sector _ => ?_) h)
    image.drop_comment image.comment_le
  exact VerifyAgainstImd.readSector_bytes sector.2

theorem Image.entries_read (image : Image) :
    (image.tracks.map (Track.read 0x3F#8)).flatMap ImdTrack.entries =
      image.tracks.flatMap Track.entries := by
  rw [List.flatMap_map]
  exact List.flatMap_congr fun t _ => t.entries_read

/-- The tracks are plain up to a track that is right up to a blank record. -/
def Image.FirstBlank (image : Image) : Prop :=
  ∃ before t after, image.tracks = before ++ t :: after ∧ (∀ t' ∈ before, t'.Plain) ∧
    Formats.FirstBlank t

theorem agree_of_plain {image : Image} (hplain : image.Plain) : Agree image := by
  have hread : readTracks VerifyChecksums.sectorReader 0x01#8 image.bytes
      (image.comment.length + 1) =
        .ok (image.tracks.map (Track.read 0x01#8), image.bytes.length) :=
    readTracks_eq (fun t ht _ _ h => VerifyChecksums.readTrack_plain (hplain t ht) h)
      image.drop_comment image.comment_le
  refine ⟨_, _, ?_, VerifyAgainstImd.parseImd_bytes image, rfl⟩
  rw [VerifyChecksums.parseImd, readImage_bytes, hread, image.entries_read]
  show Except.ok (_, _) = _
  rw [List.flatMap_map]
  exact congrArg (fun entries => Except.ok (entries, image.bytes.length))
    (List.flatMap_congr fun t ht => VerifyChecksums.entries_plain (hplain t ht))

theorem plain_of_agree {image : Image} (hagree : Agree image) :
    image.Plain ∨ image.FirstBlank := by
  obtain ⟨entries, tracks, hfirst, hsecond, rfl⟩ := hagree
  rw [VerifyAgainstImd.parseImd_bytes] at hsecond
  obtain ⟨rfl, -⟩ := Prod.mk.inj (Except.ok.inj hsecond)
  rw [VerifyChecksums.parseImd, readImage_bytes, image.entries_read] at hfirst
  cases hread : readTracks VerifyChecksums.sectorReader 0x01#8 image.bytes
      (image.comment.length + 1) with
  | error e =>
      rw [hread] at hfirst
      exact nomatch hfirst
  | ok read =>
      rw [hread] at hfirst
      obtain ⟨hright, -⟩ := Prod.mk.inj (Except.ok.inj hfirst)
      exact VerifyChecksums.readTracks_right image.drop_comment hread hright

/-- **The two readers** agree on every image of records of type 0 to 4 on heads 0 and 1; and
on no other, but where the first record of another type is blank. -/
theorem imd_readers_agree (image : Image) :
    (image.Plain → Agree image) ∧ (Agree image → image.Plain ∨ image.FirstBlank) :=
  ⟨agree_of_plain, plain_of_agree⟩

/-- An image of one sector, read with deleted data. -/
def deletedSector : Image where
  comment := []
  unended := by simp
  tracks := [{
    mode := 0#8
    cyl := 0#8
    head := 0
    sizeCode := 0#8
    sectors := [(1#8, .full 2 (List.replicate 128 0xE5#8) (by simp))]
    count := by simp
    cylMap := none
    headMap := none }]

/-- The data of such a sector is lost. -/
theorem deletedSector_disagree : ¬ Agree deletedSector := by
  intro hagree
  have hother : ¬ (Record.full 2 (List.replicate 128 0xE5#8) (by simp) : Record 128).Plain :=
    show ¬ 2 < 2 by omega
  rcases plain_of_agree hagree with hplain | ⟨before, t, after, htracks, -, hblank⟩
  · exact hother (hplain _ (List.mem_singleton_self _) _ (List.mem_singleton_self _)).2
  · have ht : t ∈ deletedSector.tracks := by simp [htracks]
    obtain ⟨-, before', sector, after', hsectors, -, -, hzero⟩ := hblank
    have hdata : ∀ t ∈ deletedSector.tracks, ∀ sector ∈ t.sectors,
        sector.2.data.head? = some 0xE5#8 := by
      intro t ht sector hsector
      obtain rfl := List.mem_singleton.mp ht
      obtain rfl := List.mem_singleton.mp hsector
      rfl
    have hfirst := hdata t ht sector (by rw [hsectors]; simp)
    rw [hzero, List.head?_replicate] at hfirst
    split at hfirst
    · exact nomatch hfirst
    · exact absurd hfirst (by decide)

/-- Five blank records of type 6, and five of type 0: the first reader takes the bytes left over
for a track of no sectors. -/
def blankSectors : Image where
  comment := []
  unended := by simp
  tracks := [{
    mode := 0#8
    cyl := 0#8
    head := 0
    sizeCode := 0#8
    sectors := List.replicate 5 (0#8, .filled 2 0#8) ++ List.replicate 5 (0#8, .absent)
    count := by simp
    cylMap := none
    headMap := none }]

/-- So a blank record does not settle whether the readers agree. -/
theorem blankSectors_agree : ¬ blankSectors.Plain ∧ Agree blankSectors := by
  have htrack : readTrack VerifyChecksums.sectorReader 0x01#8 blankSectors.bytes 1 =
      .ok (⟨0#8, 0#8, 0#8, 10, 128, List.replicate 10 (0#8, List.replicate 128 0#8)⟩, 26) := by rfl
  have hrest : readTrack VerifyChecksums.sectorReader 0x01#8 blankSectors.bytes 26 =
      .ok (⟨0#8, 0#8, 0#8, 0, 128, []⟩, 31) := by rfl
  have hend : readTracks VerifyChecksums.sectorReader 0x01#8 blankSectors.bytes 31 =
      .ok ([], 31) := by
    rw [readTracks]
    rfl
  refine ⟨fun hplain => ?_, _, _, ?_, VerifyAgainstImd.parseImd_bytes _, rfl⟩
  · have hother : ¬ (Record.filled 2 0#8 : Record 128).Plain := show ¬ 2 < 2 by omega
    exact hother (hplain _ (List.mem_singleton_self _) (0#8, .filled 2 0#8) (by simp)).2
  · rw [VerifyChecksums.parseImd, readImage_bytes]
    show (readTracks VerifyChecksums.sectorReader 0x01#8 blankSectors.bytes 1).map _ = _
    rw [readTracks_step (by decide), htrack, ok_bind]
    show ((readTracks VerifyChecksums.sectorReader 0x01#8 blankSectors.bytes 26).map _).map _ = _
    rw [readTracks_step (by decide), hrest, ok_bind]
    show (((readTracks VerifyChecksums.sectorReader 0x01#8 blankSectors.bytes 31).map _).map
      _).map _ = _
    rw [hend]
    rfl

end Formats
end Rc700
