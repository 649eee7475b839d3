import Rc700.Library.RecordFile
import Rc700.Library.Word
import Mathlib.Data.Char
import Mathlib.Data.List.AList
import Mathlib.Data.List.Lex

/-!
# The files of the boot server

`dispatch_sndmsg` of `netboot_server.py` and what it calls.  A file has up to three places:
the host, through `_FILE_MAP`; `_WRITES`, which stands in front of it; and `_OPEN_FILES`,
from which READ SEQ reads.

A handler returns its reply and the state that it leaves.  There is no reply where it
raises an exception, which may be after it has changed the state.  The host's files do not
change; what CLOSE writes to `/tmp` is kept aside.
-/

namespace Rc700
namespace Netboot

open Library

/-- A name and extension, as `_fcb_key` makes them. -/
abbrev Key := List Char

/-- A path of the host. -/
abbrev Path := List Char

/-- The values that bytes are kept under. -/
abbrev Table := AList (fun _ : Key => List Byte)

structure SearchState where
  pattern : Option Key
  pending : List Key

structure State where
  /-- `_FILE_MAP` -/
  fileMap : AList (fun _ : Key => Path)
  /-- `_OPEN_FILES` -/
  openFiles : Table
  /-- `_WRITES` -/
  writes : Table
  /-- `_SEARCH_STATE` -/
  search : SearchState
  /-- What CLOSE has written to the host, latest first. -/
  flushed : List (Path × List Byte)

/-- What a handler leaves: a reply, or none where it raises, and the state. -/
abbrev Result := Option (List Byte) × State

variable (host : Path → Option (List Byte))

/-! ### Texts -/

/-- `ljust` -/
def ljust {α : Type*} (n : Nat) (fill : α) (xs : List α) : List α :=
  xs ++ List.replicate (n - xs.length) fill

/-- The whitespace of `str.strip`, below 128. -/
def isSpace (c : Char) : Bool :=
  (9 ≤ c.toNat ∧ c.toNat ≤ 13) ∨ (28 ≤ c.toNat ∧ c.toNat ≤ 32)

def strip (xs : List Char) : List Char :=
  ((xs.dropWhile isSpace).reverse.dropWhile isSpace).reverse

/-- Bytes without bit 7, as text. -/
def decode (bytes : List Byte) : List Char := bytes.map fun b => Char.ofNat (b &&& 0x7F#8).toNat

/-- `_fcb_key` -/
def fcbKey (fcb : List Byte) : Key :=
  let name := strip (decode ((fcb.drop 1).take 8))
  let ext := strip (decode ((fcb.drop 9).take 3))
  (ljust 8 ' ' name ++ ljust 3 ' ' ext).map Char.toUpper

/-! ### Contents -/

/-- `_file_content` -/
def fileContent (s : State) (key : Key) : Option (List Byte) :=
  match s.writes.lookup key with
  | some content => some content
  | none => (s.fileMap.lookup key).bind host

/-- `_file_size` -/
def fileSize (s : State) (key : Key) : Nat := ((fileContent host s key).getD []).length

/-- `_all_keys` -/
def allKeys (s : State) : List Key :=
  (s.fileMap.keys ++ s.writes.keys).dedup.mergeSort (fun a b => decide (a ≤ b))

/-- The 128 bytes of a record, filled up behind the end of the content. -/
def sectorAt (content : List Byte) (record : Nat) : List Byte :=
  ljust 128 0x1A#8 (pread content (record * 128) 128)

/-- The assignment of a sector, after the buffer is extended to hold it. -/
def storeSector (buf : List Byte) (record : Nat) (sector : List Byte) : List Byte :=
  let offset := record * 128
  let buf := buf ++ List.replicate (offset + 128 - buf.length) 0#8
  buf.take offset ++ sector ++ buf.drop (offset + 128)

/-! ### Requests -/

/-- The FCB of a request, which is zero where the request is short. -/
def fcbOf (data : List Byte) : List Byte :=
  if 37 ≤ data.length then (data.drop 1).take 36 else List.replicate 36 0#8

/-- The FCB of a request, filled up where the request is short. -/
def paddedFcb (data : List Byte) : List Byte :=
  if 37 ≤ data.length then (data.drop 1).take 36 else ljust 36 0#8 (data.drop 1)

/-- The sector of a request. -/
def sectorOf (data : List Byte) : List Byte :=
  if 165 ≤ data.length then (data.drop 37).take 128 else ljust 128 0#8 (data.drop 37)

/-- The byte of an FCB. -/
def fcbByte (fcb : List Byte) (i : Nat) : Nat := (fcb.getD i 0#8).toNat

/-- The record after EX and CR. -/
def seqRecord (fcb : List Byte) : Nat := fcbByte fcb 12 * 128 + fcbByte fcb 32

/-- The record after R0, R1 and R2. -/
def randomRecord (fcb : List Byte) : Nat :=
  fcbByte fcb 33 + fcbByte fcb 34 * 256 + fcbByte fcb 35 * 65536

/-- The next position.  EX is a byte, and there is none after the last one. -/
def advance (fcb : List Byte) : Option (List Byte) :=
  let ex := fcbByte fcb 12
  let cr := fcbByte fcb 32 + 1
  let (ex, cr) := if 128 ≤ cr then (ex + 1, 0) else (ex, cr)
  if ex < 256 then some ((fcb.set 12 (BitVec.ofNat 8 ex)).set 32 (BitVec.ofNat 8 cr)) else none

/-! ### Handlers -/

/-- The reply to OPEN and MAKE; it takes the drive from a byte that must be there. -/
def fcbReply (data : List Byte) (records : Byte) : Option (List Byte) :=
  if 2 ≤ data.length then
    let front := [0x00#8, data.getD 1 0#8 &&& 0x0F#8] ++ ((data.drop 2).take 11).map (· &&& 0x7F#8)
    some ((front ++ List.replicate 21 0#8).set 16 records)
  else none

/-- OPEN FILE -/
def openFile (data : List Byte) (s : State) : Result :=
  let key := fcbKey (fcbOf data)
  match fileContent host s key with
  | none => (some [0xFF#8], s)
  | some content =>
      (fcbReply data (BitVec.ofNat 8 (min 128 ((content.length + 127) / 128))),
        { s with openFiles := s.openFiles.insert key content })

/-- MAKE FILE -/
def makeFile (data : List Byte) (s : State) : Result :=
  let key := fcbKey (fcbOf data)
  if key ∈ s.fileMap then (some [0xFF#8], s)
  else
    (fcbReply data 0#8,
      { s with writes := s.writes.insert key [], openFiles := s.openFiles.insert key [] })

/-- WRITE SEQ -/
def writeSeq (data : List Byte) (s : State) : Result :=
  let fcb := fcbOf data
  let key := fcbKey fcb
  match s.writes.lookup key with
  | none => (some (0xFF#8 :: fcb), s)
  | some buf =>
      let buf := storeSector buf (seqRecord fcb) (sectorOf data)
      ((advance fcb).map (0x00#8 :: ·),
        { s with writes := s.writes.insert key buf, openFiles := s.openFiles.insert key buf })

/-- READ SEQ -/
def readSeq (data : List Byte) (s : State) : Result :=
  let fcb := paddedFcb data
  match s.openFiles.lookup (fcbKey fcb) with
  | none => (some (0xFF#8 :: fcb ++ List.replicate 128 0#8), s)
  | some content =>
      if content.length ≤ seqRecord fcb * 128 then
        (some (0x01#8 :: fcb ++ List.replicate 128 0#8), s)
      else
        ((advance fcb).map (fun next => 0x00#8 :: next ++ sectorAt content (seqRecord fcb)), s)

/-- The name of the file that CLOSE leaves in `/tmp`. -/
def flushPath (key : Key) : Path :=
  (strip key).map (fun c => if c = ' ' ∨ c = '/' then '_' else c) ++ ".bin".toList

/-- CLOSE FILE -/
def closeFile (data : List Byte) (s : State) : Result :=
  let fcb := paddedFcb data
  let key := fcbKey fcb
  let s := { s with openFiles := s.openFiles.erase key }
  match s.writes.lookup key with
  | none => (some (0x00#8 :: fcb), s)
  | some buf =>
      -- a path with a NUL in it is refused by `open`
      if '\x00' ∈ flushPath key then (none, s)
      else (some (0x00#8 :: fcb), { s with flushed := (flushPath key, buf) :: s.flushed })

/-- COMPUTE FILE SIZE -/
def computeFileSize (data : List Byte) (s : State) : Result :=
  let fcb := fcbOf data
  let records := (fileSize host s (fcbKey fcb) + 127) / 128
  (some (0x00#8 :: ((fcb.set 33 (BitVec.ofNat 8 records)).set 34
    (BitVec.ofNat 8 (records / 256))).set 35 (BitVec.ofNat 8 (records / 65536))), s)

/-- RANDOM READ -/
def randomRead (data : List Byte) (s : State) : Result :=
  let fcb := fcbOf data
  match fileContent host s (fcbKey fcb) with
  | none => (some (0xFF#8 :: fcb ++ List.replicate 128 0#8), s)
  | some content =>
      let record := randomRecord fcb
      let status := if record * 128 < content.length then 0x00#8 else 0x01#8
      (some (status :: fcb ++ sectorAt content record), s)

/-- RANDOM WRITE -/
def randomWrite (data : List Byte) (s : State) : Result :=
  let fcb := fcbOf data
  let key := fcbKey fcb
  match fileContent host s key with
  | none => (some (0xFF#8 :: fcb), s)
  | some src =>
      -- what is written first is copied from the host
      let buf := (s.writes.lookup key).getD src
      let buf := storeSector buf (randomRecord fcb) (sectorOf data)
      (some (0x00#8 :: fcb), { s with writes := s.writes.insert key buf })

/-- DELETE FILE -/
def deleteFile (data : List Byte) (s : State) : Result :=
  let fcb := fcbOf data
  let key := fcbKey fcb
  if key ∈ s.writes then
    (some (0x00#8 :: fcb),
      { s with writes := s.writes.erase key, openFiles := s.openFiles.erase key })
  else (some (0xFF#8 :: fcb), s)

/-- `d[new] = d.pop(old)`, where there is an `old`. -/
def moveKey {β : Type} (old new : Key) (table : AList (fun _ : Key => β)) :
    AList (fun _ : Key => β) :=
  match table.lookup old with
  | none => table
  | some v => (table.erase old).insert new v

/-- The key of the new name of RENAME. -/
def newKey (fcb : List Byte) : Key :=
  fcbKey ((fcb.drop 16).take 1 ++ (fcb.drop 17).take 8 ++ (fcb.drop 25).take 3)

/-- RENAME FILE -/
def renameFile (data : List Byte) (s : State) : Result :=
  let fcb := fcbOf data
  let old := fcbKey fcb
  let new := newKey fcb
  if old ∉ s.writes ∧ old ∉ s.fileMap then (some (0xFF#8 :: fcb), s)
  else if new ∈ s.writes ∨ new ∈ s.fileMap then (some (0xFF#8 :: fcb), s)
  else
    (some (0x00#8 :: fcb),
      { s with
        writes := moveKey old new s.writes
        openFiles := moveKey old new s.openFiles
        fileMap := moveKey old new s.fileMap })

/-! ### Searching -/

/-- `_pattern_from_search_data` -/
def patternOf (data : List Byte) : Key :=
  if data.length < 35 then List.replicate 11 '?'
  else (decode ((data.drop (data.length - 35)).take 11)).map Char.toUpper

/-- `_pattern_match` -/
def patternMatch (pattern key : Key) : Bool :=
  pattern.length = 11 ∧ key.length = 11 ∧
    ∀ pair ∈ pattern.zip key, pair.1 = '?' ∨ pair.1 = pair.2

/-- `_is_system_file` -/
def isSystemFile (s : State) (key : Key) : Bool :=
  key.head? = some '$' ∨
    ∃ path ∈ s.fileMap.lookup key, "/testutil/".toList <:+: path

/-- `_dir_entry`.  A name that is not ASCII raises. -/
def dirEntry (s : State) (key : Key) (size : Nat) : Option (List Byte) :=
  if key.all (fun c => c.toNat < 128) then
    let bytes := key.map (fun c => BitVec.ofNat 8 c.toNat)
    let ext := (bytes.drop 8).take 3
    let ext := if key ∈ s.fileMap ∧ key ∉ s.writes then ext.modify 0 (· ||| 0x80#8) else ext
    let ext := if isSystemFile s key then ext.modify 1 (· ||| 0x80#8) else ext
    some ([0x00#8] ++ bytes.take 8 ++ ext ++
      [0#8, 0#8, 0#8, BitVec.ofNat 8 (min 128 ((size + 127) / 128))] ++ List.replicate 16 0x01#8)
  else none

/-- `_search_reply` -/
def searchReply (s : State) : Result :=
  match s.search.pending with
  | [] => (some (0xFF#8 :: List.replicate 128 0#8), s)
  | key :: pending =>
      ((dirEntry s key (fileSize host s key)).map
          (fun entry => 0x00#8 :: entry ++ List.replicate (128 - entry.length) 0#8),
        { s with search := { s.search with pending := pending } })

/-- SEARCH FIRST -/
def searchFirst (data : List Byte) (s : State) : Result :=
  let pattern := patternOf data
  let pending := (allKeys s).filter (patternMatch pattern)
  searchReply host { s with search := ⟨some pattern, pending⟩ }

/-! ### The dispatcher -/

/-- `dispatch_sndmsg` -/
def dispatchSndmsg (fnc : Byte) (data : List Byte) (s : State) : Result :=
  match fnc with
  | 64#8 => (some [0x00#8], s)
  | 65#8 => (some [0x00#8], s)
  | 15#8 => openFile host data s
  | 22#8 => makeFile data s
  | 21#8 => writeSeq data s
  | 20#8 => readSeq data s
  | 16#8 => closeFile data s
  | 35#8 => computeFileSize host data s
  | 33#8 => randomRead host data s
  | 34#8 => randomWrite host data s
  | 19#8 => deleteFile data s
  | 23#8 => renameFile data s
  | 17#8 => searchFirst host data s
  | 18#8 => searchReply host s
  | 12#8 => (some [0x22#8, 0x00#8], s)
  | _ => (some (0x00#8 :: List.replicate 36 0#8), s)

end Netboot
end Rc700
