import Rc700.CpNet.Host

/-!
# The file server

`CPNetServer` of `cpnet/server.py`, with the remote console off.  A handler takes the
payload of a request and returns the payload of the reply, or raises an exception; it
keeps its effects either way, and only `OSError` is caught.  The handlers are written in
the monad of such computations, with the order of accesses and checks of the source.

`touched` collects the paths that are given to the host, `sent` the frames that are
given to `send_frame`.  What is printed is left out.

`upper` is the upper case of a code point in `str.upper`, which may be several code
points and may be ASCII where the code point is not.
-/

namespace Rc700
namespace CpNet

open Library PathText

/-! ### State -/

/-- `search_state` -/
structure Search where
  found : List HostName
  index : Nat
  drive : Nat

structure Header where
  fmt : Byte
  did : Byte
  sid : Byte
  fnc : Byte
  siz : Byte
  deriving DecidableEq, Repr

structure Frame where
  hdr : Header
  payload : List Byte
  deriving DecidableEq, Repr

structure Server where
  driveDirs : Nat → Option Text
  serverNode : Byte
  clientNode : Byte
  search : Option Search
  errorFile : Option Text
  printerFile : Option Text
  host : Host
  /-- The paths given to the host, newest first. -/
  touched : List Text
  /-- The frames given to `send_frame`, newest first. -/
  sent : List Frame

/-- A computation of the server: it returns or raises, and keeps its effects. -/
abbrev Action (α : Type) := EStateM PyError Server α

namespace Action

variable {α β : Type}

@[simp] theorem pure_apply (a : α) (s : Server) : (pure a : Action α) s = .ok a s := rfl

@[simp] theorem throw_apply (e : PyError) (s : Server) : (throw e : Action α) s = .error e s := rfl

theorem bind_apply (m : Action α) (f : α → Action β) (s : Server) :
    (m >>= f) s =
      match m s with
      | .ok a s' => f a s'
      | .error e s' => .error e s' := by
  show EStateM.bind m f s = _
  unfold EStateM.bind
  cases m s <;> rfl

/-- `try … except OSError` -/
def exceptOsError (body handler : Action α) : Action α := fun s =>
  match body s with
  | .error .osError s' => handler s'
  | result => result

/-- A call of the host.  A NUL in a path raises `ValueError` at once. -/
def call (paths : List Text) (op : Host → Except PyError (α × Host)) : Action α := fun s =>
  if ∃ p ∈ paths, 0 ∈ p then .error .valueError s
  else
    let s := { s with touched := paths ++ s.touched }
    match op s.host with
    | .ok (a, host) => .ok a { s with host := host }
    | .error e => .error e s

end Action

open CpNet.Action

/-! ### Byte strings and text -/

/-- `b.rstrip(b'\x00 ')` -/
def rstripName (b : List Byte) : List Byte := b.rdropWhile (fun c => c = 0x00#8 ∨ c = 0x20#8)

/-- `b.decode('ascii', errors='replace')` -/
def decode (b : List Byte) : Text :=
  b.map (fun c => if c.toNat < 128 then c.toNat else 0xFFFD)

/-- `t.encode('ascii')` -/
def encode (t : Text) : Action (List Byte) :=
  if ∀ c ∈ t, c < 128 then pure (t.map (BitVec.ofNat 8)) else throw .unicodeError

/-- White space of `str.rstrip`, for ASCII text. -/
def isSpace (c : Nat) : Bool := 9 ≤ c && c ≤ 13 || 28 ≤ c && c ≤ 32

/-- `t.rstrip()` -/
def rstrip (t : Text) : Text := t.rdropWhile isSpace

/-- `t.ljust(n)` -/
def ljust (n : Nat) (t : Text) : Text := t ++ List.replicate (n - t.length) 32

/-- `t.upper()` -/
def upperText (upper : Nat → Text) (t : Text) : Text := t.flatMap upper

/-- `t.rsplit('.', 1)`: what precedes the last dot, and what follows it. -/
def rsplitDot (t : Text) : Text × Option Text :=
  if dot ∈ t then ((t.rdropWhile (· != dot)).dropLast, some (t.rtakeWhile (· != dot)))
  else (t, none)

/-- `resp[i] = v` -/
def store (resp : List Byte) (i v : Nat) : Action (List Byte) :=
  if resp.length ≤ i then throw .indexError
  else if 256 ≤ v then throw .valueError
  else pure (resp.set i (BitVec.ofNat 8 v))

/-- `resp[i:j] = data`; the length of `resp` changes if `data` is not `j - i` long. -/
def splice (resp : List Byte) (i j : Nat) (data : List Byte) : List Byte :=
  resp.take i ++ data ++ resp.drop j

/-- `payload[i:j]` -/
def slice (payload : List Byte) (i j : Nat) : List Byte := (payload.take j).drop i

/-- `payload[i] if len(payload) > i else 0` -/
def field (payload : List Byte) (i : Nat) : Nat := (payload.getD i 0#8).toNat

/-! ### File control blocks -/

/-- `_fcb_name` -/
def fcbName (payload : List Byte) (offset : Nat) : List Byte :=
  (slice payload (offset + 1) (offset + 12)).map (· &&& 0x7F#8)

/-- The drive that a code selects: four bits of it, and the first drive for code 0. -/
def driveOf (code : Byte) : Nat :=
  let d := (code &&& 0x0F#8).toNat
  if 0 < d then d - 1 else 0

/-- `_fcb_drive` -/
def fcbDrive (payload : List Byte) (offset : Nat) : Action Nat :=
  match payload[offset]? with
  | none => throw .indexError
  | some code => pure (driveOf code)

/-- The host's name for an 8+3 name. -/
def nameText (name : List Byte) : Text :=
  let fname := decode (rstripName (slice name 0 8))
  let ext := decode (rstripName (slice name 8 11))
  if ext ≠ [] then fname ++ [dot] ++ ext else fname

/-- The directory of a drive, if it has one. -/
def Server.driveDir (s : Server) (drive : Nat) : Option Text :=
  match s.driveDirs drive with
  | none => none
  | some [] => none
  | some (c :: dir) => some (c :: dir)

/-- `_resolve_path` -/
def resolvePath (drive : Nat) (name : List Byte) : Action (Option Text) := fun s =>
  .ok ((s.driveDir drive).map (fun dir => join dir (nameText name))) s

/-! ### Calls of the host -/

/-- `os.path.exists`, which is `False` for a path with a NUL. -/
def pathExists (p : Text) : Action Bool := fun s =>
  if 0 ∈ p then .ok false s
  else .ok (decide (s.host.node p ≠ .absent)) { s with touched := p :: s.touched }

/-- `os.path.getsize` -/
def getsize (p : Text) : Action Nat := call [p] (Host.getsize p)

/-- `os.listdir`, which looks at the directory only. -/
def listdir (dir : Text) : Action (List HostName) := fun s =>
  if 0 ∈ dir then .error .valueError s
  else
    match s.host.listdir dir with
    | .ok (names, host) => .ok names { s with host := host }
    | .error e => .error e s

/-- `open`: what the file holds. -/
def openFile (mode : Mode) (p : Text) : Action (List Byte) := call [p] (Host.openFile mode p)

/-- What an open file holds is replaced. -/
def fill (p : Text) (bytes : List Byte) : Action Unit := fun s =>
  .ok () { s with host := s.host.fill p bytes }

/-- The reply that reports a failure. -/
def failure : List Byte := [0xFF#8]

/-- The number of records of a file: `(size + 127) // 128`. -/
def recordsOf (size : Nat) : Nat := (size + 127) / 128

/-- The random record number at 34, 35 and 36. -/
def randomRecord (payload : List Byte) : Nat :=
  field payload 34 ||| field payload 35 <<< 8 ||| field payload 36 <<< 16

/-- A request that names a file: its drive and path are worked out first, and it fails
if the drive has no directory. -/
def withPath (payload : List Byte) (body : Nat → Text → Action (List Byte)) :
    Action (List Byte) := do
  let drive ← fcbDrive payload 1
  let name := fcbName payload 1
  match ← resolvePath drive name with
  | none => pure failure
  | some path => body drive path

/-! ### OPEN, MAKE, DELETE, RENAME, FILE SIZE -/

/-- The reply of OPEN: the FCB of the file, at its start. -/
def openReply (drive : Nat) (name : List Byte) (records : Nat) : Action (List Byte) := do
  let resp ← store (List.replicate 34 0#8) 0 0
  let resp ← store resp 1 ((drive + 1) % 256)
  let resp := splice resp 2 13 (slice name 0 11)
  let resp ← store resp 13 0
  let resp ← store resp 14 0
  let resp ← store resp 15 0
  let resp ← store resp 16 (min records 128)
  store resp 33 0

/-- `handle_open` -/
def handleOpen (payload : List Byte) : Action (List Byte) :=
  withPath payload fun drive path => do
    if ← pathExists path then
      let size ← getsize path
      openReply drive (fcbName payload 1) (recordsOf size)
    else pure failure

/-- The reply of MAKE: the FCB of the request, at the start of the file. -/
def makeReply (payload : List Byte) : Action (List Byte) := do
  let resp ← store (List.replicate 34 0#8) 0 0
  let resp := splice resp 1 13 (slice payload 1 13)
  let resp ← store resp 13 0
  let resp ← store resp 14 0
  let resp ← store resp 15 0
  let resp ← store resp 16 0
  store resp 33 0

/-- `handle_make_file` -/
def handleMakeFile (payload : List Byte) : Action (List Byte) :=
  withPath payload fun _ path =>
    exceptOsError (do
      let _ ← openFile .ab path
      makeReply payload) (pure failure)

/-- `handle_delete` -/
def handleDelete (payload : List Byte) : Action (List Byte) :=
  withPath payload fun _ path => do
    if ← pathExists path then
      exceptOsError (do
        call [path] (Host.remove path)
        pure [0#8]) (pure failure)
    else pure failure

/-- `handle_rename` -/
def handleRename (payload : List Byte) : Action (List Byte) := do
  let drive ← fcbDrive payload 1
  let oldName := (slice payload 2 13).map (· &&& 0x7F#8)
  let newName := (slice payload 18 29).map (· &&& 0x7F#8)
  match ← resolvePath drive oldName, ← resolvePath drive newName with
  | some oldPath, some newPath =>
      exceptOsError (do
        call [oldPath, newPath] (Host.rename oldPath newPath)
        pure [0#8]) (pure failure)
  | _, _ => pure failure

/-- The reply of FILE SIZE: the FCB of the request, with the size as random record. -/
def fileSizeReply (payload : List Byte) (records : Nat) : Action (List Byte) := do
  let resp ← store (List.replicate 37 0#8) 0 0
  let src := slice payload 1 37
  let resp := splice resp 1 (1 + src.length) src
  let resp ← store resp 34 (records &&& 0xFF)
  let resp ← store resp 35 (records >>> 8 &&& 0xFF)
  store resp 36 (records >>> 16 &&& 0xFF)

/-- `handle_file_size` -/
def handleFileSize (payload : List Byte) : Action (List Byte) :=
  withPath payload fun _ path => do
    if ← pathExists path then
      let size ← getsize path
      fileSizeReply payload (recordsOf size)
    else pure failure

/-! ### READ and WRITE -/

/-- The position after a record: EX and CR. -/
def advance (ex cr : Nat) : Nat × Nat := if 128 ≤ cr + 1 then (ex + 1, 0) else (ex, cr + 1)

/-- `data.ljust(128, b'\x1A')` -/
def padRecord (data : List Byte) : List Byte :=
  data ++ List.replicate (128 - data.length) 0x1A#8

/-- The reply of a read: the FCB of the request at a new position, and the record. -/
def readReply (payload : List Byte) (ex cr : Nat) (data : List Byte) : Action (List Byte) := do
  let resp ← store (List.replicate 165 0#8) 0 0
  let fcbData := slice payload 1 37
  let resp := splice resp 1 (1 + fcbData.length) fcbData
  let resp ← store resp 13 ex
  let resp ← store resp 33 cr
  pure (splice resp 37 165 data)

/-- `handle_read_seq` -/
def handleReadSeq (payload : List Byte) : Action (List Byte) :=
  withPath payload fun _ path =>
    let ex := field payload 13
    let cr := field payload 33
    let record := ex * 128 + cr
    exceptOsError (do
      let bytes ← openFile .rb path
      let data := pread bytes (record * 128) 128
      if data = [] then pure [1#8]
      else
        let (ex, cr) := advance ex cr
        readReply payload ex cr (padRecord data)) (pure failure)

/-- `handle_read_rand` -/
def handleReadRand (payload : List Byte) : Action (List Byte) :=
  withPath payload fun _ path =>
    if payload.length < 37 then pure failure
    else
      let record := randomRecord payload
      exceptOsError (do
        let bytes ← openFile .rb path
        let data := pread bytes (record * 128) 128
        if data = [] then pure [6#8]
        else readReply payload (record / 128 % 32) (record % 128) (padRecord data)) (pure failure)

/-- `open(path, 'r+b' if os.path.exists(path) else 'wb')` -/
def openForWrite (path : Text) : Action (List Byte) := do
  if ← pathExists path then openFile .update path else openFile .wb path

/-- The reply of WRITE SEQ: the FCB of the request at a new position. -/
def writeSeqReply (payload : List Byte) (ex cr : Nat) : Action (List Byte) := do
  let fcb ← store (slice payload 1 37) 12 ex
  let fcb ← (if 32 < fcb.length then store fcb 32 cr else pure fcb : Action (List Byte))
  pure ([0#8] ++ fcb)

/-- `handle_write_seq` -/
def handleWriteSeq (payload : List Byte) : Action (List Byte) :=
  withPath payload fun _ path =>
    let ex := field payload 13
    let cr := field payload 33
    let record := ex * 128 + cr
    if payload.length < 37 + 128 then pure failure
    else
      let data := slice payload 37 (37 + 128)
      exceptOsError (do
        let bytes ← openForWrite path
        fill path (pwrite 0#8 bytes (record * 128) data)
        let (ex, cr) := advance ex cr
        writeSeqReply payload ex cr) (pure failure)

/-- The reply of a random write: the FCB of the request, at the record. -/
def writeRandReply (payload : List Byte) (record : Nat) : Action (List Byte) := do
  let resp ← store (List.replicate 37 0#8) 0 0
  let fcbData := slice payload 1 37
  let resp := splice resp 1 (1 + fcbData.length) fcbData
  let resp ← store resp 13 (record / 128 % 32)
  store resp 33 (record % 128)

/-- A random write; `put` writes a record at an offset. -/
def writeRandom (put : List Byte → Nat → List Byte → List Byte) (payload : List Byte) :
    Action (List Byte) :=
  withPath payload fun _ path =>
    if payload.length < 37 then pure failure
    else
      let record := randomRecord payload
      if payload.length < 37 + 128 then pure failure
      else
        let data := slice payload 37 (37 + 128)
        exceptOsError (do
          let bytes ← openForWrite path
          fill path (put bytes (record * 128) data)
          writeRandReply payload record) (pure failure)

/-- `handle_write_rand` -/
def handleWriteRand : List Byte → Action (List Byte) := writeRandom (pwrite 0#8)

/-- The gap is filled by a write at the end before the record is written. -/
def pwriteFilled (bytes : List Byte) (offset : Nat) (data : List Byte) : List Byte :=
  let bytes :=
    if bytes.length < offset then
      pwrite 0#8 bytes bytes.length (List.replicate (offset - bytes.length) 0#8)
    else bytes
  pwrite 0#8 bytes offset data

/-- `handle_write_rand_zf` -/
def handleWriteRandZf : List Byte → Action (List Byte) := writeRandom pwriteFilled

/-! ### SEARCH -/

/-- `_match_pattern` -/
def matchPattern (upper : Nat → Text) (pattern name : Text) : Bool :=
  let pattern := upperText upper pattern
  let name := upperText upper name
  if pattern = List.replicate pattern.length 63 then true
  else
    let maxlen := max pattern.length name.length
    (List.zip (ljust maxlen pattern) (ljust maxlen name)).all
      (fun pair => pair.1 = 63 ∨ pair.1 = pair.2)

/-- The name and the extension that a host name stands for. -/
def cpmName (upper : Nat → Text) (entry : Text) : Text × Text :=
  let parts := rsplitDot entry
  ((upperText upper parts.1).take 8, ((parts.2.map (upperText upper)).getD []).take 3)

/-- The host name matches the pattern of a search. -/
def matchesEntry (upper : Nat → Text) (name : List Byte) (entry : HostName) : Bool :=
  let patternName := rstrip (decode (slice name 0 8))
  let patternExt := rstrip (decode (slice name 8 11))
  let (fname, fext) := cpmName upper entry.val
  matchPattern upper patternName fname && matchPattern upper patternExt fext

/-- The next entry of the search, and the search after it. -/
def takeEntry : Action (Option (HostName × Nat)) := fun s =>
  match s.search with
  | none => .ok none s
  | some search =>
      match search.found[search.index]? with
      | none => .ok none { s with search := none }
      | some entry =>
          .ok (some (entry, search.drive))
            { s with search := some { search with index := search.index + 1 } }

/-- `drive_dirs.get(drive, '.')` -/
def searchDir (drive : Nat) : Action Text := fun s =>
  .ok ((s.driveDirs drive).getD [dot]) s

/-- `_search_result` -/
def searchResult (upper : Nat → Text) : Action (List Byte) := do
  match ← takeEntry with
  | none => pure failure
  | some (entry, drive) =>
      let (fname, fext) := cpmName upper entry.val
      let direntry ← store (List.replicate 32 0#8) 0 0
      let direntry := splice direntry 1 9 (← encode (ljust 8 fname))
      let direntry := splice direntry 9 12 (← encode (ljust 3 fext))
      let path := join (← searchDir drive) entry.val
      let records ← exceptOsError (do
        let size ← getsize path
        pure (recordsOf size)) (pure 0)
      let direntry ← store direntry 12 0
      let direntry ← store direntry 15 (min records 128)
      let resp ← store (List.replicate 33 0#8) 0 0
      pure (splice resp 1 33 direntry)

/-- `handle_search_first` -/
def handleSearchFirst (upper : Nat → Text) (payload : List Byte) : Action (List Byte) := do
  let drive ← fcbDrive payload 2
  let name := fcbName payload 2
  match (← get).driveDir drive with
  | none => pure failure
  | some dir =>
      let found ← exceptOsError (do
        let entries ← listdir dir
        pure (entries.filter (matchesEntry upper name))) (pure [])
      modify (fun s => { s with search := some ⟨found, 0, drive⟩ })
      searchResult upper

/-- `handle_search_next` -/
def handleSearchNext (upper : Nat → Text) (_payload : List Byte) : Action (List Byte) :=
  searchResult upper

/-! ### The other functions -/

/-- `handle_list_output` -/
def handleListOutput (payload : List Byte) : Action (List Byte) := do
  let ch := payload.getD 0 0#8
  match (← get).printerFile with
  | none => pure [0#8]
  | some [] => pure [0#8]
  | some (c :: file) =>
      let bytes ← openFile .ab (c :: file)
      fill (c :: file) (bytes ++ [ch])
      pure [0#8]

/-- `handle_set_attrs` -/
def handleSetAttrs (payload : List Byte) : Action (List Byte) := do
  let _ ← fcbDrive payload 1
  pure [0#8]

/-- `handle_console_output`, with the console off. -/
def handleConsoleOutput (payload : List Byte) : Action (List Byte) :=
  if payload = [] then throw .indexError else pure [0x00#8]

/-- `handle_get_dpb` -/
def dpbReply : List Byte :=
  [0#8] ++ [72#8, 0#8, 4#8, 15#8, 1#8, 242#8, 0#8, 63#8, 0#8, 0xC0#8, 0x00#8, 16#8, 0#8, 2#8, 0#8,
    0#8, 0#8]

/-- The functions of the table `handlers`. -/
inductive Function
  | resetDisk
  | selectDisk
  | openFile
  | closeFile
  | searchFirst
  | searchNext
  | deleteFile
  | renameFile
  | readSeq
  | writeSeq
  | makeFile
  | setRec
  | retCurrent
  | setDma
  | getAlloc
  | getRo
  | writeProt
  | setAttrs
  | getDpb
  | writeRand
  | writeRandZf
  | getUser
  | readRand
  | fileSize
  | resetDrive
  | accessDrive
  | freeDrive
  | getLoginVector
  | listOutput
  | networkLogin
  | networkLogoff
  | networkStatus
  | getServerCfg
  | consoleStatus
  | consoleInput
  | consoleOutput
  deriving DecidableEq, Repr

/-- `handlers.get(fnc)` -/
def Function.ofCode (fnc : Byte) : Option Function :=
  match fnc.toNat with
  | 13 => some .resetDisk
  | 14 => some .selectDisk
  | 15 => some .openFile
  | 16 => some .closeFile
  | 17 => some .searchFirst
  | 18 => some .searchNext
  | 19 => some .deleteFile
  | 23 => some .renameFile
  | 20 => some .readSeq
  | 21 => some .writeSeq
  | 22 => some .makeFile
  | 36 => some .setRec
  | 25 => some .retCurrent
  | 26 => some .setDma
  | 27 => some .getAlloc
  | 29 => some .getRo
  | 28 => some .writeProt
  | 30 => some .setAttrs
  | 31 => some .getDpb
  | 34 => some .writeRand
  | 40 => some .writeRandZf
  | 32 => some .getUser
  | 33 => some .readRand
  | 35 => some .fileSize
  | 37 => some .resetDrive
  | 38 => some .accessDrive
  | 39 => some .freeDrive
  | 24 => some .getLoginVector
  | 5 => some .listOutput
  | 64 => some .networkLogin
  | 65 => some .networkLogoff
  | 70 => some .networkStatus
  | 71 => some .getServerCfg
  | 11 => some .consoleStatus
  | 3 => some .consoleInput
  | 4 => some .consoleOutput
  | _ => none

/-- The handler of a function. -/
def Function.handle (upper : Nat → Text) : Function → List Byte → Action (List Byte)
  | .openFile => handleOpen
  | .searchFirst => handleSearchFirst upper
  | .searchNext => handleSearchNext upper
  | .deleteFile => handleDelete
  | .renameFile => handleRename
  | .readSeq => handleReadSeq
  | .writeSeq => handleWriteSeq
  | .makeFile => handleMakeFile
  | .writeRand => handleWriteRand
  | .writeRandZf => handleWriteRandZf
  | .readRand => handleReadRand
  | .fileSize => handleFileSize
  | .listOutput => handleListOutput
  | .setAttrs => handleSetAttrs
  | .consoleOutput => handleConsoleOutput
  | .getDpb => fun _ => pure dpbReply
  | .getRo => fun _ => pure [0#8, 0#8]
  | .getLoginVector => fun _ => pure [0xFF#8, 0xFF#8]
  | .getServerCfg => fun _ => pure (List.replicate 23 0#8)
  | .consoleInput => fun _ => pure [0x0D#8]
  -- the rest report success
  | .resetDisk | .selectDisk | .closeFile | .setRec | .retCurrent | .setDma | .getAlloc
  | .writeProt | .getUser | .resetDrive | .accessDrive | .freeDrive | .networkLogin
  | .networkLogoff | .networkStatus | .consoleStatus => fun _ => pure [0#8]

/-! ### Requests -/

/-- `send_frame` is given a frame. -/
def sendFrame (hdr : Header) (payload : List Byte) : Action Unit :=
  modify (fun s => { s with sent := ⟨hdr, payload⟩ :: s.sent })

/-- `handle_init` -/
def handleInit (sid : Byte) : Action Unit := do
  modify (fun s => { s with clientNode := if sid ≠ 0#8 then sid else 1#8 })
  let s ← get
  sendFrame ⟨0#8, s.clientNode, s.serverNode, 0#8, 2#8⟩ [s.clientNode, s.serverNode, 0x00#8]

/-- The line that records an unknown function. -/
def unhandledLine (fnc : Byte) : List Byte :=
  (("UNHANDLED_BDOS_F" ++ toString fnc.toNat ++ "\n").toList).map (fun c => BitVec.ofNat 8 c.toNat)

/-- An unknown function. -/
def handleUnknown (fnc : Byte) : Action (List Byte) := do
  match (← get).errorFile with
  | none => pure failure
  | some [] => pure failure
  | some (c :: file) =>
      let bytes ← openFile .ab (c :: file)
      fill (c :: file) (bytes ++ unhandledLine fnc)
      pure failure

/-- The reply to a request: the handler's, or that to an unknown function. -/
def respond (upper : Nat → Text) (fnc : Byte) (payload : List Byte) : Action (List Byte) :=
  match Function.ofCode fnc with
  | some f => f.handle upper payload
  | none => handleUnknown fnc

/-- `handle_request` -/
def handleRequest (upper : Nat → Text) (hdr : Header) (payload : List Byte) : Action Unit :=
  if hdr.fnc = 0xFF#8 then handleInit hdr.sid
  else if hdr.fnc = 0xFE#8 then pure ()
  else do
    let respData ← respond upper hdr.fnc payload
    let s ← get
    -- `(len(resp_data) - 1) & 0xFF`
    sendFrame ⟨1#8, hdr.sid, s.serverNode, hdr.fnc, BitVec.ofNat 8 (respData.length + 255)⟩
      respData

/-! ### A server -/

/-- Upper case, for ASCII. -/
def asciiUpper (c : Nat) : Text := if 97 ≤ c ∧ c ≤ 122 then [c - 32] else [c]

/-- The text of a string. -/
def text (x : String) : Text := x.toList.map Char.toNat

/-- A server whose first drive is an empty directory. -/
def emptyServer : Server where
  driveDirs := fun drive => if drive = 0 then some (text "/srv") else none
  serverNode := 0#8
  clientNode := 1#8
  search := none
  errorFile := none
  printerFile := none
  host :=
    { node := fun p =>
        if p = text "/srv" ∨ p = text "/srv/" then .directory 4096 else .absent
      listing := fun _ => []
      admits := fun _ => true }
  touched := []
  sent := []

/-- A request: the user number, a file control block with a drive code and a name, and
the rest of it. -/
def request (code : Byte) (name : String) (rest : List Byte) : List Byte :=
  [0#8, code] ++ (text name).map (BitVec.ofNat 8) ++ rest

end CpNet
end Rc700
