import Rc700.Library.PathText
import Rc700.Library.RecordFile
import Rc700.Library.Word

/-!
# The host of the file server

The file system below the drive directories of `cpnet/server.py`, under POSIX: a path
names nothing, a file or a directory.  A file that the server creates may be read and
written; others carry permissions.  Whether entries of a directory may be created and
removed is the host's (`admits`), and so is the size it reports for a directory.

Paths are texts and no two of them name the same file.  A path with a NUL in it is no
path: such a call raises `ValueError` before the host sees it.
-/

namespace Rc700
namespace CpNet

open Library PathText

/-- The exceptions that the server's code can raise. -/
inductive PyError
  | osError
  | indexError
  | valueError
  | unicodeError
  deriving DecidableEq, Repr

/-- A name that `os.listdir` returns. -/
abbrev HostName := { x : Text // Plain x ∧ 0 ∉ x }

structure File where
  bytes : List Byte
  readable : Bool
  writable : Bool
  deriving DecidableEq

inductive Node
  | absent
  | file (f : File)
  | directory (size : Nat)
  deriving DecidableEq

structure Host where
  node : Text → Node
  /-- The entries of a directory; its path is closed by a separator. -/
  listing : Text → List HostName
  /-- The path may be created or removed. -/
  admits : Text → Bool

/-- The modes of `open`. -/
inductive Mode
  | rb
  | ab
  | update
  | wb
  deriving DecidableEq, Repr

namespace Host

/-- A new entry of a directory. -/
def enter (p : Text) (h : Host) : Host :=
  if hname : Plain (base p) ∧ 0 ∉ base p then
    { h with
      listing := Function.update h.listing (dirPart p)
        (h.listing (dirPart p) ++ [⟨base p, hname⟩]) }
  else h

/-- An entry less. -/
def leave (p : Text) (h : Host) : Host :=
  { h with
    listing := Function.update h.listing (dirPart p)
      ((h.listing (dirPart p)).filter (fun name => name.val ≠ base p)) }

/-- A new, empty file. -/
def create (p : Text) (h : Host) : Host :=
  { h.enter p with node := Function.update h.node p (.file ⟨[], true, true⟩) }

/-- The bytes of a file are replaced. -/
def fill (p : Text) (bytes : List Byte) (h : Host) : Host :=
  match h.node p with
  | .file f => { h with node := Function.update h.node p (.file { f with bytes := bytes }) }
  | _ => h

/-- `open`: what the file holds. -/
def openFile (mode : Mode) (p : Text) (h : Host) : Except PyError (List Byte × Host) :=
  match h.node p with
  | .directory _ => .error .osError
  | .file f =>
      match mode with
      | .rb => if f.readable then .ok (f.bytes, h) else .error .osError
      | .ab => if f.writable then .ok (f.bytes, h) else .error .osError
      | .update => if f.readable && f.writable then .ok (f.bytes, h) else .error .osError
      | .wb => if f.writable then .ok ([], h.fill p []) else .error .osError
  | .absent =>
      match mode with
      | .rb => .error .osError
      | .update => .error .osError
      | .ab => if h.admits p then .ok ([], h.create p) else .error .osError
      | .wb => if h.admits p then .ok ([], h.create p) else .error .osError

/-- `os.path.getsize` -/
def getsize (p : Text) (h : Host) : Except PyError (Nat × Host) :=
  match h.node p with
  | .absent => .error .osError
  | .file f => .ok (f.bytes.length, h)
  | .directory size => .ok (size, h)

/-- `os.listdir` -/
def listdir (p : Text) (h : Host) : Except PyError (List HostName × Host) :=
  match h.node p with
  | .directory _ => .ok (h.listing (closed p), h)
  | _ => .error .osError

/-- `os.remove` -/
def remove (p : Text) (h : Host) : Except PyError (Unit × Host) :=
  match h.node p with
  | .file _ =>
      if h.admits p then .ok ((), { h.leave p with node := Function.update h.node p .absent })
      else .error .osError
  | _ => .error .osError

/-- The path below `old` that corresponds to one below `new`. -/
def rebase (old new p : Text) : Option Text :=
  if (closed new).isPrefixOf p then some (closed old ++ p.drop (closed new).length) else none

/-- A node moves, with all that is below it. -/
def move (old new : Text) (h : Host) : Host :=
  { h with
    node := fun p =>
      if p = new then h.node old
      else if p = old then .absent
      else match rebase old new p, rebase old old p with
        | some q, _ => h.node q
        | none, some _ => .absent
        | none, none => h.node p
    listing := fun p =>
      match rebase old new p, rebase old old p with
      | some q, _ => h.listing q
      | none, some _ => []
      | none, none => (((h.leave new).leave old).enter new).listing p }

/-- `os.rename` -/
def rename (old new : Text) (h : Host) : Except PyError (Unit × Host) :=
  if h.admits old && h.admits new then
    match h.node old, h.node new with
    | .absent, _ => .error .osError
    | .file _, .directory _ => .error .osError
    | .directory _, .file _ => .error .osError
    | .file _, _ => .ok ((), if old = new then h else h.move old new)
    | .directory _, target =>
        if old = new then .ok ((), h)
        else if (closed old).isPrefixOf new then .error .osError
        else if target ≠ .absent ∧ h.listing (closed new) ≠ [] then .error .osError
        else .ok ((), h.move old new)
  else .error .osError

end Host

end CpNet
end Rc700
