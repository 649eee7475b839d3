import Rc700.Bdos.Allocation

/-!
# The file system: the directory

The subroutines of `cpm/OS3BDOS.ASM` that read, check, search and write the directory, and that
keep the allocation vector in step with it: from `read$dir` up to `initialize`, `search`,
`searchn`, `delete`, `rename` and `indicators`.

An entry of the directory is a quarter of a record.  `dcnt` counts the entries, from `enddir` on
through zero; `dptr` is where the entry is in the directory buffer.
-/

namespace Rc700
namespace Bdos

open Library

/-! ### Constants -/

def empty : Byte := 0xE5#8

/-- directory entries in a record -/
def dirrec : Nat := 4

def fcblen : Nat := 32

def extnum : Nat := 12

def maxext : Byte := 31#8

def ubytes : Nat := 13

def modnum : Nat := 14

def namlen : Nat := 15

def reccnt : Nat := 15

def dskmap : Nat := 16

def nxtrec : Nat := 32

def rofile : Nat := 9

/-- `'?'`, which matches all -/
def anyChar : Byte := 0x3F#8

/-- `'$'` -/
def dollar : Byte := 0x24#8

/-- One byte in each place of a disk map, if that is enough for the block numbers. -/
def Dpb.single (dpb : Dpb) : Bool := dpb.maxall >>> 8 == 0#16

/-- Places in a disk map. -/
def mapSize (single : Bool) : Nat := if single then 16 else 8

/-- What is in a place of the disk map, of an entry or of a file control block. -/
def mapAt (single : Bool) (e : Nat → Byte) (i : Nat) : Word :=
  if single then (e (dskmap + i)).setWidth 16 else e (dskmap + 2 * i + 1) ++ e (dskmap + 2 * i)

section Code

variable {D : Type} (bios : Bios D) (dpb : Dpb)

/-- The entry at `dptr`. -/
def State.entry (s : State D) : Nat → Byte := fun i => s.io.buff (s.access.dptr.toNat + i)

/-! ### Checks -/

/-- `check$write` -/
def checkwrite : Code D Unit := do
  if (← Routine.gets fun s : State D => s.tables.rodsk) then Routine.finish .readOnlyDisk
  else pure ()

/-- `check$rofile`, for the entry or the file control block in HL -/
def checkrofile (e : Nat → Byte) : Code D Unit :=
  if (e rofile).msb then Routine.finish .readOnlyFile else pure ()

/-- `check$rodir` -/
def checkrodir : Code D Unit := do checkrofile (← Routine.gets State.entry)

/-- `compcdr`: the carry -/
def compcdr (s : State D) : Bool := s.access.dcnt < s.tables.cdrmax

/-- `setcdr` -/
def setcdr : Code D Unit := Routine.modify fun s =>
  if compcdr s then s else { s with tables.cdrmax := s.access.dcnt + 1#16 }

/-- `set$ro` -/
def setro : Code D Unit :=
  modifyTables fun t => { t with rodsk := true, cdrmax := dpb.dirmax + 1#16 }

/-- `compute$cs` -/
def computecs (buff : Nat → Byte) : Byte :=
  (List.range 128).foldl (fun a i => a + buff i) 0#8

/-- `checksum`, with the initialization flag in C -/
def checksum (c : Bool) : Code D Unit := do
  let s ← Routine.gets id
  if s.access.drec < dpb.chksiz then
    let cs := computecs s.io.buff
    if c then
      modifyTables fun t => { t with check := Function.update t.check s.access.drec.toNat cs }
    else if cs = s.tables.check s.access.drec.toNat then pure ()
    -- a checksum error, if not beyond the end of the directory
    else if compcdr s then setro dpb
    else pure ()
  else pure ()

/-- `wrdir` -/
def wrdir : Code D Unit := do
  checksum dpb true
  setdir
  wrbuff bios 1#8
  setdata

/-- `rd$dir` -/
def rddir : Code D Unit := do
  setdir
  rdbuff bios
  setdata

/-! ### From entry to entry -/

/-- `end$of$dir` -/
def endofdir (s : State D) : Bool := s.access.dcnt == enddir

/-- `set$end$dir` -/
def setenddir : Code D Unit := modifyAccess fun a => { a with dcnt := enddir }

/-- `read$dir`: the record is read with its first entry. -/
def readdir (c : Bool) : Code D Unit := do
  modifyAccess fun a => { a with dcnt := a.dcnt + 1#16 }
  let s ← Routine.gets id
  if dpb.dirmax < s.access.dcnt then setenddir
  else do
    let dptr := (s.access.dcnt.setWidth 8 &&& 0b11#8) <<< 5
    modifyAccess fun a => { a with dptr := dptr }
    if dptr ≠ 0#8 then pure ()
    else do
      seekdir bios dpb
      rddir bios
      checksum dpb c

/-- `scandm`: the blocks of the entry are set to `e` in the allocation vector. -/
def scandm (e : Byte) : Code D Unit := Routine.modify fun s =>
  { s with
    tables.alloc := (List.range (mapSize dpb.single)).foldl (fun alloc i =>
      let b := mapAt dpb.single s.entry i
      -- an invalid index is left out
      if b = 0#16 ∨ dpb.maxall < b then alloc else setallocbit alloc b e) s.tables.alloc }

/-- The allocation vector with the blocks of the directory. -/
def reserved (alloc : Nat → Byte) : Nat → Byte := fun i =>
  if i = 0 then dpb.al0 else if i = 1 then dpb.al1
  else if i ≤ (dpb.maxall >>> 3).toNat then 0#8 else alloc i

/-- A pass of the loop at `initial2` -/
def initialPass : Code D (Option Unit) := do
  readdir bios dpb true
  let s ← Routine.gets id
  if endofdir s then pure (some ())
  else if s.entry 0 = empty then pure none
  else do
    if s.entry 0 = s.usrcode ∧ s.entry 1 = dollar then
      Routine.modify fun s => { s with lret := 255#8 }
    else pure ()
    scandm dpb 1#8
    setcdr
    pure none

/-- `initialize` -/
def initializeDisk : Code D Unit := do
  modifyTables fun t => { t with alloc := reserved dpb t.alloc }
  home bios
  modifyTables fun t => { t with cdrmax := 3#16 }
  setenddir
  Routine.loop (initialPass bios dpb) allPasses

/-! ### Searching -/

/-- `compext`: the accumulator -/
def compext (a c : Byte) : Byte := ((a &&& ~~~dpb.extmsk) - (c &&& ~~~dpb.extmsk)) &&& maxext

/-- A byte of the file control block matches the one of the entry. -/
def matchesAt (fcb e : Nat → Byte) (b : Nat) : Bool :=
  if fcb b = anyChar then true
  else if b = ubytes then true
  else if b = extnum then compext dpb (fcb b) (e b) == 0#8
  else (fcb b - e b) &&& 0x7F#8 == 0#8

/-- `searchloop` -/
def matchesFcb (searchl : Nat) (fcb e : Nat → Byte) : Bool :=
  (List.range searchl).all (matchesAt dpb fcb e)

/-- `search$fin` -/
def searchfin : Code D Unit := do
  setenddir
  Routine.modify fun s => { s with lret := 255#8 }

/-- `endsearch` -/
def endsearch : Code D Unit := Routine.modify fun s =>
  { s with
    lret := s.access.dcnt.setWidth 8 &&& 0b11#8
    access.dirloc := if s.access.dirloc.msb then 0#8 else s.access.dirloc }

/-- A pass of the loop of `searchn` -/
def searchnPass : Code D (Option Unit) := do
  readdir bios dpb false
  let s ← Routine.gets id
  if endofdir s then do
    searchfin
    pure (some ())
  -- the logical end of the directory
  else if s.access.searcha 0 ≠ empty ∧ ¬ compcdr s then do
    searchfin
    pure (some ())
  else if matchesFcb dpb s.access.searchl s.access.searcha s.entry then do
    endsearch
    pure (some ())
  else pure none

/-- `searchn` -/
def searchn : Code D Unit := Routine.loop (searchnPass bios dpb) allPasses

/-- `search`, for an element of length C at an address -/
def search (c : Nat) (a : Nat → Byte) : Code D Unit := do
  modifyAccess fun x => { x with dirloc := 0xFF#8, searchl := c, searcha := a }
  setenddir
  home bios
  searchn bios dpb

/-! ### Changes -/

/-- The directory buffer with a byte of the entry changed. -/
def putEntry (i : Nat) (b : Byte) : Code D Unit := Routine.modify fun s =>
  { s with io.buff := Function.update s.io.buff (s.access.dptr.toNat + i) b }

/-- A pass of the loop at `delete0` -/
def deletePass : Code D (Option Unit) := do
  if (← Routine.gets endofdir) then pure (some ())
  else do
    checkrodir
    putEntry 0 empty
    scandm dpb 0#8
    wrdir bios dpb
    searchn bios dpb
    pure none

/-- `delete` -/
def delete : Code D Unit := do
  checkwrite
  search bios dpb extnum (← Routine.gets State.fcb)
  Routine.loop (deletePass bios dpb) allPasses

/-- `seek$copy` -/
def seekcopy : Code D Unit := do
  seekdir bios dpb
  wrdir bios dpb

/-- `copy$dir`: so many bytes from the file control block on come to the start of the entry. -/
def copydir (c e : Nat) : Code D Unit := do
  Routine.modify fun s =>
    { s with
      io.buff := fun i =>
        if s.access.dptr.toNat ≤ i ∧ i < s.access.dptr.toNat + e then
          s.fcb (c + (i - s.access.dptr.toNat))
        else s.io.buff i }
  seekcopy bios dpb

/-- A pass of the loop at `rename0` -/
def renamePass : Code D (Option Unit) := do
  if (← Routine.gets endofdir) then pure (some ())
  else do
    checkrodir
    copydir bios dpb dskmap extnum
    searchn bios dpb
    pure none

/-- `rename` -/
def rename : Code D Unit := do
  checkwrite
  search bios dpb extnum (← Routine.gets State.fcb)
  Routine.modify fun s => { s with fcb := Function.update s.fcb dskmap (s.fcb 0) }
  Routine.loop (renamePass bios dpb) allPasses

/-- A pass of the loop at `indic0` -/
def indicatorsPass : Code D (Option Unit) := do
  if (← Routine.gets endofdir) then pure (some ())
  else do
    copydir bios dpb 0 extnum
    searchn bios dpb
    pure none

/-- `indicators` -/
def indicators : Code D Unit := do
  search bios dpb extnum (← Routine.gets State.fcb)
  Routine.loop (indicatorsPass bios dpb) allPasses

/-- `copy$dirloc` -/
def copydirloc : Code D Unit := Routine.modify fun s => { s with lret := s.access.dirloc }

end Code

end Bdos
end Rc700
