import Rc700.Console.Refinement

/-!
# The console of CP/NOS

`impl_conout` of `cpnos-rom/resident.c`, ported from the console driver of the
BIOS without the background bitmap.  It keeps the row as a number, steps the
column before it tests it, clamps coordinates instead of reducing them, and takes
LF as CR and LF.
-/

namespace Rc700
namespace Console

open Library

/-- The console variables of CP/NOS.  There is no bitmap: of the display memory
only the screen is stored to. -/
structure Cpnos extends Video where
  curx : Nat
  cury : Nat
  xflg : Nat
  xyFirst : Nat
  curDirty : Bool
  /-- Bytes mirrored to the serial line, newest first. -/
  serial : List Byte
  /-- Number of bells. -/
  bells : Nat

namespace Cpnos

/-- The console with another display memory. -/
def withVideo (s : Cpnos) (v : Video) : Cpnos := { s with toVideo := v }

/-- The offset of a cell: `CELL(x, y)`. -/
def cell (x y : Nat) : Nat := y * 80 + x

/-! ### Cursor -/

/-- Rows 1 to 24 move up, row 24 is blanked. -/
def scrollUp (s : Cpnos) : Cpnos :=
  s.withVideo ((s.toVideo.ldir .screen 80 0 1920).memset .screen (cell 0 24) 0x20#8 80)

def cursorDown (s : Cpnos) : Cpnos :=
  if s.cury + 1 < 25 then { s with cury := (s.cury + 1) % 256 } else scrollUp s

def cursorRight (s : Cpnos) : Cpnos :=
  let s := { s with curx := (s.curx + 1) % 256 }
  if s.curx < 80 then s
  else
    let s := { s with curx := 0 }
    if s.cury + 1 < 25 then { s with cury := (s.cury + 1) % 256 } else scrollUp s

def cursorUp (s : Cpnos) : Cpnos :=
  { s with cury := if s.cury ≠ 0 then s.cury - 1 else 24 }

def cursorLeft (s : Cpnos) : Cpnos :=
  if s.curx ≠ 0 then { s with curx := s.curx - 1 }
  else { s with curx := 79, cury := if s.cury ≠ 0 then s.cury - 1 else 24 }

def home (s : Cpnos) : Cpnos := { s with curx := 0, cury := 0 }

def tab (s : Cpnos) : Cpnos := cursorRight (cursorRight (cursorRight (cursorRight s)))

/-! ### Clearing and moving lines -/

def clearScreen (s : Cpnos) : Cpnos :=
  home (s.withVideo (s.toVideo.memset .screen 0 0x20#8 2000))

def eraseToEol (s : Cpnos) : Cpnos :=
  s.withVideo (s.toVideo.memset .screen (cell s.curx s.cury) 0x20#8
    ((80 + 65536 - s.curx) % 65536))

def eraseToEos (s : Cpnos) : Cpnos :=
  let pos := (s.cury * 80 + s.curx) % 65536
  s.withVideo (s.toVideo.memset .screen (cell s.curx s.cury) 0x20#8
    ((2000 + 65536 - pos) % 65536))

def deleteLine (s : Cpnos) : Cpnos :=
  let v :=
    if s.cury + 1 < 25 then
      s.toVideo.ldir .screen (cell 0 (s.cury + 1)) (cell 0 s.cury) ((24 - s.cury) * 80)
    else s.toVideo
  s.withVideo (v.memset .screen (cell 0 24) 0x20#8 80)

def insertLine (s : Cpnos) : Cpnos :=
  let v :=
    if s.cury + 1 < 25 then
      s.toVideo.lddr .screen (cell 79 23) (cell 79 24) ((24 - s.cury) * 80)
    else s.toVideo
  s.withVideo (v.memset .screen (cell 0 s.cury) 0x20#8 80)

/-! ### Cursor addressing -/

def startXy (s : Cpnos) : Cpnos := home { s with xflg := 2 }

/-- A coordinate byte; what is out of range becomes 0. -/
def xyStep (c : Byte) (s : Cpnos) : Cpnos :=
  let val := ((c &&& 0x7F#8) - 32#8).toNat
  let s := { s with xflg := (s.xflg + 255) % 256 }
  if s.xflg ≠ 0 then { s with xyFirst := val }
  else
    let val := if 25 ≤ val then 0 else val
    let s := if 80 ≤ s.xyFirst then { s with xyFirst := 0 } else s
    { s with curx := s.xyFirst, cury := val }

/-! ### The entry point -/

/-- Control codes. -/
def specc (c : Byte) (s : Cpnos) : Cpnos :=
  match c.toNat with
  | 0x01 => insertLine s
  | 0x02 => deleteLine s
  | 0x05 => cursorLeft s
  | 0x06 => startXy s
  | 0x07 => { s with bells := s.bells + 1 }
  | 0x08 => cursorLeft s
  | 0x09 => tab s
  | 0x0A => cursorDown s
  | 0x0C => clearScreen s
  | 0x0D => { s with curx := 0 }
  | 0x18 => cursorRight s
  | 0x1A => cursorUp s
  | 0x1D => home s
  | 0x1E => eraseToEol s
  | 0x1F => eraseToEos s
  | _ => s

/-- `impl_conout`; `mirrorSiob` is the build option `MIRROR_SIOB`. -/
def implConout (mirrorSiob : Bool) (s : Cpnos) (c : Byte) : Cpnos :=
  let s := if mirrorSiob then { s with serial := c :: s.serial } else s
  let s :=
    if s.xflg ≠ 0 then xyStep c s
    else if c = 0x0A#8 then { cursorDown s with curx := 0 }
    else if c = 0x0D#8 then { s with curx := 0 }
    else if c.toNat < 0x20 then specc c s
    else cursorRight (s.withVideo (s.toVideo.poke .screen (cell s.curx s.cury) c))
  { s with curDirty := true }

/-- The console at start-up, with any contents of the screen and any cursor. -/
def start (screen : Nat → Byte) (x : Fin 80) (y : Fin 25) : Cpnos where
  screen := screen
  bgstar := fun _ => 0#8
  stores := []
  curx := x.val
  cury := y.val
  xflg := 0
  xyFirst := 0
  curDirty := false
  serial := []
  bells := 0

end Cpnos

end Console
end Rc700
