import Rc700.Console.Terminal
import Rc700.Console.Video

/-!
# The console driver of the CP/M BIOS

`CONOUT` of `rcbios-in-c/bios.c`: control codes, cursor addressing, character
display and the background bitmap, as functions on the driver's variables.

Bytes and words are natural numbers; where the C code can wrap, the model
reduces explicitly.
-/

namespace Rc700
namespace Console

open Library

/-- The console driver's variables. -/
structure Crt extends Video where
  bgflg : BgFlg
  curx : Nat
  cury : Nat
  cursy : Nat
  xflg : Nat
  adr0 : Nat
  graph : Byte
  usession : Byte
  locad : Nat
  curDirty : Bool
  /-- Bytes handed to the serial line, newest first. -/
  serial : List Byte
  /-- Bytes handed to the list device, newest first. -/
  listed : List Byte
  /-- Number of bells. -/
  bells : Nat

/-- The driver with another display memory. -/
def Crt.withVideo (s : Crt) (v : Video) : Crt := { s with toVideo := v }

/-! ### Display memory

What the operations do to the screen and, once background mode has been used, to
the bitmap. -/

namespace Video

/-- Set the bit of a screen position, most significant bit first. -/
def bgSetBit (pos : Nat) (v : Video) : Video :=
  let byteoff := (pos >>> 3) % 256
  v.poke .bgstar byteoff (v.bgstar byteoff ||| (0x80#8 >>> (pos % 8)))

/-- Clear whole bytes of the bitmap, and the leading bits of the last byte. -/
def bgClearBytes (byteoff bgclCount : Nat) (v : Video) : Video :=
  let whole := (bgclCount >>> 3) % 256
  let tail := bgclCount % 8
  let v := if whole ≠ 0 then v.memset .bgstar byteoff 0#8 whole else v
  let byteoff := if whole ≠ 0 then (byteoff + whole) % 256 else byteoff
  if tail ≠ 0 then
    v.poke .bgstar byteoff (v.bgstar byteoff &&& ~~~(0xFF#8 <<< (8 - tail)))
  else v

/-- Clear the bits of `bgclCount` positions from `bgclPos` on.  The partial byte
at the start is cleared up to its end. -/
def bgClearFrom (bgflg : BgFlg) (bgclPos bgclCount : Nat) (v : Video) : Video :=
  let byteoff := (bgclPos >>> 3) % 256
  let bitno := bgclPos % 8
  if bgflg = .off then v
  else if bitno ≠ 0 then
    (v.poke .bgstar byteoff (v.bgstar byteoff &&& ~~~(0xFF#8 >>> bitno))).bgClearBytes
      ((byteoff + 1) % 256)
      (if 8 - bitno < bgclCount then bgclCount - (8 - bitno) else 0)
  else v.bgClearBytes byteoff bgclCount

/-- Scroll the display, and the bitmap once background mode has been used. -/
def scroll (bgflg : BgFlg) (v : Video) : Video :=
  let v := (v.ldir .screen 80 0 1920).memset .screen 1920 0x20#8 80
  if bgflg = .off then v
  else (v.ldir .bgstar 10 0 240).memset .bgstar 240 0#8 10

def clearScreen (bgflg : BgFlg) (v : Video) : Video :=
  let v := v.memset .screen 0 0x20#8 2000
  if bgflg = .off then v else v.memset .bgstar 0 0#8 250

def eraseToEol (bgflg : BgFlg) (cury curx : Nat) (v : Video) : Video :=
  let v := v.memset .screen (cury + curx) 0x20#8 (80 - curx)
  if bgflg = .off then v
  else v.bgClearFrom bgflg ((cury + curx) % 65536) ((80 + 65536 - curx) % 65536)

def eraseToEos (bgflg : BgFlg) (cury curx : Nat) (v : Video) : Video :=
  let pos := (cury + curx) % 65536
  let count := (2000 + 65536 - pos) % 65536
  let v := v.memset .screen pos 0x20#8 count
  if bgflg = .off then v else v.bgClearFrom bgflg pos count

def deleteLine (bgflg : BgFlg) (cury : Nat) (v : Video) : Video :=
  let v :=
    if cury ≠ 1920 then v.ldir .screen (cury + 80) cury ((1920 + 65536 - cury) % 65536)
    else v
  let v := v.memset .screen 1920 0x20#8 80
  if bgflg = .off then v
  else
    let dlOff := (cury >>> 3) % 256
    let dlBgcount := (240 + 256 - dlOff) % 256
    let v := if dlBgcount ≠ 0 then v.ldir .bgstar (dlOff + 10) dlOff dlBgcount else v
    v.memset .bgstar 240 0#8 10

def insertLine (bgflg : BgFlg) (cury : Nat) (v : Video) : Video :=
  let count := (1920 + 65536 - cury) % 65536
  let v := if count ≠ 0 then v.lddr .screen 1919 1999 count else v
  let v := v.memset .screen cury 0x20#8 80
  if bgflg = .off then v
  else
    let ilOff := (cury >>> 3) % 256
    let ilBgcount := (240 + 256 - ilOff) % 256
    let v := if ilBgcount ≠ 0 then v.lddr .bgstar 239 249 ilBgcount else v
    v.memset .bgstar ilOff 0#8 10

/-- Blank the positions whose bit is not set, for the `n` last bits of a byte;
the mask runs from `0x80` to `0x01`. -/
def blankUnset (bits : Byte) : Nat → Nat → Video → Video
  | 0, _, v => v
  | n + 1, p, v =>
      blankUnset bits n (p + 1)
        (if bits &&& (0x80#8 >>> (7 - n)) = 0#8 then v.poke .screen p 0x20#8 else v)

/-- The `n` last bytes of the bitmap, from `i` on. -/
def clearForegroundFrom : Nat → Nat → Nat → Video → Video
  | 0, _, _, v => v
  | n + 1, i, p, v =>
      clearForegroundFrom n (i + 1) (p + 8) (v.blankUnset (v.bgstar i) 8 p)

/-- Erase the screen positions whose bit is not set. -/
def clearForeground (v : Video) : Video := v.clearForegroundFrom 250 0 0

end Video

/-! ### Cursor -/

/-- Ask the display interrupt to show the cursor. -/
def cursorxy (s : Crt) : Crt := { s with curDirty := true }

/-- Reset the cursor to the top left. -/
def goto00 (s : Crt) : Crt := { s with cury := 0, curx := 0, cursy := 0 }

/-- Start cursor addressing. -/
def startXy (s : Crt) : Crt := goto00 { s with xflg := 2 }

/-- Move the cursor up one row. -/
def rowup (s : Crt) : Crt :=
  cursorxy { s with
    cury := (s.cury + 65536 - 80) % 65536
    cursy := (s.cursy + 255) % 256 }

/-- Move the cursor down one row. -/
def rowdn (s : Crt) : Crt :=
  cursorxy { s with
    cury := (s.cury + 80) % 65536
    cursy := (s.cursy + 1) % 256 }

/-- Scroll up one line. -/
def scroll (s : Crt) : Crt := s.withVideo (s.toVideo.scroll s.bgflg)

/-- Cursor to the last row. -/
def lastRow (s : Crt) : Crt := cursorxy { s with cury := 1920, cursy := 24 }

def cursorLeft (s : Crt) : Crt :=
  if s.curx ≠ 0 then cursorxy { s with curx := (s.curx + 255) % 256 }
  else
    let s := { s with curx := 79 }
    if s.cury ≠ 0 then rowup s else lastRow s

def cursorDown (s : Crt) : Crt :=
  if s.cury ≠ 1920 then rowdn s else scroll s

def cursorUp (s : Crt) : Crt :=
  if s.cury ≠ 0 then rowup s else lastRow s

def carriageReturn (s : Crt) : Crt := cursorxy { s with curx := 0 }

def cursorRight (s : Crt) : Crt :=
  if s.curx < 79 then cursorxy { s with curx := (s.curx + 1) % 256 }
  else
    let s := { s with curx := 0 }
    if s.cury ≠ 1920 then rowdn s else scroll (cursorxy s)

def tab (s : Crt) : Crt := cursorRight (cursorRight (cursorRight (cursorRight s)))

def home (s : Crt) : Crt := cursorxy (goto00 s)

/-! ### Clearing and moving lines -/

def clearScreen (s : Crt) : Crt :=
  let v := s.toVideo.clearScreen s.bgflg
  cursorxy (goto00 { s.withVideo v with bgflg := .off })

def eraseToEol (s : Crt) : Crt :=
  s.withVideo (s.toVideo.eraseToEol s.bgflg s.cury s.curx)

def eraseToEos (s : Crt) : Crt :=
  s.withVideo (s.toVideo.eraseToEos s.bgflg s.cury s.curx)

def deleteLine (s : Crt) : Crt := s.withVideo (s.toVideo.deleteLine s.bgflg s.cury)

def insertLine (s : Crt) : Crt := s.withVideo (s.toVideo.insertLine s.bgflg s.cury)

def clearForeground (s : Crt) : Crt := s.withVideo s.toVideo.clearForeground

/-! ### Cursor addressing and characters -/

/-- `while (v >= bound) v -= bound`, for a byte. -/
def reduceBelow (bound : Nat) : Nat → Nat → Nat
  | 0, v => v
  | fuel + 1, v => if bound ≤ v then reduceBelow bound fuel (v - bound) else v

/-- A coordinate byte after cursor addressing was started. -/
def xyadd (config : Config) (s : Crt) : Crt :=
  let val := ((s.usession &&& 0x7F#8) - 32#8).toNat
  let s := { s with xflg := (s.xflg + 255) % 256 }
  if s.xflg ≠ 0 then { s with adr0 := val }
  else
    let (x, y) := if config.adrmod = 0#8 then (s.adr0, val) else (val, s.adr0)
    let x := reduceBelow 80 256 x
    let y := reduceBelow 25 256 y
    cursorxy { s with curx := x, cursy := y, cury := y * 80 }

/-- Show a character and advance the cursor. -/
def displ (config : Config) (s : Crt) : Crt :=
  let ch := s.usession
  let s := { s with locad := (s.cury + s.curx) % 65536 }
  let ch := if 192 ≤ ch.toNat then ch - 192#8 else ch
  let (ch, s) :=
    if 128 ≤ ch.toNat then (ch, { s with graph := ch &&& 4#8 })
    else if s.graph = 0#8 then (config.outcon ch, s)
    else (ch, s)
  let v := s.toVideo.poke .screen s.locad ch
  let v := if s.bgflg = .background then v.bgSetBit s.locad else v
  cursorRight (s.withVideo v)

/-- Control codes. -/
def specc (s : Crt) : Crt :=
  let s := { s with xflg := 0 }
  match s.usession.toNat with
  | 0x0D => carriageReturn s
  | 0x0A => cursorDown s
  | 0x06 => startXy s
  | 0x08 => cursorLeft s
  | 0x05 => cursorLeft s
  | 0x09 => tab s
  | 0x18 => cursorRight s
  | 0x1A => cursorUp s
  | 0x0C => clearScreen s
  | 0x1D => home s
  | 0x1E => eraseToEol s
  | 0x1F => eraseToEos s
  | 0x01 => insertLine s
  | 0x02 => deleteLine s
  | 0x07 => { s with bells := s.bells + 1 }
  | 0x13 => { s.withVideo (s.toVideo.memset .bgstar 0 0#8 250) with bgflg := .background }
  | 0x14 => { s with bgflg := .foreground }
  | 0x15 => clearForeground s
  | _ => s

/-! ### The entry point -/

/-- The `CON` field of the IOBYTE. -/
inductive Con
  | tty
  | crt
  | bat
  | uc1
  deriving DecidableEq, Repr

/-- The CRT side of the console. -/
def conoutCrt (config : Config) (c : Byte) (s : Crt) : Crt :=
  let s := { s with usession := c }
  if s.xflg ≠ 0 then xyadd config s
  else if s.usession.toNat < 32 then specc s
  else displ config s

/-- `bios_conout_c` -/
def biosConoutC (config : Config) (s : Crt) (con : Con) (c : Byte) : Crt :=
  match con with
  | .tty => conoutCrt config c { s with serial := c :: s.serial }
  | .crt => conoutCrt config c s
  | .bat => { s with listed := c :: s.listed }
  | .uc1 => conoutCrt config c { s with serial := c :: s.serial }

/-- A sequence of calls of `CONOUT`, each with the `CON` field it meets. -/
def conoutAll (config : Config) (s : Crt) (calls : List (Con × Byte)) : Crt :=
  calls.foldl (fun s call => biosConoutC config s call.1 call.2) s

/-- The driver's variables after initialisation, with any contents of the
screen. -/
def Crt.start (screen : Nat → Byte) : Crt where
  screen := screen
  bgstar := fun _ => 0#8
  stores := []
  bgflg := .off
  curx := 0
  cury := 0
  cursy := 0
  xflg := 0
  adr0 := 0
  graph := 0#8
  usession := 0#8
  locad := 0
  curDirty := false
  serial := []
  listed := []
  bells := 0

end Console
end Rc700
