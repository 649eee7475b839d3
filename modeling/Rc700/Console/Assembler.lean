import Rc700.Console.Refinement

/-!
# The assembler console driver

`CONOUT` of `rcbios/src/DISPLAY.MAC`, the driver the C driver replaces.  It fills
by block moves onto the next cell, keeps the bitmap with the least significant bit
first, dispatches control codes through a table of 32 entries, and in `DISPL`
moves the cursor before it flags the cell.

Addresses are offsets into the screen (`DSPSTR`) and into the bitmap (`BGSTAR`).
-/

namespace Rc700
namespace Console

open Library

/-- The variables of the assembler driver. -/
structure Asm extends Video where
  graph : Byte
  bgflg : BgFlg
  rctad : Nat
  cctad : Nat
  cursy : Nat
  xflg : Nat
  adr0 : Nat
  usher : Byte
  locad : Nat
  /-- Number of bells. -/
  bells : Nat

/-! ### Display memory -/

namespace Video

/-- `MOVUP`: a forward move, unless it is empty. -/
def movup (area : Area) (src dst count : Nat) (v : Video) : Video :=
  if count ≠ 0 then v.ldir area src dst count else v

/-- `MOVDWN`: a backward move, unless it is empty. -/
def movdwn (area : Area) (src dst count : Nat) (v : Video) : Video :=
  if count ≠ 0 then v.lddr area src dst count else v

/-- `FILL`: the line at `locbuf` is filled with spaces, its bits at `locbbu` are
cleared. -/
def fill (bgflg : BgFlg) (locbuf locbbu : Nat) (v : Video) : Video :=
  let v := (v.poke .screen locbuf 32#8).ldir .screen locbuf (locbuf + 1) 79
  if bgflg = .off then v
  else (v.poke .bgstar locbbu 0#8).ldir .bgstar locbbu (locbbu + 1) 9

/-- `SCROLL` -/
def scrollAsm (bgflg : BgFlg) (v : Video) : Video :=
  let v := v.ldir .screen 80 0 1920
  if bgflg = .off then v.fill bgflg 1920 240
  else (v.ldir .bgstar 10 0 240).fill bgflg 1920 240

/-- `CLRBIT`: the bits from `bitno` on are cleared, least significant bit first. -/
def clrbit (offset bitno : Nat) (v : Video) : Video :=
  v.poke .bgstar offset (v.bgstar offset &&& BitVec.ofNat 8 (2 ^ bitno - 1))

/-- `ESCE`: the fill runs down from the last cell. -/
def esce (bgflg : BgFlg) (v : Video) : Video :=
  let v := (v.poke .screen 1999 32#8).lddr .screen 1999 1998 1999
  if bgflg = .off then v
  else (v.poke .bgstar 249 0#8).lddr .bgstar 249 248 249

/-- `ESCK`.  The rest of the bitmap row is copied from the byte after the first
one, which is not cleared. -/
def esck (bgflg : BgFlg) (rctad cctad : Nat) (v : Video) : Video :=
  let last := rctad + 79
  let v := (v.poke .screen last 32#8).movdwn .screen last (last - 1) ((256 - cctad + 79) % 256)
  if bgflg = .off then v
  else
    let offset := (rctad + cctad) / 8
    let v := v.clrbit offset ((rctad + cctad) % 8)
    let count := (255 - cctad / 8 + 9) % 256
    if 128 ≤ count then v else v.movup .bgstar (offset + 1) (offset + 2) count

/-- `ESCY` -/
def escy (bgflg : BgFlg) (rctad cctad : Nat) (v : Video) : Video :=
  let v := (v.poke .screen 1999 32#8).movdwn .screen 1999 1998
    ((1999 + 65536 - (rctad + cctad)) % 65536)
  if bgflg = .off then v
  else
    let offset := (rctad + cctad) / 8
    let v := v.clrbit offset ((rctad + cctad) % 8)
    let count := (248 + 65536 - offset) % 65536
    if 32768 ≤ count then v
    else (v.poke .bgstar 249 0#8).movdwn .bgstar 249 248 count

/-- `ESCDL` -/
def escdl (bgflg : BgFlg) (rctad : Nat) (v : Video) : Video :=
  let v := v.movup .screen (rctad + 80) rctad ((1920 + 65536 - rctad) % 65536)
  if bgflg = .off then v.fill bgflg 1920 240
  else
    let offset := rctad / 8
    (v.movup .bgstar (offset + 10) offset ((240 + 65536 - offset) % 65536)).fill bgflg 1920 240

/-- `ESCIL` -/
def escil (bgflg : BgFlg) (rctad : Nat) (v : Video) : Video :=
  let v := v.movdwn .screen 1919 1999 ((1920 + 65536 - rctad) % 65536)
  let offset := rctad / 8
  if bgflg = .off then v.fill bgflg rctad offset
  else
    (v.movdwn .bgstar 239 249 ((240 + 65536 - offset) % 65536)).fill bgflg rctad offset

/-- `ESCCF` for one byte of the bitmap: the bits come out least significant first.
(For a byte without flags the source has a loop of its own with the same stores.) -/
def esccfByte (bits : Byte) : Nat → Nat → Video → Video
  | 0, _, v => v
  | n + 1, p, v =>
      esccfByte (bits >>> 1) n (p + 1)
        (if bits.getLsbD 0 then v else v.poke .screen p 32#8)

/-- The bytes of the bitmap from `i` on. -/
def esccfFrom : Nat → Nat → Nat → Video → Video
  | 0, _, _, v => v
  | n + 1, i, p, v => esccfFrom n (i + 1) (p + 8) (v.esccfByte (v.bgstar i) 8 p)

/-- `ESCCF` -/
def esccf (v : Video) : Video := v.esccfFrom 250 0 0

end Video

namespace Asm

/-- The driver with another display memory. -/
def withVideo (s : Asm) (v : Video) : Asm := { s with toVideo := v }

/-! ### Cursor

`WP75` hands the cursor to the display controller, from the same variables; it
changes none of them. -/

def rowdn (s : Asm) : Asm :=
  { s with rctad := (s.rctad + 80) % 65536, cursy := (s.cursy + 1) % 256 }

def rowup (s : Asm) : Asm :=
  { s with rctad := (s.rctad + 65536 - 80) % 65536, cursy := (s.cursy + 255) % 256 }

/-- `ES0H` -/
def es0h (s : Asm) : Asm := { s with rctad := 0, cctad := 0, cursy := 0 }

def scroll (s : Asm) : Asm := s.withVideo (s.toVideo.scrollAsm s.bgflg)

/-- `ESCD`: cursor left. -/
def escd (s : Asm) : Asm :=
  if s.cctad ≠ 0 then { s with cctad := (s.cctad + 255) % 256 }
  else
    let s := { s with cctad := 79 }
    if s.rctad ≠ 0 then rowup s else { s with rctad := 1920, cursy := 24 }

/-- `ESCC`: cursor right. -/
def escc (s : Asm) : Asm :=
  if s.cctad ≠ 79 then { s with cctad := (s.cctad + 1) % 256 }
  else
    let s := { s with cctad := 0 }
    if s.rctad ≠ 1920 then rowdn s else scroll s

/-- `CTAB` -/
def ctab (s : Asm) : Asm := escc (escc (escc (escc s)))

/-- `ESCB`: cursor down. -/
def escb (s : Asm) : Asm := if s.rctad ≠ 1920 then rowdn s else scroll s

/-- `ESCA`: cursor up. -/
def esca (s : Asm) : Asm :=
  if s.rctad ≠ 0 then rowup s else { s with rctad := 1920, cursy := 24 }

/-! ### Control codes -/

def ctlf (s : Asm) : Asm := { es0h s with xflg := 2 }

def esce (s : Asm) : Asm :=
  { es0h (s.withVideo (s.toVideo.esce s.bgflg)) with bgflg := .off }

/-- `TAB1` -/
def tab1 (code : Nat) (s : Asm) : Asm :=
  match code with
  | 0x01 => s.withVideo (s.toVideo.escil s.bgflg s.rctad)
  | 0x02 => s.withVideo (s.toVideo.escdl s.bgflg s.rctad)
  | 0x05 => escd s
  | 0x06 => ctlf s
  | 0x07 => { s with bells := s.bells + 1 }
  | 0x08 => escd s
  | 0x09 => ctab s
  | 0x0A => escb s
  | 0x0C => esce s
  | 0x0D => { s with cctad := 0 }
  | 0x14 => { s with bgflg := .background }
  | 0x15 => { s with bgflg := .foreground }
  | 0x16 => s.withVideo s.toVideo.esccf
  | 0x18 => escc s
  | 0x1A => esca s
  | 0x1D => es0h s
  | 0x1E => s.withVideo (s.toVideo.esck s.bgflg s.rctad s.cctad)
  | 0x1F => s.withVideo (s.toVideo.escy s.bgflg s.rctad s.cctad)
  | _ => s

/-- `SPECC` -/
def specc (s : Asm) : Asm := tab1 s.usher.toNat { s with xflg := 0 }

/-- `XYADD`.  The row is added to the row that is there, once for each line. -/
def xyadd (config : Config) (s : Asm) : Asm :=
  let a := ((s.usher &&& 127#8) - 32#8).toNat
  let s := { s with xflg := (s.xflg + 255) % 256 }
  if s.xflg ≠ 0 then { s with adr0 := a }
  else
    let (h, d) := if config.adrmod = 0#8 then (s.adr0, a) else (a, s.adr0)
    let s := { s with cctad := reduceBelow 80 256 h, cursy := reduceBelow 25 256 d }
    if s.cursy = 0 then s else { s with rctad := (s.rctad + 80 * s.cursy) % 65536 }

/-- `DISPL` -/
def displ (config : Config) (s : Asm) : Asm :=
  let s := { s with locad := (s.rctad + s.cctad) % 65536 }
  let c := if 192 ≤ s.usher.toNat then s.usher - 192#8 else s.usher
  let (ch, s) :=
    if 128 ≤ c.toNat then (c, { s with graph := c &&& 4#8 })
    else if s.graph ≠ 0#8 then (c, s)
    else (config.outcon c, s)
  let s := escc (s.withVideo (s.toVideo.poke .screen s.locad ch))
  if s.bgflg = .background then
    let offset := s.locad / 8
    s.withVideo (s.toVideo.poke .bgstar offset
      (s.bgstar offset ||| BitVec.ofNat 8 (2 ^ (s.locad % 8))))
  else s

/-- `CONOUT` -/
def conout (config : Config) (s : Asm) (c : Byte) : Asm :=
  let s := { s with usher := c }
  if s.xflg ≠ 0 then xyadd config s
  else if s.usher.toNat < 32 then specc s
  else displ config s

/-- The driver's variables after initialisation, with any contents of the
screen. -/
def start (screen : Nat → Byte) : Asm where
  screen := screen
  bgstar := fun _ => 0#8
  stores := []
  graph := 0#8
  bgflg := .off
  rctad := 0
  cctad := 0
  cursy := 0
  xflg := 0
  adr0 := 0
  usher := 0#8
  locad := 0
  bells := 0

end Asm

end Console
end Rc700
