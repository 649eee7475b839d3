import Rc700.Console.Driver
import Rc700.Library.Preemption

/-!
# CONOUT, access by access

The routines of the console driver as code that is interrupted between any two of its
accesses to memory.  An increment, or a store of a word, is one access, as it is one
instruction of the processor.

Without interrupts the code does what the functions of the driver compute
(`alone_biosConoutC`).
-/

namespace Rc700
namespace Console
namespace Accesses

open Library
open Prog (store load when)

/-! ### Display memory -/

/-- Store a byte without a note of it. -/
def put (area : Area) (offset : Nat) (b : Byte) (v : Video) : Video :=
  match area with
  | .screen => { v with screen := Function.update v.screen offset b }
  | .bgstar => { v with bgstar := Function.update v.bgstar offset b }

/-- The byte at a place. -/
def get (area : Area) (offset : Nat) (v : Video) : Byte :=
  match area with
  | .screen => v.screen offset
  | .bgstar => v.bgstar offset

/-- An access to the display memory. -/
def video (f : Video → Video) : Prog Crt Unit := store fun s => s.withVideo (f s.toVideo)

/-- Note that a range is being written, for the proofs only. -/
def note (area : Area) (offset length : Nat) : Prog Crt Unit :=
  video fun v => { v with stores := ⟨area, offset, length⟩ :: v.stores }

def fillFrom (area : Area) (b : Byte) : Nat → Nat → Prog Crt Unit
  | 0, _ => pure ()
  | n + 1, dst => do
      video (put area dst b)
      fillFrom area b n (dst + 1)

def copyUp (area : Area) : Nat → Nat → Nat → Prog Crt Unit
  | 0, _, _ => pure ()
  | n + 1, src, dst => do
      video fun v => put area dst (get area src v) v
      copyUp area n (src + 1) (dst + 1)

def copyDown (area : Area) : Nat → Nat → Nat → Prog Crt Unit
  | 0, _, _ => pure ()
  | n + 1, src, dst => do
      video fun v => put area dst (get area src v) v
      copyDown area n (src - 1) (dst - 1)

def memset (area : Area) (dst : Nat) (b : Byte) (n : Nat) : Prog Crt Unit := do
  note area dst n
  fillFrom area b n dst

def ldir (area : Area) (src dst n : Nat) : Prog Crt Unit := do
  note area dst n
  copyUp area n src dst

def lddr (area : Area) (src dst n : Nat) : Prog Crt Unit := do
  note area (dst + 1 - n) n
  copyDown area n src dst

/-! ### Scrolling and clearing -/

def bgSetBit (pos : Nat) : Prog Crt Unit :=
  let byteoff := (pos >>> 3) % 256
  video fun v => v.poke .bgstar byteoff (v.bgstar byteoff ||| (0x80#8 >>> (pos % 8)))

def bgClearBytes (byteoff bgclCount : Nat) : Prog Crt Unit := do
  let whole := (bgclCount >>> 3) % 256
  let tail := bgclCount % 8
  when (whole ≠ 0) (memset .bgstar byteoff 0#8 whole)
  let byteoff := if whole ≠ 0 then (byteoff + whole) % 256 else byteoff
  when (tail ≠ 0) <| video fun v =>
    v.poke .bgstar byteoff (v.bgstar byteoff &&& ~~~(0xFF#8 <<< (8 - tail)))

def bgClearFrom (bgclPos bgclCount : Nat) : Prog Crt Unit := do
  let byteoff := (bgclPos >>> 3) % 256
  let bitno := bgclPos % 8
  let bgflg ← load fun s => s.bgflg
  if bgflg = .off then pure ()
  else if bitno ≠ 0 then do
    video fun v => v.poke .bgstar byteoff (v.bgstar byteoff &&& ~~~(0xFF#8 >>> bitno))
    bgClearBytes ((byteoff + 1) % 256)
      (if 8 - bitno < bgclCount then bgclCount - (8 - bitno) else 0)
  else bgClearBytes byteoff bgclCount

def scroll : Prog Crt Unit := do
  ldir .screen 80 0 1920
  memset .screen 1920 0x20#8 80
  let bgflg ← load fun s => s.bgflg
  when (bgflg ≠ .off) do
    ldir .bgstar 10 0 240
    memset .bgstar 240 0#8 10

def eraseToEol : Prog Crt Unit := do
  let cury ← load fun s => s.cury
  let curx ← load fun s => s.curx
  memset .screen (cury + curx) 0x20#8 (80 - curx)
  let bgflg ← load fun s => s.bgflg
  when (bgflg ≠ .off) (bgClearFrom ((cury + curx) % 65536) ((80 + 65536 - curx) % 65536))

def eraseToEos : Prog Crt Unit := do
  let cury ← load fun s => s.cury
  let curx ← load fun s => s.curx
  let pos := (cury + curx) % 65536
  let count := (2000 + 65536 - pos) % 65536
  memset .screen pos 0x20#8 count
  let bgflg ← load fun s => s.bgflg
  when (bgflg ≠ .off) (bgClearFrom pos count)

def deleteLine : Prog Crt Unit := do
  let cury ← load fun s => s.cury
  when (cury ≠ 1920) (ldir .screen (cury + 80) cury ((1920 + 65536 - cury) % 65536))
  memset .screen 1920 0x20#8 80
  let bgflg ← load fun s => s.bgflg
  when (bgflg ≠ .off) do
    let dlOff := (cury >>> 3) % 256
    let dlBgcount := (240 + 256 - dlOff) % 256
    when (dlBgcount ≠ 0) (ldir .bgstar (dlOff + 10) dlOff dlBgcount)
    memset .bgstar 240 0#8 10

def insertLine : Prog Crt Unit := do
  let cury ← load fun s => s.cury
  let count := (1920 + 65536 - cury) % 65536
  when (count ≠ 0) (lddr .screen 1919 1999 count)
  memset .screen cury 0x20#8 80
  let bgflg ← load fun s => s.bgflg
  when (bgflg ≠ .off) do
    let ilOff := (cury >>> 3) % 256
    let ilBgcount := (240 + 256 - ilOff) % 256
    when (ilBgcount ≠ 0) (lddr .bgstar 239 249 ilBgcount)
    memset .bgstar ilOff 0#8 10

/-- The `n` last bits of a byte of the bitmap, and the places they stand for. -/
def blankUnset (bits : Byte) : Nat → Nat → Prog Crt Unit
  | 0, _ => pure ()
  | n + 1, p => do
      when (bits &&& (0x80#8 >>> (7 - n)) = 0#8) (video fun v => v.poke .screen p 0x20#8)
      blankUnset bits n (p + 1)

/-- The `n` last bytes of the bitmap, from `i` on. -/
def clearForegroundFrom : Nat → Nat → Nat → Prog Crt Unit
  | 0, _, _ => pure ()
  | n + 1, i, p => do
      let bits ← load fun s => s.bgstar i
      blankUnset bits 8 p
      clearForegroundFrom n (i + 1) (p + 8)

def clearForeground : Prog Crt Unit := clearForegroundFrom 250 0 0

/-! ### Cursor -/

def cursorxy : Prog Crt Unit := store fun s => { s with curDirty := true }

def goto00 : Prog Crt Unit := do
  store fun s => { s with cury := 0 }
  store fun s => { s with curx := 0 }
  store fun s => { s with cursy := 0 }

def startXy : Prog Crt Unit := do
  store fun s => { s with xflg := 2 }
  goto00

def rowup : Prog Crt Unit := do
  store fun s => { s with cury := (s.cury + 65536 - 80) % 65536 }
  store fun s => { s with cursy := (s.cursy + 255) % 256 }
  cursorxy

def rowdn : Prog Crt Unit := do
  store fun s => { s with cury := (s.cury + 80) % 65536 }
  store fun s => { s with cursy := (s.cursy + 1) % 256 }
  cursorxy

/-- The end of `cursor_left` and `cursor_up` in the first row. -/
def lastRow : Prog Crt Unit := do
  store fun s => { s with cury := 1920 }
  store fun s => { s with cursy := 24 }
  cursorxy

def cursorUp : Prog Crt Unit := do
  let cury ← load fun s => s.cury
  if cury ≠ 0 then rowup else lastRow

def cursorLeft : Prog Crt Unit := do
  let curx ← load fun s => s.curx
  if curx ≠ 0 then do
    store fun s => { s with curx := (s.curx + 255) % 256 }
    cursorxy
  else do
    store fun s => { s with curx := 79 }
    cursorUp

def cursorDown : Prog Crt Unit := do
  let cury ← load fun s => s.cury
  if cury ≠ 1920 then rowdn else scroll

def carriageReturn : Prog Crt Unit := do
  store fun s => { s with curx := 0 }
  cursorxy

def cursorRight : Prog Crt Unit := do
  let curx ← load fun s => s.curx
  if curx < 79 then do
    store fun s => { s with curx := (s.curx + 1) % 256 }
    cursorxy
  else do
    store fun s => { s with curx := 0 }
    let cury ← load fun s => s.cury
    if cury ≠ 1920 then rowdn
    else do
      cursorxy
      scroll

def tab : Prog Crt Unit := do
  cursorRight
  cursorRight
  cursorRight
  cursorRight

def home : Prog Crt Unit := do
  goto00
  cursorxy

def clearScreen : Prog Crt Unit := do
  memset .screen 0 0x20#8 2000
  goto00
  cursorxy
  let bgflg ← load fun s => s.bgflg
  when (bgflg ≠ .off) do
    store fun s => { s with bgflg := .off }
    memset .bgstar 0 0#8 250

/-! ### Cursor addressing and characters -/

def xyadd (config : Config) : Prog Crt Unit := do
  let usession ← load fun s => s.usession
  let val := ((usession &&& 0x7F#8) - 32#8).toNat
  store fun s => { s with xflg := (s.xflg + 255) % 256 }
  let xflg ← load fun s => s.xflg
  if xflg ≠ 0 then store fun s => { s with adr0 := val }
  else do
    let adr0 ← load fun s => s.adr0
    let x := reduceBelow 80 256 (if config.adrmod = 0#8 then adr0 else val)
    let y := reduceBelow 25 256 (if config.adrmod = 0#8 then val else adr0)
    store fun s => { s with curx := x }
    store fun s => { s with cursy := y }
    store fun s => { s with cury := y * 80 }
    cursorxy

/-- The character to show, and the graphical mode it leaves. -/
def outChar (config : Config) (ch : Byte) : Prog Crt Byte := do
  let ch := if 192 ≤ ch.toNat then ch - 192#8 else ch
  if 128 ≤ ch.toNat then do
    store fun s => { s with graph := ch &&& 4#8 }
    pure ch
  else do
    let graph ← load fun s => s.graph
    pure (if graph = 0#8 then config.outcon ch else ch)

def displ (config : Config) : Prog Crt Unit := do
  let usession ← load fun s => s.usession
  store fun s => { s with locad := (s.cury + s.curx) % 65536 }
  let ch ← outChar config usession
  store fun s => s.withVideo (s.toVideo.poke .screen s.locad ch)
  let bgflg ← load fun s => s.bgflg
  when (bgflg = .background) do
    let locad ← load fun s => s.locad
    bgSetBit locad
  cursorRight

def specc : Prog Crt Unit := do
  store fun s => { s with xflg := 0 }
  let usession ← load fun s => s.usession
  match usession.toNat with
  | 0x0D => carriageReturn
  | 0x0A => cursorDown
  | 0x06 => startXy
  | 0x08 => cursorLeft
  | 0x05 => cursorLeft
  | 0x09 => tab
  | 0x18 => cursorRight
  | 0x1A => cursorUp
  | 0x0C => clearScreen
  | 0x1D => home
  | 0x1E => eraseToEol
  | 0x1F => eraseToEos
  | 0x01 => insertLine
  | 0x02 => deleteLine
  | 0x07 => store fun s => { s with bells := s.bells + 1 }
  | 0x13 => do
      store fun s => { s with bgflg := .background }
      memset .bgstar 0 0#8 250
  | 0x14 => store fun s => { s with bgflg := .foreground }
  | 0x15 => clearForeground
  | _ => pure ()

def conoutCrt (config : Config) (c : Byte) : Prog Crt Unit := do
  store fun s => { s with usession := c }
  let xflg ← load fun s => s.xflg
  if xflg ≠ 0 then xyadd config
  else do
    let usession ← load fun s => s.usession
    if usession.toNat < 32 then specc else displ config

/-- `bios_conout_c` -/
def biosConoutC (config : Config) (con : Con) (c : Byte) : Prog Crt Unit :=
  match con with
  | .tty => do
      store fun s => { s with serial := c :: s.serial }
      conoutCrt config c
  | .crt => conoutCrt config c
  | .bat => store fun s => { s with listed := c :: s.listed }
  | .uc1 => do
      store fun s => { s with serial := c :: s.serial }
      conoutCrt config c

/-! ### Without interrupts

Nothing waits, so that the code ends, in the state that the driver's function gives. -/

theorem alone_video (f : Video → Video) (s : Crt) :
    (video f).alone s = some ((), s.withVideo (f s.toVideo)) := rfl

/-- The display memory with one area changed. -/
def mapArea (area : Area) (f : (Nat → Byte) → Nat → Byte) (v : Video) : Video :=
  match area with
  | .screen => { v with screen := f v.screen }
  | .bgstar => { v with bgstar := f v.bgstar }

theorem alone_fillFrom (area : Area) (b : Byte) (n dst : Nat) (s : Crt) :
    (fillFrom area b n dst).alone s =
      some ((), s.withVideo (mapArea area (Library.memset n dst b) s.toVideo)) := by
  induction n generalizing dst s with
  | zero =>
      cases area with
      | screen => simp [fillFrom, mapArea, Library.memset_eq, Crt.withVideo]
      | bgstar => simp [fillFrom, mapArea, Library.memset_eq, Crt.withVideo]
  | succ n ih =>
      rw [fillFrom, Prog.alone_bind, alone_video, Option.bind_some, ih]
      cases area with
      | screen => simp only [mapArea, put, Crt.withVideo, Library.memset]
      | bgstar => simp only [mapArea, put, Crt.withVideo, Library.memset]

theorem alone_copyUp (area : Area) (n src dst : Nat) (s : Crt) :
    (copyUp area n src dst).alone s =
      some ((), s.withVideo (mapArea area (Library.ldir n src dst) s.toVideo)) := by
  induction n generalizing src dst s with
  | zero =>
      cases area with
      | screen => simp only [copyUp, mapArea, Library.ldir, Crt.withVideo, Prog.alone_pure]
      | bgstar => simp only [copyUp, mapArea, Library.ldir, Crt.withVideo, Prog.alone_pure]
  | succ n ih =>
      rw [copyUp, Prog.alone_bind, alone_video, Option.bind_some, ih]
      cases area with
      | screen => simp only [mapArea, put, get, Crt.withVideo, Library.ldir]
      | bgstar => simp only [mapArea, put, get, Crt.withVideo, Library.ldir]

theorem alone_copyDown (area : Area) (n src dst : Nat) (s : Crt) :
    (copyDown area n src dst).alone s =
      some ((), s.withVideo (mapArea area (Library.lddr n src dst) s.toVideo)) := by
  induction n generalizing src dst s with
  | zero =>
      cases area with
      | screen => simp only [copyDown, mapArea, Library.lddr, Crt.withVideo, Prog.alone_pure]
      | bgstar => simp only [copyDown, mapArea, Library.lddr, Crt.withVideo, Prog.alone_pure]
  | succ n ih =>
      rw [copyDown, Prog.alone_bind, alone_video, Option.bind_some, ih]
      cases area with
      | screen => simp only [mapArea, put, get, Crt.withVideo, Library.lddr]
      | bgstar => simp only [mapArea, put, get, Crt.withVideo, Library.lddr]

@[simp] theorem alone_memset (area : Area) (dst : Nat) (b : Byte) (n : Nat) (s : Crt) :
    (memset area dst b n).alone s = some ((), s.withVideo (s.toVideo.memset area dst b n)) := by
  rw [memset, note, Prog.alone_bind, alone_video, Option.bind_some, alone_fillFrom]
  cases area with
  | screen => rfl
  | bgstar => rfl

@[simp] theorem alone_ldir (area : Area) (src dst n : Nat) (s : Crt) :
    (ldir area src dst n).alone s = some ((), s.withVideo (s.toVideo.ldir area src dst n)) := by
  rw [ldir, note, Prog.alone_bind, alone_video, Option.bind_some, alone_copyUp]
  cases area with
  | screen => rfl
  | bgstar => rfl

@[simp] theorem alone_lddr (area : Area) (src dst n : Nat) (s : Crt) :
    (lddr area src dst n).alone s = some ((), s.withVideo (s.toVideo.lddr area src dst n)) := by
  rw [lddr, note, Prog.alone_bind, alone_video, Option.bind_some, alone_copyDown]
  cases area with
  | screen => rfl
  | bgstar => rfl

@[simp] theorem withVideo_toVideo (s : Crt) (v : Video) : (s.withVideo v).toVideo = v := rfl

@[simp] theorem withVideo_withVideo (s : Crt) (v w : Video) :
    (s.withVideo v).withVideo w = s.withVideo w := rfl

@[simp] theorem withVideo_bgflg (s : Crt) (v : Video) : (s.withVideo v).bgflg = s.bgflg := rfl

theorem alone_bgflg (s : Crt) (v : Video) :
    (load fun s => s.bgflg).alone (s.withVideo v) = some (s.bgflg, s.withVideo v) := rfl

/-- What is done to the bitmap once background mode has been used. -/
theorem alone_overlay {prog : Prog Crt Unit} {s : Crt} {v w : Video}
    (hprog : prog.alone (s.withVideo v) = some ((), s.withVideo w)) (bgflg : BgFlg) :
    (when (bgflg ≠ .off) prog).alone (s.withVideo v) =
      some ((), s.withVideo (if bgflg = .off then v else w)) := by
  rw [Prog.alone_when]
  by_cases hoff : bgflg = .off
  · rw [if_neg (not_not.mpr hoff), if_pos hoff]
  · rw [if_pos hoff, if_neg hoff, hprog]

theorem alone_bgClearBytes (byteoff bgclCount : Nat) (s : Crt) :
    (bgClearBytes byteoff bgclCount).alone s =
      some ((), s.withVideo (s.toVideo.bgClearBytes byteoff bgclCount)) := by
  simp only [bgClearBytes, Video.bgClearBytes, Prog.alone_bind, Prog.alone_when, alone_memset]
  split
  · simp only [Option.bind_some, alone_video, withVideo_toVideo, withVideo_withVideo]
    split
    · rfl
    · rfl
  · simp only [Option.bind_some, alone_video]
    split
    · rfl
    · rfl

@[simp] theorem alone_bgClearFrom (bgclPos bgclCount : Nat) (s : Crt) :
    (bgClearFrom bgclPos bgclCount).alone s =
      some ((), s.withVideo (s.toVideo.bgClearFrom s.bgflg bgclPos bgclCount)) := by
  simp only [bgClearFrom, Video.bgClearFrom, Prog.alone_bind, Prog.alone_load, Option.bind_some]
  split
  · rfl
  · split
    · simp only [Prog.alone_bind, alone_video, Option.bind_some, alone_bgClearBytes,
        withVideo_toVideo, withVideo_withVideo]
    · rw [alone_bgClearBytes]

/-- A block move that is skipped when it has no length. -/
theorem alone_unless_zero {prog : Prog Crt Unit} {r s : Crt} {v w : Video}
    (hr : r = s.withVideo v) (hprog : prog.alone r = some ((), s.withVideo w)) (c : Prop)
    [Decidable c] : (when c prog).alone r = some ((), s.withVideo (if c then w else v)) := by
  rw [Prog.alone_when]
  by_cases hc : c
  · rw [if_pos hc, if_pos hc, hprog]
  · rw [if_neg hc, if_neg hc, hr]

@[simp] theorem alone_scroll (s : Crt) : scroll.alone s = some ((), Console.scroll s) := by
  unfold scroll Console.scroll Video.scroll
  rw [Prog.alone_then (alone_ldir ..), Prog.alone_then (alone_memset ..),
    withVideo_withVideo, withVideo_toVideo, Prog.alone_then (alone_bgflg ..)]
  refine alone_overlay ?_ s.bgflg
  rw [Prog.alone_then (alone_ldir ..), alone_memset]
  rfl

theorem alone_eraseToEol (s : Crt) : eraseToEol.alone s = some ((), Console.eraseToEol s) := by
  unfold eraseToEol Console.eraseToEol Video.eraseToEol
  rw [Prog.alone_then (Prog.alone_load ..), Prog.alone_then (Prog.alone_load ..),
    Prog.alone_then (alone_memset ..), Prog.alone_then (alone_bgflg ..)]
  refine alone_overlay ?_ s.bgflg
  rw [alone_bgClearFrom]
  rfl

theorem alone_eraseToEos (s : Crt) : eraseToEos.alone s = some ((), Console.eraseToEos s) := by
  unfold eraseToEos Console.eraseToEos Video.eraseToEos
  rw [Prog.alone_then (Prog.alone_load ..), Prog.alone_then (Prog.alone_load ..)]
  simp only
  rw [Prog.alone_then (alone_memset ..), Prog.alone_then (alone_bgflg ..)]
  refine alone_overlay ?_ s.bgflg
  rw [alone_bgClearFrom]
  rfl

theorem alone_deleteLine (s : Crt) : deleteLine.alone s = some ((), Console.deleteLine s) := by
  unfold deleteLine Console.deleteLine Video.deleteLine
  rw [Prog.alone_then (Prog.alone_load ..),
    Prog.alone_then (alone_unless_zero (r := s) (v := s.toVideo) rfl (alone_ldir ..) _),
    Prog.alone_then (alone_memset ..), withVideo_withVideo, withVideo_toVideo,
    Prog.alone_then (alone_bgflg ..)]
  refine alone_overlay ?_ s.bgflg
  rw [Prog.alone_then (alone_unless_zero rfl (alone_ldir ..) _), alone_memset]
  rfl

theorem alone_insertLine (s : Crt) : insertLine.alone s = some ((), Console.insertLine s) := by
  unfold insertLine Console.insertLine Video.insertLine
  rw [Prog.alone_then (Prog.alone_load ..)]
  simp only
  rw [Prog.alone_then (alone_unless_zero (r := s) (v := s.toVideo) rfl (alone_lddr ..) _),
    Prog.alone_then (alone_memset ..), withVideo_withVideo, withVideo_toVideo,
    Prog.alone_then (alone_bgflg ..)]
  refine alone_overlay ?_ s.bgflg
  rw [Prog.alone_then (alone_unless_zero rfl (alone_lddr ..) _), alone_memset]
  rfl

theorem alone_blankUnset (bits : Byte) (n p : Nat) (s : Crt) :
    (blankUnset bits n p).alone s =
      some ((), s.withVideo (s.toVideo.blankUnset bits n p)) := by
  induction n generalizing p s with
  | zero => rfl
  | succ n ih =>
      rw [blankUnset, Video.blankUnset, Prog.alone_bind, Prog.alone_when]
      split
      · rw [alone_video, Option.bind_some, ih]
        rfl
      · rw [Option.bind_some, ih]

theorem alone_clearForegroundFrom (n i p : Nat) (s : Crt) :
    (clearForegroundFrom n i p).alone s =
      some ((), s.withVideo (s.toVideo.clearForegroundFrom n i p)) := by
  induction n generalizing i p s with
  | zero => rfl
  | succ n ih =>
      rw [clearForegroundFrom, Video.clearForegroundFrom]
      simp only [Prog.alone_bind, Prog.alone_load, Option.bind_some, alone_blankUnset, ih]
      rfl

theorem alone_clearForeground (s : Crt) :
    clearForeground.alone s = some ((), Console.clearForeground s) :=
  alone_clearForegroundFrom 250 0 0 s

@[simp] theorem alone_cursorUp (s : Crt) :
    cursorUp.alone s = some ((), Console.cursorUp s) := by
  simp only [cursorUp, Console.cursorUp, Prog.alone_bind, Prog.alone_load, Option.bind_some]
  split
  · rfl
  · rfl

theorem alone_cursorLeft (s : Crt) : cursorLeft.alone s = some ((), Console.cursorLeft s) := by
  simp only [cursorLeft, Console.cursorLeft, Prog.alone_bind, Prog.alone_load, Option.bind_some]
  split
  · rfl
  · rw [Prog.alone_bind, Prog.alone_store, Option.bind_some, alone_cursorUp]
    rfl

theorem alone_cursorDown (s : Crt) : cursorDown.alone s = some ((), Console.cursorDown s) := by
  simp only [cursorDown, Console.cursorDown, Prog.alone_bind, Prog.alone_load, Option.bind_some]
  split
  · rfl
  · rw [alone_scroll]

@[simp] theorem alone_cursorRight (s : Crt) :
    cursorRight.alone s = some ((), Console.cursorRight s) := by
  simp only [cursorRight, Console.cursorRight, Prog.alone_bind, Prog.alone_load,
    Option.bind_some]
  split
  · rfl
  · simp only [Prog.alone_bind, Prog.alone_store, Prog.alone_load, Option.bind_some]
    split
    · rfl
    · simp only [cursorxy, Prog.alone_bind, Prog.alone_store, Option.bind_some, alone_scroll,
        Console.cursorxy]

theorem alone_tab (s : Crt) : tab.alone s = some ((), Console.tab s) := by
  simp only [tab, Console.tab, Prog.alone_bind, Option.bind_some, alone_cursorRight]

theorem alone_goto00 (s : Crt) : goto00.alone s = some ((), Console.goto00 s) := rfl

/-- The second half of `clear_screen`, with `w` for the display memory once `clear` has been
run. -/
theorem alone_homeThen {clear : Prog Crt Unit} {v w : Video}
    (hclear : ∀ t : Crt, t.toVideo = v → clear.alone t = some ((), t.withVideo w)) (s : Crt) :
    (do
      goto00
      cursorxy
      let bgflg ← load fun s => s.bgflg
      when (bgflg ≠ .off) do
        store fun s => { s with bgflg := .off }
        clear : Prog Crt Unit).alone (s.withVideo v) =
      some ((), Console.cursorxy (Console.goto00
        { s.withVideo (if s.bgflg = .off then v else w) with bgflg := .off })) := by
  have hcursor : cursorxy.alone (Console.goto00 (s.withVideo v)) =
      some ((), Console.cursorxy (Console.goto00 (s.withVideo v))) := rfl
  have hload : (load fun s : Crt => s.bgflg).alone
      (Console.cursorxy (Console.goto00 (s.withVideo v))) =
      some (s.bgflg, Console.cursorxy (Console.goto00 (s.withVideo v))) := rfl
  rw [Prog.alone_then (alone_goto00 ..), Prog.alone_then hcursor, Prog.alone_then hload,
    Prog.alone_when]
  by_cases hoff : s.bgflg = .off
  · rw [if_neg (not_not.mpr hoff), if_pos hoff]
    simp only [Console.cursorxy, Console.goto00, Crt.withVideo, hoff]
  · rw [if_pos hoff, if_neg hoff, Prog.alone_then (Prog.alone_store ..), hclear _ rfl]
    rfl

theorem alone_clearScreen (s : Crt) :
    clearScreen.alone s = some ((), Console.clearScreen s) := by
  rw [clearScreen, Prog.alone_then (alone_memset ..)]
  refine alone_homeThen (fun t ht => ?_) s
  rw [alone_memset, ht]

theorem alone_xyadd (config : Config) (s : Crt) :
    (xyadd config).alone s = some ((), Console.xyadd config s) := by
  simp only [xyadd, Console.xyadd, Prog.alone_bind, Prog.alone_load, Prog.alone_store,
    Option.bind_some]
  split
  · rfl
  · simp only [cursorxy, Prog.alone_bind, Prog.alone_load, Prog.alone_store, Option.bind_some]
    by_cases hmode : config.adrmod = 0#8
    · simp only [if_pos hmode]
      rfl
    · simp only [if_neg hmode]
      rfl

/-- The character that is shown, and the state with the mode it leaves. -/
def shown (config : Config) (ch : Byte) (s : Crt) : Byte × Crt :=
  let ch := if 192 ≤ ch.toNat then ch - 192#8 else ch
  if 128 ≤ ch.toNat then (ch, { s with graph := ch &&& 4#8 })
  else if s.graph = 0#8 then (config.outcon ch, s)
  else (ch, s)

theorem alone_outChar (config : Config) (ch : Byte) (s : Crt) :
    (outChar config ch).alone s = some (shown config ch s) := by
  unfold outChar shown
  dsimp only
  generalize (if 192 ≤ ch.toNat then ch - 192#8 else ch) = ch
  split
  · rfl
  · rw [Prog.alone_then (Prog.alone_load ..), Prog.alone_pure]
    split
    · rfl
    · rfl

theorem displ_eq (config : Config) (s : Crt) :
    Console.displ config s =
      let (ch, t) := shown config s.usession { s with locad := (s.cury + s.curx) % 65536 }
      let v := t.toVideo.poke .screen t.locad ch
      Console.cursorRight
        (t.withVideo (if t.bgflg = .background then v.bgSetBit t.locad else v)) := rfl

theorem alone_displ (config : Config) (s : Crt) :
    (displ config).alone s = some ((), Console.displ config s) := by
  rw [displ_eq]
  have hchar := alone_outChar config s.usession { s with locad := (s.cury + s.curx) % 65536 }
  generalize shown config s.usession { s with locad := (s.cury + s.curx) % 65536 } = r at hchar ⊢
  obtain ⟨ch, t⟩ := r
  rw [displ, Prog.alone_then (Prog.alone_load ..), Prog.alone_then (Prog.alone_store ..),
    Prog.alone_then hchar, Prog.alone_then (Prog.alone_store ..),
    Prog.alone_then (alone_bgflg ..), Prog.alone_bind, Prog.alone_when]
  dsimp only
  by_cases hbackground : t.bgflg = .background
  · rw [if_pos hbackground, if_pos hbackground, Prog.alone_then (Prog.alone_load ..), bgSetBit,
      alone_video, Option.bind_some, alone_cursorRight]
    rfl
  · rw [if_neg hbackground, if_neg hbackground, Option.bind_some, alone_cursorRight]

theorem alone_specc (s : Crt) : specc.alone s = some ((), Console.specc s) := by
  unfold specc Console.specc
  rw [Prog.alone_then (Prog.alone_store ..), Prog.alone_then (Prog.alone_load ..)]
  dsimp only
  generalize s.usession.toNat = code
  split
  · rfl
  · exact alone_cursorDown _
  · rfl
  · exact alone_cursorLeft _
  · exact alone_cursorLeft _
  · exact alone_tab _
  · exact alone_cursorRight _
  · exact alone_cursorUp _
  · exact alone_clearScreen _
  · rfl
  · exact alone_eraseToEol _
  · exact alone_eraseToEos _
  · exact alone_insertLine _
  · exact alone_deleteLine _
  · rfl
  · rw [Prog.alone_then (Prog.alone_store ..), alone_memset]
    rfl
  · rfl
  · exact alone_clearForeground _
  · simp [Prog.alone_pure, *]

theorem alone_conoutCrt (config : Config) (c : Byte) (s : Crt) :
    (conoutCrt config c).alone s = some ((), Console.conoutCrt config c s) := by
  simp only [conoutCrt, Console.conoutCrt, Prog.alone_bind, Prog.alone_load, Prog.alone_store,
    Option.bind_some]
  split
  · exact alone_xyadd config _
  · simp only [Prog.alone_bind, Prog.alone_load, Option.bind_some]
    split
    · exact alone_specc _
    · exact alone_displ config _

/-- **The accesses make up the driver.**  Without interrupts `CONOUT` ends, in the state that
the function of the driver gives. -/
theorem alone_biosConoutC (config : Config) (con : Con) (c : Byte) (s : Crt) :
    (biosConoutC config con c).alone s = some ((), Console.biosConoutC config s con c) := by
  cases con with
  | tty => exact alone_conoutCrt config c _
  | crt => exact alone_conoutCrt config c s
  | bat => rfl
  | uc1 => exact alone_conoutCrt config c _

end Accesses
end Console
end Rc700
