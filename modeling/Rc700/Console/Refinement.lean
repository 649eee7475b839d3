import Rc700.Console.Cells
import Rc700.Library.Run

/-!
# The console driver refines the terminal

`Refines` relates the driver's variables to the terminal: the screen memory and
the bitmap are one plane of cells, cut into rows.  Each operation of the driver
keeps the relation, and so does every sequence of calls of `CONOUT`.
-/

namespace Rc700
namespace Console

open Library

/-! ### Refinement -/

/-- Characters and flags of the screen as one plane of cells. -/
def plane (v : Video) : Nat → Cell := zipWith Cell.mk v.screen (flags v.bgstar)

/-- The state of cursor addressing. -/
def coordOf (xflg adr0 : Nat) : Coord :=
  if xflg = 0 then .idle else if xflg = 1 then .second adr0 else .first

/-- The driver's variables represent the terminal. -/
structure Refines (s : Crt) (t : Terminal) : Prop where
  cells : Grid.ofPlane (plane s.toVideo) = t.cells
  curx : s.curx = t.x.val
  cursy : s.cursy = t.y.val
  cury : s.cury = 80 * t.y.val
  mode : s.bgflg = t.mode
  graph : (s.graph != 0#8) = t.graph
  coord : coordOf s.xflg s.adr0 = t.coord
  xflg : s.xflg ≤ 2
  adr0 : s.adr0 < 256
  off : NoFlags s.bgflg s.toVideo
  inBounds : s.toVideo.InBounds

variable {s s' : Crt} {t : Terminal} {config : Config} {v : Video}

/-- An operation on cells. -/
theorem Refines.withCells (hs : Refines s t) {cells' : Grid Cell}
    (hcells : Grid.ofPlane (plane v) = cells')
    (hoff : NoFlags s.bgflg v) (hbounds : v.InBounds) :
    Refines (s.withVideo v) { t with cells := cells' } where
  cells := hcells
  curx := hs.curx
  cursy := hs.cursy
  cury := hs.cury
  mode := hs.mode
  graph := hs.graph
  coord := hs.coord
  xflg := hs.xflg
  adr0 := hs.adr0
  off := hoff
  inBounds := hbounds

/-! ### Cursor -/

/-- The cursor is moved. -/
theorem Refines.moved (hs : Refines s t) (x : Fin 80) (y : Fin 25) {curx cury cursy : Nat}
    {dirty : Bool} (hx : curx = x.val) (hcury : cury = 80 * y.val) (hcursy : cursy = y.val) :
    Refines { s with curx := curx, cury := cury, cursy := cursy, curDirty := dirty }
      { t with x := x, y := y } :=
  { hs with curx := hx, cury := hcury, cursy := hcursy }

theorem Refines.rowdn (hs : Refines s t) (hy : t.y.val + 1 < 25) :
    Refines (rowdn s) { t with y := ⟨t.y.val + 1, hy⟩ } := by
  have hcursy := hs.cursy
  have hcury := hs.cury
  apply hs.moved t.x ⟨t.y.val + 1, hy⟩ hs.curx
  · show (s.cury + 80) % 65536 = 80 * (t.y.val + 1)
    omega
  · show (s.cursy + 1) % 256 = t.y.val + 1
    omega

theorem Refines.rowup (hs : Refines s t) {y : Fin 25} (hy : t.y.val = y.val + 1) :
    Refines (rowup s) { t with y := y } := by
  have hcursy := hs.cursy
  have hcury := hs.cury
  have hrow := t.y.isLt
  apply hs.moved t.x y hs.curx
  · show (s.cury + 65536 - 80) % 65536 = 80 * y.val
    omega
  · show (s.cursy + 255) % 256 = y.val
    omega

theorem Refines.lastRow (hs : Refines s t) : Refines (lastRow s) { t with y := 24 } :=
  hs.moved t.x 24 hs.curx rfl rfl

theorem Refines.cursorUp (hs : Refines s t) : Refines (cursorUp s) t.up := by
  have hcury := hs.cury
  unfold Console.cursorUp Terminal.up
  by_cases htop : t.y.val = 0
  · rw [if_neg (by omega), if_pos htop]
    exact hs.lastRow
  · rw [if_pos (by omega), if_neg htop]
    exact hs.rowup (Nat.sub_add_cancel (Nat.pos_of_ne_zero htop)).symm

theorem Refines.cursorLeft (hs : Refines s t) : Refines (cursorLeft s) t.left := by
  have hcurx := hs.curx
  have hcol := t.x.isLt
  unfold Console.cursorLeft Terminal.left
  by_cases hfirst : t.x.val = 0
  · rw [if_neg (by omega), if_pos hfirst]
    exact (hs.moved 79 t.y rfl hs.cury hs.cursy).cursorUp
  · rw [if_pos (by omega), if_neg hfirst]
    apply hs.moved ⟨t.x.val - 1, by omega⟩ t.y _ hs.cury hs.cursy
    show (s.curx + 255) % 256 = t.x.val - 1
    omega

theorem Refines.carriageReturn (hs : Refines s t) :
    Refines (carriageReturn s) { t with x := 0 } :=
  hs.moved 0 t.y rfl hs.cury hs.cursy

theorem Refines.home (hs : Refines s t) : Refines (home s) { t with x := 0, y := 0 } :=
  hs.moved 0 0 rfl rfl rfl

/-! ### Operations on cells -/

theorem Refines.scroll (hs : Refines s t) :
    Refines (scroll s) { t with cells := t.cells.scroll blank } := by
  apply hs.withCells _ _ (scroll_inBounds hs.inBounds)
  · rw [plane, scroll_screen, scroll_flags hs.off, zipWith_fillRange, zipWith_copyRange,
      ← hs.cells]
    exact Grid.ofPlane_scroll _ _
  · intro hoff
    rw [scroll_flags hs.off, hs.off hoff, copyRange_const, fillRange_const]

theorem Refines.cursorDown (hs : Refines s t) : Refines (cursorDown s) t.down := by
  have hcury := hs.cury
  have hrow := t.y.isLt
  unfold Console.cursorDown Terminal.down
  by_cases hlast : t.y.val + 1 < 25
  · rw [if_pos (by omega), dif_pos hlast]
    exact hs.rowdn hlast
  · rw [if_neg (by omega), dif_neg hlast]
    exact hs.scroll

theorem Refines.cursorRight (hs : Refines s t) : Refines (cursorRight s) t.right := by
  have hcurx := hs.curx
  have hcury := hs.cury
  unfold Console.cursorRight Terminal.right
  by_cases hlast : t.x.val + 1 < 80
  · rw [if_pos (by omega), dif_pos hlast]
    apply hs.moved ⟨t.x.val + 1, hlast⟩ t.y _ hs.cury hs.cursy
    show (s.curx + 1) % 256 = t.x.val + 1
    omega
  · rw [if_neg (by omega), dif_neg hlast]
    have hfirst : Refines { s with curx := 0 } { t with x := 0 } :=
      hs.moved 0 t.y rfl hs.cury hs.cursy
    have hrow := t.y.isLt
    unfold Terminal.down
    by_cases hbottom : t.y.val + 1 < 25
    · rw [if_pos (by dsimp only; omega), dif_pos hbottom]
      exact hfirst.rowdn hbottom
    · rw [if_neg (by dsimp only; omega), dif_neg hbottom]
      have hshown : Refines (cursorxy { s with curx := 0 }) { t with x := 0 } :=
        hs.moved 0 t.y rfl hs.cury hs.cursy
      exact hshown.scroll

theorem Refines.tab (hs : Refines s t) : Refines (tab s) t.right.right.right.right :=
  hs.cursorRight.cursorRight.cursorRight.cursorRight

/-- Erasing a range that ends where a row ends. -/
theorem Refines.eraseRange (hs : Refines s t) {pos count : Nat} (hpos : pos + count ≤ 2000)
    (hend : (pos + count) % 8 = 0) (hcount : 0 < count) :
    Refines (s.withVideo (s.toVideo.eraseRange s.bgflg pos count))
      { t with cells := Grid.ofPlane (fillRange pos count blank (plane s.toVideo)) } := by
  have hflags := eraseRange_flags hs.off hpos hend hcount
  apply hs.withCells _ _ (eraseRange_inBounds hpos hend hcount hs.inBounds)
  · rw [plane, eraseRange_screen, hflags, zipWith_fillRange]
    rfl
  · intro hoff
    rw [hflags, hs.off hoff, fillRange_const]

theorem Refines.eraseToEol (hs : Refines s t) :
    Refines (eraseToEol s) { t with cells := t.cells.eraseToEol blank t.x t.y } := by
  unfold Console.eraseToEol
  rw [hs.cury, hs.curx, eraseToEol_eq, ← hs.cells, ← Grid.ofPlane_eraseToEol]
  exact hs.eraseRange (by omega) (by omega) (by omega)

theorem Refines.eraseToEos (hs : Refines s t) :
    Refines (eraseToEos s) { t with cells := t.cells.eraseToEos blank t.x t.y } := by
  unfold Console.eraseToEos
  rw [hs.cury, hs.curx, eraseToEos_eq, ← hs.cells, ← Grid.ofPlane_eraseToEos]
  exact hs.eraseRange (by omega) (by omega) (by omega)

theorem Refines.deleteLine (hs : Refines s t) :
    Refines (deleteLine s) { t with cells := t.cells.deleteLine blank t.y } := by
  unfold Console.deleteLine
  rw [hs.cury]
  apply hs.withCells _ _ (deleteLine_inBounds hs.inBounds t.y)
  · rw [plane, deleteLine_screen, deleteLine_flags hs.off, zipWith_fillRange, zipWith_copyRange,
      ← hs.cells]
    exact Grid.ofPlane_deleteLine _ _ _
  · intro hoff
    rw [deleteLine_flags hs.off, hs.off hoff, copyRange_const, fillRange_const]

theorem Refines.insertLine (hs : Refines s t) :
    Refines (insertLine s) { t with cells := t.cells.insertLine blank t.y } := by
  unfold Console.insertLine
  rw [hs.cury]
  apply hs.withCells _ _ (insertLine_inBounds hs.inBounds t.y)
  · rw [plane, insertLine_screen, insertLine_flags hs.off, zipWith_fillRange, zipWith_copyRange,
      ← hs.cells]
    exact Grid.ofPlane_insertLine _ _ _
  · intro hoff
    rw [insertLine_flags hs.off, hs.off hoff, copyRange_const, fillRange_const]

theorem Refines.clearScreen (hs : Refines s t) :
    Refines (clearScreen s)
      { t with cells := fun _ _ => blank, x := 0, y := 0, mode := .off } where
  cells := by
    have hplane : plane (s.toVideo.clearScreen s.bgflg) =
        zipWith Cell.mk (fillRange 0 2000 0x20#8 s.screen)
          (fillRange 0 2000 false (fun _ => false)) := by
      rw [plane, clearScreen_screen, clearScreen_flags hs.off, fillRange_const]
    rw [zipWith_fillRange] at hplane
    exact (congrArg Grid.ofPlane hplane).trans (Grid.ofPlane_clear _ _)
  curx := rfl
  cursy := rfl
  cury := rfl
  mode := rfl
  graph := hs.graph
  coord := hs.coord
  xflg := hs.xflg
  adr0 := hs.adr0
  off := fun _ => clearScreen_flags hs.off
  inBounds := clearScreen_inBounds hs.inBounds

theorem Refines.setBackground (hs : Refines s t) :
    Refines { s.withVideo (s.toVideo.memset .bgstar 0 0#8 250) with bgflg := .background }
      { t with cells := fun r c => ⟨(t.cells r c).char, false⟩, mode := .background } where
  cells := by
    rw [← hs.cells]
    funext r c
    show Cell.mk _ (flags (s.toVideo.memset .bgstar 0 0#8 250).bgstar _) = _
    rw [Video.memset_bgstar_bgstar, flags_clearAll]
    rfl
  curx := hs.curx
  cursy := hs.cursy
  cury := hs.cury
  mode := rfl
  graph := hs.graph
  coord := hs.coord
  xflg := hs.xflg
  adr0 := hs.adr0
  off := nofun
  inBounds := hs.inBounds.memset (by decide)

theorem Refines.clearForeground (hs : Refines s t) :
    Refines (clearForeground s)
      { t with cells := fun r c => if (t.cells r c).flag then t.cells r c else blank } := by
  apply hs.withCells _ _ (clearForegroundFrom_inBounds (by omega) hs.inBounds)
  · rw [← hs.cells]
    funext r c
    have hr := r.isLt
    have hc := c.isLt
    have hp : 80 * r.val + c.val < 2000 := by omega
    show Cell.mk ((s.toVideo.clearForegroundFrom 250 0 (8 * 0)).screen (80 * r.val + c.val))
        (flags (s.toVideo.clearForegroundFrom 250 0 0).bgstar (80 * r.val + c.val)) =
      if flags s.bgstar (80 * r.val + c.val) then
        ⟨s.screen (80 * r.val + c.val), flags s.bgstar (80 * r.val + c.val)⟩ else blank
    rw [clearForegroundFrom_screen, clearForegroundFrom_bgstar]
    have hflag : flags s.bgstar (80 * r.val + c.val) = flagAt s.bgstar (80 * r.val + c.val) :=
      if_pos hp
    rw [hflag]
    by_cases hset : flagAt s.bgstar (80 * r.val + c.val) = true
    · simp [hset]
    · have hclear : flagAt s.bgstar (80 * r.val + c.val) = false := by simpa using hset
      dsimp only
      rw [if_neg hset, if_pos ⟨by omega, by omega, hclear⟩, hclear]
      rfl
  · intro hoff
    rw [clearForegroundFrom_bgstar]
    exact hs.off hoff

/-! ### Characters -/

/-- A plane of cells in which one character and its flag are stored. -/
theorem plane_put {v : Video} {p : Nat} (hp : p < 2000) (ch : Byte) (mode : BgFlg) :
    plane (if mode = .background then (v.poke .screen p ch).bgSetBit p
      else v.poke .screen p ch) =
      Function.update (plane v) p ⟨ch, (plane v p).flag || mode == .background⟩ := by
  funext a
  split
  · next hbg =>
    subst hbg
    show Cell.mk _ (flags ((v.poke .screen p ch).bgSetBit p).bgstar a) = _
    rw [bgSetBit_flags hp]
    by_cases ha : a = p
    · subst ha
      simp [Video.bgSetBit]
    · simp [ha, Video.bgSetBit, plane, zipWith]
  · next hbg =>
    have hmode : (mode == .background) = false := by simpa using hbg
    by_cases ha : a = p
    · subst ha
      simp [hmode, plane, zipWith]
    · simp [ha, plane, zipWith]

/-- A driver with graphics flag `g` and the terminal convert a byte in the same
way. -/
theorem convert_eq {g : Byte} {graph : Bool} (hgraph : (g != 0#8) = graph) (b : Byte) :
    let ch := if 192 ≤ b.toNat then b - 192#8 else b
    Terminal.convert config graph b =
      if 128 ≤ ch.toNat then (ch, ch &&& 4#8 != 0#8)
      else if g = 0#8 then (config.outcon ch, graph)
      else (ch, graph) := by
  simp only [Terminal.convert, ← hgraph]
  by_cases hzero : g = 0#8
  · simp [hzero]
  · simp [hzero]

/-- A character is stored and, in background mode, its cell is flagged. -/
theorem Refines.put (hs : Refines s t) {p : Nat} (hp : p = 80 * t.y.val + t.x.val) (ch : Byte) :
    Refines (s.withVideo (if s.bgflg = .background then (s.toVideo.poke .screen p ch).bgSetBit p
        else s.toVideo.poke .screen p ch))
      { t with
        cells := t.cells.put t.x t.y
          (fun cell => ⟨ch, cell.flag || t.mode == .background⟩) } := by
  have hx := t.x.isLt
  have hp' : p < 2000 := by omega
  have hstored : (s.toVideo.poke .screen p ch).InBounds := hs.inBounds.poke hp'
  apply hs.withCells
  · rw [plane_put hp', hs.mode, ← hs.cells, ← Grid.ofPlane_put, hp]
  · intro hoff
    rw [if_neg (by rw [hoff]; decide)]
    exact hs.off hoff
  · exact guarded_inv (bgSetBit_inBounds hp' hstored) hstored

theorem Refines.displ (hs : Refines s t) :
    Refines (displ config s) (t.display config s.usession) := by
  have hx := t.x.isLt
  have hlocad : (s.cury + s.curx) % 65536 = 80 * t.y.val + t.x.val := by
    rw [hs.cury, hs.curx]
    omega
  unfold Console.displ Terminal.display
  rw [convert_eq hs.graph]
  simp only [hlocad]
  apply Refines.cursorRight
  generalize (if 192 ≤ s.usession.toNat then s.usession - 192#8 else s.usession) = ch
  by_cases hsemi : 128 ≤ ch.toNat
  · simp only [if_pos hsemi]
    have hs' : Refines { s with locad := 80 * t.y.val + t.x.val, graph := ch &&& 4#8 }
        { t with graph := ch &&& 4#8 != 0#8 } := { hs with graph := rfl }
    exact hs'.put rfl ch
  · have hs' : Refines { s with locad := 80 * t.y.val + t.x.val } t := { hs with }
    by_cases hgraph : s.graph = 0#8
    · simp only [if_neg hsemi, if_pos hgraph]
      exact hs'.put rfl (config.outcon ch)
    · simp only [if_neg hsemi, if_neg hgraph]
      exact hs'.put rfl ch

/-! ### Cursor addressing -/

theorem reduceBelow_eq {bound fuel val : Nat}
    (hfuel : val < bound * (fuel + 1)) : reduceBelow bound fuel val = val % bound := by
  induction fuel generalizing val with
  | zero =>
      rw [reduceBelow, Nat.mod_eq_of_lt (by omega)]
  | succ fuel ih =>
      rw [reduceBelow]
      split
      · next hge =>
        have hlt : val - bound < bound * (fuel + 1) := by
          rw [Nat.mul_succ] at hfuel
          omega
        rw [ih hlt, ← Nat.mod_eq_sub_mod hge]
      · next hlt =>
        rw [Nat.mod_eq_of_lt (by omega)]

/-- The first coordinate byte. -/
theorem Refines.xyadd_first (hs : Refines s t) (hfirst : s.xflg = 2) :
    Refines (xyadd config s) { t with coord := .second (Terminal.coordinate s.usession) } := by
  have hxflg : (s.xflg + 255) % 256 = 1 := by omega
  simp only [Console.xyadd, hxflg]
  rw [if_pos Nat.one_ne_zero]
  exact { hs with
    coord := rfl
    xflg := Nat.le_succ 1
    adr0 := BitVec.isLt _ }

/-- The second coordinate byte. -/
theorem Refines.xyadd_second (hs : Refines s t) (hsecond : s.xflg = 1) :
    Refines (xyadd config s)
      (if config.adrmod = 0#8 then t.place s.adr0 (Terminal.coordinate s.usession)
        else t.place (Terminal.coordinate s.usession) s.adr0) := by
  have hval : Terminal.coordinate s.usession < 256 := BitVec.isLt _
  have hadr0 := hs.adr0
  have hplace : ∀ x y : Nat, x < 256 → y < 256 →
      Refines (cursorxy { s with
        xflg := 0
        curx := reduceBelow 80 256 x
        cursy := reduceBelow 25 256 y
        cury := reduceBelow 25 256 y * 80 }) (t.place x y) := by
    intro x y hx hy
    rw [reduceBelow_eq (by omega), reduceBelow_eq (by omega)]
    exact { hs with
      curx := rfl
      cursy := rfl
      cury := Nat.mul_comm _ _
      coord := rfl
      xflg := Nat.zero_le _ }
  have hxflg : (s.xflg + 255) % 256 = 0 := by omega
  simp only [Console.xyadd, hxflg]
  by_cases hmode : config.adrmod = 0#8
  · simp only [if_pos hmode]
    exact hplace s.adr0 (Terminal.coordinate s.usession) hadr0 hval
  · simp only [if_neg hmode]
    exact hplace (Terminal.coordinate s.usession) s.adr0 hval hadr0

/-! ### Control codes -/

theorem Refines.startXy (hs : Refines s t) :
    Refines (startXy s) { t with x := 0, y := 0, coord := .first } :=
  { hs with curx := rfl, cursy := rfl, cury := rfl, coord := rfl, xflg := le_refl 2 }

theorem Refines.setForeground (hs : Refines s t) :
    Refines { s with bgflg := .foreground } { t with mode := .foreground } :=
  { hs with mode := rfl, off := nofun }

theorem Refines.specc (hs : Refines s t) (hidle : s.xflg = 0) :
    Refines (specc s) (t.control s.usession.toNat) := by
  have hs' : Refines { s with xflg := 0 } t := by
    rw [← hidle]
    exact hs
  simp only [Console.specc]
  generalize s.usession.toNat = code
  split
  · exact hs'.carriageReturn
  · exact hs'.cursorDown
  · exact hs'.startXy
  · exact hs'.cursorLeft
  · exact hs'.cursorLeft
  · exact hs'.tab
  · exact hs'.cursorRight
  · exact hs'.cursorUp
  · exact hs'.clearScreen
  · exact hs'.home
  · exact hs'.eraseToEol
  · exact hs'.eraseToEos
  · exact hs'.insertLine
  · exact hs'.deleteLine
  · exact { hs' with }
  · exact hs'.setBackground
  · exact hs'.setForeground
  · exact hs'.clearForeground
  · -- no other code has a meaning to the terminal either
    have hother : t.control code = t := by
      unfold Terminal.control
      split <;> first | rfl | contradiction
    rw [hother]
    exact hs'

/-- **One byte.** -/
theorem Refines.conoutCrt (hs : Refines s t) (c : Byte) :
    Refines (conoutCrt config c s) (t.step config c) := by
  have hs' : Refines { s with usession := c } t := { hs with }
  have hcoord := hs.coord
  have hxflg := hs.xflg
  unfold coordOf at hcoord
  simp only [Console.conoutCrt, Terminal.step]
  by_cases hidle : s.xflg = 0
  · rw [if_pos hidle] at hcoord
    rw [if_neg (not_not.mpr hidle), ← hcoord]
    dsimp only
    split
    · exact hs'.specc hidle
    · exact hs'.displ
  · rw [if_neg hidle] at hcoord
    rw [if_pos hidle]
    by_cases hsecond : s.xflg = 1
    · rw [if_pos hsecond] at hcoord
      rw [← hcoord]
      exact hs'.xyadd_second hsecond
    · rw [if_neg hsecond] at hcoord
      rw [← hcoord]
      exact hs'.xyadd_first (show s.xflg = 2 by omega)

/-! ### Sequences of calls -/

theorem Refines.conoutStream (hs : Refines s t) (stream : List Byte) :
    Refines (stream.foldl (fun s c => Console.conoutCrt config c s) s)
      (stream.foldl (Terminal.step config) t) := by
  induction stream generalizing s t with
  | nil => exact hs
  | cons c stream ih => exact ih (hs.conoutCrt c)

/-- The bytes that reach the terminal: `BAT` output goes to the list device. -/
def received (calls : List (Con × Byte)) : List Byte :=
  (calls.filter (fun call => call.1 != .bat)).map Prod.snd

theorem start_refines (screen : Nat → Byte) : Refines (Crt.start screen) (Terminal.start screen)
    where
  cells := by
    have hflags : flags (fun _ => 0#8) = fun _ => false := by
      funext p
      simp [flags, flagAt]
    show Grid.ofPlane (zipWith Cell.mk screen (flags (fun _ => 0#8))) = _
    rw [hflags]
    rfl
  curx := rfl
  cursy := rfl
  cury := rfl
  mode := rfl
  graph := rfl
  coord := rfl
  xflg := Nat.zero_le 2
  adr0 := Nat.zero_lt_succ 255
  off := by
    intro _
    funext p
    show flags (fun _ => 0#8) p = false
    simp [flags, flagAt]
  inBounds := nofun

theorem Refines.conoutAll (hs : Refines s t) (calls : List (Con × Byte)) :
    Refines (conoutAll config s calls) ((received calls).foldl (Terminal.step config) t) := by
  induction calls generalizing s t with
  | nil => exact hs
  | cons call calls ih =>
      obtain ⟨con, c⟩ := call
      -- the serial line and the list device are not part of the terminal
      have hserial : Refines { s with serial := c :: s.serial } t := { hs with }
      cases con with
      | tty => exact ih (hserial.conoutCrt c)
      | crt => exact ih (hs.conoutCrt c)
      | bat =>
          have hlisted : Refines { s with listed := c :: s.listed } t := { hs with }
          exact ih hlisted
      | uc1 => exact ih (hserial.conoutCrt c)

/-- **The console driver refines a terminal of 25 rows and 80 columns**, from
initialisation on, for every sequence of calls. -/
theorem console_refines_terminal (config : Config) (screen : Nat → Byte)
    (calls : List (Con × Byte)) :
    let s := conoutAll config (Crt.start screen) calls
    let t := (received calls).foldl (Terminal.step config) (Terminal.start screen)
    Refines s t ∧
      (∀ r c, (t.cells r c).char = s.screen (80 * r.val + c.val) ∧
        (t.cells r c).flag = flagAt s.bgstar (80 * r.val + c.val)) ∧
      s.curx < 80 ∧ s.cursy < 25 ∧ s.cury = 80 * s.cursy ∧ s.xflg ≤ 2 ∧
      (s.bgflg = .off → ∀ i, i < 250 → s.bgstar i = 0#8) ∧
      ∀ st ∈ s.stores, st.offset + st.length ≤ st.area.size := by
  intro s t
  have hs : Refines s t := (start_refines screen).conoutAll calls
  refine ⟨hs, ?_, ?_, ?_, ?_, hs.xflg, ?_, hs.inBounds⟩
  · intro r c
    have hr := r.isLt
    have hc := c.isLt
    rw [← hs.cells]
    exact ⟨rfl, if_pos (by omega)⟩
  · rw [hs.curx]
    exact t.x.isLt
  · rw [hs.cursy]
    exact t.y.isLt
  · rw [hs.cury, hs.cursy]
  · intro hoff i hi
    exact bgstar_eq_zero (hs.off hoff) hi

end Console
end Rc700
