import Rc700.Console.Cpnos

/-!
# CP/NOS and the BIOS show the same

The console of CP/NOS refines a terminal whose step (`Terminal.cpnosStep`) differs
from the terminal of the BIOS where the port differs: line feeds, coordinates out
of range, background codes and characters above `0x7F`.  On streams without those
(`Plain`) both terminals take the same steps, so both drivers show the same.
-/

namespace Rc700
namespace Console

open Library

namespace Cpnos

/-- The variables of CP/NOS represent the characters and the cursor of a
terminal. -/
structure Shows (s : Cpnos) (t : Terminal) : Prop where
  chars : Grid.ofPlane s.screen = t.chars
  curx : s.curx = t.x.val
  cury : s.cury = t.y.val
  coord : coordOf s.xflg s.xyFirst = t.coord
  xflg : s.xflg ≤ 2
  onScreen : s.toVideo.OnScreen

variable {s : Cpnos} {t : Terminal} {v : Video}

/-- An operation on cells. -/
theorem Shows.withCells (hs : Shows s t) {cells' : Grid Cell}
    (hchars : Grid.ofPlane v.screen = cells'.map Cell.char) (hbounds : v.OnScreen) :
    Shows (s.withVideo v) { t with cells := cells' } :=
  { hs with chars := hchars, onScreen := hbounds }

/-- The cursor is moved. -/
theorem Shows.moved (hs : Shows s t) (x : Fin 80) (y : Fin 25) {curx cury : Nat}
    (hx : curx = x.val) (hy : cury = y.val) :
    Shows { s with curx := curx, cury := cury } { t with x := x, y := y } :=
  { hs with curx := hx, cury := hy }

/-- The flag of the cursor task is not shown. -/
theorem Shows.dirty (hs : Shows s t) (dirty : Bool) : Shows { s with curDirty := dirty } t :=
  { hs with }

/-! ### Operations -/

theorem Shows.scrollUp (hs : Shows s t) :
    Shows (scrollUp s) { t with cells := t.cells.scroll blank } := by
  apply hs.withCells
  · rw [Video.memset_screen_screen, Video.ldir_screen_screen (by omega), Grid.map_scroll]
    exact (Grid.ofPlane_scroll _ _).trans (congrArg _ hs.chars)
  · exact (hs.onScreen.ldir (by decide)).memset (by decide)

theorem Shows.cursorDown (hs : Shows s t) : Shows (cursorDown s) t.down := by
  have hcury := hs.cury
  unfold Cpnos.cursorDown Terminal.down
  by_cases hlast : t.y.val + 1 < 25
  · rw [if_pos (by omega), dif_pos hlast]
    apply hs.moved t.x ⟨t.y.val + 1, hlast⟩ hs.curx
    show (s.cury + 1) % 256 = t.y.val + 1
    omega
  · rw [if_neg (by omega), dif_neg hlast]
    exact hs.scrollUp

theorem Shows.cursorRight (hs : Shows s t) : Shows (cursorRight s) t.right := by
  have hcurx := hs.curx
  have hcol := t.x.isLt
  have hnext : (s.curx + 1) % 256 = t.x.val + 1 := by omega
  simp only [Cpnos.cursorRight, Terminal.right, hnext]
  by_cases hlast : t.x.val + 1 < 80
  · rw [if_pos hlast, dif_pos hlast]
    exact hs.moved ⟨t.x.val + 1, hlast⟩ t.y rfl hs.cury
  · rw [if_neg hlast, dif_neg hlast]
    have hfirst : Shows { s with curx := 0 } { t with x := 0 } := hs.moved 0 t.y rfl hs.cury
    exact hfirst.cursorDown

theorem Shows.cursorUp (hs : Shows s t) : Shows (cursorUp s) t.up := by
  have hcury := hs.cury
  unfold Cpnos.cursorUp Terminal.up
  by_cases htop : t.y.val = 0
  · rw [if_neg (by omega), if_pos htop]
    exact hs.moved t.x 24 hs.curx rfl
  · rw [if_pos (by omega), if_neg htop]
    apply hs.moved t.x ⟨t.y.val - 1, by omega⟩ hs.curx
    rw [hcury]

theorem Shows.cursorLeft (hs : Shows s t) : Shows (cursorLeft s) t.left := by
  have hcurx := hs.curx
  unfold Cpnos.cursorLeft Terminal.left
  by_cases hfirst : t.x.val = 0
  · rw [if_neg (by omega), if_pos hfirst]
    have hlast : Shows { s with curx := 79 } { t with x := 79 } := hs.moved 79 t.y rfl hs.cury
    exact hlast.cursorUp
  · rw [if_pos (by omega), if_neg hfirst]
    apply hs.moved ⟨t.x.val - 1, by omega⟩ t.y _ hs.cury
    rw [hcurx]

theorem Shows.home (hs : Shows s t) : Shows (home s) { t with x := 0, y := 0 } :=
  hs.moved 0 0 rfl rfl

theorem Shows.tab (hs : Shows s t) : Shows (tab s) t.right.right.right.right :=
  hs.cursorRight.cursorRight.cursorRight.cursorRight

theorem Shows.clearScreen (hs : Shows s t) :
    Shows (clearScreen s) { t with cells := fun _ _ => blank, x := 0, y := 0 } := by
  have hcleared : Shows (s.withVideo (s.toVideo.memset .screen 0 0x20#8 2000))
      { t with cells := fun _ _ => blank } := by
    apply hs.withCells
    · rw [Video.memset_screen_screen]
      exact Grid.ofPlane_clear _ _
    · exact hs.onScreen.memset (by decide)
  exact hcleared.home

theorem Shows.eraseToEol (hs : Shows s t) :
    Shows (eraseToEol s) { t with cells := t.cells.eraseToEol blank t.x t.y } := by
  have hx := t.x.isLt
  have hcount : (80 + 65536 - t.x.val) % 65536 = 80 - t.x.val := by omega
  have hcell : cell t.x.val t.y.val = 80 * t.y.val + t.x.val := by
    unfold cell
    omega
  unfold Cpnos.eraseToEol
  rw [hs.curx, hs.cury, hcount, hcell]
  apply hs.withCells
  · rw [Video.memset_screen_screen, Grid.map_eraseToEol]
    exact (Grid.ofPlane_eraseToEol _ _ _ _).trans (congrArg _ hs.chars)
  · exact hs.onScreen.memset (show 80 * t.y.val + t.x.val + (80 - t.x.val) ≤ 2000 by omega)

theorem Shows.eraseToEos (hs : Shows s t) :
    Shows (eraseToEos s) { t with cells := t.cells.eraseToEos blank t.x t.y } := by
  have hx := t.x.isLt
  have hcount : (2000 + 65536 - (t.y.val * 80 + t.x.val) % 65536) % 65536 =
      2000 - (80 * t.y.val + t.x.val) := by omega
  have hcell : cell t.x.val t.y.val = 80 * t.y.val + t.x.val := by
    unfold cell
    omega
  simp only [Cpnos.eraseToEos]
  rw [hs.curx, hs.cury, hcount, hcell]
  apply hs.withCells
  · rw [Video.memset_screen_screen, Grid.map_eraseToEos]
    exact (Grid.ofPlane_eraseToEos _ _ _ _).trans (congrArg _ hs.chars)
  · exact hs.onScreen.memset
      (show 80 * t.y.val + t.x.val + (2000 - (80 * t.y.val + t.x.val)) ≤ 2000 by omega)

theorem Shows.deleteLine (hs : Shows s t) :
    Shows (deleteLine s) { t with cells := t.cells.deleteLine blank t.y } := by
  have hsrc : cell 0 (t.y.val + 1) = 80 * t.y.val + 80 := by
    unfold cell
    omega
  have hdst : cell 0 t.y.val = 80 * t.y.val := by
    unfold cell
    omega
  have hn : (24 - t.y.val) * 80 = 1920 - 80 * t.y.val := by omega
  simp only [Cpnos.deleteLine]
  rw [hs.cury, hsrc, hdst, hn]
  apply hs.withCells
  · rw [Video.memset_screen_screen, guarded_ldir_screen (by omega) (by omega),
      Grid.map_deleteLine]
    exact (Grid.ofPlane_deleteLine _ _ _).trans (congrArg _ hs.chars)
  · exact (guarded_inv (hs.onScreen.ldir
      (show 80 * t.y.val + (1920 - 80 * t.y.val) ≤ 2000 by omega)) hs.onScreen).memset (by decide)

theorem Shows.insertLine (hs : Shows s t) :
    Shows (insertLine s) { t with cells := t.cells.insertLine blank t.y } := by
  have hn : (24 - t.y.val) * 80 = 1920 - 80 * t.y.val := by omega
  have hsrc : 1919 + 1 - (1920 - 80 * t.y.val) = 80 * t.y.val := by omega
  have hdst : 1999 + 1 - (1920 - 80 * t.y.val) = 80 * t.y.val + 80 := by omega
  have hlast : cell 79 23 = 1919 ∧ cell 79 24 = 1999 := by decide
  have hrow : cell 0 t.y.val = 80 * t.y.val := by
    unfold cell
    omega
  simp only [Cpnos.insertLine]
  rw [hs.cury, hn, hrow, hlast.1, hlast.2]
  apply hs.withCells
  · rw [Video.memset_screen_screen, guarded_lddr_screen (by omega) (by omega) (by omega), hsrc,
      hdst, Grid.map_insertLine]
    exact (Grid.ofPlane_insertLine _ _ _).trans (congrArg _ hs.chars)
  · exact (guarded_inv (hs.onScreen.lddr (by omega) (by decide)) hs.onScreen).memset
      (show 80 * t.y.val + 80 ≤ 2000 by omega)

theorem Shows.put (hs : Shows s t) (c : Byte) {flag : Cell → Bool} :
    Shows (s.withVideo (s.toVideo.poke .screen (cell s.curx s.cury) c))
      { t with cells := t.cells.put t.x t.y (fun a => ⟨c, flag a⟩) } := by
  have hx := t.x.isLt
  have hcell : cell s.curx s.cury = 80 * t.y.val + t.x.val := by
    rw [cell, hs.curx, hs.cury]
    omega
  rw [hcell]
  apply hs.withCells
  · rw [Video.poke_screen_screen, Grid.map_put Cell.char t.x t.y _ c (fun _ => rfl)]
    exact (Grid.ofPlane_put t.x t.y (fun _ => c) s.screen).trans (congrArg _ hs.chars)
  · exact hs.onScreen.poke (show 80 * t.y.val + t.x.val < 2000 by omega)

/-! ### Cursor addressing -/

theorem Shows.startXy (hs : Shows s t) :
    Shows (startXy s) { t with x := 0, y := 0, coord := .first } :=
  { hs with curx := rfl, cury := rfl, coord := rfl, xflg := le_refl 2 }

theorem Shows.xyStep_first (hs : Shows s t) (hfirst : s.xflg = 2) (c : Byte) :
    Shows (xyStep c s) { t with coord := .second (Terminal.coordinate c) } := by
  have hxflg : (s.xflg + 255) % 256 = 1 := by omega
  simp only [Cpnos.xyStep, hxflg]
  rw [if_pos Nat.one_ne_zero]
  exact { hs with coord := rfl, xflg := Nat.le_succ 1 }

theorem Shows.xyStep_second (hs : Shows s t) (hsecond : s.xflg = 1) (c : Byte) :
    Shows (xyStep c s)
      (t.place (if 80 ≤ s.xyFirst then 0 else s.xyFirst)
        (if 25 ≤ Terminal.coordinate c then 0 else Terminal.coordinate c)) := by
  have hxflg : (s.xflg + 255) % 256 = 0 := by omega
  have hval : ((c &&& 0x7F#8) - 32#8).toNat = Terminal.coordinate c := rfl
  simp only [Cpnos.xyStep, hxflg, hval]
  rw [if_neg (not_not.mpr rfl)]
  have hy : (if 25 ≤ Terminal.coordinate c then 0 else Terminal.coordinate c) =
      (if 25 ≤ Terminal.coordinate c then 0 else Terminal.coordinate c) % 25 := by
    split <;> omega
  by_cases hout : 80 ≤ s.xyFirst
  · rw [if_pos hout, if_pos hout]
    exact { hs with curx := rfl, cury := hy, coord := rfl, xflg := Nat.zero_le 2 }
  · rw [if_neg hout, if_neg hout]
    exact { hs with
      curx := (Nat.mod_eq_of_lt (show s.xyFirst < 80 by omega)).symm
      cury := hy
      coord := rfl
      xflg := Nat.zero_le 2 }

/-! ### The entry point -/

theorem Shows.specc (hs : Shows s t) (c : Byte) :
    Shows (specc c s)
      (if 0x13 ≤ c.toNat ∧ c.toNat ≤ 0x15 then t else t.control c.toNat) := by
  unfold Cpnos.specc
  generalize c.toNat = code
  -- one case for each code of the `switch`, in its order
  split
  · exact hs.insertLine
  · exact hs.deleteLine
  · exact hs.cursorLeft
  · exact hs.startXy
  · exact { hs with }
  · exact hs.cursorLeft
  · exact hs.tab
  · exact hs.cursorDown
  · exact { hs.clearScreen with }
  · exact hs.moved 0 t.y rfl hs.cury
  · exact hs.cursorRight
  · exact hs.cursorUp
  · exact hs.home
  · exact hs.eraseToEol
  · exact hs.eraseToEos
  · -- the background codes are dropped, no other code means anything
    have hother : (if 0x13 ≤ code ∧ code ≤ 0x15 then t else t.control code) = t := by
      split
      · rfl
      · next hbackground =>
        unfold Terminal.control
        split <;> first | rfl | contradiction
    rw [hother]
    exact hs

/-- **One byte.** -/
theorem Shows.implConout (hs : Shows s t) (mirrorSiob : Bool) (c : Byte) :
    Shows (implConout mirrorSiob s c) (t.cpnosStep c) := by
  -- the copy that goes to SIO-B is no part of what the terminal shows
  have hserial : Shows (if mirrorSiob then { s with serial := c :: s.serial } else s) t := by
    split
    · exact { hs with }
    · exact hs
  generalize hs' : (if mirrorSiob then { s with serial := c :: s.serial } else s) = s' at hserial
  have hxflg := hserial.xflg
  have hcoord := hserial.coord
  obtain ⟨cells, x, y, mode, graph, coord⟩ := t
  simp only [Cpnos.implConout, hs', Terminal.cpnosStep]
  unfold coordOf at hcoord
  -- the three values of `xflg`: no address, its second byte, its first byte
  by_cases hidle : s'.xflg = 0
  · rw [if_pos hidle] at hcoord
    subst hcoord
    rw [if_neg (not_not.mpr hidle)]
    dsimp only
    split
    · exact { hserial.cursorDown with curx := rfl }
    · split
      · next hcr =>
        subst hcr
        exact { hserial with curx := rfl }
      · split
        · exact (hserial.specc c).dirty true
        · exact (hserial.put c).cursorRight.dirty true
  · rw [if_neg hidle] at hcoord
    rw [if_pos hidle]
    by_cases hsecond : s'.xflg = 1
    · rw [if_pos hsecond] at hcoord
      subst hcoord
      exact (hserial.xyStep_second hsecond c).dirty true
    · rw [if_neg hsecond] at hcoord
      subst hcoord
      have hfirst := hserial.xyStep_first (by omega) c
      exact hfirst.dirty true

theorem Shows.implConoutAll (hs : Shows s t) (mirrorSiob : Bool) (stream : List Byte) :
    Shows (stream.foldl (Cpnos.implConout mirrorSiob) s) (stream.foldl Terminal.cpnosStep t) := by
  induction stream generalizing s t with
  | nil => exact hs
  | cons c stream ih => exact ih (hs.implConout mirrorSiob c)

end Cpnos

/-! ### Streams on which both terminals agree -/

/-- Streams of characters `0x20`..`0x7F` and control codes other than line feed and
the background codes, with coordinates in range after `0x06`. -/
def Plain : Coord → List Byte → Prop
  | _, [] => True
  | .idle, c :: stream =>
      c.toNat ≤ 0x7F ∧ c.toNat ≠ 0x0A ∧ ¬ (0x13 ≤ c.toNat ∧ c.toNat ≤ 0x15) ∧
        Plain (if c.toNat = 0x06 then .first else .idle) stream
  | .first, c :: stream =>
      Terminal.coordinate c < 80 ∧ Plain (.second (Terminal.coordinate c)) stream
  | .second adr0, c :: stream => adr0 < 80 ∧ Terminal.coordinate c < 25 ∧ Plain .idle stream

/-- The configuration the two drivers are compared in. -/
def xyIdentity : Config := ⟨0#8, id⟩

variable {t : Terminal}

theorem convert_plain {c : Byte} (hc : c.toNat ≤ 0x7F) (graph : Bool) :
    Terminal.convert xyIdentity graph c = (c, graph) := by
  simp only [Terminal.convert, if_neg (show ¬ 192 ≤ c.toNat by omega),
    if_neg (show ¬ 128 ≤ c.toNat by omega)]
  cases graph <;> rfl

/-- On a plain stream the terminals take the same step, and the rest is plain. -/
theorem plain_step {c : Byte} {stream : List Byte} (hplain : Plain t.coord (c :: stream)) :
    t.cpnosStep c = t.step xyIdentity c ∧ Plain (t.step xyIdentity c).coord stream := by
  cases hcoord : t.coord with
  | first =>
      rw [hcoord] at hplain
      simp only [Terminal.cpnosStep, Terminal.step, hcoord]
      exact ⟨trivial, hplain.2⟩
  | second adr0 =>
      rw [hcoord] at hplain
      obtain ⟨hadr0, hrow, hrest⟩ := hplain
      simp only [Terminal.cpnosStep, Terminal.step, hcoord, xyIdentity,
        if_neg (show ¬ 80 ≤ adr0 by omega), if_neg (show ¬ 25 ≤ Terminal.coordinate c by omega)]
      exact ⟨rfl, hrest⟩
  | idle =>
      rw [hcoord] at hplain
      obtain ⟨hascii, hlf, hbackground, hrest⟩ := hplain
      have hlf' : c ≠ 0x0A#8 := by
        rintro rfl
        exact hlf rfl
      simp only [Terminal.cpnosStep, Terminal.step, hcoord, if_neg hlf', if_neg hbackground]
      by_cases hcode : c.toNat < 32
      · rw [if_pos hcode, if_pos hcode, Terminal.control_coord _ hcoord]
        exact ⟨rfl, hrest⟩
      · rw [if_neg hcode, if_neg hcode, Terminal.display_coord, hcoord, Terminal.display,
          convert_plain hascii]
        rw [if_neg (by omega)] at hrest
        refine ⟨?_, hrest⟩
        simp only [hcoord]

theorem plain_run {stream : List Byte} (hplain : Plain t.coord stream) :
    stream.foldl Terminal.cpnosStep t = stream.foldl (Terminal.step xyIdentity) t := by
  induction stream generalizing t with
  | nil => rfl
  | cons c stream ih =>
      obtain ⟨hsame, hrest⟩ := plain_step hplain
      rw [List.foldl_cons, List.foldl_cons, hsame, ih hrest]

/-! ### Agreement -/

/-- **The console of CP/NOS agrees with the console of the BIOS.**  From any state
of the BIOS console without pending coordinates, and the console of CP/NOS with the
same screen and cursor: every plain stream leaves the same screen and cursor; and
every stream keeps the variables of CP/NOS in range and all stores inside the
display. -/
theorem cpnos_console_agrees {s : Crt} (hs : Refines s t) (hidle : s.xflg = 0)
    (mirrorSiob : Bool) (stream : List Byte) :
    let final := stream.foldl (fun s c => conoutCrt xyIdentity c s) s
    let cpnos := stream.foldl (Cpnos.implConout mirrorSiob) (Cpnos.start s.screen t.x t.y)
    (Plain .idle stream →
      (∀ p, p < 2000 → cpnos.screen p = final.screen p) ∧
        cpnos.curx = final.curx ∧ cpnos.cury = final.cursy) ∧
      cpnos.curx < 80 ∧ cpnos.cury < 25 ∧ cpnos.xflg ≤ 2 ∧
      ∀ st ∈ cpnos.stores, st.area = .screen ∧ st.offset + st.length ≤ 2000 := by
  intro final cpnos
  have hcoord : t.coord = .idle := by
    rw [← hs.coord, coordOf, if_pos hidle]
  have hstart : Cpnos.Shows (Cpnos.start s.screen t.x t.y) t :=
    { chars := by rw [Terminal.chars, ← hs.cells]; rfl
      curx := rfl
      cury := rfl
      coord := hcoord.symm
      xflg := Nat.zero_le 2
      onScreen := nofun }
  have hcpnos : Cpnos.Shows cpnos (stream.foldl Terminal.cpnosStep t) :=
    hstart.implConoutAll mirrorSiob stream
  refine ⟨?_, ?_, ?_, hcpnos.xflg, hcpnos.onScreen⟩
  -- the plain codes are those on which both terminals take the same step
  · intro hplain
    have hfinal : Refines final (stream.foldl (Terminal.step xyIdentity) t) :=
      hs.conoutStream stream
    rw [plain_run (by rwa [hcoord])] at hcpnos
    refine ⟨?_, ?_, ?_⟩
    · intro p hp
      have hchars : Grid.ofPlane cpnos.screen = Grid.ofPlane final.screen := by
        rw [hcpnos.chars, Terminal.chars, ← hfinal.cells]
        rfl
      exact Grid.ofPlane_inj hchars hp
    · rw [hcpnos.curx, hfinal.curx]
    · rw [hcpnos.cury, hfinal.cursy]
  · rw [hcpnos.curx]
    exact Fin.isLt _
  · rw [hcpnos.cury]
    exact Fin.isLt _

/-- A character, cursor addressing to column 2 of row 3, and a line inserted. -/
theorem cpnos_console_agrees_inserting :
    let stream := [0x41#8, 0x06#8, 0x22#8, 0x23#8, 0x42#8, 0x01#8]
    let final := stream.foldl (fun s c => conoutCrt xyIdentity c s) (Crt.start fun _ => 0x2E#8)
    let cpnos := stream.foldl (Cpnos.implConout true) (Cpnos.start (fun _ => 0x2E#8) 0 0)
    Plain .idle stream ∧ (∀ p, p < 2000 → cpnos.screen p = final.screen p) ∧
      cpnos.curx = final.curx ∧ cpnos.cury = final.cursy := by
  have hplain : Plain .idle [0x41#8, 0x06#8, 0x22#8, 0x23#8, 0x42#8, 0x01#8] := by
    simp [Plain, Terminal.coordinate]
  exact ⟨hplain, (cpnos_console_agrees (start_refines fun _ => 0x2E#8) rfl true _).1 hplain⟩

end Console
end Rc700
