import Mathlib.Data.Fin.Basic
import Rc700.Library.BlockMove
import Rc700.Library.Word

/-!
# The console as a terminal

What the console drivers are for: a terminal of 25 rows and 80 columns, each
cell with a character and a background flag, and a cursor.  Operations that move
or clear cells move or clear characters and flags together.

Operations on the grid are stated for cells of any type.  `Grid.ofPlane` cuts a
linear memory into rows; the lemmas `ofPlane_*` say which block moves on the
memory are the row operations.
-/

namespace Rc700
namespace Console

open Library

/-- Rows and columns of the screen. -/
abbrev Grid (α : Type*) := Fin 25 → Fin 80 → α

namespace Grid

variable {α : Type*}

/-- The grid stored row by row in a linear memory. -/
def ofPlane (plane : Nat → α) : Grid α := fun r c => plane (80 * r.val + c.val)

/-- All rows move up by one. -/
def scroll (blank : α) (g : Grid α) : Grid α :=
  fun r c => if h : r.val + 1 < 25 then g ⟨r.val + 1, h⟩ c else blank

/-- Row `y` is opened; the rows from there on move down by one. -/
def insertLine (blank : α) (y : Fin 25) (g : Grid α) : Grid α :=
  fun r c =>
    if r < y then g r c
    else if r = y then blank
    else g ⟨r.val - 1, by omega⟩ c

/-- Row `y` is removed; the rows below it move up by one. -/
def deleteLine (blank : α) (y : Fin 25) (g : Grid α) : Grid α :=
  fun r c =>
    if r < y then g r c
    else if h : r.val + 1 < 25 then g ⟨r.val + 1, h⟩ c
    else blank

/-- Clear row `y` from column `x` on. -/
def eraseToEol (blank : α) (x : Fin 80) (y : Fin 25) (g : Grid α) : Grid α :=
  fun r c => if r = y ∧ x ≤ c then blank else g r c

/-- Clear everything from column `x` of row `y` on. -/
def eraseToEos (blank : α) (x : Fin 80) (y : Fin 25) (g : Grid α) : Grid α :=
  fun r c => if y < r ∨ (r = y ∧ x ≤ c) then blank else g r c

/-- Change one cell. -/
def put (x : Fin 80) (y : Fin 25) (f : α → α) (g : Grid α) : Grid α :=
  fun r c => if r = y ∧ c = x then f (g r c) else g r c

/-- The rows cover the whole memory of the screen. -/
theorem ofPlane_inj {plane plane' : Nat → α} (heq : ofPlane plane = ofPlane plane') {p : Nat}
    (hp : p < 2000) : plane p = plane' p := by
  have hcell := congrFun (congrFun heq ⟨p / 80, by omega⟩) ⟨p % 80, by omega⟩
  have hindex : 80 * (p / 80) + p % 80 = p := by omega
  simpa only [ofPlane, hindex] using hcell

/-! ### Block moves are row operations -/

theorem ofPlane_scroll (blank : α) (plane : Nat → α) :
    ofPlane (fillRange 1920 80 blank (copyRange 80 0 1920 plane)) =
      scroll blank (ofPlane plane) := by
  funext r c
  have hr := r.isLt
  have hc := c.isLt
  unfold ofPlane scroll fillRange copyRange
  by_cases hlast : r.val + 1 < 25
  · rw [if_neg (by omega), if_pos (by omega), dif_pos hlast]
    congr 1
    simp only
    omega
  · rw [if_pos (by omega), dif_neg hlast]

theorem ofPlane_insertLine (blank : α) (y : Fin 25) (plane : Nat → α) :
    ofPlane (fillRange (80 * y.val) 80 blank
      (copyRange (80 * y.val) (80 * y.val + 80) (1920 - 80 * y.val) plane)) =
      insertLine blank y (ofPlane plane) := by
  funext r c
  have hr := r.isLt
  have hc := c.isLt
  have hy := y.isLt
  unfold ofPlane insertLine fillRange copyRange
  rcases lt_trichotomy r y with habove | hsame | hbelow
  · have habove' : r.val < y.val := habove
    rw [if_neg (by omega), if_neg (by omega), if_pos habove]
  · subst hsame
    rw [if_pos (by omega), if_neg (lt_irrefl r), if_pos rfl]
  · have hbelow' : y.val < r.val := hbelow
    rw [if_neg (by omega), if_pos (by omega), if_neg (not_lt_of_gt hbelow),
      if_neg (ne_of_gt hbelow)]
    congr 1
    simp only
    omega

theorem ofPlane_deleteLine (blank : α) (y : Fin 25) (plane : Nat → α) :
    ofPlane (fillRange 1920 80 blank
      (copyRange (80 * y.val + 80) (80 * y.val) (1920 - 80 * y.val) plane)) =
      deleteLine blank y (ofPlane plane) := by
  funext r c
  have hr := r.isLt
  have hc := c.isLt
  have hy := y.isLt
  unfold ofPlane deleteLine fillRange copyRange
  by_cases habove : r < y
  · have habove' : r.val < y.val := habove
    rw [if_neg (by omega), if_neg (by omega), if_pos habove]
  · have hbelow : y.val ≤ r.val := not_lt.mp habove
    rw [if_neg habove]
    by_cases hlast : r.val + 1 < 25
    · rw [if_neg (by omega), if_pos (by omega), dif_pos hlast]
      congr 1
      simp only
      omega
    · rw [if_pos (by omega), dif_neg hlast]

theorem ofPlane_eraseToEol (blank : α) (x : Fin 80) (y : Fin 25) (plane : Nat → α) :
    ofPlane (fillRange (80 * y.val + x.val) (80 - x.val) blank plane) =
      eraseToEol blank x y (ofPlane plane) := by
  funext r c
  have hr := r.isLt
  have hc := c.isLt
  have hx := x.isLt
  unfold ofPlane eraseToEol fillRange
  by_cases hcell : r = y ∧ x ≤ c
  · have hrow : r.val = y.val := congrArg Fin.val hcell.1
    have hcol : x.val ≤ c.val := hcell.2
    rw [if_pos (by omega), if_pos hcell]
  · have hcell' : ¬ (r.val = y.val ∧ x.val ≤ c.val) :=
      fun h => hcell ⟨Fin.ext h.1, h.2⟩
    rw [if_neg (by omega), if_neg hcell]

theorem ofPlane_eraseToEos (blank : α) (x : Fin 80) (y : Fin 25) (plane : Nat → α) :
    ofPlane (fillRange (80 * y.val + x.val) (2000 - (80 * y.val + x.val)) blank plane) =
      eraseToEos blank x y (ofPlane plane) := by
  funext r c
  have hr := r.isLt
  have hc := c.isLt
  have hx := x.isLt
  unfold ofPlane eraseToEos fillRange
  by_cases hcell : y < r ∨ (r = y ∧ x ≤ c)
  · have hcell' : y.val < r.val ∨ (r.val = y.val ∧ x.val ≤ c.val) :=
      hcell.imp id (fun h => ⟨congrArg Fin.val h.1, h.2⟩)
    rw [if_pos (by omega), if_pos hcell]
  · have hcell' : ¬ (y.val < r.val ∨ (r.val = y.val ∧ x.val ≤ c.val)) :=
      fun h => hcell (h.imp id (fun h => ⟨Fin.ext h.1, h.2⟩))
    rw [if_neg (by omega), if_neg hcell]

theorem ofPlane_clear (blank : α) (plane : Nat → α) :
    ofPlane (fillRange 0 2000 blank plane) = fun _ _ => blank := by
  funext r c
  have hr := r.isLt
  have hc := c.isLt
  unfold ofPlane fillRange
  rw [if_pos (by omega)]

theorem ofPlane_put (x : Fin 80) (y : Fin 25) (f : α → α) (plane : Nat → α) :
    ofPlane (Function.update plane (80 * y.val + x.val)
      (f (plane (80 * y.val + x.val)))) = put x y f (ofPlane plane) := by
  funext r c
  have hc := c.isLt
  have hx := x.isLt
  unfold ofPlane put
  by_cases hcell : r = y ∧ c = x
  · obtain ⟨rfl, rfl⟩ := hcell
    rw [Function.update_self, if_pos ⟨rfl, rfl⟩]
  · have hne : 80 * r.val + c.val ≠ 80 * y.val + x.val := by
      intro h
      apply hcell
      constructor
      · apply Fin.ext
        omega
      · apply Fin.ext
        omega
    rw [Function.update_of_ne hne, if_neg hcell]

/-! ### Projections of cells -/

variable {β : Type*}

/-- One component of every cell. -/
def map (f : α → β) (g : Grid α) : Grid β := fun r c => f (g r c)

theorem map_scroll (f : α → β) (blank : α) (g : Grid α) :
    (g.scroll blank).map f = (g.map f).scroll (f blank) := by
  funext r c
  unfold map scroll
  split <;> rfl

theorem map_insertLine (f : α → β) (blank : α) (y : Fin 25) (g : Grid α) :
    (g.insertLine blank y).map f = (g.map f).insertLine (f blank) y := by
  funext r c
  unfold map insertLine
  split
  · rfl
  · split <;> rfl

theorem map_deleteLine (f : α → β) (blank : α) (y : Fin 25) (g : Grid α) :
    (g.deleteLine blank y).map f = (g.map f).deleteLine (f blank) y := by
  funext r c
  unfold map deleteLine
  split
  · rfl
  · split <;> rfl

theorem map_eraseToEol (f : α → β) (blank : α) (x : Fin 80) (y : Fin 25) (g : Grid α) :
    (g.eraseToEol blank x y).map f = (g.map f).eraseToEol (f blank) x y := by
  funext r c
  unfold map eraseToEol
  split <;> rfl

theorem map_eraseToEos (f : α → β) (blank : α) (x : Fin 80) (y : Fin 25) (g : Grid α) :
    (g.eraseToEos blank x y).map f = (g.map f).eraseToEos (f blank) x y := by
  funext r c
  unfold map eraseToEos
  split <;> rfl

/-- A change of one cell that replaces the component. -/
theorem map_put (f : α → β) (x : Fin 80) (y : Fin 25) (change : α → α) (b : β)
    (hchange : ∀ a, f (change a) = b) (g : Grid α) :
    (g.put x y change).map f = (g.map f).put x y (fun _ => b) := by
  funext r c
  unfold map put
  split
  · exact hchange _
  · rfl

end Grid

/-! ### The terminal -/

/-- One cell of the screen. -/
structure Cell where
  char : Byte
  flag : Bool
  deriving DecidableEq

/-- A cleared cell. -/
def blank : Cell := ⟨0x20#8, false⟩

/-- `bgflg`: 0 = off, 1 = foreground, 2 = background. -/
inductive BgFlg
  | off
  | foreground
  | background
  deriving DecidableEq, Repr

/-- Cursor addressing: which coordinate byte is expected next. -/
inductive Coord
  | idle
  | first
  | second (adr0 : Nat)
  deriving DecidableEq, Repr

/-- What an installation configures: the order of coordinates, and the national
character table. -/
structure Config where
  adrmod : Byte
  outcon : Byte → Byte

structure Terminal where
  cells : Grid Cell
  x : Fin 80
  y : Fin 25
  mode : BgFlg
  graph : Bool
  coord : Coord

namespace Terminal

/-- The characters on the screen. -/
def chars (t : Terminal) : Grid Byte := t.cells.map Cell.char

/-- Next row; at the bottom the screen scrolls. -/
def down (t : Terminal) : Terminal :=
  if h : t.y.val + 1 < 25 then { t with y := ⟨t.y.val + 1, h⟩ }
  else { t with cells := t.cells.scroll blank }

/-- Previous row, around the top. -/
def up (t : Terminal) : Terminal :=
  if t.y.val = 0 then { t with y := 24 }
  else { t with y := ⟨t.y.val - 1, by omega⟩ }

/-- Next column, on to the next row. -/
def right (t : Terminal) : Terminal :=
  if h : t.x.val + 1 < 80 then { t with x := ⟨t.x.val + 1, h⟩ }
  else down { t with x := 0 }

/-- Previous column, back to the previous row. -/
def left (t : Terminal) : Terminal :=
  if t.x.val = 0 then up { t with x := 79 }
  else { t with x := ⟨t.x.val - 1, by omega⟩ }

/-- The character that is displayed for a byte, and the sticky graphics mode. -/
def convert (config : Config) (graph : Bool) (b : Byte) : Byte × Bool :=
  let ch := if 192 ≤ b.toNat then b - 192#8 else b
  if 128 ≤ ch.toNat then (ch, ch &&& 4#8 != 0#8)
  else if graph then (ch, graph)
  else (config.outcon ch, graph)

/-- Show a character; in background mode flag its cell. -/
def display (config : Config) (b : Byte) (t : Terminal) : Terminal :=
  let (ch, graph) := convert config t.graph b
  right { t with
    graph := graph
    cells := t.cells.put t.x t.y
      (fun cell => ⟨ch, cell.flag || t.mode == .background⟩) }

/-- The value of a coordinate byte. -/
def coordinate (b : Byte) : Nat := ((b &&& 0x7F#8) - 32#8).toNat

/-- Place the cursor, columns modulo 80 and rows modulo 25. -/
def place (x y : Nat) (t : Terminal) : Terminal :=
  { t with
    x := ⟨x % 80, Nat.mod_lt _ (by omega)⟩
    y := ⟨y % 25, Nat.mod_lt _ (by omega)⟩
    coord := .idle }

/-- Control codes. -/
def control (code : Nat) (t : Terminal) : Terminal :=
  match code with
  | 0x01 => { t with cells := t.cells.insertLine blank t.y }
  | 0x02 => { t with cells := t.cells.deleteLine blank t.y }
  | 0x05 => left t
  | 0x06 => { t with x := 0, y := 0, coord := .first }
  | 0x08 => left t
  | 0x09 => right (right (right (right t)))
  | 0x0A => down t
  | 0x0C => { t with cells := fun _ _ => blank, x := 0, y := 0, mode := .off }
  | 0x0D => { t with x := 0 }
  | 0x13 => { t with
      cells := fun r c => ⟨(t.cells r c).char, false⟩
      mode := .background }
  | 0x14 => { t with mode := .foreground }
  | 0x15 => { t with cells := fun r c => if (t.cells r c).flag then t.cells r c else blank }
  | 0x18 => right t
  | 0x1A => up t
  | 0x1D => { t with x := 0, y := 0 }
  | 0x1E => { t with cells := t.cells.eraseToEol blank t.x t.y }
  | 0x1F => { t with cells := t.cells.eraseToEos blank t.x t.y }
  | _ => t

/-- One byte sent to the terminal. -/
def step (config : Config) (t : Terminal) (b : Byte) : Terminal :=
  match t.coord with
  | .first => { t with coord := .second (coordinate b) }
  | .second adr0 =>
      if config.adrmod = 0#8 then place adr0 (coordinate b) t
      else place (coordinate b) adr0 t
  | .idle => if b.toNat < 32 then control b.toNat t else display config b t

/-- One byte sent to the terminal of CP/NOS. -/
def cpnosStep (t : Terminal) (c : Byte) : Terminal :=
  match t.coord with
  | .first => { t with coord := .second (coordinate c) }
  | .second adr0 =>
      place (if 80 ≤ adr0 then 0 else adr0)
        (if 25 ≤ coordinate c then 0 else coordinate c) t
  | .idle =>
      if c = 0x0A#8 then { down t with x := 0 }
      else if c.toNat < 32 then
        if 0x13 ≤ c.toNat ∧ c.toNat ≤ 0x15 then t else control c.toNat t
      else
        right { t with
          cells := t.cells.put t.x t.y
            (fun cell => ⟨c, cell.flag || t.mode == .background⟩) }

/-- The terminal before the first byte. -/
def start (screen : Nat → Byte) : Terminal where
  cells := Grid.ofPlane (fun p => ⟨screen p, false⟩)
  x := 0
  y := 0
  mode := .off
  graph := false
  coord := .idle

/-! ### Cursor addressing and mode -/

variable {t : Terminal}

@[simp] theorem down_coord : t.down.coord = t.coord := by
  unfold down
  split <;> rfl

@[simp] theorem up_coord : t.up.coord = t.coord := by
  unfold up
  split <;> rfl

@[simp] theorem right_coord : t.right.coord = t.coord := by
  unfold right
  split
  · rfl
  · rw [down_coord]

@[simp] theorem left_coord : t.left.coord = t.coord := by
  unfold left
  split
  · rw [up_coord]
  · rfl

theorem control_coord (code : Nat) (hidle : t.coord = .idle) :
    (t.control code).coord = if code = 0x06 then .first else .idle := by
  unfold control
  split <;> simp_all

theorem display_coord (config : Config) (c : Byte) : (t.display config c).coord = t.coord := by
  rw [display, right_coord]

@[simp] theorem down_mode : t.down.mode = t.mode := by
  unfold down
  split <;> rfl

@[simp] theorem right_mode : t.right.mode = t.mode := by
  unfold right
  split
  · rfl
  · rw [down_mode]

/-- Coordinate bytes that are still to come. -/
def pending : Coord → Nat
  | .idle => 0
  | .first => 2
  | .second _ => 1

theorem step_pending (config : Config) (c : Byte) :
    pending (t.step config c).coord =
      if t.coord = .idle then (if c.toNat = 0x06 then 2 else 0) else pending t.coord - 1 := by
  unfold step
  split
  · next hcoord =>
    simp [hcoord, pending]
  · next hcoord =>
    split <;> simp [hcoord, pending, place]
  · next hcoord =>
    rw [if_pos hcoord]
    split
    · rw [control_coord _ hcoord]
      split <;> rfl
    · rw [display_coord, hcoord, if_neg (by omega)]
      rfl

end Terminal

end Console
end Rc700
