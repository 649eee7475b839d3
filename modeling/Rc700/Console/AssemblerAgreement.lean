import Rc700.Console.AssemblerTerminal

/-!
# The C driver and the assembler driver

The C driver takes background mode, foreground mode and the clearing of the foreground
one code earlier than the assembler driver.  With these codes renamed (`forMac`) both
drivers leave the same cursor on every stream, and the same characters as long as the
foreground is not cleared.  They leave the same flags too as long as no byte comes to
one of the three places where the assembler driver has its own way with flags
(`Terminal.Slips`), and at each of these they differ: `stepMac_eq_iff`.
-/

namespace Rc700
namespace Console

open Library

/-! ### Codes -/

/-- The code of the assembler driver for a code of the C driver. -/
def macCode (c : Byte) : Byte :=
  if c = 0x13#8 then 0x14#8
  else if c = 0x14#8 then 0x15#8
  else if c = 0x15#8 then 0x16#8
  else if c = 0x16#8 then 0x13#8
  else c

/-- The stream with the codes of the assembler driver, when `n` coordinate bytes are
still to come. -/
def forMac : Nat → List Byte → List Byte
  | _, [] => []
  | 0, c :: stream => macCode c :: forMac (if c.toNat = 0x06 then 2 else 0) stream
  | n + 1, c :: stream => c :: forMac n stream

/-- None of the codes is sent as a control code, when `n` coordinate bytes are
still to come. -/
def Avoids (codes : List Nat) : Nat → List Byte → Prop
  | _, [] => True
  | 0, c :: stream => c.toNat ∉ codes ∧ Avoids codes (if c.toNat = 0x06 then 2 else 0) stream
  | n + 1, _ :: stream => Avoids codes n stream

instance Avoids.decidable (codes : List Nat) :
    ∀ (n : Nat) (stream : List Byte), Decidable (Avoids codes n stream)
  | _, [] => isTrue trivial
  | 0, c :: stream =>
      have := Avoids.decidable codes (if c.toNat = 0x06 then 2 else 0) stream
      inferInstanceAs (Decidable (_ ∧ _))
  | n + 1, _ :: stream => Avoids.decidable codes n stream

variable {t u : Terminal} {config : Config} {c : Byte} {stream : List Byte}

/-- What is avoided by a stream is avoided by its first byte in the state it
meets, and by the rest. -/
theorem Avoids.step {codes : List Nat} (config : Config)
    (havoids : Avoids codes (Terminal.pending t.coord) (c :: stream)) :
    (t.coord = .idle → c.toNat ∉ codes) ∧
      Avoids codes (Terminal.pending (t.step config c).coord) stream := by
  rw [Terminal.step_pending]
  cases hcoord : t.coord with
  | idle =>
      rw [hcoord] at havoids
      exact ⟨fun _ => havoids.1, havoids.2⟩
  | first =>
      rw [hcoord] at havoids
      exact ⟨nofun, havoids⟩
  | second adr0 =>
      rw [hcoord] at havoids
      exact ⟨nofun, havoids⟩

namespace Terminal

/-- The byte that the assembler driver gets in place of a byte. -/
def sentMac (t : Terminal) (c : Byte) : Byte := if t.coord = .idle then macCode c else c

theorem forMac_cons (config : Config) :
    forMac (pending t.coord) (c :: stream) =
      t.sentMac c :: forMac (pending (t.step config c).coord) stream := by
  rw [step_pending]
  unfold sentMac
  cases hcoord : t.coord with
  | idle => rfl
  | first => rfl
  | second adr0 => rfl

/-! ### What flags do not change -/

/-- The two terminals are the same but for their cells, and these are the same in what
`f` makes of their characters. -/
structure Similar {β : Type} (f : Byte → β) (t u : Terminal) : Prop where
  cells : t.cells.map (fun cell => f cell.char) = u.cells.map (fun cell => f cell.char)
  x : t.x = u.x
  y : t.y = u.y
  mode : t.mode = u.mode
  graph : t.graph = u.graph
  coord : t.coord = u.coord

section Similar

variable {β : Type} {f : Byte → β}

theorem Similar.refl (t : Terminal) : Similar f t t := ⟨rfl, rfl, rfl, rfl, rfl, rfl⟩

theorem Similar.down (h : Similar f t u) : Similar f t.down u.down := by
  unfold Terminal.down
  by_cases hlast : t.y.val + 1 < 25
  · rw [dif_pos hlast, dif_pos (h.y ▸ hlast)]
    exact { h with y := Fin.ext (congrArg (fun y : Fin 25 => y.val + 1) h.y) }
  · rw [dif_neg hlast, dif_neg (h.y ▸ hlast)]
    refine { h with cells := ?_ }
    rw [Grid.map_scroll, Grid.map_scroll, h.cells]

theorem Similar.up (h : Similar f t u) : Similar f t.up u.up := by
  unfold Terminal.up
  by_cases htop : t.y.val = 0
  · rw [if_pos htop, if_pos (h.y ▸ htop)]
    exact { h with y := rfl }
  · rw [if_neg htop, if_neg (h.y ▸ htop)]
    exact { h with y := Fin.ext (congrArg (fun y : Fin 25 => y.val - 1) h.y) }

theorem Similar.right (h : Similar f t u) : Similar f t.right u.right := by
  unfold Terminal.right
  by_cases hlast : t.x.val + 1 < 80
  · rw [dif_pos hlast, dif_pos (h.x ▸ hlast)]
    exact { h with x := Fin.ext (congrArg (fun x : Fin 80 => x.val + 1) h.x) }
  · rw [dif_neg hlast, dif_neg (h.x ▸ hlast)]
    have hfirst : Similar f { t with x := 0 } { u with x := 0 } := { h with x := rfl }
    exact hfirst.down

theorem Similar.left (h : Similar f t u) : Similar f t.left u.left := by
  unfold Terminal.left
  by_cases hfirst : t.x.val = 0
  · rw [if_pos hfirst, if_pos (h.x ▸ hfirst)]
    have hlast : Similar f { t with x := 79 } { u with x := 79 } := { h with x := rfl }
    exact hlast.up
  · rw [if_neg hfirst, if_neg (h.x ▸ hfirst)]
    exact { h with x := Fin.ext (congrArg (fun x : Fin 80 => x.val - 1) h.x) }

theorem map_eraseCharsToEol (f : Byte → β) (x : Fin 80) (y : Fin 25) (g : Grid Cell) :
    (eraseCharsToEol x y g).map (fun cell => f cell.char) =
      (g.map fun cell => f cell.char).eraseToEol (f 0x20#8) x y := by
  funext r c
  unfold Grid.map eraseCharsToEol Grid.eraseToEol
  split <;> rfl

/-- Flags are not looked at. -/
theorem map_put_flag (f : Byte → β) (x : Fin 80) (y : Fin 25) (g : Grid Cell) :
    (g.put x y fun cell => ⟨cell.char, true⟩).map (fun cell => f cell.char) =
      g.map fun cell => f cell.char := by
  funext r c
  unfold Grid.map Grid.put
  split <;> rfl

/-- Control codes that do not look at flags. -/
theorem Similar.control (h : Similar f t u) {code : Nat} (hcode : code ≠ 0x15) :
    Similar f (t.control code) (u.control code) := by
  unfold Terminal.control
  split
  · refine { h with cells := ?_ }
    rw [Grid.map_insertLine, Grid.map_insertLine, h.cells, h.y]
  · refine { h with cells := ?_ }
    rw [Grid.map_deleteLine, Grid.map_deleteLine, h.cells, h.y]
  · exact h.left
  · exact { h with x := rfl, y := rfl, coord := rfl }
  · exact h.left
  · exact h.right.right.right.right
  · exact h.down
  · exact { h with cells := rfl, x := rfl, y := rfl, mode := rfl }
  · exact { h with x := rfl }
  · exact { h with cells := h.cells, mode := rfl }
  · exact { h with mode := rfl }
  · exact absurd rfl hcode
  · exact h.right
  · exact h.up
  · exact { h with x := rfl, y := rfl }
  · refine { h with cells := ?_ }
    rw [Grid.map_eraseToEol, Grid.map_eraseToEol, h.cells, h.x, h.y]
  · refine { h with cells := ?_ }
    rw [Grid.map_eraseToEos, Grid.map_eraseToEos, h.cells, h.x, h.y]
  · exact h

theorem macCode_other (hbg : c ≠ 0x13#8) (hfg : c ≠ 0x14#8) (hclear : c ≠ 0x15#8)
    (hnone : c ≠ 0x16#8) : macCode c = c := by
  rw [macCode, if_neg hbg, if_neg hfg, if_neg hclear, if_neg hnone]

theorem macCode_lt (hcontrol : c.toNat < 32) : (macCode c).toNat < 32 := by
  unfold macCode
  split_ifs
  · decide
  · decide
  · decide
  · decide
  · exact hcontrol

/-- Characters are sent as they are. -/
theorem macCode_shown (hshown : 32 ≤ c.toNat) : macCode c = c := by
  apply macCode_other
  · rintro rfl
    exact absurd hshown (by decide)
  · rintro rfl
    exact absurd hshown (by decide)
  · rintro rfl
    exact absurd hshown (by decide)
  · rintro rfl
    exact absurd hshown (by decide)

theorem controlMac_other (hbg : c ≠ 0x13#8) (hfg : c ≠ 0x14#8) (hclear : c ≠ 0x15#8)
    (hnone : c ≠ 0x16#8) (herase : c ≠ 0x1E#8) (t : Terminal) :
    t.controlMac c.toNat = t.control c.toNat := by
  have hne : ∀ b : Byte, c ≠ b → c.toNat ≠ b.toNat := fun b hb heq => hb (BitVec.eq_of_toNat_eq heq)
  unfold controlMac
  split
  · next heq => exact absurd heq (hne _ hbg)
  · next heq => exact absurd heq (hne _ hfg)
  · next heq => exact absurd heq (hne _ hclear)
  · next heq => exact absurd heq (hne _ hnone)
  · next heq => exact absurd heq (hne _ herase)
  · rfl

/-- A control code, and the one for it.  Where the foreground is cleared the flags decide
which characters stay. -/
theorem Similar.renamed (h : Similar f t u) (hclear : c = 0x15#8 → ∀ b b' : Byte, f b = f b') :
    Similar f (t.control c.toNat) (u.controlMac (macCode c).toNat) := by
  by_cases hbg : c = 0x13#8
  · subst hbg
    exact { h with cells := h.cells, mode := rfl }
  by_cases hfg : c = 0x14#8
  · subst hfg
    exact { h with mode := rfl }
  by_cases hforeground : c = 0x15#8
  · subst hforeground
    refine { h with cells := ?_ }
    funext row col
    exact hclear rfl _ _
  by_cases hnone : c = 0x16#8
  · subst hnone
    exact h
  rw [macCode_other hbg hfg hforeground hnone]
  by_cases herase : c = 0x1E#8
  · subst herase
    refine { h with cells := ?_ }
    show (t.cells.eraseToEol blank t.x t.y).map (fun cell => f cell.char) =
      (eraseCharsToEol u.x u.y u.cells).map (fun cell => f cell.char)
    rw [map_eraseCharsToEol, Grid.map_eraseToEol, h.cells, h.x, h.y]
    rfl
  · rw [controlMac_other hbg hfg hforeground hnone herase]
    exact h.control fun heq => hforeground (BitVec.eq_of_toNat_eq heq)

theorem Similar.display (h : Similar f t u) (config : Config) (c : Byte) :
    Similar f (t.display config c) (u.displayMac config c) := by
  unfold Terminal.display displayMac
  rw [h.graph]
  generalize convert config u.graph c = shown
  obtain ⟨ch, graph⟩ := shown
  dsimp only
  have hput : Similar f
      { t with
        graph := graph
        cells := t.cells.put t.x t.y
          (fun cell => ⟨ch, cell.flag || t.mode == .background⟩) }
      { u with
        graph := graph
        cells := u.cells.put u.x u.y (fun cell => ⟨ch, cell.flag⟩) } := by
    refine { h with cells := ?_, graph := rfl }
    rw [Grid.map_put (fun cell : Cell => f cell.char) t.x t.y _ (f ch) (fun _ => rfl),
      Grid.map_put (fun cell : Cell => f cell.char) u.x u.y _ (f ch) (fun _ => rfl), h.cells,
      h.x, h.y]
  split
  · exact { hput.right with cells := hput.right.cells.trans (map_put_flag _ _ _ _).symm }
  · exact hput.right

/-- **One byte.** -/
theorem Similar.step (h : Similar f t u) (config : Config)
    (hclear : t.coord = .idle → c = 0x15#8 → ∀ b b' : Byte, f b = f b') :
    Similar f (t.step config c) (u.stepMac config (t.sentMac c)) := by
  unfold Terminal.step stepMac sentMac
  rw [← h.coord]
  cases hcoord : t.coord with
  | first => exact { h with coord := rfl }
  | second adr0 =>
      dsimp only
      rw [if_neg (show ¬ Coord.second adr0 = .idle by simp)]
      split
      · exact { h with x := rfl, y := rfl, coord := rfl }
      · exact { h with x := rfl, y := rfl, coord := rfl }
  | idle =>
      dsimp only
      rw [if_pos rfl]
      by_cases hcontrol : c.toNat < 32
      · rw [if_pos hcontrol, if_pos (macCode_lt hcontrol)]
        exact h.renamed (hclear hcoord)
      · have hsame := macCode_shown (Nat.not_lt.mp hcontrol)
        rw [if_neg hcontrol, hsame, if_neg hcontrol]
        exact h.display config c

end Similar

/-- What a stream leaves is similar, if it does not clear the foreground, or `f` does not
look at characters. -/
theorem Similar.all {β : Type} {f : Byte → β} (h : Similar f t u) (config : Config)
    (hclear : Avoids [0x15] (pending t.coord) stream ∨ ∀ b b' : Byte, f b = f b') :
    Similar f (stream.foldl (Terminal.step config) t)
      ((forMac (pending t.coord) stream).foldl (stepMac config) u) := by
  induction stream generalizing t u with
  | nil =>
      have hnone : forMac (pending t.coord) [] = [] := by
        cases pending t.coord <;> rfl
      rw [hnone]
      exact h
  | cons c stream ih =>
      rw [forMac_cons config]
      apply ih
      · apply h.step
        intro hidle hc
        refine hclear.resolve_left fun havoids => ?_
        exact (havoids.step config).1 hidle (by rw [hc]; decide)
      · exact hclear.imp (fun havoids => (havoids.step config).2) id

/-! ### Where flags differ -/

/-- The byte comes to a place where the assembler driver has its own way with flags: it
erases to the end of the line, and there are flags in the group of eight behind the
cursor's; it enters background mode, and there are flags; or it is shown in background
mode in the last cell, and scrolls the screen. -/
def Slips (t : Terminal) (c : Byte) : Prop :=
  t.coord = .idle ∧
    ((c = 0x1E#8 ∧ ∃ col : Fin 80, col.val / 8 = t.x.val / 8 + 1 ∧
        (t.cells t.y col).flag = true) ∨
      (c = 0x13#8 ∧ ∃ row col, (t.cells row col).flag = true) ∨
      (32 ≤ c.toNat ∧ t.mode = .background ∧ t.x.val = 79 ∧ t.y.val = 24))

/-- No byte of the stream does. -/
def NoSlips (config : Config) : Terminal → List Byte → Prop
  | _, [] => True
  | t, c :: stream => ¬ t.Slips c ∧ NoSlips config (t.step config c) stream

instance (t : Terminal) (c : Byte) : Decidable (t.Slips c) := inferInstanceAs (Decidable (_ ∧ _))

instance NoSlips.decidable (config : Config) :
    ∀ (t : Terminal) (stream : List Byte), Decidable (NoSlips config t stream)
  | _, [] => isTrue trivial
  | t, c :: stream =>
      have := NoSlips.decidable config (t.step config c) stream
      inferInstanceAs (Decidable (_ ∧ _))

/-- Erasing to the end of the line is the same if there are no flags to repeat. -/
theorem eraseCharsToEol_eq_iff (x : Fin 80) (y : Fin 25) (g : Grid Cell) :
    eraseCharsToEol x y g = g.eraseToEol blank x y ↔
      ¬ ∃ col : Fin 80, col.val / 8 = x.val / 8 + 1 ∧ (g y col).flag = true := by
  constructor
  · rintro heq ⟨col, hgroup, hflag⟩
    have hcol : x ≤ col := by
      show x.val ≤ col.val
      omega
    have hplace : (⟨(8 * (x.val / 8 + 1) + col.val % 8) % 80, Nat.mod_lt _ (by omega)⟩ : Fin 80) =
        col := by
      apply Fin.ext
      have hlt := col.isLt
      show (8 * (x.val / 8 + 1) + col.val % 8) % 80 = col.val
      omega
    have hkept : (eraseCharsToEol x y g y col).flag = true := by
      unfold eraseCharsToEol
      rw [if_pos ⟨rfl, hcol⟩, hplace]
      dsimp only
      rwa [if_neg (by omega)]
    have hcleared : (g.eraseToEol blank x y y col).flag = false := by
      unfold Grid.eraseToEol
      rw [if_pos ⟨rfl, hcol⟩]
      rfl
    rw [heq, hcleared] at hkept
    exact Bool.noConfusion hkept
  · intro hnone
    funext r c
    unfold eraseCharsToEol Grid.eraseToEol
    split
    · next hcell =>
      obtain ⟨rfl, hcol⟩ := hcell
      have hcol' : x.val ≤ c.val := hcol
      have hlt := c.isLt
      split
      · rfl
      · next hgroup =>
        have hclear := not_exists.mp hnone
          ⟨(8 * (x.val / 8 + 1) + c.val % 8) % 80, Nat.mod_lt _ (by omega)⟩
        rw [not_and, Bool.not_eq_true] at hclear
        rw [hclear (by dsimp only; omega)]
        rfl
    · rfl

/-- Entering background mode is the same if there are no flags to clear. -/
theorem unflagged_eq_iff (g : Grid Cell) :
    (fun r c => ⟨(g r c).char, false⟩) = g ↔ ¬ ∃ row col, (g row col).flag = true := by
  constructor
  · rintro heq ⟨row, col, hflag⟩
    rw [← congrFun (congrFun heq row) col] at hflag
    exact Bool.noConfusion hflag
  · intro hnone
    funext r c
    have hclear := not_exists.mp (not_exists.mp hnone r) c
    rw [Bool.not_eq_true] at hclear
    rw [← hclear]

/-- Showing a character is the same unless it is flagged and scrolls the screen. -/
theorem displayMac_eq_iff (config : Config) (t : Terminal) (c : Byte) :
    t.displayMac config c = t.display config c ↔
      ¬ (t.mode = .background ∧ t.x.val = 79 ∧ t.y.val = 24) := by
  unfold displayMac Terminal.display
  generalize convert config t.graph c = shown
  obtain ⟨ch, graph⟩ := shown
  dsimp only
  by_cases hmode : t.mode = .background
  · rw [if_pos hmode]
    by_cases hcorner : t.x.val = 79 ∧ t.y.val = 24
    · -- the last cell is blank in one, and flagged in the other
      refine iff_of_false (fun heq => ?_) (fun hnot => hnot ⟨hmode, hcorner⟩)
      have hx : t.x = 79 := Fin.ext hcorner.1
      have hy : t.y = 24 := Fin.ext hcorner.2
      have hflag := congrArg (fun u : Terminal => (u.cells 24 79).flag) heq
      simp [Terminal.right, Terminal.down, Grid.put, Grid.scroll, hx, hy, blank]
        at hflag
    · refine iff_of_true ?_ (fun hslip => hcorner hslip.2)
      have hput : (t.cells.put t.x t.y fun cell => ⟨ch, cell.flag⟩).put t.x t.y
            (fun cell => ⟨cell.char, true⟩) =
          t.cells.put t.x t.y fun cell => ⟨ch, cell.flag || t.mode == .background⟩ := by
        funext r c
        unfold Grid.put
        split <;> simp [hmode]
      unfold Terminal.right Terminal.down
      dsimp only
      by_cases hlast : t.x.val + 1 < 80
      · rw [dif_pos hlast, dif_pos hlast]
        exact congrArg (fun cells => { t with
          cells := cells, x := ⟨t.x.val + 1, hlast⟩, graph := graph }) hput
      · have hrow : t.y.val + 1 < 25 := by
          by_contra hbottom
          exact hcorner ⟨by omega, by omega⟩
        rw [dif_neg hlast, dif_neg hlast, dif_pos hrow, dif_pos hrow]
        exact congrArg (fun cells => { t with
          cells := cells, x := 0, y := ⟨t.y.val + 1, hrow⟩, graph := graph }) hput
  · have hother : (t.mode == .background) = false := by simpa using hmode
    rw [if_neg hmode, hother]
    simp [hmode]

theorem slips_background (hidle : t.coord = .idle) :
    t.Slips 0x13#8 ↔ ∃ row col, (t.cells row col).flag = true := by
  unfold Slips
  simp [hidle]

theorem slips_erase (hidle : t.coord = .idle) :
    t.Slips 0x1E#8 ↔ ∃ col : Fin 80, col.val / 8 = t.x.val / 8 + 1 ∧
      (t.cells t.y col).flag = true := by
  unfold Slips
  simp [hidle]

theorem slips_shown (hidle : t.coord = .idle) (hshown : 32 ≤ c.toNat) :
    t.Slips c ↔ t.mode = .background ∧ t.x.val = 79 ∧ t.y.val = 24 := by
  constructor
  · rintro ⟨-, ⟨rfl, -⟩ | ⟨rfl, -⟩ | ⟨-, hslip⟩⟩
    · exact absurd hshown (by decide)
    · exact absurd hshown (by decide)
    · exact hslip
  · exact fun hslip => ⟨hidle, .inr (.inr ⟨hshown, hslip⟩)⟩

/-- **One byte** does the same to both, unless it slips. -/
theorem stepMac_eq_iff (config : Config) (t : Terminal) (c : Byte) :
    t.stepMac config (t.sentMac c) = t.step config c ↔ ¬ t.Slips c := by
  unfold stepMac sentMac Terminal.step
  cases hcoord : t.coord with
  | first => exact iff_of_true rfl fun hslip => Coord.noConfusion (hcoord.symm.trans hslip.1)
  | second adr0 =>
      refine iff_of_true ?_ fun hslip => Coord.noConfusion (hcoord.symm.trans hslip.1)
      rw [if_neg (show ¬ Coord.second adr0 = .idle by simp)]
  | idle =>
      dsimp only
      rw [if_pos rfl]
      by_cases hbg : c = 0x13#8
      · subst hbg
        rw [slips_background hcoord, ← unflagged_eq_iff]
        exact ⟨fun heq => (congrArg Terminal.cells heq).symm,
          fun heq =>
            congrArg (fun cells => { t with cells := cells, mode := .background }) heq.symm⟩
      by_cases herase : c = 0x1E#8
      · subst herase
        rw [slips_erase hcoord, ← eraseCharsToEol_eq_iff]
        exact ⟨fun heq => congrArg Terminal.cells heq,
          fun heq => congrArg (fun cells => { t with cells := cells }) heq⟩
      by_cases hcontrol : c.toNat < 32
      · refine iff_of_true ?_ (fun hslip => ?_)
        · rw [if_pos hcontrol, if_pos (macCode_lt hcontrol)]
          by_cases hfg : c = 0x14#8
          · rw [hfg]
            rfl
          by_cases hclear : c = 0x15#8
          · rw [hclear]
            rfl
          by_cases hnone : c = 0x16#8
          · rw [hnone]
            rfl
          rw [macCode_other hbg hfg hclear hnone, controlMac_other hbg hfg hclear hnone herase]
        · rcases hslip.2 with ⟨heq, -⟩ | ⟨heq, -⟩ | ⟨hge, -⟩
          · exact herase heq
          · exact hbg heq
          · omega
      · have hshown := Nat.not_lt.mp hcontrol
        rw [macCode_shown hshown, if_neg hcontrol, if_neg hcontrol, displayMac_eq_iff,
          slips_shown hcoord hshown]

theorem forMac_nil (n : Nat) : forMac n [] = [] := by
  cases n <;> rfl

/-- Terminals that are similar are the same if their cells are. -/
theorem Similar.eq_of_cells {β : Type} {f : Byte → β} (h : Similar f t u)
    (hcells : t.cells = u.cells) : t = u := by
  obtain ⟨-, hx, hy, hmode, hgraph, hcoord⟩ := h
  cases t
  cases u
  subst hcells hx hy hmode hgraph hcoord
  rfl

/-- **A stream** does the same to both all along, unless one of its bytes slips. -/
theorem noSlips_iff (config : Config) (t : Terminal) (stream : List Byte) :
    (∀ front, front <+: stream → (front.foldl (Terminal.step config) t).cells =
        ((forMac (pending t.coord) front).foldl (stepMac config) t).cells) ↔
      NoSlips config t stream := by
  -- by induction on the stream; the terminal moves along
  induction stream generalizing t with
  | nil =>
      refine iff_of_true (fun front hfront => ?_) trivial
      rw [List.prefix_nil.mp hfront, forMac_nil]
      rfl
  | cons c stream ih =>
      have hfirst : (∀ front, front <+: stream →
          (List.foldl (Terminal.step config) t (c :: front)).cells =
            ((forMac (pending t.coord) (c :: front)).foldl (stepMac config) t).cells) ↔
          ¬ t.Slips c ∧ NoSlips config (t.step config c) stream := by
        simp only [forMac_cons config, List.foldl_cons]
        constructor
        · intro hcells
          have hone := hcells [] List.nil_prefix
          rw [forMac_nil] at hone
          have hsimilar : Similar (fun _ => ()) (t.step config c)
              (t.stepMac config (t.sentMac c)) :=
            (Similar.refl t).step config fun _ _ _ _ => rfl
          have hsame := (hsimilar.eq_of_cells hone).symm
          rw [hsame] at hcells
          exact ⟨(stepMac_eq_iff config t c).mp hsame, (ih _).mp hcells⟩
        · rintro ⟨hslip, hrest⟩
          rw [(stepMac_eq_iff config t c).mpr hslip]
          exact (ih _).mpr hrest
      rw [NoSlips, ← hfirst]
      constructor
      · exact fun hcells front hfront => hcells _ (List.cons_prefix_cons.mpr ⟨rfl, hfront⟩)
      · intro hcells front hfront
        cases front with
        | nil =>
            rw [forMac_nil]
            rfl
        | cons b front =>
            obtain ⟨rfl, hrest⟩ := List.cons_prefix_cons.mp hfront
            exact hcells front hrest

end Terminal

/-! ### Agreement -/

/-- The cursor is the same. -/
def SameCursor (s : Crt) (a : Asm) : Prop := s.curx = a.cctad ∧ s.cursy = a.cursy

/-- The screen and the cursor are the same. -/
def SameScreen (s : Crt) (a : Asm) : Prop :=
  (∀ p, p < 2000 → s.screen p = a.screen p) ∧ s.curx = a.cctad ∧ s.cursy = a.cursy

/-- The same cells are flagged. -/
def SameFlags (s : Crt) (a : Asm) : Prop :=
  ∀ p, p < 2000 → flagAt s.bgstar p = asmFlagAt a.bgstar p

/-- The C driver after a stream from a cleared screen. -/
def runC (config : Config) (stream : List Byte) : Crt :=
  stream.foldl (fun s c => biosConoutC config s .crt c) (Crt.start fun _ => 0x20#8)

/-- The assembler driver after a stream from a cleared screen. -/
def runAsm (config : Config) (stream : List Byte) : Asm :=
  stream.foldl (Asm.conout config) (Asm.start fun _ => 0x20#8)

/-- The terminal with a cleared screen. -/
def cleared : Terminal := Terminal.start fun _ => 0x20#8

theorem runC_refines (config : Config) (stream : List Byte) :
    Refines (runC config stream) (stream.foldl (Terminal.step config) cleared) :=
  (start_refines _).conoutStream stream

theorem runAsm_shows (config : Config) (stream : List Byte) :
    Asm.Shows (runAsm config stream) (stream.foldl (Terminal.stepMac config) cleared) :=
  (Asm.start_shows _).conoutAll stream

theorem sameScreen_iff {s : Crt} {a : Asm} (hs : Refines s t) (ha : Asm.Shows a u)
    (hx : t.x = u.x) (hy : t.y = u.y) : SameScreen s a ↔ t.chars = u.chars := by
  have hc : t.chars = Grid.ofPlane s.screen := by
    rw [Terminal.chars, ← hs.cells]
    rfl
  have hm : u.chars = Grid.ofPlane a.screen := by
    rw [Terminal.chars, ← ha.cells]
    rfl
  have hcursor : s.curx = a.cctad ∧ s.cursy = a.cursy := by
    rw [hs.curx, ha.cctad, hs.cursy, ha.cursy, hx, hy]
    exact ⟨rfl, rfl⟩
  rw [SameScreen, and_iff_left hcursor, hc, hm]
  refine ⟨fun hsame => ?_, fun hsame p hp => Grid.ofPlane_inj hsame hp⟩
  funext r c
  have hr := r.isLt
  have hcol := c.isLt
  exact hsame _ (by omega)

/-- The cells are the same if the characters and the flags are. -/
theorem same_iff {s : Crt} {a : Asm} (hs : Refines s t) (ha : Asm.Shows a u)
    (hx : t.x = u.x) (hy : t.y = u.y) :
    SameScreen s a ∧ SameFlags s a ↔ t.cells = u.cells := by
  rw [sameScreen_iff hs ha hx hy]
  constructor
  · rintro ⟨hchars, hflags⟩
    funext r c
    have hr := r.isLt
    have hc := c.isLt
    have hp : 80 * r.val + c.val < 2000 := by omega
    have hchar : (t.cells r c).char = (u.cells r c).char := congrFun (congrFun hchars r) c
    rw [← hs.cells, ← ha.cells] at hchar ⊢
    have hflag : flags s.bgstar (80 * r.val + c.val) = asmFlags a.bgstar (80 * r.val + c.val) := by
      rw [flags, asmFlags, if_pos hp, if_pos hp]
      exact hflags _ hp
    exact congrArg₂ Cell.mk hchar hflag
  · intro hcells
    refine ⟨congrArg (fun cells => Grid.map Cell.char cells) hcells, fun p hp => ?_⟩
    have hplane : Grid.ofPlane (plane s.toVideo) = Grid.ofPlane (asmPlane a.toVideo) :=
      hs.cells.trans (hcells.trans ha.cells.symm)
    have hflag := congrArg Cell.flag (Grid.ofPlane_inj hplane hp)
    have hflag' : flags s.bgstar p = asmFlags a.bgstar p := hflag
    rwa [flags, asmFlags, if_pos hp, if_pos hp] at hflag'

/-- The two drivers give the codes `0x13` to `0x16` different meanings: after `0x13` and
a character only the C driver has flagged it. -/
theorem drivers_flag_differently :
    ¬ ∀ (config : Config) (stream : List Byte),
      SameScreen (runC config stream) (runAsm config stream) ∧
        SameFlags (runC config stream) (runAsm config stream) := by
  intro hsame
  have hflag := (hsame ⟨0#8, id⟩ [0x13#8, 0x41#8]).2 0 (by decide)
  have hc : flagAt (runC ⟨0#8, id⟩ [0x13#8, 0x41#8]).bgstar 0 = true := by decide +kernel
  have ha : asmFlagAt (runAsm ⟨0#8, id⟩ [0x13#8, 0x41#8]).bgstar 0 = false := by
    decide
  rw [hc, ha] at hflag
  exact absurd hflag (by decide)

/-- **The C driver and the assembler driver agree**, the codes renamed: on the cursor for
every stream, on the screen if the foreground is not cleared, and on the screen and the
flagged cells all along if and only if no byte comes to a place where the assembler
driver has its own way with flags. -/
theorem drivers_agree (config : Config) (stream : List Byte) :
    SameCursor (runC config stream) (runAsm config (forMac 0 stream)) ∧
      (Avoids [0x15] 0 stream →
        SameScreen (runC config stream) (runAsm config (forMac 0 stream))) ∧
      ((∀ front, front <+: stream →
          SameScreen (runC config front) (runAsm config (forMac 0 front)) ∧
            SameFlags (runC config front) (runAsm config (forMac 0 front))) ↔
        Terminal.NoSlips config cleared stream) := by
  have hc := runC_refines config
  have ha := fun stream => runAsm_shows config (forMac 0 stream)
  have hplaces : ∀ stream, Terminal.Similar (fun _ => ())
      (stream.foldl (Terminal.step config) cleared)
      ((forMac 0 stream).foldl (Terminal.stepMac config) cleared) :=
    fun stream => (Terminal.Similar.refl cleared).all config (.inr fun _ _ => rfl)
  refine ⟨⟨?_, ?_⟩, fun havoids => ?_, ?_⟩
  · rw [(hc stream).curx, (ha stream).cctad, (hplaces stream).x]
  · rw [(hc stream).cursy, (ha stream).cursy, (hplaces stream).y]
  · have hchars : Terminal.Similar id (stream.foldl (Terminal.step config) cleared)
        ((forMac 0 stream).foldl (Terminal.stepMac config) cleared) :=
      (Terminal.Similar.refl cleared).all config (.inl havoids)
    exact (sameScreen_iff (hc stream) (ha stream) hchars.x hchars.y).mpr hchars.cells
  · rw [← Terminal.noSlips_iff]
    refine forall₂_congr fun front _ => ?_
    exact same_iff (hc front) (ha front) (hplaces front).x (hplaces front).y

/-- Background and foreground mode, the foreground cleared, semigraphics, cursor
addressing (with a coordinate byte `0x15`), a line inserted, and the rest of the screen
erased. -/
theorem drivers_agree_addressed :
    let stream := [0x13#8, 0x41#8, 0x84#8, 0x14#8, 0x42#8, 0x15#8, 0x06#8, 0x15#8, 0x38#8,
      0x43#8, 0x01#8, 0x1D#8, 0x18#8, 0x1F#8]
    Terminal.NoSlips ⟨1#8, id⟩ cleared stream ∧
      flagAt (runC ⟨1#8, id⟩ stream).bgstar 0 = true ∧
      SameScreen (runC ⟨1#8, id⟩ stream) (runAsm ⟨1#8, id⟩ (forMac 0 stream)) ∧
      SameFlags (runC ⟨1#8, id⟩ stream) (runAsm ⟨1#8, id⟩ (forMac 0 stream)) := by
  intro stream
  have hnone : Terminal.NoSlips ⟨1#8, id⟩ cleared stream := by decide +kernel
  have hflag : flags (runC ⟨1#8, id⟩ stream).bgstar 0 =
      ((stream.foldl (Terminal.step ⟨1#8, id⟩) cleared).cells 0 0).flag :=
    congrArg Cell.flag (congrFun (congrFun (runC_refines ⟨1#8, id⟩ stream).cells 0) 0)
  rw [flags, if_pos (by decide)] at hflag
  exact ⟨hnone, hflag.trans (by decide),
    (drivers_agree _ _).2.2.mpr hnone stream (List.prefix_refl stream)⟩

/-- The three places: the group of flags behind the cursor's is not cleared by `ESCK`,
the character that scrolls the screen is flagged where it was, and `ESCSB` keeps the
flags of the time before. -/
theorem drivers_slip :
    let erased := [0x13#8, 0x41#8, 0x41#8, 0x41#8, 0x41#8, 0x41#8, 0x41#8, 0x41#8, 0x41#8,
      0x41#8, 0x0D#8, 0x1E#8]
    let scrolled := [0x13#8, 0x06#8, 0x6F#8, 0x38#8, 0x41#8]
    let entered := [0x13#8, 0x41#8, 0x13#8]
    (flagAt (runC ⟨0#8, id⟩ erased).bgstar 8 = false ∧
        asmFlagAt (runAsm ⟨0#8, id⟩ (forMac 0 erased)).bgstar 8 = true) ∧
      (flagAt (runC ⟨0#8, id⟩ scrolled).bgstar 1999 = false ∧
        asmFlagAt (runAsm ⟨0#8, id⟩ (forMac 0 scrolled)).bgstar 1999 = true) ∧
      flagAt (runC ⟨0#8, id⟩ entered).bgstar 0 = false ∧
        asmFlagAt (runAsm ⟨0#8, id⟩ (forMac 0 entered)).bgstar 0 = true := by
  decide +kernel

end Console
end Rc700
