import Rc700.Console.AssemblerCells

/-!
# The terminal of the assembler driver

`Terminal.stepMac` is the terminal that the assembler driver shows, with its codes for
the background, `0x14` to `0x16`, and its way with flags where that is its own: `ESCK`
repeats flags (`eraseCharsToEol`), `DISPL` flags the position of the character after
the screen has scrolled, and `ESCSB` keeps the flags that are there.  The driver's
variables represent it after every stream (`Shows.conoutAll`).
-/

namespace Rc700
namespace Console

open Library

namespace Terminal

/-- Clear the characters of the row from the cursor on.  Of the flags those in the
cursor's group of eight are cleared, and the next group is repeated behind it. -/
def eraseCharsToEol (x : Fin 80) (y : Fin 25) (g : Grid Cell) : Grid Cell := fun r c =>
  if r = y ∧ x ≤ c then
    ⟨0x20#8, if c.val / 8 = x.val / 8 then false
      else (g r ⟨(8 * (x.val / 8 + 1) + c.val % 8) % 80, Nat.mod_lt _ (Nat.zero_lt_succ 79)⟩).flag⟩
  else g r c

/-- Show a character; in background mode flag the position it had. -/
def displayMac (config : Config) (b : Byte) (t : Terminal) : Terminal :=
  let (ch, graph) := convert config t.graph b
  let shown := right { t with
    graph := graph
    cells := t.cells.put t.x t.y (fun cell => ⟨ch, cell.flag⟩) }
  if t.mode = .background then
    { shown with cells := shown.cells.put t.x t.y (fun cell => ⟨cell.char, true⟩) }
  else shown

/-- Control codes. -/
def controlMac (code : Nat) (t : Terminal) : Terminal :=
  match code with
  | 0x13 => t
  | 0x14 => { t with mode := .background }
  | 0x15 => { t with mode := .foreground }
  | 0x16 => { t with cells := fun r c => if (t.cells r c).flag then t.cells r c else blank }
  | 0x1E => { t with cells := eraseCharsToEol t.x t.y t.cells }
  | code => control code t

/-- One byte sent to the terminal. -/
def stepMac (config : Config) (t : Terminal) (b : Byte) : Terminal :=
  match t.coord with
  | .first => { t with coord := .second (coordinate b) }
  | .second adr0 =>
      if config.adrmod = 0#8 then place adr0 (coordinate b) t
      else place (coordinate b) adr0 t
  | .idle => if b.toNat < 32 then controlMac b.toNat t else displayMac config b t

end Terminal

/-! ### Representation -/

/-- Characters and flags of the screen as one plane of cells. -/
def asmPlane (v : Video) : Nat → Cell := zipWith Cell.mk v.screen (asmFlags v.bgstar)

namespace Asm

/-- The variables of the assembler driver represent the terminal. -/
structure Shows (s : Asm) (t : Terminal) : Prop where
  cells : Grid.ofPlane (asmPlane s.toVideo) = t.cells
  cctad : s.cctad = t.x.val
  cursy : s.cursy = t.y.val
  rctad : s.rctad = 80 * t.y.val
  mode : s.bgflg = t.mode
  graph : (s.graph != 0#8) = t.graph
  coord : coordOf s.xflg s.adr0 = t.coord
  xflg : s.xflg ≤ 2
  adr0 : s.adr0 < 256
  off : NoAsmFlags s.bgflg s.toVideo
  /-- While coordinates are awaited the cursor is on the first row. -/
  home : s.xflg ≠ 0 → s.rctad = 0

variable {s : Asm} {t : Terminal} {v : Video} {config : Config}

/-- An operation on cells. -/
theorem Shows.withCells (hs : Shows s t) {cells' : Grid Cell}
    (hcells : Grid.ofPlane (asmPlane v) = cells') (hoff : NoAsmFlags s.bgflg v) :
    Shows (s.withVideo v) { t with cells := cells' } :=
  { hs with cells := hcells, off := hoff }

/-- The cursor is moved. -/
theorem Shows.moved (hs : Shows s t) (hidle : s.xflg = 0) (x : Fin 80) (y : Fin 25)
    {cctad cursy rctad : Nat} (hx : cctad = x.val) (hcursy : cursy = y.val)
    (hrctad : rctad = 80 * y.val) :
    Shows { s with cctad := cctad, cursy := cursy, rctad := rctad } { t with x := x, y := y } :=
  { hs with
    cctad := hx
    cursy := hcursy
    rctad := hrctad
    home := fun hbusy => absurd hidle hbusy }

theorem Shows.scroll (hs : Shows s t) :
    Shows (scroll s) { t with cells := t.cells.scroll blank } := by
  apply hs.withCells
  · rw [asmPlane, scrollAsm_screen, scrollAsm_flags hs.off, zipWith_fillRange, zipWith_copyRange,
      ← hs.cells]
    exact Grid.ofPlane_scroll _ _
  · intro hoff
    rw [scrollAsm_flags hs.off, hs.off hoff, copyRange_const, fillRange_const]

theorem Shows.escb (hs : Shows s t) (hidle : s.xflg = 0) : Shows (escb s) t.down := by
  have hrctad := hs.rctad
  have hcursy := hs.cursy
  unfold Asm.escb Terminal.down
  by_cases hlast : t.y.val + 1 < 25
  · rw [if_pos (by omega), dif_pos hlast]
    apply hs.moved hidle t.x ⟨t.y.val + 1, hlast⟩ hs.cctad
    · show (s.cursy + 1) % 256 = t.y.val + 1
      omega
    · show (s.rctad + 80) % 65536 = 80 * (t.y.val + 1)
      omega
  · rw [if_neg (by omega), dif_neg hlast]
    exact hs.scroll

theorem Shows.escc (hs : Shows s t) (hidle : s.xflg = 0) : Shows (escc s) t.right := by
  have hcctad := hs.cctad
  have hcol := t.x.isLt
  unfold Asm.escc Terminal.right
  by_cases hlast : t.x.val + 1 < 80
  · rw [if_pos (by omega), dif_pos hlast]
    apply hs.moved hidle ⟨t.x.val + 1, hlast⟩ t.y _ hs.cursy hs.rctad
    show (s.cctad + 1) % 256 = t.x.val + 1
    omega
  · rw [if_neg (by omega), dif_neg hlast]
    have hfirst : Shows { s with cctad := 0 } { t with x := 0 } :=
      hs.moved hidle 0 t.y rfl hs.cursy hs.rctad
    exact hfirst.escb hidle

theorem Shows.esca (hs : Shows s t) (hidle : s.xflg = 0) : Shows (esca s) t.up := by
  have hrctad := hs.rctad
  have hcursy := hs.cursy
  unfold Asm.esca Terminal.up
  by_cases htop : t.y.val = 0
  · rw [if_neg (by omega), if_pos htop]
    exact hs.moved hidle t.x 24 hs.cctad rfl rfl
  · rw [if_pos (by omega), if_neg htop]
    apply hs.moved hidle t.x ⟨t.y.val - 1, by omega⟩ hs.cctad
    · show (s.cursy + 255) % 256 = t.y.val - 1
      omega
    · show (s.rctad + 65536 - 80) % 65536 = 80 * (t.y.val - 1)
      omega

theorem Shows.escd (hs : Shows s t) (hidle : s.xflg = 0) : Shows (escd s) t.left := by
  have hcctad := hs.cctad
  have hcol := t.x.isLt
  unfold Asm.escd Terminal.left
  by_cases hfirst : t.x.val = 0
  · rw [if_neg (by omega), if_pos hfirst]
    have hlast : Shows { s with cctad := 79 } { t with x := 79 } :=
      hs.moved hidle 79 t.y rfl hs.cursy hs.rctad
    exact hlast.esca hidle
  · rw [if_pos (by omega), if_neg hfirst]
    apply hs.moved hidle ⟨t.x.val - 1, by omega⟩ t.y _ hs.cursy hs.rctad
    show (s.cctad + 255) % 256 = t.x.val - 1
    omega

theorem escc_xflg : (escc s).xflg = s.xflg := by
  unfold Asm.escc
  split
  · rfl
  · dsimp only
    split <;> rfl

theorem Shows.ctab (hs : Shows s t) (hidle : s.xflg = 0) :
    Shows (ctab s) t.right.right.right.right := by
  have hone := hs.escc hidle
  have htwo := hone.escc (by rw [escc_xflg, hidle])
  have hthree := htwo.escc (by rw [escc_xflg, escc_xflg, hidle])
  exact hthree.escc (by rw [escc_xflg, escc_xflg, escc_xflg, hidle])

/-! ### Operations on cells -/

theorem Shows.escil (hs : Shows s t) :
    Shows (s.withVideo (s.toVideo.escil s.bgflg s.rctad))
      { t with cells := t.cells.insertLine blank t.y } := by
  rw [hs.rctad]
  apply hs.withCells
  · rw [asmPlane, escil_screen, escil_flags hs.off, zipWith_fillRange, zipWith_copyRange,
      ← hs.cells]
    exact Grid.ofPlane_insertLine _ _ _
  · intro hoff
    rw [escil_flags hs.off, hs.off hoff, copyRange_const, fillRange_const]

theorem Shows.escdl (hs : Shows s t) :
    Shows (s.withVideo (s.toVideo.escdl s.bgflg s.rctad))
      { t with cells := t.cells.deleteLine blank t.y } := by
  rw [hs.rctad]
  apply hs.withCells
  · rw [asmPlane, escdl_screen, escdl_flags hs.off, zipWith_fillRange, zipWith_copyRange,
      ← hs.cells]
    exact Grid.ofPlane_deleteLine _ _ _
  · intro hoff
    rw [escdl_flags hs.off, hs.off hoff, copyRange_const, fillRange_const]

theorem Shows.escy (hs : Shows s t) :
    Shows (s.withVideo (s.toVideo.escy s.bgflg s.rctad s.cctad))
      { t with cells := t.cells.eraseToEos blank t.x t.y } := by
  rw [hs.rctad, hs.cctad]
  apply hs.withCells
  · rw [asmPlane, escy_screen, escy_flags hs.off, zipWith_fillRange, ← hs.cells]
    exact Grid.ofPlane_eraseToEos _ _ _ _
  · intro hoff
    rw [escy_flags hs.off, hs.off hoff, fillRange_const]

theorem Shows.esck (hs : Shows s t) :
    Shows (s.withVideo (s.toVideo.esck s.bgflg s.rctad s.cctad))
      { t with cells := Terminal.eraseCharsToEol t.x t.y t.cells } := by
  rw [hs.rctad, hs.cctad]
  have hflags := esck_flags hs.off t.x t.y
  apply hs.withCells
  · rw [← hs.cells]
    funext r c
    have hr := r.isLt
    have hc := c.isLt
    have hx := t.x.isLt
    show Cell.mk ((s.toVideo.esck s.bgflg (80 * t.y.val) t.x.val).screen (80 * r.val + c.val))
      (asmFlags (s.toVideo.esck s.bgflg (80 * t.y.val) t.x.val).bgstar (80 * r.val + c.val)) = _
    rw [esck_screen, hflags]
    unfold Terminal.eraseCharsToEol fillRange
    dsimp only
    by_cases hcell : r = t.y ∧ t.x ≤ c
    · have hrow : r.val = t.y.val := congrArg Fin.val hcell.1
      have hcol : t.x.val ≤ c.val := hcell.2
      have hbit : (80 * r.val + c.val) % 8 = c.val % 8 := by omega
      have hsub : 80 * r.val + c.val - 80 * t.y.val = c.val := by omega
      have hfilled : 80 * t.y.val + t.x.val ≤ 80 * r.val + c.val ∧
          80 * r.val + c.val < 80 * t.y.val + t.x.val + (80 - t.x.val) := by omega
      have herased : 80 * t.y.val + t.x.val ≤ 80 * r.val + c.val ∧
          80 * r.val + c.val < 80 * t.y.val + 80 := by omega
      rw [if_pos hfilled, if_pos herased, if_pos hcell, hbit, hsub]
      congr 1
      split
      · rfl
      · next hgroup =>
        have hnext : (8 * (t.x.val / 8 + 1) + c.val % 8) % 80 =
            8 * (t.x.val / 8 + 1) + c.val % 8 := by omega
        show _ = asmFlags s.bgstar (80 * r.val + (8 * (t.x.val / 8 + 1) + c.val % 8) % 80)
        rw [hnext, hrow, Nat.add_assoc]
    · have hcell' : ¬ (r.val = t.y.val ∧ t.x.val ≤ c.val) :=
        fun h => hcell ⟨Fin.ext h.1, h.2⟩
      have hfilled : ¬ (80 * t.y.val + t.x.val ≤ 80 * r.val + c.val ∧
          80 * r.val + c.val < 80 * t.y.val + t.x.val + (80 - t.x.val)) := by omega
      have herased : ¬ (80 * t.y.val + t.x.val ≤ 80 * r.val + c.val ∧
          80 * r.val + c.val < 80 * t.y.val + 80) := by omega
      rw [if_neg hfilled, if_neg herased, if_neg hcell]
      rfl
  · intro hoff
    rw [hflags, hs.off hoff]
    funext p
    split
    · split <;> rfl
    · rfl

theorem Shows.esccf (hs : Shows s t) :
    Shows (s.withVideo s.toVideo.esccf)
      { t with cells := fun r c => if (t.cells r c).flag then t.cells r c else blank } := by
  apply hs.withCells
  · rw [← hs.cells]
    funext r c
    have hr := r.isLt
    have hc := c.isLt
    have hp : 80 * r.val + c.val < 2000 := by omega
    have hflag : asmFlags s.bgstar (80 * r.val + c.val) =
        asmFlagAt s.bgstar (80 * r.val + c.val) := if_pos hp
    show Cell.mk ((s.toVideo.esccfFrom 250 0 (8 * 0)).screen (80 * r.val + c.val))
        (asmFlags s.toVideo.esccf.bgstar (80 * r.val + c.val)) =
      if asmFlags s.bgstar (80 * r.val + c.val) then
        ⟨s.screen (80 * r.val + c.val), asmFlags s.bgstar (80 * r.val + c.val)⟩ else blank
    rw [esccfFrom_screen, esccf_bgstar, hflag]
    by_cases hset : asmFlagAt s.bgstar (80 * r.val + c.val) = true
    · simp [hset]
    · have hclear : asmFlagAt s.bgstar (80 * r.val + c.val) = false := by simpa using hset
      dsimp only
      rw [if_neg hset, if_pos ⟨by omega, by omega, hclear⟩, hclear]
      rfl
  · intro hoff
    rw [esccf_bgstar]
    exact hs.off hoff

theorem Shows.esce (hs : Shows s t) :
    Shows (esce s) { t with cells := fun _ _ => blank, x := 0, y := 0, mode := .off } where
  cells := by
    have hplane : asmPlane (s.toVideo.esce s.bgflg) =
        zipWith Cell.mk (fillRange 0 2000 32#8 s.screen)
          (fillRange 0 2000 false fun _ => false) := by
      rw [asmPlane, esce_screen, esce_flags hs.off, fillRange_const]
    rw [zipWith_fillRange] at hplane
    exact (congrArg Grid.ofPlane hplane).trans (Grid.ofPlane_clear _ _)
  cctad := rfl
  cursy := rfl
  rctad := rfl
  mode := rfl
  graph := hs.graph
  coord := hs.coord
  xflg := hs.xflg
  adr0 := hs.adr0
  off := fun _ => esce_flags hs.off
  home := fun _ => rfl

/-! ### Control codes -/

theorem Shows.tab1 (hs : Shows s t) (hidle : s.xflg = 0) (code : Nat) :
    Shows (tab1 code s) (t.controlMac code) := by
  unfold Asm.tab1
  -- one case for each entry of TAB1, in its order
  split
  · exact hs.escil
  · exact hs.escdl
  · exact hs.escd hidle
  · exact { hs with
      cctad := rfl
      cursy := rfl
      rctad := rfl
      coord := rfl
      xflg := le_refl 2
      home := fun _ => rfl }
  · exact { hs with }
  · exact hs.escd hidle
  · exact hs.ctab hidle
  · exact hs.escb hidle
  · exact hs.esce
  · exact hs.moved hidle 0 t.y rfl hs.cursy hs.rctad
  · exact { hs with mode := rfl, off := nofun }
  · exact { hs with mode := rfl, off := nofun }
  · exact hs.esccf
  · exact hs.escc hidle
  · exact hs.esca hidle
  · exact hs.moved hidle 0 0 rfl rfl rfl
  · exact hs.esck
  · exact hs.escy
  · -- no other code has a meaning to the terminal either
    have hother : t.controlMac code = t := by
      unfold Terminal.controlMac
      split
      · rfl
      · contradiction
      · contradiction
      · contradiction
      · contradiction
      · unfold Terminal.control
        split <;> first | rfl | contradiction
    rw [hother]
    exact hs

/-! ### Characters and coordinates -/

/-- A character is stored. -/
theorem Shows.put (hs : Shows s t) {p : Nat} (hp : p = 80 * t.y.val + t.x.val) (ch : Byte) :
    Shows (s.withVideo (s.toVideo.poke .screen p ch))
      { t with cells := t.cells.put t.x t.y (fun cell => ⟨ch, cell.flag⟩) } := by
  apply hs.withCells
  · rw [← hs.cells, ← Grid.ofPlane_put, ← hp]
    congr 1
    funext a
    by_cases ha : a = p
    · subst ha
      simp [asmPlane, zipWith]
    · simp [ha, asmPlane, zipWith]
  · exact hs.off

/-- In background mode the position of a character is flagged. -/
theorem Shows.flagged (hs : Shows s t) (x : Fin 80) (y : Fin 25) {p : Nat}
    (hp : p = 80 * y.val + x.val) :
    Shows (if s.bgflg = .background then
        s.withVideo (s.toVideo.poke .bgstar (p / 8)
          (s.bgstar (p / 8) ||| BitVec.ofNat 8 (2 ^ (p % 8)))) else s)
      (if t.mode = .background then
        { t with cells := t.cells.put x y (fun cell => ⟨cell.char, true⟩) } else t) := by
  have hx := x.isLt
  have hy := y.isLt
  rw [hs.mode]
  split
  · next hmode =>
    apply hs.withCells
    · rw [← hs.cells, ← Grid.ofPlane_put, ← hp]
      congr 1
      funext a
      have hflags := congrFun (asmFlags_setBit (show p < 2000 by omega) s.bgstar) a
      by_cases ha : a = p
      · subst ha
        simpa [asmPlane, zipWith] using hflags
      · rw [Function.update_of_ne ha] at hflags
        simpa [ha, asmPlane, zipWith] using hflags
    · intro hoff
      rw [hs.mode, hmode] at hoff
      exact BgFlg.noConfusion hoff
  · exact hs

theorem escc_locad : (Asm.escc s).locad = s.locad := by
  unfold Asm.escc
  split
  · rfl
  · dsimp only
    split <;> rfl

/-- The character is stored, the cursor is moved, and then the flag is set. -/
theorem Shows.shown (hs : Shows s t) (hidle : s.xflg = 0)
    (hlocad : s.locad = 80 * t.y.val + t.x.val) (ch : Byte) :
    let s' := Asm.escc (s.withVideo (s.toVideo.poke .screen s.locad ch))
    let t' := Terminal.right
      { t with cells := t.cells.put t.x t.y (fun cell => ⟨ch, cell.flag⟩) }
    Shows (if s'.bgflg = .background then
        s'.withVideo (s'.toVideo.poke .bgstar (s'.locad / 8)
          (s'.bgstar (s'.locad / 8) ||| BitVec.ofNat 8 (2 ^ (s'.locad % 8)))) else s')
      (if t.mode = .background then
        { t' with cells := t'.cells.put t.x t.y (fun cell => ⟨cell.char, true⟩) } else t') := by
  intro s' t'
  have hput : Shows s' t' := (hs.put hlocad ch).escc hidle
  have hmode : t'.mode = t.mode := Terminal.right_mode
  have hplace : s'.locad = 80 * t.y.val + t.x.val := escc_locad.trans hlocad
  rw [← hmode]
  exact hput.flagged t.x t.y hplace

theorem Shows.displ (hs : Shows s t) (hidle : s.xflg = 0) :
    Shows (displ config s) (t.displayMac config s.usher) := by
  have hx := t.x.isLt
  have hlocad : (s.rctad + s.cctad) % 65536 = 80 * t.y.val + t.x.val := by
    rw [hs.rctad, hs.cctad]
    omega
  unfold Asm.displ Terminal.displayMac
  rw [convert_eq hs.graph]
  simp only [hlocad]
  generalize (if 192 ≤ s.usher.toNat then s.usher - 192#8 else s.usher) = ch
  by_cases hsemi : 128 ≤ ch.toNat
  · simp only [if_pos hsemi]
    have hs' : Shows { s with locad := 80 * t.y.val + t.x.val, graph := ch &&& 4#8 }
        { t with graph := ch &&& 4#8 != 0#8 } := { hs with graph := rfl }
    exact hs'.shown hidle rfl ch
  · have hs' : Shows { s with locad := 80 * t.y.val + t.x.val } t := { hs with }
    by_cases hgraph : s.graph = 0#8
    · simp only [if_neg hsemi, if_pos hgraph, if_neg (not_not.mpr hgraph)]
      exact hs'.shown hidle rfl (config.outcon ch)
    · simp only [if_neg hsemi, if_neg hgraph, if_pos hgraph]
      exact hs'.shown hidle rfl ch

theorem Shows.xyadd_first (hs : Shows s t) (hfirst : s.xflg = 2) :
    Shows (xyadd config s) { t with coord := .second (Terminal.coordinate s.usher) } := by
  have hxflg : (s.xflg + 255) % 256 = 1 := by omega
  simp only [Asm.xyadd, hxflg]
  rw [if_pos Nat.one_ne_zero]
  exact { hs with
    coord := rfl
    xflg := Nat.le_succ 1
    adr0 := BitVec.isLt _
    home := fun _ => hs.home (by omega) }

theorem Shows.xyadd_second (hs : Shows s t) (hsecond : s.xflg = 1) :
    Shows (xyadd config s)
      (if config.adrmod = 0#8 then t.place s.adr0 (Terminal.coordinate s.usher)
        else t.place (Terminal.coordinate s.usher) s.adr0) := by
  have hval : Terminal.coordinate s.usher < 256 := BitVec.isLt _
  have hadr0 := hs.adr0
  have hrow := hs.home (by omega)
  -- both coordinates are reduced, and the order of the two is chosen afterwards
  have hplace : ∀ h d : Nat, h < 256 → d < 256 →
      Shows (if reduceBelow 25 256 d = 0 then
          { s with xflg := 0, cctad := reduceBelow 80 256 h, cursy := reduceBelow 25 256 d }
        else
          { s with
            xflg := 0
            cctad := reduceBelow 80 256 h
            cursy := reduceBelow 25 256 d
            rctad := (s.rctad + 80 * reduceBelow 25 256 d) % 65536 }) (t.place h d) := by
    intro h d hh hd
    rw [reduceBelow_eq (by omega), reduceBelow_eq (by omega), hrow]
    split
    -- in the first row there is nothing to add to RCTAD
    · next hzero =>
      exact { hs with
        cctad := rfl
        cursy := rfl
        rctad := show 0 = 80 * (d % 25) by rw [hzero]
        coord := rfl
        xflg := Nat.zero_le 2
        home := fun _ => rfl }
    · have hsum : (0 + 80 * (d % 25)) % 65536 = 80 * (d % 25) := by omega
      exact { hs with
        cctad := rfl
        cursy := rfl
        rctad := hsum
        coord := rfl
        xflg := Nat.zero_le 2
        home := fun hbusy => absurd rfl hbusy }
  have hxflg : (s.xflg + 255) % 256 = 0 := by omega
  simp only [Asm.xyadd, hxflg]
  by_cases hmode : config.adrmod = 0#8
  · simp only [if_pos hmode]
    exact hplace s.adr0 (Terminal.coordinate s.usher) hadr0 hval
  · simp only [if_neg hmode]
    exact hplace (Terminal.coordinate s.usher) s.adr0 hval hadr0

/-- **One byte.** -/
theorem Shows.conout (hs : Shows s t) (c : Byte) :
    Shows (conout config s c) (t.stepMac config c) := by
  have hs' : Shows { s with usher := c } t := { hs with }
  have hcoord := hs.coord
  have hxflg := hs.xflg
  unfold coordOf at hcoord
  simp only [Asm.conout, Terminal.stepMac]
  by_cases hidle : s.xflg = 0
  · rw [if_pos hidle] at hcoord
    rw [if_neg (not_not.mpr hidle), ← hcoord]
    dsimp only
    split
    · have hidle' : Shows { s with usher := c, xflg := 0 } t := by
        rw [← hidle]
        exact hs'
      exact hidle'.tab1 rfl c.toNat
    · exact hs'.displ hidle
  · rw [if_neg hidle] at hcoord
    rw [if_pos hidle]
    by_cases hsecond : s.xflg = 1
    · rw [if_pos hsecond] at hcoord
      rw [← hcoord]
      exact hs'.xyadd_second hsecond
    · rw [if_neg hsecond] at hcoord
      rw [← hcoord]
      exact hs'.xyadd_first (show s.xflg = 2 by omega)

/-- **The assembler driver shows its terminal** after every stream. -/
theorem Shows.conoutAll (hs : Shows s t) (stream : List Byte) :
    Shows (stream.foldl (Asm.conout config) s) (stream.foldl (Terminal.stepMac config) t) := by
  induction stream generalizing s t with
  | nil => exact hs
  | cons c stream ih => exact ih (hs.conout c)

theorem start_shows (screen : Nat → Byte) : Shows (start screen) (Terminal.start screen) where
  cells := by
    have hflags : asmFlags (fun _ => 0#8) = fun _ => false := by
      funext p
      simp [asmFlags, asmFlagAt]
    show Grid.ofPlane (zipWith Cell.mk screen (asmFlags (fun _ => 0#8))) = _
    rw [hflags]
    rfl
  cctad := rfl
  cursy := rfl
  rctad := rfl
  mode := rfl
  graph := rfl
  coord := rfl
  xflg := Nat.zero_le 2
  adr0 := Nat.zero_lt_succ 255
  off := by
    intro _
    funext p
    show asmFlags (fun _ => 0#8) p = false
    simp [asmFlags, asmFlagAt]
  home := fun _ => rfl

end Asm

end Console
end Rc700
