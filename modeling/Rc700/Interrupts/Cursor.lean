import Rc700.Interrupts.Display

/-!
# The hardware cursor

The console asks the display interrupt to program the cursor by setting `cur_dirty`.  The
interrupt takes the flag and the coordinates in one step, and every routine sets the flag
after its last change of them, or starts cursor addressing.  So the cursor is shown where
it is, as soon as nothing is going on (`hardware_cursor_follows`).
-/

namespace Rc700
namespace Interrupts

open Library Console
open Prog (store load)
open Environment (Stable Triple)

/-- The console's code in the whole machine. -/
abbrev onCrt {α : Type} (prog : Prog Crt α) : Prog Bios α :=
  prog.focus Bios.crt fun s crt => { s with crt := crt }

/-- The cursor is where it should be, or will be. -/
def Shown (s : Bios) : Prop := s.crt.curDirty = true ∨ s.cursor = (s.crt.curx, s.crt.cursy)

/-- Unless cursor addressing has begun, the cursor is shown. -/
def Settled (s : Bios) : Prop := s.crt.xflg = 0 → Shown s

/-! ### The interrupt -/

theorem isrCrt_shown {s : Bios} (hs : Shown s) : Shown (isrCrt s) := by
  rw [isrCrt_eq]
  right
  rcases hs with hdirty | hcursor
  · exact if_pos hdirty
  · show (if s.crt.curDirty = true then _ else s.cursor) = _
    rw [hcursor]
    exact ite_self _

theorem isrCrt_xflg (s : Bios) : (isrCrt s).crt.xflg = s.crt.xflg := by rw [isrCrt_eq]

theorem stable_shown : anytime.Stable Shown := stable_of_isrCrt fun _ _ _ => isrCrt_shown

theorem stable_xflg (v : Nat) : anytime.Stable fun s => s.crt.xflg = v :=
  stable_of_isrCrt fun s _ _ hs => (isrCrt_xflg s).trans hs

theorem stable_settled : anytime.Stable Settled := by
  refine stable_of_isrCrt fun s _ _ hs hxflg => isrCrt_shown (hs ?_)
  exact (isrCrt_xflg s).symm.trans hxflg

/-! ### Routines that leave the cursor -/

/-- No access of the code changes the cursor or its flag. -/
structure Quiet {α : Type} (prog : Prog Crt α) : Prop where
  keeps (cursor : Nat × Nat) :
    prog.Keeps fun s => s.curDirty = true ∨ cursor = (s.curx, s.cursy)

theorem Quiet.bind {α β : Type} {prog : Prog Crt α} {k : α → Prog Crt β} (hprog : Quiet prog)
    (hk : ∀ a, Quiet (k a)) : Quiet (prog >>= k) :=
  ⟨fun cursor => (hprog.keeps cursor).bind fun a => (hk a).keeps cursor⟩

theorem quiet_pure {α : Type} (a : α) : Quiet (pure a) := ⟨fun _ => trivial⟩

theorem quiet_load {α : Type} (g : Crt → α) : Quiet (load g) := ⟨fun _ => Prog.keeps_load g⟩

theorem quiet_store {f : Crt → Crt}
    (hf : ∀ s, (f s).curDirty = s.curDirty ∧ (f s).curx = s.curx ∧ (f s).cursy = s.cursy) :
    Quiet (store f) := by
  refine ⟨fun cursor => Prog.keeps_store fun s hs => ?_⟩
  rw [(hf s).1, (hf s).2.1, (hf s).2.2]
  exact hs

theorem quiet_when {c : Prop} [Decidable c] {prog : Prog Crt Unit} (hprog : Quiet prog) :
    Quiet (Prog.when c prog) := by
  unfold Prog.when
  split
  · exact hprog
  · exact quiet_pure ()

theorem quiet_video (f : Video → Video) : Quiet (Accesses.video f) :=
  quiet_store fun _ => ⟨rfl, rfl, rfl⟩

theorem quiet_fillFrom (area : Area) (b : Byte) (n dst : Nat) :
    Quiet (Accesses.fillFrom area b n dst) := by
  induction n generalizing dst with
  | zero => exact quiet_pure ()
  | succ n ih => exact (quiet_video _).bind fun _ => ih (dst + 1)

theorem quiet_copyUp (area : Area) (n src dst : Nat) :
    Quiet (Accesses.copyUp area n src dst) := by
  induction n generalizing src dst with
  | zero => exact quiet_pure ()
  | succ n ih => exact (quiet_video _).bind fun _ => ih (src + 1) (dst + 1)

theorem quiet_copyDown (area : Area) (n src dst : Nat) :
    Quiet (Accesses.copyDown area n src dst) := by
  induction n generalizing src dst with
  | zero => exact quiet_pure ()
  | succ n ih => exact (quiet_video _).bind fun _ => ih (src - 1) (dst - 1)

theorem quiet_memset (area : Area) (dst : Nat) (b : Byte) (n : Nat) :
    Quiet (Accesses.memset area dst b n) :=
  (quiet_video _).bind fun _ => quiet_fillFrom area b n dst

theorem quiet_ldir (area : Area) (src dst n : Nat) : Quiet (Accesses.ldir area src dst n) :=
  (quiet_video _).bind fun _ => quiet_copyUp area n src dst

theorem quiet_lddr (area : Area) (src dst n : Nat) : Quiet (Accesses.lddr area src dst n) :=
  (quiet_video _).bind fun _ => quiet_copyDown area n src dst

theorem quiet_bgClearBytes (byteoff bgclCount : Nat) :
    Quiet (Accesses.bgClearBytes byteoff bgclCount) :=
  (quiet_when (quiet_memset ..)).bind fun _ => quiet_when (quiet_video _)

theorem quiet_bgClearFrom (bgclPos bgclCount : Nat) :
    Quiet (Accesses.bgClearFrom bgclPos bgclCount) := by
  refine (quiet_load _).bind fun bgflg => ?_
  split
  · exact quiet_pure ()
  · split
    · exact (quiet_video _).bind fun _ => quiet_bgClearBytes ..
    · exact quiet_bgClearBytes ..

theorem quiet_scroll : Quiet Accesses.scroll := by
  refine (quiet_ldir ..).bind fun _ => (quiet_memset ..).bind fun _ => ?_
  refine (quiet_load _).bind fun bgflg => quiet_when ?_
  exact (quiet_ldir ..).bind fun _ => quiet_memset ..

theorem quiet_eraseToEol : Quiet Accesses.eraseToEol := by
  refine (quiet_load _).bind fun cury => (quiet_load _).bind fun curx => ?_
  refine (quiet_memset ..).bind fun _ => (quiet_load _).bind fun bgflg => ?_
  exact quiet_when (quiet_bgClearFrom ..)

theorem quiet_eraseToEos : Quiet Accesses.eraseToEos := by
  refine (quiet_load _).bind fun cury => (quiet_load _).bind fun curx => ?_
  refine (quiet_memset ..).bind fun _ => (quiet_load _).bind fun bgflg => ?_
  exact quiet_when (quiet_bgClearFrom ..)

theorem quiet_deleteLine : Quiet Accesses.deleteLine := by
  refine (quiet_load _).bind fun cury => (quiet_when (quiet_ldir ..)).bind fun _ => ?_
  refine (quiet_memset ..).bind fun _ => (quiet_load _).bind fun bgflg => quiet_when ?_
  exact (quiet_when (quiet_ldir ..)).bind fun _ => quiet_memset ..

theorem quiet_insertLine : Quiet Accesses.insertLine := by
  refine (quiet_load _).bind fun cury => (quiet_when (quiet_lddr ..)).bind fun _ => ?_
  refine (quiet_memset ..).bind fun _ => (quiet_load _).bind fun bgflg => quiet_when ?_
  exact (quiet_when (quiet_lddr ..)).bind fun _ => quiet_memset ..

theorem quiet_blankUnset (bits : Byte) (n p : Nat) : Quiet (Accesses.blankUnset bits n p) := by
  induction n generalizing p with
  | zero => exact quiet_pure ()
  | succ n ih => exact (quiet_when (quiet_video _)).bind fun _ => ih (p + 1)

theorem quiet_clearForegroundFrom (n i p : Nat) :
    Quiet (Accesses.clearForegroundFrom n i p) := by
  induction n generalizing i p with
  | zero => exact quiet_pure ()
  | succ n ih =>
      refine (quiet_load _).bind fun bits => (quiet_blankUnset ..).bind fun _ => ?_
      exact ih (i + 1) (p + 8)

/-! ### Routines that show the cursor -/

/-- From a state in `P` the code ends in one in `Q`. -/
structure Leads {α : Type} (P : Bios → Prop) (prog : Prog Crt α) (Q : α → Bios → Prop) :
    Prop where
  triple : anytime.Triple (fun _ => True) P (onCrt prog) Q

/-- Wherever it begins, the code ends with the cursor shown. -/
abbrev Shows (prog : Prog Crt Unit) : Prop := Leads (fun _ => True) prog fun _ => Shown

theorem Leads.bind {α β : Type} {P : Bios → Prop} {Q : α → Bios → Prop}
    {R : β → Bios → Prop} {prog : Prog Crt α} {k : α → Prog Crt β} (hprog : Leads P prog Q)
    (hk : ∀ a, Leads (Q a) (k a) R) : Leads P (prog >>= k) R := by
  refine ⟨?_⟩
  unfold onCrt
  rw [Prog.focus_bind]
  exact Triple.bind hprog.triple fun a => (hk a).triple

theorem Leads.consequence {α : Type} {P P' : Bios → Prop} {Q Q' : α → Bios → Prop}
    {prog : Prog Crt α} (hprog : Leads P prog Q) (hP : ∀ s, P' s → P s)
    (hQ : ∀ a s, Q a s → Q' a s) : Leads P' prog Q' :=
  ⟨hprog.triple.consequence hP hQ⟩

theorem leads_store {P Q : Bios → Prop} {f : Crt → Crt} (hP : anytime.Stable P)
    (hQ : anytime.Stable Q) (hf : ∀ s, P s → Q { s with crt := f s.crt }) :
    Leads P (store f) fun _ => Q :=
  ⟨Triple.store hP (fun _ _ => trivial) hQ (fun _ _ => trivial) hf⟩

theorem leads_load {α : Type} {P : Bios → Prop} {Q : α → Bios → Prop} {g : Crt → α}
    (hP : anytime.Stable P) (hQ : ∀ a, anytime.Stable (Q a)) (hg : ∀ s, P s → Q (g s.crt) s) :
    Leads P (load g) Q :=
  ⟨Triple.load hP (fun _ _ => trivial) hQ (fun _ _ _ => trivial) hg⟩

/-- Whatever the code does, something may follow it that begins anywhere. -/
theorem leads_any {α : Type} (prog : Prog Crt α) :
    Leads (fun _ => True) prog fun _ _ => True :=
  ⟨Triple.keeps Stable.true (Prog.keeps_focus (fun _ _ _ => trivial) prog)⟩

/-- What shows the cursor may follow anything. -/
theorem Leads.anyway {α : Type} {prog : Prog Crt α} {Q : α → Bios → Prop}
    (hprog : Leads (fun _ => True) prog Q) {P : Bios → Prop} : Leads P prog Q :=
  hprog.consequence (fun _ _ => trivial) fun _ _ hs => hs

theorem Leads.after {α β : Type} {prog : Prog Crt α} {k : α → Prog Crt β}
    {Q : β → Bios → Prop} (hk : ∀ a, Leads (fun _ => True) (k a) Q) :
    Leads (fun _ => True) (prog >>= k) Q :=
  (leads_any prog).bind hk

theorem Quiet.leads {α : Type} {prog : Prog Crt α} (hprog : Quiet prog) :
    Leads Shown prog fun _ => Shown := by
  have hkeeps : (onCrt prog).Keeps Shown :=
    Prog.Keeps.focus Bios.crt (fun s crt => { s with crt := crt }) Bios.cursor
      (fun _ _ => rfl) (fun _ _ => rfl) hprog.keeps
  exact ⟨(Triple.keeps stable_shown hkeeps).weaken fun _ _ => trivial⟩

theorem leads_ite {α : Type} {P : Bios → Prop} {Q : α → Bios → Prop} {c : Prop} [Decidable c]
    {yes no : Prog Crt α} (hyes : c → Leads P yes Q) (hno : ¬c → Leads P no Q) :
    Leads P (if c then yes else no) Q := by
  split
  · exact hyes ‹_›
  · exact hno ‹_›

theorem shows_cursorxy : Shows Accesses.cursorxy :=
  leads_store Stable.true stable_shown fun _ _ => .inl rfl

theorem shows_rowup : Shows Accesses.rowup := .after fun _ => .after fun _ => shows_cursorxy

theorem shows_rowdn : Shows Accesses.rowdn := .after fun _ => .after fun _ => shows_cursorxy

theorem shows_lastRow : Shows Accesses.lastRow := .after fun _ => .after fun _ => shows_cursorxy

theorem shows_carriageReturn : Shows Accesses.carriageReturn := .after fun _ => shows_cursorxy

theorem shows_home : Shows Accesses.home := .after fun _ => shows_cursorxy

theorem shows_cursorUp : Shows Accesses.cursorUp :=
  .after fun _ => leads_ite (fun _ => shows_rowup) fun _ => shows_lastRow

theorem shows_cursorLeft : Shows Accesses.cursorLeft :=
  .after fun _ => leads_ite (fun _ => .after fun _ => shows_cursorxy) fun _ =>
    .after fun _ => shows_cursorUp

/-- At the end of the screen the flag is set before the scroll, which leaves the cursor. -/
theorem shows_cursorRight : Shows Accesses.cursorRight := by
  refine .after fun curx => leads_ite (fun _ => .after fun _ => shows_cursorxy) fun _ => ?_
  refine .after fun _ => .after fun cury => leads_ite (fun _ => shows_rowdn) fun _ => ?_
  exact shows_cursorxy.bind fun _ => quiet_scroll.leads

theorem shows_tab : Shows Accesses.tab :=
  .after fun _ => .after fun _ => .after fun _ => shows_cursorRight

/-- The bitmap is cleared after the flag is set. -/
theorem shows_clearScreen : Shows Accesses.clearScreen := by
  refine .after fun _ => .after fun _ => shows_cursorxy.bind fun _ => Quiet.leads ?_
  refine (quiet_load _).bind fun bgflg => quiet_when ?_
  exact Quiet.bind (quiet_store fun _ => ⟨rfl, rfl, rfl⟩) fun _ => quiet_memset ..

theorem leads_cursorDown : Leads Shown Accesses.cursorDown fun _ => Shown :=
  (quiet_load _).leads.bind fun _ => leads_ite (fun _ => shows_rowdn.anyway) fun _ =>
    quiet_scroll.leads

theorem shows_displ (config : Config) : Shows (Accesses.displ config) :=
  .after fun _ => .after fun _ => .after fun _ => .after fun _ => .after fun _ =>
    .after fun _ => shows_cursorRight

/-! ### Cursor addressing -/

/-- The state in which `xflg` has a given value. -/
abbrev Addressing (v : Nat) (s : Bios) : Prop := s.crt.xflg = v

theorem leads_startXy : Leads (fun _ => True) Accesses.startXy fun _ => Addressing 2 := by
  refine (leads_store Stable.true (stable_xflg 2) fun _ _ => rfl).bind fun _ => ?_
  refine (leads_store (stable_xflg 2) (stable_xflg 2) fun _ hs => hs).bind fun _ => ?_
  refine (leads_store (stable_xflg 2) (stable_xflg 2) fun _ hs => hs).bind fun _ => ?_
  exact leads_store (stable_xflg 2) (stable_xflg 2) fun _ hs => hs

theorem Shown.settled {s : Bios} (hs : Shown s) : Settled s := fun _ => hs

theorem Addressing.settled {s : Bios} {v : Nat} (hv : v ≠ 0) (hs : Addressing v s) :
    Settled s :=
  fun hzero => absurd (hs.symm.trans hzero) hv

theorem Leads.settled {P : Bios → Prop} {prog : Prog Crt Unit}
    (hprog : Leads P prog fun _ => Shown) : Leads P prog fun _ => Settled :=
  hprog.consequence (fun _ hs => hs) fun _ _ hs => hs.settled

/-- The first coordinate leaves cursor addressing on, and the second one shows the
cursor. -/
theorem leads_xyadd (config : Config) :
    Leads (fun _ => True) (Accesses.xyadd config) fun _ => Settled := by
  refine .after fun usession => .after fun _ => ?_
  refine (leads_load Stable.true stable_xflg fun _ _ => rfl).bind fun xflg => ?_
  refine leads_ite (fun hfirst => ?_) fun hsecond => ?_
  · refine Leads.consequence (leads_store (stable_xflg xflg) (stable_xflg xflg) fun _ hs => hs)
      (fun _ hs => hs) fun _ _ hs => Addressing.settled hfirst hs
  · refine Leads.settled (Leads.anyway ?_)
    exact .after fun adr0 => .after fun _ => .after fun _ => .after fun _ => shows_cursorxy

/-! ### CONOUT -/

theorem leads_specc : Leads Shown Accesses.specc fun _ => Settled := by
  refine Leads.bind (Quiet.leads (quiet_store fun _ => ⟨rfl, rfl, rfl⟩)) fun _ => ?_
  refine (quiet_load _).leads.bind fun usession => ?_
  split
  · exact shows_carriageReturn.anyway.settled
  · exact leads_cursorDown.settled
  · exact leads_startXy.consequence (fun _ _ => trivial) fun _ _ hs =>
      Addressing.settled (by decide) hs
  · exact shows_cursorLeft.anyway.settled
  · exact shows_cursorLeft.anyway.settled
  · exact shows_tab.anyway.settled
  · exact shows_cursorRight.anyway.settled
  · exact shows_cursorUp.anyway.settled
  · exact shows_clearScreen.anyway.settled
  · exact shows_home.anyway.settled
  · exact quiet_eraseToEol.leads.settled
  · exact quiet_eraseToEos.leads.settled
  · exact quiet_insertLine.leads.settled
  · exact quiet_deleteLine.leads.settled
  · exact Leads.settled (Quiet.leads (quiet_store fun _ => ⟨rfl, rfl, rfl⟩))
  · refine Leads.settled (Quiet.leads (Quiet.bind (quiet_store fun _ => ⟨rfl, rfl, rfl⟩) ?_))
    exact fun _ => quiet_memset ..
  · exact Leads.settled (Quiet.leads (quiet_store fun _ => ⟨rfl, rfl, rfl⟩))
  · exact Leads.settled (Quiet.leads (quiet_clearForegroundFrom 250 0 0))
  · exact Leads.settled (Quiet.leads (quiet_pure ()))

theorem leads_conoutCrt (config : Config) (c : Byte) :
    Leads Settled (Accesses.conoutCrt config c) fun _ => Settled := by
  refine (leads_store stable_settled stable_settled fun _ hs => hs).bind fun _ => ?_
  refine (leads_load stable_settled (fun v => (stable_xflg v).and stable_settled)
    fun _ hs => ⟨rfl, hs⟩).bind fun xflg => ?_
  refine leads_ite (fun _ => (leads_xyadd config).anyway) fun hzero => ?_
  -- no coordinate is awaited, so that the cursor is shown
  have hshown : ∀ s, Addressing xflg s ∧ Settled s → Shown s :=
    fun s hs => hs.2 (hs.1.trans (not_not.mp hzero))
  refine Leads.consequence ((quiet_load _).leads.bind fun usession => ?_) hshown fun _ _ hs => hs
  refine leads_ite (fun _ => leads_specc) fun _ => ?_
  exact (shows_displ config).anyway.settled

theorem leads_biosConoutC (config : Config) (con : Con) (c : Byte) :
    Leads Settled (Accesses.biosConoutC config con c) fun _ => Settled := by
  cases con with
  | tty =>
      exact (leads_store stable_settled stable_settled fun _ hs => hs).bind fun _ =>
        leads_conoutCrt config c
  | crt => exact leads_conoutCrt config c
  | bat => exact leads_store stable_settled stable_settled fun _ hs => hs
  | uc1 =>
      exact (leads_store stable_settled stable_settled fun _ hs => hs).bind fun _ =>
        leads_conoutCrt config c

/-! ### All calls -/

/-- Between calls, and during every call but `CONOUT`, the cursor is settled. -/
theorem respects_settled (config : Config) :
    Served.Respects anytime (body config) Settled fun c s =>
      match c with
      | .conout _ _ => True
      | _ => Settled s where
  stable := stable_settled
  triple := by
    intro c
    cases c with
    | conout con c => exact (leads_biosConoutC config con c).triple
    | clock a de hl =>
        exact Triple.keeps stable_settled (keeps_biosClock
          (fun _ _ _ hs => ⟨hs, hs, hs, hs⟩) (fun _ _ hs => hs) (fun _ _ hs => hs)
          (fun _ _ hs => hs) a de hl)
    | exit hl de =>
        exact Triple.keeps stable_settled (keeps_biosExit (fun _ _ _ hs => ⟨hs, hs⟩)
          (fun _ _ hs => hs) (fun _ _ hs => hs) hl de)
    | fdstar =>
        exact Triple.keeps stable_settled (keeps_fdstar (fun _ _ _ hs => hs) (fun _ _ hs => hs)
          (fun _ _ hs => hs) (fun _ _ hs => hs) fun _ _ hs => hs)

/-- A call of `CONOUT` is being served. -/
def InConout (x : Served Bios Call) : Prop := ∃ con c prog, x.main = some (.conout con c, prog)

/-- **The hardware cursor follows the logical cursor.**  In every run of calls and
interrupts, whenever `CONOUT` is not running, no coordinate is awaited and the flag is down,
the position programmed last into the 8275 is that of the cursor. -/
theorem hardware_cursor_follows (config : Config) (screen : Nat → Byte) (mini motor : Bool)
    (stptim : Word) (events : List Event) :
    let x := run config (start screen mini motor stptim) events
    ¬InConout x → x.shared.crt.xflg = 0 → x.shared.crt.curDirty = false →
      x.shared.cursor = (x.shared.crt.curx, x.shared.crt.cursy) := by
  intro x hmain hxflg hclean
  have hholds : Served.Holds anytime Settled _ x :=
    (respects_settled config).holds (everyStep_anytime ..) fun _ => .inr rfl
  have hsettled : Settled x.shared := by
    refine hholds.always id fun c prog hx hduring => ?_
    cases c with
    | conout con c => exact absurd ⟨con, c, prog, hx⟩ hmain
    | clock a de hl => exact hduring
    | exit hl de => exact hduring
    | fdstar => exact hduring
  rcases hsettled hxflg with hdirty | hshown
  · exact absurd hdirty (by simp [hclean])
  · exact hshown

/-- Cursor right, and then the interrupt. -/
theorem hardware_cursor_follows_right :
    (run ⟨0#8, id⟩ (start (fun _ => 0#8) false true 250#16)
      (.call (.conout .crt 0x18#8) :: List.replicate 10 .main ++ [.interrupt ()])).shared.cursor =
      (1, 0) := by
  have hidle : (run ⟨0#8, id⟩ (start (fun _ => 0#8) false true 250#16)
      (.call (.conout .crt 0x18#8) :: List.replicate 10 .main ++
        [.interrupt ()])).main.isNone = true := by
    decide
  refine (hardware_cursor_follows ⟨0#8, id⟩ (fun _ => 0#8) false true 250#16 _ ?_
    (by decide) (by decide)).trans (by decide)
  rintro ⟨con, c, prog, hmain⟩
  rw [hmain] at hidle
  exact Bool.false_ne_true hidle

end Interrupts
end Rc700
