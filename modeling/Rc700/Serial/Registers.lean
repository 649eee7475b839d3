import Rc700.Serial.Channel

/-!
# Register addressing

A register is written in two accesses, and so is one read: the select, then the
value.  Between the two the pointer of the control port is set; an access by an
interrupt handler there goes to the selected register and resets the pointer.  The
writes of the line selector and of `readi` are made with interrupts disabled.  The
raising of RTS by the readers, and the read of `RR1` by the line selector, are not
(`Pc.Window`).
-/

namespace Rc700
namespace Serial

open Library

/-- The pointer of the control port at each place of the main line. -/
def Pc.pointer : Pc → Nat
  | .valueRts _ => 5
  | .readRr1 _ => 1
  | .lineValue _ => 5
  | .readiValue5 => 5
  | .readiValue1 => 1
  | _ => 0

/-- Places at which the main line has disabled interrupts. -/
def Pc.Disabled : Pc → Bool
  | .markBusy _ => true
  | .outData _ => true
  | .outEi => true
  | .lineSelect _ => true
  | .lineValue _ => true
  | .lineEi _ => true
  | .readiSelect5 => true
  | .readiValue5 => true
  | .readiSelect1 => true
  | .readiValue1 => true
  | .readiEi => true
  | _ => false

/-- Places between a select and its value at which interrupts are enabled. -/
def Pc.Window : Pc → Bool
  | .valueRts _ => true
  | .readRr1 _ => true
  | _ => false

namespace Channel

/-- The handler of the event uses the control port. -/
def TouchesControl (s : Channel) : Event → Prop
  | .rx _ => s.rxhead + 1#8 = s.rxtail ∨ 248 ≤ (s.rxhead + 1#8 - s.rxtail).toNat
  | .spec _ => True
  | .tx => True
  | .ext _ => True
  | .call _ => False
  | .main _ => False

/-- No handler uses the control port between a select and its value. -/
def KeepsPairs (s : Channel) (event : Event) : Prop :=
  s.pc.Window = true → ¬ s.TouchesControl event

/-- The pointer is where the main line left it, interrupts are disabled where it
disabled them, and every write reached its register. -/
structure Addressed (s : Channel) : Prop where
  pointer : s.pointer = s.pc.pointer
  ie : s.ie = !s.pc.Disabled
  writes : ∀ w ∈ s.writes, w.Untorn

variable {config : Config} {s : Channel} {val : Byte}

/-! ### Accesses -/

theorem out_pc (target : Target) : (s.out target val).pc = s.pc := by
  unfold out
  split <;> rfl

theorem out_ie (target : Target) : (s.out target val).ie = s.ie := by
  unfold out
  split <;> rfl

theorem out_pointer (target : Target) (hzero : s.pointer = 0) :
    (s.out target val).pointer = val.toNat % 8 := by
  unfold out
  rw [if_pos hzero]

theorem out_register_pointer {r : Nat} (hr : r ≠ 0) (hpointer : s.pointer = r) (target : Target) :
    (s.out target val).pointer = 0 := by
  unfold out
  rw [if_neg (by omega)]

/-- A select or a command with the pointer at zero. -/
theorem out_zero_untorn {target : Target} (htarget : target.goal = 0) (hzero : s.pointer = 0)
    (hs : ∀ w ∈ s.writes, w.Untorn) : ∀ w ∈ (s.out target val).writes, w.Untorn := by
  intro w hw
  unfold out at hw
  rw [if_pos hzero] at hw
  rcases List.mem_cons.mp hw with rfl | hold
  · exact htarget.symm
  · exact hs w hold

/-- A value with the pointer at its register. -/
theorem out_register_untorn {r : Nat} (hr : r ≠ 0) (hpointer : s.pointer = r)
    (hs : ∀ w ∈ s.writes, w.Untorn) :
    ∀ w ∈ (s.out (.register r) val).writes, w.Untorn := by
  intro w hw
  unfold out at hw
  rw [if_neg (by omega)] at hw
  rcases List.mem_cons.mp hw with rfl | hold
  · exact hpointer
  · exact hs w hold

/-! ### Interrupt handlers

A handler that finds the pointer at zero leaves it there. -/

/-- The handler finds the pointer at zero and leaves it there; every write reaches
its register. -/
structure Quiet (s s' : Channel) : Prop where
  pointer : s'.pointer = 0
  pc : s'.pc = s.pc
  ie : s'.ie = s.ie
  writes : (∀ w ∈ s.writes, w.Untorn) → ∀ w ∈ s'.writes, w.Untorn

theorem isrTx_quiet (hzero : s.pointer = 0) : Quiet s s.isrTx where
  pointer := out_pointer .command hzero
  pc := out_pc .command
  ie := out_ie .command
  writes := out_zero_untorn rfl hzero

theorem isrExt_quiet (s : Channel) : Quiet s (s.isrExt val) where
  pointer := out_pointer .command rfl
  pc := out_pc .command
  ie := out_ie .command
  writes := fun hs => out_zero_untorn rfl rfl hs

theorem deassertRts_quiet (config : Config) (hzero : s.pointer = 0) :
    Quiet s (s.deassertRts config) where
  pointer := out_register_pointer (by decide) (out_pointer .select hzero) _
  pc := by
    show ((s.out .select (BitVec.ofNat 8 5)).out (.register 5) config.rtsOff).pc = s.pc
    rw [out_pc, out_pc]
  ie := by
    show ((s.out .select (BitVec.ofNat 8 5)).out (.register 5) config.rtsOff).ie = s.ie
    rw [out_ie, out_ie]
  writes := fun hs =>
    out_register_untorn (by decide) (out_pointer .select hzero) (out_zero_untorn rfl hzero hs)

theorem isrSpec_pc (s : Channel) : (s.isrSpec val).pc = s.pc := by
  show (Channel.out .command 0x30#8 { (s.out .select 0x01#8).inp with rr1 := val }).pc = s.pc
  rw [out_pc]
  exact out_pc .select

theorem isrSpec_quiet (hzero : s.pointer = 0) : Quiet s (s.isrSpec val) where
  pointer := out_pointer .command rfl
  pc := isrSpec_pc s
  ie := by
    show (Channel.out .command 0x30#8 { (s.out .select 0x01#8).inp with rr1 := val }).ie = s.ie
    rw [out_ie]
    exact out_ie .select
  writes := fun hs => out_zero_untorn rfl rfl (out_zero_untorn rfl hzero hs)

/-- The receive interrupt leaves the control port alone, or finds the pointer at
zero. -/
theorem isrRx_quiet (config : Config) (ch : Byte)
    (hzero : s.TouchesControl (.rx ch) → s.pointer = 0) :
    (s.pointer = 0 ∧ Quiet s (s.isrRx config ch)) ∨
      (s.isrRx config ch).pointer = s.pointer ∧ (s.isrRx config ch).pc = s.pc ∧
        (s.isrRx config ch).ie = s.ie ∧ (s.isrRx config ch).writes = s.writes := by
  simp only [isrRx]
  by_cases hfull : s.rxhead + 1#8 = s.rxtail
  · left
    rw [if_pos hfull]
    have hquiet := deassertRts_quiet config
      (s := { s with received := ch :: s.received }) (hzero (.inl hfull))
    exact ⟨hzero (.inl hfull), hquiet.pointer, hquiet.pc, hquiet.ie, hquiet.writes⟩
  · rw [if_neg hfull]
    by_cases hroom : (s.rxhead + 1#8 - s.rxtail).toNat < 248
    · right
      rw [if_pos hroom]
      exact ⟨rfl, rfl, rfl, rfl⟩
    · left
      rw [if_neg hroom]
      have hquiet := deassertRts_quiet config
        (s := { s with
          received := ch :: s.received
          rxbuf := Function.update s.rxbuf s.rxhead ch
          rxhead := s.rxhead + 1#8 })
        (hzero (.inr (by omega)))
      exact ⟨hzero (.inr (by omega)), hquiet.pointer, hquiet.pc, hquiet.ie, hquiet.writes⟩

/-- Where interrupts are enabled and no select is open the pointer is at zero. -/
theorem Addressed.pointer_zero (hs : Addressed s) (hie : s.ie = true)
    (hwindow : s.pc.Window = false) : s.pointer = 0 := by
  have hdisabled := hs.ie
  rw [hie] at hdisabled
  rw [hs.pointer]
  generalize s.pc = pc at hdisabled hwindow
  cases pc <;> first | rfl | exact Bool.noConfusion hwindow | exact Bool.noConfusion hdisabled

theorem Addressed.quiet {s' : Channel} (hs : Addressed s) (hquiet : Quiet s s')
    (hzero : s.pointer = 0) : Addressed s' where
  pointer := by rw [hquiet.pointer, hquiet.pc, ← hs.pointer, hzero]
  ie := by rw [hquiet.ie, hquiet.pc, hs.ie]
  writes := hquiet.writes hs.writes

/-! ### The main line -/

/-- The control port: the pointer, the registers and the writes made. -/
def port (s : Channel) : Nat × (Nat → Byte) × List Write := (s.pointer, s.wr, s.writes)

/-- **What an access of the main line can do to the control port.** -/
inductive Access (config : Config) (s s' : Channel) : Prop
  | none (hport : s'.port = s.port) (hpc : s'.pc.pointer = s.pc.pointer)
      (hline : s'.lineSelected = s.lineSelected)
  | select (val : Byte) (hpc : s.pc.pointer = 0) (hport : s'.port = (s.out .select val).port)
      (hpc' : s'.pc.pointer = val.toNat % 8) (hline : s'.lineSelected = s.lineSelected)
  | rtsOn (hpc : s.pc.pointer = 5)
      (hport : s'.port = (s.out (.register 5) config.rtsOn).port) (hpc' : s'.pc.pointer = 0)
      (hline : s'.lineSelected = false)
  | line (val : Byte) (hpc : s.pc.pointer = 5)
      (hport : s'.port = (s.out (.register 5) val).port) (hpc' : s'.pc.pointer = 0)
      (hline : s'.lineSelected = true)
  | wr1 (hpc : s.pc.pointer = 1)
      (hport : s'.port = (s.out (.register 1) config.wr1).port) (hpc' : s'.pc.pointer = 0)
      (hline : s'.lineSelected = s.lineSelected)
  | read (hpc : s.pc.pointer = 1) (hport : s'.port = s.inp.port) (hpc' : s'.pc.pointer = 0)
      (hline : s'.lineSelected = s.lineSelected)

/-- The places after a test have no open select, and interrupts are enabled. -/
theorem ite_pointer {c : Prop} [Decidable c] {p q : Pc} (hp : p.pointer = 0) (hq : q.pointer = 0) :
    (if c then p else q).pointer = 0 := by
  split
  · exact hp
  · exact hq

theorem ite_disabled {c : Prop} [Decidable c] {p q : Pc} (hp : p.Disabled = false)
    (hq : q.Disabled = false) : (if c then p else q).Disabled = false := by
  split
  · exact hp
  · exact hq

theorem lineStage_next (stage : LineStage) :
    stage.next.pointer = 0 ∧ stage.next.Disabled = false := by
  cases stage with
  | release line => exact ⟨ite_pointer rfl rfl, ite_disabled rfl rfl⟩
  | rts line => exact ⟨rfl, rfl⟩
  | dtr line => exact ⟨rfl, rfl⟩
  | giveUp => exact ⟨rfl, rfl⟩

theorem out_lineSelected (target : Target) :
    (s.out target val).lineSelected = s.lineSelected := by
  unfold out
  split <;> rfl

theorem main_access (config : Config) (val : Byte) (s : Channel) :
    Access config s (s.main config val) := by
  -- one case for each kind of access
  cases hpc : s.pc with
  | idle =>
      simp only [Channel.main, hpc]
      exact .none rfl rfl rfl
  | pollTail | waitTail _ | loadTail _ | loadIndex _ _ | loadByte _ _ _ | outDi _ | markBusy _
  | outData _ | outEi | lineDi _ | readiDi | readiEi =>
      simp only [Channel.main, hpc]
      exact .none rfl (by rw [hpc]; rfl) rfl
  | pollHead _ | waitHead _ _ | waitReady _ | checkCts =>
      simp only [Channel.main, hpc]
      exact .none rfl (by rw [hpc]; exact ite_pointer rfl rfl) rfl
  | storeTail reader newTail ch =>
      cases reader with
      | flow =>
          simp only [Channel.main, hpc]
          exact .none rfl (by rw [hpc]; rfl) rfl
      | plain =>
          simp only [Channel.main, hpc]
          exact .none rfl (by rw [hpc]; rfl) rfl
  | compareHead newTail ch =>
      simp only [Channel.main, hpc]
      split
      · exact .none rfl (by rw [hpc]; rfl) rfl
      · exact .none rfl (by rw [hpc]; rfl) rfl
  | selectRts _ | lineSelect _ | readiSelect5 =>
      simp only [Channel.main, hpc]
      exact .select 0x05#8 (by rw [hpc]; rfl) rfl rfl (out_lineSelected .select)
  | selectRr1 _ | readiSelect1 =>
      simp only [Channel.main, hpc]
      exact .select 0x01#8 (by rw [hpc]; rfl) rfl rfl (out_lineSelected .select)
  | valueRts _ | readiValue5 =>
      simp only [Channel.main, hpc]
      exact .rtsOn (by rw [hpc]; rfl) rfl rfl rfl
  | lineValue stage =>
      simp only [Channel.main, hpc]
      exact .line stage.val (by rw [hpc]; rfl) rfl rfl rfl
  | readiValue1 =>
      simp only [Channel.main, hpc]
      exact .wr1 (by rw [hpc]; rfl) rfl rfl (out_lineSelected _)
  | readRr1 line =>
      simp only [Channel.main, hpc]
      exact .read (by rw [hpc]; rfl) rfl (ite_pointer rfl rfl) rfl
  | lineEi stage =>
      simp only [Channel.main, hpc]
      exact .none rfl (by rw [hpc]; exact (lineStage_next stage).1) rfl

/-- Interrupts stay disabled in between `DI` and `EI`, and enabled elsewhere. -/
theorem main_ie (config : Config) (val : Byte) (hie : s.ie = !s.pc.Disabled) :
    (s.main config val).ie = !(s.main config val).pc.Disabled := by
  -- only DI and EI change the flag, and the place says which has been last
  cases hpc : s.pc with
  | idle =>
      simpa only [Channel.main, hpc] using hie
  | pollTail | waitTail _ | loadTail _ | loadIndex _ _ | loadByte _ _ _ | markBusy _
  | outData _ =>
      simp only [Channel.main, hpc]
      rw [hpc] at hie
      exact hie
  | pollHead _ | waitHead _ _ | waitReady _ | checkCts =>
      simp only [Channel.main, hpc]
      rw [hpc] at hie
      rw [ite_disabled rfl rfl]
      exact hie
  | storeTail reader newTail ch =>
      rw [hpc] at hie
      cases reader with
      | flow =>
          simp only [Channel.main, hpc]
          exact hie
      | plain =>
          simp only [Channel.main, hpc]
          exact hie
  | compareHead newTail ch =>
      rw [hpc] at hie
      simp only [Channel.main, hpc]
      split
      · exact hie
      · exact hie
  | selectRts _ | selectRr1 _ | lineSelect _ | readiSelect5 | readiSelect1 =>
      simp only [Channel.main, hpc]
      rw [hpc] at hie
      exact (out_ie .select).trans hie
  | valueRts _ | readiValue5 | lineValue _ | readiValue1 =>
      simp only [Channel.main, hpc]
      rw [hpc] at hie
      exact (out_ie _).trans hie
  | readRr1 line =>
      simp only [Channel.main, hpc]
      rw [hpc] at hie
      rw [ite_disabled rfl rfl]
      exact hie
  | outDi _ | lineDi _ | readiDi | outEi | readiEi =>
      simp only [Channel.main, hpc]
      rfl
  | lineEi stage =>
      simp only [Channel.main, hpc]
      rw [(lineStage_next stage).2]
      rfl

/-- **One access of the main line.** -/
theorem Addressed.main (config : Config) (val : Byte) (hs : Addressed s) :
    Addressed (s.main config val) := by
  have hie := main_ie config val hs.ie
  have hpointer := hs.pointer
  have hfields : ∀ {s' s'' : Channel}, s'.port = s''.port →
      s'.pointer = s''.pointer ∧ s'.writes = s''.writes := by
    intro s' s'' hport
    exact ⟨congrArg Prod.fst hport, congrArg (fun p => p.2.2) hport⟩
  cases main_access config val s with
  | none hport hpc hline =>
      obtain ⟨hp, hw⟩ := hfields hport
      exact ⟨by rw [hp, hpc, hpointer], hie, by rw [hw]; exact hs.writes⟩
  | select r hpc hport hpc' hline =>
      obtain ⟨hp, hw⟩ := hfields hport
      rw [hpc] at hpointer
      exact ⟨by rw [hp, hpc', out_pointer _ hpointer], hie,
        by rw [hw]; exact out_zero_untorn rfl hpointer hs.writes⟩
  | rtsOn hpc hport hpc' hline =>
      obtain ⟨hp, hw⟩ := hfields hport
      rw [hpc] at hpointer
      exact ⟨by rw [hp, hpc', out_register_pointer (by decide) hpointer], hie,
        by rw [hw]; exact out_register_untorn (by decide) hpointer hs.writes⟩
  | line v hpc hport hpc' hline =>
      obtain ⟨hp, hw⟩ := hfields hport
      rw [hpc] at hpointer
      exact ⟨by rw [hp, hpc', out_register_pointer (by decide) hpointer], hie,
        by rw [hw]; exact out_register_untorn (by decide) hpointer hs.writes⟩
  | wr1 hpc hport hpc' hline =>
      obtain ⟨hp, hw⟩ := hfields hport
      rw [hpc] at hpointer
      exact ⟨by rw [hp, hpc', out_register_pointer (by decide) hpointer], hie,
        by rw [hw]; exact out_register_untorn (by decide) hpointer hs.writes⟩
  | read hpc hport hpc' hline =>
      obtain ⟨hp, hw⟩ := hfields hport
      exact ⟨by rw [hp, hpc']; rfl, hie, by rw [hw]; exact hs.writes⟩

/-! ### Runs -/

/-- A handler that uses the control port finds the pointer at zero. -/
theorem Addressed.touches_zero (hs : Addressed s) {event : Event} (hkeeps : KeepsPairs s event)
    (hie : s.ie = true) (htouches : s.TouchesControl event) : s.pointer = 0 := by
  apply hs.pointer_zero hie
  by_contra hwindow
  exact hkeeps (by simpa using hwindow) htouches

/-- **One event** that does not come between a select and its value. -/
theorem Addressed.step (config : Config) (hs : Addressed s) {event : Event}
    (hkeeps : KeepsPairs s event) : Addressed (s.step config event) := by
  have hzero := hs.touches_zero hkeeps
  cases event with
  | call c =>
      simp only [Channel.step]
      split
      -- calls begin outside of every pair
      · next hidle =>
        have hpointer := hs.pointer
        have hie := hs.ie
        rw [hidle] at hpointer hie
        refine ⟨?_, ?_, hs.writes⟩
        · cases c <;> exact hpointer
        · cases c <;> exact hie
      · exact hs
  | main val => exact hs.main config val
  | rx ch =>
      simp only [Channel.step]
      split
      · next hie =>
        rcases isrRx_quiet config ch (hzero hie) with ⟨hp, hquiet⟩ | ⟨hp, hpc, hi, hw⟩
        · exact hs.quiet hquiet hp
        · exact ⟨by rw [hp, hpc, hs.pointer], by rw [hi, hpc, hs.ie], by rw [hw]; exact hs.writes⟩
      · exact hs
  | spec val =>
      simp only [Channel.step]
      split
      · next hie => exact hs.quiet (isrSpec_quiet (hzero hie trivial)) (hzero hie trivial)
      · exact hs
  | tx =>
      simp only [Channel.step]
      split
      · next hie => exact hs.quiet (isrTx_quiet (hzero hie trivial)) (hzero hie trivial)
      · exact hs
  | ext val =>
      simp only [Channel.step]
      split
      · next hie => exact hs.quiet (isrExt_quiet s) (hzero hie trivial)
      · exact hs

theorem start_addressed (config : Config) : Addressed (start config) where
  pointer := rfl
  ie := rfl
  writes := nofun

theorem Addressed.run (hs : Addressed s) {events : List Event}
    (hrun : EveryStep (Channel.step config) KeepsPairs s events) :
    Addressed (events.foldl (Channel.step config) s) :=
  foldl_invariant (fun _ _ hkeeps hs => hs.step config hkeeps) hrun hs

instance TouchesControl.decidable (s : Channel) :
    ∀ event, Decidable (s.TouchesControl event)
  | .rx _ => inferInstanceAs (Decidable (_ ∨ _))
  | .spec _ => isTrue trivial
  | .tx => isTrue trivial
  | .ext _ => isTrue trivial
  | .call _ => isFalse id
  | .main _ => isFalse id

instance KeepsPairs.decidable (s : Channel) (event : Event) : Decidable (KeepsPairs s event) :=
  inferInstanceAs (Decidable (_ → _))

/-- **Register addressing is never torn** in a run in which no handler uses the
control port between a select and its value: every value written after a select
reaches that register, and every select and every command reaches `WR0`. -/
theorem registers_never_torn (config : Config) {events : List Event}
    (hrun : EveryStep (step config) KeepsPairs (start config) events) :
    ∀ w ∈ (run config (start config) events).writes, w.Untorn :=
  ((start_addressed config).run hrun).writes

/-- A byte is received and read; the raising of RTS is not interrupted, a later
transmit interrupt is not in the way. -/
def undisturbed : List Event :=
  [.rx 0x41#8, .call (.read .flow), .main 0#8, .main 0#8, .main 0#8, .main 0#8, .main 0#8,
    .main 0#8, .main 0#8, .main 0#8, .main 0#8, .tx]

theorem registers_never_torn_undisturbed :
    EveryStep (step ⟨0x60#8, 0x1B#8⟩) KeepsPairs (start ⟨0x60#8, 0x1B#8⟩) undisturbed ∧
      (run ⟨0x60#8, 0x1B#8⟩ (start ⟨0x60#8, 0x1B#8⟩) undisturbed).writes.length = 3 ∧
      ∀ w ∈ (run ⟨0x60#8, 0x1B#8⟩ (start ⟨0x60#8, 0x1B#8⟩) undisturbed).writes, w.Untorn :=
  ⟨by decide, by decide, registers_never_torn ⟨0x60#8, 0x1B#8⟩ (by decide)⟩

/-- The transmit interrupt comes between the select of `WR5` and its value: its
command goes to `WR5`, and the value to `WR0`. -/
theorem rtsReassert_torn :
    ¬ ∀ (config : Config) (events : List Event),
      ∀ w ∈ (run config (start config) events).writes, w.Untorn := by
  intro huntorn
  have htorn := huntorn ⟨0x60#8, 0x1B#8⟩
    [.rx 0x41#8, .call (.read .flow), .main 0#8, .main 0#8, .main 0#8, .main 0#8, .main 0#8,
      .main 0#8, .main 0#8, .main 0#8, .tx, .main 0#8] ⟨.command, 5, 0x28#8⟩ (by decide)
  exact absurd htorn (by decide)

end Channel

end Serial
end Rc700
