import Rc700.Serial.Transmitter

/-!
# Line selection

`LINSEL` on one of the two channels, with the interrupt handlers of both in between: the
signals that it drives, as they are in the channel after each of its writes of `WR5`, the
check of the cached CTS and the result.

Behind the release the routine writes its argument shifted left, so that RTS is bit 0 of the
line and DTR, in the first of the two writes, bit 6.  The documented signals have RTS for line
2 and no other (`linsel_documented_iff`).
-/

namespace Rc700
namespace Serial

open Library Channel

/-- DTR and RTS of a value of `WR5`. -/
def signal (wr5 : Byte) : Bool × Bool := (wr5.getLsbD 7, wr5.getLsbD 1)

/-- Interrupts. -/
inductive Interrupt where
  | rx (ch : Byte)
  | spec (val : Byte)
  | tx
  | ext (val : Byte)
  deriving DecidableEq, Repr

/-- The handler of an interrupt. -/
def Channel.interrupt (config : Config) (s : Channel) : Interrupt → Channel
  | .rx ch => s.isrRx config ch
  | .spec val => s.isrSpec val
  | .tx => s.isrTx
  | .ext val => s.isrExt val

/-- What `bios_linsel_body` returns at this access, if it does. -/
def Pc.lineReturn (rr0 : Byte) : Pc → Option Byte
  | .lineEi (.release line) => if line = 0#8 then some 0x00#8 else none
  | .lineEi .giveUp => some 0x00#8
  | .checkCts => if rr0 &&& 0x20#8 = 0#8 then none else some 0xFF#8
  | _ => none

/-- The two channels, SIO-B at `true`, and a call of `LINSEL`. -/
structure Lines where
  lsPort : Byte
  chans : Bool → Channel
  /-- The signals after each write of `WR5` by the routine. -/
  signals : List (Bool × Bool)
  /-- Whether CTS was seen at the check. -/
  cts : Option Bool
  result : Option Byte

/-- Events during the call: the routine goes on, or an interrupt of a channel arrives. -/
inductive LineEvent where
  | main (val : Byte)
  | interrupt (side : Bool) (i : Interrupt)
  deriving DecidableEq, Repr

namespace Lines

/-- `ls_port` is not 0. -/
def onB (s : Lines) : Bool := s.lsPort ≠ 0#8

/-- The channel of the routine. -/
def chosen (s : Lines) : Channel := s.chans s.onB

/-- The other channel. -/
def other (s : Lines) : Channel := s.chans !s.onB

/-- The next access of the routine, on the channel that `ls_port` says. -/
def access (config : Config) (val : Byte) (s : Lines) : Lines :=
  let next := s.chosen.main config val
  { s with
    chans := Function.update s.chans s.onB next
    signals :=
      match s.chosen.pc with
      | .lineValue _ => s.signals ++ [signal (next.wr 5)]
      | _ => s.signals
    cts :=
      match s.chosen.pc with
      | .checkCts => some (s.chosen.rr0 &&& 0x20#8 ≠ 0#8)
      | _ => s.cts
    result := s.chosen.pc.lineReturn s.chosen.rr0 }

/-- An event up to the return. -/
def step (config : Config) (s : Lines) : LineEvent → Lines
  | .main val => if s.result = none then s.access config val else s
  | .interrupt side i =>
      if s.result = none ∧ s.chosen.ie = true then
        { s with chans := Function.update s.chans side ((s.chans side).interrupt config i) }
      else s

/-- A sequence of events. -/
def run (config : Config) (s : Lines) (events : List LineEvent) : Lines :=
  events.foldl (step config) s

/-- `LINSEL` is called, with the channels in any state. -/
def call (lsPort line : Byte) (chans : Bool → Channel) : Lines where
  lsPort := lsPort
  chans := Function.update chans (lsPort ≠ 0#8)
    { chans (lsPort ≠ 0#8) with pc := (Call.linsel line).entry }
  signals := []
  cts := none
  result := none

end Lines

/-! ### The writes -/

/-- The signals before the write of a stage. -/
def LineStage.before (line : Byte) : LineStage → List (Bool × Bool)
  | .release _ => []
  | .rts _ => [signal 0x00#8]
  | .dtr _ => [signal 0x00#8, signal (line <<< 1)]
  | .giveUp => [signal 0x00#8, signal (line <<< 1), signal ((line <<< 1) ||| 0x80#8)]

/-- The stages that a call for this line comes to. -/
def LineStage.Reached (line : Byte) (cts : Option Bool) : LineStage → Prop
  | .release l => l = line ∧ cts = none
  | .rts l => l = line ∧ line ≠ 0#8 ∧ cts = none
  | .dtr l => l = line ∧ line ≠ 0#8 ∧ cts = none
  | .giveUp => line ≠ 0#8 ∧ cts = some false

/-- The routine waits for all-sent. -/
def Pc.Polls : Pc → Prop
  | .selectRr1 _ => True
  | .readRr1 _ => True
  | _ => False

/-- The accesses behind a stage, at most. -/
def LineStage.left : LineStage → Nat
  | .release _ => 13
  | .rts _ => 9
  | .dtr _ => 5
  | .giveUp => 0

/-- The accesses up to the return, at most. -/
def Pc.left : Pc → Nat
  | .lineDi stage => stage.left + 4
  | .lineSelect stage => stage.left + 3
  | .lineValue stage => stage.left + 2
  | .lineEi stage => stage.left + 1
  | .checkCts => 5
  | _ => 0

/-- Events of the routine itself. -/
def LineEvent.IsMain : LineEvent → Bool
  | .main _ => true
  | .interrupt _ _ => false

namespace Lines

variable {config : Config} {line : Byte} {s : Lines}

/-- Within the call: no handler comes between a select and its value, and the signals are
those of the stages before. -/
def Inside (config : Config) (line : Byte) (s : Lines) : Prop :=
  match s.chosen.pc with
  | .selectRr1 l => l = line ∧ s.signals = [] ∧ s.cts = none
  | .readRr1 l => l = line ∧ s.signals = [] ∧ s.cts = none
  | .lineDi stage =>
      s.chosen.pointer = 0 ∧ stage.Reached line s.cts ∧ s.signals = stage.before line
  | .lineSelect stage =>
      s.chosen.pointer = 0 ∧ s.chosen.ie = false ∧ stage.Reached line s.cts ∧
        s.signals = stage.before line
  | .lineValue stage =>
      s.chosen.pointer = 5 ∧ s.chosen.ie = false ∧ stage.Reached line s.cts ∧
        s.signals = stage.before line
  | .lineEi stage =>
      s.chosen.pointer = 0 ∧ s.chosen.ie = false ∧ stage.Reached line s.cts ∧
        s.signals = stage.before line ++ [signal stage.val] ∧ s.chosen.wr 5 = stage.val
  | .checkCts =>
      s.chosen.pointer = 0 ∧ line ≠ 0#8 ∧ s.cts = none ∧ s.signals = LineStage.giveUp.before line ∧
        (s.chosen.wr 5 = (line <<< 1) ||| 0x80#8 ∨ s.chosen.wr 5 = config.rtsOff)
  | _ => False

/-- How the call returns. -/
inductive Outcome (config : Config) (line : Byte) (s : Lines) : Prop
  | released (hline : line = 0#8) (hresult : s.result = some 0x00#8)
      (hsignals : s.signals = [signal 0x00#8]) (hleft : s.chosen.wr 5 = 0x00#8)
  | selected (hline : line ≠ 0#8) (hcts : s.cts = some true) (hresult : s.result = some 0xFF#8)
      (hsignals : s.signals = LineStage.giveUp.before line)
      (hleft : s.chosen.wr 5 = (line <<< 1) ||| 0x80#8 ∨ s.chosen.wr 5 = config.rtsOff)
  | busy (hline : line ≠ 0#8) (hcts : s.cts = some false) (hresult : s.result = some 0x00#8)
      (hsignals : s.signals = LineStage.giveUp.before line ++ [signal 0x00#8])
      (hleft : s.chosen.wr 5 = 0x00#8)

/-- The state of a call. -/
def Going (config : Config) (line : Byte) (s : Lines) : Prop :=
  s.result = none ∧ Inside config line s ∨ Outcome config line s

theorem Outcome.returned (hs : Outcome config line s) : s.result ≠ none := by
  cases hs with
  | released _ hresult => simp [hresult]
  | selected _ _ hresult => simp [hresult]
  | busy _ _ hresult => simp [hresult]

theorem access_chosen (config : Config) (val : Byte) (s : Lines) :
    (s.access config val).chosen = s.chosen.main config val := by
  simp [access, chosen, onB]

theorem access_other (config : Config) (val : Byte) (s : Lines) :
    (s.access config val).other = s.other := by
  simp [access, other, onB]

/-- **One access of the routine.** -/
theorem Inside.access (val : Byte) (hs : Inside config line s) :
    Going config line (s.access config val) := by
  have hchosen := access_chosen config val s
  unfold Inside at hs
  -- one case for each access of LINSEL, in the order of the code
  cases hpc : s.chosen.pc with
  | selectRr1 l =>
      rw [hpc] at hs
      refine .inl ⟨by simp [Lines.access, hpc, Pc.lineReturn], ?_⟩
      unfold Inside
      rw [hchosen]
      simpa [Channel.main, Lines.access, hpc] using hs
  | readRr1 l =>
      rw [hpc] at hs
      obtain ⟨rfl, hsignals, hcts⟩ := hs
      refine .inl ⟨by simp [Lines.access, hpc, Pc.lineReturn], ?_⟩
      unfold Inside
      rw [hchosen]
      by_cases hsent : val &&& 0x01#8 = 0#8
      · simp [Channel.main, Lines.access, hpc, hsent, hsignals, hcts]
      · -- the read has put the pointer back
        simp [Channel.main, Lines.access, hpc, hsent, hsignals, hcts, Channel.inp,
          LineStage.Reached, LineStage.before]
  | lineDi stage =>
      rw [hpc] at hs
      refine .inl ⟨by simp [Lines.access, hpc, Pc.lineReturn], ?_⟩
      unfold Inside
      rw [hchosen]
      simpa [Channel.main, Lines.access, hpc] using hs
  | lineSelect stage =>
      rw [hpc] at hs
      obtain ⟨hpointer, hie, hreached, hsignals⟩ := hs
      have hfive : (s.chosen.out .select 0x05#8).pointer = 5 := out_pointer .select hpointer
      refine .inl ⟨by simp [Lines.access, hpc, Pc.lineReturn], ?_⟩
      unfold Inside
      rw [hchosen]
      simp only [Channel.main, hpc]
      exact ⟨hfive, (out_ie .select).trans hie, by simpa [Lines.access, hpc] using hreached,
        by simpa [Lines.access, hpc] using hsignals⟩
  | lineValue stage =>
      rw [hpc] at hs
      obtain ⟨hpointer, hie, hreached, hsignals⟩ := hs
      have hwr : (s.chosen.out (.register 5) stage.val).wr 5 = stage.val := by
        -- the pointer is at 5, so this write is one of WR5
        rw [out_wr5_of_register (by decide) hpointer, if_pos rfl]
      refine .inl ⟨by simp [Lines.access, hpc, Pc.lineReturn], ?_⟩
      unfold Inside
      rw [hchosen]
      simp only [Channel.main, hpc]
      refine ⟨out_register_pointer (by decide) hpointer _, (out_ie _).trans hie, ?_, ?_, hwr⟩
      · simpa [Lines.access, hpc] using hreached
      · simp [Lines.access, hpc, Channel.main, hwr, hsignals]
  | lineEi stage =>
      rw [hpc] at hs
      obtain ⟨hpointer, hie, hreached, hsignals, hwr⟩ := hs
      cases stage with
      | release l =>
          obtain ⟨rfl, hcts⟩ := hreached
          by_cases hline : l = 0#8
          · right
            refine .released hline ?_ ?_ ?_
            · simp [Lines.access, hpc, Pc.lineReturn, hline]
            · simpa [Lines.access, hpc, LineStage.before, LineStage.val] using hsignals
            · rw [hchosen]
              simpa [Channel.main, hpc, LineStage.val] using hwr
          · refine .inl ⟨by simp [Lines.access, hpc, Pc.lineReturn, hline], ?_⟩
            unfold Inside
            rw [hchosen]
            simp [Channel.main, Lines.access, hpc, LineStage.next, hline, hpointer, hcts,
              LineStage.Reached, hsignals, LineStage.before, LineStage.val]
      | rts l =>
          obtain ⟨rfl, hline, hcts⟩ := hreached
          refine .inl ⟨by simp [Lines.access, hpc, Pc.lineReturn], ?_⟩
          unfold Inside
          rw [hchosen]
          simp [Channel.main, Lines.access, hpc, LineStage.next, hline, hpointer, hcts,
            LineStage.Reached, hsignals, LineStage.before, LineStage.val]
      | dtr l =>
          obtain ⟨rfl, hline, hcts⟩ := hreached
          refine .inl ⟨by simp [Lines.access, hpc, Pc.lineReturn], ?_⟩
          unfold Inside
          rw [hchosen]
          simp only [Channel.main, hpc, LineStage.next]
          refine ⟨hpointer, hline, by simpa [Lines.access, hpc] using hcts, ?_, .inl hwr⟩
          simp [Lines.access, hpc, hsignals, LineStage.before, LineStage.val]
      | giveUp =>
          obtain ⟨hline, hcts⟩ := hreached
          right
          refine .busy hline ?_ ?_ ?_ ?_
          · simpa [Lines.access, hpc] using hcts
          · simp [Lines.access, hpc, Pc.lineReturn]
          · simpa [Lines.access, hpc, LineStage.val] using hsignals
          · rw [hchosen]
            simpa [Channel.main, hpc, LineStage.val] using hwr
  | checkCts =>
      rw [hpc] at hs
      obtain ⟨hpointer, hline, hcts, hsignals, hwr⟩ := hs
      -- CTS is up: the line is selected; or the code gives up and releases it
      by_cases hclear : s.chosen.rr0 &&& 0x20#8 = 0#8
      · refine .inl ⟨by simp [Lines.access, hpc, Pc.lineReturn, hclear], ?_⟩
        unfold Inside
        rw [hchosen]
        simp [Channel.main, Lines.access, hpc, hclear, hpointer, LineStage.Reached, hline, hsignals]
      · right
        refine .selected hline ?_ ?_ ?_ ?_
        · simp [Lines.access, hpc, hclear]
        · simp [Lines.access, hpc, Pc.lineReturn, hclear]
        · simpa [Lines.access, hpc] using hsignals
        · rw [hchosen]
          simpa [Channel.main, hpc] using hwr
  | _ =>
      rw [hpc] at hs
      exact hs.elim

/-! ### Interrupts -/

/-- No handler changes where the routine is, or whether interrupts are enabled. -/
theorem interrupt_place (config : Config) (c : Channel) (i : Interrupt) :
    (c.interrupt config i).pc = c.pc ∧ (c.interrupt config i).ie = c.ie := by
  have hdeassert : ∀ c : Channel,
      (c.deassertRts config).pc = c.pc ∧ (c.deassertRts config).ie = c.ie := by
    intro c
    constructor
    · exact (out_pc _).trans (out_pc _)
    · exact (out_ie _).trans (out_ie _)
  cases i with
  | tx => exact ⟨out_pc _, out_ie _⟩
  | ext val => exact ⟨out_pc _, out_ie _⟩
  | spec val =>
      constructor
      · exact (out_pc _).trans (out_pc .select)
      · exact (out_ie _).trans (out_ie .select)
  | rx ch =>
      simp only [Channel.interrupt, Channel.isrRx]
      split
      · exact hdeassert _
      · split
        · exact ⟨rfl, rfl⟩
        · exact hdeassert _

/-- With the pointer at zero a handler leaves it there, and `WR5` as it is unless it pauses
the sender. -/
theorem interrupt_port {c : Channel} (hzero : c.pointer = 0) (i : Interrupt) :
    (c.interrupt config i).pointer = 0 ∧
      ((c.interrupt config i).wr 5 = c.wr 5 ∨ (c.interrupt config i).wr 5 = config.rtsOff) := by
  cases i with
  | tx => exact ⟨(isrTx_quiet hzero).pointer, .inl (out_wr5 .command hzero)⟩
  | ext val =>
      exact ⟨(isrExt_quiet c).pointer, .inl (out_wr5 (s := { c.inp with rr0 := val }) .command rfl)⟩
  | spec val => exact ⟨(isrSpec_quiet hzero).pointer, .inl (isrSpec_wr5 hzero)⟩
  | rx ch =>
      constructor
      · rcases isrRx_quiet config ch fun _ => hzero with ⟨-, hquiet⟩ | ⟨hpointer, -⟩
        · exact hquiet.pointer
        · exact hpointer.trans hzero
      · rcases isrRx_wr5 ch fun _ => hzero with ⟨hwr, -⟩ | hwr
        · exact .inl hwr
        · exact .inr hwr

/-- **An interrupt** of either channel. -/
theorem Inside.interrupt (side : Bool) (i : Interrupt) (hs : Inside config line s)
    (hie : s.chosen.ie = true) :
    Inside config line
      { s with chans := Function.update s.chans side ((s.chans side).interrupt config i) } := by
  by_cases hsame : side = s.onB
  · subst hsame
    have hchosen : Lines.chosen
        { s with chans := Function.update s.chans s.onB ((s.chans s.onB).interrupt config i) } =
          s.chosen.interrupt config i := by
      simp [chosen, onB]
    obtain ⟨hpc, -⟩ := interrupt_place config s.chosen i
    unfold Inside at hs ⊢
    rw [hchosen, hpc]
    cases hplace : s.chosen.pc with
    | selectRr1 l => simpa [hplace] using hs
    | readRr1 l => simpa [hplace] using hs
    | lineDi stage =>
        rw [hplace] at hs
        exact ⟨(interrupt_port hs.1 i).1, hs.2⟩
    | checkCts =>
        rw [hplace] at hs
        obtain ⟨hpointer, hline, hcts, hsignals, hwr⟩ := hs
        obtain ⟨hzero, hkept⟩ := @interrupt_port config _ hpointer i
        refine ⟨hzero, hline, hcts, hsignals, ?_⟩
        rcases hkept with hkept | hpaused
        · rw [hkept]
          exact hwr
        · exact .inr hpaused
    | lineSelect stage | lineValue stage | lineEi stage =>
        -- interrupts are disabled here
        rw [hplace] at hs
        exact absurd (hie.symm.trans hs.2.1) (by decide)
    | _ =>
        rw [hplace] at hs
        exact hs.elim
  · have hchosen : Lines.chosen
        { s with chans := Function.update s.chans side ((s.chans side).interrupt config i) } =
          s.chosen := by
      have hne : s.onB ≠ side := fun heq => hsame heq.symm
      simp only [chosen, onB] at hne ⊢
      exact Function.update_of_ne hne _ _
    unfold Inside at hs ⊢
    rw [hchosen]
    exact hs

/-! ### Runs -/

theorem Going.step (hs : Going config line s) (event : LineEvent) :
    Going config line (s.step config event) := by
  rcases hs with ⟨hnone, hinside⟩ | hout
  · cases event with
    | main val =>
        rw [Lines.step, if_pos hnone]
        exact hinside.access val
    | interrupt side i =>
        rw [Lines.step]
        split
        · next hie => exact .inl ⟨hnone, hinside.interrupt side i hie.2⟩
        · exact .inl ⟨hnone, hinside⟩
  · have hsome := hout.returned
    have hstay : s.step config event = s := by
      cases event <;> simp [Lines.step, hsome]
    rw [hstay]
    exact .inr hout

theorem going_call (config : Config) (lsPort line : Byte) (chans : Bool → Channel) :
    Going config line (call lsPort line chans) := by
  refine .inl ⟨rfl, ?_⟩
  have hchosen : (call lsPort line chans).chosen.pc = .selectRr1 line := by
    simp [call, chosen, onB, Call.entry]
  unfold Inside
  rw [hchosen]
  exact ⟨rfl, rfl, rfl⟩

/-- **Every run of a call.** -/
theorem going_run (config : Config) (lsPort line : Byte) (chans : Bool → Channel)
    (events : List LineEvent) : Going config line ((call lsPort line chans).run config events) := by
  have hrun : ∀ (s : Lines), Going config line s → Going config line (s.run config events) := by
    induction events with
    | nil => exact fun s hs => hs
    | cons event events ih => exact fun s hs => ih _ (hs.step event)
  exact hrun _ (going_call config lsPort line chans)

/-! ### The return -/

/-- An access brings the return nearer. -/
theorem Inside.nearer (val : Byte) (hs : Inside config line s) (hpast : ¬s.chosen.pc.Polls) :
    0 < s.chosen.pc.left ∧
      ((s.access config val).result ≠ none ∨ ¬(s.access config val).chosen.pc.Polls ∧
        (s.access config val).chosen.pc.left < s.chosen.pc.left) := by
  rw [access_chosen]
  unfold Inside at hs
  cases hpc : s.chosen.pc with
  | selectRr1 l => exact absurd (by rw [hpc]; trivial) hpast
  | readRr1 l => exact absurd (by rw [hpc]; trivial) hpast
  | lineDi stage => simp [Pc.left, Channel.main, hpc, Pc.Polls]
  | lineSelect stage => simp [Pc.left, Channel.main, hpc, Pc.Polls]
  | lineValue stage => simp [Pc.left, Channel.main, hpc, Pc.Polls]
  | lineEi stage =>
      cases stage with
      | release l =>
          by_cases hline : l = 0#8
          · simp [Pc.left, Lines.access, hpc, Pc.lineReturn, hline]
          · simp [Pc.left, LineStage.left, Channel.main, hpc, Pc.Polls, LineStage.next, hline]
      | rts l => simp [Pc.left, LineStage.left, Channel.main, hpc, Pc.Polls, LineStage.next]
      | dtr l => simp [Pc.left, LineStage.left, Channel.main, hpc, Pc.Polls, LineStage.next]
      | giveUp => simp [Pc.left, Lines.access, hpc, Pc.lineReturn]
  | checkCts =>
      by_cases hclear : s.chosen.rr0 &&& 0x20#8 = 0#8
      · simp [Pc.left, LineStage.left, Channel.main, hpc, Pc.Polls, hclear]
      · simp [Pc.left, Lines.access, hpc, Pc.lineReturn, hclear]
  | _ =>
      rw [hpc] at hs
      exact hs.elim

/-- **The routine returns** after so many accesses behind the poll, whatever the interrupts. -/
theorem Going.returns (hs : Going config line s) (events : List LineEvent)
    (hleft : s.result = none →
      ¬s.chosen.pc.Polls ∧ s.chosen.pc.left ≤ events.countP LineEvent.IsMain) :
    (s.run config events).result ≠ none := by
  -- by induction on the events; an access brings the end nearer, an interrupt does not
  induction events generalizing s with
  | nil =>
      show s.result ≠ none
      intro hnone
      obtain ⟨hpast, hle⟩ := hleft hnone
      rcases hs with ⟨-, hinside⟩ | hout
      · have hpos := (hinside.nearer 0#8 hpast).1
        rw [List.countP_nil] at hle
        omega
      · exact hout.returned hnone
  | cons event events ih =>
      refine ih (hs.step event) fun hnone' => ?_
      by_cases hnone : s.result = none
      · obtain ⟨hpast, hle⟩ := hleft hnone
        have hinside : Inside config line s := by
          rcases hs with ⟨-, hinside⟩ | hout
          · exact hinside
          · exact absurd hnone hout.returned
        cases event with
        | main val =>
            rw [Lines.step, if_pos hnone] at hnone' ⊢
            rcases (hinside.nearer val hpast).2 with hreturned | ⟨hpast', hless⟩
            · exact absurd hnone' hreturned
            · rw [List.countP_cons_of_pos rfl] at hle
              exact ⟨hpast', by omega⟩
        | interrupt side i =>
            rw [List.countP_cons_of_neg (by simp [LineEvent.IsMain])] at hle
            have hpc : (s.step config (.interrupt side i)).chosen.pc = s.chosen.pc := by
              rw [Lines.step]
              split
              · by_cases hsame : side = s.onB
                · subst hsame
                  have hplace := (interrupt_place config s.chosen i).1
                  simpa [chosen, onB] using hplace
                · have hne : s.onB ≠ side := fun heq => hsame heq.symm
                  simp only [chosen, onB] at hne ⊢
                  rw [Function.update_of_ne hne]
              · rfl
            rw [hpc]
            exact ⟨hpast, hle⟩
      · have hstay : s.step config event = s := by
          cases event <;> simp [Lines.step, hnone]
        rw [hstay] at hnone'
        exact absurd hnone' hnone

/-! ### The documented signals -/

/-- The signals of the protocol for a line. -/
def documentedSignals (line : Byte) (cts : Bool) : List (Bool × Bool) :=
  if line = 0#8 then [(false, false)]
  else
    [(false, false), (false, decide (line = 2#8)), (true, decide (line = 2#8))] ++
      if cts then [] else [(false, false)]

/-- The call has gone by the protocol: the signals that the routine has driven, the result, and
the signals that it leaves. -/
structure Documented (line : Byte) (s : Lines) : Prop where
  signals : s.signals = documentedSignals line (s.cts = some true)
  result : s.result = some (if line ≠ 0#8 ∧ s.cts = some true then 0xFF#8 else 0x00#8)
  left : signal (s.chosen.wr 5) =
    if line ≠ 0#8 ∧ s.cts = some true then (true, decide (line = 2#8)) else (false, false)

/-- No line, or one that the shift gives neither RTS nor, too early, DTR; but not line 2. -/
def ShiftsRight (line : Byte) : Prop :=
  line = 0#8 ∨ line ≠ 2#8 ∧ line.getLsbD 0 = false ∧ line.getLsbD 6 = false

theorem signal_rts (line : Byte) : signal (line <<< 1) = (line.getLsbD 6, line.getLsbD 0) := by
  simp [signal]

theorem signal_dtr (line : Byte) :
    signal ((line <<< 1) ||| 0x80#8) = (true, line.getLsbD 0) := by
  simp [signal]

/-- The sender paused: DTR without RTS. -/
theorem signal_rtsOff (config : Config) : signal config.rtsOff = (true, false) := by
  have htable : ∀ cfg : Byte, signal (Config.rtsOff ⟨cfg, 0#8⟩) = (true, false) := by
    decide
  exact htable config.cfg

/-- The signals of the first three writes are those of the protocol exactly for such lines. -/
theorem before_eq_iff (hline : line ≠ 0#8) :
    LineStage.giveUp.before line =
        [(false, false), (false, decide (line = 2#8)), (true, decide (line = 2#8))] ↔
      ShiftsRight line := by
  have hzero : signal 0x00#8 = (false, false) := by decide
  simp only [LineStage.before, signal_rts, signal_dtr, hzero, List.cons.injEq, Prod.mk.injEq,
    true_and, and_true]
  unfold ShiftsRight
  constructor
  · rintro ⟨⟨hsix, hlow⟩, -⟩
    right
    by_cases htwo : line = 2#8
    · subst htwo
      exact absurd hlow (by decide)
    · rw [decide_eq_false htwo] at hlow
      exact ⟨htwo, hlow, hsix⟩
  · rintro (hnone | ⟨htwo, hlow, hsix⟩)
    · exact absurd hnone hline
    · rw [decide_eq_false htwo]
      exact ⟨⟨hsix, hlow⟩, hlow⟩

/-- **How a call has gone.** -/
theorem Outcome.documented_iff (hs : Outcome config line s) :
    Documented line s ↔ ShiftsRight line := by
  have hzero : signal 0x00#8 = (false, false) := by decide
  cases hs with
  | released hline hresult hsignals hleft =>
      refine iff_of_true ⟨?_, ?_, ?_⟩ (.inl hline)
      · rw [hsignals, documentedSignals, if_pos hline, hzero]
      · rw [hresult, if_neg fun h => h.1 hline]
      · rw [hleft, hzero, if_neg fun h => h.1 hline]
  | selected hline hcts hresult hsignals hleft =>
      have hdoc : documentedSignals line (s.cts = some true) =
          [(false, false), (false, decide (line = 2#8)), (true, decide (line = 2#8))] := by
        simp [documentedSignals, hline, hcts]
      -- the signals agree if and only if the shift is right; the rest always does
      rw [← before_eq_iff hline, ← hdoc, ← hsignals]
      refine ⟨fun h => h.signals, fun h => ⟨h, ?_, ?_⟩⟩
      · rw [hresult, if_pos ⟨hline, hcts⟩]
      · rw [hsignals, hdoc, before_eq_iff hline] at h
        rw [if_pos ⟨hline, hcts⟩]
        rcases h with hnone | ⟨htwo, hlow, -⟩
        · exact absurd hnone hline
        · -- what a pause leaves is the same
          rcases hleft with hleft | hleft
          · rw [hleft, signal_dtr, hlow, decide_eq_false htwo]
          · rw [hleft, signal_rtsOff, decide_eq_false htwo]
  | busy hline hcts hresult hsignals hleft =>
      have hdoc : documentedSignals line (s.cts = some true) =
          [(false, false), (false, decide (line = 2#8)), (true, decide (line = 2#8))] ++
            [(false, false)] := by
        simp [documentedSignals, hline, hcts]
      rw [← before_eq_iff hline]
      constructor
      · intro h
        have hsame := h.signals
        rw [hsignals, hdoc, hzero] at hsame
        exact List.append_cancel_right hsame
      · intro h
        refine ⟨?_, ?_, ?_⟩
        · rw [hsignals, hdoc, h, hzero]
        · rw [hresult, if_neg (by simp [hcts])]
        · rw [hleft, hzero, if_neg (by simp [hcts])]

theorem run_append (s : Lines) (front back : List LineEvent) :
    s.run config (front ++ back) = (s.run config front).run config back :=
  List.foldl_append

/-- Behind a poll that sees all-sent, 17 accesses are enough. -/
theorem returns_behind_poll (config : Config) (lsPort line : Byte) (chans : Bool → Channel)
    (front : List LineEvent) (val : Byte) (back : List LineEvent)
    (hpc : ((call lsPort line chans).run config front).chosen.pc = .readRr1 line)
    (hsent : val &&& 0x01#8 ≠ 0#8) (hmany : 17 ≤ back.countP LineEvent.IsMain) :
    ((call lsPort line chans).run config (front ++ .main val :: back)).result ≠ none := by
  have hgoing := going_run config lsPort line chans front
  rw [run_append]
  generalize (call lsPort line chans).run config front = s at hgoing hpc
  refine (hgoing.step (.main val)).returns back fun hnone => ?_
  by_cases hrunning : s.result = none
  · rw [Lines.step, if_pos hrunning, access_chosen]
    simp only [Channel.main, hpc, if_neg hsent]
    exact ⟨id, hmany⟩
  · rw [Lines.step, if_neg hrunning] at hnone
    exact absurd hnone hrunning

theorem documented_run_iff (config : Config) (lsPort : Byte) (chans : Bool → Channel)
    {events : List LineEvent}
    (hreturned : ((call lsPort line chans).run config events).result ≠ none) :
    Documented line ((call lsPort line chans).run config events) ↔ ShiftsRight line := by
  rcases going_run config lsPort line chans events with ⟨hnone, -⟩ | hout
  · exact absurd hnone hreturned
  · exact hout.documented_iff

/-- **Line selection.**  In every run of a call, with the channels in any state and interrupts
of both in between, a call that has returned has gone by the protocol if and only if the line is
0, or not 2 and with bits 0 and 6 clear; no access of the routine changes the other channel; and
behind a poll that sees all-sent the routine returns, with its next 17 accesses. -/
theorem linsel_documented_iff (config : Config) (lsPort line : Byte) (chans : Bool → Channel)
    (events : List LineEvent) :
    (((call lsPort line chans).run config events).result ≠ none →
      (Documented line ((call lsPort line chans).run config events) ↔ ShiftsRight line)) ∧
    (∀ front val back, events = front ++ LineEvent.main val :: back →
      ((call lsPort line chans).run config (front ++ [.main val])).other =
        ((call lsPort line chans).run config front).other) ∧
    (∀ front val back, events = front ++ LineEvent.main val :: back →
      ((call lsPort line chans).run config front).chosen.pc = .readRr1 line →
      val &&& 0x01#8 ≠ 0#8 → 17 ≤ back.countP LineEvent.IsMain →
      ((call lsPort line chans).run config events).result ≠ none) := by
  refine ⟨documented_run_iff config lsPort chans, fun front val back _ => ?_,
    fun front val back heq hpc hsent hmany =>
      heq ▸ returns_behind_poll config lsPort line chans front val back hpc hsent hmany⟩
  rw [run_append]
  generalize (call lsPort line chans).run config front = s
  show (s.step config (.main val)).other = s.other
  rw [Lines.step]
  split
  · exact access_other config val s
  · rfl

end Lines

/-- Line 2 on SIO-A, all sent at once: RTS is not driven. -/
theorem linsel_not_documented :
    ¬∀ (config : Config) (lsPort line : Byte) (chans : Bool → Channel) (events : List LineEvent),
      ((Lines.call lsPort line chans).run config events).result ≠ none →
      Lines.Documented line ((Lines.call lsPort line chans).run config events) := by
  intro hall
  have hreturned := Lines.returns_behind_poll ⟨0x60#8, 0x1B#8⟩ 0#8 2#8
    (fun _ => start ⟨0x60#8, 0x1B#8⟩) [.main 0x01#8] 0x01#8 (List.replicate 17 (.main 0x01#8)) rfl
    (by decide) (by decide)
  have hdoc := (Lines.documented_run_iff _ _ _ hreturned).mp (hall _ _ _ _ _ hreturned)
  exact absurd hdoc (by unfold Lines.ShiftsRight; decide)

end Serial
end Rc700
