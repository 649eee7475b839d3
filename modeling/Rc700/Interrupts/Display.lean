import Rc700.Console.Accesses

/-!
# The display interrupt

`isr_crt` of `rcbios-in-c/bios.c` runs fifty times a second.  It shows the cursor, counts
the clock and runs down three timers, whose variables it shares with `CONOUT`, `CLOCK`,
`EXIT` and the motor control of the disk driver.

Each of these is code that may be interrupted between two of its accesses.  What can be seen
of them is written down in a trace.
-/

namespace Rc700
namespace Interrupts

open Library Console
open Prog (store load)

/-- What can be seen of the interrupt and of the calls. -/
inductive Mark
  /-- The display interrupt begins. -/
  | tick
  /-- `CLOCK` begins to set the clock, has stored the low word, and has stored both. -/
  | clockSet (de hl : Word)
  | clockLow
  | clockStored
  /-- `CLOCK` returns a reading. -/
  | clockGot (de hl : Word)
  /-- `EXIT` has stored the routine, and the countdown as well. -/
  | exitRoutine (hl : Word)
  | exitStored (hl de : Word)
  /-- The interrupt calls the routine. -/
  | invoked (routine : Word)
  /-- `fdstar` reloads the motor timer, with the motor on or off, and will wait or not. -/
  | motorTimer (wasOn waits : Bool)
  deriving DecidableEq, Repr

/-- The variables that the display interrupt shares with the rest, and the hardware it
drives. -/
structure Bios where
  crt : Crt
  /-- The cursor position programmed last into the 8275. -/
  cursor : Nat × Nat
  rtc0 : Word
  rtc2 : Word
  timer1 : Word
  timer2 : Word
  delayTicks : Word
  warmjp : Word
  fdtimoVar : Byte
  stptimVar : Word
  /-- Bit 7 of port `sw1`: mini drives. -/
  mini : Bool
  motor : Bool
  /-- Interrupts are on. -/
  enabled : Bool
  /-- Newest first. -/
  trace : List Mark

/-- Write down a mark. -/
def Bios.note (m : Mark) (s : Bios) : Bios := { s with trace := m :: s.trace }

/-! ### The interrupt -/

/-- `if (cur_dirty)` -/
def showCursor (s : Bios) : Bios :=
  if s.crt.curDirty then
    { s with crt := { s.crt with curDirty := false }, cursor := (s.crt.curx, s.crt.cursy) }
  else s

/-- `rtc0++` with its carry. -/
def countClock (s : Bios) : Bios :=
  let rtc0 := s.rtc0 + 1#16
  if rtc0 = 0#16 then { s with rtc0 := rtc0, rtc2 := s.rtc2 + 1#16 } else { s with rtc0 := rtc0 }

/-- The exit routine countdown. -/
def countExit (s : Bios) : Bios :=
  if s.timer1 ≠ 0#16 then
    let s := { s with timer1 := s.timer1 - 1#16 }
    if s.timer1 = 0#16 then s.note (.invoked s.warmjp) else s
  else s

def fdstop (s : Bios) : Bios := if s.mini then { s with motor := false } else s

/-- The motor-off countdown. -/
def countMotor (s : Bios) : Bios :=
  if s.timer2 ≠ 0#16 then
    let s := { s with timer2 := s.timer2 - 1#16 }
    if s.timer2 = 0#16 then fdstop s else s
  else s

/-- The general delay timer. -/
def countDelay (s : Bios) : Bios :=
  if s.delayTicks ≠ 0#16 then { s with delayTicks := s.delayTicks - 1#16 } else s

def isrCrt (s : Bios) : Bios :=
  countDelay (countMotor (countExit (countClock (showCursor (s.note .tick)))))

theorem showCursor_eq (s : Bios) :
    showCursor s = { s with
      crt := { s.crt with curDirty := false }
      cursor := if s.crt.curDirty then (s.crt.curx, s.crt.cursy) else s.cursor } := by
  unfold showCursor
  cases hdirty : s.crt.curDirty with
  | true => rfl
  | false =>
      -- the flag was down already
      have hcrt : { s.crt with curDirty := false } = s.crt := by rw [← hdirty]
      rw [hcrt]
      rfl

theorem countClock_eq (s : Bios) :
    countClock s = { s with
      rtc0 := s.rtc0 + 1#16
      rtc2 := if s.rtc0 + 1#16 = 0#16 then s.rtc2 + 1#16 else s.rtc2 } := by
  unfold countClock
  dsimp only
  split
  · rfl
  · rfl

/-- A countdown that stops at zero. -/
def down (timer : Word) : Word := if timer = 0#16 then 0#16 else timer - 1#16

theorem sub_one_eq_zero_iff (timer : Word) : timer - 1#16 = 0#16 ↔ timer = 1#16 := by
  constructor
  · intro h
    rw [← BitVec.sub_add_cancel timer 1#16, h]
    rfl
  · rintro rfl
    rfl

theorem countExit_eq (s : Bios) :
    countExit s = { s with
      timer1 := down s.timer1
      trace := if s.timer1 = 1#16 then .invoked s.warmjp :: s.trace else s.trace } := by
  unfold countExit down
  dsimp only
  by_cases hzero : s.timer1 = 0#16
  · have hone : s.timer1 ≠ 1#16 := by simp [hzero]
    rw [if_neg (not_not.mpr hzero), if_pos hzero, if_neg hone, ← hzero]
  · rw [if_pos hzero, if_neg hzero]
    by_cases hone : s.timer1 = 1#16
    · rw [if_pos ((sub_one_eq_zero_iff _).mpr hone), if_pos hone]
      rfl
    · rw [if_neg (fun h => hone ((sub_one_eq_zero_iff _).mp h)), if_neg hone]

theorem countMotor_eq (s : Bios) :
    countMotor s = { s with
      timer2 := down s.timer2
      motor := if s.timer2 = 1#16 ∧ s.mini = true then false else s.motor } := by
  unfold countMotor down fdstop
  dsimp only
  by_cases hzero : s.timer2 = 0#16
  · have hone : ¬(s.timer2 = 1#16 ∧ s.mini = true) := by simp [hzero]
    rw [if_neg (not_not.mpr hzero), if_pos hzero, if_neg hone, ← hzero]
  · rw [if_pos hzero, if_neg hzero]
    by_cases hone : s.timer2 = 1#16
    · rw [if_pos ((sub_one_eq_zero_iff _).mpr hone)]
      by_cases hmini : s.mini = true
      · rw [if_pos hmini, if_pos ⟨hone, hmini⟩]
      · rw [if_neg hmini, if_neg fun h => hmini h.2]
    · rw [if_neg (fun h => hone ((sub_one_eq_zero_iff _).mp h)), if_neg fun h => hone h.1]

theorem countDelay_eq (s : Bios) :
    countDelay s = { s with delayTicks := down s.delayTicks } := by
  unfold countDelay down
  by_cases hzero : s.delayTicks = 0#16
  · rw [if_neg (not_not.mpr hzero), if_pos hzero, ← hzero]
  · rw [if_pos hzero, if_neg hzero]

/-- **All that the interrupt does.** -/
theorem isrCrt_eq (s : Bios) :
    isrCrt s = { s with
      crt := { s.crt with curDirty := false }
      cursor := if s.crt.curDirty then (s.crt.curx, s.crt.cursy) else s.cursor
      rtc0 := s.rtc0 + 1#16
      rtc2 := if s.rtc0 + 1#16 = 0#16 then s.rtc2 + 1#16 else s.rtc2
      timer1 := down s.timer1
      timer2 := down s.timer2
      motor := if s.timer2 = 1#16 ∧ s.mini = true then false else s.motor
      delayTicks := down s.delayTicks
      trace := if s.timer1 = 1#16 then .invoked s.warmjp :: .tick :: s.trace
        else .tick :: s.trace } := by
  unfold isrCrt
  rw [countDelay_eq, countMotor_eq, countExit_eq, countClock_eq, showCursor_eq]
  rfl

/-! ### The calls -/

/-- `CLOCK`.  Interrupts are taken again only after the instruction that follows `ei`, so
that the reading is returned together with it. -/
def biosClock (a : Byte) (de hl : Word) : Prog Bios Unit :=
  if a = 0#8 then do
    store fun s => s.note (.clockSet de hl)
    store fun s => { s with rtc0 := de }.note .clockLow
    store fun s => { s with rtc2 := hl }.note .clockStored
  else do
    store fun s => { s with enabled := false }
    let de ← load fun s => s.rtc0
    let hl ← load fun s => s.rtc2
    store fun s => { s with enabled := true }.note (.clockGot de hl)

/-- `EXIT` -/
def biosExit (hl de : Word) : Prog Bios Unit := do
  store fun s => { s with warmjp := hl }.note (.exitRoutine hl)
  store fun s => { s with timer1 := de }.note (.exitStored hl de)

def waitd (ticks : Word) : Prog Bios Unit := do
  store fun s => { s with delayTicks := ticks }
  Prog.waitFor fun s => s.delayTicks = 0#16

def fdstar : Prog Bios Unit := do
  let mini ← load fun s => s.mini
  Prog.when (mini = true) do
    store fun s => { s with enabled := false }
    let timer2 ← load fun s => s.timer2
    if timer2 = 0#16 then do
      -- the motor was stopped
      store fun s => { s with timer2 := s.fdtimoVar.setWidth 16 }.note (.motorTimer s.motor true)
      store fun s => { s with enabled := true }
      store fun s => { s with motor := true }
      waitd 50#16
    else do
      store fun s => { s with timer2 := s.fdtimoVar.setWidth 16 }.note (.motorTimer s.motor false)
      store fun s => { s with enabled := true }

inductive Call
  | conout (con : Con) (c : Byte)
  | clock (a : Byte) (de hl : Word)
  | exit (hl de : Word)
  | fdstar
  deriving DecidableEq, Repr

/-- `CONOUT` touches the console's variables only. -/
def biosConout (config : Config) (con : Con) (c : Byte) : Prog Bios Unit :=
  (Accesses.biosConoutC config con c).focus Bios.crt fun s crt => { s with crt := crt }

def body (config : Config) : Call → Prog Bios Unit
  | .conout con c => biosConout config con c
  | .clock a de hl => biosClock a de hl
  | .exit hl de => biosExit hl de
  | .fdstar => fdstar

/-! ### What the calls leave alone -/

section Frame

variable {P : Bios → Prop}

theorem keeps_biosConout (hcrt : ∀ s crt, P s → P { s with crt := crt }) (config : Config)
    (con : Con) (c : Byte) : (biosConout config con c).Keeps P :=
  Prog.keeps_focus hcrt _

theorem keeps_biosClock (hnote : ∀ s de hl, P s →
      P (s.note (.clockSet de hl)) ∧ P (s.note .clockLow) ∧ P (s.note .clockStored) ∧
        P (s.note (.clockGot de hl)))
    (hrtc0 : ∀ s w, P s → P { s with rtc0 := w }) (hrtc2 : ∀ s w, P s → P { s with rtc2 := w })
    (henabled : ∀ s b, P s → P { s with enabled := b }) (a : Byte) (de hl : Word) :
    (biosClock a de hl).Keeps P := by
  unfold biosClock
  split
  · refine Prog.Keeps.bind (Prog.keeps_store fun s hs => (hnote s de hl hs).1) fun _ => ?_
    refine Prog.Keeps.bind (Prog.keeps_store fun s hs => (hnote _ de hl (hrtc0 s de hs)).2.1)
      fun _ => ?_
    exact Prog.keeps_store fun s hs => (hnote _ de hl (hrtc2 s hl hs)).2.2.1
  · refine Prog.Keeps.bind (Prog.keeps_store fun s hs => henabled s _ hs) fun _ => ?_
    refine (Prog.keeps_load _).bind fun de => (Prog.keeps_load _).bind fun hl => ?_
    exact Prog.keeps_store fun s hs => (hnote _ de hl (henabled s _ hs)).2.2.2

theorem keeps_biosExit (hnote : ∀ s hl de, P s →
      P (s.note (.exitRoutine hl)) ∧ P (s.note (.exitStored hl de)))
    (hwarmjp : ∀ s w, P s → P { s with warmjp := w })
    (htimer1 : ∀ s w, P s → P { s with timer1 := w }) (hl de : Word) :
    (biosExit hl de).Keeps P :=
  Prog.Keeps.bind (Prog.keeps_store fun s hs => (hnote _ hl de (hwarmjp s hl hs)).1) fun _ =>
    Prog.keeps_store fun s hs => (hnote _ hl de (htimer1 s de hs)).2

theorem keeps_waitd (hdelay : ∀ s w, P s → P { s with delayTicks := w }) (ticks : Word) :
    (waitd ticks).Keeps P :=
  Prog.Keeps.bind (Prog.keeps_store fun s hs => hdelay s ticks hs) fun _ => trivial

theorem keeps_fdstar (hnote : ∀ s wasOn waits, P s → P (s.note (.motorTimer wasOn waits)))
    (htimer2 : ∀ s w, P s → P { s with timer2 := w })
    (henabled : ∀ s b, P s → P { s with enabled := b })
    (hmotor : ∀ s b, P s → P { s with motor := b })
    (hdelay : ∀ s w, P s → P { s with delayTicks := w }) : fdstar.Keeps P := by
  refine (Prog.keeps_load _).bind fun mini => ?_
  unfold Prog.when
  split
  · refine Prog.Keeps.bind (Prog.keeps_store fun s hs => henabled s _ hs) fun _ => ?_
    refine (Prog.keeps_load _).bind fun timer2 => ?_
    split
    · refine Prog.Keeps.bind (Prog.keeps_store fun s hs => hnote _ _ _ (htimer2 s _ hs))
        fun _ => ?_
      refine Prog.Keeps.bind (Prog.keeps_store fun s hs => henabled s _ hs) fun _ => ?_
      refine Prog.Keeps.bind (Prog.keeps_store fun s hs => hmotor s _ hs) fun _ => ?_
      exact keeps_waitd hdelay _
    · refine Prog.Keeps.bind (Prog.keeps_store fun s hs => hnote _ _ _ (htimer2 s _ hs))
        fun _ => ?_
      exact Prog.keeps_store fun s hs => henabled s _ hs
  · exact trivial

end Frame

/-! ### The machine -/

/-- The display interrupt, which waits while interrupts are off. -/
def handle (_ : Unit) (s : Bios) : Bios := if s.enabled then isrCrt s else s

/-- The display interrupt may come where `allowed` holds. -/
def environment (allowed : Bios → Prop) : Environment Bios Unit := ⟨handle, fun s _ => allowed s⟩

/-- What the interrupt keeps, if it runs at all. -/
theorem stable_of_isrCrt {allowed : Bios → Prop} {P : Bios → Prop}
    (hP : ∀ s, allowed s → s.enabled = true → P s → P (isrCrt s)) :
    (environment allowed).Stable P := by
  intro s i hallowed hs
  show P (handle i s)
  unfold handle
  split
  · exact hP s hallowed ‹_› hs
  · exact hs

abbrev Event := Served.Event Unit Call

def step (config : Config) : Served Bios Call → Event → Served Bios Call :=
  Served.step handle (body config)

/-- The display interrupt may come at any time. -/
abbrev anytime : Environment Bios Unit := environment fun _ => True

/-- An interrupt that may come at any time is admissible. -/
theorem everyStep_anytime (config : Config) (x : Served Bios Call) (events : List Event) :
    EveryStep (step config) (Served.Admissible anytime) x events := by
  induction events generalizing x with
  | nil => exact trivial
  | cons event events ih =>
      refine ⟨?_, ih _⟩
      cases event with
      | call c => exact trivial
      | main => exact trivial
      | interrupt i => exact trivial

/-- A run of calls and interrupts. -/
def run (config : Config) (x : Served Bios Call) (events : List Event) : Served Bios Call :=
  events.foldl (step config) x

/-- After `bios_hw_init`, which clears the work area, programs the cursor and copies the
stop time of the configuration.  The motor is as the loader left it. -/
def Bios.start (screen : Nat → Byte) (mini motor : Bool) (stptim : Word) : Bios where
  crt := Crt.start screen
  cursor := (0, 0)
  rtc0 := 0#16
  rtc2 := 0#16
  timer1 := 0#16
  timer2 := 0#16
  delayTicks := 0#16
  warmjp := 0#16
  fdtimoVar := 0#8
  stptimVar := stptim
  mini := mini
  motor := motor
  enabled := true
  trace := []

def start (screen : Nat → Byte) (mini motor : Bool) (stptim : Word) : Served Bios Call :=
  ⟨.start screen mini motor stptim, none⟩

end Interrupts
end Rc700
