import Rc700.Interrupts.Display

/-!
# The exit routine

`EXIT` stores a routine and then its countdown, with interrupts on.  A countdown that is
still running and expires between the two stores starts the new routine.  Where this does
not happen, the interrupt calls only the routine registered last, as many ticks later as it
was registered for (`exit_routine_on_time`).
-/

namespace Rc700
namespace Interrupts

open Library Console
open Prog (store load)
open Environment (Stable Triple)

/-! ### What the trace says -/

/-- The last call of `EXIT` that is complete, and the ticks since. -/
def lastExit : List Mark → Option (Word × Word × Nat)
  | [] => none
  | .exitStored hl de :: _ => some (hl, de, 0)
  | .tick :: marks => (lastExit marks).map fun last => (last.1, last.2.1, last.2.2 + 1)
  | _ :: marks => lastExit marks

/-- `EXIT` has stored a routine, and not yet its countdown. -/
def routineStored : List Mark → Bool
  | [] => false
  | .exitRoutine _ :: _ => true
  | .exitStored _ _ :: _ => false
  | _ :: marks => routineStored marks

/-- `routine` is that of the call, whose countdown has just expired. -/
def Expires (routine : Word) (last : Option (Word × Word × Nat)) : Prop :=
  ∃ count : Word, last = some (routine, count, count.toNat) ∧ 0 < count.toNat

/-- Only the routine registered last is called, when its countdown expires. -/
def ExitLaw (trace : List Mark) : Prop :=
  ∀ newer routine older, trace = newer ++ .invoked routine :: older →
    Expires routine (lastExit older)

theorem exitLaw_nil : ExitLaw [] := by
  intro newer routine older htrace
  cases newer with
  | nil => exact nomatch htrace
  | cons first newer => exact nomatch htrace

theorem ExitLaw.cons {m : Mark} {trace : List Mark} (h : ExitLaw trace)
    (hm : ∀ routine, m = .invoked routine → Expires routine (lastExit trace)) :
    ExitLaw (m :: trace) := by
  intro newer routine older htrace
  cases newer with
  | nil =>
      obtain ⟨hhead, rfl⟩ := List.cons.inj htrace
      exact hm routine hhead
  | cons first newer => exact h newer routine older (List.cons.inj htrace).2

/-- A mark of the clock or the motor. -/
def Mark.unrelated : Mark → Bool
  | .clockSet _ _ => true
  | .clockLow => true
  | .clockStored => true
  | .clockGot _ _ => true
  | .motorTimer _ _ => true
  | _ => false

variable {m : Mark} {trace : List Mark}

theorem lastExit_unrelated (hm : m.unrelated = true) :
    lastExit (m :: trace) = lastExit trace := by
  cases m <;> first | rfl | exact nomatch hm

theorem routineStored_unrelated (hm : m.unrelated = true) :
    routineStored (m :: trace) = routineStored trace := by
  cases m <;> first | rfl | exact nomatch hm

theorem ExitLaw.note (h : ExitLaw trace) (hm : ∀ routine, m ≠ .invoked routine) :
    ExitLaw (m :: trace) :=
  h.cons fun routine hinvoked => absurd hinvoked (hm routine)

/-! ### The invariant -/

/-- No tick makes a countdown expire while the routine is stored and its own countdown is
not. -/
def NoEarlyRoutine (s : Bios) : Prop := ¬(routineStored s.trace = true ∧ s.timer1 = 1#16)

/-- A countdown that runs is that of the last call. -/
structure Armed (s : Bios) : Prop where
  law : ExitLaw s.trace
  whole : routineStored s.trace = false
  timer : s.timer1 = 0#16 ∨ ∃ (count : Word) (n : Nat),
    lastExit s.trace = some (s.warmjp, count, n) ∧ n + s.timer1.toNat = count.toNat

/-- The routine has been stored. -/
structure HalfArmed (hl : Word) (s : Bios) : Prop where
  law : ExitLaw s.trace
  half : routineStored s.trace = true
  routine : s.warmjp = hl

/-- Ticks without an early routine. -/
abbrev punctual : Environment Bios Unit := environment NoEarlyRoutine

theorem down_toNat {timer : Word} (hzero : timer ≠ 0#16) :
    (down timer).toNat + 1 = timer.toNat := by
  have hpos : timer.toNat ≠ 0 := fun h => hzero (BitVec.eq_of_toNat_eq h)
  have hlt := timer.isLt
  rw [down, if_neg hzero, BitVec.toNat_sub]
  show (65536 - 1 + timer.toNat) % 65536 + 1 = timer.toNat
  omega

theorem stable_armed : punctual.Stable Armed := by
  refine stable_of_isrCrt fun s _ _ hs => ?_
  have htick : ExitLaw (.tick :: s.trace) := hs.law.note fun _ => nofun
  rw [isrCrt_eq]
  by_cases hone : s.timer1 = 1#16
  · -- the countdown expires
    -- the countdown was that of the last EXIT, so it is as old as its count
    have hexpires : Expires s.warmjp (lastExit (.tick :: s.trace)) := by
      rcases hs.timer with hzero | ⟨count, n, hlast, hcount⟩
      · exact absurd (hzero.symm.trans hone) (by decide)
      · rw [hone] at hcount
        change n + 1 = count.toNat at hcount
        refine ⟨count, ?_, by omega⟩
        show (lastExit s.trace).map _ = _
        rw [hlast, ← hcount]
        rfl
    have hinvoked : ExitLaw (.invoked s.warmjp :: .tick :: s.trace) := by
      refine htick.cons fun routine hroutine => ?_
      cases hroutine
      exact hexpires
    simp only [if_pos hone]
    refine ⟨hinvoked, hs.whole, .inl ?_⟩
    rw [hone]
    rfl
  · simp only [if_neg hone]
    refine ⟨htick, hs.whole, ?_⟩
    rcases hs.timer with hzero | ⟨count, n, hlast, hcount⟩
    · exact .inl (if_pos hzero)
    · by_cases hzero : s.timer1 = 0#16
      · exact .inl (if_pos hzero)
      · refine .inr ⟨count, n + 1, ?_, ?_⟩
        · show (lastExit s.trace).map _ = _
          rw [hlast]
          rfl
        · have hdown := down_toNat hzero
          show n + 1 + (down s.timer1).toNat = count.toNat
          omega

theorem stable_halfArmed (hl : Word) : punctual.Stable (HalfArmed hl) := by
  refine stable_of_isrCrt fun s hallowed _ hs => ?_
  have hone : s.timer1 ≠ 1#16 := fun hone => hallowed ⟨hs.half, hone⟩
  rw [isrCrt_eq]
  simp only [if_neg hone]
  exact ⟨hs.law.note fun _ => nofun, hs.half, hs.routine⟩

/-! ### EXIT -/

/-- During a call the law holds, and at its end the countdown is that of the last call. -/
abbrev Arms (P : Bios → Prop) (prog : Prog Bios Unit) : Prop :=
  punctual.Triple (fun s => ExitLaw s.trace) P prog fun _ => Armed

theorem arms_biosExit (hl de : Word) : Arms Armed (biosExit hl de) := by
  have hroutine : punctual.Triple (fun s => ExitLaw s.trace) Armed
      (store fun s : Bios => { s with warmjp := hl }.note (.exitRoutine hl))
      fun _ => HalfArmed hl :=
    Triple.store stable_armed (fun _ hs => hs.law) (stable_halfArmed hl) (fun _ hs => hs.law)
      fun s hs => ⟨hs.law.note fun _ => nofun, rfl, rfl⟩
  have hcount : Arms (HalfArmed hl)
      (store fun s : Bios => { s with timer1 := de }.note (.exitStored hl de)) := by
    refine Triple.store (stable_halfArmed hl) (fun _ hs => hs.law) stable_armed
      (fun _ hs => hs.law) fun s hs => ⟨hs.law.note fun _ => nofun, rfl, .inr ?_⟩
    refine ⟨de, 0, ?_, Nat.zero_add _⟩
    show some (hl, de, 0) = some (s.warmjp, de, 0)
    rw [hs.routine]
  exact hroutine.bind fun _ => hcount

/-! ### All calls -/

theorem Armed.congr {s t : Bios} (hs : Armed s) (htrace : t.trace = s.trace)
    (hwarmjp : t.warmjp = s.warmjp) (htimer1 : t.timer1 = s.timer1) : Armed t := by
  refine ⟨?_, ?_, ?_⟩
  · rw [htrace]
    exact hs.law
  · rw [htrace]
    exact hs.whole
  · rw [htrace, hwarmjp, htimer1]
    exact hs.timer

theorem Armed.note {s : Bios} (hs : Armed s) (hm : m.unrelated = true) : Armed (s.note m) where
  law := by
    refine hs.law.note fun routine hinvoked => ?_
    rw [hinvoked] at hm
    exact nomatch hm
  whole := (routineStored_unrelated hm).trans hs.whole
  timer := by
    show s.timer1 = 0#16 ∨ ∃ count n, lastExit (m :: s.trace) = _ ∧ _
    rw [lastExit_unrelated hm]
    exact hs.timer

/-- During every call the law holds, and between calls a countdown is that of the last
one. -/
theorem respects_exit (config : Config) :
    Served.Respects punctual (body config) Armed fun _ s => ExitLaw s.trace where
  stable := stable_armed
  triple := by
    have hkept {prog : Prog Bios Unit} (hprog : prog.Keeps Armed) : Arms Armed prog :=
      (Triple.keeps stable_armed hprog).weaken fun _ hs => hs.law
    intro c
    cases c with
    | conout con c =>
        exact hkept (keeps_biosConout (fun _ _ hs => hs.congr rfl rfl rfl) config con c)
    | clock a de hl =>
        exact hkept (keeps_biosClock
          (fun _ _ _ hs => ⟨hs.note rfl, hs.note rfl, hs.note rfl, hs.note rfl⟩)
          (fun _ _ hs => hs.congr rfl rfl rfl) (fun _ _ hs => hs.congr rfl rfl rfl)
          (fun _ _ hs => hs.congr rfl rfl rfl) a de hl)
    | exit hl de => exact arms_biosExit hl de
    | fdstar =>
        exact hkept (keeps_fdstar (fun _ _ _ hs => hs.note rfl)
          (fun _ _ hs => hs.congr rfl rfl rfl) (fun _ _ hs => hs.congr rfl rfl rfl)
          (fun _ _ hs => hs.congr rfl rfl rfl) fun _ _ hs => hs.congr rfl rfl rfl)

/-- **A routine is called on time.**  In every run in which no countdown expires between the
two stores of `EXIT`, each call by the interrupt is that of the routine registered last, as
many ticks after its registration as were asked for, which is at least one. -/
theorem exit_routine_on_time (config : Config) (screen : Nat → Byte) (mini motor : Bool)
    (stptim : Word) (events : List Event)
    (hpunctual : EveryStep (step config) (Served.Admissible (environment NoEarlyRoutine))
      (start screen mini motor stptim) events) :
    ExitLaw (run config (start screen mini motor stptim) events).shared.trace := by
  have hstart : Armed (Bios.start screen mini motor stptim) := ⟨exitLaw_nil, rfl, .inl rfl⟩
  have hholds := (respects_exit config).holds hpunctual hstart
  exact hholds.always (P := fun s => ExitLaw s.trace) (fun hidle => hidle.law)
    fun _ _ _ hduring => hduring

/-- A routine is registered for one tick, and replaced by another, for five, with the tick
between the two stores. -/
def replaced : List Event :=
  [.call (.exit 0x1000#16 1#16), .main, .main, .main,
    .call (.exit 0x2000#16 5#16), .main, .interrupt ()]

/-- The second routine is called at once. -/
theorem exit_routine_early : ¬∀ config screen mini motor stptim events,
    ExitLaw (run config (start screen mini motor stptim) events).shared.trace := by
  intro hlaw
  have hcall := hlaw ⟨0#8, id⟩ (fun _ => 0#8) false true 250#16 replaced [] 0x2000#16
    [.tick, .exitRoutine 0x2000#16, .exitStored 0x1000#16 1#16, .exitRoutine 0x1000#16]
    (by decide)
  obtain ⟨count, hlast, -⟩ := hcall
  have hroutine : (0x1000#16 : Word) = 0x2000#16 := congrArg Prod.fst (Option.some.inj hlast)
  exact absurd hroutine (by decide)

/-- Two routines, one after the other. -/
theorem exit_routine_on_time_twice :
    ExitLaw (run ⟨0#8, id⟩ (start (fun _ => 0#8) false true 250#16)
      [.call (.exit 0x1000#16 1#16), .main, .main, .main, .interrupt (),
        .call (.exit 0x2000#16 2#16), .main, .interrupt (), .main, .main, .interrupt (),
        .interrupt ()]).shared.trace := by
  refine exit_routine_on_time ⟨0#8, id⟩ (fun _ => 0#8) false true 250#16 _ ?_
  refine ⟨trivial, trivial, trivial, trivial, ?_, trivial, trivial, ?_, trivial, trivial, ?_, ?_,
    trivial⟩
  · exact fun hearly => Bool.false_ne_true hearly.1
  · exact fun hearly => absurd hearly.2 (by decide)
  · exact fun hearly => Bool.false_ne_true hearly.1
  · exact fun hearly => Bool.false_ne_true hearly.1

end Interrupts
end Rc700
