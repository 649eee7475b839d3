import Rc700.Interrupts.Display

/-!
# The motor of the mini drives

`fdstar` starts the motor and loads the motor-off countdown from `fdtimo_var`.  The stop
time of the configuration is copied into `stptim_var` instead, which nothing reads, and
`fdtimo_var` keeps the zero of the initialisation.  So the countdown never runs, the motor
once started stays on, and every `fdstar` waits for it to spin up (`motor_law_iff`).
-/

namespace Rc700
namespace Interrupts

open Library Console
open Prog (store load)
open Environment (Stable Triple)

/-! ### What the trace says -/

/-- The ticks since `fdstar` loaded the countdown last. -/
def lastReload : List Mark → Option Nat
  | [] => none
  | .motorTimer _ _ :: _ => some 0
  | .tick :: marks => (lastReload marks).map (· + 1)
  | _ :: marks => lastReload marks

/-- `fdstar` is running. -/
def InFdstar (x : Served Bios Call) : Prop := ∃ prog, x.main = some (.fdstar, prog)

/-- Motor control between calls of `fdstar`, for a stop time. -/
structure MotorRight (stptim : Word) (s : Bios) : Prop where
  /-- The motor is on while the countdown runs. -/
  on_iff : s.motor = true ↔ s.timer2 ≠ 0#16
  /-- It stays on for the stop time after the countdown was loaded. -/
  lasts : s.motor = true ↔ ∃ n, lastReload s.trace = some n ∧ n < stptim.toNat
  /-- Every call has waited if the motor was off. -/
  spins : ∀ wasOn waits, .motorTimer wasOn waits ∈ s.trace → waits = !wasOn

/-- Whenever `fdstar` is not running, the motor is under control. -/
def MotorLaw (stptim : Word) (x : Served Bios Call) : Prop :=
  ¬InFdstar x → MotorRight stptim x.shared

/-- A mark other than that of `fdstar`. -/
def Mark.notMotor : Mark → Bool
  | .motorTimer _ _ => false
  | _ => true

variable {m : Mark} {trace : List Mark} {wasOn : Bool}

theorem lastReload_eq_none_cons (hm : m.notMotor = true) :
    lastReload (m :: trace) = none ↔ lastReload trace = none := by
  cases m with
  | tick => exact Option.map_eq_none_iff
  | motorTimer wasOn waits => exact nomatch hm
  | _ => exact Iff.rfl

theorem not_mem_of_lastReload (h : lastReload trace = none) (wasOn waits : Bool) :
    .motorTimer wasOn waits ∉ trace := by
  induction trace with
  | nil => exact List.not_mem_nil
  | cons m trace ih =>
      have hm : m.notMotor = true := by
        cases m with
        | motorTimer wasOn waits => exact nomatch h
        | _ => rfl
      rintro (_ | ⟨_, hmem⟩)
      · exact nomatch hm
      · exact ih ((lastReload_eq_none_cons hm).mp h) hmem

/-! ### The invariant -/

/-- What nothing changes on a mini drive: the countdown is zero, and so is what it is
loaded from. -/
structure Stopped (s : Bios) : Prop where
  mini : s.mini = true
  fdtimoVar : s.fdtimoVar = 0#8
  timer2 : s.timer2 = 0#16

/-- The motor is on if it was so at first, and once `fdstar` has been called. -/
structure Stuck (wasOn : Bool) (s : Bios) : Prop extends Stopped s where
  motor : s.motor = true ↔ wasOn = true ∨ lastReload s.trace ≠ none

/-- `fdstar` has loaded the countdown. -/
structure Loaded (s : Bios) : Prop extends Stopped s where
  loaded : lastReload s.trace ≠ none

theorem isrCrt_motor {s : Bios} (hs : Stopped s) : (isrCrt s).motor = s.motor := by
  rw [isrCrt_eq]
  refine if_neg fun hone => ?_
  exact absurd (hs.timer2.symm.trans hone.1) (by decide)

theorem isrCrt_stopped {s : Bios} (hs : Stopped s) : Stopped (isrCrt s) := by
  rw [isrCrt_eq]
  exact ⟨hs.mini, hs.fdtimoVar, if_pos hs.timer2⟩

theorem isrCrt_lastReload (s : Bios) :
    lastReload (isrCrt s).trace = none ↔ lastReload s.trace = none := by
  rw [isrCrt_eq]
  dsimp only
  split
  · rw [lastReload_eq_none_cons rfl, lastReload_eq_none_cons rfl]
  · rw [lastReload_eq_none_cons rfl]

theorem stable_stuck : anytime.Stable (Stuck wasOn) := by
  refine stable_of_isrCrt fun s _ _ hs => ⟨isrCrt_stopped hs.toStopped, ?_⟩
  rw [isrCrt_motor hs.toStopped, Ne, isrCrt_lastReload]
  exact hs.motor

theorem stable_loaded : anytime.Stable Loaded := by
  refine stable_of_isrCrt fun s _ _ hs => ⟨isrCrt_stopped hs.toStopped, ?_⟩
  rw [Ne, isrCrt_lastReload]
  exact hs.loaded

/-! ### fdstar -/

/-- During the call nothing is claimed, and at its end the motor is stuck. -/
abbrev Sticks (wasOn : Bool) (P : Bios → Prop) (prog : Prog Bios Unit) : Prop :=
  anytime.Triple (fun _ => True) P prog fun _ => Stuck wasOn

theorem sticks_waitd (ticks : Word) : Sticks wasOn (Stuck wasOn) (waitd ticks) := by
  refine (Triple.keeps stable_stuck (keeps_waitd (fun _ _ hs => ?_) ticks)).weaken
    fun _ _ => trivial
  exact ⟨⟨hs.mini, hs.fdtimoVar, hs.timer2⟩, hs.motor⟩

/-- The countdown is loaded with zero. -/
theorem sticks_start : Sticks wasOn (Stuck wasOn) (do
    store fun s => { s with timer2 := s.fdtimoVar.setWidth 16 }.note (.motorTimer s.motor true)
    store fun s => { s with enabled := true }
    store fun s => { s with motor := true }
    waitd 50#16) := by
  have hload : anytime.Triple (fun _ => True) (Stuck wasOn)
      (store fun s : Bios =>
        { s with timer2 := s.fdtimoVar.setWidth 16 }.note (.motorTimer s.motor true))
      fun _ => Loaded := by
    refine Triple.store stable_stuck (fun _ _ => trivial) stable_loaded (fun _ _ => trivial)
      fun s hs => ⟨⟨hs.mini, hs.fdtimoVar, ?_⟩, nofun⟩
    show s.fdtimoVar.setWidth 16 = 0#16
    rw [hs.fdtimoVar]
    rfl
  have hon : anytime.Triple (fun _ => True) Loaded
      (store fun s : Bios => { s with enabled := true }) fun _ => Loaded :=
    Triple.store stable_loaded (fun _ _ => trivial) stable_loaded (fun _ _ => trivial)
      fun s hs => ⟨⟨hs.mini, hs.fdtimoVar, hs.timer2⟩, hs.loaded⟩
  have hmotor : Sticks wasOn Loaded (store fun s : Bios => { s with motor := true }) :=
    Triple.store stable_loaded (fun _ _ => trivial) stable_stuck (fun _ _ => trivial)
      fun s hs => ⟨⟨hs.mini, hs.fdtimoVar, hs.timer2⟩, fun _ => .inr hs.loaded, fun _ => rfl⟩
  exact hload.bind fun _ => hon.bind fun _ => hmotor.bind fun _ => sticks_waitd _

theorem sticks_fdstar : Sticks wasOn (Stuck wasOn) fdstar := by
  have hmini : anytime.Triple (fun _ => True) (Stuck wasOn) (load fun s : Bios => s.mini)
      fun mini s => Stuck wasOn s ∧ mini = true :=
    Triple.load stable_stuck (fun _ _ => trivial)
      (fun _ => stable_stuck.and fun _ _ _ hs => hs) (fun _ _ _ => trivial)
      fun s hs => ⟨hs, hs.mini⟩
  have hdi : Sticks wasOn (Stuck wasOn) (store fun s : Bios => { s with enabled := false }) :=
    Triple.store stable_stuck (fun _ _ => trivial) stable_stuck (fun _ _ => trivial)
      fun s hs => ⟨⟨hs.mini, hs.fdtimoVar, hs.timer2⟩, hs.motor⟩
  have htimer2 : anytime.Triple (fun _ => True) (Stuck wasOn) (load fun s : Bios => s.timer2)
      fun timer2 s => Stuck wasOn s ∧ timer2 = 0#16 :=
    Triple.load stable_stuck (fun _ _ => trivial)
      (fun _ => stable_stuck.and fun _ _ _ hs => hs) (fun _ _ _ => trivial)
      fun s hs => ⟨hs, hs.timer2⟩
  refine hmini.bind fun mini => ?_
  refine Triple.when (stable_stuck.and fun _ _ _ hs => hs) (fun _ _ => trivial) (fun _ => ?_)
    fun hmaxi s hs => absurd hs.2 hmaxi
  refine (hdi.bind fun _ => htimer2.bind fun timer2 => ?_).consequence (fun _ hs => hs.1)
    fun _ _ hs => hs
  refine .ite (fun _ => sticks_start.consequence (fun _ hs => hs.1) fun _ _ hs => hs) ?_
  -- the countdown is always found at zero
  exact fun hruns s hs => absurd hs.2 hruns

/-! ### All calls -/

theorem Stuck.congr {s t : Bios} (hs : Stuck wasOn s) (hmini : t.mini = s.mini)
    (hfdtimoVar : t.fdtimoVar = s.fdtimoVar) (htimer2 : t.timer2 = s.timer2)
    (hmotor : t.motor = s.motor) (htrace : lastReload t.trace = none ↔ lastReload s.trace = none) :
    Stuck wasOn t := by
  refine ⟨⟨hmini.trans hs.mini, hfdtimoVar.trans hs.fdtimoVar, htimer2.trans hs.timer2⟩, ?_⟩
  rw [hmotor, Ne, htrace]
  exact hs.motor

theorem Stuck.note {s : Bios} (hs : Stuck wasOn s) (hm : m.notMotor = true) :
    Stuck wasOn (s.note m) :=
  hs.congr rfl rfl rfl rfl (lastReload_eq_none_cons hm)

theorem respects_motor (config : Config) :
    Served.Respects anytime (body config) (Stuck wasOn) fun c s =>
      match c with
      | .fdstar => True
      | _ => Stuck wasOn s where
  stable := stable_stuck
  triple := by
    have hkept {prog : Prog Bios Unit} (hprog : prog.Keeps (Stuck wasOn)) :
        anytime.Triple (Stuck wasOn) (Stuck wasOn) prog fun _ => Stuck wasOn :=
      Triple.keeps stable_stuck hprog
    intro c
    cases c with
    | conout con c =>
        exact hkept (keeps_biosConout
          (fun _ _ hs => hs.congr rfl rfl rfl rfl Iff.rfl) config con c)
    | clock a de hl =>
        exact hkept (keeps_biosClock
          (fun _ _ _ hs => ⟨hs.note rfl, hs.note rfl, hs.note rfl, hs.note rfl⟩)
          (fun _ _ hs => hs.congr rfl rfl rfl rfl Iff.rfl)
          (fun _ _ hs => hs.congr rfl rfl rfl rfl Iff.rfl)
          (fun _ _ hs => hs.congr rfl rfl rfl rfl Iff.rfl) a de hl)
    | exit hl de =>
        exact hkept (keeps_biosExit
          (fun _ _ _ hs => ⟨hs.note rfl, hs.note rfl⟩)
          (fun _ _ hs => hs.congr rfl rfl rfl rfl Iff.rfl)
          (fun _ _ hs => hs.congr rfl rfl rfl rfl Iff.rfl) hl de)
    | fdstar => exact sticks_fdstar

/-- Outside `fdstar` the motor is on if and only if it was on at first or has been started. -/
theorem stuck_of_run (config : Config) (screen : Nat → Byte) (motor : Bool) (stptim : Word)
    (events : List Event)
    (hmain : ¬InFdstar (run config (start screen true motor stptim) events)) :
    Stuck motor (run config (start screen true motor stptim) events).shared := by
  have hstart : Stuck motor (Bios.start screen true motor stptim) :=
    ⟨⟨rfl, rfl, rfl⟩, .inl, fun hon => hon.resolve_right fun hloaded => hloaded rfl⟩
  have hholds := (respects_motor config).holds
    (everyStep_anytime config (start screen true motor stptim) events) hstart
  refine hholds.always id fun c prog hx hduring => ?_
  cases c with
  | conout con c => exact hduring
  | clock a de hl => exact hduring
  | exit hl de => exact hduring
  | fdstar => exact absurd ⟨prog, hx⟩ hmain

/-- **Motor control works until it is used.**  For every stop time, at any point of a run on
a mini drive, the motor is under control if and only if it was off at first and no call of
`fdstar` is complete. -/
theorem motor_law_iff (config : Config) (screen : Nat → Byte) (motor : Bool) (stptim : Word)
    (events : List Event) :
    let x := run config (start screen true motor stptim) events
    MotorLaw stptim x ↔ InFdstar x ∨ (motor = false ∧ lastReload x.shared.trace = none) := by
  intro x
  constructor
  · intro hlaw
    by_cases hmain : InFdstar x
    · exact .inl hmain
    · right
      have hstuck : Stuck motor x.shared := stuck_of_run config screen motor stptim events hmain
      have hoff : ¬(motor = true ∨ lastReload x.shared.trace ≠ none) := fun hon =>
        (hlaw hmain).on_iff.mp (hstuck.motor.mpr hon) hstuck.timer2
      exact ⟨Bool.eq_false_of_not_eq_true fun hon => hoff (.inl hon),
        by_contra fun hloaded => hoff (.inr hloaded)⟩
  · rintro (hmain | ⟨hbefore, hnone⟩) hnot
    · exact absurd hmain hnot
    · have hstuck : Stuck motor x.shared := stuck_of_run config screen motor stptim events hnot
      have hoff : x.shared.motor ≠ true := fun hon => (hstuck.motor.mp hon).elim
        (fun hwas => Bool.false_ne_true (hbefore.symm.trans hwas)) fun hloaded => hloaded hnone
      refine ⟨?_, ?_, ?_⟩
      · exact ⟨fun hon => absurd hon hoff, fun hruns => absurd hstuck.timer2 hruns⟩
      · refine ⟨fun hon => absurd hon hoff, ?_⟩
        rintro ⟨n, hn, -⟩
        exact nomatch hnone.symm.trans hn
      · exact fun wasOn waits hmem => absurd hmem (not_mem_of_lastReload hnone wasOn waits)

/-- One call of `fdstar`, with the fifty ticks it waits. -/
def oneCall : List Event :=
  .call .fdstar :: List.replicate 7 .main ++ List.replicate 50 (.interrupt ()) ++ [.main, .main]

/-- The motor is on and its countdown is zero. -/
theorem motor_unstoppable : ¬∀ config screen motor stptim events, stptim ≠ 0#16 →
    MotorLaw stptim (run config (start screen true motor stptim) events) := by
  intro hlaw
  have hidle : (run ⟨0#8, id⟩ (start (fun _ => 0#8) true false 250#16) oneCall).main.isNone =
      true := by
    decide +kernel
  have hright := hlaw ⟨0#8, id⟩ (fun _ => 0#8) false 250#16 oneCall (by decide)
    fun ⟨prog, hmain⟩ => by
      rw [hmain] at hidle
      exact Bool.false_ne_true hidle
  exact hright.on_iff.mp (by decide +kernel) (by decide +kernel)

end Interrupts
end Rc700
