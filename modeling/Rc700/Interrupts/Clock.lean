import Rc700.Interrupts.Display

/-!
# The clock

`CLOCK` reads both words of the clock with interrupts off.  It stores them one after the
other with interrupts on, and a tick in between that carries into the high word is lost,
since that word is stored next.  Where no such tick comes, every reading is the value set
last and the ticks since then (`clock_linear`).
-/

namespace Rc700
namespace Interrupts

open Library Console
open Prog (store load)
open Environment (Stable Triple)

/-! ### What the trace says -/

/-- The clock as one number. -/
def clockValue (de hl : Word) : Nat := hl.toNat * 65536 + de.toNat

/-- A setting of the clock: the value, the ticks since it was complete and since it began. -/
structure Setting where
  value : Nat
  after : Nat
  since : Nat
  deriving DecidableEq, Repr

def Setting.tick (last : Setting) : Setting :=
  { last with after := last.after + 1, since := last.since + 1 }

/-- The value that `CLOCK` was called to set last, and the ticks since it began. -/
def begun : List Mark → Nat × Nat
  | [] => (0, 0)
  | .clockSet de hl :: _ => (clockValue de hl, 0)
  | .tick :: marks => ((begun marks).1, (begun marks).2 + 1)
  | _ :: marks => begun marks

/-- The last setting that is complete; the first one is that of the initialisation. -/
def lastSetting : List Mark → Setting
  | [] => ⟨0, 0, 0⟩
  | .tick :: marks => (lastSetting marks).tick
  | .clockStored :: marks => ⟨(begun marks).1, 0, (begun marks).2⟩
  | _ :: marks => lastSetting marks

/-- The low word of a setting has been stored, and not yet the high word. -/
def halfSet : List Mark → Bool
  | [] => false
  | .clockLow :: _ => true
  | .clockStored :: _ => false
  | _ :: marks => halfSet marks

/-- `value` is the last setting and a number of ticks that may have come since. -/
def Follows (value : Nat) (last : Setting) : Prop :=
  ∃ k, last.after ≤ k ∧ k ≤ last.since ∧ value = (last.value + k) % 2 ^ 32

/-- Every reading follows the last setting before it. -/
def ClockLaw (trace : List Mark) : Prop :=
  ∀ newer de hl older, trace = newer ++ .clockGot de hl :: older →
    Follows (clockValue de hl) (lastSetting older)

theorem clockLaw_nil : ClockLaw [] := by
  intro newer de hl older htrace
  cases newer with
  | nil => exact nomatch htrace
  | cons first newer => exact nomatch htrace

theorem ClockLaw.cons {m : Mark} {trace : List Mark} (h : ClockLaw trace)
    (hm : ∀ de hl, m = .clockGot de hl → Follows (clockValue de hl) (lastSetting trace)) :
    ClockLaw (m :: trace) := by
  intro newer de hl older htrace
  cases newer with
  | nil =>
      obtain ⟨hhead, rfl⟩ := List.cons.inj htrace
      exact hm de hl hhead
  | cons first newer => exact h newer de hl older (List.cons.inj htrace).2

/-- A mark that is no reading. -/
theorem ClockLaw.note {m : Mark} {trace : List Mark} (h : ClockLaw trace)
    (hm : ∀ de hl, m ≠ .clockGot de hl) : ClockLaw (m :: trace) :=
  h.cons fun de hl hgot => absurd hgot (hm de hl)

/-- A mark that is not about the clock. -/
def Mark.foreign : Mark → Bool
  | .exitRoutine _ => true
  | .exitStored _ _ => true
  | .invoked _ => true
  | .motorTimer _ _ => true
  | _ => false

variable {m : Mark} {trace : List Mark}

theorem begun_tick : begun (.tick :: trace) = ((begun trace).1, (begun trace).2 + 1) := rfl

theorem lastSetting_tick : lastSetting (.tick :: trace) = (lastSetting trace).tick := rfl

theorem halfSet_tick : halfSet (.tick :: trace) = halfSet trace := rfl

theorem begun_foreign (hm : m.foreign = true) : begun (m :: trace) = begun trace := by
  cases m <;> first | rfl | exact nomatch hm

theorem lastSetting_foreign (hm : m.foreign = true) :
    lastSetting (m :: trace) = lastSetting trace := by
  cases m <;> first | rfl | exact nomatch hm

theorem halfSet_foreign (hm : m.foreign = true) : halfSet (m :: trace) = halfSet trace := by
  cases m <;> first | rfl | exact nomatch hm

theorem ClockLaw.foreign (h : ClockLaw trace) (hm : m.foreign = true) :
    ClockLaw (m :: trace) := by
  refine h.note fun de hl hgot => ?_
  rw [hgot] at hm
  exact nomatch hm

/-! ### The interrupt -/

/-- The interrupt and the routine it may call, in the trace. -/
theorem isrCrt_trace (s : Bios) : (isrCrt s).trace = .tick :: s.trace ∨
    ∃ routine, (isrCrt s).trace = .invoked routine :: .tick :: s.trace := by
  rw [isrCrt_eq]
  dsimp only
  split
  · exact .inr ⟨s.warmjp, rfl⟩
  · exact .inl rfl

theorem isrCrt_begun (s : Bios) :
    begun (isrCrt s).trace = ((begun s.trace).1, (begun s.trace).2 + 1) := by
  rcases isrCrt_trace s with htrace | ⟨routine, htrace⟩
  · rw [htrace, begun_tick]
  · rw [htrace, begun_foreign rfl, begun_tick]

theorem isrCrt_lastSetting (s : Bios) :
    lastSetting (isrCrt s).trace = (lastSetting s.trace).tick := by
  rcases isrCrt_trace s with htrace | ⟨routine, htrace⟩
  · rw [htrace, lastSetting_tick]
  · rw [htrace, lastSetting_foreign rfl, lastSetting_tick]

theorem isrCrt_halfSet (s : Bios) : halfSet (isrCrt s).trace = halfSet s.trace := by
  rcases isrCrt_trace s with htrace | ⟨routine, htrace⟩
  · rw [htrace, halfSet_tick]
  · rw [htrace, halfSet_foreign rfl, halfSet_tick]

theorem isrCrt_clockLaw {s : Bios} (h : ClockLaw s.trace) : ClockLaw (isrCrt s).trace := by
  have htick : ClockLaw (.tick :: s.trace) := h.note fun _ _ => nofun
  rcases isrCrt_trace s with htrace | ⟨routine, htrace⟩
  · rw [htrace]
    exact htick
  · rw [htrace]
    exact htick.foreign rfl

/-- One tick of the clock. -/
theorem isrCrt_value (s : Bios) :
    clockValue (isrCrt s).rtc0 (isrCrt s).rtc2 = (clockValue s.rtc0 s.rtc2 + 1) % 2 ^ 32 := by
  rw [isrCrt_eq]
  unfold clockValue
  dsimp only
  have hlow := s.rtc0.isLt
  have hhigh := s.rtc2.isLt
  have hcarry : s.rtc0 + 1#16 = 0#16 ↔ s.rtc0.toNat = 65535 := by
    rw [← BitVec.toNat_inj, BitVec.toNat_add]
    show (s.rtc0.toNat + 1) % 65536 = 0 ↔ _
    omega
  by_cases hfull : s.rtc0.toNat = 65535
  · rw [if_pos (hcarry.mpr hfull), BitVec.toNat_add, BitVec.toNat_add]
    show (s.rtc2.toNat + 1) % 65536 * 65536 + (s.rtc0.toNat + 1) % 65536 = _
    omega
  · rw [if_neg fun h => hfull (hcarry.mp h), BitVec.toNat_add]
    show s.rtc2.toNat * 65536 + (s.rtc0.toNat + 1) % 65536 = _
    omega

/-- A tick is one more that may have come. -/
theorem Follows.tick {value : Nat} {last : Setting} (h : Follows value last) :
    Follows ((value + 1) % 2 ^ 32) last.tick := by
  obtain ⟨k, hafter, hsince, rfl⟩ := h
  refine ⟨k + 1, Nat.succ_le_succ hafter, Nat.succ_le_succ hsince, ?_⟩
  show ((last.value + k) % 2 ^ 32 + 1) % 2 ^ 32 = (last.value + (k + 1)) % 2 ^ 32
  omega

/-! ### The invariant -/

/-- No tick comes between the two stores of a setting while the low word is full. -/
def NoLostCarry (s : Bios) : Prop := ¬(halfSet s.trace = true ∧ s.rtc0 = 0xFFFF#16)

/-- While no setting is under way the clock follows the last one. -/
structure ClockRuns (s : Bios) : Prop where
  law : ClockLaw s.trace
  whole : halfSet s.trace = false
  follows : Follows (clockValue s.rtc0 s.rtc2) (lastSetting s.trace)

/-- The low word of `v` has been stored, and has counted the ticks since. -/
structure HalfSet (de hl : Word) (s : Bios) : Prop where
  law : ClockLaw s.trace
  half : halfSet s.trace = true
  value : (begun s.trace).1 = clockValue de hl
  counts : ∃ k, k ≤ (begun s.trace).2 ∧ s.rtc0.toNat = de.toNat + k

/-- Settings without a lost carry. -/
abbrev carrying : Environment Bios Unit := environment NoLostCarry

theorem stable_clockRuns : carrying.Stable ClockRuns := by
  refine stable_of_isrCrt fun s _ _ hs => ⟨isrCrt_clockLaw hs.law, ?_, ?_⟩
  · rw [isrCrt_halfSet]
    exact hs.whole
  · rw [isrCrt_value, isrCrt_lastSetting]
    exact hs.follows.tick

theorem stable_halfSet (de hl : Word) : carrying.Stable (HalfSet de hl) := by
  refine stable_of_isrCrt fun s hallowed _ hs => ⟨isrCrt_clockLaw hs.law, ?_, ?_, ?_⟩
  · rw [isrCrt_halfSet]
    exact hs.half
  · rw [isrCrt_begun]
    exact hs.value
  · obtain ⟨k, hk, hcount⟩ := hs.counts
    rw [isrCrt_begun, isrCrt_eq]
    refine ⟨k + 1, Nat.succ_le_succ hk, ?_⟩
    -- the low word is not full, so that it does not wrap
    have hroom : s.rtc0.toNat ≠ 65535 := fun hfull =>
      hallowed ⟨hs.half, BitVec.eq_of_toNat_eq hfull⟩
    have hlow := s.rtc0.isLt
    show (s.rtc0 + 1#16).toNat = _
    rw [BitVec.toNat_add]
    show (s.rtc0.toNat + 1) % 65536 = _
    omega

/-! ### CLOCK -/

/-- The clock while it is being read. -/
def Reading (P : Bios → Prop) (s : Bios) : Prop := (ClockRuns s ∧ P s) ∧ s.enabled = false

theorem stable_reading (P : Bios → Prop) : carrying.Stable (Reading P) :=
  stable_of_isrCrt fun _ _ hon hs => absurd (hon.symm.trans hs.2) (by decide)

theorem ClockRuns.note {s : Bios} (hs : ClockRuns s) {m : Mark} (hm : m.foreign = true) :
    ClockRuns (s.note m) where
  law := hs.law.foreign hm
  whole := (halfSet_foreign hm).trans hs.whole
  follows := by
    show Follows _ (lastSetting (m :: s.trace))
    rw [lastSetting_foreign hm]
    exact hs.follows

/-- `CLOCK` has begun to set `v`. -/
def Beginning (de hl : Word) (s : Bios) : Prop :=
  ClockRuns s ∧ (begun s.trace).1 = clockValue de hl

theorem stable_beginning (de hl : Word) : carrying.Stable (Beginning de hl) := by
  refine stable_clockRuns.and (stable_of_isrCrt fun s _ _ hs => ?_)
  rw [isrCrt_begun]
  exact hs

/-- During a call the law holds, and at its end the clock runs. -/
abbrev Clocks (P : Bios → Prop) (prog : Prog Bios Unit) : Prop :=
  carrying.Triple (fun s => ClockLaw s.trace) P prog fun _ => ClockRuns

theorem clocks_set (de hl : Word) : Clocks ClockRuns (do
    store fun s => s.note (.clockSet de hl)
    store fun s => { s with rtc0 := de }.note .clockLow
    store fun s => { s with rtc2 := hl }.note .clockStored) := by
  have hbegin : carrying.Triple (fun s => ClockLaw s.trace) ClockRuns
      (store fun s : Bios => s.note (.clockSet de hl)) fun _ => Beginning de hl := by
    refine Triple.store stable_clockRuns (fun _ hs => hs.law) (stable_beginning de hl)
      (fun _ hs => hs.1.law) fun s hs => ⟨⟨?_, hs.whole, hs.follows⟩, rfl⟩
    exact hs.law.note fun _ _ => nofun
  have hlow : carrying.Triple (fun s => ClockLaw s.trace) (Beginning de hl)
      (store fun s : Bios => { s with rtc0 := de }.note .clockLow) fun _ => HalfSet de hl := by
    refine Triple.store (stable_beginning de hl) (fun _ hs => hs.1.law) (stable_halfSet de hl)
      (fun _ hs => hs.law) fun s hs => ⟨?_, rfl, hs.2, 0, Nat.zero_le _, rfl⟩
    exact hs.1.law.note fun _ _ => nofun
  have hhigh : Clocks (HalfSet de hl)
      (store fun s : Bios => { s with rtc2 := hl }.note .clockStored) := by
    refine Triple.store (stable_halfSet de hl) (fun _ hs => hs.law) stable_clockRuns
      (fun _ hs => hs.law) fun s hs => ⟨hs.law.note fun _ _ => nofun, rfl, ?_⟩
    -- the ticks since the low word was stored have been counted
    obtain ⟨k, hk, hcount⟩ := hs.counts
    refine ⟨k, Nat.zero_le k, hk, ?_⟩
    have hlow := s.rtc0.isLt
    have hhigh := hl.isLt
    show clockValue s.rtc0 hl = ((begun s.trace).1 + k) % 2 ^ 32
    rw [hs.value]
    unfold clockValue
    omega
  exact hbegin.bind fun _ => hlow.bind fun _ => hhigh

theorem clocks_get : Clocks ClockRuns (do
    store fun s => { s with enabled := false }
    let de ← load fun s => s.rtc0
    let hl ← load fun s => s.rtc2
    store fun s => { s with enabled := true }.note (.clockGot de hl)) := by
  have hlaw {P : Bios → Prop} (s : Bios) (hs : Reading P s) : ClockLaw s.trace := hs.1.1.law
  have hdi : carrying.Triple (fun s => ClockLaw s.trace) ClockRuns
      (store fun s : Bios => { s with enabled := false }) fun _ => Reading fun _ => True :=
    Triple.store stable_clockRuns (fun _ hs => hs.law) (stable_reading _) hlaw
      fun s hs => ⟨⟨⟨hs.law, hs.whole, hs.follows⟩, trivial⟩, rfl⟩
  have hde : carrying.Triple (fun s => ClockLaw s.trace) (Reading fun _ => True)
      (load fun s : Bios => s.rtc0) fun de => Reading fun s => s.rtc0 = de :=
    Triple.load (stable_reading _) hlaw (fun _ => stable_reading _) (fun _ => hlaw)
      fun s hs => ⟨⟨hs.1.1, rfl⟩, hs.2⟩
  have hhl (de : Word) : carrying.Triple (fun s => ClockLaw s.trace)
      (Reading fun s => s.rtc0 = de) (load fun s : Bios => s.rtc2)
      fun hl => Reading fun s => s.rtc0 = de ∧ s.rtc2 = hl :=
    Triple.load (stable_reading _) hlaw (fun _ => stable_reading _) (fun _ => hlaw)
      fun s hs => ⟨⟨hs.1.1, hs.1.2, rfl⟩, hs.2⟩
  have hei (de hl : Word) : Clocks (Reading fun s => s.rtc0 = de ∧ s.rtc2 = hl)
      (store fun s : Bios => { s with enabled := true }.note (.clockGot de hl)) := by
    refine Triple.store (stable_reading _) hlaw stable_clockRuns (fun _ hs => hs.law) ?_
    rintro s ⟨⟨hs, rfl, rfl⟩, -⟩
    refine ⟨hs.law.cons fun de hl hgot => ?_, hs.whole, hs.follows⟩
    cases hgot
    exact hs.follows
  exact hdi.bind fun _ => hde.bind fun de => (hhl de).bind fun hl => hei de hl

theorem clocks_biosClock (a : Byte) (de hl : Word) : Clocks ClockRuns (biosClock a de hl) := by
  unfold biosClock
  exact .ite (fun _ => clocks_set de hl) fun _ => clocks_get

/-! ### All calls -/

/-- During every call the law holds, and between calls the clock runs. -/
theorem respects_clock (config : Config) :
    Served.Respects carrying (body config) ClockRuns fun _ s => ClockLaw s.trace where
  stable := stable_clockRuns
  triple := by
    have hkept {prog : Prog Bios Unit} (hprog : prog.Keeps ClockRuns) : Clocks ClockRuns prog :=
      (Triple.keeps stable_clockRuns hprog).weaken fun _ hs => hs.law
    have hsame {s t : Bios} (hs : ClockRuns s) (htrace : t.trace = s.trace)
        (hrtc0 : t.rtc0 = s.rtc0) (hrtc2 : t.rtc2 = s.rtc2) : ClockRuns t := by
      refine ⟨?_, ?_, ?_⟩
      · exact htrace ▸ hs.law
      · exact htrace ▸ hs.whole
      · rw [htrace, hrtc0, hrtc2]
        exact hs.follows
    intro c
    cases c with
    | conout con c =>
        exact hkept (keeps_biosConout (fun _ _ hs => hsame hs rfl rfl rfl) config con c)
    | clock a de hl => exact clocks_biosClock a de hl
    | exit hl de =>
        exact hkept (keeps_biosExit (fun _ _ _ hs => ⟨hs.note rfl, hs.note rfl⟩)
          (fun _ _ hs => hsame hs rfl rfl rfl) (fun _ _ hs => hsame hs rfl rfl rfl) hl de)
    | fdstar =>
        exact hkept (keeps_fdstar (fun _ _ _ hs => hs.note rfl)
          (fun _ _ hs => hsame hs rfl rfl rfl) (fun _ _ hs => hsame hs rfl rfl rfl)
          (fun _ _ hs => hsame hs rfl rfl rfl) fun _ _ hs => hsame hs rfl rfl rfl)

/-- **The clock is linear where no carry is lost.**  In every run in which no tick comes
between the two stores of a setting while the low word is full, every reading is the value
set last and a number of ticks between those since the setting was complete and those since
it began. -/
theorem clock_linear (config : Config) (screen : Nat → Byte) (mini motor : Bool) (stptim : Word)
    (events : List Event)
    (hcarry : EveryStep (step config) (Served.Admissible (environment NoLostCarry))
      (start screen mini motor stptim) events) :
    ClockLaw (run config (start screen mini motor stptim) events).shared.trace := by
  have hstart : ClockRuns (Bios.start screen mini motor stptim) := by
    have hzero : Follows (clockValue 0#16 0#16) (lastSetting []) :=
      ⟨0, Nat.le_refl 0, Nat.le_refl 0, by decide⟩
    exact ⟨clockLaw_nil, rfl, hzero⟩
  have hholds := (respects_clock config).holds hcarry hstart
  exact hholds.always (P := fun s => ClockLaw s.trace) (fun hidle => hidle.law)
    fun _ _ _ hduring => hduring

/-- The clock is set to 65535, with a tick between the two stores, and read. -/
def carryLost : List Event :=
  [.call (.clock 0#8 0xFFFF#16 0#16), .main, .main, .interrupt (), .main, .main,
    .call (.clock 1#8 0#16 0#16), .main, .main, .main, .main, .main]

/-- The reading is 0, which is neither 65535 nor 65536. -/
theorem clock_loses_carry : ¬∀ config screen mini motor stptim events,
    ClockLaw (run config (start screen mini motor stptim) events).shared.trace := by
  intro hlaw
  have hreading := hlaw ⟨0#8, id⟩ (fun _ => 0#8) false true 250#16 carryLost [] 0#16 0#16
    [.clockStored, .tick, .clockLow, .clockSet 0xFFFF#16 0#16] (by decide)
  obtain ⟨k, hafter, hsince, hvalue⟩ := hreading
  change k ≤ 1 at hsince
  change 0 = (65535 + k) % 2 ^ 32 at hvalue
  omega

/-- The same setting and reading, with the tick after the second store. -/
theorem clock_linear_late_tick :
    ClockLaw (run ⟨0#8, id⟩ (start (fun _ => 0#8) false true 250#16)
      [.call (.clock 0#8 0xFFFF#16 0#16), .main, .main, .main, .interrupt (), .main,
        .call (.clock 1#8 0#16 0#16), .main, .main, .main, .main, .main]).shared.trace := by
  refine clock_linear ⟨0#8, id⟩ (fun _ => 0#8) false true 250#16 _ ?_
  refine ⟨trivial, trivial, trivial, trivial, ?_, trivial, trivial, trivial, trivial, trivial,
    trivial, trivial, trivial⟩
  exact fun hlost => Bool.false_ne_true hlost.1

end Interrupts
end Rc700
