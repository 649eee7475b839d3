/-!
# Runs of a state machine

A run folds a step function over a list of inputs.  `EveryStep` says that each
input of a run is admissible in the state it meets; an invariant that every
admissible step keeps then holds at the end of every such run.
-/

namespace Rc700
namespace Library

variable {State Input : Type _}

/-- Every input of the run is admissible in the state it arrives in. -/
def EveryStep (step : State → Input → State) (admissible : State → Input → Prop) :
    State → List Input → Prop
  | _, [] => True
  | s, input :: inputs =>
      admissible s input ∧ EveryStep step admissible (step s input) inputs

instance EveryStep.decidable (step : State → Input → State)
    (admissible : State → Input → Prop) [∀ s input, Decidable (admissible s input)] :
    ∀ (s : State) (inputs : List Input), Decidable (EveryStep step admissible s inputs)
  | _, [] => isTrue trivial
  | s, input :: inputs =>
      have := EveryStep.decidable step admissible (step s input) inputs
      inferInstanceAs (Decidable (_ ∧ _))

/-- **Invariants over runs.** -/
theorem foldl_invariant {step : State → Input → State}
    {admissible : State → Input → Prop} {Inv : State → Prop}
    (hstep : ∀ s input, admissible s input → Inv s → Inv (step s input))
    {s : State} {inputs : List Input} (hrun : EveryStep step admissible s inputs)
    (hstart : Inv s) : Inv (inputs.foldl step s) := by
  induction inputs generalizing s with
  | nil => exact hstart
  | cons input inputs ih =>
      obtain ⟨hadmissible, hrest⟩ := hrun
      exact ih hrest (hstep s input hadmissible hstart)

/-- Runs may be cut in two. -/
theorem EveryStep.append {step : State → Input → State}
    {admissible : State → Input → Prop} {s : State} {first second : List Input} :
    EveryStep step admissible s (first ++ second) ↔
      EveryStep step admissible s first ∧
        EveryStep step admissible (first.foldl step s) second := by
  induction first generalizing s with
  | nil => simp [EveryStep]
  | cons input inputs ih => simp only [List.cons_append, EveryStep, ih, List.foldl_cons, and_assoc]

end Library
end Rc700
