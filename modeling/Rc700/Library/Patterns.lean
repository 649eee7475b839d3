import Mathlib.Computability.RegularExpressions

/-!
# Classes of characters in patterns

A pattern as it is written in programs has classes of characters, such as `[0-9]`.  Here a class
is the sum of its characters, so that a match can be decided and the rest is Kleene algebra.
-/

namespace Rc700
namespace Library

open scoped Computability

variable {α : Type*} {cs x : List α}

/-- One character of a class. -/
def charClass (cs : List α) : RegularExpression α := (cs.map .char).sum

theorem mem_charClass : x ∈ (charClass cs).matches' ↔ ∃ c ∈ cs, x = [c] := by
  unfold charClass
  induction cs with
  | nil => simp
  | cons c cs ih =>
      rw [List.map_cons, List.sum_cons, RegularExpression.matches'_add, Language.mem_add, ih]
      simp only [List.mem_cons, exists_eq_or_imp]
      exact Iff.rfl

/-- Any number of characters of a class. -/
theorem mem_charClass_star : x ∈ (charClass cs).star.matches' ↔ ∀ c ∈ x, c ∈ cs := by
  rw [RegularExpression.matches'_star, Language.mem_kstar]
  constructor
  · rintro ⟨parts, rfl, hparts⟩ c hc
    obtain ⟨part, hpart, hc⟩ := List.mem_flatten.mp hc
    obtain ⟨d, hd, rfl⟩ := mem_charClass.mp (hparts part hpart)
    rw [List.mem_singleton.mp hc]
    exact hd
  · intro hall
    refine ⟨x.map fun c => [c], (List.flatMap_singleton' x).symm, fun part hpart => ?_⟩
    obtain ⟨c, hc, rfl⟩ := List.mem_map.mp hpart
    exact mem_charClass.mpr ⟨c, hall c hc, rfl⟩

end Library
end Rc700
