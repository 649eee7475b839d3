import Mathlib.Data.List.DropRight

/-!
# Path names as text

A path is a sequence of code points.  `join` is the textual join of a directory and a
name: a name that starts with a separator replaces the directory.

What a path says is where it starts and its components: those between separators, but for
empty ones and `.`.  It is directly inside a directory if it starts where the directory does
and has the components of the directory and one more, which is not `..`.  Below a directory
that does not start at the root that depends on the name alone (`directChild_relative`).
-/

namespace Rc700
namespace Library

/-- Text as code points. -/
abbrev Text := List Nat

namespace PathText

def slash : Nat := 47
def dot : Nat := 46

/-- The text starts with a separator. -/
def Absolute (x : Text) : Prop := x.head? = some slash

instance (x : Text) : Decidable (Absolute x) := inferInstanceAs (Decidable (_ = _))

/-- The directory, closed by a separator unless it is empty. -/
def closed (dir : Text) : Text :=
  if dir = [] ∨ dir.getLast? = some slash then dir else dir ++ [slash]

/-- The join of a directory and a name. -/
def join (dir x : Text) : Text := if Absolute x then x else closed dir ++ x

/-- One component, which names an entry of a directory. -/
structure Plain (x : Text) : Prop where
  notEmpty : x ≠ []
  notHere : x ≠ [dot]
  notUp : x ≠ [dot, dot]
  noSlash : slash ∉ x

instance Plain.decidable (x : Text) : Decidable (Plain x) :=
  decidable_of_iff (x ≠ [] ∧ x ≠ [dot] ∧ x ≠ [dot, dot] ∧ slash ∉ x)
    ⟨fun h => ⟨h.1, h.2.1, h.2.2.1, h.2.2.2⟩,
      fun h => ⟨h.notEmpty, h.notHere, h.notUp, h.noSlash⟩⟩

/-- What precedes the last component. -/
def dirPart (p : Text) : Text := p.rdropWhile (· != slash)

/-- The last component. -/
def base (p : Text) : Text := p.rtakeWhile (· != slash)

/-- The components of a path, but for empty ones and `.`. -/
def components (p : Text) : List Text := (p.splitOn slash).filter fun x => x ≠ [] ∧ x ≠ [dot]

/-- The path is directly inside the directory. -/
def DirectChild (dir p : Text) : Prop :=
  (Absolute p ↔ Absolute dir) ∧ ∃ x, x ≠ [dot, dot] ∧ components p = components dir ++ [x]

/-- The name of an entry, whichever directory it is joined to. -/
def Inside (x : Text) : Prop := ¬ Absolute x ∧ ∃ y, y ≠ [dot, dot] ∧ components x = [y]

variable {dir p x : Text}

theorem Plain.notAbsolute (hx : Plain x) : ¬ Absolute x := by
  intro habsolute
  have hmem : slash ∈ x := List.mem_of_mem_head? (by rw [habsolute]; rfl)
  exact hx.noSlash hmem

theorem Plain.join (hx : Plain x) (dir : Text) : PathText.join dir x = closed dir ++ x := by
  rw [PathText.join, if_neg hx.notAbsolute]

/-! ### Components -/

theorem components_nil : components [] = [] := by simp [components]

theorem components_append (front x : Text) :
    components (front ++ slash :: x) = components front ++ components x := by
  rw [components, List.splitOn_append_cons_self, List.filter_append]
  rfl

theorem components_closed (dir x : Text) :
    components (closed dir ++ x) = components dir ++ components x := by
  unfold closed
  by_cases hclosed : dir = [] ∨ dir.getLast? = some slash
  · rw [if_pos hclosed]
    rcases hclosed with rfl | hlast
    · rw [components_nil]
      rfl
    · obtain ⟨front, rfl⟩ := List.getLast?_eq_some_iff.mp hlast
      rw [List.append_assoc, List.singleton_append, components_append, components_append,
        components_nil, List.append_nil]
  · rw [if_neg hclosed, List.append_assoc, List.singleton_append, components_append]

/-- Where there is no separator there is one component at most. -/
theorem components_single (hslash : slash ∉ x) (hempty : x ≠ []) (hhere : x ≠ [dot]) :
    components x = [x] := by
  rw [components, List.splitOn_eq_singleton hslash]
  simp [hempty, hhere]

theorem absolute_closed (hdir : dir ≠ []) (x : Text) :
    Absolute (closed dir ++ x) ↔ Absolute dir := by
  obtain ⟨c, rest, rfl⟩ := List.exists_cons_of_ne_nil hdir
  unfold closed Absolute
  by_cases hclosed : c :: rest = [] ∨ (c :: rest).getLast? = some slash
  · rw [if_pos hclosed]
    rfl
  · rw [if_neg hclosed]
    rfl

/-! ### Inside a directory -/

theorem Plain.inside (hx : Plain x) : Inside x :=
  ⟨hx.notAbsolute, x, hx.notUp, components_single hx.noSlash hx.notEmpty hx.notHere⟩

/-- A name without separators is that of an entry if it is not empty, `.` or `..`. -/
theorem inside_iff_plain (hslash : slash ∉ x) : Inside x ↔ Plain x := by
  refine ⟨fun ⟨_, y, hup, hy⟩ => ⟨?_, ?_, ?_, hslash⟩, Plain.inside⟩
  · rintro rfl
    rw [components_nil] at hy
    exact nomatch hy
  · rintro rfl
    exact absurd hy (by simp [components, List.splitOn_eq_singleton hslash])
  · rintro rfl
    rw [components_single hslash (by decide) (by decide)] at hy
    exact hup (List.cons.inj hy).1.symm

theorem Inside.directChild (hdir : dir ≠ []) (hx : Inside x) : DirectChild dir (join dir x) := by
  obtain ⟨hrelative, y, hup, hy⟩ := hx
  rw [join, if_neg hrelative]
  exact ⟨absolute_closed hdir x, y, hup, by rw [components_closed, hy]⟩

/-- Below a directory that is not given from the root, no other names are inside. -/
theorem directChild_relative (hdir : dir ≠ []) (hroot : ¬ Absolute dir) :
    DirectChild dir (join dir x) ↔ Inside x := by
  refine ⟨fun ⟨hstart, y, hup, hy⟩ => ?_, Inside.directChild hdir⟩
  have hrelative : ¬ Absolute x := by
    intro habsolute
    rw [join, if_pos habsolute] at hstart
    exact hroot (hstart.mp habsolute)
  rw [join, if_neg hrelative, components_closed] at hy
  exact ⟨hrelative, y, hup, List.append_cancel_left hy⟩

/-- Two directories with one component each have no path directly inside both. -/
theorem not_directChild {want a b : Text} (hroot : ¬ Absolute want)
    (ha : components dir = [a]) (hb : components want = [b]) (hne : a ≠ b) :
    ¬ DirectChild want (join dir x) := by
  rintro ⟨hstart, y, -, hy⟩
  by_cases habsolute : Absolute x
  · rw [join, if_pos habsolute] at hstart
    exact hroot (hstart.mp habsolute)
  · rw [join, if_neg habsolute, components_closed, ha, hb] at hy
    exact hne (List.cons.inj hy).1

end PathText

end Library
end Rc700
