import Mathlib.Data.List.Basic
import Mathlib.Tactic.Common

/-!
# Lines of a text

A text file as Python reads it: every `\r\n` and every `\r` becomes `\n`, and the text is split
at its line boundaries.  Lines that are ended by `\r` or by `\r\n` are read back.
-/

namespace Rc700
namespace Library

/-- What opening a file as text does to its line ends. -/
def universalNewlines : List Char → List Char
  | [] => []
  | ['\r'] => ['\n']
  | '\r' :: '\n' :: rest => '\n' :: universalNewlines rest
  | '\r' :: c :: rest => '\n' :: universalNewlines (c :: rest)
  | c :: rest => c :: universalNewlines rest

/-- The line boundaries of `str.splitlines`. -/
def isBoundary (c : Char) : Bool :=
  c.toNat ∈ [0x0A, 0x0B, 0x0C, 0x0D, 0x1C, 0x1D, 0x1E, 0x85, 0x2028, 0x2029]

/-- `str.splitlines`, the line so far in hand. -/
def splitLinesFrom (line : List Char) : List Char → List (List Char)
  | [] => if line = [] then [] else [line]
  | '\r' :: '\n' :: rest => line :: splitLinesFrom [] rest
  | c :: rest =>
      if isBoundary c then line :: splitLinesFrom [] rest else splitLinesFrom (line ++ [c]) rest

/-- `str.splitlines` -/
def splitLines (text : List Char) : List (List Char) := splitLinesFrom [] text

/-- `sep.join(lines) + sep` -/
def joinLines (sep : List Char) (lines : List (List Char)) : List Char :=
  sep.intercalate lines ++ sep

theorem joinLines_cons (sep line : List Char) {lines : List (List Char)} (hlines : lines ≠ []) :
    joinLines sep (line :: lines) = line ++ sep ++ joinLines sep lines := by
  obtain ⟨next, lines, rfl⟩ := List.exists_cons_of_ne_nil hlines
  simp [joinLines]

/-- Every line is ended. -/
theorem joinLines_eq (sep : List Char) {lines : List (List Char)} (hlines : lines ≠ []) :
    joinLines sep lines = lines.flatMap (· ++ sep) := by
  induction lines with
  | nil => exact absurd rfl hlines
  | cons line lines ih =>
      cases lines with
      | nil => simp [joinLines]
      | cons next lines =>
          rw [joinLines_cons sep line (by simp), ih (by simp)]
          rfl

/-! ### Line ends -/

theorem universalNewlines_cons {c : Char} (hc : c ≠ '\r') (rest : List Char) :
    universalNewlines (c :: rest) = c :: universalNewlines rest := by
  rw [universalNewlines]
  · intro h _
    exact hc h
  · intro _ h _
    exact hc h
  · intro _ _ h _
    exact hc h

theorem universalNewlines_append {line : List Char} (hline : '\r' ∉ line) (rest : List Char) :
    universalNewlines (line ++ rest) = line ++ universalNewlines rest := by
  induction line with
  | nil => rfl
  | cons c line ih =>
      have hc : c ≠ '\r' := fun h => hline (by simp [h])
      rw [List.cons_append, universalNewlines_cons hc, ih fun h => hline (by simp [h])]
      rfl

/-- A `\r` that no `\n` follows. -/
theorem universalNewlines_return {rest : List Char} (hrest : rest.head? ≠ some '\n') :
    universalNewlines ('\r' :: rest) = '\n' :: universalNewlines rest := by
  cases rest with
  | nil => rfl
  | cons c rest =>
      rw [universalNewlines]
      intro h
      exact hrest (by simp [h])

/-- The separators that end a line in one `\n`. -/
def EndsLine (sep : List Char) : Prop := sep = ['\r'] ∨ sep = ['\r', '\n']

theorem EndsLine.universalNewlines {sep rest : List Char} (hsep : EndsLine sep)
    (hrest : rest.head? ≠ some '\n') :
    universalNewlines (sep ++ rest) = '\n' :: universalNewlines rest := by
  rcases hsep with rfl | rfl
  · exact universalNewlines_return hrest
  · rfl

/-- A line with no line boundary in it. -/
def Unbroken (line : List Char) : Prop := ∀ c ∈ line, isBoundary c = false

theorem Unbroken.notMem {line : List Char} (hline : Unbroken line) {c : Char}
    (hc : isBoundary c = true) : c ∉ line := by
  intro hmem
  rw [hline c hmem] at hc
  exact Bool.false_ne_true hc

theorem head?_flatMap_ne {sep : List Char} (hsep : EndsLine sep) {lines : List (List Char)}
    (hlines : ∀ line ∈ lines, Unbroken line) :
    (lines.flatMap (· ++ sep)).head? ≠ some '\n' := by
  cases lines with
  | nil => simp
  | cons line lines =>
      cases line with
      | nil => rcases hsep with rfl | rfl <;> simp
      | cons c line =>
          have hc : '\n' ∉ c :: line := (hlines _ (by simp)).notMem (by decide)
          intro h
          simp only [List.flatMap_cons, List.cons_append, List.head?_cons, Option.some.injEq] at h
          exact hc (by simp [h])

theorem universalNewlines_lines {sep : List Char} (hsep : EndsLine sep)
    {lines : List (List Char)} (hlines : ∀ line ∈ lines, Unbroken line) :
    universalNewlines (lines.flatMap (· ++ sep)) = lines.flatMap (· ++ ['\n']) := by
  induction lines with
  | nil => rfl
  | cons line lines ih =>
      have hrest := fun next hnext => hlines next (List.mem_cons_of_mem line hnext)
      have hline : '\r' ∉ line := (hlines line (by simp)).notMem (by decide)
      rw [List.flatMap_cons, List.append_assoc, universalNewlines_append hline,
        hsep.universalNewlines (head?_flatMap_ne hsep hrest), ih hrest]
      simp

/-! ### Splitting -/

theorem splitLinesFrom_append {line : List Char} (hline : Unbroken line)
    (before rest : List Char) :
    splitLinesFrom before (line ++ rest) = splitLinesFrom (before ++ line) rest := by
  induction line generalizing before with
  | nil => simp
  | cons c line ih =>
      have hc := hline c (by simp)
      have hreturn : c ≠ '\r' := by
        rintro rfl
        exact absurd hc (by decide)
      rw [List.cons_append, splitLinesFrom]
      · rw [hc]
        simp only [Bool.false_eq_true, if_false]
        rw [ih (fun d hd => hline d (List.mem_cons_of_mem c hd))]
        simp
      · intro _ h
        exact absurd h hreturn

theorem splitLines_lines {lines : List (List Char)} (hlines : ∀ line ∈ lines, Unbroken line) :
    splitLines (lines.flatMap (· ++ ['\n'])) = lines := by
  unfold splitLines
  induction lines with
  | nil => rfl
  | cons line lines ih =>
      have hrest := fun next hnext => hlines next (List.mem_cons_of_mem line hnext)
      rw [List.flatMap_cons, List.append_assoc, splitLinesFrom_append (hlines line (by simp))]
      show line :: splitLinesFrom [] (lines.flatMap (· ++ ['\n'])) = _
      rw [ih hrest]

/-- Lines that are joined are read back. -/
theorem splitLines_joinLines {sep : List Char} (hsep : EndsLine sep) {lines : List (List Char)}
    (hne : lines ≠ []) (hlines : ∀ line ∈ lines, Unbroken line) :
    splitLines (universalNewlines (joinLines sep lines)) = lines := by
  rw [joinLines_eq sep hne, universalNewlines_lines hsep hlines, splitLines_lines hlines]

end Library
end Rc700
