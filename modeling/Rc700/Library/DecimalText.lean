import Mathlib.Algebra.Group.Nat.Defs
import Mathlib.Algebra.Order.Group.Int
import Mathlib.Data.List.DropRight
import Mathlib.Tactic.Common

/-!
# Numbers as decimal text

The reader is Python's `int`: white space around the number, a sign, decimal digits of any
script, and single underscores between them; there may be at most 4300 digits.  What is
white space is a parameter.  A number that is written, with zeros in front or without, is read
back (`readInt_formatDec`).
-/

namespace Rc700
namespace Library

/-- `str(n)` -/
def str (n : Nat) : List Char := Nat.toDigits 10 n

/-- A number with at least `w` digits. -/
def formatDec (w n : Nat) : List Char := (str n).leftpad w '0'

/-- The zeros of the decimal digits of Unicode. -/
def decimalZeros : List Nat :=
  [0x30, 0x660, 0x6F0, 0x7C0, 0x966, 0x9E6, 0xA66, 0xAE6, 0xB66, 0xBE6, 0xC66, 0xCE6, 0xD66,
    0xDE6, 0xE50, 0xED0, 0xF20, 0x1040, 0x1090, 0x17E0, 0x1810, 0x1946, 0x19D0, 0x1A80, 0x1A90,
    0x1B50, 0x1BB0, 0x1C40, 0x1C50, 0xA620, 0xA8D0, 0xA900, 0xA9D0, 0xA9F0, 0xAA50, 0xABF0,
    0xFF10, 0x104A0, 0x10D30, 0x11066, 0x110F0, 0x11136, 0x111D0, 0x112F0, 0x11450, 0x114D0,
    0x11650, 0x116C0, 0x11730, 0x118E0, 0x11950, 0x11C50, 0x11D50, 0x11DA0, 0x16A60, 0x16AC0,
    0x16B50, 0x1D7CE, 0x1D7D8, 0x1D7E2, 0x1D7EC, 0x1D7F6, 0x1E140, 0x1E2F0, 0x1E950, 0x1FBF0]

/-- The value of a decimal digit. -/
def decimalValue (c : Char) : Option Nat :=
  (decimalZeros.find? fun first => first ≤ c.toNat ∧ c.toNat < first + 10).map (c.toNat - ·)

/-- Digits, and single underscores between them. -/
def readDigits (text : List Char) : Option (List Nat) :=
  let groups := text.splitOn '_'
  if groups.any List.isEmpty then none else groups.flatten.mapM decimalValue

/-- The number of digits that `int` takes. -/
def maxStrDigits : Nat := 4300

/-- A number without its sign. -/
def readNat (text : List Char) : Option Nat :=
  (readDigits text).bind fun values =>
    if values.length ≤ maxStrDigits then some (values.foldl (fun n v => 10 * n + v) 0) else none

/-- `int(text)`, none where it raises. -/
def readInt (blank : Char → Bool) (text : List Char) : Option Int :=
  match (text.dropWhile blank).rdropWhile blank with
  | '-' :: number => (readNat number).map fun n => -(n : Int)
  | '+' :: number => (readNat number).map Int.ofNat
  | number => (readNat number).map Int.ofNat

/-! ### ASCII digits -/

theorem str_isDigit {n : Nat} {c : Char} (hc : c ∈ str n) : c.isDigit = true :=
  Nat.isDigit_of_mem_toDigits (by decide) (by decide) hc

theorem str_ne_nil (n : Nat) : str n ≠ [] := Nat.toDigits_ne_nil

theorem length_str_le {n k : Nat} (hk : 0 < k) (hn : n < 10 ^ k) : (str n).length ≤ k :=
  (Nat.length_toDigits_le_iff (by decide) hk).mpr hn

theorem formatDec_isDigit {w n : Nat} {c : Char} (hc : c ∈ formatDec w n) : c.isDigit = true := by
  rcases List.mem_append.mp hc with hpad | hstr
  · rw [List.eq_of_mem_replicate hpad]
    rfl
  · exact str_isDigit hstr

theorem formatDec_ne_nil (w n : Nat) : formatDec w n ≠ [] :=
  List.append_ne_nil_of_right_ne_nil _ (str_ne_nil n)

theorem length_formatDec_le {w n k : Nat} (hk : 0 < k) (hw : w ≤ k) (hn : n < 10 ^ k) :
    (formatDec w n).length ≤ k := by
  have hstr := length_str_le hk hn
  rw [formatDec, List.length_leftpad]
  exact Nat.max_le.mpr ⟨hw, hstr⟩

theorem toNat_of_isDigit {c : Char} (hc : c.isDigit = true) : 48 ≤ c.toNat ∧ c.toNat < 58 := by
  rw [Char.isDigit, Bool.and_eq_true, decide_eq_true_iff, decide_eq_true_iff] at hc
  exact ⟨hc.1, Nat.lt_succ_of_le hc.2⟩

theorem decimalValue_of_isDigit {c : Char} (hc : c.isDigit = true) :
    decimalValue c = some (c.toNat - 48) := by
  obtain ⟨hlow, hhigh⟩ := toNat_of_isDigit hc
  rw [decimalValue, decimalZeros, List.find?_cons_of_pos (by simp [hlow, hhigh])]
  rfl

/-- A text of digits has no underscore in it. -/
theorem readDigits_of_isDigit {text : List Char} (hne : text ≠ [])
    (hdigits : ∀ c ∈ text, c.isDigit = true) :
    readDigits text = some (text.map fun c => c.toNat - 48) := by
  have hwhole : text.splitOn '_' = [text] :=
    List.splitOn_eq_singleton fun hmem => absurd (hdigits _ hmem) (by decide)
  have hvalues : text.mapM decimalValue = some (text.map fun c => c.toNat - 48) := by
    clear hne hwhole
    induction text with
    | nil => rfl
    | cons c text ih =>
        have hc := decimalValue_of_isDigit (hdigits c List.mem_cons_self)
        have htext := ih fun d hd => hdigits d (List.mem_cons_of_mem c hd)
        simp [List.mapM_cons, hc, htext]
  simp [readDigits, hwhole, hvalues, hne]

theorem readNat_of_isDigit {text : List Char} (hne : text ≠ [])
    (hdigits : ∀ c ∈ text, c.isDigit = true) (hlen : text.length ≤ maxStrDigits) :
    readNat text = some (Nat.ofDigitChars 10 text 0) := by
  rw [readNat, readDigits_of_isDigit hne hdigits, Option.bind_some, List.length_map, if_pos hlen,
    List.foldl_map]
  rfl

/-- **Digits are read as their value.** -/
theorem readInt_of_isDigit {blank : Char → Bool}
    (hblank : ∀ c : Char, c.isDigit = true → blank c = false) {text : List Char} (hne : text ≠ [])
    (hdigits : ∀ c ∈ text, c.isDigit = true) (hlen : text.length ≤ maxStrDigits) :
    readInt blank text = some (Nat.ofDigitChars 10 text 0 : Int) := by
  have hfront : text.dropWhile blank = text := by
    obtain ⟨c, rest, rfl⟩ := List.exists_cons_of_ne_nil hne
    exact List.dropWhile_cons_of_neg (by simp [hblank c (hdigits c List.mem_cons_self)])
  have hback : text.rdropWhile blank = text := by
    rw [List.rdropWhile_eq_self_iff]
    intro hne'
    simp [hblank _ (hdigits _ (List.getLast_mem hne'))]
  have hsign : ∀ c rest, text = c :: rest → c ≠ '-' ∧ c ≠ '+' := by
    rintro c rest rfl
    have hc := hdigits c List.mem_cons_self
    exact ⟨by rintro rfl; exact absurd hc (by decide), by rintro rfl; exact absurd hc (by decide)⟩
  unfold readInt
  rw [hfront, hback]
  split
  · exact absurd rfl (hsign _ _ rfl).1
  · exact absurd rfl (hsign _ _ rfl).2
  · rw [readNat_of_isDigit hne hdigits hlen]
    rfl

/-! ### What is written -/

theorem ofDigitChars_formatDec (w n : Nat) : Nat.ofDigitChars 10 (formatDec w n) 0 = n := by
  rw [formatDec, List.leftpad, Nat.ofDigitChars_append, Nat.ofDigitChars_replicate_zero,
    Nat.mul_zero]
  exact Nat.ofDigitChars_ten_toDigits

/-- **What is written is read back.** -/
theorem readInt_formatDec {blank : Char → Bool}
    (hblank : ∀ c : Char, c.isDigit = true → blank c = false) {w n : Nat}
    (hlen : (formatDec w n).length ≤ maxStrDigits) :
    readInt blank (formatDec w n) = some (n : Int) := by
  rw [readInt_of_isDigit hblank (formatDec_ne_nil w n) (fun _ hc => formatDec_isDigit hc) hlen,
    ofDigitChars_formatDec]

theorem readInt_str {blank : Char → Bool}
    (hblank : ∀ c : Char, c.isDigit = true → blank c = false) {n : Nat}
    (hlen : (str n).length ≤ maxStrDigits) : readInt blank (str n) = some (n : Int) := by
  rw [readInt_of_isDigit hblank (str_ne_nil n) (fun _ hc => str_isDigit hc) hlen]
  exact congrArg (fun m : Nat => some (m : Int)) Nat.ofDigitChars_ten_toDigits

end Library
end Rc700
