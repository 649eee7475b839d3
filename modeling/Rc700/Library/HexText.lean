import Mathlib.Data.Nat.Digits.Defs
import Mathlib.Tactic.Common
import Rc700.Library.Word

/-!
# Bytes as hexadecimal text

A number is written with at least `w` digits, a byte with two.  The reader takes digits of
either case, and white space between two bytes.
-/

namespace Rc700
namespace Library

/-- A digit, in upper case. -/
def hexDigit (n : Nat) : Char := n.digitChar.toUpper

/-- A number with at least `w` digits. -/
def formatHex (w n : Nat) : List Char :=
  ((Nat.digits 16 n).reverse.map hexDigit).leftpad w '0'

/-- The value of a digit of either case. -/
def hexValue (c : Char) : Option Nat :=
  if '0' ≤ c ∧ c ≤ '9' then some (c.toNat - '0'.toNat)
  else if 'A' ≤ c ∧ c ≤ 'F' then some (c.toNat - 'A'.toNat + 10)
  else if 'a' ≤ c ∧ c ≤ 'f' then some (c.toNat - 'a'.toNat + 10)
  else none

/-- White space between two bytes. -/
def isAsciiSpace (c : Char) : Bool := c = ' ' ∨ 9 ≤ c.toNat ∧ c.toNat ≤ 13

/-- The bytes of a text. -/
def fromHex : List Char → Option (List Byte)
  | [] => some []
  | [c] => if isAsciiSpace c then some [] else none
  | c :: c' :: rest =>
      if isAsciiSpace c then fromHex (c' :: rest)
      else
        match hexValue c, hexValue c', fromHex rest with
        | some high, some low, some bytes => some (BitVec.ofNat 8 (16 * high + low) :: bytes)
        | _, _, _ => none

/-- Two digits for each byte. -/
def hexText (bytes : List Byte) : List Char := bytes.flatMap fun b => formatHex 2 b.toNat

/-! ### Digits -/

/-- One digit more takes the last one off. -/
theorem formatHex_succ (w n : Nat) :
    formatHex (w + 1) n = formatHex w (n / 16) ++ [hexDigit (n % 16)] := by
  rcases Nat.eq_zero_or_pos n with rfl | hn
  · simp [formatHex, List.leftpad, List.replicate_succ', hexDigit]
    decide
  · rw [formatHex, Nat.digits_def' (by decide) hn]
    simp [formatHex, List.leftpad, Nat.add_sub_add_right]

theorem formatHex_byte {n : Nat} (hn : n < 256) :
    formatHex 2 n = [hexDigit (n / 16), hexDigit (n % 16)] := by
  have hlow : n / 16 % 16 = n / 16 := Nat.mod_eq_of_lt (by omega)
  have hnone : n / 16 / 16 = 0 := by omega
  rw [formatHex_succ, formatHex_succ, hlow, hnone]
  simp [formatHex]

/-- Four digits are those of the two bytes. -/
theorem formatHex_word {n : Nat} (hn : n < 65536) :
    formatHex 4 n = formatHex 2 (n / 256) ++ formatHex 2 (n % 256) := by
  rw [formatHex_byte (show n / 256 < 256 by omega), formatHex_byte (show n % 256 < 256 by omega)]
  have h₁ : n % 256 % 16 = n % 16 := by omega
  have h₂ : n % 256 / 16 = n / 16 % 16 := by omega
  have h₃ : n / 256 % 16 = n / 16 / 16 % 16 := by omega
  have h₄ : n / 256 / 16 = n / 16 / 16 / 16 % 16 := by omega
  have hnone : n / 16 / 16 / 16 / 16 = 0 := by omega
  rw [formatHex_succ, formatHex_succ, formatHex_succ, formatHex_succ, h₁, h₂, h₃, h₄, hnone]
  simp [formatHex]

theorem hexValue_hexDigit : ∀ n < 16, hexValue (hexDigit n) = some n := by decide

theorem hexDigit_notSpace : ∀ n < 16, isAsciiSpace (hexDigit n) = false := by decide

/-- A digit is not a white space, a line end or a colon. -/
theorem hexDigit_range : ∀ n < 16, 48 ≤ (hexDigit n).toNat ∧ (hexDigit n).toNat ≤ 70 := by decide

/-! ### Bytes -/

theorem fromHex_cons (b : Byte) (rest : List Char) :
    fromHex (formatHex 2 b.toNat ++ rest) = (fromHex rest).map (b :: ·) := by
  have hb : b.toNat < 256 := b.isLt
  have hhigh := hexValue_hexDigit (b.toNat / 16) (by omega)
  have hlow := hexValue_hexDigit (b.toNat % 16) (by omega)
  have hspace := hexDigit_notSpace (b.toNat / 16) (by omega)
  have hbyte : BitVec.ofNat 8 (16 * (b.toNat / 16) + b.toNat % 16) = b := by
    rw [Nat.div_add_mod]
    exact BitVec.ofNat_toNat 8 b
  rw [formatHex_byte hb]
  simp only [List.cons_append, List.nil_append, fromHex, hspace, hhigh, hlow]
  cases fromHex rest with
  | none => rfl
  | some bytes => simp [hbyte]

/-- What is written is read back. -/
theorem fromHex_hexText (bytes : List Byte) : fromHex (hexText bytes) = some bytes := by
  induction bytes with
  | nil => rfl
  | cons b bytes ih =>
      show fromHex (formatHex 2 b.toNat ++ hexText bytes) = _
      rw [fromHex_cons, ih]
      rfl

/-- The text has digits only. -/
theorem hexText_range {bytes : List Byte} {c : Char} (hc : c ∈ hexText bytes) :
    48 ≤ c.toNat ∧ c.toNat ≤ 70 := by
  obtain ⟨b, -, hc⟩ := List.mem_flatMap.mp hc
  have hb : b.toNat < 256 := b.isLt
  rw [formatHex_byte hb] at hc
  rcases List.mem_pair.mp hc with rfl | rfl
  · exact hexDigit_range _ (by omega)
  · exact hexDigit_range _ (by omega)

end Library
end Rc700
