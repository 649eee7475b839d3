import Rc700.Library.Patterns
import Rc700.Library.DecimalText
import Rc700.Formats.IntelHex
import Rc700.Install.Validator

/-!
# Serial stamps

`stamp_serial.py` takes a serial number as six bytes in hexadecimal or in one of three textual
forms, and makes the six bytes of the stamp from it; `format_stamp` prints a stamp.

A text that is spelled in hexadecimal has no dash in it, so no text with a dash is taken for one,
and the two halves of a manufacturer are joined before they are read.  So every stamp of version
0x16 that is printed is read back (`stamp_round_trip`).
-/

namespace Rc700
namespace Install

open Library Formats
open scoped Computability

/-! ### The tool -/

def defaultMfgLow : Nat := 0xD5

def defaultVersion : Byte := 0x16#8

def defaultMfgHigh : Nat := 0x08

/-- The errors, each with what its message names. -/
inductive SerialError
  | rawLength (n : Nat)
  | notANumber
  | unrecognized (s : List Char)
  | manufacturer (mfg : Int)
  | serial (serial : Int)
  | stampLength
  deriving DecidableEq, Repr

/-- `[0-9A-Fa-f]` -/
def hexDigits : List Char := "0123456789ABCDEFabcdef".toList

/-- `[\s,]` -/
def separators : List Char := ',' :: ((List.range 0x3001).map Char.ofNat).filter isWhiteSpace

/-- `(?:[0-9A-Fa-f]{2}[\s,]*){6}` -/
def rawHexForm : RegularExpression Char :=
  (charClass hexDigits * charClass hexDigits * (charClass separators).star) ^ 6

/-- `int(x, 16)` of two digits. -/
def hexByte (c c' : Char) : Byte :=
  BitVec.ofNat 8 (16 * (hexValue c).getD 0 + (hexValue c').getD 0)

/-- The numbers that `re.findall` finds, from the left. -/
def findBytes : List Char → List Byte
  | c :: c' :: rest =>
      if hexDigits.contains c && hexDigits.contains c' then hexByte c c' :: findBytes rest
      else findBytes (c' :: rest)
  | _ => []

/-- The white space of `int`, which is not all of that of `str.strip`. -/
def isIntSpace (c : Char) : Bool := isWhiteSpace c && !(0x1C ≤ c.toNat && c.toNat ≤ 0x1F)

/-- `int` -/
def int (text : List Char) : Except SerialError Int :=
  match readInt isIntSpace text with
  | some n => .ok n
  | none => .error .notANumber

/-- The textual forms: a serial, a manufacturer and a serial, or the same with the manufacturer
in two parts. -/
def textualForm (s : List Char) : Except SerialError (Int × Int) :=
  match s.splitOn '-' with
  | [serial] => do return ((defaultMfgHigh <<< 8 ||| defaultMfgLow : Nat), ← int serial)
  | [mfg, serial] => do return (← int mfg, ← int serial)
  | [first, rest, serial] => do return (← int (first ++ rest), ← int serial)
  | _ => .error (.unrecognized s)

/-- The six bytes. -/
def stampBytes (mfg serial : Nat) : List Byte :=
  [lowByte mfg, defaultVersion, highByte mfg, lowByte (serial >>> 16), highByte serial,
    lowByte serial]

/-- The numbers are in range. -/
def checkedStamp (mfg serial : Int) : Except SerialError (List Byte) :=
  if ¬(0 ≤ mfg ∧ mfg ≤ 0xFFFF) then .error (.manufacturer mfg)
  else if ¬(0 ≤ serial ∧ serial ≤ 0xFFFFFF) then .error (.serial serial)
  else .ok (stampBytes mfg.toNat serial.toNat)

/-- `parse_serial` -/
def parseSerial (s : List Char) : Except SerialError (List Byte) :=
  let s := stripLine s
  if rawHexForm.rmatch s then
    let bytesOut := findBytes s
    if bytesOut.length ≠ 6 then .error (.rawLength bytesOut.length) else .ok bytesOut
  else textualForm s >>= fun (mfg, serial) => checkedStamp mfg serial

/-- `bytes.hex(' ')` -/
def hexSpaced (bytes : List Byte) : List Char :=
  [' '].intercalate (bytes.map fun b => [(b.toNat / 16).digitChar, (b.toNat % 16).digitChar])

/-- `display`: the manufacturer, split behind its first digit if it has more, and the serial. -/
def display (mfg serial : Nat) : List Char :=
  let mfgStr := str mfg
  if mfgStr.length > 1 then mfgStr.take 1 ++ '-' :: mfgStr.drop 1 ++ '-' :: formatDec 4 serial
  else mfgStr ++ '-' :: formatDec 4 serial

/-- `format_stamp` -/
def formatStamp (stamp : List Byte) : Except SerialError (List Char) :=
  match stamp with
  | [b₀, b₁, b₂, b₃, b₄, b₅] =>
      let mfg := b₂.toNat <<< 8 ||| b₀.toNat
      let version := b₁.toNat
      let serial := b₃.toNat <<< 16 ||| b₄.toNat <<< 8 ||| b₅.toNat
      .ok (display mfg serial ++ " (version=0x".toList ++ formatHex 2 version ++
        ", bytes=".toList ++ hexSpaced stamp ++ [')'])
  | _ => .error .stampLength

/-! ### White space -/

theorem mem_separators {c : Char} : c ∈ separators ↔ c = ',' ∨ isWhiteSpace c = true := by
  rw [separators, List.mem_cons, List.mem_filter]
  refine or_congr_right ⟨And.right, fun hspace => ⟨?_, hspace⟩⟩
  have hbound : c.toNat < 0x3001 := by
    simp only [isWhiteSpace, List.mem_cons, List.not_mem_nil, or_false, decide_eq_true_eq] at hspace
    omega
  exact List.mem_map.mpr ⟨c.toNat, List.mem_range.mpr hbound, Char.ofNat_toNat c⟩

/-- A digit or a dash is not a white space. -/
theorem isWhiteSpace_of_digit {c : Char} (hc : c.isDigit = true ∨ c = '-') :
    isWhiteSpace c = false := by
  have hrange : 45 ≤ c.toNat ∧ c.toNat < 58 := by
    rcases hc with hdigit | rfl
    · obtain ⟨hlow, hhigh⟩ := toNat_of_isDigit hdigit
      exact ⟨by omega, hhigh⟩
    · decide
  simp only [isWhiteSpace, List.mem_cons, List.not_mem_nil, or_false, decide_eq_false_iff_not]
  omega

theorem isIntSpace_of_digit (c : Char) (hc : c.isDigit = true) : isIntSpace c = false := by
  rw [isIntSpace, isWhiteSpace_of_digit (.inl hc)]
  rfl

theorem stripLine_eq {text : List Char} (htext : ∀ c ∈ text, isWhiteSpace c = false) :
    stripLine text = text := by
  unfold stripLine
  cases text with
  | nil => rfl
  | cons c rest =>
      rw [List.dropWhile_cons_of_neg (by simp [htext c List.mem_cons_self]),
        List.rdropWhile_eq_self_iff]
      intro hne
      simp [htext _ (List.getLast_mem hne)]

/-! ### Six bytes in hexadecimal -/

/-- The bytes in hexadecimal, digits of either case, with anything of `separators` behind each. -/
inductive Spells : List Byte → List Char → Prop
  | nil : Spells [] []
  | cons {c c' : Char} {gap rest : List Char} {bytes : List Byte} (hc : c ∈ hexDigits)
      (hc' : c' ∈ hexDigits) (hgap : ∀ d ∈ gap, d ∈ separators) (hrest : Spells bytes rest) :
      Spells (hexByte c c' :: bytes) (c :: c' :: (gap ++ rest))

/-- One round of the pattern. -/
theorem mem_round {text : List Char} :
    text ∈ (charClass hexDigits * charClass hexDigits * (charClass separators).star).matches' ↔
      ∃ c ∈ hexDigits, ∃ c' ∈ hexDigits, ∃ gap : List Char, (∀ d ∈ gap, d ∈ separators) ∧
        text = c :: c' :: gap := by
  rw [RegularExpression.matches'_mul, RegularExpression.matches'_mul, Language.mem_mul]
  constructor
  · rintro ⟨pair, hpair, gap, hgap, rfl⟩
    obtain ⟨first, hfirst, second, hsecond, rfl⟩ := Language.mem_mul.mp hpair
    obtain ⟨c, hc, rfl⟩ := mem_charClass.mp hfirst
    obtain ⟨c', hc', rfl⟩ := mem_charClass.mp hsecond
    exact ⟨c, hc, c', hc', gap, mem_charClass_star.mp hgap, rfl⟩
  · rintro ⟨c, hc, c', hc', gap, hgap, rfl⟩
    refine ⟨[c] ++ [c'], ?_, gap, mem_charClass_star.mpr hgap, rfl⟩
    exact Language.append_mem_mul (mem_charClass.mpr ⟨c, hc, rfl⟩)
      (mem_charClass.mpr ⟨c', hc', rfl⟩)

/-- **The pattern takes what spells six bytes**, and nothing else. -/
theorem rawHexForm_iff {text : List Char} :
    rawHexForm.rmatch text = true ↔ ∃ bytes : List Byte, bytes.length = 6 ∧ Spells bytes text := by
  rw [RegularExpression.rmatch_iff_matches', rawHexForm, RegularExpression.matches'_pow]
  generalize 6 = n
  -- by induction on the rounds of the pattern, the first of them apart
  induction n generalizing text with
  | zero =>
      rw [pow_zero, Language.mem_one]
      constructor
      · rintro rfl
        exact ⟨[], rfl, .nil⟩
      · rintro ⟨bytes, hnone, hspells⟩
        rw [List.length_eq_zero_iff.mp hnone] at hspells
        cases hspells
        rfl
  | succ n ih =>
      rw [pow_succ', Language.mem_mul]
      constructor
      · rintro ⟨round, hround, rest, hrest, rfl⟩
        obtain ⟨c, hc, c', hc', gap, hgap, rfl⟩ := mem_round.mp hround
        obtain ⟨bytes, hlen, hspells⟩ := ih.mp hrest
        exact ⟨hexByte c c' :: bytes, congrArg (· + 1) hlen, .cons hc hc' hgap hspells⟩
      · rintro ⟨bytes, hlen, hspells⟩
        cases hspells with
        | nil => exact nomatch hlen
        | cons hc hc' hgap hrest =>
            refine ⟨_, mem_round.mpr ⟨_, hc, _, hc', _, hgap, rfl⟩, _,
              ih.mpr ⟨_, Nat.succ_inj.mp hlen, hrest⟩, rfl⟩

/-- Digits are no white space, and no dash. -/
theorem hexDigits_plain : ∀ c ∈ hexDigits, c ≠ ',' ∧ c ≠ '-' ∧ isWhiteSpace c = false := by
  have hall : hexDigits.all (fun c => c ≠ ',' ∧ c ≠ '-' ∧ isWhiteSpace c = false) = true := by
    decide
  exact fun c hc => of_decide_eq_true (List.all_eq_true.mp hall c hc)

theorem notHex_of_space {c : Char} (hc : isWhiteSpace c = true) : c ∉ hexDigits := by
  intro hhex
  rw [(hexDigits_plain c hhex).2.2] at hc
  exact Bool.false_ne_true hc

theorem notHex_of_separator {c : Char} (hc : c ∈ separators) : c ∉ hexDigits := by
  rcases mem_separators.mp hc with rfl | hspace
  · exact fun hhex => (hexDigits_plain _ hhex).1 rfl
  · exact notHex_of_space hspace

theorem findBytes_skip {c : Char} (hc : c ∉ hexDigits) (rest : List Char) :
    findBytes (c :: rest) = findBytes rest := by
  cases rest with
  | nil => rfl
  | cons c' rest =>
      rw [findBytes, if_neg]
      simp [hc]

/-- What is spelled is found. -/
theorem findBytes_of_spells {bytes : List Byte} {text : List Char} (hspells : Spells bytes text) :
    findBytes text = bytes := by
  induction hspells with
  | nil => rfl
  | @cons c c' gap rest bytes hc hc' hgap hrest ih =>
      have hskip : findBytes (gap ++ rest) = findBytes rest := by
        clear ih hrest
        induction gap with
        | nil => rfl
        | cons d gap ih =>
            rw [List.cons_append, findBytes_skip (notHex_of_separator (hgap d List.mem_cons_self))]
            exact ih fun e he => hgap e (List.mem_cons_of_mem d he)
      rw [findBytes, if_pos (by simp [hc, hc']), hskip, ih]

theorem Spells.notMem_dash {bytes : List Byte} {text : List Char} (hspells : Spells bytes text) :
    '-' ∉ text := by
  induction hspells with
  | nil => exact List.not_mem_nil
  | cons hc hc' hgap hrest ih =>
      have hsep : '-' ∉ separators := by
        intro hmem
        rcases mem_separators.mp hmem with hcomma | hspace
        · exact absurd hcomma (by decide)
        · exact absurd hspace (by decide)
      simp only [List.mem_cons, List.mem_append, not_or]
      exact ⟨fun h => (hexDigits_plain _ (h ▸ hc)).2.1 rfl,
        fun h => (hexDigits_plain _ (h ▸ hc')).2.1 rfl, fun h => hsep (hgap _ h), ih⟩

/-- What is no digit can be taken off the end. -/
theorem Spells.front {bytes : List Byte} {text : List Char} {d : Char}
    (hspells : Spells bytes (text ++ [d])) (hd : d ∉ hexDigits) : Spells bytes text := by
  generalize hwhole : text ++ [d] = whole at hspells
  induction hspells generalizing text with
  | nil => exact absurd hwhole (by simp)
  | @cons c c' gap rest bytes hc hc' hgap hrest ih =>
      -- the last character is in the rest, in the gap, or the second digit
      rcases List.eq_nil_or_concat' rest with rfl | ⟨rest, r, rfl⟩
      · rcases List.eq_nil_or_concat' gap with rfl | ⟨gap, g, rfl⟩
        · have hlast : text ++ [d] = [c] ++ [c'] := hwhole
          obtain ⟨-, hsame⟩ := List.append_inj' hlast rfl
          rw [List.singleton_inj.mp hsame] at hd
          exact absurd hc' hd
        · have hlast : text ++ [d] = (c :: c' :: gap) ++ [g] := by
            rw [hwhole]
            simp
          obtain ⟨rfl, -⟩ := List.append_inj' hlast rfl
          have hfewer : ∀ e ∈ gap, e ∈ separators := fun e he =>
            hgap e (List.mem_append_left _ he)
          have hall := Spells.cons hc hc' hfewer hrest
          rwa [List.append_nil] at hall
      · have hlast : text ++ [d] = (c :: c' :: (gap ++ rest)) ++ [r] := by
          rw [hwhole]
          simp
        obtain ⟨rfl, hsame⟩ := List.append_inj' hlast rfl
        exact .cons hc hc' hgap (ih (by rw [hsame]))

theorem Spells.rdropWhile {bytes : List Byte} {text : List Char} (hspells : Spells bytes text) :
    Spells bytes (text.rdropWhile isWhiteSpace) := by
  induction text using List.reverseRecOn with
  | nil => exact hspells
  | append_singleton text d ih =>
      rw [List.rdropWhile_concat]
      split
      · next hspace => exact ih (hspells.front (notHex_of_space hspace))
      · exact hspells

/-- `strip` takes white space off the end only. -/
theorem Spells.stripLine {bytes : List Byte} {text : List Char} (hspells : Spells bytes text) :
    Spells bytes (stripLine text) := by
  have hfront : text.dropWhile isWhiteSpace = text := by
    cases hspells with
    | nil => rfl
    | cons hc _ _ _ =>
        exact List.dropWhile_cons_of_neg (by simp [(hexDigits_plain _ hc).2.2])
  unfold Formats.stripLine
  rw [hfront]
  exact hspells.rdropWhile

/-- **Six bytes in hexadecimal are these bytes.** -/
theorem parseSerial_of_spells {stamp : List Byte} {text : List Char} (hlen : stamp.length = 6)
    (hspells : Spells stamp text) : parseSerial text = .ok stamp := by
  have hstripped := hspells.stripLine
  have hmatch := rawHexForm_iff.mpr ⟨stamp, hlen, hstripped⟩
  have hnot : ¬stamp.length ≠ 6 := not_not_intro hlen
  simp only [parseSerial, hmatch, if_true, findBytes_of_spells hstripped, if_neg hnot]

/-! ### The textual forms -/

/-- Digits only. -/
def Digits (text : List Char) : Prop := ∀ c ∈ text, c.isDigit = true

theorem Digits.notMem_dash {text : List Char} (htext : Digits text) : '-' ∉ text :=
  fun hmem => absurd (htext _ hmem) (by decide)

theorem digits_str (n : Nat) : Digits (str n) := fun _ hc => str_isDigit hc

theorem digits_formatDec (w n : Nat) : Digits (formatDec w n) := fun _ hc => formatDec_isDigit hc

theorem Digits.take {text : List Char} (htext : Digits text) (k : Nat) : Digits (text.take k) :=
  fun c hc => htext c (List.mem_of_mem_take hc)

theorem Digits.drop {text : List Char} (htext : Digits text) (k : Nat) : Digits (text.drop k) :=
  fun c hc => htext c (List.mem_of_mem_drop hc)

/-- Digits and dashes only. -/
def Dashed (text : List Char) : Prop := ∀ c ∈ text, c.isDigit = true ∨ c = '-'

theorem Digits.dashed {text : List Char} (htext : Digits text) : Dashed text :=
  fun c hc => .inl (htext c hc)

theorem Dashed.join {front back : List Char} (hfront : Dashed front) (hback : Dashed back) :
    Dashed (front ++ '-' :: back) := by
  intro c hc
  rcases List.mem_append.mp hc with hc | hc
  · exact hfront c hc
  · rcases List.mem_cons.mp hc with rfl | hc
    · exact .inr rfl
    · exact hback c hc

theorem Dashed.notMem_blank {text : List Char} (htext : Dashed text) : ' ' ∉ text := by
  intro hmem
  have hspace := isWhiteSpace_of_digit (htext _ hmem)
  exact absurd hspace (by decide)

/-- A text with a dash is not raw hexadecimal, and it is as it was where it has no blanks. -/
theorem parseSerial_of_dash {s : List Char} (hs : Dashed s) (hdash : '-' ∈ s) :
    parseSerial s = textualForm s >>= fun (mfg, serial) => checkedStamp mfg serial := by
  have hstrip : stripLine s = s := stripLine_eq fun c hc => isWhiteSpace_of_digit (hs c hc)
  have hraw : rawHexForm.rmatch s ≠ true := by
    intro hmatch
    obtain ⟨bytes, -, hspells⟩ := rawHexForm_iff.mp hmatch
    exact hspells.notMem_dash hdash
  simp only [parseSerial, hstrip, if_neg hraw]

theorem textualForm_two {mfg serial : List Char} (hmfg : '-' ∉ mfg) (hserial : '-' ∉ serial) :
    textualForm (mfg ++ '-' :: serial) = do return (← int mfg, ← int serial) := by
  rw [textualForm, List.splitOn_append_cons_self_of_not_mem hmfg,
    List.splitOn_eq_singleton hserial]

theorem textualForm_three {first rest serial : List Char} (hfirst : '-' ∉ first)
    (hrest : '-' ∉ rest) (hserial : '-' ∉ serial) :
    textualForm (first ++ '-' :: rest ++ '-' :: serial) =
      do return (← int (first ++ rest), ← int serial) := by
  rw [textualForm, List.append_assoc, List.cons_append,
    List.splitOn_append_cons_self_of_not_mem hfirst,
    List.splitOn_append_cons_self_of_not_mem hrest, List.splitOn_eq_singleton hserial]

/-- A text that `int` takes for `n`. -/
def Reads (text : List Char) (n : Nat) : Prop := Digits text ∧ int text = .ok (n : Int)

theorem reads_str {n : Nat} (hn : n < 2 ^ 24) : Reads (str n) n := by
  have hlen : (str n).length ≤ 8 := length_str_le (by decide) (by omega)
  refine ⟨digits_str n, ?_⟩
  rw [int, readInt_str isIntSpace_of_digit (hlen.trans (by decide))]

theorem reads_formatDec {n : Nat} (hn : n < 2 ^ 24) : Reads (formatDec 4 n) n := by
  have hlen : (formatDec 4 n).length ≤ 8 := length_formatDec_le (by decide) (by decide) (by omega)
  refine ⟨digits_formatDec 4 n, ?_⟩
  rw [int, readInt_formatDec isIntSpace_of_digit (hlen.trans (by decide))]

theorem checkedStamp_ok {mfg serial : Nat} (hmfg : mfg < 65536) (hserial : serial < 2 ^ 24) :
    checkedStamp mfg serial = .ok (stampBytes mfg serial) := by
  rw [checkedStamp, if_neg (by omega), if_neg (by omega)]
  rfl

section Forms

variable {mfg serial : Nat} {text : List Char}

/-- **Manufacturer and serial.** -/
theorem parseSerial_two (hmfg : mfg < 65536) (hserial : serial < 2 ^ 24)
    (htext : Reads text serial) :
    parseSerial (str mfg ++ '-' :: text) = .ok (stampBytes mfg serial) := by
  obtain ⟨-, hint⟩ := reads_str (show mfg < 2 ^ 24 by omega)
  have hdashed := (digits_str mfg).dashed.join htext.1.dashed
  rw [parseSerial_of_dash hdashed (by simp),
    textualForm_two (digits_str mfg).notMem_dash htext.1.notMem_dash, hint, htext.2]
  exact checkedStamp_ok hmfg hserial

/-- **The same with the manufacturer in two parts.** -/
theorem parseSerial_three (hmfg : mfg < 65536) (hserial : serial < 2 ^ 24)
    (htext : Reads text serial) (k : Nat) :
    parseSerial ((str mfg).take k ++ '-' :: (str mfg).drop k ++ '-' :: text) =
      .ok (stampBytes mfg serial) := by
  obtain ⟨-, hint⟩ := reads_str (show mfg < 2 ^ 24 by omega)
  have hfirst := (digits_str mfg).take k
  have hrest := (digits_str mfg).drop k
  have hdashed := (hfirst.dashed.join hrest.dashed).join htext.1.dashed
  rw [parseSerial_of_dash hdashed (by simp),
    textualForm_three hfirst.notMem_dash hrest.notMem_dash htext.1.notMem_dash,
    List.take_append_drop, hint, htext.2]
  exact checkedStamp_ok hmfg hserial

/-- What `format_stamp` prints in front is one of the two. -/
theorem parseSerial_display (hmfg : mfg < 65536) (hserial : serial < 2 ^ 24) :
    parseSerial (display mfg serial) = .ok (stampBytes mfg serial) := by
  unfold display
  dsimp only
  split
  · exact parseSerial_three hmfg hserial (reads_formatDec hserial) 1
  · exact parseSerial_two hmfg hserial (reads_formatDec hserial)

end Forms

/-! ### What is printed -/

theorem lowByte_eq (n : Nat) : lowByte n = BitVec.ofNat 8 n := by
  apply BitVec.eq_of_toNat_eq
  rw [lowByte, and_low, BitVec.toNat_ofNat, BitVec.toNat_ofNat, Nat.mod_mod]

theorem lowByte_behind (n : Nat) (b : Byte) : lowByte (256 * n + b.toNat) = b := by
  have hb := b.isLt
  apply BitVec.eq_of_toNat_eq
  rw [lowByte_eq, BitVec.toNat_ofNat]
  omega

theorem highByte_behind (n : Nat) (b : Byte) : highByte (256 * n + b.toNat) = lowByte n := by
  have hb := b.isLt
  have hfront : (256 * n + b.toNat) >>> 8 = n := by
    rw [Nat.shiftRight_eq_div_pow]
    omega
  rw [highByte, hfront, lowByte]

theorem lowByte_toNat (b : Byte) : lowByte b.toNat = b := by
  rw [lowByte_eq, BitVec.ofNat_toNat, BitVec.setWidth_eq]

section Printed

variable (b₀ b₂ b₃ b₄ b₅ : Byte)

/-- The manufacturer and the serial of a stamp, as numbers. -/
theorem mfg_eq : b₂.toNat <<< 8 ||| b₀.toNat = 256 * b₂.toNat + b₀.toNat :=
  shift_or_low _ b₀.isLt

theorem serial_eq : b₃.toNat <<< 16 ||| b₄.toNat <<< 8 ||| b₅.toNat =
    256 * (256 * b₃.toNat + b₄.toNat) + b₅.toNat := by
  rw [show b₃.toNat <<< 16 = b₃.toNat <<< 8 <<< 8 from Nat.shiftLeft_add b₃.toNat 8 8,
    ← Nat.shiftLeft_or_distrib, shift_or_low _ b₄.isLt, shift_or_low _ b₅.isLt]

/-- A stamp is made of its manufacturer and its serial. -/
theorem stampBytes_of_parts :
    stampBytes (256 * b₂.toNat + b₀.toNat) (256 * (256 * b₃.toNat + b₄.toNat) + b₅.toNat) =
      [b₀, 0x16#8, b₂, b₃, b₄, b₅] := by
  have htop : (256 * (256 * b₃.toNat + b₄.toNat) + b₅.toNat) >>> 16 = b₃.toNat := by
    have h₄ := b₄.isLt
    have h₅ := b₅.isLt
    rw [Nat.shiftRight_eq_div_pow]
    omega
  simp only [stampBytes, htop, lowByte_behind, highByte_behind, lowByte_toNat, defaultVersion]

end Printed

/-- The serial's part has no blank in it. -/
theorem dashed_display (mfg serial : Nat) : Dashed (display mfg serial) := by
  have hserial := (digits_formatDec 4 serial).dashed
  have hmfg := digits_str mfg
  unfold display
  dsimp only
  split
  · have hfirst := (hmfg.take 1).dashed
    have hrest := (hmfg.drop 1).dashed
    exact (hfirst.join hrest).join hserial
  · exact hmfg.dashed.join hserial

theorem takeWhile_blank {text : List Char} (htext : ' ' ∉ text) (rest : List Char) :
    (text ++ ' ' :: rest).takeWhile (· ≠ ' ') = text := by
  have hall : ∀ c ∈ text, decide (c ≠ ' ') = true := by
    rintro c hc
    exact decide_eq_true (by rintro rfl; exact htext hc)
  rw [List.takeWhile_append_of_pos hall, List.takeWhile_cons_of_neg (by simp), List.append_nil]

theorem digitChar_mem : ∀ n < 16, n.digitChar ∈ hexDigits := by decide

theorem hexValue_digitChar : ∀ n < 16, hexValue n.digitChar = some n := by decide

/-- The two digits of a byte. -/
theorem hexByte_digitChar (b : Byte) :
    hexByte (b.toNat / 16).digitChar (b.toNat % 16).digitChar = b := by
  have hb : b.toNat < 256 := b.isLt
  rw [hexByte, hexValue_digitChar _ (by omega), hexValue_digitChar _ (by omega),
    Option.getD_some, Option.getD_some, Nat.div_add_mod]
  exact BitVec.ofNat_toNat 8 b

/-- **`bytes.hex` spells the bytes.** -/
theorem spells_hexSpaced (bytes : List Byte) : Spells bytes (hexSpaced bytes) := by
  induction bytes with
  | nil => exact .nil
  | cons b bytes ih =>
      have hb : b.toNat < 256 := b.isLt
      have hhigh := digitChar_mem (b.toNat / 16) (by omega)
      have hlow := digitChar_mem (b.toNat % 16) (by omega)
      have hbyte := hexByte_digitChar b
      cases bytes with
      | nil =>
          have hone := Spells.cons hhigh hlow (List.forall_mem_nil _) .nil
          rwa [hbyte] at hone
      | cons b' bytes =>
          have hblank : ∀ d ∈ [' '], d ∈ separators :=
            List.forall_mem_singleton.mpr (mem_separators.mpr (.inr rfl))
          have hall := Spells.cons hhigh hlow hblank ih
          rwa [hbyte] at hall

/-! ### What is accepted -/

theorem checkedStamp_inv {mfg serial : Int} {stamp : List Byte}
    (hok : checkedStamp mfg serial = .ok stamp) :
    (0 ≤ mfg ∧ mfg < 65536) ∧ (0 ≤ serial ∧ serial < 2 ^ 24) ∧
      stamp = stampBytes mfg.toNat serial.toNat := by
  unfold checkedStamp at hok
  split at hok
  · cases hok
  · next hmfg =>
      split at hok
      · cases hok
      · next hserial =>
          cases hok
          exact ⟨by omega, by omega, rfl⟩

/-- A text that is accepted spells the six bytes, or it is a manufacturer and a serial in range. -/
theorem parseSerial_inv {text : List Char} {stamp : List Byte}
    (hok : parseSerial text = .ok stamp) :
    (stamp.length = 6 ∧ Spells stamp (stripLine text)) ∨
      ∃ mfg serial : Nat, mfg < 65536 ∧ serial < 2 ^ 24 ∧
        textualForm (stripLine text) = .ok (↑mfg, ↑serial) ∧ stamp = stampBytes mfg serial := by
  unfold parseSerial at hok
  dsimp only at hok
  split at hok
  · next hmatch =>
      obtain ⟨bytes, hlen, hspells⟩ := rawHexForm_iff.mp hmatch
      rw [findBytes_of_spells hspells, if_neg (not_not_intro hlen)] at hok
      cases hok
      exact .inl ⟨hlen, hspells⟩
  · cases hform : textualForm (stripLine text) with
    | error e =>
        rw [hform] at hok
        cases hok
    | ok numbers =>
        rw [hform] at hok
        obtain ⟨hmfg, hserial, rfl⟩ := checkedStamp_inv hok
        refine .inr ⟨numbers.1.toNat, numbers.2.toNat, by omega, by omega, ?_, rfl⟩
        rw [Int.toNat_of_nonneg hmfg.1, Int.toNat_of_nonneg hserial.1]

/-- What is accepted can be printed. -/
theorem formatStamp_of_parseSerial {text : List Char} {stamp : List Byte}
    (hok : parseSerial text = .ok stamp) : ∃ printed, formatStamp stamp = .ok printed := by
  have hlen : stamp.length = 6 := by
    rcases parseSerial_inv hok with ⟨hlen, -⟩ | ⟨mfg, serial, -, -, -, rfl⟩
    · exact hlen
    · rfl
  match stamp, hlen with
  | [_, _, _, _, _, _], _ => exact ⟨_, rfl⟩

/-! ### The round trip -/

/-- `format_stamp` prints the serial, and something behind a blank. -/
theorem formatStamp_eq (b₀ b₁ b₂ b₃ b₄ b₅ : Byte) :
    ∃ rest, formatStamp [b₀, b₁, b₂, b₃, b₄, b₅] =
      .ok (display (256 * b₂.toNat + b₀.toNat)
        (256 * (256 * b₃.toNat + b₄.toNat) + b₅.toNat) ++ ' ' :: rest) := by
  simp only [formatStamp, mfg_eq, serial_eq, List.append_assoc]
  exact ⟨_, rfl⟩

/-- **A printed serial is read back.** -/
theorem parseSerial_formatStamp {b₀ b₂ b₃ b₄ b₅ : Byte} :
    ∃ text, formatStamp [b₀, 0x16#8, b₂, b₃, b₄, b₅] = .ok text ∧
      parseSerial (text.takeWhile (· ≠ ' ')) = .ok [b₀, 0x16#8, b₂, b₃, b₄, b₅] := by
  obtain ⟨rest, hprinted⟩ := formatStamp_eq b₀ 0x16#8 b₂ b₃ b₄ b₅
  have h₀ := b₀.isLt
  have h₂ := b₂.isLt
  have h₃ := b₃.isLt
  have h₄ := b₄.isLt
  have h₅ := b₅.isLt
  refine ⟨_, hprinted, ?_⟩
  rw [takeWhile_blank (dashed_display _ _).notMem_blank,
    parseSerial_display (by omega) (by omega), stampBytes_of_parts]

/-- **Serial stamps print and parse back.**  A stamp of version 0x16 is read from what is printed
of it and from its bytes in hexadecimal, however these are set apart; manufacturer and serial are
read alike whether the manufacturer is in one part or in two; and whatever is accepted can be
printed. -/
theorem stamp_round_trip :
    (∀ stamp : List Byte, stamp.length = 6 → stamp[1]? = some 0x16#8 →
      (∃ text, formatStamp stamp = .ok text ∧
        parseSerial (text.takeWhile (· ≠ ' ')) = .ok stamp) ∧
      parseSerial (hexSpaced stamp) = .ok stamp ∧
      ∀ text, Spells stamp text → parseSerial text = .ok stamp) ∧
    (∀ mfg serial : Nat, mfg < 65536 → serial < 2 ^ 24 →
      parseSerial (str mfg ++ '-' :: str serial) = .ok (stampBytes mfg serial) ∧
      parseSerial ((str mfg).take 1 ++ '-' :: (str mfg).drop 1 ++ '-' :: str serial) =
        .ok (stampBytes mfg serial)) ∧
    ∀ text stamp, parseSerial text = .ok stamp → ∃ printed, formatStamp stamp = .ok printed := by
  refine ⟨?_, ?_, fun text stamp hok => formatStamp_of_parseSerial hok⟩
  · intro stamp hlen hversion
    have hhex := parseSerial_of_spells hlen (spells_hexSpaced stamp)
    refine ⟨?_, hhex, fun text hspells => parseSerial_of_spells hlen hspells⟩
    match stamp, hlen with
    | [b₀, b₁, b₂, b₃, b₄, b₅], _ =>
        obtain rfl : b₁ = 0x16#8 := Option.some_inj.mp hversion
        exact parseSerial_formatStamp
  · intro mfg serial hmfg hserial
    have hreads := reads_str hserial
    exact ⟨parseSerial_two hmfg hserial hreads, parseSerial_three hmfg hserial hreads 1⟩

theorem stamp_round_trip_customer :
    ((∃ text, formatStamp [0xD5#8, 0x16#8, 0x08#8, 0x00#8, 0x0B#8, 0x9C#8] = .ok text ∧
      parseSerial (text.takeWhile (· ≠ ' ')) =
        .ok [0xD5#8, 0x16#8, 0x08#8, 0x00#8, 0x0B#8, 0x9C#8]) ∧
      parseSerial "d5 16 08 00 0b 9c".toList =
        .ok [0xD5#8, 0x16#8, 0x08#8, 0x00#8, 0x0B#8, 0x9C#8] ∧
      parseSerial "D5 16,08000B 9C".toList =
        .ok [0xD5#8, 0x16#8, 0x08#8, 0x00#8, 0x0B#8, 0x9C#8]) ∧
    parseSerial "2261-2972".toList = .ok (stampBytes 2261 2972) ∧
    parseSerial "2-261-2972".toList = .ok (stampBytes 2261 2972) := by
  have hstamp := stamp_round_trip.1 [0xD5#8, 0x16#8, 0x08#8, 0x00#8, 0x0B#8, 0x9C#8] rfl rfl
  have hnone : ∀ d ∈ ([] : List Char), d ∈ separators := List.forall_mem_nil _
  have hblank : ∀ d ∈ [' '], d ∈ separators :=
    List.forall_mem_singleton.mpr (mem_separators.mpr (.inr rfl))
  have hcomma : ∀ d ∈ [','], d ∈ separators :=
    List.forall_mem_singleton.mpr (mem_separators.mpr (.inl rfl))
  have hserial : Spells [hexByte '0' '0', hexByte '0' 'B', hexByte '9' 'C'] "000B 9C".toList :=
    .cons (by decide) (by decide) hnone (.cons (by decide) (by decide) hblank
      (.cons (by decide) (by decide) hnone .nil))
  have hspells : Spells
      (hexByte 'D' '5' :: hexByte '1' '6' :: hexByte '0' '8' ::
        [hexByte '0' '0', hexByte '0' 'B', hexByte '9' 'C'])
      "D5 16,08000B 9C".toList :=
    .cons (by decide) (by decide) hblank (.cons (by decide) (by decide) hcomma
      (.cons (by decide) (by decide) hnone hserial))
  exact ⟨⟨hstamp.1, hstamp.2.1, hstamp.2.2 _ hspells⟩,
    stamp_round_trip.2.1 2261 2972 (by decide) (by decide)⟩

end Install
end Rc700
