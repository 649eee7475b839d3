import Rc700.Formats.IntelHex

/-!
# Which records the HEX reader takes

The reader takes the length byte for the data and the last byte for the checksum, and never
compares the length byte with the length of the record.  So it passes every record of five
bytes or more with the sum 0 (`parseLines_ok_iff`), and takes exactly the well-formed files
only as long as no such record has another length (`parseHex_exact_iff`).
-/

namespace Rc700
namespace Formats

open Library

/-! ### Records as bytes -/

/-- The length byte of a record. -/
def lengthByte (raw : List Byte) : Nat := (raw.getD 0 0#8).toNat

/-- The address of a record. -/
def addressOf (raw : List Byte) : Nat := (raw.getD 1 0#8).toNat * 256 + (raw.getD 2 0#8).toNat

/-- The type of a record. -/
def typeOf (raw : List Byte) : Byte := raw.getD 3 0#8

/-- A record of the format: as long as its length byte says, with the sum 0. -/
def WellFormed (raw : List Byte) : Prop :=
  raw.length = 5 + lengthByte raw ∧ (raw.map BitVec.toNat).sum % 256 = 0

/-- What the reader asks of a record. -/
def Passes (raw : List Byte) : Prop :=
  5 ≤ raw.length ∧ (raw.map BitVec.toNat).sum % 256 = 0

/-- The lines that start with a colon, as bytes where they are hexadecimal. -/
def rawRecords (lines : List (List Char)) : List (Option (List Byte)) :=
  ((lines.map stripLine).filter fun line => line.head? = some ':').map fun line =>
    fromHex (line.drop 1)

/-- The records up to the first of type 01. -/
def upToEof : List (Option (List Byte)) → List (Option (List Byte))
  | [] => []
  | none :: rs => none :: upToEof rs
  | some raw :: rs => if typeOf raw = 0x01#8 then [some raw] else some raw :: upToEof rs

/-- The data of a record of type 00. -/
def dataOf (raw : List Byte) : Option DataRecord :=
  if typeOf raw = 0x00#8 then some (addressOf raw, (raw.drop 4).take (lengthByte raw)) else none

/-- The records of a text that count. -/
def recordsOf (text : List Char) : List (Option (List Byte)) :=
  upToEof (rawRecords (splitLines (universalNewlines text)))

/-! ### What passes -/

theorem addressOf_eq (raw : List Byte) :
    (raw.getD 1 0#8).toNat <<< 8 ||| (raw.getD 2 0#8).toNat = addressOf raw := by
  have hlow : (raw.getD 2 0#8).toNat < 256 := (raw.getD 2 0#8).isLt
  rw [shift_or_low _ hlow, Nat.mul_comm]
  rfl

/-- The last byte is the checksum of the others exactly if the sum of all is 0. -/
theorem checksum_eq_iff {raw : List Byte} (hne : raw ≠ []) :
    (raw.getLastD 0#8).toNat = checksum (raw.dropLast.map BitVec.toNat) ↔
      (raw.map BitVec.toNat).sum % 256 = 0 := by
  obtain ⟨front, last, rfl⟩ := (List.eq_nil_or_concat' raw).resolve_left hne
  have hlast := last.isLt
  have hend : (front ++ [last]).getLastD 0#8 = last := by simp
  rw [hend, List.dropLast_concat, List.map_append, List.sum_append]
  unfold checksum
  simp only [List.map_cons, List.map_nil, List.sum_cons, List.sum_nil]
  omega

theorem rawRecords_cons (text : List Char) (rest : List (List Char)) :
    rawRecords (text :: rest) =
      if (stripLine text).head? = some ':' then
        fromHex ((stripLine text).drop 1) :: rawRecords rest
      else rawRecords rest := by
  unfold rawRecords
  rw [List.map_cons, List.filter_cons]
  split <;> simp_all

/-- The record is the first of those that count. -/
theorem mem_upToEof (raw : List Byte) (rs : List (Option (List Byte))) :
    some raw ∈ upToEof (some raw :: rs) := by
  rw [upToEof]
  split <;> simp

theorem typeOf_toNat (raw : List Byte) (b : Byte) :
    (raw.getD 3 0#8).toNat = b.toNat ↔ typeOf raw = b := BitVec.toNat_inj

theorem map_eq_ok {ε α β : Type*} {e : Except ε α} {f : α → β} {out : β} :
    e.map f = .ok out ↔ ∃ a, e = .ok a ∧ f a = out := by
  cases e <;> simp [Except.map]

/-- **What the reader takes**: all records that count pass; and it returns the data of those of
type 00, in order. -/
theorem parseLines_ok_iff (lineno : Nat) (lines : List (List Char)) (out : List DataRecord) :
    parseLines lineno lines = .ok out ↔
      (∀ r ∈ upToEof (rawRecords lines), ∃ raw, r = some raw ∧ Passes raw) ∧
        out = (upToEof (rawRecords lines)).filterMap (·.bind dataOf) := by
  -- by induction on the lines; `parse_hex` returns at the first EOF record
  induction lines generalizing lineno out with
  | nil => simp [parseLines, rawRecords, upToEof, eq_comm]
  | cons text rest ih =>
      rw [parseLines, rawRecords_cons]
      by_cases hcolon : (stripLine text).head? = some ':'
      · have hline : ¬(stripLine text = [] ∨ (stripLine text).head? ≠ some ':') := by
          rintro (hnil | hother)
          · simp [hnil] at hcolon
          · exact hother hcolon
        rw [if_neg hline, if_pos hcolon]
        cases hraw : fromHex ((stripLine text).drop 1) with
        | none => simp [upToEof]
        | some raw =>
            dsimp only
            by_cases hpass : Passes raw
            · have hsum := (checksum_eq_iff (List.ne_nil_of_length_pos (Nat.lt_of_lt_of_le
                (by decide) hpass.1))).mpr hpass.2
              rw [if_neg (Nat.not_lt.mpr hpass.1), if_neg (not_not_intro hsum), addressOf_eq]
              have hzero := typeOf_toNat raw 0x00#8
              have hone := typeOf_toNat raw 0x01#8
              simp only [BitVec.toNat_ofNat, Nat.reducePow, Nat.reduceMod] at hzero hone
              rw [upToEof]
              simp only [hzero, hone]
              -- a data record, the EOF record, or a type that is passed over
              by_cases hdata : typeOf raw = 0x00#8
              · have hmore : ¬typeOf raw = 0x01#8 := by
                  rw [hdata]
                  decide
                rw [if_pos hdata, if_neg hmore, map_eq_ok]
                simp only [ih, List.forall_mem_cons, List.filterMap_cons, Option.bind_some, dataOf,
                  if_pos hdata]
                constructor
                · rintro ⟨out', ⟨hall, rfl⟩, rfl⟩
                  exact ⟨⟨⟨raw, rfl, hpass⟩, hall⟩, rfl⟩
                · rintro ⟨⟨-, hall⟩, rfl⟩
                  exact ⟨_, ⟨hall, rfl⟩, rfl⟩
              · by_cases heof : typeOf raw = 0x01#8
                · rw [if_neg hdata, if_pos heof, if_pos heof]
                  simp [dataOf, hdata, hpass, eq_comm]
                · rw [if_neg hdata, if_neg heof, if_neg heof, ih]
                  simp [dataOf, hdata, hpass]
            · -- one of the two tests turns it down
              have hnone : ¬(∀ r ∈ upToEof (some raw :: rawRecords rest),
                  ∃ raw, r = some raw ∧ Passes raw) := by
                intro hall
                obtain ⟨raw', hsame, hpass'⟩ := hall _ (mem_upToEof raw _)
                exact hpass (Option.some.inj hsame ▸ hpass')
              refine iff_of_false ?_ fun hboth => hnone hboth.1
              by_cases hlen : raw.length < 5
              · rw [if_pos hlen]
                simp
              · have hsum := (checksum_eq_iff (List.ne_nil_of_length_pos (Nat.lt_of_lt_of_le
                  (by decide) (Nat.not_lt.mp hlen)))).not.mpr fun hzero =>
                    hpass ⟨Nat.not_lt.mp hlen, hzero⟩
                rw [if_neg hlen, if_pos hsum]
                simp
      · rw [if_pos (Or.inr hcolon), if_neg hcolon]
        exact ih (lineno + 1) out

/-! ### Well-formed files -/

theorem parseHex_ok_iff (text : List Char) (out : List DataRecord) :
    parseHex text = .ok out ↔
      (∀ r ∈ recordsOf text, ∃ raw, r = some raw ∧ Passes raw) ∧
        out = (recordsOf text).filterMap (·.bind dataOf) :=
  parseLines_ok_iff 1 _ out

theorem WellFormed.passes {raw : List Byte} (hraw : WellFormed raw) : Passes raw :=
  ⟨by have hlen := hraw.1; omega, hraw.2⟩

/-- **Exactly the well-formed files are taken**, with the data of their records, if and only if
in a file of which every record passes every record has the length that its length byte says. -/
theorem parseHex_exact_iff (text : List Char) :
    (((∃ out, parseHex text = .ok out) ↔
        ∀ r ∈ recordsOf text, ∃ raw, r = some raw ∧ WellFormed raw) ∧
      ∀ out, parseHex text = .ok out → out = (recordsOf text).filterMap (·.bind dataOf)) ↔
    ((∀ r ∈ recordsOf text, ∃ raw, r = some raw ∧ Passes raw) →
      ∀ raw, some raw ∈ recordsOf text → raw.length = 5 + lengthByte raw) := by
  have htaken : (∃ out, parseHex text = .ok out) ↔
      ∀ r ∈ recordsOf text, ∃ raw, r = some raw ∧ Passes raw := by
    simp only [parseHex_ok_iff, exists_and_left, exists_eq, and_true]
  have hdata : ∀ out, parseHex text = .ok out → out = (recordsOf text).filterMap (·.bind dataOf) :=
    fun out hout => ((parseHex_ok_iff text out).mp hout).2
  rw [htaken]
  constructor
  · rintro ⟨hiff, -⟩ hall raw hmem
    obtain ⟨raw', hsame, hform⟩ := hiff.mp hall _ hmem
    rw [Option.some.inj hsame]
    exact hform.1
  · intro hlength
    refine ⟨⟨fun hall r hr => ?_, fun hall r hr => ?_⟩, hdata⟩
    · obtain ⟨raw, rfl, hpass⟩ := hall r hr
      exact ⟨raw, rfl, hlength hall raw hr, hpass.2⟩
    · obtain ⟨raw, rfl, hform⟩ := hall r hr
      exact ⟨raw, rfl, hform.passes⟩

/-- A record of three bytes of data, of which two are lost: its checksum is read as data. -/
theorem parseHex_truncated :
    ¬∀ text : List Char,
      ((∃ out, parseHex text = .ok out) ↔
        ∀ r ∈ recordsOf text, ∃ raw, r = some raw ∧ WellFormed raw) ∧
      ∀ out, parseHex text = .ok out → out = (recordsOf text).filterMap (·.bind dataOf) := by
  intro hall
  have hline : recordsOf ":0300000001FC".toList =
      [some [0x03#8, 0x00#8, 0x00#8, 0x00#8, 0x01#8, 0xFC#8]] := by
    decide
  have hiff := (hall ":0300000001FC".toList).1
  have htaken := hiff.mp ⟨_, (parseHex_ok_iff _ _).mpr ⟨by
    rw [hline]
    simp [Passes], rfl⟩⟩
  rw [hline] at htaken
  simp [WellFormed, lengthByte] at htaken

end Formats
end Rc700
