import Mathlib.Data.List.DropRight
import Rc700.Library.HexText
import Rc700.Library.TextLines

/-!
# Intel HEX

The three writers of Intel HEX, in `bin2ihex.py`, `cim_to_hex.py` and `mk_sysgen_hex.py`, and
the reader and the overlay of `apply_hex.py`.

All three write the records of `pieces`, which cut the data every 16 bytes, and differ in the
line ends and in the last record.  The reader takes the records back whatever they are
(`parseLines_dataRecords`), and the pieces put the data in place (`applyRecords_pieces`).
-/

namespace Rc700
namespace Formats

open Library

/-- A data record: the address and the bytes. -/
abbrev DataRecord := Nat × List Byte

/-! ### The writers -/

/-- `(-sum(record)) & 0xFF` -/
def checksum (record : List Nat) : Nat := (-(record.sum : Int) % 256).toNat

/-- `record_len` and `max_per_line`: the data bytes of one record. -/
def recordLen : Nat := 16

/-- The record that ends a file: type 01. -/
def eofLine : List Char := ":00000001FF".toList

/-- One line of `bin2ihex.to_ihex`. -/
def toIhexLine (data : List Byte) (baseAddr i : Nat) : List Char :=
  let chunk := (data.drop i).take recordLen
  let addr := baseAddr + i
  let record : List Byte :=
    [BitVec.ofNat 8 chunk.length, BitVec.ofNat 8 (addr >>> 8 &&& 0xFF),
      BitVec.ofNat 8 (addr &&& 0xFF), 0x00#8] ++ chunk
  ':' :: hexText record ++ formatHex 2 (checksum (record.map BitVec.toNat))

/-- `bin2ihex.to_ihex` -/
def toIhex (data : List Byte) (baseAddr : Nat) : List Char :=
  let starts := List.range' 0 ((data.length + recordLen - 1) / recordLen) recordLen
  joinLines ['\r'] (starts.map (toIhexLine data baseAddr) ++ [eofLine])

/-- The loop of `cim_to_hex.to_hex`, from byte `i` on. -/
def toHexLines (data : List Byte) (base i : Nat) : List (List Char) :=
  if i < data.length then
    let chunk := (data.drop i).take 16
    let addr := base + i
    let byteCount := chunk.length
    let sum := chunk.foldl (fun checksum b => checksum + b.toNat)
      (byteCount + (addr >>> 8) + (addr &&& 0xFF) + 0x00)
    (':' :: formatHex 2 byteCount ++ formatHex 4 addr ++ formatHex 2 0x00 ++ hexText chunk ++
      formatHex 2 (-(sum : Int) % 256).toNat) :: toHexLines data base (i + 16)
  else []
termination_by data.length - i

/-- `cim_to_hex.to_hex` -/
def toHex (data : List Byte) (base : Nat) : List Char :=
  joinLines ['\r', '\n'] (toHexLines data base 0 ++ [eofLine])

/-- `mk_sysgen_hex.ihex_record` -/
def ihexRecord (rtype addr : Nat) (data : List Byte) : List Char :=
  let record := [data.length, addr >>> 8 &&& 0xFF, addr &&& 0xFF, rtype] ++ data.map BitVec.toNat
  ':' :: record.flatMap (formatHex 2) ++ formatHex 2 (checksum record)

/-- The loop of `mk_sysgen_hex.ihex_data`, from `offset` on. -/
def ihexDataFrom (addr : Nat) (data : List Byte) (offset : Nat) : List (List Char) :=
  if offset < data.length then
    let chunk := (data.drop offset).take recordLen
    ihexRecord 0x00 (addr + offset) chunk :: ihexDataFrom addr data (offset + chunk.length)
  else []
termination_by data.length - offset
decreasing_by
  simp only [List.length_take, List.length_drop, recordLen]
  omega

/-- `mk_sysgen_hex.ihex_data` -/
def ihexData (addr : Nat) (data : List Byte) : List (List Char) := ihexDataFrom addr data 0

/-- The file that `mk_sysgen_hex.main` writes for some lines: a record of no bytes ends it. -/
def sysgenText (sep : List Char) (lines : List (List Char)) : List Char :=
  joinLines sep (lines ++ [ihexRecord 0x00 0x0000 []])

/-! ### The reader -/

/-- The white space of `str.strip`. -/
def isWhiteSpace (c : Char) : Bool :=
  (0x09 ≤ c.toNat ∧ c.toNat ≤ 0x0D) ∨ (0x1C ≤ c.toNat ∧ c.toNat ≤ 0x20) ∨
    (0x2000 ≤ c.toNat ∧ c.toNat ≤ 0x200A) ∨
    c.toNat ∈ [0x85, 0xA0, 0x1680, 0x2028, 0x2029, 0x202F, 0x205F, 0x3000]

/-- `line.strip()` -/
def stripLine (line : List Char) : List Char :=
  (line.dropWhile isWhiteSpace).rdropWhile isWhiteSpace

/-- The errors, each with what its message names. -/
inductive HexError
  | badHex (lineno : Nat)
  | tooShort (lineno : Nat)
  | checksum (lineno checksum computed : Nat)
  | outside (absAddr : Nat) (relOff : Int)
  deriving DecidableEq, Repr

/-- The loop of `parse_hex`, from a line on. -/
def parseLines : Nat → List (List Char) → Except HexError (List DataRecord)
  | _, [] => .ok []
  | lineno, text :: rest =>
      let line := stripLine text
      if line = [] ∨ line.head? ≠ some ':' then parseLines (lineno + 1) rest
      else
        match fromHex (line.drop 1) with
        | none => .error (.badHex lineno)
        | some raw =>
            if raw.length < 5 then .error (.tooShort lineno)
            else
              let length := (raw.getD 0 0#8).toNat
              let addrHi := (raw.getD 1 0#8).toNat
              let addrLo := (raw.getD 2 0#8).toNat
              let rtype := (raw.getD 3 0#8).toNat
              let data := (raw.drop 4).take length
              let found := (raw.getLastD 0#8).toNat
              let computed := checksum (raw.dropLast.map BitVec.toNat)
              if found ≠ computed then .error (.checksum lineno found computed)
              else
                let addr := addrHi <<< 8 ||| addrLo
                if rtype = 0x00 then
                  (parseLines (lineno + 1) rest).map ((addr, data) :: ·)
                else if rtype = 0x01 then .ok []
                else parseLines (lineno + 1) rest

/-- `parse_hex` -/
def parseHex (text : List Char) : Except HexError (List DataRecord) :=
  parseLines 1 (splitLines (universalNewlines text))

/-- `apply_records` -/
def applyRecords (baseAddr : Int) : List Byte → List DataRecord → Except HexError (List Byte)
  | data, [] => .ok data
  | data, (absAddr, chunk) :: records =>
      let relOff := (absAddr : Int) - baseAddr
      if relOff < 0 ∨ relOff + chunk.length > data.length then
        if chunk.length = 0 then applyRecords baseAddr data records
        else .error (.outside absAddr relOff)
      else
        applyRecords baseAddr
          (data.take relOff.toNat ++ chunk ++ data.drop (relOff.toNat + chunk.length)) records

/-! ### The lines -/

/-- The pieces of the data: what all three writers make records of. -/
def pieces (base : Nat) (data : List Byte) : List DataRecord :=
  if data = [] then [] else (base, data.take 16) :: pieces (base + 16) (data.drop 16)
termination_by data.length
decreasing_by
  rename_i hne
  have := List.length_pos_of_ne_nil hne
  simp only [List.length_drop]
  omega

@[simp] theorem pieces_nil (base : Nat) : pieces base [] = [] := by simp [pieces]

theorem pieces_of_ne {data : List Byte} (hne : data ≠ []) (base : Nat) :
    pieces base data = (base, data.take 16) :: pieces (base + 16) (data.drop 16) := by
  rw [pieces, if_neg hne]

/-- Pieces fit into a record. -/
def Fits (record : DataRecord) : Prop := record.1 < 65536 ∧ record.2.length < 256

/-- Pieces of any length. -/
def piecesOf (len base : Nat) (data : List Byte) : List DataRecord :=
  if data = [] ∨ len = 0 then []
  else (base, data.take len) :: piecesOf len (base + len) (data.drop len)
termination_by data.length
decreasing_by
  rename_i hne
  have := List.length_pos_of_ne_nil (not_or.mp hne).1
  simp only [List.length_drop]
  omega

@[simp] theorem piecesOf_nil (len base : Nat) : piecesOf len base [] = [] := by simp [piecesOf]

theorem piecesOf_of_ne {len : Nat} (hlen : 0 < len) {data : List Byte} (hne : data ≠ [])
    (base : Nat) :
    piecesOf len base data =
      (base, data.take len) :: piecesOf len (base + len) (data.drop len) := by
  rw [piecesOf, if_neg]
  rintro (hnil | hzero)
  · exact hne hnil
  · omega

theorem pieces_eq (base : Nat) (data : List Byte) : pieces base data = piecesOf 16 base data := by
  induction base, data using pieces.induct with
  | case1 base => simp
  | case2 base data hne ih => rw [pieces_of_ne hne, piecesOf_of_ne (by omega) hne, ih]

theorem piecesOf_fit {len base : Nat} {data : List Byte} (hlen : len < 256)
    (hbase : base + data.length ≤ 65536) {record : DataRecord}
    (hrecord : record ∈ piecesOf len base data) : Fits record := by
  induction base, data using piecesOf.induct len with
  | case1 base data hnone => simp [piecesOf, hnone] at hrecord
  | case2 base data hsome ih =>
      obtain ⟨hne, hzero⟩ := not_or.mp hsome
      have hpos := List.length_pos_of_ne_nil hne
      rw [piecesOf_of_ne (by omega) hne] at hrecord
      rcases List.mem_cons.mp hrecord with rfl | hrest
      · exact ⟨by show base < 65536; omega, by simp only [List.length_take]; omega⟩
      · by_cases hmore : data.drop len = []
        · simp [hmore] at hrest
        · have hdrop := List.length_pos_of_ne_nil hmore
          refine ih ?_ hrest
          simp only [List.length_drop] at hdrop ⊢
          omega

theorem pieces_fit {base : Nat} {data : List Byte} (hbase : base + data.length ≤ 65536)
    {record : DataRecord} (hrecord : record ∈ pieces base data) : Fits record := by
  rw [pieces_eq] at hrecord
  exact piecesOf_fit (by omega) hbase hrecord

/-- The lines of some records. -/
def dataLines (records : List DataRecord) : List (List Char) :=
  records.map fun record => ihexRecord 0x00 record.1 record.2


theorem hexText_eq (bytes : List Byte) :
    hexText bytes = (bytes.map BitVec.toNat).flatMap (formatHex 2) := by
  rw [List.flatMap_map]
  rfl

theorem shift_high (n : Nat) : n >>> 8 = n / 256 := Nat.shiftRight_eq_div_pow n 8

theorem toIhexLine_eq (data : List Byte) (base i : Nat) :
    toIhexLine data base i = ihexRecord 0x00 (base + i) ((data.drop i).take 16) := by
  have hlen : ((data.drop i).take 16).length % 256 = ((data.drop i).take 16).length :=
    Nat.mod_eq_of_lt (by simp only [List.length_take]; omega)
  simp only [toIhexLine, ihexRecord, recordLen, hexText_eq]
  generalize (data.drop i).take 16 = chunk at hlen ⊢
  simp [and_low, hlen]

theorem foldl_sum (chunk : List Byte) (n : Nat) :
    chunk.foldl (fun checksum b => checksum + b.toNat) n = n + (chunk.map BitVec.toNat).sum := by
  induction chunk generalizing n with
  | nil => rfl
  | cons b chunk ih => simp [ih, Nat.add_assoc]

theorem toHexLines_eq {data : List Byte} {base i : Nat} (hi : i < data.length)
    (hbase : base + data.length ≤ 65536) :
    toHexLines data base i =
      ihexRecord 0x00 (base + i) ((data.drop i).take 16) :: toHexLines data base (i + 16) := by
  have haddr : (base + i) / 256 % 256 = (base + i) / 256 := Nat.mod_eq_of_lt (by omega)
  rw [toHexLines, if_pos hi]
  simp only [ihexRecord, hexText_eq, checksum, foldl_sum, and_low, shift_high, haddr,
    formatHex_word (show base + i < 65536 by omega)]
  generalize (data.drop i).take 16 = chunk
  simp [Nat.add_assoc]

theorem range'_eq_cons {n : Nat} (hn : 0 < n) (start : Nat) :
    List.range' start ((n + 16 - 1) / 16) 16 =
      start :: List.range' (start + 16) ((n - 16 + 16 - 1) / 16) 16 := by
  have hcount : (n + 16 - 1) / 16 = (n - 16 + 16 - 1) / 16 + 1 := by omega
  rw [hcount, List.range'_succ]

theorem toIhex_pieces (data : List Byte) (base i : Nat) :
    (List.range' i ((data.length - i + 16 - 1) / 16) 16).map (toIhexLine data base) =
      dataLines (pieces (base + i) (data.drop i)) := by
  induction hrest : data.length - i using Nat.strong_induction_on generalizing i with
  | _ n ih =>
      subst hrest
      by_cases hi : i < data.length
      · have hne : data.drop i ≠ [] := List.ne_nil_of_length_pos (by simp; omega)
        have hnext : data.length - i - 16 = data.length - (i + 16) := by omega
        rw [range'_eq_cons (by omega), hnext, List.map_cons, pieces_of_ne hne, toIhexLine_eq,
          ih (data.length - (i + 16)) (by omega) (i + 16) rfl, List.drop_drop, Nat.add_assoc]
        rfl
      · have hnil : data.drop i = [] := List.drop_eq_nil_of_le (by omega)
        have hcount : (data.length - i + 16 - 1) / 16 = 0 := by omega
        rw [hcount, hnil]
        simp [dataLines]

theorem toHexLines_pieces {data : List Byte} {base : Nat} (hbase : base + data.length ≤ 65536)
    (i : Nat) : toHexLines data base i = dataLines (pieces (base + i) (data.drop i)) := by
  induction hrest : data.length - i using Nat.strong_induction_on generalizing i with
  | _ n ih =>
      subst hrest
      by_cases hi : i < data.length
      · have hne : data.drop i ≠ [] := List.ne_nil_of_length_pos (by simp; omega)
        rw [toHexLines_eq hi hbase, pieces_of_ne hne, List.drop_drop,
          ih (data.length - (i + 16)) (by omega) (i + 16) rfl, Nat.add_assoc]
        rfl
      · have hnil : data.drop i = [] := List.drop_eq_nil_of_le (by omega)
        rw [toHexLines, if_neg hi, hnil]
        simp [dataLines]

theorem ihexDataFrom_pieces (addr : Nat) (data : List Byte) (offset : Nat) :
    ihexDataFrom addr data offset = dataLines (pieces (addr + offset) (data.drop offset)) := by
  induction hrest : data.length - offset using Nat.strong_induction_on generalizing offset with
  | _ n ih =>
      subst hrest
      by_cases hoffset : offset < data.length
      · have hne : data.drop offset ≠ [] := List.ne_nil_of_length_pos (by simp; omega)
        have hlen : ((data.drop offset).take 16).length = min 16 (data.length - offset) := by simp
        rw [ihexDataFrom, if_pos hoffset, pieces_of_ne hne]
        simp only [recordLen]
        rw [ih _ (by omega) _ rfl, List.drop_drop, dataLines, dataLines, List.map_cons]
        by_cases hmore : 16 ≤ data.length - offset
        · rw [hlen, Nat.min_eq_left hmore, Nat.add_assoc]
        · have h₁ : data.drop (offset + ((data.drop offset).take 16).length) = [] :=
            List.drop_eq_nil_of_le (by omega)
          have h₂ : data.drop (offset + 16) = [] := List.drop_eq_nil_of_le (by omega)
          rw [h₁, h₂, pieces_nil, pieces_nil]
      · have hnil : data.drop offset = [] := List.drop_eq_nil_of_le (by omega)
        rw [ihexDataFrom, if_neg hoffset, hnil]
        simp [dataLines]

theorem ihexData_eq (addr : Nat) (data : List Byte) :
    ihexData addr data = dataLines (pieces addr data) := by
  simpa [ihexData] using ihexDataFrom_pieces addr data 0

/-! ### Reading a line -/

/-- The bytes of a record, with its checksum. -/
def rawRecord (rtype : Byte) (addr : Nat) (data : List Byte) : List Byte :=
  let record := [BitVec.ofNat 8 data.length, BitVec.ofNat 8 (addr / 256),
    BitVec.ofNat 8 (addr % 256), rtype] ++ data
  record ++ [BitVec.ofNat 8 (checksum (record.map BitVec.toNat))]

theorem checksum_lt (record : List Nat) : checksum record < 256 := by
  unfold checksum
  omega

theorem ihexRecord_eq (rtype : Byte) {record : DataRecord} (hfit : Fits record) :
    ihexRecord rtype.toNat record.1 record.2 =
      ':' :: hexText (rawRecord rtype record.1 record.2) := by
  obtain ⟨haddr, hlen⟩ := hfit
  have h₁ : record.2.length % 256 = record.2.length := Nat.mod_eq_of_lt hlen
  have h₂ : record.1 / 256 % 256 = record.1 / 256 := Nat.mod_eq_of_lt (by omega)
  simp only [ihexRecord, rawRecord, hexText_eq, and_low, shift_high, h₂]
  simp only [List.map_append, List.map_cons, List.map_nil, BitVec.toNat_ofNat, Nat.reducePow, h₁,
    h₂, Nat.mod_mod, List.flatMap_append, Nat.mod_eq_of_lt (checksum_lt _)]
  simp

theorem isWhiteSpace_of_range {c : Char} (hc : 48 ≤ c.toNat ∧ c.toNat ≤ 70) :
    isWhiteSpace c = false := by
  simp only [isWhiteSpace, List.mem_cons, List.not_mem_nil, or_false, decide_eq_false_iff_not]
  omega

theorem isBoundary_of_range {c : Char} (hc : 48 ≤ c.toNat ∧ c.toNat ≤ 70) :
    isBoundary c = false := by
  simp only [isBoundary, List.mem_cons, List.not_mem_nil, or_false, decide_eq_false_iff_not]
  omega

theorem line_range {raw : List Byte} {c : Char} (hc : c ∈ ':' :: hexText raw) :
    48 ≤ c.toNat ∧ c.toNat ≤ 70 := by
  rcases List.mem_cons.mp hc with rfl | hc
  · decide
  · exact hexText_range hc

theorem unbroken_line (raw : List Byte) : Unbroken (':' :: hexText raw) :=
  fun _ hc => isBoundary_of_range (line_range hc)

theorem stripLine_line (raw : List Byte) : stripLine (':' :: hexText raw) = ':' :: hexText raw := by
  unfold stripLine
  rw [List.dropWhile_cons_of_neg (by decide), List.rdropWhile_eq_self_iff]
  intro hne
  rw [isWhiteSpace_of_range (line_range (List.getLast_mem hne))]
  decide

/-- A line of bytes, as the reader takes it apart. -/
theorem parseLines_line (lineno : Nat) (raw : List Byte) (rest : List (List Char)) :
    parseLines lineno ((':' :: hexText raw) :: rest) =
      if raw.length < 5 then .error (.tooShort lineno)
      else if (raw.getLastD 0#8).toNat ≠ checksum (raw.dropLast.map BitVec.toNat) then
        .error (.checksum lineno (raw.getLastD 0#8).toNat
          (checksum (raw.dropLast.map BitVec.toNat)))
      else if (raw.getD 3 0#8).toNat = 0x00 then
        (parseLines (lineno + 1) rest).map
          (((raw.getD 1 0#8).toNat <<< 8 ||| (raw.getD 2 0#8).toNat,
            (raw.drop 4).take (raw.getD 0 0#8).toNat) :: ·)
      else if (raw.getD 3 0#8).toNat = 0x01 then .ok []
      else parseLines (lineno + 1) rest := by
  rw [parseLines, stripLine_line]
  simp [fromHex_hexText]

theorem shift_or (n : Nat) : (n / 256) <<< 8 ||| n % 256 = n := by
  have hlow : n % 256 < 256 := Nat.mod_lt n (by decide)
  rw [shift_or_low (n / 256) hlow, Nat.div_add_mod]

/-- A data record is read back. -/
theorem parseLines_dataRecord (lineno : Nat) {record : DataRecord} (hfit : Fits record)
    (rest : List (List Char)) :
    parseLines lineno (ihexRecord 0x00 record.1 record.2 :: rest) =
      (parseLines (lineno + 1) rest).map (record :: ·) := by
  obtain ⟨haddr, hlen⟩ := hfit
  have h₁ : record.2.length % 256 = record.2.length := Nat.mod_eq_of_lt hlen
  have h₂ : record.1 / 256 % 256 = record.1 / 256 := Nat.mod_eq_of_lt (by omega)
  have h₃ := Nat.mod_eq_of_lt (checksum_lt
    ([record.2.length, record.1 / 256, record.1 % 256, 0] ++ record.2.map BitVec.toNat))
  have hlast : ∀ (xs : List Byte) (b : Byte), (xs ++ [b]).getLastD 0#8 = b := by simp
  rw [show (0x00 : Nat) = (0x00#8).toNat from rfl, ihexRecord_eq 0x00#8 ⟨haddr, hlen⟩,
    parseLines_line]
  unfold rawRecord
  simp only [hlast, List.dropLast_concat, List.map_append, List.map_cons, List.map_nil,
    BitVec.toNat_ofNat, Nat.reducePow, h₁, h₂, Nat.mod_mod, Nat.zero_mod]
  rw [h₃, if_neg (by simp), if_neg (by simp)]
  simp [h₁, h₂, shift_or]

theorem parseLines_dataRecords (lineno : Nat) {records : List DataRecord}
    (hfit : ∀ record ∈ records, Fits record) (rest : List (List Char)) :
    parseLines lineno (dataLines records ++ rest) =
      (parseLines (lineno + records.length) rest).map (records ++ ·) := by
  induction records generalizing lineno with
  | nil => cases h : parseLines lineno rest <;> simp [dataLines, h, Except.map]
  | cons record records ih =>
      show parseLines lineno (ihexRecord 0x00 record.1 record.2 :: (dataLines records ++ rest)) = _
      rw [parseLines_dataRecord lineno (hfit record (by simp)),
        ih (lineno + 1) fun next hnext => hfit next (List.mem_cons_of_mem record hnext),
        List.length_cons, Nat.add_right_comm, Nat.add_assoc]
      cases parseLines (lineno + (records.length + 1)) rest <;> rfl

theorem eofLine_eq : eofLine = ':' :: hexText (rawRecord 0x01#8 0 []) := by decide

theorem parseLines_eof (lineno : Nat) : parseLines lineno [eofLine] = .ok [] := by
  rw [eofLine_eq, parseLines_line]
  rfl

/-- The files of all the writers: lines of records, and one line more that ends them. -/
theorem parseHex_records {sep : List Char} (hsep : EndsLine sep) {records : List DataRecord}
    (hfit : ∀ record ∈ records, Fits record) {last : List Char} (hlast : Unbroken last) :
    parseHex (joinLines sep (dataLines records ++ [last])) =
      (parseLines (1 + records.length) [last]).map (records ++ ·) := by
  have hunbroken : ∀ line ∈ dataLines records ++ [last], Unbroken line := by
    intro line hline
    rcases List.mem_append.mp hline with hline | hline
    · obtain ⟨record, hrecord, rfl⟩ := List.mem_map.mp hline
      have := ihexRecord_eq 0x00#8 (hfit record hrecord)
      rw [show (0x00#8).toNat = 0x00 from rfl] at this
      rw [this]
      exact unbroken_line _
    · rw [List.mem_singleton.mp hline]
      exact hlast
  rw [parseHex, splitLines_joinLines hsep (by simp) hunbroken, parseLines_dataRecords 1 hfit]

/-- A file that a record of type 01 ends. -/
theorem parseHex_eof {sep : List Char} (hsep : EndsLine sep) {records : List DataRecord}
    (hfit : ∀ record ∈ records, Fits record) :
    parseHex (joinLines sep (dataLines records ++ [eofLine])) = .ok records := by
  rw [parseHex_records hsep hfit (by rw [eofLine_eq]; exact unbroken_line _), parseLines_eof]
  simp [Except.map]

/-- A file that a record of no bytes ends: the reader keeps the record. -/
theorem parseHex_sysgenText {sep : List Char} (hsep : EndsLine sep) {records : List DataRecord}
    (hfit : ∀ record ∈ records, Fits record) :
    parseHex (sysgenText sep (dataLines records)) = .ok (records ++ [(0x0000, [])]) := by
  have hend : Fits (0x0000, []) := ⟨by decide, by decide⟩
  have hline := ihexRecord_eq 0x00#8 hend
  rw [show (0x00#8).toNat = 0x00 from rfl] at hline
  rw [sysgenText, parseHex_records hsep hfit (by rw [hline]; exact unbroken_line _),
    parseLines_dataRecord _ hend]
  rfl

/-! ### The overlay -/

/-- The pieces of some data put it in its place. -/
theorem applyRecords_piecesOf {len : Nat} (hlen : 0 < len) {baseAddr : Int}
    {before under after data : List Byte} {base : Nat}
    (hbase : (base : Int) = baseAddr + before.length) (hunder : under.length = data.length)
    (records : List DataRecord) :
    applyRecords baseAddr (before ++ under ++ after) (piecesOf len base data ++ records) =
      applyRecords baseAddr (before ++ data ++ after) records := by
  induction base, data using piecesOf.induct len generalizing before under with
  | case1 base data hnone =>
      have hnil : data = [] := hnone.resolve_right (by omega)
      rw [hnil] at hunder ⊢
      simp [List.length_eq_zero_iff.mp hunder]
  | case2 base data hsome ih =>
      have hne := (not_or.mp hsome).1
      have hoff : (base : Int) - baseAddr = before.length := by omega
      have htake : (data.take len).length = (under.take len).length := by simp [hunder]
      have hdrop : (under.drop len).length = (data.drop len).length := by simp [hunder]
      have himage : before ++ under ++ after =
          before ++ (under.take len ++ (under.drop len ++ after)) := by
        rw [← List.append_assoc (under.take len), List.take_append_drop, List.append_assoc]
      have hplaced :
          (before ++ under ++ after).take before.length ++ data.take len ++
            (before ++ under ++ after).drop (before.length + (data.take len).length) =
          before ++ data.take len ++ under.drop len ++ after := by
        rw [himage, htake, List.take_left, ← List.drop_drop, List.drop_left, List.drop_left,
          ← List.append_assoc]
      have hnext : ((base + len : Nat) : Int) = baseAddr + (before ++ data.take len).length ∨
          data.drop len = [] := by
        by_cases hmore : len ≤ data.length
        · left
          rw [List.length_append, List.length_take, Nat.min_eq_left hmore]
          omega
        · right
          exact List.drop_eq_nil_of_le (by omega)
      rw [piecesOf_of_ne hlen hne, List.cons_append, applyRecords, hoff, if_neg, Int.toNat_natCast,
        hplaced]
      · rcases hnext with hnext | hnil
        · rw [ih hnext hdrop, List.append_assoc before, List.take_append_drop]
        · rw [hnil] at hdrop ⊢
          rw [List.length_eq_zero_iff.mp hdrop, piecesOf_nil, List.append_nil, List.nil_append,
            ← List.take_append_drop len data, hnil, List.append_nil, List.take_take, Nat.min_self]
      · simp only [List.length_append, List.length_take]
        omega

/-- A record of no bytes changes nothing, wherever it is. -/
theorem applyRecords_empty (baseAddr : Int) (image : List Byte) (addr : Nat) :
    applyRecords baseAddr image [(addr, [])] = .ok image := by
  simp [applyRecords]

/-- Where an address lies in an image. -/
theorem applyRecords_imageOf {len : Nat} (hpos : 0 < len) {baseAddr : Int}
    {image data : List Byte} {base : Nat}
    (hcover : ∀ i < data.length, baseAddr ≤ base + i ∧ base + i < baseAddr + image.length) :
    ∃ placed : List Byte, placed.length = image.length ∧
      (∀ j : Nat, placed[j]? =
        if base ≤ baseAddr + j ∧ baseAddr + j < base + data.length then
          data[(baseAddr + j - base).toNat]?
        else image[j]?) ∧
      ∀ records, applyRecords baseAddr image (piecesOf len base data ++ records) =
          applyRecords baseAddr placed records ∧
        applyRecords baseAddr placed (piecesOf len base data ++ records) =
          applyRecords baseAddr placed records := by
  rcases Nat.eq_zero_or_pos data.length with hnone | hlen
  · rw [List.length_eq_zero_iff.mp hnone]
    refine ⟨image, rfl, fun j => ?_, fun records => by simp⟩
    rw [if_neg (by simp only [List.length_nil]; omega)]
  -- the image is split at both ends of the data
  · obtain ⟨hstart, -⟩ := hcover 0 hlen
    obtain ⟨-, hend⟩ := hcover (data.length - 1) (by omega)
    obtain ⟨off, hoff⟩ : ∃ off : Nat, (base : Int) = baseAddr + off :=
      ⟨(base - baseAddr).toNat, by omega⟩
    have hbefore : (image.take off).length = off := by
      rw [List.length_take, Nat.min_eq_left (by omega)]
    have hunder : ((image.drop off).take data.length).length = data.length := by
      rw [List.length_take, List.length_drop, Nat.min_eq_left (by omega)]
    have himage : image =
        image.take off ++ (image.drop off).take data.length ++
          (image.drop off).drop data.length := by
      rw [List.append_assoc, List.take_append_drop, List.take_append_drop]
    have hbase : (base : Int) = baseAddr + (image.take off).length := by rw [hbefore, hoff]
    refine ⟨image.take off ++ data ++ (image.drop off).drop data.length, ?_, fun j => ?_,
      fun records => ⟨?_, applyRecords_piecesOf hpos hbase rfl records⟩⟩
    · simp only [List.length_append, hbefore, List.length_drop]
      omega
    · by_cases hlow : j < off
      · rw [if_neg (by omega), List.append_assoc, List.getElem?_append_left (by omega),
          List.getElem?_take_of_lt hlow]
      · by_cases hhigh : j < off + data.length
        · have hindex : (baseAddr + j - base).toNat = j - off := by omega
          rw [if_pos (by omega), List.getElem?_append_left (by simp; omega),
            List.getElem?_append_right (by omega), hbefore, hindex]
        · rw [if_neg (by omega), List.getElem?_append_right (by simp; omega),
            List.drop_drop, List.getElem?_drop, List.length_append, hbefore]
          congr 1
          omega
    · have happlied := @applyRecords_piecesOf len hpos _ _ _ ((image.drop off).drop data.length)
        _ _ hbase hunder records
      rw [← himage] at happlied
      exact happlied

theorem applyRecords_image {baseAddr : Int} {image data : List Byte} {base : Nat}
    (hcover : ∀ i < data.length, baseAddr ≤ base + i ∧ base + i < baseAddr + image.length) :
    ∃ placed : List Byte, placed.length = image.length ∧
      (∀ j : Nat, placed[j]? =
        if base ≤ baseAddr + j ∧ baseAddr + j < base + data.length then
          data[(baseAddr + j - base).toNat]?
        else image[j]?) ∧
      ∀ records, applyRecords baseAddr image (pieces base data ++ records) =
          applyRecords baseAddr placed records ∧
        applyRecords baseAddr placed (pieces base data ++ records) =
          applyRecords baseAddr placed records := by
  simp only [pieces_eq]
  exact applyRecords_imageOf (by omega) hcover

/-! ### The round trip -/

/-- The files of the three writers for some data. -/
def HexFile (data : List Byte) (base : Nat) (text : List Char) : Prop :=
  text = toIhex data base ∨ text = toHex data base ∨
    text = sysgenText ['\r', '\n'] (ihexData base data) ∨
    text = sysgenText ['\r'] (ihexData base data)

/-- A file holds the pieces of the data, and perhaps a record of no bytes. -/
theorem HexFile.records {data : List Byte} {base : Nat} {text : List Char}
    (hfile : HexFile data base text) (hbase : base + data.length ≤ 65536) :
    parseHex text = .ok (pieces base data) ∨
      parseHex text = .ok (pieces base data ++ [(0x0000, [])]) := by
  have hfit : ∀ record ∈ pieces base data, Fits record := fun _ => pieces_fit hbase
  rcases hfile with rfl | rfl | rfl | rfl
  · left
    have hlines := toIhex_pieces data base 0
    rw [Nat.sub_zero, Nat.add_zero, List.drop_zero] at hlines
    simp only [toIhex, recordLen]
    rw [hlines]
    exact parseHex_eof (.inl rfl) hfit
  · left
    rw [toHex, toHexLines_pieces hbase 0, Nat.add_zero, List.drop_zero]
    exact parseHex_eof (.inr rfl) hfit
  · right
    rw [ihexData_eq]
    exact parseHex_sysgenText (.inr rfl) hfit
  · right
    rw [ihexData_eq]
    exact parseHex_sysgenText (.inl rfl) hfit

/-- What any of the writers writes, the reader accepts; the overlay puts exactly the data in its
place in an image that covers it; and the second time it changes nothing. -/
theorem hex_round_trip {data : List Byte} {base : Nat} (hbase : base + data.length ≤ 65536)
    {text : List Char} (hfile : HexFile data base text) :
    ∃ records, parseHex text = .ok records ∧
      ∀ (baseAddr : Int) (image : List Byte),
        (∀ i < data.length, baseAddr ≤ base + i ∧ base + i < baseAddr + image.length) →
        ∃ placed, applyRecords baseAddr image records = .ok placed ∧
          placed.length = image.length ∧
          (∀ j : Nat, placed[j]? =
            if base ≤ baseAddr + j ∧ baseAddr + j < base + data.length then
              data[(baseAddr + j - base).toNat]?
            else image[j]?) ∧
          applyRecords baseAddr placed records = .ok placed := by
  rcases hfile.records hbase with hrecords | hrecords
  · refine ⟨_, hrecords, fun baseAddr image hcover => ?_⟩
    obtain ⟨placed, hlen, hcells, happly⟩ := applyRecords_image hcover
    have hdone := happly []
    rw [List.append_nil] at hdone
    exact ⟨placed, hdone.1, hlen, hcells, hdone.2⟩
  · refine ⟨_, hrecords, fun baseAddr image hcover => ?_⟩
    obtain ⟨placed, hlen, hcells, happly⟩ := applyRecords_image hcover
    have hdone := happly [(0x0000, [])]
    rw [applyRecords_empty] at hdone
    exact ⟨placed, hdone.1, hlen, hcells, hdone.2⟩

/-- Three bytes at the end of the address space, in the file of `cim_to_hex.py`. -/
theorem hex_round_trip_top :
    ∃ records, parseHex (toHex [1#8, 2#8, 3#8] 0xFFFD) = .ok records ∧
      ∃ placed, applyRecords 0xFFF0 (List.replicate 16 0#8) records = .ok placed ∧
        placed[0x0E]? = some 2#8 := by
  obtain ⟨records, hparse, hoverlay⟩ :=
    @hex_round_trip [1#8, 2#8, 3#8] 0xFFFD (by decide) _ (.inr (.inl rfl))
  obtain ⟨placed, happlied, -, hcells, -⟩ :=
    hoverlay 0xFFF0 (List.replicate 16 0#8) (by simp; omega)
  exact ⟨records, hparse, placed, happlied, by rw [hcells]; decide⟩

end Formats
end Rc700
