import Mathlib.Data.List.GetD
import Mathlib.Order.Lattice
import Mathlib.Tactic.Common

/-!
# Files of records

A file is a sequence of elements that can be read and written at any offset; a write
beyond the end fills the gap.  Written only in whole records of one size, a file is a
sparse array of records: a record that was written holds what was written last, a
record below the highest written one holds filling, and the rest is beyond the end.

A file is compared with the history of its writes through its elements: beyond the end
it is read as filling, so that a write changes nothing but the elements it covers
(`getD_pwrite`), gap or no gap.
-/

namespace Rc700
namespace Library

variable {α : Type*}

/-- Read up to `n` elements. -/
def pread (file : List α) (offset n : Nat) : List α := (file.drop offset).take n

/-- Write at an offset, and fill a gap before it.  Writing nothing changes nothing. -/
def pwrite (fill : α) (file : List α) (offset : Nat) (data : List α) : List α :=
  if data = [] then file
  else
    file.take offset ++ List.replicate (offset - file.length) fill ++ data ++
      file.drop (offset + data.length)

theorem length_pwrite (fill : α) (file : List α) (offset : Nat) {data : List α}
    (hdata : data ≠ []) :
    (pwrite fill file offset data).length = max file.length (offset + data.length) := by
  rw [pwrite, if_neg hdata]
  simp only [List.length_append, List.length_take, List.length_replicate, List.length_drop]
  omega

/-- A write changes the elements it covers. -/
theorem getD_pwrite (fill : α) (file : List α) (offset : Nat) (data : List α) (i : Nat) :
    (pwrite fill file offset data).getD i fill =
      if offset ≤ i ∧ i < offset + data.length then data.getD (i - offset) fill
      else file.getD i fill := by
  unfold pwrite
  by_cases hdata : data = []
  · subst hdata
    rw [if_pos rfl, if_neg (by simp)]
  rw [if_neg hdata]
  simp only [List.getD_eq_getElem?_getD]
  -- in front of the data the file is filled up to the offset
  by_cases hbefore : i < offset
  · rw [if_neg (by omega)]
    have hlen : i < (file.take offset ++ List.replicate (offset - file.length) fill).length := by
      simp only [List.length_append, List.length_take, List.length_replicate]
      omega
    rw [List.append_assoc _ data, List.getElem?_append_left hlen]
    by_cases hin : i < file.length
    · rw [List.getElem?_append_left (by simp; omega), List.getElem?_take_of_lt hbefore]
    · rw [List.getElem?_append_right (by simp; omega), List.getElem?_replicate,
        List.getElem?_eq_none (by omega)]
      split <;> rfl
  · have hfront : (file.take offset ++ List.replicate (offset - file.length) fill).length =
        offset := by
      simp only [List.length_append, List.length_take, List.length_replicate]
      omega
    rw [List.append_assoc _ data, List.getElem?_append_right (by omega), hfront]
    by_cases hcovered : i < offset + data.length
    · rw [if_pos ⟨by omega, hcovered⟩, List.getElem?_append_left (by omega)]
    · rw [if_neg (by omega), List.getElem?_append_right (by omega), List.getElem?_drop]
      congr 2
      omega

/-- Within the file the elements that are read are those at the offset. -/
theorem pread_eq_map (fill : α) (file : List α) {offset n : Nat}
    (hin : offset + n ≤ file.length) :
    pread file offset n = (List.range n).map (fun j => file.getD (offset + j) fill) := by
  apply List.ext_getElem
  · simp only [pread, List.length_take, List.length_drop, List.length_map, List.length_range]
    omega
  · intro j hj hj'
    simp only [List.length_map, List.length_range] at hj'
    simp only [pread, List.getElem_take, List.getElem_drop, List.getElem_map, List.getElem_range]
    rw [List.getD_eq_getElem _ _ (by omega)]

theorem pread_eq_nil {file : List α} {offset n : Nat} (hn : n ≠ 0) :
    pread file offset n = [] ↔ file.length ≤ offset := by
  rw [pread, List.take_eq_nil_iff, List.drop_eq_nil_iff]
  simp only [hn, false_or]

/-- A write behind a front. -/
theorem pwrite_append (fill : α) (front rest data : List α) :
    pwrite fill (front ++ rest) front.length data = front ++ data ++ rest.drop data.length := by
  unfold pwrite
  by_cases hdata : data = []
  · subst hdata
    rw [if_pos rfl, List.append_nil]
    rfl
  · have hgap : front.length - (front ++ rest).length = 0 := by
      rw [List.length_append]
      omega
    rw [if_neg hdata, hgap, List.replicate_zero, List.append_nil, List.take_left,
      List.drop_length_add_append]

/-- A read behind a front. -/
theorem pread_append (front data rest : List α) :
    pread (front ++ (data ++ rest)) front.length data.length = data := by
  rw [pread, List.drop_left, List.take_left]

/-! ### Sparse arrays of records -/

/-- A write of a record: its number and what it holds. -/
abbrev RecordWrite (α : Type*) := Nat × List α

/-- What was last written to a record; the history has the newest write first. -/
def lastWritten (history : List (RecordWrite α)) (n : Nat) : Option (List α) :=
  (history.find? (fun w => w.1 = n)).map Prod.snd

/-- One more than the highest record that was written. -/
def recordCount : List (RecordWrite α) → Nat
  | [] => 0
  | w :: history => max (recordCount history) (w.1 + 1)

/-- The sparse array that a history of writes leaves: a record that was written, filling
below the highest record, nothing beyond. -/
def recordAt (size : Nat) (fill : α) (history : List (RecordWrite α)) (n : Nat) :
    Option (List α) :=
  match lastWritten history n with
  | some data => some data
  | none => if n < recordCount history then some (List.replicate size fill) else none

/-- The file holds what the history wrote. -/
structure HoldsRecords (size : Nat) (fill : α) (file : List α)
    (history : List (RecordWrite α)) : Prop where
  length : file.length = size * recordCount history
  element : ∀ n j, j < size →
    file.getD (size * n + j) fill =
      ((lastWritten history n).getD (List.replicate size fill)).getD j fill

theorem lastWritten_cons (w : RecordWrite α) (history : List (RecordWrite α)) (n : Nat) :
    lastWritten (w :: history) n = if w.1 = n then some w.2 else lastWritten history n := by
  unfold lastWritten
  rw [List.find?_cons]
  by_cases hn : w.1 = n
  · simp [hn]
  · simp [hn]

theorem lastWritten_lt {history : List (RecordWrite α)} {n : Nat} {data : List α}
    (hwritten : lastWritten history n = some data) : n < recordCount history := by
  induction history with
  | nil => exact absurd hwritten (by simp [lastWritten])
  | cons w history ih =>
      rw [lastWritten_cons] at hwritten
      rw [recordCount]
      by_cases hn : w.1 = n
      · omega
      · rw [if_neg hn] at hwritten
        have := ih hwritten
        omega

theorem lastWritten_mem {history : List (RecordWrite α)} {n : Nat} {data : List α}
    (hwritten : lastWritten history n = some data) : (n, data) ∈ history := by
  unfold lastWritten at hwritten
  obtain ⟨w, hfind, hdata⟩ := Option.map_eq_some_iff.mp hwritten
  have hnumber : w.1 = n := by simpa using List.find?_some hfind
  rw [← hnumber, ← hdata]
  exact List.mem_of_find?_eq_some hfind

/-- An empty file holds what no writes left. -/
theorem HoldsRecords.nil (size : Nat) (fill : α) : HoldsRecords size fill [] [] where
  length := rfl
  element := by
    intro n j hj
    simp [lastWritten, hj]

/-- The file holds what the history wrote, and elsewhere what it held before. -/
structure HoldsOver (size : Nat) (fill : α) (original file : List α)
    (history : List (RecordWrite α)) : Prop where
  length : file.length = max original.length (size * recordCount history)
  element : ∀ n j, j < size →
    file.getD (size * n + j) fill =
      match lastWritten history n with
      | some data => data.getD j fill
      | none => original.getD (size * n + j) fill

theorem HoldsOver.nil (size : Nat) (fill : α) (original : List α) :
    HoldsOver size fill original original [] where
  length := (Nat.max_eq_left (Nat.zero_le _)).symm
  element := fun _ _ _ => rfl

/-- Writing a record. -/
theorem HoldsOver.write {size : Nat} {fill : α} {original file : List α}
    {history : List (RecordWrite α)} (hfile : HoldsOver size fill original file history)
    (hsize : 0 < size) (n : Nat) {data : List α} (hdata : data.length = size) :
    HoldsOver size fill original (pwrite fill file (size * n) data) ((n, data) :: history) where
  length := by
    have hne : data ≠ [] := by
      rintro rfl
      exact absurd hdata (by simp; omega)
    rw [length_pwrite _ _ _ hne, hfile.length, hdata, recordCount, ← Nat.mul_max_mul_left,
      Nat.max_assoc]
    rfl
  element := by
    intro m j hj
    rw [getD_pwrite, lastWritten_cons, hdata]
    by_cases hsame : n = m
    · subst hsame
      rw [if_pos (by omega), if_pos rfl]
      show data.getD _ fill = data.getD j fill
      congr 1
      omega
    · rw [if_neg, if_neg hsame, hfile.element m j hj]
      -- records do not overlap
      rintro ⟨hle, hlt⟩
      rcases Nat.lt_or_gt_of_ne hsame with hlow | hhigh
      · have := Nat.mul_le_mul_left size (Nat.succ_le_of_lt hlow)
        rw [Nat.mul_succ] at this
        omega
      · have := Nat.mul_le_mul_left size (Nat.succ_le_of_lt hhigh)
        rw [Nat.mul_succ] at this
        omega

/-- A record that was written is read as it was written. -/
theorem HoldsOver.read_written {size : Nat} {fill : α} {original file : List α}
    {history : List (RecordWrite α)} (hfile : HoldsOver size fill original file history)
    {n : Nat} {data : List α} (hwritten : lastWritten history n = some data)
    (hdata : data.length = size) : pread file (size * n) size = data := by
  have hmul := Nat.mul_le_mul_left size (Nat.succ_le_of_lt (lastWritten_lt hwritten))
  rw [Nat.mul_succ] at hmul
  have hlen := hfile.length
  rw [pread_eq_map fill file (by omega)]
  apply List.ext_getElem
  · rw [List.length_map, List.length_range, hdata]
  · intro j hj hj'
    rw [List.length_map, List.length_range] at hj
    have helement := hfile.element n j hj
    rw [hwritten] at helement
    rw [List.getElem_map, List.getElem_range, helement]
    exact List.getD_eq_getElem _ _ hj'

/-- A record that was not written still begins with what it held. -/
theorem HoldsOver.read_original {size : Nat} {fill : α} {original file : List α}
    {history : List (RecordWrite α)} (hfile : HoldsOver size fill original file history)
    {n : Nat} (hwritten : lastWritten history n = none) :
    pread original (size * n) size <+: pread file (size * n) size := by
  have hlen := hfile.length
  refine List.prefix_iff_getElem.mpr ⟨?_, fun j hj => ?_⟩
  · simp only [pread, List.length_take, List.length_drop]
    omega
  · simp only [pread, List.length_take, List.length_drop] at hj
    have helement := hfile.element n j (by omega)
    rw [hwritten] at helement
    simp only [pread, List.getElem_take, List.getElem_drop]
    rw [← List.getD_eq_getElem _ fill, ← List.getD_eq_getElem _ fill]
    exact helement.symm

/-- A record beyond the end was not written, and there was none. -/
theorem HoldsOver.beyond {size : Nat} {fill : α} {original file : List α}
    {history : List (RecordWrite α)} (hfile : HoldsOver size fill original file history)
    (hsize : 0 < size) {n : Nat} (hend : file.length ≤ size * n) :
    lastWritten history n = none ∧ original.length ≤ size * n := by
  have hlen := hfile.length
  refine ⟨?_, by omega⟩
  cases hwritten : lastWritten history n with
  | none => rfl
  | some data =>
      have hmul := Nat.mul_le_mul_left size (Nat.succ_le_of_lt (lastWritten_lt hwritten))
      rw [Nat.mul_succ] at hmul
      omega

/-- A sparse array is a file that was empty before. -/
theorem holdsRecords_iff {size : Nat} {fill : α} {file : List α}
    {history : List (RecordWrite α)} :
    HoldsRecords size fill file history ↔ HoldsOver size fill [] file history := by
  have hlength : max ([] : List α).length (size * recordCount history) =
      size * recordCount history := Nat.max_eq_right (Nat.zero_le _)
  have helement : ∀ n j, j < size →
      ((lastWritten history n).getD (List.replicate size fill)).getD j fill =
        match lastWritten history n with
        | some data => data.getD j fill
        | none => ([] : List α).getD (size * n + j) fill := by
    intro n j hj
    cases lastWritten history n with
    | none => simp [hj]
    | some data => rfl
  constructor
  · intro hfile
    exact ⟨hfile.length.trans hlength.symm, fun n j hj =>
      (hfile.element n j hj).trans (helement n j hj)⟩
  · intro hfile
    exact ⟨hfile.length.trans hlength, fun n j hj =>
      (hfile.element n j hj).trans (helement n j hj).symm⟩

theorem HoldsRecords.write {size : Nat} {fill : α} {file : List α}
    {history : List (RecordWrite α)} (hfile : HoldsRecords size fill file history)
    (hsize : 0 < size) (n : Nat) {data : List α} (hdata : data.length = size) :
    HoldsRecords size fill (pwrite fill file (size * n) data) ((n, data) :: history) :=
  holdsRecords_iff.mpr ((holdsRecords_iff.mp hfile).write hsize n hdata)

/-- **Reading a record** returns what the array has there, and nothing beyond. -/
theorem HoldsRecords.read {size : Nat} {fill : α} {file : List α}
    {history : List (RecordWrite α)} (hfile : HoldsRecords size fill file history)
    (hsize : 0 < size) (hdata : ∀ w ∈ history, w.2.length = size) (n : Nat) :
    pread file (size * n) size = (recordAt size fill history n).getD [] := by
  unfold recordAt
  have hwithin : n < recordCount history → pread file (size * n) size =
      (lastWritten history n).getD (List.replicate size fill) := by
    intro hlt
    have hmul := Nat.mul_le_mul_left size (Nat.succ_le_of_lt hlt)
    rw [Nat.mul_succ, ← hfile.length] at hmul
    have hlen : ((lastWritten history n).getD (List.replicate size fill)).length = size := by
      cases hlast : lastWritten history n with
      | none => exact List.length_replicate
      | some data => exact hdata _ (lastWritten_mem hlast)
    rw [pread_eq_map fill file hmul]
    apply List.ext_getElem
    · rw [List.length_map, List.length_range, hlen]
    · intro j hj hj'
      rw [List.length_map, List.length_range] at hj
      rw [List.getElem_map, List.getElem_range, hfile.element n j hj,
        List.getD_eq_getElem _ _ hj']
  cases hlast : lastWritten history n with
  | some data =>
      rw [hwithin (lastWritten_lt hlast), hlast]
      rfl
  | none =>
      by_cases hlt : n < recordCount history
      · rw [hwithin hlt, hlast, if_pos hlt]
        rfl
      · rw [if_neg hlt]
        refine (pread_eq_nil (by omega)).mpr ?_
        rw [hfile.length]
        exact Nat.mul_le_mul_left size (Nat.le_of_not_lt hlt)

end Library
end Rc700
