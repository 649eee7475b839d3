import Rc700.CpNet.Handlers

/-!
# Files as arrays of records

A file of the server that is written in whole records is a sparse array of records
(`HoldsRecords`): whichever of the three functions wrote a record, and in whichever
order, a read returns what was written last, zeros in a gap, and the end of the file
beyond the highest record.

The step lemma says what a write request does to the host: the record is written into
the file it names, and no other file changes (`write_own`, `write_other`).
-/

namespace Rc700
namespace CpNet

open Library PathText CpNet.Action

variable {upper : Nat → Text} {payload : List Byte} {s : Server} {p : Text}

/-! ### Write requests -/

/-- A request that writes a full record: at a position whose successor is still one
byte, or at a record number of 16 bits. -/
structure WriteRequest where
  f : Function
  payload : List Byte
  writes : f = .writeSeq ∨ f = .writeRand ∨ f = .writeRandZf
  full : 165 ≤ payload.length
  position : f = .writeSeq → AdvanceFits payload
  random : f ≠ .writeSeq → randomRecord payload < 65536

namespace WriteRequest

/-- The number of the record. -/
def record (r : WriteRequest) : Nat :=
  if r.f = .writeSeq then field r.payload 13 * 128 + field r.payload 33
  else randomRecord r.payload

/-- What is written. -/
def data (r : WriteRequest) : List Byte := slice r.payload 37 165

/-- The server after the request. -/
def apply (upper : Nat → Text) (s : Server) (r : WriteRequest) : Server :=
  after (r.f.handle upper r.payload s)

theorem length_data (r : WriteRequest) : r.data.length = 128 := by
  have hfull := r.full
  rw [data, length_slice]
  omega

theorem field_lt (payload : List Byte) (i : Nat) : field payload i < 256 :=
  (payload.getD i 0#8).isLt

theorem record_lt (r : WriteRequest) : r.record < 65536 := by
  unfold record
  by_cases hseq : r.f = .writeSeq
  · rw [if_pos hseq]
    have hex := field_lt r.payload 13
    have hcr := field_lt r.payload 33
    omega
  · rw [if_neg hseq]
    exact r.random hseq

end WriteRequest

/-- A sequence of write requests. -/
def serve (upper : Nat → Text) (s : Server) (rs : List WriteRequest) : Server :=
  rs.foldl (WriteRequest.apply upper) s

/-- One more request, of which the newest write is at the front. -/
def written (s : Server) (path : Text) (history : List (RecordWrite Byte)) (r : WriteRequest) :
    List (RecordWrite Byte) :=
  if filePath s r.payload = some path then (r.record, r.data) :: history else history

/-- The node of an open file. -/
def Node.open (bytes : List Byte) : Node := .file ⟨bytes, true, true⟩

/-- Opening a file changes no other. -/
theorem openFile_other {h h' : Host} {mode : Mode} {q : Text} {bytes : List Byte}
    (hopen : h.openFile mode q = .ok (bytes, h')) (hne : p ≠ q) : h'.node p = h.node p := by
  have hcreate : (h.create q).node p = h.node p := Function.update_of_ne hne _ _
  have hfill : (h.fill q []).node p = h.node p := by
    unfold Host.fill
    split
    · exact Function.update_of_ne hne _ _
    · rfl
  -- by the node under the path and the mode; what is stored is stored at this path
  unfold Host.openFile at hopen
  split at hopen
  · exact nomatch hopen
  · split at hopen
    · split at hopen
      · rw [← (Prod.mk.inj (Except.ok.inj hopen)).2]
      · exact nomatch hopen
    · split at hopen
      · rw [← (Prod.mk.inj (Except.ok.inj hopen)).2]
      · exact nomatch hopen
    · split at hopen
      · rw [← (Prod.mk.inj (Except.ok.inj hopen)).2]
      · exact nomatch hopen
    · split at hopen
      · rw [← (Prod.mk.inj (Except.ok.inj hopen)).2]
        exact hfill
      · exact nomatch hopen
  · split at hopen
    · exact nomatch hopen
    · exact nomatch hopen
    · split at hopen
      · rw [← (Prod.mk.inj (Except.ok.inj hopen)).2]
        exact hcreate
      · exact nomatch hopen
    · split at hopen
      · rw [← (Prod.mk.inj (Except.ok.inj hopen)).2]
        exact hcreate
      · exact nomatch hopen

theorem create_own {h : Host} : (h.create p).node p = .open [] := Function.update_self _ _ _

theorem fill_other {h : Host} {q : Text} {bytes : List Byte} (hne : p ≠ q) :
    (h.fill q bytes).node p = h.node p := by
  unfold Host.fill
  split
  · exact Function.update_of_ne hne _ _
  · rfl

theorem fill_own {h : Host} {bytes bytes' : List Byte} (hnode : h.node p = .open bytes) :
    (h.fill p bytes').node p = .open bytes' := by
  rw [Host.fill, hnode]
  exact Function.update_self _ _ _

/-- Opening an open file for writing. -/
theorem openForWrite_own {bytes : List Byte} (hnul : 0 ∉ p)
    (hnode : s.host.node p = .open bytes) :
    openForWrite p s = .ok bytes { s with touched := p :: p :: s.touched } := by
  have hmode : s.host.writeMode p = .update := by
    rw [Host.writeMode, if_pos]
    rw [hnode]
    exact Node.noConfusion
  have hopen : s.host.openFile .update p = .ok (bytes, s.host) := by
    rw [Host.openFile, hnode]
    rfl
  rw [openForWrite_free hnul, hmode]
  exact call_ok hnul hopen

/-- Opening for writing changes no other file. -/
theorem openForWrite_other {q : Text} (hne : p ≠ q) :
    (after (openForWrite q s)).host.node p = s.host.node p ∧
      (after (openForWrite q s)).driveDirs = s.driveDirs := by
  by_cases hnul : 0 ∈ q
  · rw [openForWrite_nul hnul]
    exact ⟨rfl, rfl⟩
  · rw [openForWrite_free hnul]
    rcases openFile_cases s.host (s.host.writeMode q) q with ⟨bytes, h, hopen⟩ | hopen
    · have hcall : openFile (s.host.writeMode q) q { s with touched := q :: s.touched } =
          .ok bytes { s with touched := q :: q :: s.touched, host := h } := call_ok hnul hopen
      rw [hcall]
      exact ⟨openFile_other hopen hne, rfl⟩
    · have hcall : openFile (s.host.writeMode q) q { s with touched := q :: s.touched } =
          .error .osError { s with touched := q :: q :: s.touched } := call_error hnul hopen
      rw [hcall]
      exact ⟨rfl, rfl⟩

/-! ### One write request -/

/-- Filling the gap first writes the same file. -/
theorem pwriteFilled_eq (bytes : List Byte) (offset : Nat) (data : List Byte)
    (hdata : data ≠ []) : pwriteFilled bytes offset data = pwrite 0#8 bytes offset data := by
  unfold pwriteFilled
  by_cases hgap : bytes.length < offset
  · have hzeros : List.replicate (offset - bytes.length) 0#8 ≠ [] := by
      rw [Ne, List.replicate_eq_nil_iff]
      omega
    have hpadded : pwrite 0#8 bytes bytes.length (List.replicate (offset - bytes.length) 0#8) =
        bytes ++ List.replicate (offset - bytes.length) 0#8 := by
      rw [pwrite, if_neg hzeros, Nat.sub_self, List.replicate_zero, List.append_nil,
        List.take_length, List.drop_eq_nil_of_le (by omega), List.append_nil]
    have hlen : (bytes ++ List.replicate (offset - bytes.length) 0#8).length = offset := by
      rw [List.length_append, List.length_replicate]
      omega
    simp only [if_pos hgap, hpadded]
    rw [pwrite, if_neg hdata, pwrite, if_neg hdata, hlen, Nat.sub_self, List.replicate_zero,
      List.append_nil, List.take_of_length_le (by omega), List.drop_eq_nil_of_le (by omega),
      List.take_of_length_le (by omega), List.drop_eq_nil_of_le (by omega)]
  · simp only [if_neg hgap]

/-- **Random writes** with and without zero fill write the same files. -/
theorem writeRandZf_eq : handleWriteRandZf = handleWriteRand := by
  funext payload
  unfold handleWriteRandZf handleWriteRand writeRandom
  by_cases hfull : payload.length < 37 + 128
  · simp only [if_pos hfull]
  · have hne : slice payload 37 (37 + 128) ≠ [] := by
      rw [Ne, ← List.length_eq_zero_iff, length_slice]
      omega
    simp only [pwriteFilled_eq _ _ _ hne]

theorem after_exceptOsError (body : Action (List Byte)) (s : Server) :
    after (exceptOsError body (pure failure) s) = after (body s) := by
  unfold exceptOsError
  split
  · next hbody => rw [hbody]; rfl
  · rfl

namespace WriteRequest

/-- The reply to the request. -/
def reply (r : WriteRequest) : Action (List Byte) :=
  if r.f = .writeSeq then
    let (ex, cr) := advance (field r.payload 13) (field r.payload 33)
    writeSeqReply r.payload ex cr
  else writeRandReply r.payload (randomRecord r.payload)

/-- The body of the request, for its path. -/
def body (r : WriteRequest) (path : Text) : Action (List Byte) := do
  let bytes ← openForWrite path
  fill path (pwrite 0#8 bytes (r.record * 128) r.data)
  r.reply

theorem reply_ok (r : WriteRequest) (s : Server) : ∃ reply, r.reply s = .ok reply s := by
  unfold reply
  by_cases hseq : r.f = .writeSeq
  · rw [if_pos hseq]
    have hfull := r.full
    exact ⟨_, writeSeqReply_ok (by omega) ((advance_fits r.payload).mpr (r.position hseq))
      (advance_cr r.payload)⟩
  · rw [if_neg hseq]
    exact ⟨_, writeRandReply_ok r.payload _⟩

/-- The three functions write a record in one way. -/
theorem handle_mapped (r : WriteRequest) {path : Text} (hpath : filePath s r.payload = some path) :
    r.f.handle upper r.payload s = exceptOsError (r.body path) (pure failure) s := by
  obtain ⟨dir, hdir, rfl⟩ := Option.map_eq_some_iff.mp hpath
  obtain ⟨code, hcode, hmapped⟩ := selectedDir_some hdir
  have hfull := r.full
  have hne : r.data ≠ [] := by
    intro hnil
    have hlen := r.length_data
    rw [hnil] at hlen
    exact nomatch hlen
  -- WRITE RANDOM and WRITE RANDOM WITH ZERO FILL differ in how they put the data only
  have hrandom : ∀ put, r.f ≠ .writeSeq →
      (∀ bytes offset, put bytes offset r.data = pwrite 0#8 bytes offset r.data) →
      writeRandom put r.payload s =
        exceptOsError (r.body (join dir (nameText (fcbName r.payload 1)))) (pure failure) s := by
    intro put hf hput
    rw [writeRandom, withPath_mapped hcode hmapped, if_neg (by omega)]
    simp only [if_neg (Nat.not_lt.mpr hfull)]
    unfold body reply record
    simp only [if_neg hf, ← hput]
    rfl
  rcases r.writes with hf | hf | hf
  · rw [hf]
    show handleWriteSeq r.payload s = _
    rw [handleWriteSeq, withPath_mapped hcode hmapped]
    simp only [if_neg (Nat.not_lt.mpr hfull)]
    unfold body reply record
    simp only [if_pos hf]
    rfl
  · rw [hf]
    exact hrandom _ (by rw [hf]; exact Function.noConfusion) (fun _ _ => rfl)
  · rw [hf]
    exact hrandom _ (by rw [hf]; exact Function.noConfusion)
      (fun bytes offset => pwriteFilled_eq bytes offset _ hne)

/-- **A request** writes its record into the file that it names. -/
theorem write_own (r : WriteRequest) (upper : Nat → Text)
    (hpath : filePath s r.payload = some p) (hnul : 0 ∉ p) {bytes : List Byte}
    (hnode : s.host.node p = .open bytes) :
    (r.apply upper s).host.node p = .open (pwrite 0#8 bytes (r.record * 128) r.data) ∧
      (r.apply upper s).driveDirs = s.driveDirs := by
  rw [apply, r.handle_mapped hpath, after_exceptOsError, body, bind_apply,
    openForWrite_own hnul hnode]
  simp only [bind_apply, fill]
  obtain ⟨reply, hreply⟩ := r.reply_ok { s with
    host := s.host.fill p (pwrite 0#8 bytes (r.record * 128) r.data),
    touched := p :: p :: s.touched }
  rw [hreply]
  exact ⟨fill_own hnode, rfl⟩

/-- It changes no other file. -/
theorem write_other (r : WriteRequest) (upper : Nat → Text)
    (hpath : filePath s r.payload ≠ some p) :
    (r.apply upper s).host.node p = s.host.node p ∧
      (r.apply upper s).driveDirs = s.driveDirs := by
  cases hq : filePath s r.payload with
  | some q =>
      have hne : p ≠ q := by
        rintro rfl
        exact hpath hq
      have hopened := openForWrite_other (s := s) hne
      rw [apply, r.handle_mapped hq, after_exceptOsError, body, bind_apply]
      cases hopen : openForWrite q s with
      | error e t =>
          rw [hopen] at hopened
          exact hopened
      | ok bytes t =>
          rw [hopen] at hopened
          simp only [bind_apply, fill]
          obtain ⟨reply, hreply⟩ := r.reply_ok { t with
            host := t.host.fill q (pwrite 0#8 bytes (r.record * 128) r.data) }
          rw [hreply]
          exact ⟨(fill_other hne).trans hopened.1, hopened.2⟩
  | none =>
      -- the drive has no directory, and the request fails
      have hfull := r.full
      have hdir : selectedDir s r.payload 1 = none := Option.map_eq_none_iff.mp hq
      have hcode : r.payload[1]? = some r.payload[1] := List.getElem?_eq_getElem (by omega)
      have hunmapped := selectedDir_none hdir _ hcode
      have hfails : r.f.handle upper r.payload s = .ok failure s := by
        rcases r.writes with hf | hf | hf
        · rw [hf]
          exact withPath_unmapped hcode hunmapped
        · rw [hf]
          exact withPath_unmapped hcode hunmapped
        · rw [hf]
          exact withPath_unmapped hcode hunmapped
      rw [apply, hfails]
      exact ⟨rfl, rfl⟩

end WriteRequest

/-! ### Sequences of write requests -/

/-- The file holds what was written to it. -/
structure HoldsFile (s : Server) (path : Text) (history : List (RecordWrite Byte)) : Prop where
  node : ∃ bytes, s.host.node path = .open bytes ∧ HoldsRecords 128 0#8 bytes history
  records : ∀ w ∈ history, w.1 < 65536 ∧ w.2.length = 128

theorem filePath_congr {s t : Server} (hdirs : t.driveDirs = s.driveDirs)
    (payload : List Byte) : filePath t payload = filePath s payload := by
  unfold filePath selectedDir Server.driveDir
  rw [hdirs]

theorem HoldsFile.step {history : List (RecordWrite Byte)} (hfile : HoldsFile s p history)
    (upper : Nat → Text) (hnul : 0 ∉ p) (r : WriteRequest) :
    HoldsFile (r.apply upper s) p (written s p history r) ∧
      (r.apply upper s).driveDirs = s.driveDirs := by
  obtain ⟨bytes, hnode, hholds⟩ := hfile.node
  unfold written
  by_cases hpath : filePath s r.payload = some p
  · rw [if_pos hpath]
    have hwrite := r.write_own upper hpath hnul hnode
    refine ⟨⟨⟨_, hwrite.1, ?_⟩, ?_⟩, hwrite.2⟩
    · rw [Nat.mul_comm]
      exact hholds.write (by omega) r.record r.length_data
    · intro w hw
      rcases List.mem_cons.mp hw with rfl | hw
      · exact ⟨r.record_lt, r.length_data⟩
      · exact hfile.records w hw
  · rw [if_neg hpath]
    have hother := r.write_other upper hpath
    exact ⟨⟨⟨bytes, hother.1.trans hnode, hholds⟩, hfile.records⟩, hother.2⟩

/-- The file holds what the requests wrote to it, whatever they write to others. -/
theorem HoldsFile.run (hnul : 0 ∉ p) (rs : List WriteRequest) :
    ∀ {t : Server} {history : List (RecordWrite Byte)}, t.driveDirs = s.driveDirs →
      HoldsFile t p history →
      HoldsFile (serve upper t rs) p (rs.foldl (written s p) history) ∧
        (serve upper t rs).driveDirs = s.driveDirs := by
  induction rs with
  | nil =>
      intro t history hdirs hfile
      exact ⟨hfile, hdirs⟩
  | cons r rs ih =>
      intro t history hdirs hfile
      have hstep := hfile.step upper hnul r
      have hsame : written t p history r = written s p history r := by
        unfold written
        rw [filePath_congr hdirs]
      rw [hsame] at hstep
      exact ih (hstep.2.trans hdirs) hstep.1

/-- The reply to a read: a record, or the end of the file with its code. -/
def Delivers (m : Action (List Byte)) (s : Server) (eof : Byte) : Option (List Byte) → Prop
  | some data =>
      ∃ reply t, m s = .ok reply t ∧ reply[0]? = some 0#8 ∧ reply.length = 165 ∧
        reply.drop 37 = data
  | none => ∃ t, m s = .ok [eof] t

/-- A record of the array is a full record. -/
theorem HoldsFile.length_recordAt {history : List (RecordWrite Byte)} {n : Nat} {data : List Byte}
    (hfile : HoldsFile s p history) (hdata : recordAt 128 0#8 history n = some data) :
    data.length = 128 := by
  unfold recordAt at hdata
  split at hdata
  · next last hlast =>
      rw [← Option.some.inj hdata]
      exact (hfile.records _ (lastWritten_mem hlast)).2
  · split at hdata
    · rw [← Option.some.inj hdata]
      exact List.length_replicate
    · exact nomatch hdata

theorem HoldsFile.openFile_rb {history : List (RecordWrite Byte)} (hfile : HoldsFile s p history)
    (hnul : 0 ∉ p) :
    ∃ bytes, openFile .rb p s = .ok bytes { s with touched := p :: s.touched } ∧
      ∀ n, pread bytes (n * 128) 128 = (recordAt 128 0#8 history n).getD [] := by
  obtain ⟨bytes, hnode, hholds⟩ := hfile.node
  have hopen : s.host.openFile .rb p = .ok (bytes, s.host) := by
    rw [Host.openFile, hnode]
    rfl
  refine ⟨bytes, call_ok hnul hopen, ?_⟩
  intro n
  rw [Nat.mul_comm]
  exact hholds.read (by omega) (fun w hw => (hfile.records w hw).2) n

theorem padRecord_full {data : List Byte} (hlen : data.length = 128) : padRecord data = data := by
  rw [padRecord, hlen]
  exact List.append_nil data

theorem echoAt_code (payload : List Byte) (ex cr : Nat) (tail : List Byte) :
    (echoAt payload ex cr ++ tail)[0]? = some 0#8 := by
  have hecho := length_echoAt payload ex cr
  rw [List.getElem?_append_left (by omega), echoAt, List.getElem?_set_ne (by omega),
    List.getElem?_set_ne (by omega)]
  rfl

/-- The reply of a read, with a full record. -/
theorem readReply_delivers (payload : List Byte) (ex cr : Nat) {data : List Byte}
    (hlen : data.length = 128) :
    (echoAt payload ex cr ++ data)[0]? = some 0#8 ∧
      (echoAt payload ex cr ++ data).length = 165 ∧
      (echoAt payload ex cr ++ data).drop 37 = data := by
  have hecho := length_echoAt payload ex cr
  refine ⟨?_, ?_, ?_⟩
  · exact echoAt_code payload ex cr data
  · rw [List.length_append, hecho, hlen]
  · rw [← hecho, List.drop_left]

theorem HoldsFile.readSeq {history : List (RecordWrite Byte)} (hfile : HoldsFile s p history)
    (hnul : 0 ∉ p) (hpath : filePath s payload = some p)
    (hfits : recordAt 128 0#8 history (field payload 13 * 128 + field payload 33) ≠ none →
      AdvanceFits payload) :
    Delivers (handleReadSeq payload) s 1#8
      (recordAt 128 0#8 history (field payload 13 * 128 + field payload 33)) := by
  obtain ⟨dir, hdir, rfl⟩ := Option.map_eq_some_iff.mp hpath
  obtain ⟨code, hcode, hmapped⟩ := selectedDir_some hdir
  obtain ⟨bytes, hopen, hread⟩ := hfile.openFile_rb hnul
  unfold Delivers
  rw [handleReadSeq, withPath_mapped hcode hmapped]
  simp only [exceptOsError, bind_apply, hopen, hread]
  cases hrecord : recordAt 128 0#8 history (field payload 13 * 128 + field payload 33) with
  | none => exact ⟨_, rfl⟩
  | some data =>
      have hlen := hfile.length_recordAt hrecord
      have hne : data ≠ [] := by
        rintro rfl
        cases hlen
      simp only [Option.getD_some, if_neg hne, padRecord_full hlen]
      have hex := (advance_fits payload).mpr (hfits (by rw [hrecord]; exact Option.some_ne_none _))
      rw [readReply_ok payload data hex (advance_cr payload)]
      exact ⟨_, _, rfl, readReply_delivers payload _ _ hlen⟩

theorem HoldsFile.readRand {history : List (RecordWrite Byte)} (hfile : HoldsFile s p history)
    (hnul : 0 ∉ p) (hpath : filePath s payload = some p) (hlen : 37 ≤ payload.length) :
    Delivers (handleReadRand payload) s 6#8
      (recordAt 128 0#8 history (randomRecord payload)) := by
  obtain ⟨dir, hdir, rfl⟩ := Option.map_eq_some_iff.mp hpath
  obtain ⟨code, hcode, hmapped⟩ := selectedDir_some hdir
  obtain ⟨bytes, hopen, hread⟩ := hfile.openFile_rb hnul
  unfold Delivers
  rw [handleReadRand, withPath_mapped hcode hmapped, if_neg (Nat.not_lt.mpr hlen)]
  simp only [exceptOsError, bind_apply, hopen, hread]
  cases hrecord : recordAt 128 0#8 history (randomRecord payload) with
  | none => exact ⟨_, rfl⟩
  | some data =>
      have hlen := hfile.length_recordAt hrecord
      have hne : data ≠ [] := by
        rintro rfl
        cases hlen
      simp only [Option.getD_some, if_neg hne, padRecord_full hlen]
      rw [readReply_ok payload data (by omega) (by omega)]
      exact ⟨_, _, rfl, readReply_delivers payload _ _ hlen⟩

/-- A history of records below a bound counts at most as many. -/
theorem recordCount_le {history : List (RecordWrite Byte)} {bound : Nat}
    (hbound : ∀ w ∈ history, w.1 < bound) : recordCount history ≤ bound := by
  induction history with
  | nil => exact Nat.zero_le _
  | cons w history ih =>
      have hlow := ih (fun v hv => hbound v (List.mem_cons_of_mem _ hv))
      have hnew := hbound w List.mem_cons_self
      rw [recordCount]
      omega

/-- Three bytes hold a size of 24 bits. -/
theorem threeBytes {n : Nat} (hn : n < 2 ^ 24) :
    (n &&& 0xFF) ||| (n >>> 8 &&& 0xFF) <<< 8 ||| (n >>> 16 &&& 0xFF) <<< 16 = n := by
  apply Nat.eq_of_testBit_eq
  intro i
  have hmask : ∀ j, Nat.testBit 0xFF j = decide (j < 8) :=
    fun j => Nat.testBit_two_pow_sub_one 8 j
  have hhigh : 24 ≤ i → n.testBit i = false := fun hi =>
    Nat.testBit_lt_two_pow (Nat.lt_of_lt_of_le hn (Nat.pow_le_pow_right (by omega) hi))
  simp only [Nat.testBit_or, Nat.testBit_and, Nat.testBit_shiftLeft, Nat.testBit_shiftRight, hmask]
  by_cases hlow : i < 8
  · have h8 : ¬ 8 ≤ i := by omega
    have h16 : ¬ 16 ≤ i := by omega
    simp [hlow, h8, h16]
  by_cases hmid : i < 16
  · have hi : 8 + (i - 8) = i := by omega
    have h8 : 8 ≤ i := by omega
    have h16 : ¬ 16 ≤ i := by omega
    have hbyte : i - 8 < 8 := by omega
    simp [hi, hlow, h8, h16, hbyte]
  by_cases htop : i < 24
  · have hi : 16 + (i - 16) = i := by omega
    have h16 : 16 ≤ i := by omega
    have hbyte : i - 16 < 8 := by omega
    have hbyte' : ¬ i - 8 < 8 := by omega
    simp [hi, hlow, h16, hbyte, hbyte']
  · have hbyte : ¬ i - 8 < 8 := by omega
    have hbyte' : ¬ i - 16 < 8 := by omega
    simp [hhigh (by omega), hlow, hbyte, hbyte']

theorem randomRecord_set {resp : List Byte} (hlen : resp.length = 37) (r0 r1 r2 : Byte) :
    randomRecord (((resp.set 34 r0).set 35 r1).set 36 r2) =
      r0.toNat ||| r1.toNat <<< 8 ||| r2.toNat <<< 16 := by
  unfold randomRecord field
  simp [List.getD_eq_getElem?_getD, hlen]

/-- FILE SIZE of a file reports its length in records. -/
theorem handleFileSize_open {bytes : List Byte} (hpath : filePath s payload = some p)
    (hnul : 0 ∉ p) (hnode : s.host.node p = .open bytes)
    (hsmall : recordsOf bytes.length < 2 ^ 24) :
    ∃ reply t, handleFileSize payload s = .ok reply t ∧ reply[0]? = some 0#8 ∧
      randomRecord reply = recordsOf bytes.length := by
  obtain ⟨dir, hdir, rfl⟩ := Option.map_eq_some_iff.mp hpath
  obtain ⟨code, hcode, hmapped⟩ := selectedDir_some hdir
  rw [handleFileSize, withPath_mapped hcode hmapped]
  generalize join dir (nameText (fcbName payload 1)) = path at hnul hnode ⊢
  have hexists : s.host.node path ≠ .absent := by
    rw [hnode]
    exact Node.noConfusion
  have hsize : s.host.getsize path = .ok (bytes.length, s.host) := by
    rw [Host.getsize, hnode]
    rfl
  have hcall : getsize path { s with touched := path :: s.touched } =
      .ok bytes.length { s with touched := path :: path :: s.touched } := call_ok hnul hsize
  have hlen := length_echoFcb payload
  rw [bind_apply, pathExists, if_neg hnul]
  simp only [decide_eq_true hexists, if_true, bind_apply, hcall]
  rw [fileSizeReply_ok]
  refine ⟨_, _, rfl, ?_, ?_⟩
  · rw [List.getElem?_set_ne (by omega), List.getElem?_set_ne (by omega),
      List.getElem?_set_ne (by omega)]
    rfl
  · have hbyte : ∀ n, (BitVec.ofNat 8 (n &&& 0xFF)).toNat = n &&& 0xFF := by
      intro n
      rw [BitVec.toNat_ofNat]
      exact Nat.mod_eq_of_lt (Nat.lt_of_le_of_lt Nat.and_le_right (by omega))
    rw [randomRecord_set hlen, hbyte, hbyte, hbyte]
    exact threeBytes hsmall

/-- Of a file of records it reports their number. -/
theorem HoldsFile.fileSize {history : List (RecordWrite Byte)} (hfile : HoldsFile s p history)
    (hnul : 0 ∉ p) (hpath : filePath s payload = some p) :
    ∃ reply t, handleFileSize payload s = .ok reply t ∧ reply[0]? = some 0#8 ∧
      randomRecord reply = recordCount history := by
  obtain ⟨bytes, hnode, hholds⟩ := hfile.node
  have hcount : recordsOf bytes.length = recordCount history := by
    rw [recordsOf, hholds.length]
    omega
  have hbound : recordCount history ≤ 65536 :=
    recordCount_le (fun w hw => (hfile.records w hw).1)
  rw [← hcount]
  exact handleFileSize_open hpath hnul hnode (by omega)

/-! ### Files are arrays of records -/

/-- A request for `FOO.TXT` on the first drive, at its first record. -/
def fooRequest : List Byte := request 1#8 "FOO     TXT" (List.replicate 24 0#8)

end CpNet
end Rc700
