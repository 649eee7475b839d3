import Rc700.CpNet.Records

/-!
# A sequential file, written and read back

A client keeps the position of a sequential file in its FCB, and takes the FCB of each
reply.  It creates a file, writes records, opens the file and reads as many records.

This succeeds exactly for files of at most 32767 records, on a file that is new or not
longer (`roundTrips_iff`): MAKE leaves a file as it is, and the position after record
32767 does not fit the byte of EX.

The step lemmas keep the position of the FCB in line with the bytes written
(`exchange_write`) or read (`exchange_read`), and the runs are by induction on the
records.
-/

namespace Rc700
namespace CpNet

open Library PathText CpNet.Action

variable {payload : List Byte} {s : Server} {p : Text}

/-! ### The client -/

/-- A file control block: the drive code, the name, EX, S1, S2, RC, the allocation map,
CR and the random record number. -/
structure Fcb where
  bytes : List Byte
  length : bytes.length = 36

namespace Fcb

/-- The drive code. -/
def drive (fcb : Fcb) : Byte := fcb.bytes.getD 0 0#8

/-- The name, without the attributes. -/
def name (fcb : Fcb) : List Byte := (slice fcb.bytes 1 12).map (· &&& 0x7F#8)

def ex (fcb : Fcb) : Nat := field fcb.bytes 12

def cr (fcb : Fcb) : Nat := field fcb.bytes 32

/-- The payload of a request that carries the FCB. -/
def request (fcb : Fcb) (user : Byte) (rest : List Byte) : List Byte := user :: fcb.bytes ++ rest

/-- The FCB after a reply: the client copies bytes 2 to 33 of it behind the drive code. -/
def answered (fcb : Fcb) (reply : List Byte) : Fcb where
  bytes := splice fcb.bytes 1 33 ((List.range 32).map (fun i => reply.getD (i + 2) 0#8))
  length := by
    have hlen := fcb.length
    rw [length_splice (by omega), List.length_map, List.length_range, hlen]

/-- The path of the file. -/
def path (fcb : Fcb) (s : Server) : Option Text :=
  (s.driveDir (driveOf fcb.drive)).map (fun dir => join dir (nameText fcb.name))

end Fcb

/-- What is written to a file. -/
abbrev Record := { data : List Byte // data.length = 128 }

/-- A request of the client: if the reply reports success, the reply, the FCB after it
and the server after it. -/
def exchange (handle : List Byte → Action (List Byte)) (user : Byte) (rest : List Byte)
    (fcb : Fcb) (s : Server) : Option (List Byte × Fcb × Server) :=
  match handle (fcb.request user rest) s with
  | .ok reply s' => if reply[0]? = some 0#8 then some (reply, fcb.answered reply, s') else none
  | .error _ _ => none

/-- WRITE SEQ of all records. -/
def writeAll (user : Byte) : List Record → Fcb → Server → Option (Fcb × Server)
  | [], fcb, s => some (fcb, s)
  | data :: records, fcb, s => do
      let (_, fcb, s) ← exchange handleWriteSeq user data.val fcb s
      writeAll user records fcb s

/-- READ SEQ of so many records. -/
def readAll (user : Byte) : Nat → Fcb → Server → Option (List (List Byte) × Fcb × Server)
  | 0, fcb, s => some ([], fcb, s)
  | n + 1, fcb, s => do
      let (reply, fcb, s) ← exchange handleReadSeq user [] fcb s
      let (records, fcb, s) ← readAll user n fcb s
      some (reply.drop 37 :: records, fcb, s)

/-- MAKE, the writes, OPEN and as many reads; `dma` is what follows the FCB in the
requests of MAKE and OPEN. -/
def writeAndRead (user : Byte) (dma : List Byte) (records : List Record) (fcb : Fcb)
    (s : Server) : Option (List (List Byte) × Fcb × Server) := do
  let (_, fcb, s) ← exchange handleMakeFile user dma fcb s
  let (fcb, s) ← writeAll user records fcb s
  let (_, fcb, s) ← exchange handleOpen user dma fcb s
  readAll user records.length fcb s

/-- The file is new and may be created, or it can be read and written and is not longer. -/
def Accepts (h : Host) (path : Text) (n : Nat) : Prop :=
  match h.node path with
  | .absent => h.admits path = true
  | .file f => f.readable = true ∧ f.writable = true ∧ f.bytes.length ≤ 128 * n
  | .directory _ => False

/-- The reads deliver the records, the next is at the end of the file, and FILE SIZE
counts the records. -/
def RoundTrips (user : Byte) (dma : List Byte) (records : List Record) (fcb : Fcb)
    (s : Server) : Prop :=
  ∃ fcb' s', writeAndRead user dma records fcb s = some (records.map Subtype.val, fcb', s') ∧
    ∃ t, handleReadSeq (fcb'.request user []) s' = .ok [1#8] t ∧
      ∃ size t', handleFileSize (fcb'.request user []) t = .ok size t' ∧
        size[0]? = some 0#8 ∧ randomRecord size = records.length

/-! ### File control blocks -/

namespace Fcb

variable {fcb : Fcb} {user : Byte} {rest : List Byte}

theorem getElem?_request {i : Nat} (hi : i < 36) :
    (fcb.request user rest)[i + 1]? = fcb.bytes[i]? := by
  have hlen := fcb.length
  rw [request, List.cons_append, List.getElem?_cons_succ, List.getElem?_append_left (by omega)]

theorem field_request {i : Nat} (hi : i < 36) :
    field (fcb.request user rest) (i + 1) = field fcb.bytes i := by
  rw [field, List.getD_eq_getElem?_getD, getElem?_request hi, field, List.getD_eq_getElem?_getD]

theorem slice_request {i j : Nat} (hj : j ≤ 36) :
    slice (fcb.request user rest) (i + 1) (j + 1) = slice fcb.bytes i j := by
  have hlen := fcb.length
  rw [slice, request, List.cons_append, List.take_succ_cons, List.drop_succ_cons,
    List.take_append_of_le_length (by omega), slice]

theorem length_request : (fcb.request user rest).length = 37 + rest.length := by
  have hlen := fcb.length
  rw [request, List.length_append, List.length_cons]
  omega

theorem request_drive : (fcb.request user rest)[1]? = some fcb.drive := by
  have hlen := fcb.length
  rw [getElem?_request (by omega), drive, List.getD_eq_getElem?_getD,
    List.getElem?_eq_getElem (by omega), Option.getD_some]

theorem request_name : fcbName (fcb.request user rest) 1 = fcb.name := by
  rw [fcbName, slice_request (by omega), name]

theorem length_name : fcb.name.length = 11 := by
  have hlen := fcb.length
  rw [name, List.length_map, length_slice, hlen]
  rfl

theorem answered_bytes (reply : List Byte) :
    (fcb.answered reply).bytes =
      fcb.bytes.take 1 ++ (List.range 32).map (fun i => reply.getD (i + 2) 0#8) ++
        fcb.bytes.drop 33 := rfl

theorem drive_answered (reply : List Byte) : (fcb.answered reply).drive = fcb.drive := by
  have hlen := fcb.length
  rw [drive, drive, answered_bytes, List.append_assoc, List.getD_eq_getElem?_getD,
    List.getD_eq_getElem?_getD,
    List.getElem?_append_left (by rw [List.length_take]; omega),
    List.getElem?_take_of_lt (by omega)]

/-- What the client copies. -/
theorem bytes_answered (fcb : Fcb) (reply : List Byte) {i : Nat} (hlow : 1 ≤ i) (hhigh : i < 33) :
    (fcb.answered reply).bytes.getD i 0#8 = reply.getD (i + 1) 0#8 := by
  have hlen := fcb.length
  have htake : (fcb.bytes.take 1).length = 1 := by
    rw [List.length_take]
    omega
  rw [answered_bytes, List.append_assoc, List.getD_eq_getElem?_getD,
    List.getElem?_append_right (by omega), htake, List.getElem?_append_left (by simp; omega),
    List.getElem?_map, List.getElem?_range (by omega), Option.map_some, Option.getD_some]
  congr 1
  omega

theorem ex_answered (reply : List Byte) : (fcb.answered reply).ex = field reply 13 := by
  rw [ex, field, bytes_answered _ _ (by omega) (by omega), field]

theorem cr_answered (reply : List Byte) : (fcb.answered reply).cr = field reply 33 := by
  rw [cr, field, bytes_answered _ _ (by omega) (by omega), field]

/-- The name is copied, if the reply is long enough. -/
theorem name_answered {reply : List Byte} (hreply : 34 ≤ reply.length) :
    (fcb.answered reply).name = (slice reply 2 13).map (· &&& 0x7F#8) := by
  have hlen := (fcb.answered reply).length
  rw [name]
  congr 1
  apply List.ext_getElem
  · rw [length_slice, length_slice]
    omega
  · intro i hi hi'
    rw [length_slice] at hi hi'
    have hcopied := bytes_answered fcb reply (i := i + 1) (by omega) (by omega)
    rw [List.getD_eq_getElem _ _ (by omega), List.getD_eq_getElem _ _ (by omega)] at hcopied
    simp only [slice, List.getElem_drop, List.getElem_take]
    convert hcopied using 2 <;> omega

/-- The path is a matter of the drives alone. -/
theorem path_of_dirs (fcb : Fcb) {s s' : Server} (hdirs : s'.driveDirs = s.driveDirs) :
    fcb.path s' = fcb.path s := by
  rw [path, path, Server.driveDir, Server.driveDir, hdirs]

end Fcb

/-! ### Requests with an FCB -/

section Requests

variable {fcb fcb₀ : Fcb} {user : Byte} {rest : List Byte}

theorem withPath_request {body : Nat → Text → Action (List Byte)} (hpath : fcb.path s = some p) :
    withPath (fcb.request user rest) body s = body (driveOf fcb.drive) p s := by
  obtain ⟨dir, hdir, rfl⟩ := Option.map_eq_some_iff.mp hpath
  rw [withPath_mapped Fcb.request_drive hdir, Fcb.request_name]

theorem withPath_request_none {body : Nat → Text → Action (List Byte)}
    (hpath : fcb.path s = none) : withPath (fcb.request user rest) body s = .ok failure s :=
  withPath_unmapped Fcb.request_drive (Option.map_eq_none_iff.mp hpath)

theorem exchange_ok {handle : List Byte → Action (List Byte)} {reply : List Byte} {s' : Server}
    (hreply : handle (fcb.request user rest) s = .ok reply s') (hcode : reply[0]? = some 0#8) :
    exchange handle user rest fcb s = some (reply, fcb.answered reply, s') := by
  rw [exchange, hreply]
  exact if_pos hcode

theorem exchange_failure {handle : List Byte → Action (List Byte)} {s' : Server}
    (hreply : handle (fcb.request user rest) s = .ok failure s') :
    exchange handle user rest fcb s = none := by
  rw [exchange, hreply]
  rfl

theorem exchange_error {handle : List Byte → Action (List Byte)} {e : PyError} {s' : Server}
    (hreply : handle (fcb.request user rest) s = .error e s') :
    exchange handle user rest fcb s = none := by
  rw [exchange, hreply]

/-- The FCB names the file of another, at a record. -/
structure Fcb.At (fcb fcb₀ : Fcb) (n : Nat) : Prop where
  drive : fcb.drive = fcb₀.drive
  name : fcb.name = fcb₀.name
  ex : fcb.ex = n / 128
  cr : fcb.cr = n % 128

namespace Fcb.At

variable {n : Nat}

theorem path (hat : fcb.At fcb₀ n) (s : Server) : fcb.path s = fcb₀.path s := by
  rw [Fcb.path, hat.drive, hat.name, Fcb.path]

theorem field_ex (hat : fcb.At fcb₀ n) : field (fcb.request user rest) 13 = n / 128 := by
  rw [Fcb.field_request (by omega), ← hat.ex, Fcb.ex]

theorem field_cr (hat : fcb.At fcb₀ n) : field (fcb.request user rest) 33 = n % 128 := by
  rw [Fcb.field_request (by omega), ← hat.cr, Fcb.cr]

/-- The offset of the record. -/
theorem offset (hat : fcb.At fcb₀ n) :
    (field (fcb.request user rest) 13 * 128 + field (fcb.request user rest) 33) * 128 =
      128 * n := by
  rw [hat.field_ex, hat.field_cr]
  omega

theorem fits (hat : fcb.At fcb₀ n) (hn : n < 32767) : AdvanceFits (fcb.request user rest) := by
  unfold AdvanceFits
  rw [hat.field_ex, hat.field_cr]
  omega

end Fcb.At

/-- The position after a record is that of the next. -/
theorem advance_position (n : Nat) :
    advance (n / 128) (n % 128) = ((n + 1) / 128, (n + 1) % 128) := by
  unfold advance
  split
  · rw [Prod.mk.injEq]
    omega
  · rw [Prod.mk.injEq]
    omega

theorem echoFcb_request : echoFcb (fcb.request user rest) = 0#8 :: fcb.bytes := by
  have hlen := fcb.length
  have hslice : slice (fcb.request user rest) 1 37 = fcb.bytes := by
    rw [Fcb.slice_request (by omega), slice, List.take_of_length_le (by omega), List.drop_zero]
  rw [echoFcb, hslice, hlen, List.replicate_zero, List.append_nil, List.singleton_append]

/-- A reply that echoes the FCB at a position moves it there. -/
theorem Fcb.answered_at (fcb : Fcb) (user : Byte) (rest tail : List Byte) {n : Nat}
    (hn : n < 32768) :
    (fcb.answered (echoAt (fcb.request user rest) (n / 128) (n % 128) ++ tail)).At fcb n := by
  have hlen := fcb.length
  have hecho := length_echoAt (fcb.request user rest) (n / 128) (n % 128)
  have hfield : ∀ i < 37, field (echoAt (fcb.request user rest) (n / 128) (n % 128) ++ tail) i =
      field (echoAt (fcb.request user rest) (n / 128) (n % 128)) i := by
    intro i hi
    rw [field, List.getD_eq_getElem?_getD, List.getElem?_append_left (by omega), field,
      List.getD_eq_getElem?_getD]
  refine ⟨Fcb.drive_answered _, ?_, ?_, ?_⟩
  · have hreply : 34 ≤ (echoAt (fcb.request user rest) (n / 128) (n % 128) ++ tail).length := by
      rw [List.length_append]
      omega
    rw [Fcb.name_answered hreply, slice, List.take_append_of_le_length (by omega), echoAt,
      echoFcb_request, List.take_set_of_le (by omega), List.take_set_of_le (by omega),
      List.take_succ_cons, List.drop_succ_cons]
    rfl
  · rw [Fcb.ex_answered, hfield _ (by omega), echoAt, echoFcb_request, field,
      List.getD_eq_getElem?_getD, List.getElem?_set_ne (by omega),
      List.getElem?_set_self (by simp; omega), Option.getD_some, BitVec.toNat_ofNat]
    omega
  · rw [Fcb.cr_answered, hfield _ (by omega), echoAt, echoFcb_request, field,
      List.getD_eq_getElem?_getD, List.getElem?_set_self (by simp; omega), Option.getD_some,
      BitVec.toNat_ofNat]
    omega

/-- A reply that echoes the FCB at the next position moves it there. -/
theorem Fcb.At.answered {n : Nat} (hat : fcb.At fcb₀ n) (user : Byte) (rest : List Byte)
    (hn : n < 32767) (tail : List Byte) :
    (fcb.answered (echoAt (fcb.request user rest) ((n + 1) / 128) ((n + 1) % 128) ++ tail)).At
      fcb₀ (n + 1) := by
  have hnext := Fcb.answered_at fcb user rest tail (n := n + 1) (by omega)
  exact ⟨hnext.drive.trans hat.drive, hnext.name.trans hat.name, hnext.ex, hnext.cr⟩

end Requests

/-! ### Writing -/

section Writing

variable {fcb fcb₀ : Fcb} (user : Byte) {n : Nat}

/-- The record is written, and then the reply is built. -/
theorem handleWriteSeq_open {bytes : List Byte} (data : Record) (hat : fcb.At fcb₀ n)
    (hpath : fcb₀.path s = some p) (hnul : 0 ∉ p) (hnode : s.host.node p = .open bytes) :
    handleWriteSeq (fcb.request user data.val) s =
      exceptOsError (writeSeqReply (fcb.request user data.val) ((n + 1) / 128) ((n + 1) % 128))
        (pure failure)
        { s with
          host := s.host.fill p (pwrite 0#8 bytes (128 * n) data.val)
          touched := p :: p :: s.touched } := by
  have hdata := data.property
  have hlen : (fcb.request user data.val).length = 165 := by
    rw [Fcb.length_request, hdata]
  have hslice : slice (fcb.request user data.val) 37 (37 + 128) = data.val := by
    have hfcb := fcb.length
    have hdrop : (user :: fcb.bytes).length = 37 := by
      rw [List.length_cons, hfcb]
    rw [slice, List.take_of_length_le (by omega), Fcb.request, ← hdrop, List.drop_left]
  rw [handleWriteSeq, withPath_request ((hat.path s).trans hpath)]
  simp only [if_neg (show ¬ (fcb.request user data.val).length < 37 + 128 by omega), hat.offset,
    hslice]
  rw [hat.field_ex, hat.field_cr, advance_position]
  unfold exceptOsError
  simp only [bind_apply, openForWrite_own hnul hnode, fill]

/-- **WRITE SEQ** writes at the position of the FCB, and moves it to the next record. -/
theorem exchange_write {front rest : List Byte} (data : Record) (hat : fcb.At fcb₀ n)
    (hn : n < 32767) (hpath : fcb₀.path s = some p) (hnul : 0 ∉ p)
    (hnode : s.host.node p = .open (front ++ rest)) (hfront : front.length = 128 * n) :
    ∃ reply fcb' s', exchange handleWriteSeq user data.val fcb s = some (reply, fcb', s') ∧
      fcb'.At fcb₀ (n + 1) ∧ s'.driveDirs = s.driveDirs ∧
      s'.host.node p = .open (front ++ data.val ++ rest.drop 128) := by
  have hlen : 37 ≤ (fcb.request user data.val).length := by
    rw [Fcb.length_request]
    omega
  have hreply := handleWriteSeq_open user data hat hpath hnul hnode
  rw [exceptOsError_ok (writeSeqReply_ok hlen (by omega) (by omega)), ← hfront,
    pwrite_append, data.property] at hreply
  have hmoved := hat.answered user data.val hn []
  rw [List.append_nil] at hmoved
  have hcode := echoAt_code (fcb.request user data.val) ((n + 1) / 128) ((n + 1) % 128) []
  rw [List.append_nil] at hcode
  exact ⟨_, _, _, exchange_ok hreply hcode, hmoved, rfl, fill_own hnode⟩

/-- The position after record 32767 does not fit. -/
theorem exchange_write_last {bytes : List Byte} (data : Record) (hat : fcb.At fcb₀ 32767)
    (hpath : fcb₀.path s = some p) (hnul : 0 ∉ p) (hnode : s.host.node p = .open bytes) :
    exchange handleWriteSeq user data.val fcb s = none := by
  have hlen : 37 ≤ (fcb.request user data.val).length := by
    rw [Fcb.length_request]
    omega
  have hreply := handleWriteSeq_open user data hat hpath hnul hnode
  rw [exceptOsError_valueError (writeSeqReply_large hlen (by omega))] at hreply
  exact exchange_error hreply

/-- The records, one after the other. -/
def contents (records : List Record) : List Byte := (records.map Subtype.val).flatten

theorem length_contents (records : List Record) :
    (contents records).length = 128 * records.length := by
  induction records with
  | nil => rfl
  | cons data records ih =>
      have hdata := data.property
      rw [contents, List.map_cons, List.flatten_cons, List.length_append, ← contents, ih,
        List.length_cons]
      omega

theorem length_front (data : Record) {front : List Byte} (hfront : front.length = 128 * n) :
    (front ++ data.val).length = 128 * (n + 1) := by
  rw [List.length_append, hfront, data.property]
  omega

/-- **A run of writes** replaces the file from the position on. -/
theorem writeAll_open (records : List Record) :
    ∀ {fcb : Fcb} {s : Server} {n : Nat} {front rest : List Byte}, fcb.At fcb₀ n →
      n + records.length ≤ 32767 → fcb₀.path s = some p → 0 ∉ p →
      s.host.node p = .open (front ++ rest) → front.length = 128 * n →
      ∃ fcb' s', writeAll user records fcb s = some (fcb', s') ∧
        fcb'.At fcb₀ (n + records.length) ∧ s'.driveDirs = s.driveDirs ∧
        s'.host.node p = .open (front ++ contents records ++ rest.drop (128 * records.length)) := by
  -- by induction on the records that are left; FCB, position and file move along
  induction records with
  | nil =>
      intro fcb s n front rest hat hn hpath hnul hnode hfront
      refine ⟨fcb, s, rfl, hat, rfl, ?_⟩
      rw [hnode, contents, List.map_nil, List.flatten_nil, List.append_nil]
      rfl
  | cons data records ih =>
      intro fcb s n front rest hat hn hpath hnul hnode hfront
      rw [List.length_cons] at hn ⊢
      obtain ⟨reply, fcb₁, s₁, hfirst, hat₁, hdirs, hnode₁⟩ :=
        exchange_write user data hat (by omega) hpath hnul hnode hfront
      have hpath₁ : fcb₀.path s₁ = some p := (fcb₀.path_of_dirs hdirs).trans hpath
      obtain ⟨fcb', s', hrest, hat', hdirs', hnode'⟩ :=
        ih hat₁ (by omega) hpath₁ hnul hnode₁ (length_front data hfront)
      refine ⟨fcb', s', ?_, ?_, hdirs'.trans hdirs, ?_⟩
      · rw [writeAll, hfirst]
        exact hrest
      · rw [← Nat.add_assoc, Nat.add_right_comm]
        exact hat'
      · rw [hnode', List.drop_drop, contents, contents, List.map_cons, List.flatten_cons,
          List.append_assoc front data.val, Nat.mul_add, Nat.add_comm (128 * records.length)]

/-- A run of writes beyond record 32767 fails. -/
theorem writeAll_long (records : List Record) :
    ∀ {fcb : Fcb} {s : Server} {n : Nat} {front rest : List Byte}, fcb.At fcb₀ n → n ≤ 32767 →
      32767 < n + records.length → fcb₀.path s = some p → 0 ∉ p →
      s.host.node p = .open (front ++ rest) → front.length = 128 * n →
      writeAll user records fcb s = none := by
  induction records with
  | nil =>
      intro fcb s n front rest hat hn hlong
      rw [List.length_nil] at hlong
      omega
  | cons data records ih =>
      intro fcb s n front rest hat hn hlong hpath hnul hnode hfront
      by_cases hlast : n = 32767
      · subst hlast
        rw [writeAll, exchange_write_last user data hat hpath hnul hnode]
        rfl
      · rw [List.length_cons] at hlong
        obtain ⟨reply, fcb₁, s₁, hfirst, hat₁, hdirs, hnode₁⟩ :=
          exchange_write user data hat (by omega) hpath hnul hnode hfront
        have hpath₁ : fcb₀.path s₁ = some p := (fcb₀.path_of_dirs hdirs).trans hpath
        rw [writeAll, hfirst]
        exact ih hat₁ (by omega) (by omega) hpath₁ hnul hnode₁ (length_front data hfront)

end Writing

/-! ### Reading -/

section Reading

variable {fcb fcb₀ : Fcb} (user : Byte) {n : Nat}

theorem handleReadSeq_open {bytes : List Byte} (hat : fcb.At fcb₀ n)
    (hpath : fcb₀.path s = some p) (hnul : 0 ∉ p) (hnode : s.host.node p = .open bytes) :
    handleReadSeq (fcb.request user []) s =
      exceptOsError
        (if pread bytes (128 * n) 128 = [] then pure [1#8]
        else readReply (fcb.request user []) ((n + 1) / 128) ((n + 1) % 128)
          (padRecord (pread bytes (128 * n) 128)))
        (pure failure) { s with touched := p :: s.touched } := by
  have hopen : s.host.openFile .rb p = .ok (bytes, s.host) := by
    rw [Host.openFile, hnode]
    rfl
  have hcall : openFile .rb p s = .ok bytes { s with touched := p :: s.touched } :=
    call_ok hnul hopen
  rw [handleReadSeq, withPath_request ((hat.path s).trans hpath)]
  simp only [hat.offset]
  rw [hat.field_ex, hat.field_cr, advance_position]
  unfold exceptOsError
  simp only [bind_apply, hcall]

/-- **READ SEQ** delivers the record at the position of the FCB, and moves it to the next. -/
theorem exchange_read {front rest : List Byte} (data : Record) (hat : fcb.At fcb₀ n)
    (hn : n < 32767) (hpath : fcb₀.path s = some p) (hnul : 0 ∉ p)
    (hnode : s.host.node p = .open (front ++ (data.val ++ rest)))
    (hfront : front.length = 128 * n) :
    ∃ reply fcb' s', exchange handleReadSeq user [] fcb s = some (reply, fcb', s') ∧
      reply.drop 37 = data.val ∧ fcb'.At fcb₀ (n + 1) ∧ s'.driveDirs = s.driveDirs ∧
      s'.host = s.host := by
  have hread : pread (front ++ (data.val ++ rest)) (128 * n) 128 = data.val := by
    have hpread := pread_append front data.val rest
    rw [hfront, data.property] at hpread
    exact hpread
  have hne : data.val ≠ [] := by
    intro hnil
    have hlen := data.property
    rw [hnil] at hlen
    exact nomatch hlen
  have hreply := handleReadSeq_open user hat hpath hnul hnode
  rw [hread, if_neg hne, padRecord_full data.property,
    exceptOsError_ok (readReply_ok _ _ (by omega) (by omega))] at hreply
  exact ⟨_, _, _, exchange_ok hreply (echoAt_code _ _ _ _),
    (readReply_delivers _ _ _ data.property).2.2, hat.answered user [] hn data.val, rfl, rfl⟩

/-- **A run of reads** delivers the file from the position on. -/
theorem readAll_open (records : List Record) :
    ∀ {fcb : Fcb} {s : Server} {n : Nat} {front rest : List Byte}, fcb.At fcb₀ n →
      n + records.length ≤ 32767 → fcb₀.path s = some p → 0 ∉ p →
      s.host.node p = .open (front ++ (contents records ++ rest)) → front.length = 128 * n →
      ∃ fcb' s', readAll user records.length fcb s = some (records.map Subtype.val, fcb', s') ∧
        fcb'.At fcb₀ (n + records.length) ∧ s'.driveDirs = s.driveDirs ∧ s'.host = s.host := by
  -- the same induction; here the file stays, and what has been read goes to its front
  induction records with
  | nil =>
      intro fcb s n front rest hat hn hpath hnul hnode hfront
      exact ⟨fcb, s, rfl, hat, rfl, rfl⟩
  | cons data records ih =>
      intro fcb s n front rest hat hn hpath hnul hnode hfront
      rw [List.length_cons] at hn ⊢
      rw [contents, List.map_cons, List.flatten_cons, ← contents, List.append_assoc] at hnode
      obtain ⟨reply, fcb₁, s₁, hfirst, hdata, hat₁, hdirs, hhost⟩ :=
        exchange_read user data hat (by omega) hpath hnul hnode hfront
      have hpath₁ : fcb₀.path s₁ = some p := (fcb₀.path_of_dirs hdirs).trans hpath
      have hnode₁ : s₁.host.node p = .open ((front ++ data.val) ++ (contents records ++ rest)) := by
        rw [hhost, hnode, List.append_assoc]
      obtain ⟨fcb', s', hrest, hat', hdirs', hhost'⟩ :=
        ih hat₁ (by omega) hpath₁ hnul hnode₁ (length_front data hfront)
      refine ⟨fcb', s', ?_, ?_, hdirs'.trans hdirs, hhost'.trans hhost⟩
      · rw [readAll, hfirst]
        simp only [Option.bind_eq_bind, Option.bind_some, hrest, hdata, List.map_cons]
      · rw [← Nat.add_assoc, Nat.add_right_comm]
        exact hat'

/-- READ SEQ reports the end of the file where the file ends. -/
theorem handleReadSeq_end {front rest : List Byte} (hat : fcb.At fcb₀ n)
    (hpath : fcb₀.path s = some p) (hnul : 0 ∉ p) (hnode : s.host.node p = .open (front ++ rest))
    (hfront : front.length = 128 * n) :
    if rest = [] then
      handleReadSeq (fcb.request user []) s = .ok [1#8] { s with touched := p :: s.touched }
    else ∀ t, handleReadSeq (fcb.request user []) s ≠ .ok [1#8] t := by
  have hread : pread (front ++ rest) (128 * n) 128 = rest.take 128 := by
    rw [pread, ← hfront, List.drop_left]
  rw [handleReadSeq_open user hat hpath hnul hnode, hread]
  split
  · next hend =>
      rw [hend, List.take_nil, if_pos rfl]
      rfl
  · next hmore =>
      have hne : rest.take 128 ≠ [] := by
        rw [Ne, List.take_eq_nil_iff]
        simp [hmore]
      rw [if_neg hne]
      intro t
      have hcr : (n + 1) % 128 < 256 := by omega
      by_cases hex : (n + 1) / 128 < 256
      · rw [exceptOsError_ok (readReply_ok _ _ hex hcr)]
        intro hreply
        have hcode := echoAt_code (fcb.request user []) ((n + 1) / 128) ((n + 1) % 128)
          (padRecord (rest.take 128))
        rw [(EStateM.Result.ok.inj hreply).1] at hcode
        exact absurd hcode (by decide)
      · rw [exceptOsError_valueError (readReply_large _ _ (Nat.le_of_not_lt hex))]
        rintro ⟨⟩

end Reading

/-! ### MAKE and OPEN -/

section Opening

variable {fcb fcb₀ : Fcb} (user : Byte) (dma : List Byte) {n : Nat}

theorem handleMakeFile_request (hpath : fcb.path s = some p) :
    handleMakeFile (fcb.request user dma) s =
      exceptOsError (openFile .ab p >>= fun _ => makeReply (fcb.request user dma))
        (pure failure) s := by
  rw [handleMakeFile, withPath_request hpath]

/-- MAKE opens the file, and starts at its first record. -/
theorem exchange_make {bytes : List Byte} {h : Host} (hpath : fcb.path s = some p) (hnul : 0 ∉ p)
    (hopen : s.host.openFile .ab p = .ok (bytes, h)) :
    ∃ reply fcb', exchange handleMakeFile user dma fcb s =
        some (reply, fcb', { s with touched := p :: s.touched, host := h }) ∧ fcb'.At fcb 0 := by
  have hlen : 37 ≤ (fcb.request user dma).length := by
    rw [Fcb.length_request]
    omega
  have hcall : openFile .ab p s = .ok bytes { s with touched := p :: s.touched, host := h } :=
    call_ok hnul hopen
  have hbody : (openFile .ab p >>= fun _ => makeReply (fcb.request user dma)) s =
      .ok (makeFcb (fcb.request user dma)) { s with touched := p :: s.touched, host := h } := by
    rw [bind_apply, hcall]
    exact makeReply_ok (by omega)
  have hreply : handleMakeFile (fcb.request user dma) s =
      .ok (makeFcb (fcb.request user dma)) { s with touched := p :: s.touched, host := h } := by
    rw [handleMakeFile_request user dma hpath]
    exact exceptOsError_ok hbody
  have hslice : (slice (fcb.request user dma) 1 13).length = 12 := by
    rw [length_slice]
    omega
  have hsize : (makeFcb (fcb.request user dma)).length = 34 := by
    simp only [makeFcb, List.length_append, List.length_replicate, hslice, List.length_singleton]
  have hname : fcbName (fcb.request user dma) 1 = fcb.name := Fcb.request_name
  refine ⟨_, _, exchange_ok hreply rfl, ?_, ?_, ?_, ?_⟩
  · exact Fcb.drive_answered _
  · rw [Fcb.name_answered (by omega), ← hname, fcbName]
    congr 1
    rw [makeFcb, slice, List.append_assoc, List.singleton_append, List.take_succ_cons,
      List.drop_succ_cons, List.take_append_of_le_length (by omega), slice, slice,
      List.take_of_length_le (by rw [List.length_drop, List.length_take]; omega), List.drop_drop]
  · have hzero : (makeFcb (fcb.request user dma))[13]? = some 0#8 := by
      rw [makeFcb, List.getElem?_append_right (by simp [hslice])]
      simp [hslice]
    rw [Fcb.ex_answered, field, List.getD_eq_getElem?_getD, hzero]
    rfl
  · have hzero : (makeFcb (fcb.request user dma))[33]? = some 0#8 := by
      rw [makeFcb, List.getElem?_append_right (by simp [hslice])]
      simp [hslice]
    rw [Fcb.cr_answered, field, List.getD_eq_getElem?_getD, hzero]
    rfl

/-- MAKE fails if the path has a NUL, or the host does not open the file. -/
theorem exchange_make_refused (hpath : fcb.path s = some p)
    (hrefused : 0 ∈ p ∨ s.host.openFile .ab p = .error .osError) :
    exchange handleMakeFile user dma fcb s = none := by
  by_cases hnul : 0 ∈ p
  · have hbody : (openFile .ab p >>= fun _ => makeReply (fcb.request user dma)) s =
        .error .valueError s := by
      rw [bind_apply, openFile, call_nul hnul]
    have hreply : handleMakeFile (fcb.request user dma) s = .error .valueError s := by
      rw [handleMakeFile_request user dma hpath]
      exact exceptOsError_valueError hbody
    exact exchange_error hreply
  · have hopen := hrefused.resolve_left hnul
    have hcall : openFile .ab p s = .error .osError { s with touched := p :: s.touched } :=
      call_error hnul hopen
    have hbody : (openFile .ab p >>= fun _ => makeReply (fcb.request user dma)) s =
        .error .osError { s with touched := p :: s.touched } := by
      rw [bind_apply, hcall]
    have hreply : handleMakeFile (fcb.request user dma) s =
        .ok failure { s with touched := p :: s.touched } := by
      rw [handleMakeFile_request user dma hpath]
      exact exceptOsError_caught hbody
    exact exchange_failure hreply

/-- OPEN starts at the first record. -/
theorem exchange_open {f : File} (hat : fcb.At fcb₀ n) (hpath : fcb₀.path s = some p)
    (hnul : 0 ∉ p) (hnode : s.host.node p = .file f) :
    ∃ reply fcb' s', exchange handleOpen user dma fcb s = some (reply, fcb', s') ∧
      fcb'.At fcb₀ 0 ∧ s'.driveDirs = s.driveDirs ∧ s'.host = s.host := by
  have hexists : s.host.node p ≠ .absent := by
    rw [hnode]
    exact Node.noConfusion
  have hsize : s.host.getsize p = .ok (f.bytes.length, s.host) := by
    rw [Host.getsize, hnode]
  have hcall : getsize p { s with touched := p :: s.touched } =
      .ok f.bytes.length { s with touched := p :: p :: s.touched } := call_ok hnul hsize
  have hname := fcb.length_name
  have hreply : handleOpen (fcb.request user dma) s =
      .ok (openFcb (driveOf fcb.drive) fcb.name (recordsOf f.bytes.length))
        { s with touched := p :: p :: s.touched } := by
    rw [handleOpen, withPath_request ((hat.path s).trans hpath), bind_apply, pathExists,
      if_neg hnul]
    simp only [decide_eq_true hexists, if_true, bind_apply, hcall]
    rw [Fcb.request_name, openReply_ok _ _ hname]
  have hlen : (openFcb (driveOf fcb.drive) fcb.name (recordsOf f.bytes.length)).length = 34 := by
    simp [openFcb, hname]
  refine ⟨_, _, _, exchange_ok hreply rfl, ⟨?_, ?_, ?_, ?_⟩, rfl, rfl⟩
  · rw [Fcb.drive_answered, hat.drive]
  · have hmask : ∀ c : Byte, c &&& 0x7F#8 &&& 0x7F#8 = c &&& 0x7F#8 := by
      intro c
      rw [BitVec.and_assoc, BitVec.and_self]
    have hslice : slice (openFcb (driveOf fcb.drive) fcb.name (recordsOf f.bytes.length)) 2 13 =
        fcb.name := by
      rw [openFcb, slice, List.append_assoc, List.append_assoc]
      simp [hname]
    rw [Fcb.name_answered (by omega), hslice, ← hat.name, Fcb.name, List.map_map]
    simp only [Function.comp_def, hmask]
  · rw [Fcb.ex_answered, openFcb, field, List.getD_eq_getElem?_getD]
    simp [hname]
  · rw [Fcb.cr_answered, openFcb, field, List.getD_eq_getElem?_getD]
    simp [hname]

end Opening

/-! ### The round trip -/

section RoundTrip

variable {fcb : Fcb} {user : Byte} {dma : List Byte} {records : List Record}

/-- Without MAKE there is nothing. -/
theorem RoundTrips.make (htrip : RoundTrips user dma records fcb s) :
    exchange handleMakeFile user dma fcb s ≠ none := by
  obtain ⟨fcb', s', hrun, _⟩ := htrip
  intro hmake
  rw [writeAndRead, hmake] at hrun
  exact nomatch hrun

/-- **After MAKE of a file that can be read and written**, the round trip succeeds if and
only if the positions fit and the file is not longer. -/
theorem roundTrips_made {reply bytes : List Byte} {fcb₁ : Fcb} {s₁ : Server}
    (hmake : exchange handleMakeFile user dma fcb s = some (reply, fcb₁, s₁))
    (hat : fcb₁.At fcb 0) (hpath : fcb.path s₁ = some p) (hnul : 0 ∉ p)
    (hnode : s₁.host.node p = .open bytes) :
    RoundTrips user dma records fcb s ↔
      records.length ≤ 32767 ∧ bytes.length ≤ 128 * records.length := by
  unfold RoundTrips writeAndRead
  rw [hmake]
  simp only [Option.bind_eq_bind, Option.bind_some]
  -- in turn: write all, open, read all, and the read behind the last record
  have hstart : s₁.host.node p = .open ([] ++ bytes) := hnode
  by_cases hn : records.length ≤ 32767
  · rw [and_iff_right hn]
    obtain ⟨fcb₂, s₂, hwrite, hat₂, hdirs₂, hnode₂⟩ :=
      writeAll_open user records hat (by omega) hpath hnul hstart rfl
    rw [Nat.zero_add] at hat₂
    rw [List.nil_append] at hnode₂
    have hpath₂ : fcb.path s₂ = some p := (fcb.path_of_dirs hdirs₂).trans hpath
    obtain ⟨reply₃, fcb₃, s₃, hopen, hat₃, hdirs₃, hhost₃⟩ :=
      exchange_open user dma hat₂ hpath₂ hnul hnode₂
    have hpath₃ : fcb.path s₃ = some p := (fcb.path_of_dirs hdirs₃).trans hpath₂
    have hnode₃ : s₃.host.node p =
        .open ([] ++ (contents records ++ bytes.drop (128 * records.length))) := by
      rw [hhost₃, hnode₂, List.nil_append]
    obtain ⟨fcb₄, s₄, hread, hat₄, hdirs₄, hhost₄⟩ :=
      readAll_open user records hat₃ (by omega) hpath₃ hnul hnode₃ rfl
    rw [Nat.zero_add] at hat₄
    have hpath₄ : fcb.path s₄ = some p := (fcb.path_of_dirs hdirs₄).trans hpath₃
    have hnode₄ : s₄.host.node p =
        .open (contents records ++ bytes.drop (128 * records.length)) := by
      rw [hhost₄, hnode₃, List.nil_append]
    have hend := handleReadSeq_end user hat₄ hpath₄ hnul hnode₄ (length_contents records)
    simp only [hwrite, hopen, hread, Option.bind_some, Option.some.injEq, Prod.mk.injEq,
      true_and]
    constructor
    -- old content behind the records would be read as one more
    · rintro ⟨fcb', s', ⟨rfl, rfl⟩, t, hlast, _⟩
      by_contra hlong
      rw [if_neg] at hend
      · exact hend t hlast
      · rw [List.drop_eq_nil_iff]
        exact hlong
    · intro hshort
      have hrest : bytes.drop (128 * records.length) = [] := List.drop_eq_nil_iff.mpr hshort
      rw [if_pos hrest] at hend
      refine ⟨_, _, ⟨rfl, rfl⟩, _, hend, ?_⟩
      rw [hrest, List.append_nil] at hnode₄
      have hcount : recordsOf (contents records).length = records.length := by
        rw [recordsOf, length_contents]
        omega
      have hfile : filePath s₄ (fcb₄.request user []) = some p := by
        obtain ⟨dir, hdir, rfl⟩ := Option.map_eq_some_iff.mp ((hat₄.path s₄).trans hpath₄)
        rw [filePath, selectedDir, Fcb.request_drive, Fcb.request_name, Option.bind_some, hdir]
        rfl
      have hsize := handleFileSize_open (s := { s₄ with touched := p :: s₄.touched }) hfile hnul
        hnode₄ (by omega)
      rw [hcount] at hsize
      exact hsize
  · rw [writeAll_long user records hat (by omega) (by omega) hpath hnul hstart rfl]
    simp only [Option.bind_none]
    constructor
    · rintro ⟨fcb', s', hnone, _⟩
      cases hnone
    · rintro ⟨hsmall, _⟩
      exact absurd hsmall hn

/-- A file that cannot be read fails at the first write, or at the read of its end. -/
theorem roundTrips_unreadable {reply : List Byte} {fcb₁ : Fcb} {s₁ : Server} {f : File}
    (hmake : exchange handleMakeFile user dma fcb s = some (reply, fcb₁, s₁))
    (hat : fcb₁.At fcb 0) (hpath : fcb.path s₁ = some p) (hnul : 0 ∉ p)
    (hnode : s₁.host.node p = .file f) (hunreadable : f.readable = false) :
    ¬ RoundTrips user dma records fcb s := by
  rintro ⟨fcb', s', hrun, t, hlast, _⟩
  rw [writeAndRead, hmake] at hrun
  simp only [Option.bind_eq_bind, Option.bind_some] at hrun
  cases records with
  | nil =>
      -- no record is written, so it is the read at the end that fails
      obtain ⟨reply₂, fcb₂, s₂, hopen, hat₂, hdirs₂, hhost₂⟩ :=
        exchange_open user dma hat hpath hnul hnode
      simp only [writeAll, hopen, Option.bind_some, List.length_nil, readAll, Option.some.injEq,
        Prod.mk.injEq] at hrun
      obtain ⟨_, rfl, rfl⟩ := hrun
      have hpath₂ : fcb₂.path s₂ = some p := by
        rw [hat₂.path, fcb.path_of_dirs hdirs₂]
        exact hpath
      have hrefused : s₂.host.openFile .rb p = .error .osError := by
        rw [Host.openFile, hhost₂, hnode]
        simp only [hunreadable]
        rfl
      have hcall : openFile .rb p s₂ = .error .osError { s₂ with touched := p :: s₂.touched } :=
        call_error hnul hrefused
      rw [handleReadSeq, withPath_request hpath₂] at hlast
      simp only [exceptOsError, bind_apply, hcall, pure_apply] at hlast
      exact absurd (EStateM.Result.ok.inj hlast).1 (by decide)
  | cons data records =>
      -- the first record cannot be written
      have hmode : s₁.host.writeMode p = .update := by
        rw [Host.writeMode, if_pos]
        rw [hnode]
        exact Node.noConfusion
      have hrefused : s₁.host.openFile .update p = .error .osError := by
        rw [Host.openFile, hnode]
        simp only [hunreadable]
        rfl
      have hcall : openForWrite p s₁ =
          .error .osError { s₁ with touched := p :: p :: s₁.touched } := by
        rw [openForWrite_free hnul, hmode]
        exact call_error hnul hrefused
      have hlen : ¬ (fcb₁.request user data.val).length < 37 + 128 := by
        rw [Fcb.length_request, data.property]
        omega
      have hwrite : handleWriteSeq (fcb₁.request user data.val) s₁ =
          .ok failure { s₁ with touched := p :: p :: s₁.touched } := by
        rw [handleWriteSeq, withPath_request ((hat.path s₁).trans hpath)]
        simp only [if_neg hlen, exceptOsError, bind_apply, hcall, pure_apply]
      rw [writeAll, exchange_failure hwrite] at hrun
      cases hrun

/-- **A sequential file** can be written and read back if and only if it has at most 32767
records, and its path accepts them. -/
theorem roundTrips_iff (user : Byte) (dma : List Byte) (records : List Record) (fcb : Fcb)
    (s : Server) :
    RoundTrips user dma records fcb s ↔
      records.length ≤ 32767 ∧
        ∃ path, fcb.path s = some path ∧ 0 ∉ path ∧ Accepts s.host path records.length := by
  cases hpath : fcb.path s with
  | none =>
      refine iff_of_false (fun htrip => htrip.make ?_) ?_
      · exact exchange_failure ((withPath_request_none hpath))
      · rintro ⟨_, path, hnone, _⟩
        exact nomatch hnone
  | some path =>
      simp only [Option.some.injEq, exists_eq_left']
      by_cases hnul : 0 ∈ path
      · refine iff_of_false (fun htrip => htrip.make ?_) (fun hfree => hfree.2.1 hnul)
        exact exchange_make_refused user dma hpath (.inl hnul)
      rw [and_iff_right hnul]
      have hrefused : s.host.openFile .ab path = .error .osError →
          ¬ RoundTrips user dma records fcb s := by
        intro hopen htrip
        exact htrip.make (exchange_make_refused user dma hpath (.inr hopen))
      cases hnode : s.host.node path with
      | absent =>
          unfold Accepts
          simp only [hnode]
          by_cases hadmits : s.host.admits path = true
          · have hopen : s.host.openFile .ab path = .ok ([], s.host.create path) := by
              unfold Host.openFile
              simp only [hnode, if_pos hadmits]
            obtain ⟨reply, fcb₁, hmake, hat⟩ :=
              exchange_make user dma hpath hnul hopen
            rw [roundTrips_made hmake hat hpath hnul create_own]
            simp only [hadmits, List.length_nil, Nat.zero_le]
          · refine iff_of_false (hrefused ?_) (fun haccepts => hadmits haccepts.2)
            unfold Host.openFile
            simp only [hnode, if_neg hadmits]
      | directory size =>
          unfold Accepts
          simp only [hnode, and_false, iff_false]
          refine hrefused ?_
          unfold Host.openFile
          simp only [hnode]
      | file f =>
          unfold Accepts
          simp only [hnode]
          obtain ⟨bytes, readable, writable⟩ := f
          cases writable with
          | false =>
              refine iff_of_false (hrefused ?_) (fun haccepts => nomatch haccepts.2.2.1)
              unfold Host.openFile
              simp only [hnode]
              rfl
          | true =>
              have hopen : s.host.openFile .ab path = .ok (bytes, s.host) := by
                unfold Host.openFile
                simp only [hnode, if_true]
              obtain ⟨reply, fcb₁, hmake, hat⟩ :=
                exchange_make user dma hpath hnul hopen
              cases readable with
              | false =>
                  refine iff_of_false ?_ (fun haccepts => nomatch haccepts.2.1)
                  exact roundTrips_unreadable hmake hat hpath hnul hnode rfl
              | true =>
                  rw [roundTrips_made hmake hat hpath hnul hnode]
                  simp only [true_and]

end RoundTrip

/-- The FCB of `FOO.TXT` on the first drive. -/
def fooFcb : Fcb where
  bytes := fooRequest.drop 1
  length := by decide

/-- A new file of 32768 records. -/
theorem longFile_fails :
    ¬ ∀ (user : Byte) (dma : List Byte) (records : List Record) (fcb : Fcb) (s : Server)
      (path : Text), records.length ≤ 65536 → fcb.path s = some path → 0 ∉ path →
        s.host.node path = .absent → s.host.admits path = true →
        RoundTrips user dma records fcb s := by
  intro hclaim
  let full : Record := ⟨List.replicate 128 0xE5#8, List.length_replicate⟩
  have hlength : (List.replicate 32768 full).length = 32768 := List.length_replicate
  have hpath : fooFcb.path emptyServer = some (text "/srv/FOO.TXT") := by decide
  have hnul : 0 ∉ text "/srv/FOO.TXT" := by decide
  have habsent : emptyServer.host.node (text "/srv/FOO.TXT") = .absent := by decide
  have htrip := hclaim 0#8 [] (List.replicate 32768 full) fooFcb emptyServer
    (text "/srv/FOO.TXT") (by omega) hpath hnul habsent rfl
  have hopen : emptyServer.host.openFile .ab (text "/srv/FOO.TXT") =
      .ok ([], emptyServer.host.create (text "/srv/FOO.TXT")) := by
    unfold Host.openFile
    rw [habsent]
    rfl
  obtain ⟨reply, fcb₁, hmake, hat⟩ := exchange_make 0#8 [] hpath hnul hopen
  have hfits := ((roundTrips_made hmake hat hpath hnul create_own).mp htrip).1
  omega

end CpNet
end Rc700
