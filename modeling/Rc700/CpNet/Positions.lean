import Rc700.CpNet.RoundTrip

/-!
# The position after a random access

READ RANDOM and the two random writes leave EX and CR of the FCB at the record that they
access, from which a READ SEQ goes on.  EX is taken modulo 32 there, and READ SEQ does not
look at S2, so that the position is that of the record modulo 4096 (`accessed_at`).
-/

namespace Rc700
namespace CpNet

open Library PathText CpNet.Action

variable {s s' : Server} {p : Text} {fcb fcb' : Fcb} {user : Byte} {rest : List Byte}

/-! ### Random accesses -/

inductive RandomAccess
  | read
  | write
  | writeZeroFill
  deriving DecidableEq, Repr

/-- The handler of the access. -/
def RandomAccess.handle : RandomAccess → List Byte → Action (List Byte)
  | .read => handleReadRand
  | .write => handleWriteRand
  | .writeZeroFill => handleWriteRandZf

/-- What the file holds after the access. -/
def RandomAccess.leaves (access : RandomAccess) (bytes : List Byte) (record : Nat)
    (data : List Byte) : List Byte :=
  match access with
  | .read => bytes
  | .write => pwrite 0#8 bytes (record * 128) data
  | .writeZeroFill => pwrite 0#8 bytes (record * 128) data

/-- The random record number of an FCB. -/
def Fcb.random (fcb : Fcb) : Nat := randomRecord (fcb.request 0#8 [])

/-- What the host holds under a path. -/
def Host.bytes (h : Host) (p : Text) : List Byte :=
  match h.node p with
  | .file f => f.bytes
  | _ => []

/-- What the file of an FCB holds. -/
def Fcb.file (fcb : Fcb) (s : Server) : List Byte := ((fcb.path s).map s.host.bytes).getD []

/-- A record of a file, as it is read. -/
def recordOf (bytes : List Byte) (n : Nat) : List Byte := padRecord (pread bytes (n * 128) 128)

/-- READ SEQ reads that record of the file: what it delivers is the record, and the FCB that it
returns is at the next one. -/
def ReadsRecord (user : Byte) (fcb : Fcb) (s : Server) (n : Nat) : Prop :=
  ∃ reply fcb' s', exchange handleReadSeq user [] fcb s = some (reply, fcb', s') ∧
    fcb'.At fcb (n + 1) ∧ reply.drop 37 = recordOf (fcb.file s) n

/-! ### Computations that succeed -/

theorem bind_ok {α β : Type} {m : Action α} {f : α → Action β} {b : β}
    (hrun : (m >>= f) s = .ok b s') : ∃ a t, m s = .ok a t ∧ f a t = .ok b s' := by
  rw [bind_apply] at hrun
  cases hm : m s with
  | ok a t =>
      rw [hm] at hrun
      exact ⟨a, t, rfl, hrun⟩
  | error e t =>
      rw [hm] at hrun
      exact nomatch hrun

/-- A success does not come of the handler of an exception. -/
theorem exceptOsError_success {body : Action (List Byte)} {reply : List Byte}
    (hrun : exceptOsError body (pure failure) s = .ok reply s') (hcode : reply[0]? = some 0#8) :
    body s = .ok reply s' := by
  unfold exceptOsError at hrun
  split at hrun
  · obtain ⟨rfl, -⟩ := EStateM.Result.ok.inj hrun
    exact absurd hcode (by decide)
  · exact hrun

theorem exchange_some {handle : List Byte → Action (List Byte)} {reply : List Byte}
    (h : exchange handle user rest fcb s = some (reply, fcb', s')) :
    handle (fcb.request user rest) s = .ok reply s' ∧ reply[0]? = some 0#8 ∧
      fcb' = fcb.answered reply := by
  unfold exchange at h
  cases hrun : handle (fcb.request user rest) s with
  | ok r t =>
      rw [hrun] at h
      dsimp only at h
      by_cases hcode : r[0]? = some 0#8
      · rw [if_pos hcode] at h
        obtain ⟨rfl, rfl, rfl⟩ := h
        exact ⟨rfl, hcode, rfl⟩
      · rw [if_neg hcode] at h
        exact nomatch h
  | error e t =>
      rw [hrun] at h
      exact nomatch h

/-- A request that succeeds names a path. -/
theorem withPath_success {body : Nat → Text → Action (List Byte)} {reply : List Byte}
    (hrun : withPath (fcb.request user rest) body s = .ok reply s')
    (hcode : reply[0]? = some 0#8) :
    ∃ p, fcb.path s = some p ∧ body (driveOf fcb.drive) p s = .ok reply s' := by
  cases hpath : fcb.path s with
  | some p =>
      rw [withPath_request hpath] at hrun
      exact ⟨p, rfl, hrun⟩
  | none =>
      rw [withPath_request_none hpath] at hrun
      obtain ⟨rfl, -⟩ := EStateM.Result.ok.inj hrun
      exact absurd hcode (by decide)

theorem call_success {α : Type} {op : Host → Except PyError (α × Host)} {a : α}
    (hrun : call [p] op s = .ok a s') :
    0 ∉ p ∧ op s.host = .ok (a, s'.host) ∧ s'.driveDirs = s.driveDirs := by
  have hnul : 0 ∉ p := by
    intro hnul
    rw [call_nul hnul] at hrun
    exact nomatch hrun
  cases hop : op s.host with
  | ok result =>
      rw [call_ok hnul hop] at hrun
      obtain ⟨rfl, rfl⟩ := EStateM.Result.ok.inj hrun
      exact ⟨hnul, rfl, rfl⟩
  | error e =>
      rw [call_error hnul hop] at hrun
      exact nomatch hrun

theorem bytes_file {h : Host} {f : File} (hnode : h.node p = .file f) : h.bytes p = f.bytes := by
  rw [Host.bytes, hnode]

/-- Opening for reading. -/
theorem openFile_rb {h h' : Host} {bytes : List Byte} (hopen : h.openFile .rb p = .ok (bytes, h')) :
    h' = h ∧ ∃ f, h.node p = .file f ∧ f.readable = true ∧ f.bytes = bytes := by
  unfold Host.openFile at hopen
  cases hnode : h.node p with
  | absent =>
      rw [hnode] at hopen
      exact nomatch hopen
  | directory size =>
      rw [hnode] at hopen
      exact nomatch hopen
  | file f =>
      rw [hnode] at hopen
      dsimp only at hopen
      by_cases hreadable : f.readable = true
      · rw [if_pos hreadable] at hopen
        obtain ⟨rfl, rfl⟩ := Prod.mk.inj (Except.ok.inj hopen)
        exact ⟨rfl, f, rfl, hreadable, rfl⟩
      · rw [if_neg hreadable] at hopen
        exact nomatch hopen

/-- Opening for writing leaves a file that can be read. -/
theorem openForWrite_success {bytes : List Byte} (hrun : openForWrite p s = .ok bytes s') :
    0 ∉ p ∧ s'.driveDirs = s.driveDirs ∧ bytes = s.host.bytes p ∧
      ∃ f, s'.host.node p = .file f ∧ f.readable = true := by
  have hnul : 0 ∉ p := by
    intro hnul
    rw [openForWrite_nul hnul] at hrun
    exact nomatch hrun
  rw [openForWrite_free hnul] at hrun
  obtain ⟨-, hopen, hdirs⟩ := call_success hrun
  refine ⟨hnul, hdirs, ?_⟩
  -- which mode is used depends on whether the file is there
  unfold Host.writeMode Host.openFile at hopen
  dsimp only at hopen
  cases hnode : s.host.node p with
  | absent =>
      rw [hnode, if_neg (not_not_intro rfl)] at hopen
      dsimp only at hopen
      by_cases hadmits : s.host.admits p = true
      · rw [if_pos hadmits] at hopen
        obtain ⟨rfl, hhost⟩ := Prod.mk.inj (Except.ok.inj hopen)
        rw [← hhost, create_own, Host.bytes, hnode]
        exact ⟨rfl, _, rfl, rfl⟩
      · rw [if_neg hadmits] at hopen
        exact nomatch hopen
  | directory size =>
      rw [hnode] at hopen
      exact nomatch hopen
  | file f =>
      have hthere : Node.file f ≠ .absent := Node.noConfusion
      rw [hnode, if_pos hthere] at hopen
      dsimp only at hopen
      by_cases hboth : (f.readable && f.writable) = true
      · rw [if_pos hboth] at hopen
        obtain ⟨rfl, hhost⟩ := Prod.mk.inj (Except.ok.inj hopen)
        rw [← hhost, hnode, bytes_file hnode]
        exact ⟨rfl, f, rfl, (Bool.and_eq_true_iff.mp hboth).1⟩
      · rw [if_neg hboth] at hopen
        exact nomatch hopen

/-! ### The position -/

theorem random_request (fcb : Fcb) (user : Byte) (rest : List Byte) :
    randomRecord (fcb.request user rest) = fcb.random := by
  unfold Fcb.random randomRecord
  rw [Fcb.field_request (by omega), Fcb.field_request (by omega), Fcb.field_request (by omega),
    Fcb.field_request (by omega), Fcb.field_request (by omega), Fcb.field_request (by omega)]

/-- What holds after a random access that succeeds. -/
structure Accessed (access : RandomAccess) (data : List Byte) (fcb : Fcb) (s : Server)
    (fcb' : Fcb) (s' : Server) : Prop where
  position : fcb'.At fcb (fcb.random % 4096)
  drives : s'.driveDirs = s.driveDirs
  file : ∃ p f, fcb.path s = some p ∧ 0 ∉ p ∧ s'.host.node p = .file f ∧ f.readable = true ∧
    f.bytes = access.leaves (fcb.file s) fcb.random data ∧ fcb.random * 128 < f.bytes.length

theorem file_path (hpath : fcb.path s = some p) : fcb.file s = s.host.bytes p := by
  rw [Fcb.file, hpath]
  rfl

theorem echoAt_random (payload : List Byte) (record : Nat) :
    echoAt payload (record / 128 % 32) (record % 128) =
      echoAt payload (record % 4096 / 128) (record % 4096 % 128) := by
  have hex : record % 4096 / 128 = record / 128 % 32 := by omega
  have hcr : record % 4096 % 128 = record % 128 := by omega
  rw [hex, hcr]

/-- **READ RANDOM** leaves the FCB at the record modulo 4096. -/
theorem read_accessed {reply : List Byte} {data : List Byte}
    (h : exchange handleReadRand user rest fcb s = some (reply, fcb', s')) :
    Accessed .read data fcb s fcb' s' := by
  obtain ⟨hrun, hcode, rfl⟩ := exchange_some h
  obtain ⟨p, hpath, hbody⟩ := withPath_success hrun hcode
  dsimp only at hbody
  have hlen : ¬(fcb.request user rest).length < 37 := by
    rw [Fcb.length_request]
    omega
  rw [if_neg hlen, random_request] at hbody
  obtain ⟨bytes, t, hopen, hread⟩ := bind_ok (exceptOsError_success hbody hcode)
  obtain ⟨hnul, hopened, hdirs⟩ := call_success hopen
  obtain ⟨hsame, f, hnode, hreadable, rfl⟩ := openFile_rb hopened
  by_cases hend : pread f.bytes (fcb.random * 128) 128 = []
  · rw [if_pos hend] at hread
    obtain ⟨rfl, -⟩ := EStateM.Result.ok.inj hread
    exact absurd hcode (by decide)
  rw [if_neg hend, readReply_ok _ _ (by omega) (by omega)] at hread
  obtain ⟨rfl, rfl⟩ := EStateM.Result.ok.inj hread
  refine ⟨?_, hdirs, p, f, hpath, hnul, ?_, hreadable, ?_, ?_⟩
  · rw [echoAt_random]
    exact Fcb.answered_at fcb user rest _ (by omega)
  · rw [hsame, hnode]
  · rw [file_path hpath, bytes_file hnode]
    rfl
  · exact Nat.lt_of_not_le fun hle => hend ((pread_eq_nil (by decide)).mpr hle)

/-- **The random writes** do as well. -/
theorem write_accessed {reply : List Byte} {access : RandomAccess} (haccess : access ≠ .read)
    (h : exchange access.handle user rest fcb s = some (reply, fcb', s')) :
    Accessed access (rest.take 128) fcb s fcb' s' := by
  have hwrite : access.handle = handleWriteRand := by
    cases access with
    | read => exact absurd rfl haccess
    | write => rfl
    | writeZeroFill => exact writeRandZf_eq
  rw [hwrite] at h
  obtain ⟨hrun, hcode, rfl⟩ := exchange_some h
  obtain ⟨p, hpath, hbody⟩ := withPath_success hrun hcode
  dsimp only at hbody
  have hlen : ¬(fcb.request user rest).length < 37 := by
    rw [Fcb.length_request]
    omega
  rw [if_neg hlen] at hbody
  -- a request without a whole record is refused, against what is assumed
  by_cases hshort : (fcb.request user rest).length < 37 + 128
  · rw [if_pos hshort] at hbody
    obtain ⟨rfl, -⟩ := EStateM.Result.ok.inj hbody
    exact absurd hcode (by decide)
  rw [if_neg hshort, random_request] at hbody
  have hdata : slice (fcb.request user rest) 37 (37 + 128) = rest.take 128 := by
    have hfcb := fcb.length
    have hfront : (user :: fcb.bytes).length = 37 := by
      rw [List.length_cons, hfcb]
    rw [slice, Fcb.request, ← hfront, List.take_length_add_append, List.drop_left]
  have hfull : (rest.take 128).length = 128 := by
    rw [Fcb.length_request] at hshort
    rw [List.length_take]
    omega
  rw [hdata] at hbody
  obtain ⟨bytes, t, hopen, hfill⟩ := bind_ok (exceptOsError_success hbody hcode)
  obtain ⟨hnul, hdirs, hbytes, f, hnode, hreadable⟩ := openForWrite_success hopen
  obtain ⟨_, t', hfilled, hreply⟩ := bind_ok hfill
  rw [writeRandReply_ok] at hreply
  obtain ⟨rfl, rfl⟩ := EStateM.Result.ok.inj hreply
  obtain ⟨-, rfl⟩ := EStateM.Result.ok.inj hfilled
  -- what the two functions leave is the same
  have hleaves : access.leaves (fcb.file s) fcb.random (rest.take 128) =
      pwrite 0#8 bytes (fcb.random * 128) (rest.take 128) := by
    rw [file_path hpath, ← hbytes]
    cases access with
    | read => exact absurd rfl haccess
    | write => rfl
    | writeZeroFill => rfl
  refine ⟨?_, hdirs, p, { f with
    bytes := pwrite 0#8 bytes (fcb.random * 128) (rest.take 128) }, hpath, hnul, ?_, hreadable,
    hleaves.symm, ?_⟩
  · have hat := Fcb.answered_at fcb user rest [] (n := fcb.random % 4096) (by omega)
    rw [List.append_nil, ← echoAt_random] at hat
    exact hat
  · show (t.host.fill p _).node p = _
    rw [Host.fill, hnode]
    exact Function.update_self _ _ _
  · have hne : rest.take 128 ≠ [] := by
      intro hnil
      rw [hnil] at hfull
      cases hfull
    show _ < (pwrite 0#8 bytes (fcb.random * 128) (rest.take 128)).length
    rw [length_pwrite _ _ _ hne, hfull]
    omega

theorem accessed_at {access : RandomAccess} {reply : List Byte}
    (h : exchange access.handle user rest fcb s = some (reply, fcb', s')) :
    Accessed access (rest.take 128) fcb s fcb' s' := by
  cases access with
  | read => exact read_accessed h
  | write => exact write_accessed RandomAccess.noConfusion h
  | writeZeroFill => exact write_accessed RandomAccess.noConfusion h

/-! ### READ SEQ -/

theorem openFile_readable {f : File} (hnul : 0 ∉ p) (hnode : s.host.node p = .file f)
    (hreadable : f.readable = true) :
    openFile .rb p s = .ok f.bytes { s with touched := p :: s.touched } := by
  have hopen : s.host.openFile .rb p = .ok (f.bytes, s.host) := by
    rw [Host.openFile, hnode]
    dsimp only
    rw [if_pos hreadable]
  exact call_ok hnul hopen

/-- READ SEQ at a position within the file. -/
theorem exchange_readSeq (user : Byte) {fcb₀ : Fcb} {n : Nat} {f : File} (hat : fcb.At fcb₀ n)
    (hn : n < 32767)
    (hpath : fcb.path s = some p) (hnul : 0 ∉ p) (hnode : s.host.node p = .file f)
    (hreadable : f.readable = true) (hin : n * 128 < f.bytes.length) :
    ∃ reply fcb' s', exchange handleReadSeq user [] fcb s = some (reply, fcb', s') ∧
      fcb'.At fcb (n + 1) ∧ reply.drop 37 = recordOf f.bytes n := by
  have hcall := openFile_readable hnul hnode hreadable
  have hdata : pread f.bytes (n * 128) 128 ≠ [] := by
    rw [Ne, pread_eq_nil (by decide)]
    omega
  -- EX and CR together give the number of the record again
  have hoffset : (field (fcb.request user []) 13 * 128 + field (fcb.request user []) 33) * 128 =
      n * 128 := by
    rw [hat.offset, Nat.mul_comm]
  have hlen : (padRecord (pread f.bytes (n * 128) 128)).length = 128 := by
    rw [padRecord, List.length_append, List.length_replicate, pread, List.length_take]
    omega
  have hreply : handleReadSeq (fcb.request user []) s =
      .ok (echoAt (fcb.request user []) ((n + 1) / 128) ((n + 1) % 128) ++ recordOf f.bytes n)
        { s with touched := p :: s.touched } := by
    rw [handleReadSeq, withPath_request hpath]
    dsimp only
    refine exceptOsError_ok ?_
    rw [hoffset, hat.field_ex, hat.field_cr, advance_position, bind_apply, hcall]
    dsimp only
    rw [if_neg hdata, readReply_ok _ _ (by omega) (by omega)]
    rfl
  exact ⟨_, _, _, exchange_ok hreply (echoAt_code _ _ _ _),
    Fcb.answered_at fcb user [] _ (by omega), (readReply_delivers _ _ _ hlen).2.2⟩

/-- READ RANDOM of a record that the file contains. -/
theorem exchange_readRand (user : Byte) (rest : List Byte) {f : File}
    (hpath : fcb.path s = some p) (hnul : 0 ∉ p)
    (hnode : s.host.node p = .file f) (hreadable : f.readable = true)
    (hin : fcb.random * 128 < f.bytes.length) :
    ∃ reply fcb' s', exchange handleReadRand user rest fcb s = some (reply, fcb', s') := by
  have hcall := openFile_readable hnul hnode hreadable
  have hdata : pread f.bytes (fcb.random * 128) 128 ≠ [] := by
    rw [Ne, pread_eq_nil (by decide)]
    omega
  have hlen : ¬(fcb.request user rest).length < 37 := by
    rw [Fcb.length_request]
    omega
  have hreply : handleReadRand (fcb.request user rest) s =
      .ok (echoAt (fcb.request user rest) (fcb.random / 128 % 32) (fcb.random % 128) ++
        recordOf f.bytes fcb.random) { s with touched := p :: s.touched } := by
    rw [handleReadRand, withPath_request hpath]
    dsimp only
    rw [if_neg hlen, random_request]
    refine exceptOsError_ok ?_
    rw [bind_apply, hcall]
    dsimp only
    rw [if_neg hdata, readReply_ok _ _ (by omega) (by omega)]
    rfl
  exact ⟨_, _, _, exchange_ok hreply (echoAt_code _ _ _ _)⟩

/-- An FCB is at one record. -/
theorem Fcb.At.unique {fcb₀ : Fcb} {m n : Nat} (hm : fcb.At fcb₀ m) (hn : fcb.At fcb₀ n) :
    m = n := by
  have hex : m / 128 = n / 128 := hm.ex.symm.trans hn.ex
  have hcr : m % 128 = n % 128 := hm.cr.symm.trans hn.cr
  omega

/-- The READ SEQ after a random access reads the record modulo 4096. -/
theorem readSeq_after (access : RandomAccess) {reply : List Byte} (user' : Byte)
    (h : exchange access.handle user rest fcb s = some (reply, fcb', s')) :
    ReadsRecord user' fcb' s' (fcb.random % 4096) := by
  obtain ⟨hat, hdrives, p, f, hpath, hnul, hnode, hreadable, -, hin⟩ := accessed_at h
  have hpath' : fcb'.path s' = some p := by
    rw [hat.path, fcb.path_of_dirs hdrives]
    exact hpath
  have hfile : fcb'.file s' = f.bytes := by
    rw [file_path hpath', bytes_file hnode]
  have hlow : fcb.random % 4096 * 128 < f.bytes.length := by
    have hmod := Nat.mod_le fcb.random 4096
    omega
  rw [ReadsRecord, hfile]
  exact exchange_readSeq user' hat (by omega) hpath' hnul hnode hreadable hlow

/-- READ SEQ reads one record. -/
theorem ReadsRecord.unique {m n : Nat} (hm : ReadsRecord user fcb s m)
    (hn : ReadsRecord user fcb s n) : m = n := by
  obtain ⟨reply, next, t, hread, hat, -⟩ := hm
  obtain ⟨reply', next', t', hread', hat', -⟩ := hn
  rw [hread] at hread'
  obtain ⟨-, rfl, -⟩ := Option.some.inj hread'
  exact Nat.succ.inj (hat.unique hat')

/-- **READ SEQ goes on from a random access**, of any kind, exactly where the record is one of
the first 4096. -/
theorem random_position_iff (access : RandomAccess) (user user' : Byte) (rest : List Byte)
    (fcb : Fcb) (s : Server) {reply : List Byte} {fcb' : Fcb} {s' : Server}
    (h : exchange access.handle user rest fcb s = some (reply, fcb', s')) :
    ReadsRecord user' fcb' s' fcb.random ↔ fcb.random < 4096 := by
  have hafter := readSeq_after access user' h
  constructor
  · intro hreads
    have hsame : fcb.random = fcb.random % 4096 := hreads.unique hafter
    omega
  · intro hlow
    rwa [Nat.mod_eq_of_lt hlow] at hafter

/-- A server with one file. -/
def oneFile (bytes : List Byte) : Server :=
  { emptyServer with
    host :=
      { node := fun p => if p = text "/srv/FOO.TXT" then .file ⟨bytes, true, true⟩ else .absent
        listing := fun _ => []
        admits := fun _ => true } }

/-- The FCB of the file, at a random record. -/
def randomFcb (r0 r1 : Byte) : Fcb where
  bytes := [1#8] ++ (text "FOO     TXT").map (BitVec.ofNat 8) ++ List.replicate 21 0#8 ++
    [r0, r1, 0#8]
  length := by rfl

theorem oneFile_node (bytes : List Byte) :
    (oneFile bytes).host.node (text "/srv/FOO.TXT") = .file ⟨bytes, true, true⟩ := by
  show (if text "/srv/FOO.TXT" = text "/srv/FOO.TXT" then Node.file ⟨bytes, true, true⟩
    else .absent) = _
  exact if_pos rfl

theorem oneFile_path (bytes : List Byte) (fcb : Fcb) :
    fcb.path (oneFile bytes) = fcb.path emptyServer := rfl

theorem random_position_first : ∃ reply fcb' s',
    exchange handleReadRand 0#8 [] (randomFcb 0#8 0#8) (oneFile [0x01#8]) =
        some (reply, fcb', s') ∧
      (ReadsRecord 0#8 fcb' s' (randomFcb 0#8 0#8).random ↔
        (randomFcb 0#8 0#8).random < 4096) := by
  have hrandom : (randomFcb 0#8 0#8).random = 0 := by decide
  have hpath : (randomFcb 0#8 0#8).path (oneFile [0x01#8]) = some (text "/srv/FOO.TXT") :=
    (oneFile_path _ _).trans (by decide)
  obtain ⟨reply, fcb', s', h⟩ := exchange_readRand 0#8 [] hpath (by decide)
    (oneFile_node [0x01#8]) rfl (hrandom ▸ Nat.one_pos)
  exact ⟨reply, fcb', s', h,
    random_position_iff .read 0#8 0#8 [] (randomFcb 0#8 0#8) (oneFile [0x01#8]) h⟩

/-- In a file of 4097 records the first is read in place of the last. -/
theorem random_position_lost : ¬∀ (access : RandomAccess) (user user' : Byte) (rest : List Byte)
    (fcb : Fcb) (s : Server) (reply : List Byte) (fcb' : Fcb) (s' : Server),
    exchange access.handle user rest fcb s = some (reply, fcb', s') → fcb.random < 65536 →
      ReadsRecord user' fcb' s' fcb.random := by
  intro hall
  have hrandom : (randomFcb 0#8 16#8).random = 4096 := by decide
  obtain ⟨bytes, hbytes⟩ : ∃ bytes : List Byte,
      bytes = List.replicate (4096 * 128) 0x00#8 ++ [0x01#8] := ⟨_, rfl⟩
  have hlen : bytes.length = 4096 * 128 + 1 := by
    rw [hbytes, List.length_append, List.length_replicate]
    rfl
  have hpath : (randomFcb 0#8 16#8).path (oneFile bytes) = some (text "/srv/FOO.TXT") :=
    (oneFile_path _ _).trans (by decide)
  obtain ⟨reply, fcb', s', h⟩ := exchange_readRand 0#8 [] hpath (by decide)
    (oneFile_node bytes) rfl (by
      rw [hrandom, hlen]
      exact Nat.lt_succ_self _)
  have hreads := hall .read 0#8 0#8 [] _ _ _ _ _ h (by rw [hrandom]; decide)
  have hsame : 4096 = 4096 % 4096 := by
    have hunique := hreads.unique (readSeq_after .read 0#8 h)
    rwa [hrandom] at hunique
  exact absurd hsame (by decide)

end CpNet
end Rc700
