import Rc700.CpNet.Server

/-!
# What the handlers do

The replies of the handlers are byte arrays that are filled in place; a store raises if
its place is beyond the array or its value is no byte.  Each reply is characterised once:
when it is complete, and what it holds then.  The same is done for opening a file, which
succeeds or fails with `OSError` if the path has no NUL.
-/

namespace Rc700
namespace CpNet

open Library PathText CpNet.Action

variable {upper : Nat → Text} {payload : List Byte} {s : Server} {p : Text}

/-- The server after a computation, whether it returned or raised. -/
def after {α : Type} : EStateM.Result PyError Server α → Server
  | .ok _ s => s
  | .error _ s => s

/-! ### Stores -/

theorem store_ok {resp : List Byte} {i v : Nat} (hi : i < resp.length) (hv : v < 256) :
    store resp i v s = .ok (resp.set i (BitVec.ofNat 8 v)) s := by
  rw [store, if_neg (Nat.not_le.mpr hi), if_neg (Nat.not_le.mpr hv)]
  rfl

theorem store_short {resp : List Byte} {i v : Nat} (hi : resp.length ≤ i) :
    store resp i v s = .error .indexError s := by
  rw [store, if_pos hi]
  rfl

theorem store_large {resp : List Byte} {i v : Nat} (hi : i < resp.length) (hv : 256 ≤ v) :
    store resp i v s = .error .valueError s := by
  rw [store, if_neg (Nat.not_le.mpr hi), if_pos hv]
  rfl

theorem length_splice {resp data : List Byte} {i j : Nat} (hi : i ≤ resp.length) :
    (splice resp i j data).length = i + data.length + (resp.length - j) := by
  simp only [splice, List.length_append, List.length_take, List.length_drop]
  omega

theorem length_slice (payload : List Byte) (i j : Nat) :
    (slice payload i j).length = min j payload.length - i := by
  simp only [slice, List.length_drop, List.length_take]

theorem length_fcbName (payload : List Byte) (offset : Nat) :
    (fcbName payload offset).length = min (offset + 12) payload.length - (offset + 1) := by
  rw [fcbName, List.length_map, length_slice]

/-- A store that is made, and what follows it. -/
theorem store_bind_ok {β : Type} {resp : List Byte} {i v : Nat} {f : List Byte → Action β}
    (hi : i < resp.length) (hv : v < 256) :
    (store resp i v >>= f) s = f (resp.set i (BitVec.ofNat 8 v)) s := by
  rw [bind_apply, store_ok hi hv]

/-! ### Replies -/

/-- The reply of OPEN. -/
def openFcb (drive : Nat) (name : List Byte) (records : Nat) : List Byte :=
  [0#8, BitVec.ofNat 8 ((drive + 1) % 256)] ++ name ++
    [0#8, 0#8, 0#8, BitVec.ofNat 8 (min records 128)] ++ List.replicate 17 0#8

theorem openReply_ok (drive : Nat) {name : List Byte} (records : Nat) (hname : name.length = 11) :
    openReply drive name records s = .ok (openFcb drive name records) s := by
  have hmod : (drive + 1) % 256 < 256 := Nat.mod_lt _ (by omega)
  match name, hname with
  | [a, b, c, d, e, f, g, h, i, j, k], _ =>
      unfold openReply
      rw [store_bind_ok (by simp) (by omega), store_bind_ok (by simp) hmod]
      rw [store_bind_ok (by simp [splice, slice]) (by omega),
        store_bind_ok (by simp [splice, slice]) (by omega),
        store_bind_ok (by simp [splice, slice]) (by omega),
        store_bind_ok (by simp [splice, slice]) (by omega),
        store_ok (by simp [splice, slice]) (by omega)]
      rfl

theorem openReply_short (drive : Nat) {name : List Byte} (records : Nat)
    (hname : name.length < 11) : openReply drive name records s = .error .indexError s := by
  have hmod : (drive + 1) % 256 < 256 := Nat.mod_lt _ (by omega)
  have hlen : ∀ resp : List Byte, resp.length = 34 →
      (splice resp 2 13 (slice name 0 11)).length = 23 + name.length := by
    intro resp hresp
    rw [length_splice (by omega), length_slice, hresp]
    omega
  unfold openReply
  rw [store_bind_ok (by simp) (by omega), store_bind_ok (by simp) hmod]
  rw [store_bind_ok (by rw [hlen _ (by simp)]; omega) (by omega),
    store_bind_ok (by rw [List.length_set, hlen _ (by simp)]; omega) (by omega),
    store_bind_ok (by simp only [List.length_set]; rw [hlen _ (by simp)]; omega) (by omega),
    store_bind_ok (by simp only [List.length_set]; rw [hlen _ (by simp)]; omega) (by omega)]
  -- the name is short, and with it the array
  exact store_short (by simp only [List.length_set]; rw [hlen _ (by simp)]; omega)

/-- The reply of MAKE. -/
def makeFcb (payload : List Byte) : List Byte :=
  [0#8] ++ slice payload 1 13 ++ List.replicate 21 0#8

theorem makeReply_ok (hlen : 13 ≤ payload.length) :
    makeReply payload s = .ok (makeFcb payload) s := by
  have hslice : (slice payload 1 13).length = 12 := by
    rw [length_slice]
    omega
  unfold makeReply makeFcb
  generalize slice payload 1 13 = fcb at hslice ⊢
  match fcb, hslice with
  | [a, b, c, d, e, f, g, h, i, j, k, l], _ =>
      rw [store_bind_ok (by simp) (by omega)]
      rw [store_bind_ok (by simp [splice]) (by omega), store_bind_ok (by simp [splice]) (by omega),
        store_bind_ok (by simp [splice]) (by omega), store_bind_ok (by simp [splice]) (by omega),
        store_ok (by simp [splice]) (by omega)]
      rfl

theorem makeReply_short (hlen : payload.length < 13)
    (hcode : 1 < payload.length) : makeReply payload s = .error .indexError s := by
  have hsplice : ∀ resp : List Byte, resp.length = 34 →
      (splice resp 1 13 (slice payload 1 13)).length = 21 + payload.length := by
    intro resp hresp
    rw [length_splice (by omega), length_slice, hresp]
    omega
  unfold makeReply
  rw [store_bind_ok (by simp) (by omega)]
  rw [store_bind_ok (by rw [hsplice _ (by simp)]; omega) (by omega),
    store_bind_ok (by rw [List.length_set, hsplice _ (by simp)]; omega) (by omega),
    store_bind_ok (by simp only [List.length_set]; rw [hsplice _ (by simp)]; omega) (by omega),
    store_bind_ok (by simp only [List.length_set]; rw [hsplice _ (by simp)]; omega) (by omega)]
  exact store_short (by simp only [List.length_set]; rw [hsplice _ (by simp)]; omega)

/-- The drive and the FCB of a request after a return code, filled up to 37 bytes. -/
def echoFcb (payload : List Byte) : List Byte :=
  [0#8] ++ slice payload 1 37 ++ List.replicate (36 - (slice payload 1 37).length) 0#8

/-- The same at a position. -/
def echoAt (payload : List Byte) (ex cr : Nat) : List Byte :=
  ((echoFcb payload).set 13 (BitVec.ofNat 8 ex)).set 33 (BitVec.ofNat 8 cr)

theorem length_echoFcb (payload : List Byte) : (echoFcb payload).length = 37 := by
  have hslice : (slice payload 1 37).length ≤ 36 := by
    rw [length_slice]
    omega
  simp only [echoFcb, List.length_append, List.length_singleton, List.length_replicate]
  omega

theorem length_echoAt (payload : List Byte) (ex cr : Nat) : (echoAt payload ex cr).length = 37 := by
  rw [echoAt, List.length_set, List.length_set, length_echoFcb]

/-- The array of a reply, with the FCB spliced in. -/
theorem splice_echo (payload : List Byte) (n : Nat) :
    splice ((List.replicate (37 + n) 0#8).set 0 (BitVec.ofNat 8 0)) 1
        (1 + (slice payload 1 37).length) (slice payload 1 37) =
      echoFcb payload ++ List.replicate n 0#8 := by
  have hslice : (slice payload 1 37).length ≤ 36 := by
    rw [length_slice]
    omega
  have hzero : (List.replicate (37 + n) 0#8).set 0 (BitVec.ofNat 8 0) =
      List.replicate (37 + n) 0#8 := List.set_replicate_self
  rw [hzero, splice, echoFcb, List.take_replicate, List.drop_replicate,
    List.append_assoc _ _ (List.replicate n _),
    List.replicate_append_replicate]
  have htake : min 1 (37 + n) = 1 := by omega
  have hrest : 37 + n - (1 + (slice payload 1 37).length) =
      36 - (slice payload 1 37).length + n := by omega
  rw [htake, hrest]
  rfl

theorem readReply_ok (payload : List Byte) {ex cr : Nat} (data : List Byte)
    (hex : ex < 256) (hcr : cr < 256) :
    readReply payload ex cr data s = .ok (echoAt payload ex cr ++ data) s := by
  have hlen := length_echoFcb payload
  unfold readReply
  rw [store_bind_ok (by rw [List.length_replicate]; omega) (by omega)]
  rw [splice_echo payload 128, store_bind_ok (by simp [hlen]) hex,
    store_bind_ok (by simp [hlen]) hcr,
    List.set_append_left _ _ (by omega), List.set_append_left _ _ (by simp [hlen]), ← echoAt]
  have hat := length_echoAt payload ex cr
  rw [splice, List.take_append_of_le_length (by omega), List.take_of_length_le (by omega),
    List.drop_eq_nil_of_le (by simp; omega), List.append_nil]
  rfl

theorem readReply_large (payload : List Byte) {ex cr : Nat} (data : List Byte) (hex : 256 ≤ ex) :
    readReply payload ex cr data s = .error .valueError s := by
  have hlen := length_echoFcb payload
  unfold readReply
  rw [store_bind_ok (by rw [List.length_replicate]; omega) (by omega)]
  rw [splice_echo payload 128, bind_apply, store_large (by simp [hlen]) hex]

theorem writeRandReply_ok (payload : List Byte) (record : Nat) :
    writeRandReply payload record s =
      .ok (echoAt payload (record / 128 % 32) (record % 128)) s := by
  have hlen := length_echoFcb payload
  unfold writeRandReply
  rw [store_bind_ok (by simp) (by omega)]
  rw [splice_echo payload 0, List.replicate_zero, List.append_nil,
    store_bind_ok (by omega) (by omega), store_ok (by simp [hlen]) (by omega)]
  rfl

theorem fileSizeReply_ok (payload : List Byte) (records : Nat) :
    fileSizeReply payload records s =
      .ok ((((echoFcb payload).set 34 (BitVec.ofNat 8 (records &&& 0xFF))).set 35
        (BitVec.ofNat 8 (records >>> 8 &&& 0xFF))).set 36
        (BitVec.ofNat 8 (records >>> 16 &&& 0xFF))) s := by
  have hlen := length_echoFcb payload
  have hbyte : ∀ n, n &&& 0xFF < 256 := fun n => Nat.lt_of_le_of_lt Nat.and_le_right (by omega)
  unfold fileSizeReply
  rw [store_bind_ok (by simp) (by omega)]
  rw [splice_echo payload 0, List.replicate_zero, List.append_nil,
    store_bind_ok (by omega) (hbyte _), store_bind_ok (by simp [hlen]) (hbyte _),
    store_ok (by simp [hlen]) (hbyte _)]

/-- The reply of WRITE SEQ echoes the FCB as the others do. -/
theorem writeSeqReply_ok {ex cr : Nat} (hlen : 37 ≤ payload.length)
    (hex : ex < 256) (hcr : cr < 256) :
    writeSeqReply payload ex cr s = .ok (echoAt payload ex cr) s := by
  have hslice : (slice payload 1 37).length = 36 := by
    rw [length_slice]
    omega
  unfold writeSeqReply echoAt echoFcb
  rw [store_bind_ok (by omega) hex]
  rw [if_pos (by rw [List.length_set]; omega), store_bind_ok (by rw [List.length_set]; omega) hcr,
    hslice, List.replicate_zero, List.append_nil]
  rfl

theorem writeSeqReply_large {ex cr : Nat} (hlen : 37 ≤ payload.length)
    (hex : 256 ≤ ex) : writeSeqReply payload ex cr s = .error .valueError s := by
  have hslice : (slice payload 1 37).length = 36 := by
    rw [length_slice]
    omega
  unfold writeSeqReply
  rw [bind_apply, store_large (by omega) hex]

/-! ### Positions -/

/-- The position after a record is still one byte. -/
def AdvanceFits (payload : List Byte) : Prop := field payload 13 = 255 → field payload 33 < 127

theorem advance_fits (payload : List Byte) :
    (advance (field payload 13) (field payload 33)).1 < 256 ↔ AdvanceFits payload := by
  have hex : field payload 13 < 256 := (payload.getD 13 0#8).isLt
  unfold advance AdvanceFits
  split
  · simp only
    omega
  · simp only
    omega

theorem advance_cr (payload : List Byte) :
    (advance (field payload 13) (field payload 33)).2 < 256 := by
  unfold advance
  split
  · simp only
    omega
  · simp only
    omega

/-! ### Exceptions -/

theorem exceptOsError_ok {body handler : Action (List Byte)} {r : List Byte} {s' : Server}
    (hbody : body s = .ok r s') : exceptOsError body handler s = .ok r s' := by
  rw [exceptOsError, hbody]

theorem exceptOsError_caught {body handler : Action (List Byte)} {s' : Server}
    (hbody : body s = .error .osError s') : exceptOsError body handler s = handler s' := by
  rw [exceptOsError, hbody]

theorem exceptOsError_valueError {body handler : Action (List Byte)} {s' : Server}
    (hbody : body s = .error .valueError s') :
    exceptOsError body handler s = .error .valueError s' := by
  rw [exceptOsError, hbody]

theorem exceptOsError_indexError {body handler : Action (List Byte)} {s' : Server}
    (hbody : body s = .error .indexError s') :
    exceptOsError body handler s = .error .indexError s' := by
  rw [exceptOsError, hbody]

/-! ### Files -/

/-- Opening fails with `OSError` only. -/
theorem openFile_cases (h : Host) (mode : Mode) (p : Text) :
    (∃ bytes h', h.openFile mode p = .ok (bytes, h')) ∨ h.openFile mode p = .error .osError := by
  unfold Host.openFile
  split
  · exact .inr rfl
  · split <;> split <;> first | exact .inl ⟨_, _, rfl⟩ | exact .inr rfl
  · split
    · exact .inr rfl
    · exact .inr rfl
    · split <;> first | exact .inl ⟨_, _, rfl⟩ | exact .inr rfl
    · split <;> first | exact .inl ⟨_, _, rfl⟩ | exact .inr rfl

/-- A call of the host with one path. -/
theorem call_nul {α : Type} {op : Host → Except PyError (α × Host)} (hnul : 0 ∈ p) :
    call [p] op s = .error .valueError s := by
  rw [call, if_pos ⟨p, List.mem_singleton_self p, hnul⟩]

theorem call_ok {α : Type} {op : Host → Except PyError (α × Host)} (hnul : 0 ∉ p) {a : α}
    {h : Host} (hop : op s.host = .ok (a, h)) :
    call [p] op s = .ok a { s with touched := p :: s.touched, host := h } := by
  have hfree : ¬ ∃ q ∈ [p], 0 ∈ q := by
    rintro ⟨q, hq, hmem⟩
    rw [List.mem_singleton.mp hq] at hmem
    exact hnul hmem
  rw [call, if_neg hfree]
  simp only [hop]
  rfl

theorem call_error {α : Type} {op : Host → Except PyError (α × Host)} (hnul : 0 ∉ p)
    {e : PyError} (hop : op s.host = .error e) :
    call [p] op s = .error e { s with touched := p :: s.touched } := by
  have hfree : ¬ ∃ q ∈ [p], 0 ∈ q := by
    rintro ⟨q, hq, hmem⟩
    rw [List.mem_singleton.mp hq] at hmem
    exact hnul hmem
  rw [call, if_neg hfree]
  simp only [hop]
  rfl

/-- The mode in which a file is opened for writing. -/
def Host.writeMode (h : Host) (p : Text) : Mode := if h.node p ≠ .absent then .update else .wb

theorem openForWrite_nul (hnul : 0 ∈ p) : openForWrite p s = .error .valueError s := by
  rw [openForWrite, bind_apply, pathExists, if_pos hnul]
  exact call_nul hnul

/-- The path is given to the host twice. -/
theorem openForWrite_free (hnul : 0 ∉ p) :
    openForWrite p s = openFile (s.host.writeMode p) p { s with touched := p :: s.touched } := by
  rw [openForWrite, bind_apply, pathExists, if_neg hnul]
  unfold Host.writeMode
  by_cases hexists : s.host.node p ≠ .absent
  · rw [if_pos hexists]
    simp only [decide_eq_true hexists, if_true]
  · rw [if_neg hexists]
    simp only [decide_eq_false hexists]
    rfl

/-! ### The path of a request -/

/-- The directory that the drive code of a request selects. -/
def selectedDir (s : Server) (payload : List Byte) (offset : Nat) : Option Text :=
  payload[offset]?.bind (fun code => s.driveDir (driveOf code))

/-- The path of a request that names one file. -/
def filePath (s : Server) (payload : List Byte) : Option Text :=
  (selectedDir s payload 1).map (fun dir => join dir (nameText (fcbName payload 1)))

theorem selectedDir_some {offset : Nat} {dir : Text}
    (hdir : selectedDir s payload offset = some dir) :
    ∃ code, payload[offset]? = some code ∧ s.driveDir (driveOf code) = some dir :=
  Option.bind_eq_some_iff.mp hdir

theorem selectedDir_none {offset : Nat} (hdir : selectedDir s payload offset = none) (code : Byte)
    (hcode : payload[offset]? = some code) : s.driveDir (driveOf code) = none := by
  rw [selectedDir, hcode] at hdir
  exact hdir

/-- The directory of a drive is the one it is mapped to. -/
theorem driveDir_some {drive : Nat} {dir : Text} (hdir : s.driveDir drive = some dir) :
    s.driveDirs drive = some dir := by
  unfold Server.driveDir at hdir
  split at hdir
  · exact nomatch hdir
  · exact nomatch hdir
  · next c front hmapped => rw [hmapped, hdir]

theorem fcbDrive_some {offset : Nat} {code : Byte} (hcode : payload[offset]? = some code) :
    fcbDrive payload offset s = .ok (driveOf code) s := by
  rw [fcbDrive, hcode]
  rfl

theorem fcbDrive_none {offset : Nat} (hcode : payload[offset]? = none) :
    fcbDrive payload offset s = .error .indexError s := by
  rw [fcbDrive, hcode]
  rfl

/-- A request without a drive code raises. -/
theorem withPath_short {body : Nat → Text → Action (List Byte)} (hcode : payload[1]? = none) :
    withPath payload body s = .error .indexError s := by
  rw [withPath, bind_apply, fcbDrive_none hcode]

/-- A request for a drive without a directory fails. -/
theorem withPath_unmapped {body : Nat → Text → Action (List Byte)} {code : Byte}
    (hcode : payload[1]? = some code) (hdir : s.driveDir (driveOf code) = none) :
    withPath payload body s = .ok failure s := by
  rw [withPath, bind_apply, fcbDrive_some hcode]
  simp only [bind_apply, resolvePath, hdir, Option.map_none, pure_apply]

/-- Otherwise it goes on with its path. -/
theorem withPath_mapped {body : Nat → Text → Action (List Byte)} {code : Byte} {dir : Text}
    (hcode : payload[1]? = some code) (hdir : s.driveDir (driveOf code) = some dir) :
    withPath payload body s =
      body (driveOf code) (join dir (nameText (fcbName payload 1))) s := by
  rw [withPath, bind_apply, fcbDrive_some hcode]
  simp only [bind_apply, resolvePath, hdir, Option.map_some]

theorem handleRename_short (hcode : payload[1]? = none) :
    handleRename payload s = .error .indexError s := by
  rw [handleRename, bind_apply, fcbDrive_none hcode]

theorem handleRename_unmapped {code : Byte} (hcode : payload[1]? = some code)
    (hdir : s.driveDir (driveOf code) = none) : handleRename payload s = .ok failure s := by
  rw [handleRename, bind_apply, fcbDrive_some hcode]
  simp only [bind_apply, resolvePath, hdir, Option.map_none, pure_apply]

/-- A rename works on two paths of one directory. -/
theorem handleRename_mapped {code : Byte} {dir : Text} (hcode : payload[1]? = some code)
    (hdir : s.driveDir (driveOf code) = some dir) :
    let oldPath := join dir (nameText ((slice payload 2 13).map (· &&& 0x7F#8)))
    let newPath := join dir (nameText ((slice payload 18 29).map (· &&& 0x7F#8)))
    handleRename payload s =
      exceptOsError (call [oldPath, newPath] (Host.rename oldPath newPath) >>= fun _ =>
        pure [0#8]) (pure failure) s := by
  intro oldPath newPath
  rw [handleRename, bind_apply, fcbDrive_some hcode]
  simp only [bind_apply (resolvePath _ _), resolvePath, hdir, Option.map_some]
  rfl

/-! ### SEARCH -/

/-- The name of an entry is ASCII in upper case. -/
def Encodable (upper : Nat → Text) (entry : Text) : Prop :=
  ∀ c ∈ (cpmName upper entry).1 ++ (cpmName upper entry).2, c < 128

instance Encodable.decidable (upper : Nat → Text) (entry : Text) :
    Decidable (Encodable upper entry) :=
  inferInstanceAs (Decidable (∀ c ∈ _, _))

theorem encode_ok {t : Text} (ht : ∀ c ∈ t, c < 128) :
    encode t s = .ok (t.map (BitVec.ofNat 8)) s := by
  rw [encode, if_pos ht]
  rfl

theorem encode_error {t : Text} (ht : ¬ ∀ c ∈ t, c < 128) :
    encode t s = .error .unicodeError s := by
  rw [encode, if_neg ht]
  rfl

theorem ljust_ascii {n : Nat} {t : Text} : (∀ c ∈ ljust n t, c < 128) ↔ ∀ c ∈ t, c < 128 := by
  unfold ljust
  constructor
  · intro hall c hc
    exact hall c (List.mem_append_left _ hc)
  · intro hall c hc
    rcases List.mem_append.mp hc with hc | hc
    · exact hall c hc
    · rw [List.eq_of_mem_replicate hc]
      decide

/-- What a search finds in a directory. -/
def foundIn (upper : Nat → Text) (h : Host) (dir : Text) (name : List Byte) : List HostName :=
  match h.listdir dir with
  | .ok (names, _) => names.filter (matchesEntry upper name)
  | .error _ => []

/-- Looking at a directory changes nothing, and fails with `OSError` only. -/
theorem listdir_cases (h : Host) (dir : Text) :
    h.listdir dir = .ok (h.listing (closed dir), h) ∨ h.listdir dir = .error .osError := by
  unfold Host.listdir
  cases h.node dir with
  | directory size => exact .inl rfl
  | absent | file => exact .inr rfl

/-- SEARCH FIRST looks at the directory, and then reports an entry. -/
theorem handleSearchFirst_apply (upper : Nat → Text) {code : Byte} {dir : Text}
    (hcode : payload[2]? = some code)
    (hdir : s.driveDir (driveOf code) = some dir) :
    handleSearchFirst upper payload s =
      if 0 ∈ dir then .error .valueError s
      else searchResult upper
        { s with
          search := some ⟨foundIn upper s.host dir (fcbName payload 2), 0, driveOf code⟩ } := by
  have hget : (get : Action Server) s = .ok s s := rfl
  rw [handleSearchFirst, bind_apply, fcbDrive_some hcode]
  simp only [bind_apply, hget, hdir]
  by_cases hnul : 0 ∈ dir
  · simp only [exceptOsError, bind_apply, listdir, if_pos hnul]
  · rw [if_neg hnul]
    unfold foundIn
    rcases listdir_cases s.host dir with hlist | hlist
    · simp only [exceptOsError, bind_apply, listdir, if_neg hnul, hlist, pure_apply]
      rfl
    · simp only [exceptOsError, bind_apply, listdir, if_neg hnul, hlist, pure_apply]
      rfl

end CpNet
end Rc700
