import Rc700.CpNet.Matching

/-!
# Requests that the server survives

Only `OSError` is caught in the handlers; any other exception ends the server.  For each
function the requests that are answered are exactly those that `Endures` describes: the
payload is long enough for what is read from it and for the reply that is built from it,
no path has a NUL, the position after the record is still one byte, the entry that a
search reports is ASCII, and the files of the printer and of the errors can be opened.

`Settles` states both halves for a computation: under the condition it returns a reply
that fits a frame, and otherwise it raises.
-/

namespace Rc700
namespace CpNet

open Library PathText CpNet.Action

variable {upper : Nat → Text} {payload : List Byte} {s : Server} {p : Text}

/-- The computation returns a reply that fits a frame, and sends nothing itself. -/
def Replies (m : Action (List Byte)) (s : Server) : Prop :=
  ∃ r s', m s = .ok r s' ∧ 1 ≤ r.length ∧ r.length ≤ 256 ∧ s'.sent = s.sent

/-- The computation raises an exception. -/
def Raises (m : Action (List Byte)) (s : Server) : Prop := ∃ e s', m s = .error e s'

/-- The computation returns a reply under the condition, and raises otherwise. -/
structure Settles (m : Action (List Byte)) (s : Server) (c : Prop) : Prop where
  replies : c → Replies m s
  raises : ¬ c → Raises m s

/-- The path names something. -/
def Exists (s : Server) (p : Text) : Prop := 0 ∉ p ∧ s.host.node p ≠ .absent

/-- The host opens the file. -/
def Opens (h : Host) (mode : Mode) (p : Text) : Prop := (h.openFile mode p).isOk = true

/-- The file has something at the position of a sequential read. -/
def HasRecord (s : Server) (payload : List Byte) (p : Text) : Prop :=
  match s.host.openFile .rb p with
  | .ok (bytes, _) => pread bytes ((field payload 13 * 128 + field payload 33) * 128) 128 ≠ []
  | .error _ => False

/-- The requests that a function answers. -/
def Function.Endures (upper : Nat → Text) (payload : List Byte) (s : Server) : Function → Prop
  | .openFile =>
      1 < payload.length ∧ ∀ path, filePath s payload = some path → Exists s path →
        13 ≤ payload.length
  | .makeFile =>
      1 < payload.length ∧ ∀ path, filePath s payload = some path →
        0 ∉ path ∧ (Opens s.host .ab path → 13 ≤ payload.length)
  | .deleteFile => 1 < payload.length
  | .fileSize => 1 < payload.length
  | .setAttrs => 1 < payload.length
  | .renameFile =>
      1 < payload.length ∧ ∀ dir, selectedDir s payload 1 = some dir →
        0 ∉ join dir (nameText ((slice payload 2 13).map (· &&& 0x7F#8))) ∧
          0 ∉ join dir (nameText ((slice payload 18 29).map (· &&& 0x7F#8)))
  | .readSeq =>
      1 < payload.length ∧ ∀ path, filePath s payload = some path →
        0 ∉ path ∧ (HasRecord s payload path → AdvanceFits payload)
  | .readRand =>
      1 < payload.length ∧ ∀ path, filePath s payload = some path →
        37 ≤ payload.length → 0 ∉ path
  | .writeSeq =>
      1 < payload.length ∧ ∀ path, filePath s payload = some path → 165 ≤ payload.length →
        0 ∉ path ∧ (Opens s.host (s.host.writeMode path) path → AdvanceFits payload)
  | .writeRand =>
      1 < payload.length ∧ ∀ path, filePath s payload = some path →
        165 ≤ payload.length → 0 ∉ path
  | .writeRandZf =>
      1 < payload.length ∧ ∀ path, filePath s payload = some path →
        165 ≤ payload.length → 0 ∉ path
  | .searchFirst =>
      2 < payload.length ∧ ∀ dir, selectedDir s payload 2 = some dir →
        0 ∉ dir ∧ ∀ entry ∈ (foundIn upper s.host dir (fcbName payload 2)).head?,
          Encodable upper entry.val
  | .searchNext =>
      ∀ search, s.search = some search → ∀ entry, search.found[search.index]? = some entry →
        Encodable upper entry.val ∧
          0 ∉ join ((s.driveDirs search.drive).getD [dot]) entry.val
  | .listOutput =>
      ∀ c file, s.printerFile = some (c :: file) →
        0 ∉ c :: file ∧ Opens s.host .ab (c :: file)
  | .consoleOutput => payload ≠ []
  | _ => True

/-- The requests that are answered, with those to unknown functions. -/
def Endures (upper : Nat → Text) (fnc : Byte) (payload : List Byte) (s : Server) : Prop :=
  match Function.ofCode fnc with
  | some f => f.Endures upper payload s
  | none =>
      fnc = 0xFF#8 ∨ ∀ c file, s.errorFile = some (c :: file) →
        0 ∉ c :: file ∧ Opens s.host .ab (c :: file)

/-! ### Settling -/

theorem Replies.of_apply {m : Action (List Byte)} (r : List Byte) (s' : Server)
    (hm : m s = .ok r s') (hlen : 1 ≤ r.length ∧ r.length ≤ 256) (hsent : s'.sent = s.sent) :
    Replies m s :=
  ⟨r, s', hm, hlen.1, hlen.2, hsent⟩

theorem Replies.failure : Replies (pure failure) s :=
  Replies.of_apply _ _ rfl ⟨by decide, by decide⟩ rfl

/-- A computation that behaves as another in another state that has sent as much. -/
theorem Settles.congr {m m' : Action (List Byte)} {s' : Server} {c : Prop}
    (hsettles : Settles m' s' c) (hm : m s = m' s') (hsent : s'.sent = s.sent) :
    Settles m s c where
  replies := by
    intro hc
    obtain ⟨r, s'', hr, hpos, hlen, hsent'⟩ := hsettles.replies hc
    exact ⟨r, s'', hm.trans hr, hpos, hlen, hsent'.trans hsent⟩
  raises := by
    intro hc
    obtain ⟨e, s'', he⟩ := hsettles.raises hc
    exact ⟨e, s'', hm.trans he⟩

theorem Settles.of_replies {m : Action (List Byte)} {c : Prop} (hm : Replies m s) (hc : c) :
    Settles m s c :=
  ⟨fun _ => hm, fun hnot => absurd hc hnot⟩

theorem Settles.of_raises {m : Action (List Byte)} {c : Prop} (hm : Raises m s) (hc : ¬ c) :
    Settles m s c :=
  ⟨fun h => absurd h hc, fun _ => hm⟩

/-- A request that names one file. -/
theorem Settles.withPath {body : Nat → Text → Action (List Byte)} {c : Text → Prop}
    (hbody : 1 < payload.length → ∀ drive path, Settles (body drive path) s (c path)) :
    Settles (CpNet.withPath payload body) s
      (1 < payload.length ∧ ∀ path, filePath s payload = some path → c path) := by
  by_cases hlen : 1 < payload.length
  · have hcode : payload[1]? = some payload[1] := List.getElem?_eq_getElem hlen
    cases hdir : selectedDir s payload 1 with
    | none =>
        refine Settles.of_replies ?_ ⟨hlen, ?_⟩
        · exact Replies.of_apply _ _ (withPath_unmapped hcode (selectedDir_none hdir _ hcode))
            ⟨by decide, by decide⟩ rfl
        · intro path hpath
          rw [filePath, hdir] at hpath
          exact nomatch hpath
    | some dir =>
        obtain ⟨code, hcode', hmapped⟩ := selectedDir_some hdir
        have hpath : filePath s payload =
            some (join dir (nameText (fcbName payload 1))) := by
          rw [filePath, hdir]
          rfl
        have hc : (1 < payload.length ∧ ∀ path, filePath s payload = some path → c path) ↔
            c (join dir (nameText (fcbName payload 1))) := by
          rw [hpath]
          simp [hlen]
        rw [hc]
        exact (hbody hlen _ _).congr (withPath_mapped hcode' hmapped) rfl
  · refine Settles.of_raises ?_ (fun h => hlen h.1)
    exact ⟨_, _, withPath_short (List.getElem?_eq_none (Nat.not_lt.mp hlen))⟩

/-- A call of the host in a `try`, and what follows it: a NUL raises, an `OSError` is a
failure. -/
theorem Settles.tryCall {α : Type} {op : Host → Except PyError (α × Host)}
    {f : α → Action (List Byte)} {c : Prop}
    (hop : (∃ a h, op s.host = .ok (a, h)) ∨ op s.host = .error .osError)
    (hok : 0 ∉ p → ∀ a h, op s.host = .ok (a, h) →
      Settles (exceptOsError (f a) (pure failure))
        { s with touched := p :: s.touched, host := h } c)
    (herror : op s.host = .error .osError → c) :
    Settles (exceptOsError (call [p] op >>= f) (pure failure)) s (0 ∉ p ∧ c) := by
  by_cases hnul : 0 ∈ p
  · refine Settles.of_raises ?_ (fun h => h.1 hnul)
    refine ⟨.valueError, s, exceptOsError_valueError ?_⟩
    rw [bind_apply, call_nul hnul]
  · have hc : 0 ∉ p ∧ c ↔ c := by simp [hnul]
    rw [hc]
    rcases hop with ⟨a, h, hop⟩ | hop
    · refine (hok hnul a h hop).congr ?_ rfl
      rw [exceptOsError, exceptOsError, bind_apply, call_ok hnul hop]
    · refine Settles.of_replies ?_ (herror hop)
      have hraise : (call [p] op >>= f) s =
          .error .osError { s with touched := p :: s.touched } := by
        rw [bind_apply, call_error hnul hop]
      exact Replies.of_apply _ _ (exceptOsError_caught hraise) ⟨by decide, by decide⟩ rfl

theorem Settles.iff {m : Action (List Byte)} {c c' : Prop} (hsettles : Settles m s c)
    (hc : c ↔ c') : Settles m s c' :=
  ⟨fun h => hsettles.replies (hc.mpr h), fun h => hsettles.raises (mt hc.mp h)⟩

/-- A request that names one file and is always answered. -/
theorem Settles.withPath_always {body : Nat → Text → Action (List Byte)}
    (hbody : ∀ drive path, Replies (body drive path) s) :
    Settles (CpNet.withPath payload body) s (1 < payload.length) := by
  have hsettles : Settles (CpNet.withPath payload body) s
      (1 < payload.length ∧ ∀ path, filePath s payload = some path → True) :=
    Settles.withPath fun _ drive path => Settles.of_replies (hbody drive path) trivial
  exact hsettles.iff ⟨fun h => h.1, fun h => ⟨h, fun _ _ => trivial⟩⟩

/-- The question whether a file exists, and its size. -/
theorem exists_getsize (hexists : Exists s p) {f : Nat → Action (List Byte)} :
    ∃ size, (pathExists p >>= fun b => if b = true then getsize p >>= f else pure failure) s =
      f size { s with touched := p :: p :: s.touched } := by
  obtain ⟨hnul, hnode⟩ := hexists
  have hask : pathExists p s = .ok true { s with touched := p :: s.touched } := by
    rw [pathExists, if_neg hnul, decide_eq_true hnode]
  have hsize : ∃ size, s.host.getsize p = .ok (size, s.host) := by
    unfold Host.getsize
    cases hat : s.host.node p with
    | absent => exact absurd hat hnode
    | file f => exact ⟨_, rfl⟩
    | directory size => exact ⟨_, rfl⟩
  obtain ⟨size, hsize⟩ := hsize
  have hcall : getsize p { s with touched := p :: s.touched } =
      .ok size { s with touched := p :: p :: s.touched } := call_ok hnul hsize
  refine ⟨size, ?_⟩
  rw [bind_apply, hask]
  simp only [if_true]
  rw [bind_apply, hcall]

theorem not_exists_failure (hexists : ¬ Exists s p) {m : Action (List Byte)} :
    Replies (pathExists p >>= fun b => if b = true then m else pure failure) s := by
  by_cases hnul : 0 ∈ p
  · have hask : pathExists p s = .ok false s := by
      rw [pathExists, if_pos hnul]
    have happly : (pathExists p >>= fun b => if b = true then m else pure failure) s =
        .ok failure s := by
      rw [bind_apply, hask]
      rfl
    exact Replies.of_apply _ _ happly ⟨by decide, by decide⟩ rfl
  · have hnode : ¬ s.host.node p ≠ .absent := fun hnode => hexists ⟨hnul, hnode⟩
    have hask : pathExists p s = .ok false { s with touched := p :: s.touched } := by
      rw [pathExists, if_neg hnul, decide_eq_false hnode]
    have happly : (pathExists p >>= fun b => if b = true then m else pure failure) s =
        .ok failure { s with touched := p :: s.touched } := by
      rw [bind_apply, hask]
      rfl
    exact Replies.of_apply _ _ happly ⟨by decide, by decide⟩ rfl

/-! ### The functions -/

theorem handleOpen_settles :
    Settles (handleOpen payload) s (Function.Endures upper payload s .openFile) := by
  refine Settles.withPath fun _ drive path => ?_
  by_cases hexists : Exists s path
  · obtain ⟨size, hsize⟩ := exists_getsize hexists
      (f := fun size => openReply drive (fcbName payload 1) (recordsOf size))
    have hname := length_fcbName payload 1
    by_cases hlen : 13 ≤ payload.length
    · refine Settles.of_replies ?_ (fun _ => hlen)
      rw [openReply_ok drive _ (by omega)] at hsize
      refine Replies.of_apply _ _ hsize ?_ rfl
      simp only [openFcb, List.length_append, List.length_cons, List.length_nil,
        List.length_replicate]
      omega
    · refine Settles.of_raises ?_ (fun h => hlen (h hexists))
      rw [openReply_short drive _ (by omega)] at hsize
      exact ⟨_, _, hsize⟩
  · exact Settles.of_replies (not_exists_failure hexists) (fun h => absurd h hexists)

theorem handleFileSize_settles :
    Settles (handleFileSize payload) s (Function.Endures upper payload s .fileSize) := by
  refine Settles.withPath_always fun drive path => ?_
  by_cases hexists : Exists s path
  · obtain ⟨size, hsize⟩ := exists_getsize hexists
      (f := fun size => fileSizeReply payload (recordsOf size))
    rw [fileSizeReply_ok] at hsize
    refine Replies.of_apply _ _ hsize ?_ rfl
    simp only [List.length_set, length_echoFcb]
    omega
  · exact not_exists_failure hexists

/-- Removing a file fails with `OSError` only. -/
theorem remove_cases (h : Host) (p : Text) :
    (∃ a h', h.remove p = .ok (a, h')) ∨ h.remove p = .error .osError := by
  unfold Host.remove
  split
  · split
    · exact .inl ⟨_, _, rfl⟩
    · exact .inr rfl
  · exact .inr rfl

theorem handleDelete_settles :
    Settles (handleDelete payload) s (Function.Endures upper payload s .deleteFile) := by
  refine Settles.withPath_always fun drive path => ?_
  by_cases hexists : Exists s path
  · obtain ⟨hnul, hnode⟩ := hexists
    have hask : pathExists path s = .ok true { s with touched := path :: s.touched } := by
      rw [pathExists, if_neg hnul, decide_eq_true hnode]
    have hremove : Settles (exceptOsError (call [path] (Host.remove path) >>= fun _ => pure [0#8])
        (pure failure)) { s with touched := path :: s.touched } (0 ∉ path ∧ True) := by
      refine Settles.tryCall (remove_cases _ _) (fun _ a h _ => ?_) (fun _ => trivial)
      exact Settles.of_replies (Replies.of_apply _ _ rfl ⟨by decide, by decide⟩ rfl) trivial
    obtain ⟨r, s', hr, hpos, hlen, hsent⟩ := hremove.replies ⟨hnul, trivial⟩
    refine ⟨r, s', ?_, hpos, hlen, hsent⟩
    rw [bind_apply, hask]
    exact hr
  · exact not_exists_failure hexists

theorem handleMakeFile_settles :
    Settles (handleMakeFile payload) s (Function.Endures upper payload s .makeFile) := by
  refine Settles.withPath fun hcode drive path => ?_
  refine Settles.tryCall (openFile_cases _ _ _) (fun _ bytes h hopen => ?_) (fun herror => ?_)
  · have hopens : Opens s.host .ab path := by
      rw [Opens, hopen]
      rfl
    by_cases hlen : 13 ≤ payload.length
    · refine Settles.of_replies ?_ (fun _ => hlen)
      refine Replies.of_apply _ _ (exceptOsError_ok (makeReply_ok hlen)) ?_ rfl
      simp only [makeFcb, List.length_append, List.length_singleton, length_slice,
        List.length_replicate]
      omega
    · refine Settles.of_raises ?_ (fun hc => hlen (hc hopens))
      exact ⟨_, _, exceptOsError_indexError (makeReply_short (Nat.lt_of_not_le hlen) hcode)⟩
  · intro hopens
    rw [Opens, herror] at hopens
    exact Bool.noConfusion hopens

theorem handleReadSeq_settles :
    Settles (handleReadSeq payload) s (Function.Endures upper payload s .readSeq) := by
  refine Settles.withPath fun _ drive path => ?_
  refine Settles.tryCall (openFile_cases _ _ _) (fun _ bytes h hopen => ?_) (fun herror => ?_)
  · have hrecord : HasRecord s payload path ↔
        pread bytes ((field payload 13 * 128 + field payload 33) * 128) 128 ≠ [] := by
      rw [HasRecord, hopen]
    by_cases hend : pread bytes ((field payload 13 * 128 + field payload 33) * 128) 128 = []
    · rw [if_pos hend]
      refine Settles.of_replies ?_ (fun hc => absurd hend (hrecord.mp hc))
      exact Replies.of_apply _ _ rfl ⟨by decide, by decide⟩ rfl
    · rw [if_neg hend]
      by_cases hfits : AdvanceFits payload
      · refine Settles.of_replies ?_ (fun _ => hfits)
        refine Replies.of_apply _ _ (exceptOsError_ok (readReply_ok payload _
          ((advance_fits payload).mpr hfits) (advance_cr payload))) ?_ rfl
        have hpad : (padRecord (pread bytes
            ((field payload 13 * 128 + field payload 33) * 128) 128)).length = 128 := by
          simp only [padRecord, pread, List.length_append, List.length_take,
            List.length_replicate]
          omega
        rw [List.length_append, length_echoAt, hpad]
        omega
      · refine Settles.of_raises ?_ (fun hc => hfits (hc (hrecord.mpr hend)))
        refine ⟨_, _, exceptOsError_valueError (readReply_large payload _ ?_)⟩
        exact Nat.le_of_not_lt (mt (advance_fits payload).mp hfits)
  · intro hrecord
    rw [HasRecord, herror] at hrecord
    exact hrecord.elim

theorem handleReadRand_settles :
    Settles (handleReadRand payload) s (Function.Endures upper payload s .readRand) := by
  refine Settles.withPath fun _ drive path => ?_
  by_cases hlen : payload.length < 37
  · rw [if_pos hlen]
    exact Settles.of_replies Replies.failure (fun hlong => absurd hlen (Nat.not_lt.mpr hlong))
  · rw [if_neg hlen]
    have hread : Settles (exceptOsError (openFile .rb path >>= fun bytes =>
          if pread bytes (randomRecord payload * 128) 128 = [] then pure [6#8]
          else readReply payload (randomRecord payload / 128 % 32) (randomRecord payload % 128)
            (padRecord (pread bytes (randomRecord payload * 128) 128))) (pure failure)) s
        (0 ∉ path ∧ True) := by
      refine Settles.tryCall (openFile_cases _ _ _) (fun _ bytes h hopen => ?_) (fun _ => trivial)
      refine Settles.of_replies ?_ trivial
      split
      · exact Replies.of_apply _ _ rfl ⟨by decide, by decide⟩ rfl
      · refine Replies.of_apply _ _
          (exceptOsError_ok (readReply_ok payload _ (by omega) (by omega))) ?_
          rfl
        have hpad : (padRecord (pread bytes (randomRecord payload * 128) 128)).length = 128 := by
          simp only [padRecord, pread, List.length_append, List.length_take,
            List.length_replicate]
          omega
        rw [List.length_append, length_echoAt, hpad]
        omega
    refine hread.iff ?_
    constructor
    · exact fun hc _ => hc.1
    · exact fun hc => ⟨hc (Nat.not_lt.mp hlen), trivial⟩

/-- Writing a record: opening the file, storing, and the reply. -/
theorem Settles.write {c : Prop} {bytesOf : List Byte → List Byte} {reply : Action (List Byte)}
    (hreply : ∀ s', Settles (exceptOsError reply (pure CpNet.failure)) s' c) :
    Settles (exceptOsError (openForWrite p >>= fun bytes =>
        fill p (bytesOf bytes) >>= fun _ => reply) (pure failure)) s
      (0 ∉ p ∧ (Opens s.host (s.host.writeMode p) p → c)) := by
  by_cases hnul : 0 ∈ p
  · refine Settles.of_raises ?_ (fun h => h.1 hnul)
    refine ⟨.valueError, s, exceptOsError_valueError ?_⟩
    rw [bind_apply, openForWrite_nul hnul]
  · have hopened : Settles (exceptOsError (call [p] (Host.openFile (s.host.writeMode p) p) >>=
          fun bytes => fill p (bytesOf bytes) >>= fun _ => reply) (pure failure))
        { s with touched := p :: s.touched }
        (0 ∉ p ∧ (Opens s.host (s.host.writeMode p) p → c)) := by
      refine Settles.tryCall (openFile_cases _ _ _) (fun _ bytes h hopen => ?_) (fun herror => ?_)
      · have hopens : Opens s.host (s.host.writeMode p) p := by
          rw [Opens, hopen]
          rfl
        have hsettles := hreply
          { s with
            touched := p :: p :: s.touched
            host := h.fill p (bytesOf bytes) }
        refine (hsettles.congr ?_ ?_).iff ⟨fun hc _ => hc, fun hc => hc hopens⟩
        · rw [exceptOsError, exceptOsError, bind_apply]
          rfl
        · rfl
      · intro hopens
        rw [Opens, herror] at hopens
        exact Bool.noConfusion hopens
    refine hopened.congr ?_ rfl
    rw [exceptOsError, exceptOsError, bind_apply, bind_apply, openForWrite_free hnul]
    rfl

theorem handleWriteSeq_settles :
    Settles (handleWriteSeq payload) s (Function.Endures upper payload s .writeSeq) := by
  refine Settles.withPath fun _ drive path => ?_
  by_cases hlen : payload.length < 37 + 128
  · rw [if_pos hlen]
    exact Settles.of_replies Replies.failure (fun hlong => absurd hlen (Nat.not_lt.mpr hlong))
  · rw [if_neg hlen]
    have hwrite : Settles (exceptOsError (openForWrite path >>= fun bytes =>
          fill path (pwrite 0#8 bytes ((field payload 13 * 128 + field payload 33) * 128)
            (slice payload 37 (37 + 128))) >>= fun _ =>
          writeSeqReply payload (advance (field payload 13) (field payload 33)).1
            (advance (field payload 13) (field payload 33)).2) (pure failure)) s
        (0 ∉ path ∧ (Opens s.host (s.host.writeMode path) path → AdvanceFits payload)) := by
      refine Settles.write fun s' => ?_
      by_cases hfits : AdvanceFits payload
      · refine Settles.of_replies ?_ hfits
        refine Replies.of_apply _ _ (exceptOsError_ok (writeSeqReply_ok (by omega)
          ((advance_fits payload).mpr hfits) (advance_cr payload))) ?_ rfl
        rw [length_echoAt]
        omega
      · refine Settles.of_raises ?_ hfits
        refine ⟨_, _, exceptOsError_valueError (writeSeqReply_large (by omega) ?_)⟩
        exact Nat.le_of_not_lt (mt (advance_fits payload).mp hfits)
    exact hwrite.iff ⟨fun hc _ => hc, fun hc => hc (Nat.not_lt.mp hlen)⟩

theorem writeRandom_settles (put : List Byte → Nat → List Byte → List Byte) :
    Settles (writeRandom put payload) s
      (1 < payload.length ∧ ∀ path, filePath s payload = some path →
        165 ≤ payload.length → 0 ∉ path) := by
  refine Settles.withPath fun _ drive path => ?_
  by_cases hshort : payload.length < 37
  · rw [if_pos hshort]
    exact Settles.of_replies Replies.failure (fun hlong => absurd hlong (by omega))
  rw [if_neg hshort]
  by_cases hlen : payload.length < 37 + 128
  · rw [if_pos hlen]
    exact Settles.of_replies Replies.failure (fun hlong => absurd hlen (Nat.not_lt.mpr hlong))
  · rw [if_neg hlen]
    have hwrite : Settles (exceptOsError (openForWrite path >>= fun bytes =>
          fill path (put bytes (randomRecord payload * 128) (slice payload 37 (37 + 128))) >>=
            fun _ => writeRandReply payload (randomRecord payload)) (pure failure)) s
        (0 ∉ path ∧ (Opens s.host (s.host.writeMode path) path → True)) := by
      refine Settles.write fun s' => Settles.of_replies ?_ trivial
      refine Replies.of_apply _ _ (exceptOsError_ok (writeRandReply_ok payload _)) ?_ rfl
      rw [length_echoAt]
      omega
    refine hwrite.iff ?_
    constructor
    · exact fun hc _ => hc.1
    · exact fun hc => ⟨hc (Nat.not_lt.mp hlen), fun _ => trivial⟩

/-- Renaming fails with `OSError` only. -/
theorem rename_cases (h : Host) (old new : Text) :
    (∃ a h', h.rename old new = .ok (a, h')) ∨ h.rename old new = .error .osError := by
  unfold Host.rename
  split
  · split
    · exact .inr rfl
    · exact .inr rfl
    · exact .inr rfl
    · exact .inl ⟨_, _, rfl⟩
    · split
      · exact .inl ⟨_, _, rfl⟩
      · split
        · exact .inr rfl
        · split
          · exact .inr rfl
          · exact .inl ⟨_, _, rfl⟩
  · exact .inr rfl

theorem handleRename_settles :
    Settles (handleRename payload) s (Function.Endures upper payload s .renameFile) := by
  unfold Function.Endures
  by_cases hlen : 1 < payload.length
  · have hcode : payload[1]? = some payload[1] := List.getElem?_eq_getElem hlen
    cases hdir : selectedDir s payload 1 with
    | none =>
        refine Settles.of_replies ?_ ⟨hlen, fun dir h => nomatch h⟩
        exact Replies.of_apply _ _ (handleRename_unmapped hcode (selectedDir_none hdir _ hcode))
          ⟨by decide, by decide⟩ rfl
    | some dir =>
        obtain ⟨code, hcode', hmapped⟩ := selectedDir_some hdir
        have happly := handleRename_mapped hcode' hmapped
        simp only [hlen, true_and, Option.some.injEq, forall_eq']
        generalize join dir (nameText ((slice payload 2 13).map (· &&& 0x7F#8))) = old at happly ⊢
        generalize join dir (nameText ((slice payload 18 29).map (· &&& 0x7F#8))) = new at happly ⊢
        have hnul : (∃ q ∈ [old, new], 0 ∈ q) ↔ ¬ (0 ∉ old ∧ 0 ∉ new) := by
          simp only [List.mem_cons, List.not_mem_nil, or_false, exists_eq_or_imp, exists_eq_left]
          tauto
        by_cases hfree : 0 ∉ old ∧ 0 ∉ new
        · refine Settles.of_replies ?_ hfree
          have hcall : ¬ ∃ q ∈ [old, new], 0 ∈ q := fun h => hnul.mp h hfree
          rcases rename_cases s.host old new with ⟨a, h', hop⟩ | hop
          · have hrename : handleRename payload s =
                .ok [0#8] { s with touched := [old, new] ++ s.touched, host := h' } := by
              rw [happly, exceptOsError, bind_apply, call, if_neg hcall]
              simp only [hop, pure_apply]
            exact Replies.of_apply _ _ hrename ⟨by decide, by decide⟩ rfl
          · have hrename : handleRename payload s =
                .ok failure { s with touched := [old, new] ++ s.touched } := by
              rw [happly, exceptOsError, bind_apply, call, if_neg hcall]
              simp only [hop, pure_apply]
            exact Replies.of_apply _ _ hrename ⟨by decide, by decide⟩ rfl
        · refine Settles.of_raises ⟨.valueError, s, ?_⟩ hfree
          rw [happly, exceptOsError, bind_apply, call, if_pos (hnul.mpr hfree)]
  · refine Settles.of_raises ⟨.indexError, s, ?_⟩ (fun h => hlen h.1)
    exact handleRename_short (List.getElem?_eq_none (Nat.not_lt.mp hlen))

/-! ### Searches -/

/-- The size of the entry that is reported; it is 0 if the host does not know it. -/
theorem searchSize (hnul : 0 ∉ p) : ∃ records, exceptOsError (getsize p >>= fun size =>
    pure (recordsOf size)) (pure 0) s = .ok records { s with touched := p :: s.touched } := by
  have hsize : (∃ size, s.host.getsize p = .ok (size, s.host)) ∨
      s.host.getsize p = .error .osError := by
    unfold Host.getsize
    cases s.host.node p with
    | absent => exact .inr rfl
    | file f => exact .inl ⟨_, rfl⟩
    | directory size => exact .inl ⟨_, rfl⟩
  rcases hsize with ⟨size, hsize⟩ | hsize
  · refine ⟨recordsOf size, ?_⟩
    have hcall : getsize p s = .ok size { s with touched := p :: s.touched } :=
      call_ok hnul hsize
    rw [exceptOsError, bind_apply, hcall]
    rfl
  · refine ⟨0, ?_⟩
    have hcall : getsize p s = .error .osError { s with touched := p :: s.touched } :=
      call_error hnul hsize
    rw [exceptOsError, bind_apply, hcall]
    rfl

/-- What follows on an entry that was taken. -/
theorem searchResult_taken (upper : Nat → Text) {s' : Server} {entry : HostName} {drive : Nat}
    (htake : takeEntry s = .ok (some (entry, drive)) s') :
    searchResult upper s = (encode (ljust 8 (cpmName upper entry.val).1) >>=
      fun fname => encode (ljust 3 (cpmName upper entry.val).2) >>= fun fext =>
        searchDir drive >>= fun dir =>
          exceptOsError (getsize (join dir entry.val) >>= fun size => pure (recordsOf size))
            (pure 0) >>= fun records =>
          store (splice (splice ((List.replicate 32 0#8).set 0 (BitVec.ofNat 8 0)) 1 9 fname) 9 12
            fext) 12 0 >>= fun direntry =>
          store direntry 15 (min records 128) >>= fun direntry =>
          store (List.replicate 33 0#8) 0 0 >>= fun resp =>
          pure (splice resp 1 33 direntry)) s' := by
  rw [searchResult, bind_apply, htake]
  simp only
  rw [store_bind_ok (by rw [List.length_replicate]; omega) (by omega)]

/-- Reporting an entry. -/
theorem searchResult_entry {s' : Server} {entry : HostName} {drive : Nat}
    (htake : takeEntry s = .ok (some (entry, drive)) s') (hsent : s'.sent = s.sent) :
    Settles (searchResult upper) s
      (Encodable upper entry.val ∧ 0 ∉ join ((s'.driveDirs drive).getD [dot]) entry.val) := by
  obtain ⟨hfname, hfext⟩ := length_cpmName upper entry.val
  have hstart := searchResult_taken upper htake
  -- the two calls of `encode`, and then `getsize`, are what may raise
  by_cases hfirst : ∀ c ∈ (cpmName upper entry.val).1, c < 128
  · rw [bind_apply, encode_ok (ljust_ascii.mpr hfirst)] at hstart
    by_cases hsecond : ∀ c ∈ (cpmName upper entry.val).2, c < 128
    · simp only at hstart
      rw [bind_apply, encode_ok (ljust_ascii.mpr hsecond)] at hstart
      have hboth : Encodable upper entry.val := by
        intro c hc
        exact (List.mem_append.mp hc).elim (hfirst c) (hsecond c)
      have hsearchDir : searchDir drive s' = .ok ((s'.driveDirs drive).getD [dot]) s' := rfl
      simp only at hstart
      rw [bind_apply, hsearchDir] at hstart
      simp only at hstart
      by_cases hnul : 0 ∈ join ((s'.driveDirs drive).getD [dot]) entry.val
      · refine Settles.of_raises ⟨.valueError, s', ?_⟩ (fun hc => hc.2 hnul)
        have hraise : getsize (join ((s'.driveDirs drive).getD [dot]) entry.val) s' =
            .error .valueError s' := call_nul hnul
        rw [hstart, bind_apply, exceptOsError, bind_apply, hraise]
      · refine Settles.of_replies ?_ ⟨hboth, hnul⟩
        obtain ⟨records, hrecords⟩ := searchSize (s := s') hnul
        rw [bind_apply, hrecords] at hstart
        simp only at hstart
        have hlen : ∀ fname fext : List Byte, fname.length = 8 → fext.length = 3 →
            (splice (splice ((List.replicate 32 0#8).set 0 (BitVec.ofNat 8 0)) 1 9 fname) 9 12
              fext).length = 32 := by
          intro fname fext hfname hfext
          have hinner : (splice ((List.replicate 32 0#8).set 0 (BitVec.ofNat 8 0)) 1 9
              fname).length = 32 := by
            rw [length_splice (by rw [List.length_set, List.length_replicate]; omega),
              List.length_set, List.length_replicate]
            omega
          rw [length_splice (by omega), hinner]
          omega
        have hentry := hlen ((ljust 8 (cpmName upper entry.val).1).map (BitVec.ofNat 8))
          ((ljust 3 (cpmName upper entry.val).2).map (BitVec.ofNat 8))
          (by rw [List.length_map, length_ljust hfname])
          (by rw [List.length_map, length_ljust hfext])
        rw [store_bind_ok (by rw [hentry]; omega) (by omega),
          store_bind_ok (by rw [List.length_set, hentry]; omega) (by omega),
          store_bind_ok (by rw [List.length_replicate]; omega) (by omega)] at hstart
        refine Replies.of_apply _ _ hstart ?_ hsent
        rw [length_splice (by rw [List.length_set, List.length_replicate]; omega),
          List.length_set, List.length_set, hentry, List.length_set, List.length_replicate]
        omega
    · refine Settles.of_raises ⟨.unicodeError, s', ?_⟩ (fun hc => hsecond fun c hmem =>
        hc.1 c (List.mem_append_right _ hmem))
      rw [hstart]
      simp only
      rw [bind_apply, encode_error (mt ljust_ascii.mp hsecond)]
  · refine Settles.of_raises ⟨.unicodeError, s', ?_⟩ (fun hc => hfirst fun c hmem =>
      hc.1 c (List.mem_append_left _ hmem))
    rw [hstart, bind_apply, encode_error (mt ljust_ascii.mp hfirst)]

theorem searchResult_settles (upper : Nat → Text) (s : Server) :
    Settles (searchResult upper) s (∀ search, s.search = some search →
      ∀ entry, search.found[search.index]? = some entry →
        Encodable upper entry.val ∧
          0 ∉ join ((s.driveDirs search.drive).getD [dot]) entry.val) := by
  -- at the end of the list the reply is `failure`
  have hend : ∀ s', takeEntry s = .ok none s' → s'.sent = s.sent →
      Replies (searchResult upper) s := by
    intro s' htake hsent
    refine Replies.of_apply failure s' ?_ ⟨by decide, by decide⟩ hsent
    rw [searchResult, bind_apply, htake]
    rfl
  cases hsearch : s.search with
  | none =>
      refine Settles.of_replies (hend s ?_ rfl) (fun search h => nomatch h)
      rw [takeEntry, hsearch]
  | some search =>
      cases hentry : search.found[search.index]? with
      | none =>
          refine Settles.of_replies (hend { s with search := none } ?_ rfl) ?_
          · rw [takeEntry, hsearch]
            simp only [hentry]
          · intro search' hsame entry hat
            rw [← Option.some.inj hsame, hentry] at hat
            exact nomatch hat
      | some entry =>
          have htake : takeEntry s = .ok (some (entry, search.drive))
              { s with search := some { search with index := search.index + 1 } } := by
            rw [takeEntry, hsearch]
            simp only [hentry]
          refine (searchResult_entry htake rfl).iff ?_
          constructor
          · intro hc search' hsame entry' hat
            rw [← Option.some.inj hsame] at hat ⊢
            rw [hentry] at hat
            rw [← Option.some.inj hat]
            exact hc
          · exact fun hc => hc search rfl entry hentry

theorem handleSearchFirst_settles :
    Settles (handleSearchFirst upper payload) s
      (Function.Endures upper payload s .searchFirst) := by
  unfold Function.Endures
  by_cases hlen : 2 < payload.length
  · have hcode : payload[2]? = some payload[2] := List.getElem?_eq_getElem hlen
    cases hdir : selectedDir s payload 2 with
    | none =>
        refine Settles.of_replies ?_ ⟨hlen, fun dir h => nomatch h⟩
        have hget : (get : Action Server) s = .ok s s := rfl
        refine Replies.of_apply failure s ?_ ⟨by decide, by decide⟩ rfl
        rw [handleSearchFirst, bind_apply, fcbDrive_some hcode]
        simp only [bind_apply, hget, selectedDir_none hdir _ hcode, pure_apply]
    | some dir =>
        obtain ⟨code, hcode', hmapped⟩ := selectedDir_some hdir
        have happly := handleSearchFirst_apply upper hcode' hmapped
        simp only [hlen, true_and, Option.some.injEq, forall_eq']
        by_cases hnul : 0 ∈ dir
        · refine Settles.of_raises ⟨.valueError, s, ?_⟩ (fun hc => hc.1 hnul)
          rw [happly, if_pos hnul]
        · rw [if_neg hnul] at happly
          refine ((searchResult_settles upper _).congr happly rfl).iff ?_
          simp only [Option.some.injEq, forall_eq', driveDir_some hmapped, Option.getD_some,
            hnul, not_false_eq_true, true_and]
          rw [List.head?_eq_getElem?]
          constructor
          · exact fun hc entry hat => (hc entry hat).1
          · intro hc entry hat
            refine ⟨hc entry hat, ?_⟩
            -- neither the directory nor the entry has a NUL
            rw [entry.property.1.join]
            intro hmem
            rcases List.mem_append.mp hmem with hmem | hmem
            · unfold closed at hmem
              split at hmem
              · exact hnul hmem
              · rcases List.mem_append.mp hmem with hmem | hmem
                · exact hnul hmem
                · exact absurd (List.mem_singleton.mp hmem) (by decide)
            · exact entry.property.2 hmem
  · refine Settles.of_raises ⟨.indexError, s, ?_⟩ (fun h => hlen h.1)
    rw [handleSearchFirst, bind_apply, fcbDrive_none (List.getElem?_eq_none (Nat.not_lt.mp hlen))]

/-! ### The other functions -/

/-- Appending to a file that need not open. -/
theorem append_settles (s : Server) (c : Nat) (file : Text) (line reply : List Byte)
    (hreply : 1 ≤ reply.length ∧ reply.length ≤ 256) :
    Settles (openFile .ab (c :: file) >>= fun bytes =>
      fill (c :: file) (bytes ++ line) >>= fun _ => pure reply) s
      (0 ∉ c :: file ∧ Opens s.host .ab (c :: file)) := by
  by_cases hnul : 0 ∈ c :: file
  · refine Settles.of_raises ⟨.valueError, s, ?_⟩ (fun h => h.1 hnul)
    have hraise : openFile .ab (c :: file) s = .error .valueError s := call_nul hnul
    rw [bind_apply, hraise]
  -- `open` succeeds or raises OSError, and nothing else here can raise
  · rcases openFile_cases s.host .ab (c :: file) with ⟨bytes, h, hopen⟩ | hopen
    · have hopens : Opens s.host .ab (c :: file) := by
        rw [Opens, hopen]
        rfl
      refine Settles.of_replies ?_ ⟨hnul, hopens⟩
      have hcall : openFile .ab (c :: file) s =
          .ok bytes { s with touched := (c :: file) :: s.touched, host := h } := call_ok hnul hopen
      refine Replies.of_apply reply
        { s with
          touched := (c :: file) :: s.touched
          host := h.fill (c :: file) (bytes ++ line) } ?_ hreply rfl
      rw [bind_apply, hcall]
      rfl
    · refine Settles.of_raises ⟨.osError, { s with touched := (c :: file) :: s.touched }, ?_⟩ ?_
      · have hraise : openFile .ab (c :: file) s =
            .error .osError { s with touched := (c :: file) :: s.touched } := call_error hnul hopen
        rw [bind_apply, hraise]
      · intro hc
        have hopens := hc.2
        rw [Opens, hopen] at hopens
        exact Bool.noConfusion hopens

theorem handleListOutput_settles :
    Settles (handleListOutput payload) s (Function.Endures upper payload s .listOutput) := by
  have hget : (get : Action Server) s = .ok s s := rfl
  unfold Function.Endures
  match hfile : s.printerFile with
  | none =>
      refine Settles.of_replies ?_ (fun c file h => nomatch h)
      refine Replies.of_apply [0#8] s ?_ ⟨by decide, by decide⟩ rfl
      rw [handleListOutput, bind_apply, hget]
      simp only [hfile, pure_apply]
  | some [] =>
      refine Settles.of_replies ?_ (fun c file h => nomatch h)
      refine Replies.of_apply [0#8] s ?_ ⟨by decide, by decide⟩ rfl
      rw [handleListOutput, bind_apply, hget]
      simp only [hfile, pure_apply]
  | some (c :: file) =>
      have happend := append_settles s c file [payload.getD 0 0#8] [0#8]
        ⟨by decide, by decide⟩
      refine (happend.congr ?_ rfl).iff ?_
      · rw [handleListOutput, bind_apply, hget]
        simp only [hfile]
      · simp only [Option.some.injEq, List.cons.injEq]
        constructor
        · rintro hc c' file' ⟨rfl, rfl⟩
          exact hc
        · exact fun hc => hc c file ⟨rfl, rfl⟩

theorem handleUnknown_settles (fnc : Byte) :
    Settles (handleUnknown fnc) s (∀ c file, s.errorFile = some (c :: file) →
      0 ∉ c :: file ∧ Opens s.host .ab (c :: file)) := by
  have hget : (get : Action Server) s = .ok s s := rfl
  match hfile : s.errorFile with
  | none =>
      refine Settles.of_replies ?_ (fun c file h => nomatch h)
      refine Replies.of_apply failure s ?_ ⟨by decide, by decide⟩ rfl
      rw [handleUnknown, bind_apply, hget]
      simp only [hfile, pure_apply]
  | some [] =>
      refine Settles.of_replies ?_ (fun c file h => nomatch h)
      refine Replies.of_apply failure s ?_ ⟨by decide, by decide⟩ rfl
      rw [handleUnknown, bind_apply, hget]
      simp only [hfile, pure_apply]
  | some (c :: file) =>
      have happend := append_settles s c file (unhandledLine fnc) failure
        ⟨by decide, by decide⟩
      refine (happend.congr ?_ rfl).iff ?_
      · rw [handleUnknown, bind_apply, hget]
        simp only [hfile]
      · simp only [Option.some.injEq, List.cons.injEq]
        constructor
        · rintro hc c' file' ⟨rfl, rfl⟩
          exact hc
        · exact fun hc => hc c file ⟨rfl, rfl⟩

theorem handleSetAttrs_settles :
    Settles (handleSetAttrs payload) s (Function.Endures upper payload s .setAttrs) := by
  unfold Function.Endures
  by_cases hlen : 1 < payload.length
  · refine Settles.of_replies ?_ hlen
    refine Replies.of_apply [0#8] s ?_ ⟨by decide, by decide⟩ rfl
    rw [handleSetAttrs, bind_apply, fcbDrive_some (List.getElem?_eq_getElem hlen)]
    rfl
  · refine Settles.of_raises ⟨.indexError, s, ?_⟩ hlen
    rw [handleSetAttrs, bind_apply, fcbDrive_none (List.getElem?_eq_none (Nat.not_lt.mp hlen))]

theorem handleConsoleOutput_settles :
    Settles (handleConsoleOutput payload) s
      (Function.Endures upper payload s .consoleOutput) := by
  unfold handleConsoleOutput Function.Endures
  by_cases hempty : payload = []
  · rw [if_pos hempty]
    exact Settles.of_raises ⟨.indexError, s, rfl⟩ (fun hne => hne hempty)
  · rw [if_neg hempty]
    exact Settles.of_replies (Replies.of_apply _ _ rfl ⟨by decide, by decide⟩ rfl) hempty

/-- **Every handler** answers exactly the requests that its function endures. -/
theorem handle_settles (f : Function) :
    Settles (f.handle upper payload) s (f.Endures upper payload s) := by
  cases f with
  | openFile => exact handleOpen_settles
  | searchFirst => exact handleSearchFirst_settles
  | searchNext => exact searchResult_settles upper s
  | deleteFile => exact handleDelete_settles
  | renameFile => exact handleRename_settles
  | readSeq => exact handleReadSeq_settles
  | writeSeq => exact handleWriteSeq_settles
  | makeFile => exact handleMakeFile_settles
  | writeRand => exact writeRandom_settles _
  | writeRandZf => exact writeRandom_settles _
  | readRand => exact handleReadRand_settles
  | fileSize => exact handleFileSize_settles
  | listOutput => exact handleListOutput_settles
  | setAttrs => exact handleSetAttrs_settles
  | consoleOutput => exact handleConsoleOutput_settles
  | _ =>
      -- the reply is fixed
      exact Settles.of_replies (Replies.of_apply _ _ rfl ⟨by decide, by decide⟩ rfl) trivial

/-! ### Requests -/

/-- The request ends normally, and hands `send_frame` one reply that is well formed. -/
def Answered (upper : Nat → Text) (hdr : Header) (payload : List Byte) (s : Server) : Prop :=
  ∃ s' frame, handleRequest upper hdr payload s = .ok () s' ∧ s'.sent = frame :: s.sent ∧
    1 ≤ frame.payload.length ∧ frame.payload.length ≤ 256 ∧
    frame.hdr.siz.toNat = frame.payload.length - 1

/-- **The server answers** exactly the requests that the function endures. -/
theorem answered_iff (upper : Nat → Text) (hdr : Header) (payload : List Byte) (s : Server)
    (hfnc : hdr.fnc ≠ 0xFE#8) :
    Answered upper hdr payload s ↔ Endures upper hdr.fnc payload s := by
  by_cases hinit : hdr.fnc = 0xFF#8
  · -- the reply to an initialization has three bytes
    have hendures : Endures upper hdr.fnc payload s := by
      unfold Endures
      rw [hinit]
      exact .inl rfl
    refine iff_of_true ?_ hendures
    unfold Answered handleRequest
    rw [if_pos hinit]
    have hpos : 1 ≤ 3 := by omega
    have hlen : 3 ≤ 256 := by omega
    exact ⟨_, _, rfl, rfl, hpos, hlen, rfl⟩
  -- every other function ends in one `respond`, which replies or raises
  · have hsettles : Settles (respond upper hdr.fnc payload) s
        (Endures upper hdr.fnc payload s) := by
      unfold respond Endures
      cases Function.ofCode hdr.fnc with
      | some f => exact handle_settles f
      | none =>
          refine (handleUnknown_settles hdr.fnc).iff ?_
          simp only [hinit, false_or]
    unfold Answered handleRequest
    rw [if_neg hinit, if_neg hfnc]
    constructor
    · rintro ⟨s', frame, hok, _⟩
      by_contra hnot
      obtain ⟨e, s'', hraise⟩ := hsettles.raises hnot
      rw [bind_apply, hraise] at hok
      exact nomatch hok
    · intro hendures
      obtain ⟨r, s', hr, hpos, hlen, hsent⟩ := hsettles.replies hendures
      let frame : Frame :=
        ⟨⟨1#8, hdr.sid, s'.serverNode, hdr.fnc, BitVec.ofNat 8 (r.length + 255)⟩, r⟩
      refine ⟨{ s' with sent := frame :: s'.sent }, frame, ?_, ?_, hpos, hlen, ?_⟩
      · rw [bind_apply, hr]
        rfl
      · rw [← hsent]
      · show (BitVec.ofNat 8 (r.length + 255)).toNat = r.length - 1
        rw [BitVec.toNat_ofNat]
        omega

/-- Opening a file that is not there. -/
theorem answered_open :
    Answered asciiUpper ⟨0#8, 0#8, 1#8, 15#8, 12#8⟩ (request 1#8 "FOO     TXT" []) emptyServer := by
  have hlen : (request 1#8 "FOO     TXT" []).length = 13 := by decide
  refine (answered_iff asciiUpper _ _ _ (by decide)).mpr ?_
  show 1 < _ ∧ ∀ path, _ → _ → 13 ≤ _
  rw [hlen]
  exact ⟨by omega, fun _ _ _ => Nat.le_refl 13⟩

/-- Deleting a file with a payload that has no drive code. -/
theorem shortPayload_raises :
    ¬ ∀ (upper : Nat → Text) (hdr : Header) (payload : List Byte) (s : Server),
      payload.length = hdr.siz.toNat + 1 → hdr.fnc ≠ 0xFE#8 → Answered upper hdr payload s := by
  intro hclaim
  obtain ⟨s', frame, hok, _⟩ := hclaim asciiUpper ⟨0#8, 0#8, 1#8, 19#8, 0#8⟩ [0#8] emptyServer
    (by decide) (by decide)
  have hraise : handleRequest asciiUpper ⟨0#8, 0#8, 1#8, 19#8, 0#8⟩ [0#8] emptyServer =
      .error .indexError emptyServer := rfl
  rw [hraise] at hok
  exact nomatch hok

end CpNet
end Rc700
