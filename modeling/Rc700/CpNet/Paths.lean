import Rc700.CpNet.Matching

/-!
# The host paths of a request

Each function that takes a file control block gives the host only paths that it joins
from a drive directory and a name (`hostNames`).  The drive directory is that of the
drive code's low four bits, and of the pending search for SEARCH NEXT; the name is text
from the request, or an entry of the directory for a search.

Whether a request stays in the directory of the drive that it asks for, whatever the drives
and the host hold, can be read off from its bytes (`confined_iff`): a drive code of 16 selects
the first drive, and a name may have separators of its own.
-/

namespace Rc700
namespace CpNet

open Library PathText CpNet.Action

variable {α β : Type} {upper : Nat → Text} {payload : List Byte} {s : Server} {p : Text}

/-! ### What a computation touches -/

/-- The paths that have been given to the host. -/
def touchedBy (m : Action α) (s : Server) : List Text := (after (m s)).touched

/-- The computation gives the host no path. -/
def Quiet (m : Action α) : Prop := ∀ s, touchedBy m s = s.touched

theorem Quiet.pure (a : α) : Quiet (Pure.pure a) := fun _ => rfl

theorem Quiet.throw (e : PyError) : Quiet (MonadExcept.throw e : Action α) := fun _ => rfl

theorem touchedBy_bind_ok {m : Action α} {f : α → Action β} {a : α} {s' : Server}
    (hm : m s = .ok a s') : touchedBy (m >>= f) s = touchedBy (f a) s' := by
  rw [touchedBy, bind_apply, hm]
  rfl

theorem touchedBy_bind_error {m : Action α} {f : α → Action β} {e : PyError} {s' : Server}
    (hm : m s = .error e s') : touchedBy (m >>= f) s = s'.touched := by
  rw [touchedBy, bind_apply, hm]
  rfl

/-- What follows gives the host nothing. -/
theorem touchedBy_bind_quiet {m : Action α} {f : α → Action β} (hf : ∀ a, Quiet (f a)) :
    touchedBy (m >>= f) s = touchedBy m s := by
  cases hm : m s with
  | ok a s' =>
      rw [touchedBy_bind_ok hm, hf a s', touchedBy, hm]
      rfl
  | error e s' =>
      rw [touchedBy_bind_error hm, touchedBy, hm]
      rfl

theorem Quiet.bind {m : Action α} {f : α → Action β} (hm : Quiet m) (hf : ∀ a, Quiet (f a)) :
    Quiet (m >>= f) := by
  intro s
  rw [touchedBy_bind_quiet hf, hm s]

theorem Quiet.ite {c : Prop} [Decidable c] {m m' : Action α} (hm : Quiet m) (hm' : Quiet m') :
    Quiet (if c then m else m') := by
  split
  · exact hm
  · exact hm'

/-- Catching `OSError` gives the host nothing more. -/
theorem touchedBy_exceptOsError {body handler : Action α} (hhandler : Quiet handler) :
    touchedBy (exceptOsError body handler) s = touchedBy body s := by
  unfold touchedBy exceptOsError
  cases hbody : body s with
  | ok a s' => rfl
  | error e s' =>
      cases e with
      | osError => exact hhandler s'
      | _ => rfl

/-- A call of the host gives it the paths, unless one has a NUL. -/
theorem touchedBy_call (paths : List Text) (op : Host → Except PyError (α × Host)) :
    touchedBy (call paths op) s =
      if ∃ p ∈ paths, 0 ∈ p then s.touched else paths ++ s.touched := by
  unfold touchedBy call
  by_cases hnul : ∃ p ∈ paths, 0 ∈ p
  · rw [if_pos hnul, if_pos hnul]
    rfl
  · rw [if_neg hnul, if_neg hnul]
    simp only
    split <;> rfl

theorem store_quiet (resp : List Byte) (i v : Nat) : Quiet (store resp i v) :=
  Quiet.ite (Quiet.throw _) (Quiet.ite (Quiet.throw _) (Quiet.pure _))

theorem fill_quiet (p : Text) (bytes : List Byte) : Quiet (fill p bytes) := fun _ => rfl

theorem openReply_quiet (drive : Nat) (name : List Byte) (records : Nat) :
    Quiet (openReply drive name records) := by
  unfold openReply
  repeat (first | exact store_quiet _ _ _ | refine Quiet.bind (store_quiet _ _ _) fun _ => ?_)

theorem makeReply_quiet (payload : List Byte) : Quiet (makeReply payload) := by
  unfold makeReply
  repeat (first | exact store_quiet _ _ _ | refine Quiet.bind (store_quiet _ _ _) fun _ => ?_)

theorem fileSizeReply_quiet (payload : List Byte) (records : Nat) :
    Quiet (fileSizeReply payload records) := by
  unfold fileSizeReply
  repeat (first | exact store_quiet _ _ _ | refine Quiet.bind (store_quiet _ _ _) fun _ => ?_)

theorem readReply_quiet (payload : List Byte) (ex cr : Nat) (data : List Byte) :
    Quiet (readReply payload ex cr data) := by
  unfold readReply
  refine Quiet.bind (store_quiet _ _ _) fun _ => ?_
  refine Quiet.bind (store_quiet _ _ _) fun _ => ?_
  exact Quiet.bind (store_quiet _ _ _) fun _ => Quiet.pure _

theorem writeSeqReply_quiet (payload : List Byte) (ex cr : Nat) :
    Quiet (writeSeqReply payload ex cr) := by
  unfold writeSeqReply
  refine Quiet.bind (store_quiet _ _ _) fun _ => ?_
  exact Quiet.bind (Quiet.ite (store_quiet _ _ _) (Quiet.pure _)) fun _ => Quiet.pure _

theorem writeRandReply_quiet (payload : List Byte) (record : Nat) :
    Quiet (writeRandReply payload record) := by
  unfold writeRandReply
  repeat (first | exact store_quiet _ _ _ | refine Quiet.bind (store_quiet _ _ _) fun _ => ?_)

/-! ### One file -/

/-- The paths given to the host are those from before and this one. -/
def TouchesOnly (m : Action α) (s : Server) (p : Text) : Prop :=
  ∀ q, q ∈ touchedBy m s ↔ q ∈ s.touched ∨ (0 ∉ p ∧ q = p)

theorem touchesOnly_call (op : Host → Except PyError (α × Host)) :
    TouchesOnly (call [p] op) s p := by
  intro q
  rw [touchedBy_call]
  simp only [List.mem_singleton, exists_eq_left]
  by_cases hnul : 0 ∈ p
  · simp [hnul]
  · simp [hnul, or_comm]

theorem TouchesOnly.bind {m : Action α} {f : α → Action β} (hm : TouchesOnly m s p)
    (hf : ∀ a, Quiet (f a)) : TouchesOnly (m >>= f) s p := by
  intro q
  rw [touchedBy_bind_quiet hf]
  exact hm q

theorem TouchesOnly.exceptOsError {body handler : Action α} (hbody : TouchesOnly body s p)
    (hhandler : Quiet handler) : TouchesOnly (exceptOsError body handler) s p := by
  intro q
  rw [touchedBy_exceptOsError hhandler]
  exact hbody q

/-- The question whether a file exists, and what depends on it. -/
theorem touchesOnly_exists {f : Bool → Action β}
    (hf : ∀ b s, Quiet (f b) ∨ TouchesOnly (f b) s p) :
    TouchesOnly (pathExists p >>= f) s p := by
  intro q
  by_cases hnul : 0 ∈ p
  · have hask : pathExists p s = .ok false s := by
      unfold pathExists
      rw [if_pos hnul]
    rw [touchedBy_bind_ok hask]
    rcases hf false s with hquiet | htouches
    · rw [hquiet s]
      simp [hnul]
    · exact htouches q
  · have hask : pathExists p s =
        .ok (decide (s.host.node p ≠ .absent)) { s with touched := p :: s.touched } := by
      unfold pathExists
      rw [if_neg hnul]
    rw [touchedBy_bind_ok hask]
    rcases hf (decide (s.host.node p ≠ .absent)) { s with touched := p :: s.touched } with
      hquiet | htouches
    · rw [hquiet]
      simp [hnul, or_comm]
    · rw [htouches q]
      simp only [List.mem_cons, hnul, not_false_eq_true, true_and]
      tauto

theorem openForWrite_touches : TouchesOnly (openForWrite p) s p := by
  refine touchesOnly_exists fun b s => .inr ?_
  split
  · exact touchesOnly_call _
  · exact touchesOnly_call _

/-- The functions that name one file. -/
def Function.NamesFile : Function → Bool
  | .openFile => true
  | .deleteFile => true
  | .readSeq => true
  | .writeSeq => true
  | .makeFile => true
  | .writeRand => true
  | .writeRandZf => true
  | .readRand => true
  | .fileSize => true
  | _ => false

/-- The length from which the function looks at the file. -/
def Function.reach : Function → Nat
  | .readRand => 37
  | .writeSeq => 165
  | .writeRand => 165
  | .writeRandZf => 165
  | _ => 0

/-- A random write. -/
theorem touches_writeRandom (put : List Byte → Nat → List Byte → List Byte) {code : Byte}
    {dir : Text} (hcode : payload[1]? = some code)
    (hdir : s.driveDir (driveOf code) = some dir) :
    (165 ≤ payload.length →
      TouchesOnly (writeRandom put payload) s (join dir (nameText (fcbName payload 1)))) ∧
    (payload.length < 165 → touchedBy (writeRandom put payload) s = s.touched) := by
  constructor
  · intro hlen q
    rw [touchedBy, writeRandom, withPath_mapped hcode hdir, if_neg (by omega), if_neg (by omega)]
    refine (openForWrite_touches.bind fun _ => ?_).exceptOsError (Quiet.pure failure) q
    exact (fill_quiet _ _).bind fun _ => writeRandReply_quiet _ _
  · intro hlen
    rw [touchedBy, writeRandom, withPath_mapped hcode hdir]
    by_cases hshort : payload.length < 37
    · rw [if_pos hshort]
      rfl
    · rw [if_neg hshort, if_pos (by omega)]
      rfl

/-- A function that names one file gives its path to the host, or nothing. -/
theorem touches_file (upper : Nat → Text) {f : Function} (hf : f.NamesFile = true) {code : Byte}
    {dir : Text}
    (hcode : payload[1]? = some code) (hdir : s.driveDir (driveOf code) = some dir) :
    (f.reach ≤ payload.length →
      TouchesOnly (f.handle upper payload) s (join dir (nameText (fcbName payload 1)))) ∧
    (payload.length < f.reach → touchedBy (f.handle upper payload) s = s.touched) := by
  have hquiet : Quiet (pure failure) := Quiet.pure failure
  -- each of the handlers begins with the path of the FCB in the request
  have hmapped : ∀ body, touchedBy (withPath payload body) s =
      touchedBy (body (driveOf code) (join dir (nameText (fcbName payload 1)))) s := by
    intro body
    rw [touchedBy, withPath_mapped hcode hdir]
    rfl
  cases f with
  | openFile =>
      refine ⟨fun _ q => ?_, fun hlen => absurd hlen (Nat.not_lt_zero _)⟩
      rw [Function.handle, handleOpen, hmapped]
      refine touchesOnly_exists (fun b s => ?_) q
      cases b with
      | true => exact .inr ((touchesOnly_call _).bind fun _ => openReply_quiet _ _ _)
      | false => exact .inl hquiet
  | fileSize =>
      refine ⟨fun _ q => ?_, fun hlen => absurd hlen (Nat.not_lt_zero _)⟩
      rw [Function.handle, handleFileSize, hmapped]
      refine touchesOnly_exists (fun b s => ?_) q
      cases b with
      | true => exact .inr ((touchesOnly_call _).bind fun _ => fileSizeReply_quiet _ _)
      | false => exact .inl hquiet
  | deleteFile =>
      refine ⟨fun _ q => ?_, fun hlen => absurd hlen (Nat.not_lt_zero _)⟩
      rw [Function.handle, handleDelete, hmapped]
      refine touchesOnly_exists (fun b s => ?_) q
      cases b with
      | true =>
          exact .inr (((touchesOnly_call _).bind fun _ => Quiet.pure _).exceptOsError hquiet)
      | false => exact .inl hquiet
  | makeFile =>
      refine ⟨fun _ q => ?_, fun hlen => absurd hlen (Nat.not_lt_zero _)⟩
      rw [Function.handle, handleMakeFile, hmapped]
      exact ((touchesOnly_call _).bind fun _ => makeReply_quiet _).exceptOsError hquiet q
  | readSeq =>
      refine ⟨fun _ q => ?_, fun hlen => absurd hlen (Nat.not_lt_zero _)⟩
      rw [Function.handle, handleReadSeq, hmapped]
      refine ((touchesOnly_call _).bind fun _ => ?_).exceptOsError hquiet q
      exact Quiet.ite (Quiet.pure _) (readReply_quiet _ _ _ _)
  | readRand =>
      -- a request that is too short is refused before the file is touched
      rw [Function.handle, handleReadRand]
      constructor
      · intro hlen q
        have hlong : ¬ payload.length < 37 := Nat.not_lt.mpr hlen
        rw [hmapped, if_neg hlong]
        refine ((touchesOnly_call _).bind fun _ => ?_).exceptOsError hquiet q
        exact Quiet.ite (Quiet.pure _) (readReply_quiet _ _ _ _)
      · intro hlen
        have hshort : payload.length < 37 := hlen
        rw [hmapped, if_pos hshort]
        rfl
  | writeSeq =>
      -- here too, and 128 bytes of data must be behind the FCB
      rw [Function.handle, handleWriteSeq]
      constructor
      · intro hlen q
        have hlong : ¬ payload.length < 37 + 128 := Nat.not_lt.mpr hlen
        rw [hmapped, if_neg hlong]
        refine (openForWrite_touches.bind fun _ => ?_).exceptOsError hquiet q
        exact (fill_quiet _ _).bind fun _ => writeSeqReply_quiet _ _ _
      · intro hlen
        have hshort : payload.length < 37 + 128 := hlen
        rw [hmapped, if_pos hshort]
        rfl
  | writeRand => exact touches_writeRandom _ hcode hdir
  | writeRandZf => exact touches_writeRandom _ hcode hdir
  | _ => exact Bool.noConfusion hf

/-- Without a directory nothing is touched. -/
theorem touches_unmapped {f : Function} (hf : f.NamesFile = true)
    (hdir : ∀ code, payload[1]? = some code → s.driveDir (driveOf code) = none) :
    touchedBy (f.handle upper payload) s = s.touched := by
  have hnone : ∀ body, touchedBy (withPath payload body) s = s.touched := by
    intro body
    unfold touchedBy
    cases hcode : payload[1]? with
    | none =>
        rw [withPath_short hcode]
        rfl
    | some code =>
        rw [withPath_unmapped hcode (hdir code hcode)]
        rfl
  cases f with
  | openFile | deleteFile | readSeq | writeSeq | makeFile | writeRand | writeRandZf | readRand
  | fileSize => exact hnone _
  | _ => exact Bool.noConfusion hf

/-! ### RENAME and SEARCH -/

/-- The names that a function takes from the request. -/
def Function.names (payload : List Byte) : Function → List Text
  | .renameFile =>
      [nameText ((slice payload 2 13).map (· &&& 0x7F#8)),
        nameText ((slice payload 18 29).map (· &&& 0x7F#8))]
  | _ => [nameText (fcbName payload 1)]

/-- Both paths of a rename are given to the host, or none. -/
theorem touches_rename {code : Byte} {dir : Text} (hcode : payload[1]? = some code)
    (hdir : s.driveDir (driveOf code) = some dir) :
    touchedBy (handleRename payload) s =
      if ∃ q ∈ (Function.names payload .renameFile).map (join dir), 0 ∈ q then s.touched
      else (Function.names payload .renameFile).map (join dir) ++ s.touched := by
  have hresolve : ∀ name, resolvePath (driveOf code) name s =
      .ok (some (join dir (nameText name))) s := by
    intro name
    simp only [resolvePath, hdir, Option.map_some]
  unfold handleRename
  rw [touchedBy_bind_ok (fcbDrive_some hcode), touchedBy_bind_ok (hresolve _),
    touchedBy_bind_ok (hresolve _), touchedBy_exceptOsError (Quiet.pure failure),
    touchedBy_bind_quiet (fun _ => Quiet.pure _), touchedBy_call]
  rfl

theorem touches_rename_unmapped
    (hdir : ∀ code, payload[1]? = some code → s.driveDir (driveOf code) = none) :
    touchedBy (handleRename payload) s = s.touched := by
  unfold handleRename
  cases hcode : payload[1]? with
  | none => rw [touchedBy_bind_error (fcbDrive_none hcode)]
  | some code =>
      have hresolve : ∀ name, resolvePath (driveOf code) name s = .ok none s := by
        intro name
        simp only [resolvePath, hdir code hcode, Option.map_none]
      rw [touchedBy_bind_ok (fcbDrive_some hcode), touchedBy_bind_ok (hresolve _),
        touchedBy_bind_ok (hresolve _)]
      rfl

/-- The entry that a search reports next, with the directory of the search. -/
def searchNames (upper : Nat → Text) (s : Server) (search : Search) : List (Text × Text) :=
  match search.found[search.index]? with
  | none => []
  | some entry =>
      if Encodable upper entry.val then [((s.driveDirs search.drive).getD [dot], entry.val)]
      else []

/-- A search that is not pending, or is at its end, touches nothing. -/
theorem touches_searchResult_none {s' : Server} (htake : takeEntry s = .ok none s') :
    touchedBy (searchResult upper) s = s'.touched := by
  rw [searchResult, touchedBy_bind_ok htake]
  rfl

theorem touches_searchResult_some {s' : Server} {entry : HostName} {drive : Nat}
    (htake : takeEntry s = .ok (some (entry, drive)) s') (q : Text) :
    q ∈ touchedBy (searchResult upper) s ↔
      q ∈ s'.touched ∨ (Encodable upper entry.val ∧
        0 ∉ join ((s'.driveDirs drive).getD [dot]) entry.val ∧
        q = join ((s'.driveDirs drive).getD [dot]) entry.val) := by
  have hzero : ∀ resp i v, i < resp.length → v < 256 →
      store resp i v s' = .ok (resp.set i (BitVec.ofNat 8 v)) s' := by
    intro resp i v hi hv
    rw [store, if_neg (by omega), if_neg (by omega)]
    rfl
  rw [searchResult, touchedBy_bind_ok htake]
  simp only
  rw [touchedBy_bind_ok (hzero _ 0 0 (by simp) (by omega))]
  unfold Encodable
  by_cases hfirst : ∀ c ∈ (cpmName upper entry.val).1, c < 128
  · rw [touchedBy_bind_ok (encode_ok (ljust_ascii.mpr hfirst))]
    by_cases hsecond : ∀ c ∈ (cpmName upper entry.val).2, c < 128
    · rw [touchedBy_bind_ok (encode_ok (ljust_ascii.mpr hsecond))]
      have hsearchDir : searchDir drive s' = .ok ((s'.driveDirs drive).getD [dot]) s' := rfl
      have hboth : ∀ c ∈ (cpmName upper entry.val).1 ++ (cpmName upper entry.val).2, c < 128 := by
        intro c hc
        exact (List.mem_append.mp hc).elim (hfirst c) (hsecond c)
      rw [touchedBy_bind_ok hsearchDir, iff_true_intro hboth, true_and]
      refine TouchesOnly.bind ?_ (fun _ => ?_) q
      · exact ((touchesOnly_call _).bind fun _ => Quiet.pure _).exceptOsError (Quiet.pure _)
      · refine Quiet.bind (store_quiet _ _ _) fun _ => ?_
        refine Quiet.bind (store_quiet _ _ _) fun _ => ?_
        exact Quiet.bind (store_quiet _ _ _) fun _ => Quiet.pure _
    · rw [touchedBy_bind_error (encode_error (mt ljust_ascii.mp hsecond))]
      have hnot : ¬ ∀ c ∈ (cpmName upper entry.val).1 ++ (cpmName upper entry.val).2, c < 128 :=
        fun hall => hsecond fun c hc => hall c (List.mem_append_right _ hc)
      rw [iff_false_intro hnot, false_and, or_false]
  · rw [touchedBy_bind_error (encode_error (mt ljust_ascii.mp hfirst))]
    have hnot : ¬ ∀ c ∈ (cpmName upper entry.val).1 ++ (cpmName upper entry.val).2, c < 128 :=
      fun hall => hfirst fun c hc => hall c (List.mem_append_left _ hc)
    rw [iff_false_intro hnot, false_and, or_false]

/-- The result of a search touches the entry it reports. -/
theorem touches_searchResult (upper : Nat → Text) (s : Server) (q : Text) :
    q ∈ touchedBy (searchResult upper) s ↔
      q ∈ s.touched ∨ ∃ search, s.search = some search ∧
        ∃ pair ∈ searchNames upper s search, 0 ∉ join pair.1 pair.2 ∧ q = join pair.1 pair.2 := by
  cases hsearch : s.search with
  | none =>
      have htake : takeEntry s = .ok none s := by
        rw [takeEntry, hsearch]
      rw [touches_searchResult_none htake]
      simp
  | some search =>
      cases hentry : search.found[search.index]? with
      | none =>
          have htake : takeEntry s = .ok none { s with search := none } := by
            rw [takeEntry, hsearch]
            simp only [hentry]
          rw [touches_searchResult_none htake]
          simp [searchNames, hentry]
      | some entry =>
          have htake : takeEntry s = .ok (some (entry, search.drive))
              { s with search := some { search with index := search.index + 1 } } := by
            rw [takeEntry, hsearch]
            simp only [hentry]
          rw [touches_searchResult_some htake]
          simp only [Option.some.injEq, exists_eq_left', searchNames, hentry]
          by_cases hencodable : Encodable upper entry.val
          · simp [hencodable]
          · simp [hencodable]

theorem handleSearchFirst_unmapped
    (hdir : ∀ code, payload[2]? = some code → s.driveDir (driveOf code) = none) :
    touchedBy (handleSearchFirst upper payload) s = s.touched := by
  unfold handleSearchFirst
  cases hcode : payload[2]? with
  | none => rw [touchedBy_bind_error (fcbDrive_none hcode)]
  | some code =>
      have hget : (get : Action Server) s = .ok s s := rfl
      rw [touchedBy_bind_ok (fcbDrive_some hcode), touchedBy_bind_ok hget, hdir code hcode]
      rfl

/-! ### The paths of every function -/

/-- The functions that take a file control block. -/
def Function.UsesFcb (f : Function) : Bool :=
  f.NamesFile || f == .renameFile || f == .searchFirst || f == .searchNext

/-- Where the file control block starts. -/
def Function.fcbOffset : Function → Nat
  | .searchFirst => 2
  | .searchNext => 2
  | _ => 1

/-- The directories and names that a request joins. -/
def requestNames (upper : Nat → Text) (f : Function) (payload : List Byte) (s : Server) :
    List (Text × Text) :=
  match f with
  | .searchFirst =>
      match selectedDir s payload 2 with
      | none => []
      | some dir =>
          searchNames upper s
            ⟨foundIn upper s.host dir (fcbName payload 2), 0, driveOf (payload.getD 2 0#8)⟩
  | .searchNext => (s.search.map (searchNames upper s)).getD []
  | f =>
      match selectedDir s payload 1 with
      | none => []
      | some dir =>
          if f.reach ≤ payload.length then (f.names payload).map (fun x => (dir, x)) else []

/-- The directories and names of the paths that reach the host: none if one of them has
a NUL. -/
def hostNames (upper : Nat → Text) (f : Function) (payload : List Byte) (s : Server) :
    List (Text × Text) :=
  if ∃ pair ∈ requestNames upper f payload s, 0 ∈ join pair.1 pair.2 then []
  else requestNames upper f payload s

theorem mem_hostNames_single {pair : Text × Text} :
    (∃ q ∈ (if ∃ r ∈ [pair], 0 ∈ join r.1 r.2 then [] else [pair]), p = join q.1 q.2) ↔
      0 ∉ join pair.1 pair.2 ∧ p = join pair.1 pair.2 := by
  by_cases hnul : 0 ∈ join pair.1 pair.2
  · simp [hnul]
  · simp [hnul]

/-- The entries that a search reports have no NUL, so its path has one if and only if the
directory has. -/
theorem mem_searchNames (search : Search) :
    (∃ pair ∈ searchNames upper s search, 0 ∉ join pair.1 pair.2 ∧ p = join pair.1 pair.2) ↔
      ∃ pair ∈ (if ∃ r ∈ searchNames upper s search, 0 ∈ join r.1 r.2 then []
        else searchNames upper s search), p = join pair.1 pair.2 := by
  unfold searchNames
  split
  · simp
  · split
    · rw [mem_hostNames_single]
      simp
    · simp

/-- The path of a search has a NUL if the directory has. -/
theorem searchNames_nul {search : Search} {dir : Text} (hdir : s.driveDirs search.drive = some dir)
    (hnul : 0 ∈ dir) {pair : Text × Text} (hpair : pair ∈ searchNames upper s search) :
    0 ∈ join pair.1 pair.2 := by
  unfold searchNames at hpair
  split at hpair
  · exact absurd hpair List.not_mem_nil
  · next entry _ =>
    split at hpair
    · rw [List.mem_singleton] at hpair
      subst hpair
      rw [hdir, Option.getD_some, entry.property.1.join]
      apply List.mem_append_left
      unfold closed
      split
      · exact hnul
      · exact List.mem_append_left _ hnul
    · exact absurd hpair List.not_mem_nil

/-- **The paths of a request** are those joined from its directories and names. -/
theorem mem_touchedBy {f : Function} (hf : f.UsesFcb = true) (q : Text) :
    q ∈ touchedBy (f.handle upper payload) s ↔
      q ∈ s.touched ∨ ∃ pair ∈ hostNames upper f payload s, q = join pair.1 pair.2 := by
  by_cases hnames : f.NamesFile = true
  · have hrequest : requestNames upper f payload s =
        match selectedDir s payload 1 with
        | none => []
        | some dir =>
            if f.reach ≤ payload.length then [(dir, nameText (fcbName payload 1))] else [] := by
      cases f with
      | renameFile | searchFirst | searchNext => exact Bool.noConfusion hnames
      | _ => rfl
    unfold hostNames
    rw [hrequest]
    cases hdir : selectedDir s payload 1 with
    | none =>
        rw [touches_unmapped hnames (selectedDir_none hdir)]
        simp
    | some dir =>
        obtain ⟨code, hcode, hmapped⟩ := selectedDir_some hdir
        obtain ⟨hlong, hshort⟩ := touches_file upper hnames hcode hmapped
        by_cases hlen : f.reach ≤ payload.length
        · simp only [if_pos hlen]
          rw [hlong hlen q, mem_hostNames_single]
        · simp only [if_neg hlen]
          rw [hshort (Nat.lt_of_not_le hlen)]
          simp
  -- RENAME has two names, and the searches have what is in the directory
  · cases f with
    | renameFile =>
        unfold hostNames requestNames
        simp only [Function.handle, Function.reach, Nat.zero_le, if_true]
        cases hdir : selectedDir s payload 1 with
        | none =>
            rw [touches_rename_unmapped (selectedDir_none hdir)]
            simp
        | some dir =>
            obtain ⟨code, hcode, hmapped⟩ := selectedDir_some hdir
            rw [touches_rename hcode hmapped]
            simp only [List.mem_map, exists_exists_and_eq_and]
            split
            · simp
            · simp only [List.mem_append, List.mem_map, exists_exists_and_eq_and, or_comm]
              simp [eq_comm]
    | searchFirst =>
        unfold hostNames requestNames
        simp only [Function.handle]
        cases hdir : selectedDir s payload 2 with
        | none =>
            rw [handleSearchFirst_unmapped (selectedDir_none hdir)]
            simp
        | some dir =>
            obtain ⟨code, hcode, hmapped⟩ := selectedDir_some hdir
            have hgetD : payload.getD 2 0#8 = code := by
              rw [List.getD_eq_getElem?_getD, hcode]
              rfl
            simp only [hgetD]
            rw [← mem_searchNames, touchedBy, handleSearchFirst_apply upper hcode hmapped]
            by_cases hnul : 0 ∈ dir
            · rw [if_pos hnul]
              refine iff_of_eq (Eq.symm (or_iff_left ?_).eq)
              rintro ⟨pair, hpair, hfree, _⟩
              exact hfree (searchNames_nul (driveDir_some hmapped) hnul hpair)
            · rw [if_neg hnul]
              have hresult := touches_searchResult upper { s with
                search := some ⟨foundIn upper s.host dir (fcbName payload 2), 0, driveOf code⟩ } q
              simp only [Option.some.injEq, exists_eq_left'] at hresult
              exact hresult
    | searchNext =>
        unfold hostNames requestNames
        simp only [Function.handle, handleSearchNext]
        rw [touches_searchResult upper s q]
        cases hsearch : s.search with
        | none => simp
        | some search =>
            simp only [Option.some.injEq, exists_eq_left', Option.map_some, Option.getD_some]
            rw [mem_searchNames]
    | _ => first | exact absurd rfl hnames | exact Bool.noConfusion hf

/-! ### The pending search -/

/-- The drive of the pending search has a directory. -/
def Server.Mapped (s : Server) : Prop :=
  ∀ search, s.search = some search → ∃ dir, s.driveDir search.drive = some dir

/-- The computation keeps it so. -/
def KeepsMapped (m : Action α) : Prop := ∀ s : Server, s.Mapped → (after (m s)).Mapped

/-- What a computation changes of neither the drives nor the search leaves the search mapped. -/
theorem KeepsMapped.of_same {m : Action α}
    (h : ∀ s, (after (m s)).driveDirs = s.driveDirs ∧ (after (m s)).search = s.search) :
    KeepsMapped m := by
  intro s hs search hsearch
  obtain ⟨hdirs, hsame⟩ := h s
  rw [Server.driveDir, hdirs]
  exact hs search (hsame ▸ hsearch)

theorem KeepsMapped.pure (a : α) : KeepsMapped (Pure.pure a) := fun _ => id

theorem KeepsMapped.throw (e : PyError) : KeepsMapped (MonadExcept.throw e : Action α) :=
  fun _ => id

theorem KeepsMapped.bind {m : Action α} {f : α → Action β} (hm : KeepsMapped m)
    (hf : ∀ a, KeepsMapped (f a)) : KeepsMapped (m >>= f) := by
  intro s hs
  have hfirst := hm s hs
  rw [bind_apply]
  cases hrun : m s with
  | ok a s' =>
      rw [hrun] at hfirst
      exact hf a s' hfirst
  | error e s' =>
      rw [hrun] at hfirst
      exact hfirst

theorem KeepsMapped.ite {c : Prop} [Decidable c] {m m' : Action α} (hm : KeepsMapped m)
    (hm' : KeepsMapped m') : KeepsMapped (if c then m else m') := by
  split
  · exact hm
  · exact hm'

theorem KeepsMapped.exceptOsError {body handler : Action α} (hbody : KeepsMapped body)
    (hhandler : KeepsMapped handler) : KeepsMapped (Action.exceptOsError body handler) := by
  intro s hs
  have hfirst := hbody s hs
  unfold Action.exceptOsError
  cases hrun : body s with
  | ok a s' =>
      rw [hrun] at hfirst
      exact hfirst
  | error e s' =>
      rw [hrun] at hfirst
      cases e with
      | osError => exact hhandler s' hfirst
      | _ => exact hfirst

theorem KeepsMapped.call (paths : List Text) (op : Host → Except PyError (α × Host)) :
    KeepsMapped (Action.call paths op) := by
  refine KeepsMapped.of_same fun s => ?_
  unfold Action.call
  split
  · exact ⟨rfl, rfl⟩
  · dsimp only
    split
    · exact ⟨rfl, rfl⟩
    · exact ⟨rfl, rfl⟩

theorem keepsMapped_pathExists (p : Text) : KeepsMapped (pathExists p) := by
  refine KeepsMapped.of_same fun s => ?_
  unfold pathExists
  split
  · exact ⟨rfl, rfl⟩
  · exact ⟨rfl, rfl⟩

theorem keepsMapped_store (resp : List Byte) (i v : Nat) : KeepsMapped (store resp i v) :=
  .ite (.throw _) (.ite (.throw _) (.pure _))

theorem keepsMapped_encode (t : Text) : KeepsMapped (encode t) := .ite (.pure _) (.throw _)

theorem keepsMapped_fcbDrive (payload : List Byte) (offset : Nat) :
    KeepsMapped (fcbDrive payload offset) := by
  unfold fcbDrive
  split
  · exact .throw _
  · exact .pure _

theorem keepsMapped_fill (p : Text) (bytes : List Byte) : KeepsMapped (fill p bytes) :=
  .of_same fun _ => ⟨rfl, rfl⟩

theorem keepsMapped_resolvePath (drive : Nat) (name : List Byte) :
    KeepsMapped (resolvePath drive name) := .of_same fun _ => ⟨rfl, rfl⟩

theorem KeepsMapped.withPath {body : Nat → Text → Action (List Byte)}
    (hbody : ∀ drive p, KeepsMapped (body drive p)) : KeepsMapped (withPath payload body) := by
  refine (keepsMapped_fcbDrive _ _).bind fun drive => ?_
  refine (keepsMapped_resolvePath _ _).bind fun found => ?_
  cases found with
  | none => exact .pure _
  | some p => exact hbody drive p

theorem keepsMapped_openForWrite (p : Text) : KeepsMapped (openForWrite p) :=
  (keepsMapped_pathExists p).bind fun _ => .ite (.call _ _) (.call _ _)

theorem keepsMapped_writeRandom (put : List Byte → Nat → List Byte → List Byte) :
    KeepsMapped (writeRandom put payload) := by
  have hreply : ∀ record, KeepsMapped (writeRandReply payload record) := by
    intro record
    unfold writeRandReply
    repeat (first
      | exact keepsMapped_store _ _ _ | refine (keepsMapped_store _ _ _).bind fun _ => ?_)
  refine .withPath fun _ p => .ite (.pure _) (.ite (.pure _) (.exceptOsError ?_ (.pure _)))
  exact (keepsMapped_openForWrite p).bind fun _ => (keepsMapped_fill _ _).bind fun _ => hreply _

theorem keepsMapped_readReply (ex cr : Nat) (data : List Byte) :
    KeepsMapped (readReply payload ex cr data) := by
  unfold readReply
  refine (keepsMapped_store _ _ _).bind fun _ => (keepsMapped_store _ _ _).bind fun _ => ?_
  exact (keepsMapped_store _ _ _).bind fun _ => .pure _

theorem keepsMapped_takeEntry : KeepsMapped takeEntry := by
  intro s hs
  unfold takeEntry
  cases hsearch : s.search with
  | none => exact hs
  | some search =>
      dsimp only
      split
      · exact fun _ hnone => nomatch hnone
      -- the search goes on, on its drive
      · rintro _ ⟨⟩
        exact hs search hsearch

theorem keepsMapped_searchResult (upper : Nat → Text) : KeepsMapped (searchResult upper) := by
  refine keepsMapped_takeEntry.bind fun taken => ?_
  cases taken with
  | none => exact .pure _
  | some found =>
      obtain ⟨entry, drive⟩ := found
      have hdir : KeepsMapped (searchDir drive) := .of_same fun _ => ⟨rfl, rfl⟩
      refine (keepsMapped_store _ _ _).bind fun _ => (keepsMapped_encode _).bind fun _ => ?_
      refine (keepsMapped_encode _).bind fun _ => hdir.bind fun _ => ?_
      refine KeepsMapped.bind (.exceptOsError ?_ (.pure _)) fun _ => ?_
      · exact KeepsMapped.bind (.call _ _) fun _ => .pure _
      · refine (keepsMapped_store _ _ _).bind fun _ => (keepsMapped_store _ _ _).bind fun _ => ?_
        exact (keepsMapped_store _ _ _).bind fun _ => .pure _

theorem keepsMapped_searchFirst (upper : Nat → Text) (payload : List Byte) :
    KeepsMapped (handleSearchFirst upper payload) := by
  intro s hs
  cases hcode : payload[2]? with
  | none =>
      rw [handleSearchFirst, bind_apply, fcbDrive_none hcode]
      exact hs
  | some code =>
      cases hdir : s.driveDir (driveOf code) with
      | none =>
          have hget : (get : Action Server) s = .ok s s := rfl
          rw [handleSearchFirst, bind_apply, fcbDrive_some hcode]
          simp only [bind_apply, hget, hdir, pure_apply]
          exact hs
      | some dir =>
          rw [handleSearchFirst_apply upper hcode hdir]
          split
          · exact hs
          · refine keepsMapped_searchResult upper _ ?_
            rintro _ ⟨⟩
            exact ⟨dir, hdir⟩

/-- **The drive of the pending search has a directory**, after each request if before. -/
theorem keepsMapped_respond (upper : Nat → Text) (fnc : Byte) (payload : List Byte) :
    KeepsMapped (respond upper fnc payload) := by
  have hget : KeepsMapped (get : Action Server) := fun _ => id
  unfold respond
  split
  · next f _ =>
    cases f with
    | openFile =>
        refine .withPath fun _ p => (keepsMapped_pathExists p).bind fun _ => .ite ?_ (.pure _)
        refine KeepsMapped.bind (.call _ _) fun _ => ?_
        unfold openReply
        repeat (first
          | exact keepsMapped_store _ _ _ | refine (keepsMapped_store _ _ _).bind fun _ => ?_)
    | fileSize =>
        refine .withPath fun _ p => (keepsMapped_pathExists p).bind fun _ => .ite ?_ (.pure _)
        refine KeepsMapped.bind (.call _ _) fun _ => ?_
        unfold fileSizeReply
        repeat (first
          | exact keepsMapped_store _ _ _ | refine (keepsMapped_store _ _ _).bind fun _ => ?_)
    | makeFile =>
        refine .withPath fun _ p => .exceptOsError (.bind (.call _ _) fun _ => ?_) (.pure _)
        unfold makeReply
        repeat (first
          | exact keepsMapped_store _ _ _ | refine (keepsMapped_store _ _ _).bind fun _ => ?_)
    | deleteFile =>
        refine .withPath fun _ p => (keepsMapped_pathExists p).bind fun _ => .ite ?_ (.pure _)
        exact .exceptOsError (.bind (.call _ _) fun _ => .pure _) (.pure _)
    | renameFile =>
        refine (keepsMapped_fcbDrive _ _).bind fun _ => ?_
        refine (keepsMapped_resolvePath _ _).bind fun _ => ?_
        refine (keepsMapped_resolvePath _ _).bind fun _ => ?_
        split
        · exact .exceptOsError (.bind (.call _ _) fun _ => .pure _) (.pure _)
        · exact .pure _
    | readSeq =>
        refine .withPath fun _ p => .exceptOsError (.bind (.call _ _) fun _ => ?_) (.pure _)
        exact .ite (.pure _) (keepsMapped_readReply _ _ _)
    | readRand =>
        refine .withPath fun _ p => .ite (.pure _) (.exceptOsError (.bind (.call _ _) fun _ => ?_)
          (.pure _))
        exact .ite (.pure _) (keepsMapped_readReply _ _ _)
    | writeSeq =>
        refine .withPath fun _ p => .ite (.pure _) (.exceptOsError ?_ (.pure _))
        refine (keepsMapped_openForWrite p).bind fun _ => (keepsMapped_fill _ _).bind fun _ => ?_
        refine (keepsMapped_store _ _ _).bind fun _ => ?_
        exact .bind (.ite (keepsMapped_store _ _ _) (.pure _)) fun _ => .pure _
    | writeRand => exact keepsMapped_writeRandom _
    | writeRandZf => exact keepsMapped_writeRandom _
    | searchFirst => exact keepsMapped_searchFirst upper payload
    | searchNext => exact keepsMapped_searchResult upper
    | listOutput =>
        refine hget.bind fun s => ?_
        split
        · exact .pure _
        · exact .pure _
        · exact .bind (.call _ _) fun _ => (keepsMapped_fill _ _).bind fun _ => .pure _
    | setAttrs => exact (keepsMapped_fcbDrive _ _).bind fun _ => .pure _
    | consoleOutput => exact .ite (.throw _) (.pure _)
    | _ => exact .pure _
  · refine hget.bind fun s => ?_
    split
    · exact .pure _
    · exact .pure _
    · exact .bind (.call _ _) fun _ => (keepsMapped_fill _ _).bind fun _ => .pure _

/-- So it is in every run, if no search is pending at its start. -/
theorem run_mapped (upper : Nat → Text) (hs : s.search = none)
    (requests : List (Byte × List Byte)) :
    (requests.foldl (fun s r => after (respond upper r.1 r.2 s)) s).Mapped := by
  have hstart : s.Mapped := fun _ hsearch => nomatch hs.symm.trans hsearch
  clear hs
  induction requests generalizing s with
  | nil => exact hstart
  | cons r requests ih => exact ih (keepsMapped_respond upper r.1 r.2 s hstart)

/-! ### The names of a request -/

/-- A blank or a NUL, which fill up a name; bit 7 is an attribute of the file. -/
def Blank (c : Byte) : Prop := c &&& 0x7F#8 = 0x00#8 ∨ c &&& 0x7F#8 = 0x20#8

instance (c : Byte) : Decidable (Blank c) := inferInstanceAs (Decidable (_ ∨ _))

/-- The characters in front of what fills up a part of a name. -/
def Padded (raw : List Byte) (x : Text) : Prop :=
  ∃ front pad, raw = front ++ pad ∧ (∀ c ∈ pad, Blank c) ∧ (∀ c ∈ front.getLast?, ¬ Blank c) ∧
    x = front.map fun c => (c &&& 0x7F#8).toNat

/-- The host's name for eleven bytes: the characters of the first eight, and behind a dot those
of the other three, if there are any. -/
inductive Spells (raw : List Byte) : Text → Prop
  | bare {x : Text} (hname : Padded (raw.take 8) x) (hext : Padded (raw.drop 8) []) : Spells raw x
  | dotted {x ext : Text} (hname : Padded (raw.take 8) x) (hext : Padded (raw.drop 8) ext)
      (hsome : ext ≠ []) : Spells raw (x ++ [dot] ++ ext)

theorem padded_iff {raw : List Byte} {x : Text} :
    Padded raw x ↔ x = decode (rstripName (raw.map (· &&& 0x7F#8))) := by
  have hdecode : ∀ front : List Byte, decode (front.map (· &&& 0x7F#8)) =
      front.map fun c => (c &&& 0x7F#8).toNat := by
    intro front
    rw [decode, List.map_map]
    exact List.map_congr_left fun c _ => if_pos (masked_lt c)
  have hstrip : rstripName (raw.map (· &&& 0x7F#8)) =
      (raw.rdropWhile fun c => Blank c).map (· &&& 0x7F#8) := by
    rw [rstripName, List.rdropWhile, List.rdropWhile, ← List.map_reverse, List.dropWhile_map,
      List.map_reverse]
    rfl
  rw [hstrip, hdecode]
  constructor
  · rintro ⟨front, pad, rfl, hpad, hlast, rfl⟩
    have hself : front.rdropWhile (fun c => decide (Blank c)) = front := by
      rw [List.rdropWhile_eq_self_iff]
      intro hne hblank
      exact hlast _ (List.getLast?_eq_some_getLast hne) (of_decide_eq_true hblank)
    rw [rdropWhile_append_of_pos fun c hc => decide_eq_true (hpad c hc), hself]
  · rintro rfl
    refine ⟨_, _, List.rdropWhile_append_rtakeWhile.symm,
      fun c hc => of_decide_eq_true (List.mem_rtakeWhile_imp (p := fun c => decide (Blank c)) hc),
      fun c hc hblank => ?_, rfl⟩
    obtain ⟨hne, rfl⟩ := List.mem_getLast?_eq_getLast hc
    exact List.rdropWhile_last_not _ _ hne (decide_eq_true hblank)

/-- It is the one that `_resolve_path` spells. -/
theorem spells_iff {raw : List Byte} (hlen : raw.length ≤ 11) {x : Text} :
    Spells raw x ↔ x = nameText (raw.map (· &&& 0x7F#8)) := by
  have hfirst : slice (raw.map (· &&& 0x7F#8)) 0 8 = (raw.take 8).map (· &&& 0x7F#8) :=
    List.map_take.symm
  have hsecond : slice (raw.map (· &&& 0x7F#8)) 8 11 = (raw.drop 8).map (· &&& 0x7F#8) := by
    rw [slice, List.take_of_length_le (by rwa [List.length_map]), List.map_drop]
  unfold nameText
  rw [hfirst, hsecond]
  dsimp only
  constructor
  · rintro (⟨hname, hext⟩ | ⟨hname, hext, hsome⟩)
    · rw [if_neg (not_not.mpr (padded_iff.mp hext).symm), padded_iff.mp hname]
    · rw [padded_iff.mp hext] at hsome
      rw [if_pos hsome, padded_iff.mp hname, padded_iff.mp hext]
  · rintro rfl
    split
    · next hsome => exact .dotted (padded_iff.mpr rfl) (padded_iff.mpr rfl) hsome
    · next hnone => exact .bare (padded_iff.mpr rfl) (padded_iff.mpr (not_not.mp hnone).symm)

/-! ### Requests stay in their directory -/

/-- The drive that a request asks for: the drive code counts from 1. -/
def askedDrive (f : Function) (payload : List Byte) : Nat :=
  (payload.getD f.fcbOffset 0#8).toNat - 1

/-- Every path that the request gives to the host is directly inside the directory of the
drive it asks for. -/
def Confined (upper : Nat → Text) (f : Function) (payload : List Byte) (s : Server) : Prop :=
  ∀ q ∈ touchedBy (f.handle upper payload) { s with touched := [] },
    ∃ dir, s.driveDirs (askedDrive f payload) = some dir ∧ DirectChild dir q

/-- The bytes that a function takes for names. -/
def Function.nameBytes (payload : List Byte) : Function → List (List Byte)
  | .renameFile => [slice payload 2 13, slice payload 18 29]
  | _ => [slice payload 2 13]

/-- What keeps a request inside the directory, in its bytes, and in the search that is pending for
SEARCH NEXT.  Drive codes are good up to 15.  A name is good if it names an entry; it does no
harm where the request is too short to be looked at, or has a name with a NUL.  A search finds
entries of its directory only, if any. -/
def Safe (upper : Nat → Text) (f : Function) (payload : List Byte) (pending : Option Search) :
    Prop :=
  match f with
  | .searchFirst =>
      (payload.getD 2 0#8).toNat ≤ 15 ∨ ¬ Listable ((slice payload 3 14).map (· &&& 0x7F#8))
  | .searchNext =>
      ∀ search, pending = some search → ∀ entry, search.found[search.index]? = some entry →
        Encodable upper entry.val → search.drive = (payload.getD 2 0#8).toNat - 1
  | f =>
      payload.length < max 2 f.reach ∨ (∃ raw ∈ f.nameBytes payload, ∃ x, Spells raw x ∧ 0 ∈ x) ∨
        ((payload.getD 1 0#8).toNat ≤ 15 ∧
          ∀ raw ∈ f.nameBytes payload, ∀ x, Spells raw x → Inside x)

section Safety

variable {f : Function} {pending : Option Search} {dir x : Text}

/-- A code up to 15 counts from 1, and others select one of the first drives. -/
theorem driveOf_small : ∀ code : Byte, code.toNat ≤ 15 → driveOf code = code.toNat - 1 := by
  decide

theorem driveOf_lt : ∀ code : Byte, driveOf code < 15 := by decide

theorem names_eq (f : Function) (payload : List Byte) :
    f.names payload =
      (f.nameBytes payload).map fun raw => nameText (raw.map (· &&& 0x7F#8)) := by
  cases f with
  | _ => rfl

theorem length_nameBytes {raw : List Byte} (hraw : raw ∈ f.nameBytes payload) :
    raw.length ≤ 11 := by
  have hslice : ∀ i j, j ≤ i + 11 → (slice payload i j).length ≤ 11 := by
    intro i j hij
    rw [length_slice]
    omega
  cases f with
  | renameFile =>
      rcases List.mem_cons.mp hraw with rfl | hraw
      · exact hslice 2 13 (by omega)
      · rw [List.mem_singleton.mp hraw]
        exact hslice 18 29 (by omega)
  | _ =>
      rw [List.mem_singleton.mp hraw]
      exact hslice 2 13 (by omega)

theorem nul_join (hx : 0 ∈ x) (dir : Text) : 0 ∈ join dir x := by
  unfold join
  split
  · exact hx
  · exact List.mem_append_right _ hx

/-- What is confined are the paths that are joined from the names. -/
theorem confined_names (hf : f.UsesFcb = true) :
    Confined upper f payload s ↔ ∀ pair ∈ hostNames upper f payload s,
      ∃ dir, s.driveDirs (askedDrive f payload) = some dir ∧
        DirectChild dir (join pair.1 pair.2) := by
  have hpaths : ∀ q, q ∈ touchedBy (f.handle upper payload) { s with touched := [] } ↔
      ∃ pair ∈ hostNames upper f payload s, q = join pair.1 pair.2 := by
    intro q
    rw [mem_touchedBy hf]
    have hsame : hostNames upper f payload { s with touched := [] } =
        hostNames upper f payload s := rfl
    rw [hsame]
    simp
  unfold Confined
  constructor
  · exact fun h pair hpair => h _ ((hpaths _).mpr ⟨pair, hpair, rfl⟩)
  · rintro h q hq
    obtain ⟨pair, hpair, rfl⟩ := (hpaths q).mp hq
    exact h pair hpair

/-- A server whose drives have the directory `b`, but for one, which has `a`. -/
def apart (drive : Nat) (pending : Option Search) (entries : List HostName) : Server :=
  { emptyServer with
    driveDirs := fun i => some (if i = drive then text "a" else text "b")
    search := pending
    host :=
      { node := fun _ => .directory 4096
        listing := fun _ => entries
        admits := fun _ => true } }

variable {drive : Nat} {entries : List HostName}

theorem apart_driveDir (i : Nat) : (apart drive pending entries).driveDir i =
    some (if i = drive then text "a" else text "b") := by
  rw [Server.driveDir, apart]
  by_cases hi : i = drive
  · simp only [if_pos hi]
    rfl
  · simp only [if_neg hi]
    rfl

theorem apart_mapped : (apart drive pending entries).Mapped := fun _ _ => ⟨_, apart_driveDir _⟩

/-- On another drive nothing is inside the one. -/
theorem apart_outside {i : Nat} (hi : i ≠ drive) :
    ¬ ∃ dir, (apart drive pending entries).driveDirs drive = some dir ∧
      DirectChild dir (join (if i = drive then text "a" else text "b") x) := by
  rintro ⟨dir, hdir, hchild⟩
  obtain rfl : text "a" = dir := by
    have hsame := Option.some.inj hdir
    rwa [if_pos rfl] at hsame
  rw [if_neg hi] at hchild
  exact not_directChild (a := text "b") (b := text "a") (by decide) (by decide)
    (by decide) (by decide) hchild

/-- The directory of a drive is not empty. -/
theorem driveDir_ne_nil {i : Nat} (hdir : s.driveDir i = some dir) : dir ≠ [] := by
  rintro rfl
  unfold Server.driveDir at hdir
  split at hdir
  · exact nomatch hdir
  · exact nomatch hdir
  · exact nomatch hdir

/-- An entry of the directory of the drive is inside it. -/
theorem entry_inside {i : Nat} (hdir : s.driveDir i = some dir) (entry : HostName) :
    ∃ dir', s.driveDirs i = some dir' ∧
      DirectChild dir' (join ((s.driveDirs i).getD [dot]) entry.val) := by
  refine ⟨dir, driveDir_some hdir, ?_⟩
  rw [driveDir_some hdir]
  exact entry.property.1.inside.directChild (driveDir_ne_nil hdir)

theorem mem_searchNames_iff {search : Search} {pair : Text × Text} :
    pair ∈ searchNames upper s search ↔ ∃ entry, search.found[search.index]? = some entry ∧
      Encodable upper entry.val ∧ pair = ((s.driveDirs search.drive).getD [dot], entry.val) := by
  unfold searchNames
  cases hentry : search.found[search.index]? with
  | none => simp
  | some entry =>
      dsimp only
      split
      · next hencodable => simp [hencodable]
      · next hencodable => simp [hencodable]

/-- The paths that reach the host are among those of the request. -/
theorem hostNames_subset {pair : Text × Text} (hpair : pair ∈ hostNames upper f payload s) :
    pair ∈ requestNames upper f payload s ∧
      ¬ ∃ pair ∈ requestNames upper f payload s, 0 ∈ join pair.1 pair.2 := by
  unfold hostNames at hpair
  split at hpair
  · exact nomatch hpair
  · next hfree => exact ⟨hpair, hfree⟩

/-- A path without a NUL reaches the host, if no other has one. -/
theorem mem_hostNames {pair : Text × Text} (hpair : pair ∈ requestNames upper f payload s)
    (hfree : ∀ pair ∈ requestNames upper f payload s, 0 ∉ join pair.1 pair.2) :
    pair ∈ hostNames upper f payload s := by
  rw [hostNames, if_neg]
  · exact hpair
  · rintro ⟨other, hother, hnul⟩
    exact hfree other hother hnul

theorem apart_free {i : Nat} (hx : 0 ∉ x) :
    0 ∉ join (if i = drive then text "a" else text "b") x := by
  unfold join
  split
  · exact hx
  · intro hmem
    rcases List.mem_append.mp hmem with hmem | hmem
    · split at hmem
      · exact absurd hmem (by decide)
      · exact absurd hmem (by decide)
    · exact hx hmem

/-! ### Functions that name files -/

/-- The functions that take a file control block, but for the searches. -/
def Function.TakesNames (f : Function) : Bool := f.NamesFile || f == .renameFile

theorem requestNames_takesNames (hf : f.TakesNames = true) :
    requestNames upper f payload s = match selectedDir s payload 1 with
      | none => []
      | some dir =>
          if f.reach ≤ payload.length then (f.names payload).map (fun x => (dir, x)) else [] := by
  cases f with
  | searchFirst | searchNext => exact Bool.noConfusion hf
  | _ => rfl

theorem askedDrive_takesNames (hf : f.TakesNames = true) :
    askedDrive f payload = (payload.getD 1 0#8).toNat - 1 := by
  cases f with
  | searchFirst | searchNext => exact Bool.noConfusion hf
  | _ => rfl

theorem safe_takesNames (hf : f.TakesNames = true) : Safe upper f payload pending ↔
    payload.length < max 2 f.reach ∨ (∃ raw ∈ f.nameBytes payload, ∃ x, Spells raw x ∧ 0 ∈ x) ∨
      ((payload.getD 1 0#8).toNat ≤ 15 ∧
        ∀ raw ∈ f.nameBytes payload, ∀ x, Spells raw x → Inside x) := by
  cases f with
  | searchFirst | searchNext => exact Bool.noConfusion hf
  | _ => rfl

theorem usesFcb_takesNames (hf : f.TakesNames = true) : f.UsesFcb = true := by
  cases f with
  | searchFirst | searchNext => exact Bool.noConfusion hf
  | _ => first | rfl | exact Bool.noConfusion hf

theorem nameBytes_ne_nil (f : Function) (payload : List Byte) : f.nameBytes payload ≠ [] := by
  cases f with
  | _ => exact List.cons_ne_nil _ _

/-- A request that is safe stays inside. -/
theorem names_confined (hf : f.TakesNames = true) (hsafe : Safe upper f payload pending) :
    Confined upper f payload s := by
  rw [confined_names (usesFcb_takesNames hf)]
  intro pair hpair
  obtain ⟨hrequest, hfree⟩ := hostNames_subset hpair
  rw [requestNames_takesNames hf] at hrequest hfree
  cases hdir : selectedDir s payload 1 with
  | none =>
      rw [hdir] at hrequest
      exact nomatch hrequest
  | some dir =>
      rw [hdir] at hrequest hfree
      dsimp only at hrequest hfree
      obtain ⟨code, hcode, hmapped⟩ := selectedDir_some hdir
      have hlong : 1 < payload.length := (List.getElem?_eq_some_iff.mp hcode).1
      by_cases hreach : f.reach ≤ payload.length
      · rw [if_pos hreach, names_eq] at hrequest hfree
        rw [List.map_map] at hrequest
        obtain ⟨raw, hraw, rfl⟩ := List.mem_map.mp hrequest
        have hspells := fun {raw} (hraw : raw ∈ f.nameBytes payload) {x : Text} =>
          spells_iff (length_nameBytes hraw) (x := x)
        rcases (safe_takesNames hf).mp hsafe with hshort | ⟨other, hother, x, hx, hnul⟩ |
          ⟨hcodes, hnames⟩
        · omega
        · refine absurd ⟨(dir, x), ?_, nul_join hnul dir⟩ hfree
          rw [List.map_map]
          exact List.mem_map.mpr ⟨other, hother, by rw [(hspells hother).mp hx]; rfl⟩
        · have hget : payload.getD 1 0#8 = code := by
            rw [List.getD_eq_getElem?_getD, hcode]
            rfl
          rw [hget] at hcodes
          refine ⟨dir, ?_, ?_⟩
          · rw [askedDrive_takesNames hf, hget, ← driveOf_small code hcodes]
            exact driveDir_some hmapped
          · exact (hnames raw hraw _ ((hspells hraw).mpr rfl)).directChild
              (driveDir_ne_nil hmapped)
      · rw [if_neg hreach] at hrequest
        exact nomatch hrequest

/-- What stays inside on servers whose drives are apart is safe. -/
theorem names_safe (hf : f.TakesNames = true) (h : Confined upper f payload
    (apart (askedDrive f payload) pending entries)) : Safe upper f payload pending := by
  rw [confined_names (usesFcb_takesNames hf)] at h
  rw [safe_takesNames hf]
  by_cases hshort : payload.length < max 2 f.reach
  · exact .inl hshort
  by_cases hnul : ∃ raw ∈ f.nameBytes payload, ∃ x, Spells raw x ∧ 0 ∈ x
  · exact .inr (.inl hnul)
  refine .inr (.inr ?_)
  rw [not_lt, Nat.max_le] at hshort
  obtain ⟨hlong, hreach⟩ := hshort
  have hcode : payload[1]? = some payload[1] := List.getElem?_eq_getElem hlong
  have hget : payload.getD 1 0#8 = payload[1] := by
    rw [List.getD_eq_getElem?_getD, hcode]
    rfl
  have hasked := @askedDrive_takesNames payload f hf
  rw [hget] at hasked ⊢
  generalize hdrive : askedDrive f payload = drive at h hasked
  -- every name of the request reaches the host, below the directory of the drive that is used
  have hrequest : requestNames upper f payload (apart drive pending entries) =
      (f.names payload).map fun x =>
        (if driveOf payload[1] = drive then text "a" else text "b", x) := by
    rw [requestNames_takesNames hf, selectedDir, hcode, Option.bind_some, apart_driveDir]
    exact if_pos hreach
  have hchild : ∀ raw ∈ f.nameBytes payload, ∀ x, Spells raw x → ∃ dir,
      (apart drive pending entries).driveDirs drive = some dir ∧ DirectChild dir
        (join (if driveOf payload[1] = drive then text "a" else text "b") x) := by
    intro raw hraw x hx
    refine h (_, x) (mem_hostNames ?_ fun pair hpair => ?_)
    · rw [hrequest, names_eq, (spells_iff (length_nameBytes hraw)).mp hx]
      exact List.mem_map_of_mem (List.mem_map_of_mem hraw)
    · rw [hrequest, names_eq, List.map_map] at hpair
      obtain ⟨other, hother, rfl⟩ := List.mem_map.mp hpair
      refine apart_free fun hmem => hnul ⟨other, hother, _, ?_, hmem⟩
      exact (spells_iff (length_nameBytes hother)).mpr rfl
  by_cases hsame : driveOf payload[1] = drive
  · have hsmall : payload[1].toNat ≤ 15 := by
      have hlt := driveOf_lt payload[1]
      omega
    refine ⟨hsmall, fun raw hraw x hx => ?_⟩
    obtain ⟨dir, hdir, hinside⟩ := hchild raw hraw x hx
    have ha : text "a" = dir := by
      have heq := Option.some.inj hdir
      rwa [if_pos rfl] at heq
    rw [if_pos hsame, ← ha] at hinside
    exact (directChild_relative (by decide) (by decide)).mp hinside
  · obtain ⟨raw, hraw⟩ := List.exists_mem_of_ne_nil _ (nameBytes_ne_nil f payload)
    exact absurd (hchild raw hraw _ ((spells_iff (length_nameBytes hraw)).mpr rfl))
      (apart_outside hsame)

/-! ### Searches -/

theorem length_pattern (payload : List Byte) :
    ((slice payload 3 14).map (· &&& 0x7F#8)).length ≤ 11 := by
  rw [List.length_map, length_slice]
  omega

theorem requestNames_searchFirst {code : Byte} (hcode : payload[2]? = some code)
    (hdir : s.driveDir (driveOf code) = some dir) :
    requestNames upper .searchFirst payload s = searchNames upper s
      ⟨foundIn upper s.host dir ((slice payload 3 14).map (· &&& 0x7F#8)), 0, driveOf code⟩ := by
  have hget : payload.getD 2 0#8 = code := by
    rw [List.getD_eq_getElem?_getD, hcode]
    rfl
  unfold requestNames
  rw [selectedDir, hcode, Option.bind_some, hdir, hget]
  rfl

theorem first_confined (hupper : UpperCase upper)
    (hsafe : Safe upper .searchFirst payload pending) :
    Confined upper .searchFirst payload s := by
  rw [confined_names rfl]
  intro pair hpair
  have hrequest := (hostNames_subset hpair).1
  cases hdir : selectedDir s payload 2 with
  | none =>
      unfold requestNames at hrequest
      rw [hdir] at hrequest
      exact nomatch hrequest
  | some dir =>
      obtain ⟨code, hcode, hmapped⟩ := selectedDir_some hdir
      rw [requestNames_searchFirst hcode hmapped] at hrequest
      obtain ⟨entry, hentry, -, rfl⟩ := mem_searchNames_iff.mp hrequest
      have hget : payload.getD 2 0#8 = code := by
        rw [List.getD_eq_getElem?_getD, hcode]
        rfl
      unfold Safe at hsafe
      rw [hget] at hsafe
      rcases hsafe with hsmall | hnone
      · have hasked : askedDrive .searchFirst payload = driveOf code := by
          rw [driveOf_small code hsmall, ← hget]
          rfl
        rw [hasked]
        exact entry_inside hmapped entry
      -- no entry is selected by such a pattern
      · have hmem : entry ∈ foundIn upper s.host dir ((slice payload 3 14).map (· &&& 0x7F#8)) :=
          List.mem_of_getElem? hentry
        unfold foundIn at hmem
        split at hmem
        · have hselected := (List.mem_filter.mp hmem).2
          rw [matchesEntry_iff hupper (ascii_masked _) (length_pattern payload)] at hselected
          exact absurd (listable_of_match hupper hselected) hnone
        · exact nomatch hmem

theorem first_safe (hupper : UpperCase upper)
    (h : ∀ entries, Confined upper .searchFirst payload
      (apart (askedDrive .searchFirst payload) pending entries)) :
    Safe upper .searchFirst payload pending := by
  unfold Safe
  by_contra hunsafe
  obtain ⟨hlarge, hlistable⟩ := not_or.mp hunsafe
  rw [not_not] at hlistable
  obtain ⟨entry, hmatch, hencodable⟩ :=
    exists_match hupper (ascii_masked _) (length_pattern payload) hlistable
  have hlong : 2 < payload.length := by
    by_contra hshort
    rw [List.getD_eq_default _ _ (Nat.not_lt.mp hshort)] at hlarge
    exact hlarge (by decide)
  have hcode : payload[2]? = some payload[2] := List.getElem?_eq_getElem hlong
  have hget : payload.getD 2 0#8 = payload[2] := by
    rw [List.getD_eq_getElem?_getD, hcode]
    rfl
  rw [hget] at hlarge
  have hasked : askedDrive .searchFirst payload = payload[2].toNat - 1 := by
    rw [← hget]
    rfl
  have hother : driveOf payload[2] ≠ askedDrive .searchFirst payload := by
    have hlt := driveOf_lt payload[2]
    omega
  have hsingle := h [entry]
  rw [confined_names rfl] at hsingle
  generalize hdrive : askedDrive .searchFirst payload = drive at hsingle hother
  have hdir : (apart drive pending [entry]).driveDir (driveOf payload[2]) = some (text "b") := by
    rw [apart_driveDir, if_neg hother]
  have hfound : foundIn upper (apart drive pending [entry]).host (text "b")
      ((slice payload 3 14).map (· &&& 0x7F#8)) = [entry] := by
    show [entry].filter _ = [entry]
    refine List.filter_eq_self.mpr fun other hmem => ?_
    rw [List.mem_singleton.mp hmem,
      matchesEntry_iff hupper (ascii_masked _) (length_pattern payload)]
    exact hmatch
  have hnames : requestNames upper .searchFirst payload (apart drive pending [entry]) =
      [(if driveOf payload[2] = drive then text "a" else text "b", entry.val)] := by
    rw [requestNames_searchFirst hcode hdir, hfound, searchNames]
    exact if_pos hencodable
  have hlisted := hsingle (if driveOf payload[2] = drive then text "a" else text "b", entry.val)
  refine apart_outside hother (hlisted (mem_hostNames ?_ fun pair hpair => ?_))
  · rw [hnames]
    exact List.mem_singleton_self _
  · rw [hnames, List.mem_singleton] at hpair
    rw [hpair]
    exact apart_free entry.property.2

theorem next_confined (hsafe : Safe upper .searchNext payload pending)
    (hpending : s.search = pending) (hmapped : s.Mapped) :
    Confined upper .searchNext payload s := by
  rw [confined_names rfl]
  intro pair hpair
  have hrequest := (hostNames_subset hpair).1
  unfold requestNames at hrequest
  cases hsearch : s.search with
  | none =>
      rw [hsearch] at hrequest
      exact nomatch hrequest
  | some search =>
      rw [hsearch] at hrequest
      obtain ⟨entry, hentry, hencodable, rfl⟩ := mem_searchNames_iff.mp hrequest
      obtain ⟨dir, hdir⟩ := hmapped search hsearch
      have hasked : askedDrive .searchNext payload = search.drive :=
        (hsafe search (hpending ▸ hsearch) entry hentry hencodable).symm
      rw [hasked]
      exact entry_inside hdir entry

theorem next_safe (h : Confined upper .searchNext payload
    (apart (askedDrive .searchNext payload) pending entries)) :
    Safe upper .searchNext payload pending := by
  rintro search rfl entry hentry hencodable
  by_contra hne
  have hother : search.drive ≠ askedDrive .searchNext payload := hne
  rw [confined_names rfl] at h
  have hnames : requestNames upper .searchNext payload
      (apart (askedDrive .searchNext payload) (some search) entries) =
      [(if search.drive = askedDrive .searchNext payload then text "a" else text "b",
        entry.val)] := by
    show searchNames upper _ search = _
    unfold searchNames
    rw [hentry]
    exact if_pos hencodable
  have hlisted := h (if search.drive = askedDrive .searchNext payload then text "a" else text "b",
    entry.val)
  refine apart_outside hother (hlisted (mem_hostNames ?_ fun pair hpair => ?_))
  · rw [hnames]
    exact List.mem_singleton_self _
  · rw [hnames, List.mem_singleton] at hpair
    rw [hpair]
    exact apart_free entry.property.2

/-- **A request stays in the directory of the drive it asks for**, whatever directories the drives
have and whatever the host holds, if and only if its bytes are safe. -/
theorem confined_iff (hupper : UpperCase upper) (hf : f.UsesFcb = true) (payload : List Byte)
    (pending : Option Search) :
    (∀ s : Server, s.search = pending → s.Mapped → Confined upper f payload s) ↔
      Safe upper f payload pending := by
  constructor
  · intro h
    have hapart := fun entries =>
      h (apart (askedDrive f payload) pending entries) rfl apart_mapped
    cases f with
    | searchFirst => exact first_safe hupper hapart
    | searchNext => exact next_safe (hapart [])
    | _ => first | exact names_safe rfl (hapart []) | exact Bool.noConfusion hf
  · intro hsafe s hpending hmapped
    cases f with
    | searchFirst => exact first_confined hupper hsafe
    | searchNext => exact next_confined hsafe hpending hmapped
    | _ => first | exact names_confined rfl hsafe | exact Bool.noConfusion hf

end Safety

/-- Opening `FOO.TXT` on the first drive. -/
theorem confined_open :
    Safe asciiUpper .openFile (request 1#8 "FOO     TXT" []) none ∧
      ∀ s : Server, s.search = none → s.Mapped →
        Confined asciiUpper .openFile (request 1#8 "FOO     TXT" []) s := by
  have hsafe : Safe asciiUpper .openFile (request 1#8 "FOO     TXT" []) none := by
    refine .inr (.inr ⟨by decide, fun raw hraw x hx => ?_⟩)
    obtain rfl : raw = slice (request 1#8 "FOO     TXT" []) 2 13 := List.mem_singleton.mp hraw
    rw [(spells_iff (by decide)).mp hx]
    exact (inside_iff_plain (by decide)).mpr (by decide)
  exact ⟨hsafe, (confined_iff asciiUpper_upperCase rfl _ none).mpr hsafe⟩

/-- Deleting the file `../A` on the first drive. -/
theorem delete_leaves_directory :
    ¬ ∀ (upper : Nat → Text) (f : Function) (payload : List Byte) (s : Server) (d : Byte),
      f.UsesFcb = true → payload[f.fcbOffset]? = some d → 1 ≤ d.toNat → d.toNat ≤ 16 →
        ∀ q ∈ touchedBy (f.handle upper payload) { s with touched := [] },
          ∃ dir, s.driveDirs (d.toNat - 1) = some dir ∧ DirectChild dir q := by
  intro hclaim
  have htouched : text "/srv/../A" ∈ touchedBy
      (Function.handle asciiUpper .deleteFile (request 1#8 "../A       " []))
      { emptyServer with touched := [] } := by
    decide
  obtain ⟨dir, hdir, -, x, -, hx⟩ := hclaim asciiUpper .deleteFile
    (request 1#8 "../A       " []) emptyServer 1#8 rfl (by decide) (by decide) (by decide)
    _ htouched
  have hsrv : dir = text "/srv" := by
    rw [show emptyServer.driveDirs ((1#8).toNat - 1) = some (text "/srv") by decide] at hdir
    exact (Option.some.inj hdir).symm
  -- the path has two components more than the directory
  have htwo : (components (text "/srv/../A")).length = (components (text "/srv")).length + 2 := by
    decide
  rw [hx, hsrv, List.length_append] at htwo
  exact absurd htwo (by simp)

end CpNet
end Rc700
