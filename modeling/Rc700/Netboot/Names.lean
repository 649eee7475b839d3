import Rc700.Netboot.Coherence

/-!
# The name space of the boot server

A name is visible if it is in `_FILE_MAP` or in `_WRITES`; it may be open besides.  What a
request does to these three tables is one of a few effects (`effect_after`), from which the
invariants of the name space follow: what is open is visible (`openVisible_run`).
-/

namespace Rc700
namespace Netboot

open Library

variable (host : Path → Option (List Byte))

/-! ### Requests -/

/-- The reply to a request. -/
def replyTo (s : State) (r : Request) : Option (List Byte) :=
  (dispatchSndmsg host r.fnc r.data s).1

/-- The state after a request. -/
def after (s : State) (r : Request) : State := (dispatchSndmsg host r.fnc r.data s).2

/-- The name is in the directory. -/
def Visible (s : State) (key : Key) : Prop := key ∈ s.fileMap ∨ key ∈ s.writes

instance (s : State) (key : Key) : Decidable (Visible s key) :=
  inferInstanceAs (Decidable (_ ∨ _))

/-- RENAME is refused, or it moves the old name in the three tables. -/
theorem renameFile_cases (data : List Byte) (s : State) :
    ((¬Visible s (fcbKey (fcbOf data)) ∨ Visible s (newKey (fcbOf data))) ∧
      renameFile data s = (some (0xFF#8 :: fcbOf data), s)) ∨
    (Visible s (fcbKey (fcbOf data)) ∧ ¬Visible s (newKey (fcbOf data)) ∧
      renameFile data s = (some (0x00#8 :: fcbOf data),
        { s with
          writes := moveKey (fcbKey (fcbOf data)) (newKey (fcbOf data)) s.writes
          openFiles := moveKey (fcbKey (fcbOf data)) (newKey (fcbOf data)) s.openFiles
          fileMap := moveKey (fcbKey (fcbOf data)) (newKey (fcbOf data)) s.fileMap })) := by
  unfold renameFile
  dsimp only
  split
  · next hmissing => exact .inl ⟨.inl (not_or.mpr hmissing.symm), rfl⟩
  · next hold =>
      have hvisible : Visible s (fcbKey (fcbOf data)) := by
        by_contra hnone
        exact hold (not_or.mp hnone).symm
      split
      · next hthere => exact .inl ⟨.inr hthere.symm, rfl⟩
      · next hnew => exact .inr ⟨hvisible, fun hthere => hnew hthere.symm, rfl⟩

/-- What a request does to the three tables. -/
inductive Effect (s : State) (r : Request) (s' : State) : Prop
  | keeps (hmap : s'.fileMap = s.fileMap) (hwrites : s'.writes = s.writes)
      (hopen : s'.openFiles = s.openFiles)
  | opens (key : Key) (content : List Byte) (hcontent : fileContent host s key = some content)
      (hmap : s'.fileMap = s.fileMap) (hwrites : s'.writes = s.writes)
      (hopen : s'.openFiles = s.openFiles.insert key content)
  | closes (key : Key) (hmap : s'.fileMap = s.fileMap) (hwrites : s'.writes = s.writes)
      (hopen : s'.openFiles = s.openFiles.erase key)
  | makes (hfnc : r.fnc = 22#8) (hreply : ¬Refused (replyTo host s r))
      (hmap : s'.fileMap = s.fileMap)
      (hwrites : s'.writes = s.writes.insert (fcbKey (fcbOf r.data)) [])
      (hopen : s'.openFiles = s.openFiles.insert (fcbKey (fcbOf r.data)) [])
  | stores (key : Key) (buf : List Byte) (hkey : key ∈ s.writes) (hmap : s'.fileMap = s.fileMap)
      (hwrites : s'.writes = s.writes.insert key buf)
      (hopen : s'.openFiles = s.openFiles.insert key buf)
  | copies (hfnc : r.fnc = 34#8) (key : Key) (buf : List Byte)
      (hcontent : (fileContent host s key).isSome)
      (hmap : s'.fileMap = s.fileMap) (hwrites : s'.writes = s.writes.insert key buf)
      (hopen : s'.openFiles = s.openFiles)
  | deletes (hfnc : r.fnc = 19#8) (key : Key) (hmap : s'.fileMap = s.fileMap)
      (hwrites : s'.writes = s.writes.erase key) (hopen : s'.openFiles = s.openFiles.erase key)
  | renames (hfnc : r.fnc = 23#8) (old : Key) (hreply : ¬Refused (replyTo host s r))
      (hnew : ¬Visible s (newKey (fcbOf r.data)))
      (hmap : s'.fileMap = moveKey old (newKey (fcbOf r.data)) s.fileMap)
      (hwrites : s'.writes = moveKey old (newKey (fcbOf r.data)) s.writes)
      (hopen : s'.openFiles = moveKey old (newKey (fcbOf r.data)) s.openFiles)

variable {host} {s s' : State} {r : Request} {key : Key}

theorem effect_openFile (data : List Byte) : Effect host s r (openFile host data s).2 := by
  unfold openFile
  dsimp only
  split
  · exact .keeps rfl rfl rfl
  · rename_i content hcontent
    exact .opens _ content hcontent rfl rfl rfl

theorem effect_writeSeq (data : List Byte) : Effect host s r (writeSeq data s).2 := by
  unfold writeSeq
  dsimp only
  split
  · exact .keeps rfl rfl rfl
  · rename_i buf hbuf
    exact .stores _ _ (AList.lookup_isSome.mp (Option.isSome_iff_exists.mpr ⟨buf, hbuf⟩)) rfl
      rfl rfl

theorem effect_readSeq (data : List Byte) : Effect host s r (readSeq data s).2 := by
  unfold readSeq
  dsimp only
  split
  · exact .keeps rfl rfl rfl
  · split
    · exact .keeps rfl rfl rfl
    · exact .keeps rfl rfl rfl

theorem effect_closeFile (data : List Byte) : Effect host s r (closeFile data s).2 := by
  unfold closeFile
  dsimp only
  split
  · exact .closes _ rfl rfl rfl
  · split
    · exact .closes _ rfl rfl rfl
    · exact .closes _ rfl rfl rfl

theorem effect_randomRead (data : List Byte) : Effect host s r (randomRead host data s).2 := by
  unfold randomRead
  dsimp only
  split
  · exact .keeps rfl rfl rfl
  · exact .keeps rfl rfl rfl

theorem effect_searchReply (hmap : s'.fileMap = s.fileMap) (hwrites : s'.writes = s.writes)
    (hopen : s'.openFiles = s.openFiles) : Effect host s r (searchReply host s').2 := by
  unfold searchReply
  split
  · exact .keeps hmap hwrites hopen
  · exact .keeps hmap hwrites hopen

/-- **One effect for each request.** -/
theorem effect_after (host : Path → Option (List Byte)) (s : State) (r : Request) :
    Effect host s r (after host s r) := by
  obtain ⟨fnc, data⟩ := r
  unfold after dispatchSndmsg
  dsimp only
  -- one case for each function, in the order of the source
  split
  · exact .keeps rfl rfl rfl
  · exact .keeps rfl rfl rfl
  · exact effect_openFile data
  · -- MAKE
    have hreply : replyTo host s ⟨22#8, data⟩ = (makeFile data s).1 := rfl
    unfold makeFile at hreply ⊢
    dsimp only at hreply ⊢
    by_cases hthere : fcbKey (fcbOf data) ∈ s.fileMap
    · rw [if_pos hthere]
      exact .keeps rfl rfl rfl
    · rw [if_neg hthere] at hreply ⊢
      refine .makes rfl ?_ rfl rfl rfl
      rw [hreply]
      exact not_refused_fcbReply data 0#8
  · exact effect_writeSeq data
  · exact effect_readSeq data
  · exact effect_closeFile data
  · exact .keeps rfl rfl rfl
  · exact effect_randomRead data
  · -- RANDOM WRITE
    unfold randomWrite
    dsimp only
    split
    · exact .keeps rfl rfl rfl
    · rename_i src hsrc
      exact .copies rfl _ _ (Option.isSome_iff_exists.mpr ⟨src, hsrc⟩) rfl rfl rfl
  · -- DELETE
    unfold deleteFile
    dsimp only
    split
    · exact .deletes rfl _ rfl rfl rfl
    · exact .keeps rfl rfl rfl
  · -- RENAME
    have hreply : replyTo host s ⟨23#8, data⟩ = (renameFile data s).1 := rfl
    rcases renameFile_cases data s with ⟨-, hresult⟩ | ⟨-, hnew, hresult⟩
    · rw [hresult]
      exact .keeps rfl rfl rfl
    · rw [hresult] at hreply ⊢
      refine .renames rfl _ ?_ hnew rfl rfl rfl
      rw [hreply]
      exact not_refused_ok _
  · exact effect_searchReply rfl rfl rfl
  · exact effect_searchReply rfl rfl rfl
  · exact .keeps rfl rfl rfl
  · exact .keeps rfl rfl rfl

/-! ### Open names -/

/-- What is open is in the directory. -/
def OpenVisible (s : State) : Prop := ∀ key ∈ s.openFiles, Visible s key

theorem visible_of_content (hcontent : (fileContent host s key).isSome) : Visible s key := by
  unfold fileContent at hcontent
  cases hwrites : s.writes.lookup key with
  | some buf => exact .inr (AList.lookup_isSome.mp (hwrites ▸ rfl))
  | none =>
      rw [hwrites] at hcontent
      cases hmap : s.fileMap.lookup key with
      | some path => exact .inl (AList.lookup_isSome.mp (hmap ▸ rfl))
      | none =>
          rw [hmap] at hcontent
          exact nomatch hcontent

theorem mem_moveKey {β : Type} {old new : Key} {table : AList (fun _ : Key => β)}
    (hnew : new ∉ table) (k : Key) :
    k ∈ moveKey old new table ↔ k = new ∧ old ∈ table ∨ k ≠ new ∧ k ≠ old ∧ k ∈ table := by
  have hlookup := congrFun (lookup_moveKey old (AList.lookup_eq_none.mpr hnew)) k
  rw [← AList.lookup_isSome, hlookup]
  by_cases hk : k = new
  · rw [hk, move_new, AList.lookup_isSome]
    simp
  · by_cases hk' : k = old
    · rw [hk', move_old (hk' ▸ hk)]
      simp [hk' ▸ hk]
    · rw [move_other hk' hk, AList.lookup_isSome]
      simp [hk, hk']

/-- **What is open stays visible**, whatever is requested. -/
theorem openVisible_after (hs : OpenVisible s) (r : Request) : OpenVisible (after host s r) := by
  have heffect := effect_after host s r
  generalize after host s r = s' at heffect
  -- a key that is open was open before, or has just come into a table
  intro k hk
  unfold Visible
  cases heffect with
  | keeps hmap hwrites hopen =>
      rw [hmap, hwrites]
      rw [hopen] at hk
      exact hs k hk
  | opens key content hcontent hmap hwrites hopen =>
      rw [hmap, hwrites]
      rw [hopen, AList.mem_insert] at hk
      rcases hk with rfl | hk
      · exact visible_of_content (Option.isSome_iff_exists.mpr ⟨content, hcontent⟩)
      · exact hs k hk
  | closes key hmap hwrites hopen =>
      rw [hmap, hwrites]
      rw [hopen, AList.mem_erase] at hk
      exact hs k hk.2
  | makes hfnc hreply hmap hwrites hopen =>
      rw [hmap, hwrites, AList.mem_insert]
      rw [hopen, AList.mem_insert] at hk
      exact hk.elim (fun hkey => .inr (.inl hkey)) fun hk => (hs k hk).imp_right .inr
  | stores key buf hkey hmap hwrites hopen =>
      rw [hmap, hwrites, AList.mem_insert]
      rw [hopen, AList.mem_insert] at hk
      exact hk.elim (fun hkey => .inr (.inl hkey)) fun hk => (hs k hk).imp_right .inr
  | copies hfnc key buf hcontent hmap hwrites hopen =>
      rw [hmap, hwrites, AList.mem_insert]
      rw [hopen] at hk
      exact (hs k hk).imp_right .inr
  | deletes hfnc key hmap hwrites hopen =>
      rw [hmap, hwrites, AList.mem_erase]
      rw [hopen, AList.mem_erase] at hk
      exact (hs k hk.2).imp_right fun hw => ⟨hk.1, hw⟩
  | renames hfnc old hreply hnew hmap hwrites hopen =>
      obtain ⟨hmap', hwrites'⟩ := not_or.mp hnew
      have hclosed := fun hthere => hnew (hs _ hthere)
      rw [hmap, hwrites, mem_moveKey hmap', mem_moveKey hwrites']
      rw [hopen, mem_moveKey hclosed] at hk
      rcases hk with ⟨hkey, hold⟩ | ⟨hother, hother', hk⟩
      · exact (hs old hold).imp (fun h => .inl ⟨hkey, h⟩) fun h => .inl ⟨hkey, h⟩
      · exact (hs k hk).imp (fun h => .inr ⟨hother, hother', h⟩) fun h => .inr ⟨hother, hother', h⟩

/-- What is open at the end of any run is visible. -/
theorem openVisible_run (hclosed : s.openFiles = ∅) (requests : List Request) :
    OpenVisible (requests.foldl (after host) s) := by
  have hstart : OpenVisible s := by
    intro k hk
    rw [hclosed] at hk
    exact absurd hk (AList.notMem_empty k)
  have hall : ∀ (s : State) (requests : List Request), OpenVisible s →
      OpenVisible (requests.foldl (after host) s) := by
    intro s requests hs
    induction requests generalizing s with
    | nil => exact hs
    | cons r requests ih => exact ih _ (openVisible_after hs r)
  exact hall s requests hstart

end Netboot
end Rc700
