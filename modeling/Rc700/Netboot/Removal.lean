import Rc700.Netboot.Search

/-!
# What DELETE and RENAME take away

A name that is in none of the three tables stays out of them until MAKE or RENAME creates it
(`absent_run`), and meanwhile no request finds it and no search lists it (`absent_gone`).

RENAME leaves the old name so (`rename_atomic`).  DELETE takes a name out of `_WRITES` alone:
a file of the host that RANDOM WRITE has copied comes back (`delete_gone_iff`).
-/

namespace Rc700
namespace Netboot

open Library

variable {host : Path → Option (List Byte)} {s s' : State} {r : Request} {key : Key}

/-! ### Names that are not found -/

/-- The request creates the name: MAKE, or RENAME to it. -/
def Creates (host : Path → Option (List Byte)) (key : Key) (s : State) (r : Request) : Prop :=
  ¬Refused (replyTo host s r) ∧
    (r.fnc = 22#8 ∧ fcbKey (fcbOf r.data) = key ∨ r.fnc = 23#8 ∧ newKey (fcbOf r.data) = key)

/-- No request of the run creates the name. -/
def Uncreated (host : Path → Option (List Byte)) (key : Key) : State → List Request → Prop
  | _, [] => True
  | s, r :: rs => ¬Creates host key s r ∧ Uncreated host key (after host s r) rs

/-- OPEN, RANDOM READ and READ SEQ do not find the name, and FILE SIZE has no records. -/
structure NotFound (host : Path → Option (List Byte)) (s : State) (key : Key) : Prop where
  open_file : ∀ data, fcbKey (fcbOf data) = key → Refused (replyTo host s ⟨15#8, data⟩)
  random_read : ∀ data, fcbKey (fcbOf data) = key → Refused (replyTo host s ⟨33#8, data⟩)
  read_seq : ∀ data, fcbKey (paddedFcb data) = key → Refused (replyTo host s ⟨20#8, data⟩)
  file_size : ∀ data, fcbKey (fcbOf data) = key →
    replyTo host s ⟨35#8, data⟩ =
      some (0x00#8 :: (((fcbOf data).set 33 0#8).set 34 0#8).set 35 0#8)

/-- WRITE SEQ, RANDOM WRITE, DELETE and RENAME do not find the name. -/
structure NotChanged (host : Path → Option (List Byte)) (s : State) (key : Key) : Prop where
  write_seq : ∀ data, fcbKey (fcbOf data) = key → Refused (replyTo host s ⟨21#8, data⟩)
  random_write : ∀ data, fcbKey (fcbOf data) = key → Refused (replyTo host s ⟨34#8, data⟩)
  delete : ∀ data, fcbKey (fcbOf data) = key → Refused (replyTo host s ⟨19#8, data⟩)
  rename : ∀ data, fcbKey (fcbOf data) = key → Refused (replyTo host s ⟨23#8, data⟩)

/-- A new search does not list the name, nor do the SEARCH NEXTs after it. -/
def Unlisted (host : Path → Option (List Byte)) (s : State) (key : Key) : Prop :=
  ∀ data rs, Uncreated host key s (⟨17#8, data⟩ :: rs) →
    ∀ reply ∈ searchReplies host s (⟨17#8, data⟩ :: rs), ¬Lists reply key

/-- The name is gone, until it is created again. -/
def Gone (host : Path → Option (List Byte)) (s : State) (key : Key) : Prop :=
  ∀ rs, Uncreated host key s rs →
    NotFound host (rs.foldl (after host) s) key ∧ Unlisted host (rs.foldl (after host) s) key

/-! ### Names in none of the tables -/

/-- The name is in none of the three tables. -/
structure Absent (s : State) (key : Key) : Prop where
  map : key ∉ s.fileMap
  writes : key ∉ s.writes
  closed : key ∉ s.openFiles

theorem Absent.not_visible (hs : Absent s key) : ¬Visible s key :=
  not_or.mpr ⟨hs.map, hs.writes⟩

theorem Absent.content (hs : Absent s key) (host : Path → Option (List Byte)) :
    fileContent host s key = none := by
  cases hcontent : fileContent host s key with
  | none => rfl
  | some content =>
      exact absurd (visible_of_content (Option.isSome_iff_exists.mpr ⟨content, hcontent⟩))
        hs.not_visible

theorem Absent.notFound (hs : Absent s key) (host : Path → Option (List Byte)) :
    NotFound host s key where
  open_file := by
    rintro data rfl
    change Refused (openFile host data s).1
    unfold openFile
    dsimp only
    rw [hs.content host]
    exact refused_error _
  random_read := by
    rintro data rfl
    change Refused (randomRead host data s).1
    unfold randomRead
    dsimp only
    rw [hs.content host]
    exact refused_error _
  read_seq := by
    rintro data rfl
    change Refused (readSeq data s).1
    unfold readSeq
    dsimp only
    rw [AList.lookup_eq_none.mpr hs.closed]
    exact refused_error _
  file_size := by
    rintro data rfl
    change (computeFileSize host data s).1 = _
    unfold computeFileSize fileSize
    dsimp only
    rw [hs.content host]
    rfl

theorem Absent.notChanged (hs : Absent s key) (host : Path → Option (List Byte)) :
    NotChanged host s key where
  write_seq := by
    rintro data rfl
    change Refused (writeSeq data s).1
    unfold writeSeq
    dsimp only
    rw [AList.lookup_eq_none.mpr hs.writes]
    exact refused_error _
  random_write := by
    rintro data rfl
    change Refused (randomWrite host data s).1
    unfold randomWrite
    dsimp only
    rw [hs.content host]
    exact refused_error _
  delete := by
    rintro data rfl
    change Refused (deleteFile data s).1
    unfold deleteFile
    dsimp only
    rw [if_neg hs.writes]
    exact refused_error _
  rename := by
    rintro data rfl
    change Refused (renameFile data s).1
    rcases renameFile_cases data s with ⟨-, hresult⟩ | ⟨hvisible, -⟩
    · rw [hresult]
      exact refused_error _
    · exact absurd hvisible hs.not_visible

/-- Nothing but the new name comes into a table. -/
theorem mem_of_mem_moveKey {β : Type} {old new : Key} {table : AList (fun _ : Key => β)}
    (hne : key ≠ new) (hkey : key ∈ moveKey old new table) : key ∈ table := by
  unfold moveKey at hkey
  split at hkey
  · exact hkey
  · rw [AList.mem_insert, AList.mem_erase] at hkey
    exact (hkey.resolve_left hne).2

/-- **A request that does not create the name** leaves it out. -/
theorem absent_after (hs : Absent s key) (hcreates : ¬Creates host key s r) :
    Absent (after host s r) key := by
  obtain ⟨hm, hw, ho⟩ := hs
  have hvisible : ¬Visible s key := not_or.mpr ⟨hm, hw⟩
  have heffect := effect_after host s r
  generalize after host s r = s' at heffect
  -- no effect brings the key into one of the three tables, except by creating it
  cases heffect with
  | keeps hmap hwrites hopen => exact ⟨hmap ▸ hm, hwrites ▸ hw, hopen ▸ ho⟩
  | opens k content hcontent hmap hwrites hopen =>
      have hne : key ≠ k := by
        rintro rfl
        exact hvisible (visible_of_content (Option.isSome_iff_exists.mpr ⟨content, hcontent⟩))
      refine ⟨hmap ▸ hm, hwrites ▸ hw, ?_⟩
      rw [hopen, AList.mem_insert]
      exact not_or.mpr ⟨hne, ho⟩
  | closes k hmap hwrites hopen =>
      refine ⟨hmap ▸ hm, hwrites ▸ hw, ?_⟩
      rw [hopen, AList.mem_erase]
      exact fun hk => ho hk.2
  | makes hfnc hreply hmap hwrites hopen =>
      have hne : key ≠ fcbKey (fcbOf r.data) := by
        intro hkey
        exact hcreates ⟨hreply, .inl ⟨hfnc, hkey.symm⟩⟩
      refine ⟨hmap ▸ hm, ?_, ?_⟩
      · rw [hwrites, AList.mem_insert]
        exact not_or.mpr ⟨hne, hw⟩
      · rw [hopen, AList.mem_insert]
        exact not_or.mpr ⟨hne, ho⟩
  | stores k buf hk hmap hwrites hopen =>
      have hne : key ≠ k := by
        rintro rfl
        exact hw hk
      refine ⟨hmap ▸ hm, ?_, ?_⟩
      · rw [hwrites, AList.mem_insert]
        exact not_or.mpr ⟨hne, hw⟩
      · rw [hopen, AList.mem_insert]
        exact not_or.mpr ⟨hne, ho⟩
  | copies hfnc k buf hcontent hmap hwrites hopen =>
      have hne : key ≠ k := by
        rintro rfl
        exact hvisible (visible_of_content hcontent)
      refine ⟨hmap ▸ hm, ?_, hopen ▸ ho⟩
      rw [hwrites, AList.mem_insert]
      exact not_or.mpr ⟨hne, hw⟩
  | deletes hfnc k hmap hwrites hopen =>
      refine ⟨hmap ▸ hm, ?_, ?_⟩
      · rw [hwrites, AList.mem_erase]
        exact fun hk => hw hk.2
      · rw [hopen, AList.mem_erase]
        exact fun hk => ho hk.2
  | renames hfnc old hreply hnew hmap hwrites hopen =>
      have hne : key ≠ newKey (fcbOf r.data) := by
        intro hkey
        exact hcreates ⟨hreply, .inr ⟨hfnc, hkey.symm⟩⟩
      refine ⟨?_, ?_, ?_⟩
      · rw [hmap]
        exact fun hk => hm (mem_of_mem_moveKey hne hk)
      · rw [hwrites]
        exact fun hk => hw (mem_of_mem_moveKey hne hk)
      · rw [hopen]
        exact fun hk => ho (mem_of_mem_moveKey hne hk)

theorem absent_run (hs : Absent s key) {rs : List Request} (hrs : Uncreated host key s rs) :
    Absent (rs.foldl (after host) s) key := by
  induction rs generalizing s with
  | nil => exact hs
  | cons r rs ih => exact ih (absent_after hs hrs.1) hrs.2

/-! ### Searches -/

/-- The list of the search is without the name. -/
def NotPending (s : State) (key : Key) : Prop := ∀ k ∈ s.search.pending, k.length = 11 ∧ k ≠ key

theorem pending_searchReply :
    (searchReply host s).2.search.pending = s.search.pending.tail := by
  unfold searchReply
  cases hpending : s.search.pending with
  | nil => rw [hpending]; rfl
  | cons k pending => rfl

theorem NotPending.reply (hs : NotPending s key) : NotPending (searchReply host s).2 key := by
  intro k hk
  rw [pending_searchReply] at hk
  exact hs k (List.mem_of_mem_tail hk)

theorem NotPending.not_lists (hs : NotPending s key) : ¬Lists (searchReply host s).1 key :=
  fun hlists => (hs key (lists_pending (fun k hk => (hs k hk).1) hlists)).2 rfl

/-- A new list has only what is in the directory. -/
theorem notPending_found (hs : ¬Visible s key) (pattern : Key) (k : Key)
    (hk : k ∈ found s pattern) : k.length = 11 ∧ k ≠ key := by
  rw [found, List.mem_filter, mem_allKeys] at hk
  obtain ⟨hvisible, hmatch⟩ := hk
  unfold patternMatch at hmatch
  refine ⟨(of_decide_eq_true hmatch).2.1, ?_⟩
  rintro rfl
  exact hs hvisible

/-- No reply of the run lists the name. -/
theorem not_lists_run {rs : List Request} (hs : Absent s key) (hpending : NotPending s key)
    (hrs : Uncreated host key s rs) : ∀ reply ∈ searchReplies host s rs, ¬Lists reply key := by
  -- by induction on the requests; the key stays absent, and so it gets on no list
  induction rs generalizing s with
  | nil => exact fun reply hreply => absurd hreply List.not_mem_nil
  | cons r rs ih =>
      obtain ⟨hcreates, hrs⟩ := hrs
      have hs' := absent_after hs hcreates
      rw [searchReplies]
      by_cases hfirst : r.fnc = 17#8
      · -- a new list
        let start : State := { s with
          search := ⟨some (patternOf r.data), found s (patternOf r.data)⟩ }
        have hstart : NotPending start key := notPending_found hs.not_visible _
        have hreply : replyTo host s r = (searchReply host start).1 := by
          unfold replyTo
          rw [hfirst]
          rfl
        have hstate : after host s r = (searchReply host start).2 := by
          unfold after
          rw [hfirst]
          rfl
        rw [if_pos (.inl hfirst)]
        intro reply hmem
        rcases List.mem_cons.mp hmem with rfl | hmem
        · exact hreply ▸ hstart.not_lists
        · exact ih hs' (hstate ▸ hstart.reply) hrs reply hmem
      · by_cases hnext : r.fnc = 18#8
        · have hreply : replyTo host s r = (searchReply host s).1 := by
            unfold replyTo
            rw [hnext]
            rfl
          have hstate : after host s r = (searchReply host s).2 := by
            unfold after
            rw [hnext]
            rfl
          rw [if_pos (.inr hnext)]
          intro reply hmem
          rcases List.mem_cons.mp hmem with rfl | hmem
          · exact hreply ▸ hpending.not_lists
          · exact ih hs' (hstate ▸ hpending.reply) hrs reply hmem
        · rw [if_neg (not_or.mpr ⟨hfirst, hnext⟩)]
          have hsame := search_after (s := s) host hfirst hnext
          refine ih hs' (fun k hk => hpending k ?_) hrs
          rwa [hsame] at hk

theorem Absent.unlisted (hs : Absent s key) : Unlisted host s key := by
  intro data rs hrs
  -- what was on the list before does not count
  let cleared : State := { s with search := ⟨none, []⟩ }
  have hcleared : Absent cleared key := ⟨hs.map, hs.writes, hs.closed⟩
  have hempty : NotPending cleared key := fun k hk => absurd hk List.not_mem_nil
  have hsame : searchReplies host s (⟨17#8, data⟩ :: rs) =
      searchReplies host cleared (⟨17#8, data⟩ :: rs) := rfl
  rw [hsame]
  exact not_lists_run hcleared hempty hrs

/-- **A name in none of the tables is gone.** -/
theorem absent_gone (hs : Absent s key) : Gone host s key := by
  intro rs hrs
  have hend := absent_run hs hrs
  exact ⟨hend.notFound host, hend.unlisted⟩

/-- Sooner or later a name on the list is listed. -/
theorem lists_of_pending (hpending : key ∈ s.search.pending) (hkey : Listable key) :
    ∃ n, ∃ reply ∈ searchReplies host s (List.replicate n ⟨18#8, []⟩), Lists reply key := by
  generalize hlist : s.search.pending = pending at hpending
  induction pending generalizing s with
  | nil => exact absurd hpending List.not_mem_nil
  | cons k pending ih =>
      by_cases hk : key = k
      · rw [← hk] at hlist
        exact ⟨1, _, List.mem_singleton.mpr rfl, (searchReply_next host hlist hkey).1⟩
      · have htail : (searchReply host s).2.search.pending = pending := by
          rw [pending_searchReply, hlist]
          rfl
        obtain ⟨n, reply, hmem, hlists⟩ :=
          ih htail ((List.mem_cons.mp hpending).resolve_left hk)
        exact ⟨n + 1, reply, List.mem_cons_of_mem _ hmem, hlists⟩

/-! ### Keys of requests -/

/-- A character that `_fcb_key` makes: ASCII, and not a small letter. -/
def IsKeyChar (c : Char) : Prop := c.toNat < 128 ∧ c.toUpper = c

theorem isKeyChar_toUpper {c : Char} (hascii : c.toNat < 128) : IsKeyChar c.toUpper := by
  have hall : ∀ n < 128, (Char.ofNat n).toUpper.toNat < 128 ∧
      (Char.ofNat n).toUpper.toUpper = (Char.ofNat n).toUpper := by decide
  have hc := hall c.toNat hascii
  rwa [Char.ofNat_toNat] at hc

theorem ascii_decode {bytes : List Byte} {c : Char} (hc : c ∈ decode bytes) : c.toNat < 128 := by
  obtain ⟨b, -, rfl⟩ := List.mem_map.mp hc
  have hlow : (b &&& 0x7F#8).toNat < 128 := by
    rw [BitVec.toNat_and]
    exact lt_of_le_of_lt Nat.and_le_right (by decide)
  have hall : ∀ n < 128, (Char.ofNat n).toNat = n := by decide
  rw [hall _ hlow]
  exact hlow

theorem strip_sublist (xs : List Char) : (strip xs).Sublist xs := by
  unfold strip
  have hback :=
    (List.dropWhile_sublist (p := isSpace) (l := (xs.dropWhile isSpace).reverse)).reverse
  rw [List.reverse_reverse] at hback
  exact hback.trans (List.dropWhile_sublist _)

theorem length_ljust {α : Type} {n : Nat} {fill : α} {xs : List α} (hlen : xs.length ≤ n) :
    (ljust n fill xs).length = n := by
  rw [ljust, List.length_append, List.length_replicate, Nat.add_sub_cancel' hlen]

theorem length_field {bytes : List Byte} {n : Nat} :
    (ljust n ' ' (strip (decode (bytes.take n)))).length = n := by
  refine length_ljust ((strip_sublist _).length_le.trans ?_)
  rw [decode, List.length_map]
  exact List.length_take_le n bytes

theorem length_fcbKey (fcb : List Byte) : (fcbKey fcb).length = 11 := by
  unfold fcbKey
  rw [List.length_map, List.length_append, length_field, length_field]

theorem isKeyChar_fcbKey {fcb : List Byte} {c : Char} (hc : c ∈ fcbKey fcb) : IsKeyChar c := by
  unfold fcbKey at hc
  dsimp only at hc
  obtain ⟨plain, hplain, rfl⟩ := List.mem_map.mp hc
  refine isKeyChar_toUpper ?_
  have hfield : ∀ (n : Nat) (bytes : List Byte),
      plain ∈ ljust n ' ' (strip (decode bytes)) → plain.toNat < 128 := by
    intro n bytes hmem
    rcases List.mem_append.mp hmem with hname | hfill
    · exact ascii_decode ((strip_sublist _).subset hname)
    · rw [List.eq_of_mem_replicate hfill]
      decide
  rcases List.mem_append.mp hplain with hname | hext
  · exact hfield 8 _ hname
  · exact hfield 3 _ hext

theorem listable_fcbKey (fcb : List Byte) : Listable (fcbKey fcb) :=
  ⟨length_fcbKey fcb, fun _ hc => (isKeyChar_fcbKey hc).1⟩

/-- A search for the name itself. -/
def searchData (key : Key) : List Byte :=
  [0#8, 0#8] ++ (key.map (fun c => BitVec.ofNat 8 c.toNat) ++ List.replicate 24 0#8)

theorem matches_self (hkey : ∀ c ∈ key, IsKeyChar c) :
    Matches (key.map fun c => BitVec.ofNat 8 c.toNat) key := by
  unfold Matches
  rw [List.forall₂_map_left_iff, List.forall₂_same]
  intro c hc
  obtain ⟨hascii, hupper⟩ := hkey c hc
  have hread : decode ([c].map fun c => BitVec.ofNat 8 c.toNat) = [c] :=
    decode_ascii fun c' hc' => List.mem_singleton.mp hc' ▸ hascii
  have hchar : Char.ofNat (BitVec.ofNat 8 c.toNat &&& 0x7F#8).toNat = c :=
    (List.cons.inj hread).1
  refine .inr ?_
  unfold patternChar
  rw [hchar, hupper]

theorem mem_found_self (fcb : List Byte) (hvisible : Visible s (fcbKey fcb)) :
    fcbKey fcb ∈ found s (patternOf (searchData (fcbKey fcb))) := by
  have hlen : ((fcbKey fcb).map fun c => BitVec.ofNat 8 c.toNat).length = 11 := by
    rw [List.length_map, length_fcbKey]
  unfold searchData
  rw [mem_found, List.take_left' hlen]
  · exact ⟨hvisible, matches_self fun c hc => isKeyChar_fcbKey hc⟩
  · rw [List.length_append, hlen, List.length_replicate]

theorem not_creates (hmake : r.fnc ≠ 22#8) (hrename : r.fnc ≠ 23#8) : ¬Creates host key s r := by
  rintro ⟨-, ⟨hfnc, -⟩ | ⟨hfnc, -⟩⟩
  · exact hmake hfnc
  · exact hrename hfnc

theorem uncreated_next (n : Nat) : Uncreated host key s (List.replicate n ⟨18#8, []⟩) := by
  induction n generalizing s with
  | zero => trivial
  | succ n ih =>
      exact ⟨not_creates (by decide) (by decide), ih⟩

/-- **A name that is visible is listed**, by a search for it. -/
theorem not_unlisted (fcb : List Byte) (hvisible : Visible s (fcbKey fcb)) :
    ¬Unlisted host s (fcbKey fcb) := by
  intro hunlisted
  let start : State := { s with
    search := ⟨some (patternOf (searchData (fcbKey fcb))),
      found s (patternOf (searchData (fcbKey fcb)))⟩ }
  obtain ⟨n, reply, hmem, hlists⟩ :=
    lists_of_pending (s := start) (mem_found_self fcb hvisible)
      (listable_fcbKey fcb)
  -- the first of the searches makes the list
  cases n with
  | zero => exact absurd hmem List.not_mem_nil
  | succ n =>
      have hrun : Uncreated host (fcbKey fcb) s
          (⟨17#8, searchData (fcbKey fcb)⟩ :: List.replicate n ⟨18#8, []⟩) :=
        ⟨not_creates (show 17#8 ≠ 22#8 by decide) (show 17#8 ≠ 23#8 by decide),
          uncreated_next n⟩
      exact hunlisted _ _ hrun reply hmem hlists

/-! ### RENAME -/

/-- **RENAME is atomic.**  It fails exactly when there is no old name or there is a new one, and
then leaves everything as it is; else the new name has all that the old one had, the old one is
gone, and no other name has changed. -/
theorem rename_atomic (host : Path → Option (List Byte)) (start : State)
    (hclosed : start.openFiles = ∅) (requests : List Request) (data : List Byte) :
    let s := requests.foldl (after host) start
    let s' := after host s ⟨23#8, data⟩
    let old := fcbKey (fcbOf data)
    let new := newKey (fcbOf data)
    (Refused (replyTo host s ⟨23#8, data⟩) ↔ ¬Visible s old ∨ Visible s new) ∧
    (Refused (replyTo host s ⟨23#8, data⟩) → s' = s) ∧
    (¬Refused (replyTo host s ⟨23#8, data⟩) →
      (fileContent host s' new = fileContent host s old ∧
        s'.openFiles.lookup new = s.openFiles.lookup old ∧
        s'.fileMap.lookup new = s.fileMap.lookup old ∧
        s'.writes.lookup new = s.writes.lookup old ∧ Visible s' new) ∧
      (Gone host s' old ∧ NotChanged host s' old) ∧
      (∀ key, key ≠ old → key ≠ new →
        s'.openFiles.lookup key = s.openFiles.lookup key ∧
        s'.fileMap.lookup key = s.fileMap.lookup key ∧
        s'.writes.lookup key = s.writes.lookup key) ∧
      s'.search = s.search ∧ s'.flushed = s.flushed) := by
  intro s s' old new
  have hopen : OpenVisible s := openVisible_run hclosed requests
  have hresult : (replyTo host s ⟨23#8, data⟩, s') = renameFile data s := rfl
  rcases renameFile_cases data s with ⟨hwhy, hrename⟩ | ⟨hvisible, hfresh, hrename⟩
  · obtain ⟨hreply, hstate⟩ := Prod.mk.inj (hresult.trans hrename)
    have hrefused : Refused (replyTo host s ⟨23#8, data⟩) := hreply ▸ refused_error _
    exact ⟨⟨fun _ => hwhy, fun _ => hrefused⟩, fun _ => hstate, absurd hrefused⟩
  -- the old name is there, and the new one is in none of the tables
  obtain ⟨hreply, hstate⟩ := Prod.mk.inj (hresult.trans hrename)
  have hsuccess : ¬Refused (replyTo host s ⟨23#8, data⟩) := hreply ▸ not_refused_ok _
  have hne : old ≠ new := by
    intro heq
    have hthere : Visible s new := heq ▸ hvisible
    exact hfresh hthere
  have hmap : s.fileMap.lookup new = none := AList.lookup_eq_none.mpr fun h => hfresh (.inl h)
  have hwrites : s.writes.lookup new = none := AList.lookup_eq_none.mpr fun h => hfresh (.inr h)
  have hcache : s.openFiles.lookup new = none :=
    AList.lookup_eq_none.mpr fun h => hfresh (hopen new h)
  refine ⟨⟨fun h => absurd h hsuccess, fun h => h.elim (absurd hvisible) fun h => absurd h hfresh⟩,
    fun h => absurd h hsuccess, fun _ => ?_⟩
  -- what each table has afterwards
  have hmap' : ∀ key, s'.fileMap.lookup key = move old new s.fileMap.lookup key := by
    intro key
    rw [hstate]
    exact congrFun (lookup_moveKey old hmap) key
  have hwrites' : ∀ key, s'.writes.lookup key = move old new s.writes.lookup key := by
    intro key
    rw [hstate]
    exact congrFun (lookup_moveKey old hwrites) key
  have hcache' : ∀ key, s'.openFiles.lookup key = move old new s.openFiles.lookup key := by
    intro key
    rw [hstate]
    exact congrFun (lookup_moveKey old hcache) key
  have habsent : Absent s' old := by
    refine ⟨?_, ?_, ?_⟩
    · rw [← AList.lookup_eq_none, hmap', move_old hne]
    · rw [← AList.lookup_eq_none, hwrites', move_old hne]
    · rw [← AList.lookup_eq_none, hcache', move_old hne]
  have hmapnew : s'.fileMap.lookup new = s.fileMap.lookup old := by rw [hmap', move_new]
  have hwritesnew : s'.writes.lookup new = s.writes.lookup old := by rw [hwrites', move_new]
  refine ⟨⟨?_, ?_, hmapnew, hwritesnew, ?_⟩, ⟨absent_gone habsent, habsent.notChanged host⟩,
    fun key hkey hkey' => ⟨?_, ?_, ?_⟩, ?_, ?_⟩
  · unfold fileContent
    rw [hmapnew, hwritesnew]
  · rw [hcache', move_new]
  · unfold Visible at hvisible ⊢
    rwa [← AList.lookup_isSome, ← AList.lookup_isSome, hmapnew, hwritesnew,
      AList.lookup_isSome, AList.lookup_isSome]
  · rw [hcache', move_other hkey hkey']
  · rw [hmap', move_other hkey hkey']
  · rw [hwrites', move_other hkey hkey']
  · rw [hstate]
  · rw [hstate]

/-- The name of the other file, from which RENAME makes a third. -/
def renameData : List Byte :=
  0#8 :: (0#8 :: "CPNOS   IMG".toList.map (fun c => BitVec.ofNat 8 c.toNat)) ++
    [0#8, 0#8, 0#8, 0#8, 0#8] ++
    "OTHER   IMG".toList.map (fun c => BitVec.ofNat 8 c.toNat) ++ List.replicate 8 0#8

/-- The FCB of the host's file. -/
def imageData : List Byte :=
  0#8 :: 0#8 :: "CPNOS   IMG".toList.map (fun c => BitVec.ofNat 8 c.toNat) ++ List.replicate 24 0#8

-- the file has a copy of its own when it gets the new name, by a random write
theorem rename_atomic_twoFiles :
    let host : Path → Option (List Byte) := fun _ => some []
    let s := after host twoFiles ⟨34#8, imageData⟩
    let s' := after host s ⟨23#8, renameData⟩
    ¬Refused (replyTo host s ⟨23#8, renameData⟩) ∧
      fileContent host s' "OTHER   IMG".toList = fileContent host s "CPNOS   IMG".toList ∧
      Visible s' "OTHER   IMG".toList ∧ Gone host s' "CPNOS   IMG".toList ∧
      s'.writes.lookup "$$$     SUB".toList = some [0x00#8] := by
  intro host s s'
  have hold : fcbKey (fcbOf renameData) = "CPNOS   IMG".toList := by decide
  have hnew : newKey (fcbOf renameData) = "OTHER   IMG".toList := by decide
  have hsuccess : ¬Refused (replyTo host s ⟨23#8, renameData⟩) := by decide
  have hother : s.writes.lookup "$$$     SUB".toList = some [0x00#8] := by decide
  obtain ⟨-, -, hrenames⟩ := rename_atomic host twoFiles rfl [⟨34#8, imageData⟩] renameData
  obtain ⟨⟨hcontent, -, -, -, hvisible⟩, ⟨hgone, -⟩, hframe, -, -⟩ := hrenames hsuccess
  rw [hold] at hcontent hgone
  rw [hnew] at hcontent hvisible
  refine ⟨hsuccess, hcontent, hvisible, hgone, ?_⟩
  have hsub := hframe "$$$     SUB".toList (by rw [hold]; decide) (by rw [hnew]; decide)
  exact hsub.2.2.trans hother

/-! ### DELETE -/

/-- A name that DELETE has deleted is gone, and one that it refuses stays as it is. -/
def DeletesAll (host : Path → Option (List Byte)) (s : State) (data : List Byte) : Prop :=
  (¬Refused (replyTo host s ⟨19#8, data⟩) →
    Gone host (after host s ⟨19#8, data⟩) (fcbKey (fcbOf data))) ∧
  (Refused (replyTo host s ⟨19#8, data⟩) → after host s ⟨19#8, data⟩ = s)

/-- What DELETE leaves of a file of the host is in the directory again. -/
theorem not_deletesAll {data : List Byte} (hwrites : fcbKey (fcbOf data) ∈ s.writes)
    (hmap : fcbKey (fcbOf data) ∈ s.fileMap) : ¬DeletesAll host s data := by
  rintro ⟨hgone, -⟩
  have hresult : (replyTo host s ⟨19#8, data⟩, after host s ⟨19#8, data⟩) = deleteFile data s := rfl
  unfold deleteFile at hresult
  dsimp only at hresult
  rw [if_pos hwrites] at hresult
  obtain ⟨hreply, hstate⟩ := Prod.mk.inj hresult
  have hunlisted := (hgone (hreply ▸ not_refused_ok _) [] trivial).2
  refine not_unlisted (fcbOf data) (.inl ?_) hunlisted
  rw [List.foldl_nil, hstate]
  exact hmap

/-- **DELETE means gone**, but for the copy of a file of the host. -/
theorem delete_gone_iff (host : Path → Option (List Byte)) (s : State) (data : List Byte) :
    DeletesAll host s data ↔
      ¬(fcbKey (fcbOf data) ∈ s.writes ∧ fcbKey (fcbOf data) ∈ s.fileMap) := by
  refine ⟨fun hall hboth => not_deletesAll hboth.1 hboth.2 hall, fun hnone => ?_⟩
  unfold DeletesAll
  have hresult : (replyTo host s ⟨19#8, data⟩, after host s ⟨19#8, data⟩) = deleteFile data s := rfl
  unfold deleteFile at hresult
  dsimp only at hresult
  by_cases hwrites : fcbKey (fcbOf data) ∈ s.writes
  · rw [if_pos hwrites] at hresult
    obtain ⟨hreply, hstate⟩ := Prod.mk.inj hresult
    have hsuccess : ¬Refused (replyTo host s ⟨19#8, data⟩) := hreply ▸ not_refused_ok _
    rw [hstate]
    refine ⟨fun _ => absent_gone ⟨fun hmap => hnone ⟨hwrites, hmap⟩, ?_, ?_⟩,
      fun h => absurd h hsuccess⟩
    · exact fun h => (AList.mem_erase.mp h).1 rfl
    · exact fun h => (AList.mem_erase.mp h).1 rfl
  · rw [if_neg hwrites] at hresult
    obtain ⟨hreply, hstate⟩ := Prod.mk.inj hresult
    have hrefused : Refused (replyTo host s ⟨19#8, data⟩) := hreply ▸ refused_error _
    exact ⟨absurd hrefused, fun _ => hstate⟩

theorem delete_copy_remains : ¬∀ (host : Path → Option (List Byte)) (start : State)
    (_ : start.openFiles = ∅) (requests : List Request) (data : List Byte),
    DeletesAll host (requests.foldl (after host) start) data := by
  intro hall
  refine not_deletesAll (s := after (fun _ => some []) twoFiles ⟨34#8, imageData⟩) ?_ ?_
    (hall (fun _ => some []) twoFiles rfl [⟨34#8, imageData⟩] imageData)
  · decide
  · decide

end Netboot
end Rc700
