import Rc700.Bdos.Searching

/-!
# The file system: changing the entries that match

`delete`, `rename` and `indicators` are loops of one form: the current entry is changed and its
directory record is written back, and the search goes on behind it.  Here is what a record written
back does to the volume, and the head of such a loop, for any change of an entry.
-/

namespace Rc700
namespace Bdos

open Library

section Changing

variable {D : Type} {bios : Bios D} {dpb : Dpb}
  {Holds : D → Word × Word → (Nat → Option Record) → Prop} {vol vol' : Volume} {s s₁ : State D}
  {k n : Nat} {a : Nat → Byte} {l : Byte} {f : (Nat → Byte) → Nat → Byte}

/-! ### A directory record is written -/

/-- Entry `k` may differ, and nothing else. -/
def SameBut (k : Nat) (vol vol' : Volume) : Prop :=
  vol'.data = vol.data ∧ ∀ j, j ≠ k → vol'.dir j = vol.dir j

/-- A record is written with the entry that has changed. -/
theorem SameBut.store (h : SameBut k vol vol') (hk : k ≤ dpb.dirmax.toNat) :
    written dpb 1#8 (vol.store dpb) (k / dirrec) (vol'.record (k / dirrec)) = vol'.store dpb := by
  funext r
  unfold written
  by_cases hr : r = k / dirrec
  · have hdiv : k / dirrec < dirRecords dpb := Nat.lt_succ_of_le (Nat.div_le_div_right hk)
    rw [hr, Function.update_self]
    unfold Volume.store
    rw [if_pos hdiv]
  · rw [Function.update_of_ne hr, if_neg (fun h1 => absurd h1.1 (by decide))]
    unfold Volume.store
    rw [h.1]
    have hrecord : vol'.record r = vol.record r := by
      funext i
      unfold Volume.record
      rw [h.2 _ fun heq => hr (by have hi := i.isLt; unfold dirrec fcblen at *; omega)]
    rw [hrecord]

theorem SameBut.correct (h : SameBut k vol vol') {t : Tables} {r : Nat} (hr : r ≠ k / dirrec)
    (hcorrect : Correct dpb vol t r) : Correct dpb vol' t r := by
  intro hlt
  rw [hcorrect hlt]
  refine computecs_congr fun i hi => ?_
  rw [h.2 _ fun heq => hr (by unfold dirrec fcblen at *; omega)]

/-- `wrdir`, with the changed record in the buffer. -/
theorem wrdir_returns (hworks : Works bios dpb Holds) (hvalid : dpb.Valid)
    (hready : Ready dpb Holds vol s) (hchange : SameBut k vol vol') (hk : k ≤ dpb.dirmax.toNat)
    (hdrec : s.access.drec = BitVec.ofNat 16 (k / dirrec))
    (hbuff : ∀ i < 128, s.io.buff i = vol'.dir (dirrec * (k / dirrec) + i / fcblen) (i % fcblen))
    (hholds : Holds s.io.drive (address bios dpb (k / dirrec)) (vol.store dpb)) :
    (wrdir bios dpb).returns (fun _ s' =>
      s' = { s with io := s'.io, tables.check := s'.tables.check } ∧
      Ready dpb Holds vol' s' ∧ Buffered bios dpb Holds vol' k s' ∧
      ∀ r, Correct dpb vol s.tables r → Correct dpb vol' s'.tables r) s := by
  have hdirmax := hvalid.dirmax
  have hdiv : k / dirrec < dirRecords dpb := Nat.lt_succ_of_le (Nat.div_le_div_right hk)
  have hcap : k / dirrec < capacity dpb := Nat.lt_of_lt_of_le hdiv hvalid.dirRecords
  have hnat : s.access.drec.toNat = k / dirrec := by
    rw [hdrec, BitVec.toNat_ofNat]
    exact Nat.mod_eq_of_lt (by unfold dirrec; omega)
  have hrecord : (fun i : Fin 128 => s.io.buff i.val) = vol'.record (k / dirrec) :=
    funext fun i => hbuff i.val i.isLt
  have hnodata : (1#8 : Byte) = 2#8 → k / dirrec % blockRecords dpb = 0 :=
    fun h => absurd h (by decide)
  obtain ⟨-, hwritten⟩ := hworks.write 1#8 (vol'.record (k / dirrec)) hcap hnodata hholds
  rw [hchange.store hk, ← hrecord] at hwritten
  unfold wrdir
  rw [Routine.returns_bind]
  refine (Routine.returns_run checksum_true).mpr ?_
  unfold setdir setdata
  rw [Routine.returns_bind, returns_modifyIo, Routine.returns_bind]
  refine (Routine.returns_run (wrbuff_run hworks hcap hnodata (by exact hholds))).mpr ?_
  rw [returns_modifyIo]
  refine ⟨rfl, ⟨⟨_, hwritten⟩, hready.onTrack, rfl, hready.rodsk⟩, ⟨hdrec, hbuff, hwritten⟩,
    fun r hr => ?_⟩
  by_cases hrk : r = k / dirrec
  · exact correct_update hnat (computecs_congr hbuff) (Or.inr hrk)
  · exact correct_update hnat (computecs_congr hbuff) (Or.inl (hchange.correct hrk hr))

theorem put_sameBut (vol : Volume) (k : Nat) (e : Nat → Byte) : SameBut k vol (vol.put k e) :=
  ⟨rfl, fun _ hj => Function.update_of_ne hj ..⟩

/-! ### The entries that match -/

/-- A user number at the start of a file control block: an empty entry does not match. -/
def NamesUser (a : Nat → Byte) : Prop := a 0 < 32#8

theorem NamesUser.not_matches (h : NamesUser a) {e : Nat → Byte} (he : e 0 = empty) :
    matchesFcb dpb extnum a e = false := by
  have hbyte : ∀ u : Byte, u < 32#8 → ¬ u = anyChar ∧ ((u - empty) &&& 0x7F#8 == 0#8) = false := by
    decide
  obtain ⟨hany, hother⟩ := hbyte (a 0) h
  have hzero : matchesAt dpb a e 0 = false := by
    unfold matchesAt
    rw [if_neg hany, if_neg (by decide), if_neg (by decide), he]
    exact hother
  rw [Bool.eq_false_iff]
  intro hall
  have hat := List.all_eq_true.mp hall 0 (List.mem_range.mpr (by decide))
  rw [hzero] at hat
  cases hat

/-- The volume with a change made in those of its first entries that match. -/
def changed (dpb : Dpb) (a : Nat → Byte) (f : (Nat → Byte) → Nat → Byte) (vol : Volume) (n : Nat) :
    Volume :=
  { vol with
    dir := fun k =>
      if k < n ∧ matchesFcb dpb extnum a (vol.dir k) = true then f (vol.dir k) else vol.dir k }

theorem changed_zero : changed dpb a f vol 0 = vol := by
  unfold changed
  simp only [Nat.not_lt_zero, false_and, if_false]

theorem changed_of_le {j : Nat} (h : n ≤ j) : (changed dpb a f vol n).dir j = vol.dir j :=
  if_neg fun hlt => absurd hlt.1 (Nat.not_lt.mpr h)

/-- Entries that do not match make no difference. -/
theorem changed_eq {m : Nat} (hnm : n ≤ m)
    (hnone : ∀ j, n ≤ j → j < m → matchesFcb dpb extnum a (vol.dir j) = false) :
    changed dpb a f vol m = changed dpb a f vol n := by
  unfold changed
  congr 1
  funext j
  by_cases hj : j < n
  · simp only [hj, Nat.lt_of_lt_of_le hj hnm]
  · by_cases hjm : j < m
    · simp only [hj, hjm, hnone j (Nat.not_lt.mp hj) hjm, Bool.false_eq_true, and_false]
    · simp only [hj, hjm]

/-- The next entry. -/
theorem changed_succ (hmatch : matchesFcb dpb extnum a (vol.dir k) = true) :
    changed dpb a f vol (k + 1) = (changed dpb a f vol k).put k (f (vol.dir k)) := by
  unfold Volume.put changed
  congr 1
  funext j
  by_cases hjk : j = k
  · rw [hjk, Function.update_self, if_pos ⟨Nat.lt_succ_self k, hmatch⟩]
  · have hlt : j < k + 1 ↔ j < k := by omega
    rw [Function.update_of_ne hjk]
    simp only [hlt]

theorem EndsAt.changed (hname : NamesUser a) {cdrmax : Word}
    (hends : EndsAt dpb (changed dpb a f vol k) cdrmax)
    (hmatch : matchesFcb dpb extnum a (vol.dir k) = true) :
    EndsAt dpb (Bdos.changed dpb a f vol (k + 1)) cdrmax := by
  intro j hj hle
  have hold := hends j hj hle
  rw [changed_succ hmatch]
  by_cases hjk : j = k
  · rw [hjk, changed_of_le (Nat.le_refl k)] at hold
    rw [hname.not_matches hold] at hmatch
    cases hmatch
  · rw [(put_sameBut _ k _).2 j hjk]
    exact hold

/-! ### The loop -/

/-- Entries from the current one on. -/
def entriesLeft (dpb : Dpb) (s : State D) : Nat :=
  if endofdir s then 0 else dpb.dirmax.toNat + 1 - s.access.dcnt.toNat

theorem At.entriesLeft (hvalid : dpb.Valid) (hat : At bios dpb Holds vol k s) :
    entriesLeft dpb s = dpb.dirmax.toNat + 1 - k := by
  have hdirmax := hvalid.dirmax
  have hle := hat.le
  unfold Bdos.entriesLeft
  rw [hat.not_endofdir hvalid, if_neg Bool.false_ne_true, hat.dcnt, BitVec.toNat_ofNat,
    Nat.mod_eq_of_lt (by omega)]

/-- The entries before the current one are done; `Kept` is what else there is to say. -/
structure ChangedTo (dpb : Dpb) (Holds : D → Word × Word → (Nat → Option Record) → Prop)
    (vol : Volume) (a : Nat → Byte) (f : (Nat → Byte) → Nat → Byte) (Kept : Nat → State D → Prop)
    (n : Nat) (s : State D) : Prop where
  mounted : Mounted dpb Holds (changed dpb a f vol n) s
  searchl : s.access.searchl = extnum
  searcha : s.access.searcha = a
  kept : Kept n s

/-- The search has come to an entry from `n` on, or to the end. -/
def ChangeHead (bios : Bios D) (dpb : Dpb)
    (Holds : D → Word × Word → (Nat → Option Record) → Prop) (vol : Volume) (a : Nat → Byte)
    (f : (Nat → Byte) → Nat → Byte) (Kept : Nat → State D → Prop) (n : Nat) (s : State D) : Prop :=
  (∃ k, n ≤ k ∧ ChangedTo dpb Holds vol a f Kept k s ∧
    At bios dpb Holds (changed dpb a f vol k) k s ∧
    matchesFcb dpb extnum a (vol.dir k) = true ∧ s.access.dirloc = 0#8) ∨
  (ChangedTo dpb Holds vol a f Kept (dpb.dirmax.toNat + 1) s ∧ endofdir s = true)

/-- A search makes no difference to what is kept, nor do entries that do not match. -/
structure Keeps (dpb : Dpb) (vol : Volume) (a : Nat → Byte) (Kept : Nat → State D → Prop) :
    Prop where
  moved : ∀ {n s s'}, Moved s s' → Kept n s → Kept n s'
  skip : ∀ {n m s}, n ≤ m →
    (∀ j, n ≤ j → j < m → matchesFcb dpb extnum a (vol.dir j) = false) → Kept n s → Kept m s

variable {Kept : Nat → State D → Prop}

/-- What the search comes to, among the entries that are left. -/
theorem changeHead_of_search (hname : NamesUser a) (hkeeps : Keeps dpb vol a Kept)
    (hn : n ≤ dpb.dirmax.toNat + 1) (hkept : Kept n s₁)
    (hends : SearchEnds bios dpb Holds (changed dpb a f vol n) extnum a l n s₁ s) :
    ChangeHead bios dpb Holds vol a f Kept n s := by
  obtain ⟨hmoved, hmounted, hsearchl, hsearcha, hfound⟩ := hends
  -- up to `m` no entry matches
  have hdone : ∀ m, n ≤ m →
      (∀ j, n ≤ j → j < m → matchesFcb dpb extnum a (vol.dir j) = false) →
      changed dpb a f vol m = changed dpb a f vol n ∧ ChangedTo dpb Holds vol a f Kept m s := by
    intro m hnm hnone
    have hsame : changed dpb a f vol m = changed dpb a f vol n := changed_eq hnm hnone
    exact ⟨hsame, hsame ▸ hmounted, hsearchl, hsearcha,
      hkeeps.skip hnm hnone (hkeeps.moved hmoved hkept)⟩
  rcases hfound with ⟨k, hnk, hk⟩ | hnone
  · obtain ⟨hsame, hto⟩ := hdone k hnk fun j hnj hjk => by
      have hfirst := hk.first j hnj hjk
      rw [changed_of_le hnj] at hfirst
      exact hfirst
    have hmatch := hk.found
    rw [changed_of_le hnk] at hmatch
    exact Or.inl ⟨k, hnk, hto, hsame ▸ hk.current, hmatch, hk.dirloc⟩
  · refine Or.inr ⟨(hdone _ hn fun j hnj hj => ?_).2, hnone.ended⟩
    by_cases hempty : vol.dir j 0 = empty
    · exact hname.not_matches hempty
    · have hleft := hnone.none j hnj (Nat.lt_succ_iff.mp hj)
      rw [changed_of_le hnj] at hleft
      exact hleft (Or.inr hempty)

theorem ChangeHead.entriesLeft (hvalid : dpb.Valid)
    (h : ChangeHead bios dpb Holds vol a f Kept n s) :
    entriesLeft dpb s ≤ dpb.dirmax.toNat + 1 - n := by
  rcases h with ⟨k, hnk, -, hat, -⟩ | ⟨-, hend⟩
  · rw [hat.entriesLeft hvalid]
    omega
  · unfold Bdos.entriesLeft
    rw [if_pos hend]
    exact Nat.zero_le _

theorem ChangeHead.weaken (h : ChangeHead bios dpb Holds vol a f Kept n s) :
    ChangeHead bios dpb Holds vol a f Kept 0 s := by
  rcases h with ⟨k, -, hk⟩ | hend
  · exact Or.inl ⟨k, Nat.zero_le k, hk⟩
  · exact Or.inr hend

/-- The current entry is done, and the search goes on behind it. -/
theorem searchn_onward (hworks : Works bios dpb Holds) (hvalid : dpb.Valid) (hname : NamesUser a)
    (hkeeps : Keeps dpb vol a Kept) (hto : ChangedTo dpb Holds vol a f Kept (k + 1) s)
    (hat : At bios dpb Holds (changed dpb a f vol (k + 1)) k s)
    (hdirloc : s.access.dirloc = 0#8) :
    (searchn bios dpb).returns (fun _ s' => ChangeHead bios dpb Holds vol a f Kept 0 s' ∧
      entriesLeft dpb s' < dpb.dirmax.toNat + 1 - k) s := by
  have hk := hat.le
  have hpass : Passed bios dpb Holds (changed dpb a f vol (k + 1)) extnum a 0#8 (k + 1) s (k + 1)
      s :=
    ⟨Nat.succ_le_succ hk, rfl, hto.mounted, hat.before_next, hto.searchl, hto.searcha, hdirloc,
      fun i hge hi => absurd hge (Nat.not_le.mpr hi)⟩
  refine Routine.returns_mono (searchn_returns hworks hvalid (by decide) (Or.inr rfl) hpass)
    fun _ s' hends => ?_
  have hnext := changeHead_of_search hname hkeeps (Nat.succ_le_succ hk) hto.kept hends
  have hleft := hnext.entriesLeft hvalid
  refine ⟨hnext.weaken, ?_⟩
  omega

/-- The loop returns when its passes do. -/
theorem changes_return (hvalid : dpb.Valid) {pass : Code D (Option Unit)}
    (hpass : ∀ s, ChangeHead bios dpb Holds vol a f Kept 0 s → pass.returns (fun o s' => o.elim
      (ChangeHead bios dpb Holds vol a f Kept 0 s' ∧ entriesLeft dpb s' < entriesLeft dpb s)
      fun _ => ChangedTo dpb Holds vol a f Kept (dpb.dirmax.toNat + 1) s') s)
    (hhead : ChangeHead bios dpb Holds vol a f Kept 0 s) :
    (Routine.loop pass allPasses).returns
      (fun _ s' => ChangedTo dpb Holds vol a f Kept (dpb.dirmax.toNat + 1) s') s := by
  have hdirmax := hvalid.dirmax
  have hleft := hhead.entriesLeft hvalid
  refine Routine.returns_loop (fun s' => ChangeHead bios dpb Holds vol a f Kept 0 s')
    (entriesLeft dpb) hpass hhead ?_
  unfold allPasses
  omega

end Changing

end Bdos
end Rc700
