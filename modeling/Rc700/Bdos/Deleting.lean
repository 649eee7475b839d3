import Rc700.Bdos.Changing
import Rc700.Bdos.Login

/-!
# The file system: deleting

`delete` marks every entry that matches as empty, resets the blocks of the entry in the allocation
vector and writes the directory record back, and goes on with the search.  What it comes to is
`delete_frees`: the drive holds the volume without the entries that matched, and their blocks are
free, unless the search went past a read-only entry.
-/

namespace Rc700
namespace Bdos

open Library

section Deleting

variable {D : Type} {bios : Bios D} {dpb : Dpb}
  {Holds : D → Word × Word → (Nat → Option Record) → Prop} {vol : Volume} {s s₀ : State D}
  {k n : Nat} {a : Nat → Byte}

/-! ### The entries that go -/

/-- An entry that is gone. -/
def gone (e : Nat → Byte) : Nat → Byte := Function.update e 0 empty

/-- The volume without those of its first entries that match. -/
def deleted (dpb : Dpb) (a : Nat → Byte) (vol : Volume) (n : Nat) : Volume :=
  changed dpb a gone vol n

/-- The buffer with the entry marked as empty. -/
theorem deleted_buff (hat : At bios dpb Holds (deleted dpb a vol k) k s)
    (hmatch : matchesFcb dpb extnum a (vol.dir k) = true) {i : Nat} (hi : i < 128) :
    Function.update s.io.buff (s.access.dptr.toNat + 0) empty i =
      (deleted dpb a vol (k + 1)).dir (dirrec * (k / dirrec) + i / fcblen) (i % fcblen) := by
  have hdptr := hat.dptr
  have hnext : deleted dpb a vol (k + 1) = (deleted dpb a vol k).put k (gone (vol.dir k)) :=
    changed_succ hmatch
  have hput : ((deleted dpb a vol k).put k (gone (vol.dir k))).dir k = gone (vol.dir k) :=
    Function.update_self ..
  rw [hnext]
  by_cases hentry : dirrec * (k / dirrec) + i / fcblen = k
  · rw [hentry, hput]
    unfold gone
    by_cases hplace : i = s.access.dptr.toNat + 0
    · have hzero : i % fcblen = 0 := by
        unfold fcblen at *
        omega
      rw [hzero, Function.update_self, hplace, Function.update_self]
    · have hne : i % fcblen ≠ 0 := by
        unfold dirrec fcblen at *
        omega
      have hcur : (deleted dpb a vol k).dir k = vol.dir k := changed_of_le (Nat.le_refl k)
      rw [Function.update_of_ne hplace, Function.update_of_ne hne, hat.buff i hi, hentry, hcur]
  · have hplace : i ≠ s.access.dptr.toNat + 0 := by
      unfold dirrec fcblen at *
      omega
    rw [Function.update_of_ne hplace, hat.buff i hi, (put_sameBut _ k _).2 _ hentry]

/-! ### The blocks that are freed -/

/-- The loop of `scandm`, with the bits reset. -/
theorem allocated_unscan (maxall : Word) (place : Nat → Word) (is : List Nat) (alloc : Nat → Byte)
    {b : Word} (hb : b.toNat ≤ maxall.toNat) :
    allocated (is.foldl (fun alloc i =>
        if place i = 0#16 ∨ maxall < place i then alloc else setallocbit alloc (place i) 0#8)
      alloc) b = true ↔
    allocated alloc b = true ∧ ¬ (b ≠ 0#16 ∧ ∃ i ∈ is, place i = b) := by
  induction is generalizing alloc with
  | nil => simp
  | cons i is ih =>
      rw [List.foldl_cons, ih]
      have hstep : allocated
          (if place i = 0#16 ∨ maxall < place i then alloc else setallocbit alloc (place i) 0#8)
          b = true ↔ allocated alloc b = true ∧ ¬ (b ≠ 0#16 ∧ place i = b) := by
        split
        · next hout =>
            refine ⟨fun h => ⟨h, fun ⟨h0, hb'⟩ => ?_⟩, fun h => h.1⟩
            rcases hout with hzero | hlt
            · exact h0 (hb' ▸ hzero)
            · rw [hb'] at hlt
              exact absurd hb (Nat.not_le.mpr hlt)
        · next hin =>
            have hreset := allocated_setallocbit alloc (place i) b false
            have hzero : (BitVec.ofBool false).setWidth 8 = 0#8 := by decide
            rw [hzero] at hreset
            rw [hreset]
            by_cases hbi : b = place i
            · have h0 : b ≠ 0#16 := fun h => hin (Or.inl (hbi ▸ h))
              simp [hbi, hbi ▸ h0]
            · simp [hbi, Ne.symm hbi]
      rw [hstep]
      simp only [List.mem_cons, exists_eq_or_imp]
      rw [and_assoc, ← not_or, ← and_or_left]

/-- A block of one of the first entries that match. -/
def Freed (dpb : Dpb) (a : Nat → Byte) (vol : Volume) (n : Nat) (b : Word) : Prop :=
  ∃ k < n, matchesFcb dpb extnum a (vol.dir k) = true ∧ Names dpb (vol.dir k) b

/-- The blocks of the first entries that match are free now. -/
def Frees (dpb : Dpb) (a : Nat → Byte) (vol : Volume) (n : Nat) (alloc alloc' : Nat → Byte) :
    Prop :=
  ∀ b : Word, b.toNat ≤ dpb.maxall.toNat →
    (allocated alloc' b = true ↔ allocated alloc b = true ∧ ¬ Freed dpb a vol n b)

theorem frees_zero (alloc : Nat → Byte) : Frees dpb a vol 0 alloc alloc := by
  intro b _
  have hnone : ¬ Freed dpb a vol 0 b := by
    rintro ⟨k, hk, -⟩
    exact absurd hk (Nat.not_lt_zero k)
  exact (and_iff_left hnone).symm

theorem Freed.succ_iff {b : Word} (hmatch : matchesFcb dpb extnum a (vol.dir k) = true) :
    Freed dpb a vol (k + 1) b ↔ Freed dpb a vol k b ∨ Names dpb (vol.dir k) b := by
  unfold Freed
  rw [Nat.exists_lt_succ_right]
  simp only [hmatch, true_and]

theorem Freed.mono {n m : Nat} {b : Word} (hnm : n ≤ m)
    (hnone : ∀ j, n ≤ j → j < m → matchesFcb dpb extnum a (vol.dir j) = false) :
    Freed dpb a vol m b ↔ Freed dpb a vol n b := by
  refine ⟨fun ⟨k, hk, hmatch, hnames⟩ => ⟨k, ?_, hmatch, hnames⟩,
    fun ⟨k, hk, h⟩ => ⟨k, Nat.lt_of_lt_of_le hk hnm, h⟩⟩
  by_contra hge
  rw [hnone k (Nat.not_lt.mp hge) hk] at hmatch
  cases hmatch

/-- The blocks of one entry more. -/
theorem frees_next {alloc alloc' : Nat → Byte} (hfrees : Frees dpb a vol k alloc alloc')
    (hmatch : matchesFcb dpb extnum a (vol.dir k) = true) (hused : vol.dir k 0 ≠ empty)
    {e : Nat → Byte} (he : ∀ i < fcblen, i ≠ 0 → e i = vol.dir k i) :
    Frees dpb a vol (k + 1) alloc
      ((List.range (mapSize dpb.single)).foldl (fun alloc i =>
          if mapAt dpb.single e i = 0#16 ∨ dpb.maxall < mapAt dpb.single e i then alloc
          else setallocbit alloc (mapAt dpb.single e i) 0#8) alloc') := by
  have hmap : ∀ i < mapSize dpb.single,
      mapAt dpb.single e i = mapAt dpb.single (vol.dir k) i := by
    intro i hi
    -- the disk map is behind the user number
    have hcongr : mapAt dpb.single (Function.update e 0 (vol.dir k 0)) i =
        mapAt dpb.single (vol.dir k) i := by
      refine mapAt_congr (fun j hj => ?_) hi
      by_cases h0 : j = 0
      · rw [h0, Function.update_self]
      · rw [Function.update_of_ne h0]
        exact he j hj h0
    rw [← hcongr]
    unfold mapAt dskmap
    split
    · rw [Function.update_of_ne (by omega)]
    · rw [Function.update_of_ne (by omega), Function.update_of_ne (by omega)]
  intro b hb
  rw [allocated_unscan dpb.maxall (mapAt dpb.single e) _ _ hb, hfrees b hb,
    Freed.succ_iff hmatch, not_or, and_assoc]
  refine and_congr_right fun _ => and_congr_right fun _ => not_congr
    ⟨fun ⟨h0, i, hi, hplace⟩ => ⟨hused, h0, i, List.mem_range.mp hi, ?_⟩,
      fun ⟨_, h0, i, hi, hplace⟩ => ⟨h0, i, List.mem_range.mpr hi, ?_⟩⟩
  · rw [← hmap i (List.mem_range.mp hi)]
    exact hplace
  · rw [hmap i hi]
    exact hplace

/-! ### The loop -/

/-- What the loop keeps: the blocks are freed, and nothing is changed but the tables. -/
def DeleteKeeps (dpb : Dpb) (vol : Volume) (a : Nat → Byte) (s₀ : State D) (n : Nat) (s : State D) :
    Prop :=
  Frees dpb a vol n s₀.tables.alloc s.tables.alloc ∧ s.fcb = s₀.fcb ∧ s.data = s₀.data

theorem deleteKeeps (s₀ : State D) : Keeps dpb vol a (DeleteKeeps dpb vol a s₀) where
  moved hmoved hkept := by
    obtain ⟨hfrees, hfcb, hdata⟩ := hkept
    refine ⟨hmoved.tables ▸ hfrees, ?_, ?_⟩
    · rw [hmoved]
      exact hfcb
    · rw [hmoved]
      exact hdata
  skip hnm hnone hkept := by
    refine ⟨fun b hb => ?_, hkept.2⟩
    rw [hkept.1 b hb, Freed.mono hnm hnone]

/-- One pass: an entry goes, or it is the end. -/
theorem deletePass_returns (hworks : Works bios dpb Holds) (hvalid : dpb.Valid)
    (hname : NamesUser a)
    (hro : ∀ k ≤ dpb.dirmax.toNat, matchesFcb dpb extnum a (vol.dir k) = true →
      (vol.dir k rofile).msb = false)
    (hhead : ChangeHead bios dpb Holds vol a gone (DeleteKeeps dpb vol a s₀) 0 s) :
    (deletePass bios dpb).returns (fun o s' => o.elim
      (ChangeHead bios dpb Holds vol a gone (DeleteKeeps dpb vol a s₀) 0 s' ∧
        entriesLeft dpb s' < entriesLeft dpb s)
      fun _ => ChangedTo dpb Holds vol a gone (DeleteKeeps dpb vol a s₀) (dpb.dirmax.toNat + 1) s')
      s := by
  unfold deletePass
  rw [Routine.returns_bind, Routine.returns_gets]
  rcases hhead with ⟨k, -, hto, hat, hmatch, hdirloc⟩ | ⟨hto, hend⟩
  · have hk := hat.le
    have hcur : (changed dpb a gone vol k).dir k = vol.dir k := changed_of_le (Nat.le_refl k)
    have hentry : ∀ i < fcblen, s.entry i = vol.dir k i := fun i hi => by
      rw [hat.entry hi, hcur]
    have hused : vol.dir k 0 ≠ empty := fun hempty => by
      rw [hname.not_matches hempty] at hmatch
      cases hmatch
    rw [hat.not_endofdir hvalid, if_neg Bool.false_ne_true]
    -- the entry is not read-only
    have hwritable : (s.entry rofile).msb = false := by
      rw [hentry _ (by decide)]
      exact hro k hk hmatch
    unfold checkrodir checkrofile putEntry scandm
    simp only [Routine.returns_bind, Routine.returns_gets, hwritable, Bool.false_eq_true, if_false,
      Routine.returns_pure, Routine.returns_modify]
    have hfrees := frees_next hto.kept.1 hmatch hused
      (e := fun i => Function.update s.io.buff (s.access.dptr.toNat + 0) empty
        (s.access.dptr.toNat + i)) fun i hi h0 => by
          rw [Function.update_of_ne (by omega)]
          exact hentry i hi
    have hsame : SameBut k (changed dpb a gone vol k) (changed dpb a gone vol (k + 1)) := by
      rw [changed_succ hmatch]
      exact put_sameBut ..
    refine Routine.returns_mono (wrdir_returns hworks hvalid
      ⟨hto.mounted.holds, hto.mounted.onTrack, hto.mounted.dma, hto.mounted.rodsk⟩
      hsame hk hat.drec (fun i hi => deleted_buff hat hmatch hi) hat.holds)
      fun _ s₃ hwritten => ?_
    obtain ⟨heq, hready, hbuffered, hcorrect⟩ := hwritten
    have hat₃ : At bios dpb Holds (changed dpb a gone vol (k + 1)) k s₃ :=
      ⟨hbuffered, hk, by rw [heq]; exact hat.dcnt, by rw [heq]; exact hat.dptr⟩
    have hto₃ : ChangedTo dpb Holds vol a gone (DeleteKeeps dpb vol a s₀) (k + 1) s₃ := by
      refine ⟨⟨hready, fun r hr => hcorrect r (hto.mounted.checked r hr), ?_⟩, ?_, ?_, ?_, ?_⟩
      · rw [heq]
        exact hto.mounted.ends.changed hname hmatch
      · rw [heq]
        exact hto.searchl
      · rw [heq]
        exact hto.searcha
      · rw [heq]
        exact hfrees
      · rw [heq]
        exact hto.kept.2
    have hdirloc₃ : s₃.access.dirloc = 0#8 := by
      rw [heq]
      exact hdirloc
    rw [Routine.returns_bind]
    refine Routine.returns_mono
      (searchn_onward hworks hvalid hname (deleteKeeps s₀) hto₃ hat₃ hdirloc₃) fun _ s₄ hnext => ?_
    rw [hat.entriesLeft hvalid]
    exact hnext
  · rw [if_pos hend]
    exact hto

theorem delete_returns (hworks : Works bios dpb Holds) (hvalid : dpb.Valid)
    (hmounted : Mounted dpb Holds vol s) (hname : NamesUser s.fcb)
    (hro : ∀ k ≤ dpb.dirmax.toNat, matchesFcb dpb extnum s.fcb (vol.dir k) = true →
      (vol.dir k rofile).msb = false) :
    (delete bios dpb).returns (fun _ s' =>
      ChangedTo dpb Holds vol s.fcb gone (DeleteKeeps dpb vol s.fcb s) (dpb.dirmax.toNat + 1) s')
      s := by
  unfold delete checkwrite
  simp only [Routine.returns_bind, Routine.returns_gets, hmounted.rodsk, Bool.false_eq_true,
    if_false, Routine.returns_pure]
  refine Routine.returns_mono (search_returns hworks hvalid hmounted (by decide))
    fun _ s₁ hends => ?_
  have hkept : DeleteKeeps dpb vol s.fcb s 0 s := ⟨frees_zero s.tables.alloc, rfl, rfl⟩
  have hzero : changed dpb s.fcb gone vol 0 = vol := changed_zero
  have hhead := changeHead_of_search hname (deleteKeeps s) (Nat.zero_le _) hkept
    (hzero.symm ▸ hends)
  exact changes_return hvalid (fun s' hs' => deletePass_returns hworks hvalid hname hro hs') hhead

/-- **A file is deleted.**  `delete` returns, unless an entry of the file is read-only: the drive
holds the volume with every entry that matches marked as empty, and with all other entries as they
were; and the blocks of those entries, and no others, are no longer allocated. -/
theorem delete_frees (hworks : Works bios dpb Holds) (hvalid : dpb.Valid)
    (hmounted : Mounted dpb Holds vol s) (hname : NamesUser s.fcb)
    (hro : ∀ k ≤ dpb.dirmax.toNat, matchesFcb dpb extnum s.fcb (vol.dir k) = true →
      (vol.dir k rofile).msb = false) :
    ∃ s', delete bios dpb s = .returned () s' ∧
      Mounted dpb Holds (deleted dpb s.fcb vol (dpb.dirmax.toNat + 1)) s' ∧
      Frees dpb s.fcb vol (dpb.dirmax.toNat + 1) s.tables.alloc s'.tables.alloc ∧
      s'.fcb = s.fcb ∧ s'.data = s.data := by
  obtain ⟨_, s', hrun, hto⟩ :=
    Routine.returns_iff.mp (delete_returns hworks hvalid hmounted hname hro)
  exact ⟨s', hrun, hto.mounted, hto.kept⟩

end Deleting

theorem delete_frees_oneFile : ∃ s',
    delete arrayBios (dpbOf 0) (ready (dpbOf 0) oneFile) = .returned () s' ∧
    Mounted (dpbOf 0) (OnArray (dpbOf 0))
      (deleted (dpbOf 0) (fun _ => 0#8) ⟨oneFile, fun _ => none⟩ 64) s' ∧
    Frees (dpbOf 0) (fun _ => 0#8) ⟨oneFile, fun _ => none⟩ 64
      (ready (dpbOf 0) oneFile).tables.alloc s'.tables.alloc ∧
    s'.fcb = (ready (dpbOf 0) oneFile).fcb ∧ s'.data = (ready (dpbOf 0) oneFile).data :=
  delete_frees (array_works (dpbOf_valid 0)) (dpbOf_valid 0)
    (ready_mounted (dpbOf_valid 0) oneFile) (by
      show (0#8 : Byte) < 32#8
      decide) fun k _ hmatch => by
      -- the only file is not read-only, and an empty entry does not match
      by_cases hk : k = 0
      · rw [hk]
        decide
      · have hempty : oneFile k 0 = empty := if_neg hk
        have hname : NamesUser (ready (dpbOf 0) oneFile).fcb := by
          show (0#8 : Byte) < 32#8
          decide
        have hnot : matchesFcb (dpbOf 0) extnum (ready (dpbOf 0) oneFile).fcb (oneFile k) = false :=
          hname.not_matches hempty
        exact absurd hmatch (Bool.eq_false_iff.mp hnot)

end Bdos
end Rc700
