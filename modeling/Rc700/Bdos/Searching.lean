import Rc700.Bdos.Volume

/-!
# The file system: searching

`search` goes through the directory up to its logical end, which it takes from `cdrmax`.  On a
mounted drive it stops at the first entry that matches, and there is none that it misses
(`search_finds`).
-/

namespace Rc700
namespace Bdos

open Library

section Searching

variable {D : Type} {bios : Bios D} {dpb : Dpb}
  {Holds : D → Word × Word → (Nat → Option Record) → Prop} {vol : Volume} {s s₀ : State D}
  {k c : Nat} {a : Nat → Byte} {l : Byte}

/-- Only the first bytes of an entry are compared. -/
theorem matchesFcb_congr {e e' : Nat → Byte} (h : ∀ i < c, e i = e' i) :
    matchesFcb dpb c a e = matchesFcb dpb c a e' := by
  unfold matchesFcb
  rw [Bool.eq_iff_iff, List.all_eq_true, List.all_eq_true]
  refine forall₂_congr fun i hi => ?_
  unfold matchesAt
  rw [h i (List.mem_range.mp hi)]

/-- What a search leaves as it is. -/
def Moved (s s' : State D) : Prop :=
  s' = { s with io := s'.io, access := s'.access, lret := s'.lret }

theorem Moved.trans {s s' s'' : State D} (h : Moved s s') (h' : Moved s' s'') : Moved s s'' := by
  unfold Moved at *
  rw [h'.trans (by rw [h])]

theorem Moved.tables {s s' : State D} (h : Moved s s') : s'.tables = s.tables := by
  rw [h]

/-- No entry from `k₀` up to `k` matches; `l` is in `dirloc`. -/
structure Passed (bios : Bios D) (dpb : Dpb)
    (Holds : D → Word × Word → (Nat → Option Record) → Prop) (vol : Volume) (c : Nat)
    (a : Nat → Byte) (l : Byte) (k₀ : Nat) (s₀ : State D) (k : Nat) (s : State D) : Prop where
  le : k ≤ dpb.dirmax.toNat + 1
  moved : Moved s₀ s
  mounted : Mounted dpb Holds vol s
  before : Before bios dpb Holds vol k s
  searchl : s.access.searchl = c
  searcha : s.access.searcha = a
  dirloc : s.access.dirloc = l
  none : ∀ i, k₀ ≤ i → i < k → matchesFcb dpb c a (vol.dir i) = false

/-- The search from entry `k₀` on has found entry `k`. -/
structure Found (bios : Bios D) (dpb : Dpb)
    (Holds : D → Word × Word → (Nat → Option Record) → Prop) (vol : Volume) (c : Nat)
    (a : Nat → Byte) (k₀ k : Nat) (s : State D) : Prop where
  current : At bios dpb Holds vol k s
  found : matchesFcb dpb c a (vol.dir k) = true
  first : ∀ i, k₀ ≤ i → i < k → matchesFcb dpb c a (vol.dir i) = false
  lret : s.lret.toNat = k % dirrec
  dirloc : s.access.dirloc = 0#8

/-- The search from entry `k₀` on has found nothing: no entry that is in use matches, nor an
empty one if these are looked for. -/
structure NotFound (dpb : Dpb) (vol : Volume) (c : Nat) (a : Nat → Byte) (l : Byte)
    (k₀ : Nat) (s : State D) : Prop where
  none : ∀ k, k₀ ≤ k → k ≤ dpb.dirmax.toNat → a 0 = empty ∨ vol.dir k 0 ≠ empty →
    matchesFcb dpb c a (vol.dir k) = false
  ended : endofdir s = true
  lret : s.lret = 255#8
  dirloc : s.access.dirloc = l

/-- What `search` and `searchn` come to. -/
def SearchEnds (bios : Bios D) (dpb : Dpb)
    (Holds : D → Word × Word → (Nat → Option Record) → Prop) (vol : Volume) (c : Nat)
    (a : Nat → Byte) (l : Byte) (k₀ : Nat) (s₀ s : State D) : Prop :=
  Moved s₀ s ∧ Mounted dpb Holds vol s ∧ s.access.searchl = c ∧ s.access.searcha = a ∧
    ((∃ k, k₀ ≤ k ∧ Found bios dpb Holds vol c a k₀ k s) ∨ NotFound dpb vol c a l k₀ s)

theorem toNat_lret (k : Nat) :
    ((BitVec.ofNat 16 k).setWidth 8 &&& 0b11#8).toNat = k % dirrec := by
  rw [BitVec.toNat_and, BitVec.toNat_setWidth, BitVec.toNat_ofNat]
  have hand : k % 2 ^ 16 % 2 ^ 8 &&& (0b11#8).toNat = k % 2 ^ 16 % 2 ^ 8 % 4 :=
    Nat.and_two_pow_sub_one_eq_mod _ 2
  rw [hand]
  unfold dirrec
  omega

/-- `search$fin` -/
theorem searchfin_returns {k₀ : Nat} {s : State D} (hmoved : Moved s₀ s)
    (hmounted : Mounted dpb Holds vol s) (hsearchl : s.access.searchl = c)
    (hsearcha : s.access.searcha = a) (hdirloc : s.access.dirloc = l)
    (hnone : ∀ k, k₀ ≤ k → k ≤ dpb.dirmax.toNat → a 0 = empty ∨ vol.dir k 0 ≠ empty →
      matchesFcb dpb c a (vol.dir k) = false) :
    (searchfin : Code D Unit).returns
      (fun _ s' => SearchEnds bios dpb Holds vol c a l k₀ s₀ s') s := by
  unfold searchfin setenddir
  rw [Routine.returns_bind, returns_modifyAccess, Routine.returns_modify]
  exact ⟨hmoved.trans rfl,
    ⟨⟨hmounted.holds, hmounted.onTrack, hmounted.dma, hmounted.rodsk⟩, hmounted.checked,
      hmounted.ends⟩,
    hsearchl, hsearcha, Or.inr ⟨hnone, rfl, rfl, hdirloc⟩⟩

/-- One pass: the end, a match, or an entry more that does not match. -/
theorem searchnPass_returns (hworks : Works bios dpb Holds) (hvalid : dpb.Valid)
    (hlen : c ≤ fcblen) (hl : l = 0xFF#8 ∨ l = 0#8) (hle : k₀ ≤ k)
    (hpass : Passed bios dpb Holds vol c a l k₀ s₀ k s) :
    (searchnPass bios dpb).returns (fun o s' => o.elim
      (k ≤ dpb.dirmax.toNat ∧ Passed bios dpb Holds vol c a l k₀ s₀ (k + 1) s')
      fun _ => SearchEnds bios dpb Holds vol c a l k₀ s₀ s') s := by
  have hdirmax := hvalid.dirmax
  unfold searchnPass
  rw [Routine.returns_bind]
  by_cases hk : k ≤ dpb.dirmax.toNat
  · refine Routine.returns_mono (readdir_returns hworks hvalid hpass.mounted.toReady hpass.before hk
      (Or.inr fun r hr => hpass.mounted.checked r hr))
      fun _ s' ⟨hstep, hready, hat, hsame, _⟩ => ?_
    have htables : s'.tables = s.tables := hsame rfl
    have hmoved : Moved s₀ s' := hpass.moved.trans (by
      unfold Moved
      rw [hstep] at htables ⊢
      simp only at htables ⊢
      rw [htables])
    have hmounted : Mounted dpb Holds vol s' :=
      ⟨hready, htables ▸ hpass.mounted.checked, htables ▸ hpass.mounted.ends⟩
    have hsearchl : s'.access.searchl = c := by
      rw [hstep]
      exact hpass.searchl
    have hsearcha : s'.access.searcha = a := by
      rw [hstep]
      exact hpass.searcha
    have hdirloc : s'.access.dirloc = l := by
      rw [hstep]
      exact hpass.dirloc
    have hentry : matchesFcb dpb c a s'.entry = matchesFcb dpb c a (vol.dir k) :=
      matchesFcb_congr fun i hi => hat.entry (Nat.lt_of_lt_of_le hi hlen)
    rw [Routine.returns_bind, Routine.returns_gets]
    simp only [id, hat.not_endofdir hvalid, Bool.false_eq_true, if_false, hsearchl, hsearcha,
      hentry]
    rw [Routine.returns_ite]
    refine ⟨fun ⟨ha, hcarry⟩ => ?_, fun _ => ?_⟩
    · -- behind the logical end there are empty entries only
      have hge : s'.tables.cdrmax.toNat ≤ k := by
        have hnlt : ¬ s'.access.dcnt < s'.tables.cdrmax := fun h => hcarry (decide_eq_true h)
        have hle := BitVec.not_lt.mp hnlt
        rw [BitVec.le_def, hat.dcnt, BitVec.toNat_ofNat, Nat.mod_eq_of_lt (by omega)] at hle
        exact hle
      rw [Routine.returns_bind]
      refine searchfin_returns hmoved hmounted hsearchl hsearcha hdirloc fun j hge' hj hsought => ?_
      by_cases hjk : j < k
      · exact hpass.none j hge' hjk
      · exact absurd (hmounted.ends j (by omega) hj) (hsought.resolve_left ha)
    · rw [Routine.returns_ite]
      refine ⟨fun hmatch => ?_, fun hmatch => ?_⟩
      · unfold endsearch
        rw [Routine.returns_bind, Routine.returns_modify]
        refine ⟨hmoved.trans rfl,
          ⟨⟨hmounted.holds, hmounted.onTrack, hmounted.dma, hmounted.rodsk⟩, hmounted.checked,
            hmounted.ends⟩,
          hsearchl, hsearcha, Or.inl ⟨k, hle,
            ⟨⟨hat.drec, hat.buff, hat.holds⟩, hat.le, hat.dcnt, hat.dptr⟩, hmatch,
            hpass.none, ?_, ?_⟩⟩
        · show (s'.access.dcnt.setWidth 8 &&& 0b11#8).toNat = _
          rw [hat.dcnt]
          exact toNat_lret k
        · show (if s'.access.dirloc.msb then 0#8 else s'.access.dirloc) = 0#8
          rw [hdirloc]
          rcases hl with rfl | rfl
          · rfl
          · rfl
      · refine ⟨hk, Nat.succ_le_succ hk, hmoved, hmounted, hat.before_next, hsearchl, hsearcha,
          hdirloc, fun i hge hi => ?_⟩
        rcases Nat.lt_succ_iff_lt_or_eq.mp hi with hlt | rfl
        · exact hpass.none i hge hlt
        · exact Bool.eq_false_iff.mpr hmatch
  · have hend := hpass.le
    refine (Routine.returns_run (readdir_end hvalid hpass.before (by omega) (by omega))).mpr ?_
    rw [Routine.returns_bind, Routine.returns_gets]
    show (searchfin >>= fun _ => pure (some ())).returns _ _
    rw [Routine.returns_bind]
    exact searchfin_returns (hpass.moved.trans rfl)
      ⟨⟨hpass.mounted.holds, hpass.mounted.onTrack, hpass.mounted.dma, hpass.mounted.rodsk⟩,
        hpass.mounted.checked, hpass.mounted.ends⟩
      hpass.searchl hpass.searcha hpass.dirloc fun j hge hj _ => hpass.none j hge (by omega)

/-- On from an entry. -/
theorem searchn_returns (hworks : Works bios dpb Holds) (hvalid : dpb.Valid) (hlen : c ≤ fcblen)
    (hl : l = 0xFF#8 ∨ l = 0#8) (hpass : Passed bios dpb Holds vol c a l k s₀ k s) :
    (searchn bios dpb).returns (fun _ s' => SearchEnds bios dpb Holds vol c a l k s₀ s') s := by
  have hdirmax := hvalid.dirmax
  unfold searchn
  refine Routine.returns_loop
    (fun s' => ∃ j, k ≤ j ∧ Passed bios dpb Holds vol c a l k s₀ j s')
    (fun s' => dpb.dirmax.toNat + 1 - (s'.access.dcnt + 1#16).toNat) ?_ ⟨k, le_rfl, hpass⟩ ?_
  · rintro s₁ ⟨j, hkj, hpass⟩
    refine Routine.returns_mono (searchnPass_returns hworks hvalid hlen hl hkj hpass)
      fun o s₂ ho => ?_
    cases o with
    | none =>
        obtain ⟨hj, hpass'⟩ := ho
        refine ⟨⟨j + 1, by omega, hpass'⟩, ?_⟩
        rw [hpass.before.toNat_next hvalid hpass.le, hpass'.before.toNat_next hvalid hpass'.le]
        omega
    | some _ => exact ho
  · unfold allPasses
    omega

theorem search_returns (hworks : Works bios dpb Holds) (hvalid : dpb.Valid)
    (hmounted : Mounted dpb Holds vol s) (hlen : c ≤ fcblen) :
    (search bios dpb c a).returns
      (fun _ s' => SearchEnds bios dpb Holds vol c a 0xFF#8 0 s s') s := by
  obtain ⟨place, hplace⟩ := hmounted.holds
  obtain ⟨place', hhome⟩ := hworks.home hplace
  have hwrap : enddir + 1#16 = BitVec.ofNat 16 0 := by decide
  unfold search setenddir home
  simp only [Routine.returns_bind, returns_modifyAccess, returns_modifyIo]
  exact searchn_returns hworks hvalid hlen (Or.inl rfl)
    ⟨Nat.zero_le _, rfl,
      ⟨⟨⟨_, hhome⟩, onTrack_home _, hmounted.dma, hmounted.rodsk⟩, hmounted.checked,
        hmounted.ends⟩,
      ⟨hwrap, fun h => absurd rfl h⟩, rfl, rfl, rfl, fun i _ hi => absurd hi (Nat.not_lt_zero i)⟩

/-- **A search** on a mounted drive returns: it is at the first entry that matches, or there is
none.  Nothing but the variables of the search is changed. -/
theorem search_finds (hworks : Works bios dpb Holds) (hvalid : dpb.Valid)
    (hmounted : Mounted dpb Holds vol s) (hlen : c ≤ fcblen) :
    ∃ s', search bios dpb c a s = .returned () s' ∧ Moved s s' ∧ Mounted dpb Holds vol s' ∧
      ((∃ k, Found bios dpb Holds vol c a 0 k s') ∨ NotFound dpb vol c a 0xFF#8 0 s') := by
  obtain ⟨_, s', hrun, hmoved, hmounted', _, _, hends⟩ :=
    Routine.returns_iff.mp (search_returns hworks hvalid hmounted hlen)
  exact ⟨s', hrun, hmoved, hmounted', hends.imp_left fun ⟨k, _, hk⟩ => ⟨k, hk⟩⟩

end Searching

theorem search_finds_oneFile : ∃ s',
    search arrayBios (dpbOf 0) namlen (fun _ => 0#8) (ready (dpbOf 0) oneFile) =
      .returned () s' ∧
    Moved (ready (dpbOf 0) oneFile) s' ∧
    Mounted (dpbOf 0) (OnArray (dpbOf 0)) ⟨oneFile, fun _ => none⟩ s' ∧
    ((∃ k, Found arrayBios (dpbOf 0) (OnArray (dpbOf 0)) ⟨oneFile, fun _ => none⟩ namlen
        (fun _ => 0#8) 0 k s') ∨
      NotFound (dpbOf 0) ⟨oneFile, fun _ => none⟩ namlen (fun _ => 0#8) 0xFF#8 0 s') :=
  search_finds (array_works (dpbOf_valid 0)) (dpbOf_valid 0)
    (ready_mounted (dpbOf_valid 0) oneFile) (by decide)

end Bdos
end Rc700
