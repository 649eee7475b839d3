import Rc700.Bdos.Volume

/-!
# The file system: a drive is logged in

`initialize` reads the directory from end to end.  It comes out with the checksums of the
directory records, with `cdrmax` behind the last entry, and with an allocation vector that has the
blocks of the directory and those that an entry names, and no others (`drive_logged_in`).
-/

namespace Rc700
namespace Bdos

open Library

section Login

variable {D : Type} {bios : Bios D} {dpb : Dpb}
  {Holds : D → Word × Word → (Nat → Option Record) → Prop} {vol : Volume} {s : State D} {k : Nat}

/-- An entry names a block. -/
def Names (dpb : Dpb) (e : Nat → Byte) (b : Word) : Prop :=
  e 0 ≠ empty ∧ b ≠ 0#16 ∧ ∃ i < mapSize dpb.single, mapAt dpb.single e i = b

/-- The allocation vector has the blocks of the directory, and those of the first entries. -/
def Exact (dpb : Dpb) (vol : Volume) (n : Nat) (alloc : Nat → Byte) : Prop :=
  ∀ b : Word, b.toNat ≤ dpb.maxall.toNat →
    (allocated alloc b = true ↔
      allocated (reserved dpb fun _ => 0#8) b = true ∨ ∃ k < n, Names dpb (vol.dir k) b)

theorem mapAt_congr {single : Bool} {e e' : Nat → Byte} (h : ∀ i < fcblen, e i = e' i) {i : Nat}
    (hi : i < mapSize single) : mapAt single e i = mapAt single e' i := by
  unfold mapAt
  cases single with
  | true =>
      have hlt : i < 16 := hi
      rw [if_pos rfl, if_pos rfl, h _ (by unfold dskmap fcblen; omega)]
  | false =>
      have hlt : i < 8 := hi
      rw [if_neg Bool.false_ne_true, if_neg Bool.false_ne_true,
        h _ (by unfold dskmap fcblen; omega), h (dskmap + 2 * i) (by unfold dskmap fcblen; omega)]

/-- Before the directory is read. -/
theorem allocated_reserved (alloc : Nat → Byte) {b : Word} (hb : b.toNat ≤ dpb.maxall.toNat) :
    allocated (reserved dpb alloc) b = allocated (reserved dpb fun _ => 0#8) b := by
  have hle : b.toNat / 8 ≤ (dpb.maxall >>> 3).toNat := by
    rw [BitVec.toNat_ushiftRight, Nat.shiftRight_eq_div_pow]
    exact Nat.div_le_div_right hb
  have hbyte : reserved dpb alloc (b.toNat / 8) = reserved dpb (fun _ => 0#8) (b.toNat / 8) := by
    unfold reserved
    rw [if_pos hle, if_pos hle]
  rw [allocated_eq, allocated_eq, hbyte]

theorem exact_zero {vol : Volume} (alloc : Nat → Byte) : Exact dpb vol 0 (reserved dpb alloc) := by
  intro b hb
  have hnone : ¬ ∃ k < 0, Names dpb (vol.dir k) b := by
    rintro ⟨k, hk, -⟩
    exact absurd hk (Nat.not_lt_zero k)
  rw [allocated_reserved alloc hb, or_iff_left hnone]

/-- The loop of `scandm`, with the bits set. -/
theorem allocated_scan (maxall : Word) (place : Nat → Word) (is : List Nat) (alloc : Nat → Byte)
    {b : Word} (hb : b.toNat ≤ maxall.toNat) :
    allocated (is.foldl (fun alloc i =>
        if place i = 0#16 ∨ maxall < place i then alloc else setallocbit alloc (place i) 1#8)
      alloc) b = true ↔
    allocated alloc b = true ∨ (b ≠ 0#16 ∧ ∃ i ∈ is, place i = b) := by
  induction is generalizing alloc with
  | nil => simp
  | cons i is ih =>
      rw [List.foldl_cons, ih]
      have hstep : allocated
          (if place i = 0#16 ∨ maxall < place i then alloc else setallocbit alloc (place i) 1#8)
          b = true ↔ allocated alloc b = true ∨ (b ≠ 0#16 ∧ place i = b) := by
        split
        · next hout =>
            refine ⟨Or.inl, fun h => h.resolve_right fun ⟨h0, hb'⟩ => ?_⟩
            rcases hout with hzero | hlt
            · exact h0 (hb' ▸ hzero)
            · rw [hb'] at hlt
              exact absurd hb (Nat.not_le.mpr hlt)
        · next hin =>
            have hset := allocated_setallocbit alloc (place i) b true
            have hone : (BitVec.ofBool true).setWidth 8 = 1#8 := by decide
            rw [hone] at hset
            rw [hset]
            by_cases hbi : b = place i
            · have h0 : b ≠ 0#16 := fun h => hin (Or.inl (hbi ▸ h))
              simp [hbi, hbi ▸ h0]
            · simp [hbi, Ne.symm hbi]
      rw [hstep]
      simp only [List.mem_cons, exists_eq_or_imp]
      tauto

/-- The entries before `k` were looked at. -/
structure Scanned (bios : Bios D) (dpb : Dpb)
    (Holds : D → Word × Word → (Nat → Option Record) → Prop) (vol : Volume) (k : Nat)
    (s : State D) : Prop where
  le : k ≤ dpb.dirmax.toNat + 1
  ready : Ready dpb Holds vol s
  before : Before bios dpb Holds vol k s
  checked : CheckedTo dpb vol ((k + 3) / dirrec) s.tables
  exact : Exact dpb vol k s.tables.alloc
  ends : ∀ j < k, s.tables.cdrmax.toNat ≤ j → vol.dir j 0 = empty

/-- One entry more was looked at. -/
theorem Scanned.next {s s' : State D} (hscan : Scanned bios dpb Holds vol k s)
    (hk : k ≤ dpb.dirmax.toNat) (hready : Ready dpb Holds vol s')
    (hat : At bios dpb Holds vol k s')
    (hcorrect : ∀ r, Correct dpb vol s.tables r ∨ (r = k / dirrec ∧ k % dirrec = 0) →
      Correct dpb vol s'.tables r)
    (hexact : ∀ b : Word, b.toNat ≤ dpb.maxall.toNat →
      (allocated s'.tables.alloc b = true ↔
        allocated s.tables.alloc b = true ∨ Names dpb (vol.dir k) b))
    (hends : s.tables.cdrmax.toNat ≤ s'.tables.cdrmax.toNat ∧
      (vol.dir k 0 ≠ empty → k < s'.tables.cdrmax.toNat)) :
    Scanned bios dpb Holds vol (k + 1) s' where
  le := Nat.succ_le_succ hk
  ready := hready
  before := hat.before_next
  checked := by
    intro r hr
    refine hcorrect r ?_
    by_cases hold : r < (k + 3) / dirrec
    · exact Or.inl (hscan.checked r hold)
    · right
      unfold dirrec at *
      omega
  exact := by
    intro b hb
    rw [hexact b hb, hscan.exact b hb, Nat.exists_lt_succ_right, or_assoc]
  ends := by
    intro j hj hle
    by_cases hjk : j = k
    · rw [hjk] at hle ⊢
      by_contra hne
      exact absurd hle (Nat.not_le.mpr (hends.2 hne))
    · exact hscan.ends j (by omega) (hends.1.trans hle)

/-- What a pass does with an entry that is not empty. -/
theorem scan_entry (hvalid : dpb.Valid) {s s' : State D} (hscan : Scanned bios dpb Holds vol k s)
    (halloc : s'.tables.alloc = s.tables.alloc) (hcdr : s'.tables.cdrmax = s.tables.cdrmax)
    (hready : Ready dpb Holds vol s') (hat : At bios dpb Holds vol k s')
    (hcorrect : ∀ r, Correct dpb vol s.tables r ∨ (r = k / dirrec ∧ k % dirrec = 0) →
      Correct dpb vol s'.tables r)
    (hne : vol.dir k 0 ≠ empty) :
    (scandm dpb 1#8).returns
      (fun _ => setcdr.returns fun _ s'' => Scanned bios dpb Holds vol (k + 1) s'') s' := by
  have hdirmax := hvalid.dirmax
  have hle := hat.le
  have hdcnt : s'.access.dcnt.toNat = k := by
    rw [hat.dcnt, BitVec.toNat_ofNat]
    exact Nat.mod_eq_of_lt (by omega)
  unfold scandm setcdr
  rw [Routine.returns_modify, Routine.returns_modify]
  have hexact : ∀ b : Word, b.toNat ≤ dpb.maxall.toNat →
      (allocated ((List.range (mapSize dpb.single)).foldl (fun alloc i =>
          if mapAt dpb.single s'.entry i = 0#16 ∨ dpb.maxall < mapAt dpb.single s'.entry i
          then alloc else setallocbit alloc (mapAt dpb.single s'.entry i) 1#8)
        s'.tables.alloc) b = true ↔
        allocated s.tables.alloc b = true ∨ Names dpb (vol.dir k) b) := by
    intro b hb
    rw [allocated_scan dpb.maxall (mapAt dpb.single s'.entry) _ _ hb, halloc]
    refine or_congr_right ⟨fun ⟨h0, i, hi, hplace⟩ => ⟨hne, h0, i, List.mem_range.mp hi, ?_⟩,
      fun ⟨_, h0, i, hi, hplace⟩ => ⟨h0, i, List.mem_range.mpr hi, ?_⟩⟩
    · rw [← mapAt_congr (fun _ hj => hat.entry hj) (List.mem_range.mp hi)]
      exact hplace
    · rw [mapAt_congr (fun _ hj => hat.entry hj) hi]
      exact hplace
  have hat' : ∀ t : Tables, At bios dpb Holds vol k { s' with tables := t } := fun _ =>
    ⟨⟨hat.drec, hat.buff, hat.holds⟩, hat.le, hat.dcnt, hat.dptr⟩
  have hready' : ∀ t : Tables, t.rodsk = false →
      Ready dpb Holds vol { s' with tables := t } := fun _ hrodsk =>
    ⟨hready.holds, hready.onTrack, hready.dma, hrodsk⟩
  split
  · next hcarry =>
      -- `cdrmax` is behind the entry already
      have hlt : s'.access.dcnt < s'.tables.cdrmax := of_decide_eq_true hcarry
      have hlt' : k < s'.tables.cdrmax.toNat := by
        rw [← hdcnt]
        exact hlt
      refine hscan.next hle (hready' _ hready.rodsk) (hat' _) hcorrect hexact ⟨?_, fun _ => hlt'⟩
      show _ ≤ s'.tables.cdrmax.toNat
      rw [hcdr]
  · next hcarry =>
      have hge : ¬ s'.access.dcnt < s'.tables.cdrmax := fun h => hcarry (decide_eq_true h)
      have hge' : s'.tables.cdrmax.toNat ≤ k := by
        rw [← hdcnt]
        exact BitVec.not_lt.mp hge
      have hnext : (s'.access.dcnt + 1#16).toNat = k + 1 := by
        rw [BitVec.toNat_add, hdcnt]
        exact Nat.mod_eq_of_lt (by
          show k + 1 < 2 ^ 16
          omega)
      refine hscan.next hle (hready' _ hready.rodsk) (hat' _) hcorrect hexact ⟨?_, fun _ => ?_⟩
      · show _ ≤ (s'.access.dcnt + 1#16).toNat
        rw [hnext, ← hcdr]
        omega
      · show k < (s'.access.dcnt + 1#16).toNat
        rw [hnext]
        exact Nat.lt_succ_self k

/-- What `initialize` comes to. -/
def LoggedIn (dpb : Dpb) (Holds : D → Word × Word → (Nat → Option Record) → Prop)
    (vol : Volume) (s : State D) : Prop :=
  Mounted dpb Holds vol s ∧ Exact dpb vol (dpb.dirmax.toNat + 1) s.tables.alloc

/-- One pass: an entry more, or the end of the directory. -/
theorem initialPass_returns (hworks : Works bios dpb Holds) (hvalid : dpb.Valid)
    (hscan : Scanned bios dpb Holds vol k s) :
    (initialPass bios dpb).returns (fun o s' => o.elim
      (k ≤ dpb.dirmax.toNat ∧ Scanned bios dpb Holds vol (k + 1) s')
      fun _ => LoggedIn dpb Holds vol s') s := by
  have hdirmax := hvalid.dirmax
  unfold initialPass
  rw [Routine.returns_bind]
  by_cases hk : k ≤ dpb.dirmax.toNat
  · refine Routine.returns_mono
      (readdir_returns hworks hvalid hscan.ready hscan.before hk (Or.inl rfl))
      fun _ s' ⟨hstep, hready, hat, _, hcorrect⟩ => ?_
    have hcorrect' : ∀ r, Correct dpb vol s.tables r ∨ (r = k / dirrec ∧ k % dirrec = 0) →
        Correct dpb vol s'.tables r :=
      fun r hr => hcorrect r (hr.imp_right fun h => ⟨rfl, h⟩)
    have hentry : s'.entry 0 = vol.dir k 0 := hat.entry (by decide)
    rw [Routine.returns_bind, Routine.returns_gets]
    simp only [id, hat.not_endofdir hvalid, Bool.false_eq_true, if_false]
    rw [Routine.returns_ite, hentry]
    refine ⟨fun hempty => ?_, fun hne => ?_⟩
    · refine ⟨hk, hscan.next hk hready hat hcorrect' (fun b _ => ?_)
        ⟨?_, fun hne => absurd hempty hne⟩⟩
      · rw [hstep]
        exact ⟨Or.inl, fun h => h.resolve_right fun hnames => hnames.1 hempty⟩
      · rw [hstep]
    · have halloc : s'.tables.alloc = s.tables.alloc := by rw [hstep]
      have hcdr : s'.tables.cdrmax = s.tables.cdrmax := by rw [hstep]
      simp only [Routine.returns_ite, Routine.returns_bind, Routine.returns_modify]
      have hscanned : ∀ s'' : State D, Scanned bios dpb Holds vol (k + 1) s'' →
          k ≤ dpb.dirmax.toNat ∧ Scanned bios dpb Holds vol (k + 1) s'' := fun _ h => ⟨hk, h⟩
      refine ⟨fun _ => ?_, fun _ => ?_⟩
      · -- a dollar file was found, which changes the returned value only
        refine Routine.returns_mono (scan_entry hvalid hscan halloc hcdr
          ⟨hready.holds, hready.onTrack, hready.dma, hready.rodsk⟩
          ⟨⟨hat.drec, hat.buff, hat.holds⟩, hat.le, hat.dcnt, hat.dptr⟩ hcorrect' hne)
          fun _ _ h => (Routine.returns_bind _ _ _).mpr
            (Routine.returns_mono h fun _ => hscanned)
      · exact Routine.returns_mono (scan_entry hvalid hscan halloc hcdr hready hat hcorrect' hne)
          fun _ _ h => (Routine.returns_bind _ _ _).mpr
            (Routine.returns_mono h fun _ => hscanned)
  · have hle := hscan.le
    have hlast : k = dpb.dirmax.toNat + 1 := by omega
    refine (Routine.returns_run (readdir_end hvalid hscan.before (by omega) (by omega))).mpr ?_
    rw [Routine.returns_bind, Routine.returns_gets]
    refine ⟨⟨⟨hscan.ready.holds, hscan.ready.onTrack, hscan.ready.dma, hscan.ready.rodsk⟩,
      fun r hr => hscan.checked r ?_, fun j hj hjle => hscan.ends j (by omega) hj⟩, ?_⟩
    · unfold dirRecords dirrec at *
      omega
    · rw [← hlast]
      exact hscan.exact

theorem initialize_returns (hworks : Works bios dpb Holds) (hvalid : dpb.Valid)
    (hready : Ready dpb Holds vol s) :
    (initializeDisk bios dpb).returns (fun _ s' => LoggedIn dpb Holds vol s') s := by
  obtain ⟨place, hplace⟩ := hready.holds
  obtain ⟨place', hhome⟩ := hworks.home hplace
  unfold initializeDisk home setenddir
  simp only [Routine.returns_bind, returns_modifyTables, returns_modifyIo,
    returns_modifyAccess]
  refine Routine.returns_loop (fun s' => ∃ k, Scanned bios dpb Holds vol k s')
    (fun s' => dpb.dirmax.toNat + 1 - (s'.access.dcnt + 1#16).toNat) ?_ ⟨0, ?_⟩ ?_
  · rintro s₁ ⟨k, hscan⟩
    refine Routine.returns_mono (initialPass_returns hworks hvalid hscan) fun o s₂ ho => ?_
    cases o with
    | none =>
        obtain ⟨hk, hscan'⟩ := ho
        refine ⟨⟨k + 1, hscan'⟩, ?_⟩
        rw [hscan.before.toNat_next hvalid hscan.le, hscan'.before.toNat_next hvalid hscan'.le]
        omega
    | some _ => exact ho
  · have hwrap : enddir + 1#16 = BitVec.ofNat 16 0 := by decide
    refine ⟨Nat.zero_le _, ⟨⟨_, hhome⟩, onTrack_home _, hready.dma, hready.rodsk⟩,
      ⟨hwrap, fun h => absurd rfl h⟩, fun r hr => absurd hr (Nat.not_lt_zero r),
      exact_zero s.tables.alloc, fun j hj => absurd hj (Nat.not_lt_zero j)⟩
  · have hdirmax := hvalid.dirmax
    unfold allPasses
    omega

/-- **A drive is logged in.**  `initialize` returns, with the tables that go with what is on the
drive: a block is allocated if and only if it is reserved for the directory or an entry, of any
user, names it. -/
theorem drive_logged_in (hworks : Works bios dpb Holds) (hvalid : dpb.Valid)
    (hready : Ready dpb Holds vol s) :
    ∃ s', initializeDisk bios dpb s = .returned () s' ∧ Mounted dpb Holds vol s' ∧
      ∀ b : Word, b.toNat ≤ dpb.maxall.toNat → (allocated s'.tables.alloc b = true ↔
        allocated (reserved dpb fun _ => 0#8) b = true ∨
          ∃ k ≤ dpb.dirmax.toNat, Names dpb (vol.dir k) b) := by
  obtain ⟨_, s', hrun, hmounted, hexact⟩ :=
    Routine.returns_iff.mp (initialize_returns hworks hvalid hready)
  refine ⟨s', hrun, hmounted, fun b hb => ?_⟩
  rw [hexact b hb]
  simp only [Nat.lt_succ_iff]

end Login

theorem drive_logged_in_oneFile :
    ∃ s', initializeDisk arrayBios (dpbOf 0) (loaded (dpbOf 0) ⟨oneFile, fun _ => none⟩) =
        .returned () s' ∧
      Mounted (dpbOf 0) (OnArray (dpbOf 0)) ⟨oneFile, fun _ => none⟩ s' ∧
      ∀ b : Word, b.toNat ≤ (dpbOf 0).maxall.toNat → (allocated s'.tables.alloc b = true ↔
        allocated (reserved (dpbOf 0) fun _ => 0#8) b = true ∨
          ∃ k ≤ (dpbOf 0).dirmax.toNat, Names (dpbOf 0) (oneFile k) b) :=
  drive_logged_in (array_works (dpbOf_valid 0)) (dpbOf_valid 0) (loaded_ready (dpbOf_valid 0))

end Bdos
end Rc700
