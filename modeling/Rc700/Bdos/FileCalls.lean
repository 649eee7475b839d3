import Rc700.Bdos.Deleting
import Rc700.Bdos.Opening
import Rc700.Bdos.Renaming

/-!
# The file system: over all calls

A drive is logged in, and then files are searched, opened, deleted, renamed and made in any order.
What a call does to the volume is `FileCall.after`, which says nothing of records, buffers and
tables; the BDOS follows it call for call.  The allocation vector is exact after each call, so
`get$block` never hands out a block of a file.
-/

namespace Rc700
namespace Bdos

open Library

/-- The calls, each with the file control block at `info`. -/
inductive FileCall
  | login
  | search (c : Nat) (fcb : Nat → Byte)
  | openFile (fcb : Nat → Byte)
  | delete (fcb : Nat → Byte)
  | rename (fcb : Nat → Byte)
  | indicators (fcb : Nat → Byte)
  | make (fcb : Nat → Byte)

section Code

variable {D : Type} (bios : Bios D) (dpb : Dpb)

/-- The file control block is given. -/
def atInfo (fcb : Nat → Byte) : Code D Unit := Routine.modify fun s => { s with fcb := fcb }

def FileCall.call : FileCall → Code D Unit
  | .login => initializeDisk bios dpb
  | .search c fcb => do
      atInfo fcb
      Bdos.search bios dpb c fcb
  | .openFile fcb => do
      atInfo fcb
      Bdos.openFile bios dpb
  | .delete fcb => do
      atInfo fcb
      Bdos.delete bios dpb
      copydirloc
  | .rename fcb => do
      atInfo fcb
      Bdos.rename bios dpb
      copydirloc
  | .indicators fcb => do
      atInfo fcb
      Bdos.indicators bios dpb
      copydirloc
  | .make fcb => do
      atInfo fcb
      Bdos.make bios dpb

def callAll : List FileCall → Code D Unit
  | [] => pure ()
  | c :: calls => do
      c.call bios dpb
      callAll calls

end Code

/-! ### On volumes -/

/-- The first entry that is available. -/
def firstAvailable (dpb : Dpb) (vol : Volume) : Option Nat :=
  (List.range (dpb.dirmax.toNat + 1)).find? fun k => matchesFcb dpb 1 efcb (vol.dir k)

/-- The volume after a call. -/
def FileCall.after (dpb : Dpb) (vol : Volume) : FileCall → Volume
  | .login => vol
  | .search _ _ => vol
  | .openFile _ => vol
  | .delete fcb => deleted dpb fcb vol (dpb.dirmax.toNat + 1)
  | .rename fcb => rewritten dpb fcb (renamed fcb) dskmap vol (dpb.dirmax.toNat + 1)
  | .indicators fcb => rewritten dpb fcb fcb 0 vol (dpb.dirmax.toNat + 1)
  | .make fcb =>
      match firstAvailable dpb vol with
      | some k => vol.put k (entered fcb (vol.dir k))
      | none => vol

/-- None of the entries that match is read-only. -/
def Writable (dpb : Dpb) (vol : Volume) (fcb : Nat → Byte) : Prop :=
  ∀ k ≤ dpb.dirmax.toNat, matchesFcb dpb extnum fcb (vol.dir k) = true →
    (vol.dir k rofile).msb = false

instance {dpb : Dpb} {vol : Volume} {fcb : Nat → Byte} : Decidable (Writable dpb vol fcb) :=
  inferInstanceAs (Decidable (∀ k ≤ dpb.dirmax.toNat, _ → _))

/-- What may be called: where the directory is changed, the file control block has a user at its
start, and a file that is deleted or renamed is not read-only. -/
def FileCall.Allowed (dpb : Dpb) (vol : Volume) : FileCall → Prop
  | .login => True
  | .search c _ => c ≤ fcblen
  | .openFile _ => True
  | .delete fcb => NamesUser fcb ∧ Writable dpb vol fcb
  | .rename fcb => NamesUser fcb ∧ Writable dpb vol fcb
  | .indicators fcb => NamesUser fcb
  | .make fcb => NamesUser fcb

/-- The volume after some calls. -/
def afterAll (dpb : Dpb) : Volume → List FileCall → Volume :=
  List.foldl (FileCall.after dpb)

/-- Each of the calls is allowed when it is made. -/
def AllowedAll (dpb : Dpb) : Volume → List FileCall → Prop
  | _, [] => True
  | vol, c :: calls => c.Allowed dpb vol ∧ AllowedAll dpb (c.after dpb vol) calls

/-- A directory as it should be: the entries are empty or of users, and have blocks of their own. -/
structure Sound (dpb : Dpb) (vol : Volume) : Prop where
  users : ∀ k ≤ dpb.dirmax.toNat, vol.dir k 0 = empty ∨ vol.dir k 0 < 32#8
  disjoint : ∀ k ≤ dpb.dirmax.toNat, ∀ j ≤ dpb.dirmax.toNat, ∀ b, Names dpb (vol.dir k) b →
    Names dpb (vol.dir j) b → k = j
  unreserved : ∀ k ≤ dpb.dirmax.toNat, ∀ b, Names dpb (vol.dir k) b →
    allocated (reserved dpb fun _ => 0#8) b = false

section Volumes

variable {dpb : Dpb} {vol vol' : Volume} {fcb : Nat → Byte} {k n : Nat} {b : Word}

/-- No entry names more than it did. -/
theorem Sound.of_names (hsound : Sound dpb vol)
    (husers : ∀ k ≤ dpb.dirmax.toNat, vol'.dir k 0 = empty ∨ vol'.dir k 0 < 32#8)
    (hnames : ∀ k ≤ dpb.dirmax.toNat, ∀ b, Names dpb (vol'.dir k) b → Names dpb (vol.dir k) b) :
    Sound dpb vol' where
  users := husers
  disjoint k hk j hj b hkb hjb :=
    hsound.disjoint k hk j hj b (hnames k hk b hkb) (hnames j hj b hjb)
  unreserved k hk b hkb := hsound.unreserved k hk b (hnames k hk b hkb)

theorem names_deleted : Names dpb ((deleted dpb fcb vol n).dir k) b ↔
    Names dpb (vol.dir k) b ∧ ¬ (k < n ∧ matchesFcb dpb extnum fcb (vol.dir k) = true) := by
  unfold deleted changed
  simp only
  split
  · next hgone =>
      refine ⟨fun h => absurd (Function.update_self ..) h.1, fun h => absurd hgone h.2⟩
  · next hstays => exact (and_iff_left hstays).symm

theorem Sound.deleted (hsound : Sound dpb vol) : Sound dpb (Bdos.deleted dpb fcb vol n) := by
  refine hsound.of_names (fun k hk => ?_) fun k _ b h => (names_deleted.mp h).1
  unfold Bdos.deleted changed
  simp only
  split
  · exact Or.inl (Function.update_self ..)
  · exact hsound.users k hk

/-- The new allocation vector goes with what is left. -/
theorem Sound.exact_deleted (hsound : Sound dpb vol) {alloc alloc' : Nat → Byte}
    (hexact : Exact dpb vol (dpb.dirmax.toNat + 1) alloc)
    (hfrees : Frees dpb fcb vol (dpb.dirmax.toNat + 1) alloc alloc') :
    Exact dpb (Bdos.deleted dpb fcb vol (dpb.dirmax.toNat + 1)) (dpb.dirmax.toNat + 1) alloc' := by
  intro b hb
  rw [hfrees b hb, hexact b hb]
  constructor
  · rintro ⟨hreserved | ⟨k, hk, hnames⟩, hkept⟩
    · exact Or.inl hreserved
    · exact Or.inr ⟨k, hk, names_deleted.mpr ⟨hnames, fun h => hkept ⟨k, hk, h.2, hnames⟩⟩⟩
  · rintro (hreserved | ⟨k, hk, hnames⟩)
    · refine ⟨Or.inl hreserved, ?_⟩
      rintro ⟨j, hj, -, hnames⟩
      rw [hsound.unreserved j (Nat.lt_succ_iff.mp hj) b hnames] at hreserved
      cases hreserved
    · obtain ⟨hold, hstays⟩ := names_deleted.mp hnames
      refine ⟨Or.inr ⟨k, hk, hold⟩, ?_⟩
      rintro ⟨j, hj, hmatch, hnames'⟩
      have hjk := hsound.disjoint j (Nat.lt_succ_iff.mp hj) k (Nat.lt_succ_iff.mp hk) b hnames' hold
      exact hstays ⟨hk, hjk ▸ hmatch⟩

theorem NamesUser.ne_empty (hname : NamesUser fcb) : fcb 0 ≠ empty := by
  intro heq
  unfold NamesUser at hname
  rw [heq] at hname
  exact absurd hname (by decide)

/-- A name is no part of a disk map. -/
theorem names_rewritten {a : Nat → Byte} {c : Nat} (hname : NamesUser a) (hfirst : fcb c = a 0) :
    Names dpb ((rewritten dpb a fcb c vol n).dir k) b ↔ Names dpb (vol.dir k) b := by
  unfold rewritten changed
  simp only
  split
  · next hmatch =>
      have hmap : ∀ i, dskmap ≤ i → copied fcb c extnum (vol.dir k) i = vol.dir k i :=
        fun i hi => if_neg (by unfold dskmap extnum at *; omega)
      have hused : vol.dir k 0 ≠ empty := fun hempty => by
        rw [hname.not_matches hempty] at hmatch
        cases hmatch.2
      have hstart : copied fcb c extnum (vol.dir k) 0 ≠ empty := by
        have hzero : copied fcb c extnum (vol.dir k) 0 = a 0 := hfirst
        rw [hzero]
        exact hname.ne_empty
      have hplace : ∀ i, mapAt dpb.single (copied fcb c extnum (vol.dir k)) i =
          mapAt dpb.single (vol.dir k) i := by
        intro i
        unfold mapAt
        rw [hmap _ (by omega), hmap _ (by omega), hmap _ (by omega)]
      unfold Names
      simp only [hplace]
      exact and_congr_left fun _ => iff_of_true hstart hused
  · rfl

theorem Sound.rewritten (hsound : Sound dpb vol) {a : Nat → Byte} {c : Nat} (hname : NamesUser a)
    (hfirst : fcb c = a 0) : Sound dpb (Bdos.rewritten dpb a fcb c vol n) := by
  refine hsound.of_names (fun k hk => ?_) fun k _ b h => (names_rewritten hname hfirst).mp h
  unfold Bdos.rewritten changed
  simp only
  split
  · refine Or.inr ?_
    have hzero : copied fcb c extnum (vol.dir k) 0 = a 0 := hfirst
    rw [hzero]
    exact hname
  · exact hsound.users k hk

theorem Exact.rewritten {alloc : Nat → Byte} {m : Nat} (hexact : Exact dpb vol m alloc)
    {a : Nat → Byte} {c : Nat} (hname : NamesUser a) (hfirst : fcb c = a 0) :
    Exact dpb (Bdos.rewritten dpb a fcb c vol n) m alloc := by
  intro b hb
  rw [hexact b hb]
  simp only [names_rewritten hname hfirst]

/-- The disk map of a new file is clear. -/
theorem not_names_entered (e : Nat → Byte) : ¬ Names dpb (entered fcb e) b := by
  have hzero : ∀ i, dskmap ≤ i → i < fcblen → entered fcb e i = 0#8 := by
    intro i hle hlt
    unfold entered copied cleared
    rw [if_pos hlt, Nat.zero_add, if_pos (Or.inr ⟨by unfold dskmap namlen at *; omega, hlt⟩)]
  rintro ⟨-, hb, i, hi, hplace⟩
  refine hb (hplace.symm.trans ?_)
  unfold mapAt
  unfold mapSize at hi
  split
  · next hsingle =>
      rw [if_pos hsingle] at hi
      rw [hzero _ (by omega) (by unfold dskmap fcblen; omega)]
      rfl
  · next hsingle =>
      rw [if_neg hsingle] at hi
      rw [hzero _ (by omega) (by unfold dskmap fcblen; omega),
        hzero _ (by omega) (by unfold dskmap fcblen; omega)]
      rfl

/-- An entry of a user is not available. -/
theorem Sound.empty_of_available (hsound : Sound dpb vol) (hk : k ≤ dpb.dirmax.toNat)
    (havailable : matchesFcb dpb 1 efcb (vol.dir k) = true) : vol.dir k 0 = empty := by
  have huser : ∀ u : Byte, u < 32#8 → (u &&& 0x7F#8 == 0x65#8) = false := by
    decide
  refine (hsound.users k hk).resolve_right fun hlt => ?_
  rw [matches_efcb, huser _ hlt] at havailable
  cases havailable

theorem entered_user (e : Nat → Byte) : entered fcb e 0 = fcb 0 := by
  unfold entered copied cleared
  rw [if_pos (by decide), if_neg (by decide)]

theorem names_put (e : Nat → Byte) {j : Nat}
    (h : Names dpb ((vol.put k (entered fcb e)).dir j) b) : j ≠ k ∧ Names dpb (vol.dir j) b := by
  by_cases hjk : j = k
  · have hput : (vol.put k (entered fcb e)).dir k = entered fcb e := Function.update_self ..
    rw [hjk, hput] at h
    exact absurd h (not_names_entered e)
  · rw [(put_sameBut vol k _).2 j hjk] at h
    exact ⟨hjk, h⟩

theorem Sound.put (hsound : Sound dpb vol) (hname : NamesUser fcb) (e : Nat → Byte) :
    Sound dpb (vol.put k (entered fcb e)) := by
  refine hsound.of_names (fun j hj => ?_) fun j _ b h => (names_put e h).2
  by_cases hjk : j = k
  · have hput : (vol.put k (entered fcb e)).dir k = entered fcb e := Function.update_self ..
    rw [hjk, hput, entered_user]
    exact Or.inr hname
  · rw [(put_sameBut vol k _).2 j hjk]
    exact hsound.users j hj

theorem Exact.put {alloc : Nat → Byte} (hexact : Exact dpb vol n alloc)
    (hempty : vol.dir k 0 = empty) (e : Nat → Byte) :
    Exact dpb (vol.put k (entered fcb e)) n alloc := by
  intro b hb
  rw [hexact b hb]
  refine or_congr_right ⟨?_, ?_⟩
  · rintro ⟨j, hj, hnames⟩
    have hjk : j ≠ k := fun heq => hnames.1 (heq ▸ hempty)
    refine ⟨j, hj, ?_⟩
    rw [(put_sameBut vol k _).2 j hjk]
    exact hnames
  · rintro ⟨j, hj, hnames⟩
    exact ⟨j, hj, (names_put e hnames).2⟩

end Volumes

/-! ### The BDOS follows -/

section Calls

variable {D : Type} {bios : Bios D} {dpb : Dpb}
  {Holds : D → Word × Word → (Nat → Option Record) → Prop} {vol : Volume} {s : State D}

/-- Between two calls. -/
structure InStep (dpb : Dpb) (Holds : D → Word × Word → (Nat → Option Record) → Prop)
    (vol : Volume) (s : State D) : Prop where
  mounted : Mounted dpb Holds vol s
  exact : Exact dpb vol (dpb.dirmax.toNat + 1) s.tables.alloc
  sound : Sound dpb vol

theorem Mounted.atInfo (hmounted : Mounted dpb Holds vol s) (fcb : Nat → Byte) :
    Mounted dpb Holds vol { s with fcb := fcb } :=
  ⟨⟨hmounted.holds, hmounted.onTrack, hmounted.dma, hmounted.rodsk⟩, hmounted.checked,
    hmounted.ends⟩

theorem after_made {fcb : Nat → Byte} {k : Nat} (hmade : Made bios dpb Holds vol fcb k s) :
    (FileCall.make fcb).after dpb vol = vol.put k (entered fcb (vol.dir k)) := by
  have hfirst : firstAvailable dpb vol = some k := by
    refine List.find?_range_eq_some.mpr ⟨hmade.available, ?_, fun j hj => ?_⟩
    · exact List.mem_range.mpr (Nat.lt_succ_of_le hmade.current.le)
    · rw [hmade.first j hj]
      rfl
  show (match firstAvailable dpb vol with
    | some k => vol.put k (entered fcb (vol.dir k))
    | none => vol) = _
  rw [hfirst]

theorem after_noSpace {fcb : Nat → Byte} (hnone : NoSpace dpb Holds vol fcb s) :
    (FileCall.make fcb).after dpb vol = vol := by
  have hnot : firstAvailable dpb vol = none := by
    refine List.find?_range_eq_none.mpr fun j hj => ?_
    rw [hnone.none j (Nat.lt_succ_iff.mp hj)]
    rfl
  show (match firstAvailable dpb vol with
    | some k => vol.put k (entered fcb (vol.dir k))
    | none => vol) = _
  rw [hnot]

/-- `copy$dirloc` sets what is returned, and nothing else. -/
theorem copydirloc_returns (hin : InStep dpb Holds vol s) :
    (copydirloc : Code D Unit).returns (fun _ s' => InStep dpb Holds vol s') s := by
  have hmounted := hin.mounted
  unfold copydirloc
  rw [Routine.returns_modify]
  exact ⟨⟨⟨hmounted.holds, hmounted.onTrack, hmounted.dma, hmounted.rodsk⟩, hmounted.checked,
    hmounted.ends⟩, hin.exact, hin.sound⟩

/-- A call returns, with the volume as it is after the call. -/
theorem call_returns (hworks : Works bios dpb Holds) (hvalid : dpb.Valid) {c : FileCall}
    (hin : InStep dpb Holds vol s) (hallowed : c.Allowed dpb vol) :
    (c.call bios dpb).returns (fun _ s' => InStep dpb Holds (c.after dpb vol) s') s := by
  cases c with
  | login =>
      exact Routine.returns_mono (initialize_returns hworks hvalid hin.mounted.toReady)
        fun _ _ hlogged => ⟨hlogged.1, hlogged.2, hin.sound⟩
  | search c fcb =>
      unfold FileCall.call Bdos.atInfo
      rw [Routine.returns_bind, Routine.returns_modify]
      refine Routine.returns_mono (search_returns hworks hvalid (hin.mounted.atInfo fcb) hallowed)
        fun _ s' hends => ?_
      obtain ⟨hmoved, hmounted, -⟩ := hends
      refine ⟨hmounted, ?_, hin.sound⟩
      rw [hmoved.tables]
      exact hin.exact
  | openFile fcb =>
      unfold FileCall.call Bdos.atInfo
      rw [Routine.returns_bind, Routine.returns_modify]
      refine Routine.returns_mono (open_returns hworks hvalid (hin.mounted.atInfo fcb))
        fun _ s' hopen => ?_
      obtain ⟨hmounted, htables, -⟩ := hopen
      have halloc : s'.tables.alloc = s.tables.alloc := congrArg Tables.alloc htables
      exact ⟨hmounted, halloc ▸ hin.exact, hin.sound⟩
  | delete fcb =>
      unfold FileCall.call Bdos.atInfo
      rw [Routine.returns_bind, Routine.returns_modify, Routine.returns_bind]
      exact Routine.returns_mono
        (delete_returns hworks hvalid (hin.mounted.atInfo fcb) hallowed.1 hallowed.2)
        fun _ s' hto => copydirloc_returns
          ⟨hto.mounted, hin.sound.exact_deleted hin.exact hto.kept.1, hin.sound.deleted⟩
  | rename fcb =>
      unfold FileCall.call Bdos.atInfo
      rw [Routine.returns_bind, Routine.returns_modify, Routine.returns_bind]
      refine Routine.returns_mono
        (rename_returns hworks hvalid (hin.mounted.atInfo fcb) hallowed.1 hallowed.2)
        fun _ s' hto => ?_
      have halloc := hto.2.1
      have hfirst : renamed fcb dskmap = fcb 0 := Function.update_self ..
      exact copydirloc_returns ⟨hto.1, halloc ▸ hin.exact.rewritten hallowed.1 hfirst,
        hin.sound.rewritten hallowed.1 hfirst⟩
  | indicators fcb =>
      unfold FileCall.call Bdos.atInfo
      rw [Routine.returns_bind, Routine.returns_modify, Routine.returns_bind]
      refine Routine.returns_mono
        (indicators_returns hworks hvalid (hin.mounted.atInfo fcb) hallowed) fun _ s' hto => ?_
      have halloc := hto.2.1
      exact copydirloc_returns ⟨hto.1, halloc ▸ hin.exact.rewritten hallowed rfl,
        hin.sound.rewritten hallowed rfl⟩
  | make fcb =>
      unfold FileCall.call Bdos.atInfo
      rw [Routine.returns_bind, Routine.returns_modify]
      refine Routine.returns_mono (make_returns hworks hvalid (hin.mounted.atInfo fcb))
        fun _ s' hmake => ?_
      obtain ⟨halloc, -, ⟨k, hmade⟩ | hnone⟩ := hmake
      · rw [after_made hmade]
        have hempty := hin.sound.empty_of_available hmade.current.le hmade.available
        exact ⟨hmade.mounted, halloc ▸ hin.exact.put hempty _, hin.sound.put hallowed _⟩
      · rw [after_noSpace hnone]
        exact ⟨hnone.mounted, halloc ▸ hin.exact, hin.sound⟩

theorem callAll_returns (hworks : Works bios dpb Holds) (hvalid : dpb.Valid)
    {calls : List FileCall} (hin : InStep dpb Holds vol s) (hallowed : AllowedAll dpb vol calls) :
    (callAll bios dpb calls).returns
      (fun _ s' => InStep dpb Holds (afterAll dpb vol calls) s') s := by
  induction calls generalizing vol s with
  | nil => exact hin
  | cons c calls ih =>
      unfold callAll
      rw [Routine.returns_bind]
      exact Routine.returns_mono (call_returns hworks hvalid hin hallowed.1)
        fun _ _ hin' => ih hin' hallowed.2

/-- No block that `get$block` hands out is of a file, or of the directory. -/
def Spares (dpb : Dpb) (vol : Volume) (alloc : Nat → Byte) : Prop :=
  ∀ start b : Word, ∀ alloc' : Nat → Byte, start.toNat ≤ dpb.maxall.toNat → b ≠ 0#16 →
    getblock alloc dpb.maxall allPasses start start = some (b, alloc') →
    allocated (reserved dpb fun _ => 0#8) b = false ∧
      ∀ k ≤ dpb.dirmax.toNat, ¬ Names dpb (vol.dir k) b

theorem Exact.spares {alloc : Nat → Byte} (hexact : Exact dpb vol (dpb.dirmax.toNat + 1) alloc) :
    Spares dpb vol alloc := by
  intro start b alloc' hstart hb hrun
  obtain ⟨result, hrun', htakes⟩ := getblock_from (looked_start hstart) hstart passes_left
  have heq : result = (b, alloc') := Option.some.inj (hrun'.symm.trans hrun)
  rw [heq] at htakes
  rcases htakes with ⟨hnearest, -⟩ | ⟨hnone, -⟩
  · have hfree := hnearest.free
    have hiff := hexact b hnearest.le
    refine ⟨Bool.eq_false_iff.mpr fun hreserved => ?_, fun k hk hnames => ?_⟩
    · rw [hiff.mpr (Or.inl hreserved)] at hfree
      cases hfree
    · rw [hiff.mpr (Or.inr ⟨k, Nat.lt_succ_of_le hk, hnames⟩)] at hfree
      cases hfree
  · exact absurd (congrArg Prod.fst hnone) hb

/-- **Files over all calls.**  A drive with a sound directory is logged in, and then any calls are
made that are allowed.  All of them return; the drive holds the volume as the calls leave it; a
block is allocated if and only if it is reserved or an entry names it; and no block of a file is
handed out. -/
theorem files_follow (hworks : Works bios dpb Holds) (hvalid : dpb.Valid)
    (hready : Ready dpb Holds vol s) (hsound : Sound dpb vol) {calls : List FileCall}
    (hallowed : AllowedAll dpb vol calls) :
    ∃ s', callAll bios dpb (.login :: calls) s = .returned () s' ∧
      Mounted dpb Holds (afterAll dpb vol calls) s' ∧ Sound dpb (afterAll dpb vol calls) ∧
      Exact dpb (afterAll dpb vol calls) (dpb.dirmax.toNat + 1) s'.tables.alloc ∧
      Spares dpb (afterAll dpb vol calls) s'.tables.alloc := by
  have hreturns : (callAll bios dpb (.login :: calls)).returns
      (fun _ s' => InStep dpb Holds (afterAll dpb vol calls) s') s := by
    unfold callAll FileCall.call
    rw [Routine.returns_bind]
    exact Routine.returns_mono (initialize_returns hworks hvalid hready)
      fun _ _ hlogged => callAll_returns hworks hvalid ⟨hlogged.1, hlogged.2, hsound⟩ hallowed
  obtain ⟨_, s', hrun, hin⟩ := Routine.returns_iff.mp hreturns
  exact ⟨s', hrun, hin.mounted, hin.sound, hin.exact, hin.exact.spares⟩

end Calls

theorem oneFile_sound : Sound (dpbOf 0) ⟨oneFile, fun _ => none⟩ := by
  have hused : ∀ {k b}, Names (dpbOf 0) (oneFile k) b → k = 0 := fun hnames => by
    by_contra hk
    exact hnames.1 (if_neg hk)
  refine ⟨fun k _ => ?_, fun k _ j _ b hkb hjb => (hused hkb).trans (hused hjb).symm,
    fun k _ b hkb => ?_⟩
  · by_cases hk : k = 0
    · rw [hk]
      exact Or.inr (by decide)
    · exact Or.inl (if_neg hk)
  · have hmap : ∀ i < mapSize (dpbOf 0).single, mapAt (dpbOf 0).single (oneFile 0) i = 0#16 ∨
        mapAt (dpbOf 0).single (oneFile 0) i = 2#16 := by
      decide
    have hk := hused hkb
    rw [hk] at hkb
    obtain ⟨-, hb, i, hi, hplace⟩ := hkb
    rw [← hplace, (hmap i hi).resolve_left fun h0 => hb (hplace.symm.trans h0)]
    decide

/-- A file `A`, which is to be `B`. -/
def fileA : Nat → Byte := fun i => if i = 1 then 0x41#8 else if i = dskmap + 1 then 0x42#8 else 0#8

def fileB : Nat → Byte := fun i => if i = 1 then 0x42#8 else 0#8

/-- A file is made, renamed, opened and deleted. -/
def fourCalls : List FileCall := [.make fileA, .rename fileA, .openFile fileB, .delete fileB]

theorem files_follow_oneFile : ∃ s',
    callAll arrayBios (dpbOf 0) (.login :: fourCalls)
      (loaded (dpbOf 0) ⟨oneFile, fun _ => none⟩) = .returned () s' ∧
    Mounted (dpbOf 0) (OnArray (dpbOf 0))
      (afterAll (dpbOf 0) ⟨oneFile, fun _ => none⟩ fourCalls) s' ∧
    Sound (dpbOf 0) (afterAll (dpbOf 0) ⟨oneFile, fun _ => none⟩ fourCalls) ∧
    Exact (dpbOf 0) (afterAll (dpbOf 0) ⟨oneFile, fun _ => none⟩ fourCalls) 64 s'.tables.alloc ∧
    Spares (dpbOf 0) (afterAll (dpbOf 0) ⟨oneFile, fun _ => none⟩ fourCalls) s'.tables.alloc :=
  files_follow (array_works (dpbOf_valid 0)) (dpbOf_valid 0) (loaded_ready (dpbOf_valid 0))
    oneFile_sound (by
      have hname : NamesUser fileA ∧ NamesUser fileB := by
        unfold NamesUser
        decide
      exact ⟨hname.1, ⟨hname.1, by decide⟩, trivial, ⟨hname.2, by decide⟩, trivial⟩)

end Bdos
end Rc700
