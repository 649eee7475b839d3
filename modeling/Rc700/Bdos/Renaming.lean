import Rc700.Bdos.Making

/-!
# The file system: renaming

`rename` and `indicators` copy twelve bytes of the file control block to the start of every entry
that matches, and go on with the search behind it.  An entry that matches once more under its new
name is not looked at again.
-/

namespace Rc700
namespace Bdos

open Library

section Renaming

variable {D : Type} {bios : Bios D} {dpb : Dpb}
  {Holds : D → Word × Word → (Nat → Option Record) → Prop} {vol : Volume} {s t : State D}
  {k n c : Nat} {a : Nat → Byte} {l : Byte}

/-- The volume with the file control block, from `c` on, in those of its first entries that
match. -/
def rewritten (dpb : Dpb) (a fcb : Nat → Byte) (c : Nat) (vol : Volume) (n : Nat) : Volume :=
  changed dpb a (copied fcb c extnum) vol n

/-- What the loops keep. -/
def RewriteKeeps (t : State D) (_ : Nat) (s : State D) : Prop :=
  s.tables.alloc = t.tables.alloc ∧ s.fcb = t.fcb ∧ s.data = t.data

theorem rewriteKeeps (t : State D) : Keeps dpb vol a (RewriteKeeps t) where
  moved hmoved hkept := by
    rw [hmoved]
    exact hkept
  skip _ _ hkept := hkept

/-- What both loops do with the current entry. -/
theorem rewrite_returns (hworks : Works bios dpb Holds) (hvalid : dpb.Valid)
    (hname : NamesUser a)
    (hto : ChangedTo dpb Holds vol a (copied t.fcb c extnum) (RewriteKeeps t) k s)
    (hat : At bios dpb Holds (changed dpb a (copied t.fcb c extnum) vol k) k s)
    (hmatch : matchesFcb dpb extnum a (vol.dir k) = true) (hdirloc : s.access.dirloc = 0#8) :
    (copydir bios dpb c extnum).returns (fun _ => (searchn bios dpb).returns fun _ s' =>
      ChangeHead bios dpb Holds vol a (copied t.fcb c extnum) (RewriteKeeps t) 0 s' ∧
        entriesLeft dpb s' < entriesLeft dpb s) s := by
  have hk := hat.le
  have hput : changed dpb a (copied t.fcb c extnum) vol (k + 1) =
      (changed dpb a (copied t.fcb c extnum) vol k).put k
        (copied s.fcb c extnum ((changed dpb a (copied t.fcb c extnum) vol k).dir k)) := by
    rw [hto.kept.2.1, changed_of_le (Nat.le_refl k)]
    exact changed_succ hmatch
  refine Routine.returns_mono
    (copydir_returns hworks hvalid hto.mounted.toReady hat (by decide) hput) fun _ s₁ hcopied => ?_
  obtain ⟨heq, hready, hat₁, hcorrect⟩ := hcopied
  have hto₁ : ChangedTo dpb Holds vol a (copied t.fcb c extnum) (RewriteKeeps t) (k + 1) s₁ := by
    refine ⟨⟨hready, fun r hr => hcorrect r (hto.mounted.checked r hr), ?_⟩, ?_, ?_, ?_⟩
    · rw [heq]
      exact hto.mounted.ends.changed hname hmatch
    · rw [heq]
      exact hto.searchl
    · rw [heq]
      exact hto.searcha
    · rw [heq]
      exact hto.kept
  have hdirloc₁ : s₁.access.dirloc = 0#8 := by
    rw [heq]
    exact hdirloc
  rw [hat.entriesLeft hvalid]
  exact searchn_onward hworks hvalid hname (rewriteKeeps t) hto₁ hat₁ hdirloc₁

theorem renamePass_returns (hworks : Works bios dpb Holds) (hvalid : dpb.Valid)
    (hname : NamesUser a)
    (hro : ∀ k ≤ dpb.dirmax.toNat, matchesFcb dpb extnum a (vol.dir k) = true →
      (vol.dir k rofile).msb = false)
    (hhead : ChangeHead bios dpb Holds vol a (copied t.fcb dskmap extnum) (RewriteKeeps t) 0 s) :
    (renamePass bios dpb).returns (fun o s' => o.elim
      (ChangeHead bios dpb Holds vol a (copied t.fcb dskmap extnum) (RewriteKeeps t) 0 s' ∧
        entriesLeft dpb s' < entriesLeft dpb s)
      fun _ => ChangedTo dpb Holds vol a (copied t.fcb dskmap extnum) (RewriteKeeps t)
        (dpb.dirmax.toNat + 1) s') s := by
  unfold renamePass
  rw [Routine.returns_bind, Routine.returns_gets]
  rcases hhead with ⟨k, -, hto, hat, hmatch, hdirloc⟩ | ⟨hto, hend⟩
  · have hwritable : (s.entry rofile).msb = false := by
      rw [hat.entry (by decide), changed_of_le (Nat.le_refl k)]
      exact hro k hat.le hmatch
    rw [hat.not_endofdir hvalid, if_neg Bool.false_ne_true]
    unfold checkrodir checkrofile
    simp only [Routine.returns_bind, Routine.returns_gets, hwritable, Bool.false_eq_true, if_false,
      Routine.returns_pure]
    refine Routine.returns_mono (rewrite_returns hworks hvalid hname hto hat hmatch hdirloc)
      fun _ s' hnext => ?_
    rw [Routine.returns_bind]
    exact hnext
  · rw [if_pos hend]
    exact hto

theorem indicatorsPass_returns (hworks : Works bios dpb Holds) (hvalid : dpb.Valid)
    (hname : NamesUser a)
    (hhead : ChangeHead bios dpb Holds vol a (copied t.fcb 0 extnum) (RewriteKeeps t) 0 s) :
    (indicatorsPass bios dpb).returns (fun o s' => o.elim
      (ChangeHead bios dpb Holds vol a (copied t.fcb 0 extnum) (RewriteKeeps t) 0 s' ∧
        entriesLeft dpb s' < entriesLeft dpb s)
      fun _ => ChangedTo dpb Holds vol a (copied t.fcb 0 extnum) (RewriteKeeps t)
        (dpb.dirmax.toNat + 1) s') s := by
  unfold indicatorsPass
  rw [Routine.returns_bind, Routine.returns_gets]
  rcases hhead with ⟨k, -, hto, hat, hmatch, hdirloc⟩ | ⟨hto, hend⟩
  · rw [hat.not_endofdir hvalid, if_neg Bool.false_ne_true]
    rw [Routine.returns_bind]
    refine Routine.returns_mono (rewrite_returns hworks hvalid hname hto hat hmatch hdirloc)
      fun _ s' hnext => ?_
    rw [Routine.returns_bind]
    exact hnext
  · rw [if_pos hend]
    exact hto

/-- The file control block of `rename`, with the user at the start of the second half. -/
def renamed (fcb : Nat → Byte) : Nat → Byte := Function.update fcb dskmap (fcb 0)

/-- After the search another file control block is given. -/
theorem SearchEnds.other_fcb (fcb : Nat → Byte)
    (hends : SearchEnds bios dpb Holds vol c a l n t s) :
    SearchEnds bios dpb Holds vol c a l n { s with fcb := fcb } { s with fcb := fcb } := by
  obtain ⟨-, hmounted, hsearchl, hsearcha, hfound⟩ := hends
  refine ⟨rfl, ⟨⟨hmounted.holds, hmounted.onTrack, hmounted.dma, hmounted.rodsk⟩,
    hmounted.checked, hmounted.ends⟩, hsearchl, hsearcha, ?_⟩
  rcases hfound with ⟨k, hk, hcur⟩ | hnone
  · have hat := hcur.current
    exact Or.inl ⟨k, hk, ⟨⟨hat.drec, hat.buff, hat.holds⟩, hat.le, hat.dcnt, hat.dptr⟩,
      hcur.found, hcur.first, hcur.lret, hcur.dirloc⟩
  · exact Or.inr ⟨hnone.none, hnone.ended, hnone.lret, hnone.dirloc⟩

/-- `rename` returns, unless an entry of the file is read-only. -/
theorem rename_returns (hworks : Works bios dpb Holds) (hvalid : dpb.Valid)
    (hmounted : Mounted dpb Holds vol s) (hname : NamesUser s.fcb)
    (hro : ∀ k ≤ dpb.dirmax.toNat, matchesFcb dpb extnum s.fcb (vol.dir k) = true →
      (vol.dir k rofile).msb = false) :
    (rename bios dpb).returns (fun _ s' =>
      Mounted dpb Holds (rewritten dpb s.fcb (renamed s.fcb) dskmap vol (dpb.dirmax.toNat + 1)) s' ∧
      RewriteKeeps { s with fcb := renamed s.fcb } (dpb.dirmax.toNat + 1) s') s := by
  unfold rename checkwrite
  simp only [Routine.returns_bind, Routine.returns_gets, hmounted.rodsk, Bool.false_eq_true,
    if_false, Routine.returns_pure]
  refine Routine.returns_mono (search_returns hworks hvalid hmounted (by decide))
    fun _ s₁ hends => ?_
  have hmoved := hends.1
  have hfcb : s₁.fcb = s.fcb := by
    rw [hmoved]
  rw [Routine.returns_bind, Routine.returns_modify, hfcb]
  have hkept : RewriteKeeps { s with fcb := renamed s.fcb } 0 { s₁ with fcb := renamed s.fcb } := by
    rw [hmoved]
    exact ⟨rfl, rfl, rfl⟩
  have hzero : changed dpb s.fcb (copied (renamed s.fcb) dskmap extnum) vol 0 = vol := changed_zero
  have hhead := changeHead_of_search hname (rewriteKeeps { s with fcb := renamed s.fcb })
    (Nat.zero_le _) hkept (hzero.symm ▸ SearchEnds.other_fcb (renamed s.fcb) hends)
  exact Routine.returns_mono
    (changes_return hvalid (fun _ hs' => renamePass_returns hworks hvalid hname hro
      (t := { s with fcb := renamed s.fcb }) hs') hhead)
    fun _ _ hto => ⟨hto.mounted, hto.kept⟩

/-- `indicators` returns. -/
theorem indicators_returns (hworks : Works bios dpb Holds) (hvalid : dpb.Valid)
    (hmounted : Mounted dpb Holds vol s) (hname : NamesUser s.fcb) :
    (indicators bios dpb).returns (fun _ s' =>
      Mounted dpb Holds (rewritten dpb s.fcb s.fcb 0 vol (dpb.dirmax.toNat + 1)) s' ∧
      RewriteKeeps s (dpb.dirmax.toNat + 1) s') s := by
  unfold indicators
  simp only [Routine.returns_bind, Routine.returns_gets]
  refine Routine.returns_mono (search_returns hworks hvalid hmounted (by decide))
    fun _ s₁ hends => ?_
  have hkept : RewriteKeeps s 0 s := ⟨rfl, rfl, rfl⟩
  have hzero : changed dpb s.fcb (copied s.fcb 0 extnum) vol 0 = vol := changed_zero
  have hhead := changeHead_of_search hname (rewriteKeeps s) (Nat.zero_le _) hkept
    (hzero.symm ▸ hends)
  exact Routine.returns_mono
    (changes_return hvalid (fun s' hs' => indicatorsPass_returns hworks hvalid hname hs') hhead)
    fun _ _ hto => ⟨hto.mounted, hto.kept⟩

end Renaming

end Bdos
end Rc700
