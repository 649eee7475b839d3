import Rc700.Bdos.Changing

/-!
# The file system: making a file

`make` looks for an entry that is available, copies the file control block of the new file to it
and writes the directory record back.  Writing a part of a file control block to the current entry
is `copy$dir`, and its rule `copydir_returns` is for any part.
-/

namespace Rc700
namespace Bdos

open Library

/-! ### The code -/

/-- file write flag is high order `modnum` -/
def fwfmsk : Byte := 0x80#8

/-- `efcb`, an available directory entry.  Only the first byte is looked at. -/
def efcb : Nat → Byte := fun _ => empty

/-- The file control block with the remainder and the `ubytes` cleared -/
def cleared (fcb : Nat → Byte) : Nat → Byte := fun i =>
  if i = ubytes ∨ (namlen ≤ i ∧ i < fcblen) then 0#8 else fcb i

/-- The file control block with the file write flag set -/
def flagged (fcb : Nat → Byte) : Nat → Byte :=
  Function.update fcb modnum (fcb modnum ||| fwfmsk)

section Code

variable {D : Type} (bios : Bios D) (dpb : Dpb)

/-- `setfwf` -/
def setfwf : Code D Unit := Routine.modify fun s => { s with fcb := flagged s.fcb }

/-- `make` -/
def make : Code D Unit := do
  checkwrite
  search bios dpb 1 efcb
  if (← Routine.gets endofdir) then pure ()
  else do
    Routine.modify fun s => { s with fcb := cleared s.fcb }
    -- it may have extended the directory
    setcdr
    copydir bios dpb 0 fcblen
    setfwf

end Code

section Making

variable {D : Type} {bios : Bios D} {dpb : Dpb}
  {Holds : D → Word × Word → (Nat → Option Record) → Prop} {vol vol' : Volume} {s : State D}
  {k : Nat}

/-! ### The current entry is written -/

/-- The entry with so many bytes of the file control block at its start. -/
def copied (fcb : Nat → Byte) (c n : Nat) (e : Nat → Byte) : Nat → Byte := fun i =>
  if i < n then fcb (c + i) else e i

/-- The buffer with the entry changed. -/
theorem copied_buff (hat : At bios dpb Holds vol k s) {fcb : Nat → Byte} {c n : Nat}
    (hn : n ≤ fcblen) {i : Nat} (hi : i < 128) :
    (if s.access.dptr.toNat ≤ i ∧ i < s.access.dptr.toNat + n then
        fcb (c + (i - s.access.dptr.toNat)) else s.io.buff i) =
      (vol.put k (copied fcb c n (vol.dir k))).dir (dirrec * (k / dirrec) + i / fcblen)
        (i % fcblen) := by
  have hdptr := hat.dptr
  by_cases hentry : dirrec * (k / dirrec) + i / fcblen = k
  · have hplace : i = s.access.dptr.toNat + i % fcblen := by
      unfold dirrec fcblen at *
      omega
    have hput : (vol.put k (copied fcb c n (vol.dir k))).dir k = copied fcb c n (vol.dir k) :=
      Function.update_self ..
    rw [hentry, hput]
    unfold copied
    by_cases hin : i % fcblen < n
    · rw [if_pos hin, if_pos ⟨by omega, by omega⟩]
      congr 2
      omega
    · rw [if_neg hin, if_neg (by omega), hat.buff i hi, hentry]
  · have hout : ¬ (s.access.dptr.toNat ≤ i ∧ i < s.access.dptr.toNat + n) := by
      unfold dirrec fcblen at *
      omega
    rw [if_neg hout, hat.buff i hi, (put_sameBut vol k _).2 _ hentry]

/-- `copy$dir` writes the current entry. -/
theorem copydir_returns (hworks : Works bios dpb Holds) (hvalid : dpb.Valid)
    (hready : Ready dpb Holds vol s) (hat : At bios dpb Holds vol k s) {c n : Nat}
    (hn : n ≤ fcblen) (hvol : vol' = vol.put k (copied s.fcb c n (vol.dir k))) :
    (copydir bios dpb c n).returns (fun _ s' =>
      s' = { s with
        io := s'.io, tables.check := s'.tables.check, access.drec := s'.access.drec } ∧
      Ready dpb Holds vol' s' ∧ At bios dpb Holds vol' k s' ∧
      ∀ r, Correct dpb vol s.tables r → Correct dpb vol' s'.tables r) s := by
  have hdirmax := hvalid.dirmax
  have hk := hat.le
  have hshift : s.access.dcnt >>> 2 = BitVec.ofNat 16 (k / dirrec) := by
    refine BitVec.eq_of_toNat_eq ?_
    rw [hat.dcnt, BitVec.toNat_ushiftRight, BitVec.toNat_ofNat, BitVec.toNat_ofNat,
      Nat.mod_eq_of_lt (by omega), Nat.shiftRight_eq_div_pow]
    unfold dirrec
    exact (Nat.mod_eq_of_lt (by omega)).symm
  have hdrec : (BitVec.ofNat 16 (k / dirrec)).toNat = k / dirrec := by
    rw [BitVec.toNat_ofNat]
    exact Nat.mod_eq_of_lt (by unfold dirrec; omega)
  unfold copydir seekcopy
  rw [Routine.returns_bind, Routine.returns_modify, Routine.returns_bind]
  refine (Routine.returns_run (seekdir_run hvalid.sectpt (by exact hready.onTrack))).mpr ?_
  have hsought := holds_sought hworks (s := { s with
    io.arecord := s.access.dcnt >>> 2 }) hat.holds
  simp only [hshift, hdrec] at hsought ⊢
  refine Routine.returns_mono (wrdir_returns hworks hvalid
    ⟨⟨_, hsought⟩, Io.onTrack_sought _, hready.dma, hready.rodsk⟩
    (hvol ▸ put_sameBut vol k _) hk rfl (fun i hi => ?_) hsought) fun _ s' hwritten => ?_
  · rw [hvol]
    exact copied_buff hat hn hi
  · obtain ⟨heq, hready', hbuffered, hcorrect⟩ := hwritten
    refine ⟨?_, hready', ⟨hbuffered, hk, ?_, ?_⟩, hcorrect⟩
    · rw [heq]
    · rw [heq]
      exact hat.dcnt
    · rw [heq]
      exact hat.dptr

/-- `setcdr`, at an entry: `cdrmax` is behind it, and not before where it was. -/
theorem setcdr_returns (hvalid : dpb.Valid) (hk : k ≤ dpb.dirmax.toNat)
    (hdcnt : s.access.dcnt = BitVec.ofNat 16 k) :
    setcdr.returns (fun _ s' => s' = { s with tables.cdrmax := s'.tables.cdrmax } ∧
      s.tables.cdrmax.toNat ≤ s'.tables.cdrmax.toNat ∧ k < s'.tables.cdrmax.toNat) s := by
  have hdirmax := hvalid.dirmax
  have hnat : s.access.dcnt.toNat = k := by
    rw [hdcnt, BitVec.toNat_ofNat]
    exact Nat.mod_eq_of_lt (by omega)
  unfold setcdr
  rw [Routine.returns_modify]
  split
  · next hcarry =>
      have hlt : s.access.dcnt.toNat < s.tables.cdrmax.toNat := of_decide_eq_true hcarry
      exact ⟨rfl, Nat.le_refl _, hnat ▸ hlt⟩
  · next hcarry =>
      have hge : s.tables.cdrmax.toNat ≤ s.access.dcnt.toNat :=
        BitVec.not_lt.mp fun h => hcarry (decide_eq_true h)
      have hnext : (s.access.dcnt + 1#16).toNat = k + 1 := by
        rw [BitVec.toNat_add_of_lt (by rw [BitVec.toNat_ofNat]; omega), hnat]
        rfl
      refine ⟨rfl, ?_, ?_⟩
      · show _ ≤ (s.access.dcnt + 1#16).toNat
        omega
      · show _ < (s.access.dcnt + 1#16).toNat
        omega

/-! ### The entry of a new file -/

/-- The first byte of an available entry, but for its high order bit. -/
theorem matches_efcb (e : Nat → Byte) : matchesFcb dpb 1 efcb e = (e 0 &&& 0x7F#8 == 0x65#8) := by
  have hbyte : ∀ u : Byte, ((empty - u) &&& 0x7F#8 == 0#8) = (u &&& 0x7F#8 == 0x65#8) := by
    decide
  have hone : matchesFcb dpb 1 efcb e = matchesAt dpb efcb e 0 := by
    unfold matchesFcb
    exact Bool.and_true _
  rw [hone]
  unfold matchesAt efcb
  rw [if_neg (by decide), if_neg (by decide), if_neg (by decide)]
  exact hbyte (e 0)

/-- The new entry, and what is in it. -/
def entered (fcb : Nat → Byte) (e : Nat → Byte) : Nat → Byte := copied (cleared fcb) 0 fcblen e

/-- A file was made in entry `k`. -/
structure Made (bios : Bios D) (dpb : Dpb)
    (Holds : D → Word × Word → (Nat → Option Record) → Prop) (vol : Volume) (fcb : Nat → Byte)
    (k : Nat) (s : State D) : Prop where
  available : matchesFcb dpb 1 efcb (vol.dir k) = true
  first : ∀ i < k, matchesFcb dpb 1 efcb (vol.dir i) = false
  mounted : Mounted dpb Holds (vol.put k (entered fcb (vol.dir k))) s
  current : At bios dpb Holds (vol.put k (entered fcb (vol.dir k))) k s
  fcb : s.fcb = flagged (cleared fcb)
  lret : s.lret.toNat = k % dirrec

/-- No file was made. -/
structure NoSpace (dpb : Dpb) (Holds : D → Word × Word → (Nat → Option Record) → Prop)
    (vol : Volume) (fcb : Nat → Byte) (s : State D) : Prop where
  none : ∀ k ≤ dpb.dirmax.toNat, matchesFcb dpb 1 efcb (vol.dir k) = false
  mounted : Mounted dpb Holds vol s
  fcb : s.fcb = fcb
  lret : s.lret = 255#8

theorem make_returns (hworks : Works bios dpb Holds) (hvalid : dpb.Valid)
    (hmounted : Mounted dpb Holds vol s) :
    (make bios dpb).returns (fun _ s' =>
      s'.tables.alloc = s.tables.alloc ∧ s'.data = s.data ∧
      ((∃ k, Made bios dpb Holds vol s.fcb k s') ∨ NoSpace dpb Holds vol s.fcb s')) s := by
  unfold make checkwrite
  simp only [Routine.returns_bind, Routine.returns_gets, hmounted.rodsk, Bool.false_eq_true,
    if_false, Routine.returns_pure]
  refine Routine.returns_mono (search_returns hworks hvalid hmounted (by decide))
    fun _ s₁ hends => ?_
  obtain ⟨hmoved, hmounted₁, -, -, hfound⟩ := hends
  have hkept : s₁.tables = s.tables ∧ s₁.fcb = s.fcb ∧ s₁.data = s.data := by
    rw [hmoved]
    exact ⟨rfl, rfl, rfl⟩
  obtain ⟨htables, hfcb, hdata⟩ := hkept
  rw [Routine.returns_bind, Routine.returns_gets]
  rcases hfound with ⟨k, -, hk⟩ | hnone
  · have hat := hk.current
    rw [hat.not_endofdir hvalid, if_neg Bool.false_ne_true]
    rw [Routine.returns_bind, Routine.returns_modify, Routine.returns_bind]
    refine Routine.returns_mono (setcdr_returns hvalid hat.le (by exact hat.dcnt))
      fun _ s₂ hset => ?_
    obtain ⟨heq₂, hcdr, hbehind⟩ := hset
    have hready₂ : Ready dpb Holds vol s₂ := by
      rw [heq₂]
      exact ⟨hmounted₁.holds, hmounted₁.onTrack, hmounted₁.dma, hmounted₁.rodsk⟩
    have hat₂ : At bios dpb Holds vol k s₂ := by
      rw [heq₂]
      exact ⟨⟨hat.drec, hat.buff, hat.holds⟩, hat.le, hat.dcnt, hat.dptr⟩
    have hfcb₂ : s₂.fcb = cleared s.fcb := by
      rw [heq₂, ← hfcb]
    rw [Routine.returns_bind]
    refine Routine.returns_mono (copydir_returns hworks hvalid hready₂ hat₂ (Nat.le_refl _)
      (congrArg (fun f => vol.put k (copied f 0 fcblen (vol.dir k))) hfcb₂.symm))
      fun _ s₃ hcopied => ?_
    obtain ⟨heq₃, hready₃, hat₃, hcorrect⟩ := hcopied
    unfold setfwf
    rw [Routine.returns_modify]
    have htables₃ : s₃.tables.alloc = s₁.tables.alloc ∧ s₃.tables.cdrmax = s₂.tables.cdrmax := by
      rw [heq₃, heq₂]
      exact ⟨rfl, rfl⟩
    refine ⟨htables₃.1.trans (congrArg Tables.alloc htables), ?_,
      Or.inl ⟨k, hk.found, fun i hi => hk.first i (Nat.zero_le i) hi, ?_, ?_, ?_, ?_⟩⟩
    · rw [heq₃, heq₂]
      exact hdata
    · refine ⟨⟨hready₃.holds, hready₃.onTrack, hready₃.dma, hready₃.rodsk⟩, fun r hr => ?_,
        fun j hj hle => ?_⟩
      · refine hcorrect r ?_
        rw [heq₂]
        exact hmounted₁.checked r hr
      · have hj' : s₂.tables.cdrmax.toNat ≤ j := htables₃.2 ▸ hj
        rw [(put_sameBut vol k _).2 j (by omega)]
        exact hmounted₁.ends j (hcdr.trans hj') hle
    · exact ⟨⟨hat₃.drec, hat₃.buff, hat₃.holds⟩, hat₃.le, hat₃.dcnt, hat₃.dptr⟩
    · show flagged s₃.fcb = _
      rw [heq₃]
      show flagged s₂.fcb = _
      rw [hfcb₂]
    · show s₃.lret.toNat = _
      rw [heq₃, heq₂]
      exact hk.lret
  · rw [if_pos hnone.ended]
    exact ⟨congrArg Tables.alloc htables, hdata, Or.inr
      ⟨fun j hj => hnone.none j (Nat.zero_le j) hj (Or.inl rfl), hmounted₁, hfcb, hnone.lret⟩⟩

end Making

end Bdos
end Rc700
