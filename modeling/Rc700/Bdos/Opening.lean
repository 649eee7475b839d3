import Rc700.Bdos.Making

/-!
# The file system: opening a file

`open` looks for the entry with the name and the extent of the file control block and copies it to
the file control block.  The extent number that the program gave stays, and the record count is
made to go with it.
-/

namespace Rc700
namespace Bdos

open Library

section Code

variable {D : Type} (bios : Bios D) (dpb : Dpb)

/-- The records of an extent, as the directory has them: all 128 if the directory is further on,
none if it is not there yet. -/
def extentRecords (fcb e : Nat → Byte) : Byte :=
  if e extnum = fcb extnum then e reccnt else if e extnum < fcb extnum then 0#8 else 128#8

/-- `open$copy` -/
def opencopy : Code D Unit := do
  let ext ← Routine.gets fun s : State D => s.fcb extnum
  let e ← Routine.gets State.entry
  Routine.modify fun s => { s with fcb := copied e 0 nxtrec s.fcb }
  setfwf
  Routine.modify fun s => { s with fcb := Function.update s.fcb extnum ext }
  Routine.modify fun s =>
    { s with fcb := Function.update s.fcb reccnt (extentRecords s.fcb e) }

/-- `open` -/
def openFile : Code D Unit := do
  search bios dpb namlen (← Routine.gets State.fcb)
  if (← Routine.gets endofdir) then pure ()
  else opencopy

end Code

section Opening

variable {D : Type} {bios : Bios D} {dpb : Dpb}
  {Holds : D → Word × Word → (Nat → Option Record) → Prop} {vol : Volume} {s : State D}

/-- The file control block of a file that is open: of the entry, but for the extent. -/
structure Opened (fcb e fcb' : Nat → Byte) : Prop where
  extent : fcb' extnum = fcb extnum
  flag : fcb' modnum = e modnum ||| fwfmsk
  records : fcb' reccnt = extentRecords fcb e
  entry : ∀ i < fcblen, i ≠ extnum → i ≠ modnum → i ≠ reccnt → fcb' i = e i
  behind : ∀ i, fcblen ≤ i → fcb' i = fcb i

theorem opencopy_returns :
    (opencopy : Code D Unit).returns (fun _ s' =>
      s' = { s with fcb := s'.fcb } ∧ Opened s.fcb s.entry s'.fcb) s := by
  unfold opencopy setfwf
  simp only [Routine.returns_bind, Routine.returns_gets, Routine.returns_modify]
  refine ⟨trivial, ?_, ?_, ?_, fun i hi hext hmod hrec => ?_, fun i hi => ?_⟩
  · rw [Function.update_of_ne (by decide), Function.update_self]
  · rw [Function.update_of_ne (by decide), Function.update_of_ne (by decide)]
    exact Function.update_self ..
  · rw [Function.update_self]
    unfold extentRecords
    rw [Function.update_self]
  · rw [Function.update_of_ne hrec, Function.update_of_ne hext]
    unfold flagged
    rw [Function.update_of_ne hmod]
    unfold copied
    rw [if_pos (show i < nxtrec from hi), Nat.zero_add]
  · have hne : i ≠ reccnt ∧ i ≠ extnum ∧ i ≠ modnum := by
      unfold reccnt extnum modnum fcblen at *
      omega
    rw [Function.update_of_ne hne.1, Function.update_of_ne hne.2.1]
    unfold flagged
    rw [Function.update_of_ne hne.2.2]
    exact if_neg (Nat.not_lt.mpr hi)

theorem Opened.congr {fcb e e' fcb' : Nat → Byte} (h : Opened fcb e fcb')
    (he : ∀ i < fcblen, e i = e' i) : Opened fcb e' fcb' where
  extent := h.extent
  flag := (he modnum (by decide)) ▸ h.flag
  records := by
    rw [h.records]
    unfold extentRecords
    rw [he extnum (by decide), he reccnt (by decide)]
  entry i hi hext hmod hrec := (h.entry i hi hext hmod hrec).trans (he i hi)
  behind := h.behind

/-- `open` returns with the first entry of the extent, or there is none. -/
theorem open_returns (hworks : Works bios dpb Holds) (hvalid : dpb.Valid)
    (hmounted : Mounted dpb Holds vol s) :
    (openFile bios dpb).returns (fun _ s' =>
      Mounted dpb Holds vol s' ∧ s'.tables = s.tables ∧ s'.data = s.data ∧
      ((∃ k, Found bios dpb Holds vol namlen s.fcb 0 k s' ∧ Opened s.fcb (vol.dir k) s'.fcb) ∨
        NotFound dpb vol namlen s.fcb 0xFF#8 0 s' ∧ s'.fcb = s.fcb)) s := by
  unfold openFile
  rw [Routine.returns_bind, Routine.returns_gets, Routine.returns_bind]
  refine Routine.returns_mono (search_returns hworks hvalid hmounted (by decide))
    fun _ s₁ hends => ?_
  obtain ⟨hmoved, hmounted₁, -, -, hfound⟩ := hends
  have hkept : s₁.tables = s.tables ∧ s₁.fcb = s.fcb ∧ s₁.data = s.data := by
    rw [hmoved]
    exact ⟨rfl, rfl, rfl⟩
  rw [Routine.returns_bind, Routine.returns_gets]
  rcases hfound with ⟨k, -, hk⟩ | hnone
  · have hat := hk.current
    rw [hat.not_endofdir hvalid, if_neg Bool.false_ne_true]
    refine Routine.returns_mono opencopy_returns fun _ s₂ hcopied => ?_
    obtain ⟨heq, hopened⟩ := hcopied
    rw [hkept.2.1] at hopened
    refine ⟨?_, ?_, ?_, Or.inl ⟨k, ?_, hopened.congr fun i hi => hat.entry hi⟩⟩
    · rw [heq]
      exact ⟨⟨hmounted₁.holds, hmounted₁.onTrack, hmounted₁.dma, hmounted₁.rodsk⟩,
        hmounted₁.checked, hmounted₁.ends⟩
    · rw [heq]
      exact hkept.1
    · rw [heq]
      exact hkept.2.2
    · rw [heq]
      exact ⟨⟨⟨hat.drec, hat.buff, hat.holds⟩, hat.le, hat.dcnt, hat.dptr⟩, hk.found, hk.first,
        hk.lret, hk.dirloc⟩
  · rw [if_pos hnone.ended]
    exact ⟨hmounted₁, hkept.1, hkept.2.2, Or.inr ⟨hnone, hkept.2.1⟩⟩

end Opening

end Bdos
end Rc700
