import Rc700.Disk.Reporting

/-!
# What may be written to the disk after a failure

The log tells where every slot of the host buffer comes from: the caller wrote
it since the buffer was tagged (`put`), the read that filled the buffer
delivered it (`fetched`), or it lies in a dead block and nothing was promised
about it.  A buffer all of whose slots are accounted for is an *image* of the
tagged sector.

A failed pre-read leaves a buffer that is no image, and `rwoper` still marks it
dirty; `HOME` then writes it: `failedPreRead_is_written`.  As long as every
pre-read of a write succeeds, only images are written, whatever else fails.
-/

namespace Rc700
namespace Disk

open Library

variable {table : DriveTable} {fdc : Nat → Attempt} {m m' : Machine} {log : List Event}
  {host : HostSector} {buffer : Nat → Byte} {r : Rec} {k : Nat} {bytes : Record}

/-! ### Where the bytes come from -/

/-- The slot was written by the caller since the buffer was tagged, or came
with the read that filled the buffer. -/
def Accounted (table : DriveTable) (host : HostSector) (k : Nat) (bytes : Record) :
    List Event → Prop
  | [] => False
  | .put r data :: log =>
      if r = host.record (table.format host.disk) k then bytes = data
      else Accounted table host k bytes log
  | .fetched host' data :: _ => host' = host ∧ slotOf data k = bytes
  | .fetchFailed _ :: _ => False
  | .tagged host' _ :: log => host' = host ∧ Accounted table host k bytes log
  | _ :: log => Accounted table host k bytes log

/-- The record lies in a block that was declared dead, and was not written
since. -/
def Dead (table : DriveTable) (r : Rec) : List Event → Prop
  | [] => False
  | .writeCall q .wrual _ :: log => SameBlock table q r ∨ Dead table r log
  | .put q _ :: log => q ≠ r ∧ Dead table r log
  | _ :: log => Dead table r log

/-- The contents of one slot are explained. -/
def Sound (table : DriveTable) (host : HostSector) (k : Nat) (bytes : Record)
    (log : List Event) : Prop :=
  Accounted table host k bytes log ∨
    Dead table (host.record (table.format host.disk) k) log

/-- The buffer is an image of the host sector. -/
def Image (table : DriveTable) (host : HostSector) (buffer : Nat → Byte)
    (log : List Event) : Prop :=
  ∀ k, k < slots (table.format host.disk) → Sound table host k (slotOf buffer k) log

/-- Only images were written to the disk. -/
def StoresImages (table : DriveTable) : List Event → Prop
  | [] => True
  | .stored host data :: log => Image table host data log ∧ StoresImages table log
  | _ :: log => StoresImages table log

theorem StoresImages.stored (hlog : StoresImages table log) {data : Nat → Byte}
    {earlier : List Event} (hstored : (.stored host data :: earlier) <:+ log) :
    Image table host data earlier := by
  induction log with
  | nil => exact absurd hstored (by simp)
  | cons e log ih =>
      rcases List.suffix_cons_iff.mp hstored with heq | hlater
      · cases heq
        exact hlog.1
      · refine ih ?_ hlater
        cases e with
        | stored host data => exact hlog.2
        | _ => exact hlog

/-- Events that change neither the buffer nor its tag. -/
def Event.inert : Event → Bool
  | .stored _ _ => true
  | .storeFailed _ => true
  | .writeCall _ _ _ => true
  | .writeDone _ _ _ _ => true
  | .readDone _ _ _ => true
  | _ => false

theorem Dead.cons {e : Event} (he : ∀ data, e ≠ .put r data) (hdead : Dead table r log) :
    Dead table r (e :: log) := by
  cases e with
  | put q data =>
      refine ⟨?_, hdead⟩
      rintro rfl
      exact he data rfl
  | writeCall q wt data =>
      cases wt with
      | wrual => exact Or.inr hdead
      | _ => exact hdead
  | _ => exact hdead

theorem Sound.cons_inert {e : Event} (he : e.inert = true)
    (hsound : Sound table host k bytes log) : Sound table host k bytes (e :: log) := by
  rcases hsound with hacc | hdead
  · left
    cases e with
    | stored host' data => exact hacc
    | storeFailed host' => exact hacc
    | writeCall q wt data => exact hacc
    | writeDone q wt data code => exact hacc
    | readDone q code data => exact hacc
    | _ => exact absurd he Bool.false_ne_true
  · right
    refine hdead.cons ?_
    rintro data rfl
    exact absurd he Bool.false_ne_true

theorem Image.cons_inert {e : Event} (he : e.inert = true)
    (himage : Image table host buffer log) : Image table host buffer (e :: log) :=
  fun k hk => (himage k hk).cons_inert he

/-- Tagging the buffer again with the same host sector. -/
theorem Sound.cons_tagged {preRead : Bool} (hsound : Sound table host k bytes log) :
    Sound table host k bytes (.tagged host preRead :: log) := by
  rcases hsound with hacc | hdead
  · exact Or.inl ⟨rfl, hacc⟩
  · exact Or.inr hdead

/-! ### The transfers -/

/-- Writing an image. -/
theorem wrthst_image (fdc : Nat → Attempt) (hstores : StoresImages table m.log)
    (himage : Image table m.hostbuf m.hstbuf m.log) :
    (wrthst fdc m).hostbuf = m.hostbuf ∧ (wrthst fdc m).hstbuf = m.hstbuf ∧
      StoresImages table (wrthst fdc m).log ∧
      Image table m.hostbuf m.hstbuf (wrthst fdc m).log := by
  obtain ⟨n, disk, heq, _⟩ := wrthst_eq fdc m
  rw [heq]
  refine ⟨rfl, rfl, ?_⟩
  show StoresImages table (_ ++ .stored m.hostbuf m.hstbuf :: m.log) ∧
    Image table m.hostbuf m.hstbuf (_ ++ .stored m.hostbuf m.hstbuf :: m.log)
  have himage' : Image table m.hostbuf m.hstbuf (.stored m.hostbuf m.hstbuf :: m.log) :=
    himage.cons_inert rfl
  cases completes fdc 10 m.attempts
  · exact ⟨⟨himage, hstores⟩, himage'.cons_inert rfl⟩
  · exact ⟨⟨himage, hstores⟩, himage'⟩

theorem dead_wrthst (fdc : Nat → Attempt) (hdead : Dead table r m.log) :
    Dead table r (wrthst fdc m).log := by
  rw [(wrthst_log fdc m).1]
  cases completes fdc 10 m.attempts <;> exact hdead

theorem sound_wrthst (fdc : Nat → Attempt) (hsound : Sound table host k bytes m.log) :
    Sound table host k bytes (wrthst fdc m).log := by
  rw [(wrthst_log fdc m).1]
  have hstored : Sound table host k bytes (.stored m.hostbuf m.hstbuf :: m.log) :=
    hsound.cons_inert rfl
  cases completes fdc 10 m.attempts
  · exact hstored.cons_inert rfl
  · exact hstored

/-- Flushing the buffer before it is reused. -/
theorem flushHost_image (fdc : Nat → Attempt) (hstores : StoresImages table m.log)
    (himage : m.hostbufValid = true ∨ m.hostbufDirty = true →
      Image table m.hostbuf m.hstbuf m.log) :
    (flushHost fdc m).hostbuf = m.hostbuf ∧ (flushHost fdc m).hstbuf = m.hstbuf ∧
      StoresImages table (flushHost fdc m).log ∧
      (∀ host k bytes, Sound table host k bytes m.log →
        Sound table host k bytes (flushHost fdc m).log) ∧
      (∀ r, Dead table r m.log → Dead table r (flushHost fdc m).log) := by
  unfold flushHost
  split
  · rename_i hflush
    obtain ⟨hhostbuf, hhstbuf, hstores', _⟩ :=
      wrthst_image fdc hstores (himage (Or.inl hflush.1))
    exact ⟨hhostbuf, hhstbuf, hstores', fun _ _ _ hsound => sound_wrthst fdc hsound,
      fun _ hdead => dead_wrthst fdc hdead⟩
  · exact ⟨rfl, rfl, hstores, fun _ _ _ h => h, fun _ h => h⟩

/-! ### Writing a record -/

/-- Filling the buffer with a successful read. -/
theorem rdhst_image (table : DriveTable) (fdc : Nat → Attempt)
    (hdone : completes fdc 10 m.attempts = true) :
    Image table m.hostbuf (rdhst fdc m).hstbuf (rdhst fdc m).log := by
  intro k _
  rw [(rdhst_log fdc m).1, if_pos hdone]
  exact Or.inl ⟨rfl, rfl⟩

/-- The host sector is selected for a write: all slots but the one about to be
written are explained. -/
theorem selectHost_image (fdc : Nat → Attempt) (hwf : Wf table m)
    (hlegal : m.request.Legal (table.format m.cpmDisk))
    (hstores : StoresImages table m.log)
    (himage : m.hostbufValid = true ∨ m.hostbufDirty = true →
      Image table m.hostbuf m.hstbuf m.log)
    (hfetch : m.needPreRead = true →
      ¬ (m.hostbufValid = true ∧ m.request.host (table.format m.cpmDisk) = m.hostbuf) →
      completes fdc 10 (flushHost fdc (locateHost m)).attempts = true)
    (hclaim : m.needPreRead = false → ∀ k, k < slots (table.format m.cpmDisk) →
      k ≠ m.request.slot (table.format m.cpmDisk) →
      Sound table (m.request.host (table.format m.cpmDisk)) k (slotOf m.hstbuf k) m.log) :
    StoresImages table (selectHost fdc m).log ∧
      (∀ k, k < slots (table.format m.cpmDisk) →
        k ≠ m.request.slot (table.format m.cpmDisk) →
        Sound table (m.request.host (table.format m.cpmDisk)) k
          (slotOf (selectHost fdc m).hstbuf k) (selectHost fdc m).log) ∧
      (∀ r, Dead table r m.log → Dead table r (selectHost fdc m).log) := by
  rw [selectHost_eq fdc hwf.selected hlegal]
  split
  · rename_i hhit
    refine ⟨hstores, fun k hk _ => ?_, fun _ h => h⟩
    rw [hhit.2]
    refine himage (Or.inl hhit.1) k ?_
    rw [← hhit.2]
    exact hk
  · rename_i hmiss
    obtain ⟨hhostbuf, hhstbuf, hstores1, hsound1, hdead1⟩ :=
      flushHost_image (m := locateHost m) fdc hstores himage
    have hneed := (flushHost_presents fdc (fun _ => none) hwf.locateHost).2.2.2.1
    -- what the flush keeps, before its result becomes a variable
    change _ = m.needPreRead at hneed
    change _ = m.hstbuf at hhstbuf
    generalize flushHost fdc (locateHost m) = m1 at *
    unfold fillHost
    by_cases hpre : m1.needPreRead = true
    · rw [if_pos (show (tagHost _ m1).needPreRead = true from hpre)]
      have hdone := hfetch (hneed.symm.trans hpre) hmiss
      have hread := rdhst_image table
        (m := tagHost (m.request.host (table.format m.cpmDisk)) m1) fdc hdone
      refine ⟨?_, fun k hk _ => hread k hk, fun r hdead => ?_⟩
      · show StoresImages table (rdhst fdc _).log
        rw [(rdhst_log fdc _).1]
        split <;> exact hstores1
      · show Dead table r (rdhst fdc _).log
        rw [(rdhst_log fdc _).1]
        split <;> exact hdead1 r hdead
    · rw [if_neg (show ¬ (tagHost _ m1).needPreRead = true from hpre)]
      refine ⟨hstores1, fun k hk hne => ?_, fun r hdead => hdead1 r hdead⟩
      apply Sound.cons_tagged
      have hold := hclaim (hneed.symm.trans (Bool.eq_false_of_not_eq_true hpre)) k hk hne
      rw [← hhstbuf] at hold
      exact hsound1 _ _ _ hold

/-- Copying the caller's record completes the image. -/
theorem moveRecord_image (hsp : m.sp = fspa (table.format m.cpmDisk))
    (hread : m.isRead = false)
    (hrest : ∀ k, k < slots (table.format m.cpmDisk) →
      k ≠ m.request.slot (table.format m.cpmDisk) →
      Sound table (m.request.host (table.format m.cpmDisk)) k (slotOf m.hstbuf k) m.log) :
    Image table (m.request.host (table.format m.cpmDisk)) (moveRecord m).hstbuf
      (moveRecord m).log := by
  have hlog : (moveRecord m).log = .put m.request m.dmaRecord :: m.log := by
    simp [moveRecord, hread]
  have hrecord : ∀ k, (m.request.host (table.format m.cpmDisk)).record
      (table.format m.cpmDisk) k = m.request → k < slots (table.format m.cpmDisk) →
      k = m.request.slot (table.format m.cpmDisk) := by
    intro k heq hk
    rw [← heq, HostSector.slot_record _ _ hk]
  intro k hk
  change k < slots (table.format m.cpmDisk) at hk
  rw [hlog]
  by_cases hslot : k = m.request.slot (table.format m.cpmDisk)
  · left
    have hsame : m.request = (m.request.host (table.format m.cpmDisk)).record
        (table.format m.cpmDisk) k := by
      rw [hslot, Rec.record_host_slot]
    refine (if_pos hsame).mpr ?_
    rw [hslot]
    exact moveRecord_write_hit hsp hread
  · have hne : m.request ≠ (m.request.host (table.format m.cpmDisk)).record
        (table.format m.cpmDisk) k := fun h => hslot (hrecord k h.symm hk)
    rw [moveRecord_write_miss hsp hread hslot]
    rcases hrest k hk hslot with hacc | hdead
    · left
      exact (if_neg hne).mpr hacc
    · right
      exact ⟨hne, hdead⟩

/-- The end of `rwoper` writes at most the image. -/
theorem finish_image (fdc : Nat → Attempt) (hstores : StoresImages table m.log)
    (himage : Image table m.hostbuf m.hstbuf m.log) :
    StoresImages table (finish fdc m).1.log ∧
      Image table m.hostbuf m.hstbuf (finish fdc m).1.log ∧
      (finish fdc m).1.hstbuf = m.hstbuf ∧
      (∀ r, Dead table r m.log → Dead table r (finish fdc m).1.log) := by
  by_cases herr : m.diskError = true
  · rw [finish_of_error herr]
    exact ⟨hstores, himage, rfl, fun _ h => h⟩
  · have herr' := Bool.eq_false_of_not_eq_true herr
    by_cases hdir : m.writeType = .wrdir
    · rw [finish_of_directory herr' hdir]
      obtain ⟨_, hhstbuf, hstores', himage'⟩ :=
        wrthst_image fdc (m := { m with hostbufDirty := false }) hstores himage
      exact ⟨hstores', himage', hhstbuf, fun r hdead => dead_wrthst fdc hdead⟩
    · rw [finish_of_ok herr' hdir]
      exact ⟨hstores, himage, rfl, fun _ h => h⟩

/-! ### Whole calls -/

/-- The rest of an open run is dead, and a host sector it has begun is in the
buffer. -/
def RunImage (table : DriveTable) (m : Machine) : Prop :=
  m.unallocCount ≠ 0 → ∀ q ∈ lastUnalloc m.log,
    (∀ r, SameBlock table q r →
      m.unalloc.index (table.format q.disk) ≤ r.index (table.format q.disk) →
      Dead table r m.log) ∧
    (m.unalloc.slot (table.format q.disk) ≠ 0 →
      Image table (m.unalloc.host (table.format q.disk)) m.hstbuf m.log)

/-- What holds between the calls of a program whose pre-reads succeed. -/
structure OnlyImages (table : DriveTable) (m : Machine) : Prop where
  accepting : Accepting table m
  stores : StoresImages table m.log
  image : m.hostbufValid = true ∨ m.hostbufDirty = true →
    Image table m.hostbuf m.hstbuf m.log
  run : RunImage table m

/-- The pre-read of a write, if one is needed, succeeds within the attempts of
`sec_rw`. -/
def PreReadSucceeds (table : DriveTable) (fdc : Nat → Attempt) (wt : WriteType)
    (m : Machine) : Prop :=
  (stepRun (openRun wt (noteWrite wt m))).needPreRead = true →
    ¬ (m.hostbufValid = true ∧ m.request.host (table.format m.cpmDisk) = m.hostbuf) →
    completes fdc 10 (flushHost fdc (locateHost
      (stepRun (openRun wt (noteWrite wt m))))).attempts = true

/-- The run that a write continues: where it stands, and what the buffer holds. -/
theorem openRun_image {wt : WriteType} (hm : OnlyImages table m)
    (hc : BlockAligned table m (.write wt))
    (hcontinues : (openRun wt (noteWrite wt m)).continuesRun = true) :
    ∃ q ∈ lastUnalloc (noteWrite wt m).log,
      RunShape table q (openRun wt (noteWrite wt m)) ∧
      (∀ r, SameBlock table q r →
        m.request.index (table.format q.disk) ≤ r.index (table.format q.disk) →
        Dead table r (noteWrite wt m).log) ∧
      Image table (m.request.host (table.format m.cpmDisk)) m.hstbuf
        (noteWrite wt m).log := by
  have hinv := hm.accepting.inv
  have hstays : StaysInBlock table m wt := hm.accepting.start.staysInBlock hinv
  rw [openRun_noteWrite] at hcontinues ⊢
  obtain ⟨q, hq, hrun, _⟩ := openRun_run hinv hc.addressed.2 hstays hcontinues
  refine ⟨q, hq, hrun.toRunShape.congr rfl rfl, ?_⟩
  -- without `wrual` the run is the one of the last call, and this is its next record
  have hrest : wt ≠ .wrual → m.unallocCount ≠ 0 ∧ m.request = m.unalloc := by
    intro hwt
    have h := continuesRun_iff.mp hcontinues
    simp only [openRun, hwt, if_false] at h
    exact h
  by_cases hwt : wt = .wrual
  · -- the whole block was just declared dead
    subst hwt
    cases hq
    have hdead : ∀ r, SameBlock table m.request r →
        Dead table r (noteWrite .wrual m).log := fun r hr => Or.inl hr
    have harea : m.request.InArea (table.format m.request.disk) := hc.addressed.2 rfl
    have hself : SameBlock table m.request m.request := SameBlock.refl harea
    refine ⟨fun r hr _ => hdead r hr, fun k hk => Or.inr (hdead _ ?_)⟩
    exact hself.of_host_eq (HostSector.host_record _ _ hk)
  · obtain ⟨hcount, hnext⟩ := hrest hwt
    have hq' : lastUnalloc m.log = some q := by
      cases wt with
      | wrual => exact absurd rfl hwt
      | _ => exact hq
    obtain ⟨hdead, himage⟩ := hm.run hcount q hq'
    obtain ⟨q', hq'', hrun'⟩ := hinv.run hcount
    have hqq : q = q' := Option.some.inj (hq'.symm.trans hq'')
    subst hqq
    have hblock := hrun'.toRunShape.sameBlock (hm.accepting.start q hq') hcount
    rw [← hnext] at hdead himage hblock
    have hdisk : q.disk = m.cpmDisk := hblock.1.symm
    have hnoted : ∀ r, Dead table r m.log → Dead table r (noteWrite wt m).log :=
      fun r h => h.cons (fun data h' => Event.noConfusion h')
    refine ⟨fun r hr hindex => hnoted r (hdead r hr hindex), ?_⟩
    rw [hdisk] at hdead himage
    by_cases hslot : m.request.slot (table.format m.cpmDisk) = 0
    · -- the first slot of a host sector: the others follow in the dead rest
      intro k hk
      right
      apply hnoted
      apply hdead
      · apply hblock.of_host_eq
        rw [hdisk]
        exact HostSector.host_record _ _ hk
      · have hindex := Rec.index_record (f := table.format m.cpmDisk) (p := m.request) k
        show _ ≤ ((m.request.host (table.format m.cpmDisk)).record
          (table.format m.cpmDisk) k).index _
        omega
    · exact (himage hslot).cons_inert rfl

/-- A write by the driver, before its answer is noted. -/
theorem xwrite_image (fdc : Nat → Attempt) {wt : WriteType} (hm : OnlyImages table m)
    (hc : BlockAligned table m (.write wt)) (hread : PreReadSucceeds table fdc wt m) :
    StoresImages table (xwrite fdc wt (noteWrite wt m)).1.log ∧
      Image table (m.request.host (table.format m.cpmDisk))
        (xwrite fdc wt (noteWrite wt m)).1.hstbuf
        (xwrite fdc wt (noteWrite wt m)).1.log ∧
      (∀ r, r ≠ m.request → Dead table r (noteWrite wt m).log →
        Dead table r (xwrite fdc wt (noteWrite wt m)).1.log) := by
  have hwf := hm.accepting.inv.wf
  have hlegal := hc.addressed.1
  have hsp : (noteWrite wt m).sp = fspa (table.format m.cpmDisk) := hwf.selected.sp
  have hneed := startWrite_needPreRead wt hsp
  have hstart := startWrite_eq wt (noteWrite wt m)
  have hcount := startWrite_unallocCount (m := noteWrite wt m) wt
  have hrun := openRun_image hm hc
  unfold PreReadSucceeds at hread
  unfold xwrite rwoper
  -- the machine when the run is open: the call, the buffer and the log of before
  generalize stepRun (openRun wt (noteWrite wt m)) = m0 at hneed hstart hcount hread ⊢
  have hrequest : m0.request = m.request := by rw [hstart]; rfl
  have hcpmDisk : m0.cpmDisk = m.cpmDisk := by rw [hstart]; rfl
  have hlog0 : m0.log = (noteWrite wt m).log := by rw [hstart]
  have hbuf0 : m0.hstbuf = m.hstbuf := by rw [hstart]; rfl
  have hwf0 : Wf table m0 := by
    rw [hstart]
    exact hwf.congr rfl
  have hstores0 : StoresImages table m0.log := by
    rw [hlog0]
    exact hm.stores
  have himage0 : m0.hostbufValid = true ∨ m0.hostbufDirty = true →
      Image table m0.hostbuf m0.hstbuf m0.log := by
    rw [hstart]
    intro h
    exact (hm.image h).cons_inert rfl
  have hclaim0 : m0.needPreRead = false → ∀ k, k < slots (table.format m0.cpmDisk) →
      k ≠ m0.request.slot (table.format m0.cpmDisk) →
      Sound table (m0.request.host (table.format m0.cpmDisk)) k (slotOf m0.hstbuf k)
        m0.log := by
    intro hpre k hk hne
    rw [hrequest, hcpmDisk] at hne ⊢
    rw [hcpmDisk] at hk
    rw [hneed] at hpre
    by_cases hslots : slots (table.format m.cpmDisk) = 1
    · -- a host sector of one record has no other slot
      have := Rec.slot_lt (table.format m.cpmDisk) m.request
      omega
    · have hcontinues : (openRun wt (noteWrite wt m)).continuesRun = true := by
        simpa [hslots] using hpre
      obtain ⟨_, _, _, _, himage⟩ := hrun hcontinues
      rw [hbuf0, hlog0]
      exact himage k hk
  have hhit0 : m0.hostbufValid = m.hostbufValid ∧ m0.hostbuf = m.hostbuf := by
    rw [hstart]
    exact ⟨rfl, rfl⟩
  obtain ⟨hstores1, hrest1, hdead1⟩ := selectHost_image fdc hwf0 (by
      rw [hrequest, hcpmDisk]; exact hlegal) hstores0 himage0 (by
      rw [hrequest, hcpmDisk, hhit0.1, hhit0.2]; exact hread) hclaim0
  -- nothing has to be demanded to know what `selectHost` leaves as it is
  have hsel : HostSelected table fdc (fun _ => none) m0 (selectHost fdc m0) := by
    refine selectHost_presents fdc hwf0 (by rw [hrequest, hcpmDisk]; exact hlegal)
      (fun _ => presents_none table m0) ?_ ?_
    · intro h
      rw [hneed] at h
      simp only [Bool.and_eq_true, Bool.not_eq_true'] at h
      exact hcount h.1
    · intro _ _ k v hdemand
      rw [demandOf_eq_some] at hdemand
      exact absurd hdemand.2.2 (by simp)
  have hisRead : (selectHost fdc m0).isRead = false := by
    rw [hsel.same.isRead, hstart]
  have hrequest1 : (selectHost fdc m0).request = m.request :=
    hsel.same.request.trans hrequest
  have hcpmDisk1 : (selectHost fdc m0).cpmDisk = m.cpmDisk :=
    hsel.same.cpmDisk.trans hcpmDisk
  have hhostbuf1 : (selectHost fdc m0).hostbuf =
      m.request.host (table.format m.cpmDisk) := by
    rw [hsel.hostbuf, hrequest, hcpmDisk]
  have hsp1 : (selectHost fdc m0).sp = fspa (table.format (selectHost fdc m0).cpmDisk) :=
    hsel.wf.selected.sp
  generalize selectHost fdc m0 = m1 at *
  -- the slot that is written is the one exception of `selectHost_image`
  have himage2 := moveRecord_image hsp1 hisRead (by
    rw [hrequest1, hcpmDisk1]
    rw [hrequest, hcpmDisk] at hrest1
    exact hrest1)
  rw [hrequest1, hcpmDisk1] at himage2
  have hmove : (moveRecord m1).log = .put m.request m1.dmaRecord :: m1.log := by
    simp [moveRecord, hisRead, hrequest1]
  have hhostbuf2 : (moveRecord m1).hostbuf = m.request.host (table.format m.cpmDisk) := by
    rw [← hhostbuf1]
    simp [moveRecord, hisRead]
  obtain ⟨hstores3, himage3, hhstbuf3, hdead3⟩ := finish_image fdc (m := moveRecord m1)
    (by rw [hmove]; exact hstores1) (by rw [hhostbuf2]; exact himage2)
  refine ⟨hstores3, ?_, ?_⟩
  · rw [hhstbuf3, ← hhostbuf2]
    exact himage3
  · intro r hne hdead
    apply hdead3
    rw [hmove]
    refine (hdead1 r (by rw [hlog0]; exact hdead)).cons ?_
    intro data h
    cases h
    exact hne rfl

/-- A write keeps the buffer an image. -/
theorem biosWrite_onlyImages (fdc : Nat → Attempt) {wt : WriteType}
    (hm : OnlyImages table m) (hc : BlockAligned table m (.write wt))
    (hread : PreReadSucceeds table fdc wt m) :
    OnlyImages table (biosWrite fdc wt m) := by
  have haccepting : Accepting table (biosWrite fdc wt m) :=
    call_accepting fdc m (.write wt) hc hm.accepting
  have hwf := hm.accepting.inv.wf
  have hlegal := hc.addressed.1
  have hwf0 : Wf table (noteWrite wt m) := hwf.congr rfl
  have hres : WriteResult table fdc (fun _ => none) wt (noteWrite wt m)
      (xwrite fdc wt (noteWrite wt m)).1 (xwrite fdc wt (noteWrite wt m)).2 := by
    refine xwrite_result wt hwf0 hlegal (fun _ => presents_none table _) ?_
    intro _ _ _ k v hdemand
    rw [demandOf_eq_some] at hdemand
    exact absurd hdemand.2.2 (by simp)
  obtain ⟨hstores, himage, hdead⟩ := xwrite_image fdc hm hc hread
  have hrun := openRun_image hm hc
  unfold biosWrite at haccepting ⊢
  generalize xwrite fdc wt (noteWrite wt m) = result at *
  obtain ⟨m', code⟩ := result
  have hhostbuf : m'.hostbuf = m.request.host (table.format m.cpmDisk) := hres.hostbuf
  refine ⟨haccepting, hstores, fun _ => ?_, ?_⟩
  · show Image table m'.hostbuf m'.hstbuf (_ :: m'.log)
    rw [hhostbuf]
    exact himage.cons_inert rfl
  · intro hcount q hq
    change m'.unallocCount ≠ 0 at hcount
    change lastUnalloc m'.log = some q at hq
    rw [lastUnalloc_congr hres.calls] at hq
    rw [hres.unallocCount] at hcount
    -- blocks are left in a run that goes on only
    have hcontinues : (openRun wt (noteWrite wt m)).continuesRun = true := by
      by_contra h
      exact hcount (startWrite_unallocCount wt (Bool.eq_false_of_not_eq_true h))
    obtain ⟨q', hq', hshape, htail, _⟩ := hrun hcontinues
    have hqq : q = q' := Option.some.inj (hq.symm.trans hq')
    subst hqq
    obtain ⟨_, hnext⟩ := continuesRun_iff.mp hcontinues
    rw [openRun_request] at hnext
    change m.request = _ at hnext
    have hdisk : q.disk = m.cpmDisk := by
      rw [← hshape.disk, ← hnext]
      rfl
    have hsucc : m'.unalloc =
        m.request.succ (fspa (table.format q.disk)).cpmSectorsPerTrack := by
      rw [hres.unalloc, (startWrite_continues hcontinues).2, hdisk, ← hwf.selected.sp]
      rfl
    rw [hdisk] at hsucc htail ⊢
    show (∀ r, SameBlock table q r → m'.unalloc.index _ ≤ _ → Dead table r (_ :: m'.log)) ∧
      (m'.unalloc.slot _ ≠ 0 → Image table (m'.unalloc.host _) m'.hstbuf (_ :: m'.log))
    have harea : m.request.InArea (table.format m.cpmDisk) := by
      have := hshape.area
      rw [← hnext, hdisk] at this
      exact this
    rw [hsucc]
    constructor
    · intro r hr hindex
      rw [Rec.index_succ hlegal harea] at hindex
      have hne : r ≠ m.request := by
        rintro rfl
        omega
      exact (hdead r hne (htail r hr (by omega))).cons (fun data h => Event.noConfusion h)
    · intro hslot
      rcases Rec.succ_host_or_slot hlegal with hhost | hzero
      · rw [hhost]
        exact himage.cons_inert rfl
      · exact absurd hzero hslot

/-- The host sector is selected for a read: a failed read leaves a buffer that
is neither valid nor dirty. -/
theorem selectHost_read_image (fdc : Nat → Attempt) (hwf : Wf table m)
    (hlegal : m.request.Legal (table.format m.cpmDisk)) (hneed : m.needPreRead = true)
    (hstores : StoresImages table m.log)
    (himage : m.hostbufValid = true ∨ m.hostbufDirty = true →
      Image table m.hostbuf m.hstbuf m.log) :
    StoresImages table (selectHost fdc m).log ∧
      ((selectHost fdc m).hostbufValid = true ∨ (selectHost fdc m).hostbufDirty = true →
        Image table (selectHost fdc m).hostbuf (selectHost fdc m).hstbuf
          (selectHost fdc m).log) := by
  rw [selectHost_eq fdc hwf.selected hlegal]
  split
  · exact ⟨hstores, himage⟩
  · obtain ⟨_, _, hstores1, _, _⟩ := flushHost_image (m := locateHost m) fdc hstores himage
    have hneed1 := (flushHost_presents fdc (fun _ => none) hwf.locateHost).2.2.2.1
    generalize flushHost fdc (locateHost m) = m1 at *
    unfold fillHost
    rw [if_pos (show (tagHost _ m1).needPreRead = true from hneed1.trans hneed)]
    constructor
    · show StoresImages table (rdhst fdc _).log
      rw [(rdhst_log fdc _).1]
      split <;> exact hstores1
    · intro hflags
      by_cases hdone : completes fdc 10 m1.attempts = true
      · obtain ⟨n, hstbuf, heq, _⟩ :=
          rdhst_eq fdc (tagHost (m.request.host (table.format m.cpmDisk)) m1)
        have hread := rdhst_image table
          (m := tagHost (m.request.host (table.format m.cpmDisk)) m1) fdc hdone
        rw [heq] at hread ⊢
        exact hread
      · exfalso
        obtain ⟨n, hstbuf, heq, _⟩ :=
          rdhst_eq fdc (tagHost (m.request.host (table.format m.cpmDisk)) m1)
        rw [heq] at hflags
        change (completes fdc 10 m1.attempts && true) = true ∨ false = true at hflags
        rw [Bool.eq_false_of_not_eq_true hdone] at hflags
        simp at hflags

theorem biosRead_onlyImages (fdc : Nat → Attempt) (hm : OnlyImages table m)
    (hc : BlockAligned table m .read) : OnlyImages table (biosRead fdc m) := by
  have haccepting : Accepting table (biosRead fdc m) :=
    call_accepting fdc m .read hc hm.accepting
  have hwf := hm.accepting.inv.wf
  have hresult : ReadResult table fdc (fun _ => none) m (xread fdc m).1 (xread fdc m).2 :=
    xread_result hwf hc (fun _ => presents_none table m)
  -- a read leaves the buffer as `selectHost` left it, and does not end in a store
  have hxread : StoresImages table (xread fdc m).1.log ∧
      ((xread fdc m).1.hostbufValid = true ∨ (xread fdc m).1.hostbufDirty = true →
        Image table (xread fdc m).1.hostbuf (xread fdc m).1.hstbuf
          (xread fdc m).1.log) := by
    unfold xread rwoper
    generalize hm0 : ({ m with
      unallocCount := 0, isRead := true, needPreRead := true, writeType := .wrual } :
        Machine) = m0
    have hwf0 : Wf table m0 := by
      subst hm0
      exact hwf.congr rfl
    obtain ⟨hstores1, himage1⟩ := selectHost_read_image (m := m0) fdc hwf0
      (by subst hm0; exact hc) (by subst hm0; rfl) (by subst hm0; exact hm.stores)
      (by subst hm0; exact hm.image)
    have hsame : SameCall m0 (selectHost fdc m0) := by
      have hsel : HostSelected table fdc (fun _ => none) m0 (selectHost fdc m0) := by
        refine selectHost_presents fdc hwf0 (by subst hm0; exact hc)
          (fun _ => presents_none table m0) (by subst hm0; exact fun _ => rfl) ?_
        intro h
        subst hm0
        exact absurd h (by simp)
      exact hsel.same
    have hisRead : (selectHost fdc m0).isRead = true := by
      rw [hsame.isRead]
      subst hm0
      rfl
    have hwriteType : (selectHost fdc m0).writeType = .wrual := by
      rw [hsame.writeType]
      subst hm0
      rfl
    generalize selectHost fdc m0 = m1 at *
    have hmove : moveRecord m1 = { m1 with mem := (moveRecord m1).mem } := by
      simp only [moveRecord, hisRead, if_true]
    have hstores2 : StoresImages table (moveRecord m1).log := by
      rw [hmove]
      exact hstores1
    have himage2 : (moveRecord m1).hostbufValid = true ∨ (moveRecord m1).hostbufDirty = true →
        Image table (moveRecord m1).hostbuf (moveRecord m1).hstbuf (moveRecord m1).log := by
      rw [hmove]
      exact himage1
    have hwriteType2 : (moveRecord m1).writeType ≠ .wrdir := by
      rw [hmove]
      show m1.writeType ≠ .wrdir
      rw [hwriteType]
      simp
    by_cases herr : (moveRecord m1).diskError = true
    · rw [finish_of_error herr]
      exact ⟨hstores2, fun h =>
        himage2 (h.imp_left (fun h => absurd h Bool.false_ne_true))⟩
    · rw [finish_of_ok (Bool.eq_false_of_not_eq_true herr) hwriteType2]
      exact ⟨hstores2, himage2⟩
  unfold biosRead at haccepting ⊢
  generalize xread fdc m = result at *
  obtain ⟨m', code⟩ := result
  refine ⟨haccepting, hxread.1, fun h => (hxread.2 h).cons_inert rfl, ?_⟩
  intro hcount
  exact absurd hresult.unallocCount hcount

/-- Calls without a result write at most the image. -/
theorem onlyImages_of_flush {m' : Machine} (hm : OnlyImages table m)
    (haccepting : Accepting table m') (hstores : StoresImages table m'.log)
    (hhostbuf : m'.hostbuf = m.hostbuf) (hhstbuf : m'.hstbuf = m.hstbuf)
    (hcount : m'.unallocCount = m.unallocCount) (hunalloc : m'.unalloc = m.unalloc)
    (hcalls : m'.log.filter Event.isCall = m.log.filter Event.isCall)
    (hsound : ∀ host k bytes, Sound table host k bytes m.log →
      Sound table host k bytes m'.log)
    (hdead : ∀ r, Dead table r m.log → Dead table r m'.log)
    (hflags : m'.hostbufValid = true ∨ m'.hostbufDirty = true →
      m.hostbufValid = true ∨ m.hostbufDirty = true) :
    OnlyImages table m' where
  accepting := haccepting
  stores := hstores
  image := by
    rw [hhostbuf, hhstbuf]
    exact fun h k hk => hsound _ _ _ (hm.image (hflags h) k hk)
  run := by
    intro hcnt q hq
    rw [lastUnalloc_congr hcalls] at hq
    obtain ⟨htail, himage⟩ := hm.run (hcount ▸ hcnt) q hq
    rw [hunalloc, hhstbuf]
    exact ⟨fun r hr hindex => hdead r (htail r hr hindex),
      fun hslot k hk => hsound _ _ _ (himage hslot k hk)⟩

theorem biosHome_onlyImages (fdc : Nat → Attempt) (hm : OnlyImages table m) :
    OnlyImages table (biosHome fdc m) := by
  have haccepting : Accepting table (biosHome fdc m) :=
    call_accepting fdc m .home trivial hm.accepting
  have hquiet : Quiet table fdc m (biosHome fdc m) := biosHome_quiet hm.accepting.inv.wf
  by_cases hdirty : m.hostbufDirty = true
  · obtain ⟨hhostbuf, _, hstores, _⟩ :=
      wrthst_image fdc hm.stores (hm.image (Or.inr hdirty))
    have heq : (biosHome fdc m).log = (wrthst fdc m).log ∧
        (biosHome fdc m).hostbuf = (wrthst fdc m).hostbuf := by
      unfold biosHome
      rw [if_pos hdirty]
      exact ⟨rfl, rfl⟩
    refine onlyImages_of_flush hm haccepting (heq.1 ▸ hstores) (heq.2.trans hhostbuf)
      hquiet.hstbuf hquiet.unallocCount hquiet.unalloc hquiet.calls ?_ ?_
      (fun _ => Or.inr hdirty)
    · rw [heq.1]
      exact fun host k bytes h => sound_wrthst fdc h
    · rw [heq.1]
      exact fun r h => dead_wrthst fdc h
  · have heq : biosHome fdc m = { m with
        hostbufValid := false, fdcUnitHead := m.cpmDisk, lastSeekDisk := m.cpmDisk,
        lastSeekTrack := 0 } := by
      unfold biosHome
      rw [if_neg hdirty]
    rw [heq] at haccepting ⊢
    exact onlyImages_of_flush hm haccepting hm.stores rfl rfl rfl rfl rfl
      (fun _ _ _ h => h) (fun _ h => h)
      (fun h => h.imp_left (fun h => absurd h Bool.false_ne_true))

theorem biosSeldskC_onlyImages (fdc : Nat → Attempt) {drive : Byte}
    (hdrive : drive.toNat < 2) (hm : OnlyImages table m) :
    OnlyImages table (biosSeldskC table fdc drive.toNat m).1 := by
  have haccepting : Accepting table (biosSeldskC table fdc drive.toNat m).1 :=
    call_accepting fdc m (.seldsk drive) hdrive hm.accepting
  have hquiet : Quiet table fdc m (biosSeldskC table fdc drive.toNat m).1 :=
    biosSeldskC_quiet hm.accepting.inv.wf hdrive
  unfold biosSeldskC at haccepting hquiet ⊢
  split at haccepting
  · rename_i habsent
    rw [if_pos habsent]
    exact hm
  · rename_i hpresent
    rw [if_neg hpresent] at hquiet ⊢
    simp only at haccepting hquiet ⊢
    split at haccepting
    · rename_i hflush
      rw [if_pos hflush] at hquiet ⊢
      have hdirty : m.hostbufDirty = true := hflush.2
      obtain ⟨hhostbuf, _, hstores, _⟩ := wrthst_image fdc
        (m := { m with cpmDisk := drive.toNat }) hm.stores (hm.image (Or.inr hdirty))
      exact onlyImages_of_flush hm haccepting hstores hhostbuf hquiet.hstbuf
        hquiet.unallocCount hquiet.unalloc hquiet.calls
        (fun host k bytes h => sound_wrthst fdc h) (fun r h => dead_wrthst fdc h)
        (fun _ => Or.inr hdirty)
    · rename_i hkeep
      rw [if_neg hkeep]
      exact onlyImages_of_flush hm haccepting hm.stores rfl rfl rfl rfl rfl
        (fun _ _ _ h => h) (fun _ h => h) id

/-! ### Whole runs -/

/-- A legal call whose pre-read, if it needs one, succeeds. -/
def PreReadable (table : DriveTable) (fdc : Nat → Attempt) (m : Machine) : Call → Prop
  | .write wt => BlockAligned table m (.write wt) ∧ PreReadSucceeds table fdc wt m
  | c => BlockAligned table m c

instance (table : DriveTable) (fdc : Nat → Attempt) (wt : WriteType) (m : Machine) :
    Decidable (PreReadSucceeds table fdc wt m) :=
  inferInstanceAs (Decidable (_ → _ → _))

instance (table : DriveTable) (fdc : Nat → Attempt) (m : Machine) :
    ∀ c, Decidable (PreReadable table fdc m c)
  | .write _ => inferInstanceAs (Decidable (_ ∧ _))
  | .seldsk drive => inferInstanceAs (Decidable (BlockAligned table m (.seldsk drive)))
  | .read => inferInstanceAs (Decidable (BlockAligned table m .read))
  | .settrk _ | .setsec _ | .setdma _ | .home | .compute _ => isTrue trivial

theorem PreReadable.aligned {c : Call} (hc : PreReadable table fdc m c) :
    BlockAligned table m c := by
  cases c with
  | write wt => exact hc.1
  | _ => exact hc

theorem call_onlyImages (fdc : Nat → Attempt) (m : Machine) (c : Call)
    (hc : PreReadable table fdc m c) (hm : OnlyImages table m) :
    OnlyImages table (call table fdc m c) := by
  have hset : ∀ m' : Machine, Accepting table m' → m'.log = m.log →
      m'.hostbuf = m.hostbuf → m'.hstbuf = m.hstbuf → m'.unallocCount = m.unallocCount →
      m'.unalloc = m.unalloc → m'.hostbufValid = m.hostbufValid →
      m'.hostbufDirty = m.hostbufDirty → OnlyImages table m' := by
    intro m' hacc hlog hhostbuf hhstbuf hcount hunalloc hvalid hdirty
    refine onlyImages_of_flush hm hacc ?_ hhostbuf hhstbuf hcount hunalloc ?_ ?_ ?_ ?_
    · rw [hlog]
      exact hm.stores
    · rw [hlog]
    · rw [hlog]
      exact fun _ _ _ h => h
    · rw [hlog]
      exact fun _ h => h
    · rw [hvalid, hdirty]
      exact id
  have haccepting := call_accepting fdc m c hc.aligned hm.accepting
  cases c with
  | seldsk drive => exact biosSeldskC_onlyImages fdc hc hm
  | settrk track => exact hset _ haccepting rfl rfl rfl rfl rfl rfl rfl
  | setsec sector => exact hset _ haccepting rfl rfl rfl rfl rfl rfl rfl
  | setdma addr => exact hset _ haccepting rfl rfl rfl rfl rfl rfl rfl
  | home => exact biosHome_onlyImages fdc hm
  | read => exact biosRead_onlyImages fdc hm hc
  | write wt => exact biosWrite_onlyImages fdc hm hc.1 hc.2
  | compute mem => exact hset _ haccepting rfl rfl rfl rfl rfl rfl rfl

theorem boot_onlyImages (table : DriveTable) (fdc : Nat → Attempt) (mem : Word → Byte)
    (disk : Chs → Nat → Byte) : OnlyImages table (boot table fdc mem disk) := by
  have hcount : (boot table fdc mem disk).unallocCount = 0 := by
    simp [boot, biosSeldskC, biosHwInit]
  refine ⟨boot_accepting table fdc mem disk, ?_, ?_, fun h => absurd hcount h⟩
  · rw [boot_log]
    exact trivial
  · intro h
    simp [boot, biosSeldskC, biosHwInit] at h

/-- **Only images are written**, in every run in which each pre-read of a write
succeeds, whatever else fails: every slot of a written buffer, and of a dirty
buffer between calls, was written by the caller since the buffer was tagged,
came with the read that filled it, or lies in a dead block. -/
theorem failures_leave_only_images (table : DriveTable) (fdc : Nat → Attempt)
    (mem : Word → Byte) (disk : Chs → Nat → Byte) (calls : List Call)
    (hcalls : EveryStep (call table fdc) (PreReadable table fdc)
      (boot table fdc mem disk) calls) :
    (∀ host data earlier,
      (Event.stored host data :: earlier) <:+
          (run table fdc (boot table fdc mem disk) calls).log →
      ∀ k, k < slots (table.format host.disk) →
        Accounted table host k (slotOf data k) earlier ∨
          Dead table (host.record (table.format host.disk) k) earlier) ∧
    ((run table fdc (boot table fdc mem disk) calls).hostbufDirty = true →
      Image table (run table fdc (boot table fdc mem disk) calls).hostbuf
        (run table fdc (boot table fdc mem disk) calls).hstbuf
        (run table fdc (boot table fdc mem disk) calls).log) := by
  have hend : OnlyImages table (run table fdc (boot table fdc mem disk) calls) :=
    foldl_invariant (call_onlyImages fdc) hcalls (boot_onlyImages table fdc mem disk)
  exact ⟨fun host data earlier hstored => hend.stores.stored hstored,
    fun hdirty => hend.image (Or.inr hdirty)⟩

/-- A controller whose first attempt has to be repeated, and whose third one
finds the drive not ready. -/
def unsteady : Nat → Attempt :=
  fun n => ⟨if n = 0 then 0x40#8 else if n = 2 then 0x48#8 else 0#8, fun _ => 0#8⟩

/-- Write a record, and flush it twice. -/
def flushCalls : List Call := [.settrk 2#16, .write .wrall, .home, .home]

theorem failures_leave_only_images_unsteady :
    EveryStep (call maxi512 unsteady) (PreReadable maxi512 unsteady)
        (boot maxi512 unsteady (fun _ => 0#8) (fun _ _ => 0x55#8)) flushCalls ∧
      (run maxi512 unsteady (boot maxi512 unsteady (fun _ => 0#8) (fun _ _ => 0x55#8))
        flushCalls).hostbufDirty = true ∧
      Image maxi512 ⟨0, 2, 0⟩
        (run maxi512 unsteady (boot maxi512 unsteady (fun _ => 0#8) (fun _ _ => 0x55#8))
          flushCalls).hstbuf
        (run maxi512 unsteady (boot maxi512 unsteady (fun _ => 0#8) (fun _ _ => 0x55#8))
          flushCalls).log := by
  have hcalls : EveryStep (call maxi512 unsteady) (PreReadable maxi512 unsteady)
      (boot maxi512 unsteady (fun _ => 0#8) (fun _ _ => 0x55#8)) flushCalls := by
    decide
  have hdirty : (run maxi512 unsteady (boot maxi512 unsteady (fun _ => 0#8)
      (fun _ _ => 0x55#8)) flushCalls).hostbufDirty = true := by
    decide
  exact ⟨hcalls, hdirty, (failures_leave_only_images maxi512 unsteady (fun _ => 0#8)
    (fun _ _ => 0x55#8) flushCalls hcalls).2 hdirty⟩

/-- A controller that finds the drive not ready at its first attempt. -/
def notReadyOnce : Nat → Attempt :=
  fun n => ⟨if n = 0 then 0x48#8 else 0#8, fun _ => 0#8⟩

/-- Write part of a host sector, then home the drive. -/
def homeCalls : List Call := [.settrk 2#16, .write .wrall, .home]

/-- **A failed pre-read is written to the disk.**  The `WRITE` reports the
failure, but leaves the buffer dirty; `HOME` flushes on dirty alone and
overwrites the other records of the host sector with what the buffer held. -/
theorem failedPreRead_is_written :
    EveryStep (call maxi512 notReadyOnce) (BlockAligned maxi512)
        (boot maxi512 notReadyOnce (fun _ => 0#8) (fun _ _ => 0x55#8)) homeCalls ∧
      (∃ data earlier,
        (Event.stored ⟨0, 2, 0⟩ data :: earlier) <:+ (run maxi512 notReadyOnce
          (boot maxi512 notReadyOnce (fun _ => 0#8) (fun _ _ => 0x55#8)) homeCalls).log ∧
        1 < slots (maxi512.format 0) ∧
        ¬ (Accounted maxi512 ⟨0, 2, 0⟩ 1 (slotOf data 1) earlier ∨
          Dead maxi512 ⟨0, 2, 1⟩ earlier)) ∧
      recordAt maxi512 (run maxi512 notReadyOnce
        (boot maxi512 notReadyOnce (fun _ => 0#8) (fun _ _ => 0x55#8)) homeCalls).disk
        ⟨0, 2, 1⟩ ≠ recordAt maxi512 (fun _ _ => 0x55#8) ⟨0, 2, 1⟩ := by
  refine ⟨by decide, ⟨_, _, ⟨[], rfl⟩, by decide, ?_⟩, ?_⟩
  · rintro (h | h)
    · exact h
    · exact h.2
  · intro h
    have hbyte := congrFun h 0
    revert hbyte
    decide

end Disk
end Rc700
