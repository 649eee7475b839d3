import Rc700.Autoload.Geometry

/-!
# The multi-track read of the boot ROM

`fdc_read_data_from_current_location` of `rom.c`: it reads one track at a time until it has all
bytes.  Whether a track is the last one is decided by the sign of a difference of words.

It reads exactly what it is asked for, track by track, exactly where every track that it comes to
fits (`read_exact_iff`): its size is neither zero nor so large that the difference overflows.
-/

namespace Rc700
namespace Autoload

/-! ### The loop -/

/-- A DMA transfer, and the track that is read. -/
structure Transfer where
  cylinder : Byte
  head : Byte
  address : Word
  size : Word
  deriving DecidableEq, Repr

/-- How the function ends: with `prom1_if_present`, or `error_display_halt`, if not as it should. -/
inductive Ending
  | done
  | prom1
  | halt (code : Byte)
  deriving DecidableEq, Repr

inductive Pass
  | ended (e : Ending) (s : RomState)
  | transferred (t : Transfer) (s : RomState)

/-- The transfer size: all of the track, or what is left to read. -/
def chooseSize (s : RomState) : RomState :=
  let s := calcSizeOfCurrentTrack s
  let remaining := s.bytesLeftToRead - s.dmaTransferSize
  -- `int16_t remaining`
  if 0 < remaining.toInt then
    { s with
      moreTracksToRead := true
      bytesLeftToRead := remaining }
  else
    { s with
      moreTracksToRead := false
      dmaTransferSize := s.bytesLeftToRead
      bytesLeftToRead := 0#16 }

/-- The next head, or the next cylinder. -/
def advanceTrack (s : RomState) : RomState :=
  let s := { s with sector := 1#8 }
  let maxHead := if s.isDoubleSided then 1#8 else 0#8
  if maxHead = s.head then
    { s with
      head := 0#8
      cylinder := s.cylinder + 1#8 }
  else { s with head := s.head + 1#8 }

/-- One pass of the loop, with what the seek and the read return. -/
def readTrack (seek read : Byte) (s : RomState) : Pass :=
  if seek = 1 then .ended .prom1 s
  else if seek ≠ 0 then .ended (.halt 0x06#8) s
  else
    let s := chooseSize s
    if read ≠ 0 then .ended (.halt 0x28#8) s
    else
      let t : Transfer := ⟨s.cylinder, s.head, s.dmaTransferAddress, s.dmaTransferSize⟩
      let s :=
        { s with
          dmaTransferAddress := s.dmaTransferAddress + s.dmaTransferSize
          dmaTransferSize := 0#16 }
      .transferred t (advanceTrack s)

/-- The loop, for so many passes at most: the transfers, and how it ends. -/
def readTracks (drive : Nat → Byte × Byte) :
    Nat → RomState → Option (List Transfer × Ending × RomState)
  | 0, _ => none
  | n + 1, s =>
      match readTrack (drive 0).1 (drive 0).2 s with
      | .ended e s => some ([], e, s)
      | .transferred t s =>
          if s.moreTracksToRead then
            (readTracks (fun k => drive (k + 1)) n s).map fun r => (t :: r.1, r.2)
          else some ([t], .done, s)

/-- `fdc_read_data_from_current_location` -/
def fdcReadDataFromCurrentLocation (drive : Nat → Byte × Byte) (totalBytesToRead : Word)
    (n : Nat) (s : RomState) : Option (List Transfer × Ending × RomState) :=
  readTracks drive n { s with bytesLeftToRead := totalBytesToRead }

/-- Every seek and every read succeeds. -/
def succeeding : Nat → Byte × Byte := fun _ => (0, 0)

/-! ### What is asked for -/

/-- The track behind a track, where heads go up to `maxHead`. -/
def nextTrack (maxHead : Nat) (track : Nat × Nat) : Nat × Nat :=
  if track.2 < maxHead then (track.1, track.2 + 1) else (track.1 + 1, 0)

def Transfer.track (t : Transfer) : Nat × Nat := (t.cylinder.toNat, t.head.toNat)

/-- The transfers read what is left, from an address and a track on: each has a size between one
and what is then left, and the next one follows in memory and on the disk. -/
def ReadsFrom (maxHead : Nat) : Nat → Word → Nat × Nat → List Transfer → Prop
  | left, _, _, [] => left = 0
  | left, address, track, t :: ts =>
      1 ≤ t.size.toNat ∧ t.size.toNat ≤ left ∧ t.address = address ∧ t.track = track ∧
        ReadsFrom maxHead (left - t.size.toNat) (address + t.size) (nextTrack maxHead track) ts

namespace RomState

variable (s : RomState)

def maxHead : Nat := s.isDoubleSided.toNat

def track : Nat × Nat := (s.cylinder.toNat, s.head.toNat)

/-- The tracks from the current one on. -/
def trackAt (k : Nat) : Nat × Nat := (nextTrack s.maxHead)^[k] s.track

def sizeAt (k : Nat) : Nat := trackSize s (s.trackAt k).2

/-- The bytes of the tracks before. -/
def bytesBefore (k : Nat) : Nat := ((List.range k).map s.sizeAt).sum

/-- A track fits: it is not empty, its size does not overflow against what is left, and if another
one follows it, it is a track of the disk, and the cylinder behind it has a number. -/
structure Fits (total k : Nat) : Prop where
  some : 0 < s.sizeAt k
  signed : s.sizeAt k ≤ total - s.bytesBefore k + 32768
  next : s.bytesBefore (k + 1) < total →
    (s.trackAt k).2 ≤ s.maxHead ∧ ((s.trackAt k).2 = s.maxHead → (s.trackAt k).1 < 255)

end RomState

/-- The transfers are all of the bytes, and no track is read twice. -/
structure ReadsExactly (s : RomState) (total : Word) (ts : List Transfer) : Prop where
  reads : ReadsFrom s.maxHead total.toNat s.dmaTransferAddress s.track ts
  sum : (ts.map fun t => t.size.toNat).sum = total.toNat
  once : (ts.map Transfer.track).Nodup

/-! ### Transfers that read what is left -/

variable {maxHead left : Nat} {address : Word} {track : Nat × Nat} {ts : List Transfer}

theorem ReadsFrom.sum (hreads : ReadsFrom maxHead left address track ts) :
    (ts.map fun t => t.size.toNat).sum = left := by
  induction ts generalizing left address track with
  | nil => exact hreads.symm
  | cons t ts ih =>
      obtain ⟨-, hle, -, -, hrest⟩ := hreads
      rw [List.map_cons, List.sum_cons, ih hrest]
      omega

/-- The place of a track in the order: heads are bytes. -/
def rank (track : Nat × Nat) : Nat := 256 * track.1 + track.2

theorem rank_nextTrack (maxHead : Nat) (hhead : track.2 < 256) :
    rank track < rank (nextTrack maxHead track) := by
  unfold rank nextTrack
  split <;> dsimp only <;> omega

theorem ReadsFrom.rank_le (hreads : ReadsFrom maxHead left address track ts) :
    ∀ t ∈ ts, rank track ≤ rank t.track := by
  induction ts generalizing left address track with
  | nil => simp
  | cons t ts ih =>
      obtain ⟨-, -, -, rfl, hrest⟩ := hreads
      have hnext := @rank_nextTrack t.track maxHead t.head.isLt
      intro u hu
      rcases List.mem_cons.mp hu with rfl | hu
      · exact Nat.le_refl _
      · have := ih hrest u hu
        omega

/-- No track is read twice. -/
theorem ReadsFrom.nodup (hreads : ReadsFrom maxHead left address track ts) :
    (ts.map Transfer.track).Nodup := by
  induction ts generalizing left address track with
  | nil => exact List.nodup_nil
  | cons t ts ih =>
      obtain ⟨-, -, -, rfl, hrest⟩ := hreads
      have hnext := @rank_nextTrack t.track maxHead t.head.isLt
      rw [List.map_cons, List.nodup_cons]
      refine ⟨fun hmem => ?_, ih hrest⟩
      obtain ⟨u, hu, hsame⟩ := List.mem_map.mp hmem
      have := hrest.rank_le u hu
      rw [hsame] at this
      omega

theorem readsExactly_iff {s : RomState} {total : Word} :
    ReadsExactly s total ts ↔ ReadsFrom s.maxHead total.toNat s.dmaTransferAddress s.track ts :=
  ⟨ReadsExactly.reads, fun hreads => ⟨hreads, hreads.sum, hreads.nodup⟩⟩

/-! ### One pass -/

/-- The sign of the difference. -/
theorem remaining_pos {left : Word} (hleft : left.toNat ≤ 32767) (size : Word) :
    0 < (left - size).toInt ↔ size.toNat < left.toNat ∨ left.toNat + 32769 ≤ size.toNat := by
  have hsize := size.isLt
  rw [BitVec.toInt_eq_toNat_cond, BitVec.toNat_sub]
  split <;> omega

theorem toNat_maxHead (s : RomState) :
    (if s.isDoubleSided then 1#8 else 0#8 : Byte).toNat = s.maxHead := by
  unfold RomState.maxHead
  cases s.isDoubleSided <;> rfl

/-- The next track is the one behind, as long as that is a track of the disk. -/
theorem track_advance (s : RomState) : (advanceTrack s).track = nextTrack s.maxHead s.track ↔
    s.track.2 ≤ s.maxHead ∧ (s.track.2 = s.maxHead → s.track.1 < 255) := by
  have hmax := toNat_maxHead s
  have hone : s.maxHead ≤ 1 := Bool.toNat_le _
  have hcylinder := s.cylinder.isLt
  have hhead := s.head.isLt
  have hlast : (if s.isDoubleSided then 1#8 else 0#8) = s.head ↔ s.track.2 = s.maxHead := by
    rw [← BitVec.toNat_inj, hmax]
    exact eq_comm
  by_cases hside : s.track.2 = s.maxHead
  · -- behind the last head
    have hadvance : (advanceTrack s).track = ((s.track.1 + 1) % 256, 0) := by
      unfold advanceTrack
      dsimp only
      rw [if_pos (hlast.mpr hside)]
      exact Prod.ext (BitVec.toNat_add _ _) rfl
    rw [hadvance, nextTrack, if_neg (by omega), Prod.mk.injEq]
    have : s.track.1 = s.cylinder.toNat := rfl
    omega
  · have hadvance : (advanceTrack s).track = (s.track.1, (s.track.2 + 1) % 256) := by
      unfold advanceTrack
      dsimp only
      rw [if_neg (fun h => hside (hlast.mp h))]
      exact Prod.ext rfl (BitVec.toNat_add _ _)
    have : s.track.2 = s.head.toNat := rfl
    rw [hadvance, nextTrack]
    split
    · rw [Prod.mk.injEq]
      omega
    · rw [Prod.mk.injEq]
      omega

/-- What the choice of the size leaves as it is. -/
theorem chooseSize_eq (s : RomState) : chooseSize s =
    { s with
      moreTracksToRead := (chooseSize s).moreTracksToRead
      dmaTransferSize := (chooseSize s).dmaTransferSize
      bytesLeftToRead := (chooseSize s).bytesLeftToRead } := by
  unfold chooseSize
  dsimp only
  split <;> rfl

/-- What the next track leaves as it is. -/
theorem advanceTrack_eq (s : RomState) : advanceTrack s =
    { s with
      sector := 1#8
      cylinder := (advanceTrack s).cylinder
      head := (advanceTrack s).head } := by
  unfold advanceTrack
  dsimp only
  by_cases hlast : (if s.isDoubleSided then 1#8 else 0#8) = s.head
  · rw [if_pos hlast]
  · rw [if_neg hlast]

/-- A pass without errors. -/
theorem readTrack_ok (s : RomState) : ∃ s',
    readTrack 0 0 s =
      .transferred ⟨s.cylinder, s.head, s.dmaTransferAddress, (chooseSize s).dmaTransferSize⟩ s' ∧
    (s'.track = nextTrack s.maxHead s.track ↔
      s.track.2 ≤ s.maxHead ∧ (s.track.2 = s.maxHead → s.track.1 < 255)) ∧
    s' =
      { s with
        sector := 1#8
        cylinder := s'.cylinder
        head := s'.head
        moreTracksToRead := (chooseSize s).moreTracksToRead
        dmaTransferAddress := s.dmaTransferAddress + (chooseSize s).dmaTransferSize
        dmaTransferSize := 0#16
        bytesLeftToRead := (chooseSize s).bytesLeftToRead } := by
  have hpass : readTrack 0 0 s =
      .transferred ⟨(chooseSize s).cylinder, (chooseSize s).head, (chooseSize s).dmaTransferAddress,
        (chooseSize s).dmaTransferSize⟩
        (advanceTrack
          { chooseSize s with
            dmaTransferAddress := (chooseSize s).dmaTransferAddress + (chooseSize s).dmaTransferSize
            dmaTransferSize := 0#16 }) := by
    simp [readTrack]
  rw [hpass, chooseSize_eq]
  exact ⟨_, rfl, track_advance _, advanceTrack_eq _⟩

/-! ### The run -/

/-- The state before the pass for a track, but for which track that is. -/
structure Before (s₀ : RomState) (total k : Nat) (s : RomState) : Prop where
  sector : s.sector = 1#8
  sizeShift : s.sizeShift = s₀.sizeShift
  eot : s.eot = s₀.eot
  diskType : s.diskType = s₀.diskType
  isDoubleSided : s.isDoubleSided = s₀.isDoubleSided
  left : s.bytesLeftToRead.toNat = total - s₀.bytesBefore k

theorem bytesBefore_succ (s : RomState) (k : Nat) :
    s.bytesBefore (k + 1) = s.bytesBefore k + s.sizeAt k := by
  simp [RomState.bytesBefore, List.range_succ]

theorem trackAt_succ (s : RomState) (k : Nat) :
    s.trackAt (k + 1) = nextTrack s.maxHead (s.trackAt k) :=
  Function.iterate_succ_apply' ..

theorem bytesBefore_mono (s : RomState) {i j : Nat} (hij : i ≤ j) :
    s.bytesBefore i ≤ s.bytesBefore j := by
  induction hij with
  | refl => exact Nat.le_refl _
  | step _ ih =>
      rw [bytesBefore_succ]
      omega

variable {s₀ s : RomState} {total k : Nat}

theorem Before.maxHead_eq (hbefore : Before s₀ total k s) : s.maxHead = s₀.maxHead := by
  rw [RomState.maxHead, hbefore.isDoubleSided, RomState.maxHead]

/-- **One pass**: what is transferred, and what comes after, where the track fits. -/
theorem Before.pass (hbefore : Before s₀ total k s) (hshift : s₀.sizeShift.toNat < 8)
    (htotal : total ≤ 32767) (htrack : s.track = s₀.trackAt k) (hmore : s₀.bytesBefore k < total) :
    ∃ t s', readTrack 0 0 s = .transferred t s' ∧ t.track = s.track ∧
      t.address = s.dmaTransferAddress ∧ s'.dmaTransferAddress = s.dmaTransferAddress + t.size ∧
      (s'.track = s₀.trackAt (k + 1) ↔ (s₀.trackAt k).2 ≤ s₀.maxHead ∧
        ((s₀.trackAt k).2 = s₀.maxHead → (s₀.trackAt k).1 < 255)) ∧
      (0 < s₀.sizeAt k → s₀.sizeAt k ≤ total - s₀.bytesBefore k + 32768 →
        t.size.toNat = min (s₀.sizeAt k) (total - s₀.bytesBefore k) ∧
        (s'.moreTracksToRead = true ↔ s₀.bytesBefore (k + 1) < total) ∧
        Before s₀ total (k + 1) s') ∧
      (total - s₀.bytesBefore k + 32768 < s₀.sizeAt k ∨ s₀.sizeAt k = 0 →
        t.size.toNat = s₀.sizeAt k) := by
  obtain ⟨s', hpass, hnext, hs'⟩ := readTrack_ok s
  -- the sizes of this pass as numbers; the sign test is then one of inequalities
  have hleft := hbefore.left
  have hsize : (calcSizeOfCurrentTrack s).dmaTransferSize.toNat = s₀.sizeAt k := by
    rw [calcSize_toNat hbefore.sector (by rw [hbefore.sizeShift]; exact hshift), RomState.sizeAt,
      ← htrack]
    simp only [trackSize, hbefore.diskType, hbefore.eot, hbefore.sizeShift]
    rfl
  have hsign := remaining_pos (show s.bytesLeftToRead.toNat ≤ 32767 by omega)
    (calcSizeOfCurrentTrack s).dmaTransferSize
  rw [hsize, hleft] at hsign
  have hsucc := bytesBefore_succ s₀ k
  have hchoose : chooseSize s =
      if 0 < (s.bytesLeftToRead - (calcSizeOfCurrentTrack s).dmaTransferSize).toInt then
        { calcSizeOfCurrentTrack s with
          moreTracksToRead := true
          bytesLeftToRead := s.bytesLeftToRead - (calcSizeOfCurrentTrack s).dmaTransferSize }
      else
        { calcSizeOfCurrentTrack s with
          moreTracksToRead := false
          dmaTransferSize := s.bytesLeftToRead
          bytesLeftToRead := 0#16 } := rfl
  rw [hbefore.maxHead_eq, htrack, ← trackAt_succ] at hnext
  -- between two passes only the track and what is left change
  have hkept (hleft' : s'.bytesLeftToRead.toNat = total - s₀.bytesBefore (k + 1)) :
      Before s₀ total (k + 1) s' := by
    rw [hs'] at hleft' ⊢
    exact ⟨rfl, hbefore.sizeShift, hbefore.eot, hbefore.diskType, hbefore.isDoubleSided, hleft'⟩
  refine ⟨_, s', hpass, rfl, rfl, by rw [hs'], hnext, ?_, ?_⟩
  · intro hsome hfits
    -- `remaining > 0`: a whole track is transferred, and there are more
    by_cases hpos : 0 < (s.bytesLeftToRead - (calcSizeOfCurrentTrack s).dmaTransferSize).toInt
    · have hless := hsign.mp hpos
      rw [if_pos hpos] at hchoose
      refine ⟨?_, ?_, hkept ?_⟩
      · rw [hchoose]
        show (calcSizeOfCurrentTrack s).dmaTransferSize.toNat = _
        omega
      · rw [hs', hchoose]
        exact iff_of_true rfl (by omega)
      · rw [hs', hchoose]
        show (s.bytesLeftToRead - (calcSizeOfCurrentTrack s).dmaTransferSize).toNat = _
        rw [BitVec.toNat_sub, hsize, hleft]
        omega
    · have hless := mt hsign.mpr hpos
      rw [if_neg hpos] at hchoose
      refine ⟨?_, ?_, hkept ?_⟩
      · rw [hchoose]
        show s.bytesLeftToRead.toNat = _
        omega
      · rw [hs', hchoose]
        exact iff_of_false Bool.false_ne_true (by omega)
      · rw [hs', hchoose]
        show 0 = _
        omega
  · intro hbad
    -- the difference wraps, so the test takes it for a positive one
    rw [if_pos (hsign.mpr (by omega))] at hchoose
    rw [hchoose]
    exact hsize

theorem readTracks_pass {t : Transfer} {s' : RomState} (hpass : readTrack 0 0 s = .transferred t s')
    (n : Nat) : readTracks succeeding (n + 1) s =
      if s'.moreTracksToRead then
        (readTracks succeeding n s').map fun r => (t :: r.1, r.2)
      else some ([t], .done, s') := by
  rw [readTracks, show readTrack (succeeding 0).1 (succeeding 0).2 s = _ from hpass]
  rfl

/-- Without errors the first transfer is from the current track. -/
theorem readTracks_first {n : Nat} {t : Transfer} {ts : List Transfer} {e : Ending} {s' : RomState}
    (hrun : readTracks succeeding n s = some (t :: ts, e, s')) : t.track = s.track := by
  cases n with
  | zero => exact nomatch hrun
  | succ n =>
      obtain ⟨s₁, hpass, -⟩ := readTrack_ok s
      rw [readTracks_pass hpass] at hrun
      split at hrun
      · obtain ⟨⟨ts₁, e₁, s₂⟩, -, heq⟩ := Option.map_eq_some_iff.mp hrun
        cases heq
        rfl
      · cases hrun
        rfl

/-- Where all tracks fit, the rest is read, in as many passes as there are bytes left at most. -/
theorem Before.reads (hshift : s₀.sizeShift.toNat < 8) (htotal : total ≤ 32767)
    (hfits : ∀ k, s₀.bytesBefore k < total → s₀.Fits total k) {n : Nat}
    (hbefore : Before s₀ total k s) (htrack : s.track = s₀.trackAt k)
    (hmore : s₀.bytesBefore k < total) (hn : total - s₀.bytesBefore k ≤ n) :
    ∃ ts s', readTracks succeeding n s = some (ts, .done, s') ∧
      ReadsFrom s₀.maxHead (total - s₀.bytesBefore k) s.dmaTransferAddress s.track ts := by
  induction n generalizing k s with
  | zero => omega
  | succ n ih =>
      obtain ⟨hsome, hsigned, hnext⟩ := hfits k hmore
      obtain ⟨t, s₁, hpass, htrack₁, haddress, haddress₁, htracks, hgood, -⟩ :=
        hbefore.pass hshift htotal htrack hmore
      obtain ⟨hsize, hlast, hbefore₁⟩ := hgood hsome hsigned
      have hsucc := bytesBefore_succ s₀ k
      rw [readTracks_pass hpass]
      by_cases hanother : s₀.bytesBefore (k + 1) < total
      · -- another track follows
        have htrack' := htracks.mpr (hnext hanother)
        obtain ⟨ts, s', hrun, hreads⟩ := ih hbefore₁ htrack' hanother (by omega)
        refine ⟨t :: ts, s', by rw [if_pos (hlast.mpr hanother), hrun]; rfl, ?_⟩
        refine ⟨by omega, by omega, haddress, htrack₁, ?_⟩
        have hleft : total - s₀.bytesBefore k - t.size.toNat = total - s₀.bytesBefore (k + 1) := by
          omega
        rw [hleft, ← haddress₁, htrack, ← trackAt_succ, ← htrack']
        exact hreads
      · refine ⟨[t], s₁, by rw [if_neg (mt hlast.mp hanother)], ?_⟩
        refine ⟨by omega, by omega, haddress, htrack₁, ?_⟩
        show _ - _ = 0
        omega

/-- Where the rest is read, all tracks that it comes to fit. -/
theorem Before.fits (hshift : s₀.sizeShift.toNat < 8) (htotal : total ≤ 32767) {n : Nat}
    {ts : List Transfer} {e : Ending} {s' : RomState} (hbefore : Before s₀ total k s)
    (htrack : s.track = s₀.trackAt k) (hmore : s₀.bytesBefore k < total)
    (hrun : readTracks succeeding n s = some (ts, e, s'))
    (hreads : ReadsFrom s₀.maxHead (total - s₀.bytesBefore k) s.dmaTransferAddress s.track ts) :
    ∀ j ≥ k, s₀.bytesBefore j < total → s₀.Fits total j := by
  induction n generalizing k s ts with
  | zero => exact nomatch hrun
  | succ n ih =>
      obtain ⟨t, s₁, hpass, htrack₁, haddress, haddress₁, htracks, hgood, hbad⟩ :=
        hbefore.pass hshift htotal htrack hmore
      have hsucc := bytesBefore_succ s₀ k
      rw [readTracks_pass hpass] at hrun
      -- the first transfer is the one of this pass
      obtain ⟨ts₁, rfl, hrest⟩ : ∃ ts₁, ts = t :: ts₁ ∧ (s₁.moreTracksToRead = true →
          readTracks succeeding n s₁ = some (ts₁, e, s')) := by
        split at hrun
        · obtain ⟨⟨ts₁, e₁, s₂⟩, hrun₁, heq⟩ := Option.map_eq_some_iff.mp hrun
          cases heq
          exact ⟨ts₁, rfl, fun _ => hrun₁⟩
        · next hlast =>
            cases hrun
            exact ⟨[], rfl, fun h => absurd h hlast⟩
      obtain ⟨hsome, hle, -, -, hreads₁⟩ := hreads
      have hfit : 0 < s₀.sizeAt k ∧ s₀.sizeAt k ≤ total - s₀.bytesBefore k + 32768 := by
        by_contra hnot
        have := hbad (by omega)
        omega
      obtain ⟨hsize, hlast, hbefore₁⟩ := hgood hfit.1 hfit.2
      by_cases hanother : s₀.bytesBefore (k + 1) < total
      · have hrun₁ := hrest (hlast.mpr hanother)
        have hleft : total - s₀.bytesBefore k - t.size.toNat = total - s₀.bytesBefore (k + 1) := by
          omega
        rw [hleft, ← haddress₁, htrack, ← trackAt_succ] at hreads₁
        -- there is a next transfer, and it says which track comes next
        have htrack' : s₁.track = s₀.trackAt (k + 1) := by
          cases ts₁ with
          | nil =>
              have : total - s₀.bytesBefore (k + 1) = 0 := hreads₁
              omega
          | cons u ts₂ =>
              rw [← readTracks_first hrun₁]
              exact hreads₁.2.2.2.1
        rw [← htrack'] at hreads₁
        intro j hj hjmore
        rcases Nat.eq_or_lt_of_le hj with rfl | hlater
        · exact ⟨hfit.1, hfit.2, fun _ => htracks.mp htrack'⟩
        · exact ih hbefore₁ htrack' hanother hrun₁ hreads₁ j hlater hjmore
      · intro j hj hjmore
        rcases Nat.eq_or_lt_of_le hj with rfl | hlater
        · exact ⟨hfit.1, hfit.2, fun h => absurd h hanother⟩
        · have := bytesBefore_mono s₀ (show k + 1 ≤ j from hlater)
          omega

/-- With the size codes of the table it is only to be seen to that the tracks are on the disk. -/
theorem fits_iff {behind : Nat → FormatEntry} (hdetected : Detected behind s)
    (hcode : s.sizeShift.toNat ≤ 2 ∨ (s.sizeShift.toNat = 3 ∧ s.isMfm = true)) (total k : Nat) :
    s.Fits total k ↔ (s.bytesBefore (k + 1) < total →
      (s.trackAt k).2 ≤ s.maxHead ∧ ((s.trackAt k).2 = s.maxHead → (s.trackAt k).1 < 255)) := by
  obtain ⟨hsome, hsmall⟩ := trackSize_range hdetected hcode (s.trackAt k).2
  refine ⟨RomState.Fits.next, fun hnext => ⟨hsome, ?_, hnext⟩⟩
  show trackSize s _ ≤ _
  omega

/-- Tracks of no bytes are read forever. -/
theorem readTracks_endless (hsector : s.sector = 1#8) (hshift : s.sizeShift.toNat < 8)
    (hnone : ∀ head, trackSize s head = 0) (hpos : 1 ≤ s.bytesLeftToRead.toNat)
    (hleft : s.bytesLeftToRead.toNat ≤ 32767) (n : Nat) : readTracks succeeding n s = none := by
  induction n generalizing s with
  | zero => rfl
  | succ n ih =>
      obtain ⟨s', hpass, -, hs'⟩ := readTrack_ok s
      have hsize : (calcSizeOfCurrentTrack s).dmaTransferSize = 0#16 :=
        BitVec.eq_of_toNat_eq ((calcSize_toNat hsector hshift).trans (hnone _))
      have hsign := (remaining_pos hleft 0#16).mpr (.inl hpos)
      have hchoose : chooseSize s =
          { calcSizeOfCurrentTrack s with
            moreTracksToRead := true
            bytesLeftToRead := s.bytesLeftToRead - 0#16 } := by
        rw [← hsize] at hsign ⊢
        exact if_pos hsign
      have hkept : s'.bytesLeftToRead = s.bytesLeftToRead := by
        rw [hs', hchoose]
        exact BitVec.sub_zero _
      have hmore : s'.moreTracksToRead = true := by rw [hs', hchoose]
      have hrest : readTracks succeeding n s' = none := by
        refine ih ?_ ?_ ?_ (by rw [hkept]; exact hpos) (by rw [hkept]; exact hleft)
        · rw [hs']
        · rw [hs']
          exact hshift
        · rw [hs']
          exact hnone
      rw [readTracks_pass hpass, if_pos hmore, hrest]
      rfl

/-- **The multi-track read** ends and reads exactly what it is asked for where every track that it
comes to fits, and only there. -/
theorem read_exact_iff {behind : Nat → FormatEntry} {s : RomState} {total : Word}
    (hdetected : Detected behind s) (hsector : s.sector = 1#8) (hpos : 1 ≤ total.toNat)
    (htotal : total.toNat ≤ 32767) :
    (∃ n ts s', fdcReadDataFromCurrentLocation succeeding total n s = some (ts, .done, s') ∧
      ReadsExactly s total ts) ↔
        ∀ k, s.bytesBefore k < total.toNat → s.Fits total.toNat k := by
  have hshift := (detected_iff.mp hdetected).1
  have hstart : Before s total.toNat 0 { s with bytesLeftToRead := total } :=
    ⟨hsector, rfl, rfl, rfl, rfl, (Nat.sub_zero _).symm⟩
  have hmore : s.bytesBefore 0 < total.toNat := hpos
  constructor
  · rintro ⟨n, ts, s', hrun, hreads⟩ k hk
    exact hstart.fits hshift htotal rfl hmore hrun (readsExactly_iff.mp hreads) k (Nat.zero_le k) hk
  · intro hfits
    obtain ⟨ts, s', hrun, hreads⟩ :=
      hstart.reads hshift htotal hfits rfl hmore (Nat.le_refl _)
    exact ⟨_, ts, s', hrun, readsExactly_iff.mpr hreads⟩

/-- A single-sided mini disk in FM, with sectors of 128 bytes. -/
def miniDisk : RomState :=
  { isMini := true, isMfm := false, isDoubleSided := false, diskType := 0#8, cylinder := 0#8,
    head := 0#8, sector := 1#8, sizeShift := 0#8, eot := 0x10#8, gap3 := 0x07#8, dtl := 0x80#8,
    moreTracksToRead := false, dmaTransferAddress := 0#16, dmaTransferSize := 0#16,
    bytesLeftToRead := 0#16 }

/-- A track, and one byte of the next one. -/
theorem read_exact_miniDisk :
    ∃ n ts s', fdcReadDataFromCurrentLocation succeeding 2049#16 n miniDisk =
        some (ts, .done, s') ∧ ReadsExactly miniDisk 2049#16 ts := by
  have hdetected : Detected (fun _ => ⟨0#8, 0#8⟩) miniDisk := detected_iff.mpr (by decide)
  refine (read_exact_iff hdetected rfl (by decide) (by decide)).mpr fun k _ => ?_
  refine (fits_iff hdetected (.inl (by decide)) _ k).mpr fun hnext => ?_
  cases k with
  | zero => decide
  | succ k =>
      -- two tracks are enough
      have hmono := bytesBefore_mono miniDisk (show 2 ≤ k + 1 + 1 by omega)
      have htwo : miniDisk.bytesBefore 2 = 4096 := by decide
      have htotal : (2049#16).toNat = 2049 := rfl
      omega

/-- A maxi disk in FM, with sectors of 1024 bytes. -/
def fmKilobyteDisk : RomState :=
  { miniDisk with
    isMini := false
    sizeShift := 3#8
    eot := 0x00#8
    gap3 := 0x00#8 }

/-- The table has no sectors for it: the read never ends. -/
theorem read_not_exact : Detected (fun _ => ⟨0#8, 0#8⟩) fmKilobyteDisk ∧
    ∀ n, fdcReadDataFromCurrentLocation succeeding 1024#16 n fmKilobyteDisk = none := by
  refine ⟨detected_iff.mpr (by decide), fun n => ?_⟩
  refine readTracks_endless rfl (by decide) (fun head => ?_) (by decide) (by decide) n
  simp [trackSize, fmKilobyteDisk, miniDisk]

end Autoload
end Rc700
