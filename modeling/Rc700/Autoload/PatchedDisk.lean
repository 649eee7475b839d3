import Rc700.Autoload.Loading
import Rc700.Formats.ImdPatch

/-!
# Booting a patched disk

`patch_bios.py` puts a BIOS on track 0 of the image of a disk; the boot ROM reads track 0 of the
disk.  On a disk that is written from the patched image it hands over to the new BIOS
(`patched_boots`).
-/

namespace Rc700
namespace Autoload

open Library Formats Formats.PatchBios

/-! ### Disks that are written from an image -/

/-- A track is written from a track of an image: modes from 3 on are MFM, and each sector is the
one of its number. -/
structure WrittenFrom (t : Formats.Track) (f : FormattedTrack) : Prop where
  mfm : f.mfm = decide (3 ≤ t.mode.toNat)
  sizeCode : f.sizeCode = t.sizeCode
  length : f.sectors.length = t.sectors.length
  sectors : ∀ k (hk : k < f.sectors.length),
    (BitVec.ofNat 8 (k + 1), f.sectors[k].val) ∈ sectorData t.sectors

/-- The sectors of a track with their numbers. -/
def numbered (f : FormattedTrack) : List (Byte × List Byte) :=
  List.ofFn fun k : Fin f.sectors.length => (BitVec.ofNat 8 (k.val + 1), f.sectors[k].val)

section Written

variable {t : Formats.Track} {f : FormattedTrack}

theorem toNat_number {k : Nat} (h : WrittenFrom t f) (hk : k < f.sectors.length) :
    (BitVec.ofNat 8 (k + 1)).toNat = k + 1 := by
  have hcount := t.count
  have hlen := h.length
  rw [BitVec.toNat_ofNat]
  exact Nat.mod_eq_of_lt (by omega)

theorem numbered_lt (h : WrittenFrom t f) :
    (numbered f).Pairwise fun s s' => s.1.toNat < s'.1.toNat := by
  refine List.pairwise_iff_getElem.mpr fun i j hi hj hij => ?_
  rw [numbered, List.length_ofFn] at hi hj
  simp only [numbered, List.getElem_ofFn]
  rw [toNat_number h hi, toNat_number h hj]
  omega

/-- The sorted sectors of the image are those of the disk. -/
theorem WrittenFrom.sorted (h : WrittenFrom t f) : PatchBios.sorted t = numbered f := by
  have hlt := numbered_lt h
  have hnodup : ((numbered f).map Prod.fst).Nodup := by
    refine List.Pairwise.map _ (fun s s' hss' heq => ?_) hlt
    rw [heq] at hss'
    exact Nat.lt_irrefl _ hss'
  have hsubset : numbered f ⊆ sectorData t.sectors := by
    intro s hs
    obtain ⟨k, rfl⟩ := (List.mem_ofFn' _ _).mp hs
    exact h.sectors k.val k.isLt
  have hlen : (sectorData t.sectors).length ≤ (numbered f).length := by
    rw [sectorData, List.length_map, numbered, List.length_ofFn, h.length]
  have hperm : (sectorData t.sectors).Perm (numbered f) :=
    (((hnodup.of_map _).subperm hsubset).perm_of_length_le hlen).symm
  exact sort_of_perm hperm hnodup (hlt.imp Nat.le_of_lt)

theorem WrittenFrom.bytes (h : WrittenFrom t f) : f.bytes = sideBytes t := by
  have hdata : (numbered f).map Prod.snd = f.sectors.map Subtype.val := by
    refine List.ext_getElem ?_ fun k hk hk' => ?_
    · rw [List.length_map, List.length_map, numbered, List.length_ofFn]
    · simp only [numbered, List.getElem_map, List.getElem_ofFn, Fin.getElem_fin]
  rw [FormattedTrack.bytes, sideBytes, h.sorted, List.flatMap_def, List.flatMap_def, hdata]

/-- Tracks with the numbers from 1 on, in any order, can be written. -/
theorem exists_written (hcoded : t.sizeCode.toNat < 8)
    (hnumbers : ∀ k < t.sectors.length, ∃ s ∈ sectorData t.sectors, s.1 = BitVec.ofNat 8 (k + 1)) :
    ∃ f, WrittenFrom t f := by
  choose! s hs hnumber using hnumbers
  have hsize : ∀ k < t.sectors.length, (s k).2.length = 128 * 2 ^ t.sizeCode.toNat := by
    intro k hk
    obtain ⟨sector, -, hsector⟩ := List.mem_map.mp (hs k hk)
    rw [← hsector, ← Nat.shiftLeft_eq]
    exact length_data sector.2
  let f : FormattedTrack :=
    { mfm := decide (3 ≤ t.mode.toNat)
      sizeCode := t.sizeCode
      coded := hcoded
      sectors := List.ofFn fun k : Fin t.sectors.length => ⟨(s k.val).2, hsize k.val k.isLt⟩ }
  have hlen : f.sectors.length = t.sectors.length := List.length_ofFn
  refine ⟨f, rfl, rfl, hlen, fun k hk => ?_⟩
  have hget : f.sectors[k].val = (s k).2 := by simp only [f, List.getElem_ofFn]
  rw [hget, ← hnumber k (hlen ▸ hk)]
  exact hs k (hlen ▸ hk)

end Written

/-- Track 0 of a disk is written from an image. -/
structure WrittenDisk (s0 s1 : Formats.Track) (floppy : Floppy) (f0 f1 : FormattedTrack) :
    Prop where
  side0 : floppy 0 0 = some f0
  side1 : floppy 0 1 = some f1
  front : WrittenFrom s0 f0
  back : WrittenFrom s1 f1

/-- A layout that the ROM reads: as many sectors as its table has for their format. -/
structure StandardLayout (isMini : Bool) (t : Formats.Track) : Prop where
  small : t.sizeCode.toNat < 4
  pos : t.sectors ≠ []
  sectors : ∃ entry, eotGap3Table.flatten.flatten[
    entryPlace isMini t.sizeCode (decide (3 ≤ t.mode.toNat))]? = some entry ∧
      entry.eot.toNat = t.sectors.length

theorem StandardLayout.standard {isMini : Bool} {t t' : Formats.Track} {f : FormattedTrack}
    (h : StandardLayout isMini t) (hlayout : SameLayout t t') (hwritten : WrittenFrom t' f)
    (behind : Nat → FormatEntry) : Rom.Standard behind isMini f := by
  have hlen : t'.sectors.length = t.sectors.length := by
    have hnumbers := congrArg List.length hlayout.numbers
    rwa [List.length_map, List.length_map] at hnumbers
  obtain ⟨entry, hplace, heot⟩ := h.sectors
  have hcode : f.sizeCode = t.sizeCode := hwritten.sizeCode.trans hlayout.sizeCode
  refine ⟨hcode ▸ h.small, ?_, ?_⟩
  · rw [hwritten.length, hlen]
    exact List.length_pos_iff.mpr h.pos
  · rw [hwritten.length, hlen, hcode, hwritten.mfm, hlayout.mode, entryAt, hplace]
    exact heot

/-! ### The boot -/

theorem labelled_append {bytes rest : List Byte} {offset : Nat} {text : String}
    (hlen : offset + (Rom.textBytes text).length ≤ bytes.length) :
    Rom.Labelled (bytes ++ rest) offset text ↔ Rom.Labelled bytes offset text := by
  unfold Rom.Labelled
  rw [List.drop_append_of_le_length (by omega),
    List.take_append_of_le_length (by rw [List.length_drop]; omega)]

theorem entryOf_append {bytes rest : List Byte} (hlen : 2 ≤ bytes.length) :
    Rom.entryOf (bytes ++ rest) = Rom.entryOf bytes := by
  unfold Rom.entryOf
  rw [List.getD_append _ _ _ _ (by omega), List.getD_append _ _ _ _ (by omega)]

/-- **A patched disk boots.**  The ROM hands over to the start of the BIOS that was put on the
image, with the BIOS in memory from address 0 on, in front of what was behind it on track 0. -/
theorem patched_boots {image : Image} {s0 s1 : Formats.Track} {rest : List Formats.Track}
    {cimData t0 : List Byte} {isMini : Bool} (hdisk : BootDisk image s0 s1 rest)
    (hread : Imd2raw.extractTrack0 image.bytes = .ok t0) (hlen : cimData.length ≤ t0.length)
    (hfront : StandardLayout isMini s0) (hback : StandardLayout isMini s1)
    (hcpm : Rom.Labelled cimData 8 " RC702") (hother : ¬ Rom.Labelled cimData 2 " RC700") :
    ∃ (out : Image) (s0' s1' : Formats.Track), PatchBios.patch image.bytes cimData = .ok out.bytes ∧
      BootDisk out s0' s1' rest ∧ SameLayout s0 s0' ∧ SameLayout s1 s1' ∧
      ∀ (D : Type) (board : Board D) (floppy : Floppy) (position : D → Nat)
        (f0 f1 : FormattedTrack) (mem : Word → Byte) (d : D) (n : Nat),
        Rom.isMini board = isMini → Works board floppy position →
        WrittenDisk s0' s1' floppy f0 f1 →
          ∃ m, Rom.getFloppyReady board (n + 2) (Rom.powerOn mem d) =
              .ended (.jump (Rom.entryOf cimData)) m ∧
            m.mem = storeAt mem 0#16 (cimData ++ t0.drop cimData.length) := by
  obtain ⟨out, s0', s1', hpatch, -, hdisk', hlayout0, hlayout1, hextract⟩ :=
    patch_fits cimData hdisk hread hlen
  refine ⟨out, s0', s1', hpatch, hdisk', hlayout0, hlayout1, ?_⟩
  intro D board floppy position f0 f1 mem d n hmini hworks hwritten
  have hboot : Rom.Bootable board floppy f0 (some f1) := by
    refine ⟨hwritten.side0, hwritten.side1, ?_, fun f hf => ?_⟩
    · rw [hmini]
      exact hfront.standard hlayout0 hwritten.front board.behind
    · obtain rfl := Option.some.inj hf
      rw [hmini]
      exact hback.standard hlayout1 hwritten.back board.behind
  have htrack0 : Rom.track0 f0 (some f1) = cimData ++ t0.drop cimData.length := by
    rw [Rom.track0, Option.elim, hwritten.front.bytes, hwritten.back.bytes]
    exact Except.ok.inj (hdisk'.extract.symm.trans hextract)
  have hsix : (Rom.textBytes " RC700").length = 6 ∧ (Rom.textBytes " RC702").length = 6 := by decide
  have hcim : 14 ≤ cimData.length := by
    have htake := congrArg List.length hcpm
    rw [List.length_take, List.length_drop, hsix.2] at htake
    omega
  obtain ⟨m, hrun, hloaded⟩ := Rom.boot_loads hworks hboot mem d n
  have hmem := hloaded.mem
  have hjumps := @Rom.Loaded.jumps D board floppy m f0 (n + 2) (some f1) mem hloaded hboot
  rw [htrack0] at hmem hjumps
  rw [labelled_append (by rw [hsix.1]; omega), labelled_append (by rw [hsix.2]; omega),
    entryOf_append (by omega)] at hjumps
  exact ⟨m, hrun.trans (hjumps hother hcpm), hmem⟩

/-- The sides of an empty maxi disk. -/
def emptyFront : Formats.Track :=
  ⟨0x00#8, 0#8, ⟨0, zero_lt_heads⟩, 0#8,
    (List.range' 1 26).map fun n => (BitVec.ofNat 8 n, .filled ⟨0, zero_lt_flags⟩ 0xE5#8),
    by simp, none, none⟩

def emptyBack : Formats.Track :=
  ⟨0x03#8, 0#8, ⟨1, one_lt_heads⟩, 1#8,
    (List.range' 1 26).map fun n => (BitVec.ofNat 8 n, .filled ⟨0, zero_lt_flags⟩ 0xE5#8),
    by simp, none, none⟩

def emptyDisk : Image := ⟨[], unended_nil, [emptyFront, emptyBack]⟩

theorem emptyDisk_bootDisk : BootDisk emptyDisk emptyFront emptyBack [] where
  tracks := rfl
  cyl0 := rfl
  head0 := rfl
  side0 := ⟨by decide, List.cons_ne_nil _ _, rfl, rfl⟩
  cyl1 := rfl
  head1 := rfl
  side1 := ⟨by decide, List.cons_ne_nil _ _, rfl, rfl⟩
  others := fun _ hmem => nomatch hmem

theorem emptyFront_standard : StandardLayout false emptyFront :=
  ⟨by decide, List.cons_ne_nil _ _, ⟨0x1A#8, 0x07#8⟩, by decide, by decide⟩

theorem emptyBack_standard : StandardLayout false emptyBack :=
  ⟨by decide, List.cons_ne_nil _ _, ⟨0x1A#8, 0x0E#8⟩, by decide, by decide⟩

theorem empty_numbers {t t' : Formats.Track} (hlayout : SameLayout t t')
    (hnumbers : t.sectors.map Prod.fst = (List.range' 1 26).map (BitVec.ofNat 8)) :
    ∀ k < t'.sectors.length, ∃ s ∈ sectorData t'.sectors, s.1 = BitVec.ofNat 8 (k + 1) := by
  intro k hk
  have hsame : t'.sectors.map Prod.fst = (List.range' 1 26).map (BitVec.ofNat 8) :=
    hlayout.numbers.trans hnumbers
  refine ⟨_, List.mem_map_of_mem (List.getElem_mem hk), ?_⟩
  have hlt : k < 26 := by
    have hlen := congrArg List.length hsame
    rw [List.length_map, List.length_map, List.length_range'] at hlen
    omega
  have hnumber : (t'.sectors.map Prod.fst)[k]? = some (BitVec.ofNat 8 (k + 1)) := by
    rw [hsame, List.getElem?_map, List.getElem?_range' hlt, Nat.one_mul, Nat.add_comm]
    rfl
  rw [List.getElem?_map, List.getElem?_eq_getElem hk] at hnumber
  exact Option.some.inj hnumber

/-- The patched image of the empty disk, written to a disk. -/
theorem patched_boots_empty : ∃ (out : Image) (floppy : Floppy) (m : Machine Nat),
    PatchBios.patch emptyDisk.bytes Rom.bootSector = .ok out.bytes ∧
    Rom.getFloppyReady (boardOf floppy 0#8) 2 (Rom.powerOn (fun _ => 0#8) 0) =
      .ended (.jump (Rom.entryOf Rom.bootSector)) m ∧
    m.mem = storeAt (fun _ => 0#8) 0#16 (Rom.bootSector ++
      (sideBytes emptyFront ++ sideBytes emptyBack).drop Rom.bootSector.length) := by
  have hlen : Rom.bootSector.length ≤ (sideBytes emptyFront ++ sideBytes emptyBack).length := by
    rw [List.length_append, length_sideBytes, length_sideBytes]
    decide +kernel
  have hother : ¬ Rom.Labelled Rom.bootSector 2 " RC700" := by
    unfold Rom.Labelled
    decide
  have hcpm : Rom.Labelled Rom.bootSector 8 " RC702" := by
    unfold Rom.Labelled
    decide
  obtain ⟨out, s0', s1', hpatch, -, hlayout0, hlayout1, hboots⟩ :=
    patched_boots emptyDisk_bootDisk emptyDisk_bootDisk.extract hlen emptyFront_standard
      emptyBack_standard hcpm hother
  have hcode0 : s0'.sizeCode.toNat < 8 := by
    rw [hlayout0.sizeCode]
    decide
  have hcode1 : s1'.sizeCode.toNat < 8 := by
    rw [hlayout1.sizeCode]
    decide
  obtain ⟨f0, hf0⟩ := exists_written hcode0 (empty_numbers hlayout0 (by decide))
  obtain ⟨f1, hf1⟩ := exists_written hcode1 (empty_numbers hlayout1 (by decide))
  let floppy : Floppy := fun cylinder head =>
    if cylinder = 0 ∧ head = 0 then some f0 else if cylinder = 0 ∧ head = 1 then some f1 else none
  have hworks : Works (boardOf floppy 0#8) floppy id := by
    refine boardOf_works 0#8 fun cylinder head hhead => ?_
    simp only [floppy]
    rw [if_neg (by omega), if_neg (by omega)]
  have hmini : Rom.isMini (boardOf floppy 0#8) = false := by
    show decide ((0#8 : Byte) >>> 7 &&& 1#8 = 1#8) = false
    decide
  obtain ⟨m, hrun, hmem⟩ := hboots Nat (boardOf floppy 0#8) floppy id f0 f1 (fun _ => 0#8) 0 0
    hmini hworks ⟨rfl, rfl, hf0, hf1⟩
  exact ⟨out, floppy, m, hpatch, hrun, hmem⟩

end Autoload
end Rc700
