import Rc700.Formats.IntelHex
import Rc700.Install.Validator

/-!
# The install file

The Intel HEX file that `mk_sysgen_hex.py` makes of a BIOS: the validator at 0x0100, and the two
sides of track 0 at 0x4500 with the gap between them.  Once its records are applied to a memory,
the validator prints OK; and it prints FAIL when any byte of the BIOS is another one
(`install_validates`).
-/

namespace Rc700
namespace Install

open Library Library.Z80 Formats

def side0Size : Nat := 26 * 128

def gapSize : Nat := 26 * 128

def side1Size : Nat := 26 * 256

/-- `COM_BASE`: the load address. -/
def comBase : Nat := 0x0100

/-- `T0_ADDR`: where SYSGEN keeps track 0. -/
def t0Addr : Nat := 0x4500

/-- `regions`: the two sides. -/
def sysgenRegions (cim : List Byte) : List (Nat × Nat) :=
  let s0Len := min cim.length side0Size
  let s1Len := cim.length - side0Size
  (t0Addr, s0Len) :: if s1Len > 0 then [(t0Addr + side0Size + gapSize, s1Len)] else []

/-- `expected_sum` -/
def expectedSum (cim : List Byte) : Nat := (cim.map BitVec.toNat).sum &&& 0xFFFF

def validator (cim : List Byte) : List Byte := buildValidator (expectedSum cim) (sysgenRegions cim)

/-- `lines` -/
def sysgenLines (cim : List Byte) : List (List Char) :=
  ihexData comBase (validator cim) ++ ihexData t0Addr (cim.take (min cim.length side0Size)) ++
    if cim.length > side0Size then
      ihexData (t0Addr + side0Size + gapSize) (cim.drop side0Size)
    else []

/-- The file, in one of its two forms; none, for a BIOS that is too large. -/
def sysgenFile (sep : List Char) (cim : List Byte) : Option (List Char) :=
  if cim.length > side0Size + side1Size then none else some (sysgenText sep (sysgenLines cim))

/-- A memory of 64 KiB. -/
def memoryOf (image : List Byte) : Word → Byte := fun a => image.getD a.toNat 0#8

variable {cim image placed : List Byte}

theorem sysgenRegions_short (hshort : cim.length ≤ 3328) :
    sysgenRegions cim = [(0x4500, min cim.length 3328)] := by
  show (0x4500, min cim.length 3328) :: (if cim.length - 3328 > 0 then _ else _) = _
  rw [if_neg (by omega)]

theorem sysgenRegions_long (hlong : 3328 < cim.length) :
    sysgenRegions cim = [(0x4500, min cim.length 3328), (0x5F00, cim.length - 3328)] := by
  show (0x4500, min cim.length 3328) :: (if cim.length - 3328 > 0 then _ else _) = _
  rw [if_pos (by omega)]
  rfl

/-- Where the regions are. -/
theorem sysgenRegions_bounds {region : Nat × Nat} (hpos : 1 ≤ cim.length)
    (hlen : cim.length ≤ 9984) (hregion : region ∈ sysgenRegions cim) :
    0x4500 ≤ region.1 ∧ 1 ≤ region.2 ∧ region.1 + region.2 ≤ 0x7900 := by
  rcases Nat.lt_or_ge 3328 cim.length with hlong | hshort
  · rw [sysgenRegions_long hlong] at hregion
    rcases List.mem_pair.mp hregion with rfl | rfl <;> dsimp only <;> omega
  · rw [sysgenRegions_short hshort] at hregion
    obtain rfl := List.mem_singleton.mp hregion
    dsimp only
    omega

/-! ### The records -/

/-- The records of the file but for the last. -/
def sysgenRecords (cim : List Byte) : List DataRecord :=
  pieces 0x0100 (validator cim) ++ (pieces 0x4500 (cim.take 3328) ++ pieces 0x5F00 (cim.drop 3328))

theorem sysgenLines_eq (cim : List Byte) : sysgenLines cim = dataLines (sysgenRecords cim) := by
  have htake : cim.take (min cim.length 3328) = cim.take 3328 := by
    rw [List.take_eq_take_min (i := 3328), Nat.min_comm]
  have hside1 : (if cim.length > 3328 then ihexData 0x5F00 (cim.drop 3328) else []) =
      dataLines (pieces 0x5F00 (cim.drop 3328)) := by
    split
    · rw [ihexData_eq]
    · rw [List.drop_eq_nil_of_le (by omega), pieces_nil]
      rfl
  show ihexData 0x0100 _ ++ ihexData 0x4500 (cim.take (min cim.length 3328)) ++
    (if cim.length > 3328 then ihexData 0x5F00 (cim.drop 3328) else []) = _
  rw [hside1, htake, ihexData_eq, ihexData_eq]
  simp only [dataLines, sysgenRecords, List.map_append, List.append_assoc]

theorem length_validator (cim : List Byte) : (validator cim).length ≤ 135 := by
  rw [validator, length_buildValidator, sysgenRegions]
  split <;> simp

theorem sysgenRecords_fit (hlen : cim.length ≤ 9984) :
    ∀ record ∈ sysgenRecords cim, Fits record := by
  have hvalidator := length_validator cim
  intro record hrecord
  rcases List.mem_append.mp hrecord with hrecord | hrecord
  · exact pieces_fit (by omega) hrecord
  · rcases List.mem_append.mp hrecord with hrecord | hrecord
    · exact pieces_fit (by rw [List.length_take]; omega) hrecord
    · exact pieces_fit (by rw [List.length_drop]; omega) hrecord

/-! ### The memory -/

theorem loadAt_memoryOf {data : List Byte} {base : Nat} (hbase : base + data.length ≤ 65536)
    (hcells : ∀ k < data.length, placed[base + k]? = data[k]?) :
    loadAt (memoryOf placed) (BitVec.ofNat 16 base) data.length = data := by
  refine List.ext_getElem (length_loadAt ..) fun k hk hk' => ?_
  have haddr : (BitVec.ofNat 16 base + BitVec.ofNat 16 k).toNat = base + k := by
    rw [← BitVec.ofNat_add, BitVec.toNat_ofNat]
    exact Nat.mod_eq_of_lt (by omega)
  rw [getElem_loadAt, memoryOf, haddr, List.getD_eq_getElem?_getD, hcells k hk',
    List.getElem?_eq_getElem hk']
  rfl

/-- The records put the validator and the two sides in their places. -/
theorem applyRecords_sysgen (hlen : cim.length ≤ 9984) (himage : image.length = 65536) :
    ∃ placed, applyRecords 0 image (sysgenRecords cim ++ [(0x0000, [])]) = .ok placed ∧
      loadAt (memoryOf placed) 0x0100#16 (validator cim).length = validator cim ∧
      loadAt (memoryOf placed) 0x4500#16 (cim.take 3328).length = cim.take 3328 ∧
      loadAt (memoryOf placed) 0x5F00#16 (cim.drop 3328).length = cim.drop 3328 := by
  have hvalidator := length_validator cim
  have htake : (cim.take 3328).length ≤ 3328 := List.length_take_le ..
  have hdrop : (cim.drop 3328).length ≤ 6656 := by
    rw [List.length_drop]
    omega
  -- the three regions one after the other, none of which overlaps another
  obtain ⟨placed₁, hlen₁, hcells₁, happly₁⟩ :=
    @applyRecords_image 0 image (validator cim) 0x0100 (by omega)
  obtain ⟨placed₂, hlen₂, hcells₂, happly₂⟩ :=
    @applyRecords_image 0 placed₁ (cim.take 3328) 0x4500 (by omega)
  obtain ⟨placed₃, hlen₃, hcells₃, happly₃⟩ :=
    @applyRecords_image 0 placed₂ (cim.drop 3328) 0x5F00 (by omega)
  refine ⟨placed₃, ?_, ?_, ?_, ?_⟩
  · rw [sysgenRecords, List.append_assoc, List.append_assoc, (happly₁ _).1, (happly₂ _).1,
      (happly₃ _).1, applyRecords_empty]
  · refine loadAt_memoryOf (by omega) fun k hk => ?_
    rw [hcells₃, if_neg (by omega), hcells₂, if_neg (by omega), hcells₁, if_pos (by omega)]
    congr 1
    omega
  · refine loadAt_memoryOf (by omega) fun k hk => ?_
    rw [hcells₃, if_neg (by omega), hcells₂, if_pos (by omega)]
    congr 1
    omega
  · refine loadAt_memoryOf (by omega) fun k hk => ?_
    rw [hcells₃, if_pos (by omega)]
    congr 1
    omega

/-! ### The sum -/

/-- Where the BIOS is. -/
def InBios (cim : List Byte) (x : Word) : Prop :=
  ∃ region ∈ sysgenRegions cim, ∃ k < region.2, x = BitVec.ofNat 16 (region.1 + k)

theorem regionSum_other {mem : Word → Byte} {region : Nat × Nat} {x : Word} (b : Byte)
    (hx : ∀ k < region.2, x ≠ BitVec.ofNat 16 (region.1 + k)) :
    regionSum (Function.update mem x b) region = regionSum mem region := by
  rw [regionSum, loadAt_update_other, regionSum]
  intro k hk
  rw [← BitVec.ofNat_add]
  exact hx k hk

theorem ofNat_add_ne (addr : Nat) {i k : Nat} (hi : i < 65536) (hk : k < 65536) (hne : k ≠ i) :
    BitVec.ofNat 16 (addr + k) ≠ BitVec.ofNat 16 addr + BitVec.ofNat 16 i := by
  intro h
  rw [BitVec.ofNat_add, BitVec.add_right_inj] at h
  have hnat := congrArg BitVec.toNat h
  simp only [BitVec.toNat_ofNat] at hnat
  omega

/-- One byte of a region is another one. -/
theorem regionSum_update (mem : Word → Byte) (addr : Nat) {n k : Nat} (hk : k < n)
    (hn : n ≤ 65535) (b : Byte) :
    regionSum (Function.update mem (BitVec.ofNat 16 (addr + k)) b) (addr, n) +
        (mem (BitVec.ofNat 16 (addr + k))).toNat =
      regionSum mem (addr, n) + b.toNat := by
  obtain ⟨m, rfl⟩ : ∃ m, n = k + (1 + m) := ⟨n - k - 1, by omega⟩
  have hbefore : loadAt (Function.update mem (BitVec.ofNat 16 (addr + k)) b)
      (BitVec.ofNat 16 addr) k = loadAt mem (BitVec.ofNat 16 addr) k :=
    loadAt_update_other mem b fun i hi => ofNat_add_ne addr (by omega) (by omega) (by omega)
  have hafter : loadAt (Function.update mem (BitVec.ofNat 16 (addr + k)) b)
      (BitVec.ofNat 16 addr + BitVec.ofNat 16 (k + 1)) m =
        loadAt mem (BitVec.ofNat 16 addr + BitVec.ofNat 16 (k + 1)) m := by
    refine loadAt_update_other mem b fun i hi => ?_
    rw [BitVec.add_assoc, ← BitVec.ofNat_add (k + 1) i]
    exact ofNat_add_ne addr (by omega) (by omega) (by omega)
  have hsplit : ∀ mem : Word → Byte, regionSum mem (addr, k + (1 + m)) =
      ((loadAt mem (BitVec.ofNat 16 addr) k).map BitVec.toNat).sum +
        ((mem (BitVec.ofNat 16 (addr + k))).toNat +
          ((loadAt mem (BitVec.ofNat 16 addr + BitVec.ofNat 16 (k + 1)) m).map
            BitVec.toNat).sum) := by
    intro mem
    rw [regionSum, loadAt_append, loadAt_append, BitVec.add_assoc, ← BitVec.ofNat_add k 1,
      ← BitVec.ofNat_add addr k, List.map_append, List.map_append, List.sum_append, List.sum_append]
    rfl
  rw [hsplit, hsplit, hbefore, hafter, Function.update_self]
  omega

/-- The sum of the file's BIOS is the expected one. -/
theorem valid_loaded {mem : Word → Byte}
    (hside0 : loadAt mem 0x4500#16 (cim.take 3328).length = cim.take 3328)
    (hside1 : loadAt mem 0x5F00#16 (cim.drop 3328).length = cim.drop 3328) :
    regionsSum mem (sysgenRegions cim) = (cim.map BitVec.toNat).sum := by
  have hsum : (cim.map BitVec.toNat).sum =
      ((cim.take 3328).map BitVec.toNat).sum + ((cim.drop 3328).map BitVec.toNat).sum := by
    rw [← List.sum_append, ← List.map_append, List.take_append_drop]
  have hfirst : regionSum mem (0x4500, min cim.length 3328) =
      ((cim.take 3328).map BitVec.toNat).sum := by
    rw [List.length_take, Nat.min_comm] at hside0
    rw [regionSum, hside0]
  have hsecond : regionSum mem (0x5F00, cim.length - 3328) =
      ((cim.drop 3328).map BitVec.toNat).sum := by
    rw [List.length_drop] at hside1
    rw [regionSum, hside1]
  rcases Nat.lt_or_ge 3328 cim.length with hlong | hshort
  · rw [sysgenRegions_long hlong, regionsSum, List.map_cons, List.map_cons, List.map_nil,
      List.sum_cons, List.sum_cons, List.sum_nil, hfirst, hsecond, hsum, Nat.add_zero]
  · have hnil : cim.drop 3328 = [] := List.drop_eq_nil_of_le (by omega)
    rw [sysgenRegions_short hshort, regionsSum, List.map_cons, List.map_nil, List.sum_cons,
      List.sum_nil, hfirst, hsum, hnil]
    rfl

theorem ofNat_ne {m n : Nat} (hm : m < 65536) (hn : n < 65536) (hne : m ≠ n) :
    BitVec.ofNat 16 m ≠ BitVec.ofNat 16 n := by
  intro h
  have hnat := congrArg BitVec.toNat h
  simp only [BitVec.toNat_ofNat] at hnat
  omega

/-- The two sides are apart: another byte changes the sum of one of them. -/
theorem regionsSum_update (mem : Word → Byte) {x : Word} (hlen : cim.length ≤ 9984)
    (hx : InBios cim x) (b : Byte) :
    regionsSum (Function.update mem x b) (sysgenRegions cim) + (mem x).toNat =
      regionsSum mem (sysgenRegions cim) + b.toNat := by
  obtain ⟨region, hregion, k, hk, rfl⟩ := hx
  rcases Nat.lt_or_ge 3328 cim.length with hlong | hshort
  · rw [sysgenRegions_long hlong] at hregion ⊢
    simp only [regionsSum, List.map_cons, List.map_nil, List.sum_cons, List.sum_nil]
    rcases List.mem_pair.mp hregion with rfl | rfl
    · dsimp only at hk ⊢
      have hupdate := regionSum_update mem 0x4500 hk (by omega) b
      have hother : regionSum (Function.update mem (BitVec.ofNat 16 (0x4500 + k)) b)
          (0x5F00, cim.length - 3328) = regionSum mem (0x5F00, cim.length - 3328) :=
        regionSum_other b fun j hj => ofNat_ne (by omega) (by dsimp only at hj ⊢; omega)
          (by dsimp only; omega)
      omega
    · dsimp only at hk ⊢
      have hupdate := regionSum_update mem 0x5F00 hk (by omega) b
      have hother : regionSum (Function.update mem (BitVec.ofNat 16 (0x5F00 + k)) b)
          (0x4500, min cim.length 3328) = regionSum mem (0x4500, min cim.length 3328) :=
        regionSum_other b fun j hj => ofNat_ne (by omega) (by dsimp only at hj ⊢; omega)
          (by dsimp only at hj ⊢; omega)
      omega
  · rw [sysgenRegions_short hshort] at hregion ⊢
    obtain rfl := List.mem_singleton.mp hregion
    dsimp only at hk ⊢
    have hupdate := regionSum_update mem 0x4500 hk (by omega) b
    simp only [regionsSum, List.map_cons, List.map_nil, List.sum_cons, List.sum_nil]
    omega

theorem regions_sysgen (hpos : 1 ≤ cim.length) (hlen : cim.length ≤ 9984) :
    Regions (sysgenRegions cim) := by
  intro region hregion
  obtain ⟨hstart, hsome, hend⟩ := sysgenRegions_bounds hpos hlen hregion
  exact ⟨hsome, by omega⟩

/-- The validator is apart from the BIOS. -/
theorem validator_update {mem : Word → Byte} {x : Word} (hpos : 1 ≤ cim.length)
    (hlen : cim.length ≤ 9984) (hx : InBios cim x) (b : Byte) :
    loadAt (Function.update mem x b) 0x0100#16 (validator cim).length =
      loadAt mem 0x0100#16 (validator cim).length := by
  have hvalidator := length_validator cim
  obtain ⟨region, hregion, k, hk, rfl⟩ := hx
  obtain ⟨hstart, -, hend⟩ := sysgenRegions_bounds hpos hlen hregion
  refine loadAt_update_other mem b fun i hi => ?_
  rw [show (0x0100#16 : Word) = BitVec.ofNat 16 0x0100 from rfl, ← BitVec.ofNat_add]
  exact ofNat_ne (by omega) (by omega) (by omega)

theorem expectedSum_mod (cim : List Byte) :
    expectedSum cim % 65536 = (cim.map BitVec.toNat).sum % 65536 := by
  have hand : (cim.map BitVec.toNat).sum &&& 0xFFFF = (cim.map BitVec.toNat).sum % 65536 :=
    Nat.and_two_pow_sub_one_eq_mod _ 16
  rw [expectedSum, hand, Nat.mod_mod]

/-- Where the validator and the two sides are in memory, it prints OK. -/
theorem validator_ok {bdos : Bdos} (hprints : bdos.Prints) (hpos : 1 ≤ cim.length)
    (hlen : cim.length ≤ 9984) {mem : Word → Byte}
    (hcode : loadAt mem 0x0100#16 (validator cim).length = validator cim)
    (hside0 : loadAt mem 0x4500#16 (cim.take 3328).length = cim.take 3328)
    (hside1 : loadAt mem 0x5F00#16 (cim.drop 3328).length = cim.drop 3328)
    {s : System} (hpc : s.cpu.pc = 0x0100#16) (hmem : s.cpu.mem = mem)
    (hapart : Apart bdos (validator cim) 0x0100#16 s.cpu.sp) : ReturnsAfter bdos s okText := by
  have hvalid : Valid s.cpu.mem (expectedSum cim) (sysgenRegions cim) := by
    rw [Valid, hmem, valid_loaded hside0 hside1, expectedSum_mod]
  have hcalled : Called bdos (validator cim) 0x0100#16 s := ⟨hpc, by rw [hmem, hcode], hapart⟩
  have hreturns := validator_prints hprints (regions_sysgen hpos hlen) (expectedSum cim) hcalled
  rw [if_pos hvalid] at hreturns
  exact hreturns

/-! ### The file -/

/-- **The install file.** -/
theorem install_validates {bdos : Bdos} (hprints : bdos.Prints) :
    (∀ (regions : List (Nat × Nat)) (expectedSum : Nat) (org : Word) (s : System),
      Regions regions → Called bdos (buildValidator expectedSum regions) org s →
      ReturnsAfter bdos s (if Valid s.cpu.mem expectedSum regions then okText else failText)) ∧
    ∀ (cim : List Byte) (sep : List Char), 1 ≤ cim.length → cim.length ≤ 9984 → EndsLine sep →
      ∃ text records, sysgenFile sep cim = some text ∧ parseHex text = .ok records ∧
        ∀ image : List Byte, image.length = 65536 →
          ∃ placed, applyRecords 0 image records = .ok placed ∧
            (∀ s : System, s.cpu.pc = 0x0100#16 → s.cpu.mem = memoryOf placed →
              Apart bdos (validator cim) 0x0100#16 s.cpu.sp → ReturnsAfter bdos s okText) ∧
            ∀ (s : System) (x : Word) (b : Byte), s.cpu.pc = 0x0100#16 → InBios cim x →
              b ≠ memoryOf placed x → s.cpu.mem = Function.update (memoryOf placed) x b →
              Apart bdos (validator cim) 0x0100#16 s.cpu.sp → ReturnsAfter bdos s failText := by
  refine ⟨fun regions expectedSum org s hregions hcalled =>
    validator_prints hprints hregions expectedSum hcalled, fun cim sep hpos hlen hsep => ?_⟩
  have hfile : sysgenFile sep cim = some (sysgenText sep (dataLines (sysgenRecords cim))) := by
    rw [sysgenFile, if_neg (by show ¬ cim.length > 9984; omega), sysgenLines_eq]
  refine ⟨_, _, hfile, parseHex_sysgenText hsep (sysgenRecords_fit hlen), fun image himage => ?_⟩
  obtain ⟨placed, happlied, hcode, hside0, hside1⟩ := applyRecords_sysgen hlen himage
  have hsum := valid_loaded hside0 hside1
  refine ⟨placed, happlied, fun s hpc hmem hapart =>
    validator_ok hprints hpos hlen hcode hside0 hside1 hpc hmem hapart,
    fun s x b hpc hx hb hmem hapart => ?_⟩
  -- one byte that differs takes the sum away from the expected one
  · have hinvalid : ¬ Valid s.cpu.mem (expectedSum cim) (sysgenRegions cim) := by
      have hupdate := regionsSum_update (memoryOf placed) hlen hx b
      have hne : b.toNat ≠ (memoryOf placed x).toNat := fun h => hb (BitVec.eq_of_toNat_eq h)
      have hnew := b.isLt
      have hold := (memoryOf placed x).isLt
      rw [Valid, hmem, expectedSum_mod]
      rw [hsum] at hupdate
      omega
    have hcalled : Called bdos (validator cim) 0x0100#16 s :=
      ⟨hpc, by rw [hmem, validator_update hpos hlen hx, hcode], hapart⟩
    have hreturns := validator_prints hprints (regions_sysgen hpos hlen) (expectedSum cim) hcalled
    rw [if_neg hinvalid] at hreturns
    exact hreturns

/-- An operating system that only prints. -/
def plainBdos : Bdos where
  call s :=
    ⟨{ s.cpu with
        pc := join (s.cpu.mem (s.cpu.sp + 1#16)) (s.cpu.mem s.cpu.sp)
        sp := s.cpu.sp + 2#16 }, s.console ++ [low s.cpu.de]⟩
  own _ := False

theorem plainBdos_prints : plainBdos.Prints :=
  ⟨fun _ _ _ => rfl, fun _ _ _ => rfl, fun _ _ _ => rfl, fun _ _ _ _ _ => rfl⟩

/-- The validator of three bytes in two regions, and the bytes. -/
def threeBytes : System where
  cpu :=
    { a := 0#8
      zero := false
      carry := false
      bc := 0#16
      de := 0#16
      hl := 0#16
      sp := 0xC000#16
      pc := 0x0100#16
      mem := fun a => (buildValidator 0x20F [(0x4500, 2), (0x5F00, 1)]).getD (a.toNat - 0x0100)
        (if a = 0x4500#16 then 0xFF#8 else if a = 0x4501#16 then 0x80#8
          else if a = 0x5F00#16 then 0x90#8 else 0#8) }
  console := []

/-- The bytes are validated, and one that has changed is found; and a file is made of a BIOS on
both sides. -/
theorem install_validates_threeBytes :
    ReturnsAfter plainBdos threeBytes okText ∧
      ReturnsAfter plainBdos
        { threeBytes with cpu := { threeBytes.cpu with
            mem := Function.update threeBytes.cpu.mem 0x4501#16 0x81#8 } } failText ∧
      ∃ text records, sysgenFile ['\r'] (List.replicate 3329 7#8) = some text ∧
        parseHex text = .ok records := by
  obtain ⟨hvalidator, hfile⟩ := install_validates plainBdos_prints
  have hregions : Regions [(0x4500, 2), (0x5F00, 1)] := by
    intro region hregion
    rcases List.mem_cons.mp hregion with rfl | hregion
    · decide
    · obtain rfl := List.mem_singleton.mp hregion
      decide
  have hcalled : Called plainBdos (buildValidator 0x20F [(0x4500, 2), (0x5F00, 1)]) 0x0100#16
      threeBytes := by
    refine ⟨rfl, by decide +kernel, ⟨by decide +kernel, by decide +kernel, ?_, ?_⟩⟩
    · exact fun _ _ h => h
    · exact ⟨fun h => h, fun h => h⟩
  have hchanged : Called plainBdos (buildValidator 0x20F [(0x4500, 2), (0x5F00, 1)]) 0x0100#16
      { threeBytes with cpu := { threeBytes.cpu with
          mem := Function.update threeBytes.cpu.mem 0x4501#16 0x81#8 } } := by
    refine ⟨rfl, by decide +kernel, ⟨by decide +kernel, by decide +kernel, ?_, ?_⟩⟩
    · exact fun _ _ h => h
    · exact ⟨fun h => h, fun h => h⟩
  have hok := hvalidator _ 0x20F _ _ hregions hcalled
  have hfail := hvalidator _ 0x20F _ _ hregions hchanged
  rw [if_pos (by decide)] at hok
  rw [if_neg (by decide)] at hfail
  obtain ⟨text, records, htext, hparse, -⟩ := hfile (List.replicate 3329 7#8) ['\r']
    (by rw [List.length_replicate]; decide) (by rw [List.length_replicate]; decide) (.inl rfl)
  exact ⟨hok, hfail, text, records, htext, hparse⟩

end Install
end Rc700
