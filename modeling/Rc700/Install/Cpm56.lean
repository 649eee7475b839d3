import Rc700.Install.Sysgen

/-!
# The patched CPM56.COM

`mk_cpm56.py` puts a BIOS into track 0 of an old CPM56.COM, and a validator in front, and writes
the result as a .COM file and as a .HEX file.  It reports no error.

Side 1 is put only where the old file has bytes, but the validator sums all of the BIOS.  The two
agree exactly where the old file is long enough (`cpm56_whole_iff`).
-/

namespace Rc700
namespace Install

open Library Library.Z80 Formats

/-! ### The tool -/

def tpa : Nat := 0x0100

def loadp : Nat := 0x0900

/-- `T0_FILE_OFFSET`: where track 0 starts in the file. -/
def t0FileOffset : Nat := (loadp - tpa) + 15360

/-- `com[i:j] = data`, which may make the file longer. -/
def setSlice (com : List Byte) (i j : Nat) (data : List Byte) : List Byte :=
  com.take i ++ data ++ com.drop (max i j)

/-- Side 0, and the gap. -/
def patchSide0 (com cim : List Byte) : List Byte :=
  let s0Len := min cim.length side0Size
  let com := setSlice com t0FileOffset (t0FileOffset + s0Len) (cim.take s0Len)
  let gapOff := t0FileOffset + side0Size
  setSlice com gapOff (gapOff + gapSize) (List.replicate gapSize 0#8)

/-- Side 1, within the file: after side 0 and the gap it reaches up to there. -/
def patchSide1 (com cim : List Byte) : List Byte :=
  if cim.length > side0Size then
    let s1Off := t0FileOffset + side0Size + gapSize
    let s1Data := cim.drop side0Size
    let s1End := min (s1Off + s1Data.length) com.length
    let com := setSlice com s1Off s1End (s1Data.take (s1End - s1Off))
    let zeroStart := s1End
    let zeroEnd := min (s1Off + side1Size) com.length
    if zeroEnd > zeroStart then
      setSlice com zeroStart zeroEnd (List.replicate (zeroEnd - zeroStart) 0#8)
    else com
  else com

/-- `regions`: where the sides are in memory. -/
def cpm56Regions (cim : List Byte) : List (Nat × Nat) :=
  let biosS0Addr := tpa + t0FileOffset
  let biosS0Len := min cim.length side0Size
  let biosS1Addr := tpa + t0FileOffset + side0Size + gapSize
  let biosS1Len := cim.length - side0Size
  (biosS0Addr, biosS0Len) :: if biosS1Len > 0 then [(biosS1Addr, biosS1Len)] else []

def cpm56Validator (cim : List Byte) : List Byte :=
  buildValidator (expectedSum cim) (cpm56Regions cim)

/-- The .COM file. -/
def cpm56Com (com cim : List Byte) : List Byte :=
  let com := patchSide1 (patchSide0 com cim) cim
  setSlice com 0 (cpm56Validator cim).length (cpm56Validator cim)

/-- The records of 32 bytes, from `offset` on. -/
def recordLines (addr : Nat) (data : List Byte) (offset : Nat) : List (List Char) :=
  if offset < data.length then
    ihexRecord 0x00 (addr + offset) ((data.drop offset).take 32) ::
      recordLines addr data (offset + 32)
  else []
termination_by data.length - offset

/-- The .HEX file: the validator, and what is in the .COM file from track 0 on. -/
def cpm56Hex (com cim : List Byte) : List Char :=
  sysgenText ['\r', '\n'] (recordLines tpa (cpm56Validator cim) 0 ++
    recordLines tpa (cpm56Com com cim) t0FileOffset)

/-! ### The memory -/

/-- A .COM file is loaded over a memory of 64 KiB, if it is not too long. -/
def loadCom (image com : List Byte) : Option (List Byte) :=
  if tpa + com.length ≤ image.length then some (setSlice image tpa (tpa + com.length) com)
  else none

/-- A .HEX file is loaded over a memory of 64 KiB. -/
def loadHex (image : List Byte) (text : List Char) : Option (List Byte) :=
  match parseHex text with
  | .ok records => (applyRecords 0 image records).toOption
  | .error _ => none

/-- All of the BIOS is in its places, and the validator prints OK. -/
structure Carries (bdos : Bdos) (cim placed : List Byte) : Prop where
  side0 : loadAt (memoryOf placed) 0x4500#16 (cim.take 3328).length = cim.take 3328
  side1 : loadAt (memoryOf placed) 0x5F00#16 (cim.drop 3328).length = cim.drop 3328
  ok : ∀ s : System, s.cpu.pc = 0x0100#16 → s.cpu.mem = memoryOf placed →
    Apart bdos (cpm56Validator cim) 0x0100#16 s.cpu.sp → ReturnsAfter bdos s okText

/-- The two files carry the whole BIOS, whatever was in memory. -/
def WholeBios (bdos : Bdos) (com cim : List Byte) : Prop :=
  ∀ image : List Byte, image.length = 65536 →
    (∃ placed, loadCom image (cpm56Com com cim) = some placed ∧ Carries bdos cim placed) ∧
    ∃ placed, loadHex image (cpm56Hex com cim) = some placed ∧ Carries bdos cim placed

variable {com cim data image placed : List Byte}

/-! ### Slices -/

/-- As many bytes are put as are taken away, or at the end. -/
theorem getElem?_setSlice {i : Nat} (hi : i ≤ com.length) (data : List Byte) (k : Nat) :
    (setSlice com i (i + data.length) data)[k]? =
      if i ≤ k ∧ k < i + data.length then data[k - i]? else com[k]? := by
  have htake : (com.take i).length = i := List.length_take_of_le hi
  rw [setSlice, List.append_assoc, Nat.max_eq_right (by omega)]
  rcases Nat.lt_or_ge k i with hbefore | hfrom
  · rw [if_neg (by omega), List.getElem?_append_left (by omega), List.getElem?_take_of_lt hbefore]
  · rw [List.getElem?_append_right (by omega), htake]
    by_cases hin : k < i + data.length
    · rw [if_pos ⟨hfrom, hin⟩, List.getElem?_append_left (by omega)]
    · rw [if_neg (by omega), List.getElem?_append_right (by omega), List.getElem?_drop]
      congr 1
      omega

theorem length_setSlice {i : Nat} (hi : i ≤ com.length) (data : List Byte) :
    (setSlice com i (i + data.length) data).length = max com.length (i + data.length) := by
  simp only [setSlice, List.length_append, List.length_take, List.length_drop]
  omega

/-- Before a slice everything stays. -/
theorem getElem?_setSlice_before {i k : Nat} (hk : k < i) (hcom : k < com.length) (j : Nat)
    (data : List Byte) : (setSlice com i j data)[k]? = com[k]? := by
  rw [setSlice, List.append_assoc, List.getElem?_append_left (by simp; omega),
    List.getElem?_take_of_lt hk]

/-- What is put at the place of a slice. -/
theorem getElem?_setSlice_at {i k : Nat} (hi : i ≤ com.length) (hk : k < data.length) :
    (setSlice com i (i + data.length) data)[i + k]? = data[k]? := by
  rw [getElem?_setSlice hi, if_pos (by omega), Nat.add_sub_cancel_left]

/-! ### The .COM file -/

theorem t0FileOffset_eq : t0FileOffset = 0x4400 := rfl

theorem side0Size_eq : side0Size = 3328 := rfl

theorem gapSize_eq : gapSize = 3328 := rfl

theorem side1Size_eq : side1Size = 6656 := rfl

theorem length_patchSide0 (hcom : 0x4400 ≤ com.length) (cim : List Byte) :
    com.length ≤ (patchSide0 com cim).length ∧
      (patchSide0 com cim).length ≤ max com.length 0x5E00 ∧
      (3328 < cim.length → (patchSide0 com cim).length = max com.length 0x5E00) := by
  have hlen : (patchSide0 com cim).length =
      min 0x5100 (max com.length (0x4400 + min cim.length 3328)) + 3328 +
        (max com.length (0x4400 + min cim.length 3328) - 0x5E00) := by
    simp only [patchSide0, setSlice, t0FileOffset_eq, side0Size_eq, gapSize_eq, List.length_append,
      List.length_take, List.length_drop, List.length_replicate]
    omega
  rw [hlen]
  omega

/-- Side 0 is in its place. -/
theorem getElem?_patchSide0 (hcom : 0x4400 ≤ com.length) {k : Nat}
    (hk : k < (cim.take 3328).length) :
    (patchSide0 com cim)[0x4400 + k]? = (cim.take 3328)[k]? := by
  have hs0 : cim.take (min cim.length 3328) = cim.take 3328 := by
    rw [List.take_eq_take_min (i := 3328), Nat.min_comm]
  have hlen : min cim.length 3328 = (cim.take 3328).length := by simp [Nat.min_comm]
  have hside0 := getElem?_setSlice_at hcom hk
  have hbefore : 0x4400 + k < 0x5100 := by
    simp only [List.length_take] at hk
    omega
  simp only [patchSide0, t0FileOffset_eq, side0Size_eq, gapSize_eq, Nat.reduceAdd]
  rw [hs0, hlen, getElem?_setSlice_before hbefore, hside0]
  rw [length_setSlice hcom]
  omega

/-- A slice that is clipped to the end of the file. -/
theorem clipped_spec {off : Nat} (hoff : off ≤ com.length) (data : List Byte) {clipped : List Byte}
    (hclipped : setSlice com off (min (off + data.length) com.length)
      (data.take (min (off + data.length) com.length - off)) = clipped) :
    clipped.length = com.length ∧
      ∀ k, clipped[k]? =
        if off ≤ k ∧ k < min (off + data.length) com.length then data[k - off]? else com[k]? := by
  obtain ⟨n, hn⟩ : ∃ n, min (off + data.length) com.length = off + n :=
    ⟨min (off + data.length) com.length - off, by omega⟩
  have htake : (data.take n).length = n := List.length_take_of_le (by omega)
  rw [hn, Nat.add_sub_cancel_left] at hclipped
  have hput := getElem?_setSlice hoff (data.take n)
  have hlen := length_setSlice hoff (data.take n)
  rw [htake, hclipped] at hput hlen
  refine ⟨by omega, fun k => ?_⟩
  rw [hput, hn]
  split
  · rw [List.getElem?_take_of_lt (by omega)]
  · rfl

/-- What is cleared, up to the end of the file at most. -/
theorem cleared_spec {start stop : Nat} (hstart : start ≤ stop) (hstop : stop ≤ com.length) :
    (setSlice com start stop (List.replicate (stop - start) 0#8)).length = com.length ∧
      ∀ k < start,
        (setSlice com start stop (List.replicate (stop - start) 0#8))[k]? = com[k]? := by
  refine ⟨?_, fun k hk => getElem?_setSlice_before hk (by omega) _ _⟩
  simp only [setSlice, List.length_append, List.length_take, List.length_drop,
    List.length_replicate]
  omega

/-- Side 1 is in its place as far as the file reaches, and nothing else changes. -/
theorem patchSide1_spec (hfile : 3328 < cim.length → 0x5E00 ≤ com.length) :
    (patchSide1 com cim).length = com.length ∧
      (∀ k < 0x5E00, (patchSide1 com cim)[k]? = com[k]?) ∧
      ∀ k < (cim.drop 3328).length, 0x5E00 + k < com.length →
        (patchSide1 com cim)[0x5E00 + k]? = (cim.drop 3328)[k]? := by
  unfold patchSide1
  split
  · next hlong =>
      simp only [t0FileOffset_eq, side0Size_eq, gapSize_eq, side1Size_eq, Nat.reduceAdd]
      -- side 1 as it is placed, clipped to the end of the file
      obtain ⟨side1, hside1⟩ : ∃ side1, setSlice com 0x5E00
          (min (0x5E00 + (cim.drop 3328).length) com.length)
          ((cim.drop 3328).take (min (0x5E00 + (cim.drop 3328).length) com.length - 0x5E00)) =
            side1 := ⟨_, rfl⟩
      obtain ⟨hlen, hcells⟩ := clipped_spec (hfile hlong) (cim.drop 3328) hside1
      have hdrop : (cim.drop 3328).length = cim.length - 3328 := List.length_drop
      have hoff := hfile hlong
      -- what is behind the end of side 1 does not matter
      have hkept : ∀ side1' : List Byte,
          (∀ k < min (0x5E00 + (cim.drop 3328).length) com.length, side1'[k]? = side1[k]?) →
          (∀ k < 0x5E00, side1'[k]? = com[k]?) ∧
            ∀ k < (cim.drop 3328).length, 0x5E00 + k < com.length →
              side1'[0x5E00 + k]? = (cim.drop 3328)[k]? := by
        intro side1' hsame
        constructor
        · intro k hk
          rw [hsame k (by omega), hcells, if_neg (by omega)]
        · intro k hk hfits
          rw [hsame _ (by omega), hcells, if_pos (by omega), Nat.add_sub_cancel_left]
      simp only [hside1]
      split
      · -- the rest of the side is cleared
        have hcleared := @cleared_spec side1 (min (0x5E00 + (cim.drop 3328).length) com.length)
          (min 0x7800 side1.length) (by omega) (by omega)
        rw [hlen] at hcleared
        obtain ⟨hlen', hsame⟩ := hcleared
        rw [hlen]
        exact ⟨hlen', hkept _ hsame⟩
      · exact ⟨hlen, hkept _ fun _ _ => rfl⟩
  · next hshort =>
      have hnil : cim.drop 3328 = [] := List.drop_eq_nil_of_le (Nat.not_lt.mp hshort)
      exact ⟨rfl, fun _ _ => rfl, by simp [hnil]⟩

/-- What is in the .COM file. -/
structure Patched (com cim com' : List Byte) : Prop where
  longer : com.length ≤ com'.length
  length_le : com'.length ≤ max com.length 0x5E00
  length_eq : 3328 < cim.length → com'.length = max com.length 0x5E00
  code : ∀ k < (validator cim).length, com'[k]? = (validator cim)[k]?
  side0 : ∀ k < (cim.take 3328).length, com'[0x4400 + k]? = (cim.take 3328)[k]?
  side1 : ∀ k < (cim.drop 3328).length, 0x5E00 + k < com'.length →
    com'[0x5E00 + k]? = (cim.drop 3328)[k]?

theorem cpm56Com_patched (hcom : 0x4400 ≤ com.length) (cim : List Byte) :
    Patched com cim (cpm56Com com cim) := by
  have hvalidator := length_validator cim
  obtain ⟨hlonger, hle, heq⟩ := length_patchSide0 hcom cim
  obtain ⟨hlen₁, hkept₁, hside1⟩ := @patchSide1_spec (patchSide0 com cim) cim
    fun hlong => by rw [heq hlong]; omega
  have hcode := @getElem?_setSlice (patchSide1 (patchSide0 com cim) cim) 0 (Nat.zero_le _)
    (validator cim)
  have hlen := @length_setSlice (patchSide1 (patchSide0 com cim) cim) 0 (Nat.zero_le _)
    (validator cim)
  rw [Nat.zero_add, hlen₁, Nat.max_eq_left (by omega)] at hlen
  simp only [Nat.zero_add] at hcode
  have hcom' : cpm56Com com cim = setSlice (patchSide1 (patchSide0 com cim) cim) 0
    (validator cim).length (validator cim) := rfl
  rw [← hcom'] at hlen hcode
  constructor
  · omega
  · omega
  · rw [hlen]
    exact heq
  · intro k hk
    rw [hcode, if_pos (by omega), Nat.sub_zero]
  · intro k hk
    have hplace : 0x4400 + k < 0x5E00 := by
      simp only [List.length_take] at hk
      omega
    rw [hcode, if_neg (by omega), hkept₁ _ hplace, getElem?_patchSide0 hcom hk]
  · intro k hk hfits
    rw [hcode, if_neg (by omega), hside1 k hk (by omega)]

/-! ### The .HEX file -/

theorem recordLines_pieces (addr : Nat) (data : List Byte) (offset : Nat) :
    recordLines addr data offset =
      dataLines (piecesOf 32 (addr + offset) (data.drop offset)) := by
  induction offset using recordLines.induct data with
  | case1 offset hmore ih =>
      have hne : data.drop offset ≠ [] := List.ne_nil_of_length_pos (by simp; omega)
      rw [recordLines, if_pos hmore, ih, piecesOf_of_ne (by omega) hne, List.drop_drop,
        Nat.add_assoc]
      rfl
  | case2 offset hend =>
      have hnil : data.drop offset = [] := List.drop_eq_nil_of_le (by omega)
      rw [recordLines, if_neg hend, hnil]
      simp [dataLines]

/-- What the .HEX file says where, and the end. -/
theorem parseHex_cpm56Hex (hfits : (cpm56Com com cim).length ≤ 0xFF00) :
    parseHex (cpm56Hex com cim) =
      .ok (piecesOf 32 0x0100 (validator cim) ++
        piecesOf 32 0x4500 ((cpm56Com com cim).drop 0x4400) ++ [(0x0000, [])]) := by
  have hvalidator := length_validator cim
  have hlines : recordLines tpa (cpm56Validator cim) 0 ++
      recordLines tpa (cpm56Com com cim) t0FileOffset =
        dataLines (piecesOf 32 0x0100 (validator cim) ++
          piecesOf 32 0x4500 ((cpm56Com com cim).drop 0x4400)) := by
    rw [recordLines_pieces, recordLines_pieces, List.drop_zero]
    exact List.map_append.symm
  rw [cpm56Hex, hlines]
  refine parseHex_sysgenText (.inr rfl) fun record hrecord => ?_
  rcases List.mem_append.mp hrecord with hrecord | hrecord
  · exact piecesOf_fit (by omega) (by omega) hrecord
  · refine piecesOf_fit (by omega) ?_ hrecord
    rw [List.length_drop]
    omega

/-! ### What is loaded -/

/-- The validator, and what is in the .COM file from track 0 on, are in memory. -/
def Loaded (cim com' placed : List Byte) : Prop :=
  ∀ k < com'.length, k < (validator cim).length ∨ 0x4400 ≤ k → placed[0x0100 + k]? = com'[k]?

theorem loadCom_loaded (himage : image.length = 65536) {com' : List Byte}
    (hfits : com'.length ≤ 0xFF00) :
    ∃ placed, loadCom image com' = some placed ∧ Loaded cim com' placed := by
  have htpa : tpa = 0x0100 := rfl
  refine ⟨_, if_pos (by omega), fun k hk _ => ?_⟩
  rw [htpa, getElem?_setSlice_at (by omega) hk]

theorem loadHex_loaded (himage : image.length = 65536)
    (hpatched : Patched com cim (cpm56Com com cim))
    (hfits : (cpm56Com com cim).length ≤ 0xFF00) :
    ∃ placed, loadHex image (cpm56Hex com cim) = some placed ∧
      Loaded cim (cpm56Com com cim) placed := by
  have hvalidator := length_validator cim
  have hcode := hpatched.code
  generalize hcom' : cpm56Com com cim = com' at hfits hcode ⊢
  have hdrop : (com'.drop 0x4400).length = com'.length - 0x4400 := List.length_drop
  obtain ⟨placed₁, hlen₁, hcells₁, happly₁⟩ :=
    @applyRecords_imageOf 32 (by omega) 0 image (validator cim) 0x0100 (by omega)
  obtain ⟨placed₂, hlen₂, hcells₂, happly₂⟩ :=
    @applyRecords_imageOf 32 (by omega) 0 placed₁ (com'.drop 0x4400) 0x4500 (by omega)
  refine ⟨placed₂, ?_, fun k hk hplace => ?_⟩
  · rw [loadHex, parseHex_cpm56Hex (by rw [hcom']; exact hfits), hcom']
    simp only [List.append_assoc]
    rw [(happly₁ _).1, (happly₂ _).1, applyRecords_empty]
    rfl
  · rw [hcells₂]
    rcases hplace with hplace | hplace
    · rw [if_neg (by omega), hcells₁, if_pos (by omega), hcode k hplace]
      exact congrArg (fun i => (validator cim)[i]?) (by omega)
    · rw [if_pos (by omega), List.getElem?_drop]
      exact congrArg (fun i => com'[i]?) (by omega)

/-- What is loaded carries the BIOS, where the file has all of it. -/
theorem Loaded.carries {bdos : Bdos} (hprints : bdos.Prints) (hpos : 1 ≤ cim.length)
    (hlen : cim.length ≤ 9984) {com' : List Byte} (hpatched : Patched com cim com')
    (hcom : 0x4400 ≤ com.length) (hfits : com'.length ≤ 0xFF00)
    (hwhole : cim.length ≤ 3328 ∨ 0x5E00 + (cim.length - 3328) ≤ com.length)
    (hloaded : Loaded cim com' placed) : Carries bdos cim placed := by
  have hvalidator := length_validator cim
  have hlonger := hpatched.longer
  have hcode : loadAt (memoryOf placed) 0x0100#16 (validator cim).length = validator cim := by
    refine loadAt_memoryOf (by omega) fun k hk => ?_
    rw [hloaded k (by omega) (.inl hk), hpatched.code k hk]
  have hside0 : loadAt (memoryOf placed) 0x4500#16 (cim.take 3328).length = cim.take 3328 := by
    have htake : (cim.take 3328).length ≤ 3328 := List.length_take_le ..
    refine loadAt_memoryOf (by omega) fun k hk => ?_
    have hput := hpatched.side0 k hk
    -- the byte is in the file, which may have been made longer for it
    have hin : 0x4400 + k < com'.length := by
      rw [List.getElem?_eq_getElem hk] at hput
      exact (List.getElem?_eq_some_iff.mp hput).1
    rw [← hput, ← hloaded (0x4400 + k) hin (.inr (by omega)), ← Nat.add_assoc]
  have hside1 : loadAt (memoryOf placed) 0x5F00#16 (cim.drop 3328).length = cim.drop 3328 := by
    have hdrop : (cim.drop 3328).length = cim.length - 3328 := List.length_drop
    refine loadAt_memoryOf (by omega) fun k hk => ?_
    have hin : 0x5E00 + k < com'.length := by omega
    rw [← hpatched.side1 k hk hin, ← hloaded (0x5E00 + k) hin (.inr (by omega)), ← Nat.add_assoc]
  exact ⟨hside0, hside1, fun s hpc hmem hapart =>
    validator_ok hprints hpos hlen hcode hside0 hside1 hpc hmem hapart⟩

/-- A file that is too short for side 1, or too long for the memory, does not carry it. -/
theorem WholeBios.fits {bdos : Bdos} (hcom : 0x4400 ≤ com.length) (hlen : cim.length ≤ 9984)
    (hwhole : WholeBios bdos com cim) :
    com.length ≤ 0xFF00 ∧
      (cim.length ≤ 3328 ∨ 0x5E00 + (cim.length - 3328) ≤ com.length) := by
  have hpatched := cpm56Com_patched hcom cim
  have hlonger := hpatched.longer
  have hexact := hpatched.length_eq
  generalize hcom' : cpm56Com com cim = com' at hpatched hlonger hexact
  have hdrop : (cim.drop 3328).length = cim.length - 3328 := List.length_drop
  have hfill (b : Byte) : 0x0100 + com'.length ≤ 65536 ∧
      Carries bdos cim (setSlice (List.replicate 65536 b) 0x0100 (0x0100 + com'.length) com') := by
    obtain ⟨⟨placed, hload, hcarries⟩, -⟩ := hwhole (List.replicate 65536 b) List.length_replicate
    rw [hcom', loadCom, List.length_replicate] at hload
    split at hload
    · next hfits =>
        rw [← Option.some.inj hload] at hcarries
        exact ⟨hfits, hcarries⟩
    · exact nomatch hload
  refine ⟨by have := (hfill 0#8).1; omega, ?_⟩
  by_contra hshort
  obtain ⟨hlong, hcut⟩ := not_or.mp hshort
  have hlast : com'.length - 0x5E00 < (cim.drop 3328).length := by omega
  -- behind the file there is another byte than the one that belongs there
  let b := (cim.drop 3328).get ⟨_, hlast⟩ + 1#8
  obtain ⟨hfits, -, hside1, -⟩ := hfill b
  have hbyte := congrArg (fun bs : List Byte => bs[com'.length - 0x5E00]?) hside1
  have himage : 0x0100 ≤ (List.replicate 65536 b).length := by
    rw [List.length_replicate]
    omega
  have haddr : (0x5F00#16 + BitVec.ofNat 16 (com'.length - 0x5E00)).toNat =
      0x0100 + com'.length := by
    rw [BitVec.toNat_add, BitVec.toNat_ofNat, BitVec.toNat_ofNat]
    omega
  have hbehind : (setSlice (List.replicate 65536 b) 0x0100 (0x0100 + com'.length)
      com')[0x0100 + com'.length]? = some b := by
    rw [getElem?_setSlice himage, if_neg (by omega)]
    exact List.getElem?_replicate_of_lt (by omega)
  rw [List.getElem?_eq_getElem hlast, List.getElem?_eq_getElem (by rw [length_loadAt]; exact hlast),
    getElem_loadAt, memoryOf, haddr, List.getD_eq_getElem?_getD, hbehind] at hbyte
  exact absurd (Option.some.inj hbyte) (by simp [b])

/-- **The patched files** carry the whole BIOS exactly where the old file is long enough. -/
theorem cpm56_whole_iff {bdos : Bdos} (hprints : bdos.Prints) (hcom : 0x4400 ≤ com.length)
    (hpos : 1 ≤ cim.length) (hlen : cim.length ≤ 9984) :
    WholeBios bdos com cim ↔ com.length ≤ 0xFF00 ∧
      (cim.length ≤ 3328 ∨ 0x5E00 + (cim.length - 3328) ≤ com.length) := by
  constructor
  · exact WholeBios.fits hcom hlen
  · rintro ⟨hfits, hwhole⟩ image himage
    have hpatched := cpm56Com_patched hcom cim
    have hfits' : (cpm56Com com cim).length ≤ 0xFF00 := by
      have := hpatched.length_le
      omega
    constructor
    · obtain ⟨placed, hload, hloaded⟩ := @loadCom_loaded cim image himage _ hfits'
      exact ⟨placed, hload, hloaded.carries hprints hpos hlen hpatched hcom hfits' hwhole⟩
    · obtain ⟨placed, hload, hloaded⟩ := loadHex_loaded himage hpatched hfits'
      exact ⟨placed, hload, hloaded.carries hprints hpos hlen hpatched hcom hfits' hwhole⟩

/-- A BIOS of one byte, and the shortest file there is. -/
theorem cpm56_whole_oneByte : WholeBios plainBdos (List.replicate 0x4400 0#8) [7#8] := by
  refine (cpm56_whole_iff plainBdos_prints ?_ (by decide) (by decide)).mpr ⟨?_, .inl (by decide)⟩
  · rw [List.length_replicate]
  · rw [List.length_replicate]
    omega

/-- A BIOS of more than one side, and the same file: the last byte is lost. -/
theorem cpm56_not_whole :
    ¬ WholeBios plainBdos (List.replicate 0x4400 0#8) (List.replicate 3329 7#8) := by
  intro hwhole
  obtain ⟨-, hside1⟩ := hwhole.fits (by rw [List.length_replicate])
    (by rw [List.length_replicate]; omega)
  rw [List.length_replicate, List.length_replicate] at hside1
  omega

end Install
end Rc700
