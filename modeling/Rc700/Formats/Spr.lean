import Rc700.Library.BitPacking
import Rc700.Library.Word

/-!
# Page-relocatable modules

The SPR file that `cpnet/build_snios.py` writes, and the loader `spr_relocate` of
`netboot_server.py`.  The writer takes the bytes that differ between two assemblies a page
apart for the ones to relocate.

The loader takes an eighth of the code length, rounded down, for the size of the bitmap,
where the writer rounds up; the length has two bytes; and a byte that wraps around between
the assemblies is not marked.  The module is relocated exactly where none of this matters
(`spr_relocates_iff`).
-/

namespace Rc700
namespace Formats

open Library

/-! ### The writer -/

/-- `bitmap_bits`: which bytes are to be relocated. -/
def bitmapBits (code0000 code0100 : List Byte) : List Bool :=
  List.zipWith (fun low high => decide ((high.toNat : Int) - low.toNat = 1)) code0000 code0100

/-- One byte of `bitmap_bytes`. -/
def bitmapByte (bits : List Bool) (i : Nat) : Byte :=
  (List.range 8).foldl
    (fun byte j =>
      if i + j < bits.length ∧ bits.getD (i + j) false = true then byte ||| 0x80#8 >>> j else byte)
    0#8

/-- `bitmap_bytes` -/
def bitmapBytes (bits : List Bool) : List Byte :=
  (List.range ((bits.length + 7) / 8)).map fun k => bitmapByte bits (8 * k)

/-- The parameter sector: the length of the code at 1, and that of the data, zero, at 3. -/
def paramSector (codeLen : Nat) : List Byte :=
  ((((List.replicate 128 0#8).set 1 (BitVec.ofNat 8 (codeLen &&& 0xFF))).set 2
    (BitVec.ofNat 8 ((codeLen >>> 8) &&& 0xFF))).set 3 0#8).set 4 0#8

/-- Zeros up to a whole number of sectors. -/
def padSectors (bytes : List Byte) : List Byte :=
  bytes ++ List.replicate ((128 - bytes.length % 128) % 128) 0#8

/-- `build_spr` -/
def buildSpr (code bitmap : List Byte) : List Byte :=
  paramSector code.length ++ List.replicate 128 0#8 ++ padSectors (code ++ bitmap)

/-- The file for two assemblies, which are equally long. -/
def sniosSpr (code0000 code0100 : List Byte) : Option (List Byte) :=
  if code0000.length ≠ code0100.length then none
  else some (buildSpr code0000 (bitmapBytes (bitmapBits code0000 code0100)))

/-! ### The loader -/

inductive SprError
  | assertion
  | index
  deriving DecidableEq, Repr

/-- One pass of the loop over the code. -/
def relocateByte (bitmap : List Byte) (page : Byte) (code : List Byte) (i : Nat) :
    Except SprError (List Byte) :=
  match bitmap[i >>> 3]? with
  | none => .error .index
  | some flags =>
      if flags >>> (7 - (i &&& 7)) &&& 1#8 ≠ 0#8 then
        match code[i]? with
        | none => .error .index
        | some c => .ok (code.set i (c + page))
      else .ok code

/-- The page of a load address. -/
def pageOf (base : Nat) : Byte := BitVec.ofNat 8 (base >>> 8)

/-- `spr_relocate` -/
def sprRelocate (spr : List Byte) (base : Nat) : Except SprError (List Byte) :=
  if base &&& 0xFF ≠ 0 then .error .assertion
  else
    match spr[1]?, spr[2]?, spr[4]?, spr[5]? with
    | some c, some c', some d, some d' => do
        let codeLen := c.toNat ||| c'.toNat <<< 8
        let dataLen := d.toNat ||| d'.toNat <<< 8
        let code := (spr.drop 256).take codeLen
        let data := (spr.drop (256 + codeLen)).take dataLen
        let bitmap := (spr.drop (256 + codeLen + dataLen)).take (codeLen / 8)
        if bitmap.length ≠ codeLen / 8 then .error .assertion
        else
          let code ← (List.range codeLen).foldlM (relocateByte bitmap (pageOf base)) code
          .ok (code ++ data)
    | _, _, _, _ => .error .index

/-! ### Relocation -/

/-- The code at a page: the bytes that differ between the assemblies are moved by it. -/
def relocated (page : Byte) (code0000 code0100 : List Byte) : List Byte :=
  List.zipWith (fun low high => if high = low then low else low + page) code0000 code0100

/-- The file that is built is relocated. -/
def Relocates (code0000 code0100 : List Byte) (base : Nat) : Prop :=
  ∃ spr, sniosSpr code0000 code0100 = some spr ∧
    sprRelocate spr base = .ok (relocated (pageOf base) code0000 code0100)

/-- The assemblies differ by one, modulo 256, where they differ. -/
def PageApart (code0000 code0100 : List Byte) : Prop :=
  List.Forall₂ (fun low high => high = low ∨ high = low + 1#8) code0000 code0100

/-! ### The bitmap -/

variable {code0000 code0100 bitmap code : List Byte} {page : Byte}

theorem bitmapBytes_eq (bits : List Bool) : bitmapBytes bits = pack 8 bits := by
  unfold bitmapBytes pack
  refine List.map_congr_left fun k _ => ?_
  unfold bitmapByte packWord
  have htop : BitVec.twoPow 8 (8 - 1) = 0x80#8 := by decide
  rw [htop]
  refine List.foldl_ext _ _ _ fun byte j _ => ?_
  have hbit : (8 * k + j < bits.length ∧ bits.getD (8 * k + j) false = true) ↔
      bits.getD (8 * k + j) false = true := by
    refine and_iff_right_of_imp fun hget => ?_
    by_contra hout
    rw [List.getD_eq_default _ _ (Nat.le_of_not_lt hout)] at hget
    exact nomatch hget
  simp only [hbit]

theorem flag_iff (flags : Byte) (i : Nat) :
    flags >>> (7 - (i &&& 7)) &&& 1#8 ≠ 0#8 ↔ flags.getLsbD (8 - 1 - i % 8) = true := by
  have hmod : i &&& 7 = i % 8 := Nat.and_two_pow_sub_one_eq_mod i 3
  rw [hmod]
  generalize 7 - i % 8 = k
  constructor
  · intro hne
    by_contra hoff
    refine hne (BitVec.eq_of_getLsbD_eq fun j hj => ?_)
    rw [BitVec.getLsbD_and, BitVec.getLsbD_ushiftRight]
    by_cases hzero : j = 0
    · rw [hzero, Nat.add_zero, Bool.not_eq_true _ |>.mp hoff]
      rfl
    · have hone : (1#8).getLsbD j = false := by
        revert hj hzero
        revert j
        decide
      rw [hone, Bool.and_false]
      simp
  · intro hon hzero
    have hbit := congrArg (fun b : Byte => b.getLsbD 0) hzero
    simp only [BitVec.getLsbD_and, BitVec.getLsbD_ushiftRight, Nat.add_zero] at hbit
    rw [hon] at hbit
    exact absurd hbit (by decide)

/-- One pass, with the bit of the byte. -/
theorem relocateByte_eq (bitmap : List Byte) (page : Byte) (code : List Byte) {i : Nat}
    (hi : i < code.length) :
    relocateByte bitmap page code i =
      match bitAt bitmap i with
      | none => .error .index
      | some bit => .ok (if bit then code.set i (code[i] + page) else code) := by
  have hdiv : i >>> 3 = i / 8 := Nat.shiftRight_eq_div_pow i 3
  unfold relocateByte bitAt
  rw [hdiv]
  cases bitmap[i / 8]? with
  | none => rfl
  | some flags =>
      rw [Option.map_some]
      dsimp only
      simp only [flag_iff, List.getElem?_eq_getElem hi]
      split
      · rfl
      · rfl

/-- **The loop**, where the bitmap has a bit for each byte. -/
theorem relocateBytes_eq {bit : Nat → Bool} {n : Nat} (hn : n ≤ code.length)
    (hbits : ∀ i < n, bitAt bitmap i = some (bit i)) :
    (List.range n).foldlM (relocateByte bitmap page) code =
      .ok (code.mapIdx fun i c => if i < n ∧ bit i = true then c + page else c) := by
  -- by induction on the number of bytes that have been relocated
  induction n with
  | zero =>
      refine congrArg Except.ok ?_
      refine List.ext_getElem (by rw [List.length_mapIdx]) fun i hi hi' => ?_
      rw [List.getElem_mapIdx, if_neg fun h => Nat.not_lt_zero i h.1]
  | succ n ih =>
      rw [List.range_succ, List.foldlM_append, ih (by omega) fun i hi => hbits i (by omega)]
      show (List.foldlM (relocateByte bitmap page) _ [n]) = _
      generalize hmoved : (code.mapIdx fun i c => if i < n ∧ bit i = true then c + page else c) =
        moved
      have hlen : moved.length = code.length := by rw [← hmoved, List.length_mapIdx]
      rw [List.foldlM_cons, relocateByte_eq bitmap page moved (by omega), hbits n (by omega)]
      show Except.ok _ = _
      refine congrArg Except.ok (List.ext_getElem ?_ fun i hi hi' => ?_)
      · rw [List.length_mapIdx]
        split
        · rw [List.length_set, hlen]
        · exact hlen
      · have hi'' : i < code.length := by rwa [List.length_mapIdx] at hi'
        have hget : ∀ j (_ : j < code.length) (_ : j < moved.length),
            moved[j] = if j < n ∧ bit j = true then code[j] + page else code[j] := by
          intro j hj hj'
          subst hmoved
          rw [List.getElem_mapIdx]
        rw [List.getElem_mapIdx]
        -- the byte of this round, or one of before
        by_cases hlast : i = n
        · subst hlast
          by_cases hbit : bit i = true
          · simp only [hbit, if_true, List.getElem_set_self, hget i hi'' (hlen ▸ hi''),
              Nat.lt_irrefl,
              false_and, if_false, Nat.lt_succ_self, true_and]
          · simp only [hbit, if_false, hget i hi'' (hlen ▸ hi''), and_false, Bool.false_eq_true]
        · have hbefore : i < n + 1 ↔ i < n := by omega
          by_cases hbit : bit n = true
          · simp only [hbit, if_true, List.getElem_set_ne (Ne.symm hlast),
              hget i hi'' (hlen ▸ hi''),
              hbefore]
          · simp only [hbit, Bool.false_eq_true, if_false, hget i hi'' (hlen ▸ hi''), hbefore]

/-- A pass that succeeds has its bit, and keeps the length. -/
theorem relocateByte_ok {i : Nat} {out : List Byte}
    (hrun : relocateByte bitmap page code i = .ok out) :
    out.length = code.length ∧ bitAt bitmap i ≠ none := by
  have hdiv : i >>> 3 = i / 8 := Nat.shiftRight_eq_div_pow i 3
  unfold relocateByte at hrun
  unfold bitAt
  rw [hdiv] at hrun
  cases hflags : bitmap[i / 8]? with
  | none =>
      rw [hflags] at hrun
      exact nomatch hrun
  | some flags =>
      rw [hflags] at hrun
      refine ⟨?_, Option.some_ne_none _⟩
      dsimp only at hrun
      split at hrun
      · split at hrun
        · exact nomatch hrun
        · rw [← Except.ok.inj hrun, List.length_set]
      · rw [Except.ok.inj hrun]

theorem relocateBytes_ok {n : Nat} {out : List Byte}
    (hrun : (List.range n).foldlM (relocateByte bitmap page) code = .ok out) :
    out.length = code.length ∧ ∀ i < n, bitAt bitmap i ≠ none := by
  induction n generalizing out with
  | zero =>
      exact ⟨congrArg List.length (Except.ok.inj hrun).symm,
        fun _ hi => absurd hi (Nat.not_lt_zero _)⟩
  | succ n ih =>
      rw [List.range_succ, List.foldlM_append] at hrun
      cases hfirst : (List.range n).foldlM (relocateByte bitmap page) code with
      | error e =>
          rw [hfirst] at hrun
          exact nomatch hrun
      | ok moved =>
          rw [hfirst] at hrun
          have hlast : relocateByte bitmap page moved n = .ok out := by
            have hrun' : (List.foldlM (relocateByte bitmap page) moved [n]) = .ok out := hrun
            rw [List.foldlM_cons] at hrun'
            cases hstep : relocateByte bitmap page moved n with
            | error e =>
                rw [hstep] at hrun'
                exact nomatch hrun'
            | ok moved' =>
                rw [hstep] at hrun'
                exact hrun'
          obtain ⟨hlen, hbits⟩ := ih hfirst
          obtain ⟨hlen', hbit⟩ := relocateByte_ok hlast
          refine ⟨hlen'.trans hlen, fun i hi => ?_⟩
          rcases Nat.lt_succ_iff_lt_or_eq.mp hi with hlt | rfl
          · exact hbits i hlt
          · exact hbit

/-! ### The file -/

theorem twoBytes (n : Nat) :
    (BitVec.ofNat 8 (n &&& 0xFF)).toNat ||| (BitVec.ofNat 8 ((n >>> 8) &&& 0xFF)).toNat <<< 8 =
      n % 65536 := by
  have hlow : (BitVec.ofNat 8 (n &&& 0xFF)).toNat = n % 256 := by
    rw [BitVec.toNat_ofNat, and_low]
    omega
  have hhigh : (BitVec.ofNat 8 ((n >>> 8) &&& 0xFF)).toNat = n / 256 % 256 := by
    rw [BitVec.toNat_ofNat, and_low, Nat.shiftRight_eq_div_pow]
    omega
  have hfits : n % 256 < 256 := Nat.mod_lt n (by decide)
  rw [hlow, hhigh, Nat.or_comm, shift_or_low _ hfits]
  omega

/-- The loader reads the lengths, and then the code and the bitmap. -/
theorem sprRelocate_buildSpr {base : Nat} (hbase : base &&& 0xFF = 0) :
    sprRelocate (buildSpr code bitmap) base =
      let codeLen := code.length % 65536
      let flags := ((padSectors (code ++ bitmap)).drop codeLen).take (codeLen / 8)
      if flags.length ≠ codeLen / 8 then .error .assertion
      else (List.range codeLen).foldlM (relocateByte flags (pageOf base))
        ((padSectors (code ++ bitmap)).take codeLen) := by
  have hsplit : buildSpr code bitmap =
      (paramSector code.length ++ List.replicate 128 0#8) ++ padSectors (code ++ bitmap) := rfl
  have hhead : (paramSector code.length ++ List.replicate 128 0#8).length = 256 := by
    rw [List.length_append, List.length_replicate, paramSector]
    simp only [List.length_set, List.length_replicate]
  have hdrop : ∀ n, (buildSpr code bitmap).drop (256 + n) =
    (padSectors (code ++ bitmap)).drop n := by
    intro n
    rw [hsplit, ← hhead, List.drop_length_add_append]
  have hone : (buildSpr code bitmap)[1]? = some (BitVec.ofNat 8 (code.length &&& 0xFF)) := rfl
  have htwo : (buildSpr code bitmap)[2]? =
      some (BitVec.ofNat 8 ((code.length >>> 8) &&& 0xFF)) := rfl
  have hfour : (buildSpr code bitmap)[4]? = some 0#8 := rfl
  have hfive : (buildSpr code bitmap)[5]? = some 0#8 := rfl
  have hzero : (0#8).toNat ||| (0#8).toNat <<< 8 = 0 := rfl
  -- there is no data to follow the code
  have hnil : (fun moved : List Byte => (Except.ok (moved ++ []) : Except SprError (List Byte))) =
      pure := by
    funext moved
    rw [List.append_nil]
    rfl
  unfold sprRelocate
  rw [if_neg (not_not_intro hbase), hone, htwo, hfour, hfive]
  dsimp only
  rw [twoBytes, hzero, Nat.add_zero, hdrop, List.take_zero]
  have hstart : (buildSpr code bitmap).drop 256 = padSectors (code ++ bitmap) := hdrop 0
  rw [hstart]
  split
  · rfl
  · rw [hnil]
    exact bind_pure _

/-! ### Writer and loader -/

theorem zipWith_eq_iff {α β γ : Type} {f g : α → β → γ} {xs : List α} {ys : List β} :
    List.zipWith f xs ys = List.zipWith g xs ys ↔
      ∀ pair ∈ xs.zip ys, f pair.1 pair.2 = g pair.1 pair.2 := by
  rw [← List.map_uncurry_zip_eq_zipWith, ← List.map_uncurry_zip_eq_zipWith, List.map_inj_left]
  rfl

/-- The code at a page, as the bitmap has it. -/
def marked (page : Byte) (code0000 code0100 : List Byte) : List Byte :=
  List.zipWith (fun low high => if (high.toNat : Int) - low.toNat = 1 then low + page else low)
    code0000 code0100

/-- A byte is marked if it is to be moved, unless it wraps around. -/
theorem marked_byte {low high : Byte} (happart : high = low ∨ high = low + 1#8) (page : Byte) :
    (if (high.toNat : Int) - low.toNat = 1 then low + page else low) =
        (if high = low then low else low + page) ↔
      page = 0#8 ∨ (low, high) ≠ (0xFF#8, 0x00#8) := by
  rcases happart with rfl | rfl
  · have hsame : ¬(high.toNat : Int) - high.toNat = 1 := by omega
    have hne : (high, high) ≠ (0xFF#8, 0x00#8) := by
      intro heq
      obtain ⟨h, h'⟩ := Prod.mk.inj heq
      rw [h] at h'
      exact absurd h' (by decide)
    rw [if_neg hsame, if_pos rfl]
    exact iff_of_true rfl (.inr hne)
  · have hmoved : low + 1#8 ≠ low := by bv_omega
    rw [if_neg hmoved]
    by_cases hwrap : low = 0xFF#8
    · subst hwrap
      have hnot : ¬(((0xFF#8 + 1#8 : Byte).toNat : Int) - (0xFF#8 : Byte).toNat = 1) := by decide
      rw [if_neg hnot]
      constructor
      · intro heq
        refine .inl ?_
        bv_omega
      · rintro (rfl | hne)
        · rfl
        · exact absurd rfl hne
    · have hone : ((low + 1#8).toNat : Int) - low.toNat = 1 := by bv_omega
      rw [if_pos hone]
      exact iff_of_true rfl (.inr fun heq => hwrap (Prod.mk.inj heq).1)

theorem marked_eq_iff (happart : PageApart code0000 code0100) :
    marked page code0000 code0100 = relocated page code0000 code0100 ↔
      page = 0#8 ∨ (0xFF#8, 0x00#8) ∉ code0000.zip code0100 := by
  have hpairs : ∀ pair ∈ code0000.zip code0100, pair.2 = pair.1 ∨ pair.2 = pair.1 + 1#8 :=
    fun pair hpair => (List.forall₂_iff_zip.mp happart).2 hpair
  unfold marked relocated
  rw [zipWith_eq_iff]
  constructor
  · intro hall
    by_contra hnone
    obtain ⟨hpage, hmem⟩ := not_or.mp hnone
    have hwrapped := not_not.mp hmem
    have hboth := (marked_byte (hpairs _ hwrapped) page).mp (hall _ hwrapped)
    exact hboth.elim hpage fun hne => hne rfl
  · intro hcases pair hpair
    refine (marked_byte (hpairs pair hpair) page).mpr (hcases.imp_right fun hnone heq => ?_)
    have hwrapped : pair = (0xFF#8, 0x00#8) := heq
    exact hnone (hwrapped ▸ hpair)

/-- With a bit for each byte, the loader moves the bytes that are marked. -/
theorem relocate_marked (hlen : code0000.length = code0100.length) {flags : List Byte}
    (hbits : ∀ i < code0000.length, bitAt flags i =
      some ((bitmapBits code0000 code0100).getD i false)) :
    (List.range code0000.length).foldlM (relocateByte flags page) code0000 =
      .ok (marked page code0000 code0100) := by
  rw [relocateBytes_eq (Nat.le_refl _) hbits]
  refine congrArg Except.ok (List.ext_getElem ?_ fun i hi hi' => ?_)
  · rw [List.length_mapIdx, marked, List.length_zipWith, ← hlen, Nat.min_self]
  · rw [List.length_mapIdx] at hi
    have hcount : (bitmapBits code0000 code0100).length = code0000.length := by
      rw [bitmapBits, List.length_zipWith, ← hlen, Nat.min_self]
    have hi₂ : i < code0100.length := hlen ▸ hi
    have hbit : (bitmapBits code0000 code0100).getD i false =
        decide ((code0100[i].toNat : Int) - code0000[i].toNat = 1) := by
      rw [List.getD_eq_getElem _ _ (hcount ▸ hi)]
      exact List.getElem_zipWith
    have hmarked : (marked page code0000 code0100)[i] =
        if (code0100[i].toNat : Int) - code0000[i].toNat = 1 then code0000[i] + page
        else code0000[i] := List.getElem_zipWith
    rw [List.getElem_mapIdx, hmarked, hbit]
    simp only [hi, true_and, decide_eq_true_eq]

theorem length_bitmapBits (hlen : code0000.length = code0100.length) :
    (bitmapBits code0000 code0100).length = code0000.length := by
  rw [bitmapBits, List.length_zipWith, ← hlen, Nat.min_self]

/-- The file of a module whose length has two bytes. -/
theorem sprRelocate_short {base : Nat} (hbase : base &&& 0xFF = 0) (hshort : code.length < 65536)
    (hbitmap : code.length / 8 ≤ bitmap.length) :
    sprRelocate (buildSpr code bitmap) base =
      (List.range code.length).foldlM
        (relocateByte (bitmap.take (code.length / 8)) (pageOf base)) code := by
  rw [sprRelocate_buildSpr hbase, Nat.mod_eq_of_lt hshort]
  dsimp only
  have htake : (padSectors (code ++ bitmap)).take code.length = code := by
    rw [padSectors, List.append_assoc, List.take_left]
  have hdrop : ((padSectors (code ++ bitmap)).drop code.length).take (code.length / 8) =
      bitmap.take (code.length / 8) := by
    rw [padSectors, List.append_assoc, List.drop_left, List.take_append_of_le_length hbitmap]
  have hcount : (bitmap.take (code.length / 8)).length = code.length / 8 := by
    rw [List.length_take, Nat.min_eq_left hbitmap]
  rw [htake, hdrop, if_neg (not_not_intro hcount)]

/-- Behind two bytes the length is lost. -/
theorem sprRelocate_long {base : Nat} {out : List Byte} (hbase : base &&& 0xFF = 0)
    (hrun : sprRelocate (buildSpr code bitmap) base = .ok out) :
    out.length ≤ code.length % 65536 := by
  rw [sprRelocate_buildSpr hbase] at hrun
  dsimp only at hrun
  split at hrun
  · exact nomatch hrun
  · rw [(relocateBytes_ok hrun).1, List.length_take]
    exact Nat.min_le_left _ _

/-- The bits that the loader has. -/
theorem bitAt_bitmap (hlen : code0000.length = code0100.length) (height : code0000.length % 8 = 0)
    {i : Nat} (hi : i < code0000.length) :
    bitAt ((bitmapBytes (bitmapBits code0000 code0100)).take (code0000.length / 8)) i =
      some ((bitmapBits code0000 code0100).getD i false) := by
  rw [bitAt_take, if_pos (by omega), bitmapBytes_eq]
  exact bitAt_pack (by decide) (length_bitmapBits hlen ▸ hi)

/-- **A module is relocated** exactly where its length has two bytes and is a multiple of 8,
and no byte that is to be moved wraps around between the assemblies. -/
theorem spr_relocates_iff (code0000 code0100 : List Byte) (base : Nat)
    (hlen : code0000.length = code0100.length) (happart : PageApart code0000 code0100)
    (hbase : base &&& 0xFF = 0) :
    Relocates code0000 code0100 base ↔
      code0000.length < 65536 ∧ code0000.length % 8 = 0 ∧
        (pageOf base = 0#8 ∨ (0xFF#8, 0x00#8) ∉ code0000.zip code0100) := by
  have hbuilt : sniosSpr code0000 code0100 =
      some (buildSpr code0000 (bitmapBytes (bitmapBits code0000 code0100))) :=
    if_neg (not_not_intro hlen)
  have hbitmap : code0000.length / 8 ≤ (bitmapBytes (bitmapBits code0000 code0100)).length := by
    rw [bitmapBytes_eq, length_pack, length_bitmapBits hlen]
    omega
  constructor
  · rintro ⟨spr, hspr, hrun⟩
    rw [hbuilt] at hspr
    rw [← Option.some.inj hspr] at hrun
    have hout : (relocated (pageOf base) code0000 code0100).length = code0000.length := by
      rw [relocated, List.length_zipWith, ← hlen, Nat.min_self]
    have hshort : code0000.length < 65536 := by
      have hle := sprRelocate_long hbase hrun
      rw [hout] at hle
      omega
    rw [sprRelocate_short hbase hshort hbitmap] at hrun
    -- the bits after the last whole byte are missing
    have height : code0000.length % 8 = 0 := by
      by_contra hrest
      refine (relocateBytes_ok hrun).2 (8 * (code0000.length / 8)) (by omega) ?_
      rw [bitAt_take, if_neg (by omega)]
    rw [relocate_marked hlen fun i hi => bitAt_bitmap hlen height hi] at hrun
    exact ⟨hshort, height, (marked_eq_iff happart).mp (Except.ok.inj hrun)⟩
  · rintro ⟨hshort, height, hwraps⟩
    refine ⟨_, hbuilt, ?_⟩
    rw [sprRelocate_short hbase hshort hbitmap,
      relocate_marked hlen fun i hi => bitAt_bitmap hlen height hi,
      (marked_eq_iff happart).mpr hwraps]

theorem pageApart_jump :
    PageApart [0xC3#8, 0x03#8, 0x00#8, 0xAF#8, 0xC9#8, 0x00#8, 0x00#8, 0x00#8]
      [0xC3#8, 0x03#8, 0x01#8, 0xAF#8, 0xC9#8, 0x00#8, 0x00#8, 0x00#8] := by
  refine .cons (.inl rfl) (.cons (.inl rfl) (.cons (.inr rfl) ?_))
  exact List.forall₂_same.mpr fun _ _ => .inl rfl

/-- A jump and five bytes more, loaded at 0xD800. -/
theorem spr_relocates_jump :
    Relocates [0xC3#8, 0x03#8, 0x00#8, 0xAF#8, 0xC9#8, 0x00#8, 0x00#8, 0x00#8]
      [0xC3#8, 0x03#8, 0x01#8, 0xAF#8, 0xC9#8, 0x00#8, 0x00#8, 0x00#8] 0xD800 :=
  (spr_relocates_iff [0xC3#8, 0x03#8, 0x00#8, 0xAF#8, 0xC9#8, 0x00#8, 0x00#8, 0x00#8]
    [0xC3#8, 0x03#8, 0x01#8, 0xAF#8, 0xC9#8, 0x00#8, 0x00#8, 0x00#8] 0xD800 rfl
    pageApart_jump rfl).mpr ⟨by simp, rfl, .inr (by decide)⟩

/-- A module of one byte is not loaded: there is no bitmap in an eighth of a byte. -/
theorem spr_single_byte : ¬∀ (code0000 code0100 : List Byte) (base : Nat),
    code0000.length = code0100.length → PageApart code0000 code0100 → base &&& 0xFF = 0 →
      Relocates code0000 code0100 base := by
  intro hall
  obtain ⟨spr, hspr, hrun⟩ := hall [0x00#8] [0x00#8] 0 rfl (.cons (.inl rfl) .nil) rfl
  have hbuilt : sniosSpr [0x00#8] [0x00#8] = some (buildSpr [0x00#8] [0x00#8]) := by decide +kernel
  rw [hbuilt] at hspr
  rw [← Option.some.inj hspr, sprRelocate_short rfl (by simp) (Nat.zero_le _)] at hrun
  exact (relocateBytes_ok hrun).2 0 Nat.one_pos rfl

end Formats
end Rc700
