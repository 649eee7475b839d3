import Rc700.Bdos.Seeking

/-!
# The file system: the allocation vector

A bit for each block of the drive, the first block in the highest bit of the first byte.
`getallocbit` rotates the bit of a block to the low end of the accumulator, and `rotr` puts it
back.  `get$block` looks for a free block to the left and to the right of a block, one step at a
time: what it takes is the nearest one (`getblock_takes`).
-/

namespace Rc700
namespace Bdos

/-- The byte of a block, `BC shr 3`. -/
def allocByte (b : Word) : Nat := (b >>> 3).toNat

/-- The number of shifts that bring the bit of a block to the low end. -/
def shiftCount (b : Word) : Nat := (b &&& 0b111#16).toNat + 1

/-- `getallocbit` -/
def getallocbit (alloc : Nat → Byte) (b : Word) : Byte :=
  (alloc (allocByte b)).rotateLeft (shiftCount b)

/-- `rotr` -/
def rotr (alloc : Nat → Byte) (b : Word) (a : Byte) : Nat → Byte :=
  Function.update alloc (allocByte b) (a.rotateRight (shiftCount b))

/-- `setallocbit` -/
def setallocbit (alloc : Nat → Byte) (b : Word) (e : Byte) : Nat → Byte :=
  rotr alloc b (getallocbit alloc b &&& 0b11111110#8 ||| e)

/-- The bit of a block, as `rar` puts it into the carry. -/
def allocated (alloc : Nat → Byte) (b : Word) : Bool := (getallocbit alloc b).getLsbD 0

/-- `get$block` at `lefttst`, with `left` and `right`, for so many passes. -/
def getblock (alloc : Nat → Byte) (maxall : Word) :
    Nat → Word → Word → Option (Word × (Nat → Byte))
  | 0, _, _ => none
  | n + 1, left, right =>
      let next := left - 1#16
      if left ≠ 0#16 ∧ ¬ allocated alloc next then
        some (next, rotr alloc next (getallocbit alloc next + 1#8))
      else
        let left := if left = 0#16 then left else next
        if right < maxall then
          let next := right + 1#16
          if ¬ allocated alloc next then
            some (next, rotr alloc next (getallocbit alloc next + 1#8))
          else getblock alloc maxall n left next
        -- past `maxall`: the left side is gone on with alone
        else if left = 0#16 then some (0#16, alloc)
        else getblock alloc maxall n left right

/-! ### Bits -/

theorem toNat_shiftCount (b : Word) : shiftCount b = b.toNat % 8 + 1 := by
  unfold shiftCount
  rw [BitVec.toNat_and]
  exact congrArg (· + 1) (Nat.and_two_pow_sub_one_eq_mod b.toNat 3)

theorem allocByte_eq (b : Word) : allocByte b = b.toNat / 8 := by
  unfold allocByte
  rw [BitVec.toNat_ushiftRight, Nat.shiftRight_eq_div_pow]

theorem rotateLeft_low : ∀ (k : Fin 8) (x : Byte),
    (x.rotateLeft (k.val + 1)).getLsbD 0 = x.getLsbD (7 - k.val) := by
  decide +kernel

theorem rotate_put : ∀ (e : Bool) (k : Fin 8) (x : Byte),
    (x.rotateLeft (k.val + 1) &&& 0b11111110#8 ||| (BitVec.ofBool e).setWidth 8).rotateRight
        (k.val + 1) =
      if e then x ||| 0x80#8 >>> k.val else x &&& ~~~(0x80#8 >>> k.val) := by
  decide +kernel

theorem getLsbD_mask : ∀ (k j : Fin 8),
    (0x80#8 >>> k.val).getLsbD (7 - j.val) = decide (j = k) := by
  decide

theorem allocated_eq (alloc : Nat → Byte) (b : Word) :
    allocated alloc b = (alloc (b.toNat / 8)).getLsbD (7 - b.toNat % 8) := by
  unfold allocated getallocbit
  rw [toNat_shiftCount, allocByte_eq]
  exact rotateLeft_low ⟨b.toNat % 8, Nat.mod_lt _ (by decide)⟩ _

theorem setallocbit_eq (alloc : Nat → Byte) (b : Word) (e : Bool) :
    setallocbit alloc b ((BitVec.ofBool e).setWidth 8) =
      Function.update alloc (b.toNat / 8)
        (if e then alloc (b.toNat / 8) ||| 0x80#8 >>> (b.toNat % 8)
         else alloc (b.toNat / 8) &&& ~~~(0x80#8 >>> (b.toNat % 8))) := by
  unfold setallocbit rotr getallocbit
  rw [toNat_shiftCount, allocByte_eq]
  exact congrArg _ (rotate_put e ⟨b.toNat % 8, Nat.mod_lt _ (by decide)⟩ _)

/-- One block is set or reset, and no other. -/
theorem allocated_setallocbit (alloc : Nat → Byte) (b c : Word) (e : Bool) :
    allocated (setallocbit alloc b ((BitVec.ofBool e).setWidth 8)) c =
      if c = b then e else allocated alloc c := by
  rw [allocated_eq, setallocbit_eq, allocated_eq]
  by_cases hbyte : c.toNat / 8 = b.toNat / 8
  · have hmask := getLsbD_mask ⟨b.toNat % 8, Nat.mod_lt _ (by decide)⟩
      ⟨c.toNat % 8, Nat.mod_lt _ (by decide)⟩
    have hiff : (⟨c.toNat % 8, Nat.mod_lt _ (by decide)⟩ : Fin 8) =
        ⟨b.toNat % 8, Nat.mod_lt _ (by decide)⟩ ↔ c = b := by
      rw [Fin.mk.injEq]
      exact ⟨fun h => BitVec.eq_of_toNat_eq (by omega), fun h => by rw [h]⟩
    simp only [decide_eq_decide.mpr hiff] at hmask
    have hlt : 7 - c.toNat % 8 < 8 := by omega
    rw [hbyte, Function.update_self]
    cases e with
    | true =>
        rw [if_pos rfl, BitVec.getLsbD_or, hmask]
        by_cases hc : c = b
        · simp [hc]
        · simp [hc]
    | false =>
        rw [if_neg Bool.false_ne_true, BitVec.getLsbD_and, BitVec.getLsbD_not, hmask,
          decide_eq_true hlt]
        by_cases hc : c = b
        · simp [hc]
        · simp [hc]
  · rw [Function.update_of_ne hbyte, if_neg fun h => hbyte (by rw [h])]

theorem add_one_put : ∀ x : Byte, x.getLsbD 0 = false →
    x + 1#8 = x &&& 0b11111110#8 ||| (BitVec.ofBool true).setWidth 8 := by
  decide +kernel

/-- `get$block` sets a bit that is zero with `inr`. -/
theorem rotr_add_one {alloc : Nat → Byte} {b : Word} (hfree : allocated alloc b = false) :
    rotr alloc b (getallocbit alloc b + 1#8) =
      setallocbit alloc b ((BitVec.ofBool true).setWidth 8) := by
  unfold setallocbit
  rw [add_one_put _ hfree]

/-! ### The nearest free block -/

/-- How far one block is from another. -/
def distance (b c : Word) : Nat := (b.toNat - c.toNat) + (c.toNat - b.toNat)

/-- The free block nearest to `start`, which is not looked at itself. -/
structure Nearest (alloc : Nat → Byte) (maxall start b : Word) : Prop where
  free : allocated alloc b = false
  le : b.toNat ≤ maxall.toNat
  ne : b ≠ start
  nearest : ∀ c : Word, c.toNat ≤ maxall.toNat → c ≠ start → allocated alloc c = false →
    distance start b ≤ distance start c

/-- The left side was looked at `d` steps far, and the right side `e` steps far. -/
structure Looked (alloc : Nat → Byte) (maxall start left right : Word) (d e : Nat) : Prop where
  leftAt : left.toNat = start.toNat - d
  rightAt : right.toNat = min (start.toNat + e) maxall.toNat
  taken : ∀ c : Word, left.toNat ≤ c.toNat → c.toNat ≤ right.toNat → c ≠ start →
    allocated alloc c = true

section Search

variable {alloc : Nat → Byte} {maxall start left right : Word} {d e : Nat}

theorem toNat_pos {b : Word} (h : b ≠ 0#16) : 0 < b.toNat :=
  Nat.pos_iff_ne_zero.mpr fun h0 => h (BitVec.eq_of_toNat_eq h0)

theorem toNat_sub_one {b : Word} (h : b ≠ 0#16) : (b - 1#16).toNat = b.toNat - 1 := by
  have hpos := toNat_pos h
  rw [BitVec.toNat_sub_of_le (by rw [BitVec.le_def]; exact hpos)]
  rfl

theorem toNat_add_one {b c : Word} (h : b.toNat < c.toNat) : (b + 1#16).toNat = b.toNat + 1 := by
  have hlt := c.isLt
  rw [BitVec.toNat_add]
  exact Nat.mod_eq_of_lt (by
    show _ + 1 < 2 ^ 16
    omega)

/-- A free block lies outside. -/
theorem Looked.outside (h : Looked alloc maxall start left right d e) {c : Word} (hne : c ≠ start)
    (hfree : allocated alloc c = false) : c.toNat < left.toNat ∨ right.toNat < c.toNat := by
  by_contra hin
  rw [h.taken c (by omega) (by omega) hne] at hfree
  cases hfree

theorem Looked.nearest_left (h : Looked alloc maxall start left right d d)
    (hstart : start.toNat ≤ maxall.toNat) (h0 : left ≠ 0#16)
    (hfree : allocated alloc (left - 1#16) = false) :
    Nearest alloc maxall start (left - 1#16) := by
  have hnext := toNat_sub_one h0
  have hpos := toNat_pos h0
  have hleft := h.leftAt
  have hright := h.rightAt
  refine ⟨hfree, by omega, fun heq => ?_, fun c hc hne hcfree => ?_⟩
  · have hnat := congrArg BitVec.toNat heq
    omega
  · have hout := h.outside hne hcfree
    unfold distance
    omega

theorem Looked.nearest_right (h : Looked alloc maxall start left right (d + 1) d)
    (hr : right.toNat < maxall.toNat) (hfree : allocated alloc (right + 1#16) = false) :
    Nearest alloc maxall start (right + 1#16) := by
  have hnext := toNat_add_one hr
  have hleft := h.leftAt
  have hright := h.rightAt
  refine ⟨hfree, by omega, fun heq => ?_, fun c hc hne hcfree => ?_⟩
  · have hnat := congrArg BitVec.toNat heq
    omega
  · have hout := h.outside hne hcfree
    unfold distance
    omega

/-- One step to the left, if that is not the end. -/
theorem Looked.step_left (h : Looked alloc maxall start left right d e)
    (htaken : left ≠ 0#16 → allocated alloc (left - 1#16) = true) :
    Looked alloc maxall start (if left = 0#16 then left else left - 1#16) right (d + 1) e := by
  obtain ⟨hleft, hright, hlook⟩ := h
  by_cases h0 : left = 0#16
  · rw [if_pos h0]
    refine ⟨?_, hright, hlook⟩
    have hzero := congrArg BitVec.toNat h0
    rw [BitVec.toNat_ofNat, Nat.zero_mod] at hzero
    omega
  · have hnext := toNat_sub_one h0
    rw [if_neg h0]
    refine ⟨by omega, hright, fun c hge hle hne => ?_⟩
    by_cases hc : c = left - 1#16
    · rw [hc]
      exact htaken h0
    · have hcne : c.toNat ≠ (left - 1#16).toNat := fun heq => hc (BitVec.eq_of_toNat_eq heq)
      exact hlook c (by omega) hle hne

theorem Looked.step_right (h : Looked alloc maxall start left right d e)
    (hr : right.toNat < maxall.toNat) (htaken : allocated alloc (right + 1#16) = true) :
    Looked alloc maxall start left (right + 1#16) d (e + 1) := by
  obtain ⟨hleft, hright, hlook⟩ := h
  have hnext := toNat_add_one hr
  refine ⟨hleft, by omega, fun c hge hle hne => ?_⟩
  by_cases hc : c = right + 1#16
  · rw [hc]
    exact htaken
  · have hcne : c.toNat ≠ (right + 1#16).toNat := fun heq => hc (BitVec.eq_of_toNat_eq heq)
    exact hlook c hge (by omega) hne

/-- What `get$block` returns: the nearest free block, which is taken now, or zero. -/
def Takes (alloc : Nat → Byte) (maxall start : Word) (result : Word × (Nat → Byte)) : Prop :=
  (Nearest alloc maxall start result.1 ∧
    result.2 = setallocbit alloc result.1 ((BitVec.ofBool true).setWidth 8)) ∨
  (result = (0#16, alloc) ∧
    ∀ c : Word, c.toNat ≤ maxall.toNat → c ≠ start → allocated alloc c = true)

theorem takes_nearest {b : Word} (h : Nearest alloc maxall start b) :
    Takes alloc maxall start (b, rotr alloc b (getallocbit alloc b + 1#8)) := by
  rw [rotr_add_one h.free]
  exact Or.inl ⟨h, rfl⟩

theorem getblock_from {n : Nat} (hlook : Looked alloc maxall start left right d d)
    (hstart : start.toNat ≤ maxall.toNat) (hn : left.toNat + (maxall.toNat - right.toNat) < n) :
    ∃ result, getblock alloc maxall n left right = some result ∧
      Takes alloc maxall start result := by
  induction n generalizing left right d with
  | zero => exact absurd hn (Nat.not_lt_zero _)
  | succ n ih =>
      unfold getblock
      simp only
      split
      · next hl =>
          exact ⟨_, rfl, takes_nearest
            (hlook.nearest_left hstart hl.1 (Bool.eq_false_iff.mpr hl.2))⟩
      · next hl =>
          have hhalf := hlook.step_left fun h0 => by
            by_contra hfree
            exact hl ⟨h0, hfree⟩
          have hless : (if left = 0#16 then left else left - 1#16) = 0#16 ∨
              (if left = 0#16 then left else left - 1#16).toNat < left.toNat := by
            by_cases h0 : left = 0#16
            · exact Or.inl (by rw [if_pos h0, h0])
            · rw [if_neg h0, toNat_sub_one h0]
              exact Or.inr (Nat.sub_lt (toNat_pos h0) Nat.one_pos)
          generalize (if left = 0#16 then left else left - 1#16) = left' at hhalf hless ⊢
          have hleft' : left'.toNat ≤ left.toNat := by
            rcases hless with h0 | hlt
            · rw [h0]
              exact Nat.zero_le _
            · exact Nat.le_of_lt hlt
          split
          · next hr =>
              have hnext := toNat_add_one hr
              have hr' : right.toNat < maxall.toNat := hr
              split
              · next hfree =>
                  exact ⟨_, rfl, takes_nearest (hhalf.nearest_right hr
                    (Bool.eq_false_iff.mpr hfree))⟩
              · next hbit =>
                  exact ih (hhalf.step_right hr (not_not.mp hbit)) (by omega)
          · next hr =>
              have hr' : ¬ right.toNat < maxall.toNat := hr
              have hright := hhalf.rightAt
              split
              · next h0 =>
                  refine ⟨_, rfl, Or.inr ⟨rfl, fun c hc hne => hhalf.taken c ?_ (by omega) hne⟩⟩
                  rw [h0]
                  exact Nat.zero_le _
              · next h0 =>
                  refine ih ⟨hhalf.leftAt, by omega, hhalf.taken⟩ ?_
                  have hlt := hless.resolve_left h0
                  omega

/-- At the start. -/
theorem looked_start (hstart : start.toNat ≤ maxall.toNat) :
    Looked alloc maxall start start start 0 0 := by
  refine ⟨rfl, by omega, fun c hge hle hne => ?_⟩
  exact absurd (BitVec.eq_of_toNat_eq (by omega)) hne

theorem passes_left : start.toNat + (maxall.toNat - start.toNat) < allPasses := by
  have hmax := maxall.isLt
  have hstart := start.isLt
  unfold allPasses
  omega

/-- **`get$block`** takes the nearest free block, if there is one. -/
theorem getblock_takes (hstart : start.toNat ≤ maxall.toNat) :
    ∃ result, getblock alloc maxall allPasses start start = some result ∧
      Takes alloc maxall start result :=
  getblock_from (looked_start hstart) hstart passes_left

end Search

/-- Behind the two blocks of a directory, from block 1 on. -/
theorem getblock_takes_two : ∃ result,
    getblock (fun i => if i = 0 then 0xC0#8 else 0#8) 242#16 allPasses 1#16 1#16 = some result ∧
      Takes (fun i => if i = 0 then 0xC0#8 else 0#8) 242#16 1#16 result :=
  getblock_takes (by decide)

end Bdos
end Rc700
