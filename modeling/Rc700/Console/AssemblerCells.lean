import Rc700.Console.Assembler

/-!
# What the assembler driver does to cells

The bitmap of the assembler driver is a plane of flags too (`asmFlags`), the other way
round in each byte.  Every operation of the driver on the display memory is a block
move on the plane of characters and on the plane of flags, the same on both, but for
`ESCK`: it clears the flags of the cursor's byte, and then repeats the next byte over
the rest of the row.
-/

namespace Rc700
namespace Console

open Library

variable {v : Video} {bgflg : BgFlg}

/-! ### The bitmap as a plane of flags -/

/-- The flag of a position in the bitmap of the assembler driver. -/
def asmFlagAt (bgstar : Nat → Byte) (p : Nat) : Bool := (bgstar (p / 8)).getLsbD (p % 8)

/-- The flags of the 2000 screen positions. -/
def asmFlags (bgstar : Nat → Byte) : Nat → Bool :=
  fun p => if p < 2000 then asmFlagAt bgstar p else false

/-- The bitmap in the order of the C driver. -/
def mirrored (bgstar : Nat → Byte) : Nat → Byte := fun i => (bgstar i).reverse

theorem asmFlags_eq (bgstar : Nat → Byte) : asmFlags bgstar = flags (mirrored bgstar) := by
  funext p
  unfold asmFlags flags asmFlagAt flagAt mirrored
  have hindex : 8 - 1 - (7 - p % 8) = p % 8 := by omega
  rw [BitVec.getLsbD_reverse, BitVec.getMsbD_eq_getLsbD, hindex, decide_eq_true (by omega),
    Bool.true_and]

/-- Clearing bytes of the bitmap clears eight positions each. -/
theorem asmFlags_fillRange (lo n : Nat) (bgstar : Nat → Byte) :
    asmFlags (fillRange lo n 0#8 bgstar) = fillRange (8 * lo) (8 * n) false (asmFlags bgstar) := by
  have hmirrored : mirrored (fillRange lo n 0#8 bgstar) = fillRange lo n 0#8 (mirrored bgstar) := by
    funext i
    unfold mirrored fillRange
    split
    · decide
    · rfl
  rw [asmFlags_eq, asmFlags_eq, hmirrored, flags_fillRange]

/-- Clearing the whole bitmap. -/
theorem asmFlags_clearAll (bgstar : Nat → Byte) :
    asmFlags (fillRange 0 250 0#8 bgstar) = fun _ => false := by
  rw [asmFlags_fillRange]
  funext p
  unfold fillRange asmFlags
  split
  · rfl
  · rw [if_neg (by omega)]

/-- Moving bytes of the bitmap moves eight positions each. -/
theorem asmFlags_copyRange {src dst n : Nat} (hsrc : src + n ≤ 250) (hdst : dst + n ≤ 250)
    (bgstar : Nat → Byte) :
    asmFlags (copyRange src dst n bgstar) =
      copyRange (8 * src) (8 * dst) (8 * n) (asmFlags bgstar) := by
  have hmirrored : mirrored (copyRange src dst n bgstar) =
      copyRange src dst n (mirrored bgstar) := by
    funext i
    unfold mirrored copyRange
    split <;> rfl
  rw [asmFlags_eq, asmFlags_eq, hmirrored, flags_copyRange hsrc hdst]

theorem getLsbD_ofNat_pow : ∀ k, k < 8 → ∀ i, i < 8 →
    (BitVec.ofNat 8 (2 ^ k)).getLsbD i = decide (i = k) := by
  decide

theorem getLsbD_ofNat_pow_sub : ∀ k, k < 8 → ∀ i, i < 8 →
    (BitVec.ofNat 8 (2 ^ k - 1)).getLsbD i = decide (i < k) := by
  decide

/-- Setting the bit of a position. -/
theorem asmFlags_setBit {pos : Nat} (hpos : pos < 2000) (bgstar : Nat → Byte) :
    asmFlags (Function.update bgstar (pos / 8)
      (bgstar (pos / 8) ||| BitVec.ofNat 8 (2 ^ (pos % 8)))) =
      Function.update (asmFlags bgstar) pos true := by
  funext p
  unfold asmFlags asmFlagAt
  by_cases hbyte : p / 8 = pos / 8
  · rw [hbyte, Function.update_self, BitVec.getLsbD_or,
      getLsbD_ofNat_pow (pos % 8) (by omega) (p % 8) (by omega)]
    by_cases hp : p = pos
    · subst hp
      rw [Function.update_self, if_pos hpos]
      simp
    · rw [Function.update_of_ne hp, decide_eq_false (by omega), Bool.or_false, hbyte]
  · have hp : p ≠ pos := by
      rintro rfl
      exact hbyte rfl
    rw [Function.update_of_ne hbyte, Function.update_of_ne hp]

/-- Clearing the rest of a byte. -/
theorem asmFlags_keepFirst (offset bitno : Nat) (hbit : bitno < 8) (bgstar : Nat → Byte) :
    asmFlags (Function.update bgstar offset
      (bgstar offset &&& BitVec.ofNat 8 (2 ^ bitno - 1))) =
      fillRange (8 * offset + bitno) (8 - bitno) false (asmFlags bgstar) := by
  funext p
  unfold asmFlags asmFlagAt fillRange
  by_cases hbyte : p / 8 = offset
  · subst hbyte
    rw [Function.update_self, BitVec.getLsbD_and,
      getLsbD_ofNat_pow_sub bitno hbit (p % 8) (by omega)]
    by_cases hin : bitno ≤ p % 8
    · rw [decide_eq_false (by omega), Bool.and_false, ite_self, if_pos (by omega)]
    · have hout : ¬ (8 * (p / 8) + bitno ≤ p ∧ p < 8 * (p / 8) + bitno + (8 - bitno)) := by
        omega
      rw [decide_eq_true (by omega), Bool.and_true, if_neg hout]
  · have hout : ¬ (8 * offset + bitno ≤ p ∧ p < 8 * offset + bitno + (8 - bitno)) := by
      omega
    rw [Function.update_of_ne hbyte, if_neg hout]

/-- Repeating a byte over those behind it. -/
theorem asmFlags_smear {a n : Nat} (hroom : a + 1 + n ≤ 250) (bgstar : Nat → Byte) :
    asmFlags (fillRange (a + 1) n (bgstar a) bgstar) = fun p =>
      if 8 * (a + 1) ≤ p ∧ p < 8 * (a + 1 + n) then asmFlags bgstar (8 * a + p % 8)
      else asmFlags bgstar p := by
  funext p
  unfold asmFlags asmFlagAt fillRange
  by_cases hin : a + 1 ≤ p / 8 ∧ p / 8 < a + 1 + n
  · have hbyte : (8 * a + p % 8) / 8 = a := by omega
    have hbit : (8 * a + p % 8) % 8 = p % 8 := by omega
    rw [if_pos hin, if_pos (show 8 * (a + 1) ≤ p ∧ p < 8 * (a + 1 + n) by omega), hbyte, hbit,
      if_pos (show p < 2000 by omega), if_pos (show 8 * a + p % 8 < 2000 by omega)]
  · rw [if_neg hin, if_neg (show ¬ (8 * (a + 1) ≤ p ∧ p < 8 * (a + 1 + n)) by omega)]

/-! ### Fills by block moves -/

/-- A byte stored and moved on to the next cells. -/
theorem smearUp_screen (a n : Nat) (b : Byte) :
    ((v.poke .screen a b).ldir .screen a (a + 1) n).screen = fillRange a (n + 1) b v.screen := by
  show Library.ldir n a (a + 1) (Function.update v.screen a b) = _
  rw [ldir_succ, Function.update_self, update_eq_fillRange, fillRange_append, Nat.add_comm 1 n]

/-- A byte stored and moved on to the cells before it. -/
theorem smearDown (mem : Nat → Byte) {a n : Nat} (hroom : n ≤ a) (b : Byte) :
    Library.lddr n a (a - 1) (Function.update mem a b) = fillRange (a - n) (n + 1) b mem := by
  have hlast : a = a - n + n := by omega
  rw [lddr_pred n a hroom, Function.update_self, update_eq_fillRange]
  funext p
  unfold fillRange
  by_cases hbefore : a - n ≤ p ∧ p < a - n + n
  · rw [if_pos hbefore, if_pos (by omega)]
  · rw [if_neg hbefore]
    by_cases hat : a ≤ p ∧ p < a + 1
    · rw [if_pos hat, if_pos (by omega)]
    · rw [if_neg hat, if_neg (by omega)]

theorem smearDown_screen {a n : Nat} (hroom : n ≤ a) (b : Byte) :
    ((v.poke .screen a b).movdwn .screen a (a - 1) n).screen =
      fillRange (a - n) (n + 1) b v.screen := by
  unfold Video.movdwn
  split
  · exact smearDown v.screen hroom b
  · next hempty =>
    rw [not_not.mp hempty, Video.poke_screen_screen, update_eq_fillRange, Nat.sub_zero]

/-! ### What the operations do to characters -/

@[simp] theorem movup_bgstar_screen {src dst n : Nat} :
    (v.movup .bgstar src dst n).screen = v.screen :=
  guarded_screen rfl

@[simp] theorem movdwn_bgstar_screen {src dst n : Nat} :
    (v.movdwn .bgstar src dst n).screen = v.screen :=
  guarded_screen rfl

@[simp] theorem clrbit_screen {offset bitno : Nat} : (v.clrbit offset bitno).screen = v.screen :=
  rfl

theorem fill_screen (locbuf locbbu : Nat) :
    (v.fill bgflg locbuf locbbu).screen = fillRange locbuf 80 32#8 v.screen := by
  simp only [Video.fill]
  split
  · exact smearUp_screen locbuf 79 32#8
  · exact smearUp_screen locbuf 79 32#8

theorem scrollAsm_screen :
    (v.scrollAsm bgflg).screen = fillRange 1920 80 32#8 (copyRange 80 0 1920 v.screen) := by
  simp only [Video.scrollAsm]
  split
  · rw [fill_screen, Video.ldir_screen_screen (by omega)]
  · rw [fill_screen, Video.ldir_bgstar_screen, Video.ldir_screen_screen (by omega)]

theorem esce_screen : (v.esce bgflg).screen = fillRange 0 2000 32#8 v.screen := by
  have hfill : ((v.poke .screen 1999 32#8).lddr .screen 1999 1998 1999).screen =
      fillRange 0 2000 32#8 v.screen := smearDown v.screen (le_refl 1999) 32#8
  simp only [Video.esce]
  split
  · exact hfill
  · rw [Video.lddr_bgstar_screen, Video.poke_bgstar_screen, hfill]

theorem esck_screen (x : Fin 80) (y : Fin 25) :
    (v.esck bgflg (80 * y.val) x.val).screen =
      fillRange (80 * y.val + x.val) (80 - x.val) 32#8 v.screen := by
  have hx := x.isLt
  have hcount : (256 - x.val + 79) % 256 = 79 - x.val := by omega
  have hfill : ((v.poke .screen (80 * y.val + 79) 32#8).movdwn .screen (80 * y.val + 79)
      (80 * y.val + 79 - 1) (79 - x.val)).screen =
      fillRange (80 * y.val + x.val) (80 - x.val) 32#8 v.screen := by
    have hlow : 80 * y.val + 79 - (79 - x.val) = 80 * y.val + x.val := by omega
    have hlen : 79 - x.val + 1 = 80 - x.val := by omega
    rw [smearDown_screen (by omega), hlow, hlen]
  simp only [Video.esck, hcount]
  split
  · exact hfill
  · split
    · rw [clrbit_screen, hfill]
    · rw [movup_bgstar_screen, clrbit_screen, hfill]

theorem escy_screen (x : Fin 80) (y : Fin 25) :
    (v.escy bgflg (80 * y.val) x.val).screen =
      fillRange (80 * y.val + x.val) (2000 - (80 * y.val + x.val)) 32#8 v.screen := by
  have hx := x.isLt
  have hcount : (1999 + 65536 - (80 * y.val + x.val)) % 65536 =
      1999 - (80 * y.val + x.val) := by omega
  have hfill : ((v.poke .screen 1999 32#8).movdwn .screen 1999 1998
      (1999 - (80 * y.val + x.val))).screen =
      fillRange (80 * y.val + x.val) (2000 - (80 * y.val + x.val)) 32#8 v.screen := by
    have hlow : 1999 - (1999 - (80 * y.val + x.val)) = 80 * y.val + x.val := by omega
    have hlen : 1999 - (80 * y.val + x.val) + 1 = 2000 - (80 * y.val + x.val) := by omega
    have hsmear := smearDown_screen (v := v)
      (show 1999 - (80 * y.val + x.val) ≤ 1999 by omega) 32#8
    rwa [hlow, hlen] at hsmear
  simp only [Video.escy, hcount]
  split
  · exact hfill
  · split
    · rw [clrbit_screen, hfill]
    · rw [movdwn_bgstar_screen, Video.poke_bgstar_screen, clrbit_screen, hfill]

theorem escdl_screen (y : Fin 25) :
    (v.escdl bgflg (80 * y.val)).screen =
      fillRange 1920 80 32#8
        (copyRange (80 * y.val + 80) (80 * y.val) (1920 - 80 * y.val) v.screen) := by
  have hcount : (1920 + 65536 - 80 * y.val) % 65536 = 1920 - 80 * y.val := by omega
  simp only [Video.escdl, hcount]
  split
  · rw [fill_screen, Video.movup, guarded_ldir_screen (by omega) (by omega)]
  · rw [fill_screen, movup_bgstar_screen, Video.movup, guarded_ldir_screen (by omega) (by omega)]

theorem escil_screen (y : Fin 25) :
    (v.escil bgflg (80 * y.val)).screen =
      fillRange (80 * y.val) 80 32#8
        (copyRange (80 * y.val) (80 * y.val + 80) (1920 - 80 * y.val) v.screen) := by
  have hcount : (1920 + 65536 - 80 * y.val) % 65536 = 1920 - 80 * y.val := by omega
  have hsrc : 1919 + 1 - (1920 - 80 * y.val) = 80 * y.val := by omega
  have hdst : 1999 + 1 - (1920 - 80 * y.val) = 80 * y.val + 80 := by omega
  simp only [Video.escil, hcount]
  split
  · rw [fill_screen, Video.movdwn, guarded_lddr_screen (by omega) (by omega) (by omega), hsrc,
      hdst]
  · rw [fill_screen, movdwn_bgstar_screen, Video.movdwn,
      guarded_lddr_screen (by omega) (by omega) (by omega), hsrc, hdst]

/-! ### What the operations do to flags -/

theorem movdwn_screen_bgstar {src dst n : Nat} :
    (v.movdwn .screen src dst n).bgstar = v.bgstar :=
  guarded_bgstar rfl

theorem movup_screen_bgstar {src dst n : Nat} :
    (v.movup .screen src dst n).bgstar = v.bgstar :=
  guarded_bgstar rfl

/-- There are no flags before background mode is used. -/
def NoAsmFlags (bgflg : BgFlg) (v : Video) : Prop :=
  bgflg = .off → asmFlags v.bgstar = fun _ => false

theorem smearUp_bgstar (a n : Nat) (b : Byte) :
    ((v.poke .bgstar a b).ldir .bgstar a (a + 1) n).bgstar = fillRange a (n + 1) b v.bgstar := by
  show Library.ldir n a (a + 1) (Function.update v.bgstar a b) = _
  rw [ldir_succ, Function.update_self, update_eq_fillRange, fillRange_append, Nat.add_comm 1 n]

theorem smearDown_bgstar {a n : Nat} (hroom : n ≤ a) (b : Byte) :
    ((v.poke .bgstar a b).movdwn .bgstar a (a - 1) n).bgstar =
      fillRange (a - n) (n + 1) b v.bgstar := by
  unfold Video.movdwn
  split
  · exact smearDown v.bgstar hroom b
  · next hempty =>
    rw [not_not.mp hempty, Video.poke_bgstar_bgstar, update_eq_fillRange, Nat.sub_zero]

theorem fill_flags (hon : bgflg ≠ .off) (locbuf locbbu : Nat) :
    asmFlags (v.fill bgflg locbuf locbbu).bgstar =
      fillRange (8 * locbbu) 80 false (asmFlags v.bgstar) := by
  simp only [Video.fill, if_neg hon]
  rw [smearUp_bgstar, asmFlags_fillRange]
  rfl

theorem fill_off (hoff : bgflg = .off) (locbuf locbbu : Nat) :
    (v.fill bgflg locbuf locbbu).bgstar = v.bgstar := by
  simp only [Video.fill, if_pos hoff]
  rfl

theorem scrollAsm_flags (hno : NoAsmFlags bgflg v) :
    asmFlags (v.scrollAsm bgflg).bgstar =
      fillRange 1920 80 false (copyRange 80 0 1920 (asmFlags v.bgstar)) := by
  simp only [Video.scrollAsm]
  split
  · next hoff =>
    rw [fill_off hoff, Video.ldir_screen_bgstar, hno hoff, copyRange_const, fillRange_const]
  · next hon =>
    rw [fill_flags hon, Video.ldir_bgstar_bgstar (by omega), Video.ldir_screen_bgstar,
      asmFlags_copyRange (by omega) (by omega)]

theorem esce_flags (hno : NoAsmFlags bgflg v) :
    asmFlags (v.esce bgflg).bgstar = fun _ => false := by
  simp only [Video.esce]
  split
  · next hoff => exact hno hoff
  · have hfill : ∀ w : Video, ((w.poke .bgstar 249 0#8).lddr .bgstar 249 248 249).bgstar =
        fillRange 0 250 0#8 w.bgstar := fun w => smearDown w.bgstar (le_refl 249) 0#8
    rw [hfill, asmFlags_clearAll]

theorem clrbit_flags (offset bitno : Nat) (hbit : bitno < 8) :
    asmFlags (v.clrbit offset bitno).bgstar =
      fillRange (8 * offset + bitno) (8 - bitno) false (asmFlags v.bgstar) := by
  unfold Video.clrbit
  rw [Video.poke_bgstar_bgstar, asmFlags_keepFirst offset bitno hbit]

theorem movup_smear_flags {a n : Nat} (hroom : a + 1 + n ≤ 250) :
    asmFlags (v.movup .bgstar a (a + 1) n).bgstar = fun p =>
      if 8 * (a + 1) ≤ p ∧ p < 8 * (a + 1 + n) then asmFlags v.bgstar (8 * a + p % 8)
      else asmFlags v.bgstar p := by
  unfold Video.movup
  split
  · show asmFlags (Library.ldir n a (a + 1) v.bgstar) = _
    rw [ldir_succ, asmFlags_smear hroom]
  · next hempty =>
    funext p
    rw [if_neg (by omega)]

/-- `ESCK` clears the rest of the cursor's byte, and repeats the next one over the
bytes behind it. -/
theorem esck_flags (hno : NoAsmFlags bgflg v) (x : Fin 80) (y : Fin 25) :
    asmFlags (v.esck bgflg (80 * y.val) x.val).bgstar = fun p =>
      if 80 * y.val + x.val ≤ p ∧ p < 80 * y.val + 80 then
        if (p - 80 * y.val) / 8 = x.val / 8 then false
        else asmFlags v.bgstar (80 * y.val + 8 * (x.val / 8 + 1) + p % 8)
      else asmFlags v.bgstar p := by
  have hx := x.isLt
  have hy := y.isLt
  have hoffset : (80 * y.val + x.val) / 8 = 10 * y.val + x.val / 8 := by omega
  have hbit : (80 * y.val + x.val) % 8 = x.val % 8 := by omega
  have hcount : (255 - x.val / 8 + 9) % 256 = if x.val / 8 = 9 then 255 else 8 - x.val / 8 := by
    split <;> omega
  simp only [Video.esck, hoffset, hbit, hcount]
  split
  · next hoff =>
    rw [movdwn_screen_bgstar, Video.poke_screen_bgstar, hno hoff]
    funext p
    split
    · split <;> rfl
    · rfl
  · have hclear : ∀ w : Video, w.bgstar = v.bgstar →
        asmFlags (w.clrbit (10 * y.val + x.val / 8) (x.val % 8)).bgstar =
          fillRange (80 * y.val + x.val) (8 - x.val % 8) false (asmFlags v.bgstar) := by
      intro w hw
      have hstart : 8 * (10 * y.val + x.val / 8) + x.val % 8 = 80 * y.val + x.val := by omega
      rw [clrbit_flags _ _ (by omega), hw, hstart]
    generalize hw : (v.poke .screen (80 * y.val + 79) 32#8).movdwn .screen (80 * y.val + 79)
      (80 * y.val + 79 - 1) ((256 - x.val + 79) % 256) = w
    have hcleared := hclear w (by rw [← hw, movdwn_screen_bgstar, Video.poke_screen_bgstar])
    by_cases hlast : x.val / 8 = 9
    · rw [if_pos hlast, if_pos (by omega), hcleared]
      funext p
      unfold fillRange
      by_cases hin : 80 * y.val + x.val ≤ p ∧ p < 80 * y.val + 80
      · rw [if_pos (by omega), if_pos hin, if_pos (by omega)]
      · rw [if_neg (by omega), if_neg hin]
    · rw [if_neg hlast, if_neg (by omega), movup_smear_flags (by omega), hcleared]
      funext p
      unfold fillRange
      by_cases hin : 80 * y.val + x.val ≤ p ∧ p < 80 * y.val + 80
      · rw [if_pos hin]
        by_cases hsame : (p - 80 * y.val) / 8 = x.val / 8
        · rw [if_pos hsame, if_neg (by omega), if_pos (by omega)]
        · have hnext : 8 * (10 * y.val + x.val / 8 + 1) + p % 8 =
              80 * y.val + 8 * (x.val / 8 + 1) + p % 8 := by omega
          rw [if_neg hsame, hnext]
          by_cases hbehind : 8 * (10 * y.val + x.val / 8 + 1 + 1) ≤ p
          · rw [if_pos (by omega), if_neg (by omega)]
          -- the byte that is repeated stays as it is
          · have hbyte : p = 80 * y.val + 8 * (x.val / 8 + 1) + p % 8 := by omega
            rw [if_neg (by omega), if_neg (by omega), ← hbyte]
      · rw [if_neg hin, if_neg (by omega), if_neg (by omega)]

theorem escy_flags (hno : NoAsmFlags bgflg v) (x : Fin 80) (y : Fin 25) :
    asmFlags (v.escy bgflg (80 * y.val) x.val).bgstar =
      fillRange (80 * y.val + x.val) (2000 - (80 * y.val + x.val)) false (asmFlags v.bgstar) := by
  have hx := x.isLt
  have hy := y.isLt
  have hcount : (248 + 65536 - (80 * y.val + x.val) / 8) % 65536 =
      if (80 * y.val + x.val) / 8 = 249 then 65535 else 248 - (80 * y.val + x.val) / 8 := by
    split <;> omega
  have hbyte : 8 * ((80 * y.val + x.val) / 8) + (80 * y.val + x.val) % 8 = 80 * y.val + x.val :=
    Nat.div_add_mod _ 8
  simp only [Video.escy, hcount]
  split
  · next hoff =>
    rw [movdwn_screen_bgstar, Video.poke_screen_bgstar, hno hoff, fillRange_const]
  · have hclear : ∀ w : Video, w.bgstar = v.bgstar →
        asmFlags (w.clrbit ((80 * y.val + x.val) / 8) ((80 * y.val + x.val) % 8)).bgstar =
          fillRange (80 * y.val + x.val) (8 - (80 * y.val + x.val) % 8) false
            (asmFlags v.bgstar) := by
      intro w hw
      rw [clrbit_flags _ _ (by omega), hw, hbyte]
    generalize hw : (v.poke .screen 1999 32#8).movdwn .screen 1999 1998
      ((1999 + 65536 - (80 * y.val + x.val)) % 65536) = w
    have hcleared := hclear w (by rw [← hw, movdwn_screen_bgstar, Video.poke_screen_bgstar])
    by_cases hlast : (80 * y.val + x.val) / 8 = 249
    · rw [if_pos hlast, if_pos (by omega), hcleared]
      congr 1
      omega
    · have hlow : 249 - (248 - (80 * y.val + x.val) / 8) = (80 * y.val + x.val) / 8 + 1 := by
        omega
      have hlen : 8 * (248 - (80 * y.val + x.val) / 8 + 1) =
          2000 - (80 * y.val + x.val) - (8 - (80 * y.val + x.val) % 8) := by omega
      have hstart : 8 * ((80 * y.val + x.val) / 8 + 1) =
          80 * y.val + x.val + (8 - (80 * y.val + x.val) % 8) := by omega
      rw [if_neg hlast, if_neg (by omega), smearDown_bgstar (by omega), asmFlags_fillRange,
        hcleared, hlow, hlen, hstart, fillRange_append]
      congr 1
      omega

theorem escdl_flags (hno : NoAsmFlags bgflg v) (y : Fin 25) :
    asmFlags (v.escdl bgflg (80 * y.val)).bgstar =
      fillRange 1920 80 false
        (copyRange (80 * y.val + 80) (80 * y.val) (1920 - 80 * y.val) (asmFlags v.bgstar)) := by
  have hoffset : 80 * y.val / 8 = 10 * y.val := by omega
  have hcount : (240 + 65536 - 10 * y.val) % 65536 = 240 - 10 * y.val := by omega
  simp only [Video.escdl, hoffset, hcount]
  split
  · next hoff =>
    rw [fill_off hoff, movup_screen_bgstar, hno hoff, copyRange_const, fillRange_const]
  · next hon =>
    have hsrc : 8 * (10 * y.val + 10) = 80 * y.val + 80 := by omega
    have hdst : 8 * (10 * y.val) = 80 * y.val := by omega
    have hn : 8 * (240 - 10 * y.val) = 1920 - 80 * y.val := by omega
    rw [fill_flags hon, Video.movup, guarded_ldir_bgstar (by omega) (by omega),
      movup_screen_bgstar, asmFlags_copyRange (by omega) (by omega), hsrc, hdst, hn]

theorem escil_flags (hno : NoAsmFlags bgflg v) (y : Fin 25) :
    asmFlags (v.escil bgflg (80 * y.val)).bgstar =
      fillRange (80 * y.val) 80 false
        (copyRange (80 * y.val) (80 * y.val + 80) (1920 - 80 * y.val) (asmFlags v.bgstar)) := by
  have hoffset : 80 * y.val / 8 = 10 * y.val := by omega
  have hcount : (240 + 65536 - 10 * y.val) % 65536 = 240 - 10 * y.val := by omega
  simp only [Video.escil, hoffset, hcount]
  split
  · next hoff =>
    rw [fill_off hoff, movdwn_screen_bgstar, hno hoff, copyRange_const, fillRange_const]
  · next hon =>
    have hsrc : 8 * (239 + 1 - (240 - 10 * y.val)) = 80 * y.val := by omega
    have hdst : 8 * (249 + 1 - (240 - 10 * y.val)) = 80 * y.val + 80 := by omega
    have hn : 8 * (240 - 10 * y.val) = 1920 - 80 * y.val := by omega
    have hrow : 8 * (10 * y.val) = 80 * y.val := by omega
    rw [fill_flags hon, Video.movdwn, guarded_lddr_bgstar (by omega) (by omega) (by omega),
      movdwn_screen_bgstar, asmFlags_copyRange (by omega) (by omega), hsrc, hdst, hn, hrow]

/-! ### Clearing the foreground -/

theorem esccfByte_bgstar (bits : Byte) (n p : Nat) :
    (v.esccfByte bits n p).bgstar = v.bgstar := by
  induction n generalizing bits p v with
  | zero => rfl
  | succ n ih =>
      rw [Video.esccfByte, ih]
      split <;> rfl

theorem esccfFrom_bgstar (n i p : Nat) : (v.esccfFrom n i p).bgstar = v.bgstar := by
  induction n generalizing i p v with
  | zero => rfl
  | succ n ih => rw [Video.esccfFrom, ih, esccfByte_bgstar]

theorem esccf_bgstar (v : Video) : v.esccf.bgstar = v.bgstar := esccfFrom_bgstar 250 0 0


theorem esccfByte_screen (bits : Byte) (n p : Nat) :
    (v.esccfByte bits n p).screen = fun a =>
      if p ≤ a ∧ a < p + n ∧ bits.getLsbD (a - p) = false then 32#8 else v.screen a := by
  -- by induction on the bits that are left, which move on to bit 0
  induction n generalizing bits p v with
  | zero =>
      funext a
      rw [if_neg (by omega)]
      rfl
  | succ n ih =>
      rw [Video.esccfByte, ih]
      funext a
      by_cases hfirst : a = p
      · subst hfirst
        rw [if_neg (by omega), Nat.sub_self]
        cases hbit : bits.getLsbD 0 with
        | true => rw [if_pos rfl, if_neg (by simp)]
        | false =>
            rw [if_neg Bool.false_ne_true, if_pos ⟨le_refl a, by omega, rfl⟩,
              Video.poke_screen_screen, Function.update_self]
      -- the store of this round is elsewhere
      · have hkeep : (if bits.getLsbD 0 then v else v.poke .screen p 32#8).screen a =
            v.screen a := by
          split
          · rfl
          · rw [Video.poke_screen_screen, Function.update_of_ne hfirst]
        rw [hkeep]
        rcases Nat.lt_or_gt_of_ne hfirst with hbefore | hafter
        · rw [if_neg (by omega), if_neg (by omega)]
        · have hindex : 1 + (a - (p + 1)) = a - p := by omega
          rw [BitVec.getLsbD_ushiftRight, hindex]
          congr 1
          apply propext
          constructor
          · rintro ⟨hlo, hhi, hbit⟩
            exact ⟨by omega, by omega, hbit⟩
          · rintro ⟨hlo, hhi, hbit⟩
            exact ⟨by omega, by omega, hbit⟩

theorem esccfFrom_screen (n i : Nat) :
    (v.esccfFrom n i (8 * i)).screen = fun a =>
      if 8 * i ≤ a ∧ a < 8 * (i + n) ∧ asmFlagAt v.bgstar a = false then 32#8
      else v.screen a := by
  -- by induction on the bytes of the bitmap that are left, from the byte `i` on
  induction n generalizing i v with
  | zero =>
      funext a
      rw [if_neg (by omega)]
      rfl
  | succ n ih =>
      have hnext : 8 * i + 8 = 8 * (i + 1) := by omega
      rw [Video.esccfFrom, hnext, ih, esccfByte_bgstar, esccfByte_screen]
      funext a
      dsimp only
      by_cases hbyte : a / 8 = i
      · have hindex : a - 8 * i = a % 8 := by omega
        have hflag : (v.bgstar i).getLsbD (a % 8) = asmFlagAt v.bgstar a := by
          rw [asmFlagAt, hbyte]
        rw [if_neg (by omega), hindex, hflag]
        congr 1
        apply propext
        constructor
        · rintro ⟨hlo, hhi, hbit⟩
          exact ⟨by omega, by omega, hbit⟩
        · rintro ⟨hlo, hhi, hbit⟩
          exact ⟨by omega, by omega, hbit⟩
      · have hother : ¬ (8 * i ≤ a ∧ a < 8 * i + 8 ∧
            (v.bgstar i).getLsbD (a - 8 * i) = false) := by omega
        rw [if_neg hother]
        congr 1
        apply propext
        constructor
        · rintro ⟨hlo, hhi, hbit⟩
          exact ⟨by omega, by omega, hbit⟩
        · rintro ⟨hlo, hhi, hbit⟩
          exact ⟨by omega, by omega, hbit⟩

end Console
end Rc700
