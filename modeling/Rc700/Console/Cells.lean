import Rc700.Console.Driver

/-!
# What the console driver does to cells

The packed bitmap is a plane of flags (`flags`), one for each screen position.
Every operation of the driver on the display memory is the same block move on the
plane of characters and on the plane of flags, and stores inside both areas only.
-/

namespace Rc700
namespace Console

open Library

/-! ### The bitmap as a plane of flags -/

/-- The bit of a position, most significant bit first. -/
def flagAt (bgstar : Nat → Byte) (p : Nat) : Bool :=
  (bgstar (p / 8)).getLsbD (7 - p % 8)

/-- The flags of the 2000 screen positions. -/
def flags (bgstar : Nat → Byte) : Nat → Bool :=
  fun p => if p < 2000 then flagAt bgstar p else false

theorem fillRange_const {α : Type*} (lo n : Nat) (v : α) :
    fillRange lo n v (fun _ => v) = fun _ => v := by
  funext a
  unfold fillRange
  rw [ite_self]

theorem copyRange_const {α : Type*} (src dst n : Nat) (v : α) :
    copyRange src dst n (fun _ => v) = fun _ => v := by
  funext a
  unfold copyRange
  rw [ite_self]

/-- Clearing bytes of the bitmap clears eight positions each. -/
theorem flags_fillRange (lo n : Nat) (bgstar : Nat → Byte) :
    flags (fillRange lo n 0#8 bgstar) = fillRange (8 * lo) (8 * n) false (flags bgstar) := by
  funext p
  unfold flags flagAt fillRange
  by_cases hin : lo ≤ p / 8 ∧ p / 8 < lo + n
  · rw [if_pos hin, if_pos (show 8 * lo ≤ p ∧ p < 8 * lo + 8 * n by omega)]
    simp
  · rw [if_neg hin, if_neg (show ¬ (8 * lo ≤ p ∧ p < 8 * lo + 8 * n) by omega)]

/-- Clearing the whole bitmap. -/
theorem flags_clearAll (bgstar : Nat → Byte) :
    flags (fillRange 0 250 0#8 bgstar) = fun _ => false := by
  rw [flags_fillRange]
  funext p
  unfold fillRange flags
  split
  · rfl
  · rw [if_neg (by omega)]

/-- Moving bytes of the bitmap moves eight positions each. -/
theorem flags_copyRange {src dst n : Nat} (hsrc : src + n ≤ 250) (hdst : dst + n ≤ 250)
    (bgstar : Nat → Byte) :
    flags (copyRange src dst n bgstar) =
      copyRange (8 * src) (8 * dst) (8 * n) (flags bgstar) := by
  funext p
  unfold flags flagAt copyRange
  by_cases hin : dst ≤ p / 8 ∧ p / 8 < dst + n
  · have hbyte : (8 * src + (p - 8 * dst)) / 8 = src + (p / 8 - dst) := by omega
    have hbit : (8 * src + (p - 8 * dst)) % 8 = p % 8 := by omega
    have hsrc' : 8 * src + (p - 8 * dst) < 2000 := by omega
    simp only [if_pos hin, if_pos (show 8 * dst ≤ p ∧ p < 8 * dst + 8 * n by omega),
      if_pos (show p < 2000 by omega), if_pos hsrc', hbyte, hbit]
  · rw [if_neg hin, if_neg (show ¬ (8 * dst ≤ p ∧ p < 8 * dst + 8 * n) by omega)]

theorem getLsbD_mask : ∀ k, k < 8 → ∀ i, i < 8 →
    (0x80#8 >>> k).getLsbD i = decide (i = 7 - k) := by
  decide

theorem getLsbD_keepFirst : ∀ k, k < 8 → ∀ i, i < 8 →
    (~~~(0xFF#8 >>> k)).getLsbD i = decide (8 - k ≤ i) := by
  decide

/-- Setting the bit of a position. -/
theorem flags_setBit {pos : Nat} (hpos : pos < 2000) (bgstar : Nat → Byte) :
    flags (Function.update bgstar (pos / 8)
      (bgstar (pos / 8) ||| (0x80#8 >>> (pos % 8)))) =
      Function.update (flags bgstar) pos true := by
  funext p
  unfold flags flagAt
  by_cases hbyte : p / 8 = pos / 8
  · rw [hbyte, Function.update_self, BitVec.getLsbD_or,
      getLsbD_mask (pos % 8) (by omega) (7 - p % 8) (by omega)]
    by_cases hp : p = pos
    · subst hp
      rw [Function.update_self, if_pos hpos]
      simp
    · rw [Function.update_of_ne hp, decide_eq_false (by omega), Bool.or_false, hbyte]
  · have hp : p ≠ pos := by
      rintro rfl
      exact hbyte rfl
    rw [Function.update_of_ne hbyte, Function.update_of_ne hp]

/-- Clearing the rest of a byte. -/
theorem flags_keepFirst (byteoff bitno : Nat) (hbit : bitno < 8) (bgstar : Nat → Byte) :
    flags (Function.update bgstar byteoff
      (bgstar byteoff &&& ~~~(0xFF#8 >>> bitno))) =
      fillRange (8 * byteoff + bitno) (8 - bitno) false (flags bgstar) := by
  funext p
  unfold flags flagAt fillRange
  by_cases hbyte : p / 8 = byteoff
  · subst hbyte
    rw [Function.update_self, BitVec.getLsbD_and,
      getLsbD_keepFirst bitno hbit (7 - p % 8) (by omega)]
    by_cases hin : bitno ≤ p % 8
    · rw [decide_eq_false (by omega), Bool.and_false, ite_self, if_pos (by omega)]
    · have hout : ¬ (8 * (p / 8) + bitno ≤ p ∧ p < 8 * (p / 8) + bitno + (8 - bitno)) := by
        omega
      rw [decide_eq_true (by omega), Bool.and_true, if_neg hout]
  · have hout : ¬ (8 * byteoff + bitno ≤ p ∧ p < 8 * byteoff + bitno + (8 - bitno)) := by
      omega
    rw [Function.update_of_ne hbyte, if_neg hout]

/-- A bitmap without flags is all zero. -/
theorem bgstar_eq_zero {bgstar : Nat → Byte} (hflags : flags bgstar = fun _ => false)
    {i : Nat} (hi : i < 250) : bgstar i = 0#8 := by
  apply BitVec.eq_of_getLsbD_eq
  intro j hj
  have hflag := congrFun hflags (8 * i + (7 - j))
  have hbyte : (8 * i + (7 - j)) / 8 = i := by omega
  have hbit : 7 - (8 * i + (7 - j)) % 8 = j := by omega
  simp only [flags, flagAt, hbyte, hbit] at hflag
  rw [if_pos (by omega)] at hflag
  rw [hflag]
  simp

/-! ### What the operations do to characters and flags

While background mode has not been used there are no flags to move: the bitmap is
left alone, and the operation on an empty plane of flags changes nothing. -/

section

variable {bgflg : BgFlg} {v : Video} {pos count : Nat}

/-- There are no flags before background mode is used. -/
def NoFlags (bgflg : BgFlg) (v : Video) : Prop :=
  bgflg = .off → flags v.bgstar = fun _ => false

theorem scroll_screen :
    (v.scroll bgflg).screen = fillRange 1920 80 0x20#8 (copyRange 80 0 1920 v.screen) := by
  unfold Video.scroll
  split <;> simp [Video.ldir_screen_screen]

theorem scroll_flags (hno : NoFlags bgflg v) :
    flags (v.scroll bgflg).bgstar =
      fillRange 1920 80 false (copyRange 80 0 1920 (flags v.bgstar)) := by
  unfold Video.scroll
  split
  · next hoff =>
    rw [Video.memset_screen_bgstar, Video.ldir_screen_bgstar, hno hoff, copyRange_const,
      fillRange_const]
  · rw [Video.memset_bgstar_bgstar, Video.ldir_bgstar_bgstar (by omega), flags_fillRange,
      flags_copyRange (by omega) (by omega), Video.memset_screen_bgstar, Video.ldir_screen_bgstar]

theorem scroll_inBounds (hv : v.InBounds) : (v.scroll bgflg).InBounds := by
  have hscreen : ((v.ldir .screen 80 0 1920).memset .screen 1920 0x20#8 80).InBounds :=
    (hv.ldir (by decide)).memset (by decide)
  unfold Video.scroll
  split
  · exact hscreen
  · exact (hscreen.ldir (by decide)).memset (by decide)

theorem clearScreen_screen :
    (v.clearScreen bgflg).screen = fillRange 0 2000 0x20#8 v.screen := by
  unfold Video.clearScreen
  split <;> simp

theorem clearScreen_flags (hno : NoFlags bgflg v) :
    flags (v.clearScreen bgflg).bgstar = fun _ => false := by
  unfold Video.clearScreen
  split
  · next hoff => exact hno hoff
  · rw [Video.memset_bgstar_bgstar, flags_clearAll]

theorem clearScreen_inBounds (hv : v.InBounds) : (v.clearScreen bgflg).InBounds := by
  have hscreen : (v.memset .screen 0 0x20#8 2000).InBounds := hv.memset (by decide)
  unfold Video.clearScreen
  split
  · exact hscreen
  · exact hscreen.memset (by decide)

/-- Byte offsets into the bitmap fit a byte. -/
theorem byteoff_eq (hpos : pos < 2000) : (pos >>> 3) % 256 = pos / 8 := by
  rw [Nat.shiftRight_eq_div_pow]
  omega

theorem bgSetBit_flags (hpos : pos < 2000) :
    flags (v.bgSetBit pos).bgstar = Function.update (flags v.bgstar) pos true := by
  unfold Video.bgSetBit
  rw [byteoff_eq hpos, Video.poke_bgstar_bgstar, flags_setBit hpos]

theorem bgSetBit_inBounds (hpos : pos < 2000) (hv : v.InBounds) :
    (v.bgSetBit pos).InBounds := by
  unfold Video.bgSetBit
  rw [byteoff_eq hpos]
  exact hv.poke (show pos / 8 < 250 by omega)

/-! #### Clearing to a byte boundary

Both erase operations end at the end of a row, where a byte of the bitmap ends. -/

theorem bgClearBytes_eq {byteoff whole : Nat} (hwhole : whole < 256) :
    v.bgClearBytes byteoff (8 * whole) =
      if whole ≠ 0 then v.memset .bgstar byteoff 0#8 whole else v := by
  have hshift : ((8 * whole) >>> 3) % 256 = whole := by
    rw [Nat.shiftRight_eq_div_pow]
    omega
  have htail : ¬ (8 * whole) % 8 ≠ 0 := by omega
  simp only [Video.bgClearBytes, hshift, if_neg htail]

theorem bgClearBytes_flags {byteoff whole : Nat} (hwhole : whole < 256) :
    flags (v.bgClearBytes byteoff (8 * whole)).bgstar =
      fillRange (8 * byteoff) (8 * whole) false (flags v.bgstar) := by
  rw [bgClearBytes_eq hwhole]
  split
  · rw [Video.memset_bgstar_bgstar, flags_fillRange]
  · next hzero =>
    rw [not_not.mp hzero, Nat.mul_zero, fillRange_zero]

theorem bgClearBytes_inBounds {byteoff whole : Nat} (hroom : byteoff + whole ≤ 250)
    (hv : v.InBounds) : (v.bgClearBytes byteoff (8 * whole)).InBounds := by
  rw [bgClearBytes_eq (by omega)]
  split
  · exact hv.memset hroom
  · exact hv

theorem bgClearBytes_screen {byteoff : Nat} : (v.bgClearBytes byteoff count).screen = v.screen := by
  simp only [Video.bgClearBytes]
  split <;> split <;> rfl

theorem bgClearFrom_screen : (v.bgClearFrom bgflg pos count).screen = v.screen := by
  simp only [Video.bgClearFrom]
  split
  · rfl
  · split
    · rw [bgClearBytes_screen, Video.poke_bgstar_screen]
    · rw [bgClearBytes_screen]

/-- The count that is left after the partial byte is a number of whole bytes. -/
theorem restCount_eq (hend : (pos + count) % 8 = 0) :
    (if 8 - pos % 8 < count then count - (8 - pos % 8) else 0) =
      8 * ((pos + count) / 8 - (pos / 8 + 1)) := by
  split <;> omega

theorem bgClearFrom_flags (hon : bgflg ≠ .off) (hpos : pos + count ≤ 2000)
    (hend : (pos + count) % 8 = 0) (hcount : 0 < count) :
    flags (v.bgClearFrom bgflg pos count).bgstar =
      fillRange pos count false (flags v.bgstar) := by
  simp only [Video.bgClearFrom, if_neg hon, byteoff_eq (show pos < 2000 by omega)]
  split
  · have hnext : (pos / 8 + 1) % 256 = pos / 8 + 1 := by omega
    have hstart : 8 * (pos / 8) + pos % 8 = pos := by omega
    have hrest : 8 * (pos / 8 + 1) = pos + (8 - pos % 8) := by omega
    rw [restCount_eq hend, bgClearBytes_flags (by omega), Video.poke_bgstar_bgstar,
      hnext, flags_keepFirst (pos / 8) (pos % 8) (by omega), hstart, hrest, fillRange_append]
    congr 1
    omega
  · have hcount' : count = 8 * (count / 8) := by omega
    rw [hcount', bgClearBytes_flags (by omega)]
    congr 1
    omega

theorem bgClearFrom_inBounds (hpos : pos + count ≤ 2000) (hend : (pos + count) % 8 = 0)
    (hcount : 0 < count) (hv : v.InBounds) : (v.bgClearFrom bgflg pos count).InBounds := by
  simp only [Video.bgClearFrom, byteoff_eq (show pos < 2000 by omega)]
  split
  · exact hv
  · split
    · rw [restCount_eq hend]
      exact bgClearBytes_inBounds (by omega) (hv.poke (show pos / 8 < 250 by omega))
    · have hcount' : count = 8 * (count / 8) := by omega
      rw [hcount']
      exact bgClearBytes_inBounds (by omega) hv

/-- Characters and flags of a range of positions are cleared. -/
def Video.eraseRange (bgflg : BgFlg) (pos count : Nat) (v : Video) : Video :=
  let v := v.memset .screen pos 0x20#8 count
  if bgflg = .off then v else v.bgClearFrom bgflg pos count

theorem eraseRange_screen :
    (v.eraseRange bgflg pos count).screen = fillRange pos count 0x20#8 v.screen := by
  simp only [Video.eraseRange]
  split
  · rw [Video.memset_screen_screen]
  · rw [bgClearFrom_screen, Video.memset_screen_screen]

theorem eraseRange_flags (hno : NoFlags bgflg v) (hpos : pos + count ≤ 2000)
    (hend : (pos + count) % 8 = 0) (hcount : 0 < count) :
    flags (v.eraseRange bgflg pos count).bgstar =
      fillRange pos count false (flags v.bgstar) := by
  simp only [Video.eraseRange]
  split
  · next hoff =>
    rw [Video.memset_screen_bgstar, hno hoff, fillRange_const]
  · next hon =>
    rw [bgClearFrom_flags hon hpos hend hcount, Video.memset_screen_bgstar]

theorem eraseRange_inBounds (hpos : pos + count ≤ 2000) (hend : (pos + count) % 8 = 0)
    (hcount : 0 < count) (hv : v.InBounds) : (v.eraseRange bgflg pos count).InBounds := by
  have hscreen : (v.memset .screen pos 0x20#8 count).InBounds := hv.memset hpos
  simp only [Video.eraseRange]
  split
  · exact hscreen
  · exact bgClearFrom_inBounds hpos hend hcount hscreen

theorem eraseToEol_eq (x : Fin 80) (y : Fin 25) :
    v.eraseToEol bgflg (80 * y.val) x.val =
      v.eraseRange bgflg (80 * y.val + x.val) (80 - x.val) := by
  have hx := x.isLt
  have hy := y.isLt
  have hpos : (80 * y.val + x.val) % 65536 = 80 * y.val + x.val := by omega
  have hcount : (80 + 65536 - x.val) % 65536 = 80 - x.val := by omega
  simp only [Video.eraseToEol, Video.eraseRange, hpos, hcount]

theorem eraseToEos_eq (x : Fin 80) (y : Fin 25) :
    v.eraseToEos bgflg (80 * y.val) x.val =
      v.eraseRange bgflg (80 * y.val + x.val) (2000 - (80 * y.val + x.val)) := by
  have hx := x.isLt
  have hy := y.isLt
  have hpos : (80 * y.val + x.val) % 65536 = 80 * y.val + x.val := by omega
  have hcount : (2000 + 65536 - (80 * y.val + x.val)) % 65536 =
      2000 - (80 * y.val + x.val) := by omega
  simp only [Video.eraseToEos, Video.eraseRange, hpos, hcount]

/-! #### Moving lines -/

section

variable {n : Nat} {area : Area} {src dst : Nat}

/-- The guard against an empty move changes nothing. -/
theorem guarded_ldir_screen {guard : Prop} [Decidable guard] (hguard : ¬ guard → n = 0)
    (hdown : dst ≤ src) :
    (if guard then v.ldir .screen src dst n else v).screen = copyRange src dst n v.screen := by
  split
  · exact Video.ldir_screen_screen hdown
  · next hempty =>
    rw [hguard hempty, copyRange_zero]

theorem guarded_ldir_bgstar {guard : Prop} [Decidable guard] (hguard : ¬ guard → n = 0)
    (hdown : dst ≤ src) :
    (if guard then v.ldir .bgstar src dst n else v).bgstar = copyRange src dst n v.bgstar := by
  split
  · exact Video.ldir_bgstar_bgstar hdown
  · next hempty =>
    rw [hguard hempty, copyRange_zero]

theorem guarded_lddr_screen {guard : Prop} [Decidable guard] (hguard : ¬ guard → n = 0)
    (hup : src ≤ dst) (hroom : n ≤ src + 1) :
    (if guard then v.lddr .screen src dst n else v).screen =
      copyRange (src + 1 - n) (dst + 1 - n) n v.screen := by
  split
  · exact Video.lddr_screen_screen hup hroom
  · next hempty =>
    rw [hguard hempty, copyRange_zero]

theorem guarded_lddr_bgstar {guard : Prop} [Decidable guard] (hguard : ¬ guard → n = 0)
    (hup : src ≤ dst) (hroom : n ≤ src + 1) :
    (if guard then v.lddr .bgstar src dst n else v).bgstar =
      copyRange (src + 1 - n) (dst + 1 - n) n v.bgstar := by
  split
  · exact Video.lddr_bgstar_bgstar hup hroom
  · next hempty =>
    rw [hguard hempty, copyRange_zero]

theorem guarded_inv {guard : Prop} [Decidable guard] {Inv : Video → Prop} {w : Video}
    (hw : Inv w) (hv : Inv v) : Inv (if guard then w else v) := by
  split
  · exact hw
  · exact hv

theorem guarded_screen {guard : Prop} [Decidable guard] {w : Video} (hw : w.screen = v.screen) :
    (if guard then w else v).screen = v.screen := by
  split
  · exact hw
  · rfl

theorem guarded_bgstar {guard : Prop} [Decidable guard] {w : Video} (hw : w.bgstar = v.bgstar) :
    (if guard then w else v).bgstar = v.bgstar := by
  split
  · exact hw
  · rfl

end

/-- Row offsets of the bitmap. -/
theorem rowoff_eq (y : Fin 25) : ((80 * y.val) >>> 3) % 256 = 10 * y.val := by
  rw [byteoff_eq (by omega)]
  omega

theorem deleteLine_screen (y : Fin 25) :
    (v.deleteLine bgflg (80 * y.val)).screen =
      fillRange 1920 80 0x20#8
        (copyRange (80 * y.val + 80) (80 * y.val) (1920 - 80 * y.val) v.screen) := by
  have hcount : (1920 + 65536 - 80 * y.val) % 65536 = 1920 - 80 * y.val := by omega
  simp only [Video.deleteLine, hcount]
  split
  · rw [Video.memset_screen_screen, guarded_ldir_screen (by omega) (by omega)]
  · rw [Video.memset_bgstar_screen, guarded_screen Video.ldir_bgstar_screen,
      Video.memset_screen_screen, guarded_ldir_screen (by omega) (by omega)]

theorem deleteLine_flags (hno : NoFlags bgflg v) (y : Fin 25) :
    flags (v.deleteLine bgflg (80 * y.val)).bgstar =
      fillRange 1920 80 false
        (copyRange (80 * y.val + 80) (80 * y.val) (1920 - 80 * y.val) (flags v.bgstar)) := by
  have hcount : (240 + 256 - 10 * y.val) % 256 = 240 - 10 * y.val := by omega
  simp only [Video.deleteLine, rowoff_eq, hcount]
  split
  · next hoff =>
    rw [Video.memset_screen_bgstar, guarded_bgstar Video.ldir_screen_bgstar, hno hoff,
      copyRange_const, fillRange_const]
  · have hsrc : 8 * (10 * y.val + 10) = 80 * y.val + 80 := by omega
    have hdst : 8 * (10 * y.val) = 80 * y.val := by omega
    have hn : 8 * (240 - 10 * y.val) = 1920 - 80 * y.val := by omega
    rw [Video.memset_bgstar_bgstar, guarded_ldir_bgstar (by omega) (by omega),
      Video.memset_screen_bgstar, guarded_bgstar Video.ldir_screen_bgstar, flags_fillRange,
      flags_copyRange (by omega) (by omega), hsrc, hdst, hn]

theorem deleteLine_inBounds (hv : v.InBounds) (y : Fin 25) :
    (v.deleteLine bgflg (80 * y.val)).InBounds := by
  have hcount : (1920 + 65536 - 80 * y.val) % 65536 = 1920 - 80 * y.val := by omega
  have hcount' : (240 + 256 - 10 * y.val) % 256 = 240 - 10 * y.val := by omega
  simp only [Video.deleteLine, rowoff_eq, hcount, hcount']
  have hscreen : ((if 80 * y.val ≠ 1920 then
      v.ldir .screen (80 * y.val + 80) (80 * y.val) (1920 - 80 * y.val) else v).memset
        .screen 1920 0x20#8 80).InBounds :=
    (guarded_inv (hv.ldir (show 80 * y.val + (1920 - 80 * y.val) ≤ 2000 by omega)) hv).memset
      (by decide)
  split
  · exact hscreen
  · exact (guarded_inv (hscreen.ldir
      (show 10 * y.val + (240 - 10 * y.val) ≤ 250 by omega)) hscreen).memset (by decide)

theorem insertLine_screen (y : Fin 25) :
    (v.insertLine bgflg (80 * y.val)).screen =
      fillRange (80 * y.val) 80 0x20#8
        (copyRange (80 * y.val) (80 * y.val + 80) (1920 - 80 * y.val) v.screen) := by
  have hcount : (1920 + 65536 - 80 * y.val) % 65536 = 1920 - 80 * y.val := by omega
  have hsrc : 1919 + 1 - (1920 - 80 * y.val) = 80 * y.val := by omega
  have hdst : 1999 + 1 - (1920 - 80 * y.val) = 80 * y.val + 80 := by omega
  simp only [Video.insertLine, hcount]
  split
  · rw [Video.memset_screen_screen, guarded_lddr_screen (by omega) (by omega) (by omega), hsrc,
      hdst]
  · rw [Video.memset_bgstar_screen, guarded_screen Video.lddr_bgstar_screen,
      Video.memset_screen_screen, guarded_lddr_screen (by omega) (by omega) (by omega), hsrc, hdst]

theorem insertLine_flags (hno : NoFlags bgflg v) (y : Fin 25) :
    flags (v.insertLine bgflg (80 * y.val)).bgstar =
      fillRange (80 * y.val) 80 false
        (copyRange (80 * y.val) (80 * y.val + 80) (1920 - 80 * y.val) (flags v.bgstar)) := by
  have hcount : (240 + 256 - 10 * y.val) % 256 = 240 - 10 * y.val := by omega
  simp only [Video.insertLine, rowoff_eq, hcount]
  split
  · next hoff =>
    rw [Video.memset_screen_bgstar, guarded_bgstar Video.lddr_screen_bgstar, hno hoff,
      copyRange_const, fillRange_const]
  · have hsrc : 8 * (239 + 1 - (240 - 10 * y.val)) = 80 * y.val := by omega
    have hdst : 8 * (249 + 1 - (240 - 10 * y.val)) = 80 * y.val + 80 := by omega
    have hn : 8 * (240 - 10 * y.val) = 1920 - 80 * y.val := by omega
    have hrow : 8 * (10 * y.val) = 80 * y.val := by omega
    rw [Video.memset_bgstar_bgstar, guarded_lddr_bgstar (by omega) (by omega) (by omega),
      Video.memset_screen_bgstar, guarded_bgstar Video.lddr_screen_bgstar, flags_fillRange,
      flags_copyRange (by omega) (by omega), hsrc, hdst, hn, hrow]

theorem insertLine_inBounds (hv : v.InBounds) (y : Fin 25) :
    (v.insertLine bgflg (80 * y.val)).InBounds := by
  have hcount : (1920 + 65536 - 80 * y.val) % 65536 = 1920 - 80 * y.val := by omega
  have hcount' : (240 + 256 - 10 * y.val) % 256 = 240 - 10 * y.val := by omega
  simp only [Video.insertLine, rowoff_eq, hcount, hcount']
  have hscreen : ((if 1920 - 80 * y.val ≠ 0 then
      v.lddr .screen 1919 1999 (1920 - 80 * y.val) else v).memset
        .screen (80 * y.val) 0x20#8 80).InBounds :=
    (guarded_inv (hv.lddr (by omega) (by decide)) hv).memset
      (show 80 * y.val + 80 ≤ 2000 by omega)
  split
  · exact hscreen
  · exact (guarded_inv (hscreen.lddr (by omega) (by decide)) hscreen).memset
      (show 10 * y.val + 10 ≤ 250 by omega)

/-! #### Clearing the foreground -/

theorem mask_eq_twoPow : ∀ k, k < 8 → 0x80#8 >>> (7 - k) = BitVec.twoPow 8 k := by
  decide

theorem twoPow_ne_zero : ∀ k, k < 8 → BitVec.twoPow 8 k ≠ 0#8 := by
  decide

theorem and_mask_eq_zero {bits : Byte} {k : Nat} (hk : k < 8) :
    bits &&& (0x80#8 >>> (7 - k)) = 0#8 ↔ bits.getLsbD k = false := by
  rw [mask_eq_twoPow k hk, BitVec.and_twoPow]
  by_cases hbit : bits.getLsbD k = true
  · rw [if_pos hbit, hbit]
    simp [twoPow_ne_zero k hk]
  · rw [if_neg hbit]
    simpa using hbit

theorem blankUnset_bgstar (bits : Byte) (n p : Nat) :
    (v.blankUnset bits n p).bgstar = v.bgstar := by
  induction n generalizing p v with
  | zero => rfl
  | succ n ih =>
      rw [Video.blankUnset, ih]
      exact guarded_bgstar Video.poke_screen_bgstar

theorem blankUnset_screen (bits : Byte) {n : Nat} (hn : n ≤ 8) (p : Nat) :
    (v.blankUnset bits n p).screen = fun a =>
      if p ≤ a ∧ a < p + n ∧ bits.getLsbD (n - 1 - (a - p)) = false then 0x20#8
      else v.screen a := by
  -- by induction on the bits that are left; `bits` stays, so the mask moves with `n`
  induction n generalizing p v with
  | zero =>
      funext a
      rw [if_neg (by omega)]
      rfl
  | succ n ih =>
      rw [Video.blankUnset, ih (by omega)]
      funext a
      by_cases hfirst : a = p
      · -- the position of the first bit is only stored to in this round
        subst hfirst
        rw [if_neg (by omega)]
        by_cases hclear : bits.getLsbD n = false
        · rw [if_pos ((and_mask_eq_zero (by omega)).mpr hclear), if_pos (by simpa using hclear),
            Video.poke_screen_screen, Function.update_self]
        · rw [if_neg (mt (and_mask_eq_zero (by omega)).mp hclear), if_neg (by simpa using hclear)]
      -- the store of this round is elsewhere
      · have hkeep : (if bits &&& (0x80#8 >>> (7 - n)) = 0#8 then v.poke .screen p 0x20#8
            else v).screen a = v.screen a := by
          split
          · rw [Video.poke_screen_screen, Function.update_of_ne hfirst]
          · rfl
        rw [hkeep]
        rcases Nat.lt_or_gt_of_ne hfirst with hbefore | hafter
        · rw [if_neg (by omega), if_neg (by omega)]
        · have hindex : n - 1 - (a - (p + 1)) = n + 1 - 1 - (a - p) := by omega
          rw [hindex]
          congr 1
          apply propext
          constructor
          · rintro ⟨hlo, hhi, hbit⟩
            exact ⟨by omega, by omega, hbit⟩
          · rintro ⟨hlo, hhi, hbit⟩
            exact ⟨by omega, by omega, hbit⟩

theorem blankUnset_inBounds (bits : Byte) {n p : Nat} (hroom : p + n ≤ 2000) (hv : v.InBounds) :
    (v.blankUnset bits n p).InBounds := by
  induction n generalizing p v with
  | zero => exact hv
  | succ n ih =>
      rw [Video.blankUnset]
      exact ih (by omega) (guarded_inv (hv.poke (show p < 2000 by omega)) hv)

theorem clearForegroundFrom_bgstar (n i p : Nat) :
    (v.clearForegroundFrom n i p).bgstar = v.bgstar := by
  induction n generalizing i p v with
  | zero => rfl
  | succ n ih => rw [Video.clearForegroundFrom, ih, blankUnset_bgstar]

theorem clearForegroundFrom_screen (n i : Nat) :
    (v.clearForegroundFrom n i (8 * i)).screen = fun a =>
      if 8 * i ≤ a ∧ a < 8 * (i + n) ∧ flagAt v.bgstar a = false then 0x20#8
      else v.screen a := by
  -- by induction on the bytes of the table that are left, from the byte `i` on
  induction n generalizing i v with
  | zero =>
      funext a
      rw [if_neg (by omega)]
      rfl
  | succ n ih =>
      have hnext : 8 * i + 8 = 8 * (i + 1) := by omega
      rw [Video.clearForegroundFrom, hnext, ih, blankUnset_bgstar, blankUnset_screen _ (by omega)]
      funext a
      dsimp only
      by_cases hbyte : a / 8 = i
      · have hindex : 8 - 1 - (a - 8 * i) = 7 - a % 8 := by omega
        have hflag : (v.bgstar i).getLsbD (7 - a % 8) = flagAt v.bgstar a := by
          rw [flagAt, hbyte]
        rw [if_neg (by omega), hindex, hflag]
        congr 1
        apply propext
        constructor
        · rintro ⟨hlo, hhi, hbit⟩
          exact ⟨by omega, by omega, hbit⟩
        · rintro ⟨hlo, hhi, hbit⟩
          exact ⟨by omega, by omega, hbit⟩
      · have hother : ¬ (8 * i ≤ a ∧ a < 8 * i + 8 ∧
            (v.bgstar i).getLsbD (8 - 1 - (a - 8 * i)) = false) := by omega
        rw [if_neg hother]
        congr 1
        apply propext
        constructor
        · rintro ⟨hlo, hhi, hbit⟩
          exact ⟨by omega, by omega, hbit⟩
        · rintro ⟨hlo, hhi, hbit⟩
          exact ⟨by omega, by omega, hbit⟩

theorem clearForegroundFrom_inBounds {n i p : Nat} (hroom : p + 8 * n ≤ 2000)
    (hv : v.InBounds) : (v.clearForegroundFrom n i p).InBounds := by
  induction n generalizing i p v with
  | zero => exact hv
  | succ n ih =>
      rw [Video.clearForegroundFrom]
      exact ih (by omega) (blankUnset_inBounds _ (by omega) hv)

end

end Console
end Rc700
