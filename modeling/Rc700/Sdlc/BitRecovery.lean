import Rc700.Sdlc.Encoder
import Mathlib.Algebra.Order.Floor.Semifield
import Mathlib.Data.List.GetD
import Mathlib.Data.Nat.Cast.Order.Field
import Mathlib.Tactic.Linarith
import Mathlib.Tactic.Ring

/-!
# From samples to cells

A capture holds each cell of the line for the same number of samples.  Run lengths give the
cells back up to the last run, as long as no run but the idle line is longer than the cap
(`samplesToBits_capture`).  The phase stays in the middle of the cells, and gives all cells
from the first transition on (`dpllBits_capture`).

In both, the levels of all bits but the last are there, behind some of the idle line.
-/

namespace Rc700
namespace Sdlc

variable {rxdBit : Fin 8} {sps : Nat}

/-! ### Captures -/

/-- The mask of the pin. -/
def maskOf (rxdBit : Fin 8) : Byte := 1#8 <<< rxdBit.val

/-- The samples of cells. -/
def sampled (sps : Nat) (rxdBit : Fin 8) (cells : List Bool) : List Byte :=
  cells.flatMap fun lvl => List.replicate sps (sampleOf rxdBit lvl)

theorem level_sampleOf : ∀ (rxdBit : Fin 8) (lvl : Bool),
    level (maskOf rxdBit) (sampleOf rxdBit lvl) = lvl := by
  decide

theorem sampled_cons (lvl : Bool) (cells : List Bool) :
    sampled sps rxdBit (lvl :: cells) =
      List.replicate sps (sampleOf rxdBit lvl) ++ sampled sps rxdBit cells := rfl

theorem sampled_replicate (n : Nat) (lvl : Bool) :
    sampled sps rxdBit (List.replicate n lvl) = List.replicate (n * sps) (sampleOf rxdBit lvl) := by
  induction n with
  | zero =>
      rw [Nat.zero_mul]
      rfl
  | succ n ih =>
      rw [List.replicate_succ, sampled_cons, ih, ← List.replicate_add, Nat.succ_mul, Nat.add_comm]

/-- A capture is the samples of the idle line, of the levels, and of the idle line. -/
theorem oversample_eq (levels : List Bool) (leadingIdle trailingIdle : Nat) :
    oversample levels sps rxdBit leadingIdle trailingIdle =
      sampled sps rxdBit
        (List.replicate leadingIdle true ++ levels ++ List.replicate trailingIdle true) := by
  unfold oversample sampled
  rw [List.flatMap_append, List.flatMap_append]
  congr 1
  · congr 1
    exact (sampled_replicate leadingIdle true).symm
  · exact (sampled_replicate trailingIdle true).symm

theorem length_sampled (cells : List Bool) :
    (sampled sps rxdBit cells).length = cells.length * sps := by
  induction cells with
  | nil => exact (Nat.zero_mul sps).symm
  | cons lvl cells ih =>
      rw [sampled_cons, List.length_append, List.length_replicate, ih, List.length_cons,
        Nat.succ_mul, Nat.add_comm]

/-- The sample at an index is of the cell that the index is in. -/
theorem getD_sampled (hsps : 0 < sps) {cells : List Bool} {j : Nat}
    (hj : j < cells.length * sps) :
    (sampled sps rxdBit cells).getD j 0#8 = sampleOf rxdBit (cells.getD (j / sps) false) := by
  induction cells generalizing j with
  | nil =>
      rw [List.length_nil, Nat.zero_mul] at hj
      exact absurd hj (Nat.not_lt_zero j)
  | cons lvl cells ih =>
      rw [sampled_cons]
      by_cases hfirst : j < sps
      · rw [List.getD_append _ _ _ _ (by rwa [List.length_replicate]), List.getD_replicate _ hfirst,
          Nat.div_eq_of_lt hfirst]
        rfl
      · have hback : j - sps < cells.length * sps := by
          rw [List.length_cons, Nat.succ_mul] at hj
          omega
        have hdiv : j / sps = (j - sps) / sps + 1 := Nat.div_eq_sub_div hsps (by omega)
        rw [List.getD_append_right _ _ _ _ (by rw [List.length_replicate]; omega),
          List.length_replicate, ih hback, hdiv]
        rfl

/-! ### Run lengths -/

theorem pyRound_natCast (k : Nat) : pyRound k = k := by
  unfold pyRound
  have hfloor : ⌊(k : ℚ)⌋ = k := Int.floor_natCast k
  rw [hfloor]
  have hdiff : ((k : ℚ) - ((k : Int) : ℚ)) < 1 / 2 := by
    rw [Int.cast_natCast, sub_self]
    norm_num
  exact if_pos hdiff

theorem runBits_mul (hsps : 0 < sps) {k : Nat} (hk : 1 ≤ k) : runBits sps (k * sps) = min 8 k := by
  have hne : (sps : ℚ) ≠ 0 := Nat.cast_ne_zero.mpr (Nat.pos_iff_ne_zero.mp hsps)
  have hquotient : ((k * sps : Nat) : ℚ) / sps = k := by
    rw [Nat.cast_mul]
    exact mul_div_cancel_right₀ _ hne
  unfold runBits MAX_RUN_BITS
  rw [hquotient, pyRound_natCast]
  omega

/-- What comes of a line of cells, within a run of `k`. -/
def cellRuns : Bool → Nat → List Bool → List Bool
  | _, _, [] => []
  | prev, k, c :: cells =>
      if c = prev then cellRuns prev (k + 1) cells
      else List.replicate (min 8 k) prev ++ cellRuns c 1 cells

/-- Samples of one level prolong the run. -/
theorem quantize_replicate (rxdBit : Fin 8) (q : ℚ) (prev : Bool) (run n : Nat)
    (samples : List Byte) :
    quantize (maskOf rxdBit) q prev run (List.replicate n (sampleOf rxdBit prev) ++ samples) =
      quantize (maskOf rxdBit) q prev (run + n) samples := by
  induction n generalizing run with
  | zero => rfl
  | succ n ih =>
      rw [List.replicate_succ, List.cons_append, quantize, if_pos (level_sampleOf rxdBit prev), ih]
      congr 1
      omega

theorem quantize_sampled (rxdBit : Fin 8) (hsps : 0 < sps) (cells : List Bool) (prev : Bool)
    {k : Nat}
    (hk : 1 ≤ k) :
    quantize (maskOf rxdBit) sps prev (k * sps) (sampled sps rxdBit cells) =
      cellRuns prev k cells := by
  induction cells generalizing prev k with
  | nil => rfl
  | cons c cells ih =>
      rw [sampled_cons, cellRuns]
      by_cases hsame : c = prev
      · subst hsame
        rw [if_pos rfl, quantize_replicate, ← Nat.succ_mul]
        exact ih c (Nat.succ_pos k)
      · rw [if_neg hsame]
        obtain ⟨n, rfl⟩ : ∃ n, sps = n + 1 := ⟨sps - 1, by omega⟩
        -- the first sample of the cell ends the run
        rw [List.replicate_succ, List.cons_append, quantize, level_sampleOf, if_neg hsame,
          runBits_mul hsps hk, quantize_replicate]
        have hone : 1 + n = 1 * (n + 1) := by omega
        rw [hone, ih c (Nat.le_refl 1)]

theorem samplesToBits_sampled (hsps : 0 < sps) (c : Bool) (cells : List Bool) :
    samplesToBits (sampled sps rxdBit (c :: cells)) (maskOf rxdBit) sps = cellRuns c 1 cells := by
  have hstart := quantize_sampled rxdBit hsps cells c (Nat.le_refl 1)
  have hrun := quantize_replicate rxdBit (sps : ℚ) c 0 sps (sampled sps rxdBit cells)
  rw [Nat.zero_add] at hrun
  rw [Nat.one_mul] at hstart
  rw [hstart] at hrun
  rw [← hrun, sampled_cons]
  obtain ⟨n, rfl⟩ : ∃ n, sps = n + 1 := ⟨sps - 1, by omega⟩
  show quantize _ _ (level _ (sampleOf rxdBit c)) 0 _ = _
  rw [level_sampleOf]

/-- No run of cells is longer than the cap, the first being `k` long already. -/
def RunsFit : Nat → List Bool → Prop
  | k, [] => k ≤ 8
  | k, true :: bits => RunsFit (k + 1) bits
  | k, false :: bits => k ≤ 8 ∧ RunsFit 1 bits

theorem RunsFit.le {k : Nat} {bits : List Bool} (hfit : RunsFit k bits) : k ≤ 8 := by
  induction bits generalizing k with
  | nil => exact hfit
  | cons b bits ih =>
      cases b with
      | false => exact hfit.1
      | true => exact Nat.le_of_succ_le (ih hfit)

theorem RunsFit.front {k : Nat} {front back : List Bool} (hfit : RunsFit k (front ++ back)) :
    RunsFit k front := by
  induction front generalizing k with
  | nil => exact hfit.le
  | cons b front ih =>
      cases b with
      | false => exact ⟨hfit.1, ih hfit.2⟩
      | true => exact ih (k := k + 1) hfit

/-- Runs that fit are emitted as they are, when a transition follows. -/
theorem cellRuns_nrzi {k : Nat} {bits : List Bool} (hfit : RunsFit k bits) (prev : Bool)
    (tail : List Bool) :
    ∃ more, cellRuns prev k (nrziEncode prev (bits ++ [false]) ++ tail) =
      List.replicate k prev ++ nrziEncode prev bits ++ more := by
  induction bits generalizing k prev with
  | nil =>
      refine ⟨cellRuns (!prev) 1 tail, ?_⟩
      have hne : (!prev) ≠ prev := Bool.not_ne_self prev
      have hk : min 8 k = k := Nat.min_eq_right hfit
      show cellRuns prev k ((!prev) :: tail) = _
      rw [cellRuns, if_neg hne, hk, nrziEncode, List.append_nil]
  | cons b bits ih =>
      cases b with
      | true =>
          obtain ⟨more, hmore⟩ := ih (k := k + 1) hfit prev
          refine ⟨more, ?_⟩
          show cellRuns prev k (prev :: (nrziEncode prev (bits ++ [false]) ++ tail)) = _
          rw [cellRuns, if_pos rfl, hmore, List.replicate_succ']
          simp only [List.append_assoc, List.cons_append, List.nil_append]
          rfl
      | false =>
          obtain ⟨more, hmore⟩ := ih hfit.2 (!prev)
          refine ⟨more, ?_⟩
          have hne : (!prev) ≠ prev := Bool.not_ne_self prev
          have hk : min 8 k = k := Nat.min_eq_right hfit.1
          show cellRuns prev k ((!prev) :: (nrziEncode (!prev) (bits ++ [false]) ++ tail)) = _
          rw [cellRuns, if_neg hne, hk, hmore]
          simp only [List.append_assoc]
          rfl

theorem cellRuns_idle (prev : Bool) (k n : Nat) (cells : List Bool) :
    cellRuns prev k (List.replicate n prev ++ cells) = cellRuns prev (k + n) cells := by
  induction n generalizing k with
  | zero => rfl
  | succ n ih =>
      rw [List.replicate_succ, List.cons_append, cellRuns, if_pos rfl, ih]
      congr 1
      omega

/-- **Run lengths.**  All bits but the last are there, behind some of the idle line. -/
theorem samplesToBits_capture (rxdBit : Fin 8) (hsps : 0 < sps) {bits : List Bool}
    {leadingIdle : Nat}
    (hidle : 1 ≤ leadingIdle) (trailingIdle : Nat) (hfit : RunsFit 1 bits) :
    ∃ m more, samplesToBits (oversample (nrziEncode true (false :: bits ++ [false])) sps rxdBit
        leadingIdle trailingIdle) (maskOf rxdBit) sps =
      List.replicate m true ++ nrziEncode true (false :: bits) ++ more := by
  obtain ⟨n, rfl⟩ : ∃ n, leadingIdle = n + 1 := ⟨leadingIdle - 1, by omega⟩
  obtain ⟨more, hmore⟩ := cellRuns_nrzi hfit false (List.replicate trailingIdle true)
  refine ⟨min 8 (1 + n), more, ?_⟩
  rw [oversample_eq, List.replicate_succ, List.cons_append, List.cons_append,
    samplesToBits_sampled hsps, List.append_assoc, cellRuns_idle]
  show cellRuns true (1 + n) (false :: (nrziEncode false (bits ++ [false]) ++ _)) = _
  rw [cellRuns, if_neg (by decide), hmore]
  simp only [List.append_assoc]
  rfl

/-! ### Phase -/

/-- Where nothing changes, no change is found. -/
theorem firstChange_none {lvl : Nat → Bool} {count j : Nat} {prev : Bool}
    (hsame : ∀ i, j ≤ i → i < j + count → lvl i = prev) : firstChange lvl count j prev = none := by
  induction count generalizing j with
  | zero => rfl
  | succ count ih =>
      have hfirst := hsame j (Nat.le_refl j) (by omega)
      rw [firstChange, if_neg (not_not_intro hfirst), hfirst]
      exact ih fun i hi hi' => hsame i (by omega) (by omega)

/-- The first change is found. -/
theorem firstChange_some {lvl : Nat → Bool} {count j k : Nat} {prev : Bool}
    (hk : k < count) (hsame : ∀ i, j ≤ i → i < j + k → lvl i = prev)
      (hchange : lvl (j + k) ≠ prev) :
    firstChange lvl count j prev = some (j + k) := by
  induction count generalizing j k with
  | zero => exact absurd hk (Nat.not_lt_zero k)
  | succ count ih =>
      cases k with
      | zero => exact if_pos hchange
      | succ k =>
          have hfirst := hsame j (Nat.le_refl j) (by omega)
          have hnext : j + (k + 1) = j + 1 + k := by omega
          rw [firstChange, if_neg (not_not_intro hfirst), hfirst, hnext]
          rw [hnext] at hchange
          exact ih (Nat.lt_of_succ_lt_succ hk) (fun i hi hi' => hsame i (by omega) (by omega))
            hchange

/-- The middle of a cell. -/
def centre (sps c : Nat) : ℚ := (c * sps : Nat) + (sps : ℚ) / 2

theorem floor_centre (sps c : Nat) : ⌊centre sps c⌋₊ = c * sps + sps / 2 := by
  have hhalf : centre sps c = ((2 * (c * sps) + sps : Nat) : ℚ) / (2 : Nat) := by
    unfold centre
    push_cast
    ring
  rw [hhalf, Nat.floor_div_eq_div]
  omega

theorem floor_centre_half (sps c : Nat) : ⌊centre sps c + (sps : ℚ) / 2⌋₊ = (c + 1) * sps := by
  have hwhole : centre sps c + (sps : ℚ) / 2 = ((c + 1) * sps : Nat) := by
    unfold centre
    push_cast
    ring
  rw [hwhole, Nat.floor_natCast]

theorem div_of_cell {sps c i : Nat} (hlow : c * sps ≤ i) (hhigh : i < (c + 1) * sps) :
    i / sps = c :=
  Nat.div_eq_of_lt_le hlow hhigh

/-- **The phase stays** in the middle of the cells. -/
theorem nextCentre_eq (hsps : 0 < sps) {lvl : Nat → Bool} {cells : List Bool}
    (hlvl : ∀ j < cells.length * sps, lvl j = cells.getD (j / sps) false) {c : Nat}
    (hc : c < cells.length) :
    nextCentre lvl (cells.length * sps) sps (centre sps c) = centre sps (c + 1) := by
  have hend : (c + 1) * sps ≤ cells.length * sps := Nat.mul_le_mul_right sps hc
  have hsucc : (c + 1) * sps = c * sps + sps := Nat.succ_mul c sps
  have hhalf : sps / 2 < sps := Nat.div_lt_self hsps (by decide)
  -- the level does not change within a cell
  have hmiddle : ∀ i, c * sps ≤ i → i < (c + 1) * sps → lvl i = cells.getD c false := by
    intro i hlow hhigh
    rw [hlvl i (by omega), div_of_cell hlow hhigh]
  have hhere := hmiddle (c * sps + sps / 2) (by omega) (by omega)
  unfold nextCentre
  rw [floor_centre, floor_centre_half]
  simp only [hhere]
  have hon : centre sps c + sps = centre sps (c + 1) := by
    unfold centre
    push_cast
    ring
  by_cases hchange : (c + 1) * sps < cells.length * sps ∧ lvl ((c + 1) * sps) ≠ cells.getD c false
  · -- the transition is the last thing in sight
    obtain ⟨hin, hchange⟩ := hchange
    have hedge : (c + 1) * sps = c * sps + sps / 2 + (sps - sps / 2) := by omega
    rw [hedge] at hchange
    rw [firstChange_some (k := sps - sps / 2) (by omega)
      (fun i hlow hhigh => hmiddle i (by omega) (by omega)) hchange, ← hedge]
    rfl
  -- there is no edge, or it is behind the window
  · rw [firstChange_none, hon]
    intro i hlow hhigh
    by_cases hcell : i < (c + 1) * sps
    · exact hmiddle i (by omega) hcell
    · have hedge : i = (c + 1) * sps := by omega
      subst hedge
      by_contra hne
      exact hchange ⟨by omega, hne⟩

/-- From the middle of a cell on, all cells are read. -/
theorem dpllLoop_eq (hsps : 0 < sps) {lvl : Nat → Bool} {cells : List Bool}
    (hlvl : ∀ j < cells.length * sps, lvl j = cells.getD (j / sps) false) {c fuel : Nat}
    (hc : c ≤ cells.length) (hfuel : cells.length - c < fuel) :
    dpllLoop lvl (cells.length * sps) sps fuel (centre sps c) = some (cells.drop c) := by
  -- by induction on the fuel; the centre of cell `c` is where the loop is
  induction fuel generalizing c with
  | zero => exact absurd hfuel (Nat.not_lt_zero _)
  | succ fuel ih =>
      have hhalf : (0 : ℚ) < (sps : ℚ) / 2 := by
        have hcast : (0 : ℚ) < sps := Nat.cast_pos.mpr hsps
        linarith
      rw [dpllLoop]
      by_cases hmore : c < cells.length
      · have hend : (c + 1) * sps ≤ cells.length * sps := Nat.mul_le_mul_right sps hmore
        have hsucc : (c + 1) * sps = c * sps + sps := Nat.succ_mul c sps
        have hdiv : sps / 2 < sps := Nat.div_lt_self hsps (by decide)
        have hbefore : centre sps c < ((cells.length * sps : Nat) : ℚ) := by
          have hcast : (((c + 1) * sps : Nat) : ℚ) ≤ ((cells.length * sps : Nat) : ℚ) :=
            Nat.cast_le.mpr hend
          have hnext : (((c + 1) * sps : Nat) : ℚ) = centre sps c + (sps : ℚ) / 2 := by
            unfold centre
            push_cast
            ring
          linarith
        have hindex : ¬cells.length * sps ≤ ⌊centre sps c⌋₊ := by
          rw [floor_centre]
          omega
        have hcell : lvl ⌊centre sps c⌋₊ = cells[c] := by
          have hin : (c * sps + sps / 2) / sps = c := div_of_cell (by omega) (by omega)
          rw [floor_centre, hlvl _ (by omega), hin, List.getD_eq_getElem _ _ hmore]
        rw [if_pos hbefore, if_neg hindex, nextCentre_eq hsps hlvl hmore, ih hmore (by omega),
          hcell]
        rw [List.drop_eq_getElem_cons hmore]
        rfl
      · have hdone : c = cells.length := by omega
        have hafter : ¬centre sps c < ((cells.length * sps : Nat) : ℚ) := by
          rw [hdone]
          unfold centre
          linarith
        rw [if_neg hafter, List.drop_eq_nil_iff.mpr (by omega)]

theorem and_maskOf : ∀ rxdBit : Fin 8,
    sampleOf rxdBit false &&& maskOf rxdBit ≠ sampleOf rxdBit true &&& maskOf rxdBit := by
  decide

theorem takeWhile_idle {n : Nat} {x y : Byte} {samples : List Byte} {p : Byte → Bool}
    (hx : p x = true) (hy : p y = false) :
    ((List.replicate n x ++ y :: samples).takeWhile p).length = n := by
  induction n with
  | zero => simp [hy]
  | succ n ih =>
      rw [List.replicate_succ, List.cons_append, List.takeWhile_cons_of_pos hx,
        List.length_cons, ih]

/-- The first transition is waited for. -/
theorem dpllBits_wait {fuel i : Nat} {mask b : Byte} {q : ℚ} {samples tail : List Byte}
    (hcons : samples = b :: tail)
    (hwait : (samples.takeWhile (fun b' => b' &&& mask = b &&& mask)).length = i) :
    dpllBits fuel samples mask q =
      if samples.length ≤ i then some []
      else dpllLoop (fun j => level mask (samples.getD j 0#8)) samples.length q fuel
        (i + q / 2) := by
  subst hcons
  unfold dpllBits
  simp only [hwait]

/-- **Phase.**  All levels from the first transition on are there, with the idle line. -/
theorem dpllBits_capture (rxdBit : Fin 8) (hsps : 0 < sps) {bits : List Bool} {leadingIdle : Nat}
    (hidle : 1 ≤ leadingIdle) (trailingIdle : Nat) {fuel : Nat}
    (hfuel : bits.length + 1 + trailingIdle < fuel) :
    dpllBits fuel (oversample (nrziEncode true (false :: bits)) sps rxdBit leadingIdle trailingIdle)
        (maskOf rxdBit) sps =
      some (nrziEncode true (false :: bits) ++ List.replicate trailingIdle true) := by
  let rest := nrziEncode false bits ++ List.replicate trailingIdle true
  let cells := List.replicate leadingIdle true ++ false :: rest
  have hcells : oversample (nrziEncode true (false :: bits)) sps rxdBit leadingIdle trailingIdle =
      sampled sps rxdBit cells := by
    rw [oversample_eq, List.append_assoc]
    rfl
  have hlength : ∀ (lvl : Bool) (bits : List Bool), (nrziEncode lvl bits).length = bits.length := by
    intro lvl bits
    induction bits generalizing lvl with
    | nil => rfl
    | cons b bits ih => exact congrArg Nat.succ (ih _)
  have hcount : cells.length = leadingIdle + (bits.length + 1 + trailingIdle) := by
    simp only [cells, rest, List.length_append, List.length_cons, List.length_replicate, hlength]
    omega
  have hdrop : cells.drop leadingIdle = false :: rest :=
    List.drop_left' List.length_replicate
  obtain ⟨n, hn⟩ : ∃ n, leadingIdle * sps = n + 1 :=
    Nat.exists_eq_succ_of_ne_zero (Nat.mul_pos hidle hsps).ne'
  obtain ⟨width, hwidth⟩ : ∃ width, sps = width + 1 := ⟨sps - 1, by omega⟩
  -- the samples, as the idle line and what follows the first transition
  obtain ⟨behind, hbehind⟩ : ∃ behind, sampled sps rxdBit cells =
      List.replicate (n + 1) (sampleOf rxdBit true) ++ sampleOf rxdBit false :: behind := by
    refine ⟨List.replicate width (sampleOf rxdBit false) ++ sampled sps rxdBit rest, ?_⟩
    show List.flatMap _ (_ ++ _) = _
    rw [List.flatMap_append]
    show sampled sps rxdBit _ ++ sampled sps rxdBit (false :: rest) = _
    rw [sampled_replicate, hn, sampled_cons]
    nth_rewrite 1 [hwidth]
    rw [List.replicate_succ]
    rfl
  have hwait : ((sampled sps rxdBit cells).takeWhile (fun b' => b' &&& maskOf rxdBit =
      sampleOf rxdBit true &&& maskOf rxdBit)).length = leadingIdle * sps := by
    rw [hbehind, hn]
    exact takeWhile_idle (decide_eq_true rfl) (decide_eq_false (and_maskOf rxdBit))
  have hcons : sampled sps rxdBit cells = sampleOf rxdBit true ::
      (List.replicate n (sampleOf rxdBit true) ++ sampleOf rxdBit false :: behind) := hbehind
  have hshort : ¬cells.length * sps ≤ leadingIdle * sps := by
    rw [Nat.not_le]
    exact Nat.mul_lt_mul_of_pos_right (by omega) hsps
  have hlvl : ∀ j < cells.length * sps, level (maskOf rxdBit)
      ((sampled sps rxdBit cells).getD j 0#8) = cells.getD (j / sps) false := by
    intro j hj
    rw [getD_sampled hsps hj, level_sampleOf]
  have hloop := dpllLoop_eq hsps hlvl (c := leadingIdle) (by omega)
    (show cells.length - leadingIdle < fuel by omega)
  rw [hdrop] at hloop
  rw [hcells, dpllBits_wait hcons hwait, length_sampled, if_neg hshort]
  exact hloop

end Sdlc
end Rc700
