import Rc700.CpNet.Handlers

/-!
# Patterns and host names

A search compares its pattern with the 8.3 form of a host name in two parts, the name and the
extension.  It leaves out white space at the end of a part of the pattern, and it takes a part
of `?` only, or an empty one, to match whatever there is.  `matchesEntry_iff` says so on the
eight and three positions of the form.
-/

namespace Rc700
namespace CpNet

open Library PathText

/-! ### Upper case -/

/-- `c.upper()` for an ASCII character -/
def capital (c : Nat) : Nat := if 97 ≤ c ∧ c ≤ 122 then c - 32 else c

/-- What the server relies on of `str.upper`: it is as usual on ASCII, it leaves capital letters
as they are, and whatever is ASCII in the upper case of another code point is a letter. -/
structure UpperCase (upper : Nat → Text) : Prop where
  ascii : ∀ c < 128, upper c = [capital c]
  twice : ∀ c, ∀ x ∈ upper c, upper x = [x]
  letters : ∀ c, 128 ≤ c → ∀ x ∈ upper c, x < 128 → 65 ≤ x ∧ x ≤ 90

theorem asciiUpper_eq (c : Nat) : asciiUpper c = [capital c] := by
  unfold asciiUpper capital
  split <;> rfl

theorem capital_capital (c : Nat) : capital (capital c) = capital c := by
  unfold capital
  split_ifs <;> omega

theorem asciiUpper_upperCase : UpperCase asciiUpper where
  ascii c _ := asciiUpper_eq c
  twice c x hx := by
    rw [asciiUpper_eq, List.mem_singleton] at hx
    rw [asciiUpper_eq, hx, capital_capital]
  letters c hc x hx hlow := by
    rw [asciiUpper_eq, List.mem_singleton, capital, if_neg (by omega)] at hx
    omega

section Upper

variable {upper : Nat → Text} {t : Text}

theorem upperText_ascii (hupper : UpperCase upper) (ht : ∀ c ∈ t, c < 128) :
    upperText upper t = t.map capital := by
  induction t with
  | nil => rfl
  | cons c t ih =>
      obtain ⟨hc, hrest⟩ := List.forall_mem_cons.mp ht
      rw [upperText, List.flatMap_cons, hupper.ascii c hc, List.map_cons]
      exact congrArg (capital c :: ·) (ih hrest)

/-- Text in upper case stays as it is. -/
theorem upperText_fixed (ht : ∀ c ∈ t, upper c = [c]) : upperText upper t = t := by
  induction t with
  | nil => rfl
  | cons c t ih =>
      obtain ⟨hc, hrest⟩ := List.forall_mem_cons.mp ht
      rw [upperText, List.flatMap_cons, hc]
      exact congrArg (c :: ·) (ih hrest)

theorem upperText_twice (hupper : UpperCase upper) (t : Text) :
    ∀ c ∈ upperText upper t, upper c = [c] := by
  intro c hc
  obtain ⟨x, -, hx⟩ := List.mem_flatMap.mp hc
  exact hupper.twice x c hx

end Upper

/-! ### The form of a host name -/

theorem length_ljust {n : Nat} {t : Text} (ht : t.length ≤ n) : (ljust n t).length = n := by
  rw [ljust, List.length_append, List.length_replicate]
  omega

theorem length_cpmName (upper : Nat → Text) (entry : Text) :
    (cpmName upper entry).1.length ≤ 8 ∧ (cpmName upper entry).2.length ≤ 3 := by
  unfold cpmName
  constructor
  · exact List.length_take_le _ _
  · exact List.length_take_le _ _

/-- The 8.3 form of a host name: eight characters and three. -/
def form (upper : Nat → Text) (entry : Text) : Text :=
  ljust 8 (cpmName upper entry).1 ++ ljust 3 (cpmName upper entry).2

theorem form_take (upper : Nat → Text) (entry : Text) :
    (form upper entry).take 8 = ljust 8 (cpmName upper entry).1 :=
  List.take_left' (length_ljust (length_cpmName upper entry).1)

theorem form_drop (upper : Nat → Text) (entry : Text) :
    (form upper entry).drop 8 = ljust 3 (cpmName upper entry).2 :=
  List.drop_left' (length_ljust (length_cpmName upper entry).1)

/-! ### Matching -/

/-- A part of a pattern matches a part of a form: without the white space at its end it has no
characters but `?`, or it matches position by position, in upper case and padded with blanks. -/
def PartMatches (p n : Text) : Prop :=
  (∀ c ∈ rstrip p, c = 63) ∨
    List.Forall₂ (fun a c => a = 63 ∨ capital a = c) (ljust n.length (rstrip p)) n

/-- The two parts of a pattern match those of a form. -/
def PartsMatch (pattern : List Byte) (n : Text) : Prop :=
  PartMatches ((pattern.take 8).map BitVec.toNat) (n.take 8) ∧
    PartMatches ((pattern.drop 8).map BitVec.toNat) (n.drop 8)

instance PartMatches.decidable (p n : Text) : Decidable (PartMatches p n) :=
  inferInstanceAs (Decidable (_ ∨ _))

instance PartsMatch.decidable (pattern : List Byte) (n : Text) :
    Decidable (PartsMatch pattern n) :=
  inferInstanceAs (Decidable (_ ∧ _))

section Parts

variable {upper : Nat → Text} {p n : Text} {k : Nat}

theorem map_capital_ljust (k : Nat) (p : Text) :
    ljust k (p.map capital) = (ljust k p).map capital := by
  rw [ljust, ljust, List.map_append, List.map_replicate, List.length_map]
  rfl

/-- Blanks behind both texts change nothing. -/
theorem forall₂_ljust {R : Nat → Nat → Prop} (hblank : R 32 32) (hp : p.length ≤ k)
    (hn : n.length ≤ k) :
    List.Forall₂ R (ljust (max p.length n.length) p) (ljust (max p.length n.length) n) ↔
      List.Forall₂ R (ljust k p) (ljust k n) := by
  generalize hm : max p.length n.length = m
  have hpm : p.length ≤ m := hm ▸ Nat.le_max_left _ _
  have hnm : n.length ≤ m := hm ▸ Nat.le_max_right _ _
  have hmk : m ≤ k := hm ▸ Nat.max_le.mpr ⟨hp, hn⟩
  have hsplit : ∀ t : Text, t.length ≤ m → ljust k t = ljust m t ++ List.replicate (k - m) 32 := by
    intro t ht
    rw [ljust, ljust, List.append_assoc, List.replicate_append_replicate]
    congr 2
    omega
  have hpads : List.Forall₂ R (List.replicate (k - m) 32) (List.replicate (k - m) 32) :=
    List.forall₂_same.mpr fun c hc => List.eq_of_mem_replicate hc ▸ hblank
  rw [hsplit p hpm, hsplit n hnm]
  refine ⟨fun h => List.rel_append h hpads, fun h => ?_⟩
  have hfront := List.forall₂_take m h
  rwa [List.take_left' (length_ljust hpm), List.take_left' (length_ljust hnm)] at hfront

/-- **`_match_pattern`**, for an ASCII part and a part in upper case. -/
theorem matchPattern_iff (hupper : UpperCase upper) (hp : ∀ c ∈ p, c < 128)
    (hn : ∀ c ∈ n, upper c = [c]) (hplen : p.length ≤ k) (hnlen : n.length ≤ k) :
    matchPattern upper p n = true ↔ (∀ c ∈ p, c = 63) ∨
      List.Forall₂ (fun a c => a = 63 ∨ capital a = c) (ljust k p) (ljust k n) := by
  have hcapital : ∀ c, capital c = 63 ↔ c = 63 := by
    intro c
    unfold capital
    split <;> omega
  have hwild : p.map capital = List.replicate (p.map capital).length 63 ↔ ∀ c ∈ p, c = 63 := by
    rw [List.eq_replicate_length]
    simp [hcapital]
  have hlen : (p.map capital).length = p.length := List.length_map _
  unfold matchPattern
  rw [upperText_ascii hupper hp, upperText_fixed hn]
  dsimp only
  by_cases hall : ∀ c ∈ p, c = 63
  · rw [if_pos (hwild.mpr hall)]
    exact ⟨fun _ => .inl hall, fun _ => rfl⟩
  · rw [if_neg (mt hwild.mp hall), or_iff_right hall]
    have hzip : ∀ a b : Text, a.length = b.length →
        ((List.zip a b).all (fun pair => pair.1 = 63 ∨ pair.1 = pair.2) = true ↔
          List.Forall₂ (fun x c => x = 63 ∨ x = c) a b) := by
      intro a b hab
      rw [List.forall₂_iff_zip, List.all_eq_true]
      simp only [hab, true_and, decide_eq_true_eq, Prod.forall]
    have hmax : (ljust (max p.length n.length) (p.map capital)).length =
        (ljust (max p.length n.length) n).length := by
      rw [length_ljust (hlen ▸ Nat.le_max_left _ _), length_ljust (Nat.le_max_right _ _)]
    rw [hlen, hzip _ _ hmax, map_capital_ljust, List.forall₂_map_left_iff]
    simp only [hcapital]
    exact forall₂_ljust (R := fun a c => a = 63 ∨ capital a = c) (.inr rfl) hplen hnlen

theorem rstrip_subset (t : Text) : rstrip t ⊆ t := fun _ hc =>
  (List.rdropWhile_prefix _ t).subset hc

theorem length_rstrip_le (t : Text) : (rstrip t).length ≤ t.length :=
  (List.rdropWhile_prefix _ t).length_le

/-- One of the two parts. -/
theorem matchPart_iff (hupper : UpperCase upper) {b : List Byte} (hb : ∀ c ∈ b, c.toNat < 128)
    (hblen : b.length ≤ k) (hn : ∀ c ∈ n, upper c = [c]) (hnlen : n.length ≤ k) :
    matchPattern upper (rstrip (decode b)) n = true ↔
      PartMatches (b.map BitVec.toNat) (ljust k n) := by
  have hdecode : decode b = b.map BitVec.toNat :=
    List.map_congr_left fun c hc => if_pos (hb c hc)
  have hascii : ∀ c ∈ rstrip (b.map BitVec.toNat), c < 128 := by
    intro c hc
    obtain ⟨x, hx, rfl⟩ := List.mem_map.mp (rstrip_subset _ hc)
    exact hb x hx
  have hlen : (rstrip (b.map BitVec.toNat)).length ≤ k :=
    (length_rstrip_le _).trans (by rwa [List.length_map])
  rw [hdecode, matchPattern_iff hupper hascii hn hlen hnlen, PartMatches, length_ljust hnlen]

theorem masked_lt (c : Byte) : (c &&& 0x7F#8).toNat < 128 := by
  rw [BitVec.toNat_and]
  exact Nat.lt_of_le_of_lt Nat.and_le_right (by decide)

theorem ascii_masked (raw : List Byte) : ∀ c ∈ raw.map (· &&& 0x7F#8), c.toNat < 128 := by
  intro c hc
  obtain ⟨x, -, rfl⟩ := List.mem_map.mp hc
  exact masked_lt x

/-- **A search selects** an entry if the two parts of the pattern match those of its form. -/
theorem matchesEntry_iff (hupper : UpperCase upper) {name : List Byte}
    (hname : ∀ c ∈ name, c.toNat < 128) (hlen : name.length ≤ 11) (entry : HostName) :
    matchesEntry upper name entry = true ↔ PartsMatch name (form upper entry.val) := by
  obtain ⟨hstem, hext⟩ := length_cpmName upper entry.val
  have hfixed : (∀ c ∈ (cpmName upper entry.val).1, upper c = [c]) ∧
      ∀ c ∈ (cpmName upper entry.val).2, upper c = [c] := by
    unfold cpmName
    constructor
    · exact fun c hc => upperText_twice hupper _ c (List.mem_of_mem_take hc)
    · dsimp only
      intro c hc
      cases hparts : (rsplitDot entry.val).2 with
      | none =>
          rw [hparts] at hc
          exact nomatch hc
      | some ext =>
          rw [hparts] at hc
          exact upperText_twice hupper ext c (List.mem_of_mem_take hc)
  have hfirst : slice name 0 8 = name.take 8 := rfl
  have hsecond : slice name 8 11 = name.drop 8 := by
    rw [slice, List.take_of_length_le hlen]
  unfold matchesEntry
  dsimp only
  rw [Bool.and_eq_true, hfirst, hsecond,
    matchPart_iff hupper (fun c hc => hname c (List.mem_of_mem_take hc)) (List.length_take_le _ _)
      hfixed.1 hstem,
    matchPart_iff hupper (fun c hc => hname c (List.mem_of_mem_drop hc))
      (by rw [List.length_drop]; omega) hfixed.2 hext,
    PartsMatch, form_take, form_drop]

end Parts

/-! ### Names for a pattern -/

theorem rdropWhile_append_of_pos {α : Type} {q : α → Bool} {l pad : List α}
    (hpad : ∀ c ∈ pad, q c = true) : (l ++ pad).rdropWhile q = l.rdropWhile q := by
  rw [List.rdropWhile, List.reverse_append, List.dropWhile_append_of_pos, List.rdropWhile]
  exact fun c hc => hpad c (List.mem_reverse.mp hc)

/-- A host name can have the characters of the pattern, and an extension has no dot. -/
def Listable (pattern : List Byte) : Prop :=
  (∀ c ∈ pattern, c ≠ 0x00#8 ∧ c ≠ 0x2F#8) ∧ ∀ c ∈ pattern.drop 8, c ≠ 0x2E#8

instance Listable.decidable (pattern : List Byte) : Decidable (Listable pattern) :=
  inferInstanceAs (Decidable (_ ∧ _))

section Naming

variable {upper : Nat → Text} {p n : Text} {k : Nat} {pattern : List Byte}

/-- A character of a pattern that is no letter, `?` or white space is one of the form. -/
theorem PartMatches.mem (h : PartMatches p n) {c : Nat} (hc : c ∈ p) (hspace : isSpace c = false)
    (hwild : c ≠ 63) (hsame : capital c = c) : c ∈ n := by
  have hkept : c ∈ rstrip p := by
    have hsplit : rstrip p ++ p.rtakeWhile isSpace = p := List.rdropWhile_append_rtakeWhile
    rw [← hsplit] at hc
    refine (List.mem_append.mp hc).resolve_right fun htail => ?_
    rw [List.mem_rtakeWhile_imp htail] at hspace
    exact nomatch hspace
  have hleft : ∀ {a b : Text}, List.Forall₂ (fun a c => a = 63 ∨ capital a = c) a b →
      c ∈ a → c ∈ b := by
    intro a b hall
    induction hall with
    | nil => exact fun hmem => nomatch hmem
    | cons hchar _ ih =>
        rintro (_ | ⟨_, hmem⟩)
        · rw [← hchar.resolve_left hwild, hsame]
          exact List.mem_cons_self ..
        · exact List.mem_cons_of_mem _ (ih hmem)
  rcases h with hall | hall
  · exact absurd (hall c hkept) hwild
  · exact hleft hall (List.mem_append_left _ hkept)

/-- A character of the form that is no letter or blank is one of the host name. -/
theorem mem_of_upperText (hupper : UpperCase upper) {t : Text} {c : Nat}
    (hc : c ∈ ljust k ((upperText upper t).take k)) (hlow : c < 65) (hblank : c ≠ 32) : c ∈ t := by
  have hupperText : c ∈ upperText upper t := by
    rcases List.mem_append.mp hc with hmem | hmem
    · exact List.mem_of_mem_take hmem
    · exact absurd (List.eq_of_mem_replicate hmem) hblank
  obtain ⟨x, hx, hmem⟩ := List.mem_flatMap.mp hupperText
  by_cases hascii : x < 128
  · rw [hupper.ascii x hascii, List.mem_singleton, capital] at hmem
    split at hmem
    · omega
    · exact hmem ▸ hx
  · have hletter := hupper.letters x (Nat.not_lt.mp hascii) c hmem (by omega)
    omega

theorem rsplitDot_parts (entry : Text) :
    (∀ c ∈ (rsplitDot entry).1, c ∈ entry) ∧
      ∀ ext, (rsplitDot entry).2 = some ext → dot ∉ ext ∧ ∀ c ∈ ext, c ∈ entry := by
  unfold rsplitDot
  split
  · refine ⟨fun c hc => ?_, fun ext hext => ?_⟩
    · exact (List.rdropWhile_prefix _ entry).subset (List.dropLast_subset _ hc)
    · obtain rfl := Option.some.inj hext
      refine ⟨fun hmem => ?_, fun c hc => (List.rtakeWhile_suffix _ entry).subset hc⟩
      exact absurd (List.mem_rtakeWhile_imp hmem) (by simp)
  · exact ⟨fun c hc => hc, fun ext hext => nomatch hext⟩

/-- A pattern that matches a host name has characters that a host name can have. -/
theorem listable_of_match (hupper : UpperCase upper) {entry : HostName}
    (hmatch : PartsMatch pattern (form upper entry.val)) : Listable pattern := by
  obtain ⟨hstem, hext⟩ := hmatch
  rw [form_take] at hstem
  rw [form_drop] at hext
  obtain ⟨hfront, hback⟩ := rsplitDot_parts entry.val
  -- separators, dots and NULs stay what they are in upper case
  have hplain : ∀ c : Byte, c = 0x00#8 ∨ c = 0x2F#8 ∨ c = 0x2E#8 → isSpace c.toNat = false ∧
      c.toNat ≠ 63 ∧ capital c.toNat = c.toNat ∧ c.toNat < 65 ∧ c.toNat ≠ 32 := by
    rintro c (rfl | rfl | rfl) <;> decide
  have hname : ∀ c ∈ pattern.take 8, c = 0x00#8 ∨ c = 0x2F#8 ∨ c = 0x2E#8 →
      c.toNat ∈ entry.val := by
    intro c hc hcase
    obtain ⟨hspace, hwild, hsame, hlow, hblank⟩ := hplain c hcase
    have hmem := hstem.mem (List.mem_map_of_mem hc) hspace hwild hsame
    exact hfront _ (mem_of_upperText hupper hmem hlow hblank)
  have htype : ∀ c ∈ pattern.drop 8, c = 0x00#8 ∨ c = 0x2F#8 ∨ c = 0x2E#8 →
      ∃ ext, (rsplitDot entry.val).2 = some ext ∧ c.toNat ∈ ext := by
    intro c hc hcase
    obtain ⟨hspace, hwild, hsame, hlow, hblank⟩ := hplain c hcase
    have hmem := hext.mem (List.mem_map_of_mem hc) hspace hwild hsame
    unfold cpmName at hmem
    cases hparts : (rsplitDot entry.val).2 with
    | none =>
        dsimp only at hmem
        rw [hparts, Option.map_none, Option.getD_none, List.take_nil] at hmem
        exact absurd (List.eq_of_mem_replicate hmem) hblank
    | some ext =>
        dsimp only at hmem
        rw [hparts, Option.map_some, Option.getD_some] at hmem
        exact ⟨ext, rfl, mem_of_upperText hupper hmem hlow hblank⟩
  have hentry : ∀ c ∈ pattern, c = 0x00#8 ∨ c = 0x2F#8 ∨ c = 0x2E#8 → c.toNat ∈ entry.val := by
    intro c hc hcase
    rw [← List.take_append_drop 8 pattern] at hc
    rcases List.mem_append.mp hc with hc | hc
    · exact hname c hc hcase
    · obtain ⟨ext, hparts, hmem⟩ := htype c hc hcase
      exact (hback ext hparts).2 _ hmem
  refine ⟨fun c hc => ⟨?_, ?_⟩, ?_⟩
  · rintro rfl
    exact entry.property.2 (hentry _ hc (.inl rfl))
  · rintro rfl
    exact entry.property.1.noSlash (hentry _ hc (.inr (.inl rfl)))
  · rintro c hc rfl
    obtain ⟨ext, hparts, hmem⟩ := htype _ hc (.inr (.inr rfl))
    exact (hback ext hparts).1 hmem

/-- A part of a host name for a part of a pattern. -/
def partFor (p : Text) : Text :=
  if ∀ c ∈ rstrip p, c = 63 then [88]
  else (rstrip p).map fun c => if c = 63 then 88 else capital c

/-- The part is in upper case, matches, and has no other characters than the pattern and `X`. -/
theorem partFor_spec (hk : 0 < k) (hascii : ∀ c ∈ p, c < 128) (hlen : p.length ≤ k) :
    partFor p ≠ [] ∧ (partFor p).length ≤ k ∧
      (∀ c ∈ partFor p, c < 128 ∧ capital c = c ∧ (65 ≤ c ∨ c ∈ p)) ∧
        PartMatches p (ljust k (partFor p)) := by
  have hshort : (rstrip p).length ≤ k := (length_rstrip_le p).trans hlen
  unfold partFor
  by_cases hall : ∀ c ∈ rstrip p, c = 63
  · rw [if_pos hall]
    refine ⟨List.cons_ne_nil _ _, hk, fun c hc => ?_, .inl hall⟩
    rw [List.mem_singleton.mp hc]
    exact ⟨by omega, rfl, .inl (by omega)⟩
  · rw [if_neg hall]
    have hmap : ((rstrip p).map fun c => if c = 63 then 88 else capital c).length ≤ k := by
      rwa [List.length_map]
    refine ⟨fun hnil => ?_, hmap, fun c hc => ?_, .inr ?_⟩
    · rw [List.map_eq_nil_iff.mp hnil] at hall
      exact hall fun c hc => nomatch hc
    · obtain ⟨x, hx, rfl⟩ := List.mem_map.mp hc
      have hlow := hascii x (rstrip_subset p hx)
      split
      · exact ⟨by omega, rfl, .inl (by omega)⟩
      · refine ⟨?_, capital_capital x, ?_⟩
        · unfold capital
          split <;> omega
        · unfold capital
          split
          · exact .inl (by omega)
          · exact .inr (rstrip_subset p hx)
    · rw [length_ljust hmap, ljust, ljust, List.length_map]
      refine List.rel_append ?_ (List.forall₂_same.mpr fun c hc => ?_)
      · refine List.forall₂_map_right_iff.mpr (List.forall₂_same.mpr fun c _ => ?_)
        by_cases hc : c = 63
        · exact .inl hc
        · exact .inr (if_neg hc).symm
      · rw [List.eq_of_mem_replicate hc]
        exact .inr rfl

theorem rsplitDot_join {stem ext : Text} (hdot : dot ∉ ext) :
    rsplitDot (stem ++ [dot] ++ ext) = (stem, some ext) := by
  have hnot : ∀ c ∈ ext, (c != dot) = true := by
    intro c hc
    rw [bne_iff_ne]
    rintro rfl
    exact hdot hc
  have hdrop : (stem ++ [dot] ++ ext).rdropWhile (· != dot) = stem ++ [dot] := by
    rw [rdropWhile_append_of_pos hnot]
    exact List.rdropWhile_concat_neg _ _ _ (by simp)
  have htake : (stem ++ [dot] ++ ext).rtakeWhile (· != dot) = ext := by
    have hwhole : (stem ++ [dot] ++ ext).rdropWhile (· != dot) ++
        (stem ++ [dot] ++ ext).rtakeWhile (· != dot) = stem ++ [dot] ++ ext :=
      List.rdropWhile_append_rtakeWhile
    rw [hdrop] at hwhole
    exact List.append_cancel_left hwhole
  rw [rsplitDot, if_pos (by simp), hdrop, htake, List.dropLast_concat]

/-- Parts in upper case that are short enough are the form of the name that is joined of them. -/
theorem cpmName_join (hupper : UpperCase upper) {stem ext : Text}
    (hstem : ∀ c ∈ stem, c < 128 ∧ capital c = c) (hext : ∀ c ∈ ext, c < 128 ∧ capital c = c)
    (hstemLen : stem.length ≤ 8) (hextLen : ext.length ≤ 3) (hdot : dot ∉ ext) :
    cpmName upper (stem ++ [dot] ++ ext) = (stem, ext) := by
  have hfixed : ∀ t : Text, (∀ c ∈ t, c < 128 ∧ capital c = c) → upperText upper t = t := by
    intro t ht
    refine upperText_fixed fun c hc => ?_
    rw [hupper.ascii c (ht c hc).1, (ht c hc).2]
  unfold cpmName
  rw [rsplitDot_join hdot]
  dsimp only
  rw [Option.map_some, Option.getD_some, hfixed stem hstem, hfixed ext hext,
    List.take_of_length_le hstemLen, List.take_of_length_le hextLen]

/-- Two parts with a dot between them are a plain name. -/
theorem plain_join {stem ext : Text} (hstem : stem ≠ []) (hext : ext ≠ [])
    (hslash : slash ∉ stem ++ [dot] ++ ext) : Plain (stem ++ [dot] ++ ext) := by
  have hlong : 3 ≤ (stem ++ [dot] ++ ext).length := by
    have h₁ := List.length_pos_iff.mpr hstem
    have h₂ := List.length_pos_iff.mpr hext
    simp only [List.length_append, List.length_singleton]
    omega
  refine ⟨?_, ?_, ?_, hslash⟩
  all_goals
    intro heq
    rw [heq] at hlong
    exact absurd hlong (by decide)

/-- Some host name matches each pattern with characters that a host name can have. -/
theorem exists_match (hupper : UpperCase upper) (hascii : ∀ c ∈ pattern, c.toNat < 128)
    (hlen : pattern.length ≤ 11) (hlistable : Listable pattern) :
    ∃ entry : HostName, PartsMatch pattern (form upper entry.val) ∧
      Encodable upper entry.val := by
  have hfirst : ∀ c ∈ (pattern.take 8).map BitVec.toNat, c < 128 := by
    intro c hc
    obtain ⟨x, hx, rfl⟩ := List.mem_map.mp hc
    exact hascii x (List.mem_of_mem_take hx)
  have hsecond : ∀ c ∈ (pattern.drop 8).map BitVec.toNat, c < 128 := by
    intro c hc
    obtain ⟨x, hx, rfl⟩ := List.mem_map.mp hc
    exact hascii x (List.mem_of_mem_drop hx)
  obtain ⟨hne₁, hlen₁, hchars₁, hmatch₁⟩ := partFor_spec (k := 8) (by omega) hfirst (by
    rw [List.length_map]
    exact List.length_take_le _ _)
  obtain ⟨hne₂, hlen₂, hchars₂, hmatch₂⟩ := partFor_spec (k := 3) (by omega) hsecond (by
    rw [List.length_map, List.length_drop]
    omega)
  generalize partFor ((pattern.take 8).map BitVec.toNat) = stem at *
  generalize partFor ((pattern.drop 8).map BitVec.toNat) = ext at *
  -- which characters the two parts can have
  have hother : ∀ b : List Byte, (∀ c ∈ b, c ∈ pattern) → ∀ c,
      65 ≤ c ∨ c ∈ b.map BitVec.toNat → c ≠ 0 ∧ c ≠ slash := by
    intro b hb c hc
    rcases hc with hc | hc
    · unfold slash
      omega
    · obtain ⟨x, hx, rfl⟩ := List.mem_map.mp hc
      obtain ⟨hnul, hslash⟩ := hlistable.1 x (hb x hx)
      exact ⟨fun h => hnul (BitVec.eq_of_toNat_eq h), fun h => hslash (BitVec.eq_of_toNat_eq h)⟩
  have hdot : dot ∉ ext := by
    intro hmem
    rcases (hchars₂ dot hmem).2.2 with hc | hc
    · exact absurd hc (by decide)
    · obtain ⟨x, hx, hxdot⟩ := List.mem_map.mp hc
      exact hlistable.2 x hx (BitVec.eq_of_toNat_eq hxdot)
  have hchars : ∀ c ∈ stem ++ [dot] ++ ext, c ≠ 0 ∧ c ≠ slash := by
    intro c hc
    rw [List.append_assoc] at hc
    rcases List.mem_append.mp hc with hc | hc
    · exact hother _ (fun c hc => List.mem_of_mem_take hc) c (hchars₁ c hc).2.2
    · rcases List.mem_cons.mp hc with rfl | hc
      · decide
      · exact hother _ (fun c hc => List.mem_of_mem_drop hc) c (hchars₂ c hc).2.2
  have hplain : Plain (stem ++ [dot] ++ ext) :=
    plain_join hne₁ hne₂ fun hmem => (hchars _ hmem).2 rfl
  have hname : cpmName upper (stem ++ [dot] ++ ext) = (stem, ext) :=
    cpmName_join hupper (fun c hc => ⟨(hchars₁ c hc).1, (hchars₁ c hc).2.1⟩)
      (fun c hc => ⟨(hchars₂ c hc).1, (hchars₂ c hc).2.1⟩) hlen₁ hlen₂ hdot
  refine ⟨⟨stem ++ [dot] ++ ext, hplain, fun hmem => (hchars _ hmem).1 rfl⟩, ?_, ?_⟩
  · rw [PartsMatch, form_take, form_drop, hname]
    exact ⟨hmatch₁, hmatch₂⟩
  · rw [Encodable, hname]
    intro c hc
    exact (List.mem_append.mp hc).elim (fun h => (hchars₁ c h).1) fun h => (hchars₂ c h).1

end Naming

end CpNet
end Rc700
