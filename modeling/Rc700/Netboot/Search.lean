import Rc700.Netboot.Names
import Mathlib.Data.List.Sort

/-!
# The enumeration of the directory

SEARCH FIRST makes a list of the names that match, which SEARCH NEXT takes one by one.  No
other request touches the list, so that the replies are the names of it in order, and then
no more (`search_enumerates`).

An entry of the directory has its attributes in bit 7 of the extension; without them it is
the name (`Lists`).
-/

namespace Rc700
namespace Netboot

open Library

variable {host : Path → Option (List Byte)} {s s' : State} {key : Key}

/-! ### Entries -/

/-- A name that can be listed. -/
def Listable (key : Key) : Prop := key.length = 11 ∧ ∀ c ∈ key, c.toNat < 128

/-- The reply is an entry of the directory with this name. -/
def Lists (reply : Option (List Byte)) (key : Key) : Prop :=
  ∃ buffer, reply = some (0x00#8 :: buffer) ∧ buffer.length = 128 ∧
    decode ((buffer.drop 1).take 11) = key

/-- The reply is that there is no entry, or none left. -/
def ListsNone (reply : Option (List Byte)) : Prop :=
  reply = some (0xFF#8 :: List.replicate 128 0#8)

theorem decode_append (xs ys : List Byte) : decode (xs ++ ys) = decode xs ++ decode ys :=
  List.map_append

/-- ASCII characters are read back. -/
theorem decode_ascii {cs : List Char} (hascii : ∀ c ∈ cs, c.toNat < 128) :
    decode (cs.map fun c => BitVec.ofNat 8 c.toNat) = cs := by
  induction cs with
  | nil => rfl
  | cons c cs ih =>
      have hfirst := hascii c List.mem_cons_self
      have hmask : (BitVec.ofNat 8 c.toNat &&& 0x7F#8).toNat = c.toNat := by
        rw [BitVec.toNat_and, BitVec.toNat_ofNat, BitVec.toNat_ofNat,
          Nat.mod_eq_of_lt (by omega), Nat.mod_eq_of_lt (by omega)]
        exact (Nat.and_two_pow_sub_one_eq_mod c.toNat 7).trans (Nat.mod_eq_of_lt hfirst)
      rw [List.map_cons, decode, List.map_cons, hmask, Char.ofNat_toNat]
      exact congrArg (c :: ·) (ih fun c' hc' => hascii c' (List.mem_cons_of_mem c hc'))

/-- Bit 7 does not count. -/
theorem decode_attribute (bytes : List Byte) (i : Nat) :
    decode (bytes.modify i (· ||| 0x80#8)) = decode bytes := by
  induction bytes generalizing i with
  | nil => rw [List.modify_nil]
  | cons b bytes ih =>
      cases i with
      | zero =>
          have hmask : (b ||| 0x80#8) &&& 0x7F#8 = b &&& 0x7F#8 := by
            ext j hj
            have hbits : ∀ j < 8, ((0x80#8).getLsbD j && (0x7F#8).getLsbD j) = false := by decide
            simp only [BitVec.getElem_and, BitVec.getElem_or]
            have hbit := hbits j hj
            simp only [← BitVec.getLsbD_eq_getElem] at hbit ⊢
            cases hlow : (0x7F#8).getLsbD j with
            | false => simp
            | true =>
                rw [hlow, Bool.and_true] at hbit
                rw [hbit, Bool.or_false]
          rw [List.modify_zero_cons, decode, List.map_cons, hmask]
          rfl
      | succ i =>
          rw [List.modify_succ_cons]
          exact congrArg (_ :: ·) (ih i)

/-- The entry of a name that can be listed. -/
theorem lists_dirEntry (hkey : Listable key) (size : Nat) :
    ∃ entry, dirEntry s key size = some entry ∧ entry.length = 32 ∧
      decode ((entry.drop 1).take 11) = key := by
  obtain ⟨hlen, hascii⟩ := hkey
  have hall : key.all (fun c => c.toNat < 128) = true := by
    rw [List.all_eq_true]
    exact fun c hc => decide_eq_true (hascii c hc)
  unfold dirEntry
  rw [if_pos hall]
  dsimp only
  generalize hbytes : key.map (fun c => BitVec.ofNat 8 c.toNat) = bytes
  have hread : decode bytes = key := by
    rw [← hbytes]
    exact decode_ascii hascii
  have hcount : bytes.length = 11 := by
    rw [← hbytes, List.length_map, hlen]
  -- the extension, with its attributes
  generalize hext : (if isSystemFile s key = true then _ else _ : List Byte) = ext
  have hplain : decode ext = decode ((bytes.drop 8).take 3) ∧ ext.length = 3 := by
    rw [← hext]
    have hthree : ((bytes.drop 8).take 3).length = 3 := by
      rw [List.length_take, List.length_drop, hcount]
      rfl
    constructor
    · split <;> split <;> simp only [decode_attribute]
    · split <;> split <;> simp only [List.length_modify, hthree]
  obtain ⟨hplain, hthree⟩ := hplain
  have height : (bytes.take 8).length = 8 := by
    rw [List.length_take, hcount]
    rfl
  refine ⟨_, rfl, ?_, ?_⟩
  · simp only [List.length_append, height, hthree, List.length_cons, List.length_nil,
      List.length_replicate]
  · have hname : ((([0x00#8] ++ bytes.take 8 ++ ext ++
        [0#8, 0#8, 0#8, BitVec.ofNat 8 (min 128 ((size + 127) / 128))] ++
          List.replicate 16 0x01#8).drop 1).take 11) = bytes.take 8 ++ ext := by
      simp only [List.append_assoc, List.cons_append, List.nil_append, List.drop_succ_cons,
        List.drop_zero]
      rw [← List.append_assoc, List.take_left']
      rw [List.length_append, height, hthree]
    have hback : bytes.take 8 ++ (bytes.drop 8).take 3 = bytes := by
      have hall : ((bytes.drop 8).take 3) = bytes.drop 8 := by
        refine List.take_of_length_le ?_
        rw [List.length_drop, hcount]
      rw [hall, List.take_append_drop]
    rw [hname, decode_append, hplain, ← decode_append, hback, hread]

/-- **SEARCH NEXT** takes a name off the list. -/
theorem searchReply_next (host : Path → Option (List Byte)) {pending : List Key}
    (hpending : s.search.pending = key :: pending) (hkey : Listable key) :
    Lists (searchReply host s).1 key ∧ (searchReply host s).2.search.pending = pending := by
  unfold searchReply
  rw [hpending]
  dsimp only
  obtain ⟨entry, hentry, hlen, hname⟩ :=
    lists_dirEntry (s := s) hkey (fileSize host s key)
  rw [hentry, Option.map_some]
  refine ⟨⟨entry ++ List.replicate (128 - entry.length) 0#8, rfl, ?_, ?_⟩, rfl⟩
  · rw [List.length_append, List.length_replicate, hlen]
  · rw [List.drop_append_of_le_length (by omega), List.take_append_of_le_length, hname]
    rw [List.length_drop, hlen]
    decide

theorem searchReply_end (host : Path → Option (List Byte))
    (hpending : s.search.pending = []) :
    ListsNone (searchReply host s).1 ∧ (searchReply host s).2 = s := by
  unfold searchReply
  rw [hpending]
  exact ⟨rfl, rfl⟩

/-- Whatever is listed is on the list. -/
theorem lists_pending (hlistable : ∀ k ∈ s.search.pending, k.length = 11)
    (hlists : Lists (searchReply host s).1 key) : key ∈ s.search.pending := by
  cases hpending : s.search.pending with
  | nil =>
      obtain ⟨buffer, hreply, -⟩ := hlists
      rw [(searchReply_end host hpending).1] at hreply
      exact nomatch hreply
  | cons k pending =>
      by_cases hascii : ∀ c ∈ k, c.toNat < 128
      · have hlen := hlistable k (hpending ▸ List.mem_cons_self)
        obtain ⟨⟨buffer, hreply, -, hname⟩, -⟩ :=
          searchReply_next host hpending ⟨hlen, hascii⟩
        obtain ⟨buffer', hreply', -, hname'⟩ := hlists
        have hsame : buffer = buffer' :=
          (List.cons.inj (Option.some.inj (hreply.symm.trans hreply'))).2
        rw [← hname', ← hsame, hname]
        exact List.mem_cons_self
      · -- there is no reply for it
        have hraises : (searchReply host s).1 = none := by
          have hall : ¬k.all (fun c => c.toNat < 128) = true := by
            rw [List.all_eq_true]
            exact fun hall => hascii fun c hc => of_decide_eq_true (hall c hc)
          unfold searchReply
          rw [hpending]
          dsimp only
          unfold dirEntry
          rw [if_neg hall]
          rfl
        obtain ⟨buffer, hreply, -⟩ := hlists
        exact nomatch hraises.symm.trans hreply

/-! ### Patterns -/

/-- A character of a pattern. -/
def patternChar (b : Byte) : Char := (Char.ofNat (b &&& 0x7F#8).toNat).toUpper

/-- The name matches the pattern, position by position. -/
def Matches (pattern : List Byte) (key : Key) : Prop :=
  List.Forall₂ (fun b c => patternChar b = '?' ∨ patternChar b = c) pattern key

theorem forall_zip_iff {α β : Type} {R : α → β → Prop} {xs : List α} {ys : List β}
    (hlen : xs.length = ys.length) :
    (∀ pair ∈ xs.zip ys, R pair.1 pair.2) ↔ List.Forall₂ R xs ys :=
  ⟨fun hall => List.forall₂_iff_zip.mpr ⟨hlen, fun hmem => hall _ hmem⟩,
    fun hall _ hmem => (List.forall₂_iff_zip.mp hall).2 hmem⟩

theorem patternMatch_iff {bytes : List Byte} (hlen : bytes.length = 11) :
    patternMatch ((decode bytes).map Char.toUpper) key = true ↔
      key.length = 11 ∧ Matches bytes key := by
  have hpattern : ((decode bytes).map Char.toUpper).length = 11 := by
    rw [List.length_map, decode, List.length_map, hlen]
  have hchars : (decode bytes).map Char.toUpper = bytes.map patternChar := by
    rw [decode, List.map_map]
    rfl
  unfold patternMatch
  rw [decide_eq_true_eq, and_iff_right hpattern]
  refine and_congr_right fun hkey => ?_
  rw [hchars] at hpattern ⊢
  rw [forall_zip_iff (R := fun p c => p = '?' ∨ p = c) (hpattern.trans hkey.symm),
    List.forall₂_map_left_iff]
  rfl

/-! ### The list -/

theorem mem_allKeys : key ∈ allKeys s ↔ Visible s key := by
  unfold allKeys Visible
  rw [List.mem_mergeSort, List.mem_dedup, List.mem_append]
  exact Iff.rfl

/-- The keys are sorted, and each of them is there once. -/
theorem allKeys_sorted : (allKeys s).Pairwise (· < ·) := by
  have hsorted : (allKeys s).Pairwise fun a b => decide (a ≤ b) = true := by
    refine List.pairwise_mergeSort (fun a b c hab hbc => ?_) (fun a b => ?_) _
    · exact decide_eq_true (le_trans (of_decide_eq_true hab) (of_decide_eq_true hbc))
    · rw [Bool.or_eq_true]
      exact (le_total a b).imp decide_eq_true decide_eq_true
  have hle : (allKeys s).Pairwise (· ≤ ·) := hsorted.imp of_decide_eq_true
  have hnodup : (allKeys s).Nodup :=
    (List.mergeSort_perm _ _).nodup_iff.mpr (List.nodup_dedup _)
  exact (hle.and hnodup).imp fun hboth => lt_of_le_of_ne hboth.1 hboth.2

/-- What SEARCH FIRST finds. -/
def found (s : State) (pattern : Key) : List Key := (allKeys s).filter (patternMatch pattern)

/-- The pattern is at the end of the request, whatever precedes it. -/
theorem patternOf_append (front : List Byte) {tail : List Byte} (htail : tail.length = 35) :
    patternOf (front ++ tail) = (decode (tail.take 11)).map Char.toUpper := by
  unfold patternOf
  rw [List.length_append, htail, if_neg (by omega), Nat.add_sub_cancel, List.drop_left]

theorem mem_found {front tail : List Byte} (htail : tail.length = 35) :
    key ∈ found s (patternOf (front ++ tail)) ↔ Visible s key ∧ Matches (tail.take 11) key := by
  have hlen : (tail.take 11).length = 11 := by
    rw [List.length_take, htail]
    rfl
  rw [found, List.mem_filter, mem_allKeys, patternOf_append front htail, patternMatch_iff hlen]
  refine and_congr_right fun _ => and_iff_right_of_imp fun hmatches => ?_
  exact hmatches.length_eq.symm.trans hlen

/-! ### Runs -/

/-- The replies to SEARCH FIRST and SEARCH NEXT in a run. -/
def searchReplies (host : Path → Option (List Byte)) :
    State → List Request → List (Option (List Byte))
  | _, [] => []
  | s, r :: rs =>
      if r.fnc = 17#8 ∨ r.fnc = 18#8 then
        replyTo host s r :: searchReplies host (after host s r) rs
      else searchReplies host (after host s r) rs

/-- The replies are the names in order, and then no more. -/
def Enumerates : List Key → List (Option (List Byte)) → Prop
  | _, [] => True
  | [], reply :: replies => ListsNone reply ∧ Enumerates [] replies
  | key :: keys, reply :: replies => Lists reply key ∧ Enumerates keys replies

/-- SEARCH NEXT, and the requests that may come in between: OPEN, CLOSE, READ SEQ, WRITE SEQ,
RANDOM READ and FILE SIZE. -/
def Between (r : Request) : Prop := r.fnc ∈ [18#8, 15#8, 16#8, 20#8, 21#8, 33#8, 35#8]

instance (r : Request) : Decidable (Between r) := inferInstanceAs (Decidable (_ ∈ _))

/-- Only the two searches touch the list. -/
theorem search_after (host : Path → Option (List Byte)) {r : Request} (hfirst : r.fnc ≠ 17#8)
    (hnext : r.fnc ≠ 18#8) :
    (after host s r).search = s.search := by
  obtain ⟨fnc, data⟩ := r
  unfold after dispatchSndmsg
  dsimp only at hfirst hnext ⊢
  -- all but the two SEARCH functions leave the list alone
  split
  case h_13 => exact absurd rfl hfirst
  case h_14 => exact absurd rfl hnext
  case h_3 =>
    unfold openFile
    dsimp only
    split <;> rfl
  case h_4 =>
    unfold makeFile
    dsimp only
    split <;> rfl
  case h_5 =>
    unfold writeSeq
    dsimp only
    split <;> rfl
  case h_6 =>
    unfold readSeq
    dsimp only
    split
    · rfl
    · split <;> rfl
  case h_7 =>
    unfold closeFile
    dsimp only
    split
    · rfl
    · split <;> rfl
  case h_9 =>
    unfold randomRead
    dsimp only
    split <;> rfl
  case h_10 =>
    unfold randomWrite
    dsimp only
    split <;> rfl
  case h_11 =>
    unfold deleteFile
    dsimp only
    split <;> rfl
  case h_12 =>
    rcases renameFile_cases data s with ⟨-, hresult⟩ | ⟨-, -, hresult⟩
    · rw [hresult]
    · rw [hresult]
  all_goals rfl

/-- **A run** takes the names off the list in order. -/
theorem searchReplies_enumerates (hlistable : ∀ k ∈ s.search.pending, Listable k)
    {rs : List Request} (hbetween : ∀ r ∈ rs, Between r) :
    Enumerates s.search.pending (searchReplies host s rs) := by
  -- by induction on the requests, with what is still pending
  induction rs generalizing s with
  | nil =>
      cases s.search.pending with
      | nil => trivial
      | cons k pending => trivial
  | cons r rs ih =>
      have hr := hbetween r List.mem_cons_self
      have hrest := fun r' hr' => hbetween r' (List.mem_cons_of_mem r hr')
      rw [searchReplies]
      by_cases hnext : r.fnc = 18#8
      · rw [if_pos (.inr hnext)]
        have hreply : replyTo host s r = (searchReply host s).1 := by
          unfold replyTo
          rw [hnext]
          rfl
        have hstate : after host s r = (searchReply host s).2 := by
          unfold after
          rw [hnext]
          rfl
        rw [hreply, hstate]
        cases hpending : s.search.pending with
        | nil =>
            obtain ⟨hend, hsame⟩ := searchReply_end host hpending
            have hafterwards := ih (s := s) hlistable hrest
            rw [hpending] at hafterwards
            rw [hsame]
            exact ⟨hend, hafterwards⟩
        | cons k pending =>
            rw [hpending] at hlistable
            obtain ⟨hlists, hleft⟩ :=
              searchReply_next host hpending (hlistable k List.mem_cons_self)
            have hafterwards := ih (s := (searchReply host s).2)
              (fun k' hk' => hlistable k' (List.mem_cons_of_mem k (hleft ▸ hk'))) hrest
            rw [hleft] at hafterwards
            exact ⟨hlists, hafterwards⟩
      -- any other request between them leaves the list as it is
      · have hfirst : r.fnc ≠ 17#8 := by
          intro heq
          unfold Between at hr
          rw [heq] at hr
          exact absurd hr (by decide)
        have hsearch := search_after (s := s) host hfirst hnext
        rw [if_neg (not_or.mpr ⟨hfirst, hnext⟩), ← hsearch]
        exact ih (hsearch ▸ hlistable) hrest

/-- **The enumeration is exact.**  In a state whose names are ASCII, SEARCH FIRST and the
SEARCH NEXTs after it list each name of the directory that matches, sorted and once, and then
report that there are no more, whatever of the other requests come in between.  The pattern
stands at the start of the last 35 bytes of the request, in both layouts. -/
theorem search_enumerates (host : Path → Option (List Byte)) (s : State)
    (hascii : ∀ key, Visible s key → ∀ c ∈ key, c.toNat < 128) (front tail : List Byte)
    (htail : tail.length = 35) (rs : List Request) (hbetween : ∀ r ∈ rs, Between r) :
    ∃ keys : List Key, keys.Pairwise (· < ·) ∧
      (∀ key, key ∈ keys ↔ Visible s key ∧ Matches (tail.take 11) key) ∧
      Enumerates keys (searchReplies host s (⟨17#8, front ++ tail⟩ :: rs)) := by
  refine ⟨found s (patternOf (front ++ tail)), allKeys_sorted.filter _,
    fun key => mem_found htail, ?_⟩
  have hlistable : ∀ k ∈ found s (patternOf (front ++ tail)), Listable k := by
    intro k hk
    obtain ⟨hvisible, hmatches⟩ := (mem_found htail).mp hk
    refine ⟨?_, hascii k hvisible⟩
    rw [← hmatches.length_eq, List.length_take, htail]
    rfl
  -- SEARCH FIRST is SEARCH NEXT, with a new list
  let start : State := { s with
    search := ⟨some (patternOf (front ++ tail)), found s (patternOf (front ++ tail))⟩ }
  have hfirst : searchReplies host s (⟨17#8, front ++ tail⟩ :: rs) =
      searchReplies host start (⟨18#8, []⟩ :: rs) := rfl
  rw [hfirst]
  refine searchReplies_enumerates (s := start) hlistable fun r hr => ?_
  rcases List.mem_cons.mp hr with rfl | hr
  · decide
  · exact hbetween r hr

/-- A server with two files, one of them the host's. -/
def twoFiles : State :=
  { emptyServer with
    fileMap := (∅ : AList fun _ : Key => Path).insert "CPNOS   IMG".toList "cpnos.img".toList
    writes := (∅ : Table).insert "$$$     SUB".toList [0x00#8] }

theorem twoFiles_ascii (key : Key) (hvisible : Visible twoFiles key) :
    ∀ c ∈ key, c.toNat < 128 := by
  rcases hvisible with hmap | hwrites
  · rcases AList.mem_insert _ |>.mp hmap with rfl | hnone
    · simp
    · exact absurd hnone (AList.notMem_empty key)
  · rcases AList.mem_insert _ |>.mp hwrites with rfl | hnone
    · simp
    · exact absurd hnone (AList.notMem_empty key)

theorem search_enumerates_twoFiles :
    ∃ keys : List Key, keys.Pairwise (· < ·) ∧
      (∀ key, key ∈ keys ↔
        Visible twoFiles key ∧ Matches ((List.replicate 35 0x3F#8).take 11) key) ∧
      Enumerates keys (searchReplies (fun _ => some []) twoFiles
        (⟨17#8, [0#8, 1#8] ++ List.replicate 35 0x3F#8⟩ ::
          [⟨18#8, []⟩, ⟨20#8, []⟩, ⟨18#8, []⟩])) :=
  search_enumerates (fun _ => some []) twoFiles twoFiles_ascii [0#8, 1#8]
    (List.replicate 35 0x3F#8) rfl [⟨18#8, []⟩, ⟨20#8, []⟩, ⟨18#8, []⟩] (by decide)

end Netboot
end Rc700
