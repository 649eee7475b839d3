import Mathlib.Algebra.Group.Even
import Mathlib.Data.List.Basic
import Mathlib.Tactic.Common

/-!
# One statement on a line

`dri_split.py`, which cuts the lines of DRI sources at the `!` between statements.  The rule
of the assembler is a scanner with three modes; the script has only two, for it takes no
notice of comments.  The two cut at the same places as long as no comment before a `!`
has a quote open (`splitLine_follows_iff`).
-/

namespace Rc700
namespace Formats

/-- The apostrophe, about a string literal. -/
def QUOTE : Char := Char.ofNat 39

/-- The loop of `split_line`: whether it is in a string, and the piece so far. -/
def splitFrom : Bool → List Char → List Char → List (List Char)
  | _, buf, [] => [buf]
  | inStr, buf, c :: cs =>
      if c = QUOTE ∧ ¬inStr then splitFrom true (buf ++ [c]) cs
      else if c = QUOTE ∧ inStr then splitFrom false (buf ++ [c]) cs
      else if c = '!' ∧ ¬inStr then buf :: splitFrom inStr [] cs
      else splitFrom inStr (buf ++ [c]) cs

/-- `split_line` -/
def splitLine (line : List Char) : List (List Char) := splitFrom false [] line

/-! ### The rule -/

/-- Where the assembler is in a statement. -/
inductive Mode where
  | code
  | literal
  | comment
  deriving DecidableEq, Repr

/-- A character of a statement is read. -/
def Mode.next : Mode → Char → Mode
  | .code, c => if c = QUOTE then .literal else if c = ';' then .comment else .code
  | .literal, c => if c = QUOTE then .code else .literal
  | .comment, _ => .comment

/-- The statements of a line by the rule: outside literals, so in comments too, a `!` ends
the statement. -/
def driFrom : Mode → List Char → List Char → List (List Char)
  | _, buf, [] => [buf]
  | mode, buf, c :: cs =>
      if c = '!' ∧ mode ≠ .literal then buf :: driFrom .code [] cs
      else driFrom (mode.next c) (buf ++ [c]) cs

def driSplit (line : List Char) : List (List Char) := driFrom .code [] line

/-- The comment in what follows. -/
def commentFrom : Mode → List Char → List Char
  | _, [] => []
  | .comment, cs => cs
  | mode, c :: cs => commentFrom (mode.next c) cs

/-- The comment of a statement. -/
def commentOf (statement : List Char) : List Char := commentFrom .code statement

/-- The mode behind the beginning of a statement. -/
def modeAfter (statement : List Char) : Mode := statement.foldl Mode.next .code

/-! ### Pieces give back the line -/

theorem splitFrom_ne_nil (inStr : Bool) (buf cs : List Char) : splitFrom inStr buf cs ≠ [] := by
  induction cs generalizing inStr buf with
  | nil => simp [splitFrom]
  | cons c cs ih =>
      unfold splitFrom
      split_ifs
      · exact ih _ _
      · exact ih _ _
      · simp
      · exact ih _ _

theorem intercalate_splitFrom (inStr : Bool) (buf cs : List Char) :
    List.intercalate ['!'] (splitFrom inStr buf cs) = buf ++ cs := by
  induction cs generalizing inStr buf with
  | nil => simp [splitFrom]
  | cons c cs ih =>
      unfold splitFrom
      split_ifs with hopen hclose hcut
      · simp [ih]
      · simp [ih]
      · -- the piece, what it is ended by, and the rest
        rw [hcut.1, List.intercalate_cons_of_ne_nil (splitFrom_ne_nil _ _ _), ih]
        simp
      · simp [ih]

/-! ### Modes and comments -/

theorem modeAfter_snoc (buf : List Char) (c : Char) :
    modeAfter (buf ++ [c]) = (modeAfter buf).next c := by
  simp [modeAfter]

theorem commentFrom_snoc (mode : Mode) (buf : List Char) (c : Char) :
    commentFrom mode (buf ++ [c]) =
      commentFrom mode buf ++ if buf.foldl Mode.next mode = .comment then [c] else [] := by
  induction buf generalizing mode with
  | nil => cases mode <;> simp [commentFrom]
  | cons d buf ih =>
      have hcomment : ∀ cs : List Char, cs.foldl Mode.next .comment = .comment := by
        intro cs
        induction cs with
        | nil => rfl
        | cons e cs hrest => exact hrest
      cases mode with
      | code => exact ih _
      | literal => exact ih _
      | comment => simp [commentFrom, hcomment]

theorem commentOf_snoc (buf : List Char) (c : Char) :
    commentOf (buf ++ [c]) = commentOf buf ++ if modeAfter buf = .comment then [c] else [] :=
  commentFrom_snoc .code buf c

/-- Whether the comment so far has a quote open. -/
def quoteOpen (buf : List Char) : Bool := decide ((commentOf buf).count QUOTE % 2 = 1)

/-- How the two scanners stand to each other: in a comment, the script is in a string while
there is a quote open. -/
def Together (inStr : Bool) (buf : List Char) : Prop :=
  match modeAfter buf with
  | .code => inStr = false ∧ commentOf buf = []
  | .literal => inStr = true ∧ commentOf buf = []
  | .comment => inStr = quoteOpen buf

theorem together_start : Together false [] := ⟨rfl, rfl⟩

theorem quoteOpen_snoc {buf : List Char} (hmode : modeAfter buf = .comment) (c : Char) :
    quoteOpen (buf ++ [c]) = if c = QUOTE then !quoteOpen buf else quoteOpen buf := by
  have hcount : (commentOf (buf ++ [c])).count QUOTE =
      (commentOf buf).count QUOTE + if c = QUOTE then 1 else 0 := by
    rw [commentOf_snoc, if_pos hmode, List.count_append, List.count_singleton]
    simp
  unfold quoteOpen
  rw [hcount]
  split
  · rw [← decide_not, decide_eq_decide]
    omega
  · rfl

/-- A character that does not end the piece keeps them together. -/
theorem together_next {inStr : Bool} {buf : List Char} (htogether : Together inStr buf) (c : Char) :
    Together (if c = QUOTE then !inStr else inStr) (buf ++ [c]) := by
  have hstill : modeAfter buf ≠ .comment → commentOf buf = [] → commentOf (buf ++ [c]) = [] := by
    intro hmode hnone
    rw [commentOf_snoc, hnone, if_neg hmode, List.append_nil]
  unfold Together at *
  rw [modeAfter_snoc]
  -- the mode of the DRI rule says what the flag of the script has to be
  cases hmode : modeAfter buf with
  | code =>
      rw [hmode] at htogether hstill
      obtain ⟨rfl, hnone⟩ := htogether
      have hnone' := hstill (by decide) hnone
      by_cases hquote : c = QUOTE
      · simpa [Mode.next, hquote] using hquote ▸ hnone'
      · by_cases hsemi : c = ';'
        · -- a comment begins, with nothing in it yet
          subst hsemi
          simp [Mode.next, hquote, quoteOpen, hnone']
        · simp [Mode.next, hquote, hsemi, hnone']
  | literal =>
      rw [hmode] at htogether hstill
      obtain ⟨rfl, hnone⟩ := htogether
      have hnone' := hstill (by decide) hnone
      by_cases hquote : c = QUOTE
      · simpa [Mode.next, hquote] using hquote ▸ hnone'
      · simp [Mode.next, hquote, hnone']
  | comment =>
      rw [hmode] at htogether
      have hopen : inStr = quoteOpen buf := htogether
      show _ = quoteOpen (buf ++ [c])
      rw [quoteOpen_snoc hmode, hopen]

theorem splitFrom_cons (inStr : Bool) (buf : List Char) (c : Char) (cs : List Char) :
    splitFrom inStr buf (c :: cs) =
      if c = '!' ∧ inStr = false then buf :: splitFrom false [] cs
      else splitFrom (if c = QUOTE then !inStr else inStr) (buf ++ [c]) cs := by
  have hne : QUOTE ≠ '!' := by decide
  rw [splitFrom]
  by_cases hquote : c = QUOTE
  · subst hquote
    cases inStr <;> simp [hne]
  · cases inStr <;> simp [hquote]

/-- The first piece begins with what was read of it. -/
theorem splitFrom_first (inStr : Bool) (buf cs : List Char) :
    ∃ first rest, splitFrom inStr buf cs = first :: rest ∧ buf <+: first := by
  induction cs generalizing inStr buf with
  | nil => exact ⟨buf, [], rfl, List.prefix_rfl⟩
  | cons c cs ih =>
      rw [splitFrom_cons]
      split
      · exact ⟨buf, _, rfl, List.prefix_rfl⟩
      · obtain ⟨first, rest, heq, hprefix⟩ := ih (if c = QUOTE then !inStr else inStr) (buf ++ [c])
        exact ⟨first, rest, heq, (List.prefix_append buf [c]).trans hprefix⟩

theorem driFrom_ne_nil (mode : Mode) (buf cs : List Char) : driFrom mode buf cs ≠ [] := by
  induction cs generalizing mode buf with
  | nil => simp [driFrom]
  | cons c cs ih =>
      rw [driFrom]
      split
      · simp
      · exact ih _ _

/-- The two cut alike from here on, as long as no comment is ended with a quote open. -/
theorem splitFrom_eq_iff {inStr : Bool} {buf : List Char} (htogether : Together inStr buf)
    (cs : List Char) :
    splitFrom inStr buf cs = driFrom (modeAfter buf) buf cs ↔
      ∀ statement ∈ (driFrom (modeAfter buf) buf cs).dropLast, quoteOpen statement = false := by
  induction cs generalizing inStr buf with
  | nil => simp [splitFrom, driFrom]
  | cons c cs ih =>
      have hnext := ih (together_next htogether c)
      rw [modeAfter_snoc] at hnext
      -- both cut, the next piece is scanned from the start
      have hcut : quoteOpen buf = false →
          (buf :: splitFrom false [] cs = buf :: driFrom .code [] cs ↔
            ∀ statement ∈ (buf :: driFrom .code [] cs).dropLast, quoteOpen statement = false) := by
        intro hclosed
        have hrest := ih together_start
        rw [show modeAfter [] = .code from rfl] at hrest
        rw [List.cons.injEq, List.dropLast_cons_of_ne_nil (driFrom_ne_nil _ _ _)]
        simp [hrest, hclosed]
      rw [splitFrom_cons, driFrom]
      by_cases hbang : c = '!'
      · cases hmode : modeAfter buf with
        | code =>
            unfold Together at htogether
            rw [hmode] at htogether
            have hclosed : quoteOpen buf = false := by simp [quoteOpen, htogether.2]
            simpa [hbang, htogether.1] using hcut hclosed
        | literal =>
            unfold Together at htogether
            rw [hmode] at htogether hnext
            simpa [hbang, htogether.1] using hnext
        | comment =>
            have hopen : inStr = quoteOpen buf := by
              unfold Together at htogether
              rwa [hmode] at htogether
            cases hin : inStr with
            | false => simpa [hbang, hin] using hcut (hopen ▸ hin)
            | true =>
                -- the script goes on in a string that is none, the rule has this statement
                have hfirst : splitFrom true (buf ++ [c]) cs ≠ buf :: driFrom .code [] cs := by
                  obtain ⟨first, rest, heq, hprefix⟩ := splitFrom_first true (buf ++ [c]) cs
                  rw [heq]
                  intro hsame
                  have hlen := hprefix.length_le
                  rw [(List.cons.inj hsame).1, List.length_append, List.length_singleton] at hlen
                  omega
                have hmem : buf ∈ (buf :: driFrom .code [] cs).dropLast := by
                  rw [List.dropLast_cons_of_ne_nil (driFrom_ne_nil _ _ _)]
                  exact List.mem_cons_self
                have hquote : '!' ≠ QUOTE := by decide
                subst hbang
                simp only [Bool.true_eq_false, and_false, if_false, hquote, ne_eq, reduceCtorEq,
                  not_false_eq_true, and_self, if_true]
                exact iff_of_false hfirst fun hall =>
                  absurd ((hall buf hmem).symm.trans (hopen ▸ hin)) (by decide)
      · simpa [hbang] using hnext

/-! ### The lines of a source -/

/-- **Lines are cut by the rule** exactly if each comment that a `!` ends has an even number
of quotes in it; the pieces always give back the line. -/
theorem splitLine_follows_iff (line : List Char) :
    (splitLine line = driSplit line ∧ List.intercalate ['!'] (splitLine line) = line) ↔
      ∀ statement ∈ (driSplit line).dropLast, (commentOf statement).count QUOTE % 2 = 0 := by
  have hjoin : List.intercalate ['!'] (splitLine line) = line := intercalate_splitFrom false [] line
  have hiff := splitFrom_eq_iff together_start line
  rw [show modeAfter [] = .code from rfl] at hiff
  rw [splitLine, driSplit] at *
  simp only [hjoin, and_true, hiff, quoteOpen, decide_eq_false_iff_not, Nat.mod_two_ne_one]

/-- The apostrophe of a comment hides the statement behind it. -/
theorem splitLine_not_follows :
    let line := ("nop ;don".toList ++ [QUOTE]) ++ "t stop! ret".toList
    ¬(splitLine line = driSplit line ∧ List.intercalate ['!'] (splitLine line) = line) := by
  decide

end Formats
end Rc700
