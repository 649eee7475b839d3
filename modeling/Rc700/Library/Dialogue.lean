import Mathlib.Tactic.Common

/-!
# Dialogues

A dialogue is a computation at one end of a line.  It says a symbol, or it hears one,
or hears that none came in time, until it is done.  Run on what it hears, it says
something, may end with a result, and leaves the rest unheard.

Many dialogues give up at the first thing that is not as expected: their result is an
option.  `Accepts` is that such a dialogue is done with a value, and its rules follow
the dialogue: a symbol is heard in time and is what is asked for, and the rest is
accepted.
-/

namespace Rc700
namespace Library

universe u

inductive Dialogue (β α : Type u)
  | done (a : α)
  | say (b : β) (next : Dialogue β α)
  | hear (next : Option β → Dialogue β α)

namespace Dialogue

variable {β α γ : Type u}

/-- One dialogue, and then another. -/
def bind : Dialogue β α → (α → Dialogue β γ) → Dialogue β γ
  | .done a, f => f a
  | .say b d, f => .say b (d.bind f)
  | .hear k, f => .hear (fun x => (k x).bind f)

instance : Monad (Dialogue β) where
  pure := .done
  bind := bind

/-- Say a symbol. -/
def send (b : β) : Dialogue β PUnit := .say b (.done ⟨⟩)

/-- Hear a symbol in time, or none. -/
def recv : Dialogue β (Option β) := .hear .done

/-- Say symbols. -/
def sendAll : List β → Dialogue β PUnit
  | [] => .done ⟨⟩
  | b :: bs => .say b (sendAll bs)

/-- Hear so many symbols, each in time. -/
def recvMany : Nat → Dialogue β (Option (List β))
  | 0 => .done (some [])
  | n + 1 =>
      .hear fun
        | none => .done none
        | some b => (recvMany n).bind fun bs => .done (bs.map (b :: ·))

/-! ### Running -/

/-- What comes of a dialogue: its result, if it is done, what it said, and what it has
not heard. -/
structure Outcome (β α : Type u) where
  result : Option α
  said : List β
  rest : List (Option β)

/-- Run a dialogue on what comes: `none` is that nothing came in time. -/
def run : Dialogue β α → List (Option β) → Outcome β α
  | .done a, xs => ⟨some a, [], xs⟩
  | .say b d, xs => { run d xs with said := b :: (run d xs).said }
  | .hear _, [] => ⟨none, [], []⟩
  | .hear k, x :: xs => run (k x) xs

@[simp] theorem run_done (a : α) (xs : List (Option β)) :
    run (.done a) xs = ⟨some a, [], xs⟩ := by
  cases xs <;> rfl

@[simp] theorem run_say (b : β) (d : Dialogue β α) (xs : List (Option β)) :
    run (.say b d) xs = ⟨(run d xs).result, b :: (run d xs).said, (run d xs).rest⟩ := by
  cases xs <;> rfl

@[simp] theorem run_hear_nil (k : Option β → Dialogue β α) : run (.hear k) [] = ⟨none, [], []⟩ :=
  rfl

@[simp] theorem run_hear_cons (k : Option β → Dialogue β α) (x : Option β)
    (xs : List (Option β)) : run (.hear k) (x :: xs) = run (k x) xs := rfl

theorem bind_eq (d : Dialogue β α) (f : α → Dialogue β γ) : d >>= f = d.bind f := rfl

theorem pure_eq (a : α) : (pure a : Dialogue β α) = .done a := rfl

@[simp] theorem done_bind (a : α) (f : α → Dialogue β γ) : (Dialogue.done a).bind f = f a := rfl

@[simp] theorem send_bind (b : β) (f : PUnit → Dialogue β γ) :
    (send b).bind f = .say b (f ⟨⟩) := rfl

@[simp] theorem recv_bind (f : Option β → Dialogue β γ) : recv.bind f = .hear f := rfl

theorem bind_assoc {δ : Type u} (d : Dialogue β α) (f : α → Dialogue β γ)
    (g : γ → Dialogue β δ) : (d.bind f).bind g = d.bind (fun a => (f a).bind g) := by
  induction d with
  | done a => rfl
  | say b d ih => rw [bind, bind, bind, ih]
  | hear k ih =>
      rw [bind, bind, bind]
      congr 1
      funext x
      exact ih x

/-- One dialogue, and then another: the second hears what the first has not. -/
theorem run_bind_result {d : Dialogue β α} {k : α → Dialogue β γ} {xs : List (Option β)} {a : α}
    (hresult : (run d xs).result = some a) :
    (run (d.bind k) xs).result = (run (k a) (run d xs).rest).result := by
  induction d generalizing xs with
  | done b =>
      rw [run_done] at hresult ⊢
      cases hresult
      rfl
  | say b d ih =>
      rw [run_say] at hresult ⊢
      rw [bind, run_say]
      exact ih hresult
  | hear next ih =>
      cases xs with
      | nil => simp at hresult
      | cons x xs => exact ih x hresult

/-! ### Acceptance -/

/-- The dialogue is done with a value. -/
def Accepts (d : Dialogue β (Option α)) (xs : List (Option β)) (a : α) : Prop :=
  (run d xs).result = some (some a)

theorem accepts_done {v : Option α} {xs : List (Option β)} {a : α} :
    Accepts (.done v) xs a ↔ v = some a := by
  rw [Accepts, run_done, Option.some.injEq]

theorem accepts_say {b : β} {d : Dialogue β (Option α)} {xs : List (Option β)} {a : α} :
    Accepts (.say b d) xs a ↔ Accepts d xs a := by
  rw [Accepts, run_say, Accepts]

/-- A dialogue that gives up if it hears nothing in time. -/
theorem accepts_hear {k : Option β → Dialogue β (Option α)} {xs : List (Option β)} {a : α}
    (hsilence : ∀ ys, ¬ Accepts (k none) ys a) :
    Accepts (.hear k) xs a ↔ ∃ b ys, xs = some b :: ys ∧ Accepts (k (some b)) ys a := by
  constructor
  · intro haccepts
    match xs with
    | [] => exact nomatch haccepts
    | none :: ys => exact absurd haccepts (hsilence ys)
    | some b :: ys => exact ⟨b, ys, rfl, haccepts⟩
  · rintro ⟨b, ys, rfl, haccepts⟩
    exact haccepts

/-- A dialogue that gives up under a condition. -/
theorem accepts_unless {c : Prop} [Decidable c] {d d' : Dialogue β (Option α)}
    {xs : List (Option β)} {a : α} (hrejects : ¬ Accepts d xs a) :
    Accepts (if c then d else d') xs a ↔ ¬ c ∧ Accepts d' xs a := by
  by_cases hc : c
  · rw [if_pos hc]
    exact iff_of_false hrejects (fun haccepts => haccepts.1 hc)
  · rw [if_neg hc]
    exact (and_iff_right hc).symm

/-- A dialogue that gives up if it hears too few symbols in time. -/
theorem accepts_recvMany {n : Nat} {f : Option (List β) → Dialogue β (Option α)}
    {xs : List (Option β)} {a : α} (hsilence : ∀ ys, ¬ Accepts (f none) ys a) :
    Accepts ((recvMany n).bind f) xs a ↔
      ∃ bs ys, bs.length = n ∧ xs = bs.map some ++ ys ∧ Accepts (f (some bs)) ys a := by
  induction n generalizing f xs with
  | zero =>
      rw [recvMany, done_bind]
      constructor
      · intro haccepts
        exact ⟨[], xs, rfl, rfl, haccepts⟩
      · rintro ⟨bs, ys, hlen, rfl, haccepts⟩
        rw [List.length_eq_zero_iff.mp hlen] at haccepts ⊢
        exact haccepts
  | succ n ih =>
      rw [recvMany, bind]
      rw [accepts_hear (fun ys => hsilence ys)]
      simp only [bind_assoc, done_bind]
      constructor
      · rintro ⟨b, ys, rfl, haccepts⟩
        obtain ⟨bs, zs, hlen, rfl, hrest⟩ :=
          (ih (f := fun r => f (r.map (b :: ·))) hsilence).mp haccepts
        exact ⟨b :: bs, zs, by rw [List.length_cons, hlen], rfl, hrest⟩
      · rintro ⟨bs, ys, hlen, rfl, haccepts⟩
        match bs, hlen with
        | b :: bs, hlen =>
            exact ⟨b, bs.map some ++ ys, rfl,
              (ih (f := fun r => f (r.map (b :: ·))) hsilence).mpr
                ⟨bs, ys, Nat.succ_inj.mp hlen, rfl, haccepts⟩⟩

/-! ### In time -/

/-- What is heard until nothing comes in time. -/
def inTime : List (Option β) → List β
  | some b :: xs => b :: inTime xs
  | _ => []

theorem inTime_append (bs : List β) (xs : List (Option β)) :
    inTime (bs.map some ++ xs) = bs ++ inTime xs := by
  induction bs with
  | nil => rfl
  | cons b bs ih => simp [inTime, ih]

theorem prefix_inTime {bs : List β} {xs : List (Option β)} :
    bs <+: inTime xs ↔ ∃ ys, xs = bs.map some ++ ys := by
  constructor
  · intro hprefix
    induction bs generalizing xs with
    | nil => exact ⟨xs, rfl⟩
    | cons b bs ih =>
        rcases xs with _ | ⟨x, xs⟩
        · simp [inTime] at hprefix
        · cases x with
          | none => simp [inTime] at hprefix
          | some c =>
              obtain ⟨rfl, hbs⟩ := List.cons_prefix_cons.mp hprefix
              obtain ⟨ys, rfl⟩ := ih hbs
              exact ⟨ys, rfl⟩
  · rintro ⟨ys, rfl⟩
    rw [inTime_append]
    exact List.prefix_append bs _

/-! ### Confirmation -/

/-- The dialogue says exactly this where it is done with a value, and nowhere else. -/
def Confirms (d : Dialogue β (Option α)) (said : List β) : Prop :=
  ∀ xs, (run d xs).said = said ↔ ∃ a, Accepts d xs a

theorem confirms_value (a : α) : Confirms (.done (some a) : Dialogue β (Option α)) [] := by
  intro xs
  simp [Accepts]

theorem confirms_none {said : List β} (hsaid : said ≠ []) :
    Confirms (.done none : Dialogue β (Option α)) said := by
  intro xs
  simp [Accepts, hsaid.symm]

theorem confirms_say (b : β) {d : Dialogue β (Option α)} {said : List β}
    (hconfirms : Confirms d said) : Confirms (.say b d) (b :: said) := by
  intro xs
  simp only [run_say, List.cons.injEq, true_and, accepts_say]
  exact hconfirms xs

/-- A dialogue that gives up if it hears nothing in time. -/
theorem confirms_hear {k : Option β → Dialogue β (Option α)} {said : List β} (hsaid : said ≠ [])
    (hsilence : k none = .done none) (hconfirms : ∀ b, Confirms (k (some b)) said) :
    Confirms (.hear k) said := by
  intro xs
  rcases xs with _ | ⟨x, xs⟩
  · simp [Accepts, hsaid.symm]
  · cases x with
    | none =>
        have hnone := @confirms_none β α said hsaid xs
        rw [← hsilence] at hnone
        exact hnone
    | some b => exact hconfirms b xs

theorem confirms_unless {c : Prop} [Decidable c] {d : Dialogue β (Option α)} {said : List β}
    (hsaid : said ≠ []) (hconfirms : Confirms d said) :
    Confirms (if c then .done none else d) said := by
  by_cases hc : c
  · rw [if_pos hc]
    exact confirms_none hsaid
  · rw [if_neg hc]
    exact hconfirms

/-- A dialogue that gives up if it hears too few symbols in time. -/
theorem confirms_recvMany {n : Nat} {f : Option (List β) → Dialogue β (Option α)}
    {said : List β} (hsaid : said ≠ []) (hsilence : f none = .done none)
    (hconfirms : ∀ bs, Confirms (f (some bs)) said) : Confirms ((recvMany n).bind f) said := by
  induction n generalizing f with
  | zero => exact hconfirms []
  | succ n ih =>
      refine confirms_hear hsaid hsilence fun b => ?_
      show Confirms (((recvMany n).bind _).bind f) said
      simp only [bind_assoc, done_bind]
      exact ih hsilence fun bs => hconfirms (b :: bs)

end Dialogue

end Library
end Rc700
