import Rc700.Library.Dialogue

/-!
# Two parties on a line

Two parties, each of which says and hears symbols in an order of its own, and a queue in
each direction.  Which of them goes next is left open.

As neither takes anything from the other but what comes out of its queue, two moves that
are possible at once may be made in either order (`Step.diamond`).  So if one run comes to
rest, every run does, in the same state and after as many steps (`Concludes.of_steps`), and it
is enough to follow the two through their exchanges: what one says, the other hears.
-/

namespace Rc700
namespace Library

/-! ### Rewriting -/

section Rewriting

variable {α : Type*} {R : α → α → Prop}

/-- A run of so many steps. -/
inductive Steps (R : α → α → Prop) : Nat → α → α → Prop
  | refl (a : α) : Steps R 0 a a
  | head {n : Nat} {a b c : α} (hstep : R a b) (hrest : Steps R n b c) : Steps R (n + 1) a c

theorem Steps.trans {n k : Nat} {a b c : α} (hfirst : Steps R n a b) (hrest : Steps R k b c) :
    Steps R (n + k) a c := by
  induction hfirst with
  | refl a => rwa [Nat.zero_add]
  | @head n a b' b hstep _ ih =>
      rw [Nat.add_right_comm]
      exact .head hstep (ih hrest)

/-- Two steps from one state may be made in either order, or they are the same. -/
def Diamond (R : α → α → Prop) : Prop :=
  ∀ a b c, R a b → R a c → b = c ∨ ∃ d, R b d ∧ R c d

/-- Every run comes to rest in one state, after one number of steps. -/
def Concludes (R : α → α → Prop) (a d : α) : Prop :=
  (∀ e, ¬ R d e) ∧ ∃ n, ∀ k e, Steps R k a e → ∃ j, k + j = n ∧ Steps R j e d

/-- A step of a run that comes to rest is one of the steps that are left. -/
theorem Steps.step_of_diamond (hdiamond : Diamond R) {n : Nat} {a b d : α}
    (hrun : Steps R n a d) (hrest : ∀ e, ¬ R d e) (hstep : R a b) :
    ∃ k, n = k + 1 ∧ Steps R k b d := by
  induction hrun generalizing b with
  | refl a => exact absurd hstep (hrest b)
  | @head n a c d hfirst hnext ih =>
      rcases hdiamond a b c hstep hfirst with rfl | ⟨e, hbe, hce⟩
      · exact ⟨n, rfl, hnext⟩
      · obtain ⟨k, rfl, hrun⟩ := ih hrest hce
        exact ⟨k + 1, rfl, .head hbe hrun⟩

/-- **One run is every run.** -/
theorem Concludes.of_steps (hdiamond : Diamond R) {n : Nat} {a d : α} (hrun : Steps R n a d)
    (hrest : ∀ e, ¬ R d e) : Concludes R a d := by
  refine ⟨hrest, n, fun k e hsome => ?_⟩
  induction hsome generalizing n with
  | refl a => exact ⟨n, Nat.zero_add n, hrun⟩
  | @head k a b e hstep _ ih =>
      obtain ⟨n', rfl, hleft⟩ := hrun.step_of_diamond hdiamond hrest hstep
      obtain ⟨j, hcount, hlast⟩ := ih hleft
      exact ⟨j, by omega, hlast⟩

end Rewriting

/-! ### Parties -/

universe u

/-- What a party does next: it rests, says a symbol, or hears one, or that none came in
time. -/
inductive Act (β σ : Type*)
  | rest
  | say (b : β) (next : σ)
  | hear (next : Option β → σ)

def Act.map {β σ τ : Type*} (f : σ → τ) : Act β σ → Act β τ
  | .rest => .rest
  | .say b next => .say b (f next)
  | .hear next => .hear (fun x => f (next x))

/-- A dialogue as a party. -/
def Dialogue.act {β α : Type u} : Dialogue β α → Act β (Dialogue β α)
  | .done _ => .rest
  | .say b d => .say b d
  | .hear k => .hear k

section Parties

variable {β σ τ : Type*}

/-- A party says symbols, one after the other. -/
inductive Says (act : σ → Act β σ) : σ → List β → σ → Prop
  | nil (s : σ) : Says act s [] s
  | cons {s s' s'' : σ} {b : β} {bs : List β} (hact : act s = .say b s')
      (hrest : Says act s' bs s'') : Says act s (b :: bs) s''

/-- A party hears symbols, one after the other, and says nothing. -/
inductive Hears (act : σ → Act β σ) : σ → List β → σ → Prop
  | nil (s : σ) : Hears act s [] s
  | cons {s s' : σ} {next : Option β → σ} {b : β} {bs : List β} (hact : act s = .hear next)
      (hrest : Hears act (next (some b)) bs s') : Hears act s (b :: bs) s'

theorem Hears.append {act : σ → Act β σ} {s s' s'' : σ} {bs bs' : List β}
    (hfirst : Hears act s bs s') (hrest : Hears act s' bs' s'') : Hears act s (bs ++ bs') s'' := by
  induction hfirst with
  | nil s => exact hrest
  | cons hact _ ih => exact .cons hact (ih hrest)

theorem Says.append {act : σ → Act β σ} {s s' s'' : σ} {bs bs' : List β}
    (hfirst : Says act s bs s') (hrest : Says act s' bs' s'') : Says act s (bs ++ bs') s'' := by
  induction hfirst with
  | nil s => exact hrest
  | cons hact _ ih => exact .cons hact (ih hrest)

/-- What a party says, it says as a part of another one too, which goes on where the first
rests. -/
theorem Says.lift {act : σ → Act β σ} {act' : τ → Act β τ} {f : σ → τ}
    (hact : ∀ s, act s ≠ .rest → act' (f s) = (act s).map f) {s s' : σ} {bs : List β}
    (hsaid : Says act s bs s') : Says act' (f s) bs (f s') := by
  induction hsaid with
  | nil s => exact .nil (f s)
  | @cons s s' s'' b bs hsay _ ih =>
      refine .cons ?_ ih
      rw [hact s (by rw [hsay]; exact nofun), hsay]
      rfl

theorem Hears.lift {act : σ → Act β σ} {act' : τ → Act β τ} {f : σ → τ}
    (hact : ∀ s, act s ≠ .rest → act' (f s) = (act s).map f) {s s' : σ} {bs : List β}
    (hhears : Hears act s bs s') : Hears act' (f s) bs (f s') := by
  induction hhears with
  | nil s => exact .nil (f s)
  | @cons s s' next b bs hhear _ ih =>
      have hhear' : act' (f s) = .hear fun x => f (next x) := by
        rw [hact s (by rw [hhear]; exact nofun), hhear]
        rfl
      exact .cons hhear' ih

/-- Two parties that do the same hear the same. -/
theorem Hears.start {act : σ → Act β σ} {s₀ s s' : σ} {b : β} {bs : List β}
    (hact : act s₀ = act s) (hhears : Hears act s (b :: bs) s') : Hears act s₀ (b :: bs) s' := by
  cases hhears with
  | cons hhear hrest => exact .cons (hact.trans hhear) hrest

/-- What a party says, another form of it says too. -/
theorem Says.map {act : σ → Act β σ} {act' : τ → Act β τ} {f : σ → τ}
    (hact : ∀ s, act' (f s) = (act s).map f) {s s' : σ} {bs : List β} (hsaid : Says act s bs s') :
    Says act' (f s) bs (f s') :=
  hsaid.lift fun s _ => hact s

theorem Hears.map {act : σ → Act β σ} {act' : τ → Act β τ} {f : σ → τ}
    (hact : ∀ s, act' (f s) = (act s).map f) {s s' : σ} {bs : List β}
    (hhears : Hears act s bs s') : Hears act' (f s) bs (f s') :=
  hhears.lift fun s _ => hact s

/-! ### Turns -/

/-- What a party says, or hears, in one go. -/
inductive Turn (β : Type*)
  | say (bs : List β)
  | hear (bs : List β)

/-- The turn of the other party. -/
def Turn.dual : Turn β → Turn β
  | .say bs => .hear bs
  | .hear bs => .say bs

/-- A party takes its turns, one after the other. -/
inductive Follows (act : σ → Act β σ) : σ → List (Turn β) → σ → Prop
  | nil (s : σ) : Follows act s [] s
  | say {s s' s'' : σ} {bs : List β} {turns : List (Turn β)} (hsaid : Says act s bs s')
      (hrest : Follows act s' turns s'') : Follows act s (.say bs :: turns) s''
  | hear {s s' s'' : σ} {bs : List β} {turns : List (Turn β)} (hheard : Hears act s bs s')
      (hrest : Follows act s' turns s'') : Follows act s (.hear bs :: turns) s''

theorem Follows.lift {act : σ → Act β σ} {act' : τ → Act β τ} {f : σ → τ}
    (hact : ∀ s, act s ≠ .rest → act' (f s) = (act s).map f) {s s' : σ} {turns : List (Turn β)}
    (hfollows : Follows act s turns s') : Follows act' (f s) turns (f s') := by
  induction hfollows with
  | nil s => exact .nil (f s)
  | say hsaid _ ih => exact .say (hsaid.lift hact) ih
  | hear hheard _ ih => exact .hear (hheard.lift hact) ih

theorem Follows.start {act : σ → Act β σ} {s₀ s s' : σ} {b : β} {bs : List β}
    {turns : List (Turn β)} (hact : act s₀ = act s)
    (hfollows : Follows act s (.hear (b :: bs) :: turns) s') :
    Follows act s₀ (.hear (b :: bs) :: turns) s' := by
  cases hfollows with
  | hear hheard hrest => exact .hear (hheard.start hact) hrest

theorem Follows.append {act : σ → Act β σ} {s s' s'' : σ} {turns turns' : List (Turn β)}
    (hfirst : Follows act s turns s') (hrest : Follows act s' turns' s'') :
    Follows act s (turns ++ turns') s'' := by
  induction hfirst with
  | nil s => exact hrest
  | say hsaid _ ih => exact .say hsaid (ih hrest)
  | hear hheard _ ih => exact .hear hheard (ih hrest)

/-- The first turns, and the later ones. -/
theorem Follows.split {act : σ → Act β σ} {s s'' : σ} (turns : List (Turn β))
    {turns' : List (Turn β)}
    (hfollows : Follows act s (turns ++ turns') s'') :
    ∃ s', Follows act s turns s' ∧ Follows act s' turns' s'' := by
  induction turns generalizing s with
  | nil => exact ⟨s, .nil s, hfollows⟩
  | cons turn turns ih =>
      cases hfollows with
      | say hsaid hrest =>
          obtain ⟨s', hfirst, hlater⟩ := ih hrest
          exact ⟨s', .say hsaid hfirst, hlater⟩
      | hear hheard hrest =>
          obtain ⟨s', hfirst, hlater⟩ := ih hrest
          exact ⟨s', .hear hheard hfirst, hlater⟩

end Parties

namespace Dialogue

variable {β α γ : Type u}

theorem said_say (b : β) (d : Dialogue β α) : Says act (.say b d) [b] d := .cons rfl (.nil d)

theorem said_sendAll (bs : List β) (f : PUnit → Dialogue β γ) :
    Says act ((sendAll bs).bind f) bs (f ⟨⟩) := by
  induction bs with
  | nil => exact .nil _
  | cons b bs ih => exact .cons rfl ih

theorem heard_recvMany (bs : List β) (f : Option (List β) → Dialogue β γ) :
    Hears act ((recvMany bs.length).bind f) bs (f (some bs)) := by
  induction bs generalizing f with
  | nil => exact .nil _
  | cons b bs ih =>
      refine Hears.cons rfl ?_
      show Hears act (((recvMany bs.length).bind fun r => .done (r.map (b :: ·))).bind f) bs _
      rw [bind_assoc]
      exact ih (fun r => f (r.map (b :: ·)))

end Dialogue

/-! ### Nets -/

/-- Two parties, and what is on its way to each, oldest first. -/
structure Net (β σ τ : Type*) where
  left : σ
  right : τ
  toRight : List β
  toLeft : List β

section Nets

variable {β σ τ : Type*}

/-- The net, from the other side. -/
def Net.flip (c : Net β σ τ) : Net β τ σ := ⟨c.right, c.left, c.toLeft, c.toRight⟩

/-- The party on the left says something, or hears the oldest of what is on its way. -/
inductive LeftStep (act : σ → Act β σ) (c : Net β σ τ) : Net β σ τ → Prop
  | sends {l : σ} {b : β} (hact : act c.left = .say b l) :
      LeftStep act c { c with left := l, toRight := c.toRight ++ [b] }
  | takes {b : β} {ys : List β} {next : Option β → σ} (hact : act c.left = .hear next)
      (hqueue : c.toLeft = b :: ys) : LeftStep act c { c with left := next (some b), toLeft := ys }

variable (actL : σ → Act β σ) (actR : τ → Act β τ)

/-- Either party goes on. -/
def NetStep (c d : Net β σ τ) : Prop := LeftStep actL c d ∨ LeftStep actR c.flip d.flip

variable {actL actR}

theorem LeftStep.unique {c d e : Net β σ τ} (hd : LeftStep actL c d) (he : LeftStep actL c e) :
    d = e := by
  cases hd with
  | sends hact =>
      cases he with
      | sends hact' =>
          rw [hact] at hact'
          cases hact'
          rfl
      | takes hact' => exact nomatch hact.symm.trans hact'
  | takes hact hqueue =>
      cases he with
      | sends hact' => exact nomatch hact.symm.trans hact'
      | takes hact' hqueue' =>
          rw [hact] at hact'
          rw [hqueue] at hqueue'
          cases hact'
          cases hqueue'
          rfl

/-- What one party does, the other leaves to be done. -/
theorem LeftStep.commute {c d : Net β σ τ} {e : Net β τ σ} (hd : LeftStep actL c d)
    (he : LeftStep actR c.flip e) :
    ∃ f : Net β σ τ, LeftStep actR d.flip f.flip ∧ LeftStep actL e.flip f := by
  cases hd with
  | @sends l b hact =>
      cases he with
      | @sends r b' hact' =>
          exact ⟨⟨l, r, c.toRight ++ [b], c.toLeft ++ [b']⟩, .sends hact', .sends hact⟩
      | @takes b' xs next hact' hqueue' =>
          have hqueue : c.toRight ++ [b] = b' :: (xs ++ [b]) := congrArg (· ++ [b]) hqueue'
          exact ⟨⟨l, next (some b'), xs ++ [b], c.toLeft⟩, .takes hact' hqueue, .sends hact⟩
  | @takes b ys next hact hqueue =>
      cases he with
      | @sends r b' hact' =>
          have hqueue' : c.toLeft ++ [b'] = b :: (ys ++ [b']) := congrArg (· ++ [b']) hqueue
          exact ⟨⟨next (some b), r, c.toRight, ys ++ [b']⟩, .sends hact', .takes hact hqueue'⟩
      | @takes b' xs next' hact' hqueue' =>
          exact ⟨⟨next (some b), next' (some b'), xs, ys⟩, .takes hact' hqueue', .takes hact hqueue⟩

theorem Net.flip_injective {c d : Net β σ τ} (hflip : c.flip = d.flip) : c = d := by
  obtain ⟨l, r, xs, ys⟩ := c
  obtain ⟨l', r', xs', ys'⟩ := d
  cases hflip
  rfl

/-- **Two moves may be made in either order.** -/
theorem NetStep.diamond : Diamond (@NetStep β σ τ actL actR) := by
  intro a b c hb hc
  rcases hb with hb | hb
  · rcases hc with hc | hc
    · exact .inl (hb.unique hc)
    · obtain ⟨d, hbd, hcd⟩ := hb.commute hc
      exact .inr ⟨d, .inr hbd, .inl hcd⟩
  · rcases hc with hc | hc
    · obtain ⟨d, hcd, hbd⟩ := hc.commute hb
      exact .inr ⟨d, .inl hbd, .inr hcd⟩
    · exact .inl (Net.flip_injective (hb.unique hc))

/-! ### Exchanges -/

variable (actR) in
theorem Says.steps {l l' : σ} {bs : List β} (hsaid : Says actL l bs l') (r : τ) (xs ys : List β) :
    ∃ n, Steps (NetStep actL actR) n ⟨l, r, xs, ys⟩ ⟨l', r, xs ++ bs, ys⟩ := by
  induction hsaid generalizing xs with
  | nil l =>
      rw [List.append_nil]
      exact ⟨0, .refl _⟩
  | @cons l l₁ l₂ b bs hact _ ih =>
      obtain ⟨n, hrest⟩ := ih (xs ++ [b])
      rw [List.append_assoc] at hrest
      have hstep : NetStep actL actR ⟨l, r, xs, ys⟩ ⟨l₁, r, xs ++ [b], ys⟩ := .inl (.sends hact)
      exact ⟨n + 1, .head hstep hrest⟩

variable (actL) in
theorem Hears.steps {r r' : τ} {bs : List β} (hhears : Hears actR r bs r') (l : σ) (ys : List β) :
    ∃ n, Steps (NetStep actL actR) n ⟨l, r, bs, ys⟩ ⟨l, r', [], ys⟩ := by
  induction hhears with
  | nil r => exact ⟨0, .refl _⟩
  | @cons r r' next b bs hact _ ih =>
      obtain ⟨n, hrest⟩ := ih
      have hstep : NetStep actL actR ⟨l, r, b :: bs, ys⟩ ⟨l, next (some b), bs, ys⟩ :=
        .inr (.takes hact rfl)
      exact ⟨n + 1, .head hstep hrest⟩

/-- **An exchange**: what the left says, the right hears. -/
theorem exchange_right {l l' : σ} {r r' : τ} {bs : List β} (hsaid : Says actL l bs l')
    (hhears : Hears actR r bs r') :
    ∃ n, Steps (NetStep actL actR) n ⟨l, r, [], []⟩ ⟨l', r', [], []⟩ := by
  obtain ⟨n, hfirst⟩ := hsaid.steps actR r [] []
  obtain ⟨k, hrest⟩ := hhears.steps actL l' []
  exact ⟨n + k, hfirst.trans hrest⟩

theorem Steps.flip {n : Nat} {c d : Net β σ τ} (hrun : Steps (NetStep actL actR) n c d) :
    Steps (NetStep actR actL) n c.flip d.flip := by
  induction hrun with
  | refl c => exact .refl _
  | head hstep _ ih => exact .head hstep.symm ih

/-- What the right says, the left hears. -/
theorem exchange_left {l l' : σ} {r r' : τ} {bs : List β} (hsaid : Says actR r bs r')
    (hhears : Hears actL l bs l') :
    ∃ n, Steps (NetStep actL actR) n ⟨l, r, [], []⟩ ⟨l', r', [], []⟩ := by
  obtain ⟨n, hrun⟩ := exchange_right hsaid hhears
  exact ⟨n, hrun.flip⟩

/-- **A conversation**: the turns of one party are those of the other, from its side. -/
theorem Follows.converse {l l' : σ} {turns : List (Turn β)} (hl : Follows actL l turns l')
    {r r' : τ} (hr : Follows actR r (turns.map Turn.dual) r') :
    ∃ n, Steps (NetStep actL actR) n ⟨l, r, [], []⟩ ⟨l', r', [], []⟩ := by
  induction hl generalizing r with
  | nil l =>
      cases hr with
      | nil => exact ⟨0, .refl _⟩
  | say hsaid _ ih =>
      cases hr with
      | hear hheard hrest =>
          obtain ⟨n, hfirst⟩ := exchange_right hsaid hheard
          obtain ⟨k, hlater⟩ := ih hrest
          exact ⟨n + k, hfirst.trans hlater⟩
  | hear hheard _ ih =>
      cases hr with
      | say hsaid hrest =>
          obtain ⟨n, hfirst⟩ := exchange_left hsaid hheard
          obtain ⟨k, hlater⟩ := ih hrest
          exact ⟨n + k, hfirst.trans hlater⟩

/-- A party that rests, and one that hears nothing. -/
theorem NetStep.waits {l : σ} {r : τ} {ys : List β} {next : Option β → τ} (hl : actL l = .rest)
    (hr : actR r = .hear next) (e : Net β σ τ) : ¬ NetStep actL actR ⟨l, r, [], ys⟩ e := by
  rintro (hstep | hstep)
  · cases hstep with
    | sends hact => exact nomatch hl.symm.trans hact
    | takes hact => exact nomatch hl.symm.trans hact
  · generalize e.flip = e' at hstep
    cases hstep with
    | sends hact => exact nomatch hr.symm.trans hact
    | takes _ hqueue => exact nomatch hqueue

/-- Two parties that rest, with nothing on its way. -/
theorem NetStep.rest {l : σ} {r : τ} {xs ys : List β} (hl : actL l = .rest)
    (hr : actR r = .rest) (e : Net β σ τ) : ¬ NetStep actL actR ⟨l, r, xs, ys⟩ e := by
  rintro (hstep | hstep)
  · cases hstep with
    | sends hact => exact nomatch hl.symm.trans hact
    | takes hact => exact nomatch hl.symm.trans hact
  · generalize e.flip = e' at hstep
    cases hstep with
    | sends hact => exact nomatch hr.symm.trans hact
    | takes hact => exact nomatch hr.symm.trans hact

end Nets

end Library
end Rc700
