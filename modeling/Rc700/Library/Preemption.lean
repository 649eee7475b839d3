import Rc700.Library.Run

/-!
# Code that is interrupted

`Prog` is code as a sequence of accesses to shared variables; what comes after an access
may depend on the state it met.  Between two accesses interrupts may run, each of which is
one step.

`Meets` is the weakest precondition of a program under interrupts.  A `Triple` has
assertions that interrupts keep, and is proved by one rule for each way to build a program.
The machine of the last part lets a client make calls, one at a time, whose bodies are such
programs (`Respects.holds`).
-/

namespace Rc700
namespace Library

/-- Code with shared variables `σ` that returns an `α`. -/
inductive Prog (σ α : Type) : Type
  | pure (a : α)
  /-- One access, which may read and write. -/
  | access (f : σ → σ) (next : σ → Prog σ α)
  /-- A loop that only waits for a condition. -/
  | await (p : σ → Bool) (next : Prog σ α)

namespace Prog

variable {σ τ α β : Type}

/-- One program after the other. -/
def bind : Prog σ α → (α → Prog σ β) → Prog σ β
  | .pure a, k => k a
  | .access f next, k => .access f fun s => (next s).bind k
  | .await p next, k => .await p (next.bind k)

instance : Monad (Prog σ) where
  pure := .pure
  bind := .bind

/-- Write, depending on what is there. -/
def store (f : σ → σ) : Prog σ Unit := .access f fun _ => .pure ()

/-- Read. -/
def load (g : σ → α) : Prog σ α := .access id fun s => .pure (g s)

/-- Run a program or nothing. -/
def when (c : Prop) [Decidable c] (prog : Prog σ Unit) : Prog σ Unit :=
  if c then prog else .pure ()

/-- Wait. -/
def waitFor (p : σ → Bool) : Prog σ Unit := .await p (.pure ())

/-- The same code on a part of the variables. -/
def focus (get : τ → σ) (set : τ → σ → τ) : Prog σ α → Prog τ α
  | .pure a => .pure a
  | .access f next => .access (fun t => set t (f (get t))) fun t => focus get set (next (get t))
  | .await p next => .await (fun t => p (get t)) (focus get set next)

theorem focus_bind (get : τ → σ) (set : τ → σ → τ) (prog : Prog σ α) (k : α → Prog σ β) :
    focus get set (prog >>= k) = focus get set prog >>= fun a => focus get set (k a) := by
  induction prog with
  | pure a => rfl
  | access f next ih =>
      show Prog.access _ _ = Prog.access _ _
      congr 1
      funext t
      exact ih (get t)
  | await p next ih =>
      show Prog.await _ _ = Prog.await _ _
      congr 1

/-! ### What all accesses keep -/

/-- Every access of the program keeps `P`. -/
def Keeps (P : σ → Prop) : Prog σ α → Prop
  | .pure _ => True
  | .access f next => (∀ s, P s → P (f s)) ∧ ∀ s, (next s).Keeps P
  | .await _ next => next.Keeps P

variable {P : σ → Prop}

theorem keeps_store {f : σ → σ} (hf : ∀ s, P s → P (f s)) : (store f).Keeps P :=
  ⟨hf, fun _ => trivial⟩

theorem keeps_load (g : σ → α) : (load g).Keeps P :=
  ⟨fun _ hs => hs, fun _ => trivial⟩

theorem Keeps.bind {prog : Prog σ α} {k : α → Prog σ β} (hprog : prog.Keeps P)
    (hk : ∀ a, (k a).Keeps P) : (prog >>= k).Keeps P := by
  induction prog with
  | pure a => exact hk a
  | access f next ih => exact ⟨hprog.1, fun s => ih s (hprog.2 s)⟩
  | await p next ih => exact ih hprog

/-- Accesses to a part of the variables keep what is said about the others. -/
theorem keeps_focus {get : τ → σ} {set : τ → σ → τ} {P : τ → Prop}
    (hset : ∀ t s, P t → P (set t s)) (prog : Prog σ α) : (prog.focus get set).Keeps P := by
  induction prog with
  | pure a => exact trivial
  | access f next ih => exact ⟨fun t ht => hset t _ ht, fun t => ih (get t)⟩
  | await p next ih => exact ih

/-- They keep what relates the part to something outside it, if the code does so on its own,
whatever is outside. -/
theorem Keeps.focus {κ : Type} (get : τ → σ) (set : τ → σ → τ) (outside : τ → κ)
    {R : κ → σ → Prop} {prog : Prog σ α} (hget : ∀ t s, get (set t s) = s)
    (houtside : ∀ t s, outside (set t s) = outside t) (hprog : ∀ k, prog.Keeps (R k)) :
    (prog.focus get set).Keeps fun t => R (outside t) (get t) := by
  induction prog with
  | pure a => exact trivial
  | access f next ih =>
      refine ⟨fun t ht => ?_, fun t => ih (get t) fun k => (hprog k).2 (get t)⟩
      have hstore := (hprog (outside t)).1 (get t) ht
      show R (outside (set t (f (get t)))) (get (set t (f (get t))))
      rw [houtside, hget]
      exact hstore
  | await p next ih => exact ih fun k => hprog k

/-! ### Without interrupts -/

/-- The result of a program that nothing interrupts; none if it waits for ever. -/
def alone : Prog σ α → σ → Option (α × σ)
  | .pure a, s => some (a, s)
  | .access f next, s => (next s).alone (f s)
  | .await p next, s => if p s then next.alone s else none

@[simp] theorem alone_pure (a : α) (s : σ) : (Pure.pure a : Prog σ α).alone s = some (a, s) := rfl

@[simp] theorem alone_store (f : σ → σ) (s : σ) : (store f).alone s = some ((), f s) := rfl

@[simp] theorem alone_load (g : σ → α) (s : σ) : (load g).alone s = some (g s, s) := rfl

@[simp] theorem alone_when (c : Prop) [Decidable c] (prog : Prog σ Unit) (s : σ) :
    (when c prog).alone s = if c then prog.alone s else some ((), s) := by
  unfold when
  split
  · rfl
  · rfl

@[simp] theorem alone_bind (prog : Prog σ α) (k : α → Prog σ β) (s : σ) :
    (prog >>= k).alone s = (prog.alone s).bind fun r => (k r.1).alone r.2 := by
  induction prog generalizing s with
  | pure a => rfl
  | access f next ih => exact ih s (f s)
  | await p next ih =>
      show (if p s then (next >>= k).alone s else none) = _
      rw [ih]
      simp only [alone]
      split
      · rfl
      · rfl

theorem alone_then {prog : Prog σ α} {s s' : σ} {a : α} (hprog : prog.alone s = some (a, s'))
    (k : α → Prog σ β) : (prog >>= k).alone s = (k a).alone s' := by
  rw [alone_bind, hprog]
  rfl

end Prog

/-! ### Interrupts -/

/-- The interrupts that may come, and in which states. -/
structure Environment (σ Irq : Type) where
  handle : Irq → σ → σ
  allowed : σ → Irq → Prop

namespace Environment

variable {σ τ α β Irq : Type} (env : Environment σ Irq)

/-- What interrupts may make of a state. -/
inductive Interrupted : σ → σ → Prop
  | none (s : σ) : Interrupted s s
  | more {s s' : σ} (i : Irq) (hbefore : Interrupted s s') (hallowed : env.allowed s' i) :
      Interrupted s (env.handle i s')

/-- An assertion that interrupts keep. -/
def Stable (P : σ → Prop) : Prop := ∀ s i, env.allowed s i → P s → P (env.handle i s)

variable {env}

theorem Interrupted.trans {s s' s'' : σ} (hfirst : env.Interrupted s s')
    (hsecond : env.Interrupted s' s'') : env.Interrupted s s'' := by
  induction hsecond with
  | none => exact hfirst
  | more i _ hallowed ih => exact .more i ih hallowed

theorem Interrupted.keeps {P : σ → Prop} (hP : env.Stable P) {s s' : σ}
    (hinterrupted : env.Interrupted s s') (hs : P s) : P s' := by
  induction hinterrupted with
  | none => exact hs
  | more i _ hallowed ih => exact hP _ i hallowed ih

theorem Stable.true : env.Stable fun _ => True := fun _ _ _ _ => trivial

theorem Stable.and {P Q : σ → Prop} (hP : env.Stable P) (hQ : env.Stable Q) :
    env.Stable fun s => P s ∧ Q s :=
  fun s i hallowed hs => ⟨hP s i hallowed hs.1, hQ s i hallowed hs.2⟩

variable (env)

/-- The program ends, if it ends, with a result in `Q`, and all the time `G` holds. -/
def Meets (G : σ → Prop) (Q : α → σ → Prop) : Prog σ α → σ → Prop
  | .pure a, s => ∀ s', env.Interrupted s s' → G s' ∧ Q a s'
  | .access f next, s => ∀ s', env.Interrupted s s' → G s' ∧ Meets G Q (next s') (f s')
  | .await p next, s =>
      ∀ s', env.Interrupted s s' → G s' ∧ (p s' = true → Meets G Q next s')

variable {env} {G : σ → Prop} {Q R : α → σ → Prop}

theorem Meets.interrupted {prog : Prog σ α} {s s' : σ} (hprog : env.Meets G Q prog s)
    (hinterrupted : env.Interrupted s s') : env.Meets G Q prog s' := by
  cases prog with
  | pure a => exact fun s'' hmore => hprog s'' (hinterrupted.trans hmore)
  | access f next => exact fun s'' hmore => hprog s'' (hinterrupted.trans hmore)
  | await p next => exact fun s'' hmore => hprog s'' (hinterrupted.trans hmore)

theorem Meets.now {prog : Prog σ α} {s : σ} (hprog : env.Meets G Q prog s) : G s := by
  cases prog with
  | pure a => exact (hprog s (.none s)).1
  | access f next => exact (hprog s (.none s)).1
  | await p next => exact (hprog s (.none s)).1

theorem Meets.mono {G' : σ → Prop} {prog : Prog σ α} {s : σ} (hprog : env.Meets G Q prog s)
    (hG : ∀ s, G s → G' s) (hresult : ∀ a s, Q a s → R a s) : env.Meets G' R prog s := by
  induction prog generalizing s with
  | pure a => exact fun s' h => ⟨hG s' (hprog s' h).1, hresult a s' (hprog s' h).2⟩
  | access f next ih => exact fun s' h => ⟨hG s' (hprog s' h).1, ih s' (hprog s' h).2⟩
  | await p next ih =>
      exact fun s' h => ⟨hG s' (hprog s' h).1, fun hp => ih ((hprog s' h).2 hp)⟩

theorem Meets.bind {Q : β → σ → Prop} {prog : Prog σ α} {k : α → Prog σ β} {s : σ}
    (hprog : env.Meets G (fun a s => env.Meets G Q (k a) s) prog s) :
    env.Meets G Q (prog >>= k) s := by
  induction prog generalizing s with
  | pure a => exact (hprog s (.none s)).2
  | access f next ih => exact fun s' h => ⟨(hprog s' h).1, ih s' (hprog s' h).2⟩
  | await p next ih =>
      exact fun s' h => ⟨(hprog s' h).1, fun hp => ih ((hprog s' h).2 hp)⟩

/-! ### Triples -/

variable (env G)

/-- From a state in `P` the program ends with a result in `Q`, and all the time `G`
holds. -/
def Triple (P : σ → Prop) (prog : Prog σ α) (Q : α → σ → Prop) : Prop :=
  ∀ s, P s → env.Meets G Q prog s

variable {env G} {P P' : σ → Prop}

theorem Triple.pure {a : α} (hstable : env.Stable P) (hG : ∀ s, P s → G s)
    (hQ : ∀ s, P s → Q a s) : env.Triple G P (Pure.pure a) Q := by
  intro s hs s' hinterrupted
  have hs' := hinterrupted.keeps hstable hs
  exact ⟨hG s' hs', hQ s' hs'⟩

theorem Triple.bind {Q : α → σ → Prop} {R : β → σ → Prop} {prog : Prog σ α} {k : α → Prog σ β}
    (hprog : env.Triple G P prog Q) (hk : ∀ a, env.Triple G (Q a) (k a) R) :
    env.Triple G P (prog >>= k) R :=
  fun s hs => ((hprog s hs).mono (fun _ hG => hG) fun a s' ha => hk a s' ha).bind

theorem Triple.store {f : σ → σ} {Q : Unit → σ → Prop} (hP : env.Stable P)
    (hG : ∀ s, P s → G s) (hQ : env.Stable (Q ())) (hafter : ∀ s, Q () s → G s)
    (hstore : ∀ s, P s → Q () (f s)) : env.Triple G P (Prog.store f) Q := by
  intro s hs s' hinterrupted
  have hs' := hinterrupted.keeps hP hs
  refine ⟨hG s' hs', fun s'' hmore => ?_⟩
  have hs'' := hmore.keeps hQ (hstore s' hs')
  exact ⟨hafter s'' hs'', hs''⟩

theorem Triple.load {g : σ → α} (hP : env.Stable P) (hG : ∀ s, P s → G s)
    (hQ : ∀ a, env.Stable (Q a)) (hafter : ∀ a s, Q a s → G s)
    (hload : ∀ s, P s → Q (g s) s) : env.Triple G P (Prog.load g) Q := by
  intro s hs s' hinterrupted
  have hs' := hinterrupted.keeps hP hs
  refine ⟨hG s' hs', fun s'' hmore => ?_⟩
  have hs'' := hmore.keeps (hQ (g s')) (hload s' hs')
  exact ⟨hafter _ s'' hs'', hs''⟩

theorem Triple.ite {c : Prop} [Decidable c] {yes no : Prog σ α}
    (hyes : c → env.Triple G P yes Q) (hno : ¬c → env.Triple G P no Q) :
    env.Triple G P (if c then yes else no) Q := by
  by_cases hc : c
  · rw [if_pos hc]
    exact hyes hc
  · rw [if_neg hc]
    exact hno hc

theorem Triple.when {c : Prop} [Decidable c] {prog : Prog σ Unit} {Q : Unit → σ → Prop}
    (hstable : env.Stable P) (hG : ∀ s, P s → G s) (hyes : c → env.Triple G P prog Q)
    (hno : ¬c → ∀ s, P s → Q () s) : env.Triple G P (Prog.when c prog) Q := by
  unfold Prog.when
  exact .ite hyes fun hc => .pure hstable hG (hno hc)

theorem Triple.consequence {prog : Prog σ α} (hprog : env.Triple G P prog Q)
    (hbefore : ∀ s, P' s → P s) (hresult : ∀ a s, Q a s → R a s) :
    env.Triple G P' prog R :=
  fun s hs => (hprog s (hbefore s hs)).mono (fun _ hG => hG) hresult

theorem Triple.weaken {G' : σ → Prop} {prog : Prog σ α} (hprog : env.Triple G P prog Q)
    (hG : ∀ s, G s → G' s) : env.Triple G' P prog Q :=
  fun s hs => (hprog s hs).mono hG fun _ _ ha => ha

/-- **Frame.**  What every access keeps, and every interrupt, holds throughout. -/
theorem Triple.keeps (hP : env.Stable P) {prog : Prog σ α} (hprog : prog.Keeps P) :
    env.Triple P P prog fun _ => P := by
  intro s hs
  induction prog generalizing s with
  | pure a =>
      intro s' hinterrupted
      have hs' := hinterrupted.keeps hP hs
      exact ⟨hs', hs'⟩
  | access f next ih =>
      intro s' hinterrupted
      have hs' := hinterrupted.keeps hP hs
      exact ⟨hs', ih s' (hprog.2 s') _ (hprog.1 s' hs')⟩
  | await p next ih =>
      intro s' hinterrupted
      have hs' := hinterrupted.keeps hP hs
      exact ⟨hs', fun _ => ih hprog s' hs'⟩

end Environment

/-! ### Calls -/

/-- The shared variables, and the call that is being served with what is left of it. -/
structure Served (σ Call : Type) where
  shared : σ
  main : Option (Call × Prog σ Unit)

namespace Served

variable {σ Irq Call : Type}

/-- A call arrives, the code makes its next access or returns, or an interrupt comes. -/
inductive Event (Irq Call : Type)
  | call (c : Call)
  | main
  | interrupt (i : Irq)
  deriving DecidableEq, Repr

/-- One event.  A call that arrives while another is being served is none. -/
def step (handle : Irq → σ → σ) (body : Call → Prog σ Unit) (x : Served σ Call) :
    Event Irq Call → Served σ Call
  | .call c =>
      match x.main with
      | none => { x with main := some (c, body c) }
      | some _ => x
  | .main =>
      match x.main with
      | none => x
      | some (_, .pure _) => { x with main := none }
      | some (c, .access f next) => ⟨f x.shared, some (c, next x.shared)⟩
      | some (c, .await p next) => if p x.shared then { x with main := some (c, next) } else x
  | .interrupt i => { x with shared := handle i x.shared }

/-- Interrupts come only where the environment allows them. -/
def Admissible (env : Environment σ Irq) (x : Served σ Call) : Event Irq Call → Prop
  | .interrupt i => env.allowed x.shared i
  | _ => True

/-- Between calls `Inv` holds, and `During c` while `c` is being served. -/
structure Respects (env : Environment σ Irq) (body : Call → Prog σ Unit) (Inv : σ → Prop)
    (During : Call → σ → Prop) : Prop where
  stable : env.Stable Inv
  triple : ∀ c, env.Triple (During c) Inv (body c) fun _ => Inv

/-- The invariant of the machine. -/
def Holds (env : Environment σ Irq) (Inv : σ → Prop) (During : Call → σ → Prop)
    (x : Served σ Call) : Prop :=
  match x.main with
  | none => Inv x.shared
  | some (c, prog) => env.Meets (During c) (fun _ => Inv) prog x.shared

variable {env : Environment σ Irq} {body : Call → Prog σ Unit} {Inv : σ → Prop}
  {During : Call → σ → Prop}

theorem Respects.step (h : Respects env body Inv During) (x : Served σ Call)
    (event : Event Irq Call) (hadmissible : Admissible env x event)
    (hx : Holds env Inv During x) : Holds env Inv During (step env.handle body x event) := by
  obtain ⟨s, main⟩ := x
  cases event with
  | call c =>
      cases main with
      | none => exact h.triple c s hx
      | some served => exact hx
  | main =>
      cases main with
      | none => exact hx
      | some served =>
          obtain ⟨c, prog⟩ := served
          cases prog with
          | pure a => exact (hx s (.none s)).2
          | access f next => exact (hx s (.none s)).2
          | await p next =>
              simp only [Served.step]
              by_cases hp : p s
              · rw [if_pos hp]
                exact (hx s (.none s)).2 hp
              · rw [if_neg hp]
                exact hx
  | interrupt i =>
      cases main with
      | none => exact h.stable s i hadmissible hx
      | some served => exact Environment.Meets.interrupted hx (.more i (.none s) hadmissible)

/-- **The invariant of every run.** -/
theorem Respects.holds (h : Respects env body Inv During) {x : Served σ Call}
    {events : List (Event Irq Call)}
    (hrun : EveryStep (Served.step env.handle body) (Admissible env) x events)
    (hx : Holds env Inv During x) :
    Holds env Inv During (events.foldl (Served.step env.handle body) x) :=
  foldl_invariant h.step hrun hx

theorem Holds.idle {x : Served σ Call} (hx : Holds env Inv During x) (hidle : x.main = none) :
    Inv x.shared := by
  unfold Holds at hx
  rw [hidle] at hx
  exact hx

theorem Holds.during {x : Served σ Call} (hx : Holds env Inv During x) {c : Call}
    {prog : Prog σ Unit} (hmain : x.main = some (c, prog)) : During c x.shared := by
  unfold Holds at hx
  rw [hmain] at hx
  exact hx.now

/-- What holds both between the calls and during each of them always holds. -/
theorem Holds.always {x : Served σ Call} {P : σ → Prop} (hx : Holds env Inv During x)
    (hidle : Inv x.shared → P x.shared)
    (hduring : ∀ c prog, x.main = some (c, prog) → During c x.shared → P x.shared) :
    P x.shared := by
  cases hmain : x.main with
  | none => exact hidle (hx.idle hmain)
  | some served =>
      obtain ⟨c, prog⟩ := served
      exact hduring c prog hmain (hx.during hmain)

end Served

end Library
end Rc700
