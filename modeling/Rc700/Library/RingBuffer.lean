import Mathlib.Dynamics.PeriodicPts.Defs
import Mathlib.Tactic.Common

/-!
# Ring buffers

A buffer whose places are visited in a cycle, with a head where elements are put in and a
tail where they are taken out.  It is empty where the two meet, and so full with one
place left over.

`next` is any function on the places under which those of the ring form a cycle of `n`:
the increment of an index that wraps, or one with a mask.  A machine whose steps are
operations on such a ring loses nothing and repeats nothing, and
drops an element only where `n - 1` wait (`Drives.losesNothing`).
-/

namespace Rc700
namespace Library

open Function

structure Ring (ι β : Type*) where
  buf : ι → β
  head : ι
  tail : ι

namespace Ring

variable {ι β : Type*} {next : ι → ι} {n : Nat} {r : Ring ι β} {queue : List β}

/-- Take the oldest element out. -/
def pop (next : ι → ι) (r : Ring ι β) : Ring ι β := { r with tail := next r.tail }

/-- What waits in the ring, oldest first. -/
structure Represents (next : ι → ι) (n : Nat) (r : Ring ι β) (queue : List β) : Prop where
  period : minimalPeriod next r.tail = n
  room : queue.length < n
  head : r.head = next^[queue.length] r.tail
  slot : ∀ i (hi : i < queue.length), r.buf (next^[i] r.tail) = queue[i]

theorem represents_empty (hperiod : minimalPeriod next r.tail = n) (hn : 0 < n)
    (hempty : r.head = r.tail) : Represents next n r [] where
  period := hperiod
  room := hn
  head := hempty
  slot := fun _ hi => absurd hi (Nat.not_lt_zero _)

namespace Represents

variable (hr : Represents next n r queue)

include hr in
theorem next_head : next r.head = next^[queue.length + 1] r.tail := by
  rw [hr.head, iterate_succ_apply']

include hr in
/-- The ring is full when all places but one are taken. -/
theorem full_iff : next r.head = r.tail ↔ queue.length + 1 = n := by
  rw [hr.next_head]
  constructor
  · intro hfull
    have hle : minimalPeriod next r.tail ≤ queue.length + 1 :=
      IsPeriodicPt.minimalPeriod_le (Nat.succ_pos _) hfull
    rw [hr.period] at hle
    have hroom := hr.room
    omega
  · intro hlength
    rw [hlength, ← hr.period]
    exact iterate_minimalPeriod

include hr in
/-- The place of the head is not in use. -/
theorem slot_ne_head {i : Nat} (hi : i < queue.length) : next^[i] r.tail ≠ r.head := by
  intro heq
  rw [hr.head] at heq
  have hlt : queue.length < minimalPeriod next r.tail := hr.period ▸ hr.room
  have hsame := (iterate_eq_iterate_iff_of_lt_minimalPeriod (hi.trans hlt) hlt).mp heq
  omega

include hr in
/-- The oldest element is in the place of the tail. -/
theorem pop (hne : r.head ≠ r.tail) :
    ∃ rest, queue = r.buf r.tail :: rest ∧ Represents next n (r.pop next) rest := by
  cases queue with
  | nil => exact absurd hr.head hne
  | cons b rest =>
      have hperiodic : r.tail ∈ periodicPts next := by
        rw [← minimalPeriod_pos_iff_mem_periodicPts, hr.period]
        exact Nat.zero_lt_of_lt hr.room
      have hfirst : r.buf r.tail = b := hr.slot 0 (Nat.zero_lt_succ _)
      refine ⟨rest, by rw [hfirst], ?_⟩
      constructor
      case period => exact (minimalPeriod_apply hperiodic).trans hr.period
      case room => exact Nat.lt_of_succ_lt hr.room
      case head => exact hr.head.trans (iterate_succ_apply next rest.length r.tail)
      case slot =>
        intro i hi
        exact hr.slot (i + 1) (Nat.succ_lt_succ hi)

end Represents

variable [DecidableEq ι]

/-- Put an element in, if there is room. -/
def push (next : ι → ι) (b : β) (r : Ring ι β) : Ring ι β :=
  if next r.head = r.tail then r
  else { r with buf := Function.update r.buf r.head b, head := next r.head }

theorem Represents.push (hr : Represents next n r queue) (hroom : next r.head ≠ r.tail) (b : β) :
    Represents next n (r.push next b) (queue ++ [b]) := by
  have hlength : queue.length + 1 ≠ n := fun h => hroom (hr.full_iff.mpr h)
  have hpush : r.push next b =
      { r with buf := Function.update r.buf r.head b, head := next r.head } := if_neg hroom
  rw [hpush]
  constructor
  case period => exact hr.period
  case room =>
    have hlt := hr.room
    rw [List.length_append, List.length_singleton]
    omega
  case head =>
    show next r.head = _
    rw [List.length_append, List.length_singleton, hr.next_head]
  case slot =>
    intro i hi
    show Function.update r.buf r.head b (next^[i] r.tail) = _
    by_cases hlast : i < queue.length
    · rw [Function.update_of_ne (hr.slot_ne_head hlast), hr.slot i hlast,
        List.getElem_append_left hlast]
    · have hi' : i = queue.length := by
        rw [List.length_append, List.length_singleton] at hi
        omega
      subst hi'
      rw [← hr.head, Function.update_self, List.getElem_append_right (Nat.le_refl _)]
      simp

/-! ### Operations -/

/-- What a step of a machine does to its ring. -/
inductive Op (β : Type*)
  | push (b : β)
  | pop (b : β)
  | skip

/-- One operation. -/
def step (next : ι → ι) (r : Ring ι β) : Op β → Ring ι β
  | .push b => r.push next b
  | .pop _ => r.pop next
  | .skip => r

/-- An element that is taken out is the oldest. -/
def Allows (r : Ring ι β) : Op β → Prop
  | .pop b => r.head ≠ r.tail ∧ b = r.buf r.tail
  | _ => True

/-- The element that is put in, if there is room. -/
def accepts (next : ι → ι) (r : Ring ι β) : Op β → List β
  | .push b => if next r.head = r.tail then [] else [b]
  | _ => []

/-- The element that is taken out. -/
def pops : Op β → List β
  | .pop b => [b]
  | _ => []

/-- **One operation** appends what is accepted and takes what is popped. -/
theorem Represents.step (hr : Represents next n r queue) {op : Op β} (hallows : r.Allows op) :
    ∃ queue', Represents next n (r.step next op) queue' ∧
      queue ++ r.accepts next op = pops op ++ queue' := by
  cases op with
  | push b =>
      by_cases hfull : next r.head = r.tail
      · have hpush : r.push next b = r := if_pos hfull
        refine ⟨queue, ?_, ?_⟩
        · rw [Ring.step, hpush]
          exact hr
        · rw [accepts, if_pos hfull, List.append_nil]
          rfl
      · refine ⟨queue ++ [b], hr.push hfull b, ?_⟩
        rw [accepts, if_neg hfull]
        rfl
  | pop b =>
      obtain ⟨hne, rfl⟩ := hallows
      obtain ⟨rest, hqueue, hrest⟩ := hr.pop hne
      refine ⟨rest, hrest, ?_⟩
      have hnone : r.accepts next (.pop (r.buf r.tail)) = [] := rfl
      rw [hqueue, hnone, List.append_nil]
      rfl
  | skip =>
      have hnone : r.accepts next .skip = [] := rfl
      refine ⟨queue, hr, ?_⟩
      rw [hnone, List.append_nil]
      rfl

/-! ### Machines with a ring -/

section Machine

variable {State Event : Type*} {machine : State → Event → State} {ring : State → Ring ι β}
  {op : State → Event → Op β} {Inv : State → Prop}

/-- What the steps of a run put out. -/
def history (machine : State → Event → State) (out : State → Event → List β) :
    State → List Event → List β
  | _, [] => []
  | s, event :: events => out s event ++ history machine out (machine s event) events

/-- The steps of the machine are operations on its ring. -/
structure Drives (next : ι → ι) (machine : State → Event → State) (ring : State → Ring ι β)
    (op : State → Event → Op β) (Inv : State → Prop) : Prop where
  keeps : ∀ s event, Inv s → Inv (machine s event)
  moves : ∀ s event, Inv s → ring (machine s event) = (ring s).step next (op s event)
  allowed : ∀ s event, Inv s → (ring s).Allows (op s event)

/-- What was put in during a run, oldest first. -/
def accepted (next : ι → ι) (machine : State → Event → State) (ring : State → Ring ι β)
    (op : State → Event → Op β) : State → List Event → List β :=
  history machine fun s event => (ring s).accepts next (op s event)

/-- What was taken out during a run, oldest first. -/
def popped (machine : State → Event → State) (op : State → Event → Op β) :
    State → List Event → List β :=
  history machine fun s event => pops (op s event)

variable (hmachine : Drives next machine ring op Inv)

include hmachine in
/-- **A run**: what waited and was accepted is what was popped and waits. -/
theorem Drives.run {s : State} (hs : Inv s) (hr : Represents next n (ring s) queue)
    (events : List Event) :
    ∃ queue', Represents next n (ring (events.foldl machine s)) queue' ∧
      Inv (events.foldl machine s) ∧
      queue ++ accepted next machine ring op s events = popped machine op s events ++ queue' := by
  induction events generalizing s queue with
  | nil => exact ⟨queue, hr, hs, List.append_nil _⟩
  | cons event events ih =>
      obtain ⟨between, hnext, hstep⟩ := hr.step (hmachine.allowed s event hs)
      rw [← hmachine.moves s event hs] at hnext
      obtain ⟨queue', hend, hinv, hrest⟩ := ih (hmachine.keeps s event hs) hnext
      refine ⟨queue', hend, hinv, ?_⟩
      show queue ++ ((ring s).accepts next (op s event) ++ accepted next machine ring op _ events) =
        pops (op s event) ++ popped machine op _ events ++ queue'
      rw [← List.append_assoc, hstep, List.append_assoc, hrest, List.append_assoc]

/-- The ring of a machine loses nothing: each step is an operation on it; what was popped
is a prefix of what was accepted; and an element that arrives is dropped only where
`capacity` elements were accepted and not popped. -/
structure LosesNothing (next : ι → ι) (capacity : Nat) (machine : State → Event → State)
    (ring : State → Ring ι β) (op : State → Event → Op β) (s : State) : Prop where
  moves : ∀ (events : List Event) event, ring (machine (events.foldl machine s) event) =
    (ring (events.foldl machine s)).step next (op (events.foldl machine s) event)
  order : ∀ events : List Event,
    popped machine op s events <+: accepted next machine ring op s events
  drops : ∀ (events : List Event) event b, op (events.foldl machine s) event = .push b →
    (ring (events.foldl machine s)).accepts next (.push b) = [] →
    (accepted next machine ring op s events).length =
      (popped machine op s events).length + capacity

include hmachine in
/-- **Nothing is lost** by a machine that starts with an empty ring of `capacity + 1`
places. -/
theorem Drives.losesNothing {capacity : Nat} {s : State} (hs : Inv s)
    (hr : Represents next (capacity + 1) (ring s) []) :
    LosesNothing next capacity machine ring op s := by
  constructor
  case moves =>
    intro events event
    obtain ⟨-, -, hinv, -⟩ := hmachine.run hs hr events
    exact hmachine.moves _ event hinv
  case order =>
    intro events
    obtain ⟨queue', -, -, hbalance⟩ := hmachine.run hs hr events
    exact ⟨queue', hbalance.symm⟩
  case drops =>
    intro events event b _ hdropped
    obtain ⟨queue', hend, -, hbalance⟩ := hmachine.run hs hr events
    have hfull : next (ring (events.foldl machine s)).head =
        (ring (events.foldl machine s)).tail := by
      by_contra hroom
      rw [accepts, if_neg hroom] at hdropped
      exact nomatch hdropped
    have hlength := congrArg List.length hbalance
    rw [List.nil_append, List.length_append, Nat.succ_inj.mp (hend.full_iff.mp hfull)] at hlength
    exact hlength

end Machine

end Ring

end Library
end Rc700
