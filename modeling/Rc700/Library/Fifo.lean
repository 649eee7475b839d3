import Mathlib.Data.List.Basic

/-!
# A bounded queue that can be flushed

Elements are received at one end and taken at the other.  An element is lost only
when it arrives while the queue is full, or waits while the queue is flushed; what
is taken is, in order, a part of what was received.
-/

namespace Rc700
namespace Library

variable {α : Type*}

/-- What was taken so far, and what waits; both oldest first. -/
structure Fifo (α : Type*) where
  taken : List α
  queue : List α

namespace Fifo

/-- The operations on the queue. -/
inductive Op (α : Type*)
  | receive (a : α)
  | take
  | flush
  | skip

/-- One operation on a queue of the given capacity. -/
def step (capacity : Nat) (f : Fifo α) : Op α → Fifo α
  | .receive a =>
      if f.queue.length = capacity then f else { f with queue := f.queue ++ [a] }
  | .take =>
      match f.queue with
      | [] => f
      | a :: queue => ⟨f.taken ++ [a], queue⟩
  | .flush => { f with queue := [] }
  | .skip => f

/-- The elements that arrived. -/
def received : List (Op α) → List α
  | [] => []
  | .receive a :: ops => a :: received ops
  | _ :: ops => received ops

theorem taken_step (capacity : Nat) (f : Fifo α) (op : Op α) :
    ∃ out, (f.step capacity op).taken = f.taken ++ out ∧
      (out ++ (f.step capacity op).queue).Sublist (f.queue ++ received [op]) := by
  cases op with
  | receive a =>
      refine ⟨[], ?_, ?_⟩
      · simp only [step]
        split <;> simp
      · simp only [step, received]
        split
        · simp
        · simp
  | take =>
      simp only [step, received, List.append_nil]
      split
      · next hempty =>
        exact ⟨[], by simp, by simp [hempty]⟩
      · next a queue hqueue =>
        exact ⟨[a], rfl, by simp [hqueue]⟩
  | flush => exact ⟨[], by simp [step], by simp [step]⟩
  | skip => exact ⟨[], by simp [step], by simp [step, received]⟩

/-- **What is taken is a part of what waited and what was received since**, in
order and without repetition. -/
theorem taken_run (capacity : Nat) (f : Fifo α) (ops : List (Op α)) :
    ∃ out, (ops.foldl (step capacity) f).taken = f.taken ++ out ∧
      (out ++ (ops.foldl (step capacity) f).queue).Sublist (f.queue ++ received ops) := by
  induction ops generalizing f with
  | nil => exact ⟨[], by simp, by simp [received]⟩
  | cons op ops ih =>
      obtain ⟨first, hfirst, hsub⟩ := taken_step capacity f op
      obtain ⟨rest, hrest, hsub'⟩ := ih (f.step capacity op)
      refine ⟨first ++ rest, ?_, ?_⟩
      · rw [List.foldl_cons, hrest, hfirst, List.append_assoc]
      · have hcons : received (op :: ops) = received [op] ++ received ops := by
          cases op <;> rfl
        rw [List.foldl_cons, List.append_assoc, hcons, ← List.append_assoc f.queue]
        calc first ++ (rest ++ (ops.foldl (step capacity) (f.step capacity op)).queue)
          _ |>.Sublist (first ++ ((f.step capacity op).queue ++ received ops)) :=
              List.Sublist.append_left hsub' first
          _ |>.Sublist _ := by
              rw [← List.append_assoc]
              exact List.Sublist.append_right hsub (received ops)

end Fifo

end Library
end Rc700
