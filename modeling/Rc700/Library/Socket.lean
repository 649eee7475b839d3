import Mathlib.Tactic.Common

/-!
# Sockets

A stream that comes in pieces, none of which is empty, and ends.  A read takes no more
than one piece and no more than it asks for, so that a reader of a given length asks
again until it has it all; how the stream was cut does not matter then (`recvExact_eq`).
-/

namespace Rc700
namespace Library

variable {β : Type*}

structure Socket (β : Type*) where
  chunks : List (List β)
  nonempty : ∀ chunk ∈ chunks, chunk ≠ []

namespace Socket

/-- What is still to come. -/
def stream (s : Socket β) : List β := s.chunks.flatten

/-- A stream, byte by byte. -/
def trickle (bytes : List β) : Socket β where
  chunks := bytes.map ([·])
  nonempty := by
    intro chunk hchunk
    obtain ⟨b, -, rfl⟩ := List.mem_map.mp hchunk
    exact List.cons_ne_nil b []

/-- At most `n` elements; nothing at the end of the stream. -/
def recv (n : Nat) : Socket β → List β × Socket β
  | ⟨[], h⟩ => ([], ⟨[], h⟩)
  | ⟨chunk :: chunks, h⟩ =>
      if hall : chunk.length ≤ n then
        (chunk, ⟨chunks, fun c hc => h c (List.mem_cons_of_mem _ hc)⟩)
      else
        (chunk.take n, ⟨chunk.drop n :: chunks, fun c hc => by
          rcases List.mem_cons.mp hc with rfl | hlater
          · exact fun hnil => hall (List.drop_eq_nil_iff.mp hnil)
          · exact h c (List.mem_cons_of_mem _ hlater)⟩)

/-- What is read is taken off the stream. -/
theorem recv_stream (n : Nat) (s : Socket β) :
    (recv n s).1 ++ (recv n s).2.stream = s.stream := by
  obtain ⟨chunks, h⟩ := s
  cases chunks with
  | nil => rfl
  | cons chunk chunks =>
      unfold recv
      simp only
      split
      · rfl
      · show chunk.take n ++ (chunk.drop n ++ chunks.flatten) = chunk ++ chunks.flatten
        rw [← List.append_assoc, List.take_append_drop]

theorem recv_length (n : Nat) (s : Socket β) : (recv n s).1.length ≤ n := by
  obtain ⟨chunks, h⟩ := s
  cases chunks with
  | nil => exact Nat.zero_le n
  | cons chunk chunks =>
      unfold recv
      simp only
      split
      · assumption
      · exact List.length_take_le n chunk

/-- Nothing is read at the end of the stream only. -/
theorem recv_nil {n : Nat} {s : Socket β} (hn : 0 < n) (hnil : (recv n s).1 = []) :
    s.stream = [] := by
  obtain ⟨chunks, h⟩ := s
  cases chunks with
  | nil => rfl
  | cons chunk chunks =>
      have hchunk := List.length_pos_iff.mpr (h chunk List.mem_cons_self)
      have hzero := congrArg List.length hnil
      revert hzero
      unfold recv
      simp only
      split
      · intro hzero
        exact absurd hzero (Nat.pos_iff_ne_zero.mp hchunk)
      · intro hzero
        rw [List.length_take, List.length_nil] at hzero
        omega

/-- Read until `n` elements are there.  If the stream ends before, the result is how many
are missing. -/
def recvExact (n : Nat) (buf : List β) (s : Socket β) : Except Nat (List β × Socket β) :=
  if buf.length < n then
    match hread : (recv (n - buf.length) s).1 with
    | [] => .error (n - buf.length)
    | b :: chunk => recvExact n (buf ++ b :: chunk) (recv (n - buf.length) s).2
  else .ok (buf, s)
termination_by n - buf.length
decreasing_by
  simp only [List.length_append, List.length_cons]
  omega

/-- **The pieces do not matter.** -/
theorem recvExact_eq {n : Nat} {buf front rest : List β} {s : Socket β}
    (hlen : buf.length + front.length = n) (hstream : s.stream = front ++ rest) :
    ∃ s', recvExact n buf s = .ok (buf ++ front, s') ∧ s'.stream = rest := by
  induction hleft : n - buf.length using Nat.strongRecOn generalizing buf front s with
  | ind left ih =>
      unfold recvExact
      by_cases hmore : buf.length < n
      · rw [if_pos hmore]
        have htaken := recv_stream (n - buf.length) s
        have hshort := recv_length (n - buf.length) s
        have hend := recv_nil (s := s) (n := n - buf.length) (by omega)
        generalize recv (n - buf.length) s = read at htaken hshort hend
        obtain ⟨chunk, s'⟩ := read
        dsimp only at htaken hshort hend ⊢
        rw [hstream] at htaken hend
        cases chunk with
        | nil =>
            -- the stream has not come to its end
            have hfront : front = [] := (List.append_eq_nil_iff.mp (hend rfl)).1
            rw [hfront, List.length_nil] at hlen
            omega
        | cons b chunk =>
            obtain ⟨front', rfl, hrest⟩ : ∃ front', front = b :: chunk ++ front' ∧
                s'.stream = front' ++ rest := by
              have hprefix : (b :: chunk).length ≤ front.length := by omega
              have hcut := List.append_eq_append_iff.mp htaken
              rcases hcut with ⟨front', hfront, hs'⟩ | ⟨excess, hchunk, hrest⟩
              · exact ⟨front', hfront, hs'⟩
              · have hexcess : excess = [] := by
                  have hsum := congrArg List.length hchunk
                  rw [List.length_append] at hsum
                  exact List.length_eq_zero_iff.mp (by omega)
                subst hexcess
                rw [List.append_nil] at hchunk
                exact ⟨[], by rw [List.append_nil, hchunk], hrest.symm⟩
            rw [List.length_append] at hlen
            have hcount : (buf ++ b :: chunk).length + front'.length = n := by
              rw [List.length_append]
              omega
            have hless : n - (buf ++ b :: chunk).length < left := by
              rw [List.length_append, List.length_cons]
              omega
            obtain ⟨s'', heq, hlast⟩ := ih _ hless hcount hrest rfl
            refine ⟨s'', ?_, hlast⟩
            show recvExact n (buf ++ b :: chunk) s' = _
            rw [heq, List.append_assoc]
      · rw [if_neg hmore]
        have hfront : front = [] := List.length_eq_zero_iff.mp (by omega)
        subst hfront
        rw [List.append_nil]
        exact ⟨s, rfl, hstream⟩

end Socket

end Library
end Rc700
