import Rc700.Library.Dialogue
import Rc700.Link.Frame

/-!
# The server's end of the line

`send_frame` and `recv_frame` of `SerialConnection` in `cpnet/server.py`, as dialogues
over bytes.  To hear nothing is that `recv_byte` returns `None` after its timeout; what
is printed and counted is left out.

`recv_frame` waits for ENQ without a timeout, and looks at all bits of it.

What it accepts is exactly a frame (`recvFrame_accepts`).
-/

namespace Rc700
namespace Link

open Library Dialogue

/-- `send_frame` -/
def sendFrame (hdr payload : List Byte) : Dialogue Byte Bool := do
  send ENQ
  let some b ← recv | return false
  if low7 b ≠ ACK then return false
  send SOH
  sendAll (hdr.take 5)
  send (-sumFrom SOH (hdr.take 5))
  let some b ← recv | return false
  if low7 b ≠ ACK then return false
  send STX
  sendAll payload
  send ETX
  send (-(sumFrom STX payload + ETX))
  send EOT
  let some b ← recv | return false
  if low7 b ≠ ACK then return false
  return true

/-- `recv_frame`, after ENQ. -/
def recvRest : Dialogue Byte (Option (List Byte × List Byte)) := do
  send ACK
  let some b ← recv | return none
  if low7 b ≠ SOH then return none
  let hcs := low7 b
  let some hdr ← recvMany 5 | return none
  let hcs := sumFrom hcs hdr
  let some b ← recv | return none
  let hcs := hcs + b
  if hcs ≠ 0 then
    send NAK
    return none
  send ACK
  let some b ← recv | return none
  if low7 b ≠ STX then return none
  let cks := low7 b
  let payloadLen := (siz hdr).toNat + 1
  let some payload ← recvMany payloadLen | return none
  let cks := sumFrom cks payload
  let some b ← recv | return none
  if low7 b ≠ ETX then return none
  let cks := cks + low7 b
  let some b ← recv | return none
  let cks := cks + b
  let some b ← recv | return none
  if low7 b ≠ EOT then return none
  if cks ≠ 0 then
    send NAK
    return none
  send ACK
  return some (hdr, payload)

/-- `recv_frame` -/
def recvFrame : List (Option Byte) → Outcome Byte (Option (List Byte × List Byte))
  | [] => ⟨none, [], []⟩
  -- the wait for ENQ has no timeout
  | none :: xs => recvFrame xs
  | some b :: xs => if b = ENQ then recvRest.run xs else recvFrame xs

theorem map_bytes (f : Frame) (rest : List (Option Byte)) :
    f.bytes.map some ++ rest =
      some f.soh :: (f.hdr.map some ++ some f.hcs :: some f.stx ::
        (f.payload.map some ++ some f.etx :: some f.cks :: some f.eot :: rest)) := by
  simp only [Frame.bytes, List.map_append, List.map_cons, List.map_nil, List.cons_append,
    List.append_assoc, List.nil_append]

/-- After ENQ exactly the frames are accepted. -/
theorem recvRest_accepts {xs : List (Option Byte)} {hdr payload : List Byte} :
    Accepts recvRest xs (hdr, payload) ↔
      ∃ (f : Frame) (rest : List (Option Byte)),
        xs = f.bytes.map some ++ rest ∧ f.hdr = hdr ∧ f.payload = payload := by
  unfold recvRest
  simp only [bind_eq, pure_eq, send_bind, recv_bind, accepts_say, accepts_hear, accepts_done,
    accepts_unless, accepts_recvMany, reduceCtorEq, not_false_eq_true, implies_true, ne_eq,
    not_not, Option.some.injEq, Prod.mk.injEq]
  constructor
  · rintro ⟨soh, _, rfl, hsoh, hdr', _, hlen, rfl, hcs, _, rfl, hhcs, stx, _, rfl, hstx, payload',
      _, hplen, rfl, etx, _, rfl, hetx, cks, _, rfl, eot, rest, rfl, heot, hcks, rfl, rfl⟩
    rw [hsoh] at hhcs
    rw [hstx, hetx] at hcks
    let f : Frame := ⟨soh, hdr', hcs, stx, payload', etx, cks, eot, hsoh, hstx, hetx, heot, hlen,
      hplen, hhcs, hcks⟩
    exact ⟨f, rest, (map_bytes f rest).symm, rfl, rfl⟩
  · rintro ⟨f, rest, rfl, rfl, rfl⟩
    have hhdr := f.hdr_sum
    have hpayload := f.payload_sum
    rw [map_bytes]
    refine ⟨f.soh, _, rfl, f.soh_eq, f.hdr, _, f.hdr_length, rfl, f.hcs, _, rfl, ?_, f.stx, _, rfl,
      f.stx_eq, f.payload, _, f.payload_length, rfl, f.etx, _, rfl, f.etx_eq, f.cks, _, rfl, f.eot,
      rest, rfl, f.eot_eq, ?_, rfl, rfl⟩
    · rw [f.soh_eq]
      exact hhdr
    · rw [f.stx_eq, f.etx_eq]
      exact hpayload

/-- What comes before ENQ is passed over. -/
theorem recvFrame_skip {before : List Byte} (hbefore : ENQ ∉ before) (xs : List (Option Byte)) :
    recvFrame (before.map some ++ some ENQ :: xs) = recvRest.run xs := by
  induction before with
  | nil => exact if_pos rfl
  | cons b before ih =>
      have hne : b ≠ ENQ := fun heq => hbefore (heq ▸ List.mem_cons_self)
      rw [List.map_cons, List.cons_append, recvFrame, if_neg hne]
      exact ih (fun hmem => hbefore (List.mem_cons_of_mem b hmem))

/-- Without ENQ nothing is returned. -/
theorem recvFrame_noEnq {stream : List Byte} (hstream : ENQ ∉ stream) :
    (recvFrame (stream.map some)).result = none := by
  induction stream with
  | nil => rfl
  | cons b stream ih =>
      have hne : b ≠ ENQ := fun heq => hstream (heq ▸ List.mem_cons_self)
      rw [List.map_cons, recvFrame, if_neg hne]
      exact ih (fun hmem => hstream (List.mem_cons_of_mem b hmem))

/-- **`recv_frame` accepts** exactly the frames. -/
theorem recvFrame_accepts {stream hdr payload : List Byte} :
    (recvFrame (stream.map some)).result = some (some (hdr, payload)) ↔
      Framed (· = ENQ) stream hdr payload := by
  constructor
  · intro haccepts
    by_cases henq : ENQ ∈ stream
    · obtain ⟨before, after, rfl, hbefore⟩ := List.eq_append_cons_of_mem henq
      rw [List.map_append, List.map_cons, recvFrame_skip hbefore] at haccepts
      obtain ⟨f, rest, hbytes, hhdr, hpayload⟩ := recvRest_accepts.mp haccepts
      obtain ⟨front, back, hsplit, hfront, -⟩ := List.map_eq_append_iff.mp hbytes
      have hsame := List.map_injective_iff.mpr (Option.some_injective Byte) hfront
      refine ⟨before, ENQ, f, back, fun b hb heq => hbefore (heq ▸ hb), rfl, ?_, hhdr, hpayload⟩
      rw [hsplit, hsame]
    · rw [recvFrame_noEnq henq] at haccepts
      exact nomatch haccepts
  · rintro ⟨before, enq, f, rest, hbefore, rfl, rfl, rfl, rfl⟩
    rw [List.map_append, List.map_cons, List.map_append,
      recvFrame_skip (fun hmem => hbefore ENQ hmem rfl)]
    exact recvRest_accepts.mpr ⟨f, rest.map some, rfl, rfl, rfl⟩

end Link
end Rc700
