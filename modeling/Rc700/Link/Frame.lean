import Rc700.Library.Word
import Mathlib.Tactic.Common

/-!
# Frames

The serial framing of CP/NET.  A frame is the header and the payload with the control
bytes and checksums around them; bit 7 of a control byte does not count, and the byte
SIZ of the header is the length of the payload less one.

The header and the payload each have a checksum of their own, so that a frame with one
byte replaced is no frame, or one with the same header and payload (`Frame.replaced`).
-/

namespace Rc700
namespace Link

def SOH : Byte := 0x01#8
def STX : Byte := 0x02#8
def ETX : Byte := 0x03#8
def EOT : Byte := 0x04#8
def ENQ : Byte := 0x05#8
def ACK : Byte := 0x06#8
def NAK : Byte := 0x15#8

/-- A byte without bit 7. -/
def low7 (b : Byte) : Byte := b &&& 0x7F#8

/-- The sum of bytes, modulo 256, from a first one on. -/
def sumFrom (first : Byte) (bytes : List Byte) : Byte := bytes.foldl (· + ·) first

/-- The byte SIZ of a header. -/
def siz (hdr : List Byte) : Byte := hdr.getD 4 0#8

structure Frame where
  soh : Byte
  hdr : List Byte
  hcs : Byte
  stx : Byte
  payload : List Byte
  etx : Byte
  cks : Byte
  eot : Byte
  soh_eq : low7 soh = SOH
  stx_eq : low7 stx = STX
  etx_eq : low7 etx = ETX
  eot_eq : low7 eot = EOT
  hdr_length : hdr.length = 5
  payload_length : payload.length = (siz hdr).toNat + 1
  hdr_sum : sumFrom SOH hdr + hcs = 0
  payload_sum : sumFrom STX payload + ETX + cks = 0

namespace Frame

/-- The bytes of a frame on the line, after ENQ. -/
def bytes (f : Frame) : List Byte :=
  f.soh :: f.hdr ++ f.hcs :: f.stx :: f.payload ++ [f.etx, f.cks, f.eot]

end Frame

/-! ### Sums -/

theorem sumFrom_cons (first b : Byte) (bytes : List Byte) :
    sumFrom first (b :: bytes) = sumFrom (first + b) bytes := rfl

theorem sumFrom_add (first b : Byte) (bytes : List Byte) :
    sumFrom (first + b) bytes = sumFrom first bytes + b := by
  induction bytes generalizing first with
  | nil => rfl
  | cons c bytes ih =>
      rw [sumFrom_cons, sumFrom_cons, BitVec.add_assoc, BitVec.add_comm b c, ← BitVec.add_assoc, ih]

theorem sumFrom_append (first : Byte) (front back : List Byte) :
    sumFrom first (front ++ back) = sumFrom (sumFrom first front) back :=
  List.foldl_append

/-- One byte more. -/
theorem sumFrom_insert (first b : Byte) (front back : List Byte) :
    sumFrom first (front ++ b :: back) = sumFrom first (front ++ back) + b := by
  rw [sumFrom_append, sumFrom_cons, sumFrom_add, sumFrom_append]

/-- A sum determines a byte that is replaced. -/
theorem set_eq_of_sumFrom {first v : Byte} {bytes : List Byte} {i : Nat}
    (hsum : sumFrom first (bytes.set i v) = sumFrom first bytes) : bytes.set i v = bytes := by
  induction bytes generalizing first i with
  | nil => rfl
  | cons b bytes ih =>
      cases i with
      | zero =>
          rw [List.set_cons_zero, sumFrom_cons, sumFrom_cons, sumFrom_add, sumFrom_add] at hsum
          rw [List.set_cons_zero, (BitVec.add_right_inj _).mp hsum]
      | succ i =>
          rw [List.set_cons_succ, sumFrom_cons, sumFrom_cons] at hsum
          rw [List.set_cons_succ, ih hsum]

/-! ### One byte replaced -/

namespace Frame

/-- With the same header, the payloads are as long as each other. -/
theorem payload_eq {f g : Frame} (hhdr : f.hdr = g.hdr) {payload rest rest' : List Byte}
    (hlen : payload.length = f.payload.length) (hbytes : payload ++ rest = g.payload ++ rest') :
    payload = g.payload ∧ rest = rest' := by
  refine List.append_inj hbytes ?_
  rw [hlen, f.payload_length, g.payload_length, hhdr]

/-- **One byte replaced**: what then is a frame has the same header and payload. -/
theorem replaced {f g : Frame} {i : Nat} {v : Byte} {rest rest' : List Byte}
    (hbytes : f.bytes.set i v ++ rest = g.bytes ++ rest') :
    g.hdr = f.hdr ∧ g.payload = f.payload := by
  have hf := f.hdr_length
  have hg := g.hdr_length
  simp only [bytes, List.cons_append, List.append_assoc] at hbytes
  cases i with
  | zero =>
      -- the first control byte
      simp only [List.set_cons_zero, List.cons_append, List.append_assoc, List.cons.injEq] at hbytes
      obtain ⟨hhdr, hbytes⟩ := List.append_inj hbytes.2 (hf.trans hg.symm)
      simp only [List.cons.injEq] at hbytes
      exact ⟨hhdr.symm, (payload_eq hhdr rfl hbytes.2.2).1.symm⟩
  | succ i =>
      simp only [List.set_cons_succ, List.cons_append, List.cons.injEq] at hbytes
      obtain ⟨-, hbytes⟩ := hbytes
      rw [List.set_append] at hbytes
      by_cases hin : i < f.hdr.length
      · -- a byte of the header, which its checksum determines
        rw [if_pos hin, List.append_assoc] at hbytes
        obtain ⟨hset, hbytes⟩ := List.append_inj hbytes (by rw [List.length_set]; omega)
        simp only [List.cons_append, List.append_assoc, List.cons.injEq] at hbytes
        obtain ⟨hhcs, -, hbytes⟩ := hbytes
        have hsum : sumFrom SOH (f.hdr.set i v) = sumFrom SOH f.hdr := by
          have hfsum := f.hdr_sum
          have hgsum := g.hdr_sum
          rw [← hset, ← hhcs, ← hfsum] at hgsum
          exact (BitVec.add_left_inj _).mp hgsum
        have hhdr : f.hdr = g.hdr := (set_eq_of_sumFrom hsum).symm.trans hset
        exact ⟨hhdr.symm, (payload_eq hhdr rfl hbytes).1.symm⟩
      · rw [if_neg hin, List.append_assoc] at hbytes
        obtain ⟨hhdr, hbytes⟩ := List.append_inj hbytes (hf.trans hg.symm)
        refine ⟨hhdr.symm, ?_⟩
        generalize i - f.hdr.length = j at hbytes
        match j with
        | 0 =>
            -- the checksum of the header
            simp only [List.set_cons_zero, List.cons_append, List.append_assoc, List.cons.injEq]
              at hbytes
            exact (payload_eq hhdr rfl hbytes.2.2).1.symm
        | 1 =>
            simp only [List.set_cons_succ, List.set_cons_zero, List.cons_append, List.append_assoc,
              List.cons.injEq] at hbytes
            exact (payload_eq hhdr rfl hbytes.2.2).1.symm
        | j + 2 =>
            simp only [List.set_cons_succ, List.cons_append, List.cons.injEq] at hbytes
            obtain ⟨-, -, hbytes⟩ := hbytes
            rw [List.set_append] at hbytes
            by_cases hin : j < f.payload.length
            · -- a byte of the payload, which its checksum determines
              rw [if_pos hin, List.append_assoc] at hbytes
              obtain ⟨hset, hbytes⟩ := payload_eq hhdr (List.length_set) hbytes
              simp only [List.cons_append, List.cons.injEq] at hbytes
              obtain ⟨-, hcks, -⟩ := hbytes
              have hsum : sumFrom STX (f.payload.set j v) = sumFrom STX f.payload := by
                have hfsum := f.payload_sum
                have hgsum := g.payload_sum
                rw [← hset, ← hcks, ← hfsum, BitVec.add_left_inj] at hgsum
                exact (BitVec.add_left_inj _).mp hgsum
              rw [← hset, set_eq_of_sumFrom hsum]
            · rw [if_neg hin, List.append_assoc] at hbytes
              exact (payload_eq hhdr rfl hbytes).1.symm

end Frame

/-! ### Frames in a stream -/

/-- After the first ENQ of a stream there is a frame with the header and the payload. -/
def Framed (isEnq : Byte → Prop) (stream hdr payload : List Byte) : Prop :=
  ∃ (before : List Byte) (enq : Byte) (f : Frame) (rest : List Byte),
    (∀ b ∈ before, ¬ isEnq b) ∧ isEnq enq ∧ stream = before ++ enq :: (f.bytes ++ rest) ∧
      f.hdr = hdr ∧ f.payload = payload

/-- What follows the first ENQ is determined. -/
theorem after_first {isEnq : Byte → Prop} {before before' xs ys : List Byte} {enq enq' : Byte}
    (hbefore : ∀ b ∈ before, ¬ isEnq b) (hbefore' : ∀ b ∈ before', ¬ isEnq b) (henq : isEnq enq)
    (henq' : isEnq enq') (hsplit : before ++ enq :: xs = before' ++ enq' :: ys) : xs = ys := by
  induction before generalizing before' with
  | nil =>
      cases before' with
      | nil => exact (List.cons.inj hsplit).2
      | cons c before' =>
          obtain ⟨rfl, -⟩ := List.cons.inj hsplit
          exact absurd henq (hbefore' enq List.mem_cons_self)
  | cons b before ih =>
      cases before' with
      | nil =>
          obtain ⟨rfl, -⟩ := List.cons.inj hsplit
          exact absurd henq' (hbefore b List.mem_cons_self)
      | cons c before' =>
          exact ih (fun d hd => hbefore d (List.mem_cons_of_mem b hd))
            (fun d hd => hbefore' d (List.mem_cons_of_mem c hd)) (List.cons.inj hsplit).2

/-- **A stream with one byte of a frame replaced** has the same frame, or none. -/
theorem Framed.replaced {isEnq : Byte → Prop} {before rest hdr payload : List Byte} {enq v : Byte}
    {f : Frame} {i : Nat} (hbefore : ∀ b ∈ before, ¬ isEnq b) (henq : isEnq enq)
    (hframed : Framed isEnq (before ++ enq :: (f.bytes.set i v ++ rest)) hdr payload) :
    hdr = f.hdr ∧ payload = f.payload := by
  obtain ⟨before', enq', g, rest', hbefore', henq', hsplit, rfl, rfl⟩ := hframed
  exact Frame.replaced (after_first hbefore hbefore' henq henq' hsplit)

end Link
end Rc700
