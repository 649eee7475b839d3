import Rc700.Console.Keyboard
import Rc700.Library.RingBuffer

/-!
# Byte rings filled by interrupts

The receive ring of the parallel port and the two keyboard rings.  A handler runs with
interrupts off, so that it is one step; the consumer is interrupted between any two of its
accesses to memory, and holds what it has loaded in registers.

The handlers of CP/NOS store the new head before the byte, at the place before it.  As
nobody looks in between, that is a push, and each consumer pops when it stores the tail
(`interrupt_rings_lose_nothing`).
-/

namespace Rc700
namespace Interrupts

open Library Function

/-! ### Indices -/

/-- The increment of an index of 8 bits. -/
def next256 (i : Byte) : Byte := i + 1#8

/-- The increment of an index of 4 bits. -/
def next16 (i : Byte) : Byte := (i + 1#8) &&& 0x0F#8

theorem toNat_and_15 (i : Byte) : (i &&& 0x0F#8).toNat = i.toNat % 16 := by
  rw [BitVec.toNat_and]
  exact Nat.and_two_pow_sub_one_eq_mod i.toNat 4

theorem toNat_next16 (i : Byte) : (next16 i).toNat = (i.toNat + 1) % 16 := by
  rw [next16, toNat_and_15, BitVec.toNat_add]
  show (i.toNat + 1) % 256 % 16 = _
  omega

theorem toNat_iterate_next256 (i : Byte) (k : Nat) :
    (next256^[k] i).toNat = (i.toNat + k) % 256 := by
  induction k with
  | zero => exact (Nat.mod_eq_of_lt i.isLt).symm
  | succ k ih =>
      rw [iterate_succ_apply', next256, BitVec.toNat_add, ih]
      show ((i.toNat + k) % 256 + 1) % 256 = _
      omega

theorem toNat_iterate_next16 {i : Byte} (hi : i.toNat < 16) (k : Nat) :
    (next16^[k] i).toNat = (i.toNat + k) % 16 := by
  induction k with
  | zero => exact (Nat.mod_eq_of_lt hi).symm
  | succ k ih =>
      rw [iterate_succ_apply', toNat_next16, ih]
      omega

/-- The period of an increment modulo `n`. -/
theorem minimalPeriod_of_toNat {next : Byte → Byte} {i : Byte} {n : Nat} (hi : i.toNat < n)
    (hiterate : ∀ k, (next^[k] i).toNat = (i.toNat + k) % n) : minimalPeriod next i = n := by
  have hback : ∀ k, next^[k] i = i ↔ n ∣ k := by
    intro k
    rw [← BitVec.toNat_inj, hiterate]
    constructor
    · intro hsame
      have hmod : (i.toNat + k) % n = (i.toNat + 0) % n := by
        rw [hsame, Nat.add_zero, Nat.mod_eq_of_lt hi]
      exact Nat.dvd_of_mod_eq_zero (Nat.ModEq.add_left_cancel' i.toNat hmod)
    · rintro ⟨c, rfl⟩
      rw [Nat.add_mul_mod_self_left, Nat.mod_eq_of_lt hi]
  apply Nat.dvd_antisymm
  · exact IsPeriodicPt.minimalPeriod_dvd ((hback n).mpr (Nat.dvd_refl n))
  · exact (hback _).mp iterate_minimalPeriod

theorem period_next256 (i : Byte) : minimalPeriod next256 i = 256 :=
  minimalPeriod_of_toNat i.isLt (toNat_iterate_next256 i)

theorem period_next16 {i : Byte} (hi : i.toNat < 16) : minimalPeriod next16 i = 16 :=
  minimalPeriod_of_toNat hi (toNat_iterate_next16 hi)

/-! ### The parallel port -/

namespace PioRx

/-- The place of `transport_pio_recv_byte`. -/
inductive Pc
  | idle
  | loadTail (timeoutTicks : Word)
  | loadHead (timeoutTicks : Word) (t : Byte)
  | loadByte (t : Byte)
  | storeTail (t b : Byte)
  deriving DecidableEq, Repr

structure State where
  pioRxBuf : Byte → Byte
  pioRxHead : Byte
  pioRxTail : Byte
  pc : Pc

/-- Events: `transport_pio_recv_byte` is called or goes on, or a byte is strobed in. -/
inductive Event
  | recv (timeoutTicks : Word)
  | main
  | strobe (b : Byte)
  deriving DecidableEq, Repr

/-- `isr_pio_par` -/
def isrPioPar (b : Byte) (s : State) : State :=
  let a := s.pioRxHead + 1#8
  if a = s.pioRxTail then s
  else { s with pioRxHead := a, pioRxBuf := Function.update s.pioRxBuf (a - 1#8) b }

/-- The next access of `transport_pio_recv_byte`. -/
def main (s : State) : State :=
  match s.pc with
  | .idle => s
  | .loadTail timeoutTicks =>
      -- `while (timeout_ticks--)`
      if timeoutTicks = 0#16 then { s with pc := .idle }
      else { s with pc := .loadHead (timeoutTicks - 1#16) s.pioRxTail }
  | .loadHead timeoutTicks t =>
      { s with pc := if s.pioRxHead ≠ t then .loadByte t else .loadTail timeoutTicks }
  | .loadByte t => { s with pc := .storeTail t (s.pioRxBuf t) }
  | .storeTail t _ => { s with pioRxTail := t + 1#8, pc := .idle }

def step (s : State) : Event → State
  | .recv timeoutTicks => if s.pc = .idle then { s with pc := .loadTail timeoutTicks } else s
  | .main => main s
  | .strobe b => isrPioPar b s

/-- The ring is empty; the buffer is not cleared. -/
def start (pioRxBuf : Byte → Byte) : State := ⟨pioRxBuf, 0#8, 0#8, .idle⟩

def ring (s : State) : Ring Byte Byte := ⟨s.pioRxBuf, s.pioRxHead, s.pioRxTail⟩

def op (s : State) : Event → Ring.Op Byte
  | .strobe b => .push b
  | .main =>
      match s.pc with
      | .storeTail _ b => .pop b
      | _ => .skip
  | .recv _ => .skip

/-- What `transport_pio_recv_byte` knows at each place. -/
def Knows (s : State) : Prop :=
  match s.pc with
  | .loadHead _ t => t = s.pioRxTail
  | .loadByte t => t = s.pioRxTail ∧ s.pioRxHead ≠ s.pioRxTail
  | .storeTail t b =>
      t = s.pioRxTail ∧ s.pioRxHead ≠ s.pioRxTail ∧ b = s.pioRxBuf s.pioRxTail
  | _ => True

theorem knows_isrPioPar {s : State} (hs : Knows s) (b : Byte) : Knows (isrPioPar b s) := by
  unfold isrPioPar
  by_cases hfull : s.pioRxHead + 1#8 = s.pioRxTail
  · rw [if_pos hfull]
    exact hs
  · rw [if_neg hfull, BitVec.add_sub_cancel]
    have hslot : s.pioRxHead ≠ s.pioRxTail →
        Function.update s.pioRxBuf s.pioRxHead b s.pioRxTail = s.pioRxBuf s.pioRxTail :=
      fun hne => Function.update_of_ne (Ne.symm hne) b s.pioRxBuf
    unfold Knows at hs ⊢
    cases hpc : s.pc with
    | idle => exact trivial
    | loadTail ticks => exact trivial
    | loadHead ticks t =>
        simp only [hpc] at hs ⊢
        exact hs
    | loadByte t =>
        simp only [hpc] at hs ⊢
        exact ⟨hs.1, hfull⟩
    | storeTail t b' =>
        simp only [hpc] at hs ⊢
        exact ⟨hs.1, hfull, hs.2.2.trans (hslot hs.2.1).symm⟩

theorem knows_main {s : State} (hs : Knows s) : Knows (main s) := by
  unfold Knows at hs
  unfold main
  cases hpc : s.pc with
  | idle =>
      simp only [Knows, hpc]
  | loadTail ticks =>
      simp only
      split
      · exact trivial
      · exact rfl
  | loadHead ticks t =>
      simp only [hpc] at hs ⊢
      by_cases hempty : s.pioRxHead ≠ t
      · rw [if_pos hempty]
        exact ⟨hs, hs ▸ hempty⟩
      · rw [if_neg hempty]
        exact trivial
  | loadByte t =>
      simp only [hpc] at hs ⊢
      exact ⟨hs.1, hs.2, congrArg s.pioRxBuf hs.1⟩
  | storeTail t b => exact trivial

/-- The steps are operations on the ring. -/
theorem drives : Ring.Drives next256 step ring op Knows where
  keeps := by
    intro s event hs
    cases event with
    | recv ticks =>
        simp only [step]
        split
        · exact trivial
        · exact hs
    | main => exact knows_main hs
    | strobe b => exact knows_isrPioPar hs b
  moves := by
    intro s event hs
    cases event with
    | recv ticks =>
        simp only [step]
        split
        · rfl
        · rfl
    | main =>
        unfold Knows at hs
        simp only [step, main, op]
        -- the tail is stored last, when the byte is in hand
        cases hpc : s.pc with
        | idle => rfl
        | loadTail ticks =>
            simp only
            split
            · rfl
            · rfl
        | loadHead ticks t => rfl
        | loadByte t => rfl
        | storeTail t b =>
            simp only [hpc] at hs ⊢
            rw [hs.1]
            rfl
    | strobe b =>
        simp only [step, isrPioPar, op, Ring.step, Ring.push]
        by_cases hfull : s.pioRxHead + 1#8 = s.pioRxTail
        · rw [if_pos hfull]
          exact (if_pos hfull).symm
        · rw [if_neg hfull, BitVec.add_sub_cancel]
          exact (if_neg hfull).symm
  allowed := by
    intro s event hs
    unfold Knows at hs
    cases event with
    | recv ticks => exact trivial
    | main =>
        simp only [op]
        cases hpc : s.pc with
        | storeTail t b =>
            simp only [hpc] at hs
            exact hs.2
        | _ => exact trivial
    | strobe b => exact trivial

theorem start_represents (pioRxBuf : Byte → Byte) :
    Ring.Represents next256 256 (ring (start pioRxBuf)) [] :=
  Ring.represents_empty (period_next256 0#8) (by decide) rfl

end PioRx

/-! ### The keyboard of CP/NOS -/

namespace CpnosKbd

/-- The place of `impl_conin`. -/
inductive Pc
  | idle
  | poll
  | loadHead
  | compareTail (head : Byte)
  | loadIndex
  | loadByte (index : Byte)
  | loadTail (c : Byte)
  | storeTail (c tail : Byte)
  deriving DecidableEq, Repr

structure State where
  kbdRing : Byte → Byte
  kbdHead : Byte
  kbdTail : Byte
  pc : Pc

/-- Events: `impl_conin` is called or goes on, where `serial` says whether the serial line
has a character; or a key is pressed. -/
inductive Event
  | conin
  | main (serial : Bool)
  | key (key : Byte)
  deriving DecidableEq, Repr

/-- `isr_pio_kbd` -/
def isrPioKbd (key : Byte) (s : State) : State :=
  let a := (s.kbdHead + 1#8) &&& 0x0F#8
  if a = s.kbdTail then s
  else { s with kbdHead := a, kbdRing := Function.update s.kbdRing ((a - 1#8) &&& 0x0F#8) key }

/-- The next access of `impl_conin`. -/
def main (serial : Bool) (s : State) : State :=
  match s.pc with
  | .idle => s
  -- the character of the serial line is returned
  | .poll => { s with pc := if serial then .idle else .loadHead }
  | .loadHead => { s with pc := .compareTail s.kbdHead }
  | .compareTail head => { s with pc := if head ≠ s.kbdTail then .loadIndex else .poll }
  | .loadIndex => { s with pc := .loadByte s.kbdTail }
  | .loadByte index => { s with pc := .loadTail (s.kbdRing index) }
  | .loadTail c => { s with pc := .storeTail c ((s.kbdTail + 1#8) &&& 0x0F#8) }
  | .storeTail _ tail => { s with kbdTail := tail, pc := .idle }

def step (s : State) : Event → State
  | .conin => if s.pc = .idle then { s with pc := .poll } else s
  | .main serial => main serial s
  | .key key => isrPioKbd key s

/-- The variables are cleared. -/
def start : State := ⟨fun _ => 0#8, 0#8, 0#8, .idle⟩

def ring (s : State) : Ring Byte Byte := ⟨s.kbdRing, s.kbdHead, s.kbdTail⟩

def op (s : State) : Event → Ring.Op Byte
  | .key key => .push key
  | .main _ =>
      match s.pc with
      | .storeTail c _ => .pop c
      | _ => .skip
  | .conin => .skip

/-- What `impl_conin` knows at each place. -/
def Knows (s : State) : Prop :=
  match s.pc with
  -- the head may be an old one by now
  | .compareTail head => head ≠ s.kbdTail → s.kbdHead ≠ s.kbdTail
  | .loadIndex => s.kbdHead ≠ s.kbdTail
  | .loadByte index => index = s.kbdTail ∧ s.kbdHead ≠ s.kbdTail
  | .loadTail c => s.kbdHead ≠ s.kbdTail ∧ c = s.kbdRing s.kbdTail
  | .storeTail c tail =>
      tail = next16 s.kbdTail ∧ s.kbdHead ≠ s.kbdTail ∧ c = s.kbdRing s.kbdTail
  | _ => True

/-- The head is an index of the ring. -/
structure Inv (s : State) : Prop where
  head : s.kbdHead.toNat < 16
  knows : Knows s

theorem next16_lt (i : Byte) : (next16 i).toNat < 16 := by
  rw [toNat_next16]
  exact Nat.mod_lt _ (by decide)

/-- The index before the next one. -/
theorem next16_sub {i : Byte} (hi : i.toNat < 16) : (next16 i - 1#8) &&& 0x0F#8 = i := by
  apply BitVec.eq_of_toNat_eq
  rw [toNat_and_15, BitVec.toNat_sub, toNat_next16]
  show (256 - 1 + (i.toNat + 1) % 16) % 256 % 16 = i.toNat
  omega

theorem isrPioKbd_eq {s : State} (hhead : s.kbdHead.toNat < 16) (key : Byte) :
    isrPioKbd key s = if next16 s.kbdHead = s.kbdTail then s
      else { s with
        kbdHead := next16 s.kbdHead
        kbdRing := Function.update s.kbdRing s.kbdHead key } := by
  have hslot := next16_sub hhead
  unfold isrPioKbd
  unfold next16 at hslot ⊢
  simp only [hslot]

theorem inv_isrPioKbd {s : State} (hs : Inv s) (key : Byte) : Inv (isrPioKbd key s) := by
  obtain ⟨hhead, hknows⟩ := hs
  rw [isrPioKbd_eq hhead]
  by_cases hfull : next16 s.kbdHead = s.kbdTail
  · rw [if_pos hfull]
    exact ⟨hhead, hknows⟩
  · rw [if_neg hfull]
    refine ⟨next16_lt _, ?_⟩
    have hslot : s.kbdHead ≠ s.kbdTail →
        Function.update s.kbdRing s.kbdHead key s.kbdTail = s.kbdRing s.kbdTail :=
      fun hne => Function.update_of_ne (Ne.symm hne) key s.kbdRing
    unfold Knows at hknows ⊢
    cases hpc : s.pc with
    | idle => exact trivial
    | poll => exact trivial
    | loadHead => exact trivial
    | compareTail head => exact fun _ => hfull
    | loadIndex => exact hfull
    | loadByte index =>
        simp only [hpc] at hknows ⊢
        exact ⟨hknows.1, hfull⟩
    | loadTail c =>
        simp only [hpc] at hknows ⊢
        exact ⟨hfull, hknows.2.trans (hslot hknows.1).symm⟩
    | storeTail c tail =>
        simp only [hpc] at hknows ⊢
        exact ⟨hknows.1, hfull, hknows.2.2.trans (hslot hknows.2.1).symm⟩

theorem inv_main {s : State} (hs : Inv s) (serial : Bool) : Inv (main serial s) := by
  obtain ⟨hhead, hknows⟩ := hs
  unfold Knows at hknows
  unfold main
  cases hpc : s.pc with
  | idle =>
      refine ⟨hhead, ?_⟩
      unfold Knows
      rw [hpc]
      exact trivial
  | poll =>
      simp only
      split
      · exact ⟨hhead, trivial⟩
      · exact ⟨hhead, trivial⟩
  | loadHead => exact ⟨hhead, id⟩
  | compareTail head =>
      simp only [hpc] at hknows ⊢
      by_cases hempty : head ≠ s.kbdTail
      · rw [if_pos hempty]
        exact ⟨hhead, hknows hempty⟩
      · rw [if_neg hempty]
        exact ⟨hhead, trivial⟩
  | loadIndex =>
      simp only [hpc] at hknows ⊢
      exact ⟨hhead, rfl, hknows⟩
  | loadByte index =>
      simp only [hpc] at hknows ⊢
      exact ⟨hhead, hknows.2, congrArg s.kbdRing hknows.1⟩
  | loadTail c =>
      simp only [hpc] at hknows ⊢
      exact ⟨hhead, rfl, hknows⟩
  | storeTail c tail => exact ⟨hhead, trivial⟩

/-- The steps are operations on the ring. -/
theorem drives : Ring.Drives next16 step ring op Inv where
  keeps := by
    intro s event hs
    cases event with
    | conin =>
        simp only [step]
        split
        · exact ⟨hs.head, trivial⟩
        · exact hs
    | main serial => exact inv_main hs serial
    | key key => exact inv_isrPioKbd hs key
  moves := by
    intro s event hs
    cases event with
    | conin =>
        simp only [step]
        split
        · rfl
        · rfl
    | main serial =>
        have hknows := hs.knows
        unfold Knows at hknows
        simp only [step, main, op]
        cases hpc : s.pc with
        | storeTail c tail =>
            simp only [hpc] at hknows ⊢
            rw [hknows.1]
            rfl
        | _ => rfl
    | key key =>
        simp only [step, op, Ring.step, Ring.push]
        rw [isrPioKbd_eq hs.head]
        by_cases hfull : next16 s.kbdHead = s.kbdTail
        · rw [if_pos hfull]
          exact (if_pos hfull).symm
        · rw [if_neg hfull]
          exact (if_neg hfull).symm
  allowed := by
    intro s event hs
    have hknows := hs.knows
    unfold Knows at hknows
    cases event with
    | conin => exact trivial
    | main serial =>
        simp only [op]
        cases hpc : s.pc with
        | storeTail c tail =>
            simp only [hpc] at hknows
            exact hknows.2
        | _ => exact trivial
    | key key => exact trivial

theorem start_represents : Ring.Represents next16 16 (ring start) [] :=
  Ring.represents_empty (period_next16 (i := 0#8) (by decide)) (by decide) rfl

end CpnosKbd

/-! ### The keyboard of the BIOS -/

namespace BiosKbd

open Console.Keyboard (State)

def ring (s : State) : Ring Byte Byte := ⟨s.kbbuf, s.kbhead, s.kbtail⟩

/-- A key is taken when `kbd_dequeue` stores the tail. -/
def op (s : State) : State.Event → Ring.Op Byte
  | .key key => .push key
  | .main _ =>
      match s.pc with
      | .storeTail raw _ => .pop raw
      | _ => .skip
  | .conin _ => .skip

/-- What `bios_conin` and `kbd_dequeue` know at each place. -/
def Knows (s : State) : Prop :=
  match s.pc with
  | .pollHead _ tail => tail = s.kbtail
  | .loadIndex => s.kbhead ≠ s.kbtail
  | .loadByte index => index = s.kbtail ∧ s.kbhead ≠ s.kbtail
  | .loadTail raw => s.kbhead ≠ s.kbtail ∧ raw = s.kbbuf s.kbtail
  | .storeTail raw tail =>
      tail = next16 s.kbtail ∧ s.kbhead ≠ s.kbtail ∧ raw = s.kbbuf s.kbtail
  | _ => True

variable {s : State}

theorem knows_isrPioKbd (hs : Knows s) (key : Byte) : Knows (s.isrPioKbd key) := by
  simp only [State.isrPioKbd]
  by_cases hroom : Console.Keyboard.next s.kbhead ≠ s.kbtail
  · rw [if_pos hroom]
    have hslot : s.kbhead ≠ s.kbtail →
        Function.update s.kbbuf s.kbhead key s.kbtail = s.kbbuf s.kbtail :=
      fun hne => Function.update_of_ne (Ne.symm hne) key s.kbbuf
    unfold Knows at hs ⊢
    cases hpc : s.pc with
    | pollHead con tail =>
        simp only [hpc] at hs ⊢
        exact hs
    | loadIndex => exact hroom
    | loadByte index =>
        simp only [hpc] at hs ⊢
        exact ⟨hs.1, hroom⟩
    | loadTail raw =>
        simp only [hpc] at hs ⊢
        exact ⟨hroom, hs.2.trans (hslot hs.1).symm⟩
    | storeTail raw tail =>
        simp only [hpc] at hs ⊢
        exact ⟨hs.1, hroom, hs.2.2.trans (hslot hs.2.1).symm⟩
    | _ => exact trivial
  · rw [if_neg hroom]
    exact hs

theorem knows_pollFrom (con : Byte) :
    Knows { s with pc := Console.Keyboard.State.pollFrom con } := by
  unfold Console.Keyboard.State.pollFrom
  split
  · exact trivial
  · exact trivial

theorem knows_main (inconv : Byte → Byte) (hs : Knows s) (serial : Bool) :
    Knows (s.main inconv serial) := by
  unfold Knows at hs
  unfold State.main
  cases hpc : s.pc with
  | idle =>
      unfold Knows
      simp only [hpc]
  | pollTail con => exact rfl
  | pollHead con tail =>
      simp only [hpc] at hs ⊢
      by_cases hempty : tail ≠ s.kbhead
      · rw [if_pos hempty]
        exact fun heq => hempty (hs.trans heq.symm)
      · rw [if_neg hempty]
        split
        · exact trivial
        · exact trivial
  | pollSerial con =>
      simp only
      split
      · exact trivial
      · exact trivial
  | halt con => exact knows_pollFrom con
  | loadIndex =>
      simp only [hpc] at hs ⊢
      exact ⟨rfl, hs⟩
  | loadByte index =>
      simp only [hpc] at hs ⊢
      exact ⟨hs.2, congrArg s.kbbuf hs.1⟩
  | loadTail raw =>
      simp only [hpc] at hs ⊢
      exact ⟨rfl, hs⟩
  | storeTail raw tail => exact trivial
  | statTail raw => exact trivial
  | statHead raw tail => exact trivial
  | storeStat raw stat => exact trivial

/-- The steps are operations on the ring. -/
theorem drives (inconv : Byte → Byte) : Ring.Drives next16 (State.step inconv) ring op Knows where
  keeps := by
    intro s event hs
    cases event with
    | conin con =>
        simp only [State.step]
        split
        · exact knows_pollFrom con
        · exact hs
    | main serial => exact knows_main inconv hs serial
    | key key => exact knows_isrPioKbd hs key
  moves := by
    intro s event hs
    cases event with
    | conin con =>
        simp only [State.step]
        split
        · rfl
        · rfl
    | main serial =>
        unfold Knows at hs
        simp only [State.step, State.main, op]
        cases hpc : s.pc with
        | storeTail raw tail =>
            simp only [hpc] at hs ⊢
            rw [hs.1]
            rfl
        | _ => rfl
    | key key =>
        simp only [State.step, State.isrPioKbd, op, Ring.step, Ring.push]
        by_cases hroom : Console.Keyboard.next s.kbhead ≠ s.kbtail
        · rw [if_pos hroom]
          exact (if_neg hroom).symm
        · rw [if_neg hroom]
          exact (if_pos (not_not.mp hroom)).symm
  allowed := by
    intro s event hs
    unfold Knows at hs
    cases event with
    | conin con => exact trivial
    | main serial =>
        simp only [op]
        cases hpc : s.pc with
        | storeTail raw tail =>
            simp only [hpc] at hs
            exact hs.2
        | _ => exact trivial
    | key key => exact trivial

theorem start_represents : Ring.Represents next16 16 (ring State.start) [] :=
  Ring.represents_empty (period_next16 (i := 0#8) (by decide)) (by decide) rfl

end BiosKbd

/-- **The rings lose nothing and repeat nothing**, whatever comes between the accesses of
their consumers: bytes are popped in the order in which they were accepted, and one that
arrives is dropped only where 255, or 15, that were accepted have not been popped. -/
theorem interrupt_rings_lose_nothing :
    (∀ pioRxBuf, Ring.LosesNothing next256 255 PioRx.step PioRx.ring PioRx.op
      (PioRx.start pioRxBuf)) ∧
    Ring.LosesNothing next16 15 CpnosKbd.step CpnosKbd.ring CpnosKbd.op CpnosKbd.start ∧
    ∀ inconv, Ring.LosesNothing next16 15 (Console.Keyboard.State.step inconv) BiosKbd.ring
      BiosKbd.op Console.Keyboard.State.start := by
  refine ⟨fun pioRxBuf => ?_, ?_, fun inconv => ?_⟩
  · exact PioRx.drives.losesNothing trivial (PioRx.start_represents pioRxBuf)
  · exact CpnosKbd.drives.losesNothing ⟨by decide, trivial⟩ CpnosKbd.start_represents
  · exact (BiosKbd.drives inconv).losesNothing trivial BiosKbd.start_represents

end Interrupts
end Rc700
