import Mathlib.Logic.Function.Basic
import Rc700.Library.Run
import Rc700.Library.Word

/-!
# Console input

The keyboard interrupt appends to a ring of 16 places and sets `kbstat`; `bios_conin`
takes the oldest key with `kbd_dequeue`, which then sets `kbstat` from a comparison of
the indices.  The status byte is what `bios_const` looks at.

The work area is volatile: each mention of a field in `bios_conin` and `kbd_dequeue`
is an access of its own, and the keyboard interrupt may come between any two of them.
The place of the main line, with the values it holds in registers, is a `Pc`.

A key that arrives between the comparison and the store of its outcome is in the ring
while `kbstat` says that there is none.
-/

namespace Rc700
namespace Console

open Library

namespace Keyboard

/-- The place of `bios_conin`; `con` is the console field of the I/O byte. -/
inductive Pc
  | idle
  -- the loop of `bios_conin`
  | pollTail (con : Byte)
  | pollHead (con tail : Byte)
  | pollSerial (con : Byte)
  | halt (con : Byte)
  -- `kbd_dequeue`
  | loadIndex
  | loadByte (index : Byte)
  | loadTail (raw : Byte)
  | storeTail (raw tail : Byte)
  | statTail (raw : Byte)
  | statHead (raw tail : Byte)
  | storeStat (raw stat : Byte)
  deriving DecidableEq, Repr

structure State where
  kbbuf : Byte → Byte
  kbhead : Byte
  kbtail : Byte
  kbstat : Byte
  pc : Pc
  /-- The keys that `bios_conin` returned, newest first. -/
  returned : List Byte

/-- `IOB_CRT`: the keyboard only. -/
def crt : Byte := 1#8

/-- The index after `i`: `(i + 1) & KBMASK`. -/
def next (i : Byte) : Byte := (i + 1#8) &&& 15#8

namespace State

/-- `isr_pio_kbd` -/
def isrPioKbd (key : Byte) (s : State) : State :=
  let newHead := next s.kbhead
  if newHead ≠ s.kbtail then
    { s with
      kbbuf := Function.update s.kbbuf s.kbhead key
      kbhead := newHead
      kbstat := 0xFF#8 }
  else s

/-- The loop of `bios_conin` starts with the keyboard where the console has one, and
goes on with the serial line where it has that. -/
def pollFrom (con : Byte) : Pc :=
  if con &&& 1#8 ≠ 0#8 then .pollTail con else .pollSerial con

/-- The next access of `bios_conin`; `inconv` is the conversion table, `serial` says
whether the serial ring holds a byte. -/
def main (inconv : Byte → Byte) (serial : Bool) (s : State) : State :=
  match s.pc with
  | .idle => s
  | .pollTail con => { s with pc := .pollHead con s.kbtail }
  | .pollHead con tail =>
      { s with
        pc := if tail ≠ s.kbhead then .loadIndex
          else if con ≠ crt then .pollSerial con
          else .halt con }
  -- `serial_conin` returns a byte of the serial line
  | .pollSerial con => { s with pc := if serial then .idle else .halt con }
  | .halt con => { s with pc := pollFrom con }
  | .loadIndex => { s with pc := .loadByte s.kbtail }
  | .loadByte index => { s with pc := .loadTail (s.kbbuf index) }
  | .loadTail raw => { s with pc := .storeTail raw (next s.kbtail) }
  | .storeTail raw tail => { s with kbtail := tail, pc := .statTail raw }
  | .statTail raw => { s with pc := .statHead raw s.kbtail }
  | .statHead raw tail =>
      { s with pc := .storeStat raw (if tail ≠ s.kbhead then 0xFF#8 else 0x00#8) }
  | .storeStat raw stat =>
      { s with kbstat := stat, returned := inconv raw :: s.returned, pc := .idle }

/-- `bios_const` -/
def biosConst (con : Byte) (serial : Bool) (s : State) : Byte :=
  if con &&& 1#8 ≠ 0#8 ∧ s.kbstat ≠ 0#8 then 0xFF#8
  else if con ≠ crt ∧ serial then 0xFF#8
  else 0x00#8

/-- Events: `bios_conin` is called or goes on, or a key is pressed. -/
inductive Event
  | conin (con : Byte)
  | main (serial : Bool)
  | key (key : Byte)
  deriving DecidableEq, Repr

def step (inconv : Byte → Byte) (s : State) : Event → State
  | .conin con => if s.pc = .idle then { s with pc := pollFrom con } else s
  | .main serial => s.main inconv serial
  | .key key => s.isrPioKbd key

/-- A sequence of events. -/
def run (inconv : Byte → Byte) (s : State) (events : List Event) : State :=
  events.foldl (step inconv) s

/-- The work area after a boot. -/
def start : State where
  kbbuf := fun _ => 0#8
  kbhead := 0#8
  kbtail := 0#8
  kbstat := 0#8
  pc := .idle
  returned := []

/-! ### The status byte -/

/-- No key arrives between the comparison that finds the ring empty and the store of
its outcome. -/
def KeepsStatus (s : State) : Event → Prop
  | .key _ => ∀ raw, s.pc ≠ .storeStat raw 0x00#8
  | _ => True

instance KeepsStatus.decidable (s : State) : ∀ event : Event, Decidable (KeepsStatus s event)
  | .conin _ => isTrue trivial
  | .main _ => isTrue trivial
  | .key _ =>
      match h : s.pc with
      | .storeStat raw stat =>
          decidable_of_iff (stat ≠ 0x00#8)
            ⟨fun hne _ heq => hne (Pc.storeStat.inj (h.symm.trans heq)).2,
              fun hall heq => hall raw (heq ▸ h)⟩
      | .idle | .pollTail _ | .pollHead _ _ | .pollSerial _ | .halt _ | .loadIndex
      | .loadByte _ | .loadTail _ | .storeTail _ _ | .statTail _ | .statHead _ _ =>
          isTrue fun _ heq => Pc.noConfusion (h.symm.trans heq)

/-- The ring holds a key. -/
def HoldsKey (s : State) : Prop := s.kbhead ≠ s.kbtail

/-- What is known of the status byte at each place. -/
def Truthful (s : State) : Prop :=
  match s.pc with
  | .statTail _ => True
  | .statHead _ tail => tail = s.kbtail
  | .storeStat _ stat => stat ≠ 0#8 ↔ s.HoldsKey
  | _ => s.kbstat ≠ 0#8 ↔ s.HoldsKey

variable {inconv : Byte → Byte} {s : State}

theorem Truthful.isrPioKbd (hs : Truthful s) (key : Byte)
    (hkeeps : KeepsStatus s (.key key)) : Truthful (s.isrPioKbd key) := by
  simp only [State.isrPioKbd]
  by_cases hroom : next s.kbhead ≠ s.kbtail
  · rw [if_pos hroom]
    unfold Truthful at hs ⊢
    -- the key is in the ring, and the status byte says so
    have hset : (0xFF#8 ≠ 0#8) ↔ next s.kbhead ≠ s.kbtail := iff_of_true (by decide) hroom
    cases hat : s.pc with
    | statTail raw => exact trivial
    | statHead raw tail =>
        simp only [hat] at hs ⊢
        exact hs
    | storeStat raw stat =>
        refine iff_of_true ?_ hroom
        intro hzero
        exact hkeeps raw (hzero ▸ hat)
    | _ => exact hset
  · rw [if_neg hroom]
    exact hs

theorem Truthful.main (hs : Truthful s) (serial : Bool) : Truthful (s.main inconv serial) := by
  unfold Truthful at hs
  -- `statHead` chooses the value to be stored; the other steps keep what there is to show
  cases hat : s.pc with
  | storeTail raw tail => simp only [State.main, hat, Truthful]
  | statTail raw => simp only [State.main, hat, Truthful]
  | statHead raw tail =>
      simp only [hat] at hs
      simp only [State.main, hat, Truthful, HoldsKey, hs]
      by_cases hempty : s.kbtail = s.kbhead
      · rw [if_neg (not_not.mpr hempty)]
        exact iff_of_false (fun h => h rfl) (fun h => h hempty.symm)
      · rw [if_pos hempty]
        exact iff_of_true (by decide) (Ne.symm hempty)
  | storeStat raw stat =>
      simp only [hat] at hs
      simp only [State.main, hat, Truthful]
      exact hs
  | idle =>
      simp only [hat] at hs
      simp only [State.main, hat, Truthful]
      exact hs
  | pollTail | loadIndex | loadByte | loadTail =>
      simp only [hat] at hs
      simp only [State.main, hat, Truthful]
      exact hs
  | pollHead con tail =>
      simp only [hat] at hs
      simp only [State.main, hat, Truthful]
      split_ifs <;> exact hs
  | pollSerial con =>
      simp only [hat] at hs
      simp only [State.main, hat, Truthful]
      split_ifs <;> exact hs
  | halt con =>
      simp only [hat] at hs
      simp only [State.main, hat, Truthful, pollFrom]
      split_ifs <;> exact hs

theorem Truthful.step (hs : Truthful s) {event : Event} (hkeeps : KeepsStatus s event) :
    Truthful (State.step inconv s event) := by
  cases event with
  | conin con =>
      simp only [State.step]
      by_cases hidle : s.pc = .idle
      · rw [if_pos hidle]
        unfold Truthful at hs ⊢
        simp only [hidle] at hs
        simp only [pollFrom]
        split_ifs <;> exact hs
      · rw [if_neg hidle]
        exact hs
  | main serial => exact hs.main serial
  | key key => exact hs.isrPioKbd key hkeeps

theorem start_truthful : Truthful start := by
  show (0#8 ≠ 0#8) ↔ (0#8 ≠ 0#8)
  exact Iff.rfl

/-! ### Without waiting -/

/-- `bios_conin` in CRT mode, with nothing in between. -/
def undisturbed : List Event := .conin crt :: List.replicate 9 (.main false)

/-- It returns the oldest key if there is one. -/
theorem undisturbed_returns (hidle : s.pc = .idle) (hkey : s.HoldsKey) :
    (run inconv s undisturbed).pc = .idle ∧
      (run inconv s undisturbed).returned = inconv (s.kbbuf s.kbtail) :: s.returned := by
  have hpoll : pollFrom crt = .pollTail crt := rfl
  have hne : s.kbtail ≠ s.kbhead := Ne.symm hkey
  simp only [run, undisturbed, List.replicate, List.foldl_cons, List.foldl_nil, State.step,
    if_pos hidle, hpoll, State.main, if_pos hne]
  exact ⟨trivial, trivial⟩

/-- It waits if there is none. -/
theorem undisturbed_waits (hidle : s.pc = .idle) (hempty : ¬ s.HoldsKey) :
    (run inconv s undisturbed).pc ≠ .idle := by
  have hpoll : pollFrom crt = .pollTail crt := rfl
  have heq : s.kbtail = s.kbhead := (not_not.mp hempty).symm
  simp only [run, undisturbed, List.replicate, List.foldl_cons, List.foldl_nil, State.step,
    if_pos hidle, hpoll, State.main, heq, ne_eq, not_true, if_false]
  exact Pc.noConfusion

/-- **Keyboard status never lies** in a run without a key between a comparison that
finds the ring empty and the store of its outcome: where no console input is in
progress `kbstat` is set if and only if the ring holds a key, and `bios_const` in CRT
mode reports a character if and only if `bios_conin` returns one without waiting. -/
theorem kbstat_truthful (inconv : Byte → Byte) {events : List Event}
    (hrun : EveryStep (step inconv) KeepsStatus start events) :
    let s := run inconv start events
    s.pc = .idle →
      (s.kbstat ≠ 0#8 ↔ s.kbhead ≠ s.kbtail) ∧
      ∀ serial, s.biosConst crt serial = 0xFF#8 ↔
        (run inconv s undisturbed).pc = .idle ∧
          (run inconv s undisturbed).returned = inconv (s.kbbuf s.kbtail) :: s.returned := by
  intro s hidle
  have hs : Truthful s := foldl_invariant (fun _ _ hkeeps hs => hs.step hkeeps) hrun start_truthful
  have hstat : s.kbstat ≠ 0#8 ↔ s.HoldsKey := by
    unfold Truthful at hs
    simpa only [hidle] using hs
  refine ⟨hstat, ?_⟩
  intro serial
  have hconst : s.biosConst crt serial = 0xFF#8 ↔ s.kbstat ≠ 0#8 := by
    by_cases hzero : s.kbstat = 0#8
    · simp [biosConst, crt, hzero]
    · simp [biosConst, crt, hzero]
  rw [hconst, hstat]
  constructor
  · exact undisturbed_returns hidle
  · intro hreturns
    by_contra hempty
    exact undisturbed_waits hidle hempty hreturns.1

/-- Two keys are pressed and one is taken, the second between its accesses. -/
def twoKeys : List Event :=
  .key 0x41#8 :: .conin crt :: List.replicate 4 (.main false) ++
    .key 0x42#8 :: List.replicate 5 (.main false)

theorem kbstat_truthful_twoKeys :
    EveryStep (step id) KeepsStatus start twoKeys ∧ (run id start twoKeys).pc = .idle ∧
      ((run id start twoKeys).kbstat ≠ 0#8 ↔
        (run id start twoKeys).kbhead ≠ (run id start twoKeys).kbtail) := by
  have hrun : EveryStep (step id) KeepsStatus start twoKeys := by decide
  have hidle : (run id start twoKeys).pc = .idle := by decide
  exact ⟨hrun, hidle, (kbstat_truthful id hrun hidle).1⟩

/-- The second key arrives before the outcome of the comparison is stored. -/
def keyUnnoticed : List Event :=
  .key 0x41#8 :: .conin crt :: List.replicate 8 (.main false) ++ [.key 0x42#8, .main false]

theorem kbstat_misses_key :
    ¬ ∀ (inconv : Byte → Byte) (events : List Event),
      let s := run inconv start events
      s.pc = .idle → (s.kbstat ≠ 0#8 ↔ s.kbhead ≠ s.kbtail) := by
  intro hclaim
  have hmissed := hclaim id keyUnnoticed (by decide)
  revert hmissed
  decide

end State

end Keyboard

end Console
end Rc700
