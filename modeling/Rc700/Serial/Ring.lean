import Rc700.Library.Fifo
import Rc700.Serial.FlowControl

/-!
# The receive ring

The ring is a bounded queue of 255 bytes: the receive interrupt appends, the reader
takes when it stores the tail, and the special-condition interrupt flushes.  The
reader holds what it knows of the tail in registers between its accesses
(`Pc.Holds`); a flush in between takes the ground from under it, and the tail it
stores then makes the flushed ring appear full of old bytes.
-/

namespace Rc700
namespace Serial

open Library

/-- The byte that is being returned. -/
def Pc.inFlight : Pc → List Byte
  | .compareHead _ ch => [ch]
  | .selectRts ch => [ch]
  | .valueRts ch => [ch]
  | _ => []

/-- The reader relies on the tail it has loaded, until it stores the new one. -/
def Pc.Holds : Pc → Bool
  | .waitHead _ tail => tail != 0#8
  | .loadTail _ => true
  | .loadIndex _ _ => true
  | .loadByte _ _ _ => true
  | .storeTail _ _ _ => true
  | _ => false

/-- Places where the main line has no business with the ring. -/
def Pc.Away : Pc → Bool
  | .waitHead _ _ => false
  | .loadTail _ => false
  | .loadIndex _ _ => false
  | .loadByte _ _ _ => false
  | .storeTail _ _ _ => false
  | .compareHead _ _ => false
  | .selectRts _ => false
  | .valueRts _ => false
  | _ => true

namespace Channel

/-- The bytes in the ring, oldest first. -/
def contents (s : Channel) : List Byte :=
  (List.range (s.rxhead - s.rxtail).toNat).map (fun i => s.rxbuf (s.rxtail + BitVec.ofNat 8 i))

/-- No flush while the reader relies on the tail. -/
def KeepsRing (s : Channel) (event : Event) : Prop :=
  event.IsSpec = true → s.pc.Holds = false

instance KeepsRing.decidable (s : Channel) (event : Event) : Decidable (KeepsRing s event) :=
  inferInstanceAs (Decidable (_ → _))

/-- What the reader knows at each place. -/
def Knows (s : Channel) : Prop :=
  match s.pc with
  | .waitHead _ tail => tail = s.rxtail
  | .loadTail _ => s.rxtail ≠ s.rxhead
  | .loadIndex _ newTail => newTail = s.rxtail + 1#8 ∧ s.rxtail ≠ s.rxhead
  | .loadByte _ newTail index =>
      newTail = s.rxtail + 1#8 ∧ index = s.rxtail ∧ s.rxtail ≠ s.rxhead
  | .storeTail _ newTail ch =>
      newTail = s.rxtail + 1#8 ∧ ch = s.rxbuf s.rxtail ∧ s.rxtail ≠ s.rxhead
  | _ => True

/-- The ring represents a queue. -/
structure Represents (s : Channel) (f : Fifo Byte) : Prop where
  queue : s.contents = f.queue
  taken : s.returned.reverse ++ s.pc.inFlight = f.taken
  knows : Knows s

/-- What an event does to the queue. -/
def opOf (s : Channel) : Event → Fifo.Op Byte
  | .rx ch => if s.ie then .receive ch else .skip
  | .spec _ => if s.ie then .flush else .skip
  | .main _ =>
      match s.pc with
      | .storeTail _ _ _ => .take
      | _ => .skip
  | _ => .skip

variable {config : Config} {s : Channel} {val : Byte} {f : Fifo Byte}

/-! ### The contents -/

theorem contents_length (s : Channel) : s.contents.length = (s.rxhead - s.rxtail).toNat := by
  simp [contents]

theorem contents_congr {s' : Channel} (hhead : s'.rxhead = s.rxhead)
    (htail : s'.rxtail = s.rxtail) (hbuf : s'.rxbuf = s.rxbuf) : s'.contents = s.contents := by
  unfold contents
  rw [hhead, htail, hbuf]

/-- Taking the oldest byte. -/
theorem contents_cons (hnotEmpty : s.rxtail ≠ s.rxhead) :
    s.contents = s.rxbuf s.rxtail :: ({ s with rxtail := s.rxtail + 1#8 } : Channel).contents := by
  have hsub : (s.rxhead - (s.rxtail + 1#8)).toNat + 1 = (s.rxhead - s.rxtail).toNat := by
    have hne : s.rxtail.toNat ≠ s.rxhead.toNat := fun h => hnotEmpty (BitVec.eq_of_toNat_eq h)
    bv_omega
  unfold contents
  rw [← hsub, List.range_succ_eq_map, List.map_cons, List.map_map]
  congr 1
  · simp
  · apply List.map_congr_left
    intro i _
    show s.rxbuf (s.rxtail + BitVec.ofNat 8 (i + 1)) = s.rxbuf (s.rxtail + 1#8 + BitVec.ofNat 8 i)
    congr 1
    rw [BitVec.add_assoc, BitVec.ofNat_add, BitVec.add_comm (BitVec.ofNat 8 i)]

/-- Appending a byte. -/
theorem contents_push (hroom : s.rxhead + 1#8 ≠ s.rxtail) (ch : Byte) :
    ({ s with rxbuf := Function.update s.rxbuf s.rxhead ch, rxhead := s.rxhead + 1#8 } :
      Channel).contents = s.contents ++ [ch] := by
  have hsub : (s.rxhead + 1#8 - s.rxtail).toNat = (s.rxhead - s.rxtail).toNat + 1 := by
    have hne : (s.rxhead + 1#8).toNat ≠ s.rxtail.toNat := fun h => hroom (BitVec.eq_of_toNat_eq h)
    bv_omega
  have hhead : s.rxtail + BitVec.ofNat 8 (s.rxhead - s.rxtail).toNat = s.rxhead := by
    rw [BitVec.ofNat_toNat, BitVec.setWidth_eq, BitVec.add_comm, BitVec.sub_add_cancel]
  unfold contents
  simp only [hsub]
  rw [List.range_succ, List.map_append, List.map_singleton, hhead, Function.update_self]
  congr 1
  apply List.map_congr_left
  intro i hi
  apply Function.update_of_ne
  intro hslot
  -- a slot that is in use is not the next to be written
  have hlt := List.mem_range.mp hi
  have hlt' := (s.rxhead - s.rxtail).isLt
  have heq : BitVec.ofNat 8 i = s.rxhead - s.rxtail := by
    rw [← hslot, BitVec.add_comm, BitVec.add_sub_cancel]
  have := congrArg BitVec.toNat heq
  rw [BitVec.toNat_ofNat, Nat.mod_eq_of_lt (by omega)] at this
  omega

/-- A full ring holds 255 bytes. -/
theorem contents_full (hfull : s.rxhead + 1#8 = s.rxtail) : s.contents.length = 255 := by
  rw [contents_length, ← hfull]
  bv_omega

theorem contents_room (hroom : s.rxhead + 1#8 ≠ s.rxtail) : s.contents.length ≠ 255 := by
  rw [contents_length]
  have hne : (s.rxhead + 1#8).toNat ≠ s.rxtail.toNat := fun h => hroom (BitVec.eq_of_toNat_eq h)
  bv_omega

/-! ### Interrupt handlers -/

/-- A handler that leaves the ring and the readers alone. -/
theorem Represents.same {s' : Channel} (hs : Represents s f) (hpc : s'.pc = s.pc)
    (hreturned : s'.returned = s.returned) (hhead : s'.rxhead = s.rxhead)
    (htail : s'.rxtail = s.rxtail) (hbuf : s'.rxbuf = s.rxbuf) : Represents s' f where
  queue := (contents_congr hhead htail hbuf).trans hs.queue
  taken := by rw [hreturned, hpc, hs.taken]
  knows := by
    unfold Knows
    rw [hpc, hhead, htail, hbuf]
    exact hs.knows

/-- An access to the control port changes nothing else. -/
theorem out_frame (s : Channel) (target : Target) (val : Byte) :
    (s.out target val).pc = s.pc ∧ (s.out target val).returned = s.returned ∧
      (s.out target val).rxhead = s.rxhead ∧ (s.out target val).rxtail = s.rxtail ∧
      (s.out target val).rxbuf = s.rxbuf ∧ (s.out target val).received = s.received := by
  unfold out
  split <;> exact ⟨rfl, rfl, rfl, rfl, rfl, rfl⟩

theorem Represents.out (hs : Represents s f) (target : Target) (val : Byte) :
    Represents (s.out target val) f := by
  obtain ⟨hpc, hreturned, hhead, htail, hbuf, _⟩ := out_frame s target val
  exact hs.same hpc hreturned hhead htail hbuf

theorem Represents.deassertRts (hs : Represents s f) (config : Config) :
    Represents (s.deassertRts config) f := by
  have hport := (hs.out .select (BitVec.ofNat 8 5)).out (.register 5) config.rtsOff
  exact hport.same rfl rfl rfl rfl rfl

/-- What the reader knows stays true when a byte is appended. -/
theorem knows_push (hroom : s.rxhead + 1#8 ≠ s.rxtail) (ch : Byte) (hknows : Knows s) :
    Knows { s with rxbuf := Function.update s.rxbuf s.rxhead ch, rxhead := s.rxhead + 1#8 } := by
  have hslot : s.rxtail ≠ s.rxhead →
      Function.update s.rxbuf s.rxhead ch s.rxtail = s.rxbuf s.rxtail := fun hne =>
    Function.update_of_ne hne ch s.rxbuf
  unfold Knows at hknows ⊢
  cases hpc : s.pc with
  | waitHead reader tail =>
      simp only [hpc] at hknows ⊢
      exact hknows
  | loadTail reader => exact Ne.symm hroom
  | loadIndex reader newTail =>
      simp only [hpc] at hknows ⊢
      exact ⟨hknows.1, Ne.symm hroom⟩
  | loadByte reader newTail index =>
      simp only [hpc] at hknows ⊢
      exact ⟨hknows.1, hknows.2.1, Ne.symm hroom⟩
  | storeTail reader newTail b =>
      simp only [hpc] at hknows ⊢
      exact ⟨hknows.1, hknows.2.1.trans (hslot hknows.2.2).symm, Ne.symm hroom⟩
  | _ => exact trivial

theorem Represents.isrRx (hs : Represents s f) (ch : Byte) :
    Represents (s.isrRx config ch) (f.step 255 (.receive ch)) := by
  have hs' : Represents { s with received := ch :: s.received } f := hs.same rfl rfl rfl rfl rfl
  simp only [Channel.isrRx, Fifo.step, ← hs.queue]
  by_cases hfull : s.rxhead + 1#8 = s.rxtail
  · rw [if_pos hfull, if_pos (contents_full hfull)]
    exact hs'.deassertRts config
  · rw [if_neg hfull, if_neg (contents_room hfull)]
    have hpushed : Represents
        { s with
          received := ch :: s.received
          rxbuf := Function.update s.rxbuf s.rxhead ch
          rxhead := s.rxhead + 1#8 }
        { f with queue := s.contents ++ [ch] } :=
      { queue := contents_push (s := { s with received := ch :: s.received }) hfull ch
        taken := hs.taken
        knows := knows_push (s := { s with received := ch :: s.received }) hfull ch hs.knows }
    split
    · exact hpushed
    · exact hpushed.deassertRts config

theorem Represents.isrSpec (hs : Represents s f) (hholds : s.pc.Holds = false) :
    Represents (s.isrSpec val) (f.step 255 .flush) := by
  have hpc : (s.isrSpec val).pc = s.pc := isrSpec_pc s
  have hport : Represents
      (Channel.out .command 0x30#8 { (s.out .select 0x01#8).inp with rr1 := val }) f := by
    apply Represents.out
    exact (hs.out .select 0x01#8).same rfl rfl rfl rfl rfl
  refine { queue := ?_, taken := hport.taken, knows := ?_ }
  · have hempty : (s.isrSpec val).contents.length = 0 := by
      rw [contents_length]
      simp [Channel.isrSpec]
    exact List.eq_nil_of_length_eq_zero hempty
  · unfold Knows
    rw [hpc]
    -- a reader that relies on the tail is excluded, except at the tail the flush stores
    cases hat : s.pc with
    | waitHead reader tail =>
        rw [hat] at hholds
        show tail = 0#8
        simpa [Pc.Holds] using hholds
    | loadTail | loadIndex | loadByte | storeTail =>
        rw [hat] at hholds
        exact Bool.noConfusion hholds
    | _ => exact trivial

/-! ### The main line -/

theorem away_inFlight {pc : Pc} (haway : pc.Away = true) : pc.inFlight = [] := by
  cases pc with
  | compareHead | selectRts | valueRts => exact Bool.noConfusion haway
  | _ => rfl

theorem away_knows (haway : s.pc.Away = true) : Knows s := by
  unfold Knows
  cases hat : s.pc with
  | waitHead | loadTail | loadIndex | loadByte | storeTail =>
      rw [hat] at haway
      exact Bool.noConfusion haway
  | _ => exact trivial

theorem ite_away {c : Prop} [Decidable c] {p q : Pc} (hp : p.Away = true) (hq : q.Away = true) :
    (if c then p else q).Away = true := by
  split
  · exact hp
  · exact hq

theorem lineStage_next_away (stage : LineStage) : stage.next.Away = true := by
  cases stage with
  | release line => exact ite_away rfl rfl
  | _ => rfl

/-- A step between places that have no business with the ring. -/
theorem Represents.away {s' : Channel} (hs : Represents s f) (haway : s.pc.Away = true)
    (haway' : s'.pc.Away = true) (hreturned : s'.returned = s.returned)
    (hhead : s'.rxhead = s.rxhead) (htail : s'.rxtail = s.rxtail) (hbuf : s'.rxbuf = s.rxbuf) :
    Represents s' f where
  queue := (contents_congr hhead htail hbuf).trans hs.queue
  taken := by rw [hreturned, away_inFlight haway', ← away_inFlight haway, hs.taken]
  knows := away_knows haway'

/-- A step of the main line that leaves the ring alone and returns nothing. -/
theorem Represents.goto {s' : Channel} (hs : Represents s f)
    (hreturned : s'.returned.reverse ++ s'.pc.inFlight = s.returned.reverse ++ s.pc.inFlight)
    (hhead : s'.rxhead = s.rxhead) (htail : s'.rxtail = s.rxtail) (hbuf : s'.rxbuf = s.rxbuf)
    (hknows : Knows s') : Represents s' f where
  queue := (contents_congr hhead htail hbuf).trans hs.queue
  taken := hreturned.trans hs.taken
  knows := hknows

/-- Storing the tail takes the oldest byte. -/
theorem Represents.take {s' : Channel} {newTail ch : Byte} (hs : Represents s f)
    (hknows : newTail = s.rxtail + 1#8 ∧ ch = s.rxbuf s.rxtail ∧ s.rxtail ≠ s.rxhead)
    (hreturned : s'.returned.reverse ++ s'.pc.inFlight =
      s.returned.reverse ++ s.pc.inFlight ++ [ch])
    (hhead : s'.rxhead = s.rxhead) (htail : s'.rxtail = newTail) (hbuf : s'.rxbuf = s.rxbuf)
    (hknows' : Knows s') : Represents s' (f.step 255 .take) := by
  obtain ⟨hnewTail, hch, hnotEmpty⟩ := hknows
  have hcons := contents_cons hnotEmpty
  have hrest : s'.contents = ({ s with rxtail := s.rxtail + 1#8 } : Channel).contents :=
    contents_congr hhead (htail.trans hnewTail) hbuf
  rw [← hrest, ← hch, hs.queue] at hcons
  simp only [Fifo.step, hcons]
  exact { queue := rfl, taken := by rw [hreturned, hs.taken], knows := hknows' }

theorem Represents.main (hs : Represents s f) :
    Represents (s.main config val) (f.step 255 (opOf s (.main val))) := by
  have hknows := hs.knows
  unfold Knows at hknows
  unfold opOf
  -- `storeTail` is the step that takes a byte from the queue; the others take none
  cases hat : s.pc with
  | storeTail reader newTail ch =>
      simp only [hat] at hknows
      have hinFlight : s.returned.reverse ++ s.pc.inFlight = s.returned.reverse := by
        rw [hat]
        exact List.append_nil _
      cases reader with
      | flow =>
          simp only [Channel.main, hat]
          refine hs.take hknows ?_ rfl rfl rfl trivial
          rw [hinFlight]
          rfl
      | plain =>
          simp only [Channel.main, hat]
          refine hs.take hknows ?_ rfl rfl rfl trivial
          rw [hinFlight, List.reverse_cons]
          exact List.append_nil _
  | waitTail reader =>
      simp only [Channel.main, hat]
      refine hs.goto ?_ rfl rfl rfl rfl
      rw [hat]
      rfl
  | waitHead reader tail =>
      simp only [hat] at hknows
      simp only [Channel.main, hat]
      by_cases hempty : tail = s.rxhead
      · rw [if_pos hempty]
        refine hs.goto ?_ rfl rfl rfl trivial
        rw [hat]
        rfl
      · rw [if_neg hempty]
        refine hs.goto ?_ rfl rfl rfl (hknows ▸ hempty)
        rw [hat]
        rfl
  | loadTail reader =>
      simp only [hat] at hknows
      simp only [Channel.main, hat]
      refine hs.goto ?_ rfl rfl rfl ⟨rfl, hknows⟩
      rw [hat]
      rfl
  | loadIndex reader newTail =>
      simp only [hat] at hknows
      simp only [Channel.main, hat]
      refine hs.goto ?_ rfl rfl rfl ⟨hknows.1, rfl, hknows.2⟩
      rw [hat]
      rfl
  | loadByte reader newTail index =>
      simp only [hat] at hknows
      simp only [Channel.main, hat]
      refine hs.goto ?_ rfl rfl rfl ⟨hknows.1, congrArg s.rxbuf hknows.2.1, hknows.2.2⟩
      rw [hat]
      rfl
  | compareHead newTail ch =>
      simp only [Channel.main, hat]
      by_cases hempty : newTail = s.rxhead
      · rw [if_pos hempty]
        refine hs.goto ?_ rfl rfl rfl trivial
        rw [hat]
        rfl
      · rw [if_neg hempty]
        refine hs.goto ?_ rfl rfl rfl trivial
        rw [hat]
        simp [Pc.inFlight]
  | selectRts ch =>
      -- the writes to WR5 have nothing to do with the ring
      simp only [Channel.main, hat]
      obtain ⟨_, hreturned, hhead, htail, hbuf, _⟩ := out_frame s .select 0x05#8
      refine hs.goto ?_ hhead htail hbuf trivial
      rw [hat, hreturned]
      rfl
  | valueRts ch =>
      simp only [Channel.main, hat]
      obtain ⟨_, _, hhead, htail, hbuf, _⟩ := out_frame s (.register 5) config.rtsOn
      refine hs.goto ?_ hhead htail hbuf trivial
      rw [hat]
      simp [Pc.inFlight]
  | idle =>
      simp only [Channel.main, hat]
      exact hs
  | pollTail | outDi | markBusy | outData | outEi | lineDi | readiDi | readiEi =>
      simp only [Channel.main, hat]
      exact hs.away (by rw [hat]; rfl) rfl rfl rfl rfl rfl
  | pollHead | waitReady | readRr1 | checkCts =>
      simp only [Channel.main, hat]
      exact hs.away (by rw [hat]; rfl) (ite_away rfl rfl) rfl rfl rfl rfl
  | lineEi stage =>
      simp only [Channel.main, hat]
      exact hs.away (by rw [hat]; rfl) (lineStage_next_away stage) rfl rfl rfl rfl
  | selectRr1 | lineSelect | readiSelect5 | readiSelect1 =>
      simp only [Channel.main, hat]
      obtain ⟨_, hreturned, hhead, htail, hbuf, _⟩ := out_frame s .select _
      exact hs.away (by rw [hat]; rfl) rfl hreturned hhead htail hbuf
  | lineValue | readiValue5 | readiValue1 =>
      simp only [Channel.main, hat]
      obtain ⟨_, hreturned, hhead, htail, hbuf, _⟩ := out_frame s (.register _) _
      exact hs.away (by rw [hat]; rfl) rfl hreturned hhead htail hbuf

/-! ### Steps and runs -/

theorem Represents.step (hs : Represents s f) {event : Event} (hkeeps : KeepsRing s event) :
    Represents (Channel.step config s event) (f.step 255 (opOf s event)) := by
  cases event with
  | call c =>
      simp only [Channel.step, opOf]
      by_cases hidle : s.pc = .idle
      · rw [if_pos hidle]
        refine hs.away ?_ ?_ rfl rfl rfl rfl
        · rw [hidle]
          rfl
        · cases c <;> rfl
      · rw [if_neg hidle]
        exact hs
  | main val => exact hs.main
  | rx ch =>
      simp only [Channel.step, opOf]
      by_cases hie : s.ie = true
      · rw [if_pos hie, if_pos hie]
        exact hs.isrRx ch
      · rw [if_neg hie, if_neg hie]
        exact hs
  | spec val =>
      simp only [Channel.step, opOf]
      by_cases hie : s.ie = true
      · rw [if_pos hie, if_pos hie]
        exact hs.isrSpec (hkeeps rfl)
      · rw [if_neg hie, if_neg hie]
        exact hs
  | tx =>
      simp only [Channel.step, opOf]
      split
      · exact (hs.out .command 0x28#8).same rfl rfl rfl rfl rfl
      · exact hs
  | ext val =>
      simp only [Channel.step, opOf]
      split
      · have hread : Represents { s.inp with rr0 := val } f := hs.same rfl rfl rfl rfl rfl
        exact hread.out .command 0x10#8
      · exact hs

theorem start_represents (config : Config) : Represents (start config) ⟨[], []⟩ where
  queue := by simp [contents, start]
  taken := rfl
  knows := trivial

/-- What the events of a run do to the queue. -/
def ops (config : Config) : Channel → List Event → List (Fifo.Op Byte)
  | _, [] => []
  | s, event :: events => opOf s event :: ops config (Channel.step config s event) events

theorem Represents.run (hs : Represents s f) {events : List Event}
    (hrun : EveryStep (Channel.step config) KeepsRing s events) :
    Represents (Channel.run config s events) ((ops config s events).foldl (Fifo.step 255) f) := by
  induction events generalizing s f with
  | nil => exact hs
  | cons event events ih =>
      obtain ⟨hkeeps, hrest⟩ := hrun
      exact ih (hs.step hkeeps) hrest

theorem deassertRts_received : (s.deassertRts config).received = s.received := by
  have hselect := (out_frame s .select (BitVec.ofNat 8 5)).2.2.2.2.2
  have hvalue := (out_frame (s.out .select (BitVec.ofNat 8 5)) (.register 5)
    config.rtsOff).2.2.2.2.2
  exact hvalue.trans hselect

theorem isrRx_received (ch : Byte) : (s.isrRx config ch).received = ch :: s.received := by
  simp only [Channel.isrRx]
  split
  · exact deassertRts_received
  · split
    · rfl
    · exact deassertRts_received

theorem main_received : (s.main config val).received = s.received := by
  have hout : ∀ target v, (s.out target v).received = s.received := fun target v =>
    (out_frame s target v).2.2.2.2.2
  unfold Channel.main
  split
  all_goals first
    | rfl
    | exact hout _ _
    | skip
  · split
    · rfl
    · rfl

theorem step_received (config : Config) (s : Channel) (event : Event) :
    (Channel.step config s event).received.reverse =
      s.received.reverse ++ Fifo.received [opOf s event] := by
  -- only a receive interrupt that is admitted receives anything
  cases event with
  | call c =>
      simp only [Channel.step, opOf, Fifo.received, List.append_nil]
      split <;> rfl
  | main val =>
      have hop : Fifo.received [opOf s (.main val)] = [] := by
        simp only [opOf]
        split <;> rfl
      rw [hop, List.append_nil]
      exact congrArg List.reverse main_received
  | rx ch =>
      simp only [Channel.step, opOf]
      split
      · rw [isrRx_received, List.reverse_cons]
        rfl
      · exact (List.append_nil _).symm
  | spec val =>
      simp only [Channel.step, opOf]
      split
      · have hselect := (out_frame s .select 0x01#8).2.2.2.2.2
        have hreset := (out_frame { (s.out .select 0x01#8).inp with rr1 := val } .command
          0x30#8).2.2.2.2.2
        show _ = s.received.reverse ++ []
        rw [List.append_nil]
        exact congrArg List.reverse (hreset.trans hselect)
      · exact (List.append_nil _).symm
  | tx =>
      simp only [Channel.step, opOf, Fifo.received, List.append_nil]
      split
      · exact congrArg List.reverse (out_frame s .command 0x28#8).2.2.2.2.2
      · rfl
  | ext val =>
      simp only [Channel.step, opOf, Fifo.received, List.append_nil]
      split
      · exact congrArg List.reverse
          (out_frame { s.inp with rr0 := val } .command 0x10#8).2.2.2.2.2
      · rfl

theorem run_received (config : Config) (s : Channel) (events : List Event) :
    (run config s events).received.reverse =
      s.received.reverse ++ Fifo.received (ops config s events) := by
  induction events generalizing s with
  | nil => exact (List.append_nil _).symm
  | cons event events ih =>
      have hcons : Fifo.received (ops config s (event :: events)) =
          Fifo.received [opOf s event] ++
            Fifo.received (ops config (Channel.step config s event) events) := by
        rw [ops]
        cases opOf s event <;> rfl
      have htail := ih (Channel.step config s event)
      rw [step_received, List.append_assoc, ← hcons] at htail
      exact htail

/-! ### The ring is a queue -/

/-- What was returned, what is being returned and what waits, oldest first. -/
def pending (s : Channel) : List Byte := s.returned.reverse ++ s.pc.inFlight ++ s.contents

/-- Where the bytes go in one step: a byte that arrives is appended, or dropped while
255 bytes wait; a flush drops what waits; nothing else is dropped. -/
def Accounts (s : Channel) (event : Event) (s' : Channel) : Prop :=
  match event with
  | .rx ch =>
      if s.ie then
        s'.pending = s.pending ++ [ch] ∨ (s.contents.length = 255 ∧ s'.pending = s.pending)
      else s'.pending = s.pending
  | .spec _ =>
      if s.ie then s'.pending = s.returned.reverse ++ s.pc.inFlight else s'.pending = s.pending
  | _ => s'.pending = s.pending

theorem Represents.pending (hs : Represents s f) : s.pending = f.taken ++ f.queue := by
  rw [Channel.pending, hs.taken, hs.queue]

theorem Represents.accounts (hs : Represents s f) {event : Event} (hkeeps : KeepsRing s event) :
    Accounts s event (Channel.step config s event) := by
  have hs' : Represents (Channel.step config s event) (f.step 255 (opOf s event)) :=
    hs.step hkeeps
  have hbefore := hs.pending
  have hafter := hs'.pending
  -- what is in the ring and in flight, before the event and after it
  cases event with
  | call | tx | ext => exact hafter.trans hbefore.symm
  | main val =>
      refine hafter.trans (Eq.trans ?_ hbefore.symm)
      simp only [opOf]
      split
      · simp only [Fifo.step]
        split
        · rfl
        · next hqueue => rw [hqueue, List.append_assoc, List.singleton_append]
      · rfl
  | rx ch =>
      simp only [Accounts, opOf] at hafter ⊢
      by_cases hie : s.ie = true
      · rw [if_pos hie] at hafter ⊢
        simp only [Fifo.step] at hafter
        split at hafter
        -- full: the byte is dropped
        · next hfull => exact .inr ⟨hs.queue ▸ hfull, hafter.trans hbefore.symm⟩
        · left
          rw [hafter, hbefore, List.append_assoc]
      · rw [if_neg hie] at hafter ⊢
        exact hafter.trans hbefore.symm
  | spec val =>
      simp only [Accounts, opOf] at hafter ⊢
      by_cases hie : s.ie = true
      · rw [if_pos hie] at hafter ⊢
        rw [hafter, hs.taken]
        exact List.append_nil _
      · rw [if_neg hie] at hafter ⊢
        exact hafter.trans hbefore.symm

/-- What is returned after a state is, in order, part of what was being returned or
waited there and of what was received since. -/
theorem Represents.returned (hs : Represents s f) {events : List Event}
    (hrun : EveryStep (Channel.step config) KeepsRing s events) :
    ∃ out new, (Channel.run config s events).returned.reverse ++
          (Channel.run config s events).pc.inFlight = s.returned.reverse ++ s.pc.inFlight ++ out ∧
      (Channel.run config s events).received.reverse = s.received.reverse ++ new ∧
      out.Sublist (s.contents ++ new) := by
  have hend := hs.run hrun
  obtain ⟨out, htaken, hsub⟩ := Fifo.taken_run 255 f (ops config s events)
  refine ⟨out, _, ?_, run_received config s events, ?_⟩
  · rw [hend.taken, htaken, hs.taken]
  · rw [hs.queue]
    exact (List.sublist_append_left _ _).trans hsub

/-- After a flush only bytes received since are added to what is returned. -/
theorem Represents.flushed (hs : Represents s f) (hie : s.ie = true)
    (hkeeps : KeepsRing s (.spec val)) {events : List Event}
    (hrun : EveryStep (Channel.step config) KeepsRing (Channel.step config s (.spec val)) events) :
    let final := Channel.run config (Channel.step config s (.spec val)) events
    ∃ out new, final.returned.reverse ++ final.pc.inFlight =
          s.returned.reverse ++ s.pc.inFlight ++ out ∧
      final.received.reverse = s.received.reverse ++ new ∧ out.Sublist new := by
  have hs' : Represents (Channel.step config s (.spec val)) (f.step 255 .flush) := by
    have hop : opOf s (.spec val) = .flush := if_pos hie
    exact hop ▸ hs.step hkeeps
  have hreceived' : (Channel.step config s (.spec val)).received.reverse = s.received.reverse := by
    rw [step_received, opOf, if_pos hie]
    exact List.append_nil _
  obtain ⟨out, new, hreturned, hreceived, hsub⟩ := hs'.returned hrun
  refine ⟨out, new, ?_, ?_, ?_⟩
  · rw [hreturned, hs'.taken, hs.taken]
    rfl
  · rw [hreceived, hreceived']
  · rw [hs'.queue] at hsub
    exact hsub

/-- **The receive ring is first in, first out** in a run that does not flush it while
a reader relies on the tail: what is returned is, in order and without repetition,
part of what was received; a byte is dropped only while 255 bytes wait or by a flush;
and after a flush only the byte that was being returned and bytes received since are
returned. -/
theorem ring_is_fifo (config : Config) {events : List Event}
    (hrun : EveryStep (step config) KeepsRing (start config) events) :
    let final := run config (start config) events
    final.returned.reverse.Sublist final.received.reverse ∧
      (∀ before event after, events = before ++ event :: after →
        let s := run config (start config) before
        Accounts s event (step config s event)) ∧
      (∀ before val after, events = before ++ .spec val :: after →
        let s := run config (start config) before
        s.ie = true → ∃ out new,
          final.returned.reverse ++ final.pc.inFlight =
              s.returned.reverse ++ s.pc.inFlight ++ out ∧
            final.received.reverse = s.received.reverse ++ new ∧ out.Sublist new) := by
  intro final
  refine ⟨?_, ?_, ?_⟩
  · obtain ⟨out, new, hreturned, hreceived, hsub⟩ := (start_represents config).returned hrun
    have hcontents : (start config).contents = [] := (start_represents config).queue
    rw [hcontents, List.nil_append] at hsub
    have hout : final.returned.reverse ++ final.pc.inFlight = out := hreturned
    have hnew : final.received.reverse = new := hreceived
    rw [hnew]
    exact (List.sublist_append_left _ _).trans (hout ▸ hsub)
  · intro before event after hevents s
    rw [hevents, EveryStep.append] at hrun
    exact ((start_represents config).run hrun.1).accounts hrun.2.1
  · intro before val after hevents s hie
    rw [hevents, EveryStep.append] at hrun
    obtain ⟨hbefore, hkeeps, hafter⟩ := hrun
    have hfinal : final = run config (Channel.step config s (.spec val)) after := by
      show List.foldl _ _ _ = List.foldl _ _ _
      rw [hevents, List.foldl_append, List.foldl_cons]
      rfl
    rw [hfinal]
    exact ((start_represents config).run hbefore).flushed hie hkeeps hafter

/-- Two bytes are received, one is read; the ring is flushed while it is being
returned, and a third byte is received and read. -/
def flushedLate : List Event :=
  .rx 0x41#8 :: .rx 0x42#8 :: .call (.read .flow) :: List.replicate 6 (.main 0#8) ++
    .spec 0x20#8 :: .main 0#8 :: .rx 0x43#8 :: .call (.read .plain) ::
      List.replicate 6 (.main 0#8)

theorem ring_is_fifo_flushedLate :
    EveryStep (step ⟨0x60#8, 0x1B#8⟩) KeepsRing (start ⟨0x60#8, 0x1B#8⟩) flushedLate ∧
      (run ⟨0x60#8, 0x1B#8⟩ (start ⟨0x60#8, 0x1B#8⟩) flushedLate).returned.reverse =
        [0x41#8, 0x43#8] ∧
      (run ⟨0x60#8, 0x1B#8⟩ (start ⟨0x60#8, 0x1B#8⟩) flushedLate).returned.reverse.Sublist
        (run ⟨0x60#8, 0x1B#8⟩ (start ⟨0x60#8, 0x1B#8⟩) flushedLate).received.reverse := by
  have hrun : EveryStep (step ⟨0x60#8, 0x1B#8⟩) KeepsRing (start ⟨0x60#8, 0x1B#8⟩)
      flushedLate := by
    decide
  exact ⟨hrun, by decide, (ring_is_fifo ⟨0x60#8, 0x1B#8⟩ hrun).1⟩

/-- A byte that was returned is returned again after a flush. -/
def flushedEarly : List Event :=
  .rx 0x41#8 :: .call (.read .plain) :: List.replicate 6 (.main 0#8) ++
    .call (.read .plain) :: .main 0#8 :: .spec 0x20#8 :: List.replicate 5 (.main 0#8)

theorem flush_repeats_byte :
    ¬ ∀ (config : Config) (events : List Event),
      (run config (start config) events).returned.reverse.Sublist
        (run config (start config) events).received.reverse := by
  intro hclaim
  have hrepeated := hclaim ⟨0x60#8, 0x1B#8⟩ flushedEarly
  revert hrepeated
  decide

end Channel

end Serial
end Rc700
