import Rc700.Serial.Transmitter

/-!
# Flow control

The receive interrupt lowers RTS when the ring is nearly full; a reader that empties
the ring raises it again.  If RTS is low and the ring is empty while no routine is in
progress nobody raises it, and the sender is stranded.

Between the store of the tail and the raising of RTS the ring may be empty with RTS
low: the reader is then still to find that out, or about to raise RTS
(`Pc.Draining`).  Two routines remove bytes without raising RTS: the
special-condition interrupt and the `UR1` reader.
-/

namespace Rc700
namespace Serial

open Library

/-- A reader that will raise RTS. -/
def Pc.Draining (head : Byte) : Pc → Prop
  | .compareHead newTail _ => newTail = head
  | .selectRts _ => True
  | .valueRts _ => True
  | _ => False

/-- Places of the line selector and of `readi`. -/
def Pc.Setup : Pc → Bool
  | .selectRr1 _ => true
  | .readRr1 _ => true
  | .lineDi _ => true
  | .lineSelect _ => true
  | .lineValue _ => true
  | .lineEi _ => true
  | .checkCts => true
  | .readiDi => true
  | .readiSelect5 => true
  | .readiValue5 => true
  | .readiSelect1 => true
  | .readiValue1 => true
  | .readiEi => true
  | _ => false

namespace Channel

/-- RTS is low. -/
def RtsLow (s : Channel) : Bool := !(s.wr 5).getLsbD 1

/-- The ring is empty. -/
def RingEmpty (s : Channel) : Prop := s.rxhead = s.rxtail

instance (s : Channel) : Decidable s.RingEmpty := inferInstanceAs (Decidable (_ = _))

/-- The `UR1` reader is about to take the last byte. -/
def DrainsPlain (s : Channel) : Bool :=
  match s.pc with
  | .storeTail .plain newTail _ => newTail == s.rxhead
  | _ => false

/-- Routines that read or write bytes. -/
def Event.Transfers : Event → Bool
  | .call (.linsel _) => false
  | .call .readi => false
  | _ => true

/-- A special condition of the receiver. -/
def Event.IsSpec : Event → Bool
  | .spec _ => true
  | _ => false

/-- While RTS is low the ring is neither flushed by a special condition nor emptied
by the `UR1` reader; and no handler uses the control port between a select and its
value. -/
def KeepsFlow (s : Channel) (event : Event) : Prop :=
  KeepsPairs s event ∧ event.Transfers = true ∧
    (s.RtsLow = true → event.IsSpec = false ∧ s.DrainsPlain = false)

/-- RTS is low only while the ring holds a byte, or a reader is about to raise it. -/
structure Flow (s : Channel) : Prop extends Addressed s where
  setup : s.pc.Setup = false
  flow : s.RtsLow = true → ¬ s.RingEmpty ∨ s.pc.Draining s.rxhead

variable {config : Config} {s : Channel} {val : Byte}

theorem rtsOn_table : ∀ n, n < 256 →
    (Config.rtsOn ⟨BitVec.ofNat 8 n, 0#8⟩).getLsbD 1 = true := by
  decide +kernel

theorem rtsOn_high (config : Config) : config.rtsOn.getLsbD 1 = true := by
  have hcfg := rtsOn_table config.cfg.toNat config.cfg.isLt
  rw [BitVec.ofNat_toNat, BitVec.setWidth_eq] at hcfg
  exact hcfg

theorem add_one_ne (b : Byte) : b ≠ b + 1#8 := by
  intro h
  have := congrArg BitVec.toNat h
  rw [BitVec.toNat_add] at this
  have hone : (1#8).toNat = 1 := rfl
  have hlt := b.isLt
  omega

/-! ### Interrupt handlers -/

theorem out_ring (s : Channel) (target : Target) (val : Byte) :
    (s.out target val).rxhead = s.rxhead ∧ (s.out target val).rxtail = s.rxtail := by
  unfold out
  split <;> exact ⟨rfl, rfl⟩

/-- After the receive interrupt the ring is not empty. -/
theorem isrRx_notEmpty (ch : Byte) : ¬ (s.isrRx config ch).RingEmpty := by
  have hdeassert : ∀ u : Channel, (u.deassertRts config).rxhead = u.rxhead ∧
      (u.deassertRts config).rxtail = u.rxtail := by
    intro u
    have hselect := out_ring u .select (BitVec.ofNat 8 5)
    have hvalue := out_ring (u.out .select (BitVec.ofNat 8 5)) (.register 5) config.rtsOff
    exact ⟨hvalue.1.trans hselect.1, hvalue.2.trans hselect.2⟩
  simp only [isrRx, RingEmpty]
  split
  · next hfull =>
    rw [(hdeassert _).1, (hdeassert _).2]
    show ¬ s.rxhead = s.rxtail
    rw [← hfull]
    exact add_one_ne s.rxhead
  · next hnotFull =>
    split
    · exact hnotFull
    · rw [(hdeassert _).1, (hdeassert _).2]
      exact hnotFull

/-- A handler that leaves the ring and `WR5` alone. -/
theorem Flow.handler {s' : Channel} (hs : Flow s) (haddressed : Addressed s')
    (hpc : s'.pc = s.pc) (hwr : s'.wr 5 = s.wr 5) (hhead : s'.rxhead = s.rxhead)
    (htail : s'.rxtail = s.rxtail) : Flow s' where
  toAddressed := haddressed
  setup := by rw [hpc, hs.setup]
  flow := by
    rw [RtsLow, RingEmpty, hpc, hwr, hhead, htail]
    exact hs.flow

/-! ### The main line -/

/-- An access outside the places that change the ring or `WR5`. -/
theorem Flow.goto {s' : Channel} (hs : Flow s) (haddressed : Addressed s')
    (hwr : s'.wr = s.wr) (hhead : s'.rxhead = s.rxhead) (htail : s'.rxtail = s.rxtail)
    (hsetup : s'.pc.Setup = false) (hplace : ¬ s.pc.Draining s.rxhead) : Flow s' where
  toAddressed := haddressed
  setup := hsetup
  flow := by
    intro hlow
    rw [RtsLow, hwr] at hlow
    rw [RingEmpty, hhead, htail]
    exact .inl ((hs.flow hlow).resolve_right hplace)

theorem ite_setup {c : Prop} [Decidable c] {p q : Pc} (hp : p.Setup = false)
    (hq : q.Setup = false) : (if c then p else q).Setup = false := by
  split
  · exact hp
  · exact hq

/-- **One access of the main line.** -/
theorem Flow.main (hs : Flow s) (hplain : s.RtsLow = true → s.DrainsPlain = false) :
    Flow (s.main config val) := by
  have haddressed := hs.toAddressed.main config val
  have hflow := hs.flow
  have hsetup := hs.setup
  have hpointer := hs.pointer
  cases hpc : s.pc with
  | idle =>
      simpa only [Channel.main, hpc] using hs
  | pollTail | waitTail _ | loadTail _ | loadIndex _ _ | loadByte _ _ _ | outDi _ | markBusy _
  | outData _ | outEi =>
      simp only [Channel.main, hpc] at haddressed ⊢
      exact hs.goto haddressed rfl rfl rfl rfl (by rw [hpc]; exact id)
  | pollHead _ | waitHead _ _ | waitReady _ =>
      simp only [Channel.main, hpc] at haddressed ⊢
      exact hs.goto haddressed rfl rfl rfl (ite_setup rfl rfl) (by rw [hpc]; exact id)
  | storeTail reader newTail ch =>
      cases reader with
      | flow =>
          simp only [Channel.main, hpc] at haddressed ⊢
          refine { toAddressed := haddressed, setup := rfl, flow := ?_ }
          intro _
          -- the tail just stored is compared with the head next
          by_cases hempty : newTail = s.rxhead
          · exact .inr hempty
          · exact .inl (Ne.symm hempty)
      | plain =>
          simp only [Channel.main, hpc] at haddressed ⊢
          refine { toAddressed := haddressed, setup := rfl, flow := ?_ }
          intro hlow
          have hkept := hplain hlow
          simp only [DrainsPlain, hpc] at hkept
          exact .inl (fun hempty => by simp [RingEmpty] at hempty; simp [hempty] at hkept)
  | compareHead newTail ch =>
      rw [hpc] at hflow
      simp only [Channel.main, hpc] at haddressed ⊢
      split at haddressed
      · next hempty =>
        rw [if_pos hempty]
        exact { toAddressed := haddressed, setup := rfl, flow := fun _ => .inr trivial }
      · next hnotEmpty =>
        rw [if_neg hnotEmpty]
        exact {
          toAddressed := haddressed
          setup := rfl
          flow := fun hlow => .inl ((hflow hlow).resolve_right hnotEmpty) }
  | selectRts ch =>
      simp only [Channel.main, hpc] at haddressed ⊢
      exact { toAddressed := haddressed, setup := rfl, flow := fun _ => .inr trivial }
  | valueRts ch =>
      rw [hpc] at hpointer
      simp only [Channel.main, hpc] at haddressed ⊢
      refine { toAddressed := haddressed, setup := rfl, flow := ?_ }
      intro hlow
      have hfive : s.pointer = 5 := hpointer
      have hwr : (s.out (.register 5) config.rtsOn).wr 5 = config.rtsOn := by
        rw [out_wr5_of_register (by decide) hfive, if_pos rfl]
      simp only [RtsLow, hwr, rtsOn_high] at hlow
      exact Bool.noConfusion hlow
  | selectRr1 _ | readRr1 _ | lineDi _ | lineSelect _ | lineValue _ | lineEi _ | checkCts
  | readiDi | readiSelect5 | readiValue5 | readiSelect1 | readiValue1 | readiEi =>
      rw [hpc] at hsetup
      exact Bool.noConfusion hsetup

/-! ### Runs -/

/-- **One event.** -/
theorem Flow.step (hs : Flow s) {event : Event} (hkeeps : KeepsFlow s event) :
    Flow (s.step config event) := by
  have haddressed := hs.toAddressed.step config hkeeps.1
  have hzero := hs.toAddressed.touches_zero hkeeps.1
  obtain ⟨_, htransfers, hlow⟩ := hkeeps
  -- where RTS is low after the event, a byte is in the ring or RTS is about to be raised
  cases event with
  | call c =>
      simp only [Channel.step] at haddressed ⊢
      split at haddressed
      · next hidle =>
        rw [if_pos hidle]
        apply hs.goto haddressed rfl rfl rfl
        · cases c with
          | linsel line => exact Bool.noConfusion htransfers
          | readi => exact Bool.noConfusion htransfers
          | read reader => rfl
          | conin => rfl
          | write c => rfl
        · rw [hidle]
          exact id
      · next hbusy =>
        rw [if_neg hbusy]
        exact hs
  | main val => exact hs.main fun h => (hlow h).2
  | rx ch =>
      by_cases hie : s.ie = true
      · simp only [Channel.step, if_pos hie] at haddressed ⊢
        -- a receive interrupt is what may lower RTS, and it leaves a byte in the ring
        have hpc : (s.isrRx config ch).pc = s.pc := by
          rcases isrRx_quiet config ch (hzero hie) with ⟨_, hquiet⟩ | ⟨_, hpc, _⟩
          · exact hquiet.pc
          · exact hpc
        exact {
          toAddressed := haddressed
          setup := by rw [hpc, hs.setup]
          flow := fun _ => .inl (isrRx_notEmpty ch) }
      · simpa only [Channel.step, if_neg hie] using hs
  | spec val =>
      by_cases hie : s.ie = true
      · simp only [Channel.step, if_pos hie] at haddressed ⊢
        refine { toAddressed := haddressed, setup := ?_, flow := ?_ }
        · rw [isrSpec_pc s, hs.setup]
        · intro hlow'
          rw [RtsLow, isrSpec_wr5 (hzero hie trivial)] at hlow'
          exact Bool.noConfusion (hlow hlow').1
      · simpa only [Channel.step, if_neg hie] using hs
  | tx =>
      by_cases hie : s.ie = true
      · simp only [Channel.step, if_pos hie] at haddressed ⊢
        exact hs.handler haddressed (out_pc .command) (out_wr5 .command (hzero hie trivial))
          (out_ring s .command _).1 (out_ring s .command _).2
      · simpa only [Channel.step, if_neg hie] using hs
  | ext val =>
      by_cases hie : s.ie = true
      · simp only [Channel.step, if_pos hie] at haddressed ⊢
        exact hs.handler haddressed (out_pc .command) (out_wr5 .command rfl)
          (out_ring { s.inp with rr0 := val } .command _).1
          (out_ring { s.inp with rr0 := val } .command _).2
      · simpa only [Channel.step, if_neg hie] using hs

theorem start_flow (config : Config) : Flow (start config) where
  toAddressed := start_addressed config
  setup := rfl
  flow := by
    intro hlow
    have hwr : (start config).wr 5 = config.rtsOn := rfl
    rw [RtsLow, hwr, rtsOn_high] at hlow
    exact Bool.noConfusion hlow

/-! ### Draining the ring -/

/-- A reader that takes the last byte, undisturbed, raises RTS. -/
theorem drain_raises_rts (config : Config) (hs : Addressed s) (hidle : s.pc = .idle)
    (hlast : s.rxtail + 1#8 = s.rxhead) :
    let s' := run config s (.call (.read .flow) :: List.replicate 9 (.main 0#8))
    s'.pc = .idle ∧ s'.RingEmpty ∧ s'.RtsLow = false := by
  have hzero : s.pointer = 0 := by
    rw [hs.pointer, hidle]
    rfl
  have hnotEmpty : ¬ s.rxtail = s.rxhead := by
    rw [← hlast]
    exact add_one_ne s.rxtail
  simp only [run, List.replicate, List.foldl_cons, List.foldl_nil, Channel.step, if_pos hidle,
    Call.entry, Channel.main, if_neg hnotEmpty, hlast, if_true]
  refine ⟨trivial, ?_, ?_⟩
  · simp [RingEmpty, out, hzero]
  · simp [RtsLow, out, hzero, rtsOn_high]

instance KeepsFlow.decidable (s : Channel) (event : Event) : Decidable (KeepsFlow s event) :=
  inferInstanceAs (Decidable (_ ∧ _ ∧ (_ → _)))

/-- **Flow control cannot strand the sender** in a run of the interrupts, the readers
and the output routines in which, while RTS is low, the ring is neither flushed by a
special condition nor emptied by the `UR1` reader, and no handler uses the control
port between a select and its value: where no routine is in progress and RTS is low
the ring is not empty; and the reader that drains it raises RTS. -/
theorem flow_never_stranded (config : Config) {events : List Event}
    (hrun : EveryStep (step config) KeepsFlow (start config) events) :
    let s := run config (start config) events
    s.pc = .idle → (s.RtsLow = true → ¬ s.RingEmpty) ∧
      (s.rxtail + 1#8 = s.rxhead →
        let s' := run config s (.call (.read .flow) :: List.replicate 9 (.main 0#8))
        s'.pc = .idle ∧ s'.RingEmpty ∧ s'.RtsLow = false) := by
  intro s hidle
  have hs : Flow s :=
    foldl_invariant (fun _ _ hkeeps hs => hs.step hkeeps) hrun (start_flow config)
  refine ⟨?_, drain_raises_rts config hs.toAddressed hidle⟩
  intro hlow
  have hflow := hs.flow hlow
  rw [hidle] at hflow
  exact hflow.resolve_right id

/-- The ring is filled until RTS is lowered, and one byte is read. -/
def filled : List Event :=
  List.replicate 248 (.rx 0x41#8) ++ .call (.read .flow) :: List.replicate 7 (.main 0#8)

theorem flow_never_stranded_filled :
    EveryStep (step ⟨0x60#8, 0x1B#8⟩) KeepsFlow (start ⟨0x60#8, 0x1B#8⟩) filled ∧
      (run ⟨0x60#8, 0x1B#8⟩ (start ⟨0x60#8, 0x1B#8⟩) filled).RtsLow = true ∧
      ¬ (run ⟨0x60#8, 0x1B#8⟩ (start ⟨0x60#8, 0x1B#8⟩) filled).RingEmpty := by
  have hrun : EveryStep (step ⟨0x60#8, 0x1B#8⟩) KeepsFlow (start ⟨0x60#8, 0x1B#8⟩) filled := by
    decide +kernel
  have hlow : (run ⟨0x60#8, 0x1B#8⟩ (start ⟨0x60#8, 0x1B#8⟩) filled).RtsLow = true := by
    decide +kernel
  have hidle : (run ⟨0x60#8, 0x1B#8⟩ (start ⟨0x60#8, 0x1B#8⟩) filled).pc = .idle := by
    decide +kernel
  exact ⟨hrun, hlow, (flow_never_stranded ⟨0x60#8, 0x1B#8⟩ hrun hidle).1 hlow⟩

/-- The ring is filled until RTS is lowered; then a special condition flushes it. -/
theorem flush_strands_sender :
    ¬ ∀ (config : Config) (events : List Event), (∀ event ∈ events, event.Transfers = true) →
      let s := run config (start config) events
      s.pc = .idle → s.RtsLow = true → ¬ s.RingEmpty := by
  intro hclaim
  have hstranded := hclaim ⟨0x60#8, 0x1B#8⟩ (List.replicate 248 (.rx 0x41#8) ++ [.spec 0x20#8])
    (by decide +kernel) (by decide +kernel) (by decide +kernel)
  exact hstranded (by decide +kernel)

end Channel

end Serial
end Rc700
