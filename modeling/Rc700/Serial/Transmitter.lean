import Rc700.Serial.Registers

/-!
# The transmitter

`WR5` is written once at boot with the transmitter enabled; the output routines
rely on it.  Later writes of `WR5` by the receive interrupt and by the readers keep
the transmitter enabled and change RTS only.  The line selector writes `WR5`
without the transmitter and without the bits per character: between a line
selection and the next write of RTS nothing can be sent.
-/

namespace Rc700
namespace Serial

open Library

/-- The transmitter is enabled, with the configured bits per character. -/
def Enabled (config : Config) (wr5 : Byte) : Prop :=
  wr5 &&& 0x08#8 ≠ 0#8 ∧ wr5 &&& 0x60#8 = config.wr5

instance (config : Config) (wr5 : Byte) : Decidable (Enabled config wr5) :=
  inferInstanceAs (Decidable (_ ∧ _))

theorem enabled_table : ∀ n, n < 256 →
    Enabled ⟨BitVec.ofNat 8 n, 0#8⟩ (Config.rtsOn ⟨BitVec.ofNat 8 n, 0#8⟩) ∧
      Enabled ⟨BitVec.ofNat 8 n, 0#8⟩ (Config.rtsOff ⟨BitVec.ofNat 8 n, 0#8⟩) := by
  decide +kernel

/-- Both values the driver writes enable the transmitter. -/
theorem enabled_rts (config : Config) :
    Enabled config config.rtsOn ∧ Enabled config config.rtsOff := by
  have hcfg := enabled_table config.cfg.toNat config.cfg.isLt
  rw [BitVec.ofNat_toNat, BitVec.setWidth_eq] at hcfg
  exact hcfg

/-- The main line is about to write to the data port. -/
def Pc.Sends : Pc → Bool
  | .outData _ => true
  | _ => false

namespace Channel

/-- No handler uses the control port between a select and its value, and no byte is
sent while the line selector was the last to write `WR5`. -/
def KeepsEnabled (s : Channel) (event : Event) : Prop :=
  KeepsPairs s event ∧ (s.pc.Sends = true → s.lineSelected = false)

/-- The transmitter is enabled, and was whenever a byte was sent. -/
structure Transmits (config : Config) (s : Channel) : Prop extends Addressed s where
  enabled : s.lineSelected = false → Enabled config (s.wr 5)
  sent : ∀ b ∈ s.sent, Enabled config b.wr5

variable {config : Config} {s : Channel} {val : Byte}

/-! ### What happens to `WR5` -/

theorem out_wr5 (target : Target) (hzero : s.pointer = 0) : (s.out target val).wr 5 = s.wr 5 := by
  unfold out
  rw [if_pos hzero]
  have hother : (5 : Nat) ≠ 0 := by decide
  exact Function.update_of_ne hother val s.wr

theorem out_wr5_of_register {r : Nat} (hr : r ≠ 0) (hpointer : s.pointer = r) (target : Target) :
    (s.out target val).wr 5 = if r = 5 then val else s.wr 5 := by
  unfold out
  rw [if_neg (by omega), hpointer]
  split
  · next hfive =>
    subst hfive
    exact Function.update_self 5 val s.wr
  · next hother =>
    exact Function.update_of_ne (Ne.symm hother) val s.wr

theorem out_sent (target : Target) : (s.out target val).sent = s.sent := by
  unfold out
  split <;> rfl

theorem deassertRts_wr5 (hzero : s.pointer = 0) :
    (s.deassertRts config).wr 5 = config.rtsOff := by
  show ((s.out .select (BitVec.ofNat 8 5)).out (.register 5) config.rtsOff).wr 5 = _
  have hselected : (s.out .select (BitVec.ofNat 8 5)).pointer = 5 := out_pointer .select hzero
  rw [out_wr5_of_register (by decide) hselected, if_pos rfl]

theorem deassertRts_sent : (s.deassertRts config).sent = s.sent := by
  show ((s.out .select (BitVec.ofNat 8 5)).out (.register 5) config.rtsOff).sent = _
  rw [out_sent, out_sent]

/-- A handler leaves `WR5` as it is, or lowers RTS. -/
theorem isrRx_wr5 (ch : Byte) (hzero : s.TouchesControl (.rx ch) → s.pointer = 0) :
    ((s.isrRx config ch).wr 5 = s.wr 5 ∧
        (s.isrRx config ch).lineSelected = s.lineSelected) ∨
      (s.isrRx config ch).wr 5 = config.rtsOff := by
  simp only [isrRx]
  by_cases hfull : s.rxhead + 1#8 = s.rxtail
  · rw [if_pos hfull]
    exact .inr (deassertRts_wr5 (hzero (.inl hfull)))
  · rw [if_neg hfull]
    by_cases hroom : (s.rxhead + 1#8 - s.rxtail).toNat < 248
    · rw [if_pos hroom]
      exact .inl ⟨rfl, rfl⟩
    · rw [if_neg hroom]
      exact .inr (deassertRts_wr5 (hzero (.inr (by omega))))

theorem isrRx_sent (ch : Byte) : (s.isrRx config ch).sent = s.sent := by
  simp only [isrRx]
  split
  · exact deassertRts_sent
  · split
    · rfl
    · exact deassertRts_sent

/-- **One access of the main line** to `WR5`. -/
theorem main_wr5 (hs : Addressed s) (henabled : s.lineSelected = false → Enabled config (s.wr 5))
    (hline : (s.main config val).lineSelected = false) :
    Enabled config ((s.main config val).wr 5) := by
  have hpointer := hs.pointer
  have hwr : ∀ {s' : Channel}, (s.main config val).port = s'.port →
      (s.main config val).wr 5 = s'.wr 5 := by
    intro s' hport
    exact congrFun (congrArg (fun p => p.2.1) hport) 5
  cases main_access config val s with
  | none hport hpc hsame =>
      rw [hwr hport]
      exact henabled (hsame ▸ hline)
  | select r hpc hport hpc' hsame =>
      rw [hwr hport, out_wr5 _ (hpointer.trans hpc)]
      exact henabled (hsame ▸ hline)
  | rtsOn hpc hport hpc' hsame =>
      rw [hwr hport, out_wr5_of_register (by decide) (hpointer.trans hpc), if_pos rfl]
      exact (enabled_rts config).1
  | line v hpc hport hpc' hsame =>
      rw [hsame] at hline
      exact Bool.noConfusion hline
  | wr1 hpc hport hpc' hsame =>
      rw [hwr hport, out_wr5_of_register (by decide) (hpointer.trans hpc), if_neg (by decide)]
      exact henabled (hsame ▸ hline)
  | read hpc hport hpc' hsame =>
      rw [hwr hport]
      exact henabled (hsame ▸ hline)

/-- A byte is sent at one place only. -/
theorem main_sent (config : Config) (val : Byte) (s : Channel) :
    (s.main config val).sent = s.sent ∨
      ∃ c, s.pc = .outData c ∧ (s.main config val).sent = ⟨c, s.wr 5⟩ :: s.sent := by
  unfold Channel.main
  split
  all_goals first
    | exact .inl rfl
    | exact .inl (out_sent _)
    | exact .inr ⟨_, ‹_›, rfl⟩
    | skip
  · split
    · exact .inl rfl
    · exact .inl rfl

theorem Transmits.main (hs : Transmits config s)
    (hline : s.pc.Sends = true → s.lineSelected = false) :
    Transmits config (s.main config val) where
  toAddressed := hs.toAddressed.main config val
  enabled := main_wr5 hs.toAddressed hs.enabled
  sent := by
    rcases main_sent config val s with hsame | ⟨c, hpc, hsent⟩
    · rw [hsame]
      exact hs.sent
    · rw [hsent]
      intro b hb
      rcases List.mem_cons.mp hb with rfl | hold
      · exact hs.enabled (hline (by rw [hpc]; rfl))
      · exact hs.sent b hold

theorem isrSpec_wr5 (hzero : s.pointer = 0) : (s.isrSpec val).wr 5 = s.wr 5 := by
  have hread : ({ (s.out .select 0x01#8).inp with rr1 := val } : Channel).pointer = 0 := rfl
  show (Channel.out .command 0x30#8 { (s.out .select 0x01#8).inp with rr1 := val }).wr 5 = _
  rw [out_wr5 .command hread]
  exact out_wr5 .select hzero

/-- A handler that leaves `WR5` as it is or lowers RTS, and sends nothing. -/
theorem Transmits.handler {s' : Channel} (hs : Transmits config s) (haddressed : Addressed s')
    (hwr : (s'.wr 5 = s.wr 5 ∧ s'.lineSelected = s.lineSelected) ∨ s'.wr 5 = config.rtsOff)
    (hsent : s'.sent = s.sent) : Transmits config s' where
  toAddressed := haddressed
  enabled := by
    rcases hwr with ⟨hwr, hline⟩ | hwr
    · rw [hwr, hline]
      exact hs.enabled
    · rw [hwr]
      exact fun _ => (enabled_rts config).2
  sent := by
    rw [hsent]
    exact hs.sent

/-- **One event.** -/
theorem Transmits.step (hs : Transmits config s) {event : Event}
    (hkeeps : KeepsEnabled s event) : Transmits config (s.step config event) := by
  have haddressed := hs.toAddressed.step config hkeeps.1
  have hzero := hs.toAddressed.touches_zero hkeeps.1
  -- handlers write commands only, so WR5 is what the driver made it
  cases event with
  | call c =>
      apply hs.handler haddressed
      · simp only [Channel.step]
        split <;> exact .inl ⟨rfl, rfl⟩
      · simp only [Channel.step]
        split <;> rfl
  | main val => exact hs.main hkeeps.2
  | rx ch =>
      by_cases hie : s.ie = true
      · simp only [Channel.step, if_pos hie] at haddressed ⊢
        exact hs.handler haddressed (isrRx_wr5 ch (hzero hie)) (isrRx_sent ch)
      · simpa only [Channel.step, if_neg hie] using hs
  | spec val =>
      by_cases hie : s.ie = true
      · simp only [Channel.step, if_pos hie] at haddressed ⊢
        exact hs.handler haddressed
          (.inl ⟨isrSpec_wr5 (hzero hie trivial),
            (out_lineSelected .command).trans (out_lineSelected .select)⟩)
          ((out_sent .command).trans (out_sent .select))
      · simpa only [Channel.step, if_neg hie] using hs
  | tx =>
      by_cases hie : s.ie = true
      · simp only [Channel.step, if_pos hie] at haddressed ⊢
        exact hs.handler haddressed
          (.inl ⟨out_wr5 .command (hzero hie trivial), out_lineSelected .command⟩)
          (out_sent .command)
      · simpa only [Channel.step, if_neg hie] using hs
  | ext val =>
      by_cases hie : s.ie = true
      · simp only [Channel.step, if_pos hie] at haddressed ⊢
        exact hs.handler haddressed (.inl ⟨out_wr5 .command rfl, out_lineSelected .command⟩)
          (out_sent .command)
      · simpa only [Channel.step, if_neg hie] using hs

theorem start_transmits (config : Config) : Transmits config (start config) where
  toAddressed := start_addressed config
  enabled := fun _ => (enabled_rts config).1
  sent := nofun

/-! ### Output does not wait for ever -/

/-- The transmitter is done with its byte: if it is enabled its interrupt comes. -/
def transmitted (config : Config) (s : Channel) : Channel :=
  if s.wr 5 &&& 0x08#8 ≠ 0#8 then s.step config .tx else s

/-- Once the transmit interrupt has come an output routine sends its byte, in five
accesses. -/
theorem output_completes (config : Config) {c : Byte} (hidle : s.pc = .idle)
    (hie : s.ie = true) :
    let s' := run config s
      [.tx, .call (.write c), .main 0#8, .main 0#8, .main 0#8, .main 0#8, .main 0#8]
    s'.pc = .idle ∧ ∃ wr5, s'.sent = ⟨c, wr5⟩ :: s.sent := by
  have hpc : s.isrTx.pc = .idle := (out_pc .command).trans hidle
  have hready : s.isrTx.txReady = true := rfl
  have hsent : s.isrTx.sent = s.sent := out_sent .command
  simp only [run, List.foldl_cons, List.foldl_nil, Channel.step, if_pos hie, if_pos hpc,
    Call.entry, Channel.main, hready, if_true, hsent]
  exact ⟨trivial, s.isrTx.wr 5, rfl⟩

instance KeepsEnabled.decidable (s : Channel) (event : Event) :
    Decidable (KeepsEnabled s event) :=
  inferInstanceAs (Decidable (_ ∧ (_ → _)))

/-- Where no routine is in progress and the line selector was not the last to write `WR5`, the
transmitter's interrupt comes, and the next output routine sends its byte. -/
theorem Transmits.outputs (hs : Transmits config s) {c : Byte} (hidle : s.pc = .idle)
    (hline : s.lineSelected = false) :
    let s' := run config (s.transmitted config)
      [.call (.write c), .main 0#8, .main 0#8, .main 0#8, .main 0#8, .main 0#8]
    s'.pc = .idle ∧ s'.sent = ⟨c, s.wr 5⟩ :: s.sent ∧ Enabled config (s.wr 5) := by
  have henabled := hs.enabled hline
  have hie : s.ie = true := by
    rw [hs.ie, hidle]
    rfl
  have hpointer : s.pointer = 0 := by
    rw [hs.pointer, hidle]
    rfl
  have hcomes : s.transmitted config = s.isrTx := by
    rw [transmitted, if_pos henabled.1, Channel.step, if_pos hie]
  have hpc : s.isrTx.pc = .idle := (out_pc .command).trans hidle
  have hready : s.isrTx.txReady = true := rfl
  have hsent : s.isrTx.sent = s.sent := out_sent .command
  have hwr : s.isrTx.wr 5 = s.wr 5 := out_wr5 .command hpointer
  simp only [run, hcomes, List.foldl_cons, List.foldl_nil, Channel.step, if_pos hpc,
    Call.entry, Channel.main, hready, if_true, hsent, hwr]
  exact ⟨trivial, trivial, henabled⟩

/-- **The transmitter stays enabled** in every run in which no handler uses the
control port between a select and its value, and no byte is sent between a line
selection and the next write of RTS: whenever a byte was sent the transmitter was
enabled with the configured bits per character; and where no routine is in progress
the transmit interrupt lets the next output routine send its byte, and it comes, for
the transmitter is enabled, unless the line selector was the last to write `WR5`. -/
theorem transmitter_stays_enabled (config : Config) {events : List Event}
    (hrun : EveryStep (step config) KeepsEnabled (start config) events) :
    let s := run config (start config) events
    (∀ b ∈ s.sent, Enabled config b.wr5) ∧
      ∀ c, s.pc = .idle →
        (let s' := run config s
          [.tx, .call (.write c), .main 0#8, .main 0#8, .main 0#8, .main 0#8, .main 0#8]
        s'.pc = .idle ∧ ∃ wr5, s'.sent = ⟨c, wr5⟩ :: s.sent) ∧
        (s.lineSelected = false →
          let s' := run config (s.transmitted config)
            [.call (.write c), .main 0#8, .main 0#8, .main 0#8, .main 0#8, .main 0#8]
          s'.pc = .idle ∧ s'.sent = ⟨c, s.wr 5⟩ :: s.sent ∧ Enabled config (s.wr 5)) := by
  intro s
  have hs : Transmits config s :=
    foldl_invariant (fun _ _ hkeeps hs => hs.step hkeeps) hrun (start_transmits config)
  refine ⟨hs.sent, ?_⟩
  intro c hidle
  have hie := hs.ie
  rw [hidle] at hie
  exact ⟨output_completes config hidle hie, hs.outputs hidle⟩

/-- A byte is sent, and another one after the transmit interrupt. -/
def twoBytes : List Event :=
  [.call (.write 0x41#8), .main 0#8, .main 0#8, .main 0#8, .main 0#8, .main 0#8, .tx,
    .call (.write 0x42#8), .main 0#8, .main 0#8, .main 0#8, .main 0#8, .main 0#8]

theorem transmitter_stays_enabled_twoBytes :
    EveryStep (step ⟨0x60#8, 0x1B#8⟩) KeepsEnabled (start ⟨0x60#8, 0x1B#8⟩) twoBytes ∧
      (run ⟨0x60#8, 0x1B#8⟩ (start ⟨0x60#8, 0x1B#8⟩) twoBytes).sent.length = 2 ∧
      (∀ b ∈ (run ⟨0x60#8, 0x1B#8⟩ (start ⟨0x60#8, 0x1B#8⟩) twoBytes).sent,
        Enabled ⟨0x60#8, 0x1B#8⟩ b.wr5) ∧
      Enabled ⟨0x60#8, 0x1B#8⟩ ((run ⟨0x60#8, 0x1B#8⟩ (start ⟨0x60#8, 0x1B#8⟩) twoBytes).wr 5) :=
  have hall := @transmitter_stays_enabled ⟨0x60#8, 0x1B#8⟩ twoBytes (by decide)
  ⟨by decide, by decide, hall.1, ((hall.2 0x43#8 (by decide)).2 (by decide)).2.2⟩

/-- With the transmitter disabled no interrupt comes, and the next output routine waits. -/
theorem disabled_waits (config : Config) {c : Byte} (hidle : s.pc = .idle)
    (hwr : s.wr 5 &&& 0x08#8 = 0#8) (hbusy : s.txReady = false) (passes : List Byte) :
    (run config (s.transmitted config) (.call (.write c) :: passes.map .main)).sent = s.sent := by
  have hcomes : s.transmitted config = s := by
    rw [transmitted, if_neg (not_not.mpr hwr)]
  have hwaits : ∀ s' : Channel, s'.pc = .waitReady c → s'.txReady = false →
      (run config s' (passes.map .main)).sent = s'.sent := by
    induction passes with
    | nil => exact fun _ _ _ => rfl
    | cons val passes ih =>
        intro s' hpc hready
        have hmain : s'.main config val = { s' with pc := .waitReady c } := by
          simp only [Channel.main, hpc, hready, Bool.false_eq_true, if_false]
        have hrest := ih (s'.main config val) (by rw [hmain]) (by rw [hmain]; exact hready)
        rw [hmain] at hrest
        simp only [run, List.map_cons, List.foldl_cons, Channel.step, hmain] at hrest ⊢
        exact hrest
  rw [hcomes]
  simp only [run, List.foldl_cons, Channel.step, if_pos hidle]
  exact hwaits { s with pc := (Call.write c).entry } rfl hbusy

/-- The line is released (`LINSEL` with line 0), then a byte is sent: `WR5` is zero. -/
theorem lineSelection_disables :
    ¬ ∀ (config : Config) (events : List Event),
      ∀ b ∈ (run config (start config) events).sent, Enabled config b.wr5 := by
  intro henabled
  have hsent := henabled ⟨0x60#8, 0x1B#8⟩
    [.call (.linsel 0#8), .main 0#8, .main 1#8, .main 0#8, .main 0#8, .main 0#8, .main 0#8,
      .call (.write 0x41#8), .main 0#8, .main 0#8, .main 0#8, .main 0#8] ⟨0x41#8, 0#8⟩ (by decide)
  exact absurd hsent (by decide)

end Channel

end Serial
end Rc700
