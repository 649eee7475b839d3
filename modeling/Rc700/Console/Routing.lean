import Rc700.Console.Driver
import Rc700.Library.Progress

/-!
# Console and list output

`bios_conout_c` and `bios_list_body` by the fields of the IOBYTE: console output may go to
the list device, and list output to the console.  The calls are activations on a stack, the
two lines have a flag each that an interrupt sets when the transmitter is ready, and a
routine that needs the line polls the flag.

Output comes to an end, on a stack of three activations, unless CON is BAT: and LST is CRT:;
then each routine calls the other one (`output_returns_iff`).
-/

namespace Rc700
namespace Console

open Library Progress

/-! ### The IOBYTE -/

/-- The four values of a field: `IOB_TTY`, `IOB_CRT`, `IOB_BAT` and `IOB_UC1`. -/
def deviceOf (field : Byte) : Con :=
  if field = 0#8 then .tty else if field = 1#8 then .crt else if field = 2#8 then .bat else .uc1

/-- `IOBYTE_CON` -/
def iobyteCon (io : Byte) : Con := deviceOf (io &&& 0x03#8)

/-- `IOBYTE_LST` -/
def iobyteLst (io : Byte) : Con := deviceOf ((io >>> 6) &&& 0x03#8)

/-! ### The routines -/

/-- A statement of a routine. -/
inductive Op where
  | biosConoutC (c : Byte)
  | biosListBody (c : Byte)
  | serialConout (c : Byte)
  | listLpt (c : Byte)
  /-- To the display. -/
  | display (c : Byte)
  deriving DecidableEq, Repr

/-- An activation: what is left of a routine, or one that polls the flag of a line. -/
inductive Frame where
  | body (ops : List Op)
  | serialConout (c : Byte)
  | listLpt (c : Byte)
  deriving DecidableEq, Repr

/-- `bios_conout_c` -/
def conoutBody (con : Con) (c : Byte) : List Op :=
  match con with
  | .tty => [.serialConout c, .display c]
  | .crt => [.display c]
  | .bat => [.biosListBody c]
  | .uc1 => [.serialConout c, .display c]

/-- `bios_list_body` -/
def listBody (lst : Con) (c : Byte) : List Op :=
  match lst with
  | .tty => [.serialConout c]
  | .crt => [.biosConoutC c]
  | .bat => [.listLpt c]
  | .uc1 => []

/-- A call from outside. -/
inductive OutputCall where
  | conout (c : Byte)
  | list (c : Byte)
  deriving DecidableEq, Repr

/-- The statement that makes the call. -/
def OutputCall.op : OutputCall → Op
  | .conout c => .biosConoutC c
  | .list c => .biosListBody c

/-- The machine: the variables, the activations, the top one first, and the calls to come. -/
structure Output where
  iobyte : Byte
  crt : Crt
  sioATxReady : Bool
  sioBTxReady : Bool
  stack : List Frame
  calls : List OutputCall

/-- Which transmitters become ready. -/
structure Ready where
  a : Bool
  b : Bool

namespace Output

/-- Everything has returned. -/
def Returned (m : Output) : Prop := m.stack = [] ∧ m.calls = []

/-- The activation that a call makes. -/
def frameOf (io : Byte) : Op → Frame
  | .biosConoutC c => .body (conoutBody (iobyteCon io) c)
  | .biosListBody c => .body (listBody (iobyteLst io) c)
  | .serialConout c => .serialConout c
  | .listLpt c => .listLpt c
  | .display _ => .body []

/-- One statement, one poll, one return, or the next call. -/
def step (config : Config) (m : Output) : Output :=
  match m.stack with
  | [] =>
      match m.calls with
      | [] => m
      | call :: calls => { m with stack := [frameOf m.iobyte call.op], calls := calls }
  | .body [] :: below => { m with stack := below }
  | .body (.display c :: ops) :: below =>
      { m with crt := conoutCrt config c m.crt, stack := .body ops :: below }
  | .body (op :: ops) :: below => { m with stack := frameOf m.iobyte op :: .body ops :: below }
  | .serialConout c :: below =>
      if m.sioBTxReady then
        { m with
          sioBTxReady := false
          crt := { m.crt with serial := c :: m.crt.serial }
          stack := below }
      else m
  | .listLpt c :: below =>
      if m.sioATxReady then
        { m with
          sioATxReady := false
          crt := { m.crt with listed := c :: m.crt.listed }
          stack := below }
      else m

/-- The interrupts of the transmitters come, then a step is taken. -/
def tick (config : Config) (ready : Ready) (m : Output) : Output :=
  step config { m with
    sioATxReady := m.sioATxReady || ready.a
    sioBTxReady := m.sioBTxReady || ready.b }

/-- A routine polls the flag of SIO-A. -/
def WaitsA (m : Output) : Prop := ∃ c below, m.stack = .listLpt c :: below ∧ m.sioATxReady = false

/-- A routine polls the flag of SIO-B. -/
def WaitsB (m : Output) : Prop :=
  ∃ c below, m.stack = .serialConout c :: below ∧ m.sioBTxReady = false

/-- Each flag that is waited for is set some time. -/
def Fair (config : Config) (env : Nat → Ready) (m : Output) : Prop :=
  ∀ n, (WaitsA (runFor (tick config) env m n) → ∃ k ≥ n, (env k).a = true) ∧
    (WaitsB (runFor (tick config) env m n) → ∃ k ≥ n, (env k).b = true)

/-! ### Work to do -/

/-- The work of a statement, where the two routines do not call each other forever. -/
def opWeight (io : Byte) : Op → Nat
  | .display _ => 1
  | .serialConout _ => 2
  | .listLpt _ => 2
  | .biosListBody _ => if iobyteLst io = .crt then 7 else 4
  | .biosConoutC _ => if iobyteCon io = .bat then 6 else 5

def frameWeight (io : Byte) : Frame → Nat
  | .body ops => 1 + (ops.map (opWeight io)).sum
  | .serialConout _ => 1
  | .listLpt _ => 1

/-- The work that is left. -/
def rank (m : Output) : Nat :=
  (m.stack.map (frameWeight m.iobyte)).sum +
    (m.calls.map fun call => opWeight m.iobyte call.op).sum

/-- The fields with which output comes to an end. -/
def Ends (io : Byte) : Prop := ¬(iobyteCon io = .bat ∧ iobyteLst io = .crt)

/-- The statement is a call. -/
def IsCall : Op → Prop
  | .display _ => False
  | _ => True

/-- A call is less work once it is made. -/
theorem frameWeight_lt {io : Byte} (hends : Ends io) {op : Op} (hop : IsCall op) :
    frameWeight io (frameOf io op) < opWeight io op := by
  unfold Ends at hends
  cases op with
  | display c => exact absurd hop id
  | serialConout c => simp [frameOf, frameWeight, opWeight]
  | listLpt c => simp [frameOf, frameWeight, opWeight]
  | biosConoutC c =>
      cases hcon : iobyteCon io with
      | tty => simp [frameOf, frameWeight, opWeight, conoutBody, hcon]
      | crt => simp [frameOf, frameWeight, opWeight, conoutBody, hcon]
      | uc1 => simp [frameOf, frameWeight, opWeight, conoutBody, hcon]
      | bat =>
          -- then the list device is not the console
          have hlst : iobyteLst io ≠ .crt := fun hlst => hends ⟨hcon, hlst⟩
          simp [frameOf, frameWeight, opWeight, conoutBody, hcon, hlst]
  | biosListBody c =>
      cases hlst : iobyteLst io with
      | tty => simp [frameOf, frameWeight, opWeight, listBody, hlst]
      | bat => simp [frameOf, frameWeight, opWeight, listBody, hlst]
      | uc1 => simp [frameOf, frameWeight, opWeight, listBody, hlst]
      | crt =>
          have hcon : iobyteCon io ≠ .bat := fun hcon => hends ⟨hcon, hlst⟩
          simp [frameOf, frameWeight, opWeight, listBody, hlst, hcon]

/-- The flag that is polled is not set. -/
def Blocked (ready : Ready) (m : Output) : Prop :=
  (∃ c below, m.stack = .listLpt c :: below ∧ (m.sioATxReady || ready.a) = false) ∨
    ∃ c below, m.stack = .serialConout c :: below ∧ (m.sioBTxReady || ready.b) = false

theorem step_iobyte (config : Config) (m : Output) : (step config m).iobyte = m.iobyte := by
  unfold step
  repeat' split
  all_goals rfl

/-- A poll that finds the flag clear changes nothing but the flags. -/
theorem tick_blocked (config : Config) {ready : Ready} {m : Output} (hblocked : Blocked ready m) :
    (tick config ready m).stack = m.stack ∧ (tick config ready m).calls = m.calls ∧
      (tick config ready m).iobyte = m.iobyte := by
  rcases hblocked with ⟨c, below, hstack, hflag⟩ | ⟨c, below, hstack, hflag⟩
  · simp [tick, step, hstack, hflag]
  · simp [tick, step, hstack, hflag]

/-- Any other step leaves less work. -/
theorem rank_tick (config : Config) {ready : Ready} {m : Output} (hends : Ends m.iobyte)
    (hbusy : ¬Returned m) (hfree : ¬Blocked ready m) :
    rank (tick config ready m) < rank m := by
  obtain ⟨io, crt, a, b, stack, calls⟩ := m
  -- a call of the caller, a wait for a flag, or the next step of the body on top
  cases stack with
  | nil =>
      cases calls with
      | nil => exact absurd ⟨rfl, rfl⟩ hbusy
      | cons call calls =>
          have hcall : IsCall call.op := by cases call <;> trivial
          have hless := frameWeight_lt hends hcall
          simp [tick, step, rank] at hless ⊢
          omega
  | cons frame below =>
      cases frame with
      | serialConout c =>
          have hflag : (b || ready.b) = true := by
            by_contra hclear
            exact hfree (.inr ⟨c, below, rfl, by simpa using hclear⟩)
          simp [tick, step, rank, frameWeight, hflag]
      | listLpt c =>
          have hflag : (a || ready.a) = true := by
            by_contra hclear
            exact hfree (.inl ⟨c, below, rfl, by simpa using hclear⟩)
          simp [tick, step, rank, frameWeight, hflag]
      | body ops =>
          cases ops with
          | nil => simp [tick, step, rank, frameWeight]
          | cons op ops =>
              -- a call is replaced by a frame of smaller weight
              by_cases hop : IsCall op
              · have hless := frameWeight_lt hends hop
                cases op with
                | display c => exact absurd hop id
                | _ =>
                    simp [tick, step, rank, frameWeight] at hless ⊢
                    omega
              · cases op with
                | display c =>
                    have hone : opWeight io (.display c) = 1 := rfl
                    simp [tick, step, rank, frameWeight, hone]
                | _ => exact absurd trivial hop

/-- **A flag that is set some time** ends each wait. -/
theorem Fair.freed {config : Config} {env : Nat → Ready} {m : Output} (hfair : Fair config env m)
    (n : Nat) : ∃ k ≥ n, ¬Blocked (env k) (runFor (tick config) env m k) := by
  by_contra hnever
  simp only [not_exists, not_and, not_not] at hnever
  -- so the same routine is on top from then on
  have hsame : ∀ k ≥ n, (runFor (tick config) env m k).stack =
      (runFor (tick config) env m n).stack := by
    intro k hk
    induction hk with
    | refl => rfl
    | step hk ih =>
        rw [runFor_succ, (tick_blocked config (hnever _ hk)).1]
        exact ih
  rcases hnever n (Nat.le_refl n) with ⟨c, below, hstack, hflag⟩ | ⟨c, below, hstack, hflag⟩
  · simp only [Bool.or_eq_false_iff] at hflag
    obtain ⟨k, hk, hset⟩ := (hfair n).1 ⟨c, below, hstack, hflag.1⟩
    have htop := hsame k hk
    rcases hnever k hk with ⟨_, _, _, hclear⟩ | ⟨_, _, hother, _⟩
    · simp [hset] at hclear
    · rw [htop, hstack] at hother
      cases hother
  · simp only [Bool.or_eq_false_iff] at hflag
    obtain ⟨k, hk, hset⟩ := (hfair n).2 ⟨c, below, hstack, hflag.1⟩
    have htop := hsame k hk
    rcases hnever k hk with ⟨_, _, hother, _⟩ | ⟨_, _, _, hclear⟩
    · rw [htop, hstack] at hother
      cases hother
    · simp [hset] at hclear

/-- **Output comes to an end.** -/
theorem returns (config : Config) {env : Nat → Ready} {m : Output} (hends : Ends m.iobyte)
    (hfair : Fair config env m) : ∃ n, Returned (runFor (tick config) env m n) := by
  refine reaches_end (tick config) Blocked (fun s => s.iobyte = m.iobyte) rank ?_ ?_ ?_ env rfl
    fun n _ => hfair.freed n
  · intro ready s hs
    exact (step_iobyte config _).trans hs
  · intro ready s _ hblocked
    obtain ⟨hstack, hcalls, hio⟩ := tick_blocked config hblocked
    simp only [rank, hstack, hcalls, hio]
  · intro ready s hs hbusy hfree
    exact rank_tick config (hs ▸ hends) hbusy hfree

/-! ### The stack -/

/-- How many activations a statement may put on the stack. -/
def opHeight (io : Byte) : Op → Nat
  | .display _ => 0
  | .serialConout _ => 1
  | .listLpt _ => 1
  | .biosListBody _ => if iobyteLst io = .crt then 3 else 2
  | .biosConoutC _ => if iobyteCon io = .bat then 3 else 2

/-- The statements of the activations leave the stack within three. -/
def Shallow (io : Byte) : List Frame → Prop
  | [] => True
  | .body ops :: below =>
      below.length < 3 ∧ (∀ op ∈ ops, below.length + 1 + opHeight io op ≤ 3) ∧ Shallow io below
  | _ :: below => below.length < 3 ∧ Shallow io below

theorem Shallow.length_le {io : Byte} {stack : List Frame} (hstack : Shallow io stack) :
    stack.length ≤ 3 := by
  cases stack with
  | nil => simp
  | cons frame below =>
      cases frame with
      | body ops => exact hstack.1
      | serialConout c => exact hstack.1
      | listLpt c => exact hstack.1

/-- A call puts an activation on the stack that fits. -/
theorem Shallow.call {io : Byte} (hends : Ends io) {below : List Frame}
    (hbelow : Shallow io below) {op : Op} (hop : IsCall op)
    (hfits : below.length + opHeight io op ≤ 3) : Shallow io (frameOf io op :: below) := by
  unfold Ends at hends
  cases op with
  | display c => exact absurd hop id
  | serialConout c =>
      simp only [opHeight] at hfits
      exact ⟨by omega, hbelow⟩
  | listLpt c =>
      simp only [opHeight] at hfits
      exact ⟨by omega, hbelow⟩
  | biosConoutC c =>
      simp only [opHeight] at hfits
      cases hcon : iobyteCon io with
      | bat =>
          -- CONOUT to LIST: LIST does not come back, so two levels are enough
          have hlst : iobyteLst io ≠ .crt := fun hlst => hends ⟨hcon, hlst⟩
          rw [hcon] at hfits
          simp only [if_true] at hfits
          have hnone : below.length = 0 := by omega
          simp [frameOf, Shallow, conoutBody, opHeight, hcon, hlst, hnone, hbelow]
      | _ =>
          rw [hcon] at hfits
          simp only [reduceCtorEq, if_false] at hfits
          simp [frameOf, Shallow, conoutBody, opHeight, hcon, hbelow]
          omega
  | biosListBody c =>
      simp only [opHeight] at hfits
      cases hlst : iobyteLst io with
      | crt =>
          -- LIST to CONOUT, the other way round
          have hcon : iobyteCon io ≠ .bat := fun hcon => hends ⟨hcon, hlst⟩
          rw [hlst] at hfits
          simp only [if_true] at hfits
          have hnone : below.length = 0 := by omega
          simp [frameOf, Shallow, listBody, opHeight, hlst, hcon, hnone, hbelow]
      | _ =>
          rw [hlst] at hfits
          simp only [reduceCtorEq, if_false] at hfits
          simp [frameOf, Shallow, listBody, opHeight, hlst, hbelow]
          omega

theorem opHeight_le (io : Byte) (op : Op) : opHeight io op ≤ 3 := by
  unfold opHeight
  split
  all_goals (try split) <;> omega

/-- **No step** takes the stack above three activations. -/
theorem Shallow.tick (config : Config) (ready : Ready) {m : Output} (hends : Ends m.iobyte)
    (hstack : Shallow m.iobyte m.stack) :
    Shallow m.iobyte (tick config ready m).stack := by
  obtain ⟨io, crt, a, b, stack, calls⟩ := m
  cases stack with
  | nil =>
      cases calls with
      | nil => exact hstack
      | cons call calls =>
          have hcall : IsCall call.op := by cases call <;> trivial
          have hheight := opHeight_le io call.op
          exact Shallow.call hends hstack hcall (by simpa using hheight)
  | cons frame below =>
      cases frame with
      | serialConout c =>
          cases hflag : (b || ready.b)
          · simpa [Output.tick, step, hflag] using hstack
          · simpa [Output.tick, step, hflag] using hstack.2
      | listLpt c =>
          cases hflag : (a || ready.a)
          · simpa [Output.tick, step, hflag] using hstack
          · simpa [Output.tick, step, hflag] using hstack.2
      | body ops =>
          obtain ⟨hdepth, hops, hbelow⟩ := hstack
          cases ops with
          | nil => exact hbelow
          | cons op ops =>
              have hrest : Shallow io (.body ops :: below) :=
                ⟨hdepth, fun op hop => hops op (List.mem_cons_of_mem _ hop), hbelow⟩
              have hfits := hops op List.mem_cons_self
              cases op with
              | display c => exact hrest
              | _ => exact Shallow.call hends hrest trivial hfits

/-- **The stack** never has more than three activations. -/
theorem stack_le (config : Config) (env : Nat → Ready) {m : Output} (hends : Ends m.iobyte)
    (hstack : m.stack = []) (n : Nat) : (runFor (tick config) env m n).stack.length ≤ 3 := by
  have hinv := runFor_invariant (tick config)
    (fun s => s.iobyte = m.iobyte ∧ Shallow m.iobyte s.stack)
    (fun ready s hs => ⟨(step_iobyte config _).trans hs.1,
      hs.1 ▸ Shallow.tick config ready (hs.1 ▸ hends) (hs.1 ▸ hs.2)⟩) env
    ⟨rfl, by rw [hstack]; trivial⟩ n
  exact hinv.2.length_le

/-! ### Each calls the other -/

/-- With CON:=BAT: and LST:=CRT: the stack grows with every step. -/
theorem stack_grows (config : Config) (env : Nat → Ready) {m : Output}
    (hcon : iobyteCon m.iobyte = .bat) (hlst : iobyteLst m.iobyte = .crt) (hstack : m.stack = [])
    (hcalls : m.calls ≠ []) (n : Nat) :
    let s := runFor (tick config) env m (n + 1)
    s.iobyte = m.iobyte ∧ ∃ c below, below.length = n ∧
      (s.stack = .body [.biosListBody c] :: below ∨ s.stack = .body [.biosConoutC c] :: below) := by
  induction n with
  | zero =>
      obtain ⟨call, calls, hcalls⟩ := List.exists_cons_of_ne_nil hcalls
      rw [runFor_succ, runFor_zero]
      refine ⟨step_iobyte config _, ?_⟩
      cases call with
      | conout c =>
          refine ⟨c, [], rfl, .inl ?_⟩
          simp [tick, step, hstack, hcalls, OutputCall.op, frameOf, conoutBody, hcon]
      | list c =>
          refine ⟨c, [], rfl, .inr ?_⟩
          simp [tick, step, hstack, hcalls, OutputCall.op, frameOf, listBody, hlst]
  | succ n ih =>
      obtain ⟨hio, c, below, hlen, htop⟩ := ih
      rw [runFor_succ]
      refine ⟨(step_iobyte config _).trans hio, c, .body [] :: below, by simp [hlen], ?_⟩
      -- the routine on top calls the other one
      rcases htop with htop | htop
      · right
        simp [tick, step, htop, frameOf, listBody, hio, hlst]
      · left
        simp [tick, step, htop, frameOf, conoutBody, hio, hcon]

end Output

/-! ### All devices -/

/-- **Output returns** from every sequence of calls, in every environment that sets the flags
that are waited for, and on a stack of bounded depth, exactly unless CON is BAT: and LST is
CRT: and there is a call. -/
theorem output_returns_iff (config : Config) (io : Byte) (crt : Crt) (a b : Bool)
    (calls : List OutputCall) :
    ((∀ env, Output.Fair config env ⟨io, crt, a, b, [], calls⟩ →
        ∃ n, (runFor (Output.tick config) env ⟨io, crt, a, b, [], calls⟩ n).Returned) ∧
      ∃ depth, ∀ env n,
        (runFor (Output.tick config) env ⟨io, crt, a, b, [], calls⟩ n).stack.length ≤ depth) ↔
      ¬(iobyteCon io = .bat ∧ iobyteLst io = .crt) ∨ calls = [] := by
  constructor
  · rintro ⟨-, depth, hdepth⟩
    by_contra hloop
    simp only [not_or, not_not] at hloop
    obtain ⟨⟨hcon, hlst⟩, hcalls⟩ := hloop
    obtain ⟨-, c, below, hlen, htop⟩ := Output.stack_grows config (fun _ => ⟨true, true⟩)
      (m := ⟨io, crt, a, b, [], calls⟩) hcon hlst rfl hcalls depth
    have hle := hdepth (fun _ => ⟨true, true⟩) (depth + 1)
    rcases htop with htop | htop <;>
    · rw [htop, List.length_cons] at hle
      omega
  · rintro (hends | rfl)
    · exact ⟨fun env hfair => Output.returns config hends hfair,
        3, fun env n => Output.stack_le config env (m := ⟨io, crt, a, b, [], calls⟩) hends rfl n⟩
    · have hstay : ∀ env n,
          (runFor (Output.tick config) env ⟨io, crt, a, b, [], []⟩ n).Returned := by
        intro env n
        refine runFor_invariant (Output.tick config) Output.Returned ?_ env ⟨rfl, rfl⟩ n
        rintro ready m ⟨hstack, hcalls⟩
        simp [Output.tick, Output.step, Output.Returned, hstack, hcalls]
      exact ⟨fun env _ => ⟨0, rfl, rfl⟩, 0, fun env n => by rw [(hstay env n).1]; simp⟩

/-- `STAT CON:=BAT:` and `STAT LST:=CRT:`, and one character: output never returns. -/
theorem output_not_returns :
    ¬∀ (config : Config) (io : Byte) (crt : Crt) (a b : Bool) (calls : List OutputCall),
      (∀ env, Output.Fair config env ⟨io, crt, a, b, [], calls⟩ →
        ∃ n, (runFor (Output.tick config) env ⟨io, crt, a, b, [], calls⟩ n).Returned) ∧
      ∃ depth, ∀ env n,
        (runFor (Output.tick config) env ⟨io, crt, a, b, [], calls⟩ n).stack.length ≤ depth := by
  intro hall
  obtain ⟨hreturns, -⟩ := hall ⟨0#8, fun c => c⟩ 0x56#8 (Crt.start fun _ => 0x20#8) false false
    [.conout 0x41#8]
  obtain ⟨n, hn⟩ := hreturns (fun _ => ⟨true, true⟩) fun n =>
    ⟨fun _ => ⟨n, Nat.le_refl n, rfl⟩, fun _ => ⟨n, Nat.le_refl n, rfl⟩⟩
  cases n with
  | zero => exact absurd hn.2 (List.cons_ne_nil _ _)
  | succ n =>
      obtain ⟨-, c, below, -, htop⟩ := Output.stack_grows ⟨0#8, fun c => c⟩
        (fun _ => ⟨true, true⟩) (m := ⟨0x56#8, Crt.start fun _ => 0x20#8, false, false, [],
          [.conout 0x41#8]⟩) (by decide) (by decide) rfl (List.cons_ne_nil _ _) n
      rcases htop with htop | htop <;>
      · rw [hn.1] at htop
        cases htop

end Console
end Rc700
