import Mathlib.Logic.Function.Basic
import Rc700.Library.Run
import Rc700.Library.Word

/-!
# One channel of the serial controller

A Z80-SIO channel with its driver in `rcbios-in-c/bios.c`: the receive ring, the
transmitter's ready flag and the control port, shared by the interrupt handlers of
the channel and by the main line.  Both channels have the same handlers; they
differ in the routines of the main line that use them, and the model has all.

The main line is interrupted between any two accesses to memory or to a port,
unless it has disabled interrupts.  Its place in a routine, with the values held in
registers, is a `Pc`; an interrupt handler runs as a whole.

The control port is a register pointer: a write with the pointer at zero goes to
`WR0` and sets the pointer, a write with the pointer elsewhere goes to that
register and resets the pointer; a read resets it too.
-/

namespace Rc700
namespace Serial

open Library

/-- What is set up at boot: `wr5a`/`wr5b` (bits 6 and 5 of a configuration byte) and
the value for `WR1` (`0x1B` or `0x1F`). -/
structure Config where
  cfg : Byte
  wr1 : Byte

/-- `wr5a`, `wr5b`: bits per character. -/
def Config.wr5 (config : Config) : Byte := config.cfg &&& 0x60#8

/-- `WR5` with DTR, transmitter and RTS on. -/
def Config.rtsOn (config : Config) : Byte := config.wr5 + 0x8A#8

/-- `WR5` with DTR and transmitter on, RTS off. -/
def Config.rtsOff (config : Config) : Byte := config.wr5 + 0x88#8

/-! ### State -/

/-- Routines that take a byte from the ring: `serial_conin` and the `PTR` reader
raise RTS when they empty it, the `UR1` reader does not. -/
inductive Reader
  | flow
  | plain
  deriving DecidableEq, Repr

/-- The writes of `WR5` by the line selector. -/
inductive LineStage
  | release (line : Byte)
  | rts (line : Byte)
  | dtr (line : Byte)
  | giveUp
  deriving DecidableEq, Repr

/-- The place of the main line: the next access, and the values in registers. -/
inductive Pc
  | idle
  -- `bios_conin`
  | pollTail
  | pollHead (tail : Byte)
  -- `serial_conin`, `bios_reader_body`
  | waitTail (reader : Reader)
  | waitHead (reader : Reader) (tail : Byte)
  | loadTail (reader : Reader)
  | loadIndex (reader : Reader) (newTail : Byte)
  | loadByte (reader : Reader) (newTail index : Byte)
  | storeTail (reader : Reader) (newTail ch : Byte)
  | compareHead (newTail ch : Byte)
  | selectRts (ch : Byte)
  | valueRts (ch : Byte)
  -- `serial_conout`, `list_lpt`, `bios_punch_body`
  | waitReady (c : Byte)
  | outDi (c : Byte)
  | markBusy (c : Byte)
  | outData (c : Byte)
  | outEi
  -- `bios_linsel_body`
  | selectRr1 (line : Byte)
  | readRr1 (line : Byte)
  | lineDi (stage : LineStage)
  | lineSelect (stage : LineStage)
  | lineValue (stage : LineStage)
  | lineEi (stage : LineStage)
  | checkCts
  -- `readi`
  | readiDi
  | readiSelect5
  | readiValue5
  | readiSelect1
  | readiValue1
  | readiEi
  deriving DecidableEq, Repr

/-- Routines of the main line. -/
inductive Call
  | read (reader : Reader)
  | conin
  | write (c : Byte)
  | linsel (line : Byte)
  | readi
  deriving DecidableEq, Repr

/-- The first access of a routine. -/
def Call.entry : Call → Pc
  | .read reader => .waitTail reader
  | .conin => .pollTail
  | .write c => .waitReady c
  | .linsel line => .selectRr1 line
  | .readi => .readiDi

/-- The value the line selector writes. -/
def LineStage.val : LineStage → Byte
  | .release _ => 0x00#8
  | .rts line => line <<< 1
  | .dtr line => (line <<< 1) ||| 0x80#8
  | .giveUp => 0x00#8

/-- What follows a write of the line selector. -/
def LineStage.next : LineStage → Pc
  | .release line => if line = 0#8 then .idle else .lineDi (.rts line)
  | .rts line => .lineDi (.dtr line)
  | .dtr _ => .checkCts
  | .giveUp => .idle

/-- What a write to the control port is meant for. -/
inductive Target
  | select
  | register (r : Nat)
  | command
  deriving DecidableEq, Repr

/-- A write to the control port: what it was meant for, and the register it
reached. -/
structure Write where
  target : Target
  reached : Nat
  val : Byte
  deriving DecidableEq, Repr

/-- The register it is meant for; a select goes to `WR0`, as a command does. -/
def Target.goal : Target → Nat
  | .select => 0
  | .register r => r
  | .command => 0

/-- The write reached what it was meant for. -/
def Write.Untorn (w : Write) : Prop := w.reached = w.target.goal

instance Write.Untorn.decidable (w : Write) : Decidable w.Untorn :=
  inferInstanceAs (Decidable (_ = _))

/-- A byte written to the data port, and `WR5` at that moment. -/
structure Sent where
  c : Byte
  wr5 : Byte
  deriving DecidableEq, Repr

structure Channel where
  rxbuf : Byte → Byte
  rxhead : Byte
  rxtail : Byte
  txReady : Bool
  rr0 : Byte
  rr1 : Byte
  /-- The registers of the channel. -/
  wr : Nat → Byte
  pointer : Nat
  /-- Interrupts are enabled. -/
  ie : Bool
  pc : Pc
  /-- Writes to the control port, newest first. -/
  writes : List Write
  /-- Bytes written to the data port, newest first. -/
  sent : List Sent
  /-- Bytes taken by the receive interrupt, newest first. -/
  received : List Byte
  /-- Bytes returned by the readers, newest first. -/
  returned : List Byte
  /-- The line selector was the last to write `WR5`. -/
  lineSelected : Bool

namespace Channel

/-! ### Ports -/

/-- A write to the control port. -/
def out (target : Target) (val : Byte) (s : Channel) : Channel :=
  if s.pointer = 0 then
    { s with
      pointer := val.toNat % 8
      wr := Function.update s.wr 0 val
      writes := ⟨target, 0, val⟩ :: s.writes }
  else
    { s with
      pointer := 0
      wr := Function.update s.wr s.pointer val
      writes := ⟨target, s.pointer, val⟩ :: s.writes }

/-- A read of the control port. -/
def inp (s : Channel) : Channel := { s with pointer := 0 }

/-- Select a register, write its value. -/
def writeRegister (r : Nat) (val : Byte) (s : Channel) : Channel :=
  (s.out .select (BitVec.ofNat 8 r)).out (.register r) val

/-! ### Interrupt handlers -/

/-- `isr_sio_a_tx`, `isr_sio_b_tx` -/
def isrTx (s : Channel) : Channel := { s.out .command 0x28#8 with txReady := true }

/-- `isr_sio_a_ext`, `isr_sio_b_ext`; `val` is what the port reads. -/
def isrExt (val : Byte) (s : Channel) : Channel :=
  ({ s.inp with rr0 := val }).out .command 0x10#8

/-- Pause the sender. -/
def deassertRts (config : Config) (s : Channel) : Channel :=
  { s.writeRegister 5 config.rtsOff with lineSelected := false }

/-- `isr_sio_a_rx`, `isr_sio_b_rx` -/
def isrRx (config : Config) (ch : Byte) (s : Channel) : Channel :=
  let s := { s with received := ch :: s.received }
  let newHead := s.rxhead + 1#8
  if newHead = s.rxtail then s.deassertRts config
  else
    let s := { s with rxbuf := Function.update s.rxbuf s.rxhead ch, rxhead := newHead }
    let used := newHead - s.rxtail
    if used.toNat < 248 then s else s.deassertRts config

/-- `isr_sio_a_spec`, `isr_sio_b_spec`; `val` is what the port reads. -/
def isrSpec (val : Byte) (s : Channel) : Channel :=
  let s := { (s.out .select 0x01#8).inp with rr1 := val }
  { s.out .command 0x30#8 with rxhead := 0#8, rxtail := 0#8 }

/-! ### The main line -/

/-- The next access of the main line; `val` is what a read of the control port
returns. -/
def main (config : Config) (val : Byte) (s : Channel) : Channel :=
  match s.pc with
  | .idle => s
  | .pollTail => { s with pc := .pollHead s.rxtail }
  | .pollHead tail => { s with pc := if tail = s.rxhead then .pollTail else .waitTail .flow }
  | .waitTail reader => { s with pc := .waitHead reader s.rxtail }
  | .waitHead reader tail =>
      { s with pc := if tail = s.rxhead then .waitTail reader else .loadTail reader }
  | .loadTail reader => { s with pc := .loadIndex reader (s.rxtail + 1#8) }
  | .loadIndex reader newTail => { s with pc := .loadByte reader newTail s.rxtail }
  | .loadByte reader newTail index =>
      { s with pc := .storeTail reader newTail (s.rxbuf index) }
  | .storeTail .flow newTail ch => { s with rxtail := newTail, pc := .compareHead newTail ch }
  | .storeTail .plain newTail ch =>
      { s with rxtail := newTail, returned := ch :: s.returned, pc := .idle }
  | .compareHead newTail ch =>
      if newTail = s.rxhead then { s with pc := .selectRts ch }
      else { s with returned := ch :: s.returned, pc := .idle }
  | .selectRts ch => { s.out .select 0x05#8 with pc := .valueRts ch }
  | .valueRts ch =>
      { s.out (.register 5) config.rtsOn with
        returned := ch :: s.returned
        lineSelected := false
        pc := .idle }
  | .waitReady c => { s with pc := if s.txReady then .outDi c else .waitReady c }
  | .outDi c => { s with ie := false, pc := .markBusy c }
  | .markBusy c => { s with txReady := false, pc := .outData c }
  | .outData c => { s with sent := ⟨c, s.wr 5⟩ :: s.sent, pc := .outEi }
  | .outEi => { s with ie := true, pc := .idle }
  | .selectRr1 line => { s.out .select 0x01#8 with pc := .readRr1 line }
  | .readRr1 line =>
      { s.inp with
        pc := if val &&& 0x01#8 = 0#8 then .selectRr1 line else .lineDi (.release line) }
  | .lineDi stage => { s with ie := false, pc := .lineSelect stage }
  | .lineSelect stage => { s.out .select 0x05#8 with pc := .lineValue stage }
  | .lineValue stage =>
      { s.out (.register 5) stage.val with lineSelected := true, pc := .lineEi stage }
  | .lineEi stage => { s with ie := true, pc := stage.next }
  | .checkCts => { s with pc := if s.rr0 &&& 0x20#8 = 0#8 then .lineDi .giveUp else .idle }
  | .readiDi => { s with ie := false, pc := .readiSelect5 }
  | .readiSelect5 => { s.out .select 0x05#8 with pc := .readiValue5 }
  | .readiValue5 =>
      { s.out (.register 5) config.rtsOn with lineSelected := false, pc := .readiSelect1 }
  | .readiSelect1 => { s.out .select 0x01#8 with pc := .readiValue1 }
  | .readiValue1 => { s.out (.register 1) config.wr1 with pc := .readiEi }
  | .readiEi => { s with ie := true, pc := .idle }

/-! ### Runs -/

/-- Events: the main line calls a routine or goes on, or an interrupt arrives. -/
inductive Event
  | call (c : Call)
  | main (val : Byte)
  | rx (ch : Byte)
  | spec (val : Byte)
  | tx
  | ext (val : Byte)
  deriving DecidableEq, Repr

/-- An interrupt is taken when interrupts are enabled, and waits otherwise; a
routine is called when no other is in progress. -/
def step (config : Config) (s : Channel) : Event → Channel
  | .call c => if s.pc = .idle then { s with pc := c.entry } else s
  | .main val => s.main config val
  | .rx ch => if s.ie then s.isrRx config ch else s
  | .spec val => if s.ie then s.isrSpec val else s
  | .tx => if s.ie then s.isrTx else s
  | .ext val => if s.ie then s.isrExt val else s

/-- A sequence of events. -/
def run (config : Config) (s : Channel) (events : List Event) : Channel :=
  events.foldl (step config) s

/-- The channel after `readi`, with an empty ring. -/
def start (config : Config) : Channel where
  rxbuf := fun _ => 0#8
  rxhead := 0#8
  rxtail := 0#8
  txReady := true
  rr0 := 0#8
  rr1 := 0#8
  wr := Function.update (Function.update (fun _ => 0#8) 5 config.rtsOn) 1 config.wr1
  pointer := 0
  ie := true
  pc := .idle
  writes := []
  sent := []
  received := []
  returned := []
  lineSelected := false

end Channel

end Serial
end Rc700
