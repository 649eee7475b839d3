import Rc700.Library.Buffer
import Rc700.Link.Frame

/-!
# The client's end of the line

SNDMSG and RCVMSG of the two ports of SNIOS, `cpnos-rom/snios.s` and `cpnet/snios.asm`.
The code is cut where it waits for a byte, in `RECVBT` or `RECVBY`: `feed` takes it from
one such place to the next, with what comes, a byte or nothing in time.  `RECVBY` waits
on if nothing comes.

A stack holds the return addresses of `CALL CHKACK`, `CALL GETACK` and `CALL RECV`, which
the code also discards with `POP HL`; the other calls only return, and are functions here.
Below it is the stack of the caller: `popped` counts the words that have been taken off it,
of which word 0 is the return address of the caller.

Registers are kept while they are live, and BC is an argument.  The message is somewhere
else in memory than the variables and the stack.
-/

namespace Rc700
namespace Link

open Library

/-! ### State -/

inductive Port
  | cpnos
  | cpnet
  deriving DecidableEq, Repr

/-- The return addresses: after `CALL CHKACK`, after `CALL GETACK` for the header, after
`CALL GETACK` for the data, and after `CALL RECV`. -/
inductive Return
  | enqAck
  | headerAck
  | dataAck
  | recall
  deriving DecidableEq, Repr

/-- Where a byte is awaited. -/
inductive Wait
  | enqrsp
  | getack
  | rcvfst
  | soh
  | header
  | hcs
  | stx
  | data
  | etx
  | cks
  | eot
  deriving DecidableEq, Repr

/-- The code waits for a byte, or it has returned to a word of the caller's stack. -/
inductive Place
  | waiting (w : Wait)
  | returned (word : Nat)
  deriving DecidableEq, Repr

structure Snios where
  a : Byte
  d : Byte
  e : Byte
  hl : Word
  mem : Word → Byte
  msgadr : Word
  retcnt : Byte
  netst : Byte
  slaveid : Byte
  stack : List Return
  popped : Nat
  place : Place
  /-- What has been sent, oldest first. -/
  sent : List Byte

def MAXRETRY : Byte := 10#8
def TMRETRY : Byte := 100#8
def ACTIVE : Byte := 0x10#8
def RCVERR : Byte := 0x02#8
def SNDERR : Byte := 0x01#8

/-- How often a loop with `DEC E`, `JR NZ` is passed. -/
def passes (e : Byte) : Nat := (e - 1#8).toNat + 1

namespace Snios

/-- The code waits for a byte. -/
def await (w : Wait) (m : Snios) : Snios := { m with place := .waiting w }

/-! ### Sending -/

/-- `SENDBY` -/
def sendby (b : Byte) (m : Snios) : Snios := { m with sent := m.sent ++ [b] }

/-- `NETOUT`, `PREOUT` -/
def netout (c : Byte) (m : Snios) : Snios := sendby c { m with d := m.d + c }

/-- `MSOLP` -/
def msolp : Nat → Snios → Snios
  | 0, m => m
  | n + 1, m => msolp n (netout (m.mem m.hl) { m with hl := m.hl + 1#16, e := m.e - 1#8 })

/-- `MSGOUT` -/
def msgout (c : Byte) (m : Snios) : Snios :=
  let m := netout c { m with d := 0#8 }
  msolp (passes m.e) m

/-- `SEND`, up to `ENQRSP` -/
def send (m : Snios) : Snios :=
  let m := sendby ENQ { m with hl := m.msgadr }
  await .enqrsp { m with d := TMRETRY }

/-- What follows `CALL CHKACK`: the header. -/
def sendHeader (m : Snios) : Snios :=
  let m := msgout SOH { m with e := 5#8 }
  let m := netout (0#8 - m.d) m
  await .getack { m with stack := .headerAck :: m.stack }

/-- What follows the first `CALL GETACK`: the data.  One port jumps to `GETACK` in the
end, the other calls it. -/
def sendData (port : Port) (m : Snios) : Snios :=
  let m := msgout STX { m with e := m.mem (m.hl - 1#16) + 1#8 }
  let m := netout ETX m
  let m := netout (0#8 - m.d) m
  let m := sendby EOT m
  match port with
  | .cpnos => await .getack m
  | .cpnet => await .getack { m with stack := .dataAck :: m.stack }

/-! ### Returning -/

/-- `POP HL` -/
def pop (m : Snios) : Snios :=
  match m.stack with
  | [] => { m with popped := m.popped + 1 }
  | _ :: stack => { m with stack := stack }

/-- `ERRRTN`, before it returns -/
def errrtn (bit : Byte) (m : Snios) : Snios := { m with netst := m.netst ||| bit, a := 0xFF#8 }

/-- `RECV`, up to `RCVFST` -/
def recv (m : Snios) : Snios := await .rcvfst { m with hl := m.msgadr, d := TMRETRY }

/-- `RET`, with a stack. -/
def retTo (port : Port) : List Return → Snios → Snios
  | [], m => { m with stack := [], popped := m.popped + 1, place := .returned m.popped }
  | .enqAck :: stack, m => sendHeader { m with stack := stack }
  | .headerAck :: stack, m => sendData port { m with stack := stack }
  | .dataAck :: stack, m => retTo port stack m
  | .recall :: stack, m =>
      let m := { m with retcnt := m.retcnt - 1#8 }
      if m.retcnt ≠ 0#8 then recv { m with stack := .recall :: stack }
      else retTo port stack (errrtn RCVERR m)

/-- `RET` -/
def ret (port : Port) (m : Snios) : Snios := retTo port m.stack m

/-- `SNDTMO` -/
def sndtmo (port : Port) (m : Snios) : Snios := ret port (errrtn SNDERR m)

/-- `SNDRET` -/
def sndret (port : Port) (m : Snios) : Snios :=
  let m := pop m
  let m := { m with retcnt := m.retcnt - 1#8 }
  if m.retcnt ≠ 0#8 then send m else sndtmo port m

/-- `CHKACK` -/
def chkack (port : Port) (b : Byte) (m : Snios) : Snios :=
  let m := { m with a := low7 b - ACK }
  if m.a = 0#8 then ret port m else sndret port m

/-! ### Receiving -/

/-- `RCVTMO` -/
def rcvtmo (port : Port) (m : Snios) : Snios := ret port (errrtn RCVERR m)

/-- One pass of `MSGIN`. -/
def msgin (b : Byte) (m : Snios) : Snios :=
  { m with
    mem := Function.update m.mem m.hl b
    hl := m.hl + 1#16
    d := m.d + b
    e := m.e - 1#8 }

/-- `BADCKS` -/
def badcks (port : Port) (m : Snios) : Snios := ret port (sendby NAK m)

/-- What follows a frame that is received: the check of DID, and `SNDACK`. -/
def accept (port : Port) (m : Snios) : Snios :=
  let m := pop m
  let did := m.mem (m.msgadr + 1#16)
  let a := if m.slaveid + 1#8 = 0#8 then 0#8 else if m.slaveid - did = 0#8 then 0#8 else 0xFF#8
  ret port (sendby ACK { m with a := a })

/-! ### Waiting -/

/-- The code goes on from where it waits for a byte. -/
def feed (port : Port) (x : Option Byte) (m : Snios) : Snios :=
  match m.place with
  | .returned _ => m
  | .waiting w =>
      match w, x with
      -- RECVBT
      | .enqrsp, none =>
          let m := { m with d := m.d - 1#8 }
          if m.d ≠ 0#8 then m else sndtmo port m
      | .enqrsp, some b => chkack port b { m with stack := .enqAck :: m.stack }
      | .getack, none => sndret port m
      | .getack, some b => chkack port b m
      | .rcvfst, none =>
          let m := { m with d := m.d - 1#8 }
          if m.d ≠ 0#8 then m else rcvtmo port (pop m)
      | .rcvfst, some b =>
          if low7 b = ENQ then await .soh (sendby ACK m) else recv m
      -- RECVBY
      | _, none => m
      | .soh, some b =>
          if low7 b = SOH then await .header { m with d := low7 b, e := 5#8 } else ret port m
      | .header, some b =>
          let m := msgin b m
          if m.e ≠ 0#8 then m else await .hcs m
      | .hcs, some b =>
          let m := { m with d := m.d + b }
          if m.d ≠ 0#8 then badcks port m else await .stx (sendby ACK m)
      | .stx, some b =>
          if low7 b = STX then
            await .data { m with d := low7 b, e := m.mem (m.hl - 1#16) + 1#8 }
          else ret port m
      | .data, some b =>
          let m := msgin b m
          if m.e ≠ 0#8 then m else await .etx m
      | .etx, some b =>
          if low7 b = ETX then await .cks { m with d := low7 b + m.d } else ret port m
      | .cks, some b => await .eot { m with d := m.d + b }
      | .eot, some b =>
          if low7 b = EOT then
            if m.d ≠ 0#8 then badcks port m else accept port m
          else ret port m

/-- The code goes on with what comes. -/
def run (port : Port) (m : Snios) (xs : List (Option Byte)) : Snios :=
  xs.foldl (fun m x => feed port x m) m

/-! ### Calls -/

/-- The stack of a call. -/
def called (m : Snios) : Snios := { m with stack := [], popped := 0, sent := [] }

/-- `SNDMS0` -/
def sndms0 (bc : Word) (m : Snios) : Snios :=
  send { m with
    msgadr := bc
    mem := Function.update m.mem (bc + 2#16) m.slaveid
    retcnt := MAXRETRY }

/-- `SNDMSG` -/
def sndmsg (port : Port) (bc : Word) (m : Snios) : Snios :=
  let m := called m
  if m.netst &&& ACTIVE = 0#8 then ret port { m with a := 0xFF#8 } else sndms0 bc m

/-- `RCVMS0` -/
def rcvms0 (bc : Word) (m : Snios) : Snios :=
  recv { m with msgadr := bc, retcnt := MAXRETRY, stack := .recall :: m.stack }

/-- `RCVMSG` -/
def rcvmsg (port : Port) (bc : Word) (m : Snios) : Snios :=
  let m := called m
  if m.netst &&& ACTIVE = 0#8 then ret port { m with a := 0xFF#8 } else rcvms0 bc m

end Snios

end Link
end Rc700
