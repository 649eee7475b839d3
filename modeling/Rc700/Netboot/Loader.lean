import Rc700.Library.Buffer
import Rc700.Link.Snios

/-!
# The boot loader

`netboot_mpm` of `cpnos-rom/netboot_mpm.c`, with `cpnet_xact` and what they call.  The code
is cut where SNIOS waits for a byte: `feed` takes it from one such place to the next.

The memory is that of SNIOS.  The display, with the variables of CONOUT, is not part of it:
`shown` is what has been put there.
-/

namespace Rc700
namespace Netboot

open Library Link

/-! ### State -/

/-- Where the linker has put the message buffer, `cfgtbl.fmt`, and the image,
`CPNOS_NDOS_ADDR`, with the bounds that `payload.ld` asserts. -/
structure Layout where
  msg : Word
  ndos : Word
  scratch_start : 0xF524 + 39 ≤ msg.toNat
  scratch_end : msg.toNat + 171 ≤ 0xF621
  ndos_pos : 0 < ndos.toNat
  load_end : ndos.toNat + 0xC80 ≤ 0xEE00

/-- The calls of `cpnet_xact`. -/
inductive Call
  | login
  | openFile
  | readSeq
  | closeFile
  deriving DecidableEq, Repr

/-- The function of a call. -/
def Call.fnc : Call → Byte
  | .login => 64#8
  | .openFile => 15#8
  | .readSeq => 20#8
  | .closeFile => 16#8

/-- The length of the data of a call, less one. -/
def Call.siz : Call → Byte
  | .login => 7#8
  | _ => 36#8

/-- What is put on the display. -/
inductive Shown
  /-- `BOOT_MARK` -/
  | mark (col : Nat) (ch : Char)
  /-- `impl_conout` -/
  | conout (c : Byte)
  deriving DecidableEq, Repr

structure Loader where
  snios : Snios
  /-- The call of `cpnet_xact` that is under way. -/
  call : Call
  /-- It is in `cpnet_recv_msg`, and else in `cpnet_send_msg`. -/
  receiving : Bool
  dma : Word
  shown : List Shown
  /-- What the calls of `cpnet_xact` have returned, oldest first. -/
  results : List (Call × Byte)
  /-- What has been sent before the call of SNIOS that is under way, oldest first. -/
  before : List Byte
  /-- What `netboot_mpm` has returned. -/
  result : Option Word

def FMT : Nat := 0
def SIZ : Nat := 4
def DAT : Nat := 5

/-- `login_pwd` -/
def loginPwd : List Byte := [0x50#8, 0x41#8, 0x53#8, 0x53#8, 0x57#8, 0x4F#8, 0x52#8, 0x44#8]

/-- `FCB_HEAD`: drive A, and the name CPNOS.IMG. -/
def FCB_HEAD : List Byte :=
  [0x01#8, 0x43#8, 0x50#8, 0x4E#8, 0x4F#8, 0x53#8, 0x20#8, 0x20#8, 0x20#8, 0x49#8, 0x4D#8, 0x47#8]

/-- The resident BIOS. -/
def BIOS : Word := 0xEE00#16

variable (L : Layout)

/-- The address of `msg[i]`. -/
def Layout.msgAt (i : Nat) : Word := L.msg + BitVec.ofNat 16 i

namespace Loader

/-! ### What the code does between two calls of SNIOS -/

/-- Bytes are stored from `msg[i]` on. -/
def poke (i : Nat) (bytes : List Byte) (x : Loader) : Loader :=
  { x with snios := { x.snios with mem := storeAt x.snios.mem (L.msgAt i) bytes } }

/-- `BOOT_MARK` -/
def bootMark (col : Nat) (ch : Char) (x : Loader) : Loader :=
  { x with shown := x.shown ++ [.mark col ch] }

/-- `impl_conout`, for some bytes. -/
def conout (bytes : List Byte) (x : Loader) : Loader :=
  { x with shown := x.shown ++ bytes.map .conout }

/-- `return` -/
def leave (w : Word) (x : Loader) : Loader := { x with result := some w }

/-- `snios_ntwkin` -/
def ntwkin (x : Loader) : Loader :=
  poke L SIZ [0#8] { x with snios := { x.snios with netst := ACTIVE, a := 0#8 } }

/-- `cpnet_send_msg` -/
def sendMsg (x : Loader) : Loader :=
  { x with
    snios := Snios.sndmsg .cpnos L.msg x.snios
    receiving := false
    before := x.before ++ x.snios.sent }

/-- `cpnet_recv_msg` -/
def recvMsg (x : Loader) : Loader :=
  { x with
    snios := Snios.rcvmsg .cpnos L.msg x.snios
    receiving := true
    before := x.before ++ x.snios.sent }

/-- `cpnet_xact`, up to its first wait. -/
def cpnetXact (call : Call) (x : Loader) : Loader :=
  sendMsg L (poke L FMT [0x00#8, 0x00#8, 0x01#8, call.fnc, call.siz] { x with call := call })

/-- `install_fcb` -/
def installFcb (x : Loader) : Loader := poke L DAT (0x00#8 :: FCB_HEAD) x

/-- `reuse_fcb` -/
def reuseFcb (x : Loader) : Loader := poke L DAT [0x00#8] x

/-- The build stamp at the end of what has been loaded. -/
def stamp (x : Loader) : List Byte :=
  (loadAt x.snios.mem (x.dma - 24#16) 23).takeWhile (· ≠ 0#8)

/-- What follows the loop. -/
def finish (x : Loader) : Loader :=
  let x := conout [0x0D#8, 0x0A#8] (bootMark 13 'E' x)
  let x := conout (stamp x ++ [0x0D#8, 0x0A#8]) x
  cpnetXact L .closeFile (reuseFcb L x)

/-- The rest of the loop, for a record that has been read. -/
def store (x : Loader) : Loader :=
  let x := bootMark 12 'R' x
  let sector := loadAt x.snios.mem (L.msgAt (DAT + 37)) 128
  let x := { x with
    snios := { x.snios with mem := storeAt x.snios.mem x.dma sector }
    dma := x.dma + 128#16 }
  let x := conout [0x2E#8] x
  if x.dma > BIOS then leave 0#16 x else cpnetXact L .readSeq (reuseFcb L x)

/-- What `netboot_mpm` does with what `cpnet_xact` returns. -/
def answered (rc : Byte) (x : Loader) : Loader :=
  match x.call with
  | .login =>
      if rc ≠ 0#8 then leave 0#16 x
      else cpnetXact L .openFile (installFcb L (bootMark 10 'L' x))
  | .openFile =>
      if rc ≥ 4#8 then leave 0#16 x
      else cpnetXact L .readSeq (reuseFcb L { bootMark 11 'O' x with dma := L.ndos })
  | .readSeq =>
      if rc = 1#8 then finish L x
      else if rc ≠ 0#8 then leave 0#16 x
      else store L x
  | .closeFile => leave L.ndos (bootMark 14 'C' x)

/-- `cpnet_xact` returns. -/
def xactDone (rc : Byte) (x : Loader) : Loader :=
  answered L rc { x with results := x.results ++ [(x.call, rc)] }

/-- SNIOS has returned to `cpnet_xact`. -/
def resume (x : Loader) : Loader :=
  if x.snios.a ≠ 0#8 then xactDone L 0xFE#8 x
  else if x.receiving then xactDone L (x.snios.mem (L.msgAt DAT)) x
  else recvMsg L x

/-- The code goes on while SNIOS returns at once.  It does so only if it is not active, and
as `cpnet_xact` then fails, at most twice in a row.  Nothing is known of the code after a
return to another word of the stack. -/
def goOn : Nat → Loader → Loader
  | 0, x => x
  | n + 1, x =>
      match x.result, x.snios.place with
      | none, .returned 0 => goOn n (resume L x)
      | _, _ => x

/-! ### Running -/

/-- The code goes on with what comes. -/
def feed (x : Loader) (b : Option Byte) : Loader :=
  goOn L 3 { x with snios := Snios.feed .cpnos b x.snios }

def run (x : Loader) (bs : List (Option Byte)) : Loader := bs.foldl (feed L) x

/-- `netboot_mpm`, up to its first wait. -/
def netbootMpm (m : Snios) : Loader :=
  let x : Loader := ⟨{ m with sent := [] }, .login, false, 0#16, [], [], [], none⟩
  let x := ntwkin L (bootMark 8 'N' x)
  if x.snios.a ≠ 0#8 then leave 0#16 x
  else goOn L 3 (cpnetXact L .login (poke L DAT loginPwd (bootMark 9 'I' x)))

end Loader

end Netboot
end Rc700
