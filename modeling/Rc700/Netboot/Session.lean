import Rc700.Link.Exchange
import Rc700.Netboot.Dispatch

/-!
# The boot server's end of the line

`handle` of `netboot_server.py`, with `snios_recv_sndmsg`, `snios_send_rcvmsg` and what they
call.  A session ends with the first byte that does not come in time, and with the first that is
not as expected, where that is not only warned of: checksums, EOT and the answers of the client are.

A request that is framed as SNDMSG does it is received, and the reply is framed as RCVMSG takes it
(`server_exchange`).
-/

namespace Rc700
namespace Netboot

open Library Link
open Dialogue (send recv recvMany sendAll)

/-- `snios_recv_sndmsg`, after the ACK for the header. -/
def recvData (hdr : List Byte) : Dialogue Byte (Option (List Byte × List Byte)) := do
  let some stx ← recv | return none
  if stx ≠ STX then return none
  let n := (siz hdr).toNat + 1
  let some data ← recvMany n | return none
  let some _etx ← recv | return none
  let some _cks ← recv | return none
  let some _eot ← recv | return none
  send ACK
  return some (hdr, data)

/-- `snios_recv_sndmsg`, after the ACK for ENQ. -/
def recvHdr : Dialogue Byte (Option (List Byte × List Byte)) := do
  let some soh ← recv | return none
  if soh ≠ SOH then return none
  let some hdr ← recvMany 5 | return none
  let some _hcs ← recv | return none
  send ACK
  recvData hdr

/-- `snios_recv_sndmsg`; there is no result where it raises an exception. -/
def sniosRecvSndmsg : Dialogue Byte (Option (List Byte × List Byte)) := do
  let some b ← recv | return none
  if b ≠ ENQ then return none
  send ACK
  recvHdr

/-- The header of a reply. -/
def replyHeader (replyTo data : List Byte) : List Byte :=
  let fmt := 0x01#8
  let did := replyTo.getD 2 0#8
  let sid := 0x00#8
  let fnc := replyTo.getD 3 0#8
  [fmt, did, sid, fnc, BitVec.ofNat 8 (max data.length 1 - 1)]

/-- `snios_send_rcvmsg`, after the answer to the header. -/
def sendData (data : List Byte) : Dialogue Byte (Option PUnit) := do
  send STX
  sendAll data
  send ETX
  send (-(sumFrom STX data + ETX))
  send EOT
  let some _ack ← recv | return none
  return some ⟨⟩

/-- `snios_send_rcvmsg`, after the answer to ENQ.  A length that is no byte raises an
exception. -/
def sendHdr (replyTo data : List Byte) : Dialogue Byte (Option PUnit) := do
  if 256 ≤ max data.length 1 - 1 then return none
  let header := replyHeader replyTo data
  send SOH
  sendAll header
  send (-sumFrom SOH header)
  let some _ack ← recv | return none
  sendData data

/-- `snios_send_rcvmsg` -/
def sniosSendRcvmsg (replyTo data : List Byte) : Dialogue Byte (Option PUnit) := do
  send ENQ
  let some _ack ← recv | return none
  sendHdr replyTo data

variable (host : Path → Option (List Byte))

/-- The reply to a request. -/
def answer (s : State) (hdr data : List Byte) : Dialogue Byte (Option State) := do
  let (some reply, s) := dispatchSndmsg host (hdr.getD 3 0#8) data s | return none
  let some _ ← sniosSendRcvmsg hdr reply | return none
  return some s

/-- One pass of the loop of `handle`: a request, and its reply. -/
def handleOnce (s : State) : Dialogue Byte (Option State) := do
  let some (hdr, data) ← sniosRecvSndmsg | return none
  answer host s hdr data

/-- `handle`: after a request it is ready for the next one, until the session ends. -/
def handleAct : Dialogue Byte (Option State) → Act Byte (Dialogue Byte (Option State))
  | .done none => .rest
  | .done (some s) => (handleOnce host s).act
  | d => d.act

variable {host} {s s' : State} {hdr data : List Byte}

/-! ### Framing -/

theorem recvHdr_heard (hlen : hdr.length = 5) :
    Hears Dialogue.act recvHdr (headerBytes hdr) (.say ACK (recvData hdr)) := by
  unfold recvHdr
  simp only [Dialogue.bind_eq, Dialogue.pure_eq, Dialogue.send_bind, Dialogue.recv_bind]
  refine Hears.cons rfl ?_
  dsimp only
  rw [if_neg (not_not_intro rfl), ← hlen]
  exact (Dialogue.heard_recvMany hdr _).append (.cons rfl (.nil _))

theorem recvData_heard (hdata : data.length = (siz hdr).toNat + 1) :
    Hears Dialogue.act (recvData hdr) (messageBytes data)
      (.say ACK (.done (some (hdr, data)))) := by
  unfold recvData
  simp only [Dialogue.bind_eq, Dialogue.pure_eq, Dialogue.send_bind, Dialogue.recv_bind]
  refine Hears.cons rfl ?_
  dsimp only
  rw [if_neg (not_not_intro rfl), ← hdata]
  refine (Dialogue.heard_recvMany data _).append ?_
  exact .cons rfl (.cons rfl (.cons rfl (.nil _)))

/-- `snios_recv_sndmsg` takes a frame. -/
theorem sniosRecvSndmsg_follows (hlen : hdr.length = 5)
    (hdata : data.length = (siz hdr).toNat + 1) :
    Follows Dialogue.act sniosRecvSndmsg ((frameTurns hdr data).map Turn.dual)
      (.done (some (hdr, data))) := by
  have henq : Hears Dialogue.act sniosRecvSndmsg [ENQ] (.say ACK recvHdr) := .cons rfl (.nil _)
  refine .hear henq (.say (Dialogue.said_say ACK recvHdr) ?_)
  refine .hear (recvHdr_heard hlen) (.say (Dialogue.said_say ACK (recvData hdr)) ?_)
  refine .hear (recvData_heard hdata) (.say (Dialogue.said_say ACK _) (.nil _))

/-- What the server hears next, whatever it is. -/
def ignoring (d : Dialogue Byte (Option PUnit)) : Dialogue Byte (Option PUnit) := do
  let some _ack ← recv | return none
  d

theorem ignoring_heard (d : Dialogue Byte (Option PUnit)) (b : Byte) :
    Hears Dialogue.act (ignoring d) [b] d :=
  .cons rfl (.nil _)

theorem sendHdr_said (hdata : data.length ≤ 256) :
    Says Dialogue.act (sendHdr hdr data) (headerBytes (replyHeader hdr data))
      (ignoring (sendData data)) := by
  have hsmall : ¬ 256 ≤ max data.length 1 - 1 := by omega
  unfold sendHdr
  rw [if_neg hsmall]
  dsimp only
  rw [← BitVec.zero_sub]
  refine Says.cons rfl ((Dialogue.said_sendAll (replyHeader hdr data) _).append ?_)
  exact .cons rfl (.nil _)

theorem sendData_said : Says Dialogue.act (sendData data) (messageBytes data)
    (ignoring (.done (some ⟨⟩))) := by
  unfold sendData
  rw [← BitVec.zero_sub]
  refine Says.cons rfl ((Dialogue.said_sendAll data _).append ?_)
  exact .cons rfl (.cons rfl (.cons rfl (.nil _)))

/-- `snios_send_rcvmsg` sends a frame. -/
theorem sniosSendRcvmsg_follows (hdr : List Byte) (hdata : data.length ≤ 256) :
    Follows Dialogue.act (sniosSendRcvmsg hdr data) (frameTurns (replyHeader hdr data) data)
      (.done (some ⟨⟩)) := by
  have henq : Says Dialogue.act (sniosSendRcvmsg hdr data) [ENQ] (ignoring (sendHdr hdr data)) :=
    .cons rfl (.nil _)
  refine .say henq (.hear (ignoring_heard _ ACK) (.say (sendHdr_said hdata) ?_))
  exact .hear (ignoring_heard _ ACK) (.say sendData_said (.hear (ignoring_heard _ ACK) (.nil _)))

/-! ### A request and its reply -/

/-- A dialogue within the session. -/
theorem follows_bind (host : Path → Option (List Byte)) {α : Type} {d d' : Dialogue Byte α}
    {turns : List (Turn Byte)} (hfollows : Follows Dialogue.act d turns d')
    (k : α → Dialogue Byte (Option State)) :
    Follows (handleAct host) (d.bind k) turns (d'.bind k) := by
  refine Follows.lift (f := fun d => Dialogue.bind d k) (fun d hgoes => ?_) hfollows
  cases d with
  | done a => exact absurd rfl hgoes
  | say b d => rfl
  | hear next => rfl

/-- **A request and its reply**: the server is then ready for the next request. -/
theorem server_exchange {reply : List Byte} (hlen : hdr.length = 5)
    (hdata : data.length = (siz hdr).toNat + 1) (hreply : reply.length ≤ 256)
    (hdispatch : dispatchSndmsg host (hdr.getD 3 0#8) data s = (some reply, s')) :
    Follows (handleAct host) (.done (some s))
      ((frameTurns hdr data).map Turn.dual ++ frameTurns (replyHeader hdr reply) reply)
      (.done (some s')) := by
  have hanswer : answer host s hdr data =
      (sniosSendRcvmsg hdr reply).bind fun r => .done (r.map fun _ => s') := by
    unfold answer
    rw [hdispatch]
    refine congrArg (Dialogue.bind (sniosSendRcvmsg hdr reply)) (funext fun r => ?_)
    cases r with
    | none => rfl
    | some _ => rfl
  have hrequest : Follows (handleAct host) (handleOnce host s)
      ((frameTurns hdr data).map Turn.dual) (answer host s hdr data) := by
    show Follows _ (Dialogue.bind sniosRecvSndmsg _) _ _
    exact follows_bind host (sniosRecvSndmsg_follows hlen hdata) _
  have hsent := follows_bind host (sniosSendRcvmsg_follows hdr hreply)
    fun r => .done (r.map fun _ => s')
  rw [← hanswer] at hsent
  -- the loop goes on with `snios_recv_sndmsg`
  have hsame : handleAct host (.done (some s)) = handleAct host (handleOnce host s) := rfl
  exact (hrequest.append hsent).start hsame

end Netboot
end Rc700
