import Rc700.CpNet.Session
import Rc700.Link.RawFrames
import Rc700.Netboot.Dispatch

/-!
# The server on the parallel port

`handle` of `cpnet_pio_server.py`.  It reads raw frames from the bridge, answers PING itself, and
every other request either with `dispatch_sndmsg` of `netboot_server.py`, or by way of another
server, to which it speaks as SNIOS does: `upstream_send` and `upstream_recv`.

Behind `run` of `cpnet/server.py` the client cannot tell the proxy from the server
(`proxy_transparent`): the replies are those of `handle_request`, byte for byte, however the
requests come in pieces.  Without a server behind it the replies are those of `dispatch_sndmsg`
(`local_session`).
-/

namespace Rc700
namespace CpNet

open Library Link
open Dialogue (send recv recvMany sendAll)

/-! ### The other server -/

/-- `upstream_send`; there is no result where it raises an exception. -/
def upstreamSend (hdr payload : List Byte) : Dialogue Byte (Option PUnit) := do
  send ENQ
  let some a ← recv | return none
  if a ≠ ACK then return none
  let hcs := -sumFrom SOH hdr
  send SOH
  sendAll hdr
  send hcs
  let some a ← recv | return none
  if a ≠ ACK then return none
  let cks := -(sumFrom STX payload + ETX)
  send STX
  sendAll payload
  send ETX
  send cks
  send EOT
  let some a ← recv | return none
  if a ≠ ACK then return none
  return some ⟨⟩

/-- `upstream_recv`, after the ACK for the header. -/
def upstreamMessage (hdr : List Byte) : Dialogue Byte (Option (List Byte × List Byte)) := do
  let some stx ← recv | return none
  if low7 stx ≠ STX then return none
  let n := (siz hdr).toNat + 1
  let some payload ← recvMany n | return none
  let some etx ← recv | return none
  if low7 etx ≠ ETX then return none
  let some cks ← recv | return none
  let some eot ← recv | return none
  if low7 eot ≠ EOT then return none
  if sumFrom STX payload + ETX + cks ≠ 0#8 then return none
  send ACK
  return some (hdr, payload)

/-- `upstream_recv`, after the ACK for ENQ. -/
def upstreamHeader : Dialogue Byte (Option (List Byte × List Byte)) := do
  let some soh ← recv | return none
  if low7 soh ≠ SOH then return none
  let some hdr ← recvMany 5 | return none
  let some hcs ← recv | return none
  if sumFrom SOH hdr + hcs ≠ 0#8 then return none
  send ACK
  upstreamMessage hdr

/-- `upstream_recv`, after ENQ. -/
def upstreamRest : Dialogue Byte (Option (List Byte × List Byte)) := do
  send ACK
  upstreamHeader

/-! ### The loop -/

def PING_FNC : Byte := 0xC0#8
def PING_BYTE : Byte := 0x50#8
def PONG_BYTE : Byte := 0x4F#8

/-- `handle_ping`; there is no result where it raises an exception. -/
def handlePing (payload : List Byte) : Option (List Byte) :=
  if payload = [] ∨ payload.getD 0 0#8 ≠ PING_BYTE then none else some [PONG_BYTE]

/-- Why the session has ended. -/
inductive Ended
  /-- `recv_scb` -/
  | scb (e : ScbError)
  /-- `handle_ping` -/
  | ping
  /-- `dispatch_sndmsg` -/
  | dispatch
  /-- `upstream_send` or `upstream_recv` -/
  | upstream
  /-- `send_scb`, for a length that is no byte -/
  | length
  deriving DecidableEq, Repr

/-- Where `handle` is when it waits for the other server. -/
inductive BridgeStage
  | sending (d : Dialogue Byte (Option PUnit))
  /-- `upstream_recv` looks for ENQ. -/
  | hunting
  | within (d : Dialogue Byte (Option (List Byte × List Byte)))
  | ended (why : Ended)

structure Bridge where
  /-- What comes from the client. -/
  sock : Socket Byte
  /-- What has been sent to the client, oldest first. -/
  sent : List Byte
  /-- The state of `netboot_server.py`. -/
  netboot : Netboot.State
  stage : BridgeStage

variable (slaveSid : Byte) (upstream : Bool) (host : Netboot.Path → Option (List Byte))

/-- `handle` up to its next wait for the other server.  Each pass of the loop takes a frame from
the client, so that there are no more passes than bytes. -/
def Bridge.proceed : Nat → Bridge → Bridge
  | 0, b => b
  | passes + 1, b =>
      match recvScb slaveSid b.sock with
      | .error e => { b with stage := .ended (.scb e) }
      | .ok ((hdr, payload, _), sock) =>
          let b := { b with sock := sock }
          let fnc := hdr.getD 3 0#8
          if fnc = PING_FNC then
            match handlePing payload with
            | none => { b with stage := .ended .ping }
            | some reply =>
                match sendScb 0x01#8 (hdr.getD 2 0#8) (hdr.getD 1 0#8) PING_FNC reply with
                | none => { b with stage := .ended .length }
                | some frame => proceed passes { b with sent := b.sent ++ frame }
          else if upstream then { b with stage := .sending (upstreamSend hdr payload) }
          else
            match Netboot.dispatchSndmsg host fnc payload b.netboot with
            | (none, netboot) => { b with netboot := netboot, stage := .ended .dispatch }
            | (some reply, netboot) =>
                match sendScb 0x01#8 (hdr.getD 2 0#8) (hdr.getD 1 0#8) fnc reply with
                | none => { b with netboot := netboot, stage := .ended .length }
                | some frame =>
                  proceed passes { b with netboot := netboot, sent := b.sent ++ frame }

/-- `handle`, at the start of its loop. -/
def Bridge.loop (b : Bridge) : Bridge :=
  proceed slaveSid upstream host (b.sock.stream.length + 1) b

/-- The loop goes on when `upstream_send` or `upstream_recv` has returned. -/
def Bridge.goOn (stage : BridgeStage) (b : Bridge) : Bridge :=
  match stage with
  | .sending (.done none) => { b with stage := .ended .upstream }
  | .sending (.done (some _)) => { b with stage := .hunting }
  | .within (.done none) => { b with stage := .ended .upstream }
  | .within (.done (some (hdr, payload))) =>
      match sendScb (hdr.getD 0 0#8) (hdr.getD 1 0#8) (hdr.getD 2 0#8) (hdr.getD 3 0#8) payload with
      | none => { b with stage := .ended .length }
      | some frame =>
          loop slaveSid upstream host { b with sent := b.sent ++ frame, stage := .hunting }
  | stage => { b with stage := stage }

/-- `handle`, at the other server's line. -/
def Bridge.act (b : Bridge) : Act Byte Bridge :=
  match b.stage with
  | .sending d => (Dialogue.act d).map fun d => b.goOn slaveSid upstream host (.sending d)
  | .hunting => .hear fun
      | none => { b with stage := .ended .upstream }
      | some c => if low7 c = ENQ then { b with stage := .within upstreamRest } else b
  | .within d => (Dialogue.act d).map fun d => b.goOn slaveSid upstream host (.within d)
  | .ended _ => .rest

/-! ### The envelope -/

variable {hdr payload : List Byte}

/-- What the proxy hears next, which has to be an ACK. -/
def acknowledged (d : Dialogue Byte (Option PUnit)) : Dialogue Byte (Option PUnit) := do
  let some a ← recv | return none
  if a ≠ ACK then return none
  d

theorem acknowledged_heard (d : Dialogue Byte (Option PUnit)) :
    Hears Dialogue.act (acknowledged d) [ACK] d :=
  .cons rfl (.nil _)

/-- `upstream_send`, after the ACK for the header. -/
def upstreamSendMessage (payload : List Byte) : Dialogue Byte (Option PUnit) := do
  send STX
  sendAll payload
  send ETX
  send (-(sumFrom STX payload + ETX))
  send EOT
  acknowledged (return some ⟨⟩)

/-- `upstream_send`, after the ACK for ENQ. -/
def upstreamSendHeader (hdr payload : List Byte) : Dialogue Byte (Option PUnit) := do
  send SOH
  sendAll hdr
  send (-sumFrom SOH hdr)
  acknowledged (upstreamSendMessage payload)

/-- `upstream_send` sends a frame. -/
theorem upstreamSend_follows (hdr payload : List Byte) :
    Follows Dialogue.act (upstreamSend hdr payload) (frameTurns hdr payload)
      (.done (some ⟨⟩)) := by
  have henq : Says Dialogue.act (upstreamSend hdr payload) [ENQ]
      (acknowledged (upstreamSendHeader hdr payload)) := .cons rfl (.nil _)
  have hheader : Says Dialogue.act (upstreamSendHeader hdr payload) (headerBytes hdr)
      (acknowledged (upstreamSendMessage payload)) := by
    unfold upstreamSendHeader
    rw [← BitVec.zero_sub]
    refine Says.cons rfl ((Dialogue.said_sendAll hdr _).append ?_)
    exact .cons rfl (.nil _)
  have hmessage : Says Dialogue.act (upstreamSendMessage payload) (messageBytes payload)
      (acknowledged (.done (some ⟨⟩))) := by
    unfold upstreamSendMessage
    rw [← BitVec.zero_sub]
    refine Says.cons rfl ((Dialogue.said_sendAll payload _).append ?_)
    exact .cons rfl (.cons rfl (.cons rfl (.nil _)))
  refine .say henq (.hear (acknowledged_heard _) (.say hheader ?_))
  exact .hear (acknowledged_heard _) (.say hmessage (.hear (acknowledged_heard _) (.nil _)))

theorem upstreamHeader_heard (hlen : hdr.length = 5) :
    Hears Dialogue.act upstreamHeader (headerBytes hdr) (.say ACK (upstreamMessage hdr)) := by
  have hsoh : low7 SOH = SOH := by decide
  have hsum : sumFrom SOH hdr + (0#8 - sumFrom SOH hdr) = 0#8 := add_checksum _
  unfold upstreamHeader
  simp only [Dialogue.bind_eq, Dialogue.pure_eq, Dialogue.send_bind, Dialogue.recv_bind]
  refine Hears.cons rfl ?_
  dsimp only
  rw [if_neg (not_not_intro hsoh), ← hlen]
  refine (Dialogue.heard_recvMany hdr _).append (Hears.cons rfl ?_)
  dsimp only
  rw [if_neg (not_not_intro hsum)]
  exact .nil _

theorem upstreamMessage_heard (hplen : payload.length = (siz hdr).toNat + 1) :
    Hears Dialogue.act (upstreamMessage hdr) (messageBytes payload)
      (.say ACK (.done (some (hdr, payload)))) := by
  have hstx : low7 STX = STX := by decide
  have hetx : low7 ETX = ETX := by decide
  have heot : low7 EOT = EOT := by decide
  have hsum : sumFrom STX payload + ETX + (0#8 - (sumFrom STX payload + ETX)) = 0#8 :=
    add_checksum _
  unfold upstreamMessage
  simp only [Dialogue.bind_eq, Dialogue.pure_eq, Dialogue.send_bind, Dialogue.recv_bind]
  refine Hears.cons rfl ?_
  dsimp only
  rw [if_neg (not_not_intro hstx), ← hplen]
  refine (Dialogue.heard_recvMany payload _).append (Hears.cons rfl ?_)
  dsimp only
  rw [if_neg (not_not_intro hetx)]
  refine Hears.cons rfl (Hears.cons rfl ?_)
  dsimp only
  rw [if_neg (not_not_intro heot), if_neg (not_not_intro hsum)]
  exact .nil _

/-- `upstream_recv` takes a frame, after ENQ. -/
theorem upstreamRest_follows (hlen : hdr.length = 5)
    (hplen : payload.length = (siz hdr).toNat + 1) :
    Follows Dialogue.act upstreamRest [.say [ACK], .hear (headerBytes hdr), .say [ACK],
      .hear (messageBytes payload), .say [ACK]] (.done (some (hdr, payload))) := by
  refine .say (Dialogue.said_say ACK upstreamHeader) (.hear (upstreamHeader_heard hlen) ?_)
  refine .say (Dialogue.said_say ACK (upstreamMessage hdr)) (.hear (upstreamMessage_heard hplen) ?_)
  exact .say (Dialogue.said_say ACK _) (.nil _)

/-! ### The client's side -/

/-- A request as the client sends it, with or without a byte in front of it. -/
structure PioRequest (slaveSid : Byte) where
  stale : List Byte
  hdr : List Byte
  payload : List Byte
  stale_length : stale.length ≤ 1
  hdr_length : hdr.length = 5
  sid : hdr.getD 2 0#8 = slaveSid
  did : hdr.getD 1 0#8 ≠ slaveSid
  length : payload.length = (siz hdr).toNat + 1

variable {slaveSid} {r : PioRequest slaveSid} {rest : List Byte}

/-- The request on the line. -/
def PioRequest.bytes (r : PioRequest slaveSid) : List Byte :=
  r.stale ++ Pio.checked (r.hdr ++ r.payload)

def PioRequest.fnc (r : PioRequest slaveSid) : Byte := r.hdr.getD 3 0#8

theorem PioRequest.bytes_pos (r : PioRequest slaveSid) : 0 < r.bytes.length := by
  have hlen := r.hdr_length
  rw [bytes, Pio.checked, List.length_append, List.length_append, List.length_append, hlen]
  omega

/-- `recv_scb` reads the request. -/
theorem recvScb_request {sock : Socket Byte} (hstream : sock.stream = r.bytes ++ rest) :
    ∃ cks sock', recvScb slaveSid sock = .ok ((r.hdr, r.payload, cks), sock') ∧
      sock'.stream = rest := by
  obtain ⟨sock', hread, hrest⟩ := recvScb_frame r.stale_length r.hdr_length r.sid r.did r.length
    (sum_checked (r.hdr ++ r.payload)) hstream
  exact ⟨_, sock', hread, hrest⟩

/-- The stream is at its end. -/
theorem recvScb_end (slaveSid : Byte) {sock : Socket Byte} (hstream : sock.stream = []) :
    recvScb slaveSid sock = .error (.closed 6) := by
  obtain ⟨chunks, hnonempty⟩ := sock
  have hnone : chunks = [] := by
    cases chunks with
    | nil => rfl
    | cons chunk chunks =>
        exact absurd (List.append_eq_nil_iff.mp hstream).1 (hnonempty chunk List.mem_cons_self)
  subst hnone
  unfold recvScb Link.recvExact Socket.recvExact
  rfl

/-- The reply with a header and a payload. -/
theorem sendScb_reply {reply : List Byte} (hhdr : hdr.length = 5)
    (hsiz : reply.length = (siz hdr).toNat + 1) :
    Link.sendScb (hdr.getD 0 0#8) (hdr.getD 1 0#8) (hdr.getD 2 0#8) (hdr.getD 3 0#8) reply =
      some (Pio.checked (hdr ++ reply)) := by
  obtain ⟨fmt, did, sid, fnc, n, rfl⟩ : ∃ a b c d e, hdr = [a, b, c, d, e] := by
    match hdr, hhdr with
    | [a, b, c, d, e], _ => exact ⟨a, b, c, d, e, rfl⟩
  have hn : reply.length = n.toNat + 1 := hsiz
  have hlt := n.isLt
  have hne : reply ≠ [] := List.ne_nil_of_length_pos (by omega)
  have hbyte : BitVec.ofNat 8 (reply.length - 1) = n := by
    apply BitVec.eq_of_toNat_eq
    rw [BitVec.toNat_ofNat, hn]
    omega
  unfold Link.sendScb
  simp only [if_neg hne, hbyte]
  exact if_pos (by omega)

/-- PING comes back as PONG. -/
def pong (r : PioRequest slaveSid) : List Byte :=
  Pio.checked ([0x01#8, r.hdr.getD 2 0#8, r.hdr.getD 1 0#8, PING_FNC, 0#8] ++ [PONG_BYTE])

theorem handlePing_pong (hping : handlePing payload ≠ none) :
    handlePing payload = some [PONG_BYTE] := by
  unfold handlePing at hping ⊢
  split
  · rename_i hbad
    rw [if_pos hbad] at hping
    exact absurd rfl hping
  · rfl

/-! ### Behind another server -/

/-- What the proxy sends for a request, and the server after it: nothing is asked for a PING. -/
def proxied (upper : Nat → Text) (r : PioRequest slaveSid) (s : Server) :
    Option (List Byte × Server) :=
  if r.fnc = PING_FNC then if handlePing r.payload = none then none else some (pong r, s)
  else
    match answerOf upper r.hdr r.payload s with
    | .sends s' hdr reply => some (Pio.checked (hdr ++ reply), s')
    | .returns _ => none
    | .raises => none

/-- The frames for all requests, one after the other. -/
def replies {σ : Type} (reply : PioRequest slaveSid → σ → Option (List Byte × σ)) :
    List (PioRequest slaveSid) → σ → Option (List Byte × σ)
  | [], s => some ([], s)
  | r :: rs, s => do
      let (frame, s) ← reply r s
      let (frames, s) ← replies reply rs s
      return (frame ++ frames, s)

theorem replies_cons {σ : Type} {reply : PioRequest slaveSid → σ → Option (List Byte × σ)}
    {rs : List (PioRequest slaveSid)} {s s' : σ} {sent : List Byte}
    (hreplies : replies reply (r :: rs) s = some (sent, s')) :
    ∃ frame frames s₁, reply r s = some (frame, s₁) ∧ replies reply rs s₁ = some (frames, s') ∧
      sent = frame ++ frames := by
  unfold replies at hreplies
  simp only [Option.bind_eq_bind, Option.bind_eq_some_iff, Prod.exists] at hreplies
  obtain ⟨frame, s₁, hfirst, frames, s₂, hrest, hlast⟩ := hreplies
  cases hlast
  exact ⟨frame, frames, s₁, hfirst, hrest, rfl⟩

variable {host} {b : Bridge} {passes : Nat} {upper : Nat → Text} {s s' : Server}

/-- A PING is answered at once. -/
theorem proceed_ping (upstream : Bool) (host : Netboot.Path → Option (List Byte)) (passes : Nat)
    (hping : r.fnc = PING_FNC) (hpayload : handlePing r.payload ≠ none)
    (hstream : b.sock.stream = r.bytes ++ rest) :
    ∃ sock', sock'.stream = rest ∧ Bridge.proceed slaveSid upstream host (passes + 1) b =
      Bridge.proceed slaveSid upstream host passes
        { b with sock := sock', sent := b.sent ++ pong r } := by
  obtain ⟨cks, sock', hread, hrest⟩ := recvScb_request hstream
  refine ⟨sock', hrest, ?_⟩
  have hfnc : r.hdr.getD 3 0#8 = PING_FNC := hping
  have hframe : Link.sendScb 0x01#8 (r.hdr.getD 2 0#8) (r.hdr.getD 1 0#8) PING_FNC [PONG_BYTE] =
      some (pong r) := rfl
  rw [Bridge.proceed, hread]
  simp only [hfnc, if_true, handlePing_pong hpayload, hframe]

/-- Another request goes to the server behind the proxy, and its reply to the client. -/
theorem proxied_follows (host : Netboot.Path → Option (List Byte)) (passes : Nat)
    (hother : r.fnc ≠ PING_FNC) {hdr reply : List Byte}
    (hhdr : hdr.length = 5) (hsiz : reply.length = (siz hdr).toNat + 1)
    (hstream : b.sock.stream = r.bytes ++ rest) :
    ∃ sock', sock'.stream = rest ∧ Follows (Bridge.act slaveSid true host)
      (Bridge.proceed slaveSid true host (passes + 1) b)
      (frameTurns r.hdr r.payload ++ (frameTurns hdr reply).map Turn.dual)
      (Bridge.proceed slaveSid true host (rest.length + 1)
        { b with
          sock := sock'
          sent := b.sent ++ Pio.checked (hdr ++ reply)
          stage := .hunting }) := by
  obtain ⟨cks, sock', hread, hrest⟩ := recvScb_request hstream
  refine ⟨sock', hrest, ?_⟩
  have hfnc : r.hdr.getD 3 0#8 ≠ PING_FNC := hother
  let b₁ : Bridge := { b with sock := sock' }
  have hstart : Bridge.proceed slaveSid true host (passes + 1) b =
      b₁.goOn slaveSid true host (.sending (upstreamSend r.hdr r.payload)) := by
    rw [Bridge.proceed, hread]
    simp only [if_neg hfnc, if_true]
    rfl
  have hrequest : Follows (Bridge.act slaveSid true host)
      (b₁.goOn slaveSid true host (.sending (upstreamSend r.hdr r.payload)))
      (frameTurns r.hdr r.payload) { b₁ with stage := .hunting } := by
    refine Follows.lift (f := fun d => b₁.goOn slaveSid true host (.sending d))
      (fun d hgoes => ?_) (upstreamSend_follows r.hdr r.payload)
    cases d with
    | done a => exact absurd rfl hgoes
    | say c d => rfl
    | hear k => rfl
  have hwithin : Follows (Bridge.act slaveSid true host)
      (b₁.goOn slaveSid true host (.within upstreamRest))
      [.say [ACK], .hear (headerBytes hdr), .say [ACK], .hear (messageBytes reply), .say [ACK]]
      (b₁.goOn slaveSid true host (.within (.done (some (hdr, reply))))) := by
    refine Follows.lift (f := fun d => b₁.goOn slaveSid true host (.within d))
      (fun d hgoes => ?_) (upstreamRest_follows hhdr hsiz)
    cases d with
    | done a => exact absurd rfl hgoes
    | say c d => rfl
    | hear k => rfl
  have hhunts : Follows (Bridge.act slaveSid true host) { b₁ with stage := .hunting }
      (.hear [ENQ] :: [.say [ACK], .hear (headerBytes hdr), .say [ACK], .hear (messageBytes reply),
        .say [ACK]]) (b₁.goOn slaveSid true host (.within (.done (some (hdr, reply))))) := by
    exact Follows.hear (.cons rfl (.nil _)) hwithin
  have hend : b₁.goOn slaveSid true host (.within (.done (some (hdr, reply)))) =
      Bridge.proceed slaveSid true host (rest.length + 1)
        { b₁ with sent := b.sent ++ Pio.checked (hdr ++ reply), stage := .hunting } := by
    unfold Bridge.goOn
    dsimp only
    rw [sendScb_reply hhdr hsiz]
    show Bridge.proceed _ _ _ (sock'.stream.length + 1) _ = _
    rw [hrest]
  rw [hstart, ← hend]
  exact hrequest.append hhunts

/-- What the server is asked for. -/
def forwarded (rs : List (PioRequest slaveSid)) : List (List Byte × List Byte) :=
  (rs.filter fun r => r.fnc ≠ PING_FNC).map fun r => (r.hdr, r.payload)

/-- What is left of the stream is shorter, and there are passes enough. -/
theorem enough_passes {rs : List (PioRequest slaveSid)}
    (hpasses : ((r :: rs).map PioRequest.bytes).flatten.length < passes) :
    ∃ left, passes = left + 1 ∧ (rs.map PioRequest.bytes).flatten.length < left := by
  have hpos := r.bytes_pos
  rw [List.map_cons, List.flatten_cons, List.length_append] at hpasses
  exact ⟨passes - 1, by omega, by omega⟩

/-- **Every request**, one after the other, until the client closes the line. -/
theorem proxied_session (upper : Nat → Text) (host : Netboot.Path → Option (List Byte))
    (rs : List (PioRequest slaveSid)) :
    ∀ {b : Bridge} {s s' : Server} {sent : List Byte} {passes : Nat}
      (ds : List (List Byte × List Byte)),
      b.sock.stream = (rs.map PioRequest.bytes).flatten →
      (rs.map PioRequest.bytes).flatten.length < passes →
      replies (proxied upper) rs s = some (sent, s') →
      ∃ turns sock', Follows (Bridge.act slaveSid true host)
          (Bridge.proceed slaveSid true host passes b) turns
          ⟨sock', b.sent ++ sent, b.netboot, .ended (.scb (.closed 6))⟩ ∧
        Follows (serveAct upper) ⟨s, .hunting, ds⟩ (turns.map Turn.dual)
          ⟨s', .hunting, ds ++ forwarded rs⟩ := by
  induction rs with
  | nil =>
      intro b s s' sent passes ds hstream hpasses hreplies
      cases hreplies
      obtain ⟨left, rfl⟩ := Nat.exists_eq_add_of_lt hpasses
      refine ⟨[], b.sock, ?_, ?_⟩
      · rw [Bridge.proceed, recvScb_end slaveSid hstream, List.append_nil]
        exact .nil _
      · have hnothing : ds ++ forwarded ([] : List (PioRequest slaveSid)) = ds := List.append_nil ds
        rw [hnothing]
        exact .nil _
  | cons r rs ih =>
      intro b s s' sent passes ds hstream hpasses hreplies
      obtain ⟨frame, frames, s₁, hfirst, hrest, rfl⟩ := replies_cons hreplies
      obtain ⟨left, rfl, hleft⟩ := enough_passes hpasses
      rw [List.map_cons, List.flatten_cons] at hstream
      unfold proxied at hfirst
      by_cases hping : r.fnc = PING_FNC
      · -- the proxy answers itself
        rw [if_pos hping] at hfirst
        have hpayload : handlePing r.payload ≠ none := by
          intro hnone
          rw [if_pos hnone] at hfirst
          cases hfirst
        rw [if_neg hpayload] at hfirst
        cases hfirst
        obtain ⟨sock₁, hsock₁, hproceed⟩ := proceed_ping true host left hping hpayload hstream
        obtain ⟨turns, sock', hproxy, hserver⟩ := ih
          (b := { b with sock := sock₁, sent := b.sent ++ pong r }) ds hsock₁ hleft hrest
        have hforwarded : forwarded (r :: rs) = forwarded rs := by
          unfold forwarded
          rw [List.filter_cons_of_neg (by simp [hping])]
        refine ⟨turns, sock', ?_, ?_⟩
        · rw [hproceed, ← List.append_assoc]
          exact hproxy
        · rw [hforwarded]
          exact hserver
      · rw [if_neg hping] at hfirst
        cases hanswer : answerOf upper r.hdr r.payload s with
        | returns s₂ =>
            rw [hanswer] at hfirst
            cases hfirst
        | raises =>
            rw [hanswer] at hfirst
            cases hfirst
        | sends s₂ hdr reply =>
            rw [hanswer] at hfirst
            cases hfirst
            obtain ⟨hhdr, hsiz⟩ := answerOf_sends hanswer
            obtain ⟨sock₁, hsock₁, hexchange⟩ :=
              proxied_follows host left hping hhdr hsiz hstream
            obtain ⟨turns, sock', hproxy, hserver⟩ := ih
              (b := { b with
                sock := sock₁
                sent := b.sent ++ Pio.checked (hdr ++ reply)
                stage := .hunting })
              (ds ++ [(r.hdr, r.payload)]) hsock₁ (Nat.lt_succ_self _) hrest
            have hforwarded : forwarded (r :: rs) = [(r.hdr, r.payload)] ++ forwarded rs := by
              unfold forwarded
              rw [List.filter_cons_of_pos (by simp [hping])]
              rfl
            have hdual : ((frameTurns hdr reply).map Turn.dual).map Turn.dual =
                frameTurns hdr reply := rfl
            have hsent : b.sent ++ (Pio.checked (hdr ++ reply) ++ frames) =
                b.sent ++ Pio.checked (hdr ++ reply) ++ frames := (List.append_assoc _ _ _).symm
            refine ⟨frameTurns r.hdr r.payload ++ (frameTurns hdr reply).map Turn.dual ++ turns,
              sock', hexchange.append ?_, ?_⟩
            · rw [hsent]
              exact hproxy
            · rw [hforwarded, ← List.append_assoc, List.map_append, List.map_append, hdual]
              exact (server_follows ds r.hdr_length r.length hanswer).append hserver

/-- **The proxy is transparent.**  The client sends requests to the proxy, each with or without a
byte in front of it, and the stream comes in pieces of any lengths.  If `handle_request` answers
them all, then in every run of the proxy and of `run` of the file server the client is sent its
replies, byte for byte, in their order, and PONG for each PING; the server is asked for nothing
else, and comes to where `handle_request` comes.  The session ends when the client closes. -/
theorem proxy_transparent (slaveSid : Byte) (upper : Nat → Text)
    (host : Netboot.Path → Option (List Byte)) (rs : List (PioRequest slaveSid))
    (sock : Socket Byte) (netboot : Netboot.State) (s s' : Server) (sent : List Byte)
    (hstream : sock.stream = (rs.map PioRequest.bytes).flatten)
    (hreplies : replies (proxied upper) rs s = some (sent, s')) :
    ∃ sock', Concludes (NetStep (Bridge.act slaveSid true host) (serveAct upper))
      ⟨Bridge.loop slaveSid true host ⟨sock, [], netboot, .hunting⟩, serving s, [], []⟩
      ⟨⟨sock', sent, netboot, .ended (.scb (.closed 6))⟩,
        ⟨s', .hunting, forwarded rs⟩, [], []⟩ := by
  obtain ⟨turns, sock', hproxy, hserver⟩ := proxied_session upper host rs
    (b := ⟨sock, [], netboot, .hunting⟩) [] hstream (Nat.lt_succ_self _) hreplies
  rw [← hstream] at hproxy
  obtain ⟨n, hrun⟩ := hproxy.converse hserver
  exact ⟨sock', .of_steps NetStep.diamond hrun (NetStep.waits rfl rfl)⟩

theorem client_ne : 0#8 ≠ 1#8 := fun heq => Nat.zero_ne_one (congrArg BitVec.toNat heq)

/-- A PING, and a LOGIN with a byte in front of it. -/
def pingThenLogin : List (PioRequest 1#8) :=
  [⟨[], [0#8, 0#8, 1#8, PING_FNC, 0#8], [PING_BYTE], Nat.zero_le 1, rfl, rfl, client_ne, rfl⟩,
    ⟨[0xFF#8], [0#8, 0#8, 1#8, 64#8, 7#8], List.replicate 8 0x2A#8, Nat.le_refl 1, rfl, rfl,
      client_ne, rfl⟩]

/-- A boot server without files. -/
def noFiles : Netboot.State := ⟨∅, ∅, ∅, ⟨none, []⟩, []⟩

/-- PONG, and the reply to LOGIN; the requests come byte by byte. -/
theorem proxy_transparent_login :
    ∃ sock' v, Concludes (NetStep (Bridge.act 1#8 true fun _ => none) (serveAct asciiUpper))
      ⟨Bridge.loop 1#8 true (fun _ => none)
        ⟨Socket.trickle (pingThenLogin.map PioRequest.bytes).flatten, [], noFiles, .hunting⟩,
        serving emptyServer, [], []⟩
      ⟨⟨sock', [1#8, 1#8, 0#8, 0xC0#8, 0#8, 0x4F#8, 0xEF#8, 1#8, 1#8, 0#8, 64#8, 0#8, 0#8, 0xBE#8],
        noFiles, .ended (.scb (.closed 6))⟩, v, [], []⟩ := by
  obtain ⟨s', hreplies⟩ : ∃ s', replies (proxied asciiUpper) pingThenLogin emptyServer =
      some ([1#8, 1#8, 0#8, 0xC0#8, 0#8, 0x4F#8, 0xEF#8, 1#8, 1#8, 0#8, 64#8, 0#8, 0#8, 0xBE#8],
        s') := ⟨_, rfl⟩
  obtain ⟨sock', hconcludes⟩ := proxy_transparent 1#8 asciiUpper (fun _ => none) pingThenLogin
    (Socket.trickle (pingThenLogin.map PioRequest.bytes).flatten) noFiles emptyServer s' _
    (by decide) hreplies
  exact ⟨sock', _, hconcludes⟩

/-! ### Without another server -/

/-- What is sent for a request, and the state of `netboot_server.py` after it. -/
def answeredLocally (host : Netboot.Path → Option (List Byte)) (r : PioRequest slaveSid)
    (t : Netboot.State) : Option (List Byte × Netboot.State) :=
  if r.fnc = PING_FNC then if handlePing r.payload = none then none else some (pong r, t)
  else
    match Netboot.dispatchSndmsg host r.fnc r.payload t with
    | (none, _) => none
    | (some reply, t') =>
        (sendScb 0x01#8 (r.hdr.getD 2 0#8) (r.hdr.getD 1 0#8) r.fnc reply).map (·, t')

/-- Enough passes answer the requests that are left. -/
theorem proceed_local (host : Netboot.Path → Option (List Byte)) (rs : List (PioRequest slaveSid)) :
    ∀ {b : Bridge} {t : Netboot.State} {sent : List Byte} {passes : Nat},
      b.sock.stream = (rs.map PioRequest.bytes).flatten →
      (rs.map PioRequest.bytes).flatten.length < passes →
      replies (answeredLocally host) rs b.netboot = some (sent, t) →
      ∃ sock', Bridge.proceed slaveSid false host passes b =
        ⟨sock', b.sent ++ sent, t, .ended (.scb (.closed 6))⟩ := by
  induction rs with
  | nil =>
      intro b t sent passes hstream hpasses hreplies
      cases hreplies
      obtain ⟨left, rfl⟩ := Nat.exists_eq_add_of_lt hpasses
      refine ⟨b.sock, ?_⟩
      rw [Bridge.proceed, recvScb_end slaveSid hstream, List.append_nil]
  | cons r rs ih =>
      intro b t sent passes hstream hpasses hreplies
      obtain ⟨frame, frames, t₁, hfirst, hrest, rfl⟩ := replies_cons hreplies
      obtain ⟨left, rfl, hleft⟩ := enough_passes hpasses
      rw [List.map_cons, List.flatten_cons] at hstream
      unfold answeredLocally at hfirst
      by_cases hping : r.fnc = PING_FNC
      · rw [if_pos hping] at hfirst
        have hpayload : handlePing r.payload ≠ none := by
          intro hnone
          rw [if_pos hnone] at hfirst
          cases hfirst
        rw [if_neg hpayload] at hfirst
        cases hfirst
        obtain ⟨sock₁, hsock₁, hproceed⟩ := proceed_ping false host left hping hpayload hstream
        obtain ⟨sock', hlocal⟩ := ih (b := { b with sock := sock₁, sent := b.sent ++ pong r })
          hsock₁ hleft hrest
        exact ⟨sock', by rw [hproceed, hlocal, ← List.append_assoc]⟩
      · rw [if_neg hping] at hfirst
        obtain ⟨cks, sock₁, hread, hsock₁⟩ := recvScb_request hstream
        have hfnc : r.hdr.getD 3 0#8 ≠ PING_FNC := hping
        cases hdispatch : Netboot.dispatchSndmsg host r.fnc r.payload b.netboot with
        | mk result t₂ =>
            rw [hdispatch] at hfirst
            cases result with
            | none => cases hfirst
            | some reply =>
                obtain ⟨frame', hframe, heq⟩ := Option.map_eq_some_iff.mp hfirst
                obtain ⟨rfl, rfl⟩ := Prod.mk.inj heq
                obtain ⟨sock', hlocal⟩ := ih
                  (b := { b with sock := sock₁, netboot := t₂, sent := b.sent ++ frame' })
                  hsock₁ hleft hrest
                have hdispatch' :
                    Netboot.dispatchSndmsg host (r.hdr.getD 3 0#8) r.payload b.netboot =
                      (some reply, t₂) := hdispatch
                have hframe' : sendScb 0x01#8 (r.hdr.getD 2 0#8) (r.hdr.getD 1 0#8)
                    (r.hdr.getD 3 0#8) reply = some frame' := hframe
                refine ⟨sock', ?_⟩
                rw [Bridge.proceed, hread]
                simp only [if_neg hfnc, Bool.false_eq_true, if_false, hdispatch', hframe']
                rw [hlocal, ← List.append_assoc]

/-- **A local session.**  The client is sent the replies of `dispatch_sndmsg`, in their order, and
PONG for each PING; the state of `netboot_server.py` is that after all requests, and `handle` ends
where the bytes do. -/
theorem local_session (slaveSid : Byte) (host : Netboot.Path → Option (List Byte))
    (rs : List (PioRequest slaveSid)) (sock : Socket Byte) (s t : Netboot.State) (sent : List Byte)
    (hstream : sock.stream = (rs.map PioRequest.bytes).flatten)
    (hreplies : replies (answeredLocally host) rs s = some (sent, t)) :
    ∃ sock', Bridge.loop slaveSid false host ⟨sock, [], s, .hunting⟩ =
      ⟨sock', sent, t, .ended (.scb (.closed 6))⟩ :=
  proceed_local host rs hstream (by rw [hstream]; exact Nat.lt_succ_self _) hreplies

/-- The same requests, answered here. -/
theorem local_session_login :
    ∃ sock', Bridge.loop 1#8 false (fun _ => none)
        ⟨Socket.trickle (pingThenLogin.map PioRequest.bytes).flatten, [], noFiles, .hunting⟩ =
      ⟨sock', [1#8, 1#8, 0#8, 0xC0#8, 0#8, 0x4F#8, 0xEF#8, 1#8, 1#8, 0#8, 64#8, 0#8, 0#8, 0xBE#8],
        noFiles, .ended (.scb (.closed 6))⟩ :=
  local_session 1#8 (fun _ => none) pingThenLogin _ noFiles noFiles _ (by decide) rfl

end CpNet
end Rc700
