import Rc700.CpNet.Server
import Rc700.Link.Delivery
import Rc700.Link.Exchange

/-!
# One request of SNDMSG at the file server

SNDMSG against `run` of `CPNetServer`, on a line that loses bytes.  When it has returned 0,
`handle_request` has been called with the message and with nothing else; on the port that has
returned to its caller, exactly once (`request_delivered`).

There are no numbers in the frames by which a message or an ACK could be told from another, and
ENQ may be a byte of a message: then the server can take it for the start of a frame, and the
client the answer for that to the message.  Nor do the checksums show every change of the bytes
(`request_not_delivered`).
-/

namespace Rc700
namespace CpNet

open Library Link Snios

/-- The header in five bytes. -/
def headerOf (hdr : List Byte) : Header :=
  ⟨hdr.getD 0 0#8, hdr.getD 1 0#8, hdr.getD 2 0#8, hdr.getD 3 0#8, hdr.getD 4 0#8⟩

def Header.bytes (hdr : Header) : List Byte := [hdr.fmt, hdr.did, hdr.sid, hdr.fnc, hdr.siz]

/-- A call of `handle_request`: what it gives to `send_frame`, or the exception it raises. -/
def answerOf (upper : Nat → Text) (hdr payload : List Byte) (s : Server) : Answer Server :=
  match handleRequest upper (headerOf hdr) payload { s with sent := [] } with
  | .error _ _ => .raises
  | .ok _ s' =>
      match s'.sent with
      | [] => .returns s'
      | frame :: _ => .sends s' frame.hdr.bytes frame.payload

/-- `run` of the file server. -/
abbrev serveAct (upper : Nat → Text) : Serving Server → Act Byte (Serving Server) :=
  Serving.act (answerOf upper)

/-! ### A line that keeps all bytes, or all but one -/

section Undisturbed

variable (port : Port) {σ : Type} (handle : List Byte → List Byte → σ → Answer σ) (v : Serving σ)
  {hdr payload : List Byte} {m : Snios}

/-- What `recv_frame` takes, the loop takes. -/
theorem serving_follows {r r' : Receiver} {turns : List (Turn Byte)}
    (hfollows : Follows Receiver.act r turns r') :
    Follows (Serving.act handle) (v.goOn handle (.receiving r)) turns
      (v.goOn handle (.receiving r')) := by
  refine Follows.lift (f := fun r => v.goOn handle (.receiving r)) (fun r hgoes => ?_) hfollows
  cases r with
  | hunting => rfl
  | within d =>
      cases d with
      | done result => exact absurd rfl hgoes
      | say b d => rfl
      | hear k => rfl

/-- The client has said its message, and the server is about to collect it. -/
theorem undisturbed_said (bc : Word) (state : σ) (hactive : m.netst &&& ACTIVE ≠ 0#8) :
    ∃ l m', LossyRun (Client.act port) (Serving.act handle) (calling port bc m state) 0
        ⟨l, { serving state with stage := .receiving (.within (recvMessage (hdrAt bc m))) },
          messageBytes (payloadAt bc m), []⟩ ∧
      Hears (Client.act port) l [ACK] (settled m') ∧ Returned m' ∧ m'.a = 0x00#8 := by
  obtain ⟨m', -, hsends, hreturned, ha⟩ := client_sends_frame port bc hactive
  obtain ⟨t, hheader, hmessage⟩ := Follows.split [.say [ENQ], .hear [ACK],
    .say (headerBytes (hdrAt bc m)), .hear [ACK]] hsends
  have htakes := @receiver_takes_header (hdrAt bc m) (length_loadAt _ _ _)
  obtain ⟨n, hfirst⟩ := hheader.converse (serving_follows handle (serving state) htakes)
  cases hmessage with
  | say hsaid hrest =>
      obtain ⟨k, hthen⟩ := hsaid.steps (Serving.act handle)
        ((serving state).goOn handle (.receiving (.within (recvMessage (hdrAt bc m))))) [] []
      cases hrest with
      | hear hheard hnil =>
          cases hnil
          exact ⟨_, m', (LossyRun.refl.steps hfirst).steps hthen, hheard, hreturned, ha⟩

/-- **The ACK of the message is lost**: SNDMSG says the frame again, and it is dispatched again.
The port that has no return address of its own for the answer to the message has then taken one of
the caller's. -/
theorem lost_ack_repeats (bc : Word) {state state' : σ} (hactive : m.netst &&& ACTIVE ≠ 0#8)
    (hanswer : handle (hdrAt bc m) (payloadAt bc m) state = .returns state') :
    ∃ m', LossyRun (Client.act port) (Serving.act handle) (calling port bc m state) 1
        ⟨settled m', ((serving state).dispatch handle (hdrAt bc m) (payloadAt bc m)).dispatch handle
          (hdrAt bc m) (payloadAt bc m), [], []⟩ ∧
      m'.place = .returned (if port = .cpnos then 1 else 0) ∧ m'.a = 0x00#8 := by
  obtain ⟨hm, htaken⟩ := sends_sndmsg port bc hactive
  obtain ⟨hspoken, hm₂, htaken₂⟩ := sender_says_message port [] hm
  generalize run port (sndmsg port bc m) [some ACK, some ACK] = m₂ at hspoken hm₂ htaken₂
  have htakes := @receiver_takes_frame (hdrAt bc m) (payloadAt bc m) (length_loadAt _ _ _)
    (length_loadAt _ _ _)
  -- the server takes the message, and says its ACK
  obtain ⟨v, hhears, hanswers⟩ := Follows.split [.hear [ENQ], .say [ACK],
    .hear (headerBytes (hdrAt bc m)), .say [ACK], .hear (messageBytes (payloadAt bc m))]
    (serving_follows handle (serving state) htakes)
  obtain ⟨n, hfirst⟩ := hspoken.converse hhears
  have hserved : (serving state).dispatch handle (hdrAt bc m) (payloadAt bc m) =
      ⟨state', .hunting, [(hdrAt bc m, payloadAt bc m)]⟩ := by
    unfold Serving.dispatch
    simp only [serving, hanswer, List.nil_append]
  cases hanswers with
  | say hsaid hnil =>
      cases hnil
      cases hsaid with
      | cons hact hsaidNil =>
          cases hsaidNil
          have hrun := (LossyRun.refl.steps hfirst).tail (.rightSays hact)
          have hlost := hrun.tail (.lostToLeft (show [] ++ [ACK] = [] ++ ACK :: [] from rfl))
          change LossyRun _ _ _ _ ⟨_, (serving state).dispatch handle (hdrAt bc m)
            (payloadAt bc m), [], []⟩ at hlost
          rw [hserved] at hlost ⊢
          -- SNDMSG hears nothing, and sends ENQ again
          have hwaits := hlost.tail (.leftWaits (settled_act port hm₂.place.1) rfl rfl
            (Listening.silent .hunting))
          obtain ⟨hnext, htaken₃⟩ := sends_feed port hm₂ none
          have hagain : Sends port (hdrAt bc m) (payloadAt bc m) (feed port none m₂)
              ⟨.enq TMRETRY, MAXRETRY - 1#8, m₂.sent ++ [ENQ]⟩ := by
            rw [Sender.hear_silence (.inr rfl), Sender.again,
              if_pos (show MAXRETRY - 1#8 ≠ 0#8 by decide)] at hnext
            exact hnext
          obtain ⟨hsends, hplace, -, -, ha⟩ := sender_sends_frame port m₂.sent hagain
          obtain ⟨k, hsecond⟩ := hsends.converse (serving_follows handle
            ⟨state', .hunting, [(hdrAt bc m, payloadAt bc m)]⟩ htakes)
          refine ⟨_, hwaits.steps hsecond, ?_, ha⟩
          rw [hplace, htaken₃, htaken₂, htaken]
          cases port <;> rfl

end Undisturbed

/-! ### A line that loses bytes -/

/-- **A request is delivered.**  The line may lose any bytes, in both directions; `lost` of them
were on their way to the client.  When SNDMSG has returned 0, `handle_request` has been called
with the message it was given, and with nothing else: once, and once more at most for each byte
of `lost`.  SNDMSG of CP/NOS takes a word of the stack for each time more, and it has returned
to its caller where it has taken none. -/
theorem request_delivered (port : Port) (upper : Nat → Text) (bc : Word) (m : Snios)
    (server : Server) (hheader : ENQ ∉ headerBytes (hdrAt bc m))
    (hmessage : ENQ ∉ messageBytes (payloadAt bc m)) {lost : Nat}
    {line : Net Byte Client (Serving Server)}
    (hrun : LossyRun (Client.act port) (serveAct upper) (calling port bc m server) lost line)
    {word : Nat} (hplace : line.left.machine.place = .returned word)
    (ha : line.left.machine.a = 0x00#8) :
    ∃ n, line.right.dispatched = List.replicate (n + 1) (hdrAt bc m, payloadAt bc m) ∧ n ≤ lost ∧
      (port = .cpnos → n ≤ word) :=
  delivered_once port bc m server hheader hmessage hrun hplace ha

/-- A node with a message at the start of its memory: two bytes for function 0. -/
def node (first second : Byte) : Snios :=
  ⟨0#8, 0#8, 0#8, 0#16, fun p => if p = 4#16 then 1#8 else if p = 5#16 then first
    else if p = 6#16 then second else 0#8, 0#16, 0#8, ACTIVE, 0x70#8, [], 0, .returned 0, []⟩

/-- A node that says that its network is down, to which there is no reply. -/
def networkDown : Snios :=
  { node 0#8 1#8 with mem := Function.update (node 0#8 1#8).mem 3#16 0xFE#8 }

-- the line loses the ACK of the message
theorem request_delivered_node :
    ∃ line, LossyRun (Client.act .cpnos) (serveAct asciiUpper)
        (calling .cpnos 0#16 networkDown emptyServer) 1 line ∧
      line.left.machine.place = .returned 1 ∧ line.left.machine.a = 0x00#8 ∧
      line.right.dispatched = List.replicate 2 ([0#8, 0#8, 0x70#8, 0xFE#8, 1#8], [0#8, 1#8]) := by
  obtain ⟨m', hrun, hplace, ha⟩ := @lost_ack_repeats .cpnos _ (answerOf asciiUpper) networkDown 0#16
    emptyServer _ (by decide) rfl
  obtain ⟨n, hdispatched, hn, -⟩ := request_delivered .cpnos asciiUpper 0#16 networkDown
    emptyServer (by decide) (by decide) hrun hplace ha
  have htwice : n + 1 = 2 := by
    have hlen := congrArg List.length hdispatched
    rw [List.length_replicate] at hlen
    exact hlen.symm
  rw [htwice] at hdispatched
  exact ⟨_, hrun, hplace, ha, hdispatched⟩

/-- **A request that is not delivered.**  SNDMSG returns 0 to its caller.  The line has lost the
STX of a message with ENQ among its bytes, and the message is not dispatched; or it has
exchanged two bytes of a message without ENQ, and another message is dispatched. -/
theorem request_not_delivered :
    (∃ line, LossyRun (Client.act .cpnos) (serveAct asciiUpper)
        (calling .cpnos 0#16 (node 0#8 ENQ) emptyServer) 0 line ∧
      line.left.machine.place = .returned 0 ∧ line.left.machine.a = 0x00#8 ∧
      line.right.dispatched = []) ∧
    ENQ ∉ headerBytes (hdrAt 0#16 (node 0#8 1#8)) ∧
    ENQ ∉ messageBytes (payloadAt 0#16 (node 0#8 1#8)) ∧
    ∃ line, NoisyRun (Client.act .cpnos) (serveAct asciiUpper)
        (calling .cpnos 0#16 (node 0#8 1#8) emptyServer) line ∧
      line.left.machine.place = .returned 0 ∧ line.left.machine.a = 0x00#8 ∧
      payloadAt 0#16 (node 0#8 1#8) = [0#8, 1#8] ∧
      line.right.dispatched = [([0#8, 0#8, 0x70#8, 0#8, 1#8], [1#8, 0#8])] := by
  refine ⟨?_, by decide, by decide, ?_⟩
  · obtain ⟨l, m', hrun, hheard, hreturned, ha⟩ := @undisturbed_said .cpnos _
      (answerOf asciiUpper) (node 0#8 ENQ) 0#16 emptyServer (by decide)
    have hsub : List.Sublist [0#8, ENQ] (messageBytes (payloadAt 0#16 (node 0#8 ENQ))) := by
      decide
    have hlost := LossyRun.losesToRight [] hsub hrun
    -- the server gives up, and takes ENQ for the start of a frame
    have hhears : Hears (serveAct asciiUpper) { serving emptyServer with
        stage := .receiving (.within (recvMessage (hdrAt 0#16 (node 0#8 ENQ)))) } [0#8, ENQ]
        { serving emptyServer with stage := .receiving (.within recvRest) } :=
      .cons rfl (.cons rfl (.nil _))
    have hsaid : Says (serveAct asciiUpper)
        { serving emptyServer with stage := .receiving (.within recvRest) } [ACK]
        { serving emptyServer with stage := .receiving (.within recvHeader) } :=
      .cons rfl (.nil _)
    obtain ⟨n, hfirst⟩ := hhears.steps (Client.act .cpnos) l []
    obtain ⟨k, hthen⟩ := exchange_left hsaid hheard
    exact ⟨_, (hlost.steps hfirst).steps hthen, hreturned.place, ha, rfl⟩
  · obtain ⟨l, m', hrun, hheard, hreturned, ha⟩ := @undisturbed_said .cpnos _
      (answerOf asciiUpper) (node 0#8 1#8) 0#16 emptyServer (by decide)
    have hfirst : messageBytes (payloadAt 0#16 (node 0#8 1#8)) =
        [STX] ++ 0#8 :: [1#8, ETX, 0xFA#8, EOT] := by decide
    have hsecond : [STX] ++ 1#8 :: [1#8, ETX, 0xFA#8, EOT] =
        [STX, 1#8] ++ 1#8 :: [ETX, 0xFA#8, EOT] := rfl
    have hchanged := (hrun.noisy.tail (.changedToRight 1#8 hfirst)).tail
      (.changedToRight 0#8 hsecond)
    -- the checksum is the same
    have htakes := serving_follows (answerOf asciiUpper) (serving emptyServer)
      (@receiver_takes_message [0#8, 0#8, 0x70#8, 0#8, 1#8] [1#8, 0#8] rfl)
    cases htakes with
    | hear hhears hrest =>
        cases hrest with
        | say hsaid hnil =>
            cases hnil
            obtain ⟨n, hfirst⟩ := hhears.steps (Client.act .cpnos) l []
            obtain ⟨k, hthen⟩ := exchange_left hsaid hheard
            exact ⟨_, (hchanged.steps hfirst).steps hthen, hreturned.place, ha, rfl,
              (refusing_dispatch _ _ _ _).1⟩

end CpNet
end Rc700
