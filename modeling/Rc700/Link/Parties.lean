import Rc700.Library.Network
import Rc700.Link.Connection
import Rc700.Link.Sending

/-!
# The two ends as parties

The client's end of the line is a machine that first says what it has sent and then hears
what it waits for.  The server's end is a dialogue, before which `recv_frame` waits for ENQ.

Each frame is three exchanges: ENQ, the header and the message, each followed by its ACK.
Here are the six, for each of the four programs that take part in them.
-/

namespace Rc700
namespace Link

open Library Snios

variable (port : Port) {hdr payload : List Byte} {m : Snios} {s : Sender}

/-! ### The client -/

structure Client where
  machine : Snios
  /-- How many of the bytes that the machine has sent are on the line. -/
  said : Nat

def Client.act (c : Client) : Act Byte Client :=
  match c.machine.sent[c.said]? with
  | some b => .say b { c with said := c.said + 1 }
  | none =>
      match c.machine.place with
      | .returned _ => .rest
      | .waiting _ => .hear fun x => { c with machine := feed port x c.machine }

/-- The client, when all that it has sent is on the line. -/
def settled (m : Snios) : Client := ⟨m, m.sent.length⟩

theorem client_said (front bs : List Byte) (hsent : m.sent = front ++ bs) :
    Says (Client.act port) ⟨m, front.length⟩ bs (settled m) := by
  induction bs generalizing front with
  | nil =>
      rw [settled, hsent, List.append_nil]
      exact .nil _
  | cons b bs ih =>
      have hact : Client.act port ⟨m, front.length⟩ = .say b ⟨m, front.length + 1⟩ := by
        have hnext : m.sent[front.length]? = some b := by
          rw [hsent, List.getElem?_append_right (Nat.le_refl _), Nat.sub_self]
          rfl
        unfold Client.act
        rw [hnext]
      have hrest := ih (front ++ [b]) (by rw [hsent, List.append_assoc]; rfl)
      rw [List.length_append] at hrest
      exact .cons hact hrest

theorem settled_act {w : Wait} (hplace : m.place = .waiting w) :
    Client.act port (settled m) = .hear fun x => ⟨feed port x m, m.sent.length⟩ := by
  unfold Client.act settled
  rw [List.getElem?_eq_none (Nat.le_refl _), hplace]

theorem settled_rest {word : Nat} (hplace : m.place = .returned word) :
    Client.act port (settled m) = .rest := by
  unfold Client.act settled
  rw [List.getElem?_eq_none (Nat.le_refl _), hplace]

/-- The client hears a byte, which may make it send something. -/
theorem client_heard {w : Wait} (hplace : m.place = .waiting w) (b : Byte) :
    Hears (Client.act port) (settled m) [b] ⟨feed port (some b) m, m.sent.length⟩ :=
  .cons (settled_act port hplace) (.nil _)

/-- The client hears a byte that does not make it send anything. -/
theorem client_listens {w : Wait} (hplace : m.place = .waiting w) {b : Byte} {m' : Snios}
    (hfeed : feed port (some b) m = m') (hsent : m'.sent = m.sent) {bs : List Byte} {c : Client}
    (hrest : Hears (Client.act port) (settled m') bs c) :
    Hears (Client.act port) (settled m) (b :: bs) c := by
  refine .cons (settled_act port hplace) ?_
  show Hears (Client.act port) ⟨feed port (some b) m, m.sent.length⟩ bs c
  rw [hfeed, ← hsent]
  exact hrest

/-! ### The client sends -/

/-- An ACK takes a sender from one phase to the next. -/
theorem client_answered (hm : Sends port hdr payload m s) (hphase : ∀ a, s.phase ≠ .over a) :
    Hears (Client.act port) (settled m) [ACK] ⟨feed port (some ACK) m, s.sent.length⟩ ∧
      Sends port hdr payload (feed port (some ACK) m) (s.hear hdr payload (some ACK)) ∧
        taken (feed port (some ACK) m) = taken m := by
  obtain ⟨hnext, htaken⟩ := sends_feed port hm (some ACK)
  have hacked : Acked (some ACK) := by decide
  rw [if_neg (fun hslips => hslips.2.2 hacked), Nat.add_zero] at htaken
  refine ⟨?_, hnext, htaken⟩
  rw [← hm.carries.sent]
  have hat := hm.place
  generalize s.phase = phase at hphase hat
  cases phase with
  | enq d => exact client_heard port hat.1 ACK
  | header => exact client_heard port hat.1 ACK
  | message => exact client_heard port hat.1 ACK
  | «over» a => exact absurd rfl (hphase a)

/-! ### The client receives -/

theorem settled_msgin {w next : Wait} (hfeed : FeedsMsgin port w next)
    (hplace : m.place = .waiting w) {bytes : List Byte} (hlen : bytes.length = passes m.e) :
    ∀ {bs : List Byte} {c : Client},
      Hears (Client.act port) (settled (await next (take bytes m))) bs c →
      Hears (Client.act port) (settled m) (bytes ++ bs) c := by
  intro bs c hrest
  -- by induction on the bytes; the register E counts them
  induction bytes generalizing m with
  | nil => exact absurd hlen.symm (Nat.succ_ne_zero _)
  | cons b bytes ih =>
      by_cases hlast : m.e - 1#8 = 0#8
      · -- the last byte
        have hnil : bytes = [] := by
          rw [passes, hlast] at hlen
          exact List.length_eq_zero_iff.mp (Nat.succ_inj.mp hlen)
        subst hnil
        have hzero : (msgin b m).e = 0#8 := hlast
        have hend : feed port (some b) m = await next (msgin b m) := by
          rw [hfeed m b hplace, if_neg (not_not_intro hzero)]
        rw [take_cons, take_nil] at hrest
        exact client_listens port hplace hend rfl hrest
      · have hnonzero : (msgin b m).e ≠ 0#8 := hlast
        have hmore : feed port (some b) m = msgin b m := by
          rw [hfeed m b hplace, if_pos hnonzero]
        have hpasses : bytes.length = passes (msgin b m).e := by
          show bytes.length = passes (m.e - 1#8)
          rw [List.length_cons] at hlen
          unfold passes at hlen ⊢
          bv_omega
        rw [take_cons] at hrest
        exact client_listens port hplace hmore rfl (ih hplace hpasses hrest)

/-- A checksum byte makes the sum zero. -/
theorem add_checksum (sum : Byte) : sum + (0#8 - sum) = 0 := by
  bv_omega

/-- RCVMSG takes the header. -/
theorem client_header (hplace : m.place = .waiting .soh) (hlen : hdr.length = 5) :
    Hears (Client.act port) (settled m) (headerBytes hdr)
      ⟨await .stx (sendby ACK { withHeader hdr m with d := 0#8 }), m.sent.length⟩ := by
  have hsoh : feed port (some SOH) m = await .header { m with d := SOH, e := 5#8 } := by
    unfold feed
    rw [hplace]
    exact if_pos rfl
  have hfive : hdr.length = passes 5#8 := hlen
  have hsum : (await .hcs (withHeader hdr m)).d + (0#8 - sumFrom SOH hdr) = 0#8 :=
    add_checksum (sumFrom SOH hdr)
  have hhcs : feed port (some (0#8 - sumFrom SOH hdr)) (await .hcs (withHeader hdr m)) =
      await .stx (sendby ACK { withHeader hdr m with d := 0#8 }) := by
    show (if (await .hcs (withHeader hdr m)).d + (0#8 - sumFrom SOH hdr) ≠ 0#8 then _ else _) = _
    rw [if_neg (not_not_intro hsum), hsum]
    rfl
  refine client_listens port hplace hsoh rfl ?_
  refine settled_msgin (m := await .header { m with d := SOH, e := 5#8 }) port (feed_header port)
    rfl hfive ?_
  have hlast := client_heard (m := await .hcs (withHeader hdr m)) port rfl (0#8 - sumFrom SOH hdr)
  rw [hhcs] at hlast
  exact hlast

theorem feed_rcvfst (hplace : m.place = .waiting .rcvfst) :
    feed port (some ENQ) m = await .soh (sendby ACK m) := by
  have hlow : low7 ENQ = ENQ := by decide
  unfold feed
  rw [hplace]
  exact if_pos hlow

theorem feed_stx (hplace : m.place = .waiting .stx) :
    feed port (some STX) m =
      await .data { m with d := STX, e := m.mem (m.hl - 1#16) + 1#8 } := by
  have hlow : low7 STX = STX := by decide
  unfold feed
  rw [hplace]
  simp only
  rw [if_pos hlow, hlow]

theorem feed_etx (hplace : m.place = .waiting .etx) :
    feed port (some ETX) m = await .cks { m with d := ETX + m.d } := by
  have hlow : low7 ETX = ETX := by decide
  unfold feed
  rw [hplace]
  simp only
  rw [if_pos hlow, hlow]

theorem feed_eot (hplace : m.place = .waiting .eot) (hd : m.d = 0#8) :
    feed port (some EOT) m = accept port m := by
  have hlow : low7 EOT = EOT := by decide
  unfold feed
  rw [hplace]
  simp only
  rw [if_pos hlow, if_neg (not_not_intro hd)]

/-- RCVMSG takes the message. -/
theorem client_message (hlen : hdr.length = 5) (hplen : payload.length = (siz hdr).toNat + 1) :
    Hears (Client.act port) (settled (await .stx (sendby ACK { withHeader hdr m with d := 0#8 })))
      (messageBytes payload)
      ⟨accept port (withFrame hdr payload m), m.sent.length + 1⟩ := by
  -- E is SIZ + 1, so that SIZ 255 comes out as 256 passes
  have hpasses : payload.length = passes (siz hdr + 1#8) := by
    rw [hplen]
    unfold passes
    bv_omega
  have hstx : feed port (some STX) (await .stx (sendby ACK { withHeader hdr m with d := 0#8 })) =
      await .data { sendby ACK (withHeader hdr m) with d := STX, e := siz hdr + 1#8 } := by
    rw [← withHeader_siz (m := m) hlen]
    exact feed_stx port rfl
  have hetx : feed port (some ETX) (await .etx (withData hdr payload m)) =
      await .cks { withData hdr payload m with d := ETX + sumFrom STX payload } :=
    feed_etx port rfl
  have hsum : ETX + sumFrom STX payload + (0#8 - (sumFrom STX payload + ETX)) = 0#8 := by
    bv_omega
  have hcks : feed port (some (0#8 - (sumFrom STX payload + ETX)))
      (await .cks { withData hdr payload m with d := ETX + sumFrom STX payload }) =
      withFrame hdr payload m := by
    have hd : ∀ d, d = 0#8 →
        await .eot { withData hdr payload m with d := d } = withFrame hdr payload m := by
      rintro d rfl
      rfl
    exact hd _ hsum
  have heot : feed port (some EOT) (withFrame hdr payload m) =
      accept port (withFrame hdr payload m) :=
    feed_eot port rfl rfl
  have hlast := client_heard (m := withFrame hdr payload m) port rfl EOT
  have hcount : (withFrame hdr payload m).sent.length = m.sent.length + 1 :=
    List.length_append
  rw [heot, hcount] at hlast
  have hfront : messageBytes payload = STX :: (payload ++
      [ETX, 0#8 - (sumFrom STX payload + ETX), EOT]) := rfl
  -- the bytes in their order, from STX to EOT
  rw [hfront]
  refine client_listens port rfl hstx rfl ?_
  refine settled_msgin (m := await .data { sendby ACK (withHeader hdr m) with
    d := STX, e := siz hdr + 1#8 }) port (feed_data port) rfl hpasses ?_
  refine client_listens (m := await .etx (withData hdr payload m)) port rfl hetx rfl ?_
  exact client_listens port rfl hcks rfl hlast

/-! ### The server receives -/

/-- `recv_frame`: it waits for ENQ, or is within a frame. -/
inductive Receiver
  | hunting
  | within (d : Dialogue Byte (Option (List Byte × List Byte)))

def Receiver.act : Receiver → Act Byte Receiver
  | .hunting => .hear fun
      | none => .hunting
      | some b => if b = ENQ then .within recvRest else .hunting
  | .within d => d.act.map .within

section

open Dialogue (send recv recvMany)

/-- `recv_frame`, after the ACK for the header. -/
def recvMessage (hdr : List Byte) : Dialogue Byte (Option (List Byte × List Byte)) := do
  let some b ← recv | return none
  if low7 b ≠ STX then return none
  let cks := low7 b
  let payloadLen := (siz hdr).toNat + 1
  let some payload ← recvMany payloadLen | return none
  let cks := sumFrom cks payload
  let some b ← recv | return none
  if low7 b ≠ ETX then return none
  let cks := cks + low7 b
  let some b ← recv | return none
  let cks := cks + b
  let some b ← recv | return none
  if low7 b ≠ EOT then return none
  if cks ≠ 0 then
    send NAK
    return none
  send ACK
  return some (hdr, payload)

/-- `recv_frame`, after the ACK for ENQ. -/
def recvHeader : Dialogue Byte (Option (List Byte × List Byte)) := do
  let some b ← recv | return none
  if low7 b ≠ SOH then return none
  let hcs := low7 b
  let some hdr ← recvMany 5 | return none
  let hcs := sumFrom hcs hdr
  let some b ← recv | return none
  let hcs := hcs + b
  if hcs ≠ 0 then
    send NAK
    return none
  send ACK
  recvMessage hdr

end

theorem recvHeader_heard (hlen : hdr.length = 5) :
    Hears Dialogue.act recvHeader (headerBytes hdr) (.say ACK (recvMessage hdr)) := by
  have hsoh : low7 SOH = SOH := by decide
  have hsum : sumFrom (low7 SOH) hdr + (0#8 - sumFrom SOH hdr) = 0 := add_checksum (sumFrom SOH hdr)
  unfold recvHeader
  simp only [Dialogue.bind_eq, Dialogue.pure_eq, Dialogue.send_bind, Dialogue.recv_bind]
  refine Hears.cons rfl ?_
  dsimp only
  rw [if_neg (not_not_intro hsoh), ← hlen]
  refine (Dialogue.heard_recvMany hdr _).append (Hears.cons rfl ?_)
  dsimp only
  rw [if_neg (not_not_intro hsum)]
  exact .nil _

theorem recvMessage_heard (hplen : payload.length = (siz hdr).toNat + 1) :
    Hears Dialogue.act (recvMessage hdr) (messageBytes payload)
      (.say ACK (.done (some (hdr, payload)))) := by
  have hstx : low7 STX = STX := by decide
  have hetx : low7 ETX = ETX := by decide
  have heot : low7 EOT = EOT := by decide
  have hsum : sumFrom (low7 STX) payload + low7 ETX + (0#8 - (sumFrom STX payload + ETX)) = 0 :=
    add_checksum (sumFrom STX payload + ETX)
  unfold recvMessage
  simp only [Dialogue.bind_eq, Dialogue.pure_eq, Dialogue.send_bind, Dialogue.recv_bind]
  refine Hears.cons rfl ?_
  dsimp only
  rw [if_neg (not_not_intro hstx), ← hplen]
  refine (Dialogue.heard_recvMany payload _).append (Hears.cons rfl ?_)
  dsimp only
  rw [if_neg (not_not_intro hetx)]
  refine Hears.cons rfl (Hears.cons rfl ?_)
  dsimp only
  rw [if_neg (not_not_intro heot), if_neg (not_not_intro hsum)]
  exact .nil _

/-- ENQ starts a frame. -/
theorem receiver_enq : Hears Receiver.act .hunting [ENQ] (.within recvRest) :=
  .cons rfl (.nil _)

/-! ### The server sends -/

section

open Dialogue (send recv sendAll)

/-- After an ACK `send_frame` goes on, and else it gives up. -/
def answered (d : Dialogue Byte Bool) : Dialogue Byte Bool := do
  let some b ← recv | return false
  if low7 b ≠ ACK then return false
  d

/-- `send_frame`, after the ACK for the header. -/
def sayMessage (payload : List Byte) : Dialogue Byte Bool := do
  send STX
  sendAll payload
  send ETX
  send (-(sumFrom STX payload + ETX))
  send EOT
  answered (return true)

/-- `send_frame`, after the ACK for ENQ. -/
def sayHeader (hdr payload : List Byte) : Dialogue Byte Bool := do
  send SOH
  sendAll (hdr.take 5)
  send (-sumFrom SOH (hdr.take 5))
  answered (sayMessage payload)

end

theorem answered_heard (d : Dialogue Byte Bool) : Hears Dialogue.act (answered d) [ACK] d :=
  .cons rfl (.nil _)

theorem sendFrame_said : Says Dialogue.act (sendFrame hdr payload) [ENQ]
    (answered (sayHeader hdr payload)) :=
  .cons rfl (.nil _)

theorem sayHeader_said (payload : List Byte) (hlen : hdr.length = 5) :
    Says Dialogue.act (sayHeader hdr payload) (headerBytes hdr)
      (answered (sayMessage payload)) := by
  have hall : hdr.take 5 = hdr := List.take_of_length_le (Nat.le_of_eq hlen)
  unfold sayHeader
  rw [hall, ← BitVec.zero_sub]
  refine Says.cons rfl ((Dialogue.said_sendAll hdr _).append ?_)
  exact .cons rfl (.nil _)

theorem sayMessage_said :
    Says Dialogue.act (sayMessage payload) (messageBytes payload) (answered (.done true)) := by
  unfold sayMessage
  rw [← BitVec.zero_sub]
  refine Says.cons rfl ((Dialogue.said_sendAll payload _).append ?_)
  exact .cons rfl (.cons rfl (.cons rfl (.nil _)))

end Link
end Rc700
