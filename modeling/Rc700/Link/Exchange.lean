import Rc700.Link.Parties

/-!
# The round trip of a frame

On a line that loses nothing, with an active client, SNDMSG and `recv_frame` go through
their six exchanges, and so do `send_frame` and RCVMSG.  In both directions the message
arrives as it was sent, and both ends say so (`frames_round_trip`).

Which end goes next is left open, so that this is about every run of the two.
-/

namespace Rc700
namespace Link

open Library Snios

variable (port : Port) {bc : Word} {m : Snios} {hdr payload : List Byte}

/-! ### A request -/

/-- The message in memory, with the number of the node for SID. -/
theorem message_at (hhdr : hdr.length = 5) (hmax : payload.length ≤ 256)
    (hsiz : payload.length = (siz hdr).toNat + 1)
    (hmem : loadAt m.mem bc (5 + payload.length) = hdr ++ payload) :
    hdrAt bc m = hdr.set 2 m.slaveid ∧ payloadAt bc m = payload ∧
      payload.length = (siz (hdr.set 2 m.slaveid)).toNat + 1 := by
  rw [loadAt_append] at hmem
  obtain ⟨hfront, hback⟩ := List.append_inj hmem (by rw [length_loadAt, hhdr])
  have hhdrAt : hdrAt bc m = hdr.set 2 m.slaveid := by
    have htwo : bc + 2#16 = bc + BitVec.ofNat 16 2 := rfl
    rw [hdrAt, htwo, loadAt_update _ _ _ (by decide) (by decide), hfront]
  have hsiz' : siz (hdr.set 2 m.slaveid) = siz hdr := by
    unfold siz
    rw [List.getD_eq_getElem?_getD, List.getD_eq_getElem?_getD,
      List.getElem?_set_ne (by decide)]
  refine ⟨hhdrAt, ?_, hsiz'.symm ▸ hsiz⟩
  rw [payloadAt, hhdrAt, hsiz', ← hsiz, loadAt_update_other]
  · exact hback
  · intro i hi
    bv_omega

/-! ### Turns -/

/-- The turns of the end that sends a frame: it waits for three ACKs. -/
def frameTurns (hdr payload : List Byte) : List (Turn Byte) :=
  [.say [ENQ], .hear [ACK], .say (headerBytes hdr), .hear [ACK], .say (messageBytes payload),
    .hear [ACK]]

/-- A sender that has just sent ENQ says its message, if two ACKs come. -/
theorem sender_says_message (front : List Byte) {d retcnt : Byte}
    (hm : Sends port hdr payload m ⟨.enq d, retcnt, front ++ [ENQ]⟩) :
    Follows (Client.act port) ⟨m, front.length⟩
        [.say [ENQ], .hear [ACK], .say (headerBytes hdr), .hear [ACK], .say (messageBytes payload)]
        (settled (run port m [some ACK, some ACK])) ∧
      Sends port hdr payload (run port m [some ACK, some ACK])
        ⟨.message, retcnt, (run port m [some ACK, some ACK]).sent⟩ ∧
      taken (run port m [some ACK, some ACK]) = taken m := by
  rw [run_cons, run_cons]
  -- ENQ
  have hsent : m.sent = front ++ [ENQ] := hm.carries.sent
  have hsaid := client_said port front [ENQ] hsent
  obtain ⟨hheard₁, hm₁, htaken₁⟩ := client_answered port hm (by simp)
  generalize feed port (some ACK) m = m₁ at hm₁ htaken₁ hheard₁ ⊢
  -- the header
  have hsent₁ : m₁.sent = (front ++ [ENQ]) ++ headerBytes hdr := hm₁.carries.sent
  have hsaid₁ := client_said port (front ++ [ENQ]) _ hsent₁
  have hphase₁ : (Sender.hear hdr payload (some ACK) ⟨.enq d, retcnt, front ++ [ENQ]⟩).phase =
      .header := rfl
  obtain ⟨hheard₂, hm₂, htaken₂⟩ := client_answered port hm₁ (by simp [hphase₁])
  generalize feed port (some ACK) m₁ = m₂ at hm₂ htaken₂ hheard₂ ⊢
  -- the message
  have hsent₂ : m₂.sent = ((front ++ [ENQ]) ++ headerBytes hdr) ++ messageBytes payload :=
    hm₂.carries.sent
  have hsaid₂ := client_said port ((front ++ [ENQ]) ++ headerBytes hdr) _ hsent₂
  have hmessage : Sends port hdr payload m₂ ⟨.message, retcnt, m₂.sent⟩ := by
    rw [hsent₂]
    exact hm₂
  exact ⟨.say hsaid (.hear hheard₁ (.say hsaid₁ (.hear hheard₂ (.say hsaid₂ (.nil _))))), hmessage,
    htaken₂.trans htaken₁⟩

/-- With the third ACK it returns 0. -/
theorem sender_sends_frame (front : List Byte) {d retcnt : Byte}
    (hm : Sends port hdr payload m ⟨.enq d, retcnt, front ++ [ENQ]⟩) :
    let m' := run port m [some ACK, some ACK, some ACK]
    Follows (Client.act port) ⟨m, front.length⟩ (frameTurns hdr payload) (settled m') ∧
      m'.place = .returned (taken m) ∧ m'.popped = taken m + 1 ∧ m'.stack = [] ∧ m'.a = 0x00#8 := by
  intro m'
  obtain ⟨hspoken, hm₂, htaken₂⟩ := sender_says_message port front hm
  obtain ⟨hheard, hm', htaken'⟩ := client_answered port hm₂ (fun a hover => nomatch hover)
  have hlast : m' = feed port (some ACK) (run port m [some ACK, some ACK]) := rfl
  rw [← hlast] at hheard hm' htaken'
  have hsent : m'.sent = (run port m [some ACK, some ACK]).sent := hm'.carries.sent
  rw [← hsent] at hheard
  obtain ⟨⟨word, hplace, hpopped⟩, hstack, ha⟩ := hm'.place
  have hword : word = taken m := by
    rw [← htaken₂, ← htaken', taken, hplace]
  rw [hword] at hplace hpopped
  exact ⟨hspoken.append (.hear hheard (.nil _)), hplace, hpopped, hstack, ha⟩

/-- SNDMSG sends the message, and returns 0. -/
theorem client_sends_frame (bc : Word) (hactive : m.netst &&& ACTIVE ≠ 0#8) :
    ∃ m', m' = run port (sndmsg port bc m) [some ACK, some ACK, some ACK] ∧
      Follows (Client.act port) ⟨sndmsg port bc m, 0⟩
        (frameTurns (hdrAt bc m) (payloadAt bc m)) (settled m') ∧
      Returned m' ∧ m'.a = 0x00#8 := by
  obtain ⟨hm, htaken⟩ := sends_sndmsg port bc hactive
  obtain ⟨hsends, hplace, hpopped, hstack, ha⟩ := sender_sends_frame port [] hm
  rw [htaken] at hplace hpopped
  exact ⟨_, rfl, hsends, ⟨hplace, hstack, hpopped, .inl ha⟩, ha⟩

/-- `recv_frame` takes the header. -/
theorem receiver_takes_header (hlen : hdr.length = 5) :
    Follows Receiver.act .hunting [.hear [ENQ], .say [ACK], .hear (headerBytes hdr), .say [ACK]]
      (.within (recvMessage hdr)) := by
  have hwithin : ∀ d, Receiver.act (.within d) = (Dialogue.act d).map .within := fun _ => rfl
  refine .hear receiver_enq (.say (Says.map hwithin (Dialogue.said_say ACK recvHeader)) ?_)
  refine .hear (Hears.map hwithin (recvHeader_heard hlen)) ?_
  exact .say (Says.map hwithin (Dialogue.said_say ACK (recvMessage hdr))) (.nil _)

/-- It takes the message after it. -/
theorem receiver_takes_message (hplen : payload.length = (siz hdr).toNat + 1) :
    Follows Receiver.act (.within (recvMessage hdr)) [.hear (messageBytes payload), .say [ACK]]
      (.within (.done (some (hdr, payload)))) := by
  have hwithin : ∀ d, Receiver.act (.within d) = (Dialogue.act d).map .within := fun _ => rfl
  refine .hear (Hears.map hwithin (recvMessage_heard hplen)) ?_
  exact .say (Says.map hwithin (Dialogue.said_say ACK (.done (some (hdr, payload))))) (.nil _)

/-- `recv_frame` takes the message. -/
theorem receiver_takes_frame (hlen : hdr.length = 5)
    (hplen : payload.length = (siz hdr).toNat + 1) :
    Follows Receiver.act .hunting ((frameTurns hdr payload).map Turn.dual)
      (.within (.done (some (hdr, payload)))) :=
  (receiver_takes_header hlen).append (receiver_takes_message hplen)

/-- `send_frame` sends the message, and returns True. -/
theorem server_sends_frame (payload : List Byte) (hhdr : hdr.length = 5) :
    Follows Dialogue.act (sendFrame hdr payload) (frameTurns hdr payload) (.done true) := by
  refine .say sendFrame_said (.hear (answered_heard (sayHeader hdr payload)) ?_)
  refine .say (sayHeader_said payload hhdr) (.hear (answered_heard (sayMessage payload)) ?_)
  exact .say sayMessage_said (.hear (answered_heard (.done true)) (.nil _))

/-- RCVMSG takes the message. -/
theorem client_takes_frame (bc : Word) (hactive : m.netst &&& ACTIVE ≠ 0#8)
    (hhdr : hdr.length = 5) (hsiz : payload.length = (siz hdr).toNat + 1) :
    Follows (Client.act port) ⟨rcvmsg port bc m, 0⟩ ((frameTurns hdr payload).map Turn.dual)
      (settled (received port bc m hdr payload)) := by
  let start : Snios := { called m with msgadr := bc, retcnt := MAXRETRY, stack := [.recall] }
  have hstart : rcvmsg port bc m = recv start := if_neg hactive
  have henq : feed port (some ENQ) (recv start) = atHeader bc m := feed_rcvfst port rfl
  have hheard := client_heard (m := recv start) port rfl ENQ
  rw [henq] at hheard
  rw [hstart]
  refine .hear hheard (.say (client_said (m := atHeader bc m) port [] [ACK] rfl) ?_)
  refine .hear (client_header (m := atHeader bc m) port rfl hhdr) ?_
  refine .say (client_said (m := await .stx (sendby ACK { withHeader hdr (atHeader bc m) with
    d := 0#8 })) port [ACK] [ACK] rfl) ?_
  refine .hear (client_message (m := atHeader bc m) port hhdr hsiz) ?_
  exact .say (client_said (m := received port bc m hdr payload) port [ACK, ACK] [ACK] rfl) (.nil _)

/-! ### The two ends -/

/-- **A request** arrives: SNDMSG returns 0, and `recv_frame` the message. -/
theorem request_arrives (hactive : m.netst &&& ACTIVE ≠ 0#8)
    (hlen : (hdrAt bc m).length = 5)
    (hplen : (payloadAt bc m).length = (siz (hdrAt bc m)).toNat + 1) :
    ∃ m', Concludes (NetStep (Client.act port) Receiver.act)
        ⟨⟨sndmsg port bc m, 0⟩, .hunting, [], []⟩
        ⟨settled m', .within (.done (some (hdrAt bc m, payloadAt bc m))), [], []⟩ ∧
      Returned m' ∧ m'.a = 0x00#8 := by
  obtain ⟨m', -, hsends, hreturned, ha⟩ := client_sends_frame port bc hactive
  obtain ⟨n, hrun⟩ := hsends.converse (receiver_takes_frame hlen hplen)
  refine ⟨m', .of_steps NetStep.diamond hrun ?_, hreturned, ha⟩
  exact NetStep.rest (settled_rest port hreturned.place) rfl

/-- **A reply** arrives: `send_frame` returns True, and RCVMSG takes the message. -/
theorem reply_arrives (bc : Word) (hactive : m.netst &&& ACTIVE ≠ 0#8) (hhdr : hdr.length = 5)
    (hsiz : payload.length = (siz hdr).toNat + 1) :
    Concludes (NetStep (Client.act port) Dialogue.act)
        ⟨⟨rcvmsg port bc m, 0⟩, sendFrame hdr payload, [], []⟩
        ⟨settled (received port bc m hdr payload), .done true, [], []⟩ := by
  obtain ⟨n, hrun⟩ := (client_takes_frame port bc hactive hhdr hsiz).converse
    (server_sends_frame payload hhdr)
  exact .of_steps NetStep.diamond hrun (NetStep.rest (settled_rest port rfl) rfl)

/-- The frame with a header and a payload. -/
def frameOf (hdr payload : List Byte) (hhdr : hdr.length = 5)
    (hsiz : payload.length = (siz hdr).toNat + 1) : Frame where
  soh := SOH
  hdr := hdr
  hcs := 0#8 - sumFrom SOH hdr
  stx := STX
  payload := payload
  etx := ETX
  cks := 0#8 - (sumFrom STX payload + ETX)
  eot := EOT
  soh_eq := by decide
  stx_eq := by decide
  etx_eq := by decide
  eot_eq := by decide
  hdr_length := hhdr
  payload_length := hsiz
  hdr_sum := add_checksum _
  payload_sum := add_checksum _

/-! ### Both ways -/

/-- **The round trip of a frame.**  SNDMSG and `recv_frame` end, in every run, with 0 and
with the message; so do `send_frame` and RCVMSG, with True and with the message stored.
The result of RCVMSG is 0 if the message is for this node, or if it has no number yet. -/
theorem frames_round_trip (bc : Word) (m : Snios) (hdr payload : List Byte)
    (hactive : m.netst &&& ACTIVE ≠ 0#8) (hhdr : hdr.length = 5) (hpos : 1 ≤ payload.length)
    (hmax : payload.length ≤ 256) (hsiz : siz hdr = BitVec.ofNat 8 (payload.length - 1)) :
    (loadAt m.mem bc (5 + payload.length) = hdr ++ payload →
      ∃ m', Concludes (NetStep (Client.act port) Receiver.act)
          ⟨⟨sndmsg port bc m, 0⟩, .hunting, [], []⟩
          ⟨settled m', .within (.done (some (hdr.set 2 m.slaveid, payload))), [], []⟩ ∧
        Returned m' ∧ m'.a = 0x00#8) ∧
    ∃ m', Concludes (NetStep (Client.act port) Dialogue.act)
        ⟨⟨rcvmsg port bc m, 0⟩, sendFrame hdr payload, [], []⟩
        ⟨settled m', .done true, [], []⟩ ∧
      Returned m' ∧ loadAt m'.mem bc (5 + payload.length) = hdr ++ payload ∧
      (∀ x, (∀ i < 5 + payload.length, x ≠ bc + BitVec.ofNat 16 i) → m'.mem x = m.mem x) ∧
      m'.a = if m.slaveid = 0xFF#8 ∨ m.slaveid = hdr.getD 1 0#8 then 0x00#8 else 0xFF#8 := by
  have hlen : payload.length = (siz hdr).toNat + 1 := by
    rw [hsiz, BitVec.toNat_ofNat, Nat.mod_eq_of_lt (by omega)]
    omega
  constructor
  · intro hmem
    obtain ⟨hhdrAt, hpayloadAt, hlen'⟩ := message_at hhdr hmax hlen hmem
    rw [← hhdrAt, ← hpayloadAt] at hlen' ⊢
    refine request_arrives port hactive ?_ hlen'
    rw [hhdrAt, List.length_set, hhdr]
  · obtain ⟨hstored, ha⟩ := received_stores (m := m) port bc (frameOf hdr payload hhdr hlen)
    have hbytes : (hdr ++ payload).length = 5 + payload.length := by
      rw [List.length_append, hhdr]
    refine ⟨received port bc m hdr payload, reply_arrives port bc hactive hhdr hlen,
      accept_returned port rfl rfl, ?_, ?_, ha⟩
    · rw [← hbytes]
      have hfits : (hdr ++ payload).length ≤ 2 ^ 16 := by
        rw [hbytes]
        omega
      exact (congrArg (loadAt · bc _) hstored).trans (loadAt_storeAt _ _ hfits)
    · intro x hx
      rw [← hbytes] at hx
      exact (congrFun hstored x).trans (storeAt_other _ _ hx)

/-- A message of one byte, at the start of a memory of zeros. -/
theorem frames_round_trip_zero :
    ∃ m', Concludes (NetStep (Client.act .cpnos) Receiver.act)
        ⟨⟨sndmsg .cpnos 0#16 ⟨0#8, 0#8, 0#8, 0#16, fun _ => 0#8, 0#16, 0#8, ACTIVE, 0x70#8, [], 0,
          .returned 0, []⟩, 0⟩, .hunting, [], []⟩
        ⟨settled m', .within (.done (some ([0#8, 0#8, 0x70#8, 0#8, 0#8], [0#8]))), [], []⟩ ∧
      Returned m' ∧ m'.a = 0x00#8 :=
  (frames_round_trip .cpnos 0#16 ⟨0#8, 0#8, 0#8, 0#16, fun _ => 0#8, 0#16, 0#8, ACTIVE, 0x70#8, [],
    0, .returned 0, []⟩ [0#8, 0#8, 0#8, 0#8, 0#8] [0#8] (by decide) rfl (by decide) (by decide)
    (by decide)).1 (by decide)

end Link
end Rc700
