import Rc700.Library.Socket
import Rc700.Link.Exchange

/-!
# Raw frames on the parallel port

`pio_send_msg` and `pio_recv_msg` of `transport_pio.c`, and `recv_scb` and `send_scb` of
`cpnet_pio_server.py` at the other end.  A frame is the header, the payload and one checksum,
with nothing around it.  A change of direction of the port may leave a byte in front of a
request, which `recv_scb` tells from the place of SID.

Both directions are read as they were sent (`raw_frames_round_trip`).  The longest frame has
256 bytes, which the block instructions take for a count of 0.
-/

namespace Rc700
namespace Link

open Library

/-! ### The port -/

inductive Direction
  | input
  | output
  deriving DecidableEq, Repr

def PIO_MODE_OUTPUT : Byte := 0x0F#8
def PIO_MODE_INPUT : Byte := 0x4F#8
def PIO_IE_DISABLE : Byte := 0x03#8
def PIO_IE_ENABLE : Byte := 0x83#8
def PIO_IE_ENABLE_RESET : Byte := 0x97#8
def PIO_INT_MASK_NONE : Byte := 0x00#8
def PIO_FIRST_BYTE_BUDGET : Nat := 0x4000
def PIO_RX_EMPTY_VAL : Byte := 0xFF#8

structure Pio where
  mem : Word → Byte
  pioBDir : Direction
  /-- What has been written to the control port, oldest first. -/
  control : List Byte
  /-- What has been written to the data port, oldest first. -/
  sent : List Byte
  /-- What the next reads of the data port give, until the bridge is drained. -/
  queue : List Byte

namespace Pio

def portIn (m : Pio) : Byte × Pio :=
  match m.queue with
  | [] => (PIO_RX_EMPTY_VAL, m)
  | b :: queue => (b, { m with queue := queue })

def portOut (b : Byte) (m : Pio) : Pio := { m with sent := m.sent ++ [b] }

def pioBSetOutput (m : Pio) : Pio :=
  if m.pioBDir = .output then m
  else { m with
    control := m.control ++ [PIO_IE_DISABLE, PIO_MODE_OUTPUT]
    pioBDir := .output }

def pioBSetInput (m : Pio) : Pio :=
  if m.pioBDir = .input then m
  else { m with
    control := m.control ++
      [PIO_MODE_INPUT, PIO_IE_ENABLE_RESET, PIO_INT_MASK_NONE, PIO_IE_ENABLE]
    pioBDir := .input }

/-- `OTIR`, for so many bytes. -/
def otir : Nat → Word → Pio → Pio
  | 0, _, m => m
  | n + 1, hl, m => otir n (hl + 1#16) (portOut (m.mem hl) m)

/-- `INIR`, for so many bytes. -/
def inir : Nat → Word → Pio → Pio
  | 0, _, m => m
  | n + 1, hl, m =>
      let (b, m) := portIn m
      inir n (hl + 1#16) { m with mem := Function.update m.mem hl b }

/-! ### The client -/

/-- `pio_send_msg`.  It always returns 0. -/
def pioSendMsg (msg : Word) (m : Pio) : Pio :=
  let m := pioBSetOutput m
  let bodyLen := 6#8 + m.mem (msg + 4#16)
  let cks := sumFrom 0#8 (loadAt m.mem msg bodyLen.toNat)
  let m := { m with mem := Function.update m.mem (msg + BitVec.setWidth 16 bodyLen) (0#8 - cks) }
  otir (passes (bodyLen + 1#8)) msg m

/-- The wait for the first byte. -/
def firstByte : Nat → Pio → Option Byte × Pio
  | 0, m => (none, m)
  | budget + 1, m =>
      let (first, m) := portIn m
      if first ≠ PIO_RX_EMPTY_VAL then (some first, m) else firstByte budget m

/-- `pio_recv_msg`, with its result. -/
def pioRecvMsg (msg : Word) (m : Pio) : Byte × Pio :=
  let m := pioBSetInput m
  match firstByte PIO_FIRST_BYTE_BUDGET m with
  | (none, m) => (0xFF#8, m)
  | (some first, m) =>
      let m := { m with mem := Function.update m.mem msg first }
      let m := inir 4 (msg + 1#16) m
      (0#8, inir (passes (m.mem (msg + 4#16) + 2#8)) (msg + 5#16) m)

end Pio

/-! ### The server -/

/-- What `recv_scb` raises. -/
inductive ScbError
  | closed (missing : Nat)
  | unrecognized (raw : List Byte)
  | checksum (sum : Byte)
  deriving DecidableEq, Repr

/-- `_recv_exact` -/
def recvExact (sock : Socket Byte) (n : Nat) : Except ScbError (List Byte × Socket Byte) :=
  (sock.recvExact n []).mapError .closed

/-- The header, and what was read of the payload with it. -/
def splitRaw (slaveSid : Byte) (raw : List Byte) : Except ScbError (List Byte × List Byte) :=
  if raw.getD 2 0#8 = slaveSid then .ok (raw.take 5, (raw.take 6).drop 5)
  else if raw.getD 3 0#8 = slaveSid then .ok ((raw.take 6).drop 1, [])
  else .error (.unrecognized raw)

/-- `recv_scb` -/
def recvScb (slaveSid : Byte) (sock : Socket Byte) :
    Except ScbError ((List Byte × List Byte × Byte) × Socket Byte) := do
  let (raw, sock) ← recvExact sock 6
  let (hdr, seed) ← splitRaw slaveSid raw
  let nPayload := (siz hdr).toNat + 1
  let nRemaining := nPayload + 1 - seed.length
  let (body, sock) ←
    if 0 < nRemaining then recvExact sock nRemaining else .ok ([], sock)
  let body := seed ++ body
  let payload := body.take nPayload
  let cks := body.getD nPayload 0#8
  let s := sumFrom (sumFrom 0#8 hdr) payload + cks
  if s ≠ 0#8 then .error (.checksum s) else .ok ((hdr, payload, cks), sock)

/-- `send_scb`.  A length that is no byte is an error. -/
def sendScb (fmt did sid fnc : Byte) (payload : List Byte) : Option (List Byte) :=
  let payload := if payload = [] then [0#8] else payload
  let siz := payload.length - 1
  if siz < 256 then
    let hdr := [fmt, did, sid, fnc, BitVec.ofNat 8 siz]
    let body := hdr ++ payload
    some (body ++ [0#8 - sumFrom 0#8 body])
  else none

/-! ### Block instructions -/

namespace Pio

variable {m : Pio}

theorem otir_eq (n : Nat) (hl : Word) (m : Pio) :
    otir n hl m = { m with sent := m.sent ++ loadAt m.mem hl n } := by
  induction n generalizing hl m with
  | zero =>
      rw [otir, loadAt, List.append_nil]
  | succ n ih =>
      rw [otir, ih]
      show { m with sent := m.sent ++ [m.mem hl] ++ loadAt m.mem (hl + 1#16) n } = _
      rw [List.append_assoc]
      rfl

theorem inir_eq {bytes : List Byte} (hl : Word) {rest : List Byte}
    (hqueue : m.queue = bytes ++ rest) :
    inir bytes.length hl m = { m with mem := storeAt m.mem hl bytes, queue := rest } := by
  induction bytes generalizing hl m with
  | nil =>
      rw [List.nil_append] at hqueue
      subst hqueue
      rfl
  | cons b bytes ih =>
      have hread : portIn m = (b, { m with queue := bytes ++ rest }) := by
        unfold portIn
        rw [hqueue]
        rfl
      rw [List.length_cons, inir, hread]
      exact ih (hl + 1#16) rfl

/-- Idle reads are passed over while the budget lasts. -/
theorem firstByte_eq {budget idle : Nat} {b : Byte} {rest : List Byte} (hidle : idle < budget)
    (hb : b ≠ PIO_RX_EMPTY_VAL)
    (hqueue : m.queue = List.replicate idle PIO_RX_EMPTY_VAL ++ b :: rest) :
    firstByte budget m = (some b, { m with queue := rest }) := by
  induction budget generalizing idle m with
  | zero => exact absurd hidle (Nat.not_lt_zero idle)
  | succ budget ih =>
      cases idle with
      | zero =>
          have hread : portIn m = (b, { m with queue := rest }) := by
            unfold portIn
            rw [hqueue]
            rfl
          rw [firstByte, hread]
          exact if_pos hb
      | succ idle =>
          have hread : portIn m = (PIO_RX_EMPTY_VAL,
              { m with queue := List.replicate idle PIO_RX_EMPTY_VAL ++ b :: rest }) := by
            unfold portIn
            rw [hqueue]
            rfl
          rw [firstByte, hread]
          simp only [ne_eq, not_true_eq_false, if_false]
          exact ih (Nat.lt_of_succ_lt_succ hidle) rfl

/-! ### What the client sends and stores -/

theorem pioBSetOutput_mem (m : Pio) : (pioBSetOutput m).mem = m.mem := by
  unfold pioBSetOutput
  split
  · rfl
  · rfl

theorem pioBSetOutput_sent (m : Pio) : (pioBSetOutput m).sent = m.sent := by
  unfold pioBSetOutput
  split
  · rfl
  · rfl

theorem pioBSetInput_mem (m : Pio) : (pioBSetInput m).mem = m.mem := by
  unfold pioBSetInput
  split
  · rfl
  · rfl

theorem pioBSetInput_queue (m : Pio) : (pioBSetInput m).queue = m.queue := by
  unfold pioBSetInput
  split
  · rfl
  · rfl

/-- A body with its checksum. -/
def checked (body : List Byte) : List Byte := body ++ [0#8 - sumFrom 0#8 body]

/-- **`pio_send_msg`** sends the header, the payload and the checksum of both. -/
theorem pioSendMsg_sent (msg : Word) (hsiz : (m.mem (msg + 4#16)).toNat ≤ 249) :
    (pioSendMsg msg m).sent =
      m.sent ++ checked (loadAt m.mem msg (6 + (m.mem (msg + 4#16)).toNat)) := by
  let n := 6 + (m.mem (msg + 4#16)).toNat
  have hbody : (6#8 + m.mem (msg + 4#16)).toNat = n := by
    show _ = 6 + _
    rw [BitVec.toNat_add, BitVec.toNat_ofNat]
    omega
  have hwide : BitVec.setWidth 16 (6#8 + m.mem (msg + 4#16)) = BitVec.ofNat 16 n := by
    apply BitVec.eq_of_toNat_eq
    rw [BitVec.toNat_setWidth, hbody, BitVec.toNat_ofNat]
  have hpasses : passes (6#8 + m.mem (msg + 4#16) + 1#8) = n + 1 := by
    unfold passes
    rw [BitVec.add_sub_cancel, hbody]
  unfold pioSendMsg
  simp only [pioBSetOutput_mem, otir_eq, hbody, hwide, hpasses, pioBSetOutput_sent]
  congr 1
  rw [loadAt_append, loadAt_update_other]
  · rw [loadAt, loadAt, Function.update_self]
    rfl
  · intro i hi heq
    have hnat := congrArg BitVec.toNat ((BitVec.add_right_inj _).mp heq)
    rw [BitVec.toNat_ofNat, BitVec.toNat_ofNat, Nat.mod_eq_of_lt (by omega),
      Nat.mod_eq_of_lt (by omega)] at hnat
    omega

/-- **`pio_recv_msg`** stores a frame that comes within the budget. -/
theorem pioRecvMsg_eq (msg : Word) {idle : Nat} {fmt did sid fnc siz : Byte}
    {body rest : List Byte} (hidle : idle < PIO_FIRST_BYTE_BUDGET) (hfmt : fmt ≠ PIO_RX_EMPTY_VAL)
    (hbody : body.length = siz.toNat + 2) (hmax : siz.toNat ≤ 249)
    (hqueue : m.queue = List.replicate idle PIO_RX_EMPTY_VAL ++
      ([fmt, did, sid, fnc, siz] ++ body ++ rest)) :
    pioRecvMsg msg m = (0#8, { pioBSetInput m with
      mem := storeAt m.mem msg ([fmt, did, sid, fnc, siz] ++ body), queue := rest }) := by
  have hfirst : firstByte PIO_FIRST_BYTE_BUDGET (pioBSetInput m) =
      (some fmt, { pioBSetInput m with queue := [did, sid, fnc, siz] ++ (body ++ rest) }) :=
    firstByte_eq hidle hfmt (by rw [pioBSetInput_queue, hqueue]; rfl)
  unfold pioRecvMsg
  simp only [hfirst, pioBSetInput_mem]
  have hheader := inir_eq (m := { pioBSetInput m with
      mem := Function.update m.mem msg fmt, queue := [did, sid, fnc, siz] ++ (body ++ rest) })
    (msg + 1#16) rfl
  rw [show [did, sid, fnc, siz].length = 4 from rfl] at hheader
  rw [hheader]
  have hstored : storeAt (Function.update m.mem msg fmt) (msg + 1#16) [did, sid, fnc, siz] =
      storeAt m.mem msg [fmt, did, sid, fnc, siz] := rfl
  have hread : storeAt m.mem msg [fmt, did, sid, fnc, siz] (msg + 4#16) = siz :=
    storeAt_self m.mem msg (by simp) (by simp)
  have hpasses : passes (siz + 2#8) = body.length := by
    rw [hbody]
    unfold passes
    bv_omega
  simp only [hstored, hread, hpasses]
  rw [inir_eq (m := { pioBSetInput m with
      mem := storeAt m.mem msg [fmt, did, sid, fnc, siz], queue := body ++ rest }) (msg + 5#16) rfl]
  rw [storeAt_append]
  rfl

end Pio

/-! ### What the server accepts -/

section

variable {slaveSid : Byte} {hdr payload rest : List Byte} {cks : Byte} {sock : Socket Byte}

theorem recvExact_stream {front : List Byte} {n : Nat} (hlen : front.length = n)
    (hstream : sock.stream = front ++ rest) :
    ∃ sock', recvExact sock n = .ok (front, sock') ∧ sock'.stream = rest := by
  have hcount : ([] : List Byte).length + front.length = n := (Nat.zero_add _).trans hlen
  obtain ⟨sock', heq, hrest⟩ := Socket.recvExact_eq hcount hstream
  refine ⟨sock', ?_, hrest⟩
  rw [recvExact, heq]
  rfl

/-- From the split on, the frame is read to its end. -/
theorem recvScb_of_split {raw seed more : List Byte}
    (hraw : raw.length = 6) (hsplit : splitRaw slaveSid raw = .ok (hdr, seed))
    (hbody : seed ++ more = payload ++ [cks]) (hseed : seed.length ≤ 1)
    (hlen : payload.length = (siz hdr).toNat + 1)
    (hsum : sumFrom 0#8 (hdr ++ payload) + cks = 0#8)
    (hstream : sock.stream = raw ++ (more ++ rest)) :
    ∃ sock', recvScb slaveSid sock = .ok ((hdr, payload, cks), sock') ∧ sock'.stream = rest := by
  obtain ⟨sock₁, hfirst, hmore⟩ := recvExact_stream hraw hstream
  have hcount := congrArg List.length hbody
  rw [List.length_append, List.length_append, List.length_singleton, hlen] at hcount
  have hremaining : more.length = (siz hdr).toNat + 1 + 1 - seed.length := by omega
  obtain ⟨sock₂, hsecond, hrest⟩ := recvExact_stream hremaining hmore
  refine ⟨sock₂, ?_, hrest⟩
  have htake : (payload ++ [cks]).take ((siz hdr).toNat + 1) = payload := by
    rw [← hlen, List.take_left]
  have hlast : (payload ++ [cks]).getD ((siz hdr).toNat + 1) 0#8 = cks := by
    rw [← hlen, List.getD_append_right _ _ _ _ (Nat.le_refl _), Nat.sub_self]
    rfl
  unfold recvScb
  rw [hfirst]
  simp only [bind, Except.bind, hsplit]
  rw [if_pos (by omega), hsecond]
  simp only [hbody, htake, hlast]
  rw [← sumFrom_append, hsum]
  rfl

/-- **`recv_scb`** reads a frame, with or without a byte in front of it. -/
theorem recvScb_frame {stale : List Byte} (hstale : stale.length ≤ 1) (hhdr : hdr.length = 5)
    (hsid : hdr.getD 2 0#8 = slaveSid) (hdid : hdr.getD 1 0#8 ≠ slaveSid)
    (hlen : payload.length = (siz hdr).toNat + 1)
    (hsum : sumFrom 0#8 (hdr ++ payload) + cks = 0#8)
    (hstream : sock.stream = stale ++ (hdr ++ payload ++ [cks]) ++ rest) :
    ∃ sock', recvScb slaveSid sock = .ok ((hdr, payload, cks), sock') ∧ sock'.stream = rest := by
  obtain ⟨fmt, did, sid, fnc, n, rfl⟩ : ∃ a b c d e, hdr = [a, b, c, d, e] := by
    match hdr, hhdr with
    | [a, b, c, d, e], _ => exact ⟨a, b, c, d, e, rfl⟩
  cases stale with
  | nil =>
      cases payload with
      | nil => exact absurd hlen.symm (Nat.succ_ne_zero _)
      | cons first payload =>
          -- SID is in its place, and the sixth byte is of the payload
          have hsplit : splitRaw slaveSid [fmt, did, sid, fnc, n, first] =
              .ok ([fmt, did, sid, fnc, n], [first]) := if_pos hsid
          have hbody : [first] ++ (payload ++ [cks]) = first :: payload ++ [cks] := rfl
          refine recvScb_of_split rfl hsplit hbody (Nat.le_refl 1) hlen hsum ?_
          rw [hstream]
          simp only [List.nil_append, List.cons_append, List.append_assoc]
  | cons stale none =>
      have hnone : none = [] := by
        rw [List.length_cons] at hstale
        exact List.length_eq_zero_iff.mp (by omega)
      subst hnone
      -- DID is where SID would be
      have hsplit : splitRaw slaveSid [stale, fmt, did, sid, fnc, n] =
          .ok ([fmt, did, sid, fnc, n], []) := (if_neg hdid).trans (if_pos hsid)
      refine recvScb_of_split rfl hsplit (List.nil_append _) (Nat.zero_le 1) hlen hsum ?_
      rw [hstream]
      simp only [List.nil_append, List.cons_append, List.append_assoc]

end

/-! ### Both ways -/

theorem sum_checked (body : List Byte) : sumFrom 0#8 body + (0#8 - sumFrom 0#8 body) = 0#8 :=
  add_checksum _

theorem sendScb_eq {fmt did sid fnc : Byte} {payload : List Byte} (hpos : 1 ≤ payload.length)
    (hmax : payload.length ≤ 250) :
    sendScb fmt did sid fnc payload =
      some (Pio.checked ([fmt, did, sid, fnc, BitVec.ofNat 8 (payload.length - 1)] ++
        payload)) := by
  have hne : payload ≠ [] := List.ne_nil_of_length_pos hpos
  unfold sendScb
  simp only [if_neg hne]
  exact if_pos (by omega)

/-- **The round trip of a raw frame.**  A message of no more than 249 bytes and one is read by
`recv_scb` as it is in memory, whether or not there is a byte in front of it and however it
comes in pieces, and nothing else is taken from the stream.  A reply of no more than 250
bytes, after fewer idle reads than the budget has, is stored as it was sent, and nothing else
is written or taken. -/
theorem raw_frames_round_trip (slaveSid : Byte) (msg : Word) (m : Pio) :
    ((m.mem (msg + 4#16)).toNat ≤ 249 → m.mem (msg + 2#16) = slaveSid →
      m.mem (msg + 1#16) ≠ slaveSid →
      ∃ frame, (m.pioSendMsg msg).sent = m.sent ++ frame ∧
        ∀ (stale rest : List Byte) (sock : Socket Byte), stale.length ≤ 1 →
          sock.stream = stale ++ frame ++ rest →
          ∃ cks sock', recvScb slaveSid sock =
              .ok ((loadAt m.mem msg 5, loadAt m.mem (msg + 5#16) ((m.mem (msg + 4#16)).toNat + 1),
                cks), sock') ∧
            sock'.stream = rest) ∧
    ∀ (fmt did sid fnc : Byte) (payload rest : List Byte) (idle : Nat), fmt ≠ 0xFF#8 →
      1 ≤ payload.length → payload.length ≤ 250 → idle < 16384 →
      ∃ cks frame, sendScb fmt did sid fnc payload = some frame ∧
        frame = [fmt, did, sid, fnc, BitVec.ofNat 8 (payload.length - 1)] ++ payload ++ [cks] ∧
        (m.queue = List.replicate idle 0xFF#8 ++ (frame ++ rest) →
          (m.pioRecvMsg msg).1 = 0x00#8 ∧
          loadAt (m.pioRecvMsg msg).2.mem msg frame.length = frame ∧
          (∀ x, (∀ i < frame.length, x ≠ msg + BitVec.ofNat 16 i) →
            (m.pioRecvMsg msg).2.mem x = m.mem x) ∧
          (m.pioRecvMsg msg).2.queue = rest) := by
  constructor
  -- from the client to the server
  · intro hsiz hsid hdid
    have hcut : loadAt m.mem msg (6 + (m.mem (msg + 4#16)).toNat) =
        loadAt m.mem msg 5 ++ loadAt m.mem (msg + 5#16) ((m.mem (msg + 4#16)).toNat + 1) := by
      rw [show 6 + (m.mem (msg + 4#16)).toNat = 5 + ((m.mem (msg + 4#16)).toNat + 1) by omega,
        loadAt_append]
    have hsent := Pio.pioSendMsg_sent msg hsiz
    rw [hcut] at hsent
    have hplace : ∀ i < 5, (loadAt m.mem msg 5).getD i 0#8 = m.mem (msg + BitVec.ofNat 16 i) := by
      intro i hi
      have hi' : i < (loadAt m.mem msg 5).length := by rwa [length_loadAt]
      rw [List.getD_eq_getElem _ _ hi', getElem_loadAt]
    have hsid' := (hplace 2 (by decide)).trans hsid
    have hdid' : (loadAt m.mem msg 5).getD 1 0#8 ≠ slaveSid := by
      rw [hplace 1 (by decide)]
      exact hdid
    have hlen : (loadAt m.mem (msg + 5#16) ((m.mem (msg + 4#16)).toNat + 1)).length =
        (siz (loadAt m.mem msg 5)).toNat + 1 := by
      rw [length_loadAt, siz, hplace 4 (by decide)]
    refine ⟨_, hsent, fun stale rest sock hstale hstream => ?_⟩
    exact ⟨_, recvScb_frame hstale (length_loadAt _ _ _) hsid' hdid' hlen (sum_checked _) hstream⟩
  -- from the server to the client, behind a line that was idle for a while
  · intro fmt did sid fnc payload rest idle hfmt hpos hmax hidle
    let n : Byte := BitVec.ofNat 8 (payload.length - 1)
    let cks := 0#8 - sumFrom 0#8 ([fmt, did, sid, fnc, n] ++ payload)
    let frame := [fmt, did, sid, fnc, n] ++ payload ++ [cks]
    have hn : n.toNat = payload.length - 1 := by
      show (BitVec.ofNat 8 _).toNat = _
      rw [BitVec.toNat_ofNat]
      omega
    refine ⟨cks, frame, sendScb_eq hpos hmax, rfl, fun hqueue => ?_⟩
    have hbody : (payload ++ [cks]).length = n.toNat + 2 := by
      rw [List.length_append, List.length_singleton, hn]
      omega
    have hframe : frame = [fmt, did, sid, fnc, n] ++ (payload ++ [cks]) := List.append_assoc ..
    have hfits : frame.length ≤ 2 ^ 16 := by
      rw [hframe, List.length_append, hbody, hn]
      show 5 + _ ≤ _
      omega
    rw [hframe] at hqueue
    have hstored := Pio.pioRecvMsg_eq msg hidle hfmt hbody (by omega) hqueue
    rw [← hframe] at hstored
    rw [hstored]
    exact ⟨rfl, loadAt_storeAt _ _ hfits, fun x hx => storeAt_other _ _ hx, rfl⟩

/-- A request of one byte with a byte in front of it, and a reply of one byte. -/
theorem raw_frames_round_trip_short :
    (∃ frame, (Pio.pioSendMsg 0#16 ⟨fun x => if x = 2#16 then 1#8 else 0#8, .input, [], [],
          [0x01#8, 0x01#8, 0x00#8, 0x14#8, 0x00#8, 0x2A#8, 0xC0#8]⟩).sent = [] ++ frame ∧
      ∀ sock : Socket Byte, sock.stream = [0x7F#8] ++ frame ++ [] →
        ∃ cks sock', recvScb 1#8 sock = .ok (([0#8, 0#8, 1#8, 0#8, 0#8], [0#8], cks), sock') ∧
          sock'.stream = []) ∧
    (Pio.pioRecvMsg 0#16 ⟨fun x => if x = 2#16 then 1#8 else 0#8, .input, [], [],
      [0x01#8, 0x01#8, 0x00#8, 0x14#8, 0x00#8, 0x2A#8, 0xC0#8]⟩).1 = 0x00#8 := by
  have hboth := raw_frames_round_trip 1#8 0#16
    ⟨fun x => if x = 2#16 then 1#8 else 0#8, .input, [], [],
      [0x01#8, 0x01#8, 0x00#8, 0x14#8, 0x00#8, 0x2A#8, 0xC0#8]⟩
  obtain ⟨frame, hframe, hread⟩ := hboth.1 (by decide) (by decide) (by decide)
  obtain ⟨cks, reply, hreply, hbytes, hstored⟩ := hboth.2 0x01#8 0x01#8 0x00#8 0x14#8 [0x2A#8] []
    0 (by decide) (by decide) (by decide) (by decide)
  have hreply' : reply = [0x01#8, 0x01#8, 0x00#8, 0x14#8, 0x00#8, 0x2A#8, 0xC0#8] :=
    (Option.some.inj hreply).symm
  refine ⟨⟨frame, hframe, fun sock hsock => hread [0x7F#8] [] sock (by decide) hsock⟩, ?_⟩
  refine (hstored ?_).1
  rw [hreply']
  rfl

end Link
end Rc700
