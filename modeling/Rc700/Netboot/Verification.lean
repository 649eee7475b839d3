import Rc700.Netboot.Session

/-!
# What the boot server checks of a request

`snios_recv_sndmsg` adds up the header and the message and looks at EOT, but what it finds is
only printed; at ETX it does not look.  So it takes whatever has the shape of a request
(`takes_iff`), confirms it with the last ACK (`confirms`), and `handle` dispatches it
(`handleOnce_dispatches`).

Only checked requests are dispatched exactly as long as the client does not send the shape of a
request with a check that fails, and a replaced byte is harmless exactly where it is not in what
is dispatched (`dispatches_verified_iff`).
-/

namespace Rc700
namespace Netboot

open Library Link
open Dialogue (Accepts Confirms inTime)

/-! ### The shape of a request -/

/-- What has the shape of a request: it is as long as SIZ says. -/
structure Wire where
  hdr : List Byte
  hcs : Byte
  data : List Byte
  etx : Byte
  cks : Byte
  eot : Byte
  hdr_length : hdr.length = 5
  data_length : data.length = (siz hdr).toNat + 1

namespace Wire

/-- The bytes on the line. -/
def bytes (w : Wire) : List Byte :=
  ENQ :: SOH :: w.hdr ++ w.hcs :: STX :: w.data ++ [w.etx, w.cks, w.eot]

/-- What is to be checked of it. -/
structure Verified (w : Wire) : Prop where
  header : sumFrom SOH w.hdr + w.hcs = 0
  etx : w.etx = ETX
  message : sumFrom STX w.data + w.etx + w.cks = 0
  eot : w.eot = EOT

/-- A stream starts with one shape at most. -/
theorem eq_of_prefix {w w' : Wire} {bs : List Byte} (hw : w.bytes <+: bs) (hw' : w'.bytes <+: bs) :
    w = w' := by
  obtain ⟨rest, hrest⟩ := hw
  obtain ⟨rest', hrest'⟩ := hw'
  have heq := hrest.trans hrest'.symm
  simp only [bytes, List.cons_append, List.append_assoc, List.cons.injEq, true_and,
    List.nil_append] at heq
  obtain ⟨hhdr, heq⟩ := List.append_inj heq (w.hdr_length.trans w'.hdr_length.symm)
  simp only [List.cons.injEq, true_and] at heq
  -- the headers are the same, and so is SIZ
  have hlen : w.data.length = w'.data.length := by rw [w.data_length, w'.data_length, hhdr]
  obtain ⟨hdata, htail⟩ := List.append_inj heq.2 hlen
  simp only [List.cons.injEq] at htail
  cases w
  cases w'
  simp_all

end Wire

/-- `snios_recv_sndmsg` returns the header and the data, and `handle` dispatches them. -/
def Takes (xs : List (Option Byte)) (hdr data : List Byte) : Prop :=
  Accepts sniosRecvSndmsg xs (hdr, data)

theorem map_bytes (w : Wire) (rest : List (Option Byte)) :
    w.bytes.map some ++ rest =
      some ENQ :: some SOH :: (w.hdr.map some ++ some w.hcs :: some STX ::
        (w.data.map some ++ some w.etx :: some w.cks :: some w.eot :: rest)) := by
  simp [Wire.bytes]

/-- A request is taken for its shape. -/
theorem takes_iff {xs : List (Option Byte)} {hdr data : List Byte} :
    Takes xs hdr data ↔ ∃ w : Wire, w.bytes <+: inTime xs ∧ w.hdr = hdr ∧ w.data = data := by
  unfold Takes sniosRecvSndmsg recvHdr recvData
  simp only [Dialogue.bind_eq, Dialogue.pure_eq, Dialogue.send_bind, Dialogue.recv_bind,
    Dialogue.accepts_say, Dialogue.accepts_hear, Dialogue.accepts_done, Dialogue.accepts_unless,
    Dialogue.accepts_recvMany, Dialogue.prefix_inTime, reduceCtorEq, not_false_eq_true,
    implies_true, ne_eq, not_not, Option.some.injEq, Prod.mk.injEq]
  constructor
  · rintro ⟨_, _, rfl, rfl, _, _, rfl, rfl, hdr', _, hlen, rfl, hcs, _, rfl, _, _, rfl, rfl,
      data', _,
      hdata, rfl, etx, _, rfl, cks, _, rfl, eot, rest, rfl, rfl, rfl⟩
    let w : Wire := ⟨hdr', hcs, data', etx, cks, eot, hlen, hdata⟩
    exact ⟨w, ⟨rest, (map_bytes w rest).symm⟩, rfl, rfl⟩
  · rintro ⟨w, ⟨rest, rfl⟩, rfl, rfl⟩
    rw [map_bytes]
    exact ⟨_, _, rfl, rfl, _, _, rfl, rfl, w.hdr, _, w.hdr_length, rfl, w.hcs, _, rfl, _, _,
      rfl, rfl,
      w.data, _, w.data_length, rfl, w.etx, _, rfl, w.cks, _, rfl, w.eot, rest, rfl, rfl, rfl⟩

/-- The last ACK confirms that a request is taken. -/
theorem confirms : Confirms sniosRecvSndmsg [ACK, ACK, ACK] := by
  have hlast (hdr : List Byte) : Confirms (recvData hdr) [ACK] := by
    refine Dialogue.confirms_hear (by simp) rfl fun stx => ?_
    refine Dialogue.confirms_unless (by simp) ?_
    refine Dialogue.confirms_recvMany (by simp) rfl fun data => ?_
    -- the three bytes behind the data, each in time
    refine Dialogue.confirms_hear (by simp) rfl fun etx => ?_
    refine Dialogue.confirms_hear (by simp) rfl fun cks => ?_
    refine Dialogue.confirms_hear (by simp) rfl fun eot => ?_
    exact Dialogue.confirms_say ACK (Dialogue.confirms_value (hdr, data))
  have hheader : Confirms recvHdr [ACK, ACK] := by
    refine Dialogue.confirms_hear (by simp) rfl fun soh => ?_
    refine Dialogue.confirms_unless (by simp) ?_
    refine Dialogue.confirms_recvMany (by simp) rfl fun hdr => ?_
    refine Dialogue.confirms_hear (by simp) rfl fun hcs => ?_
    exact Dialogue.confirms_say ACK (hlast hdr)
  refine Dialogue.confirms_hear (by simp) rfl fun enq => ?_
  exact Dialogue.confirms_unless (by simp) (Dialogue.confirms_say ACK hheader)

/-- What is taken is dispatched. -/
theorem handleOnce_dispatches {host : Path → Option (List Byte)} {s : State}
    {xs : List (Option Byte)} {hdr data : List Byte} (htakes : Takes xs hdr data) :
    (Dialogue.run (handleOnce host s) xs).result =
      (Dialogue.run (answer host s hdr data) (Dialogue.run sniosRecvSndmsg xs).rest).result := by
  show (Dialogue.run (Dialogue.bind sniosRecvSndmsg _) xs).result = _
  exact Dialogue.run_bind_result htakes

/-! ### A byte replaced -/

/-- A request as the client sends it. -/
structure Sndmsg where
  hdr : List Byte
  data : List Byte
  hdr_length : hdr.length = 5
  data_length : data.length = (siz hdr).toNat + 1

/-- The bytes of a request on the line, after ENQ. -/
def Sndmsg.bytes (r : Sndmsg) : List Byte := headerBytes r.hdr ++ messageBytes r.data

/-- One byte after ENQ is not what was sent. -/
structure Corruption (r : Sndmsg) where
  place : Nat
  value : Byte
  inside : place < r.bytes.length
  differs : r.bytes[place]? ≠ some value

/-- What comes of the request, and what comes after it. -/
def Corruption.stream {r : Sndmsg} (c : Corruption r) (rest : List (Option Byte)) :
    List (Option Byte) :=
  (ENQ :: r.bytes.set c.place c.value).map some ++ rest

namespace Sndmsg

/-- The message behind STX. -/
def message (r : Sndmsg) : List Byte :=
  r.data ++ [ETX, 0#8 - (sumFrom STX r.data + ETX), EOT]

theorem length_message (r : Sndmsg) : r.message.length = (siz r.hdr).toNat + 4 := by
  simp [message, r.data_length]

theorem bytes_eq (r : Sndmsg) :
    r.bytes = SOH :: (r.hdr ++ (0#8 - sumFrom SOH r.hdr) :: STX :: r.message) := by
  simp [bytes, headerBytes, messageBytes, message]

end Sndmsg

/-- What is taken, where the bytes before the header and the message are as they should be. -/
theorem takes_parts {soh hcs stx : Byte} {h tail hdr data : List Byte} {xs : List (Option Byte)}
    (hlen : h.length = 5) (hxs : inTime xs = ENQ :: soh :: (h ++ hcs :: stx :: tail)) :
    Takes xs hdr data ↔ soh = SOH ∧ stx = STX ∧ hdr = h ∧ (siz h).toNat + 4 ≤ tail.length ∧
      data = tail.take ((siz h).toNat + 1) := by
  rw [takes_iff, hxs]
  constructor
  · rintro ⟨w, ⟨back, hback⟩, rfl, rfl⟩
    have hdata := w.data_length
    simp only [Wire.bytes, List.cons_append, List.append_assoc, List.cons.injEq, true_and,
      List.nil_append] at hback
    obtain ⟨hsoh, hback⟩ := hback
    obtain ⟨rfl, hmessage⟩ := List.append_inj hback (w.hdr_length.trans hlen.symm)
    simp only [List.cons.injEq] at hmessage
    obtain ⟨-, hstx, rfl⟩ := hmessage
    refine ⟨hsoh.symm, hstx.symm, rfl, ?_, by simp [← hdata]⟩
    simp only [List.length_append, List.length_cons]
    omega
  · rintro ⟨rfl, rfl, rfl, hmore, rfl⟩
    have hdata : (tail.take ((siz hdr).toNat + 1)).length = (siz hdr).toNat + 1 :=
      List.length_take_of_le (by omega)
    have hback : 3 ≤ (tail.drop ((siz hdr).toNat + 1)).length := by
      rw [List.length_drop]
      omega
    -- the three bytes behind the data
    match hdrop : tail.drop ((siz hdr).toNat + 1), hback with
    | etx :: cks :: eot :: back, _ =>
        refine ⟨⟨hdr, hcs, _, etx, cks, eot, hlen, hdata⟩, ⟨back, ?_⟩, rfl, rfl⟩
        have htail := List.take_append_drop ((siz hdr).toNat + 1) tail
        rw [hdrop] at htail
        simp [Wire.bytes, htail]

namespace Corruption

variable {r : Sndmsg} (c : Corruption r)

/-- The header that comes of the request. -/
def header : List Byte :=
  if 1 ≤ c.place ∧ c.place ≤ 5 then r.hdr.set (c.place - 1) c.value else r.hdr

/-- What comes of the message behind STX. -/
def message : List Byte :=
  if 8 ≤ c.place then r.message.set (c.place - 8) c.value else r.message

theorem length_header : c.header.length = 5 := by
  unfold header
  split
  · rw [List.length_set, r.hdr_length]
  · exact r.hdr_length

theorem length_message : c.message.length = (siz r.hdr).toNat + 4 := by
  unfold message
  split
  · rw [List.length_set, r.length_message]
  · exact r.length_message

/-- The bytes on the line, part by part. -/
theorem bytes_eq : ∃ soh hcs stx : Byte,
    r.bytes.set c.place c.value = soh :: (c.header ++ hcs :: stx :: c.message) ∧
      (soh = SOH ↔ c.place ≠ 0) ∧ (stx = STX ↔ c.place ≠ 7) := by
  have hlen := r.hdr_length
  have hdiffers := c.differs
  unfold header message
  rw [r.bytes_eq] at hdiffers ⊢
  generalize 0#8 - sumFrom SOH r.hdr = hcs at hdiffers ⊢
  -- SOH, the header, HCS, STX, or the rest of the message
  obtain hplace | hplace | hplace | hplace | hplace : c.place = 0 ∨ (1 ≤ c.place ∧ c.place ≤ 5) ∨
      c.place = 6 ∨ c.place = 7 ∨ 8 ≤ c.place := by omega
  · refine ⟨c.value, hcs, STX, by simp [hplace], ?_, by simp [hplace]⟩
    rw [hplace] at hdiffers
    simp only [List.getElem?_cons_zero, ne_eq, Option.some.injEq] at hdiffers
    simp [hplace, eq_comm, hdiffers]
  · obtain ⟨j, hj⟩ : ∃ j, c.place = j + 1 := ⟨c.place - 1, by omega⟩
    refine ⟨SOH, hcs, STX, ?_, by simp [hj], by simp; omega⟩
    rw [if_pos hplace, if_neg (by omega), hj, List.set_cons_succ, List.set_append,
      if_pos (by omega), Nat.add_sub_cancel]
  · refine ⟨SOH, c.value, STX, ?_, by simp [hplace], by simp [hplace]⟩
    simp [hplace, hlen]
  · refine ⟨SOH, hcs, c.value, ?_, by simp [hplace], ?_⟩
    · simp [hplace, hlen]
    · rw [hplace] at hdiffers
      simp [List.getElem?_append, hlen] at hdiffers
      simp [hplace, eq_comm, hdiffers]
  · obtain ⟨j, hj⟩ : ∃ j, c.place = j + 8 := ⟨c.place - 8, by omega⟩
    refine ⟨SOH, hcs, STX, ?_, by simp [hj], by simp; omega⟩
    rw [if_neg (by omega), if_pos hplace, hj, List.set_cons_succ, List.set_append,
      if_neg (by omega), hlen, Nat.add_sub_cancel]
    simp

/-- What is taken of the request. -/
theorem takes_iff {rest : List (Option Byte)} {hdr data : List Byte} :
    Takes (c.stream rest) hdr data ↔ c.place ≠ 0 ∧ c.place ≠ 7 ∧ hdr = c.header ∧
      (siz c.header).toNat ≤ (siz r.hdr).toNat + (inTime rest).length ∧
      data = (c.message ++ inTime rest).take ((siz c.header).toNat + 1) := by
  obtain ⟨soh, hcs, stx, hbytes, hsoh, hstx⟩ := c.bytes_eq
  have hstream : inTime (c.stream rest) =
      ENQ :: soh :: (c.header ++ hcs :: stx :: (c.message ++ inTime rest)) := by
    rw [stream, Dialogue.inTime_append, hbytes]
    simp
  have henough : (siz c.header).toNat + 4 ≤ (c.message ++ inTime rest).length ↔
      (siz c.header).toNat ≤ (siz r.hdr).toNat + (inTime rest).length := by
    rw [List.length_append, c.length_message]
    omega
  rw [takes_parts c.length_header hstream, hsoh, hstx, henough]

/-- The byte is not in what is dispatched, or nothing is: so many bytes follow in time. -/
def Harmless (following : Nat) : Prop :=
  c.place = 0 ∨ c.place = 6 ∨ c.place = 7 ∨ 8 + r.data.length ≤ c.place ∨
    (c.place = 5 ∧ (siz r.hdr).toNat + following < c.value.toNat)

theorem siz_set (hplace : c.place ≠ 5) : siz c.header = siz r.hdr := by
  unfold header
  split
  · have hne : c.place - 1 ≠ 4 := by omega
    simp [siz, List.getD_eq_getElem?_getD, List.getElem?_set_ne, hne]
  · rfl

/-- SIZ is replaced. -/
theorem siz_replaced (hplace : c.place = 5) : siz c.header = c.value ∧ c.value ≠ siz r.hdr := by
  have hlen := r.hdr_length
  have hdiffers := c.differs
  rw [r.bytes_eq, hplace, List.getElem?_cons_succ, List.getElem?_append_left (by omega)] at hdiffers
  refine ⟨by simp [header, hplace, siz, List.getD_eq_getElem?_getD, hlen], fun heq => ?_⟩
  rw [heq] at hdiffers
  simp [siz, List.getD_eq_getElem?_getD, hlen] at hdiffers

theorem header_eq_iff : c.header = r.hdr ↔ ¬ (1 ≤ c.place ∧ c.place ≤ 5) := by
  have hlen := r.hdr_length
  have hdiffers := c.differs
  unfold header
  split
  · next hin =>
      obtain ⟨j, hj⟩ : ∃ j, c.place = j + 1 := ⟨c.place - 1, by omega⟩
      have hj5 : j < r.hdr.length := by omega
      rw [r.bytes_eq, hj, List.getElem?_cons_succ, List.getElem?_append_left hj5] at hdiffers
      rw [hj, Nat.add_sub_cancel]
      refine iff_of_false (fun heq => hdiffers ?_) (by omega)
      rw [← heq, List.getElem?_set_self hj5]
  · next hout => simp [hout]

/-- The data that comes of the request, as long as what was sent. -/
theorem take_message (rest : List Byte) :
    (c.message ++ rest).take ((siz r.hdr).toNat + 1) = r.data ↔
      ¬ (8 ≤ c.place ∧ c.place < 8 + r.data.length) := by
  have hsent : r.message.take r.data.length = r.data := by simp [Sndmsg.message]
  have henough : r.data.length ≤ c.message.length := by
    rw [c.length_message, r.data_length]
    omega
  have hdiffers := c.differs
  rw [← r.data_length, List.take_append_of_le_length henough]
  unfold message
  split
  · next hin =>
      obtain ⟨j, hj⟩ : ∃ j, c.place = j + 8 := ⟨c.place - 8, by omega⟩
      rw [List.take_set, hsent, hj, Nat.add_sub_cancel]
      by_cases hdata : j < r.data.length
      · -- a byte of the data
        have hat : r.bytes[c.place]? = r.data[j]? := by
          rw [r.bytes_eq, hj, List.getElem?_cons_succ, Sndmsg.message]
          simp [List.getElem?_append, r.hdr_length, hdata]
        rw [hat] at hdiffers
        refine iff_of_false (fun heq => hdiffers ?_) (by omega)
        rw [← heq, List.getElem?_set_self hdata]
      · -- a byte behind the data
        rw [List.set_eq_of_length_le (by omega)]
        exact iff_of_true rfl (by omega)
  · exact iff_of_true hsent (by omega)

/-- Where SIZ is replaced, what is taken is as long as it says. -/
theorem take_replaced (hplace : c.place = 5) {rest : List Byte}
    (hmore : (siz c.header).toNat ≤ (siz r.hdr).toNat + rest.length) :
    (c.message ++ rest).take ((siz c.header).toNat + 1) ≠ r.data := by
  intro heq
  obtain ⟨hvalue, hne⟩ := c.siz_replaced hplace
  have hlen := congrArg List.length heq
  rw [List.length_take, List.length_append, c.length_message, r.data_length] at hlen
  exact hne (hvalue ▸ BitVec.eq_of_toNat_eq (by omega))

/-- The arguments of `dispatch_sndmsg` are as they were sent. -/
theorem unaltered_iff (rest : List (Option Byte)) :
    (∀ hdr data, Takes (c.stream rest) hdr data → hdr = r.hdr ∧ data = r.data) ↔
      c.Harmless (inTime rest).length := by
  have hinside := c.inside
  rw [r.bytes_eq] at hinside
  simp only [List.length_cons, List.length_append, r.hdr_length, r.length_message] at hinside
  constructor
  · intro hsame
    by_contra hharm
    simp only [Harmless, not_or] at hharm
    obtain ⟨hsoh, hhcs, hstx, hbehind, hsiz⟩ := hharm
    -- another SIZ makes another length; any other byte shows where it stands
    by_cases hplace : c.place = 5
    · have hmore : (siz c.header).toNat ≤ (siz r.hdr).toNat + (inTime rest).length := by
        rw [(c.siz_replaced hplace).1]
        omega
      have htakes := c.takes_iff.mpr ⟨hsoh, hstx, rfl, hmore, rfl⟩
      exact c.take_replaced hplace hmore (hsame _ _ htakes).2
    · have hsame' := hsame _ _ (c.takes_iff.mpr
        ⟨hsoh, hstx, rfl, by rw [c.siz_set hplace]; omega, rfl⟩)
      rw [c.siz_set hplace, c.header_eq_iff, c.take_message] at hsame'
      omega
  · intro hharmless hdr data htakes
    obtain ⟨hsoh, hstx, rfl, hmore, rfl⟩ := c.takes_iff.mp htakes
    have hplace : c.place ≠ 5 := by
      intro hplace
      rw [(c.siz_replaced hplace).1] at hmore
      unfold Harmless at hharmless
      omega
    rw [c.siz_set hplace, c.header_eq_iff, c.take_message]
    unfold Harmless at hharmless
    omega

/-- The data of `dispatch_sndmsg` are as they were sent. -/
theorem data_unaltered_iff (rest : List (Option Byte)) :
    (∀ hdr data, Takes (c.stream rest) hdr data → data = r.data) ↔
      (1 ≤ c.place ∧ c.place ≤ 4) ∨ c.Harmless (inTime rest).length := by
  by_cases hheader : 1 ≤ c.place ∧ c.place ≤ 4
  · -- FMT, DID, SID or FNC
    refine iff_of_true (fun hdr data htakes => ?_) (.inl hheader)
    obtain ⟨-, -, -, -, rfl⟩ := c.takes_iff.mp htakes
    rw [c.siz_set (by omega), c.take_message]
    omega
  · rw [or_iff_right hheader, ← c.unaltered_iff]
    refine forall_congr' fun hdr => forall_congr' fun data => imp_congr_right fun htakes => ?_
    refine ⟨fun hdata => ⟨?_, hdata⟩, And.right⟩
    obtain ⟨-, -, rfl, hmore, rfl⟩ := c.takes_iff.mp htakes
    have hplace : c.place ≠ 5 := fun hplace => c.take_replaced hplace hmore hdata
    rw [c.header_eq_iff]
    omega

end Corruption

/-! ### Only checked requests -/

/-- What is returned, and what is confirmed, has passed the checks. -/
def OnlyVerified (xs : List (Option Byte)) : Prop :=
  (∀ hdr data, Takes xs hdr data →
    ∃ w : Wire, w.bytes <+: inTime xs ∧ w.Verified ∧ w.hdr = hdr ∧ w.data = data) ∧
  ((Dialogue.run sniosRecvSndmsg xs).said = [ACK, ACK, ACK] →
    ∃ w : Wire, w.bytes <+: inTime xs ∧ w.Verified)

theorem onlyVerified_iff (xs : List (Option Byte)) :
    OnlyVerified xs ↔ ∀ w : Wire, w.bytes <+: inTime xs → w.Verified := by
  constructor
  · rintro ⟨hreturns, -⟩ w hw
    obtain ⟨w', hw', hverified, -, -⟩ := hreturns _ _ (takes_iff.mpr ⟨w, hw, rfl, rfl⟩)
    rw [Wire.eq_of_prefix hw hw']
    exact hverified
  · intro hverified
    constructor
    · intro hdr data htakes
      obtain ⟨w, hw, hhdr, hdata⟩ := takes_iff.mp htakes
      exact ⟨w, hw, hverified w hw, hhdr, hdata⟩
    · intro hsaid
      obtain ⟨⟨hdr, data⟩, htakes⟩ := (confirms xs).mp hsaid
      obtain ⟨w, hw, -, -⟩ := takes_iff.mp htakes
      exact ⟨w, hw, hverified w hw⟩

/-- **The checks of the boot server**: on a stream, and where a byte of a request is replaced. -/
theorem dispatches_verified_iff (xs : List (Option Byte)) {r : Sndmsg} (c : Corruption r)
    (rest : List (Option Byte)) :
    (OnlyVerified xs ↔ ∀ w : Wire, w.bytes <+: inTime xs → w.Verified) ∧
      ((∀ hdr data, Takes (c.stream rest) hdr data → hdr = r.hdr ∧ data = r.data) ↔
        c.Harmless (inTime rest).length) ∧
      ((∀ hdr data, Takes (c.stream rest) hdr data → data = r.data) ↔
        (1 ≤ c.place ∧ c.place ≤ 4) ∨ c.Harmless (inTime rest).length) :=
  ⟨onlyVerified_iff xs, c.unaltered_iff rest, c.data_unaltered_iff rest⟩

/-- A request of one byte. -/
def oneByte : Sndmsg := ⟨[0x00#8, 0x00#8, 0x01#8, 0x05#8, 0x00#8], [0x41#8], rfl, rfl⟩

/-- Its byte of data is replaced. -/
def oneByteReplaced : Corruption oneByte := ⟨8, 0x42#8, by decide, by decide⟩

/-- A byte of the data that is replaced is dispatched and confirmed. -/
theorem dispatches_not_verified :
    ¬ OnlyVerified (oneByteReplaced.stream []) ∧
      ¬ ∀ hdr data, Takes (oneByteReplaced.stream []) hdr data → data = oneByte.data := by
  have htakes : Takes (oneByteReplaced.stream []) oneByte.hdr [0x42#8] := rfl
  constructor
  · intro honly
    obtain ⟨w, hw, hverified, hhdr, hdata⟩ := honly.1 _ _ htakes
    -- the sum behind the data is the one of the byte that was sent
    have hsent : (⟨oneByte.hdr, 0xf9#8, [0x42#8], ETX, 0xba#8, EOT, rfl, rfl⟩ : Wire).bytes <+:
        inTime (oneByteReplaced.stream []) := by decide
    rw [Wire.eq_of_prefix hw hsent] at hverified
    exact absurd hverified.message (by decide)
  · intro hunaltered
    exact absurd (hunaltered _ _ htakes) (by decide)

end Netboot
end Rc700
