import Rc700.Link.Serving

/-!
# The parts of a frame

After ENQ a frame is received in two parts, the header and the message.  A part is collected
byte by byte, and is given up if a byte does not come in time (`Collects`).

When some of its bytes are lost, the next that comes is ENQ, by which the client tries again.
If ENQ is not among the bytes of the part, it does not complete it (`Part.Sound`).
-/

namespace Rc700
namespace Link

open Library

/-! ### Collecting -/

section Collecting

variable {α : Type} {n : Nat} {good : List Byte → Prop}
  {next : List Byte → Dialogue Byte (Option α)} {xs : List Byte}

/-- So many bytes are collected, of which these have come. -/
inductive Collects (n : Nat) (good : List Byte → Prop)
    (next : List Byte → Dialogue Byte (Option α)) : List Byte → Dialogue Byte (Option α) → Prop
  | gaveUp (xs : List Byte) : Collects n good next xs (.done none)
  | refused {xs : List Byte} (hlen : xs.length = n) :
      Collects n good next xs (.say NAK (.done none))
  | took {xs : List Byte} (hgood : good xs) : Collects n good next xs (.say ACK (next xs))
  | listens {xs : List Byte} {k : Option Byte → Dialogue Byte (Option α)} (hlen : xs.length < n)
      (hsilence : k none = .done none)
      (hnext : ∀ b, Collects n good next (xs ++ [b]) (k (some b))) :
        Collects n good next xs (.hear k)

/-- A byte that is looked at. -/
theorem collects_unless {c : Prop} [Decidable c] {d : Dialogue Byte (Option α)}
    (hd : ¬ c → Collects n good next xs d) :
    Collects n good next xs (if c then .done none else d) := by
  by_cases hc : c
  · rw [if_pos hc]
    exact .gaveUp xs
  · rw [if_neg hc]
    exact hd hc

/-- The checksum. -/
theorem collects_check {c : Prop} [Decidable c] {d : Dialogue Byte (Option α)}
    (hlen : xs.length = n) (hgood : ¬ c → good xs) (hd : d = next xs) :
    Collects n good next xs (if c then .say NAK (.done none) else .say ACK d) := by
  by_cases hc : c
  · rw [if_pos hc]
    exact .refused hlen
  · rw [if_neg hc, hd]
    exact .took (hgood hc)

/-- Bytes that are only collected. -/
theorem collects_recvMany {m : Nat} {f : Option (List Byte) → Dialogue Byte (Option α)}
    (hroom : xs.length + m ≤ n) (hnone : f none = .done none)
    (hsome : ∀ bs, bs.length = m → Collects n good next (xs ++ bs) (f (some bs))) :
    Collects n good next xs ((Dialogue.recvMany m).bind f) := by
  induction m generalizing xs f with
  | zero =>
      have hnil := hsome [] rfl
      rw [List.append_nil] at hnil
      exact hnil
  | succ m ih =>
      refine .listens (by omega) hnone fun b => ?_
      show Collects n good next (xs ++ [b])
        (((Dialogue.recvMany m).bind fun r => .done (r.map (b :: ·))).bind f)
      rw [Dialogue.bind_assoc]
      refine ih ?_ hnone fun bs hbs => ?_
      · rw [List.length_append, List.length_singleton]
        omega
      · have hrest := hsome (b :: bs) (by rw [List.length_cons, hbs])
        rw [List.append_assoc]
        exact hrest

end Collecting

/-- The bytes of a header, after ENQ. -/
def HeaderPart (xs : List Byte) : Prop :=
  ∃ soh hdr hcs, xs = soh :: (hdr ++ [hcs]) ∧ low7 soh = SOH ∧ hdr.length = 5 ∧
    sumFrom SOH hdr + hcs = 0

/-- The bytes of a message, after the header. -/
def MessagePart (hdr xs : List Byte) : Prop :=
  ∃ stx payload etx cks eot, xs = stx :: (payload ++ [etx, cks, eot]) ∧ low7 stx = STX ∧
    payload.length = (siz hdr).toNat + 1 ∧ low7 etx = ETX ∧ low7 eot = EOT ∧
    sumFrom STX payload + ETX + cks = 0

/-- The header in it. -/
def headerIn (xs : List Byte) : List Byte := xs.tail.take 5

/-- The payload in it. -/
def payloadIn (hdr xs : List Byte) : List Byte := xs.tail.take ((siz hdr).toNat + 1)

theorem collects_header :
    Collects 7 HeaderPart (fun xs => recvMessage (headerIn xs)) [] recvHeader := by
  unfold recvHeader
  simp only [Dialogue.bind_eq, Dialogue.pure_eq, Dialogue.send_bind, Dialogue.recv_bind]
  refine .listens (by decide) rfl fun soh => ?_
  refine collects_unless fun hsoh => ?_
  rw [not_not] at hsoh
  refine collects_recvMany (by simp) rfl fun hdr hlen => ?_
  refine .listens (by simp [hlen]) rfl fun hcs => ?_
  have hpart : [] ++ [soh] ++ hdr ++ [hcs] = soh :: (hdr ++ [hcs]) := rfl
  rw [hpart]
  refine collects_check (by simp [hlen]) (fun hsum => ?_) ?_
  · rw [not_not, hsoh] at hsum
    exact ⟨soh, hdr, hcs, rfl, hsoh, hlen, hsum⟩
  · show recvMessage hdr = recvMessage ((hdr ++ [hcs]).take 5)
    rw [← hlen, List.take_left]

theorem collects_message (hdr : List Byte) :
    Collects ((siz hdr).toNat + 5) (MessagePart hdr)
      (fun xs => .done (some (hdr, payloadIn hdr xs))) [] (recvMessage hdr) := by
  unfold recvMessage
  simp only [Dialogue.bind_eq, Dialogue.pure_eq, Dialogue.send_bind, Dialogue.recv_bind]
  refine .listens (by simp) rfl fun stx => ?_
  refine collects_unless fun hstx => ?_
  rw [not_not] at hstx
  refine collects_recvMany (by simp; omega) rfl fun payload hlen => ?_
  refine .listens (by simp [hlen]) rfl fun etx => ?_
  refine collects_unless fun hetx => ?_
  rw [not_not] at hetx
  refine .listens (by simp [hlen]) rfl fun cks => ?_
  refine .listens (by simp [hlen]) rfl fun eot => ?_
  refine collects_unless fun heot => ?_
  rw [not_not] at heot
  have hpart : [] ++ [stx] ++ payload ++ [etx] ++ [cks] ++ [eot] =
      stx :: (payload ++ [etx, cks, eot]) := by simp
  rw [hpart]
  refine collects_check (by simp [hlen]) (fun hsum => ?_) ?_
  · rw [not_not, hstx, hetx] at hsum
    exact ⟨stx, payload, etx, cks, eot, rfl, hstx, hlen, hetx, heot, hsum⟩
  · show _ = Dialogue.done (some (hdr, (payload ++ [etx, cks, eot]).take _))
    rw [← hlen, List.take_left]

/-! ### Parts -/

variable {hdr payload us : List Byte} {σ : Type}
  {handleRequest : List Byte → List Byte → σ → Answer σ} {v : Serving σ}

/-- A part of a frame: what the client waits for when it has said it, its bytes, and how the
server collects it. -/
structure Part where
  phase : Phase
  bytes : List Byte
  good : List Byte → Prop
  next : List Byte → Dialogue Byte (Option (List Byte × List Byte))

/-- The part of the header. -/
def headerPart (hdr : List Byte) : Part :=
  ⟨.header, headerBytes hdr, HeaderPart, fun xs => recvMessage (headerIn xs)⟩

/-- The part of the message. -/
def messagePart (hdr payload : List Byte) : Part :=
  ⟨.message, messageBytes payload, MessagePart hdr, fun xs => .done (some (hdr, payloadIn hdr xs))⟩

/-- A part that ENQ does not belong to. -/
structure Part.Sound (q : Part) : Prop where
  noEnq : ENQ ∉ q.bytes
  length : ∀ xs, q.good xs → xs.length = q.bytes.length
  /-- ENQ does not take the place of a byte that is lost. -/
  unfinished : ∀ xs, xs.Sublist q.bytes → xs ≠ q.bytes → ¬ q.good (xs ++ [ENQ])

/-- One of the bytes is lost. -/
theorem sublist_cut {xs ys : List Byte} (hsub : xs.Sublist ys) (hlen : xs.length + 1 = ys.length) :
    ∃ front b back, ys = front ++ b :: back ∧ xs = front ++ back := by
  induction hsub with
  | slnil => exact absurd hlen (by decide)
  | @cons xs ys b hsub _ =>
      have hsame : xs = ys := hsub.eq_of_length (Nat.succ.inj hlen)
      exact ⟨[], b, ys, rfl, hsame⟩
  | @cons_cons xs ys a _ ih =>
      obtain ⟨front, b, back, rfl, rfl⟩ := ih (Nat.succ.inj hlen)
      exact ⟨a :: front, b, back, rfl, rfl⟩

/-- None is lost, and nothing more is to come. -/
theorem sublist_all {xs us ys : List Byte} (hsub : (xs ++ us).Sublist ys)
    (hlen : xs.length = ys.length) : us = [] ∧ xs = ys := by
  have hcount := hsub.length_le
  rw [List.length_append] at hcount
  have hus : us = [] := List.length_eq_zero_iff.mp (by omega)
  rw [hus, List.append_nil] at hsub
  exact ⟨hus, hsub.eq_of_length hlen⟩

/-- The header and its checksum. -/
theorem sumFrom_header (hdr : List Byte) :
    sumFrom SOH (hdr ++ [0#8 - sumFrom SOH hdr]) = 0 := by
  rw [sumFrom_append]
  exact add_checksum _

theorem headerPart_sound (hlen : hdr.length = 5) (henq : ENQ ∉ headerBytes hdr) :
    (headerPart hdr).Sound where
  noEnq := henq
  length := by
    rintro xs ⟨soh, hdr', hcs, rfl, -, hlen', -⟩
    simp [headerPart, headerBytes, hlen, hlen']
  unfinished := by
    rintro xs hsub - ⟨soh, hdr', hcs, hpart, -, hlen', hsum⟩
    have hsplit : xs ++ [ENQ] = soh :: hdr' ++ [hcs] := hpart
    obtain ⟨rfl, hlast⟩ := List.append_inj' hsplit rfl
    cases hlast
    have hcount : (soh :: hdr').length + 1 = (headerBytes hdr).length := by
      simp [headerBytes, hlen, hlen']
    obtain ⟨front, b, back, hall, hrest⟩ := sublist_cut hsub hcount
    have htotal := sumFrom_header hdr
    -- the byte that is lost has the value that ENQ adds
    cases front with
    | nil =>
        -- it is SOH, and the next byte is not looked at
        obtain ⟨rfl, hback⟩ : SOH = b ∧ hdr ++ [0#8 - sumFrom SOH hdr] = back := List.cons.inj hall
        cases hrest
        rw [hback, sumFrom_cons, sumFrom_add] at htotal
        have hsoh : soh = ENQ := by bv_omega
        refine henq ?_
        rw [← hsoh]
        exact hsub.subset List.mem_cons_self
    | cons a front =>
        obtain ⟨rfl, hback⟩ : SOH = a ∧ hdr ++ [0#8 - sumFrom SOH hdr] = front ++ b :: back :=
          List.cons.inj hall
        obtain ⟨rfl, rfl⟩ : soh = SOH ∧ hdr' = front ++ back := List.cons.inj hrest
        rw [hback, sumFrom_insert] at htotal
        have hb : b = ENQ := by bv_omega
        refine henq ?_
        show ENQ ∈ (headerPart hdr).bytes
        rw [hall, ← hb]
        exact List.mem_append_right _ List.mem_cons_self

theorem messagePart_sound (hlen : payload.length = (siz hdr).toNat + 1)
    (henq : ENQ ∉ messageBytes payload) : (messagePart hdr payload).Sound where
  noEnq := henq
  length := by
    rintro xs ⟨stx, payload', etx, cks, eot, rfl, -, hlen', -⟩
    simp [messagePart, messageBytes, hlen, hlen']
  unfinished := by
    rintro xs - - ⟨stx, payload', etx, cks, eot, hpart, -, -, -, heot, -⟩
    have hlast := congrArg List.getLast? hpart
    rw [List.getLast?_concat, List.getLast?_cons] at hlast
    have hsame : ENQ = eot := by simpa using hlast
    rw [← hsame] at heot
    exact absurd heot (by decide)

/-- The server collects a part, of which these bytes are still to come; or it has given up, and
looks for ENQ, which is not among them. -/
inductive Part.Heard (q : Part) (us : List Byte) : Stage → Prop
  | gaveUp (hus : us.Sublist q.bytes) : q.Heard us .hunting
  | within {xs : List Byte} {k : Option Byte → Dialogue Byte (Option (List Byte × List Byte))}
      (hcollects : Collects q.bytes.length q.good q.next xs (.hear k))
      (hxs : (xs ++ us).Sublist q.bytes) : q.Heard us (.receiving (.within (.hear k)))

variable {q : Part} {stage : Stage}

theorem Part.Heard.listening (hheard : q.Heard us stage) : Listening stage := by
  cases hheard with
  | gaveUp _ => exact .hunting
  | within hcollects _ =>
      cases hcollects with
      | listens _ hsilence _ => exact .within hsilence

/-- Bytes are lost. -/
theorem Part.Heard.loses {us' : List Byte} (hheard : q.Heard us stage) (hsub : us'.Sublist us) :
    q.Heard us' stage := by
  cases hheard with
  | gaveUp hus => exact .gaveUp (hsub.trans hus)
  | within hcollects hxs => exact .within hcollects ((hsub.append_left _).trans hxs)

/-- When nothing more of it is to come, ENQ does not complete it. -/
theorem Part.Heard.apart (hq : q.Sound) (hheard : q.Heard [] stage) : Apart stage := by
  cases hheard with
  | gaveUp _ => exact .hunting
  | @within xs k hcollects hxs =>
      rw [List.append_nil] at hxs
      cases hcollects with
      | listens hlen hsilence hnext =>
          refine .within hsilence ?_
          have hunfinished : ¬ q.good (xs ++ [ENQ]) :=
            hq.unfinished xs hxs fun hall => absurd (congrArg List.length hall) (Nat.ne_of_lt hlen)
          have henq := hnext ENQ
          generalize k (some ENQ) = d at henq ⊢
          cases henq with
          | gaveUp _ => exact .gaveUp
          | refused _ => exact .refused
          | took hgood => exact absurd hgood hunfinished
          | listens _ hsilence' _ => exact .listens hsilence'

/-- **One byte of a part.**  It is the last one if the server answers. -/
theorem Part.Heard.hears {b : Byte} {next : Option Byte → Serving σ} (hq : q.Sound)
    (hheard : q.Heard (b :: us) v.stage) (hact : v.act handleRequest = .hear next) :
    (∃ stage, next (some b) = { v with stage := stage } ∧ q.Heard us stage) ∨
      (us = [] ∧ next (some b) = { v with stage := .receiving (.within (.say NAK (.done none))) }) ∨
      (us = [] ∧
        next (some b) = { v with stage := .receiving (.within (.say ACK (q.next q.bytes))) }) := by
  obtain ⟨state, stage, dispatched⟩ := v
  cases hheard with
  | gaveUp hus =>
      cases hact
      have hne : b ≠ ENQ := fun heq => hq.noEnq (heq ▸ hus.subset List.mem_cons_self)
      refine .inl ⟨_, ?_, .gaveUp ((List.sublist_cons_self b us).trans hus)⟩
      show Serving.goOn _ (.receiving (if b = ENQ then _ else _)) _ = _
      rw [if_neg hne]
      rfl
  | @within xs k hcollects hxs =>
      cases hact
      dsimp only
      rw [List.append_cons] at hxs
      cases hcollects with
      | listens hlen hsilence hnext =>
          have hb := hnext b
          generalize k (some b) = d at hb ⊢
          cases hb with
          | gaveUp _ => exact .inl ⟨_, rfl, .gaveUp ((List.sublist_append_right _ us).trans hxs)⟩
          | refused hall => exact .inr (.inl ⟨(sublist_all hxs hall).1, rfl⟩)
          | took hgood =>
              obtain ⟨hus, hbytes⟩ := sublist_all hxs (hq.length _ hgood)
              rw [hbytes]
              exact .inr (.inr ⟨hus, rfl⟩)
          | listens hlen' hsilence' hnext' =>
              exact .inl ⟨_, rfl, .within (.listens hlen' hsilence' hnext') hxs⟩

/-- The parts of a message that ENQ does not belong to. -/
structure Regular (hdr payload : List Byte) : Prop where
  header : hdr.length = 5
  message : payload.length = (siz hdr).toNat + 1
  headerEnq : ENQ ∉ headerBytes hdr
  messageEnq : ENQ ∉ messageBytes payload

theorem Regular.sound (hregular : Regular hdr payload)
    (hq : q = headerPart hdr ∨ q = messagePart hdr payload) : q.Sound := by
  rcases hq with rfl | rfl
  · exact headerPart_sound hregular.header hregular.headerEnq
  · exact messagePart_sound hregular.message hregular.messageEnq

/-- A part that the server begins to collect. -/
theorem heard_header (hregular : Regular hdr payload) :
    (headerPart hdr).Heard (headerBytes hdr) (.receiving (.within recvHeader)) := by
  have hcount : (headerPart hdr).bytes.length = 7 := by
    simp [headerPart, headerBytes, hregular.header]
  have hcollects : Collects (headerPart hdr).bytes.length HeaderPart
      (fun xs => recvMessage (headerIn xs)) [] recvHeader := by
    rw [hcount]
    exact collects_header
  exact .within hcollects (List.Sublist.refl _)

theorem heard_message (hregular : Regular hdr payload) :
    (messagePart hdr payload).Heard (messageBytes payload)
      (.receiving (.within (recvMessage hdr))) := by
  have hcount : (messagePart hdr payload).bytes.length = (siz hdr).toNat + 5 := by
    simp [messagePart, messageBytes, hregular.message]
  have hcollects : Collects (messagePart hdr payload).bytes.length (MessagePart hdr)
      (fun xs => .done (some (hdr, payloadIn hdr xs))) [] (recvMessage hdr) := by
    rw [hcount]
    exact collects_message hdr
  exact .within hcollects (List.Sublist.refl _)

theorem headerIn_bytes (hlen : hdr.length = 5) : headerIn (headerBytes hdr) = hdr := by
  show (hdr ++ [0#8 - sumFrom SOH hdr]).take 5 = hdr
  rw [← hlen, List.take_left]

theorem payloadIn_bytes (hlen : payload.length = (siz hdr).toNat + 1) :
    payloadIn hdr (messageBytes payload) = payload := by
  show (payload ++ [ETX, 0#8 - (sumFrom STX payload + ETX), EOT]).take ((siz hdr).toNat + 1) =
    payload
  rw [← hlen, List.take_left]

end Link
end Rc700
