import Rc700.Link.Exchange

/-!
# The trace decoder

`cpnet_decode.py` takes the log of a line apart, byte by byte and for each direction alone.
It looks for the first STX and the first ETX after it by value, wherever they stand, so it is
a scanner of four phases (`wholeFrame_snoc`) that the framing of the wire does not guide.  In
what it calls the header there is always the checksum too, and the rest is right as
long as no other STX and ETX come in its way (`decodeStream_recovers_iff`).
-/

namespace Rc700
namespace Link

open Library

/-- The direction of a byte in the log. -/
inductive Dir where
  | fromMame
  | fromMpm
  deriving DecidableEq, Repr

def Dir.other : Dir → Dir
  | .fromMame => .fromMpm
  | .fromMpm => .fromMame

theorem Dir.other_ne (d : Dir) : d.other ≠ d := by cases d <;> decide

/-- The kinds of pseudo-messages. -/
inductive Kind where
  | enq
  | ack
  | nak
  deriving DecidableEq, Repr

/-- An element of `msgs`. -/
inductive Entry (τ : Type*) where
  | pseudo (t : τ) (d : Dir) (kind : Kind)
  | msg (start : Option τ) (d : Dir) (hdr dat ck : List Byte) (stop : τ)

/-- The variables of `decode_stream`. -/
structure Decoder (τ : Type*) where
  states : Dir → List Byte
  starts : Dir → Option τ
  msgs : List (Entry τ)

/-- The header, the data and the checksums, if the frame is complete. -/
def wholeFrame (buf : List Byte) : Option (List Byte × List Byte × List Byte) :=
  if buf.contains STX then
    let stxAt := buf.idxOf STX
    if (buf.drop (stxAt + 1)).contains ETX then
      let etxAt := stxAt + 1 + (buf.drop (stxAt + 1)).idxOf ETX
      if etxAt + 3 ≤ buf.length then
        some ((buf.take stxAt).drop 1, (buf.take etxAt).drop (stxAt + 1),
          (buf.take (etxAt + 3)).drop (etxAt + 1))
      else none
    else none
  else none

variable {τ : Type*}

/-- One round of the loop of `decode_stream`. -/
def Decoder.event (s : Decoder τ) (t : τ) (d : Dir) (b : Byte) : Decoder τ :=
  if s.states d = [] ∧ b = ENQ then { s with msgs := s.msgs ++ [.pseudo t d .enq] }
  else if s.states d = [] ∧ b = ACK then { s with msgs := s.msgs ++ [.pseudo t d .ack] }
  else if s.states d = [] ∧ b = NAK then { s with msgs := s.msgs ++ [.pseudo t d .nak] }
  else if s.states d = [] ∧ b = SOH then
    { s with
      states := Function.update s.states d [SOH]
      starts := Function.update s.starts d (some t) }
  else if s.states d ≠ [] then
    let buf := s.states d ++ [b]
    match wholeFrame buf with
    | some (hdr, dat, ck) =>
        { states := Function.update s.states d []
          starts := Function.update s.starts d none
          msgs := s.msgs ++ [.msg (s.starts d) d hdr dat ck t] }
    | none => { s with states := Function.update s.states d buf }
  else s

/-- The variables before the loop. -/
def Decoder.start : Decoder τ := ⟨fun _ => [], fun _ => none, []⟩

/-- The loop of `decode_stream`. -/
def Decoder.run (s : Decoder τ) (events : List (τ × Dir × Byte)) : Decoder τ :=
  events.foldl (fun s e => Decoder.event s e.1 e.2.1 e.2.2) s

/-- `decode_stream` -/
def decodeStream (events : List (τ × Dir × Byte)) : List (Entry τ) :=
  (Decoder.start.run events).msgs

/-- The direction, the header and the data of a message. -/
def Entry.message : Entry τ → Option (Dir × List Byte × List Byte)
  | .pseudo _ _ _ => none
  | .msg _ d hdr dat _ _ => some (d, hdr, dat)

/-- The messages of a log. -/
def messages (entries : List (Entry τ)) : List (Dir × List Byte × List Byte) :=
  entries.filterMap Entry.message

/-! ### The scanner of a direction -/

/-- How far the frame in the buffer is: behind SOH, behind the first STX, behind the ETX that
follows, and with one byte more. -/
inductive Scan where
  | idle
  | header (hdr : List Byte)
  | data (hdr dat : List Byte)
  | check (hdr dat : List Byte)
  | last (hdr dat : List Byte) (ck : Byte)

namespace Scan

/-- A byte is scanned; at the last one there is a header and data. -/
def next : Scan → Byte → Scan × List (List Byte × List Byte)
  | .idle, b => (if b = SOH then .header [] else .idle, [])
  | .header hdr, b => (if b = STX then .data hdr [] else .header (hdr ++ [b]), [])
  | .data hdr dat, b => (if b = ETX then .check hdr dat else .data hdr (dat ++ [b]), [])
  | .check hdr dat, b => (.last hdr dat b, [])
  | .last hdr dat _, _ => (.idle, [(hdr, dat)])

/-- Bytes are scanned. -/
def feed : Scan → List Byte → Scan × List (List Byte × List Byte)
  | s, [] => (s, [])
  | s, b :: bs => ((feed (s.next b).1 bs).1, (s.next b).2 ++ (feed (s.next b).1 bs).2)

/-- The buffer of the decoder. -/
def buf : Scan → List Byte
  | .idle => []
  | .header hdr => SOH :: hdr
  | .data hdr dat => SOH :: hdr ++ STX :: dat
  | .check hdr dat => SOH :: hdr ++ STX :: (dat ++ [ETX])
  | .last hdr dat ck => SOH :: hdr ++ STX :: (dat ++ [ETX, ck])

/-- What has been passed over is no STX, and no ETX. -/
def Sound : Scan → Prop
  | .idle => True
  | .header hdr => STX ∉ hdr
  | .data hdr dat => STX ∉ hdr ∧ ETX ∉ dat
  | .check hdr dat => STX ∉ hdr ∧ ETX ∉ dat
  | .last hdr dat _ => STX ∉ hdr ∧ ETX ∉ dat

theorem feed_append (s : Scan) (xs ys : List Byte) :
    s.feed (xs ++ ys) =
      (((s.feed xs).1.feed ys).1, (s.feed xs).2 ++ ((s.feed xs).1.feed ys).2) := by
  induction xs generalizing s with
  | nil => simp [feed]
  | cons x xs ih => simp [feed, ih]

theorem next_sound {s : Scan} (hs : s.Sound) (b : Byte) : (s.next b).1.Sound := by
  cases s with
  | idle =>
      simp only [next]
      split <;> simp [Sound]
  | header hdr =>
      simp only [next]
      split_ifs with hb
      · exact ⟨hs, by simp⟩
      · have hne : ¬STX = b := fun heq => hb heq.symm
        simpa [Sound, hne] using hs
  | data hdr dat =>
      simp only [next]
      split_ifs with hb
      · exact hs
      · have hne : ¬ETX = b := fun heq => hb heq.symm
        simpa [Sound, hne] using hs
  | check hdr dat => exact hs
  | last hdr dat ck => trivial

/-! ### Runs of bytes -/

theorem feed_soh : Scan.idle.feed [SOH] = (.header [], []) := rfl

theorem feed_stx (hdr : List Byte) : (Scan.header hdr).feed [STX] = (.data hdr [], []) := rfl

theorem feed_header {xs : List Byte} (hxs : STX ∉ xs) (hdr : List Byte) :
    (Scan.header hdr).feed xs = (.header (hdr ++ xs), []) := by
  induction xs generalizing hdr with
  | nil => simp [feed]
  | cons x xs ih =>
      simp only [List.mem_cons, not_or] at hxs
      have hne : ¬x = STX := fun heq => hxs.1 heq.symm
      simp [feed, next, hne, ih hxs.2]

theorem feed_data {xs : List Byte} (hxs : ETX ∉ xs) (hdr dat : List Byte) :
    (Scan.data hdr dat).feed xs = (.data hdr (dat ++ xs), []) := by
  induction xs generalizing dat with
  | nil => simp [feed]
  | cons x xs ih =>
      simp only [List.mem_cons, not_or] at hxs
      have hne : ¬x = ETX := fun heq => hxs.1 heq.symm
      simp [feed, next, hne, ih hxs.2]

/-- Data without an ETX, and what ends it. -/
theorem feed_whole {dat : List Byte} (hdat : ETX ∉ dat) (hdr : List Byte) (cks eot : Byte) :
    (Scan.data hdr []).feed (dat ++ [ETX, cks, eot]) = (.idle, [(hdr, dat)]) := by
  rw [feed_append, feed_data hdat]
  simp [feed, next]

theorem takeWhile_first {v : Byte} {front : List Byte} (hfront : v ∉ front) (rest : List Byte) :
    (front ++ v :: rest).takeWhile (· != v) = front := by
  induction front with
  | nil => simp
  | cons b front ih =>
      simp only [List.mem_cons, not_or] at hfront
      have hne : b ≠ v := fun heq => hfront.1 heq.symm
      simp [hne, ih hfront.2]

theorem takeWhile_eq_self {v : Byte} {bs : List Byte} :
    bs.takeWhile (· != v) = bs ↔ v ∉ bs := by
  constructor
  · intro heq hmem
    obtain ⟨front, rest, rfl, hfront⟩ := List.eq_append_cons_of_mem hmem
    rw [takeWhile_first hfront] at heq
    have hlen := congrArg List.length heq
    simp at hlen
  · intro hmem
    induction bs with
    | nil => rfl
    | cons b bs ih =>
        simp only [List.mem_cons, not_or] at hmem
        have hne : b ≠ v := fun heq => hmem.1 heq.symm
        simp [hne, ih hmem.2]

/-- Whatever the data, it is taken up to the first ETX. -/
theorem feed_upto (hdr dat : List Byte) (cks eot : Byte) :
    ∃ s more, (Scan.data hdr []).feed (dat ++ [ETX, cks, eot]) =
      (s, (hdr, dat.takeWhile (· != ETX)) :: more) := by
  by_cases hdat : ETX ∈ dat
  · obtain ⟨front, back, rfl, hfront⟩ := List.eq_append_cons_of_mem hdat
    -- two more bytes there are in any case
    obtain ⟨x, y, rest, hrest⟩ : ∃ x y rest, back ++ [ETX, cks, eot] = x :: y :: rest := by
      rcases back with _ | ⟨x, _ | ⟨y, back⟩⟩
      · exact ⟨_, _, _, rfl⟩
      · exact ⟨_, _, _, rfl⟩
      · exact ⟨_, _, _, rfl⟩
    have hall : front ++ ETX :: back ++ [ETX, cks, eot] = front ++ ETX :: x :: y :: rest := by
      rw [List.append_assoc, List.cons_append, hrest]
    rw [hall, feed_append, feed_data hfront, takeWhile_first hfront]
    refine ⟨(Scan.idle.feed rest).1, (Scan.idle.feed rest).2, ?_⟩
    simp [feed, next]
  · rw [feed_whole hdat, takeWhile_eq_self.mpr hdat]
    exact ⟨_, _, rfl⟩

end Scan

/-! ### The decoder and the scanner -/

theorem idxOf_first {v : Byte} {front : List Byte} (hfront : v ∉ front) (rest : List Byte) :
    (front ++ v :: rest).idxOf v = front.length := by
  rw [List.idxOf_append_of_notMem hfront, List.idxOf_cons_self, Nat.add_zero]

theorem drop_first (v : Byte) (front rest : List Byte) :
    (front ++ v :: rest).drop (front.length + 1) = rest := by
  rw [← List.drop_drop, List.drop_left, List.drop_one, List.tail_cons]

theorem wholeFrame_no_stx {buf : List Byte} (hbuf : STX ∉ buf) : wholeFrame buf = none := by
  rw [wholeFrame, if_neg (mt List.contains_iff_mem.mp hbuf)]

theorem wholeFrame_no_etx {front dat : List Byte} (hfront : STX ∉ front) (hdat : ETX ∉ dat) :
    wholeFrame (front ++ STX :: dat) = none := by
  have hmem : STX ∈ front ++ STX :: dat := by simp
  rw [wholeFrame, if_pos (List.contains_iff_mem.mpr hmem)]
  simp only [idxOf_first hfront, drop_first, if_neg (mt List.contains_iff_mem.mp hdat)]

/-- From the first STX and the first ETX behind it on, it is a matter of two more bytes. -/
theorem wholeFrame_etx {front dat : List Byte} (hfront : STX ∉ front) (hdat : ETX ∉ dat)
    (ck : List Byte) :
    wholeFrame (front ++ STX :: (dat ++ ETX :: ck)) =
      if 2 ≤ ck.length then some (front.drop 1, dat, ck.take 2) else none := by
  have hmem : STX ∈ front ++ STX :: (dat ++ ETX :: ck) := by simp
  have hetx : ETX ∈ dat ++ ETX :: ck := by simp
  rw [wholeFrame, if_pos (List.contains_iff_mem.mpr hmem)]
  simp only [idxOf_first hfront, drop_first, if_pos (List.contains_iff_mem.mpr hetx),
    idxOf_first hdat]
  have hfits : front.length + 1 + dat.length + 3 ≤ (front ++ STX :: (dat ++ ETX :: ck)).length ↔
      2 ≤ ck.length := by
    simp only [List.length_append, List.length_cons]
    omega
  have hall : front ++ STX :: (dat ++ ETX :: ck) = (front ++ STX :: dat) ++ ETX :: ck := by simp
  have hlen : (front ++ STX :: dat).length = front.length + 1 + dat.length := by
    simp only [List.length_append, List.length_cons]
    omega
  have hdata : ((front ++ STX :: (dat ++ ETX :: ck)).take (front.length + 1 + dat.length)).drop
      (front.length + 1) = dat := by
    rw [hall, ← hlen, List.take_left, drop_first]
  have hck : ((front ++ STX :: (dat ++ ETX :: ck)).take (front.length + 1 + dat.length + 3)).drop
      (front.length + 1 + dat.length + 1) = ck.take 2 := by
    rw [List.drop_take, hall, ← hlen, drop_first]
    congr 1
    omega
  rw [List.take_left, hdata, hck]
  simp only [hfits]

/-- **One byte more in the buffer** is one step of the scanner. -/
theorem wholeFrame_snoc {s : Scan} (hs : s.Sound) (hbusy : s ≠ .idle) (b : Byte) :
    match wholeFrame (s.buf ++ [b]) with
    | some (hdr, dat, _) => (s.next b).1.buf = [] ∧ (s.next b).2 = [(hdr, dat)]
    | none => (s.next b).1.buf = s.buf ++ [b] ∧ (s.next b).2 = [] := by
  have hsoh : STX ≠ SOH := by decide
  -- the buffer is the place in the frame, written out
  cases s with
  | idle => exact absurd rfl hbusy
  | header hdr =>
      have hfront : STX ∉ SOH :: hdr := List.not_mem_cons_of_ne_of_not_mem hsoh hs
      have hframe : wholeFrame ((Scan.header hdr).buf ++ [b]) = none := by
        by_cases hb : b = STX
        · subst hb
          exact wholeFrame_no_etx hfront (List.not_mem_nil)
        · refine wholeFrame_no_stx fun hmem => ?_
          rcases List.mem_append.mp hmem with hin | hlast
          · exact hfront hin
          · exact hb (List.mem_singleton.mp hlast).symm
      rw [hframe]
      by_cases hb : b = STX <;> simp [Scan.next, Scan.buf, hb]
  | data hdr dat =>
      have hfront : STX ∉ SOH :: hdr := List.not_mem_cons_of_ne_of_not_mem hsoh hs.1
      have hbuf : (Scan.data hdr dat).buf ++ [b] = (SOH :: hdr) ++ STX :: (dat ++ [b]) := by
        simp [Scan.buf]
      have hframe : wholeFrame ((Scan.data hdr dat).buf ++ [b]) = none := by
        rw [hbuf]
        by_cases hb : b = ETX
        · subst hb
          rw [wholeFrame_etx hfront hs.2, if_neg (by simp)]
        · refine wholeFrame_no_etx hfront fun hmem => ?_
          rcases List.mem_append.mp hmem with hin | hlast
          · exact hs.2 hin
          · exact hb (List.mem_singleton.mp hlast).symm
      rw [hframe]
      by_cases hb : b = ETX <;> simp [Scan.next, Scan.buf, hb]
  | check hdr dat =>
      have hfront : STX ∉ SOH :: hdr := List.not_mem_cons_of_ne_of_not_mem hsoh hs.1
      have hbuf : (Scan.check hdr dat).buf ++ [b] = (SOH :: hdr) ++ STX :: (dat ++ ETX :: [b]) := by
        simp [Scan.buf]
      have hframe : wholeFrame ((Scan.check hdr dat).buf ++ [b]) = none := by
        rw [hbuf, wholeFrame_etx hfront hs.2, if_neg (by simp)]
      rw [hframe]
      simp [Scan.next, Scan.buf]
  | last hdr dat ck =>
      have hfront : STX ∉ SOH :: hdr := List.not_mem_cons_of_ne_of_not_mem hsoh hs.1
      have hbuf : (Scan.last hdr dat ck).buf ++ [b] =
          (SOH :: hdr) ++ STX :: (dat ++ ETX :: [ck, b]) := by
        simp [Scan.buf]
      -- ETX and two bytes behind it: the frame is whole
      have hframe : wholeFrame ((Scan.last hdr dat ck).buf ++ [b]) = some (hdr, dat, [ck, b]) := by
        rw [hbuf, wholeFrame_etx hfront hs.2, if_pos (by simp)]
        rfl
      rw [hframe]
      simp [Scan.next, Scan.buf]

/-! ### Both directions -/

/-- A byte of one direction is scanned. -/
def scanEvent (scans : Dir → Scan) (d : Dir) (b : Byte) : Dir → Scan :=
  Function.update scans d ((scans d).next b).1

/-- The bytes of a line are scanned. -/
def scanLine : (Dir → Scan) → List (Dir × Byte) →
    (Dir → Scan) × List (Dir × List Byte × List Byte)
  | scans, [] => (scans, [])
  | scans, (d, b) :: bs =>
      ((scanLine (scanEvent scans d b) bs).1,
        ((scans d).next b).2.map (fun m => (d, m)) ++ (scanLine (scanEvent scans d b) bs).2)

/-- The decoder has in its buffers what has been scanned. -/
structure Scans (s : Decoder τ) (scans : Dir → Scan) : Prop where
  buf : ∀ d, s.states d = (scans d).buf
  sound : ∀ d, (scans d).Sound

theorem buf_eq_nil {s : Scan} : s.buf = [] ↔ s = .idle := by
  cases s <;> simp [Scan.buf]

theorem Scans.update {s s' : Decoder τ} {scans : Dir → Scan} (hs : Scans s scans) (d : Dir)
    {new : Scan} (hstates : s'.states = Function.update s.states d new.buf) (hnew : new.Sound) :
    Scans s' (Function.update scans d new) := by
  constructor
  · intro d'
    rw [hstates]
    by_cases hd : d' = d
    · subst hd
      simp
    · simp [hd, hs.buf d']
  · intro d'
    by_cases hd : d' = d
    · subst hd
      simpa using hnew
    · simpa [hd] using hs.sound d'

/-- **One round of the loop** is one step of a scanner. -/
theorem Scans.event {s : Decoder τ} {scans : Dir → Scan} (hs : Scans s scans) (t : τ) (d : Dir)
    (b : Byte) :
    Scans (s.event t d b) (scanEvent scans d b) ∧
      messages (s.event t d b).msgs =
        messages s.msgs ++ ((scans d).next b).2.map (fun m => (d, m)) := by
  have hnext := Scan.next_sound (hs.sound d) b
  -- between frames a control byte is noted, and SOH begins a frame
  by_cases hidle : scans d = .idle
  · have hempty : s.states d = [] := by rw [hs.buf, hidle]; rfl
    have hnone : ((scans d).next b).2 = [] := by rw [hidle]; rfl
    have hkept : b ≠ SOH → s.states = Function.update s.states d ((scans d).next b).1.buf := by
      intro hb
      rw [hidle, Scan.next, if_neg hb]
      exact (hempty ▸ (Function.update_eq_self d s.states)).symm
    have hpseudo : ∀ kind, messages (s.msgs ++ [Entry.pseudo t d kind]) = messages s.msgs := by
      intro kind
      simp [messages, Entry.message]
    unfold Decoder.event
    rw [hnone]
    split_ifs with henq hack hnak hsoh hbusy
    · exact ⟨hs.update d (hkept (by rw [henq.2]; decide)) hnext, by simpa using hpseudo .enq⟩
    · exact ⟨hs.update d (hkept (by rw [hack.2]; decide)) hnext, by simpa using hpseudo .ack⟩
    · exact ⟨hs.update d (hkept (by rw [hnak.2]; decide)) hnext, by simpa using hpseudo .nak⟩
    · refine ⟨hs.update d ?_ hnext, by simp⟩
      rw [hidle, hsoh.2]
      rfl
    · exact absurd hempty hbusy
    · exact ⟨hs.update d (hkept fun hb => hsoh ⟨hempty, hb⟩) hnext, by simp⟩
  -- within a frame every byte is added to the buffer
  · have hfull : s.states d ≠ [] := by
      rw [hs.buf]
      exact fun hnil => hidle (buf_eq_nil.mp hnil)
    have hsnoc := wholeFrame_snoc (hs.sound d) hidle b
    rw [← hs.buf] at hsnoc
    unfold Decoder.event
    simp only [hfull, false_and, if_false, ne_eq, not_false_eq_true, if_true]
    cases hwhole : wholeFrame (s.states d ++ [b]) with
    | none =>
        rw [hwhole] at hsnoc
        refine ⟨hs.update d ?_ hnext, ?_⟩
        · rw [hsnoc.1]
        · rw [hsnoc.2]
          simp
    | some found =>
        obtain ⟨hdr, dat, ck⟩ := found
        rw [hwhole] at hsnoc
        refine ⟨hs.update d ?_ hnext, ?_⟩
        · rw [hsnoc.1]
        · rw [hsnoc.2]
          simp [messages, Entry.message]

theorem Scans.run {s : Decoder τ} {scans : Dir → Scan} (hs : Scans s scans)
    (events : List (τ × Dir × Byte)) :
    messages (s.run events).msgs =
      messages s.msgs ++ (scanLine scans (events.map Prod.snd)).2 := by
  induction events generalizing s scans with
  | nil => simp [Decoder.run, scanLine]
  | cons e events ih =>
      obtain ⟨hnext, hmsgs⟩ := hs.event e.1 e.2.1 e.2.2
      have hrest := ih hnext
      show messages ((s.event e.1 e.2.1 e.2.2).run events).msgs = _
      rw [hrest, hmsgs, List.append_assoc]
      rfl

/-- Every direction waits for a frame. -/
def atRest : Dir → Scan := fun _ => .idle

/-- **The messages of a log** are those of its scanners. -/
theorem messages_decodeStream (events : List (τ × Dir × Byte)) :
    messages (decodeStream events) = (scanLine atRest (events.map Prod.snd)).2 := by
  have hstart : Scans (Decoder.start : Decoder τ) atRest := ⟨fun _ => rfl, fun _ => trivial⟩
  simpa [decodeStream, messages, Decoder.start] using hstart.run events

/-! ### A frame on the wire -/

theorem scanLine_append (scans : Dir → Scan) (xs ys : List (Dir × Byte)) :
    scanLine scans (xs ++ ys) =
      ((scanLine (scanLine scans xs).1 ys).1,
        (scanLine scans xs).2 ++ (scanLine (scanLine scans xs).1 ys).2) := by
  induction xs generalizing scans with
  | nil => simp [scanLine]
  | cons x xs ih => simp [scanLine, ih]

/-- Bytes of one direction. -/
theorem scanLine_said (scans : Dir → Scan) (d : Dir) (bs : List Byte) :
    scanLine scans (bs.map (fun b => (d, b))) =
      (Function.update scans d ((scans d).feed bs).1,
        ((scans d).feed bs).2.map fun m => (d, m)) := by
  induction bs generalizing scans with
  | nil => simp [scanLine, Scan.feed]
  | cons b bs ih => simp [scanLine, Scan.feed, ih, scanEvent]

/-- An ENQ or an ACK between frames changes nothing. -/
theorem scanLine_between {scans : Dir → Scan} {d : Dir} (hidle : scans d = .idle) {b : Byte}
    (hb : b ≠ SOH) : scanLine scans [(d, b)] = (scans, []) := by
  have hsame : scanEvent scans d b = scans := by
    rw [scanEvent, hidle, Scan.next, if_neg hb, ← hidle]
    exact Function.update_eq_self d scans
  simp [scanLine, hsame, hidle, Scan.next]

/-- What the log has of a turn of the party in this direction. -/
def logged (d : Dir) : Turn Byte → List (Dir × Byte)
  | .say bs => bs.map fun b => (d, b)
  | .hear bs => bs.map fun b => (d.other, b)

/-- A frame that is sent. -/
structure SentFrame where
  dir : Dir
  hdr : List Byte
  payload : List Byte
  hdr_length : hdr.length = 5
  payload_pos : 1 ≤ payload.length
  payload_le : payload.length ≤ 256

namespace SentFrame

/-- A frame and the ACKs of its receiver, as they are on the wire. -/
def onWire (f : SentFrame) : List (Dir × Byte) :=
  (frameTurns f.hdr f.payload).flatMap (logged f.dir)

/-- The checksum of the header. -/
def hcs (f : SentFrame) : Byte := 0#8 - sumFrom SOH f.hdr

/-- What the decoder should make of it. -/
def message (f : SentFrame) : Dir × List Byte × List Byte := (f.dir, f.hdr, f.payload)

/-- The bytes of the frame, without ENQ. -/
def bytes (f : SentFrame) : List Byte := headerBytes f.hdr ++ messageBytes f.payload

/-- The ACKs of the receiver and the ENQ are no part of a frame. -/
theorem scanLine_onWire (f : SentFrame) :
    scanLine atRest f.onWire =
      (Function.update atRest f.dir (Scan.idle.feed f.bytes).1,
        (Scan.idle.feed f.bytes).2.map fun m => (f.dir, m)) := by
  have henq : scanLine atRest [(f.dir, ENQ)] = (atRest, []) := scanLine_between rfl (by decide)
  have hack : ∀ s : Scan, scanLine (Function.update atRest f.dir s) [(f.dir.other, ACK)] =
      (Function.update atRest f.dir s, []) := by
    intro s
    refine scanLine_between ?_ (by decide)
    rw [Function.update_of_ne f.dir.other_ne]
    rfl
  have hack' : scanLine atRest [(f.dir.other, ACK)] = (atRest, []) := by
    have hidle := hack .idle
    rwa [show Function.update atRest f.dir .idle = atRest from Function.update_eq_self f.dir atRest]
      at hidle
  have hwire : f.onWire = [(f.dir, ENQ)] ++ ([(f.dir.other, ACK)] ++
      ((headerBytes f.hdr).map (fun b => (f.dir, b)) ++ ([(f.dir.other, ACK)] ++
        ((messageBytes f.payload).map (fun b => (f.dir, b)) ++ [(f.dir.other, ACK)])))) := by
    simp [onWire, frameTurns, logged]
  rw [hwire, bytes, Scan.feed_append]
  simp only [scanLine_append, scanLine_said, henq, hack, hack', Function.update_self,
    Function.update_idem, List.nil_append, List.append_nil, List.map_append]
  rfl

/-- No STX is in the header or its checksum, and no ETX in the data. -/
def Clear (f : SentFrame) : Prop := STX ∉ f.hdr ++ [f.hcs] ∧ ETX ∉ f.payload

theorem bytes_eq (f : SentFrame) :
    f.bytes = [SOH] ++ ((f.hdr ++ [f.hcs]) ++ ([STX] ++ (f.payload ++
      [ETX, 0#8 - (sumFrom STX f.payload + ETX), EOT]))) := by
  simp [bytes, headerBytes, messageBytes, hcs]

/-- A clear frame is one message, the checksum in its header. -/
theorem feed_clear {f : SentFrame} (hclear : f.Clear) :
    Scan.idle.feed f.bytes = (.idle, [(f.hdr ++ [f.hcs], f.payload)]) := by
  rw [bytes_eq, Scan.feed_append, Scan.feed_soh, Scan.feed_append, Scan.feed_header hclear.1,
    Scan.feed_append, Scan.feed_stx, Scan.feed_whole hclear.2]
  rfl

/-- A byte put in front of some first ones does not give them all. -/
theorem cons_takeWhile_ne {p : Byte → Bool} {c : Byte} (hc : p c = true) (bs : List Byte) :
    c :: bs.takeWhile p ≠ bs := by
  induction bs with
  | nil => simp
  | cons b bs ih =>
      intro heq
      obtain ⟨rfl, hrest⟩ := List.cons.inj heq
      rw [List.takeWhile_cons_of_pos hc] at hrest
      exact ih hrest

/-- **The first message** that comes of a frame is never the frame; its first five bytes of
header and its data are, exactly if the frame is clear. -/
theorem feed_first (f : SentFrame) :
    ∃ s hdr dat more, Scan.idle.feed f.bytes = (s, (hdr, dat) :: more) ∧
      (hdr, dat) ≠ (f.hdr, f.payload) ∧
      ((hdr.take 5, dat) = (f.hdr, f.payload) ↔ f.Clear) := by
  have hlen := f.hdr_length
  by_cases hhdr : STX ∈ f.hdr ++ [f.hcs]
  · -- the frame seems to have less of a header
    obtain ⟨front, back, hsplit, hfront⟩ := List.eq_append_cons_of_mem hhdr
    obtain ⟨s, more, hfed⟩ := Scan.feed_upto front (back ++ STX :: f.payload)
      (0#8 - (sumFrom STX f.payload + ETX)) EOT
    have hbytes : f.bytes = [SOH] ++ (front ++ ([STX] ++ ((back ++ STX :: f.payload) ++
        [ETX, 0#8 - (sumFrom STX f.payload + ETX), EOT]))) := by
      rw [bytes_eq, hsplit]
      simp
    have hno : (front, (back ++ STX :: f.payload).takeWhile (· != ETX)) ≠ (f.hdr, f.payload) := by
      intro heq
      obtain ⟨hfrontEq, hdat⟩ := Prod.mk.inj heq
      -- all of the header is there, so the checksum is the STX
      have hback : back = [] := by
        have hsum := congrArg List.length hsplit
        rw [hfrontEq] at hsum
        simp only [List.length_append, List.length_cons, List.length_nil] at hsum
        exact List.length_eq_zero_iff.mp (by omega)
      rw [hback, List.nil_append, List.takeWhile_cons_of_pos (by decide)] at hdat
      exact cons_takeWhile_ne (by decide) _ hdat
    have hshort : front.length ≤ 5 := by
      have hsum := congrArg List.length hsplit
      simp only [List.length_append, List.length_cons, List.length_nil] at hsum
      omega
    refine ⟨s, front, (back ++ STX :: f.payload).takeWhile (· != ETX), more, ?_, hno, ?_⟩
    · rw [hbytes, Scan.feed_append, Scan.feed_soh, Scan.feed_append, Scan.feed_header hfront,
        Scan.feed_append, Scan.feed_stx, List.nil_append, hfed]
      rfl
    · rw [List.take_of_length_le hshort]
      exact iff_of_false hno fun hclear => hclear.1 hhdr
  · obtain ⟨s, more, hfed⟩ := Scan.feed_upto (f.hdr ++ [f.hcs]) f.payload
      (0#8 - (sumFrom STX f.payload + ETX)) EOT
    refine ⟨s, f.hdr ++ [f.hcs], f.payload.takeWhile (· != ETX), more, ?_, ?_, ?_⟩
    · rw [bytes_eq, Scan.feed_append, Scan.feed_soh, Scan.feed_append, Scan.feed_header hhdr,
        Scan.feed_append, Scan.feed_stx, List.nil_append, hfed]
      rfl
    · intro heq
      have hsix := congrArg List.length (Prod.mk.inj heq).1
      simp at hsix
    · rw [← hlen, List.take_left, Prod.mk.injEq, Scan.takeWhile_eq_self]
      exact ⟨fun heq => ⟨hhdr, heq.2⟩, fun hclear => ⟨rfl, hclear.2⟩⟩

end SentFrame

/-! ### A conversation -/

/-- Frames that are exchanged, one after the other. -/
def conversation (frames : List SentFrame) : List (Dir × Byte) := frames.flatMap SentFrame.onWire

/-- A message with only what the decoder prints of its header. -/
def headed (m : Dir × List Byte × List Byte) : Dir × List Byte × List Byte :=
  (m.1, m.2.1.take 5, m.2.2)

/-- **The conversation is recovered** from the log of no frames only, as the header has its
checksum with it.  Of the first five bytes of each header, and the data, it is recovered exactly
if no header or checksum of one has an STX in it, and no payload an ETX. -/
theorem decodeStream_recovers_iff (frames : List SentFrame) (events : List (τ × Dir × Byte))
    (hlog : events.map Prod.snd = conversation frames) :
    (messages (decodeStream events) = frames.map SentFrame.message ↔ frames = []) ∧
    ((messages (decodeStream events)).map headed = frames.map SentFrame.message ↔
      ∀ f ∈ frames, f.Clear) := by
  rw [messages_decodeStream, hlog]
  clear hlog
  induction frames with
  | nil => simp [conversation, scanLine]
  | cons f frames ih =>
      have hwire : conversation (f :: frames) = f.onWire ++ conversation frames := rfl
      obtain ⟨s, hdr, dat, more, hfed, hne, hclear⟩ := f.feed_first
      have hline := f.scanLine_onWire
      rw [hwire, scanLine_append, List.map_cons]
      constructor
      · -- the first message is not the first frame
        refine iff_of_false (fun heq => ?_) (List.cons_ne_nil _ _)
        rw [hline, hfed, List.map_cons, List.cons_append] at heq
        exact hne (Prod.mk.inj (List.cons.inj heq).1).2
      · by_cases hf : f.Clear
        · have hrest : Function.update atRest f.dir Scan.idle = atRest :=
            Function.update_eq_self f.dir atRest
          have hhead : headed (f.dir, f.hdr ++ [f.hcs], f.payload) = f.message := by
            have hfive : (f.hdr ++ [f.hcs]).take 5 = f.hdr := by
              rw [← f.hdr_length, List.take_left]
            rw [headed, hfive]
            rfl
          rw [hline, SentFrame.feed_clear hf, hrest]
          simp only [List.map_cons, List.map_nil, List.cons_append, List.nil_append,
            List.cons.injEq, hhead, true_and, List.forall_mem_cons, hf]
          exact ih.2
        · refine iff_of_false (fun heq => ?_) fun hall => hf (hall f List.mem_cons_self)
          rw [hline, hfed, List.map_cons, List.cons_append, List.map_cons] at heq
          exact hf (hclear.mp (Prod.mk.inj (List.cons.inj heq).1).2)

/-- A frame of one byte, which is clear. -/
def logIn : SentFrame :=
  ⟨.fromMame, [0x00#8, 0x00#8, 0x70#8, 0x40#8, 0x00#8], [0x41#8], rfl, by decide, by decide⟩

/-- The frame, with the times left out. -/
theorem decodeStream_recovers_one :
    (messages (decodeStream (logIn.onWire.map fun e => ((), e))) = [logIn].map SentFrame.message ↔
      [logIn] = []) ∧
    ((messages (decodeStream (logIn.onWire.map fun e => ((), e)))).map headed =
        [logIn].map SentFrame.message ↔ ∀ f ∈ [logIn], f.Clear) :=
  decodeStream_recovers_iff [logIn] (logIn.onWire.map fun e => ((), e)) (by decide)

/-- The checksum of the header is read as a part of it. -/
theorem decodeStream_not_recovers :
    ¬∀ (frames : List SentFrame) (events : List (Nat × Dir × Byte)),
      events.map Prod.snd = conversation frames →
      messages (decodeStream events) = frames.map SentFrame.message := by
  intro hall
  have heq := hall [logIn] (logIn.onWire.map fun e => (0, e)) (by decide)
  exact absurd heq (by decide)

end Link
end Rc700
