import Rc700.Link.Connection
import Rc700.Link.Snios
import Mathlib.Data.List.GetD

/-!
# Receiving a frame

RCVMSG keeps the return address of RECALL on the stack until it returns, and a try that
fails costs one of its retries.  What it accepts at the first try is exactly a frame,
which it stores (`rcvmsg_accepts`).

The server accepts the same frames.  As a checksum determines each byte that it covers,
neither takes a frame with one byte replaced for another (`receivers_accept_frames`).
-/

namespace Rc700
namespace Link

open Library Snios

variable (port : Port) {m m' : Snios} {xs : List Byte}

/-! ### The stack -/

/-- The places of RCVMSG. -/
def Wait.receives : Wait → Bool
  | .enqrsp => false
  | .getack => false
  | _ => true

/-- RCVMSG waits for a byte. -/
structure Receiving (m : Snios) : Prop where
  waits : ∃ w : Wait, m.place = .waiting w ∧ w.receives = true
  stack : m.stack = [.recall]
  popped : m.popped = 0
  tries : 0 < m.retcnt.toNat

/-- The call has returned to its caller, with a result. -/
structure Returned (m : Snios) : Prop where
  place : m.place = .returned 0
  stack : m.stack = []
  popped : m.popped = 1
  result : m.a = 0x00#8 ∨ m.a = 0xFF#8

/-- A return from RECV starts another try, or ends RCVMSG. -/
theorem ret_recall (hstack : m.stack = [.recall]) (hpopped : m.popped = 0)
    (htries : 0 < m.retcnt.toNat) :
    (Receiving (ret port m) ∨ Returned (ret port m)) ∧
      (ret port m).retcnt.toNat + 1 = m.retcnt.toNat := by
  have hpred : (m.retcnt - 1#8).toNat + 1 = m.retcnt.toNat := by bv_omega
  rw [ret, hstack, retTo]
  by_cases hzero : m.retcnt - 1#8 = 0#8
  · rw [if_neg (not_not_intro hzero)]
    refine ⟨.inr ⟨?_, rfl, ?_, .inr rfl⟩, hpred⟩
    · show Place.returned m.popped = _
      rw [hpopped]
    · show m.popped + 1 = 1
      rw [hpopped]
  · rw [if_pos hzero]
    refine ⟨.inl ⟨⟨.rcvfst, rfl, rfl⟩, rfl, hpopped, ?_⟩, hpred⟩
    show 0 < (m.retcnt - 1#8).toNat
    bv_omega

/-- A return past RECV ends RCVMSG. -/
theorem ret_caller (hstack : m.stack = []) (hpopped : m.popped = 0)
    (hresult : m.a = 0x00#8 ∨ m.a = 0xFF#8) : Returned (ret port m) := by
  rw [ret, hstack]
  refine ⟨?_, rfl, ?_, hresult⟩
  · show Place.returned m.popped = _
    rw [hpopped]
  · show m.popped + 1 = 1
    rw [hpopped]

theorem pop_recall (hstack : m.stack = [.recall]) : pop m = { m with stack := [] } := by
  rw [pop, hstack]

theorem accept_retcnt (hstack : m.stack = [.recall]) : (accept port m).retcnt = m.retcnt := by
  unfold accept
  rw [pop_recall hstack]
  rfl

theorem accept_returned (hstack : m.stack = [.recall]) (hpopped : m.popped = 0) :
    Returned (accept port m) := by
  unfold accept
  rw [pop_recall hstack]
  refine ret_caller port rfl hpopped ?_
  show (if _ then _ else _) = _ ∨ (if _ then _ else _) = _
  split
  · exact .inl rfl
  · split
    · exact .inl rfl
    · exact .inr rfl

/-- What a byte leaves alone within a try. -/
structure Within (m m' : Snios) : Prop where
  stack : m'.stack = m.stack
  popped : m'.popped = m.popped
  retcnt : m'.retcnt = m.retcnt
  netst : m'.netst = m.netst

/-- What comes of a byte: RCVMSG waits for another, the try fails, the wait for ENQ is
over, or the frame is accepted. -/
inductive Receipt (port : Port) (m : Snios) : Snios → Prop
  | waits {m' : Snios} (hwithin : Within m m')
      (hplace : ∃ w : Wait, m'.place = .waiting w ∧ w.receives = true) : Receipt port m m'
  | fails {m₀ : Snios} (hwithin : Within m m₀) : Receipt port m (ret port m₀)
  | times {m₀ : Snios} (hwithin : Within m m₀) : Receipt port m (rcvtmo port (pop m₀))
  | accepts {m₀ : Snios} (hwithin : Within m m₀) : Receipt port m (accept port m₀)

theorem feed_receipt {w : Wait} (hplace : m.place = .waiting w) (hreceives : w.receives = true)
    (x : Option Byte) : Receipt port m (feed port x m) := by
  have hsame : Within m m := ⟨rfl, rfl, rfl, rfl⟩
  unfold feed
  rw [hplace]
  -- one case for each place in the receiver, without and with a byte
  cases w with
  | enqrsp => exact nomatch hreceives
  | getack => exact nomatch hreceives
  | rcvfst =>
      cases x with
      | none =>
          simp only
          split
          · exact .waits ⟨rfl, rfl, rfl, rfl⟩ ⟨.rcvfst, rfl, rfl⟩
          · exact .times ⟨rfl, rfl, rfl, rfl⟩
      | some b =>
          simp only
          split
          · exact .waits ⟨rfl, rfl, rfl, rfl⟩ ⟨.soh, rfl, rfl⟩
          · exact .waits ⟨rfl, rfl, rfl, rfl⟩ ⟨.rcvfst, rfl, rfl⟩
  | soh =>
      cases x with
      | none => exact .waits hsame ⟨.soh, hplace, rfl⟩
      | some b =>
          simp only
          split
          · exact .waits ⟨rfl, rfl, rfl, rfl⟩ ⟨.header, rfl, rfl⟩
          · exact .fails hsame
  | header =>
      cases x with
      | none => exact .waits hsame ⟨.header, hplace, rfl⟩
      | some b =>
          simp only
          split
          · exact .waits ⟨rfl, rfl, rfl, rfl⟩ ⟨.header, hplace, rfl⟩
          · exact .waits ⟨rfl, rfl, rfl, rfl⟩ ⟨.hcs, rfl, rfl⟩
  | hcs =>
      cases x with
      | none => exact .waits hsame ⟨.hcs, hplace, rfl⟩
      | some b =>
          simp only
          split
          · exact .fails ⟨rfl, rfl, rfl, rfl⟩
          · exact .waits ⟨rfl, rfl, rfl, rfl⟩ ⟨.stx, rfl, rfl⟩
  | stx =>
      cases x with
      | none => exact .waits hsame ⟨.stx, hplace, rfl⟩
      | some b =>
          simp only
          split
          · exact .waits ⟨rfl, rfl, rfl, rfl⟩ ⟨.data, rfl, rfl⟩
          · exact .fails hsame
  | data =>
      cases x with
      | none => exact .waits hsame ⟨.data, hplace, rfl⟩
      | some b =>
          simp only
          split
          · exact .waits ⟨rfl, rfl, rfl, rfl⟩ ⟨.data, hplace, rfl⟩
          · exact .waits ⟨rfl, rfl, rfl, rfl⟩ ⟨.etx, rfl, rfl⟩
  | etx =>
      cases x with
      | none => exact .waits hsame ⟨.etx, hplace, rfl⟩
      | some b =>
          simp only
          split
          · exact .waits ⟨rfl, rfl, rfl, rfl⟩ ⟨.cks, rfl, rfl⟩
          · exact .fails hsame
  | cks =>
      cases x with
      | none => exact .waits hsame ⟨.cks, hplace, rfl⟩
      | some b => exact .waits ⟨rfl, rfl, rfl, rfl⟩ ⟨.eot, rfl, rfl⟩
  | eot =>
      cases x with
      | none => exact .waits hsame ⟨.eot, hplace, rfl⟩
      | some b =>
          simp only
          split
          · split
            · exact .fails ⟨rfl, rfl, rfl, rfl⟩
            · exact .accepts hsame
          · exact .fails hsame

/-- **One byte more**: RCVMSG waits for another, or has returned; and no try is gained. -/
theorem feed_receiving (hm : Receiving m) (x : Option Byte) :
    (Receiving (feed port x m) ∨ Returned (feed port x m)) ∧
      (feed port x m).retcnt.toNat ≤ m.retcnt.toNat := by
  obtain ⟨⟨w, hplace, hreceives⟩, hstack, hpopped, htries⟩ := hm
  have hreceipt := feed_receipt port hplace hreceives x
  generalize feed port x m = m' at hreceipt ⊢
  cases hreceipt with
  | waits hwithin hwaits =>
      have htries' := hwithin.retcnt ▸ htries
      exact ⟨.inl ⟨hwaits, hwithin.stack.trans hstack, hwithin.popped.trans hpopped, htries'⟩,
        Nat.le_of_eq (congrArg BitVec.toNat hwithin.retcnt)⟩
  | fails hwithin =>
      have hret := ret_recall port (hwithin.stack.trans hstack)
        (hwithin.popped.trans hpopped) (hwithin.retcnt ▸ htries)
      rw [hwithin.retcnt] at hret
      exact ⟨hret.1, by omega⟩
  | times hwithin =>
      have hpop := pop_recall (hwithin.stack.trans hstack)
      rw [hpop, rcvtmo]
      exact ⟨.inr (ret_caller port rfl (hwithin.popped.trans hpopped) (.inr rfl)),
        Nat.le_of_eq (congrArg BitVec.toNat hwithin.retcnt)⟩
  | accepts hwithin =>
      have hstack' := hwithin.stack.trans hstack
      have hpopped' := hwithin.popped.trans hpopped
      refine ⟨.inr (accept_returned port hstack' hpopped'), ?_⟩
      rw [accept_retcnt port hstack', hwithin.retcnt]

theorem run_cons (x : Option Byte) (ys : List (Option Byte)) :
    run port m (x :: ys) = run port (feed port x m) ys := rfl

theorem run_append (xs ys : List (Option Byte)) :
    run port m (xs ++ ys) = run port (run port m xs) ys := List.foldl_append

/-- After the return nothing is heard. -/
theorem run_returned {word : Nat} (hplace : m.place = .returned word) (ys : List (Option Byte)) :
    run port m ys = m := by
  induction ys with
  | nil => rfl
  | cons y ys ih =>
      have hfeed : feed port y m = m := by
        unfold feed
        rw [hplace]
      rw [run_cons, hfeed, ih]

/-- **The run of RCVMSG**: it waits, or it has returned to its caller. -/
theorem run_receiving (hm : Receiving m ∨ Returned m) (ys : List (Option Byte)) :
    (Receiving (run port m ys) ∨ Returned (run port m ys)) ∧
      (run port m ys).retcnt.toNat ≤ m.retcnt.toNat := by
  induction ys generalizing m with
  | nil => exact ⟨hm, Nat.le_refl _⟩
  | cons y ys ih =>
      rcases hm with hm | hm
      · have hstep := feed_receiving port hm y
        have hrest := ih hstep.1
        rw [run_cons]
        exact ⟨hrest.1, Nat.le_trans hrest.2 hstep.2⟩
      · rw [run_returned port hm.place]
        exact ⟨.inr hm, Nat.le_refl _⟩

/-! ### The first try -/

/-- RCVMSG at its first try. -/
structure FirstTry (m : Snios) : Prop where
  stack : m.stack = [.recall]
  popped : m.popped = 0
  retcnt : m.retcnt = MAXRETRY

/-- RCVMSG returns at its first try. -/
def Ends (port : Port) (m : Snios) (xs : List Byte) (m' : Snios) : Prop :=
  ∃ n, run port m ((xs.take n).map some) = m' ∧ (∃ word, m'.place = .returned word) ∧
    m'.retcnt = MAXRETRY

theorem ends_waiting {w : Wait} (hplace : m.place = .waiting w) :
    Ends port m xs m' ↔ ∃ b ys, xs = b :: ys ∧ Ends port (feed port (some b) m) ys m' := by
  constructor
  · rintro ⟨n, hrun, ⟨word, hword⟩, hretcnt⟩
    have hstays : m' ≠ m := by
      rintro rfl
      rw [hplace] at hword
      exact nomatch hword
    cases n with
    | zero => exact absurd hrun.symm hstays
    | succ n =>
        cases xs with
        | nil => exact absurd hrun.symm hstays
        | cons b ys => exact ⟨b, ys, rfl, n, hrun, ⟨word, hword⟩, hretcnt⟩
  · rintro ⟨b, ys, rfl, n, hrun, hreturned⟩
    exact ⟨n + 1, hrun, hreturned⟩

theorem ends_returned (hplace : m.place = .returned 0) (hretcnt : m.retcnt = MAXRETRY) :
    Ends port m xs m' ↔ m' = m := by
  constructor
  · rintro ⟨n, hrun, -⟩
    rw [run_returned port hplace] at hrun
    exact hrun.symm
  · rintro rfl
    exact ⟨0, rfl, ⟨0, hplace⟩, hretcnt⟩

/-- A try that fails is the last that is the first. -/
theorem not_ends_ret (hm : FirstTry m) : ¬ Ends port (ret port m) xs m' := by
  rintro ⟨n, hrun, -, hretcnt⟩
  have htries : 0 < m.retcnt.toNat := by
    rw [hm.retcnt]
    decide
  have hret := ret_recall port hm.stack hm.popped htries
  have hrest := (run_receiving port hret.1 ((xs.take n).map some)).2
  rw [hrun, hretcnt, ← hm.retcnt] at hrest
  omega

/-- A control byte that is not as expected fails the try. -/
theorem ends_control {w : Wait} {c : Byte} {next : Byte → Snios} (hm : FirstTry m)
    (hplace : m.place = .waiting w)
    (hfeed : ∀ b, feed port (some b) m = if low7 b = c then next b else ret port m) :
    Ends port m xs m' ↔ ∃ b ys, xs = b :: ys ∧ low7 b = c ∧ Ends port (next b) ys m' := by
  rw [ends_waiting port hplace]
  refine exists_congr fun b => exists_congr fun ys => and_congr_right fun _ => ?_
  rw [hfeed b]
  by_cases hc : low7 b = c
  · rw [if_pos hc]
    exact (and_iff_right hc).symm
  · rw [if_neg hc]
    exact iff_of_false (not_ends_ret port hm) (fun hends => hc hends.1)

/-- A checksum that is not zero fails the try, with a NAK. -/
theorem ends_checksum {m₀ : Snios} (hm : FirstTry m) :
    Ends port (if m.d ≠ 0#8 then badcks port m else m₀) xs m' ↔
      m.d = 0#8 ∧ Ends port m₀ xs m' := by
  by_cases hd : m.d = 0#8
  · rw [if_neg (not_not_intro hd)]
    exact (and_iff_right hd).symm
  · rw [if_pos hd]
    have hnak : FirstTry (sendby NAK m) := ⟨hm.stack, hm.popped, hm.retcnt⟩
    exact iff_of_false (not_ends_ret port hnak) (fun hends => hd hends.1)

/-- What `MSGIN` does with bytes. -/
def take (bytes : List Byte) (m : Snios) : Snios :=
  { m with
    mem := storeAt m.mem m.hl bytes
    hl := m.hl + BitVec.ofNat 16 bytes.length
    d := sumFrom m.d bytes
    e := m.e - BitVec.ofNat 8 bytes.length }

theorem take_nil : take [] m = m := by
  unfold take
  rw [List.length_nil, BitVec.add_zero, BitVec.sub_zero]
  rfl

theorem take_cons (b : Byte) (bytes : List Byte) :
    take (b :: bytes) m = take bytes (msgin b m) := by
  have hhl : m.hl + BitVec.ofNat 16 (bytes.length + 1) =
      m.hl + 1#16 + BitVec.ofNat 16 bytes.length := (add_one_add_ofNat m.hl bytes.length).symm
  have he : m.e - BitVec.ofNat 8 (bytes.length + 1) = m.e - 1#8 - BitVec.ofNat 8 bytes.length := by
    bv_omega
  unfold take
  rw [List.length_cons, hhl, he]
  rfl

/-- A place where `MSGIN` waits, and the place after it. -/
def FeedsMsgin (w next : Wait) : Prop :=
  ∀ (m : Snios) (b : Byte), m.place = .waiting w →
    feed port (some b) m = if (msgin b m).e ≠ 0#8 then msgin b m else await next (msgin b m)

theorem feed_header : FeedsMsgin port .header .hcs := by
  intro m b hplace
  unfold feed
  rw [hplace]

theorem feed_data : FeedsMsgin port .data .etx := by
  intro m b hplace
  unfold feed
  rw [hplace]

/-- **`MSGIN`** takes as many bytes as it is asked for. -/
theorem ends_msgin {w next : Wait} (hfeed : FeedsMsgin port w next)
    (hplace : m.place = .waiting w) :
    Ends port m xs m' ↔ ∃ bytes ys, bytes.length = passes m.e ∧ xs = bytes ++ ys ∧
      Ends port (await next (take bytes m)) ys m' := by
  -- by induction on the passes; the counter reaches zero at the last of them
  generalize hn : passes m.e = n
  induction n generalizing m xs with
  | zero => exact absurd hn (Nat.succ_ne_zero _)
  | succ n ih =>
      rw [ends_waiting port hplace]
      by_cases hlast : m.e - 1#8 = 0#8
      · -- the last byte
        have hzero : n = 0 := by
          rw [passes, hlast] at hn
          exact (Nat.succ_inj.mp hn).symm
        subst hzero
        have hend : ∀ b, (msgin b m).e = 0#8 := fun _ => hlast
        constructor
        · rintro ⟨b, ys, rfl, hends⟩
          rw [hfeed m b hplace, if_neg (not_not_intro (hend b))] at hends
          refine ⟨[b], ys, rfl, rfl, ?_⟩
          rw [take_cons, take_nil]
          exact hends
        · rintro ⟨bytes, ys, hlen, rfl, hends⟩
          obtain ⟨b, rfl⟩ := List.length_eq_one_iff.mp hlen
          rw [take_cons, take_nil] at hends
          refine ⟨b, ys, rfl, ?_⟩
          rw [hfeed m b hplace, if_neg (not_not_intro (hend b))]
          exact hends
      · have hmore : ∀ b, (msgin b m).e ≠ 0#8 := fun _ => hlast
        have hpasses : ∀ b, passes (msgin b m).e = n := by
          intro b
          show passes (m.e - 1#8) = n
          unfold passes at hn ⊢
          bv_omega
        have hrest : ∀ b ys, Ends port (msgin b m) ys m' ↔
            ∃ bytes zs, bytes.length = n ∧ ys = bytes ++ zs ∧
              Ends port (await next (take bytes (msgin b m))) zs m' := by
          intro b ys
          exact ih hplace (hpasses b)
        constructor
        · rintro ⟨b, ys, rfl, hends⟩
          rw [hfeed m b hplace, if_pos (hmore b)] at hends
          obtain ⟨bytes, zs, hlen, rfl, htaken⟩ := (hrest b ys).mp hends
          refine ⟨b :: bytes, zs, by rw [List.length_cons, hlen], rfl, ?_⟩
          rw [take_cons]
          exact htaken
        · rintro ⟨bytes, ys, hlen, rfl, hends⟩
          cases bytes with
          | nil => exact nomatch hlen
          | cons b bytes =>
              rw [take_cons] at hends
              refine ⟨b, bytes ++ ys, rfl, ?_⟩
              rw [hfeed m b hplace, if_pos (hmore b)]
              exact (hrest b _).mpr ⟨bytes, ys, Nat.succ_inj.mp hlen, rfl, hends⟩

/-- The header is taken. -/
def withHeader (hdr : List Byte) (m : Snios) : Snios :=
  take hdr { m with d := SOH, e := 5#8 }

/-- The data is taken. -/
def withData (hdr payload : List Byte) (m : Snios) : Snios :=
  take payload { sendby ACK (withHeader hdr m) with d := STX, e := siz hdr + 1#8 }

/-- The whole frame is taken. -/
def withFrame (hdr payload : List Byte) (m : Snios) : Snios :=
  await .eot { withData hdr payload m with d := 0#8 }

/-- SIZ is read back from the message. -/
theorem withHeader_siz {hdr : List Byte} (hlen : hdr.length = 5) :
    (withHeader hdr m).mem ((withHeader hdr m).hl - 1#16) = siz hdr := by
  have hhl : (withHeader hdr m).hl - 1#16 = m.hl + BitVec.ofNat 16 4 := by
    show m.hl + BitVec.ofNat 16 hdr.length - 1#16 = _
    rw [hlen]
    bv_omega
  rw [hhl]
  show storeAt m.mem m.hl hdr _ = _
  rw [storeAt_self _ _ (by omega) (by omega), siz, List.getD_eq_getElem _ _ (by omega)]

/-- The header of a frame, with its checksum. -/
theorem ends_header (hm : FirstTry m) (hplace : m.place = .waiting .soh) :
    Ends port m xs m' ↔
      ∃ soh hdr hcs ys, xs = soh :: hdr ++ hcs :: ys ∧ low7 soh = SOH ∧ hdr.length = 5 ∧
        sumFrom SOH hdr + hcs = 0 ∧
        Ends port (await .stx (sendby ACK { withHeader hdr m with d := 0#8 })) ys m' := by
  have hfive : passes 5#8 = 5 := by decide
  -- SOH, the five bytes, and HCS, each as an equivalence on what follows
  have hsoh : Ends port m xs m' ↔ ∃ b ys, xs = b :: ys ∧ low7 b = SOH ∧
      Ends port (await .header { m with d := low7 b, e := 5#8 }) ys m' := by
    refine ends_control port hm hplace fun b => ?_
    rw [feed, hplace]
  have hhdr : ∀ ys, Ends port (await .header { m with d := SOH, e := 5#8 }) ys m' ↔
      ∃ hdr zs, hdr.length = 5 ∧ ys = hdr ++ zs ∧
        Ends port (await .hcs (withHeader hdr m)) zs m' := by
    intro ys
    refine (ends_msgin (m := await .header { m with d := SOH, e := 5#8 }) port (feed_header port)
      rfl).trans ?_
    show (∃ hdr zs, hdr.length = passes 5#8 ∧ ys = hdr ++ zs ∧
      Ends port (await .hcs (withHeader hdr m)) zs m') ↔ _
    rw [hfive]
  have hhcs : ∀ hdr ys, Ends port (await .hcs (withHeader hdr m)) ys m' ↔
      ∃ hcs zs, ys = hcs :: zs ∧ sumFrom SOH hdr + hcs = 0 ∧
        Ends port (await .stx (sendby ACK { withHeader hdr m with d := 0#8 })) zs m' := by
    intro hdr ys
    rw [ends_waiting port rfl]
    refine exists_congr fun hcs => exists_congr fun zs => and_congr_right fun _ => ?_
    have hsummed : FirstTry { await .hcs (withHeader hdr m) with d := sumFrom SOH hdr + hcs } :=
      ⟨hm.stack, hm.popped, hm.retcnt⟩
    refine (ends_checksum port hsummed).trans (and_congr_right fun hsum => ?_)
    have hzero : (await .hcs (withHeader hdr m)).d + hcs = 0#8 := hsum
    rw [hzero]
    exact Iff.rfl
  rw [hsoh]
  constructor
  · rintro ⟨soh, ys, rfl, hsoh', hends⟩
    rw [hsoh'] at hends
    obtain ⟨hdr, zs, hlen, rfl, hends'⟩ := (hhdr ys).mp hends
    obtain ⟨hcs, ws, rfl, hsum, hrest⟩ := (hhcs hdr zs).mp hends'
    exact ⟨soh, hdr, hcs, ws, rfl, hsoh', hlen, hsum, hrest⟩
  · rintro ⟨soh, hdr, hcs, ys, rfl, hsoh', hlen, hsum, hends⟩
    refine ⟨soh, hdr ++ hcs :: ys, rfl, hsoh', ?_⟩
    rw [hsoh']
    exact (hhdr _).mpr ⟨hdr, hcs :: ys, hlen, rfl, (hhcs hdr _).mpr ⟨hcs, ys, rfl, hsum, hends⟩⟩

/-- The data of a frame, with its checksum. -/
theorem ends_data {hdr : List Byte} (hm : FirstTry m) (hlen : hdr.length = 5) :
    Ends port (await .stx (sendby ACK { withHeader hdr m with d := 0#8 })) xs m' ↔
      ∃ stx payload etx cks eot rest, xs = stx :: payload ++ etx :: cks :: eot :: rest ∧
        low7 stx = STX ∧ payload.length = (siz hdr).toNat + 1 ∧ low7 etx = ETX ∧
        low7 eot = EOT ∧ sumFrom STX payload + ETX + cks = 0 ∧
        m' = accept port (withFrame hdr payload m) := by
  have hpasses : passes (siz hdr + 1#8) = (siz hdr).toNat + 1 := by
    unfold passes
    bv_omega
  -- STX, the data, ETX, and then CKS and EOT together
  have hstx : Ends port (await .stx (sendby ACK { withHeader hdr m with d := 0#8 })) xs m' ↔
      ∃ b ys, xs = b :: ys ∧ low7 b = STX ∧ Ends port
        (await .data { sendby ACK (withHeader hdr m) with d := low7 b, e := siz hdr + 1#8 })
        ys m' := by
    rw [← withHeader_siz (m := m) hlen]
    exact ends_control port ⟨hm.stack, hm.popped, hm.retcnt⟩ rfl fun b => rfl
  have hdata : ∀ ys, Ends port
        (await .data { sendby ACK (withHeader hdr m) with d := STX, e := siz hdr + 1#8 }) ys m' ↔
      ∃ payload zs, payload.length = (siz hdr).toNat + 1 ∧ ys = payload ++ zs ∧
        Ends port (await .etx (withData hdr payload m)) zs m' := by
    intro ys
    rw [← hpasses]
    exact ends_msgin port (feed_data port) rfl
  have hetx : ∀ payload ys, Ends port (await .etx (withData hdr payload m)) ys m' ↔
      ∃ etx zs, ys = etx :: zs ∧ low7 etx = ETX ∧
        Ends port (await .cks { withData hdr payload m with
          d := low7 etx + sumFrom STX payload }) zs m' :=
    fun payload ys => ends_control port ⟨hm.stack, hm.popped, hm.retcnt⟩ rfl fun b => rfl
  have heot : ∀ payload d ys, Ends port (await .cks { withData hdr payload m with d := d }) ys m' ↔
      ∃ cks eot rest, ys = cks :: eot :: rest ∧ low7 eot = EOT ∧ d + cks = 0#8 ∧
        m' = accept port (withFrame hdr payload m) := by
    intro payload d ys
    have hready : ∀ c, FirstTry (await .eot { withData hdr payload m with d := c }) :=
      fun _ => ⟨hm.stack, hm.popped, hm.retcnt⟩
    have haccept : ∀ c ys,
        Ends port (accept port (await .eot { withData hdr payload m with d := c })) ys m' ↔
          m' = accept port (await .eot { withData hdr payload m with d := c }) := fun c ys =>
      ends_returned port (accept_returned port (hready c).stack (hready c).popped).place
        ((accept_retcnt port (hready c).stack).trans (hready c).retcnt)
    have hcontrol : ∀ cks ys,
        Ends port (await .eot { withData hdr payload m with d := d + cks }) ys m' ↔
          ∃ eot rest, ys = eot :: rest ∧ low7 eot = EOT ∧ d + cks = 0#8 ∧
            m' = accept port (await .eot { withData hdr payload m with d := d + cks }) := by
      intro cks ys
      refine (ends_control port (hready (d + cks)) rfl fun b => rfl).trans ?_
      refine exists_congr fun eot => exists_congr fun rest => and_congr_right fun _ =>
        and_congr_right fun _ => ?_
      exact (ends_checksum port (hready (d + cks))).trans
        (and_congr_right fun _ => haccept (d + cks) rest)
    rw [ends_waiting port rfl]
    constructor
    · rintro ⟨cks, zs, rfl, hends⟩
      obtain ⟨eot, rest, rfl, heot, hsum, haccepted⟩ := (hcontrol cks zs).mp hends
      rw [hsum] at haccepted
      exact ⟨cks, eot, rest, rfl, heot, hsum, haccepted⟩
    · rintro ⟨cks, eot, rest, rfl, heot, hsum, haccepted⟩
      unfold withFrame at haccepted
      rw [← hsum] at haccepted
      exact ⟨cks, eot :: rest, rfl, (hcontrol cks _).mpr ⟨eot, rest, rfl, heot, hsum, haccepted⟩⟩
  rw [hstx]
  constructor
  · rintro ⟨stx, ys, rfl, hstx', hends⟩
    rw [hstx'] at hends
    obtain ⟨payload, zs, hplen, rfl, hends'⟩ := (hdata ys).mp hends
    obtain ⟨etx, ws, rfl, hetx', hends''⟩ := (hetx payload zs).mp hends'
    obtain ⟨cks, eot, rest, rfl, heot', hsum, haccepted⟩ := (heot payload _ ws).mp hends''
    rw [hetx', BitVec.add_comm ETX] at hsum
    exact ⟨stx, payload, etx, cks, eot, rest, rfl, hstx', hplen, hetx', heot', hsum, haccepted⟩
  · rintro ⟨stx, payload, etx, cks, eot, rest, rfl, hstx', hplen, hetx', heot', hsum, haccepted⟩
    refine ⟨stx, payload ++ etx :: cks :: eot :: rest, rfl, hstx', ?_⟩
    rw [hstx']
    refine (hdata _).mpr ⟨payload, _, hplen, rfl, (hetx payload _).mpr ⟨etx, _, rfl, hetx', ?_⟩⟩
    refine (heot payload _ _).mpr ⟨cks, eot, rest, rfl, heot', ?_, haccepted⟩
    rw [hetx', BitVec.add_comm ETX]
    exact hsum

/-- **A try** ends RCVMSG with exactly the frames. -/
theorem ends_frame (hm : FirstTry m) (hplace : m.place = .waiting .soh) :
    Ends port m xs m' ↔
      ∃ (f : Frame) (rest : List Byte), xs = f.bytes ++ rest ∧
        m' = accept port (withFrame f.hdr f.payload m) := by
  rw [ends_header port hm hplace]
  constructor
  · rintro ⟨soh, hdr, hcs, ys, rfl, hsoh, hlen, hhcs, hends⟩
    obtain ⟨stx, payload, etx, cks, eot, rest, rfl, hstx, hplen, hetx, heot, hcks, haccepted⟩ :=
      (ends_data port hm hlen).mp hends
    let f : Frame := ⟨soh, hdr, hcs, stx, payload, etx, cks, eot, hsoh, hstx, hetx, heot, hlen,
      hplen, hhcs, hcks⟩
    refine ⟨f, rest, ?_, haccepted⟩
    simp only [Frame.bytes, List.cons_append, List.append_assoc, List.nil_append, f]
  · rintro ⟨f, rest, rfl, rfl⟩
    refine ⟨f.soh, f.hdr, f.hcs, f.stx :: f.payload ++ f.etx :: f.cks :: f.eot :: rest, ?_,
      f.soh_eq,
      f.hdr_length, f.hdr_sum, ?_⟩
    · simp only [Frame.bytes, List.cons_append, List.append_assoc, List.nil_append]
    · exact (ends_data port hm f.hdr_length).mpr ⟨f.stx, f.payload, f.etx, f.cks, f.eot, rest, rfl,
        f.stx_eq, f.payload_length, f.etx_eq, f.eot_eq, f.payload_sum, rfl⟩

/-! ### RCVMSG -/

/-- The result of RCVMSG for a message to a node: any is taken while the node has no
number of its own. -/
def verdict (slaveid did : Byte) : Byte :=
  if slaveid = 0xFF#8 ∨ slaveid = did then 0x00#8 else 0xFF#8

/-- The DID of the message decides. -/
theorem accept_result (hstack : m.stack = [.recall]) :
    (accept port m).a = verdict m.slaveid (m.mem (m.msgadr + 1#16)) := by
  unfold accept
  rw [pop_recall hstack]
  show (if m.slaveid + 1#8 = 0#8 then _ else
    if m.slaveid - m.mem (m.msgadr + 1#16) = 0#8 then _ else _) = _
  generalize m.mem (m.msgadr + 1#16) = did
  rw [verdict]
  have hany : m.slaveid + 1#8 = 0#8 ↔ m.slaveid = 0xFF#8 := by
    constructor
    · intro h
      bv_omega
    · intro h
      rw [h]
      rfl
  have hown : m.slaveid - did = 0#8 ↔ m.slaveid = did := by
    constructor
    · intro h
      bv_omega
    · intro h
      rw [h, BitVec.sub_self]
  simp only [hany, hown]
  by_cases hslave : m.slaveid = 0xFF#8
  · rw [if_pos hslave, if_pos (.inl hslave)]
  · simp only [hslave, if_false, false_or]

theorem accept_withFrame (f : Frame) (hm : FirstTry m) (hhl : m.hl = m.msgadr) :
    (accept port (withFrame f.hdr f.payload m)).mem =
        storeAt m.mem m.msgadr (f.hdr ++ f.payload) ∧
      (accept port (withFrame f.hdr f.payload m)).a = verdict m.slaveid (f.hdr.getD 1 0#8) ∧
      (accept port (withFrame f.hdr f.payload m)).sent = m.sent ++ [ACK, ACK] := by
  have hhdr := f.hdr_length
  have hpayload := f.payload_length
  have hsiz := (siz f.hdr).isLt
  have hmem : (withFrame f.hdr f.payload m).mem = storeAt m.mem m.msgadr (f.hdr ++ f.payload) := by
    rw [storeAt_append, ← hhl]
    rfl
  have hdid : (withFrame f.hdr f.payload m).mem (m.msgadr + 1#16) = f.hdr.getD 1 0#8 := by
    have hlen : (f.hdr ++ f.payload).length ≤ 2 ^ 16 := by
      rw [List.length_append]
      omega
    have hfirst : 1 < (f.hdr ++ f.payload).length := by
      rw [List.length_append]
      omega
    rw [hmem]
    refine (storeAt_self m.mem m.msgadr hlen hfirst).trans ?_
    rw [List.getElem_append_left (by omega), List.getD_eq_getElem _ _ (by omega)]
  have hstack : (withFrame f.hdr f.payload m).stack = [.recall] := hm.stack
  refine ⟨?_, ?_, ?_⟩
  · unfold accept
    rw [pop_recall hstack]
    exact hmem
  · rw [accept_result port hstack]
    exact congrArg (verdict m.slaveid) hdid
  · unfold accept
    rw [pop_recall hstack]
    show (m.sent ++ [ACK]) ++ [ACK] = _
    rw [List.append_assoc]
    rfl

/-- Bytes other than ENQ are passed over. -/
theorem ends_recv :
    Ends port (recv m) xs m' ↔ ∃ before enq rest, (∀ b ∈ before, low7 b ≠ ENQ) ∧ low7 enq = ENQ ∧
      xs = before ++ enq :: rest ∧ Ends port (await .soh (sendby ACK (recv m))) rest m' := by
  -- by induction on the bytes; those before ENQ change nothing
  induction xs with
  | nil =>
      rw [ends_waiting port rfl]
      refine iff_of_false ?_ ?_
      · rintro ⟨b, ys, hnil, -⟩
        exact nomatch hnil
      · rintro ⟨before, enq, rest, -, -, hnil, -⟩
        exact absurd hnil (by simp)
  | cons b xs ih =>
      rw [ends_waiting port rfl]
      have hfeed : feed port (some b) (recv m) =
          if low7 b = ENQ then await .soh (sendby ACK (recv m)) else recv m := rfl
      constructor
      · rintro ⟨b', ys, hcons, hends⟩
        obtain ⟨rfl, rfl⟩ := List.cons.inj hcons
        rw [hfeed] at hends
        by_cases henq : low7 b = ENQ
        · rw [if_pos henq] at hends
          exact ⟨[], b, xs, List.forall_mem_nil _, henq, rfl, hends⟩
        · rw [if_neg henq] at hends
          obtain ⟨before, enq, rest, hbefore, henq', rfl, hrest⟩ := ih.mp hends
          refine ⟨b :: before, enq, rest, ?_, henq', rfl, hrest⟩
          intro c hc
          rcases List.mem_cons.mp hc with rfl | hc
          · exact henq
          · exact hbefore c hc
      · rintro ⟨before, enq, rest, hbefore, henq, hsplit, hends⟩
        refine ⟨b, xs, rfl, ?_⟩
        rw [hfeed]
        cases before with
        | nil =>
            obtain ⟨rfl, rfl⟩ := List.cons.inj hsplit
            rw [if_pos henq]
            exact hends
        | cons c before =>
            obtain ⟨rfl, rfl⟩ := List.cons.inj hsplit
            rw [if_neg (hbefore b List.mem_cons_self)]
            exact ih.mpr ⟨before, enq, rest, fun d hd => hbefore d (List.mem_cons_of_mem b hd),
              henq,
              rfl, hends⟩

/-- RCVMSG after ENQ. -/
def atHeader (bc : Word) (m : Snios) : Snios :=
  await .soh (sendby ACK (recv { called m with
    msgadr := bc
    retcnt := MAXRETRY
    stack := [.recall] }))

/-- RCVMSG after a message that it accepts at the first try. -/
def received (bc : Word) (m : Snios) (hdr payload : List Byte) : Snios :=
  accept port (withFrame hdr payload (atHeader bc m))

/-- RCVMSG accepts a message at the first try: it acknowledges ENQ, the header and the
message, and returns. -/
def AcceptsFirst (bc : Word) (m : Snios) (stream : List Byte) (m' : Snios) : Prop :=
  Ends port (rcvmsg port bc m) stream m' ∧ m'.sent = [ACK, ACK, ACK]

/-- **RCVMSG accepts** exactly the frames. -/
theorem rcvmsg_accepts {bc : Word} {stream : List Byte} :
    AcceptsFirst port bc m stream m' ↔
      m.netst &&& ACTIVE ≠ 0#8 ∧ ∃ hdr payload,
        Framed (fun b => low7 b = ENQ) stream hdr payload ∧
          m' = received port bc m hdr payload := by
  unfold AcceptsFirst
  by_cases hactive : m.netst &&& ACTIVE = 0#8
  · refine iff_of_false ?_ (fun hframe => hframe.1 hactive)
    rintro ⟨⟨n, hrun, -⟩, hsent⟩
    have hinactive : rcvmsg port bc m = ret port { called m with a := 0xFF#8 } := if_pos hactive
    have hplace : (ret port { called m with a := 0xFF#8 }).place = .returned 0 := rfl
    rw [hinactive, run_returned port hplace] at hrun
    rw [← hrun] at hsent
    exact nomatch hsent
  rw [and_iff_right hactive]
  let start : Snios := { called m with msgadr := bc, retcnt := MAXRETRY, stack := [.recall] }
  have hstart : rcvmsg port bc m = recv start := if_neg hactive
  have hfirst : FirstTry (atHeader bc m) := ⟨rfl, rfl, rfl⟩
  rw [hstart, ends_recv]
  constructor
  · rintro ⟨⟨before, enq, rest, hbefore, henq, rfl, hends⟩, -⟩
    obtain ⟨f, rest', rfl, rfl⟩ := (ends_frame port hfirst rfl).mp hends
    exact ⟨f.hdr, f.payload, ⟨before, enq, f, rest', hbefore, henq, rfl, rfl, rfl⟩, rfl⟩
  · rintro ⟨_, _, ⟨before, enq, f, rest, hbefore, henq, rfl, rfl, rfl⟩, rfl⟩
    refine ⟨⟨before, enq, f.bytes ++ rest, hbefore, henq, rfl, ?_⟩, ?_⟩
    · exact (ends_frame port hfirst rfl).mpr ⟨f, rest, rfl, rfl⟩
    · exact (accept_withFrame port f hfirst rfl).2.2

/-- What is stored is the message, and nothing else; the result is that of its DID. -/
theorem received_stores (bc : Word) (f : Frame) :
    (received port bc m f.hdr f.payload).mem = storeAt m.mem bc (f.hdr ++ f.payload) ∧
      (received port bc m f.hdr f.payload).a = verdict m.slaveid (f.hdr.getD 1 0#8) := by
  have hfirst : FirstTry (atHeader bc m) := ⟨rfl, rfl, rfl⟩
  obtain ⟨hmem, ha, -⟩ := accept_withFrame port f hfirst rfl
  exact ⟨hmem, ha⟩

/-- **Both receivers** take exactly the frames, and return or store exactly the header and
the payload.  So with one byte of a frame replaced they take what was sent, or nothing. -/
theorem receivers_accept_frames (bc : Word) (m : Snios) :
    (∀ stream hdr payload : List Byte,
      (recvFrame (stream.map some)).result = some (some (hdr, payload)) ↔
        Framed (· = ENQ) stream hdr payload) ∧
    (∀ (stream : List Byte) (m' : Snios),
      AcceptsFirst port bc m stream m' ↔
        m.netst &&& ACTIVE ≠ 0#8 ∧ ∃ hdr payload,
          Framed (fun b => low7 b = ENQ) stream hdr payload ∧
            m' = received port bc m hdr payload) ∧
    (∀ f : Frame,
      (received port bc m f.hdr f.payload).mem = storeAt m.mem bc (f.hdr ++ f.payload) ∧
        (received port bc m f.hdr f.payload).a = verdict m.slaveid (f.hdr.getD 1 0#8)) ∧
    (∀ (f : Frame) (before rest : List Byte) (i : Nat) (v : Byte) (hdr payload : List Byte),
      (∀ b ∈ before, b ≠ ENQ) →
      (recvFrame ((before ++ ENQ :: (f.bytes.set i v ++ rest)).map some)).result =
        some (some (hdr, payload)) →
      hdr = f.hdr ∧ payload = f.payload) ∧
    ∀ (f : Frame) (before rest : List Byte) (enq : Byte) (i : Nat) (v : Byte) (m' : Snios),
      (∀ b ∈ before, low7 b ≠ ENQ) → low7 enq = ENQ →
      AcceptsFirst port bc m (before ++ enq :: (f.bytes.set i v ++ rest)) m' →
      m' = received port bc m f.hdr f.payload := by
  refine ⟨fun _ _ _ => recvFrame_accepts, fun _ _ => rcvmsg_accepts port, received_stores port bc,
    ?_, ?_⟩
  · intro f before rest i v hdr payload hbefore hresult
    exact Framed.replaced hbefore rfl (recvFrame_accepts.mp hresult)
  · intro f before rest enq i v m' hbefore henq haccepts
    obtain ⟨-, hdr, payload, hframed, rfl⟩ := (rcvmsg_accepts port).mp haccepts
    obtain ⟨rfl, rfl⟩ := Framed.replaced hbefore henq hframed
    rfl

/-- A message of one byte, after a byte of noise. -/
theorem receivers_accept_frames_letter :
    (recvFrame ([0x00#8, 0x05#8, 0x81#8, 0x01#8, 0x02#8, 0x00#8, 0x1B#8, 0x00#8, 0xE1#8, 0x02#8,
      0x41#8, 0x03#8, 0xBA#8, 0x04#8].map some)).result =
        some (some ([0x01#8, 0x02#8, 0x00#8, 0x1B#8, 0x00#8], [0x41#8])) := by
  let idle : Snios := ⟨0#8, 0#8, 0#8, 0#16, fun _ => 0#8, 0#16, 0#8, ACTIVE, 0#8, [], 0,
    .returned 0, []⟩
  let f : Frame := ⟨0x81#8, [0x01#8, 0x02#8, 0x00#8, 0x1B#8, 0x00#8], 0xE1#8, 0x02#8, [0x41#8],
    0x03#8, 0xBA#8, 0x04#8, by decide, by decide, by decide, by decide, by decide, by decide,
    by decide, by decide⟩
  refine ((receivers_accept_frames .cpnos 0#16 idle).1 _ _ _).mpr ?_
  exact ⟨[0x00#8], 0x05#8, f, [], by decide, rfl, rfl, rfl, rfl⟩

end Link
end Rc700
