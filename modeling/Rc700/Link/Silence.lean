import Rc700.Link.Receiving

/-!
# A line that falls silent

Bytes come, and then nothing more.  As RCVMSG reads them, they are noise, a frame that it
accepts, or frames that fail, each of which costs a try (`listen`).  Outside a frame `RECVBT`
counts down, and RCVMSG comes back (`rcvmsg_returns`).

Inside a frame `RECVBY` waits on, and the carry that the code tests after it is never set
(`rcvmsg_waits_forever`).
-/

namespace Rc700
namespace Link

open Library Snios

variable (port : Port) {m m' : Snios} {xs : List Byte}

/-! ### Bytes on the line -/

/-- How a try ends that has heard ENQ: with a frame, for the node that it names; with a byte
that is not as expected, and what follows it; or with silence. -/
inductive Try
  | accepts (did : Byte)
  | fails (rest : List Byte)
  | silence

/-- The end of a try, after ETX, where the sum of the data is this. -/
def tryChecksum (did sum : Byte) : List Byte → Try
  | [] => .silence
  | [_] => .silence
  | cks :: eot :: rest => if low7 eot ≠ EOT ∨ sum + cks ≠ 0#8 then .fails rest else .accepts did

/-- The end of a try, from ETX on. -/
def tryEnd (did sum : Byte) : List Byte → Try
  | [] => .silence
  | etx :: ys => if low7 etx ≠ ETX then .fails ys else tryChecksum did (sum + ETX) ys

/-- The data of a try. -/
def tryData (hdr xs : List Byte) : Try :=
  let length := (siz hdr).toNat + 1
  if xs.length < length then .silence
  else tryEnd (hdr.getD 1 0#8) (sumFrom STX (xs.take length)) (xs.drop length)

/-- The rest of a try, from STX on. -/
def tryStart (hdr : List Byte) : List Byte → Try
  | [] => .silence
  | stx :: zs => if low7 stx ≠ STX then .fails zs else tryData hdr zs

/-- The rest of a try, after its header. -/
def tryHeader (hdr : List Byte) : List Byte → Try
  | [] => .silence
  | hcs :: ys => if sumFrom SOH hdr + hcs ≠ 0#8 then .fails ys else tryStart hdr ys

/-- A try, after ENQ. -/
def tryFrame : List Byte → Try
  | [] => .silence
  | soh :: xs =>
      if low7 soh ≠ SOH then .fails xs
      else if xs.length < 5 then .silence
      else tryHeader (xs.take 5) (xs.drop 5)

/-- What comes of the bytes: a message for a node, no message, or silence inside a frame. -/
inductive Heard
  | message (did : Byte)
  | nothing
  | cutShort
  deriving DecidableEq

/-- The bytes, as they are heard in so many tries. -/
def listen : Nat → List Byte → Heard
  | 0, _ => .nothing
  | n + 1, xs =>
      match xs.dropWhile (fun b => low7 b ≠ ENQ) with
      | [] => .nothing
      | _ :: ys =>
          match tryFrame ys with
          | .accepts did => .message did
          | .fails rest => listen n rest
          | .silence => .cutShort

/-! ### Tries -/

/-- What a try does not change. -/
structure SameTry (m m' : Snios) : Prop where
  stack : m'.stack = m.stack
  popped : m'.popped = m.popped
  retcnt : m'.retcnt = m.retcnt
  netst : m'.netst = m.netst
  slaveid : m'.slaveid = m.slaveid
  msgadr : m'.msgadr = m.msgadr

theorem SameTry.trans {m₁ m₂ m₃ : Snios} (h : SameTry m₁ m₂) (h' : SameTry m₂ m₃) : SameTry m₁ m₃ :=
  ⟨h'.stack.trans h.stack, h'.popped.trans h.popped, h'.retcnt.trans h.retcnt,
    h'.netst.trans h.netst, h'.slaveid.trans h.slaveid, h'.msgadr.trans h.msgadr⟩

/-- **`MSGIN`** on as many bytes as it is asked for. -/
theorem run_msgin {w next : Wait} (hfeed : FeedsMsgin port w next)
    (hplace : m.place = .waiting w) (hlen : xs.length = passes m.e) :
    run port m (xs.map some) = await next (take xs m) := by
  induction xs generalizing m with
  | nil => exact absurd hlen.symm (Nat.succ_ne_zero _)
  | cons b xs ih =>
      rw [List.map_cons, run_cons, hfeed m b hplace, take_cons]
      by_cases hlast : m.e - 1#8 = 0#8
      · have hend : (msgin b m).e = 0#8 := hlast
        have hnil : xs = [] := by
          rw [passes, hlast, List.length_cons] at hlen
          exact List.eq_nil_of_length_eq_zero (Nat.succ_inj.mp hlen)
        rw [if_neg (not_not_intro hend), hnil, take_nil]
        rfl
      · have hmore : (msgin b m).e ≠ 0#8 := hlast
        rw [if_pos hmore]
        refine ih hplace ?_
        show xs.length = passes (m.e - 1#8)
        rw [List.length_cons] at hlen
        unfold passes at hlen ⊢
        bv_omega

/-- What comes of a try, in RCVMSG. -/
def Tries (port : Port) (m : Snios) (xs : List Byte) : Try → Prop
  | .accepts did => ∃ m₀, SameTry m m₀ ∧ m₀.mem (m₀.msgadr + 1#16) = did ∧
      ∃ rest, run port m (xs.map some) = run port (accept port m₀) rest
  | .fails rest => ∃ m₀, SameTry m m₀ ∧
      run port m (xs.map some) = run port (ret port m₀) (rest.map some)
  | .silence => True

/-- A try after some of its bytes. -/
theorem Tries.of_run (m' : Snios) (ys : List Byte) {result : Try} (hsame : SameTry m m')
    (hrun : run port m (xs.map some) = run port m' (ys.map some)) (h : Tries port m' ys result) :
    Tries port m xs result := by
  cases result with
  | accepts did =>
      obtain ⟨m₀, hsame', hdid, rest, hrest⟩ := h
      exact ⟨m₀, hsame.trans hsame', hdid, rest, hrun.trans hrest⟩
  | fails rest =>
      obtain ⟨m₀, hsame', hrest⟩ := h
      exact ⟨m₀, hsame.trans hsame', hrun.trans hrest⟩
  | silence => trivial

/-- The checksum of a frame is tested after EOT. -/
theorem tries_checksum (hplace : m.place = .waiting .cks) :
    Tries port m xs (tryChecksum (m.mem (m.msgadr + 1#16)) m.d xs) := by
  match xs with
  | [] => trivial
  | [cks] => trivial
  | cks :: eot :: rest =>
      rw [tryChecksum]
      let m₀ : Snios := await .eot { m with d := m.d + cks }
      have hcks : feed port (some cks) m = m₀ := by
        rw [feed, hplace]
        rfl
      have heot : feed port (some eot) m₀ = if low7 eot = EOT then
          if m₀.d ≠ 0#8 then badcks port m₀ else accept port m₀ else ret port m₀ := rfl
      have hrun : run port m ((cks :: eot :: rest).map some) =
          run port (feed port (some eot) m₀) (rest.map some) := by
        rw [List.map_cons, List.map_cons, run_cons, run_cons, hcks]
      rw [heot] at hrun
      -- what ends the try: no EOT, a wrong sum, or a message that is right
      by_cases hend : low7 eot = EOT
      · rw [if_pos hend] at hrun
        by_cases hzero : m.d + cks = 0#8
        · have hgood : ¬m₀.d ≠ 0#8 := not_not_intro hzero
          rw [if_neg hgood] at hrun
          rw [if_neg (not_or.mpr ⟨not_not_intro hend, not_not_intro hzero⟩)]
          exact ⟨m₀, ⟨rfl, rfl, rfl, rfl, rfl, rfl⟩, rfl, _, hrun⟩
        · have hbad : m₀.d ≠ 0#8 := hzero
          rw [if_pos hbad] at hrun
          rw [if_pos (.inr hzero)]
          exact ⟨sendby NAK m₀, ⟨rfl, rfl, rfl, rfl, rfl, rfl⟩, hrun⟩
      · rw [if_neg hend] at hrun
        rw [if_pos (.inl hend)]
        exact ⟨m₀, ⟨rfl, rfl, rfl, rfl, rfl, rfl⟩, hrun⟩

/-- A control byte that is not as expected fails the try. -/
theorem tries_control {c b : Byte} {next : Snios} {result : Try}
    (hfeed : feed port (some b) m = if low7 b = c then next else ret port m)
    (hsame : SameTry m next) (hnext : low7 b = c → Tries port next xs result) :
    Tries port m (b :: xs) (if low7 b ≠ c then .fails xs else result) := by
  by_cases hc : low7 b = c
  · rw [if_neg (not_not_intro hc)]
    rw [if_pos hc] at hfeed
    refine Tries.of_run port next xs hsame ?_ (hnext hc)
    rw [List.map_cons, run_cons, hfeed]
  · rw [if_pos hc]
    rw [if_neg hc] at hfeed
    refine ⟨m, ⟨rfl, rfl, rfl, rfl, rfl, rfl⟩, ?_⟩
    rw [List.map_cons, run_cons, hfeed]

/-- The end of a frame. -/
theorem tries_end (xs : List Byte) (hplace : m.place = .waiting .etx) :
    Tries port m xs (tryEnd (m.mem (m.msgadr + 1#16)) m.d xs) := by
  cases xs with
  | nil => trivial
  | cons etx ys =>
      have hfeed : feed port (some etx) m =
          if low7 etx = ETX then await .cks { m with d := low7 etx + m.d } else ret port m := by
        rw [feed, hplace]
      refine tries_control port hfeed ⟨rfl, rfl, rfl, rfl, rfl, rfl⟩ fun hetx => ?_
      rw [hetx, BitVec.add_comm]
      exact tries_checksum port rfl

/-- RCVMSG after ENQ, before a header. -/
structure AtFrame (m : Snios) : Prop where
  place : m.place = .waiting .soh
  hl : m.hl = m.msgadr

/-- The data of a frame, behind its header. -/
theorem tries_data {hdr : List Byte} (hm : AtFrame m) (hlen : hdr.length = 5) :
    Tries port (await .data { sendby ACK (withHeader hdr m) with d := STX, e := siz hdr + 1#8 }) xs
      (tryData hdr xs) := by
  rw [tryData]
  dsimp only
  by_cases hshort : xs.length < (siz hdr).toNat + 1
  · rw [if_pos hshort]
    trivial
  rw [if_neg hshort]
  generalize hstart : await .data _ = start
  have hplace : start.place = .waiting .data := by rw [← hstart]; rfl
  have hcount : (xs.take ((siz hdr).toNat + 1)).length = passes start.e := by
    rw [List.length_take, Nat.min_eq_left (Nat.le_of_not_lt hshort), ← hstart]
    show _ = (siz hdr + 1#8 - 1#8).toNat + 1
    rw [BitVec.add_sub_cancel]
  have htaken := run_msgin port (feed_data port) hplace hcount
  -- the message is in memory, and the data does not reach back to its header
  have hdid : (take (xs.take ((siz hdr).toNat + 1)) start).mem (m.msgadr + 1#16) =
      hdr.getD 1 0#8 := by
    have htake := (siz hdr).isLt
    rw [← hstart]
    show storeAt (storeAt m.mem m.hl hdr) (m.hl + BitVec.ofNat 16 hdr.length) _ _ = _
    rw [← storeAt_append, hm.hl]
    have hall : (hdr ++ xs.take ((siz hdr).toNat + 1)).length ≤ 2 ^ 16 := by
      rw [List.length_append, List.length_take]
      omega
    refine (storeAt_self m.mem m.msgadr hall (i := 1) ?_).trans ?_
    · rw [List.length_append]
      omega
    · rw [List.getElem_append_left (by omega), List.getD_eq_getElem _ _ (by omega)]
  have hend := tries_end (m := await .etx (take (xs.take ((siz hdr).toNat + 1)) start)) port
    (xs.drop ((siz hdr).toNat + 1)) rfl
  refine Tries.of_run port (await .etx (take (xs.take ((siz hdr).toNat + 1)) start))
    (xs.drop ((siz hdr).toNat + 1)) ⟨rfl, rfl, rfl, rfl, rfl, rfl⟩ ?_ ?_
  · rw [← htaken, ← run_append, ← List.map_append, List.take_append_drop]
  · have hsum : sumFrom STX (xs.take ((siz hdr).toNat + 1)) =
        (await .etx (take (xs.take ((siz hdr).toNat + 1)) start)).d := by
      rw [← hstart]
      rfl
    rw [hsum, ← hdid]
    rw [← hstart] at hend ⊢
    exact hend

/-- The rest of a frame, from STX on. -/
theorem tries_start {hdr : List Byte} (hm : AtFrame m) (hlen : hdr.length = 5) (d : Byte) :
    Tries port (await .stx (sendby ACK { withHeader hdr m with d := d })) xs
      (tryStart hdr xs) := by
  cases xs with
  | nil => trivial
  | cons stx zs =>
      have hfeed : feed port (some stx) (await .stx (sendby ACK { withHeader hdr m with d := d })) =
          if low7 stx = STX then
            await .data { sendby ACK (withHeader hdr m) with d := low7 stx, e := siz hdr + 1#8 }
          else ret port (await .stx (sendby ACK { withHeader hdr m with d := d })) := by
        rw [← withHeader_siz (m := m) hlen]
        rfl
      refine tries_control port hfeed ⟨rfl, rfl, rfl, rfl, rfl, rfl⟩ fun hstx => ?_
      rw [hstx]
      exact tries_data port hm hlen

/-- The rest of a frame, behind its header. -/
theorem tries_header {hdr : List Byte} (hm : AtFrame m) (hlen : hdr.length = 5) :
    Tries port (await .hcs (withHeader hdr m)) xs (tryHeader hdr xs) := by
  cases xs with
  | nil => trivial
  | cons hcs ys =>
      let summed : Snios := { await .hcs (withHeader hdr m) with d := sumFrom SOH hdr + hcs }
      have hfeed : feed port (some hcs) (await .hcs (withHeader hdr m)) =
          if summed.d ≠ 0#8 then badcks port summed else await .stx (sendby ACK summed) := rfl
      rw [tryHeader]
      by_cases hzero : sumFrom SOH hdr + hcs = 0#8
      · have hgood : ¬summed.d ≠ 0#8 := not_not_intro hzero
        rw [if_neg (not_not_intro hzero)]
        rw [if_neg hgood] at hfeed
        refine Tries.of_run port (await .stx (sendby ACK summed)) ys
          ⟨rfl, rfl, rfl, rfl, rfl, rfl⟩ ?_ (tries_start port hm hlen (sumFrom SOH hdr + hcs))
        rw [List.map_cons, run_cons, hfeed]
      · have hbad : summed.d ≠ 0#8 := hzero
        rw [if_pos hzero]
        rw [if_pos hbad] at hfeed
        refine ⟨sendby NAK summed, ⟨rfl, rfl, rfl, rfl, rfl, rfl⟩, ?_⟩
        rw [List.map_cons, run_cons, hfeed]
        rfl

/-- **A try** of RCVMSG goes as the bytes say. -/
theorem tries_frame (hm : AtFrame m) (xs : List Byte) : Tries port m xs (tryFrame xs) := by
  cases xs with
  | nil => trivial
  | cons soh ys =>
      have hfeed : feed port (some soh) m =
          if low7 soh = SOH then await .header { m with d := low7 soh, e := 5#8 }
          else ret port m := by
        rw [feed, hm.place]
      refine tries_control port hfeed ⟨rfl, rfl, rfl, rfl, rfl, rfl⟩ fun hsoh => ?_
      rw [hsoh]
      by_cases hshort : ys.length < 5
      · rw [if_pos hshort]
        trivial
      rw [if_neg hshort]
      have hlen : (ys.take 5).length = 5 := by
        rw [List.length_take]
        omega
      have htaken := run_msgin (m := await .header { m with d := SOH, e := 5#8 }) port
        (feed_header port) rfl (hlen.trans (by decide : 5 = passes 5#8))
      refine Tries.of_run port (await .hcs (withHeader (ys.take 5) m)) (ys.drop 5)
        ⟨rfl, rfl, rfl, rfl, rfl, rfl⟩ ?_ (tries_header port hm hlen)
      have hsplit : run port (await .header { m with d := SOH, e := 5#8 }) (ys.map some) =
          run port (run port (await .header { m with d := SOH, e := 5#8 })
            ((ys.take 5).map some)) ((ys.drop 5).map some) := by
        rw [← run_append, ← List.map_append, List.take_append_drop]
      rw [hsplit, htaken]
      rfl

/-! ### RCVMSG -/

/-- Bytes other than ENQ are passed over. -/
theorem run_noise (m : Snios) (xs : List Byte) :
    run port (recv m) (xs.map some) =
      match xs.dropWhile (fun b => low7 b ≠ ENQ) with
      | [] => recv m
      | _ :: ys => run port (await .soh (sendby ACK (recv m))) (ys.map some) := by
  induction xs with
  | nil => rfl
  | cons b xs ih =>
      have hfeed : feed port (some b) (recv m) =
          if low7 b = ENQ then await .soh (sendby ACK (recv m)) else recv m := rfl
      rw [List.map_cons, run_cons, hfeed]
      by_cases henq : low7 b = ENQ
      · rw [if_pos henq, List.dropWhile_cons_of_neg (by simp [henq])]
      · rw [if_neg henq, List.dropWhile_cons_of_pos (by simp [henq]), ih]

/-- RCVMSG counts down while nothing comes. -/
theorem run_silence {n : Nat} (hplace : m.place = .waiting .rcvfst) (hd : m.d.toNat = n + 1) :
    run port m (List.replicate (n + 1) none) = rcvtmo port (pop { m with d := 0#8 }) := by
  induction n generalizing m with
  | zero =>
      have hlast : m.d - 1#8 = 0#8 := by bv_omega
      rw [List.replicate_one, run_cons, feed, hplace]
      dsimp only
      rw [if_neg (not_not_intro hlast), hlast]
      rfl
  | succ n ih =>
      have hmore : m.d - 1#8 ≠ 0#8 := by bv_omega
      have hfeed : feed port none m = { m with d := m.d - 1#8 } := by
        rw [feed, hplace]
        dsimp only
        rw [if_pos hmore]
      rw [List.replicate_succ, run_cons, hfeed]
      refine ih hplace ?_
      show (m.d - 1#8).toNat = n + 1
      bv_omega

/-- RCVMSG has returned with what was heard. -/
structure Concludes (m m' : Snios) (heard : Heard) : Prop where
  returned : Returned m'
  nothing : heard = .nothing → m'.a = 0xFF#8 ∧ m'.netst = m.netst ||| RCVERR
  message : ∀ did, heard = .message did → m'.a = verdict m.slaveid did ∧ m'.netst = m.netst

theorem Concludes.of_same {m'' : Snios} {heard : Heard} (h : Concludes m' m'' heard)
    (hsame : SameTry m m') : Concludes m m'' heard := by
  obtain ⟨hreturned, hnothing, hmessage⟩ := h
  rw [hsame.netst] at hnothing hmessage
  rw [hsame.slaveid] at hmessage
  exact ⟨hreturned, hnothing, hmessage⟩

/-- Without a byte in time. -/
theorem concludes_rcvtmo (hstack : m.stack = [.recall]) (hpopped : m.popped = 0) :
    Concludes m (rcvtmo port (pop m)) .nothing := by
  rw [pop_recall hstack, rcvtmo]
  exact ⟨ret_caller port rfl hpopped (.inr rfl), fun _ => ⟨rfl, rfl⟩, by rintro _ ⟨⟩⟩

/-- The last of the tries has failed. -/
theorem concludes_ret (hstack : m.stack = [.recall]) (hpopped : m.popped = 0)
    (hlast : m.retcnt.toNat = 1) : Concludes m (ret port m) .nothing := by
  have hzero : m.retcnt - 1#8 = 0#8 := by bv_omega
  rw [ret, hstack, retTo]
  dsimp only
  rw [if_neg (not_not_intro hzero)]
  refine ⟨⟨?_, rfl, ?_, .inr rfl⟩, fun _ => ⟨rfl, rfl⟩, by rintro _ ⟨⟩⟩
  · show Place.returned m.popped = _
    rw [hpopped]
  · show m.popped + 1 = 1
    rw [hpopped]

/-- Another try. -/
theorem ret_again {n : Nat} (hstack : m.stack = [.recall]) (hmore : m.retcnt.toNat = n + 2) :
    ret port m = recv { m with retcnt := m.retcnt - 1#8 } := by
  have hnonzero : m.retcnt - 1#8 ≠ 0#8 := by bv_omega
  rw [ret, hstack, retTo]
  dsimp only
  rw [if_pos hnonzero, ← hstack]

theorem concludes_accept (hstack : m.stack = [.recall]) (hpopped : m.popped = 0) :
    Concludes m (accept port m) (.message (m.mem (m.msgadr + 1#16))) := by
  refine ⟨accept_returned port hstack hpopped, (fun h => nomatch h), ?_⟩
  rintro _ ⟨⟩
  refine ⟨accept_result port hstack, ?_⟩
  unfold accept
  rw [pop_recall hstack]
  rfl

/-- What has been concluded stays. -/
theorem Concludes.run {heard : Heard} (h : Concludes m m' heard) (ys : List (Option Byte)) :
    run port m' ys = m' := run_returned port h.returned.place ys

/-- RCVMSG concludes within the silence after some bytes. -/
def Settles (port : Port) (m m' : Snios) (xs : List Byte) (heard : Heard) : Prop :=
  ∃ k ≤ 100, Concludes m (run port m' (xs.map some ++ List.replicate k none)) heard

theorem Settles.of_run (ys : List (Option Byte)) {heard : Heard} (h : Concludes m m' heard)
    (hrun : run port (recv m) (xs.map some) = run port m' ys) :
    Settles port m (recv m) xs heard := by
  refine ⟨0, by decide, ?_⟩
  rw [List.replicate_zero, List.append_nil, hrun, h.run]
  exact h

/-- One try, and what follows where it fails. -/
theorem settles_try {n : Nat} (hstack : m.stack = [.recall]) (hpopped : m.popped = 0)
    (hheard : listen (n + 1) xs ≠ .cutShort)
    (hnext : ∀ m' rest, SameTry m m' → listen n rest ≠ .cutShort →
      Settles port m' (ret port m') rest (listen n rest)) :
    Settles port m (recv m) xs (listen (n + 1) xs) := by
  have hnoise := run_noise port m xs
  rw [listen] at hheard ⊢
  cases hbytes : xs.dropWhile (fun b => low7 b ≠ ENQ) with
  | nil =>
      -- nothing but noise
      rw [hbytes] at hnoise
      refine ⟨100, Nat.le_refl _, ?_⟩
      dsimp only at hnoise ⊢
      rw [run_append, hnoise, run_silence (m := recv m) (n := 99) port rfl (by rfl)]
      have hend := concludes_rcvtmo (m := { recv m with d := 0#8 }) port hstack hpopped
      exact hend.of_same ⟨rfl, rfl, rfl, rfl, rfl, rfl⟩
  | cons enq ys =>
      rw [hbytes] at hnoise hheard
      dsimp only at hnoise hheard ⊢
      let start : Snios := await .soh (sendby ACK (recv m))
      have htry := tries_frame (m := start) port ⟨rfl, rfl⟩ ys
      cases hend : tryFrame ys with
      | accepts did =>
          rw [hend] at htry
          obtain ⟨m₀, hsame, hdid, rest, hrun⟩ := htry
          have haccept := concludes_accept port (hsame.stack.trans hstack)
            (hsame.popped.trans hpopped)
          rw [hdid] at haccept
          have hsame : SameTry m m₀ := ⟨hsame.stack, hsame.popped, hsame.retcnt, hsame.netst,
            hsame.slaveid, hsame.msgadr⟩
          refine Settles.of_run port rest (haccept.of_same hsame) ?_
          rw [hnoise, hrun]
      | fails rest =>
          rw [hend] at htry hheard
          obtain ⟨m₀, hsame, hrun⟩ := htry
          have hsame' : SameTry m m₀ := ⟨hsame.stack, hsame.popped, hsame.retcnt, hsame.netst,
            hsame.slaveid, hsame.msgadr⟩
          obtain ⟨k, hk, hconcludes⟩ := hnext m₀ rest hsame' hheard
          refine ⟨k, hk, ?_⟩
          rw [run_append, hnoise, hrun, ← run_append]
          exact hconcludes.of_same hsame'
      | silence =>
          rw [hend] at hheard
          exact absurd rfl hheard

/-- **The tries of RCVMSG** go as the bytes say, and the silence ends the last of them. -/
theorem settles_tries {n : Nat} (hstack : m.stack = [.recall]) (hpopped : m.popped = 0)
    (htries : m.retcnt.toNat = n + 1) (hheard : listen (n + 1) xs ≠ .cutShort) :
    Settles port m (recv m) xs (listen (n + 1) xs) := by
  induction n generalizing m xs with
  | zero =>
      refine settles_try port hstack hpopped hheard fun m' rest hsame _ => ⟨0, by decide, ?_⟩
      have hlast := concludes_ret port (hsame.stack.trans hstack) (hsame.popped.trans hpopped)
        (hsame.retcnt ▸ htries)
      rw [hlast.run]
      exact hlast
  | succ n ih =>
      refine settles_try port hstack hpopped hheard fun m' rest hsame hrest => ?_
      have hmore : m'.retcnt.toNat = n + 2 := hsame.retcnt ▸ htries
      obtain ⟨k, hk, hconcludes⟩ := ih (m := { m' with retcnt := m'.retcnt - 1#8 })
        (hsame.stack.trans hstack) (hsame.popped.trans hpopped)
        (show (m'.retcnt - 1#8).toNat = n + 1 by bv_omega) hrest
      refine ⟨k, hk, ?_⟩
      rw [ret_again port (hsame.stack.trans hstack) hmore]
      exact ⟨hconcludes.returned, hconcludes.nothing, hconcludes.message⟩

/-- **RCVMSG comes back** from bytes and the silence after them, where that does not begin
inside a frame: with a message, or with RCVERR, or with 0xFF alone for a node that is not
active and for a message to another node. -/
theorem rcvmsg_returns (port : Port) (bc : Word) (m : Snios) (bytes : List Byte)
    (hwhole : listen MAXRETRY.toNat bytes ≠ .cutShort) :
    ∃ k ≤ TMRETRY.toNat, ∃ m',
      m' = run port (rcvmsg port bc m) (bytes.map some ++ List.replicate k none) ∧
      Returned m' ∧
      (m'.a = 0x00#8 ∨ m'.a = 0xFF#8 ∧ m'.netst &&& RCVERR = RCVERR ∨
        m'.a = 0xFF#8 ∧ m'.netst = m.netst ∧
          (m.netst &&& ACTIVE = 0#8 ∨
            ∃ did, listen MAXRETRY.toNat bytes = .message did ∧ did ≠ m.slaveid)) := by
  by_cases hactive : m.netst &&& ACTIVE = 0#8
  · have hinactive : rcvmsg port bc m = ret port { called m with a := 0xFF#8 } := if_pos hactive
    have hplace : (ret port { called m with a := 0xFF#8 }).place = .returned 0 := rfl
    refine ⟨0, by decide, _, rfl, ?_⟩
    rw [hinactive, run_returned port hplace]
    exact ⟨ret_caller port rfl rfl (.inr rfl), .inr (.inr ⟨rfl, rfl, .inl hactive⟩)⟩
  -- RETCNT starts at ten: the first try and nine more
  · let start : Snios := { called m with msgadr := bc, retcnt := MAXRETRY, stack := [.recall] }
    have hstart : rcvmsg port bc m = recv start := if_neg hactive
    obtain ⟨k, hk, hconcludes⟩ :=
      settles_tries (m := start) port (n := 9) rfl rfl rfl hwhole
    refine ⟨k, hk, _, rfl, ?_⟩
    rw [hstart]
    generalize run port (recv start) (bytes.map some ++ List.replicate k none) = m' at hconcludes
    refine ⟨hconcludes.returned, ?_⟩
    have hten : listen MAXRETRY.toNat bytes = listen (9 + 1) bytes := rfl
    rw [hten] at hwhole ⊢
    cases hheard : listen (9 + 1) bytes with
    | message did =>
        obtain ⟨ha, hnetst⟩ := hconcludes.message did hheard
        by_cases hforeign : m.slaveid = 0xFF#8 ∨ m.slaveid = did
        · exact .inl (ha.trans (if_pos hforeign))
        · refine .inr (.inr ⟨ha.trans (if_neg hforeign), hnetst, .inr ⟨did, rfl, ?_⟩⟩)
          exact fun hdid => hforeign (.inr hdid.symm)
    | nothing =>
        obtain ⟨ha, hnetst⟩ := hconcludes.nothing hheard
        refine .inr (.inl ⟨ha, ?_⟩)
        rw [hnetst]
        ext i hi
        simp only [BitVec.getElem_and, BitVec.getElem_or]
        exact Bool.and_eq_right_iff_imp.mpr fun hbit => by rw [hbit, Bool.or_true]
    | cutShort => exact absurd hheard hwhole

/-- A node that is not waiting. -/
def idle (netst slaveid : Byte) : Snios :=
  ⟨0#8, 0#8, 0#8, 0#16, fun _ => 0#8, 0#16, 0#8, netst, slaveid, [], 0, .returned 0, []⟩

/-- A byte of noise, and a frame that fails at once. -/
theorem rcvmsg_returns_noise :
    ∃ k ≤ TMRETRY.toNat, ∃ m',
      m' = run .cpnos (rcvmsg .cpnos 0#16 (idle ACTIVE 1#8))
        ([0x41#8, 0x05#8, 0x00#8].map some ++ List.replicate k none) ∧
      Returned m' ∧
      (m'.a = 0x00#8 ∨ m'.a = 0xFF#8 ∧ m'.netst &&& RCVERR = RCVERR ∨
        m'.a = 0xFF#8 ∧ m'.netst = (idle ACTIVE 1#8).netst ∧
          ((idle ACTIVE 1#8).netst &&& ACTIVE = 0#8 ∨
            ∃ did, listen MAXRETRY.toNat [0x41#8, 0x05#8, 0x00#8] = .message did ∧
              did ≠ (idle ACTIVE 1#8).slaveid)) :=
  rcvmsg_returns .cpnos 0#16 (idle ACTIVE 1#8) [0x41#8, 0x05#8, 0x00#8] (by decide)

/-- `RECVBY` waits on. -/
theorem run_recvby {n : Nat} (hplace : m.place = .waiting .soh) :
    run port m (List.replicate n none) = m := by
  induction n with
  | zero => rfl
  | succ n ih =>
      have hfeed : feed port none m = m := by rw [feed, hplace]
      rw [List.replicate_succ, run_cons, hfeed, ih]

/-- A message of one byte to node 2. -/
def toNode2 : List Byte :=
  [ENQ, SOH, 0x00#8, 0x02#8, 0x00#8, 0x00#8, 0x00#8, 0xFD#8, STX, 0x00#8, ETX, 0xFB#8, EOT]

/-- After ENQ alone RCVMSG does not come back.  A node that is not active returns without
RCVERR, and so does node 1 that receives a message to node 2. -/
theorem rcvmsg_waits_forever :
    (∀ k, ¬Returned (run .cpnos (rcvmsg .cpnos 0#16 (idle ACTIVE 1#8))
      ([ENQ].map some ++ List.replicate k none))) ∧
    (∀ k, ¬(∃ m', m' = run .cpnos (rcvmsg .cpnos 0#16 (idle 0#8 1#8)) (List.replicate k none) ∧
      (m'.a = 0x00#8 ∨ m'.a = 0xFF#8 ∧ m'.netst &&& RCVERR = RCVERR))) ∧
    ∀ k, ¬(∃ m', m' = run .cpnos (rcvmsg .cpnos 0#16 (idle ACTIVE 1#8))
        (toNode2.map some ++ List.replicate k none) ∧
      (m'.a = 0x00#8 ∨ m'.a = 0xFF#8 ∧ m'.netst &&& RCVERR = RCVERR)) := by
  refine ⟨?_, ?_, ?_⟩
  · intro k hreturned
    rw [run_append, run_recvby .cpnos rfl] at hreturned
    exact nomatch hreturned.place
  · rintro k ⟨m', hrun, hresult⟩
    have hplace : (rcvmsg .cpnos 0#16 (idle 0#8 1#8)).place = .returned 0 := rfl
    rw [run_returned .cpnos hplace] at hrun
    subst hrun
    revert hresult
    decide
  · rintro k ⟨m', hrun, hresult⟩
    have hplace : (run .cpnos (rcvmsg .cpnos 0#16 (idle ACTIVE 1#8)) (toNode2.map some)).place =
        .returned 0 := by
      decide
    rw [run_append, run_returned .cpnos hplace] at hrun
    subst hrun
    revert hresult
    decide

end Link
end Rc700
