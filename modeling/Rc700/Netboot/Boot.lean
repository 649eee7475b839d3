import Rc700.Netboot.Confinement
import Rc700.Netboot.Session

/-!
# Booting from the boot server

The loader and `netboot_server.py` on a line that loses nothing.  Each call of `cpnet_xact` is one
request and one reply (`call_exchange`); a record is read with each pass of the loop, and so what
is in memory in the end is the image (`boots`).
-/

namespace Rc700
namespace Netboot

open Library Link Loader

variable {L : Layout} {m : Snios} {x : Loader}

/-! ### The loader as a party -/

/-- What the loader has sent, oldest first. -/
def Loader.total (x : Loader) : List Byte := x.before ++ x.snios.sent

/-- The loader at its end of the line. -/
structure Booting where
  loader : Loader
  /-- How many of the bytes that the loader has sent are on the line. -/
  said : Nat

def Booting.act (L : Layout) (b : Booting) : Act Byte Booting :=
  match b.loader.total[b.said]? with
  | some c => .say c { b with said := b.said + 1 }
  | none =>
      match b.loader.result, b.loader.snios.place with
      | none, .waiting _ => .hear fun c => { b with loader := feed L b.loader c }
      | _, _ => .rest

/-- The loader, when all that it has sent is on the line. -/
def quiet (x : Loader) : Booting := ⟨x, x.total.length⟩

/-- The loader, while SNIOS is in a call that it has made. -/
def calling (L : Layout) (x : Loader) (c : Client) : Booting :=
  ⟨goOn L 3 { x with snios := c.machine }, x.before.length + c.said⟩

theorem total_sendMsg (x : Loader) : x.total <+: (sendMsg L x).total := List.prefix_append _ _

theorem total_cpnetXact {y : Loader} (call : Call) (hsame : y.total = x.total) :
    x.total <+: (cpnetXact L call y).total := by
  rw [← hsame]
  exact total_sendMsg (poke L FMT [0x00#8, 0x00#8, 0x01#8, call.fnc, call.siz]
    { y with call := call })

theorem total_store (x : Loader) : x.total <+: (store L x).total := by
  unfold store
  dsimp only
  split
  · exact List.prefix_rfl
  · exact total_cpnetXact .readSeq rfl

theorem total_answered (rc : Byte) (x : Loader) : x.total <+: (Loader.answered L rc x).total := by
  unfold Loader.answered
  split
  · split
    · exact List.prefix_rfl
    · exact total_cpnetXact .openFile rfl
  · split
    · exact List.prefix_rfl
    · exact total_cpnetXact .readSeq rfl
  · split
    · exact total_cpnetXact .closeFile rfl
    · split
      · exact List.prefix_rfl
      · exact total_store x
  · exact List.prefix_rfl

theorem total_resume (x : Loader) : x.total <+: (resume L x).total := by
  unfold resume
  split
  · exact total_answered 0xFE#8 { x with results := x.results ++ [(x.call, 0xFE#8)] }
  · split
    · exact total_answered _ { x with results := x.results ++ [(x.call, _)] }
    · exact List.prefix_append _ _

/-- Nothing that has been sent is taken back. -/
theorem total_goOn (n : Nat) (x : Loader) : x.total <+: (goOn L n x).total := by
  induction n generalizing x with
  | zero => exact List.prefix_rfl
  | succ n ih =>
      rw [goOn]
      split
      · exact (total_resume x).trans (ih _)
      · exact List.prefix_rfl

/-- While SNIOS waits, so does the loader. -/
theorem goOn_waits {w : Wait} (hplace : x.snios.place = .waiting w) (n : Nat) : goOn L n x = x := by
  cases n with
  | zero => rfl
  | succ n =>
      rw [goOn, hplace]
      cases x.result <;> rfl

theorem act_says {b : Booting} {c : Byte} (hnext : b.loader.total[b.said]? = some c) :
    Booting.act L b = .say c { b with said := b.said + 1 } := by
  unfold Booting.act
  rw [hnext]

theorem act_hears {b : Booting} {w : Wait} (hsaid : b.loader.total[b.said]? = none)
    (hrunning : b.loader.result = none) (hplace : b.loader.snios.place = .waiting w) :
    Booting.act L b = .hear fun c => { b with loader := feed L b.loader c } := by
  unfold Booting.act
  rw [hsaid, hrunning, hplace]

/-- **The loader does as SNIOS does**, and goes on where SNIOS rests. -/
theorem calling_act (hrunning : x.result = none) (c : Client)
    (hgoes : Client.act .cpnos c ≠ .rest) :
    Booting.act L (calling L x c) = (Client.act .cpnos c).map (calling L x) := by
  have hsame : ({ x with snios := c.machine } : Loader).total[x.before.length + c.said]? =
      c.machine.sent[c.said]? := by
    rw [Loader.total, List.getElem?_append_right (Nat.le_add_right _ _), Nat.add_sub_cancel_left]
  unfold Client.act at hgoes ⊢
  cases hnext : c.machine.sent[c.said]? with
  | some b =>
      rw [hnext] at hsame
      obtain ⟨later, htotal⟩ := total_goOn (L := L) 3 { x with snios := c.machine }
      have hsays : (calling L x c).loader.total[(calling L x c).said]? = some b := by
        show (goOn L 3 { x with snios := c.machine }).total[x.before.length + c.said]? = some b
        rw [← htotal, List.getElem?_append_left (List.getElem?_eq_some_iff.mp hsame).1, hsame]
      exact act_says hsays
  | none =>
      rw [hnext] at hgoes hsame
      cases hplace : c.machine.place with
      | returned word =>
          rw [hplace] at hgoes
          exact absurd rfl hgoes
      | waiting w =>
          have hstays : goOn L 3 { x with snios := c.machine } = { x with snios := c.machine } :=
            goOn_waits hplace 3
          have hcall : calling L x c =
              ⟨{ x with snios := c.machine }, x.before.length + c.said⟩ := by
            rw [calling, hstays]
          rw [hcall]
          exact act_hears hsame hrunning hplace

/-! ### One call -/

section Call

variable {host : Path → Option (List Byte)} {s s' : State} {y : Loader} {call : Call}
  {data reply : List Byte}

/-- The reply of a call is in the message, and `cpnet_xact` is to return. -/
structure Replied (L : Layout) (m : Snios) (call : Call) (reply : List Byte) (y z : Loader) :
    Prop where
  ready : Ready L m z
  place : z.snios.place = .returned 0
  call : z.call = call
  dma : z.dma = y.dma
  results : z.results = y.results
  data : loadAt z.snios.mem (L.msgAt DAT) reply.length = reply
  other : ∀ p, 171 ≤ (p - L.msg).toNat → z.snios.mem p = y.snios.mem p

/-- The message that `cpnet_xact` sends. -/
theorem message_sent (call : Call) (y : Loader) :
    hdrAt L.msg (poke L FMT [0x00#8, 0x00#8, 0x01#8, call.fnc, call.siz] y).snios =
        [0x00#8, 0x00#8, y.snios.slaveid, call.fnc, call.siz] ∧
      payloadAt L.msg (poke L FMT [0x00#8, 0x00#8, 0x01#8, call.fnc, call.siz] y).snios =
        loadAt y.snios.mem (L.msgAt DAT) (call.siz.toNat + 1) := by
  have hmsg : L.msgAt FMT = L.msg := BitVec.add_zero _
  have hhdr : hdrAt L.msg (poke L FMT [0x00#8, 0x00#8, 0x01#8, call.fnc, call.siz] y).snios =
      [0x00#8, 0x00#8, y.snios.slaveid, call.fnc, call.siz] := by
    have htwo : L.msg + 2#16 = L.msg + BitVec.ofNat 16 2 := rfl
    have hstored := @loadAt_storeAt Byte 16 y.snios.mem L.msg
      [0x00#8, 0x00#8, 0x01#8, call.fnc, call.siz] (by simp)
    rw [hdrAt, htwo, loadAt_update _ _ _ (by decide) (by decide)]
    unfold poke
    dsimp only
    rw [hmsg]
    exact congrArg (List.set · 2 y.snios.slaveid) hstored
  refine ⟨hhdr, ?_⟩
  have hsiz : siz [0x00#8, 0x00#8, y.snios.slaveid, call.fnc, call.siz] = call.siz := rfl
  rw [payloadAt, hhdr, hsiz]
  refine loadAt_congr fun i hi => ?_
  have hlt := call.siz.isLt
  have hdat : L.msg + 5#16 = L.msgAt DAT := rfl
  have hother : L.msg + 5#16 + BitVec.ofNat 16 i ≠ L.msg + 2#16 := by bv_omega
  rw [Function.update_of_ne hother, hdat]
  refine storeAt_other _ _ fun j hj heq => ?_
  have hj5 : j < 5 := hj
  rw [hmsg, ← hdat] at heq
  bv_omega

/-- SNDMSG and the loader after it. -/
theorem request_follows (hy : Ready L m y) (hprogress : Progress L y.dma call y.results)
    (hdata : loadAt y.snios.mem (L.msgAt DAT) (call.siz.toNat + 1) = data) :
    ∃ z, Follows (Booting.act L) ⟨cpnetXact L call y, y.total.length⟩
        (frameTurns [0x00#8, 0x00#8, y.snios.slaveid, call.fnc, call.siz] data)
        ⟨recvMsg L z, z.total.length⟩ ∧
      Ready L m z ∧ z.call = call ∧ z.dma = y.dma ∧ z.results = y.results ∧
      z.snios.slaveid = y.snios.slaveid ∧
      ∀ p, 171 ≤ (p - L.msg).toNat → z.snios.mem p = y.snios.mem p := by
  let y₁ : Loader := { y with call := call }
  let n : Snios := (poke L FMT [0x00#8, 0x00#8, 0x01#8, call.fnc, call.siz] y₁).snios
  have hactive : Active n := hy.active
  obtain ⟨hhdr, hpayload⟩ := message_sent (L := L) call y₁
  obtain ⟨m₁, hm₁, hsends, hreturned, ha⟩ := client_sends_frame .cpnos L.msg hactive
  have hkeeps : Link.Keeps (Snios.sndmsg .cpnos L.msg n) m₁ := by
    rw [hm₁]
    exact keeps_run .cpnos (sends_sndmsg .cpnos L.msg hactive).1 _
  have hstart : Snios.sndmsg .cpnos L.msg n = Snios.sndms0 L.msg (Snios.called n) := if_neg hactive
  have hcall : InCall L m (cpnetXact L call y) := inCall_cpnetXact hy hprogress
  -- the loader, when SNDMSG has returned to it
  let z : Loader := { cpnetXact L call y with snios := m₁ }
  have hmem : ∀ p, 171 ≤ (p - L.msg).toNat → m₁.mem p = y.snios.mem p := by
    intro p hp
    have htwo : p ≠ L.msg + 2#16 := by
      rintro rfl
      bv_omega
    rw [hkeeps.mem, hstart]
    show Function.update n.mem (L.msg + 2#16) n.slaveid p = _
    rw [Function.update_of_ne htwo]
    refine storeAt_other _ _ fun j hj heq => ?_
    have hj5 : j < 5 := hj
    rw [heq, msgAt_sub L FMT j (by unfold FMT; omega), FMT] at hp
    omega
  have hready : Ready L m z := by
    refine ⟨hcall.running, fun p hp => ?_, hkeeps.active hcall.active⟩
    show m₁.mem p = m.mem p
    rw [hkeeps.mem]
    exact hcall.kept p hp
  have hresume : resume L z = recvMsg L z := by
    unfold resume
    rw [if_neg (not_not_intro ha)]
    rfl
  have hsettled : Settled L m (resume L z) := by
    rw [hresume]
    exact .inl (inCall_recvMsg hready hprogress)
  have hgoOn : goOn L 3 z = recvMsg L z := by
    rw [goOn_resume hready.running hreturned.place hsettled, hresume]
  have hfollows := hsends.lift (calling_act (L := L) (x := cpnetXact L call y) hcall.running)
  have hleft : calling L (cpnetXact L call y) ⟨Snios.sndmsg .cpnos L.msg n, 0⟩ =
      ⟨cpnetXact L call y, y.total.length⟩ := by
    show (⟨goOn L 3 (cpnetXact L call y), y.total.length⟩ : Booting) = _
    rw [goOn_settled (.inl hcall)]
  have hright : calling L (cpnetXact L call y) (settled m₁) = ⟨recvMsg L z, z.total.length⟩ := by
    show (⟨goOn L 3 z, y.total.length + m₁.sent.length⟩ : Booting) = _
    rw [hgoOn, ← List.length_append]
    rfl
  rw [hleft, hright, hhdr, hpayload, hdata] at hfollows
  refine ⟨z, hfollows, hready, rfl, rfl, rfl, ?_, hmem⟩
  show m₁.slaveid = _
  rw [hkeeps.slaveid, hstart]
  rfl

/-- RCVMSG and the loader after it. -/
theorem reply_follows {z : Loader} {hdr reply : List Byte} {rc : Byte} (hz : Ready L m z)
    (hprogress : Progress L z.dma z.call z.results) (hhdr : hdr.length = 5)
    (hsiz : reply.length = (siz hdr).toNat + 1) (hfits : reply.length ≤ 166)
    (hdid : hdr.getD 1 0#8 = z.snios.slaveid) (hrc : reply.head? = some rc)
    (hroom : z.call = .readSeq → rc = 0#8 → z.dma.toNat + 128 ≤ BIOS.toNat) :
    ∃ z', Follows (Booting.act L) ⟨recvMsg L z, z.total.length⟩
        ((frameTurns hdr reply).map Turn.dual) ⟨xactDone L rc z', z'.total.length⟩ ∧
      Replied L m z.call reply z z' := by
  obtain ⟨hmem, ha⟩ : (received .cpnos L.msg z.snios hdr reply).mem =
        storeAt z.snios.mem L.msg (hdr ++ reply) ∧
      (received .cpnos L.msg z.snios hdr reply).a = verdict z.snios.slaveid (hdr.getD 1 0#8) :=
    received_stores .cpnos L.msg (frameOf hdr reply hhdr hsiz)
  have hfollows := client_takes_frame .cpnos L.msg hz.active hhdr hsiz
  have hreturned : Returned (received .cpnos L.msg z.snios hdr reply) :=
    accept_returned .cpnos rfl rfl
  have hzero : (received .cpnos L.msg z.snios hdr reply).a = 0#8 :=
    ha.trans (if_pos (.inr hdid.symm))
  have hcall := inCall_recvMsg hz hprogress
  have hlen : (hdr ++ reply).length = 5 + reply.length := by rw [List.length_append, hhdr]
  -- the loader, when RCVMSG has returned to it
  let z' : Loader := { recvMsg L z with snios := received .cpnos L.msg z.snios hdr reply }
  have hother : ∀ p, 171 ≤ (p - L.msg).toNat → z'.snios.mem p = z.snios.mem p := by
    intro p hp
    refine (congrFun hmem p).trans (storeAt_other _ _ fun j hj heq => ?_)
    have hj : j < (hdr ++ reply).length := hj
    rw [heq, BitVec.add_comm, BitVec.add_sub_cancel, BitVec.toNat_ofNat,
      Nat.mod_eq_of_lt (by omega)] at hp
    omega
  have hdata : loadAt z'.snios.mem (L.msgAt DAT) reply.length = reply := by
    have hall : loadAt z'.snios.mem L.msg (5 + reply.length) = hdr ++ reply := by
      rw [← hlen]
      exact (congrArg (loadAt · L.msg _) hmem).trans (loadAt_storeAt _ _ (by omega))
    rw [loadAt_append] at hall
    exact (List.append_inj hall (by rw [length_loadAt, hhdr])).2
  have hdat : z'.snios.mem (L.msgAt DAT) = rc := by
    cases reply with
    | nil => exact nomatch hrc
    | cons c reply =>
        rw [List.length_cons, loadAt] at hdata
        rw [(List.cons.inj hdata).1]
        exact Option.some.inj hrc
  have hready : Ready L m z' := by
    refine ⟨hcall.running, fun p hp => ?_, hz.active⟩
    rw [hother p (not_owns hp)]
    exact hz.kept p hp
  have hresume : resume L z' = xactDone L rc z' := by
    unfold resume
    have hreceiving : z'.receiving = true := rfl
    rw [if_neg (not_not_intro hzero), if_pos hreceiving, hdat]
  have hsettled : Settled L m (resume L z') := by
    rw [hresume]
    exact settled_xactDone hready hreturned.place hprogress hroom
  have hgoOn : goOn L 3 z' = xactDone L rc z' := by
    rw [goOn_resume hready.running hreturned.place hsettled, hresume]
  have hleft : calling L (recvMsg L z) ⟨Snios.rcvmsg .cpnos L.msg z.snios, 0⟩ =
      ⟨recvMsg L z, z.total.length⟩ := by
    show (⟨goOn L 3 (recvMsg L z), z.total.length⟩ : Booting) = _
    rw [goOn_settled (.inl hcall)]
  have hright : calling L (recvMsg L z) (settled (received .cpnos L.msg z.snios hdr reply)) =
      ⟨xactDone L rc z', z'.total.length⟩ := by
    show (⟨goOn L 3 z', z.total.length + z'.snios.sent.length⟩ : Booting) = _
    rw [hgoOn, ← List.length_append]
    rfl
  have hlifted := hfollows.lift (calling_act (L := L) (x := recvMsg L z) hcall.running)
  rw [hleft, hright] at hlifted
  exact ⟨z', hlifted, hready, hreturned.place, rfl, rfl, rfl, hdata, hother⟩

/-- **One call**: the request goes to the server, and its reply comes back. -/
theorem call_exchange (host : Path → Option (List Byte)) {rc : Byte} (hy : Ready L m y)
    (hprogress : Progress L y.dma call y.results)
    (hdata : loadAt y.snios.mem (L.msgAt DAT) (call.siz.toNat + 1) = data)
    (hdispatch : dispatchSndmsg host call.fnc data s = (some reply, s'))
    (hrc : reply.head? = some rc) (hfits : reply.length ≤ 166)
    (hroom : call = .readSeq → rc = 0#8 → y.dma.toNat + 128 ≤ BIOS.toNat) :
    ∃ n z, Steps (NetStep (Booting.act L) (handleAct host)) n
        ⟨⟨cpnetXact L call y, y.total.length⟩, .done (some s), [], []⟩
        ⟨⟨xactDone L rc z, z.total.length⟩, .done (some s'), [], []⟩ ∧
      Replied L m call reply y z := by
  obtain ⟨z, hrequest, hready, rfl, hdma, hresults, hslaveid, hother⟩ :=
    request_follows hy hprogress hdata
  let hdr : List Byte := [0x00#8, 0x00#8, y.snios.slaveid, z.call.fnc, z.call.siz]
  have hlen : data.length = (siz hdr).toNat + 1 := by
    rw [← hdata, length_loadAt]
    rfl
  have hpos : reply.length ≠ 0 := by
    intro hempty
    rw [List.length_eq_zero_iff.mp hempty] at hrc
    exact nomatch hrc
  have hsiz : reply.length = (siz (replyHeader hdr reply)).toNat + 1 := by
    show _ = (BitVec.ofNat 8 (max reply.length 1 - 1)).toNat + 1
    rw [BitVec.toNat_ofNat, Nat.mod_eq_of_lt (by omega)]
    omega
  -- the two halves of the exchange: the request is dispatched, and the reply comes back
  have hserver := @server_exchange host s s' hdr data reply rfl hlen (by omega) hdispatch
  have hprogress' : Progress L z.dma z.call z.results := by
    rw [hdma, hresults]
    exact hprogress
  obtain ⟨z', hreply, hreplied⟩ := reply_follows hready hprogress' rfl hsiz hfits
    hslaveid.symm hrc (by rw [hdma]; exact hroom)
  obtain ⟨n, hrun⟩ := (hrequest.append hreply).converse hserver
  refine ⟨n, z', hrun, hreplied.ready, hreplied.place, hreplied.call, hreplied.dma.trans hdma,
    hreplied.results.trans hresults, hreplied.data, fun p hp => ?_⟩
  exact (hreplied.other p hp).trans (hother p hp)

end Call

/-! ### The image -/

/-- The key of `CPNOS.IMG`. -/
def imgKey : Key := ['C', 'P', 'N', 'O', 'S', ' ', ' ', ' ', 'I', 'M', 'G']

/-- How many records an image has. -/
def recordCount (image : List Byte) : Nat := (image.length + 127) / 128

/-- The image, filled up to a whole record. -/
def padded (image : List Byte) : List Byte := ljust (recordCount image * 128) 0x1A#8 image

theorem length_padded (image : List Byte) : (padded image).length = recordCount image * 128 := by
  unfold padded ljust recordCount
  rw [List.length_append, List.length_replicate]
  omega

theorem lt_recordCount {image : List Byte} {k : Nat} :
    k < recordCount image ↔ k * 128 < image.length := by
  unfold recordCount
  omega

/-- One record more. -/
theorem take_padded {image : List Byte} {k : Nat} (hk : k * 128 < image.length) :
    (padded image).take ((k + 1) * 128) = (padded image).take (k * 128) ++ sectorAt image k := by
  have hsplit : (k + 1) * 128 = k * 128 + 128 := Nat.succ_mul k 128
  rw [hsplit, List.take_add]
  refine congrArg ((padded image).take (k * 128) ++ ·) ?_
  unfold padded sectorAt ljust pread
  rw [List.drop_append_of_le_length (Nat.le_of_lt hk), List.take_append, List.take_replicate,
    List.length_take, List.length_drop]
  refine congrArg (_ ++ List.replicate · _) ?_
  unfold recordCount
  omega

section Serving

variable {host : Path → Option (List Byte)} {s : State} {image rest : List Byte} {k : Nat}

/-- The data of a request for `CPNOS.IMG`. -/
def imgData (rest : List Byte) : List Byte := 0x00#8 :: (FCB_HEAD ++ rest)

theorem fcbKey_img (rest : List Byte) : fcbKey (FCB_HEAD ++ rest) = imgKey := by
  have hfront : fcbKey (FCB_HEAD ++ rest) = fcbKey FCB_HEAD := rfl
  rw [hfront]
  decide

theorem fcb_imgData (hrest : rest.length = 24) :
    fcbOf (imgData rest) = FCB_HEAD ++ rest ∧ paddedFcb (imgData rest) = FCB_HEAD ++ rest := by
  have hlen : (imgData rest).length = 37 := by
    show (FCB_HEAD ++ rest).length + 1 = 37
    rw [List.length_append, hrest]
    rfl
  have htake : ((imgData rest).drop 1).take 36 = FCB_HEAD ++ rest := by
    refine List.take_of_length_le ?_
    rw [List.length_drop, hlen]
  unfold fcbOf paddedFcb
  rw [if_pos (by omega), if_pos (by omega)]
  exact ⟨htake, htake⟩

/-- The FCB of the image, at its start. -/
theorem fcbReply_img (rest : List Byte) (records : Byte) :
    fcbReply (imgData rest) records =
      some (imgData ([0x00#8, 0x00#8, 0x00#8, records] ++ List.replicate 17 0x00#8)) := by
  have hlen : 2 ≤ (imgData rest).length := by
    show 2 ≤ (FCB_HEAD ++ rest).length + 1
    rw [List.length_append, Nat.add_right_comm]
    exact Nat.le_add_right_of_le (by decide)
  rw [fcbReply, if_pos hlen]
  simp [imgData, FCB_HEAD, List.replicate]

/-- OPEN finds the image. -/
theorem open_serves (hrest : rest.length = 24) (hcontent : fileContent host s imgKey = some image) :
    ∃ records s', dispatchSndmsg host 15#8 (imgData rest) s =
        (some (imgData ([0x00#8, 0x00#8, 0x00#8, records] ++ List.replicate 17 0x00#8)), s') ∧
      s'.openFiles.lookup imgKey = some image := by
  have hdispatch : dispatchSndmsg host 15#8 (imgData rest) s = openFile host (imgData rest) s := rfl
  rw [hdispatch, openFile, (fcb_imgData hrest).1, fcbKey_img, hcontent]
  dsimp only
  rw [fcbReply_img]
  exact ⟨_, { s with openFiles := s.openFiles.insert imgKey image }, rfl,
    AList.lookup_insert s.openFiles⟩

/-- A request for a record of the image. -/
structure Asks (rest : List Byte) (k : Nat) : Prop where
  length : rest.length = 24
  ex : rest.getD 0 0#8 = BitVec.ofNat 8 (k / 128)
  cr : rest.getD 20 0#8 = BitVec.ofNat 8 (k % 128)

theorem seqRecord_img (hasks : Asks rest k) (hsmall : k < 32640) :
    fcbByte (FCB_HEAD ++ rest) 12 = k / 128 ∧ fcbByte (FCB_HEAD ++ rest) 32 = k % 128 ∧
      seqRecord (FCB_HEAD ++ rest) = k := by
  have hex : fcbByte (FCB_HEAD ++ rest) 12 = k / 128 := by
    show (rest.getD 0 0#8).toNat = _
    rw [hasks.ex, BitVec.toNat_ofNat, Nat.mod_eq_of_lt (by omega)]
  have hcr : fcbByte (FCB_HEAD ++ rest) 32 = k % 128 := by
    show (rest.getD 20 0#8).toNat = _
    rw [hasks.cr, BitVec.toNat_ofNat, Nat.mod_eq_of_lt (by omega)]
  refine ⟨hex, hcr, ?_⟩
  rw [seqRecord, hex, hcr]
  omega

theorem advance_img (hasks : Asks rest k) (hsmall : k < 32640) :
    ∃ rest', advance (FCB_HEAD ++ rest) = some (FCB_HEAD ++ rest') ∧ Asks rest' (k + 1) := by
  obtain ⟨hex, hcr, -⟩ := seqRecord_img hasks hsmall
  -- CR goes up by one, and into EX at 128
  have hnext : (if 128 ≤ k % 128 + 1 then (k / 128 + 1, 0) else (k / 128, k % 128 + 1)) =
      ((k + 1) / 128, (k + 1) % 128) := by
    split
    · refine Prod.ext ?_ ?_
      · show k / 128 + 1 = (k + 1) / 128
        omega
      · show 0 = (k + 1) % 128
        omega
    · refine Prod.ext ?_ ?_
      · show k / 128 = (k + 1) / 128
        omega
      · show k % 128 + 1 = (k + 1) % 128
        omega
  refine ⟨(rest.set 0 (BitVec.ofNat 8 ((k + 1) / 128))).set 20 (BitVec.ofNat 8 ((k + 1) % 128)),
    ?_, ?_, ?_, ?_⟩
  · rw [advance, hex, hcr]
    dsimp only
    rw [hnext]
    dsimp only
    rw [if_pos (by omega)]
    rfl
  · rw [List.length_set, List.length_set, hasks.length]
  · rw [List.getD_eq_getElem?_getD, List.getElem?_set_ne (by decide), List.getElem?_set_self
      (by rw [hasks.length]; decide)]
    rfl
  · rw [List.getD_eq_getElem?_getD, List.getElem?_set_self
      (by rw [List.length_set, hasks.length]; decide)]
    rfl

/-- READ SEQ reads a record. -/
theorem read_serves (host : Path → Option (List Byte)) (hasks : Asks rest k)
    (hopen : s.openFiles.lookup imgKey = some image)
    (hsmall : k < 32640) (hk : k * 128 < image.length) :
    ∃ rest', dispatchSndmsg host 20#8 (imgData rest) s =
        (some (imgData rest' ++ sectorAt image k), s) ∧ Asks rest' (k + 1) := by
  obtain ⟨rest', hadvance, hnext⟩ := advance_img hasks hsmall
  have hdispatch : dispatchSndmsg host 20#8 (imgData rest) s = readSeq (imgData rest) s := rfl
  refine ⟨rest', ?_, hnext⟩
  rw [hdispatch, readSeq, (fcb_imgData hasks.length).2, fcbKey_img, hopen]
  dsimp only
  rw [(seqRecord_img hasks hsmall).2.2, if_neg (Nat.not_le_of_lt hk), hadvance]
  rfl

/-- READ SEQ comes to the end of the image. -/
theorem read_ends (host : Path → Option (List Byte)) (hasks : Asks rest k)
    (hopen : s.openFiles.lookup imgKey = some image)
    (hsmall : k < 32640) (hk : image.length ≤ k * 128) :
    dispatchSndmsg host 20#8 (imgData rest) s =
      (some (0x01#8 :: (FCB_HEAD ++ rest) ++ List.replicate 128 0x00#8), s) := by
  have hdispatch : dispatchSndmsg host 20#8 (imgData rest) s = readSeq (imgData rest) s := rfl
  rw [hdispatch, readSeq, (fcb_imgData hasks.length).2, fcbKey_img, hopen]
  dsimp only
  rw [(seqRecord_img hasks hsmall).2.2, if_pos hk]

/-- CLOSE replies, whatever it flushes. -/
theorem close_replies (host : Path → Option (List Byte)) (s : State) (hrest : rest.length = 24) :
    ∃ s', dispatchSndmsg host 16#8 (imgData rest) s = (some (imgData rest), s') := by
  have hdispatch : dispatchSndmsg host 16#8 (imgData rest) s = closeFile (imgData rest) s := rfl
  have hpath : '\x00' ∉ flushPath imgKey := by decide
  rw [hdispatch, closeFile, (fcb_imgData hrest).2, fcbKey_img]
  dsimp only
  split
  · exact ⟨_, rfl⟩
  · rw [if_neg hpath]
    exact ⟨_, rfl⟩

end Serving

/-! ### Memory -/

section Memory

variable {y z : Loader} {c : Byte} {tail : List Byte} {n : Nat}

/-- The image area is not in the message. -/
theorem image_other {p : Word} (hp : p.toNat < BIOS.toNat) : 171 ≤ (p - L.msg).toNat := by
  have hstart := L.scratch_start
  have hend := L.scratch_end
  have hbios : BIOS.toNat = 0xEE00 := rfl
  bv_omega

/-- A call leaves the image area as it is. -/
theorem image_kept {mem mem' : Word → Byte} {adr : Word}
    (hother : ∀ p, 171 ≤ (p - L.msg).toNat → mem' p = mem p)
    (hend : adr.toNat + n ≤ BIOS.toNat) : loadAt mem' adr n = loadAt mem adr n := by
  have hbios : BIOS.toNat = 0xEE00 := rfl
  refine loadAt_congr fun i hi => hother _ (image_other ?_)
  bv_omega

/-- The user number of the next request. -/
theorem reuseFcb_data (hdata : loadAt y.snios.mem (L.msgAt DAT) 37 = c :: tail) :
    loadAt (reuseFcb L y).snios.mem (L.msgAt DAT) 37 = 0x00#8 :: tail := by
  have hzero : L.msgAt DAT + BitVec.ofNat 16 0 = L.msgAt DAT := BitVec.add_zero _
  have hset := loadAt_update y.snios.mem (L.msgAt DAT) 0x00#8 (n := 37) (i := 0) (by decide)
    (by decide)
  rw [hzero, hdata] at hset
  exact hset

/-- What has been loaded, with the record that is stored. -/
theorem stored_loaded (hfits : L.ndos.toNat + n + 128 ≤ BIOS.toNat)
    (hdma : x.dma.toNat = L.ndos.toNat + n) :
    loadAt (stored L x).snios.mem L.ndos (n + 128) =
      loadAt x.snios.mem L.ndos n ++ loadAt x.snios.mem (L.msgAt (DAT + 37)) 128 := by
  have hbios : BIOS.toNat = 0xEE00 := rfl
  have hadr : L.ndos + BitVec.ofNat 16 n = x.dma := by bv_omega
  have hlen : (loadAt x.snios.mem (L.msgAt (DAT + 37)) 128).length = 128 := length_loadAt _ _ _
  have hpoke : loadAt (stored L x).snios.mem L.ndos (n + 128) = loadAt (storeAt x.snios.mem x.dma
      (loadAt x.snios.mem (L.msgAt (DAT + 37)) 128)) L.ndos (n + 128) :=
    image_kept (fun p hp => poke_other DAT [0x00#8] (by decide) hp) (by omega)
  rw [hpoke, loadAt_append, hadr]
  refine congrArg₂ (· ++ ·) (loadAt_congr fun i hi => storeAt_other _ _ fun j hj heq => ?_) ?_
  · bv_omega
  · have hself := loadAt_storeAt x.snios.mem x.dma (by rw [hlen]; decide)
    rw [hlen] at hself
    exact hself

/-- The message, when the record is stored. -/
theorem stored_data (hfits : x.dma.toNat + 128 ≤ BIOS.toNat)
    (hdata : loadAt x.snios.mem (L.msgAt DAT) 37 = c :: tail) :
    loadAt (stored L x).snios.mem (L.msgAt DAT) 37 = 0x00#8 :: tail := by
  have hstart := L.scratch_start
  have hend := L.scratch_end
  have hbios : BIOS.toNat = 0xEE00 := rfl
  refine reuseFcb_data (c := c) ?_
  rw [← hdata]
  refine loadAt_congr fun i hi => storeAt_other _ _ fun j hj heq => ?_
  rw [length_loadAt] at hj
  unfold Layout.msgAt DAT at heq
  bv_omega

end Memory

/-! ### Reading the image -/

section Reading

variable {host : Path → Option (List Byte)} {s : State} {image : List Byte} {k : Nat} {y z : Loader}

/-- The loader makes a call, and the server is ready for it. -/
def asking (L : Layout) (call : Call) (y : Loader) (s : State) :
    Net Byte Booting (Dialogue Byte (Option State)) :=
  ⟨⟨cpnetXact L call y, y.total.length⟩, .done (some s), [], []⟩

/-- The loader is about to ask for a record, and has loaded those before it. -/
structure Reading (L : Layout) (m : Snios) (image : List Byte) (k : Nat) (y : Loader) : Prop where
  ready : Ready L m y
  results : ∃ r, r < 4#8 ∧ y.results = opened r k
  dma : y.dma.toNat = L.ndos.toNat + k * 128
  request : ∃ rest, Asks rest k ∧ loadAt y.snios.mem (L.msgAt DAT) 37 = imgData rest
  loaded : loadAt y.snios.mem L.ndos (k * 128) = (padded image).take (k * 128)

theorem xactDone_record (hcall : z.call = .readSeq) :
    xactDone L 0x00#8 z = store L { z with results := z.results ++ [(.readSeq, 0x00#8)] } := by
  unfold xactDone Loader.answered
  rw [hcall]
  rfl

/-- **One pass of the loop** reads one record. -/
theorem reading_next (host : Path → Option (List Byte)) (hy : Reading L m image k y)
    (hopen : s.openFiles.lookup imgKey = some image)
    (hfits : L.ndos.toNat + recordCount image * 128 ≤ BIOS.toNat) (hk : k < recordCount image) :
    ∃ n y', Steps (NetStep (Booting.act L) (handleAct host)) n (asking L .readSeq y s)
        (asking L .readSeq y' s) ∧ Reading L m image (k + 1) y' := by
  have hbios : BIOS.toNat = 0xEE00 := rfl
  obtain ⟨rest, hasks, hdata⟩ := hy.request
  obtain ⟨r, hr, hresults⟩ := hy.results
  have hdma := hy.dma
  have hroom : y.dma.toNat + 128 ≤ BIOS.toNat := by omega
  obtain ⟨rest', hdispatch, hnext⟩ :=
    read_serves host hasks hopen (by omega) (lt_recordCount.mp hk)
  have hlen : (imgData rest').length = 37 := by
    show (FCB_HEAD ++ rest').length + 1 = 37
    rw [List.length_append, hnext.length]
    rfl
  have hsector : (sectorAt image k).length = 128 := by
    unfold sectorAt ljust pread
    rw [List.length_append, List.length_replicate, List.length_take]
    omega
  have hprogress : Progress L y.dma .readSeq y.results := by
    rw [hresults]
    exact .readSeq r k hr hdma (by omega)
  obtain ⟨n, z, hrun, hz⟩ := call_exchange host hy.ready hprogress hdata hdispatch rfl
    (by rw [List.length_append, hlen, hsector]; omega) (fun _ _ => hroom)
  -- the reply: the FCB, and the record
  have hreply := hz.data
  rw [List.length_append, hlen, hsector, loadAt_append] at hreply
  obtain ⟨hfcb, hrecord⟩ := List.append_inj hreply (by rw [length_loadAt, hlen])
  let x : Loader := { z with results := z.results ++ [(.readSeq, 0x00#8)] }
  have hxdma : x.dma.toNat = L.ndos.toNat + k * 128 := by
    show z.dma.toNat = _
    rw [hz.dma, hdma]
  have hxroom : x.dma.toNat + 128 ≤ BIOS.toNat := by
    rw [hxdma, ← hdma]
    exact hroom
  have hstored : xactDone L 0x00#8 z = cpnetXact L .readSeq (stored L x) := by
    rw [xactDone_record hz.call, store_room hxroom]
  rw [hstored] at hrun
  refine ⟨n, stored L x, hrun, ⟨hz.ready.running, ?_, hz.ready.active⟩, ⟨r, hr, ?_⟩, ?_,
    ⟨rest', hnext, stored_data hxroom hfcb⟩, ?_⟩
  · refine kept_poke DAT [0x00#8] (by decide) (kept_store hz.ready.kept ?_ ?_)
    · rw [hxdma]
      exact Nat.le_add_right _ _
    · rw [length_loadAt]
      exact hxroom
  · show z.results ++ _ = _
    rw [hz.results, hresults, opened_succ]
  · show (x.dma + 128#16).toNat = _
    bv_omega
  · have hadr : L.msgAt (DAT + 37) = L.msgAt DAT + BitVec.ofNat 16 37 := by
      unfold Layout.msgAt
      rw [BitVec.ofNat_add, BitVec.add_assoc]
    have hkept : loadAt x.snios.mem L.ndos (k * 128) = loadAt y.snios.mem L.ndos (k * 128) :=
      image_kept hz.other (by omega)
    rw [Nat.succ_mul, stored_loaded (by omega) hxdma, hkept, hy.loaded, hadr, ← Nat.succ_mul,
      take_padded (lt_recordCount.mp hk)]
    exact congrArg (_ ++ ·) hrecord

/-- **The loop** reads the whole image. -/
theorem reading_all (host : Path → Option (List Byte)) (hy : Reading L m image k y)
    (hopen : s.openFiles.lookup imgKey = some image)
    (hfits : L.ndos.toNat + recordCount image * 128 ≤ BIOS.toNat) (hk : k ≤ recordCount image) :
    ∃ n y', Steps (NetStep (Booting.act L) (handleAct host)) n (asking L .readSeq y s)
        (asking L .readSeq y' s) ∧ Reading L m image (recordCount image) y' := by
  induction hleft : recordCount image - k generalizing k y with
  | zero =>
      have hend : k = recordCount image := by omega
      exact ⟨0, y, .refl _, hend ▸ hy⟩
  | succ left ih =>
      obtain ⟨n, y₁, hfirst, hy₁⟩ := reading_next host hy hopen hfits (by omega)
      obtain ⟨n', y', hrest, hy'⟩ := ih hy₁ (by omega) (by omega)
      exact ⟨n + n', y', hfirst.trans hrest, hy'⟩

/-! ### The whole run -/

theorem xactDone_login (hcall : z.call = .login) : xactDone L 0x00#8 z = cpnetXact L .openFile
    (installFcb L (bootMark 10 'L' { z with results := z.results ++ [(.login, 0x00#8)] })) := by
  unfold xactDone Loader.answered
  rw [hcall]
  rfl

theorem xactDone_openFile (hcall : z.call = .openFile) : xactDone L 0x00#8 z = cpnetXact L .readSeq
    (reuseFcb L { bootMark 11 'O' { z with results := z.results ++ [(.openFile, 0x00#8)] } with
      dma := L.ndos }) := by
  unfold xactDone Loader.answered
  rw [hcall]
  rfl

theorem xactDone_end (hcall : z.call = .readSeq) :
    xactDone L 0x01#8 z = finish L { z with results := z.results ++ [(.readSeq, 0x01#8)] } := by
  unfold xactDone Loader.answered
  rw [hcall]
  rfl

theorem xactDone_closeFile (hcall : z.call = .closeFile) (rc : Byte) : xactDone L rc z =
    leave L.ndos (bootMark 14 'C' { z with results := z.results ++ [(.closeFile, rc)] }) := by
  unfold xactDone Loader.answered
  rw [hcall]

/-- The data of the OPEN request. -/
theorem installFcb_data (y : Loader) : ∃ rest, rest.length = 24 ∧
    loadAt (installFcb L y).snios.mem (L.msgAt DAT) 37 = imgData rest := by
  have hstored := @loadAt_storeAt Byte 16 y.snios.mem (L.msgAt DAT) (0x00#8 :: FCB_HEAD) (by decide)
  refine ⟨loadAt (installFcb L y).snios.mem (L.msgAt DAT + BitVec.ofNat 16 13) 24,
    length_loadAt _ _ _, ?_⟩
  have hsplit := loadAt_append (installFcb L y).snios.mem (L.msgAt DAT) 13 24
  exact hsplit.trans (congrArg (· ++ _) hstored)

/-- LOGIN and OPEN succeed. -/
theorem opens (hcontent : fileContent host s imgKey = some image) :
    ∃ n y s', Steps (NetStep (Booting.act L) (handleAct host)) n
        ⟨⟨netbootMpm L m, 0⟩, .done (some s), [], []⟩ (asking L .readSeq y s') ∧
      Reading L m image 0 y ∧ s'.openFiles.lookup imgKey = some image := by
  have hstart : (⟨⟨netbootMpm L m, 0⟩, .done (some s), [], []⟩ : Net Byte Booting _) =
      asking L .login (poke L DAT loginPwd (armed L m)) s := by
    rw [netbootMpm_eq]
    rfl
  rw [hstart]
  -- LOGIN
  have hlogin : ∀ data, dispatchSndmsg host 64#8 data s = (some [0x00#8], s) := fun _ => rfl
  obtain ⟨n₁, z₁, hrun₁, hz₁⟩ := call_exchange host (ready_login L m) .login rfl (hlogin _) rfl
    (by decide) (fun hcall => nomatch hcall)
  rw [xactDone_login hz₁.call] at hrun₁
  -- OPEN
  let x₁ : Loader := bootMark 10 'L' { z₁ with results := z₁.results ++ [(.login, 0x00#8)] }
  have hready₁ : Ready L m (installFcb L x₁) :=
    ⟨hz₁.ready.running, kept_poke DAT (0x00#8 :: FCB_HEAD) (by decide) hz₁.ready.kept,
      hz₁.ready.active⟩
  have hprogress₁ : Progress L (installFcb L x₁).dma .openFile (installFcb L x₁).results := by
    show Progress L z₁.dma .openFile (z₁.results ++ [(.login, 0x00#8)])
    rw [hz₁.results]
    exact .openFile
  obtain ⟨rest, hrest, hdata⟩ := installFcb_data (L := L) x₁
  obtain ⟨records, s', hdispatch, hopen⟩ := open_serves hrest hcontent
  let front : List Byte := [0x00#8, 0x00#8, 0x00#8, records] ++ List.replicate 17 0x00#8
  have hlen : (imgData front).length = 34 := rfl
  obtain ⟨n₂, z₂, hrun₂, hz₂⟩ := call_exchange host hready₁ hprogress₁ hdata hdispatch rfl
    (by rw [hlen]; omega) (fun hcall => nomatch hcall)
  rw [xactDone_openFile hz₂.call] at hrun₂
  refine ⟨n₁ + n₂, _, s', hrun₁.trans hrun₂, ⟨⟨hz₂.ready.running, ?_, hz₂.ready.active⟩,
    ⟨0x00#8, by decide, ?_⟩, rfl, ?_, rfl⟩, hopen⟩
  · exact kept_poke DAT [0x00#8] (by decide) hz₂.ready.kept
  · show z₂.results ++ [(.openFile, 0x00#8)] = _
    rw [hz₂.results]
    show (z₁.results ++ [(.login, 0x00#8)]) ++ [(.openFile, 0x00#8)] = _
    rw [hz₁.results]
    rfl
  · -- the reply is shorter than the next request
    have hreply : loadAt z₂.snios.mem (L.msgAt DAT) 34 = imgData front := hz₂.data
    let tail := loadAt z₂.snios.mem (L.msgAt DAT + BitVec.ofNat 16 34) 3
    have htail : tail.length = 3 := length_loadAt _ _ _
    have hall : loadAt z₂.snios.mem (L.msgAt DAT) 37 = imgData (front ++ tail) := by
      rw [show 37 = 34 + 3 from rfl, loadAt_append, hreply]
      rfl
    refine ⟨front ++ tail, ⟨?_, rfl, rfl⟩, reuseFcb_data hall⟩
    rw [List.length_append, htail]
    rfl

/-- What follows the loop, up to CLOSE. -/
def closing (L : Layout) (x : Loader) : Loader :=
  let x := conout [0x0D#8, 0x0A#8] (bootMark 13 'E' x)
  reuseFcb L (conout (stamp x ++ [0x0D#8, 0x0A#8]) x)

theorem finish_closing (x : Loader) : finish L x = cpnetXact L .closeFile (closing L x) := rfl

/-- **The end of the image**: the file is closed, and `netboot_mpm` returns. -/
theorem reading_ends (host : Path → Option (List Byte))
    (hy : Reading L m image (recordCount image) y)
    (hopen : s.openFiles.lookup imgKey = some image)
    (hfits : L.ndos.toNat + recordCount image * 128 ≤ BIOS.toNat) :
    ∃ n x s', Steps (NetStep (Booting.act L) (handleAct host)) n (asking L .readSeq y s)
        ⟨quiet x, .done (some s'), [], []⟩ ∧
      x.result = some L.ndos ∧ Confined L m x ∧
      loadAt x.snios.mem L.ndos (padded image).length = padded image := by
  have hbios : BIOS.toNat = 0xEE00 := rfl
  obtain ⟨rest, hasks, hdata⟩ := hy.request
  obtain ⟨r, hr, hresults⟩ := hy.results
  have hdma := hy.dma
  have hend : image.length ≤ recordCount image * 128 :=
    Nat.le_of_not_lt fun hlt => absurd (lt_recordCount.mpr hlt) (Nat.lt_irrefl _)
  have hdispatch := read_ends host hasks hopen (by omega) hend
  have hprogress : Progress L y.dma .readSeq y.results := by
    rw [hresults]
    exact .readSeq r _ hr hdma (by omega)
  have hlen : (0x01#8 :: (FCB_HEAD ++ rest)).length = 37 := by
    rw [List.length_cons, List.length_append, hasks.length]
    rfl
  -- READ SEQ
  obtain ⟨n₁, z₁, hrun₁, hz₁⟩ := call_exchange host hy.ready hprogress hdata hdispatch rfl
    (by rw [List.length_append, hlen, List.length_replicate]; omega) (fun _ hrc => nomatch hrc)
  have hreply := hz₁.data
  rw [List.length_append, hlen, loadAt_append] at hreply
  obtain ⟨hfcb, -⟩ := List.append_inj hreply (by rw [length_loadAt, hlen])
  rw [xactDone_end hz₁.call, finish_closing] at hrun₁
  -- CLOSE
  let x₁ : Loader := closing L { z₁ with results := z₁.results ++ [(.readSeq, 0x01#8)] }
  have hready₁ : Ready L m x₁ :=
    ⟨hz₁.ready.running, kept_poke DAT [0x00#8] (by decide) hz₁.ready.kept, hz₁.ready.active⟩
  have hprogress₁ : Progress L x₁.dma .closeFile x₁.results := by
    show Progress L z₁.dma .closeFile (z₁.results ++ [(.readSeq, 0x01#8)])
    rw [hz₁.results, hresults]
    exact .closeFile r _ hr
  have hdata₁ : loadAt x₁.snios.mem (L.msgAt DAT) 37 = imgData rest := reuseFcb_data hfcb
  obtain ⟨s', hclose⟩ := close_replies host s hasks.length
  have himg : (imgData rest).length = 37 := hlen
  obtain ⟨n₂, z₂, hrun₂, hz₂⟩ := call_exchange host hready₁ hprogress₁ hdata₁ hclose rfl
    (by rw [himg]; omega) (fun hcall => nomatch hcall)
  have hprogress₂ : Progress L z₂.dma z₂.call z₂.results := by
    rw [hz₂.call, hz₂.dma, hz₂.results]
    exact hprogress₁
  have hsettled : Settled L m (xactDone L 0x00#8 z₂) :=
    settled_xactDone hz₂.ready hz₂.place hprogress₂
      fun hcall => nomatch hz₂.call.symm.trans hcall
  have hleft := xactDone_closeFile (L := L) hz₂.call 0x00#8
  refine ⟨n₁ + n₂, xactDone L 0x00#8 z₂, s', hrun₁.trans ?_, ?_, hsettled.confined, ?_⟩
  · have hquiet : quiet (xactDone L 0x00#8 z₂) = ⟨xactDone L 0x00#8 z₂, z₂.total.length⟩ := by
      rw [quiet, hleft]
      rfl
    rw [hquiet]
    exact hrun₂
  · rw [hleft]
    rfl
  · rw [hleft, length_padded]
    show loadAt z₂.snios.mem L.ndos _ = _
    have hfirst : loadAt z₁.snios.mem L.ndos (recordCount image * 128) =
        loadAt y.snios.mem L.ndos (recordCount image * 128) := image_kept hz₁.other hfits
    have hsecond : loadAt z₂.snios.mem L.ndos (recordCount image * 128) =
        loadAt x₁.snios.mem L.ndos (recordCount image * 128) := image_kept hz₂.other hfits
    have hpoke : loadAt x₁.snios.mem L.ndos (recordCount image * 128) =
        loadAt z₁.snios.mem L.ndos (recordCount image * 128) :=
      image_kept (fun p hp => poke_other DAT [0x00#8] (by decide) hp) hfits
    rw [hsecond, hpoke, hfirst, hy.loaded, ← length_padded, List.take_length]

/-- **Booting from the boot server** loads the image, in every run. -/
theorem boots (L : Layout) (m : Snios) {host : Path → Option (List Byte)} {s : State}
    {image : List Byte} (hcontent : fileContent host s imgKey = some image)
    (hfits : L.ndos.toNat + (padded image).length ≤ BIOS.toNat) :
    ∃ x s', Concludes (NetStep (Booting.act L) (handleAct host))
        ⟨⟨netbootMpm L m, 0⟩, .done (some s), [], []⟩ ⟨quiet x, .done (some s'), [], []⟩ ∧
      x.result = some L.ndos ∧ Confined L m x ∧
      loadAt x.snios.mem L.ndos (padded image).length = padded image := by
  rw [length_padded] at hfits
  obtain ⟨n₁, y₁, s₁, hrun₁, hy₁, hopen⟩ := opens (L := L) (m := m) hcontent
  obtain ⟨n₂, y₂, hrun₂, hy₂⟩ := reading_all host hy₁ hopen hfits (Nat.zero_le _)
  obtain ⟨n₃, x, s', hrun₃, hresult, hconfined, hloaded⟩ := reading_ends host hy₂ hopen hfits
  refine ⟨x, s', .of_steps NetStep.diamond ((hrun₁.trans hrun₂).trans hrun₃) ?_, hresult,
    hconfined, hloaded⟩
  have hrest : Booting.act L (quiet x) = .rest := by
    unfold Booting.act quiet
    rw [List.getElem?_eq_none (Nat.le_refl _), hresult]
  obtain ⟨next, hnext⟩ : ∃ next, handleAct host (.done (some s')) = .hear next := ⟨_, rfl⟩
  exact NetStep.waits hrest hnext

end Reading

/-- **Network boot.**  In every run of which each step is admissible, the loader writes nothing
but what it owns, and returns the entry address just where the image is loaded.  From
`netboot_server.py` it loads an image that fits, in every run. -/
theorem netboot_confined (L : Layout) (m : Snios) :
    (∀ bs, EveryStep (feed L) (Admissible L) (netbootMpm L m) bs →
      Confined L m (run L (netbootMpm L m) bs)) ∧
    ∀ (host : Path → Option (List Byte)) (s : State) (image : List Byte),
      fileContent host s imgKey = some image →
      L.ndos.toNat + (padded image).length ≤ BIOS.toNat →
      ∃ x s', Concludes (NetStep (Booting.act L) (handleAct host))
          ⟨⟨netbootMpm L m, 0⟩, .done (some s), [], []⟩ ⟨quiet x, .done (some s'), [], []⟩ ∧
        x.result = some L.ndos ∧ Confined L m x ∧
        loadAt x.snios.mem L.ndos (padded image).length = padded image :=
  ⟨fun _ hbs => confined_run L m hbs, fun _ _ _ hcontent hfits => boots L m hcontent hfits⟩

/-! ### A layout -/

/-- A layout with the image at 0xE080. -/
def layout : Layout where
  msg := 0xF54B#16
  ndos := 0xE080#16
  scratch_start := by decide
  scratch_end := by decide
  ndos_pos := by decide
  load_end := by decide

/-- A client with a memory of zeros. -/
def zeroSnios : Snios :=
  ⟨0#8, 0#8, 0#8, 0#16, fun _ => 0#8, 0#16, 0#8, 0#8, 0x01#8, [], 0, .returned 0, []⟩

/-- A server with an image of one byte. -/
def byteServer : State where
  fileMap := ∅
  openFiles := ∅
  writes := AList.singleton imgKey [0xC9#8]
  search := ⟨none, []⟩
  flushed := []

/-- What a server sends in an exchange: ACK for ENQ, header and message, and the reply. -/
def exchange (fnc : Byte) (data : List Byte) : List (Option Byte) :=
  ([ACK, ACK, ACK, ENQ] ++
    headerBytes [0x01#8, 0x01#8, 0x00#8, fnc, BitVec.ofNat 8 (data.length - 1)] ++
    messageBytes data).map some

/-- LOGIN and OPEN succeed, READ SEQ gives one record and then the end of the file, CLOSE
succeeds. -/
def oneRecord : List (Option Byte) :=
  exchange 0x40#8 [0x00#8] ++ exchange 0x0F#8 (List.replicate 37 0x00#8) ++
    exchange 0x14#8 (List.replicate 37 0x00#8 ++ List.replicate 128 0xC9#8) ++
    exchange 0x14#8 (0x01#8 :: List.replicate 164 0x00#8) ++ exchange 0x10#8 [0x00#8]

/-- One record is loaded; and an image of one byte is. -/
theorem netboot_confined_byte :
    (Confined layout zeroSnios (run layout (netbootMpm layout zeroSnios) oneRecord) ∧
      (run layout (netbootMpm layout zeroSnios) oneRecord).result = some layout.ndos) ∧
    ∃ x s', Concludes (NetStep (Booting.act layout) (handleAct fun _ => none))
        ⟨⟨netbootMpm layout zeroSnios, 0⟩, .done (some byteServer), [], []⟩
        ⟨quiet x, .done (some s'), [], []⟩ ∧
      x.result = some layout.ndos ∧ Confined layout zeroSnios x ∧
      loadAt x.snios.mem layout.ndos (padded [0xC9#8]).length = padded [0xC9#8] :=
  ⟨⟨(netboot_confined layout zeroSnios).1 _ (by decide +kernel), by decide +kernel⟩,
    (netboot_confined layout zeroSnios).2 (fun _ => none) byteServer [0xC9#8] rfl
      (by decide +kernel)⟩

/-- A reply to LOGIN with 256 bytes is stored beyond the message buffer. -/
theorem longReply_overflows : ¬ ∀ (L : Layout) (m : Snios) (bs : List (Option Byte)),
    Confined L m (run L (netbootMpm L m) bs) := by
  intro hclaim
  let bs : List Byte := [ACK, ACK, ACK, ENQ, SOH, 0x01#8, 0x01#8, 0x00#8, 0x40#8, 0xFF#8, 0xBE#8,
    STX] ++ List.replicate 256 0xAA#8 ++ [ETX, 0xFB#8, EOT]
  have hother : ¬ layout.Owns (0xF54B#16 + 171#16) := by
    rintro (hmsg | ⟨-, himage⟩)
    · exact absurd hmsg (by decide)
    · exact absurd himage (by decide)
  have hkept := (hclaim layout zeroSnios (bs.map some)).kept _ hother
  have hwritten : (run layout (netbootMpm layout zeroSnios) (bs.map some)).snios.mem
      (0xF54B#16 + 171#16) = 0xAA#8 := by
    decide +kernel
  rw [hwritten] at hkept
  exact absurd hkept (by decide)

end Netboot
end Rc700
