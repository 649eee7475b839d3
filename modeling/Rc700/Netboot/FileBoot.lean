import Rc700.CpNet.Session
import Rc700.CpNet.RoundTrip
import Rc700.Netboot.Boot
import Rc700.Netboot.Coherence

/-!
# Booting from the file server

The loader and `run` of `cpnet/server.py` on a line that loses nothing.  The image is a file
`CPNOS.IMG` in the directory of the first drive.  The replies are not those of
`netboot_server.py`: OPEN is answered with fewer bytes than the next request sends back, and the
end of the file with one byte, so that the FCB of the last request stays in the message.  What is
in memory in the end is the image all the same (`boots_from_file`).
-/

namespace Rc700
namespace Netboot

open Library Link Loader PathText
open CpNet (SameHost serveAct Function)

variable {L : Layout} {m : Snios} {y z : Loader} {upper : Nat → Text} {s s' : CpNet.Server}
  {image : List Byte} {path : Text} {rest data reply : List Byte} {k : Nat}

/-! ### One call -/

/-- The loader makes a call, and the file server looks for a request. -/
def askingFile (L : Layout) (call : Call) (y : Loader) (v : Serving CpNet.Server) :
    Net Byte Booting (Serving CpNet.Server) :=
  ⟨⟨cpnetXact L call y, y.total.length⟩, v, [], []⟩

/-- **One call**: the request goes to its handler, and the reply comes back. -/
theorem file_exchange (upper : Nat → Text) {call : Call} {f : Function} {rc : Byte}
    (ds : List (List Byte × List Byte)) (hy : Ready L m y)
    (hprogress : Progress L y.dma call y.results)
    (hdata : loadAt y.snios.mem (L.msgAt DAT) (call.siz.toNat + 1) = data)
    (hcode : Function.ofCode call.fnc = some f)
    (hhandle : f.handle upper data { s with sent := [] } = .ok reply s')
    (hrc : reply.head? = some rc) (hfits : reply.length ≤ 166)
    (hroom : call = .readSeq → rc = 0#8 → y.dma.toNat + 128 ≤ BIOS.toNat) :
    ∃ n z s'' ds', Steps (NetStep (Booting.act L) (serveAct upper)) n
        (askingFile L call y ⟨s, .hunting, ds⟩)
        ⟨⟨xactDone L rc z, z.total.length⟩, ⟨s'', .hunting, ds'⟩, [], []⟩ ∧
      Replied L m call reply y z ∧ SameHost s' s'' := by
  obtain ⟨z, hrequest, hready, rfl, hdma, hresults, hslaveid, hother⟩ :=
    request_follows hy hprogress hdata
  obtain ⟨s'', hdr, hanswer, hdid, hsame⟩ :=
    CpNet.answerOf_ok upper y.snios.slaveid z.call.siz hcode hhandle
  have hlen : data.length =
      (siz [0x00#8, 0x00#8, y.snios.slaveid, z.call.fnc, z.call.siz]).toNat + 1 := by
    rw [← hdata, length_loadAt]
    rfl
  obtain ⟨hhdr, hsiz⟩ := CpNet.answerOf_sends hanswer
  have hserver := CpNet.server_follows ds rfl hlen hanswer
  have hprogress' : Progress L z.dma z.call z.results := by
    rw [hdma, hresults]
    exact hprogress
  obtain ⟨z', hreply, hreplied⟩ := reply_follows hready hprogress' hhdr hsiz hfits
    (hdid.trans hslaveid.symm) hrc (by rw [hdma]; exact hroom)
  obtain ⟨n, hrun⟩ := (hrequest.append hreply).converse hserver
  refine ⟨n, z', s'', _, hrun, ⟨hreplied.ready, hreplied.place, hreplied.call,
    hreplied.dma.trans hdma, hreplied.results.trans hresults, hreplied.data, fun p hp => ?_⟩, hsame⟩
  exact (hreplied.other p hp).trans (hother p hp)

/-! ### The image on the file server -/

/-- The image is a file of the first drive. -/
structure ServesImage (s : CpNet.Server) (path : Text) (image : List Byte) : Prop where
  names : (s.driveDir 0).map (fun dir => join dir (CpNet.text "CPNOS.IMG")) = some path
  nul : 0 ∉ path
  node : ∃ writable, s.host.node path = .file ⟨image, true, writable⟩

theorem ServesImage.same (hserves : ServesImage s path image) (hsame : SameHost s s') :
    ServesImage s' path image := by
  obtain ⟨hpath, hnul, writable, hnode⟩ := hserves
  refine ⟨?_, hnul, writable, ?_⟩
  · rw [CpNet.Server.driveDir, hsame.driveDirs]
    exact hpath
  · rw [hsame.host]
    exact hnode

/-- The FCB of the image names its path. -/
theorem withPath_img {body : Nat → Text → CpNet.Action (List Byte)}
    (hserves : ServesImage s path image) (rest : List Byte) :
    CpNet.withPath (imgData rest) body s = body 0 path s := by
  obtain ⟨dir, hdir, rfl⟩ := Option.map_eq_some_iff.mp hserves.names
  have hname : CpNet.nameText (CpNet.fcbName (imgData rest) 1) = CpNet.text "CPNOS.IMG" := by
    have hslice : CpNet.fcbName (imgData rest) 1 = CpNet.fcbName (imgData []) 1 := rfl
    rw [hslice]
    decide
  have hcode : (imgData rest)[1]? = some 0x01#8 := rfl
  have hmapped : CpNet.withPath (imgData rest) body s = _ := CpNet.withPath_mapped hcode hdir
  rw [hname] at hmapped
  exact hmapped

/-- OPEN finds the image. -/
theorem handleOpen_img (hserves : ServesImage s path image) (rest : List Byte) :
    ∃ records, CpNet.handleOpen (imgData rest) s =
      .ok (imgData ([0x00#8, 0x00#8, 0x00#8, records] ++ List.replicate 17 0x00#8))
        { s with touched := path :: path :: s.touched } := by
  obtain ⟨writable, hnode⟩ := hserves.node
  have hexists : s.host.node path ≠ .absent := by
    rw [hnode]
    exact nofun
  have hsize : s.host.getsize path = .ok (image.length, s.host) := by
    rw [CpNet.Host.getsize, hnode]
  have hcall : CpNet.getsize path { s with touched := path :: s.touched } =
      .ok image.length { s with touched := path :: path :: s.touched } :=
    CpNet.call_ok hserves.nul hsize
  have hname : CpNet.fcbName (imgData rest) 1 = (FCB_HEAD.drop 1) := by
    have hslice : CpNet.fcbName (imgData rest) 1 = CpNet.fcbName (imgData []) 1 := rfl
    rw [hslice]
    decide
  refine ⟨BitVec.ofNat 8 (min (CpNet.recordsOf image.length) 128), ?_⟩
  rw [CpNet.handleOpen, withPath_img hserves, CpNet.Action.bind_apply, CpNet.pathExists,
    if_neg hserves.nul]
  simp only [decide_eq_true hexists, if_true, CpNet.Action.bind_apply, hcall]
  rw [hname, CpNet.openReply_ok _ _ (by decide)]
  rfl

/-- A file that can be read is opened. -/
theorem openFile_img (hserves : ServesImage s path image) :
    CpNet.openFile .rb path s = .ok image { s with touched := path :: s.touched } := by
  obtain ⟨writable, hnode⟩ := hserves.node
  have hopen : s.host.openFile .rb path = .ok (image, s.host) := by
    rw [CpNet.Host.openFile, hnode]
    rfl
  exact CpNet.call_ok hserves.nul hopen

theorem fields_img (hasks : Asks rest k) (hsmall : k < 32640) :
    CpNet.field (imgData rest) 13 = k / 128 ∧ CpNet.field (imgData rest) 33 = k % 128 := by
  constructor
  · show (rest.getD 0 0#8).toNat = _
    rw [hasks.ex, BitVec.toNat_ofNat, Nat.mod_eq_of_lt (by omega)]
  · show (rest.getD 20 0#8).toNat = _
    rw [hasks.cr, BitVec.toNat_ofNat, Nat.mod_eq_of_lt (by omega)]

/-- The handler reads at the position in the FCB. -/
theorem handleReadSeq_img (hserves : ServesImage s path image) (hasks : Asks rest k)
    (hsmall : k < 32640) :
    CpNet.handleReadSeq (imgData rest) s =
      CpNet.Action.exceptOsError
        (if pread image (k * 128) 128 = [] then pure [1#8]
        else CpNet.readReply (imgData rest) ((k + 1) / 128) ((k + 1) % 128)
          (CpNet.padRecord (pread image (k * 128) 128)))
        (pure CpNet.failure) { s with touched := path :: s.touched } := by
  obtain ⟨hex, hcr⟩ := fields_img hasks hsmall
  have hoffset : k / 128 * 128 + k % 128 = k := by omega
  rw [CpNet.handleReadSeq, withPath_img hserves]
  simp only [hex, hcr, hoffset]
  rw [CpNet.advance_position]
  unfold CpNet.Action.exceptOsError
  simp only [CpNet.Action.bind_apply, openFile_img hserves]

/-- The FCB after a record. -/
theorem echoAt_img (hasks : Asks rest k) :
    ∃ rest', CpNet.echoAt (imgData rest) ((k + 1) / 128) ((k + 1) % 128) = imgData rest' ∧
      Asks rest' (k + 1) := by
  have hlen : (FCB_HEAD ++ rest).length = 36 := by
    rw [List.length_append, hasks.length]
    rfl
  have hslice : CpNet.slice (imgData rest) 1 37 = FCB_HEAD ++ rest := by
    have htake : (imgData rest).take 37 = imgData rest := List.take_of_length_le (by
      show (FCB_HEAD ++ rest).length + 1 ≤ 37
      omega)
    rw [CpNet.slice, htake]
    rfl
  refine ⟨(rest.set 0 (BitVec.ofNat 8 ((k + 1) / 128))).set 20 (BitVec.ofNat 8 ((k + 1) % 128)),
    ?_, ?_, ?_, ?_⟩
  · rw [CpNet.echoAt, CpNet.echoFcb, hslice, hlen, List.replicate_zero, List.append_nil]
    rfl
  · rw [List.length_set, List.length_set, hasks.length]
  · rw [List.getD_eq_getElem?_getD, List.getElem?_set_ne (by decide), List.getElem?_set_self
      (by rw [hasks.length]; decide)]
    rfl
  · rw [List.getD_eq_getElem?_getD, List.getElem?_set_self
      (by rw [List.length_set, hasks.length]; decide)]
    rfl

/-- READ SEQ reads a record. -/
theorem handleReadSeq_record (hserves : ServesImage s path image) (hasks : Asks rest k)
    (hsmall : k < 32640) (hk : k * 128 < image.length) :
    ∃ rest', CpNet.handleReadSeq (imgData rest) s =
        .ok (imgData rest' ++ sectorAt image k) { s with touched := path :: s.touched } ∧
      Asks rest' (k + 1) := by
  obtain ⟨rest', hecho, hnext⟩ := echoAt_img hasks
  have hne : pread image (k * 128) 128 ≠ [] := by
    intro hnil
    have hlen := congrArg List.length hnil
    rw [pread, List.length_take, List.length_drop, List.length_nil] at hlen
    omega
  refine ⟨rest', ?_, hnext⟩
  rw [handleReadSeq_img hserves hasks hsmall, if_neg hne,
    CpNet.exceptOsError_ok (CpNet.readReply_ok _ _ (by omega) (by omega)), hecho]
  rfl

/-- READ SEQ comes to the end of the file. -/
theorem handleReadSeq_last (hserves : ServesImage s path image) (hasks : Asks rest k)
    (hsmall : k < 32640) (hk : image.length ≤ k * 128) :
    CpNet.handleReadSeq (imgData rest) s = .ok [1#8] { s with touched := path :: s.touched } := by
  have hnil : pread image (k * 128) 128 = [] := by
    rw [pread, List.drop_eq_nil_of_le hk, List.take_nil]
  rw [handleReadSeq_img hserves hasks hsmall, if_pos hnil]
  rfl

/-! ### The loop -/

/-- **One record**: what the reply says is stored, and the next record is asked for. -/
theorem Reading.stored (hy : Reading L m image k y)
    (hfits : L.ndos.toNat + recordCount image * 128 ≤ BIOS.toNat) (hk : k < recordCount image)
    (hz : Replied L m .readSeq (imgData rest ++ sectorAt image k) y z)
    (hnext : Asks rest (k + 1)) :
    ∃ y', xactDone L 0x00#8 z = cpnetXact L .readSeq y' ∧ y'.total = z.total ∧
      Reading L m image (k + 1) y' := by
  have hbios : BIOS.toNat = 0xEE00 := rfl
  obtain ⟨r, hr, hresults⟩ := hy.results
  have hdma := hy.dma
  have hlen : (imgData rest).length = 37 := by
    show (FCB_HEAD ++ rest).length + 1 = 37
    rw [List.length_append, hnext.length]
    rfl
  have hreply := hz.data
  rw [List.length_append, hlen, length_sectorAt, loadAt_append] at hreply
  obtain ⟨hfcb, hrecord⟩ := List.append_inj hreply (by rw [length_loadAt, hlen])
  let x : Loader := { z with results := z.results ++ [(.readSeq, 0x00#8)] }
  have hxdma : x.dma.toNat = L.ndos.toNat + k * 128 := by
    show z.dma.toNat = _
    rw [hz.dma, hdma]
  have hxroom : x.dma.toNat + 128 ≤ BIOS.toNat := by omega
  refine ⟨Netboot.stored L x, ?_, rfl, ⟨hz.ready.running, ?_, hz.ready.active⟩, ⟨r, hr, ?_⟩, ?_,
    ⟨rest, hnext, stored_data hxroom hfcb⟩, ?_⟩
  · rw [xactDone_record hz.call, store_room hxroom]
  · refine kept_poke DAT [0x00#8] (by decide) (kept_store hz.ready.kept ?_ ?_)
    · rw [hxdma]
      exact Nat.le_add_right _ _
    · rw [length_loadAt]
      exact hxroom
  · show z.results ++ _ = _
    rw [hz.results, hresults, opened_succ]
  · show (x.dma + 128#16).toNat = _
    bv_omega
  · have hadr : L.msgAt (DAT + 37) = L.msgAt DAT + BitVec.ofNat 16 37 := by
      unfold Layout.msgAt
      rw [BitVec.ofNat_add, BitVec.add_assoc]
    have hkept : loadAt x.snios.mem L.ndos (k * 128) = loadAt y.snios.mem L.ndos (k * 128) :=
      image_kept hz.other (by omega)
    rw [Nat.succ_mul, stored_loaded (by omega) hxdma, hkept, hy.loaded, hadr, ← Nat.succ_mul,
      take_padded (lt_recordCount.mp hk)]
    exact congrArg (_ ++ ·) hrecord

/-- One pass of the loop. -/
theorem file_next (upper : Nat → Text) (ds : List (List Byte × List Byte))
    (hserves : ServesImage s path image) (hy : Reading L m image k y)
    (hfits : L.ndos.toNat + recordCount image * 128 ≤ BIOS.toNat) (hk : k < recordCount image) :
    ∃ n y' s' ds', Steps (NetStep (Booting.act L) (serveAct upper)) n
        (askingFile L .readSeq y ⟨s, .hunting, ds⟩) (askingFile L .readSeq y' ⟨s', .hunting, ds'⟩) ∧
      Reading L m image (k + 1) y' ∧ ServesImage s' path image := by
  have hbios : BIOS.toNat = 0xEE00 := rfl
  have hdma := hy.dma
  obtain ⟨rest, hasks, hdata⟩ := hy.request
  obtain ⟨r, hr, hresults⟩ := hy.results
  have hprogress : Progress L y.dma .readSeq y.results := by
    rw [hresults]
    exact .readSeq r k hr hdma (by omega)
  have hsilent : ServesImage { s with sent := [] } path image := hserves.same ⟨rfl, rfl⟩
  obtain ⟨rest', hread, hnext⟩ :=
    handleReadSeq_record hsilent hasks (by omega) (lt_recordCount.mp hk)
  have hlen : (imgData rest' ++ sectorAt image k).length = 165 := by
    show (FCB_HEAD ++ rest' ++ sectorAt image k).length + 1 = 165
    rw [List.length_append, List.length_append, hnext.length, length_sectorAt]
    rfl
  obtain ⟨n, z, s', ds', hrun, hz, hsame⟩ := file_exchange upper ds hy.ready hprogress hdata
    (f := .readSeq) rfl hread rfl (by omega) (fun _ _ => by omega)
  obtain ⟨y', hstored, htotal, hy'⟩ := hy.stored hfits hk hz hnext
  refine ⟨n, y', s', ds', ?_, hy', hserves.same ⟨hsame.driveDirs, hsame.host⟩⟩
  rw [askingFile, askingFile, htotal, ← hstored]
  exact hrun

/-- **The loop** reads the whole image. -/
theorem file_all (upper : Nat → Text) (ds : List (List Byte × List Byte))
    (hserves : ServesImage s path image) (hy : Reading L m image k y)
    (hfits : L.ndos.toNat + recordCount image * 128 ≤ BIOS.toNat) (hk : k ≤ recordCount image) :
    ∃ n y' s' ds', Steps (NetStep (Booting.act L) (serveAct upper)) n
        (askingFile L .readSeq y ⟨s, .hunting, ds⟩) (askingFile L .readSeq y' ⟨s', .hunting, ds'⟩) ∧
      Reading L m image (recordCount image) y' ∧ ServesImage s' path image := by
  induction hleft : recordCount image - k generalizing k y s ds with
  | zero =>
      have hend : k = recordCount image := by omega
      exact ⟨0, y, s, ds, .refl _, hend ▸ hy, hserves⟩
  | succ left ih =>
      obtain ⟨n, y₁, s₁, ds₁, hfirst, hy₁, hserves₁⟩ :=
        file_next upper ds hserves hy hfits (by omega)
      obtain ⟨n', y', s', ds', hrest, hy', hserves'⟩ := ih ds₁ hserves₁ hy₁ (by omega) (by omega)
      exact ⟨n + n', y', s', ds', hfirst.trans hrest, hy', hserves'⟩

/-! ### The whole run -/

/-- LOGIN and OPEN succeed. -/
theorem file_opens (upper : Nat → Text) (L : Layout) (m : Snios)
    (hserves : ServesImage s path image) :
    ∃ n y s' ds', Steps (NetStep (Booting.act L) (serveAct upper)) n
        ⟨⟨netbootMpm L m, 0⟩, ⟨s, .hunting, []⟩, [], []⟩
        (askingFile L .readSeq y ⟨s', .hunting, ds'⟩) ∧
      Reading L m image 0 y ∧ ServesImage s' path image := by
  have hstart : (⟨⟨netbootMpm L m, 0⟩, ⟨s, .hunting, []⟩, [], []⟩ : Net Byte Booting _) =
      askingFile L .login (poke L DAT loginPwd (armed L m)) ⟨s, .hunting, []⟩ := by
    rw [netbootMpm_eq]
    rfl
  rw [hstart]
  -- LOGIN
  obtain ⟨n₁, z₁, s₁, ds₁, hrun₁, hz₁, hsame₁⟩ := file_exchange upper [] (ready_login L m)
    .login rfl
    (f := .networkLogin) (s := s) rfl rfl rfl (by decide) (fun hcall => nomatch hcall)
  rw [xactDone_login hz₁.call] at hrun₁
  have hserves₁ : ServesImage s₁ path image := hserves.same ⟨hsame₁.driveDirs, hsame₁.host⟩
  -- OPEN
  let x₁ : Loader := bootMark 10 'L' { z₁ with results := z₁.results ++ [(.login, 0x00#8)] }
  have hready₁ : Ready L m (installFcb L x₁) :=
    ⟨hz₁.ready.running, kept_poke DAT (0x00#8 :: FCB_HEAD) (by decide) hz₁.ready.kept,
      hz₁.ready.active⟩
  have hprogress₁ : Progress L (installFcb L x₁).dma .openFile (installFcb L x₁).results := by
    show Progress L z₁.dma .openFile (z₁.results ++ [(.login, 0x00#8)])
    rw [hz₁.results]
    exact .openFile
  obtain ⟨rest, hrest, hdata⟩ := installFcb_data (L := L) x₁
  have hsilent : ServesImage { s₁ with sent := [] } path image := hserves₁.same ⟨rfl, rfl⟩
  obtain ⟨records, hopen⟩ := handleOpen_img hsilent rest
  let front : List Byte := [0x00#8, 0x00#8, 0x00#8, records] ++ List.replicate 17 0x00#8
  have hlen : (imgData front).length = 34 := rfl
  obtain ⟨n₂, z₂, s₂, ds₂, hrun₂, hz₂, hsame₂⟩ := file_exchange upper ds₁ hready₁ hprogress₁ hdata
    (f := .openFile) rfl hopen rfl (by rw [hlen]; omega) (fun hcall => nomatch hcall)
  rw [xactDone_openFile hz₂.call] at hrun₂
  refine ⟨n₁ + n₂, _, s₂, ds₂, hrun₁.trans hrun₂, ⟨⟨hz₂.ready.running, ?_, hz₂.ready.active⟩,
    ⟨0x00#8, by decide, ?_⟩, rfl, ?_, rfl⟩, hserves₁.same ⟨hsame₂.driveDirs, hsame₂.host⟩⟩
  · exact kept_poke DAT [0x00#8] (by decide) hz₂.ready.kept
  · show z₂.results ++ [(.openFile, 0x00#8)] = _
    rw [hz₂.results]
    show (z₁.results ++ [(.login, 0x00#8)]) ++ [(.openFile, 0x00#8)] = _
    rw [hz₁.results]
    rfl
  · -- the reply is shorter than the next request
    have hreply : loadAt z₂.snios.mem (L.msgAt DAT) 34 = imgData front := hz₂.data
    let tail := loadAt z₂.snios.mem (L.msgAt DAT + BitVec.ofNat 16 34) 3
    have htail : tail.length = 3 := length_loadAt _ _ _
    have hall : loadAt z₂.snios.mem (L.msgAt DAT) 37 = imgData (front ++ tail) := by
      rw [show 37 = 34 + 3 from rfl, loadAt_append, hreply]
      rfl
    refine ⟨front ++ tail, ⟨?_, rfl, rfl⟩, reuseFcb_data hall⟩
    rw [List.length_append, htail]
    rfl

/-- CLOSE succeeds, whatever is sent with it, and the loader returns. -/
theorem file_ends (upper : Nat → Text) (ds : List (List Byte × List Byte))
    (hserves : ServesImage s path image) (hy : Reading L m image (recordCount image) y)
    (hfits : L.ndos.toNat + recordCount image * 128 ≤ BIOS.toNat) :
    ∃ n x v, Steps (NetStep (Booting.act L) (serveAct upper)) n
        (askingFile L .readSeq y ⟨s, .hunting, ds⟩) ⟨quiet x, v, [], []⟩ ∧ v.stage = .hunting ∧
      x.result = some L.ndos ∧ Confined L m x ∧
      loadAt x.snios.mem L.ndos (padded image).length = padded image := by
  have hbios : BIOS.toNat = 0xEE00 := rfl
  obtain ⟨rest, hasks, hdata⟩ := hy.request
  obtain ⟨r, hr, hresults⟩ := hy.results
  have hdma := hy.dma
  have hend : image.length ≤ recordCount image * 128 :=
    Nat.le_of_not_lt fun hlt => absurd (lt_recordCount.mpr hlt) (Nat.lt_irrefl _)
  have hprogress : Progress L y.dma .readSeq y.results := by
    rw [hresults]
    exact .readSeq r _ hr hdma (by omega)
  have hsilent : ServesImage { s with sent := [] } path image := hserves.same ⟨rfl, rfl⟩
  -- READ SEQ
  obtain ⟨n₁, z₁, s₁, ds₁, hrun₁, hz₁, hsame₁⟩ := file_exchange upper ds hy.ready hprogress hdata
    (f := .readSeq) rfl (handleReadSeq_last hsilent hasks (by omega) hend) rfl (by decide)
    (fun _ hrc => nomatch hrc)
  rw [xactDone_end hz₁.call, finish_closing] at hrun₁
  -- CLOSE
  let x₁ : Loader := closing L { z₁ with results := z₁.results ++ [(.readSeq, 0x01#8)] }
  have hready₁ : Ready L m x₁ :=
    ⟨hz₁.ready.running, kept_poke DAT [0x00#8] (by decide) hz₁.ready.kept, hz₁.ready.active⟩
  have hprogress₁ : Progress L x₁.dma .closeFile x₁.results := by
    show Progress L z₁.dma .closeFile (z₁.results ++ [(.readSeq, 0x01#8)])
    rw [hz₁.results, hresults]
    exact .closeFile r _ hr
  obtain ⟨n₂, z₂, s₂, ds₂, hrun₂, hz₂, -⟩ := file_exchange upper ds₁ hready₁ hprogress₁ rfl
    (f := .closeFile) (s := s₁) rfl rfl rfl (by decide) (fun hcall => nomatch hcall)
  have hprogress₂ : Progress L z₂.dma z₂.call z₂.results := by
    rw [hz₂.call, hz₂.dma, hz₂.results]
    exact hprogress₁
  have hsettled : Settled L m (xactDone L 0x00#8 z₂) :=
    settled_xactDone hz₂.ready hz₂.place hprogress₂
      fun hcall => nomatch hz₂.call.symm.trans hcall
  have hleft := xactDone_closeFile (L := L) hz₂.call 0x00#8
  refine ⟨n₁ + n₂, xactDone L 0x00#8 z₂, ⟨s₂, .hunting, ds₂⟩, hrun₁.trans ?_, rfl, ?_,
    hsettled.confined, ?_⟩
  · have hquiet : quiet (xactDone L 0x00#8 z₂) = ⟨xactDone L 0x00#8 z₂, z₂.total.length⟩ := by
      rw [quiet, hleft]
      rfl
    rw [hquiet]
    exact hrun₂
  · rw [hleft]
    rfl
  · rw [hleft, length_padded]
    show loadAt z₂.snios.mem L.ndos _ = _
    have hfirst : loadAt z₁.snios.mem L.ndos (recordCount image * 128) =
        loadAt y.snios.mem L.ndos (recordCount image * 128) := image_kept hz₁.other hfits
    have hsecond : loadAt z₂.snios.mem L.ndos (recordCount image * 128) =
        loadAt x₁.snios.mem L.ndos (recordCount image * 128) := image_kept hz₂.other hfits
    have hpoke : loadAt x₁.snios.mem L.ndos (recordCount image * 128) =
        loadAt z₁.snios.mem L.ndos (recordCount image * 128) :=
      image_kept (fun p hp => poke_other DAT [0x00#8] (by decide) hp) hfits
    rw [hsecond, hpoke, hfirst, hy.loaded, ← length_padded, List.take_length]

/-- **Booting from the file server** loads the image, in every run. -/
theorem boots_from_file (L : Layout) (m : Snios) (upper : Nat → Text) (s : CpNet.Server)
    (dir : Text) (image : List Byte) (writable : Bool) (hdir : s.driveDir 0 = some dir)
    (hnul : 0 ∉ join dir (CpNet.text "CPNOS.IMG"))
    (hfile : s.host.node (join dir (CpNet.text "CPNOS.IMG")) = .file ⟨image, true, writable⟩)
    (hfits : L.ndos.toNat + (padded image).length ≤ BIOS.toNat) :
    ∃ x v, Concludes (NetStep (Booting.act L) (serveAct upper))
        ⟨⟨netbootMpm L m, 0⟩, serving s, [], []⟩ ⟨quiet x, v, [], []⟩ ∧
      x.result = some L.ndos ∧ Confined L m x ∧
      loadAt x.snios.mem L.ndos (padded image).length = padded image := by
  rw [length_padded] at hfits
  have hserves : ServesImage s (join dir (CpNet.text "CPNOS.IMG")) image :=
    ⟨by rw [hdir]; rfl, hnul, writable, hfile⟩
  obtain ⟨n₁, y₁, s₁, ds₁, hrun₁, hy₁, hserves₁⟩ := file_opens upper L m hserves
  obtain ⟨n₂, y₂, s₂, ds₂, hrun₂, hy₂, hserves₂⟩ :=
    file_all upper ds₁ hserves₁ hy₁ hfits (Nat.zero_le _)
  obtain ⟨n₃, x, v, hrun₃, hstage, hresult, hconfined, hloaded⟩ :=
    file_ends upper ds₂ hserves₂ hy₂ hfits
  refine ⟨x, v, .of_steps NetStep.diamond ((hrun₁.trans hrun₂).trans hrun₃) ?_, hresult,
    hconfined, hloaded⟩
  have hrest : Booting.act L (quiet x) = .rest := by
    unfold Booting.act quiet
    rw [List.getElem?_eq_none (Nat.le_refl _), hresult]
  obtain ⟨next, hnext⟩ : ∃ next, serveAct upper v = .hear next := by
    obtain ⟨state, stage, ds⟩ := v
    cases hstage
    exact ⟨_, rfl⟩
  exact NetStep.waits hrest hnext

/-- An image of one byte, in the directory of the first drive. -/
def imageServer : CpNet.Server :=
  { CpNet.emptyServer with
    host := { CpNet.emptyServer.host with
      node := Function.update CpNet.emptyServer.host.node (CpNet.text "/srv/CPNOS.IMG")
        (.file ⟨[0xC9#8], true, false⟩) } }

theorem boots_from_file_byte :
    ∃ x v, Concludes (NetStep (Booting.act layout) (serveAct CpNet.asciiUpper))
        ⟨⟨netbootMpm layout zeroSnios, 0⟩, serving imageServer, [], []⟩ ⟨quiet x, v, [], []⟩ ∧
      x.result = some layout.ndos ∧ Confined layout zeroSnios x ∧
      loadAt x.snios.mem layout.ndos (padded [0xC9#8]).length = padded [0xC9#8] :=
  boots_from_file layout zeroSnios CpNet.asciiUpper imageServer (CpNet.text "/srv") [0xC9#8] false
    rfl (by decide +kernel) (by decide +kernel) (by decide +kernel)

end Netboot
end Rc700
