import Rc700.Library.Run
import Rc700.Link.Discipline
import Rc700.Link.Storing
import Rc700.Netboot.Loader

/-!
# Where the boot loader writes

The loader owns the message buffer, and the image area below the resident BIOS.  It stays
there as long as no message that it takes is longer than the buffer, no record comes for which
there is no room, and each answer to EOT is an ACK (`confined_run`).  None of the three is
checked by the code before it is too late: RCVMSG takes as many bytes as SIZ says, the limit is
compared after the copy, and SNDMSG discards a word of its caller's stack.
-/

namespace Rc700
namespace Netboot

open Library Link Loader

variable {L : Layout} {m : Snios} {x : Loader}

/-! ### What the loader owns -/

/-- An address of the message buffer, or of the image area. -/
def Layout.Owns (L : Layout) (p : Word) : Prop :=
  (p - L.msg).toNat < 171 ∨ L.ndos.toNat ≤ p.toNat ∧ p.toNat < BIOS.toNat

/-- The memory is as it was, but for what the loader owns. -/
def Kept (L : Layout) (m n : Snios) : Prop := ∀ p, ¬ L.Owns p → n.mem p = m.mem p

theorem msgAt_sub (L : Layout) (i j : Nat) (h : i + j < 2 ^ 16) :
    (L.msgAt i + BitVec.ofNat 16 j - L.msg).toNat = i + j := by
  unfold Layout.msgAt
  rw [BitVec.add_assoc, ← BitVec.ofNat_add, BitVec.add_comm, BitVec.add_sub_cancel,
    BitVec.toNat_ofNat, Nat.mod_eq_of_lt h]

/-- What is stored in the message is in the buffer. -/
theorem poke_other (i : Nat) (bytes : List Byte) (hend : i + bytes.length ≤ 171) {p : Word}
    (hp : 171 ≤ (p - L.msg).toNat) : (poke L i bytes x).snios.mem p = x.snios.mem p := by
  refine storeAt_other _ _ fun j hj heq => ?_
  rw [heq, msgAt_sub L i j (by omega)] at hp
  omega

theorem not_owns {p : Word} (hp : ¬ L.Owns p) : 171 ≤ (p - L.msg).toNat :=
  Nat.le_of_not_lt fun hlt => hp (.inl hlt)

theorem kept_poke (i : Nat) (bytes : List Byte) (hend : i + bytes.length ≤ 171)
    (hkept : Kept L m x.snios) : Kept L m (poke L i bytes x).snios := by
  intro p hp
  rw [poke_other i bytes hend (not_owns hp)]
  exact hkept p hp

/-- A record is stored in the image area. -/
theorem kept_store {n : Snios} {dma : Word} {sector : List Byte} (hkept : Kept L m n)
    (hstart : L.ndos.toNat ≤ dma.toNat) (hend : dma.toNat + sector.length ≤ BIOS.toNat) :
    Kept L m { n with mem := storeAt n.mem dma sector } := by
  have hbios : BIOS.toNat = 0xEE00 := rfl
  intro p hp
  rw [← hkept p hp]
  refine storeAt_other _ _ fun j hj heq => hp (.inr ?_)
  rw [heq]
  bv_omega

/-! ### How far the loader is -/

/-- What the calls have returned when so many records have been read. -/
def opened (r : Byte) (n : Nat) : List (Call × Byte) :=
  [(.login, 0#8), (.openFile, r)] ++ List.replicate n (.readSeq, 0#8)

/-- What the calls have returned when the image is loaded: LOGIN and OPEN have succeeded, and
the records have ended with the file.  It does not matter what CLOSE returns. -/
def Loaded (results : List (Call × Byte)) : Prop :=
  ∃ r n c, r < 4#8 ∧ results = opened r n ++ [(.readSeq, 1#8), (.closeFile, c)]

/-- The call that is under way follows those that have returned. -/
inductive Progress (L : Layout) (dma : Word) : Call → List (Call × Byte) → Prop
  | login : Progress L dma .login []
  | openFile : Progress L dma .openFile [(.login, 0#8)]
  | readSeq (r : Byte) (n : Nat) (hopen : r < 4#8) (hdma : dma.toNat = L.ndos.toNat + n * 128)
      (hbelow : dma.toNat ≤ BIOS.toNat) : Progress L dma .readSeq (opened r n)
  | closeFile (r : Byte) (n : Nat) (hopen : r < 4#8) :
      Progress L dma .closeFile (opened r n ++ [(.readSeq, 1#8)])

/-- SNIOS is in the call that `cpnet_xact` has made. -/
def InSnios (receiving : Bool) (n : Snios) : Prop :=
  if receiving then Receiving n ∧ Aims n
  else (∃ w : Wait, n.place = .waiting w ∧ w.receives = false) ∧
    ∃ hdr payload s, Sends .cpnos hdr payload n s ∧ taken n = 0

/-- A call of `cpnet_xact` is under way. -/
structure InCall (L : Layout) (m : Snios) (x : Loader) : Prop where
  running : x.result = none
  kept : Kept L m x.snios
  msgadr : x.snios.msgadr = L.msg
  active : Active x.snios
  snios : InSnios x.receiving x.snios
  progress : Progress L x.dma x.call x.results

/-- `netboot_mpm` has returned. -/
structure Left (L : Layout) (m : Snios) (x : Loader) : Prop where
  kept : Kept L m x.snios
  place : x.snios.place = .returned 0
  result : ∃ w, x.result = some w ∧ (w = L.ndos ↔ Loaded x.results)

/-! ### Between two calls of SNIOS -/

/-- What the loader is between two calls of SNIOS. -/
structure Ready (L : Layout) (m : Snios) (x : Loader) : Prop where
  running : x.result = none
  kept : Kept L m x.snios
  active : Active x.snios

/-- SNDMSG is called. -/
theorem inCall_sendMsg (hx : Ready L m x) (hprogress : Progress L x.dma x.call x.results) :
    InCall L m (sendMsg L x) := by
  obtain ⟨hsends, htaken⟩ := sends_sndmsg (m := x.snios) .cpnos L.msg hx.active
  have hstart : Snios.sndmsg .cpnos L.msg x.snios = Snios.sndms0 L.msg (Snios.called x.snios) :=
    if_neg hx.active
  refine ⟨hx.running, fun p hp => ?_, ?_, ?_, ⟨⟨.enqrsp, ?_, rfl⟩, _, _, _, hsends, htaken⟩,
    hprogress⟩
  · -- the number of the node is in the message
    show (Snios.sndmsg .cpnos L.msg x.snios).mem p = m.mem p
    rw [hstart, ← hx.kept p hp]
    refine Function.update_of_ne (fun heq => hp (.inl ?_)) _ _
    rw [heq]
    bv_omega
  · exact congrArg Snios.msgadr hstart
  · show (Snios.sndmsg .cpnos L.msg x.snios).netst &&& ACTIVE ≠ 0#8
    rw [hstart]
    exact hx.active
  · exact congrArg Snios.place hstart

/-- RCVMSG is called. -/
theorem inCall_recvMsg (hx : Ready L m x) (hprogress : Progress L x.dma x.call x.results) :
    InCall L m (recvMsg L x) := by
  have hstart : Snios.rcvmsg .cpnos L.msg x.snios = Snios.rcvms0 L.msg (Snios.called x.snios) :=
    if_neg hx.active
  have htries : 0 < MAXRETRY.toNat := by decide
  refine ⟨hx.running, ?_, congrArg Snios.msgadr hstart, ?_, ?_, hprogress⟩
  · intro p hp
    show (Snios.rcvmsg .cpnos L.msg x.snios).mem p = m.mem p
    rw [hstart]
    exact hx.kept p hp
  · show (Snios.rcvmsg .cpnos L.msg x.snios).netst &&& ACTIVE ≠ 0#8
    rw [hstart]
    exact hx.active
  · show Receiving (Snios.rcvmsg .cpnos L.msg x.snios) ∧ Aims (Snios.rcvmsg .cpnos L.msg x.snios)
    rw [hstart]
    exact ⟨⟨⟨.rcvfst, rfl, rfl⟩, rfl, rfl, htries⟩, rfl⟩

/-! ### Between the calls of `cpnet_xact` -/

theorem InCall.waits (hx : InCall L m x) : ∃ w, x.snios.place = .waiting w := by
  have hsnios := hx.snios
  unfold InSnios at hsnios
  split at hsnios
  · obtain ⟨⟨⟨w, hplace, -⟩, -⟩, -⟩ := hsnios
    exact ⟨w, hplace⟩
  · obtain ⟨⟨w, hplace, -⟩, -⟩ := hsnios
    exact ⟨w, hplace⟩

/-- A call is under way, or `netboot_mpm` has returned. -/
def Settled (L : Layout) (m : Snios) (x : Loader) : Prop := InCall L m x ∨ Left L m x

/-- The next call is made. -/
theorem inCall_cpnetXact {call : Call} (hx : Ready L m x)
    (hprogress : Progress L x.dma call x.results) : InCall L m (cpnetXact L call x) := by
  refine inCall_sendMsg ⟨hx.running, ?_, hx.active⟩ hprogress
  exact kept_poke FMT [0x00#8, 0x00#8, 0x01#8, call.fnc, call.siz] (Nat.le_add_left 5 166) hx.kept

theorem settled_cpnetXact {call : Call} (hx : Ready L m x)
    (hprogress : Progress L x.dma call x.results) : Settled L m (cpnetXact L call x) :=
  .inl (inCall_cpnetXact hx hprogress)

/-- `netboot_mpm` returns. -/
theorem settled_leave {w : Word} (hkept : Kept L m x.snios) (hplace : x.snios.place = .returned 0)
    (hresult : w = L.ndos ↔ Loaded x.results) : Settled L m (leave w x) :=
  .inr ⟨hkept, hplace, w, rfl, hresult⟩

theorem ndos_ne_zero (L : Layout) : 0#16 ≠ L.ndos := by
  intro hzero
  have hpos := L.ndos_pos
  rw [← hzero] at hpos
  exact absurd hpos (by decide)

/-- A call that fails ends the run. -/
theorem settled_fails (hkept : Kept L m x.snios) (hplace : x.snios.place = .returned 0)
    (hresults : ¬ Loaded x.results) : Settled L m (leave 0#16 x) :=
  settled_leave hkept hplace (iff_of_false (ndos_ne_zero L) hresults)

/-- The results end with what the last call has returned. -/
theorem loaded_append {results : List (Call × Byte)} {call : Call} {rc : Byte} :
    Loaded (results ++ [(call, rc)]) ↔
      call = .closeFile ∧ ∃ r n, r < 4#8 ∧ results = opened r n ++ [(.readSeq, 1#8)] := by
  constructor
  · rintro ⟨r, n, c, hopen, hresults⟩
    have hsplit : results ++ [(call, rc)] =
        (opened r n ++ [(.readSeq, 1#8)]) ++ [(.closeFile, c)] := by
      rw [hresults, List.append_assoc]
      rfl
    obtain ⟨hfront, hlast⟩ := List.append_inj' hsplit rfl
    injection hlast with hpair
    exact ⟨congrArg Prod.fst hpair, r, n, hopen, hfront⟩
  · rintro ⟨rfl, r, n, hopen, rfl⟩
    refine ⟨r, n, rc, hopen, ?_⟩
    rw [List.append_assoc]
    rfl

/-- Nothing is loaded while a call is under way: CLOSE has not returned. -/
theorem Progress.not_loaded {dma : Word} {call : Call} {results : List (Call × Byte)}
    (hprogress : Progress L dma call results) : ¬ Loaded results := by
  have hopened : ∀ r n, ¬ Loaded (opened r n) := by
    rintro r n ⟨r', n', c, -, hsame⟩
    have hmem : (Call.closeFile, c) ∈ opened r n := by
      rw [hsame]
      exact List.mem_append_right _ (List.mem_cons_of_mem _ List.mem_cons_self)
    unfold opened at hmem
    rcases List.mem_append.mp hmem with hmem | hmem
    · simp at hmem
    · simp at hmem
  cases hprogress with
  | login =>
      rintro ⟨r, n, c, -, hsame⟩
      exact absurd hsame (by simp [opened])
  | openFile =>
      rintro ⟨r, n, c, -, hsame⟩
      exact absurd hsame (by simp [opened])
  | readSeq r n => exact hopened r n
  | closeFile r n => exact fun hloaded => nomatch (loaded_append.mp hloaded).1

theorem opened_succ (r : Byte) (n : Nat) : opened r n ++ [(.readSeq, 0#8)] = opened r (n + 1) := by
  unfold opened
  rw [List.append_assoc, ← List.replicate_succ']

/-- The record is stored, and the next one is to be asked for. -/
def stored (L : Layout) (x : Loader) : Loader :=
  let sector := loadAt x.snios.mem (L.msgAt (DAT + 37)) 128
  reuseFcb L (conout [0x2E#8] { bootMark 12 'R' x with
    snios := { x.snios with mem := storeAt x.snios.mem x.dma sector }
    dma := x.dma + 128#16 })

theorem store_room (hroom : x.dma.toNat + 128 ≤ BIOS.toNat) :
    store L x = cpnetXact L .readSeq (stored L x) := by
  have hbios : BIOS.toNat = 0xEE00 := rfl
  have hbelow : ¬ x.dma + 128#16 > BIOS := by
    intro hover
    have hlt : BIOS.toNat < (x.dma + 128#16).toNat := hover
    bv_omega
  exact if_neg hbelow

/-- A record is stored, if there is room for it. -/
theorem settled_store {r : Byte} {n : Nat} (hx : Ready L m x) (hopen : r < 4#8)
    (hresults : x.results = opened r (n + 1)) (hdma : x.dma.toNat = L.ndos.toNat + n * 128)
    (hroom : x.dma.toNat + 128 ≤ BIOS.toNat) : Settled L m (store L x) := by
  have hbios : BIOS.toNat = 0xEE00 := rfl
  have hnext : (x.dma + 128#16).toNat = x.dma.toNat + 128 := by bv_omega
  have hlen : (loadAt x.snios.mem (L.msgAt (DAT + 37)) 128).length = 128 := length_loadAt _ _ _
  rw [store_room hroom]
  refine settled_cpnetXact ⟨hx.running, ?_, hx.active⟩ ?_
  · refine kept_poke DAT [0x00#8] (by decide) ?_
    exact kept_store hx.kept (by omega) (by rw [hlen]; exact hroom)
  · show Progress L (x.dma + 128#16) .readSeq x.results
    rw [hresults]
    exact .readSeq r (n + 1) hopen (by omega) (by omega)

/-- **`cpnet_xact` returns**: the next call is made, or the run is over. -/
theorem settled_xactDone {rc : Byte} (hx : Ready L m x) (hplace : x.snios.place = .returned 0)
    (hprogress : Progress L x.dma x.call x.results)
    (hroom : x.call = .readSeq → rc = 0#8 → x.dma.toNat + 128 ≤ BIOS.toNat) :
    Settled L m (xactDone L rc x) := by
  have hfails : x.call ≠ .closeFile → ¬ Loaded (x.results ++ [(x.call, rc)]) :=
    fun hcall hloaded => hcall (loaded_append.mp hloaded).1
  obtain ⟨snios, call, receiving, dma, shown, results, before, result⟩ := x
  unfold xactDone Loader.answered
  dsimp only at hx hplace hprogress hroom hfails ⊢
  -- what the call was decides what its return code leads to
  cases hprogress with
  | login =>
      dsimp only
      by_cases hrc : rc ≠ 0#8
      · rw [if_pos hrc]
        exact settled_fails hx.kept hplace (hfails (by decide))
      · rw [if_neg hrc, not_not.mp hrc]
        refine settled_cpnetXact ⟨hx.running, ?_, hx.active⟩ .openFile
        exact kept_poke DAT (0x00#8 :: FCB_HEAD) (by decide) hx.kept
  | openFile =>
      dsimp only
      by_cases hrc : rc ≥ 4#8
      · rw [if_pos hrc]
        exact settled_fails hx.kept hplace (hfails (by decide))
      · rw [if_neg hrc]
        have hopen : rc < 4#8 := by
          have hnot : ¬ 4 ≤ rc.toNat := hrc
          exact Nat.lt_of_not_le hnot
        have hload := L.load_end
        refine settled_cpnetXact ⟨hx.running, ?_, hx.active⟩ (.readSeq rc 0 hopen rfl ?_)
        · exact kept_poke DAT [0x00#8] (by decide) hx.kept
        · show L.ndos.toNat ≤ 0xEE00
          omega
  | readSeq r n hopen hdma hbelow =>
      dsimp only
      by_cases hend : rc = 1#8
      · rw [if_pos hend, hend]
        refine settled_cpnetXact ⟨hx.running, ?_, hx.active⟩ (.closeFile r n hopen)
        exact kept_poke DAT [0x00#8] (by decide) hx.kept
      · rw [if_neg hend]
        by_cases hrc : rc ≠ 0#8
        · rw [if_pos hrc]
          exact settled_fails hx.kept hplace (hfails (by decide))
        · rw [if_neg hrc]
          have hzero := not_not.mp hrc
          refine settled_store ⟨hx.running, hx.kept, hx.active⟩ hopen ?_ hdma (hroom rfl hzero)
          show opened r n ++ [(.readSeq, rc)] = _
          rw [hzero, opened_succ]
  | closeFile r n hopen =>
      refine settled_leave hx.kept hplace (iff_of_true rfl ?_)
      exact loaded_append.mpr ⟨rfl, r, n, hopen, rfl⟩

/-- SNIOS has returned to `cpnet_xact`. -/
theorem settled_resume (hx : Ready L m x) (hplace : x.snios.place = .returned 0)
    (hprogress : Progress L x.dma x.call x.results)
    (hroom : x.receiving = true → x.snios.a = 0#8 → x.call = .readSeq →
      x.snios.mem (L.msgAt DAT) = 0#8 → x.dma.toNat + 128 ≤ BIOS.toNat) :
    Settled L m (resume L x) := by
  unfold resume
  by_cases ha : x.snios.a ≠ 0#8
  · rw [if_pos ha]
    exact settled_xactDone hx hplace hprogress fun _ hrc => absurd hrc (by decide)
  · rw [if_neg ha]
    by_cases hreceiving : x.receiving = true
    · rw [if_pos hreceiving]
      exact settled_xactDone hx hplace hprogress (hroom hreceiving (not_not.mp ha))
    · rw [if_neg hreceiving]
      exact .inl (inCall_recvMsg hx hprogress)

/-! ### One byte -/

/-- The loader stays where it is until a byte comes, or for good. -/
theorem goOn_settled (hx : Settled L m x) (n : Nat) : goOn L n x = x := by
  cases n with
  | zero => rfl
  | succ n =>
      rw [goOn]
      rcases hx with hx | hx
      · obtain ⟨w, hplace⟩ := hx.waits
        rw [hplace]
        cases x.result <;> rfl
      · obtain ⟨w, hresult, -⟩ := hx.result
        rw [hresult]

theorem goOn_resume (hrunning : x.result = none) (hplace : x.snios.place = .returned 0)
    (hx : Settled L m (resume L x)) (n : Nat) : goOn L (n + 1) x = resume L x := by
  rw [goOn, hrunning, hplace]
  exact goOn_settled hx n

/-- What the code does not check before it is too late: the byte of a message that is stored
now is for the buffer, there is room for the record, and the answer to EOT is an ACK. -/
structure Admissible (L : Layout) (x : Loader) (b : Option Byte) : Prop where
  fits : x.snios.place = .waiting .data → b ≠ none → (x.snios.hl - L.msg).toNat < 171
  room : x.call = .readSeq → Takes x.snios b → x.snios.mem (L.msgAt DAT) = 0#8 →
    x.dma.toNat + 128 ≤ BIOS.toNat
  acks : AcksEot x.snios b

instance (L : Layout) (x : Loader) (b : Option Byte) : Decidable (Admissible L x b) :=
  decidable_of_iff
    ((x.snios.place = .waiting .data → b ≠ none → (x.snios.hl - L.msg).toNat < 171) ∧
      (x.call = .readSeq → Takes x.snios b → x.snios.mem (L.msgAt DAT) = 0#8 →
        x.dma.toNat + 128 ≤ BIOS.toNat) ∧ AcksEot x.snios b)
    ⟨fun h => ⟨h.1, h.2.1, h.2.2⟩, fun h => ⟨h.fits, h.room, h.acks⟩⟩

/-- The call goes on. -/
theorem settled_going {b : Option Byte}
    (hcall : InCall L m { x with snios := Snios.feed .cpnos b x.snios }) :
    Settled L m (feed L x b) := by
  rw [feed, goOn_settled (.inl hcall)]
  exact .inl hcall

/-- The call returns. -/
theorem settled_returned {b : Option Byte} (hrunning : x.result = none)
    (hplace : (Snios.feed .cpnos b x.snios).place = .returned 0)
    (hresume : Settled L m (resume L { x with snios := Snios.feed .cpnos b x.snios })) :
    Settled L m (feed L x b) := by
  rw [feed, goOn_resume (x := { x with snios := Snios.feed .cpnos b x.snios }) hrunning hplace
    hresume]
  exact hresume

/-- A byte for RCVMSG. -/
theorem settled_receives {b : Option Byte} (hx : InCall L m x) (hreceiving : x.receiving = true)
    (hb : Admissible L x b) : Settled L m (feed L x b) := by
  have hsnios := hx.snios
  rw [hreceiving] at hsnios
  obtain ⟨hreceives, haims⟩ : Receiving x.snios ∧ Aims x.snios := hsnios
  have hstores : Stores 171 x.snios (Snios.feed .cpnos b x.snios) := by
    refine feed_stores .cpnos hreceives haims (by decide) b fun hdata hbyte => ?_
    rw [hx.msgadr]
    exact hb.fits hdata hbyte
  have hkept : Kept L m (Snios.feed .cpnos b x.snios) := by
    intro p hp
    rw [← hx.kept p hp]
    refine hstores.other p ?_
    rw [hx.msgadr]
    exact not_owns hp
  rcases (feed_receiving .cpnos hreceives b).1 with hnext | hnext
  · refine settled_going ⟨hx.running, hkept, hstores.msgadr.trans hx.msgadr,
      hstores.active hx.active, ?_, hx.progress⟩
    show InSnios x.receiving _
    rw [hreceiving]
    exact ⟨hnext, hstores.aims⟩
  · refine settled_returned hx.running hnext.place ?_
    refine settled_resume ⟨hx.running, hkept, hstores.active hx.active⟩ hnext.place hx.progress ?_
    intro _ ha hcall hdat
    obtain ⟨htakes, hmem⟩ := feed_takes .cpnos hreceives hnext.place ha
    rw [hmem] at hdat
    exact hb.room hcall htakes hdat

/-- A byte for SNDMSG. -/
theorem settled_sends {b : Option Byte} (hx : InCall L m x) (hreceiving : x.receiving = false)
    (hb : Admissible L x b) : Settled L m (feed L x b) := by
  have hsnios := hx.snios
  rw [hreceiving] at hsnios
  obtain ⟨⟨w, hplace, hsending⟩, hdr, payload, s, hsends, htaken⟩ := hsnios
  have hkeeps := keeps_feed .cpnos hplace hsending b
  obtain ⟨hnext, hslips⟩ := sends_feed .cpnos hsends b
  rw [if_neg fun hslip => (slips_iff hsends b).mp hslip hb.acks, Nat.add_zero, htaken] at hslips
  have hkept : Kept L m (Snios.feed .cpnos b x.snios) := by
    intro p hp
    rw [congrFun hkeeps.mem p]
    exact hx.kept p hp
  rcases sends_place .cpnos hnext with ⟨w, hwaits, hsending⟩ | hreturned
  · refine settled_going ⟨hx.running, hkept, hkeeps.msgadr.trans hx.msgadr,
      hkeeps.active hx.active, ?_, hx.progress⟩
    show InSnios x.receiving _
    rw [hreceiving]
    exact ⟨⟨w, hwaits, hsending⟩, hdr, payload, _, hnext, hslips⟩
  · rw [hslips] at hreturned
    refine settled_returned hx.running hreturned ?_
    refine settled_resume ⟨hx.running, hkept, hkeeps.active hx.active⟩ hreturned hx.progress ?_
    intro hother
    exact absurd (hreceiving.symm.trans hother) (by decide)

/-! ### A run -/

/-- The loader writes nothing but what it owns, keeps to the discipline of its calls, and returns
the entry address just where the image is loaded. -/
structure Confined (L : Layout) (m : Snios) (x : Loader) : Prop where
  kept : Kept L m x.snios
  control : ∀ word, x.snios.place = .returned word → word = 0
  result : x.result = some L.ndos ↔ Loaded x.results

theorem settled_feed {b : Option Byte} (hb : Admissible L x b) (hx : Settled L m x) :
    Settled L m (feed L x b) := by
  rcases hx with hx | hx
  · cases hreceiving : x.receiving with
    | true => exact settled_receives hx hreceiving hb
    | false => exact settled_sends hx hreceiving hb
  · have hsame : Snios.feed .cpnos b x.snios = x.snios := by
      unfold Snios.feed
      rw [hx.place]
    rw [feed, hsame, goOn_settled (.inr hx)]
    exact .inr hx

/-- `netboot_mpm`, when SNIOS is armed. -/
def armed (L : Layout) (m : Snios) : Loader :=
  bootMark 9 'I' (ntwkin L (bootMark 8 'N'
    ⟨{ m with sent := [] }, .login, false, 0#16, [], [], [], none⟩))

theorem netbootMpm_armed (L : Layout) (m : Snios) :
    netbootMpm L m = goOn L 3 (cpnetXact L .login (poke L DAT loginPwd (armed L m))) := rfl

theorem ready_login (L : Layout) (m : Snios) : Ready L m (poke L DAT loginPwd (armed L m)) := by
  have hkept : Kept L m (armed L m).snios := by
    refine kept_poke SIZ [0#8] (by decide) ?_
    exact fun _ _ => rfl
  refine ⟨rfl, kept_poke DAT loginPwd (by decide) hkept, ?_⟩
  show ACTIVE &&& ACTIVE ≠ 0#8
  decide

theorem netbootMpm_eq (L : Layout) (m : Snios) :
    netbootMpm L m = cpnetXact L .login (poke L DAT loginPwd (armed L m)) := by
  rw [netbootMpm_armed, goOn_settled (settled_cpnetXact (ready_login L m) .login)]

theorem settled_netbootMpm (L : Layout) (m : Snios) : Settled L m (netbootMpm L m) := by
  rw [netbootMpm_eq]
  exact settled_cpnetXact (ready_login L m) .login

theorem Settled.confined (hx : Settled L m x) : Confined L m x := by
  rcases hx with hx | hx
  · obtain ⟨w, hwaits⟩ := hx.waits
    refine ⟨hx.kept, fun word hreturned => (nomatch hwaits.symm.trans hreturned), ?_⟩
    refine iff_of_false ?_ hx.progress.not_loaded
    rw [hx.running]
    exact nofun
  · obtain ⟨w, hresult, hiff⟩ := hx.result
    refine ⟨hx.kept, fun word hreturned => ?_, ?_⟩
    · rw [hx.place] at hreturned
      injection hreturned with hword
      exact hword.symm
    · rw [hresult, ← hiff]
      exact Option.some_inj

/-- **Where the loader writes**, in every run of which each step is admissible. -/
theorem confined_run (L : Layout) (m : Snios) {bs : List (Option Byte)}
    (hbs : EveryStep (feed L) (Admissible L) (netbootMpm L m) bs) :
    Confined L m (run L (netbootMpm L m) bs) :=
  Settled.confined (foldl_invariant (fun _ _ hb hx => settled_feed hb hx) hbs
    (settled_netbootMpm L m))

end Netboot
end Rc700
