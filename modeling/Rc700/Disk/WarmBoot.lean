import Rc700.Disk.Deblocking

/-!
# Warm boot

`wboot_c` of `rcbios-in-c/bios.c`: it selects drive A, loads the CCP and the BDOS from track 1
through the deblocking driver, sets up page zero and goes to the CCP.

On fault-free drives a program may end in a warm boot at any point.  The system that is loaded is
the one the record store holds, whatever the host buffer held, and nothing that was written is
lost (`warm_boots_load`).
-/

namespace Rc700
namespace Disk

open Library

variable {table : DriveTable} {fdc : Nat → Attempt} {base : Rec → Option Record} {m : Machine}

/-! ### The memory layout -/

/-- `CPMB`, for `MSIZE` = 56. -/
def CCP_BASE : Word := 0xC400#16

/-- `CPMB + 0x806` -/
def BDOS_BASE : Word := 0xCC06#16

/-- `CPMB + CPML` -/
def BIOS_BASE : Word := 0xDA00#16

/-- `CPML / 128` -/
def NSECTS : Nat := 44

def BDOS_DMAADDR : Word := 0x0080#16

/-- `cdisk` -/
def cdisk (m : Machine) : Byte := m.mem 0x0004#16

/-- The jumps to the warm boot and to the BDOS. -/
def pageZero (mem : Word → Byte) : Word → Byte := fun addr =>
  if addr = 0x0000#16 ∨ addr = 0x0005#16 then 0xC3#8
  else if addr = 0x0001#16 then (BIOS_BASE + 3#16).setWidth 8
  else if addr = 0x0002#16 then (BIOS_BASE + 3#16).extractLsb' 8 8
  else if addr = 0x0006#16 then BDOS_BASE.setWidth 8
  else if addr = 0x0007#16 then BDOS_BASE.extractLsb' 8 8
  else mem addr

/-- `for (sec = 0; sec < NSECTS; sec++)`; none where the machine halts. -/
def loadCcp (fdc : Nat → Attempt) : (count sec : Nat) → Machine → Option Machine
  | 0, _, m => some m
  | count + 1, sec, m =>
      let m := { m with cpmSector := sec }
      if (xread fdc m).2 ≠ 0 then none
      else
        let m := biosRead fdc m
        loadCcp fdc count (sec + 1) { m with cpmDmaAddr := m.cpmDmaAddr + 128#16 }

/-- `wboot_c` behind the first `bios_seldsk_c(0)`: the machine and the drive that the CCP gets. -/
def wbootLoad (table : DriveTable) (fdc : Nat → Attempt) (m : Machine) :
    Option (Machine × Byte) :=
  let m := biosHome fdc { m with unallocCount := 0, fdcUnitHead := 0 }
  (loadCcp fdc NSECTS 0 { m with cpmDmaAddr := CCP_BASE, cpmTrack := 1 }).map fun m =>
    let m := { m with cpmDmaAddr := BDOS_DMAADDR, mem := pageZero m.mem }
    ((biosSeldskC table fdc 0 m).1, cdisk m &&& 0x0F#8)

/-- `wboot_c` -/
def wbootC (table : DriveTable) (fdc : Nat → Attempt) (m : Machine) : Option (Machine × Byte) :=
  wbootLoad table fdc (biosSeldskC table fdc 0 m).1

/-! ### What a read leaves alone -/

/-- A read stays at its request, and changes memory only in the DMA area. -/
structure ReadFrame (m m' : Machine) : Prop where
  request : m'.request = m.request
  dma : m'.cpmDmaAddr = m.cpmDmaAddr
  mem : ∀ addr, 128 ≤ (addr - m.cpmDmaAddr).toNat → m'.mem addr = m.mem addr

theorem xread_frame (fdc : Nat → Attempt) (hm : Wf table m)
    (hlegal : m.request.Legal (table.format m.cpmDisk)) : ReadFrame m (xread fdc m).1 := by
  unfold xread rwoper
  generalize hm0 : ({ m with
    unallocCount := 0, isRead := true, needPreRead := true, writeType := .wrual } :
      Machine) = m0
  have hsel : HostSelected table fdc (fun _ => none) m0 (selectHost fdc m0) := by
    subst hm0
    refine selectHost_presents fdc (hm.congr rfl) hlegal (fun _ => presents_none table _)
      (fun _ => rfl) ?_
    intro h
    exact absurd h (by simp)
  have hisRead : (selectHost fdc m0).isRead = true := by
    rw [hsel.same.isRead]
    subst hm0
    rfl
  have hrequest : (selectHost fdc m0).request = m.request := by
    rw [hsel.same.request]
    subst hm0
    rfl
  have hcpmDisk : (selectHost fdc m0).cpmDisk = m.cpmDisk := congrArg Rec.disk hrequest
  have hdma : (selectHost fdc m0).cpmDmaAddr = m.cpmDmaAddr := by
    rw [hsel.same.dma]
    subst hm0
    rfl
  have hmem : (selectHost fdc m0).mem = m.mem := by
    rw [hsel.same.mem]
    subst hm0
    rfl
  have hhostbuf : (selectHost fdc m0).hostbuf = m.request.host (table.format m.cpmDisk) := by
    rw [hsel.hostbuf]
    subst hm0
    rfl
  generalize selectHost fdc m0 = m1 at hsel hisRead hrequest hcpmDisk hdma hmem hhostbuf
  have hmove : moveRecord m1 = { m1 with mem := (moveRecord m1).mem } := by
    simp only [moveRecord, hisRead, if_true]
  have hmem2 : ∀ addr, 128 ≤ (addr - m1.cpmDmaAddr).toNat →
      (moveRecord m1).mem addr = m1.mem addr := by
    intro addr hout
    simp only [moveRecord, hisRead, if_true]
    rw [if_neg (Nat.not_lt.mpr hout)]
  generalize moveRecord m1 = m2 at hmove hmem2
  have hfin : SameCall m2 (finish fdc m2).1 := by
    refine (@finish_finished table fdc (fun _ => none) m2 ?_ ?_ ?_).same
    · rw [hmove]
      exact hsel.wf.congr rfl
    · rw [hmove]
      show m1.hostbuf.disk = m1.cpmDisk
      rw [hhostbuf, hcpmDisk]
      rfl
    · rw [hmove]
      show m1.hostbuf.Legal (table.format m1.cpmDisk)
      rw [hhostbuf, hcpmDisk]
      exact Rec.host_legal hlegal
  refine ⟨?_, ?_, fun addr hout => ?_⟩
  · rw [hfin.request, hmove]
    exact hrequest
  · rw [hfin.dma, hmove]
    exact hdma
  · rw [hfin.mem, hmem2 addr (by rw [hdma]; exact hout), hmem]

theorem biosRead_frame (fdc : Nat → Attempt) (hm : Wf table m)
    (hlegal : m.request.Legal (table.format m.cpmDisk)) : ReadFrame m (biosRead fdc m) := by
  have hframe := xread_frame fdc hm hlegal
  exact ⟨hframe.request, hframe.dma, hframe.mem⟩

/-! ### Between the calls -/

/-- What holds between the calls and warm boots of a run on fault-free drives. -/
structure Steady (table : DriveTable) (base : Rec → Option Record) (m : Machine) : Prop where
  transparent : Transparent table base m
  aligned : StartsAligned table m

theorem steady_call (hfdc : FaultFree fdc) {c : Call} (hm : Steady table base m)
    (hc : BlockAligned table m c) : Steady table base (call table fdc m c) :=
  ⟨call_transparent hfdc hc.addressed (fun _ _ => hm.aligned.staysInBlock hm.transparent.inv)
    hm.transparent, hm.aligned.call hm.transparent.inv hc⟩

theorem steady_boot (table : DriveTable) (fdc : Nat → Attempt) (mem : Word → Byte)
    (disk : Chs → Nat → Byte) : Steady table (originals table disk) (boot table fdc mem disk) :=
  ⟨boot_transparent table fdc mem disk, boot_startsAligned table fdc mem disk⟩

/-- A call that is no transfer keeps the store. -/
theorem contents_quiet {c : Call} (hm : Wf table m) (hc : Addressed table m c)
    (hread : c ≠ .read) (hwrite : ∀ wt, c ≠ .write wt) :
    contents table base (call table fdc m c).log = contents table base m.log := by
  have hquiet : Quiet table fdc m (call table fdc m c) := call_quiet hm hc hread hwrite
  rw [← contents_filter, hquiet.calls, contents_filter]

/-- A read keeps the store, and puts the record at the DMA address. -/
theorem read_delivers (hfdc : FaultFree fdc) (hm : Transparent table base m)
    (hlegal : m.request.Legal (table.format m.cpmDisk)) :
    (xread fdc m).2 = 0 ∧
      contents table base (biosRead fdc m).log = contents table base m.log ∧
      ∀ v, contents table base m.log m.request = some v → (biosRead fdc m).dmaRecord = v := by
  have hafter : Transparent table base (biosRead fdc m) :=
    call_transparent hfdc (c := .read) hlegal (fun _ h => nomatch h) hm
  obtain ⟨code, data, rest, hlog, hcalls, -, -⟩ := biosRead_answered fdc hm.inv hlegal
  have hentry : (biosRead fdc m).log =
      .readDone m.request (xread fdc m).2 (biosRead fdc m).dmaRecord :: (xread fdc m).1.log := rfl
  have hrest : rest = (xread fdc m).1.log := by
    rw [hlog] at hentry
    exact (List.cons.inj hentry).2
  have hsame : contents table base (xread fdc m).1.log = contents table base m.log := by
    rw [← hrest, ← contents_filter, hcalls, contents_filter]
  have hfaithful := hafter.faithful
  rw [hentry] at hfaithful ⊢
  refine ⟨hfaithful.1.1, hsame, fun v hv => ?_⟩
  rw [← hsame] at hv
  exact hfaithful.1.2 v hv

/-! ### Loading the system -/

/-- Where byte `i` of record `s` of track 1 goes. -/
def ccpAddr (s i : Nat) : Word := CCP_BASE + BitVec.ofNat 16 (128 * s + i)

theorem toNat_ccpAddr {s i : Nat} (hs : s < NSECTS) (hi : i < 128) :
    (ccpAddr s i).toNat = CCP_BASE.toNat + 128 * s + i := by
  simp only [NSECTS] at hs
  simp only [ccpAddr, CCP_BASE, BitVec.toNat_add, BitVec.toNat_ofNat]
  omega

theorem ccpAddr_add (s i j : Nat) : ccpAddr s i + BitVec.ofNat 16 j = ccpAddr s (i + j) := by
  rw [ccpAddr, ccpAddr, BitVec.add_assoc, ← BitVec.ofNat_add, Nat.add_assoc]

theorem ccpAddr_succ (s : Nat) : ccpAddr s 128 = ccpAddr (s + 1) 0 := by
  rw [ccpAddr, ccpAddr, Nat.mul_succ, Nat.add_zero]

/-- An address outside a DMA area of the loop. -/
theorem outside_dma {s : Nat} (hs : s < NSECTS) {addr : Word}
    (hout : addr.toNat < CCP_BASE.toNat + 128 * s ∨
      CCP_BASE.toNat + 128 * (s + 1) ≤ addr.toNat) : 128 ≤ (addr - ccpAddr s 0).toNat := by
  have haddr := toNat_ccpAddr hs (by decide : 0 < 128)
  have hlt := addr.isLt
  simp only [NSECTS] at hs
  rw [BitVec.toNat_sub, haddr]
  simp only [CCP_BASE, BitVec.toNat_ofNat] at hout ⊢
  omega

/-- What the loop leaves, from record `sec` on. -/
structure Loaded (table : DriveTable) (base : Rec → Option Record) (sec count : Nat)
    (m m' : Machine) : Prop where
  steady : Steady table base m'
  store : contents table base m'.log = contents table base m.log
  drive : m'.cpmDisk = 0
  inside : ∀ s, sec ≤ s → s < sec + count → ∀ v, contents table base m.log ⟨0, 1, s⟩ = some v →
    ∀ i : Fin 128, m'.mem (ccpAddr s i) = v i
  outside : ∀ addr : Word, addr.toNat < CCP_BASE.toNat + 128 * sec ∨
    CCP_BASE.toNat + 128 * (sec + count) ≤ addr.toNat → m'.mem addr = m.mem addr

/-- Where the loop stands before record `sec`. -/
structure Loading (table : DriveTable) (base : Rec → Option Record) (sec : Nat) (m : Machine) :
    Prop where
  steady : Steady table base m
  drive : m.cpmDisk = 0
  track : m.cpmTrack = 1
  dma : m.cpmDmaAddr = ccpAddr sec 0

/-- One pass of the loop. -/
theorem load_step (hfdc : FaultFree fdc) {sec : Nat} (hsec : sec < NSECTS)
    (hspt : sec < (fspa (table.format 0)).cpmSectorsPerTrack) (hm : Loading table base sec m) :
    (xread fdc { m with cpmSector := sec }).2 = 0 ∧
      let m' := biosRead fdc { m with cpmSector := sec }
      Loading table base (sec + 1) { m' with cpmDmaAddr := m'.cpmDmaAddr + 128#16 } ∧
        Loaded table base sec 1 m { m' with cpmDmaAddr := m'.cpmDmaAddr + 128#16 } := by
  have hset : call table fdc m (.setsec (BitVec.ofNat 16 sec)) = { m with cpmSector := sec } := by
    have hlt : sec % 2 ^ 16 = sec := Nat.mod_eq_of_lt (hsec.trans (by decide))
    show ({ m with cpmSector := (BitVec.ofNat 16 sec).toNat } : Machine) = _
    rw [BitVec.toNat_ofNat, hlt]
  have hsteady : Steady table base { m with cpmSector := sec } := by
    rw [← hset]
    exact steady_call hfdc hm.steady trivial
  have hrequest : ({ m with cpmSector := sec } : Machine).request = ⟨0, 1, sec⟩ := by
    show (⟨m.cpmDisk, m.cpmTrack, sec⟩ : Rec) = _
    rw [hm.drive, hm.track]
  have hdrive : ({ m with cpmSector := sec } : Machine).cpmDisk = 0 := hm.drive
  have hlegal : ({ m with cpmSector := sec } : Machine).request.Legal
      (table.format ({ m with cpmSector := sec } : Machine).cpmDisk) := by
    rw [hrequest, hdrive]
    exact ⟨Nat.zero_lt_two, show 1 < 77 by decide, hspt⟩
  have hframe := biosRead_frame fdc hsteady.transparent.inv.wf hlegal
  obtain ⟨hcode, hstore, hdata⟩ := read_delivers hfdc hsteady.transparent hlegal
  have hread : Steady table base (biosRead fdc { m with cpmSector := sec }) :=
    steady_call hfdc (c := .read) hsteady hlegal
  refine ⟨hcode, ?_⟩
  generalize hm' : biosRead fdc { m with cpmSector := sec } = m' at hframe hstore hdata hread
  have hafter : Steady table base { m' with cpmDmaAddr := m'.cpmDmaAddr + 128#16 } :=
    steady_call hfdc (c := .setdma (m'.cpmDmaAddr + 128#16)) hread trivial
  have hdma' : m'.cpmDmaAddr = ccpAddr sec 0 := hframe.dma.trans hm.dma
  have hdrive' : m'.cpmDisk = 0 := by
    have hdisk := congrArg Rec.disk hframe.request
    rw [hrequest] at hdisk
    exact hdisk
  have htrack' : m'.cpmTrack = 1 := by
    have htrack := congrArg Rec.track hframe.request
    rw [hrequest] at htrack
    exact htrack
  refine ⟨⟨hafter, hdrive', htrack', ?_⟩, ⟨hafter, hstore, hdrive', ?_, ?_⟩⟩
  · show m'.cpmDmaAddr + BitVec.ofNat 16 128 = _
    rw [hdma', ccpAddr_add, Nat.zero_add, ccpAddr_succ]
  · intro s hlo hhi v hv i
    obtain rfl : s = sec := by omega
    rw [hrequest] at hdata
    have hbyte := congrFun (hdata v hv) i
    rw [← hbyte]
    show m'.mem (ccpAddr s i) = m'.mem (m'.cpmDmaAddr + BitVec.ofNat 16 i)
    rw [hdma', ccpAddr_add s 0 i, Nat.zero_add]
  · intro addr hout
    refine hframe.mem addr ?_
    show 128 ≤ (addr - m.cpmDmaAddr).toNat
    rw [hm.dma]
    exact outside_dma hsec hout

/-- The loop, by induction on the records that are left. -/
theorem loadCcp_loaded (hfdc : FaultFree fdc) {count sec : Nat} (hcount : sec + count ≤ NSECTS)
    (hspt : NSECTS ≤ (fspa (table.format 0)).cpmSectorsPerTrack)
    (hm : Loading table base sec m) :
    ∃ m', loadCcp fdc count sec m = some m' ∧ Loaded table base sec count m m' := by
  induction count generalizing sec m with
  | zero =>
      refine ⟨m, rfl, hm.steady, rfl, hm.drive, fun s hlo hhi => ?_, fun _ _ => rfl⟩
      exact absurd (Nat.lt_of_le_of_lt hlo hhi) (Nat.lt_irrefl _)
  | succ count ih =>
      have hsec : sec < NSECTS := by omega
      obtain ⟨hcode, hnext, hone⟩ := load_step hfdc hsec (by omega) hm
      obtain ⟨m', hload, hrest⟩ := ih (by omega) hnext
      refine ⟨m', ?_, hrest.steady, hrest.store.trans hone.store, hrest.drive, ?_, ?_⟩
      · rw [loadCcp]
        simp only [hcode]
        exact hload
      · intro s hlo hhi v hv i
        rcases Nat.lt_or_ge s (sec + 1) with hfirst | hlater
        · -- the records behind do not reach the first
          rw [hrest.outside _ ?_, hone.inside s hlo hfirst v hv i]
          left
          rw [toNat_ccpAddr (by omega) i.isLt]
          have hi := i.isLt
          omega
        · refine hrest.inside s hlater (by omega) v ?_ i
          rw [hone.store]
          exact hv
      · intro addr hout
        rw [hrest.outside addr (by omega), hone.outside addr (by omega)]

/-! ### The whole of `wboot_c` -/

/-- What a warm boot leaves; `drive` is what the CCP gets. -/
structure WarmBooted (table : DriveTable) (base : Rec → Option Record) (m m' : Machine)
    (drive : Byte) : Prop where
  steady : Steady table base m'
  /-- Nothing that was written is lost. -/
  store : contents table base m'.log = contents table base m.log
  /-- The CCP and the BDOS are what the store holds on track 1. -/
  loaded : ∀ s < NSECTS, ∀ v, contents table base m.log ⟨0, 1, s⟩ = some v →
    ∀ i : Fin 128, m'.mem (ccpAddr s i) = v i
  /-- Below and above them memory is kept, but for page zero. -/
  kept : ∀ addr : Word, 8 ≤ addr.toNat →
    addr.toNat < CCP_BASE.toNat ∨ BIOS_BASE.toNat ≤ addr.toNat → m'.mem addr = m.mem addr
  page : ∀ addr : Word, addr.toNat < 8 → m'.mem addr = pageZero m.mem addr
  selected : m'.cpmDisk = 0
  dma : m'.cpmDmaAddr = BDOS_DMAADDR
  ccp : drive = cdisk m &&& 0x0F#8

theorem pageZero_other (mem : Word → Byte) {addr : Word} (haddr : 8 ≤ addr.toNat) :
    pageZero mem addr = mem addr := by
  have hne : ∀ low : Word, low.toNat < 8 → addr ≠ low := by
    rintro low hlow rfl
    exact absurd haddr (Nat.not_le.mpr hlow)
  have hjumps : ¬ (addr = 0x0000#16 ∨ addr = 0x0005#16) := by
    rintro (h | h)
    · exact hne _ (by decide) h
    · exact hne _ (by decide) h
  unfold pageZero
  rw [if_neg hjumps, if_neg (hne _ (by decide)), if_neg (hne _ (by decide)),
    if_neg (hne _ (by decide)), if_neg (hne _ (by decide))]

theorem pageZero_congr {mem mem' : Word → Byte} {addr : Word} (h : mem addr = mem' addr) :
    pageZero mem addr = pageZero mem' addr := by
  simp only [pageZero, h]

/-- `SELDSK` leaves the memory of the program and the DMA address. -/
theorem biosSeldskC_mem (table : DriveTable) (fdc : Nat → Attempt) (drive : Nat) (m : Machine) :
    (biosSeldskC table fdc drive m).1.mem = m.mem ∧
      (biosSeldskC table fdc drive m).1.cpmDmaAddr = m.cpmDmaAddr := by
  unfold biosSeldskC
  split
  · exact ⟨rfl, rfl⟩
  · simp only
    split
    · obtain ⟨n, disk, heq, -⟩ := wrthst_eq fdc { m with cpmDisk := drive }
      rw [heq]
      exact ⟨rfl, rfl⟩
    · exact ⟨rfl, rfl⟩

theorem biosSeldskC_disk (table : DriveTable) (fdc : Nat → Attempt) (m : Machine) :
    (biosSeldskC table fdc 0 m).1.cpmDisk = 0 := by
  unfold biosSeldskC
  rw [if_neg (Nat.not_lt_zero _)]
  simp only
  split
  · obtain ⟨n, disk, heq, -⟩ := wrthst_eq fdc { m with cpmDisk := 0 }
    rw [heq]
    rfl
  · rfl

theorem biosHome_mem (fdc : Nat → Attempt) (m : Machine) :
    (biosHome fdc m).mem = m.mem ∧ (biosHome fdc m).cpmDisk = m.cpmDisk := by
  unfold biosHome
  split
  · obtain ⟨n, disk, heq, -⟩ := wrthst_eq fdc m
    rw [heq]
    exact ⟨rfl, rfl⟩
  · exact ⟨rfl, rfl⟩

/-- `unalloc_count = 0`: the run of writes without pre-read is over. -/
theorem steady_endRun (hm : Steady table base m) :
    Steady table base { m with unallocCount := 0, fdcUnitHead := 0 } where
  transparent := ⟨⟨hm.transparent.inv.wf.congr rfl, hm.transparent.inv.presents,
    fun hcount => absurd rfl hcount⟩, hm.transparent.diskError, hm.transparent.faithful⟩
  aligned := hm.aligned

theorem wbootLoad_booted (hfdc : FaultFree fdc)
    (hspt : NSECTS ≤ (fspa (table.format 0)).cpmSectorsPerTrack) (hm : Steady table base m)
    (hdrive : m.cpmDisk = 0) :
    ∃ m' drive, wbootLoad table fdc m = some (m', drive) ∧
      WarmBooted table base m m' drive := by
  have hended := steady_endRun hm
  have hhome : Steady table base (biosHome fdc { m with unallocCount := 0, fdcUnitHead := 0 }) :=
    steady_call hfdc (c := .home) hended trivial
  have hstore₁ : contents table base
      (biosHome fdc { m with unallocCount := 0, fdcUnitHead := 0 }).log =
        contents table base m.log :=
    contents_quiet (c := .home) hended.transparent.inv.wf trivial (fun h => nomatch h)
      (fun _ h => nomatch h)
  obtain ⟨hmem₁, hdisk₁⟩ := biosHome_mem fdc { m with unallocCount := 0, fdcUnitHead := 0 }
  unfold wbootLoad
  generalize biosHome fdc { m with unallocCount := 0, fdcUnitHead := 0 } = m₁
    at hhome hstore₁ hmem₁ hdisk₁
  have hset : Steady table base { m₁ with cpmDmaAddr := CCP_BASE, cpmTrack := 1 } :=
    steady_call hfdc (c := .settrk 1#16) (steady_call hfdc (c := .setdma CCP_BASE) hhome trivial)
      trivial
  have hloading : Loading table base 0 { m₁ with cpmDmaAddr := CCP_BASE, cpmTrack := 1 } :=
    ⟨hset, hdisk₁.trans hdrive, rfl, rfl⟩
  obtain ⟨m₂, hload, hloaded⟩ := loadCcp_loaded hfdc (Nat.le_of_eq (Nat.zero_add _)) hspt hloading
  have hstore₂ : contents table base m₂.log = contents table base m.log :=
    hloaded.store.trans hstore₁
  have hset₂ : Steady table base { m₂ with cpmDmaAddr := BDOS_DMAADDR, mem := pageZero m₂.mem } :=
    steady_call hfdc (c := .compute (pageZero m₂.mem))
      (steady_call hfdc (c := .setdma BDOS_DMAADDR) hloaded.steady trivial) trivial
  have hseldsk := @contents_quiet table fdc base
    { m₂ with cpmDmaAddr := BDOS_DMAADDR, mem := pageZero m₂.mem } (.seldsk 0#8)
    hset₂.transparent.inv.wf Nat.zero_lt_two (fun h => nomatch h) (fun _ h => nomatch h)
  have hmem₃ : (call table fdc { m₂ with cpmDmaAddr := BDOS_DMAADDR, mem := pageZero m₂.mem }
      (.seldsk 0#8)).mem = pageZero m₂.mem := (biosSeldskC_mem table fdc 0 _).1
  have hout : ∀ addr : Word, addr.toNat < CCP_BASE.toNat ∨ BIOS_BASE.toNat ≤ addr.toNat →
      m₂.mem addr = m.mem addr := by
    intro addr haddr
    rw [hloaded.outside addr haddr]
    exact congrFun hmem₁ addr
  refine ⟨_, _, by dsimp only; rw [hload]; rfl,
    ⟨steady_call hfdc (c := .seldsk 0#8) hset₂ Nat.zero_lt_two,
    hseldsk.trans hstore₂, ?_, ?_, ?_, biosSeldskC_disk table fdc _,
    (biosSeldskC_mem table fdc 0 _).2, ?_⟩⟩
  · intro s hs v hv i
    have haddr := toNat_ccpAddr hs i.isLt
    have hhigh : 8 ≤ (ccpAddr s i).toNat := by
      rw [haddr]
      exact Nat.le_add_right_of_le (Nat.le_add_right_of_le (by decide))
    rw [hmem₃, pageZero_other _ hhigh]
    refine hloaded.inside s (Nat.zero_le _) (by rw [Nat.zero_add]; exact hs) v ?_ i
    rw [← hstore₁] at hv
    exact hv
  · intro addr hhigh haddr
    rw [hmem₃, pageZero_other _ hhigh, hout addr haddr]
  · intro addr hlow
    rw [hmem₃]
    exact pageZero_congr (hout addr (Or.inl (hlow.trans (by decide))))
  · show pageZero m₂.mem 0x0004#16 &&& 0x0F#8 = m.mem 0x0004#16 &&& 0x0F#8
    rw [← hout 0x0004#16 (Or.inl (by decide))]
    rfl

/-- **A warm boot** between any two calls. -/
theorem wbootC_booted (hfdc : FaultFree fdc)
    (hspt : NSECTS ≤ (fspa (table.format 0)).cpmSectorsPerTrack) (hm : Steady table base m) :
    ∃ m' drive, wbootC table fdc m = some (m', drive) ∧ WarmBooted table base m m' drive := by
  have hselected : Steady table base (call table fdc m (.seldsk 0#8)) :=
    steady_call hfdc hm Nat.zero_lt_two
  have hstore : contents table base (call table fdc m (.seldsk 0#8)).log =
      contents table base m.log :=
    contents_quiet hm.transparent.inv.wf Nat.zero_lt_two (fun h => nomatch h)
      (fun _ h => nomatch h)
  have hmem : (call table fdc m (.seldsk 0#8)).mem = m.mem := (biosSeldskC_mem table fdc 0 m).1
  obtain ⟨m', drive, hboot, hbooted⟩ :=
    wbootLoad_booted hfdc hspt hselected (biosSeldskC_disk table fdc m)
  refine ⟨m', drive, hboot, hbooted.steady, hbooted.store.trans hstore, ?_, ?_, ?_,
    hbooted.selected, hbooted.dma, ?_⟩
  · intro s hs v hv
    rw [← hstore] at hv
    exact hbooted.loaded s hs v hv
  · intro addr hhigh haddr
    rw [hbooted.kept addr hhigh haddr, hmem]
  · intro addr hlow
    rw [hbooted.page addr hlow, hmem]
  · rw [hbooted.ccp, cdisk, hmem]
    rfl

/-! ### Runs with warm boots -/

/-- What happens to the disk system: a call of the program, or its end. -/
inductive Step
  | call (c : Call)
  | wboot

/-- The machine after a step; none once it halts. -/
def step (table : DriveTable) (fdc : Nat → Attempt) : Option Machine → Step → Option Machine
  | none, _ => none
  | some m, .call c => some (call table fdc m c)
  | some m, .wboot => (wbootC table fdc m).map Prod.fst

/-- The calls that a program may make. -/
def Allowed (table : DriveTable) (o : Option Machine) : Step → Prop
  | .call c => ∀ m ∈ o, BlockAligned table m c
  | .wboot => True

theorem step_steady (hfdc : FaultFree fdc)
    (hspt : NSECTS ≤ (fspa (table.format 0)).cpmSectorsPerTrack) {o : Option Machine} {s : Step}
    (hs : Allowed table o s) (ho : ∃ m, o = some m ∧ Steady table base m) :
    ∃ m, step table fdc o s = some m ∧ Steady table base m := by
  obtain ⟨m, rfl, hm⟩ := ho
  cases s with
  | call c => exact ⟨_, rfl, steady_call hfdc hm (hs m rfl)⟩
  | wboot =>
      obtain ⟨m', drive, hboot, hbooted⟩ := wbootC_booted hfdc hspt hm
      exact ⟨m', by rw [step, hboot]; rfl, hbooted.steady⟩

/-- **Warm boots load what is stored.**  In every run of programs on fault-free drives each
`READ` delivers what the store holds; and whenever a program ends, the warm boot succeeds, loads
the system that the store holds on track 1 of drive A, and loses nothing that was written. -/
theorem warm_boots_load (table : DriveTable) (fdc : Nat → Attempt) (mem : Word → Byte)
    (disk : Chs → Nat → Byte) (steps : List Step) (hfdc : FaultFree fdc)
    (hspt : NSECTS ≤ (fspa (table.format 0)).cpmSectorsPerTrack)
    (hsteps : EveryStep (step table fdc) (Allowed table) (some (boot table fdc mem disk)) steps) :
    ∃ m, steps.foldl (step table fdc) (some (boot table fdc mem disk)) = some m ∧
      (∀ r code data earlier, (Event.readDone r code data :: earlier) <:+ m.log →
        code = 0 ∧ ∀ v, contents table (originals table disk) earlier r = some v → data = v) ∧
      ∃ m' drive, wbootC table fdc m = some (m', drive) ∧
        WarmBooted table (originals table disk) m m' drive := by
  have hstep : ∀ o s, Allowed table o s →
      (∃ m, o = some m ∧ Steady table (originals table disk) m) →
        ∃ m, step table fdc o s = some m ∧ Steady table (originals table disk) m :=
    fun o s hs ho => step_steady hfdc hspt hs ho
  obtain ⟨m, hrun, hm⟩ :=
    foldl_invariant hstep hsteps ⟨_, rfl, steady_boot table fdc mem disk⟩
  exact ⟨m, hrun, fun r code data earlier hread => hm.transparent.faithful.read hread,
    wbootC_booted hfdc hspt hm⟩

/-- Open a block, write its first record, end, and go on. -/
def writeAndEnd : List Step :=
  [.call (.settrk 2#16), .call (.write .wrual), .wboot, .call (.settrk 3#16)]

theorem warm_boots_load_write :
    ∃ m, writeAndEnd.foldl (step maxi512 reliable)
        (some (boot maxi512 reliable (fun _ => 0#8) (fun _ _ => 0xE5#8))) = some m ∧
      (∀ r code data earlier, (Event.readDone r code data :: earlier) <:+ m.log →
        code = 0 ∧ ∀ v, contents maxi512 (originals maxi512 fun _ _ => 0xE5#8) earlier r =
          some v → data = v) ∧
      ∃ m' drive, wbootC maxi512 reliable m = some (m', drive) ∧
        WarmBooted maxi512 (originals maxi512 fun _ _ => 0xE5#8) m m' drive := by
  refine warm_boots_load maxi512 reliable (fun _ => 0#8) (fun _ _ => 0xE5#8) writeAndEnd
    reliable_faultFree (by decide) ⟨?_, ?_, trivial, ?_, trivial⟩
  · intro m _
    exact trivial
  · rintro m ⟨⟩
    decide
  · intro m _
    exact trivial

end Disk
end Rc700
