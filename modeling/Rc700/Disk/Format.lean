import Mathlib.Data.Fintype.Basic
import Mathlib.Data.List.Nodup
import Mathlib.Tactic.FinCases

/-!
# Disk formats of the CP/M BIOS

The constant tables of `rcbios-in-c/bios.c`: sector interleave, the parameters
of the four supported formats (`fspa`, `fdf`) and the allocation geometry that
the disk parameter blocks derive from the `DISKDEF` primitives.

On top of the tables stand the two address computations every later module
uses: a CP/M record lies in a *slot* of a *host sector* (`Rec.host`,
`Rec.slot`), and a host sector has a physical address on the drive
(`HostSector.chs`).  Both are one-to-one on the addresses the BIOS can be asked
for, in each of the four formats.
-/

namespace Rc700
namespace Disk

/-! ### The tables -/

/-- `xlt_maxi_128`: 26 sectors, skew 6. -/
def xltMaxi128 : List Nat :=
  [1, 7, 13, 19, 25, 5, 11, 17, 23, 3, 9, 15, 21,
   2, 8, 14, 20, 26, 6, 12, 18, 24, 4, 10, 16, 22]

/-- `xlt_maxi_512`: 15 sectors, skew 4. -/
def xltMaxi512 : List Nat :=
  [1, 5, 9, 13, 2, 6, 10, 14, 3, 7, 11, 15, 4, 8, 12]

/-- `xlt_identity`: 26 sectors, no interleave. -/
def xltIdentity : List Nat :=
  [1, 2, 3, 4, 5, 6, 7, 8, 9, 10, 11, 12, 13,
   14, 15, 16, 17, 18, 19, 20, 21, 22, 23, 24, 25, 26]

/-- The fields of a disk parameter block that place allocation blocks on the
disk. -/
structure Dpb where
  spt : Nat
  blm : Nat
  off : Nat
  deriving DecidableEq, Repr

/-- `DISKDEF`: the disk parameter block derived from the drive geometry. -/
def diskdef (physicalSpt sectorSize sides bls ofs : Nat) : Dpb where
  spt := physicalSpt * (sectorSize / 128) * sides
  blm := bls / 128 - 1
  off := ofs

def dpbMaxi128 : Dpb := diskdef 26 128 1 1024 2
def dpbMaxi512 : Dpb := diskdef 15 512 2 2048 2
def dpbMini512 : Dpb := diskdef 26 128 1 1024 0
def dpbMaxi256 : Dpb := diskdef 26 256 2 2048 0

/-- Floppy disk format descriptor. -/
structure Fdf where
  physSpt : Nat
  dmaCount : Nat
  mf : Nat
  n : Nat
  eot : Nat
  gap : Nat
  tracks : Nat
  deriving DecidableEq, Repr

/-- Floppy system parameters. -/
structure Fspa where
  dpb : Dpb
  recordsPerAllocBlock : Nat
  cpmSectorsPerTrack : Nat
  deblockMask : Nat
  deblockShift : Nat
  sectorXlate : List Nat
  fdcDataLength : Nat
  diskType : Nat
  deriving DecidableEq, Repr

/-- One descriptor per track format. -/
def fdf : Fin 4 → Fdf
  | 0 => ⟨26, 127, 0, 0, 26, 7, 77⟩
  | 1 => ⟨30, 511, 64, 2, 15, 27, 77⟩
  | 2 => ⟨26, 127, 0, 0, 26, 7, 77⟩
  | 3 => ⟨52, 255, 64, 1, 26, 14, 77⟩

/-- One parameter area per format. -/
def fspa : Fin 4 → Fspa
  | 0 => { dpb := dpbMaxi128, recordsPerAllocBlock := 8, cpmSectorsPerTrack := 26,
           deblockMask := 0, deblockShift := 1, sectorXlate := xltMaxi128,
           fdcDataLength := 128, diskType := 0 }
  | 1 => { dpb := dpbMaxi512, recordsPerAllocBlock := 16, cpmSectorsPerTrack := 120,
           deblockMask := 3, deblockShift := 3, sectorXlate := xltMaxi512,
           fdcDataLength := 255, diskType := 0 }
  | 2 => { dpb := dpbMini512, recordsPerAllocBlock := 8, cpmSectorsPerTrack := 26,
           deblockMask := 0, deblockShift := 1, sectorXlate := xltIdentity,
           fdcDataLength := 128, diskType := 0 }
  | 3 => { dpb := dpbMaxi256, recordsPerAllocBlock := 8, cpmSectorsPerTrack := 104,
           deblockMask := 1, deblockShift := 2, sectorXlate := xltIdentity,
           fdcDataLength := 255, diskType := 0 }

/-- The format selected by a format code of the drive table. -/
def formatIndex (code : Nat) : Fin 4 :=
  ⟨(code >>> 3) % 4, Nat.mod_lt _ (by omega)⟩

/-! ### Records, host sectors and physical addresses -/

/-- The address of a 128-byte CP/M record. -/
structure Rec where
  disk : Nat
  track : Nat
  sector : Nat
  deriving DecidableEq, Repr

/-- The address of a host sector: what the host buffer is tagged with. -/
structure HostSector where
  disk : Nat
  track : Nat
  sector : Nat
  deriving DecidableEq, Repr

/-- What the floppy controller addresses: drive, cylinder, head, sector. -/
structure Chs where
  drive : Nat
  cylinder : Nat
  head : Nat
  sector : Nat
  deriving DecidableEq, Repr

/-- Number of records in a host sector. -/
def slots (f : Fin 4) : Nat := (fspa f).deblockMask + 1

/-- Number of host sectors in a track. -/
def hostsPerTrack (f : Fin 4) : Nat := (fspa f).cpmSectorsPerTrack / slots f

/-- Records in an allocation block, as the BDOS computes it from the disk
parameter block. -/
def blockRecords (f : Fin 4) : Nat := (fspa f).dpb.blm + 1

/-- Head and physical sector of a host sector: the sectors from `eot` on are
on the second side. -/
def physical (f : Fin 4) (sector : Nat) : Nat × Nat :=
  if (fdf f).eot ≤ sector then
    (1, (fspa f).sectorXlate.getD (sector - (fdf f).eot) 0)
  else
    (0, (fspa f).sectorXlate.getD sector 0)

/-- The physical address of a host sector in format `f`. -/
def HostSector.chs (f : Fin 4) (host : HostSector) : Chs where
  drive := host.disk
  cylinder := host.track
  head := (physical f host.sector).1
  sector := (physical f host.sector).2

/-- The host sector a record lies in. -/
def Rec.host (f : Fin 4) (r : Rec) : HostSector :=
  ⟨r.disk, r.track, r.sector / slots f⟩

/-- The position of a record inside its host sector. -/
def Rec.slot (f : Fin 4) (r : Rec) : Nat := r.sector % slots f

/-- The record in a given slot of a host sector. -/
def HostSector.record (f : Fin 4) (host : HostSector) (slot : Nat) : Rec :=
  ⟨host.disk, host.track, host.sector * slots f + slot⟩

/-- Addresses the BIOS may be asked for: two drives, 77 tracks, the sectors of
the drive's format. -/
def Rec.Legal (f : Fin 4) (r : Rec) : Prop :=
  r.disk < 2 ∧ r.track < 77 ∧ r.sector < (fspa f).cpmSectorsPerTrack

/-- Host sectors that hold addressable records. -/
def HostSector.Legal (f : Fin 4) (host : HostSector) : Prop :=
  host.disk < 2 ∧ host.track < 77 ∧ host.sector < hostsPerTrack f

instance (f : Fin 4) (r : Rec) : Decidable (r.Legal f) :=
  inferInstanceAs (Decidable (_ ∧ _))

instance (f : Fin 4) (host : HostSector) : Decidable (host.Legal f) :=
  inferInstanceAs (Decidable (_ ∧ _))

/-! ### Facts about the four formats -/

theorem slots_pos (f : Fin 4) : 0 < slots f := Nat.succ_pos _

/-- The deblocking shift divides by the number of slots. -/
theorem shiftRight_eq_div_slots (f : Fin 4) (sector : Nat) :
    sector >>> ((fspa f).deblockShift - 1) = sector / slots f := by
  rw [Nat.shiftRight_eq_div_pow]
  fin_cases f <;> rfl

/-- The deblocking mask takes the remainder by the number of slots. -/
theorem and_mask_eq_mod_slots (f : Fin 4) (sector : Nat) :
    sector &&& (fspa f).deblockMask = sector % slots f := by
  fin_cases f
  · simp [fspa, slots, Nat.mod_one]
  · exact Nat.and_two_pow_sub_one_eq_mod sector 2
  · simp [fspa, slots, Nat.mod_one]
  · exact Nat.and_two_pow_sub_one_eq_mod sector 1

/-- A transfer moves exactly the slots of one host sector. -/
theorem slots_mul_128 (f : Fin 4) : slots f * 128 = (fdf f).dmaCount + 1 := by
  fin_cases f <;> rfl

theorem slots_mul_hostsPerTrack (f : Fin 4) :
    hostsPerTrack f * slots f = (fspa f).cpmSectorsPerTrack := by
  fin_cases f <;> rfl

/-- The parameter block and the driver agree on the length of a track. -/
theorem dpb_spt (f : Fin 4) : (fspa f).dpb.spt = (fspa f).cpmSectorsPerTrack := by
  fin_cases f <;> rfl

/-- Allocation blocks begin and end on host sector boundaries. -/
theorem slots_dvd_blockRecords (f : Fin 4) : slots f ∣ blockRecords f := by
  fin_cases f <;> decide

theorem slots_dvd_sectorsPerTrack (f : Fin 4) :
    slots f ∣ (fspa f).cpmSectorsPerTrack := by
  fin_cases f <;> decide

/-- The run of writes without pre-read is never longer than a block. -/
theorem recordsPerAllocBlock_le (f : Fin 4) :
    (fspa f).recordsPerAllocBlock ≤ blockRecords f := by
  fin_cases f <;> decide

theorem sectorsPerTrack_le (f : Fin 4) : (fspa f).cpmSectorsPerTrack ≤ 120 := by
  fin_cases f <;> decide

/-- Interleave and side selection give every host sector of a track its own
physical sector. -/
theorem physical_nodup (f : Fin 4) :
    ((List.range (hostsPerTrack f)).map (physical f)).Nodup := by
  fin_cases f <;> decide +kernel

theorem physical_injective (f : Fin 4) {s t : Nat}
    (hs : s < hostsPerTrack f) (ht : t < hostsPerTrack f)
    (heq : physical f s = physical f t) : s = t :=
  List.inj_on_of_nodup_map (physical_nodup f) (List.mem_range.mpr hs)
    (List.mem_range.mpr ht) heq

/-! ### Addresses are one-to-one -/

theorem chs_injective (f f' : Fin 4) {host host' : HostSector}
    (hlegal : host.Legal f) (hlegal' : host'.Legal f')
    (hformat : host.disk = host'.disk → f = f')
    (heq : host.chs f = host'.chs f') : host = host' := by
  obtain ⟨disk, track, sector⟩ := host
  obtain ⟨disk', track', sector'⟩ := host'
  simp only [HostSector.chs, Chs.mk.injEq] at heq
  obtain ⟨hdisk, htrack, hhead, hsector⟩ := heq
  have hf := hformat hdisk
  subst hdisk htrack hf
  have hphysical : physical f sector = physical f sector' :=
    Prod.ext hhead hsector
  have := physical_injective f hlegal.2.2 hlegal'.2.2 hphysical
  subst this
  rfl

theorem Rec.slot_lt (f : Fin 4) (r : Rec) : r.slot f < slots f :=
  Nat.mod_lt _ (slots_pos f)

theorem Rec.host_legal {f : Fin 4} {r : Rec} (hlegal : r.Legal f) :
    (r.host f).Legal f := by
  refine ⟨hlegal.1, hlegal.2.1, ?_⟩
  have h := hlegal.2.2
  rw [← slots_mul_hostsPerTrack f] at h
  exact Nat.div_lt_of_lt_mul (by rwa [Nat.mul_comm])

/-- A record is found again from its host sector and slot. -/
@[simp] theorem Rec.record_host_slot (f : Fin 4) (r : Rec) :
    (r.host f).record f (r.slot f) = r := by
  simp only [HostSector.record, Rec.host, Rec.slot, Nat.div_add_mod']

theorem HostSector.host_record (f : Fin 4) (host : HostSector) {slot : Nat}
    (hslot : slot < slots f) : (host.record f slot).host f = host := by
  have hdiv : (host.sector * slots f + slot) / slots f = host.sector := by
    rw [Nat.add_comm, Nat.add_mul_div_right _ _ (slots_pos f),
      Nat.div_eq_of_lt hslot, Nat.zero_add]
  simp only [HostSector.record, Rec.host, hdiv]

theorem HostSector.slot_record (f : Fin 4) (host : HostSector) {slot : Nat}
    (hslot : slot < slots f) : (host.record f slot).slot f = slot := by
  simp only [HostSector.record, Rec.slot, Nat.add_comm _ slot,
    Nat.add_mul_mod_self_right, Nat.mod_eq_of_lt hslot]

end Disk
end Rc700
