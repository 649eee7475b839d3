import Mathlib.Tactic.Common
import Rc700.Disk.Driver

/-!
# Allocation blocks

The BDOS numbers the records of a drive from the first track after the system
tracks and cuts them into blocks of `blm + 1` records.  The driver knows nothing
of block numbers: it only counts records.  This module relates the two.
-/

namespace Rc700
namespace Disk

/-- Number of a record, counted from the first record of the first block. -/
def Rec.index (f : Fin 4) (r : Rec) : Nat :=
  (r.track - (fspa f).dpb.off) * (fspa f).cpmSectorsPerTrack + r.sector

/-- The record lies after the system tracks. -/
def Rec.InArea (f : Fin 4) (r : Rec) : Prop := (fspa f).dpb.off ≤ r.track

/-- Two records of one allocation block. -/
def SameBlock (table : DriveTable) (q r : Rec) : Prop :=
  r.disk = q.disk ∧
    q.InArea (table.format q.disk) ∧ r.InArea (table.format q.disk) ∧
    r.index (table.format q.disk) / blockRecords (table.format q.disk) =
      q.index (table.format q.disk) / blockRecords (table.format q.disk)

/-- The first record of an allocation block. -/
def BlockStart (table : DriveTable) (q : Rec) : Prop :=
  q.InArea (table.format q.disk) ∧
    q.index (table.format q.disk) % blockRecords (table.format q.disk) = 0

instance (f : Fin 4) (r : Rec) : Decidable (r.InArea f) :=
  inferInstanceAs (Decidable (_ ≤ _))

instance (table : DriveTable) (q r : Rec) : Decidable (SameBlock table q r) :=
  inferInstanceAs (Decidable (_ ∧ _))

instance (table : DriveTable) (q : Rec) : Decidable (BlockStart table q) :=
  inferInstanceAs (Decidable (_ ∧ _))

theorem SameBlock.refl {table : DriveTable} {q : Rec}
    (hq : q.InArea (table.format q.disk)) : SameBlock table q q :=
  ⟨rfl, hq, hq, rfl⟩

/-- Records of one host sector belong to one block. -/
theorem index_div_eq_of_host_eq {f : Fin 4} {p r : Rec}
    (hhost : r.host f = p.host f) :
    r.index f / blockRecords f = p.index f / blockRecords f := by
  obtain ⟨a, ha⟩ := slots_dvd_blockRecords f
  obtain ⟨b, hb⟩ := slots_dvd_sectorsPerTrack f
  simp only [Rec.host, HostSector.mk.injEq] at hhost
  obtain ⟨_, htrack, hsector⟩ := hhost
  have hdiv : r.index f / slots f = p.index f / slots f := by
    unfold Rec.index
    rw [hb, htrack, Nat.mul_left_comm, Nat.mul_add_div (slots_pos f),
      Nat.mul_add_div (slots_pos f), hsector]
  rw [ha, ← Nat.div_div_eq_div_mul, ← Nat.div_div_eq_div_mul, hdiv]

/-- A block with one record of a host sector has all of them. -/
theorem SameBlock.of_host_eq {table : DriveTable} {q p r : Rec}
    (hp : SameBlock table q p)
    (hhost : r.host (table.format q.disk) = p.host (table.format q.disk)) :
    SameBlock table q r := by
  obtain ⟨hdisk, hq, hparea, hindex⟩ := hp
  have hdisk' : r.disk = p.disk := congrArg HostSector.disk hhost
  have htrack : r.track = p.track := congrArg HostSector.track hhost
  refine ⟨hdisk'.trans hdisk, hq, ?_, (index_div_eq_of_host_eq hhost).trans hindex⟩
  unfold Rec.InArea
  rw [htrack]
  exact hparea

/-- In the slots of a host sector the records follow one another. -/
theorem Rec.index_record {f : Fin 4} {p : Rec} (k : Nat) :
    ((p.host f).record f k).index f + p.slot f = p.index f + k := by
  have hsector := Nat.div_add_mod' p.sector (slots f)
  simp only [Rec.index, HostSector.record, Rec.host, Rec.slot]
  omega

/-! ### The next record -/

theorem Rec.succ_disk (spt : Nat) (p : Rec) : (p.succ spt).disk = p.disk := by
  unfold Rec.succ
  simp only
  split <;> rfl

section Succ

variable {f : Fin 4} {p : Rec}

/-- The next record of the disk is on the same track or at the start of the
next one. -/
theorem Rec.succ_eq (hlegal : p.Legal f) :
    p.succ (fspa f).cpmSectorsPerTrack =
      if p.sector + 1 < (fspa f).cpmSectorsPerTrack then ⟨p.disk, p.track, p.sector + 1⟩
      else ⟨p.disk, p.track + 1, 0⟩ := by
  obtain ⟨_, htrack, hsector⟩ := hlegal
  have hbound := sectorsPerTrack_le f
  have hsector' : (p.sector + 1) % 65536 = p.sector + 1 := Nat.mod_eq_of_lt (by omega)
  have htrack' : (p.track + 1) % 65536 = p.track + 1 := Nat.mod_eq_of_lt (by omega)
  simp only [Rec.succ, hsector', htrack']
  by_cases hlast : p.sector + 1 < (fspa f).cpmSectorsPerTrack
  · rw [if_pos hlast, if_neg (by omega)]
  · rw [if_neg hlast, if_pos (by omega)]

theorem Rec.succ_inArea (hlegal : p.Legal f) (harea : p.InArea f) :
    (p.succ (fspa f).cpmSectorsPerTrack).InArea f := by
  have htrack : (fspa f).dpb.off ≤ p.track := harea
  rw [Rec.succ_eq hlegal]
  unfold Rec.InArea
  split
  · exact htrack
  · show _ ≤ p.track + 1
    omega

/-- Its number is the next one. -/
theorem Rec.index_succ (hlegal : p.Legal f) (harea : p.InArea f) :
    (p.succ (fspa f).cpmSectorsPerTrack).index f = p.index f + 1 := by
  have hsector := hlegal.2.2
  have htrack : (fspa f).dpb.off ≤ p.track := harea
  rw [Rec.succ_eq hlegal]
  unfold Rec.index
  split
  · rfl
  · have hnext : p.track + 1 - (fspa f).dpb.off = p.track - (fspa f).dpb.off + 1 := by omega
    simp only [hnext, Nat.add_mul]
    omega

/-- It is in the same host sector or in the first slot of another one. -/
theorem Rec.succ_host_or_slot (hlegal : p.Legal f) :
    (p.succ (fspa f).cpmSectorsPerTrack).host f = p.host f ∨
      (p.succ (fspa f).cpmSectorsPerTrack).slot f = 0 := by
  rw [Rec.succ_eq hlegal]
  split
  · simp only [Rec.host, Rec.slot, Nat.succ_div]
    by_cases hdvd : slots f ∣ p.sector + 1
    · exact Or.inr (Nat.mod_eq_zero_of_dvd hdvd)
    · left
      rw [if_neg hdvd]
      rfl
  · exact Or.inr (Nat.zero_mod _)

end Succ

end Disk
end Rc700
