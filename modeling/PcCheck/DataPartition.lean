/-
Where the data partition goes on the boot disk (`plan_partition` in `storage.py`).

The new partition starts after the image and after every partition of the table, on a
multiple of 1 MiB.  A partition table is what `sfdisk --json` prints of it.
-/
import Mathlib.Order.Bounds.Basic
import Mathlib.Data.Int.Basic
import Mathlib.Algebra.Order.Ring.Int

namespace PcCheck
namespace DataPartition

/-- The label of a partition table. -/
inductive Label where
  | dos
  | gpt
  | other (name : String)
  /-- A label that is no string. -/
  | unnamed
  deriving DecidableEq, Repr

/-- A partition, in sectors. -/
structure Partition where
  start : Int
  size : Int
  deriving DecidableEq, Repr

structure PartitionTable where
  label : Option Label := none
  sectorsize : Option Int := none
  partitions : Option (List Partition) := none
  deriving DecidableEq, Repr

structure SfdiskJson where
  partitiontable : Option PartitionTable := none
  deriving DecidableEq, Repr

def mebibyte : Int := 1024 * 1024

def minFreeBytes : Int := 256 * 1024 * 1024

/-- `sfdisk_json or {}`, and the table in it if there is one. -/
def tableOf (sfdiskJson : Option SfdiskJson) : PartitionTable :=
  ((sfdiskJson.getD {}).partitiontable).getD {}

namespace PartitionTable

def labelType (t : PartitionTable) : Label := t.label.getD .dos

def sectorBytes (t : PartitionTable) (sector : Int) : Int := t.sectorsize.getD sector

def parts (t : PartitionTable) : List Partition := t.partitions.getD []

end PartitionTable

/-- `(n + d - 1) // d` -/
def ceilDiv (n d : Int) : Int := (n + d - 1) / d

/-- `max([p["start"] + p["size"] for p in parts] + [0])` -/
def lastEnd (parts : List Partition) : Int :=
  (parts.map fun p => p.start + p.size).foldr max 0

def lastUsable (label : Label) (diskBytes sector : Int) : Int :=
  diskBytes / sector - (if label = .gpt then 34 else 1)

/-- The bytes between a sector and the last usable one. -/
def room (label : Label) (diskBytes sector start : Int) : Int :=
  (lastUsable label diskBytes sector - start) * sector

def planStart (parts : List Partition) (isoBytes sector : Int) : Int :=
  ceilDiv (max (lastEnd parts) (ceilDiv isoBytes sector)) (mebibyte / sector) *
    (mebibyte / sector)

def planPartition (sfdiskJson : Option SfdiskJson) (diskBytes isoBytes sector : Int) :
    Option (Int × Label) :=
  let table := tableOf sfdiskJson
  let label := table.labelType
  let sector := table.sectorBytes sector
  let parts := table.parts
  if label = .dos ∧ 4 ≤ parts.length then none
  else
    let start := planStart parts isoBytes sector
    if room label diskBytes sector start < minFreeBytes then none else some (start, label)

/-- The sectors on a multiple of 1 MiB where the image and every partition have ended. -/
def FreeStart (parts : List Partition) (isoBytes sector s : Int) : Prop :=
  0 ≤ s ∧ mebibyte ∣ s * sector ∧ (∀ p ∈ parts, p.start + p.size ≤ s) ∧ isoBytes ≤ s * sector

/-- The table takes no further partition, or too little is left after the first free start. -/
def NoRoom (t : PartitionTable) (diskBytes isoBytes sector : Int) : Prop :=
  (t.labelType = .dos ∧ 4 ≤ t.parts.length) ∨
    ∃ s, IsLeast {s | FreeStart t.parts isoBytes sector s} s ∧
      room t.labelType diskBytes sector s < minFreeBytes

/-- Rounding up is left adjoint to multiplying. -/
theorem ceilDiv_le_iff {n d k : Int} (hd : 0 < d) : ceilDiv n d ≤ k ↔ n ≤ k * d := by
  have hlt : ceilDiv n d < k + 1 ↔ n + d - 1 < (k + 1) * d :=
    Int.ediv_lt_iff_lt_mul hd
  have hmul : (k + 1) * d = k * d + d := by rw [Int.add_mul, Int.one_mul]
  rw [hmul] at hlt
  omega

theorem lastEnd_le_iff (parts : List Partition) (s : Int) :
    lastEnd parts ≤ s ↔ 0 ≤ s ∧ ∀ p ∈ parts, p.start + p.size ≤ s := by
  induction parts with
  | nil => simp [lastEnd]
  | cons p rest ih =>
    have hcons : lastEnd (p :: rest) = max (p.start + p.size) (lastEnd rest) := rfl
    rw [hcons, max_le_iff, ih, List.forall_mem_cons]
    tauto

section Sector

variable {sector : Int} (hpos : 0 < sector) (hdvd : sector ∣ mebibyte)

include hpos hdvd

theorem align_pos : 0 < mebibyte / sector := by
  apply Int.ediv_pos_of_pos_of_dvd
  · decide
  · exact hpos.le
  · exact hdvd

theorem aligned_iff (s : Int) : mebibyte ∣ s * sector ↔ mebibyte / sector ∣ s := by
  have h : mebibyte / sector * sector ∣ s * sector ↔ mebibyte / sector ∣ s :=
    Int.mul_dvd_mul_iff_right hpos.ne'
  rwa [Int.ediv_mul_cancel hdvd] at h

/-- The sector planned lies below exactly the free starts. -/
theorem planStart_le_iff (parts : List Partition) (isoBytes : Int) {s : Int}
    (hs : mebibyte ∣ s * sector) :
    planStart parts isoBytes sector ≤ s ↔
      0 ≤ s ∧ (∀ p ∈ parts, p.start + p.size ≤ s) ∧ isoBytes ≤ s * sector := by
  obtain ⟨k, rfl⟩ := (aligned_iff hpos hdvd s).mp hs
  have ha := align_pos hpos hdvd
  have hle : planStart parts isoBytes sector ≤ mebibyte / sector * k ↔
      ceilDiv (max (lastEnd parts) (ceilDiv isoBytes sector)) (mebibyte / sector) ≤ k := by
    rw [planStart, Int.mul_comm _ k]
    exact mul_le_mul_iff_of_pos_right ha
  rw [hle, ceilDiv_le_iff ha, max_le_iff, ceilDiv_le_iff hpos, lastEnd_le_iff,
    Int.mul_comm k, and_assoc]

theorem planStart_aligned (parts : List Partition) (isoBytes : Int) :
    mebibyte ∣ planStart parts isoBytes sector * sector := by
  rw [aligned_iff hpos hdvd]
  exact Int.dvd_mul_left _ _

/-- The sector planned is the first free start. -/
theorem planStart_isLeast (parts : List Partition) (isoBytes : Int) :
    IsLeast {s | FreeStart parts isoBytes sector s} (planStart parts isoBytes sector) := by
  have haligned := planStart_aligned hpos hdvd parts isoBytes
  obtain ⟨hnonneg, hparts, hiso⟩ :=
    (planStart_le_iff hpos hdvd parts isoBytes haligned).mp le_rfl
  constructor
  · exact ⟨hnonneg, haligned, hparts, hiso⟩
  · rintro s ⟨hs, hdiv, hends, himage⟩
    exact (planStart_le_iff hpos hdvd parts isoBytes hdiv).mpr ⟨hs, hends, himage⟩

theorem noRoom_iff (t : PartitionTable) (diskBytes isoBytes : Int) :
    NoRoom t diskBytes isoBytes sector ↔ (t.labelType = .dos ∧ 4 ≤ t.parts.length) ∨
      room t.labelType diskBytes sector (planStart t.parts isoBytes sector) < minFreeBytes := by
  have hleast := planStart_isLeast hpos hdvd t.parts isoBytes
  refine or_congr_right ⟨?_, fun h => ⟨_, hleast, h⟩⟩
  rintro ⟨s, hs, hroom⟩
  rwa [hleast.unique hs]

end Sector

theorem planPartition_eq (sfdiskJson : Option SfdiskJson) (diskBytes isoBytes sector : Int) :
    planPartition sfdiskJson diskBytes isoBytes sector =
      if ((tableOf sfdiskJson).labelType = .dos ∧ 4 ≤ (tableOf sfdiskJson).parts.length) ∨
          room (tableOf sfdiskJson).labelType diskBytes ((tableOf sfdiskJson).sectorBytes sector)
            (planStart (tableOf sfdiskJson).parts isoBytes
              ((tableOf sfdiskJson).sectorBytes sector)) < minFreeBytes then none
      else some (planStart (tableOf sfdiskJson).parts isoBytes
        ((tableOf sfdiskJson).sectorBytes sector), (tableOf sfdiskJson).labelType) := by
  rw [ite_or]
  rfl

/-- What is planned is the first free start, with room after it; nothing is planned only where
the table is full or the first free start leaves too little. -/
theorem planPartition_sound (sfdiskJson : Option SfdiskJson) (diskBytes isoBytes sector : Int)
    (hpos : 0 < (tableOf sfdiskJson).sectorBytes sector)
    (hdvd : (tableOf sfdiskJson).sectorBytes sector ∣ mebibyte) :
    (∀ start label, planPartition sfdiskJson diskBytes isoBytes sector = some (start, label) →
      label = (tableOf sfdiskJson).labelType ∧
      mebibyte / (tableOf sfdiskJson).sectorBytes sector ∣ start ∧
      IsLeast {s | FreeStart (tableOf sfdiskJson).parts isoBytes
        ((tableOf sfdiskJson).sectorBytes sector) s} start ∧
      minFreeBytes ≤ room label diskBytes ((tableOf sfdiskJson).sectorBytes sector) start) ∧
    (planPartition sfdiskJson diskBytes isoBytes sector = none ↔
      NoRoom (tableOf sfdiskJson) diskBytes isoBytes
        ((tableOf sfdiskJson).sectorBytes sector)) := by
  rw [planPartition_eq, noRoom_iff hpos hdvd]
  split
  next h => exact ⟨fun _ _ heq => (nomatch heq), iff_of_true rfl h⟩
  next h =>
    refine ⟨?_, iff_of_false (fun heq => (nomatch heq)) h⟩
    rintro start label heq
    obtain ⟨rfl, rfl⟩ := Prod.mk.inj (Option.some.inj heq)
    have hroom := not_lt.mp (not_or.mp h).2
    exact ⟨rfl, Int.dvd_mul_left _ _, planStart_isLeast hpos hdvd _ isoBytes, hroom⟩

/-- A GPT disk of 8 GiB with a partition to sector 3000 and an image of 1 MiB and one byte. -/
def smallGpt : SfdiskJson :=
  { partitiontable := some
      { label := some .gpt, sectorsize := some 512, partitions := some [⟨2048, 952⟩] } }

theorem planPartition_sound_smallGpt :
    planPartition (some smallGpt) 8589934592 1048577 512 = some (4096, .gpt) ∧
      IsLeast {s | FreeStart [⟨2048, 952⟩] 1048577 512 s} 4096 := by
  have h : planPartition (some smallGpt) 8589934592 1048577 512 = some (4096, .gpt) := by decide
  exact ⟨h, ((planPartition_sound (some smallGpt) 8589934592 1048577 512 (by decide)
    (by decide)).1 4096 .gpt h).2.2.1⟩

end DataPartition
end PcCheck
