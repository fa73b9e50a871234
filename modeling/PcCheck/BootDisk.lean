/-
Which disk an I/O error is blamed on (`RULES`, `device_key` and `KmsgMonitor._process`).

The rule for I/O errors captures the name of the device, and `_process` asks besides whether
the name of the boot disk stands anywhere in the message.  The name of a disk is part of the
names of its partitions, and of those of other disks.
-/
import PcCheck.KernelMessages

namespace PcCheck
namespace Kernel

/-- The device is a partition of the disk, which the kernel numbers with a `p` in between where
the name of the disk ends in a digit. -/
def IsPartition (disk dev : String) : Prop :=
  ∃ digits : List Char, digits ≠ [] ∧ (∀ c ∈ digits, c.isDigit = true) ∧
    dev.toList = disk.toList ++
      (if disk.toList.getLast?.any Char.isDigit = true then 'p' :: digits else digits)

/-- The device is the disk or a part of it. -/
def BelongsTo (disk dev : String) : Prop := dev = disk ∨ IsPartition disk dev

/-- The message is recorded once, as an error of the boot disk if the device belongs to it, and
as one of the device if not. -/
def RightlyBlamed (u : CharTable) (ctx : Context) (level : Int) (seconds : PyFloat)
    (message now dev : String) : Prop :=
  ∃ c, (∀ fs, process u ctx fs level seconds message now = (fs.record c).1) ∧
    heard u ctx level seconds message now = some (c, none) ∧
    (BelongsTo ctx.bootDisk dev → c.key = "bootdisk:disk-io-error" ∧ c.severity = .warn) ∧
    (¬ BelongsTo ctx.bootDisk dev → c.key = "disk-io-error:" ++ dev ∧ c.severity = .fail)

/-! ## The rule -/

/-- The rule for I/O errors fails, names the device, is not counted by sysfs, and is no other
during the boot. -/
theorem ioError_traits {u : CharTable} {rule : Rule} (h : rule ∈ rules u)
    (hid : rule.id = "disk-io-error") :
    rule.severity = .fail ∧ rule.counter = none ∧ rule.bootTitle = none ∧
      rule.keyGroup = some .dev ∧ rule.ignoreAtBoot = false := by
  have hall : ∀ t ∈ (rules ascii).map Rule.traits, t.1 = "disk-io-error" →
      t.2.1 = .fail ∧ t.2.2.1 = none ∧ t.2.2.2.1 = none ∧ t.2.2.2.2.1 = some .dev ∧
        t.2.2.2.2.2 = false := by decide +kernel
  exact hall rule.traits (Rule.traits_mem h) hid

/-- A message whose call has no threshold is recorded, and that is all. -/
theorem process_of_heard {u : CharTable} {ctx : Context} {level : Int} {seconds : PyFloat}
    {message now : String} {c : AddCall}
    (h : heard u ctx level seconds message now = some (c, none)) (fs : Findings) :
    process u ctx fs level seconds message now = (fs.record c).1 := by
  unfold process
  rw [h]

section IoError

variable {u : CharTable} {ctx : Context} {level : Int} {seconds : PyFloat}
  {message now dev : String} {rule : Rule} {found : Regex.Position}

/-- The first group that has captured something is the device. -/
theorem deviceKey_eq (hgroup : rule.keyGroup = some .dev)
    (hdev : (captures rule found).head? = some dev.toList) :
    deviceKey u rule found message = dev := by
  unfold deviceKey
  rw [hgroup]
  cases hcap : captures rule found with
  | nil =>
    rw [hcap] at hdev
    cases hdev
  | cons part rest =>
    rw [hcap] at hdev
    have hpart : part = dev.toList := Option.some.inj hdev
    rw [hpart]
    exact String.ofList_toList

theorem captures_ne_nil {part : List Char} (h : part ∈ captures rule found) : part ≠ [] := by
  have hpart := (List.mem_filter.mp h).2
  intro hnil
  rw [hnil] at hpart
  cases hpart

/-- What was captured stands in the message. -/
theorem dev_in_message (hclass : classify u message = some (rule, found))
    (hdev : (captures rule found).head? = some dev.toList) :
    dev ≠ "" ∧ dev.toList <:+: message.toList := by
  have hmem : dev.toList ∈ captures rule found := List.mem_of_head? hdev
  constructor
  · rintro rfl
    exact captures_ne_nil hmem rfl
  · obtain ⟨n, -, hn⟩ := List.mem_filterMap.mp (List.mem_filter.mp hmem).1
    exact Regex.captured_infix (mem_of_classify hclass).2 hn

/-- An I/O error is recorded under the boot disk when its name stands in the message, and under
the device when it does not. -/
theorem heard_ioError (hboot : ctx.bootDisk ≠ "")
    (hclass : classify u message = some (rule, found)) (hid : rule.id = "disk-io-error")
    (hdev : (captures rule found).head? = some dev.toList) :
    ∃ c, heard u ctx level seconds message now = some (c, none) ∧
      (ctx.bootDisk.toList <:+: message.toList →
        c.key = "bootdisk:disk-io-error" ∧ c.severity = .warn) ∧
      (¬ ctx.bootDisk.toList <:+: message.toList →
        c.key = "disk-io-error:" ++ dev ∧ c.severity = .fail) := by
  obtain ⟨hsev, hcounter, htitle, hgroup, hignore⟩ :=
    ioError_traits (mem_of_classify hclass).1 hid
  obtain ⟨hne, -⟩ := dev_in_message hclass hdev
  have hcall : rule.call ctx dev message seconds now = some
      { key := (rule.entry ctx dev message (seconds.lt bootWindow)).key,
        severity := (rule.entry ctx dev message (seconds.lt bootWindow)).severity,
        component := rule.component,
        title := (rule.entry ctx dev message (seconds.lt bootWindow)).title,
        recommendation := rule.recommendation,
        evidence := ["[" ++ stamp seconds ++ "] " ++ message], count := 1, now := now } := by
    simp [Rule.call, Context.owns, hcounter]
  have hheard : heard u ctx level seconds message now =
      (rule.call ctx dev message seconds now).map fun c => (c, none) := by
    unfold heard
    rw [hclass]
    dsimp only
    rw [hignore, deviceKey_eq hgroup hdev, hid]
    simp [Context.threshold]
  rw [hcall] at hheard
  refine ⟨_, hheard, ?_, ?_⟩
  · intro hnamed
    have hentry : rule.entry ctx dev message (seconds.lt bootWindow) = rule.bootDiskEntry := by
      simp [Rule.entry, hid, storageRules, Context.namesBootDisk, hboot, hnamed]
    rw [hentry]
    exact ⟨congrArg ("bootdisk:" ++ ·) hid, rfl⟩
  · intro hunnamed
    have hentry : rule.entry ctx dev message (seconds.lt bootWindow) = rule.plainEntry dev := by
      simp [Rule.entry, hid, htitle, Context.namesBootDisk, hunnamed]
    rw [hentry]
    refine ⟨?_, hsev⟩
    simp [Rule.plainEntry, hne, hid, String.append_assoc]

end IoError

/-- The name of a disk stands in the name of what belongs to it. -/
theorem BelongsTo.stands_in {disk dev : String} (h : BelongsTo disk dev) :
    disk.toList <:+: dev.toList := by
  rcases h with rfl | ⟨digits, -, -, hdev⟩
  · exact List.infix_rfl
  · rw [hdev]
    exact (List.prefix_append _ _).isInfix

/-- An I/O error is rightly blamed exactly when the name of the boot disk stands in the message
only where the device belongs to the boot disk. -/
theorem rightly_blamed_iff (u : CharTable) (ctx : Context) (level : Int) (seconds : PyFloat)
    (message now dev : String) (rule : Rule) (found : Regex.Position) (hboot : ctx.bootDisk ≠ "")
    (hclass : classify u message = some (rule, found)) (hid : rule.id = "disk-io-error")
    (hdev : (captures rule found).head? = some dev.toList) :
    RightlyBlamed u ctx level seconds message now dev ↔
      (ctx.bootDisk.toList <:+: message.toList → BelongsTo ctx.bootDisk dev) := by
  obtain ⟨c, hheard, hnamed, hunnamed⟩ :
      ∃ c, heard u ctx level seconds message now = some (c, none) ∧ _ ∧ _ :=
    heard_ioError hboot hclass hid hdev
  constructor
  · intro ⟨d, _, hd, _, hother⟩ hin
    obtain rfl : c = d := congrArg Prod.fst (Option.some.inj (hheard.symm.trans hd))
    by_contra hforeign
    have hwarn := (hnamed hin).2
    rw [(hother hforeign).2] at hwarn
    cases hwarn
  · intro honly
    refine ⟨c, process_of_heard hheard, hheard, ?_, ?_⟩
    · intro hbelongs
      exact hnamed (hbelongs.stands_in.trans (dev_in_message hclass hdev).2)
    · intro hforeign
      exact hunnamed fun hin => hforeign (honly hin)

def fromStick : Context := { opts := {}, bootDisk := "sda" }

theorem rightly_blamed_iff_partition :
    RightlyBlamed ascii fromStick 3 (.finite 500) "I/O error, dev sda1, sector 8" "" "sda1" ↔
      (fromStick.bootDisk.toList <:+: "I/O error, dev sda1, sector 8".toList →
        BelongsTo fromStick.bootDisk "sda1") := by
  have hread : (classify ascii "I/O error, dev sda1, sector 8").map
      (fun p => (p.1.id, (captures p.1 p.2).head?)) =
        some ("disk-io-error", some "sda1".toList) := by decide +kernel
  obtain ⟨⟨rule, found⟩, hclass, hread⟩ := Option.map_eq_some_iff.mp hread
  exact rightly_blamed_iff ascii fromStick 3 (.finite 500) _ "" "sda1" rule found (by decide)
    hclass (congrArg Prod.fst hread) (congrArg Prod.snd hread)

/-- With the boot disk `sda`, an error of the disk `sdaa` is blamed on the boot disk. -/
theorem another_disk_excused :
    ¬ ∀ (u : CharTable) (ctx : Context) (level : Int) (seconds : PyFloat)
      (message now dev : String) (rule : Rule) (found : Regex.Position), ctx.bootDisk ≠ "" →
      classify u message = some (rule, found) → rule.id = "disk-io-error" →
      (captures rule found).head? = some dev.toList →
      RightlyBlamed u ctx level seconds message now dev := by
  intro h
  have hread : (classify ascii "I/O error, dev sdaa, sector 8").map
      (fun p => (p.1.id, (captures p.1 p.2).head?)) =
        some ("disk-io-error", some "sdaa".toList) := by decide +kernel
  obtain ⟨⟨rule, found⟩, hclass, hread⟩ := Option.map_eq_some_iff.mp hread
  have hid : rule.id = "disk-io-error" := congrArg Prod.fst hread
  have hdev : (captures rule found).head? = some "sdaa".toList := congrArg Prod.snd hread
  obtain ⟨c, -, hheard, -, hother⟩ :=
    h ascii fromStick 3 (.finite 500) _ "" "sdaa" rule found (by decide) hclass hid hdev
  have hforeign : ¬ BelongsTo fromStick.bootDisk "sdaa" := by
    rintro (hsame | ⟨digits, -, hdigits, hname⟩)
    · exact absurd hsame (by decide)
    · have hlast : ['a'] = digits := congrArg (List.drop 3) hname
      exact absurd (hdigits 'a' (hlast ▸ List.mem_singleton_self 'a')) (by decide)
  obtain ⟨d, hd, hnamed, -⟩ :
      ∃ d, heard ascii fromStick 3 (.finite 500) _ "" = some (d, none) ∧ _ ∧ _ :=
    heard_ioError (by decide) hclass hid hdev
  obtain rfl : c = d := congrArg Prod.fst (Option.some.inj (hheard.symm.trans hd))
  have hexcused := (hnamed (by decide)).2
  rw [(hother hforeign).2] at hexcused
  cases hexcused

end Kernel
end PcCheck
