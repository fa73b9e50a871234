/-
The PCIe links at the end of a run against those of the inventory (`check_pcie_links`).

A map holds the link of each device under its address.  Two loops look for what was lost: one
over the baseline, for the devices that are gone, and one over the links of now, for those that
run below their width or their speed.
-/
import PcCheck.Calls
import PcCheck.Counters

namespace PcCheck
namespace Pcie

structure Link where
  name : String
  capSpeed : PyFloat
  capWidth : Nat
  staSpeed : PyFloat
  staWidth : Nat
  bridge : Bool
  deriving DecidableEq

abbrev Links := Dict String Link

/-! ## The findings of a device -/

def missingCall (bdf : String) (b : Link) (now : String) : AddCall :=
  { key := "pcie-missing:" ++ bdf, severity := .fail, component := "PCIe",
    title := s!"PCIe device disappeared during the test: {bdf} {b.name}",
    recommendation := recPcie, now := now }

def widthDropCall (bdf : String) (b l : Link) (now : String) : AddCall :=
  { key := "pcie-width-drop:" ++ bdf, severity := .fail, component := "PCIe",
    title := s!"PCIe link width dropped during the test on {bdf} {l.name}",
    recommendation := recPcie, evidence := [s!"x{b.staWidth} -> x{l.staWidth}"], now := now }

def speedDropCall (bdf : String) (b l : Link) (now : String) : AddCall :=
  { key := "pcie-speed-drop:" ++ bdf, severity := .warn, component := "PCIe",
    title := s!"PCIe link speed dropped during the test on {bdf} {l.name}",
    detail := "Some devices (GPUs) lower link speed when idle; " ++
      "storage/network devices should not.",
    recommendation := recPcie,
    evidence := [s!"{b.staSpeed.repr}GT/s -> {l.staSpeed.repr}GT/s"], now := now }

def widthCall (bdf : String) (l : Link) (now : String) : AddCall :=
  { key := "pcie-width:" ++ bdf, severity := .warn, component := "PCIe",
    title := s!"PCIe link degraded: {bdf} {l.name} runs x{l.staWidth} (capable x{l.capWidth})",
    detail := "Expected if the slot is electrically narrower than the card; otherwise a bad " ++
      "seat, riser or slot.",
    recommendation := recPcie, now := now }

def speedCall (bdf : String) (l : Link) (now : String) : AddCall :=
  { key := "pcie-speed:" ++ bdf, severity := .info, component := "PCIe",
    title := s!"PCIe link below max speed: {bdf} {l.name} at {l.staSpeed.repr}GT/s " ++
      s!"(capable {l.capSpeed.repr}GT/s)",
    detail := "Can be power management or platform limits; a consistent downgrade under load " ++
      "indicates signal integrity problems.",
    now := now }

/-- What the key of a finding says before the address of its device. -/
def kinds : List String :=
  ["pcie-missing:", "pcie-width-drop:", "pcie-speed-drop:", "pcie-width:", "pcie-speed:"]

/-- The keys of the findings about one device. -/
def deviceKeys (bdf : String) : List String := kinds.map (· ++ bdf)

/-! ## The check -/

def baselineCall (links : Links) (now bdf : String) (b : Link) : Option AddCall :=
  if links.get? bdf = none ∧ b.bridge = false then some (missingCall bdf b now) else none

/-- A device of the baseline is compared with it, any other with its own capability. -/
def linkCall (baseline : Option Links) (now bdf : String) (l : Link) : Option AddCall :=
  if l.bridge = true then none
  else if l.staWidth = 0 then none
  else
    match baseline.bind fun links => links.get? bdf with
    | some b =>
      if l.staWidth < b.staWidth then some (widthDropCall bdf b l now)
      else if l.staSpeed.lt b.staSpeed = true then some (speedDropCall bdf b l now)
      else none
    | none =>
      if l.staWidth < l.capWidth then some (widthCall bdf l now)
      else if l.staSpeed.lt l.capSpeed = true then some (speedCall bdf l now)
      else none

def checkCalls (links : Links) (baseline : Option Links) (now : String) : List AddCall :=
  ((baseline.getD Dict.empty).entries.filterMap fun e => baselineCall links now e.1 e.2) ++
    links.entries.filterMap fun e => linkCall baseline now e.1 e.2

def checkPcieLinks (links : Links) (fs : Findings) (baseline : Option Links) (now : String) :
    Findings :=
  fs.addAll (checkCalls links baseline now)

/-! ## What is to be reported -/

/-- A finding of the severity is recorded for the device. -/
def Records (calls : List AddCall) (s : Severity) (bdf : String) : Prop :=
  ∃ c ∈ calls, c.key ∈ deviceKeys bdf ∧ c.severity = s

/-- A device fails after the check if it failed before or a FAIL is recorded for it. -/
theorem fails_checkPcieLinks {links : Links} {fs : Findings} {baseline : Option Links}
    {now bdf : String} :
    (∃ k ∈ deviceKeys bdf, (checkPcieLinks links fs baseline now).items.Fails k) ↔
      (∃ k ∈ deviceKeys bdf, fs.items.Fails k) ∨
        Records (checkCalls links baseline now) .fail bdf := by
  unfold checkPcieLinks
  simp only [Findings.fails_addAll]
  constructor
  · rintro ⟨k, hk, hold | ⟨c, hc, rfl, hfail⟩⟩
    · exact Or.inl ⟨k, hk, hold⟩
    · exact Or.inr ⟨c, hc, hk, hfail⟩
  · rintro (⟨k, hk, hold⟩ | ⟨c, hc, hk, hfail⟩)
    · exact ⟨k, hk, Or.inl hold⟩
    · exact ⟨c.key, hk, Or.inr ⟨c, hc, rfl, hfail⟩⟩

/-- The device is gone, or runs on fewer lanes. -/
def Lost (links : Links) (bdf : String) (b : Link) : Prop :=
  links.get? bdf = none ∨ ∃ l, links.get? bdf = some l ∧ l.staWidth < b.staWidth

/-- Every device of the baseline fails exactly when it is lost. -/
def EveryLossReported (links baseline : Links) (now : String) : Prop :=
  ∀ bdf b, baseline.get? bdf = some b → b.bridge = false →
    (Records (checkCalls links (some baseline) now) .fail bdf ↔ Lost links bdf b)

/-- A device whose link is as it was neither fails nor warns. -/
def NoFalseAlarm (links baseline : Links) (now : String) : Prop :=
  ∀ bdf b l, baseline.get? bdf = some b → links.get? bdf = some l →
    l.staWidth = b.staWidth → l.staSpeed = b.staSpeed →
    ¬ Records (checkCalls links (some baseline) now) .fail bdf ∧
      ¬ Records (checkCalls links (some baseline) now) .warn bdf

/-- Where a device runs on fewer lanes it has some left, and is not taken for a bridge. -/
def LanesLeft (links baseline : Links) : Prop :=
  ∀ bdf b l, baseline.get? bdf = some b → b.bridge = false → links.get? bdf = some l →
    l.staWidth < b.staWidth → l.staWidth ≠ 0 ∧ l.bridge = false

/-! ## Keys -/

/-- What follows the colon in a key. -/
def addressOf (k : String) : List Char := (k.toList.dropWhile (· != ':')).tail

theorem addressOf_append {kind : String} (h : kind ∈ kinds) (bdf : String) :
    addressOf (kind ++ bdf) = bdf.toList := by
  have hall : ∀ k ∈ kinds, k.toList.dropWhile (· != ':') = [':'] := by decide
  rw [addressOf, String.toList_append, List.dropWhile_append, hall kind h]
  rfl

theorem deviceKeys_inj {k bdf other : String} (h : k ∈ deviceKeys bdf)
    (h' : k ∈ deviceKeys other) : bdf = other := by
  obtain ⟨kind, hkind, rfl⟩ := List.mem_map.mp h
  obtain ⟨kind', hkind', heq⟩ := List.mem_map.mp h'
  have haddress : addressOf (kind' ++ other) = addressOf (kind ++ bdf) := congrArg addressOf heq
  rw [addressOf_append hkind, addressOf_append hkind'] at haddress
  exact (String.toList_inj.mp haddress).symm

theorem mem_deviceKeys {kind : String} (h : kind ∈ kinds) (bdf : String) :
    kind ++ bdf ∈ deviceKeys bdf := List.mem_map_of_mem h

theorem baselineCall_spec {links : Links} {now bdf : String} {b : Link} {c : AddCall}
    (h : baselineCall links now bdf b = some c) :
    c = missingCall bdf b now ∧ links.get? bdf = none ∧ b.bridge = false := by
  obtain ⟨⟨hgone, hbridge⟩, hc⟩ := Option.ite_none_right_eq_some.mp h
  exact ⟨(Option.some.inj hc).symm, hgone, hbridge⟩

/-- What the second loop asks of a device of the baseline. -/
theorem linkCall_of_baseline {baseline : Links} {now bdf : String} {b l : Link}
    (hb : baseline.get? bdf = some b) :
    linkCall (some baseline) now bdf l =
      if l.bridge = true then none
      else if l.staWidth = 0 then none
      else if l.staWidth < b.staWidth then some (widthDropCall bdf b l now)
      else if l.staSpeed.lt b.staSpeed = true then some (speedDropCall bdf b l now)
      else none := by
  unfold linkCall
  rw [Option.bind_some, hb]

theorem linkCall_key {baseline : Option Links} {now bdf : String} {l : Link} {c : AddCall}
    (h : linkCall baseline now bdf l = some c) : c.key ∈ deviceKeys bdf := by
  unfold linkCall at h
  repeat' split at h
  all_goals first
    | (obtain rfl := Option.some.inj h; exact mem_deviceKeys (by decide) bdf)
    | cases h

/-- The calls about one device are those the two loops make when they come to it. -/
theorem mem_checkCalls {links baseline : Links} {now bdf : String} {c : AddCall}
    (hkey : c.key ∈ deviceKeys bdf) :
    c ∈ checkCalls links (some baseline) now ↔
      (∃ b, baseline.get? bdf = some b ∧ baselineCall links now bdf b = some c) ∨
        ∃ l, links.get? bdf = some l ∧ linkCall (some baseline) now bdf l = some c := by
  unfold checkCalls
  rw [List.mem_append, List.mem_filterMap, List.mem_filterMap]
  refine or_congr ?_ ?_
  · constructor
    · rintro ⟨⟨other, b⟩, hmem, hcall⟩
      obtain ⟨rfl, -⟩ := baselineCall_spec hcall
      obtain rfl := deviceKeys_inj (mem_deviceKeys (by decide) other) hkey
      exact ⟨b, Dict.get?_eq_some_iff.mpr hmem, hcall⟩
    · rintro ⟨b, hb, hcall⟩
      exact ⟨(bdf, b), Dict.get?_eq_some_iff.mp hb, hcall⟩
  · constructor
    · rintro ⟨⟨other, l⟩, hmem, hcall⟩
      obtain rfl := deviceKeys_inj (linkCall_key hcall) hkey
      exact ⟨l, Dict.get?_eq_some_iff.mpr hmem, hcall⟩
    · rintro ⟨l, hl, hcall⟩
      exact ⟨(bdf, l), Dict.get?_eq_some_iff.mp hl, hcall⟩

section Device

variable {links baseline : Links} {now bdf : String} {b l : Link}

theorem linkCall_fails_iff (hb : baseline.get? bdf = some b) :
    (∃ c, linkCall (some baseline) now bdf l = some c ∧ c.severity = .fail) ↔
      l.staWidth < b.staWidth ∧ l.staWidth ≠ 0 ∧ l.bridge = false := by
  rw [linkCall_of_baseline hb]
  constructor
  · rintro ⟨c, hcall, hfail⟩
    split at hcall
    · cases hcall
    next hbridge =>
      split at hcall
      · cases hcall
      next hzero =>
        split at hcall
        next hless => exact ⟨hless, hzero, Bool.not_eq_true _ ▸ hbridge⟩
        · split at hcall
          · obtain rfl := Option.some.inj hcall
            cases hfail
          · cases hcall
  · rintro ⟨hless, hzero, hbridge⟩
    refine ⟨widthDropCall bdf b l now, ?_, rfl⟩
    rw [hbridge, if_neg Bool.false_ne_true, if_neg hzero, if_pos hless]

theorem linkCall_of_unchanged (hb : baseline.get? bdf = some b)
    (hwidth : l.staWidth = b.staWidth) (hspeed : l.staSpeed = b.staSpeed) :
    linkCall (some baseline) now bdf l = none := by
  have hslower : ¬ b.staSpeed.lt b.staSpeed = true := by rw [PyFloat.lt_irrefl]; decide
  rw [linkCall_of_baseline hb, hwidth, hspeed, if_neg (Nat.lt_irrefl _), if_neg hslower,
    ite_self, ite_self]

/-- When a device of the baseline fails. -/
theorem records_fail_iff (hb : baseline.get? bdf = some b) (hbridge : b.bridge = false) :
    Records (checkCalls links (some baseline) now) .fail bdf ↔ links.get? bdf = none ∨
      ∃ l, links.get? bdf = some l ∧ l.staWidth < b.staWidth ∧ l.staWidth ≠ 0 ∧
        l.bridge = false := by
  constructor
  · rintro ⟨c, hmem, hkey, hfail⟩
    rcases (mem_checkCalls hkey).mp hmem with ⟨b', hb', hcall⟩ | ⟨l, hl, hcall⟩
    · exact Or.inl (baselineCall_spec hcall).2.1
    · exact Or.inr ⟨l, hl, (linkCall_fails_iff hb).mp ⟨c, hcall, hfail⟩⟩
  · rintro (hgone | ⟨l, hl, hdrop⟩)
    · have hkey : (missingCall bdf b now).key ∈ deviceKeys bdf := mem_deviceKeys (by decide) bdf
      refine ⟨missingCall bdf b now, (mem_checkCalls hkey).mpr (Or.inl ⟨b, hb, ?_⟩), hkey, rfl⟩
      exact if_pos ⟨hgone, hbridge⟩
    · have hcalls : ∃ c, linkCall (some baseline) now bdf l = some c ∧ c.severity = .fail :=
        (linkCall_fails_iff hb).mpr hdrop
      obtain ⟨c, hcall, hfail⟩ := hcalls
      have hkey := linkCall_key hcall
      exact ⟨c, (mem_checkCalls hkey).mpr (Or.inr ⟨l, hl, hcall⟩), hkey, hfail⟩

end Device

theorem no_false_alarm (links baseline : Links) (now : String) :
    NoFalseAlarm links baseline now := by
  intro bdf b l hb hl hwidth hspeed
  have hnone : ∀ s, ¬ Records (checkCalls links (some baseline) now) s bdf := by
    rintro s ⟨c, hmem, hkey, -⟩
    rcases (mem_checkCalls hkey).mp hmem with ⟨b', hb', hcall⟩ | ⟨l', hl', hcall⟩
    · cases (baselineCall_spec hcall).2.1.symm.trans hl
    · obtain rfl := Option.some.inj (hl.symm.trans hl')
      cases (linkCall_of_unchanged hb hwidth hspeed).symm.trans hcall
  exact ⟨hnone .fail, hnone .warn⟩

/-- Every loss is reported, and nothing where nothing changed, exactly when no device that runs
on fewer lanes has none left or is taken for a bridge. -/
theorem losses_reported_iff (links baseline : Links) (now : String) :
    (EveryLossReported links baseline now ∧ NoFalseAlarm links baseline now) ↔
      LanesLeft links baseline := by
  rw [and_iff_left (no_false_alarm links baseline now)]
  constructor
  · intro h bdf b l hb hbridge hl hless
    have hlost : Lost links bdf b := Or.inr ⟨l, hl, hless⟩
    rcases (records_fail_iff hb hbridge).mp ((h bdf b hb hbridge).mpr hlost) with
      hgone | ⟨l', hl', -, hleft⟩
    · cases hgone.symm.trans hl
    · obtain rfl := Option.some.inj (hl.symm.trans hl')
      exact hleft
  · intro h bdf b hb hbridge
    rw [records_fail_iff hb hbridge]
    refine or_congr_right ⟨?_, ?_⟩
    · rintro ⟨l, hl, hless, -⟩
      exact ⟨l, hl, hless⟩
    · rintro ⟨l, hl, hless⟩
      exact ⟨l, hl, hless, h bdf b l hb hbridge hl hless⟩

/-- A network card on four lanes. -/
def card : Link :=
  { name := "Ethernet controller [0200]: Intel Corporation I350",
    capSpeed := .finite 5, capWidth := 4, staSpeed := .finite 5, staWidth := 4, bridge := false }

/-- The card has no lane left at the end of the run. -/
theorem dead_link_not_reported :
    ¬ EveryLossReported (Dict.ofList [("02:00.0", { card with staWidth := 0 })])
      (Dict.ofList [("02:00.0", card)]) "12:00" := by
  intro h
  have hlost : Lost (Dict.ofList [("02:00.0", { card with staWidth := 0 })]) "02:00.0" card :=
    Or.inr ⟨{ card with staWidth := 0 }, rfl, by decide⟩
  obtain ⟨c, hc, -⟩ := (h "02:00.0" card rfl rfl).mpr hlost
  have hnone : checkCalls (Dict.ofList [("02:00.0", { card with staWidth := 0 })])
      (some (Dict.ofList [("02:00.0", card)])) "12:00" = [] := by decide
  rw [hnone] at hc
  cases hc

end Pcie
end PcCheck
