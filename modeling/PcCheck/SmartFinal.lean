/-
The SMART baseline, the drive self-tests and the final check (`smart_baseline`,
`start_selftests` and `smart_final` of `disks.py`).

Baselines and self-test records are kept under the device node and type of the drive.  What
smartctl reads is a function from devices to reports, one for each pass over the devices; the
log files that `smart_final` writes are left out.
-/
import PcCheck.Smart

namespace PcCheck
namespace Smart

variable {δ : Type}

/-! ## The baseline -/

structure Baseline where
  label : String
  metrics : Metrics
  solidState : Bool
  selftestLog : Fingerprint
  serial : Option String

abbrev Baselines := Dict Device Baseline

def isSolidState (data : Report) : Bool :=
  data.nvmeHealth.isSome || decide (data.rotationRate = some 0)

/-- The report says something of the health of a drive. -/
def readable (data : Report) : Bool :=
  data.status.isSome || data.attributes.isSome || data.nvmeHealth.isSome ||
    data.scsiErrors.isSome

/-- NVMe targets are commonly `/dev/nvme0` where the disk is `nvme0n1`. -/
def undiscovered (devices : List Device) (disk : Disk δ) : Bool :=
  let path := "/dev/" ++ disk.name
  !devices.any fun dev =>
    decide (path = dev.name) || (disk.name.startsWith "nvme" && path.startsWith (dev.name ++ "n"))

def undiscoveredCall (disk : Disk δ) : AddCall :=
  { key := "smart-undiscovered:" ++ diskId disk, severity := .warn, component := "Storage",
    title := "No SMART target discovered for " ++ disk.name ++ " " ++ disk.model,
    incomplete := true }

def unreadableCall (dev : Device) : AddCall :=
  { key := "smart-unreadable:" ++ dev.name ++ ":" ++ dev.type, severity := .warn,
    component := "Storage",
    title := "SMART health data unavailable for " ++ dev.name ++ " (" ++ dev.type ++ ")",
    incomplete := true }

def baselineOf (data : Report) (dev : Device) : Baseline :=
  { label := label data dev, metrics := metrics data, solidState := isSolidState data,
    selftestLog := (selftestResult data).2, serial := data.serial }

/-- One device of the baseline, which a later pass does not replace. -/
def baselineDevice (base : Baselines) (dev : Device) (read : Option Report) :
    Baselines × List AddCall :=
  match read with
  | none => (base, [unreadableCall dev])
  | some data =>
    if readable data then
      match base.get? dev with
      | some _ => (base, [])
      | none =>
        (base.set dev (baselineOf data dev),
          (evaluate (some data) (label data dev) none).map fun f =>
            { f with title := f.title ++ " (before test)" })
    else (base, [unreadableCall dev])

def baselineDevices (read : Device → Option Report) :
    Baselines → List Device → Baselines × List AddCall
  | base, [] => (base, [])
  | base, dev :: devices =>
    let first := baselineDevice base dev (read dev)
    let others := baselineDevices read first.1 devices
    (others.1, first.2 ++ others.2)

def smartBaseline (disks : List (Disk δ)) (devices : List Device) (read : Device → Option Report)
    (base : Baselines) : Baselines × List AddCall :=
  let result := baselineDevices read base devices
  (result.1, (disks.filter (undiscovered devices)).map undiscoveredCall ++ result.2)

/-! ## The self-tests -/

/-- An entry of `selftests`, whose keys may all be missing. -/
structure Selftest where
  started : Bool := false
  bootId : Option String := none
  observedRunning : Bool := false
  status : Option String := none

abbrev Selftests := Dict Device Selftest

def startCall (long : Bool) (dev : Device) (info : Baseline) (out err : String) : AddCall :=
  { key := "selftest-start:" ++ dev.key, severity := .warn, component := "Storage",
    title := "SMART " ++ (if long then "long" else "short") ++
      " self-test could not start - " ++ info.label,
    evidence := [out, err], incomplete := true }

/-- The self-tests are started by `run`, of which the return code and the outputs come back. -/
def startSelftests (long : Bool) (boot : String) (run : Device → Int × String × String) :
    List (Device × Baseline) → Selftests → Selftests × List AddCall
  | [], tests => (tests, [])
  | (dev, info) :: base, tests =>
    let (rc, out, err) := run dev
    -- The lowest three bits of the return code say that the command was not accepted.
    let started := decide (0 ≤ rc ∧ rc % 8 = 0)
    let status := if started then "running" else "unavailable"
    let others := startSelftests long boot run base
      (tests.set dev { started := started, bootId := some boot, status := some status })
    (others.1, (if started then [] else [startCall long dev info out err]) ++ others.2)

/-- One pass over the self-tests that were running, with those that still are. -/
def waitRound (read : Device → Option Report) :
    List Device → Selftests → List Device × Selftests
  | [], tests => ([], tests)
  | dev :: pending, tests =>
    if inProgress (read dev) then
      let record := (tests.get? dev).getD {}
      let others := waitRound read pending (tests.set dev { record with observedRunning := true })
      (dev :: others.1, others.2)
    else waitRound read pending tests

/-- The passes that the deadline and an abort leave time for. -/
def waitRounds : List (Device → Option Report) → List Device → Selftests → Selftests
  | [], _, tests => tests
  | read :: reads, pending, tests =>
    let round := waitRound read pending tests
    waitRounds reads round.1 round.2

/-! ## The final check -/

/-- What a finding of the final check rests on: on a drive that did not answer as itself, on
what was read at the end, or on that against the baseline. -/
inductive Basis where
  | absence
  | reading
  | growth
  deriving DecidableEq, Repr

structure Note where
  device : Device
  basis : Basis
  call : AddCall
  deriving DecidableEq

def missing (info : Baseline) (data : Option Report) : Bool :=
  match data with
  | none => true
  | some data =>
    match info.serial with
    | none => false
    | some serial => decide (serial ≠ "" ∧ data.serial ≠ some serial)

def missingCall (dev : Device) (info : Baseline) : AddCall :=
  { key := "smart-final-missing:" ++ dev.key, severity := .warn, component := "Storage",
    title := "Final SMART data missing or device identity changed - " ++ info.label,
    incomplete := true }

def unfinishedCall (dev : Device) (info : Baseline) : AddCall :=
  { key := "smart-selftest-unfinished:" ++ dev.key, severity := .warn, component := "Storage",
    title := "No completed successful self-test from this run - " ++ info.label,
    incomplete := true }

def completed (info : Baseline) (record : Selftest) (data : Option Report) (boot : String) :
    Bool :=
  record.started && decide ((result data).1 = some true) && !inProgress data &&
    (decide ((result data).2 ≠ info.selftestLog) ||
      (record.observedRunning && decide (record.bootId = some boot)))

/-- The findings of `evaluate_smart`, those about growth apart. -/
def judgement (dev : Device) (info : Baseline) : Option Report → List Note
  | none => []
  | some data =>
    (healthNotes data info.label).map (Note.mk dev .reading) ++
      (growthNotes (metrics data) info.label info.metrics).map (Note.mk dev .growth) ++
      (selftestNotes data info.label).map (Note.mk dev .reading)

/-- One device of the final check. -/
def finalDevice (dev : Device) (info : Baseline) (data : Option Report) (boot : String)
    (record : Selftest) : Selftest × List Note :=
  let done := completed info record data boot
  ({ record with status := some (if done then "complete" else "incomplete") },
    (if missing info data then [⟨dev, .absence, missingCall dev info⟩] else []) ++
      judgement dev info data ++
      if done then [] else [⟨dev, .reading, unfinishedCall dev info⟩])

def finalDevices (last : Device → Option Report) (boot : String) :
    List (Device × Baseline) → Selftests → Selftests × List Note
  | [], tests => (tests, [])
  | (dev, info) :: base, tests =>
    let first := finalDevice dev info (last dev) boot ((tests.get? dev).getD {})
    let others := finalDevices last boot base (tests.set dev first.1)
    (others.1, first.2 ++ others.2)

/-- `smart_final`: the passes that wait for the self-tests, and the one that judges. -/
def smartFinal (base : Baselines) (rounds : List (Device → Option Report))
    (last : Device → Option Report) (boot : String) (tests : Selftests) :
    Selftests × List Note :=
  finalDevices last boot base.entries (waitRounds rounds base.keys tests)

/-- The findings of the judgement are those of `evaluate_smart`. -/
theorem judgement_calls (dev : Device) (info : Baseline) (data : Option Report) :
    (judgement dev info data).map Note.call = evaluate data info.label (some info.metrics) := by
  cases data with
  | none => rfl
  | some data =>
    simp only [judgement, evaluate, List.map_append, List.map_map, Function.comp_def,
      List.map_id', Option.getD_some]

section FinalDevice

variable {dev : Device} {info : Baseline} {data : Option Report} {boot : String}
  {record : Selftest} {n : Note}

/-- What the final check says of a device: that it is not the drive of the baseline, what
`evaluate_smart` finds, and that the self-test is not complete. -/
theorem mem_finalDevice (h : n ∈ (finalDevice dev info data boot record).2) :
    n = ⟨dev, .absence, missingCall dev info⟩ ∨ n ∈ judgement dev info data ∨
      n = ⟨dev, .reading, unfinishedCall dev info⟩ := by
  unfold finalDevice at h
  dsimp only at h
  rw [List.mem_append, List.mem_append] at h
  rcases h with (h | h) | h
  · split at h
    · exact Or.inl (List.mem_singleton.mp h)
    · cases h
  · exact Or.inr (Or.inl h)
  · split at h
    · cases h
    · exact Or.inr (Or.inr (List.mem_singleton.mp h))

theorem device_of_mem_judgement (h : n ∈ judgement dev info data) :
    n.device = dev ∧ n.basis ≠ .absence := by
  cases data with
  | none => cases h
  | some data =>
    simp only [judgement, List.mem_append, List.mem_map] at h
    rcases h with (⟨c, -, rfl⟩ | ⟨c, -, rfl⟩) | ⟨c, -, rfl⟩ <;>
      exact ⟨rfl, fun h => by cases h⟩

theorem device_of_mem_finalDevice (h : n ∈ (finalDevice dev info data boot record).2) :
    n.device = dev := by
  rcases mem_finalDevice h with rfl | h | rfl
  · rfl
  · exact (device_of_mem_judgement h).1
  · rfl

theorem noted_of_mem_judgement (h : n ∈ judgement dev info data) : Noted info.label n.call := by
  have hcall : n.call ∈ (judgement dev info data).map Note.call := List.mem_map_of_mem h
  rw [judgement_calls] at hcall
  exact noted_of_mem_evaluate hcall

end FinalDevice

section FinalDevices

variable (last : Device → Option Report) (boot : String)

/-- A device the pass does not come to keeps its record. -/
theorem finalDevices_get?_of_not_mem {base : List (Device × Baseline)} {dev : Device}
    (h : dev ∉ base.map Prod.fst) (tests : Selftests) :
    (finalDevices last boot base tests).1.get? dev = tests.get? dev := by
  induction base generalizing tests with
  | nil => rfl
  | cons p base ih =>
    rw [List.map_cons, List.mem_cons, not_or] at h
    show (finalDevices last boot base _).1.get? dev = _
    rw [ih h.2, Dict.get?_set_ne tests h.1]

/-- Every device is judged with the record it had before the pass. -/
theorem finalDevices_get? {base : List (Device × Baseline)} (h : (base.map Prod.fst).Nodup)
    {dev : Device} {info : Baseline} (hmem : (dev, info) ∈ base) (tests : Selftests) :
    (finalDevices last boot base tests).1.get? dev =
      some (finalDevice dev info (last dev) boot ((tests.get? dev).getD {})).1 := by
  induction base generalizing tests with
  | nil => cases hmem
  | cons p base ih =>
    rw [List.map_cons, List.nodup_cons] at h
    show (finalDevices last boot base _).1.get? dev = _
    rcases List.mem_cons.mp hmem with rfl | hmem
    · rw [finalDevices_get?_of_not_mem last boot h.1, Dict.get?_set_self]
    · have hne : dev ≠ p.1 := fun heq => h.1 (heq ▸ List.mem_map_of_mem hmem)
      rw [ih h.2 hmem, Dict.get?_set_ne tests hne]

theorem mem_finalDevices {base : List (Device × Baseline)} (h : (base.map Prod.fst).Nodup)
    (tests : Selftests) {n : Note} :
    n ∈ (finalDevices last boot base tests).2 ↔ ∃ p ∈ base,
      n ∈ (finalDevice p.1 p.2 (last p.1) boot ((tests.get? p.1).getD {})).2 := by
  induction base generalizing tests with
  | nil => exact ⟨fun hn => absurd hn List.not_mem_nil, fun ⟨p, hp, _⟩ => by cases hp⟩
  | cons p base ih =>
    rw [List.map_cons, List.nodup_cons] at h
    have hkeep : ∀ q ∈ base, ∀ r, (tests.set p.1 r).get? q.1 = tests.get? q.1 := by
      intro q hq r
      have hne : q.1 ≠ p.1 := fun heq => h.1 (heq ▸ List.mem_map_of_mem hq)
      exact Dict.get?_set_ne tests hne r
    show n ∈ _ ++ (finalDevices last boot base _).2 ↔ _
    rw [List.mem_append, ih h.2, List.exists_mem_cons_iff]
    apply or_congr_right
    constructor
    · intro ⟨q, hq, hn⟩
      rw [hkeep q hq] at hn
      exact ⟨q, hq, hn⟩
    · intro ⟨q, hq, hn⟩
      exact ⟨q, hq, by rwa [hkeep q hq]⟩

variable (rounds : List (Device → Option Report)) (tests : Selftests) {base : Baselines}

theorem mem_smartFinal {n : Note} : n ∈ (smartFinal base rounds last boot tests).2 ↔
    ∃ dev info, base.get? dev = some info ∧ n ∈ (finalDevice dev info (last dev) boot
      (((waitRounds rounds base.keys tests).get? dev).getD {})).2 := by
  unfold smartFinal
  rw [mem_finalDevices last boot base.nodup, Prod.exists]
  simp only [Dict.get?_eq_some_iff]

theorem smartFinal_get? {dev : Device} {info : Baseline} (h : base.get? dev = some info) :
    (smartFinal base rounds last boot tests).1.get? dev = some (finalDevice dev info (last dev) boot
      (((waitRounds rounds base.keys tests).get? dev).getD {})).1 :=
  finalDevices_get? last boot base.nodup (Dict.get?_eq_some_iff.mp h) _

end FinalDevices

end Smart
end PcCheck
