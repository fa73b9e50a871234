/-
SMART reports (`smart_label`, `smart_metrics`, `evaluate_smart`, `selftest_in_progress`,
`selftest_result` of `disks.py`).

A report is what `smartctl -x` prints of a drive, as far as it is read; a key that may be
missing is an option, and a report that is not JSON is no report.  The entries of a self-test
log keep the rest of their fields as they print, since a log is also compared as a whole.
-/
import PcCheck.Disks

namespace PcCheck
namespace Smart

/-- A target of smartctl: a device node, and the type for drives behind a controller. -/
structure Device where
  name : String
  type : String
  deriving DecidableEq, Repr

namespace Device

/-- `f"{dev['name']}|{dev['type']}"`, of which the pair itself is the key here. -/
def key (d : Device) : String := d.name ++ "|" ++ d.type

end Device

structure AtaAttr where
  id : Int
  name : String := ""
  whenFailed : String := ""
  raw : Int := 0
  deriving DecidableEq, Repr

structure AtaEntry where
  passed : Option Bool := none
  string : String := ""
  rest : String := ""
  deriving DecidableEq, Repr

structure NvmeEntry where
  value : Option Int := none
  string : Option String := none
  rest : String := ""
  deriving DecidableEq, Repr

structure ScsiSelftest where
  value : Option Int := none
  string : String := ""
  inProgress : Bool := false
  rest : String := ""
  deriving DecidableEq, Repr

structure Report where
  modelName : Option String := none
  scsiModelName : Option String := none
  modelFamily : Option String := none
  serial : Option String := none
  rotationRate : Option Int := none
  /-- `smart_status` with its `passed`. -/
  status : Option (Option Bool) := none
  attributes : Option (List AtaAttr) := none
  nvmeHealth : Option (Dict String Int) := none
  scsiGrownDefects : Option Int := none
  /-- `total_uncorrected_errors` of each operation in `scsi_error_counter_log`. -/
  scsiErrors : Option (Dict String Int) := none
  ataExtended : List AtaEntry := []
  ataStandard : List AtaEntry := []
  /-- `remaining_percent` of the self-test that runs. -/
  ataRemaining : Option Int := none
  nvmeLog : List NvmeEntry := []
  nvmeCurrent : Int := 0
  scsiSelftest : Option ScsiSelftest := none

def label (data : Report) (dev : Device) : String :=
  let given := [data.modelName, data.scsiModelName, data.modelFamily].filterMap id
  let model := (given.find? (· ≠ "")).getD ""
  strip (dev.name ++ (if ',' ∈ dev.type.toList then "/" ++ dev.type else "") ++ " " ++ model ++
    " SN:" ++ data.serial.getD "")

/-! ## Metrics -/

abbrev Metrics := Dict String Int

/-- `_ata_attrs`: the table by id, a later row overriding an earlier one. -/
def ataAttrs (data : Report) : Dict Int AtaAttr :=
  Dict.ofList ((data.attributes.getD []).map fun a => (a.id, a))

def ataNames : List (Int × String) :=
  [(5, "reallocated"), (187, "reported_uncorrect"), (197, "pending"),
    (198, "offline_uncorrectable"), (199, "udma_crc"), (10, "spin_retry"), (184, "end_to_end"),
    (196, "realloc_events")]

def nvmeNames : List String :=
  ["critical_warning", "media_errors", "num_err_log_entries", "percentage_used",
    "available_spare", "available_spare_threshold"]

/-- The counters that are compared before and after the test. -/
def metrics (data : Report) : Metrics :=
  let ata := ataNames.filterMap fun p =>
    ((ataAttrs data).get? p.1).map fun a => (p.2, a.raw % 4294967296)
  let nvme := nvmeNames.filterMap fun k =>
    (data.nvmeHealth.bind fun d => d.get? k).map fun v => (k, v)
  let grown := (data.scsiGrownDefects.map fun v => ("grown_defects", v)).toList
  let scsi := ["read", "write", "verify"].filterMap fun op =>
    (data.scsiErrors.bind fun d => d.get? op).map fun v => ("scsi_" ++ op ++ "_uncorrected", v)
  Dict.ofList (ata ++ nvme ++ grown ++ scsi)

/-- The metrics a drive must not have at all. -/
def badNames : List (String × Severity) :=
  [("pending", .fail), ("offline_uncorrectable", .fail), ("reallocated", .warn),
    ("reported_uncorrect", .warn), ("spin_retry", .warn), ("end_to_end", .fail),
    ("media_errors", .fail), ("grown_defects", .warn), ("scsi_read_uncorrected", .fail),
    ("scsi_write_uncorrected", .fail), ("scsi_verify_uncorrected", .fail)]

/-- The metrics that may change in a healthy drive. -/
def changingNames : List String :=
  ["percentage_used", "available_spare", "available_spare_threshold", "num_err_log_entries"]

/-- `name.replace('_', ' ')`. -/
def words (name : String) : String :=
  String.ofList (name.toList.map fun c => if c = '_' then ' ' else c)

/-- `label.split()[0]`. -/
def firstToken (label : String) : String :=
  String.ofList ((label.toList.dropWhile isSpace).takeWhile fun c => !isSpace c)

/-- `f"{n:02x}"`, of a number that is not negative. -/
def hex2 (n : Int) : String :=
  let l := Nat.toDigits 16 n.toNat
  String.ofList (List.replicate (2 - l.length) '0' ++ l)

/-! ## What a report is held to show -/

/-- `add` inside `evaluate_smart`. -/
def note (label : String) (key : String) (severity : Severity) (title : String)
    (detail : String := "") : AddCall :=
  { key := "smart:" ++ firstToken label ++ ":" ++ key, severity := severity,
    component := "Storage", title := title ++ " - " ++ label, detail := detail,
    recommendation := recDisk }

def statusNotes (data : Report) (label : String) : List AddCall :=
  if data.status = some (some false) then
    [note label "health" .fail "SMART overall health check FAILED"] else []

def attributeNotes (data : Report) (label : String) : List AddCall :=
  (ataAttrs data).values.filterMap fun a =>
    let key := "attr" ++ toString a.id
    if a.whenFailed = "now" then
      some (note label key .fail ("SMART attribute " ++ a.name ++ " is failing now"))
    else if a.whenFailed = "past" then
      some (note label key .warn ("SMART attribute " ++ a.name ++ " failed in the past"))
    else none

def badNotes (m : Metrics) (label : String) : List AddCall :=
  badNames.filterMap fun p =>
    let value := (m.get? p.1).getD 0
    if 0 < value then
      some (note label p.1 p.2 ("SMART " ++ words p.1 ++ " = " ++ toString value))
    else none

def nvmeNotes (m : Metrics) (label : String) : List AddCall :=
  let warning := (m.get? "critical_warning").getD 0
  let used := (m.get? "percentage_used").getD 0
  let threshold := (m.get? "available_spare_threshold").getD 0
  (if warning ≠ 0 then
    [note label "critical_warning" .fail ("NVMe critical warning flags 0x" ++ hex2 warning)]
  else []) ++
  (if 90 ≤ used then
    [note label "wear" .warn ("SSD endurance used " ++ toString used ++ "%")] else []) ++
  match m.get? "available_spare" with
  | some spare =>
    if spare < threshold then
      [note label "spare" .fail ("NVMe available spare " ++ toString spare ++
        "% below threshold")]
    else []
  | none => []

/-- A metric that has grown since the baseline. -/
def growthNote (label : String) (name : String) (prev value : Int) : AddCall :=
  note label ("grew:" ++ name) (if name = "udma_crc" then .warn else .fail)
    ("SMART " ++ words name ++ " increased during the test (" ++ toString prev ++ " -> " ++
      toString value ++ ")")
    (if name = "udma_crc" then "udma_crc errors point to the SATA cable/backplane" else "")

def growthNotes (m : Metrics) (label : String) (before : Metrics) : List AddCall :=
  m.entries.filterMap fun p =>
    if p.1 ∈ changingNames then none
    else (before.get? p.1).bind fun prev =>
      if prev < p.2 then some (growthNote label p.1 prev p.2) else none

def ataLog (data : Report) : List AtaEntry :=
  if data.ataExtended ≠ [] then data.ataExtended else data.ataStandard

/-- The latest self-test has failed. -/
def selftestNotes (data : Report) (label : String) : List AddCall :=
  (match ataLog data with
  | st :: _ =>
    if st.passed = some false then
      [note label "selftest" .fail ("SMART self-test failed: " ++ st.string)] else []
  | [] => []) ++
  (match data.nvmeLog with
  | st :: _ =>
    let result := st.value.getD 0
    if result ∈ [5, 6, 7] then
      [note label "selftest" .fail ("NVMe self-test failed: " ++
        st.string.getD (toString result))]
    else []
  | [] => []) ++
  match data.scsiSelftest with
  | some st =>
    if st.value ∈ [some 3, some 4, some 5, some 6, some 7] then
      [note label "selftest" .fail ("SCSI self-test failed: " ++ st.string)]
    else []
  | none => []

/-- What `evaluate_smart` adds besides growth. -/
def healthNotes (data : Report) (label : String) : List AddCall :=
  let m := metrics data
  statusNotes data label ++ attributeNotes data label ++ badNotes m label ++ nvmeNotes m label

def evaluate (data : Option Report) (label : String) (before : Option Metrics) : List AddCall :=
  match data with
  | none => []
  | some data =>
    healthNotes data label ++ growthNotes (metrics data) label (before.getD Dict.empty) ++
      selftestNotes data label

/-! ### Findings of a report -/

/-- The finding is one of `evaluate_smart` under the label. -/
def Noted (label : String) (c : AddCall) : Prop :=
  ∃ key severity title detail, c = note label key severity title detail

section Noted

variable {data : Report} {label : String} {c : AddCall}

theorem suffix_append_text (a b : String) : b.toList <:+ (a ++ b).toList := by
  rw [String.toList_append]
  exact List.suffix_append _ _

theorem Noted.labelled (h : Noted label c) : label.toList <:+ c.title.toList := by
  obtain ⟨key, severity, title, detail, rfl⟩ := h
  exact suffix_append_text (title ++ " - ") label

theorem Noted.key (h : Noted label c) : ∃ rest, c.key = "smart:" ++ rest := by
  obtain ⟨key, severity, title, detail, rfl⟩ := h
  refine ⟨firstToken label ++ ":" ++ key, ?_⟩
  show "smart:" ++ firstToken label ++ ":" ++ key = _
  rw [String.append_assoc, String.append_assoc, String.append_assoc]

theorem noted_note (key : String) (severity : Severity) (title detail : String) :
    Noted label (note label key severity title detail) :=
  ⟨key, severity, title, detail, rfl⟩

theorem noted_of_mem_if {p : Prop} [Decidable p] {d : AddCall} (hd : Noted label d)
    (h : c ∈ if p then [d] else []) : Noted label c := by
  split at h
  · rwa [List.mem_singleton.mp h]
  · cases h

theorem noted_of_mem_healthNotes (h : c ∈ healthNotes data label) : Noted label c := by
  simp only [healthNotes, nvmeNotes, List.mem_append] at h
  rcases h with ((h | h) | h) | (h | h) | h
  · exact noted_of_mem_if (noted_note ..) h
  · obtain ⟨a, -, ha⟩ := List.mem_filterMap.mp h
    dsimp only at ha
    split at ha
    · cases ha
      exact noted_note ..
    · split at ha
      · cases ha
        exact noted_note ..
      · cases ha
  · obtain ⟨p, -, hp⟩ := List.mem_filterMap.mp h
    dsimp only at hp
    split at hp
    · cases hp
      exact noted_note ..
    · cases hp
  · exact noted_of_mem_if (noted_note ..) h
  · exact noted_of_mem_if (noted_note ..) h
  · split at h
    · exact noted_of_mem_if (noted_note ..) h
    · cases h

theorem noted_of_mem_growthNotes {m before : Metrics} (h : c ∈ growthNotes m label before) :
    Noted label c := by
  obtain ⟨p, -, hp⟩ := List.mem_filterMap.mp h
  split at hp
  · cases hp
  · obtain ⟨prev, -, hprev⟩ := Option.bind_eq_some_iff.mp hp
    split at hprev
    · cases hprev
      exact noted_note ..
    · cases hprev

theorem noted_of_mem_selftestNotes (h : c ∈ selftestNotes data label) : Noted label c := by
  simp only [selftestNotes, List.mem_append] at h
  rcases h with (h | h) | h
  all_goals
    split at h
    · exact noted_of_mem_if (noted_note ..) h
    · cases h

theorem noted_of_mem_evaluate {data : Option Report} {before : Option Metrics}
    (h : c ∈ evaluate data label before) : Noted label c := by
  cases data with
  | none => cases h
  | some data =>
    rcases List.mem_append.mp h with h | h
    · rcases List.mem_append.mp h with h | h
      · exact noted_of_mem_healthNotes h
      · exact noted_of_mem_growthNotes h
    · exact noted_of_mem_selftestNotes h

end Noted

/-! ## Self-tests -/

/-- What `selftest_result` compares of a self-test log. -/
inductive Fingerprint where
  | none
  | ata (table : List AtaEntry)
  | nvme (table : List NvmeEntry)
  | scsi (result : ScsiSelftest)
  deriving DecidableEq, Repr

def selftestInProgress (data : Report) : Bool :=
  data.ataRemaining.isSome || decide (data.nvmeCurrent ≠ 0) ||
    data.scsiSelftest.any ScsiSelftest.inProgress

/-- The latest result and the log. -/
def selftestResult (data : Report) : Option Bool × Fingerprint :=
  match ataLog data with
  | st :: rest => (st.passed, .ata (st :: rest))
  | [] =>
    match data.nvmeLog with
    | st :: rest => (some (decide (st.value = some 0)), .nvme (st :: rest))
    | [] =>
      match data.scsiSelftest with
      | some st => (some (decide (st.value = some 0)), .scsi st)
      | none => (none, .none)

/-- The two read off a report that may be missing. -/
def inProgress (data : Option Report) : Bool := data.any selftestInProgress

def result (data : Option Report) : Option Bool × Fingerprint :=
  data.elim (none, .none) selftestResult

end Smart
end PcCheck
