/-
Whose SMART data a finding rests on (`evaluate_smart` and `smart_final`).

Drives are told apart by the serial numbers they report, devices by their names.  Between the
baseline and the final check the drives may change places, or another drive may take a name.
-/
import PcCheck.SmartFinal

namespace PcCheck
namespace Smart

/-! ## Reports that nothing is found in -/

/-- `evaluate_smart` finds nothing in the report, judged against the metrics of a baseline. -/
structure Unremarkable (data : Report) (before : Metrics) : Prop where
  status : data.status ≠ some (some false)
  attributes : ∀ a ∈ (ataAttrs data).values, a.whenFailed ≠ "now" ∧ a.whenFailed ≠ "past"
  bad : ∀ p ∈ badNames, ((metrics data).get? p.1).getD 0 ≤ 0
  warning : ((metrics data).get? "critical_warning").getD 0 = 0
  wear : ((metrics data).get? "percentage_used").getD 0 < 90
  spare : ∀ n, (metrics data).get? "available_spare" = some n →
    ((metrics data).get? "available_spare_threshold").getD 0 ≤ n
  grown : ∀ p ∈ (metrics data).entries, p.1 ∉ changingNames →
    ∀ n, before.get? p.1 = some n → p.2 ≤ n
  ata : ∀ st, (ataLog data).head? = some st → st.passed ≠ some false
  nvme : ∀ st, data.nvmeLog.head? = some st → st.value.getD 0 ∉ [5, 6, 7]
  scsi : ∀ st, data.scsiSelftest = some st →
    st.value ∉ [some 3, some 4, some 5, some 6, some 7]

section Evaluate

variable (data : Report) (label : String)

theorem note_if_eq_nil {p : Prop} [Decidable p] (c : AddCall) :
    (if p then [c] else []) = [] ↔ ¬ p := by
  rw [ite_eq_right_iff]
  exact imp_congr_right fun _ => iff_of_false (List.cons_ne_nil c []) not_false

theorem statusNotes_eq_nil : statusNotes data label = [] ↔ data.status ≠ some (some false) :=
  note_if_eq_nil _

theorem attributeNotes_eq_nil : attributeNotes data label = [] ↔
    ∀ a ∈ (ataAttrs data).values, a.whenFailed ≠ "now" ∧ a.whenFailed ≠ "past" := by
  unfold attributeNotes
  rw [List.filterMap_eq_nil_iff]
  apply forall₂_congr
  intro a _
  dsimp only
  by_cases hnow : a.whenFailed = "now"
  · simp [hnow]
  · by_cases hpast : a.whenFailed = "past" <;> simp [hnow, hpast]

theorem badNotes_eq_nil (m : Metrics) :
    badNotes m label = [] ↔ ∀ p ∈ badNames, (m.get? p.1).getD 0 ≤ 0 := by
  unfold badNotes
  rw [List.filterMap_eq_nil_iff]
  apply forall₂_congr
  intro p _
  dsimp only
  by_cases hpos : 0 < (m.get? p.1).getD 0
  · rw [if_pos hpos]
    exact iff_of_false (Option.some_ne_none _) (by omega)
  · rw [if_neg hpos]
    exact iff_of_true rfl (by omega)

theorem nvmeNotes_eq_nil (m : Metrics) : nvmeNotes m label = [] ↔
    (m.get? "critical_warning").getD 0 = 0 ∧ (m.get? "percentage_used").getD 0 < 90 ∧
      ∀ n, m.get? "available_spare" = some n →
        (m.get? "available_spare_threshold").getD 0 ≤ n := by
  unfold nvmeNotes
  dsimp only
  rw [List.append_eq_nil_iff, List.append_eq_nil_iff, and_assoc, note_if_eq_nil, note_if_eq_nil,
    not_not, not_le]
  apply and_congr_right
  intro _
  apply and_congr_right
  intro _
  cases hspare : m.get? "available_spare" with
  | none => simp
  | some spare =>
    dsimp only
    rw [note_if_eq_nil, not_lt]
    simp

theorem growthNotes_eq_nil (m before : Metrics) : growthNotes m label before = [] ↔
    ∀ p ∈ m.entries, p.1 ∉ changingNames → ∀ n, before.get? p.1 = some n → p.2 ≤ n := by
  unfold growthNotes
  rw [List.filterMap_eq_nil_iff]
  apply forall₂_congr
  intro p _
  by_cases hchanging : p.1 ∈ changingNames
  · simp [hchanging]
  · rw [if_neg hchanging]
    cases hprev : before.get? p.1 with
    | none => simp
    | some prev =>
      rw [Option.bind_some]
      by_cases hlt : prev < p.2
      · simp [hchanging, hlt]
      · simp [hlt, not_lt.mp hlt]

theorem selftestNotes_eq_nil : selftestNotes data label = [] ↔
    (∀ st, (ataLog data).head? = some st → st.passed ≠ some false) ∧
      (∀ st, data.nvmeLog.head? = some st → st.value.getD 0 ∉ [5, 6, 7]) ∧
      ∀ st, data.scsiSelftest = some st →
        st.value ∉ [some 3, some 4, some 5, some 6, some 7] := by
  unfold selftestNotes
  rw [List.append_eq_nil_iff, List.append_eq_nil_iff, and_assoc]
  apply and_congr
  · cases ataLog data with
    | nil => simp
    | cons st rest =>
      dsimp only
      rw [note_if_eq_nil, List.head?_cons]
      simp
  · apply and_congr
    · cases data.nvmeLog with
      | nil => simp
      | cons st rest =>
        dsimp only
        rw [note_if_eq_nil, List.head?_cons]
        simp
    · cases data.scsiSelftest with
      | none => simp
      | some st =>
        dsimp only
        rw [note_if_eq_nil]
        simp

theorem evaluate_eq_nil_iff (before : Metrics) :
    evaluate (some data) label (some before) = [] ↔ Unremarkable data before := by
  simp only [evaluate, healthNotes, List.append_eq_nil_iff, statusNotes_eq_nil,
    attributeNotes_eq_nil, badNotes_eq_nil, nvmeNotes_eq_nil, growthNotes_eq_nil,
    selftestNotes_eq_nil, Option.getD_some]
  constructor
  · rintro ⟨⟨⟨⟨⟨hstatus, hattr⟩, hbad⟩, hwarn, hwear, hspare⟩, hgrown⟩, hata, hnvme, hscsi⟩
    exact ⟨hstatus, hattr, hbad, hwarn, hwear, hspare, hgrown, hata, hnvme, hscsi⟩
  · intro h
    exact ⟨⟨⟨⟨⟨h.status, h.attributes⟩, h.bad⟩, h.warning, h.wear, h.spare⟩, h.grown⟩, h.ata,
      h.nvme, h.scsi⟩

end Evaluate

/-! ## The baseline of a device -/

section Baseline

variable {δ : Type} (read : Device → Option Report)

/-- The entry that a reading makes for its device, if the device has none. -/
def entry (dev : Device) : Option Baseline :=
  ((read dev).filter readable).map fun data => baselineOf data dev

theorem baselineDevice_get?_self (base : Baselines) (dev : Device) :
    (baselineDevice base dev (read dev)).1.get? dev = (base.get? dev).or (entry read dev) := by
  unfold baselineDevice entry
  cases read dev with
  | none => simp
  | some data =>
    by_cases hgood : readable data = true
    · cases hget : base.get? dev with
      | some old => simp [hget, hgood]
      | none => simp [hgood]
    · simp [hgood, Option.filter_some_neg]

theorem baselineDevice_get?_ne (base : Baselines) {dev first : Device} (hne : dev ≠ first) :
    (baselineDevice base first (read first)).1.get? dev = base.get? dev := by
  unfold baselineDevice
  cases read first with
  | none => rfl
  | some data =>
    dsimp only
    split
    · split
      · rfl
      · exact Dict.get?_set_ne base hne _
    · rfl

/-- An entry that was there stays, and a new one is of a device that was read well. -/
theorem baselineDevices_get? (devices : List Device) (base : Baselines) (dev : Device) :
    (baselineDevices read base devices).1.get? dev =
      (base.get? dev).or (if dev ∈ devices then entry read dev else none) := by
  induction devices generalizing base with
  | nil => simp [baselineDevices]
  | cons first devices ih =>
    show (baselineDevices read (baselineDevice base first (read first)).1 devices).1.get? dev = _
    rw [ih]
    by_cases hdev : dev = first
    · subst hdev
      rw [baselineDevice_get?_self, if_pos List.mem_cons_self, Option.or_assoc]
      by_cases hmem : dev ∈ devices <;> simp [hmem]
    · rw [baselineDevice_get?_ne read base hdev]
      simp only [List.mem_cons, hdev, false_or]

theorem smartBaseline_get? (disks : List (Disk δ)) (devices : List Device) (dev : Device)
    (info : Baseline) :
    (smartBaseline disks devices read Dict.empty).1.get? dev = some info ↔ dev ∈ devices ∧
      ∃ data, read dev = some data ∧ readable data = true ∧ info = baselineOf data dev := by
  show (baselineDevices read Dict.empty devices).1.get? dev = some info ↔ _
  rw [baselineDevices_get?, Dict.get?_empty, Option.none_or]
  by_cases hmem : dev ∈ devices
  · simp only [if_pos hmem, entry, Option.map_eq_some_iff, Option.filter_eq_some_iff]
    constructor
    · intro ⟨data, ⟨hread, hgood⟩, hinfo⟩
      exact ⟨hmem, data, hread, hgood, hinfo.symm⟩
    · intro ⟨_, data, hread, hgood, hinfo⟩
      exact ⟨data, ⟨hread, hgood⟩, hinfo.symm⟩
  · rw [if_neg hmem]
    exact iff_of_false (Option.some_ne_none _).symm fun h => hmem h.1

end Baseline

/-! ## Drives that change places -/

/-- A machine whose drives report distinct serial numbers, with the drive and its report at
each device, at the baseline and at the end. -/
structure Bench (δ ι : Type) where
  disks : List (Disk δ)
  devices : List Device
  serial : ι → String
  distinct : Function.Injective serial
  first : Device → Option (ι × Report)
  last : Device → Option (ι × Report)
  first_serial : ∀ dev d data, first dev = some (d, data) → data.serial = some (serial d)
  last_serial : ∀ dev d data, last dev = some (d, data) → data.serial = some (serial d)

namespace Bench

variable {δ ι : Type} (m : Bench δ ι)

def reports (at_ : Device → Option (ι × Report)) (dev : Device) : Option Report :=
  (at_ dev).map Prod.snd

def base : Baselines := (smartBaseline m.disks m.devices (reports m.first) Dict.empty).1

/-- The findings of the final check, after the passes that wait for the self-tests. -/
def final (rounds : List (Device → Option Report)) (boot : String) (tests : Selftests) :
    List Note :=
  (smartFinal m.base rounds (reports m.last) boot tests).2

/-- The record of a device when it is judged. -/
def record (rounds : List (Device → Option Report)) (tests : Selftests) (dev : Device) :
    Selftest :=
  ((waitRounds rounds m.base.keys tests).get? dev).getD {}

/-- A finding about growth compares two readings of one drive, and what was read of a drive
carries the label of that drive. -/
structure OwnDrive (n : Note) : Prop where
  growth : n.basis = .growth → ∃ d old new,
    m.first n.device = some (d, old) ∧ m.last n.device = some (d, new) ∧
      n.call ∈ growthNotes (metrics new) (label old n.device) (metrics old)
  labelled : n.basis ≠ .absence → ∀ d new, m.last n.device = some (d, new) →
    ∃ old, m.first n.device = some (d, old) ∧
      (label old n.device).toList <:+ n.call.title.toList

/-- A device answers with the drive of its baseline, or with one that `smart_final` has
nothing to say about. -/
def Settled (rounds : List (Device → Option Report)) (boot : String) (tests : Selftests) : Prop :=
  ∀ dev ∈ m.devices, ∀ d old e new, m.first dev = some (d, old) → readable old = true →
    m.last dev = some (e, new) → d = e ∨ Unremarkable new (metrics old) ∧
      completed (baselineOf old dev) (m.record rounds tests dev) (some new) boot = true

end Bench

/-! ## The final check -/

section Final

variable {dev : Device} {info : Baseline} {data : Option Report} {boot : String}
  {record : Selftest} {n : Note}

theorem growth_of_mem_judgement (h : n ∈ judgement dev info data) (hgrowth : n.basis = .growth) :
    ∃ new, data = some new ∧ n.call ∈ growthNotes (metrics new) info.label info.metrics := by
  cases data with
  | none => cases h
  | some data =>
    simp only [judgement, List.mem_append, List.mem_map] at h
    rcases h with (⟨c, -, rfl⟩ | ⟨c, hc, rfl⟩) | ⟨c, -, rfl⟩
    · cases hgrowth
    · exact ⟨data, rfl, hc⟩
    · cases hgrowth

theorem growth_of_mem_finalDevice (h : n ∈ (finalDevice dev info data boot record).2)
    (hgrowth : n.basis = .growth) :
    ∃ new, data = some new ∧ n.call ∈ growthNotes (metrics new) info.label info.metrics := by
  rcases mem_finalDevice h with rfl | h | rfl
  · cases hgrowth
  · exact growth_of_mem_judgement h hgrowth
  · cases hgrowth

theorem labelled_of_mem_finalDevice (h : n ∈ (finalDevice dev info data boot record).2) :
    info.label.toList <:+ n.call.title.toList := by
  rcases mem_finalDevice h with rfl | h | rfl
  · exact suffix_append_text _ _
  · exact (noted_of_mem_judgement h).labelled
  · exact suffix_append_text _ _

/-- Nothing but absence is noted exactly when the report is unremarkable and the self-test is
complete. -/
theorem only_absence_iff {new : Report} :
    (∀ n ∈ (finalDevice dev info (some new) boot record).2, n.basis = .absence) ↔
      Unremarkable new info.metrics ∧ completed info record (some new) boot = true := by
  rw [← evaluate_eq_nil_iff new info.label, ← judgement_calls dev info, List.map_eq_nil_iff]
  unfold finalDevice
  constructor
  · intro h
    constructor
    · apply List.eq_nil_iff_forall_not_mem.mpr
      intro n hn
      exact (device_of_mem_judgement hn).2
        (h n (List.mem_append_left _ (List.mem_append_right _ hn)))
    · by_contra hdone
      have hmem := h ⟨dev, .reading, unfinishedCall dev info⟩ (by
        simp [Bool.eq_false_iff.mpr hdone])
      cases hmem
  · intro ⟨hjudge, hdone⟩ n hn
    simp only [hjudge, hdone, if_true, List.append_nil] at hn
    split at hn
    · rw [List.mem_singleton.mp hn]
    · cases hn

end Final

namespace Bench

variable {δ ι : Type} (m : Bench δ ι)

theorem base_get? (dev : Device) (info : Baseline) : m.base.get? dev = some info ↔
    dev ∈ m.devices ∧ ∃ d old, m.first dev = some (d, old) ∧ readable old = true ∧
      info = baselineOf old dev := by
  unfold base
  rw [smartBaseline_get?]
  apply and_congr_right
  intro _
  constructor
  · intro ⟨old, hread, hgood, hinfo⟩
    obtain ⟨⟨d, data⟩, hfirst, rfl⟩ := Option.map_eq_some_iff.mp hread
    exact ⟨d, data, hfirst, hgood, hinfo⟩
  · intro ⟨d, old, hfirst, hgood, hinfo⟩
    exact ⟨old, congrArg (Option.map Prod.snd) hfirst, hgood, hinfo⟩

/-- Growth is judged against the same drive, and labels are those of the drives read, exactly
when no device answers with another drive that there is something to say about. -/
theorem ownDrive_iff (rounds : List (Device → Option Report)) (boot : String)
    (tests : Selftests) :
    (∀ n ∈ m.final rounds boot tests, m.OwnDrive n) ↔ m.Settled rounds boot tests := by
  unfold final
  constructor
  · intro h dev hdev d old e new hfirst hgood hlast
    by_cases hsame : d = e
    · exact Or.inl hsame
    · have hbase := (m.base_get? dev _).mpr ⟨hdev, d, old, hfirst, hgood, rfl⟩
      have honly : ∀ n ∈ (finalDevice dev (baselineOf old dev) (some new) boot
          (m.record rounds tests dev)).2, n.basis = .absence := by
        intro n hn
        by_contra hbasis
        have hread : reports m.last dev = some new := congrArg (Option.map Prod.snd) hlast
        have hown := h n ((mem_smartFinal ..).mpr ⟨dev, _, hbase, by rwa [hread]⟩)
        rw [← device_of_mem_finalDevice hn] at hfirst hlast
        obtain ⟨old', hold, -⟩ := hown.labelled hbasis e new hlast
        rw [hfirst] at hold
        cases hold
        exact hsame rfl
      exact Or.inr (only_absence_iff.mp honly)
  · intro h n hn
    obtain ⟨dev, info, hbase, hn⟩ := (mem_smartFinal ..).mp hn
    obtain ⟨hdev, d, old, hfirst, hgood, rfl⟩ := (m.base_get? dev info).mp hbase
    have hlabel := labelled_of_mem_finalDevice hn
    have hdevice := device_of_mem_finalDevice hn
    -- With another drive at the device there is nothing but absence to note.
    have hsame : ∀ e new, m.last dev = some (e, new) → n.basis ≠ .absence → d = e := by
      intro e new hlast hbasis
      have hread : reports m.last dev = some new := congrArg (Option.map Prod.snd) hlast
      rw [hread] at hn
      rcases h dev hdev d old e new hfirst hgood hlast with hsame | hsilent
      · exact hsame
      · exact absurd (only_absence_iff.mpr hsilent n hn) hbasis
    constructor
    · intro hgrowth
      have hbasis : n.basis ≠ .absence := by rw [hgrowth]; decide
      obtain ⟨new, hread, hcall⟩ := growth_of_mem_finalDevice hn hgrowth
      obtain ⟨⟨e, data⟩, hlast, rfl⟩ := Option.map_eq_some_iff.mp hread
      obtain rfl := hsame e data hlast hbasis
      rw [hdevice]
      exact ⟨d, old, data, hfirst, hlast, hcall⟩
    · intro hbasis e new hlast
      rw [hdevice] at hlast ⊢
      obtain rfl := hsame e new hlast hbasis
      exact ⟨old, hfirst, hlabel⟩

def sda : Device := { name := "/dev/sda", type := "sat" }

/-- A drive with a count of link errors. -/
def wornReport (worn : Bool) : Report :=
  { serial := some (if worn then "B" else "A"), status := some (some true),
    attributes := some [{ id := 199, raw := if worn then 7 else 0 }] }

/-- Two drives that exchange their names. -/
def exchanged : Bench Unit Bool where
  disks := []
  devices := [sda, { name := "/dev/sdb", type := "sat" }]
  serial worn := if worn then "B" else "A"
  distinct := by unfold Function.Injective; decide
  first dev := some (dev ≠ sda, wornReport (dev ≠ sda))
  last dev := some (dev = sda, wornReport (dev = sda))
  first_serial := by
    intro dev d data h
    cases h
    rfl
  last_serial := by
    intro dev d data h
    cases h
    rfl

/-- What the final check adds under the name of the drive that was there at first. -/
def borrowed : Note :=
  ⟨sda, .growth, growthNote (label (wornReport false) sda) "udma_crc" 0 7⟩

/-- The link errors of one drive are counted as growth of those of the other. -/
theorem growth_of_another_drive :
    ¬ ∀ (δ ι : Type) (m : Bench δ ι) (rounds : List (Device → Option Report)) (boot : String)
      (tests : Selftests), ∀ n ∈ m.final rounds boot tests, m.OwnDrive n := by
  intro h
  have hmem : borrowed ∈ exchanged.final [] "boot" Dict.empty := by decide +kernel
  obtain ⟨d, old, new, hfirst, hlast, -⟩ := (h _ _ exchanged [] _ _ borrowed hmem).growth rfl
  cases hfirst
  cases hlast

end Bench

end Smart
end PcCheck
