/-
No false acceptance.

A report passes a machine only when its session covered the whole plan and the plan
leaves nothing out: `coverage_gaps` names every skipped phase, so an empty list of gaps
gives the plan all the stress phases, and each planned phase, disk scan and self-test is
then read as finished.
-/
import PcCheck.Report

namespace PcCheck
namespace Acceptance

/-- What a report that passes a machine stands for. -/
structure Accepted (opts : Options) (plan : List PlanEntry) (st : SessionState)
    (findings : Items) (json : ReportJson) : Prop where
  complete : st.status = some .complete
  stress : ∀ name ∈ phaseWeights.map Prod.fst, name ∈ plan.map PlanEntry.name
  powercycle : 0 < opts.rebootCycles → "powercycle" ∈ plan.map PlanEntry.name
  phases : ∀ p ∈ plan, ∃ ps, st.phases.get? p.name = some ps ∧
    (ps.status = some .done ∨ ps.status = some .warn ∨ ps.status = some .failed)
  findings : ∀ f ∈ findings.toList, f.severity ≠ .fail ∧ f.incomplete = false
  diskScans : ∀ ident scan, st.diskScans.get? ident = some scan → scan.done = true
  selftests : ∀ ident test, st.selftests.get? ident = some test → test = some .complete
  coverageComplete : json.coverageComplete = true
  coverageGaps : json.coverageGaps = []

theorem plan_of_no_skip {opts : Options} {plan : List PlanEntry} (h : buildPlan opts = .ok plan)
    (hskip : opts.skip = []) :
    (∀ name ∈ phaseWeights.map Prod.fst, name ∈ plan.map PlanEntry.name) ∧
      (0 < opts.rebootCycles → "powercycle" ∈ plan.map PlanEntry.name) := by
  obtain ⟨stress, hstress, hplan⟩ := buildPlan_eq_ok h
  have hall : stress.map PlanEntry.name = phaseWeights.map Prod.fst := by
    rw [hstress, hskip]
    exact List.filter_eq_self.mpr fun name _ => by simp
  have hnames : plan.map PlanEntry.name = "inventory" :: phaseWeights.map Prod.fst ++
      (if 0 < opts.rebootCycles ∧ "powercycle" ∉ opts.skip then [⟨"powercycle", 0⟩]
        else []).map PlanEntry.name := by
    rw [hplan, List.map_append, List.map_cons, hall]
  rw [hnames]
  refine ⟨fun name hname => ?_, fun hcycles => ?_⟩
  · exact List.mem_append_left _ (List.mem_cons_of_mem _ hname)
  · have hpower : 0 < opts.rebootCycles ∧ "powercycle" ∉ opts.skip := by simp [hcycles, hskip]
    rw [if_pos hpower]
    exact List.mem_append_right _ List.mem_cons_self

theorem phase_of_covered {st : SessionState} {name : String}
    (h : (st.phaseStatus name).covered = true) :
    ∃ ps, st.phases.get? name = some ps ∧
      (ps.status = some .done ∨ ps.status = some .warn ∨ ps.status = some .failed) := by
  rw [SessionState.phaseStatus] at h
  cases hps : st.phases.get? name with
  | none => rw [hps] at h; cases h
  | some ps =>
    rw [hps, Option.bind_some] at h
    refine ⟨ps, rfl, ?_⟩
    cases hs : ps.status with
    | none => rw [hs] at h; cases h
    | some s =>
      rw [hs] at h
      simpa [PhaseStatus.covered] using h

theorem judge_pass_or_warnings {a b c : Prop} [Decidable a] [Decidable b] [Decidable c]
    (h : judge a b c = .pass ∨ judge a b c = .passWithWarnings) : ¬ a ∧ ¬ b := by
  unfold judge at h
  by_cases ha : a
  · simp [ha] at h
  · by_cases hb : b
    · simp [ha, hb] at h
    · exact ⟨ha, hb⟩

/-- A passing verdict leaves no failure, no incomplete finding and no gap. -/
theorem clean_of_verdict {stateFiles : RotatingFiles SessionState}
    {findingsFiles : RotatingFiles FindingsDoc} {incomplete : Option Bool}
    (h : (build stateFiles findingsFiles incomplete).2.2 = .pass ∨
      (build stateFiles findingsFiles incomplete).2.2 = .passWithWarnings) :
    (¬ (Store.filed findingsFiles).Has fun f => f.severity = .fail) ∧
      coverageGaps (stateFiles.readRotating.1.getD .missing)
        (Findings.load "findings.json" findingsFiles) = [] := by
  classical
  rw [build_verdict stateFiles findingsFiles incomplete Iff.rfl Iff.rfl Iff.rfl] at h
  obtain ⟨hfail, hlack⟩ := judge_pass_or_warnings h
  rw [not_or, not_or, not_not] at hlack
  exact ⟨hfail, coverageGaps_eq_nil.mpr ⟨hlack.2.1, hlack.2.2⟩⟩

/-- A machine that passes has been covered, whatever its session went through: only the options and
the plan are those it began with. -/
theorem no_false_acceptance {opts : Options} {plan : List PlanEntry}
    (hplan : buildPlan opts = .ok plan) (st : SessionState) (hoptions : st.options = some opts)
    (hkept : st.plan = plan) {stateFiles : RotatingFiles SessionState}
    (hstate : stateFiles.readRotating.1 = some st) (findingsFiles : RotatingFiles FindingsDoc)
    (incomplete : Option Bool)
    (hverdict : (build stateFiles findingsFiles incomplete).2.2 = .pass ∨
      (build stateFiles findingsFiles incomplete).2.2 = .passWithWarnings) :
    Accepted opts plan (build stateFiles findingsFiles incomplete).1
      (build stateFiles findingsFiles incomplete).2.1.items
      (writeReports stateFiles findingsFiles incomplete).2 := by
  obtain ⟨hfail, hgaps⟩ := clean_of_verdict hverdict
  obtain ⟨hlack, hnil⟩ := coverageGaps_eq_nil.mp hgaps
  obtain ⟨hcomplete, -, hphases, hskip, hscans, htests⟩ := stateGaps_eq_nil.mp hnil
  have hst : (build stateFiles findingsFiles incomplete).1 = st := by
    rw [build, hstate]
    rfl
  rw [hstate, Option.getD_some] at hcomplete hphases hskip hscans htests
  rw [hkept] at hphases
  rw [hoptions] at hskip
  obtain ⟨hstress, hpower⟩ := plan_of_no_skip hplan hskip
  rw [hst]
  refine ⟨hcomplete, hstress, hpower, fun p hp => phase_of_covered (hphases p hp), ?_, ?_, ?_, ?_,
    hgaps⟩
  · intro f hf
    have hget := Items.mem_toList_iff.mp hf
    refine ⟨fun hsev => hfail ⟨f.key, f, hget, hsev⟩, ?_⟩
    cases hinc : f.incomplete with
    | false => rfl
    | true => exact absurd ⟨f.key, f, hget, hinc⟩ hlack
  · exact fun ident scan hscan => hscans (ident, scan) (Dict.get?_eq_some_iff.mp hscan)
  · exact fun ident test htest => htests (ident, test) (Dict.get?_eq_some_iff.mp htest)
  · exact decide_eq_true hgaps

/-! ## A session that passes -/

def exampleMachine : Machine := ⟨"boot-1", "2026-01-01T00:00:00", 0⟩

def defaultPlan : List PlanEntry :=
  [⟨"inventory", 0⟩, ⟨"cpu", 5184⟩, ⟨"memory", 8640⟩, ⟨"mprime", 6048⟩, ⟨"ycruncher", 5184⟩,
    ⟨"transient", 5184⟩, ⟨"idle", 3456⟩, ⟨"combined", 9504⟩]

theorem buildPlan_default : buildPlan {} = .ok defaultPlan := by decide +kernel

def donePhases : Dict String PhaseState :=
  Dict.ofList (defaultPlan.map fun p => (p.name, { status := some .done }))

def doneState (status : SessionStatus) : SessionState :=
  { SessionState.fresh "20260101-000000_SN1" ⟨"0123456789ab", "SN1"⟩ {} defaultPlan
      exampleMachine with
    status := some status, phases := donePhases, diskScans := Dict.empty,
    selftests := Dict.empty }

/-- One disk has been scanned and tested. -/
def testedState : SessionState :=
  { doneState .running with
    diskScans := Dict.ofList [("S1",
      { name := "sda", model := "Disk", size := 100, offset := 100, done := true, mode := .read })],
    selftests := Dict.ofList [("S1", some .complete)],
    lastHeartbeat := some "2026-01-01T12:00:00" }

def finishedSession : SessionStore :=
  SessionStore.finish { mem := { state := testedState, seq := 7 }, files := RotatingFiles.empty }
    .complete "2026-01-02T00:00:00" []

theorem no_false_acceptance_done :
    Accepted {} defaultPlan (build finishedSession.files RotatingFiles.empty none).1
      (build finishedSession.files RotatingFiles.empty none).2.1.items
      (writeReports finishedSession.files RotatingFiles.empty none).2 :=
  no_false_acceptance buildPlan_default finishedSession.mem.state rfl rfl rfl RotatingFiles.empty
    none (Or.inl (by decide +kernel))

end Acceptance
end PcCheck
