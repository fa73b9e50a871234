/-
The final report (`report.py`).

`coverage_gaps` lists what the run did not cover, `build` reads both files of a session
back and judges them, and `write_reports` writes the result.  The report carries what the
run learned; its text and HTML renderings, and the inventory and telemetry they print,
are left out.
-/
import PcCheck.Session
import PcCheck.Store

namespace PcCheck

def titles : List (String × String) :=
  [("inventory", "Inventory & pre-checks"),
    ("cpu", "CPU stress (stress-ng, verified)"),
    ("memory", "Memory stress (stressapptest + stress-ng)"),
    ("mprime", "Prime95 torture test (FFT verification)"),
    ("ycruncher", "y-cruncher (verified CPU/cache/memory transforms)"),
    ("transient", "Load transients (PSU/VRM stress)"),
    ("idle", "Idle soak (deep C-states)"),
    ("combined", "Combined max load (CPU+RAM+disks)"),
    ("powercycle", "Reboot / power-cycle stability"),
    ("final", "Final analysis & report")]

namespace SessionState

/-- The empty dict, read where there is no state file. -/
def missing : SessionState := { session := "", identity := ⟨"", ""⟩ }

def phaseStatus (st : SessionState) (name : String) : PhaseStatus :=
  ((st.phases.get? name).bind PhaseState.status).getD .pending

end SessionState

def PhaseStatus.covered (s : PhaseStatus) : Bool := decide (s ∈ [.done, .warn, .failed])

/-- The part of `coverage_gaps` that reads the session. -/
def stateGaps (st : SessionState) : List String :=
  (if st.status ≠ some .complete then ["Session has not completed"] else []) ++
  (if st.plan = [] then ["Test plan is unavailable"] else []) ++
  ((st.plan.filter fun p => !(st.phaseStatus p.name).covered).map fun p =>
    s!"Phase {p.name}: {(st.phaseStatus p.name).text}") ++
  (((st.options.map Options.skip).getD []).map fun name =>
    s!"Phase deliberately omitted: {name}") ++
  ((st.diskScans.entries.filter fun e => !e.2.done).map fun e =>
    s!"Disk scan incomplete: {e.1}") ++
  ((st.selftests.entries.filter fun e => e.2 ≠ some .complete).map fun e =>
    s!"Drive self-test incomplete: {e.1}")

def coverageGaps (st : SessionState) (fs : Findings) : List String :=
  Dict.fromKeys
    (((fs.all.filter fun f => f.incomplete).map fun f => f.title) ++ stateGaps st)

def build (stateFiles : RotatingFiles SessionState) (findingsFiles : RotatingFiles FindingsDoc)
    (incomplete : Option Bool) : SessionState × Findings × Verdict :=
  let st := stateFiles.readRotating.1.getD .missing
  let fs := Findings.load "findings.json" findingsFiles
  (st, fs, verdict fs (incomplete.getD false || decide (coverageGaps st fs ≠ [])))

structure PhaseRow where
  name : String
  title : String
  planned : Int
  status : PhaseStatus
  elapsed : Int
  started : String
  result : String

def phaseRows (st : SessionState) : List PhaseRow :=
  st.plan.map fun p =>
    let ps := (st.phases.get? p.name).getD {}
    { name := p.name, title := (titles.lookup p.name).getD p.name, planned := p.duration,
      status := ps.status.getD .pending, elapsed := ps.elapsed.getD 0,
      started := ps.started.getD "", result := ps.result.getD "" }

structure ReportJson where
  generator : String
  verdict : Verdict
  session : String
  identity : Identity
  startedAt : String
  finishedAt : Option String
  unexpectedReboots : Nat
  incidents : List Incident
  phases : List PhaseRow
  findings : List Finding
  coverageComplete : Bool
  coverageGaps : List String
  diskScans : Dict String ScanEntry
  selftests : Dict String (Option SelftestStatus)
  options : Option Options

/-- `write_reports`: the verdict it returns and the `report.json` it writes. -/
def writeReports (stateFiles : RotatingFiles SessionState)
    (findingsFiles : RotatingFiles FindingsDoc) (incomplete : Option Bool) :
    Verdict × ReportJson :=
  let (st, fs, result) := build stateFiles findingsFiles incomplete
  (result,
    { generator := "Master da Web PC-Check 1.0.0", verdict := result, session := st.session,
      identity := st.identity, startedAt := st.startedAt, finishedAt := st.finishedAt,
      unexpectedReboots := st.unexpectedReboots, incidents := st.incidents,
      phases := phaseRows st, findings := fs.all,
      coverageComplete := decide (coverageGaps st fs = []),
      coverageGaps := coverageGaps st fs, diskScans := st.diskScans,
      selftests := st.selftests, options := st.options })

/-! ## What an empty list of gaps says -/

@[simp] theorem writeReports_fst (stateFiles : RotatingFiles SessionState)
    (findingsFiles : RotatingFiles FindingsDoc) (incomplete : Option Bool) :
    (writeReports stateFiles findingsFiles incomplete).1 =
      (build stateFiles findingsFiles incomplete).2.2 := rfl

theorem stateGaps_eq_nil {st : SessionState} :
    stateGaps st = [] ↔ st.status = some .complete ∧ st.plan ≠ [] ∧
      (∀ p ∈ st.plan, (st.phaseStatus p.name).covered = true) ∧
      (st.options.map Options.skip).getD [] = [] ∧
      (∀ e ∈ st.diskScans.entries, e.2.done = true) ∧
      ∀ e ∈ st.selftests.entries, e.2 = some .complete := by
  simp only [stateGaps, List.append_eq_nil_iff, List.map_eq_nil_iff, List.filter_eq_nil_iff,
    ite_eq_right_iff, List.cons_ne_nil, imp_false, not_not, Bool.not_eq_true', decide_eq_true_eq,
    Bool.not_eq_false, and_assoc, ne_eq]

theorem coverageGaps_eq_nil {st : SessionState} {fs : Findings} :
    coverageGaps st fs = [] ↔
      (¬ fs.items.Has fun f => f.incomplete = true) ∧ stateGaps st = [] := by
  rw [coverageGaps, Dict.fromKeys_eq_nil, List.append_eq_nil_iff, List.map_eq_nil_iff,
    List.filter_eq_nil_iff, Items.has_iff_mem]
  simp only [Findings.mem_all, not_exists, not_and]

/-- The verdict of a session directory as three questions. -/
theorem build_verdict (stateFiles : RotatingFiles SessionState)
    (findingsFiles : RotatingFiles FindingsDoc) (incomplete : Option Bool) {a b c : Prop}
    [Decidable a] [Decidable b] [Decidable c]
    (ha : ((Store.filed findingsFiles).Has fun f => f.severity = .fail) ↔ a)
    (hb : (incomplete = some true ∨ ((Store.filed findingsFiles).Has fun f => f.incomplete = true) ∨
      stateGaps (stateFiles.readRotating.1.getD .missing) ≠ []) ↔ b)
    (hc : ((Store.filed findingsFiles).Has fun f => f.severity = .warn) ↔ c) :
    (build stateFiles findingsFiles incomplete).2.2 = judge a b c := by
  refine verdict_eq_judge _ _ ha (Iff.trans ?_ hb) hc
  have hgaps : coverageGaps (stateFiles.readRotating.1.getD .missing)
      (Findings.load "findings.json" findingsFiles) ≠ [] ↔
      ((Store.filed findingsFiles).Has fun f => f.incomplete = true) ∨
        stateGaps (stateFiles.readRotating.1.getD .missing) ≠ [] := by
    rw [Ne, coverageGaps_eq_nil, not_and_or, not_not, Store.load_items]
  have hflag : incomplete.getD false = true ↔ incomplete = some true := by
    cases incomplete with
    | none => simp
    | some i => rw [Option.getD_some, Option.some.injEq]
  rw [Bool.or_eq_true, decide_eq_true_eq, hgaps, hflag, Store.load_items]
  constructor
  · intro hor
    rcases hor with hlack | hinc
    · exact hlack
    · exact Or.inr (Or.inl hinc)
  · exact Or.inl

end PcCheck
