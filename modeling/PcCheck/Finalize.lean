/-
The last writes of a run.

`finalize` flushes the findings, finishes the session and judges the machine from what
it reads back, and both writers swallow an `OSError`.  The verdict is then at most the
one of the findings in memory exactly when the flush is written or the stick already
holds as much against the machine.
-/
import PcCheck.Acceptance

namespace PcCheck

/-- A running program with its two files, each numbered above what is on the stick. -/
structure Context where
  session : SessionStore
  findings : Store
  sessionNumbered : session.Numbered
  findingsNumbered : findings.Numbered

namespace Context

/-- A process that has taken up a session and loaded its findings. -/
def resumed (stateFiles : RotatingFiles SessionState) (st : SessionState) (m : Machine)
    (findingsFiles : RotatingFiles FindingsDoc) : Context where
  session := SessionStore.reopen stateFiles (st, stateFiles.readRotating.2) m
  findings := Store.load "findings.json" findingsFiles
  sessionNumbered := SessionStore.Numbered.reopen stateFiles st m
  findingsNumbered := (Store.Sound.load "findings.json" findingsFiles).toNumbered

def update (c : Context) (f : SessionState → SessionState) (outcomes : List Attempt) : Context where
  session := c.session.update f outcomes
  findings := c.findings
  sessionNumbered := c.sessionNumbered.update f outcomes
  findingsNumbered := c.findingsNumbered

def add (c : Context) (call : AddCall) (ok : Bool) : Context where
  session := c.session
  findings := c.findings.add call ok
  sessionNumbered := c.sessionNumbered
  findingsNumbered := c.findingsNumbered.add call ok

/-- The persistence steps of `finalize`: the forced flush, then `Session.finish`. -/
def persist (c : Context) (aborted flushed : Bool) (outcomes : List Attempt) (now : String) :
    SessionStore × Store :=
  (c.session.finish (if aborted then .aborted else .complete) now outcomes,
    c.findings.flush true flushed)

def finalize (c : Context) (aborted flushed : Bool) (outcomes : List Attempt) (now : String) :
    Verdict × ReportJson :=
  let (session, findings) := c.persist aborted flushed outcomes now
  writeReports session.files findings.files (some aborted)

/-- The state on the stick once `finish` is through: the finished one, or the one already
there when the save fails. -/
def leftState (c : Context) (aborted : Bool) (outcomes : List Attempt) (now : String) :
    SessionState :=
  if SessionStore.Written outcomes then
    { c.session.mem.state with
      status := some (if aborted then .aborted else .complete), finishedAt := some now }
  else c.session.files.readRotating.1.getD .missing

/-- The stick lacks a part: the run was aborted, or a finding on file or the state that is
left says so. -/
def StickLacks (c : Context) (aborted : Bool) (outcomes : List Attempt) (now : String) : Prop :=
  aborted = true ∨ ((Store.filed c.findings.files).Has fun f => f.incomplete = true) ∨
    stateGaps (c.leftState aborted outcomes now) ≠ []

/-- The stick holds as much against the machine as the findings in memory do. -/
structure StickKnows (c : Context) (aborted : Bool) (outcomes : List Attempt) (now : String) :
    Prop where
  fails : (c.findings.mem.items.Has fun f => f.severity = .fail) →
    (Store.filed c.findings.files).Has fun f => f.severity = .fail
  lacks : (aborted = true ∨ c.findings.mem.items.Has fun f => f.incomplete = true) →
    ((Store.filed c.findings.files).Has fun f => f.severity = .fail) ∨
      c.StickLacks aborted outcomes now
  warns : (c.findings.mem.items.Has fun f => f.severity = .warn) →
    ((Store.filed c.findings.files).Has fun f => f.severity = .fail) ∨
      c.StickLacks aborted outcomes now ∨
      (Store.filed c.findings.files).Has fun f => f.severity = .warn

/-! ## What the report reads -/

theorem filed_flush (c : Context) (flushed : Bool) :
    Store.filed (c.findings.flush true flushed).files =
      if flushed = true then c.findings.mem.items else Store.filed c.findings.files := by
  rw [Store.flush_of_path c.findingsNumbered.path (Or.inr rfl)]
  cases flushed with
  | true =>
    rw [if_pos rfl]
    exact Store.filed_write c.findingsNumbered
  | false => rfl

theorem readRotating_finish (c : Context) (aborted : Bool) (outcomes : List Attempt)
    (now : String) :
    ((c.session.finish (if aborted then .aborted else .complete) now
      outcomes).files).readRotating.1.getD
      .missing = c.leftState aborted outcomes now := by
  rw [SessionStore.finish, SessionStore.update, SessionStore.readRotating_save, leftState]
  · split <;> rfl
  · exact ⟨c.sessionNumbered.seq, c.sessionNumbered.fresh⟩

/-- The verdict `finalize` returns never forgets what the run knew exactly when the flush
is written or the stick knows as much already. -/
theorem finalize_le_iff (c : Context) (aborted flushed : Bool) (outcomes : List Attempt)
    (now : String) :
    (c.finalize aborted flushed outcomes now).1 ≤ verdict c.findings.mem aborted ↔
      flushed = true ∨ c.StickKnows aborted outcomes now := by
  classical
  have hmem := verdict_eq_judge c.findings.mem aborted Iff.rfl Iff.rfl Iff.rfl
  have hread := c.readRotating_finish aborted outcomes now
  have hflush := c.filed_flush flushed
  have hfile : (c.finalize aborted flushed outcomes now).1 =
      judge
        ((if flushed = true then c.findings.mem.items else Store.filed c.findings.files).Has
          fun f => f.severity = .fail)
        (aborted = true ∨
          ((if flushed = true then c.findings.mem.items else Store.filed c.findings.files).Has
            fun f => f.incomplete = true) ∨ stateGaps (c.leftState aborted outcomes now) ≠ [])
        ((if flushed = true then c.findings.mem.items else Store.filed c.findings.files).Has
          fun f => f.severity = .warn) := by
    rw [finalize, persist, writeReports_fst]
    exact build_verdict _ _ _ (by rw [hflush]) (by rw [hflush, hread, Option.some.injEq])
      (by rw [hflush])
  rw [hfile, hmem, judge_le_iff]
  cases flushed with
  | true =>
    simp only [if_true, true_or, iff_true]
    refine ⟨id, fun hlack => Or.inr ?_, fun hwarn => Or.inr (Or.inr hwarn)⟩
    rcases hlack with habort | hinc
    · exact Or.inl habort
    · exact Or.inr (Or.inl hinc)
  | false =>
    simp only [Bool.false_eq_true, if_false, false_or]
    constructor
    · intro h
      exact ⟨h.1, h.2.1, h.2.2⟩
    · intro h
      exact ⟨h.fails, h.lacks, h.warns⟩

/-! ## A failed flush and a successful save -/

/-- The last phase of a session is done, and then the kernel reports a memory error while
the stick refuses the write. -/
def lostError : Context :=
  (resumed (RotatingFiles.empty.writeRotating (Acceptance.doneState .running) 1)
    (Acceptance.doneState .running) Acceptance.exampleMachine RotatingFiles.empty).add
    { key := "memory-ue:DIMM_A1", severity := .fail, component := "Memory",
      title := "Uncorrected memory error" } false

/-- The second flush fails as well and the report passes the machine. -/
theorem finalize_forgets_failure :
    ¬ ∀ (c : Context) (aborted flushed : Bool) (outcomes : List Attempt) (now : String),
      (c.finalize aborted flushed outcomes now).1 ≤ verdict c.findings.mem aborted := by
  intro h
  have hle := h lostError false false [.written] "2026-01-01T12:00:00"
  exact absurd hle (by decide +kernel)

end Context
end PcCheck
