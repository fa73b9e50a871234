/-
The persisted session (`session.py`).

A `SessionState` is the dict that `Session.save` writes to the rotating state file, and
a key that may be missing from it is an `Option` field.  The hardware inventory, the
counters and baselines of the monitors and the keys that only the report text prints are
left out.  A `Session` is the object in memory and a `SessionStore` that object together
with its file.  The lock, the log lines and the directories are left out: a store is
about one session directory.
-/
import PcCheck.Config
import PcCheck.Rotating
import PcCheck.Lib.Dict
import Mathlib.Data.Rat.Floor

namespace PcCheck

inductive SessionStatus where
  | running
  | complete
  | aborted
  deriving DecidableEq, Repr

inductive PhaseStatus where
  | pending
  | running
  | done
  | warn
  | failed
  | error
  | aborted
  | interrupted
  | skipped
  deriving DecidableEq, Repr

def PhaseStatus.text : PhaseStatus → String
  | .pending => "pending"
  | .running => "running"
  | .done => "done"
  | .warn => "warn"
  | .failed => "failed"
  | .error => "error"
  | .aborted => "aborted"
  | .interrupted => "interrupted"
  | .skipped => "skipped"

structure PhaseState where
  status : Option PhaseStatus := none
  started : Option String := none
  finished : Option String := none
  elapsed : Option Int := none
  result : Option String := none
  deriving DecidableEq, Repr

/-- `dict.update` with the keys that are given. -/
def PhaseState.update (p given : PhaseState) : PhaseState :=
  { status := given.status.or p.status, started := given.started.or p.started,
    finished := given.finished.or p.finished, elapsed := given.elapsed.or p.elapsed,
    result := given.result.or p.result }

inductive ScanMode where
  | read
  | writeVerify
  deriving DecidableEq, Repr

structure ScanEntry where
  name : String
  model : String
  size : Nat
  offset : Nat
  done : Bool
  mode : ScanMode
  incomplete : Bool := false
  deriving DecidableEq, Repr

inductive SelftestStatus where
  | running
  | unavailable
  | complete
  | incomplete
  deriving DecidableEq, Repr

structure Identity where
  machineId : String
  displaySerial : String
  deriving DecidableEq, Repr

structure Boot where
  bootId : String
  startedAt : String
  reason : String
  deriving DecidableEq, Repr

/-- The heartbeat's readings by name, as they print. -/
abbrev Telemetry := Dict String String

structure Incident where
  type : String
  detectedAt : String
  runningPhase : Option String
  lastHeartbeat : Option String
  lastTelemetry : Telemetry

structure PlannedReboot where
  cycle : Int
  requestedEpoch : ℚ
  requestedAt : String
  deriving DecidableEq

structure SessionState where
  session : String
  identity : Identity
  status : Option SessionStatus := none
  options : Option Options := none
  startedAt : String := ""
  finishedAt : Option String := none
  boots : List Boot := []
  unexpectedReboots : Nat := 0
  incidents : List Incident := []
  plan : List PlanEntry := []
  phases : Dict String PhaseState := Dict.empty
  diskScans : Dict String ScanEntry := Dict.empty
  selftests : Dict String (Option SelftestStatus) := Dict.empty
  lastHeartbeat : Option String := none
  telemetry : Telemetry := Dict.empty
  plannedReboot : Option PlannedReboot := none
  rebootCyclesDone : Option Int := none
  lastRebootSeconds : Option Int := none
  destructiveDisks : Option (List String) := none
  destructiveIdentities : Option (Dict String Nat) := none
  diskTestsFinished : Bool := false
  abortReason : Option String := none

structure Machine where
  bootId : String
  now : String
  time : ℚ

structure PreviousState where
  lastHeartbeat : Option String
  telemetry : Telemetry
  runningPhase : Option String

structure Session where
  state : SessionState
  seq : Int := 0
  resumed : Bool := false
  unexpectedReboot : Bool := false
  orchestratorRestart : Bool := false
  plannedReboot : Bool := false
  previousState : Option PreviousState := none

namespace SessionState

/-- The state `Session.open` starts a session with. -/
def fresh (name : String) (identity : Identity) (opts : Options) (plan : List PlanEntry)
    (m : Machine) : SessionState :=
  { session := name, identity := identity, status := some .running, options := some opts,
    startedAt := m.now, boots := [⟨m.bootId, m.now, "start"⟩], plan := plan,
    phases := Dict.ofList (plan.map fun p => (p.name, { status := some .pending })),
    lastHeartbeat := some m.now }

def runningPhase (st : SessionState) : Option String :=
  (st.phases.entries.find? fun p => p.2.status = some .running).map Prod.fst

def lastBoot (st : SessionState) : Option String := st.boots.getLast?.map Boot.bootId

inductive Cause where
  | restart
  | planned (p : PlannedReboot)
  | unexpected
  deriving DecidableEq

/-- How `_resume` reads the state on a boot: the last boot again, a reboot that was asked
for, or a reset. -/
def cause (st : SessionState) (bootId : String) : Cause :=
  if st.lastBoot = some bootId then .restart
  else match st.plannedReboot with
    | some p => .planned p
    | none => .unexpected

/-- What `_resume` makes of the state before it saves it.  Clock readings subtract exactly,
and a request at epoch 0 counts as none. -/
def resume (st : SessionState) (m : Machine) : SessionState :=
  let st' := { st with plannedReboot := none }
  match st.cause m.bootId with
  | .restart => st'
  | .planned p =>
    { st' with
      rebootCyclesDone := some p.cycle
      lastRebootSeconds :=
        if p.requestedEpoch ≠ 0 then some (max 0 ⌊m.time - p.requestedEpoch⌋)
        else st.lastRebootSeconds
      boots := st.boots ++ [⟨m.bootId, m.now, s!"planned reboot #{p.cycle}"⟩] }
  | .unexpected =>
    { st' with
      unexpectedReboots := st.unexpectedReboots + 1
      boots := st.boots ++ [⟨m.bootId, m.now, "unexpected reboot"⟩] }

def setPhase (st : SessionState) (name : String) (given : PhaseState) : SessionState :=
  { st with phases := st.phases.set name (((st.phases.get? name).getD {}).update given) }

theorem resume_frame (st : SessionState) (m : Machine) :
    (st.resume m).status = st.status ∧ (st.resume m).identity = st.identity := by
  unfold resume
  cases st.cause m.bootId <;> exact ⟨rfl, rfl⟩

theorem cause_eq_unexpected {st : SessionState} {bootId : String} :
    st.cause bootId = .unexpected ↔ st.lastBoot ≠ some bootId ∧ st.plannedReboot = none := by
  unfold cause
  by_cases hlast : st.lastBoot = some bootId
  · simp [hlast]
  · cases hp : st.plannedReboot <;> simp [hlast]

theorem mem_boots_of_lastBoot {st : SessionState} {bootId : String}
    (h : st.lastBoot = some bootId) : ∃ b ∈ st.boots, b.bootId = bootId := by
  unfold lastBoot at h
  obtain ⟨b, hb, hid⟩ := Option.map_eq_some_iff.mp h
  exact ⟨b, List.mem_of_getLast? hb, hid⟩

/-- `_resume` counts a reset exactly when it takes the start for one. -/
theorem resume_unexpectedReboots (st : SessionState) (m : Machine) :
    (st.resume m).unexpectedReboots =
      if st.cause m.bootId = .unexpected then st.unexpectedReboots + 1
      else st.unexpectedReboots := by
  unfold resume
  cases st.cause m.bootId <;> rfl

theorem mem_boots_resume {st : SessionState} {m : Machine} {b : Boot}
    (h : b ∈ (st.resume m).boots) : b ∈ st.boots ∨ b.bootId = m.bootId := by
  have happend : ∀ reason, b ∈ st.boots ++ [⟨m.bootId, m.now, reason⟩] →
      b ∈ st.boots ∨ b.bootId = m.bootId := by
    intro reason hb
    rcases List.mem_append.mp hb with hb | hb
    · exact Or.inl hb
    · rw [List.mem_singleton] at hb
      exact Or.inr (by rw [hb])
  unfold resume at h
  cases hc : st.cause m.bootId with
  | restart => rw [hc] at h; exact Or.inl h
  | planned p => rw [hc] at h; exact happend _ h
  | unexpected => rw [hc] at h; exact happend _ h

@[simp] theorem setPhase_unexpectedReboots (st : SessionState) (name : String)
    (given : PhaseState) : (st.setPhase name given).unexpectedReboots = st.unexpectedReboots := rfl

end SessionState

namespace Session

def resume (s : Session) (m : Machine) : Session :=
  { s with
    state := s.state.resume m
    resumed := true
    orchestratorRestart := s.orchestratorRestart || decide (s.state.cause m.bootId = .restart)
    plannedReboot := s.plannedReboot || match s.state.cause m.bootId with
      | .planned _ => true
      | _ => false
    unexpectedReboot := s.unexpectedReboot || decide (s.state.cause m.bootId = .unexpected)
    previousState := some ⟨s.state.lastHeartbeat, s.state.telemetry, s.state.runningPhase⟩ }

end Session

/-! ## Saving -/

/-- How one attempt of `save` to write the state ends. -/
inductive Attempt where
  | written
  | runtimeError
  | osError
  deriving DecidableEq, Repr

structure SessionStore where
  mem : Session
  files : RotatingFiles SessionState

namespace SessionStore

/-- The loop of `save` with `n` attempts left.  An attempt the list says nothing about is
written. -/
def saveLoop : Nat → SessionStore → List Attempt → SessionStore
  | 0, s, _ => s
  | n + 1, s, outcomes =>
    let mem := { s.mem with seq := s.mem.seq + 1 }
    match outcomes.headD .written with
    | .written => { mem := mem, files := s.files.writeRotating mem.state mem.seq }
    | .runtimeError => saveLoop n { s with mem := mem } outcomes.tail
    | .osError => { s with mem := mem }

def save (s : SessionStore) (outcomes : List Attempt) : SessionStore := s.saveLoop 5 outcomes

/-- The number of attempts that fail before the write, or `none` when `save` gives up. -/
def retries : Nat → List Attempt → Option Nat
  | 0, _ => none
  | n + 1, outcomes =>
    match outcomes.headD .written with
    | .written => some 0
    | .runtimeError => (retries n outcomes.tail).map (· + 1)
    | .osError => none

def attempts : Nat → List Attempt → Nat
  | 0, _ => 0
  | n + 1, outcomes =>
    match outcomes.headD .written with
    | .written => 1
    | .runtimeError => attempts n outcomes.tail + 1
    | .osError => 1

def update (s : SessionStore) (f : SessionState → SessionState) (outcomes : List Attempt) :
    SessionStore :=
  save { s with mem := { s.mem with state := f s.mem.state } } outcomes

def setPhase (s : SessionStore) (name : String) (given : PhaseState) (outcomes : List Attempt) :
    SessionStore :=
  s.update (fun st => st.setPhase name given) outcomes

def finish (s : SessionStore) (status : SessionStatus) (now : String) (outcomes : List Attempt) :
    SessionStore :=
  s.update (fun st => { st with status := some status, finishedAt := some now }) outcomes

/-- The session in one directory, when it is unfinished and of this machine. -/
def findRunning (files : RotatingFiles SessionState) (machineId : String) :
    Option (SessionState × Int) :=
  match files.readRotating with
  | (some st, seq) =>
    if st.status = some .running ∧ st.identity.machineId = machineId then some (st, seq) else none
  | (none, _) => none

/-- `Session.open` on the unfinished session of this machine, before `_resume` saves. -/
def reopen (files : RotatingFiles SessionState) (found : SessionState × Int) (m : Machine) :
    SessionStore :=
  { mem := Session.resume { state := found.1, seq := found.2 } m, files := files }

def create (name : String) (identity : Identity) (opts : Options) (plan : List PlanEntry)
    (m : Machine) (outcomes : List Attempt) : SessionStore :=
  save { mem := { state := SessionState.fresh name identity opts plan m },
         files := RotatingFiles.empty } outcomes

/-! ## What a save does -/

theorem saveLoop_of_retries {n k : Nat} {s : SessionStore} {outcomes : List Attempt}
    (h : retries n outcomes = some k) :
    s.saveLoop n outcomes =
      { mem := { s.mem with seq := s.mem.seq + k + 1 },
        files := s.files.writeRotating s.mem.state (s.mem.seq + k + 1) } := by
  induction n generalizing s outcomes k with
  | zero => cases h
  | succ n ih =>
    simp only [retries] at h
    simp only [saveLoop]
    cases ho : outcomes.headD .written with
    | written =>
      rw [ho] at h
      obtain rfl : 0 = k := Option.some.inj h
      simp
    | runtimeError =>
      rw [ho] at h
      cases hr : retries n outcomes.tail with
      | none => rw [hr] at h; cases h
      | some j =>
        rw [hr] at h
        obtain rfl : j + 1 = k := Option.some.inj h
        have hsum : s.mem.seq + 1 + (j : Int) + 1 = s.mem.seq + ((j + 1 : Nat) : Int) + 1 := by
          push_cast
          omega
        simp only [ih hr, hsum]
    | osError => rw [ho] at h; cases h

theorem saveLoop_of_no_retries {n : Nat} {s : SessionStore} {outcomes : List Attempt}
    (h : retries n outcomes = none) :
    s.saveLoop n outcomes =
      { s with mem := { s.mem with seq := s.mem.seq + attempts n outcomes } } := by
  induction n generalizing s outcomes with
  | zero => simp [saveLoop, attempts]
  | succ n ih =>
    simp only [retries] at h
    simp only [saveLoop, attempts]
    cases ho : outcomes.headD .written with
    | written => rw [ho] at h; cases h
    | runtimeError =>
      rw [ho] at h
      have hr : retries n outcomes.tail = none := by
        cases hr : retries n outcomes.tail with
        | none => rfl
        | some j => rw [hr] at h; cases h
      have hsum : s.mem.seq + 1 + (attempts n outcomes.tail : Int) =
          s.mem.seq + ((attempts n outcomes.tail + 1 : Nat) : Int) := by
        push_cast
        omega
      simp only [ih hr, hsum]
    | osError => simp

/-- A save changes nothing of the session but its number. -/
theorem save_mem (s : SessionStore) (outcomes : List Attempt) :
    ∃ n, (s.save outcomes).mem = { s.mem with seq := n } := by
  rw [save]
  cases hr : retries 5 outcomes with
  | none => exact ⟨_, by rw [saveLoop_of_no_retries hr]⟩
  | some k => exact ⟨_, by rw [saveLoop_of_retries hr]⟩

theorem update_mem (s : SessionStore) (f : SessionState → SessionState)
    (outcomes : List Attempt) :
    ∃ n, (s.update f outcomes).mem = { s.mem with state := f s.mem.state, seq := n } :=
  save_mem _ outcomes

theorem findRunning_eq_some {files : RotatingFiles SessionState} {machineId : String}
    {found : SessionState × Int} (h : findRunning files machineId = some found) :
    files.readRotating = (some found.1, found.2) ∧ found.1.status = some .running := by
  unfold findRunning at h
  rcases hread : files.readRotating with ⟨st, seq⟩
  rw [hread] at h
  cases st with
  | none => cases h
  | some st =>
    by_cases hst : st.status = some .running ∧ st.identity.machineId = machineId
    · simp only [hst, and_self, if_true, Option.some.injEq] at h
      subst h
      exact ⟨rfl, hst.1⟩
    · simp only [hst, if_false, reduceCtorEq] at h

def Written (outcomes : List Attempt) : Prop := (retries 5 outcomes).isSome = true

instance (outcomes : List Attempt) : Decidable (Written outcomes) :=
  inferInstanceAs (Decidable (_ = true))

/-- The number of the next write is above every file on the stick. -/
structure Numbered (s : SessionStore) : Prop where
  seq : -1 ≤ s.mem.seq
  fresh : Register.Below s.files (s.mem.seq + 1)

theorem Numbered.of_seq {s t : SessionStore} (h : s.Numbered) (hseq : t.mem.seq = s.mem.seq)
    (hfiles : t.files = s.files) : t.Numbered := by
  refine ⟨?_, ?_⟩
  · rw [hseq]
    exact h.seq
  · rw [hseq, hfiles]
    exact h.fresh

theorem Numbered.create (st : SessionState) :
    Numbered { mem := { state := st }, files := RotatingFiles.empty } :=
  ⟨by show (-1 : Int) ≤ 0; omega, fun _ _ h => nomatch h⟩

theorem Numbered.reopen (files : RotatingFiles SessionState) (st : SessionState) (m : Machine) :
    (reopen files (st, files.readRotating.2) m).Numbered :=
  ⟨RotatingFiles.neg_one_le_readRotating files, RotatingFiles.below_succ_readRotating files⟩

theorem below_write {files : RotatingFiles SessionState} {n : Int}
    (h : Register.Below files n) (st : SessionState) :
    Register.Below (files.writeRotating st n) (n + 1) := by
  have hhold : Register.Holds Place.ofSeq (files.writeRotating st n) ⟨st, n⟩ :=
    Register.Holds.put_of_below h
  exact hhold.below_of_lt (by show n < n + 1; omega)

theorem below_mono {files : RotatingFiles SessionState} {m n : Int} (h : Register.Below files m)
    (hmn : m ≤ n) : Register.Below files n :=
  fun p d hd => lt_of_lt_of_le (h p d hd) hmn

theorem Numbered.save {s : SessionStore} (h : s.Numbered) (outcomes : List Attempt) :
    (s.save outcomes).Numbered := by
  have hseq := h.seq
  rw [SessionStore.save]
  cases hr : retries 5 outcomes with
  | none =>
    rw [saveLoop_of_no_retries hr]
    refine ⟨?_, below_mono h.fresh ?_⟩
    · show -1 ≤ s.mem.seq + (attempts 5 outcomes : Int)
      omega
    · show s.mem.seq + 1 ≤ s.mem.seq + (attempts 5 outcomes : Int) + 1
      omega
  | some k =>
    rw [saveLoop_of_retries hr]
    refine ⟨?_, below_write (below_mono h.fresh ?_) _⟩
    · show -1 ≤ s.mem.seq + (k : Int) + 1
      omega
    · omega

/-- After a save, the file holds the state in memory if the save was written and is
unchanged otherwise. -/
theorem readRotating_save {s : SessionStore} (h : s.Numbered) (outcomes : List Attempt) :
    (s.save outcomes).files.readRotating.1 =
      if Written outcomes then some s.mem.state else s.files.readRotating.1 := by
  have hseq := h.seq
  cases hr : retries 5 outcomes with
  | none =>
    have hw : ¬ Written outcomes := by simp [Written, hr]
    rw [if_neg hw, save, saveLoop_of_no_retries hr]
  | some k =>
    have hw : Written outcomes := by simp [Written, hr]
    rw [if_pos hw, save, saveLoop_of_retries hr]
    show (RotatingFiles.readRotating (s.files.writeRotating s.mem.state _)).1 = _
    rw [RotatingFiles.readRotating_writeRotating (below_mono h.fresh (by omega)) (by omega)]

theorem Numbered.update {s : SessionStore} (h : s.Numbered) (f : SessionState → SessionState)
    (outcomes : List Attempt) : (s.update f outcomes).Numbered := by
  have hnum : Numbered { s with mem := { s.mem with state := f s.mem.state } } := h.of_seq rfl rfl
  exact hnum.save outcomes

theorem written_nil : Written [] := rfl

theorem readRotating_update {s : SessionStore} (h : s.Numbered)
    (f : SessionState → SessionState) :
    (s.update f []).files.readRotating.1 = some (f s.mem.state) := by
  have hnum : Numbered { s with mem := { s.mem with state := f s.mem.state } } := h.of_seq rfl rfl
  rw [SessionStore.update, readRotating_save hnum, if_pos written_nil]

end SessionStore

end PcCheck
