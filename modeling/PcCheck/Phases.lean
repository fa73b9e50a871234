/-
The phases of a session over its boots (`run_phases`, `Context` and `main` of
`orchestrator.py`, `PowerCyclePhase.run` of `phases.py`).

The main thread is a program counter with the list of the phases still to come, and every
change it makes to the state in memory is an event of its own, followed by the event of the
save that writes it out.  The other threads save at any time, change the rest of the state
and ask for an abort in three steps.  A save may fail, a process may die and the machine may
reset between any two events, where the reset may tear the slot a save is writing.  What a
phase does is left to the environment: an event says that it returned, with the findings
filed under it, or that it raised.  The findings store is left out, and so are the waits.
-/
import PcCheck.Incident

namespace PcCheck

namespace SessionState

def statusOf (st : SessionState) (name : String) : Option PhaseStatus :=
  (st.phases.get? name).bind PhaseState.status

/-- `phase_state`, which enters a phase without a record as pending. -/
def phaseState (st : SessionState) (name : String) : SessionState × PhaseState :=
  ({ st with phases := st.phases.setDefault name { status := some .pending } },
    (st.phases.get? name).getD { status := some .pending })

end SessionState

namespace Phases

/-- The status of a phase that returned, from the findings filed under it. -/
def phaseStatus (aborted : Bool) (fs : List Finding) : PhaseStatus :=
  if aborted then .aborted
  else if fs.any fun f => f.incomplete then .error
  else if fs.any fun f => decide (f.severity = .fail) then .failed
  else if fs.any fun f => decide (f.severity = .warn) then .warn
  else .done

def phaseSummary (fs : List Finding) : String :=
  let fails := fs.countP fun f => decide (f.severity = .fail)
  let warns := fs.countP fun f => decide (f.severity = .warn)
  s!"{fails} fail, {warns} warn"

/-- Where the main thread is.  `chosen` is past the checks of `run_phases` and before
`set_phase`, and `saving` is inside a `save` whose change is in memory. -/
inductive Pc where
  | opened
  | ready
  | loop (rest : List PlanEntry)
  | waiting (q : PlanEntry) (rest : List PlanEntry)
  | waited (q : PlanEntry) (rest : List PlanEntry)
  | chosen (q : PlanEntry) (rest : List PlanEntry)
  | phase (q : PlanEntry) (rest : List PlanEntry)
  | requested (q : PlanEntry) (rest : List PlanEntry)
  | rebooting
  | finalizing
  | finished
  | saving (next : Pc)
  deriving DecidableEq

structure Process where
  session : Session
  opts : Options
  pc : Pc
  abortEvent : Bool := false
  rebootRequest : Option Int := none
  /-- The threads in `request_abort` that have not saved, and those that have. -/
  aborting : Nat := 0
  abortSaved : Nat := 0

namespace Process

variable (p : Process)

abbrev state : SessionState := p.session.state

def change (f : SessionState → SessionState) (pc : Pc) : Process :=
  { p with session := { p.session with state := f p.session.state }, pc := pc }

/-- `record_incident`, up to its last save. -/
def incident (now : String) : Process :=
  let s := p.session.noteIncident now
  match s.incidentPhase with
  | some (phase, given) =>
    { p with session := { s with state := s.state.setPhase phase given }
             pc := .saving (.saving .ready) }
  | none => { p with session := s, pc := .saving .ready }

/-- One turn of the loop of `run_phases`, up to `set_phase`. -/
def next : List PlanEntry → Process
  | [] => { p with pc := .finalizing }
  | q :: rest =>
    let (st, ps) := p.state.phaseState q.name
    if ps.status ≠ some .pending then p.change (fun _ => st) (.loop rest)
    else if p.abortEvent then p.change (fun _ => st) .finalizing
    else if p.opts.maxUnexpectedReboots ≤ st.unexpectedReboots then
      p.change (fun _ => st.setPhase q.name
        { status := some .skipped, result := some "too many unexpected reboots" })
        (.saving (.loop rest))
    else if q.name = "powercycle" ∧ st.diskTestsFinished = false then
      p.change (fun _ => st) (.waiting q rest)
    else p.change (fun _ => st) (.chosen q rest)

/-- `request_reboot` of `PowerCyclePhase.run`, where cycles are left to do. -/
def requestReboot (q : PlanEntry) (rest : List PlanEntry) (epoch : ℚ) (now : String) :
    Option Process :=
  let target := max 0 (min 50 p.opts.rebootCycles)
  let done := p.state.rebootCyclesDone.getD 0
  if q.name = "powercycle" ∧ done < target then
    some { p.change (fun st => { st with plannedReboot := some ⟨done + 1, epoch, now⟩ })
      (.saving (.requested q rest)) with rebootRequest := some (done + 1) }
  else none

/-- What `run_phases` makes of a phase that returned.  The cycles asked for count from 1, so
a request is never falsy. -/
def returns (q : PlanEntry) (rest : List PlanEntry) (fs : List Finding) (elapsed : Int)
    (now : String) : Process :=
  if p.rebootRequest.isSome then
    p.change (fun st => st.setPhase q.name { status := some .pending, elapsed := some elapsed })
      (.saving .rebooting)
  else
    p.change (fun st => st.setPhase q.name
      { status := some (phaseStatus p.abortEvent fs), elapsed := some elapsed,
        finished := some now, result := some (phaseSummary fs) }) (.saving (.loop rest))

def raises (q : PlanEntry) (rest : List PlanEntry) (text : String) (elapsed : Int) : Process :=
  p.change (fun st => st.setPhase q.name
    { status := some .error, elapsed := some elapsed, result := some (text.take 200).toString })
    (.saving (.loop rest))

/-- The last save of `finalize`. -/
def finish (now : String) : Process :=
  p.change (fun st => { st with
    status := some (if p.abortEvent then .aborted else .complete), finishedAt := some now })
    (.saving .finished)

end Process

/-- The rest of a state may change, what the phases and the boots of the session hang on
does not. -/
def keepPhases (old new : SessionState) : SessionState :=
  { new with
    status := old.status, identity := old.identity, options := old.options, boots := old.boots,
    unexpectedReboots := old.unexpectedReboots, plan := old.plan, phases := old.phases,
    plannedReboot := old.plannedReboot, rebootCyclesDone := old.rebootCyclesDone,
    abortReason := old.abortReason }

structure World where
  files : RotatingFiles SessionState
  machineId : String
  bootId : String
  past : List String
  proc : Option Process
  /-- The phases that went from pending to running in the state file, in their order. -/
  starts : List String
  /-- Some `request_abort` has returned. -/
  aborted : Bool

inductive Event where
  | start (loaded : Options) (now : String) (time : ℚ)
  | saved (outcomes : List Attempt)
  | incident (now : String)
  | begin
  | next
  | disksFinished
  | startPhase (now : String)
  | requestReboot (epoch : ℚ) (now : String)
  | returns (fs : List Finding) (elapsed : Int) (now : String)
  | raises (text : String) (elapsed : Int)
  | finish (now : String)
  | work (st : SessionState)
  | otherSave (outcomes : List Attempt)
  | abort (reason : String)
  | abortSaved (outcomes : List Attempt)
  | abortSet
  | die
  | reset (bootId : String) (torn : Option Nat)

namespace World

variable (w : World)

def disk : SessionState := w.files.readRotating.1.getD .missing

def store (p : Process) : SessionStore := { mem := p.session, files := w.files }

def live (p : Process) : World := { w with proc := some p }

/-- The phases a save starts. -/
def newStarts (old new : SessionState) : List String :=
  (new.plan.map PlanEntry.name).filter fun n =>
    decide (old.statusOf n = some .pending ∧ new.statusOf n = some .running)

/-- Save the state of the process. -/
def save (p : Process) (outcomes : List Attempt) : World :=
  let s := (w.store p).save outcomes
  let t := { w with files := s.files, proc := some { p with session := s.mem } }
  { t with starts := w.starts ++ newStarts w.disk t.disk }

/-- What a reset leaves of the files.  A save it cuts short is tearing the slot of its number
after so many failed attempts. -/
def leaves : Option Nat → RotatingFiles SessionState
  | none => w.files
  | some failed =>
    match w.proc with
    | some p => Register.tear w.files (Place.ofSeq (p.session.seq + failed + 1))
    | none => w.files

end World

/-- The steps of the main thread. -/
def mainStep (p : Process) : Event → Option Process
  | .incident now => if p.pc = .opened then some (p.incident now) else none
  | .begin => if p.pc = .ready then some { p with pc := .loop p.state.plan } else none
  | .next =>
    match p.pc with
    | .loop rest => some (p.next rest)
    | .waited q rest =>
      some (if p.abortEvent then { p with pc := .finalizing } else { p with pc := .chosen q rest })
    | _ => none
  | .disksFinished =>
    match p.pc with
    | .waiting q rest =>
      some (p.change (fun st => { st with diskTestsFinished := true }) (.saving (.waited q rest)))
    | _ => none
  | .startPhase now =>
    match p.pc with
    | .chosen q rest =>
      some (p.change (fun st => st.setPhase q.name
        { status := some .running, started := some now }) (.saving (.phase q rest)))
    | _ => none
  | .requestReboot epoch now =>
    match p.pc with
    | .phase q rest => p.requestReboot q rest epoch now
    | _ => none
  | .returns fs elapsed now =>
    match p.pc with
    | .phase q rest => some (p.returns q rest fs elapsed now)
    | .requested q rest => some (p.returns q rest fs elapsed now)
    | _ => none
  | .raises text elapsed =>
    match p.pc with
    | .phase q rest => some (p.raises q rest text elapsed)
    | _ => none
  | .finish now => if p.pc = .finalizing then some (p.finish now) else none
  | _ => none

/-- The steps of the other threads that leave the file alone. -/
def otherStep (p : Process) : Event → Option Process
  | .work st => some (p.change (fun old => keepPhases old st) p.pc)
  | .abort reason =>
    if p.abortEvent then some p
    else some { p.change (fun st => { st with abortReason := some reason }) p.pc with
      aborting := p.aborting + 1 }
  | _ => none

def act (w : World) (p : Process) : Event → Option World
  | .saved outcomes =>
    match p.pc with
    | .saving next => some (w.save { p with pc := next } outcomes)
    | _ => none
  | .otherSave outcomes => some (w.save p outcomes)
  | .abortSaved outcomes =>
    if p.aborting = 0 then none
    else
      some (w.save { p with aborting := p.aborting - 1, abortSaved := p.abortSaved + 1 } outcomes)
  | .abortSet =>
    if p.abortSaved = 0 then none
    else some { w.live { p with abortEvent := true, abortSaved := p.abortSaved - 1 } with
      aborted := true }
  | .work st => (otherStep p (.work st)).map w.live
  | .abort reason => (otherStep p (.abort reason)).map w.live
  | e => (mainStep p e).map w.live

def step (w : World) : Event → Option World
  | .start loaded now time =>
    match w.proc, SessionStore.findRunning w.files w.machineId with
    | none, some found =>
      let s := SessionStore.reopen w.files found ⟨w.bootId, now, time⟩
      some (w.live { session := s.mem, opts := found.1.options.getD loaded,
                     pc := .saving .opened })
    | _, _ => none
  | .die => some { w with proc := none }
  | .reset bootId torn =>
    if bootId = w.bootId ∨ bootId ∈ w.past then none
    else some { w with
      files := w.leaves torn, proc := none, bootId := bootId, past := w.bootId :: w.past }
  | e => w.proc.bind fun p => act w p e

def opened (name : String) (identity : Identity) (opts : Options) (plan : List PlanEntry)
    (m : Machine) (created : List Attempt) : World :=
  let s := SessionStore.create name identity opts plan m created
  { files := s.files, machineId := identity.machineId, bootId := m.bootId, past := [],
    starts := [], aborted := false,
    proc := some { session := s.mem, opts := opts, pc := .opened } }

end Phases

end PcCheck
