/-
What the orchestrator does about the way it was started (`orchestrator.py`).

`record_incident` turns the flags `_resume` set into an incident, a finding and the status
of the phase that was cut off.  Its three parts are separate definitions because each
ends in a write of its own.
-/
import PcCheck.Report

namespace PcCheck

/-- An optional value as an f-string prints it. -/
def printed (value : Option String) : String := value.getD "None"

namespace Session

def previous (s : Session) : PreviousState := s.previousState.getD ⟨none, Dict.empty, none⟩

def runningTitle (s : Session) : String :=
  match s.previous.runningPhase with
  | some phase => (titles.lookup phase).getD (if phase = "" then "unknown" else phase)
  | none => "unknown"

/-- The incident of an unexpected reboot, filed in the state. -/
def noteIncident (s : Session) (now : String) : Session :=
  if s.unexpectedReboot then
    { s with state := { s.state with incidents := s.state.incidents ++
      [{ type := "unexpected reboot", detectedAt := now, runningPhase := s.previous.runningPhase,
         lastHeartbeat := s.previous.lastHeartbeat, lastTelemetry := s.previous.telemetry }] } }
  else s

def resetKey (n : Nat) : String := s!"unexpected-reboot-{n}"

def incidentCall (s : Session) (now : String) : Option AddCall :=
  let reading := fun name => printed (s.previous.telemetry.get? name)
  let cpu := reading "cpu_temp"
  let drives := reading "drive_temp"
  let load := reading "load1"
  let phase := reading "phase"
  if s.unexpectedReboot then
    some
      { key := resetKey s.state.unexpectedReboots, severity := .fail, component := "System",
        title := s!"Machine reset unexpectedly during '{s.runningTitle}'"
        detail :=
          "The system rebooted or lost power while the test was running. This is exactly the " ++
          "failure seen in production. Correlate with the crash log (pstore), BMC events and " ++
          "the last telemetry below: high temperatures suggest cooling; heavy-load phases " ++
          "suggest PSU/VRM or CPU; idle/transient phases suggest power delivery or C-state " ++
          "problems; memory phases suggest DIMMs."
        recommendation :=
          "Check the PSU and power cabling, CPU/VRM cooling, reseat DIMMs/CPU, update BIOS; " ++
          "swap components one at a time and re-run the test."
        evidence :=
          [s!"last heartbeat {printed s.previous.lastHeartbeat} (up to 30 s before the reset)",
            s!"last telemetry: CPU {cpu}C, drives {drives}C, load {load}, phase {phase}"]
        phase := some (s.previous.runningPhase.getD "")
        now := now }
  else if s.plannedReboot then
    some
      { key := "powercycle-progress", severity := .info, component := "System",
        title :=
          s!"Resumed after planned reboot #{printed (s.state.rebootCyclesDone.map toString)}"
        now := now }
  else if s.orchestratorRestart then
    some
      { key := "orchestrator-restart", severity := .warn, component := "Test",
        title := "Test software restarted (not a hardware reboot)",
        evidence := [s!"during phase {printed s.previous.runningPhase}"], now := now }
  else none

/-- What `record_incident` makes of the phase that was running.  Nothing was stressed yet
in the inventory phase, so it is collected again. -/
def incidentPhase (s : Session) : Option (String × PhaseState) :=
  match s.previous.runningPhase with
  | none => none
  | some phase =>
    if phase = "" then none
    else if s.unexpectedReboot then
      if phase = "inventory" then some (phase, { status := some .pending })
      else some (phase, { status := some .interrupted, result := some "machine reset" })
    else if s.plannedReboot then none
    else if s.orchestratorRestart then
      if phase = "inventory" then some (phase, { status := some .pending })
      else some (phase, { status := some .error, result := some "orchestrator restarted" })
    else none

@[simp] theorem noteIncident_unexpectedReboots (s : Session) (now : String) :
    (s.noteIncident now).state.unexpectedReboots = s.state.unexpectedReboots := by
  unfold noteIncident; split <;> rfl

@[simp] theorem noteIncident_boots (s : Session) (now : String) :
    (s.noteIncident now).state.boots = s.state.boots := by
  unfold noteIncident; split <;> rfl

@[simp] theorem noteIncident_seq (s : Session) (now : String) :
    (s.noteIncident now).seq = s.seq := by
  unfold noteIncident; split <;> rfl

@[simp] theorem noteIncident_unexpectedReboot (s : Session) (now : String) :
    (s.noteIncident now).unexpectedReboot = s.unexpectedReboot := by
  unfold noteIncident; split <;> rfl

end Session

/-- The first two parts of `record_incident`: the incident and its finding. -/
def fileIncident (s : Session) (findings : Store) (now : String) (filed : Bool) :
    Session × Store :=
  let s := s.noteIncident now
  match s.incidentCall now with
  | some c => (s, findings.add c filed)
  | none => (s, findings)

def markPhase (s : SessionStore) (outcomes : List Attempt) : SessionStore :=
  match s.mem.incidentPhase with
  | some (phase, given) => s.setPhase phase given outcomes
  | none => s

def recordIncident (s : SessionStore) (findings : Store) (now : String) (filed : Bool)
    (marked saved : List Attempt) : SessionStore × Store :=
  let (mem, findings) := fileIncident s.mem findings now filed
  ((markPhase { s with mem := mem } marked).save saved, findings)

/-! ## What the parts leave alone -/

theorem fileIncident_session (s : Session) (findings : Store) (now : String) (filed : Bool) :
    (fileIncident s findings now filed).1 = s.noteIncident now := by
  rw [fileIncident]
  split <;> rfl

theorem fileIncident_sound {findings : Store} (h : findings.Sound) (s : Session) (now : String)
    (filed : Bool) : (fileIncident s findings now filed).2.Sound := by
  rw [fileIncident]
  split
  · exact h.add _ filed
  · exact h

theorem fileIncident_keeps {findings : Store} (h : findings.Sound) {k : String}
    (hk : (Store.filed findings.files).Fails k) (s : Session) (now : String) (filed : Bool) :
    (Store.filed (fileIncident s findings now filed).2.files).Fails k := by
  rw [fileIncident]
  split
  · exact Store.filed_fails_add h hk _ filed
  · exact hk

theorem markPhase_cases (s : SessionStore) (outcomes : List Attempt) :
    markPhase s outcomes = s ∨
      ∃ phase given, markPhase s outcomes = s.setPhase phase given outcomes := by
  rw [markPhase]
  split
  · exact Or.inr ⟨_, _, rfl⟩
  · exact Or.inl rfl

/-- An unexpected reboot is on file under its number once the finding is written. -/
theorem fileIncident_files {findings : Store} (h : findings.Sound) {s : Session}
    (hs : s.unexpectedReboot = true) (now : String) :
    (Store.filed (fileIncident s findings now true).2.files).Fails
      (Session.resetKey s.state.unexpectedReboots) := by
  have hs' : (s.noteIncident now).unexpectedReboot = true := by
    rw [Session.noteIncident_unexpectedReboot, hs]
  rw [fileIncident, Session.incidentCall, if_pos hs', Session.noteIncident_unexpectedReboots]
  exact Store.filed_fails_add_self h rfl

end PcCheck
