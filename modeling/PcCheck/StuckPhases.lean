/-
What is running once a session has been taken up again (`Session._resume` and
`record_incident`).

`record_incident` gives the phase that was cut off a status of its own after a reset and
after a restart on the same boot.  After a planned reboot it leaves the phases alone,
because `run_phases` has put the power cycles back to pending before it reboots.  The mark
of the planned reboot is in the file one save earlier, and a machine that goes down between
the two saves comes back with the mark and with the power cycles still running.
-/
import PcCheck.PhaseOrder

namespace PcCheck
namespace Phases

open EventMachine

/-- `_resume` on a session that was found, up to the end of its save. -/
def resumed (files : RotatingFiles SessionState) (found : SessionState × Int) (m : Machine)
    (outcomes : List Attempt) : SessionStore :=
  (SessionStore.reopen files found m).save outcomes

/-- No phase is running, and one that was has a status of its own. -/
structure Cleared (old new : SessionState) : Prop where
  none : ∀ n, new.statusOf n ≠ some .running
  marked : ∀ n, old.statusOf n = some .running →
    new.statusOf n ∈ [some .pending, some .interrupted, some .error]

/-- A reboot that was asked for cut a phase off, and the machine is past it. -/
def RebootedInPhase (st : SessionState) (bootId : String) : Prop :=
  st.runningPhase.isSome = true ∧ st.plannedReboot.isSome = true ∧ st.lastBoot ≠ some bootId

instance (st : SessionState) (bootId : String) : Decidable (RebootedInPhase st bootId) :=
  inferInstanceAs (Decidable (_ ∧ _))

/-- What `record_incident` makes of the memory is what the main thread does. -/
theorem recordIncident_state (s : SessionStore) (findings : Store) (now : String) (filed : Bool)
    (marked saved : List Attempt) {p : Process} (hp : p.session = s.mem) :
    (recordIncident s findings now filed marked saved).1.mem.state = (p.incident now).state := by
  have hsession := fileIncident_session s.mem findings now filed
  have hphase := (noteIncident_frame s.mem now).2.2
  rcases hfile : fileIncident s.mem findings now filed with ⟨mem, filings⟩
  rw [hfile] at hsession
  obtain rfl : mem = s.mem.noteIncident now := hsession
  simp only [recordIncident, hfile, markPhase, Process.incident, hp]
  cases hinc : (s.mem.noteIncident now).incidentPhase with
  | none =>
    obtain ⟨n, hmem⟩ := SessionStore.save_mem
      { s with mem := s.mem.noteIncident now } saved
    simp only [hmem]
  | some pair =>
    obtain ⟨n, hmem⟩ := SessionStore.update_mem { s with mem := s.mem.noteIncident now }
      (fun st => st.setPhase pair.1 pair.2) marked
    obtain ⟨n', hmem'⟩ := SessionStore.save_mem
      (({ s with mem := s.mem.noteIncident now } : SessionStore).update
        (fun st => st.setPhase pair.1 pair.2) marked) saved
    simp only [SessionStore.setPhase, hmem', hmem]

/-- The last save of `record_incident` leaves the memory in the file. -/
theorem readRotating_recordIncident {s : SessionStore} (h : s.Numbered) (findings : Store)
    (now : String) (filed : Bool) (marked : List Attempt) {saved : List Attempt}
    (hw : SessionStore.Written saved) :
    (recordIncident s findings now filed marked saved).1.files.readRotating.1 =
      some (recordIncident s findings now filed marked saved).1.mem.state := by
  have hsession := fileIncident_session s.mem findings now filed
  rcases hfile : fileIncident s.mem findings now filed with ⟨mem, filings⟩
  rw [hfile] at hsession
  obtain rfl : mem = s.mem.noteIncident now := hsession
  have hnum : (markPhase { s with mem := s.mem.noteIncident now } marked).Numbered := by
    have hnoted : ({ s with mem := s.mem.noteIncident now } : SessionStore).Numbered :=
      h.of_seq (s.mem.noteIncident_seq now) rfl
    rcases markPhase_cases { s with mem := s.mem.noteIncident now } marked with
      hsame | ⟨phase, given, hset⟩
    · rw [hsame]
      exact hnoted
    · rw [hset]
      exact hnoted.update _ marked
  obtain ⟨n, hmem⟩ := SessionStore.save_mem
    (markPhase { s with mem := s.mem.noteIncident now } marked) saved
  simp only [recordIncident, hfile]
  rw [SessionStore.readRotating_save hnum, if_pos hw, hmem]

section Sessions

variable {opts : Options} {names : List String} {found : SessionState × Int}

theorem resumed_mem (files : RotatingFiles SessionState) (found : SessionState × Int)
    (m : Machine) (outcomes : List Attempt) : ∃ n, (resumed files found m outcomes).mem =
      { Session.resume { state := found.1, seq := found.2 } m with seq := n } :=
  SessionStore.save_mem _ outcomes

/-- The phase that was running is given a status, unless the reboot was a planned one. -/
theorem incidentPhase_resume (hshape : Shape names found.1) (hplan : PlanShape names) {n : String}
    (hn : found.1.runningPhase = some n) (m : Machine) (seq : Int) :
    (Session.resume { state := found.1, seq := seq } m).incidentPhase.isSome = true ↔
      ¬ RebootedInPhase found.1 m.bootId := by
  have hne : n ≠ "" := fun heq =>
    hplan.named (heq ▸ hshape.mem_of_status (SessionState.statusOf_of_runningPhase hn))
  have hprev : (Session.resume { state := found.1, seq := seq } m).previous.runningPhase =
      some n := hn
  rw [incidentPhase_isSome hprev hne]
  unfold RebootedInPhase
  rw [hn]
  simp only [Session.resume, Bool.false_or, decide_eq_true_eq]
  unfold SessionState.cause
  by_cases hlast : found.1.lastBoot = some m.bootId
  · simp [hlast]
  · cases hplanned : found.1.plannedReboot <;> simp [hlast]

/-- With no phase running there is nothing to clear. -/
theorem cleared_of_no_running {p : Process} (hphases : p.state.phases = found.1.phases)
    (hinc : p.session.incidentPhase = none) (hrun : found.1.runningPhase = none) (now : String) :
    Cleared found.1 (p.incident now).state := by
  have hno := SessionState.statusOf_of_no_runningPhase hrun
  refine ⟨fun n hn => ?_, fun n hn => absurd hn (hno n)⟩
  rw [statusOf_incident_none hinc, SessionState.statusOf_congr hphases] at hn
  exact hno n hn

/-- The running phase is the one that is marked. -/
theorem cleared_of_marked (hshape : Shape names found.1) {p : Process}
    (hphases : p.state.phases = found.1.phases) {k : String} {given : PhaseState}
    (hk : found.1.statusOf k = some .running)
    (hinc : p.session.incidentPhase = some (k, given)) (now : String) :
    Cleared found.1 (p.incident now).state := by
  obtain ⟨v, hv, hmem, -⟩ := incidentPhase_status hinc
  have hnew : ∀ n, (p.incident now).state.statusOf n =
      if n = k then some v else found.1.statusOf n := by
    intro n
    rw [statusOf_incident_some hinc hv, SessionState.statusOf_congr hphases]
  refine ⟨fun n hn => ?_, fun n hn => ?_⟩
  · rw [hnew] at hn
    split at hn
    · rw [Option.some.inj hn] at hmem
      exact absurd hmem (by decide)
    · rename_i hne
      exact hne (hshape.running_unique hn hk)
  · rw [hnew, if_pos (hshape.running_unique hn hk)]
    exact List.mem_map_of_mem hmem

/-- Taking a session up again clears the running phase unless it was rebooted in it. -/
theorem cleared_iff (hplan : PlanShape names) (hshape : Shape names found.1) (m : Machine)
    {p : Process} {seq : Int}
    (hp : p.session = { Session.resume { state := found.1, seq := found.2 } m with seq := seq })
    (now : String) :
    Cleared found.1 (p.incident now).state ↔ ¬ RebootedInPhase found.1 m.bootId := by
  have hphases : p.state.phases = found.1.phases := by
    rw [Process.state, hp]
    exact found.1.resume_phases m
  have hinc : p.session.incidentPhase =
      (Session.resume { state := found.1, seq := found.2 } m).incidentPhase := by
    rw [hp]
    rfl
  cases hrun : found.1.runningPhase with
  | none =>
    have hnone : p.session.incidentPhase = none := by
      have hprev : p.session.previous.runningPhase = none := by rw [hp]; exact hrun
      rw [Session.incidentPhase, hprev]
    refine iff_of_true (cleared_of_no_running hphases hnone hrun now) fun hre => ?_
    rw [RebootedInPhase, hrun] at hre
    exact absurd hre.1 (by decide)
  | some k =>
    have hk := SessionState.statusOf_of_runningPhase hrun
    have hkey := incidentPhase_resume hshape hplan hrun m found.2
    rw [← hinc] at hkey
    cases hcase : p.session.incidentPhase with
    | none =>
      rw [hcase] at hkey
      refine iff_of_false (fun hclear => ?_) fun hre => absurd (hkey.mpr hre) (by decide)
      refine hclear.none k ?_
      rw [statusOf_incident_none hcase, SessionState.statusOf_congr hphases]
      exact hk
    | some pair =>
      obtain ⟨phase, given⟩ := pair
      have hphase : found.1.runningPhase = some phase :=
        (incidentPhase_eq_some (hinc.symm.trans hcase)).1
      obtain rfl : k = phase := Option.some.inj (hrun.symm.trans hphase)
      rw [hcase] at hkey
      exact iff_of_true (cleared_of_marked hshape hphases hk hcase now) (hkey.mp rfl)

end Sessions

/-- In every run, whatever becomes of its saves: taking the session up again from what the
file holds clears the running phase, in memory and in the file that is saved, exactly when
the machine has not been rebooted on purpose in the middle of a phase. -/
theorem cleared_iff_not_rebooted_in_phase {opts : Options} {plan : List PlanEntry}
    (hplan : buildPlan opts = .ok plan) (name : String) (identity : Identity) (start : Machine)
    (created : List Attempt) {es : List Event} {w : World}
    (hrun : run step (opened name identity opts plan start created) es = some w)
    {found : SessionState × Int}
    (hfound : SessionStore.findRunning w.files w.machineId = some found) (m : Machine)
    (findings : Store) (now : String) (filed : Bool) (resumes marked saved : List Attempt) :
    (Cleared found.1 (recordIncident (resumed w.files found m resumes) findings now filed marked
        saved).1.mem.state ↔ ¬ RebootedInPhase found.1 m.bootId) ∧
      (SessionStore.Written saved →
        (recordIncident (resumed w.files found m resumes) findings now filed marked
          saved).1.files.readRotating.1 =
        some (recordIncident (resumed w.files found m resumes) findings now filed marked
          saved).1.mem.state) := by
  have hshape := planShape_of_buildPlan hplan
  have hany : Along step (fun _ _ => True) (opened name identity opts plan start created) es :=
    along_of_forall fun _ _ _ => trivial
  have hsound : Sound opts (plan.map PlanEntry.name) w :=
    run_preserves_along (C := fun _ _ => True) (fun w e t h _ ht => sound_step hshape h ht)
      (sound_opened name identity opts plan start created) hany hrun
  obtain ⟨-, hfoundShape⟩ := sound_found hsound hfound
  obtain ⟨n, hmem⟩ := resumed_mem w.files found m resumes
  constructor
  · have hstate := recordIncident_state (resumed w.files found m resumes) findings now filed marked
      saved (p := ⟨(resumed w.files found m resumes).mem, opts, .opened, false, none, 0, 0⟩) rfl
    rw [hstate]
    exact cleared_iff hshape hfoundShape m hmem now
  · intro hw
    have hpair : found = (found.1, w.files.readRotating.2) := by
      rw [(SessionStore.findRunning_eq_some hfound).1]
    have hnum : (SessionStore.reopen w.files found m).Numbered := by
      rw [hpair]
      exact SessionStore.Numbered.reopen w.files found.1 m
    exact readRotating_recordIncident (hnum.save resumes) findings now filed marked hw

/-! ## A reset between the two saves of a planned reboot -/

/-- A plan of the inventory and one power cycle. -/
def cycleOpts : Options :=
  { rebootCycles := 1,
    skip := ["cpu", "memory", "mprime", "ycruncher", "transient", "idle", "combined"] }

def cyclePlan : List PlanEntry := [⟨"inventory", 0⟩, ⟨"powercycle", 0⟩]

theorem buildPlan_cycle : buildPlan cycleOpts = .ok cyclePlan := by decide +kernel

def cycleWorld : World :=
  opened "20260101-000000_SN1" ⟨"0123456789ab", "SN1"⟩ cycleOpts cyclePlan
    Acceptance.exampleMachine []

/-- The machine loses power in the inventory. -/
def cutInInventory : List Event :=
  [.incident "", .saved [], .begin, .next, .startPhase "", .saved [], .reset "boot-2" none]

/-- It loses power once the reboot has been asked for, while the power cycles still count as
running. -/
def cutInRequest : List Event :=
  [.incident "", .saved [], .begin, .next, .startPhase "", .saved [], .returns [] 30 "",
    .saved [], .next, .disksFinished, .saved [], .next, .startPhase "", .saved [],
    .requestReboot 0 "", .saved [], .reset "boot-2" none]

def bootTwo : Machine := ⟨"boot-2", "2026-01-01T12:00:00", 100⟩

def noFindings : Store := { mem := Findings.new, files := RotatingFiles.empty }

/-- What is in memory on the second boot once `record_incident` has returned. -/
def restarted (files : RotatingFiles SessionState) (found : SessionState × Int) : SessionStore :=
  (recordIncident (resumed files found bootTwo []) noFindings "" true [] []).1

theorem cleared_iff_cutInInventory :
    ∃ w, run step cycleWorld cutInInventory = some w ∧
      ∃ found, SessionStore.findRunning w.files w.machineId = some found ∧
        ((Cleared found.1 (restarted w.files found).mem.state ↔
            ¬ RebootedInPhase found.1 "boot-2") ∧
          (SessionStore.Written [] → (restarted w.files found).files.readRotating.1 =
            some (restarted w.files found).mem.state)) :=
  ⟨_, rfl, _, rfl, cleared_iff_not_rebooted_in_phase buildPlan_cycle "20260101-000000_SN1"
    ⟨"0123456789ab", "SN1"⟩ Acceptance.exampleMachine []
    (show run step _ cutInInventory = _ from rfl)
    rfl bootTwo noFindings "" true [] [] []⟩

theorem cutInRequest_run :
    ∃ w, run step cycleWorld cutInRequest = some w ∧
      ∃ found, SessionStore.findRunning w.files w.machineId = some found ∧
        (restarted w.files found).mem.state.statusOf "powercycle" = some .running :=
  ⟨_, rfl, _, rfl, by decide +kernel⟩

theorem stays_running_after_planned_reboot :
    ¬ ∀ (opts : Options) (plan : List PlanEntry), buildPlan opts = .ok plan →
      ∀ (name : String) (identity : Identity) (start : Machine) (created : List Attempt)
        (es : List Event) (w : World),
        run step (opened name identity opts plan start created) es = some w →
        ∀ found, SessionStore.findRunning w.files w.machineId = some found →
          ∀ (m : Machine) (findings : Store) (now : String) (filed : Bool)
            (resumes marked saved : List Attempt),
            Cleared found.1 (recordIncident (resumed w.files found m resumes) findings now filed
              marked saved).1.mem.state := by
  intro h
  obtain ⟨w, hrun, found, hfound, hstuck⟩ := cutInRequest_run
  exact (h _ _ buildPlan_cycle _ _ _ _ _ w hrun found hfound bootTwo noFindings "" true [] []
    []).none "powercycle" hstuck

end Phases
end PcCheck
