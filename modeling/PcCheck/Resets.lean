/-
Unexpected resets over the boots of a session.

`_resume` counts a reset in the state file and `record_incident` files its finding in the
findings file, and the process can end between the two writes.  The next process on
the same boot then takes itself for a restart, and the finding is never filed.  An event
here is one durable write of the orchestrator, a call on the findings by one of its threads, a
change of its memory, or the end of its process; every write completes unless the process ends
before it.  In the runs where no process ends between counting a reset and filing it, each
reset counted is on file.
-/
import PcCheck.Incident
import PcCheck.Acceptance
import PcCheck.Lib.EventMachine

namespace PcCheck
namespace Resets

open EventMachine
open Session (resetKey)

/-- How far `main` has come: the session taken up, saved, the findings loaded, the
incident filed. -/
inductive Stage where
  | resuming
  | opened
  | loaded
  | running
  deriving DecidableEq

structure Process where
  session : Session
  findings : Findings
  stage : Stage

structure World where
  stateFiles : RotatingFiles SessionState
  findingsFiles : RotatingFiles FindingsDoc
  machineId : String
  bootId : String
  past : List String
  proc : Option Process
  /-- Some start was on a new boot without a `planned_reboot` record. -/
  sawReset : Bool

inductive Event where
  | start (now : String) (time : ℚ)
  | saveResume
  | loadFindings
  | incident (now : String)
  | markPhase
  /-- A call of a monitor's thread, or of the main one. -/
  | add (c : AddCall)
  | escalate (c : EscalateCall)
  | flush (force : Bool)
  /-- Every other change of the session: phases, disks, telemetry. -/
  | work (st : SessionState)
  | save
  | requestReboot (r : PlannedReboot)
  | finish (aborted : Bool) (now : String)
  | die
  | reset (bootId : String)

namespace World

variable (w : World)

def disk : SessionState := w.stateFiles.readRotating.1.getD .missing

def filed : Items := Store.filed w.findingsFiles

def session (p : Process) : SessionStore := { mem := p.session, files := w.stateFiles }

def store (p : Process) : Store := { mem := p.findings, files := w.findingsFiles }

def put (p : Process) (s : SessionStore) (f : Store) : World :=
  { w with
    stateFiles := s.files, findingsFiles := f.files,
    proc := some { p with session := s.mem, findings := f.mem } }

/-- Let the process act at one of the stages. -/
def act (stages : List Stage) (f : Process → World) : Option World :=
  match w.proc with
  | none => none
  | some p => if p.stage ∈ stages then some (f p) else none

theorem act_eq_some {w t : World} {stages : List Stage} {f : Process → World} :
    w.act stages f = some t ↔ ∃ p, w.proc = some p ∧ p.stage ∈ stages ∧ f p = t := by
  unfold act
  cases hp : w.proc with
  | none => simp
  | some p => by_cases hs : p.stage ∈ stages <;> simp [hs]

end World

/-- The rest of a state may change, the keys that follow the session's boots do not. -/
def keepBoots (old new : SessionState) : SessionState :=
  { new with
    status := old.status, boots := old.boots, unexpectedReboots := old.unexpectedReboots,
    plannedReboot := old.plannedReboot, identity := old.identity }

def step (w : World) : Event → Option World
  | .start now time =>
    match w.proc, SessionStore.findRunning w.stateFiles w.machineId with
    | none, some found =>
      let s := SessionStore.reopen w.stateFiles found ⟨w.bootId, now, time⟩
      some { w with
        proc := some { session := s.mem, findings := Findings.new, stage := .resuming }
        sawReset := w.sawReset ||
          decide (found.1.lastBoot ≠ some w.bootId ∧ found.1.plannedReboot = none) }
    | _, _ => none
  | .saveResume => w.act [.resuming] fun p =>
      w.put { p with stage := .opened } ((w.session p).save []) (w.store p)
  | .loadFindings => w.act [.opened] fun p =>
      w.put { p with stage := .loaded } (w.session p) (Store.load "findings.json" w.findingsFiles)
  | .incident now => w.act [.loaded] fun p =>
      let (mem, f) := fileIncident p.session (w.store p) now true
      w.put { p with stage := .running } { w.session p with mem := mem } f
  | .markPhase => w.act [.running] fun p => w.put p (PcCheck.markPhase (w.session p) []) (w.store p)
  | .add c => w.act [.loaded, .running] fun p => w.put p (w.session p) ((w.store p).add c true)
  | .escalate c => w.act [.loaded, .running] fun p =>
      w.put p (w.session p) ((w.store p).escalate c true)
  | .flush force => w.act [.loaded, .running] fun p =>
      w.put p (w.session p) ((w.store p).flush force true)
  | .work st => w.act [.running] fun p =>
      w.put p { w.session p with mem := { p.session with state := keepBoots p.session.state st } }
        (w.store p)
  | .save => w.act [.running] fun p => w.put p ((w.session p).save []) (w.store p)
  | .requestReboot r => w.act [.running] fun p =>
      w.put p ((w.session p).update (fun st => { st with plannedReboot := some r }) []) (w.store p)
  | .finish aborted now => w.act [.running] fun p =>
      w.put p ((w.session p).finish (if aborted then .aborted else .complete) now [])
        ((w.store p).flush true true)
  | .die => some { w with proc := none }
  | .reset bootId =>
    if bootId = w.bootId ∨ bootId ∈ w.past then none
    else some { w with proc := none, bootId := bootId, past := w.bootId :: w.past }

def opened (name : String) (identity : Identity) (opts : Options) (plan : List PlanEntry)
    (m : Machine) : World :=
  let s := SessionStore.create name identity opts plan m []
  { stateFiles := s.files, findingsFiles := RotatingFiles.empty, machineId := identity.machineId,
    bootId := m.bootId, past := [], sawReset := false,
    proc := some { session := s.mem, findings := Findings.new, stage := .opened } }

/-- The events of `record_incident` add up to it. -/
theorem run_recordIncident {w : World} {p : Process} (hp : w.proc = some p)
    (hstage : p.stage = .loaded) (now : String) :
    run step w [.incident now, .markPhase, .save] =
      some (w.put { p with stage := .running }
        (recordIncident (w.session p) (w.store p) now true [] []).1
        (recordIncident (w.session p) (w.store p) now true [] []).2) := by
  simp only [run, step, World.act, hp, hstage, List.mem_singleton, if_true, Option.bind_some]
  rfl

/-! ## The invariant -/

/-- A process has counted a reset that it has not filed. -/
def Exposed (w : World) : Prop :=
  ∃ p, w.proc = some p ∧ p.session.unexpectedReboot = true ∧
    (p.stage = .opened ∨ p.stage = .loaded)

/-- The next start will count a reset. -/
def Awaited (w : World) : Prop :=
  w.disk.cause w.bootId = .unexpected ∧ w.disk.status = some .running

structure ProcInv (w : World) (p : Process) : Prop where
  numbered : (w.session p).Numbered
  sound : p.stage = .loaded ∨ p.stage = .running → (w.store p).Sound
  unfinished : p.stage ≠ .running → w.disk.status = some .running
  resuming : p.stage = .resuming →
    (∃ m : Machine, m.bootId = w.bootId ∧ p.session.state = w.disk.resume m) ∧
      (p.session.unexpectedReboot = true ↔ w.disk.cause w.bootId = .unexpected)
  settled : p.stage ≠ .resuming →
    p.session.state.unexpectedReboots = w.disk.unexpectedReboots ∧
      p.session.state.boots = w.disk.boots ∧
      (w.sawReset = true → 1 ≤ w.disk.unexpectedReboots) ∧
      (p.session.unexpectedReboot = true → 1 ≤ w.disk.unexpectedReboots)

structure Inv (w : World) : Prop where
  saved : w.stateFiles.readRotating.1.isSome = true
  boots : ∀ b ∈ w.disk.boots, b.bootId = w.bootId ∨ b.bootId ∈ w.past
  seen : w.sawReset = true → 1 ≤ w.disk.unexpectedReboots ∨ Awaited w
  filed : ∀ n, 1 ≤ n → n ≤ w.disk.unexpectedReboots →
    w.filed.Fails (resetKey n) ∨ (Exposed w ∧ n = w.disk.unexpectedReboots)
  proc : ∀ p, w.proc = some p → ProcInv w p

/-- No process ends between counting a reset and filing it. -/
def FilesFirst (w : World) : Event → Prop
  | .die => ¬ Exposed w
  | .reset _ => ¬ Exposed w
  | _ => True

/-- A finished session that saw a reset fails, with every reset it counted on file. -/
def ResetsFail (w : World) : Prop :=
  w.disk.status = some .complete ∨ w.disk.status = some .aborted →
    (w.sawReset = true → ∀ incomplete,
      (build w.stateFiles w.findingsFiles incomplete).2.2 = .fail) ∧
    ∀ n, 1 ≤ n → n ≤ w.disk.unexpectedReboots → w.filed.Fails (resetKey n)

/-! ## One step -/

theorem not_exposed_of_stage {w : World} {p : Process} (hp : w.proc = some p)
    (hstage : p.stage = .resuming ∨ p.stage = .running) : ¬ Exposed w := by
  intro hex
  obtain ⟨q, hq, -, hopen⟩ := hex
  obtain rfl : p = q := Option.some.inj (hp.symm.trans hq)
  rcases hstage with hs | hs <;> rcases hopen with ho | ho <;> rw [hs] at ho <;> cases ho

/-- A process past its first save may write either file, as long as it keeps the boots and
the count, and no failure on file is lost. -/
theorem inv_put {w : World} (h : Inv w) {p : Process} (hp : w.proc = some p)
    (hstage : p.stage = .loaded ∨ p.stage = .running) {s : SessionStore} {f : Store}
    (hs : s.Numbered)
    (hfiles : s.files = w.stateFiles ∨
      (p.stage = .running ∧ s.files.readRotating.1 = some s.mem.state))
    (hcount : s.mem.state.unexpectedReboots = p.session.state.unexpectedReboots)
    (hboots : s.mem.state.boots = p.session.state.boots)
    (hflag : s.mem.unexpectedReboot = p.session.unexpectedReboot) (hf : f.Sound)
    (hkeep : ∀ k, w.filed.Fails k → (Store.filed f.files).Fails k) : Inv (w.put p s f) := by
  have hpi := h.proc p hp
  have hpast : p.stage ≠ .resuming := by
    rcases hstage with hl | hl <;> rw [hl] <;> exact nofun
  obtain ⟨hc, hb, hseen, hflagged⟩ := hpi.settled hpast
  have hdisk : (w.put p s f).disk.unexpectedReboots = w.disk.unexpectedReboots ∧
      (w.put p s f).disk.boots = w.disk.boots ∧
      (p.stage ≠ .running → (w.put p s f).disk = w.disk) ∧
      s.files.readRotating.1.isSome = true := by
    rcases hfiles with heq | ⟨hrun, hread⟩
    · have hsame : (w.put p s f).disk = w.disk := by
        show s.files.readRotating.1.getD .missing = _
        rw [heq]
        rfl
      rw [hsame, heq]
      exact ⟨rfl, rfl, fun _ => rfl, h.saved⟩
    · have hnew : (w.put p s f).disk = s.mem.state := by
        show s.files.readRotating.1.getD .missing = _
        rw [hread]
        rfl
      rw [hnew, hread]
      exact ⟨hcount.trans hc, hboots.trans hb, fun hne => absurd hrun hne, rfl⟩
  obtain ⟨hdc, hdb, hdsame, hsaved⟩ := hdisk
  refine ⟨hsaved, ?_, ?_, ?_, ?_⟩
  · rw [hdb]
    exact h.boots
  · intro hsaw
    rw [hdc]
    exact Or.inl (hseen hsaw)
  · intro n hn hle
    rw [hdc] at hle ⊢
    rcases h.filed n hn hle with hfails | ⟨hex, heq⟩
    · exact Or.inl (hkeep _ hfails)
    · obtain ⟨q, hq, hqf, hqs⟩ := hex
      obtain rfl : p = q := Option.some.inj (hp.symm.trans hq)
      exact Or.inr ⟨⟨_, rfl, hflag.trans hqf, hqs⟩, heq⟩
  · intro q hq
    obtain rfl := Option.some.inj hq
    refine ⟨hs, fun _ => hf, fun hne => ?_, fun hres => absurd hres hpast, fun _ => ?_⟩
    · rw [hdsame hne]
      exact hpi.unfinished hne
    · rw [hdc, hdb]
      exact ⟨hcount.trans hc, hboots.trans hb, hseen, fun hq => hflagged (hflag.symm.trans hq)⟩

/-- A call on the findings, by whatever thread. -/
theorem inv_store {w : World} (h : Inv w) {p : Process} (hp : w.proc = some p)
    (hmem : p.stage ∈ [Stage.loaded, .running]) {g : Store}
    (hg : (w.store p).Sound → g.Sound)
    (hkeep : (w.store p).Sound → ∀ k, w.filed.Fails k → (Store.filed g.files).Fails k) :
    Inv (w.put p (w.session p) g) := by
  have hstage : p.stage = .loaded ∨ p.stage = .running := by simpa using hmem
  have hsound := (h.proc p hp).sound hstage
  exact inv_put h hp hstage (h.proc p hp).numbered (Or.inl rfl) rfl rfl rfl (hg hsound)
    (hkeep hsound)

theorem inv_update {w : World} (h : Inv w) {p : Process} (hp : w.proc = some p)
    (hstage : p.stage = .running) {f : SessionState → SessionState} {g : Store}
    (hcount : (f p.session.state).unexpectedReboots = p.session.state.unexpectedReboots)
    (hboots : (f p.session.state).boots = p.session.state.boots) (hg : g.Sound)
    (hkeep : ∀ k, w.filed.Fails k → (Store.filed g.files).Fails k) :
    Inv (w.put p ((w.session p).update f []) g) := by
  have hnum := (h.proc p hp).numbered
  obtain ⟨n, hmem⟩ := SessionStore.update_mem (w.session p) f []
  refine inv_put h hp (Or.inr hstage) (hnum.update f []) (Or.inr ⟨hstage, ?_⟩) ?_ ?_ ?_ hg hkeep
  · rw [SessionStore.readRotating_update hnum, hmem]
  · rw [hmem]
    exact hcount
  · rw [hmem]
    exact hboots
  · rw [hmem]
    rfl

theorem inv_start {w t : World} {now : String} {time : ℚ} (h : Inv w)
    (ht : step w (.start now time) = some t) : Inv t := by
  cases hp : w.proc with
  | some p => simp only [step, hp, reduceCtorEq] at ht
  | none =>
    cases hfound : SessionStore.findRunning w.stateFiles w.machineId with
    | none => simp only [step, hp, hfound, reduceCtorEq] at ht
    | some found =>
      simp only [step, hp, hfound, Option.some.injEq] at ht
      obtain ⟨hread, hrunning⟩ := SessionStore.findRunning_eq_some hfound
      have hdisk : w.disk = found.1 := by
        rw [World.disk, hread]
        rfl
      have hstatus : w.disk.status = some .running := by rw [hdisk, hrunning]
      have hnoex : ¬ Exposed w := by
        intro hex
        obtain ⟨q, hq, -⟩ := hex
        rw [hp] at hq
        cases hq
      subst ht
      refine ⟨h.saved, h.boots, ?_, ?_, ?_⟩
      · intro hsaw
        rcases Bool.or_eq_true_iff.mp hsaw with hold | hnew
        · exact h.seen hold
        · have hcause : w.disk.cause w.bootId = .unexpected := by
            rw [hdisk]
            exact SessionState.cause_eq_unexpected.mpr (of_decide_eq_true hnew)
          exact Or.inr ⟨hcause, hstatus⟩
      · intro n hn hle
        rcases h.filed n hn hle with hfails | ⟨hex, -⟩
        · exact Or.inl hfails
        · exact absurd hex hnoex
      · intro q hq
        obtain rfl := Option.some.inj hq
        have hseq : found = (found.1, w.stateFiles.readRotating.2) := by rw [hread]
        refine ⟨?_, nofun, fun _ => ?_, fun _ => ⟨⟨⟨w.bootId, now, time⟩, rfl, ?_⟩, ?_⟩,
          fun hne => absurd rfl hne⟩
        · rw [hseq]
          exact SessionStore.Numbered.reopen w.stateFiles found.1 ⟨w.bootId, now, time⟩
        · exact hstatus
        · show found.1.resume _ = w.disk.resume _
          rw [hdisk]
        · show (false || decide (found.1.cause w.bootId = .unexpected)) = true ↔ _
          rw [Bool.false_or, decide_eq_true_iff, ← hdisk]
          rfl

theorem inv_saveResume {w t : World} (h : Inv w) (ht : step w .saveResume = some t) : Inv t := by
  obtain ⟨p, hp, hmem, rfl⟩ := World.act_eq_some.mp ht
  have hstage : p.stage = .resuming := List.mem_singleton.mp hmem
  have hpi := h.proc p hp
  obtain ⟨⟨m, hm, hstate⟩, hflag⟩ := hpi.resuming hstage
  have hcount := SessionState.resume_unexpectedReboots w.disk m
  rw [hm, ← hstate] at hcount
  obtain ⟨n, hsave⟩ := SessionStore.save_mem (w.session p) []
  have hread : ((w.session p).save []).files.readRotating.1 = some p.session.state := by
    rw [SessionStore.readRotating_save hpi.numbered, if_pos SessionStore.written_nil]
    rfl
  have hdisk : ∀ f, (w.put { p with stage := .opened } ((w.session p).save []) f).disk =
      p.session.state := by
    intro f
    show ((w.session p).save []).files.readRotating.1.getD .missing = _
    rw [hread]
    rfl
  have hone : w.sawReset = true → 1 ≤ p.session.state.unexpectedReboots := by
    intro hsaw
    rw [hcount]
    split
    · omega
    · rcases h.seen hsaw with hle | hawait
      · exact hle
      · exact absurd hawait.1 (by assumption)
  refine ⟨?_, ?_, ?_, ?_, ?_⟩
  · show ((w.session p).save []).files.readRotating.1.isSome = true
    rw [hread]
    rfl
  · rw [hdisk, hstate]
    intro b hb
    rcases SessionState.mem_boots_resume hb with hold | hnew
    · exact h.boots b hold
    · exact Or.inl (hnew.trans hm)
  · rw [hdisk]
    exact fun hsaw => Or.inl (hone hsaw)
  · rw [hdisk]
    intro k hk hle
    by_cases hold : k ≤ w.disk.unexpectedReboots
    · rcases h.filed k hk hold with hfails | ⟨hex, -⟩
      · exact Or.inl hfails
      · exact absurd hex (not_exposed_of_stage hp (Or.inl hstage))
    · rw [hcount] at hle ⊢
      by_cases hc : w.disk.cause w.bootId = .unexpected
      · rw [if_pos hc] at hle ⊢
        refine Or.inr ⟨⟨_, rfl, ?_, Or.inl rfl⟩, by omega⟩
        show ((w.session p).save []).mem.unexpectedReboot = true
        rw [hsave]
        exact hflag.mpr hc
      · rw [if_neg hc] at hle
        omega
  · intro q hq
    obtain rfl := Option.some.inj hq
    refine ⟨hpi.numbered.save [], nofun, fun _ => ?_, nofun, fun _ => ?_⟩
    · rw [hdisk, hstate, (SessionState.resume_frame w.disk m).1]
      exact hpi.unfinished (by rw [hstage]; exact nofun)
    · rw [hdisk]
      show ((w.session p).save []).mem.state.unexpectedReboots = _ ∧
        ((w.session p).save []).mem.state.boots = _ ∧ _ ∧
          (((w.session p).save []).mem.unexpectedReboot = true → _)
      rw [hsave]
      refine ⟨rfl, rfl, hone, fun hq => ?_⟩
      rw [hcount, if_pos (hflag.mp hq)]
      omega

theorem inv_loadFindings {w t : World} (h : Inv w) (ht : step w .loadFindings = some t) :
    Inv t := by
  obtain ⟨p, hp, hmem, rfl⟩ := World.act_eq_some.mp ht
  have hstage : p.stage = .opened := List.mem_singleton.mp hmem
  have hpi := h.proc p hp
  refine ⟨h.saved, h.boots, fun hsaw => ?_, fun n hn hle => ?_, fun q hq => ?_⟩
  · exact Or.inl ((hpi.settled (by rw [hstage]; exact nofun)).2.2.1 hsaw)
  · rcases h.filed n hn hle with hfails | ⟨hex, heq⟩
    · exact Or.inl hfails
    · obtain ⟨q, hq, hqf, -⟩ := hex
      obtain rfl : p = q := Option.some.inj (hp.symm.trans hq)
      exact Or.inr ⟨⟨_, rfl, hqf, Or.inr rfl⟩, heq⟩
  · obtain rfl := Option.some.inj hq
    exact ⟨hpi.numbered, fun _ => Store.Sound.load "findings.json" w.findingsFiles,
      fun _ => hpi.unfinished (by rw [hstage]; exact nofun), nofun,
      fun _ => hpi.settled (by rw [hstage]; exact nofun)⟩

theorem inv_incident {w t : World} {now : String} (h : Inv w)
    (ht : step w (.incident now) = some t) : Inv t := by
  obtain ⟨p, hp, hmem, rfl⟩ := World.act_eq_some.mp ht
  have hstage : p.stage = .loaded := List.mem_singleton.mp hmem
  have hpi := h.proc p hp
  obtain ⟨hc, hb, hseen, hflagged⟩ := hpi.settled (by rw [hstage]; exact nofun)
  have hsound := hpi.sound (Or.inl hstage)
  have hmemory := fileIncident_session p.session (w.store p) now true
  refine ⟨h.saved, h.boots, fun hsaw => Or.inl (hseen hsaw), fun n hn hle => ?_, fun q hq => ?_⟩
  · refine Or.inl ?_
    rcases h.filed n hn hle with hfails | ⟨hex, heq⟩
    · exact fileIncident_keeps hsound hfails p.session now true
    · obtain ⟨q, hq, hqf, -⟩ := hex
      obtain rfl : p = q := Option.some.inj (hp.symm.trans hq)
      rw [heq]
      show (Store.filed (fileIncident p.session (w.store p) now true).2.files).Fails
        (resetKey w.disk.unexpectedReboots)
      rw [← hc]
      exact fileIncident_files hsound hqf now
  · obtain rfl := Option.some.inj hq
    refine ⟨hpi.numbered.of_seq ?_ rfl, fun _ => fileIncident_sound hsound p.session now true,
      fun hne => absurd rfl hne, nofun, fun _ => ?_⟩
    · show (fileIncident p.session (w.store p) now true).1.seq = p.session.seq
      rw [hmemory, Session.noteIncident_seq]
    · show (fileIncident p.session (w.store p) now true).1.state.unexpectedReboots = _ ∧
        (fileIncident p.session (w.store p) now true).1.state.boots = _ ∧ _ ∧
          ((fileIncident p.session (w.store p) now true).1.unexpectedReboot = true → _)
      rw [hmemory, Session.noteIncident_unexpectedReboots, Session.noteIncident_boots,
        Session.noteIncident_unexpectedReboot]
      exact ⟨hc, hb, hseen, hflagged⟩

theorem filed_of_not_exposed {w : World} (h : Inv w) (hno : ¬ Exposed w) {n : Nat} (hn : 1 ≤ n)
    (hle : n ≤ w.disk.unexpectedReboots) : w.filed.Fails (resetKey n) := by
  rcases h.filed n hn hle with hfails | ⟨hex, -⟩
  · exact hfails
  · exact absurd hex hno

theorem inv_die {w : World} (h : Inv w) (hno : ¬ Exposed w) : Inv { w with proc := none } := by
  refine ⟨h.saved, h.boots, h.seen, fun n hn hle => ?_, fun p hp => ?_⟩
  · exact Or.inl (filed_of_not_exposed h hno hn hle)
  · cases hp

theorem awaited_reset {w : World} (h : Inv w) (ha : Awaited w) {bootId : String}
    (hnew : ¬ (bootId = w.bootId ∨ bootId ∈ w.past)) :
    w.disk.cause bootId = .unexpected := by
  obtain ⟨-, hplanned⟩ := SessionState.cause_eq_unexpected.mp ha.1
  refine SessionState.cause_eq_unexpected.mpr ⟨fun hlast => hnew ?_, hplanned⟩
  obtain ⟨b, hb, hid⟩ := SessionState.mem_boots_of_lastBoot hlast
  rw [← hid]
  exact h.boots b hb

theorem inv_reset {w t : World} {bootId : String} (h : Inv w) (hno : ¬ Exposed w)
    (ht : step w (.reset bootId) = some t) : Inv t := by
  by_cases hold : bootId = w.bootId ∨ bootId ∈ w.past
  · simp only [step, hold, if_true, reduceCtorEq] at ht
  · simp only [step, hold, if_false, Option.some.injEq] at ht
    subst ht
    refine ⟨h.saved, fun b hb => ?_, fun hsaw => ?_, fun n hn hle => ?_, fun p hp => ?_⟩
    · refine Or.inr (List.mem_cons.mpr ?_)
      exact h.boots b hb
    · rcases h.seen hsaw with hle | ha
      · exact Or.inl hle
      · exact Or.inr ⟨awaited_reset h ha hold, ha.2⟩
    · exact Or.inl (filed_of_not_exposed h hno hn hle)
    · cases hp

theorem inv_step {w t : World} {e : Event} (h : Inv w) (hC : FilesFirst w e)
    (ht : step w e = some t) : Inv t := by
  cases e with
  | start now time => exact inv_start h ht
  | saveResume => exact inv_saveResume h ht
  | loadFindings => exact inv_loadFindings h ht
  | incident now => exact inv_incident h ht
  | markPhase =>
    obtain ⟨p, hp, hmem, rfl⟩ := World.act_eq_some.mp ht
    have hstage := List.mem_singleton.mp hmem
    have hsound := (h.proc p hp).sound (Or.inr hstage)
    rcases markPhase_cases (w.session p) [] with heq | ⟨phase, given, heq⟩
    · rw [heq]
      exact inv_put h hp (Or.inr hstage) (h.proc p hp).numbered (Or.inl rfl) rfl rfl rfl hsound
        fun _ hk => hk
    · rw [heq]
      exact inv_update h hp hstage rfl rfl hsound fun _ hk => hk
  | add c =>
    obtain ⟨p, hp, hmem, rfl⟩ := World.act_eq_some.mp ht
    exact inv_store h hp hmem (fun hsound => hsound.add c true)
      fun hsound _ hk => Store.filed_fails_add hsound hk c true
  | escalate c =>
    obtain ⟨p, hp, hmem, rfl⟩ := World.act_eq_some.mp ht
    exact inv_store h hp hmem (fun hsound => hsound.escalate c true)
      fun hsound _ hk => Store.filed_fails_escalate hsound hk c true
  | flush force =>
    obtain ⟨p, hp, hmem, rfl⟩ := World.act_eq_some.mp ht
    exact inv_store h hp hmem (fun hsound => hsound.flush force true)
      fun hsound _ hk => Store.filed_fails_flush hsound hk force true
  | work st =>
    obtain ⟨p, hp, hmem, rfl⟩ := World.act_eq_some.mp ht
    have hstage := List.mem_singleton.mp hmem
    exact inv_put h hp (Or.inr hstage) ((h.proc p hp).numbered.of_seq rfl rfl) (Or.inl rfl) rfl
      rfl rfl ((h.proc p hp).sound (Or.inr hstage)) fun _ hk => hk
  | save =>
    obtain ⟨p, hp, hmem, rfl⟩ := World.act_eq_some.mp ht
    have hstage := List.mem_singleton.mp hmem
    have hsound := (h.proc p hp).sound (Or.inr hstage)
    exact inv_update (f := id) h hp hstage rfl rfl hsound fun _ hk => hk
  | requestReboot r =>
    obtain ⟨p, hp, hmem, rfl⟩ := World.act_eq_some.mp ht
    have hstage := List.mem_singleton.mp hmem
    have hsound := (h.proc p hp).sound (Or.inr hstage)
    exact inv_update h hp hstage rfl rfl hsound fun _ hk => hk
  | finish aborted now =>
    obtain ⟨p, hp, hmem, rfl⟩ := World.act_eq_some.mp ht
    have hstage := List.mem_singleton.mp hmem
    have hsound := (h.proc p hp).sound (Or.inr hstage)
    exact inv_update h hp hstage rfl rfl (hsound.flush true true)
      fun _ hk => Store.filed_fails_flush hsound hk true true
  | die =>
    obtain rfl := Option.some.inj ht
    exact inv_die h hC
  | reset bootId => exact inv_reset h hC ht

theorem inv_opened (name : String) (identity : Identity) (opts : Options)
    (plan : List PlanEntry) (m : Machine) : Inv (opened name identity opts plan m) := by
  have hnum := SessionStore.Numbered.create (SessionState.fresh name identity opts plan m)
  obtain ⟨n, hmem⟩ := SessionStore.save_mem
    { mem := { state := SessionState.fresh name identity opts plan m },
      files := RotatingFiles.empty } []
  have hread : (opened name identity opts plan m).stateFiles.readRotating.1 =
      some (SessionState.fresh name identity opts plan m) := by
    show (SessionStore.save _ []).files.readRotating.1 = _
    rw [SessionStore.readRotating_save hnum, if_pos SessionStore.written_nil]
  have hdisk : (opened name identity opts plan m).disk =
      SessionState.fresh name identity opts plan m := by
    rw [World.disk, hread]
    rfl
  have hnone : (SessionState.fresh name identity opts plan m).unexpectedReboots = 0 := rfl
  refine ⟨by rw [hread]; rfl, ?_, nofun, ?_, ?_⟩
  · rw [hdisk]
    intro b hb
    obtain rfl := List.mem_singleton.mp hb
    exact Or.inl rfl
  · rw [hdisk, hnone]
    intro n hn hle
    omega
  · intro q hq
    obtain rfl := Option.some.inj hq
    refine ⟨hnum.save [], nofun, fun _ => by rw [hdisk]; rfl, nofun, fun _ => ?_⟩
    rw [hdisk]
    show (SessionStore.save _ []).mem.state.unexpectedReboots = _ ∧
      (SessionStore.save _ []).mem.state.boots = _ ∧ _ ∧
        ((SessionStore.save _ []).mem.unexpectedReboot = true → _)
    rw [hmem]
    exact ⟨rfl, rfl, nofun, nofun⟩

theorem resetsFail_of_inv {w : World} (h : Inv w) : ResetsFail w := by
  intro hfinished
  have hnorun : w.disk.status ≠ some .running := by
    rcases hfinished with hs | hs <;> rw [hs] <;> exact nofun
  have hno : ¬ Exposed w := by
    intro hex
    obtain ⟨p, hp, -, hstage⟩ := hex
    refine hnorun ((h.proc p hp).unfinished ?_)
    rcases hstage with hs | hs <;> rw [hs] <;> exact nofun
  have hall : ∀ n, 1 ≤ n → n ≤ w.disk.unexpectedReboots → w.filed.Fails (resetKey n) :=
    fun n hn hle => filed_of_not_exposed h hno hn hle
  refine ⟨fun hsaw incomplete => ?_, hall⟩
  rcases h.seen hsaw with hle | ha
  · exact verdict_eq_fail_iff.mpr ⟨_, hall 1 (le_refl 1) hle⟩
  · exact absurd ha.2 hnorun

/-- Unexpected resets always fail the machine in the runs where no process ends between
counting a reset and filing it. -/
theorem resets_fail_of_files_first (name : String) (identity : Identity) (opts : Options)
    (plan : List PlanEntry) (m : Machine) {es : List Event}
    (hC : Along step FilesFirst (opened name identity opts plan m) es) :
    Always step ResetsFail (opened name identity opts plan m) es := by
  intro pre hpre t ht
  exact resetsFail_of_inv (always_of_along (fun _ _ _ h hC ht => inv_step h hC ht)
    (inv_opened name identity opts plan m) hC pre hpre t ht)

/-! ## A reset that is counted and not filed -/

/-- A session with the default options, run to the end of its phases. -/
def allPhases : List Event :=
  [.loadFindings, .incident "2026-01-01T00:00:01", .markPhase, .save,
    .work (Acceptance.doneState .running), .save]

/-- A start on a new boot that lives through `record_incident` and finishes. -/
def finishes : List Event :=
  [.start "2026-01-01T12:00:00" 0, .saveResume, .loadFindings, .incident "2026-01-01T12:00:01",
    .markPhase, .save, .finish false "2026-01-01T12:10:00"]

/-- The machine resets, and the first process of the new boot ends after its save. -/
def killedBetween : List Event :=
  allPhases ++ [.reset "boot-2", .start "2026-01-01T12:00:00" 0, .saveResume, .die] ++ finishes

def exampleWorld : World :=
  opened "20260101-000000_SN1" ⟨"0123456789ab", "SN1"⟩ {} Acceptance.defaultPlan
    Acceptance.exampleMachine

theorem along_reset_finishes :
    Along step FilesFirst exampleWorld (allPhases ++ .reset "boot-2" :: finishes) := by
  refine along_append (along_of_forall ?_) fun t ht => ⟨?_, fun u _ => along_of_forall ?_⟩
  · simp only [allPhases, List.mem_cons, List.not_mem_nil, or_false]
    intro e he s
    rcases he with rfl | rfl | rfl | rfl | rfl | rfl <;> trivial
  · obtain rfl := Option.some.inj ht
    exact not_exposed_of_stage rfl (Or.inr rfl)
  · simp only [finishes, List.mem_cons, List.not_mem_nil, or_false]
    intro e he s
    rcases he with rfl | rfl | rfl | rfl | rfl | rfl | rfl <;> trivial

theorem resets_fail_of_files_first_example :
    Always step ResetsFail exampleWorld (allPhases ++ .reset "boot-2" :: finishes) :=
  resets_fail_of_files_first "20260101-000000_SN1" ⟨"0123456789ab", "SN1"⟩ {}
    Acceptance.defaultPlan Acceptance.exampleMachine along_reset_finishes

theorem killedBetween_run :
    ∃ t, run step exampleWorld killedBetween = some t ∧ t.disk.status = some .complete ∧
      t.disk.unexpectedReboots = 1 ∧ t.filed.get? (resetKey 1) = none :=
  ⟨_, rfl, rfl, rfl, by decide +kernel⟩

theorem reset_goes_unfiled :
    ¬ ∀ (name : String) (identity : Identity) (opts : Options) (plan : List PlanEntry)
      (m : Machine) (es : List Event),
      Always step ResetsFail (opened name identity opts plan m) es := by
  intro h
  obtain ⟨t, hrun, hstatus, hcount, hnone⟩ := killedBetween_run
  have hfail := h _ _ _ _ _ killedBetween killedBetween (List.prefix_refl _) t hrun
  obtain ⟨f, hf, -⟩ := (hfail (Or.inl hstatus)).2 1 (le_refl 1) (by rw [hcount])
  rw [hnone] at hf
  cases hf

end Resets
end PcCheck
