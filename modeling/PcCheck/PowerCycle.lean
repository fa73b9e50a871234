/-
The reboots of the power-cycle phase (`PowerCyclePhase` of `phases.py`, `Session._resume`,
`run_phases` of `orchestrator.py`).

The loop of the phase is spread over the boots of the machine.  A run of the phase compares
the hardware with the snapshot from before the first reboot and asks for the next reboot; the
session is left with the phase pending and the reboot planned, and the next boot counts it and
comes back to the phase.  A `Cycle` is the session and the findings as one process hands them
to the next: every save and every flush succeeds, nobody aborts the test, and what the other
phases and the monitors add to the findings is left out.  A total of memory is a number of 64
bits, and a name in a snapshot prints without escapes.
-/
import PcCheck.Phases

namespace PcCheck
namespace PowerCycle

structure Snapshot where
  cpus : Nat
  memoryMib : Nat
  dimms : List String
  disks : List String
  nics : List String
  deriving DecidableEq, Repr

/-- What `compare` expects to find again as it was. -/
inductive Part where
  | cpus
  | dimms
  | disks
  | nics
  deriving DecidableEq, Repr

namespace Part

def all : List Part := [.cpus, .dimms, .disks, .nics]

def key : Part → String
  | .cpus => "cpus"
  | .dimms => "dimms"
  | .disks => "disks"
  | .nics => "nics"

def label : Part → String
  | .cpus => "logical CPUs"
  | .dimms => "memory modules"
  | .disks => "disks"
  | .nics => "network interfaces"

def changed (base now : Snapshot) : Part → Bool
  | .cpus => decide (base.cpus ≠ now.cpus)
  | .dimms => decide (base.dimms ≠ now.dimms)
  | .disks => decide (base.disks ≠ now.disks)
  | .nics => decide (base.nics ≠ now.nics)

/-- A list as `str` prints it. -/
def listText (l : List String) : String :=
  "[" ++ ", ".intercalate (l.map fun s => "'" ++ s ++ "'") ++ "]"

def text (s : Snapshot) : Part → String
  | .cpus => toString s.cpus
  | .dimms => listText s.dimms
  | .disks => listText s.disks
  | .nics => listText s.nics

def call (base now : Snapshot) (cycle : Int) (time : String) (p : Part) : AddCall :=
  { key := "powercycle-missing:" ++ p.key, severity := .fail, component := "System",
    title := "Hardware changed after reboot #" ++ toString cycle ++ ": " ++ p.label ++ " " ++
      p.text base ++ " -> " ++ p.text now
    detail :=
      "A component was not detected after a reboot. Intermittently missing hardware " ++
      "after POST is a classic sign of a failing DIMM/slot, riser, cable or PSU."
    recommendation :=
      "Reseat the missing component; check the BMC/POST log of that boot.", now := time }

end Part

/-- `max(64, base_mem * 0.02)`. -/
def memoryBound (base : Nat) : PyFloat :=
  let share := (PyFloat.ofRat base).mul (PyFloat.ofRat (2 / 100))
  if (PyFloat.finite 64).lt share then share else .finite 64

def memoryChanged (base now : Nat) : Bool :=
  (memoryBound base).lt (.finite |((base : ℤ) - now : ℤ)|)

/-- The snapshot differs in one of its parts, or in usable memory by more than 64 MiB and more
than 2 percent. -/
def Differs (base now : Snapshot) : Prop :=
  (∃ p ∈ Part.all, p.changed base now = true) ∨
    64 < |(base.memoryMib : ℤ) - now.memoryMib| ∧
      2 * (base.memoryMib : ℤ) < 100 * |(base.memoryMib : ℤ) - now.memoryMib|

/-- What `compare` reports: the share of memory is a float, and a baseline without a memory
size is not held against the boot. -/
def Flagged (base now : Snapshot) : Prop :=
  (∃ p ∈ Part.all, p.changed base now = true) ∨
    base.memoryMib ≠ 0 ∧ memoryChanged base.memoryMib now.memoryMib = true

instance (base now : Snapshot) : Decidable (Differs base now) :=
  inferInstanceAs (Decidable (_ ∨ _))

instance (base now : Snapshot) : Decidable (Flagged base now) :=
  inferInstanceAs (Decidable (_ ∨ _))

def memoryCall (base now : Snapshot) (cycle : Int) (time : String) : AddCall :=
  { key := "powercycle-memory", severity := .fail, component := "Memory",
    title := s!"Usable memory changed after reboot #{cycle}: {base.memoryMib} MiB -> " ++
      s!"{now.memoryMib} MiB"
    recommendation :=
      "Reseat/replace DIMMs; check BIOS memory training and POST messages.", now := time }

/-- The calls of `compare`. -/
def compareCalls (base now : Snapshot) (cycle : Int) (time : String) : List AddCall :=
  (Part.all.filter fun p => p.changed base now).map (Part.call base now cycle time) ++
    if base.memoryMib ≠ 0 ∧ memoryChanged base.memoryMib now.memoryMib = true then
      [memoryCall base now cycle time]
    else []

def timeCall (done seconds : Int) (time : String) : AddCall :=
  { key := "powercycle-time", severity := .info, component := "System",
    title := s!"Boot after reboot #{done} took about {seconds} s", now := time }

def skippedCall (time : String) : AddCall :=
  { key := "powercycle-skipped", severity := .warn, component := "Test",
    title :=
      "Reboot cycles skipped: without persistent storage the machine would " ++
      "restart the test forever"
    recommendation :=
      "Prepare the USB stick with write-usb.sh so it has a " ++
      "PCCHECKDATA partition, then run the test again.", now := time }

def okCall (done : Int) (time : String) : AddCall :=
  { key := "powercycle-ok", severity := .info, component := "System",
    title := s!"Completed {done} reboot/power cycles with the hardware intact", now := time }

/-- The session as the phase has it, with the reboots it has asked for and the comparisons it
has made so far. -/
structure Cycle where
  state : SessionState
  baseline : Option Snapshot
  findings : Findings
  requested : List Int := []
  compared : List (Int × Snapshot) := []

/-- One boot: its clock, the snapshots a run of the phase takes for a missing baseline and for
the comparison, and how long the phase runs. -/
structure Boot where
  machine : Machine
  first : Snapshot
  now : Snapshot
  epoch : ℚ := 0
  elapsed : Int := 0

namespace Cycle

variable (c : Cycle)

def add (a : AddCall) : Cycle := { c with findings := (c.findings.record a).1 }

def compare (base now : Snapshot) (cycle : Int) (time : String) : Cycle :=
  { c with
    findings := (compareCalls base now cycle time).foldl (fun fs a => (fs.record a).1) c.findings
    compared := c.compared ++ [(cycle, now)] }

def done : Int := c.state.rebootCyclesDone.getD 0

/-- How long the last boot took, where that is known. -/
def noteTime (time : String) : Cycle :=
  match c.state.lastRebootSeconds with
  | some seconds => if seconds ≠ 0 then c.add (timeCall c.done seconds time) else c
  | none => c

/-- The comparison after a reboot. -/
def check (base now : Snapshot) (time : String) : Cycle :=
  if c.done ≠ 0 then (c.compare base now c.done time).noteTime time else c

def requestReboot (cycle : Int) (epoch : ℚ) (time : String) : Cycle :=
  { c with
    state := { c.state with plannedReboot := some ⟨cycle, epoch, time⟩ }
    requested := c.requested ++ [cycle] }

def setPhase (name : String) (given : PhaseState) : Cycle :=
  { c with state := c.state.setPhase name given }

/-- The next process, on a new boot: it resumes the session and loads the findings. -/
def restart (m : Machine) : Cycle :=
  { c with
    state := c.state.resume m
    findings := { c.findings with dirty := false, currentPhase := "" } }

end Cycle

/-- What does not change over the boots: the options, the storage, and what the other phases
do. -/
structure Setting where
  opts : Options
  persistent : Bool
  other : PlanEntry → Cycle → Cycle

namespace Setting

variable (s : Setting)

def target : Int := max 0 (min 50 s.opts.rebootCycles)

/-- `PowerCyclePhase.run`, with the reboot it has asked for. -/
def run (b : Boot) (c : Cycle) : Cycle × Option Int :=
  let time := b.machine.now
  let base := c.baseline.getD b.first
  let c := Cycle.check { c with baseline := some base } base b.now time
  if s.persistent = false then (c.add (skippedCall time), none)
  else if s.target ≤ c.done then (c.add (okCall c.done time), none)
  else (c.requestReboot (c.done + 1) b.epoch time, some (c.done + 1))

/-- One turn of the loop of `run_phases` for a pending phase. -/
def runPhase (b : Boot) (q : PlanEntry) (c : Cycle) : Cycle × Option Int :=
  let c := { c with findings := { c.findings with currentPhase := q.name } }
  let c := if q.name = "powercycle" then
      { c with state := { c.state with diskTestsFinished := true } } else c
  let c := c.setPhase q.name { status := some .running, started := some b.machine.now }
  if q.name = "powercycle" then s.run b c else (s.other q c, none)

/-- `run_phases`, up to the end of the plan or the first reboot. -/
def runPhases (b : Boot) : List PlanEntry → Cycle → Cycle × Option Int
  | [], c => (c, none)
  | q :: rest, c =>
    let (st, ps) := c.state.phaseState q.name
    let c := { c with state := st }
    if ps.status ≠ some .pending then runPhases b rest c
    else if s.opts.maxUnexpectedReboots ≤ c.state.unexpectedReboots then
      runPhases b rest (c.setPhase q.name
        { status := some .skipped, result := some "too many unexpected reboots" })
    else
      match s.runPhase b q c with
      | (c, some cycle) =>
        (c.setPhase q.name { status := some .pending, elapsed := some b.elapsed }, some cycle)
      | (c, none) =>
        let fs := c.findings.byPhase q.name
        runPhases b rest (c.setPhase q.name
          { status := some (Phases.phaseStatus false fs), elapsed := some b.elapsed,
            finished := some b.machine.now, result := some (Phases.phaseSummary fs) })

/-- One process of the orchestrator. -/
def process (b : Boot) (c : Cycle) : Cycle := (s.runPhases b c.state.plan c).1

/-- The boots after the first. -/
def reboots : Cycle → List Boot → Cycle
  | c, [] => c
  | c, b :: rest => reboots (s.process b (c.restart b.machine)) rest

/-- The phase from the boot on which it starts. -/
def session (c : Cycle) (first : Boot) (rest : List Boot) : Cycle :=
  s.reboots (s.process first c) rest

end Setting

/-! ## What a run of the phase records -/

/-- The keys `compare` reports under. -/
def failKeys : List String := Part.all.map (fun p => "powercycle-missing:" ++ p.key) ++
  ["powercycle-memory"]

/-- A failure of the phase is on record. -/
def Failed (fs : Findings) : Prop := ∃ k ∈ failKeys, fs.items.Fails k

def Intact (fs : Findings) : Prop := (fs.items.get? "powercycle-ok").isSome = true

theorem compareCalls_spec {base now : Snapshot} {cycle : Int} {time : String} {a : AddCall}
    (h : a ∈ compareCalls base now cycle time) : a.key ∈ failKeys ∧ a.severity = .fail := by
  rcases List.mem_append.mp h with hpart | hmem
  · obtain ⟨p, -, rfl⟩ := List.mem_map.mp hpart
    exact ⟨List.mem_append_left _ (List.mem_map_of_mem (by cases p <;> decide)), rfl⟩
  · split at hmem
    · rw [List.mem_singleton.mp hmem]
      exact ⟨List.mem_append_right _ List.mem_cons_self, rfl⟩
    · cases hmem

theorem compareCalls_ne_nil_iff {base now : Snapshot} {cycle : Int} {time : String} :
    compareCalls base now cycle time ≠ [] ↔ Flagged base now := by
  unfold compareCalls Flagged
  rw [Ne, List.append_eq_nil_iff, not_and_or, List.map_eq_nil_iff]
  refine or_congr ?_ ?_
  · rw [List.filter_eq_nil_iff]
    simp only [not_forall, not_not, exists_prop]
  · by_cases h : base.memoryMib ≠ 0 ∧ memoryChanged base.memoryMib now.memoryMib = true
    · rw [if_pos h]
      exact iff_of_true (List.cons_ne_nil _ _) h
    · rw [if_neg h]
      exact iff_of_false (fun hne => hne rfl) h

/-- A call under another key leaves the failures and the success of the phase alone. -/
theorem failed_record_other {fs : Findings} {a : AddCall} (h : a.key ∉ failKeys) :
    Failed (fs.record a).1 ↔ Failed fs := by
  have hget : ∀ k ∈ failKeys, (fs.record a).1.items.get? k = fs.items.get? k := by
    intro k hk
    rw [Findings.get?_record, if_neg]
    rintro rfl
    exact h hk
  constructor
  · rintro ⟨k, hk, f, hf, hfail⟩
    exact ⟨k, hk, f, (hget k hk).symm.trans hf, hfail⟩
  · rintro ⟨k, hk, f, hf, hfail⟩
    exact ⟨k, hk, f, (hget k hk).trans hf, hfail⟩

theorem failed_foldl {calls : List AddCall} (fs : Findings)
    (h : ∀ a ∈ calls, a.key ∈ failKeys ∧ a.severity = .fail) :
    Failed (calls.foldl (fun fs a => (fs.record a).1) fs) ↔ Failed fs ∨ calls ≠ [] := by
  induction calls generalizing fs with
  | nil => simp
  | cons a rest ih =>
    obtain ⟨hkey, hsev⟩ := h a List.mem_cons_self
    have hfailed : Failed (fs.record a).1 := ⟨a.key, hkey, Findings.fails_record_self hsev⟩
    rw [List.foldl_cons, ih _ fun b hb => h b (List.mem_cons_of_mem a hb)]
    exact iff_of_true (Or.inl hfailed) (Or.inr (List.cons_ne_nil _ _))

theorem get?_foldl {calls : List AddCall} (fs : Findings) {k : String}
    (h : ∀ a ∈ calls, a.key ≠ k) :
    (calls.foldl (fun fs a => (fs.record a).1) fs).items.get? k = fs.items.get? k := by
  induction calls generalizing fs with
  | nil => rfl
  | cons a rest ih =>
    rw [List.foldl_cons, ih _ fun b hb => h b (List.mem_cons_of_mem a hb), Findings.get?_record,
      if_neg (Ne.symm (h a List.mem_cons_self))]

/-! ## The session so far -/

/-- The boots have been asked for one by one and compared one by one, and a failure is on
record exactly where one of them was flagged. -/
structure Sofar (base : Snapshot) (past : List Snapshot) (c : Cycle) : Prop where
  baseline : c.baseline = some base
  compared : c.compared = past.mapIdx fun i s => ((i : Int) + 1, s)
  failed : Failed c.findings ↔ ∃ s ∈ past, Flagged base s
  notOk : ¬ Intact c.findings

variable {base now : Snapshot} {past : List Snapshot} {c : Cycle} {time : String}

theorem Sofar.compare (h : Sofar base past c) :
    Sofar base (past ++ [now]) (c.compare base now (past.length + 1) time) where
  baseline := h.baseline
  compared := by
    show c.compared ++ [_] = _
    rw [h.compared, List.mapIdx_append]
    simp
  failed := by
    have hspec : ∀ a ∈ compareCalls base now (past.length + 1) time,
        a.key ∈ failKeys ∧ a.severity = .fail := fun _ ha => compareCalls_spec ha
    have hfold := failed_foldl c.findings hspec
    show Failed (List.foldl _ _ _) ↔ _
    rw [hfold, compareCalls_ne_nil_iff, h.failed]
    simp only [List.mem_append, List.mem_singleton]
    constructor
    · rintro (⟨s, hs, hflag⟩ | hflag)
      · exact ⟨s, Or.inl hs, hflag⟩
      · exact ⟨now, Or.inr rfl, hflag⟩
    · rintro ⟨s, hs | rfl, hflag⟩
      · exact Or.inl ⟨s, hs, hflag⟩
      · exact Or.inr hflag
  notOk := by
    have hkeys : ∀ a ∈ compareCalls base now (past.length + 1) time, a.key ≠ "powercycle-ok" := by
      intro a ha hkey
      have hmem := (compareCalls_spec ha).1
      rw [hkey] at hmem
      exact absurd hmem (by decide)
    show ¬ ((List.foldl _ _ _ : Findings).items.get? _).isSome = true
    rw [get?_foldl _ hkeys]
    exact h.notOk

/-- Neither the time of a boot nor what is left of the findings changes what is on record. -/
theorem Sofar.congr {d : Cycle} (h : Sofar base past c) (hbase : d.baseline = c.baseline)
    (hcompared : d.compared = c.compared) (hfailed : Failed d.findings ↔ Failed c.findings)
    (hok : Intact d.findings ↔ Intact c.findings) : Sofar base past d where
  baseline := hbase.trans h.baseline
  compared := hcompared.trans h.compared
  failed := hfailed.trans h.failed
  notOk := fun hintact => h.notOk (hok.mp hintact)

theorem Sofar.noteTime (h : Sofar base past c) : Sofar base past (c.noteTime time) := by
  unfold Cycle.noteTime
  split
  · split
    · refine h.congr rfl rfl (failed_record_other
        (show "powercycle-time" ∉ failKeys from by decide)) ?_
      show ((Findings.record _ _).1.items.get? _).isSome = true ↔ _
      rw [Findings.get?_record]
      exact Iff.rfl
    · exact h
  · exact h

theorem noteTime_frame (c : Cycle) (time : String) :
    (c.noteTime time).state = c.state ∧ (c.noteTime time).requested = c.requested := by
  unfold Cycle.noteTime
  split
  · split <;> exact ⟨rfl, rfl⟩
  · exact ⟨rfl, rfl⟩

/-- The boots compared once this process has run: its own is one of them after a reboot. -/
def seen (past : List Snapshot) (done : Int) (now : Snapshot) : List Snapshot :=
  if done = 0 then past else past ++ [now]

theorem Sofar.check (h : Sofar base past c) (hdone : c.done = 0 ∨ c.done = past.length + 1) :
    Sofar base (seen past c.done now) (c.check base now time) := by
  unfold Cycle.check seen
  rcases hdone with hzero | hlen
  · rw [if_neg (not_not.mpr hzero), if_pos hzero]
    exact h
  · have hne : c.done ≠ 0 := by omega
    rw [if_pos hne, if_neg hne, hlen]
    exact h.compare.noteTime

theorem check_frame (c : Cycle) (base now : Snapshot) (time : String) :
    (c.check base now time).state = c.state ∧ (c.check base now time).requested = c.requested := by
  unfold Cycle.check
  split
  · exact noteTime_frame ..
  · exact ⟨rfl, rfl⟩

namespace Setting

variable {s : Setting} {b : Boot}

/-- The session after the comparison of a run. -/
def checked (base : Snapshot) (b : Boot) (c : Cycle) : Cycle :=
  Cycle.check { c with baseline := some base } base b.now b.machine.now

/-- After the comparison a run says that all is done, or asks for the next reboot. -/
theorem run_eq (hpersistent : s.persistent = true) (hbase : c.baseline.getD b.first = base) :
    s.run b c =
      if s.target ≤ c.done then
        ((checked base b c).add (okCall c.done b.machine.now), none)
      else
        ((checked base b c).requestReboot (c.done + 1) b.epoch b.machine.now,
          some (c.done + 1)) := by
  have hdone : (checked base b c).done = c.done := by
    unfold Cycle.done checked
    rw [(check_frame _ _ _ _).1]
  have hrun : s.run b c =
      if s.target ≤ (checked base b c).done then
        ((checked base b c).add (okCall (checked base b c).done b.machine.now), none)
      else
        ((checked base b c).requestReboot ((checked base b c).done + 1) b.epoch b.machine.now,
          some ((checked base b c).done + 1)) := by
    unfold run
    rw [hbase, hpersistent]
    rfl
  rw [hrun, hdone]

/-! ## The loop of the phases -/

/-- The phases of a list are over. -/
def Settled (l : List PlanEntry) (st : SessionState) : Prop :=
  ∀ r ∈ l, r.name ≠ "powercycle" ∧
    ∃ ps, st.phases.get? r.name = some ps ∧ ps.status ≠ some .pending

theorem phaseState_of_some {st : SessionState} {n : String} {ps : PhaseState}
    (h : st.phases.get? n = some ps) : st.phaseState n = (st, ps) := by
  unfold SessionState.phaseState Dict.setDefault
  rw [h]
  rfl

theorem runPhases_settled {l : List PlanEntry} (h : Settled l c.state) (rest : List PlanEntry) :
    s.runPhases b (l ++ rest) c = s.runPhases b rest c := by
  induction l with
  | nil => rfl
  | cons r l ih =>
    obtain ⟨ps, hps, hstatus⟩ := (h r List.mem_cons_self).2
    rw [List.cons_append, runPhases, phaseState_of_some hps]
    dsimp only
    rw [if_pos hstatus]
    exact ih fun r' hr' => h r' (List.mem_cons_of_mem r hr')

theorem Settled.setPhase {l : List PlanEntry} {st : SessionState} (h : Settled l st)
    (given : PhaseState) : Settled l (st.setPhase "powercycle" given) := by
  intro r hr
  obtain ⟨hne, ps, hps, hstatus⟩ := h r hr
  exact ⟨hne, ps, (Dict.get?_set_ne _ hne _).trans hps, hstatus⟩

/-- The loop is to come to the phase, which is pending, and passes over all others. -/
structure AtPhase (opts : Options) (before after : List PlanEntry) (q : PlanEntry) (c : Cycle) :
    Prop where
  name : q.name = "powercycle"
  plan : c.state.plan = before ++ q :: after
  settled : Settled (before ++ after) c.state
  pending : ∃ ps, c.state.phases.get? "powercycle" = some ps ∧ ps.status = some .pending
  calm : (c.state.unexpectedReboots : Int) < opts.maxUnexpectedReboots

/-- The session at the start of the run of the phase in `run_phases`. -/
def entered (b : Boot) (c : Cycle) : Cycle :=
  { c with
    findings := { c.findings with currentPhase := "powercycle" }
    state := { c.state with diskTestsFinished := true }.setPhase "powercycle"
      { status := some .running, started := some b.machine.now } }

theorem runPhase_eq {q : PlanEntry} (hq : q.name = "powercycle") :
    s.runPhase b q c = s.run b (entered b c) := by
  unfold runPhase
  rw [hq]
  rfl

variable {before after : List PlanEntry} {q : PlanEntry}

/-- One process comes to the phase and runs it. -/
theorem process_eq (h : AtPhase s.opts before after q c) :
    s.process b c =
      match s.run b (entered b c) with
      | (d, some _) =>
        d.setPhase "powercycle" { status := some .pending, elapsed := some b.elapsed }
      | (d, none) =>
        (s.runPhases b after (d.setPhase "powercycle"
          { status := some (Phases.phaseStatus false (d.findings.byPhase "powercycle")),
            elapsed := some b.elapsed, finished := some b.machine.now,
            result := some (Phases.phaseSummary (d.findings.byPhase "powercycle")) })).1 := by
  obtain ⟨ps, hps, hpending⟩ := h.pending
  have hbefore : Settled before c.state := fun r hr => h.settled r (List.mem_append_left _ hr)
  rw [process, h.plan, runPhases_settled hbefore, runPhases]
  rw [← h.name] at hps
  rw [phaseState_of_some hps]
  dsimp only
  rw [if_neg (not_not.mpr hpending), if_neg (not_le.mpr h.calm), runPhase_eq h.name, h.name]
  rcases s.run b (entered b c) with ⟨d, _ | cycle⟩ <;> rfl

theorem entered_frame (b : Boot) (c : Cycle) :
    (entered b c).done = c.done ∧ (entered b c).requested = c.requested ∧
      (entered b c).state.plan = c.state.plan ∧
      (entered b c).state.unexpectedReboots = c.state.unexpectedReboots ∧
      (entered b c).state.lastBoot = c.state.lastBoot :=
  ⟨rfl, rfl, rfl, rfl, rfl⟩

theorem Sofar.checked (h : Sofar base past { c with baseline := some base })
    (hdone : c.done = 0 ∨ c.done = past.length + 1) :
    Sofar base (seen past c.done b.now) (checked base b (entered b c)) :=
  Sofar.check (c := { entered b c with baseline := some base })
    (h.congr rfl rfl Iff.rfl Iff.rfl) hdone

theorem checked_state (base : Snapshot) (b : Boot) (c : Cycle) :
    (checked base b c).state = c.state ∧ (checked base b c).requested = c.requested :=
  check_frame ..

/-- The reboots asked for, one after the other. -/
def cycles (n : Nat) : List Int := (List.range n).map fun i : Nat => (i : Int) + 1

theorem cycles_succ (n : Nat) : cycles (n + 1) = cycles n ++ [(n : Int) + 1] := by
  rw [cycles, List.range_succ, List.map_append]
  rfl

/-- The process has asked for the next reboot, and the session is left for it. -/
structure Asked (opts : Options) (before after : List PlanEntry) (q : PlanEntry) (base : Snapshot)
    (past : List Snapshot) (c : Cycle) : Prop where
  atPhase : AtPhase opts before after q c
  sofar : Sofar base past c
  planned : ∃ p, c.state.plannedReboot = some p ∧ p.cycle = past.length + 1
  requested : c.requested = cycles (past.length + 1)

/-- The process is to compare the last of the boots, or to begin. -/
structure Ready (opts : Options) (before after : List PlanEntry) (q : PlanEntry) (base : Snapshot)
    (past : List Snapshot) (b : Boot) (c : Cycle) : Prop where
  atPhase : AtPhase opts before after q c
  baseline : c.baseline.getD b.first = base
  sofar : Sofar base past { c with baseline := some base }
  done : c.done = (seen past c.done b.now).length
  counted : c.done = 0 ∨ c.done = past.length + 1
  requested : c.requested = cycles (seen past c.done b.now).length

/-- The phase that a process has entered is pending again. -/
theorem AtPhase.again (h : AtPhase s.opts before after q c) {d : Cycle} {ps : PhaseState}
    (hplan : d.state.plan = c.state.plan)
    (hcount : d.state.unexpectedReboots = c.state.unexpectedReboots)
    (hphases : d.state.phases = (entered b c).state.phases.set "powercycle" ps)
    (hps : ps.status = some .pending) : AtPhase s.opts before after q d where
  name := h.name
  plan := hplan.trans h.plan
  settled := by
    intro r hr
    obtain ⟨hne, ps', hps', hstatus⟩ := h.settled r hr
    refine ⟨hne, ps', ?_, hstatus⟩
    rw [hphases, Dict.get?_set_ne _ hne]
    exact (Dict.get?_set_ne _ hne _).trans hps'
  pending := by
    rw [hphases]
    exact ⟨ps, Dict.get?_set_self .., hps⟩
  calm := by
    rw [hcount]
    exact h.calm

theorem process_asks (hpersistent : s.persistent = true)
    (h : Ready s.opts before after q base past b c) (hmore : c.done < s.target) :
    Asked s.opts before after q base (seen past c.done b.now) (s.process b c) ∧
      (s.process b c).state.lastBoot = c.state.lastBoot := by
  obtain ⟨hstate, hrequested⟩ := checked_state base b (entered b c)
  obtain ⟨-, hasked, hplan, hcount, hlast⟩ := entered_frame b c
  have hprocess : s.process b c =
      ((checked base b (entered b c)).requestReboot (c.done + 1) b.epoch b.machine.now).setPhase
        "powercycle" { status := some .pending, elapsed := some b.elapsed } := by
    rw [process_eq h.atPhase, run_eq (c := entered b c) hpersistent h.baseline,
      if_neg (show ¬ s.target ≤ (entered b c).done from not_le.mpr hmore)]
    rfl
  have hphases : (s.process b c).state.phases =
      (entered b c).state.phases.set "powercycle"
        ((((entered b c).state.phases.get? "powercycle").getD {}).update
          { status := some .pending, elapsed := some b.elapsed }) := by
    rw [hprocess, ← hstate]
    rfl
  have hsofar := Sofar.checked (b := b) h.sofar h.counted
  refine ⟨⟨h.atPhase.again ?_ ?_ hphases rfl, ?_, ?_, ?_⟩, ?_⟩
  · rw [hprocess, ← hplan, ← hstate]
    rfl
  · rw [hprocess, ← hcount, ← hstate]
    rfl
  · rw [hprocess]
    exact hsofar.congr rfl rfl Iff.rfl Iff.rfl
  · refine ⟨⟨c.done + 1, b.epoch, b.machine.now⟩, ?_, ?_⟩
    · rw [hprocess]
      rfl
    · rw [← h.done]
  · rw [cycles_succ, ← h.done, ← h.requested, ← hasked, ← hrequested, hprocess]
    rfl
  · rw [hprocess, ← hlast, ← hstate]
    rfl

/-- The law of the phase over all its boots: each of `n` reboots is asked for and compared, a
failure says that some boot differs, and the success that none does. -/
structure EndToEnd (n : Nat) (base : Snapshot) (boots : List Snapshot) (c : Cycle) : Prop where
  requested : c.requested = cycles n
  compared : c.compared = boots.mapIdx fun i s => ((i : Int) + 1, s)
  failed : Failed c.findings ↔ ∃ s ∈ boots, Differs base s
  intact : Intact c.findings ↔ c.done = n ∧ ∀ s ∈ boots, ¬ Differs base s

/-- What the code makes of the boots: the success is recorded whatever they show. -/
structure Finished (n : Nat) (base : Snapshot) (boots : List Snapshot) (c : Cycle) : Prop where
  requested : c.requested = cycles n
  compared : c.compared = boots.mapIdx fun i s => ((i : Int) + 1, s)
  failed : Failed c.findings ↔ ∃ s ∈ boots, Flagged base s
  intact : Intact c.findings
  done : c.done = n

/-- The session when the phase has no more boots to ask for. -/
def passed (base : Snapshot) (b : Boot) (c : Cycle) : Cycle :=
  (checked base b (entered b c)).add (okCall c.done b.machine.now)

/-- What `run_phases` writes down of a phase that has returned. -/
def concluded (b : Boot) (c : Cycle) : PhaseState :=
  { status := some (Phases.phaseStatus false (c.findings.byPhase "powercycle")),
    elapsed := some b.elapsed, finished := some b.machine.now,
    result := some (Phases.phaseSummary (c.findings.byPhase "powercycle")) }

theorem passed_state (base : Snapshot) (b : Boot) (c : Cycle) :
    (passed base b c).state = (entered b c).state :=
  (checked_state base b (entered b c)).1

/-- The last process passes over the rest of the plan. -/
theorem process_concludes (hpersistent : s.persistent = true)
    (h : Ready s.opts before after q base past b c) (htarget : s.target ≤ c.done) :
    s.process b c =
      (passed base b c).setPhase "powercycle" (concluded b (passed base b c)) := by
  have hsettled : Settled after
      ((passed base b c).setPhase "powercycle" (concluded b (passed base b c))).state := by
    have hafter : Settled after { c.state with diskTestsFinished := true } := fun r hr =>
      h.atPhase.settled r (List.mem_append_right _ hr)
    show Settled after ((passed base b c).state.setPhase "powercycle" _)
    rw [passed_state]
    exact Settled.setPhase (Settled.setPhase hafter _) _
  have hskip := runPhases_settled (s := s) (b := b) hsettled []
  rw [List.append_nil] at hskip
  rw [process_eq h.atPhase, run_eq (c := entered b c) hpersistent h.baseline,
    if_pos (show s.target ≤ (entered b c).done from htarget)]
  exact congrArg Prod.fst hskip

theorem process_finishes (hpersistent : s.persistent = true)
    (h : Ready s.opts before after q base past b c) {n : Nat} (hn : c.done = n)
    (htarget : s.target = n) : Finished n base (seen past c.done b.now) (s.process b c) := by
  have hsofar := Sofar.checked (b := b) h.sofar h.counted
  have hlen : (seen past c.done b.now).length = n := by
    have hdone := h.done
    omega
  rw [process_concludes hpersistent h (by rw [htarget]; exact hn.ge)]
  refine ⟨?_, hsofar.compared, ?_, ?_, ?_⟩
  · rw [← hlen, ← h.requested, ← (entered_frame b c).2.1,
      ← (checked_state base b (entered b c)).2]
    rfl
  · exact (failed_record_other (show "powercycle-ok" ∉ failKeys from by decide)).trans
      hsofar.failed
  · show ((Findings.record _ _).1.items.get? _).isSome = true
    rw [Findings.get?_record]
    rfl
  · show (passed base b c).done = n
    rw [← hn]
    unfold Cycle.done
    rw [passed_state]
    rfl

/-! ## The boots -/

/-- Every boot has an id other than the boot before it. -/
def Fresh : Option String → List Boot → Prop
  | _, [] => True
  | last, b :: rest => last ≠ some b.machine.bootId ∧ Fresh (some b.machine.bootId) rest

/-- A planned reboot is counted and noted among the boots. -/
theorem restart_state {p : PlannedReboot} (hp : c.state.plannedReboot = some p)
    (hfresh : c.state.lastBoot ≠ some b.machine.bootId) : (c.restart b.machine).state =
      { c.state with
        plannedReboot := none
        rebootCyclesDone := some p.cycle
        lastRebootSeconds :=
          if p.requestedEpoch ≠ 0 then some (max 0 ⌊b.machine.time - p.requestedEpoch⌋)
          else c.state.lastRebootSeconds
        boots := c.state.boots ++
          [⟨b.machine.bootId, b.machine.now, s!"planned reboot #{p.cycle}"⟩] } := by
  have hcause : c.state.cause b.machine.bootId = .planned p := by
    unfold SessionState.cause
    rw [if_neg hfresh, hp]
  show c.state.resume b.machine = _
  unfold SessionState.resume
  rw [hcause]

/-- The next boot counts the reboot that was planned and comes back to the phase. -/
theorem restart_ready (h : Asked s.opts before after q base past c)
    (hfresh : c.state.lastBoot ≠ some b.machine.bootId) :
    Ready s.opts before after q base past b (c.restart b.machine) ∧
      (c.restart b.machine).done = past.length + 1 ∧
      (c.restart b.machine).state.lastBoot = some b.machine.bootId := by
  obtain ⟨p, hp, hcycle⟩ := h.planned
  have hresume := restart_state (b := b) hp hfresh
  have hdone : (c.restart b.machine).done = past.length + 1 := by
    unfold Cycle.done
    rw [hresume, ← hcycle]
    rfl
  have hseen : seen past (c.restart b.machine).done b.now = past ++ [b.now] := by
    rw [seen, if_neg (by omega)]
  have hlength : (past ++ [b.now]).length = past.length + 1 := List.length_append
  refine ⟨⟨⟨h.atPhase.name, ?_, ?_, ?_, ?_⟩, ?_, ?_, ?_, Or.inr hdone, ?_⟩, hdone, ?_⟩
  · rw [hresume]
    exact h.atPhase.plan
  · rw [hresume]
    exact h.atPhase.settled
  · rw [hresume]
    exact h.atPhase.pending
  · rw [hresume]
    exact h.atPhase.calm
  · show c.baseline.getD b.first = base
    rw [h.sofar.baseline]
    rfl
  · exact h.sofar.congr h.sofar.baseline.symm rfl Iff.rfl Iff.rfl
  · rw [hseen, hlength, hdone]
    rfl
  · rw [hseen, hlength]
    exact h.requested
  · rw [hresume]
    unfold SessionState.lastBoot
    rw [List.getLast?_concat]
    rfl

/-- The boots that are left, by induction on them: each is asked for by the process before it
and compared by its own. -/
theorem reboots_finish (hpersistent : s.persistent = true) {bs : List Boot} (hne : bs ≠ [])
    (h : Asked s.opts before after q base past c) (hfresh : Fresh c.state.lastBoot bs)
    (hlen : s.target = past.length + bs.length) :
    Finished (past.length + bs.length) base (past ++ bs.map Boot.now) (s.reboots c bs) := by
  induction bs generalizing past c with
  | nil => exact absurd rfl hne
  | cons b rest ih =>
    obtain ⟨hready, hdone, hlast⟩ := restart_ready (b := b) h hfresh.1
    have hseen : seen past (c.restart b.machine).done b.now = past ++ [b.now] := by
      rw [seen, if_neg (by omega)]
    have hlength : (past ++ [b.now]).length = past.length + 1 := List.length_append
    have happend : past ++ (b :: rest).map Boot.now = (past ++ [b.now]) ++ rest.map Boot.now := by
      rw [List.append_assoc]
      rfl
    rw [List.length_cons] at hlen ⊢
    cases rest with
    | nil =>
      have hfinished := process_finishes hpersistent hready
        (show _ = ((past.length + 1 : ℕ) : Int) by rw [hdone]; rfl) hlen
      rw [hseen] at hfinished
      exact hfinished
    | cons b' rest' =>
      rw [List.length_cons] at hlen ⊢
      obtain ⟨hasked, hboot⟩ := process_asks hpersistent hready (by push_cast at hlen; omega)
      rw [hseen] at hasked
      have hnext := ih (List.cons_ne_nil b' rest') hasked
        (by rw [hboot, hlast]; exact hfresh.2) (by rw [hlength, List.length_cons]; push_cast; omega)
      rw [hlength, List.length_cons, ← happend] at hnext
      rw [show past.length + (rest'.length + 1 + 1) = past.length + 1 + (rest'.length + 1) by omega]
      exact hnext

/-- The session as `run_phases` comes to the phase for the first time. -/
structure Starts (opts : Options) (before after : List PlanEntry) (q : PlanEntry) (c : Cycle) :
    Prop where
  atPhase : AtPhase opts before after q c
  done : c.done = 0
  requested : c.requested = []
  compared : c.compared = []
  notFailed : ¬ Failed c.findings
  notIntact : ¬ Intact c.findings

theorem session_finishes (hpersistent : s.persistent = true) {bs : List Boot}
    (h : Starts s.opts before after q c) (hlen : s.target = bs.length)
    (hfresh : Fresh c.state.lastBoot bs) (first : Boot) :
    Finished bs.length (c.baseline.getD first.first) (bs.map Boot.now)
      (s.session c first bs) := by
  have hseen : seen [] c.done first.now = [] := by rw [seen, if_pos h.done]
  have hready : Ready s.opts before after q (c.baseline.getD first.first) [] first c := by
    refine ⟨h.atPhase, rfl, ⟨rfl, h.compared, ?_, h.notIntact⟩, ?_, Or.inl h.done, ?_⟩
    · exact iff_of_false h.notFailed (by simp)
    · rw [hseen, h.done]
      rfl
    · rw [hseen, h.requested]
      rfl
  cases bs with
  | nil =>
    have hfinished := process_finishes hpersistent hready (n := 0) h.done hlen
    rw [hseen] at hfinished
    exact hfinished
  | cons b rest =>
    obtain ⟨hasked, hboot⟩ := process_asks hpersistent hready (by
      rw [h.done, hlen, List.length_cons]
      push_cast
      omega)
    rw [hseen] at hasked
    have hfinished := reboots_finish hpersistent (List.cons_ne_nil b rest) hasked
      (by rw [hboot]; exact hfresh) (by rw [hlen]; simp)
    rw [List.length_nil, Nat.zero_add, List.nil_append] at hfinished
    exact hfinished

/-- The law of the phase holds exactly where no boot differs from the snapshot before, and none
is taken for one that does: the success is recorded in any case. -/
theorem endToEnd_iff_none_differs (hpersistent : s.persistent = true) {bs : List Boot}
    (h : Starts s.opts before after q c) (hlen : s.target = bs.length)
    (hfresh : Fresh c.state.lastBoot bs) (first : Boot) :
    EndToEnd bs.length (c.baseline.getD first.first) (bs.map Boot.now)
        (s.session c first bs) ↔
      ∀ b ∈ bs, ¬ Differs (c.baseline.getD first.first) b.now ∧
        ¬ Flagged (c.baseline.getD first.first) b.now := by
  have hfinished := session_finishes hpersistent h hlen hfresh first
  have hmap : ∀ P : Snapshot → Prop, (∃ s ∈ bs.map Boot.now, P s) ↔ ∃ b ∈ bs, P b.now := by
    intro P
    simp only [List.mem_map, exists_exists_and_eq_and]
  constructor
  · intro hlaw b hb
    have hnone := (hlaw.intact.mp hfinished.intact).2
    refine ⟨hnone b.now (List.mem_map_of_mem hb), fun hflag => ?_⟩
    have hfailed := hfinished.failed.mpr ⟨b.now, List.mem_map_of_mem hb, hflag⟩
    obtain ⟨now, hnow, hdiffers⟩ := hlaw.failed.mp hfailed
    exact hnone now hnow hdiffers
  · intro hnone
    refine ⟨hfinished.requested, hfinished.compared, ?_, ?_⟩
    · rw [hfinished.failed, hmap, hmap]
      constructor
      · rintro ⟨b, hb, hflag⟩
        exact absurd hflag (hnone b hb).2
      · rintro ⟨b, hb, hdiffers⟩
        exact absurd hdiffers (hnone b hb).1
    · refine iff_of_true hfinished.intact ⟨hfinished.done, fun now hnow => ?_⟩
      obtain ⟨b, hb, rfl⟩ := List.mem_map.mp hnow
      exact (hnone b hb).1

/-- Two memory modules before the first reboot. -/
def whole : Snapshot :=
  { cpus := 8, memoryMib := 16000, dimms := ["A1", "B1"], disks := ["sda"], nics := ["eth0"] }

def plainReboots (n : Nat) : Setting :=
  { opts := { rebootCycles := n }, persistent := true, other := fun _ c => c }

def atPowercycle : Cycle :=
  { state :=
      { session := "s", identity := ⟨"m", "d"⟩, plan := [⟨"powercycle", 0⟩],
        phases := Dict.ofList [("powercycle", { status := some .pending })] },
    baseline := some whole, findings := Findings.new }

def bootWith (bootId : String) (now : Snapshot) : Boot := ⟨⟨bootId, "", 0⟩, whole, now, 0, 0⟩

theorem starts_atPowercycle (n : Nat) :
    Starts (plainReboots n).opts [] [] ⟨"powercycle", 0⟩ atPowercycle where
  atPhase := ⟨rfl, rfl, fun _ hr => (List.not_mem_nil hr).elim, ⟨_, rfl, rfl⟩,
    show atPowercycle.state.unexpectedReboots < ({} : Options).maxUnexpectedReboots by decide⟩
  done := rfl
  requested := rfl
  compared := rfl
  notFailed := by
    rintro ⟨k, -, f, hf, -⟩
    cases hf
  notIntact := fun h => by cases h

/-- Firmware that keeps a little more memory for itself. -/
def shifted : Snapshot := { whole with memoryMib := 15900 }

theorem endToEnd_iff_none_differs_shifted :
    EndToEnd 2 whole [shifted, whole] ((plainReboots 2).session atPowercycle (bootWith "b0" whole)
      [bootWith "b1" shifted, bootWith "b2" whole]) := by
  have hfresh : Fresh atPowercycle.state.lastBoot [bootWith "b1" shifted, bootWith "b2" whole] :=
    ⟨Option.some_ne_none _ |>.symm, by decide, trivial⟩
  exact (endToEnd_iff_none_differs (s := plainReboots 2) rfl (starts_atPowercycle 2) rfl hfresh
    (bootWith "b0" whole)).mpr (by decide +kernel)

def moduleLost : List Boot := [bootWith "b1" { whole with dimms := ["A1"] }]

/-- A module is missing after the reboot, and the phase says that the hardware is intact. -/
theorem intact_with_module_missing :
    ¬ ∀ (s : Setting) (before after : List PlanEntry) (q : PlanEntry) (c : Cycle) (first : Boot)
      (bs : List Boot), s.persistent = true → Starts s.opts before after q c →
      s.target = bs.length → Fresh c.state.lastBoot bs →
      EndToEnd bs.length (c.baseline.getD first.first) (bs.map Boot.now)
        (s.session c first bs) := by
  intro h
  have hfresh : Fresh atPowercycle.state.lastBoot moduleLost :=
    ⟨Option.some_ne_none _ |>.symm, trivial⟩
  have hlaw := h (plainReboots 1) [] [] ⟨"powercycle", 0⟩ atPowercycle (bootWith "b0" whole)
    moduleLost rfl (starts_atPowercycle 1) rfl hfresh
  have hfinished := session_finishes (s := plainReboots 1) rfl (starts_atPowercycle 1) rfl hfresh
    (bootWith "b0" whole)
  refine (hlaw.intact.mp hfinished.intact).2 _ List.mem_cons_self (Or.inl ⟨.dimms, ?_, rfl⟩)
  decide

end Setting

end PowerCycle
end PcCheck
