/-
What the main thread does to the phases (`run_phases` and `record_incident`).

In every state of a session the phases before one that has left pending are settled.  One
change of `run_phases` or of `record_incident` follows the rules of `Follows`: a settled
phase keeps its status, a phase that starts was pending behind settled ones and below the
limit of reboots, and only the inventory and the power cycles become pending again.
-/
import PcCheck.Phases

namespace PcCheck

namespace SessionState

theorem statusOf_setPhase {st : SessionState} {n : String} {given : PhaseState}
    {v : PhaseStatus} (h : given.status = some v) (k : String) :
    (st.setPhase n given).statusOf k = if k = n then some v else st.statusOf k := by
  unfold statusOf setPhase
  rw [Dict.get?_set]
  split
  · simp [PhaseState.update, h]
  · rfl

theorem statusOf_congr {st st' : SessionState} (h : st.phases = st'.phases) (n : String) :
    st.statusOf n = st'.statusOf n := by
  rw [statusOf, statusOf, h]

theorem statusOf_of_runningPhase {st : SessionState} {n : String} (h : st.runningPhase = some n) :
    st.statusOf n = some .running := by
  obtain ⟨⟨k, ps⟩, hfind, rfl⟩ := Option.map_eq_some_iff.mp h
  have hrun := List.find?_some hfind
  have hget : st.phases.get? k = some ps :=
    Dict.get?_eq_some_iff.mpr (List.mem_of_find?_eq_some hfind)
  rw [statusOf, hget]
  simpa using hrun

theorem statusOf_of_no_runningPhase {st : SessionState} (h : st.runningPhase = none) (n : String) :
    st.statusOf n ≠ some .running := by
  intro hn
  obtain ⟨ps, hget, hps⟩ := Option.bind_eq_some_iff.mp hn
  have hnone := List.find?_eq_none.mp (Option.map_eq_none_iff.mp h) (n, ps)
    (Dict.get?_eq_some_iff.mp hget)
  simp [hps] at hnone

theorem runningPhase_congr {st st' : SessionState} (h : st.phases = st'.phases) :
    st.runningPhase = st'.runningPhase := by
  rw [runningPhase, runningPhase, h]

@[simp] theorem resume_phases (st : SessionState) (m : Machine) :
    (st.resume m).phases = st.phases := by
  unfold resume
  cases st.cause m.bootId <;> rfl

theorem resume_kept (st : SessionState) (m : Machine) :
    (st.resume m).plan = st.plan ∧ (st.resume m).options = st.options ∧
      (st.resume m).plannedReboot = none := by
  unfold resume
  cases st.cause m.bootId <;> exact ⟨rfl, rfl, rfl⟩

end SessionState

namespace Phases

/-- What the plans of `build_plan` have in common. -/
structure PlanShape (names : List String) : Prop where
  nodup : names.Nodup
  named : "" ∉ names
  last : ∀ pre post, names = pre ++ "powercycle" :: post → post = []

theorem planShape_of_buildPlan {opts : Options} {plan : List PlanEntry}
    (h : buildPlan opts = .ok plan) : PlanShape (plan.map PlanEntry.name) := by
  obtain ⟨stress, hstress, rfl⟩ := buildPlan_eq_ok h
  set kept := (phaseWeights.map Prod.fst).filter (fun name => name ∉ opts.skip) with hkept
  have hsub : kept.Sublist (phaseWeights.map Prod.fst) := List.filter_sublist
  have hkeptNodup : kept.Nodup := hsub.nodup (by decide)
  have hinv : "inventory" ∉ kept := fun hmem => absurd (hsub.subset hmem) (by decide)
  have hpow : "powercycle" ∉ kept := fun hmem => absurd (hsub.subset hmem) (by decide)
  have hempty : "" ∉ kept := fun hmem => absurd (hsub.subset hmem) (by decide)
  have hnodup : ("inventory" :: kept).Nodup := List.nodup_cons.mpr ⟨hinv, hkeptNodup⟩
  have hnot : "powercycle" ∉ "inventory" :: kept := by simp [hpow]
  split
  · have hnames : (PlanEntry.mk "inventory" 0 :: stress ++ [PlanEntry.mk "powercycle" 0]).map
        PlanEntry.name = ("inventory" :: kept) ++ ["powercycle"] := by
      simp [hstress]
    rw [hnames]
    refine ⟨?_, by simp [hempty], fun pre post heq => ?_⟩
    · rw [List.nodup_append]
      refine ⟨hnodup, List.nodup_singleton _, fun a ha b hb hab => ?_⟩
      rw [List.mem_singleton] at hb
      exact hnot (hb ▸ hab ▸ ha)
    · exact ((List.append_cons_inj_of_notMem hnot List.not_mem_nil).mp heq).2.2.symm
  · have hnames : (PlanEntry.mk "inventory" 0 :: stress ++ []).map PlanEntry.name =
        "inventory" :: kept := by
      simp [hstress]
    rw [hnames]
    refine ⟨hnodup, by simp [hempty], fun pre post heq => absurd ?_ hnot⟩
    rw [heq]
    simp

/-- A status that is not to change any more. -/
def Settled (s : Option PhaseStatus) : Prop :=
  s ≠ none ∧ s ≠ some .pending ∧ s ≠ some .running

instance (s : Option PhaseStatus) : Decidable (Settled s) :=
  inferInstanceAs (Decidable (_ ∧ _))

/-- The state of a session in the middle of its phases. -/
structure Shape (names : List String) (st : SessionState) : Prop where
  plan : st.plan.map PlanEntry.name = names
  known : ∀ n, (st.statusOf n).isSome = true ↔ n ∈ names
  front : ∀ a ∈ names, ∀ b ∈ names, names.idxOf a < names.idxOf b →
    st.statusOf b = some .pending ∨ Settled (st.statusOf a)
  planned : st.plannedReboot.isSome = true →
    ∀ n, st.statusOf n = some .running → n = "powercycle"

/-- What a later state of the session may make of the phases of an earlier one. -/
structure Follows (names : List String) (limit : Int) (old new : SessionState) : Prop where
  settled : ∀ n, Settled (old.statusOf n) → new.statusOf n = old.statusOf n
  started : ∀ n, new.statusOf n = some .running → old.statusOf n ≠ some .running →
    old.statusOf n = some .pending ∧ new.unexpectedReboots < limit ∧
      ∀ a ∈ names, names.idxOf a < names.idxOf n → Settled (old.statusOf a)
  again : ∀ n, new.statusOf n = some .pending → old.statusOf n ≠ some .pending →
    n = "inventory" ∨ n = "powercycle"

theorem Follows.of_phases {names : List String} {limit : Int} {old new : SessionState}
    (h : new.phases = old.phases) : Follows names limit old new where
  settled n _ := SessionState.statusOf_congr h n
  started n hnew hold := absurd (SessionState.statusOf_congr h n ▸ hnew) hold
  again n hnew hold := absurd (SessionState.statusOf_congr h n ▸ hnew) hold

theorem Follows.congr_left {names : List String} {limit : Int} {old old' new : SessionState}
    (h : Follows names limit old new) (heq : old.phases = old'.phases) :
    Follows names limit old' new := by
  have hstatus := SessionState.statusOf_congr heq
  refine ⟨fun n hn => ?_, fun n hnew hold => ?_, fun n hnew hold => ?_⟩
  · rw [← hstatus] at hn ⊢
    exact h.settled n hn
  · rw [← hstatus] at hold ⊢
    obtain ⟨hpending, hlimit, hbefore⟩ := h.started n hnew hold
    refine ⟨hpending, hlimit, fun a ha hlt => ?_⟩
    rw [← hstatus]
    exact hbefore a ha hlt
  · rw [← hstatus] at hold
    exact h.again n hnew hold

namespace Shape

variable {names : List String} {st : SessionState}

theorem congr {st' : SessionState} (h : Shape names st) (hplan : st'.plan = st.plan)
    (hphases : st'.phases = st.phases)
    (hplanned : st'.plannedReboot.isSome = true → st.plannedReboot.isSome = true) :
    Shape names st' := by
  have hstatus := SessionState.statusOf_congr hphases
  refine ⟨by rw [hplan, h.plan], fun n => ?_, fun a ha b hb hlt => ?_, fun hsome n hn => ?_⟩
  · rw [hstatus]
    exact h.known n
  · rw [hstatus, hstatus]
    exact h.front a ha b hb hlt
  · rw [hstatus] at hn
    exact h.planned (hplanned hsome) n hn

theorem mem_of_status (h : Shape names st) {n : String} {v : PhaseStatus}
    (hn : st.statusOf n = some v) : n ∈ names :=
  (h.known n).mp (by rw [hn]; rfl)

/-- At most one phase is running. -/
theorem running_unique (h : Shape names st) {a b : String}
    (ha : st.statusOf a = some .running) (hb : st.statusOf b = some .running) : a = b := by
  have hma := h.mem_of_status ha
  have hmb := h.mem_of_status hb
  have hnot : ¬ Settled (some PhaseStatus.running) := by decide
  have hne : (some PhaseStatus.running) ≠ some .pending := by decide
  by_contra hab
  have hidx : names.idxOf a ≠ names.idxOf b := fun heq => hab ((List.idxOf_inj hma).mp heq)
  rcases Nat.lt_or_gt_of_ne hidx with hlt | hlt
  · rcases h.front a hma b hmb hlt with hp | hs
    · exact hne (hb ▸ hp)
    · exact hnot (ha ▸ hs)
  · rcases h.front b hmb a hma hlt with hp | hs
    · exact hne (ha ▸ hp)
    · exact hnot (hb ▸ hs)

/-- The one phase that may change is the first that is not settled. -/
theorem setPhase (h : Shape names st) {n : String} {given : PhaseState} {v : PhaseStatus}
    (hgiven : given.status = some v) (hn : n ∈ names) (hopen : ¬ Settled (st.statusOf n))
    (hbefore : ∀ a ∈ names, names.idxOf a < names.idxOf n → Settled (st.statusOf a))
    (hplanned : v = .running → st.plannedReboot = none ∨ n = "powercycle") :
    Shape names (st.setPhase n given) := by
  have hstatus : ∀ k, (st.setPhase n given).statusOf k = if k = n then some v else st.statusOf k :=
    SessionState.statusOf_setPhase hgiven
  refine ⟨h.plan, fun k => ?_, fun a ha b hb hlt => ?_, fun hsome k hk => ?_⟩
  · rw [hstatus]
    by_cases hkn : k = n
    · simp [hkn, hn]
    · rw [if_neg hkn]
      exact h.known k
  · rw [hstatus, hstatus]
    by_cases hbn : b = n
    · subst hbn
      have hab : a ≠ b := fun heq => by rw [heq] at hlt; omega
      rw [if_neg hab]
      exact Or.inr (hbefore a ha hlt)
    · rw [if_neg hbn]
      by_cases han : a = n
      · subst han
        rcases h.front a ha b hb hlt with hp | hs
        · exact Or.inl hp
        · exact absurd hs hopen
      · rw [if_neg han]
        exact h.front a ha b hb hlt
  · rw [hstatus] at hk
    by_cases hkn : k = n
    · subst hkn
      rw [if_pos rfl] at hk
      rcases hplanned (Option.some.inj hk) with hnone | hpc
      · have hsome' : st.plannedReboot.isSome = true := hsome
        rw [hnone] at hsome'
        cases hsome'
      · exact hpc
    · rw [if_neg hkn] at hk
      exact h.planned hsome k hk

/-- The phases before one that runs are settled. -/
theorem settled_before (h : Shape names st) {n : String} (hn : st.statusOf n = some .running) :
    ∀ a ∈ names, names.idxOf a < names.idxOf n → Settled (st.statusOf a) := by
  intro a ha hlt
  rcases h.front a ha n (h.mem_of_status hn) hlt with hp | hs
  · rw [hn] at hp
    cases hp
  · exact hs

end Shape

/-! ## The main thread -/

/-- Only the power cycles can be running. -/
def Calm (st : SessionState) : Prop := ∀ n, st.statusOf n = some .running → n = "powercycle"

/-- The loop of `run_phases` has passed the phases before `rest`. -/
def Passed (st : SessionState) (rest : List PlanEntry) : Prop :=
  ∃ done, st.plan = done ++ rest ∧ ∀ q ∈ done, st.statusOf q.name ≠ some .pending

structure Idle (p : Process) : Prop where
  calm : Calm p.state
  planned : p.state.plannedReboot = none
  request : p.rebootRequest = none

/-- A phase is up next. -/
structure Next (p : Process) (q : PlanEntry) (rest : List PlanEntry) : Prop extends Idle p where
  passed : Passed p.state (q :: rest)
  pending : p.state.statusOf q.name = some .pending
  below : p.state.unexpectedReboots < p.opts.maxUnexpectedReboots

/-- What holds where the main thread is. -/
def Ready (p : Process) : Pc → Prop
  | .opened =>
    p.state.plannedReboot = none ∧ p.rebootRequest = none ∧
      p.session.previous.runningPhase = p.state.runningPhase ∧
      (Calm p.state ∨ p.session.unexpectedReboot = true ∨
        (p.session.plannedReboot = false ∧ p.session.orchestratorRestart = true))
  | .ready => Idle p
  | .loop rest => Idle p ∧ Passed p.state rest
  | .waiting q rest => Next p q rest
  | .waited q rest => Next p q rest
  | .chosen q rest => Next p q rest
  | .phase q rest =>
    p.state.statusOf q.name = some .running ∧ p.state.plannedReboot = none ∧
      p.rebootRequest = none ∧ Passed p.state (q :: rest)
  | .requested q _ =>
    q.name = "powercycle" ∧ p.state.statusOf q.name = some .running ∧
      p.rebootRequest.isSome = true
  | .rebooting => True
  | .finalizing => True
  | .finished => True
  | .saving next => Ready p next

/-- What holds of a process whatever the file holds. -/
structure Running (opts : Options) (names : List String) (p : Process) : Prop where
  sameOpts : p.opts = opts
  options : p.state.options = some opts
  shape : Shape names p.state
  ready : Ready p p.pc

/-- What one step of the process does to its memory. -/
structure Moves (opts : Options) (names : List String) (p q : Process) : Prop where
  running : Running opts names q
  follows : Follows names opts.maxUnexpectedReboots p.state q.state
  seq : q.session.seq = p.session.seq
  unsaved : (∀ next, q.pc ≠ .saving next) → q.state.phases = p.state.phases

section Main

variable {opts : Options} {names : List String} {p q : Process}

theorem Passed.pass {st : SessionState} {e : PlanEntry} {rest : List PlanEntry}
    (h : Passed st (e :: rest)) (he : st.statusOf e.name ≠ some .pending) : Passed st rest := by
  obtain ⟨done, hplan, hdone⟩ := h
  refine ⟨done ++ [e], by rw [hplan, List.append_assoc]; rfl, fun q hq => ?_⟩
  rcases List.mem_append.mp hq with hq | hq
  · exact hdone q hq
  · rw [List.mem_singleton] at hq
    rw [hq]
    exact he

theorem Passed.congr {st st' : SessionState} {rest : List PlanEntry} (h : Passed st rest)
    (hplan : st'.plan = st.plan) (hstatus : ∀ n, st'.statusOf n = some .pending →
      st.statusOf n = some .pending) : Passed st' rest := by
  obtain ⟨done, hdone, hpassed⟩ := h
  exact ⟨done, by rw [hplan, hdone], fun q hq hp => hpassed q hq (hstatus q.name hp)⟩

/-- The phases before the one the loop is at are settled. -/
theorem Passed.settled {st : SessionState} {e : PlanEntry} {rest : List PlanEntry}
    (h : Passed st (e :: rest)) (hshape : Shape names st) (hplan : PlanShape names)
    (hcalm : Calm st) : ∀ a ∈ names, names.idxOf a < names.idxOf e.name →
      Settled (st.statusOf a) := by
  obtain ⟨done, hdone, hpassed⟩ := h
  have hnames : names = done.map PlanEntry.name ++ e.name :: rest.map PlanEntry.name := by
    rw [← hshape.plan, hdone, List.map_append, List.map_cons]
  intro a ha hlt
  have hnodup := hplan.nodup
  rw [hnames] at hnodup
  have hefresh : e.name ∉ done.map PlanEntry.name := by
    intro hmem
    rw [List.nodup_append] at hnodup
    exact hnodup.2.2 e.name hmem e.name List.mem_cons_self rfl
  have hadone : a ∈ done.map PlanEntry.name := by
    by_contra hnot
    rw [hnames, List.idxOf_append_of_notMem hnot, List.idxOf_append_of_notMem hefresh,
      List.idxOf_cons_self] at hlt
    omega
  obtain ⟨d, hd, rfl⟩ := List.mem_map.mp hadone
  refine ⟨?_, hpassed d hd, fun hrun => ?_⟩
  · intro hnone
    have hsome := (hshape.known d.name).mpr ha
    rw [hnone] at hsome
    cases hsome
  · have hpow := hcalm d.name hrun
    obtain ⟨pre, post, hsplit⟩ := List.append_of_mem hadone
    rw [hpow] at hsplit
    rw [hsplit, List.append_assoc] at hnames
    have hempty := hplan.last pre _ hnames
    simp at hempty

theorem not_settled_pending : ¬ Settled (some .pending) := by decide

theorem not_settled_running : ¬ Settled (some .running) := by decide

theorem Follows.setPhase {limit : Int} {st : SessionState} {n : String} {given : PhaseState}
    {v : PhaseStatus} (hgiven : given.status = some v) (hopen : ¬ Settled (st.statusOf n))
    (hstart : v = .running → st.statusOf n = some .pending ∧ st.unexpectedReboots < limit ∧
      ∀ a ∈ names, names.idxOf a < names.idxOf n → Settled (st.statusOf a))
    (hagain : v = .pending → n = "inventory" ∨ n = "powercycle") :
    Follows names limit st (st.setPhase n given) := by
  have hstatus : ∀ k, (st.setPhase n given).statusOf k = if k = n then some v else st.statusOf k :=
    SessionState.statusOf_setPhase hgiven
  refine ⟨fun k hk => ?_, fun k hnew hold => ?_, fun k hnew hold => ?_⟩
  · rw [hstatus, if_neg]
    exact fun hkn => hopen (hkn ▸ hk)
  · rw [hstatus] at hnew
    by_cases hkn : k = n
    · subst hkn
      rw [if_pos rfl] at hnew
      exact hstart (Option.some.inj hnew)
    · rw [if_neg hkn] at hnew
      exact absurd hnew hold
  · rw [hstatus] at hnew
    by_cases hkn : k = n
    · subst hkn
      rw [if_pos rfl] at hnew
      exact hagain (Option.some.inj hnew)
    · rw [if_neg hkn] at hnew
      exact absurd hnew hold

/-- Once the phase that ran has another status, none is running. -/
theorem calm_setPhase {st : SessionState} (h : Shape names st) {n : String} {given : PhaseState}
    {v : PhaseStatus} (hgiven : given.status = some v) (hv : v ≠ .running)
    (hn : st.statusOf n = some .running) : Calm (st.setPhase n given) := by
  intro k hk
  rw [SessionState.statusOf_setPhase hgiven] at hk
  by_cases hkn : k = n
  · rw [if_pos hkn] at hk
    exact absurd (Option.some.inj hk) hv
  · rw [if_neg hkn] at hk
    exact absurd (h.running_unique hk hn) hkn

/-! ### `record_incident` -/

theorem incidentPhase_eq_some {s : Session} {phase : String} {given : PhaseState}
    (h : s.incidentPhase = some (phase, given)) : s.previous.runningPhase = some phase ∧
      ((phase = "inventory" ∧ given.status = some .pending) ∨
        given.status = some .interrupted ∨ given.status = some .error) := by
  unfold Session.incidentPhase at h
  cases hrun : s.previous.runningPhase with
  | none => simp [hrun] at h
  | some n =>
    simp only [hrun] at h
    split at h
    · cases h
    · split at h
      · split at h
        · obtain ⟨rfl, rfl⟩ := Prod.mk.inj (Option.some.inj h)
          exact ⟨rfl, Or.inl ⟨by assumption, rfl⟩⟩
        · obtain ⟨rfl, rfl⟩ := Prod.mk.inj (Option.some.inj h)
          exact ⟨rfl, Or.inr (Or.inl rfl)⟩
      · split at h
        · cases h
        · split at h
          · split at h
            · obtain ⟨rfl, rfl⟩ := Prod.mk.inj (Option.some.inj h)
              exact ⟨rfl, Or.inl ⟨by assumption, rfl⟩⟩
            · obtain ⟨rfl, rfl⟩ := Prod.mk.inj (Option.some.inj h)
              exact ⟨rfl, Or.inr (Or.inr rfl)⟩
          · cases h

/-- `record_incident` marks the phase that was running except after a planned reboot. -/
theorem incidentPhase_isSome {s : Session} {phase : String}
    (hrun : s.previous.runningPhase = some phase) (hne : phase ≠ "") :
    s.incidentPhase.isSome = true ↔ s.unexpectedReboot = true ∨
      (s.plannedReboot = false ∧ s.orchestratorRestart = true) := by
  unfold Session.incidentPhase
  rw [hrun]
  by_cases hinv : phase = "inventory" <;>
    cases s.unexpectedReboot <;> cases s.plannedReboot <;> cases s.orchestratorRestart <;>
    simp [hne, hinv]

theorem noteIncident_frame (s : Session) (now : String) :
    (s.noteIncident now).state =
        { s.state with incidents := (s.noteIncident now).state.incidents } ∧
      (s.noteIncident now).previous = s.previous ∧
      (s.noteIncident now).incidentPhase = s.incidentPhase := by
  unfold Session.noteIncident
  split <;> exact ⟨rfl, rfl, rfl⟩

/-- The status a phase is marked with. -/
theorem incidentPhase_status {s : Session} {phase : String} {given : PhaseState}
    (h : s.incidentPhase = some (phase, given)) : ∃ v, given.status = some v ∧
      v ∈ [PhaseStatus.pending, .interrupted, .error] ∧ (v = .pending → phase = "inventory") := by
  rcases (incidentPhase_eq_some h).2 with ⟨hinv, hv⟩ | hv | hv
  · exact ⟨_, hv, by decide, fun _ => hinv⟩
  · exact ⟨_, hv, by decide, fun hpending => by cases hpending⟩
  · exact ⟨_, hv, by decide, fun hpending => by cases hpending⟩

theorem noteIncident_phases (s : Session) (now : String) :
    (s.noteIncident now).state.phases = s.state.phases := by
  rw [(noteIncident_frame s now).1]

theorem statusOf_incident_none {p : Process} (h : p.session.incidentPhase = none)
    (now n : String) : (p.incident now).state.statusOf n = p.state.statusOf n := by
  have hinc := (noteIncident_frame p.session now).2.2.trans h
  simp only [Process.incident, hinc, Process.state]
  exact SessionState.statusOf_congr (noteIncident_phases p.session now) n

theorem statusOf_incident_some {p : Process} {phase : String} {given : PhaseState}
    {v : PhaseStatus} (h : p.session.incidentPhase = some (phase, given))
    (hv : given.status = some v) (now n : String) : (p.incident now).state.statusOf n =
      if n = phase then some v else p.state.statusOf n := by
  have hinc := (noteIncident_frame p.session now).2.2.trans h
  simp only [Process.incident, hinc, Process.state]
  rw [SessionState.statusOf_setPhase hv,
    SessionState.statusOf_congr (noteIncident_phases p.session now)]

theorem moves_incident (hplan : PlanShape names) (h : Running opts names p)
    (hpc : p.pc = .opened) (now : String) : Moves opts names p (p.incident now) := by
  have hready := h.ready
  rw [hpc] at hready
  obtain ⟨hplanned, hrequest, hprev, hcalm⟩ := hready
  obtain ⟨hstate, hprevious, hphase⟩ := noteIncident_frame p.session now
  have hshape : Shape names (p.session.noteIncident now).state := by
    rw [hstate]
    exact h.shape.congr rfl rfl id
  have hphases : (p.session.noteIncident now).state.phases = p.state.phases :=
    noteIncident_phases p.session now
  have hnone : (p.session.noteIncident now).state.plannedReboot = none := by
    rw [hstate]
    exact hplanned
  have hoptions : (p.session.noteIncident now).state.options = some opts := by
    rw [hstate]
    exact h.options
  have hseq : (p.session.noteIncident now).seq = p.session.seq := p.session.noteIncident_seq now
  cases hinc : (p.session.noteIncident now).incidentPhase with
  | none =>
    have heq : p.incident now =
        { p with session := p.session.noteIncident now, pc := .saving .ready } := by
      simp only [Process.incident, hinc]
    rw [heq]
    refine ⟨⟨h.sameOpts, hoptions, hshape, ?_⟩, Follows.of_phases hphases, hseq, fun hns =>
      absurd rfl (hns .ready)⟩
    refine ⟨fun n hn => ?_, hnone, hrequest⟩
    have hn' : p.state.statusOf n = some .running := by
      rw [← SessionState.statusOf_congr hphases]
      exact hn
    cases hrun : p.state.runningPhase with
    | none => exact absurd hn' (SessionState.statusOf_of_no_runningPhase hrun n)
    | some k =>
      have hk := SessionState.statusOf_of_runningPhase hrun
      have hkne : k ≠ "" := fun heq => hplan.named (heq ▸ h.shape.mem_of_status hk)
      rw [hphase] at hinc
      have hsome := incidentPhase_isSome (hprev.trans hrun) hkne
      rw [hinc] at hsome
      rcases hcalm with hcalm | hflags
      · exact hcalm n hn'
      · exact absurd (hsome.mpr hflags) (by decide)
  | some pair =>
    obtain ⟨phase, given⟩ := pair
    have hrun := (incidentPhase_eq_some hinc).1
    rw [hprevious, hprev] at hrun
    have hrunning := SessionState.statusOf_of_runningPhase hrun
    rw [← SessionState.statusOf_congr hphases] at hrunning
    obtain ⟨v, hv, hmem, hagain⟩ := incidentPhase_status hinc
    have hne : v ≠ .running := by
      rintro rfl
      exact absurd hmem (by decide)
    have hopen : ¬ Settled ((p.session.noteIncident now).state.statusOf phase) := by
      rw [hrunning]
      exact not_settled_running
    have hfollows : Follows names opts.maxUnexpectedReboots (p.session.noteIncident now).state
        ((p.session.noteIncident now).state.setPhase phase given) :=
      Follows.setPhase hv hopen (fun heq => absurd heq hne) fun heq => Or.inl (hagain heq)
    have heq : p.incident now =
        { p with session := { p.session.noteIncident now with
                   state := (p.session.noteIncident now).state.setPhase phase given }
                 pc := .saving (.saving .ready) } := by
      simp only [Process.incident, hinc]
    rw [heq]
    refine ⟨⟨h.sameOpts, hoptions, ?_, ?_⟩, hfollows.congr_left hphases, hseq, fun hns =>
      absurd rfl (hns (.saving .ready))⟩
    · exact hshape.setPhase hv (hshape.mem_of_status hrunning) hopen
        (hshape.settled_before hrunning) fun heq => absurd heq hne
    · exact ⟨calm_setPhase hshape hv hne hrunning, hnone, hrequest⟩

/-! ### `run_phases` -/

theorem phaseState_of_status {st : SessionState} {n : String} {v : PhaseStatus}
    (h : st.statusOf n = some v) :
    (st.phaseState n).1 = st ∧ (st.phaseState n).2.status = some v := by
  obtain ⟨ps, hget, hps⟩ := Option.bind_eq_some_iff.mp h
  unfold SessionState.phaseState Dict.setDefault
  rw [hget]
  exact ⟨rfl, hps⟩

/-- A step that leaves the phases alone. -/
theorem moves_frame (h : Running opts names p) {f : SessionState → SessionState} {pc : Pc}
    (hphases : (f p.state).phases = p.state.phases) (hplan : (f p.state).plan = p.state.plan)
    (hoptions : (f p.state).options = p.state.options)
    (hplanned : (f p.state).plannedReboot.isSome = true → p.state.plannedReboot.isSome = true)
    (hready : Ready (p.change f pc) pc) : Moves opts names p (p.change f pc) :=
  ⟨⟨h.sameOpts, hoptions.trans h.options, h.shape.congr hplan hphases hplanned, hready⟩,
    Follows.of_phases hphases, rfl, fun _ => hphases⟩

/-- A step that gives a phase a status, before its save. -/
theorem moves_setPhase (h : Running opts names p) {n : String} {given : PhaseState}
    {v : PhaseStatus} {next : Pc} (hgiven : given.status = some v) (hn : n ∈ names)
    (hopen : ¬ Settled (p.state.statusOf n))
    (hbefore : ∀ a ∈ names, names.idxOf a < names.idxOf n → Settled (p.state.statusOf a))
    (hstart : v = .running → p.state.statusOf n = some .pending ∧
      p.state.unexpectedReboots < opts.maxUnexpectedReboots ∧ p.state.plannedReboot = none)
    (hagain : v = .pending → n = "inventory" ∨ n = "powercycle")
    (hready : Ready (p.change (fun st => st.setPhase n given) (.saving next)) next) :
    Moves opts names p (p.change (fun st => st.setPhase n given) (.saving next)) := by
  refine ⟨⟨h.sameOpts, h.options, ?_, hready⟩, ?_, rfl, fun hns => absurd rfl (hns next)⟩
  · exact h.shape.setPhase hgiven hn hopen hbefore fun hv => Or.inl (hstart hv).2.2
  · exact Follows.setPhase hgiven hopen
      (fun hv => ⟨(hstart hv).1, (hstart hv).2.1, hbefore⟩) hagain

theorem moves_next (hplan : PlanShape names) (h : Running opts names p) {rest : List PlanEntry}
    (hpc : p.pc = .loop rest) : Moves opts names p (p.next rest) := by
  have hready := h.ready
  rw [hpc] at hready
  obtain ⟨hidle, hpassed⟩ := hready
  cases rest with
  | nil =>
    exact ⟨⟨h.sameOpts, h.options, h.shape, trivial⟩, Follows.of_phases rfl, rfl, fun _ => rfl⟩
  | cons q rest =>
    have hq : q.name ∈ names := by
      obtain ⟨done, hdone, -⟩ := hpassed
      rw [← h.shape.plan, hdone]
      simp
    obtain ⟨v, hv⟩ := Option.isSome_iff_exists.mp ((h.shape.known q.name).mpr hq)
    obtain ⟨hst, hps⟩ := phaseState_of_status hv
    have hbefore := hpassed.settled h.shape hplan hidle.calm
    have hframe : ∀ pc, Ready (p.change (fun _ => p.state) pc) pc →
        Moves opts names p (p.change (fun _ => p.state) pc) :=
      fun pc hready => moves_frame h rfl rfl rfl id hready
    simp only [Process.next, hst, hps]
    split
    · refine hframe _ ⟨⟨hidle.calm, hidle.planned, hidle.request⟩, hpassed.pass ?_⟩
      rw [hv]
      assumption
    · rename_i hpending
      obtain rfl : v = .pending := Option.some.inj (not_not.mp hpending)
      have hopen : ¬ Settled (p.state.statusOf q.name) := by
        rw [hv]
        exact not_settled_pending
      split
      · exact hframe _ trivial
      · split
        · refine moves_setPhase (v := .skipped) h rfl hq hopen hbefore nofun nofun ⟨?_, ?_⟩
          · refine ⟨fun n hn => ?_, hidle.planned, hidle.request⟩
            have hn' : (p.state.setPhase q.name _).statusOf n = some .running := hn
            rw [SessionState.statusOf_setPhase (v := .skipped) rfl] at hn'
            split at hn'
            · cases hn'
            · exact hidle.calm n hn'
          · refine Passed.pass (e := q) (hpassed.congr rfl fun n hn => ?_) ?_
            · have hn' : (p.state.setPhase q.name _).statusOf n = some .pending := hn
              rw [SessionState.statusOf_setPhase (v := .skipped) rfl] at hn'
              split at hn'
              · cases hn'
              · exact hn'
            · show (p.state.setPhase q.name _).statusOf q.name ≠ _
              rw [SessionState.statusOf_setPhase (v := .skipped) rfl, if_pos rfl]
              decide
        · rename_i hlimit
          have hnext : ∀ pc, Next (p.change (fun _ => p.state) pc) q rest :=
            fun pc => ⟨⟨hidle.calm, hidle.planned, hidle.request⟩, hpassed, hv, not_le.mp hlimit⟩
          split
          · exact hframe _ (hnext _)
          · exact hframe _ (hnext _)

theorem settled_phaseStatus (aborted : Bool) (fs : List Finding) :
    Settled (some (phaseStatus aborted fs)) := by
  unfold phaseStatus
  split
  · decide
  · split
    · decide
    · split
      · decide
      · split <;> decide

/-- The phase that ran gets a status it keeps, and the loop goes on behind it. -/
theorem moves_conclude (h : Running opts names p) {q : PlanEntry} {rest : List PlanEntry}
    (hready : Ready p (.phase q rest)) {given : PhaseState} {v : PhaseStatus}
    (hgiven : given.status = some v) (hv : Settled (some v)) :
    Moves opts names p (p.change (fun st => st.setPhase q.name given) (.saving (.loop rest))) := by
  obtain ⟨hrun, hplanned, hrequest, hpassed⟩ := hready
  have hpending : v ≠ .pending := fun heq => hv.2.1 (congrArg some heq)
  have hrunning : v ≠ .running := fun heq => hv.2.2 (congrArg some heq)
  have hopen : ¬ Settled (p.state.statusOf q.name) := by
    rw [hrun]
    exact not_settled_running
  refine moves_setPhase h hgiven (h.shape.mem_of_status hrun) hopen (h.shape.settled_before hrun)
    (fun heq => absurd heq hrunning) (fun heq => absurd heq hpending)
    ⟨⟨calm_setPhase h.shape hgiven hrunning hrun, hplanned, hrequest⟩, ?_⟩
  refine Passed.pass (e := q) (hpassed.congr rfl fun n hn => ?_) ?_
  · have hn' : (p.state.setPhase q.name given).statusOf n = some .pending := hn
    rw [SessionState.statusOf_setPhase hgiven] at hn'
    split at hn'
    · exact absurd (Option.some.inj hn') hpending
    · exact hn'
  · show (p.state.setPhase q.name given).statusOf q.name ≠ _
    rw [SessionState.statusOf_setPhase hgiven, if_pos rfl]
    exact fun heq => hpending (Option.some.inj heq)

theorem moves_startPhase (hplan : PlanShape names) (h : Running opts names p) {q : PlanEntry}
    {rest : List PlanEntry} (hpc : p.pc = .chosen q rest) (now : String) :
    Moves opts names p (p.change (fun st => st.setPhase q.name
      { status := some .running, started := some now }) (.saving (.phase q rest))) := by
  have hready := h.ready
  rw [hpc] at hready
  obtain ⟨hidle, hpassed, hpending, hbelow⟩ := hready
  rw [h.sameOpts] at hbelow
  have hopen : ¬ Settled (p.state.statusOf q.name) := by
    rw [hpending]
    exact not_settled_pending
  refine moves_setPhase (v := .running) h rfl (h.shape.mem_of_status hpending) hopen
    (hpassed.settled h.shape hplan hidle.calm)
    (fun _ => ⟨hpending, hbelow, hidle.planned⟩) nofun ⟨?_, hidle.planned, hidle.request, ?_⟩
  · show (p.state.setPhase q.name _).statusOf q.name = _
    rw [SessionState.statusOf_setPhase (v := .running) rfl, if_pos rfl]
  · refine hpassed.congr rfl fun n hn => ?_
    have hn' : (p.state.setPhase q.name _).statusOf n = some .pending := hn
    rw [SessionState.statusOf_setPhase (v := .running) rfl] at hn'
    split at hn'
    · cases hn'
    · exact hn'

theorem moves_requestReboot (h : Running opts names p) {q' : PlanEntry} {rest : List PlanEntry}
    (hpc : p.pc = .phase q' rest) {epoch : ℚ} {now : String}
    (hq : p.requestReboot q' rest epoch now = some q) : Moves opts names p q := by
  have hready := h.ready
  rw [hpc] at hready
  simp only [Process.requestReboot] at hq
  obtain ⟨hpow, hsome⟩ := Option.ite_none_right_eq_some.mp hq
  obtain rfl := Option.some.inj hsome
  refine ⟨⟨h.sameOpts, h.options, ?_, hpow.1, hready.1, rfl⟩, Follows.of_phases rfl, rfl,
    fun hns => absurd rfl (hns _)⟩
  refine ⟨h.shape.plan, h.shape.known, h.shape.front, fun _ n hn => ?_⟩
  exact (h.shape.running_unique hn hready.1).trans hpow.1

theorem moves_returns (h : Running opts names p) {q' : PlanEntry} {rest : List PlanEntry}
    (hpc : p.pc = .phase q' rest ∨ p.pc = .requested q' rest) (fs : List Finding) (elapsed : Int)
    (now : String) : Moves opts names p (p.returns q' rest fs elapsed now) := by
  have hready := h.ready
  unfold Process.returns
  rcases hpc with hpc | hpc
  · rw [hpc] at hready
    rw [hready.2.2.1]
    exact moves_conclude h hready rfl (settled_phaseStatus p.abortEvent fs)
  · rw [hpc] at hready
    obtain ⟨hpow, hrun, hrequest⟩ := hready
    rw [if_pos hrequest]
    have hopen : ¬ Settled (p.state.statusOf q'.name) := by
      rw [hrun]
      exact not_settled_running
    exact moves_setPhase (v := .pending) h rfl (h.shape.mem_of_status hrun) hopen
      (h.shape.settled_before hrun) nofun (fun _ => Or.inr hpow) trivial

/-- What the steps of the main thread are. -/
inductive Turn (p : Process) : Process → Prop
  | incident (now : String) (hpc : p.pc = .opened) : Turn p (p.incident now)
  | begin (hpc : p.pc = .ready) : Turn p { p with pc := .loop p.state.plan }
  | next (rest : List PlanEntry) (hpc : p.pc = .loop rest) : Turn p (p.next rest)
  | waited (e : PlanEntry) (rest : List PlanEntry) (hpc : p.pc = .waited e rest)
      (habort : p.abortEvent = false) : Turn p { p with pc := .chosen e rest }
  | gaveUp (e : PlanEntry) (rest : List PlanEntry) (hpc : p.pc = .waited e rest)
      (habort : p.abortEvent = true) : Turn p { p with pc := .finalizing }
  | disksFinished (e : PlanEntry) (rest : List PlanEntry) (hpc : p.pc = .waiting e rest) :
      Turn p (p.change (fun st => { st with diskTestsFinished := true }) (.saving (.waited e rest)))
  | startPhase (now : String) (e : PlanEntry) (rest : List PlanEntry)
      (hpc : p.pc = .chosen e rest) :
      Turn p (p.change (fun st => st.setPhase e.name
        { status := some .running, started := some now }) (.saving (.phase e rest)))
  | requestReboot (epoch : ℚ) (now : String) (e : PlanEntry) (rest : List PlanEntry) (q : Process)
      (hpc : p.pc = .phase e rest) (hq : p.requestReboot e rest epoch now = some q) : Turn p q
  | returns (fs : List Finding) (elapsed : Int) (now : String) (e : PlanEntry)
      (rest : List PlanEntry) (hpc : p.pc = .phase e rest ∨ p.pc = .requested e rest) :
      Turn p (p.returns e rest fs elapsed now)
  | raises (text : String) (elapsed : Int) (e : PlanEntry) (rest : List PlanEntry)
      (hpc : p.pc = .phase e rest) : Turn p (p.raises e rest text elapsed)
  | finish (now : String) (hpc : p.pc = .finalizing) : Turn p (p.finish now)

theorem turn_of_mainStep {e : Event} (h : mainStep p e = some q) : Turn p q := by
  cases e with
  | incident now =>
    simp only [mainStep] at h
    split at h
    · obtain rfl := Option.some.inj h
      exact .incident now (by assumption)
    · cases h
  | begin =>
    simp only [mainStep] at h
    split at h
    · obtain rfl := Option.some.inj h
      exact .begin (by assumption)
    · cases h
  | next =>
    simp only [mainStep] at h
    split at h
    · obtain rfl := Option.some.inj h
      exact .next _ (by assumption)
    · rename_i hpc
      obtain rfl := Option.some.inj h
      split
      · exact .gaveUp _ _ hpc (by assumption)
      · exact .waited _ _ hpc (Bool.not_eq_true _ ▸ by assumption)
    · cases h
  | disksFinished =>
    simp only [mainStep] at h
    split at h
    · obtain rfl := Option.some.inj h
      exact .disksFinished _ _ (by assumption)
    · cases h
  | startPhase now =>
    simp only [mainStep] at h
    split at h
    · obtain rfl := Option.some.inj h
      exact .startPhase now _ _ (by assumption)
    · cases h
  | requestReboot epoch now =>
    simp only [mainStep] at h
    split at h
    · exact .requestReboot epoch now _ _ q (by assumption) h
    · cases h
  | returns fs elapsed now =>
    simp only [mainStep] at h
    split at h
    · obtain rfl := Option.some.inj h
      exact .returns fs elapsed now _ _ (Or.inl (by assumption))
    · obtain rfl := Option.some.inj h
      exact .returns fs elapsed now _ _ (Or.inr (by assumption))
    · cases h
  | raises text elapsed =>
    simp only [mainStep] at h
    split at h
    · obtain rfl := Option.some.inj h
      exact .raises text elapsed _ _ (by assumption)
    · cases h
  | finish now =>
    simp only [mainStep] at h
    split at h
    · obtain rfl := Option.some.inj h
      exact .finish now (by assumption)
    · cases h
  | _ => cases h

/-- Every step of the main thread. -/
theorem moves_main (hplan : PlanShape names) (h : Running opts names p) {e : Event}
    (hq : mainStep p e = some q) : Moves opts names p q := by
  have hready := h.ready
  cases turn_of_mainStep hq with
  | incident now hpc => exact moves_incident hplan h hpc now
  | begin hpc =>
    rw [hpc] at hready
    exact ⟨⟨h.sameOpts, h.options, h.shape, ⟨hready.calm, hready.planned, hready.request⟩,
      [], rfl, nofun⟩, Follows.of_phases rfl, rfl, fun _ => rfl⟩
  | next rest hpc => exact moves_next hplan h hpc
  | waited q rest hpc =>
    rw [hpc] at hready
    exact ⟨⟨h.sameOpts, h.options, h.shape, ⟨hready.calm, hready.planned, hready.request⟩,
      hready.passed, hready.pending, hready.below⟩, Follows.of_phases rfl, rfl, fun _ => rfl⟩
  | gaveUp q rest hpc =>
    exact ⟨⟨h.sameOpts, h.options, h.shape, trivial⟩, Follows.of_phases rfl, rfl, fun _ => rfl⟩
  | disksFinished q rest hpc =>
    rw [hpc] at hready
    exact moves_frame h rfl rfl rfl id ⟨⟨hready.calm, hready.planned, hready.request⟩,
      hready.passed, hready.pending, hready.below⟩
  | startPhase now q rest hpc => exact moves_startPhase hplan h hpc now
  | requestReboot epoch now q rest _ hpc hq => exact moves_requestReboot h hpc hq
  | returns fs elapsed now q rest hpc => exact moves_returns h hpc fs elapsed now
  | raises text elapsed q rest hpc =>
    rw [hpc] at hready
    exact moves_conclude h hready rfl (by decide)
  | finish now hpc => exact moves_frame h rfl rfl rfl id trivial

/-! ### The other threads -/

/-- The processes agree on everything that `Running` speaks of. -/
structure Alike (p q : Process) : Prop where
  phases : q.state.phases = p.state.phases
  plan : q.state.plan = p.state.plan
  options : q.state.options = p.state.options
  planned : q.state.plannedReboot = p.state.plannedReboot
  count : q.state.unexpectedReboots = p.state.unexpectedReboots
  previous : q.session.previous = p.session.previous
  unexpected : q.session.unexpectedReboot = p.session.unexpectedReboot
  resumed : q.session.plannedReboot = p.session.plannedReboot
  restart : q.session.orchestratorRestart = p.session.orchestratorRestart
  opts : q.opts = p.opts
  request : q.rebootRequest = p.rebootRequest

theorem Alike.trans {r : Process} (h : Alike p q) (hr : Alike q r) : Alike p r :=
  ⟨hr.phases.trans h.phases, hr.plan.trans h.plan, hr.options.trans h.options,
    hr.planned.trans h.planned, hr.count.trans h.count, hr.previous.trans h.previous,
    hr.unexpected.trans h.unexpected, hr.resumed.trans h.resumed, hr.restart.trans h.restart,
    hr.opts.trans h.opts, hr.request.trans h.request⟩

theorem Alike.idle (h : Alike p q) (hp : Idle p) : Idle q := by
  refine ⟨fun n hn => hp.calm n ?_, h.planned.trans hp.planned, h.request.trans hp.request⟩
  rw [← SessionState.statusOf_congr h.phases]
  exact hn

theorem Alike.passed (h : Alike p q) {rest : List PlanEntry} (hp : Passed p.state rest) :
    Passed q.state rest := by
  refine hp.congr h.plan fun n hn => ?_
  rw [← SessionState.statusOf_congr h.phases]
  exact hn

theorem Alike.next (h : Alike p q) {e : PlanEntry} {rest : List PlanEntry} (hp : Next p e rest) :
    Next q e rest := by
  refine ⟨h.idle hp.toIdle, h.passed hp.passed, ?_, ?_⟩
  · rw [SessionState.statusOf_congr h.phases]
    exact hp.pending
  · rw [h.count, h.opts]
    exact hp.below

theorem Alike.ready (h : Alike p q) {pc : Pc} (hp : Ready p pc) : Ready q pc := by
  have hstatus := SessionState.statusOf_congr h.phases
  induction pc with
  | opened =>
    obtain ⟨hplanned, hrequest, hprev, hcalm⟩ := hp
    refine ⟨h.planned.trans hplanned, h.request.trans hrequest, ?_, ?_⟩
    · rw [h.previous, hprev, SessionState.runningPhase_congr h.phases]
    · rw [h.unexpected, h.resumed, h.restart]
      refine hcalm.imp_left fun hcalm n hn => hcalm n ?_
      rw [← hstatus]
      exact hn
  | ready => exact h.idle hp
  | loop rest => exact ⟨h.idle hp.1, h.passed hp.2⟩
  | waiting e rest => exact h.next hp
  | waited e rest => exact h.next hp
  | chosen e rest => exact h.next hp
  | phase e rest =>
    obtain ⟨hrun, hplanned, hrequest, hpassed⟩ := hp
    exact ⟨(hstatus e.name).trans hrun, h.planned.trans hplanned, h.request.trans hrequest,
      h.passed hpassed⟩
  | requested e rest =>
    obtain ⟨hpow, hrun, hrequest⟩ := hp
    exact ⟨hpow, (hstatus e.name).trans hrun, by rw [h.request]; exact hrequest⟩
  | rebooting => trivial
  | finalizing => trivial
  | finished => trivial
  | saving next ih => exact ih hp

theorem Alike.running (h : Alike p q) (hpc : q.pc = p.pc) (hp : Running opts names p) :
    Running opts names q := by
  refine ⟨h.opts.trans hp.sameOpts, h.options.trans hp.options,
    hp.shape.congr h.plan h.phases fun hsome => ?_, ?_⟩
  · rw [← h.planned]
    exact hsome
  · rw [hpc]
    exact h.ready hp.ready

theorem alike_other {e : Event} (h : otherStep p e = some q) :
    Alike p q ∧ q.pc = p.pc ∧ q.session.seq = p.session.seq := by
  cases e with
  | work st =>
    obtain rfl := Option.some.inj h
    exact ⟨⟨rfl, rfl, rfl, rfl, rfl, rfl, rfl, rfl, rfl, rfl, rfl⟩, rfl, rfl⟩
  | abort reason =>
    simp only [otherStep] at h
    split at h
    · obtain rfl := Option.some.inj h
      exact ⟨⟨rfl, rfl, rfl, rfl, rfl, rfl, rfl, rfl, rfl, rfl, rfl⟩, rfl, rfl⟩
    · obtain rfl := Option.some.inj h
      exact ⟨⟨rfl, rfl, rfl, rfl, rfl, rfl, rfl, rfl, rfl, rfl, rfl⟩, rfl, rfl⟩
  | _ => cases h

end Main

end Phases

end PcCheck
