/-
What an abort leaves to be started.

`request_abort` sets an event that belongs to the process, and the loop of `run_phases` looks
at it once for each phase.  A process that ends before `finalize` has saved its status is
followed by one whose event is not set, and which takes the session up from the statuses in
the file.  `abortReason` is in that file and nothing reads it.
-/
import PcCheck.StuckPhases

namespace PcCheck
namespace Phases

open EventMachine

/-- Past the check of the abort event for a stress phase. -/
def Pc.Choosing : Pc → Prop
  | .chosen q _ => q.name ≠ "inventory"
  | .saving next => next.Choosing
  | _ => False

/-- At a stress phase, before or in it. -/
def Pc.Stressing : Pc → Prop
  | .chosen q _ => q.name ≠ "inventory"
  | .phase q _ => q.name ≠ "inventory"
  | .requested q _ => q.name ≠ "inventory"
  | .saving next => next.Stressing
  | _ => False

/-- No stress phase starts once a request for an abort has returned. -/
def AbortFinal (w : World) : Event → Prop
  | .startPhase _ => w.aborted = true → ∀ p, w.proc = some p → ∀ q rest,
      p.pc = .chosen q rest → q.name = "inventory"
  | _ => True

/-- The abort event is not set between the check and the start of a stress phase, and a
process that takes an aborted session up finds no stress phase to start. -/
def AbortHeeded (w : World) : Event → Prop
  | .abortSet => ∀ p, w.proc = some p → ¬ p.pc.Choosing
  | .start loaded now time => w.aborted = true →
      ∀ found, SessionStore.findRunning w.files w.machineId = some found →
        ∀ n, n ≠ "inventory" → found.1.statusOf n = some .pending →
          (found.1.options.getD loaded).maxUnexpectedReboots ≤
            (found.1.resume ⟨w.bootId, now, time⟩).unexpectedReboots
  | _ => True

/-- The limit of the reboots leaves no stress phase to start. -/
def Exhausted (p : Process) : Prop :=
  ∀ n, n ≠ "inventory" → p.state.statusOf n = some .pending →
    p.opts.maxUnexpectedReboots ≤ p.state.unexpectedReboots

/-- A process in an aborted session. -/
def Quiet (p : Process) : Prop :=
  (p.abortEvent = true ∧ ¬ p.pc.Choosing) ∨ (Exhausted p ∧ ¬ p.pc.Stressing)

section Steps

variable {opts : Options} {names : List String} {w t : World} {p q : Process}

theorem Exhausted.alike (h : Exhausted p) (hq : Alike p q) : Exhausted q := by
  intro n hne hn
  rw [SessionState.statusOf_congr hq.phases] at hn
  rw [hq.opts, hq.count]
  exact h n hne hn

theorem incident_frame (p : Process) (now : String) :
    (p.incident now).opts = p.opts ∧ (p.incident now).abortEvent = p.abortEvent ∧
      (p.incident now).state.unexpectedReboots = p.state.unexpectedReboots := by
  have hcount := p.session.noteIncident_unexpectedReboots now
  simp only [Process.incident]
  split <;> exact ⟨rfl, rfl, hcount⟩

theorem next_frame (p : Process) (rest : List PlanEntry) :
    (p.next rest).opts = p.opts ∧ (p.next rest).abortEvent = p.abortEvent ∧
      (p.next rest).state.unexpectedReboots = p.state.unexpectedReboots := by
  cases rest with
  | nil => exact ⟨rfl, rfl, rfl⟩
  | cons q rest =>
    simp only [Process.next]
    split
    · exact ⟨rfl, rfl, rfl⟩
    · split
      · exact ⟨rfl, rfl, rfl⟩
      · split
        · exact ⟨rfl, rfl, rfl⟩
        · split <;> exact ⟨rfl, rfl, rfl⟩

/-- The main thread neither sets the abort event nor counts a reset. -/
theorem turn_frame (h : Turn p q) : q.opts = p.opts ∧ q.abortEvent = p.abortEvent ∧
    q.state.unexpectedReboots = p.state.unexpectedReboots := by
  cases h with
  | incident now => exact incident_frame p now
  | next rest => exact next_frame p rest
  | requestReboot epoch now e rest _ hpc hq =>
    simp only [Process.requestReboot] at hq
    obtain ⟨-, hsome⟩ := Option.ite_none_right_eq_some.mp hq
    obtain rfl := Option.some.inj hsome
    exact ⟨rfl, rfl, rfl⟩
  | returns fs elapsed now e rest =>
    unfold Process.returns
    split <;> exact ⟨rfl, rfl, rfl⟩
  | _ => exact ⟨rfl, rfl, rfl⟩

theorem next_not_choosing (habort : p.abortEvent = true) (rest : List PlanEntry) :
    ¬ (p.next rest).pc.Choosing := by
  cases rest with
  | nil => exact id
  | cons q rest =>
    simp only [Process.next, habort, if_true]
    split <;> exact id

/-- With the abort event set, the main thread chooses no phase. -/
theorem turn_not_choosing (h : Turn p q) (habort : p.abortEvent = true) : ¬ q.pc.Choosing := by
  cases h with
  | incident now =>
    simp only [Process.incident]
    split <;> exact id
  | next rest => exact next_not_choosing habort rest
  | waited e rest hpc hno =>
    rw [habort] at hno
    cases hno
  | requestReboot epoch now e rest _ hpc hq =>
    simp only [Process.requestReboot] at hq
    obtain ⟨-, hsome⟩ := Option.ite_none_right_eq_some.mp hq
    obtain rfl := Option.some.inj hsome
    exact id
  | returns fs elapsed now e rest =>
    unfold Process.returns
    split <;> exact id
  | _ => exact id

theorem pending_of_setPhase {st : SessionState} {k n : String} {given : PhaseState}
    {v : PhaseStatus} (hgiven : given.status = some v) (hv : v = .pending → k = "inventory")
    (hn : (st.setPhase k given).statusOf n = some .pending) :
    st.statusOf n = some .pending ∨ n = "inventory" := by
  rw [SessionState.statusOf_setPhase hgiven] at hn
  split at hn
  · rename_i hnk
    exact Or.inr (hnk.trans (hv (Option.some.inj hn)))
  · exact Or.inl hn

theorem incident_pending {now n : String}
    (hn : (p.incident now).state.statusOf n = some .pending) :
    p.state.statusOf n = some .pending ∨ n = "inventory" := by
  cases hinc : p.session.incidentPhase with
  | none =>
    rw [statusOf_incident_none hinc] at hn
    exact Or.inl hn
  | some pair =>
    obtain ⟨v, hv, -, hpending⟩ := incidentPhase_status hinc
    rw [statusOf_incident_some hinc hv, ← SessionState.statusOf_setPhase hv] at hn
    exact pending_of_setPhase hv hpending hn

theorem next_pending (hrun : Running opts names p) {rest : List PlanEntry}
    (hpc : p.pc = .loop rest) {n : String} (hn : (p.next rest).state.statusOf n = some .pending) :
    p.state.statusOf n = some .pending ∨ n = "inventory" := by
  have hready := hrun.ready
  rw [hpc] at hready
  cases rest with
  | nil => exact Or.inl hn
  | cons q rest =>
    obtain ⟨done, hdone, -⟩ := hready.2
    have hq : q.name ∈ names := by
      rw [← hrun.shape.plan, hdone]
      simp
    obtain ⟨v, hv⟩ := Option.isSome_iff_exists.mp ((hrun.shape.known q.name).mpr hq)
    obtain ⟨hst, hps⟩ := phaseState_of_status hv
    simp only [Process.next, hst, hps] at hn
    split at hn
    · exact Or.inl hn
    · split at hn
      · exact Or.inl hn
      · split at hn
        · exact pending_of_setPhase (v := .skipped) rfl (fun h => by cases h) hn
        · split at hn <;> exact Or.inl hn

/-- Only a stress phase that is left for a reboot becomes pending again. -/
theorem turn_pending (hrun : Running opts names p) (h : Turn p q) (hstress : ¬ p.pc.Stressing)
    {n : String} (hn : q.state.statusOf n = some .pending) :
    p.state.statusOf n = some .pending ∨ n = "inventory" := by
  cases h with
  | incident now => exact incident_pending hn
  | next rest hpc => exact next_pending hrun hpc hn
  | startPhase now e rest => exact pending_of_setPhase (v := .running) rfl (fun h => by cases h) hn
  | requestReboot epoch now e rest _ hpc hq =>
    simp only [Process.requestReboot] at hq
    obtain ⟨-, hsome⟩ := Option.ite_none_right_eq_some.mp hq
    obtain rfl := Option.some.inj hsome
    exact Or.inl hn
  | returns fs elapsed now e rest hpc =>
    have hinv : e.name = "inventory" := by
      by_contra hne
      rcases hpc with hpc | hpc <;> rw [hpc] at hstress <;> exact hstress hne
    unfold Process.returns at hn
    split at hn
    · exact pending_of_setPhase (v := .pending) rfl (fun _ => hinv) hn
    · exact pending_of_setPhase rfl (fun _ => hinv) hn
  | raises text elapsed e rest =>
    exact pending_of_setPhase (v := .error) rfl (fun h => by cases h) hn
  | _ => exact Or.inl hn

theorem next_stressing {rest : List PlanEntry} (h : (p.next rest).pc.Stressing) :
    ∃ e more, (p.next rest).pc = .chosen e more := by
  cases rest with
  | nil => exact absurd h id
  | cons q rest =>
    refine ⟨q, rest, ?_⟩
    simp only [Process.next] at h ⊢
    repeat' split at h
    · exact absurd h id
    · exact absurd h id
    · exact absurd h id
    · exact absurd h id
    · rename_i hstatus habort hlimit hdisks
      rw [if_neg hstatus, if_neg habort, if_neg hlimit, if_neg hdisks]
      rfl

/-- Where no stress phase may start, the main thread gets to none. -/
theorem turn_not_stressing (hrun : Running opts names q) (h : Turn p q) (hexh : Exhausted q)
    (hstress : ¬ p.pc.Stressing) : ¬ q.pc.Stressing := by
  have hchosen : ∀ e rest, q.pc = .chosen e rest → ¬ q.pc.Stressing := by
    intro e rest hpc hne
    have hready := hrun.ready
    rw [hpc] at hready hne
    have hlimit := hexh e.name hne hready.pending
    exact absurd hready.below (not_lt.mpr hlimit)
  cases h with
  | incident now =>
    simp only [Process.incident]
    split <;> exact id
  | next rest hpc =>
    intro hne
    obtain ⟨e, more, hcase⟩ := next_stressing hne
    exact hchosen e more hcase hne
  | waited e rest hpc => exact hchosen e rest rfl
  | startPhase now e rest hpc =>
    rw [hpc] at hstress
    exact hstress
  | requestReboot epoch now e rest _ hpc hq =>
    rw [hpc] at hstress
    simp only [Process.requestReboot] at hq
    obtain ⟨-, hsome⟩ := Option.ite_none_right_eq_some.mp hq
    obtain rfl := Option.some.inj hsome
    exact hstress
  | returns fs elapsed now e rest =>
    unfold Process.returns
    split <;> exact id
  | _ => exact id

theorem quiet_turn (hrun : Running opts names p) (hrun' : Running opts names q) (h : Turn p q)
    (hquiet : Quiet p) : Quiet q := by
  obtain ⟨hopts, habort, hcount⟩ := turn_frame h
  rcases hquiet with ⟨hset, -⟩ | ⟨hexh, hstress⟩
  · exact Or.inl ⟨habort.trans hset, turn_not_choosing h hset⟩
  · have hexh' : Exhausted q := by
      intro n hne hn
      rcases turn_pending hrun h hstress hn with hold | hinv
      · rw [hopts, hcount]
        exact hexh n hne hold
      · exact absurd hinv hne
    exact Or.inr ⟨hexh', turn_not_stressing hrun' h hexh' hstress⟩

theorem Pc.Choosing.of_saving {pc next : Pc} (h : pc = .saving next) :
    pc.Choosing ↔ next.Choosing := by
  rw [h]
  rfl

theorem Pc.Stressing.of_saving {pc next : Pc} (h : pc = .saving next) :
    pc.Stressing ↔ next.Stressing := by
  rw [h]
  rfl

/-- A save, or a change beside the phases, by a thread of the process. -/
theorem quiet_alike (hq : Alike p q) (hpc : q.pc = p.pc ∨ p.pc = .saving q.pc)
    (habort : q.abortEvent = p.abortEvent) (hquiet : Quiet p) : Quiet q := by
  have hchoosing : q.pc.Choosing ↔ p.pc.Choosing := by
    rcases hpc with hpc | hpc
    · rw [hpc]
    · exact (Pc.Choosing.of_saving hpc).symm
  have hstressing : q.pc.Stressing ↔ p.pc.Stressing := by
    rcases hpc with hpc | hpc
    · rw [hpc]
    · exact (Pc.Stressing.of_saving hpc).symm
  rcases hquiet with ⟨hset, hno⟩ | ⟨hexh, hno⟩
  · exact Or.inl ⟨habort.trans hset, fun h => hno (hchoosing.mp h)⟩
  · exact Or.inr ⟨hexh.alike hq, fun h => hno (hstressing.mp h)⟩

/-- A save, or a step of another thread: the main thread goes on with its phases as they
were, and only `abortSet` touches the abort event. -/
structure Aside (w t : World) (p q : Process) (e : Event) : Prop where
  proc : t.proc = some q
  alike : Alike p q
  pc : q.pc = p.pc ∨ p.pc = .saving q.pc
  abort : (q.abortEvent = p.abortEvent ∧ t.aborted = w.aborted) ∨
    (e = .abortSet ∧ q.abortEvent = true ∧ q.pc = p.pc)

theorem aside_save {e : Event} {outcomes : List Attempt} (halike : Alike p q)
    (hpc : q.pc = p.pc ∨ p.pc = .saving q.pc) (habort : q.abortEvent = p.abortEvent)
    (ht : w.save q outcomes = t) : ∃ r, Aside w t p r e := by
  subst ht
  exact ⟨{ q with session := ((w.store q).save outcomes).mem }, rfl,
    halike.trans (alike_saved w q outcomes), hpc, Or.inl ⟨habort, rfl⟩⟩

/-- What a step of a process does to the abort. -/
theorem act_abort {e : Event} (h : act w p e = some t) :
    (∃ q, mainStep p e = some q ∧ t = w.live q) ∨ ∃ q, Aside w t p q e := by
  cases e with
  | saved outcomes =>
    simp only [act] at h
    split at h
    · rename_i next hpc
      have halike : Alike p { p with pc := next } := alike_of_eq rfl rfl rfl
      exact Or.inr (aside_save halike (Or.inr hpc) rfl (Option.some.inj h))
    · cases h
  | otherSave outcomes =>
    exact Or.inr (aside_save (alike_of_eq rfl rfl rfl) (Or.inl rfl) rfl (Option.some.inj h))
  | abortSaved outcomes =>
    simp only [act] at h
    split at h
    · cases h
    · have halike : Alike p
          { p with aborting := p.aborting - 1, abortSaved := p.abortSaved + 1 } :=
        alike_of_eq rfl rfl rfl
      exact Or.inr (aside_save halike (Or.inl rfl) rfl (Option.some.inj h))
  | abortSet =>
    simp only [act] at h
    split at h
    · cases h
    · obtain rfl := Option.some.inj h
      exact Or.inr ⟨{ p with abortEvent := true, abortSaved := p.abortSaved - 1 }, rfl,
        alike_of_eq rfl rfl rfl, Or.inl rfl, Or.inr ⟨rfl, rfl, rfl⟩⟩
  | work st =>
    simp only [act] at h
    obtain ⟨q, hq, rfl⟩ := Option.map_eq_some_iff.mp h
    obtain ⟨halike, hpc, -⟩ := alike_other hq
    obtain rfl := Option.some.inj hq
    exact Or.inr ⟨_, rfl, halike, Or.inl hpc, Or.inl ⟨rfl, rfl⟩⟩
  | abort reason =>
    simp only [act] at h
    obtain ⟨q, hq, rfl⟩ := Option.map_eq_some_iff.mp h
    obtain ⟨halike, hpc, -⟩ := alike_other hq
    refine Or.inr ⟨q, rfl, halike, Or.inl hpc, Or.inl ⟨?_, rfl⟩⟩
    simp only [otherStep] at hq
    split at hq <;> obtain rfl := Option.some.inj hq <;> rfl
  | start loaded now time => simp [act, mainStep] at h
  | die => simp [act, mainStep] at h
  | reset bootId torn => simp [act, mainStep] at h
  | _ =>
    simp only [act] at h
    obtain ⟨q, hq, rfl⟩ := Option.map_eq_some_iff.mp h
    exact Or.inl ⟨q, hq, rfl⟩

end Steps

/-! ## Every run -/

structure AbortInv (opts : Options) (names : List String) (w : World) : Prop
    extends Sound opts names w where
  quiet : w.aborted = true → ∀ p, w.proc = some p → Quiet p

section Worlds

variable {opts : Options} {names : List String} {w t : World}

theorem quiet_start {found : SessionState × Int} {loaded : Options} {m : Machine}
    (h : ∀ n, n ≠ "inventory" → found.1.statusOf n = some .pending →
      (found.1.options.getD loaded).maxUnexpectedReboots ≤ (found.1.resume m).unexpectedReboots)
    {p : Process} (hstate : p.state = found.1.resume m)
    (hopts : p.opts = found.1.options.getD loaded) (hpc : p.pc = .saving .opened) : Quiet p := by
  refine Or.inr ⟨fun n hne hn => ?_, by rw [hpc]; exact id⟩
  rw [hstate, SessionState.statusOf_congr (found.1.resume_phases m)] at hn
  rw [hopts, hstate]
  exact h n hne hn

theorem abortInv_step (hplan : PlanShape names) {e : Event} (h : AbortInv opts names w)
    (hheed : AbortHeeded w e) (ht : step w e = some t) : AbortInv opts names t := by
  have hsound := sound_step hplan h.toSound ht
  refine ⟨hsound, fun haborted r hr => ?_⟩
  rcases step_cases ht with ⟨loaded, now, time, found, rfl, -, hfound, rfl⟩ |
    ⟨hnone, -⟩ | ⟨p, hp, hact⟩
  · obtain rfl := Option.some.inj hr
    exact quiet_start (hheed haborted found hfound) rfl rfl rfl
  · rw [hnone] at hr
    cases hr
  · rcases act_abort hact with ⟨q, hq, rfl⟩ | ⟨q, hq, halike, hpc, habort⟩
    · obtain rfl := Option.some.inj hr
      exact quiet_turn (h.running p hp) (hsound.running _ rfl) (turn_of_mainStep hq)
        (h.quiet haborted p hp)
    · obtain rfl := Option.some.inj (hq.symm.trans hr)
      rcases habort with ⟨habort, hsame⟩ | ⟨rfl, hset, hsamePc⟩
      · rw [hsame] at haborted
        exact quiet_alike halike hpc habort (h.quiet haborted p hp)
      · refine Or.inl ⟨hset, ?_⟩
        rw [hsamePc]
        exact hheed p hp

theorem abortFinal_of_inv (h : AbortInv opts names w) (e : Event) : AbortFinal w e := by
  cases e with
  | startPhase now =>
    intro haborted p hp q rest hpc
    by_contra hne
    rcases h.quiet haborted p hp with ⟨-, hno⟩ | ⟨-, hno⟩ <;> rw [hpc] at hno <;> exact hno hne
  | _ => trivial

/-- In the runs where an abort is not asked for in between the check and the start of a
stress phase, and no process takes the session up with a stress phase left to start, an
abort is final. -/
theorem abort_final_of_heeded {opts : Options} {plan : List PlanEntry}
    (hplan : buildPlan opts = .ok plan) (name : String) (identity : Identity) (m : Machine)
    (created : List Attempt) {es : List Event}
    (hheed : Along step AbortHeeded (opened name identity opts plan m created) es) :
    Along step AbortFinal (opened name identity opts plan m created) es := by
  have hshape := planShape_of_buildPlan hplan
  have hinv : AbortInv opts (plan.map PlanEntry.name) (opened name identity opts plan m created) :=
    ⟨sound_opened name identity opts plan m created, fun haborted => by cases haborted⟩
  exact along_of_preserves (fun w e t h hC ht => abortInv_step hshape h hC ht)
    (fun w e h _ => abortFinal_of_inv h e) hinv hheed

/-! ## An abort that a restart forgets -/

def exampleWorld : World :=
  opened "20260101-000000_SN1" ⟨"0123456789ab", "SN1"⟩ {} Acceptance.defaultPlan
    Acceptance.exampleMachine []

/-- The operator asks for an abort in the inventory. -/
def askedInInventory : List Event :=
  [.incident "", .saved [], .begin, .next, .startPhase "", .saved [], .abort "operator",
    .abortSaved []]

/-- The inventory returns after the abort, and no phase follows. -/
def inventoryReturns : List Event := [.returns [] 30 "", .saved [], .next]

/-- The process ends before `finalize` has saved the status, and the service starts the
next. -/
def takenUpAgain : List Event :=
  [.die, .start {} "" 0, .saved [], .incident "", .saved [], .begin, .next, .next]

theorem along_finish :
    Along step AbortHeeded exampleWorld
      (askedInInventory ++ .abortSet :: (inventoryReturns ++ [.finish "", .saved []])) := by
  refine along_append (along_of_forall ?_) fun t ht => ⟨?_, fun u _ => along_of_forall ?_⟩
  · simp only [askedInInventory, List.mem_cons, List.not_mem_nil, or_false]
    intro e he s
    rcases he with rfl | rfl | rfl | rfl | rfl | rfl | rfl | rfl <;> trivial
  · obtain rfl := Option.some.inj ht
    intro p hp
    obtain rfl := Option.some.inj hp
    exact id
  · simp only [inventoryReturns, List.cons_append, List.nil_append, List.mem_cons,
      List.not_mem_nil, or_false]
    intro e he s
    rcases he with rfl | rfl | rfl | rfl | rfl <;> trivial

theorem abort_final_of_heeded_finish :
    Along step AbortFinal exampleWorld
      (askedInInventory ++ .abortSet :: (inventoryReturns ++ [.finish "", .saved []])) :=
  abort_final_of_heeded Acceptance.buildPlan_default "20260101-000000_SN1"
    ⟨"0123456789ab", "SN1"⟩ Acceptance.exampleMachine [] along_finish

theorem takenUpAgain_run :
    ∃ t, run step exampleWorld
        (askedInInventory ++ .abortSet :: (inventoryReturns ++ takenUpAgain)) = some t ∧
      t.aborted = true ∧ t.disk.abortReason = some "operator" ∧
      ∃ p, t.proc = some p ∧ ∃ rest, p.pc = .chosen ⟨"cpu", 5184⟩ rest :=
  ⟨_, rfl, rfl, rfl, _, rfl, _, rfl⟩

theorem stress_starts_after_abort :
    ¬ ∀ (opts : Options) (plan : List PlanEntry), buildPlan opts = .ok plan →
      ∀ (name : String) (identity : Identity) (m : Machine) (created : List Attempt)
        (es : List Event), Along step AbortFinal (opened name identity opts plan m created) es := by
  intro h
  obtain ⟨t, hrun, haborted, -, p, hp, rest, hpc⟩ := takenUpAgain_run
  have halong : Along step AbortFinal exampleWorld
      ((askedInInventory ++ .abortSet :: (inventoryReturns ++ takenUpAgain)) ++
        [.startPhase ""]) :=
    h _ _ Acceptance.buildPlan_default _ _ _ _ _
  have hlast : Along step AbortFinal t [.startPhase ""] := along_right halong hrun
  exact absurd (hlast.1 haborted p hp _ rest hpc) (by decide)

end Worlds

end Phases
end PcCheck
