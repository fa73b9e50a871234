/-
The order of the phases over the boots of a session.

A save only ever carries the state in memory into the file, so a save follows the rules of
the changes the main thread has made since the last one.  What holds of the phases that have
been started follows from these.  While every save is durable the newest copy is the one
that was saved last.
-/
import PcCheck.PhaseMoves
import PcCheck.Acceptance
import PcCheck.Lib.EventMachine

namespace PcCheck

namespace Phases

open EventMachine

/-! ## The file and the memory -/

/-- A save that is written, or a reset that tears no completed copy. -/
def Durable : Event → Prop
  | .saved outcomes => SessionStore.Written outcomes
  | .otherSave outcomes => SessionStore.Written outcomes
  | .abortSaved outcomes => SessionStore.Written outcomes
  | .reset _ (some failed) => failed % 2 = 0
  | _ => True

instance : DecidablePred Durable
  | .saved _ | .otherSave _ | .abortSaved _ | .reset _ (some _) =>
    inferInstanceAs (Decidable (_ = _))
  | .start _ _ _ | .incident _ | .begin | .next | .disksFinished | .startPhase _
  | .requestReboot _ _ | .returns _ _ _ | .raises _ _ | .finish _ | .work _ | .abort _
  | .abortSet | .die | .reset _ none => .isTrue trivial

/-- Every copy on the stick and the memory are in the middle of the phases.  This holds
whatever becomes of the saves. -/
structure Sound (opts : Options) (names : List String) (w : World) : Prop where
  copies : ∀ k d, w.files k = some d → d.val.options = some opts ∧ Shape names d.val
  running : ∀ p, w.proc = some p → Running opts names p

/-- The newest copy and its number. -/
structure Newest (w : World) (n : Int) : Prop where
  nonneg : 0 ≤ n
  holds : Register.Holds Place.ofSeq w.files ⟨w.disk, n⟩

structure ProcInv (opts : Options) (names : List String) (w : World) (p : Process) : Prop where
  newest : Newest w p.session.seq
  follows : Follows names opts.maxUnexpectedReboots w.disk p.state
  unsaved : (∀ next, p.pc ≠ .saving next) → p.state.phases = w.disk.phases

/-- What holds of the starts while every save is durable. -/
structure Inv (opts : Options) (names : List String) (w : World) : Prop
    extends Sound opts names w where
  saved : ∃ n, Newest w n
  before : ∀ n ∈ w.starts, ∀ a ∈ names, names.idxOf a < names.idxOf n →
    Settled (w.disk.statusOf a)
  left : ∀ n ∈ w.starts, w.disk.statusOf n = some .pending →
    n = "inventory" ∨ n = "powercycle"
  sorted : w.starts.Pairwise fun a b => names.idxOf a ≤ names.idxOf b
  once : ∀ n, n ≠ "inventory" → n ≠ "powercycle" → w.starts.count n ≤ 1
  proc : ∀ p, w.proc = some p → ProcInv opts names w p

section Worlds

variable {opts : Options} {names : List String} {w t : World} {p q : Process}

/-- A step of the process that writes nothing. -/
structure Live (w t : World) (q : Process) : Prop where
  proc : t.proc = some q
  files : t.files = w.files
  starts : t.starts = w.starts

theorem Live.disk (h : Live w t q) : t.disk = w.disk := by
  rw [World.disk, World.disk, h.files]

theorem Newest.congr {n : Int} (h : Newest w n) (hfiles : t.files = w.files) : Newest t n := by
  refine ⟨h.nonneg, ?_⟩
  rw [World.disk, hfiles]
  exact h.holds

theorem Newest.shape {n : Int} (h : Newest w n) (hw : Sound opts names w) :
    w.disk.options = some opts ∧ Shape names w.disk :=
  hw.copies _ _ h.holds.inPlace

theorem Newest.read {n : Int} (h : Newest w n) : w.files.readRotating = (some w.disk, n) :=
  RotatingFiles.readRotating_of_holds h.holds h.nonneg

/-! ### The steps of the machine -/

theorem mainStep_pc {e : Event} (h : mainStep p e = some q) : ∀ next, p.pc ≠ .saving next := by
  intro next hpc
  cases e <;> simp [mainStep, hpc] at h

theorem alike_of_eq {q : Process} (hsession : q.session = p.session) (hopts : q.opts = p.opts)
    (hrequest : q.rebootRequest = p.rebootRequest) : Alike p q := by
  have hstate : q.state = p.state := congrArg Session.state hsession
  refine ⟨?_, ?_, ?_, ?_, ?_, ?_, ?_, ?_, ?_, hopts, hrequest⟩
  all_goals first | rw [hstate] | rw [hsession]

/-- A step of a process moves the main thread, changes something beside the phases, or
saves. -/
theorem act_cases {e : Event} (h : act w p e = some t) :
    (∃ q, mainStep p e = some q ∧ t = w.live q) ∨
      (∃ q, Alike p q ∧ q.pc = p.pc ∧ q.session.seq = p.session.seq ∧ Live w t q) ∨
      ∃ q outcomes, Alike p q ∧ q.session.seq = p.session.seq ∧
        (q.pc = p.pc ∨ p.pc = .saving q.pc) ∧
        (Durable e → SessionStore.Written outcomes) ∧ t = w.save q outcomes := by
  cases e with
  | saved outcomes =>
    simp only [act] at h
    split at h
    · rename_i next hpc
      exact Or.inr (Or.inr ⟨{ p with pc := next }, outcomes, alike_of_eq rfl rfl rfl, rfl,
        Or.inr hpc, id, (Option.some.inj h).symm⟩)
    · cases h
  | otherSave outcomes =>
    obtain rfl := Option.some.inj h
    exact Or.inr (Or.inr ⟨p, outcomes, alike_of_eq rfl rfl rfl, rfl, Or.inl rfl, id, rfl⟩)
  | abortSaved outcomes =>
    simp only [act] at h
    split at h
    · cases h
    · obtain rfl := Option.some.inj h
      exact Or.inr (Or.inr
        ⟨{ p with aborting := p.aborting - 1, abortSaved := p.abortSaved + 1 }, outcomes,
          alike_of_eq rfl rfl rfl, rfl, Or.inl rfl, id, rfl⟩)
  | abortSet =>
    simp only [act] at h
    split at h
    · cases h
    · obtain rfl := Option.some.inj h
      exact Or.inr (Or.inl ⟨{ p with abortEvent := true, abortSaved := p.abortSaved - 1 },
        alike_of_eq rfl rfl rfl, rfl, rfl, rfl, rfl, rfl⟩)
  | work st =>
    simp only [act] at h
    obtain ⟨q, hq, rfl⟩ := Option.map_eq_some_iff.mp h
    obtain ⟨halike, hpc, hseq⟩ := alike_other hq
    exact Or.inr (Or.inl ⟨q, halike, hpc, hseq, rfl, rfl, rfl⟩)
  | abort reason =>
    simp only [act] at h
    obtain ⟨q, hq, rfl⟩ := Option.map_eq_some_iff.mp h
    obtain ⟨halike, hpc, hseq⟩ := alike_other hq
    exact Or.inr (Or.inl ⟨q, halike, hpc, hseq, rfl, rfl, rfl⟩)
  | start loaded now time => simp [act, mainStep] at h
  | die => simp [act, mainStep] at h
  | reset bootId torn => simp [act, mainStep] at h
  | _ =>
    simp only [act] at h
    obtain ⟨q, hq, rfl⟩ := Option.map_eq_some_iff.mp h
    exact Or.inl ⟨q, hq, rfl⟩

theorem step_cases {e : Event} (h : step w e = some t) :
    (∃ loaded now time found, e = .start loaded now time ∧ w.proc = none ∧
      SessionStore.findRunning w.files w.machineId = some found ∧
      t = w.live { session := (SessionStore.reopen w.files found ⟨w.bootId, now, time⟩).mem,
                   opts := found.1.options.getD loaded, pc := .saving .opened }) ∨
      (t.proc = none ∧ t.starts = w.starts ∧ ∃ torn, t.files = w.leaves torn ∧
        (Durable e → ∀ failed, torn = some failed → failed % 2 = 0)) ∨
      ∃ p, w.proc = some p ∧ act w p e = some t := by
  cases e with
  | start loaded now time =>
    simp only [step] at h
    split at h
    · exact Or.inl ⟨loaded, now, time, _, rfl, by assumption, by assumption,
        (Option.some.inj h).symm⟩
    · cases h
  | die =>
    obtain rfl := Option.some.inj h
    exact Or.inr (Or.inl ⟨rfl, rfl, none, rfl, fun _ => nofun⟩)
  | reset bootId torn =>
    simp only [step] at h
    split at h
    · cases h
    · obtain rfl := Option.some.inj h
      refine Or.inr (Or.inl ⟨rfl, rfl, torn, rfl, fun hdur failed htorn => ?_⟩)
      rw [htorn] at hdur
      exact hdur
  | _ => exact Or.inr (Or.inr (Option.bind_eq_some_iff.mp h))

/-- Where a thread is between its change and its save, or has just saved it. -/
theorem running_at (h : Running opts names p) (hq : Alike p q)
    (hpc : q.pc = p.pc ∨ p.pc = .saving q.pc) : Running opts names q := by
  rcases hpc with hpc | hpc
  · exact hq.running hpc h
  · have hready := h.ready
    rw [hpc] at hready
    refine ⟨hq.opts.trans h.sameOpts, hq.options.trans h.options,
      h.shape.congr hq.plan hq.phases fun hsome => ?_, hq.ready hready⟩
    rw [← hq.planned]
    exact hsome

/-! ### Whatever becomes of the saves -/

theorem save_files (s : SessionStore) (outcomes : List Attempt) :
    (s.save outcomes).files = s.files ∨
      ∃ n, (s.save outcomes).files = s.files.writeRotating s.mem.state n := by
  rw [SessionStore.save]
  cases hr : SessionStore.retries 5 outcomes with
  | none =>
    rw [SessionStore.saveLoop_of_no_retries hr]
    exact Or.inl rfl
  | some k =>
    rw [SessionStore.saveLoop_of_retries hr]
    exact Or.inr ⟨_, rfl⟩

theorem alike_saved (w : World) (q : Process) (outcomes : List Attempt) :
    Alike q { q with session := ((w.store q).save outcomes).mem } := by
  obtain ⟨n, hmem⟩ := SessionStore.save_mem (w.store q) outcomes
  rw [hmem]
  exact ⟨rfl, rfl, rfl, rfl, rfl, rfl, rfl, rfl, rfl, rfl, rfl⟩

theorem sound_live (h : Sound opts names w) (hlive : Live w t q) (hq : Running opts names q) :
    Sound opts names t := by
  refine ⟨?_, fun r hr => ?_⟩
  · rw [hlive.files]
    exact h.copies
  · obtain rfl := Option.some.inj (hlive.proc.symm.trans hr)
    exact hq

theorem sound_save (h : Sound opts names w) (hq : Running opts names q)
    (outcomes : List Attempt) : Sound opts names (w.save q outcomes) := by
  refine ⟨fun k d hd => ?_, fun r hr => ?_⟩
  · have hd' : ((w.store q).save outcomes).files k = some d := hd
    rcases save_files (w.store q) outcomes with hsame | ⟨n, hput⟩
    · rw [hsame] at hd'
      exact h.copies k d hd'
    · rw [hput] at hd'
      by_cases hk : k = Place.ofSeq n
      · subst hk
        have hself : (w.store q).files.writeRotating q.state n (Place.ofSeq n) =
            some ⟨q.state, n⟩ := Register.put_self ..
        obtain rfl := Option.some.inj (hself.symm.trans hd')
        exact ⟨hq.options, hq.shape⟩
      · have hother : (w.store q).files.writeRotating q.state n k = (w.store q).files k :=
          Register.put_of_ne _ _ hk
        exact h.copies k d (hother.symm.trans hd')
  · obtain rfl := Option.some.inj hr
    exact (alike_saved w q outcomes).running rfl hq

theorem leaves_eq (w : World) (torn : Option Nat) :
    w.leaves torn = w.files ∨ ∃ k, w.leaves torn = Register.tear w.files k := by
  unfold World.leaves
  split
  · exact Or.inl rfl
  · split
    · exact Or.inr ⟨_, rfl⟩
    · exact Or.inl rfl

theorem sound_gone (h : Sound opts names w) (hproc : t.proc = none) {torn : Option Nat}
    (hfiles : t.files = w.leaves torn) : Sound opts names t := by
  refine ⟨fun k d hd => ?_, fun p hp => ?_⟩
  · rw [hfiles] at hd
    rcases leaves_eq w torn with hsame | ⟨l, htear⟩
    · rw [hsame] at hd
      exact h.copies k d hd
    · rw [htear] at hd
      by_cases hk : k = l
      · rw [hk, Register.tear_self] at hd
        cases hd
      · rw [Register.tear_of_ne _ hk] at hd
        exact h.copies k d hd
  · rw [hproc] at hp
    cases hp

theorem cause_eq_planned {st : SessionState} {bootId : String} {r : PlannedReboot}
    (h : st.cause bootId = .planned r) : st.plannedReboot = some r := by
  unfold SessionState.cause at h
  split at h
  · cases h
  · split at h
    · obtain rfl := SessionState.Cause.planned.inj h
      assumption
    · cases h

theorem sound_found (h : Sound opts names w) {found : SessionState × Int}
    (hfound : SessionStore.findRunning w.files w.machineId = some found) :
    found.1.options = some opts ∧ Shape names found.1 := by
  have hread := (SessionStore.findRunning_eq_some hfound).1
  rcases RotatingFiles.readRotating_cases w.files with hnone | ⟨k, d, hd, hsome⟩
  · rw [hnone] at hread
    cases hread
  · rw [hsome] at hread
    rw [← Option.some.inj (Prod.mk.inj hread).1]
    exact h.copies k d hd

/-- The process that takes the session up. -/
theorem running_reopen (h : Sound opts names w) {found : SessionState × Int}
    (hfound : SessionStore.findRunning w.files w.machineId = some found) (loaded : Options)
    (m : Machine) : Running opts names
      { session := (SessionStore.reopen w.files found m).mem, opts := found.1.options.getD loaded,
        pc := .saving .opened } := by
  obtain ⟨hoptions, hshape⟩ := sound_found h hfound
  obtain ⟨hplan, hopts, hplanned⟩ := found.1.resume_kept m
  refine ⟨?_, hopts.trans hoptions, ?_, hplanned, rfl, ?_, ?_⟩
  · show found.1.options.getD loaded = opts
    rw [hoptions]
    rfl
  · refine hshape.congr hplan (found.1.resume_phases m) fun hsome => ?_
    have hsome' : (found.1.resume m).plannedReboot.isSome = true := hsome
    rw [hplanned] at hsome'
    cases hsome'
  · exact (SessionState.runningPhase_congr (found.1.resume_phases m)).symm
  · cases hc : found.1.cause m.bootId with
    | restart =>
      refine Or.inr (Or.inr ?_)
      simp [SessionStore.reopen, Session.resume, hc]
    | planned r =>
      refine Or.inl fun n hn => hshape.planned (by rw [cause_eq_planned hc]; rfl) n ?_
      rw [← SessionState.statusOf_congr (found.1.resume_phases m)]
      exact hn
    | unexpected =>
      refine Or.inr (Or.inl ?_)
      simp [SessionStore.reopen, Session.resume, hc]

theorem sound_step (hplan : PlanShape names) {e : Event} (h : Sound opts names w)
    (ht : step w e = some t) : Sound opts names t := by
  rcases step_cases ht with ⟨loaded, now, time, found, -, -, hfound, rfl⟩ |
    ⟨hnone, -, torn, hfiles, -⟩ | ⟨p, hp, hact⟩
  · exact sound_live h ⟨rfl, rfl, rfl⟩ (running_reopen h hfound loaded _)
  · exact sound_gone h hnone hfiles
  · have hrun := h.running p hp
    rcases act_cases hact with ⟨q, hq, rfl⟩ | ⟨q, halike, hpc, -, hlive⟩ |
      ⟨q, outcomes, halike, -, hpc, -, rfl⟩
    · exact sound_live h ⟨rfl, rfl, rfl⟩ (moves_main hplan hrun hq).running
    · exact sound_live h hlive (halike.running hpc hrun)
    · exact sound_save h (running_at hrun halike hpc) outcomes

/-! ### While every save is durable -/

theorem newest_save {outcomes : List Attempt} (h : Newest w q.session.seq)
    (hw : SessionStore.Written outcomes) : (w.save q outcomes).disk = q.state ∧
      Newest (w.save q outcomes) ((w.store q).save outcomes).mem.seq := by
  obtain ⟨k, hk⟩ := Option.isSome_iff_exists.mp hw
  have hsave : (w.store q).save outcomes =
      { mem := { q.session with seq := q.session.seq + k + 1 },
        files := w.files.writeRotating q.state (q.session.seq + k + 1) } :=
    SessionStore.saveLoop_of_retries hk
  have hnonneg := h.nonneg
  have hholds : Register.Holds Place.ofSeq (w.save q outcomes).files
      ⟨q.state, q.session.seq + k + 1⟩ := by
    show Register.Holds Place.ofSeq ((w.store q).save outcomes).files _
    rw [hsave]
    refine Register.Holds.put_of_below (h.holds.below_of_lt ?_)
    show q.session.seq < q.session.seq + k + 1
    omega
  have hpos : 0 ≤ q.session.seq + (k : Int) + 1 := by omega
  have hdisk : (w.save q outcomes).disk = q.state := by
    rw [World.disk, RotatingFiles.readRotating_of_holds hholds hpos]
    rfl
  refine ⟨hdisk, ?_⟩
  rw [hsave]
  refine ⟨hpos, ?_⟩
  rw [hdisk]
  exact hholds

/-- A save is cut short in the slot the newest copy is not in. -/
theorem newest_leaves {n : Int} (h : Newest w n) (hseq : ∀ p, w.proc = some p → p.session.seq = n)
    {torn : Option Nat} (hdur : ∀ failed, torn = some failed → failed % 2 = 0)
    (hfiles : t.files = w.leaves torn) : t.disk = w.disk ∧ Newest t n := by
  have hholds : Register.Holds Place.ofSeq t.files ⟨w.disk, n⟩ := by
    rw [hfiles]
    unfold World.leaves
    split
    · exact h.holds
    · rename_i failed
      have heven := hdur failed rfl
      split
      · rename_i p hp
        refine h.holds.tear_other fun heq => ?_
        rw [Place.ofSeq_eq_iff, hseq p hp] at heq
        have heq' : (n + (failed : Int) + 1) % 2 = n % 2 := heq
        omega
      · exact h.holds
  have hdisk : t.disk = w.disk := by
    rw [World.disk, RotatingFiles.readRotating_of_holds hholds h.nonneg]
    rfl
  exact ⟨hdisk, h.nonneg, by rw [hdisk]; exact hholds⟩

theorem mem_newStarts {old new : SessionState} {n : String} :
    n ∈ World.newStarts old new ↔ n ∈ new.plan.map PlanEntry.name ∧
      old.statusOf n = some .pending ∧ new.statusOf n = some .running := by
  rw [World.newStarts, List.mem_filter, decide_eq_true_iff]

/-- A save starts at most one phase. -/
theorem newStarts_cases {old new : SessionState} (hplan : PlanShape names)
    (hnew : Shape names new) : World.newStarts old new = [] ∨
      ∃ n, World.newStarts old new = [n] ∧ n ∈ names ∧ old.statusOf n = some .pending ∧
        new.statusOf n = some .running := by
  have hnodup : (World.newStarts old new).Nodup := by
    refine List.Nodup.filter _ ?_
    rw [hnew.plan]
    exact hplan.nodup
  cases hl : World.newStarts old new with
  | nil => exact Or.inl rfl
  | cons n rest =>
    have hn := mem_newStarts.mp (hl ▸ List.mem_cons_self : n ∈ World.newStarts old new)
    rw [hnew.plan] at hn
    refine Or.inr ⟨n, ?_, hn⟩
    cases rest with
    | nil => rfl
    | cons k rest =>
      have hk := mem_newStarts.mp
        (hl ▸ List.mem_cons_of_mem n List.mem_cons_self : k ∈ World.newStarts old new)
      rw [hl, List.nodup_cons] at hnodup
      refine absurd ?_ hnodup.1
      rw [hnew.running_unique hn.2.2 hk.2.2]
      exact List.mem_cons_self

/-- What a step may do to the statuses, in the file and in the memory of a process. -/
structure Lawful (opts : Options) (w t : World) : Prop where
  settledDisk : ∀ n, Settled (w.disk.statusOf n) → t.disk.statusOf n = w.disk.statusOf n
  settledMemory : ∀ p q, w.proc = some p → t.proc = some q →
    ∀ n, Settled (p.state.statusOf n) → q.state.statusOf n = p.state.statusOf n
  belowDisk : ∀ n, t.disk.statusOf n = some .running → w.disk.statusOf n ≠ some .running →
    t.disk.unexpectedReboots < opts.maxUnexpectedReboots
  belowMemory : ∀ p q, w.proc = some p → t.proc = some q →
    ∀ n, q.state.statusOf n = some .running → p.state.statusOf n ≠ some .running →
      q.state.unexpectedReboots < opts.maxUnexpectedReboots

theorem Follows.alike {st : SessionState} {limit : Int} (h : Follows names limit st p.state)
    (hq : Alike p q) : Follows names limit st q.state := by
  have hstatus := SessionState.statusOf_congr hq.phases
  refine ⟨fun n hn => (hstatus n).trans (h.settled n hn), fun n hn hold => ?_,
    fun n hn hold => h.again n ((hstatus n) ▸ hn) hold⟩
  rw [hstatus] at hn
  rw [hq.count]
  exact h.started n hn hold

theorem procInv_moves (h : ProcInv opts names w p) (hpc : ∀ next, p.pc ≠ .saving next)
    (hq : Moves opts names p q) : ProcInv opts names w q := by
  refine ⟨?_, hq.follows.congr_left (h.unsaved hpc),
    fun hns => (hq.unsaved hns).trans (h.unsaved hpc)⟩
  rw [hq.seq]
  exact h.newest

theorem procInv_alike (h : ProcInv opts names w p) (hq : Alike p q) (hpc : q.pc = p.pc)
    (hseq : q.session.seq = p.session.seq) : ProcInv opts names w q := by
  refine ⟨?_, h.follows.alike hq, fun hns => ?_⟩
  · rw [hseq]
    exact h.newest
  · rw [hq.phases]
    exact h.unsaved fun next hnext => hns next (hpc.trans hnext)

theorem inv_live (h : Inv opts names w) (hlive : Live w t q) (hrun : Running opts names q)
    (hq : ProcInv opts names w q) : Inv opts names t := by
  have hdisk := hlive.disk
  obtain ⟨n, hn⟩ := h.saved
  refine ⟨sound_live h.toSound hlive hrun, ⟨n, hn.congr hlive.files⟩, ?_, ?_, ?_, ?_,
    fun r hr => ?_⟩
  · rw [hlive.starts, hdisk]
    exact h.before
  · rw [hlive.starts, hdisk]
    exact h.left
  · rw [hlive.starts]
    exact h.sorted
  · rw [hlive.starts]
    exact h.once
  · obtain rfl := Option.some.inj (hlive.proc.symm.trans hr)
    refine ⟨hq.newest.congr hlive.files, ?_, ?_⟩
    · rw [hdisk]
      exact hq.follows
    · rw [hdisk]
      exact hq.unsaved

theorem lawful_live (hp : w.proc = some p) (hlive : Live w t q)
    (hfollows : Follows names opts.maxUnexpectedReboots p.state q.state) : Lawful opts w t := by
  have hdisk := hlive.disk
  refine ⟨fun n _ => by rw [hdisk], fun p' q' hp' hq' n hn => ?_, fun n hn hno => ?_,
    fun p' q' hp' hq' n hn hno => ?_⟩
  · obtain rfl := Option.some.inj (hp.symm.trans hp')
    obtain rfl := Option.some.inj (hlive.proc.symm.trans hq')
    exact hfollows.settled n hn
  · rw [hdisk] at hn
    exact absurd hn hno
  · obtain rfl := Option.some.inj (hp.symm.trans hp')
    obtain rfl := Option.some.inj (hlive.proc.symm.trans hq')
    exact (hfollows.started n hn hno).2.1

/-- A save carries the memory into the file. -/
theorem inv_save (hplan : PlanShape names) (h : Inv opts names w) (hq : Running opts names q)
    (hnewest : Newest w q.session.seq) {outcomes : List Attempt}
    (hw : SessionStore.Written outcomes)
    (hfollows : Follows names opts.maxUnexpectedReboots w.disk q.state) :
    Inv opts names (w.save q outcomes) := by
  obtain ⟨hdisk, hsaved⟩ := newest_save hnewest hw
  have hstarts : (w.save q outcomes).starts = w.starts ++ World.newStarts w.disk q.state := by
    rw [← hdisk]
    rfl
  have hkeep : ∀ a, Settled (w.disk.statusOf a) → Settled (q.state.statusOf a) := by
    intro a ha
    rw [hfollows.settled a ha]
    exact ha
  have hsplit : ∀ n, n ∈ (w.save q outcomes).starts →
      n ∈ w.starts ∨ n ∈ World.newStarts w.disk q.state := fun n hn => by
    rw [hstarts] at hn
    exact List.mem_append.mp hn
  have hcases : World.newStarts w.disk q.state = [] ∨ _ := newStarts_cases hplan hq.shape
  refine ⟨sound_save h.toSound hq outcomes, ⟨_, hsaved⟩, ?_, ?_, ?_, ?_, ?_⟩
  · rw [hdisk]
    intro n hn a ha hlt
    refine hkeep a ?_
    rcases hsplit n hn with hold | hnew
    · exact h.before n hold a ha hlt
    · obtain ⟨-, hpending, hrunning⟩ := mem_newStarts.mp hnew
      have hne : w.disk.statusOf n ≠ some .running := by rw [hpending]; decide
      exact (hfollows.started n hrunning hne).2.2 a ha hlt
  · rw [hdisk]
    intro n hn hpending
    rcases hsplit n hn with hold | hnew
    · by_cases hdp : w.disk.statusOf n = some .pending
      · exact h.left n hold hdp
      · exact hfollows.again n hpending hdp
    · obtain ⟨-, -, hrunning⟩ := mem_newStarts.mp hnew
      rw [hrunning] at hpending
      cases hpending
  · rw [hstarts]
    rcases hcases with hnil | ⟨n, hone, hn, hpending, -⟩
    · rw [hnil, List.append_nil]
      exact h.sorted
    · rw [hone, List.pairwise_append]
      refine ⟨h.sorted, List.pairwise_singleton _ _, fun m hm k hk => ?_⟩
      obtain rfl := List.mem_singleton.mp hk
      by_contra hgt
      have hset := h.before m hm k hn (not_le.mp hgt)
      rw [hpending] at hset
      exact not_settled_pending hset
  · intro n hinv hpow
    rw [hstarts, List.count_append]
    have hold := h.once n hinv hpow
    rcases hcases with hnil | ⟨k, hone, -, hpending, -⟩
    · rw [hnil]
      exact hold
    · rw [hone, List.count_singleton]
      by_cases hkn : k = n
      · subst hkn
        have hzero : w.starts.count k = 0 := by
          rw [List.count_eq_zero]
          intro hmem
          rcases h.left k hmem hpending with heq | heq
          · exact hinv heq
          · exact hpow heq
        simp [hzero]
      · simp [hkn, hold]
  · intro r hr
    obtain rfl := Option.some.inj hr
    have hphases : ((w.store q).save outcomes).mem.state.phases =
        (w.save q outcomes).disk.phases := by
      rw [hdisk]
      exact (alike_saved w q outcomes).phases
    exact ⟨hsaved, Follows.of_phases hphases, fun _ => hphases⟩

theorem lawful_save (hp : w.proc = some p) (hnewest : Newest w q.session.seq)
    {outcomes : List Attempt} (hw : SessionStore.Written outcomes) (halike : Alike p q)
    (hfollows : Follows names opts.maxUnexpectedReboots w.disk q.state) :
    Lawful opts w (w.save q outcomes) := by
  have hsame : ∀ p' q', w.proc = some p' → (w.save q outcomes).proc = some q' →
      ∀ n, q'.state.statusOf n = p'.state.statusOf n := by
    intro p' q' hp' hq' n
    obtain rfl := Option.some.inj (hp.symm.trans hp')
    obtain rfl := Option.some.inj hq'
    exact SessionState.statusOf_congr ((alike_saved w q outcomes).phases.trans halike.phases) n
  obtain ⟨hdisk, -⟩ := newest_save hnewest hw
  refine ⟨fun n hn => ?_, fun p' q' hp' hq' n _ => hsame p' q' hp' hq' n, fun n hn hno => ?_,
    fun p' q' hp' hq' n hn hno => ?_⟩
  · rw [hdisk]
    exact hfollows.settled n hn
  · rw [hdisk] at hn ⊢
    exact (hfollows.started n hn hno).2.1
  · rw [hsame p' q' hp' hq' n] at hn
    exact absurd hn hno

theorem inv_start (h : Inv opts names w) (hnone : w.proc = none) {found : SessionState × Int}
    (hfound : SessionStore.findRunning w.files w.machineId = some found) (loaded : Options)
    (m : Machine) (hlive : Live w t
      { session := (SessionStore.reopen w.files found m).mem, opts := found.1.options.getD loaded,
        pc := .saving .opened }) :
    Inv opts names t ∧ Lawful opts w t := by
  obtain ⟨n, hn⟩ := h.saved
  have hpair : (some w.disk, n) = (some found.1, found.2) :=
    hn.read.symm.trans (SessionStore.findRunning_eq_some hfound).1
  have hdisk : w.disk = found.1 := Option.some.inj (Prod.mk.inj hpair).1
  have hseq : n = found.2 := (Prod.mk.inj hpair).2
  have hphases : (found.1.resume m).phases = w.disk.phases := by
    rw [hdisk, SessionState.resume_phases]
  have hno : ∀ p, w.proc ≠ some p := by
    intro p hp
    rw [hnone] at hp
    cases hp
  have hnewest : Newest w (SessionStore.reopen w.files found m).mem.seq := by
    show Newest w found.2
    rw [← hseq]
    exact hn
  have hsame := hlive.disk
  refine ⟨inv_live h hlive (running_reopen h.toSound hfound loaded m)
    ⟨hnewest, Follows.of_phases hphases, fun hns => absurd rfl (hns .opened)⟩,
    fun n _ => by rw [hsame], fun p q hp => absurd hp (hno p), fun n hn hne => ?_,
    fun p q hp => absurd hp (hno p)⟩
  rw [hsame] at hn
  exact absurd hn hne

theorem Inv.counted (h : Inv opts names w) :
    ∃ n, Newest w n ∧ ∀ p, w.proc = some p → p.session.seq = n := by
  rcases Option.eq_none_or_eq_some w.proc with hnone | ⟨p, hp⟩
  · obtain ⟨n, hn⟩ := h.saved
    refine ⟨n, hn, fun p hp => ?_⟩
    rw [hnone] at hp
    cases hp
  · refine ⟨p.session.seq, (h.proc p hp).newest, fun q hq => ?_⟩
    rw [hp] at hq
    rw [Option.some.inj hq]

theorem inv_gone (h : Inv opts names w) (hnone : t.proc = none) (hstarts : t.starts = w.starts)
    {torn : Option Nat} (hfiles : t.files = w.leaves torn)
    (hdur : ∀ failed, torn = some failed → failed % 2 = 0) :
    Inv opts names t ∧ Lawful opts w t := by
  have hno : ∀ q, t.proc ≠ some q := by
    intro q hq
    rw [hnone] at hq
    cases hq
  obtain ⟨n, hn, hseq⟩ := h.counted
  obtain ⟨hdisk, hnewest⟩ := newest_leaves hn hseq hdur hfiles
  constructor
  · refine ⟨sound_gone h.toSound hnone hfiles, ⟨n, hnewest⟩, ?_, ?_, ?_, ?_,
      fun q hq => absurd hq (hno q)⟩
    · rw [hstarts, hdisk]
      exact h.before
    · rw [hstarts, hdisk]
      exact h.left
    · rw [hstarts]
      exact h.sorted
    · rw [hstarts]
      exact h.once
  · refine ⟨fun n _ => by rw [hdisk], fun p q _ hq => absurd hq (hno q), fun n hn hne => ?_,
      fun p q _ hq => absurd hq (hno q)⟩
    rw [hdisk] at hn
    exact absurd hn hne

/-- Every durable step keeps the invariant and changes the statuses lawfully. -/
theorem inv_step (hplan : PlanShape names) {e : Event} (h : Inv opts names w) (hdur : Durable e)
    (ht : step w e = some t) : Inv opts names t ∧ Lawful opts w t := by
  rcases step_cases ht with ⟨loaded, now, time, found, -, hnone, hfound, rfl⟩ |
    ⟨hnone, hstarts, torn, hfiles, heven⟩ | ⟨p, hp, hact⟩
  · exact inv_start h hnone hfound loaded _ ⟨rfl, rfl, rfl⟩
  · exact inv_gone h hnone hstarts hfiles (heven hdur)
  · have hpi := h.proc p hp
    have hrun := h.running p hp
    rcases act_cases hact with ⟨q, hq, rfl⟩ | ⟨q, halike, hpc, hseq, hlive⟩ |
      ⟨q, outcomes, halike, hseq, hpc, hwritten, rfl⟩
    · have hmoves := moves_main hplan hrun hq
      exact ⟨inv_live h ⟨rfl, rfl, rfl⟩ hmoves.running (procInv_moves hpi (mainStep_pc hq) hmoves),
        lawful_live hp ⟨rfl, rfl, rfl⟩ hmoves.follows⟩
    · exact ⟨inv_live h hlive (halike.running hpc hrun) (procInv_alike hpi halike hpc hseq),
        @lawful_live opts names w _ p q hp hlive (Follows.of_phases halike.phases)⟩
    · have hnewest : Newest w q.session.seq := by
        rw [hseq]
        exact hpi.newest
      have hfollows := hpi.follows.alike halike
      exact ⟨inv_save hplan h (running_at hrun halike hpc) hnewest (hwritten hdur) hfollows,
        lawful_save hp hnewest (hwritten hdur) halike hfollows⟩

end Worlds

/-! ## Every run -/

theorem statusOf_fresh (name : String) (identity : Identity) (opts : Options)
    (plan : List PlanEntry) (m : Machine) (n : String) :
    (SessionState.fresh name identity opts plan m).statusOf n =
      if n ∈ plan.map PlanEntry.name then some .pending else none := by
  have hkeys : n ∈ (plan.map fun p => (p.name, ({ status := some .pending } : PhaseState))).map
      Prod.fst ↔ n ∈ plan.map PlanEntry.name := by
    rw [List.map_map]
    rfl
  unfold SessionState.statusOf SessionState.fresh
  split
  · rename_i hmem
    obtain ⟨ps, hps⟩ := Option.isSome_iff_exists.mp
      (Dict.get?_ofList_isSome.mpr (hkeys.mpr hmem))
    obtain ⟨p, -, hp⟩ := List.mem_map.mp (Dict.mem_of_get?_ofList hps)
    rw [hps, ← (Prod.mk.inj hp).2]
    rfl
  · rename_i hmem
    rw [Option.not_isSome_iff_eq_none.mp fun hsome =>
      hmem (hkeys.mp (Dict.get?_ofList_isSome.mp hsome))]
    rfl

theorem statusOf_fresh_eq_some {name : String} {identity : Identity} {opts : Options}
    {plan : List PlanEntry} {m : Machine} {n : String} {v : PhaseStatus}
    (h : (SessionState.fresh name identity opts plan m).statusOf n = some v) : v = .pending := by
  rw [statusOf_fresh] at h
  split at h
  · exact (Option.some.inj h).symm
  · cases h

theorem shape_fresh (name : String) (identity : Identity) (opts : Options)
    (plan : List PlanEntry) (m : Machine) :
    Shape (plan.map PlanEntry.name) (SessionState.fresh name identity opts plan m) := by
  refine ⟨rfl, fun n => ?_, fun a _ b hb _ => Or.inl ?_, nofun⟩
  · rw [statusOf_fresh]
    split <;> simp_all
  · rw [statusOf_fresh, if_pos hb]

/-- The process that opened the session, after the save of `create`. -/
theorem running_opened (name : String) (identity : Identity) (opts : Options)
    (plan : List PlanEntry) (m : Machine) (seq : Int) :
    Running opts (plan.map PlanEntry.name)
      { session := { state := SessionState.fresh name identity opts plan m, seq := seq },
        opts := opts, pc := .opened } := by
  have hcalm : Calm (SessionState.fresh name identity opts plan m) :=
    fun n hn => nomatch statusOf_fresh_eq_some hn
  refine ⟨rfl, rfl, shape_fresh name identity opts plan m, rfl, rfl, ?_, Or.inl hcalm⟩
  cases hrun : (SessionState.fresh name identity opts plan m).runningPhase with
  | none => rfl
  | some k => exact nomatch statusOf_fresh_eq_some (SessionState.statusOf_of_runningPhase hrun)

theorem sound_opened (name : String) (identity : Identity) (opts : Options)
    (plan : List PlanEntry) (m : Machine) (created : List Attempt) :
    Sound opts (plan.map PlanEntry.name) (opened name identity opts plan m created) := by
  refine ⟨fun k d hd => ?_, fun p hp => ?_⟩
  · have hd' : (SessionStore.create name identity opts plan m created).files k = some d := hd
    rw [SessionStore.create] at hd'
    rcases save_files _ created with hsame | ⟨n, hput⟩
    · rw [hsame] at hd'
      cases hd'
    · rw [hput] at hd'
      by_cases hk : k = Place.ofSeq n
      · subst hk
        rw [RotatingFiles.writeRotating, Register.put_self] at hd'
        obtain rfl := Option.some.inj hd'
        exact ⟨rfl, shape_fresh name identity opts plan m⟩
      · rw [RotatingFiles.writeRotating, Register.put_of_ne _ _ hk] at hd'
        cases hd'
  · obtain rfl := Option.some.inj hp
    obtain ⟨n, hmem⟩ := SessionStore.save_mem
      { mem := { state := SessionState.fresh name identity opts plan m },
        files := RotatingFiles.empty } created
    rw [SessionStore.create, hmem]
    exact running_opened name identity opts plan m n

theorem inv_opened (name : String) (identity : Identity) (opts : Options) (plan : List PlanEntry)
    (m : Machine) {created : List Attempt} (hcreated : SessionStore.Written created) :
    Inv opts (plan.map PlanEntry.name) (opened name identity opts plan m created) := by
  obtain ⟨k, hk⟩ := Option.isSome_iff_exists.mp hcreated
  have hcreate : SessionStore.create name identity opts plan m created =
      { mem := { state := SessionState.fresh name identity opts plan m, seq := 0 + k + 1 },
        files := RotatingFiles.empty.writeRotating
          (SessionState.fresh name identity opts plan m) (0 + k + 1) } :=
    SessionStore.saveLoop_of_retries hk
  have hbelow : Register.Below (RotatingFiles.empty : RotatingFiles SessionState) (0 + k + 1) :=
    fun k c hc => by cases hc
  have hholds : Register.Holds Place.ofSeq (opened name identity opts plan m created).files
      ⟨SessionState.fresh name identity opts plan m, 0 + k + 1⟩ := by
    show Register.Holds Place.ofSeq (SessionStore.create name identity opts plan m created).files _
    rw [hcreate]
    exact Register.Holds.put_of_below hbelow
  have hpos : (0 : Int) ≤ 0 + k + 1 := by omega
  have hdisk : (opened name identity opts plan m created).disk =
      SessionState.fresh name identity opts plan m := by
    rw [World.disk, RotatingFiles.readRotating_of_holds hholds hpos]
    rfl
  have hnewest : Newest (opened name identity opts plan m created) (0 + k + 1) :=
    ⟨hpos, by rw [hdisk]; exact hholds⟩
  have hstarts : (opened name identity opts plan m created).starts = [] := rfl
  have hproc : (opened name identity opts plan m created).proc = some
      { session := (SessionStore.create name identity opts plan m created).mem, opts := opts,
        pc := .opened } := rfl
  refine ⟨sound_opened name identity opts plan m created, ⟨_, hnewest⟩, ?_, ?_, ?_, ?_,
    fun p hp => ?_⟩
  · rw [hstarts]
    exact fun n hn => absurd hn List.not_mem_nil
  · rw [hstarts]
    exact fun n hn => absurd hn List.not_mem_nil
  · rw [hstarts]
    exact List.Pairwise.nil
  · rw [hstarts]
    exact fun _ _ _ => Nat.zero_le 1
  rw [hproc] at hp
  obtain rfl := Option.some.inj hp
  have hphases : (SessionStore.create name identity opts plan m created).mem.state.phases =
      (opened name identity opts plan m created).disk.phases := by
    rw [hdisk, hcreate]
  refine ⟨?_, Follows.of_phases hphases, fun _ => hphases⟩
  rw [hcreate]
  exact hnewest

/-- What holds of the phases at any time. -/
structure PhaseLaws (plan : List PlanEntry) (w : World) : Prop where
  oneOnDisk : ∀ a b, w.disk.statusOf a = some .running → w.disk.statusOf b = some .running → a = b
  oneInMemory : ∀ p, w.proc = some p → ∀ a b, p.state.statusOf a = some .running →
    p.state.statusOf b = some .running → a = b
  once : ∀ n, n ≠ "inventory" → n ≠ "powercycle" → w.starts.count n ≤ 1
  inOrder : w.starts.Pairwise fun a b =>
    (plan.map PlanEntry.name).idxOf a ≤ (plan.map PlanEntry.name).idxOf b

theorem Inv.laws {opts : Options} {plan : List PlanEntry} {w : World}
    (h : Inv opts (plan.map PlanEntry.name) w) : PhaseLaws plan w := by
  obtain ⟨n, hn⟩ := h.saved
  exact ⟨fun _ _ ha hb => (hn.shape h.toSound).2.running_unique ha hb,
    fun p hp _ _ ha hb => (h.running p hp).shape.running_unique ha hb, h.once, h.sorted⟩

/-- While every save is durable, at most one phase is running at any time, a stress phase
other than the power cycles starts once at most, the phases start in the order of the plan,
and no step changes a settled status or starts a phase at the limit of the reboots. -/
theorem phases_in_order {opts : Options} {plan : List PlanEntry}
    (hplan : buildPlan opts = .ok plan) (name : String) (identity : Identity) (m : Machine)
    {created : List Attempt} (hcreated : SessionStore.Written created) {es : List Event}
    (hdur : ∀ e ∈ es, Durable e) :
    Always step (PhaseLaws plan) (opened name identity opts plan m created) es ∧
      Along step (fun w e => ∀ t, step w e = some t → Lawful opts w t)
        (opened name identity opts plan m created) es := by
  have hshape := planShape_of_buildPlan hplan
  have hinv := inv_opened name identity opts plan m hcreated
  have hstep : ∀ w e t, Inv opts (plan.map PlanEntry.name) w → Durable e → step w e = some t →
      Inv opts (plan.map PlanEntry.name) t := fun w e t h hd ht => (inv_step hshape h hd ht).1
  have halong : Along step (fun _ e => Durable e) (opened name identity opts plan m created) es :=
    along_of_forall fun e he _ => hdur e he
  constructor
  · exact fun pre hpre t ht => (always_of_along hstep hinv halong pre hpre t ht).laws
  · exact along_of_preserves hstep (fun w e h hd t ht => (inv_step hshape h hd ht).2) hinv halong

/-- A reset cuts the save short that ends the inventory. -/
def cutShort : List Event :=
  [.incident "", .saved [], .begin, .next, .startPhase "", .saved [.runtimeError],
    .returns [] 30 "", .reset "boot-2" (some 0), .start {} "" 0, .saved []]

theorem phases_in_order_cutShort :
    Always step (PhaseLaws Acceptance.defaultPlan)
        (opened "20260101-000000_SN1" ⟨"0123456789ab", "SN1"⟩ {} Acceptance.defaultPlan
          Acceptance.exampleMachine []) cutShort ∧
      Along step (fun w e => ∀ t, step w e = some t → Lawful {} w t)
        (opened "20260101-000000_SN1" ⟨"0123456789ab", "SN1"⟩ {} Acceptance.defaultPlan
          Acceptance.exampleMachine []) cutShort :=
  phases_in_order Acceptance.buildPlan_default "20260101-000000_SN1" ⟨"0123456789ab", "SN1"⟩
    Acceptance.exampleMachine (by decide) (by decide)

end Phases

end PcCheck
