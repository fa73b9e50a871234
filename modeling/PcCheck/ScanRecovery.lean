/-
Read errors over the boots of a session.

The offset of a scan is saved every heartbeat, and its read errors are kept in the thread
until the scan ends.  An event is a step of the thread of one disk, which is read and not
written, of the heartbeat, or of the process; every write completes unless the process
ends before it.  A process that ends with errors its scan has not filed takes them with
it, and the scan goes on behind them.  In the runs where none does, a disk that is done
has a failure on file for every region that could not be read.
-/
import PcCheck.DiskRuns
import PcCheck.Store

namespace PcCheck
namespace ScanRecovery

open EventMachine
open SurfaceScan (errorsKey)

variable {δ : Type}

/-- How far `SurfaceScan.run` has come, with the findings `report_scan` still has to add. -/
inductive Stage where
  | idle
  | opening
  | reading
  | ended
  | reporting (calls : List AddCall)
  | finished
  deriving DecidableEq

structure Process (δ : Type) where
  findings : Findings
  state : SessionState
  manager : DiskManager δ
  stage : Stage := .idle

structure World (δ : Type) where
  saved : SessionState
  files : RotatingFiles FindingsDoc
  live : Option (Process δ) := none
  /-- Where a read failed, in this boot or before, and how much it asked for. -/
  failed : List (Nat × Nat) := []

inductive Event where
  | begin (cfg : DiskConfig) (resumed : Bool)
  | startScans (probe : String → Probe)
  | cannotOpen (text : String)
  | opened
  | turn (slowReadSeconds : PyFloat) (r : ReadResult)
  | leave (stopped : Bool)
  | mark
  | file
  | finishReport
  | add (c : AddCall)
  | saveProgress
  | save
  | die

namespace Process

variable (p : Process δ)

def store (files : RotatingFiles FindingsDoc) : Store := { mem := p.findings, files := files }

def put (s : SurfaceScan δ) (stage : Stage) : Process δ :=
  { p with manager := { p.manager with scans := [s] }, stage := stage }

def onThread (stage : Stage) (f : SurfaceScan δ → Option (World δ)) : Option (World δ) :=
  match p.manager.scans with
  | [s] => if p.stage = stage then f s else none
  | _ => none

def saveProgress : Process δ :=
  let (manager, state, _) := p.manager.saveProgress p.state ""
  { p with manager := manager, state := state }

end Process

namespace World

def begin (w : World δ) (cfg : DiskConfig) (resumed : Bool) : Process δ :=
  { findings := Findings.load "findings.json" w.files, state := w.saved,
    manager := { config := cfg, resumed := resumed } }

def add (w : World δ) (p : Process δ) (c : AddCall) : World δ :=
  let store := (p.store w.files).add c true
  { w with files := store.files, live := some { p with findings := store.mem } }

end World

/-- What is appended to `errors`, as regions of the disk. -/
def newFailures (s s' : SurfaceScan δ) : List (Nat × Nat) :=
  (s'.errors.drop s.errors.length).map fun e => (e.1, min chunk (s.disk.size - e.1))

def act (disk : Disk δ) (w : World δ) (p : Process δ) : Event → Option (World δ)
  | .begin _ _ => none
  | .startScans probe =>
    match p.stage with
    | .idle =>
      let r := DiskManager.startScans [] probe "" p.manager p.state [disk]
      some { w with
        live := some { p with manager := r.manager, state := r.state, stage := .opening } }
    | _ => none
  | .cannotOpen text => p.onThread .opening fun s =>
      some (w.add (p.put s.cannotOpen .finished) (s.openCall text ""))
  | .opened => p.onThread .opening fun s => some { w with live := some (p.put s .reading) }
  | .turn slow r => p.onThread .reading fun s =>
      if s.reading false then
        some { w with
          live := some (p.put (s.turn slow r).1 (if (s.turn slow r).2 then .reading else .ended)),
          failed := w.failed ++ newFailures s (s.turn slow r).1 }
      else none
  | .leave stopped => p.onThread .reading fun s =>
      if s.reading stopped then none else some { w with live := some (p.put s .ended) }
  | .mark => p.onThread .ended fun s =>
      some { w with live := some (p.put s.mark (.reporting (s.mark.reportCalls ""))) }
  | .file =>
    match p.stage with
    | .reporting (c :: rest) => some (w.add { p with stage := .reporting rest } c)
    | _ => none
  | .finishReport =>
    match p.stage with
    | .reporting [] => some { w with live := some { p.saveProgress with stage := .finished } }
    | _ => none
  | .add c => some (w.add p c)
  | .saveProgress => some { w with live := some p.saveProgress }
  | .save => some { w with saved := p.state }
  | .die => some { w with live := none }

def step (disk : Disk δ) (w : World δ) (e : Event) : Option (World δ) :=
  match w.live, e with
  | some p, e => act disk w p e
  | none, .begin cfg resumed => some { w with live := some (w.begin cfg resumed) }
  | none, _ => none

def fresh (name : String) (identity : Identity) (opts : Options) (plan : List PlanEntry)
    (m : Machine) : World δ :=
  { saved := SessionState.fresh name identity opts plan m, files := RotatingFiles.empty }

/-! ## What survives -/

variable (disk : Disk δ)

def Filed (w : World δ) : Prop := (Store.filed w.files).Fails (errorsKey disk)

/-- A disk that is done, with a failed region behind its offset, has its failure on file. -/
def ErrorsSurvive (w : World δ) : Prop :=
  ∀ st, (st = w.saved ∨ ∃ p, w.live = some p ∧ st = p.state) →
    (st.progress (diskId disk)).done = true →
    (∃ region ∈ w.failed, region.1 + region.2 ≤ (st.progress (diskId disk)).offset) → Filed disk w

/-- The thread has read errors that it has not filed. -/
def Process.holdsErrors (p : Process δ) : Bool :=
  match p.stage with
  | .reading => p.manager.scans.any fun s => !s.errors.isEmpty
  | .ended => p.manager.scans.any fun s => !s.errors.isEmpty
  | .reporting calls => calls.any fun c => decide (c.severity = .fail)
  | _ => false

/-- There are read errors in memory only. -/
def Unreported (w : World δ) : Prop :=
  (∃ p, w.live = some p ∧ p.holdsErrors = true) ∧ ¬ Filed disk w

/-- No process ends, and no scan is saved as done, while there are read errors in memory
only. -/
def ReportsFirst (w : World δ) : Event → Prop
  | .die => ¬ Unreported disk w
  | .saveProgress => Unreported disk w →
      ∀ p, w.live = some p → ∀ s ∈ p.manager.scans, s.done = false
  | _ => True

structure ProcInv (w : World δ) (p : Process δ) : Prop where
  sound : (p.store w.files).Sound
  writers : p.manager.writers = []
  one : p.manager.scans.length ≤ 1
  idle : p.stage = .idle → p.manager.scans = []
  same : ∀ s ∈ p.manager.scans, s.disk = disk
  unmarked : p.stage = .opening ∨ p.stage = .reading ∨ p.stage = .ended →
    ∀ s ∈ p.manager.scans, s.done = false
  undone : (p.state.progress (diskId disk)).done = true → ∀ s ∈ p.manager.scans, s.done = true
  later : (w.saved.progress (diskId disk)).done = true →
    (p.state.progress (diskId disk)).done = true
  filed : (p.state.progress (diskId disk)).done = true → w.failed ≠ [] → Filed disk w
  calls : ∀ calls, p.stage = .reporting calls →
    ∀ c ∈ calls, c.severity = .fail → c.key = errorsKey disk

/-- Failed reads are on file or held by the thread, and on file once the disk is done. -/
structure Inv (w : World δ) : Prop where
  kept : w.failed ≠ [] → Filed disk w ∨ ∃ p, w.live = some p ∧ p.holdsErrors = true
  saved : (w.saved.progress (diskId disk)).done = true → w.failed ≠ [] → Filed disk w
  proc : ∀ p, w.live = some p → ProcInv disk w p

/-! ## One step -/

variable {disk}

theorem onThread_eq_some {p : Process δ} {stage : Stage} {f : SurfaceScan δ → Option (World δ)}
    {t : World δ} (h : p.onThread stage f = some t) :
    ∃ s, p.manager.scans = [s] ∧ p.stage = stage ∧ f s = some t := by
  unfold Process.onThread at h
  split at h
  · next s hs =>
    by_cases hstage : p.stage = stage
    · rw [if_pos hstage] at h
      exact ⟨s, hs, hstage, h⟩
    · rw [if_neg hstage] at h
      cases h
  · cases h

theorem step_cases {w t : World δ} {e : Event} (h : step disk w e = some t) :
    (∃ cfg resumed, w.live = none ∧ t = { w with live := some (w.begin cfg resumed) }) ∨
    ∃ p, w.live = some p ∧ act disk w p e = some t := by
  cases hl : w.live with
  | none =>
    cases e with
    | begin cfg resumed =>
      simp only [step, hl, Option.some.injEq] at h
      exact Or.inl ⟨cfg, resumed, rfl, h.symm⟩
    | _ => simp only [step, hl, reduceCtorEq] at h
  | some p =>
    simp only [step, hl] at h
    exact Or.inr ⟨p, rfl, h⟩

theorem kept_of_holds {w : World δ} {p : Process δ} (h : Inv disk w) (hp : w.live = some p)
    (hfailed : w.failed ≠ []) : Filed disk w ∨ p.holdsErrors = true := by
  rcases h.kept hfailed with hfiled | ⟨q, hq, hholds⟩
  · exact Or.inl hfiled
  · obtain rfl := Option.some.inj (hp.symm.trans hq)
    exact Or.inr hholds

/-- Nothing is in memory only at a stage that holds no errors. -/
theorem filed_of_quiet {w : World δ} {p : Process δ} (h : Inv disk w) (hp : w.live = some p)
    (hquiet : p.holdsErrors = false) (hfailed : w.failed ≠ []) : Filed disk w := by
  rcases kept_of_holds h hp hfailed with hfiled | hholds
  · exact hfiled
  · rw [hquiet] at hholds
    cases hholds

/-- `start_scans` leaves the progress alone and starts at most one thread, on a disk that
is not done. -/
theorem startScans_one (dm : DiskManager δ) (hscans : dm.scans = []) (hwriters : dm.writers = [])
    (probe : String → Probe) (st : SessionState) (d : Disk δ) :
    let r := DiskManager.startScans [] probe "" dm st [d]
    (∀ ident, r.state.progress ident = st.progress ident) ∧ r.manager.writers = [] ∧
      r.manager.scans.length ≤ 1 ∧
      ∀ s ∈ r.manager.scans, s.disk = d ∧ s.done = false ∧
        (st.progress (diskId d)).done = false := by
  simp only [DiskManager.startScans]
  cases hdec : dm.decision st [] probe d with
  | error e =>
    refine ⟨st.progress_register [] d, hwriters, by rw [hscans]; exact Nat.zero_le 1,
      fun s hs => ?_⟩
    rw [hscans] at hs
    cases hs
  | ok dec =>
    refine ⟨st.progress_register [] d, ?_, ?_, ?_⟩
    · cases dec with
      | writes => exact absurd (DiskManager.of_decision_writes hdec).1 List.not_mem_nil
      | _ => exact hwriters
    · have hlaunch : (dm.launch d dec).scans.length ≤ dm.scans.length + 1 := by
        cases dec with
        | reads offset => exact (List.length_append ..).le
        | _ => exact Nat.le_succ _
      rw [hscans] at hlaunch
      exact hlaunch
    · intro s hs
      cases dec with
      | reads offset =>
        have hundone : ¬ (st.progress (diskId d)).done = true := by
          intro hdone
          cases (DiskManager.of_decision_progress hdec).1.mpr hdone
        have hmem : s ∈ dm.scans ++ [{ disk := d, offset := offset }] := hs
        rw [hscans, List.nil_append, List.mem_singleton] at hmem
        subst hmem
        exact ⟨rfl, rfl, Bool.eq_false_iff.mpr hundone⟩
      | _ =>
        have hmem : s ∈ dm.scans := hs
        rw [hscans] at hmem
        cases hmem

theorem progress_saveScan (st : SessionState) (s : SurfaceScan δ) :
    ((st.saveScan s).progress (diskId s.disk)).done = s.done ∨ st.saveScan s = st := by
  unfold SessionState.saveScan
  cases st.diskScans.get? (diskId s.disk) with
  | none => exact Or.inr rfl
  | some entry =>
    left
    rw [SessionState.progress_set, if_pos rfl]

theorem ProcInv.put {w : World δ} {p : Process δ} (h : ProcInv disk w p) {s s' : SurfaceScan δ}
    (hs : p.manager.scans = [s]) {stage : Stage} (hdisk : s'.disk = s.disk)
    (hdone : s.done = true → s'.done = true) (hidle : stage ≠ .idle)
    (hunmarked : stage = .opening ∨ stage = .reading ∨ stage = .ended → s'.done = false)
    (hcalls : ∀ calls, stage = .reporting calls →
      ∀ c ∈ calls, c.severity = .fail → c.key = errorsKey disk) :
    ProcInv disk w (p.put s' stage) := by
  have hmem : s ∈ p.manager.scans := by rw [hs]; exact List.mem_singleton_self s
  refine ⟨h.sound, h.writers, le_refl 1, fun hst => absurd hst hidle, fun s'' hs'' => ?_,
    fun hst s'' hs'' => ?_, fun hst s'' hs'' => ?_, h.later, h.filed, hcalls⟩ <;>
    obtain rfl := List.mem_singleton.mp hs''
  · exact hdisk.trans (h.same s hmem)
  · exact hunmarked hst
  · exact hdone (h.undone hst s hmem)

theorem filed_add {w : World δ} {p : Process δ} (h : (p.store w.files).Sound) (c : AddCall)
    (hfiled : Filed disk w) : Filed disk (w.add p c) :=
  Store.filed_fails_add h hfiled c true

theorem inv_live {w : World δ} {q : Process δ} (h : Inv disk w) (hq : ProcInv disk w q)
    (hkept : w.failed ≠ [] → Filed disk w ∨ q.holdsErrors = true) :
    Inv disk { w with live := some q } := by
  refine ⟨fun hfailed => ?_, h.saved, fun p hp => ?_⟩
  · rcases hkept hfailed with hfiled | hholds
    · exact Or.inl hfiled
    · exact Or.inr ⟨q, rfl, hholds⟩
  · obtain rfl := Option.some.inj hp
    exact ⟨hq.sound, hq.writers, hq.one, hq.idle, hq.same, hq.unmarked, hq.undone, hq.later,
      hq.filed, hq.calls⟩

/-- A finding is added: no failure on file is lost, and a failure of the disk gets there. -/
theorem inv_add {w : World δ} {q : Process δ} (h : Inv disk w) (hq : ProcInv disk w q)
    (c : AddCall) (hkept : w.failed ≠ [] →
      Filed disk w ∨ (c.severity = .fail ∧ c.key = errorsKey disk) ∨ q.holdsErrors = true) :
    Inv disk (w.add q c) := by
  have hfiled : Filed disk w → Filed disk (w.add q c) := filed_add hq.sound c
  refine ⟨fun hfailed => ?_, fun hdone hfailed => hfiled (h.saved hdone hfailed), fun p hp => ?_⟩
  · rcases hkept hfailed with hold | ⟨hfail, hkey⟩ | hholds
    · exact Or.inl (hfiled hold)
    · left
      show (Store.filed (Store.add _ c true).files).Fails (errorsKey disk)
      rw [← hkey]
      exact Store.filed_fails_add_self hq.sound hfail
    · exact Or.inr ⟨_, rfl, hholds⟩
  · obtain rfl := Option.some.inj hp
    exact ⟨hq.sound.add c true, hq.writers, hq.one, hq.idle, hq.same, hq.unmarked, hq.undone,
      hq.later, fun hdone hfailed => hfiled (hq.filed hdone hfailed), hq.calls⟩

theorem saveProgress_eq {p : Process δ} (hw : p.manager.writers = []) :
    p.saveProgress = { p with state := p.manager.scans.foldl SessionState.saveScan p.state } := by
  obtain ⟨findings, state, ⟨config, resumed, scans, writers⟩, stage⟩ := p
  obtain rfl : writers = [] := hw
  rfl

/-- Saving the progress of a scan that is done needs its errors on file. -/
theorem ProcInv.saveProgress {w : World δ} {p : Process δ} (h : ProcInv disk w p)
    (hdone : ∀ s ∈ p.manager.scans, s.done = true → w.failed ≠ [] → Filed disk w) :
    ProcInv disk w p.saveProgress := by
  rw [saveProgress_eq h.writers]
  obtain ⟨findings, state, ⟨config, resumed, scans, writers⟩, stage⟩ := p
  cases scans with
  | nil => exact h
  | cons s rest =>
    obtain rfl : rest = [] :=
      List.length_eq_zero_iff.mp (Nat.le_zero.mp (Nat.le_of_succ_le_succ h.one))
    have hs : s ∈ [s] := List.mem_singleton_self s
    obtain rfl : s.disk = disk := h.same s hs
    rcases progress_saveScan state s with hsaved | hsame
    · refine ⟨h.sound, h.writers, h.one, h.idle, h.same, h.unmarked, fun hd s' hs' => ?_,
        fun hd => ?_, fun hd => ?_, h.calls⟩
      · obtain rfl := List.mem_singleton.mp hs'
        exact hsaved.symm.trans hd
      · exact hsaved.trans (h.undone (h.later hd) s hs)
      · exact hdone s hs (hsaved.symm.trans hd)
    · have hstate : [s].foldl SessionState.saveScan state = state := hsame
      rw [hstate]
      exact h

theorem holdsErrors_saveProgress {p : Process δ} (hw : p.manager.writers = []) :
    p.saveProgress.holdsErrors = p.holdsErrors := by
  rw [saveProgress_eq hw]
  rfl

/-- Where the loop ends, the errors are what `report_scan` files as a failure. -/
theorem reportCalls_fail {s : SurfaceScan δ} (now : String) :
    (∀ c ∈ s.reportCalls now, c.severity = .fail → c.key = errorsKey s.disk) ∧
      (s.errors ≠ [] → ∃ c ∈ s.reportCalls now, c.severity = .fail) := by
  constructor
  · intro c hc hfail
    simp only [SurfaceScan.reportCalls, List.mem_append, Option.mem_toList] at hc
    rcases hc with (herrors | hslow) | hok
    · by_cases he : s.errors = []
      · rw [SurfaceScan.errorsCall, if_pos he] at herrors
        cases herrors
      · rw [SurfaceScan.errorsCall, if_neg he] at herrors
        obtain rfl := Option.some.inj herrors
        rfl
    · unfold SurfaceScan.slowCall at hslow
      obtain ⟨-, hsome⟩ := Option.ite_none_right_eq_some.mp hslow
      obtain rfl := Option.some.inj hsome
      cases hfail
    · unfold SurfaceScan.okCall at hok
      obtain ⟨-, hsome⟩ := Option.ite_none_right_eq_some.mp hok
      obtain rfl := Option.some.inj hsome
      cases hfail
  · intro he
    rw [SurfaceScan.reportCalls, SurfaceScan.errorsCall, if_neg he]
    exact ⟨_, List.mem_append_left _ (List.mem_append_left _ (List.mem_singleton_self _)), rfl⟩

theorem holdsErrors_reading {p : Process δ} {s : SurfaceScan δ} (hs : p.manager.scans = [s])
    (hstage : p.stage = .reading ∨ p.stage = .ended) :
    p.holdsErrors = true ↔ s.errors ≠ [] := by
  have hany : p.holdsErrors = p.manager.scans.any fun s => !s.errors.isEmpty := by
    unfold Process.holdsErrors
    rcases hstage with hst | hst <;> rw [hst]
  rw [hany, hs, List.any_cons, List.any_nil, Bool.or_false, Bool.not_eq_true',
    List.isEmpty_eq_false_iff]

/-- A turn appends the failed region and the error to the two lists. -/
theorem inv_turn {w : World δ} {p : Process δ} (h : Inv disk w) (hp : w.live = some p)
    {s : SurfaceScan δ} (hs : p.manager.scans = [s]) (hstage : p.stage = .reading)
    (slow : PyFloat) (r : ReadResult) {stage : Stage} (hst : stage = .reading ∨ stage = .ended) :
    Inv disk { w with
      live := some (p.put (s.turn slow r).1 stage),
      failed := w.failed ++ newFailures s (s.turn slow r).1 } := by
  have hpi := h.proc p hp
  have hmem : s ∈ p.manager.scans := by rw [hs]; exact List.mem_singleton_self s
  have hnotdone : s.done = false := hpi.unmarked (Or.inr (Or.inl hstage)) s hmem
  have hlive : ¬ (p.state.progress (diskId disk)).done = true := by
    intro hd
    have hdone := hpi.undone hd s hmem
    rw [hnotdone] at hdone
    cases hdone
  obtain ⟨hdone, new, herrors⟩ := s.turn_frame slow r
  have hq : ProcInv disk w (p.put (s.turn slow r).1 stage) := by
    refine hpi.put hs (s.turn_disk slow r) (fun hd => hdone.trans hd) ?_ (fun _ => ?_) ?_
    · rcases hst with rfl | rfl <;> exact nofun
    · exact hdone.trans hnotdone
    · rcases hst with rfl | rfl <;> exact nofun
  refine ⟨fun hfailed => ?_, fun hd => absurd (hpi.later hd) hlive, fun q hq' => ?_⟩
  · have hholds := holdsErrors_reading (p := p.put (s.turn slow r).1 stage) rfl hst
    rw [herrors] at hholds
    by_cases hnew : new = []
    · have hold : w.failed ≠ [] := by
        intro hnil
        rw [newFailures, herrors, hnew, List.append_nil, List.drop_length, hnil] at hfailed
        exact hfailed rfl
      rcases kept_of_holds h hp hold with hfiled | hheld
      · exact Or.inl hfiled
      · have hne := (holdsErrors_reading hs (Or.inl hstage)).mp hheld
        exact Or.inr ⟨_, rfl, hholds.mpr fun hnil => hne (List.append_eq_nil_iff.mp hnil).1⟩
    · exact Or.inr ⟨_, rfl, hholds.mpr fun hnil => hnew (List.append_eq_nil_iff.mp hnil).2⟩
  · obtain rfl := Option.some.inj hq'
    exact ⟨hq.sound, hq.writers, hq.one, hq.idle, hq.same, hq.unmarked, hq.undone, hq.later,
      fun hd => absurd hd hlive, hq.calls⟩

theorem inv_startScans {w : World δ} {p : Process δ} (h : Inv disk w) (hl : w.live = some p)
    (hstage : p.stage = .idle) (probe : String → Probe) :
    Inv disk { w with live := some { p with
      manager := (DiskManager.startScans [] probe "" p.manager p.state [disk]).manager,
      state := (DiskManager.startScans [] probe "" p.manager p.state [disk]).state,
      stage := .opening } } := by
  have hp := h.proc p hl
  obtain ⟨hprogress, hwriters, hone, hnew⟩ := startScans_one p.manager (hp.idle hstage)
    hp.writers probe p.state disk
  have hdone := congrArg Progress.done (hprogress (diskId disk))
  refine inv_live h ⟨hp.sound, hwriters, hone, nofun, fun s hs => (hnew s hs).1,
    fun _ s hs => (hnew s hs).2.1, fun hd s hs => ?_, fun hd => hdone.trans (hp.later hd),
    fun hd => hp.filed (hdone.symm.trans hd), nofun⟩
    fun hfailed => Or.inl (filed_of_quiet h hl (by rw [Process.holdsErrors, hstage]) hfailed)
  have hundone := (hnew s hs).2.2
  rw [← hprogress, hd] at hundone
  cases hundone

theorem inv_mark {w : World δ} {p : Process δ} (h : Inv disk w) (hl : w.live = some p)
    {s : SurfaceScan δ} (hs : p.manager.scans = [s]) (hstage : p.stage = .ended) :
    Inv disk { w with live := some (p.put s.mark (.reporting (s.mark.reportCalls ""))) } := by
  have hp := h.proc p hl
  have hmem : s ∈ p.manager.scans := by rw [hs]; exact List.mem_singleton_self s
  have hnotdone : s.done = false := hp.unmarked (Or.inr (Or.inr hstage)) s hmem
  obtain ⟨hkeys, hfail⟩ := reportCalls_fail (s := s.mark) ""
  refine inv_live h (hp.put hs s.mark_disk (fun hd => ?_) nofun (fun hst => ?_)
    fun calls hcalls => ?_) fun hfailed => ?_
  · rw [hnotdone] at hd
    cases hd
  · rcases hst with hst | hst | hst <;> cases hst
  · obtain rfl := Stage.reporting.inj hcalls
    rw [s.mark_disk, hp.same s hmem] at hkeys
    exact hkeys
  · rcases kept_of_holds h hl hfailed with hfiled | hholds
    · exact Or.inl hfiled
    · right
      have hne := (holdsErrors_reading hs (Or.inr hstage)).mp hholds
      rw [← s.mark_errors] at hne
      obtain ⟨c, hc, hsev⟩ := hfail hne
      exact List.any_eq_true.mpr ⟨c, hc, decide_eq_true hsev⟩

/-- Of the errors in memory, the finding that is added was the first to go or is still to
come. -/
theorem inv_file {w : World δ} {p : Process δ} (h : Inv disk w) (hl : w.live = some p)
    {c : AddCall} {rest : List AddCall} (hstage : p.stage = .reporting (c :: rest)) :
    Inv disk (w.add { p with stage := .reporting rest } c) := by
  have hp := h.proc p hl
  have hq : ProcInv disk w { p with stage := .reporting rest } := by
    refine ⟨hp.sound, hp.writers, hp.one, nofun, hp.same, fun hst => ?_, hp.undone, hp.later,
      hp.filed, fun calls hcalls c' hc' => ?_⟩
    · rcases hst with hst | hst | hst <;> cases hst
    · obtain rfl := Stage.reporting.inj hcalls
      exact hp.calls _ hstage c' (List.mem_cons_of_mem c hc')
  refine inv_add h hq c fun hfailed => ?_
  rcases kept_of_holds h hl hfailed with hfiled | hholds
  · exact Or.inl hfiled
  · right
    have hany : (c :: rest).any (fun c => decide (c.severity = .fail)) = true := by
      rw [Process.holdsErrors, hstage] at hholds
      exact hholds
    obtain ⟨c', hc', hsev⟩ := List.any_eq_true.mp hany
    have hfail := of_decide_eq_true hsev
    rcases List.mem_cons.mp hc' with rfl | hrest
    · exact Or.inl ⟨hfail, hp.calls _ hstage c' List.mem_cons_self hfail⟩
    · exact Or.inr (List.any_eq_true.mpr ⟨c', hrest, hsev⟩)

theorem inv_finishReport {w : World δ} {p : Process δ} (h : Inv disk w) (hl : w.live = some p)
    (hstage : p.stage = .reporting []) :
    Inv disk { w with live := some { p.saveProgress with stage := .finished } } := by
  have hfiled := filed_of_quiet h hl (by rw [Process.holdsErrors, hstage]; rfl)
  have hq := (h.proc p hl).saveProgress fun s _ _ => hfiled
  refine inv_live h ⟨hq.sound, hq.writers, hq.one, nofun, hq.same, fun hst => ?_, hq.undone,
    hq.later, hq.filed, nofun⟩ fun hfailed => Or.inl (hfiled hfailed)
  rcases hst with hst | hst | hst <;> cases hst

theorem inv_saveProgress {w : World δ} {p : Process δ} (h : Inv disk w) (hl : w.live = some p)
    (hC : Unreported disk w → ∀ p, w.live = some p → ∀ s ∈ p.manager.scans, s.done = false) :
    Inv disk { w with live := some p.saveProgress } := by
  have hp := h.proc p hl
  refine inv_live h (hp.saveProgress fun s hs hd hfailed => ?_) fun hfailed => ?_
  · by_contra hnot
    have hholds := (kept_of_holds h hl hfailed).resolve_left hnot
    have hundone := hC ⟨⟨p, hl, hholds⟩, hnot⟩ p hl s hs
    rw [hd] at hundone
    cases hundone
  · rw [holdsErrors_saveProgress hp.writers]
    exact kept_of_holds h hl hfailed

theorem inv_act {w t : World δ} {p : Process δ} {e : Event} (h : Inv disk w)
    (hl : w.live = some p) (hC : ReportsFirst disk w e) (ht : act disk w p e = some t) :
    Inv disk t := by
  have hp := h.proc p hl
  have hkept := kept_of_holds h hl
  cases e with
  | begin cfg resumed => cases ht
  | startScans probe =>
    simp only [act] at ht
    split at ht
    · next hstage =>
      obtain rfl := Option.some.inj ht
      exact inv_startScans h hl hstage probe
    · cases ht
  | cannotOpen text =>
    obtain ⟨s, hs, hstage, ht⟩ := onThread_eq_some ht
    obtain rfl := Option.some.inj ht
    have hq : ProcInv disk w (p.put s.cannotOpen .finished) := by
      refine hp.put hs rfl (fun _ => rfl) nofun (fun hst => ?_) nofun
      rcases hst with hst | hst | hst <;> cases hst
    exact inv_add h hq _ fun hfailed =>
      Or.inl (filed_of_quiet h hl (by rw [Process.holdsErrors, hstage]) hfailed)
  | opened =>
    obtain ⟨s, hs, hstage, ht⟩ := onThread_eq_some ht
    obtain rfl := Option.some.inj ht
    have hmem : s ∈ p.manager.scans := by rw [hs]; exact List.mem_singleton_self s
    exact inv_live h (hp.put hs rfl id nofun (fun _ => hp.unmarked (Or.inl hstage) s hmem) nofun)
      fun hfailed => Or.inl (filed_of_quiet h hl (by rw [Process.holdsErrors, hstage]) hfailed)
  | turn slow r =>
    obtain ⟨s, hs, hstage, ht⟩ := onThread_eq_some ht
    by_cases hr : s.reading false = true
    · rw [if_pos hr] at ht
      obtain rfl := Option.some.inj ht
      refine inv_turn h hl hs hstage slow r ?_
      cases (s.turn slow r).2
      · exact Or.inr rfl
      · exact Or.inl rfl
    · rw [if_neg hr] at ht
      cases ht
  | leave stopped =>
    obtain ⟨s, hs, hstage, ht⟩ := onThread_eq_some ht
    by_cases hr : s.reading stopped = true
    · rw [if_pos hr] at ht
      cases ht
    · rw [if_neg hr] at ht
      obtain rfl := Option.some.inj ht
      have hmem : s ∈ p.manager.scans := by rw [hs]; exact List.mem_singleton_self s
      refine inv_live h (hp.put hs rfl id nofun
        (fun _ => hp.unmarked (Or.inr (Or.inl hstage)) s hmem) nofun) fun hfailed => ?_
      refine (hkept hfailed).imp_right fun hholds => ?_
      exact (holdsErrors_reading rfl (Or.inr rfl)).mpr
        ((holdsErrors_reading hs (Or.inl hstage)).mp hholds)
  | mark =>
    obtain ⟨s, hs, hstage, ht⟩ := onThread_eq_some ht
    obtain rfl := Option.some.inj ht
    exact inv_mark h hl hs hstage
  | file =>
    simp only [act] at ht
    split at ht
    · next c rest hstage =>
      obtain rfl := Option.some.inj ht
      exact inv_file h hl hstage
    · cases ht
  | finishReport =>
    simp only [act] at ht
    split at ht
    · next hstage =>
      obtain rfl := Option.some.inj ht
      exact inv_finishReport h hl hstage
    · cases ht
  | add c =>
    obtain rfl := Option.some.inj ht
    exact inv_add h hp c fun hfailed => (hkept hfailed).imp_right Or.inr
  | saveProgress =>
    obtain rfl := Option.some.inj ht
    exact inv_saveProgress h hl hC
  | save =>
    obtain rfl := Option.some.inj ht
    refine ⟨h.kept, hp.filed, fun q hq => ?_⟩
    obtain rfl := Option.some.inj (hl.symm.trans hq)
    exact ⟨hp.sound, hp.writers, hp.one, hp.idle, hp.same, hp.unmarked, hp.undone, id, hp.filed,
      hp.calls⟩
  | die =>
    obtain rfl := Option.some.inj ht
    refine ⟨fun hfailed => ?_, h.saved, fun q hq => by cases hq⟩
    by_contra hnot
    have hfiled : ¬ Filed disk w := fun hfiled => hnot (Or.inl hfiled)
    exact hC ⟨⟨p, hl, (hkept hfailed).resolve_left hfiled⟩, hfiled⟩

theorem inv_step {w t : World δ} {e : Event} (h : Inv disk w) (hC : ReportsFirst disk w e)
    (ht : step disk w e = some t) : Inv disk t := by
  rcases step_cases ht with ⟨cfg, resumed, hl, rfl⟩ | ⟨p, hl, hact⟩
  · have hfiled : w.failed ≠ [] → Filed disk w := by
      intro hfailed
      rcases h.kept hfailed with hfiled | ⟨p, hp, -⟩
      · exact hfiled
      · rw [hl] at hp
        cases hp
    exact inv_live h ⟨Store.Sound.load "findings.json" w.files, rfl, Nat.zero_le 1, fun _ => rfl,
      nofun, nofun, nofun, id, fun _ => hfiled, nofun⟩ fun hfailed => Or.inl (hfiled hfailed)
  · exact inv_act h hl hC hact

theorem inv_fresh (name : String) (identity : Identity) (opts : Options) (plan : List PlanEntry)
    (m : Machine) : Inv disk (fresh name identity opts plan m) :=
  ⟨fun hfailed => absurd rfl hfailed, fun _ hfailed => absurd rfl hfailed, fun p hp => by cases hp⟩

theorem errorsSurvive_of_inv {w : World δ} (h : Inv disk w) : ErrorsSurvive disk w := by
  intro st hst hdone hregion
  obtain ⟨region, hmem, -⟩ := hregion
  have hfailed : w.failed ≠ [] := List.ne_nil_of_mem hmem
  rcases hst with rfl | ⟨p, hp, rfl⟩
  · exact h.saved hdone hfailed
  · exact (h.proc p hp).filed hdone hfailed

/-- Failed reads survive every reset in the runs where no process ends, and no scan is
saved as done, while there are read errors in memory only. -/
theorem errors_survive (disk : Disk δ) (name : String) (identity : Identity) (opts : Options)
    (plan : List PlanEntry) (m : Machine) {es : List Event}
    (hC : Along (step disk) (ReportsFirst disk) (fresh name identity opts plan m) es) :
    Always (step disk) (ErrorsSurvive disk) (fresh name identity opts plan m) es := by
  intro pre hpre t ht
  exact errorsSurvive_of_inv (always_of_along (fun _ _ _ h hC ht => inv_step h hC ht)
    (inv_fresh name identity opts plan m) hC pre hpre t ht)

/-! ## A failed read that is lost -/

def exampleDisk : Disk Nat := { device := 0, name := "sda", size := 2 * chunk, serial := "S1" }

def exampleWorld : World Nat :=
  fresh "20260101-000000_SN1" ⟨"0123456789ab", "SN1"⟩ {} [] ⟨"boot-1", "2026-01-01T00:00:00", 0⟩

def starts (resumed : Bool) : List Event :=
  [.begin DiskRuns.exampleConfig resumed, .startScans (DiskRuns.exampleProbe []), .opened]

def failedRead : Event := .turn (.finite 5) (.error "[Errno 5] Input/output error")

def goodRead : Event := .turn (.finite 5) (.data chunk 1)

/-- The first chunk cannot be read, and the scan lives to report it. -/
def reported : List Event :=
  starts false ++ [failedRead, goodRead, .leave false, .mark, .file, .file, .finishReport, .save]

/-- The first chunk cannot be read, and the process ends after a heartbeat. -/
def lost : List Event :=
  starts false ++ [failedRead, .saveProgress, .save, .die] ++ starts true ++
    [goodRead, .leave false, .mark, .file, .finishReport, .save]

theorem reported_run :
    (run (step exampleDisk) exampleWorld reported).all
      (fun t => t.live.all fun p => !p.holdsErrors) = true := by decide +kernel

theorem along_reported :
    Along (step exampleDisk) (ReportsFirst exampleDisk) exampleWorld
      (reported ++ .die :: starts true) := by
  refine along_append (along_of_forall ?_) fun t ht => ⟨?_, fun u _ => along_of_forall ?_⟩
  · intro e he w
    simp only [reported, starts, List.cons_append, List.nil_append, List.mem_cons,
      List.not_mem_nil, or_false] at he
    rcases he with rfl | rfl | rfl | rfl | rfl | rfl | rfl | rfl | rfl | rfl | rfl <;> trivial
  · intro hun
    obtain ⟨⟨p, hp, hholds⟩, -⟩ := hun
    have hquiet := reported_run
    rw [ht, Option.all_some, hp, Option.all_some, hholds] at hquiet
    cases hquiet
  · intro e he w
    simp only [starts, List.mem_cons, List.not_mem_nil, or_false] at he
    rcases he with rfl | rfl | rfl <;> trivial

theorem errors_survive_reported :
    Always (step exampleDisk) (ErrorsSurvive exampleDisk) exampleWorld
      (reported ++ .die :: starts true) :=
  errors_survive exampleDisk "20260101-000000_SN1" ⟨"0123456789ab", "SN1"⟩ {} []
    ⟨"boot-1", "2026-01-01T00:00:00", 0⟩ along_reported

/-- The disk is saved as done, with a failed region behind its offset and nothing on file. -/
def passesUnread (t : World Nat) : Bool :=
  decide (t.saved.progress (diskId exampleDisk) = ⟨2 * chunk, true⟩) &&
    decide (t.failed = [(0, chunk)]) && ((Store.filed t.files).get? (errorsKey exampleDisk)).isNone

theorem lost_run : (run (step exampleDisk) exampleWorld lost).any passesUnread = true := by
  decide +kernel

theorem failed_read_is_lost :
    ¬ ∀ (disk : Disk Nat) (name : String) (identity : Identity) (opts : Options)
      (plan : List PlanEntry) (m : Machine) (es : List Event),
      Always (step disk) (ErrorsSurvive disk) (fresh name identity opts plan m) es := by
  intro h
  obtain ⟨t, ht, hpasses⟩ := (Option.any_eq_true _ _).mp lost_run
  simp only [passesUnread, Bool.and_eq_true, decide_eq_true_eq, Option.isNone_iff_eq_none]
    at hpasses
  obtain ⟨⟨hdone, hfailed⟩, hnone⟩ := hpasses
  have hsurvive := h exampleDisk _ _ _ _ _ lost lost (List.prefix_refl _) t ht
  obtain ⟨f, hf, -⟩ := hsurvive t.saved (Or.inl rfl) (by rw [hdone])
    ⟨(0, chunk), by rw [hfailed]; exact List.mem_singleton_self _, by rw [hdone]; decide⟩
  rw [hnone] at hf
  cases hf

end ScanRecovery
end PcCheck
