/-
What the row of a phase tells of the calls that were made in it (`run_phases`, and
`Findings.add`, `escalate` and `by_phase`).

`run_phases` makes a phase current, and when the phase returns takes its status from the
findings filed under it, each under the phase in which its key was first met.  A phase may be
current more than once, since a planned reboot puts it back, and a new process begins with the
findings that it finds on file, whatever these are.
-/
import PcCheck.Phases
import PcCheck.Store
import PcCheck.Lib.EventMachine
import Mathlib.Logic.Function.Basic

namespace PcCheck
namespace PhaseRows

open EventMachine
open Phases (phaseStatus)

/-! ## Levels -/

/-- How much a severity says of a phase: nothing, a warning, a failure, or a test not done. -/
def level (severity : Severity) (incomplete : Bool) : Nat :=
  if incomplete then 3 else severity.rank - 1

/-- A call that met a finding. -/
structure Made where
  severity : Severity
  incomplete : Bool
  /-- The finding is filed under the phase that was current. -/
  own : Bool

def Made.level (c : Made) : Nat := PhaseRows.level c.severity c.incomplete

def statusLevel : PhaseStatus → Nat
  | .error => 3
  | .failed => 2
  | .warn => 1
  | _ => 0

/-- Some call reaches the level. -/
def Carried (calls : List Made) (n : Nat) : Prop := ∃ c ∈ calls, n ≤ c.level

/-- A finding filed under the phase has reached the level. -/
def Shows (items : Items) (phase : String) (n : Nat) : Prop :=
  items.Has fun f => f.phase = phase ∧ n ≤ level f.severity f.incomplete

/-- The status tells what the calls carried. -/
structure Tells (calls : List Made) (status : PhaseStatus) : Prop where
  error : (∃ c ∈ calls, c.incomplete = true) → status = .error
  failed : (∀ c ∈ calls, c.incomplete = false) → (∃ c ∈ calls, c.severity = .fail) →
    status = .failed
  warn : (∀ c ∈ calls, c.incomplete = false ∧ c.severity ≠ .fail) →
    (∃ c ∈ calls, c.severity = .warn) → status = .warn
  done : status = .done →
    ∀ c ∈ calls, c.incomplete = false ∧ c.severity ≠ .fail ∧ c.severity ≠ .warn

/-! ## The machine -/

inductive Call where
  | add (c : AddCall)
  | escalate (c : EscalateCall)

namespace Call

def apply (fs : Findings) : Call → Findings
  | add c => (fs.record c).1
  | escalate c => fs.raise c

/-- What the call carries, with the phase of the finding it met.  An escalation of a finding
that does not exist meets none. -/
def made (fs : Findings) : Call → Option Made
  | add c => some ⟨c.severity, c.incomplete, decide ((fs.recorded c).phase = fs.currentPhase)⟩
  | escalate c => (fs.items.get? c.key).map fun f =>
      ⟨c.severity, false, decide (f.phase = fs.currentPhase)⟩

end Call

structure World where
  findings : Findings
  /-- The store when the phase was last made current. -/
  began : Findings
  /-- The calls since then. -/
  since : List Made := []
  /-- The calls made while a phase was current, in any process. -/
  told : String → List Made := fun _ => []

inductive Event where
  | enter (name : String)
  | call (c : Call)
  | returns
  | restart (findings : Findings)

namespace World

variable (w : World)

def phase : String := w.findings.currentPhase

/-- The status `run_phases` gives the phase when it returns, unaborted. -/
def row : PhaseStatus := phaseStatus false (w.findings.byPhase w.phase)

def make (c : Call) : World :=
  { w with
    findings := c.apply w.findings
    since := w.since ++ (c.made w.findings).toList
    told := Function.update w.told w.phase (w.told w.phase ++ (c.made w.findings).toList) }

end World

def step (w : World) : Event → Option World
  | .enter name =>
    let findings := { w.findings with currentPhase := name }
    some { w with findings := findings, began := findings, since := [] }
  | .call c => some (w.make c)
  | .returns => some w
  | .restart findings => some { w with findings := findings, began := findings, since := [] }

def opened (findings : Findings) : World := { findings := findings, began := findings }

/-- A phase that returns has a row that tells of every call made while it was current. -/
def RowTells (w : World) (e : Event) : Prop := e = .returns → Tells (w.told w.phase) w.row

/-- What the calls of the phase reach, its own findings have reached: when it was last made
current, or by a call since then that met one of them; and they had reached nothing else. -/
structure Attributed (w : World) : Prop where
  reached : ∀ n, 1 ≤ n → Carried (w.told w.phase) n →
    Shows w.began.items w.phase n ∨ ∃ c ∈ w.since, c.own = true ∧ n ≤ c.level
  nothingElse : ∀ n, 1 ≤ n → Shows w.began.items w.phase n → Carried (w.told w.phase) n

/-- When a phase returns, no call has said anything, or what they said is attributed to it. -/
def CallsAttributed (w : World) (e : Event) : Prop :=
  e = .returns → (∀ c ∈ w.told w.phase, c.level = 0) ∨ Attributed w

/-! ## Statuses and levels -/

theorem one_le_rank (s : Severity) : 1 ≤ s.rank := by
  cases s <;> simp [Severity.rank]

theorem le_level_max {s t u : Severity} {i j : Bool} (n : Nat)
    (hu : u.rank = max s.rank t.rank) :
    n ≤ level u (i || j) ↔ n ≤ level s i ∨ n ≤ level t j := by
  have hs := one_le_rank s
  have ht := one_le_rank t
  have hs' : s.rank ≤ 3 := by cases s <;> simp [Severity.rank]
  have ht' : t.rank ≤ 3 := by cases t <;> simp [Severity.rank]
  unfold level
  cases i <;> cases j <;> simp <;> omega

theorem three_le_level {s : Severity} {i : Bool} : 3 ≤ level s i ↔ i = true := by
  cases i <;> cases s <;> simp [level, Severity.rank]

theorem two_le_level {s : Severity} {i : Bool} : 2 ≤ level s i ↔ i = true ∨ s = .fail := by
  cases i <;> cases s <;> simp [level, Severity.rank]

theorem one_le_level {s : Severity} {i : Bool} :
    1 ≤ level s i ↔ i = true ∨ s = .fail ∨ s = .warn := by
  cases i <;> cases s <;> simp [level, Severity.rank]

theorem level_le (s : Severity) (i : Bool) : level s i ≤ 3 := by
  cases i <;> cases s <;> simp [level, Severity.rank]

theorem level_le_two {s : Severity} {i : Bool} (hi : i = false) : level s i ≤ 2 := by
  by_contra hgt
  have hthree : 3 ≤ level s i := by omega
  rw [three_le_level, hi] at hthree
  cases hthree

theorem level_le_one {s : Severity} {i : Bool} (hi : i = false) (hs : s ≠ .fail) :
    level s i ≤ 1 := by
  by_contra hgt
  have htwo : 2 ≤ level s i := by omega
  rw [two_le_level, hi] at htwo
  rcases htwo with h | h
  · cases h
  · exact hs h

theorem level_eq_zero {s : Severity} {i : Bool} :
    level s i = 0 ↔ i = false ∧ s ≠ .fail ∧ s ≠ .warn := by
  have hone : level s i = 0 ↔ ¬ 1 ≤ level s i := by omega
  rw [hone, one_le_level, not_or, not_or, Bool.not_eq_true]

/-- The status of a phase reaches a level when one of its findings does. -/
theorem le_statusLevel (fs : List Finding) {n : Nat} (hpos : 1 ≤ n) :
    n ≤ statusLevel (phaseStatus false fs) ↔ ∃ f ∈ fs, n ≤ level f.severity f.incomplete := by
  have hbound : (∃ f ∈ fs, n ≤ level f.severity f.incomplete) → n ≤ 3 :=
    fun ⟨f, _, hn⟩ => hn.trans (level_le f.severity f.incomplete)
  unfold phaseStatus
  rw [if_neg Bool.false_ne_true]
  simp only [List.any_eq_true, decide_eq_true_eq]
  split
  · next hinc =>
    obtain ⟨f, hf, hinc⟩ := hinc
    refine ⟨fun hn => ⟨f, hf, hn.trans (three_le_level.mpr hinc)⟩, hbound⟩
  · next hinc =>
    have hcomplete : ∀ f ∈ fs, f.incomplete = false := fun f hf =>
      Bool.eq_false_iff.mpr fun h => hinc ⟨f, hf, h⟩
    split
    · next hfail =>
      obtain ⟨f, hf, hfail⟩ := hfail
      refine ⟨fun hn => ⟨f, hf, hn.trans (two_le_level.mpr (Or.inr hfail))⟩, ?_⟩
      exact fun ⟨g, hg, hn⟩ => hn.trans (level_le_two (hcomplete g hg))
    · next hfail =>
      have hnofail : ∀ f ∈ fs, f.severity ≠ .fail := fun f hf h => hfail ⟨f, hf, h⟩
      split
      · next hwarn =>
        obtain ⟨f, hf, hwarn⟩ := hwarn
        refine ⟨fun hn => ⟨f, hf, hn.trans (one_le_level.mpr (Or.inr (Or.inr hwarn)))⟩, ?_⟩
        exact fun ⟨g, hg, hn⟩ => hn.trans (level_le_one (hcomplete g hg) (hnofail g hg))
      · next hwarn =>
        constructor
        · intro hn
          exact absurd (hpos.trans hn) (by decide)
        · intro ⟨g, hg, hn⟩
          have hzero := level_eq_zero.mpr ⟨hcomplete g hg, hnofail g hg, fun h => hwarn ⟨g, hg, h⟩⟩
          omega

/-! ### What a row tells -/

variable {calls : List Made} {status : PhaseStatus}

theorem eq_error (h : 3 ≤ statusLevel status) : status = .error := by
  cases status <;> first | rfl | exact absurd h (by decide)

theorem eq_failed (h : statusLevel status = 2) : status = .failed := by
  cases status <;> first | rfl | exact absurd h (by decide)

theorem eq_warn (h : statusLevel status = 1) : status = .warn := by
  cases status <;> first | rfl | exact absurd h (by decide)

/-- The status is the highest level that some call reaches. -/
def Highest (calls : List Made) (status : PhaseStatus) : Prop :=
  ∀ n, 1 ≤ n → (n ≤ statusLevel status ↔ Carried calls n)

/-- A status goes no higher than the calls do. -/
theorem Highest.le (h : Highest calls status) {k : Nat} (hk : ∀ c ∈ calls, c.level ≤ k) :
    statusLevel status ≤ k := by
  by_contra hgt
  obtain ⟨c, hc, hle⟩ := (h (k + 1) (by omega)).mp (by omega)
  exact absurd (hle.trans (hk c hc)) (by omega)

theorem Highest.tells (h : Highest calls status) : Tells calls status where
  error := by
    intro ⟨c, hc, hinc⟩
    exact eq_error ((h 3 (by omega)).mpr ⟨c, hc, three_le_level.mpr hinc⟩)
  failed := by
    intro hcomplete ⟨c, hc, hfail⟩
    apply eq_failed
    have htwo := (h 2 (by omega)).mpr ⟨c, hc, two_le_level.mpr (Or.inr hfail)⟩
    exact Nat.le_antisymm (h.le fun d hd => level_le_two (hcomplete d hd)) htwo
  warn := by
    intro hlow ⟨c, hc, hwarn⟩
    apply eq_warn
    have hone := (h 1 (by omega)).mpr ⟨c, hc, one_le_level.mpr (Or.inr (Or.inr hwarn))⟩
    exact Nat.le_antisymm (h.le fun d hd => level_le_one (hlow d hd).1 (hlow d hd).2) hone
  done := by
    intro hdone c hc
    have hnone : ¬ Carried calls 1 := by
      intro hone
      have hle := (h 1 (by omega)).mpr hone
      rw [hdone] at hle
      exact absurd hle (by decide)
    have hlow : ¬ 1 ≤ level c.severity c.incomplete := fun hle => hnone ⟨c, hc, hle⟩
    exact level_eq_zero.mp (by omega)

theorem Tells.highest (h : Tells calls status) (hsaid : Carried calls 1) :
    Highest calls status := by
  intro n hn
  by_cases hinc : ∃ c ∈ calls, c.incomplete = true
  · rw [h.error hinc]
    obtain ⟨c, hc, hinc⟩ := hinc
    constructor
    · intro hle
      exact ⟨c, hc, Nat.le_trans hle (three_le_level.mpr hinc)⟩
    · intro ⟨d, hd, hle⟩
      exact hle.trans (level_le d.severity d.incomplete)
  · have hcomplete : ∀ c ∈ calls, c.incomplete = false := fun c hc =>
      Bool.eq_false_iff.mpr fun h => hinc ⟨c, hc, h⟩
    by_cases hfail : ∃ c ∈ calls, c.severity = .fail
    · rw [h.failed hcomplete hfail]
      obtain ⟨c, hc, hfail⟩ := hfail
      constructor
      · intro hle
        exact ⟨c, hc, Nat.le_trans hle (two_le_level.mpr (Or.inr hfail))⟩
      · intro ⟨d, hd, hle⟩
        exact hle.trans (level_le_two (hcomplete d hd))
    · have hlow : ∀ c ∈ calls, c.incomplete = false ∧ c.severity ≠ .fail := fun c hc =>
        ⟨hcomplete c hc, fun hf => hfail ⟨c, hc, hf⟩⟩
      obtain ⟨c, hc, hone⟩ := hsaid
      have hwarn : c.severity = .warn := by
        rcases one_le_level.mp hone with h | h | h
        · rw [hcomplete c hc] at h
          cases h
        · exact absurd h (hlow c hc).2
        · exact h
      rw [h.warn hlow ⟨c, hc, hwarn⟩]
      constructor
      · intro hle
        exact ⟨c, hc, Nat.le_trans hle hone⟩
      · intro ⟨d, hd, hle⟩
        exact hle.trans (level_le_one (hcomplete d hd) (hlow d hd).2)

/-- Calls that say nothing make no demand of a status. -/
theorem tells_of_quiet (h : ∀ c ∈ calls, c.level = 0) : Tells calls status := by
  have hnone : ∀ c ∈ calls, c.incomplete = false ∧ c.severity ≠ .fail ∧ c.severity ≠ .warn :=
    fun c hc => level_eq_zero.mp (h c hc)
  constructor
  · intro ⟨c, hc, hinc⟩
    rw [(hnone c hc).1] at hinc
    cases hinc
  · intro _ ⟨c, hc, hfail⟩
    exact absurd hfail (hnone c hc).2.1
  · intro _ ⟨c, hc, hwarn⟩
    exact absurd hwarn (hnone c hc).2.2
  · exact fun _ => hnone

theorem tells_iff : Tells calls status ↔ (∀ c ∈ calls, c.level = 0) ∨ Highest calls status := by
  constructor
  · intro h
    by_cases hsaid : Carried calls 1
    · exact Or.inr (h.highest hsaid)
    · apply Or.inl
      intro c hc
      by_contra hne
      exact hsaid ⟨c, hc, Nat.one_le_iff_ne_zero.mpr hne⟩
  · intro h
    rcases h with hquiet | hhighest
    · exact tells_of_quiet hquiet
    · exact hhighest.tells

/-! ## What a call does to the findings of a phase -/

section Calls

variable (fs : Findings) (phase : String) {n : Nat}

/-- A key keeps the phase in which it was first met. -/
theorem recorded_phase (c : AddCall) : (fs.recorded c).phase =
    ((fs.items.get? c.key).map Finding.phase).getD (c.phase.getD fs.currentPhase) := by
  unfold Findings.recorded
  cases fs.items.get? c.key with
  | none => simp [Finding.ofCall]
  | some e => simp

theorem le_level_recorded (c : AddCall) :
    n ≤ level (fs.recorded c).severity (fs.recorded c).incomplete ↔
      (∃ e, fs.items.get? c.key = some e ∧ n ≤ level e.severity e.incomplete) ∨
        n ≤ level c.severity c.incomplete := by
  have hrank := Findings.recorded_rank fs c
  have hinc := Findings.recorded_incomplete fs c
  cases hget : fs.items.get? c.key with
  | none =>
    rw [hget] at hrank hinc
    have hsev : (fs.recorded c).severity = c.severity := by
      apply Severity.rank_injective
      simpa using hrank
    rw [hsev, hinc]
    simp
  | some e =>
    rw [hget] at hrank hinc
    rw [hinc]
    simp only [Option.elim_some, Option.some.injEq, exists_eq_left']
    exact le_level_max n hrank

theorem shows_record (c : AddCall) : Shows (fs.record c).1.items phase n ↔
    Shows fs.items phase n ∨
      (fs.recorded c).phase = phase ∧ n ≤ level c.severity c.incomplete := by
  refine Findings.has_record ?_
  rw [le_level_recorded fs c, recorded_phase]
  cases fs.items.get? c.key with
  | none => simp
  | some e => simp [and_or_left]

theorem shows_raise (c : EscalateCall) : Shows (fs.raise c).items phase n ↔
    Shows fs.items phase n ∨
      ∃ f, fs.items.get? c.key = some f ∧ f.phase = phase ∧ n ≤ level c.severity false := by
  unfold Findings.raise
  cases hget : fs.items.get? c.key with
  | none => simp
  | some f =>
    simp only [Option.some.injEq, exists_eq_left']
    have hrank : (f.raise c).severity.rank = max f.severity.rank c.severity.rank :=
      Finding.raise_severity_rank f c
    have hlevel := le_level_max n hrank (i := f.incomplete) (j := false)
    rw [Bool.or_false] at hlevel
    by_cases hlt : f.severity.rank < c.severity.rank
    · simp only [hlt, if_true]
      unfold Shows
      rw [Items.has_put, Finding.raise_phase, Finding.raise_incomplete, hlevel, and_or_left]
      · constructor
        · intro h
          rcases h with h | h | h
          · exact Or.inl h
          · exact Or.inl ⟨c.key, f, hget, h⟩
          · exact Or.inr h
        · exact fun h => h.imp_right Or.inr
      · intro old hold hshows
        rw [Findings.raise_key_eq hget, hget] at hold
        obtain rfl := Option.some.inj hold
        rw [Finding.raise_phase, Finding.raise_incomplete, hlevel]
        exact ⟨hshows.1, Or.inl hshows.2⟩
    · simp only [hlt, if_false]
      constructor
      · exact Or.inl
      · intro h
        rcases h with h | ⟨hphase, hle⟩
        · exact h
        · have hthree := level_le c.severity false
          refine ⟨c.key, f, hget, hphase, hle.trans ?_⟩
          unfold level at hthree ⊢
          cases f.incomplete <;> simp at hthree ⊢ <;> omega

theorem currentPhase_apply (c : Call) : (c.apply fs).currentPhase = fs.currentPhase := by
  cases c with
  | add c => rfl
  | escalate c =>
    show (fs.raise c).currentPhase = _
    unfold Findings.raise
    split
    · rfl
    · split <;> rfl

/-- The findings of the phase that is current reach what they did, and what a call carries that
meets one of them. -/
theorem shows_apply (c : Call) :
    Shows (c.apply fs).items fs.currentPhase n ↔ Shows fs.items fs.currentPhase n ∨
      ∃ m ∈ (c.made fs).toList, m.own = true ∧ n ≤ m.level := by
  cases c with
  | add c =>
    refine (shows_record fs fs.currentPhase c).trans (or_congr_right ?_)
    simp [Call.made, Made.level]
  | escalate c =>
    refine (shows_raise fs fs.currentPhase c).trans (or_congr_right ?_)
    cases hget : fs.items.get? c.key with
    | none => simp [Call.made, hget]
    | some f => simp [Call.made, Made.level, hget]

theorem shows_byPhase : (∃ f ∈ fs.byPhase phase, n ≤ level f.severity f.incomplete) ↔
    Shows fs.items phase n := by
  unfold Shows Findings.byPhase
  rw [Items.has_iff_mem]
  simp only [List.mem_filter, Findings.mem_all, decide_eq_true_eq, and_assoc]

end Calls

/-! ## Every run -/

/-- The findings of the phase have reached what they had when it was made current, and what the
calls carried that met one of them. -/
structure Inv (w : World) : Prop where
  shows : ∀ n, 1 ≤ n → (Shows w.findings.items w.phase n ↔
    Shows w.began.items w.phase n ∨ ∃ c ∈ w.since, c.own = true ∧ n ≤ c.level)
  since : ∀ c ∈ w.since, c ∈ w.told w.phase

variable {w t : World} {e : Event}

theorem inv_fresh (fs : Findings) (told : String → List Made) :
    Inv { findings := fs, began := fs, since := [], told := told } where
  shows n _ := by simp [World.phase]
  since c hc := absurd hc List.not_mem_nil

theorem Inv.make (h : Inv w) (c : Call) : Inv (w.make c) := by
  have hphase : (w.make c).phase = w.phase := currentPhase_apply w.findings c
  constructor
  · intro n hn
    rw [hphase]
    show Shows (c.apply w.findings).items w.findings.currentPhase n ↔
      Shows w.began.items w.phase n ∨
        ∃ d ∈ w.since ++ (c.made w.findings).toList, d.own = true ∧ n ≤ d.level
    have hshows : Shows w.findings.items w.findings.currentPhase n ↔ _ := h.shows n hn
    rw [shows_apply w.findings c, hshows, or_assoc]
    apply or_congr_right
    simp only [List.mem_append, or_and_right, exists_or]
  · intro d hd
    rw [hphase]
    show d ∈ Function.update w.told w.phase _ w.phase
    rw [Function.update_self]
    rcases List.mem_append.mp hd with hd | hd
    · exact List.mem_append_left _ (h.since d hd)
    · exact List.mem_append_right _ hd

theorem Inv.step (h : Inv w) (ht : step w e = some t) : Inv t := by
  cases e with
  | enter name =>
    obtain rfl := Option.some.inj ht
    exact inv_fresh _ w.told
  | call c =>
    obtain rfl := Option.some.inj ht
    exact h.make c
  | returns =>
    obtain rfl := Option.some.inj ht
    exact h
  | restart findings =>
    obtain rfl := Option.some.inj ht
    exact inv_fresh findings w.told

theorem Inv.row_iff (h : Inv w) : Tells (w.told w.phase) w.row ↔
    (∀ c ∈ w.told w.phase, c.level = 0) ∨ Attributed w := by
  rw [tells_iff]
  apply or_congr_right
  have hrow : ∀ n, 1 ≤ n → (n ≤ statusLevel w.row ↔
      Shows w.began.items w.phase n ∨ ∃ c ∈ w.since, c.own = true ∧ n ≤ c.level) := by
    intro n hn
    exact (le_statusLevel _ hn).trans ((shows_byPhase w.findings w.phase).trans (h.shows n hn))
  constructor
  · intro hhighest
    constructor
    · intro n hn hcarried
      exact (hrow n hn).mp ((hhighest n hn).mpr hcarried)
    · intro n hn hshows
      exact (hhighest n hn).mp ((hrow n hn).mpr (Or.inl hshows))
  · intro hattr n hn
    rw [hrow n hn]
    constructor
    · intro hor
      rcases hor with hshows | ⟨c, hc, -, hle⟩
      · exact hattr.nothingElse n hn hshows
      · exact ⟨c, h.since c hc, hle⟩
    · exact hattr.reached n hn

/-- Along a run every row tells of the calls of its phase exactly when in every phase that
returns the calls say nothing, or what they say is attributed to it. -/
theorem rows_tell_iff (findings : Findings) (es : List Event) :
    Along step RowTells (opened findings) es ↔ Along step CallsAttributed (opened findings) es := by
  have hstart : Inv (opened findings) := inv_fresh findings _
  constructor
  · apply along_of_preserves (I := Inv)
    · exact fun w e t h _ ht => h.step ht
    · exact fun w e h htells he => h.row_iff.mp (htells he)
    · exact hstart
  · apply along_of_preserves (I := Inv)
    · exact fun w e t h _ ht => h.step ht
    · exact fun w e h hattr he => h.row_iff.mpr (hattr he)
    · exact hstart

def correctable (severity : Severity) : AddCall :=
  { key := "mce-corrected", severity := severity, component := "CPU/Memory",
    title := "Corrected machine check" }

/-- A finding that was first met in one phase fails in the next, whose row says that it is
done. -/
theorem failure_told_nowhere :
    ¬ ∀ (findings : Findings) (es : List Event), Along step RowTells (opened findings) es := by
  intro h
  have hrun := h Findings.new [.enter "cpu", .call (.add (correctable .warn)), .returns,
    .enter "memory", .call (.add (correctable .fail)), .returns]
  have htells := (((((hrun.2 _ rfl).2 _ rfl).2 _ rfl).2 _ rfl).2 _ rfl).1 rfl
  have hfailed := htells.failed (by decide +kernel) (by decide +kernel)
  exact absurd hfailed (by decide +kernel)

end PhaseRows
end PcCheck
