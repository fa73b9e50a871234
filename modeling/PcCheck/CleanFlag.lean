/-
The dirty flag of the findings store (`Findings.add`, `escalate` and `flush`).

`flush` clears the flag and counts the sequence number on before it writes, and a write that
fails is only logged.  The calls here come from one thread, and each that writes says whether
its write succeeds.  What a reload is to give back of a finding are its facts: the key, the
severity, the count, whether it is incomplete, and the evidence.
-/
import PcCheck.Store
import PcCheck.Lib.EventMachine

namespace PcCheck

def Finding.facts (f : Finding) : String × Severity × Int × Bool × List String :=
  (f.key, f.severity, f.count, f.incomplete, f.evidence)

/-- The same keys, with the same facts. -/
def Items.SameFacts (t u : Items) : Prop :=
  ∀ k, (t.get? k).map Finding.facts = (u.get? k).map Finding.facts

namespace CleanFlag

open EventMachine

inductive Event where
  | add (c : AddCall) (ok : Bool)
  | escalate (c : EscalateCall) (ok : Bool)
  | flush (force ok : Bool)

namespace Event

/-- The write of the call succeeds, if it comes to one. -/
def ok : Event → Bool
  | add _ ok => ok
  | escalate _ ok => ok
  | flush _ ok => ok

def apply (s : Store) : Event → Store
  | add c ok => s.add c ok
  | escalate c ok => s.escalate c ok
  | flush force ok => s.flush force ok

/-- The store when the call comes to its flush. -/
def changed (s : Store) : Event → Store
  | add c _ => { s with mem := (s.mem.record c).1 }
  | escalate c _ => { s with mem := s.mem.raise c }
  | flush _ _ => s

/-- Whether the call flushes, and by force. -/
def flushes (s : Store) : Event → Option Bool
  | add c _ => if (s.mem.record c).2 then some false else none
  | escalate _ _ => some false
  | flush force _ => some force

/-- The call comes to a write. -/
def attempts (s : Store) (e : Event) : Bool :=
  (e.flushes s).any fun force => ((e.changed s).mem.snapshot force).2.isSome

end Event

structure World where
  store : Store
  /-- Some flush has come to its write. -/
  attempted : Bool := false

def step (w : World) (e : Event) : Option World :=
  some { store := e.apply w.store, attempted := w.attempted || e.attempts w.store }

/-- `Findings(path)` over the files of the session. -/
def opened (path : String) (files : RotatingFiles FindingsDoc) : World :=
  { store := Store.load path files }

/-- A reload gives the facts of the store. -/
def Saved (s : Store) : Prop := (Store.filed s.files).SameFacts s.mem.items

/-- A clean flag means a saved store, and the next flush saves what is not. -/
def CleanMeansSaved (w : World) : Prop :=
  (w.store.mem.dirty = false → w.attempted = true → Saved w.store) ∧
    Saved (w.store.flush false true)

/-- The call does not fail to write a fact that is not on file. -/
def LosesNothing (w : World) (e : Event) : Prop :=
  e.attempts w.store = true → e.ok = false →
    (Store.filed w.store.files).SameFacts (e.changed w.store).mem.items

/-! ## One call -/

theorem apply_eq (s : Store) (e : Event) :
    e.apply s = (e.flushes s).elim (e.changed s) fun force => (e.changed s).flush force e.ok := by
  cases e with
  | add c ok =>
    unfold Event.apply Event.flushes Store.add
    dsimp only
    split <;> rfl
  | escalate c ok => rfl
  | flush force ok => rfl

theorem apply_of_flushes {s : Store} {e : Event} {force : Bool} (h : e.flushes s = some force) :
    e.apply s = (e.changed s).flush force e.ok := by
  rw [apply_eq, h]
  rfl

theorem apply_of_no_flush {s : Store} {e : Event} (h : e.flushes s = none) :
    e.apply s = e.changed s := by
  rw [apply_eq, h]
  rfl

/-- Only a flush writes. -/
theorem files_changed (s : Store) (e : Event) : (e.changed s).files = s.files := by
  cases e <;> rfl

theorem numbered_changed {s : Store} (h : s.Numbered) (e : Event) : (e.changed s).Numbered := by
  cases e with
  | add c ok => exact ⟨h.path, h.seq, h.fresh⟩
  | escalate c ok =>
    obtain ⟨hpath, hseq⟩ := Store.raise_frame s.mem c
    refine ⟨?_, ?_, ?_⟩
    · exact (congrArg Option.isSome hpath).trans h.path
    · exact h.seq.trans hseq.ge
    · show Register.Below s.files ((s.mem.raise c).seq + 1)
      rw [hseq]
      exact h.fresh
  | flush force ok => exact h

/-- A call that finds nothing to change leaves a clean store as it was. -/
theorem items_of_clean {s : Store} {e : Event} (h : (e.changed s).mem.dirty = false) :
    (e.changed s).mem.items = s.mem.items ∧ s.mem.dirty = false := by
  cases e with
  | add c ok => cases h
  | escalate c ok =>
    show (s.mem.raise c).items = s.mem.items ∧ _
    have hdirty : (s.mem.raise c).dirty = false := h
    unfold Findings.raise at hdirty ⊢
    cases hget : s.mem.items.get? c.key with
    | none =>
      simp only [hget] at hdirty
      exact ⟨rfl, hdirty⟩
    | some f =>
      simp only [hget] at hdirty
      by_cases hlt : f.severity.rank < c.severity.rank
      · rw [if_pos hlt] at hdirty
        cases hdirty
      · rw [if_neg hlt] at hdirty
        simp only [hlt, if_false]
        exact ⟨trivial, hdirty⟩
  | flush force ok => exact ⟨rfl, h⟩

theorem dirty_of_no_flush {s : Store} {e : Event} (h : e.flushes s = none) :
    (e.changed s).mem.dirty = true := by
  cases e with
  | add c ok => rfl
  | escalate c ok => cases h
  | flush force ok => cases h

/-- A flush either has nothing to do, with a clean flag, or comes to its write. -/
theorem flush_cases {s : Store} (h : s.Numbered) (force ok : Bool) :
    ((s.mem.snapshot force).2 = none ∧ s.flush force ok = s ∧ s.mem.dirty = false) ∨
      ((s.mem.snapshot force).2.isSome = true ∧ (s.flush force ok).mem.dirty = false ∧
        (s.flush force ok).mem.items = s.mem.items ∧
        Store.filed (s.flush force ok).files =
          if ok then s.mem.items else Store.filed s.files) := by
  by_cases hwork : s.mem.dirty = true ∨ force = true
  · refine Or.inr ⟨?_, ?_, Store.flush_items s force ok, ?_⟩
    · rw [Findings.snapshot_of_path h.path hwork]
      rfl
    · rw [Store.flush_of_path h.path hwork]
    · rw [Store.flush_of_path h.path hwork]
      cases ok with
      | true => exact Store.filed_write h
      | false => rfl
  · have hsnap : s.mem.snapshot force = (s.mem, none) := if_pos (Or.inr hwork)
    rw [not_or, Bool.not_eq_true] at hwork
    refine Or.inl ⟨by rw [hsnap], ?_, hwork.1⟩
    unfold Store.flush
    rw [hsnap]

/-! ## Every sequence of calls -/

/-- A clean store is on file. -/
structure Inv (w : World) : Prop where
  numbered : w.store.Numbered
  saved : w.store.mem.dirty = false → Saved w.store

theorem Inv.cleanMeansSaved {w : World} (h : Inv w) : CleanMeansSaved w := by
  refine ⟨fun hclean _ => h.saved hclean, ?_⟩
  rcases flush_cases h.numbered false true with ⟨-, hsame, hclean⟩ | ⟨-, -, hitems, hfiled⟩
  · rw [hsame]
    exact h.saved hclean
  · rw [if_pos rfl] at hfiled
    intro k
    rw [hfiled, hitems]

variable {w t : World} {e : Event}

theorem Inv.step (h : Inv w) (hC : LosesNothing w e) (ht : step w e = some t) : Inv t := by
  obtain rfl := Option.some.inj ht
  have hnum := numbered_changed h.numbered e
  cases hflush : e.flushes w.store with
  | none =>
    have happly := apply_of_no_flush hflush
    refine ⟨happly ▸ hnum, fun hclean => ?_⟩
    have hdirty := dirty_of_no_flush hflush
    rw [show (e.apply w.store) = e.changed w.store from happly, hdirty] at hclean
    cases hclean
  | some force =>
    have happly := apply_of_flushes hflush
    refine ⟨happly ▸ hnum.flush force e.ok, fun hclean => ?_⟩
    show Saved (e.apply w.store)
    rw [happly] at hclean ⊢
    rcases flush_cases hnum force e.ok with ⟨-, hsame, hdirty⟩ | ⟨hwrites, -, hitems, hfiled⟩
    · obtain ⟨hitems, hold⟩ := items_of_clean hdirty
      rw [hsame]
      intro k
      rw [hitems, files_changed]
      exact h.saved hold k
    · intro k
      rw [hitems, hfiled]
      cases hok : e.ok with
      | true => rfl
      | false =>
        have hattempts : e.attempts w.store = true := by
          unfold Event.attempts
          rw [hflush]
          exact hwrites
        rw [if_neg Bool.false_ne_true, files_changed]
        exact hC hattempts hok k

/-- A write that fails leaves the flag clean, so that what it was to save must be on file. -/
theorem losesNothing_of_clean (h : Inv w) (ht : step w e = some t) (hclean : CleanMeansSaved t) :
    LosesNothing w e := by
  obtain rfl := Option.some.inj ht
  intro hattempts hok
  have hattempted : (w.attempted || e.attempts w.store) = true := by
    rw [hattempts, Bool.or_true]
  unfold Event.attempts at hattempts
  cases hflush : e.flushes w.store with
  | none =>
    rw [hflush] at hattempts
    cases hattempts
  | some force =>
    rw [hflush] at hattempts
    have happly := apply_of_flushes hflush
    rcases flush_cases (numbered_changed h.numbered e) force e.ok with
      ⟨hnone, -⟩ | ⟨-, hdirty, hitems, hfiled⟩
    · have hwrites : ((e.changed w.store).mem.snapshot force).2.isSome = true := hattempts
      rw [hnone] at hwrites
      cases hwrites
    · have hsaved := hclean.1 (by
        show (e.apply w.store).mem.dirty = false
        rw [happly]
        exact hdirty) hattempted
      intro k
      have hk := hsaved k
      show _ = ((e.changed w.store).mem.items.get? k).map _
      rw [show (e.apply w.store) = _ from happly, hitems, hfiled, hok,
        if_neg Bool.false_ne_true, files_changed] at hk
      exact hk

theorem run_total (w : World) (es : List Event) : ∃ t, run step w es = some t := by
  induction es generalizing w with
  | nil => exact ⟨w, rfl⟩
  | cons e es ih =>
    obtain ⟨t, ht⟩ := ih
      { store := e.apply w.store, attempted := w.attempted || e.attempts w.store }
    exact ⟨t, run_cons_eq_some.mpr ⟨_, rfl, ht⟩⟩

/-- A clean flag means a saved store all along a sequence of calls exactly when no call fails
to write a fact that is not on file. -/
theorem clean_means_saved_iff (path : String) (files : RotatingFiles FindingsDoc)
    (es : List Event) :
    Always step CleanMeansSaved (opened path files) es ↔
      Along step LosesNothing (opened path files) es := by
  obtain ⟨t, ht⟩ := run_total (opened path files) es
  have hstart : Inv (opened path files) :=
    ⟨(Store.Sound.load path files).toNumbered, fun _ _ => rfl⟩
  have hprop : ∀ w, Inv w → CleanMeansSaved w := fun _ h => h.cleanMeansSaved
  have hkeep : ∀ w e t, Inv w → True → LosesNothing w e → step w e = some t → Inv t :=
    fun _ _ _ h _ hC ht => h.step hC ht
  have hneed : ∀ w e t, Inv w → True → step w e = some t → CleanMeansSaved t → LosesNothing w e :=
    fun _ _ _ h _ ht hP => losesNothing_of_clean h ht hP
  exact always_iff_along_of hprop hkeep hneed hstart (along_of_forall fun _ _ _ => trivial) ht

def failure : AddCall :=
  { key := "mce-fatal", severity := .fail, component := "CPU/Memory", title := "Fatal" }

/-- The write of a failure fails: the flag is clean, and nothing is on file. -/
theorem clean_and_unsaved :
    ¬ ∀ (path : String) (files : RotatingFiles FindingsDoc) (es : List Event),
      Always step CleanMeansSaved (opened path files) es := by
  intro h
  have hclean := h "findings.json" RotatingFiles.empty [.add failure false] _ List.prefix_rfl _ rfl
  have hfacts := hclean.1 (by decide +kernel) (by decide +kernel) "mce-fatal"
  exact absurd hfacts (by decide +kernel)

end CleanFlag
end PcCheck
