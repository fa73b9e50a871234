/-
Machines driven by events.

A machine is a partial step function `σ → ε → Option σ`.  An event carries every
choice the environment makes, and `none` says that the event is not enabled, so
a run is a list of events and everything quantified over runs is quantified over
lists.  `Along` states a condition on the events a run takes, each read in the
state it is taken from, and `run_preserves_along` is the invariant rule for the
runs that meet one.
-/
import Mathlib.Data.List.Infix

namespace EventMachine

variable {σ ε : Type*} {step : σ → ε → Option σ}

def run (step : σ → ε → Option σ) : σ → List ε → Option σ
  | s, [] => some s
  | s, e :: es => (step s e).bind fun t => run step t es

/-- Every event is taken from a state that admits it. -/
def Along (step : σ → ε → Option σ) (C : σ → ε → Prop) : σ → List ε → Prop
  | _, [] => True
  | s, e :: es => C s e ∧ ∀ t, step s e = some t → Along step C t es

@[simp] theorem run_nil (s : σ) : run step s [] = some s := rfl

theorem run_cons (s : σ) (e : ε) (es : List ε) :
    run step s (e :: es) = (step s e).bind fun t => run step t es := rfl

theorem run_cons_eq_some {s u : σ} {e : ε} {es : List ε} :
    run step s (e :: es) = some u ↔ ∃ t, step s e = some t ∧ run step t es = some u :=
  Option.bind_eq_some_iff

theorem run_append (s : σ) (es fs : List ε) :
    run step s (es ++ fs) = (run step s es).bind fun t => run step t fs := by
  induction es generalizing s with
  | nil => rfl
  | cons e es ih =>
    rw [List.cons_append, run_cons, run_cons, Option.bind_assoc]
    congr 1
    funext t
    exact ih t

theorem run_append_eq_some {s u : σ} {es fs : List ε} :
    run step s (es ++ fs) = some u ↔ ∃ t, run step s es = some t ∧ run step t fs = some u := by
  rw [run_append, Option.bind_eq_some_iff]

theorem run_concat_eq_some {s u : σ} {es : List ε} {e : ε} :
    run step s (es ++ [e]) = some u ↔ ∃ t, run step s es = some t ∧ step t e = some u := by
  rw [run_append_eq_some]
  constructor
  · intro hex
    obtain ⟨t, ht, hu⟩ := hex
    obtain ⟨v, hv, hvu⟩ := run_cons_eq_some.mp hu
    exact ⟨t, ht, by rw [hv]; simpa using hvu⟩
  · intro hex
    obtain ⟨t, ht, hu⟩ := hex
    exact ⟨t, ht, run_cons_eq_some.mpr ⟨u, hu, rfl⟩⟩

/-- The invariant rule for the runs whose events all meet a condition. -/
theorem run_preserves_along {I : σ → Prop} {C : σ → ε → Prop}
    (hstep : ∀ s e t, I s → C s e → step s e = some t → I t)
    {s u : σ} {es : List ε} (hs : I s) (hC : Along step C s es)
    (hrun : run step s es = some u) : I u := by
  induction es generalizing s with
  | nil =>
    obtain rfl : s = u := Option.some.inj hrun
    exact hs
  | cons e es ih =>
    obtain ⟨t, ht, hu⟩ := run_cons_eq_some.mp hrun
    exact ih (hstep s e t hs hC.1 ht) (hC.2 t ht) hu

@[simp] theorem along_nil (C : σ → ε → Prop) (s : σ) : Along step C s [] := trivial

theorem along_mono {C D : σ → ε → Prop} (h : ∀ s e, C s e → D s e) {s : σ} {es : List ε}
    (hC : Along step C s es) : Along step D s es := by
  induction es generalizing s with
  | nil => trivial
  | cons e es ih => exact ⟨h s e hC.1, fun t ht => ih (hC.2 t ht)⟩

/-- What an invariant and the condition give of one event holds of every event of a run. -/
theorem along_of_preserves {I : σ → Prop} {C P : σ → ε → Prop}
    (hstep : ∀ s e t, I s → C s e → step s e = some t → I t)
    (hprop : ∀ s e, I s → C s e → P s e) {s : σ} {es : List ε} (hs : I s)
    (hC : Along step C s es) : Along step P s es := by
  induction es generalizing s with
  | nil => trivial
  | cons e es ih =>
    exact ⟨hprop s e hs hC.1, fun t ht => ih (hstep s e t hs hC.1 ht) (hC.2 t ht)⟩

theorem along_of_forall {C : σ → ε → Prop} {s : σ} {es : List ε} (h : ∀ e ∈ es, ∀ t, C t e) :
    Along step C s es := by
  induction es generalizing s with
  | nil => trivial
  | cons e es ih =>
    exact ⟨h e List.mem_cons_self s, fun _ _ => ih fun f hf => h f (List.mem_cons_of_mem e hf)⟩

theorem along_append {C : σ → ε → Prop} {s : σ} {es fs : List ε} (hes : Along step C s es)
    (hfs : ∀ t, run step s es = some t → Along step C t fs) : Along step C s (es ++ fs) := by
  induction es generalizing s with
  | nil => exact hfs s rfl
  | cons e es ih =>
    refine ⟨hes.1, fun t ht => ih (hes.2 t ht) fun u hu => hfs u ?_⟩
    exact run_cons_eq_some.mpr ⟨t, ht, hu⟩

theorem along_right {C : σ → ε → Prop} {s t : σ} {es fs : List ε}
    (h : Along step C s (es ++ fs)) (ht : run step s es = some t) : Along step C t fs := by
  induction es generalizing s with
  | nil =>
    obtain rfl : s = t := Option.some.inj ht
    exact h
  | cons e es ih =>
    obtain ⟨u, hu, hrest⟩ := run_cons_eq_some.mp ht
    exact ih (h.2 u hu) hrest

/-- A run that leaves its condition does so at a first event. -/
theorem exists_first_violation {C : σ → ε → Prop} {s u : σ} {es : List ε}
    (hC : ¬ Along step C s es) (hrun : run step s es = some u) :
    ∃ pre e post t, es = pre ++ e :: post ∧ Along step C s pre ∧
      run step s pre = some t ∧ ¬ C t e := by
  induction es generalizing s with
  | nil => exact absurd trivial hC
  | cons e es ih =>
    by_cases hCe : C s e
    · obtain ⟨t, ht, hu⟩ := run_cons_eq_some.mp hrun
      have hrest : ¬ Along step C t es := by
        intro hall
        refine hC ⟨hCe, fun t' ht' => ?_⟩
        obtain rfl : t = t' := Option.some.inj (ht.symm.trans ht')
        exact hall
      obtain ⟨pre, f, post, v, rfl, hpre, hv, hf⟩ := ih hrest hu
      refine ⟨e :: pre, f, post, v, rfl, ⟨hCe, fun t' ht' => ?_⟩, ?_, hf⟩
      · obtain rfl : t = t' := Option.some.inj (ht.symm.trans ht')
        exact hpre
      · exact run_cons_eq_some.mpr ⟨t, ht, hv⟩
    · exact ⟨[], e, es, s, rfl, trivial, rfl, hCe⟩

/-- `P` holds in the state reached by every prefix of the run. -/
def Always (step : σ → ε → Option σ) (P : σ → Prop) (s : σ) (es : List ε) : Prop :=
  ∀ pre, pre <+: es → ∀ t, run step s pre = some t → P t

theorem along_initial {C : σ → ε → Prop} {s : σ} {pre es : List ε} (h : pre <+: es)
    (hC : Along step C s es) : Along step C s pre := by
  induction pre generalizing s es with
  | nil => trivial
  | cons e pre ih =>
    obtain ⟨post, rfl⟩ := h
    exact ⟨hC.1, fun t ht => ih (List.prefix_append pre post) (hC.2 t ht)⟩

/-- An invariant of the runs that meet a condition holds all along them. -/
theorem always_of_along {I : σ → Prop} {C : σ → ε → Prop}
    (hstep : ∀ s e t, I s → C s e → step s e = some t → I t)
    {s : σ} {es : List ε} (hs : I s) (hC : Along step C s es) : Always step I s es :=
  fun _ hpre _ ht => run_preserves_along hstep hs (along_initial hpre hC) ht

theorem always_cons {P : σ → Prop} {s t : σ} {e : ε} {es : List ε} (ht : step s e = some t) :
    Always step P s (e :: es) ↔ P s ∧ Always step P t es := by
  constructor
  · intro h
    refine ⟨h [] List.nil_prefix s rfl, fun pre hpre u hu => ?_⟩
    exact h (e :: pre) (List.cons_prefix_cons.mpr ⟨rfl, hpre⟩) u
      (run_cons_eq_some.mpr ⟨t, ht, hu⟩)
  · intro h pre hpre u hu
    cases pre with
    | nil =>
      obtain rfl : s = u := Option.some.inj hu
      exact h.1
    | cons f pre =>
      obtain ⟨rfl, hrest⟩ := List.cons_prefix_cons.mp hpre
      obtain ⟨t', ht', hu'⟩ := run_cons_eq_some.mp hu
      obtain rfl : t = t' := Option.some.inj (ht.symm.trans ht')
      exact h.2 pre hrest u hu'

/-- A property that an invariant gives holds all along a run exactly when every event of the
run meets a condition: the events that meet it keep the invariant, and one that does not
loses the property.  The events may be promised something else. -/
theorem always_iff_along_of {I P : σ → Prop} {C D : σ → ε → Prop} (hprop : ∀ s, I s → P s)
    (hkeep : ∀ s e t, I s → D s e → C s e → step s e = some t → I t)
    (hneed : ∀ s e t, I s → D s e → step s e = some t → P t → C s e) {s u : σ} {es : List ε}
    (hs : I s) (hD : Along step D s es) (hrun : run step s es = some u) :
    Always step P s es ↔ Along step C s es := by
  induction es generalizing s with
  | nil =>
    refine ⟨fun _ => trivial, fun _ pre hpre t ht => ?_⟩
    obtain rfl := List.prefix_nil.mp hpre
    obtain rfl : s = t := Option.some.inj ht
    exact hprop s hs
  | cons e es ih =>
    obtain ⟨t, ht, hu⟩ := run_cons_eq_some.mp hrun
    rw [always_cons ht]
    constructor
    · intro h
      have hC : C s e := hneed s e t hs hD.1 ht (h.2 [] List.nil_prefix t rfl)
      refine ⟨hC, fun t' ht' => ?_⟩
      obtain rfl : t = t' := Option.some.inj (ht.symm.trans ht')
      exact (ih (hkeep s e t hs hD.1 hC ht) (hD.2 t ht) hu).mp h.2
    · intro h
      have hI : I t := hkeep s e t hs hD.1 h.1 ht
      exact ⟨hprop s hs, (ih hI (hD.2 t ht) hu).mpr (h.2 t ht)⟩

/-- A property that one event keeps exactly when it meets a condition holds all along a run
exactly when every event of the run meets it. -/
theorem always_iff_along {P : σ → Prop} {C : σ → ε → Prop}
    (hstep : ∀ s e t, P s → step s e = some t → (P t ↔ C s e)) {s u : σ} {es : List ε} (hs : P s)
    (hrun : run step s es = some u) : Always step P s es ↔ Along step C s es :=
  always_iff_along_of (D := fun _ _ => True) (fun _ hP => hP)
    (fun s e t hP _ hC ht => (hstep s e t hP ht).mpr hC)
    (fun s e t hP _ ht hPt => (hstep s e t hP ht).mp hPt) hs
    (along_of_forall fun _ _ _ => trivial) hrun

/-- What the events of a run add up to, each read in the state it is taken from. -/
def total (step : σ → ε → Option σ) (f : σ → ε → Nat) : σ → List ε → Nat
  | _, [] => 0
  | s, e :: es => f s e + ((step s e).map fun t => total step f t es).getD 0

/-- A total is what a measure of the state gains. -/
theorem measure_eq_total {f : σ → ε → Nat} {g : σ → Nat} {D : σ → ε → Prop}
    (hstep : ∀ s e t, D s e → step s e = some t → g t = g s + f s e) {s u : σ} {es : List ε}
    (hD : Along step D s es) (hrun : run step s es = some u) :
    g u = g s + total step f s es := by
  induction es generalizing s with
  | nil =>
    obtain rfl : s = u := Option.some.inj hrun
    rfl
  | cons e es ih =>
    obtain ⟨t, ht, hu⟩ := run_cons_eq_some.mp hrun
    rw [ih (hD.2 t ht) hu, hstep s e t hD.1 ht, total, ht]
    exact Nat.add_assoc ..

end EventMachine
