/-
Scripts on a machine.

A machine has a state that every call and its answer change, and it does not give every answer:
a clock never goes back.  A triple says of a script that from every state in `P` each call is
made where the machine allows it, and that it ends as `Q` says.  The rules follow the script, and
`triple_sound` is what a triple says of a run.
-/
import PcCheck.Lib.Script

namespace Script

variable {ω : Type} {Ans : ω → Type} {σ α β : Type}

structure Machine (Ans : ω → Type) (σ : Type) where
  next : σ → (op : ω) → Ans op → σ
  /-- The answers that the machine can give. -/
  Gives : σ → (op : ω) → Ans op → Prop
  /-- The calls that are to be made. -/
  Allows : σ → ω → Prop

namespace Machine

def after (m : Machine Ans σ) : σ → Trace Ans → σ
  | w, [] => w
  | w, e :: t => m.after (m.next w e.1 e.2) t

/-- The machine can give all these answers, one after the other. -/
def Given (m : Machine Ans σ) : σ → Trace Ans → Prop
  | _, [] => True
  | w, e :: t => m.Gives w e.1 e.2 ∧ m.Given (m.next w e.1 e.2) t

variable {m : Machine Ans σ}

theorem after_append (w : σ) (t t' : Trace Ans) :
    m.after w (t ++ t') = m.after (m.after w t) t' := by
  induction t generalizing w with
  | nil => rfl
  | cons e t ih => exact ih _

theorem given_append {w : σ} {t t' : Trace Ans} :
    m.Given w (t ++ t') ↔ m.Given w t ∧ m.Given (m.after w t) t' := by
  induction t generalizing w with
  | nil => exact (and_iff_right trivial).symm
  | cons e t ih =>
    show _ ∧ m.Given _ (t ++ t') ↔ (_ ∧ m.Given _ t) ∧ _
    rw [ih, and_assoc]
    rfl

end Machine

/-- How a script is to end: with which value in which state, by an exception, or not yet. -/
structure Post (σ α : Type) where
  value : α → σ → Prop
  raised : σ → Prop
  cut : σ → Prop

def Post.Holds (Q : Post σ α) : Outcome α → σ → Prop
  | .value a => Q.value a
  | .raised => Q.raised
  | .cut => Q.cut

def Triple (m : Machine Ans σ) (P : σ → Prop) (s : Script Ans α) (Q : Post σ α) : Prop :=
  ∀ w, P w → s.wp (fun t op => m.Given w t → m.Allows (m.after w t) op)
    fun t r => m.Given w t → Q.Holds r (m.after w t)

variable {m : Machine Ans σ} {P P' : σ → Prop} {Q Q' : Post σ α} {s t : Script Ans α}

/-- What a triple says of a run that the machine answers. -/
theorem triple_sound (h : Triple m P s Q) {w : σ} (hw : P w) (env : Env Ans)
    (hgiven : m.Given w (s.exec env).1) :
    Q.Holds (s.exec env).2 (m.after w (s.exec env).1) ∧
      ∀ pre e post, (s.exec env).1 = pre ++ e :: post → m.Allows (m.after w pre) e.1 := by
  obtain ⟨hend, hcalls⟩ := wp_sound (h w hw) env
  refine ⟨hend hgiven, fun pre e post htrace => hcalls pre e post htrace ?_⟩
  rw [htrace] at hgiven
  exact (Machine.given_append.mp hgiven).1

theorem triple_pure {a : α} (h : ∀ w, P w → Q.value a w) : Triple m P (pure a) Q :=
  fun w hw => wp_pure.mpr fun _ => h w hw

theorem triple_raise (h : ∀ w, P w → Q.raised w) : Triple m P (raise : Script Ans α) Q :=
  fun w hw => wp_raise.mpr fun _ => h w hw

theorem triple_cut (h : ∀ w, P w → Q.cut w) : Triple m P (cut : Script Ans α) Q :=
  fun w hw => wp_cut.mpr fun _ => h w hw

theorem triple_perform {op : ω} {Q : Post σ (Ans op)} (hop : ∀ w, P w → m.Allows w op)
    (h : ∀ w a, P w → m.Gives w op a → Q.value a (m.next w op a)) :
    Triple m P (perform op) Q :=
  fun w hw => wp_perform.mpr ⟨fun _ => hop w hw, fun a hgiven => h w a hw hgiven.1⟩

theorem triple_mono (h : Triple m P s Q) (hP : ∀ w, P' w → P w)
    (hvalue : ∀ a w, Q.value a w → Q'.value a w) (hraised : ∀ w, Q.raised w → Q'.raised w)
    (hcut : ∀ w, Q.cut w → Q'.cut w) : Triple m P' s Q' := by
  refine fun w hw => wp_mono (h w (hP w hw)) (fun _ _ => id) fun t r hr hgiven => ?_
  cases r with
  | value a => exact hvalue a _ (hr hgiven)
  | raised => exact hraised _ (hr hgiven)
  | cut => exact hcut _ (hr hgiven)

theorem triple_pre (h : Triple m P s Q) (hP : ∀ w, P' w → P w) : Triple m P' s Q :=
  triple_mono h hP (fun _ _ => id) (fun _ => id) fun _ => id

/-- A state is taken as it is found. -/
theorem triple_at (h : ∀ w, P w → Triple m (· = w) s Q) : Triple m P s Q :=
  fun w hw => h w hw w rfl

/-- What cannot be begun. -/
theorem triple_false : Triple m (fun _ => False) s Q := fun _ hw => hw.elim

/-- The part of a script that comes after calls the machine has answered. -/
theorem wp_after {w : σ} {t : Trace Ans} (h : m.Given w t →
      s.wp (fun t' op => m.Given (m.after w t) t' → m.Allows (m.after (m.after w t) t') op)
        fun t' r => m.Given (m.after w t) t' → Q.Holds r (m.after (m.after w t) t')) :
    s.wp (fun t' op => m.Given w (t ++ t') → m.Allows (m.after w (t ++ t')) op)
      fun t' r => m.Given w (t ++ t') → Q.Holds r (m.after w (t ++ t')) := by
  by_cases hgiven : m.Given w t
  · refine wp_mono (h hgiven) (fun t' op hop hall => ?_) fun t' r hr hall => ?_
    · rw [Machine.after_append]
      exact hop (Machine.given_append.mp hall).2
    · rw [Machine.after_append]
      exact hr (Machine.given_append.mp hall).2
  · exact wp_mono wp_true (fun _ _ _ hall => absurd (Machine.given_append.mp hall).1 hgiven)
      fun _ _ _ hall => absurd (Machine.given_append.mp hall).1 hgiven

theorem triple_bind {R : α → σ → Prop} {f : α → Script Ans β} {Q : Post σ β}
    (hs : Triple m P s ⟨R, Q.raised, Q.cut⟩) (hf : ∀ a, Triple m (R a) (f a) Q) :
    Triple m P (s >>= f) Q := by
  refine fun w hw => wp_bind.mpr (wp_mono (hs w hw) (fun _ _ => id) fun t r hr => ?_)
  cases r with
  | value a => exact wp_after fun hgiven => hf a _ (hr hgiven)
  | raised => exact hr
  | cut => exact hr

theorem triple_attempt {Q : Post σ (Option α)}
    (hs : Triple m P s ⟨fun a => Q.value (some a), Q.value none, Q.cut⟩) :
    Triple m P s.attempt Q := by
  refine fun w hw => wp_attempt.mpr (wp_mono (hs w hw) (fun _ _ => id) fun t r hr => ?_)
  cases r with
  | value a => exact hr
  | raised => exact hr
  | cut => exact hr

/-- What holds where the body of a `tryFinally` has ended, in either way. -/
def ended (R : α → σ → Prop) (E : σ → Prop) : Option α → σ → Prop
  | some a => R a
  | none => E

theorem triple_finally {R : α → σ → Prop} {E : σ → Prop} {fin : Script Ans Unit}
    (hs : Triple m P s ⟨R, E, Q.cut⟩)
    (hvalue : ∀ a, Triple m (R a) fin ⟨fun _ => Q.value a, Q.raised, Q.cut⟩)
    (hraised : Triple m E fin ⟨fun _ => Q.raised, Q.raised, Q.cut⟩) :
    Triple m P (s.tryFinally fin) Q := by
  refine triple_bind (R := ended R E) (triple_attempt hs) fun r => ?_
  cases r with
  | some a => exact triple_bind (hvalue a) fun _ => triple_pure fun _ => id
  | none => exact triple_bind hraised fun _ => triple_raise fun _ => id

theorem triple_ite {c : Prop} [Decidable c] (hs : c → Triple m P s Q)
    (ht : ¬ c → Triple m P t Q) : Triple m P (if c then s else t) Q :=
  fun w hw => wp_ite (fun hc => hs hc w hw) fun hc => ht hc w hw

/-- Calls that the machine always allows, and that change its state for no assertion that is made
of it. -/
structure Machine.Keeps (m : Machine Ans σ) (P : σ → Prop) (op : ω) : Prop where
  allows : ∀ w, P w → m.Allows w op
  next : ∀ w a, P w → m.Gives w op a → P (m.next w op a)

/-- What a script of such calls keeps. -/
def Post.keeps (P : σ → Prop) (raises : Bool) : Post σ α where
  value _ := P
  raised w := raises = true ∧ P w
  cut _ := False

theorem after_of_keeps {t : Trace Ans} {w : σ} (hw : P w) (hall : ∀ e ∈ t, m.Keeps P e.1)
    (hgiven : m.Given w t) : P (m.after w t) := by
  induction t generalizing w with
  | nil => exact hw
  | cons e t ih =>
    have hforall := List.forall_mem_cons.mp hall
    exact ih (hforall.1.next w e.2 hw hgiven.1) hforall.2 hgiven.2

theorem triple_of_calls {b : Bool} (hs : s.Calls (m.Keeps P) b) :
    Triple m P s (Post.keeps P b) := by
  refine fun w hw => wp_mono (wp_history hs.wp) (fun t op h hgiven => ?_) fun t r h hgiven => ?_
  · exact h.1.allows _ (after_of_keeps hw h.2 hgiven)
  · cases r with
    | value a => exact after_of_keeps hw h.2 hgiven
    | raised => exact ⟨h.1, after_of_keeps hw h.2 hgiven⟩
    | cut => exact h.1

/-- The same of a script that may be cut off. -/
theorem triple_of_only (hs : s.Only (m.Keeps P)) : Triple m P s ⟨fun _ => P, P, P⟩ := by
  refine fun w hw => wp_mono (wp_history hs.wp) (fun t op h hgiven => ?_) fun t r h hgiven => ?_
  · exact h.1.allows _ (after_of_keeps hw h.2 hgiven)
  · cases r <;> exact after_of_keeps hw h.2 hgiven

/-- The rule for a part of a script that keeps what holds. -/
theorem triple_keeps_bind {b : Bool} {f : α → Script Ans β} {Q : Post σ β}
    (hs : s.Calls (m.Keeps P) b) (hf : ∀ a, Triple m P (f a) Q)
    (hraised : b = true → ∀ w, P w → Q.raised w) : Triple m P (s >>= f) Q := by
  refine triple_bind (R := fun _ => P) (triple_mono (triple_of_calls hs) (fun _ => id)
    (fun _ _ => id) (fun w hw => ?_) fun w hw => hw.elim) hf
  exact hraised hw.1 w hw.2

/-- The environment that answers from the state. -/
def Machine.answers (m : Machine Ans σ) (reply : σ → (op : ω) → Ans op) (w : σ) : Env Ans :=
  fun t op => reply (m.after w t) op

/-- A reply that the machine can give at every state is one it gives in every run. -/
theorem given_answers {reply : σ → (op : ω) → Ans op} (h : ∀ w op, m.Gives w op (reply w op))
    (s : Script Ans α) (w : σ) : m.Given w (s.exec (m.answers reply w)).1 := by
  induction s generalizing w with
  | done a => trivial
  | raise => trivial
  | cut => trivial
  | call op next ih => exact ⟨h w op, ih _ _⟩

end Script
