/-
Programs that call out.

A script calls operations and does not choose their answers: the commands it runs, the files it
reads.  It ends with a value or with an exception; a loop that is followed for a number of turns
only may be cut off before that.  `exec` runs a script against an environment whose answers may
depend on everything that was called before, so what holds for every environment holds whatever
the machine does.

`wp` is the rule of verification: before each call a condition on the call and the calls before
it must hold, and at the end a condition on all the calls and the value.  `wp_sound` is what it
says of a run.
-/
import Mathlib.Data.List.Basic

/-- The answers of an operation depend on the operation. -/
inductive Script {ω : Type} (Ans : ω → Type) (α : Type) where
  | done (a : α)
  | raise
  /-- A loop has not ended yet. -/
  | cut
  | call (op : ω) (next : Ans op → Script Ans α)

/-- How a script ends. -/
inductive Outcome (α : Type) where
  | value (a : α)
  | raised
  | cut
  deriving DecidableEq, Repr

/-- The end of a script whose exceptions are caught. -/
def Outcome.caught {α : Type} : Outcome α → Outcome (Option α)
  | .value a => .value (some a)
  | .raised => .value none
  | .cut => .cut

namespace Script

variable {ω : Type} {Ans : ω → Type} {α β : Type}

def bind : Script Ans α → (α → Script Ans β) → Script Ans β
  | done a, f => f a
  | raise, _ => raise
  | cut, _ => cut
  | call op next, f => call op fun a => (next a).bind f

instance : Monad (Script Ans) where
  pure := done
  bind := bind

instance : LawfulMonad (Script Ans) := LawfulMonad.mk'
  (Script Ans) (fun s => by
    show s.bind done = s
    induction s with
    | done a => rfl
    | raise => rfl
    | cut => rfl
    | call op next ih => exact congrArg (call op) (funext ih))
  (fun _ _ => rfl)
  (fun s f g => by
    show (s.bind f).bind g = s.bind fun a => (f a).bind g
    induction s with
    | done a => rfl
    | raise => rfl
    | cut => rfl
    | call op next ih => exact congrArg (call op) (funext ih))

def perform (op : ω) : Script Ans (Ans op) := call op done

/-- `try: s except:`, with no value where an exception was caught. -/
def attempt : Script Ans α → Script Ans (Option α)
  | done a => done (some a)
  | raise => done none
  | cut => cut
  | call op next => call op fun a => (next a).attempt

/-- An exception that was caught goes on. -/
def settle : Option α → Script Ans α
  | some a => done a
  | none => raise

/-- `try: s finally: t` -/
def tryFinally (s : Script Ans α) (t : Script Ans Unit) : Script Ans α :=
  s.attempt >>= fun r => t >>= fun _ => settle r

/-- The calls that were made and what they answered, in order. -/
abbrev Trace (Ans : ω → Type) := List (Σ op, Ans op)

/-- What was called before decides on the next answer. -/
abbrev Env (Ans : ω → Type) := Trace Ans → (op : ω) → Ans op

/-- The calls and how the script ends. -/
def exec : Script Ans α → Env Ans → Trace Ans × Outcome α
  | done a, _ => ([], .value a)
  | raise, _ => ([], .raised)
  | cut, _ => ([], .cut)
  | call op next, env =>
    let rest := (next (env [] op)).exec fun t => env (⟨op, env [] op⟩ :: t)
    (⟨op, env [] op⟩ :: rest.1, rest.2)

/-! ## Conditions on calls -/

section Wp

variable {C C' : Trace Ans → ω → Prop} {Q Q' : Trace Ans → Outcome α → Prop}

/-- Every call meets `C` after the calls before it, and the end meets `Q`, whatever the answers
are. -/
def wp : Script Ans α → (Trace Ans → ω → Prop) → (Trace Ans → Outcome α → Prop) → Prop
  | done a, _, Q => Q [] (.value a)
  | raise, _, Q => Q [] .raised
  | cut, _, Q => Q [] .cut
  | call op next, C, Q =>
    C [] op ∧ ∀ a, (next a).wp (fun t => C (⟨op, a⟩ :: t)) fun t => Q (⟨op, a⟩ :: t)

@[simp] theorem wp_pure {a : α} : (pure a : Script Ans α).wp C Q ↔ Q [] (.value a) := Iff.rfl

@[simp] theorem wp_raise : (raise : Script Ans α).wp C Q ↔ Q [] .raised := Iff.rfl

@[simp] theorem wp_cut : (cut : Script Ans α).wp C Q ↔ Q [] .cut := Iff.rfl

@[simp] theorem wp_perform {op : ω} {Q : Trace Ans → Outcome (Ans op) → Prop} :
    (perform op).wp C Q ↔ C [] op ∧ ∀ a, Q [⟨op, a⟩] (.value a) := Iff.rfl

theorem wp_perform_bind {op : ω} {f : Ans op → Script Ans α} :
    (perform op >>= f).wp C Q ↔
      C [] op ∧ ∀ a, (f a).wp (fun t => C (⟨op, a⟩ :: t)) fun t => Q (⟨op, a⟩ :: t) := Iff.rfl

/-- What is to hold where the first part of a script has ended. -/
def andThen (f : α → Script Ans β) (C : Trace Ans → ω → Prop)
    (Q : Trace Ans → Outcome β → Prop) (t : Trace Ans) : Outcome α → Prop
  | .value a => (f a).wp (fun t' => C (t ++ t')) fun t' => Q (t ++ t')
  | .raised => Q t .raised
  | .cut => Q t .cut

theorem wp_bind {s : Script Ans α} {f : α → Script Ans β} {Q : Trace Ans → Outcome β → Prop} :
    (s >>= f).wp C Q ↔ s.wp C (andThen f C Q) := by
  show (s.bind f).wp C Q ↔ _
  induction s generalizing C Q with
  | done a => exact Iff.rfl
  | raise => exact Iff.rfl
  | cut => exact Iff.rfl
  | call op next ih => exact and_congr_right fun _ => forall_congr' fun a => ih a

theorem wp_attempt {s : Script Ans α} {Q : Trace Ans → Outcome (Option α) → Prop} :
    s.attempt.wp C Q ↔ s.wp C fun t r => Q t r.caught := by
  induction s generalizing C Q with
  | done a => exact Iff.rfl
  | raise => exact Iff.rfl
  | cut => exact Iff.rfl
  | call op next ih => exact and_congr_right fun _ => forall_congr' fun a => ih a

theorem wp_true {s : Script Ans α} : s.wp (fun _ _ => True) fun _ _ => True := by
  induction s with
  | done a => trivial
  | raise => trivial
  | cut => trivial
  | call op next ih => exact ⟨trivial, ih⟩

theorem wp_mono {s : Script Ans α} (hs : s.wp C Q) (hC : ∀ t op, C t op → C' t op)
    (hQ : ∀ t r, Q t r → Q' t r) : s.wp C' Q' := by
  induction s generalizing C C' Q Q' with
  | done a => exact hQ _ _ hs
  | raise => exact hQ _ _ hs
  | cut => exact hQ _ _ hs
  | call op next ih =>
    exact ⟨hC _ _ hs.1, fun a => ih a (hs.2 a) (fun t => hC _) fun t => hQ _⟩

/-- The run of a verified script against any environment. -/
theorem wp_sound {s : Script Ans α} (hs : s.wp C Q) (env : Env Ans) :
    Q (s.exec env).1 (s.exec env).2 ∧
      ∀ pre e post, (s.exec env).1 = pre ++ e :: post → C pre e.1 := by
  induction s generalizing C Q env with
  | done a => exact ⟨hs, fun pre e post h => absurd h.symm (by simp [exec])⟩
  | raise => exact ⟨hs, fun pre e post h => absurd h.symm (by simp [exec])⟩
  | cut => exact ⟨hs, fun pre e post h => absurd h.symm (by simp [exec])⟩
  | call op next ih =>
    obtain ⟨hend, hcalls⟩ := ih _ (hs.2 (env [] op)) fun t => env (⟨op, env [] op⟩ :: t)
    refine ⟨hend, fun pre e post h => ?_⟩
    cases pre with
    | nil =>
      rw [← (List.cons.inj h).1]
      exact hs.1
    | cons e' pre =>
      obtain ⟨rfl, hrest⟩ := List.cons.inj h
      exact hcalls pre e post hrest

theorem wp_ite {c : Prop} [Decidable c] {s t : Script Ans α} (hs : c → s.wp C Q)
    (ht : ¬ c → t.wp C Q) : (if c then s else t).wp C Q := by
  split
  next hc => exact hs hc
  next hc => exact ht hc

theorem wp_and {C' : Trace Ans → ω → Prop} {Q' : Trace Ans → Outcome α → Prop} {s : Script Ans α}
    (hs : s.wp C Q) (hs' : s.wp C' Q') :
    s.wp (fun t op => C t op ∧ C' t op) fun t r => Q t r ∧ Q' t r := by
  induction s generalizing C C' Q Q' with
  | done a => exact ⟨hs, hs'⟩
  | raise => exact ⟨hs, hs'⟩
  | cut => exact ⟨hs, hs'⟩
  | call op next ih => exact ⟨⟨hs.1, hs'.1⟩, fun a => ih a (hs.2 a) (hs'.2 a)⟩

/-- What a condition on single calls says of the calls before each call, and of all of them. -/
theorem wp_history {p : ω → Prop} {s : Script Ans α} (hs : s.wp (fun _ => p) Q) :
    s.wp (fun t op => p op ∧ ∀ e ∈ t, p e.1) fun t r => Q t r ∧ ∀ e ∈ t, p e.1 := by
  induction s generalizing Q with
  | done a => exact ⟨hs, nofun⟩
  | raise => exact ⟨hs, nofun⟩
  | cut => exact ⟨hs, nofun⟩
  | call op next ih =>
    refine ⟨⟨hs.1, nofun⟩, fun a => wp_mono (ih a (hs.2 a)) (fun t op' h => ?_) fun t r h => ?_⟩
    · exact ⟨h.1, List.forall_mem_cons.mpr ⟨hs.1, h.2⟩⟩
    · exact ⟨h.1, List.forall_mem_cons.mpr ⟨hs.1, h.2⟩⟩

-- The rules are all there is to know of `wp`: unfolded, it would evaluate the conditions of the
-- script.
attribute [irreducible] wp

/-- How a script without endless loops ends, and whether it may raise. -/
def Ends (raises : Bool) : Outcome α → Prop
  | .value _ => True
  | .raised => raises = true
  | .cut => False

/-- Every call is of one kind, no loop is cut off, and an exception is raised only if that is
said. -/
structure Calls (p : ω → Prop) (s : Script Ans α) (raises : Bool := true) : Prop where
  wp : s.wp (fun _ => p) fun _ r => Ends raises r

section Calls

variable {p : ω → Prop} {s t : Script Ans α} {f : α → Script Ans β} {b : Bool}

theorem Calls.mono {p' : ω → Prop} (hs : s.Calls p b) (h : ∀ op, p op → p' op) : s.Calls p' b :=
  ⟨wp_mono hs.wp (fun _ op => h op) fun _ _ => id⟩

theorem calls_pure (a : α) : (pure a : Script Ans α).Calls p b := ⟨wp_pure.mpr trivial⟩

theorem calls_raise : (raise : Script Ans α).Calls p := ⟨wp_raise.mpr rfl⟩

theorem calls_perform {op : ω} (h : p op) : (perform op : Script Ans (Ans op)).Calls p b :=
  ⟨wp_perform.mpr ⟨h, fun _ => trivial⟩⟩

theorem calls_bind (hs : s.Calls p b) (hf : ∀ a, (f a).Calls p b) : (s >>= f).Calls p b := by
  refine ⟨wp_bind.mpr (wp_mono hs.wp (fun _ _ h => h) fun t r hr => ?_)⟩
  cases r with
  | value a => exact (hf a).wp
  | raised => exact hr
  | cut => exact hr

theorem calls_ite {c : Prop} [Decidable c] (hs : s.Calls p b) (ht : t.Calls p b) :
    (if c then s else t).Calls p b := by
  split
  · exact hs
  · exact ht

theorem calls_mapM {f : α → Script Ans β} (hf : ∀ a, (f a).Calls p b) (l : List α) :
    (l.mapM f).Calls p b := by
  induction l with
  | nil => exact calls_pure _
  | cons a l ih =>
    rw [List.mapM_cons]
    exact calls_bind (hf a) fun _ => calls_bind ih fun _ => calls_pure _

/-- The rule for a part of a script whose calls are all of one kind. -/
theorem wp_of_calls (hs : s.Calls p b) (hC : ∀ t op, p op → C t op)
    (hQ : ∀ t r, (∀ e ∈ t, p e.1) → Q t r) : s.wp C Q :=
  wp_mono (wp_history hs.wp) (fun t op h => hC t op h.1) fun t r h => hQ t r h.2

end Calls

/-- Every call is of one kind, however the script ends. -/
structure Only (p : ω → Prop) (s : Script Ans α) : Prop where
  wp : s.wp (fun _ => p) fun _ _ => True

section Only

variable {p : ω → Prop} {s t : Script Ans α} {f : α → Script Ans β}

theorem Calls.only {b : Bool} (hs : s.Calls p b) : s.Only p :=
  ⟨wp_mono hs.wp (fun _ _ => id) fun _ _ _ => trivial⟩

theorem only_pure (a : α) : (pure a : Script Ans α).Only p := ⟨wp_pure.mpr trivial⟩

theorem only_cut : (cut : Script Ans α).Only p := ⟨wp_cut.mpr trivial⟩

theorem only_perform {op : ω} (h : p op) : (perform op : Script Ans (Ans op)).Only p :=
  ⟨wp_perform.mpr ⟨h, fun _ => trivial⟩⟩

theorem only_bind (hs : s.Only p) (hf : ∀ a, (f a).Only p) : (s >>= f).Only p := by
  refine ⟨wp_bind.mpr (wp_mono hs.wp (fun _ _ => id) fun t r _ => ?_)⟩
  cases r with
  | value a => exact (hf a).wp
  | raised => trivial
  | cut => trivial

theorem only_ite {c : Prop} [Decidable c] (hs : s.Only p) (ht : t.Only p) :
    (if c then s else t).Only p := by
  split
  · exact hs
  · exact ht

end Only

end Wp

end Script
