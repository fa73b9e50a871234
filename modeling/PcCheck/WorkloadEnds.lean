/-
Every phase ends.

A clock does not go back, a sleep takes its time and a start takes some; an exit that was seen
stays, and so does an abort.  On a machine like that no workload, however it behaves, keeps a
phase from ending: with turns enough for its duration no loop is cut off.
-/
import PcCheck.FloatRange
import PcCheck.WorkloadRuns
import Mathlib.Tactic.Linarith
import Mathlib.Tactic.Positivity
import Mathlib.Algebra.Order.Field.Rat

namespace PcCheck
namespace Workload

open Script

/-! ## The clock -/

structure Course where
  /-- The clock has come to this. -/
  now : ℚ
  aborted : Bool
  exited : Nat → Bool

namespace Course

def sawExit (w : Course) (pid : Nat) (seen : Bool) : Course :=
  { w with exited := fun q => if q = pid then seen else w.exited q }

def polled (w : Course) (pid : Nat) : Option Int → Course
  | some _ => w.sawExit pid true
  | none => w

/-- A start takes some time. -/
def started (w : Course) (pause : ℚ) : Option Nat → Course
  | some pid => { w.sawExit pid false with now := w.now + pause }
  | none => w

def next (pause : ℚ) (w : Course) : (op : Op) → op.Answer → Course
  | .monotonic, t => { w with now := t }
  | .sleep s, _ => { w with now := w.now + max 0 s }
  | .spawn _ _, pid => w.started pause pid
  | .poll pid, rc => w.polled pid rc
  | .aborted, b => { w with aborted := w.aborted || b }
  | _, _ => w

/-- What was seen stays, and the clock does not go back. -/
def Gives (w : Course) : (op : Op) → op.Answer → Prop
  | .monotonic, t => w.now ≤ t
  | .poll pid, rc => w.exited pid = true → rc ≠ none
  | .aborted, b => w.aborted = true → b = true
  | .uniform low _, x => low ≤ x
  | _, _ => True

/-- Nothing that has come is taken back. -/
structure Before (w w' : Course) : Prop where
  now : w.now ≤ w'.now
  aborted : w.aborted = true → w'.aborted = true
  exited : ∀ pid, w.exited pid = true → w'.exited pid = true

theorem Before.refl (w : Course) : w.Before w := ⟨le_refl _, id, fun _ => id⟩

end Course

def clockwork (pause : ℚ) : Script.Machine Op.Answer Course where
  next := Course.next pause
  Gives := Course.Gives
  Allows _ _ := True

/-- A condition that stays. -/
def Stays (P : Course → Prop) : Prop := ∀ w w', w.Before w' → P w → P w'

/-- The clock has come to `t`. -/
def Since (t : ℚ) (w : Course) : Prop := t ≤ w.now

/-- A child has been seen to exit, or an abort has been seen. -/
def Flagged (pid : Nat) (w : Course) : Prop := w.exited pid = true ∨ w.aborted = true

theorem stays_since (t : ℚ) : Stays (Since t) := fun _ _ hw h => le_trans h hw.now

theorem stays_flagged (pid : Nat) : Stays (Flagged pid) :=
  fun _ _ hw h => h.imp (hw.exited pid) hw.aborted

theorem stays_and {P P' : Course → Prop} (h : Stays P) (h' : Stays P') :
    Stays fun w => P w ∧ P' w := fun w w' hw hp => ⟨h w w' hw hp.1, h' w w' hw hp.2⟩

theorem stays_true : Stays fun _ => True := fun _ _ _ _ => trivial

theorem before_sawExit (w : Course) (pid : Nat) : w.Before (w.sawExit pid true) := by
  refine ⟨le_refl _, id, fun q hq => ?_⟩
  show (if q = pid then true else w.exited q) = true
  split
  · rfl
  · exact hq

theorem before_polled (w : Course) (pid : Nat) (rc : Option Int) : w.Before (w.polled pid rc) := by
  cases rc with
  | none => exact .refl w
  | some rc => exact before_sawExit w pid

theorem before_next {pause : ℚ} {w : Course} {op : Op} {a : op.Answer} (hop : plain op = true)
    (ha : w.Gives op a) : w.Before (w.next pause op a) := by
  cases op with
  | spawn cmd cwd => cases hop
  | monotonic => exact ⟨ha, id, fun _ => id⟩
  | sleep s => exact ⟨le_add_of_nonneg_right (le_max_left 0 s), id, fun _ => id⟩
  | poll pid => exact before_polled w pid a
  | aborted => exact ⟨le_refl _, fun h => (Bool.or_eq_true _ _).mpr (.inl h), fun _ => id⟩
  | _ => exact .refl w

/-! ## Scripts that end -/

section Rules

variable {pause : ℚ} {P : Course → Prop} {α β : Type}

/-- The script is not cut off, and what is so once it has returned. -/
abbrev Halts (pause : ℚ) (P : Course → Prop) (s : Program α) (R : α → Course → Prop) : Prop :=
  Triple (clockwork pause) P s ⟨R, fun _ => True, fun _ => False⟩

theorem keeps_of_stays (hP : Stays P) {op : Op} (hop : plain op = true) :
    (clockwork pause).Keeps P op :=
  ⟨fun _ _ => trivial, fun w _ hw ha => hP w _ (before_next hop ha) hw⟩

theorem halts_bind {s : Program α} {f : α → Program β} {R : α → Course → Prop}
    {Q : β → Course → Prop} (hs : Halts pause P s R) (hf : ∀ a, Halts pause (R a) (f a) Q) :
    Halts pause P (s >>= f) Q := triple_bind hs hf

theorem halts_pure {a : α} {R : α → Course → Prop} (h : ∀ w, P w → R a w) :
    Halts pause P (pure a) R := triple_pure h

theorem halts_mono {P' : Course → Prop} {s : Program α} {R R' : α → Course → Prop}
    (hs : Halts pause P s R) (hP : ∀ w, P' w → P w) (hR : ∀ a w, R a w → R' a w) :
    Halts pause P' s R' := triple_mono hs hP hR (fun _ => id) fun _ => id

theorem halts_or {Q : Course → Prop} {s : Program α} {R : α → Course → Prop}
    (h : Halts pause P s R) (h' : Halts pause Q s R) :
    Halts pause (fun w => P w ∨ Q w) s R := fun w hw => hw.elim (h w) (h' w)

theorem halts_calls (hP : Stays P) {s : Program α} {b : Bool}
    (hs : s.Calls (fun op => plain op = true) b) : Halts pause P s fun _ => P :=
  triple_mono (triple_of_calls (hs.mono fun _ => keeps_of_stays hP)) (fun _ => id) (fun _ _ => id)
    (fun _ _ => trivial) fun _ hw => hw.elim

theorem halts_still (hP : Stays P) {s : Program α} {b : Bool} (hs : Still s b) :
    Halts pause P s fun _ => P := halts_calls hP (hs.mono fun _ => plain_of_still)

theorem halts_still_bind (hP : Stays P) {s : Program α} {f : α → Program β} {b : Bool}
    {R : β → Course → Prop} (hs : Still s b) (hf : ∀ a, Halts pause P (f a) R) :
    Halts pause P (s >>= f) R := halts_bind (halts_still hP hs) hf

theorem halts_plain_bind (hP : Stays P) {op : Op} {f : op.Answer → Program β}
    {R : β → Course → Prop} (hop : plain op = true) (hf : ∀ a, Halts pause P (f a) R) :
    Halts pause P (perform op >>= f) R :=
  halts_bind (halts_calls (b := false) hP (calls_perform hop)) hf

/-- The clock is read. -/
theorem halts_monotonic_bind {t : ℚ} (hP : Stays P) (ht : ∀ w, P w → t ≤ w.now)
    {f : ℚ → Program β} {R : β → Course → Prop}
    (hf : ∀ r, t ≤ r → Halts pause (fun w => P w ∧ Since r w) (f r) R) :
    Halts pause P (monotonic >>= f) R := by
  refine halts_bind (R := fun r w => t ≤ r ∧ P w ∧ Since r w) (triple_perform (fun _ _ => trivial)
    fun w r hw hr => ?_) fun r => ?_
  · exact ⟨le_trans (ht w hw) hr, hP w _ (@before_next pause w _ r rfl hr) hw, @le_refl ℚ _ r⟩
  · by_cases hr : t ≤ r
    · exact triple_pre (hf r hr) fun _ hw => hw.2
    · exact triple_pre triple_false fun _ hw => hr hw.1

/-- What is left of a phase is read off the clock. -/
theorem halts_remaining_bind {t : ℚ} {p : Phase} (hP : Stays P) (ht : ∀ w, P w → t ≤ w.now)
    {f : ℚ → Program β} {R : β → Course → Prop}
    (hf : ∀ r, t ≤ r → Halts pause (fun w => P w ∧ Since r w) (f (max 0 (p.deadline - r))) R) :
    Halts pause P (p.remaining >>= f) R := halts_monotonic_bind hP ht hf

theorem halts_sleep_bind {t s : ℚ} (hP : Stays P) (ht : ∀ w, P w → t ≤ w.now)
    {f : Unit → Program β} {R : β → Course → Prop}
    (hf : Halts pause (fun w => P w ∧ Since (t + s) w) (f ()) R) :
    Halts pause P (perform (.sleep s) >>= f) R := by
  refine halts_bind (R := fun _ w => P w ∧ Since (t + s) w) (triple_perform (fun _ _ => trivial)
    fun w a hw ha => ?_) fun _ => hf
  exact ⟨hP w _ (@before_next pause w _ a rfl ha) hw, add_le_add (ht w hw) (le_max_right 0 s)⟩

end Rules


/-! ## The children -/

section Children

variable {pause : ℚ} {P : Course → Prop} {c : Child} {t : ℚ} {turns : Nat} {β : Type}

theorem halts_poll_bind (hP : Stays P) {f : Option Int → Program β} {R : β → Course → Prop}
    (hf : ∀ rc, Halts pause P (f rc) R) : Halts pause P (c.poll >>= f) R :=
  halts_plain_bind hP rfl hf

theorem halts_signal_bind (hP : Stays P) {sig : Signal} {f : Unit → Program β}
    {R : β → Course → Prop} (hf : Halts pause P (f ()) R) :
    Halts pause P (c.sendSignal sig >>= f) R := halts_plain_bind hP rfl fun _ => hf

/-- A wait ends by its deadline. -/
theorem halts_wait {deadline : ℚ} (heeds : Bool) (hpos : 0 < turns)
    (hturns : deadline - t + 1 ≤ turns) :
    Halts pause (Since t) (c.wait deadline heeds turns) fun _ => Since t := by
  induction turns generalizing t with
  | zero => exact absurd hpos (lt_irrefl 0)
  | succ turns ih =>
    push_cast at hturns
    refine halts_poll_bind (stays_since t) fun rc => ?_
    cases rc with
    | some rc => exact halts_pure fun _ => id
    | none =>
      refine halts_monotonic_bind (stays_since t) (fun _ => id) fun r hr =>
        triple_ite (fun _ => halts_pure fun _ hw => hw.1) fun hlt => ?_
      refine halts_still_bind (stays_and (stays_since t) (stays_since r)) (b := false)
        (still_heeded heeds) fun stop : Bool => triple_ite (fun _ => halts_pure fun _ hw => hw.1)
          fun _ => halts_sleep_bind (t := r) (stays_and (stays_since t) (stays_since r))
            (fun _ hw => hw.2) ?_
      have hpos' : 0 < turns := by
        by_contra hzero
        obtain rfl : turns = 0 := by omega
        push_cast at hturns
        linarith
      exact halts_mono (ih hpos' (t := r + 1) (by linarith)) (fun _ hw => hw.2)
        fun _ w hw => le_trans (by linarith) hw

theorem halts_await {until_ : ℚ} (hpos : 0 < turns) (hturns : 2 * (until_ - t) + 1 ≤ turns) :
    Halts pause (Since t) (c.await until_ turns) fun _ => Since t := by
  induction turns generalizing t with
  | zero => exact absurd hpos (lt_irrefl 0)
  | succ turns ih =>
    push_cast at hturns
    refine halts_poll_bind (stays_since t) fun rc => ?_
    cases rc with
    | some rc => exact halts_pure fun _ => id
    | none =>
      refine halts_monotonic_bind (stays_since t) (fun _ => id) fun r hr =>
        triple_ite (fun hlt => ?_) fun _ => halts_pure fun _ hw => hw.1
      refine halts_sleep_bind (t := r) (stays_and (stays_since t) (stays_since r))
        (fun _ hw => hw.2) ?_
      have hpos' : 0 < turns := by
        by_contra hzero
        obtain rfl : turns = 0 := by omega
        push_cast at hturns
        linarith
      exact halts_mono (ih hpos' (t := r + 1 / 2) (by linarith)) (fun _ hw => hw.2)
        fun _ w hw => le_trans (by linarith) hw

theorem halts_finish (hP : Stays P) : Halts pause P c.finish fun _ => P := by
  refine halts_poll_bind hP fun rc => ?_
  cases rc with
  | some rc => exact halts_still (b := false) hP still_close
  | none =>
    exact halts_signal_bind hP (halts_plain_bind hP rfl fun _ =>
      halts_still (b := false) hP still_close)

/-- A child is stopped within its grace, by a kill if need be. -/
theorem halts_stop {grace : ℚ} {sig : Signal} (hgrace : 0 ≤ grace)
    (hturns : 2 * grace + 1 ≤ turns) :
    Halts pause (Since t) (c.stop grace sig turns) fun _ => Since t := by
  refine halts_poll_bind (stays_since t) fun rc => ?_
  cases rc with
  | some rc => exact halts_still (b := false) (stays_since t) still_close
  | none =>
    refine halts_signal_bind (stays_since t) (halts_signal_bind (stays_since t)
      (halts_monotonic_bind (stays_since t) (fun _ => id) fun r hr => ?_))
    have hpos : 0 < turns := by
      have : (0 : ℚ) < turns := by linarith
      exact_mod_cast this
    refine halts_mono (halts_bind (halts_await (t := r) hpos (by linarith)) fun _ =>
      halts_finish (stays_since r)) (fun _ hw => hw.2) fun _ w hw => le_trans hr hw

theorem halts_start {cmd : List String} {logfile cwd : String} :
    Halts pause (Since t) (start cmd logfile cwd) fun _ => Since (t + pause) := by
  have hstays := stays_since t
  refine halts_plain_bind hstays rfl fun size => halts_still_bind hstays (still_get size)
    fun size => halts_plain_bind hstays rfl fun now => halts_plain_bind hstays rfl fun ok =>
      halts_still_bind hstays (still_orRaise ok) fun _ => ?_
  have hspawn : Halts pause (Since t) (spawn cmd logfile cwd) fun _ => Since (t + pause) := by
    refine halts_bind (R := fun pid w => pid ≠ none → Since (t + pause) w) (triple_perform
      (fun _ _ => trivial) fun w pid hw _ => ?_) fun pid => ?_
    · intro hpid
      cases pid with
      | none => exact absurd rfl hpid
      | some pid => exact add_le_add hw (le_refl pause)
    · cases pid with
      | none =>
        exact triple_pre (halts_plain_bind stays_true rfl fun _ =>
          triple_raise fun _ _ => trivial) fun _ _ => trivial
      | some pid => exact halts_pure fun _ hw => hw nofun
  refine halts_bind hspawn fun pid => ?_
  exact halts_still_bind (b := false) (stays_since _) still_monotonic fun _ =>
    halts_pure fun _ => id

end Children


/-! ## The workloads -/

/-- Turns enough for a duration, where a start takes a pause. -/
structure Enough (pause duration : ℚ) (turns : Nat) : Prop where
  takes : 0 < pause
  nonneg : 0 ≤ duration
  bound : 20 * duration + duration / pause + 2000 ≤ turns

namespace Enough

variable {pause duration : ℚ} {turns : Nat}

theorem starts (h : Enough pause duration turns) : duration / pause + 2000 ≤ turns := by
  linarith [h.bound, h.nonneg]

theorem seconds (h : Enough pause duration turns) : 20 * duration + 2000 ≤ turns := by
  linarith [h.bound, div_nonneg h.nonneg h.takes.le]

theorem pos (h : Enough pause duration turns) : 0 < turns := by
  have : (0 : ℚ) < turns := by linarith [h.seconds, h.nonneg]
  exact_mod_cast this

end Enough

theorem truncate_le (q : ℚ) : (truncate (max 0 q) : ℚ) ≤ max 0 q := by
  unfold truncate
  rw [if_neg (not_lt.mpr (le_max_left 0 q))]
  exact Int.floor_le _

theorem le_max_cast {a n : Int} {q : ℚ} (ha : (a : ℚ) ≤ q) (hn : (n : ℚ) ≤ q) :
    ((max n a : Int) : ℚ) ≤ q := by
  rcases max_cases n a with ⟨h, -⟩ | ⟨h, -⟩
  · rw [h]; exact hn
  · rw [h]; exact ha

section Workloads

variable {pause duration : ℚ} {u : Tables} {p : Phase} {c : Child} {t : ℚ} {turns : Nat}
  {P : Course → Prop} {β : Type}

theorem halts_stopHung (call : String → AddCall) (h : Enough pause duration turns) :
    Halts pause (Since t) (stopHung c call turns) fun _ => Since t :=
  halts_still_bind (b := false) (stays_since t) still_aborted fun stop : Bool =>
    halts_bind (halts_stop (by norm_num) (by linarith [h.seconds, h.nonneg])) fun _ =>
      halts_still (b := false) (stays_since t) (calls_ite (calls_pure _) (still_add call))

theorem halts_runStressng {label : String} {args : List String} {seconds : ℚ}
    (hseconds : max 0 seconds = seconds) (hle : seconds ≤ duration + 600)
    (h : Enough pause duration turns) :
    Halts pause (Since t) (runStressng p label args seconds turns) fun _ => Since (t + pause) := by
  have hlimit : ((max 10 (truncate seconds) : Int) : ℚ) ≤ duration + 600 := by
    refine le_max_cast ?_ (by push_cast; linarith [h.nonneg])
    rw [← hseconds] at hle ⊢
    exact le_trans (truncate_le seconds) hle
  have hstays := stays_since (t + pause)
  refine halts_bind halts_start fun c => halts_monotonic_bind hstays (fun _ => id) fun r hr =>
    halts_bind (halts_mono (halts_wait (t := r) true h.pos ?_) (fun _ hw => hw.2)
      fun _ w hw => le_trans hr hw) fun rc => ?_
  · linarith [h.seconds, h.nonneg]
  cases rc with
  | none =>
    exact halts_bind (halts_stopHung _ h) fun _ => halts_pure fun _ => id
  | some rc =>
    exact halts_still (b := true) hstays (calls_bind still_close fun _ =>
      calls_bind (still_outputTail _) fun _ => calls_bind (still_addAll _) fun _ =>
        calls_bind (still_reportShort _ _ _) fun _ => calls_pure _)

/-- Every turn starts a stressor, which takes its time. -/
theorem halts_cpuTurns {slice : ℚ} (hslice : slice ≤ 600) (hslice0 : 0 ≤ slice)
    (h : Enough pause duration turns) {n : Nat} (hpos : 0 < n)
    (hn : (p.deadline - t) / pause + 1 ≤ n) (stressors : List Cpu.Stressor) (i : Nat) :
    Halts pause (Since t) (cpuTurns p slice turns n stressors i) fun _ _ => True := by
  induction n generalizing t stressors i with
  | zero => exact absurd hpos (lt_irrefl 0)
  | succ n ih =>
    push_cast at hn
    refine halts_remaining_bind (stays_since t) (fun _ => id) fun r hr =>
      triple_ite (fun hleft => ?_) fun _ => halts_pure fun _ _ => trivial
    have hstays := stays_and (stays_since t) (stays_since r)
    refine halts_still_bind (b := false) hstays still_aborted fun stop : Bool =>
      triple_ite (fun _ => halts_pure fun _ _ => trivial) fun _ => ?_
    have hlater : r < p.deadline := by
      rcases lt_max_iff.mp hleft with hlt | hlt <;> linarith
    have hdiv : (p.deadline - t) / pause ≤ n := by linarith
    have hmul : p.deadline - t ≤ n * pause := (div_le_iff₀ h.takes).mp hdiv
    have hpos' : 0 < n := by
      by_contra hzero
      obtain rfl : n = 0 := by omega
      push_cast at hmul
      linarith
    cases Cpu.current stressors i with
    | none =>
      exact halts_mono (halts_still (b := false) stays_true (still_add _)) (fun _ _ => trivial)
        fun _ _ => id
    | some s =>
      refine halts_remaining_bind (t := r) hstays (fun _ hw => hw.2) fun r' hr' => ?_
      refine halts_bind (halts_mono (halts_runStressng (t := r) (max_eq_right (le_min hslice0
        (le_max_left 0 _))) ((min_le_left _ _).trans (by linarith [h.nonneg])) h)
        (fun _ hw => hw.1.2) fun _ _ => id) fun rc => ?_
      refine ih hpos' ?_ _ _
      have hdrop : (p.deadline - (r + pause)) / pause = (p.deadline - r) / pause - 1 := by
        rw [← sub_sub, sub_div, div_self h.takes.ne']
      have hmono : (p.deadline - r) / pause ≤ (p.deadline - t) / pause :=
        div_le_div_of_nonneg_right (by linarith) h.takes.le
      linarith

theorem halts_runStressapptest {label : String} {seconds : ℚ} {mem : Int} {extra : List String}
    (hseconds : max 0 seconds = seconds) (hle : seconds ≤ 8 * duration)
    (h : Enough pause duration turns) :
    Halts pause (Since t) (runStressapptest u p label seconds mem extra turns)
      fun _ => Since t := by
  have hlimit : ((max 30 (truncate seconds) : Int) : ℚ) ≤ 8 * duration + 30 := by
    refine le_max_cast ?_ (by push_cast; linarith [h.nonneg])
    rw [← hseconds] at hle ⊢
    linarith [truncate_le seconds]
  have hstays := stays_since (t + pause)
  refine halts_mono (halts_bind halts_start fun c => halts_monotonic_bind hstays (fun _ => id)
    fun r hr => halts_bind (halts_mono (halts_wait (t := r) true h.pos ?_) (fun _ hw => hw.2)
      fun _ w hw => le_trans hr hw) fun rc => ?_) (fun _ => id)
    fun _ w hw => le_trans (le_add_of_nonneg_right h.takes.le) hw
  · linarith [h.seconds, h.nonneg]
  cases rc with
  | none => exact halts_stopHung _ h
  | some rc =>
    exact halts_still (b := true) hstays (calls_bind still_close fun _ =>
      calls_bind (still_outputTail _) fun _ => calls_bind (calls_perform rfl) fun _ =>
        calls_bind (still_ofExcept _) fun _ => calls_bind (still_addEach _) fun _ =>
          still_reportShort _ _ _)

/-- What is left of a phase is no more than its duration. -/
theorem left_le (hp : p.deadline - t ≤ duration) (h : Enough pause duration turns) {r : ℚ}
    (hr : t ≤ r) : max 0 (p.deadline - r) ≤ duration := max_le h.nonneg (by linarith)

theorem max_left (q : ℚ) : max 0 (max 0 q) = max 0 q := max_eq_right (le_max_left 0 q)

theorem halts_any {s : Program Unit} (hs : Halts pause (Since t) s fun _ => Since t) :
    Halts pause (Since t) s fun _ _ => True := halts_mono hs (fun _ => id) fun _ _ _ => trivial

theorem halts_stressngLeft {label : String} {args : List String}
    (hp : p.deadline - t ≤ duration) (h : Enough pause duration turns) :
    Halts pause (Since t)
      (do let _ ← runStressng p label args (← p.remaining) turns) fun _ _ => True :=
  halts_remaining_bind (stays_since t) (fun _ => id) fun _ hr => halts_bind (halts_mono
    (halts_runStressng (t := t) (max_left _) (by linarith [left_le hp h hr]) h)
    (fun _ hw => hw.1) fun _ _ => id) fun _ => halts_pure fun _ _ => trivial

theorem toInt_mul_eq_ok {x y : PyFloat} {n : Int} (h : (x.mul y).toInt = .ok n) :
    ∃ a b q, x = .finite a ∧ y = .finite b ∧ PyFloat.ofRat (a * b) = .finite q ∧
      PyFloat.toInt (.finite q) = .ok n := by
  have hfinite : ∃ q, x.mul y = .finite q := by
    cases hxy : x.mul y with
    | finite q => exact ⟨q, rfl⟩
    | inf b => rw [hxy] at h; cases h
    | nan => rw [hxy] at h; cases h
  obtain ⟨q, hq⟩ := hfinite
  rw [hq] at h
  match x, y, hq with
  | .finite a, .finite b, hq => exact ⟨a, b, q, rfl, rfl, hq, h⟩
  | .finite a, .inf b, hq => by_cases ha : a = 0 <;> simp [PyFloat.mul, ha] at hq
  | .inf a, .finite b, hq => by_cases hb : b = 0 <;> simp [PyFloat.mul, hb] at hq
  | .inf a, .inf b, hq => simp [PyFloat.mul] at hq

/-- The rounding of `self.duration * 0.7` does not matter much. -/
theorem satSeconds_le {n seconds : Int} (hn : 0 ≤ n) (h : satSeconds n = .ok seconds) :
    0 ≤ seconds ∧ (seconds : ℚ) ≤ 8 * n := by
  unfold satSeconds at h
  cases hfloat : PyFloat.ofInt n with
  | error e => rw [hfloat] at h; cases h
  | ok x =>
  rw [hfloat] at h
  obtain ⟨a, b, q, rfl, hb, hq, hint⟩ := toInt_mul_eq_ok h
  have ha : PyFloat.ofRat n = .finite a := by
    unfold PyFloat.ofInt at hfloat
    split at hfloat
    · cases hfloat
    · exact Except.ok.inj hfloat
  have ha := PyFloat.ofRat_le_double (by exact_mod_cast hn) ha
  have hb := PyFloat.ofRat_le_double (by norm_num) hb
  have hq := PyFloat.ofRat_le_double (mul_nonneg ha.1 hb.1) hq
  obtain rfl : (if q < 0 then ⌈q⌉ else ⌊q⌋) = seconds := Except.ok.inj hint
  rw [if_neg (not_lt.mpr hq.1)]
  refine ⟨Int.floor_nonneg.mpr hq.1, le_trans (Int.floor_le q) (le_trans hq.2 ?_)⟩
  have hprod : a * b ≤ 2 * n * (2 * (7 / 10)) :=
    mul_le_mul ha.2 hb.2 hb.1 (mul_nonneg zero_le_two (by exact_mod_cast hn))
  have hn' : (0 : ℚ) ≤ n := by exact_mod_cast hn
  linarith

theorem halts_memoryRun (hp : p.deadline - t ≤ duration) (hd : 0 ≤ p.duration)
    (hdur : (p.duration : ℚ) ≤ duration) (h : Enough pause duration turns) :
    Halts pause (Since t) (memoryRun u p turns) fun _ _ => True := by
  have hstays := stays_since t
  refine halts_bind (R := fun seconds w => Since t w ∧ satSeconds p.duration = .ok seconds) ?_
    fun seconds => ?_
  · cases hsat : satSeconds p.duration with
    | error e => exact triple_raise fun _ _ => trivial
    | ok seconds => exact halts_pure fun _ hw => ⟨hw, rfl⟩
  refine triple_at fun w hw => triple_pre (P := Since t) ?_ fun w' hw' => hw' ▸ hw.1
  obtain ⟨hsat0, hsat⟩ := satSeconds_le hd hw.2
  refine halts_bind (R := fun _ => Since t) ?_ fun _ => ?_
  · refine halts_plain_bind hstays rfl fun present : Bool => triple_ite (fun _ => ?_)
      fun _ => halts_still (b := false) hstays (still_add _)
    exact halts_still_bind hstays (still_memBudgetMib _) fun mem => halts_runStressapptest
      (max_eq_right (by exact_mod_cast hsat0)) (by linarith) h
  · refine halts_still_bind (b := false) hstays still_aborted fun stop : Bool =>
      triple_ite (fun _ => halts_pure fun _ _ => trivial) fun _ => ?_
    exact halts_still_bind hstays (still_memBudgetMib _) fun budget =>
      halts_plain_bind hstays rfl fun cpus => halts_stressngLeft hp h

theorem halts_finally {s : Program β} {fin : Program Unit} {R : Course → Prop}
    {Q : β → Course → Prop} (hs : Halts pause P s fun _ => R)
    (hfin : ∀ a, Halts pause R fin fun _ => Q a)
    (hraised : Halts pause (fun _ => True) fin fun _ _ => True) :
    Halts pause P (s.tryFinally fin) Q :=
  triple_finally hs hfin hraised

/-- From wherever the clock is. -/
theorem halts_stop_anytime {grace : ℚ} {sig : Signal} (hgrace : 0 ≤ grace)
    (hturns : 2 * grace + 1 ≤ turns) :
    Halts pause (fun _ => True) (c.stop grace sig turns) fun _ _ => True :=
  triple_at fun w _ => halts_mono (halts_stop (t := w.now) hgrace hturns)
    (fun _ hw => (congrArg Course.now hw).ge) fun _ _ _ => trivial

theorem halts_ycruncherWork {seconds : Int} {config workdir : String}
    (hseconds : (seconds : ℚ) ≤ duration + 1) (h : Enough pause duration turns) :
    Halts pause (Since t) (ycruncherWork u p seconds config workdir turns) fun _ _ => True := by
  refine halts_bind halts_start fun c => ?_
  have hstays := stays_since (t + pause)
  have hbody : Halts pause (Since (t + pause))
      (do c.wait ((← monotonic) + seconds + 300) true turns) fun _ => Since (t + pause) :=
    halts_monotonic_bind hstays (fun _ => id) fun r hr => halts_mono
      (halts_wait (t := r) true h.pos (by linarith [h.seconds, h.nonneg])) (fun _ hw => hw.2)
      fun _ w hw => le_trans hr hw
  have hstop : (2 : ℚ) * 10 + 1 ≤ turns := by linarith [h.seconds, h.nonneg]
  refine halts_bind (R := fun _ => Since (t + pause)) (halts_finally hbody
    (fun _ => halts_stop (by norm_num) hstop) (halts_stop_anytime (by norm_num) hstop)) fun rc => ?_
  refine halts_mono (halts_still (b := true) hstays ?_) (fun _ => id) fun _ _ _ => trivial
  exact calls_bind still_monotonic fun _ => calls_bind (calls_perform rfl) fun _ =>
    calls_bind (still_get _) fun _ => calls_bind (still_ofExcept _) fun _ => calls_pure _

theorem halts_ycruncherRun (hp : p.deadline - t ≤ duration) (h : Enough pause duration turns) :
    Halts pause (Since t) (ycruncherRun u p turns) fun _ _ => True := by
  have hstays := stays_since t
  refine halts_plain_bind hstays rfl fun present : Bool => triple_ite (fun _ => ?_)
    fun _ => halts_any (halts_still (b := false) hstays (still_add _))
  refine halts_plain_bind hstays rfl fun cores => halts_still_bind hstays (still_memBudgetMib _)
    fun memory => halts_remaining_bind hstays (fun _ => id) fun r hr => ?_
  have hseconds : ((max 1 (truncate (max 0 (p.deadline - r))) : Int) : ℚ) ≤ duration + 1 :=
    le_max_cast (by linarith [truncate_le (p.deadline - r), left_le hp h hr])
      (by push_cast; linarith [h.nonneg])
  refine triple_pre (P := Since t) ?_ fun _ hw => hw.1
  refine halts_still_bind hstays (still_ofExcept _) fun config => halts_plain_bind hstays rfl
    fun ok => halts_still_bind hstays (still_orRaise ok) fun _ => halts_plain_bind hstays rfl
      fun dir => halts_still_bind hstays (still_get dir) fun workdir => ?_
  have hremove : Still (do orRaise (← perform (.removeTemp workdir))) :=
    calls_bind (calls_perform rfl) fun _ => still_orRaise _
  refine halts_bind (R := fun _ _ => True) (halts_finally (halts_ycruncherWork hseconds h)
    (fun _ => halts_still stays_true hremove) (halts_still stays_true hremove)) fun r => ?_
  obtain ⟨rc, elapsed, evidence⟩ := r
  exact halts_still (b := true) stays_true (calls_bind (calls_perform rfl) fun _ =>
    calls_bind still_aborted fun _ => calls_bind (calls_perform rfl) fun _ =>
      calls_bind (still_orRaise _) fun _ => still_ycruncherJudge _ _)

theorem halts_mprimeRun (hp : p.deadline - t ≤ duration) (h : Enough pause duration turns) :
    Halts pause (Since t) (mprimeRun u p turns) fun _ _ => True := by
  have hstays := stays_since t
  refine halts_plain_bind hstays rfl fun present : Bool => triple_ite (fun _ => ?_) fun _ =>
    halts_still_bind (b := false) hstays (still_add _) fun _ => halts_stressngLeft hp h
  refine halts_plain_bind hstays rfl fun ok => halts_still_bind hstays (still_orRaise ok) fun _ =>
    halts_plain_bind hstays rfl fun _ => halts_still_bind hstays (still_memBudgetMib _) fun mem =>
      halts_plain_bind hstays rfl fun threads => halts_plain_bind hstays rfl fun ok =>
        halts_still_bind hstays (still_orRaise ok) fun _ => halts_bind halts_start fun c => ?_
  have hwait : p.deadline - (t + pause) + 1 ≤ turns := by
    linarith [h.seconds, h.nonneg, h.takes]
  refine halts_bind (halts_wait (t := t + pause) true h.pos hwait) fun rc =>
    halts_bind (halts_stop (by norm_num) (by linarith [h.seconds, h.nonneg])) fun _ => ?_
  refine halts_any (halts_still (b := false) (stays_since _) ?_)
  exact calls_bind (still_outputTail _) fun _ => calls_bind (calls_perform rfl) fun _ =>
    calls_bind (calls_perform rfl) fun _ => calls_bind (still_mprimeVerdict _ _ _)
      fun _ => still_mprimeUnverified _ _

/-! ### The load transients -/

section Transient

variable {F : Course → Prop}

/-- An exit that is polled has been seen. -/
theorem halts_poll (hP : Stays P) :
    Halts pause P c.poll fun rc w => P w ∧ (rc ≠ none → Flagged c.pid w) := by
  refine triple_perform (fun _ _ => trivial) fun w rc hw hrc => ⟨?_, fun hne => .inl ?_⟩
  · exact hP w _ (@before_next pause w _ rc rfl hrc) hw
  · cases rc with
    | none => exact absurd rfl hne
    | some rc => exact if_pos rfl

theorem halts_aborted (hP : Stays P) :
    Halts pause P aborted fun b w => P w ∧ (b = true → w.aborted = true) := by
  refine triple_perform (fun _ _ => trivial) fun w b hw hb => ⟨?_, fun hne => ?_⟩
  · exact hP w _ (@before_next pause w _ b rfl hb) hw
  · exact (Bool.or_eq_true w.aborted b).mpr (.inr hne)

theorem halts_uniform (hP : Stays P) (range : ℚ × ℚ) :
    Halts pause P (uniform range) fun x w => P w ∧ range.1 ≤ x :=
  triple_perform (fun _ _ => trivial) fun w x hw hx =>
    ⟨hP w _ (@before_next pause w _ x rfl hx) hw, hx⟩

/-- A sleep that is cut to what is left. -/
theorem le_after_sleep (d until_ r : ℚ) :
    until_ - (r + min d (max 0 (until_ - r))) ≤ max 0 (until_ - r - d) := by
  rcases le_total d (max 0 (until_ - r)) with h | h
  · rw [min_eq_left h, ← sub_sub]
    exact le_max_right 0 _
  · rw [min_eq_right h]
    refine le_trans ?_ (le_max_left 0 _)
    linarith [le_max_right 0 (until_ - r)]

/-- A doze ends, and then it is time, or the child has exited, or there is an abort. -/
theorem halts_dozing (hF : Stays F) {until_ : ℚ} (hpos : 0 < turns)
    (hturns : 2 * (until_ - t) + 1 ≤ turns) :
    Halts pause (fun w => F w ∧ Since t w) (dozing c until_ turns)
      fun _ w => F w ∧ (Since until_ w ∨ Flagged c.pid w) := by
  induction turns generalizing t with
  | zero => exact absurd hpos (lt_irrefl 0)
  | succ turns ih =>
    push_cast at hturns
    have hstays := stays_and hF (stays_since t)
    refine halts_monotonic_bind hstays (fun _ hw => hw.2) fun r hr => triple_ite (fun hlt => ?_)
      fun hge => halts_pure fun w hw => ⟨hw.1.1, .inl (le_trans (not_lt.mp hge) hw.2)⟩
    have hpos' : 0 < turns := by
      by_contra hzero
      obtain rfl : turns = 0 := by omega
      push_cast at hturns
      linarith
    have hturns' : (1 : ℚ) ≤ turns := by exact_mod_cast hpos'
    have hstays' := stays_and hF (stays_since r)
    refine halts_bind (halts_mono (halts_poll hstays') (fun w hw => ⟨hw.1.1, hw.2⟩) fun _ _ => id)
      fun rc => ?_
    cases rc with
    | some rc => exact halts_pure fun w hw => ⟨hw.1.1, .inr (hw.2 nofun)⟩
    | none =>
      refine halts_bind (halts_mono (halts_aborted hstays') (fun w hw => hw.1) fun _ _ => id)
        fun stop => triple_ite (fun hstop => halts_pure fun w hw =>
          ⟨hw.1.1, .inr (.inr (hw.2 hstop))⟩) fun _ => ?_
      refine triple_pre (P := fun w => F w ∧ Since r w) ?_ fun w hw => hw.1
      refine halts_monotonic_bind hstays' (fun _ hw => hw.2) fun r' hr' => halts_sleep_bind
        (t := r') (stays_and hstays' (stays_since r')) (fun _ hw => hw.2) ?_
      refine triple_pre (ih hpos' ?_) fun w hw => ⟨hw.1.1.1, hw.2⟩
      have hsleep := le_after_sleep (1 / 2) until_ r'
      rcases max_cases 0 (until_ - r' - 1 / 2) with ⟨hmax, -⟩ | ⟨hmax, -⟩ <;>
        rw [hmax] at hsleep <;> linarith

theorem halts_doze (hF : Stays F) (seconds : ℚ) (hp : p.deadline - t ≤ duration)
    (h : Enough pause duration turns) :
    Halts pause (fun w => F w ∧ Since t w) (doze p c seconds turns)
      fun _ w => F w ∧ (Since (min (t + seconds) p.deadline) w ∨ Flagged c.pid w) := by
  refine halts_monotonic_bind (stays_and hF (stays_since t)) (fun _ hw => hw.2) fun r hr => ?_
  refine halts_mono (halts_dozing hF (t := r) h.pos ?_) (fun w hw => ⟨hw.1.1, hw.2⟩)
    fun _ w hw => ⟨hw.1, hw.2.imp_left fun hsince => ?_⟩
  · linarith [h.seconds, h.nonneg, min_le_right (r + seconds) p.deadline]
  · exact le_trans (min_le_min_right _ (add_le_add hr (le_refl seconds))) hsince

/-- Once the child has exited or an abort is seen, an end is seen at the next look. -/
theorem halts_flagged_look (hF : Stays F) {β : Type} {a : β} {rest : Program β} :
    Halts pause (fun w => F w ∧ Flagged c.pid w)
      (do match ← c.poll with
          | some _ => return a
          | none => if ← aborted then return a else rest)
      fun _ w => F w ∧ Flagged c.pid w := by
  refine halts_bind (R := fun rc w => (F w ∧ Flagged c.pid w) ∧ (rc = none → w.aborted = true))
    (triple_perform (fun _ _ => trivial) fun w rc hw hrc => ?_) fun rc => ?_
  · refine ⟨stays_and hF (stays_flagged c.pid) w _ (@before_next pause w _ rc rfl hrc) hw, ?_⟩
    rintro rfl
    exact hw.2.resolve_left fun hexit => hrc hexit rfl
  · cases rc with
    | some rc => exact halts_pure fun _ hw => hw.1
    | none =>
      refine halts_bind (R := fun b w => (F w ∧ Flagged c.pid w) ∧ b = true) (triple_perform
        (fun _ _ => trivial) fun w b hw hb => ⟨?_, hb (hw.2 rfl)⟩) fun b =>
          triple_ite (fun _ => halts_pure fun _ hw => hw.1) fun hb => ?_
      · exact stays_and hF (stays_flagged c.pid) w _ (@before_next pause w _ b rfl hb) hw.1
      · exact triple_pre triple_false fun _ hw => hb hw.2

theorem halts_loadSteps_flagged (hF : Stays F) {pattern : Pattern} {blockEnd : ℚ} {n steps : Nat}
    (hpos : 0 < n) :
    Halts pause (fun w => F w ∧ Flagged c.pid w) (loadSteps p c pattern blockEnd turns n steps)
      fun _ w => F w ∧ Flagged c.pid w := by
  obtain ⟨n, rfl⟩ := Nat.exists_eq_succ_of_ne_zero hpos.ne'
  exact halts_still_bind (b := false) (stays_and hF (stays_flagged c.pid)) still_monotonic fun _ =>
    triple_ite (fun _ => halts_flagged_look hF) fun _ => halts_pure fun _ => id

/-- The load steps of a pattern end with its block, or where an end is seen. -/
theorem halts_loadSteps (hF : Stays F) {pattern : Pattern} {blockEnd : ℚ} {n steps : Nat}
    (hon : 1 / 20 ≤ pattern.on.1) (hblock : blockEnd ≤ p.deadline)
    (hp : p.deadline - t ≤ duration) (h : Enough pause duration turns) (hpos : 0 < n)
    (hn : 20 * (blockEnd - t) + 1 ≤ n) :
    Halts pause (fun w => F w ∧ Since t w) (loadSteps p c pattern blockEnd turns n steps)
      fun _ w => F w ∧ (Since blockEnd w ∨ Flagged c.pid w) := by
  induction n generalizing t steps with
  | zero => exact absurd hpos (lt_irrefl 0)
  | succ n ih =>
    push_cast at hn
    refine halts_monotonic_bind (stays_and hF (stays_since t)) (fun _ hw => hw.2) fun r hr =>
      triple_ite (fun hlt => ?_) fun hge =>
        halts_pure fun w hw => ⟨hw.1.1, .inl (le_trans (not_lt.mp hge) hw.2)⟩
    have hpos' : 0 < n := by
      by_contra hzero
      obtain rfl : n = 0 := by omega
      push_cast at hn
      linarith
    have hp' : ∀ {r' : ℚ}, r ≤ r' → p.deadline - r' ≤ duration := fun hr' => by linarith
    have hstays := stays_and hF (stays_since r)
    refine halts_bind (halts_mono (halts_poll hstays) (fun w hw => ⟨hw.1.1, hw.2⟩) fun _ _ => id)
      fun rc => ?_
    cases rc with
    | some rc => exact halts_pure fun w hw => ⟨hw.1.1, .inr (hw.2 nofun)⟩
    | none =>
      refine halts_bind (halts_mono (halts_aborted hstays) (fun w hw => hw.1) fun _ _ => id)
        fun stop => triple_ite (fun hstop => halts_pure fun w hw =>
          ⟨hw.1.1, .inr (.inr (hw.2 hstop))⟩) fun _ => ?_
      refine triple_pre (P := fun w => F w ∧ Since r w) ?_ fun w hw => hw.1
      refine halts_signal_bind hstays (halts_bind (halts_uniform hstays pattern.on) fun x => ?_)
      by_cases hx : pattern.on.1 ≤ x
      case neg => exact triple_pre triple_false fun _ hw => hx hw.2
      refine halts_bind (halts_mono (halts_doze hstays x (hp' le_rfl) h)
        (fun w hw => ⟨hw.1, hw.1.2⟩) fun _ _ => id) fun _ => ?_
      -- Either the step has taken its time, or an end is seen at the next look.
      refine triple_pre (halts_or
        (P := fun w => (F w ∧ Since r w) ∧ Since (min (r + x) p.deadline) w)
        (Q := fun w => (F w ∧ Since r w) ∧ Flagged c.pid w) ?_ ?_)
        fun w hw => hw.2.imp (fun hs => ⟨hw.1, hs⟩) fun hf => ⟨hw.1, hf⟩
      · refine halts_monotonic_bind (stays_and hstays (stays_since _)) (fun _ hw => hw.2)
          fun r' hr' => triple_ite (fun hend => halts_pure fun w hw =>
            ⟨hw.1.1.1, .inl (le_trans (le_trans hblock hend) hw.2)⟩) fun hend => ?_
        have hstep : r + 1 / 20 ≤ r' := by
          rcases min_le_iff.mp hr' with hle | hle
          · linarith
          · exact absurd hle hend
        have hstays' := stays_and hF (stays_since r')
        refine triple_pre (P := fun w => F w ∧ Since r' w) ?_ fun w hw => ⟨hw.1.1.1, hw.2⟩
        refine halts_signal_bind hstays' (halts_bind (halts_uniform hstays' pattern.off)
          fun y => ?_)
        refine halts_bind (halts_mono (halts_doze hstays' y
          (hp' (by linarith)) h) (fun w hw => ⟨hw.1, hw.1.2⟩) fun _ _ => id) fun _ => ?_
        exact triple_pre (ih (hp' (by linarith)) hpos' (by linarith)) fun w hw => hw.1
      · have hflagged := stays_and hstays (stays_flagged c.pid)
        refine halts_still_bind (b := false) hflagged still_monotonic fun r' => triple_ite
          (fun _ => halts_pure fun w hw => ⟨hw.1.1, .inr hw.2⟩) fun _ => ?_
        refine halts_signal_bind hflagged (halts_bind (halts_uniform hflagged pattern.off)
          fun y => halts_bind (halts_mono (halts_doze hflagged y (hp' le_rfl) h)
            (fun w hw => ⟨hw.1, hw.1.1.2⟩) fun _ _ => id) fun _ => ?_)
        exact halts_mono (halts_loadSteps_flagged hF hpos') (fun w hw => ⟨hw.1.1.1, hw.1.2⟩)
          fun _ w hw => ⟨hw.1, .inr hw.2⟩

theorem halts_choosePattern (hP : Stays P) :
    Halts pause P choosePattern fun q w => P w ∧ 1 / 20 ≤ q.on.1 ∧ 60 ≤ q.block := by
  refine halts_plain_bind hP rfl fun i : Fin 3 => halts_pure fun w hw => ⟨hw, ?_⟩
  revert i
  decide +kernel

/-- The patterns end with the phase, or where an end is seen. -/
theorem halts_patterns {n steps : Nat} (hp : p.deadline - t ≤ duration)
    (h : Enough pause duration turns) (hpos : 0 < n) (hn : p.deadline - t + 60 ≤ 60 * n) :
    Halts pause (Since t) (patterns p c turns n steps) fun _ => Since t := by
  induction n generalizing t steps with
  | zero => exact absurd hpos (lt_irrefl 0)
  | succ n ih =>
    push_cast at hn
    have hstays := stays_since t
    refine halts_poll_bind hstays fun rc => ?_
    cases rc with
    | some rc => exact halts_pure fun _ => id
    | none =>
      refine halts_still_bind (b := false) hstays still_aborted fun stop : Bool =>
        triple_ite (fun _ => halts_pure fun _ => id) fun _ => ?_
      refine halts_remaining_bind hstays (fun _ => id) fun r hr =>
        triple_ite (fun hleft => ?_) fun _ => halts_pure fun _ hw => hw.1
      have hlater : r < p.deadline := by
        rcases lt_max_iff.mp hleft with hlt | hlt <;> linarith
      have hpos' : 0 < n := by
        by_contra hzero
        obtain rfl : n = 0 := by omega
        push_cast at hn
        linarith
      have hone : (1 : ℚ) ≤ n := by exact_mod_cast hpos'
      have hstays' := stays_and hstays (stays_since r)
      refine halts_bind (halts_choosePattern hstays') fun pattern => ?_
      by_cases hpattern : 1 / 20 ≤ pattern.on.1 ∧ 60 ≤ pattern.block
      case neg => exact triple_pre triple_false fun _ hw => hpattern hw.2
      refine triple_pre (P := fun w => Since t w ∧ Since r w) ?_ fun w hw => hw.1
      refine halts_monotonic_bind hstays' (fun _ hw => hw.2) fun r' hr' => ?_
      refine halts_bind (halts_mono (halts_loadSteps hstays (t := r') hpattern.1
        (min_le_left _ (r' + pattern.block)) (by linarith) h h.pos ?_)
        (fun w hw => ⟨hw.1.1, hw.2⟩) fun _ _ => id) fun steps => ?_
      · linarith [min_le_left p.deadline (r' + pattern.block), h.seconds, h.nonneg]
      refine triple_pre (halts_or (P := fun w => Since t w ∧ Since
        (min p.deadline (r' + pattern.block)) w) (Q := fun w => Since t w ∧ Flagged c.pid w)
        ?_ ?_) fun w hw => hw.2.imp (fun hs => ⟨hw.1, hs⟩) fun hf => ⟨hw.1, hf⟩
      · have hback : t ≤ min p.deadline (r' + pattern.block) :=
          le_min (by linarith) (by linarith [hpattern.2])
        refine halts_mono (ih (t := min p.deadline (r' + pattern.block)) (by linarith) hpos' ?_)
          (fun w hw => hw.2) fun _ w hw => le_trans hback hw
        rcases min_cases p.deadline (r' + pattern.block) with ⟨hmin, -⟩ | ⟨hmin, -⟩ <;> rw [hmin]
        · linarith
        · linarith [hpattern.2]
      · obtain ⟨n, rfl⟩ := Nat.exists_eq_succ_of_ne_zero hpos'.ne'
        exact halts_mono (halts_flagged_look hstays) (fun _ => id) fun _ w hw => hw.1

theorem halts_transientEnd (h : Enough pause duration turns) :
    Halts pause (Since t) (transientEnd p c turns) fun _ => Since t := by
  have hstays := stays_since t
  refine halts_poll_bind hstays fun rc => ?_
  cases rc with
  | some rc =>
    exact halts_still (b := false) hstays (calls_bind still_transientEarly fun _ => calls_pure _)
  | none =>
    refine halts_signal_bind hstays (halts_monotonic_bind hstays (fun _ => id) fun r hr =>
      halts_bind (halts_mono (halts_wait (t := r) false h.pos
        (by linarith [h.seconds, h.nonneg])) (fun _ hw => hw.2) fun _ w hw => le_trans hr hw)
        fun rc => ?_)
    cases rc with
    | some rc => exact halts_pure fun _ => id
    | none =>
      exact halts_bind (halts_stop (by norm_num) (by linarith [h.seconds, h.nonneg])) fun _ =>
        halts_still (b := false) hstays (calls_bind (still_add _) fun _ => calls_pure _)

theorem halts_transientRun (hp : p.deadline - t ≤ duration) (h : Enough pause duration turns) :
    Halts pause (Since t) (transientRun u p turns) fun _ _ => True := by
  have hstays := stays_since t
  refine halts_still_bind hstays (still_memBudgetMib _) fun budget =>
    halts_plain_bind hstays rfl fun cpus => halts_bind halts_start fun c => ?_
  have hpatterns : Halts pause (Since (t + pause)) (patterns p c turns turns 0)
      fun _ => Since (t + pause) :=
    halts_patterns (by linarith [h.takes]) h h.pos
      (by linarith [h.seconds, h.nonneg, h.takes])
  have hcont : ∀ {P : Course → Prop}, Stays P →
      Halts pause P (c.sendSignal .cont) fun _ => P := fun hP =>
    halts_calls (b := false) hP (calls_perform rfl)
  refine halts_bind (R := fun _ => Since (t + pause)) (halts_finally hpatterns
    (fun _ => hcont (stays_since _)) (hcont stays_true)) fun steps => ?_
  refine halts_bind (halts_transientEnd h) fun rc => halts_mono
    (halts_still (b := false) (stays_since _) ?_) (fun _ => id) fun _ _ _ => trivial
  exact calls_bind still_close fun _ => calls_bind (still_outputTail _) fun _ =>
    calls_bind (still_addAll _) fun _ => still_add _

end Transient

/-! ### The scans -/

section Scans

variable {s : Setup}

theorem halts_idling {n : Nat} (hpos : 0 < n) (hn : p.deadline - t + 5 ≤ 5 * n) :
    Halts pause (Since t) (idling p n) fun _ => Since t := by
  induction n generalizing t with
  | zero => exact absurd hpos (lt_irrefl 0)
  | succ n ih =>
    push_cast at hn
    have hstays := stays_since t
    refine halts_remaining_bind hstays (fun _ => id) fun r hr =>
      triple_ite (fun hleft => ?_) fun _ => halts_pure fun _ hw => hw.1
    have hlater : r < p.deadline := by
      rcases lt_max_iff.mp hleft with hlt | hlt <;> linarith
    have hpos' : 0 < n := by
      by_contra hzero
      obtain rfl : n = 0 := by omega
      push_cast at hn
      linarith
    have hone : (1 : ℚ) ≤ n := by exact_mod_cast hpos'
    have hstays' := stays_and hstays (stays_since r)
    refine halts_still_bind (b := false) hstays' still_aborted fun stop : Bool =>
      triple_ite (fun _ => halts_pure fun _ hw => hw.1) fun _ => ?_
    refine halts_remaining_bind hstays' (fun _ hw => hw.2) fun r' hr' => halts_sleep_bind (t := r')
      (stays_and hstays' (stays_since r')) (fun _ hw => hw.2) ?_
    refine halts_mono (ih hpos' ?_) (fun w hw => hw.2) fun _ w hw => le_trans ?_ hw
    · have hsleep := le_after_sleep 5 p.deadline r'
      rcases max_cases 0 (p.deadline - r' - 5) with ⟨hmax, -⟩ | ⟨hmax, -⟩ <;>
        rw [hmax] at hsleep <;> linarith
    · have hslept : 0 ≤ min 5 (max 0 (p.deadline - r')) := le_min (by norm_num) (le_max_left 0 _)
      linarith

theorem calls_pauseScans : (pauseScans s).Calls (fun op => plain op = true) false :=
  calls_ite (calls_perform rfl) (calls_pure _)

theorem calls_resumeScans : (resumeScans s).Calls (fun op => plain op = true) false :=
  calls_ite (calls_perform rfl) (calls_pure _)

theorem halts_idleRun (hp : p.deadline - t ≤ duration) (h : Enough pause duration turns) :
    Halts pause (Since t) (idleRun u s p turns) fun _ _ => True := by
  have hstays := stays_since t
  refine halts_still_bind (b := false) hstays still_cstateUsage fun before =>
    halts_bind (halts_calls hstays calls_pauseScans) fun _ => halts_bind (R := fun _ => Since t)
      (halts_finally (halts_idling h.pos (by linarith [h.seconds, h.nonneg]))
        (fun _ => halts_calls hstays calls_resumeScans)
        (halts_calls stays_true calls_resumeScans)) fun _ => ?_
  exact halts_any (halts_still (b := false) hstays (calls_bind still_cstateUsage fun _ =>
    calls_ite (still_add _) (still_add _)))

/-! ### Everything at once -/

/-- What is so if a load could be started. -/
def InTime (t : ℚ) (w : Course) : Option Load → Prop
  | some _ => Since t w
  | none => True

theorem halts_attempt {a : Program Load} (ha : Halts pause (Since t) a fun _ => Since t) :
    Halts pause (Since t) a.attempt fun r w => InTime t w r := triple_attempt ha

theorem halts_startFio (disk : DiskRef) (htakes : 0 ≤ pause) :
    Halts pause (Since t) (startFio p disk) fun _ => Since t := by
  have hstays := stays_since t
  refine halts_plain_bind hstays rfl fun ok => halts_still_bind hstays (still_orRaise ok) fun _ =>
    halts_still_bind (b := false) hstays still_secondsLeft fun left => halts_bind halts_start
      fun _ => halts_pure fun _ hw => le_trans (le_add_of_nonneg_right htakes) hw

theorem halts_startIperf (htakes : 0 ≤ pause) :
    Halts pause (Since t) (startIperf s p) fun _ => Since t :=
  halts_still_bind (b := false) (stays_since t) still_secondsLeft fun _ => halts_bind halts_start
    fun _ => halts_pure fun _ hw => le_trans (le_add_of_nonneg_right htakes) hw

/-- Where all could be started, the clock is known. -/
def Launched (t : ℚ) (r : List Load × Bool) (w : Course) : Prop := r.2 = true → Since t w

theorem halts_launchDisks (htakes : 0 ≤ pause) (disks : List DiskRef) (loads : List Load) :
    Halts pause (Since t) (launchDisks p disks loads) (Launched t) := by
  induction disks generalizing loads with
  | nil => exact halts_pure fun _ hw _ => hw
  | cons disk disks ih =>
    refine halts_bind (halts_attempt (halts_startFio disk htakes)) fun r => ?_
    cases r with
    | none => exact halts_pure fun _ _ h => nomatch h
    | some l => exact ih _

theorem halts_launch (htakes : 0 ≤ pause) : Halts pause (Since t) (launch s p) (Launched t) := by
  have hstays := stays_since t
  refine halts_plain_bind hstays rfl fun disks : Option (List DiskRef) => ?_
  cases disks with
  | none => exact halts_pure fun _ _ h => nomatch h
  | some disks =>
    refine halts_bind (halts_launchDisks htakes disks []) fun r =>
      triple_ite (fun hr => triple_pre (P := Since t) ?_ fun w hw => hw hr) fun _ =>
        halts_pure fun _ => id
    refine triple_ite (fun _ => halts_still_bind (b := false) hstays (still_add _) fun _ =>
      halts_pure fun _ hw _ => hw) fun _ => ?_
    refine halts_bind (halts_attempt (halts_startIperf htakes)) fun r => ?_
    cases r with
    | none => exact halts_pure fun _ _ h => nomatch h
    | some l => exact halts_pure fun _ hw _ => hw

theorem halts_judgeLoads (hp : p.deadline - t ≤ duration) (h : Enough pause duration turns)
    (loads : List Load) : Halts pause (Since t) (judgeLoads u p turns loads) fun _ => Since t := by
  have hstays := stays_since t
  induction loads with
  | nil => exact halts_pure fun _ => id
  | cons l rest ih =>
    refine halts_bind (halts_wait true h.pos (by linarith [h.seconds, h.nonneg])) fun rc =>
      halts_still_bind (b := false) hstays still_aborted fun stop : Bool =>
        triple_ite (fun _ => halts_pure fun _ => id) fun _ => ?_
    exact halts_still_bind hstays (still_verify l) fun verified =>
      halts_still_bind (b := false) hstays (still_reportLoad l rc verified) fun _ => ih

theorem halts_underLoad (hp : p.deadline - t ≤ duration) (h : Enough pause duration turns)
    (loads : List Load) : Halts pause (Since t) (underLoad u p loads turns) fun _ => Since t := by
  have hstays := stays_since t
  refine halts_remaining_bind hstays (fun _ => id) fun r hr => triple_pre (P := Since t) ?_
    fun _ hw => hw.1
  exact halts_still_bind hstays (still_memBudgetMib _) fun _ => halts_plain_bind hstays rfl fun _ =>
    halts_bind (halts_runStressapptest (max_left _) (by linarith [left_le hp h hr, h.nonneg]) h)
      fun _ => halts_judgeLoads hp h loads

theorem halts_release (h : Enough pause duration turns) (loads : List Load) :
    Halts pause (fun _ => True) (release turns loads) fun _ _ => True := by
  induction loads with
  | nil => exact halts_pure fun _ => id
  | cons l rest ih =>
    refine halts_poll_bind stays_true fun rc => ?_
    cases rc with
    | none =>
      exact halts_bind (halts_stop_anytime (by norm_num) (by linarith [h.seconds, h.nonneg]))
        fun _ => ih
    | some rc => exact halts_still_bind (b := false) stays_true still_close fun _ => ih

theorem halts_combinedRun (hp : p.deadline - t ≤ duration) (h : Enough pause duration turns) :
    Halts pause (Since t) (combinedRun u s p turns) fun _ _ => True := by
  have hbody : Halts pause (Since t) (combinedBody u s p turns) fun _ _ => True := by
    refine halts_bind (halts_launch h.takes.le) fun r => triple_ite (fun hr => ?_)
      fun _ => halts_pure fun _ _ => trivial
    have hattempt : Halts pause (Since t) (underLoad u p r.1 turns).attempt fun _ _ => True :=
      triple_attempt (halts_mono (halts_underLoad hp h r.1) (fun _ => id) fun _ _ _ => trivial)
    exact halts_bind (halts_mono hattempt (fun w hw => hw hr) fun _ _ => id) fun done =>
      halts_pure fun _ => id
  exact halts_bind (halts_calls (stays_since t) calls_pauseScans) fun _ => halts_bind hbody fun r =>
    halts_bind (halts_release h r.1) fun _ => halts_bind
      (halts_calls stays_true calls_resumeScans) fun _ => halts_still stays_true (still_orRaise r.2)

end Scans

end Workloads


theorem halts_runOf {pause duration t : ℚ} {p : Phase} {turns : Nat} (u : Tables) (s : Setup)
    (k : Kind) (hp : p.deadline - t ≤ duration) (hd : 0 ≤ p.duration)
    (hdur : (p.duration : ℚ) ≤ duration) (h : Enough pause duration turns) :
    Halts pause (Since t) (runOf u s p turns k) fun _ _ => True := by
  cases k with
  | cpu =>
    have hslice : (0 : ℚ) ≤ min 600 (max 45 ((p.duration : ℚ) / Cpu.cpuStressors.length)) :=
      le_min (by norm_num) (le_trans (by norm_num) (le_max_left _ _))
    have hdiv : (p.deadline - t) / pause ≤ duration / pause :=
      div_le_div_of_nonneg_right hp h.takes.le
    exact halts_cpuTurns (min_le_left _ _) hslice h h.pos (by linarith [h.starts]) _ _
  | memory => exact halts_memoryRun hp hd hdur h
  | ycruncher => exact halts_ycruncherRun hp h
  | mprime => exact halts_mprimeRun hp h
  | transient => exact halts_transientRun hp h
  | idle => exact halts_idleRun hp h
  | combined => exact halts_combinedRun hp h

/-- On a machine whose clock goes on, every phase ends, whatever its children do: no loop takes
more turns than its duration allows. -/
theorem runPhase_ends (u : Tables) (s : Setup) (logs : String) (k : Kind) {duration : Int}
    {pause : ℚ} {turns : Nat} (hd : 0 ≤ duration) (h : Enough pause duration turns)
    (w : Course) (env : Env Op.Answer)
    (hgiven : (clockwork pause).Given w ((runPhase u s logs k duration turns).exec env).1) :
    ((runPhase u s logs k duration turns).exec env).2 ≠ .cut := by
  have hrun : Halts pause (Since w.now) (runPhase u s logs k duration turns) fun _ _ => True := by
    refine halts_monotonic_bind (stays_since _) (fun _ => id) fun r hr =>
      halts_mono (halts_runOf (t := r) u s k ?_ hd le_rfl h) (fun _ hw => hw.2) fun _ _ => id
    show r + (duration : ℚ) - r ≤ duration
    linarith
  obtain ⟨hend, -⟩ := triple_sound hrun (le_refl w.now) env hgiven
  intro hcut
  rw [hcut] at hend
  exact hend

/-- A machine on which every command runs and no child ends, whatever signal it is sent. -/
def hanging (w : Course) : (op : Op) → op.Answer
  | .openLog _ => some 0
  | .appendLog _ _ => true
  | .closeLog _ => ()
  | .readLog _ => some []
  | .spawn _ _ => some (⌊w.now⌋.toNat + 1)
  | .poll pid => if w.exited pid then some 0 else none
  | .killpg _ _ => ()
  | .reap _ => none
  | .monotonic => w.now
  | .sleep _ => ()
  | .nowIso => ""
  | .aborted => w.aborted
  | .add _ => ()
  | .pauseScans => ()
  | .resumeScans => ()
  | .blockDisks _ => some [⟨"sda", "/dev/sda"⟩]
  | .choose n => Fin.last n
  | .uniform low _ => low
  | .cpuCount => (1 : Nat)
  | .affinity => [0]
  | .which _ => true
  | .executable _ => true
  | .readFile _ => "MemTotal: 4000000 kB\nMemAvailable: 3900000 kB"
  | .readText _ => none
  | .writeFile _ _ => true
  | .writeJson _ _ => true
  | .writeResult _ _ _ _ => true
  | .copyFile _ _ => true
  | .unlink _ => true
  | .makedirs _ => true
  | .clear _ => ()
  | .makeTemp => some "/tmp/work"
  | .removeTemp _ => true
  | .idleStates => []

theorem gives_hanging (w : Course) (op : Op) : w.Gives op (hanging w op) := by
  cases op with
  | monotonic => exact le_refl w.now
  | poll pid =>
    intro hexited
    show (if w.exited pid = true then some (0 : Int) else none) ≠ none
    rw [if_pos hexited]
    exact Option.some_ne_none 0
  | aborted => exact id
  | uniform low high => exact le_refl low
  | _ => trivial

/-- The children that a run kills. -/
def killed (h : History) : List Nat :=
  h.filterMap fun e => match e.1 with
    | .killpg pid .kill => some pid
    | _ => none

/-- Prime95 goes on beyond its deadline and does not heed the signals that ask it to end. -/
theorem runPhase_ends_hanging :
    let run := (runPhase ⟨Kernel.ascii, DigitTable.ascii⟩ {} "/logs" .mprime 5 4000).exec
      ((clockwork 1).answers hanging ⟨0, false, fun _ => false⟩)
    killed run.1 = [1] ∧ run.2 ≠ .cut :=
  ⟨by decide +kernel, runPhase_ends _ _ _ _ (by decide) ⟨by norm_num, by norm_num, by norm_num⟩ _ _
    (given_answers gives_hanging _ _)⟩

end Workload
end PcCheck
