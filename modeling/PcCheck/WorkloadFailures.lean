/-
No failed workload goes unnoticed.

A phase that returns has seen each of its children exit with code 0, or it has added a warning or
a failure after it looked at the child and did not see that, or it has seen an abort.  Prime95 is
no such child: it is stopped at the end of its phase, and is judged by its output alone.
-/
import PcCheck.WorkloadRuns

namespace PcCheck
namespace Workload

open Script

/-! ## What a phase has to account for -/

/-- A child as the last look has shown it. -/
inductive Account where
  | nothing
  /-- It has not been looked at since its start. -/
  | started
  | running
  | failed (rc : Int)
  /-- It has exited with code 0, or what was seen of it has been told. -/
  | settled
  deriving DecidableEq, Repr

namespace Account

def Open (a : Account) : Prop := a ≠ .nothing ∧ a ≠ .settled

/-- After a look at the child. -/
def looked : Option Int → Account → Account
  | _, .nothing => .nothing
  | _, .settled => .settled
  | none, _ => .running
  | some rc, _ => if rc = 0 then .settled else .failed rc

/-- After a warning or a failure. -/
def told : Account → Account
  | .running => .settled
  | .failed _ => .settled
  | a => a

end Account

structure Watch where
  account : Nat → Account
  aborted : Bool

/-- The exit code of Prime95 does not count. -/
def counts (cmd : List String) : Bool := decide (cmd.head? ≠ some mprime)

namespace Watch

def set (w : Watch) (pid : Nat) (a : Account) : Watch :=
  { w with account := fun q => if q = pid then a else w.account q }

theorem account_set_self (w : Watch) (pid : Nat) (a : Account) : (w.set pid a).account pid = a :=
  if_pos rfl

theorem account_set_ne (w : Watch) {pid q : Nat} (h : q ≠ pid) (a : Account) :
    (w.set pid a).account q = w.account q := if_neg h

/-- The number of a child that has not been reaped is not given again. -/
def spawned (w : Watch) (cmd : List String) : Option Nat → Watch
  | some pid => w.set pid (if counts cmd then .started else .nothing)
  | none => w

def looked (w : Watch) (pid : Nat) (rc : Option Int) : Watch :=
  w.set pid ((w.account pid).looked rc)

def told (w : Watch) (c : AddCall) : Watch :=
  if c.severity = .info then w else { w with account := fun q => (w.account q).told }

def next (w : Watch) : (op : Op) → op.Answer → Watch
  | .spawn cmd _, pid => w.spawned cmd pid
  | .poll pid, rc => w.looked pid rc
  | .reap pid, rc => w.looked pid rc
  | .add c, _ => w.told c
  | .aborted, b => { w with aborted := w.aborted || b }
  | _, _ => w

end Watch

/-- The machine gives any answer. -/
def watching : Script.Machine Op.Answer Watch where
  next := Watch.next
  Gives _ _ _ := True
  Allows _ _ := True

/-- What is still to be accounted for is among these children. -/
def Clear (A : Set Nat) (w : Watch) : Prop :=
  w.aborted = true ∨ ∀ q, (w.account q).Open → q ∈ A

/-- One child besides, which has been looked at. -/
def Looked (A : Set Nat) (pid : Nat) (w : Watch) : Prop :=
  w.aborted = true ∨ ((∀ q, (w.account q).Open → q ∈ insert pid A) ∧ w.account pid ≠ .started)

/-- What is known of a child with this exit code. -/
def Judged (A : Set Nat) (pid : Nat) (rc : Option Int) (w : Watch) : Prop :=
  Looked A pid w ∧ (rc = some 0 → Clear A w)

section States

variable {A : Set Nat} {pid : Nat} {w : Watch}

theorem Clear.mono {B : Set Nat} (h : Clear A w) (hAB : A ⊆ B) : Clear B w :=
  h.imp_right fun h q hq => hAB (h q hq)

theorem open_of_looked {a : Account} {rc : Option Int} (h : (a.looked rc).Open) : a.Open := by
  cases a with
  | nothing => exact h
  | settled => exact h
  | _ => exact ⟨nofun, nofun⟩

theorem open_of_told {a : Account} (h : a.told.Open) : a = .started := by
  cases a with
  | nothing => exact absurd rfl h.1
  | started => rfl
  | _ => exact absurd rfl h.2

theorem looked_ne_started (a : Account) (rc : Option Int) : a.looked rc ≠ .started := by
  have hexit : ∀ code : Int,
      (if code = 0 then Account.settled else .failed code) ≠ .started := by
    intro code
    split
    · exact Account.noConfusion
    · exact Account.noConfusion
  cases a <;> cases rc <;> first | exact hexit _ | exact Account.noConfusion

theorem not_open_looked_zero (a : Account) : ¬ (a.looked (some 0)).Open := by
  cases a with
  | nothing => exact fun h => h.1 rfl
  | _ => exact fun h => h.2 rfl

theorem account_looked (w : Watch) (pid : Nat) (rc : Option Int) (q : Nat) :
    (w.looked pid rc).account q =
      if q = pid then (w.account q).looked rc else w.account q := by
  by_cases heq : q = pid
  · subst heq
    rw [if_pos rfl]
    exact Watch.account_set_self w q _
  · rw [if_neg heq]
    exact Watch.account_set_ne w heq _

theorem open_of_looked_at {q : Nat} {rc : Option Int} (h : ((w.looked pid rc).account q).Open) :
    (w.account q).Open := by
  rw [account_looked] at h
  split at h
  · exact open_of_looked h
  · exact h

theorem Clear.looked (h : Clear A w) (rc : Option Int) : Clear A (w.looked pid rc) :=
  h.imp_right fun h q hq => h q (open_of_looked_at hq)

/-- A look at a child that is to be accounted for. -/
theorem Clear.judged (h : Clear (insert pid A) w) (rc : Option Int) :
    Judged A pid rc (w.looked pid rc) := by
  rcases h with haborted | h
  · exact ⟨.inl haborted, fun _ => .inl haborted⟩
  refine ⟨.inr ⟨fun q hq => h q (open_of_looked_at hq), ?_⟩, fun hrc => .inr fun q hq => ?_⟩
  · rw [account_looked, if_pos rfl]
    exact looked_ne_started _ rc
  · refine (h q (open_of_looked_at hq)).resolve_left fun heq => ?_
    rw [account_looked, if_pos heq, hrc] at hq
    exact not_open_looked_zero _ hq

theorem Looked.clear (h : Looked A pid w) : Clear (insert pid A) w := h.imp_right fun h => h.1

theorem Looked.looked (h : Looked A pid w) {q : Nat} (rc : Option Int) :
    Looked A pid (w.looked q rc) := by
  refine h.imp_right fun h => ⟨fun r hr => h.1 r (open_of_looked_at hr), ?_⟩
  rw [account_looked]
  split
  · exact looked_ne_started _ rc
  · exact h.2

theorem told_ne_started {a : Account} (h : a ≠ .started) : a.told ≠ .started := by
  cases a with
  | started => exact absurd rfl h
  | _ => nofun

theorem told_of_info {c : AddCall} (hc : c.severity = .info) : w.told c = w := if_pos hc

theorem told_of_ne_info {c : AddCall} (hc : c.severity ≠ .info) :
    w.told c = { w with account := fun q => (w.account q).told } := if_neg hc

theorem aborted_told (w : Watch) (c : AddCall) : (w.told c).aborted = w.aborted := by
  unfold Watch.told
  split
  · rfl
  · rfl

theorem Clear.told (h : Clear A w) (c : AddCall) : Clear A (w.told c) := by
  by_cases hc : c.severity = .info
  · rwa [told_of_info hc]
  · rw [told_of_ne_info hc]
    refine h.imp_right fun h q hq => h q ?_
    rw [open_of_told hq]
    exact ⟨nofun, nofun⟩

theorem Looked.told (h : Looked A pid w) (c : AddCall) : Looked A pid (w.told c) := by
  by_cases hc : c.severity = .info
  · rwa [told_of_info hc]
  · have hclear := h.clear.told c
    rw [told_of_ne_info hc] at hclear ⊢
    rcases h with haborted | h
    · exact .inl haborted
    · exact hclear.imp_right fun hclear => ⟨hclear, told_ne_started h.2⟩

/-- A child that has been looked at is accounted for by a warning or a failure. -/
theorem Looked.settled (h : Looked A pid w) {c : AddCall} (hc : c.severity ≠ .info) :
    Clear A (w.told c) := by
  rw [told_of_ne_info hc]
  refine h.imp_right fun h q hq => ?_
  have hstarted := open_of_told hq
  refine (h.1 q ?_).resolve_left fun heq => h.2 (heq ▸ hstarted)
  rw [hstarted]
  exact ⟨nofun, nofun⟩

end States

/-! ## The scripts -/

/-- A condition that only a start can end. -/
def Lasting (P : Watch → Prop) : Prop :=
  ∀ w op (a : op.Answer), plain op = true → P w → P (w.next op a)

/-- What only a start, a look, a warning or an abort can bear on. -/
theorem lasting_of {P : Watch → Prop} (hlooked : ∀ w pid rc, P w → P (w.looked pid rc))
    (htold : ∀ w c, P w → P (w.told c))
    (haborted : ∀ w b, P w → P { w with aborted := w.aborted || b }) : Lasting P := by
  intro w op a hop h
  cases op with
  | spawn cmd cwd => cases hop
  | poll pid => exact hlooked w pid a h
  | reap pid => exact hlooked w pid a h
  | add c => exact htold w c h
  | aborted => exact haborted w a h
  | _ => exact h

theorem lasting_aborted : Lasting fun w => w.aborted = true := by
  refine lasting_of (fun _ _ _ => id) (fun w c h => ?_)
    fun _ _ h => (Bool.or_eq_true _ _).mpr (.inl h)
  rwa [aborted_told]

theorem lasting_clear (A : Set Nat) : Lasting (Clear A) :=
  lasting_of (fun _ _ rc h => h.looked rc) (fun _ c h => h.told c)
    fun _ _ h => h.imp_left fun h => (Bool.or_eq_true _ _).mpr (.inl h)

theorem lasting_looked (A : Set Nat) (pid : Nat) : Lasting (Looked A pid) :=
  lasting_of (fun _ _ rc h => h.looked rc) (fun _ c h => h.told c)
    fun _ _ h => h.imp_left fun h => (Bool.or_eq_true _ _).mpr (.inl h)

theorem lasting_judged (A : Set Nat) (pid : Nat) (rc : Option Int) : Lasting (Judged A pid rc) :=
  fun w op a hop h => ⟨lasting_looked A pid w op a hop h.1,
    fun hrc => lasting_clear A w op a hop (h.2 hrc)⟩

section Only

variable {c : Child} {p : Phase}

abbrev Plain {α : Type} (s : Program α) : Prop := s.Only fun op => plain op = true

theorem plain_still {α : Type} {s : Program α} {b : Bool} (hs : Still s b) : Plain s :=
  (hs.mono fun _ => plain_of_still).only

theorem plain_poll : Plain c.poll := only_perform rfl

theorem plain_sendSignal (sig : Signal) : Plain (c.sendSignal sig) := only_perform rfl

theorem plain_await (until_ : ℚ) (turns : Nat) : Plain (c.await until_ turns) := by
  induction turns with
  | zero => exact only_cut
  | succ turns ih =>
    refine only_bind plain_poll fun rc => ?_
    cases rc with
    | some rc => exact only_pure _
    | none =>
      exact only_bind (plain_still (b := false) still_monotonic) fun now =>
        only_ite (only_bind (only_perform rfl) fun _ => ih) (only_pure _)

theorem plain_finish : Plain c.finish := by
  refine only_bind plain_poll fun rc => ?_
  cases rc with
  | some rc => exact plain_still (b := false) still_close
  | none =>
    exact only_bind (plain_sendSignal .kill) fun _ =>
      only_bind (only_perform rfl) fun _ => plain_still (b := false) still_close

theorem plain_stop (grace : ℚ) (sig : Signal) (turns : Nat) :
    Plain (c.stop grace sig turns) := by
  refine only_bind plain_poll fun rc => ?_
  cases rc with
  | some rc => exact plain_still (b := false) still_close
  | none =>
    exact only_bind (plain_sendSignal .cont) fun _ => only_bind (plain_sendSignal sig) fun _ =>
      only_bind (plain_still (b := false) still_monotonic) fun now =>
        only_bind (plain_await _ turns) fun _ => plain_finish

theorem plain_wait (deadline : ℚ) (heeds : Bool) (turns : Nat) :
    Plain (c.wait deadline heeds turns) := by
  induction turns with
  | zero => exact only_cut
  | succ turns ih =>
    refine only_bind plain_poll fun rc => ?_
    cases rc with
    | some rc => exact only_pure _
    | none =>
      exact only_bind (plain_still (b := false) still_monotonic) fun now =>
        only_ite (only_pure _) (only_bind (plain_still (b := false) (still_heeded heeds))
          fun stop : Bool => only_ite (only_pure _) (only_bind (only_perform rfl) fun _ => ih))

theorem plain_dozing (until_ : ℚ) (turns : Nat) : Plain (dozing c until_ turns) := by
  induction turns with
  | zero => exact only_cut
  | succ turns ih =>
    refine only_bind (plain_still (b := false) still_monotonic) fun now =>
      only_ite (only_bind plain_poll fun rc => ?_) (only_pure _)
    cases rc with
    | some rc => exact only_pure _
    | none =>
      exact only_bind (plain_still (b := false) still_aborted) fun stop : Bool =>
        only_ite (only_pure _) (only_bind (plain_still (b := false) still_monotonic) fun now =>
          only_bind (only_perform rfl) fun _ => ih)

theorem plain_doze (seconds : ℚ) (turns : Nat) : Plain (doze p c seconds turns) :=
  only_bind (plain_still (b := false) still_monotonic) fun _ => plain_dozing _ turns

theorem plain_loadSteps (pattern : Pattern) (blockEnd : ℚ) (turns n steps : Nat) :
    Plain (loadSteps p c pattern blockEnd turns n steps) := by
  induction n generalizing steps with
  | zero => exact only_cut
  | succ n ih =>
    refine only_bind (plain_still (b := false) still_monotonic) fun now =>
      only_ite (only_bind plain_poll fun rc => ?_) (only_pure _)
    cases rc with
    | some rc => exact only_pure _
    | none =>
      refine only_bind (plain_still (b := false) still_aborted) fun stop : Bool =>
        only_ite (only_pure _) (only_bind (plain_sendSignal .cont) fun _ => ?_)
      refine only_bind (only_perform rfl) fun on => only_bind (plain_doze on turns) fun _ =>
        only_bind (plain_still (b := false) still_monotonic) fun now => only_ite (only_pure _) ?_
      exact only_bind (plain_sendSignal .stop) fun _ => only_bind (only_perform rfl) fun off =>
        only_bind (plain_doze off turns) fun _ => ih _

theorem plain_patterns (turns n steps : Nat) : Plain (patterns p c turns n steps) := by
  induction n generalizing steps with
  | zero => exact only_cut
  | succ n ih =>
    refine only_bind plain_poll fun rc => ?_
    cases rc with
    | some rc => exact only_pure _
    | none =>
      refine only_bind (plain_still (b := false) still_aborted) fun stop : Bool =>
        only_ite (only_pure _) (only_bind (plain_still (b := false) still_remaining) fun left =>
          only_ite ?_ (only_pure _))
      exact only_bind (plain_still (b := false) still_choosePattern) fun pattern =>
        only_bind (plain_still (b := false) still_monotonic) fun now =>
          only_bind (plain_loadSteps pattern _ turns turns steps) fun steps => ih steps

end Only

/-! ## The children -/

section Rules

variable {P : Watch → Prop} {α β : Type} {R : β → Watch → Prop}

/-- What has been seen once the script has returned. -/
abbrev Sees (P : Watch → Prop) (s : Program α) (R : α → Watch → Prop) : Prop :=
  Triple watching P s ⟨R, fun _ => True, fun _ => True⟩

theorem sees_bind {s : Program α} {f : α → Program β} {Q : α → Watch → Prop} (hs : Sees P s Q)
    (hf : ∀ a, Sees (Q a) (f a) R) : Sees P (s >>= f) R := triple_bind hs hf

theorem sees_pure {b : β} (h : ∀ w, P w → R b w) : Sees P (pure b) R := triple_pure h

theorem sees_raise : Sees P (.raise : Program β) R := triple_raise fun _ _ => trivial

theorem sees_cut : Sees P (.cut : Program β) R := triple_cut fun _ _ => trivial

theorem sees_pre {P' : Watch → Prop} {s : Program β} (hs : Sees P s R) (hP : ∀ w, P' w → P w) :
    Sees P' s R := triple_pre hs hP

theorem sees_true {s : Program β} : Sees P s fun _ _ => True := by
  refine fun w _ => wp_mono wp_true (fun _ _ _ _ => trivial) fun t r _ _ => ?_
  cases r <;> trivial

theorem sees_plain (hP : Lasting P) {s : Program α} (hs : Plain s) : Sees P s fun _ => P := by
  have hkeeps : ∀ op, plain op = true → watching.Keeps P op :=
    fun op hop => ⟨fun _ _ => trivial, fun w a hw _ => hP w op a hop hw⟩
  exact triple_mono (triple_of_only ⟨wp_mono hs.wp (fun _ => hkeeps) fun _ _ => id⟩) (fun _ => id)
    (fun _ _ => id) (fun _ _ => trivial) fun _ _ => trivial

theorem sees_plain_bind (hP : Lasting P) {s : Program α} {f : α → Program β} (hs : Plain s)
    (hf : ∀ a, Sees P (f a) R) : Sees P (s >>= f) R := sees_bind (sees_plain hP hs) hf

theorem sees_still (hP : Lasting P) {s : Program α} {b : Bool} (hs : Still s b) :
    Sees P s fun _ => P := sees_plain hP (plain_still hs)

theorem sees_still_bind (hP : Lasting P) {s : Program α} {b : Bool} {f : α → Program β}
    (hs : Still s b) (hf : ∀ a, Sees P (f a) R) : Sees P (s >>= f) R :=
  sees_bind (sees_still hP hs) hf

theorem sees_op_bind (hP : Lasting P) {op : Op} {f : op.Answer → Program β}
    (hop : plain op = true) (hf : ∀ a, Sees P (f a) R) : Sees P (perform op >>= f) R :=
  sees_plain_bind hP (only_perform hop) hf

theorem sees_finally {s : Program α} {fin : Program Unit} {Q R : α → Watch → Prop}
    (hs : Sees P s Q) (hfin : ∀ a, Sees (Q a) fin fun _ => R a) : Sees P (s.tryFinally fin) R :=
  triple_finally hs hfin sees_true

theorem sees_ofExcept_bind {ε : Type} {r : Except ε α} {f : α → Program β}
    (hf : ∀ a, r = .ok a → Sees P (f a) R) : Sees P (ofExcept r >>= f) R := by
  cases r with
  | error e => exact sees_raise (R := R)
  | ok a => exact hf a rfl

theorem sees_aborted (hP : Lasting P) :
    Sees P aborted fun stop w => P w ∧ (stop = true → w.aborted = true) :=
  triple_perform (fun _ _ => trivial) fun w stop hw _ =>
    ⟨hP w .aborted stop rfl hw, fun h => (Bool.or_eq_true _ _).mpr (.inr h)⟩

/-- Where an abort is seen, nothing else is asked for. -/
theorem sees_aborted_bind (hP : Lasting P) {s t : Program β}
    (hs : Sees (fun w => w.aborted = true) s R) (ht : Sees P t R) :
    Sees P (aborted >>= fun stop : Bool => if stop = true then s else t) R :=
  sees_bind (sees_aborted hP) fun _ => triple_ite (fun h => sees_pre hs fun _ hw => hw.2 h)
    fun _ => sees_pre ht fun _ hw => hw.1

end Rules

section Children

variable {A : Set Nat} {c : Child} {pid : Nat} {β : Type} {R : β → Watch → Prop}

theorem sees_add_call {call : AddCall} (hcall : call.severity ≠ .info) :
    Sees (Looked A pid) (perform (.add call)) fun _ => Clear A :=
  triple_perform (fun _ _ => trivial) fun _ _ hw _ => hw.settled hcall

theorem sees_add {call : String → AddCall} (hcall : ∀ now, (call now).severity ≠ .info) :
    Sees (Looked A pid) (add call) fun _ => Clear A :=
  sees_op_bind (lasting_looked A pid) rfl fun now => sees_add_call (hcall now)

theorem sees_addEach {calls : List AddCall} (hcalls : ∃ call ∈ calls, call.severity ≠ .info) :
    Sees (Looked A pid) (addEach calls) fun _ => Clear A := by
  induction calls with
  | nil =>
    obtain ⟨call, hmem, -⟩ := hcalls
    cases hmem
  | cons first rest ih =>
    obtain ⟨call, hmem, hinfo⟩ := hcalls
    rcases List.mem_cons.mp hmem with rfl | hmem
    · exact sees_bind (sees_add_call hinfo) fun _ =>
        sees_still (b := false) (lasting_clear A) (still_addEach rest)
    · exact sees_op_bind (lasting_looked A pid) rfl fun _ => ih ⟨call, hmem, hinfo⟩

theorem sees_addAll {calls : String → List AddCall}
    (hcalls : ∀ now, ∃ call ∈ calls now, call.severity ≠ .info) :
    Sees (Looked A pid) (addAll calls) fun _ => Clear A :=
  sees_op_bind (lasting_looked A pid) rfl fun now => sees_addEach (hcalls now)

theorem sees_poll : Sees (Clear (insert c.pid A)) c.poll (Judged A c.pid) :=
  triple_perform (fun _ _ => trivial) fun _ rc hw _ => hw.judged rc

theorem sees_wait (deadline : ℚ) (heeds : Bool) (turns : Nat) :
    Sees (Clear (insert c.pid A)) (c.wait deadline heeds turns) (Judged A c.pid) := by
  induction turns with
  | zero => exact sees_cut
  | succ turns ih =>
    refine sees_bind sees_poll fun rc => ?_
    cases rc with
    | some rc => exact sees_pure fun _ => id
    | none =>
      have hjudged := lasting_judged A c.pid none
      exact sees_still_bind (b := false) hjudged still_monotonic fun now =>
        triple_ite (fun _ => sees_pure fun _ => id) fun _ =>
          sees_still_bind (b := false) hjudged (still_heeded heeds) fun stop : Bool =>
            triple_ite (fun _ => sees_pure fun _ => id) fun _ =>
              sees_op_bind hjudged rfl fun _ => sees_pre ih fun _ hw => hw.1.clear

theorem sees_stopHung {call : String → AddCall} (hcall : ∀ now, (call now).severity ≠ .info)
    (turns : Nat) : Sees (Looked A c.pid) (stopHung c call turns) fun _ => Clear A := by
  refine sees_bind (sees_aborted (lasting_looked A c.pid)) fun stop : Bool => ?_
  have hlasting : Lasting fun w => Looked A c.pid w ∧ (stop = true → w.aborted = true) :=
    fun w op a hop h => ⟨lasting_looked A c.pid w op a hop h.1,
      fun hstop => lasting_aborted w op a hop (h.2 hstop)⟩
  exact sees_plain_bind hlasting (plain_stop 45 .term turns) fun _ =>
    triple_ite (fun hstop => sees_pure fun _ hw => .inl (hw.2 hstop))
      fun _ => sees_pre (sees_add hcall) fun _ hw => hw.1

theorem clear_spawned {w : Watch} (h : Clear A w) (cmd : List String) (pid : Nat) :
    Clear (insert pid A) (w.spawned cmd (some pid)) := by
  refine h.imp_right fun h q hq => ?_
  by_cases heq : q = pid
  · exact .inl heq
  · change ((w.set pid _).account q).Open at hq
    rw [Watch.account_set_ne w heq] at hq
    exact .inr (h q hq)

theorem clear_spawned_uncounted {w : Watch} (h : Clear A w) {cmd : List String}
    (hcmd : counts cmd = false) (pid : Nat) : Clear A (w.spawned cmd (some pid)) := by
  have hspawned : w.spawned cmd (some pid) = w.set pid .nothing := by
    show w.set pid (if counts cmd then .started else .nothing) = _
    rw [hcmd]
    rfl
  rw [hspawned]
  refine h.imp_right fun h q hq => ?_
  by_cases heq : q = pid
  · rw [heq, Watch.account_set_self] at hq
    exact absurd rfl hq.1
  · rw [Watch.account_set_ne w heq] at hq
    exact h q hq

theorem sees_spawn {P : Nat → Watch → Prop} {cmd : List String} {logfile cwd : String}
    (hP : ∀ w pid, Clear A w → P pid (w.spawned cmd (some pid))) :
    Sees (Clear A) (spawn cmd logfile cwd) P := by
  refine sees_bind (Q := fun pid w => ∀ q, pid = some q → P q w) (triple_perform
    (fun _ _ => trivial) fun w pid hw _ q hq => ?_) fun pid => ?_
  · obtain rfl : pid = some q := hq
    exact hP w q hw
  · cases pid with
    | some pid => exact sees_pure fun w hw => hw pid rfl
    | none =>
      exact sees_bind sees_true fun _ => sees_raise

theorem sees_start {P : Nat → Watch → Prop} {cmd : List String} {logfile cwd : String}
    (hlasting : ∀ pid, Lasting (P pid))
    (hP : ∀ w pid, Clear A w → P pid (w.spawned cmd (some pid))) :
    Sees (Clear A) (start cmd logfile cwd) fun c => P c.pid := by
  have hclear := lasting_clear A
  refine sees_op_bind hclear rfl fun size => sees_still_bind hclear (still_get size)
    fun size => sees_op_bind hclear rfl fun now => sees_op_bind hclear rfl fun ok =>
      sees_still_bind hclear (still_orRaise ok) fun _ => sees_bind (sees_spawn hP) fun pid => ?_
  exact sees_still_bind (b := false) (hlasting pid) still_monotonic fun now => sees_pure fun _ => id

/-- A child is started whose end is to be seen. -/
theorem sees_start_bind {cmd : List String} {logfile cwd : String} {f : Child → Program β}
    (hf : ∀ c : Child, Sees (Clear (insert c.pid A)) (f c) R) :
    Sees (Clear A) (start cmd logfile cwd >>= f) R :=
  sees_bind (sees_start (fun pid => lasting_clear (insert pid A))
    fun _ pid hw => clear_spawned hw cmd pid) hf

end Children

/-! ## The verdicts -/

theorem checkStressng_tells {phase label output : String} {rc : Int} (hrc : rc ≠ 0)
    (now : String) : ∃ c ∈ checkStressng phase label rc output now, c.severity ≠ .info := by
  unfold checkStressng
  dsimp only
  split
  · exact ⟨_, List.mem_singleton_self _, nofun⟩
  · split
    · exact ⟨_, List.mem_singleton_self _, nofun⟩
    · rw [if_pos (.inl hrc)]
      exact ⟨_, List.mem_singleton_self _, nofun⟩

theorem checkStressapptest_tells {t : DigitTable} {phase output now : String} {rc : Int}
    {calls : List AddCall} (hrc : rc ≠ 0)
    (h : checkStressapptest t phase rc output now = .ok calls) :
    ∃ c ∈ calls, c.severity ≠ .info := by
  obtain ⟨found, -, hcalls⟩ := bind_eq_ok.mp h
  dsimp only at hcalls
  split at hcalls
  · obtain rfl := Except.ok.inj hcalls
    exact ⟨_, List.mem_singleton_self _, nofun⟩
  · rw [if_pos (.inl hrc)] at hcalls
    obtain rfl := Except.ok.inj hcalls
    exact ⟨_, List.mem_singleton_self _, nofun⟩

theorem checkCode_tells {phase label output : String} {rc : Option Int} (hrc : rc ≠ some 0)
    (now : String) : ∃ c ∈ checkCode phase label rc output now, c.severity ≠ .info := by
  cases rc with
  | some rc => exact checkStressng_tells (fun h => hrc (congrArg some h)) now
  | none =>
    unfold checkCode
    dsimp only
    split
    · exact ⟨_, List.mem_singleton_self _, nofun⟩
    · exact ⟨_, List.mem_singleton_self _, nofun⟩

theorem checkResult_tells {e : YCruncher.Evidence} {a : YCruncher.Trial} (hrc : a.rc ≠ some 0)
    (h : (YCruncher.checkResult e a).2 = none) :
    ∃ c ∈ (YCruncher.checkResult e a).1, c.severity ≠ .info := by
  cases hgaps : YCruncher.coverageGaps e a with
  | error x =>
    unfold YCruncher.checkResult at h
    rw [hgaps] at h
    cases h
  | ok gaps =>
    have hsome : gaps ≠ [] := fun hnil => hrc ((YCruncher.coverageGaps_eq_nil hgaps).mp hnil).1
    rw [YCruncher.checkResult_of_ok hgaps]
    refine ⟨YCruncher.incompleteCall gaps a, List.mem_append_right _ ?_, nofun⟩
    rw [if_pos (.inl hsome)]
    exact List.mem_singleton_self _

/-! ## The workloads -/

section Workloads

variable {A : Set Nat} {u : Tables} {p : Phase} {α : Type}

/-- What is said of a child that has been waited for. -/
theorem sees_verdict {pid : Nat} {rc : Option Int} {s : Program α} {b : Bool} (hs : Still s b)
    (htells : rc ≠ some 0 → Sees (Looked A pid) s fun _ => Clear A) :
    Sees (Judged A pid rc) s fun _ => Clear A := by
  by_cases hrc : rc = some 0
  · exact sees_pre (sees_still (lasting_clear A) hs) fun _ hw => hw.2 hrc
  · exact sees_pre (htells hrc) fun _ hw => hw.1

theorem sees_runStressng (label : String) (args : List String) (seconds : ℚ) (turns : Nat) :
    Sees (Clear A) (runStressng p label args seconds turns) fun _ => Clear A := by
  refine sees_start_bind fun c => sees_still_bind (b := false) (lasting_clear _) still_monotonic
    fun now => sees_bind (sees_wait _ true turns) fun rc => ?_
  cases rc with
  | none =>
    refine sees_bind (sees_pre (sees_stopHung ?_ turns) fun _ hw => hw.1)
      fun _ => sees_pure fun _ => id
    exact fun _ => nofun
  | some rc =>
    refine sees_verdict (b := true) (calls_bind still_close fun _ =>
      calls_bind (still_outputTail _) fun _ => calls_bind (still_addAll _) fun _ =>
        calls_bind (still_reportShort _ _ _) fun _ => calls_pure _) fun hrc => ?_
    refine sees_still_bind (b := false) (lasting_looked A c.pid) still_close fun _ =>
      sees_still_bind (b := false) (lasting_looked A c.pid) (still_outputTail _) fun output =>
        sees_bind (sees_addAll (checkStressng_tells fun h => hrc (congrArg some h))) fun _ => ?_
    exact sees_still (b := true) (lasting_clear A)
      (calls_bind (still_reportShort _ _ _) fun _ => calls_pure _)

theorem sees_cpuTurns (slice : ℚ) (turns n : Nat) (stressors : List Cpu.Stressor) (i : Nat) :
    Sees (Clear A) (cpuTurns p slice turns n stressors i) fun _ => Clear A := by
  have hclear := lasting_clear A
  induction n generalizing stressors i with
  | zero => exact sees_cut
  | succ n ih =>
    refine sees_still_bind (b := false) hclear still_remaining fun left => triple_ite
      (fun _ => sees_aborted_bind hclear (sees_pure fun _ => .inl) ?_)
        fun _ => sees_pure fun _ => id
    cases Cpu.current stressors i with
    | none => exact sees_still (b := false) hclear (still_add _)
    | some s =>
      exact sees_still_bind (b := false) hclear still_remaining fun left =>
        sees_bind (sees_runStressng s.label s.args _ turns) fun rc => ih _ _

theorem sees_runStressapptest (label : String) (seconds : ℚ) (mem : Int) (extra : List String)
    (turns : Nat) :
    Sees (Clear A) (runStressapptest u p label seconds mem extra turns) fun _ => Clear A := by
  refine sees_start_bind fun c => sees_still_bind (b := false) (lasting_clear _) still_monotonic
    fun now => sees_bind (sees_wait _ true turns) fun rc => ?_
  cases rc with
  | none =>
    refine sees_pre (sees_stopHung ?_ turns) fun _ hw => hw.1
    exact fun _ => nofun
  | some rc =>
    refine sees_verdict (b := true) (calls_bind still_close fun _ =>
      calls_bind (still_outputTail _) fun _ => calls_bind (calls_perform rfl) fun _ =>
        calls_bind (still_ofExcept _) fun _ => calls_bind (still_addEach _) fun _ =>
          still_reportShort _ _ _) fun hrc => ?_
    refine sees_still_bind (b := false) (lasting_looked A c.pid) still_close fun _ =>
      sees_still_bind (b := false) (lasting_looked A c.pid) (still_outputTail _) fun output =>
        sees_op_bind (lasting_looked A c.pid) rfl fun now =>
          sees_ofExcept_bind fun calls hcheck => ?_
    exact sees_bind (sees_addEach (checkStressapptest_tells (fun h => hrc (congrArg some h))
      hcheck)) fun _ => sees_still (lasting_clear A) (still_reportShort _ _ _)

theorem sees_memoryRun (turns : Nat) : Sees (Clear A) (memoryRun u p turns) fun _ => Clear A := by
  have hclear := lasting_clear A
  refine sees_still_bind hclear (still_ofExcept _) fun seconds => sees_bind (Q := fun _ => Clear A)
    ?_ fun _ => sees_aborted_bind hclear (sees_pure fun _ => .inl) ?_
  · refine sees_op_bind hclear rfl fun present : Bool => triple_ite (fun _ => ?_)
      fun _ => sees_still (b := false) hclear (still_add _)
    exact sees_still_bind hclear (still_memBudgetMib _) fun mem =>
      sees_runStressapptest _ _ _ _ turns
  · exact sees_still_bind hclear (still_memBudgetMib _) fun budget =>
      sees_op_bind hclear rfl fun cpus => sees_still_bind (b := false) hclear still_remaining
        fun left => sees_bind (sees_runStressng _ _ _ turns) fun _ => sees_pure fun _ => id

theorem sees_ycruncherWork (seconds : Int) (config workdir : String) (turns : Nat) :
    Sees (Clear A) (ycruncherWork u p seconds config workdir turns)
      fun r w => ∃ pid, Judged A pid r.1 w := by
  refine sees_start_bind fun c => sees_bind (Q := Judged A c.pid) (sees_finally
    (Q := Judged A c.pid) ?_ fun rc => sees_plain (lasting_judged A c.pid rc)
      (plain_stop 10 .term turns)) fun rc => ?_
  · exact sees_still_bind (b := false) (lasting_clear _) still_monotonic fun now =>
      sees_wait _ true turns
  · have hjudged := lasting_judged A c.pid rc
    exact sees_still_bind (b := false) hjudged still_monotonic fun now =>
      sees_op_bind hjudged rfl fun file => sees_still_bind hjudged (still_get file)
        fun file => sees_still_bind hjudged (still_ofExcept _) fun evidence =>
          sees_pure fun w hw => ⟨c.pid, hw⟩

theorem sees_ycruncherJudge {e : YCruncher.Evidence} {a : YCruncher.Trial} {pid : Nat}
    (hrc : a.rc ≠ some 0) : Sees (Looked A pid) (ycruncherJudge e a) fun _ => Clear A := by
  unfold ycruncherJudge
  cases hend : (YCruncher.checkResult e a).2 with
  | none =>
    exact sees_bind (sees_addEach (checkResult_tells hrc hend)) fun _ =>
      sees_still (lasting_clear A) (still_orRaise _)
  | some x => exact sees_bind sees_true fun _ => sees_raise

theorem sees_ycruncherRun (turns : Nat) :
    Sees (Clear A) (ycruncherRun u p turns) fun _ => Clear A := by
  have hclear := lasting_clear A
  refine sees_op_bind hclear rfl fun present : Bool => triple_ite (fun _ => ?_)
    fun _ => sees_still (b := false) hclear (still_add _)
  refine sees_op_bind hclear rfl fun cores => sees_still_bind hclear (still_memBudgetMib _)
    fun memory => sees_still_bind (b := false) hclear still_remaining fun left =>
      sees_still_bind hclear (still_ofExcept _) fun config => sees_op_bind hclear rfl fun ok =>
        sees_still_bind hclear (still_orRaise ok) fun _ => sees_op_bind hclear rfl fun dir =>
          sees_still_bind hclear (still_get dir) fun workdir => ?_
  have hlasting : ∀ rc, Lasting fun w => ∃ pid, Judged A pid rc w :=
    fun rc w op a hop h => h.imp fun pid h => lasting_judged A pid rc w op a hop h
  refine sees_bind (sees_finally (sees_ycruncherWork _ _ workdir turns) fun r =>
    sees_still (b := true) (hlasting r.1) (calls_bind (calls_perform rfl) fun _ =>
      still_orRaise _)) fun r => ?_
  obtain ⟨rc, elapsed, evidence⟩ := r
  rintro w ⟨pid, hw⟩
  refine sees_verdict (b := true) (calls_bind (calls_perform rfl) fun _ =>
    calls_bind still_aborted fun _ => calls_bind (calls_perform rfl) fun _ =>
      calls_bind (still_orRaise _) fun _ => still_ycruncherJudge _ _) (fun hrc => ?_) w hw
  have hlooked := lasting_looked A pid
  exact sees_op_bind hlooked rfl fun now => sees_still_bind (b := false) hlooked still_aborted
    fun abort => sees_op_bind hlooked rfl fun ok =>
      sees_still_bind hlooked (still_orRaise ok) fun _ => sees_ycruncherJudge hrc

theorem sees_mprimeTorture (turns : Nat) :
    Sees (Clear A) (mprimeTorture u p turns) fun _ => Clear A := by
  have hclear := lasting_clear A
  refine sees_op_bind hclear rfl fun ok => sees_still_bind hclear (still_orRaise ok) fun _ =>
    sees_op_bind hclear rfl fun _ => sees_still_bind hclear (still_memBudgetMib _) fun mem =>
      sees_op_bind hclear rfl fun threads => sees_op_bind hclear rfl fun ok =>
        sees_still_bind hclear (still_orRaise ok) fun _ => ?_
  have hcmd : counts [mprime, "-t", "-W" ++ mprimeDir] = false := decide_eq_false fun h => h rfl
  refine sees_bind (sees_start (fun _ => hclear)
    fun w pid hw => clear_spawned_uncounted hw hcmd pid) fun c => ?_
  refine sees_plain_bind hclear (plain_wait _ true turns) fun rc =>
    sees_plain_bind hclear (plain_stop 60 .int turns) fun _ => sees_still (b := false) hclear ?_
  exact calls_bind (still_outputTail _) fun _ => calls_bind (calls_perform rfl) fun _ =>
    calls_bind (calls_perform rfl) fun _ => calls_bind (still_mprimeVerdict _ _ _)
      fun _ => still_mprimeUnverified _ _

theorem sees_mprimeRun (turns : Nat) : Sees (Clear A) (mprimeRun u p turns) fun _ => Clear A := by
  have hclear := lasting_clear A
  refine sees_op_bind hclear rfl fun present : Bool =>
    triple_ite (fun _ => sees_mprimeTorture turns) fun _ => ?_
  exact sees_still_bind (b := false) hclear (still_add _) fun _ =>
    sees_still_bind (b := false) hclear still_remaining fun left =>
      sees_bind (sees_runStressng _ _ left turns) fun _ => sees_pure fun _ => id

theorem sees_transientEnd {c : Child} (turns : Nat) :
    Sees (Clear (insert c.pid A)) (transientEnd p c turns) (Judged A c.pid) := by
  refine sees_bind sees_poll fun rc => ?_
  cases rc with
  | some rc =>
    exact sees_still_bind (b := false) (lasting_judged A c.pid _) still_transientEarly
      fun _ => sees_pure fun _ => id
  | none =>
    have hclear := lasting_clear (insert c.pid A)
    refine sees_pre (P := Clear (insert c.pid A)) ?_ fun _ hw => hw.1.clear
    refine sees_plain_bind hclear (plain_sendSignal .int) fun _ =>
      sees_still_bind (b := false) hclear still_monotonic fun now =>
        sees_bind (sees_wait _ false turns) fun rc => ?_
    cases rc with
    | some rc => exact sees_pure fun _ => id
    | none =>
      have hjudged := lasting_judged A c.pid none
      exact sees_plain_bind hjudged (plain_stop 45 .term turns) fun _ =>
        sees_still_bind (b := false) hjudged (still_add _) fun _ => sees_pure fun _ => id

theorem sees_transientRun (turns : Nat) :
    Sees (Clear A) (transientRun u p turns) fun _ => Clear A := by
  have hclear := lasting_clear A
  refine sees_still_bind hclear (still_memBudgetMib _) fun budget =>
    sees_op_bind hclear rfl fun cpus => sees_start_bind fun c => ?_
  have hopen := lasting_clear (insert c.pid A)
  refine sees_bind (sees_finally (sees_plain hopen (plain_patterns turns turns 0))
    fun _ => sees_plain hopen (plain_sendSignal .cont)) fun steps =>
      sees_bind (sees_transientEnd turns) fun rc => ?_
  refine sees_verdict (b := false) (calls_bind still_close fun _ =>
    calls_bind (still_outputTail _) fun _ => calls_bind (still_addAll _) fun _ => still_add _)
    fun hrc => ?_
  exact sees_still_bind (b := false) (lasting_looked A c.pid) still_close fun _ =>
    sees_still_bind (b := false) (lasting_looked A c.pid) (still_outputTail _) fun output =>
      sees_bind (sees_addAll (checkCode_tells hrc)) fun _ =>
        sees_still (b := false) hclear (still_add _)

end Workloads

/-! ### Everything at once -/

section Combined

variable {A : Set Nat} {u : Tables} {s : Setup} {p : Phase}

theorem plain_pauseScans : Plain (pauseScans s) := only_ite (only_perform rfl) (only_pure _)

theorem plain_resumeScans : Plain (resumeScans s) := only_ite (only_perform rfl) (only_pure _)

theorem plain_idling (turns : Nat) : Plain (idling p turns) := by
  induction turns with
  | zero => exact only_cut
  | succ turns ih =>
    refine only_bind (plain_still (b := false) still_remaining) fun left =>
      only_ite ?_ (only_pure _)
    exact only_bind (plain_still (b := false) still_aborted) fun stop : Bool =>
      only_ite (only_pure _) (only_bind (plain_still (b := false) still_remaining) fun left =>
        only_bind (only_perform rfl) fun _ => ih)

theorem sees_idleRun (turns : Nat) : Sees (Clear A) (idleRun u s p turns) fun _ => Clear A := by
  have hclear := lasting_clear A
  refine sees_still_bind (b := false) hclear still_cstateUsage fun before =>
    sees_plain_bind hclear plain_pauseScans fun _ => sees_bind
      (sees_finally (sees_plain hclear (plain_idling turns)) fun _ =>
        sees_plain hclear plain_resumeScans) fun _ => ?_
  exact sees_still_bind (b := false) hclear still_cstateUsage fun after =>
    sees_still (b := false) hclear (calls_ite (still_add _) (still_add _))

theorem sees_startFio (disk : DiskRef) :
    Sees (Clear A) (startFio p disk) fun l => Clear (insert l.child.pid A) := by
  have hclear := lasting_clear A
  exact sees_op_bind hclear rfl fun ok => sees_still_bind hclear (still_orRaise ok) fun _ =>
    sees_still_bind (b := false) hclear still_secondsLeft fun _ =>
      sees_start_bind fun _ => sees_pure fun _ => id

theorem sees_startIperf :
    Sees (Clear A) (startIperf s p) fun l => Clear (insert l.child.pid A) :=
  sees_still_bind (b := false) (lasting_clear A) still_secondsLeft fun _ =>
    sees_start_bind fun _ => sees_pure fun _ => id

theorem sees_attempt {t : Program Load}
    (ht : Sees (Clear A) t fun l => Clear (insert l.child.pid A)) :
    Sees (Clear A) t.attempt fun r w => ∀ l, r = some l → Clear (insert l.child.pid A) w :=
  triple_attempt (triple_mono ht (fun _ => id)
    (fun l w hw load hload => by rw [← Option.some.inj hload]; exact hw)
    (fun _ _ => nofun) fun _ => id)

/-- The loads that run, where all have been started. -/
def AllStarted (r : List Load × Bool) (w : Watch) : Prop := r.2 = true → Clear (pids r.1) w

theorem clear_pids_append {loads : List Load} {l : Load} {w : Watch}
    (h : Clear (insert l.child.pid (pids loads)) w) : Clear (pids (loads ++ [l])) w :=
  h.mono fun _ hq => mem_pids_append.mpr hq.symm

theorem sees_launchDisks (disks : List DiskRef) (loads : List Load) :
    Sees (Clear (pids loads)) (launchDisks p disks loads) AllStarted := by
  induction disks generalizing loads with
  | nil => exact sees_pure fun w hw _ => hw
  | cons disk disks ih =>
    refine sees_bind (sees_attempt (sees_startFio disk)) fun r => ?_
    cases r with
    | none => exact sees_pure fun _ _ => nofun
    | some l => exact sees_pre (ih (loads ++ [l])) fun w hw => clear_pids_append (hw l rfl)

theorem sees_launchNetwork (loads : List Load) :
    Sees (Clear (pids loads)) (launchNetwork s p loads) AllStarted := by
  refine triple_ite (fun _ => sees_still_bind (b := false) (lasting_clear _) (still_add _)
    fun _ => sees_pure fun w hw _ => hw) fun _ => ?_
  refine sees_bind (sees_attempt sees_startIperf) fun r => ?_
  cases r with
  | none => exact sees_pure fun _ _ => nofun
  | some l => exact sees_pure fun w hw _ => clear_pids_append (hw l rfl)

theorem sees_launch : Sees (Clear ∅) (launch s p) AllStarted := by
  refine sees_op_bind (lasting_clear ∅) rfl fun disks : Option (List DiskRef) => ?_
  cases disks with
  | none => exact sees_pure fun _ _ => nofun
  | some disks =>
    refine sees_bind (sees_pre (sees_launchDisks disks []) fun _ hw => hw.mono
      (Set.empty_subset _)) fun r => triple_ite (fun hall => ?_) fun _ => sees_pure fun _ => id
    exact sees_pre (sees_launchNetwork r.1) fun w hw => hw hall

theorem sees_reportLoad {l : Load} {rc : Option Int} {verified : Bool} :
    Sees (Judged A l.child.pid rc) (reportLoad l rc verified) fun _ => Clear A := by
  refine triple_ite (fun _ => ?_) fun hgood => sees_pure fun w hw => hw.2 ?_
  · refine sees_pre (sees_still_bind (b := false) (lasting_looked A l.child.pid)
      (still_outputTail _) fun output => sees_add fun _ => ?_) fun _ hw => hw.1
    nofun
  · exact not_not.mp fun hrc => hgood (.inl hrc)

/-- One load after the other is accounted for. -/
theorem sees_judgeLoads (turns : Nat) (loads : List Load) :
    Sees (Clear (pids loads)) (judgeLoads u p turns loads) fun _ => Clear ∅ := by
  induction loads with
  | nil =>
    refine sees_pure fun w hw => hw.mono ?_
    rintro q ⟨l, hl, -⟩
    cases hl
  | cons l rest ih =>
    have hpids : pids (l :: rest) ⊆ insert l.child.pid (pids rest) := by
      rintro q ⟨l', hl', rfl⟩
      rcases List.mem_cons.mp hl' with rfl | hl'
      · exact .inl rfl
      · exact .inr ⟨l', hl', rfl⟩
    refine sees_bind (sees_pre (sees_wait (A := pids rest) _ true turns)
      fun w hw => hw.mono hpids) fun rc => ?_
    have hjudged := lasting_judged (pids rest) l.child.pid rc
    refine sees_aborted_bind hjudged (sees_pure fun _ => .inl) ?_
    exact sees_still_bind hjudged (still_verify l) fun verified =>
      sees_bind sees_reportLoad fun _ => ih

theorem sees_underLoad (turns : Nat) (loads : List Load) :
    Sees (Clear (pids loads)) (underLoad u p loads turns) fun _ => Clear ∅ := by
  have hclear := lasting_clear (pids loads)
  exact sees_still_bind (b := false) hclear still_remaining fun _ =>
    sees_still_bind hclear (still_memBudgetMib _) fun _ => sees_op_bind hclear rfl fun _ =>
      sees_bind (sees_runStressapptest _ _ _ _ turns) fun _ => sees_judgeLoads turns loads

theorem plain_release (turns : Nat) (loads : List Load) : Plain (release turns loads) := by
  induction loads with
  | nil => exact only_pure _
  | cons l rest ih =>
    refine only_bind plain_poll fun rc => ?_
    cases rc with
    | none => exact only_bind (plain_stop 45 .term turns) fun _ => ih
    | some rc => exact only_bind (plain_still (b := false) still_close) fun _ => ih

/-- Where nothing was raised, all loads have been judged. -/
theorem sees_combinedBody (turns : Nat) :
    Sees (Clear ∅) (combinedBody u s p turns) fun r w => r.2 = true → Clear ∅ w := by
  refine sees_bind sees_launch fun r => triple_ite (fun hall => ?_)
    fun hnot => sees_pure fun w _ hall => absurd hall hnot
  refine sees_bind (Q := fun done w => done.isSome = true → Clear ∅ w) (triple_attempt
    (triple_mono (sees_underLoad turns r.1) (fun w hw => hw hall) (fun _ _ hw _ => hw)
      (fun _ _ => nofun) fun _ => id)) fun done => sees_pure fun _ => id

theorem sees_combinedRun (turns : Nat) :
    Sees (Clear ∅) (combinedRun u s p turns) fun _ => Clear ∅ := by
  have hclear := lasting_clear ∅
  refine sees_plain_bind hclear plain_pauseScans fun _ =>
    sees_bind (sees_combinedBody turns) fun r => ?_
  by_cases hall : r.2 = true
  · refine sees_pre (P := Clear ∅) ?_ fun w hw => hw hall
    exact sees_plain_bind hclear (plain_release turns r.1) fun _ =>
      sees_plain_bind hclear plain_resumeScans fun _ => sees_still hclear (still_orRaise _)
  · exact sees_bind sees_true fun _ => sees_bind sees_true fun _ =>
      triple_ite (fun h => absurd h hall) fun _ => sees_raise

end Combined

/-! ## The phases -/

/-- No child has been started. -/
def Watch.fresh : Watch := ⟨fun _ => .nothing, false⟩

theorem sees_runOf (u : Tables) (s : Setup) (p : Phase) (turns : Nat) (k : Kind) :
    Sees (Clear ∅) (runOf u s p turns k) fun _ => Clear ∅ := by
  cases k with
  | cpu => exact sees_cpuTurns _ _ _ _ _
  | memory => exact sees_memoryRun turns
  | ycruncher => exact sees_ycruncherRun turns
  | mprime => exact sees_mprimeRun turns
  | transient => exact sees_transientRun turns
  | idle => exact sees_idleRun turns
  | combined => exact sees_combinedRun turns

/-- Whatever its children do: a phase that returns without having seen an abort has accounted for
each of them. -/
theorem runPhase_notices (u : Tables) (s : Setup) (logs : String) (k : Kind) (duration : Int)
    (turns : Nat) (env : Env Op.Answer)
    (hreturns : ((runPhase u s logs k duration turns).exec env).2 = .value ()) :
    let w := watching.after Watch.fresh ((runPhase u s logs k duration turns).exec env).1
    w.aborted = true ∨ ∀ pid, ¬ (w.account pid).Open := by
  have hfresh : Clear ∅ Watch.fresh := .inr fun q hq => absurd rfl hq.1
  have hrun : Sees (Clear ∅) (runPhase u s logs k duration turns) fun _ => Clear ∅ :=
    sees_still_bind (b := false) (lasting_clear ∅) still_monotonic fun now =>
      sees_runOf u s _ turns k
  have hgiven : ∀ (t : History) w, watching.Given w t := by
    intro t
    induction t with
    | nil => exact fun _ => trivial
    | cons e t ih => exact fun w => ⟨trivial, ih _⟩
  obtain ⟨hend, -⟩ := triple_sound hrun hfresh env (hgiven _ _)
  rw [hreturns] at hend
  exact hend

/-- A machine on which every command can be run, and every child fails at once. -/
def failing : (op : Op) → op.Answer
  | .openLog _ => some 0
  | .appendLog _ _ => true
  | .closeLog _ => ()
  | .readLog _ => some []
  | .spawn _ _ => some 1
  | .poll _ => some 1
  | .killpg _ _ => ()
  | .reap _ => some 1
  | .monotonic => (0 : ℚ)
  | .sleep _ => ()
  | .nowIso => ""
  | .aborted => false
  | .add _ => ()
  | .pauseScans => ()
  | .resumeScans => ()
  | .blockDisks _ => some []
  | .choose n => (0 : Fin (n + 1))
  | .uniform low _ => low
  | .cpuCount => (1 : Nat)
  | .affinity => []
  | .which _ => true
  | .executable _ => true
  | .readFile _ => "MemTotal: 4000000 kB\nMemAvailable: 3900000 kB"
  | .readText _ => none
  | .writeFile _ _ => true
  | .writeJson _ _ => true
  | .writeResult _ _ _ _ => true
  | .copyFile _ _ => true
  | .unlink _ => true
  | .makedirs _ => true
  | .clear _ => ()
  | .makeTemp => none
  | .removeTemp _ => true
  | .idleStates => []

theorem runPhase_notices_failing :
    let w := watching.after Watch.fresh
      ((runPhase ⟨Kernel.ascii, DigitTable.ascii⟩ {} "/logs" .memory 60 1).exec
        fun _ op => failing op).1
    w.aborted = true ∨ ∀ pid, ¬ (w.account pid).Open :=
  runPhase_notices _ _ _ _ _ _ _ (by decide +kernel)

end Workload
end PcCheck
