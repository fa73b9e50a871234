/-
What the phases do to the processes of the machine.

A phase signals no process but its own children, ends a child by a signal only while the child
can run, and lets the surface scans go on only when none of its children is at large: each has been
seen to exit, or has been killed and was still there half a minute later.  When the phase ends, by
an exception or not, none is at large and the scans go on.
-/
import PcCheck.Workloads
import Mathlib.Data.Set.Insert

namespace PcCheck
namespace Workload

open Script

/-! ## The processes -/

inductive Status where
  | unknown
  | running
  | stopped
  /-- It has been killed, and has not been waited for. -/
  | killed
  /-- It was still there half a minute after it had been killed. -/
  | stuck
  /-- Its exit has been seen. -/
  | exited
  deriving DecidableEq, Repr

/-- It is neither seen to exit nor given up. -/
def Status.AtLarge : Status → Prop
  | .running => True
  | .stopped => True
  | .killed => True
  | .unknown => False
  | .stuck => False
  | .exited => False

/-- What a signal is known to do to a process. -/
def Status.signalled : Signal → Status → Status
  | .kill, .running => .killed
  | .kill, .stopped => .killed
  | .stop, .running => .stopped
  | .cont, .stopped => .running
  | _, s => s

/-- It has been killed, or is not there. -/
def Status.Spent (s : Status) : Prop := s ≠ .running ∧ s ≠ .stopped

theorem Status.spent_killed (s : Status) : (s.signalled .kill).Spent := by
  cases s <;> exact ⟨nofun, nofun⟩

/-- What is known of a process once the wait after a kill has ended without its exit. -/
def Status.outlasted : Status → Status
  | .killed => .stuck
  | s => s

structure World where
  status : Nat → Status
  paused : Bool

namespace World

def set (w : World) (pid : Nat) (s : Status) : World :=
  { w with status := fun q => if q = pid then s else w.status q }

theorem status_set_self (w : World) (pid : Nat) (s : Status) : (w.set pid s).status pid = s :=
  if_pos rfl

theorem status_set_ne (w : World) {pid q : Nat} (h : q ≠ pid) (s : Status) :
    (w.set pid s).status q = w.status q := if_neg h

theorem set_status_self (w : World) (pid : Nat) : w.set pid (w.status pid) = w := by
  obtain ⟨status, paused⟩ := w
  refine congrArg (World.mk · paused) (funext fun q => ?_)
  by_cases h : q = pid
  · rw [if_pos h, h]
  · rw [if_neg h]

/-- Where an exit code was given. -/
def exited (w : World) (pid : Nat) : Option Int → World
  | some _ => w.set pid .exited
  | none => w

def reaped (w : World) (pid : Nat) : Option Int → World
  | some _ => w.set pid .exited
  | none => w.set pid (w.status pid).outlasted

def spawned (w : World) : Option Nat → World
  | some pid => w.set pid .running
  | none => w

def next (w : World) : (op : Op) → op.Answer → World
  | .spawn _ _, a => w.spawned a
  | .poll pid, a => w.exited pid a
  | .reap pid, a => w.reaped pid a
  | .killpg pid sig, _ => w.set pid ((w.status pid).signalled sig)
  | .pauseScans, _ => { w with paused := true }
  | .resumeScans, _ => { w with paused := false }
  | _, _ => w

/-- The signals that ask a process to end. -/
def asks : Signal → Bool
  | .term => true
  | .int => true
  | _ => false

/-- A process of this phase is asked to end only while it can run; the scans go on only when no
process is at large; and where the scans are to be paused, nothing is started before.  A group
may be signalled after its leader has been reaped: the code does not ask, and takes a group that
is not there for no error. -/
def Allows (apart : Bool) (w : World) : Op → Prop
  | .spawn _ _ => apart = true → w.paused = true
  | .poll pid => w.status pid ≠ .unknown
  | .reap pid => w.status pid ≠ .unknown
  | .killpg pid sig => w.status pid ≠ .unknown ∧ (asks sig = true → w.status pid ≠ .stopped)
  | .pauseScans => w.paused = false
  | .resumeScans => w.paused = true ∧ ∀ pid, ¬ (w.status pid).AtLarge
  | _ => True

end World

/-- The machine gives any answer. -/
def machine (apart : Bool) : Script.Machine Op.Answer World where
  next := World.next
  Gives _ _ _ := True
  Allows := World.Allows apart

/-- Bounds of what is so: the processes that are known at least, those that may be at large, those
that may be stopped, and whether the scans are paused. -/
structure Hold where
  known : Set Nat
  atLarge : Set Nat
  stopped : Set Nat
  paused : Bool

namespace Hold

structure Of (h : Hold) (w : World) : Prop where
  known : ∀ pid ∈ h.known, w.status pid ≠ .unknown
  atLarge : ∀ pid, (w.status pid).AtLarge → pid ∈ h.atLarge
  stopped : ∀ pid, w.status pid = .stopped → pid ∈ h.stopped
  paused : w.paused = h.paused

def started (h : Hold) (pid : Nat) : Hold :=
  { h with
    known := insert pid h.known, atLarge := insert pid h.atLarge, stopped := h.stopped \ {pid} }

def ended (h : Hold) (pid : Nat) : Hold :=
  { h with atLarge := h.atLarge \ {pid}, stopped := h.stopped \ {pid} }

def halted (h : Hold) (pid : Nat) : Hold := { h with stopped := insert pid h.stopped }

def continued (h : Hold) (pid : Nat) : Hold := { h with stopped := h.stopped \ {pid} }

/-- After a poll. -/
def polled (h : Hold) (pid : Nat) : Option Int → Hold
  | some _ => h.ended pid
  | none => h

/-- After a start that may have failed. -/
def spawned (h : Hold) : Option Nat → Hold
  | some pid => h.started pid
  | none => h

structure Within (h h' : Hold) : Prop where
  known : h'.known ⊆ h.known
  atLarge : h.atLarge ⊆ h'.atLarge
  stopped : h.stopped ⊆ h'.stopped
  paused : h.paused = h'.paused

theorem Within.of {h h' : Hold} (hw : h.Within h') {w : World} (ho : h.Of w) : h'.Of w where
  known pid hpid := ho.known pid (hw.known hpid)
  atLarge pid hpid := hw.atLarge (ho.atLarge pid hpid)
  stopped pid hpid := hw.stopped (ho.stopped pid hpid)
  paused := ho.paused.trans hw.paused

theorem Within.refl (h : Hold) : h.Within h := ⟨subset_rfl, subset_rfl, subset_rfl, rfl⟩

theorem ended_within (h : Hold) (pid : Nat) : (h.ended pid).Within h :=
  ⟨subset_rfl, Set.sdiff_subset, Set.sdiff_subset, rfl⟩

theorem continued_within (h : Hold) (pid : Nat) : (h.continued pid).Within h :=
  ⟨subset_rfl, subset_rfl, Set.sdiff_subset, rfl⟩

theorem polled_within (h : Hold) (pid : Nat) (rc : Option Int) : (h.polled pid rc).Within h := by
  cases rc with
  | none => exact .refl h
  | some rc => exact ended_within h pid

/-- A child that was started and has ended leaves things as they were. -/
theorem ended_started_within (h : Hold) (pid : Nat) : ((h.started pid).ended pid).Within h where
  known := Set.subset_insert pid h.known
  atLarge _ hq := hq.1.resolve_left hq.2
  stopped _ hq := hq.1.1
  paused := rfl

section Of

variable {h : Hold} {w : World} {pid : Nat}

theorem Of.set (ho : h.Of w) {s : Status} (hs : s ≠ .unknown) (h' : Hold)
    (hknown : h'.known ⊆ insert pid h.known)
    (hlarge : h.atLarge \ {pid} ⊆ h'.atLarge) (hs_large : s.AtLarge → pid ∈ h'.atLarge)
    (hstopped : h.stopped \ {pid} ⊆ h'.stopped) (hs_stopped : s = .stopped → pid ∈ h'.stopped)
    (hpaused : h.paused = h'.paused) : h'.Of (w.set pid s) where
  known q hq := by
    by_cases heq : q = pid
    · subst heq
      rw [World.status_set_self]
      exact hs
    · rw [World.status_set_ne w heq]
      exact ho.known q ((hknown hq).resolve_left heq)
  atLarge q hq := by
    by_cases heq : q = pid
    · subst heq
      rw [World.status_set_self] at hq
      exact hs_large hq
    · rw [World.status_set_ne w heq] at hq
      exact hlarge ⟨ho.atLarge q hq, heq⟩
  stopped q hq := by
    by_cases heq : q = pid
    · subst heq
      rw [World.status_set_self] at hq
      exact hs_stopped hq
    · rw [World.status_set_ne w heq] at hq
      exact hstopped ⟨ho.stopped q hq, heq⟩
  paused := ho.paused.trans hpaused

theorem Of.spawned (ho : h.Of w) (pid : Option Nat) : (h.spawned pid).Of (w.spawned pid) := by
  cases pid with
  | none => exact ho
  | some pid =>
    exact ho.set (by decide) (h.started pid) subset_rfl
      (fun _ hq => Set.mem_insert_of_mem pid hq.1) (fun _ => Set.mem_insert pid _) subset_rfl
      (fun hs => nomatch hs) rfl

theorem Of.exited (ho : h.Of w) (rc : Option Int) : (h.polled pid rc).Of (w.exited pid rc) := by
  cases rc with
  | none => exact ho
  | some rc =>
    exact ho.set (by decide) (h.ended pid) (Set.subset_insert pid _) subset_rfl (fun hs => hs.elim)
      subset_rfl (fun hs => nomatch hs) rfl

theorem signalled_ne_unknown {s : Status} (hs : s ≠ .unknown) (sig : Signal) :
    s.signalled sig ≠ .unknown := by
  cases s <;> cases sig <;> first | exact absurd rfl hs | nofun

theorem Of.continued (ho : h.Of w) (hpid : pid ∈ h.known) :
    (h.continued pid).Of (w.set pid ((w.status pid).signalled .cont)) := by
  refine ho.set (signalled_ne_unknown (ho.known pid hpid) .cont) _ (Set.subset_insert pid _)
    Set.sdiff_subset (fun hs => ho.atLarge pid ?_) subset_rfl (fun hs => ?_) rfl
  · cases hstatus : w.status pid <;> rw [hstatus] at hs <;> trivial
  · cases hstatus : w.status pid <;> rw [hstatus] at hs <;> cases hs

theorem Of.halted (ho : h.Of w) (hpid : pid ∈ h.known) :
    (h.halted pid).Of (w.set pid ((w.status pid).signalled .stop)) := by
  refine ho.set (signalled_ne_unknown (ho.known pid hpid) .stop) _ (Set.subset_insert pid _)
    Set.sdiff_subset (fun hs => ho.atLarge pid ?_)
    (Set.sdiff_subset.trans (Set.subset_insert pid _)) (fun _ => .inl rfl) rfl
  cases hstatus : w.status pid <;> rw [hstatus] at hs <;> trivial

theorem Of.killed (ho : h.Of w) (hpid : pid ∈ h.known) :
    h.Of (w.set pid ((w.status pid).signalled .kill)) := by
  refine ho.set (signalled_ne_unknown (ho.known pid hpid) .kill) h (Set.subset_insert pid _)
    Set.sdiff_subset (fun hs => ho.atLarge pid ?_) Set.sdiff_subset (fun hs => ?_) rfl
  · cases hstatus : w.status pid <;> rw [hstatus] at hs <;> trivial
  · cases hstatus : w.status pid <;> rw [hstatus] at hs <;> cases hs

/-- A killed child is given up where the wait for it ends without its exit. -/
theorem Of.reaped (ho : h.Of w) (hpid : pid ∈ h.known) (hspent : (w.status pid).Spent)
    (rc : Option Int) : (h.ended pid).Of (w.reaped pid rc) := by
  cases rc with
  | some rc => exact ho.exited (some rc)
  | none =>
    refine ho.set (fun hs => ho.known pid hpid ?_) _ (Set.subset_insert pid _) subset_rfl
      (fun hs => ?_) subset_rfl (fun hs => ?_) rfl
    · cases hstatus : w.status pid <;> rw [hstatus] at hs <;> first | rfl | cases hs
    · obtain ⟨hrunning, hstopped⟩ := hspent
      cases hstatus : w.status pid <;> rw [hstatus] at hs <;>
        first | exact hs.elim | exact absurd hstatus hrunning | exact absurd hstatus hstopped
    · cases hstatus : w.status pid <;> rw [hstatus] at hs <;>
        first | exact absurd hstatus hspent.2 | cases hs

/-- A signal that asks a process to end is no other to it. -/
theorem Of.asked (ho : h.Of w) {sig : Signal} (hsig : World.asks sig = true) :
    h.Of (w.set pid ((w.status pid).signalled sig)) := by
  have hstatus : (w.status pid).signalled sig = w.status pid := by
    cases sig <;> first | rfl | cases hsig
  rw [hstatus, World.set_status_self]
  exact ho

end Of

end Hold


/-! ## The scripts that leave the processes alone -/

/-- A call that neither starts nor signals a process, and that leaves the scans alone. -/
def still : Op → Bool
  | .spawn _ _ => false
  | .poll _ => false
  | .killpg _ _ => false
  | .reap _ => false
  | .pauseScans => false
  | .resumeScans => false
  | _ => true

/-- A call that starts no child. -/
def plain : Op → Bool
  | .spawn _ _ => false
  | _ => true

theorem plain_of_still {op : Op} (hop : still op = true) : plain op = true := by
  cases op <;> first | rfl | cases hop

/-- Such a script; it may raise if that is said. -/
abbrev Still {α : Type} (s : Program α) (raises : Bool := true) : Prop :=
  s.Calls (fun op => still op = true) raises

theorem keeps_of_still {apart : Bool} {P : World → Prop} {op : Op} (hop : still op = true) :
    (machine apart).Keeps P op := by
  cases op <;> first | exact ⟨fun _ _ => trivial, fun _ _ hw _ => hw⟩ | cases hop

section Still

variable {b : Bool} {u : Tables} {p : Phase} {c : Child}

theorem still_monotonic : Still monotonic b := calls_perform rfl

theorem still_aborted : Still aborted b := calls_perform rfl

theorem still_add (call : String → AddCall) : Still (add call) b :=
  calls_bind (calls_perform rfl) fun _ => calls_perform rfl

theorem still_addEach (calls : List AddCall) : Still (addEach calls) b := by
  induction calls with
  | nil => exact calls_pure _
  | cons c cs ih => exact calls_bind (calls_perform rfl) fun _ => ih

theorem still_addAll (calls : String → List AddCall) : Still (addAll calls) b :=
  calls_bind (calls_perform rfl) fun _ => still_addEach _

theorem still_remaining : Still p.remaining b :=
  calls_bind still_monotonic fun _ => calls_pure _

theorem still_close : Still c.close b := calls_perform rfl

theorem still_outputTail (maxBytes : Int) : Still (c.outputTail maxBytes) b :=
  calls_bind (calls_perform rfl) fun _ => calls_pure _

theorem still_get {α : Type} (a : Option α) : Still (get a) := by
  cases a with
  | none => exact calls_raise
  | some a => exact calls_pure a

theorem still_ofExcept {ε α : Type} (r : Except ε α) : Still (ofExcept r) := by
  cases r with
  | error e => exact calls_raise
  | ok a => exact calls_pure a

theorem still_orRaise (ok : Bool) : Still (orRaise ok) := calls_ite (calls_pure _) calls_raise

theorem still_memBudgetMib (fraction : ℚ) : Still (memBudgetMib u fraction) :=
  calls_bind (calls_perform rfl) fun _ => calls_bind (still_ofExcept _) fun _ => still_ofExcept _

theorem still_endedEarly (seconds : Int) : Still (endedEarly c seconds) :=
  calls_bind still_monotonic fun _ => calls_bind (still_ofExcept _) fun _ => calls_pure _

theorem still_unlessAborted {s : Program Unit} (hs : Still s b) :
    Still (do if ← aborted then return () else s) b :=
  calls_bind still_aborted fun _ => calls_ite (calls_pure _) hs

theorem still_reportShort (rc seconds : Int) (call : String → AddCall) :
    Still (reportShort c rc seconds call) :=
  calls_ite (calls_bind (still_endedEarly seconds) fun _ =>
    calls_ite (still_unlessAborted (still_add call)) (calls_pure _)) (calls_pure _)

theorem still_ycruncherJudge (e : YCruncher.Evidence) (a : YCruncher.Trial) :
    Still (ycruncherJudge e a) := calls_bind (still_addEach _) fun _ => still_orRaise _

theorem still_mprimeVerdict (rc : Option Int) (errors : List String) (output : String) :
    Still (mprimeVerdict p rc errors output) b :=
  calls_ite (still_add _) <| calls_ite (calls_bind still_monotonic fun _ =>
    calls_ite (still_unlessAborted (still_add _)) (calls_pure _)) (calls_pure _)

theorem still_mprimeUnverified (errors : List String) (passed : Bool) :
    Still (mprimeUnverified errors passed) b :=
  calls_ite (still_unlessAborted (still_add _)) (calls_pure _)

theorem still_transientEarly : Still (transientEarly p) b :=
  calls_bind still_remaining fun _ =>
    calls_ite (still_unlessAborted (still_add _)) (calls_pure _)

theorem still_choosePattern : Still choosePattern b :=
  calls_bind (calls_perform rfl) fun _ => calls_pure _

theorem still_cstateUsage : Still (cstateUsage u) b :=
  calls_bind (calls_perform rfl) fun _ => calls_pure _

theorem still_secondsLeft : Still (secondsLeft p) b :=
  calls_bind still_remaining fun _ => calls_pure _

theorem still_verify (l : Load) : Still (verify u p l) := by
  unfold verify
  cases l.result with
  | some path => exact calls_bind (calls_perform rfl) fun _ => still_get _
  | none => exact calls_bind (still_outputTail _) fun _ => still_get _

theorem still_reportLoad (l : Load) (rc : Option Int) (verified : Bool) :
    Still (reportLoad l rc verified) b :=
  calls_ite (calls_bind (still_outputTail _) fun _ => still_add _) (calls_pure _)

end Still


/-! ## The children -/

section Children

variable {apart : Bool} {E : World → Prop} {h : Hold} {c : Child} {α β : Type}

/-- What is so once a script has returned, and once it has raised. -/
def leaves (R : α → Hold) (E : World → Prop) : Post World α := ⟨fun a => (R a).Of, E, fun _ => True⟩

theorem still_bind {P : World → Prop} {s : Program α} {f : α → Program β} {Q : Post World β}
    (hs : Still s false) (hf : ∀ a, Triple (machine apart) P (f a) Q) :
    Triple (machine apart) P (s >>= f) Q :=
  triple_keeps_bind (hs.mono fun _ => keeps_of_still) hf fun hfalse => nomatch hfalse

theorem still_bind_raises {P : World → Prop} {s : Program α} {f : α → Program β}
    {Q : Post World β} (hs : Still s) (hf : ∀ a, Triple (machine apart) P (f a) Q)
    (hE : ∀ w, P w → Q.raised w) : Triple (machine apart) P (s >>= f) Q :=
  triple_keeps_bind (hs.mono fun _ => keeps_of_still) hf fun _ => hE

theorem still_end {s : Program α} {b : Bool} (hs : Still s b) (hE : b = true → ∀ w, h.Of w → E w) :
    Triple (machine apart) h.Of s (leaves (fun _ => h) E) :=
  triple_mono (triple_of_calls (hs.mono fun _ => keeps_of_still)) (fun _ => id) (fun _ _ => id)
    (fun w hw => hE hw.1 w hw.2) fun _ hw => hw.elim

/-- Less may be so before, and more afterwards. -/
theorem triple_within {s : Program α} {h' : Hold} {R R' : α → Hold}
    (hs : Triple (machine apart) h'.Of s (leaves R E)) (hpre : h.Within h')
    (hpost : ∀ a, (R a).Within (R' a)) : Triple (machine apart) h.Of s (leaves R' E) :=
  triple_mono hs (fun _ => hpre.of) (fun a _ => (hpost a).of) (fun _ => id) fun _ => id

theorem pure_leaves {a : α} {R : α → Hold} (hR : h.Within (R a)) :
    Triple (machine apart) h.Of (pure a) (leaves R E) := triple_pure fun _ => hR.of

theorem poll_leaves (hc : c.pid ∈ h.known) :
    Triple (machine apart) h.Of c.poll (leaves (h.polled c.pid) E) :=
  triple_perform (fun _ hw => hw.known _ hc) fun _ rc hw _ => hw.exited rc

theorem cont_leaves (hc : c.pid ∈ h.known) :
    Triple (machine apart) h.Of (c.sendSignal .cont) (leaves (fun _ => h.continued c.pid) E) :=
  triple_perform (fun _ hw => ⟨hw.known _ hc, nofun⟩) fun _ _ hw _ => hw.continued hc

theorem halt_leaves (hc : c.pid ∈ h.known) :
    Triple (machine apart) h.Of (c.sendSignal .stop) (leaves (fun _ => h.halted c.pid) E) :=
  triple_perform (fun _ hw => ⟨hw.known _ hc, nofun⟩) fun _ _ hw _ => hw.halted hc

theorem kill_leaves (hc : c.pid ∈ h.known) :
    Triple (machine apart) h.Of (c.sendSignal .kill)
      ⟨fun _ w => h.Of w ∧ (w.status c.pid).Spent, E, fun _ => True⟩ := by
  refine triple_perform (fun _ hw => ⟨hw.known _ hc, nofun⟩) fun w _ hw _ => ⟨hw.killed hc, ?_⟩
  show ((w.set c.pid _).status c.pid).Spent
  rw [World.status_set_self]
  exact Status.spent_killed _

theorem reap_leaves (hc : c.pid ∈ h.known) :
    Triple (machine apart) (fun w => h.Of w ∧ (w.status c.pid).Spent) (perform (.reap c.pid))
      (leaves (fun _ => h.ended c.pid) E) :=
  triple_perform (fun _ hw => hw.1.known _ hc) fun _ rc hw _ => hw.1.reaped hc hw.2 rc

theorem ask_leaves (hc : c.pid ∈ h.known) (hrun : c.pid ∉ h.stopped) {sig : Signal}
    (hsig : World.asks sig = true) :
    Triple (machine apart) h.Of (c.sendSignal sig) (leaves (fun _ => h) E) :=
  triple_perform (fun _ hw => ⟨hw.known _ hc, fun _ hs => hrun (hw.stopped _ hs)⟩)
    fun _ _ hw _ => hw.asked hsig

theorem still_heeded (heeds : Bool) : Still (Child.heeded heeds) false :=
  calls_ite still_aborted (calls_pure _)

theorem wait_leaves (hc : c.pid ∈ h.known) (deadline : ℚ) (heeds : Bool) (turns : Nat) :
    Triple (machine apart) h.Of (c.wait deadline heeds turns) (leaves (h.polled c.pid) E) := by
  induction turns with
  | zero => exact triple_cut fun _ _ => trivial
  | succ turns ih =>
    refine triple_bind (poll_leaves hc) fun rc => ?_
    cases rc with
    | some rc => exact pure_leaves (.refl _)
    | none =>
      refine still_bind still_monotonic fun now => triple_ite (fun _ => pure_leaves (.refl _))
        fun _ => still_bind (still_heeded heeds) fun stop : Bool =>
          triple_ite (fun _ => pure_leaves (.refl _)) fun _ => ?_
      exact still_bind (calls_perform rfl) fun _ => ih

theorem await_leaves (hc : c.pid ∈ h.known) (until_ : ℚ) (turns : Nat) :
    Triple (machine apart) h.Of (c.await until_ turns) (leaves (fun _ => h) E) := by
  induction turns with
  | zero => exact triple_cut fun _ _ => trivial
  | succ turns ih =>
    refine triple_bind (poll_leaves hc) fun rc => ?_
    cases rc with
    | some rc => exact pure_leaves (Hold.ended_within h c.pid)
    | none =>
      exact still_bind still_monotonic fun now =>
        triple_ite (fun _ => still_bind (calls_perform rfl) fun _ => ih)
          fun _ => pure_leaves (.refl h)

theorem finish_leaves (hc : c.pid ∈ h.known) :
    Triple (machine apart) h.Of c.finish (leaves (fun _ => h.ended c.pid) E) := by
  refine triple_bind (poll_leaves hc) fun rc => ?_
  cases rc with
  | some rc => exact still_end (b := false) still_close nofun
  | none =>
    exact triple_bind (kill_leaves hc) fun _ => triple_bind (reap_leaves hc)
      fun _ => still_end (b := false) still_close nofun

/-- A child that is stopped is not at large afterwards, whatever it does. -/
theorem stop_leaves (hc : c.pid ∈ h.known) (grace : ℚ) {sig : Signal}
    (hsig : World.asks sig = true) (turns : Nat) :
    Triple (machine apart) h.Of (c.stop grace sig turns) (leaves (fun _ => h.ended c.pid) E) := by
  refine triple_bind (poll_leaves hc) fun rc => ?_
  cases rc with
  | some rc => exact still_end (b := false) still_close nofun
  | none =>
    refine triple_bind (cont_leaves hc) fun _ => triple_bind
      (ask_leaves (h := h.continued c.pid) hc (fun hs => hs.2 rfl) hsig) fun _ =>
        still_bind still_monotonic fun now => triple_bind
          (await_leaves (h := h.continued c.pid) hc _ turns) fun _ =>
          triple_within (finish_leaves hc) (Hold.continued_within h c.pid) fun _ => .refl _

theorem spawn_leaves (hapart : apart = true → h.paused = true) (hE : ∀ w, h.Of w → E w)
    (cmd : List String) (logfile cwd : String) :
    Triple (machine apart) h.Of (spawn cmd logfile cwd) (leaves h.started E) := by
  refine triple_bind (R := fun pid => (h.spawned pid).Of)
    (triple_perform (fun w hw ha => hw.paused.trans (hapart ha)) fun _ pid hw _ => hw.spawned pid)
    fun pid => ?_
  cases pid with
  | some pid => exact pure_leaves (.refl _)
  | none => exact still_bind (calls_perform rfl) fun _ => triple_raise hE

theorem start_leaves (hapart : apart = true → h.paused = true) (hE : ∀ w, h.Of w → E w)
    (cmd : List String) (logfile cwd : String) :
    Triple (machine apart) h.Of (start cmd logfile cwd) (leaves (fun c => h.started c.pid) E) := by
  refine still_bind (calls_perform rfl) fun size => still_bind_raises (still_get size)
    (fun size => still_bind (calls_perform rfl) fun now => still_bind (calls_perform rfl)
      fun ok => still_bind_raises (still_orRaise ok) (fun _ => ?_) hE) hE
  refine triple_bind (spawn_leaves hapart hE cmd logfile cwd) fun pid =>
    still_bind still_monotonic fun now => pure_leaves (.refl _)

theorem known_started (h : Hold) (c : Child) : c.pid ∈ (h.started c.pid).known :=
  Set.mem_insert c.pid h.known

/-- What is done with a child that was started just now, where that ends it. -/
theorem start_bind (hapart : apart = true → h.paused = true) {cmd : List String}
    {logfile cwd : String} {f : Child → Program α} {Q : Post World α}
    (hE : ∀ w, h.Of w → Q.raised w) (hcut : ∀ w, Q.cut w)
    (hf : ∀ c : Child, c.pid ∈ (h.started c.pid).known →
      Triple (machine apart) (h.started c.pid).Of (f c) Q) :
    Triple (machine apart) h.Of (start cmd logfile cwd >>= f) Q :=
  triple_bind (triple_mono (start_leaves hapart hE cmd logfile cwd) (fun _ => id) (fun _ _ => id)
    (fun _ => id) fun w _ => hcut w) fun c => hf c (known_started h c)

end Children

/-! ## The workloads -/

section Workloads

variable {apart : Bool} {h : Hold} {u : Tables} {p : Phase}

/-- A workload that has ended leaves the processes as they were. -/
abbrev Leaves {α : Type} (apart : Bool) (h : Hold) (s : Program α) : Prop :=
  Triple (machine apart) h.Of s (leaves (fun _ => h) h.Of)

theorem leaves_still {α : Type} {s : Program α} {b : Bool} (hs : Still s b) : Leaves apart h s :=
  still_end hs fun _ _ => id

theorem leaves_bind {α β : Type} {s : Program α} {f : α → Program β} (hs : Leaves apart h s)
    (hf : ∀ a, Leaves apart h (f a)) : Leaves apart h (s >>= f) := triple_bind hs hf

/-- The same where a child was started that has ended. -/
theorem leaves_ended {α : Type} {s : Program α} {pid : Nat} (hs : Leaves apart h s) :
    Triple (machine apart) ((h.started pid).ended pid).Of s (leaves (fun _ => h) h.Of) :=
  triple_within hs (Hold.ended_started_within h pid) fun _ => .refl h

theorem stopHung_leaves {c : Child} (hc : c.pid ∈ (h.started c.pid).known)
    (call : String → AddCall) (turns : Nat) :
    Triple (machine apart) (h.started c.pid).Of (stopHung c call turns)
      (leaves (fun _ => h) h.Of) :=
  still_bind still_aborted fun _ => triple_bind (stop_leaves hc 45 rfl turns) fun _ =>
    leaves_ended (leaves_still (b := false) (calls_ite (calls_pure _) (still_add call)))

theorem runStressng_leaves (hapart : apart = true → h.paused = true) (label : String)
    (args : List String) (seconds : ℚ) (turns : Nat) :
    Leaves apart h (runStressng p label args seconds turns) := by
  refine start_bind hapart (fun _ => id) (fun _ => trivial) fun c hc => still_bind still_monotonic
    fun now => triple_bind (wait_leaves hc _ true turns) fun rc => ?_
  cases rc with
  | none =>
    exact triple_bind (stopHung_leaves hc _ turns) fun _ => leaves_still (b := false) (calls_pure _)
  | some rc =>
    refine leaves_ended (leaves_still (b := true) (calls_bind still_close fun _ =>
      calls_bind (still_outputTail _) fun _ => calls_bind (still_addAll _) fun _ =>
        calls_bind (still_reportShort _ _ _) fun _ => calls_pure _))

theorem cpuTurns_leaves (hapart : apart = true → h.paused = true) (slice : ℚ) (turns n : Nat)
    (stressors : List Cpu.Stressor) (i : Nat) :
    Leaves apart h (cpuTurns p slice turns n stressors i) := by
  induction n generalizing stressors i with
  | zero => exact triple_cut fun _ _ => trivial
  | succ n ih =>
    refine still_bind still_remaining fun left => triple_ite (fun _ => ?_)
      fun _ => leaves_still (b := false) (calls_pure _)
    refine still_bind still_aborted fun stop : Bool =>
      triple_ite (fun _ => leaves_still (b := false) (calls_pure _)) fun _ => ?_
    cases Cpu.current stressors i with
    | none => exact leaves_still (b := false) (still_add _)
    | some s =>
      exact still_bind still_remaining fun left =>
        leaves_bind (runStressng_leaves hapart s.label s.args _ turns) fun rc => ih _ _

theorem runStressapptest_leaves (hapart : apart = true → h.paused = true) (label : String)
    (seconds : ℚ) (mem : Int) (extra : List String) (turns : Nat) :
    Leaves apart h (runStressapptest u p label seconds mem extra turns) := by
  refine start_bind hapart (fun _ => id) (fun _ => trivial) fun c hc => still_bind still_monotonic
    fun now => triple_bind (wait_leaves hc _ true turns) fun rc => ?_
  cases rc with
  | none => exact stopHung_leaves hc _ turns
  | some rc =>
    refine leaves_ended (leaves_still (b := true) (calls_bind still_close fun _ =>
      calls_bind (still_outputTail _) fun _ => calls_bind (calls_perform rfl) fun _ =>
        calls_bind (still_ofExcept _) fun _ => calls_bind (still_addEach _) fun _ =>
          still_reportShort _ _ _))

theorem memoryRun_leaves (hapart : apart = true → h.paused = true) (turns : Nat) :
    Leaves apart h (memoryRun u p turns) := by
  refine leaves_bind (leaves_still (still_ofExcept _)) fun seconds => leaves_bind ?_ fun _ => ?_
  · refine still_bind (calls_perform rfl) fun present : Bool => triple_ite (fun _ => ?_)
      fun _ => leaves_still (b := false) (still_add _)
    exact leaves_bind (leaves_still (still_memBudgetMib _)) fun mem =>
      runStressapptest_leaves hapart _ _ _ _ turns
  · refine still_bind still_aborted fun stop : Bool =>
      triple_ite (fun _ => leaves_still (b := false) (calls_pure _)) fun _ => ?_
    exact leaves_bind (leaves_still (still_memBudgetMib _)) fun budget =>
      still_bind (calls_perform rfl) fun cpus => still_bind still_remaining fun left =>
        leaves_bind (runStressng_leaves hapart _ _ _ turns) fun _ =>
          leaves_still (b := false) (calls_pure _)

theorem leaves_finally {α : Type} {s : Program α} {fin : Program Unit} (hs : Leaves apart h s)
    (hfin : Leaves apart h fin) : Leaves apart h (s.tryFinally fin) :=
  triple_finally hs (fun _ => hfin) hfin

theorem ycruncherWork_leaves (hapart : apart = true → h.paused = true) (seconds : Int)
    (config workdir : String) (turns : Nat) :
    Leaves apart h (ycruncherWork u p seconds config workdir turns) := by
  refine start_bind hapart (fun _ => id) (fun _ => trivial) fun c hc => ?_
  have hbody : Triple (machine apart) (h.started c.pid).Of
      (do c.wait ((← monotonic) + seconds + 300) true turns)
      (leaves (fun _ => h.started c.pid) (h.started c.pid).Of) :=
    still_bind still_monotonic fun now => triple_within (wait_leaves hc _ true turns) (.refl _)
      (Hold.polled_within _ c.pid)
  have hstop : ∀ {E : World → Prop}, Triple (machine apart) (h.started c.pid).Of
      (c.stop 10 .term turns) (leaves (fun _ => h) E) :=
    triple_within (stop_leaves hc 10 rfl turns) (.refl _)
      fun _ => Hold.ended_started_within h c.pid
  refine triple_bind (R := fun _ => h.Of) (triple_finally hbody (fun _ => hstop) hstop)
    fun rc => leaves_still (b := true) ?_
  exact calls_bind still_monotonic fun _ => calls_bind (calls_perform rfl) fun _ =>
    calls_bind (still_get _) fun _ => calls_bind (still_ofExcept _) fun _ => calls_pure _

theorem ycruncherRun_leaves (hapart : apart = true → h.paused = true) (turns : Nat) :
    Leaves apart h (ycruncherRun u p turns) := by
  refine still_bind (calls_perform rfl) fun present : Bool => triple_ite (fun _ => ?_)
    fun _ => leaves_still (b := false) (still_add _)
  refine still_bind (calls_perform rfl) fun cores => leaves_bind (leaves_still (still_memBudgetMib _))
    fun memory => still_bind still_remaining fun left => leaves_bind (leaves_still (still_ofExcept _))
      fun config => still_bind (calls_perform rfl) fun ok => leaves_bind
        (leaves_still (still_orRaise ok)) fun _ => still_bind (calls_perform rfl) fun dir =>
          leaves_bind (leaves_still (still_get dir)) fun workdir => leaves_bind (leaves_finally
            (ycruncherWork_leaves hapart _ _ workdir turns) (leaves_still (b := true)
              (calls_bind (calls_perform rfl) fun _ => still_orRaise _))) fun r => ?_
  obtain ⟨rc, elapsed, evidence⟩ := r
  exact leaves_still (b := true) (calls_bind (calls_perform rfl) fun _ =>
    calls_bind still_aborted fun _ => calls_bind (calls_perform rfl) fun _ =>
      calls_bind (still_orRaise _) fun _ => still_ycruncherJudge _ _)

theorem mprimeTorture_leaves (hapart : apart = true → h.paused = true) (turns : Nat) :
    Leaves apart h (mprimeTorture u p turns) := by
  refine still_bind (calls_perform rfl) fun ok => leaves_bind (leaves_still (still_orRaise ok))
    fun _ => still_bind (calls_perform rfl) fun _ => leaves_bind
      (leaves_still (still_memBudgetMib _)) fun mem => still_bind (calls_perform rfl) fun threads =>
        still_bind (calls_perform rfl) fun ok => leaves_bind (leaves_still (still_orRaise ok))
          fun _ => ?_
  refine start_bind hapart (fun _ => id) (fun _ => trivial) fun c hc => ?_
  refine triple_bind (triple_within (wait_leaves hc _ true turns) (.refl _)
    (Hold.polled_within _ c.pid)) fun rc => triple_bind (stop_leaves hc 60 rfl turns) fun _ =>
      leaves_ended (leaves_still (b := false) ?_)
  exact calls_bind (still_outputTail _) fun _ => calls_bind (calls_perform rfl) fun _ =>
    calls_bind (calls_perform rfl) fun _ => calls_bind (still_mprimeVerdict _ _ _)
      fun _ => still_mprimeUnverified _ _

theorem mprimeRun_leaves (hapart : apart = true → h.paused = true) (turns : Nat) :
    Leaves apart h (mprimeRun u p turns) := by
  refine still_bind (calls_perform rfl) fun present : Bool =>
    triple_ite (fun _ => mprimeTorture_leaves hapart turns) fun _ => ?_
  exact still_bind (still_add _) fun _ => still_bind still_remaining fun left =>
    leaves_bind (runStressng_leaves hapart _ _ left turns) fun _ =>
      leaves_still (b := false) (calls_pure _)

/-! ### The load transients -/

section Transient

variable {c : Child} {E : World → Prop}

theorem dozing_leaves (hc : c.pid ∈ h.known) (until_ : ℚ) (turns : Nat) :
    Triple (machine apart) h.Of (dozing c until_ turns) (leaves (fun _ => h) E) := by
  induction turns with
  | zero => exact triple_cut fun _ _ => trivial
  | succ turns ih =>
    refine still_bind still_monotonic fun now =>
      triple_ite (fun _ => triple_bind (poll_leaves hc) fun rc => ?_) fun _ => pure_leaves (.refl h)
    cases rc with
    | some rc => exact pure_leaves (Hold.ended_within h c.pid)
    | none =>
      refine still_bind still_aborted fun stop : Bool =>
        triple_ite (fun _ => pure_leaves (.refl h)) fun _ => ?_
      exact still_bind still_monotonic fun now => still_bind (calls_perform rfl) fun _ => ih

theorem doze_leaves (hc : c.pid ∈ h.known) (seconds : ℚ) (turns : Nat) :
    Triple (machine apart) h.Of (doze p c seconds turns) (leaves (fun _ => h) E) :=
  still_bind still_monotonic fun _ => dozing_leaves hc _ turns

theorem halted_within (hs : c.pid ∈ h.stopped) : (h.halted c.pid).Within h :=
  ⟨subset_rfl, subset_rfl, Set.insert_subset hs subset_rfl, rfl⟩

/-- The child may be stopped between the steps. -/
theorem loadSteps_leaves (hc : c.pid ∈ h.known) (hs : c.pid ∈ h.stopped) (pattern : Pattern)
    (blockEnd : ℚ) (turns n steps : Nat) :
    Triple (machine apart) h.Of (loadSteps p c pattern blockEnd turns n steps)
      (leaves (fun _ => h) E) := by
  induction n generalizing steps with
  | zero => exact triple_cut fun _ _ => trivial
  | succ n ih =>
    refine still_bind still_monotonic fun now =>
      triple_ite (fun _ => triple_bind (poll_leaves hc) fun rc => ?_) fun _ => pure_leaves (.refl h)
    cases rc with
    | some rc => exact pure_leaves (Hold.ended_within h c.pid)
    | none =>
      refine still_bind still_aborted fun stop : Bool =>
        triple_ite (fun _ => pure_leaves (.refl h)) fun _ => ?_
      refine triple_bind (triple_within (cont_leaves hc) (.refl h)
        fun _ => Hold.continued_within h c.pid) fun _ => ?_
      refine still_bind (calls_perform rfl) fun on => triple_bind (doze_leaves hc on turns)
        fun _ => still_bind still_monotonic fun now =>
          triple_ite (fun _ => pure_leaves (.refl h)) fun _ => ?_
      exact triple_bind (triple_within (halt_leaves hc) (.refl h) fun _ => halted_within hs) fun _ =>
        still_bind (calls_perform rfl) fun off => triple_bind (doze_leaves hc off turns)
          fun _ => ih _

theorem patterns_leaves (hc : c.pid ∈ h.known) (hs : c.pid ∈ h.stopped) (turns n steps : Nat) :
    Triple (machine apart) h.Of (patterns p c turns n steps) (leaves (fun _ => h) E) := by
  induction n generalizing steps with
  | zero => exact triple_cut fun _ _ => trivial
  | succ n ih =>
    refine triple_bind (poll_leaves hc) fun rc => ?_
    cases rc with
    | some rc => exact pure_leaves (Hold.ended_within h c.pid)
    | none =>
      refine still_bind still_aborted fun stop : Bool =>
        triple_ite (fun _ => pure_leaves (.refl h)) fun _ => ?_
      refine still_bind still_remaining fun left =>
        triple_ite (fun _ => ?_) fun _ => pure_leaves (.refl h)
      exact still_bind still_choosePattern fun pattern => still_bind still_monotonic fun now =>
        triple_bind (loadSteps_leaves hc hs pattern _ turns turns steps) fun steps => ih steps

/-- A child that can run is brought to end. -/
theorem transientEnd_leaves (hc : c.pid ∈ h.known) (hrun : c.pid ∉ h.stopped) (turns : Nat) :
    Triple (machine apart) h.Of (transientEnd p c turns) (leaves (fun _ => h.ended c.pid) E) := by
  refine triple_bind (poll_leaves hc) fun rc => ?_
  cases rc with
  | some rc =>
    exact still_end (b := false) (calls_bind still_transientEarly fun _ => calls_pure _) nofun
  | none =>
    refine triple_bind (ask_leaves hc hrun rfl) fun _ => still_bind still_monotonic fun now =>
      triple_bind (wait_leaves hc _ false turns) fun rc => ?_
    cases rc with
    | some rc => exact pure_leaves (.refl _)
    | none =>
      exact triple_bind (stop_leaves hc 45 rfl turns) fun _ =>
        still_end (b := false) (calls_bind (still_add _) fun _ => calls_pure _) nofun

theorem transientRun_leaves (hapart : apart = true → h.paused = true) (turns : Nat) :
    Leaves apart h (transientRun u p turns) := by
  refine leaves_bind (leaves_still (still_memBudgetMib _)) fun budget =>
    still_bind (calls_perform rfl) fun cpus => ?_
  refine start_bind hapart (fun _ => id) (fun _ => trivial) fun c hc => ?_
  -- The child may be stopped while the patterns are applied, and is not once they have been.
  have hsteps : Triple (machine apart) (h.started c.pid).Of (patterns p c turns turns 0)
      (leaves (fun _ => (h.started c.pid).halted c.pid) fun _ => False) :=
    triple_within (patterns_leaves (h := (h.started c.pid).halted c.pid) hc
      (Set.mem_insert c.pid _) turns turns 0)
      ⟨subset_rfl, subset_rfl, Set.subset_insert c.pid _, rfl⟩ fun _ => .refl _
  have hcont : ∀ {E : World → Prop}, Triple (machine apart) ((h.started c.pid).halted c.pid).Of
      (c.sendSignal .cont) (leaves (fun _ => h.started c.pid) E) := by
    refine triple_within (cont_leaves (h := (h.started c.pid).halted c.pid) hc)
      (.refl _) fun _ => ⟨subset_rfl, subset_rfl, ?_, rfl⟩
    exact fun q hq => hq.1.resolve_left hq.2
  refine triple_bind (R := fun _ => (h.started c.pid).Of)
    (triple_finally hsteps (fun _ => hcont) triple_false) fun steps => ?_
  refine triple_bind (transientEnd_leaves hc (fun hs => hs.2 rfl) turns) fun rc =>
    leaves_ended (leaves_still (b := false) ?_)
  exact calls_bind still_close fun _ => calls_bind (still_outputTail _) fun _ =>
    calls_bind (still_addAll _) fun _ => still_add _

end Transient

end Workloads

/-! ## The scans -/

section Scans

variable {apart : Bool} {E : World → Prop} {u : Tables} {s : Setup} {p : Phase}

/-- Nothing has been started, and the scans go on. -/
def Hold.rest : Hold := { known := ∅, atLarge := ∅, stopped := ∅, paused := false }

/-- The scans are paused, if there are any. -/
def Hold.quiet (s : Setup) : Hold := { Hold.rest with paused := s.diskManager.isSome }

theorem pauseScans_leaves :
    Triple (machine apart) Hold.rest.Of (pauseScans s) (leaves (fun _ => Hold.quiet s) E) := by
  refine triple_ite (fun hdm => triple_perform (fun _ hw => hw.paused) fun w _ hw _ => ?_)
    fun hdm => pure_leaves ⟨subset_rfl, subset_rfl, subset_rfl, (Bool.not_eq_true _ ▸ hdm).symm⟩
  exact ⟨hw.known, hw.atLarge, hw.stopped, hdm.symm⟩

theorem resumeScans_leaves {h : Hold} (hh : h.Within (Hold.quiet s)) :
    Triple (machine apart) h.Of (resumeScans s) (leaves (fun _ => Hold.rest) E) := by
  refine triple_ite (fun hdm => triple_perform (fun w hw => ?_) fun w _ hw _ => ?_)
    fun hdm => triple_pure fun w hw => ?_
  · exact ⟨(hh.of hw).paused.trans hdm, fun pid hpid => (hh.of hw).atLarge pid hpid⟩
  · exact ⟨nofun, (hh.of hw).atLarge, (hh.of hw).stopped, rfl⟩
  · exact ⟨nofun, (hh.of hw).atLarge, (hh.of hw).stopped,
      (hh.of hw).paused.trans (Bool.not_eq_true _ ▸ hdm)⟩

theorem idling_leaves {h : Hold} (turns : Nat) :
    Triple (machine apart) h.Of (idling p turns) (leaves (fun _ => h) E) := by
  induction turns with
  | zero => exact triple_cut fun _ _ => trivial
  | succ turns ih =>
    refine still_bind still_remaining fun left => triple_ite (fun _ => ?_)
      fun _ => pure_leaves (.refl h)
    refine still_bind still_aborted fun stop : Bool =>
      triple_ite (fun _ => pure_leaves (.refl h)) fun _ => ?_
    exact still_bind still_remaining fun left => still_bind (calls_perform rfl) fun _ => ih

theorem idleRun_leaves (turns : Nat) : Leaves apart Hold.rest (idleRun u s p turns) := by
  refine still_bind still_cstateUsage fun before => triple_bind pauseScans_leaves fun _ => ?_
  refine triple_bind (R := fun _ => Hold.rest.Of) (triple_finally
    (idling_leaves (E := fun _ => False) turns)
    (fun _ => resumeScans_leaves (.refl _)) triple_false) fun _ => ?_
  exact still_bind still_cstateUsage fun after =>
    leaves_still (b := false) (calls_ite (still_add _) (still_add _))

/-! ### Everything at once -/

/-- The processes of loads. -/
def pids (loads : List Load) : Set Nat := fun pid => ∃ l ∈ loads, l.child.pid = pid

/-- With loads that were started besides. -/
def Hold.plus (h : Hold) (loads : List Load) : Hold :=
  { h with known := h.known ∪ pids loads, atLarge := h.atLarge ∪ pids loads }

theorem plus_nil_within (h : Hold) : h.Within (h.plus []) := by
  refine ⟨Set.union_subset subset_rfl ?_, Set.subset_union_left, subset_rfl, rfl⟩
  rintro q ⟨l, hl, -⟩
  cases hl

theorem mem_pids_append {loads : List Load} {l : Load} {pid : Nat} :
    pid ∈ pids (loads ++ [l]) ↔ pid ∈ pids loads ∨ pid = l.child.pid := by
  constructor
  · rintro ⟨l', hl', rfl⟩
    rcases List.mem_append.mp hl' with hl' | hl'
    · exact .inl ⟨l', hl', rfl⟩
    · exact .inr (congrArg (fun l : Load => l.child.pid) (List.mem_singleton.mp hl'))
  · rintro (⟨l', hl', rfl⟩ | rfl)
    · exact ⟨l', List.mem_append_left _ hl', rfl⟩
    · exact ⟨l, List.mem_append_right _ List.mem_cons_self, rfl⟩

theorem started_plus_within (h : Hold) (loads : List Load) (l : Load) :
    ((h.plus loads).started l.child.pid).Within (h.plus (loads ++ [l])) where
  known pid hpid := by
    rcases hpid with hpid | hpid
    · exact .inr (.inl hpid)
    · rcases mem_pids_append.mp hpid with hpid | rfl
      · exact .inr (.inr hpid)
      · exact .inl rfl
  atLarge pid hpid := by
    rcases hpid with rfl | hpid | hpid
    · exact .inr (mem_pids_append.mpr (.inr rfl))
    · exact .inl hpid
    · exact .inr (mem_pids_append.mpr (.inl hpid))
  stopped pid hpid := hpid.1
  paused := rfl

theorem startFio_leaves {h : Hold} (hapart : apart = true → h.paused = true) (disk : DiskRef) :
    Triple (machine apart) h.Of (startFio p disk)
      (leaves (fun l => h.started l.child.pid) h.Of) := by
  refine still_bind (calls_perform rfl) fun ok => still_bind_raises (still_orRaise ok) (fun _ =>
    still_bind still_secondsLeft fun left => triple_bind (start_leaves hapart (fun _ => id) _ _ _)
      fun c => pure_leaves (.refl _)) fun _ => id

theorem startIperf_leaves {h : Hold} (hapart : apart = true → h.paused = true) :
    Triple (machine apart) h.Of (startIperf s p)
      (leaves (fun l => h.started l.child.pid) h.Of) :=
  still_bind still_secondsLeft fun _ => triple_bind (start_leaves hapart (fun _ => id) _ _ _)
    fun _ => pure_leaves (.refl _)

/-- What is so once the start of a load has been tried. -/
def Hold.tried (h : Hold) : Option Load → Hold
  | some l => h.started l.child.pid
  | none => h

theorem attempt_leaves {h : Hold} {t : Program Load} (ht : Triple (machine apart) h.Of t
      (leaves (fun l => h.started l.child.pid) h.Of)) :
    Triple (machine apart) h.Of t.attempt (leaves h.tried E) := triple_attempt ht

theorem launchDisks_leaves {h : Hold} (hapart : apart = true → h.paused = true)
    (disks : List DiskRef) (loads : List Load) :
    Triple (machine apart) (h.plus loads).Of (launchDisks p disks loads)
      (leaves (fun r => h.plus r.1) E) := by
  induction disks generalizing loads with
  | nil => exact pure_leaves (.refl _)
  | cons disk disks ih =>
    refine triple_bind (attempt_leaves (startFio_leaves (h := h.plus loads) hapart disk))
      fun r => ?_
    cases r with
    | none => exact pure_leaves (.refl _)
    | some l =>
      exact triple_within (ih (loads ++ [l])) (started_plus_within h loads l) fun _ => .refl _

theorem launchNetwork_leaves {h : Hold} (hapart : apart = true → h.paused = true)
    (loads : List Load) :
    Triple (machine apart) (h.plus loads).Of (launchNetwork s p loads)
      (leaves (fun r => h.plus r.1) E) := by
  refine triple_ite (fun _ => still_bind (still_add _) fun _ => pure_leaves (.refl _)) fun _ => ?_
  refine triple_bind (attempt_leaves (startIperf_leaves (h := h.plus loads) hapart)) fun r => ?_
  cases r with
  | none => exact pure_leaves (.refl _)
  | some l => exact pure_leaves (started_plus_within h loads l)

theorem launch_leaves {h : Hold} (hapart : apart = true → h.paused = true) :
    Triple (machine apart) h.Of (launch s p) (leaves (fun r => h.plus r.1) E) := by
  refine still_bind (calls_perform rfl) fun disks : Option (List DiskRef) => ?_
  cases disks with
  | none => exact pure_leaves (plus_nil_within h)
  | some disks =>
    refine triple_bind (triple_within (launchDisks_leaves hapart disks []) (plus_nil_within h)
      fun _ => .refl _) fun r => triple_ite (fun _ => ?_) fun _ => pure_leaves (.refl _)
    exact launchNetwork_leaves hapart r.1

theorem judgeLoads_leaves {h : Hold} (turns : Nat) (loads : List Load)
    (hloads : pids loads ⊆ h.known) : Leaves apart h (judgeLoads u p turns loads) := by
  induction loads with
  | nil => exact leaves_still (b := false) (calls_pure _)
  | cons l rest ih =>
    have hl : l.child.pid ∈ h.known := hloads ⟨l, List.mem_cons_self, rfl⟩
    have hrest : pids rest ⊆ h.known := fun pid hpid => by
      obtain ⟨l', hl', rfl⟩ := hpid
      exact hloads ⟨l', List.mem_cons_of_mem l hl', rfl⟩
    refine leaves_bind (triple_within (wait_leaves hl _ true turns) (.refl h)
      (Hold.polled_within h l.child.pid)) fun rc => still_bind still_aborted fun stop : Bool =>
        triple_ite (fun _ => leaves_still (b := false) (calls_pure _)) fun _ => ?_
    exact leaves_bind (leaves_still (still_verify l)) fun verified =>
      leaves_bind (leaves_still (b := false) (still_reportLoad l rc verified)) fun _ => ih hrest

theorem underLoad_leaves {h : Hold} (hapart : apart = true → h.paused = true) (turns : Nat)
    (loads : List Load) (hloads : pids loads ⊆ h.known) :
    Leaves apart h (underLoad u p loads turns) :=
  still_bind still_remaining fun _ => leaves_bind (leaves_still (still_memBudgetMib _)) fun _ =>
    still_bind (calls_perform rfl) fun _ => leaves_bind (runStressapptest_leaves hapart _ _ _ _ turns)
      fun _ => judgeLoads_leaves turns loads hloads

theorem combinedBody_leaves {h : Hold} (hapart : apart = true → h.paused = true) (turns : Nat) :
    Triple (machine apart) h.Of (combinedBody u s p turns) (leaves (fun r => h.plus r.1) E) := by
  refine triple_bind (launch_leaves hapart) fun r => triple_ite (fun _ => ?_)
    fun _ => pure_leaves (.refl _)
  refine triple_bind (R := fun _ => (h.plus r.1).Of) (triple_attempt
    (underLoad_leaves (h := h.plus r.1) hapart turns r.1 Set.subset_union_right))
    fun done => pure_leaves (.refl _)

/-- Without some processes. -/
def Hold.minus (h : Hold) (those : Set Nat) : Hold := { h with atLarge := h.atLarge \ those }

theorem release_leaves {h : Hold} (turns : Nat) (loads : List Load)
    (hloads : pids loads ⊆ h.known) :
    Triple (machine apart) h.Of (release turns loads)
      (leaves (fun _ => h.minus (pids loads)) E) := by
  induction loads generalizing h with
  | nil =>
    refine pure_leaves ⟨subset_rfl, fun q hq => ⟨hq, ?_⟩, subset_rfl, rfl⟩
    rintro ⟨l, hl, -⟩
    cases hl
  | cons l rest ih =>
    have hl : l.child.pid ∈ h.known := hloads ⟨l, List.mem_cons_self, rfl⟩
    have hrest : pids rest ⊆ (h.ended l.child.pid).known := fun pid hpid => by
      obtain ⟨l', hl', rfl⟩ := hpid
      exact hloads ⟨l', List.mem_cons_of_mem l hl', rfl⟩
    have hend : Triple (machine apart) (h.ended l.child.pid).Of (release turns rest)
        (leaves (fun _ => h.minus (pids (l :: rest))) E) := by
      refine triple_within (ih hrest) (.refl _) fun _ => ⟨subset_rfl, ?_, Set.sdiff_subset, rfl⟩
      rintro q ⟨⟨hq, hne⟩, hnot⟩
      refine ⟨hq, ?_⟩
      rintro ⟨l', hl', rfl⟩
      rcases List.mem_cons.mp hl' with rfl | hl'
      · exact hne rfl
      · exact hnot ⟨l', hl', rfl⟩
    refine triple_bind (poll_leaves hl) fun rc => ?_
    cases rc with
    | none => exact triple_bind (stop_leaves hl 45 rfl turns) fun _ => hend
    | some rc => exact still_bind still_close fun _ => hend

theorem combinedRun_leaves (hapart : apart = true → s.diskManager.isSome = true) (turns : Nat) :
    Leaves apart Hold.rest (combinedRun u s p turns) := by
  refine triple_bind pauseScans_leaves fun _ => triple_bind
    (combinedBody_leaves (h := Hold.quiet s) hapart turns) fun r => ?_
  refine triple_bind (release_leaves turns r.1 Set.subset_union_right) fun _ => ?_
  refine triple_bind (resumeScans_leaves ⟨Set.empty_subset _, ?_, subset_rfl, rfl⟩) fun _ =>
    leaves_still (still_orRaise r.2)
  rintro q ⟨hq, hnot⟩
  exact hq.resolve_right hnot

end Scans

/-! ## The phases -/

/-- Nothing has been started, and the scans go on. -/
def World.rest : World := ⟨fun _ => .unknown, false⟩

/-- The scans are paused before anything is started. -/
def apart (s : Setup) (k : Kind) : Bool := decide (k = .combined) && s.diskManager.isSome

theorem runOf_leaves (u : Tables) (s : Setup) (p : Phase) (turns : Nat) (k : Kind) :
    Leaves (apart s k) Hold.rest (runOf u s p turns k) := by
  have hnone : ∀ {k' : Kind}, k' ≠ .combined → apart s k' = true → Hold.rest.paused = true :=
    fun hk ha => absurd (of_decide_eq_true (Bool.and_eq_true_iff.mp ha).1) hk
  cases k with
  | cpu => exact cpuTurns_leaves (hnone (by decide)) _ _ _ _ _
  | memory => exact memoryRun_leaves (hnone (by decide)) _
  | ycruncher => exact ycruncherRun_leaves (hnone (by decide)) _
  | mprime => exact mprimeRun_leaves (hnone (by decide)) _
  | transient => exact transientRun_leaves (hnone (by decide)) _
  | idle => exact idleRun_leaves _
  | combined => exact combinedRun_leaves (fun ha => (Bool.and_eq_true_iff.mp ha).2) _

/-- Whatever the children do, and wherever an exception is raised: a phase signals only its own
children, asks none to end that is stopped, and lets the scans go on only once none is at large;
and when it ends, no child is at large and the scans go on. -/
theorem runPhase_leaves_nothing (u : Tables) (s : Setup) (logs : String) (k : Kind)
    (duration : Int) (turns : Nat) (env : Env Op.Answer) :
    let run := (runPhase u s logs k duration turns).exec env
    (run.2 ≠ .cut →
      ((machine (apart s k)).after World.rest run.1).paused = false ∧
      ∀ pid, ¬ (((machine (apart s k)).after World.rest run.1).status pid).AtLarge) ∧
    ∀ pre e post, run.1 = pre ++ e :: post →
      ((machine (apart s k)).after World.rest pre).Allows (apart s k) e.1 := by
  intro run
  have hrest : Hold.rest.Of World.rest := ⟨nofun, nofun, nofun, rfl⟩
  have hgiven : ∀ (t : History) w, (machine (apart s k)).Given w t := by
    intro t
    induction t with
    | nil => exact fun _ => trivial
    | cons e t ih => exact fun w => ⟨trivial, ih _⟩
  have hrun : Leaves (apart s k) Hold.rest (runPhase u s logs k duration turns) :=
    still_bind still_monotonic fun _ => runOf_leaves u s _ turns k
  obtain ⟨hend, hcalls⟩ := triple_sound hrun hrest env (hgiven _ _)
  refine ⟨fun hcut => ?_, hcalls⟩
  have hof : Hold.rest.Of ((machine (apart s k)).after World.rest run.1) := by
    change (leaves (fun _ => Hold.rest) Hold.rest.Of).Holds run.2 _ at hend
    cases hr : run.2 with
    | value a => rw [hr] at hend; exact hend
    | raised => rw [hr] at hend; exact hend
    | cut => exact absurd hr hcut
  exact ⟨hof.paused, fun pid hpid => hof.atLarge pid hpid⟩

end Workload
end PcCheck
