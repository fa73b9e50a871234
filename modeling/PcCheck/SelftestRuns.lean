/-
The self-test of a drive over the final checks of a session (`smart_final`, which `finalize`
calls again after the planned reboots).

A self-test that leaves the log as it was counts as complete on the word of a pass that saw it
run, and that word holds on the boot it was started on alone.
-/
import PcCheck.SmartFinal
import PcCheck.Lib.EventMachine

namespace PcCheck
namespace Smart

/-- One call of `smart_final`: what its passes read, and the boot it comes on. -/
structure Check where
  rounds : List (Device → Option Report)
  last : Device → Option Report
  boot : String

namespace Check

open EventMachine

variable (base : Baselines) (dev : Device) (c : Check) (tests : Selftests)

def run : Selftests × List Note := smartFinal base c.rounds c.last c.boot tests

def step (tests : Selftests) (c : Check) : Option Selftests := some (c.run base tests).1

/-- The record of the device when the call comes to judge it. -/
def record : Selftest := ((waitRounds c.rounds base.keys tests).get? dev).getD {}

/-- The call sets the status to complete, and does not say that the self-test is unfinished. -/
structure Completes (tests : Selftests) (c : Check) : Prop where
  status : ((c.run base tests).1.get? dev).bind Selftest.status = some "complete"
  quiet : ∀ n ∈ (c.run base tests).2, n.device = dev →
    n.call.key ≠ "smart-selftest-unfinished:" ++ dev.key

/-- Two calls that find the drive of a device with one self-test log, progress and serial. -/
structure Alike (c d : Check) : Prop where
  log : result (d.last dev) = result (c.last dev)
  progress : inProgress (d.last dev) = inProgress (c.last dev)
  serial : (d.last dev).bind Report.serial = (c.last dev).bind Report.serial

/-! ## Records -/

/-- The record is the same but for its status, and a self-test once seen running stays seen. -/
structure Continues (r t : Selftest) : Prop where
  started : t.started = r.started
  bootId : t.bootId = r.bootId
  observed : r.observedRunning = true → t.observedRunning = true

theorem Continues.refl (r : Selftest) : Continues r r := ⟨rfl, rfl, id⟩

theorem Continues.trans {r t u : Selftest} (h : Continues r t) (h' : Continues t u) :
    Continues r u :=
  ⟨h'.started.trans h.started, h'.bootId.trans h.bootId, h'.observed ∘ h.observed⟩

theorem waitRound_continues (read : Device → Option Report) (pending : List Device) :
    Continues ((tests.get? dev).getD {})
      (((waitRound read pending tests).2.get? dev).getD {}) := by
  induction pending generalizing tests with
  | nil => exact Continues.refl _
  | cons first pending ih =>
    unfold waitRound
    split
    · refine Continues.trans ?_ (ih _)
      by_cases hdev : dev = first
      · subst hdev
        rw [Dict.get?_set_self]
        exact ⟨rfl, rfl, fun _ => rfl⟩
      · rw [Dict.get?_set_ne tests hdev]
        exact Continues.refl _
    · exact ih tests

theorem waitRounds_continues (rounds : List (Device → Option Report)) (pending : List Device) :
    Continues ((tests.get? dev).getD {}) (((waitRounds rounds pending tests).get? dev).getD {}) := by
  induction rounds generalizing tests pending with
  | nil => exact Continues.refl _
  | cons read rounds ih => exact (waitRound_continues dev tests read pending).trans (ih ..)

/-! ## One call -/

variable {base dev c tests} {info : Baseline}

/-- With a complete self-test no finding of the device says that it is unfinished. -/
theorem key_ne_unfinished {data : Option Report} {boot : String} {r : Selftest} {n : Note}
    (hdone : completed info r data boot = true) (h : n ∈ (finalDevice dev info data boot r).2) :
    n.call.key ≠ "smart-selftest-unfinished:" ++ dev.key := by
  unfold finalDevice at h
  simp only [hdone, if_true, List.append_nil] at h
  rcases List.mem_append.mp h with h | h
  · split at h
    · rw [List.mem_singleton.mp h]
      exact append_ne_append 7 (by decide) (by decide) (by decide) _ _
    · cases h
  · obtain ⟨rest, hkey⟩ := (noted_of_mem_judgement h).key
    rw [hkey]
    exact append_ne_append 6 (by decide) (by decide) (by decide) _ _

theorem run_get? (hbase : base.get? dev = some info) : (c.run base tests).1.get? dev =
    some (finalDevice dev info (c.last dev) c.boot (record base dev c tests)).1 :=
  smartFinal_get? c.last c.boot c.rounds tests hbase

theorem status_iff (hbase : base.get? dev = some info) :
    ((c.run base tests).1.get? dev).bind Selftest.status = some "complete" ↔
      completed info (record base dev c tests) (c.last dev) c.boot = true := by
  rw [run_get? hbase]
  cases hdone : completed info (record base dev c tests) (c.last dev) c.boot with
  | false => simp [finalDevice, hdone]
  | true => simp [finalDevice, hdone]

theorem completes_iff (hbase : base.get? dev = some info) : Completes base dev tests c ↔
    completed info (record base dev c tests) (c.last dev) c.boot = true := by
  rw [← status_iff hbase]
  constructor
  · exact Completes.status
  · intro hstatus
    refine ⟨hstatus, fun n hn hdev => ?_⟩
    obtain ⟨dev', info', hbase', hn⟩ := (mem_smartFinal c.last c.boot c.rounds tests).mp hn
    obtain rfl : dev' = dev := (device_of_mem_finalDevice hn).symm.trans hdev
    obtain rfl := Option.some.inj (hbase'.symm.trans hbase)
    exact key_ne_unfinished ((status_iff hbase).mp hstatus) hn

theorem record_continues : Continues ((tests.get? dev).getD {}) (record base dev c tests) :=
  waitRounds_continues dev tests c.rounds base.keys

theorem run_continues (hbase : base.get? dev = some info) :
    Continues (record base dev c tests) (((c.run base tests).1.get? dev).getD {}) := by
  rw [run_get? hbase]
  exact ⟨rfl, rfl, id⟩

/-! ## The calls after one that completes -/

/-- What a call that completes leaves of the record of the device, by the log it found. -/
structure Held (info : Baseline) (dev : Device) (log : Fingerprint) (boot : Option String)
    (tests : Selftests) : Prop where
  started : ((tests.get? dev).getD {}).started = true
  bootId : ((tests.get? dev).getD {}).bootId = boot
  observed : log = info.selftestLog → ((tests.get? dev).getD {}).observedRunning = true

theorem Held.of_continues {log : Fingerprint} {boot : Option String} {t : Selftests}
    (h : Held info dev log boot tests)
    (ht : Continues ((tests.get? dev).getD {}) ((t.get? dev).getD {})) :
    Held info dev log boot t :=
  ⟨ht.started.trans h.started, ht.bootId.trans h.bootId, fun hlog => ht.observed (h.observed hlog)⟩

theorem held_of_completed (hbase : base.get? dev = some info)
    (hdone : completed info (record base dev c tests) (c.last dev) c.boot = true) :
    Held info dev (result (c.last dev)).2 ((tests.get? dev).getD {}).bootId
      (c.run base tests).1 := by
  simp only [completed, Bool.and_eq_true, Bool.or_eq_true, decide_eq_true_eq] at hdone
  obtain ⟨⟨⟨hstarted, -⟩, -⟩, hlog⟩ := hdone
  have hrun : Continues (record base dev c tests) (((c.run base tests).1.get? dev).getD {}) :=
    run_continues hbase
  constructor
  · exact hrun.started.trans hstarted
  · exact hrun.bootId.trans record_continues.bootId
  · intro hsame
    rcases hlog with hne | hseen
    · exact absurd hsame hne
    · exact hrun.observed hseen.1

/-- A later call completes the self-test again exactly when the log has changed, or it comes on
the boot the self-test was started on. -/
theorem Held.completes_iff {boot : Option String} {d : Check}
    (h : Held info dev (result (c.last dev)).2 boot tests) (hbase : base.get? dev = some info)
    (hpassed : (result (c.last dev)).1 = some true) (hidle : inProgress (c.last dev) = false)
    (hsame : Alike dev c d) : Completes base dev tests d ↔
      (result (c.last dev)).2 ≠ info.selftestLog ∨ boot = some d.boot := by
  have hrecord : Continues ((tests.get? dev).getD {}) (record base dev d tests) :=
    record_continues
  rw [Check.completes_iff hbase]
  simp only [completed, hsame.log, hsame.progress, hpassed, hidle, hrecord.started, h.started,
    hrecord.bootId, h.bootId, decide_true, Bool.not_false, Bool.and_true, Bool.true_and,
    Bool.or_eq_true, Bool.and_eq_true, decide_eq_true_eq]
  apply or_congr_right'
  intro hlog
  exact and_iff_right (hrecord.observed (h.observed (not_not.mp hlog)))

/-- A completed self-test stays completed exactly when its log has changed since the baseline,
or every later call comes on the boot it was started on. -/
theorem stays_complete_iff (base : Baselines) (dev : Device) (info : Baseline) (c : Check)
    (later : List Check) (tests : Selftests) (hbase : base.get? dev = some info)
    (hdone : ((c.run base tests).1.get? dev).bind Selftest.status = some "complete")
    (hsame : ∀ d ∈ later, Alike dev c d) :
    Along (step base) (Completes base dev) (c.run base tests).1 later ↔
      (result (c.last dev)).2 ≠ info.selftestLog ∨
        ∀ d ∈ later, ((tests.get? dev).getD {}).bootId = some d.boot := by
  have hcompleted := (status_iff hbase).mp hdone
  have hheld := held_of_completed hbase hcompleted
  generalize ((tests.get? dev).getD {}).bootId = boot at hheld ⊢
  simp only [completed, Bool.and_eq_true, decide_eq_true_eq, Bool.not_eq_true'] at hcompleted
  obtain ⟨⟨⟨-, hpassed⟩, hidle⟩, -⟩ := hcompleted
  generalize (c.run base tests).1 = t at hheld ⊢
  induction later generalizing t with
  | nil => exact iff_of_true trivial (Or.inr fun d hd => absurd hd List.not_mem_nil)
  | cons d later ih =>
    have hfirst := hheld.completes_iff hbase hpassed hidle (hsame d List.mem_cons_self)
    have hnext : Held info dev (result (c.last dev)).2 boot (d.run base t).1 :=
      hheld.of_continues (record_continues.trans (run_continues hbase))
    have hrest := ih (fun e he => hsame e (List.mem_cons_of_mem d he)) (d.run base t).1 hnext
    rw [List.forall_mem_cons, or_and_left, ← hfirst]
    refine Iff.trans ?_ (and_congr_right fun _ => hrest)
    constructor
    · intro h
      exact ⟨h.1, h.2 _ rfl⟩
    · intro h
      refine ⟨h.1, fun u hu => ?_⟩
      obtain rfl := Option.some.inj hu
      exact h.2

def scsi (running : Bool) : Report :=
  { serial := some "S1", scsiErrors := some Dict.empty,
    scsiSelftest := some { value := some 0, inProgress := running } }

def ses : Device := { name := "/dev/sdc", type := "scsi" }

/-- A self-test whose result reads like the one before it, seen running on its boot. -/
def seenRunning : Check :=
  { rounds := [fun _ => some (scsi true)], last := fun _ => some (scsi false), boot := "b1" }

/-- The self-tests that were started on the boot `b1`. -/
def onBoot : Selftests :=
  (startSelftests false "b1" (fun _ => (0, "", "")) [(ses, baselineOf (scsi false) ses)]
    Dict.empty).1

def scsiBase : Baselines := Dict.empty.set ses (baselineOf (scsi false) ses)

theorem stays_complete_iff_scsi :
    Along (step scsiBase) (Completes scsiBase ses) (seenRunning.run scsiBase onBoot).1
        [{ seenRunning with rounds := [] }] ↔
      (result (seenRunning.last ses)).2 ≠ (baselineOf (scsi false) ses).selftestLog ∨
        ∀ d ∈ [{ seenRunning with rounds := [] }],
          ((onBoot.get? ses).getD {}).bootId = some (Check.boot d) :=
  stays_complete_iff scsiBase ses (baselineOf (scsi false) ses) seenRunning _ onBoot rfl
    (by decide +kernel) (by
      intro d hd
      obtain rfl := List.mem_singleton.mp hd
      exact ⟨rfl, rfl, rfl⟩)

/-- After a planned reboot the completed self-test is called unfinished. -/
theorem unfinished_after_reboot :
    ¬ ∀ (base : Baselines) (dev : Device) (info : Baseline) (c : Check) (later : List Check)
      (tests : Selftests), base.get? dev = some info →
      ((c.run base tests).1.get? dev).bind Selftest.status = some "complete" →
      (∀ d ∈ later, Alike dev c d) →
      Along (step base) (Completes base dev) (c.run base tests).1 later := by
  intro h
  have hall := h scsiBase ses (baselineOf (scsi false) ses) seenRunning
    [{ seenRunning with rounds := [], boot := "b2" }] onBoot rfl (by decide +kernel) (by
      intro d hd
      obtain rfl := List.mem_singleton.mp hd
      exact ⟨rfl, rfl, rfl⟩)
  have hstatus := hall.1.status
  exact absurd hstatus (by decide +kernel)

end Check
end Smart
end PcCheck
