/-
Stopping the write tests (`DiskManager.stop`, `save_progress` and `WriteVerify.finished` of
`disks.py`, `ManagedProcess.stop` of `util.py`).

`stop` runs on the main thread and goes through the write tests without a lock.  Meanwhile
the heartbeat and the scan threads call `save_progress`, one at a time under the session
lock, and each call asks `finished` of every write test.  Every read and write of something
another thread can see is a step of its own, and a process exits at any time and with any
code.  `stop` is called once in the life of a manager.  The surface scans have entries of
their own in `disk_scans` and are left out.
-/
import PcCheck.Disks

namespace PcCheck
namespace DiskStops

/-- Where a call of `finished` stands. -/
inductive Finishing where
  | called
  /-- It has read `done` as false. -/
  | polling
  | ended (rc : Int)
  /-- It has set `done`. -/
  | closed (rc : Int)
  | returned (result : Bool)
  deriving DecidableEq

def Finishing.code : Finishing → Option Int
  | .ended rc => some rc
  | .closed rc => some rc
  | _ => none

/-- The two threads that can be in `finished` at once. -/
inductive Thread where
  | saver
  | stopper
  deriving DecidableEq

inductive SaveStage where
  | fetch
  | finishing
  | storing (done : Bool)
  deriving DecidableEq

/-- The thread in `save_progress`, with the write tests it has still to ask. -/
structure Saver (ι : Type) where
  rest : List ι
  stage : SaveStage := .fetch
  /-- It is `stop` that has called it. -/
  own : Bool := false

/-- Where `stop` stands, with the write tests from the one it is at. -/
inductive StopStage (ι : Type) where
  | idle
  | checking (rest : List ι)
  | stopping (rest : List ι)
  /-- The process was running and has been signalled. -/
  | terminating (rest : List ι)
  | stopped (rest : List ι)
  /-- `done` is set. -/
  | marked (rest : List ι)
  | filing (rest : List ι)
  | waiting
  | saving
  | over
  | raised

structure World (ι δ : Type) where
  writers : List ι
  writer : ι → WriteVerify δ
  entries : Dict String ScanEntry
  calling : Thread → Option (ι × Finishing)
  saver : Option (Saver ι)
  stop : StopStage ι
  /-- What has been added to the findings, and for which write test. -/
  calls : List (ι × AddCall)
  /-- The write tests whose processes `stop` has signalled. -/
  terminated : ι → Bool

inductive Event (ι : Type) where
  | enter
  | finish (th : Thread) (now : String)
  | save
  | stop (now : String)
  | exit (i : ι) (rc : Int)

variable {ι δ : Type}

/-- The finding of a test that has ended. -/
def resultCall (w : WriteVerify δ) (rc : Int) (now : String) : AddCall :=
  if rc ≠ 0 then
    { key := s!"writeverify:{w.disk.name}", severity := .fail, component := "Storage",
      title := s!"Write/verify test failed on {w.disk.name} {w.disk.model} SN:{w.disk.serial}",
      recommendation := recDisk, evidence := w.outputTail, now := now }
  else
    { key := s!"writeverify-ok:{w.disk.name}", severity := .info, component := "Storage",
      title := s!"Write/verify pass completed on {w.disk.name} {w.disk.model}", now := now }

def unfinishedCall (w : WriteVerify δ) (now : String) : AddCall :=
  { key := s!"writeverify-unfinished:{w.disk.name}", severity := .warn, component := "Storage",
    title := s!"Write/verify on {w.disk.name} did not finish within the test time",
    incomplete := true, now := now }

/-- The steps of one call, taken together, are `finished`. -/
theorem finished_eq (w : WriteVerify δ) (now : String) :
    w.finished now = if w.done then (w, none) else match w.exitCode with
      | none => (w, none)
      | some rc => ({ w with done := true }, some (resultCall w rc now)) := rfl

namespace World

def ident (w : World ι δ) (i : ι) : String := diskId (w.writer i).disk

def entry (w : World ι δ) (i : ι) : Option ScanEntry := w.entries.get? (w.ident i)

section

variable [DecidableEq ι]

def setDone (w : World ι δ) (i : ι) : World ι δ :=
  { w with writer := Function.update w.writer i { w.writer i with done := true } }

def setEntry (w : World ι δ) (i : ι) (e : ScanEntry) : World ι δ :=
  { w with entries := w.entries.set (w.ident i) e }

def setCall (w : World ι δ) (th : Thread) (c : Option (ι × Finishing)) : World ι δ :=
  { w with calling := Function.update w.calling th c }

def add (w : World ι δ) (i : ι) (c : AddCall) : World ι δ :=
  { w with calls := w.calls ++ [(i, c)] }

/-- One step of `finished`. -/
def finishStep (w : World ι δ) (i : ι) (now : String) : Finishing → Option (World ι δ × Finishing)
  | .called => some (w, if (w.writer i).done then .returned true else .polling)
  | .polling => some (w, match (w.writer i).exitCode with
    | none => .returned false
    | some rc => .ended rc)
  | .ended rc => some (w.setDone i, .closed rc)
  | .closed rc => some (w.add i (resultCall (w.writer i) rc now), .returned true)
  | .returned _ => none

/-- One step of `save_progress` outside `finished`. -/
def saveStep (w : World ι δ) (s : Saver ι) : Option (World ι δ) :=
  match s.rest with
  | [] => some { w with saver := none, stop := if s.own then .over else w.stop }
  | i :: rest =>
    match s.stage with
    | .fetch =>
      match w.entry i with
      | none => some { w with saver := some { s with rest := rest } }
      | some _ =>
        some { w.setCall .saver (some (i, .called)) with
          saver := some { s with stage := .finishing } }
    | .finishing =>
      match w.calling .saver, w.entry i with
      | some (_, .returned result), some e =>
        some { w.setCall .saver none with
          saver := some { s with stage := .storing (result && !e.incomplete) } }
      | _, _ => none
    | .storing done =>
      match w.entry i with
      | some e =>
        some { w.setEntry i { e with done := done } with
          saver := some { s with rest := rest, stage := .fetch } }
      | none => none

/-- The next write test of `stop`, or its `save_progress`. -/
def next (w : World ι δ) : List ι → World ι δ
  | [] => { w with stop := .waiting }
  | i :: rest => { w.setCall .stopper (some (i, .called)) with stop := .checking (i :: rest) }

/-- One step of `DiskManager.stop` outside `finished`. -/
def stopStep (w : World ι δ) (now : String) : Option (World ι δ) :=
  match w.stop with
  | .idle => some (w.next w.writers)
  | .checking (i :: rest) =>
    match w.calling .stopper with
    | some (_, .returned true) => some ((w.setCall .stopper none).next rest)
    | some (_, .returned false) =>
      some { w.setCall .stopper none with stop := .stopping (i :: rest) }
    | _ => none
  | .stopping (i :: rest) =>
    match (w.writer i).exitCode with
    | none =>
      some { w with stop := .terminating (i :: rest),
                    terminated := Function.update w.terminated i true }
    | some _ => some { w with stop := .stopped (i :: rest) }
  -- the process has exited, or could not be killed in time
  | .terminating (i :: rest) => some { w with stop := .stopped (i :: rest) }
  | .stopped (i :: rest) => some { w.setDone i with stop := .marked (i :: rest) }
  | .marked (i :: rest) =>
    match w.entry i with
    | some e => some { w.setEntry i { e with incomplete := true } with stop := .filing (i :: rest) }
    | none => some { w with stop := .raised }
  | .filing (i :: rest) => some ((w.add i (unfinishedCall (w.writer i) now)).next rest)
  | .waiting =>
    match w.saver with
    | none => some { w with saver := some { rest := w.writers, own := true }, stop := .saving }
    | some _ => none
  | _ => none

end

end World

def step [DecidableEq ι] (w : World ι δ) : Event ι → Option (World ι δ)
  | .enter =>
    match w.saver with
    | none => some { w with saver := some { rest := w.writers } }
    | some _ => none
  | .finish th now =>
    match w.calling th with
    | some (i, f) =>
      (w.finishStep i now f).map fun r => r.1.setCall th (some (i, r.2))
    | none => none
  | .save => w.saver.bind w.saveStep
  | .stop now => w.stopStep now
  | .exit i rc =>
    match (w.writer i).exitCode with
    | none =>
      some { w with writer := Function.update w.writer i { w.writer i with exitCode := some rc } }
    | some _ => none

/-- A manager whose write tests are running. -/
def opened (writers : List ι) (disk : ι → Disk δ) (entries : Dict String ScanEntry) : World ι δ :=
  { writers := writers, writer := fun i => { disk := disk i }, entries := entries,
    calling := fun _ => none, saver := none, stop := .idle, calls := [],
    terminated := fun _ => false }

/-! ## What a step leaves alone -/

namespace StopStage

def rest : StopStage ι → List ι
  | checking rest => rest
  | stopping rest => rest
  | terminating rest => rest
  | stopped rest => rest
  | marked rest => rest
  | filing rest => rest
  | _ => []

/-- The write test that has been signalled and is not done yet. -/
def ending : StopStage ι → Option ι
  | terminating rest => rest.head?
  | stopped rest => rest.head?
  | _ => none

/-- The write test that has been signalled and whose entry does not say so yet. -/
def closing : StopStage ι → Option ι
  | marked rest => rest.head?
  | stage => stage.ending

end StopStage

namespace World

variable (w : World ι δ)

def Incomplete (i : ι) : Prop := ∃ e, w.entry i = some e ∧ e.incomplete = true

def NotDone (i : ι) : Prop := ∃ e, w.entry i = some e ∧ e.done = false

/-- The finding is the result of the write test. -/
def IsResult (i : ι) (c : AddCall) : Prop :=
  c.key = s!"writeverify:{(w.writer i).disk.name}" ∨
    c.key = s!"writeverify-ok:{(w.writer i).disk.name}"

/-- `finished` has added the result of the write test, or holds its exit code. -/
def Reported (i : ι) : Prop :=
  (∃ c, (i, c) ∈ w.calls ∧ w.IsResult i c) ∨
    ∃ th f, w.calling th = some (i, f) ∧ f.code.isSome = true

variable {w} {t : World ι δ}

@[simp] theorem disk_setDone [DecidableEq ι] (i j : ι) :
    ((w.setDone i).writer j).disk = (w.writer j).disk := by
  unfold setDone
  by_cases h : j = i
  · subst h
    simp
  · simp [Function.update_of_ne h]

theorem entry_congr {i : ι} (hdisk : (t.writer i).disk = (w.writer i).disk)
    (hentries : t.entries = w.entries) : t.entry i = w.entry i := by
  rw [entry, entry, ident, ident, hdisk, hentries]

theorem entry_setEntry (w : World ι δ) (i j : ι) (e : ScanEntry) :
    (w.setEntry i e).entry j = if w.ident j = w.ident i then some e else w.entry j :=
  Dict.get?_set w.entries (w.ident i) (w.ident j) e

/-- Writing an entry back with another `done` leaves every entry as incomplete as it was. -/
theorem incomplete_setEntry_done {i j : ι} {e : ScanEntry} (he : w.entry i = some e) (done : Bool) :
    (w.setEntry i { e with done := done }).Incomplete j ↔ w.Incomplete j := by
  unfold Incomplete
  rw [entry_setEntry]
  split
  · rename_i hsame
    have hj : w.entry j = some e := by
      rw [entry, hsame]
      exact he
    rw [hj]
    simp
  · rfl

theorem incomplete_setEntry {i j : ι} {e : ScanEntry} (hj : w.Incomplete j ∨ j = i) :
    (w.setEntry i { e with incomplete := true }).Incomplete j := by
  unfold Incomplete
  rw [entry_setEntry]
  split
  · exact ⟨_, rfl, rfl⟩
  · rename_i hne
    rcases hj with hj | rfl
    · exact hj
    · exact absurd rfl hne

theorem notDone_setEntry_done {i j : ι} {e : ScanEntry} (he : w.entry i = some e) {done : Bool}
    (hdone : e.incomplete = true → done = false) (hj : w.NotDone j) (hinc : w.Incomplete j) :
    (w.setEntry i { e with done := done }).NotDone j := by
  obtain ⟨e', he', hnot⟩ := hj
  unfold NotDone
  rw [entry_setEntry]
  split
  · rename_i hsame
    have hsome : w.entry j = some e := by
      rw [entry, hsame]
      exact he
    obtain ⟨e₂, he₂, hflag⟩ := hinc
    obtain rfl := Option.some.inj (he₂.symm.trans hsome)
    exact ⟨_, rfl, hdone hflag⟩
  · exact ⟨e', he', hnot⟩

end World

/-- No other thread asks for the exit code of a process that `stop` has ended, having read
`done` before `stop` set it. -/
def Spares (w : World ι δ) : Event ι → Prop
  | .finish .saver _ => ∀ s i, w.saver = some s → s.own = false →
      w.calling .saver = some (i, .polling) → w.terminated i = true →
        (w.writer i).exitCode = none
  | _ => True

theorem spares_of_ne {e : Event ι} (h : ∀ now, e ≠ .finish .saver now) (w : World ι δ) :
    Spares w e := by
  cases e with
  | finish th now =>
    cases th with
    | saver => exact absurd rfl (h now)
    | stopper => trivial
  | enter => trivial
  | save => trivial
  | stop now => trivial
  | exit i rc => trivial

end DiskStops
end PcCheck
