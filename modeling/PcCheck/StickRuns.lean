/-
The unfinished sessions of a stick (`Session.open`, `save` and `finish` of `session.py`).

The stick is plugged into one machine after the other, so one process at a time has a
session open.  It starts with `open`, changes and saves its state any number of times,
finishes it perhaps, and ends at any point, which can cut a save short.  Pointer files
are damaged and lost at any time.  `Inv` says that no machine has two unfinished
sessions, and that the machine of the running process has none but its own.
-/
import PcCheck.Sticks
import PcCheck.Lib.EventMachine

namespace PcCheck
namespace StickRuns

open EventMachine

structure Process where
  name : String
  session : Session

structure World where
  stick : Stick
  proc : Option Process

inductive Event where
  | start (o : Opening)
  /-- The state has changed and is saved. -/
  | update (st : SessionState) (outcomes : List Attempt)
  | finish (status : SessionStatus) (now : String) (outcomes : List Attempt) (unlinked : Bool)
  | pointer (machineId : String) (p : Pointer)
  /-- The process ends, and a save it was in loses the copy of a slot. -/
  | stop (torn : Option Place)

def Process.machineId (p : Process) : String := p.session.state.identity.machineId

def process : Opened → Process
  | .resumed name session => ⟨name, session⟩
  | .created name session => ⟨name, session⟩

namespace World

def store (w : World) (p : Process) : SessionStore :=
  { mem := p.session, files := (w.stick.entry p.name).states }

def keep (w : World) (p : Process) (s : SessionStore) : World :=
  { stick := w.stick.file p.name s.files, proc := some { p with session := s.mem } }

def setPointer (w : World) (machineId : String) (p : Pointer) : World :=
  { w with stick := { w.stick with active := Function.update w.stick.active machineId p } }

def torn (w : World) (p : Process) (place : Place) : World :=
  { stick := w.stick.file p.name (Register.tear (w.stick.entry p.name).states place),
    proc := none }

end World

def step (w : World) : Event → Option World
  | .start o =>
    match w.proc with
    | some _ => none
    | none =>
      some { stick := (w.stick.openSession o).1,
             proc := (w.stick.openSession o).2.toOption.map process }
  | .update st outcomes =>
    match w.proc with
    | some p =>
      -- nothing writes the identity of a session that is open
      if st.identity = p.session.state.identity then
        some (w.keep p ((w.store p).update (fun _ => st) outcomes))
      else none
    | none => none
  | .finish status now outcomes unlinked =>
    match w.proc with
    | some p =>
      let t := w.keep p ((w.store p).finish status now outcomes)
      some (if unlinked then t.setPointer p.machineId .missing else t)
    | none => none
  | .pointer machineId p => some (w.setPointer machineId p)
  | .stop torn =>
    match w.proc, torn with
    | some p, some place => some (w.torn p place)
    | _, _ => some { w with proc := none }

def opened : World := { stick := Stick.blank, proc := none }

/-! ## The invariant -/

def OfMachine (machineId : String) (files : RotatingFiles SessionState) : Prop :=
  ∀ place c, files place = some c → c.val.identity.machineId = machineId

structure Inv (w : World) : Prop where
  owned : ∀ name, ∃ machineId, OfMachine machineId (w.stick.entry name).states
  one : ∀ machineId a b, w.stick.Unfinished machineId a → w.stick.Unfinished machineId b → a = b
  own : ∀ p, w.proc = some p → OfMachine p.machineId (w.stick.entry p.name).states
  alone : ∀ p, w.proc = some p → ∀ name, name ≠ p.name → ¬ w.stick.Unfinished p.machineId name

variable {w t : World}

theorem inv_opened : Inv opened where
  owned := fun _ => ⟨"", fun _ _ h => by cases h⟩
  one := fun _ _ _ h => by cases h
  own := fun _ h => by cases h
  alone := fun _ h => by cases h

theorem OfMachine.write {machineId : String} {files : RotatingFiles SessionState}
    (h : OfMachine machineId files) {st : SessionState} (hst : st.identity.machineId = machineId)
    (seq : Int) : OfMachine machineId (files.writeRotating st seq) := by
  intro place c hc
  unfold RotatingFiles.writeRotating at hc
  by_cases hplace : place = Place.ofSeq seq
  · rw [hplace] at hc
    obtain rfl : ⟨st, seq⟩ = c :=
      Option.some.inj ((Register.put_self files ⟨st, seq⟩).symm.trans hc)
    exact hst
  · rw [Register.put_of_ne files ⟨st, seq⟩ hplace] at hc
    exact h place c hc

theorem OfMachine.save {machineId : String} {s : SessionStore} (h : OfMachine machineId s.files)
    (hst : s.mem.state.identity.machineId = machineId) (outcomes : List Attempt) :
    OfMachine machineId (s.save outcomes).files := by
  rw [SessionStore.save]
  cases hr : SessionStore.retries 5 outcomes with
  | none =>
    rw [SessionStore.saveLoop_of_no_retries hr]
    exact h
  | some k =>
    rw [SessionStore.saveLoop_of_retries hr]
    exact h.write hst _

theorem OfMachine.tear {machineId : String} {files : RotatingFiles SessionState}
    (h : OfMachine machineId files) (place : Place) :
    OfMachine machineId (Register.tear files place) := by
  intro place' c hc
  by_cases hplace : place' = place
  · rw [hplace, Register.tear_self] at hc
    cases hc
  · rw [Register.tear_of_ne files hplace] at hc
    exact h place' c hc

theorem machineId_of_found {files : RotatingFiles SessionState} {machineId : String}
    {found : SessionState × Int} (h : SessionStore.findRunning files machineId = some found) :
    found.1.identity.machineId = machineId := by
  have hread := (SessionStore.findRunning_eq_some h).1
  unfold SessionStore.findRunning at h
  rw [hread] at h
  dsimp only at h
  split at h
  · rename_i hrun
    exact hrun.2
  · cases h

/-- A directory of one machine holds no unfinished session of another. -/
theorem machine_of_unfinished {stick : Stick} {machineId other name : String}
    (h : OfMachine machineId (stick.entry name).states) (hun : stick.Unfinished other name) :
    other = machineId := by
  obtain ⟨found, hfound⟩ := Option.isSome_iff_exists.mp hun
  have hread := (SessionStore.findRunning_eq_some hfound).1
  rcases RotatingFiles.readRotating_cases (stick.entry name).states with
    hnone | ⟨place, c, hc, hcopy⟩
  · rw [hnone] at hread
    cases hread
  · rw [hcopy] at hread
    obtain ⟨hval, -⟩ := Prod.mk.inj hread
    rw [← machineId_of_found hfound, ← Option.some.inj hval]
    exact h place c hc

theorem unfinished_congr {s u : Stick} {machineId name : String} (h : s.entry name = u.entry name) :
    s.Unfinished machineId name ↔ u.Unfinished machineId name := by
  rw [Stick.Unfinished, Stick.Unfinished, h]

/-- The rule for a step that writes the state files of one directory, when no other holds an
unfinished session of its machine. -/
theorem inv_file (h : Inv w) {machineId name : String} {files : RotatingFiles SessionState}
    (hof : OfMachine machineId files)
    (halone : ∀ other, other ≠ name → ¬ w.stick.Unfinished machineId other)
    (hstick : t.stick.sessions = (w.stick.file name files).sessions)
    (hproc : ∀ p, t.proc = some p → p.name = name ∧ p.machineId = machineId) : Inv t := by
  have hown : (t.stick.entry name).states = files := by
    rw [Stick.entry_of_sessions hstick, Stick.file, Stick.entry_put_self]
  have hother : ∀ other, other ≠ name → t.stick.entry other = w.stick.entry other := by
    intro other hne
    rw [Stick.entry_of_sessions hstick, Stick.file, Stick.entry_put_ne _ hne]
  have hfree : ∀ other, other ≠ name → ¬ t.stick.Unfinished machineId other := by
    intro other hne hun
    exact halone other hne ((unfinished_congr (hother other hne)).mp hun)
  have hname : ∀ m, t.stick.Unfinished m name → m = machineId :=
    fun m hun => machine_of_unfinished (by rw [hown]; exact hof) hun
  refine ⟨fun other => ?_, fun m a b ha hb => ?_, fun p hp => ?_, fun p hp other hne => ?_⟩
  · by_cases hne : other = name
    · exact ⟨machineId, by rw [hne, hown]; exact hof⟩
    · rw [hother other hne]
      exact h.owned other
  · by_cases hane : a = name
    · subst hane
      by_contra hne
      obtain rfl := hname m ha
      exact hfree b (Ne.symm hne) hb
    · by_cases hbne : b = name
      · subst hbne
        obtain rfl := hname m hb
        exact absurd ha (hfree a hane)
      · exact h.one m a b ((unfinished_congr (hother a hane)).mp ha)
          ((unfinished_congr (hother b hbne)).mp hb)
  · obtain ⟨rfl, rfl⟩ := hproc p hp
    rw [hown]
    exact hof
  · obtain ⟨rfl, rfl⟩ := hproc p hp
    exact hfree other hne

/-! ## Every step -/

/-- The condition on a run: an `open` that has an unfinished session of its machine to find
comes by one, and a directory that `open` creates is not on the stick yet. -/
def Admitted (w : World) : Event → Prop
  | .start o =>
    (∀ name, w.stick.Unfinished o.identity.machineId name → w.stick.InReach o) ∧
      (¬ w.stick.InReach o → o.name ∉ w.stick.sessions.keys)
  | _ => True

theorem machineId_save (s : SessionStore) (name : String) (outcomes : List Attempt) :
    Process.machineId ⟨name, (s.save outcomes).mem⟩ = s.mem.state.identity.machineId := by
  obtain ⟨n, hmem⟩ := s.save_mem outcomes
  rw [Process.machineId, hmem]

theorem entry_of_absent {stick : Stick} {name : String} (h : name ∉ stick.sessions.keys) :
    stick.entry name = {} := by
  unfold Stick.entry
  split
  · rename_i d hd
    exact absurd (List.mem_map_of_mem (f := Prod.fst) (Dict.get?_eq_some_iff.mp hd)) h
  · rfl

theorem inv_start (h : Inv w) {o : Opening} (hw : Admitted w (.start o))
    (ht : step w (.start o) = some t) : Inv t := by
  simp only [step] at ht
  split at ht
  · cases ht
  · obtain rfl := Option.some.inj ht
    have hfound := Stick.resumes_iff_found w.stick o
    rw [Stick.resumes_iff_inReach] at hfound
    rcases w.stick.openSession_cases o with
      ⟨name, found, hfind, hopen⟩ | ⟨hfind, -, hsessions, hres⟩ | ⟨⟨e, hopen⟩, -⟩
    · have hun := Stick.unfinished_of_findRunning hfind
      obtain ⟨machineId, hof⟩ := h.owned name
      obtain rfl := machine_of_unfinished hof hun
      have hid : (found.1.resume o.machine).identity.machineId = o.identity.machineId := by
        rw [(SessionState.resume_frame found.1 o.machine).2]
        exact machineId_of_found (Stick.found_of_findRunning hfind)
      rw [hopen]
      refine inv_file h (hof.save hid o.outcomes)
        (fun other hne hother => hne (h.one _ other name hother hun)) rfl fun p hp => ?_
      obtain rfl := Option.some.inj hp
      exact ⟨rfl, (machineId_save ..).trans hid⟩
    · have hreach : ¬ w.stick.InReach o := by
        rw [hfound, hfind]
        intro hex
        obtain ⟨name, found, hsome⟩ := hex
        cases hsome
      have hnone : ∀ other, ¬ w.stick.Unfinished o.identity.machineId other :=
        fun other hun => hreach (hw.1 other hun)
      have hempty : OfMachine o.identity.machineId (w.stick.entry o.name).states := by
        rw [entry_of_absent (hw.2 hreach)]
        exact fun place c hc => by cases hc
      refine inv_file h (hempty.save rfl o.outcomes) (fun other _ => hnone other) hsessions
        fun p hp => ?_
      rw [hres] at hp
      cases hp' : o.pointed with
      | false =>
        rw [hp'] at hp
        cases hp
      | true =>
        rw [hp'] at hp
        obtain rfl := Option.some.inj hp
        exact ⟨rfl, machineId_save ..⟩
    · rw [hopen]
      exact ⟨h.owned, h.one, fun p hp => (by cases hp), fun p hp => (by cases hp)⟩

theorem inv_step {e : Event} (h : Inv w) (hw : Admitted w e) (ht : step w e = some t) : Inv t := by
  cases e with
  | start o => exact inv_start h hw ht
  | update st outcomes =>
    simp only [step] at ht
    split at ht
    · rename_i p hp
      obtain ⟨hsame, hsome⟩ := Option.ite_none_right_eq_some.mp ht
      obtain rfl := Option.some.inj hsome
      have hid : st.identity.machineId = p.machineId := congrArg Identity.machineId hsame
      refine inv_file h ((h.own p hp).save hid outcomes) (h.alone p hp) rfl fun q hq => ?_
      obtain rfl := Option.some.inj hq
      exact ⟨rfl, (machineId_save ..).trans hid⟩
    · cases ht
  | finish status now outcomes unlinked =>
    simp only [step] at ht
    split at ht
    · rename_i p hp
      obtain rfl := Option.some.inj ht
      have hfile : Inv (w.keep p ((w.store p).finish status now outcomes)) := by
        refine inv_file h ((h.own p hp).save rfl outcomes) (h.alone p hp) rfl fun q hq => ?_
        obtain rfl := Option.some.inj hq
        exact ⟨rfl, machineId_save ..⟩
      cases unlinked
      · exact hfile
      · exact ⟨hfile.owned, hfile.one, hfile.own, hfile.alone⟩
    · cases ht
  | pointer machineId p =>
    obtain rfl := Option.some.inj ht
    exact ⟨h.owned, h.one, h.own, h.alone⟩
  | stop torn =>
    simp only [step] at ht
    split at ht
    · rename_i p place hp
      obtain rfl := Option.some.inj ht
      exact inv_file h ((h.own p hp).tear place) (h.alone p hp) rfl fun q hq => by cases hq
    · obtain rfl := Option.some.inj ht
      exact ⟨h.owned, h.one, fun q hq => (by cases hq), fun q hq => (by cases hq)⟩

/-- A first start that a power cut ends, and the start of the machine after it. -/
def cutShort : List Event := [.start Stick.firstStart, .stop none, .start Stick.firstStart]

end StickRuns
end PcCheck
