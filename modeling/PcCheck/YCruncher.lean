/-
What y-cruncher's output is evidence of (`ycruncher.py` and `YCruncherPhase.check_result`).

The output of an invocation is read line by line into counts, sets and lists that are cut at a
length, and the phase is judged by these, the exit code and the time it took.  The patterns of
the lines are parameters: what is proved holds of any, and `source` has those of the source.
-/
import PcCheck.OutputTail
import PcCheck.KernelRules
import Mathlib.Data.List.Dedup

namespace PcCheck
namespace YCruncher

open Workload (lastOf)

def tests : List String := ["SFTv4", "SNT", "SVT", "FFTv4", "N63", "VT3"]

/-- `ALIASES.get(tag, tag)` -/
def aliasOf (tag : String) : String :=
  if tag = "NTT63" then "N63" else if tag = "VSTv3" then "VT3" else tag

/-- The patterns: what `ANSI.sub` leaves, the groups of the two that are matched, and the two
that are searched for. -/
structure Patterns where
  clean : String → String
  passed : String → Option String
  allocation : String → Option (String × String × String)
  fault : String → Bool
  error : String → Bool

/-! ## Reading the output -/

/-- What has been read so far; the fields are the results of `read_evidence`. -/
structure Evidence where
  version : String := ""
  passed : Dict String Nat := Dict.empty
  allocated : List Int := []
  nodes : List Int := []
  finished : Bool := false
  faults : List String := []
  errors : List String := []
  tail : List String := []

/-- A byte before lines. -/
def before (b : UInt8) : List (List UInt8) → List (List UInt8)
  | [] => [[b]]
  | line :: lines => (b :: line) :: lines

/-- The lines of a file, each with the byte that ends it. -/
def rawLines : List UInt8 → List (List UInt8)
  | [] => []
  | b :: rest => if b = 10 then [b] :: rawLines rest else before b (rawLines rest)

/-- `line[:500]` -/
def cut (line : String) : String := String.ofList (line.toList.take 500)

def withoutCommas (s : String) : String := String.ofList (s.toList.filter (· != ','))

def finishedLine : String := "Test Finished. Waiting for threads to terminate..."

section Reading

variable (p : Patterns) (t : DigitTable)

def lineText (raw : List UInt8) : String := strip (p.clean (String.ofList (Utf8.decode raw)))

namespace Evidence

variable (e : Evidence) (line : String)

def noteLine : Evidence :=
  { e with
    tail := lastOf 12 (e.tail ++ [cut line])
    version := if "y-cruncher v".toList <+: line.toList then line else e.version }

def notePassed : Evidence :=
  match p.passed line with
  | some tag =>
    { e with passed := e.passed.set (aliasOf tag) ((e.passed.get? (aliasOf tag)).getD 0 + 1) }
  | none => e

/-- The numbers of an allocation are converted one after the other, and a failure ends the
reading. -/
def noteAllocation : Except PyError Evidence :=
  match p.allocation line with
  | some (core, size, node) => do
    let size ← t.float (withoutCommas size)
    if (PyFloat.finite 0).lt size then
      let core ← t.int core
      let node ← t.int node
      return { e with allocated := e.allocated.insert core, nodes := e.nodes.insert node }
    else return e
  | none => return e

def noteTrouble : Evidence :=
  if p.fault line = true ∧ e.faults.length < 25 then { e with faults := e.faults ++ [cut line] }
  else if p.error line = true ∧ ¬ Occurs "Stop on Error:" line ∧ e.errors.length < 25 then
    { e with errors := e.errors ++ [cut line] }
  else e

def noteFinished : Evidence := if line = finishedLine then { e with finished := true } else e

def readLine : Except PyError Evidence := do
  let e ← ((e.noteLine line).notePassed p line).noteAllocation p t line
  return (e.noteTrouble p line).noteFinished line

end Evidence

def readLines : Evidence → List (List UInt8) → Except PyError Evidence
  | e, [] => .ok e
  | e, raw :: rest =>
    if lineText p raw = "" then readLines e rest
    else
      match e.readLine p t (lineText p raw) with
      | .ok e => readLines e rest
      | .error x => .error x

/-- The sets are returned in order. -/
def Evidence.sorted (e : Evidence) : Evidence :=
  { e with
    allocated := e.allocated.insertionSort (· ≤ ·)
    nodes := e.nodes.insertionSort (· ≤ ·) }

def readEvidence (file : List UInt8) (offset : Nat) : Except PyError Evidence :=
  (readLines p t {} (rawLines (file.drop offset))).map Evidence.sorted

end Reading

/-! ## Judging the evidence -/

/-- What the phase knows besides the output. -/
structure Trial where
  cores : List Int
  seconds : Int
  elapsed : PyFloat
  rc : Option Int
  aborted : Bool
  now : String := ""

/-- `SIGSEGV`, `SIGBUS`, `SIGILL`, `SIGABRT` and `SIGFPE`. -/
def crashSignals : List Int := [11, 7, 4, 6, 8]

def crashed (rc : Option Int) : Bool :=
  crashSignals.any fun sig => decide (rc = some (-sig) ∨ rc = some (128 + sig))

def rcText (rc : Option Int) : String := rc.elim "None" toString

/-- `seconds * 0.9` -/
def nineTenths (seconds : Int) : Except PyError PyFloat :=
  (PyFloat.ofInt seconds).map fun x => x.mul (PyFloat.ofRat (9 / 10))

def missingTests (e : Evidence) : List String :=
  tests.filter fun tag => decide ((e.passed.get? tag).getD 0 < 1)

def missingCores (e : Evidence) (cores : List Int) : List Int :=
  (cores.dedup.filter fun c => decide (c ∉ e.allocated)).insertionSort (· ≤ ·)

def coverageGaps (e : Evidence) (a : Trial) : Except PyError (List String) := do
  let limit ← nineTenths a.seconds
  return (if a.rc ≠ some 0 then
      [s!"Workload did not exit normally (exit code {rcText a.rc})"] else []) ++
    (if e.finished = false then ["Missing normal completion marker"] else []) ++
    (if missingTests e ≠ [] then
      ["No successful test result for: " ++ ", ".intercalate (missingTests e)] else []) ++
    (if missingCores e a.cores ≠ [] then
      ["No memory allocation evidence for cores: " ++
        ", ".intercalate ((missingCores e a.cores).map toString)] else []) ++
    (if a.elapsed.lt limit then
      ["Workload ended early (" ++ a.elapsed.formatWith PyFloat.fixed1 ++ s!"s of {a.seconds}s)"]
      else []) ++
    e.errors

def failCall (e : Evidence) (a : Trial) : AddCall :=
  { key := "ycruncher-fail", severity := .fail, component := "CPU/Memory",
    title := "y-cruncher detected a calculation failure or workload crash",
    detail := "The CPU/cache/memory path is unstable, or the workload has a software " ++
      "fault. This result alone cannot identify a defective DIMM or CPU.",
    recommendation := recCpuMem,
    evidence := if e.faults ≠ [] then e.faults else s!"exit code {rcText a.rc}" :: e.tail,
    now := a.now }

def incompleteCall (gaps : List String) (a : Trial) : AddCall :=
  { key := "ycruncher-incomplete", severity := .warn, component := "Test",
    title := "y-cruncher did not complete all scheduled coverage", incomplete := true,
    evidence := if gaps ≠ [] then gaps else ["Test interrupted by an abort request"],
    now := a.now }

def okCall (e : Evidence) (a : Trial) : AddCall :=
  { key := "ycruncher-ok", severity := .info, component := "CPU/Memory",
    title := "y-cruncher completed all six verified algorithms",
    evidence := [e.version,
        s!"{a.cores.length} cores; " ++ a.elapsed.formatWith PyFloat.fixed0 ++ " seconds; " ++
          s!"allocation NUMA nodes: {e.nodes}"] ++
      tests.map fun tag => s!"{tag}: {(e.passed.get? tag).getD 0} successful tests",
    now := a.now }

/-- The calls that are made, and the exception that ends them if one does. -/
def checkResult (e : Evidence) (a : Trial) : List AddCall × Option PyError :=
  let failed := if e.faults ≠ [] ∨ (crashed a.rc = true ∧ a.aborted = false) then
    [failCall e a] else []
  match coverageGaps e a with
  | .error x => (failed, some x)
  | .ok gaps =>
    (failed ++
      (if gaps ≠ [] ∨ a.aborted = true then [incompleteCall gaps a]
        else if e.faults = [] then [okCall e a] else []), none)

/-- What the phase adds to an empty store, and the exception it ends with. -/
def judge (p : Patterns) (t : DigitTable) (output : List UInt8) (a : Trial) :
    Findings × Option PyError :=
  match readEvidence p t output 0 with
  | .error x => (Findings.new, some x)
  | .ok e => ((Findings.new.addAll (checkResult e a).1), (checkResult e a).2)

/-! ## What the output shows -/

section Shows

variable (p : Patterns) (t : DigitTable)

/-- The lines that are not blank. -/
def textsOf (raws : List (List UInt8)) : List String :=
  (raws.map (lineText p)).filter fun line => decide (line ≠ "")

def texts (output : List UInt8) : List String := textsOf p (rawLines output)

/-- The numbers of the line can be converted, if it is one of an allocation. -/
def Converts (line : String) : Prop :=
  ∀ core size node, p.allocation line = some (core, size, node) →
    ∃ x, t.float (withoutCommas size) = .ok x ∧
      ((PyFloat.finite 0).lt x = true → (∃ c, t.int core = .ok c) ∧ ∃ n, t.int node = .ok n)

/-- The line shows a positive allocation for the core. -/
def Allocates (line : String) (core : Int) : Prop :=
  ∃ c s n x, p.allocation line = some (c, s, n) ∧ t.float (withoutCommas s) = .ok x ∧
    (PyFloat.finite 0).lt x = true ∧ t.int c = .ok core

/-- The line tells of an error, and not of the setting. -/
def Troubled (line : String) : Prop := p.error line = true ∧ ¬ Occurs "Stop on Error:" line

def Passes (line tag : String) : Prop := ∃ word, p.passed line = some word ∧ aliasOf word = tag

/-- The evidence tells of the lines that have been read. -/
structure Tells (e : Evidence) (lines : List String) : Prop where
  faults : e.faults = [] ↔ ∀ l ∈ lines, p.fault l = false
  errors : (∀ l ∈ lines, p.fault l = false) → (e.errors = [] ↔ ∀ l ∈ lines, ¬ Troubled p l)
  passed : ∀ tag, 1 ≤ (e.passed.get? tag).getD 0 ↔ ∃ l ∈ lines, Passes p l tag
  allocated : ∀ core, core ∈ e.allocated ↔ ∃ l ∈ lines, Allocates p t l core
  finished : e.finished = true ↔ finishedLine ∈ lines

end Shows

section Reading

variable {p : Patterns} {t : DigitTable} {e e' : Evidence} {line : String}
  {lines : List String}

theorem forall_mem_concat {P : String → Prop} :
    (∀ l ∈ lines ++ [line], P l) ↔ (∀ l ∈ lines, P l) ∧ P line := by
  simp only [List.forall_mem_append, List.forall_mem_singleton]

theorem exists_mem_concat {P : String → Prop} :
    (∃ l ∈ lines ++ [line], P l) ↔ (∃ l ∈ lines, P l) ∨ P line := by
  simp only [List.mem_append, List.mem_singleton, or_and_right, exists_or, exists_eq_left]

theorem notePassed_passed (tag : String) :
    1 ≤ ((e.notePassed p line).passed.get? tag).getD 0 ↔
      1 ≤ (e.passed.get? tag).getD 0 ∨ Passes p line tag := by
  unfold Evidence.notePassed Passes
  cases hp : p.passed line with
  | none => simp
  | some word =>
    dsimp only
    rw [Dict.get?_set]
    by_cases htag : tag = aliasOf word
    · rw [if_pos htag]
      exact iff_of_true (Nat.succ_pos _) (Or.inr ⟨word, rfl, htag.symm⟩)
    · rw [if_neg htag]
      refine (or_iff_left ?_).symm
      rintro ⟨w, hw, rfl⟩
      exact htag (congrArg aliasOf (Option.some.inj hw)).symm

/-- What `notePassed` does not touch. -/
theorem notePassed_frame (e : Evidence) (line : String) :
    (e.notePassed p line).allocated = e.allocated ∧ (e.notePassed p line).finished = e.finished ∧
      (e.notePassed p line).faults = e.faults ∧ (e.notePassed p line).errors = e.errors := by
  unfold Evidence.notePassed
  cases p.passed line <;> exact ⟨rfl, rfl, rfl, rfl⟩

theorem noteAllocation_of_none (h : p.allocation line = none) :
    e.noteAllocation p t line = .ok e := by
  unfold Evidence.noteAllocation
  rw [h]
  rfl

theorem noteAllocation_of_some {core size node : String}
    (h : p.allocation line = some (core, size, node)) :
    e.noteAllocation p t line = (t.float (withoutCommas size)).bind fun x =>
      if (PyFloat.finite 0).lt x = true then
        (t.int core).bind fun c => (t.int node).bind fun n =>
          .ok { e with allocated := e.allocated.insert c, nodes := e.nodes.insert n }
      else .ok e := by
  unfold Evidence.noteAllocation
  rw [h]
  rfl

/-- A line whose numbers are converted leaves the evidence or adds the core that it allocates. -/
theorem noteAllocation_cases (h : e.noteAllocation p t line = .ok e') :
    Converts p t line ∧
      ((e' = e ∧ ∀ core, ¬ Allocates p t line core) ∨
        ∃ c nodes, e' = { e with allocated := e.allocated.insert c, nodes := nodes } ∧
          ∀ core, Allocates p t line core ↔ core = c) := by
  cases hm : p.allocation line with
  | none =>
    rw [noteAllocation_of_none hm] at h
    refine ⟨fun core size node hall => ?_, Or.inl ⟨(Except.ok.inj h).symm, fun core => ?_⟩⟩
    · cases hm.symm.trans hall
    · rintro ⟨c, s, n, x, hall, -⟩
      cases hm.symm.trans hall
  | some m =>
    obtain ⟨core, size, node⟩ := m
    rw [noteAllocation_of_some hm] at h
    obtain ⟨x, hx, h⟩ := bind_eq_ok.mp h
    by_cases hpos : (PyFloat.finite 0).lt x = true
    · rw [if_pos hpos] at h
      obtain ⟨c, hc, h⟩ := bind_eq_ok.mp h
      obtain ⟨n, hn, h⟩ := bind_eq_ok.mp h
      refine ⟨?_, Or.inr ⟨c, _, (Except.ok.inj h).symm, fun other => ⟨?_, ?_⟩⟩⟩
      · rintro core' size' node' hall
        cases hm.symm.trans hall
        exact ⟨x, hx, fun _ => ⟨⟨c, hc⟩, n, hn⟩⟩
      · rintro ⟨c', s', n', x', hall, -, -, hc'⟩
        cases hm.symm.trans hall
        exact Except.ok.inj (hc'.symm.trans hc)
      · rintro rfl
        exact ⟨core, size, node, x, hm, hx, hpos, hc⟩
    · rw [if_neg hpos] at h
      refine ⟨?_, Or.inl ⟨(Except.ok.inj h).symm, fun other => ?_⟩⟩
      · rintro core' size' node' hall
        cases hm.symm.trans hall
        exact ⟨x, hx, fun h => absurd h hpos⟩
      · rintro ⟨c', s', n', x', hall, hx', hpos', -⟩
        cases hm.symm.trans hall
        cases hx.symm.trans hx'
        exact hpos hpos'

/-- What an allocation line whose numbers are converted comes to. -/
theorem noteAllocation_spec (h : e.noteAllocation p t line = .ok e') :
    Converts p t line ∧ (e'.passed = e.passed ∧ e'.finished = e.finished ∧
      e'.faults = e.faults ∧ e'.errors = e.errors) ∧
      ∀ core, core ∈ e'.allocated ↔ core ∈ e.allocated ∨ Allocates p t line core := by
  obtain ⟨hconv, ⟨rfl, hnone⟩ | ⟨c, nodes, rfl, hcore⟩⟩ := noteAllocation_cases h
  · exact ⟨hconv, ⟨rfl, rfl, rfl, rfl⟩, fun core => (or_iff_left (hnone core)).symm⟩
  · refine ⟨hconv, ⟨rfl, rfl, rfl, rfl⟩, fun core => ?_⟩
    show core ∈ e.allocated.insert c ↔ _
    rw [List.mem_insert_iff, or_comm, hcore]

theorem noteAllocation_of_converts (h : Converts p t line) (e : Evidence) :
    ∃ e', e.noteAllocation p t line = .ok e' := by
  cases hm : p.allocation line with
  | none => exact ⟨e, noteAllocation_of_none hm⟩
  | some m =>
    obtain ⟨core, size, node⟩ := m
    rw [noteAllocation_of_some hm]
    obtain ⟨x, hx, hints⟩ := h core size node hm
    rw [hx]
    show ∃ e', (if (PyFloat.finite 0).lt x = true then _ else _) = Except.ok e'
    by_cases hpos : (PyFloat.finite 0).lt x = true
    · obtain ⟨⟨c, hc⟩, n, hn⟩ := hints hpos
      rw [if_pos hpos, hc, hn]
      exact ⟨_, rfl⟩
    · rw [if_neg hpos]
      exact ⟨_, rfl⟩

theorem noteTrouble_frame (e : Evidence) (line : String) :
    (e.noteTrouble p line).passed = e.passed ∧ (e.noteTrouble p line).allocated = e.allocated ∧
      (e.noteTrouble p line).finished = e.finished := by
  unfold Evidence.noteTrouble
  split
  · exact ⟨rfl, rfl, rfl⟩
  · split <;> exact ⟨rfl, rfl, rfl⟩

theorem noteTrouble_faults (e : Evidence) (line : String) :
    (e.noteTrouble p line).faults = [] ↔ e.faults = [] ∧ p.fault line = false := by
  unfold Evidence.noteTrouble
  cases hfault : p.fault line with
  | false =>
    rw [if_neg (fun h => Bool.false_ne_true h.1), and_iff_left rfl]
    split <;> rfl
  | true =>
    refine iff_of_false ?_ fun h => Bool.false_ne_true h.2.symm
    split
    · exact List.append_ne_nil_of_right_ne_nil _ (List.cons_ne_nil _ _)
    next hlong =>
      -- A list that takes no more lines is not empty.
      have hne : e.faults ≠ [] := by
        intro hnil
        exact hlong ⟨rfl, by rw [hnil]; decide⟩
      split <;> exact hne

theorem noteTrouble_errors (e : Evidence) (hfault : p.fault line = false) :
    (e.noteTrouble p line).errors = [] ↔ e.errors = [] ∧ ¬ Troubled p line := by
  unfold Evidence.noteTrouble
  rw [hfault, if_neg (fun h => Bool.false_ne_true h.1)]
  split
  next h =>
    refine iff_of_false ?_ fun hno => hno.2 ⟨h.1, h.2.1⟩
    exact List.append_ne_nil_of_right_ne_nil _ (List.cons_ne_nil _ _)
  next h =>
    refine (and_iff_left_of_imp ?_).symm
    rintro hnil ⟨herror, hsetting⟩
    exact h ⟨herror, hsetting, by rw [hnil]; decide⟩

theorem noteFinished_frame (e : Evidence) (line : String) :
    (e.noteFinished line).passed = e.passed ∧ (e.noteFinished line).allocated = e.allocated ∧
      (e.noteFinished line).faults = e.faults ∧ (e.noteFinished line).errors = e.errors := by
  unfold Evidence.noteFinished
  split <;> exact ⟨rfl, rfl, rfl, rfl⟩

theorem noteFinished_finished (e : Evidence) (line : String) :
    (e.noteFinished line).finished = true ↔ e.finished = true ∨ finishedLine = line := by
  unfold Evidence.noteFinished
  by_cases h : line = finishedLine
  · rw [if_pos h]
    exact iff_of_true rfl (Or.inr h.symm)
  · rw [if_neg h]
    exact (or_iff_left fun heq => h heq.symm).symm

/-- A line that is read is told of with those before it. -/
theorem Tells.readLine (h : Tells p t e lines) (hread : e.readLine p t line = .ok e') :
    Converts p t line ∧ Tells p t e' (lines ++ [line]) := by
  obtain ⟨f, hnote, hf⟩ := bind_eq_ok.mp hread
  obtain rfl := Except.ok.inj hf
  obtain ⟨hconv, ⟨hpassed, hfinished, hfaults, herrors⟩, hallocated⟩ := noteAllocation_spec hnote
  obtain ⟨hpa, hpf, hpfa, hpe⟩ := notePassed_frame (p := p) (e.noteLine line) line
  obtain ⟨htp, hta, htf⟩ := noteTrouble_frame (p := p) f line
  obtain ⟨hfp, hfa, hffa, hfe⟩ := noteFinished_frame (f.noteTrouble p line) line
  refine ⟨hconv, ?_, ?_, ?_, ?_, ?_⟩
  · rw [hffa, noteTrouble_faults, hfaults, hpfa, forall_mem_concat, ← h.faults]
    rfl
  · rw [forall_mem_concat, forall_mem_concat]
    rintro ⟨hlines, hline⟩
    rw [hfe, noteTrouble_errors f hline, herrors, hpe, ← h.errors hlines]
    rfl
  · intro tag
    rw [hfp, htp, hpassed, notePassed_passed, exists_mem_concat, ← h.passed]
    rfl
  · intro core
    rw [hfa, hta, hallocated, hpa, exists_mem_concat, ← h.allocated]
    rfl
  · rw [noteFinished_finished, htf, hfinished, hpf, List.mem_append, List.mem_singleton,
      ← h.finished]
    rfl

theorem readLine_of_converts (h : Converts p t line) (e : Evidence) :
    ∃ e', e.readLine p t line = .ok e' := by
  obtain ⟨f, hf⟩ := noteAllocation_of_converts h ((e.noteLine line).notePassed p line)
  unfold Evidence.readLine
  rw [hf]
  exact ⟨_, rfl⟩

theorem textsOf_cons (raw : List UInt8) (rest : List (List UInt8)) :
    textsOf p (raw :: rest) =
      if lineText p raw = "" then textsOf p rest else lineText p raw :: textsOf p rest := by
  unfold textsOf
  by_cases h : lineText p raw = "" <;> simp [h]

/-- Every line that is read is told of. -/
theorem Tells.readLines {raws : List (List UInt8)} (h : Tells p t e lines)
    (hread : readLines p t e raws = .ok e') :
    (∀ l ∈ textsOf p raws, Converts p t l) ∧ Tells p t e' (lines ++ textsOf p raws) := by
  induction raws generalizing e lines with
  | nil =>
    obtain rfl := Except.ok.inj hread
    refine ⟨fun l hl => (nomatch hl), ?_⟩
    show Tells p t e (lines ++ [])
    rwa [List.append_nil]
  | cons raw rest ih =>
    unfold YCruncher.readLines at hread
    rw [textsOf_cons]
    split at hread
    next hblank =>
      rw [if_pos hblank]
      exact ih h hread
    next hblank =>
      rw [if_neg hblank]
      cases hline : e.readLine p t (lineText p raw) with
      | error x =>
        rw [hline] at hread
        cases hread
      | ok f =>
        rw [hline] at hread
        obtain ⟨hconv, htells⟩ := h.readLine hline
        obtain ⟨hrest, hall⟩ := ih htells hread
        refine ⟨List.forall_mem_cons.mpr ⟨hconv, hrest⟩, ?_⟩
        rwa [List.append_assoc] at hall

theorem readLines_of_converts {raws : List (List UInt8)}
    (h : ∀ l ∈ textsOf p raws, Converts p t l) (e : Evidence) :
    ∃ f, YCruncher.readLines p t e raws = .ok f := by
  induction raws generalizing e with
  | nil => exact ⟨e, rfl⟩
  | cons raw rest ih =>
    unfold YCruncher.readLines
    rw [textsOf_cons] at h
    split
    next hblank =>
      rw [if_pos hblank] at h
      exact ih h e
    next hblank =>
      rw [if_neg hblank] at h
      obtain ⟨hline, hrest⟩ := List.forall_mem_cons.mp h
      obtain ⟨f, hf⟩ := readLine_of_converts hline e
      rw [hf]
      exact ih hrest f

theorem tells_nothing : Tells p t {} [] where
  faults := iff_of_true rfl fun _ hl => nomatch hl
  errors _ := iff_of_true rfl fun _ hl => nomatch hl
  passed tag := by simp
  allocated core := by simp
  finished := by simp

theorem Tells.sorted (h : Tells p t e lines) : Tells p t e.sorted lines where
  faults := h.faults
  errors := h.errors
  passed := h.passed
  allocated core := by
    rw [← h.allocated]
    exact List.mem_insertionSort _
  finished := h.finished

/-- The evidence is there exactly when every number converts, and tells of every line. -/
theorem readEvidence_spec (p : Patterns) (t : DigitTable) (file : List UInt8) (offset : Nat) :
    (∃ e, readEvidence p t file offset = .ok e ∧ Tells p t e (texts p (file.drop offset))) ∧
        (∀ l ∈ texts p (file.drop offset), Converts p t l) ∨
      (∃ x, readEvidence p t file offset = .error x) ∧
        ¬ ∀ l ∈ texts p (file.drop offset), Converts p t l := by
  unfold readEvidence
  cases hread : YCruncher.readLines p t {} (rawLines (file.drop offset)) with
  | ok e =>
    obtain ⟨hconv, htells⟩ := tells_nothing.readLines hread
    exact Or.inl ⟨⟨e.sorted, rfl, htells.sorted⟩, hconv⟩
  | error x =>
    refine Or.inr ⟨⟨x, rfl⟩, fun hconv => ?_⟩
    obtain ⟨f, hf⟩ := readLines_of_converts hconv {}
    cases hread.symm.trans hf

end Reading

/-! ## What the verdict should be -/

section Verdict

variable (p : Patterns) (t : DigitTable) (output : List UInt8) (a : Trial)

/-- A line tells of a fault, or the workload has crashed on its own. -/
def Fails : Prop :=
  (∃ l ∈ texts p output, p.fault l = true) ∨ (crashed a.rc = true ∧ a.aborted = false)

/-- The workload took less than nine tenths of the time asked for. -/
def TooShort : Prop := ∃ limit, nineTenths a.seconds = .ok limit ∧ a.elapsed.lt limit = true

/-- All that was asked for is covered. -/
structure Covers : Prop where
  finished : finishedLine ∈ texts p output
  exited : a.rc = some 0
  undisturbed : a.aborted = false
  passed : ∀ tag ∈ tests, ∃ l ∈ texts p output, Passes p l tag
  allocated : ∀ core ∈ a.cores, ∃ l ∈ texts p output, Allocates p t l core
  lasted : ¬ TooShort a
  quiet : ∀ l ∈ texts p output, ¬ Troubled p l

/-- The output is empty, or its last line is complete. -/
def EndsLine (output : List UInt8) : Prop := output = [] ∨ output.getLast? = some 10

/-- The phase returns, and its findings say of the output what they should. -/
structure Sound : Prop where
  returns : (judge p t output a).2 = none
  fail : verdict (judge p t output a).1 = .fail ↔ Fails p output a
  incomplete : ¬ Fails p output a →
    (verdict (judge p t output a).1 = .incomplete ↔ ¬ Covers p t output a)
  ok : ((judge p t output a).1.items.get? "ycruncher-ok").isSome = true ↔
    ¬ Fails p output a ∧ Covers p t output a
  grows : ∀ shown, EndsLine shown → shown <+: output →
    verdict (judge p t shown a).1 = .fail → verdict (judge p t output a).1 = .fail

end Verdict

section Judging

variable {p : Patterns} {t : DigitTable} {output : List UInt8} {a : Trial} {e : Evidence}
  {lines gaps : List String}

theorem missingTests_eq_nil (h : Tells p t e lines) :
    missingTests e = [] ↔ ∀ tag ∈ tests, ∃ l ∈ lines, Passes p l tag := by
  unfold missingTests
  rw [List.filter_eq_nil_iff]
  refine forall₂_congr fun tag _ => ?_
  rw [← h.passed, decide_eq_true_eq, Nat.not_lt]

theorem missingCores_eq_nil (h : Tells p t e lines) (cores : List Int) :
    missingCores e cores = [] ↔ ∀ core ∈ cores, ∃ l ∈ lines, Allocates p t l core := by
  have hnil : missingCores e cores = [] ↔
      (cores.dedup.filter fun c => decide (c ∉ e.allocated)) = [] := by
    unfold missingCores
    rw [← List.length_eq_zero_iff, List.length_insertionSort, List.length_eq_zero_iff]
  rw [hnil, List.filter_eq_nil_iff]
  simp only [List.mem_dedup, decide_eq_true_eq, not_not]
  exact forall₂_congr fun core _ => h.allocated core

/-- There is no gap where everything is covered. -/
theorem coverageGaps_eq_nil (h : coverageGaps e a = .ok gaps) :
    gaps = [] ↔ a.rc = some 0 ∧ e.finished = true ∧ missingTests e = [] ∧
      missingCores e a.cores = [] ∧ ¬ TooShort a ∧ e.errors = [] := by
  obtain ⟨limit, hlimit, hgaps⟩ := bind_eq_ok.mp h
  obtain rfl := Except.ok.inj hgaps
  have hshort : TooShort a ↔ a.elapsed.lt limit = true := by
    constructor
    · rintro ⟨other, hother, hlt⟩
      rwa [Except.ok.inj (hlimit.symm.trans hother)]
    · exact fun hlt => ⟨limit, hlimit, hlt⟩
  have hite : ∀ (c : Prop) [Decidable c] (line : String),
      (if c then [line] else []) = [] ↔ ¬ c := by
    intro c _ line
    split <;> simp [*]
  simp only [List.append_eq_nil_iff, hite, not_not, hshort, and_assoc, Bool.not_eq_false]

theorem coverageGaps_ok_iff :
    (∃ gaps, coverageGaps e a = .ok gaps) ↔ ∃ x, PyFloat.ofInt a.seconds = .ok x := by
  unfold coverageGaps nineTenths
  cases PyFloat.ofInt a.seconds with
  | ok x => exact iff_of_true ⟨_, rfl⟩ ⟨x, rfl⟩
  | error x => exact iff_of_false (fun ⟨_, h⟩ => nomatch h) fun ⟨_, h⟩ => nomatch h

/-- What the check does with evidence that tells of the lines. -/
theorem no_gaps_iff (h : Tells p t e (texts p output)) (hgaps : coverageGaps e a = .ok gaps)
    (hfaults : ∀ l ∈ texts p output, p.fault l = false) :
    ¬ (gaps ≠ [] ∨ a.aborted = true) ↔ Covers p t output a := by
  rw [not_or, not_not, Bool.not_eq_true, coverageGaps_eq_nil hgaps, missingTests_eq_nil h,
    missingCores_eq_nil h, h.errors hfaults, h.finished]
  constructor
  · rintro ⟨⟨hexit, hfinished, hpassed, hallocated, hlasted, hquiet⟩, haborted⟩
    exact ⟨hfinished, hexit, haborted, hpassed, hallocated, hlasted, hquiet⟩
  · rintro ⟨hfinished, hexit, haborted, hpassed, hallocated, hlasted, hquiet⟩
    exact ⟨⟨hexit, hfinished, hpassed, hallocated, hlasted, hquiet⟩, haborted⟩

theorem fails_iff (h : Tells p t e (texts p output)) :
    (e.faults ≠ [] ∨ (crashed a.rc = true ∧ a.aborted = false)) ↔ Fails p output a := by
  refine or_congr_left ?_
  rw [Ne, h.faults]
  push Not
  simp only [Bool.not_eq_false]

/-- The calls of a check that is not cut short. -/
theorem checkResult_of_ok (hgaps : coverageGaps e a = .ok gaps) :
    checkResult e a =
      ((if e.faults ≠ [] ∨ (crashed a.rc = true ∧ a.aborted = false) then [failCall e a] else []) ++
        (if gaps ≠ [] ∨ a.aborted = true then [incompleteCall gaps a]
          else if e.faults = [] then [okCall e a] else []), none) := by
  unfold checkResult
  rw [hgaps]

theorem checkResult_of_fails (h : Tells p t e (texts p output))
    (hgaps : coverageGaps e a = .ok gaps) (hfails : Fails p output a) :
    ∃ rest, (∀ c ∈ rest, c = incompleteCall gaps a) ∧
      checkResult e a = (failCall e a :: rest, none) := by
  rw [checkResult_of_ok hgaps, if_pos ((fails_iff h).mpr hfails)]
  by_cases hmore : gaps ≠ [] ∨ a.aborted = true
  · exact ⟨[incompleteCall gaps a], by simp, by rw [if_pos hmore]; rfl⟩
  · refine ⟨[], by simp, ?_⟩
    -- A workload that exited normally has not crashed, so a line tells of the fault.
    have hexit : a.rc = some 0 := by
      rw [not_or, not_not] at hmore
      exact ((coverageGaps_eq_nil hgaps).mp hmore.1).1
    have hcrash : crashed a.rc ≠ true := by rw [hexit]; decide
    have hfaults : e.faults ≠ [] :=
      ((fails_iff h).mpr hfails).resolve_right fun hc => hcrash hc.1
    rw [if_neg hmore, if_neg hfaults]
    rfl

theorem checkResult_of_not_fails (h : Tells p t e (texts p output))
    (hgaps : coverageGaps e a = .ok gaps) (hfails : ¬ Fails p output a) :
    (¬ Covers p t output a ∧ checkResult e a = ([incompleteCall gaps a], none)) ∨
      (Covers p t output a ∧ checkResult e a = ([okCall e a], none)) := by
  have hquiet : ∀ l ∈ texts p output, p.fault l = false := by
    intro l hl
    exact Bool.eq_false_iff.mpr fun hfault => hfails (Or.inl ⟨l, hl, hfault⟩)
  have hcovers := no_gaps_iff h hgaps hquiet
  rw [checkResult_of_ok hgaps, if_neg fun hf => hfails ((fails_iff h).mp hf)]
  by_cases hmore : gaps ≠ [] ∨ a.aborted = true
  · refine Or.inl ⟨fun hc => hcovers.mpr hc hmore, ?_⟩
    rw [if_pos hmore]
    rfl
  · refine Or.inr ⟨hcovers.mp hmore, ?_⟩
    rw [if_neg hmore, if_pos (h.faults.mpr hquiet)]
    rfl

/-! ## The verdict -/

theorem judge_of_ok (h : readEvidence p t output 0 = .ok e) :
    judge p t output a = (Findings.new.addAll (checkResult e a).1, (checkResult e a).2) := by
  unfold judge
  rw [h]

/-- What the phase says of an output whose numbers can be converted. -/
theorem judge_spec (h : readEvidence p t output 0 = .ok e) (htells : Tells p t e (texts p output))
    (hgaps : coverageGaps e a = .ok gaps) :
    (judge p t output a).2 = none ∧
      (verdict (judge p t output a).1 = .fail ↔ Fails p output a) ∧
      (¬ Fails p output a →
        (verdict (judge p t output a).1 = .incomplete ↔ ¬ Covers p t output a)) ∧
      (((judge p t output a).1.items.get? "ycruncher-ok").isSome = true ↔
        ¬ Fails p output a ∧ Covers p t output a) := by
  rw [judge_of_ok h, Findings.verdict_addAll.1, Findings.verdict_addAll.2,
    Findings.present_addAll]
  by_cases hfails : Fails p output a
  · obtain ⟨rest, hrest, hcheck⟩ := checkResult_of_fails htells hgaps hfails
    rw [hcheck]
    refine ⟨rfl, ?_, fun hno => absurd hfails hno, ?_⟩
    · exact iff_of_true ⟨failCall e a, List.mem_cons_self, rfl⟩ hfails
    · refine iff_of_false ?_ fun hok => hok.1 hfails
      rintro ⟨c, hc, hkey⟩
      have hfail : "ycruncher-fail" ≠ "ycruncher-ok" := by decide
      have hincomplete : "ycruncher-incomplete" ≠ "ycruncher-ok" := by decide
      rcases List.mem_cons.mp hc with rfl | hc
      · exact hfail hkey
      · rw [hrest c hc] at hkey
        exact hincomplete hkey
  · rcases checkResult_of_not_fails htells hgaps hfails with ⟨hcovers, hcheck⟩ | ⟨hcovers, hcheck⟩
    · rw [hcheck]
      simp [hfails, hcovers, incompleteCall]
    · rw [hcheck]
      simp [hfails, hcovers, okCall]

/-! ## Further lines -/

theorem rawLines_cons (b : UInt8) (rest : List UInt8) :
    rawLines (b :: rest) =
      if b = 10 then [b] :: rawLines rest else before b (rawLines rest) := rfl

theorem rawLines_ne_nil {bytes : List UInt8} (h : bytes ≠ []) : rawLines bytes ≠ [] := by
  cases bytes with
  | nil => exact absurd rfl h
  | cons b rest =>
    rw [rawLines_cons]
    split
    · exact List.cons_ne_nil _ _
    · cases rawLines rest <;> exact List.cons_ne_nil _ _

theorem before_append {b : UInt8} {lines : List (List UInt8)} (h : lines ≠ [])
    (more : List (List UInt8)) : before b (lines ++ more) = before b lines ++ more := by
  cases lines with
  | nil => exact absurd rfl h
  | cons line rest => rfl

theorem rawLines_append {shown : List UInt8} (h : EndsLine shown) (rest : List UInt8) :
    rawLines (shown ++ rest) = rawLines shown ++ rawLines rest := by
  induction shown with
  | nil => rfl
  | cons b more ih =>
    have hlast : (b :: more).getLast? = some 10 := h.resolve_left (List.cons_ne_nil _ _)
    rw [List.cons_append, rawLines_cons, rawLines_cons]
    cases more with
    | nil =>
      have hb : b = 10 := Option.some.inj hlast
      rw [if_pos hb, if_pos hb]
      rfl
    | cons c tail =>
      have hends : EndsLine (c :: tail) := Or.inr hlast
      rw [ih hends]
      split
      · rfl
      · exact before_append (rawLines_ne_nil (List.cons_ne_nil _ _)) _

theorem texts_of_shown {shown : List UInt8} (h : EndsLine shown) (hshown : shown <+: output)
    {line : String} (hl : line ∈ texts p shown) : line ∈ texts p output := by
  obtain ⟨rest, rfl⟩ := hshown
  unfold texts textsOf at hl ⊢
  rw [rawLines_append h, List.map_append, List.filter_append]
  exact List.mem_append_left _ hl

/-- The phase says of an output what it should exactly when the numbers of the allocation lines
can be converted, and the time asked for. -/
theorem sound_iff_converts (p : Patterns) (t : DigitTable) (output : List UInt8) (a : Trial) :
    Sound p t output a ↔ (∀ line ∈ texts p output, Converts p t line) ∧
      ∃ x, PyFloat.ofInt a.seconds = .ok x := by
  rw [← coverageGaps_ok_iff (e := {})]
  constructor
  · intro h
    rcases readEvidence_spec p t output 0 with ⟨⟨e, hread, -⟩, hconv⟩ | ⟨⟨x, hread⟩, -⟩
    · refine ⟨hconv, ?_⟩
      have hnone := h.returns
      rw [judge_of_ok hread] at hnone
      rw [coverageGaps_ok_iff, ← coverageGaps_ok_iff (e := e)]
      cases hgaps : coverageGaps e a with
      | ok gaps => exact ⟨gaps, rfl⟩
      | error x =>
        unfold checkResult at hnone
        rw [hgaps] at hnone
        cases hnone
    · have hnone := h.returns
      unfold judge at hnone
      rw [hread] at hnone
      cases hnone
  · rintro ⟨hconv, hseconds⟩
    rw [coverageGaps_ok_iff] at hseconds
    have hspec : ∀ shown, (∀ line ∈ texts p shown, Converts p t line) →
        (judge p t shown a).2 = none ∧
        (verdict (judge p t shown a).1 = .fail ↔ Fails p shown a) ∧
        (¬ Fails p shown a →
          (verdict (judge p t shown a).1 = .incomplete ↔ ¬ Covers p t shown a)) ∧
        (((judge p t shown a).1.items.get? "ycruncher-ok").isSome = true ↔
          ¬ Fails p shown a ∧ Covers p t shown a) := by
      intro shown hall
      rcases readEvidence_spec p t shown 0 with ⟨⟨e, hread, htells⟩, -⟩ | ⟨-, hno⟩
      · obtain ⟨gaps, hgaps⟩ := (coverageGaps_ok_iff (e := e)).mpr hseconds
        exact judge_spec hread htells hgaps
      · exact absurd hall hno
    obtain ⟨hreturns, hfail, hincomplete, hok⟩ := hspec output hconv
    refine ⟨hreturns, hfail, hincomplete, hok, fun shown hends hshown hverdict => ?_⟩
    have hshownConv : ∀ line ∈ texts p shown, Converts p t line :=
      fun line hl => hconv line (texts_of_shown hends hshown hl)
    rw [hfail]
    rw [(hspec shown hshownConv).2.1] at hverdict
    exact hverdict.imp_left fun ⟨l, hl, hfault⟩ => ⟨l, texts_of_shown hends hshown hl, hfault⟩

/-- The output of earlier invocations is not read. -/
theorem readEvidence_of_log (p : Patterns) (t : DigitTable) (i : Workload.Invocation)
    (old : List UInt8) :
    readEvidence p t (i.log old) old.length = readEvidence p t i.written 0 := by
  unfold readEvidence
  rw [Workload.log_eq, List.drop_left, List.drop_zero]

end Judging

/-! ## The patterns of the source -/

section Source

open Regex

/-- A text in either case. -/
def caseless (s : String) : Regex :=
  s.toList.foldr (fun c r => seq (one fun d => Ipmi.fold d == Ipmi.fold c) r) empty

def space : Regex := one isSpace

def between (low high : Char) : Regex := one fun c => decide (low ≤ c ∧ c ≤ high)

/-- An escape sequence of the console. -/
def ansi : Regex :=
  seqs [one (· == Char.ofNat 0x1b), text "[", star (between '0' '?'), star (between ' ' '/'),
    between '@' '~']

/-- `r.sub("", l)`, for a pattern that does not match the empty text. -/
def eraseAll (r : Regex) : Nat → Option Char → List Char → List Char
  | _, _, [] => []
  | 0, _, l => l
  | n + 1, before, c :: rest =>
    match matchAt r ⟨before, c :: rest, []⟩ some with
    | some q => eraseAll r n q.before q.rest
    | none => c :: eraseAll r n (some c) rest

/-- The groups of a match at the beginning of a line. -/
def matchLine (r : Regex) (line : String) (n : Nat) : Option String :=
  ((matchAt r ⟨none, line.toList, []⟩ some).bind (·.captured n)).map String.ofList

variable (u : Kernel.CharTable) (t : DigitTable)

def passedRe : Regex :=
  seqs [text "Running ", group 1 (plus (Kernel.word u)), text ":", star space, text "Passed",
    Kernel.edge u]

def allocationRe : Regex :=
  seqs [star space, text "Core", plus space, group 1 (plus (one t.isDigit)), text ":", plus space,
    group 2 (plus (one fun c => t.isDigit c || c == '.' || c == ',')), plus space, oneOf "KMGT",
    text "iB", plus space, text "node", plus space, group 3 (plus (one t.isDigit))]

def faultRe : Regex :=
  alts [caseless "Test Failed", caseless "Tests Failed", caseless "Stress test failed",
    caseless "StressTestFailedException", caseless "Error(s) encountered on logical core",
    seqs [alts [caseless "checksum", caseless "value", caseless "bottom word"],
      caseless " mismatch"],
    caseless "Modular Redundancy Check Failed",
    seqs [caseless "Running ", plus (Kernel.word u), text ":", star space,
      alts [caseless "Failed", caseless "Error"]]]

def errorRe : Regex :=
  seqs [Kernel.edge u, alts [caseless "error", caseless "errors", caseless "exception",
    caseless "failed", caseless "failure", caseless "unsupported", caseless "unavailable"],
    Kernel.edge u]

def source : Patterns where
  clean s := String.ofList (eraseAll ansi s.toList.length none s.toList)
  passed line := matchLine (passedRe u) line 1
  allocation line := do
    let core ← matchLine (allocationRe t) line 1
    let size ← matchLine (allocationRe t) line 2
    let node ← matchLine (allocationRe t) line 3
    return (core, size, node)
  fault line := (search (faultRe u) line).isSome
  error line := (search (errorRe u) line).isSome

end Source

def minute : Trial :=
  { cores := [0], seconds := 60, elapsed := .finite 60, rc := some 0, aborted := false }

example : texts (source Kernel.ascii DigitTable.ascii)
    "  Core 0: 126 MiB  node 0 (100%)\n\nRunning VT3: Failed\n".toUTF8.toList =
      ["Core 0: 126 MiB  node 0 (100%)", "Running VT3: Failed"] := by decide +kernel

/-- A test has failed, and a line after it shows a size that is no number. -/
def garbled : List UInt8 := "Test Failed\nCore 0: 1.2.3 GiB node 0\n".toUTF8.toList

theorem failed_test_lost : ¬ Sound (source Kernel.ascii DigitTable.ascii) DigitTable.ascii garbled
    minute := by
  intro h
  have hline : "Test Failed" ∈ texts (source Kernel.ascii DigitTable.ascii) garbled := by
    decide +kernel
  have hfault : (source Kernel.ascii DigitTable.ascii).fault "Test Failed" = true := by
    decide +kernel
  have hverdict : verdict (judge (source Kernel.ascii DigitTable.ascii) DigitTable.ascii garbled
      minute).1 = .pass := by decide +kernel
  cases hverdict.symm.trans (h.fail.mpr (Or.inl ⟨"Test Failed", hline, hfault⟩))

end YCruncher
end PcCheck
