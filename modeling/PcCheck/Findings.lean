/-
The findings store (`findings.py`).

`Findings` keeps one `Finding` a key: a repeated `add` merges into the finding it
meets, and `escalate` raises the severity of one that exists.  `flush` copies the
store under the lock and then writes the copy to the rotating findings file, where
the write may fail and the failure is only logged.  A `Store` is the object in
memory together with its file.  The log lines, the listeners of the dashboard and
the time of the last flush are left out: nothing reads them back.
-/
import PcCheck.Python
import PcCheck.Rotating
import PcCheck.Lib.Dict
import Mathlib.Data.List.Sort
import Mathlib.Data.Bool.AllAny

namespace PcCheck

inductive Severity where
  | info
  | warn
  | fail
  deriving DecidableEq, Repr

def Severity.rank : Severity → Nat
  | .info => 1
  | .warn => 2
  | .fail => 3

theorem Severity.rank_injective : Function.Injective Severity.rank := by
  intro a b h
  cases a <;> cases b <;> first | rfl | simp [rank] at h

def maxEvidence : Nat := 25

structure Finding where
  key : String
  severity : Severity
  component : String
  title : String
  detail : String := ""
  recommendation : String := ""
  count : Int := 1
  firstSeen : String := ""
  lastSeen : String := ""
  phase : String := ""
  evidence : List String := []
  /-- A required test or piece of evidence was not obtained. -/
  incomplete : Bool := false
  deriving DecidableEq, Repr

/-- The arguments of one `Findings.add`, with the time the call reads. -/
structure AddCall where
  key : String
  severity : Severity
  component : String
  title : String
  detail : String := ""
  recommendation : String := ""
  evidence : List String := []
  count : Int := 1
  phase : Option String := none
  incomplete : Bool := false
  now : String := ""
  deriving DecidableEq, Repr

structure EscalateCall where
  key : String
  severity : Severity
  title : Option String := none
  recommendation : Option String := none
  deriving DecidableEq, Repr

namespace Finding

def attach (f : Finding) (line : String) : Finding :=
  let line := rstrip line
  if line ≠ "" ∧ line ∉ f.evidence ∧ f.evidence.length < maxEvidence then
    { f with evidence := f.evidence ++ [line] }
  else f

def attachAll (f : Finding) (lines : List String) : Finding := lines.foldl attach f

def ofCall (c : AddCall) (currentPhase : String) : Finding :=
  { key := c.key, severity := c.severity, component := c.component, title := c.title,
    detail := c.detail, recommendation := c.recommendation, count := max c.count 1,
    firstSeen := c.now, lastSeen := c.now, phase := c.phase.getD currentPhase,
    incomplete := c.incomplete }

/-- The branch for a severity that outranks the finding's own. -/
def worsen (f : Finding) (severity : Severity) (title recommendation : String) : Finding :=
  if f.severity.rank < severity.rank then
    { f with
      severity := severity
      title := title
      recommendation := if recommendation ≠ "" then recommendation else f.recommendation }
  else f

def fillDetail (f : Finding) (detail : String) : Finding :=
  if detail ≠ "" ∧ f.detail = "" then { f with detail := detail } else f

def merge (f : Finding) (c : AddCall) : Finding :=
  ({ f with
      incomplete := f.incomplete || c.incomplete
      count := f.count + c.count
      lastSeen := c.now }.worsen c.severity c.title c.recommendation).fillDetail c.detail

/-- What `escalate` does to the finding of its key: an absent or empty title or
recommendation keeps the old one. -/
def raise (f : Finding) (c : EscalateCall) : Finding :=
  f.worsen c.severity (if c.title.getD "" ≠ "" then c.title.getD "" else f.title)
    (c.recommendation.getD "")

/-- The sort key of `Findings.all`: severity from the worst, component, first seen. -/
def SortsBefore (f g : Finding) : Prop :=
  g.severity.rank < f.severity.rank ∨ (f.severity.rank = g.severity.rank ∧
    (f.component < g.component ∨ (f.component = g.component ∧ f.firstSeen ≤ g.firstSeen)))

instance : DecidableRel SortsBefore := fun f g => inferInstanceAs (Decidable
  (g.severity.rank < f.severity.rank ∨ (f.severity.rank = g.severity.rank ∧
    (f.component < g.component ∨ (f.component = g.component ∧ f.firstSeen ≤ g.firstSeen)))))

@[simp] theorem attach_key (f : Finding) (line : String) : (f.attach line).key = f.key := by
  simp only [attach]; split <;> rfl

@[simp] theorem attach_severity (f : Finding) (line : String) :
    (f.attach line).severity = f.severity := by
  simp only [attach]; split <;> rfl

@[simp] theorem attach_incomplete (f : Finding) (line : String) :
    (f.attach line).incomplete = f.incomplete := by
  simp only [attach]; split <;> rfl

@[simp] theorem attach_phase (f : Finding) (line : String) :
    (f.attach line).phase = f.phase := by
  simp only [attach]; split <;> rfl

@[simp] theorem attachAll_key (f : Finding) (lines : List String) :
    (f.attachAll lines).key = f.key := by
  induction lines generalizing f with
  | nil => rfl
  | cons line rest ih => exact (ih (f.attach line)).trans (attach_key f line)

@[simp] theorem attachAll_severity (f : Finding) (lines : List String) :
    (f.attachAll lines).severity = f.severity := by
  induction lines generalizing f with
  | nil => rfl
  | cons line rest ih => exact (ih (f.attach line)).trans (attach_severity f line)

@[simp] theorem attachAll_incomplete (f : Finding) (lines : List String) :
    (f.attachAll lines).incomplete = f.incomplete := by
  induction lines generalizing f with
  | nil => rfl
  | cons line rest ih => exact (ih (f.attach line)).trans (attach_incomplete f line)

@[simp] theorem attachAll_phase (f : Finding) (lines : List String) :
    (f.attachAll lines).phase = f.phase := by
  induction lines generalizing f with
  | nil => rfl
  | cons line rest ih => exact (ih (f.attach line)).trans (attach_phase f line)

@[simp] theorem worsen_key (f : Finding) (s : Severity) (t r : String) :
    (f.worsen s t r).key = f.key := by
  unfold worsen; split <;> rfl

@[simp] theorem worsen_incomplete (f : Finding) (s : Severity) (t r : String) :
    (f.worsen s t r).incomplete = f.incomplete := by
  unfold worsen; split <;> rfl

@[simp] theorem worsen_phase (f : Finding) (s : Severity) (t r : String) :
    (f.worsen s t r).phase = f.phase := by
  unfold worsen; split <;> rfl

theorem worsen_severity_rank (f : Finding) (s : Severity) (t r : String) :
    (f.worsen s t r).severity.rank = max f.severity.rank s.rank := by
  unfold worsen
  split
  · show s.rank = _
    omega
  · omega

@[simp] theorem fillDetail_key (f : Finding) (d : String) : (f.fillDetail d).key = f.key := by
  unfold fillDetail; split <;> rfl

@[simp] theorem fillDetail_severity (f : Finding) (d : String) :
    (f.fillDetail d).severity = f.severity := by
  unfold fillDetail; split <;> rfl

@[simp] theorem fillDetail_incomplete (f : Finding) (d : String) :
    (f.fillDetail d).incomplete = f.incomplete := by
  unfold fillDetail; split <;> rfl

@[simp] theorem fillDetail_phase (f : Finding) (d : String) : (f.fillDetail d).phase = f.phase := by
  unfold fillDetail; split <;> rfl

@[simp] theorem merge_key (f : Finding) (c : AddCall) : (f.merge c).key = f.key := by
  simp [merge]

@[simp] theorem merge_incomplete (f : Finding) (c : AddCall) :
    (f.merge c).incomplete = (f.incomplete || c.incomplete) := by
  simp [merge]

@[simp] theorem merge_phase (f : Finding) (c : AddCall) : (f.merge c).phase = f.phase := by
  simp [merge]

theorem merge_severity_rank (f : Finding) (c : AddCall) :
    (f.merge c).severity.rank = max f.severity.rank c.severity.rank := by
  rw [merge, fillDetail_severity, worsen_severity_rank]

@[simp] theorem raise_key (f : Finding) (c : EscalateCall) : (f.raise c).key = f.key :=
  worsen_key ..

@[simp] theorem raise_incomplete (f : Finding) (c : EscalateCall) :
    (f.raise c).incomplete = f.incomplete :=
  worsen_incomplete ..

@[simp] theorem raise_phase (f : Finding) (c : EscalateCall) : (f.raise c).phase = f.phase :=
  worsen_phase ..

theorem raise_severity_rank (f : Finding) (c : EscalateCall) :
    (f.raise c).severity.rank = max f.severity.rank c.severity.rank :=
  worsen_severity_rank ..

end Finding

/-! ## The table of findings -/

/-- `_items`: every finding is filed under its own key. -/
structure Items where
  dict : Dict String Finding
  keyed : ∀ k f, dict.get? k = some f → f.key = k

namespace Items

def empty : Items := ⟨Dict.empty, fun _ _ h => nomatch h⟩

instance : Inhabited Items := ⟨empty⟩

def get? (t : Items) (k : String) : Option Finding := t.dict.get? k

def put (t : Items) (f : Finding) : Items where
  dict := t.dict.set f.key f
  keyed := by
    intro k g hg
    rw [Dict.get?_set] at hg
    split at hg
    · obtain rfl := Option.some.inj hg
      exact (by assumption : k = _).symm
    · exact t.keyed k g hg

def toList (t : Items) : List Finding := t.dict.values

theorem get?_put (t : Items) (f : Finding) (k : String) :
    (t.put f).get? k = if k = f.key then some f else t.get? k :=
  Dict.get?_set t.dict f.key k f

@[simp] theorem get?_put_self (t : Items) (f : Finding) : (t.put f).get? f.key = some f := by
  rw [get?_put, if_pos rfl]

theorem get?_put_ne (t : Items) (f : Finding) {k : String} (h : k ≠ f.key) :
    (t.put f).get? k = t.get? k := by
  rw [get?_put, if_neg h]

@[simp] theorem get?_empty (k : String) : empty.get? k = none := rfl

theorem key_of_get? {t : Items} {k : String} {f : Finding} (h : t.get? k = some f) : f.key = k :=
  t.keyed k f h

theorem mem_toList_iff {t : Items} {f : Finding} : f ∈ t.toList ↔ t.get? f.key = some f := by
  unfold toList
  rw [Dict.mem_values_iff]
  constructor
  · intro hex
    obtain ⟨k, hk⟩ := hex
    obtain rfl := t.keyed k f hk
    exact hk
  · exact fun h => ⟨f.key, h⟩

theorem mem_toList_of_get? {t : Items} {k : String} {f : Finding} (h : t.get? k = some f) :
    f ∈ t.toList :=
  Dict.mem_values_iff.mpr ⟨k, h⟩

end Items

/-- The findings document.  `none` stands for a record `Finding(**raw)` rejects.  The
legacy form, a bare list, reads the same. -/
abbrev FindingsDoc := List (Option Finding)

namespace Items

def fileRecord (t : Items) : Option Finding → Items
  | some f => t.put f
  | none => t

def ofDoc (doc : FindingsDoc) : Items := doc.foldl fileRecord empty

def toDoc (t : Items) : FindingsDoc := t.toList.map some

theorem entries_eq (t : Items) : t.dict.entries = t.toList.map fun f => (f.key, f) := by
  have hmap : ∀ l : List (String × Finding), (∀ p ∈ l, p.2.key = p.1) →
      l = (l.map Prod.snd).map fun f => (f.key, f) := by
    intro l h
    induction l with
    | nil => rfl
    | cons p rest ih =>
      rw [List.map_cons, List.map_cons, h p List.mem_cons_self,
        ← ih fun q hq => h q (List.mem_cons_of_mem p hq)]
  exact hmap _ fun p hp => t.keyed p.1 p.2 (Dict.get?_eq_some_iff.mpr hp)

theorem ofDoc_map_some (l : List Finding) :
    (ofDoc (l.map some)).dict = Dict.ofList (l.map fun f => (f.key, f)) := by
  have hfold : ∀ (l : List Finding) (t : Items),
      ((l.map some).foldl fileRecord t).dict =
        (l.map fun f => (f.key, f)).foldl (fun d p => d.set p.1 p.2) t.dict := by
    intro l
    induction l with
    | nil => intro t; rfl
    | cons f rest ih => intro t; exact ih (t.put f)
  exact hfold l empty

@[simp] theorem ofDoc_toDoc (t : Items) : ofDoc t.toDoc = t := by
  have hdict : (ofDoc t.toDoc).dict = t.dict := by
    rw [toDoc, ofDoc_map_some, ← entries_eq, Dict.ofList_entries]
  cases t
  cases hu : ofDoc _
  rw [hu] at hdict
  cases hdict
  rfl

end Items

/-! ## The store -/

structure Findings where
  path : Option String
  items : Items
  dirty : Bool
  currentPhase : String
  seq : Int

namespace Findings

def new : Findings :=
  { path := none, items := Items.empty, dirty := false, currentPhase := "", seq := 0 }

/-- `Findings(path)` over what `read_rotating` finds there. -/
def load (path : String) (files : RotatingFiles FindingsDoc) : Findings :=
  { path := some path, items := Items.ofDoc (files.readRotating.1.getD []), dirty := false,
    currentPhase := "", seq := files.readRotating.2 }

def recorded (fs : Findings) (c : AddCall) : Finding :=
  match fs.items.get? c.key with
  | none => (Finding.ofCall c fs.currentPhase).attachAll c.evidence
  | some existing => (existing.merge c).attachAll c.evidence

/-- The locked part of `add`.  The second component is `urgent`. -/
def record (fs : Findings) (c : AddCall) : Findings × Bool :=
  ({ fs with items := fs.items.put (fs.recorded c), dirty := true },
    (fs.items.get? c.key).isNone || decide (c.severity = .fail))

def raise (fs : Findings) (c : EscalateCall) : Findings :=
  match fs.items.get? c.key with
  | none => fs
  | some f =>
    if f.severity.rank < c.severity.rank then
      { fs with items := fs.items.put (f.raise c), dirty := true }
    else fs

/-- The locked part of `flush`: the document to write with its number, unless there
is nothing to do. -/
def snapshot (fs : Findings) (force : Bool) : Findings × Option (FindingsDoc × Int) :=
  if fs.path.isNone ∨ ¬ (fs.dirty ∨ force) then (fs, none)
  else ({ fs with dirty := false, seq := fs.seq + 1 }, some (fs.items.toDoc, fs.seq + 1))

/-- `all()`: the findings, the worst first. -/
def all (fs : Findings) : List Finding := fs.items.toList.insertionSort Finding.SortsBefore

def counts (fs : Findings) (s : Severity) : Nat :=
  fs.items.toList.countP fun f => decide (f.severity = s)

def byPhase (fs : Findings) (phase : String) : List Finding :=
  fs.all.filter fun f => decide (f.phase = phase)

@[simp] theorem mem_all {fs : Findings} {f : Finding} : f ∈ fs.all ↔ f ∈ fs.items.toList :=
  List.mem_insertionSort _

theorem counts_pos_iff {fs : Findings} {s : Severity} :
    0 < fs.counts s ↔ ∃ f ∈ fs.items.toList, f.severity = s := by
  simp [counts, List.countP_pos_iff]

end Findings

/-- A findings object with its file on the stick. -/
structure Store where
  mem : Findings
  files : RotatingFiles FindingsDoc

namespace Store

def load (path : String) (files : RotatingFiles FindingsDoc) : Store :=
  { mem := Findings.load path files, files := files }

/-- `flush(force)`.  `ok` says whether the write succeeds: an `OSError` is logged and
leaves the files as they were. -/
def flush (s : Store) (force ok : Bool) : Store :=
  match s.mem.snapshot force with
  | (mem, none) => { s with mem := mem }
  | (mem, some (doc, seq)) =>
    { mem := mem, files := if ok then s.files.writeRotating doc seq else s.files }

def add (s : Store) (c : AddCall) (ok : Bool) : Store :=
  let s' := { s with mem := (s.mem.record c).1 }
  if (s.mem.record c).2 then s'.flush false ok else s'

def escalate (s : Store) (c : EscalateCall) (ok : Bool) : Store :=
  flush { s with mem := s.mem.raise c } false ok

end Store

/-! ## The verdict -/

inductive Verdict where
  | fail
  | incomplete
  | passWithWarnings
  | pass
  deriving DecidableEq, Repr

/-- The order FAIL < INCOMPLETE < PASS WITH WARNINGS < PASS. -/
def Verdict.rank : Verdict → Nat
  | .fail => 0
  | .incomplete => 1
  | .passWithWarnings => 2
  | .pass => 3

theorem Verdict.rank_injective : Function.Injective Verdict.rank := by
  intro a b h
  cases a <;> cases b <;> first | rfl | simp [rank] at h

instance : LinearOrder Verdict := LinearOrder.lift' Verdict.rank Verdict.rank_injective

theorem Verdict.le_iff_rank {a b : Verdict} : a ≤ b ↔ a.rank ≤ b.rank := Iff.rfl

/-- The verdict of a store that holds a failure, lacks a part, or holds a warning. -/
def judge (fails lacks warns : Prop) [Decidable fails] [Decidable lacks] [Decidable warns] :
    Verdict :=
  if fails then .fail else if lacks then .incomplete else if warns then .passWithWarnings else .pass

def verdict (fs : Findings) (incomplete : Bool := false) : Verdict :=
  judge (fs.counts .fail ≠ 0) (incomplete = true ∨ fs.all.any (fun f => f.incomplete) = true)
    (fs.counts .warn ≠ 0)

end PcCheck
