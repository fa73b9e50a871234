/-
The stick and its session directories (`Session.open`, `_find_running` of `session.py`).

One stick serves many machines.  Its sessions directory holds a directory for each
session, named by the clock and the serial of the machine, and its active directory a
pointer file for each machine.  `open` resumes the unfinished session that
`_find_running` finds and creates a new one otherwise.  Of a session directory the model
has the state files and the findings files.  A pointer names an entry of the sessions
directory: a path that leads out of it is left out.
-/
import PcCheck.Store
import PcCheck.Session
import Mathlib.Data.String.Basic

namespace PcCheck

structure Directory where
  states : RotatingFiles SessionState := RotatingFiles.empty
  findings : RotatingFiles FindingsDoc := RotatingFiles.empty

/-- What `load_json` makes of an active pointer: nothing, or a value that counts as false;
an object with its `session`; or another JSON value, which has no `get`. -/
inductive Pointer where
  | missing
  | ref (session : Option String)
  | other
  deriving DecidableEq

structure Stick where
  /-- An entry that is no directory is `none`. -/
  sessions : Dict String (Option Directory)
  active : String → Pointer

/-- What `open` reads of the machine and of its clock, and how its file operations end.
No other thread has the session yet, so a save is written or fails at once. -/
structure Opening where
  identity : Identity
  opts : Options
  plan : List PlanEntry
  machine : Machine
  /-- The clock as `strftime` prints it. -/
  stamp : String
  listed : Bool := true
  saved : Bool := true
  pointed : Bool := true

inductive Opened where
  | resumed (name : String) (session : Session)
  | created (name : String) (session : Session)

/-! ## Names -/

def isSafe (c : Char) : Bool :=
  ('A' ≤ c && c ≤ 'Z') || ('a' ≤ c && c ≤ 'z') || ('0' ≤ c && c ≤ '9') || c == '.' || c == '_' ||
    c == '-'

/-- Every run of unsafe characters becomes one underscore. -/
def squash : Bool → List Char → List Char
  | _, [] => []
  | inRun, c :: rest =>
    if isSafe c then c :: squash false rest
    else if inRun then squash true rest
    else '_' :: squash true rest

def stripUnderscores (l : List Char) : List Char :=
  ((l.dropWhile (· == '_')).reverse.dropWhile (· == '_')).reverse

def safeName (text : String) : String :=
  let l := (stripUnderscores (squash false text.toList)).take 48
  if l = [] then "unknown" else String.ofList l

example : safeName " SN 12/34 " = "SN_12_34" := by decide +kernel

namespace Opening

def name (o : Opening) : String := o.stamp ++ "_" ++ safeName o.identity.displaySerial

def outcomes (o : Opening) : List Attempt := if o.saved then [.written] else [.osError]

def fresh (o : Opening) : SessionState :=
  SessionState.fresh o.name o.identity o.opts o.plan o.machine

end Opening

/-- `ref.get("session")`, where an empty name counts as none. -/
def Pointer.session : Pointer → Except PyError (Option String)
  | .missing => .ok none
  | .ref session => .ok (session.filter (· ≠ ""))
  | .other => .error .attributeError

namespace Stick

/-- What can be read below a name of the sessions directory. -/
def entry (stick : Stick) (name : String) : Directory :=
  match stick.sessions.get? name with
  | some (some d) => d
  | _ => {}

def isDir (stick : Stick) (name : String) : Bool :=
  match stick.sessions.get? name with
  | some (some _) => true
  | _ => false

def put (stick : Stick) (name : String) (d : Directory) : Stick :=
  { stick with sessions := stick.sessions.set name (some d) }

/-- `os.listdir`, sorted in reverse. -/
def names (stick : Stick) : List String := stick.sessions.keys.insertionSort fun a b => b ≤ a

def candidates (stick : Stick) (pointed : Option String) (listed : Bool) : List String :=
  pointed.toList ++ if listed then
    stick.names.filter fun name => name ∉ pointed.toList ∧ stick.isDir name
  else []

def findRunning (stick : Stick) (machineId : String) (listed : Bool) :
    Except PyError (Option (String × SessionState × Int)) := do
  let pointed ← (stick.active machineId).session
  return ((stick.candidates pointed listed).take 50).findSome? fun name =>
    (SessionStore.findRunning (stick.entry name).states machineId).map fun found => (name, found)

/-- The state files of a session after a save. -/
def file (stick : Stick) (name : String) (files : RotatingFiles SessionState) : Stick :=
  stick.put name { stick.entry name with states := files }

def resumeFrom (stick : Stick) (o : Opening) (name : String) (found : SessionState × Int) :
    SessionStore :=
  (SessionStore.reopen (stick.entry name).states found o.machine).save o.outcomes

/-- `makedirs` with `exist_ok`: what the directory holds stays. -/
def createIn (stick : Stick) (o : Opening) : SessionStore :=
  SessionStore.save { mem := { state := o.fresh }, files := (stick.entry o.name).states }
    o.outcomes

/-- `Session.open`. -/
def openSession (stick : Stick) (o : Opening) : Stick × Except PyError Opened :=
  match stick.findRunning o.identity.machineId o.listed with
  | .error e => (stick, .error e)
  | .ok (some (name, found)) =>
    let s := stick.resumeFrom o name found
    (stick.file name s.files, .ok (.resumed name s.mem))
  | .ok none =>
    match stick.sessions.get? o.name with
    | some none => (stick, .error (.osError "File exists"))
    | _ =>
      let s := stick.createIn o
      let stick' := stick.file o.name s.files
      if o.pointed then
        ({ stick' with
            active := Function.update stick'.active o.identity.machineId (.ref (some o.name)) },
          .ok (.created o.name s.mem))
      else (stick', .error (.osError "active pointer"))

/-! ## Which directories are looked at -/

theorem entry_put_self (stick : Stick) (name : String) (d : Directory) :
    (stick.put name d).entry name = d := by
  simp [entry, put]

theorem entry_put_ne (stick : Stick) {name other : String} (h : other ≠ name) (d : Directory) :
    (stick.put name d).entry other = stick.entry other := by
  simp only [entry, put, Dict.get?_set_ne _ h]

/-- The newest readable state of the directory says running and names the machine. -/
def Unfinished (stick : Stick) (machineId name : String) : Prop :=
  (SessionStore.findRunning (stick.entry name).states machineId).isSome = true

instance (stick : Stick) (machineId name : String) :
    Decidable (stick.Unfinished machineId name) := inferInstanceAs (Decidable (_ = true))

/-- How many directories come before one in the scan: the one pointed to, and those whose
names sort after its own. -/
def ahead (stick : Stick) (pointed : Option String) (name : String) : Nat :=
  pointed.toList.length + stick.sessions.keys.countP fun other =>
    decide (name < other) && decide (other ∉ pointed.toList ∧ stick.isDir other = true)

def Reaches (stick : Stick) (pointed : Option String) (listed : Bool) (name : String) : Prop :=
  pointed = some name ∨ (listed = true ∧ stick.ahead pointed name < 50)

/-- An unfinished session of the machine is among the directories that are looked at. -/
def InReach (stick : Stick) (o : Opening) : Prop :=
  ∃ pointed, (stick.active o.identity.machineId).session = .ok pointed ∧
    ∃ name, stick.Unfinished o.identity.machineId name ∧ stick.Reaches pointed o.listed name

/-- The first `n` entries of a sorted list are those with fewer than `n` before them. -/
theorem mem_take_iff {α : Type*} {r : α → α → Prop} [DecidableRel r]
    (hasymm : ∀ a b, r a b → ¬ r b a) {l : List α} (hl : l.Pairwise r) {x : α} (hx : x ∈ l)
    (n : Nat) : x ∈ l.take n ↔ l.countP (fun y => decide (r y x)) < n := by
  induction l generalizing n with
  | nil => cases hx
  | cons a rest ih =>
    rw [List.pairwise_cons] at hl
    cases n with
    | zero => simp
    | succ n =>
      rw [List.take_succ_cons, List.mem_cons, List.countP_cons]
      rcases List.mem_cons.mp hx with rfl | hrest
      · have hself : ¬ r x x := fun h => hasymm x x h h
        have hnone : rest.countP (fun y => decide (r y x)) = 0 := by
          rw [List.countP_eq_zero]
          intro y hy
          simpa using hasymm x y (hl.1 y hy)
        simp [hself, hnone]
      · have hbefore : r a x := hl.1 x hrest
        have hne : x ≠ a := by
          intro heq
          subst heq
          exact hasymm x x hbefore hbefore
        simp only [hne, false_or, ih hl.2 hrest, hbefore, decide_true, if_true]
        omega

theorem isDir_of_unfinished {stick : Stick} {machineId name : String}
    (h : stick.Unfinished machineId name) : stick.isDir name = true := by
  unfold Unfinished entry at h
  unfold isDir
  split at h
  · rfl
  · cases h

theorem mem_keys_of_isDir {stick : Stick} {name : String} (h : stick.isDir name = true) :
    name ∈ stick.sessions.keys := by
  unfold isDir at h
  split at h
  · rename_i d hd
    exact List.mem_map_of_mem (f := Prod.fst) (Dict.get?_eq_some_iff.mp hd)
  · cases h

theorem names_perm (stick : Stick) : stick.names.Perm stick.sessions.keys :=
  List.perm_insertionSort _ _

theorem names_sorted (stick : Stick) : stick.names.Pairwise fun a b => b < a := by
  have hsorted : stick.names.Pairwise fun a b => b ≤ a := List.pairwise_insertionSort _ _
  have hnodup : stick.names.Nodup := stick.names_perm.nodup_iff.mpr stick.sessions.nodup
  exact hsorted.imp₂ (fun a b hle hne => lt_of_le_of_ne hle (Ne.symm hne)) hnodup

/-- What the listing adds to the candidates. -/
def scanned (stick : Stick) (pointed : Option String) : List String :=
  stick.names.filter fun name => name ∉ pointed.toList ∧ stick.isDir name

theorem mem_scanned_take {stick : Stick} {pointed : Option String} {name : String}
    (hdir : stick.isDir name = true) (hname : name ∉ pointed.toList) (n : Nat) :
    name ∈ (stick.scanned pointed).take n ↔
      (stick.sessions.keys.countP fun other => decide (name < other) &&
        decide (other ∉ pointed.toList ∧ stick.isDir other = true)) < n := by
  have hmem : name ∈ stick.scanned pointed := by
    refine List.mem_filter.mpr ⟨?_, by simp [hname, hdir]⟩
    exact stick.names_perm.mem_iff.mpr (mem_keys_of_isDir hdir)
  have hsorted : (stick.scanned pointed).Pairwise fun a b => b < a := stick.names_sorted.filter _
  rw [mem_take_iff (fun a b h => not_lt_of_gt h) hsorted hmem, scanned, List.countP_filter,
    stick.names_perm.countP_eq]

theorem mem_candidates_take {stick : Stick} {pointed : Option String} {listed : Bool}
    {name : String} (hdir : stick.isDir name = true) :
    name ∈ (stick.candidates pointed listed).take 50 ↔ stick.Reaches pointed listed name := by
  unfold Reaches ahead
  cases listed with
  | false =>
    show name ∈ (pointed.toList ++ []).take 50 ↔ _
    cases pointed with
    | none => simp
    | some p => simp [@eq_comm _ name p]
  | true =>
    show name ∈ (pointed.toList ++ stick.scanned pointed).take 50 ↔ _
    cases pointed with
    | none =>
      have hscan := @mem_scanned_take stick none name hdir (by simp) 50
      simp only [Option.toList_none, List.nil_append, List.length_nil, zero_add, reduceCtorEq,
        false_or, true_and]
      exact hscan
    | some p =>
      show name ∈ (p :: stick.scanned (some p)).take 50 ↔ _
      rw [List.take_succ_cons, List.mem_cons]
      by_cases hp : name = p
      · simp [hp]
      · have hscan := @mem_scanned_take stick (some p) name hdir (by simpa using hp) 49
        have hne : some p ≠ some name := fun h => hp (Option.some.inj h).symm
        rw [hscan]
        simp only [hp, hne, false_or, true_and]
        rw [show (some p).toList.length = 1 from rfl]
        omega

/-! ## What `open` does -/

theorem findRunning_of_session {stick : Stick} {machineId : String} {listed : Bool}
    {pointed : Option String} (h : (stick.active machineId).session = .ok pointed) :
    stick.findRunning machineId listed =
      .ok (((stick.candidates pointed listed).take 50).findSome? fun name =>
        (SessionStore.findRunning (stick.entry name).states machineId).map
          fun found => (name, found)) := by
  rw [findRunning, h]
  rfl

theorem findRunning_of_error {stick : Stick} {machineId : String} {listed : Bool} {e : PyError}
    (h : (stick.active machineId).session = .error e) :
    stick.findRunning machineId listed = .error e := by
  rw [findRunning, h]
  rfl

theorem found_of_findRunning {stick : Stick} {machineId name : String} {listed : Bool}
    {found : SessionState × Int}
    (h : stick.findRunning machineId listed = .ok (some (name, found))) :
    SessionStore.findRunning (stick.entry name).states machineId = some found := by
  cases hptr : (stick.active machineId).session with
  | error e => rw [findRunning_of_error hptr] at h; cases h
  | ok pointed =>
    rw [findRunning_of_session hptr, Except.ok.injEq] at h
    obtain ⟨other, -, hother⟩ := List.exists_of_findSome?_eq_some h
    obtain ⟨found', hfound, heq⟩ := Option.map_eq_some_iff.mp hother
    obtain ⟨rfl, rfl⟩ := Prod.mk.inj heq
    exact hfound

theorem unfinished_of_findRunning {stick : Stick} {machineId name : String} {listed : Bool}
    {found : SessionState × Int}
    (h : stick.findRunning machineId listed = .ok (some (name, found))) :
    stick.Unfinished machineId name := by
  rw [Unfinished, found_of_findRunning h]
  rfl

/-- The scan finds a session exactly when one is among the directories it looks at. -/
theorem findRunning_isSome_iff {stick : Stick} {machineId : String} {listed : Bool}
    {pointed : Option String} (h : (stick.active machineId).session = .ok pointed) :
    (∃ name found, stick.findRunning machineId listed = .ok (some (name, found))) ↔
      ∃ name, stick.Unfinished machineId name ∧ stick.Reaches pointed listed name := by
  rw [findRunning_of_session h]
  constructor
  · intro hex
    obtain ⟨name, found, hfind⟩ := hex
    obtain ⟨other, hmem, hother⟩ := List.exists_of_findSome?_eq_some (Except.ok.inj hfind)
    have hun : stick.Unfinished machineId other := by
      obtain ⟨found', hfound, -⟩ := Option.map_eq_some_iff.mp hother
      rw [Unfinished, hfound]
      rfl
    exact ⟨other, hun, (mem_candidates_take (isDir_of_unfinished hun)).mp hmem⟩
  · intro hex
    obtain ⟨name, hun, hreach⟩ := hex
    have hmem := (mem_candidates_take (isDir_of_unfinished hun)).mpr hreach
    have hsome : (((stick.candidates pointed listed).take 50).findSome? fun name =>
        (SessionStore.findRunning (stick.entry name).states machineId).map
          fun found => (name, found)).isSome = true := by
      rw [List.findSome?_isSome_iff]
      refine ⟨name, hmem, ?_⟩
      rw [Option.isSome_map]
      exact hun
    obtain ⟨⟨other, found⟩, hfind⟩ := Option.isSome_iff_exists.mp hsome
    exact ⟨other, found, by rw [hfind]⟩

/-- What `open` comes to: an unfinished session is resumed, there is none among the
directories looked at and one is created, or an exception leaves the stick as it is. -/
theorem openSession_cases (stick : Stick) (o : Opening) :
    (∃ name found, stick.findRunning o.identity.machineId o.listed = .ok (some (name, found)) ∧
      stick.openSession o = (stick.file name (stick.resumeFrom o name found).files,
        .ok (.resumed name (stick.resumeFrom o name found).mem))) ∨
    (stick.findRunning o.identity.machineId o.listed = .ok none ∧
      stick.sessions.get? o.name ≠ some none ∧
      (stick.openSession o).1.sessions =
        (stick.file o.name (stick.createIn o).files).sessions ∧
      (stick.openSession o).2 = if o.pointed then .ok (.created o.name (stick.createIn o).mem)
        else .error (.osError "active pointer")) ∨
    (∃ e, stick.openSession o = (stick, .error e)) ∧
      ∀ p, stick.findRunning o.identity.machineId o.listed ≠ .ok (some p) := by
  cases hfind : stick.findRunning o.identity.machineId o.listed with
  | error e => exact Or.inr (Or.inr ⟨⟨e, by rw [openSession, hfind]⟩, fun p hp => by cases hp⟩)
  | ok result =>
    cases result with
    | some p =>
      obtain ⟨name, found⟩ := p
      exact Or.inl ⟨name, found, rfl, by rw [openSession, hfind]⟩
    | none =>
      by_cases hfile : stick.sessions.get? o.name = some none
      · exact Or.inr (Or.inr ⟨⟨.osError "File exists", by simp only [openSession, hfind, hfile]⟩,
          fun p hp => by cases hp⟩)
      · refine Or.inr (Or.inl ⟨rfl, hfile, ?_⟩)
        unfold openSession
        rw [hfind]
        cases hget : stick.sessions.get? o.name with
        | none => cases o.pointed <;> exact ⟨rfl, rfl⟩
        | some entry =>
          cases entry with
          | none => exact absurd hget hfile
          | some d => cases o.pointed <;> exact ⟨rfl, rfl⟩

theorem resumes_iff_found (stick : Stick) (o : Opening) :
    (∃ name session, (stick.openSession o).2 = .ok (.resumed name session) ∧
      stick.Unfinished o.identity.machineId name) ↔
      ∃ name found, stick.findRunning o.identity.machineId o.listed = .ok (some (name, found)) := by
  rcases stick.openSession_cases o with
    ⟨name, found, hfind, hopen⟩ | ⟨hfind, -, -, hres⟩ | ⟨⟨e, hopen⟩, hnone⟩
  · rw [hopen]
    exact ⟨fun _ => ⟨name, found, hfind⟩,
      fun _ => ⟨name, _, rfl, unfinished_of_findRunning hfind⟩⟩
  · rw [hres, hfind]
    constructor
    · intro hex
      obtain ⟨name, session, hopen, -⟩ := hex
      cases hp : o.pointed <;> rw [hp] at hopen <;> cases hopen
    · intro hex
      obtain ⟨name, found, hsome⟩ := hex
      cases hsome
  · rw [hopen]
    constructor
    · intro hex
      obtain ⟨name, session, herror, -⟩ := hex
      cases herror
    · intro hex
      obtain ⟨name, found, hsome⟩ := hex
      exact absurd hsome (hnone _)

/-- `open` resumes an unfinished session of the machine exactly when one is among the
directories it looks at. -/
theorem resumes_iff_inReach (stick : Stick) (o : Opening) :
    (∃ name session, (stick.openSession o).2 = .ok (.resumed name session) ∧
      stick.Unfinished o.identity.machineId name) ↔ stick.InReach o := by
  rw [resumes_iff_found]
  unfold InReach
  cases hptr : (stick.active o.identity.machineId).session with
  | error e =>
    rw [findRunning_of_error hptr]
    constructor
    · intro hex
      obtain ⟨name, found, hsome⟩ := hex
      cases hsome
    · intro hex
      obtain ⟨pointed, hok, -⟩ := hex
      cases hok
  | ok pointed =>
    rw [findRunning_isSome_iff hptr]
    constructor
    · exact fun hname => ⟨pointed, rfl, hname⟩
    · intro hex
      obtain ⟨pointed', hok, hname⟩ := hex
      obtain rfl := Except.ok.inj hok
      exact hname

/-! ## What a new session starts from -/

/-- The directory of a new session as it starts: read back, it gives the created state, no
state that was there before and no finding, and no file of a session has changed that was
on the stick. -/
structure FromNothing (stick stick' : Stick) (o : Opening) (name : String) : Prop where
  state : (stick'.entry name).states.readRotating.1 = some o.fresh
  unread : ∀ place c, (stick.entry name).states place = some c →
    (stick'.entry name).states.readRotating.1 ≠ some c.val
  findings : ∀ path, (Findings.load path (stick'.entry name).findings).items.toList = []
  keptStates : ∀ other place c, (stick.entry other).states place = some c →
    (stick'.entry other).states place = some c
  keptFindings : ∀ other, (stick'.entry other).findings = (stick.entry other).findings

/-- The directory holds nothing where the first state goes, no copy numbered to outrank it
or equal to it, and no finding. -/
structure Vacant (d : Directory) (o : Opening) : Prop where
  slot : d.states .slot1 = none
  older : ∀ c, d.states .slot0 = some c → c.stamp ≤ 1
  legacy : ∀ c, d.states .base = some c → c.stamp ≤ 0
  unseen : ∀ place c, d.states place = some c → c.val ≠ o.fresh
  unlisted : ∀ f ∈ d.findings.readRotating.1.getD [], f = none

theorem toList_foldl_fileRecord (doc : FindingsDoc) (t : Items) :
    (doc.foldl Items.fileRecord t).toList = [] ↔ t.toList = [] ∧ ∀ f ∈ doc, f = none := by
  induction doc generalizing t with
  | nil => simp
  | cons f rest ih =>
    rw [List.foldl_cons, ih, List.forall_mem_cons]
    cases f with
    | none => simp [Items.fileRecord]
    | some f =>
      have hmem : f ∈ (t.put f).toList := Items.mem_toList_iff.mpr (Items.get?_put_self t f)
      have hne : (t.put f).toList ≠ [] := List.ne_nil_of_mem hmem
      simp [Items.fileRecord, hne]

theorem toList_ofDoc_eq_nil {doc : FindingsDoc} :
    (Items.ofDoc doc).toList = [] ↔ ∀ f ∈ doc, f = none := by
  rw [Items.ofDoc, toList_foldl_fileRecord]
  exact and_iff_right rfl

/-- A first state is read back unless a copy that was there outranks it. -/
theorem readRotating_first (files : RotatingFiles SessionState) (st : SessionState) :
    (files.writeRotating st 1).readRotating.1 = some st ∧
        (∀ c, files .slot0 = some c → c.stamp ≤ 1) ∧ (∀ c, files .base = some c → c.stamp ≤ 0) ∨
      ∃ place c, files place = some c ∧
        (files.writeRotating st 1).readRotating.1 = some c.val ∧
        (place = .slot0 ∧ 1 < c.stamp ∨ place = .base ∧ 0 < c.stamp) := by
  have hread : (files.writeRotating st 1).readRotating =
      RotatingFiles.consider (RotatingFiles.consider (RotatingFiles.consider (none, -1)
        (files .slot0)) (some ⟨st, 1⟩)) (files .base) := by
    have hslot0 : files.writeRotating st 1 .slot0 = files .slot0 := rfl
    have hslot1 : files.writeRotating st 1 .slot1 = some ⟨st, 1⟩ := rfl
    have hbase : files.writeRotating st 1 .base = files .base := rfl
    rw [← hslot0, ← hslot1, ← hbase]
    rfl
  have hslots : (RotatingFiles.consider (RotatingFiles.consider (none, -1) (files .slot0))
        (some ⟨st, 1⟩) = (some st, 1) ∧ ∀ c, files .slot0 = some c → c.stamp ≤ 1) ∨
      ∃ c, files .slot0 = some c ∧ RotatingFiles.consider (RotatingFiles.consider (none, -1)
        (files .slot0)) (some ⟨st, 1⟩) = (some c.val, c.stamp) ∧ 1 < c.stamp := by
    cases h0 : files .slot0 with
    | none => exact Or.inl ⟨rfl, fun c hc => by cases hc⟩
    | some c =>
      by_cases hle : c.stamp ≤ 1
      · refine Or.inl ⟨?_, fun c' hc' => by rw [← Option.some.inj hc']; exact hle⟩
        by_cases hneg : -1 ≤ c.stamp
        · simp [RotatingFiles.consider, hneg, hle]
        · simp [RotatingFiles.consider, hneg]
      · have hneg : -1 ≤ c.stamp := by omega
        exact Or.inr ⟨c, rfl, by simp [RotatingFiles.consider, hneg, hle], not_le.mp hle⟩
  rw [hread]
  cases hb : files .base with
  | none =>
    rcases hslots with ⟨hm, h0⟩ | ⟨c, hc, hm, hlt⟩
    · exact Or.inl ⟨by rw [hm]; rfl, h0, fun c hc => by cases hc⟩
    · exact Or.inr ⟨_, c, hc, by rw [hm]; rfl, Or.inl ⟨rfl, hlt⟩⟩
  | some b =>
    rw [RotatingFiles.consider_some]
    split
    · rename_i hle
      refine Or.inr ⟨_, b, hb, rfl, Or.inr ⟨rfl, ?_⟩⟩
      rcases hslots with ⟨hm, -⟩ | ⟨c, -, hm, hlt⟩ <;>
        rw [hm] at hle <;> dsimp only at hle <;> omega
    · rename_i hlt
      rcases hslots with ⟨hm, h0⟩ | ⟨c, hc, hm, hlt⟩
      · refine Or.inl ⟨by rw [hm], h0, fun c hc => ?_⟩
        obtain rfl := Option.some.inj hc
        rw [hm] at hlt
        exact Int.lt_add_one_iff.mp (not_le.mp hlt)
      · exact Or.inr ⟨_, c, hc, by rw [hm], Or.inl ⟨rfl, hlt⟩⟩

theorem entry_of_sessions {s t : Stick} (h : s.sessions = t.sessions) (name : String) :
    s.entry name = t.entry name := by
  rw [entry, entry, h]

theorem createIn_files (stick : Stick) (o : Opening) :
    (stick.createIn o).files = if o.saved then
      (stick.entry o.name).states.writeRotating o.fresh 1 else (stick.entry o.name).states := by
  unfold createIn Opening.outcomes
  cases o.saved <;> rfl

theorem entry_of_created {stick : Stick} {o : Opening} {name : String} {session : Session}
    (h : (stick.openSession o).2 = .ok (.created name session)) :
    name = o.name ∧ ∀ other, (stick.openSession o).1.entry other =
      (stick.file o.name (stick.createIn o).files).entry other := by
  rcases stick.openSession_cases o with
    ⟨found, st, -, hopen⟩ | ⟨-, -, hsessions, hres⟩ | ⟨⟨e, hopen⟩, -⟩
  · rw [hopen] at h
    cases h
  · refine ⟨?_, entry_of_sessions hsessions⟩
    rw [hres] at h
    cases hp : o.pointed <;> rw [hp] at h <;> cases h
    rfl
  · rw [hopen] at h
    cases h

section Created

variable {stick : Stick} {o : Opening} {name : String} {session : Session}

theorem entry_of_created_ne (h : (stick.openSession o).2 = .ok (.created name session))
    {other : String} (hne : other ≠ o.name) :
    (stick.openSession o).1.entry other = stick.entry other := by
  rw [(entry_of_created h).2, file, entry_put_ne _ hne]

theorem entry_of_created_self (h : (stick.openSession o).2 = .ok (.created name session)) :
    (stick.openSession o).1.entry o.name =
      { stick.entry o.name with states := (stick.createIn o).files } := by
  rw [(entry_of_created h).2, file, entry_put_self]

theorem findings_of_created (h : (stick.openSession o).2 = .ok (.created name session))
    (other : String) :
    ((stick.openSession o).1.entry other).findings = (stick.entry other).findings := by
  by_cases hne : other = o.name
  · rw [hne, entry_of_created_self h]
  · rw [entry_of_created_ne h hne]

/-- The new session lists the findings that were in its directory. -/
theorem load_of_created (h : (stick.openSession o).2 = .ok (.created name session))
    (path : String) : (Findings.load path ((stick.openSession o).1.entry o.name).findings).items =
      Items.ofDoc ((stick.entry o.name).findings.readRotating.1.getD []) := by
  rw [findings_of_created h]
  rfl

theorem vacant_of_fromNothing (h : (stick.openSession o).2 = .ok (.created name session))
    (hstart : FromNothing stick (stick.openSession o).1 o o.name) :
    o.saved = true ∧ Vacant (stick.entry o.name) o := by
  have hstate := hstart.state
  have hunread := hstart.unread
  have hfirst := fun place c => hstart.keptStates o.name place c
  rw [entry_of_created_self h, createIn_files] at hstate hunread hfirst
  cases hsaved : o.saved with
  | false =>
    -- what is read is a copy that was there, or nothing
    rw [hsaved] at hstate hunread
    rcases RotatingFiles.readRotating_cases (stick.entry o.name).states with
      hnone | ⟨place, d, hd, hread⟩
    · exact absurd (hnone ▸ hstate) (by simp)
    · exact absurd (congrArg Prod.fst hread) (hunread place d hd)
  | true =>
    rw [hsaved] at hstate hunread hfirst
    rcases readRotating_first (stick.entry o.name).states o.fresh with
      ⟨-, holder, hlegacy⟩ | ⟨place, c, hc, hread, -⟩
    · refine ⟨rfl, ?_, holder, hlegacy, fun place c hc heq => hunread place c hc ?_, ?_⟩
      · by_contra hne
        obtain ⟨c, hc⟩ := Option.ne_none_iff_exists'.mp hne
        have hput : c = ⟨o.fresh, 1⟩ := (Option.some.inj (hfirst .slot1 c hc)).symm
        exact hunread .slot1 c hc (by rw [hput]; exact hstate)
      · rw [heq]
        exact hstate
      · exact toList_ofDoc_eq_nil.mp (load_of_created h "" ▸ hstart.findings "")
    · exact absurd hread (hunread place c hc)

theorem readRotating_of_vacant {d : Directory} (hv : Vacant d o) :
    (d.states.writeRotating o.fresh 1).readRotating.1 = some o.fresh := by
  rcases readRotating_first d.states o.fresh with ⟨hread, -, -⟩ | ⟨place, c, hc, -, hplace⟩
  · exact hread
  · rcases hplace with ⟨rfl, hlt⟩ | ⟨rfl, hlt⟩
    · exact absurd (hv.older c hc) (not_le.mpr hlt)
    · exact absurd (hv.legacy c hc) (not_le.mpr hlt)

theorem fromNothing_of_vacant (h : (stick.openSession o).2 = .ok (.created name session))
    (hsaved : o.saved = true) (hv : Vacant (stick.entry o.name) o) :
    FromNothing stick (stick.openSession o).1 o o.name := by
  have hstates : ((stick.openSession o).1.entry o.name).states =
      (stick.entry o.name).states.writeRotating o.fresh 1 := by
    rw [entry_of_created_self h]
    show (stick.createIn o).files = _
    rw [createIn_files, hsaved, if_pos rfl]
  have hread : ((stick.openSession o).1.entry o.name).states.readRotating.1 = some o.fresh := by
    rw [hstates]
    exact readRotating_of_vacant hv
  refine ⟨hread, fun place c hc heq => ?_, fun path => ?_, fun other place c hc => ?_,
    findings_of_created h⟩
  · rw [hread] at heq
    exact hv.unseen place c hc (Option.some.inj heq).symm
  · rw [load_of_created h]
    exact toList_ofDoc_eq_nil.mpr hv.unlisted
  · by_cases hne : other = o.name
    · subst hne
      have hplace : place ≠ .slot1 := by
        intro hplace
        rw [hplace, hv.slot] at hc
        cases hc
      rw [hstates, RotatingFiles.writeRotating, Register.put_of_ne]
      · exact hc
      · exact hplace
    · rw [entry_of_created_ne h hne]
      exact hc

end Created

/-- A new session starts from nothing exactly when its first save is written and the
directory of its name, if the stick has one already, is vacant. -/
theorem fromNothing_iff_vacant (stick : Stick) (o : Opening) {name : String} {session : Session}
    (h : (stick.openSession o).2 = .ok (.created name session)) :
    FromNothing stick (stick.openSession o).1 o name ↔
      o.saved = true ∧ Vacant (stick.entry name) o := by
  obtain rfl := (entry_of_created h).1
  constructor
  · exact vacant_of_fromNothing h
  · intro hvacant
    exact fromNothing_of_vacant h hvacant.1 hvacant.2

def blank : Stick := { sessions := Dict.empty, active := fun _ => .missing }

def firstStart : Opening :=
  { identity := ⟨"a3f1", "SN1"⟩, opts := {}, plan := [], machine := ⟨"boot-1", "09:00", 0⟩,
    stamp := "20000101-000005" }

/-- A name that is not on the stick has nothing that a new session could take over. -/
theorem vacant_of_absent {stick : Stick} {o : Opening} {name : String}
    (h : stick.sessions.get? name = none) : Vacant (stick.entry name) o := by
  rw [entry, h]
  refine ⟨rfl, fun _ hc => ?_, fun _ hc => ?_, fun _ _ hc => ?_, fun _ hf => ?_⟩
  · cases hc
  · cases hc
  · cases hc
  · cases hf

/-- A session of the same machine that has finished, with a finding. -/
def lastYear : Stick :=
  blank.put "19991231-235900_SN1"
    { states := ((SessionStore.create "19991231-235900_SN1" firstStart.identity {} []
        ⟨"boot-0", "23:59", 0⟩ []).finish .complete "23:59" []).files
      findings := RotatingFiles.empty.writeRotating
        [some { key := "mce", severity := .fail, component := "CPU", title := "machine check" }] 0 }

theorem fromNothing_iff_vacant_lastYear :
    ∃ name session, (lastYear.openSession firstStart).2 = .ok (.created name session) ∧
      FromNothing lastYear (lastYear.openSession firstStart).1 firstStart name :=
  ⟨_, _, rfl, (fromNothing_iff_vacant lastYear firstStart rfl).mpr
    ⟨rfl, vacant_of_absent (by decide)⟩⟩

/-- A session that was started at the same clock reading and has finished. -/
def finished : SessionStore :=
  ((SessionStore.create firstStart.name firstStart.identity {} [] ⟨"boot-0", "09:00", 0⟩ []).finish
    .complete "10:00" [])

def sameSecond : Stick := blank.put firstStart.name { states := finished.files }

theorem starts_from_finished_session :
    ¬ ∀ (stick : Stick) (o : Opening) (name : String) (session : Session),
      (stick.openSession o).2 = .ok (.created name session) →
        FromNothing stick (stick.openSession o).1 o name := by
  intro h
  have hstart := h sameSecond firstStart _ _ rfl
  have hstate := congrArg (Option.map SessionState.status) hstart.state
  revert hstate
  decide +kernel

end Stick

end PcCheck
