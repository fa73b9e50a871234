/-
The findings as the text of their file (`Finding.to_dict`, `Findings.__init__` and
`Findings.flush` of `findings.py`).

`flush` writes the dicts of all findings under one key, and a new `Findings` makes a finding
of every record it reads there, or of every record of a list, the older form.
-/
import PcCheck.SlotFiles
import PcCheck.Store

namespace PcCheck

open JsonText

namespace Severity

/-- The constants `FAIL`, `WARN` and `INFO`. -/
def name : Severity → String
  | fail => "FAIL"
  | warn => "WARN"
  | info => "INFO"

def ofName (s : String) : Option Severity :=
  if s = "FAIL" then some fail
  else if s = "WARN" then some warn
  else if s = "INFO" then some info
  else none

@[simp] theorem ofName_name (s : Severity) : ofName s.name = some s := by
  cases s <;> rfl

end Severity

namespace FindingsText

open SlotFiles EventMachine

def fieldNames : List String :=
  ["key", "severity", "component", "title", "detail", "recommendation", "count", "first_seen",
    "last_seen", "phase", "evidence", "incomplete"]

/-- `dataclasses.asdict`. -/
def toDict (f : Finding) : List (String × Doc) :=
  [("key", .str f.key), ("severity", .str f.severity.name), ("component", .str f.component),
    ("title", .str f.title), ("detail", .str f.detail), ("recommendation", .str f.recommendation),
    ("count", .num (.ofInt f.count)), ("first_seen", .str f.firstSeen),
    ("last_seen", .str f.lastSeen), ("phase", .str f.phase),
    ("evidence", .arr (f.evidence.map .str)), ("incomplete", .bool f.incomplete)]

def strOf : Doc → Option String
  | .str s => some s
  | _ => none

def intOf : Doc → Option Int
  | .num n => n.toInt?
  | _ => none

def boolOf : Doc → Option Bool
  | .bool b => some b
  | _ => none

def stringsOf : Doc → Option (List String)
  | .arr items => items.mapM strOf
  | _ => none

/-- An argument of `Finding(**raw)`: one without a default is required. -/
def argument {α : Type} (fields : List (String × Doc)) (name : String) (read : Doc → Option α)
    (default : Option α) : Option α :=
  match Dict.assoc name fields with
  | some d => read d
  | none => default

/-- `Finding(**raw)`, where `none` stands for the `TypeError` of a key that is none of the
fields, of a required one that is missing, and of a record that is not a dict.  A value of
another type than its field has is refused here as well. -/
def findingOf : Doc → Option Finding
  | .obj fields =>
    if ∀ e ∈ fields, e.1 ∈ fieldNames then do
      let key ← argument fields "key" strOf none
      let severity ← (argument fields "severity" strOf none).bind Severity.ofName
      let component ← argument fields "component" strOf none
      let title ← argument fields "title" strOf none
      let detail ← argument fields "detail" strOf (some "")
      let recommendation ← argument fields "recommendation" strOf (some "")
      let count ← argument fields "count" intOf (some 1)
      let firstSeen ← argument fields "first_seen" strOf (some "")
      let lastSeen ← argument fields "last_seen" strOf (some "")
      let phase ← argument fields "phase" strOf (some "")
      let evidence ← argument fields "evidence" stringsOf (some [])
      let incomplete ← argument fields "incomplete" boolOf (some false)
      some { key, severity, component, title, detail, recommendation, count, firstSeen, lastSeen,
             phase, evidence, incomplete }
    else none
  | _ => none

def itemsOf : Doc → List Doc
  | .arr items => items
  | _ => []

/-- The records that a new `Findings` finds in what it reads. -/
def records : Option Doc → List Doc
  | some (.obj fields) => itemsOf ((Dict.assoc "findings" fields).getD (.arr []))
  | some (.arr items) => items
  | _ => []

def findingsOf (existing : Option Doc) : FindingsDoc := (records existing).map findingOf

/-- What `flush` writes. -/
def data (t : Items) : List (String × Doc) :=
  [("findings", .arr (t.toList.map fun f => .obj (toDict f)))]

/-! ## One finding -/

theorem sorted_strings (l : List String) : Doc.sortedItems (l.map .str) = l.map .str := by
  induction l with
  | nil => rfl
  | cons s l ih =>
    have hs : (Doc.str s).sorted = .str s := rfl
    rw [List.map_cons, Doc.sortedItems, ih, hs]

theorem stringsOf_map (l : List String) : stringsOf (.arr (l.map .str)) = some l := by
  show (l.map Doc.str).mapM strOf = some l
  induction l with
  | nil => rfl
  | cons s l ih => rw [List.map_cons, List.mapM_cons, ih]; rfl

theorem nodup_toDict (f : Finding) : ((toDict f).map Prod.fst).Nodup := by
  show fieldNames.Nodup
  decide

theorem proper_toDict (f : Finding) : (Doc.obj (toDict f)).Proper := by
  refine ⟨nodup_toDict f, properFields_iff.mpr fun e he => ?_⟩
  have hitems : ∀ l : List String, Doc.ProperItems (l.map .str) := by
    intro l
    induction l with
    | nil => trivial
    | cons s l ih => exact ⟨trivial, ih⟩
  simp only [toDict, List.mem_cons, List.not_mem_nil, or_false] at he
  rcases he with rfl | rfl | rfl | rfl | rfl | rfl | rfl | rfl | rfl | rfl | rfl | rfl
  all_goals first | exact hitems _ | trivial

theorem argument_sorted {α : Type} (f : Finding) (name : String) (read : Doc → Option α)
    (default : Option α) :
    argument ((Doc.sortedFields (toDict f)).insertionSort fun a b => a.1 ≤ b.1) name read default =
      argument (toDict f) name (fun d => read d.sorted) default := by
  rw [argument, assoc_sorted (nodup_toDict f), argument]
  cases Dict.assoc name (toDict f) <;> rfl

/-- A finding is read back as it was, whatever texts it has. -/
theorem findingOf_toDict (f : Finding) : findingOf (Doc.obj (toDict f)).sorted = some f := by
  have hperm := List.perm_insertionSort (fun a b : String × Doc => a.1 ≤ b.1)
    (Doc.sortedFields (toDict f))
  have hnames : ∀ e ∈ (Doc.sortedFields (toDict f)).insertionSort fun a b => a.1 ≤ b.1,
      e.1 ∈ fieldNames := by
    intro e he
    have hmem := List.mem_map_of_mem (f := Prod.fst) (hperm.mem_iff.mp he)
    rwa [keys_sortedFields] at hmem
  have hevidence : stringsOf (Doc.arr (f.evidence.map .str)).sorted = some f.evidence := by
    rw [Doc.sorted, sorted_strings, stringsOf_map]
  rw [Doc.sorted, findingOf, if_pos hnames]
  have hstr : ∀ s, strOf (Doc.str s).sorted = some s := fun _ => rfl
  have hint : intOf (Doc.num (.ofInt f.count)).sorted = some f.count := Literal.toInt?_ofInt _
  have hbool : boolOf (Doc.bool f.incomplete).sorted = some f.incomplete := rfl
  simp only [argument_sorted]
  simp [argument, toDict, Dict.assoc, hstr, hint, hbool, hevidence]

/-! ## The findings on the disk -/

theorem proper_records (l : List Finding) : Doc.ProperItems (l.map fun f => .obj (toDict f)) := by
  induction l with
  | nil => trivial
  | cons f l ih => exact ⟨proper_toDict f, ih⟩

/-- The dict that `flush` writes. -/
def record (t : Items) : Record where
  fields := ⟨data t, List.nodup_singleton _⟩
  proper := by
    intro e he
    obtain rfl := List.mem_singleton.mp he
    exact proper_records _

theorem findingsOf_saved (t : Items) (seq : Int) :
    findingsOf (some ((record t).saved seq).val) = t.toDoc := by
  have hassoc := assoc_sorted (proper_withSeq (record t) seq).1 "findings"
  have hget : Dict.assoc "findings" ((record t).fields.set "save_seq" (.num (.ofInt seq))).entries =
      some (.arr (t.toList.map fun f => .obj (toDict f))) :=
    (Dict.get?_set_ne _ (by decide) _).trans rfl
  have hitems : ∀ l : List Finding,
      (Doc.sortedItems (l.map fun f => .obj (toDict f))).map findingOf = l.map some := by
    intro l
    induction l with
    | nil => rfl
    | cons f l ih =>
      rw [List.map_cons, Doc.sortedItems, List.map_cons, ih, findingOf_toDict, List.map_cons]
  rw [hget] at hassoc
  have hrecords : records (some ((record t).saved seq).val) =
      Doc.sortedItems (t.toList.map fun f => .obj (toDict f)) := by
    show itemsOf ((Dict.assoc "findings" _).getD _) = _
    rw [hassoc]
    rfl
  rw [findingsOf, hrecords, hitems]
  rfl

/-- `Findings(path)`, which raises where the comparison in `read_rotating` does. -/
def load (path : String) (d : Files) : Option Findings :=
  (SlotFiles.readRotating d).map fun p =>
    { path := some path, items := Items.ofDoc (findingsOf p.1), dirty := false, currentPhase := "",
      seq := p.2 }

inductive Call where
  | add (c : AddCall)
  | escalate (c : EscalateCall)
  | flush (force : Bool)
  | phase (name : String)

/-- How the write ends that a call makes.  A crash may also come where a call makes none. -/
inductive Outcome where
  | written
  | raised (k : Nat)
  | crashed (k : Nat) (fates : Path → CrashFs.Fate Char)

/-- The store of a process and the disk.  `failed` keeps the keys of the failures whose `add`
has returned with the file written. -/
structure Process where
  path : String
  mem : Findings
  disk : Files
  completed : List (Saved Doc) := []
  failed : List String := []

namespace Process

def slots (s : Process) : World := { disk := s.disk, seq := s.mem.seq, completed := s.completed }

/-- What a call does to the store. -/
def called (s : Process) : Call → Process
  | .add c => { s with mem := (s.mem.record c).1 }
  | .escalate c => { s with mem := s.mem.raise c }
  | .flush _ => s
  | .phase name => { s with mem := { s.mem with currentPhase := name } }

/-- The `force` of the flush that a call ends with. -/
def flushes (s : Process) : Call → Option Bool
  | .add c => if (s.mem.record c).2 then some false else none
  | .escalate _ => some false
  | .flush force => some force
  | .phase _ => none

/-- The store after the locked part of the flush, where that goes on to write the file. -/
def writes (s : Process) (call : Call) : Option Findings :=
  (s.flushes call).bind fun force =>
    ((s.called call).mem.snapshot force).2.map fun _ => ((s.called call).mem.snapshot force).1

/-- The next boot loads the findings anew. -/
def reboot (s : Process) (k : Nat) (fates : Path → CrashFs.Fate Char) : Option Process :=
  let w := s.slots.crash (-1) (record s.mem.items) k fates
  (load s.path w.disk).map fun mem =>
    { s with mem := mem, disk := w.disk, completed := w.completed }

def noteFailed (s : Process) : Call → Process
  | .add c => if c.severity = .fail then { s with failed := c.key :: s.failed } else s
  | _ => s

end Process

open Process in
def step (s : Process) (e : Call × Outcome) : Option Process :=
  let s' := s.called e.1
  match s.writes e.1, e.2 with
  | none, .crashed _ fates => s'.reboot 0 fates
  | none, _ => some s'
  | some mem, .written =>
    let w := s'.slots.save (record mem.items)
    some ({ s' with mem := mem, disk := w.disk, completed := w.completed }.noteFailed e.1)
  | some mem, .raised k =>
    some { s' with mem := mem, disk := (s'.slots.fail (record mem.items) k).disk }
  | some _, .crashed k fates => s'.reboot k fates

/-- No crash tears a slot after an odd number of writes in a row has failed. -/
def SafeCall (s : Process) (e : Call × Outcome) : Prop :=
  ∀ k fates, e.2 = .crashed k fates → (s.writes e.1).isSome →
    Safe (s.called e.1).slots (.crash (record (s.called e.1).mem.items) k fates)

/-- A failure is in the store and in what the next boot would load. -/
def Known (s : Process) (k : String) : Prop :=
  s.mem.items.Fails k ∧ ∃ fs, load s.path s.disk = some fs ∧ fs.items.Fails k

/-- What the newest copy on the disk promises. -/
structure Promised (s : Process) (d : Saved Doc) (t : Items) : Prop where
  copy : d = (record t).saved d.stamp
  held : ∀ k, t.Fails k → s.mem.items.Fails k
  failed : ∀ k ∈ s.failed, t.Fails k

structure Durable (legacy : Content) (s : Process) : Prop where
  slots : SlotFiles.Inv (-1) legacy s.slots
  path : s.mem.path.isSome = true
  newest : ∀ d, s.completed.head? = some d → ∃ t, Promised s d t
  blank : s.completed = [] → s.failed = []

section Runs

variable {legacy : Content} {w : World} {s : Process}

theorem load_of_inv (hlegacy : Unnumbered legacy) (h : SlotFiles.Inv (-1) legacy w)
    (path : String) :
    ∃ fs, load path w.disk = some fs ∧ fs.path.isSome = true ∧
      fs.seq = World.resumeSeq (-1) w.disk ∧
      ∀ t n, w.completed.head? = some ((record t).saved n) → fs.items = t := by
  have hread : SlotFiles.readRotating w.disk = _ := readsNewest_of_inv hlegacy h
  have hfiles := readRotating_eq h.comparable
  refine ⟨_, by rw [load, hread, Option.map_some], rfl, ?_, ?_⟩
  · rw [resumeSeq_eq h.comparable]
    exact congrArg Prod.snd (Option.some.inj (hread.symm.trans hfiles))
  · intro t n hd
    show Items.ofDoc (findingsOf (Boots.newest _ w.completed).1) = t
    cases hcase : w.completed with
    | nil =>
      rw [hcase] at hd
      cases hd
    | cons c rest =>
      rw [hcase] at hd
      obtain rfl := Option.some.inj hd
      show Items.ofDoc (findingsOf (some ((record t).saved n).val)) = t
      rw [findingsOf_saved, Items.ofDoc_toDoc]

theorem known_of_durable (hlegacy : Unnumbered legacy) (h : Durable legacy s) {k : String}
    (hk : k ∈ s.failed) : Known s k := by
  obtain ⟨fs, hload, -, -, hitems⟩ := load_of_inv hlegacy h.slots s.path
  cases hhead : s.completed.head? with
  | none =>
    have hnil := h.blank (List.head?_eq_none_iff.mp hhead)
    rw [hnil] at hk
    cases hk
  | some d =>
    obtain ⟨t, ht⟩ := h.newest d hhead
    refine ⟨ht.held k (ht.failed k hk), fs, hload, ?_⟩
    rw [hitems t d.stamp (hhead.trans (congrArg some ht.copy))]
    exact ht.failed k hk

/-- The store in memory changes, and keeps its failures. -/
theorem Durable.mem (h : Durable legacy s) {mem : Findings} (hpath : mem.path.isSome = true)
    (hseq : mem.seq = s.mem.seq) (hmem : ∀ k, s.mem.items.Fails k → mem.items.Fails k) :
    Durable legacy { s with mem := mem } := by
  refine ⟨?_, hpath, fun d hd => ?_, h.blank⟩
  · show SlotFiles.Inv (-1) legacy { disk := s.disk, seq := mem.seq, completed := s.completed }
    rw [hseq]
    exact h.slots
  · obtain ⟨t, ht⟩ := h.newest d hd
    exact ⟨t, ht.copy, fun k hk => hmem k (ht.held k hk), ht.failed⟩

theorem durable_called (h : Durable legacy s) (call : Call) : Durable legacy (s.called call) := by
  cases call with
  | add c => exact h.mem h.path rfl fun k hk => Findings.fails_record c hk
  | escalate c =>
    obtain ⟨hpath, hseq⟩ := Store.raise_frame s.mem c
    refine h.mem ?_ hseq fun k hk => Findings.fails_raise c hk
    rw [hpath]
    exact h.path
  | flush force => exact h
  | phase name => exact h.mem h.path rfl fun k hk => hk

theorem fails_of_failed (h : Durable legacy s) {k : String} (hk : k ∈ s.failed) :
    s.mem.items.Fails k := by
  cases hhead : s.completed.head? with
  | none =>
    rw [h.blank (List.head?_eq_none_iff.mp hhead)] at hk
    cases hk
  | some d =>
    obtain ⟨t, ht⟩ := h.newest d hhead
    exact ht.held k (ht.failed k hk)

/-- After a boot the store is what the newest copy holds. -/
theorem durable_reboot (hlegacy : Unnumbered legacy) (h : Durable legacy s) {k : Nat}
    {fates : Path → CrashFs.Fate Char}
    (hsafe : Safe s.slots (.crash (record s.mem.items) k fates)) {t : Process}
    (ht : s.reboot k fates = some t) : Durable legacy t := by
  have hinv := inv_crash (by decide) hlegacy h.slots hsafe
  obtain ⟨fs, hload, hpath, hseq, hitems⟩ := load_of_inv hlegacy hinv s.path
  obtain ⟨mem, hmem, rfl⟩ := Option.map_eq_some_iff.mp ht
  obtain rfl := Option.some.inj (hload.symm.trans hmem)
  have hpromise : ∀ d t, (s.slots.crash (-1) (record s.mem.items) k fates).completed.head? = some d →
      d = (record t).saved d.stamp → (∀ k ∈ s.failed, t.Fails k) → ∃ t, Promised
        { s with mem := fs, disk := (s.slots.crash (-1) (record s.mem.items) k fates).disk,
                 completed := (s.slots.crash (-1) (record s.mem.items) k fates).completed } d t := by
    intro d t hd hcopy hfailed
    have hfs := hitems t d.stamp (hd.trans (congrArg some hcopy))
    exact ⟨t, hcopy, fun k hk => hfs ▸ hk, hfailed⟩
  refine ⟨?_, hpath, fun d hd => ?_, fun hnil => ?_⟩
  · show SlotFiles.Inv (-1) legacy { disk := _, seq := fs.seq, completed := _ }
    rw [hseq]
    exact hinv
  · by_cases hlanded : s.slots.Landed (record s.mem.items)
        (s.slots.crashed (record s.mem.items) k fates)
    · refine hpromise d s.mem.items hd ?_ fun k hk => fails_of_failed h hk
      have hcompleted : (s.slots.crash (-1) (record s.mem.items) k fates).completed =
          (record s.mem.items).saved (s.mem.seq + 1) :: s.completed := if_pos hlanded
      change (s.slots.crash (-1) (record s.mem.items) k fates).completed.head? = some d at hd
      rw [hcompleted] at hd
      rw [← Option.some.inj hd]
      rfl
    · have hcompleted : (s.slots.crash (-1) (record s.mem.items) k fates).completed =
          s.completed := if_neg hlanded
      obtain ⟨t, ht⟩ := h.newest d (hcompleted ▸ hd)
      exact hpromise d t hd ht.copy ht.failed
  · refine h.blank ?_
    change (s.slots.crash (-1) (record s.mem.items) k fates).completed = [] at hnil
    change (if _ then _ else s.completed) = [] at hnil
    split at hnil
    · cases hnil
    · exact hnil

theorem writes_eq {call : Call} {mem : Findings} (h : s.writes call = some mem) :
    mem = { (s.called call).mem with dirty := false, seq := (s.called call).mem.seq + 1 } := by
  obtain ⟨force, -, hsnap⟩ := Option.bind_eq_some_iff.mp h
  rcases Findings.snapshot_eq (s.called call).mem force with heq | heq
  · rw [heq] at hsnap
    cases hsnap
  · rw [heq] at hsnap
    exact (Option.some.inj hsnap).symm

/-- The copy that a completed write leaves promises all that is in memory. -/
theorem durable_written (hlegacy : Unnumbered legacy) (h : Durable legacy s) {mem : Findings}
    (hpath : mem.path.isSome = true) (hseq : mem.seq = s.mem.seq + 1) (failed : List String)
    (hfailed : ∀ k ∈ failed, mem.items.Fails k) :
    Durable legacy { s with
      mem := mem, disk := (s.slots.save (record mem.items)).disk,
      completed := (s.slots.save (record mem.items)).completed, failed := failed } := by
  refine ⟨?_, hpath, fun d hd => ?_, nofun⟩
  · show SlotFiles.Inv (-1) legacy { disk := _, seq := mem.seq, completed := _ }
    rw [hseq]
    exact inv_save hlegacy h.slots (record mem.items)
  · obtain rfl := Option.some.inj hd
    exact ⟨mem.items, rfl, fun _ hk => hk, hfailed⟩

theorem durable_raised (h : Durable legacy s) {mem : Findings} (hpath : mem.path.isSome = true)
    (hseq : mem.seq = s.mem.seq + 1) (hitems : mem.items = s.mem.items) (k : Nat) :
    Durable legacy { s with mem := mem, disk := (s.slots.fail (record mem.items) k).disk } := by
  refine ⟨?_, hpath, fun d hd => ?_, h.blank⟩
  · show SlotFiles.Inv (-1) legacy { disk := _, seq := mem.seq, completed := s.completed }
    rw [hseq]
    exact inv_fail h.slots (record mem.items) k
  · obtain ⟨t, ht⟩ := h.newest d hd
    exact ⟨t, ht.copy, fun k hk => hitems ▸ ht.held k hk, ht.failed⟩

/-- A crash between the writes changes nothing on the disk. -/
theorem safe_of_no_write (h : SlotFiles.Inv (-1) legacy w) (obj : Record)
    (fates : Path → CrashFs.Fate Char) : Safe w (.crash obj 0 fates) := by
  intro htorn
  exact absurd (CrashFs.Disk.crash_of_settled (h.settled _) fates) htorn.2

theorem durable_step (hlegacy : Unnumbered legacy) {e : Call × Outcome} {t : Process}
    (h : Durable legacy s) (hsafe : SafeCall s e) (ht : step s e = some t) :
    Durable legacy t := by
  obtain ⟨call, out⟩ := e
  have hcalled := durable_called h call
  unfold step at ht
  dsimp only at ht
  cases hw : s.writes call with
  | none =>
    rw [hw] at ht
    cases out with
    | written => exact Option.some.inj ht ▸ hcalled
    | raised k => exact Option.some.inj ht ▸ hcalled
    | crashed k fates =>
      exact durable_reboot hlegacy hcalled (safe_of_no_write hcalled.slots _ _) ht
  | some mem =>
    have hmem := writes_eq hw
    rw [hw] at ht
    have hpath : mem.path.isSome = true := hmem ▸ hcalled.path
    have hseq : mem.seq = (s.called call).mem.seq + 1 := by rw [hmem]
    have hitems : mem.items = (s.called call).mem.items := by rw [hmem]
    cases out with
    | written =>
      obtain rfl := Option.some.inj ht
      have hold : ∀ k ∈ (s.called call).failed, mem.items.Fails k := by
        intro k hk
        rw [hitems]
        exact fails_of_failed hcalled hk
      have hdone := durable_written hlegacy hcalled hpath hseq
      cases call with
      | add c =>
        unfold Process.noteFailed
        dsimp only
        split
        next hfail =>
          refine hdone _ fun k hk => ?_
          rcases List.mem_cons.mp hk with rfl | hk
          · rw [hitems]
            exact Findings.fails_record_self hfail
          · exact hold k hk
        next => exact hdone _ hold
      | escalate c => exact hdone _ hold
      | flush force => exact hdone _ hold
      | phase name => exact hdone _ hold
    | raised k =>
      obtain rfl := Option.some.inj ht
      exact durable_raised hcalled hpath hseq hitems k
    | crashed k fates =>
      refine durable_reboot hlegacy hcalled (hsafe k fates rfl ?_) ht
      rw [hw]
      rfl

end Runs

/-- The first process finds at most the file of an older version. -/
def opened (path : String) (legacy : Content) : Option Process :=
  let d := (SlotFiles.opened (-1) legacy).disk
  (load path d).map fun mem => { path := path, mem := mem, disk := d }

/-- Over any number of boots, with writes that raise and crashes at any step of a write, a
failure that `add` has returned from after writing it stays one, in memory and on the disk.
The calls come one after the other: writes of flushes that overlap can land in another order. -/
theorem failure_survives (path : String) {legacy : Content} (hlegacy : Unnumbered legacy)
    {s : Process} (hs : opened path legacy = some s) {es : List (Call × Outcome)}
    (hsafe : Along step SafeCall s es) :
    Always step (fun t => ∀ k ∈ t.failed, Known t k) s es := by
  obtain ⟨mem, hload, rfl⟩ := Option.map_eq_some_iff.mp hs
  have hinv := SlotFiles.inv_opened (-1) (by decide) hlegacy
  obtain ⟨fs, hload', hpath, hseq, -⟩ := load_of_inv hlegacy hinv path
  obtain rfl := Option.some.inj (hload'.symm.trans hload)
  refine fun pre hpre t ht k hk => known_of_durable hlegacy (always_of_along
    (fun s e t h hsafe ht => durable_step hlegacy h hsafe ht) ⟨?_, hpath, ?_, fun _ => rfl⟩
    hsafe pre hpre t ht) hk
  · show SlotFiles.Inv (-1) legacy { disk := _, seq := fs.seq, completed := [] }
    rw [hseq]
    exact hinv
  · intro d hd
    cases hd

/-- The write after the failure is torn, and the failure is in the other slot. -/
theorem failure_survives_torn_write :
    ∃ s, opened "findings.json" none = some s ∧
      Always step (fun t => ∀ k ∈ t.failed, Known t k) s
        [(.add { key := "mce", severity := .fail, component := "CPU", title := "t" }, .written),
          (.flush true, .crashed 4 fun _ => .gone)] := by
  refine ⟨_, rfl, @failure_survives "findings.json" none ⟨none, rfl, nofun⟩ _ rfl _
    ⟨nofun, fun t ht => ?_⟩⟩
  obtain rfl := Option.some.inj ht
  refine ⟨fun k fates h _ htorn c hc => ?_, fun _ _ => trivial⟩
  obtain rfl := Option.some.inj hc
  rfl

end FindingsText
end PcCheck
