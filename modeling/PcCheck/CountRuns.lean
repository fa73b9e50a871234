/-
Counting errors over the restarts of the orchestrator within one boot.

The cursors of the monitors are saved with the state of the session and the counts with the
findings, each when some thread gets to it.  A process that starts again takes both up as
they were saved last.  A poll is a sequence of events, between which the other threads save,
flush and end the process, and in which new errors arrive.  The other findings of a run and
the rest of the session state are left out.
-/
import PcCheck.Counters

namespace PcCheck
namespace CountRuns

/-- What `per_boot_counters` keeps on this boot for the two monitors. -/
structure Cursors where
  edac : Dict String (Nat × Nat) := Dict.empty
  ras : Dict String Nat := Dict.empty

namespace Cursors

def seen (c : Cursors) (key : String) : Nat × Nat := (c.edac.get? key).getD (0, 0)

def last (c : Cursors) (t : RasTable) : Nat := (c.ras.get? t.name).getD 0

end Cursors

inductive EdacStage where
  | fresh
  | ceCounted
  | ueCounted
  deriving DecidableEq, Repr

/-- A poll of `EdacMonitor`: what `edac_counts()` returned and the entries still to come. -/
structure EdacPoll where
  read : List EdacRow
  rest : List EdacRow
  stage : EdacStage := .fresh

/-- A poll of `RasMonitor`: the tables still to come, the rows left of the one being read,
whether the first of them is recorded, and the rows each table was found to have. -/
structure RasPoll where
  tables : List RasTable
  rows : List (RasTable × RasRow) := []
  recorded : Bool := false
  read : RasTable → List RasRow := fun _ => []

structure Process where
  cursors : Cursors
  findings : Findings
  edac : Option EdacPoll := none
  ras : Option RasPoll := none
  /-- What the last complete polls read. -/
  edacRead : Option (List EdacRow) := none
  rasRead : Option (RasTable → List RasRow) := none
  /-- What the process started with. -/
  loaded : Cursors × Items

structure World where
  opts : Options
  /-- The counters of the memory controllers and the tables of the rasdaemon database. -/
  edac : List EdacRow
  ras : RasTable → List RasRow
  /-- The cursors in `state.json` and the files of `findings.json`. -/
  saved : Cursors
  files : RotatingFiles FindingsDoc
  proc : Option Process

inductive Event where
  | start
  | die
  | save
  | flush (force ok : Bool)
  | memoryErrors (edac : List EdacRow)
  | newRow (t : RasTable) (row : RasRow)
  | edacStart
  | edacCe (now : String) (added escalated : Bool)
  | edacUe (now : String) (added : Bool)
  | edacSeen
  | edacDone
  | rasStart
  | rasTable
  | rasRecord (now : String) (added escalated : Bool)
  | rasCursor
  | rasDone

/-- The counters of the same memory, none of them lower. -/
def Grown (old new : List EdacRow) : Prop :=
  List.Forall₂ (fun a b => a.key = b.key ∧ a.label = b.label ∧ a.ce ≤ b.ce ∧ a.ue ≤ b.ue) old new

instance (old new : List EdacRow) : Decidable (Grown old new) :=
  inferInstanceAs (Decidable (List.Forall₂ _ old new))

namespace World

variable (w : World)

def store (p : Process) : Store := { mem := p.findings, files := w.files }

/-- The process goes on with the findings `s`. -/
def put (p : Process) (s : Store) : World :=
  { w with files := s.files, proc := some { p with findings := s.mem } }

end World

def findingsPath : String := "findings.json"

/-- The steps of `EdacMonitor.poll`. -/
def edacStep (w : World) (p : Process) : Event → Option World
  | .edacStart =>
    if p.edac.isNone then
      some { w with proc := some { p with edac := some ⟨w.edac, w.edac, .fresh⟩ } }
    else none
  | .edacCe now added escalated =>
    match p.edac with
    | some ⟨read, r :: rest, .fresh⟩ =>
      some (w.put { p with edac := some ⟨read, r :: rest, .ceCounted⟩ }
        (r.countCe w.opts (p.cursors.seen r.key).1 now added escalated (w.store p)))
    | _ => none
  | .edacUe now added =>
    match p.edac with
    | some ⟨read, r :: rest, .ceCounted⟩ =>
      some (w.put { p with edac := some ⟨read, r :: rest, .ueCounted⟩ }
        (r.countUe (p.cursors.seen r.key).2 now added (w.store p)))
    | _ => none
  | .edacSeen =>
    match p.edac with
    | some ⟨read, r :: rest, .ueCounted⟩ =>
      let seen := p.cursors.edac.set r.key (r.ce, r.ue)
      some { w with proc := some { p with
        edac := some ⟨read, rest, .fresh⟩, cursors := { p.cursors with edac := seen } } }
    | _ => none
  | .edacDone =>
    match p.edac with
    | some ⟨read, [], .fresh⟩ =>
      some { w with proc := some { p with edac := none, edacRead := some read } }
    | _ => none
  | _ => none

/-- `SELECT MAX(id)`. -/
def maximum (rows : List RasRow) : Nat := (rows.map RasRow.id).foldl max 0

/-- The steps of `RasMonitor.poll` on a database that can be read.  It raises over a table
that has been reset. -/
def rasStep (w : World) (p : Process) : Event → Option World
  | .rasStart =>
    if p.ras.isNone then
      some { w with proc := some { p with ras := some { tables := RasTable.all } } }
    else none
  | .rasTable =>
    match p.ras with
    | some ⟨t :: tables, [], _, read⟩ =>
      if maximum (w.ras t) < p.cursors.last t then
        some { w with proc := some { p with ras := none } }
      else
        let rows := (w.ras t).filter fun row => p.cursors.last t < row.id
        let poll : RasPoll :=
          { tables := tables, rows := rows.map fun row => (t, row),
            read := Function.update read t (w.ras t) }
        some { w with proc := some { p with ras := some poll } }
    | _ => none
  | .rasRecord now added escalated =>
    match p.ras with
    | some ⟨tables, (t, row) :: rows, false, read⟩ =>
      some (w.put { p with ras := some ⟨tables, (t, row) :: rows, true, read⟩ }
        (row.record w.opts t now added escalated (w.store p)))
    | _ => none
  | .rasCursor =>
    match p.ras with
    | some ⟨tables, (t, row) :: rows, true, read⟩ =>
      let taken := p.cursors.ras.set t.name row.id
      some { w with proc := some { p with
        ras := some ⟨tables, rows, false, read⟩, cursors := { p.cursors with ras := taken } } }
    | _ => none
  | .rasDone =>
    match p.ras with
    | some ⟨[], [], _, read⟩ =>
      some { w with proc := some { p with ras := none, rasRead := some read } }
    | _ => none
  | _ => none

def step (w : World) : Event → Option World
  | .start =>
    match w.proc with
    | none =>
      let findings := Findings.load findingsPath w.files
      let p : Process :=
        { cursors := w.saved, findings := findings, loaded := (w.saved, findings.items) }
      some { w with proc := some p }
    | some _ => none
  | .die => some { w with proc := none }
  | .save => w.proc.map fun p => { w with saved := p.cursors }
  | .flush force ok => w.proc.map fun p => w.put p ((w.store p).flush force ok)
  | .memoryErrors edac => if Grown w.edac edac then some { w with edac := edac } else none
  | .newRow t row =>
    if 1 ≤ row.id ∧ ∀ old ∈ w.ras t, old.id < row.id then
      some { w with ras := Function.update w.ras t (w.ras t ++ [row]) }
    else none
  | .edacStart => w.proc.bind fun p => edacStep w p .edacStart
  | .edacCe now added escalated => w.proc.bind fun p => edacStep w p (.edacCe now added escalated)
  | .edacUe now added => w.proc.bind fun p => edacStep w p (.edacUe now added)
  | .edacSeen => w.proc.bind fun p => edacStep w p .edacSeen
  | .edacDone => w.proc.bind fun p => edacStep w p .edacDone
  | e => w.proc.bind fun p => rasStep w p e

/-- A boot of a new session: the counters are as the kernel shows them, and nothing is on
file. -/
def opened (opts : Options) (edac : Dict String (String × Nat × Nat)) : World :=
  { opts := opts,
    edac := edac.entries.map fun (key, label, ce, ue) => ⟨key, label, ce, ue⟩,
    ras := fun _ => [], saved := {}, files := RotatingFiles.empty, proc := none }

end CountRuns
end PcCheck
