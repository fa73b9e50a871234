/-
The polls of `RasMonitor` (`ras.py`), which can break off at any point.

A poll goes through the tables of the database and, in each, through the rows above the cursor
of the table.  The cursor follows every row that has been recorded, and `record` converts the
columns of a row before it turns to the findings, so that a row is taken as a whole or not at
all.  What a poll raises becomes a finding of its own (`Monitor.sample`).
-/
import PcCheck.Judged
import PcCheck.Lib.EventMachine
import PcCheck.Lib.Tally

namespace PcCheck
namespace RasPolls

open EventMachine

/-! ## Rows -/

/-- What a row holds in a column that `record` passes to `int`. -/
inductive Cell where
  | absent
  | null
  | integer (n : Int)
  /-- Any other value: whether it counts as true, and what `int` makes of it. -/
  | other (truthy : Bool) (int : Except PyError Int)

namespace Cell

def truthy : Cell → Bool
  | integer n => decide (n ≠ 0)
  | other truthy _ => truthy
  | _ => false

/-- `row.get(name) or rest` -/
def orElse (c rest : Cell) : Cell := if c.truthy then c else rest

def int : Cell → Except PyError Int
  | integer n => .ok n
  | other _ int => int
  | _ => .error .typeError

end Cell

/-- A row as SQLite returns it: the columns that are converted, and all others. -/
structure SqlRow where
  errCount : Cell := .absent
  errorCount : Cell := .absent
  status : Cell := .absent
  columns : RasRow

namespace SqlRow

variable (row : SqlRow)

def id : Nat := row.columns.id

def errors : Except PyError Int :=
  (row.errCount.orElse (row.errorCount.orElse (.integer 1))).int

def statusColumn : Except PyError (Column Int) :=
  match row.status with
  | .absent => .ok .absent
  | .null => .ok .null
  | c => c.int.map Column.value

/-- Only `mce_record` has its status looked at. -/
def statusIn (t : RasTable) : Except PyError (Column Int) :=
  if t = .mceRecord then row.statusColumn else .ok .absent

def converted (n : Int) (status : Column Int) : RasRow :=
  { row.columns with errCount := .value n, errorCount := .absent, status := status }

/-- The row with its columns converted, in the order of `record`. -/
def read (t : RasTable) : Except PyError RasRow := do
  let n ← row.errors
  let status ← row.statusIn t
  return row.converted n status

/-- What is added to the findings for a row, if it can be converted and tells of an error. -/
def noted (opts : Options) (t : RasTable) : Option RasRow :=
  match row.read t with
  | .error _ => none
  | .ok r => if (r.kind opts t).isSome then some r else none

end SqlRow

/-! ## The machine -/

inductive Stage where
  | idle
  | begun
  | tables (todo : List RasTable)
  /-- The largest id of the table has been asked for. -/
  | select (t : RasTable) (todo : List RasTable)
  | rows (t : RasTable) (ahead : List SqlRow) (todo : List RasTable)

structure World where
  tables : RasTable → Option (List SqlRow)
  store : Store
  /-- `per_boot_counters("rasdaemon")`, with 0 for a table it lacks. -/
  cursors : RasTable → Nat := fun _ => 0
  stage : Stage := .idle
  lastError : Option String := none
  /-- The rows that `record` has added to the findings, in order. -/
  added : List (RasTable × RasRow) := []

inductive Event where
  | create (t : RasTable)
  | insert (t : RasTable) (row : SqlRow)
  /-- A call of another thread on the findings. -/
  | call (c : Call) (ok : Bool)
  | start
  | query (now : String) (ok : Bool)
  | table (now : String) (ok : Bool)
  | select
  | row (message now : String) (added escalated : Bool)
  | next
  | done
  /-- The service, the database or the file system gives cause to an exception. -/
  | fail (message now : String) (ok : Bool)

def isRasKey (k : String) : Prop := "ras:".toList <+: k.toList

instance : DecidablePred isRasKey := fun k =>
  inferInstanceAs (Decidable ("ras:".toList <+: k.toList))

def errorCall (message now : String) : AddCall :=
  { key := "monitor-error:RasMonitor", severity := .warn, component := "Test",
    title := "Hardware monitor RasMonitor lost coverage", incomplete := true,
    evidence := [message], now := now }

namespace World

variable (w : World)

def rowsOf (t : RasTable) : List SqlRow := (w.tables t).getD []

/-- `SELECT MAX(id)` -/
def maximum (t : RasTable) : Nat := ((w.rowsOf t).map SqlRow.id).foldl max 0

def insert (t : RasTable) (row : SqlRow) : World :=
  { w with tables := Function.update w.tables t (some (w.rowsOf t ++ [row])) }

/-- The poll has raised, and `sample` says so unless it has said the same before. -/
def raised (message now : String) (ok : Bool) : World :=
  if w.lastError = some message then { w with stage := .idle }
  else
    { w with
      stage := .idle, lastError := some message
      store := w.store.add (errorCall message now) ok }

/-- `record`, and the cursor after it. -/
def take (opts : Options) (t : RasTable) (r : RasRow) (now : String) (added escalated : Bool) :
    World :=
  { w with
    store := r.record opts t now added escalated w.store
    cursors := Function.update w.cursors t r.id
    added := if (r.kind opts t).isSome then w.added ++ [(t, r)] else w.added }

end World

/-- The events of the poll. -/
def pollStep (opts : Options) (w : World) : Stage → Event → Option World
  | .idle, .start => some { w with stage := .begun }
  | .begun, .query now ok =>
    let available := RasTable.all.filter fun t => (w.tables t).isSome
    if available = [] then
      some (w.raised "rasdaemon has no supported hardware event tables" now ok)
    else some { w with stage := .tables available }
  | .tables (t :: todo), .table now ok =>
    if w.maximum t < w.cursors t then
      some (w.raised ("rasdaemon " ++ t.name ++ " was reset during the test") now ok)
    else some { w with stage := .select t todo }
  | .select t todo, .select =>
    let ahead := (w.rowsOf t).filter fun row => w.cursors t < row.id
    some { w with stage := .rows t ahead todo }
  | .rows t (row :: ahead) todo, .row message now added escalated =>
    match row.read t with
    | .error _ => some (w.raised message now added)
    | .ok r => some { w.take opts t r now added escalated with stage := .rows t ahead todo }
  | .rows _ [] todo, .next => some { w with stage := .tables todo }
  | .tables [], .done => some { w with stage := .idle }
  | .idle, .fail _ _ _ => none
  | _, .fail message now ok => some (w.raised message now ok)
  | _, _ => none

def step (opts : Options) (w : World) : Event → Option World
  | .create t =>
    if w.tables t = none then some { w with tables := Function.update w.tables t (some []) }
    else none
  | .insert t row =>
    -- The rows of a table are numbered from 1, each higher than those before it.
    if (w.tables t).isSome ∧ 1 ≤ row.id ∧ ∀ old ∈ w.rowsOf t, old.id < row.id then
      some (w.insert t row)
    else none
  | .call c ok => if isRasKey c.key then none else some { w with store := w.store.call c ok }
  | e => pollStep opts w w.stage e

/-- A process at the beginning of a boot. -/
def opened (s : Store) : World := { tables := fun _ => none, store := s }

/-! ## What a poll leaves -/

namespace World

variable (opts : Options) (w : World)

/-- The rows that the cursor has passed. -/
def passed (t : RasTable) : List SqlRow := (w.rowsOf t).filter fun row => row.id ≤ w.cursors t

/-- Those of them that tell of an error. -/
def taken (t : RasTable) : List RasRow := (w.passed t).filterMap fun row => row.noted opts t

def addedTo (t : RasTable) : List RasRow :=
  (w.added.filter fun p => decide (p.1 = t)).map Prod.snd

end World

/-- The findings reflect the rows up to the cursors and nothing else. -/
structure Reflected (opts : Options) (w : World) : Prop where
  /-- The rows are added in order and once. -/
  once : ∀ t, w.addedTo t = w.taken opts t
  /-- No row is passed over because it cannot be converted. -/
  whole : ∀ t, ∀ row ∈ w.passed t, ∃ r, row.read t = .ok r
  present : ∀ k, isRasKey k → ((w.store.mem.items.get? k).isSome = true ↔
    ∃ t, ∃ r ∈ w.taken opts t, ∃ kind, r.kind opts t = some kind ∧ kind.key t = k)
  count : ∀ t, ∀ r ∈ w.taken opts t, ∀ kind, r.kind opts t = some kind →
    w.store.mem.countOf (kind.key t) =
      ((w.taken opts t).map fun r => r.share opts t (kind.key t)).sum
  uncorrected : ∀ t, ∀ r ∈ w.taken opts t, ∀ kind, r.kind opts t = some kind →
    kind.corrected = false → w.store.mem.items.Fails (kind.key t)
  corrected : ∀ t, ∀ r ∈ w.taken opts t, ∀ kind, r.kind opts t = some kind →
    kind.corrected = true → (w.store.mem.items.Fails (kind.key t) ↔
      kind.threshold ≤ w.store.mem.countOf (kind.key t))

end RasPolls
end PcCheck
