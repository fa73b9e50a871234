/-
The monitors that count hardware errors (`EdacMonitor` of `monitors.py`, `ras.py`).

Both keep a cursor in the state of the session: the counters of the memory controllers as
they were read last, and the id of the last row taken from each table of the rasdaemon
database.  What the cursors have passed is added to the counts of the findings.  A sysfs
label and a column of a row are taken as they print, and the database is a list of rows for
each table it has.
-/
import PcCheck.Store
import PcCheck.Config
import Mathlib.Data.Int.Bitwise

namespace PcCheck

def recMemory : String :=
  "Replace or reseat the reported DIMM; re-run the test after swapping it to another slot to " ++
    "confirm."

def recCpuMem : String :=
  "Unstable CPU or memory. Check rasdaemon/MCE decode in the logs to locate the " ++
    "socket/DIMM; reseat or replace it, verify BIOS memory settings (no XMP/EXPO overclock) " ++
    "and update BIOS/microcode."

def recPcie : String :=
  "PCIe signal integrity problem: reseat the device/riser/cable, try another slot, " ++
    "update device firmware; replace the riser or the card if errors continue."

namespace Items

/-- The count under a key, with 0 where there is no finding. -/
def countOf (t : Items) (k : String) : Int := ((t.get? k).map Finding.count).getD 0

end Items

namespace Findings

def countOf (fs : Findings) (k : String) : Int := fs.items.countOf k

end Findings

/-! ## The memory controllers -/

/-- One entry of `edac_counts()`. -/
structure EdacRow where
  key : String
  label : String
  ce : Nat
  ue : Nat
  deriving DecidableEq, Repr

namespace EdacRow

variable (r : EdacRow)

def ceKey (label : String) : String := "memory-ce:" ++ label

def ueKey (label : String) : String := "memory-ue:" ++ label

def ceCall (prev : Nat) (now : String) : AddCall :=
  { key := ceKey r.label, severity := .warn, component := "Memory",
    title := s!"Corrected memory errors (ECC) on {r.label}"
    detail :=
      "The memory controller corrected bit errors. New DIMMs should not produce any " ++
      "corrected errors under stress; this DIMM is likely to fail in production."
    recommendation := recMemory, count := (r.ce : Int) - prev,
    evidence := [s!"{now} {r.label}: ce_count {prev} -> {r.ce}"], now := now }

def ueCall (prev : Nat) (now : String) : AddCall :=
  { key := ueKey r.label, severity := .fail, component := "Memory",
    title := s!"Uncorrectable memory errors on {r.label}"
    recommendation := recMemory, count := (r.ue : Int) - prev,
    evidence := [s!"{now} {r.label}: ue_count {prev} -> {r.ue}"], now := now }

/-- The corrected errors of one entry of `EdacMonitor.poll`; the flags say which writes of
the findings succeed. -/
def countCe (opts : Options) (prev : Nat) (now : String) (added escalated : Bool) (s : Store) :
    Store :=
  if prev < r.ce then
    let s := s.add (r.ceCall prev now) added
    if opts.ceFail ≤ s.mem.countOf (ceKey r.label) then
      s.escalate { key := ceKey r.label, severity := .fail } escalated
    else s
  else s

def countUe (prev : Nat) (now : String) (added : Bool) (s : Store) : Store :=
  if prev < r.ue then s.add (r.ueCall prev now) added else s

end EdacRow

/-! ## The rasdaemon database -/

inductive RasTable where
  | mcEvent
  | mceRecord
  | aerEvent
  | extlogEvent
  deriving DecidableEq, Repr

namespace RasTable

def name : RasTable → String
  | .mcEvent => "mc_event"
  | .mceRecord => "mce_record"
  | .aerEvent => "aer_event"
  | .extlogEvent => "extlog_event"

/-- `RasMonitor.tables`. -/
def all : List RasTable := [.mcEvent, .mceRecord, .aerEvent, .extlogEvent]

end RasTable

/-- A column of a row: the table lacks it, it is NULL, or it has a value. -/
inductive Column (α : Type) where
  | absent
  | null
  | value (a : α)
  deriving DecidableEq, Repr

namespace Column

/-- `str(row.get(name, default))`. -/
def text (default : String) : Column String → String
  | .absent => default
  | .null => "None"
  | .value s => s

def number (default : String) : Column Int → String
  | .absent => default
  | .null => "None"
  | .value n => toString n

/-- `row.get(name) or rest`. -/
def orText (rest : String) : Column String → String
  | .value s => if s = "" then rest else s
  | _ => rest

def orNumber (rest : Int) : Column Int → Int
  | .value n => if n = 0 then rest else n
  | _ => rest

end Column

/-- The columns `RasMonitor.record` reads, and the row as `json.dumps` prints it. -/
structure RasRow where
  id : Nat
  errCount : Column Int := .absent
  errorCount : Column Int := .absent
  errType : Column String := .absent
  label : Column String := .absent
  mc : Column Int := .absent
  status : Column Int := .absent
  socketid : Column Int := .absent
  bank : Column Int := .absent
  devName : Column String := .absent
  severity : Column Int := .absent
  fruText : Column String := .absent
  json : String := ""
  deriving DecidableEq, Repr

/-- What `record` makes of a row: whether the error was corrected, what it is on, the
threshold of its kind and the component. -/
structure RasKind where
  corrected : Bool
  label : String
  threshold : Int
  component : String
  deriving DecidableEq, Repr

namespace RasRow

variable (row : RasRow)

/-- Bit 61 of IA32_MCi_STATUS is set for an uncorrected error. -/
def statusCorrected : Bool :=
  match row.status with
  | .value n => !n.testBit 61
  | _ => false

/-- The branches of `record`; informational rows have no kind. -/
def kind (opts : Options) : RasTable → Option RasKind
  | .mcEvent =>
    let errType := (row.errType.text "").toLower
    if errType = "info" then none
    else
      let mc := row.mc.number "?"
      some
      { corrected := decide (errType = "corrected"),
        label := row.label.orText s!"controller {mc}",
        threshold := opts.ceFail, component := "Memory" }
  | .mceRecord =>
    let socket := row.socketid.number "?"
    let bank := row.bank.number "?"
    some
      { corrected := row.statusCorrected,
        label := s!"socket {socket} bank {bank}",
        threshold := opts.mceFail, component := "CPU/Memory" }
  | .aerEvent => some
      { corrected := decide ((row.errType.text "").toLower = "corrected"),
        label := row.devName.orText "unknown PCIe device",
        threshold := opts.aerFail, component := "PCIe" }
  | .extlogEvent =>
    if row.severity = .value 3 then none
    else some
      { corrected := decide (row.severity = .value 2),
        label := row.fruText.orText "firmware hardware event",
        threshold := opts.mceFail, component := "Platform" }

def count : Int := max 1 (row.errCount.orNumber (row.errorCount.orNumber 1))

end RasRow

namespace RasKind

def word (k : RasKind) : String := if k.corrected then "corrected" else "uncorrected"

def key (k : RasKind) (table : RasTable) : String :=
  "ras:" ++ table.name ++ ":" ++ k.label ++ ":" ++ k.word

def call (k : RasKind) (table : RasTable) (row : RasRow) (now : String) : AddCall :=
  { key := k.key table, severity := if k.corrected then .warn else .fail,
    component := k.component, title := s!"rasdaemon {k.word} error: {k.label}"
    recommendation := if k.component = "PCIe" then recPcie else recCpuMem
    count := row.count, evidence := [row.json], now := now }

end RasKind

namespace RasRow

/-- `RasMonitor.record`. -/
def record (row : RasRow) (opts : Options) (table : RasTable) (now : String)
    (added escalated : Bool) (s : Store) : Store :=
  match row.kind opts table with
  | none => s
  | some k =>
    let s := s.add (k.call table row now) added
    if k.corrected ∧ k.threshold ≤ s.mem.countOf (k.key table) then
      s.escalate { key := k.key table, severity := .fail } escalated
    else s

/-- What a row adds to the count under a key. -/
def share (row : RasRow) (opts : Options) (table : RasTable) (key : String) : Int :=
  match row.kind opts table with
  | none => 0
  | some k => if k.key table = key then row.count else 0

end RasRow

/-! ## The counts -/

namespace Finding

@[simp] theorem attach_count (f : Finding) (line : String) : (f.attach line).count = f.count := by
  simp only [attach]; split <;> rfl

@[simp] theorem attachAll_count (f : Finding) (lines : List String) :
    (f.attachAll lines).count = f.count := by
  induction lines generalizing f with
  | nil => rfl
  | cons line rest ih => exact (ih (f.attach line)).trans (attach_count f line)

@[simp] theorem worsen_count (f : Finding) (s : Severity) (t r : String) :
    (f.worsen s t r).count = f.count := by
  unfold worsen; split <;> rfl

@[simp] theorem merge_count (f : Finding) (c : AddCall) :
    (f.merge c).count = f.count + c.count := by
  unfold merge fillDetail
  split <;> simp

end Finding

theorem Items.countOf_put (t : Items) (f : Finding) (k : String) :
    (t.put f).countOf k = if k = f.key then f.count else t.countOf k := by
  unfold Items.countOf
  rw [Items.get?_put]
  split <;> rfl

namespace Findings

variable {fs : Findings} {k : String} {f : Finding}

theorem countOf_of_get? (h : fs.items.get? k = some f) : fs.countOf k = f.count := by
  rw [countOf, Items.countOf, h]
  rfl

theorem recorded_of_none {c : AddCall} (h : fs.items.get? c.key = none) :
    (fs.recorded c).count = max c.count 1 ∧ (fs.recorded c).severity = c.severity := by
  rw [recorded, h]
  exact ⟨by simp [Finding.ofCall], by simp [Finding.ofCall]⟩

theorem recorded_of_some {c : AddCall} (h : fs.items.get? c.key = some f) :
    (fs.recorded c).count = f.count + c.count ∧
      (fs.recorded c).severity.rank = max f.severity.rank c.severity.rank := by
  rw [recorded, h]
  exact ⟨by simp, by simp [Finding.merge_severity_rank]⟩

/-- Escalating a finding to a failure makes it one and leaves its count. -/
theorem raise_fail (h : fs.items.get? k = some f) :
    ∃ g, (fs.raise { key := k, severity := .fail }).items.get? k = some g ∧
      g.count = f.count ∧ g.severity = .fail := by
  unfold raise
  simp only [h]
  split
  · rename_i hlt
    have hkey : (f.raise { key := k, severity := .fail }).key = k :=
      (Finding.raise_key ..).trans (Items.key_of_get? h)
    refine ⟨f.raise { key := k, severity := .fail }, ?_, Finding.worsen_count .., ?_⟩
    · show (fs.items.put _).get? k = _
      rw [Items.get?_put, hkey, if_pos rfl]
    · unfold Finding.raise Finding.worsen
      rw [if_pos hlt]
  · rename_i hle
    refine ⟨f, h, rfl, ?_⟩
    cases hs : f.severity with
    | fail => rfl
    | info => rw [hs] at hle; exact absurd (by decide) hle
    | warn => rw [hs] at hle; exact absurd (by decide) hle

end Findings

namespace Store

theorem countOf_add (s : Store) {c : AddCall} (hc : 1 ≤ c.count) (ok : Bool) (k : String) :
    (s.add c ok).mem.countOf k = s.mem.countOf k + if k = c.key then c.count else 0 := by
  have hcount : (s.mem.recorded c).count = s.mem.countOf c.key + c.count := by
    unfold Findings.countOf Items.countOf Findings.recorded
    cases hget : s.mem.items.get? c.key with
    | none =>
      rw [Finding.attachAll_count]
      show max c.count 1 = 0 + c.count
      omega
    | some e =>
      rw [Finding.attachAll_count, Finding.merge_count]
      rfl
  unfold Findings.countOf
  rw [add_items, Items.countOf_put, Findings.recorded_key, hcount]
  split
  · rename_i hk
    rw [hk]
    rfl
  · rw [add_zero]

@[simp] theorem countOf_escalate (s : Store) (c : EscalateCall) (ok : Bool) (k : String) :
    (s.escalate c ok).mem.countOf k = s.mem.countOf k := by
  unfold Findings.countOf
  rw [escalate_items]
  rcases s.mem.raise_items c with heq | ⟨f, hf, -, heq⟩
  · rw [heq]
  · rw [heq, Items.countOf_put, Findings.raise_key_eq hf]
    split
    · rename_i hk
      rw [hk, Items.countOf, hf]
      exact Finding.worsen_count ..
    · rfl

end Store

/-- What the entry adds to the counts. -/
theorem EdacRow.countOf_countCe (r : EdacRow) (opts : Options) {prev : Nat} (hprev : prev ≤ r.ce)
    (now : String) (added escalated : Bool) (s : Store) (k : String) :
    (r.countCe opts prev now added escalated s).mem.countOf k =
      s.mem.countOf k + if k = ceKey r.label then (r.ce : Int) - prev else 0 := by
  unfold EdacRow.countCe
  split
  · have hadd : (s.add (r.ceCall prev now) added).mem.countOf k =
        s.mem.countOf k + if k = ceKey r.label then (r.ce : Int) - prev else 0 := by
      refine s.countOf_add ?_ added k
      show 1 ≤ (r.ce : Int) - prev
      omega
    dsimp only
    split
    · rw [Store.countOf_escalate, hadd]
    · exact hadd
  · have hzero : (r.ce : Int) - prev = 0 := by omega
    rw [hzero, ite_self, add_zero]

theorem EdacRow.countOf_countUe (r : EdacRow) (prev : Nat) (now : String) (added : Bool)
    (s : Store) {k : String} (hk : k ≠ ueKey r.label) :
    (r.countUe prev now added s).mem.countOf k = s.mem.countOf k := by
  unfold EdacRow.countUe
  split
  · have hcount : 1 ≤ (r.ueCall prev now).count := by
      show 1 ≤ (r.ue : Int) - prev
      omega
    rw [s.countOf_add hcount, if_neg (show k ≠ (r.ueCall prev now).key from hk), add_zero]
  · rfl

theorem RasRow.countOf_record (row : RasRow) (opts : Options) (table : RasTable) (now : String)
    (added escalated : Bool) (s : Store) (k : String) :
    (row.record opts table now added escalated s).mem.countOf k =
      s.mem.countOf k + row.share opts table k := by
  unfold RasRow.record RasRow.share
  split
  · rw [add_zero]
  · rename_i kind hkind
    have hcount : 1 ≤ (kind.call table row now).count := le_max_left 1 _
    have hadd := s.countOf_add hcount added k
    have hshare :
        (if k = (kind.call table row now).key then (kind.call table row now).count else 0) =
        if kind.key table = k then row.count else 0 := by
      simp only [RasKind.call, eq_comm]
    rw [hshare] at hadd
    dsimp only
    split
    · rw [Store.countOf_escalate, hadd]
    · exact hadd

end PcCheck
