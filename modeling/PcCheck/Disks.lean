/-
Surface scans, write tests and their manager (`disks.py`, and `start_disk_tests` of
`orchestrator.py`).

The manager keeps the progress of every disk in `disk_scans` of the session state, under
the disk's serial number, WWN or name.  A scan thread is a value that takes one turn of
its read loop at a time.  The functions below leave their findings as the list of `add`
calls they make, and what `start_scans` does about a disk is a `Decision`.  The times of
reads are exact numbers, and SMART is left out.
-/
import PcCheck.Discovery
import PcCheck.Session
import PcCheck.Findings

namespace PcCheck

def chunk : Nat := 4 * 1024 * 1024

def maxReadErrors : Nat := 64

def recDisk : String :=
  "Replace the drive (or the cable/backplane slot if only link errors are reported)."

def byteUnits : List String := ["B", "KiB", "MiB", "GiB", "TiB", "PiB"]

def fmtUnits : ℚ → List String → String
  | q, [] => s!"{PyFloat.fixed1 q} PiB"
  | q, unit :: rest =>
    if q < 1024 ∨ unit = "PiB" then
      if unit ≠ "B" then s!"{PyFloat.fixed1 q} {unit}" else s!"{⌊q⌋} B"
    else fmtUnits (q / 1024) rest

/-- `fmt_bytes` of a number a float holds exactly. -/
def fmtBytes (n : Nat) : String := fmtUnits n byteUnits

variable {δ : Type}

/-! ## The surface scan -/

/-- How one read ends.  A read that returns reports its bytes and its time. -/
inductive ReadResult where
  | data (n : Nat) (dt : ℚ)
  | error (text : String)

structure SurfaceScan (δ : Type) where
  disk : Disk δ
  offset : Nat
  errors : List (Nat × String) := []
  slowReads : Nat := 0
  bytesRead : Nat := 0
  seconds : ℚ := 0
  done : Bool := false
  aborted : Bool := false

namespace SurfaceScan

def reading (s : SurfaceScan δ) (stopped : Bool) : Bool :=
  decide (s.offset < s.disk.size) && !stopped

/-- One turn of the read loop, and whether the loop goes on.  A read returns at most the
bytes asked for. -/
def turn (s : SurfaceScan δ) (slowReadSeconds : PyFloat) : ReadResult → SurfaceScan δ × Bool
  | .error text =>
    let s' := { s with errors := s.errors ++ [(s.offset, text)] }
    if maxReadErrors ≤ s'.errors.length then ({ s' with aborted := true }, false)
    else ({ s' with offset := s.offset + min chunk (s.disk.size - s.offset) }, true)
  | .data n dt =>
    let n := min n (min chunk (s.disk.size - s.offset))
    let s' :=
      { s with
        seconds := s.seconds + dt
        slowReads :=
          if PyFloat.lt slowReadSeconds (.finite dt) then s.slowReads + 1 else s.slowReads }
    if n = 0 then
      ({ s' with errors := s.errors ++
          [(s.offset, "Unexpected end of device before its advertised size")] }, false)
    else ({ s' with bytesRead := s.bytesRead + n, offset := s.offset + n }, true)

/-- The assignment to `done` after the loop. -/
def mark (s : SurfaceScan δ) : SurfaceScan δ :=
  if s.disk.size ≤ s.offset ∨ s.aborted then { s with done := true } else s

theorem turn_disk (s : SurfaceScan δ) (slow : PyFloat) (r : ReadResult) :
    (s.turn slow r).1.disk = s.disk := by
  cases r with
  | error text =>
    simp only [turn]
    split <;> rfl
  | data n dt =>
    simp only [turn]
    split <;> rfl

theorem turn_frame (s : SurfaceScan δ) (slow : PyFloat) (r : ReadResult) :
    (s.turn slow r).1.done = s.done ∧ ∃ new, (s.turn slow r).1.errors = s.errors ++ new := by
  cases r with
  | error text =>
    simp only [turn]
    split <;> exact ⟨rfl, _, rfl⟩
  | data n dt =>
    simp only [turn]
    split
    · exact ⟨rfl, _, rfl⟩
    · exact ⟨rfl, [], (List.append_nil _).symm⟩

theorem mark_disk (s : SurfaceScan δ) : s.mark.disk = s.disk := by
  unfold mark
  split <;> rfl

theorem mark_errors (s : SurfaceScan δ) : s.mark.errors = s.errors := by
  unfold mark
  split <;> rfl

def rate (s : SurfaceScan δ) : ℚ := if 0 < s.seconds then s.bytesRead / s.seconds else 0

def label (s : SurfaceScan δ) : String := s!"{s.disk.name} {s.disk.model} SN:{s.disk.serial}"

def errorsKey (d : Disk δ) : String := s!"scan-errors:{diskId d}"

def errorsCall (s : SurfaceScan δ) (now : String) : Option AddCall :=
  if s.errors = [] then none
  else some
    { key := errorsKey s.disk, severity := .fail, component := "Storage",
      title := s!"Unreadable sectors found on {s.label} ({s.errors.length} regions)",
      recommendation := recDisk,
      evidence := (s.errors.take 25).map fun e => s!"offset {e.1} ({fmtBytes e.1}): {e.2}",
      now := now }

def slowCall (s : SurfaceScan δ) (now : String) : Option AddCall :=
  if 10 ≤ s.slowReads then
    some
      { key := s!"scan-slow:{diskId s.disk}", severity := .warn, component := "Storage",
        title := s!"{s.slowReads} very slow reads on {s.label} (weak sectors / retries)",
        recommendation := recDisk, now := now }
  else none

def okCall (s : SurfaceScan δ) (now : String) : Option AddCall :=
  if s.done && !s.aborted then
    let speed := PyFloat.fixed0 (s.rate / 2 ^ 20)
    some
      { key := s!"scan-ok:{diskId s.disk}", severity := .info, component := "Storage",
        title := s!"Full surface read completed on {s.label} (avg {speed} MiB/s this boot)",
        now := now }
  else none

def reportCalls (s : SurfaceScan δ) (now : String) : List AddCall :=
  (s.errorsCall now).toList ++ (s.slowCall now).toList ++ (s.okCall now).toList

def cannotOpen (s : SurfaceScan δ) : SurfaceScan δ := { s with done := true }

def openCall (s : SurfaceScan δ) (text now : String) : AddCall :=
  { key := s!"scan-open:{s.disk.name}", severity := .fail, component := "Storage",
    title := s!"Cannot open {s.disk.name} for reading", evidence := [text], now := now }

end SurfaceScan

/-! ## The write test -/

/-- A running `fio`, with its exit code once it has one and the end of its log. -/
structure WriteVerify (δ : Type) where
  disk : Disk δ
  exitCode : Option Int := none
  outputTail : List String := []
  done : Bool := false

namespace WriteVerify

/-- `finished`, which files the result when it first sees the exit code. -/
def finished (w : WriteVerify δ) (now : String) : WriteVerify δ × Option AddCall :=
  if w.done then (w, none)
  else match w.exitCode with
    | none => (w, none)
    | some rc =>
      ({ w with done := true }, some
        (if rc ≠ 0 then
          { key := s!"writeverify:{w.disk.name}", severity := .fail, component := "Storage",
            title :=
              s!"Write/verify test failed on {w.disk.name} {w.disk.model} SN:{w.disk.serial}",
            recommendation := recDisk, evidence := w.outputTail, now := now }
        else
          { key := s!"writeverify-ok:{w.disk.name}", severity := .info, component := "Storage",
            title := s!"Write/verify pass completed on {w.disk.name} {w.disk.model}",
            now := now }))

end WriteVerify

/-! ## The manager -/

structure DiskManager (δ : Type) where
  config : DiskConfig
  resumed : Bool
  scans : List (SurfaceScan δ) := []
  writers : List (WriteVerify δ) := []

inductive Decision where
  | done
  | refused
  | writes
  | reads (offset : Nat)
  deriving DecidableEq

def newEntry (destructiveNames : List String) (d : Disk δ) : ScanEntry :=
  { name := d.name, model := d.model, size := d.size, offset := 0, done := false,
    mode := if d.name ∈ destructiveNames then .writeVerify else .read }

structure Progress where
  offset : Nat := 0
  done : Bool := false
  deriving DecidableEq

namespace SessionState

/-- The progress saved under a name, the start where nothing is saved. -/
def progress (st : SessionState) (ident : String) : Progress :=
  match st.diskScans.get? ident with
  | none => {}
  | some entry => ⟨entry.offset, entry.done⟩

def register (st : SessionState) (destructiveNames : List String) (d : Disk δ) : SessionState :=
  { st with diskScans := st.diskScans.setDefault (diskId d) (newEntry destructiveNames d) }

def entryOf (st : SessionState) (destructiveNames : List String) (d : Disk δ) : ScanEntry :=
  (st.diskScans.get? (diskId d)).getD (newEntry destructiveNames d)

/-- The part of `save_progress` about one scan. -/
def saveScan (st : SessionState) (s : SurfaceScan δ) : SessionState :=
  match st.diskScans.get? (diskId s.disk) with
  | none => st
  | some entry =>
    { st with diskScans :=
        st.diskScans.set (diskId s.disk) { entry with offset := s.offset, done := s.done } }

/-- The part of `save_progress` about one write test, as `finished` leaves it. -/
def saveWriter (st : SessionState) (w : WriteVerify δ) : SessionState :=
  match st.diskScans.get? (diskId w.disk) with
  | none => st
  | some entry =>
    { st with diskScans :=
        st.diskScans.set (diskId w.disk) { entry with done := w.done && !entry.incomplete } }

end SessionState

namespace DiskManager

def unsafeCall (d : Disk δ) (now : String) : AddCall :=
  { key := s!"writeverify-unsafe:{diskId d}", severity := .warn, component := "Storage",
    title := s!"Write/verify safety checks refused {d.name}", incomplete := true, now := now }

def decision (dm : DiskManager δ) (st : SessionState) (destructiveNames : List String)
    (probe : String → Probe) (d : Disk δ) : Except PyError Decision :=
  let entry := st.entryOf destructiveNames d
  if entry.done then .ok .done
  else match entry.mode with
    | .writeVerify => do
      let eligible ← dm.config.eligible d (probe d.name)
      if !eligible || !destructiveNames.contains d.name ||
          (dm.resumed && decide (d.wwn = "" ∧ d.serial = "")) then
        return .refused
      return .writes
    | .read => .ok (.reads entry.offset)

def launch (dm : DiskManager δ) (d : Disk δ) : Decision → DiskManager δ
  | .done => dm
  | .refused => dm
  | .writes => { dm with writers := dm.writers ++ [{ disk := d }] }
  | .reads offset => { dm with scans := dm.scans ++ [{ disk := d, offset := offset }] }

def decisionCalls (d : Disk δ) (now : String) : Decision → List AddCall
  | .refused => [unsafeCall d now]
  | _ => []

structure Started (δ : Type) where
  manager : DiskManager δ
  state : SessionState
  decisions : List (Disk δ × Decision)
  calls : List AddCall
  error : Option PyError

/-- The loop of `start_scans`.  An exception leaves what has been started. -/
def startScans (destructiveNames : List String) (probe : String → Probe) (now : String) :
    DiskManager δ → SessionState → List (Disk δ) → Started δ
  | dm, st, [] => ⟨dm, st, [], [], none⟩
  | dm, st, d :: rest =>
    match dm.decision st destructiveNames probe d with
    | .error e => ⟨dm, st.register destructiveNames d, [], [], some e⟩
    | .ok dec =>
      let r := startScans destructiveNames probe now (dm.launch d dec)
        (st.register destructiveNames d) rest
      { r with
        decisions := (d, dec) :: r.decisions, calls := decisionCalls d now dec ++ r.calls }

/-- `save_progress` asks `finished` of the write tests that have an entry. -/
def poll (st : SessionState) (now : String) (w : WriteVerify δ) :
    WriteVerify δ × Option AddCall :=
  if (st.diskScans.get? (diskId w.disk)).isSome then w.finished now else (w, none)

/-- `save_progress`, with the findings of the write tests it finds finished. -/
def saveProgress (dm : DiskManager δ) (st : SessionState) (now : String) :
    DiskManager δ × SessionState × List AddCall :=
  let st := dm.scans.foldl SessionState.saveScan st
  let writers := dm.writers.map fun w => (poll st now w).1
  ({ dm with writers := writers }, writers.foldl SessionState.saveWriter st,
    dm.writers.filterMap fun w => (poll st now w).2)

end DiskManager

/-! ## The orchestrator's part -/

inductive Countdown where
  | confirmed
  | cancelled
  | aborted
  deriving DecidableEq

def skipCall (d : Disk δ) (now : String) : AddCall :=
  { key := s!"destructive-skip:{d.name}", severity := .warn, component := "Storage",
    title := s!"Destructive test skipped on {d.name} {d.model}: existing data, active use, or " ++
      "incomplete safety discovery",
    incomplete := true, now := now }

def cancelledCall (now : String) : AddCall :=
  { key := "destructive-cancelled", severity := .info, component := "Storage",
    title := "Destructive disk test cancelled by operator", now := now }

/-- `{disk_id(d): d["size"] for d in disks}`. -/
def identitiesOf (disks : List (Disk δ)) : Dict String Nat :=
  Dict.ofList (disks.map fun d => (diskId d, d.size))

structure Chosen (δ : Type) where
  state : SessionState
  confirmed : List (Disk δ)
  calls : List AddCall

/-- The first half of `start_disk_tests`, on a state without `destructive_disks`. -/
def chooseDisks (cfg : DiskConfig) (listing : Lsblk δ) (probe : String → Probe)
    (countdown : Countdown) (now : String) (st : SessionState) : Except PyError (Chosen δ) :=
  if cfg.opts.isDestructive then do
    let disks ← blockDisks cfg.exclude listing
    let (eligible, skipped) ← cfg.destructiveCandidates probe disks
    let confirmed := if countdown = .confirmed then eligible else []
    let cancelled :=
      if !eligible.isEmpty && decide (countdown = .cancelled) then [cancelledCall now] else []
    return {
      state := { st with
        destructiveDisks := some (confirmed.map Disk.name),
        destructiveIdentities := some (identitiesOf confirmed) }
      confirmed := confirmed
      calls := skipped.map (skipCall · now) ++ cancelled }
  else
    .ok ⟨{ st with destructiveDisks := some [], destructiveIdentities := some Dict.empty }, [], []⟩

def matching (identities : Dict String Nat) (disks : List (Disk δ)) : List (Disk δ) :=
  disks.filter fun d => decide (identities.get? (diskId d) = some d.size)

/-- The second half: match the identities against one listing and start on another. -/
def scanDisks (dm : DiskManager δ) (second third : Lsblk δ) (probe : String → Probe)
    (now : String) (st : SessionState) : Except PyError (DiskManager.Started δ) := do
  let identities := st.destructiveIdentities.getD Dict.empty
  let destructive := matching identities (← blockDisks dm.config.exclude second)
  let disks ← blockDisks dm.config.exclude third
  return DiskManager.startScans (destructive.map Disk.name) probe now dm st disks

/-! ## What `start_scans` decides -/

namespace SessionState

theorem entryOf_progress (st : SessionState) (names : List String) (d : Disk δ) :
    (⟨(st.entryOf names d).offset, (st.entryOf names d).done⟩ : Progress) =
      st.progress (diskId d) := by
  unfold entryOf progress
  cases st.diskScans.get? (diskId d) <;> rfl

theorem progress_register (st : SessionState) (names : List String) (d : Disk δ) (ident : String) :
    (st.register names d).progress ident = st.progress ident := by
  unfold progress register
  by_cases h : ident = diskId d
  · subst h
    rw [Dict.get?_setDefault_self]
    cases st.diskScans.get? (diskId d) <;> rfl
  · rw [Dict.get?_setDefault_ne _ h]

/-- An entry that is replaced changes the progress under its name only. -/
theorem progress_set (st : SessionState) (key : String) (entry : ScanEntry) (ident : String) :
    ({ st with diskScans := st.diskScans.set key entry } : SessionState).progress ident =
      if ident = key then ⟨entry.offset, entry.done⟩ else st.progress ident := by
  unfold progress
  by_cases hid : ident = key
  · subst hid
    rw [if_pos rfl, Dict.get?_set_self]
  · rw [if_neg hid, Dict.get?_set_ne _ hid]

theorem get?_register (st : SessionState) (names : List String) (d : Disk δ) {ident : String}
    {entry : ScanEntry} (h : st.diskScans.get? ident = some entry) :
    (st.register names d).diskScans.get? ident = some entry := by
  unfold register
  by_cases hid : ident = diskId d
  · subst hid
    rw [Dict.get?_setDefault_self, h]
    rfl
  · rw [Dict.get?_setDefault_ne _ hid, h]

end SessionState

namespace DiskManager

/-- What makes `start_scans` write to a disk under a confirmed name. -/
structure Writable (dm : DiskManager δ) (st : SessionState) (probe : String → Probe)
    (d : Disk δ) : Prop where
  eligible : dm.config.eligible d (probe d.name) = .ok true
  identified : dm.resumed = true → d.wwn ≠ "" ∨ d.serial ≠ ""
  /-- What is saved about the disk is an unfinished write test. -/
  pending : ∀ entry, st.diskScans.get? (diskId d) = some entry →
    entry.mode = .writeVerify ∧ entry.done = false

/-- What the decision on a disk comes from. -/
theorem decision_cases {dm : DiskManager δ} {st : SessionState} {names : List String}
    {probe : String → Probe} {d : Disk δ} {dec : Decision}
    (h : dm.decision st names probe d = .ok dec) :
    ((st.entryOf names d).done = true ∧ dec = .done) ∨
      ((st.entryOf names d).done = false ∧ dec = .reads (st.entryOf names d).offset) ∨
      ((st.entryOf names d).done = false ∧ dec = .refused) ∨
      ((st.entryOf names d).done = false ∧ dec = .writes ∧
        (st.entryOf names d).mode = .writeVerify ∧
        dm.config.eligible d (probe d.name) = .ok true ∧ d.name ∈ names ∧
        (dm.resumed = true → d.wwn ≠ "" ∨ d.serial ≠ "")) := by
  unfold decision at h
  by_cases hdone : (st.entryOf names d).done = true
  · rw [if_pos hdone] at h
    exact Or.inl ⟨hdone, (Except.ok.inj h).symm⟩
  · rw [if_neg hdone] at h
    rw [Bool.not_eq_true] at hdone
    refine Or.inr ?_
    cases hmode : (st.entryOf names d).mode with
    | read =>
      rw [hmode] at h
      exact Or.inl ⟨hdone, (Except.ok.inj h).symm⟩
    | writeVerify =>
      rw [hmode] at h
      obtain ⟨eligible, hel, h⟩ := bind_eq_ok.mp h
      refine Or.inr ?_
      split at h
      · exact Or.inl ⟨hdone, (Except.ok.inj h).symm⟩
      next hsafe =>
        simp only [Bool.or_eq_true, Bool.and_eq_true, Bool.not_eq_true', decide_eq_true_eq,
          not_or, not_and, Bool.not_eq_false, List.contains_iff_mem] at hsafe
        obtain ⟨⟨helig, hname⟩, hid⟩ := hsafe
        refine Or.inr ⟨hdone, (Except.ok.inj h).symm, rfl, helig ▸ hel, hname, fun hres => ?_⟩
        by_cases hw : d.wwn = ""
        · exact Or.inr (hid hres hw)
        · exact Or.inl hw

theorem of_decision_writes {dm : DiskManager δ} {st : SessionState} {names : List String}
    {probe : String → Probe} {d : Disk δ} (h : dm.decision st names probe d = .ok .writes) :
    d.name ∈ names ∧ dm.Writable st probe d := by
  obtain ⟨-, hdec⟩ | ⟨-, hdec⟩ | ⟨-, hdec⟩ | ⟨hdone, -, hmode, hel, hname, hid⟩ :=
    decision_cases h
  · cases hdec
  · cases hdec
  · cases hdec
  · refine ⟨hname, hel, hid, fun entry hentry => ?_⟩
    have hsame : st.entryOf names d = entry := by rw [SessionState.entryOf, hentry]; rfl
    rw [hsame] at hdone hmode
    exact ⟨hmode, hdone⟩

/-- A scan resumes where the progress under its disk's name says, and a disk is skipped
when that progress is done. -/
theorem of_decision_progress {dm : DiskManager δ} {st : SessionState} {names : List String}
    {probe : String → Probe} {d : Disk δ} {dec : Decision}
    (h : dm.decision st names probe d = .ok dec) :
    (dec = .done ↔ (st.progress (diskId d)).done = true) ∧
      ∀ offset, dec = .reads offset → offset = (st.progress (diskId d)).offset := by
  rw [← st.entryOf_progress names d]
  obtain ⟨hdone, rfl⟩ | ⟨hdone, rfl⟩ | ⟨hdone, rfl⟩ | ⟨hdone, rfl, -⟩ := decision_cases h
  · exact ⟨⟨fun _ => hdone, fun _ => rfl⟩, nofun⟩
  · refine ⟨⟨nofun, fun hd => ?_⟩, fun offset hoff => (Decision.reads.inj hoff).symm⟩
    cases hdone.symm.trans hd
  · exact ⟨⟨nofun, fun hd => nomatch hdone.symm.trans hd⟩, nofun⟩
  · exact ⟨⟨nofun, fun hd => nomatch hdone.symm.trans hd⟩, nofun⟩

theorem poll_disk (st : SessionState) (now : String) (w : WriteVerify δ) :
    (poll st now w).1.disk = w.disk := by
  unfold poll WriteVerify.finished
  cases (st.diskScans.get? (diskId w.disk)).isSome <;> cases w.done <;> cases w.exitCode <;> rfl

theorem launch_frame (dm : DiskManager δ) (d : Disk δ) (dec : Decision) :
    (dm.launch d dec).config = dm.config ∧ (dm.launch d dec).resumed = dm.resumed := by
  cases dec <;> exact ⟨rfl, rfl⟩

/-- Every decision of the loop is taken on a listed disk, under the settings and the
progress it started with, and with every entry that was there. -/
theorem mem_decisions {names : List String} {probe : String → Probe} {now : String}
    {disks : List (Disk δ)} {dm : DiskManager δ} {st : SessionState} {d : Disk δ}
    {dec : Decision} (h : (d, dec) ∈ (startScans names probe now dm st disks).decisions) :
    d ∈ disks ∧ ∃ (dm' : DiskManager δ) (st' : SessionState),
      dm'.config = dm.config ∧ dm'.resumed = dm.resumed ∧
      (∀ ident, st'.progress ident = st.progress ident) ∧
      (∀ ident entry, st.diskScans.get? ident = some entry →
        st'.diskScans.get? ident = some entry) ∧
      dm'.decision st' names probe d = .ok dec := by
  induction disks generalizing dm st with
  | nil => cases h
  | cons e rest ih =>
    rw [startScans] at h
    cases he : dm.decision st names probe e with
    | error err => rw [he] at h; cases h
    | ok first =>
      rw [he] at h
      rcases List.mem_cons.mp h with hself | hrest
      · obtain ⟨rfl, rfl⟩ := Prod.mk.inj hself
        exact ⟨List.mem_cons_self, dm, st, rfl, rfl, fun _ => rfl, fun _ _ hget => hget, he⟩
      · obtain ⟨hmem, dm', st', hconfig, hresumed, hprogress, hkeeps, hdec⟩ := ih hrest
        obtain ⟨hc, hr⟩ := dm.launch_frame e first
        refine ⟨List.mem_cons_of_mem e hmem, dm', st', hconfig.trans hc, hresumed.trans hr, ?_,
          ?_, hdec⟩
        · intro ident
          rw [hprogress, SessionState.progress_register]
        · intro ident entry hget
          exact hkeeps ident entry (st.get?_register names e hget)

theorem mem_decisions_head {names : List String} {probe : String → Probe} {dm : DiskManager δ}
    {st : SessionState} {d : Disk δ} {dec : Decision}
    (h : dm.decision st names probe d = .ok dec) (now : String) (rest : List (Disk δ)) :
    (d, dec) ∈ (startScans names probe now dm st (d :: rest)).decisions := by
  rw [startScans, h]
  exact List.mem_cons_self

/-- The loop of `start_scans` touches nothing of the state but `disk_scans`. -/
theorem startScans_frame (names : List String) (probe : String → Probe) (now : String)
    (disks : List (Disk δ)) (dm : DiskManager δ) (st : SessionState) :
    ∃ scans, (startScans names probe now dm st disks).state = { st with diskScans := scans } := by
  induction disks generalizing dm st with
  | nil => exact ⟨st.diskScans, rfl⟩
  | cons d rest ih =>
    rw [startScans]
    cases dm.decision st names probe d with
    | error e => exact ⟨_, rfl⟩
    | ok dec =>
      obtain ⟨scans, hscans⟩ := ih (dm.launch d dec) (st.register names d)
      exact ⟨scans, hscans⟩

end DiskManager

theorem scanDisks_eq_ok {dm : DiskManager δ} {second third : Lsblk δ} {probe : String → Probe}
    {now : String} {st : SessionState} {r : DiskManager.Started δ}
    (h : scanDisks dm second third probe now st = .ok r) :
    ∃ ds es, blockDisks dm.config.exclude second = .ok ds ∧
      blockDisks dm.config.exclude third = .ok es ∧
      r = DiskManager.startScans
        ((matching (st.destructiveIdentities.getD Dict.empty) ds).map Disk.name)
        probe now dm st es := by
  obtain ⟨ds, hds, h⟩ := bind_eq_ok.mp h
  obtain ⟨es, hes, h⟩ := bind_eq_ok.mp h
  exact ⟨ds, es, hds, hes, (Except.ok.inj h).symm⟩

theorem scanDisks_of_listings (dm : DiskManager δ) {second third : Lsblk δ}
    {ds es : List (Disk δ)} (hds : blockDisks dm.config.exclude second = .ok ds)
    (hes : blockDisks dm.config.exclude third = .ok es) (probe : String → Probe) (now : String)
    (st : SessionState) :
    scanDisks dm second third probe now st = .ok (DiskManager.startScans
      ((matching (st.destructiveIdentities.getD Dict.empty) ds).map Disk.name)
      probe now dm st es) := by
  rw [scanDisks, hds, hes]
  rfl

theorem chooseDisks_of_confirmed {cfg : DiskConfig} {listing : Lsblk δ} {probe : String → Probe}
    {disks eligible skipped : List (Disk δ)} (hd : cfg.opts.isDestructive = true)
    (hds : blockDisks cfg.exclude listing = .ok disks)
    (hc : cfg.destructiveCandidates probe disks = .ok (eligible, skipped)) (now : String)
    (st : SessionState) :
    chooseDisks cfg listing probe .confirmed now st = .ok
      { state := { st with
          destructiveDisks := some (eligible.map Disk.name),
          destructiveIdentities := some (identitiesOf eligible) }
        confirmed := eligible
        calls := skipped.map (skipCall · now) } := by
  rw [chooseDisks, if_pos hd, hds]
  simp [hc, bind, Except.bind, pure, Except.pure]

/-- What the first half of `start_disk_tests` saves: the confirmed disks and no others. -/
theorem chooseDisks_state {cfg : DiskConfig} {listing : Lsblk δ} {probe : String → Probe}
    {countdown : Countdown} {now : String} {st : SessionState} {chosen : Chosen δ}
    (h : chooseDisks cfg listing probe countdown now st = .ok chosen) :
    chosen.state = { st with
      destructiveDisks := some (chosen.confirmed.map Disk.name),
      destructiveIdentities := some (identitiesOf chosen.confirmed) } := by
  unfold chooseDisks at h
  by_cases hd : cfg.opts.isDestructive = true
  · rw [if_pos hd] at h
    obtain ⟨disks, -, h⟩ := bind_eq_ok.mp h
    obtain ⟨found, -, h⟩ := bind_eq_ok.mp h
    obtain rfl := Except.ok.inj h
    rfl
  · rw [if_neg hd] at h
    obtain rfl := Except.ok.inj h
    rfl

theorem mem_of_get?_identitiesOf {disks : List (Disk δ)} {ident : String} {size : Nat}
    (h : (identitiesOf disks).get? ident = some size) :
    ∃ d ∈ disks, diskId d = ident ∧ d.size = size := by
  obtain ⟨d, hd, heq⟩ := List.mem_map.mp (Dict.mem_of_get?_ofList h)
  exact ⟨d, hd, congrArg Prod.fst heq, congrArg Prod.snd heq⟩

/-- A disk that is written to was listed in the second listing, under the name of a disk
of the first that carried a confirmed identity, and passed the checks. -/
theorem of_scanDisks_writes {dm : DiskManager δ} {second third : Lsblk δ}
    {probe : String → Probe} {now : String} {st : SessionState} {r : DiskManager.Started δ}
    (h : scanDisks dm second third probe now st = .ok r) {d : Disk δ}
    (hd : (d, .writes) ∈ r.decisions) :
    ∃ ds es, blockDisks dm.config.exclude second = .ok ds ∧
      blockDisks dm.config.exclude third = .ok es ∧ d ∈ es ∧ dm.Writable st probe d ∧
      ∃ e ∈ ds, e.name = d.name ∧
        (st.destructiveIdentities.getD Dict.empty).get? (diskId e) = some e.size := by
  obtain ⟨ds, es, hds, hes, rfl⟩ := scanDisks_eq_ok h
  obtain ⟨hmem, dm', st', hconfig, hresumed, -, hkeeps, hdec⟩ := DiskManager.mem_decisions hd
  obtain ⟨hname, heligible, hident, hpending⟩ := DiskManager.of_decision_writes hdec
  rw [hconfig] at heligible
  rw [hresumed] at hident
  have hwritable : dm.Writable st probe d :=
    ⟨heligible, hident, fun entry hget => hpending entry (hkeeps _ _ hget)⟩
  obtain ⟨e, he, hen⟩ := List.mem_map.mp hname
  obtain ⟨heds, hematch⟩ := List.mem_filter.mp he
  exact ⟨ds, es, hds, hes, hmem, hwritable, e, heds, hen, of_decide_eq_true hematch⟩

end PcCheck
