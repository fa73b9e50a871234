/-
The kernel log thread (`KmsgMonitor.run` and `parse_record` of `kmsg.py`).

The thread reads records of `/dev/kmsg` one at a time, gives each new one to `_process` and
writes them in batches to kernel.log on the stick.  What `_process` does is a list of calls
on the findings, which an exception can cut short; other threads make calls between two
turns of the loop.  An `OSError` the loop does not catch ends the thread, and so does a record
whose time no float can hold; nothing is told of either.  A record stands for its line in
kernel.log.
-/
import PcCheck.Dedup
import PcCheck.Lib.EventMachine
import PcCheck.Text

namespace PcCheck
namespace Kmsg

open EventMachine

structure Record where
  level : Int
  seq : Int
  usec : Int
  message : String
  deriving DecidableEq

/-! ## Records -/

section Records

variable (digits : DigitTable)

/-- `parse_record`: a head that cannot be read gives no record, and the division of the
microseconds, which is not in the `try`, fails where no float can hold them. -/
def parseRecord (raw : String) : Except PyError (Option Record) :=
  let head := raw.toList.takeWhile (· ≠ ';')
  let rest := (raw.toList.dropWhile (· ≠ ';')).tail
  match head.splitOn ',' with
  | p :: s :: u :: _ =>
    match digits.int (String.ofList p), digits.int (String.ofList s),
      digits.int (String.ofList u) with
    | .ok prio, .ok seq, .ok usec => (PyFloat.ofInt usec).map fun _ =>
      some ⟨prio % 8, seq, usec, String.ofList (rest.takeWhile (· ≠ '\n'))⟩
    | _, _, _ => .ok none
  | _ => .ok none

example : parseRecord .ascii "6,339,5140900,-;NET: Registered\n SUBSYSTEM=net" =
    .ok (some ⟨6, 339, 5140900, "NET: Registered"⟩) := by decide +kernel

end Records

/-! ## The thread -/

inductive ReadOutcome where
  | wouldBlock
  /-- `EPIPE`: the ring buffer has overtaken the reader. -/
  | overrun
  | error (text : String)
  | data (raw : String)

namespace ReadOutcome

variable (digits : DigitTable)

/-- What is read is a record, which `parse_record` takes in. -/
def record : ReadOutcome → Option Record
  | data raw => (parseRecord digits raw).toOption.join
  | _ => none

/-- `parse_record` raises on what is read. -/
def raises : ReadOutcome → Bool
  | data raw => !(parseRecord digits raw).isOk
  | _ => false

end ReadOutcome

/-- What `_process` does with a record before it returns or raises. -/
structure Processing where
  calls : List Call := []
  raised : Bool := false

/-- `write` and `flush` of a batch; a failure can leave the first lines of it. -/
inductive LogWrite where
  | written
  | failed (lines : Nat)

/-- One turn of the loop. -/
structure Turn where
  read : ReadOutcome
  processing : Processing := {}
  /-- The last write is more than a second ago. -/
  late : Bool := false
  write : LogWrite := .written
  now : String := ""

/-- How the operations before the loop end: `os.open`, `append_line` and `open`. -/
structure Opening where
  unavailable : Option String := none
  appended : Bool := true
  opened : Bool := true
  now : String := ""

inductive LogLine where
  | header
  | record (r : Record)
  deriving DecidableEq

inductive Ending where
  | unavailable
  | raised
  | stopped
  deriving DecidableEq

structure Monitor where
  findings : Findings
  running : Bool := false
  pending : List Record := []
  lastSeq : Int := -1
  /-- `last_seq` of the counters that are saved with the session. -/
  saved : Int := -1
  log : List LogLine := []
  linesTotal : Nat := 0
  errorLines : List Record := []
  stopSet : Bool := false
  ended : Option Ending := none
  /-- It has ended with `stop_event` not set. -/
  lost : Bool := false
  /-- `_process` has raised on a record that the loop had accepted. -/
  unprocessed : Bool := false

inductive Event where
  | start (o : Opening)
  | turn (t : Turn)
  /-- The loop has seen `stop_event`: the last write, its `fsync` and the end. -/
  | leave (write : LogWrite) (synced : Bool)
  | stop
  /-- A call on the findings by another thread. -/
  | other (c : Call)

variable (digits : DigitTable)

def unavailableCall (text now : String) : AddCall :=
  { key := "kmsg-unavailable", severity := .warn, component := "Test",
    title := "Kernel hardware-error monitoring is unavailable", evidence := [text],
    incomplete := true, now := now }

def overrunCall (now : String) : AddCall :=
  { key := "kmsg-overrun", severity := .warn, component := "Test",
    title := "Kernel log overflowed; hardware error messages may be missing",
    incomplete := true, now := now }

def applyCall (fs : Findings) : Call → Findings
  | .add c => (fs.record c).1
  | .escalate c => fs.raise c

namespace Monitor

def finish (m : Monitor) (how : Ending) : Monitor :=
  { m with running := false, ended := some how, lost := !m.stopSet }

def call (m : Monitor) (c : Call) : Monitor := { m with findings := applyCall m.findings c }

def start (m : Monitor) (o : Opening) : Monitor :=
  match o.unavailable with
  | some text => (m.call (.add (unavailableCall text o.now))).finish .unavailable
  | none =>
    if o.appended then
      let m' := { m with log := m.log ++ [LogLine.header] }
      if o.opened then { m' with running := true } else m'.finish .raised
    else m.finish .raised

/-- The record is new: it is queued for kernel.log. -/
def accept (m : Monitor) (r : Record) : Monitor :=
  { m with
    lastSeq := r.seq
    linesTotal := m.linesTotal + 1
    pending := m.pending ++ [r]
    errorLines := if r.level ≤ 3 then
      let lines := m.errorLines ++ [r]
      lines.drop (lines.length - 500)
    else m.errorLines }

def process (m : Monitor) (p : Processing) : Monitor :=
  { m with
    findings := p.calls.foldl applyCall m.findings
    unprocessed := m.unprocessed || p.raised }

def put (m : Monitor) : LogWrite → Monitor
  | .written =>
    { m with log := m.log ++ m.pending.map LogLine.record, pending := [], saved := m.lastSeq }
  | .failed lines =>
    { m with log := m.log ++ (m.pending.take lines).map LogLine.record }.finish .raised

/-- The batch is due: it is written when nothing more is to be read, when it is full, or
when the last write is long ago. -/
def due (m : Monitor) (idle late : Bool) : Bool :=
  !m.pending.isEmpty && (idle || decide (200 ≤ m.pending.length) || late)

def writeDue (m : Monitor) (idle late : Bool) (write : LogWrite) : Monitor :=
  if m.due idle late then m.put write else m

/-- The record a turn accepts: one that parses and has not been seen. -/
def accepted (m : Monitor) (out : ReadOutcome) : Option Record :=
  (out.record digits).filter fun r => m.lastSeq < r.seq

def turn (m : Monitor) (t : Turn) : Monitor :=
  match t.read with
  | .wouldBlock => m.writeDue true t.late t.write
  | .overrun => m.call (.add (overrunCall t.now))
  | .error _ => m
  | .data raw =>
    if raw = "" then m.writeDue false t.late t.write
    else if (ReadOutcome.data raw).raises digits then m.finish .raised
    else match m.accepted digits (.data raw) with
      | none => m
      | some r =>
        let m' := (m.accept r).process t.processing
        if m'.pending.length < 200 then m' else m'.writeDue false t.late t.write

/-- After the loop: here a failing `fsync` is not caught either. -/
def leave (m : Monitor) (write : LogWrite) (synced : Bool) : Monitor :=
  if m.pending.isEmpty then m.finish .stopped
  else match write with
    | .written =>
      { m with log := m.log ++ m.pending.map LogLine.record }.finish
        (if synced then .stopped else .raised)
    | .failed lines =>
      { m with log := m.log ++ (m.pending.take lines).map LogLine.record }.finish .raised

end Monitor

def step (m : Monitor) : Event → Option Monitor
  | .start o => if m.running = false ∧ m.ended = none then some (m.start o) else none
  | .turn t => if m.running = true ∧ m.stopSet = false then some (m.turn digits t) else none
  | .leave write synced =>
    if m.running = true ∧ m.stopSet = true then some (m.leave write synced) else none
  | .stop => some { m with stopSet := true }
  | .other c => some (m.call c)

/-- The thread before it runs, with the findings and the cursor of the boot. -/
def opened (fs : Findings) (lastSeq : Int) : Monitor :=
  { findings := fs, lastSeq := lastSeq, saved := lastSeq }

/-! ## What a turn comes to -/

def Incomplete (fs : Findings) : Prop := fs.items.Has fun f => f.incomplete = true

/-- Where the monitoring has broken off or passed over a record, a finding says so and
the machine cannot pass. -/
def Told (m : Monitor) : Prop :=
  m.lost = true ∨ m.unprocessed = true → Incomplete m.findings ∧
    ∀ inc, verdict m.findings inc ≠ .pass ∧ verdict m.findings inc ≠ .passWithWarnings

def LogWrite.isFailed : LogWrite → Bool
  | .written => false
  | .failed _ => true

/-- kernel.log cannot be opened, though `/dev/kmsg` can. -/
def Opening.breaks (o : Opening) : Bool := o.unavailable.isNone && !(o.appended && o.opened)

namespace Monitor

/-- The turn writes a batch. -/
def writes (m : Monitor) (t : Turn) : Bool :=
  match t.read with
  | .wouldBlock => m.due true t.late
  | .data raw =>
    if raw = "" then m.due false t.late
    else (m.accepted digits t.read).isSome && decide (200 ≤ m.pending.length + 1)
  | _ => false

/-- The turn ends the thread: a batch cannot be written, or `parse_record` raises. -/
def breaks (m : Monitor) (t : Turn) : Bool :=
  (m.writes digits t && t.write.isFailed) || t.read.raises digits

end Monitor

theorem incomplete_applyCall (fs : Findings) (c : Call) :
    Incomplete (applyCall fs c) ↔ Incomplete fs ∨ c.incomplete = true := by
  cases c with
  | add a => exact Findings.has_record_incomplete fs a
  | escalate e =>
    show (fs.raise e).items.Has _ ↔ _
    rw [Findings.has_raise_incomplete]
    simp [Incomplete, Call.incomplete]

theorem incomplete_foldl (calls : List Call) (fs : Findings) :
    Incomplete (calls.foldl applyCall fs) ↔
      Incomplete fs ∨ ∃ c ∈ calls, c.incomplete = true := by
  induction calls generalizing fs with
  | nil => simp
  | cons c rest ih =>
    rw [List.foldl_cons, ih, incomplete_applyCall, or_assoc]
    simp

/-- A store with an incomplete finding does not pass. -/
theorem verdict_of_incomplete {fs : Findings} (h : Incomplete fs) (inc : Bool) :
    verdict fs inc ≠ .pass ∧ verdict fs inc ≠ .passWithWarnings := by
  have hlacks : inc = true ∨ fs.all.any (fun f => f.incomplete) = true :=
    Or.inr (Findings.any_incomplete_iff.mpr h)
  unfold verdict judge
  rw [if_pos hlacks]
  split <;> exact ⟨by decide, by decide⟩

theorem told_iff {m : Monitor} :
    Told m ↔ (m.lost = true ∨ m.unprocessed = true → Incomplete m.findings) :=
  ⟨fun h hm => (h hm).1, fun h hm => ⟨h hm, verdict_of_incomplete (h hm)⟩⟩

theorem writeDue_frame (m : Monitor) (idle late : Bool) (write : LogWrite) :
    (m.writeDue idle late write).findings = m.findings ∧
      (m.writeDue idle late write).unprocessed = m.unprocessed ∧
      (m.writeDue idle late write).lost =
        if m.due idle late && write.isFailed then !m.stopSet else m.lost := by
  unfold Monitor.writeDue
  cases m.due idle late
  · exact ⟨rfl, rfl, rfl⟩
  · cases write <;> exact ⟨rfl, rfl, rfl⟩

theorem leave_frame (m : Monitor) (write : LogWrite) (synced : Bool) :
    (m.leave write synced).findings = m.findings ∧
      (m.leave write synced).unprocessed = m.unprocessed ∧
      (m.leave write synced).lost = !m.stopSet := by
  unfold Monitor.leave
  split
  · exact ⟨rfl, rfl, rfl⟩
  · cases write <;> exact ⟨rfl, rfl, rfl⟩

theorem record_empty : (ReadOutcome.data "").record digits = none := rfl

theorem record_of_raises {out : ReadOutcome} (h : out.raises digits = true) :
    out.record digits = none := by
  cases out with
  | data raw =>
    cases hparse : parseRecord digits raw with
    | error e => simp [ReadOutcome.record, hparse, Except.toOption]
    | ok o => simp [ReadOutcome.raises, hparse, Except.isOk, Except.toBool] at h
  | _ => rfl

theorem accepted_of_raises (m : Monitor) {out : ReadOutcome} (h : out.raises digits = true) :
    m.accepted digits out = none := by
  rw [Monitor.accepted, record_of_raises digits h]
  rfl

/-- A record that is accepted is processed, and the batch is written once it is full. -/
theorem turn_accepts (m : Monitor) (t : Turn) (r : Record) :
    let m' := (m.accept r).process t.processing
    let u := if m'.pending.length < 200 then m' else m'.writeDue false t.late t.write
    (u.lost =
        if decide (200 ≤ m.pending.length + 1) && t.write.isFailed then !m.stopSet else m.lost) ∧
      u.unprocessed = (m.unprocessed || t.processing.raised) ∧
      (Incomplete u.findings ↔
        Incomplete m.findings ∨ ∃ c ∈ t.processing.calls, c.incomplete = true) := by
  have hfold := incomplete_foldl t.processing.calls m.findings
  have hlen : ((m.accept r).process t.processing).pending.length = m.pending.length + 1 := by
    simp [Monitor.process, Monitor.accept]
  dsimp only
  rw [hlen]
  by_cases hfull : m.pending.length + 1 < 200
  · rw [if_pos hfull]
    refine ⟨?_, rfl, hfold⟩
    simp [Monitor.process, Monitor.accept, not_le.mpr hfull]
  · have hdue : ((m.accept r).process t.processing).due false t.late = true := by
      simp [Monitor.due, Monitor.process, Monitor.accept, not_lt.mp hfull]
    obtain ⟨hfs, hun, hlost⟩ :=
      writeDue_frame ((m.accept r).process t.processing) false t.late t.write
    rw [if_neg hfull, hfs, hun, hlost, hdue]
    refine ⟨?_, rfl, hfold⟩
    simp [Monitor.process, Monitor.accept, not_lt.mp hfull]

/-- What comes of a turn: it ends the thread when it writes and fails or `parse_record` raises,
passes over a record when `_process` raises, and adds to the findings what the overrun and
`_process` add. -/
theorem turn_spec (m : Monitor) (t : Turn) :
    ((m.turn digits t).lost = if m.breaks digits t then !m.stopSet else m.lost) ∧
      ((m.turn digits t).unprocessed = (m.unprocessed ||
        ((m.accepted digits t.read).isSome && t.processing.raised))) ∧
      (Incomplete (m.turn digits t).findings ↔ Incomplete m.findings ∨
        (t.read matches .overrun) = true ∨
        (m.accepted digits t.read).isSome = true ∧
          ∃ c ∈ t.processing.calls, c.incomplete = true) := by
  unfold Monitor.turn Monitor.breaks Monitor.writes
  cases hread : t.read with
  | wouldBlock =>
    obtain ⟨hfs, hun, hlost⟩ := writeDue_frame m true t.late t.write
    dsimp only
    rw [hfs, hun, hlost]
    simp [Monitor.accepted, ReadOutcome.record, ReadOutcome.raises]
  | overrun =>
    refine ⟨by simp [Monitor.call, ReadOutcome.raises],
      by simp [Monitor.call, Monitor.accepted, ReadOutcome.record], ?_⟩
    show Incomplete (applyCall m.findings _) ↔ _
    rw [incomplete_applyCall]
    simp [Call.incomplete, overrunCall]
  | error text => simp [Monitor.accepted, ReadOutcome.record, ReadOutcome.raises]
  | data raw =>
    by_cases hraw : raw = ""
    · subst hraw
      obtain ⟨hfs, hun, hlost⟩ := writeDue_frame m false t.late t.write
      have hraises : (ReadOutcome.data "").raises digits = false := rfl
      simp only [if_true, hfs, hun, hlost, Monitor.accepted, record_empty, hraises, Bool.or_false]
      simp
    · cases hraises : (ReadOutcome.data raw).raises digits with
      | true =>
        simp only [hraw, if_false, hraises, if_true, accepted_of_raises digits m hraises]
        simp [Monitor.finish]
      | false =>
        simp only [hraw, if_false, hraises, Bool.false_eq_true, Bool.or_false]
        cases haccepted : m.accepted digits (.data raw) with
        | none => simp
        | some r => simpa using turn_accepts m t r

/-! ## What goes untold -/

/-- An `OSError` of kernel.log or a time out of range, which end the thread, and an exception of
`_process` find an incomplete finding in the store or leave one. -/
def Heeded (m : Monitor) : Event → Prop
  | .start o => o.breaks = true → m.stopSet = false → Incomplete m.findings
  | .turn t => m.breaks digits t = true ∨
      ((m.accepted digits t.read).isSome && t.processing.raised) = true → Incomplete m.findings ∨
        (m.accepted digits t.read).isSome = true ∧ ∃ c ∈ t.processing.calls, c.incomplete = true
  | _ => True

variable {m u : Monitor}

theorem told_start_iff (h : Told m) (o : Opening) :
    Told (m.start o) ↔ Heeded digits m (.start o) := by
  have hend : ∀ m' : Monitor, m'.findings = m.findings → m'.unprocessed = m.unprocessed →
      m'.stopSet = m.stopSet →
      (Told (m'.finish .raised) ↔ (m.stopSet = false → Incomplete m.findings)) := by
    intro m' hfs hun hstop
    rw [told_iff]
    show (!m'.stopSet) = true ∨ m'.unprocessed = true → Incomplete m'.findings ↔ _
    rw [hfs, hun, hstop]
    constructor
    · exact fun htold hopen => htold (Or.inl (by rw [hopen]; rfl))
    · intro hheeded hor
      rcases hor with hlost | hraised
      · exact hheeded (by simpa using hlost)
      · exact told_iff.mp h (Or.inr hraised)
  show Told (m.start o) ↔ (o.breaks = true → m.stopSet = false → Incomplete m.findings)
  unfold Monitor.start Opening.breaks
  cases hu : o.unavailable with
  | some text =>
    have hadded : Incomplete (applyCall m.findings (.add (unavailableCall text o.now))) :=
      (incomplete_applyCall ..).mpr (Or.inr rfl)
    exact iff_of_true (told_iff.mpr fun _ => hadded) fun hbreaks => by cases hbreaks
  | none =>
    cases ha : o.appended with
    | false =>
      rw [if_neg Bool.false_ne_true, hend m rfl rfl rfl]
      simp
    | true =>
      cases ho : o.opened with
      | false =>
        dsimp only
        rw [if_pos rfl, if_neg Bool.false_ne_true,
          hend { m with log := m.log ++ [LogLine.header] } rfl rfl rfl]
        simp
      | true => exact iff_of_true h fun hbreaks => by cases hbreaks

theorem told_turn_iff (h : Told m) {t : Turn} (hopen : m.stopSet = false) :
    Told (m.turn digits t) ↔ Heeded digits m (.turn t) := by
  obtain ⟨hlost, hun, hinc⟩ := turn_spec digits m t
  rw [told_iff, hlost, hun, hinc, hopen]
  unfold Heeded
  constructor
  · intro htold hfails
    have hadds := htold (by
      rcases hfails with hwrite | hraised
      · rw [hwrite]
        exact Or.inl rfl
      · rw [hraised]
        exact Or.inr (Bool.or_true _))
    rcases hadds with hold | hover | hadds
    · exact Or.inl hold
    · -- an overrun writes nothing and accepts nothing
      cases hread : t.read with
      | overrun => simp [Monitor.breaks, Monitor.writes, Monitor.accepted, ReadOutcome.record,
          ReadOutcome.raises, hread] at hfails
      | wouldBlock => rw [hread] at hover; cases hover
      | error text => rw [hread] at hover; cases hover
      | data raw => rw [hread] at hover; cases hover
    · exact Or.inr hadds
  · intro hheeded hor
    by_cases hfails : m.breaks digits t = true ∨
        ((m.accepted digits t.read).isSome && t.processing.raised) = true
    · rcases hheeded hfails with hold | hadds
      · exact Or.inl hold
      · exact Or.inr (Or.inr hadds)
    · rw [not_or] at hfails
      refine Or.inl (told_iff.mp h ?_)
      rw [if_neg hfails.1] at hor
      refine hor.imp_right fun hun => ?_
      rcases Bool.or_eq_true_iff.mp hun with hold | hraised
      · exact hold
      · exact absurd hraised hfails.2

/-- A step keeps the findings telling exactly when it meets the condition. -/
theorem told_step_iff {e : Event} (h : Told m) (ht : step digits m e = some u) :
    Told u ↔ Heeded digits m e := by
  cases e with
  | start o =>
    simp only [step] at ht
    obtain ⟨-, hsome⟩ := Option.ite_none_right_eq_some.mp ht
    obtain rfl := Option.some.inj hsome
    exact told_start_iff digits h o
  | turn t =>
    simp only [step] at ht
    obtain ⟨hgo, hu⟩ := Option.ite_none_right_eq_some.mp ht
    obtain rfl := Option.some.inj hu
    exact told_turn_iff digits h hgo.2
  | leave write synced =>
    simp only [step] at ht
    obtain ⟨hgo, hu⟩ := Option.ite_none_right_eq_some.mp ht
    obtain rfl := Option.some.inj hu
    obtain ⟨hfs, hun, hlost⟩ := leave_frame m write synced
    refine iff_of_true (told_iff.mpr fun hor => ?_) trivial
    rw [hlost, hun, hgo.2] at hor
    rw [hfs]
    rcases hor with hlost | hraised
    · cases hlost
    · exact told_iff.mp h (Or.inr hraised)
  | stop =>
    obtain rfl := Option.some.inj ht
    exact iff_of_true h trivial
  | other c =>
    obtain rfl := Option.some.inj ht
    refine iff_of_true (told_iff.mpr fun hor => ?_) trivial
    exact (incomplete_applyCall m.findings c).mpr (Or.inl (told_iff.mp h hor))

/-- The findings tell of every break in the monitoring, all along a run, exactly when every
failure that the loop does not handle finds or leaves an incomplete finding. -/
theorem told_iff_heeded (fs : Findings) (lastSeq : Int) {es : List Event} {m : Monitor}
    (hrun : run (step digits) (opened fs lastSeq) es = some m) :
    Always (step digits) Told (opened fs lastSeq) es ↔
      Along (step digits) (Heeded digits) (opened fs lastSeq) es := by
  refine always_iff_along (fun _ _ _ h ht => told_step_iff digits h ht)
    (told_iff.mpr fun hor => ?_) hrun
  rcases hor with h | h <;> cases h

def oneRecord : Event := .turn { read := .data "6,339,5140900,-;NET: Registered" }

/-- A record is read, and the stick takes the batch or does not. -/
def writesOnce (write : LogWrite) : List Event :=
  [.start {}, oneRecord, .turn { read := .wouldBlock, write := write }]

theorem told_iff_heeded_once :
    ∃ m, run (step .ascii) (opened Findings.new (-1)) (writesOnce .written) = some m ∧
      (Always (step .ascii) Told (opened Findings.new (-1)) (writesOnce .written) ↔
        Along (step .ascii) (Heeded .ascii) (opened Findings.new (-1)) (writesOnce .written)) := by
  have hruns : (run (step .ascii) (opened Findings.new (-1)) (writesOnce .written)).isSome =
      true := by decide +kernel
  obtain ⟨m, hrun⟩ := Option.isSome_iff_exists.mp hruns
  exact ⟨m, hrun, told_iff_heeded .ascii Findings.new (-1) hrun⟩

theorem thread_ends_untold :
    ¬ ∀ (fs : Findings) (lastSeq : Int) (es : List Event) (m : Monitor),
      run (step .ascii) (opened fs lastSeq) es = some m → Told m := by
  intro h
  have hruns : ((run (step .ascii) (opened Findings.new (-1)) (writesOnce (.failed 0))).map
      fun m => (m.lost, m.findings.all.any fun f => f.incomplete)) = some (true, false) := by
    decide +kernel
  obtain ⟨m, hrun, hends⟩ := Option.map_eq_some_iff.mp hruns
  obtain ⟨hlost, hnone⟩ := Prod.mk.inj hends
  have htold := told_iff.mp (h Findings.new (-1) _ m hrun) (Or.inl hlost)
  exact Bool.false_ne_true (hnone.symm.trans (Findings.any_incomplete_iff.mpr htold))

end Kmsg
end PcCheck
