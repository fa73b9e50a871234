/-
What kernel.log keeps of the kernel's records (`KmsgMonitor.run` and `per_boot_counters`).

The kernel logs records and overwrites the oldest, the session is saved at any time, and the
process is killed between two turns of the loop or in one; a batch it was writing is then in
kernel.log with its first lines.  No other write fails.  The log here is what a boot has added
to the file.
-/
import PcCheck.FloatRange
import PcCheck.Kmsg
import PcCheck.Lib.Dict
import PcCheck.Lib.Spool

namespace PcCheck
namespace KernelLog

open EventMachine Kmsg

/-! ## The buffer -/

section Lines

variable (digits : DigitTable)

/-- An entry of the buffer: the kernel counts the microseconds in 64 bits, and a float can hold
them. -/
structure Line where
  raw : String
  timed : (ReadOutcome.data raw).raises digits = false
  deriving DecidableEq

def Line.record (l : Line digits) : Option Record := (ReadOutcome.data l.raw).record digits

abbrev Buffer := RingBuffer (Line.record digits) Record.seq (-1)

end Lines

variable {digits : DigitTable}

def records (l : List LogLine) : List Record :=
  l.filterMap fun line => match line with
    | .header => none
    | .record r => some r

/-! ## The machine -/

/-- The key that `per_boot_counters` gives the counters of the thread. -/
def counterKey (boot : String) : String := boot ++ ":kmsg"

structure Process where
  monitor : Monitor
  /-- The cursor that the thread begins with. -/
  since : Int
  reads : List ReadOutcome := []

structure World (digits : DigitTable) where
  buffer : Buffer digits
  boot : String
  /-- `last_seq` of the saved counters. -/
  counters : Dict String Int := Dict.empty
  /-- What the processes before have added. -/
  log : List LogLine := []
  process : Option Process := none

inductive Event (digits : DigitTable) where
  | printk (line : Line digits)
  | overwrite
  | launch (fs : Findings)
  | thread (e : Kmsg.Event)
  | save
  /-- The process is killed, in a turn or, without one, elsewhere. -/
  | kill (during : Option Turn) (lines : Nat)
  | reset (boot : String) (buffer : Buffer digits)

def read (b : Buffer digits) : ReadOutcome → Option (Buffer digits)
  | .wouldBlock => if b.Exhausted then some b else none
  | .overrun => b.catchUp
  | .error _ => some b
  | .data raw =>
    if h : (ReadOutcome.data raw).raises digits = false then b.next ⟨raw, h⟩ else none

def serve (b : Buffer digits) : Kmsg.Event → Option (Buffer digits)
  | .start _ => some b.rewind
  | .turn t => read b t.read
  | _ => some b

/-- The writes of the event to kernel.log succeed. -/
def written : Kmsg.Event → Bool
  | .start o => !o.breaks
  | .turn t => !t.write.isFailed
  | .leave write _ => !write.isFailed
  | _ => true

def readsOf : Kmsg.Event → List ReadOutcome
  | .turn t => [t.read]
  | _ => []

/-- What the thread has to write where it is killed. -/
def queued (digits : DigitTable) (m : Monitor) : Option Turn → List Record
  | none => m.pending
  | some t => m.pending ++ (m.accepted digits t.read).toList

/-- The thread writes there: in a turn whose batch is due, or after the loop. -/
def Writing (b : Buffer digits) (m : Monitor) : Option Turn → Prop
  | none => m.running = true ∧ m.stopSet = true
  | some t => m.running = true ∧ m.stopSet = false ∧ (read b t.read).isSome ∧
    m.writes digits t = true

instance (b : Buffer digits) (m : Monitor) : ∀ during, Decidable (Writing b m during)
  | none => inferInstanceAs (Decidable (_ ∧ _))
  | some _ => inferInstanceAs (Decidable (_ ∧ _ ∧ _ ∧ _))

namespace World

/-- `state.get("last_seq", -1)` of the counters of the boot. -/
def cursor (w : World digits) : Int := (w.counters.get? (counterKey w.boot)).getD (-1)

def kernelLog (w : World digits) : List LogLine :=
  match w.process with
  | none => w.log
  | some p => w.log ++ p.monitor.log

def act (w : World digits) (p : Process) (e : Kmsg.Event) : Option (World digits) :=
  if written e then do
    let b ← serve w.buffer e
    let m ← Kmsg.step digits p.monitor e
    some { w with buffer := b, process := some ⟨m, p.since, p.reads ++ readsOf e⟩ }
  else none

end World

def step (w : World digits) : Event digits → Option (World digits)
  | .printk line => (w.buffer.log line).map fun b => { w with buffer := b }
  | .overwrite => some { w with buffer := w.buffer.overwrite }
  | .launch fs => match w.process with
    | none => some { w with process := some { monitor := opened fs w.cursor, since := w.cursor } }
    | some _ => none
  | .thread e => w.process.bind fun p => w.act p e
  | .save => w.process.map fun p =>
      { w with counters := w.counters.set (counterKey w.boot) p.monitor.saved }
  | .kill during lines => w.process.bind fun p =>
      if lines = 0 ∨ Writing w.buffer p.monitor during then
        let first := ((queued digits p.monitor during).take lines).map LogLine.record
        some { w with log := w.log ++ p.monitor.log ++ first, process := none }
      else none
  -- A boot has an id of its own.
  | .reset boot buffer =>
    if w.counters.get? (counterKey boot) = none then
      some { buffer := buffer, boot := boot, counters := w.counters }
    else none

/-! ## What is promised of kernel.log -/

def heard (digits : DigitTable) (reads : List ReadOutcome) : List Record :=
  reads.filterMap fun out => out.record digits

/-- The records that the thread has accepted of all it has read. -/
def Process.accepted (digits : DigitTable) (p : Process) : List Record :=
  Spool.newer Record.seq p.since (heard digits p.reads)

/-- What the thread still has to write; a thread that has ended has written it. -/
def batch (m : Monitor) : List Record := if m.running then m.pending else []

/-- kernel.log and the batch hold what was accepted, each record once and in order. -/
def Exact (digits : DigitTable) (p : Process) : Prop :=
  records p.monitor.log ++ batch p.monitor = p.accepted digits ∧
    (p.accepted digits).Pairwise fun r s => r.seq < s.seq

/-- The cursor that is saved is not beyond the last record of kernel.log. -/
def Lags (w : World digits) : Prop := w.cursor ≤ Spool.latest Record.seq (-1) (records w.kernelLog)

def Logged (w : World digits) : Prop := ∀ r ∈ w.buffer.records, r ∈ records w.kernelLog

/-- A turn that finds nothing more to read leaves every record of the buffer in kernel.log. -/
def CatchesUp (w : World digits) : Prop :=
  ∀ t u, t.read = .wouldBlock → step w (.thread (.turn t)) = some u → Logged u

def readTurn (l : Line digits) : Event digits := .thread (.turn { read := .data l.raw })

/-- A process starts, reads the buffer from its start and finds nothing more to read. -/
def rereading (fs : Findings) (b : Buffer digits) : List (Event digits) :=
  .launch fs :: .thread (.start {}) ::
    (b.entries.map readTurn ++ [.thread (.turn { read := .wouldBlock })])

def Recovers (w : World digits) : Prop :=
  ∀ fs, ∃ u, run step w (rereading fs w.buffer) = some u ∧
    u.buffer.entries = w.buffer.entries ∧ Logged u

/-! ## The thread as a spool -/

@[simp] theorem records_append (l l' : List LogLine) :
    records (l ++ l') = records l ++ records l' :=
  List.filterMap_append

@[simp] theorem records_map (rs : List Record) : records (rs.map LogLine.record) = rs := by
  unfold records
  rw [List.filterMap_map]
  exact List.filterMap_some

/-- The thread on top of what earlier processes have added to kernel.log. -/
def spool (log : List LogLine) (m : Monitor) : Spool Record Int :=
  ⟨records (log ++ m.log), m.pending, m.lastSeq, m.saved⟩

/-- The records of a turn are taken before the batch is written. -/
def took (digits : DigitTable) (log : List LogLine) (m : Monitor) (t : Turn) : Spool Record Int :=
  (spool log m).take Record.seq (m.accepted digits t.read)

theorem spool_put (log : List LogLine) (m : Monitor) :
    spool log (m.put .written) = (spool log m).flush := by
  simp [spool, Monitor.put, Spool.flush, List.append_assoc]

theorem spool_writeDue (log : List LogLine) (m : Monitor) (idle late : Bool) {write : LogWrite}
    (hwrite : write.isFailed = false) :
    spool log (m.writeDue idle late write) =
      if m.due idle late then (spool log m).flush else spool log m := by
  cases write with
  | failed lines => cases hwrite
  | written =>
    unfold Monitor.writeDue
    split
    · exact spool_put log m
    · rfl

theorem writeDue_still (m : Monitor) (idle late : Bool) {write : LogWrite}
    (hwrite : write.isFailed = false) :
    (m.writeDue idle late write).running = m.running ∧
      (m.writeDue idle late write).ended = m.ended ∧
      (m.writeDue idle late write).stopSet = m.stopSet := by
  cases write with
  | failed lines => cases hwrite
  | written =>
    unfold Monitor.writeDue
    split <;> exact ⟨rfl, rfl, rfl⟩

/-- A turn takes the record that it accepts, and writes the batch when that is due. -/
theorem spool_turn (log : List LogLine) (m : Monitor) {t : Turn}
    (hwrite : t.write.isFailed = false) (htimed : t.read.raises digits = false) :
    spool log (m.turn digits t) =
      (if m.writes digits t then (took digits log m t).flush else took digits log m t) ∧
        (m.turn digits t).running = m.running ∧ (m.turn digits t).ended = m.ended ∧
        (m.turn digits t).stopSet = m.stopSet := by
  unfold Monitor.turn Monitor.writes took
  cases hread : t.read with
  | wouldBlock =>
    exact ⟨spool_writeDue log m true t.late hwrite, writeDue_still m true t.late hwrite⟩
  | overrun => exact ⟨rfl, rfl, rfl, rfl⟩
  | error text => exact ⟨rfl, rfl, rfl, rfl⟩
  | data raw =>
    rw [hread] at htimed
    by_cases hraw : raw = ""
    · subst hraw
      simp only [if_true, Monitor.accepted, record_empty]
      exact ⟨spool_writeDue log m false t.late hwrite, writeDue_still m false t.late hwrite⟩
    · simp only [hraw, if_false, htimed, Bool.false_eq_true]
      cases haccepted : m.accepted digits (.data raw) with
      | none => exact ⟨rfl, rfl, rfl, rfl⟩
      | some r =>
        have htook : spool log ((m.accept r).process t.processing) =
            (spool log m).take Record.seq (some r) := rfl
        have hlen : ((m.accept r).process t.processing).pending.length = m.pending.length + 1 :=
          List.length_append
        dsimp only
        rw [hlen]
        by_cases hfull : m.pending.length + 1 < 200
        · rw [if_pos hfull, htook]
          simp [not_le.mpr hfull, Monitor.process, Monitor.accept]
        · have hdue : ((m.accept r).process t.processing).due false t.late = true := by
            simp [Monitor.due, Monitor.process, Monitor.accept, not_lt.mp hfull]
          rw [if_neg hfull, spool_writeDue log _ false t.late hwrite, hdue, htook]
          obtain ⟨hrunning, hended, hstop⟩ :=
            writeDue_still ((m.accept r).process t.processing) false t.late hwrite
          rw [hrunning, hended, hstop]
          simp [not_lt.mp hfull, Monitor.process, Monitor.accept]

/-! ## What holds of a process -/

structure Held (b : Buffer digits) (log : List LogLine) (cursor : Int) (p : Process) : Prop where
  settled : b.Settled (records (log ++ p.monitor.log)) p.monitor.saved
  cursor_le : cursor ≤ p.monitor.saved
  spool : p.monitor.ended = none → Spool.Inv b (spool log p.monitor)
  passed : p.monitor.running = true → b.Passed (KernelLog.spool log p.monitor).held
  going : p.monitor.running = true → p.monitor.ended = none
  unstarted : p.monitor.running = false → p.monitor.ended = none → p.monitor.pending = []
  exact : records p.monitor.log ++ batch p.monitor = p.accepted digits
  last : p.monitor.lastSeq = Spool.latest Record.seq p.since (p.accepted digits)

def Inv (w : World digits) : Prop :=
  match w.process with
  | none => w.buffer.Settled (records w.log) w.cursor
  | some p => Held w.buffer w.log w.cursor p

variable {b b' : Buffer digits} {log : List LogLine} {cursor : Int} {p : Process}
  {w u : World digits}

theorem settled_of_inv (h : Inv w) : w.buffer.Settled (records w.kernelLog) w.cursor := by
  unfold Inv at h
  unfold World.kernelLog
  cases hp : w.process with
  | none =>
    rw [hp] at h
    exact h
  | some p =>
    rw [hp] at h
    exact h.settled.mono h.cursor_le

/-- The kernel has moved on, and the reader has not. -/
theorem held_later (h : Held b log cursor p) (hb : b.Later b')
    (hpassed : ∀ l, b.Passed l → b'.Passed l) : Held b' log cursor p where
  settled := h.settled.later hb
  cursor_le := h.cursor_le
  spool := fun hended => Spool.inv_later (h.spool hended) hb
  passed := fun hrunning => hpassed _ (h.passed hrunning)
  going := h.going
  unstarted := h.unstarted
  exact := h.exact
  last := h.last

/-- Calls on the findings and `stop_event` leave the log and the batch alone. -/
theorem held_call (h : Held b log cursor p) (c : Call) :
    Held b log cursor ⟨p.monitor.call c, p.since, p.reads⟩ :=
  ⟨h.settled, h.cursor_le, h.spool, h.passed, h.going, h.unstarted, h.exact, h.last⟩

theorem held_stop (h : Held b log cursor p) :
    Held b log cursor ⟨{ p.monitor with stopSet := true }, p.since, p.reads⟩ :=
  ⟨h.settled, h.cursor_le, h.spool, h.passed, h.going, h.unstarted, h.exact, h.last⟩

theorem held_opened (h : b.Settled (records log) cursor) (fs : Findings) :
    Held b log cursor { monitor := opened fs cursor, since := cursor } where
  settled := by simpa [opened] using h
  cursor_le := le_rfl
  spool := fun _ => by simpa [spool, opened] using Spool.inv_begin h
  passed := fun hrunning => by cases hrunning
  going := fun hrunning => by cases hrunning
  unstarted := fun _ _ => rfl
  exact := rfl
  last := rfl

theorem batch_of_idle {m : Monitor} (h : m.running = false) : batch m = [] := by
  rw [batch, h]
  rfl

theorem batch_of_running {m : Monitor} (h : m.running = true) : batch m = m.pending := by
  rw [batch, h]
  rfl

theorem held_start (h : Held b log cursor p) {o : Kmsg.Opening} (ho : o.breaks = false)
    (hidle : p.monitor.running = false) (hended : p.monitor.ended = none) :
    Held b.rewind log cursor ⟨p.monitor.start o, p.since, p.reads⟩ := by
  have hlater := RingBuffer.later_rewind b
  have hexact : records p.monitor.log = p.accepted digits := by
    rw [← h.exact, batch_of_idle hidle, List.append_nil]
  unfold Monitor.start
  cases hu : o.unavailable with
  | some text =>
    exact ⟨h.settled.later hlater, h.cursor_le, fun hnone => (by cases hnone),
      fun hrunning => (by cases hrunning), fun hrunning => (by cases hrunning),
      fun _ hnone => (by cases hnone), (List.append_nil _).trans hexact, h.last⟩
  | none =>
    obtain ⟨happended, hopened⟩ : o.appended = true ∧ o.opened = true := by
      simpa [Opening.breaks, hu] using ho
    rw [happended, hopened]
    have hlog : records (log ++ (p.monitor.log ++ [LogLine.header])) =
        records (log ++ p.monitor.log) := by
      simp [records]
    refine ⟨?_, h.cursor_le, fun _ => ?_, fun _ => RingBuffer.passed_rewind b _,
      fun _ => hended, fun hrunning => (by cases hrunning), ?_, h.last⟩
    · show b.rewind.Settled (records (log ++ (p.monitor.log ++ [LogLine.header]))) _
      rw [hlog]
      exact h.settled.later hlater
    · show Spool.Inv b.rewind
        ⟨records (log ++ (p.monitor.log ++ [LogLine.header])), _, _, _⟩
      rw [hlog]
      exact Spool.inv_later (h.spool hended) hlater
    · show records (p.monitor.log ++ [LogLine.header]) ++ p.monitor.pending = p.accepted digits
      rw [h.unstarted hidle hended, List.append_nil, ← hexact]
      simp [records]

theorem heard_concat (reads : List ReadOutcome) (out : ReadOutcome) :
    heard digits (reads ++ [out]) = heard digits reads ++ heard digits [out] :=
  List.filterMap_append

/-- What the loop accepts of a read is what lies above all it has accepted before. -/
theorem accepted_concat {m : Monitor} {since : Int} {reads : List ReadOutcome}
    (hlast : m.lastSeq =
      Spool.latest Record.seq since (Spool.newer Record.seq since (heard digits reads)))
    (out : ReadOutcome) :
    Spool.newer Record.seq since (heard digits (reads ++ [out])) =
      Spool.newer Record.seq since (heard digits reads) ++ (m.accepted digits out).toList := by
  have hheard : heard digits [out] = (out.record digits).toList := by
    cases hrecord : out.record digits <;> simp [heard, hrecord]
  rw [heard_concat, hheard, Monitor.accepted]
  cases out.record digits with
  | none => exact (congrArg _ (List.append_nil _)).trans (List.append_nil _).symm
  | some r =>
    rw [Option.toList_some, Spool.newer_concat, ← hlast]
    by_cases hnew : m.lastSeq < r.seq
    · rw [if_pos hnew, Option.filter_some_pos (by simpa using hnew)]
      rfl
    · rw [if_neg hnew, Option.filter_some_neg (by simpa using hnew)]
      rfl

/-- What the buffer gives is a record that can be taken in. -/
theorem timed_of_read {out : ReadOutcome} (h : read b out = some b') :
    out.raises digits = false := by
  cases out with
  | data raw =>
    simp only [read] at h
    split at h
    next htimed => exact htimed
    next => cases h
  | _ => rfl

/-- The thread takes what the buffer gives it. -/
theorem inv_took (h : Held b log cursor p) (hrunning : p.monitor.running = true) {t : Turn}
    (hread : read b t.read = some b') :
    Spool.Inv b' (took digits log p.monitor t) ∧ b'.Passed (took digits log p.monitor t).held := by
  have hspool := h.spool (h.going hrunning)
  have hpassed := h.passed hrunning
  unfold took
  cases hr : t.read with
  | wouldBlock =>
    rw [hr] at hread
    simp only [read] at hread
    obtain ⟨-, hsame⟩ := Option.ite_none_right_eq_some.mp hread
    obtain rfl := Option.some.inj hsame
    exact ⟨hspool, hpassed⟩
  | overrun =>
    rw [hr] at hread
    simp only [read, RingBuffer.catchUp] at hread
    obtain ⟨-, hsame⟩ := Option.ite_none_right_eq_some.mp hread
    obtain rfl := Option.some.inj hsame
    exact ⟨Spool.inv_later hspool (RingBuffer.later_of_entries rfl rfl), hpassed⟩
  | error text =>
    rw [hr] at hread
    obtain rfl := Option.some.inj hread
    exact ⟨hspool, hpassed⟩
  | data raw =>
    rw [hr] at hread
    have htimed := timed_of_read hread
    simp only [read, dif_pos htimed] at hread
    have haccepted : p.monitor.accepted digits (.data raw) =
        (Line.record digits ⟨raw, htimed⟩).filter fun r => p.monitor.lastSeq < r.seq := rfl
    rw [haccepted]
    exact Spool.inv_next hspool hpassed hread

theorem cursor_took (log : List LogLine) (m : Monitor) (t : Turn) (c : Int)
    (l : List Record) (h : m.lastSeq = Spool.latest Record.seq c l) :
    (took digits log m t).cursor =
      Spool.latest Record.seq c (l ++ (m.accepted digits t.read).toList) := by
  unfold took
  cases m.accepted digits t.read with
  | none => exact h.trans (by rw [Option.toList_none, List.append_nil])
  | some r =>
    have hr : Spool.latest Record.seq c (l ++ [r]) = r.seq := Spool.latest_concat c l r
    exact hr.symm

theorem saved_took (log : List LogLine) (m : Monitor) (t : Turn) :
    (took digits log m t).saved = m.saved := by
  unfold took
  cases m.accepted digits t.read <;> rfl

theorem held_turn (h : Held b log cursor p) (hrunning : p.monitor.running = true) {t : Turn}
    (hwrite : t.write.isFailed = false) (hread : read b t.read = some b') :
    Held b' log cursor ⟨p.monitor.turn digits t, p.since, p.reads ++ [t.read]⟩ := by
  obtain ⟨hinv, hpassed⟩ := inv_took h hrunning hread
  obtain ⟨hturn, hrun, hend, -⟩ := spool_turn log p.monitor hwrite (timed_of_read hread)
  have hheld : ∀ log,
      (spool log (p.monitor.turn digits t)).held = (took digits log p.monitor t).held := by
    intro log
    rw [(spool_turn log p.monitor hwrite (timed_of_read hread)).1]
    exact Spool.held_perhaps _ _
  obtain ⟨hspool, hcursor, hsaved⟩ := Spool.inv_perhaps hinv (p.monitor.writes digits t = true)
  rw [← hturn] at hspool hcursor hsaved
  rw [saved_took] at hsaved
  have haccepted := accepted_concat h.last t.read
  exact {
    settled := hspool.settled
    cursor_le := h.cursor_le.trans hsaved
    spool := fun _ => hspool
    passed := fun _ => by
      rw [hheld]
      exact hpassed
    going := fun _ => hend.trans (h.going hrunning)
    unstarted := fun hidle => by
      rw [hrun, hrunning] at hidle
      cases hidle
    exact := by
      show _ = Spool.newer Record.seq p.since (heard digits (p.reads ++ [t.read]))
      rw [haccepted, batch_of_running (hrun.trans hrunning)]
      have htook : (took digits [] p.monitor t).held =
          (spool [] p.monitor).held ++ (p.monitor.accepted digits t.read).toList :=
        Spool.held_take _ _
      have hexact : (spool [] p.monitor).held = p.accepted digits := by
        rw [← h.exact, batch_of_running hrunning]
        rfl
      rw [hexact] at htook
      exact (hheld []).trans htook
    last := by
      show _ = Spool.latest Record.seq p.since
        (Spool.newer Record.seq p.since (heard digits (p.reads ++ [t.read])))
      rw [haccepted]
      exact hcursor.trans (cursor_took log p.monitor t p.since (p.accepted digits) h.last) }

/-- After the loop what is pending is written, and the saved cursor stays behind. -/
theorem held_leave (h : Held b log cursor p) (hrunning : p.monitor.running = true)
    {write : LogWrite} (hwrite : write.isFailed = false) (synced : Bool) :
    Held b log cursor ⟨p.monitor.leave write synced, p.since, p.reads⟩ := by
  have hspool := h.spool (h.going hrunning)
  have hexact : records p.monitor.log ++ p.monitor.pending = p.accepted digits := by
    rw [← h.exact, batch_of_running hrunning]
  cases write with
  | failed lines => cases hwrite
  | written =>
    unfold Monitor.leave
    split
    · rename_i hempty
      rw [List.isEmpty_iff.mp hempty, List.append_nil] at hexact
      exact ⟨h.settled, h.cursor_le, fun hnone => (by cases hnone),
        fun hrun => (by cases hrun), fun hrun => (by cases hrun),
        fun _ hnone => (by cases hnone), (List.append_nil _).trans hexact, h.last⟩
    · have hsettled : b.Settled
          (records (log ++ (p.monitor.log ++ p.monitor.pending.map LogLine.record)))
          p.monitor.saved := by
        rw [← List.append_assoc, records_append, records_map]
        exact h.settled.append hspool.above
      refine ⟨hsettled, h.cursor_le, fun hnone => (by cases synced <;> cases hnone),
        fun hrun => (by cases hrun), fun hrun => (by cases hrun),
        fun _ hnone => (by cases synced <;> cases hnone), ?_, h.last⟩
      show records (p.monitor.log ++ p.monitor.pending.map LogLine.record) ++ [] = p.accepted digits
      rw [List.append_nil, records_append, records_map]
      exact hexact

/-! ## What holds over every run -/

theorem inv_buffer (h : Inv w) (hb : w.buffer.Later b')
    (hpassed : ∀ l, w.buffer.Passed l → b'.Passed l) : Inv { w with buffer := b' } := by
  unfold Inv at h ⊢
  dsimp only
  cases hp : w.process with
  | none =>
    rw [hp] at h
    exact RingBuffer.Settled.later h hb
  | some p =>
    rw [hp] at h
    exact held_later h hb hpassed

theorem act_eq_some {e : Kmsg.Event} (h : w.act p e = some u) :
    ∃ b m, written e = true ∧ serve w.buffer e = some b ∧ Kmsg.step digits p.monitor e = some m ∧
      u = { w with buffer := b, process := some ⟨m, p.since, p.reads ++ readsOf e⟩ } := by
  unfold World.act at h
  obtain ⟨hwritten, hacts⟩ := Option.ite_none_right_eq_some.mp h
  obtain ⟨b, hb, hrest⟩ := Option.bind_eq_some_iff.mp hacts
  obtain ⟨m, hm, hu⟩ := Option.bind_eq_some_iff.mp hrest
  exact ⟨b, m, hwritten, hb, hm, (Option.some.inj hu).symm⟩

theorem held_thread (h : Held b log cursor p) {e : Kmsg.Event} {m : Monitor}
    (hwritten : written e = true) (hserve : serve b e = some b')
    (hm : Kmsg.step digits p.monitor e = some m) :
    Held b' log cursor ⟨m, p.since, p.reads ++ readsOf e⟩ := by
  cases e with
  | start o =>
    simp only [Kmsg.step] at hm
    obtain ⟨hgo, hu⟩ := Option.ite_none_right_eq_some.mp hm
    obtain rfl := Option.some.inj hu
    obtain rfl := Option.some.inj hserve
    show Held _ log cursor ⟨_, p.since, p.reads ++ []⟩
    rw [List.append_nil]
    exact held_start h (by simpa [written] using hwritten) hgo.1 hgo.2
  | turn t =>
    simp only [Kmsg.step] at hm
    obtain ⟨hgo, hu⟩ := Option.ite_none_right_eq_some.mp hm
    obtain rfl := Option.some.inj hu
    exact held_turn h hgo.1 (by simpa [written] using hwritten) hserve
  | leave write synced =>
    simp only [Kmsg.step] at hm
    obtain ⟨hgo, hu⟩ := Option.ite_none_right_eq_some.mp hm
    obtain rfl := Option.some.inj hu
    obtain rfl := Option.some.inj hserve
    show Held _ log cursor ⟨_, p.since, p.reads ++ []⟩
    rw [List.append_nil]
    exact held_leave h hgo.1 (by simpa [written] using hwritten) synced
  | stop =>
    obtain rfl := Option.some.inj hm
    obtain rfl := Option.some.inj hserve
    show Held _ log cursor ⟨_, p.since, p.reads ++ []⟩
    rw [List.append_nil]
    exact held_stop h
  | other c =>
    obtain rfl := Option.some.inj hm
    obtain rfl := Option.some.inj hserve
    show Held _ log cursor ⟨_, p.since, p.reads ++ []⟩
    rw [List.append_nil]
    exact held_call h c

/-- Where a process is killed, all that can be in kernel.log beside what it has written is
above the cursor that it has saved. -/
theorem settled_killed (h : Held b log cursor p) {during : Option Turn} {lines : Nat}
    (hlines : lines = 0 ∨ Writing b p.monitor during) :
    b.Settled (records (log ++ p.monitor.log ++
      ((queued digits p.monitor during).take lines).map LogLine.record)) cursor := by
  rw [records_append, records_map]
  refine RingBuffer.Settled.mono ?_ h.cursor_le
  rcases hlines with rfl | hwriting
  · rw [List.take_zero, List.append_nil]
    exact h.settled
  · cases during with
    | none =>
      refine h.settled.append fun r hr => ?_
      exact (h.spool (h.going hwriting.1)).above r (List.mem_of_mem_take hr)
    | some t =>
      refine Spool.settled_take (h.spool (h.going hwriting.1)) (fun r hr => ?_) lines
      have hnew : p.monitor.lastSeq < r.seq := by
        simpa using (Option.filter_eq_some_iff.mp hr).2
      exact hnew

theorem inv_step {e : Event digits} (h : Inv w) (ht : step w e = some u) : Inv u := by
  cases e with
  | printk raw =>
    obtain ⟨b', hb, rfl⟩ := Option.map_eq_some_iff.mp ht
    exact inv_buffer h (RingBuffer.later_log hb) fun _ hpassed => hpassed.log hb
  | overwrite =>
    obtain rfl := Option.some.inj ht
    exact inv_buffer h (RingBuffer.later_overwrite _) fun _ hpassed => hpassed.overwrite
  | launch fs =>
    simp only [step] at ht
    split at ht
    · rename_i hp
      obtain rfl := Option.some.inj ht
      rw [Inv, hp] at h
      exact held_opened h fs
    · cases ht
  | thread e =>
    obtain ⟨p, hp, hact⟩ := Option.bind_eq_some_iff.mp ht
    obtain ⟨b', m, hwritten, hserve, hm, rfl⟩ := act_eq_some hact
    rw [Inv, hp] at h
    exact held_thread h hwritten hserve hm
  | save =>
    obtain ⟨p, hp, rfl⟩ := Option.map_eq_some_iff.mp ht
    rw [Inv, hp] at h
    rw [Inv, hp]
    show Held w.buffer w.log
      (((w.counters.set (counterKey w.boot) p.monitor.saved).get? (counterKey w.boot)).getD (-1)) p
    rw [Dict.get?_set_self]
    exact ⟨h.settled, le_rfl, h.spool, h.passed, h.going, h.unstarted, h.exact, h.last⟩
  | kill during lines =>
    obtain ⟨p, hp, hkill⟩ := Option.bind_eq_some_iff.mp ht
    obtain ⟨hlines, hu⟩ := Option.ite_none_right_eq_some.mp hkill
    obtain rfl := Option.some.inj hu
    rw [Inv, hp] at h
    exact settled_killed h hlines
  | reset boot buffer =>
    simp only [step] at ht
    obtain ⟨hfresh, hu⟩ := Option.ite_none_right_eq_some.mp ht
    obtain rfl := Option.some.inj hu
    show buffer.Settled [] ((w.counters.get? (counterKey boot)).getD (-1))
    rw [hfresh]
    exact RingBuffer.settled_low buffer [] le_rfl

theorem inv_run {es : List (Event digits)} (h : Inv w) (hrun : run step w es = some u) : Inv u :=
  run_preserves_along (fun _ _ _ hs _ hstep => inv_step hs hstep) h
    (along_of_forall fun _ _ _ => trivial) hrun

def begun (buffer : Buffer digits) (boot : String) : World digits :=
  { buffer := buffer, boot := boot }

theorem inv_begun (buffer : Buffer digits) (boot : String) : Inv (begun buffer boot) :=
  RingBuffer.settled_low buffer [] le_rfl

/-! ## Nothing is lost -/

theorem exact_of_inv (h : Inv w) (hp : w.process = some p) : Exact digits p := by
  rw [Inv, hp] at h
  exact ⟨h.exact, Spool.newer_rises p.since (heard digits p.reads)⟩

/-- A turn that finds nothing more to read leaves nothing pending. -/
theorem pending_of_block {m : Monitor} {t : Turn} (hwrite : t.write.isFailed = false)
    (hblock : t.read = .wouldBlock) : (m.turn digits t).pending = [] := by
  have htimed : t.read.raises digits = false := by
    rw [hblock]
    rfl
  have hturn := (spool_turn [] m hwrite htimed).1
  by_cases hdue : m.writes digits t = true
  · rw [if_pos hdue] at hturn
    exact congrArg Spool.pending hturn
  · -- the batch would be due
    rw [if_neg hdue, took, hblock] at hturn
    have hnone : m.pending = [] := by simpa [Monitor.writes, hblock, Monitor.due] using hdue
    rw [← hnone]
    exact congrArg Spool.pending hturn

theorem catchesUp_of_inv (h : Inv w) : CatchesUp w := by
  intro t u hblock ht
  obtain ⟨p, hp, hact⟩ := Option.bind_eq_some_iff.mp ht
  obtain ⟨b', m, hwritten, hserve, hm, rfl⟩ := act_eq_some hact
  rw [Inv, hp] at h
  have hheld := held_thread h hwritten hserve hm
  simp only [Kmsg.step] at hm
  obtain ⟨hgo, hu⟩ := Option.ite_none_right_eq_some.mp hm
  obtain rfl := Option.some.inj hu
  have hwrite : t.write.isFailed = false := by simpa [written] using hwritten
  have hexhausted : b'.pos = b'.entries.length := by
    simp only [serve, hblock, read] at hserve
    obtain ⟨hall, hsame⟩ := Option.ite_none_right_eq_some.mp hserve
    obtain rfl := Option.some.inj hsame
    exact hall.1
  have hempty : (p.monitor.turn digits t).pending = [] := pending_of_block hwrite hblock
  have hrunning : (p.monitor.turn digits t).running = true :=
    (spool_turn w.log p.monitor hwrite (by rw [hblock]; rfl)).2.1.trans hgo.1
  intro r hr
  have hmem := RingBuffer.passed_all (hheld.passed hrunning) hexhausted r hr
  simpa [spool, Spool.held, hempty, World.kernelLog] using hmem

/-- The thread runs, and the buffer has not overtaken it. -/
structure Reading (w : World digits) (p : Process) : Prop where
  process : w.process = some p
  running : p.monitor.running = true
  going : p.monitor.stopSet = false
  abreast : w.buffer.overtaken = false

theorem step_turn {t : Turn} (h : Reading w p) (hwrite : t.write.isFailed = false)
    (hread : read w.buffer t.read = some b') :
    step w (.thread (.turn t)) = some { w with
      buffer := b', process := some ⟨p.monitor.turn digits t, p.since, p.reads ++ [t.read]⟩ } := by
  have hwritten : written (.turn t) = true := by simp [written, hwrite]
  have hturn : Kmsg.step digits p.monitor (.turn t) = some (p.monitor.turn digits t) :=
    if_pos ⟨h.running, h.going⟩
  have hserve : serve w.buffer (.turn t) = some b' := hread
  show (w.process.bind fun p => w.act p (.turn t)) = _
  rw [h.process, Option.bind_some, World.act, if_pos hwritten, hserve, hturn]
  rfl

theorem reads_next {l : Line digits} (h : Reading w p)
    (hget : w.buffer.entries[w.buffer.pos]? = some l) :
    ∃ u q, step w (readTurn l) = some u ∧ Reading u q ∧
      u.buffer.entries = w.buffer.entries ∧ u.buffer.pos = w.buffer.pos + 1 := by
  obtain ⟨b', hb⟩ : ∃ b', w.buffer.next l = some b' := ⟨_, dif_pos ⟨hget, h.abreast⟩⟩
  have habreast : b'.overtaken = false := (Spool.next_overtaken hb).trans h.abreast
  obtain ⟨-, hentries, hpos, -⟩ := Spool.next_eq_some hb
  obtain ⟨-, hrunning, -, hstop⟩ :=
    spool_turn [] p.monitor (t := { read := .data l.raw }) rfl l.timed
  have hread : read w.buffer (.data l.raw) = some b' := (dif_pos l.timed).trans hb
  exact ⟨_, _, step_turn h rfl hread,
    ⟨rfl, hrunning.trans h.running, hstop.trans h.going, habreast⟩, hentries, hpos⟩

/-- The thread reads on to the end of the buffer. -/
theorem reads_all (rest : List (Line digits)) (h : Reading w p)
    (hrest : w.buffer.entries.drop w.buffer.pos = rest) :
    ∃ u q, run step w (rest.map readTurn) = some u ∧ Reading u q ∧
      u.buffer.entries = w.buffer.entries ∧ u.buffer.Exhausted := by
  induction rest generalizing w p with
  | nil =>
    have hpos : w.buffer.pos = w.buffer.entries.length :=
      Nat.le_antisymm w.buffer.pos_le (List.drop_eq_nil_iff.mp hrest)
    exact ⟨w, p, rfl, h, rfl, hpos, h.abreast⟩
  | cons l rest ih =>
    have hget : w.buffer.entries[w.buffer.pos]? = some l := by
      rw [← List.head?_drop, hrest]
      rfl
    obtain ⟨v, q, hstep, hq, hentries, hpos⟩ := reads_next h hget
    have hnext : v.buffer.entries.drop v.buffer.pos = rest := by
      rw [hentries, hpos, ← List.tail_drop, hrest]
      rfl
    obtain ⟨u, q', hrun, hq', hsame, hall⟩ := ih hq hnext
    refine ⟨u, q', ?_, hq', hsame.trans hentries, hall⟩
    exact run_cons_eq_some.mpr ⟨v, hstep, hrun⟩

theorem recovers_of_inv (h : Inv w) (hnone : w.process = none) : Recovers w := by
  intro fs
  have hlaunch : step w (.launch fs) = some { w with
      process := some { monitor := opened fs w.cursor, since := w.cursor } } := by
    simp [step, hnone]
  have hreading : Reading { w with
      buffer := w.buffer.rewind
      process := some ⟨(opened fs w.cursor).start {}, w.cursor, []⟩ }
      ⟨(opened fs w.cursor).start {}, w.cursor, []⟩ := ⟨rfl, rfl, rfl, rfl⟩
  obtain ⟨v, q, hrun, hq, hentries, hall⟩ :=
    reads_all w.buffer.entries hreading List.drop_zero
  have hblock : read v.buffer .wouldBlock = some v.buffer := if_pos hall
  have hlast := step_turn (t := { read := .wouldBlock }) hq rfl hblock
  have hread : run step w (.launch fs :: .thread (.start {}) :: w.buffer.entries.map readTurn) =
      some v :=
    run_cons_eq_some.mpr ⟨_, hlaunch, run_cons_eq_some.mpr ⟨_, rfl, hrun⟩⟩
  have hinv : Inv v := inv_run h hread
  refine ⟨_, ?_, ?_, catchesUp_of_inv hinv _ _ rfl hlast⟩
  · refine run_cons_eq_some.mpr ⟨_, hlaunch, run_cons_eq_some.mpr ⟨_, rfl, ?_⟩⟩
    exact run_concat_eq_some.mpr ⟨v, hrun, hlast⟩
  · exact hentries

/-- No record is lost, in any run over the processes of a boot: kernel.log and the batch are what
was accepted, the saved cursor stays behind kernel.log, and a process that begins again after
one was killed finds every record of the buffer in kernel.log once it has read it. -/
theorem loses_no_record (buffer : Buffer digits) (boot : String) {es : List (Event digits)}
    {w : World digits} (hrun : run step (begun buffer boot) es = some w) :
    (∀ p, w.process = some p → Exact digits p) ∧ Lags w ∧ CatchesUp w ∧
      ∀ during lines v, step w (.kill during lines) = some v → Recovers v := by
  have hinv : Inv w := inv_run (inv_begun buffer boot) hrun
  refine ⟨fun p hp => exact_of_inv hinv hp, (settled_of_inv hinv).le_latest,
    catchesUp_of_inv hinv, fun during lines v hkill => ?_⟩
  have hv : Inv v := inv_step hinv hkill
  obtain ⟨p, -, hgone⟩ := Option.bind_eq_some_iff.mp hkill
  obtain ⟨-, hu⟩ := Option.ite_none_right_eq_some.mp hgone
  obtain rfl := Option.some.inj hu
  exact recovers_of_inv hv rfl

/-! ## Records as the kernel prints them -/

/-- A record as the kernel prints it: the priority, the sequence number and the time in digits,
the flags, the message, and what stands in the lines after it. -/
def printed (prio seq usec : Nat) (flags message dictionary : List Char) : List Char :=
  Nat.toDigits 10 prio ++ ',' :: (Nat.toDigits 10 seq ++ ',' :: (Nat.toDigits 10 usec ++ ',' ::
    (flags ++ ';' :: (message ++ '\n' :: dictionary))))

theorem not_mem_toDigits {n : Nat} {c : Char} (hc : c.isDigit = false) :
    c ∉ Nat.toDigits 10 n := by
  intro hmem
  have hdigit := Nat.isDigit_of_mem_toDigits (b := 10) (by decide) (by decide) hmem
  cases hc.symm.trans hdigit

theorem length_toDigits_of_bits {n : Nat} (hn : n < 2 ^ 64) :
    (Nat.toDigits 10 n).length ≤ 4300 := by
  have htwenty : (Nat.toDigits 10 n).length ≤ 20 :=
    (Nat.length_toDigits_le_iff (by decide) (by decide)).mpr (hn.trans (by decide))
  exact htwenty.trans (by decide)

theorem takeWhile_until {c : Char} {l : List Char} (hl : c ∉ l) (rest : List Char) :
    (l ++ c :: rest).takeWhile (· ≠ c) = l ∧ (l ++ c :: rest).dropWhile (· ≠ c) = c :: rest := by
  have hall : ∀ e ∈ l, decide (e ≠ c) = true := fun e he =>
    decide_eq_true fun heq => hl (heq ▸ he)
  rw [List.takeWhile_append_of_pos hall, List.dropWhile_append_of_pos hall]
  simp

/-- A record of the kernel, the numbers of which have 64 bits at most, is taken in. -/
theorem parseRecord_printed (hdigits : digits.ReadsAscii) {prio seq usec : Nat}
    (hprio : prio < 2 ^ 64) (hseq : seq < 2 ^ 64) (husec : usec < 2 ^ 64)
    {flags message : List Char} (hflags : ';' ∉ flags) (hmessage : '\n' ∉ message)
    (dictionary : List Char) :
    parseRecord digits (String.ofList (printed prio seq usec flags message dictionary)) =
      .ok (some ⟨prio % 8, seq, usec, String.ofList message⟩) := by
  have hhead : ';' ∉ Nat.toDigits 10 prio ++ ',' :: (Nat.toDigits 10 seq ++ ',' ::
      (Nat.toDigits 10 usec ++ ',' :: flags)) := by
    simp [not_mem_toDigits (n := prio) (c := ';') rfl, not_mem_toDigits (n := seq) (c := ';') rfl,
      not_mem_toDigits (n := usec) (c := ';') rfl, hflags]
  obtain ⟨htake, hdrop⟩ := takeWhile_until hhead (message ++ '\n' :: dictionary)
  have hsplit : (Nat.toDigits 10 prio ++ ',' :: (Nat.toDigits 10 seq ++ ',' ::
      (Nat.toDigits 10 usec ++ ',' :: flags))).splitOn ',' =
      Nat.toDigits 10 prio :: Nat.toDigits 10 seq :: Nat.toDigits 10 usec :: flags.splitOn ',' := by
    rw [List.splitOn_append_cons_self_of_not_mem (not_mem_toDigits rfl),
      List.splitOn_append_cons_self_of_not_mem (not_mem_toDigits rfl),
      List.splitOn_append_cons_self_of_not_mem (not_mem_toDigits rfl)]
  have hshape : printed prio seq usec flags message dictionary =
      (Nat.toDigits 10 prio ++ ',' :: (Nat.toDigits 10 seq ++ ',' ::
        (Nat.toDigits 10 usec ++ ',' :: flags))) ++ ';' :: (message ++ '\n' :: dictionary) := by
    simp [printed]
  obtain ⟨x, hx⟩ := (PyFloat.ofInt_ok_iff (usec : Int)).mpr (by
    rw [abs_of_nonneg (Int.natCast_nonneg usec)]
    have hbits : (usec : Int) < 2 ^ 64 := by exact_mod_cast husec
    exact hbits.trans (by decide +kernel))
  unfold parseRecord
  rw [String.toList_ofList, hshape, htake, hdrop]
  dsimp only
  rw [hsplit]
  dsimp only
  rw [DigitTable.int_toDigits hdigits (length_toDigits_of_bits hprio),
    DigitTable.int_toDigits hdigits (length_toDigits_of_bits hseq),
    DigitTable.int_toDigits hdigits (length_toDigits_of_bits husec)]
  dsimp only
  rw [hx, List.tail_cons, (takeWhile_until hmessage dictionary).1]
  rfl

section Printed

variable (hdigits : digits.ReadsAscii) {prio seq usec : Nat} (hprio : prio < 2 ^ 64)
  (hseq : seq < 2 ^ 64) (husec : usec < 2 ^ 64) {flags message : List Char} (hflags : ';' ∉ flags)
  (hmessage : '\n' ∉ message) (dictionary : List Char)

include hdigits hprio hseq husec hflags hmessage

theorem record_printed :
    (ReadOutcome.data (String.ofList (printed prio seq usec flags message dictionary))).record
      digits = some ⟨prio % 8, seq, usec, String.ofList message⟩ := by
  rw [ReadOutcome.record, parseRecord_printed hdigits hprio hseq husec hflags hmessage]
  rfl

/-- It can be an entry of the buffer. -/
theorem timed_printed :
    (ReadOutcome.data (String.ofList (printed prio seq usec flags message dictionary))).raises
      digits = false := by
  rw [ReadOutcome.raises, parseRecord_printed hdigits hprio hseq husec hflags hmessage]
  rfl

/-- The thread accepts it when it is new. -/
theorem accepted_printed {m : Monitor} (hnew : m.lastSeq < seq) :
    m.accepted digits (.data (String.ofList (printed prio seq usec flags message dictionary))) =
      some ⟨prio % 8, seq, usec, String.ofList message⟩ := by
  rw [Monitor.accepted, record_printed hdigits hprio hseq husec hflags hmessage,
    Option.filter_some_pos (by simpa using hnew)]

end Printed

/-! ## A process that is killed -/

def emptyBuffer : Buffer .ascii where
  entries := []
  pos := 0
  overtaken := false
  top := -1
  pos_le := le_rfl
  rising := List.Pairwise.nil
  above := fun _ hr => absurd hr List.not_mem_nil
  low_le := le_rfl

def networkLine (seq usec : Nat) (hseq : seq < 2 ^ 64) (husec : usec < 2 ^ 64) : Line .ascii :=
  ⟨String.ofList (printed 6 seq usec ['-'] "NET: Registered".toList []),
    timed_printed DigitTable.readsAscii_ascii (by decide) hseq husec (by decide) (by decide) []⟩

def registered : Line .ascii := networkLine 339 5140900 (by decide) (by decide)

def registeredAgain : Line .ascii := networkLine 340 5140901 (by decide) (by decide)

/-- One record is written and the cursor saved, the other is pending when the process is
killed; a new one reads them again. -/
def killedOnce : List (Event .ascii) :=
  [.printk registered, .launch Findings.new, .thread (.start {}), readTurn registered,
    .thread (.turn { read := .wouldBlock }), .save, .printk registeredAgain,
    readTurn registeredAgain, .kill none 0, .launch Findings.new, .thread (.start {}),
    readTurn registered, readTurn registeredAgain, .thread (.turn { read := .wouldBlock })]

theorem loses_no_record_killed :
    ∃ w, run step (begun emptyBuffer "boot") killedOnce = some w ∧
      records w.kernelLog = [⟨6, 339, 5140900, "NET: Registered"⟩,
        ⟨6, 340, 5140901, "NET: Registered"⟩] ∧
      (∀ p, w.process = some p → Exact .ascii p) ∧ Lags w ∧ CatchesUp w ∧
        ∀ during lines v, step w (.kill during lines) = some v → Recovers v := by
  have hlogged : ((run step (begun emptyBuffer "boot") killedOnce).map
      fun w => records w.kernelLog) = some [⟨6, 339, 5140900, "NET: Registered"⟩,
        ⟨6, 340, 5140901, "NET: Registered"⟩] := by decide +kernel
  obtain ⟨w, hrun, hrecords⟩ := Option.map_eq_some_iff.mp hlogged
  exact ⟨w, hrun, hrecords, loses_no_record emptyBuffer "boot" hrun⟩

end KernelLog
end PcCheck
