/-
The children that a phase runs (`ManagedProcess` of `util.py`).

A child is started in a process group of its own, is waited for up to a deadline, and is stopped
by a signal and, where that does not help, by a kill.  What it does meanwhile is the machine's
affair, so all of this is a script.  A loop that waits takes a number of turns, and is cut off
when these are used up.  Times are rational numbers: the rounding of a sum of times is left out.
-/
import PcCheck.YCruncher
import PcCheck.Lib.JsonText
import PcCheck.Lib.Machine

namespace PcCheck
namespace Workload

/-! ## What a phase calls -/

inductive Signal where
  | cont
  | stop
  | term
  | int
  | kill
  deriving DecidableEq, Repr

structure DiskRef where
  name : String
  path : String
  deriving DecidableEq, Repr

inductive Op where
  /-- Open a log to append to it, and tell where it ends. -/
  | openLog (path : String)
  | appendLog (path : String) (bytes : List UInt8)
  | closeLog (path : String)
  /-- The log as `open` finds it, if it does. -/
  | readLog (path : String)
  /-- Start a child in a session of its own; none where that fails. -/
  | spawn (cmd : List String) (cwd : String)
  | poll (pid : Nat)
  | killpg (pid : Nat) (sig : Signal)
  /-- Wait half a minute for a child that was killed. -/
  | reap (pid : Nat)
  | monotonic
  | sleep (seconds : ℚ)
  | nowIso
  /-- Whether an abort has been requested. -/
  | aborted
  | add (c : AddCall)
  | pauseScans
  | resumeScans
  | blockDisks (exclude : List String)
  | choose (n : Nat)
  | uniform (low high : ℚ)
  | cpuCount
  | affinity
  | which (tool : String)
  | executable (path : String)
  /-- `read_file`, empty where there is no file. -/
  | readFile (path : String)
  /-- A file as a text, if it can be read as one. -/
  | readText (path : String)
  | writeFile (path text : String)
  | writeJson (path : String) (doc : JsonText.Doc)
  /-- Write the evidence of a y-cruncher run, with what the phase adds to it. -/
  | writeResult (path : String) (e : YCruncher.Evidence) (a : YCruncher.Trial) (memory : Int)
  | copyFile (source target : String)
  /-- Remove a file that may be missing. -/
  | unlink (path : String)
  | makedirs (path : String)
  /-- Remove what can be removed of a directory. -/
  | clear (path : String)
  | makeTemp
  | removeTemp (path : String)
  /-- The name and the time of every idle state of every CPU. -/
  | idleStates

/-- An operation that can fail answers with none, or with false. -/
def Op.Answer : Op → Type
  | openLog _ => Option Nat
  | appendLog _ _ => Bool
  | closeLog _ => Unit
  | readLog _ => Option (List UInt8)
  | spawn _ _ => Option Nat
  | poll _ => Option Int
  | killpg _ _ => Unit
  | reap _ => Option Int
  | monotonic => ℚ
  | sleep _ => Unit
  | nowIso => String
  | aborted => Bool
  | add _ => Unit
  | pauseScans => Unit
  | resumeScans => Unit
  | blockDisks _ => Option (List DiskRef)
  | choose n => Fin (n + 1)
  | uniform _ _ => ℚ
  | cpuCount => Nat
  | affinity => List Int
  | which _ => Bool
  | executable _ => Bool
  | readFile _ => String
  | readText _ => Option String
  | writeFile _ _ => Bool
  | writeJson _ _ => Bool
  | writeResult _ _ _ _ => Bool
  | copyFile _ _ => Bool
  | unlink _ => Bool
  | makedirs _ => Bool
  | clear _ => Unit
  | makeTemp => Option String
  | removeTemp _ => Bool
  | idleStates => List (String × String)

abbrev Program := Script Op.Answer

abbrev History := Script.Trace Op.Answer

def perform (op : Op) : Program op.Answer := Script.perform op

/-- What fails ends the script with an exception. -/
def orRaise (ok : Bool) : Program Unit := if ok then pure () else .raise

def get {α : Type} : Option α → Program α
  | some a => pure a
  | none => .raise

def ofExcept {ε α : Type} : Except ε α → Program α
  | .ok a => pure a
  | .error _ => .raise

def monotonic : Program ℚ := perform .monotonic

def aborted : Program Bool := perform .aborted

def which (tool : String) : Program Bool := perform (.which tool)

def executable (path : String) : Program Bool := perform (.executable path)

def cpuCount : Program Nat := perform .cpuCount

def readFile (path : String) : Program String := perform (.readFile path)

def uniform (range : ℚ × ℚ) : Program ℚ := perform (.uniform range.1 range.2)

/-- A call of `Findings.add`, which reads the time itself. -/
def add (c : String → AddCall) : Program Unit := do perform (.add (c (← perform .nowIso)))

def addEach : List AddCall → Program Unit
  | [] => pure ()
  | c :: cs => do
    perform (.add c)
    addEach cs

/-- The calls of a judgement that is made at one time. -/
def addAll (cs : String → List AddCall) : Program Unit := do addEach (cs (← perform .nowIso))

/-! ## The child -/

structure Child where
  pid : Nat
  logfile : String
  proc : ManagedProcess
  started : ℚ

/-- The child of a log that has been opened. -/
def spawn (cmd : List String) (logfile cwd : String) : Program Nat := do
  match ← perform (.spawn cmd cwd) with
  | some pid => return pid
  | none =>
    perform (.closeLog logfile)
    .raise

/-- `ManagedProcess(cmd, logfile, cwd)` -/
def start (cmd : List String) (logfile : String) (cwd : String := "") : Program Child := do
  let size ← get (← perform (.openLog logfile))
  let now ← perform .nowIso
  orRaise (← perform (.appendLog logfile (header now cmd)))
  let pid ← spawn cmd logfile cwd
  return { pid := pid, logfile := logfile, proc := ⟨size⟩, started := ← monotonic }

namespace Child

variable (c : Child)

def poll : Program (Option Int) := perform (.poll c.pid)

/-- A group that has gone is no error. -/
def sendSignal (sig : Signal) : Program Unit := perform (.killpg c.pid sig)

def close : Program Unit := perform (.closeLog c.logfile)

def outputTail (maxBytes : Int) : Program String := do
  return c.proc.outputTail (← perform (.readLog c.logfile)) maxBytes

/-- `stop_event.is_set()`, where there is a `stop_event`. -/
def heeded (heeds : Bool) : Program Bool := if heeds then aborted else pure false

/-- `wait(deadline, stop_event)`: the exit code, or none if the child is still running. -/
def wait (deadline : ℚ) (heeds : Bool) : Nat → Program (Option Int)
  | 0 => .cut
  | turns + 1 => do
    match ← c.poll with
    | some rc => return some rc
    | none =>
      if deadline ≤ (← monotonic) then return none
      else if ← heeded heeds then return none
      else do
        perform (.sleep 1)
        wait deadline heeds turns

/-- The child is given until then to end by itself. -/
def await (until_ : ℚ) : Nat → Program Unit
  | 0 => .cut
  | turns + 1 => do
    match ← c.poll with
    | some _ => return ()
    | none =>
      if (← monotonic) < until_ then do
        perform (.sleep (1 / 2))
        await until_ turns
      else return ()

/-- The end of `stop` for a child that has been given its time. -/
def finish : Program Unit := do
  match ← c.poll with
  | some _ => c.close
  | none =>
    c.sendSignal .kill
    let _ ← perform (.reap c.pid)
    c.close

/-- `stop(grace, sig)` -/
def stop (grace : ℚ) (sig : Signal) (turns : Nat) : Program Unit := do
  match ← c.poll with
  | some _ => c.close
  | none =>
    c.sendSignal .cont
    c.sendSignal sig
    c.await ((← monotonic) + grace) turns
    c.finish

end Child

end Workload
end PcCheck
