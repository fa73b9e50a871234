/-
The workloads of the phases (`phases.py`).

Every phase that puts a load on the machine, and the idle phase, which takes the load off it, is
written as a script of what it calls.  A phase judges its children by their exit codes and their
output; the rotation of the CPU stressors and the verdicts on an output are those of their own
modules.
-/
import PcCheck.Children
import PcCheck.Stressors

namespace PcCheck
namespace Workload

open JsonText Regex

/-! ## Phases -/

structure Phase where
  name : String
  duration : Int
  start : ℚ
  /-- The log directory of the session. -/
  logs : String

/-- What the phases use of the context. -/
structure Setup where
  iperf3 : String := ""
  bootDisk : String := ""
  /-- The disks that the disk manager keeps out of, where there is one. -/
  diskManager : Option (List String) := none

/-- What the phases take from the language. -/
structure Tables where
  chars : Kernel.CharTable
  digits : DigitTable

/-- `int(x)` -/
def truncate (q : ℚ) : Int := if q < 0 then ⌈q⌉ else ⌊q⌋

namespace Phase

variable (p : Phase)

def deadline : ℚ := p.start + p.duration

def remaining : Program ℚ := do return max 0 (p.deadline - (← monotonic))

def logfile (suffix : String) : String := s!"{p.logs}/{p.name}-{suffix}.log"

end Phase

def mib : Int := 2 ^ 20

/-- `(\w+):\s+(\d+)` -/
def meminfoRe (u : Tables) : Regex :=
  seqs [group 1 (plus (Kernel.word u.chars)), text ":", plus YCruncher.space,
    group 2 (plus (one u.digits.isDigit))]

def meminfoLine (u : Tables) (info : Dict String Int) (line : String) :
    Except PyError (Dict String Int) :=
  match YCruncher.matchLine (meminfoRe u) line 1, YCruncher.matchLine (meminfoRe u) line 2 with
  | some key, some digits => do return info.set key ((← u.digits.int digits) * 1024)
  | _, _ => return info

def meminfo (u : Tables) (file : String) : Except PyError (Dict String Int) :=
  (splitlines file).foldlM (meminfoLine u) Dict.empty

/-- The budget of a fraction of what is available, in MiB, if it is enough. -/
def budgetOf (info : Dict String Int) (fraction : ℚ) : Except PyError Int := do
  let total ← PyFloat.ofInt ((info.get? "MemTotal").getD 0)
  let reserve := max (768 * mib) (← (total.mul (PyFloat.ofRat (4 / 100))).toInt)
  let free ← PyFloat.ofInt (max 0 ((info.get? "MemAvailable").getD 0 - reserve))
  let budget := (← (free.mul (PyFloat.ofRat fraction)).toInt) / mib
  if budget < 64 then
    throw (.runtimeError "Insufficient available RAM for a verified workload plus the OS reserve")
  else return budget

def memBudgetMib (u : Tables) (fraction : ℚ) : Program Int := do
  let info ← ofExcept (meminfo u (← readFile "/proc/meminfo"))
  ofExcept (budgetOf info fraction)

/-- A workload has ended well before its time, by the clock. -/
def endedEarly (c : Child) (seconds : Int) : Program Bool := do
  let elapsed := PyFloat.ofRat ((← monotonic) - c.started)
  return elapsed.lt (← ofExcept (YCruncher.nineTenths seconds))

/-- A short run is a gap in the coverage, unless it is due to an abort. -/
def reportShort (c : Child) (rc seconds : Int) (call : String → AddCall) : Program Unit := do
  if rc = 0 then
    if ← endedEarly c seconds then
      if ← aborted then return ()
      else add call
    else return ()
  else return ()

/-! ## stress-ng -/

def stressngHangCall (label now : String) : AddCall :=
  { key := "stressng-hang:" ++ label, severity := .fail, component := "CPU/Memory",
    title := "stress-ng '" ++ label ++ "' did not finish (hung workload)",
    recommendation := recCpuMem, now := now }

def stressngShortCall (phase label now : String) : AddCall :=
  { key := "stressng-short:" ++ phase ++ ":" ++ label, severity := .warn, component := "Test",
    title := "stress-ng '" ++ label ++ "' ended before its allotted test time",
    incomplete := true, now := now }

/-- The end of a run that has not ended by itself. -/
def stopHung (c : Child) (call : String → AddCall) (turns : Nat) : Program Unit := do
  let abort ← aborted
  c.stop 45 .term turns
  if abort then return () else add call

def runStressng (p : Phase) (label : String) (args : List String) (seconds : ℚ) (turns : Nat) :
    Program (Option Int) := do
  let seconds := max 10 (truncate seconds)
  let c ← start (["stress-ng"] ++ args ++ ["--verify", "--metrics-brief", "--timeout",
    s!"{seconds}s", "--temp-path", "/tmp", "--oom-avoid"]) (p.logfile label)
  match ← c.wait ((← monotonic) + seconds + 300) true turns with
  | none =>
    stopHung c (stressngHangCall label) turns
    return none
  | some rc =>
    c.close
    let output ← c.outputTail 200000
    addAll (checkStressng p.name label rc output)
    reportShort c rc seconds (stressngShortCall p.name label)
    return some rc

/-- The loop of `CpuPhase.run`. -/
def cpuTurns (p : Phase) (slice : ℚ) (turns : Nat) : Nat → List Cpu.Stressor → Nat → Program Unit
  | 0, _, _ => .cut
  | n + 1, stressors, i => do
    if 20 < (← p.remaining) then
      if ← aborted then return ()
      else match Cpu.current stressors i with
        | none => add fun now => { Cpu.noWorkloadsCall with now := now }
        | some s => do
          let rc ← runStressng p s.label s.args (min slice (← p.remaining)) turns
          cpuTurns p slice turns n (if Cpu.removes rc then stressors.erase s else stressors) (i + 1)
    else return ()

/-- `CpuPhase.run` -/
def cpuRun (p : Phase) (turns : Nat) : Program Unit :=
  cpuTurns p (min 600 (max 45 ((p.duration : ℚ) / Cpu.cpuStressors.length))) turns turns
    Cpu.cpuStressors 0

/-! ## stressapptest -/

def satHangCall (phase now : String) : AddCall :=
  { key := "sat-hang:" ++ phase, severity := .fail, component := "CPU/Memory",
    title := "stressapptest hung", recommendation := recMemory, now := now }

def satShortCall (phase now : String) : AddCall :=
  { key := "sat-short:" ++ phase, severity := .warn, component := "Test",
    title := "stressapptest ended before its allotted test time", incomplete := true, now := now }

def satMissingCall (now : String) : AddCall :=
  { key := "sat-missing", severity := .warn, component := "Test",
    title := "stressapptest is unavailable", incomplete := true, now := now }

def runStressapptest (u : Tables) (p : Phase) (label : String) (seconds : ℚ) (mem : Int)
    (extra : List String) (turns : Nat) : Program Unit := do
  let seconds := max 30 (truncate seconds)
  let c ← start (["stressapptest", "-s", s!"{seconds}", "-M", s!"{mem}", "-v", "8"] ++ extra)
    (p.logfile label)
  match ← c.wait ((← monotonic) + seconds + 600) true turns with
  | none => stopHung c (satHangCall p.name) turns
  | some rc =>
    c.close
    let output ← c.outputTail 400000
    let calls ← ofExcept (checkStressapptest u.digits p.name rc output (← perform .nowIso))
    addEach calls
    reportShort c rc seconds (satShortCall p.name)

/-- `int(self.duration * 0.7)` -/
def satSeconds (duration : Int) : Except PyError Int := do
  ((← PyFloat.ofInt duration).mul (PyFloat.ofRat (7 / 10))).toInt

/-- What comes first in the memory phase. -/
def memorySat (u : Tables) (p : Phase) (seconds : Int) (turns : Nat) : Program Unit := do
  if ← which "stressapptest" then
    runStressapptest u p "stressapptest" seconds (← memBudgetMib u (92 / 100))
      ["-W", "-i", "2", "--pause_delay", "900", "--pause_duration", "15"] turns
  else add satMissingCall

/-- `MemoryPhase.run` -/
def memoryRun (u : Tables) (p : Phase) (turns : Nat) : Program Unit := do
  memorySat u p (← ofExcept (satSeconds p.duration)) turns
  if ← aborted then return ()
  else
    let budget ← memBudgetMib u (85 / 100)
    let workers := max 1 (min (min ((← cpuCount) : Int) 16) (budget / 64))
    let _ ← runStressng p "vm" ["--vm", s!"{workers}", "--vm-bytes", s!"{budget}M", "--vm-method",
      "all", "--vm-keep"] (← p.remaining) turns

/-! ## y-cruncher -/

def ycruncher : String := "/opt/y-cruncher/y-cruncher"

def ycruncherMissingCall (now : String) : AddCall :=
  { key := "ycruncher-missing", severity := .warn, component := "Test",
    title := "y-cruncher is unavailable; its scheduled coverage is missing",
    incomplete := true, now := now }

/-- `ycruncher.configuration` -/
def configuration (cores : List Int) (memory seconds : Int) : Except PyError Doc :=
  if cores = [] ∨ memory < 64 ∨ seconds < 1 then .error .valueError
  else .ok (.obj [("Action", .str "StressTest"), ("StressTest", .obj [
    ("AllocateLocally", .bool true),
    ("LogicalCores", .arr (cores.map fun c => .str s!"{c}")),
    ("TotalMemory", .num (.ofInt (memory * mib))),
    ("SecondsPerTest", .num (.ofInt
      (min 120 (max 1 (seconds / (2 * YCruncher.tests.length)))))),
    ("SecondsTotal", .num (.ofInt seconds)),
    ("StopOnError", .bool true),
    ("Tests", .arr (YCruncher.tests.map .str))])])

/-- What is run in the working directory: the exit code, the time it took and the evidence. -/
def ycruncherWork (u : Tables) (p : Phase) (seconds : Int) (config workdir : String)
    (turns : Nat) : Program (Option Int × ℚ × YCruncher.Evidence) := do
  let c ← start [ycruncher, "skip-warnings", "pause:-2", "colors:0", "status:none", "config",
    config] (p.logfile "stress") workdir
  let rc ← Script.tryFinally (do c.wait ((← monotonic) + seconds + 300) true turns)
    (c.stop 10 .term turns)
  let elapsed := (← monotonic) - c.started
  let file ← get (← perform (.readLog c.logfile))
  let evidence ← ofExcept (YCruncher.readEvidence (YCruncher.source u.chars u.digits) u.digits
    file c.proc.outputStart)
  return (rc, elapsed, evidence)

/-- `YCruncherPhase.check_result` -/
def ycruncherJudge (e : YCruncher.Evidence) (a : YCruncher.Trial) : Program Unit := do
  addEach (YCruncher.checkResult e a).1
  orRaise (YCruncher.checkResult e a).2.isNone

/-- `YCruncherPhase.run` where y-cruncher is there. -/
def ycruncherStress (u : Tables) (p : Phase) (turns : Nat) : Program Unit := do
  let cores ← perform .affinity
  let memory ← memBudgetMib u (85 / 100)
  let seconds := max 1 (truncate (← p.remaining))
  let config ← ofExcept (configuration cores memory seconds)
  let path := p.logs ++ "/ycruncher-config.json"
  orRaise (← perform (.writeJson path config))
  let workdir ← get (← perform .makeTemp)
  let (rc, elapsed, evidence) ← Script.tryFinally (ycruncherWork u p seconds path workdir turns)
    (do orRaise (← perform (.removeTemp workdir)))
  let now ← perform .nowIso
  let abort ← aborted
  let trial : YCruncher.Trial :=
    { cores := cores, seconds := seconds, elapsed := PyFloat.ofRat elapsed, rc := rc,
      aborted := abort, now := now }
  orRaise (← perform (.writeResult (p.logs ++ "/ycruncher-result.json") evidence trial memory))
  ycruncherJudge evidence trial

def ycruncherRun (u : Tables) (p : Phase) (turns : Nat) : Program Unit := do
  if ← executable ycruncher then ycruncherStress u p turns
  else add ycruncherMissingCall

/-! ## Prime95 -/

def mprime : String := "/opt/mprime/mprime"

def mprimeDir : String := "/tmp/mprime"

def mprimeMissingCall (now : String) : AddCall :=
  { key := "mprime-missing", severity := .warn, component := "Test",
    title := "Prime95 (mprime) not included in this image; ran extra stress-ng load instead",
    now := now }

def mprimeErrorRe (u : Tables) : Regex :=
  let nonzero := seq (YCruncher.between '1' '9') (star (one u.digits.isDigit))
  alts [YCruncher.caseless "FATAL ERROR", YCruncher.caseless "Hardware failure detected",
    YCruncher.caseless "Possible hardware failure",
    seqs [YCruncher.caseless "ROUND", opt (text " "), YCruncher.caseless "OFF"],
    YCruncher.caseless "SUM(INPUTS) != SUM(OUTPUTS)", YCruncher.caseless "TORTURE TEST FAILED",
    seqs [YCruncher.caseless "Rounding was ", star any, YCruncher.caseless " expected less than"],
    seqs [YCruncher.caseless "illegal ", alts [YCruncher.caseless "sumout",
      YCruncher.caseless "instruction"]],
    seqs [Kernel.edge u.chars, nonzero, YCruncher.caseless " error", opt (YCruncher.caseless "s"),
      text ", ", plus (one u.digits.isDigit), YCruncher.caseless " warning",
      opt (YCruncher.caseless "s")],
    seqs [YCruncher.caseless "Torture test", star any, nonzero, YCruncher.caseless " errors"]]

/-- `Self-test \S+ passed` -/
def selfTestRe : Regex :=
  seqs [text "Self-test ", plus (one fun c => !isSpace c), text " passed"]

def mprimeFailCall (errors : List String) (now : String) : AddCall :=
  { key := "mprime-fail", severity := .fail, component := "CPU/Memory",
    title := "Prime95 torture test detected calculation errors",
    detail := "Prime95 verifies FFT results; errors mean the CPU, memory or VRM produced " ++
      "wrong results under sustained AVX load.",
    recommendation := recCpuMem, evidence := errors.take 20, now := now }

def mprimeExitCall (rc : Option Int) (output now : String) : AddCall :=
  { key := "mprime-exit", severity := .warn, component := "Test",
    title := s!"mprime exited early (code {YCruncher.rcText rc})",
    evidence := lastOf 10 (splitlines (strip output)), incomplete := true, now := now }

def mprimeUnverifiedCall (now : String) : AddCall :=
  { key := "mprime-unverified", severity := .warn, component := "Test",
    title := "Prime95 produced no completed FFT self-tests", incomplete := true, now := now }

def primeTxt (threads : Nat) (mem : Int) : String :=
  "V24OptionsConverted=1\nV30OptionsConverted=1\nWGUID_version=2\nStressTester=1\n" ++
    "UsePrimenet=0\nOutputIterations=10000\nResultsFile=results.txt\n" ++
    s!"TortureThreads={threads}\nTortureHyperthreading=1\nTortureTime=6\n" ++
    s!"MinTortureFFT=4\nMaxTortureFFT=8192\nTortureMem={mem}\nTortureWeak=0\n"

/-- What is said where there are errors, and where the run was cut short. -/
def mprimeVerdict (p : Phase) (rc : Option Int) (errors : List String) (output : String) :
    Program Unit := do
  if errors ≠ [] then add (mprimeFailCall errors)
  else if rc.isSome then
    if (← monotonic) < p.deadline - 60 then
      if ← aborted then return ()
      else add (mprimeExitCall rc output)
    else return ()
  else return ()

def mprimeUnverified (errors : List String) (passed : Bool) : Program Unit := do
  if errors = [] ∧ passed = false then
    if ← aborted then return ()
    else add mprimeUnverifiedCall
  else return ()

def mprimeTorture (u : Tables) (p : Phase) (turns : Nat) : Program Unit := do
  orRaise (← perform (.makedirs mprimeDir))
  perform (.clear mprimeDir)
  let mem ← memBudgetMib u (75 / 100)
  let threads ← cpuCount
  orRaise (← perform (.writeFile (mprimeDir ++ "/prime.txt") (primeTxt threads mem)))
  let c ← start [mprime, "-t", "-W" ++ mprimeDir] (p.logfile "mprime") mprimeDir
  let rc ← c.wait p.deadline true turns
  c.stop 60 .int turns
  let tail ← c.outputTail 500000
  let results ← readFile (mprimeDir ++ "/results.txt")
  let _ ← perform (.copyFile (mprimeDir ++ "/results.txt") (p.logfile "results"))
  let output := tail ++ "\n" ++ results
  let errors := ((splitlines output).filter fun l => (search (mprimeErrorRe u) l).isSome).map strip
  mprimeVerdict p rc errors output
  mprimeUnverified errors (search selfTestRe output).isSome

/-- `MprimePhase.run` -/
def mprimeRun (u : Tables) (p : Phase) (turns : Nat) : Program Unit := do
  if ← executable mprime then mprimeTorture u p turns
  else
    add mprimeMissingCall
    let _ ← runStressng p "matrix-fallback" ["--matrix", "0", "--matrix-method", "all",
      "--vecwide", "0"] (← p.remaining) turns

/-! ## Load transients -/

/-- The ranges of the times with and without load, and how long a pattern is kept. -/
structure Pattern where
  name : String
  on : ℚ × ℚ
  off : ℚ × ℚ
  block : ℚ

def fastPattern : Pattern := ⟨"fast", (1 / 20, 1 / 2), (1 / 20, 1 / 2), 60⟩

def mediumPattern : Pattern := ⟨"medium", (2, 20), (1, 15), 300⟩

def slowPattern : Pattern := ⟨"slow", (30, 180), (20, 120), 900⟩

/-- `rng.choice(self.PATTERNS)` -/
def choosePattern : Program Pattern := do
  let i : Fin 3 ← perform (.choose 2)
  return [fastPattern, mediumPattern, slowPattern].get i

/-- The loop of `TransientPhase._sleep`. -/
def dozing (c : Child) (until_ : ℚ) : Nat → Program Unit
  | 0 => .cut
  | turns + 1 => do
    if (← monotonic) < until_ then
      match ← c.poll with
      | some _ => return ()
      | none =>
        if ← aborted then return ()
        else do
          perform (.sleep (min (1 / 2) (max 0 (until_ - (← monotonic)))))
          dozing c until_ turns
    else return ()

/-- `TransientPhase._sleep` -/
def doze (p : Phase) (c : Child) (seconds : ℚ) (turns : Nat) : Program Unit := do
  dozing c (min ((← monotonic) + seconds) p.deadline) turns

/-- The load steps of one pattern, and how many there are then. -/
def loadSteps (p : Phase) (c : Child) (pattern : Pattern) (blockEnd : ℚ) (turns : Nat) :
    Nat → Nat → Program Nat
  | 0, _ => .cut
  | n + 1, steps => do
    if (← monotonic) < blockEnd then
      match ← c.poll with
      | some _ => return steps
      | none =>
        if ← aborted then return steps
        else do
          c.sendSignal .cont
          doze p c (← uniform pattern.on) turns
          if p.deadline ≤ (← monotonic) then return steps
          else do
            c.sendSignal .stop
            doze p c (← uniform pattern.off) turns
            loadSteps p c pattern blockEnd turns n (steps + 2)
    else return steps

/-- The patterns that are applied, one after the other. -/
def patterns (p : Phase) (c : Child) (turns : Nat) : Nat → Nat → Program Nat
  | 0, _ => .cut
  | n + 1, steps => do
    match ← c.poll with
    | some _ => return steps
    | none =>
      if ← aborted then return steps
      else if 0 < (← p.remaining) then do
        let pattern ← choosePattern
        let steps ← loadSteps p c pattern (min p.deadline ((← monotonic) + pattern.block)) turns
          turns steps
        patterns p c turns n steps
      else return steps

def transientShortCall (now : String) : AddCall :=
  { key := "transient-short", severity := .warn, component := "Test",
    title := "Load transient workload exited early", incomplete := true, now := now }

def transientHangCall (now : String) : AddCall :=
  { key := "transient-hang", severity := .warn, component := "Test",
    title := "stress-ng did not stop after the transient phase", now := now }

def transientStepsCall (steps : Nat) (now : String) : AddCall :=
  { key := "transient-steps", severity := .info, component := "Power",
    title := s!"Load transient phase: {steps} load steps applied", now := now }

/-- `check_stressng` of a child that may have no exit code. -/
def checkCode (phase label : String) (rc : Option Int) (output now : String) : List AddCall :=
  match rc with
  | some rc => checkStressng phase label rc output now
  | none =>
    let failLines := ((splitlines output).filter stressngFailed).map strip
    if failLines ≠ [] then [stressngFailCall phase label 0 failLines now]
    else [{ stressngRcCall label 0 output now with
      title := "stress-ng '" ++ label ++ "' did not complete successfully (code None)" }]

def transientEarly (p : Phase) : Program Unit := do
  if 5 < (← p.remaining) then
    if ← aborted then return ()
    else add transientShortCall
  else return ()

/-- The exit code at the end of the phase, if the child can be brought to end. -/
def transientEnd (p : Phase) (c : Child) (turns : Nat) : Program (Option Int) := do
  match ← c.poll with
  | some rc =>
    transientEarly p
    return some rc
  | none =>
    c.sendSignal .int
    match ← c.wait ((← monotonic) + 120) false turns with
    | some rc => return some rc
    | none =>
      c.stop 45 .term turns
      add transientHangCall
      return none

/-- `TransientPhase.run` -/
def transientRun (u : Tables) (p : Phase) (turns : Nat) : Program Unit := do
  let budget ← memBudgetMib u (4 / 10)
  let workers := max 1 (min (min ((← cpuCount) : Int) 8) (budget / 64))
  let c ← start ["stress-ng", "--cpu", "0", "--cpu-method", "matrixprod", "--vm", s!"{workers}",
    "--vm-bytes", s!"{budget}M", "--vm-method", "all", "--verify", "--metrics-brief", "--timeout",
    s!"{p.duration + 900}s", "--temp-path", "/tmp", "--oom-avoid"] (p.logfile "stress-ng")
  let steps ← Script.tryFinally (patterns p c turns turns 0) (c.sendSignal .cont)
  let rc ← transientEnd p c turns
  c.close
  let output ← c.outputTail 200000
  addAll (checkCode p.name "transient" rc output)
  add (transientStepsCall steps)

/-! ## Idle -/

/-- `int(read_file(...).strip() or 0)`; a time that is no number counts for nothing. -/
def addIdle (t : DigitTable) (usage : Dict String Int) (state : String × String) :
    Dict String Int :=
  let name := strip state.1
  let seconds := strip state.2
  if seconds = "" then usage.set name ((usage.get? name).getD 0)
  else match t.int seconds with
    | .ok n => usage.set name ((usage.get? name).getD 0 + n)
    | .error _ => usage

def cstateUsage (u : Tables) : Program (Dict String Int) := do
  return (← perform .idleStates).foldl (addIdle u.digits) Dict.empty

/-- The idle states that were used, with their gain, in the order of their names. -/
def idleGains (before after : Dict String Int) : List (String × Int) :=
  (after.entries.filterMap fun e =>
    if (before.get? e.1).getD 0 < e.2 then some (e.1, e.2 - (before.get? e.1).getD 0)
    else none).insertionSort fun a b => a.1 ≤ b.1

def idleStatesCall (gains : List (String × Int)) (now : String) : AddCall :=
  { key := "idle-cstates", severity := .info, component := "CPU",
    title := "Idle states used during idle soak",
    evidence := gains.map fun e => e.1 ++ ": " ++
      (PyFloat.ofRat ((e.2 : ℚ) / 1000000)).formatWith PyFloat.fixed0 ++ " s total residency",
    now := now }

def idleUnverifiedCall (now : String) : AddCall :=
  { key := "idle-unverified", severity := .warn, component := "CPU",
    title := "No CPU idle-state residency could be verified",
    recommendation := "Check firmware C-state settings and turbostat residency logs.", now := now }

/-- The loop of `IdlePhase.run`. -/
def idling (p : Phase) : Nat → Program Unit
  | 0 => .cut
  | turns + 1 => do
    if 0 < (← p.remaining) then
      if ← aborted then return ()
      else do
        perform (.sleep (min 5 (← p.remaining)))
        idling p turns
    else return ()

/-- `if dm: dm.pause()` -/
def pauseScans (s : Setup) : Program Unit :=
  if s.diskManager.isSome then perform .pauseScans else return ()

/-- `if dm: dm.resume()` -/
def resumeScans (s : Setup) : Program Unit :=
  if s.diskManager.isSome then perform .resumeScans else return ()

/-- `IdlePhase.run` -/
def idleRun (u : Tables) (s : Setup) (p : Phase) (turns : Nat) : Program Unit := do
  let before ← cstateUsage u
  pauseScans s
  Script.tryFinally (idling p turns) (resumeScans s)
  let after ← cstateUsage u
  if idleGains before after ≠ [] then add (idleStatesCall (idleGains before after))
  else add idleUnverifiedCall

/-! ## Everything at once -/

/-- A load besides the memory test, with the file that its result is in, if there is one. -/
structure Load where
  label : String
  child : Child
  result : Option String

def fieldOf (d : List (String × Doc)) (key : String) : Option Doc := d.lookup key

/-- The number that a value is, for a comparison. -/
def numberOf (t : DigitTable) : Doc → Option PyFloat
  | .num l =>
    match l.toInt? with
    | some n => some (.finite n)
    | none => (t.float (String.ofList l.text)).toOption
  | .bool b => some (.finite (if b then 1 else 0))
  | _ => none

/-- `bool(x)` -/
def truthy (t : DigitTable) : Doc → Bool
  | .null => false
  | .bool b => b
  | .num l => decide (numberOf t (.num l) ≠ some (.finite 0))
  | .str s => s != ""
  | .arr items => !items.isEmpty
  | .obj fields => !fields.isEmpty

/-- `j.get("error") == 0 and ...` of one job; none where that raises. -/
def jobVerified (t : DigitTable) (duration : Int) : Doc → Option Bool
  | .obj job =>
    if ((fieldOf job "error").bind (numberOf t)) ≠ some (.finite 0) then some false
    else match (fieldOf job "read").getD (.obj []) with
      | .obj read => do
        let bytes ← numberOf t ((fieldOf read "io_bytes").getD (.num (.ofInt 0)))
        if (PyFloat.finite 0).lt bytes then
          let runtime ← numberOf t ((fieldOf read "runtime").getD (.num (.ofInt 0)))
          return (PyFloat.finite ((duration : ℚ) * 900)).le runtime
        else return false
      | _ => none
  | _ => none

def jobsVerified (t : DigitTable) (duration : Int) : List Doc → Option Bool
  | [] => some true
  | job :: jobs =>
    match jobVerified t duration job with
    | some true => jobsVerified t duration jobs
    | r => r

/-- The result of fio shows that every job has read for its time. -/
def fioVerified (t : DigitTable) (duration : Int) : Doc → Option Bool
  | .obj data =>
    if truthy t ((fieldOf data "jobs").getD (.arr [])) then
      match (fieldOf data "jobs").getD (.arr []) with
      | .arr jobs => jobsVerified t duration jobs
      | _ => none
    else some false
  | _ => none

/-- How the search for a direction that has carried its share ends. -/
inductive Flows where
  | found
  | none
  | typeError
  | raised
  deriving DecidableEq, Repr

def flows (t : DigitTable) (duration : Int) : List Doc → Flows
  | [] => .none
  | .obj v :: rest =>
    match numberOf t ((fieldOf v "bytes").getD (.num (.ofInt 0))) with
    | .none => .typeError
    | .some bytes =>
      if (PyFloat.finite 0).lt bytes then
        match YCruncher.nineTenths duration,
            numberOf t ((fieldOf v "seconds").getD (.num (.ofInt 0))) with
        | .error _, _ => .raised
        | .ok _, .none => .typeError
        | .ok limit, .some seconds => if limit.le seconds then .found else flows t duration rest
      else flows t duration rest
  | _ :: rest => flows t duration rest

/-- The end of the result of iperf3, which counts if nothing in it raises a `TypeError`. -/
def endVerified (t : DigitTable) (duration : Int) : Doc → Option Bool
  | .obj ends =>
    match flows t duration (ends.map Prod.snd) with
    | .found => some true
    | .none => some false
    | .typeError => some false
    | .raised => .none
  | d => if truthy t d then .none else some false

/-- The output of iperf3 from its first brace on shows that data was sent for its time. -/
def iperfVerified (t : DigitTable) (duration : Int) (output : String) : Option Bool :=
  match loads (output.toList.dropWhile (· != '\x7b')) with
  | some (.obj data) =>
    if truthy t ((fieldOf data "error").getD .null) then some false
    else endVerified t duration ((fieldOf data "end").getD (.obj []))
  | _ => some false

def fioCommand (path result : String) (seconds : Int) : List String :=
  ["fio", "--readonly", "--name=combined-read", "--filename=" ++ path, "--allow_file_create=0",
    "--rw=randread", "--bs=128k", "--direct=1", "--ioengine=libaio", "--iodepth=32",
    "--time_based=1", "--size=100%", s!"--runtime={seconds}", "--output-format=json",
    "--output=" ++ result]

/-- What is left of the phase, at least a second. -/
def secondsLeft (p : Phase) : Program Int := do return max 1 (truncate (← p.remaining))

def startFio (p : Phase) (disk : DiskRef) : Program Load := do
  let label := "disk-" ++ disk.name
  let result := p.logfile label ++ ".json"
  orRaise (← perform (.unlink result))
  let c ← start (fioCommand disk.path result (← secondsLeft p)) (p.logfile label)
  return ⟨label, c, some result⟩

/-- The loads that have been started, and whether all could be. -/
def launchDisks (p : Phase) : List DiskRef → List Load → Program (List Load × Bool)
  | [], loads => return (loads, true)
  | disk :: disks, loads => do
    match ← (startFio p disk).attempt with
    | none => return (loads, false)
    | some l => launchDisks p disks (loads ++ [l])

def notLoadedCall (now : String) : AddCall :=
  { key := "network-not-loaded", severity := .warn, component := "Network",
    title := "No iperf3 peer configured; network ports were not load-tested",
    recommendation := "Set iperf3 to a test peer; qualify every production port separately.",
    now := now }

def startIperf (s : Setup) (p : Phase) : Program Load := do
  let c ← start ["iperf3", "-c", s.iperf3, "--bidir", "-t", s!"{← secondsLeft p}", "-P", "4",
    "--json"] (p.logfile "iperf3")
  return ⟨"iperf3", c, none⟩

def launchNetwork (s : Setup) (p : Phase) (loads : List Load) : Program (List Load × Bool) := do
  if s.iperf3 = "" then
    add notLoadedCall
    return (loads, true)
  else match ← (startIperf s p).attempt with
    | none => return (loads, false)
    | some l => return (loads ++ [l], true)

def launch (s : Setup) (p : Phase) : Program (List Load × Bool) := do
  match ← perform (.blockDisks (s.diskManager.getD [s.bootDisk])) with
  | none => return ([], false)
  | some disks =>
    let started ← launchDisks p disks []
    if started.2 then launchNetwork s p started.1 else return started

/-- The result of a load. -/
def verify (u : Tables) (p : Phase) (l : Load) : Program Bool := do
  match l.result with
  | some path =>
    let file ← perform (.readText path)
    get (fioVerified u.digits p.duration
      (((file.map String.toList).bind loads).getD (.obj [])))
  | none => get (iperfVerified u.digits p.duration (← l.child.outputTail 500000))

def combinedLoadCall (label : String) (rc : Option Int) (output now : String) : AddCall :=
  { key := "combined-load:" ++ label, severity := .warn, component := "Test",
    title := s!"Combined {label} load did not complete (exit {YCruncher.rcText rc})",
    evidence := lastOf 10 (splitlines output), incomplete := true, now := now }

def reportLoad (l : Load) (rc : Option Int) (verified : Bool) : Program Unit := do
  if rc ≠ some 0 ∨ verified = false then
    let output ← l.child.outputTail 4000
    add (combinedLoadCall l.label rc output)
  else return ()

/-- The loads are judged one after the other, until there is an abort. -/
def judgeLoads (u : Tables) (p : Phase) (turns : Nat) : List Load → Program Unit
  | [] => return ()
  | l :: rest => do
    let rc ← l.child.wait (p.deadline + 120) true turns
    if ← aborted then return ()
    else do
      reportLoad l rc (← verify u p l)
      judgeLoads u p turns rest

/-- The memory test under load, and what the loads have come to. -/
def underLoad (u : Tables) (p : Phase) (loads : List Load) (turns : Nat) : Program Unit := do
  let seconds ← p.remaining
  let budget ← memBudgetMib u (85 / 100)
  let cpus ← cpuCount
  runStressapptest u p "stressapptest" seconds budget
    ["-W", "-C", s!"{max 1 (cpus / 2)}", "--pause_delay", "600", "--pause_duration", "10"] turns
  judgeLoads u p turns loads

/-- Whatever has happened, every load is stopped that is still running. -/
def release (turns : Nat) : List Load → Program Unit
  | [] => return ()
  | l :: rest => do
    match ← l.child.poll with
    | none => l.child.stop 45 .term turns
    | some _ => l.child.close
    release turns rest

/-- The body of the phase: the loads that were started, and whether no exception has ended it. -/
def combinedBody (u : Tables) (s : Setup) (p : Phase) (turns : Nat) :
    Program (List Load × Bool) := do
  let started ← launch s p
  if started.2 then
    let done ← (underLoad u p started.1 turns).attempt
    return (started.1, done.isSome)
  else return started

/-- `CombinedPhase.run` -/
def combinedRun (u : Tables) (s : Setup) (p : Phase) (turns : Nat) : Program Unit := do
  pauseScans s
  let body ← combinedBody u s p turns
  release turns body.1
  resumeScans s
  orRaise body.2

/-! ## The table of the phases -/

inductive Kind where
  | cpu
  | memory
  | ycruncher
  | mprime
  | transient
  | idle
  | combined
  deriving DecidableEq, Repr

def Kind.name : Kind → String
  | cpu => "cpu"
  | memory => "memory"
  | ycruncher => "ycruncher"
  | mprime => "mprime"
  | transient => "transient"
  | idle => "idle"
  | combined => "combined"

def runOf (u : Tables) (s : Setup) (p : Phase) (turns : Nat) : Kind → Program Unit
  | .cpu => cpuRun p turns
  | .memory => memoryRun u p turns
  | .ycruncher => ycruncherRun u p turns
  | .mprime => mprimeRun u p turns
  | .transient => transientRun u p turns
  | .idle => idleRun u s p turns
  | .combined => combinedRun u s p turns

/-- `PHASES[name](ctx, duration).run()` -/
def runPhase (u : Tables) (s : Setup) (logs : String) (k : Kind) (duration : Int) (turns : Nat) :
    Program Unit := do
  let now ← monotonic
  runOf u s { name := k.name, duration := duration, start := now, logs := logs } turns k

end Workload
end PcCheck
