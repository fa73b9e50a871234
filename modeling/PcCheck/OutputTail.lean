/-
What a workload is judged by (`ManagedProcess.output_tail`, `check_stressng` and
`check_stressapptest`).

The invocations of a workload append to one log file.  Each remembers where its own output
begins, and is judged by the end of the file from there on, cut to a number of bytes.
-/
import PcCheck.Text
import PcCheck.Calls
import PcCheck.Counters
import PcCheck.Ipmi
import PcCheck.Lib.Regex
import PcCheck.Lib.Utf8

namespace PcCheck
namespace Workload

open Regex

/-! ## The log file -/

/-- The line that `ManagedProcess` writes before the output of its child. -/
def header (now : String) (cmd : List String) : List UInt8 :=
  ("\n### " ++ now ++ " $ " ++ " ".intercalate cmd ++ "\n").toUTF8.toList

structure ManagedProcess where
  outputStart : Nat

/-- `ManagedProcess.__init__`: the file is opened at its end, and the header is appended. -/
def ManagedProcess.start (log : List UInt8) (now : String) (cmd : List String) :
    ManagedProcess × List UInt8 :=
  ({ outputStart := log.length }, log ++ header now cmd)

/-- The file as `open` finds it, if it does. -/
def ManagedProcess.outputTail (p : ManagedProcess) (log : Option (List UInt8)) (maxBytes : Int) :
    String :=
  match log with
  | none => ""
  | some bytes =>
    String.ofList (Utf8.decode (bytes.drop (max (p.outputStart : Int)
      (bytes.length - maxBytes)).toNat))

/-- One invocation: when it starts and with what, what its child writes, piece by piece, and
whether the file can be opened afterwards. -/
structure Invocation where
  now : String
  cmd : List String
  writes : List (List UInt8)
  readable : Bool

namespace Invocation

variable (i : Invocation)

def written : List UInt8 := header i.now i.cmd ++ i.writes.flatten

/-- The file after the child has written. -/
def log (old : List UInt8) : List UInt8 :=
  i.writes.foldl (· ++ ·) (ManagedProcess.start old i.now i.cmd).2

/-- The text stands in what the invocation has written, its header included. -/
def Wrote (s : String) : Prop := s.toList.map Utf8.byteOf <:+: i.written

/-- What `output_tail` returns after an invocation that began with an old file. -/
def tail (old : List UInt8) (maxBytes : Int) : String :=
  (ManagedProcess.start old i.now i.cmd).1.outputTail
    (if i.readable then some (i.log old) else none) maxBytes

end Invocation

/-! ## The verdicts -/

/-- `l[-n:]` -/
def lastOf {α : Type*} (n : Nat) (l : List α) : List α := l.drop (l.length - n)

def stressngFailRe : List (List String) :=
  [["verif"], ["checksum"], ["mismatch"], ["miscompar"], ["killed by signal"], ["SIGSEGV"],
    ["SIGILL"], ["SIGBUS"]]

def stressngFailed (line : String) : Bool :=
  decide (Occurs "stress-ng: fail:" line) ||
    (decide (Occurs "stress-ng: error:" line) && Ipmi.search stressngFailRe line)

def stressngFailCall (phase label : String) (rc : Int) (failLines : List String) (now : String) :
    AddCall :=
  { key := s!"stressng-fail:{phase}:{label}", severity := .fail, component := "CPU/Memory",
    title := "stress-ng '" ++ label ++ "' detected a computation/verification failure",
    detail := "A stress workload produced wrong results or crashed. This is the typical " ++
      "symptom of an unstable CPU, memory, VRM or overclock/XMP settings.",
    recommendation := recCpuMem,
    evidence := if failLines = [] then [s!"exit code {rc}"] else lastOf 15 failLines,
    now := now }

def stressngUnsupportedCall (label now : String) : AddCall :=
  { key := "stressng-unsupported:" ++ label, severity := .warn, component := "Test",
    title := "stress-ng '" ++ label ++ "' is unsupported on this platform", now := now }

def stressngRcCall (label : String) (rc : Int) (output now : String) : AddCall :=
  { key := "stressng-rc:" ++ label, severity := .warn, component := "Test",
    title := "stress-ng '" ++ label ++ s!"' did not complete successfully (code {rc})",
    incomplete := true,
    evidence := lastOf 10 ((splitlines output).filter fun l => decide (Occurs "error" l.toLower)),
    now := now }

def checkStressng (phase label : String) (rc : Int) (output now : String) : List AddCall :=
  let failLines := ((splitlines output).filter stressngFailed).map strip
  if rc = 2 ∨ rc = 5 ∨ failLines ≠ [] then [stressngFailCall phase label rc failLines now]
  else if rc = 4 then [stressngUnsupportedCall label now]
  else if rc ≠ 0 ∨ ¬ Occurs "successful run completed" output then
    [stressngRcCall label rc output now]
  else []

/-- `Found (\d+) hardware incidents` -/
def incidentsRe (t : DigitTable) : Regex :=
  seqs [text "Found ", group 1 (plus (one t.isDigit)), text " hardware incidents"]

/-- `Hardware Error|Report Error|miscompare|Error: .*(?:DIMM|CPU)|Status: FAIL` -/
def satErrorRe : Regex :=
  alts [text "Hardware Error", text "Report Error", text "miscompare",
    seqs [text "Error: ", star any, alts [text "DIMM", text "CPU"]], text "Status: FAIL"]

/-- The number of incidents that the output names, if it names one. -/
def incidents (t : DigitTable) (output : String) : Except PyError Int :=
  match (search (incidentsRe t) output).bind (·.captured 1) with
  | some digits => t.int (String.ofList digits)
  | none => .ok 0

def satFailCall (phase : String) (incidents : Int) (errors : List String) (now : String) :
    AddCall :=
  { key := "sat-fail:" ++ phase, severity := .fail, component := "Memory",
    title := "stressapptest found " ++ (if incidents = 0 then "some" else toString incidents) ++
      " memory/CPU data errors",
    detail := "stressapptest (Google's server burn-in tool) detected corrupted data. " ++
      "The DIMM or CPU memory controller is unstable.",
    recommendation := recMemory, evidence := errors.take 25, now := now }

def satRcCall (phase : String) (rc : Int) (output now : String) : AddCall :=
  { key := "sat-rc:" ++ phase, severity := .warn, component := "Test",
    title := s!"stressapptest did not complete successfully (exit code {rc})",
    incomplete := true, evidence := lastOf 10 (splitlines (strip output)), now := now }

def checkStressapptest (t : DigitTable) (phase : String) (rc : Int) (output now : String) :
    Except PyError (List AddCall) := do
  let found ← incidents t output
  let errors := ((splitlines output).filter fun l => (search satErrorRe l).isSome).map strip
  if found ≠ 0 ∨ errors ≠ [] ∨ Occurs "Status: FAIL" output then
    return [satFailCall phase found errors now]
  else if rc ≠ 0 ∨ ¬ Occurs "Status: PASS" output then return [satRcCall phase rc output now]
  else return []

/-! ## The tail -/

theorem log_eq (i : Invocation) (old : List UInt8) : i.log old = old ++ i.written := by
  have happend : ∀ (writes : List (List UInt8)) (file : List UInt8),
      writes.foldl (· ++ ·) file = file ++ writes.flatten := by
    intro writes
    induction writes with
    | nil => intro file; exact (List.append_nil file).symm
    | cons w rest ih =>
      intro file
      rw [List.foldl_cons, ih, List.flatten_cons, List.append_assoc]
  unfold Invocation.log Invocation.written ManagedProcess.start
  rw [happend, List.append_assoc]

/-- Dropping from where the output begins, or from further on, leaves nothing of what came
before. -/
theorem drop_old (old new : List UInt8) (maxBytes : Int) :
    (old ++ new).drop (max (old.length : Int) ((old ++ new).length - maxBytes)).toNat =
      new.drop (max (0 : Int) (new.length - maxBytes)).toNat := by
  have hstart : (max (old.length : Int) ((old ++ new).length - maxBytes)).toNat =
      old.length + (max (0 : Int) (new.length - maxBytes)).toNat := by
    rw [List.length_append, Nat.cast_add]
    omega
  rw [hstart, List.drop_length_add_append]

/-- The tail is that of what the invocation has written. -/
theorem tail_eq (i : Invocation) (old : List UInt8) (maxBytes : Int) :
    i.tail old maxBytes =
      if i.readable then
        String.ofList (Utf8.decode (i.written.drop (max (0 : Int)
          (i.written.length - maxBytes)).toNat))
      else "" := by
  unfold Invocation.tail
  cases i.readable with
  | false => rfl
  | true =>
    show String.ofList (Utf8.decode ((i.log old).drop
      (max (old.length : Int) ((i.log old).length - maxBytes)).toNat)) = _
    rw [log_eq, drop_old]
    rfl

/-- A text of ASCII that stands in the tail has been written by the invocation. -/
theorem written_of_occurs {i : Invocation} {old : List UInt8} {maxBytes : Int} {s : String}
    (hne : s ≠ "") (hascii : s.toList.all (fun c => decide (c.toNat < 0x80)) = true)
    (h : Occurs s (i.tail old maxBytes)) : i.Wrote s := by
  have hbytes : ∀ c ∈ s.toList, c.toNat < 0x80 := by
    intro c hc
    exact of_decide_eq_true (List.all_eq_true.mp hascii c hc)
  rw [tail_eq] at h
  cases hread : i.readable with
  | false =>
    rw [hread] at h
    have hnil : s.toList = [] := List.infix_nil.mp h
    exact absurd (String.toList_eq_nil_iff.mp hnil) hne
  | true =>
    rw [hread, if_pos rfl, Occurs, String.toList_ofList] at h
    exact (Utf8.infix_of_decode hbytes h).trans (List.drop_suffix _ _).isInfix

/-! ## What passes -/

/-- Without a finding, the success has been read in the output. -/
theorem occurs_of_checkStressng {phase label output now : String} {rc : Int}
    (h : checkStressng phase label rc output now = []) :
    Occurs "successful run completed" output := by
  unfold checkStressng at h
  dsimp only at h
  split at h
  · cases h
  · split at h
    · cases h
    · split at h
      · cases h
      next hend => exact not_not.mp (not_or.mp hend).2

theorem occurs_of_checkStressapptest {t : DigitTable} {phase output now : String} {rc : Int}
    (h : checkStressapptest t phase rc output now = .ok []) : Occurs "Status: PASS" output := by
  unfold checkStressapptest at h
  cases hfound : incidents t output with
  | error e =>
    rw [hfound] at h
    cases h
  | ok found =>
    rw [hfound] at h
    change (if _ then Except.ok _ else if _ then Except.ok _ else Except.ok _) = _ at h
    split at h
    · cases h
    · split at h
      · cases h
      next hend => exact not_not.mp (not_or.mp hend).2

/-- The output of an earlier invocation has no part in what is read after a later one, nor in
the findings, and none but its own success passes it. -/
theorem old_output_forgotten (i : Invocation) (old old' : List UInt8) (maxBytes : Int) :
    i.tail old maxBytes = i.tail old' maxBytes ∧
    (∀ (fs : Findings) (phase label now : String) (rc : Int),
      fs.addAll (checkStressng phase label rc (i.tail old maxBytes) now) =
        fs.addAll (checkStressng phase label rc (i.tail old' maxBytes) now)) ∧
    (∀ (t : DigitTable) (fs : Findings) (phase now : String) (rc : Int),
      (checkStressapptest t phase rc (i.tail old maxBytes) now).map fs.addAll =
        (checkStressapptest t phase rc (i.tail old' maxBytes) now).map fs.addAll) ∧
    (∀ (phase label now : String) (rc : Int),
      checkStressng phase label rc (i.tail old maxBytes) now = [] →
        i.Wrote "successful run completed") ∧
    (∀ (t : DigitTable) (phase now : String) (rc : Int),
      checkStressapptest t phase rc (i.tail old maxBytes) now = .ok [] →
        i.Wrote "Status: PASS") := by
  have htail : i.tail old maxBytes = i.tail old' maxBytes := by
    rw [tail_eq, tail_eq]
  refine ⟨htail, ?_, ?_, ?_, ?_⟩
  · intro fs phase label now rc
    rw [htail]
  · intro t fs phase now rc
    rw [htail]
  · intro phase label now rc h
    exact written_of_occurs (by decide) (by decide) (occurs_of_checkStressng h)
  · intro t phase now rc h
    exact written_of_occurs (by decide) (by decide) (occurs_of_checkStressapptest h)

/-- A run that fails, after one that passed. -/
def failedRun : Invocation :=
  { now := "2026-01-01T00:00:00+00:00", cmd := ["stressapptest"],
    writes := ["initialization failed".toUTF8.toList], readable := true }

example : ¬ Occurs "Status: PASS" (failedRun.tail ("Status: PASS\n".toUTF8.toList) 200000) := by
  decide +kernel

end Workload
end PcCheck
