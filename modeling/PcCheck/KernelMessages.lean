/-
The handling of one message of the kernel (`KmsgMonitor._process` of `kmsg.py`).

`heard` says what a message adds to the findings, with the threshold of its rule, and
`process` makes the call and raises the finding that has reached the threshold.  The store is
the one in memory: the writes of the findings file change nothing that is read here.
-/
import PcCheck.KernelRules
import Mathlib.Data.List.TakeWhile

namespace PcCheck
namespace Kernel

/-- What `_process` reads of the context. -/
structure Context where
  opts : Options
  bootDisk : String := ""
  unexpectedReboot : Bool := false
  sysfsCounters : List Counter := []

/-- `BOOT_WINDOW`. -/
def bootWindow : PyFloat := .finite 120

/-- `f"{seconds:10.3f}"`. -/
def stamp (seconds : PyFloat) : String :=
  let text := match seconds with
    | .finite q =>
      let thousandths := PyFloat.roundEven (|q| * 1000)
      let fraction := (toString (1000 + thousandths % 1000)).toList.tail
      (if q < 0 then "-" else "") ++ toString (thousandths / 1000) ++ "." ++
        String.ofList fraction
    | .inf negative => if negative then "-inf" else "inf"
    | .nan => "nan"
  String.ofList (List.replicate (10 - text.length) ' ') ++ text

/-- `re.sub(r"\d+", "#", message)`; the flag says that the last character was a digit. -/
def squashDigits (u : CharTable) : Bool → List Char → List Char
  | _, [] => []
  | inRun, c :: rest =>
    if u.isDigit c then
      if inRun then squashDigits u true rest else '#' :: squashDigits u true rest
    else c :: squashDigits u false rest

def criticalCall (u : CharTable) (message now : String) : AddCall :=
  let norm := String.ofList ((squashDigits u false message.toList).take 80)
  { key := "kmsg-crit:" ++ norm, severity := .warn, component := "System",
    title := "Critical kernel message", evidence := [message], now := now }

/-- What a finding is recorded under. -/
structure Entry where
  key : String
  severity : Severity
  title : String
  deriving DecidableEq, Repr

/-- The rules whose messages can be about the boot disk. -/
def storageRules : List String := ["disk-io-error", "disk-medium", "nvme-timeout", "sata-link"]

namespace Context

variable (ctx : Context)

/-- `ctx.boot_disk and ctx.boot_disk in message`. -/
def namesBootDisk (message : String) : Bool :=
  decide (ctx.bootDisk ≠ "" ∧ ctx.bootDisk.toList <:+: message.toList)

/-- A monitor of sysfs owns the count of the rule. -/
def owns (rule : Rule) : Bool := rule.counter.any fun c => decide (c ∈ ctx.sysfsCounters)

def threshold (id : String) : Option Int :=
  if id = "mce-corrected" ∨ id = "ghes-corrected" then some ctx.opts.mceFail
  else if id = "edac-ce" then some ctx.opts.ceFail
  else if id = "aer-corrected" then
    if Counter.aer ∈ ctx.sysfsCounters then none else some ctx.opts.aerFail
  else if id = "sata-link" then some ctx.opts.sataLinkFail
  else none

end Context

namespace Rule

variable (rule : Rule)

/-- The entry of a rule for a device, which is empty where the rule splits nothing. -/
def plainEntry (dev : String) : Entry :=
  { key := if dev ≠ "" then rule.id ++ ":" ++ dev else rule.id,
    severity := rule.severity,
    title := rule.title ++ if dev ≠ "" then " (" ++ dev ++ ")" else "" }

def bootEntry (title : String) : Entry :=
  { key := rule.id ++ "-boot", severity := .warn, title := title }

def bootDiskEntry : Entry :=
  { key := "bootdisk:" ++ rule.id, severity := .warn,
    title :=
      "I/O errors on the PC-Check USB boot device (USB stick/port, not the tested hardware)" }

def entry (ctx : Context) (dev message : String) (atBoot : Bool) : Entry :=
  let e := match atBoot, rule.bootTitle with
    | true, some title => rule.bootEntry title
    | _, _ => rule.plainEntry dev
  let e := if rule.id = "bert" ∧ ctx.unexpectedReboot = true then
      { e with
        severity := .fail
        title := "Firmware recorded the fatal hardware error that reset the machine (BERT)" }
    else e
  if rule.id ∈ storageRules ∧ ctx.namesBootDisk message = true then rule.bootDiskEntry else e

/-- The call on the findings.  An owned count makes it evidence only, and the monitor of the
memory controllers reports corrected errors itself. -/
def call (ctx : Context) (dev message : String) (seconds : PyFloat) (now : String) :
    Option AddCall :=
  let e := rule.entry ctx dev message (seconds.lt bootWindow)
  let owned := ctx.owns rule
  if owned = true ∧ rule.counter = some .edac ∧ rule.severity ≠ .fail then none
  else some
    { key := if owned = true ∧ rule.counter = some .throttle then "thermal-throttle" else e.key,
      severity := e.severity, component := rule.component, title := e.title,
      recommendation := rule.recommendation,
      evidence := ["[" ++ stamp seconds ++ "] " ++ message],
      count := if owned then 0 else 1, now := now }

end Rule

/-- What a message adds to the findings, with the threshold of its rule. -/
def heard (u : CharTable) (ctx : Context) (level : Int) (seconds : PyFloat)
    (message now : String) : Option (AddCall × Option Int) :=
  match classify u message with
  | none => if level ≤ 2 then some (criticalCall u message now, none) else none
  | some (rule, found) =>
    if seconds.lt bootWindow = true ∧ rule.ignoreAtBoot = true then none
    else (rule.call ctx (deviceKey u rule found message) message seconds now).map fun c =>
      (c, ctx.threshold rule.id)

def process (u : CharTable) (ctx : Context) (fs : Findings) (level : Int) (seconds : PyFloat)
    (message now : String) : Findings :=
  match heard u ctx level seconds message now with
  | none => fs
  | some (c, limit) =>
    let fs' := (fs.record c).1
    match limit with
    | none => fs'
    | some n =>
      if n ≠ 0 ∧ c.severity = .warn ∧ ¬ "-boot".toList <:+ c.key.toList ∧ n ≤ fs'.countOf c.key
      then fs'.raise { key := c.key, severity := .fail }
      else fs'

/-! ## The table of rules -/

namespace Rule

/-- Everything of a rule that decides where its messages are recorded, but its pattern. -/
def traits (rule : Rule) :
    String × Severity × Option Counter × Option String × Option KeyGroup × Bool :=
  (rule.id, rule.severity, rule.counter, rule.bootTitle, rule.keyGroup, rule.ignoreAtBoot)

/-- Nothing of a rule but its pattern depends on the character table. -/
theorem map_traits (u : CharTable) : (rules u).map traits = (rules ascii).map traits := rfl

theorem traits_mem {u : CharTable} {rule : Rule} (h : rule ∈ rules u) :
    rule.traits ∈ (rules ascii).map traits := by
  rw [← map_traits u]
  exact List.mem_map_of_mem h

theorem id_plain {u : CharTable} {rule : Rule} (h : rule ∈ rules u) :
    ':' ∉ rule.id.toList ∧ ':' ∉ (rule.id ++ "-boot").toList := by
  have hall : ∀ t ∈ (rules ascii).map traits,
      ':' ∉ t.1.toList ∧ ':' ∉ (t.1 ++ "-boot").toList := by decide +kernel
  exact hall rule.traits (traits_mem h)

end Rule

theorem mem_of_firstMatch {message : String} {l : List Rule} {rule : Rule} {m : Regex.Position}
    (h : firstMatch message l = some (rule, m)) :
    rule ∈ l ∧ Regex.search rule.re message = some m := by
  induction l with
  | nil => cases h
  | cons r rest ih =>
    simp only [firstMatch] at h
    split at h
    · rename_i found hfound
      cases h
      exact ⟨List.mem_cons_self, hfound⟩
    · exact ⟨List.mem_cons_of_mem r (ih h).1, (ih h).2⟩

theorem mem_of_classify {u : CharTable} {message : String} {rule : Rule} {m : Regex.Position}
    (h : classify u message = some (rule, m)) :
    rule ∈ rules u ∧ Regex.search rule.re message = some m :=
  mem_of_firstMatch h

/-- The part of a key before its first colon. -/
def family (key : String) : List Char := key.toList.takeWhile (· ≠ ':')

theorem family_append {s : String} (t : String) (h : ':' ∉ s.toList) :
    family (s ++ ":" ++ t) = s.toList := by
  have hcolon : (":" ++ t).toList = ':' :: t.toList := by
    rw [String.toList_append]
    rfl
  have hall : ∀ c ∈ s.toList, decide (c ≠ ':') = true := by
    intro c hc
    simp only [ne_eq, decide_not, Bool.not_eq_true', decide_eq_false_iff_not]
    rintro rfl
    exact h hc
  rw [family, String.append_assoc, String.toList_append, hcolon,
    List.takeWhile_append_of_pos hall]
  simp

theorem family_of_not_mem {s : String} (h : ':' ∉ s.toList) : family s = s.toList := by
  refine List.takeWhile_eq_self_iff.mpr fun c hc => ?_
  simp only [ne_eq, decide_not, Bool.not_eq_true', decide_eq_false_iff_not]
  rintro rfl
  exact h hc

namespace Rule

theorem family_plainEntry {u : CharTable} {rule : Rule} (h : rule ∈ rules u) (dev : String) :
    family (rule.plainEntry dev).key = rule.id.toList := by
  unfold plainEntry
  dsimp only
  split
  · exact family_append dev (id_plain h).1
  · exact family_of_not_mem (id_plain h).1

/-- The keys a rule records under. -/
theorem entry_key (rule : Rule) (ctx : Context) (dev message : String) (atBoot : Bool) :
    (rule.entry ctx dev message atBoot).key = (rule.plainEntry dev).key ∨
      (rule.entry ctx dev message atBoot).key = rule.id ++ "-boot" ∨
      (rule.entry ctx dev message atBoot).key = "bootdisk:" ++ rule.id := by
  unfold entry
  dsimp only
  split
  · exact Or.inr (Or.inr rfl)
  · cases atBoot with
    | false => split <;> exact Or.inl rfl
    | true =>
      cases rule.bootTitle with
      | none => split <;> exact Or.inl rfl
      | some title => split <;> exact Or.inr (Or.inl rfl)

end Rule

end Kernel
end PcCheck
