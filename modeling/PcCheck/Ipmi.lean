/-
The BMC event log (`IpmiMonitor` and `classify_sel` of `monitors.py`).

`ipmitool sel elist` lists one record a line, its id before the first bar.  The monitor
remembers the digests of the lines it has met, without their ids: those of the log before
the test from `baseline`, and those of every later poll.  A line whose digest it knows is
passed over, and any other is classified and added to the findings.  The session keeps the
digests over restarts and reboots.  A search for one of the patterns ignores case, and a
`.*` between two pieces lets any text stand there.
-/
import PcCheck.Store
import PcCheck.Config
import PcCheck.Lib.Firsts

namespace PcCheck
namespace Ipmi

open Firsts

/-! ## Patterns -/

/-- What follows the first occurrence of a text. -/
def after (p : List Char) : List Char → Option (List Char)
  | [] => if p = [] then some [] else none
  | c :: rest => if p.isPrefixOf (c :: rest) then some ((c :: rest).drop p.length) else after p rest

/-- The case folding of `re.I`, on the letters that have a counterpart in ASCII. -/
def fold (c : Char) : Char :=
  if 'A' ≤ c ∧ c ≤ 'Z' then Char.ofNat (c.toNat + 32)
  else if c = Char.ofNat 0x130 ∨ c = Char.ofNat 0x131 then 'i'
  else if c = Char.ofNat 0x17f then 's'
  else if c = Char.ofNat 0x212a then 'k'
  else c

/-- The pieces of a pattern occur one after the other. -/
def occurs : List String → List Char → Bool
  | [], _ => true
  | p :: rest, l =>
    match after (p.toList.map fold) l with
    | some l' => occurs rest l'
    | none => false

def search (alternatives : List (List String)) (line : String) : Bool :=
  alternatives.any fun p => occurs p (line.toList.map fold)

def selFail : List (List String) :=
  [["Uncorrectable"], ["Machine Check"], ["IERR"], ["Thermal Trip"], ["Critical Interrupt"],
    ["Bus Fatal"], ["Bus Uncorrectable"], ["PCI SERR"], ["PCI PERR"], ["Fatal"],
    ["Failure detected"], ["Power Supply AC lost"], ["AC lost"], ["Predictive failure"],
    ["Watchdog", "Hard reset"], ["Watchdog", "Power down"], ["Watchdog", "Power cycle"], ["CATERR"],
    ["Processor", "Error"], ["Drive Fault"], ["Configuration Error"], ["Non-recoverable"],
    ["Lower Non-recoverable"], ["Upper Non-recoverable"], ["Upper Critical going high"],
    ["Lower Critical going low"]]

def selWarn : List (List String) :=
  [["Correctable"], ["Redundancy Lost"], ["Redundancy Degraded"], ["Non-critical going"],
    ["Upper Non-critical"], ["Lower Non-critical"], ["Throttl"],
    ["Presence detected", "Deasserted"], ["Power off"], ["Power down"], ["System Restart"],
    ["OS Stop"], ["Timestamp Clock Sync"]]

def selIgnore : List (List String) :=
  [["Log area reset"], ["Log area cleared"], ["Event Logging Disabled", "Log area"],
    ["Initiated by power up"], ["Initiated by hard reset"], ["Initiated by warm reset"],
    ["System Boot"], ["OEM record"]]

def selCorrected : List (List String) := [["Correctable", "ECC"], ["Correctable", "memory"]]

def classifySel (line : String) : Option Severity :=
  if (after "Deasserted".toList line.toList).isSome ∧ search selFail line = false then none
  else if search selIgnore line then some .info
  else if search selFail line then some .fail
  else if search selWarn line then some .warn
  else some .info

example : classifySel "Memory | Correctable ECC" = some .warn := by decide +kernel

/-! ## Records -/

/-- What `ipmitool` prints, line by line. -/
structure Output where
  lines : List String
  returncode : Int := 0
  stderr : String := ""

def selLines (o : Output) : Except PyError (List String) :=
  if o.returncode ≠ 0 then .error (.runtimeError s!"Cannot read BMC SEL: {strip o.stderr}")
  else .ok ((o.lines.filter fun l => l.toList.contains '|').map strip)

/-- The line without its record id: `line.split("|", 1)[-1]`. -/
def content (line : String) : String :=
  match line.toList.dropWhile (· ≠ '|') with
  | [] => line
  | _ :: rest => String.ofList rest

def fields (line : String) : List String :=
  (line.toList.splitOn '|').map fun part => strip (String.ofList part)

def sensor (line : String) : String := (fields line)[3]?.getD "event"

def event (line : String) : String := (fields line)[4]?.getD line

def selKey (line : String) : String := s!"sel:{sensor line}:{event line}"

def eventCall (severity : Severity) (line now : String) : AddCall :=
  { key := selKey line, severity := severity, component := "BMC",
    title := s!"BMC event during test: {sensor line} - {event line}",
    recommendation := "Check the component named by the sensor (DIMM/CPU/PSU/fan).",
    evidence := [line], now := now }

def infoCall (line now : String) : AddCall :=
  { key := "sel-info", severity := .info, component := "BMC",
    title := "Informational BMC events during the test", evidence := [line], now := now }

/-- The call a record is added to the findings with. -/
def selCall (line now : String) : AddCall :=
  match classifySel line with
  | some .fail => eventCall .fail line now
  | some .warn => eventCall .warn line now
  | _ => infoCall line now

def historicCall (lines : List String) (now : String) : AddCall :=
  let historic := lines.filter fun l => classifySel l = some .fail ∨ classifySel l = some .warn
  { key := "sel-historic",
    severity := if historic.any fun l => classifySel l = some .fail then .warn else .info,
    component := "BMC",
    title :=
      s!"{historic.length} hardware events already in the BMC event log before the test",
    detail := "These happened before PC-Check started (e.g. in the factory, in transit or a " ++
      "previous deployment). Review them: memory/CPU/PSU events often point at the component " ++
      "that will fail.",
    recommendation :=
      "Review the events; clear the SEL after resolving them so future runs start clean.",
    evidence := historic.drop (historic.length - 25), now := now }

/-! ## Sensors -/

def sdrFail : List String := ["cr", "nr", "lcr", "ucr", "lnr", "unr"]

def sdrWarn : List String := ["nc", "lnc", "unc"]

/-- The name, the status and the reading of each sensor. -/
def parseSdr (lines : List String) : List (String × String × String) :=
  lines.filterMap fun line =>
    match fields line with
    | name :: _ :: status :: _ :: reading :: _ => some (name, status.toLower, reading)
    | _ => none

def sdrCall (row : String × String × String) (now : String) : Option AddCall :=
  let call := fun (severity : Severity) (title : String) =>
    { key := s!"sdr:{row.1}", severity := severity, component := "BMC", title := title,
      evidence := [s!"{now} {row.1}: {row.2.1} {row.2.2}"], now := now : AddCall }
  if row.2.1 ∈ sdrFail then some (call .fail s!"BMC sensor critical: {row.1}")
  else if row.2.1 ∈ sdrWarn then some (call .warn s!"BMC sensor non-critical: {row.1}")
  else none

/-! ## The monitor -/

/-- The findings and the digests of the session, with the calls that added a record. -/
structure World (δ : Type) where
  findings : Findings
  selHashes : Option (List δ) := none
  calls : List AddCall := []

/-- What `ipmitool` answers in one poll: to `baseline`, if it asks, and to the poll. -/
structure Poll where
  first : Output
  sel : Output
  sdr : Output
  now : String := ""

/-- The digest a line is known by. -/
def keyOf {δ : Type} (digest : String → δ) (line : String) : δ := digest (content line)

variable {δ : Type} [DecidableEq δ] (digest : String → δ) (opts : Options)

namespace World

/-- A record is added, and its warning escalated where it is one error too many. -/
def note (w : World δ) (line now : String) : World δ :=
  let c := selCall line now
  let fs := (w.findings.record c).1
  { w with
    findings :=
      if classifySel line = some .warn ∧ search selCorrected line = true ∧
          opts.ceFail ≤ (w.findings.recorded c).count then
        fs.raise { key := c.key, severity := .fail }
      else fs
    calls := w.calls ++ [c] }

def known (w : World δ) : List δ := w.selHashes.getD []

def scan (w : World δ) (now : String) : List String → World δ
  | [] => w
  | line :: rest =>
    if keyOf digest line ∈ w.known then scan w now rest
    else scan { w.note opts line now with
      selHashes := some (w.known ++ [keyOf digest line]) } now rest

def baseline (w : World δ) (first : Output) (now : String) : World δ × Except PyError Unit :=
  match w.selHashes with
  | some _ => (w, .ok ())
  | none =>
    match selLines first with
    | .error e => (w, .error e)
    | .ok lines =>
      let historic :=
        lines.any fun l => classifySel l = some .fail ∨ classifySel l = some .warn
      ({ w with
          selHashes := some (lines.map (keyOf digest))
          findings :=
            if historic then (w.findings.record (historicCall lines now)).1 else w.findings },
        .ok ())

def checkSensors (w : World δ) (sdr : Output) (now : String) : World δ × Except PyError Unit :=
  if sdr.returncode ≠ 0 then
    (w, .error (.runtimeError s!"Cannot read BMC sensors: {strip sdr.stderr}"))
  else
    ({ w with
        findings := ((parseSdr sdr.lines).filterMap fun row => sdrCall row now).foldl
          (fun fs c => (fs.record c).1) w.findings },
      .ok ())

def poll (w : World δ) (p : Poll) : World δ × Except PyError Unit :=
  match w.baseline digest p.first p.now with
  | (w, .error e) => (w, .error e)
  | (w, .ok ()) =>
    match selLines p.sel with
    | .error e => (w, .error e)
    | .ok lines => (w.scan digest opts p.now lines).checkSensors p.sdr p.now

/-- The polls of a run, one after the other; what one raises is caught. -/
def polls (w : World δ) (ps : List Poll) : World δ :=
  ps.foldl (fun w p => (w.poll digest opts p).1) w

end World

/-! ## What a scan adds -/

/-- How a record is classified, a class of its own counting as information. -/
def selSeverity (line : String) : Severity :=
  match classifySel line with
  | some severity => severity
  | none => .info

theorem selCall_evidence (line now : String) : (selCall line now).evidence = [line] := by
  unfold selCall
  split <;> rfl

theorem selCall_severity (line now : String) :
    (selCall line now).severity = selSeverity line := by
  unfold selCall selSeverity
  cases hc : classifySel line with
  | none => rfl
  | some severity => cases severity <;> rfl

theorem selCall_of_fail {line : String} (h : classifySel line = some .fail) (now : String) :
    selCall line now = eventCall .fail line now := by
  rw [selCall, h]

/-- What a call says of its record. -/
def told (c : AddCall) : List String × Severity := (c.evidence, c.severity)

def expected (line : String) : List String × Severity := ([line], selSeverity line)

theorem told_selCall (line now : String) : told (selCall line now) = expected line := by
  rw [told, expected, selCall_evidence, selCall_severity]

variable {digest opts} {w : World δ}

omit [DecidableEq δ] in
theorem fails_note {k : String} (line now : String) (h : w.findings.items.Fails k) :
    (w.note opts line now).findings.items.Fails k := by
  have hadd := Findings.fails_record (selCall line now) h
  unfold World.note
  dsimp only
  split
  · exact Findings.fails_raise _ hadd
  · exact hadd

omit [DecidableEq δ] in
theorem fails_note_self {line : String} (hline : classifySel line = some .fail) (now : String) :
    (w.note opts line now).findings.items.Fails (selKey line) := by
  have hcall := selCall_of_fail hline now
  have hadd : ((w.findings.record (selCall line now)).1).items.Fails (selKey line) := by
    rw [hcall]
    exact Findings.fails_record_self rfl
  unfold World.note
  dsimp only
  rw [hline, if_neg (by simp)]
  exact hadd

/-- A record that is new to the scan is added and remembered. -/
def World.noted (digest : String → δ) (opts : Options) (w : World δ) (line now : String) :
    World δ :=
  { w.note opts line now with selHashes := some (w.known ++ [keyOf digest line]) }

/-- What a scan of some lines, `new` of them new, makes of a world. -/
structure Scanned (digest : String → δ) (w t : World δ) (lines new : List String) : Prop where
  calls : t.calls.map told = w.calls.map told ++ new.map expected
  known : ∀ h, h ∈ t.known ↔ h ∈ w.known ∨ h ∈ lines.map (keyOf digest)
  baseline : w.selHashes.isSome = true → t.selHashes.isSome = true
  keeps : ∀ k, w.findings.items.Fails k → t.findings.items.Fails k
  fails : ∀ l ∈ new, classifySel l = some .fail → t.findings.items.Fails (selKey l)

/-- A scan adds the lines with new digests, remembers every digest, and leaves a failure for
every failing line that it adds. -/
theorem scan_spec (w : World δ) (now : String) (lines : List String) :
    Scanned digest w (w.scan digest opts now lines) lines
      (firsts (keyOf digest) w.known lines) := by
  induction lines generalizing w with
  | nil =>
    exact ⟨by simp [firsts, World.scan], by simp [World.scan], id, fun _ => id,
      fun l hl => by cases hl⟩
  | cons line rest ih =>
    by_cases hmem : keyOf digest line ∈ w.known
    · rw [World.scan, if_pos hmem, firsts, if_pos hmem]
      have hrest := ih w
      refine ⟨hrest.calls, fun h => ?_, hrest.baseline, hrest.keeps, hrest.fails⟩
      rw [hrest.known, List.map_cons, List.mem_cons]
      constructor
      · exact Or.imp_right Or.inr
      · rintro (hold | rfl | hnew)
        · exact Or.inl hold
        · exact Or.inl hmem
        · exact Or.inr hnew
    · have hscan : w.scan digest opts now (line :: rest) =
          (w.noted digest opts line now).scan digest opts now rest := by
        rw [World.scan, if_neg hmem]
        rfl
      rw [hscan, firsts, if_neg hmem]
      have hrest := ih (w.noted digest opts line now)
      have hknown : ∀ h, h ∈ (w.noted digest opts line now).known ↔
          h ∈ keyOf digest line :: w.known := fun h => by
        show h ∈ w.known ++ [keyOf digest line] ↔ _
        rw [List.mem_append, List.mem_singleton, List.mem_cons, or_comm]
      rw [firsts_congr hknown] at hrest
      refine ⟨?_, fun h => ?_, fun _ => hrest.baseline rfl, fun k hk => ?_, fun l hl hfail => ?_⟩
      · rw [hrest.calls]
        show (w.calls ++ [selCall line now]).map told ++ _ = _
        rw [List.map_append, List.append_assoc, List.map_singleton, told_selCall,
          List.singleton_append, List.map_cons]
      · rw [hrest.known, hknown, List.map_cons, List.mem_cons, List.mem_cons, or_assoc]
        tauto
      · exact hrest.keeps k (fails_note line now hk)
      · rcases List.mem_cons.mp hl with rfl | hl
        · exact hrest.keeps _ (fails_note_self hfail now)
        · exact hrest.fails l hl hfail

/-! ## What the polls add -/

/-- Each listing extends the one before; a poll whose command fails has none. -/
inductive Extends : List String → List Poll → List String → Prop
  | nil (listing : List String) : Extends listing [] listing
  | read {listing next last : List String} {p : Poll} {ps : List Poll}
      (hread : selLines p.sel = .ok next) (hgrows : listing <+: next)
      (hrest : Extends next ps last) : Extends listing (p :: ps) last
  | failed {listing last : List String} {p : Poll} {ps : List Poll} {e : PyError}
      (hread : selLines p.sel = .error e) (hrest : Extends listing ps last) :
      Extends listing (p :: ps) last

/-- After a poll of a log that began with `old`: the calls tell of the first occurrences
among what was appended. -/
structure Inv (digest : String → δ) (old listing : List String) (w : World δ) : Prop where
  baseline : w.selHashes.isSome = true
  extends_old : old <+: listing
  known : ∀ h, h ∈ w.known ↔ h ∈ listing.map (keyOf digest)
  calls : w.calls.map told =
    (firsts (keyOf digest) (old.map (keyOf digest)) (listing.drop old.length)).map expected
  fails : ∀ l ∈ firsts (keyOf digest) (old.map (keyOf digest)) (listing.drop old.length),
    classifySel l = some .fail → w.findings.items.Fails (selKey l)

omit [DecidableEq δ] in
theorem checkSensors_spec (w : World δ) (sdr : Output) (now : String) :
    (w.checkSensors sdr now).1.calls = w.calls ∧
      (w.checkSensors sdr now).1.selHashes = w.selHashes ∧
      ∀ k, w.findings.items.Fails k → (w.checkSensors sdr now).1.findings.items.Fails k := by
  unfold World.checkSensors
  split
  · exact ⟨rfl, rfl, fun _ => id⟩
  · refine ⟨rfl, rfl, fun k hk => ?_⟩
    show (List.foldl (fun fs c => (fs.record c).1) w.findings _).items.Fails k
    generalize (parseSdr sdr.lines).filterMap (fun row => sdrCall row now) = calls
    generalize w.findings = fs at hk
    induction calls generalizing fs with
    | nil => exact hk
    | cons c rest ih => exact ih _ (Findings.fails_record c hk)

theorem poll_of_lines {p : Poll} {lines : List String} (hbase : w.selHashes.isSome = true)
    (hread : selLines p.sel = .ok lines) :
    w.poll digest opts p = (w.scan digest opts p.now lines).checkSensors p.sdr p.now := by
  obtain ⟨hashes, hhashes⟩ := Option.isSome_iff_exists.mp hbase
  simp only [World.poll, World.baseline, hhashes, hread]

theorem poll_of_error {p : Poll} {e : PyError} (hbase : w.selHashes.isSome = true)
    (hread : selLines p.sel = .error e) : w.poll digest opts p = (w, .error e) := by
  obtain ⟨hashes, hhashes⟩ := Option.isSome_iff_exists.mp hbase
  simp only [World.poll, World.baseline, hhashes, hread]

theorem inv_poll {old listing next : List String} (h : Inv digest old listing w) {p : Poll}
    (hread : selLines p.sel = .ok next) (hgrows : listing <+: next) :
    Inv digest old next (w.poll digest opts p).1 := by
  rw [poll_of_lines h.baseline hread]
  have hscan : Scanned digest w (w.scan digest opts p.now next) next
      (firsts (keyOf digest) w.known next) := scan_spec w p.now next
  obtain ⟨hcalls, hhashes, hkeeps⟩ :=
    checkSensors_spec (w.scan digest opts p.now next) p.sdr p.now
  obtain ⟨extra, rfl⟩ := hgrows
  obtain ⟨appended, rfl⟩ := h.extends_old
  have hdrop : (old ++ appended ++ extra).drop old.length = appended ++ extra := by
    rw [List.append_assoc, List.drop_left]
  have hold : (old ++ appended).drop old.length = appended := List.drop_left
  have hseen : ∀ k, k ∈ w.known ↔ k ∈ appended.map (keyOf digest) ++ old.map (keyOf digest) := by
    intro k
    rw [h.known, List.map_append, List.mem_append, List.mem_append, or_comm]
  have hnew : firsts (keyOf digest) w.known (old ++ appended ++ extra) =
      firsts (keyOf digest) (appended.map (keyOf digest) ++ old.map (keyOf digest)) extra := by
    rw [firsts_append_of_seen fun x hx => (h.known _).mpr (List.mem_map_of_mem hx)]
    exact firsts_congr hseen extra
  have hfirsts : firsts (keyOf digest) (old.map (keyOf digest)) (appended ++ extra) =
      firsts (keyOf digest) (old.map (keyOf digest)) appended ++
        firsts (keyOf digest) w.known (old ++ appended ++ extra) := by
    rw [firsts_append, hnew]
  refine ⟨?_, ?_, fun k => ?_, ?_, fun l hl hfail => ?_⟩
  · rw [hhashes]
    exact hscan.baseline h.baseline
  · rw [List.append_assoc]
    exact List.prefix_append old _
  · rw [World.known, hhashes]
    show k ∈ World.known _ ↔ _
    rw [hscan.known, h.known, ← List.mem_append, ← List.map_append]
    simp only [List.map_append, List.mem_append]
    tauto
  · rw [hcalls, hscan.calls, h.calls, hold, hdrop, hfirsts, List.map_append]
  · rw [hdrop, hfirsts] at hl
    rcases List.mem_append.mp hl with hl | hl
    · exact hkeeps _ (hscan.keeps _ (h.fails l (by rw [hold]; exact hl) hfail))
    · exact hkeeps _ (hscan.fails l hl hfail)

theorem inv_polls {old listing last : List String} {ps : List Poll}
    (hext : Extends listing ps last) (h : Inv digest old listing w) :
    Inv digest old last (w.polls digest opts ps) := by
  induction hext generalizing w with
  | nil listing => exact h
  | read hread hgrows hrest ih => exact ih (inv_poll h hread hgrows)
  | failed hread hrest ih =>
    refine ih ?_
    show Inv digest old _ (w.poll digest opts _).1
    rw [poll_of_error h.baseline hread]
    exact h

omit [DecidableEq δ] in
theorem baseline_of_lines {first : Output} {now : String} {old : List String} {fs : Findings}
    (hread : selLines first = .ok old) :
    (({ findings := fs } : World δ).baseline digest first now).1.selHashes =
        some (old.map (keyOf digest)) ∧
      (({ findings := fs } : World δ).baseline digest first now).1.calls = [] := by
  simp only [World.baseline, hread, and_self]

theorem inv_baseline {first : Output} {now : String} {old : List String} {fs : Findings}
    (hread : selLines first = .ok old) :
    Inv digest old old (({ findings := fs } : World δ).baseline digest first now).1 := by
  obtain ⟨hhashes, hcalls⟩ := @baseline_of_lines δ digest first now old fs hread
  refine ⟨?_, List.prefix_rfl, fun k => ?_, ?_, fun l hl => ?_⟩
  · rw [hhashes]
    rfl
  · rw [World.known, hhashes]
    rfl
  · rw [hcalls, List.drop_length]
    rfl
  · rw [List.drop_length] at hl
    cases hl

/-- Over a log that only grows, every record appended after the baseline is classified and
added once, and the failing ones leave a failure, exactly when no two of them have one
digest and none has that of a record of the baseline. -/
theorem every_record_counts_iff (digest : String → δ) (opts : Options) (fs : Findings)
    {first : Output} (now : String) {old last : List String} {ps : List Poll}
    (hread : selLines first = .ok old) (hext : Extends old ps last) :
    (((({ findings := fs } : World δ).baseline digest first now).1.polls digest opts ps).calls.map
          told = (last.drop old.length).map expected ∧
        ∀ l ∈ last.drop old.length, classifySel l = some .fail →
          ((({ findings := fs } : World δ).baseline digest first now).1.polls digest opts
            ps).findings.items.Fails (selKey l)) ↔
      ((last.drop old.length).map (keyOf digest)).Nodup ∧
        ∀ l ∈ last.drop old.length, keyOf digest l ∉ old.map (keyOf digest) := by
  have hbase : Inv digest old old (({ findings := fs } : World δ).baseline digest first now).1 :=
    inv_baseline hread
  have h : Inv digest old last
      ((({ findings := fs } : World δ).baseline digest first now).1.polls digest opts ps) :=
    inv_polls hext hbase
  rw [← firsts_eq_self_iff, h.calls]
  constructor
  · intro hall
    refine (firsts_sublist _ _).eq_of_length ?_
    have hlen := congrArg List.length hall.1
    rwa [List.length_map, List.length_map] at hlen
  · intro hself
    refine ⟨by rw [hself], fun l hl => h.fails l ?_⟩
    rw [hself]
    exact hl

/-! ## Two records of one text -/

def preInit (id : String) : String :=
  id ++ " | Pre-Init | 5 | Memory | Uncorrectable ECC"

def fanFailed : String := "2 | Pre-Init | 9 | Fan 1 | Failure detected"

/-- The log before the test, and what a poll finds appended to it. -/
def logged : Output := { lines := [preInit "1"] }

def pollOf (lines : List String) : List Poll :=
  [{ first := logged, sel := { lines := preInit "1" :: lines }, sdr := { lines := [] } }]

theorem selLines_of_trimmed {lines : List String}
    (h : ∀ l ∈ lines, l.toList.contains '|' = true ∧ strip l = l) :
    selLines { lines := lines } = .ok lines := by
  have hall : lines.filter (fun l => l.toList.contains '|') = lines :=
    List.filter_eq_self.mpr fun l hl => (h l hl).1
  have hstrip : lines.map strip = lines :=
    (List.map_congr_left fun l hl => (h l hl).2).trans (List.map_id lines)
  rw [selLines, if_neg (not_not.mpr rfl), hall, hstrip]

theorem trimmed_preInit :
    ∀ l ∈ [preInit "1"], l.toList.contains '|' = true ∧ strip l = l := by decide +kernel

theorem selLines_logged : selLines logged = .ok [preInit "1"] :=
  selLines_of_trimmed trimmed_preInit

theorem extends_pollOf {line : String}
    (h : ∀ l ∈ [line], l.toList.contains '|' = true ∧ strip l = l) :
    Extends [preInit "1"] (pollOf [line]) [preInit "1", line] := by
  refine .read (selLines_of_trimmed fun l hl => ?_) (List.prefix_append [preInit "1"] [line])
    (.nil _)
  rcases List.mem_cons.mp hl with rfl | hl
  · exact trimmed_preInit _ (List.mem_singleton_self _)
  · exact h l hl

/-- Two records appear before the first poll and one more before the third. -/
def failures : List String :=
  [fanFailed, "3 | Pre-Init | 7 | Power Supply 1 | Failure detected",
    "4 | Pre-Init | 5 | Memory | Correctable ECC"]

/-- Three polls, of which `ipmitool` fails in the second. -/
def threePolls : List Poll :=
  pollOf (failures.take 2) ++
    { first := logged, sel := { lines := [], returncode := 1 }, sdr := { lines := [] } } ::
    pollOf failures

theorem extends_threePolls : Extends [preInit "1"] threePolls (preInit "1" :: failures) := by
  refine .read (selLines_of_trimmed (by decide +kernel)) (List.prefix_append _ _) ?_
  refine .failed rfl ?_
  exact .read (selLines_of_trimmed (by decide +kernel)) ⟨failures.drop 2, rfl⟩ (.nil _)

theorem every_record_counts_threePolls :
    ((({ findings := Findings.new } : World String).baseline id logged "").1.polls id {}
        threePolls).calls.map told = failures.map expected ∧
      ∀ l ∈ failures, classifySel l = some .fail →
        ((({ findings := Findings.new } : World String).baseline id logged "").1.polls id {}
          threePolls).findings.items.Fails (selKey l) := by
  refine (every_record_counts_iff id {} Findings.new "" selLines_logged extends_threePolls).mpr ?_
  decide +kernel

/-- Whatever the digest: a record that repeats one of the baseline is passed over. -/
theorem repeated_record_passed_over :
    ¬ ∃ digest : String → String, ∀ (opts : Options) (fs : Findings) (first : Output)
      (old last : List String) (ps : List Poll), selLines first = .ok old → Extends old ps last →
        ((({ findings := fs } : World String).baseline digest first "").1.polls digest opts
          ps).calls.map told = (last.drop old.length).map expected := by
  intro hex
  obtain ⟨digest, h⟩ := hex
  have hext : Extends [preInit "1"] (pollOf [preInit "2"]) [preInit "1", preInit "2"] :=
    extends_pollOf (by decide +kernel)
  have hbase : Inv digest [preInit "1"] [preInit "1"]
      (({ findings := Findings.new } : World String).baseline digest logged "").1 :=
    inv_baseline selLines_logged
  have hcalls := (@inv_polls String _ digest {} _ _ _ _ _ hext hbase).calls
  have hsame : content (preInit "2") = content (preInit "1") := by decide +kernel
  rw [h {} Findings.new logged _ _ _ selLines_logged hext, firsts_eq_nil] at hcalls
  · cases hcalls
  · intro l hl
    obtain rfl := List.mem_singleton.mp hl
    rw [keyOf, hsame]
    exact List.mem_singleton_self _

end Ipmi
end PcCheck
