/-
The count of corrected PCIe errors (`AerMonitor.poll` of `monitors.py` and `_process` of
`kmsg.py`).

Two threads feed the finding of a device.  The monitor of sysfs adds what `TOTAL_ERR_COR` has
gained since its last reading, then judges the count and moves its cursor.  The kernel log
thread attaches the text of a message with a count of 0, and it can do so between any two of
these steps.  The store counts a new finding as 1 at least, so the first of the two to report
decides what the count starts from.
-/
import PcCheck.KernelMessages
import PcCheck.Lib.EventMachine

namespace PcCheck

namespace Aer

open EventMachine Kernel

inductive Kind where
  | correctable
  | nonfatal
  | fatal
  deriving DecidableEq, Repr

namespace Kind

def name : Kind → String
  | .correctable => "correctable"
  | .nonfatal => "nonfatal"
  | .fatal => "fatal"

def totalKey : Kind → String
  | .correctable => "TOTAL_ERR_COR"
  | .nonfatal => "TOTAL_ERR_NONFATAL"
  | .fatal => "TOTAL_ERR_FATAL"

def severity : Kind → Severity
  | .correctable => .warn
  | _ => .fail

end Kind

/-- One file of a device: what `parse_aer_file` makes of it and `pci_name` of the device. -/
structure Reading where
  bdf : String
  kind : Kind
  counts : Dict String Nat
  name : String := ""
  now : String := ""

def correctedKey (bdf : String) : String := "aer-corrected:" ++ bdf

namespace Reading

variable (r : Reading)

def total : Nat := (r.counts.get? r.kind.totalKey).getD 0

def key : String :=
  if r.kind = .correctable then correctedKey r.bdf else "aer-uncorrected:" ++ r.bdf

def title : String :=
  (if r.kind = .correctable then "Corrected" else "Uncorrected") ++ " PCIe errors on " ++ r.bdf ++
    " " ++ r.name

def details : String :=
  let shown := r.counts.entries.filter fun p =>
    p.2 ≠ 0 && !("TOTAL".toList.isPrefixOf p.1.toList)
  ", ".intercalate (shown.map fun p => p.1 ++ "=" ++ toString p.2)

def call (prev : Nat) : AddCall :=
  { key := r.key, severity := r.kind.severity, component := "PCIe", title := r.title,
    recommendation := recPcie, count := (r.total : Int) - prev,
    evidence := [r.now ++ " " ++ r.kind.name ++ ": " ++ r.details], now := r.now }

/-- The reading shows the corrected errors of a device. -/
def About (bdf : String) : Prop := r.bdf = bdf ∧ r.kind = .correctable

instance (bdf : String) : Decidable (r.About bdf) :=
  inferInstanceAs (Decidable (r.bdf = bdf ∧ r.kind = .correctable))

end Reading

structure World where
  findings : Findings
  /-- `per_boot_counters("aer")`: the total of each device and kind as it was read last. -/
  seen : Dict (String × Kind) Nat := Dict.empty
  /-- The reading whose increase is added but not yet judged. -/
  judging : Option Reading := none

inductive Event where
  /-- The kernel log thread handles a message. -/
  | message (level : Int) (seconds : PyFloat) (text now : String)
  /-- The poll reads one file, and adds the increase where there is one. -/
  | read (r : Reading)
  /-- The poll judges the count and moves the cursor. -/
  | judge

namespace World

def cursor (w : World) (bdf : String) (kind : Kind) : Nat := (w.seen.get? (bdf, kind)).getD 0

def move (w : World) (r : Reading) : World :=
  { w with seen := w.seen.set (r.bdf, r.kind) r.total, judging := none }

/-- A file without counts is passed over. -/
def read (w : World) (r : Reading) : World :=
  if r.counts.entries = [] then w
  else if w.cursor r.bdf r.kind < r.total then
    { w with
      findings := (w.findings.record (r.call (w.cursor r.bdf r.kind))).1
      judging := some r }
  else w.move r

def judge (opts : Options) (w : World) (r : Reading) : World :=
  let w' := w.move r
  if r.kind = .correctable ∧ opts.aerFail ≤ w.findings.countOf r.key then
    { w' with findings := w.findings.raise { key := r.key, severity := .fail } }
  else w'

end World

section Runs

variable (u : CharTable) (ctx : Kernel.Context)

def step (w : World) : Event → Option World
  | .message level seconds text now =>
    some { w with findings := process u ctx w.findings level seconds text now }
  | .read r => if w.judging.isSome then none else some (w.read r)
  | .judge => w.judging.map fun r => w.judge ctx.opts r

/-- The start of a boot: no counter has been read. -/
def start (fs : Findings) : World := { findings := fs }

/-- The counter of the device does not go back. -/
def Rising (bdf : String) (w : World) : Event → Prop
  | .read r => r.About bdf → r.counts.entries ≠ [] → w.cursor bdf .correctable ≤ r.total
  | _ => True

/-- What an event lets the monitor see the device gain. -/
def gain (bdf : String) (w : World) : Event → Nat
  | .read r => if r.About bdf then r.total - w.cursor bdf .correctable else 0
  | _ => 0

/-- At each moment of a run, once an increase has been seen, the finding counts the increase,
and it fails exactly from the threshold on where no reading waits to be judged. -/
def OwnedBySysfs (bdf : String) (w : World) (es : List Event) : Prop :=
  ∀ pre, pre <+: es → ∀ t, run (step u ctx) w pre = some t →
    0 < total (step u ctx) (gain bdf) w pre →
      t.findings.countOf (correctedKey bdf) = total (step u ctx) (gain bdf) w pre ∧
        (t.judging = none → (t.findings.items.Fails (correctedKey bdf) ↔
          ctx.opts.aerFail ≤ total (step u ctx) (gain bdf) w pre))

/-- The first increase of the device finds no finding of it. -/
def FirstToReport (bdf : String) (w : World) : Event → Prop
  | .read r => r.About bdf → w.cursor bdf .correctable = 0 → 0 < r.total →
      w.findings.items.get? (correctedKey bdf) = none
  | _ => True

end Runs

/-! ## What a message does to the finding -/

/-- The rule for corrected errors warns, is counted by sysfs and has no title for the boot. -/
theorem corrected_traits {u : CharTable} {rule : Rule} (h : rule ∈ rules u)
    (hid : rule.id = "aer-corrected") :
    rule.severity = .warn ∧ rule.counter = some .aer ∧ rule.bootTitle = none := by
  have hall : ∀ t ∈ (rules ascii).map Rule.traits, t.1 = "aer-corrected" →
      t.2.1 = .warn ∧ t.2.2.1 = some .aer ∧ t.2.2.2.1 = none := by decide +kernel
  exact hall rule.traits (Rule.traits_mem h) hid

theorem family_correctedKey (bdf : String) :
    family (correctedKey bdf) = "aer-corrected".toList :=
  family_append (s := "aer-corrected") bdf (by decide)

/-- A rule that records under the key of a device is the rule for corrected errors. -/
theorem id_of_key {u : CharTable} {rule : Rule} (h : rule ∈ rules u) {ctx : Kernel.Context}
    {dev message : String} {atBoot : Bool} {bdf : String}
    (hkey : (rule.entry ctx dev message atBoot).key = correctedKey bdf) :
    rule.id = "aer-corrected" := by
  have hfamily := family_correctedKey bdf
  rw [← hkey] at hfamily
  rcases rule.entry_key ctx dev message atBoot with hplain | hboot | hdisk
  · rw [hplain, Rule.family_plainEntry h] at hfamily
    exact String.toList_inj.mp hfamily
  · have hall : ∀ t ∈ (rules ascii).map Rule.traits, t.1 ++ "-boot" ≠ "aer-corrected" := by
      decide +kernel
    rw [hboot, family_of_not_mem (Rule.id_plain h).2] at hfamily
    exact absurd (String.toList_inj.mp hfamily) (hall rule.traits (Rule.traits_mem h))
  · rw [hdisk] at hkey
    exact absurd hkey (append_ne_append 1 (by decide) (by decide) (by decide) rule.id bdf)

theorem entry_corrected {u : CharTable} {rule : Rule} (h : rule ∈ rules u)
    (hid : rule.id = "aer-corrected") (ctx : Kernel.Context) (dev message : String)
    (atBoot : Bool) : (rule.entry ctx dev message atBoot).severity = .warn := by
  obtain ⟨hsev, -, hboot⟩ := corrected_traits h hid
  unfold Rule.entry
  rw [hid, hboot]
  dsimp only
  rw [if_neg (show ¬ ("aer-corrected" ∈ storageRules ∧ _) from fun hand =>
    absurd hand.1 (by decide)), if_neg (show ¬ ("aer-corrected" = "bert" ∧ _) from fun hand =>
    absurd hand.1 (by decide))]
  cases atBoot <;> exact hsev

/-- While sysfs owns the count, a message that reaches the finding of a device warns, counts
nothing and has no threshold. -/
theorem heard_corrected {u : CharTable} {ctx : Kernel.Context} (haer : .aer ∈ ctx.sysfsCounters)
    {level : Int} {seconds : PyFloat} {text now : String} {c : AddCall} {limit : Option Int}
    (h : heard u ctx level seconds text now = some (c, limit)) {bdf : String}
    (hkey : c.key = correctedKey bdf) : c.severity = .warn ∧ c.count = 0 ∧ limit = none := by
  unfold heard at h
  cases hclass : classify u text with
  | none =>
    rw [hclass] at h
    dsimp only at h
    split at h
    · cases h
      exact absurd hkey (append_ne_append 1 (by decide) (by decide) (by decide) _ bdf)
    · cases h
  | some found =>
    obtain ⟨rule, m⟩ := found
    have hmem := (mem_of_classify hclass).1
    rw [hclass] at h
    dsimp only at h
    split at h
    · cases h
    · unfold Rule.call at h
      dsimp only at h
      split at h
      · cases h
      · cases h
        dsimp only at hkey
        split at hkey
        · have hfamily := family_correctedKey bdf
          rw [← hkey] at hfamily
          exact absurd hfamily (by decide)
        · have hid := id_of_key hmem hkey
          obtain ⟨-, hcounter, -⟩ := corrected_traits hmem hid
          have howns : ctx.owns rule = true := by
            rw [Context.owns, hcounter]
            exact decide_eq_true haer
          refine ⟨entry_corrected hmem hid .., ?_, ?_⟩
          · rw [howns]
            rfl
          · rw [hid]
            show (if Counter.aer ∈ ctx.sysfsCounters then _ else _) = _
            rw [if_pos haer]

/-- What a message makes of the finding of a device. -/
inductive Attached : Option Finding → Option Finding → Prop where
  | same (old : Option Finding) : Attached old old
  | created (g : Finding) (count : g.count = 1) : Attached none (some g)
  | merged (f g : Finding) (count : g.count = f.count)
      (fails : g.severity = .fail ↔ f.severity = .fail) : Attached (some f) (some g)

theorem process_attached {u : CharTable} {ctx : Kernel.Context} (haer : .aer ∈ ctx.sysfsCounters)
    (fs : Findings) (level : Int) (seconds : PyFloat) (text now : String) (bdf : String) :
    Attached (fs.items.get? (correctedKey bdf))
      ((process u ctx fs level seconds text now).items.get? (correctedKey bdf)) := by
  unfold process
  cases hheard : heard u ctx level seconds text now with
  | none => exact .same _
  | some entry =>
    obtain ⟨c, limit⟩ := entry
    by_cases hkey : c.key = correctedKey bdf
    · obtain ⟨hsev, hcount, rfl⟩ := heard_corrected haer hheard hkey
      dsimp only
      rw [Findings.get?_record, if_pos hkey.symm]
      cases hold : fs.items.get? (correctedKey bdf) with
      | none =>
        rw [← hkey] at hold
        obtain ⟨hnew, -⟩ := Findings.recorded_of_none hold
        exact .created _ (by rw [hnew, hcount]; rfl)
      | some f =>
        rw [← hkey] at hold
        obtain ⟨hnew, hrank⟩ := Findings.recorded_of_some hold
        refine .merged f _ (by rw [hnew, hcount, add_zero]) ?_
        rw [hsev] at hrank
        constructor
        · intro hfail
          rw [hfail] at hrank
          cases hf : f.severity with
          | fail => rfl
          | info => rw [hf] at hrank; cases hrank
          | warn => rw [hf] at hrank; cases hrank
        · intro hfail
          rw [hfail] at hrank
          exact Severity.rank_injective hrank
    · have hrecord : (fs.record c).1.items.get? (correctedKey bdf) =
          fs.items.get? (correctedKey bdf) := by
        rw [Findings.get?_record, if_neg (Ne.symm hkey)]
      have hsame : Attached (fs.items.get? (correctedKey bdf))
          ((fs.record c).1.items.get? (correctedKey bdf)) := by
        rw [hrecord]
        exact .same _
      cases limit with
      | none => exact hsame
      | some n =>
        dsimp only
        split
        · rw [Findings.get?_raise_ne (c := { key := c.key, severity := .fail }) (Ne.symm hkey)]
          exact hsame
        · exact hsame

/-! ## The monitor and the count -/

theorem Reading.key_eq_iff (r : Reading) (bdf : String) :
    r.key = correctedKey bdf ↔ r.About bdf := by
  unfold Reading.key Reading.About
  by_cases hkind : r.kind = .correctable
  · rw [if_pos hkind]
    constructor
    · exact fun h => ⟨(String.append_right_inj _).mp h, hkind⟩
    · exact fun h => by rw [h.1]
  · rw [if_neg hkind]
    constructor
    · intro h
      exact absurd h (append_ne_append 5 (by decide) (by decide) (by decide) r.bdf bdf)
    · exact fun h => absurd h.2 hkind

theorem Reading.total_of_empty {r : Reading} (h : r.counts.entries = []) : r.total = 0 := by
  unfold Reading.total Dict.get?
  rw [h]
  rfl

namespace World

/-- The last reading of the corrected errors of a device, judged or not. -/
def shown (w : World) (bdf : String) : Nat :=
  match w.judging with
  | some r => if r.About bdf then r.total else w.cursor bdf .correctable
  | none => w.cursor bdf .correctable

theorem cursor_move (w : World) (r : Reading) (bdf : String) :
    (w.move r).cursor bdf .correctable =
      if r.About bdf then r.total else w.cursor bdf .correctable := by
  unfold cursor move
  dsimp only
  rw [Dict.get?_set]
  by_cases h : r.About bdf
  · have hkey : (bdf, Kind.correctable) = (r.bdf, r.kind) := by rw [h.1, h.2]
    rw [if_pos hkey, if_pos h]
    rfl
  · have hkey : (bdf, Kind.correctable) ≠ (r.bdf, r.kind) := by
      intro heq
      rw [Prod.mk.injEq] at heq
      exact h ⟨heq.1.symm, heq.2.symm⟩
    rw [if_neg hkey, if_neg h]

theorem shown_of_idle {w : World} (h : w.judging = none) (bdf : String) :
    w.shown bdf = w.cursor bdf .correctable := by
  rw [shown, h]

theorem shown_move (w : World) (r : Reading) (bdf : String) :
    (w.move r).shown bdf = if r.About bdf then r.total else w.cursor bdf .correctable := by
  rw [shown_of_idle rfl, cursor_move]

/-- A file with counts is shown whether its increase is added or there is none. -/
theorem shown_read {w : World} {r : Reading} (hcounts : r.counts.entries ≠ []) (bdf : String) :
    (w.read r).shown bdf = if r.About bdf then r.total else w.cursor bdf .correctable := by
  unfold read
  rw [if_neg hcounts]
  split
  · rfl
  · exact shown_move w r bdf

/-- Judging moves the cursor to what was shown. -/
theorem shown_judge (opts : Options) {w : World} {r : Reading} (h : w.judging = some r)
    (bdf : String) : (w.judge opts r).shown bdf = w.shown bdf := by
  have hmove : (w.judge opts r).shown bdf = (w.move r).shown bdf := by
    unfold judge
    dsimp only
    split <;> rfl
  rw [hmove, shown_move, shown, h]

end World

variable {u : CharTable} {ctx : Kernel.Context} {bdf : String} {w t : World}

/-- A reading is taken when none waits to be judged. -/
theorem read_of_step {r : Reading} (ht : step u ctx w (.read r) = some t) :
    w.judging = none ∧ t = w.read r := by
  simp only [step] at ht
  split at ht
  · cases ht
  next hidle => exact ⟨by simpa using hidle, (Option.some.inj ht).symm⟩

theorem judge_of_step (ht : step u ctx w .judge = some t) :
    ∃ r, w.judging = some r ∧ t = w.judge ctx.opts r := by
  obtain ⟨r, hj, hjudge⟩ := Option.map_eq_some_iff.mp ht
  exact ⟨r, hj, hjudge.symm⟩

/-- What the readings show of a device is what the monitor has seen it gain. -/
theorem shown_step {e : Event} (hrising : Rising bdf w e) (ht : step u ctx w e = some t) :
    t.shown bdf = w.shown bdf + gain bdf w e := by
  cases e with
  | message level seconds text now =>
    obtain rfl := Option.some.inj ht
    rfl
  | read r =>
    obtain ⟨hidle, rfl⟩ := read_of_step ht
    rw [World.shown_of_idle hidle]
    show (w.read r).shown bdf = _ + if r.About bdf then _ else 0
    by_cases hcounts : r.counts.entries = []
    · rw [World.read, if_pos hcounts, World.shown_of_idle hidle,
        Reading.total_of_empty hcounts, Nat.zero_sub, ite_self]
      rfl
    · rw [World.shown_read hcounts]
      by_cases habout : r.About bdf
      · have hle := hrising habout hcounts
        rw [if_pos habout, if_pos habout]
        omega
      · rw [if_neg habout, if_neg habout]
        rfl
  | judge =>
    obtain ⟨r, hj, rfl⟩ := judge_of_step ht
    exact World.shown_judge ctx.opts hj bdf

/-- The finding of the device is worth what has been shown: once there is an increase, it
counts the increase, and it fails where the threshold is reached and nothing waits to be
judged. -/
structure Exact (opts : Options) (bdf : String) (w : World) : Prop where
  counted : ∀ f, w.findings.items.get? (correctedKey bdf) = some f → 1 ≤ f.count
  exact : 0 < w.shown bdf → ∃ f, w.findings.items.get? (correctedKey bdf) = some f ∧
    f.count = w.shown bdf ∧ (f.severity = .fail → opts.aerFail ≤ w.shown bdf) ∧
    ((∀ r, w.judging = some r → ¬ r.About bdf) → opts.aerFail ≤ w.shown bdf →
      f.severity = .fail)

/-- The invariant depends on the finding, the reading and whether one waits to be judged. -/
theorem Exact.congr {opts : Options} (h : Exact opts bdf w)
    (hget : t.findings.items.get? (correctedKey bdf) = w.findings.items.get? (correctedKey bdf))
    (hshown : t.shown bdf = w.shown bdf)
    (hjudging : (∀ r, t.judging = some r → ¬ r.About bdf) →
      ∀ r, w.judging = some r → ¬ r.About bdf) : Exact opts bdf t where
  counted := by
    rw [hget]
    exact h.counted
  exact := by
    rw [hget, hshown]
    intro hpos
    obtain ⟨f, hf, hcount, hfails, hjudged⟩ := h.exact hpos
    exact ⟨f, hf, hcount, hfails, fun hnone => hjudged (hjudging hnone)⟩

theorem exact_message (haer : .aer ∈ ctx.sysfsCounters) (h : Exact ctx.opts bdf w)
    (level : Int) (seconds : PyFloat) (text now : String) :
    Exact ctx.opts bdf
      { w with findings := process u ctx w.findings level seconds text now } := by
  have hattached := process_attached (u := u) haer w.findings level seconds text now bdf
  have hcounted := h.counted
  have hexact := h.exact
  constructor
  · intro g hg
    show 1 ≤ g.count
    rw [hg] at hattached
    generalize w.findings.items.get? (correctedKey bdf) = old at hattached hcounted
    cases hattached with
    | same => exact hcounted g rfl
    | created _ count => exact count.ge
    | merged f _ count fails => exact count ▸ hcounted f rfl
  · intro hpos
    obtain ⟨f, hf, hcount, hfails, hjudged⟩ := hexact hpos
    rw [hf] at hattached
    show ∃ g, (process u ctx w.findings level seconds text now).items.get? _ = some g ∧ _
    generalize (process u ctx w.findings level seconds text now).items.get?
      (correctedKey bdf) = new at hattached
    cases hattached with
    | same => exact ⟨f, rfl, hcount, hfails, hjudged⟩
    | merged _ g count fails =>
      exact ⟨g, rfl, count.trans hcount, fun hfail => hfails (fails.mp hfail),
        fun hnone hle => fails.mpr (hjudged hnone hle)⟩

/-- The state in which an increase of the device is added. -/
def World.added (w : World) (r : Reading) : World :=
  { w with
    findings := (w.findings.record (r.call (w.cursor r.bdf r.kind))).1
    judging := some r }

theorem read_eq {r : Reading} (hcounts : r.counts.entries ≠ [])
    (hmore : w.cursor r.bdf r.kind < r.total) : w.read r = w.added r := by
  unfold World.read
  rw [if_neg hcounts, if_pos hmore]
  rfl

theorem get?_added {r : Reading} (habout : r.About bdf) :
    (w.added r).findings.items.get? (correctedKey bdf) =
      some (w.findings.recorded (r.call (w.cursor bdf .correctable))) := by
  have hkey : correctedKey bdf = (r.call (w.cursor bdf .correctable)).key :=
    ((r.key_eq_iff bdf).mpr habout).symm
  show (w.findings.record _).1.items.get? _ = _
  rw [Findings.get?_record, habout.1, habout.2, if_pos hkey]

theorem warns_of_about {r : Reading} (habout : r.About bdf) (prev : Nat) :
    (r.call prev).severity = .warn := by
  show r.kind.severity = _
  rw [habout.2]
  rfl

/-- A finding that is there already is counted in with the first increase. -/
theorem first_of_count {opts : Options} (h : Exact opts bdf w) {r : Reading}
    (habout : r.About bdf) (hzero : w.cursor bdf .correctable = 0)
    (hcount : (w.added r).findings.countOf (correctedKey bdf) = r.total) :
    w.findings.items.get? (correctedKey bdf) = none := by
  cases hold : w.findings.items.get? (correctedKey bdf) with
  | none => rfl
  | some f =>
    have hone := h.counted f hold
    have hkey : correctedKey bdf = (r.call (w.cursor bdf .correctable)).key :=
      ((r.key_eq_iff bdf).mpr habout).symm
    rw [Findings.countOf_of_get? (get?_added habout)] at hcount
    rw [hkey] at hold
    rw [(Findings.recorded_of_some hold).1, hzero] at hcount
    have hcall : (r.call 0).count = (r.total : Int) - (0 : Nat) := rfl
    omega

/-- An increase of the device is counted where it finds no finding or is not the first. -/
theorem exact_added {opts : Options} (h : Exact opts bdf w) (hidle : w.judging = none)
    {r : Reading} (habout : r.About bdf) (hmore : w.cursor bdf .correctable < r.total)
    (hfirst : w.cursor bdf .correctable = 0 →
      w.findings.items.get? (correctedKey bdf) = none) : Exact opts bdf (w.added r) := by
  have hget := get?_added (w := w) habout
  have hwarns := warns_of_about habout (w.cursor bdf .correctable)
  have hkey : correctedKey bdf = (r.call (w.cursor bdf .correctable)).key :=
    ((r.key_eq_iff bdf).mpr habout).symm
  have hcall : (r.call (w.cursor bdf .correctable)).count =
      (r.total : Int) - w.cursor bdf .correctable := rfl
  have hshown : (w.added r).shown bdf = r.total := if_pos habout
  -- what the new finding is worth
  have hworth : (w.findings.recorded (r.call (w.cursor bdf .correctable))).count = r.total ∧
      ((w.findings.recorded (r.call (w.cursor bdf .correctable))).severity = .fail →
        opts.aerFail ≤ r.total) := by
    by_cases hzero : w.cursor bdf .correctable = 0
    · have hold := hfirst hzero
      rw [hkey] at hold
      obtain ⟨hnew, hsev⟩ := Findings.recorded_of_none hold
      refine ⟨by omega, fun hfail => ?_⟩
      rw [hsev, hwarns] at hfail
      cases hfail
    · have hpos : 0 < w.shown bdf := by
        rw [World.shown_of_idle hidle]
        omega
      obtain ⟨f, hf, hcount, hfails, -⟩ := h.exact hpos
      rw [World.shown_of_idle hidle] at hcount hfails
      rw [hkey] at hf
      obtain ⟨hsum, hrank⟩ := Findings.recorded_of_some hf
      refine ⟨by omega, fun hfail => ?_⟩
      have hold : f.severity = .fail := by
        rw [hfail, hwarns] at hrank
        cases hsev : f.severity with
        | fail => rfl
        | info => rw [hsev] at hrank; cases hrank
        | warn => rw [hsev] at hrank; cases hrank
      have := hfails hold
      omega
  constructor
  · intro g hg
    rw [hget] at hg
    obtain rfl := Option.some.inj hg
    omega
  · intro hpos
    rw [hshown]
    exact ⟨_, hget, hworth.1, hworth.2, fun hnone => absurd habout (hnone r rfl)⟩

theorem exact_read {opts : Options} (h : Exact opts bdf w) (hidle : w.judging = none)
    {r : Reading} (hrising : Rising bdf w (.read r)) (hfirst : FirstToReport bdf w (.read r)) :
    Exact opts bdf (w.read r) := by
  have hread : step ascii { opts := opts } w (.read r) = some (w.read r) := by
    rw [step, hidle]
    rfl
  have hshown := shown_step hrising hread
  by_cases hcounts : r.counts.entries = []
  · unfold World.read
    rwa [if_pos hcounts]
  · by_cases hmore : w.cursor r.bdf r.kind < r.total
    · rw [read_eq hcounts hmore] at hshown ⊢
      by_cases habout : r.About bdf
      · rw [habout.1, habout.2] at hmore
        exact exact_added h hidle habout hmore fun hzero => hfirst habout hzero (by omega)
      · -- the reading of another device, or of another kind
        refine h.congr ?_ (hshown.trans ?_) fun _ r' hr' => ?_
        · show (w.findings.record _).1.items.get? _ = _
          rw [Findings.get?_record, if_neg]
          exact fun hkey => habout ((r.key_eq_iff bdf).mp hkey.symm)
        · rw [gain, if_neg habout, add_zero]
        · rw [hidle] at hr'
          cases hr'
    · have hread : w.read r = w.move r := by
        unfold World.read
        rw [if_neg hcounts, if_neg hmore]
      rw [hread] at hshown ⊢
      refine h.congr rfl (hshown.trans ?_) fun _ r' hr' => ?_
      · unfold gain
        dsimp only
        split
        · rename_i habout
          rw [habout.1, habout.2] at hmore
          omega
        · rfl
      · rw [hidle] at hr'
        cases hr'

/-- From the threshold on the finding is escalated, and its count stays. -/
theorem exact_reached {opts : Options} (h : Exact opts bdf w) {r : Reading}
    (hjudging : w.judging = some r) (habout : r.About bdf)
    (hreached : opts.aerFail ≤ w.findings.countOf r.key) : Exact opts bdf (w.judge opts r) := by
  have hshown := World.shown_judge opts hjudging bdf
  have hkey : r.key = correctedKey bdf := (r.key_eq_iff bdf).mpr habout
  have hjudged : (w.judge opts r).findings =
      w.findings.raise { key := correctedKey bdf, severity := .fail } := by
    unfold World.judge
    rw [if_pos ⟨habout.2, hreached⟩, hkey]
  rw [hkey] at hreached
  constructor
  · intro g hg
    rw [hjudged] at hg
    cases hold : w.findings.items.get? (correctedKey bdf) with
    | none =>
      unfold Findings.raise at hg
      simp only [hold] at hg
      cases hg
    | some f =>
      obtain ⟨g', hg', hcount, -⟩ := Findings.raise_fail hold
      rw [hg] at hg'
      obtain rfl := Option.some.inj hg'
      rw [hcount]
      exact h.counted f hold
  · intro hpos
    rw [hshown] at hpos ⊢
    rw [hjudged]
    obtain ⟨f, hf, hcount, -, -⟩ := h.exact hpos
    obtain ⟨g, hg, hgcount, hfail⟩ := Findings.raise_fail hf
    rw [Findings.countOf_of_get? hf] at hreached
    have hle : opts.aerFail ≤ w.shown bdf := hreached.trans hcount.le
    exact ⟨g, hg, hgcount.trans hcount, fun _ => hle, fun _ _ => hfail⟩

/-- Below the threshold nothing changes, and the finding need not fail. -/
theorem exact_short {opts : Options} (h : Exact opts bdf w) {r : Reading}
    (hjudging : w.judging = some r) (habout : r.About bdf)
    (hshort : ¬ opts.aerFail ≤ w.findings.countOf r.key) : Exact opts bdf (w.judge opts r) := by
  have hshown := World.shown_judge opts hjudging bdf
  have hjudged : (w.judge opts r).findings = w.findings := by
    unfold World.judge
    rw [if_neg fun hand => hshort hand.2]
    rfl
  rw [(r.key_eq_iff bdf).mpr habout] at hshort
  constructor
  · rw [hjudged]
    exact h.counted
  · intro hpos
    rw [hshown] at hpos ⊢
    rw [hjudged]
    obtain ⟨f, hf, hcount, hfails, -⟩ := h.exact hpos
    rw [Findings.countOf_of_get? hf] at hshort
    exact ⟨f, hf, hcount, hfails, fun _ hle => absurd (hle.trans hcount.ge) hshort⟩

theorem exact_judge {opts : Options} (h : Exact opts bdf w) {r : Reading}
    (hjudging : w.judging = some r) : Exact opts bdf (w.judge opts r) := by
  by_cases habout : r.About bdf
  · by_cases hreached : opts.aerFail ≤ w.findings.countOf r.key
    · exact exact_reached h hjudging habout hreached
    · exact exact_short h hjudging habout hreached
  · have hget : (w.judge opts r).findings.items.get? (correctedKey bdf) =
        w.findings.items.get? (correctedKey bdf) := by
      unfold World.judge
      dsimp only
      split
      · have hne : correctedKey bdf ≠ r.key := fun hkey =>
          habout ((r.key_eq_iff bdf).mp hkey.symm)
        exact Findings.get?_raise_ne (c := { key := r.key, severity := .fail }) hne
      · rfl
    refine h.congr hget (World.shown_judge opts hjudging bdf) fun _ r' hr' => ?_
    rw [hjudging] at hr'
    obtain rfl := Option.some.inj hr'
    exact habout

/-- A step keeps the count exact where a first increase finds no finding. -/
theorem exact_step (haer : .aer ∈ ctx.sysfsCounters) {e : Event} (h : Exact ctx.opts bdf w)
    (hrising : Rising bdf w e) (hfirst : FirstToReport bdf w e) (ht : step u ctx w e = some t) :
    Exact ctx.opts bdf t := by
  cases e with
  | message level seconds text now =>
    obtain rfl := Option.some.inj ht
    exact exact_message haer h level seconds text now
  | read r =>
    obtain ⟨hidle, rfl⟩ := read_of_step ht
    exact exact_read h hidle hrising hfirst
  | judge =>
    obtain ⟨r, hj, rfl⟩ := judge_of_step ht
    exact exact_judge h hj

/-- The count of the device is what it has been shown, and it fails as it should. -/
def Counted (opts : Options) (bdf : String) (w : World) : Prop :=
  0 < w.shown bdf → w.findings.countOf (correctedKey bdf) = w.shown bdf ∧
    (w.judging = none → (w.findings.items.Fails (correctedKey bdf) ↔ opts.aerFail ≤ w.shown bdf))

theorem Exact.toCounted {opts : Options} (h : Exact opts bdf w) : Counted opts bdf w := by
  intro hpos
  obtain ⟨f, hf, hcount, hfails, hjudged⟩ := h.exact hpos
  refine ⟨(Findings.countOf_of_get? hf).trans hcount, fun hidle => ?_⟩
  constructor
  · intro hex
    obtain ⟨g, hg, hfail⟩ := hex
    rw [hf] at hg
    obtain rfl := Option.some.inj hg
    exact hfails hfail
  · intro hle
    refine ⟨f, hf, hjudged (fun r hr => ?_) hle⟩
    rw [hidle] at hr
    cases hr

theorem first_of_counted {e : Event} (h : Exact ctx.opts bdf w) (ht : step u ctx w e = some t)
    (hcounted : Counted ctx.opts bdf t) : FirstToReport bdf w e := by
  cases e with
  | message level seconds text now => trivial
  | judge => trivial
  | read r =>
    intro habout hzero hpos
    obtain ⟨-, rfl⟩ := read_of_step ht
    have hcounts : r.counts.entries ≠ [] := by
      intro hempty
      rw [Reading.total_of_empty hempty] at hpos
      exact lt_irrefl 0 hpos
    have hmore : w.cursor r.bdf r.kind < r.total := by rw [habout.1, habout.2]; omega
    rw [read_eq hcounts hmore] at hcounted
    have hshown : (w.added r).shown bdf = r.total := if_pos habout
    refine first_of_count h habout hzero ?_
    rw [← hshown]
    exact (hcounted (by omega)).1

/-- The count is the increase that the monitor has seen, whatever the kernel log says and
when, exactly where the first increase of the device finds no finding of it. -/
theorem owned_iff_first_to_report (u : CharTable) {ctx : Kernel.Context}
    (haer : .aer ∈ ctx.sysfsCounters) {bdf : String} {fs : Findings}
    (hnew : fs.items.get? (correctedKey bdf) = none) {es : List Event} {w : World}
    (hrising : Along (step u ctx) (Rising bdf) (start fs) es)
    (hrun : run (step u ctx) (start fs) es = some w) :
    OwnedBySysfs u ctx bdf (start fs) es ↔
      Along (step u ctx) (FirstToReport bdf) (start fs) es := by
  have hstart : (start fs).shown bdf = 0 := rfl
  have hexact : Exact ctx.opts bdf (start fs) := by
    refine ⟨fun f hf => ?_, fun hpos => absurd hpos (by rw [hstart]; exact lt_irrefl 0)⟩
    rw [show (start fs).findings = fs from rfl, hnew] at hf
    cases hf
  rw [← always_iff_along_of (fun _ h => h.toCounted)
    (fun _ _ _ h hr hf ht => exact_step haer h hr hf ht)
    (fun _ _ _ h _ ht hc => first_of_counted h ht hc) hexact hrising hrun]
  have hshown : ∀ pre, pre <+: es → ∀ t, run (step u ctx) (start fs) pre = some t →
      t.shown bdf = total (step u ctx) (gain bdf) (start fs) pre := by
    intro pre hpre t ht
    have hmeasure := measure_eq_total (g := fun w => w.shown bdf)
      (fun _ _ _ hr ht => shown_step hr ht) (along_initial hpre hrising) ht
    rw [hmeasure, hstart, Nat.zero_add]
  constructor
  · intro h pre hpre t ht
    have howned := h pre hpre t ht
    rwa [← hshown pre hpre t ht] at howned
  · intro h pre hpre t ht
    have hcounted := h pre hpre t ht
    unfold Counted at hcounted
    rwa [hshown pre hpre t ht] at hcounted

def sysfsOwned : Kernel.Context := { opts := {}, sysfsCounters := [.aer] }

def correctedMessage : Event :=
  .message 4 (.finite 300) "0000:01:00.0: PCIe Bus Error: severity=Corrected" ""

def threeErrors : Reading :=
  { bdf := "0000:01:00.0", kind := .correctable, counts := Dict.ofList [("TOTAL_ERR_COR", 3)] }

theorem owned_iff_first_to_report_poll :
    OwnedBySysfs ascii sysfsOwned "0000:01:00.0" (start Findings.new)
      [.read threeErrors, .judge, correctedMessage] := by
  have hrun : run (step ascii sysfsOwned) (start Findings.new)
      [.read threeErrors, .judge, correctedMessage] = some _ := rfl
  refine (owned_iff_first_to_report ascii (by decide) rfl ?_ hrun).mpr ?_
  · exact ⟨fun _ _ => Nat.zero_le _, fun _ _ => ⟨trivial, fun _ _ => ⟨trivial, fun _ _ => trivial⟩⟩⟩
  · exact ⟨fun _ _ _ => rfl, fun _ _ => ⟨trivial, fun _ _ => ⟨trivial, fun _ _ => trivial⟩⟩⟩

/-- The kernel log comes first, and its message is counted as an error. -/
theorem message_is_counted :
    ¬ ∀ (u : CharTable) (ctx : Kernel.Context) (bdf : String) (fs : Findings) (es : List Event)
      (w : World), .aer ∈ ctx.sysfsCounters → fs.items.get? (correctedKey bdf) = none →
      Along (step u ctx) (Rising bdf) (start fs) es → run (step u ctx) (start fs) es = some w →
      OwnedBySysfs u ctx bdf (start fs) es := by
  intro h
  have howned := h ascii sysfsOwned "0000:01:00.0" Findings.new
    [correctedMessage, .read threeErrors, .judge] _ (by decide) rfl
    ⟨trivial, fun t ht => ⟨fun _ _ => ?_, fun _ _ => ⟨trivial, fun _ _ => trivial⟩⟩⟩ rfl
  · have hcount := (howned _ List.prefix_rfl _ rfl (by decide +kernel)).1
    exact absurd hcount (by decide +kernel)
  · obtain rfl := Option.some.inj ht
    exact Nat.zero_le _

end Aer
end PcCheck
