/-
The disk tests over the boots of a session.

An event is one half of `start_disk_tests`, a step of a scan thread or a write test, a
save, or the end of the process.  `begin` takes the session up again from the stick, so a
process that ends between any two events loses what it had not saved.  A thread may take a
turn whenever the condition of its loop holds, also where a `break` would have ended it;
nothing here depends on the difference.  Beside the session state a `Snapshot` keeps what
the program cannot know: which disks were shown in a countdown that was confirmed, and how
far each device has come by itself.
-/
import PcCheck.Disks
import PcCheck.Lib.EventMachine
import Mathlib.Logic.Function.Basic

namespace PcCheck

structure Snapshot (δ : Type) where
  state : SessionState
  /-- The disks of the countdown that was confirmed. -/
  confirmed : List (Disk δ) := []
  /-- The progress of each device, as a map keyed by the device would hold it. -/
  own : δ → Progress := fun _ => {}

namespace DiskRuns

variable {δ : Type} [DecidableEq δ]

structure World (δ : Type) where
  stick : Snapshot δ
  live : Option (Snapshot δ × DiskManager δ)
  /-- Every record `start_scans` has listed so far. -/
  taken : List (Disk δ) := []

inductive Event (δ : Type) where
  | begin (cfg : DiskConfig)
  | choose (listing : Lsblk δ) (probe : String → Probe) (countdown : Countdown)
  | scan (second third : Lsblk δ) (probe : String → Probe)
  | cannotOpen (i : Nat)
  | turn (i : Nat) (slowReadSeconds : PyFloat) (r : ReadResult)
  | mark (i : Nat)
  | exit (i : Nat) (code : Int) (outputTail : List String)
  | saveProgress
  | save
  | finish
  | die

def ownScan (own : δ → Progress) (s : SurfaceScan δ) : δ → Progress :=
  Function.update own s.disk.device ⟨s.offset, s.done⟩

def ownWriter (own : δ → Progress) (w : WriteVerify δ) : δ → Progress :=
  Function.update own w.disk.device { own w.disk.device with done := w.done }

def saveBoth (snap : Snapshot δ) (dm : DiskManager δ) : Snapshot δ × DiskManager δ :=
  let (dm', st, _) := dm.saveProgress snap.state ""
  ({ snap with state := st, own := dm'.writers.foldl ownWriter (dm.scans.foldl ownScan snap.own) },
    dm')

/-- Both halves run only before the disk tests are finished, the first only once. -/
def choosing (st : SessionState) : Bool := !st.diskTestsFinished && st.destructiveDisks.isNone

def scanning (st : SessionState) : Bool := !st.diskTestsFinished && st.destructiveDisks.isSome

def act (w : World δ) (snap : Snapshot δ) (dm : DiskManager δ) : Event δ → Option (World δ)
  | .begin _ => none
  | .choose listing probe countdown =>
    if choosing snap.state then
      match chooseDisks dm.config listing probe countdown "" snap.state with
      | .error _ => some w
      | .ok chosen =>
        let snap := { snap with state := chosen.state, confirmed := chosen.confirmed }
        some { w with live := some (snap, dm), stick := snap }
    else none
  | .scan second third probe =>
    if scanning snap.state then
      match scanDisks dm second third probe "" snap.state, blockDisks dm.config.exclude third with
      | .ok r, .ok disks =>
        some { w with
          live := some ({ snap with state := r.state }, r.manager), taken := w.taken ++ disks }
      | _, _ => some w
    else none
  | .cannotOpen i =>
    some { w with live := some (snap, { dm with
      scans := dm.scans.modify i SurfaceScan.cannotOpen }) }
  | .turn i slow r =>
    some { w with live := some (snap, { dm with
      scans := dm.scans.modify i fun s => if s.reading false then (s.turn slow r).1 else s }) }
  | .mark i =>
    some { w with live := some (snap, { dm with scans := dm.scans.modify i SurfaceScan.mark }) }
  | .exit i code tail =>
    some { w with live := some (snap, { dm with
      writers := dm.writers.modify i fun w =>
        { w with exitCode := some code, outputTail := tail } }) }
  | .saveProgress => some { w with live := some (saveBoth snap dm) }
  | .save => some { w with stick := snap }
  | .finish =>
    let snap := { snap with state := { snap.state with diskTestsFinished := true } }
    some { w with stick := snap, live := some (snap, dm) }
  | .die => some { w with live := none }

def step (w : World δ) (e : Event δ) : Option (World δ) :=
  match w.live, e with
  | some (snap, dm), e => act w snap dm e
  | none, .begin cfg => some { w with live := some (w.stick, { config := cfg, resumed := true }) }
  | none, _ => none

def opened (st : SessionState) (cfg : DiskConfig) : World δ :=
  { stick := { state := st }, live := some ({ state := st }, { config := cfg, resumed := false }) }

theorem step_cases {w t : World δ} {e : Event δ} (h : step w e = some t) :
    (∃ cfg, e = .begin cfg ∧
      t = { w with live := some (w.stick, { config := cfg, resumed := true }) }) ∨
    ∃ snap dm, w.live = some (snap, dm) ∧ act w snap dm e = some t := by
  cases hl : w.live with
  | none =>
    cases e with
    | begin cfg =>
      simp only [step, hl, Option.some.injEq] at h
      exact Or.inl ⟨cfg, rfl, h.symm⟩
    | _ => simp only [step, hl, reduceCtorEq] at h
  | some both =>
    simp only [step, hl] at h
    exact Or.inr ⟨both.1, both.2, rfl, h⟩

/-- A property of the saved state and of the one in memory. -/
structure World.Everywhere (P : Snapshot δ → Prop) (w : World δ) : Prop where
  stick : P w.stick
  live : ∀ snap dm, w.live = some (snap, dm) → P snap

namespace World.Everywhere

variable {P : Snapshot δ → Prop} {w : World δ}

omit [DecidableEq δ] in
theorem put (h : w.Everywhere P) {snap : Snapshot δ} (hP : P snap) (dm : DiskManager δ)
    (taken : List (Disk δ)) :
    Everywhere P { stick := w.stick, live := some (snap, dm), taken := taken } := by
  refine ⟨h.stick, fun snap' dm' hlive => ?_⟩
  obtain ⟨rfl, -⟩ := Prod.mk.inj (Option.some.inj hlive)
  exact hP

omit [DecidableEq δ] in
theorem save {snap : Snapshot δ} (hP : P snap) (dm : DiskManager δ) (taken : List (Disk δ)) :
    Everywhere P { stick := snap, live := some (snap, dm), taken := taken } := by
  refine ⟨hP, fun snap' dm' hlive => ?_⟩
  obtain ⟨rfl, -⟩ := Prod.mk.inj (Option.some.inj hlive)
  exact hP

omit [DecidableEq δ] in
theorem die (h : w.Everywhere P) :
    Everywhere P { stick := w.stick, live := none, taken := w.taken } := by
  refine ⟨h.stick, fun snap dm hlive => ?_⟩
  cases hlive

end World.Everywhere

theorem act_choose {w t : World δ} {snap : Snapshot δ} {dm : DiskManager δ} {listing : Lsblk δ}
    {probe : String → Probe} {countdown : Countdown}
    (h : act w snap dm (.choose listing probe countdown) = some t) :
    t = w ∨ ∃ chosen, chooseDisks dm.config listing probe countdown "" snap.state = .ok chosen ∧
      t = { w with
        live := some ({ snap with state := chosen.state, confirmed := chosen.confirmed }, dm),
        stick := { snap with state := chosen.state, confirmed := chosen.confirmed } } := by
  simp only [act] at h
  by_cases hc : choosing snap.state = true
  · rw [if_pos hc] at h
    cases hch : chooseDisks dm.config listing probe countdown "" snap.state with
    | error e =>
      rw [hch] at h
      exact Or.inl (Option.some.inj h).symm
    | ok chosen =>
      rw [hch] at h
      exact Or.inr ⟨chosen, rfl, (Option.some.inj h).symm⟩
  · rw [if_neg hc] at h
    cases h

theorem act_scan {w t : World δ} {snap : Snapshot δ} {dm : DiskManager δ}
    {second third : Lsblk δ} {probe : String → Probe}
    (h : act w snap dm (.scan second third probe) = some t) :
    t = w ∨ ∃ names disks, blockDisks dm.config.exclude third = .ok disks ∧
      scanDisks dm second third probe "" snap.state =
        .ok (DiskManager.startScans names probe "" dm snap.state disks) ∧
      t = { w with
        live := some
          ({ snap with state := (DiskManager.startScans names probe "" dm snap.state disks).state },
            (DiskManager.startScans names probe "" dm snap.state disks).manager),
        taken := w.taken ++ disks } := by
  simp only [act] at h
  by_cases hc : scanning snap.state = true
  · rw [if_pos hc] at h
    cases hs : scanDisks dm second third probe "" snap.state with
    | error e =>
      rw [hs] at h
      exact Or.inl (Option.some.inj h).symm
    | ok r =>
      obtain ⟨ds, disks, -, hdisks, rfl⟩ := scanDisks_eq_ok hs
      rw [hs, hdisks] at h
      exact Or.inr ⟨_, disks, hdisks, rfl, (Option.some.inj h).symm⟩
  · rw [if_neg hc] at h
    cases h

/-! ## An example session -/

def exampleSession : SessionState :=
  SessionState.fresh "20260101-000000_SN1" ⟨"0123456789ab", "SN1"⟩ { destructive := "1" } []
    ⟨"boot-1", "2026-01-01T00:00:00", 0⟩

def exampleConfig : DiskConfig :=
  { opts := { destructive := "1" }, bootDisk := "sdz", logDisk := "sdz" }

def exampleDevice (n : Nat) (name serial : String) : LsblkDevice Nat :=
  { device := n, name := name, type := "disk", size := 100, serial := serial }

def exampleDisk (n : Nat) (name serial : String) : Disk Nat :=
  { device := n, name := name, size := 100, serial := serial }

def exampleListing (devices : List (LsblkDevice Nat)) : Lsblk Nat :=
  { returncode := 0, devices := some devices }

def exampleProbe (mounted : List String) (name : String) : Probe :=
  { signaturesCode := 0, signatures := "", topologyCode := 0,
    topology := some (.obj [("blockdevices", .arr [.obj [("name", .str name),
      ("mountpoints", .arr [if name ∈ mounted then .str "/mnt" else .null])]])]),
    holders := fun _ => false }

/-- Two namespaces of one controller, which report its serial number. -/
def namespaces : Lsblk Nat :=
  exampleListing [exampleDevice 1 "nvme0n1" "S1", exampleDevice 2 "nvme0n2" "S1"]

theorem blockDisks_namespaces : blockDisks exampleConfig.exclude namespaces =
    .ok [exampleDisk 1 "nvme0n1" "S1", exampleDisk 2 "nvme0n2" "S1"] := by decide +kernel

def confirmedSnapshot (disks : List (Disk Nat)) : Snapshot Nat :=
  { state := { exampleSession with
      destructiveDisks := some (disks.map Disk.name),
      destructiveIdentities := some (identitiesOf disks) },
    confirmed := disks }

def exampleManager : DiskManager Nat := { config := exampleConfig, resumed := false }

theorem step_choose {devices : List (LsblkDevice Nat)} {mounted : List String}
    {disks eligible skipped : List (Disk Nat)}
    (hds : blockDisks exampleConfig.exclude (exampleListing devices) = .ok disks)
    (hc : exampleConfig.destructiveCandidates (exampleProbe mounted) disks =
      .ok (eligible, skipped)) :
    step (opened exampleSession exampleConfig)
        (.choose (exampleListing devices) (exampleProbe mounted) .confirmed) =
      some { stick := confirmedSnapshot eligible,
             live := some (confirmedSnapshot eligible, exampleManager) } := by
  have hchoose := chooseDisks_of_confirmed (by decide +kernel) hds hc "" exampleSession
  simp only [step, opened, act, hchoose]
  rfl

end DiskRuns
end PcCheck
