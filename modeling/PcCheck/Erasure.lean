/-
Which disks are overwritten.

The operator confirms disks, the session keeps their identities and sizes, and
`start_disk_tests` finds the disks again by listing twice: the identities are matched
against one listing, and `start_scans` takes the disks of the next one by name.  A disk
that is written to always passes the safety checks of that moment.  That it carries a
confirmed identity needs the two listings to agree on its name, and that it was shown to
the operator needs a confirmed identity to stand for one device.
-/
import PcCheck.DiskRuns

namespace PcCheck
namespace DiskRuns

open EventMachine

variable {δ : Type}

/-- A write test started by the event is safe: its disk passes the checks, carries a saved
identity, and in a resumed session has a serial number or a WWN. -/
def ErasesSafely (w : World δ) : Event δ → Prop
  | .scan second third probe => ∀ snap dm, w.live = some (snap, dm) → scanning snap.state →
      ∀ r, scanDisks dm second third probe "" snap.state = .ok r →
      ∀ d, (d, .writes) ∈ r.decisions →
        Overwritable dm.config d (probe d.name) ∧
        (snap.state.destructiveIdentities.getD Dict.empty).get? (diskId d) = some d.size ∧
        (dm.resumed = true → d.wwn ≠ "" ∨ d.serial ≠ "")
  | _ => True

/-- A name under which a disk was matched in the first listing shows the same identity and size
in the second. -/
def NamesHold (w : World δ) : Event δ → Prop
  | .scan second third _ => ∀ snap dm, w.live = some (snap, dm) →
      ∀ ds es, blockDisks dm.config.exclude second = .ok ds →
      blockDisks dm.config.exclude third = .ok es →
      ∀ e ∈ matching (snap.state.destructiveIdentities.getD Dict.empty) ds, ∀ d ∈ es,
        e.name = d.name → diskId d = diskId e ∧ d.size = e.size
  | _ => True

theorem erasesSafely_of_namesHold {w : World δ} {e : Event δ} (h : NamesHold w e) :
    ErasesSafely w e := by
  cases e with
  | scan second third probe =>
    intro snap dm hlive hscan r hr d hd
    obtain ⟨ds, es, hds, hes, hmem, hw, e, he, hname, hmatch⟩ := of_scanDisks_writes hr hd
    have hmatched : e ∈ matching (snap.state.destructiveIdentities.getD Dict.empty) ds :=
      List.mem_filter.mpr ⟨he, decide_eq_true hmatch⟩
    obtain ⟨hid, hsize⟩ := h snap dm hlive ds es hds hes e hmatched d hmem hname
    refine ⟨DiskConfig.overwritable_of_eligible hw.eligible, ?_, hw.identified⟩
    rw [hid, hsize]
    exact hmatch
  | _ => trivial

/-- From any saved state, every write test of a run is safe when no disk takes the name of a
matched one between two listings. -/
theorem erases_safely [DecidableEq δ] (w : World δ) {es : List (Event δ)}
    (h : Along step NamesHold w es) : Along step ErasesSafely w es :=
  along_mono (fun _ _ => erasesSafely_of_namesHold) h

def oneConfirmed (second third : List (LsblkDevice Nat)) : List (Event Nat) :=
  [.choose (exampleListing [exampleDevice 0 "sda" "S1"]) (exampleProbe []) .confirmed,
    .scan (exampleListing second) (exampleListing third) (exampleProbe [])]

def oneWorld : World Nat :=
  { stick := confirmedSnapshot [exampleDisk 0 "sda" "S1"],
    live := some (confirmedSnapshot [exampleDisk 0 "sda" "S1"], exampleManager) }

theorem blockDisks_one :
    blockDisks exampleConfig.exclude (exampleListing [exampleDevice 0 "sda" "S1"]) =
      .ok [exampleDisk 0 "sda" "S1"] := by decide +kernel

theorem step_oneConfirmed :
    step (opened exampleSession exampleConfig)
        (.choose (exampleListing [exampleDevice 0 "sda" "S1"]) (exampleProbe []) .confirmed) =
      some oneWorld := by
  have hfound : exampleConfig.destructiveCandidates (exampleProbe []) [exampleDisk 0 "sda" "S1"] =
      .ok ([exampleDisk 0 "sda" "S1"], []) := by decide +kernel
  exact step_choose blockDisks_one hfound

theorem erases_safely_unmoved :
    Along step ErasesSafely (opened exampleSession exampleConfig)
      (oneConfirmed [exampleDevice 0 "sda" "S1"] [exampleDevice 0 "sda" "S1"]) := by
  refine erases_safely _ ⟨trivial, fun t ht => ⟨?_, fun _ _ => trivial⟩⟩
  obtain rfl := Option.some.inj (step_oneConfirmed.symm.trans ht)
  intro snap dm hlive ds es hds hes e he d hd hname
  obtain ⟨rfl, rfl⟩ := Prod.mk.inj (Option.some.inj hlive)
  obtain rfl := Except.ok.inj (blockDisks_one.symm.trans hds)
  obtain rfl := Except.ok.inj (blockDisks_one.symm.trans hes)
  obtain rfl := List.mem_singleton.mp (List.mem_filter.mp he).1
  obtain rfl := List.mem_singleton.mp hd
  exact ⟨rfl, rfl⟩

/-- A disk that takes the place of the confirmed one between the two listings of a call is
written to. -/
theorem replaced_between_listings :
    ¬ ∀ (w : World Nat) (es : List (Event Nat)), Along step ErasesSafely w es := by
  intro h
  have htwo : blockDisks exampleConfig.exclude (exampleListing [exampleDevice 1 "sda" "S2"]) =
      .ok [exampleDisk 1 "sda" "S2"] := by decide +kernel
  have hdecision : exampleManager.decision (confirmedSnapshot [exampleDisk 0 "sda" "S1"]).state
      ["sda"] (exampleProbe []) (exampleDisk 1 "sda" "S2") = .ok .writes := by decide +kernel
  have hscan := scanDisks_of_listings exampleManager blockDisks_one htwo (exampleProbe []) ""
    (confirmedSnapshot [exampleDisk 0 "sda" "S1"]).state
  have hwrites := DiskManager.mem_decisions_head hdecision "" []
  obtain ⟨-, hsafe⟩ := h (opened exampleSession exampleConfig)
    (oneConfirmed [exampleDevice 0 "sda" "S1"] [exampleDevice 1 "sda" "S2"])
  have hscanned := (hsafe oneWorld step_oneConfirmed).1 _ _ rfl rfl _ hscan _ hwrites
  exact absurd hscanned.2.1 (by decide +kernel)

/-! ## Consent -/

/-- Every saved identity is that of a disk the operator confirmed. -/
def Consented (snap : Snapshot δ) : Prop :=
  ∀ ident size, (snap.state.destructiveIdentities.getD Dict.empty).get? ident = some size →
    ∃ c ∈ snap.confirmed, diskId c = ident ∧ c.size = size

theorem consented_congr {snap snap' : Snapshot δ} (h : Consented snap)
    (hid : snap'.state.destructiveIdentities = snap.state.destructiveIdentities)
    (hconf : snap'.confirmed = snap.confirmed) : Consented snap' := by
  unfold Consented
  rw [hid, hconf]
  exact h

theorem saveScan_frame (st : SessionState) (s : SurfaceScan δ) :
    (st.saveScan s).destructiveIdentities = st.destructiveIdentities := by
  unfold SessionState.saveScan
  cases st.diskScans.get? (diskId s.disk) <;> rfl

theorem saveWriter_frame (st : SessionState) (w : WriteVerify δ) :
    (st.saveWriter w).destructiveIdentities = st.destructiveIdentities := by
  unfold SessionState.saveWriter
  cases st.diskScans.get? (diskId w.disk) <;> rfl

theorem foldl_frame {σ α γ : Type} {f : σ → α → σ} {g : σ → γ} (h : ∀ s a, g (f s a) = g s)
    (l : List α) (s : σ) : g (l.foldl f s) = g s := by
  induction l generalizing s with
  | nil => rfl
  | cons a rest ih => exact (ih (f s a)).trans (h s a)

theorem saveProgress_frame (dm : DiskManager δ) (st : SessionState) (now : String) :
    (dm.saveProgress st now).2.1.destructiveIdentities = st.destructiveIdentities :=
  (foldl_frame saveWriter_frame _ _).trans (foldl_frame saveScan_frame dm.scans st)

theorem consented_chosen {cfg : DiskConfig} {listing : Lsblk δ} {probe : String → Probe}
    {countdown : Countdown} {now : String} {snap : Snapshot δ} {chosen : Chosen δ}
    (h : chooseDisks cfg listing probe countdown now snap.state = .ok chosen) :
    Consented { snap with state := chosen.state, confirmed := chosen.confirmed } := by
  intro ident size hget
  rw [chooseDisks_state h] at hget
  exact mem_of_get?_identitiesOf hget

/-- A write test started by the event is on a device the operator was shown. -/
def ErasesShown (w : World δ) : Event δ → Prop
  | .scan second third probe => ∀ snap dm, w.live = some (snap, dm) → scanning snap.state →
      ∀ r, scanDisks dm second third probe "" snap.state = .ok r →
      ∀ d, (d, .writes) ∈ r.decisions → ∃ c ∈ snap.confirmed, c.device = d.device
  | _ => True

/-- A confirmed identity stands for its own device: the disk that answers to it in the
first listing, and the one that passes the checks under that name in the second. -/
def IdentityHolds (w : World δ) : Event δ → Prop
  | .scan second third probe => ∀ snap dm, w.live = some (snap, dm) →
      ∀ ds es, blockDisks dm.config.exclude second = .ok ds →
      blockDisks dm.config.exclude third = .ok es →
      ∀ c ∈ snap.confirmed, ∀ e ∈ ds, ∀ d ∈ es, diskId c = diskId e → c.size = e.size →
      e.name = d.name → dm.Writable snap.state probe d →
      c.device = e.device ∧ e.device = d.device
  | _ => True

theorem erasesShown_of_identityHolds {w : World δ} {e : Event δ}
    (hw : w.Everywhere Consented) (h : IdentityHolds w e) : ErasesShown w e := by
  cases e with
  | scan second third probe =>
    intro snap dm hlive hscan r hr d hd
    obtain ⟨ds, es, hds, hes, hmem, hwritable, e, he, hname, hmatch⟩ :=
      of_scanDisks_writes hr hd
    obtain ⟨c, hc, hid, hsize⟩ := hw.live snap dm hlive _ _ hmatch
    obtain ⟨hce, hed⟩ :=
      h snap dm hlive ds es hds hes c hc e he d hmem hid hsize hname hwritable
    exact ⟨c, hc, hce.trans hed⟩
  | _ => trivial

theorem consented_step [DecidableEq δ] {w t : World δ} {e : Event δ} (h : w.Everywhere Consented)
    (ht : step w e = some t) : t.Everywhere Consented := by
  rcases step_cases ht with ⟨cfg, rfl, rfl⟩ | ⟨snap, dm, hl, hact⟩
  · exact h.put h.stick _ _
  · have hsnap := h.live snap dm hl
    cases e with
    | begin cfg => cases hact
    | choose listing probe countdown =>
      rcases act_choose hact with rfl | ⟨chosen, hch, rfl⟩
      · exact h
      · exact World.Everywhere.save (consented_chosen hch) _ _
    | scan second third probe =>
      rcases act_scan hact with rfl | ⟨names, disks, -, -, rfl⟩
      · exact h
      · have hscans : Consented { snap with
            state := (DiskManager.startScans names probe "" dm snap.state disks).state } := by
          obtain ⟨scans, hscans⟩ := DiskManager.startScans_frame names probe "" disks dm snap.state
          rw [hscans]
          exact hsnap
        exact h.put hscans _ _
    | cannotOpen i =>
      obtain rfl := Option.some.inj hact
      exact h.put hsnap _ _
    | turn i slow r =>
      obtain rfl := Option.some.inj hact
      exact h.put hsnap _ _
    | mark i =>
      obtain rfl := Option.some.inj hact
      exact h.put hsnap _ _
    | exit i code tail =>
      obtain rfl := Option.some.inj hact
      exact h.put hsnap _ _
    | saveProgress =>
      obtain rfl := Option.some.inj hact
      have hboth : Consented (saveBoth snap dm).1 :=
        consented_congr hsnap (saveProgress_frame dm snap.state "") rfl
      exact h.put hboth _ _
    | save =>
      obtain rfl := Option.some.inj hact
      rw [hl]
      exact World.Everywhere.save hsnap _ _
    | finish =>
      obtain rfl := Option.some.inj hact
      have hfinished : Consented
          { snap with state := { snap.state with diskTestsFinished := true } } := hsnap
      exact World.Everywhere.save hfinished _ _
    | die =>
      obtain rfl := Option.some.inj hact
      exact h.die

theorem consented_opened {st : SessionState} (hst : st.destructiveIdentities = none)
    (cfg : DiskConfig) : (opened (δ := δ) st cfg).Everywhere Consented := by
  refine World.Everywhere.save (fun ident size hget => ?_) _ _
  rw [hst] at hget
  cases hget

/-- Nothing is erased that the operator was not shown, over all the boots of a session in
which a confirmed identity stands for its own device. -/
theorem erases_shown [DecidableEq δ] (name : String) (identity : Identity) (opts : Options)
    (plan : List PlanEntry) (m : Machine) (cfg : DiskConfig) {es : List (Event δ)}
    (h : Along step IdentityHolds
      (opened (SessionState.fresh name identity opts plan m) cfg) es) :
    Along step ErasesShown (opened (SessionState.fresh name identity opts plan m) cfg) es :=
  along_of_preserves (fun _ _ _ hw _ ht => consented_step hw ht)
    (fun _ _ hw hC => erasesShown_of_identityHolds hw hC) (consented_opened rfl cfg) h

theorem step_namespaces :
    step (opened exampleSession exampleConfig)
        (.choose namespaces (exampleProbe ["nvme0n1"]) .confirmed) =
      some { stick := confirmedSnapshot [exampleDisk 2 "nvme0n2" "S1"],
             live := some (confirmedSnapshot [exampleDisk 2 "nvme0n2" "S1"], exampleManager) } := by
  have hfound : exampleConfig.destructiveCandidates (exampleProbe ["nvme0n1"])
      [exampleDisk 1 "nvme0n1" "S1", exampleDisk 2 "nvme0n2" "S1"] =
      .ok ([exampleDisk 2 "nvme0n2" "S1"], [exampleDisk 1 "nvme0n1" "S1"]) := by decide +kernel
  exact step_choose blockDisks_namespaces hfound

theorem erases_shown_unmoved :
    Along step ErasesShown (opened exampleSession exampleConfig)
      (oneConfirmed [exampleDevice 0 "sda" "S1"] [exampleDevice 0 "sda" "S1"]) := by
  refine erases_shown _ _ _ _ _ _ ⟨trivial, fun t ht => ⟨?_, fun _ _ => trivial⟩⟩
  obtain rfl := Option.some.inj (step_oneConfirmed.symm.trans ht)
  intro snap dm hlive ds es hds hes c hc e he d hd hid hsize hname hw
  obtain ⟨rfl, rfl⟩ := Prod.mk.inj (Option.some.inj hlive)
  obtain rfl := Except.ok.inj (blockDisks_one.symm.trans hds)
  obtain rfl := Except.ok.inj (blockDisks_one.symm.trans hes)
  obtain rfl := List.mem_singleton.mp hc
  obtain rfl := List.mem_singleton.mp he
  obtain rfl := List.mem_singleton.mp hd
  exact ⟨rfl, rfl⟩

/-- A namespace that was in use when its sibling was confirmed is written to once it is
idle. -/
theorem sibling_is_erased :
    ¬ ∀ (name : String) (identity : Identity) (opts : Options) (plan : List PlanEntry)
      (m : Machine) (cfg : DiskConfig) (es : List (Event Nat)),
      Along step ErasesShown (opened (SessionState.fresh name identity opts plan m) cfg) es := by
  intro h
  have hdecision : exampleManager.decision
      (confirmedSnapshot [exampleDisk 2 "nvme0n2" "S1"]).state ["nvme0n1", "nvme0n2"]
      (exampleProbe []) (exampleDisk 1 "nvme0n1" "S1") = .ok .writes := by decide +kernel
  have hscan := scanDisks_of_listings exampleManager blockDisks_namespaces
    blockDisks_namespaces (exampleProbe []) ""
    (confirmedSnapshot [exampleDisk 2 "nvme0n2" "S1"]).state
  have hwrites := DiskManager.mem_decisions_head hdecision "" [exampleDisk 2 "nvme0n2" "S1"]
  obtain ⟨-, hshown⟩ := h "20260101-000000_SN1" ⟨"0123456789ab", "SN1"⟩ { destructive := "1" } []
    ⟨"boot-1", "2026-01-01T00:00:00", 0⟩ exampleConfig
    [.choose namespaces (exampleProbe ["nvme0n1"]) .confirmed,
      .scan namespaces namespaces (exampleProbe [])]
  obtain ⟨c, hc, hdevice⟩ :=
    (hshown _ step_namespaces).1 _ _ rfl rfl _ hscan _ hwrites
  obtain rfl := List.mem_singleton.mp hc
  cases hdevice

end DiskRuns
end PcCheck
