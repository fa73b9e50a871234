/-
How far each disk has come.

`disk_scans` keeps the progress of the disks under their serial numbers, WWNs or names,
and `save_progress` writes it for each scan in turn.  `Snapshot.own` is the map that is
meant: the progress of each device, kept by device.  The two agree as long as a name
stands for one device and a device keeps its name.
-/
import PcCheck.DiskRuns

namespace PcCheck
namespace DiskRuns

open EventMachine

variable {δ : Type}

/-- A scan resumes where its own device was left, and a disk is skipped when its own
device is done. -/
def OwnProgress (w : World δ) : Event δ → Prop
  | .scan second third probe => ∀ snap dm, w.live = some (snap, dm) → scanning snap.state →
      ∀ r, scanDisks dm second third probe "" snap.state = .ok r →
      ∀ d dec, (d, dec) ∈ r.decisions →
        (dec = .done ↔ (snap.own d.device).done = true) ∧
        ∀ offset, dec = .reads offset → offset = (snap.own d.device).offset
  | _ => True

/-- A name stands for one device, and a device keeps its name. -/
def Distinct (disks : List (Disk δ)) : Prop :=
  ∀ r ∈ disks, ∀ r' ∈ disks, diskId r = diskId r' ↔ r.device = r'.device

/-- The disks `start_scans` lists are distinct from each other and from all it listed
before. -/
def ListsDistinct (w : World δ) : Event δ → Prop
  | .scan _ third _ => ∀ snap dm, w.live = some (snap, dm) →
      ∀ disks, blockDisks dm.config.exclude third = .ok disks → Distinct (w.taken ++ disks)
  | _ => True

/-! ## The simulation -/

/-- The progress under the names of the listed disks is that of their devices, and there
is none besides. -/
structure Sim (taken : List (Disk δ)) (st : SessionState) (own : δ → Progress) : Prop where
  same : ∀ r ∈ taken, st.progress (diskId r) = own r.device
  fresh : ∀ ident, (∀ r ∈ taken, diskId r ≠ ident) → st.progress ident = {}
  untouched : ∀ x, (∀ r ∈ taken, r.device ≠ x) → own x = {}
  complete : ∀ ident entry, st.diskScans.get? ident = some entry → entry.incomplete = false

theorem progress_congr {st st' : SessionState} (h : st'.diskScans = st.diskScans)
    (ident : String) : st'.progress ident = st.progress ident := by
  unfold SessionState.progress
  rw [h]

namespace Sim

variable {taken disks : List (Disk δ)} {st st' : SessionState} {own : δ → Progress}

theorem congr (h : Sim taken st own) (heq : st'.diskScans = st.diskScans) :
    Sim taken st' own := by
  refine ⟨fun r hr => ?_, fun ident hid => ?_, h.untouched, fun ident entry hget => ?_⟩
  · rw [progress_congr heq, h.same r hr]
  · rw [progress_congr heq, h.fresh ident hid]
  · rw [heq] at hget
    exact h.complete ident entry hget

/-- A disk that is listed for the first time has no progress under its name, and a device
that is listed again has its own. -/
theorem extend (h : Sim taken st own) (hd : Distinct (taken ++ disks)) :
    Sim (taken ++ disks) st own := by
  refine ⟨fun r hr => ?_, fun ident hid => ?_, fun x hx => ?_, h.complete⟩
  · by_cases hknown : ∃ r' ∈ taken, diskId r' = diskId r
    · obtain ⟨r', hr', hid⟩ := hknown
      rw [← hid, h.same r' hr', (hd r' (List.mem_append_left disks hr') r hr).mp hid]
    · have hname : ∀ r' ∈ taken, diskId r' ≠ diskId r :=
        fun r' hr' hid => hknown ⟨r', hr', hid⟩
      have hdevice : ∀ r' ∈ taken, r'.device ≠ r.device := fun r' hr' hdev =>
        hname r' hr' ((hd r' (List.mem_append_left disks hr') r hr).mpr hdev)
      rw [h.fresh _ hname, h.untouched _ hdevice]
  · exact h.fresh ident fun r hr => hid r (List.mem_append_left disks hr)
  · exact h.untouched x fun r hr => hx r (List.mem_append_left disks hr)

/-- Progress written for a listed disk, under its name and for its device. -/
theorem put [DecidableEq δ] (h : Sim taken st own) (hd : Distinct taken) {d : Disk δ}
    (hmem : d ∈ taken) (p : Progress)
    (hprogress : ∀ ident, st'.progress ident = if ident = diskId d then p else st.progress ident)
    (hcomplete : ∀ ident entry, st'.diskScans.get? ident = some entry → entry.incomplete = false) :
    Sim taken st' (Function.update own d.device p) := by
  refine ⟨fun r hr => ?_, fun ident hid => ?_, fun x hx => ?_, hcomplete⟩
  · rw [hprogress]
    by_cases hid : diskId r = diskId d
    · rw [if_pos hid, (hd r hr d hmem).mp hid, Function.update_self]
    · have hdevice : r.device ≠ d.device := fun hdev => hid ((hd r hr d hmem).mpr hdev)
      rw [if_neg hid, Function.update_of_ne hdevice, h.same r hr]
  · rw [hprogress, if_neg fun heq => hid d hmem heq.symm, h.fresh ident hid]
  · rw [Function.update_of_ne (fun heq => hx d hmem heq.symm), h.untouched x hx]

end Sim

/-! ## Saving -/

def Registered (taken : List (Disk δ)) (st : SessionState) (d : Disk δ) : Prop :=
  d ∈ taken ∧ (st.diskScans.get? (diskId d)).isSome = true

def Keeps (st st' : SessionState) : Prop :=
  ∀ ident, (st.diskScans.get? ident).isSome = true → (st'.diskScans.get? ident).isSome = true

theorem Registered.keep {taken : List (Disk δ)} {st st' : SessionState} {d : Disk δ}
    (h : Registered taken st d) (hk : Keeps st st') : Registered taken st' d :=
  ⟨h.1, hk _ h.2⟩

structure Tracked (taken : List (Disk δ)) (st : SessionState) (dm : DiskManager δ) : Prop where
  scans : ∀ s ∈ dm.scans, Registered taken st s.disk
  writers : ∀ w ∈ dm.writers, Registered taken st w.disk

theorem Tracked.keep {taken : List (Disk δ)} {st st' : SessionState} {dm : DiskManager δ}
    (h : Tracked taken st dm) (hk : Keeps st st') : Tracked taken st' dm :=
  ⟨fun s hs => (h.scans s hs).keep hk, fun w hw => (h.writers w hw).keep hk⟩

theorem Tracked.extend {taken : List (Disk δ)} {st : SessionState} {dm : DiskManager δ}
    (h : Tracked taken st dm) (disks : List (Disk δ)) : Tracked (taken ++ disks) st dm :=
  ⟨fun s hs => ⟨List.mem_append_left disks (h.scans s hs).1, (h.scans s hs).2⟩,
    fun w hw => ⟨List.mem_append_left disks (h.writers w hw).1, (h.writers w hw).2⟩⟩

theorem keeps_set (st : SessionState) (key : String) (entry : ScanEntry) :
    Keeps st { st with diskScans := st.diskScans.set key entry } := by
  intro ident h
  by_cases hid : ident = key
  · subst hid
    rw [Dict.get?_set_self]
    rfl
  · rw [Dict.get?_set_ne _ hid]
    exact h

theorem keeps_saveScan (st : SessionState) (s : SurfaceScan δ) : Keeps st (st.saveScan s) := by
  unfold SessionState.saveScan
  cases st.diskScans.get? (diskId s.disk) with
  | none => exact fun _ h => h
  | some entry => exact keeps_set st _ _

theorem keeps_saveWriter (st : SessionState) (w : WriteVerify δ) : Keeps st (st.saveWriter w) := by
  unfold SessionState.saveWriter
  cases st.diskScans.get? (diskId w.disk) with
  | none => exact fun _ h => h
  | some entry => exact keeps_set st _ _

theorem complete_set {st : SessionState} {key : String} {entry : ScanEntry}
    (h : ∀ ident e, st.diskScans.get? ident = some e → e.incomplete = false)
    (hentry : entry.incomplete = false) (ident : String) (e : ScanEntry)
    (hget : (st.diskScans.set key entry).get? ident = some e) : e.incomplete = false := by
  by_cases hid : ident = key
  · subst hid
    rw [Dict.get?_set_self] at hget
    obtain rfl := Option.some.inj hget
    exact hentry
  · rw [Dict.get?_set_ne _ hid] at hget
    exact h ident e hget

section Saving

variable [DecidableEq δ] {taken : List (Disk δ)}

theorem Sim.saveScan {st : SessionState} {own : δ → Progress} (h : Sim taken st own)
    (hd : Distinct taken) {s : SurfaceScan δ} (hs : Registered taken st s.disk) :
    Sim taken (st.saveScan s) (ownScan own s) := by
  obtain ⟨entry, hentry⟩ := Option.isSome_iff_exists.mp hs.2
  have hcomplete := h.complete _ _ hentry
  rw [SessionState.saveScan, hentry]
  exact h.put hd hs.1 _ (SessionState.progress_set st _ _) (complete_set h.complete hcomplete)

theorem Sim.saveWriter {st : SessionState} {own : δ → Progress} (h : Sim taken st own)
    (hd : Distinct taken) {w : WriteVerify δ} (hw : Registered taken st w.disk) :
    Sim taken (st.saveWriter w) (ownWriter own w) := by
  obtain ⟨entry, hentry⟩ := Option.isSome_iff_exists.mp hw.2
  have hcomplete := h.complete _ _ hentry
  have hown : own w.disk.device = ⟨entry.offset, entry.done⟩ := by
    rw [← h.same w.disk hw.1, SessionState.progress, hentry]
  rw [SessionState.saveWriter, hentry, ownWriter, hown]
  refine h.put hd hw.1 _ (fun ident => ?_) (complete_set h.complete hcomplete)
  rw [SessionState.progress_set, hcomplete, Bool.not_false, Bool.and_true]

omit [DecidableEq δ] in
/-- What one entry of a list keeps of the two maps, the loop over the list keeps. -/
theorem Sim.foldl {α : Type} (diskOf : α → Disk δ) (write : SessionState → α → SessionState)
    (note : (δ → Progress) → α → δ → Progress)
    (hwrite : ∀ st own a, Sim taken st own → Registered taken st (diskOf a) →
      Sim taken (write st a) (note own a))
    (hkeep : ∀ st a, Keeps st (write st a)) {l : List α} {st : SessionState} {own : δ → Progress}
    (h : Sim taken st own) (hl : ∀ a ∈ l, Registered taken st (diskOf a)) :
    Sim taken (l.foldl write st) (l.foldl note own) ∧ Keeps st (l.foldl write st) := by
  induction l generalizing st own with
  | nil => exact ⟨h, fun _ hsome => hsome⟩
  | cons a rest ih =>
    obtain ⟨hsim, hkeeps⟩ := ih (hwrite st own a h (hl a List.mem_cons_self))
      fun b hb => (hl b (List.mem_cons_of_mem a hb)).keep (hkeep st a)
    exact ⟨hsim, fun ident hsome => hkeeps ident (hkeep st a ident hsome)⟩

theorem Sim.saveBoth {snap : Snapshot δ} {dm : DiskManager δ} (h : Sim taken snap.state snap.own)
    (hd : Distinct taken) (ht : Tracked taken snap.state dm) :
    Sim taken (saveBoth snap dm).1.state (saveBoth snap dm).1.own ∧
      Tracked taken (saveBoth snap dm).1.state (saveBoth snap dm).2 := by
  obtain ⟨hscans, hkeep⟩ := h.foldl SurfaceScan.disk SessionState.saveScan ownScan
    (fun _ _ _ hs hr => hs.saveScan hd hr) keeps_saveScan ht.scans
  have hpolled : ∀ w ∈ (DiskRuns.saveBoth snap dm).2.writers,
      Registered taken (dm.scans.foldl SessionState.saveScan snap.state) w.disk := by
    intro w hw
    obtain ⟨w', hw', rfl⟩ := List.mem_map.mp hw
    rw [DiskManager.poll_disk]
    exact (ht.writers w' hw').keep hkeep
  obtain ⟨hwriters, hkeep'⟩ := hscans.foldl WriteVerify.disk SessionState.saveWriter ownWriter
    (fun _ _ _ hs hr => hs.saveWriter hd hr) keeps_saveWriter hpolled
  refine ⟨hwriters, fun s hs => ?_, fun w hw => (hpolled w hw).keep hkeep'⟩
  exact ((ht.scans s hs).keep hkeep).keep hkeep'

end Saving

/-! ## Starting -/

theorem keeps_register (st : SessionState) (names : List String) (d : Disk δ) :
    Keeps st (st.register names d) := by
  intro ident h
  obtain ⟨entry, hentry⟩ := Option.isSome_iff_exists.mp h
  rw [st.get?_register names d hentry]
  rfl

theorem registered_register {taken : List (Disk δ)} {d : Disk δ} (hd : d ∈ taken)
    (st : SessionState) (names : List String) : Registered taken (st.register names d) d := by
  refine ⟨hd, ?_⟩
  unfold SessionState.register
  rw [Dict.get?_setDefault_self]
  rfl

theorem Tracked.launch {taken : List (Disk δ)} {st : SessionState} {dm : DiskManager δ}
    (h : Tracked taken st dm) {d : Disk δ} (hd : Registered taken st d) (dec : Decision) :
    Tracked taken st (dm.launch d dec) := by
  cases dec with
  | done => exact h
  | refused => exact h
  | writes =>
    refine ⟨h.scans, fun w hw => ?_⟩
    rcases List.mem_append.mp hw with hold | hnew
    · exact h.writers w hold
    · obtain rfl := List.mem_singleton.mp hnew
      exact hd
  | reads offset =>
    refine ⟨fun s hs => ?_, h.writers⟩
    rcases List.mem_append.mp hs with hold | hnew
    · exact h.scans s hold
    · obtain rfl := List.mem_singleton.mp hnew
      exact hd

theorem Sim.register {taken : List (Disk δ)} {st : SessionState} {own : δ → Progress}
    (h : Sim taken st own) (names : List String) (d : Disk δ) :
    Sim taken (st.register names d) own := by
  refine ⟨fun r hr => ?_, fun ident hid => ?_, h.untouched, fun ident entry hget => ?_⟩
  · rw [SessionState.progress_register, h.same r hr]
  · rw [SessionState.progress_register, h.fresh ident hid]
  · unfold SessionState.register at hget
    by_cases hid : ident = diskId d
    · subst hid
      rw [Dict.get?_setDefault_self] at hget
      cases hold : st.diskScans.get? (diskId d) with
      | none =>
        rw [hold] at hget
        obtain rfl := Option.some.inj hget
        rfl
      | some old =>
        rw [hold] at hget
        obtain rfl := Option.some.inj hget
        exact h.complete _ _ hold
    · rw [Dict.get?_setDefault_ne _ hid] at hget
      exact h.complete ident entry hget

/-- `start_scans` writes no progress, and every thread it starts has an entry. -/
theorem Sim.startScans {taken : List (Disk δ)} {own : δ → Progress} (names : List String)
    (probe : String → Probe) (now : String) {disks : List (Disk δ)} (hmem : ∀ d ∈ disks, d ∈ taken)
    {dm : DiskManager δ} {st : SessionState} (h : Sim taken st own) (ht : Tracked taken st dm) :
    Sim taken (DiskManager.startScans names probe now dm st disks).state own ∧
      Tracked taken (DiskManager.startScans names probe now dm st disks).state
        (DiskManager.startScans names probe now dm st disks).manager := by
  induction disks generalizing dm st with
  | nil => exact ⟨h, ht⟩
  | cons d rest ih =>
    have hregister := ht.keep (keeps_register st names d)
    rw [DiskManager.startScans]
    cases dm.decision st names probe d with
    | error e => exact ⟨h.register names d, hregister⟩
    | ok dec =>
      exact ih (fun d' hd' => hmem d' (List.mem_cons_of_mem d hd')) (h.register names d)
        (hregister.launch (registered_register (hmem d List.mem_cons_self) st names) dec)

/-! ## Runs -/

/-- What holds between any two events: all disks listed are distinct, and the progress by
name is the progress by device, on the stick and in memory. -/
structure Inv (w : World δ) : Prop where
  distinct : Distinct w.taken
  stick : Sim w.taken w.stick.state w.stick.own
  live : ∀ snap dm, w.live = some (snap, dm) →
    Sim w.taken snap.state snap.own ∧ Tracked w.taken snap.state dm

theorem Inv.put {w : World δ} (h : Inv w) {snap : Snapshot δ} {dm : DiskManager δ}
    (hsim : Sim w.taken snap.state snap.own) (ht : Tracked w.taken snap.state dm) :
    Inv { w with live := some (snap, dm) } := by
  refine ⟨h.distinct, h.stick, fun snap' dm' hlive => ?_⟩
  obtain ⟨rfl, rfl⟩ := Prod.mk.inj (Option.some.inj hlive)
  exact ⟨hsim, ht⟩

theorem Inv.save {w : World δ} (h : Inv w) {snap : Snapshot δ} {dm : DiskManager δ}
    (hsim : Sim w.taken snap.state snap.own) (ht : Tracked w.taken snap.state dm) :
    Inv { w with stick := snap, live := some (snap, dm) } := by
  refine ⟨h.distinct, hsim, fun snap' dm' hlive => ?_⟩
  obtain ⟨rfl, rfl⟩ := Prod.mk.inj (Option.some.inj hlive)
  exact ⟨hsim, ht⟩

/-- What a step keeps of every member, it keeps when one member takes it. -/
theorem forall_mem_modify {α : Type} {P : α → Prop} {f : α → α} (hf : ∀ a, P a → P (f a))
    {l : List α} (h : ∀ a ∈ l, P a) (i : Nat) : ∀ a ∈ l.modify i f, P a := by
  induction l generalizing i with
  | nil =>
    intro a ha
    rw [List.modify_nil] at ha
    cases ha
  | cons b rest ih =>
    have hrest : ∀ a ∈ rest, P a := fun a ha => h a (List.mem_cons_of_mem b ha)
    cases i with
    | zero =>
      rw [List.modify_zero_cons]
      intro a ha
      rcases List.mem_cons.mp ha with hself | hmem
      · subst hself
        exact hf b (h b List.mem_cons_self)
      · exact hrest a hmem
    | succ i =>
      rw [List.modify_succ_cons]
      intro a ha
      rcases List.mem_cons.mp ha with hself | hmem
      · subst hself
        exact h a List.mem_cons_self
      · exact ih hrest i a hmem

theorem Tracked.modifyScan {taken : List (Disk δ)} {st : SessionState} {dm : DiskManager δ}
    (h : Tracked taken st dm) (i : Nat) {f : SurfaceScan δ → SurfaceScan δ}
    (hf : ∀ s, (f s).disk = s.disk) :
    Tracked taken st { dm with scans := dm.scans.modify i f } :=
  ⟨forall_mem_modify (fun s hs => by rw [hf s]; exact hs) h.scans i, h.writers⟩

theorem Tracked.modifyWriter {taken : List (Disk δ)} {st : SessionState} {dm : DiskManager δ}
    (h : Tracked taken st dm) (i : Nat) {f : WriteVerify δ → WriteVerify δ}
    (hf : ∀ w, (f w).disk = w.disk) :
    Tracked taken st { dm with writers := dm.writers.modify i f } :=
  ⟨h.scans, forall_mem_modify (fun w hw => by rw [hf w]; exact hw) h.writers i⟩

theorem inv_step [DecidableEq δ] {w t : World δ} {e : Event δ} (h : Inv w)
    (hC : ListsDistinct w e) (ht : step w e = some t) : Inv t := by
  rcases step_cases ht with ⟨cfg, rfl, rfl⟩ | ⟨snap, dm, hl, hact⟩
  · exact h.put h.stick ⟨nofun, nofun⟩
  · obtain ⟨hsim, htracked⟩ := h.live snap dm hl
    cases e with
    | begin cfg => cases hact
    | choose listing probe countdown =>
      rcases act_choose hact with rfl | ⟨chosen, hch, rfl⟩
      · exact h
      · have hscans : chosen.state.diskScans = snap.state.diskScans := by
          rw [chooseDisks_state hch]
        refine h.save (hsim.congr hscans) (htracked.keep fun ident hsome => ?_)
        rw [hscans]
        exact hsome
    | scan second third probe =>
      rcases act_scan hact with rfl | ⟨names, disks, hdisks, -, rfl⟩
      · exact h
      · have hd : Distinct (w.taken ++ disks) := hC snap dm hl disks hdisks
        obtain ⟨hstarted, hthreads⟩ := (hsim.extend hd).startScans names probe ""
          (fun d hd => List.mem_append_right w.taken hd) (htracked.extend disks)
        refine ⟨hd, h.stick.extend hd, fun snap' dm' hlive => ?_⟩
        obtain ⟨rfl, rfl⟩ := Prod.mk.inj (Option.some.inj hlive)
        exact ⟨hstarted, hthreads⟩
    | cannotOpen i =>
      obtain rfl := Option.some.inj hact
      exact h.put hsim (htracked.modifyScan i fun s => rfl)
    | turn i slow r =>
      obtain rfl := Option.some.inj hact
      refine h.put hsim (htracked.modifyScan i fun s => ?_)
      by_cases hr : s.reading false = true
      · rw [if_pos hr, SurfaceScan.turn_disk]
      · rw [if_neg hr]
    | mark i =>
      obtain rfl := Option.some.inj hact
      exact h.put hsim (htracked.modifyScan i SurfaceScan.mark_disk)
    | exit i code tail =>
      obtain rfl := Option.some.inj hact
      exact h.put hsim (htracked.modifyWriter i fun w => rfl)
    | saveProgress =>
      obtain rfl := Option.some.inj hact
      obtain ⟨hboth, hkept⟩ := hsim.saveBoth h.distinct htracked
      exact h.put hboth hkept
    | save =>
      obtain rfl := Option.some.inj hact
      rw [hl]
      exact h.save hsim htracked
    | finish =>
      obtain rfl := Option.some.inj hact
      have hfinished : Sim w.taken { snap.state with diskTestsFinished := true } snap.own :=
        hsim.congr rfl
      exact h.save hfinished (htracked.keep fun _ hsome => hsome)
    | die =>
      obtain rfl := Option.some.inj hact
      exact ⟨h.distinct, h.stick, fun snap dm hlive => by cases hlive⟩

theorem inv_opened {st : SessionState} (hst : st.diskScans = Dict.empty) (cfg : DiskConfig) :
    Inv (opened (δ := δ) st cfg) := by
  have hsim : Sim [] st fun _ : δ => {} := by
    refine ⟨nofun, fun ident _ => ?_, fun _ _ => rfl, fun ident entry hget => ?_⟩
    · rw [SessionState.progress, hst]
      rfl
    · rw [hst] at hget
      cases hget
  refine ⟨nofun, hsim, fun snap dm hlive => ?_⟩
  obtain ⟨rfl, rfl⟩ := Prod.mk.inj (Option.some.inj hlive)
  exact ⟨hsim, nofun, nofun⟩

theorem ownProgress_of_inv {w : World δ} {e : Event δ} (h : Inv w) (hC : ListsDistinct w e) :
    OwnProgress w e := by
  cases e with
  | scan second third probe =>
    intro snap dm hlive hscan r hr d dec hdec
    obtain ⟨hsim, -⟩ := h.live snap dm hlive
    obtain ⟨ds, disks, -, hdisks, rfl⟩ := scanDisks_eq_ok hr
    obtain ⟨hmem, dm', st', -, -, hprogress, -, hdecision⟩ := DiskManager.mem_decisions hdec
    have hown : st'.progress (diskId d) = snap.own d.device := by
      rw [hprogress]
      exact (hsim.extend (hC snap dm hlive disks hdisks)).same d
        (List.mem_append_right w.taken hmem)
    rw [← hown]
    exact DiskManager.of_decision_progress hdecision
  | _ => trivial

/-- No disk takes the progress of another, over all the boots of a session in which the
disks that are listed are distinct. -/
theorem progress_is_own [DecidableEq δ] (name : String) (identity : Identity) (opts : Options)
    (plan : List PlanEntry) (m : Machine) (cfg : DiskConfig) {es : List (Event δ)}
    (h : Along step ListsDistinct (opened (SessionState.fresh name identity opts plan m) cfg) es) :
    Along step OwnProgress (opened (SessionState.fresh name identity opts plan m) cfg) es :=
  along_of_preserves (fun _ _ _ hi hC ht => inv_step hi hC ht)
    (fun _ _ hi hC => ownProgress_of_inv hi hC) (inv_opened rfl cfg) h

def ListsFrom (disks : List (Disk δ)) : Event δ → Prop
  | .scan _ third _ => ∀ exclude ds, blockDisks exclude third = .ok ds → ∀ d ∈ ds, d ∈ disks
  | _ => True

theorem Distinct.mono {disks disks' : List (Disk δ)} (h : Distinct disks)
    (hsub : ∀ d ∈ disks', d ∈ disks) : Distinct disks' :=
  fun r hr r' hr' => h r (hsub r hr) r' (hsub r' hr')

theorem taken_step [DecidableEq δ] {disks : List (Disk δ)} {w t : World δ} {e : Event δ}
    (h : ∀ d ∈ w.taken, d ∈ disks) (hC : ListsFrom disks e) (ht : step w e = some t) :
    ∀ d ∈ t.taken, d ∈ disks := by
  rcases step_cases ht with ⟨cfg, rfl, rfl⟩ | ⟨snap, dm, hl, hact⟩
  · exact h
  · cases e with
    | begin cfg => cases hact
    | choose listing probe countdown =>
      rcases act_choose hact with rfl | ⟨chosen, -, rfl⟩ <;> exact h
    | scan second third probe =>
      rcases act_scan hact with rfl | ⟨names, ds, hds, -, rfl⟩
      · exact h
      · intro d hd
        rcases List.mem_append.mp hd with hold | hnew
        · exact h d hold
        · exact hC _ ds hds d hnew
    | _ => obtain rfl := Option.some.inj hact; exact h

/-- The disks of a machine that keeps them, with one name each, are distinct in all its
listings. -/
theorem along_listsDistinct [DecidableEq δ] {disks : List (Disk δ)} (hd : Distinct disks)
    {w : World δ} (hw : ∀ d ∈ w.taken, d ∈ disks) {es : List (Event δ)}
    (hes : ∀ e ∈ es, ListsFrom disks e) : Along step ListsDistinct w es := by
  refine along_of_preserves (fun s e t hs hC ht => taken_step hs hC ht) (fun s e hs hC => ?_) hw
    (along_of_forall fun e he _ => hes e he)
  cases e with
  | scan second third probe =>
    intro snap dm _ ds hds
    refine hd.mono fun d hmem => ?_
    rcases List.mem_append.mp hmem with hold | hnew
    · exact hs d hold
    · exact hC _ ds hds d hnew
  | _ => trivial

/-! ## Disks that report one serial number -/

/-- The second disk of a listing is read to its end, and the process starts again. -/
def readSecond (listing : Lsblk Nat) : List (Event Nat) :=
  [.choose listing (exampleProbe []) .cancelled, .scan listing listing (exampleProbe []),
    .turn 1 (.finite 5) (.data 100 1), .mark 1, .saveProgress, .save, .die, .begin exampleConfig]

def twoDisks : Lsblk Nat :=
  exampleListing [exampleDevice 1 "sda" "S1", exampleDevice 2 "sdb" "S2"]

theorem listsFrom_twoDisks (second : Lsblk Nat) (probe : String → Probe) :
    ListsFrom [exampleDisk 1 "sda" "S1", exampleDisk 2 "sdb" "S2"]
      (.scan second twoDisks probe) := by
  intro exclude ds hds d hd
  obtain rfl := Except.ok.inj hds
  obtain ⟨e, he, rfl⟩ := List.mem_map.mp hd
  have hlisted := List.mem_of_mem_filter he
  rcases List.mem_cons.mp hlisted with rfl | hrest
  · decide +kernel
  · obtain rfl := List.mem_singleton.mp hrest
    decide +kernel

theorem progress_is_own_twoDisks :
    Along step OwnProgress (opened exampleSession exampleConfig)
      (readSecond twoDisks ++ [.scan twoDisks twoDisks (exampleProbe [])]) := by
  have hdistinct : Distinct [exampleDisk 1 "sda" "S1", exampleDisk 2 "sdb" "S2"] := by
    intro r hr r' hr'
    simp only [List.mem_cons, List.not_mem_nil, or_false] at hr hr'
    rcases hr with rfl | rfl <;> rcases hr' with rfl | rfl <;> decide +kernel
  refine progress_is_own _ _ _ _ _ _
    (along_listsDistinct hdistinct (fun d hd => by cases hd) fun e he => ?_)
  simp only [readSecond, List.cons_append, List.nil_append, List.mem_cons, List.not_mem_nil,
    or_false] at he
  rcases he with rfl | rfl | rfl | rfl | rfl | rfl | rfl | rfl | rfl <;>
    first | trivial | exact listsFrom_twoDisks _ _

/-- The next `start_scans` skips a device whose own scan is not done. -/
def skipsUnread (listing : Lsblk Nat) (d : Disk Nat) (t : World Nat) : Bool :=
  match t.live with
  | none => false
  | some (snap, dm) =>
    match scanDisks dm listing listing (exampleProbe []) "" snap.state with
    | .error _ => false
    | .ok r => scanning snap.state && decide ((d, .done) ∈ r.decisions) && !(snap.own d.device).done

theorem readSecond_namespaces :
    (run step (opened exampleSession exampleConfig) (readSecond namespaces)).any
      (skipsUnread namespaces (exampleDisk 1 "nvme0n1" "S1")) = true := by decide +kernel

/-- The scan of one namespace that is done passes for the scan of the other. -/
theorem sibling_is_skipped :
    ¬ ∀ (name : String) (identity : Identity) (opts : Options) (plan : List PlanEntry)
      (m : Machine) (cfg : DiskConfig) (es : List (Event Nat)),
      Along step OwnProgress (opened (SessionState.fresh name identity opts plan m) cfg) es := by
  intro h
  obtain ⟨t, ht, hskips⟩ := (Option.any_eq_true _ _).mp readSecond_namespaces
  have hlast := along_right (h "20260101-000000_SN1" ⟨"0123456789ab", "SN1"⟩
    { destructive := "1" } [] ⟨"boot-1", "2026-01-01T00:00:00", 0⟩ exampleConfig
    (readSecond namespaces ++ [.scan namespaces namespaces (exampleProbe [])])) ht
  unfold skipsUnread at hskips
  cases hl : t.live with
  | none =>
    rw [hl] at hskips
    cases hskips
  | some both =>
    obtain ⟨snap, dm⟩ := both
    cases hr : scanDisks dm namespaces namespaces (exampleProbe []) "" snap.state with
    | error e => simp [hl, hr] at hskips
    | ok r =>
      simp only [hl, hr, Bool.and_eq_true, decide_eq_true_eq, Bool.not_eq_true'] at hskips
      obtain ⟨⟨hscan, hmem⟩, hunread⟩ := hskips
      have hown := (hlast.1 snap dm hl hscan r hr _ _ hmem).1.mp rfl
      rw [hunread] at hown
      cases hown

end DiskRuns
end PcCheck
