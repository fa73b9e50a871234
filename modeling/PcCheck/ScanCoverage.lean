/-
What the surface scan of a disk has covered, over the boots of a session (`SurfaceScan.run`,
`save_progress` and `start_scans`).

An event is a step of the scan thread, one of the two assignments of `save_progress`, a save of
the session, or the start or the end of a process.  A pause is a time in which the thread takes
no turn.  Beside the state a log keeps every region that a read has asked for, in this boot or
before, with what came of it.
-/
import PcCheck.Disks
import PcCheck.Lib.EventMachine

namespace PcCheck
namespace ScanCoverage

open EventMachine

variable {δ : Type}

/-! ## Regions -/

structure Region where
  start : Nat
  length : Nat
  deriving DecidableEq, Repr

namespace Region

/-- The end of the region, which is no part of it. -/
def stop (r : Region) : Nat := r.start + r.length

def Holds (r : Region) (byte : Nat) : Prop := r.start ≤ byte ∧ byte < r.stop

end Region

/-- What the reads have asked for, and of that what they returned and what they failed on. -/
structure Log where
  asked : List Region := []
  returned : List Region := []
  failed : List Region := []

namespace Log

def Covers (l : Log) (byte : Nat) : Prop := ∃ r ∈ l.returned ++ l.failed, r.Holds byte

/-- Every byte before the offset is covered. -/
def Below (l : Log) (offset : Nat) : Prop := ∀ byte < offset, l.Covers byte

/-- The end of what has been attempted. -/
def reach (l : Log) : Nat := (l.asked.map Region.stop).foldr max 0

/-- The region the next read of a scan asks for. -/
def wanted (s : SurfaceScan δ) : Region := ⟨s.offset, min chunk (s.disk.size - s.offset)⟩

def read (l : Log) (s : SurfaceScan δ) : ReadResult → Log
  | .data n _ =>
    { l with
      asked := l.asked ++ [wanted s],
      returned := l.returned ++ [⟨s.offset, min n (min chunk (s.disk.size - s.offset))⟩] }
  | .error _ => { l with asked := l.asked ++ [wanted s], failed := l.failed ++ [wanted s] }

end Log

/-! ## The two assignments of `save_progress` -/

def saveOffset (st : SessionState) (s : SurfaceScan δ) : SessionState :=
  match st.diskScans.get? (diskId s.disk) with
  | none => st
  | some entry =>
    { st with diskScans := st.diskScans.set (diskId s.disk) { entry with offset := s.offset } }

def saveDone (st : SessionState) (s : SurfaceScan δ) : SessionState :=
  match st.diskScans.get? (diskId s.disk) with
  | none => st
  | some entry =>
    { st with diskScans := st.diskScans.set (diskId s.disk) { entry with done := s.done } }

/-- Without a step of the thread between them the two are the `saveScan` of the manager. -/
theorem saveDone_saveOffset (st : SessionState) (s : SurfaceScan δ) :
    saveDone (saveOffset st s) s = st.saveScan s := by
  unfold saveOffset SessionState.saveScan
  cases hentry : st.diskScans.get? (diskId s.disk) with
  | none => simp only [saveDone, hentry]
  | some entry => simp only [saveDone, Dict.get?_set_self, Dict.set_set]

theorem progress_saveOffset (st : SessionState) (s : SurfaceScan δ) :
    (saveOffset st s).progress (diskId s.disk) = st.progress (diskId s.disk) ∨
      (saveOffset st s).progress (diskId s.disk) =
        ⟨s.offset, (st.progress (diskId s.disk)).done⟩ := by
  unfold saveOffset
  cases hentry : st.diskScans.get? (diskId s.disk) with
  | none => exact Or.inl rfl
  | some entry =>
    apply Or.inr
    dsimp only
    rw [SessionState.progress_set, if_pos rfl]
    simp [SessionState.progress, hentry]

theorem progress_saveDone (st : SessionState) (s : SurfaceScan δ) :
    (saveDone st s).progress (diskId s.disk) = {} ∧ saveDone st s = st ∨
      (saveDone st s).progress (diskId s.disk) =
        ⟨(st.progress (diskId s.disk)).offset, s.done⟩ := by
  unfold saveDone
  cases hentry : st.diskScans.get? (diskId s.disk) with
  | none =>
    apply Or.inl
    simp [SessionState.progress, hentry]
  | some entry =>
    apply Or.inr
    dsimp only
    rw [SessionState.progress_set, if_pos rfl]
    simp [SessionState.progress, hentry]

/-! ## The machine -/

inductive Stage where
  | idle
  | opening
  | reading
  | ended
  | finished
  deriving DecidableEq

structure Process (δ : Type) where
  state : SessionState
  scan : Option (SurfaceScan δ) := none
  stage : Stage := .idle
  /-- `save_progress` has stored the offset, and not yet whether the scan is done. -/
  halfway : Bool := false
  /-- The entry is done by a scan whose offset had come to the size of the disk. -/
  whole : Bool

structure World (δ : Type) where
  saved : SessionState
  savedWhole : Bool := false
  live : Option (Process δ) := none
  log : Log := {}
  /-- Some scan met too many errors, or could not open the disk. -/
  gaveUp : Bool := false

inductive Event where
  | begin
  | startScans (cfg : DiskConfig) (resumed : Bool) (probe : String → Probe)
  | cannotOpen
  | opened
  | turn (slowReadSeconds : PyFloat) (r : ReadResult)
  | leave (stopped : Bool)
  | mark
  | saveOffset
  | saveDone
  | save
  | die

namespace Process

variable (p : Process δ)

def put (s : SurfaceScan δ) (stage : Stage) : Process δ := { p with scan := some s, stage := stage }

def onThread (stage : Stage) (f : SurfaceScan δ → Option (World δ)) : Option (World δ) :=
  match p.scan with
  | some s => if p.stage = stage then f s else none
  | none => none

end Process

def act (disk : Disk δ) (w : World δ) (p : Process δ) : Event → Option (World δ)
  | .begin => none
  | .startScans cfg resumed probe =>
    if p.stage = .idle then
      let manager : DiskManager δ := { config := cfg, resumed := resumed }
      let r := DiskManager.startScans [] probe "" manager p.state [disk]
      let p' := { p with state := r.state, scan := r.manager.scans.head?, stage := .opening }
      some { w with live := some p' }
    else none
  | .cannotOpen => p.onThread .opening fun s =>
      some { w with live := some (p.put s.cannotOpen .finished), gaveUp := true }
  | .opened => p.onThread .opening fun s => some { w with live := some (p.put s .reading) }
  | .turn slow r => p.onThread .reading fun s =>
      if s.reading false then
        some { w with
          live := some (p.put (s.turn slow r).1 (if (s.turn slow r).2 then .reading else .ended)),
          log := w.log.read s r,
          gaveUp := w.gaveUp || (s.turn slow r).1.aborted }
      else none
  | .leave stopped => p.onThread .reading fun s =>
      if s.reading stopped then none else some { w with live := some (p.put s .ended) }
  | .mark => p.onThread .ended fun s => some { w with live := some (p.put s.mark .finished) }
  -- One thread at a time is in `save_progress` or `save`, by the lock of the session.
  | .saveOffset =>
    if p.halfway then none
    else
      let state := p.scan.elim p.state (saveOffset p.state)
      some { w with live := some { p with state := state, halfway := true } }
  | .saveDone =>
    if p.halfway then
      let state := p.scan.elim p.state (saveDone p.state)
      let whole := p.scan.elim p.whole fun s => s.done && decide (s.disk.size ≤ s.offset)
      some { w with live := some { p with state := state, whole := whole, halfway := false } }
    else none
  | .save => if p.halfway then none else some { w with saved := p.state, savedWhole := p.whole }
  | .die => some { w with live := none }

def step (disk : Disk δ) (w : World δ) (e : Event) : Option (World δ) :=
  match w.live, e with
  | some p, e => act disk w p e
  | none, .begin => some { w with live := some { state := w.saved, whole := w.savedWhole } }
  | none, _ => none

def fresh (name : String) (identity : Identity) (opts : Options) (plan : List PlanEntry)
    (m : Machine) : World δ :=
  { saved := SessionState.fresh name identity opts plan m }

/-! ## What is promised of the entry of the disk -/

variable (disk : Disk δ)

/-- A disk that is done because its scan came to its end has been covered, and the offset stays
behind what has been attempted. -/
structure EntryCovered (w : World δ) (st : SessionState) (whole : Bool) : Prop where
  done : (st.progress (diskId disk)).done = true → whole = true → w.log.Below disk.size
  otherwise : (st.progress (diskId disk)).done = true → whole = false → w.gaveUp = true
  below : w.log.Below (st.progress (diskId disk)).offset
  lags : (st.progress (diskId disk)).offset ≤ w.log.reach

structure SkipsNothing (w : World δ) : Prop where
  within : ∀ r ∈ w.log.asked, r.stop ≤ disk.size
  saved : EntryCovered disk w w.saved w.savedWhole
  live : ∀ p, w.live = some p → EntryCovered disk w p.state p.whole

/-! ## One read -/

namespace Log

theorem le_reach {l : Log} {r : Region} (h : r ∈ l.asked) : r.stop ≤ l.reach := by
  unfold reach
  generalize l.asked = asked at h
  induction asked with
  | nil => cases h
  | cons a asked ih =>
    rw [List.map_cons, List.foldr_cons]
    rcases List.mem_cons.mp h with rfl | hmem
    · exact Nat.le_max_left _ _
    · exact (ih hmem).trans (Nat.le_max_right _ _)

theorem reach_append (l : Log) (regions : List Region) :
    l.reach ≤ { l with asked := l.asked ++ regions }.reach := by
  unfold reach
  dsimp only
  induction l.asked with
  | nil => exact Nat.zero_le _
  | cons a asked ih =>
    rw [List.cons_append, List.map_cons, List.map_cons, List.foldr_cons, List.foldr_cons]
    exact max_le_max (Nat.le_refl _) ih

/-- All that a read returned or failed on lies before the end of what has been attempted. -/
def Reached (l : Log) : Prop := ∀ r ∈ l.returned ++ l.failed, r.stop ≤ l.reach

theorem Below.le_reach {l : Log} {offset : Nat} (h : l.Below offset) (hreached : l.Reached) :
    offset ≤ l.reach := by
  cases offset with
  | zero => exact Nat.zero_le _
  | succ n =>
    obtain ⟨r, hr, -, hlt⟩ := h n (Nat.lt_succ_self n)
    exact (Nat.succ_le_of_lt hlt).trans (hreached r hr)

variable (l : Log) (s : SurfaceScan δ) (r : ReadResult)

theorem asked_read : (l.read s r).asked = l.asked ++ [wanted s] := by
  cases r <;> rfl

theorem reach_read : l.reach ≤ (l.read s r).reach := by
  have h := l.reach_append [wanted s]
  unfold reach at h ⊢
  rwa [asked_read]

theorem covers_read {byte : Nat} (h : l.Covers byte) : (l.read s r).Covers byte := by
  obtain ⟨region, hmem, hholds⟩ := h
  refine ⟨region, ?_, hholds⟩
  rcases List.mem_append.mp hmem with hmem | hmem
  · apply List.mem_append_left
    cases r with
    | data n dt => exact List.mem_append_left _ hmem
    | error text => exact hmem
  · apply List.mem_append_right
    cases r with
    | data n dt => exact hmem
    | error text => exact List.mem_append_left _ hmem

theorem stop_wanted (h : s.offset < s.disk.size) : (wanted s).stop ≤ s.disk.size := by
  show s.offset + min chunk (s.disk.size - s.offset) ≤ s.disk.size
  omega

theorem Reached.read {l : Log} (h : l.Reached) : (l.read s r).Reached := by
  intro region hmem
  have hwanted : (wanted s).stop ≤ (l.read s r).reach := by
    apply le_reach
    rw [asked_read]
    exact List.mem_append_right _ (List.mem_singleton_self _)
  have hold : region ∈ l.returned ++ l.failed → region.stop ≤ (l.read s r).reach :=
    fun hr => (h region hr).trans (l.reach_read s r)
  cases r with
  | data n dt =>
    rcases List.mem_append.mp hmem with hmem | hmem
    · rcases List.mem_append.mp hmem with hmem | hmem
      · exact hold (List.mem_append_left _ hmem)
      · rw [List.mem_singleton.mp hmem]
        exact (Nat.add_le_add_left (Nat.min_le_right _ _) _).trans hwanted
    · exact hold (List.mem_append_right _ hmem)
  | error text =>
    rcases List.mem_append.mp hmem with hmem | hmem
    · exact hold (List.mem_append_left _ hmem)
    · rcases List.mem_append.mp hmem with hmem | hmem
      · exact hold (List.mem_append_right _ hmem)
      · rw [List.mem_singleton.mp hmem]
        exact hwanted

/-- The offset moves on over the region that was returned, or that was failed on. -/
theorem Below.turn {l : Log} {s : SurfaceScan δ} (h : l.Below s.offset) (slow : PyFloat)
    (r : ReadResult) : (l.read s r).Below (s.turn slow r).1.offset := by
  intro byte hbyte
  by_cases hold : byte < s.offset
  · exact l.covers_read s r (h byte hold)
  · have hstart : s.offset ≤ byte := Nat.le_of_not_lt hold
    cases r with
    | error text =>
      refine ⟨wanted s, List.mem_append_right _ (List.mem_append_right _ ?_), hstart, ?_⟩
      · exact List.mem_singleton_self _
      · show byte < s.offset + min chunk (s.disk.size - s.offset)
        simp only [SurfaceScan.turn] at hbyte
        split at hbyte
        · exact absurd hbyte hold
        · exact hbyte
    | data n dt =>
      refine ⟨⟨s.offset, min n (min chunk (s.disk.size - s.offset))⟩,
        List.mem_append_left _ (List.mem_append_right _ ?_), hstart, ?_⟩
      · exact List.mem_singleton_self _
      · show byte < s.offset + min n (min chunk (s.disk.size - s.offset))
        simp only [SurfaceScan.turn] at hbyte
        split at hbyte
        · exact absurd hbyte hold
        · exact hbyte

end Log

/-! ## The invariant -/

/-- A scan has covered what lies before its offset, and is done at the end of the disk or
because it gave up. -/
structure ScanCovered (w : World δ) (s : SurfaceScan δ) : Prop where
  disk_eq : s.disk = disk
  below : w.log.Below s.offset
  done : s.done = true → disk.size ≤ s.offset ∨ w.gaveUp = true
  aborted : s.aborted = true → w.gaveUp = true

structure ProcInv (w : World δ) (p : Process δ) : Prop where
  entry : EntryCovered disk w p.state p.whole
  scan : ∀ s, p.scan = some s → ScanCovered disk w s

structure Inv (w : World δ) : Prop where
  within : ∀ r ∈ w.log.asked, r.stop ≤ disk.size
  reached : w.log.Reached
  saved : EntryCovered disk w w.saved w.savedWhole
  live : ∀ p, w.live = some p → ProcInv disk w p

/-- The log of another world goes on from this one's. -/
structure Grows (w t : World δ) : Prop where
  covers : ∀ byte, w.log.Covers byte → t.log.Covers byte
  reach : w.log.reach ≤ t.log.reach
  gaveUp : w.gaveUp = true → t.gaveUp = true

variable {disk} {w t : World δ} {p : Process δ} {s : SurfaceScan δ}

theorem grows_of_eq (hlog : t.log = w.log) (hgave : w.gaveUp = true → t.gaveUp = true) :
    Grows w t :=
  ⟨fun _ h => hlog ▸ h, hlog ▸ Nat.le_refl _, hgave⟩

theorem EntryCovered.grow {st : SessionState} {whole : Bool}
    (h : EntryCovered disk w st whole) (hg : Grows w t) : EntryCovered disk t st whole where
  done hdone hwhole byte hbyte := hg.covers byte (h.done hdone hwhole byte hbyte)
  otherwise hdone hwhole := hg.gaveUp (h.otherwise hdone hwhole)
  below byte hbyte := hg.covers byte (h.below byte hbyte)
  lags := h.lags.trans hg.reach

theorem ScanCovered.grow (h : ScanCovered disk w s) (hg : Grows w t) : ScanCovered disk t s where
  disk_eq := h.disk_eq
  below byte hbyte := hg.covers byte (h.below byte hbyte)
  done hdone := (h.done hdone).imp_right hg.gaveUp
  aborted hab := hg.gaveUp (h.aborted hab)

theorem ProcInv.grow (h : ProcInv disk w p) (hg : Grows w t) : ProcInv disk t p :=
  ⟨h.entry.grow hg, fun s hs => (h.scan s hs).grow hg⟩

theorem Inv.skipsNothing (h : Inv disk w) : SkipsNothing disk w :=
  ⟨h.within, h.saved, fun p hp => (h.live p hp).entry⟩

/-! ## One event -/

theorem eq_of_onThread {stage : Stage} {f : SurfaceScan δ → Option (World δ)}
    (h : p.onThread stage f = some t) : ∃ s, p.scan = some s ∧ p.stage = stage ∧ f s = some t := by
  unfold Process.onThread at h
  split at h
  · next s hs =>
    by_cases hstage : p.stage = stage
    · rw [if_pos hstage] at h
      exact ⟨s, hs, hstage, h⟩
    · rw [if_neg hstage] at h
      cases h
  · cases h

/-- `start_scans` takes the scan of the disk up at the offset of its entry. -/
theorem startScans_scan (dm : DiskManager δ) (hscans : dm.scans = []) (probe : String → Probe)
    (st : SessionState) (d : Disk δ) :
    (DiskManager.startScans [] probe "" dm st [d]).state = st.register [] d ∧
      ∀ s, (DiskManager.startScans [] probe "" dm st [d]).manager.scans.head? = some s →
        s = { disk := d, offset := (st.progress (diskId d)).offset } := by
  simp only [DiskManager.startScans]
  cases hdec : dm.decision st [] probe d with
  | error e =>
    refine ⟨rfl, fun s hs => ?_⟩
    rw [hscans] at hs
    cases hs
  | ok dec =>
    refine ⟨rfl, fun s hs => ?_⟩
    cases dec with
    | reads offset =>
      have hoffset := (DiskManager.of_decision_progress hdec).2 offset rfl
      have hs : (dm.scans ++ [({ disk := d, offset := offset } : SurfaceScan δ)]).head? = some s :=
        hs
      rw [hscans] at hs
      obtain rfl := Option.some.inj hs
      rw [hoffset]
    | _ =>
      have hs : dm.scans.head? = some s := hs
      rw [hscans] at hs
      cases hs

theorem EntryCovered.congr {st st' : SessionState} {whole : Bool}
    (h : EntryCovered disk w st whole)
    (heq : st'.progress (diskId disk) = st.progress (diskId disk)) :
    EntryCovered disk w st' whole := by
  constructor
  · rw [heq]
    exact h.done
  · rw [heq]
    exact h.otherwise
  · rw [heq]
    exact h.below
  · rw [heq]
    exact h.lags

theorem EntryCovered.saveOffset {st : SessionState} {whole : Bool}
    (h : EntryCovered disk w st whole) (hs : ScanCovered disk w s) (hreached : w.log.Reached) :
    EntryCovered disk w (saveOffset st s) whole := by
  have hprogress := progress_saveOffset st s
  rw [hs.disk_eq] at hprogress
  rcases hprogress with heq | heq
  · exact h.congr heq
  · constructor
    · rw [heq]
      exact h.done
    · rw [heq]
      exact h.otherwise
    · rw [heq]
      exact hs.below
    · rw [heq]
      exact hs.below.le_reach hreached

theorem EntryCovered.saveDone {st : SessionState} {whole : Bool}
    (h : EntryCovered disk w st whole) (hs : ScanCovered disk w s) :
    EntryCovered disk w (saveDone st s) (s.done && decide (s.disk.size ≤ s.offset)) := by
  have hprogress := progress_saveDone st s
  rw [hs.disk_eq] at hprogress ⊢
  rcases hprogress with ⟨hnone, hsame⟩ | heq
  · constructor
    · rw [hnone]
      exact fun hdone => by cases hdone
    · rw [hnone]
      exact fun hdone => by cases hdone
    · rw [hsame]
      exact h.below
    · rw [hsame]
      exact h.lags
  · constructor
    · intro _ hwhole byte hbyte
      rw [Bool.and_eq_true, decide_eq_true_eq] at hwhole
      exact hs.below byte (hbyte.trans_le hwhole.2)
    · rw [heq]
      intro hdone hwhole
      have hdone : s.done = true := hdone
      rw [hdone, Bool.true_and, decide_eq_false_iff_not] at hwhole
      exact (hs.done hdone).resolve_left hwhole
    · rw [heq]
      exact h.below
    · rw [heq]
      exact h.lags

theorem ProcInv.put (h : ProcInv disk w p) {stage : Stage} (hs : ScanCovered disk w s) :
    ProcInv disk w (p.put s stage) := by
  refine ⟨h.entry, fun s' hs' => ?_⟩
  obtain rfl := Option.some.inj hs'
  exact hs

theorem ScanCovered.mark (h : ScanCovered disk w s) : ScanCovered disk w s.mark := by
  unfold SurfaceScan.mark
  split
  · next hend =>
    refine ⟨h.disk_eq, h.below, fun _ => ?_, h.aborted⟩
    rw [h.disk_eq] at hend
    exact hend.imp_right h.aborted
  · exact h

theorem offset_le_turn (s : SurfaceScan δ) (slow : PyFloat) (r : ReadResult) :
    s.offset ≤ (s.turn slow r).1.offset := by
  cases r with
  | error text =>
    simp only [SurfaceScan.turn]
    split
    · exact Nat.le_refl _
    · exact Nat.le_add_right _ _
  | data n dt =>
    simp only [SurfaceScan.turn]
    split
    · exact Nat.le_refl _
    · exact Nat.le_add_right _ _

theorem ScanCovered.turn (h : ScanCovered disk w s) {slow : PyFloat} {r : ReadResult}
    (hlog : t.log = w.log.read s r) (hgave : t.gaveUp = (w.gaveUp || (s.turn slow r).1.aborted)) :
    ScanCovered disk t (s.turn slow r).1 where
  disk_eq := (s.turn_disk slow r).trans h.disk_eq
  below := hlog ▸ h.below.turn slow r
  done := by
    rw [(s.turn_frame slow r).1, hgave]
    intro hdone
    rcases h.done hdone with hend | hgave
    · exact Or.inl (hend.trans (offset_le_turn s slow r))
    · exact Or.inr (by rw [hgave, Bool.true_or])
  aborted hab := by rw [hgave, hab, Bool.or_true]

/-- An event that leaves the log, and what is saved, as they were. -/
theorem Inv.keep (h : Inv disk w) (hlog : t.log = w.log) (hsaved : t.saved = w.saved)
    (hwhole : t.savedWhole = w.savedWhole) (hgave : w.gaveUp = true → t.gaveUp = true)
    (hlive : ∀ p, t.live = some p → ProcInv disk t p) : Inv disk t := by
  constructor
  · rw [hlog]
    exact h.within
  · rw [hlog]
    exact h.reached
  · rw [hsaved, hwhole]
    exact h.saved.grow (grows_of_eq hlog hgave)
  · exact hlive

theorem inv_live (h : Inv disk w) {q : Process δ} (hq : ProcInv disk w q) :
    Inv disk { w with live := some q } := by
  refine h.keep rfl rfl rfl id fun q' hq' => ?_
  obtain rfl := Option.some.inj hq'
  exact hq.grow (grows_of_eq rfl id)

variable (h : Inv disk w) (hp : w.live = some p)

include h hp

theorem inv_startScans {cfg : DiskConfig} {resumed : Bool} {probe : String → Probe}
    (ht : act disk w p (.startScans cfg resumed probe) = some t) : Inv disk t := by
  have hproc := h.live p hp
  simp only [act] at ht
  obtain ⟨-, hsome⟩ := Option.ite_none_right_eq_some.mp ht
  obtain rfl := Option.some.inj hsome
  obtain ⟨hstate, hscan⟩ := startScans_scan ({ config := cfg, resumed := resumed } :
    DiskManager δ) rfl probe p.state disk
  apply inv_live h
  constructor
  · apply hproc.entry.congr
    rw [hstate]
    exact SessionState.progress_register p.state [] disk (diskId disk)
  · intro s hs
    rw [hscan s hs]
    exact ⟨rfl, hproc.entry.below, (fun hdone => by cases hdone), (fun hab => by cases hab)⟩

theorem inv_cannotOpen (ht : act disk w p .cannotOpen = some t) : Inv disk t := by
  obtain ⟨s, hs, -, ht⟩ := eq_of_onThread ht
  obtain rfl := Option.some.inj ht
  have hscan := (h.live p hp).scan s hs
  have hgrows : Grows w { w with live := some (p.put s.cannotOpen .finished), gaveUp := true } :=
    grows_of_eq rfl fun _ => rfl
  refine h.keep rfl rfl rfl (fun _ => rfl) fun q hq => ?_
  obtain rfl := Option.some.inj hq
  apply ((h.live p hp).grow hgrows).put
  exact ⟨hscan.disk_eq, hscan.below, fun _ => Or.inr rfl, fun _ => rfl⟩

theorem inv_turn {slow : PyFloat} {r : ReadResult} (ht : act disk w p (.turn slow r) = some t) :
    Inv disk t := by
  obtain ⟨s, hs, -, ht⟩ := eq_of_onThread ht
  split at ht
  · next hreading =>
    obtain rfl := Option.some.inj ht
    have hscan := (h.live p hp).scan s hs
    have hroom : s.offset < s.disk.size := by
      simpa [SurfaceScan.reading] using hreading
    have hgave : w.gaveUp = true → (w.gaveUp || (s.turn slow r).1.aborted) = true := by
      intro hgave
      rw [hgave, Bool.true_or]
    have hgrows : Grows w { w with
        live := some (p.put (s.turn slow r).1 (if (s.turn slow r).2 then .reading else .ended)),
        log := w.log.read s r,
        gaveUp := w.gaveUp || (s.turn slow r).1.aborted } :=
      ⟨fun _ => w.log.covers_read s r, w.log.reach_read s r, hgave⟩
    constructor
    · show ∀ region ∈ (w.log.read s r).asked, _
      rw [Log.asked_read]
      intro region hmem
      rcases List.mem_append.mp hmem with hmem | hmem
      · exact h.within region hmem
      · rw [List.mem_singleton.mp hmem, ← hscan.disk_eq]
        exact Log.stop_wanted s hroom
    · exact h.reached.read s r
    · exact h.saved.grow hgrows
    · intro q hq
      obtain rfl := Option.some.inj hq
      exact ((h.live p hp).grow hgrows).put (hscan.turn rfl rfl)
  · cases ht

theorem inv_saveOffset (ht : act disk w p .saveOffset = some t) : Inv disk t := by
  have hproc := h.live p hp
  simp only [act] at ht
  split at ht
  · cases ht
  · obtain rfl := Option.some.inj ht
    apply inv_live h
    refine ⟨?_, hproc.scan⟩
    dsimp only
    cases hs : p.scan with
    | none => exact hproc.entry
    | some s => exact hproc.entry.saveOffset (hproc.scan s hs) h.reached

theorem inv_saveDone (ht : act disk w p .saveDone = some t) : Inv disk t := by
  have hproc := h.live p hp
  simp only [act] at ht
  obtain ⟨-, hsome⟩ := Option.ite_none_right_eq_some.mp ht
  obtain rfl := Option.some.inj hsome
  apply inv_live h
  refine ⟨?_, hproc.scan⟩
  dsimp only
  cases hs : p.scan with
  | none => exact hproc.entry
  | some s => exact hproc.entry.saveDone (hproc.scan s hs)

theorem inv_save (ht : act disk w p .save = some t) : Inv disk t := by
  simp only [act] at ht
  split at ht
  · cases ht
  · obtain rfl := Option.some.inj ht
    exact ⟨h.within, h.reached, (h.live p hp).entry.grow (grows_of_eq rfl id), fun q hq =>
      (h.live q hq).grow (grows_of_eq rfl id)⟩

theorem inv_act {e : Event} (ht : act disk w p e = some t) : Inv disk t := by
  cases e with
  | begin => cases ht
  | startScans cfg resumed probe => exact inv_startScans h hp ht
  | cannotOpen => exact inv_cannotOpen h hp ht
  | opened =>
    obtain ⟨s, hs, -, ht⟩ := eq_of_onThread ht
    obtain rfl := Option.some.inj ht
    exact inv_live h ((h.live p hp).put ((h.live p hp).scan s hs))
  | turn slow r => exact inv_turn h hp ht
  | leave stopped =>
    obtain ⟨s, hs, -, ht⟩ := eq_of_onThread ht
    split at ht
    · cases ht
    · obtain rfl := Option.some.inj ht
      exact inv_live h ((h.live p hp).put ((h.live p hp).scan s hs))
  | mark =>
    obtain ⟨s, hs, -, ht⟩ := eq_of_onThread ht
    obtain rfl := Option.some.inj ht
    exact inv_live h ((h.live p hp).put ((h.live p hp).scan s hs).mark)
  | saveOffset => exact inv_saveOffset h hp ht
  | saveDone => exact inv_saveDone h hp ht
  | save => exact inv_save h hp ht
  | die =>
    obtain rfl := Option.some.inj ht
    exact h.keep rfl rfl rfl id fun q hq => by cases hq

omit hp

theorem inv_step {e : Event} (ht : step disk w e = some t) : Inv disk t := by
  cases hlive : w.live with
  | some p =>
    simp only [step, hlive] at ht
    exact inv_act h hlive ht
  | none =>
    cases e with
    | begin =>
      simp only [step, hlive, Option.some.injEq] at ht
      subst ht
      refine h.keep rfl rfl rfl id fun p hp => ?_
      obtain rfl := Option.some.inj hp
      exact ⟨h.saved.grow (grows_of_eq rfl id), fun s hs => by cases hs⟩
    | _ => simp only [step, hlive, reduceCtorEq] at ht

omit h

theorem inv_fresh (name : String) (identity : Identity) (opts : Options) (plan : List PlanEntry)
    (m : Machine) : Inv disk (fresh name identity opts plan m) where
  within r hr := by cases hr
  reached r hr := by cases hr
  saved :=
    { done := fun hdone => by cases hdone
      otherwise := fun hdone => by cases hdone
      below := fun byte hbyte => absurd hbyte (Nat.not_lt_zero byte)
      lags := Nat.zero_le _ }
  live p hp := by cases hp

/-- A disk that is done because its scan came to its end has had every byte returned by a read
or failed on, no read extends past the disk, and the offset stays behind what was attempted. -/
theorem scan_skips_nothing (disk : Disk δ) (name : String) (identity : Identity) (opts : Options)
    (plan : List PlanEntry) (m : Machine) (es : List Event) :
    Always (step disk) (SkipsNothing disk) (fresh name identity opts plan m) es := by
  have hkeep : ∀ w e t, Inv disk w → True → step disk w e = some t → Inv disk t :=
    fun _ _ _ h _ ht => inv_step h ht
  have hany : Along (step disk) (fun _ _ => True) (fresh name identity opts plan m) es :=
    along_of_forall fun _ _ _ => trivial
  have hinv := always_of_along hkeep (inv_fresh name identity opts plan m) hany
  exact fun pre hpre t ht => (hinv pre hpre t ht).skipsNothing

/-! ## A scan over two boots -/

def surface : Disk Nat := { device := 1, name := "sda", size := chunk + 100, serial := "S1" }

def emptyProbe (name : String) : Probe :=
  { signaturesCode := 0, signatures := "", topologyCode := 0,
    topology := some (.obj [("blockdevices", .arr [.obj [("name", .str name)]])]),
    holders := fun _ => false }

/-- The first chunk cannot be read and the power goes; the next boot reads what is left. -/
def overTwoBoots : List Event :=
  [.begin, .startScans { opts := {}, bootDisk := "sdz", logDisk := "sdz" } false emptyProbe,
    .opened, .turn (.finite 5) (.error "EIO"), .saveOffset, .saveDone, .save, .die,
    .begin, .startScans { opts := {}, bootDisk := "sdz", logDisk := "sdz" } true emptyProbe,
    .opened, .turn (.finite 5) (.data 60 1), .turn (.finite 5) (.data 40 1), .leave false, .mark,
    .saveOffset, .saveDone, .save]

def unscanned : World Nat :=
  fresh "20000101-000005_SN1" ⟨"a3f1", "SN1"⟩ {} [] ⟨"boot-1", "09:00", 0⟩

theorem scan_skips_nothing_overTwoBoots :
    ∃ w, run (step surface) unscanned overTwoBoots = some w ∧ w.savedWhole = true ∧
      (w.saved.progress (diskId surface)).done = true ∧ w.log.Below surface.size := by
  have hends : ∃ w, run (step surface) unscanned overTwoBoots = some w ∧ w.savedWhole = true ∧
      (w.saved.progress (diskId surface)).done = true := by
    refine ⟨_, rfl, ?_, ?_⟩ <;> decide +kernel
  obtain ⟨w, hrun, hwhole, hdone⟩ := hends
  have hcovered := (scan_skips_nothing surface "20000101-000005_SN1" ⟨"a3f1", "SN1"⟩ {} []
    ⟨"boot-1", "09:00", 0⟩ overTwoBoots overTwoBoots (List.prefix_refl _) w hrun).saved
  exact ⟨w, hrun, hwhole, hdone, hcovered.done hdone hwhole⟩

end ScanCoverage
end PcCheck
