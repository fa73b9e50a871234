/-
Crashes during a save.

`Session.save` uses up a sequence number for every attempt and picks the slot by its
parity, so the slot it is writing can be the one that holds the last state it completed.
A crash then leaves nothing newer than the state before.  What decides is the number of
attempts that have failed since the last write: an even number sends the next write to
the other slot, an odd one to the slot of the copy that should survive.
-/
import PcCheck.Session

namespace PcCheck
namespace Saves

open SessionStore

structure SaveCall where
  state : SessionState
  outcomes : List Attempt

/-- A session with the copy its last completed save wrote. -/
structure Journal where
  store : SessionStore
  last : Option (Saved SessionState)

/-- Every slot file carries a number of its slot, and there is no legacy file. -/
def Placed (files : RotatingFiles SessionState) : Prop :=
  ∀ p d, files p = some d → p = Place.ofSeq d.stamp ∧ 0 ≤ d.stamp

namespace Journal

/-- A session opened on its files: a new one counts from 0, one found there from the
number it was saved under. -/
def start (files : RotatingFiles SessionState) (st : SessionState) : Journal :=
  match files.readRotating with
  | (some found, seq) =>
    { store := { mem := { state := st, seq := seq }, files := files }, last := some ⟨found, seq⟩ }
  | (none, _) => { store := { mem := { state := st }, files := files }, last := none }

def save (j : Journal) (c : SaveCall) : Journal :=
  let store := j.store.update (fun _ => c.state) c.outcomes
  { store := store,
    last := if Written c.outcomes then some ⟨c.state, store.mem.seq⟩ else j.last }

def saves (j : Journal) (calls : List SaveCall) : Journal := calls.foldl save j

end Journal

def SaveCall.failedAfter (failed : Nat) (c : SaveCall) : Nat :=
  if Written c.outcomes then 0 else failed + attempts 5 c.outcomes

def failedSince (calls : List SaveCall) : Nat := calls.foldl SaveCall.failedAfter 0

/-- The moment of a crash: between two writes, or while a call writes its slot. -/
inductive Crash where
  | between
  | writing (c : SaveCall)

namespace Crash

def saving (j : Journal) : Crash → Option (Saved SessionState)
  | .between => none
  | .writing c =>
    if Written c.outcomes then
      some ⟨c.state, (j.store.update (fun _ => c.state) c.outcomes).mem.seq⟩
    else none

/-- The files a crash leaves: the slot being written is torn. -/
def leaves (j : Journal) (crash : Crash) : RotatingFiles SessionState :=
  match crash.saving j with
  | none => j.store.files
  | some d => Register.tear j.store.files (Place.ofSeq d.stamp)

/-- The write that is cut short goes to the other slot. -/
def Spares (failed : Nat) : Crash → Prop
  | .between => True
  | .writing c => ∀ k, retries 5 c.outcomes = some k → Even (failed + k)

end Crash

/-- What is read after the crash is the copy being saved or the last one completed. -/
def Survives (j : Journal) (crash : Crash) : Prop :=
  ∃ d : Saved SessionState, (crash.leaves j).readRotating = (some d.val, d.stamp) ∧
    (j.last = some d ∨ crash.saving j = some d)

/-! ## The slot of the last completed save -/

structure Inv (j : Journal) (failed : Nat) : Prop where
  held : ∀ d, j.last = some d → Register.Holds Place.ofSeq j.store.files d ∧ 0 ≤ d.stamp ∧
    j.store.mem.seq = d.stamp + failed
  blank : j.last = none → (∀ p, j.store.files p = none) ∧ 0 ≤ j.store.mem.seq

theorem inv_start {files : RotatingFiles SessionState} (h : Placed files) (st : SessionState) :
    Inv (Journal.start files st) 0 := by
  rcases RotatingFiles.readRotating_cases files with hread | ⟨p, d, hp, hread⟩
  · have hstart : Journal.start files st =
        { store := { mem := { state := st }, files := files }, last := none } := by
      rw [Journal.start, hread]
    rw [hstart]
    refine ⟨fun d hd => (nomatch hd), fun _ => ⟨fun p => ?_, le_refl (0 : Int)⟩⟩
    cases hp : files p with
    | none => exact hp
    | some d =>
      have hle := RotatingFiles.stamp_le_readRotating hp
      rw [hread] at hle
      have hpos := (h p d hp).2
      have : d.stamp ≤ -1 := hle
      omega
  · have hstart : Journal.start files st =
        { store := { mem := { state := st, seq := d.stamp }, files := files },
          last := some d } := by
      rw [Journal.start, hread]
    obtain ⟨hpd, hpos⟩ := h p d hp
    rw [hstart]
    refine ⟨fun e he => ?_, fun hnone => nomatch hnone⟩
    obtain rfl : d = e := Option.some.inj he
    refine ⟨⟨hpd ▸ hp, fun q e hq he => ?_⟩, hpos, by simp⟩
    have hle := RotatingFiles.stamp_le_readRotating he
    rw [hread] at hle
    have hne : e.stamp ≠ d.stamp := by
      intro heq
      exact hq ((h q e he).1.trans (by rw [heq]))
    have : e.stamp ≤ d.stamp := hle
    omega

theorem update_of_retries {s : SessionStore} {c : SaveCall} {k : Nat}
    (h : retries 5 c.outcomes = some k) :
    s.update (fun _ => c.state) c.outcomes =
      { mem := { s.mem with state := c.state, seq := s.mem.seq + k + 1 },
        files := s.files.writeRotating c.state (s.mem.seq + k + 1) } := by
  rw [update, SessionStore.save, saveLoop_of_retries h]

theorem update_of_no_retries {s : SessionStore} {c : SaveCall}
    (h : retries 5 c.outcomes = none) :
    s.update (fun _ => c.state) c.outcomes =
      { s with mem := { s.mem with
                        state := c.state, seq := s.mem.seq + attempts 5 c.outcomes } } := by
  rw [update, SessionStore.save, saveLoop_of_no_retries h]

theorem written_of_retries {c : SaveCall} {k : Nat} (h : retries 5 c.outcomes = some k) :
    Written c.outcomes := by
  rw [Written.eq_def, h]
  rfl

theorem not_written_of_no_retries {c : SaveCall} (h : retries 5 c.outcomes = none) :
    ¬ Written c.outcomes := by
  rw [Written.eq_def, h]
  exact Bool.false_ne_true

theorem Inv.below {j : Journal} {failed : Nat} (h : Inv j failed) :
    Register.Below j.store.files (j.store.mem.seq + 1) ∧ 0 ≤ j.store.mem.seq := by
  cases hlast : j.last with
  | none =>
    obtain ⟨hblank, hseq⟩ := h.blank hlast
    exact ⟨fun p d hd => (by rw [hblank p] at hd; cases hd), hseq⟩
  | some d =>
    obtain ⟨hhold, hpos, hseq⟩ := h.held d hlast
    exact ⟨hhold.below_of_lt (by omega), by omega⟩

theorem inv_save {j : Journal} {failed : Nat} (h : Inv j failed) (c : SaveCall) :
    Inv (j.save c) (c.failedAfter failed) := by
  cases hr : retries 5 c.outcomes with
  | none =>
    have hw := not_written_of_no_retries hr
    have hsave : j.save c =
        { store := { j.store with mem := { j.store.mem with
                        state := c.state, seq := j.store.mem.seq + attempts 5 c.outcomes } },
          last := j.last } := by
      rw [Journal.save, update_of_no_retries hr, if_neg hw]
    rw [hsave, SaveCall.failedAfter, if_neg hw]
    refine ⟨fun d hd => ?_, fun hnone => ?_⟩
    · obtain ⟨hhold, hpos, hseq⟩ := h.held d hd
      refine ⟨hhold, hpos, ?_⟩
      show j.store.mem.seq + (attempts 5 c.outcomes : Int) = _
      push_cast
      omega
    · obtain ⟨hblank, hseq⟩ := h.blank hnone
      refine ⟨hblank, ?_⟩
      show 0 ≤ j.store.mem.seq + (attempts 5 c.outcomes : Int)
      omega
  | some k =>
    have hw := written_of_retries hr
    have hsave : j.save c =
        { store := { mem := { j.store.mem with
                        state := c.state, seq := j.store.mem.seq + k + 1 },
                     files := j.store.files.writeRotating c.state (j.store.mem.seq + k + 1) },
          last := some ⟨c.state, j.store.mem.seq + k + 1⟩ } := by
      rw [Journal.save, update_of_retries hr, if_pos hw]
    rw [hsave, SaveCall.failedAfter, if_pos hw]
    obtain ⟨hbelow, hseq⟩ := h.below
    refine ⟨fun d hd => ?_, fun hnone => nomatch hnone⟩
    obtain rfl := Option.some.inj hd
    refine ⟨Register.Holds.put_of_below (below_mono hbelow ?_), ?_, ?_⟩
    · show j.store.mem.seq + 1 ≤ j.store.mem.seq + (k : Int) + 1
      omega
    · show 0 ≤ j.store.mem.seq + (k : Int) + 1
      omega
    · show j.store.mem.seq + (k : Int) + 1 = j.store.mem.seq + (k : Int) + 1 + ((0 : Nat) : Int)
      omega

theorem inv_saves {j : Journal} {failed : Nat} (h : Inv j failed) (calls : List SaveCall) :
    Inv (j.saves calls) (calls.foldl SaveCall.failedAfter failed) := by
  induction calls generalizing j failed with
  | nil => exact h
  | cons c rest ih => exact ih (inv_save h c)

theorem isSome_last_saves (j : Journal) (calls : List SaveCall) :
    (j.saves calls).last.isSome = true ↔
      j.last.isSome = true ∨ ∃ c ∈ calls, Written c.outcomes := by
  induction calls generalizing j with
  | nil => simp [Journal.saves]
  | cons c rest ih =>
    have hlast : (j.save c).last.isSome = true ↔ j.last.isSome = true ∨ Written c.outcomes := by
      by_cases hw : Written c.outcomes <;> simp [Journal.save, hw]
    show ((j.save c).saves rest).last.isSome = true ↔ _
    rw [ih, hlast, or_assoc]
    simp

theorem isSome_last_start (files : RotatingFiles SessionState) (st : SessionState) :
    (Journal.start files st).last.isSome = files.readRotating.1.isSome := by
  rcases hread : files.readRotating with ⟨found, seq⟩
  cases found <;> simp [Journal.start, hread]

/-! ## One crash -/

theorem saving_of_retries {j : Journal} {c : SaveCall} {k : Nat}
    (h : retries 5 c.outcomes = some k) :
    Crash.saving j (.writing c) = some ⟨c.state, j.store.mem.seq + k + 1⟩ := by
  simp only [Crash.saving, if_pos (written_of_retries h), update_of_retries h]

theorem saving_of_no_retries {j : Journal} {c : SaveCall} (h : retries 5 c.outcomes = none) :
    Crash.saving j (.writing c) = none := by
  simp only [Crash.saving, if_neg (not_written_of_no_retries h)]

/-- A crash that tears no slot leaves the last completed copy to be read. -/
theorem survives_of_no_saving {j : Journal} {failed : Nat} (h : Inv j failed) {crash : Crash}
    (hnone : crash.saving j = none) : Survives j crash ↔ j.last.isSome = true := by
  have hleaves : crash.leaves j = j.store.files := by rw [Crash.leaves, hnone]
  constructor
  · intro hsurvives
    obtain ⟨d, -, hd⟩ := hsurvives
    rcases hd with hd | hd
    · rw [hd]; rfl
    · rw [hnone] at hd; cases hd
  · intro hsome
    obtain ⟨d, hd⟩ := Option.isSome_iff_exists.mp hsome
    obtain ⟨hhold, hpos, -⟩ := h.held d hd
    exact ⟨d, by rw [hleaves, RotatingFiles.readRotating_of_holds hhold hpos], Or.inl hd⟩

/-- A crash that tears a slot spares the last completed copy exactly when an even number
of attempts came between the two. -/
theorem survives_of_saving {j : Journal} {failed k : Nat} (h : Inv j failed) {c : SaveCall}
    (hk : retries 5 c.outcomes = some k) :
    Survives j (.writing c) ↔ j.last.isSome = true ∧ Even (failed + k) := by
  have hsaving := saving_of_retries (j := j) hk
  have hleaves : (Crash.writing c).leaves j =
      Register.tear j.store.files (Place.ofSeq (j.store.mem.seq + k + 1)) := by
    rw [Crash.leaves, hsaving]
  obtain ⟨hbelow, hseq⟩ := h.below
  cases hlast : j.last with
  | none =>
    have hblank : ∀ p, (Crash.writing c).leaves j p = none := by
      intro p
      rw [hleaves, Register.tear, Function.update_apply, (h.blank hlast).1 p, ite_self]
    have hread : ((Crash.writing c).leaves j).readRotating = (none, -1) := by
      rcases RotatingFiles.readRotating_cases ((Crash.writing c).leaves j) with hr | ⟨p, d, hp, -⟩
      · exact hr
      · rw [hblank p] at hp; cases hp
    constructor
    · intro hsurvives
      obtain ⟨d, hd, -⟩ := hsurvives
      rw [hread] at hd
      cases congrArg Prod.fst hd
    · intro hno
      cases hno.1
  | some d =>
    obtain ⟨hhold, hpos, hd⟩ := h.held d hlast
    have hslot : Place.ofSeq (j.store.mem.seq + k + 1) = Place.ofSeq d.stamp ↔
        ¬ Even (failed + k) := by
      rw [Place.ofSeq_eq_iff, Nat.even_iff]
      omega
    constructor
    · intro hsurvives
      refine ⟨rfl, ?_⟩
      by_contra hodd
      have hown := hslot.mpr hodd
      have htorn : Register.Below ((Crash.writing c).leaves j) d.stamp := by
        rw [hleaves, hown]
        exact hhold.tear_own
      have hlt := RotatingFiles.readRotating_lt_of_below htorn hpos
      obtain ⟨e, he, hlatest⟩ := hsurvives
      rw [he] at hlt
      have hes : e.stamp < d.stamp := hlt
      rcases hlatest with heq | heq
      · rw [hlast] at heq
        obtain rfl := Option.some.inj heq
        omega
      · rw [hsaving] at heq
        obtain rfl := Option.some.inj heq
        have : j.store.mem.seq + (k : Int) + 1 < d.stamp := hes
        omega
    · intro heven
      have hother : Place.ofSeq (j.store.mem.seq + k + 1) ≠ Place.ofSeq d.stamp :=
        fun heq => hslot.mp heq heven.2
      have hkeep := hhold.tear_other hother
      refine ⟨d, ?_, Or.inl hlast⟩
      rw [hleaves]
      exact RotatingFiles.readRotating_of_holds hkeep hpos

/-- A crash costs at most the newest save exactly when some save has been completed and,
where the crash tears a slot, an even number of attempts has failed since. -/
theorem crash_costs_newest_iff (files : RotatingFiles SessionState) (hplaced : Placed files)
    (st : SessionState) (calls : List SaveCall) (crash : Crash) :
    Survives ((Journal.start files st).saves calls) crash ↔
      (files.readRotating.1.isSome = true ∨ ∃ c ∈ calls, Written c.outcomes) ∧
        crash.Spares (failedSince calls) := by
  have hinv := inv_saves (inv_start hplaced st) calls
  rw [← isSome_last_start files st, ← isSome_last_saves]
  cases crash with
  | between =>
    rw [survives_of_no_saving hinv rfl]
    exact (and_iff_left trivial).symm
  | writing c =>
    cases hr : retries 5 c.outcomes with
    | none =>
      rw [survives_of_no_saving hinv (saving_of_no_retries hr)]
      simp only [Crash.Spares, hr, reduceCtorEq, false_implies, implies_true, and_true]
    | some k =>
      rw [survives_of_saving hinv hr]
      simp only [Crash.Spares, hr, Option.some.injEq, forall_eq']
      rfl

/-- The files of a session stay in their slots, whatever is saved or torn. -/
theorem placed_empty : Placed RotatingFiles.empty := fun _ _ h => nomatch h

theorem placed_put {files : RotatingFiles SessionState} (h : Placed files) {st : SessionState}
    {n : Int} (hn : 0 ≤ n) : Placed (files.writeRotating st n) := by
  intro p d hd
  by_cases hp : p = Place.ofSeq n
  · subst hp
    rw [RotatingFiles.writeRotating, Register.put_self] at hd
    obtain rfl := Option.some.inj hd
    exact ⟨rfl, hn⟩
  · exact h p d ((Register.put_of_ne files _ hp).symm.trans hd)

theorem placed_leaves {j : Journal} (h : Placed j.store.files) (crash : Crash) :
    Placed (crash.leaves j) := by
  intro p d hd
  cases hs : crash.saving j with
  | none =>
    rw [Crash.leaves, hs] at hd
    exact h p d hd
  | some e =>
    simp only [Crash.leaves, hs] at hd
    by_cases hp : p = Place.ofSeq e.stamp
    · subst hp
      rw [Register.tear_self] at hd
      cases hd
    · rw [Register.tear_of_ne _ hp] at hd
      exact h p d hd

/-! ## A failed save before the crash -/

def newSession : SessionState :=
  { session := "20260101-000000_SN1", identity := ⟨"0123456789ab", "SN1"⟩, status := some .running }

/-- The first save completes, the second ends in an `OSError`. -/
def failedSave : List SaveCall := [⟨newSession, [.written]⟩, ⟨newSession, [.osError]⟩]

theorem crash_costs_newest_iff_between :
    Survives ((Journal.start RotatingFiles.empty newSession).saves failedSave) .between ↔
      ((RotatingFiles.empty : RotatingFiles SessionState).readRotating.1.isSome = true ∨
        ∃ c ∈ failedSave, Written c.outcomes) ∧ Crash.between.Spares (failedSince failedSave) :=
  crash_costs_newest_iff RotatingFiles.empty placed_empty newSession failedSave .between

/-- A crash in the third save tears the only copy there is. -/
theorem crash_after_failed_save_loses_all :
    ¬ ∀ (st : SessionState) (calls : List SaveCall) (crash : Crash),
      (∃ c ∈ calls, Written c.outcomes) →
      Survives ((Journal.start RotatingFiles.empty st).saves calls) crash := by
  intro h
  obtain ⟨d, hd, -⟩ := h newSession failedSave (.writing ⟨newSession, [.written]⟩)
    ⟨_, List.mem_cons_self, rfl⟩
  cases congrArg Prod.fst hd

end Saves
end PcCheck
