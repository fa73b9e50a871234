/-
Rotating files over many boots (`read_rotating` and `write_rotating` of `util.py`).

A boot reads the newest copy with its number and saves under the numbers that follow.  It
ends in a crash that may catch a save: the slot of that save still holds what it held, is
torn, or holds the new copy.  Where nothing is readable the numbers start after `first`,
which is 0 for a session and -1 for the findings.
-/
import PcCheck.Saves
import PcCheck.Findings
import PcCheck.Lib.EventMachine

namespace PcCheck
namespace Boots

open EventMachine

variable {α : Type*}

def resumeSeq (first : Int) (files : RotatingFiles α) : Int :=
  match files.readRotating with
  | (some _, seq) => seq
  | (none, _) => first

/-- What a crash does to the save it catches. -/
inductive Crash (α : Type*) where
  | between
  | torn
  | landed (obj : α)

inductive Event (α : Type*) where
  | save (obj : α)
  | crash (c : Crash α)

/-- The files, the number of the last save, and the saves that completed or landed, newest
first. -/
structure World (α : Type*) where
  files : RotatingFiles α
  seq : Int
  completed : List (Saved α) := []

namespace World

def save (w : World α) (obj : α) : World α :=
  { files := w.files.writeRotating obj (w.seq + 1), seq := w.seq + 1,
    completed := ⟨obj, w.seq + 1⟩ :: w.completed }

def crash (w : World α) : Crash α → World α
  | .between => w
  | .torn => { w with files := Register.tear w.files (Place.ofSeq (w.seq + 1)) }
  | .landed obj => w.save obj

/-- The next boot reads the files. -/
def boot (first : Int) (w : World α) : World α := { w with seq := resumeSeq first w.files }

end World

def step (first : Int) (w : World α) : Event α → Option (World α)
  | .save obj => some (w.save obj)
  | .crash c => some ((w.crash c).boot first)

def legacyFile (legacy : Option α) : Option (Saved α) := legacy.map fun obj => ⟨obj, 0⟩

/-- The first boot finds at most a legacy file, which carries no number. -/
def opened (first : Int) (legacy : Option α) : World α :=
  World.boot first
    { files := fun k => if k = .base then legacyFile legacy else none, seq := first }

/-- The session counts from 0 and the findings from -1 where nothing is readable. -/
theorem resumeSeq_session (files : RotatingFiles SessionState) (st : SessionState) :
    (Saves.Journal.start files st).store.mem.seq = resumeSeq 0 files := by
  unfold Saves.Journal.start resumeSeq
  split <;> simp_all

theorem resumeSeq_findings (path : String) (files : RotatingFiles FindingsDoc) :
    (Findings.load path files).seq = resumeSeq (-1) files := by
  show files.readRotating.2 = _
  unfold resumeSeq
  rcases RotatingFiles.readRotating_cases files with hnone | ⟨p, d, -, hd⟩
  · rw [hnone]
  · rw [hd]

/-! ## What is read back -/

/-- What `read_rotating` is to return. -/
def newest (legacy : Option α) : List (Saved α) → Option α × Int
  | d :: _ => (some d.val, d.stamp)
  | [] => (legacy, if legacy.isSome then 0 else -1)

/-- Nothing is lost and nothing comes back. -/
structure Faithful (legacy : Option α) (w : World α) : Prop where
  newest : w.files.readRotating = newest legacy w.completed
  ordered : w.completed.Pairwise fun later earlier => earlier.stamp < later.stamp
  readable : ∀ k d, k ≠ .base → w.files k = some d → d ∈ w.completed
  legacyLast : ∀ k d, k ≠ .base → w.files k = some d →
    ∃ k' d', k' ≠ .base ∧ w.files k' = some d' ∧ w.files.readRotating = (some d'.val, d'.stamp)

structure Inv (first : Int) (legacy : Option α) (w : World α) : Prop where
  base : w.files .base = legacyFile legacy
  ordered : w.completed.Pairwise fun later earlier => earlier.stamp < later.stamp
  readable : ∀ k d, k ≠ .base → w.files k = some d → d ∈ w.completed
  blank : w.completed = [] → w.seq = if legacy.isSome then 0 else first
  held : ∀ d, w.completed.head? = some d →
    Register.Holds Place.ofSeq w.files d ∧ 0 ≤ d.stamp ∧ w.seq = d.stamp

theorem ofSeq_ne_base (n : Int) : Place.ofSeq n ≠ .base := by
  unfold Place.ofSeq
  split <;> decide

section Runs

variable {first : Int} {legacy : Option α} {w : World α}

theorem slots_blank (h : Inv first legacy w) (hnil : w.completed = []) {k : Place}
    (hk : k ≠ .base) : w.files k = none := by
  cases hfile : w.files k with
  | none => rfl
  | some d =>
    have hmem := h.readable k d hk hfile
    rw [hnil] at hmem
    cases hmem

theorem readRotating_of_inv (h : Inv first legacy w) :
    w.files.readRotating = newest legacy w.completed := by
  cases hcase : w.completed with
  | nil =>
    have h0 := slots_blank h hcase (k := .slot0) (by decide)
    have h1 := slots_blank h hcase (k := .slot1) (by decide)
    unfold RotatingFiles.readRotating
    rw [h0, h1, h.base]
    cases legacy <;> rfl
  | cons d rest =>
    obtain ⟨hholds, hpos, -⟩ := h.held d (by rw [hcase]; rfl)
    exact RotatingFiles.readRotating_of_holds hholds hpos

theorem resumeSeq_of_inv (h : Inv first legacy w) : resumeSeq first w.files = w.seq := by
  unfold resumeSeq
  rw [readRotating_of_inv h]
  cases hcase : w.completed with
  | nil =>
    rw [h.blank hcase]
    cases legacy <;> rfl
  | cons d rest =>
    obtain ⟨-, -, hseq⟩ := h.held d (by rw [hcase]; rfl)
    exact hseq.symm

/-- The next number is above every file. -/
theorem below_next (hfirst : -1 ≤ first) (h : Inv first legacy w) :
    Register.Below w.files (w.seq + 1) ∧ 0 ≤ w.seq + 1 := by
  cases hcase : w.completed with
  | nil =>
    have hseq := h.blank hcase
    refine ⟨fun k d hd => ?_, ?_⟩
    · by_cases hk : k = .base
      · rw [hk, h.base] at hd
        obtain ⟨obj, hobj, rfl⟩ := Option.map_eq_some_iff.mp hd
        rw [hobj] at hseq
        rw [hseq]
        exact Int.zero_lt_one
      · rw [slots_blank h hcase hk] at hd
        cases hd
    · rw [hseq]
      split <;> omega
  | cons c rest =>
    obtain ⟨hholds, hpos, hseq⟩ := h.held c (by rw [hcase]; rfl)
    rw [hseq]
    exact ⟨hholds.below_of_lt (by omega), by omega⟩

theorem inv_save (hfirst : -1 ≤ first) (h : Inv first legacy w) (obj : α) :
    Inv first legacy (w.save obj) := by
  obtain ⟨hbelow, hpos⟩ := below_next hfirst h
  have hfile : ∀ k d, (w.save obj).files k = some d →
      d = ⟨obj, w.seq + 1⟩ ∨ w.files k = some d := by
    intro k d hd
    by_cases hk : k = Place.ofSeq (w.seq + 1)
    · subst hk
      have hself : (w.save obj).files (Place.ofSeq (w.seq + 1)) = some ⟨obj, w.seq + 1⟩ :=
        Register.put_self w.files ⟨obj, w.seq + 1⟩
      exact Or.inl (Option.some.inj (hself.symm.trans hd)).symm
    · have hother : (w.save obj).files k = w.files k :=
        Register.put_of_ne w.files ⟨obj, w.seq + 1⟩ hk
      exact Or.inr (hother.symm.trans hd)
  refine ⟨?_, ?_, fun k d hk hd => ?_, nofun, fun d hd => ?_⟩
  · rw [← h.base]
    show (w.save obj).files Place.base = w.files Place.base
    exact Register.put_of_ne w.files ⟨obj, w.seq + 1⟩ (ofSeq_ne_base (w.seq + 1)).symm
  · refine List.pairwise_cons.mpr ⟨fun d hd => ?_, h.ordered⟩
    show d.stamp < w.seq + 1
    cases hcase : w.completed with
    | nil =>
      rw [hcase] at hd
      cases hd
    | cons c rest =>
      obtain ⟨-, -, hseq⟩ := h.held c (by rw [hcase]; rfl)
      have hordered := h.ordered
      rw [hcase] at hd hordered
      rcases List.mem_cons.mp hd with rfl | hrest
      · omega
      · have hlt := (List.pairwise_cons.mp hordered).1 d hrest
        omega
  · rcases hfile k d hd with rfl | hold
    · exact List.mem_cons_self
    · exact List.mem_cons_of_mem _ (h.readable k d hk hold)
  · obtain rfl := Option.some.inj hd
    exact ⟨Register.Holds.put_of_below hbelow, hpos, rfl⟩

theorem inv_torn (h : Inv first legacy w) : Inv first legacy (w.crash .torn) := by
  have hbase : Place.base ≠ Place.ofSeq (w.seq + 1) := (ofSeq_ne_base _).symm
  refine ⟨?_, h.ordered, fun k d hk hd => ?_, h.blank, fun d hd => ?_⟩
  · rw [← h.base]
    exact Register.tear_of_ne w.files hbase
  · by_cases hkk : k = Place.ofSeq (w.seq + 1)
    · subst hkk
      have hself := Register.tear_self w.files (Place.ofSeq (w.seq + 1))
      exact nomatch hself.symm.trans hd
    · exact h.readable k d hk ((Register.tear_of_ne w.files hkk).symm.trans hd)
  · obtain ⟨hholds, hpos, hseq⟩ := h.held d hd
    refine ⟨hholds.tear_other fun heq => ?_, hpos, hseq⟩
    rw [Place.ofSeq_eq_iff, hseq] at heq
    omega

theorem inv_boot (h : Inv first legacy w) : Inv first legacy (w.boot first) := by
  have hseq : (w.boot first).seq = w.seq := resumeSeq_of_inv h
  refine ⟨h.base, h.ordered, h.readable, fun hnil => ?_, fun d hd => ?_⟩
  · rw [hseq]
    exact h.blank hnil
  · rw [hseq]
    exact h.held d hd

theorem inv_step (hfirst : -1 ≤ first) {e : Event α} {t : World α} (h : Inv first legacy w)
    (ht : step first w e = some t) : Inv first legacy t := by
  cases e with
  | save obj =>
    obtain rfl := Option.some.inj ht
    exact inv_save hfirst h obj
  | crash c =>
    obtain rfl := Option.some.inj ht
    cases c with
    | between => exact inv_boot h
    | torn => exact inv_boot (inv_torn h)
    | landed obj => exact inv_boot (inv_save hfirst h obj)

theorem inv_opened (first : Int) (legacy : Option α) :
    Inv first legacy (opened first legacy) := by
  have hslots : ∀ k d, k ≠ .base → (opened first legacy).files k ≠ some d := by
    intro k d hk hd
    have hd' : (if k = .base then legacyFile legacy else none) = some d := hd
    rw [if_neg hk] at hd'
    cases hd'
  refine ⟨rfl, List.Pairwise.nil, fun k d hk hd => absurd hd (hslots k d hk), fun _ => ?_, nofun⟩
  cases legacy <;> rfl

theorem faithful_of_inv (h : Inv first legacy w) : Faithful legacy w := by
  have hread := readRotating_of_inv h
  refine ⟨hread, h.ordered, h.readable, fun k d hk hd => ?_⟩
  cases hcase : w.completed with
  | nil =>
    have hmem := h.readable k d hk hd
    rw [hcase] at hmem
    cases hmem
  | cons c rest =>
    obtain ⟨hholds, -⟩ := h.held c (by rw [hcase]; rfl)
    rw [hcase] at hread
    exact ⟨Place.ofSeq c.stamp, c, ofSeq_ne_base c.stamp, hholds.inPlace, hread⟩

end Runs

/-- Over any number of boots and crashes, what is read is the newest save that completed or
landed, a later save has a larger number, and the legacy file is returned only while no slot
is readable. -/
theorem reads_newest_over_boots {first : Int} (hfirst : -1 ≤ first) (legacy : Option α)
    (es : List (Event α)) :
    Always (step first) (Faithful legacy) (opened first legacy) es := by
  have halong : Along (step first) (fun _ _ => True) (opened first legacy) es :=
    along_of_forall fun _ _ _ => trivial
  intro pre hpre t ht
  exact faithful_of_inv (always_of_along (fun _ _ _ h _ ht => inv_step hfirst h ht)
    (inv_opened first legacy) halong pre hpre t ht)

/-- Two crashes in a row tear the slot of the same number. -/
theorem reads_newest_over_two_crashes :
    Always (step (-1)) (Faithful none) (opened (-1) none)
      [.save "a", .save "b", .crash .torn, .crash .torn, .save "c", .crash (.landed "d")] :=
  reads_newest_over_boots (le_refl (-1)) none _

end Boots
end PcCheck
