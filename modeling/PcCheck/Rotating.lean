/-
Rotating files (`util.py`).

`write_rotating` puts a dict with its `save_seq` into one of two slot files chosen
by the parity of the sequence number, and `read_rotating` takes the readable file
with the largest sequence number among the two slots and the legacy single file.
A path holds `none` when `load_json` finds no dict or list there: no file, an
unreadable one, or bytes that are not JSON.
-/
import PcCheck.Lib.Register
import Mathlib.Tactic.Common
import Mathlib.Order.Lattice
import Mathlib.Algebra.Order.Ring.Int

namespace PcCheck

/-- The paths `read_rotating` looks at, in its order: the two slots and the legacy
file. -/
inductive Place where
  | slot0
  | slot1
  | base
  deriving DecidableEq, Repr

/-- A document with its `save_seq`, which counts as 0 where the key is missing. -/
abbrev Saved (α : Type*) := Copy Int α

abbrev RotatingFiles (α : Type*) := Register Place Int α

namespace Place

/-- `rotating_paths(base)[seq % 2]`. -/
def ofSeq (seq : Int) : Place := if seq % 2 = 0 then slot0 else slot1

theorem ofSeq_eq_iff (m n : Int) : ofSeq m = ofSeq n ↔ m % 2 = n % 2 := by
  have hm := Int.emod_two_eq m
  have hn := Int.emod_two_eq n
  rcases hm with hm | hm <;> rcases hn with hn | hn <;> simp [ofSeq, hm, hn]

end Place

namespace RotatingFiles

variable {α : Type*}

def empty : RotatingFiles α := fun _ => none

def writeRotating (files : RotatingFiles α) (obj : α) (seq : Int) : RotatingFiles α :=
  Register.put Place.ofSeq files ⟨obj, seq⟩

/-- One candidate of `read_rotating`: a later path wins a tie. -/
def consider (best : Option α × Int) : Option (Saved α) → Option α × Int
  | none => best
  | some data => if best.2 ≤ data.stamp then (some data.val, data.stamp) else best

/-- The newest readable document with its sequence number, or `none` and -1. -/
def readRotating (files : RotatingFiles α) : Option α × Int :=
  [files .slot0, files .slot1, files .base].foldl consider (none, -1)

theorem consider_some (best : Option α × Int) (d : Saved α) :
    consider best (some d) = if best.2 ≤ d.stamp then (some d.val, d.stamp) else best := rfl

theorem le_consider (best : Option α × Int) (data : Option (Saved α)) :
    best.2 ≤ (consider best data).2 := by
  cases data with
  | none => exact le_refl best.2
  | some d =>
    rw [consider_some]
    split
    · assumption
    · exact le_refl best.2

theorem stamp_le_consider (best : Option α × Int) (d : Saved α) :
    d.stamp ≤ (consider best (some d)).2 := by
  rw [consider_some]
  split
  · exact le_refl d.stamp
  · omega

theorem neg_one_le_readRotating (files : RotatingFiles α) : -1 ≤ (readRotating files).2 :=
  (le_consider (none, -1) _).trans ((le_consider _ _).trans (le_consider _ _))

theorem stamp_le_readRotating {files : RotatingFiles α} {p : Place} {d : Saved α}
    (h : files p = some d) : d.stamp ≤ (readRotating files).2 := by
  cases p with
  | slot0 =>
    have h0 := stamp_le_consider (none, -1) d
    rw [← h] at h0
    exact h0.trans ((le_consider _ _).trans (le_consider _ _))
  | slot1 =>
    have h1 := stamp_le_consider (consider (none, -1) (files .slot0)) d
    rw [← h] at h1
    exact h1.trans (le_consider _ _)
  | base =>
    have h2 := stamp_le_consider (consider (consider (none, -1) (files .slot0)) (files .slot1)) d
    rw [← h] at h2
    exact h2

theorem below_succ_readRotating (files : RotatingFiles α) :
    Register.Below files ((readRotating files).2 + 1) := by
  intro p d hd
  have := stamp_le_readRotating hd
  omega

theorem readRotating_cases (files : RotatingFiles α) :
    readRotating files = (none, -1) ∨
      ∃ p d, files p = some d ∧ readRotating files = (some d.val, d.stamp) := by
  have hstep : ∀ (p : Place) (best : Option α × Int),
      (best = (none, -1) ∨ ∃ q d, files q = some d ∧ best = (some d.val, d.stamp)) →
      (consider best (files p) = (none, -1) ∨
        ∃ q d, files q = some d ∧ consider best (files p) = (some d.val, d.stamp)) := by
    intro p best hbest
    cases hp : files p with
    | none => exact hbest
    | some d =>
      rw [consider_some]
      split
      · exact Or.inr ⟨p, d, hp, rfl⟩
      · exact hbest
  exact hstep .base _ (hstep .slot1 _ (hstep .slot0 _ (Or.inl rfl)))

/-- The held copy of a register is what `read_rotating` returns. -/
theorem readRotating_of_holds {files : RotatingFiles α} {c : Saved α}
    (h : Register.Holds Place.ofSeq files c) (hc : 0 ≤ c.stamp) :
    readRotating files = (some c.val, c.stamp) := by
  have hle := stamp_le_readRotating h.inPlace
  rcases readRotating_cases files with hnone | ⟨p, d, hp, hd⟩
  · rw [hnone] at hle
    have : c.stamp ≤ -1 := hle
    omega
  · have hdc : d = c := by
      by_contra hne
      have hpc : p ≠ Place.ofSeq c.stamp := by
        intro hpc
        rw [hpc, h.inPlace] at hp
        exact hne (Option.some.inj hp).symm
      have hlt := h.newest p d hpc hp
      rw [hd] at hle
      have : c.stamp ≤ d.stamp := hle
      omega
    rw [hd, hdc]

/-- Once every file is older than `n`, `read_rotating` reports something older. -/
theorem readRotating_lt_of_below {files : RotatingFiles α} {n : Int} (h : Register.Below files n)
    (hn : 0 ≤ n) : (readRotating files).2 < n := by
  rcases readRotating_cases files with hnone | ⟨p, d, hp, hd⟩
  · rw [hnone]
    show (-1 : Int) < n
    omega
  · rw [hd]
    exact h p d hp

/-- A document written under a number above every file's is what is read back. -/
theorem readRotating_writeRotating {files : RotatingFiles α} {obj : α} {seq : Int}
    (h : Register.Below files seq) (hseq : 0 ≤ seq) :
    readRotating (files.writeRotating obj seq) = (some obj, seq) :=
  readRotating_of_holds (Register.Holds.put_of_below h) hseq

end RotatingFiles

end PcCheck
