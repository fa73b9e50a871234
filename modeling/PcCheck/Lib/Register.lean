/-
Rotating registers.

A register keeps stamped copies of a value in a fixed set of places.  A copy with
stamp `n` is written to the place `slotOf n`, over whatever was there, so a write
that is cut short destroys the copy of one place and no other.  The register
`Holds` a copy when the copy is in its place and every other copy is older: a
reader that takes the newest copy then finds it.  The rules below say which
writes and which losses keep the held copy, and which destroy it.
-/
import Mathlib.Order.Lattice
import Mathlib.Logic.Function.Basic

/-- A value with the stamp it was written under. -/
structure Copy (ι α : Type*) where
  val : α
  stamp : ι
  deriving DecidableEq

abbrev Register (κ ι α : Type*) := κ → Option (Copy ι α)

namespace Register

variable {κ ι α : Type*} [DecidableEq κ] {slotOf : ι → κ}

def put (slotOf : ι → κ) (r : Register κ ι α) (c : Copy ι α) : Register κ ι α :=
  Function.update r (slotOf c.stamp) (some c)

def tear (r : Register κ ι α) (k : κ) : Register κ ι α := Function.update r k none

@[simp] theorem put_self (r : Register κ ι α) (c : Copy ι α) :
    r.put slotOf c (slotOf c.stamp) = some c :=
  Function.update_self ..

theorem put_of_ne (r : Register κ ι α) (c : Copy ι α) {k : κ} (h : k ≠ slotOf c.stamp) :
    r.put slotOf c k = r k :=
  Function.update_of_ne h ..

@[simp] theorem tear_self (r : Register κ ι α) (k : κ) : r.tear k k = none :=
  Function.update_self ..

theorem tear_of_ne (r : Register κ ι α) {k k' : κ} (h : k' ≠ k) : r.tear k k' = r k' :=
  Function.update_of_ne h ..

variable [LinearOrder ι]

def Below (r : Register κ ι α) (n : ι) : Prop := ∀ k c, r k = some c → c.stamp < n

/-- The copy is in its place and every other copy is older. -/
structure Holds (slotOf : ι → κ) (r : Register κ ι α) (c : Copy ι α) : Prop where
  inPlace : r (slotOf c.stamp) = some c
  newest : ∀ k d, k ≠ slotOf c.stamp → r k = some d → d.stamp < c.stamp

namespace Holds

theorem below_of_lt {r : Register κ ι α} {c : Copy ι α} (h : Holds slotOf r c) {n : ι}
    (hn : c.stamp < n) : r.Below n := by
  intro k d hd
  by_cases hk : k = slotOf c.stamp
  · subst hk
    obtain rfl : c = d := Option.some.inj (h.inPlace.symm.trans hd)
    exact hn
  · exact lt_trans (h.newest k d hk hd) hn

theorem put_of_below {r : Register κ ι α} {c : Copy ι α} (h : r.Below c.stamp) :
    Holds slotOf (r.put slotOf c) c := by
  refine ⟨put_self r c, fun k d hk hd => ?_⟩
  rw [put_of_ne r c hk] at hd
  exact h k d hd

/-- An older copy that goes to another place leaves the held copy newest. -/
theorem put_older {r : Register κ ι α} {c d : Copy ι α} (h : Holds slotOf r c)
    (hd : d.stamp < c.stamp) (hne : slotOf d.stamp ≠ slotOf c.stamp) :
    Holds slotOf (r.put slotOf d) c := by
  refine ⟨?_, fun k e hk he => ?_⟩
  · rw [put_of_ne r d (Ne.symm hne)]
    exact h.inPlace
  · by_cases hkd : k = slotOf d.stamp
    · subst hkd
      rw [put_self] at he
      obtain rfl : d = e := Option.some.inj he
      exact hd
    · rw [put_of_ne r d hkd] at he
      exact h.newest k e hk he

/-- An older copy that goes to the place of the held one destroys it: what is
left is older. -/
theorem put_clobber {r : Register κ ι α} {c d : Copy ι α} (h : Holds slotOf r c)
    (hd : d.stamp < c.stamp) (heq : slotOf d.stamp = slotOf c.stamp) :
    (r.put slotOf d).Below c.stamp := by
  intro k e he
  by_cases hk : k = slotOf d.stamp
  · subst hk
    rw [put_self] at he
    obtain rfl : d = e := Option.some.inj he
    exact hd
  · rw [put_of_ne r d hk] at he
    exact h.newest k e (fun hkc => hk (hkc.trans heq.symm)) he

theorem tear_other {r : Register κ ι α} {c : Copy ι α} (h : Holds slotOf r c) {k : κ}
    (hk : k ≠ slotOf c.stamp) : Holds slotOf (r.tear k) c := by
  refine ⟨?_, fun k' d hk' hd => ?_⟩
  · rw [tear_of_ne r (Ne.symm hk)]
    exact h.inPlace
  · by_cases hkk : k' = k
    · subst hkk
      rw [tear_self] at hd
      cases hd
    · rw [tear_of_ne r hkk] at hd
      exact h.newest k' d hk' hd

/-- Losing the place of the held copy leaves older copies only. -/
theorem tear_own {r : Register κ ι α} {c : Copy ι α} (h : Holds slotOf r c) :
    (r.tear (slotOf c.stamp)).Below c.stamp := by
  intro k d hd
  by_cases hk : k = slotOf c.stamp
  · subst hk
    rw [tear_self] at hd
    cases hd
  · rw [tear_of_ne r hk] at hd
    exact h.newest k d hk hd

end Holds

end Register
