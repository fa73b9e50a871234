/-
Tallies of what has been read of a source.

A source is read through a cursor.  A meter shows how much it has counted so far, and its
cursor is the reading taken last: a sum over meters with different names changes by what one
of them gained.  A journal lists entries under growing stamps, and its cursor is the stamp
of the entry taken last: `upTo` adds up the entries the cursor has passed.  A sum over the
entries of a map changes by what is placed in it.
-/
import PcCheck.Lib.Dict
import Mathlib.Algebra.BigOperators.Group.List.Basic
import Mathlib.Data.List.Nodup
import Mathlib.Algebra.Order.Ring.Int
import Mathlib.Tactic.Ring

namespace Tally

variable {ι κ : Type*}

/-- The sum over meters with different names, where one of them moves. -/
theorem sum_map_move {l : List ι} {name : ι → κ} (hnodup : (l.map name).Nodup) {f g : ι → ℤ}
    {i : ι} (hi : i ∈ l) (hsame : ∀ j ∈ l, name j ≠ name i → g j = f j) :
    (l.map g).sum = (l.map f).sum + (g i - f i) := by
  induction l with
  | nil => cases hi
  | cons a rest ih =>
    rw [List.map_cons, List.nodup_cons] at hnodup
    rw [List.map_cons, List.map_cons, List.sum_cons, List.sum_cons]
    rcases List.mem_cons.mp hi with rfl | hrest
    · have hothers : rest.map g = rest.map f := by
        refine List.map_congr_left fun j hj => hsame j (List.mem_cons_of_mem _ hj) fun hname => ?_
        exact hnodup.1 (hname ▸ List.mem_map_of_mem (f := name) hj)
      rw [hothers]
      ring
    · have hne : name a ≠ name i := fun hname =>
        hnodup.1 (hname ▸ List.mem_map_of_mem (f := name) hrest)
      rw [hsame a List.mem_cons_self hne,
        ih hnodup.2 hrest fun j hj => hsame j (List.mem_cons_of_mem _ hj)]
      ring

/-- The sum over the entries of a map, where one of them is placed. -/
theorem sum_place {α : Type*} [DecidableEq κ] (f : κ × α → ℤ) (k : κ) (v : α) (l : List (κ × α)) :
    ((Dict.place k v l).map f).sum =
      (l.map f).sum + (f (k, v) - ((Dict.assoc k l).map fun w => f (k, w)).getD 0) := by
  induction l with
  | nil => simp [Dict.place, Dict.assoc]
  | cons p rest ih =>
    obtain ⟨k', w⟩ := p
    unfold Dict.place Dict.assoc
    by_cases hk : k' = k
    · subst hk
      rw [if_pos rfl, if_pos rfl, List.map_cons, List.map_cons, List.sum_cons, List.sum_cons]
      show _ = f (k', w) + (rest.map f).sum + (f (k', v) - f (k', w))
      ring
    · rw [if_neg hk, if_neg hk, List.map_cons, List.map_cons, List.sum_cons, List.sum_cons, ih]
      ring

/-- What the entries up to a stamp add up to. -/
def upTo (stamp : ι → ℕ) (f : ι → ℤ) (l : List ι) (c : ℕ) : ℤ :=
  ((l.filter fun i => stamp i ≤ c).map f).sum

variable {stamp : ι → ℕ} {f : ι → ℤ} {l : List ι} {c : ℕ}

@[simp] theorem upTo_nil : upTo stamp f [] c = 0 := rfl

theorem upTo_append (m : List ι) :
    upTo stamp f (l ++ m) c = upTo stamp f l c + upTo stamp f m c := by
  rw [upTo, List.filter_append, List.map_append, List.sum_append]
  rfl

theorem upTo_of_passed (h : ∀ i ∈ l, stamp i ≤ c) : upTo stamp f l c = (l.map f).sum := by
  rw [upTo, List.filter_eq_self.mpr fun i hi => decide_eq_true (h i hi)]

theorem upTo_of_ahead (h : ∀ i ∈ l, c < stamp i) : upTo stamp f l c = 0 := by
  have hnil : (l.filter fun i => stamp i ≤ c) = [] :=
    List.filter_eq_nil_iff.mpr fun i hi => by
      have := h i hi
      simpa using this
  rw [upTo, hnil]
  rfl

/-- The cursor takes the next entry. -/
theorem upTo_next {passed ahead : List ι} {i : ι}
    (hsorted : (passed ++ i :: ahead).Pairwise fun a b => stamp a < stamp b)
    (hpassed : ∀ j ∈ passed, stamp j ≤ c) (hi : c < stamp i) :
    upTo stamp f (passed ++ i :: ahead) (stamp i) =
      upTo stamp f (passed ++ i :: ahead) c + f i := by
  obtain ⟨-, htail, hbefore⟩ := List.pairwise_append.mp hsorted
  have hahead := (List.pairwise_cons.mp htail).1
  have hpassed' : ∀ j ∈ passed, stamp j ≤ stamp i := fun j hj =>
    (hbefore j hj i List.mem_cons_self).le
  have hnow : ∀ k ∈ i :: ahead, c < stamp k := by
    intro k hk
    rcases List.mem_cons.mp hk with rfl | hk
    · exact hi
    · exact hi.trans (hahead k hk)
  have hcons : i :: ahead = [i] ++ ahead := rfl
  rw [upTo_append, upTo_append, upTo_of_passed hpassed, upTo_of_passed hpassed',
    upTo_of_ahead hnow, hcons, upTo_append, upTo_of_ahead hahead,
    upTo_of_passed (l := [i]) fun j hj => by rw [List.mem_singleton.mp hj]]
  simp

/-- The entries a cursor has passed come before those it has not. -/
theorem passed_append_ahead (hsorted : l.Pairwise fun a b => stamp a < stamp b) :
    l = (l.filter fun i => stamp i ≤ c) ++ l.filter fun i => c < stamp i := by
  induction l with
  | nil => rfl
  | cons a rest ih =>
    obtain ⟨ha, hrest⟩ := List.pairwise_cons.mp hsorted
    by_cases hle : stamp a ≤ c
    · rw [List.filter_cons_of_pos (by simpa using hle),
        List.filter_cons_of_neg (by simpa using hle), List.cons_append, ← ih hrest]
    · have hnone : (rest.filter fun i => stamp i ≤ c) = [] :=
        List.filter_eq_nil_iff.mpr fun i hi => by
          have := ha i hi
          simp
          omega
      have hall : (rest.filter fun i => c < stamp i) = rest :=
        List.filter_eq_self.mpr fun i hi => by
          have := ha i hi
          simp
          omega
      rw [List.filter_cons_of_neg (by simpa using hle), hnone,
        List.filter_cons_of_pos (by simpa using hle), hall, List.nil_append]

/-- Once the cursor has taken the next entry, the entry is the last that it has passed. -/
theorem filter_le_next {i : ι} {ahead : List ι}
    (hsorted : l.Pairwise fun a b => stamp a < stamp b)
    (h : (l.filter fun j => c < stamp j) = i :: ahead) :
    (l.filter fun j => stamp j ≤ stamp i) = (l.filter fun j => stamp j ≤ c) ++ [i] ∧
      (l.filter fun j => stamp i < stamp j) = ahead := by
  have hsplit : l = (l.filter fun j => stamp j ≤ c) ++ l.filter fun j => c < stamp j :=
    passed_append_ahead hsorted
  rw [h] at hsplit
  have hi : c < stamp i := by
    have hmem : i ∈ l.filter fun j => c < stamp j := h ▸ List.mem_cons_self
    exact of_decide_eq_true (List.mem_filter.mp hmem).2
  have hpassed : ∀ j ∈ l.filter fun j => stamp j ≤ c, stamp j ≤ c := fun j hj =>
    of_decide_eq_true (List.mem_filter.mp hj).2
  generalize (l.filter fun j => stamp j ≤ c) = passed at hsplit hpassed ⊢
  subst hsplit
  obtain ⟨-, htail, -⟩ := List.pairwise_append.mp hsorted
  have hahead := (List.pairwise_cons.mp htail).1
  have hall : (passed.filter fun j => stamp j ≤ stamp i) = passed :=
    List.filter_eq_self.mpr fun j hj => decide_eq_true ((hpassed j hj).trans hi.le)
  have hnone : (passed.filter fun j => stamp i < stamp j) = [] :=
    List.filter_eq_nil_iff.mpr fun j hj => by
      have := hpassed j hj
      simp
      omega
  have hlater : (ahead.filter fun j => stamp i < stamp j) = ahead :=
    List.filter_eq_self.mpr fun j hj => decide_eq_true (hahead j hj)
  have hlatest : (ahead.filter fun j => stamp j ≤ stamp i) = [] :=
    List.filter_eq_nil_iff.mpr fun j hj => by
      have := hahead j hj
      simp
      omega
  constructor
  · rw [List.filter_append, hall, List.filter_cons_of_pos (by simp), hlatest]
  · rw [List.filter_append, hnone, List.filter_cons_of_neg (by simp), hlater, List.nil_append]

end Tally
