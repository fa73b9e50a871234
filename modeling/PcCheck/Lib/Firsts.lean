/-
First occurrences.

`firsts key seen l` goes through a list and keeps each entry whose key is not among the
keys met so far, those of `seen` to begin with.  It is how a reader of a growing log picks
out what is new when it remembers keys and not positions.  The reader loses nothing exactly
when the keys tell the entries apart.
-/
import Mathlib.Data.List.Nodup

namespace Firsts

variable {α κ : Type*} [DecidableEq κ] {key : α → κ}

def firsts (key : α → κ) : List κ → List α → List α
  | _, [] => []
  | seen, x :: rest =>
    if key x ∈ seen then firsts key seen rest else x :: firsts key (key x :: seen) rest

theorem firsts_congr {seen seen' : List κ} (h : ∀ k, k ∈ seen ↔ k ∈ seen') (l : List α) :
    firsts key seen l = firsts key seen' l := by
  induction l generalizing seen seen' with
  | nil => rfl
  | cons x rest ih =>
    have hcons : ∀ k, k ∈ key x :: seen ↔ k ∈ key x :: seen' := fun k => by
      rw [List.mem_cons, List.mem_cons, h]
    rw [firsts, firsts, ih h, ih hcons]
    simp only [h]

theorem firsts_eq_nil {seen : List κ} {l : List α} (h : ∀ x ∈ l, key x ∈ seen) :
    firsts key seen l = [] := by
  induction l with
  | nil => rfl
  | cons x rest ih =>
    rw [List.forall_mem_cons] at h
    rw [firsts, if_pos h.1, ih h.2]

theorem firsts_append (seen : List κ) (l m : List α) :
    firsts key seen (l ++ m) = firsts key seen l ++ firsts key (l.map key ++ seen) m := by
  induction l generalizing seen with
  | nil => rfl
  | cons x rest ih =>
    rw [List.cons_append, firsts, firsts, List.map_cons]
    split
    · rename_i hx
      rw [ih]
      congr 1
      refine firsts_congr (fun k => ?_) m
      simp only [List.mem_append, List.mem_cons, List.cons_append]
      constructor
      · exact Or.inr
      · rintro (rfl | h)
        · exact Or.inr hx
        · exact h
    · rw [ih, List.cons_append]
      congr 2
      refine firsts_congr (fun k => ?_) m
      simp only [List.mem_append, List.mem_cons, List.cons_append]
      tauto

theorem firsts_sublist (seen : List κ) (l : List α) : (firsts key seen l).Sublist l := by
  induction l generalizing seen with
  | nil => exact List.Sublist.slnil
  | cons x rest ih =>
    rw [firsts]
    split
    · exact (ih seen).cons x
    · exact (ih _).cons_cons x

/-- Where a list has been gone through, what follows it is read as if alone. -/
theorem firsts_append_of_seen {seen : List κ} {l : List α} (h : ∀ x ∈ l, key x ∈ seen)
    (m : List α) : firsts key seen (l ++ m) = firsts key seen m := by
  rw [firsts_append, firsts_eq_nil h, List.nil_append]
  refine firsts_congr (fun k => ?_) m
  rw [List.mem_append]
  constructor
  · rintro (hk | hk)
    · obtain ⟨x, hx, rfl⟩ := List.mem_map.mp hk
      exact h x hx
    · exact hk
  · exact Or.inr

/-- Nothing is passed over exactly when no key comes twice or has been seen before. -/
theorem firsts_eq_self_iff (seen : List κ) (l : List α) :
    firsts key seen l = l ↔ (l.map key).Nodup ∧ ∀ x ∈ l, key x ∉ seen := by
  induction l generalizing seen with
  | nil => simp [firsts]
  | cons x rest ih =>
    rw [firsts, List.map_cons, List.nodup_cons, List.forall_mem_cons]
    split
    · rename_i hx
      refine iff_of_false (fun heq => ?_) fun h => h.2.1 hx
      have hlen : (firsts key seen rest).length ≤ rest.length :=
        (firsts_sublist seen rest).length_le
      rw [heq, List.length_cons] at hlen
      omega
    · rename_i hx
      rw [List.cons.injEq, ih]
      constructor
      · rintro ⟨-, hnodup, hall⟩
        refine ⟨⟨fun hmem => ?_, hnodup⟩, hx, fun y hy hseen => ?_⟩
        · obtain ⟨y, hy, heq⟩ := List.mem_map.mp hmem
          exact hall y hy (by rw [heq]; exact List.mem_cons_self)
        · exact hall y hy (List.mem_cons_of_mem _ hseen)
      · rintro ⟨⟨hnew, hnodup⟩, -, hall⟩
        refine ⟨rfl, hnodup, fun y hy hmem => ?_⟩
        rcases List.mem_cons.mp hmem with heq | hseen
        · exact hnew (heq ▸ List.mem_map_of_mem hy)
        · exact hall y hy hseen

end Firsts
