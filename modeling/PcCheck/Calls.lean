/-
Calls of `Findings.add` made one after another.

What a finding has of a kind that `add` never takes back, it had before the calls or has from
one of them that was made under its key.
-/
import PcCheck.Store

namespace PcCheck

namespace Items

/-- The finding of the key is of the kind. -/
def At (t : Items) (k : String) (P : Finding → Prop) : Prop := ∃ f, t.get? k = some f ∧ P f

theorem has_iff_at {t : Items} {P : Finding → Prop} : t.Has P ↔ ∃ k, t.At k P := Iff.rfl

end Items

theorem judge_eq_incomplete {a b c : Prop} [Decidable a] [Decidable b] [Decidable c] :
    judge a b c = .incomplete ↔ ¬ a ∧ b := by
  unfold judge
  by_cases ha : a <;> by_cases hb : b <;> by_cases hc : c <;> simp [ha, hb, hc]

theorem verdict_eq_incomplete_iff {fs : Findings} :
    verdict fs = .incomplete ↔
      (¬ ∃ k, fs.items.Fails k) ∧ fs.items.Has fun f => f.incomplete = true := by
  have hlacks : (false = true ∨ fs.all.any (fun f => f.incomplete) = true) ↔
      fs.items.Has fun f => f.incomplete = true := by
    rw [or_iff_right Bool.false_ne_true, Findings.any_incomplete_iff]
  exact judge_eq_incomplete.trans
    (and_congr (not_congr Findings.counts_ne_zero_iff) hlacks)

namespace Findings

def addAll (fs : Findings) (calls : List AddCall) : Findings :=
  calls.foldl (fun fs c => (fs.record c).1) fs

@[simp] theorem addAll_nil (fs : Findings) : fs.addAll [] = fs := rfl

@[simp] theorem addAll_cons (fs : Findings) (c : AddCall) (calls : List AddCall) :
    fs.addAll (c :: calls) = (fs.record c).1.addAll calls := rfl

/-- A kind of finding that a call makes or finds, and never takes back. -/
def Kept (P : Finding → Prop) (Q : AddCall → Prop) : Prop :=
  ∀ (fs : Findings) (c : AddCall), P (fs.recorded c) ↔ fs.items.At c.key P ∨ Q c

theorem kept_rank {n : Nat} (hn : 1 ≤ n) :
    Kept (fun f => n ≤ f.severity.rank) fun c => n ≤ c.severity.rank := by
  intro fs c
  beta_reduce
  rw [recorded_rank, le_max_iff]
  refine or_congr_left ?_
  unfold Items.At
  cases fs.items.get? c.key with
  | none => exact iff_of_false (Nat.not_le_of_lt hn) fun ⟨f, hf, _⟩ => nomatch hf
  | some e => simp

theorem kept_incomplete : Kept (fun f => f.incomplete = true) fun c => c.incomplete = true := by
  intro fs c
  beta_reduce
  rw [recorded_incomplete, Bool.or_eq_true]
  refine or_congr_left ?_
  unfold Items.At
  cases fs.items.get? c.key with
  | none => simp
  | some e => simp

theorem kept_present : Kept (fun _ => True) fun _ => True :=
  fun _ _ => iff_of_true trivial (Or.inr trivial)

section Kept

variable {P : Finding → Prop} {Q : AddCall → Prop} (h : Kept P Q)

include h

theorem at_record {fs : Findings} {c : AddCall} {k : String} :
    (fs.record c).1.items.At k P ↔ fs.items.At k P ∨ (c.key = k ∧ Q c) := by
  unfold Items.At
  rw [get?_record]
  by_cases hk : k = c.key
  · subst hk
    rw [if_pos rfl]
    simpa [Items.At] using h fs c
  · rw [if_neg hk]
    exact (or_iff_left fun hc => hk hc.1.symm).symm

theorem at_addAll {calls : List AddCall} {fs : Findings} {k : String} :
    (fs.addAll calls).items.At k P ↔ fs.items.At k P ∨ ∃ c ∈ calls, c.key = k ∧ Q c := by
  induction calls generalizing fs with
  | nil => simp
  | cons c rest ih =>
    rw [addAll_cons, ih, at_record h, or_assoc, List.exists_mem_cons_iff]

theorem has_addAll {calls : List AddCall} {fs : Findings} :
    (fs.addAll calls).items.Has P ↔ fs.items.Has P ∨ ∃ c ∈ calls, Q c := by
  rw [Items.has_iff_at, Items.has_iff_at]
  constructor
  · rintro ⟨k, hk⟩
    rcases (at_addAll h).mp hk with hold | ⟨c, hc, -, hQ⟩
    · exact Or.inl ⟨k, hold⟩
    · exact Or.inr ⟨c, hc, hQ⟩
  · rintro (⟨k, hk⟩ | ⟨c, hc, hQ⟩)
    · exact ⟨k, (at_addAll h).mpr (Or.inl hk)⟩
    · exact ⟨c.key, (at_addAll h).mpr (Or.inr ⟨c, hc, rfl, hQ⟩)⟩

end Kept

theorem three_le_rank {s : Severity} : 3 ≤ s.rank ↔ s = .fail := by
  cases s <;> simp [Severity.rank]

theorem fails_iff_at {t : Items} {k : String} :
    t.Fails k ↔ t.At k fun f => 3 ≤ f.severity.rank := by
  simp only [Items.Fails, Items.At, three_le_rank]

/-- A key fails after the calls if it failed before or one of them fails it. -/
theorem fails_addAll {calls : List AddCall} {fs : Findings} {k : String} :
    (fs.addAll calls).items.Fails k ↔
      fs.items.Fails k ∨ ∃ c ∈ calls, c.key = k ∧ c.severity = .fail := by
  rw [fails_iff_at, fails_iff_at, at_addAll (kept_rank (by decide))]
  simp only [three_le_rank]

/-- The keys of the findings of a list of calls. -/
theorem present_addAll {calls : List AddCall} {k : String} :
    ((new.addAll calls).items.get? k).isSome = true ↔ ∃ c ∈ calls, c.key = k := by
  have hat : (new.addAll calls).items.At k (fun _ => True) ↔ _ := at_addAll kept_present
  have hnone : ¬ new.items.At k fun _ => True := fun ⟨_, hf, _⟩ => nomatch hf
  rw [or_iff_right hnone] at hat
  simp only [Items.At, and_true] at hat
  rw [Option.isSome_iff_exists, hat]

/-- The verdict on the findings of a list of calls. -/
theorem verdict_addAll {calls : List AddCall} :
    (verdict (new.addAll calls) = .fail ↔ ∃ c ∈ calls, c.severity = .fail) ∧
      (verdict (new.addAll calls) = .incomplete ↔
        (¬ ∃ c ∈ calls, c.severity = .fail) ∧ ∃ c ∈ calls, c.incomplete = true) := by
  have hnone : ∀ P : Finding → Prop, ¬ new.items.Has P := Items.not_has_empty
  have hfail : (∃ k, (new.addAll calls).items.Fails k) ↔ ∃ c ∈ calls, c.severity = .fail := by
    have hrank : (new.addAll calls).items.Has (fun f => 3 ≤ f.severity.rank) ↔ _ :=
      has_addAll (kept_rank (by decide))
    rw [or_iff_right (hnone _)] at hrank
    simp only [Items.has_iff_at, three_le_rank] at hrank
    exact hrank
  have hlack : ((new.addAll calls).items.Has fun f => f.incomplete = true) ↔
      ∃ c ∈ calls, c.incomplete = true := by
    rw [has_addAll kept_incomplete, or_iff_right (hnone _)]
  refine ⟨verdict_eq_fail_iff.trans hfail, ?_⟩
  rw [verdict_eq_incomplete_iff, hfail, hlack]

end Findings
end PcCheck
