/-
Counts that are judged by a threshold.

Corrected errors are added as a warning, and the finding becomes a failure once its count has
reached the threshold of its kind: every call is followed by the judgement, so that the finding
has failed exactly when the count that it shows is as high.
-/
import PcCheck.Counters
import PcCheck.Calls
import PcCheck.Dedup

namespace PcCheck

/-- The key that a call is about. -/
def Call.key : Call → String
  | .add c => c.key
  | .escalate c => c.key

/-- The finding of the key, if there is one, has failed exactly when its count has reached the
threshold. -/
def Items.JudgedBy (t : Items) (k : String) (threshold : Int) : Prop :=
  (t.get? k).isSome = true → (t.Fails k ↔ threshold ≤ t.countOf k)

/-- What is said of a key is read off its finding. -/
theorem Items.JudgedBy.congr {t t' : Items} {k : String} {threshold : Int}
    (h : t.JudgedBy k threshold) (hget : t'.get? k = t.get? k) : t'.JudgedBy k threshold := by
  unfold JudgedBy Fails countOf at h ⊢
  rw [hget]
  exact h

theorem Items.fails_congr {t t' : Items} {k : String} (h : t'.get? k = t.get? k) :
    t'.Fails k ↔ t.Fails k := by
  unfold Fails
  rw [h]

namespace Store

/-- A call, and the failure that it leads to at the threshold. -/
def addJudged (s : Store) (c : AddCall) (threshold : Int) (added escalated : Bool) : Store :=
  if threshold ≤ (s.add c added).mem.countOf c.key then
    (s.add c added).escalate { key := c.key, severity := .fail } escalated
  else s.add c added

variable {s : Store} {c : AddCall} {threshold : Int} {added escalated : Bool} {k : String}

theorem get?_add : (s.add c added).mem.items.get? k =
    if k = c.key then some (s.mem.recorded c) else s.mem.items.get? k := by
  rw [add_items, Items.get?_put, Findings.recorded_key]

theorem get?_call_ne {c : Call} {ok : Bool} (h : k ≠ c.key) :
    (s.call c ok).mem.items.get? k = s.mem.items.get? k := by
  cases c with
  | add c =>
    show (s.add c ok).mem.items.get? k = _
    rw [get?_add]
    exact if_neg h
  | escalate c =>
    show (s.escalate c ok).mem.items.get? k = _
    rw [escalate_items]
    exact Findings.get?_raise_ne h

theorem get?_addJudged_ne (h : k ≠ c.key) :
    (s.addJudged c threshold added escalated).mem.items.get? k = s.mem.items.get? k := by
  unfold addJudged
  split
  · rw [escalate_items, Findings.get?_raise_ne h, get?_add, if_neg h]
  · rw [get?_add, if_neg h]

theorem countOf_addJudged (hc : 1 ≤ c.count) :
    (s.addJudged c threshold added escalated).mem.countOf k =
      s.mem.countOf k + if k = c.key then c.count else 0 := by
  unfold addJudged
  split
  · rw [countOf_escalate, countOf_add s hc]
  · exact countOf_add s hc added k

theorem fails_add (hc : c.severity ≠ .fail) :
    (s.add c added).mem.items.Fails c.key ↔ s.mem.items.Fails c.key := by
  have hrank : (s.mem.record c).1.items.At c.key (fun f => 3 ≤ f.severity.rank) ↔ _ :=
    Findings.at_record (Findings.kept_rank (by decide))
  have hitems : (s.add c added).mem.items = (s.mem.record c).1.items := by
    rw [add_items]
    rfl
  rw [Findings.fails_iff_at, Findings.fails_iff_at, hitems, hrank, or_iff_left]
  rintro ⟨-, hfail⟩
  exact hc (Findings.three_le_rank.mp hfail)

/-- A judged call fails its finding exactly when it had failed or the count is now as high. -/
theorem fails_addJudged (hc : c.severity ≠ .fail) :
    (s.addJudged c threshold added escalated).mem.items.Fails c.key ↔
      s.mem.items.Fails c.key ∨ threshold ≤ (s.add c added).mem.countOf c.key := by
  have hget : (s.add c added).mem.items.get? c.key = some (s.mem.recorded c) := by
    rw [get?_add, if_pos rfl]
  unfold addJudged
  by_cases hreached : threshold ≤ (s.add c added).mem.countOf c.key
  · rw [if_pos hreached, escalate_items]
    obtain ⟨g, hg, -, hfail⟩ := Findings.raise_fail hget
    exact iff_of_true ⟨g, hg, hfail⟩ (Or.inr hreached)
  · rw [if_neg hreached, or_iff_left hreached]
    exact fails_add hc

theorem isSome_addJudged :
    ((s.addJudged c threshold added escalated).mem.items.get? c.key).isSome = true := by
  have hget : (s.add c added).mem.items.get? c.key = some (s.mem.recorded c) := by
    rw [get?_add, if_pos rfl]
  unfold addJudged
  split
  · rw [escalate_items]
    obtain ⟨g, hg, -⟩ := Findings.raise_fail hget
    rw [hg]
    rfl
  · rw [hget]
    rfl

/-- The judgement of a finding stands after every call that is judged by the same threshold. -/
theorem judged_addJudged (hwarn : c.severity ≠ .fail) (hc : 1 ≤ c.count)
    (h : s.mem.items.JudgedBy c.key threshold) :
    (s.addJudged c threshold added escalated).mem.items.JudgedBy c.key threshold := by
  intro _
  have hcount : (s.addJudged c threshold added escalated).mem.items.countOf c.key =
      s.mem.items.countOf c.key + c.count := by
    have hall : (s.addJudged c threshold added escalated).mem.countOf c.key = _ :=
      countOf_addJudged hc
    rwa [if_pos rfl] at hall
  have hadd : (s.add c added).mem.countOf c.key = s.mem.items.countOf c.key + c.count := by
    have hall := countOf_add s hc added c.key
    rwa [if_pos rfl] at hall
  rw [fails_addJudged hwarn, hadd, hcount]
  refine or_iff_right_of_imp fun hfails => ?_
  obtain ⟨f, hf, hfail⟩ := hfails
  have hold := (h (by rw [hf]; rfl)).mp ⟨f, hf, hfail⟩
  omega

theorem judged_addJudged_ne (hk : k ≠ c.key) {limit : Int}
    (h : s.mem.items.JudgedBy k limit) :
    (s.addJudged c threshold added escalated).mem.items.JudgedBy k limit :=
  h.congr (get?_addJudged_ne hk)

end Store
end PcCheck
