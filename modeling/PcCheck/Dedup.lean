/-
Deduplication and the verdict.

The store merges every call on a key into one finding.  `rawVerdict` reads the same
four-way verdict off the calls themselves, without any merging, and
`verdict_calls` shows that the two agree for every sequence of calls, whichever
of their writes succeed.  Order, extension and a round trip through the findings file
then follow from what the raw reading does not depend on.
-/
import PcCheck.Store

namespace PcCheck

inductive Call where
  | add (c : AddCall)
  | escalate (c : EscalateCall)
  deriving DecidableEq

namespace Call

def incomplete : Call → Bool
  | .add c => c.incomplete
  | .escalate _ => false

/-- The key a call makes present. -/
def addedKey : Call → Option String
  | .add c => some c.key
  | .escalate _ => none

end Call

/-- Some add carries a severity with the property, or some escalate to one names a key
added earlier.  `seen` lists the keys added so far. -/
def Carried (P : Severity → Prop) : List String → List Call → Prop
  | _, [] => False
  | seen, .add c :: rest => P c.severity ∨ Carried P (c.key :: seen) rest
  | seen, .escalate c :: rest => (P c.severity ∧ c.key ∈ seen) ∨ Carried P seen rest

instance decidableCarried (P : Severity → Prop) [DecidablePred P] :
    ∀ (seen : List String) (calls : List Call), Decidable (Carried P seen calls)
  | _, [] => inferInstanceAs (Decidable False)
  | seen, .add c :: rest =>
    have := decidableCarried P (c.key :: seen) rest
    inferInstanceAs (Decidable (P c.severity ∨ Carried P (c.key :: seen) rest))
  | seen, .escalate c :: rest =>
    have := decidableCarried P seen rest
    inferInstanceAs (Decidable ((P c.severity ∧ c.key ∈ seen) ∨ Carried P seen rest))

/-- The verdict read off the raw calls. -/
def rawVerdict (calls : List Call) (inc : Bool) : Verdict :=
  judge (Carried (· = .fail) [] calls) (inc = true ∨ ∃ c ∈ calls, c.incomplete = true)
    (Carried (· = .warn) [] calls)

/-- A position of a sequence is its first or one of the rest. -/
theorem exists_split_cons {α : Type} {Q : List α → α → Prop} {x : α} {rest : List α} :
    (∃ pre c post, x :: rest = pre ++ c :: post ∧ Q pre c) ↔
      Q [] x ∨ ∃ pre c post, rest = pre ++ c :: post ∧ Q (x :: pre) c := by
  constructor
  · intro h
    obtain ⟨pre, c, post, heq, hQ⟩ := h
    cases pre with
    | nil =>
      obtain ⟨rfl, -⟩ := List.cons.inj heq
      exact Or.inl hQ
    | cons y pre =>
      obtain ⟨rfl, hrest⟩ := List.cons.inj heq
      exact Or.inr ⟨pre, c, post, hrest, hQ⟩
  · intro h
    rcases h with hQ | ⟨pre, c, post, hrest, hQ⟩
    · exact ⟨[], x, rest, rfl, hQ⟩
    · exact ⟨x :: pre, c, post, by rw [hrest, List.cons_append], hQ⟩

/-- The keys present at a position are those seen before and those added since. -/
theorem named_cons {seen : List String} {c : Call} {pre : List Call} {key : String} :
    (key ∈ seen ∨ ∃ a, .add a ∈ c :: pre ∧ a.key = key) ↔
      key ∈ (c.addedKey).toList ++ seen ∨ ∃ a, .add a ∈ pre ∧ a.key = key := by
  cases c with
  | add b =>
    simp only [Call.addedKey, List.mem_cons, Call.add.injEq, Option.toList_some, List.cons_append,
      List.nil_append]
    constructor
    · intro h
      rcases h with hseen | ⟨a, rfl | ha, hkey⟩
      · exact Or.inl (Or.inr hseen)
      · exact Or.inl (Or.inl hkey.symm)
      · exact Or.inr ⟨a, ha, hkey⟩
    · intro h
      rcases h with (hkey | hseen) | ⟨a, ha, hkey⟩
      · exact Or.inr ⟨b, Or.inl rfl, hkey.symm⟩
      · exact Or.inl hseen
      · exact Or.inr ⟨a, Or.inr ha, hkey⟩
  | escalate e => simp [Call.addedKey]

/-- `Carried` in the words of a single position of the sequence. -/
theorem carried_iff (P : Severity → Prop) (seen : List String) (calls : List Call) :
    Carried P seen calls ↔ ∃ pre c post, calls = pre ++ c :: post ∧
      ((∃ a, c = .add a ∧ P a.severity) ∨
        ∃ e, c = .escalate e ∧ P e.severity ∧
          (e.key ∈ seen ∨ ∃ a, .add a ∈ pre ∧ a.key = e.key)) := by
  induction calls generalizing seen with
  | nil => simp [Carried]
  | cons c rest ih =>
    rw [exists_split_cons]
    simp only [named_cons]
    cases c with
    | add a => exact or_congr (by simp) (ih (a.key :: seen))
    | escalate e => exact or_congr (by simp) (ih seen)

/-! ## What a sequence of calls makes of the store -/

namespace Store

/-- One call, with the outcome of the write it may trigger. -/
def call (s : Store) : Call → Bool → Store
  | .add c, ok => s.add c ok
  | .escalate c, ok => s.escalate c ok

def calls (s : Store) (cs : List (Call × Bool)) : Store := cs.foldl (fun s c => s.call c.1 c.2) s

theorem Sound.call {s : Store} (h : s.Sound) (c : Call) (ok : Bool) : (s.call c ok).Sound := by
  cases c with
  | add c => exact h.add c ok
  | escalate c => exact h.escalate c ok

theorem Sound.calls {s : Store} (h : s.Sound) (cs : List (Call × Bool)) : (s.calls cs).Sound := by
  induction cs generalizing s with
  | nil => exact h
  | cons c rest ih => exact ih (h.call c.1 c.2)

theorem has_call_rank (s : Store) (c : Call) (ok : Bool) (n : Nat) :
    (s.call c ok).mem.items.Has (fun f => n ≤ f.severity.rank) ↔
      s.mem.items.Has (fun f => n ≤ f.severity.rank) ∨
        match c with
        | .add a => n ≤ a.severity.rank
        | .escalate e => n ≤ e.severity.rank ∧ (s.mem.items.get? e.key).isSome = true := by
  cases c with
  | add a =>
    show (s.add a ok).mem.items.Has _ ↔ _
    rw [add_items, ← Findings.record_items]
    exact Findings.has_record_rank s.mem a n
  | escalate e =>
    show (s.escalate e ok).mem.items.Has _ ↔ _
    rw [escalate_items]
    exact Findings.has_raise_rank s.mem e n

theorem has_call_incomplete (s : Store) (c : Call) (ok : Bool) :
    (s.call c ok).mem.items.Has (fun f => f.incomplete = true) ↔
      s.mem.items.Has (fun f => f.incomplete = true) ∨ c.incomplete = true := by
  cases c with
  | add a =>
    show (s.add a ok).mem.items.Has _ ↔ _
    rw [add_items, ← Findings.record_items]
    exact Findings.has_record_incomplete s.mem a
  | escalate e =>
    show (s.escalate e ok).mem.items.Has _ ↔ _
    rw [escalate_items, Findings.has_raise_incomplete]
    simp [Call.incomplete]

theorem isSome_call (s : Store) (c : Call) (ok : Bool) (k : String) :
    ((s.call c ok).mem.items.get? k).isSome = true ↔
      (s.mem.items.get? k).isSome = true ∨ c.addedKey = some k := by
  cases c with
  | add a =>
    show (((s.add a ok).mem.items.get? k).isSome = true) ↔ _
    rw [add_items, Items.get?_put, Findings.recorded_key]
    by_cases hk : k = a.key
    · simp [hk, Call.addedKey]
    · simp [hk, Call.addedKey, Ne.symm hk]
  | escalate e =>
    show (((s.escalate e ok).mem.items.get? k).isSome = true) ↔ _
    rw [escalate_items]
    simp only [Call.addedKey, reduceCtorEq, or_false]
    rcases Findings.raise_items s.mem e with heq | ⟨f, hf, -, heq⟩
    · rw [heq]
    · rw [heq, Items.get?_put, Findings.raise_key_eq hf]
      by_cases hk : k = e.key
      · simp [hk, hf]
      · simp [hk]

/-- A severity is reached exactly when it was before or the calls carry it. -/
theorem has_calls_rank (n : Nat) (cs : List (Call × Bool)) (s : Store) (seen : List String)
    (hseen : ∀ k, k ∈ seen ↔ (s.mem.items.get? k).isSome = true) :
    (s.calls cs).mem.items.Has (fun f => n ≤ f.severity.rank) ↔
      s.mem.items.Has (fun f => n ≤ f.severity.rank) ∨
        Carried (fun v => n ≤ v.rank) seen (cs.map Prod.fst) := by
  induction cs generalizing s seen with
  | nil => simp [calls, Carried]
  | cons c rest ih =>
    obtain ⟨c, ok⟩ := c
    show ((s.call c ok).calls rest).mem.items.Has _ ↔ _
    cases c with
    | add a =>
      have hseen' : ∀ k, k ∈ a.key :: seen ↔
          ((s.call (.add a) ok).mem.items.get? k).isSome = true := by
        intro k
        rw [isSome_call, List.mem_cons, ← hseen, Call.addedKey, Option.some.injEq, or_comm,
          eq_comm]
      rw [ih _ _ hseen', has_call_rank, or_assoc]
      rfl
    | escalate e =>
      have hseen' : ∀ k, k ∈ seen ↔ ((s.call (.escalate e) ok).mem.items.get? k).isSome = true := by
        intro k
        rw [isSome_call, hseen, Call.addedKey]
        simp
      rw [ih _ _ hseen', has_call_rank, or_assoc]
      show _ ↔ _ ∨ ((n ≤ e.severity.rank ∧ e.key ∈ seen) ∨ _)
      rw [hseen]

theorem has_calls_incomplete (cs : List (Call × Bool)) (s : Store) :
    (s.calls cs).mem.items.Has (fun f => f.incomplete = true) ↔
      s.mem.items.Has (fun f => f.incomplete = true) ∨
        ∃ c ∈ cs.map Prod.fst, c.incomplete = true := by
  induction cs generalizing s with
  | nil => simp [calls]
  | cons c rest ih =>
    show ((s.call c.1 c.2).calls rest).mem.items.Has _ ↔ _
    rw [ih, has_call_incomplete, or_assoc]
    simp

end Store

/-! ## The raw verdict -/

theorem carried_or (P Q : Severity → Prop) (seen : List String) (calls : List Call) :
    Carried (fun v => P v ∨ Q v) seen calls ↔ Carried P seen calls ∨ Carried Q seen calls := by
  induction calls generalizing seen with
  | nil => simp [Carried]
  | cons c rest ih =>
    cases c with
    | add a => simp only [Carried, ih]; tauto
    | escalate e => simp only [Carried, ih]; tauto

theorem carried_append (P : Severity → Prop) (seen : List String) (calls more : List Call)
    (h : Carried P seen calls) : Carried P seen (calls ++ more) := by
  obtain ⟨pre, c, post, rfl, hd⟩ := (carried_iff P seen calls).mp h
  exact (carried_iff P seen _).mpr ⟨pre, c, post ++ more, by simp, hd⟩

theorem carried_adds (P : Severity → Prop) (seen : List String) (adds : List AddCall) :
    Carried P seen (adds.map .add) ↔ ∃ c ∈ adds, P c.severity := by
  induction adds generalizing seen with
  | nil => simp [Carried]
  | cons c rest ih => simp [Carried, ih]

theorem rank_two_le_iff (v : Severity) : 2 ≤ v.rank ↔ v = .warn ∨ v = .fail := by
  cases v <;> simp [Severity.rank]

theorem rank_three_le_iff (v : Severity) : 3 ≤ v.rank ↔ v = .fail := by
  cases v <;> simp [Severity.rank]

theorem verdict_calls (s : Store) (hs : s.mem.items = Items.empty) (cs : List (Call × Bool))
    (inc : Bool) : verdict (s.calls cs).mem inc = rawVerdict (cs.map Prod.fst) inc := by
  have hseen : ∀ k, k ∈ ([] : List String) ↔ (s.mem.items.get? k).isSome = true := by
    simp [hs]
  have hnone : ∀ P, ¬ s.mem.items.Has P := by
    intro P
    rw [hs]
    exact Items.not_has_empty P
  have hfail := Store.has_calls_rank 3 cs s [] hseen
  have hwarn := Store.has_calls_rank 2 cs s [] hseen
  have hinc := Store.has_calls_incomplete cs s
  simp only [hnone, false_or, rank_three_le_iff] at hfail
  simp only [hnone, false_or, rank_two_le_iff] at hwarn
  simp only [hnone, false_or] at hinc
  rw [carried_or] at hwarn
  refine judge_congr_of_not (Findings.counts_ne_zero_iff.trans hfail)
    (or_congr_right (Findings.any_incomplete_iff.trans hinc)) (fun hno => ?_)
  rw [Findings.counts_ne_zero_iff]
  rw [Findings.counts_ne_zero_iff] at hno
  constructor
  · intro hex
    obtain ⟨k, f, hf, hsev⟩ := hex
    rcases hwarn.mp ⟨k, f, hf, Or.inl hsev⟩ with h | h
    · exact h
    · exact absurd (hfail.mpr h) hno
  · intro h
    obtain ⟨k, f, hf, hsev | hsev⟩ := hwarn.mpr (Or.inl h)
    · exact ⟨k, f, hf, hsev⟩
    · exact absurd ⟨k, f, hf, hsev⟩ hno

theorem rawVerdict_append_le (calls more : List Call) (inc : Bool) :
    rawVerdict (calls ++ more) inc ≤ rawVerdict calls inc := by
  refine judge_mono (carried_append _ _ _ _) ?_ (carried_append _ _ _ _)
  intro hor
  rcases hor with hinc | ⟨c, hc, hci⟩
  · exact Or.inl hinc
  · exact Or.inr ⟨c, List.mem_append_left more hc, hci⟩

theorem rawVerdict_perm {adds adds' : List AddCall} (h : adds.Perm adds') (inc : Bool) :
    rawVerdict (adds.map .add) inc = rawVerdict (adds'.map .add) inc := by
  have hex : ∀ P : AddCall → Prop, (∃ c ∈ adds, P c) ↔ ∃ c ∈ adds', P c := fun P =>
    exists_congr fun c => and_congr_left fun _ => h.mem_iff
  refine judge_congr ?_ (or_congr_right ?_) ?_
  · rw [carried_adds, carried_adds]
    exact hex _
  · simpa using hex fun c => (Call.add c).incomplete = true
  · rw [carried_adds, carried_adds]
    exact hex _

/-- What was flushed with success is what a fresh store reads. -/
theorem verdict_reload {s : Store} (h : s.Numbered) {force : Bool}
    (hw : s.mem.dirty = true ∨ force = true) (path : String) (inc : Bool) :
    verdict (Findings.load path (s.flush force true).files) inc = verdict s.mem inc := by
  apply verdict_congr
  rw [Store.load_items, Store.flush_of_path h.path hw]
  exact Store.filed_write h

/-- Deduplication never changes the verdict.  Starting from a store over an empty
directory, every sequence of calls, whichever of their writes fail, has the verdict of
the raw calls.  The verdict of adds does not depend on their order, more calls never
improve it, and it survives a flush that is written and a reload. -/
theorem dedup_keeps_verdict (path : String) (cs : List (Call × Bool)) (inc : Bool) :
    let s := (Store.load path RotatingFiles.empty).calls cs
    verdict s.mem inc = rawVerdict (cs.map Prod.fst) inc ∧
    (∀ more, verdict (s.calls more).mem inc ≤ verdict s.mem inc) ∧
    (∀ adds adds' : List (AddCall × Bool), (adds.map Prod.fst).Perm (adds'.map Prod.fst) →
      verdict ((Store.load path RotatingFiles.empty).calls
          (adds.map fun c => (.add c.1, c.2))).mem inc =
        verdict ((Store.load path RotatingFiles.empty).calls
          (adds'.map fun c => (.add c.1, c.2))).mem inc) ∧
    (∀ force : Bool, s.mem.dirty = true ∨ force = true →
      verdict (Findings.load path (s.flush force true).files) inc =
        rawVerdict (cs.map Prod.fst) inc) := by
  intro s
  have hs := fun cs' => verdict_calls (Store.load path RotatingFiles.empty) rfl cs' inc
  refine ⟨hs cs, fun more => ?_, fun adds adds' hperm => ?_, fun force hw => ?_⟩
  · have happ : s.calls more = (Store.load path RotatingFiles.empty).calls (cs ++ more) := by
      rw [Store.calls, Store.calls, List.foldl_append]
      rfl
    rw [happ, hs, hs, List.map_append]
    exact rawVerdict_append_le _ _ inc
  · rw [hs, hs, List.map_map, List.map_map]
    have := rawVerdict_perm hperm inc
    rw [List.map_map, List.map_map] at this
    exact this
  · rw [verdict_reload ((Store.Sound.load path _).calls cs).toNumbered hw, hs]

end PcCheck
