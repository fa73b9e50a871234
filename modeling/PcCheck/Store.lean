/-
Laws of the findings store.

What one `add`, `escalate` or `flush` does is said once, by `recorded_rank`,
`has_record`, `has_raise` and the lemmas on `flush`; every later argument about the
store rests on these.  A store is `Sound` when its sequence number is above every file
and no failure is on file that it has forgotten, which is what makes a failure that has
reached the stick stay there.
-/
import PcCheck.Findings

namespace PcCheck

namespace Items

def Has (t : Items) (P : Finding → Prop) : Prop := ∃ k f, t.get? k = some f ∧ P f

def Fails (t : Items) (k : String) : Prop := ∃ f, t.get? k = some f ∧ f.severity = .fail

theorem has_iff_mem {t : Items} {P : Finding → Prop} : t.Has P ↔ ∃ f ∈ t.toList, P f := by
  constructor
  · intro hex
    obtain ⟨k, f, hf, hP⟩ := hex
    exact ⟨f, mem_toList_of_get? hf, hP⟩
  · intro hex
    obtain ⟨f, hf, hP⟩ := hex
    exact ⟨f.key, f, mem_toList_iff.mp hf, hP⟩

theorem not_has_empty (P : Finding → Prop) : ¬ empty.Has P := by
  intro hex
  obtain ⟨k, f, hf, -⟩ := hex
  simp at hf

theorem has_put {t : Items} {f : Finding} {P : Finding → Prop}
    (h : ∀ old, t.get? f.key = some old → P old → P f) : (t.put f).Has P ↔ t.Has P ∨ P f := by
  constructor
  · intro hex
    obtain ⟨k, g, hg, hP⟩ := hex
    rw [get?_put] at hg
    split at hg
    · obtain rfl := Option.some.inj hg
      exact Or.inr hP
    · exact Or.inl ⟨k, g, hg, hP⟩
  · intro hor
    rcases hor with ⟨k, g, hg, hP⟩ | hP
    · by_cases hk : k = f.key
      · subst hk
        exact ⟨f.key, f, get?_put_self t f, h g hg hP⟩
      · exact ⟨k, g, by rw [get?_put_ne t f hk]; exact hg, hP⟩
    · exact ⟨f.key, f, get?_put_self t f, hP⟩

theorem Fails.put {t : Items} {f : Finding} {k : String} (h : t.Fails k)
    (hf : ∀ old, t.get? f.key = some old → old.severity.rank ≤ f.severity.rank) :
    (t.put f).Fails k := by
  obtain ⟨g, hg, hfail⟩ := h
  by_cases hk : k = f.key
  · subst hk
    refine ⟨f, get?_put_self t f, ?_⟩
    have hrank := hf g hg
    rw [hfail] at hrank
    cases hs : f.severity with
    | fail => rfl
    | info => rw [hs] at hrank; simp [Severity.rank] at hrank
    | warn => rw [hs] at hrank; simp [Severity.rank] at hrank
  · exact ⟨g, by rw [get?_put_ne t f hk]; exact hg, hfail⟩

end Items

namespace Findings

@[simp] theorem recorded_key (fs : Findings) (c : AddCall) : (fs.recorded c).key = c.key := by
  unfold recorded
  cases h : fs.items.get? c.key with
  | none => simp [Finding.ofCall]
  | some e => simp [Items.key_of_get? h]

theorem recorded_rank (fs : Findings) (c : AddCall) :
    (fs.recorded c).severity.rank =
      max ((fs.items.get? c.key).elim 0 fun e => e.severity.rank) c.severity.rank := by
  unfold recorded
  cases h : fs.items.get? c.key with
  | none => simp [Finding.ofCall]
  | some e => simp [Finding.merge_severity_rank]

theorem recorded_incomplete (fs : Findings) (c : AddCall) :
    (fs.recorded c).incomplete =
      (((fs.items.get? c.key).elim false fun e => e.incomplete) || c.incomplete) := by
  unfold recorded
  cases h : fs.items.get? c.key with
  | none => simp [Finding.ofCall]
  | some e => simp

theorem record_items (fs : Findings) (c : AddCall) :
    (fs.record c).1.items = fs.items.put (fs.recorded c) := rfl

theorem rank_le_recorded {fs : Findings} {c : AddCall} {old : Finding}
    (h : fs.items.get? (fs.recorded c).key = some old) :
    old.severity.rank ≤ (fs.recorded c).severity.rank := by
  rw [recorded_key] at h
  rw [recorded_rank, h]
  exact le_max_left ..

/-- What the finding of a call has, it had before or has from the call. -/
theorem has_record {fs : Findings} {c : AddCall} {P : Finding → Prop} {q : Prop}
    (h : P (fs.recorded c) ↔ (∃ e, fs.items.get? c.key = some e ∧ P e) ∨ q) :
    (fs.record c).1.items.Has P ↔ fs.items.Has P ∨ q := by
  have hkeep : ∀ old, fs.items.get? (fs.recorded c).key = some old → P old → P (fs.recorded c) := by
    intro old hold hP
    rw [recorded_key] at hold
    exact h.mpr (Or.inl ⟨old, hold, hP⟩)
  rw [record_items, Items.has_put hkeep, h]
  constructor
  · intro hor
    rcases hor with hhas | ⟨e, he, hP⟩ | hq
    · exact Or.inl hhas
    · exact Or.inl ⟨c.key, e, he, hP⟩
    · exact Or.inr hq
  · intro hor
    exact hor.imp_right Or.inr

/-- After a call the store reaches a severity exactly when it did before or the call
carries it. -/
theorem has_record_rank (fs : Findings) (c : AddCall) (n : Nat) :
    (fs.record c).1.items.Has (fun f => n ≤ f.severity.rank) ↔
      fs.items.Has (fun f => n ≤ f.severity.rank) ∨ n ≤ c.severity.rank := by
  refine has_record ?_
  rw [recorded_rank]
  cases fs.items.get? c.key <;> simp

theorem has_record_incomplete (fs : Findings) (c : AddCall) :
    (fs.record c).1.items.Has (fun f => f.incomplete = true) ↔
      fs.items.Has (fun f => f.incomplete = true) ∨ c.incomplete = true := by
  refine has_record ?_
  rw [recorded_incomplete]
  cases fs.items.get? c.key <;> simp

theorem raise_items (fs : Findings) (c : EscalateCall) :
    (fs.raise c).items = fs.items ∨
      ∃ f, fs.items.get? c.key = some f ∧ f.severity.rank < c.severity.rank ∧
        (fs.raise c).items = fs.items.put (f.raise c) := by
  unfold raise
  cases h : fs.items.get? c.key with
  | none => exact Or.inl rfl
  | some f =>
    by_cases hlt : f.severity.rank < c.severity.rank
    · exact Or.inr ⟨f, rfl, hlt, by simp only [hlt, if_true]⟩
    · exact Or.inl (by simp only [hlt, if_false])

theorem raise_key_eq {fs : Findings} {c : EscalateCall} {f : Finding}
    (h : fs.items.get? c.key = some f) : (f.raise c).key = c.key := by
  rw [Finding.raise_key, Items.key_of_get? h]

theorem get?_record (fs : Findings) (c : AddCall) (k : String) :
    (fs.record c).1.items.get? k =
      if k = c.key then some (fs.recorded c) else fs.items.get? k := by
  rw [record_items, Items.get?_put, recorded_key]

theorem get?_raise_ne {fs : Findings} {k : String} {c : EscalateCall} (h : k ≠ c.key) :
    (fs.raise c).items.get? k = fs.items.get? k := by
  rcases fs.raise_items c with heq | ⟨f, hf, -, heq⟩
  · rw [heq]
  · rw [heq, Items.get?_put_ne]
    rwa [raise_key_eq hf]

theorem rank_le_raise {fs : Findings} {c : EscalateCall} {f old : Finding}
    (h : fs.items.get? c.key = some f) (hold : fs.items.get? (f.raise c).key = some old) :
    old.severity.rank ≤ (f.raise c).severity.rank := by
  rw [raise_key_eq h, h] at hold
  obtain rfl := Option.some.inj hold
  rw [Finding.raise_severity_rank]
  exact le_max_left ..

theorem has_raise_rank (fs : Findings) (c : EscalateCall) (n : Nat) :
    (fs.raise c).items.Has (fun f => n ≤ f.severity.rank) ↔
      fs.items.Has (fun f => n ≤ f.severity.rank) ∨
        (n ≤ c.severity.rank ∧ (fs.items.get? c.key).isSome = true) := by
  unfold raise
  cases h : fs.items.get? c.key with
  | none => simp
  | some f =>
    by_cases hlt : f.severity.rank < c.severity.rank
    · simp only [hlt, if_true, Option.isSome_some, and_true]
      rw [Items.has_put fun old hold hn => hn.trans (rank_le_raise h hold),
        Finding.raise_severity_rank, max_eq_right hlt.le]
    · simp only [hlt, if_false, Option.isSome_some, and_true]
      constructor
      · exact Or.inl
      · intro hor
        rcases hor with hhas | hn
        · exact hhas
        · exact ⟨c.key, f, h, hn.trans (not_lt.mp hlt)⟩

theorem has_raise_incomplete (fs : Findings) (c : EscalateCall) :
    (fs.raise c).items.Has (fun f => f.incomplete = true) ↔
      fs.items.Has (fun f => f.incomplete = true) := by
  rcases raise_items fs c with heq | ⟨f, hf, -, heq⟩
  · rw [heq]
  · have hkeep : ∀ old, fs.items.get? (f.raise c).key = some old → old.incomplete = true →
        (f.raise c).incomplete = true := by
      intro old hold hinc
      rw [raise_key_eq hf, hf] at hold
      obtain rfl := Option.some.inj hold
      rw [Finding.raise_incomplete, hinc]
    rw [heq, Items.has_put hkeep, Finding.raise_incomplete]
    constructor
    · intro hor
      rcases hor with hhas | hinc
      · exact hhas
      · exact ⟨c.key, f, hf, hinc⟩
    · exact Or.inl

theorem fails_record {fs : Findings} {k : String} (c : AddCall) (h : fs.items.Fails k) :
    (fs.record c).1.items.Fails k :=
  h.put fun _ => rank_le_recorded

theorem fails_raise {fs : Findings} {k : String} (c : EscalateCall) (h : fs.items.Fails k) :
    (fs.raise c).items.Fails k := by
  rcases raise_items fs c with heq | ⟨f, hf, -, heq⟩
  · rwa [heq]
  · rw [heq]
    exact h.put fun _ => rank_le_raise hf

theorem fails_record_self {fs : Findings} {c : AddCall} (h : c.severity = .fail) :
    (fs.record c).1.items.Fails c.key := by
  refine ⟨fs.recorded c, ?_, ?_⟩
  · rw [record_items, ← recorded_key fs c, Items.get?_put_self]
  · have hrank := recorded_rank fs c
    rw [h] at hrank
    apply Severity.rank_injective
    rw [hrank]
    show max _ 3 = 3
    cases fs.items.get? c.key with
    | none => rfl
    | some e => cases he : e.severity <;> simp [he, Severity.rank]

end Findings

/-! ## The verdict as three questions -/

theorem judge_congr {a b c a' b' c' : Prop} [Decidable a] [Decidable b] [Decidable c]
    [Decidable a'] [Decidable b'] [Decidable c'] (ha : a ↔ a') (hb : b ↔ b') (hc : c ↔ c') :
    judge a b c = judge a' b' c' := by
  simp only [judge, ha, hb, hc]

theorem judge_congr_of_not {a b c a' b' c' : Prop} [Decidable a] [Decidable b] [Decidable c]
    [Decidable a'] [Decidable b'] [Decidable c'] (ha : a ↔ a') (hb : b ↔ b')
    (hc : ¬ a → (c ↔ c')) : judge a b c = judge a' b' c' := by
  by_cases h : a
  · simp only [judge, h, ha.mp h, if_true]
  · exact judge_congr ha hb (hc h)

/-- A verdict is no better than another when each thing the other holds against the
machine is outdone. -/
theorem judge_le_iff {a b c a' b' c' : Prop} [Decidable a] [Decidable b] [Decidable c]
    [Decidable a'] [Decidable b'] [Decidable c'] :
    judge a' b' c' ≤ judge a b c ↔ (a → a') ∧ (b → a' ∨ b') ∧ (c → a' ∨ b' ∨ c') := by
  rw [Verdict.le_iff_rank]
  by_cases ha' : a' <;> by_cases hb' : b' <;> by_cases hc' : c' <;>
    by_cases ha : a <;> by_cases hb : b <;> by_cases hc : c <;>
    simp [judge, Verdict.rank, ha, hb, hc, ha', hb', hc']

/-- More failures, gaps and warnings never make a verdict better. -/
theorem judge_mono {a b c a' b' c' : Prop} [Decidable a] [Decidable b] [Decidable c]
    [Decidable a'] [Decidable b'] [Decidable c'] (ha : a → a') (hb : b → b') (hc : c → c') :
    judge a' b' c' ≤ judge a b c :=
  judge_le_iff.mpr ⟨ha, fun h => Or.inr (hb h), fun h => Or.inr (Or.inr (hc h))⟩

theorem judge_eq_fail {a b c : Prop} [Decidable a] [Decidable b] [Decidable c] :
    judge a b c = .fail ↔ a := by
  unfold judge
  by_cases ha : a <;> by_cases hb : b <;> by_cases hc : c <;> simp [ha, hb, hc]

namespace Findings

theorem counts_ne_zero_iff {fs : Findings} {s : Severity} :
    fs.counts s ≠ 0 ↔ fs.items.Has fun f => f.severity = s := by
  rw [Items.has_iff_mem, ← Nat.pos_iff_ne_zero, counts_pos_iff]

theorem any_incomplete_iff {fs : Findings} :
    fs.all.any (fun f => f.incomplete) = true ↔ fs.items.Has fun f => f.incomplete = true := by
  rw [Items.has_iff_mem, List.any_eq_true]
  simp only [mem_all]

end Findings

/-- The verdict reads three facts of the table. -/
theorem verdict_eq_judge (fs : Findings) (inc : Bool) {a b c : Prop} [Decidable a] [Decidable b]
    [Decidable c] (ha : (fs.items.Has fun f => f.severity = .fail) ↔ a)
    (hb : (inc = true ∨ fs.items.Has fun f => f.incomplete = true) ↔ b)
    (hc : (fs.items.Has fun f => f.severity = .warn) ↔ c) :
    verdict fs inc = judge a b c :=
  judge_congr (Findings.counts_ne_zero_iff.trans ha)
    ((or_congr_right Findings.any_incomplete_iff).trans hb) (Findings.counts_ne_zero_iff.trans hc)

theorem verdict_congr {fs gs : Findings} (h : fs.items = gs.items) (inc : Bool) :
    verdict fs inc = verdict gs inc :=
  judge_congr (by rw [Findings.counts, Findings.counts, h]) (by rw [Findings.all, Findings.all, h])
    (by rw [Findings.counts, Findings.counts, h])

theorem verdict_eq_fail_iff {fs : Findings} {inc : Bool} :
    verdict fs inc = .fail ↔ ∃ k, fs.items.Fails k :=
  judge_eq_fail.trans Findings.counts_ne_zero_iff

/-! ## Flushing -/

namespace Findings

theorem snapshot_eq (fs : Findings) (force : Bool) :
    fs.snapshot force = (fs, none) ∨
      fs.snapshot force =
        ({ fs with dirty := false, seq := fs.seq + 1 }, some (fs.items.toDoc, fs.seq + 1)) := by
  unfold snapshot
  split
  · exact Or.inl rfl
  · exact Or.inr rfl

theorem snapshot_of_path {fs : Findings} {force : Bool} (hp : fs.path.isSome = true)
    (h : fs.dirty = true ∨ force = true) :
    fs.snapshot force =
      ({ fs with dirty := false, seq := fs.seq + 1 }, some (fs.items.toDoc, fs.seq + 1)) := by
  unfold snapshot
  rw [if_neg]
  intro hor
  rcases hor with hnone | hno
  · cases hpath : fs.path <;> simp_all
  · exact hno h

end Findings

namespace Store

theorem flush_cases (s : Store) (force ok : Bool) :
    s.flush force ok = s ∨
      s.flush force ok =
        { mem := { s.mem with dirty := false, seq := s.mem.seq + 1 },
          files := if ok then s.files.writeRotating s.mem.items.toDoc (s.mem.seq + 1)
                   else s.files } := by
  unfold flush
  rcases Findings.snapshot_eq s.mem force with h | h
  · rw [h]; exact Or.inl rfl
  · rw [h]; exact Or.inr rfl

theorem flush_of_path {s : Store} {force ok : Bool} (hp : s.mem.path.isSome = true)
    (h : s.mem.dirty = true ∨ force = true) :
    s.flush force ok = { mem := { s.mem with dirty := false, seq := s.mem.seq + 1 },
                         files := if ok then s.files.writeRotating s.mem.items.toDoc (s.mem.seq + 1)
                                  else s.files } := by
  unfold flush
  rw [Findings.snapshot_of_path hp h]

@[simp] theorem flush_items (s : Store) (force ok : Bool) :
    (s.flush force ok).mem.items = s.mem.items := by
  rcases flush_cases s force ok with h | h <;> rw [h]

@[simp] theorem flush_path (s : Store) (force ok : Bool) :
    (s.flush force ok).mem.path = s.mem.path := by
  rcases flush_cases s force ok with h | h <;> rw [h]

@[simp] theorem add_items (s : Store) (c : AddCall) (ok : Bool) :
    (s.add c ok).mem.items = s.mem.items.put (s.mem.recorded c) := by
  simp only [add]
  split
  · rw [flush_items]; rfl
  · rfl

@[simp] theorem add_path (s : Store) (c : AddCall) (ok : Bool) :
    (s.add c ok).mem.path = s.mem.path := by
  simp only [add]
  split
  · rw [flush_path]; rfl
  · rfl

@[simp] theorem escalate_items (s : Store) (c : EscalateCall) (ok : Bool) :
    (s.escalate c ok).mem.items = (s.mem.raise c).items :=
  flush_items ..

def filed (files : RotatingFiles FindingsDoc) : Items := Items.ofDoc (files.readRotating.1.getD [])

@[simp] theorem load_items (path : String) (files : RotatingFiles FindingsDoc) :
    (Findings.load path files).items = filed files := rfl

/-- A store with a file to write to, whose number is above every file on the stick. -/
structure Numbered (s : Store) : Prop where
  path : s.mem.path.isSome = true
  seq : -1 ≤ s.mem.seq
  fresh : Register.Below s.files (s.mem.seq + 1)

/-- A numbered store that knows every failure on file. -/
structure Sound (s : Store) : Prop extends Numbered s where
  known : ∀ k, (filed s.files).Fails k → s.mem.items.Fails k

theorem Sound.load (path : String) (files : RotatingFiles FindingsDoc) :
    (load path files).Sound where
  path := rfl
  seq := RotatingFiles.neg_one_le_readRotating files
  fresh := RotatingFiles.below_succ_readRotating files
  known := fun _ h => h

theorem filed_write {s : Store} (h : s.Numbered) :
    filed (s.files.writeRotating s.mem.items.toDoc (s.mem.seq + 1)) = s.mem.items := by
  have hseq := h.seq
  rw [filed, RotatingFiles.readRotating_writeRotating h.fresh (by omega), Option.getD_some,
    Items.ofDoc_toDoc]

theorem below_write {s : Store} (h : s.Numbered) (doc : FindingsDoc) :
    Register.Below (s.files.writeRotating doc (s.mem.seq + 1)) (s.mem.seq + 1 + 1) :=
  have hhold : Register.Holds Place.ofSeq (s.files.writeRotating doc (s.mem.seq + 1))
      ⟨doc, s.mem.seq + 1⟩ := Register.Holds.put_of_below h.fresh
  hhold.below_of_lt (by show s.mem.seq + 1 < _; omega)

theorem Numbered.flush {s : Store} (h : s.Numbered) (force ok : Bool) :
    (s.flush force ok).Numbered := by
  have hseq := h.seq
  rcases flush_cases s force ok with heq | heq
  · rwa [heq]
  · rw [heq]
    cases ok with
    | true => exact ⟨h.path, by show -1 ≤ s.mem.seq + 1; omega, below_write h _⟩
    | false =>
      refine ⟨h.path, by show -1 ≤ s.mem.seq + 1; omega, fun p d hd => ?_⟩
      have := h.fresh p d hd
      show d.stamp < s.mem.seq + 1 + 1
      omega

theorem Numbered.add {s : Store} (h : s.Numbered) (c : AddCall) (ok : Bool) :
    (s.add c ok).Numbered := by
  have hrecord : Numbered { s with mem := (s.mem.record c).1 } := ⟨h.path, h.seq, h.fresh⟩
  simp only [Store.add]
  split
  · exact hrecord.flush false ok
  · exact hrecord

theorem Sound.flush {s : Store} (h : s.Sound) (force ok : Bool) : (s.flush force ok).Sound := by
  refine ⟨h.toNumbered.flush force ok, fun k hk => ?_⟩
  rw [flush_items]
  rcases flush_cases s force ok with heq | heq
  · rw [heq] at hk
    exact h.known k hk
  · rw [heq] at hk
    cases ok with
    | true =>
      rw [if_pos rfl, filed_write h.toNumbered] at hk
      exact hk
    | false => exact h.known k hk

theorem Sound.record {s : Store} (h : s.Sound) (c : AddCall) :
    Sound { s with mem := (s.mem.record c).1 } :=
  ⟨⟨h.path, h.seq, h.fresh⟩, fun k hk => Findings.fails_record c (h.known k hk)⟩

theorem raise_frame (fs : Findings) (c : EscalateCall) :
    (fs.raise c).path = fs.path ∧ (fs.raise c).seq = fs.seq := by
  unfold Findings.raise
  cases fs.items.get? c.key with
  | none => exact ⟨rfl, rfl⟩
  | some f =>
    by_cases hlt : f.severity.rank < c.severity.rank <;> simp [hlt]

theorem Sound.raise {s : Store} (h : s.Sound) (c : EscalateCall) :
    Sound { s with mem := s.mem.raise c } := by
  obtain ⟨hpath, hseq⟩ := raise_frame s.mem c
  refine ⟨⟨?_, ?_, ?_⟩, fun k hk => Findings.fails_raise c (h.known k hk)⟩
  · show (s.mem.raise c).path.isSome = true
    rw [hpath]; exact h.path
  · show -1 ≤ (s.mem.raise c).seq
    rw [hseq]; exact h.seq
  · show Register.Below s.files ((s.mem.raise c).seq + 1)
    rw [hseq]; exact h.fresh

theorem Sound.add {s : Store} (h : s.Sound) (c : AddCall) (ok : Bool) : (s.add c ok).Sound := by
  simp only [Store.add]
  split
  · exact (h.record c).flush false ok
  · exact h.record c

theorem Sound.escalate {s : Store} (h : s.Sound) (c : EscalateCall) (ok : Bool) :
    (s.escalate c ok).Sound :=
  (h.raise c).flush false ok

/-- A failure that has reached the stick stays there. -/
theorem filed_fails_flush {s : Store} (h : s.Sound) {k : String} (hk : (filed s.files).Fails k)
    (force ok : Bool) : (filed (s.flush force ok).files).Fails k := by
  rcases flush_cases s force ok with heq | heq
  · rwa [heq]
  · rw [heq]
    cases ok with
    | true =>
      show (filed (s.files.writeRotating s.mem.items.toDoc (s.mem.seq + 1))).Fails k
      rw [filed_write h.toNumbered]
      exact h.known k hk
    | false => exact hk

theorem filed_fails_add {s : Store} (h : s.Sound) {k : String} (hk : (filed s.files).Fails k)
    (c : AddCall) (ok : Bool) : (filed (s.add c ok).files).Fails k := by
  simp only [Store.add]
  split
  · exact filed_fails_flush (h.record c) hk false ok
  · exact hk

theorem filed_fails_escalate {s : Store} (h : s.Sound) {k : String}
    (hk : (filed s.files).Fails k) (c : EscalateCall) (ok : Bool) :
    (filed (s.escalate c ok).files).Fails k :=
  filed_fails_flush (h.raise c) hk false ok

/-- A failure whose write succeeds is on the stick when `add` returns. -/
theorem filed_fails_add_self {s : Store} (h : s.Sound) {c : AddCall} (hc : c.severity = .fail) :
    (filed (s.add c true).files).Fails c.key := by
  have hurgent : (s.mem.record c).2 = true := by
    simp [Findings.record, hc]
  have hr := (h.record c).toNumbered
  simp only [Store.add, hurgent, if_true]
  rw [flush_of_path hr.path (Or.inl rfl)]
  show (filed (RotatingFiles.writeRotating s.files _ _)).Fails c.key
  rw [filed_write hr]
  exact Findings.fails_record_self hc

end Store

end PcCheck
