/-
A reader that copies a ring buffer to a file.

The buffer forgets its oldest entries.  An entry may hold a record, and the keys of the records
rise.  The reader takes each record above its cursor, holds it back and writes what it holds
back to the file in batches; the cursor that it saves lags behind.  `Settled` says what a reader
that begins again at the oldest entry may skip.
-/
import Mathlib.Data.List.Basic
import Mathlib.Order.Lattice

section

variable {ρ α ι : Type*}

/-- What is in the file, what is held back, and the cursors in memory and saved. -/
structure Spool (α ι : Type*) where
  filed : List α
  pending : List α
  cursor : ι
  saved : ι

namespace Spool

variable {key : α → ι}

def held (s : Spool α ι) : List α := s.filed ++ s.pending

def take (key : α → ι) (s : Spool α ι) : Option α → Spool α ι
  | none => s
  | some r => { s with pending := s.pending ++ [r], cursor := key r }

def flush (s : Spool α ι) : Spool α ι :=
  { s with filed := s.filed ++ s.pending, pending := [], saved := s.cursor }

@[simp] theorem held_flush (s : Spool α ι) : s.flush.held = s.held := List.append_nil _

theorem held_perhaps (s : Spool α ι) (c : Prop) [Decidable c] :
    (if c then s.flush else s).held = s.held := by
  split
  · exact held_flush s
  · rfl

theorem held_take (s : Spool α ι) (o : Option α) : (s.take key o).held = s.held ++ o.toList := by
  cases o with
  | none => exact (List.append_nil _).symm
  | some r => exact (List.append_assoc _ _ _).symm

/-! ## The last key of a list -/

def latest (key : α → ι) (low : ι) (l : List α) : ι := (l.getLast?.map key).getD low

@[simp] theorem latest_nil (low : ι) : latest key low [] = low := rfl

theorem latest_concat (low : ι) (l : List α) (r : α) : latest key low (l ++ [r]) = key r := by
  simp [latest]

theorem latest_append (low : ι) (l m : List α) :
    latest key low (l ++ m) = latest key (latest key low l) m := by
  rcases List.eq_nil_or_concat' m with rfl | ⟨m, r, rfl⟩
  · simp
  · rw [← List.append_assoc, latest_concat, latest_concat]

theorem latest_cons (low : ι) (r : α) (l : List α) :
    latest key low (r :: l) = latest key (key r) l := by
  rw [← List.singleton_append, latest_append]
  rfl

end Spool

variable [LinearOrder ι]

namespace Spool

variable {key : α → ι} {c d : ι}

theorem latest_mono (h : c ≤ d) (l : List α) : latest key c l ≤ latest key d l := by
  rcases List.eq_nil_or_concat' l with rfl | ⟨l, r, rfl⟩
  · exact h
  · rw [latest_concat, latest_concat]

theorem le_latest (h : c ≤ d) {l : List α} (hall : ∀ r ∈ l, c < key r) :
    c ≤ latest key d l := by
  rcases List.eq_nil_or_concat' l with rfl | ⟨l, r, rfl⟩
  · exact h
  · rw [latest_concat]
    exact (hall r (List.mem_append_right l List.mem_cons_self)).le

/-! ## The records of a list that rise -/

/-- The records above the cursor, which each record taken moves to itself. -/
def newer (key : α → ι) : ι → List α → List α
  | _, [] => []
  | c, r :: rest => if c < key r then r :: newer key (key r) rest else newer key c rest

theorem newer_concat (c : ι) (l : List α) (r : α) :
    newer key c (l ++ [r]) = newer key c l ++
      (if latest key c (newer key c l) < key r then [r] else []) := by
  induction l generalizing c with
  | nil => rfl
  | cons a rest ih =>
    rw [List.cons_append, newer, newer]
    split
    · rw [ih, latest_cons, List.cons_append]
    · exact ih c

theorem lt_of_mem_newer {c : ι} {l : List α} {r : α} (h : r ∈ newer key c l) : c < key r := by
  induction l generalizing c with
  | nil => cases h
  | cons a rest ih =>
    rw [newer] at h
    split at h
    · rename_i hlt
      rcases List.mem_cons.mp h with rfl | hmem
      · exact hlt
      · exact hlt.trans (ih hmem)
    · exact ih h

theorem newer_rises (c : ι) (l : List α) :
    (newer key c l).Pairwise fun r s => key r < key s := by
  induction l generalizing c with
  | nil => exact List.Pairwise.nil
  | cons a rest ih =>
    rw [newer]
    split
    · exact List.pairwise_cons.mpr ⟨fun r hr => lt_of_mem_newer hr, ih _⟩
    · exact ih c

end Spool

/-! ## The buffer -/

structure RingBuffer (parse : ρ → Option α) (key : α → ι) (low : ι) where
  /-- Oldest first. -/
  entries : List ρ
  /-- How many of the entries the reader has passed. -/
  pos : Nat
  /-- What the reader would have read next is overwritten, and it has not been told. -/
  overtaken : Bool
  /-- The key of the newest record there has been. -/
  top : ι
  pos_le : pos ≤ entries.length
  rising : (entries.filterMap parse).Pairwise fun r s => key r < key s
  above : ∀ r ∈ entries.filterMap parse, low < key r ∧ key r ≤ top
  low_le : low ≤ top

namespace RingBuffer

open Spool

variable {parse : ρ → Option α} {key : α → ι} {low c d : ι} {b b' : RingBuffer parse key low}
  {l m : List α}

def records (b : RingBuffer parse key low) : List α := b.entries.filterMap parse

theorem filterMap_concat (parse : ρ → Option α) (es : List ρ) (e : ρ) :
    (es ++ [e]).filterMap parse = es.filterMap parse ++ (parse e).toList := by
  rw [List.filterMap_append]
  cases he : parse e <;> simp [he]

theorem le_length_concat {n : Nat} {es : List ρ} (h : n ≤ es.length) (e : ρ) :
    n ≤ (es ++ [e]).length := by
  rw [List.length_append]
  exact Nat.le_add_right_of_le h

/-- An entry that holds no record is logged as it is; a record is above all others. -/
def log (b : RingBuffer parse key low) (e : ρ) : Option (RingBuffer parse key low) :=
  match hs : parse e with
  | none =>
    some { b with
      entries := b.entries ++ [e]
      pos_le := le_length_concat b.pos_le e
      rising := by simpa [filterMap_concat, hs] using b.rising
      above := by simpa [filterMap_concat, hs] using b.above }
  | some s =>
    if h : b.top < key s then
      some { b with
        entries := b.entries ++ [e]
        top := key s
        pos_le := le_length_concat b.pos_le e
        rising := by
          rw [filterMap_concat, hs, List.pairwise_append]
          refine ⟨b.rising, List.pairwise_singleton _ s, fun r hr t ht => ?_⟩
          obtain rfl : t = s := List.mem_singleton.mp ht
          exact (b.above r hr).2.trans_lt h
        above := by
          intro r hr
          rw [filterMap_concat, hs, List.mem_append] at hr
          rcases hr with hr | hr
          · exact ⟨(b.above r hr).1, (b.above r hr).2.trans h.le⟩
          · obtain rfl : r = s := List.mem_singleton.mp hr
            exact ⟨b.low_le.trans_lt h, le_rfl⟩
        low_le := b.low_le.trans h.le }
    else none

def overwrite (b : RingBuffer parse key low) : RingBuffer parse key low :=
  { b with
    entries := b.entries.tail
    pos := b.pos - 1
    overtaken := b.overtaken || (b.pos == 0 && !b.entries.isEmpty)
    pos_le := by
      rw [List.length_tail]
      exact Nat.sub_le_sub_right b.pos_le 1
    rising := b.rising.sublist ((List.tail_sublist b.entries).filterMap parse)
    above := fun r hr => b.above r (((List.tail_sublist b.entries).filterMap parse).subset hr) }

/-- The reader begins at the oldest entry. -/
def rewind (b : RingBuffer parse key low) : RingBuffer parse key low :=
  { b with pos := 0, overtaken := false, pos_le := Nat.zero_le _ }

def Exhausted (b : RingBuffer parse key low) : Prop :=
  b.pos = b.entries.length ∧ b.overtaken = false

instance : Decidable b.Exhausted := inferInstanceAs (Decidable (_ ∧ _))

/-- The reader is told that it was overtaken, and goes on with the oldest entry. -/
def catchUp (b : RingBuffer parse key low) : Option (RingBuffer parse key low) :=
  if b.overtaken then some { b with overtaken := false } else none

def next [DecidableEq ρ] (b : RingBuffer parse key low) (e : ρ) :
    Option (RingBuffer parse key low) :=
  if h : b.entries[b.pos]? = some e ∧ b.overtaken = false then
    some { b with
      pos := b.pos + 1
      pos_le := by
        obtain ⟨hpos, -⟩ := List.getElem?_eq_some_iff.mp h.1
        exact hpos }
  else none

/-- Of the records up to the cursor none is missing from the list. -/
def UpTo (b : RingBuffer parse key low) (l : List α) (c : ι) : Prop :=
  ∀ r ∈ b.records, key r ≤ c → r ∈ l

/-- Of the records that the reader has passed none is missing from the list. -/
def Passed (b : RingBuffer parse key low) (l : List α) : Prop :=
  ∀ r ∈ (b.entries.take b.pos).filterMap parse, r ∈ l

/-- A reader that begins again at the cursor finds every record it skips in the file, and the
cursor is not beyond the file's last record. -/
structure Settled (b : RingBuffer parse key low) (l : List α) (c : ι) : Prop where
  upTo : b.UpTo l c
  le_latest : c ≤ latest key low l
  le_top : c ≤ b.top

/-- The buffer has lost records and gained newer ones. -/
structure Later (b b' : RingBuffer parse key low) : Prop where
  top_le : b.top ≤ b'.top
  records : ∀ r ∈ b'.records, r ∈ b.records ∨ b.top < key r

theorem later_of_entries (hentries : b'.entries = b.entries) (htop : b'.top = b.top) :
    Later b b' :=
  ⟨htop.ge, fun r hr => Or.inl (by rwa [records, hentries] at hr)⟩

theorem later_rewind (b : RingBuffer parse key low) : Later b b.rewind :=
  later_of_entries rfl rfl

theorem later_overwrite (b : RingBuffer parse key low) : Later b b.overwrite :=
  ⟨le_rfl, fun _ hr => Or.inl (((List.tail_sublist b.entries).filterMap parse).subset hr)⟩

theorem log_eq_some {e : ρ} (h : b.log e = some b') :
    b'.entries = b.entries ++ [e] ∧ b'.pos = b.pos ∧ b.top ≤ b'.top ∧
      ∀ r ∈ parse e, b.top < key r := by
  unfold log at h
  split at h
  · rename_i hs
    obtain rfl := Option.some.inj h
    exact ⟨rfl, rfl, le_rfl, fun r hr => by rw [hs] at hr; cases hr⟩
  · rename_i s hs
    split at h
    · rename_i hnew
      obtain rfl := Option.some.inj h
      refine ⟨rfl, rfl, hnew.le, fun r hr => ?_⟩
      obtain rfl : s = r := Option.some.inj (hs.symm.trans hr)
      exact hnew
    · cases h

theorem later_log {e : ρ} (h : b.log e = some b') : Later b b' := by
  obtain ⟨hentries, -, htop, hnew⟩ := log_eq_some h
  refine ⟨htop, fun r hr => ?_⟩
  rw [records, hentries, filterMap_concat, List.mem_append] at hr
  exact hr.imp_right fun hre => hnew r (by simpa using hre)

theorem UpTo.later (h : b.UpTo l c) (hc : c ≤ b.top) (hb : Later b b') : b'.UpTo l c := by
  intro r hr hle
  rcases hb.records r hr with hold | hnew
  · exact h r hold hle
  · exact absurd (hle.trans hc) (not_le.mpr hnew)

theorem Settled.later (h : b.Settled l c) (hb : Later b b') : b'.Settled l c :=
  ⟨h.upTo.later h.le_top hb, h.le_latest, h.le_top.trans hb.top_le⟩

theorem Settled.mono (h : b.Settled l c) (hd : d ≤ c) : b.Settled l d :=
  ⟨fun r hr hle => h.upTo r hr (hle.trans hd), hd.trans h.le_latest, hd.trans h.le_top⟩

/-- What is written after the cursor was saved is above it. -/
theorem Settled.append (h : b.Settled l c) (hm : ∀ r ∈ m, c < key r) : b.Settled (l ++ m) c := by
  refine ⟨fun r hr hle => List.mem_append_left m (h.upTo r hr hle), ?_, h.le_top⟩
  rw [latest_append]
  exact Spool.le_latest h.le_latest hm

/-- Nothing is written and nothing is skipped. -/
theorem settled_low (b : RingBuffer parse key low) (l : List α) (h : low ≤ latest key low l) :
    b.Settled l low :=
  ⟨fun r hr hle => absurd (b.above r hr).1 (not_lt.mpr hle), h, b.low_le⟩

theorem passed_rewind (b : RingBuffer parse key low) (l : List α) : b.rewind.Passed l := by
  intro r hr
  simp [rewind] at hr

theorem Passed.log {e : ρ} (h : b.Passed l) (hb : b.log e = some b') : b'.Passed l := by
  obtain ⟨hentries, hpos, -, -⟩ := log_eq_some hb
  intro r hr
  rw [hentries, hpos, List.take_append_of_le_length b.pos_le] at hr
  exact h r hr

theorem Passed.overwrite (h : b.Passed l) : b.overwrite.Passed l := by
  intro r hr
  refine h r (List.Sublist.subset (List.Sublist.filterMap parse ?_) hr)
  unfold RingBuffer.overwrite
  dsimp only
  cases hpos : b.pos with
  | zero => simp
  | succ n =>
    cases hentries : b.entries with
    | nil => simp
    | cons e rest => simp

theorem passed_all (h : b.Passed l) (hpos : b.pos = b.entries.length) :
    ∀ r ∈ b.records, r ∈ l := by
  intro r hr
  refine h r ?_
  rwa [hpos, List.take_length]

end RingBuffer

/-! ## What holds of the reader -/

namespace Spool

variable {parse : ρ → Option α} {key : α → ι} {low : ι} {b b' : RingBuffer parse key low}
  {s : Spool α ι}

structure Inv (b : RingBuffer parse key low) (s : Spool α ι) : Prop where
  settled : b.Settled s.filed s.saved
  cursor_eq : s.cursor = latest key s.saved s.pending
  above : ∀ r ∈ s.pending, s.saved < key r
  upTo : b.UpTo s.held s.cursor
  le_top : s.cursor ≤ b.top

theorem saved_le_cursor (h : Inv b s) : s.saved ≤ s.cursor := by
  rw [h.cursor_eq]
  exact le_latest le_rfl h.above

theorem inv_later (h : Inv b s) (hb : b.Later b') : Inv b' s where
  settled := h.settled.later hb
  cursor_eq := h.cursor_eq
  above := h.above
  upTo := h.upTo.later h.le_top hb
  le_top := h.le_top.trans hb.top_le

theorem inv_flush (h : Inv b s) : Inv b s.flush where
  settled := by
    refine ⟨h.upTo, ?_, h.le_top⟩
    show s.cursor ≤ latest key low (s.filed ++ s.pending)
    rw [latest_append, h.cursor_eq]
    exact latest_mono h.settled.le_latest s.pending
  cursor_eq := rfl
  above := fun _ hr => absurd hr List.not_mem_nil
  upTo := by
    rw [held_flush]
    exact h.upTo
  le_top := h.le_top

/-- Whether the reader writes what it holds back or not yet, it holds the same. -/
theorem inv_perhaps (h : Inv b s) (c : Prop) [Decidable c] :
    Inv b (if c then s.flush else s) ∧ (if c then s.flush else s).cursor = s.cursor ∧
      s.saved ≤ (if c then s.flush else s).saved := by
  split
  · exact ⟨inv_flush h, rfl, saved_le_cursor h⟩
  · exact ⟨h, rfl, le_rfl⟩

/-- A reader that begins with nothing pending, where a settled cursor is. -/
theorem inv_begin {l : List α} {c : ι} (h : b.Settled l c) : Inv b ⟨l, [], c, c⟩ where
  settled := h
  cursor_eq := rfl
  above := fun _ hr => absurd hr List.not_mem_nil
  upTo := by
    rw [held, List.append_nil]
    exact h.upTo
  le_top := h.le_top

/-- The first of what is pending, and of a record about to be, can be in the file already. -/
theorem settled_take (h : Inv b s) {o : Option α} (ho : ∀ r ∈ o, s.cursor < key r) (n : Nat) :
    b.Settled (s.filed ++ (s.pending ++ o.toList).take n) s.saved := by
  refine h.settled.append fun r hr => ?_
  rcases List.mem_append.mp (List.mem_of_mem_take hr) with hr | hr
  · exact h.above r hr
  · exact (saved_le_cursor h).trans_lt (ho r (Option.mem_toList.mp hr))

variable {e : ρ}

/-- The record that is read is the oldest of those the reader has not passed. -/
theorem records_at (h : b.entries[b.pos]? = some e) {r : α} (hr : r ∈ b.records) :
    r ∈ (b.entries.take b.pos).filterMap parse ∨ r ∈ parse e ∨
      ∀ s ∈ parse e, key s < key r := by
  obtain ⟨hpos, rfl⟩ := List.getElem?_eq_some_iff.mp h
  have hsplit : b.entries =
      b.entries.take b.pos ++ b.entries[b.pos] :: b.entries.drop (b.pos + 1) := by
    rw [← List.drop_eq_getElem_cons hpos, List.take_append_drop]
  have hrising := b.rising
  rw [RingBuffer.records, hsplit, List.filterMap_append] at hr
  rw [hsplit, List.filterMap_append, List.pairwise_append] at hrising
  rcases List.mem_append.mp hr with hr | hr
  · exact Or.inl hr
  · apply Or.inr
    cases hparse : parse b.entries[b.pos] with
    | none => exact Or.inr fun s hs => by cases hs
    | some s =>
      rw [List.filterMap_cons_some hparse] at hr hrising
      rcases List.mem_cons.mp hr with rfl | hr
      · exact Or.inl rfl
      · refine Or.inr fun t ht => ?_
        obtain rfl : s = t := Option.some.inj ht
        exact (List.pairwise_cons.mp hrising.2.1).1 r hr

theorem mem_records (h : b.entries[b.pos]? = some e) {r : α} (hr : r ∈ parse e) :
    r ∈ b.records := by
  obtain ⟨hpos, rfl⟩ := List.getElem?_eq_some_iff.mp h
  exact List.mem_filterMap.mpr ⟨_, List.getElem_mem hpos, hr⟩

variable [DecidableEq ρ]

theorem next_eq_some (h : b.next e = some b') :
    (b.entries[b.pos]? = some e ∧ b.overtaken = false) ∧ b'.entries = b.entries ∧
      b'.pos = b.pos + 1 ∧ b'.top = b.top := by
  unfold RingBuffer.next at h
  split at h
  · rename_i hnext
    obtain rfl := Option.some.inj h
    exact ⟨hnext, rfl, rfl, rfl⟩
  · cases h

theorem next_overtaken (h : b.next e = some b') : b'.overtaken = b.overtaken := by
  unfold RingBuffer.next at h
  split at h
  · obtain rfl := Option.some.inj h
    rfl
  · cases h

theorem passed_next (h : b.next e = some b') {l : List α} (hpassed : b.Passed l)
    (hl : ∀ r ∈ parse e, r ∈ l) : b'.Passed l := by
  obtain ⟨⟨hget, -⟩, hentries, hpos, -⟩ := next_eq_some h
  intro r hr
  rw [hentries, hpos, List.take_add_one, hget, Option.toList_some, RingBuffer.filterMap_concat,
    List.mem_append] at hr
  rcases hr with hr | hr
  · exact hpassed r hr
  · exact hl r (Option.mem_toList.mp hr)

/-- The reader takes the record that it reads if it is above the cursor. -/
theorem inv_next (h : Inv b s) (hpassed : b.Passed s.held) (hnext : b.next e = some b') :
    Inv b' (s.take key ((parse e).filter fun r => s.cursor < key r)) ∧
      b'.Passed (s.take key ((parse e).filter fun r => s.cursor < key r)).held := by
  obtain ⟨⟨hget, -⟩, hentries, -, htop⟩ := next_eq_some hnext
  have hlater : b.Later b' := RingBuffer.later_of_entries hentries htop
  rw [held_take]
  cases hparse : parse e with
  | none =>
    refine ⟨inv_later h hlater, passed_next hnext ?_ ?_⟩
    · simpa using hpassed
    · intro r hr
      rw [hparse] at hr
      cases hr
  | some r =>
    by_cases hnew : s.cursor < key r
    · rw [Option.filter_some_pos (by simpa using hnew)]
      constructor
      · have htake := inv_later h hlater
        refine ⟨htake.settled, (latest_concat s.saved s.pending r).symm, ?_, ?_, ?_⟩
        · intro q hq
          rcases List.mem_append.mp hq with hq | hq
          · exact h.above q hq
          · obtain rfl : q = r := List.mem_singleton.mp hq
            exact (saved_le_cursor h).trans_lt hnew
        · rw [held_take]
          intro q hq hle
          rw [RingBuffer.records, hentries] at hq
          rcases records_at hget hq with hold | hread | hnewer
          · exact List.mem_append_left _ (hpassed q hold)
          · rw [hparse] at hread
            exact List.mem_append_right _ (Option.mem_toList.mpr hread)
          · exact absurd hle (not_le.mpr (hnewer r hparse))
        · rw [htop]
          exact (b.above r (mem_records hget hparse)).2
      · refine passed_next hnext (fun q hq => List.mem_append_left _ (hpassed q hq)) ?_
        intro q hq
        rw [hparse] at hq
        exact List.mem_append_right _ (Option.mem_toList.mpr hq)
    · rw [Option.filter_some_neg (by simpa using hnew)]
      refine ⟨inv_later h hlater, passed_next hnext ?_ ?_⟩
      · simpa using hpassed
      · intro q hq
        refine List.mem_append_left _ (h.upTo q (mem_records hget hq) ?_)
        obtain rfl : r = q := Option.some.inj (hparse.symm.trans hq)
        exact not_lt.mp hnew

end Spool

end
