/-
What the polls of `EdacMonitor` come to (`monitors.py`).

A poll adds to the findings what each entry of the map that it reads has gained since the poll
before, and remembers the entry.  Each gain goes to the finding of the entry's label, which
entries may share; what the findings count together is what the entries show together, and
these show what the controllers do.
-/
import PcCheck.Judged
import PcCheck.EdacTree
import PcCheck.Lib.EventMachine
import PcCheck.Lib.Tally

namespace PcCheck

/-! ## Sums of counts -/

namespace Items

/-- The counts of the findings whose keys begin with a word, taken together. -/
def sumOf (word : String) (t : Items) : Int :=
  ((t.toList.filter fun f => decide (word.toList <+: f.key.toList)).map Finding.count).sum

theorem sum_map_filter {ι : Type} (p : ι → Bool) (f : ι → ℤ) (l : List ι) :
    ((l.filter p).map f).sum = (l.map fun i => if p i = true then f i else 0).sum := by
  induction l with
  | nil => rfl
  | cons i rest ih =>
    by_cases hi : p i = true
    · rw [List.filter_cons_of_pos hi, List.map_cons, List.map_cons, List.sum_cons, List.sum_cons,
        ih, if_pos hi]
    · rw [List.filter_cons_of_neg hi, List.map_cons, List.sum_cons, ih, if_neg hi, zero_add]

theorem sumOf_put (word : String) (t : Items) (f : Finding) :
    (t.put f).sumOf word = t.sumOf word +
      if word.toList <+: f.key.toList then f.count - t.countOf f.key else 0 := by
  have hentries : ∀ t : Items, t.sumOf word = (t.dict.entries.map fun e =>
      if decide (word.toList <+: e.2.key.toList) = true then e.2.count else 0).sum := by
    intro t
    unfold sumOf
    rw [sum_map_filter, toList, Dict.values, List.map_map]
    rfl
  rw [hentries, hentries]
  show ((Dict.place f.key f t.dict.entries).map _).sum = _
  rw [Tally.sum_place]
  congr 1
  have hold : t.get? f.key = Dict.assoc f.key t.dict.entries := rfl
  unfold countOf
  rw [hold]
  cases hassoc : Dict.assoc f.key t.dict.entries with
  | none =>
    by_cases hword : word.toList <+: f.key.toList <;> simp [hword]
  | some e =>
    have hkey : e.key = f.key := t.keyed f.key e hassoc
    by_cases hword : word.toList <+: f.key.toList <;> simp [hword, hkey]

end Items

namespace Store

variable {s : Store} {c : AddCall} {word : String}

theorem sumOf_add (hc : 1 ≤ c.count) (ok : Bool) : (s.add c ok).mem.items.sumOf word =
    s.mem.items.sumOf word + if word.toList <+: c.key.toList then c.count else 0 := by
  have hcount : (s.mem.recorded c).count = s.mem.items.countOf c.key + c.count := by
    have hself := countOf_add s hc ok c.key
    rw [if_pos rfl] at hself
    have hget : (s.add c ok).mem.items.get? c.key = some (s.mem.recorded c) := by
      rw [get?_add, if_pos rfl]
    rw [Findings.countOf_of_get? hget] at hself
    exact hself
  rw [add_items, Items.sumOf_put, Findings.recorded_key, hcount, add_sub_cancel_left]

theorem sumOf_escalate (c : EscalateCall) (ok : Bool) :
    (s.escalate c ok).mem.items.sumOf word = s.mem.items.sumOf word := by
  rw [escalate_items]
  rcases s.mem.raise_items c with heq | ⟨f, hf, -, heq⟩
  · rw [heq]
  · have hcount : s.mem.items.countOf (f.raise c).key = (f.raise c).count := by
      have hget : s.mem.countOf c.key = f.count := Findings.countOf_of_get? hf
      rw [Findings.raise_key_eq hf]
      exact hget.trans (Finding.worsen_count ..).symm
    rw [heq, Items.sumOf_put, hcount, sub_self, ite_self, add_zero]

/-- A call on another finding leaves the sum alone. -/
theorem sumOf_call {c : Call} {ok : Bool} (hc : ¬ word.toList <+: c.key.toList) :
    (s.call c ok).mem.items.sumOf word = s.mem.items.sumOf word := by
  cases c with
  | add c =>
    show (s.add c ok).mem.items.sumOf word = _
    rw [add_items, Items.sumOf_put, Findings.recorded_key]
    exact (congrArg _ (if_neg hc)).trans (add_zero _)
  | escalate c => exact sumOf_escalate c ok

theorem sumOf_addJudged (hc : 1 ≤ c.count) {threshold : Int} {added escalated : Bool} :
    (s.addJudged c threshold added escalated).mem.items.sumOf word =
      s.mem.items.sumOf word + if word.toList <+: c.key.toList then c.count else 0 := by
  unfold addJudged
  split
  · rw [sumOf_escalate, sumOf_add hc]
  · exact sumOf_add hc added

end Store

namespace Edac

open EventMachine

/-! ## The counters over time -/

namespace Controller

/-- The totals are those of the DIMMs and of the errors that no DIMM is known of. -/
def Consistent (mc : Controller) : Prop :=
  mc.ce = mc.dimmCe + mc.ceNoinfo ∧ mc.ue = mc.dimmUe + mc.ueNoinfo

/-- The driver shows no more than the totals. -/
def TotalsOnly (mc : Controller) : Prop :=
  mc.dimms = [] ∧ mc.ceNoinfo = 0 ∧ mc.ueNoinfo = 0

end Controller

def Dimm.Grown (a b : Dimm) : Prop := a.name = b.name ∧ a.ce ≤ b.ce ∧ a.ue ≤ b.ue

/-- The same controller later: its labels may have changed. -/
structure Controller.Grown (a b : Controller) : Prop where
  name : a.name = b.name
  dimms : List.Forall₂ Dimm.Grown a.dimms b.dimms
  ce : a.ce ≤ b.ce
  ue : a.ue ≤ b.ue
  ceNoinfo : a.ceNoinfo ≤ b.ceNoinfo
  ueNoinfo : a.ueNoinfo ≤ b.ueNoinfo

namespace Tree

def Grown (a b : Tree) : Prop := List.Forall₂ Controller.Grown a.controllers b.controllers

def Sound (tree : Tree) : Prop := ∀ mc ∈ tree.controllers, mc.Consistent ∨ mc.TotalsOnly

/-- The corrected errors that the controllers show. -/
def ce (tree : Tree) : Nat := (tree.controllers.map Controller.ce).sum

def ue (tree : Tree) : Nat := (tree.controllers.map Controller.ue).sum

def rows (tree : Tree) : List EdacRow :=
  (edacCounts tree).entries.map fun (key, label, ce, ue) => ⟨key, label, ce, ue⟩

end Tree

/-! ## The machine -/

structure World where
  store : Store
  /-- `per_boot_counters("edac")` -/
  seen : Dict String (Nat × Nat) := Dict.empty
  /-- What the last poll read. -/
  last : Option Tree := none

/-- For each key of the map, the time and the outcomes of the writes. -/
structure Writes where
  now : String → String
  ceAdded : String → Bool
  escalated : String → Bool
  ueAdded : String → Bool

inductive Event where
  | poll (tree : Tree) (o : Writes)
  /-- A call of another thread on the findings. -/
  | call (c : Call) (ok : Bool)

def ceWord : String := "memory-ce:"

def ueWord : String := "memory-ue:"

def isMemoryKey (k : String) : Prop := ceWord.toList <+: k.toList ∨ ueWord.toList <+: k.toList

instance : DecidablePred isMemoryKey := fun k =>
  inferInstanceAs (Decidable (ceWord.toList <+: k.toList ∨ ueWord.toList <+: k.toList))

namespace World

variable (w : World)

def before (key : String) : Nat × Nat := (w.seen.get? key).getD (0, 0)

/-- One entry of `EdacMonitor.poll`. -/
def pollRow (opts : Options) (o : Writes) (w : World) (r : EdacRow) : World :=
  let s := r.countCe opts (w.before r.key).1 (o.now r.key) (o.ceAdded r.key) (o.escalated r.key)
    w.store
  { w with
    store := r.countUe (w.before r.key).2 (o.now r.key) (o.ueAdded r.key) s
    seen := w.seen.set r.key (r.ce, r.ue) }

def poll (opts : Options) (o : Writes) (tree : Tree) : World :=
  { tree.rows.foldl (pollRow opts o) w with last := some tree }

end World

def step (opts : Options) (w : World) : Event → Option World
  | .poll tree o => some (w.poll opts o tree)
  | .call c ok =>
    if isMemoryKey c.key then none else some { w with store := w.store.call c ok }

def opened (s : Store) : World := { store := s }

/-- The counters that a poll reads are sound, and none is lower than at the poll before. -/
def Rising (w : World) : Event → Prop
  | .poll tree _ => tree.Sound ∧ ∀ old, w.last = some old → old.Grown tree
  | .call _ _ => True

/-- What is on record is what the controllers showed last. -/
structure Exact (opts : Options) (w : World) : Prop where
  ce : ∀ tree, w.last = some tree → w.store.mem.items.sumOf ceWord = tree.ce
  ue : ∀ tree, w.last = some tree → w.store.mem.items.sumOf ueWord = tree.ue
  judged : ∀ f ∈ w.store.mem.items.toList, ceWord.toList <+: f.key.toList →
    (f.severity = .fail ↔ opts.ceFail ≤ f.count)
  /-- A poll of the same counters changes nothing. -/
  quiet : ∀ tree o, w.last = some tree → w.poll opts o tree = w

/-! ## The entries of sound counters -/

section Entries

variable {mc a b : Controller} {tree old : Tree}

/-- What the controller shows of no DIMM is what its total has beyond them. -/
theorem noinfo_of_sound (h : mc.Consistent ∨ mc.TotalsOnly) :
    mc.dimmCe + max mc.ceNoinfo (mc.ce - mc.dimmCe) = mc.ce ∧
      mc.dimmUe + max mc.ueNoinfo (mc.ue - mc.dimmUe) = mc.ue := by
  rcases h with ⟨hce, hue⟩ | ⟨hdimms, hce, hue⟩
  · omega
  · have hnoce : mc.dimmCe = 0 := by rw [Controller.dimmCe, hdimms]; rfl
    have hnoue : mc.dimmUe = 0 := by rw [Controller.dimmUe, hdimms]; rfl
    omega

theorem sum_entries (h : mc.Consistent ∨ mc.TotalsOnly) :
    (mc.entries.map fun e => e.2.2.1).sum = mc.ce ∧
      (mc.entries.map fun e => e.2.2.2).sum = mc.ue := by
  obtain ⟨hce, hue⟩ := noinfo_of_sound h
  unfold Controller.entries
  rw [List.map_append, List.map_append, List.sum_append, List.sum_append, List.map_map,
    List.map_map]
  exact ⟨hce, hue⟩

theorem rows_eq (tree : Tree) : tree.rows =
    (tree.controllers.flatMap Controller.entries).map
      fun (key, label, ce, ue) => ⟨key, label, ce, ue⟩ := by
  rw [Tree.rows, entries_edacCounts]

theorem sum_flatMap (l : List Controller) (f : String × String × Nat × Nat → Nat)
    (g : Controller → Nat) (h : ∀ mc ∈ l, (mc.entries.map f).sum = g mc) :
    ((l.flatMap Controller.entries).map f).sum = (l.map g).sum := by
  induction l with
  | nil => rfl
  | cons mc rest ih =>
    rw [List.flatMap_cons, List.map_append, List.sum_append, List.map_cons, List.sum_cons,
      h mc List.mem_cons_self, ih fun mc' hmc' => h mc' (List.mem_cons_of_mem _ hmc')]

/-- The entries show together what the controllers do. -/
theorem sum_rows (h : tree.Sound) :
    (tree.rows.map EdacRow.ce).sum = tree.ce ∧ (tree.rows.map EdacRow.ue).sum = tree.ue := by
  rw [rows_eq, List.map_map, List.map_map]
  exact ⟨sum_flatMap _ _ _ fun mc hmc => (sum_entries (h mc hmc)).1,
    sum_flatMap _ _ _ fun mc hmc => (sum_entries (h mc hmc)).2⟩

theorem rows_nodup (tree : Tree) : (tree.rows.map EdacRow.key).Nodup := by
  unfold Tree.rows
  rw [List.map_map]
  exact (edacCounts tree).nodup

def RowGrown (r r' : EdacRow) : Prop := r.key = r'.key ∧ r.ce ≤ r'.ce ∧ r.ue ≤ r'.ue

def EntryGrown (e e' : String × String × Nat × Nat) : Prop :=
  e.1 = e'.1 ∧ e.2.2.1 ≤ e'.2.2.1 ∧ e.2.2.2 ≤ e'.2.2.2

theorem noinfo_grown (h : a.Grown b) (ha : a.Consistent ∨ a.TotalsOnly)
    (hb : b.Consistent ∨ b.TotalsOnly) :
    max a.ceNoinfo (a.ce - a.dimmCe) ≤ max b.ceNoinfo (b.ce - b.dimmCe) ∧
      max a.ueNoinfo (a.ue - a.dimmUe) ≤ max b.ueNoinfo (b.ue - b.dimmUe) := by
  have hempty : a.dimms = [] ↔ b.dimms = [] := by
    rw [← List.length_eq_zero_iff, ← List.length_eq_zero_iff, h.dimms.length_eq]
  by_cases hdimms : a.dimms = []
  · -- With no DIMM the entry is the total in either case.
    have hce : a.dimmCe = 0 := by rw [Controller.dimmCe, hdimms]; rfl
    have hue : a.dimmUe = 0 := by rw [Controller.dimmUe, hdimms]; rfl
    have hce' : b.dimmCe = 0 := by rw [Controller.dimmCe, hempty.mp hdimms]; rfl
    have hue' : b.dimmUe = 0 := by rw [Controller.dimmUe, hempty.mp hdimms]; rfl
    have := noinfo_of_sound ha
    have := noinfo_of_sound hb
    have := h.ce
    have := h.ue
    omega
  · have hab : a.Consistent := ha.resolve_right fun htotals => hdimms htotals.1
    have hbb : b.Consistent := hb.resolve_right fun htotals => hdimms (hempty.mpr htotals.1)
    obtain ⟨hce, hue⟩ := hab
    obtain ⟨hce', hue'⟩ := hbb
    have := h.ceNoinfo
    have := h.ueNoinfo
    omega

theorem mem_of_grown {l l' : List EdacRow} (h : List.Forall₂ RowGrown l l') {r : EdacRow}
    (hr : r ∈ l') : ∃ r' ∈ l, RowGrown r' r := by
  induction h with
  | nil => cases hr
  | cons hab _ ih =>
    rcases List.mem_cons.mp hr with rfl | hrest
    · exact ⟨_, List.mem_cons_self, hab⟩
    · obtain ⟨r', hr', hgrown⟩ := ih hrest
      exact ⟨r', List.mem_cons_of_mem _ hr', hgrown⟩

theorem entries_grown (h : a.Grown b) (ha : a.Consistent ∨ a.TotalsOnly)
    (hb : b.Consistent ∨ b.TotalsOnly) : List.Forall₂ EntryGrown a.entries b.entries := by
  have hbase : a.base = b.base := by rw [Controller.base, h.name, Controller.base]
  obtain ⟨hce, hue⟩ := noinfo_grown h ha hb
  unfold Controller.entries
  refine List.rel_append ?_ (List.Forall₂.cons ⟨?_, hce, hue⟩ List.Forall₂.nil)
  · rw [List.forall₂_map_left_iff, List.forall₂_map_right_iff]
    refine h.dimms.imp fun d d' hd => ⟨?_, hd.2.1, hd.2.2⟩
    show a.base ++ d.name = b.base ++ d'.name
    rw [hbase, hd.1]
  · show a.base ++ "noinfo" = b.base ++ "noinfo"
    rw [hbase]

theorem rows_grown (h : old.Grown tree) (hold : old.Sound) (htree : tree.Sound) :
    List.Forall₂ RowGrown old.rows tree.rows := by
  rw [rows_eq, rows_eq, List.forall₂_map_left_iff, List.forall₂_map_right_iff]
  unfold Tree.Grown at h
  unfold Tree.Sound at hold htree
  generalize old.controllers = l at h hold
  generalize tree.controllers = l' at h htree
  induction h with
  | nil => exact List.Forall₂.nil
  | cons hmc _ ih =>
    rw [List.flatMap_cons, List.flatMap_cons]
    refine List.rel_append (entries_grown hmc (hold _ List.mem_cons_self)
      (htree _ List.mem_cons_self)) (ih (fun mc hmc => hold mc (List.mem_cons_of_mem _ hmc))
        fun mc hmc => htree mc (List.mem_cons_of_mem _ hmc))

end Entries

/-! ## One entry -/

section Rows

variable {opts : Options} {o : Writes} {w : World} {r : EdacRow}

theorem initial_append (word label : String) : word.toList <+: (word ++ label).toList := by
  rw [String.toList_append]
  exact List.prefix_append _ _

theorem not_initial (label : String) :
    ¬ ceWord.toList <+: (EdacRow.ueKey label).toList ∧
      ¬ ueWord.toList <+: (EdacRow.ceKey label).toList := by
  have hne : ∀ a b : String, ceWord ++ a ≠ ueWord ++ b :=
    append_ne_append 10 (by decide) (by decide) (by decide)
  have hlist : ∀ word rest, (word ++ String.ofList rest).toList = word.toList ++ rest := by
    intro word rest
    rw [String.toList_append, String.toList_ofList]
  constructor
  · rintro ⟨rest, h⟩
    exact hne (String.ofList rest) label (String.toList_inj.mp ((hlist ceWord rest).trans h))
  · rintro ⟨rest, h⟩
    exact hne label (String.ofList rest) (String.toList_inj.mp ((hlist ueWord rest).trans h)).symm

section CountCe

variable {prev : Nat} {now : String} {added escalated : Bool} {s : Store}

theorem countCe_eq : r.countCe opts prev now added escalated s =
    if prev < r.ce then s.addJudged (r.ceCall prev now) opts.ceFail added escalated else s := rfl

/-- The corrected errors of an entry: what is added, and where. -/
theorem countCe_spec (h : prev ≤ r.ce) :
    (r.countCe opts prev now added escalated s).mem.items.sumOf ceWord =
        s.mem.items.sumOf ceWord + ((r.ce : Int) - prev) ∧
      (r.countCe opts prev now added escalated s).mem.items.sumOf ueWord =
        s.mem.items.sumOf ueWord := by
  rw [countCe_eq]
  by_cases hlt : prev < r.ce
  · have hcount : 1 ≤ (r.ceCall prev now).count := by
      show 1 ≤ (r.ce : Int) - prev
      omega
    rw [if_pos hlt, Store.sumOf_addJudged hcount, Store.sumOf_addJudged hcount]
    have hother : ¬ ueWord.toList <+: (r.ceCall prev now).key.toList := (not_initial r.label).2
    refine ⟨congrArg _ (if_pos (initial_append ceWord r.label)), ?_⟩
    rw [if_neg hother, add_zero]
  · rw [if_neg hlt]
    omega

theorem judged_countCe (h : ∀ k, ceWord.toList <+: k.toList → s.mem.items.JudgedBy k opts.ceFail)
    {k : String} (hk : ceWord.toList <+: k.toList) :
    (r.countCe opts prev now added escalated s).mem.items.JudgedBy k opts.ceFail := by
  rw [countCe_eq]
  by_cases hlt : prev < r.ce
  · have hcount : 1 ≤ (r.ceCall prev now).count := by
      show 1 ≤ (r.ce : Int) - prev
      omega
    have hwarn : (r.ceCall prev now).severity ≠ .fail := Severity.noConfusion
    rw [if_pos hlt]
    by_cases hkey : k = (r.ceCall prev now).key
    · subst hkey
      exact Store.judged_addJudged hwarn hcount (h _ hk)
    · exact Store.judged_addJudged_ne hkey (h k hk)
  · rw [if_neg hlt]
    exact h k hk

theorem countUe_spec (h : prev ≤ r.ue) :
    (r.countUe prev now added s).mem.items.sumOf ueWord =
        s.mem.items.sumOf ueWord + ((r.ue : Int) - prev) ∧
      (r.countUe prev now added s).mem.items.sumOf ceWord = s.mem.items.sumOf ceWord := by
  unfold EdacRow.countUe
  by_cases hlt : prev < r.ue
  · have hcount : 1 ≤ (r.ueCall prev now).count := by
      show 1 ≤ (r.ue : Int) - prev
      omega
    rw [if_pos hlt, Store.sumOf_add hcount, Store.sumOf_add hcount]
    have hother : ¬ ceWord.toList <+: (r.ueCall prev now).key.toList := (not_initial r.label).1
    refine ⟨congrArg _ (if_pos (initial_append ueWord r.label)), ?_⟩
    rw [if_neg hother, add_zero]
  · rw [if_neg hlt]
    omega

/-- The uncorrected errors are no business of the other findings. -/
theorem get?_countUe {k : String} (hk : ceWord.toList <+: k.toList) :
    (r.countUe prev now added s).mem.items.get? k = s.mem.items.get? k := by
  unfold EdacRow.countUe
  split
  · have hne : k ≠ (r.ueCall prev now).key := by
      rintro rfl
      exact (not_initial r.label).1 hk
    rw [Store.get?_add, if_neg hne]
  · rfl

end CountCe

/-- What entries that have been polled have added. -/
structure Polled (opts : Options) (w v : World) (l : List EdacRow) : Prop where
  ce : v.store.mem.items.sumOf ceWord = w.store.mem.items.sumOf ceWord +
    (l.map fun r => (r.ce : Int) - (w.before r.key).1).sum
  ue : v.store.mem.items.sumOf ueWord = w.store.mem.items.sumOf ueWord +
    (l.map fun r => (r.ue : Int) - (w.before r.key).2).sum
  judged : ∀ k, ceWord.toList <+: k.toList → v.store.mem.items.JudgedBy k opts.ceFail
  seen : ∀ r ∈ l, v.seen.get? r.key = some (r.ce, r.ue)
  others : ∀ k, k ∉ l.map EdacRow.key → v.seen.get? k = w.seen.get? k

theorem pollRow_spec (hce : (w.before r.key).1 ≤ r.ce) (hue : (w.before r.key).2 ≤ r.ue)
    (hjudged : ∀ k, ceWord.toList <+: k.toList → w.store.mem.items.JudgedBy k opts.ceFail) :
    Polled opts w (w.pollRow opts o r) [r] := by
  let s := r.countCe opts (w.before r.key).1 (o.now r.key) (o.ceAdded r.key) (o.escalated r.key)
    w.store
  have hstore : (w.pollRow opts o r).store =
      r.countUe (w.before r.key).2 (o.now r.key) (o.ueAdded r.key) s := rfl
  obtain ⟨hcce, hcue⟩ : s.mem.items.sumOf ceWord = _ ∧ s.mem.items.sumOf ueWord = _ :=
    countCe_spec hce
  obtain ⟨huue, huce⟩ : (w.pollRow opts o r).store.mem.items.sumOf ueWord = _ ∧
      (w.pollRow opts o r).store.mem.items.sumOf ceWord = _ := countUe_spec hue
  refine ⟨?_, ?_, fun k hk => ?_, fun r' hr' => ?_, fun k hk => ?_⟩
  · rw [huce, hcce, List.map_cons, List.map_nil, List.sum_singleton]
  · rw [huue, hcue, List.map_cons, List.map_nil, List.sum_singleton]
  · rw [hstore]
    exact (judged_countCe hjudged hk).congr (get?_countUe hk)
  · obtain rfl := List.mem_singleton.mp hr'
    show (w.seen.set r'.key (r'.ce, r'.ue)).get? r'.key = _
    rw [Dict.get?_set, if_pos rfl]
  · have hne : k ≠ r.key := fun heq => hk (heq ▸ List.mem_cons_self)
    show (w.seen.set r.key (r.ce, r.ue)).get? k = _
    rw [Dict.get?_set, if_neg hne]

/-- All entries of a poll, which are about different keys. -/
theorem foldl_spec (l : List EdacRow) (w : World) (hnodup : (l.map EdacRow.key).Nodup)
    (hle : ∀ r ∈ l, (w.before r.key).1 ≤ r.ce ∧ (w.before r.key).2 ≤ r.ue)
    (hjudged : ∀ k, ceWord.toList <+: k.toList → w.store.mem.items.JudgedBy k opts.ceFail) :
    Polled opts w (l.foldl (World.pollRow opts o) w) l := by
  induction l generalizing w with
  | nil =>
    exact ⟨(add_zero _).symm, (add_zero _).symm, hjudged, fun _ hr => (nomatch hr),
      fun _ _ => rfl⟩
  | cons r rest ih =>
    obtain ⟨hfresh, hrest⟩ := List.nodup_cons.mp hnodup
    obtain ⟨hce, hue⟩ := hle r List.mem_cons_self
    have hone := pollRow_spec (o := o) hce hue hjudged
    have hsame : ∀ r' ∈ rest, (w.pollRow opts o r).before r'.key = w.before r'.key := by
      intro r' hr'
      have hne : r'.key ≠ r.key := fun heq => hfresh (heq ▸ List.mem_map_of_mem hr')
      unfold World.before
      rw [hone.others r'.key fun hmem => hne (List.mem_singleton.mp hmem)]
    have hmore := ih (w.pollRow opts o r) hrest (fun r' hr' => by
      rw [hsame r' hr']
      exact hle r' (List.mem_cons_of_mem _ hr')) hone.judged
    have hkeep : ∀ f : Nat × Nat → Nat, ∀ g : EdacRow → Nat,
        (rest.map fun r' => (g r' : Int) - f ((w.pollRow opts o r).before r'.key)).sum =
          (rest.map fun r' => (g r' : Int) - f (w.before r'.key)).sum := fun f g =>
      congrArg List.sum (List.map_congr_left fun r' hr' => by rw [hsame r' hr'])
    rw [List.foldl_cons]
    refine ⟨?_, ?_, hmore.judged, fun r' hr' => ?_, fun k hk => ?_⟩
    · rw [hmore.ce, hone.ce, hkeep Prod.fst EdacRow.ce, List.map_cons, List.map_cons, List.map_nil,
        List.sum_cons, List.sum_cons, List.sum_nil, add_zero, add_assoc]
    · rw [hmore.ue, hone.ue, hkeep Prod.snd EdacRow.ue, List.map_cons, List.map_cons, List.map_nil,
        List.sum_cons, List.sum_cons, List.sum_nil, add_zero, add_assoc]
    · rcases List.mem_cons.mp hr' with rfl | hin
      · rw [hmore.others r'.key hfresh]
        exact hone.seen r' List.mem_cons_self
      · exact hmore.seen r' hin
    · rw [List.map_cons, List.mem_cons, not_or] at hk
      rw [hmore.others k hk.2, hone.others k fun hmem => hk.1 (List.mem_singleton.mp hmem)]

/-- Entries that are as they were seen change nothing. -/
theorem foldl_quiet (l : List EdacRow) (w : World)
    (h : ∀ r ∈ l, w.seen.get? r.key = some (r.ce, r.ue)) :
    l.foldl (World.pollRow opts o) w = w := by
  induction l with
  | nil => rfl
  | cons r rest ih =>
    have hseen := h r List.mem_cons_self
    have hbefore : w.before r.key = (r.ce, r.ue) := by rw [World.before, hseen]; rfl
    have hrow : w.pollRow opts o r = w := by
      unfold World.pollRow
      dsimp only
      rw [hbefore, countCe_eq, if_neg (lt_irrefl r.ce)]
      unfold EdacRow.countUe
      rw [if_neg (lt_irrefl r.ue), Dict.set_of_get? hseen]
    rw [List.foldl_cons, hrow]
    exact ih fun r' hr' => h r' (List.mem_cons_of_mem _ hr')

end Rows

/-! ## All polls -/

structure Inv (opts : Options) (w : World) : Prop where
  sound : ∀ tree, w.last = some tree → tree.Sound
  seen : ∀ tree, w.last = some tree → ∀ r ∈ tree.rows, w.seen.get? r.key = some (r.ce, r.ue)
  fresh : w.last = none → w.seen = Dict.empty
  ce : w.store.mem.items.sumOf ceWord = ((w.last.elim 0 Tree.ce : Nat) : Int)
  ue : w.store.mem.items.sumOf ueWord = ((w.last.elim 0 Tree.ue : Nat) : Int)
  judged : ∀ k, ceWord.toList <+: k.toList → w.store.mem.items.JudgedBy k opts.ceFail

section Runs

variable {opts : Options} {w v : World} {s : Store}

/-- What the entries gain between two polls is what their sum does. -/
theorem sum_gains {l l' : List EdacRow} (hgrown : List.Forall₂ RowGrown l l')
    (f : EdacRow → Nat) (g : Nat × Nat → Nat) (before : String → Nat × Nat)
    (h : ∀ r ∈ l, g (before r.key) = f r) :
    (l'.map fun r => (f r : Int) - g (before r.key)).sum =
      ((l'.map f).sum : Nat) - ((l.map f).sum : Nat) := by
  induction hgrown with
  | nil => rfl
  | @cons r r' rest rest' hr _ ih =>
    have hsame : g (before r'.key) = f r := by
      rw [← hr.1]
      exact h r List.mem_cons_self
    have hrest := ih fun r hr => h r (List.mem_cons_of_mem _ hr)
    simp only [List.map_cons, List.sum_cons, hsame, hrest]
    push_cast
    ring

theorem sum_fresh (l : List EdacRow) (f : EdacRow → Nat) :
    (l.map fun r => (f r : Int) - (0 : Nat)).sum = ((l.map f).sum : Nat) := by
  induction l with
  | nil => rfl
  | cons r rest ih =>
    rw [List.map_cons, List.map_cons, List.sum_cons, List.sum_cons, ih]
    push_cast
    ring

theorem Inv.poll (h : Inv opts w) {tree : Tree} (o : Writes) (hsound : tree.Sound)
    (hgrown : ∀ old, w.last = some old → old.Grown tree) : Inv opts (w.poll opts o tree) := by
  have hce : (tree.rows.map EdacRow.ce).sum = tree.ce := (sum_rows hsound).1
  have hue : (tree.rows.map EdacRow.ue).sum = tree.ue := (sum_rows hsound).2
  -- What was seen before is what the poll before has read, or nothing.
  have hgains : (∀ r ∈ tree.rows, (w.before r.key).1 ≤ r.ce ∧ (w.before r.key).2 ≤ r.ue) ∧
      (tree.rows.map fun r => (r.ce : Int) - (w.before r.key).1).sum =
        tree.ce - ((w.last.elim 0 Tree.ce : Nat) : Int) ∧
      (tree.rows.map fun r => (r.ue : Int) - (w.before r.key).2).sum =
        tree.ue - ((w.last.elim 0 Tree.ue : Nat) : Int) := by
    cases hlast : w.last with
    | none =>
      have hbefore : ∀ k, w.before k = (0, 0) := fun k => by
        rw [World.before, h.fresh hlast]
        rfl
      simp only [hbefore]
      rw [sum_fresh, sum_fresh, hce, hue]
      exact ⟨fun r _ => ⟨Nat.zero_le _, Nat.zero_le _⟩, (sub_zero _).symm, (sub_zero _).symm⟩
    | some old =>
      have hrows := rows_grown (hgrown old hlast) (h.sound old hlast) hsound
      have hbefore : ∀ r ∈ old.rows, w.before r.key = (r.ce, r.ue) := fun r hr => by
        rw [World.before, h.seen old hlast r hr]
        rfl
      refine ⟨fun r hr => ?_, ?_, ?_⟩
      · obtain ⟨r', hr', hkey, hle⟩ := mem_of_grown hrows hr
        rw [← hkey, hbefore r' hr']
        exact hle
      · rw [sum_gains hrows EdacRow.ce Prod.fst w.before fun r hr => by rw [hbefore r hr], hce,
          (sum_rows (h.sound old hlast)).1]
        rfl
      · rw [sum_gains hrows EdacRow.ue Prod.snd w.before fun r hr => by rw [hbefore r hr], hue,
          (sum_rows (h.sound old hlast)).2]
        rfl
  obtain ⟨hle, hceGain, hueGain⟩ := hgains
  have hpolled := foldl_spec (o := o) tree.rows w (rows_nodup tree) hle h.judged
  refine ⟨fun t ht => ?_, fun t ht => ?_, nofun, ?_, ?_, hpolled.judged⟩
  · obtain rfl := Option.some.inj ht
    exact hsound
  · obtain rfl := Option.some.inj ht
    exact hpolled.seen
  · exact hpolled.ce.trans (by rw [h.ce, hceGain]; exact add_sub_cancel _ _)
  · exact hpolled.ue.trans (by rw [h.ue, hueGain]; exact add_sub_cancel _ _)

theorem Inv.call (h : Inv opts w) {c : Call} (ok : Bool) (hc : ¬ isMemoryKey c.key) :
    Inv opts { w with store := w.store.call c ok } := by
  obtain ⟨hce, hue⟩ := not_or.mp hc
  refine ⟨h.sound, h.seen, h.fresh, ?_, ?_, fun k hk => ?_⟩
  · exact (Store.sumOf_call hce).trans h.ce
  · exact (Store.sumOf_call hue).trans h.ue
  · have hne : k ≠ c.key := fun heq => hce (heq ▸ hk)
    exact (h.judged k hk).congr (Store.get?_call_ne hne)

theorem Inv.step {e : Event} (h : Inv opts w) (hrising : Rising w e)
    (hstep : step opts w e = some v) : Inv opts v := by
  cases e with
  | poll tree o =>
    obtain rfl := Option.some.inj hstep
    exact h.poll o hrising.1 hrising.2
  | call c ok =>
    obtain ⟨hother, heq⟩ := Option.ite_none_left_eq_some.mp hstep
    obtain rfl := Option.some.inj heq
    exact h.call ok hother

theorem sumOf_of_none {t : Items} {word : String}
    (h : ∀ k, word.toList <+: k.toList → t.get? k = none) : t.sumOf word = 0 := by
  have hnil : (t.toList.filter fun f => decide (word.toList <+: f.key.toList)) = [] := by
    refine List.filter_eq_nil_iff.mpr fun f hf hword => ?_
    have hget := Items.mem_toList_iff.mp hf
    rw [h f.key (of_decide_eq_true hword)] at hget
    cases hget
  unfold Items.sumOf
  rw [hnil]
  rfl

theorem inv_opened (h : ∀ k, isMemoryKey k → s.mem.items.get? k = none) :
    Inv opts (opened s) := by
  refine ⟨nofun, nofun, fun _ => rfl, ?_, ?_, fun k hk hsome => ?_⟩
  · exact sumOf_of_none fun k hk => h k (Or.inl hk)
  · exact sumOf_of_none fun k hk => h k (Or.inr hk)
  · have hnone : (opened s).store.mem.items.get? k = none := h k (Or.inl hk)
    rw [hnone] at hsome
    cases hsome

theorem Inv.exact (h : Inv opts w) : Exact opts w := by
  refine ⟨fun tree ht => ?_, fun tree ht => ?_, fun f hf hword => ?_, fun tree o ht => ?_⟩
  · have hce := h.ce
    rw [ht] at hce
    exact hce
  · have hue := h.ue
    rw [ht] at hue
    exact hue
  · have hget := Items.mem_toList_iff.mp hf
    have hjudged := h.judged f.key hword (by rw [hget]; rfl)
    have hcount : w.store.mem.items.countOf f.key = f.count := Findings.countOf_of_get? hget
    rw [hcount] at hjudged
    rw [← hjudged]
    constructor
    · exact fun hfail => ⟨f, hget, hfail⟩
    · rintro ⟨g, hg, hfail⟩
      obtain rfl := Option.some.inj (hget.symm.trans hg)
      exact hfail
  · unfold World.poll
    rw [foldl_quiet tree.rows w (h.seen tree ht), ← ht]

end Runs

/-- The polls of a process over counters that rise: what is on record is what the controllers
showed last, neither more nor less. -/
theorem totals_exact (opts : Options) {s : Store} {es : List Event} {w : World}
    (hfresh : ∀ k, isMemoryKey k → s.mem.items.get? k = none)
    (hrising : Along (step opts) Rising (opened s) es)
    (hrun : run (step opts) (opened s) es = some w) : Exact opts w :=
  (run_preserves_along (fun _ _ _ h hC ht => Inv.step h hC ht) (inv_opened hfresh) hrising
    hrun).exact

/-- A controller with one DIMM, and one that shows no more than its total. -/
def twoControllers (dimmCe : Nat) : Tree where
  controllers :=
    [{ name := "mc1", ce := dimmCe + 1, ceNoinfo := 1, noSlash := by decide +kernel,
       dimmDirs := [{ name := "dimm0", ce := dimmCe, noSlash := by decide +kernel,
                      isNumbered := by decide }],
       dimmsNodup := List.nodup_singleton _ },
     { name := "mc10", ce := 5, noSlash := by decide +kernel }]
  nodup := by
    have hnames : ["mc1", "mc10"].Nodup := by decide
    exact hnames

theorem twoControllers_sound (n : Nat) : (twoControllers n).Sound :=
  List.forall_mem_cons.mpr ⟨Or.inl ⟨rfl, rfl⟩,
    List.forall_mem_cons.mpr ⟨Or.inr ⟨rfl, rfl, rfl⟩, fun _ h => nomatch h⟩⟩

theorem twoControllers_grown {m n : Nat} (h : m ≤ n) :
    (twoControllers m).Grown (twoControllers n) := by
  refine List.Forall₂.cons ⟨rfl, ?_, Nat.succ_le_succ h, le_rfl, le_rfl, le_rfl⟩
    (List.Forall₂.cons ⟨rfl, List.Forall₂.nil, le_rfl, le_rfl, le_rfl, le_rfl⟩ List.Forall₂.nil)
  exact List.Forall₂.cons ⟨rfl, h, le_rfl⟩ List.Forall₂.nil

def allWritten : Writes := ⟨fun _ => "", fun _ => true, fun _ => true, fun _ => true⟩

def twoPolls : List Event :=
  [.poll (twoControllers 2) allWritten, .poll (twoControllers 4) allWritten]

def emptyStore : Store := { mem := Findings.new, files := RotatingFiles.empty }

theorem twoPolls_rising : Along (step {}) Rising (opened emptyStore) twoPolls := by
  refine ⟨⟨twoControllers_sound 2, nofun⟩, fun t ht => ?_⟩
  obtain rfl := Option.some.inj ht
  refine ⟨⟨twoControllers_sound 4, fun old hold => ?_⟩, fun _ _ => trivial⟩
  obtain rfl := Option.some.inj hold
  exact twoControllers_grown (by decide)

theorem totals_exact_twoPolls :
    ∃ w, run (step {}) (opened emptyStore) twoPolls = some w ∧
      w.store.mem.items.sumOf ceWord = 10 ∧ Exact {} w := by
  have hsum : (run (step {}) (opened emptyStore) twoPolls).map
      (fun w => w.store.mem.items.sumOf ceWord) = some 10 := by decide +kernel
  obtain ⟨w, hw, hten⟩ := Option.map_eq_some_iff.mp hsum
  exact ⟨w, hw, hten, totals_exact {} (fun _ _ => rfl) twoPolls_rising hw⟩

end Edac
end PcCheck
