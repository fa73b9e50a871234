/-
The balance of a count.

A count is what the cursors have passed, with what a poll has added and not yet passed, and
with whatever the files disagreed about when the process was started.  What the cursors have
passed changes only when one of them takes a reading or a row: new errors and new rows are
ahead of every cursor.
-/
import PcCheck.CountRuns
import PcCheck.Lib.Tally

namespace PcCheck
namespace CountRuns

theorem RasTable.name_injective : Function.Injective RasTable.name := by
  intro a b h
  cases a <;> cases b <;> first | rfl | exact absurd h (by decide)

namespace Cursors

variable (c : Cursors)

theorem seen_set (key k : String) (v : Nat × Nat) :
    ({ c with edac := c.edac.set key v } : Cursors).seen k = if k = key then v else c.seen k := by
  unfold seen
  rw [Dict.get?_set]
  split <;> rfl

theorem last_set (t u : RasTable) (n : Nat) :
    ({ c with ras := c.ras.set t.name n } : Cursors).last u = if u = t then n else c.last u := by
  unfold last
  rw [Dict.get?_set]
  by_cases hut : u = t
  · rw [if_pos hut, if_pos (congrArg RasTable.name hut)]
    rfl
  · rw [if_neg hut, if_neg fun hname => hut (RasTable.name_injective hname)]

end Cursors

/-- What the cursors have passed, by the key it is counted under. -/
def edacCredit (rows : List EdacRow) (c : Cursors) (k : String) : Int :=
  (rows.map fun r => if k = EdacRow.ceKey r.label then ((c.seen r.key).1 : Int) else 0).sum

def rasCredit (opts : Options) (ras : RasTable → List RasRow) (c : Cursors) (k : String) : Int :=
  (RasTable.all.map fun t =>
    Tally.upTo RasRow.id (fun row => row.share opts t k) (ras t) (c.last t)).sum

namespace World

def credit (w : World) (c : Cursors) (k : String) : Int :=
  edacCredit w.edac c k + rasCredit w.opts w.ras c k

end World

/-- What the polls have counted and not passed. -/
def Process.edacDue (p : Process) (k : String) : Int :=
  match p.edac with
  | some ⟨_, r :: _, stage⟩ =>
    if stage ≠ .fresh ∧ k = EdacRow.ceKey r.label then
      (r.ce : Int) - (p.cursors.seen r.key).1
    else 0
  | _ => 0

def Process.rasDue (p : Process) (opts : Options) (k : String) : Int :=
  match p.ras with
  | some ⟨_, (t, row) :: _, true, _⟩ => row.share opts t k
  | _ => 0

/-- The keys of the findings that the corrected memory errors and the rows are counted
under, among others. -/
def Tracked (k : String) : Prop := ∀ label, k ≠ EdacRow.ueKey label

/-- No cursor is past its source. -/
structure Fits (w : World) (c : Cursors) : Prop where
  edac : ∀ r ∈ w.edac, (c.seen r.key).1 ≤ r.ce
  ras : ∀ t, c.last t = 0 ∨ ∃ row ∈ w.ras t, c.last t = row.id

structure EdacInv (w : World) (c : Cursors) (poll : EdacPoll) : Prop where
  grown : Grown poll.read w.edac
  split : ∃ done, poll.read = done ++ poll.rest ∧ ∀ r ∈ done, c.seen r.key = (r.ce, r.ue)
  ahead : ∀ r ∈ poll.rest, (c.seen r.key).1 ≤ r.ce

/-- The rows left are those of the current table the cursor is not past, and it is past
every row read of the others. -/
structure RasInv (w : World) (c : Cursors) (poll : RasPoll) : Prop where
  read : ∀ t, poll.read t <+: w.ras t
  current : ∃ t done rest, poll.rows = rest.map (fun row => (t, row)) ∧
    poll.read t = done ++ rest ∧ (∀ row ∈ done, row.id ≤ c.last t) ∧
    (∀ row ∈ rest, c.last t < row.id) ∧
    ∀ u, u ≠ t → ∀ row ∈ poll.read u, row.id ≤ c.last u

structure ProcInv (w : World) (p : Process) : Prop where
  fits : Fits w p.cursors
  loadedFits : Fits w p.loaded.1
  edac : ∀ poll, p.edac = some poll → EdacInv w p.cursors poll
  edacRead : p.edac = none → ∀ read, p.edacRead = some read → ∀ r ∈ read,
    p.cursors.seen r.key = (r.ce, r.ue)
  ras : ∀ poll, p.ras = some poll → RasInv w p.cursors poll
  rasRead : ∀ read, p.rasRead = some read → ∀ t, ∀ row ∈ read t, row.id ≤ p.cursors.last t
  balanced : ∀ k, Tracked k → p.findings.countOf k + w.credit p.loaded.1 k =
    w.credit p.cursors k + p.edacDue k + p.rasDue w.opts k + p.loaded.2.countOf k

structure Inv (w : World) : Prop where
  nodup : (w.edac.map EdacRow.key).Nodup
  sorted : ∀ t, (w.ras t).Pairwise fun a b => a.id < b.id
  saved : Fits w w.saved
  proc : ∀ p, w.proc = some p → ProcInv w p

theorem inv_opened (opts : Options) (edac : Dict String (String × Nat × Nat)) :
    Inv (opened opts edac) := by
  refine ⟨?_, fun _ => List.Pairwise.nil, ⟨fun _ _ => Nat.zero_le _, fun _ => Or.inl rfl⟩,
    fun p hp => by cases hp⟩
  have hkeys : (opened opts edac).edac.map EdacRow.key = edac.keys := by
    simp only [opened, List.map_map]
    rfl
  rw [hkeys]
  exact edac.nodup

/-! ## The sources -/

section Sources

variable {w t : World} {c : Cursors} {old new : List EdacRow}

theorem Grown.trans {newer : List EdacRow} (h : Grown old new) (h' : Grown new newer) :
    Grown old newer := by
  induction h generalizing newer with
  | nil => exact h'
  | cons hab _ ih =>
    cases h' with
    | cons hbc hrest =>
      exact .cons ⟨hab.1.trans hbc.1, hab.2.1.trans hbc.2.1, hab.2.2.1.trans hbc.2.2.1,
        hab.2.2.2.trans hbc.2.2.2⟩ (ih hrest)

theorem Grown.refl (rows : List EdacRow) : Grown rows rows := by
  induction rows with
  | nil => exact .nil
  | cons r rest ih => exact .cons ⟨rfl, rfl, le_refl _, le_refl _⟩ ih

theorem Grown.keys (h : Grown old new) : new.map EdacRow.key = old.map EdacRow.key := by
  induction h with
  | nil => rfl
  | cons hab _ ih => rw [List.map_cons, List.map_cons, ih, hab.1]

/-- Each entry is still there under its key and label. -/
theorem Grown.mem (h : Grown old new) {r : EdacRow} (hr : r ∈ old) :
    ∃ r' ∈ new, r'.key = r.key ∧ r'.label = r.label ∧ r.ce ≤ r'.ce := by
  induction h with
  | nil => cases hr
  | cons hab _ ih =>
    rcases List.mem_cons.mp hr with rfl | hrest
    · exact ⟨_, List.mem_cons_self, hab.1.symm, hab.2.1.symm, hab.2.2.1⟩
    · obtain ⟨r', hr', heq⟩ := ih hrest
      exact ⟨r', List.mem_cons_of_mem _ hr', heq⟩

theorem Grown.mem_new (h : Grown old new) {r : EdacRow} (hr : r ∈ new) :
    ∃ r' ∈ old, r'.key = r.key ∧ r'.ce ≤ r.ce := by
  induction h with
  | nil => cases hr
  | cons hab _ ih =>
    rcases List.mem_cons.mp hr with rfl | hrest
    · exact ⟨_, List.mem_cons_self, hab.1, hab.2.2.1⟩
    · obtain ⟨r', hr', heq⟩ := ih hrest
      exact ⟨r', List.mem_cons_of_mem _ hr', heq⟩

/-- The credit hangs on the keys and labels of the counters alone. -/
theorem Grown.credit (h : Grown old new) (c : Cursors) (k : String) :
    edacCredit new c k = edacCredit old c k := by
  unfold edacCredit
  induction h with
  | nil => rfl
  | cons hab _ ih =>
    rw [List.map_cons, List.map_cons, List.sum_cons, List.sum_cons, ih, hab.1, hab.2.1]

/-- The cursor takes a reading. -/
theorem edacCredit_set (hnodup : (w.edac.map EdacRow.key).Nodup) {r : EdacRow}
    (hr : ∃ r' ∈ w.edac, r'.key = r.key ∧ r'.label = r.label) (c : Cursors) (k : String) :
    edacCredit w.edac { c with edac := c.edac.set r.key (r.ce, r.ue) } k =
      edacCredit w.edac c k +
        if k = EdacRow.ceKey r.label then (r.ce : Int) - (c.seen r.key).1 else 0 := by
  obtain ⟨r', hr', hkey, hlabel⟩ := hr
  unfold edacCredit
  rw [Tally.sum_map_move hnodup
    (f := fun r => if k = EdacRow.ceKey r.label then ((c.seen r.key).1 : Int) else 0) hr'
    fun j _ hj => ?_]
  · congr 1
    rw [hlabel, hkey, Cursors.seen_set, if_pos rfl]
    split <;> omega
  · rw [Cursors.seen_set, if_neg fun heq : j.key = r.key => hj (heq.trans hkey.symm)]

theorem mem_all (t : RasTable) : t ∈ RasTable.all := by
  cases t <;> decide

theorem nodup_all : RasTable.all.Nodup := by decide

/-- A row that is appended is ahead of every cursor that fits. -/
theorem rasCredit_append (h : Fits w c) {u : RasTable} {row : RasRow}
    (hrow : 1 ≤ row.id ∧ ∀ old ∈ w.ras u, old.id < row.id) (opts : Options) (k : String) :
    rasCredit opts (Function.update w.ras u (w.ras u ++ [row])) c k = rasCredit opts w.ras c k := by
  have hahead : c.last u < row.id := by
    rcases h.ras u with hzero | ⟨old, hold, heq⟩
    · omega
    · rw [heq]
      exact hrow.2 old hold
  unfold rasCredit
  congr 1
  refine List.map_congr_left fun t _ => ?_
  by_cases htu : t = u
  · subst htu
    rw [Function.update_self, Tally.upTo_append,
      Tally.upTo_of_ahead (l := [row]) fun j hj => by rw [List.mem_singleton.mp hj]; exact hahead,
      add_zero]
  · rw [Function.update_of_ne htu]

/-- The cursor of a table takes the next row. -/
theorem rasCredit_set {u : RasTable} {done rest newer : List RasRow} {row : RasRow}
    (hsorted : (w.ras u).Pairwise fun a b => a.id < b.id)
    (hsplit : w.ras u = done ++ row :: rest ++ newer) (hdone : ∀ r ∈ done, r.id ≤ c.last u)
    (hrow : c.last u < row.id) (opts : Options) (k : String) :
    rasCredit opts w.ras { c with ras := c.ras.set u.name row.id } k =
      rasCredit opts w.ras c k + row.share opts u k := by
  have hcons : w.ras u = done ++ row :: (rest ++ newer) := by rw [hsplit]; simp
  rw [hcons] at hsorted
  unfold rasCredit
  have hname : (RasTable.all.map id).Nodup := by rw [List.map_id]; exact nodup_all
  rw [Tally.sum_map_move hname (mem_all u) fun t _ ht => ?_]
  · congr 1
    rw [Cursors.last_set, if_pos rfl, hcons, Tally.upTo_next hsorted hdone hrow]
    ring
  · rw [Cursors.last_set, if_neg (show t ≠ u from ht)]

theorem fits_of_grown (h : Fits w c) {edac : List EdacRow} (hgrown : Grown w.edac edac) :
    Fits { w with edac := edac } c := by
  refine ⟨fun r hr => ?_, h.ras⟩
  obtain ⟨r', hr', hkey, hle⟩ := hgrown.mem_new hr
  rw [← hkey]
  exact (h.edac r' hr').trans hle

theorem fits_of_append (h : Fits w c) (u : RasTable) (row : RasRow) :
    Fits { w with ras := Function.update w.ras u (w.ras u ++ [row]) } c := by
  refine ⟨h.edac, fun t => ?_⟩
  show _ ∨ ∃ r ∈ Function.update w.ras u (w.ras u ++ [row]) t, _
  by_cases htu : t = u
  · subst htu
    rw [Function.update_self]
    exact (h.ras t).imp_right fun hex => by
      obtain ⟨r, hr, heq⟩ := hex
      exact ⟨r, List.mem_append_left _ hr, heq⟩
  · rw [Function.update_of_ne htu]
    exact h.ras t

end Sources

end CountRuns
end PcCheck
