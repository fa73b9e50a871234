/-
Finite maps that keep the order in which their keys were first inserted.

Replacing the value of a key keeps its place, and a new key goes to the end.  The
keys of a `Dict` are distinct by a field of the structure, so a map that lists a
key twice cannot be built.
-/
import Mathlib.Data.List.Basic
import Mathlib.Data.List.Nodup

structure Dict (κ α : Type*) where
  entries : List (κ × α)
  nodup : (entries.map Prod.fst).Nodup

namespace Dict

variable {κ α : Type*} [DecidableEq κ]

def assoc (k : κ) : List (κ × α) → Option α
  | [] => none
  | p :: rest => if p.1 = k then some p.2 else assoc k rest

/-- Replace the value listed for a key, or list the key at the end. -/
def place (k : κ) (v : α) : List (κ × α) → List (κ × α)
  | [] => [(k, v)]
  | p :: rest => if p.1 = k then (k, v) :: rest else p :: place k v rest

theorem assoc_place_self (k : κ) (v : α) (l : List (κ × α)) :
    assoc k (place k v l) = some v := by
  induction l with
  | nil => simp [place, assoc]
  | cons p rest ih =>
    by_cases h : p.1 = k
    · simp [place, assoc, h]
    · simp [place, assoc, h, ih]

theorem place_place (k : κ) (v w : α) (l : List (κ × α)) :
    place k w (place k v l) = place k w l := by
  induction l with
  | nil => simp [place]
  | cons p l ih =>
    by_cases h : p.1 = k
    · simp [place, h]
    · simp [place, h, ih]

/-- Placing what is there already changes nothing. -/
theorem place_of_assoc {k : κ} {v : α} {l : List (κ × α)} (h : assoc k l = some v) :
    place k v l = l := by
  induction l with
  | nil => cases h
  | cons p rest ih =>
    unfold assoc at h
    unfold place
    by_cases hp : p.1 = k
    · rw [if_pos hp] at h ⊢
      rw [← hp, ← Option.some.inj h]
    · rw [if_neg hp] at h ⊢
      rw [ih h]

theorem assoc_place_ne {k k' : κ} (h : k' ≠ k) (v : α) (l : List (κ × α)) :
    assoc k' (place k v l) = assoc k' l := by
  induction l with
  | nil => simp [place, assoc, Ne.symm h]
  | cons p rest ih =>
    by_cases hp : p.1 = k
    · simp [place, assoc, hp, Ne.symm h]
    · simp only [place, hp, if_false, assoc, ih]

theorem mem_keys_place {k k' : κ} {v : α} {l : List (κ × α)} :
    k' ∈ (place k v l).map Prod.fst ↔ k' = k ∨ k' ∈ l.map Prod.fst := by
  induction l with
  | nil => simp [place]
  | cons p rest ih =>
    by_cases hp : p.1 = k
    · simp [place, hp]
    · simp only [place, hp, if_false, List.map_cons, List.mem_cons, ih]
      tauto

theorem nodup_place {k : κ} {v : α} {l : List (κ × α)} (h : (l.map Prod.fst).Nodup) :
    ((place k v l).map Prod.fst).Nodup := by
  induction l with
  | nil => simp [place]
  | cons p rest ih =>
    rw [List.map_cons, List.nodup_cons] at h
    by_cases hp : p.1 = k
    · simp only [place, hp, if_true, List.map_cons, List.nodup_cons]
      exact ⟨hp ▸ h.1, h.2⟩
    · simp only [place, hp, if_false, List.map_cons, List.nodup_cons, mem_keys_place, false_or]
      exact ⟨h.1, ih h.2⟩

theorem assoc_eq_some_iff {k : κ} {v : α} {l : List (κ × α)} (h : (l.map Prod.fst).Nodup) :
    assoc k l = some v ↔ (k, v) ∈ l := by
  induction l with
  | nil => simp [assoc]
  | cons p rest ih =>
    rw [List.map_cons, List.nodup_cons] at h
    by_cases hp : p.1 = k
    · subst hp
      constructor
      · intro hv
        simp only [assoc, if_true, Option.some.injEq] at hv
        subst hv
        exact List.mem_cons_self
      · intro hmem
        rcases List.mem_cons.mp hmem with heq | hrest
        · rw [← heq, assoc, if_pos rfl]
        · exact absurd (List.mem_map_of_mem (f := Prod.fst) hrest) h.1
    · simp only [assoc, hp, if_false, ih h.2, List.mem_cons]
      constructor
      · exact Or.inr
      · intro hor
        rcases hor with heq | hrest
        · exact absurd (congrArg Prod.fst heq).symm hp
        · exact hrest

/-! ## The interface -/

def empty : Dict κ α := ⟨[], List.nodup_nil⟩

def get? (d : Dict κ α) (k : κ) : Option α := assoc k d.entries

def set (d : Dict κ α) (k : κ) (v : α) : Dict κ α := ⟨place k v d.entries, nodup_place d.nodup⟩

def setDefault (d : Dict κ α) (k : κ) (v : α) : Dict κ α :=
  match d.get? k with
  | some _ => d
  | none => d.set k v

def keys (d : Dict κ α) : List κ := d.entries.map Prod.fst

def values (d : Dict κ α) : List α := d.entries.map Prod.snd

/-- Insert the pairs in order, a later pair overriding an earlier one. -/
def ofList (l : List (κ × α)) : Dict κ α := l.foldl (fun d p => d.set p.1 p.2) empty

/-- The keys of a list, each once, in the order of their first mention. -/
def fromKeys (l : List κ) : List κ := (ofList (l.map fun k => (k, ()))).keys

instance : Inhabited (Dict κ α) := ⟨empty⟩

omit [DecidableEq κ] in
theorem ext_entries {d e : Dict κ α} (h : d.entries = e.entries) : d = e := by
  cases d; cases e; cases h; rfl

@[simp] theorem get?_empty (k : κ) : (empty : Dict κ α).get? k = none := rfl

@[simp] theorem get?_set_self (d : Dict κ α) (k : κ) (v : α) : (d.set k v).get? k = some v :=
  assoc_place_self k v d.entries

theorem set_set (d : Dict κ α) (k : κ) (v w : α) : (d.set k v).set k w = d.set k w :=
  ext_entries (place_place k v w d.entries)

theorem set_of_get? {d : Dict κ α} {k : κ} {v : α} (h : d.get? k = some v) : d.set k v = d :=
  ext_entries (place_of_assoc h)

theorem get?_set_ne (d : Dict κ α) {k k' : κ} (h : k' ≠ k) (v : α) :
    (d.set k v).get? k' = d.get? k' :=
  assoc_place_ne h v d.entries

theorem get?_set (d : Dict κ α) (k k' : κ) (v : α) :
    (d.set k v).get? k' = if k' = k then some v else d.get? k' := by
  by_cases h : k' = k
  · rw [if_pos h, h, get?_set_self]
  · rw [if_neg h, get?_set_ne d h]

theorem get?_setDefault_self (d : Dict κ α) (k : κ) (v : α) :
    (d.setDefault k v).get? k = some ((d.get? k).getD v) := by
  unfold setDefault
  cases h : d.get? k with
  | none => simp
  | some w => simp [h]

theorem get?_setDefault_ne (d : Dict κ α) {k k' : κ} (h : k' ≠ k) (v : α) :
    (d.setDefault k v).get? k' = d.get? k' := by
  unfold setDefault
  cases hk : d.get? k with
  | none => exact get?_set_ne d h v
  | some w => rfl

theorem get?_eq_some_iff {d : Dict κ α} {k : κ} {v : α} : d.get? k = some v ↔ (k, v) ∈ d.entries :=
  assoc_eq_some_iff d.nodup

theorem mem_values_iff {d : Dict κ α} {v : α} : v ∈ d.values ↔ ∃ k, d.get? k = some v := by
  simp only [values, List.mem_map, get?_eq_some_iff]
  constructor
  · intro hex
    obtain ⟨⟨k, w⟩, hmem, rfl⟩ := hex
    exact ⟨k, hmem⟩
  · intro hex
    obtain ⟨k, hmem⟩ := hex
    exact ⟨(k, v), hmem, rfl⟩

theorem place_of_not_mem {k : κ} {v : α} {l : List (κ × α)} (h : k ∉ l.map Prod.fst) :
    place k v l = l ++ [(k, v)] := by
  induction l with
  | nil => rfl
  | cons p rest ih =>
    rw [List.map_cons, List.mem_cons, not_or] at h
    rw [place, if_neg (Ne.symm h.1), ih h.2, List.cons_append]

theorem entries_foldl_set (l : List (κ × α)) (d : Dict κ α)
    (h : ((d.entries ++ l).map Prod.fst).Nodup) :
    (l.foldl (fun d p => d.set p.1 p.2) d).entries = d.entries ++ l := by
  induction l generalizing d with
  | nil => simp
  | cons p rest ih =>
    have hfresh : p.1 ∉ d.entries.map Prod.fst := by
      rw [List.map_append, List.map_cons, List.nodup_append] at h
      exact fun hmem => h.2.2 _ hmem _ List.mem_cons_self rfl
    have hset : (d.set p.1 p.2).entries = d.entries ++ [p] := place_of_not_mem hfresh
    have happ : (d.set p.1 p.2).entries ++ rest = d.entries ++ p :: rest := by
      rw [hset, List.append_assoc, List.singleton_append]
    rw [List.foldl_cons, ih, happ]
    rw [happ]
    exact h

theorem mem_keys_foldl_set (l : List (κ × α)) (d : Dict κ α) (k : κ) :
    k ∈ (l.foldl (fun d p => d.set p.1 p.2) d).keys ↔ k ∈ d.keys ∨ k ∈ l.map Prod.fst := by
  induction l generalizing d with
  | nil => simp
  | cons p rest ih =>
    have hset : k ∈ (d.set p.1 p.2).keys ↔ k = p.1 ∨ k ∈ d.keys := mem_keys_place
    rw [List.foldl_cons, ih, hset, List.map_cons, List.mem_cons]
    tauto

theorem mem_of_get?_foldl_set {l : List (κ × α)} {d : Dict κ α} {k : κ} {v : α}
    (h : (l.foldl (fun d p => d.set p.1 p.2) d).get? k = some v) :
    (k, v) ∈ l ∨ d.get? k = some v := by
  induction l generalizing d with
  | nil => exact Or.inr h
  | cons p rest ih =>
    rcases ih h with hrest | hset
    · exact Or.inl (List.mem_cons_of_mem p hrest)
    · rw [get?_set] at hset
      by_cases hk : k = p.1
      · rw [if_pos hk] at hset
        obtain rfl := Option.some.inj hset
        exact Or.inl (by rw [hk]; exact List.mem_cons_self)
      · rw [if_neg hk] at hset
        exact Or.inr hset

/-- What a map built from pairs holds is one of them. -/
theorem mem_of_get?_ofList {l : List (κ × α)} {k : κ} {v : α} (h : (ofList l).get? k = some v) :
    (k, v) ∈ l := by
  rcases mem_of_get?_foldl_set h with hmem | hempty
  · exact hmem
  · cases hempty

theorem get?_ofList_isSome {l : List (κ × α)} {k : κ} :
    ((ofList l).get? k).isSome = true ↔ k ∈ l.map Prod.fst := by
  have hkeys := mem_keys_foldl_set l empty k
  rw [← ofList] at hkeys
  constructor
  · intro hsome
    obtain ⟨v, hv⟩ := Option.isSome_iff_exists.mp hsome
    exact List.mem_map_of_mem (f := Prod.fst) (mem_of_get?_ofList hv)
  · intro hmem
    obtain ⟨⟨k', v⟩, hentry, rfl⟩ := List.mem_map.mp (hkeys.mpr (Or.inr hmem))
    rw [get?_eq_some_iff.mpr hentry]
    rfl

@[simp] theorem mem_fromKeys {l : List κ} {k : κ} : k ∈ fromKeys l ↔ k ∈ l := by
  rw [fromKeys, ofList, mem_keys_foldl_set, List.map_map]
  simp [empty, keys]

@[simp] theorem fromKeys_eq_nil {l : List κ} : fromKeys l = [] ↔ l = [] := by
  simp only [List.eq_nil_iff_forall_not_mem, mem_fromKeys]

/-- Reading the entries back in order rebuilds the map. -/
theorem ofList_entries (d : Dict κ α) : ofList d.entries = d := by
  apply ext_entries
  rw [ofList, entries_foldl_set]
  · rfl
  · exact d.nodup

end Dict
