/-
The counters of the memory controllers, as `edac_counts` reads them (`monitors.py`).

A controller is a directory with its totals and a directory for each of its DIMMs.  The map
that is read has an entry for each DIMM and one for the errors that none of them accounts for,
which is worked out from the entries made so far: those whose keys begin with the name of the
controller and a slash.
-/
import PcCheck.Counters
import PcCheck.Lib.Dict

namespace PcCheck
namespace Edac

/-- A directory `dimm*` or `rank*`; a file that is missing reads as empty or as 0. -/
structure Dimm where
  name : String
  label : String := ""
  location : String := ""
  ce : Nat := 0
  ue : Nat := 0
  noSlash : '/' ∉ name.toList
  /-- The pattern asks for a number after the word. -/
  isNumbered : name ≠ "noinfo"

/-- A directory `mc*`. -/
structure Controller where
  name : String
  dimmDirs : List Dimm := []
  rankDirs : List Dimm := []
  ce : Nat := 0
  ue : Nat := 0
  ceNoinfo : Nat := 0
  ueNoinfo : Nat := 0
  noSlash : '/' ∉ name.toList
  dimmsNodup : (dimmDirs.map Dimm.name).Nodup := by decide
  ranksNodup : (rankDirs.map Dimm.name).Nodup := by decide

structure Tree where
  controllers : List Controller
  nodup : (controllers.map Controller.name).Nodup

abbrev Counts : Type := Dict String (String × Nat × Nat)

namespace Controller

variable (mc : Controller)

def dimms : List Dimm := if mc.dimmDirs ≠ [] then mc.dimmDirs else mc.rankDirs

def base : String := mc.name ++ "/"

def dimmLabel (d : Dimm) : String :=
  let label := if strip d.label = "" then mc.base ++ d.name else strip d.label
  if strip d.location = "" then label else label ++ " (" ++ strip d.location ++ ")"

def dimmEntry (d : Dimm) : String × String × Nat × Nat :=
  (mc.base ++ d.name, mc.dimmLabel d, d.ce, d.ue)

def noinfoEntry (dimmCe dimmUe : Nat) : String × String × Nat × Nat :=
  (mc.base ++ "noinfo", mc.name ++ " (DIMM unknown)", max mc.ceNoinfo (mc.ce - dimmCe),
    max mc.ueNoinfo (mc.ue - dimmUe))

/-- The sum over the entries whose keys begin with the name of the controller and a slash. -/
def own (result : Counts) (f : String × Nat × Nat → Nat) : Nat :=
  ((result.entries.filter fun e => decide (mc.base.toList <+: e.1.toList)).map
    fun e => f e.2).sum

end Controller

def put (result : Counts) (e : String × String × Nat × Nat) : Counts := result.set e.1 e.2

def addController (result : Counts) (mc : Controller) : Counts :=
  let result := (mc.dimms.map mc.dimmEntry).foldl put result
  put result (mc.noinfoEntry (mc.own result fun v => v.2.1) (mc.own result fun v => v.2.2))

/-- `edac_counts`, on the controllers in the order of their names. -/
def edacCounts (tree : Tree) : Counts := tree.controllers.foldl addController Dict.empty

/-! ## The entries -/

namespace Controller

variable (mc : Controller)

def dimmCe : Nat := (mc.dimms.map Dimm.ce).sum

def dimmUe : Nat := (mc.dimms.map Dimm.ue).sum

/-- The entries of one controller. -/
def entries : List (String × String × Nat × Nat) :=
  mc.dimms.map mc.dimmEntry ++ [mc.noinfoEntry mc.dimmCe mc.dimmUe]

theorem dimms_nodup : (mc.dimms.map Dimm.name).Nodup := by
  unfold dimms
  split
  · exact mc.dimmsNodup
  · exact mc.ranksNodup

end Controller

/-! ## Keys -/

/-- What stands before the first slash, and after it. -/
theorem append_slash_inj {a b x y : List Char} (ha : '/' ∉ a) (hb : '/' ∉ b)
    (h : a ++ '/' :: x = b ++ '/' :: y) : a = b ∧ x = y := by
  have hstop : ∀ {l : List Char}, '/' ∉ l → ∀ c ∈ l, (c != '/') = true := fun hl c hc =>
    bne_iff_ne.mpr fun heq => hl (heq ▸ hc)
  have htake := congrArg (List.takeWhile (· != '/')) h
  rw [List.takeWhile_append_of_pos (hstop ha), List.takeWhile_append_of_pos (hstop hb)] at htake
  have hab : a = b := by simpa using htake
  subst hab
  exact ⟨rfl, (List.cons.inj (List.append_cancel_left h)).2⟩

section Keys

variable {a b : Controller} {x y : String}

theorem base_append_toList (a : Controller) (x : String) :
    (a.base ++ x).toList = a.name.toList ++ '/' :: x.toList := by
  simp [Controller.base]

theorem eq_of_base_append (h : a.base ++ x = b.base ++ y) : a.name = b.name ∧ x = y := by
  have hlist := congrArg String.toList h
  rw [base_append_toList, base_append_toList] at hlist
  obtain ⟨hname, hrest⟩ := append_slash_inj a.noSlash b.noSlash hlist
  exact ⟨String.toList_inj.mp hname, String.toList_inj.mp hrest⟩

/-- A key begins with the name of its own controller and the slash, and with no other: the
keys of `mc10` are none of `mc1`. -/
theorem base_initial_iff : a.base.toList <+: (b.base ++ x).toList ↔ a.name = b.name := by
  constructor
  · rintro ⟨rest, h⟩
    have hbase : a.base.toList = a.name.toList ++ ['/'] := by simp [Controller.base]
    rw [hbase, base_append_toList, List.append_assoc, List.singleton_append] at h
    exact String.toList_inj.mp (append_slash_inj a.noSlash b.noSlash h).1
  · intro h
    have hbase : a.base = b.base := by rw [Controller.base, h, Controller.base]
    rw [hbase, String.toList_append]
    exact List.prefix_append _ _

end Keys

/-- The key is one of a controller. -/
def KeyOf (mc : Controller) (k : String) : Prop := ∃ x, k = mc.base ++ x

theorem keyOf_entries {mc : Controller} {e : String × String × Nat × Nat}
    (h : e ∈ mc.entries) : KeyOf mc e.1 := by
  rcases List.mem_append.mp h with hdimm | hnoinfo
  · obtain ⟨d, -, rfl⟩ := List.mem_map.mp hdimm
    exact ⟨d.name, rfl⟩
  · obtain rfl := List.mem_singleton.mp hnoinfo
    exact ⟨"noinfo", rfl⟩

theorem Controller.keys_nodup (mc : Controller) : (mc.entries.map Prod.fst).Nodup := by
  have hdimms : ((mc.dimms.map mc.dimmEntry).map Prod.fst).Nodup := by
    have hkeys : (mc.dimms.map mc.dimmEntry).map Prod.fst =
        (mc.dimms.map Dimm.name).map fun name => mc.base ++ name := by
      rw [List.map_map, List.map_map]
      rfl
    rw [hkeys]
    exact mc.dimms_nodup.map fun _ _ h => (eq_of_base_append h).2
  unfold Controller.entries
  rw [List.map_append, List.nodup_append]
  refine ⟨hdimms, List.nodup_singleton _, fun k hk k' hk' heq => ?_⟩
  obtain rfl : k' = mc.base ++ "noinfo" := List.mem_singleton.mp hk'
  obtain ⟨e, he, rfl⟩ := List.mem_map.mp hk
  obtain ⟨d, -, rfl⟩ := List.mem_map.mp he
  exact d.isNumbered (eq_of_base_append heq).2

/-! ## The map that is read -/

/-- The map so far is about other controllers. -/
def Others (result : Counts) (mc : Controller) : Prop :=
  ∀ e ∈ result.entries, ∃ other : Controller, other.name ≠ mc.name ∧ KeyOf other e.1

theorem foldl_put (l : List (String × String × Nat × Nat)) (result : Counts)
    (h : ((result.entries ++ l).map Prod.fst).Nodup) :
    (l.foldl put result).entries = result.entries ++ l :=
  Dict.entries_foldl_set l result h

theorem own_append {mc : Controller} {result : Counts} {l : List (String × String × Nat × Nat)}
    {all : Counts} (hothers : Others result mc) (hown : ∀ e ∈ l, KeyOf mc e.1)
    (hall : all.entries = result.entries ++ l) (f : String × Nat × Nat → Nat) :
    mc.own all f = (l.map fun e => f e.2).sum := by
  have hnone : (result.entries.filter fun e => decide (mc.base.toList <+: e.1.toList)) = [] := by
    refine List.filter_eq_nil_iff.mpr fun e he => ?_
    obtain ⟨other, hne, x, hx⟩ := hothers e he
    rw [hx, decide_eq_true_iff, base_initial_iff]
    exact Ne.symm hne
  have hself : (l.filter fun e => decide (mc.base.toList <+: e.1.toList)) = l := by
    refine List.filter_eq_self.mpr fun e he => ?_
    obtain ⟨x, hx⟩ := hown e he
    rw [hx]
    exact decide_eq_true (base_initial_iff.mpr rfl)
  unfold Controller.own
  rw [hall, List.filter_append, hnone, hself, List.nil_append]

theorem nodup_append_entries {mc : Controller} {result : Counts} (hothers : Others result mc) :
    ((result.entries ++ mc.entries).map Prod.fst).Nodup := by
  rw [List.map_append, List.nodup_append]
  refine ⟨result.nodup, mc.keys_nodup, fun k hk k' hk' heq => ?_⟩
  obtain ⟨e, he, rfl⟩ := List.mem_map.mp hk
  obtain ⟨e', he', rfl⟩ := List.mem_map.mp hk'
  obtain ⟨other, hne, x, hx⟩ := hothers e he
  obtain ⟨y, hy⟩ := keyOf_entries he'
  rw [hx, hy] at heq
  exact hne (eq_of_base_append heq).1

theorem entries_addController {mc : Controller} {result : Counts} (hothers : Others result mc) :
    (addController result mc).entries = result.entries ++ mc.entries := by
  have hnodup := nodup_append_entries hothers
  have hdimms : ((mc.dimms.map mc.dimmEntry).foldl put result).entries =
      result.entries ++ mc.dimms.map mc.dimmEntry := by
    apply foldl_put
    unfold Controller.entries at hnodup
    rw [← List.append_assoc, List.map_append] at hnodup
    exact (List.nodup_append.mp hnodup).1
  have hkeys : ∀ e ∈ mc.dimms.map mc.dimmEntry, KeyOf mc e.1 := fun e he =>
    keyOf_entries (List.mem_append_left _ he)
  have hsum := own_append hothers hkeys hdimms
  have hce : mc.own ((mc.dimms.map mc.dimmEntry).foldl put result) (fun v => v.2.1) =
      mc.dimmCe := by
    rw [hsum, List.map_map]
    rfl
  have hue : mc.own ((mc.dimms.map mc.dimmEntry).foldl put result) (fun v => v.2.2) =
      mc.dimmUe := by
    rw [hsum, List.map_map]
    rfl
  unfold addController
  dsimp only
  rw [hce, hue]
  have hlast : ([mc.noinfoEntry mc.dimmCe mc.dimmUe].foldl put
      ((mc.dimms.map mc.dimmEntry).foldl put result)).entries = _ := foldl_put _ _ (by
    rw [hdimms, List.append_assoc]
    exact hnodup)
  rw [List.foldl_cons, List.foldl_nil] at hlast
  rw [hlast, hdimms, List.append_assoc]
  rfl

theorem entries_foldl (l : List Controller) (result : Counts)
    (hnodup : (l.map Controller.name).Nodup) (hothers : ∀ mc ∈ l, Others result mc) :
    (l.foldl addController result).entries = result.entries ++ l.flatMap Controller.entries := by
  induction l generalizing result with
  | nil => simp
  | cons mc rest ih =>
    obtain ⟨hfresh, hrest⟩ := List.nodup_cons.mp hnodup
    have hentries := entries_addController (hothers mc List.mem_cons_self)
    have hnext : ∀ mc' ∈ rest, Others (addController result mc) mc' := by
      intro mc' hmc' e he
      rw [hentries] at he
      rcases List.mem_append.mp he with hold | hnew
      · exact hothers mc' (List.mem_cons_of_mem _ hmc') e hold
      · refine ⟨mc, fun heq => hfresh ?_, keyOf_entries hnew⟩
        rw [heq]
        exact List.mem_map_of_mem hmc'
    rw [List.foldl_cons, ih _ hrest hnext, hentries, List.flatMap_cons, List.append_assoc]

/-- The map has the entries of each controller in turn. -/
theorem entries_edacCounts (tree : Tree) :
    (edacCounts tree).entries = tree.controllers.flatMap Controller.entries :=
  entries_foldl tree.controllers Dict.empty tree.nodup fun _ _ _ he => nomatch he

end Edac
end PcCheck
