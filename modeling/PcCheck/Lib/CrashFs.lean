/-
Files on a disk that a crash may catch.

A file is what a reader finds, whether its data have reached the disk, and the contents that
its directory entry may still lead to.  A flush of one file brings its data to the disk and
says nothing about its entry, and only a flush of the whole file system settles both.  A
crash leaves of every file what one `Fate` picks: nothing is promised of data that were not
flushed, and an entry that is not settled may lead to the new content, to a beginning of it,
to any content from before, or nowhere.
-/
import Mathlib.Logic.Function.Basic
import Mathlib.Data.List.Basic

namespace CrashFs

structure File (β : Type*) where
  now : Option (List β)
  flushed : Bool := true
  before : List (Option (List β)) := []
  deriving DecidableEq

abbrev Disk (κ β : Type*) := κ → File β

inductive Op (κ β : Type*) where
  /-- Open for writing: what was there is gone. -/
  | create (p : κ)
  | write (p : κ) (data : List β)
  | fsync (p : κ)
  | rename (source target : κ)
  | syncfs

/-- What a crash makes of one file. -/
inductive Fate (β : Type*) where
  | kept
  | gone
  | earlier (i : Nat)
  | cut (n : Nat)
  | garbage (content : Option (List β))

namespace File

variable {β : Type*}

def Settled (f : File β) : Prop := f.flushed = true ∧ f.before = []

/-- A fate that the state of the file rules out leaves what is there. -/
def left (f : File β) : Fate β → Option (List β)
  | .kept => f.now
  | .gone => if f.before = [] then f.now else none
  | .earlier i => f.before[i]?.getD f.now
  | .cut n => if f.before = [] then f.now else f.now.map (List.take n)
  | .garbage content => if f.flushed then f.now else content

/-- What a file may hold that a flushed one has taken the place of, before the entry of the
new one is settled. -/
def Between (old : Option (List β)) (new : List β) (c : Option (List β)) : Prop :=
  c = none ∨ c = old ∨ ∃ s, c = some s ∧ s <+: new

theorem left_of_settled {f : File β} (h : f.Settled) (fate : Fate β) : f.left fate = f.now := by
  cases fate with
  | kept => rfl
  | gone => exact if_pos h.2
  | earlier i => rw [left, h.2, List.getElem?_nil, Option.getD_none]
  | cut n => exact if_pos h.2
  | garbage content => exact if_pos h.1

theorem left_between {f : File β} {old : Option (List β)} {new : List β} (hnow : f.now = some new)
    (hflushed : f.flushed = true) (hbefore : f.before = [old]) (fate : Fate β) :
    Between old new (f.left fate) := by
  have hself : Between old new f.now := .inr (.inr ⟨new, hnow, List.prefix_refl new⟩)
  cases fate with
  | kept => exact hself
  | gone => exact .inl (if_neg (by rw [hbefore]; exact List.cons_ne_nil _ _))
  | earlier i =>
    rw [left, hbefore]
    cases i with
    | zero => exact .inr (.inl rfl)
    | succ i => exact hself
  | cut n =>
    rw [left, if_neg (by rw [hbefore]; exact List.cons_ne_nil _ _), hnow]
    exact .inr (.inr ⟨_, rfl, List.take_prefix n new⟩)
  | garbage content =>
    rw [left, if_pos hflushed]
    exact hself

end File

namespace Disk

variable {κ β : Type*} [DecidableEq κ]

/-- A new content under a path, with its entry not settled. -/
def replace (d : Disk κ β) (p : κ) (content : Option (List β)) (flushed : Bool) : Disk κ β :=
  Function.update d p
    { now := content, flushed := flushed, before := (d p).now :: (d p).before }

def exec (d : Disk κ β) : Op κ β → Disk κ β
  | .create p => d.replace p (some []) false
  | .write p data =>
    Function.update d p
      { d p with now := some ((d p).now.getD [] ++ data), flushed := false }
  | .fsync p => Function.update d p { d p with flushed := true }
  | .rename source target =>
    (d.replace target (d source).now ((d source).flushed && (d target).flushed)).replace source
      none (d source).flushed
  | .syncfs => fun p => { now := (d p).now }

def execAll (d : Disk κ β) (ops : List (Op κ β)) : Disk κ β := ops.foldl exec d

/-- The disk that the next start finds. -/
def crash (d : Disk κ β) (fates : κ → Fate β) : Disk κ β := fun p => { now := (d p).left (fates p) }

def Settled (d : Disk κ β) (p : κ) : Prop := (d p).Settled

omit [DecidableEq κ] in
theorem settled_crash (d : Disk κ β) (fates : κ → Fate β) (p : κ) : (d.crash fates).Settled p :=
  ⟨rfl, rfl⟩

omit [DecidableEq κ] in
theorem crash_of_settled {d : Disk κ β} {p : κ} (h : d.Settled p) (fates : κ → Fate β) :
    (d.crash fates p).now = (d p).now := File.left_of_settled h (fates p)

/-- The files that an operation is about. -/
def touched : Op κ β → List κ
  | .create p => [p]
  | .write p _ => [p]
  | .fsync p => [p]
  | .rename source target => [source, target]
  | .syncfs => []

theorem exec_other {d : Disk κ β} {p : κ} (h : d.Settled p) {op : Op κ β} (hp : p ∉ touched op) :
    d.exec op p = d p := by
  cases op with
  | create q => exact Function.update_of_ne (List.ne_of_not_mem_cons hp) _ _
  | write q data => exact Function.update_of_ne (List.ne_of_not_mem_cons hp) _ _
  | fsync q => exact Function.update_of_ne (List.ne_of_not_mem_cons hp) _ _
  | rename source target =>
    have htarget := List.ne_of_not_mem_cons (List.not_mem_of_not_mem_cons hp)
    exact (Function.update_of_ne (List.ne_of_not_mem_cons hp) _ _).trans
      (Function.update_of_ne htarget _ _)
  | syncfs =>
    obtain ⟨hflushed, hbefore⟩ := h
    show ({ now := (d p).now } : File β) = d p
    cases hd : d p with
    | mk now flushed before =>
      rw [hd] at hflushed hbefore
      obtain rfl : flushed = true := hflushed
      obtain rfl : before = [] := hbefore
      rfl

/-- Files that no operation is about stay settled and hold what they held. -/
theorem execAll_other {p : κ} {ops : List (Op κ β)} (hp : ∀ op ∈ ops, p ∉ touched op)
    {d : Disk κ β} (h : d.Settled p) : d.execAll ops p = d p := by
  induction ops generalizing d with
  | nil => rfl
  | cons op ops ih =>
    have hop := exec_other h (hp op List.mem_cons_self)
    have hsettled : (d.exec op).Settled p := by
      show (d.exec op p).Settled
      rw [hop]
      exact h
    exact (ih (fun o ho => hp o (List.mem_cons_of_mem op ho)) hsettled).trans hop

end Disk

/-! ## Writing a file anew -/

section AtomicWrite

open Disk

variable {κ β : Type*} [DecidableEq κ]

/-- Write a file beside the one it replaces, and put it in its place once it is on the disk. -/
def atomicWrite (tmp path : κ) (data : List β) : List (Op κ β) :=
  [.create tmp, .write tmp data, .fsync tmp, .rename tmp path, .syncfs]

variable {d : Disk κ β} {tmp path : κ} (data : List β)

theorem atomicWrite_other {p : κ} (h : d.Settled p) (htmp : p ≠ tmp) (hpath : p ≠ path) (k : Nat) :
    d.execAll ((atomicWrite tmp path data).take k) p = d p := by
  refine execAll_other (fun op hop => ?_) h
  have hmem := List.mem_of_mem_take hop
  simp only [atomicWrite, List.mem_cons, List.not_mem_nil, or_false] at hmem
  rcases hmem with rfl | rfl | rfl | rfl | rfl <;> simp [touched, htmp, hpath]

/-- Before the rename the file is what it was. -/
theorem atomicWrite_before_rename (h : d.Settled path) (hne : path ≠ tmp) {k : Nat} (hk : k ≤ 3) :
    d.execAll ((atomicWrite tmp path data).take k) path = d path := by
  refine execAll_other (fun op hop => ?_) h
  have hmem : op ∈ (atomicWrite tmp path data).take 3 :=
    List.take_subset_take_left _ hk hop
  simp only [atomicWrite, List.take_succ_cons, List.take_zero, List.mem_cons, List.not_mem_nil,
    or_false] at hmem
  rcases hmem with rfl | rfl | rfl <;> simp [touched, hne]

theorem atomicWrite_renamed (h : d.Settled path) (hne : path ≠ tmp) :
    d.execAll ((atomicWrite tmp path data).take 4) path =
      { now := some data, before := [(d path).now] } := by
  have hfile := atomicWrite_before_rename data h hne (Nat.le_refl 3)
  have htmp : d.execAll ((atomicWrite tmp path data).take 3) tmp =
      { now := some data, flushed := true, before := (d tmp).now :: (d tmp).before } := by
    simp [atomicWrite, execAll, exec, replace]
  have hrename : d.execAll ((atomicWrite tmp path data).take 4) =
      (d.execAll ((atomicWrite tmp path data).take 3)).exec (.rename tmp path) := rfl
  rw [hrename, exec, replace, Function.update_of_ne hne, replace, Function.update_self, htmp,
    hfile, h.1, h.2]
  rfl

theorem atomicWrite_done (h : d.Settled path) (hne : path ≠ tmp) :
    d.execAll (atomicWrite tmp path data) path = { now := some data } := by
  have hdone : d.execAll (atomicWrite tmp path data) path =
      { now := (d.execAll ((atomicWrite tmp path data).take 4) path).now } := rfl
  rw [hdone, atomicWrite_renamed data h hne]

/-- A crash at any step leaves the old file, the new one, a beginning of the new one or none. -/
theorem crash_atomicWrite (h : d.Settled path) (hne : path ≠ tmp) (k : Nat) (fates : κ → Fate β) :
    File.Between (d path).now data
      (((d.execAll ((atomicWrite tmp path data).take k)).crash fates) path).now := by
  show File.Between _ _ ((d.execAll ((atomicWrite tmp path data).take k) path).left (fates path))
  have hcases : k ≤ 3 ∨ k = 4 ∨ 5 ≤ k := by omega
  rcases hcases with hk | rfl | hk
  · rw [atomicWrite_before_rename data h hne hk, File.left_of_settled h]
    exact .inr (.inl rfl)
  · rw [atomicWrite_renamed data h hne]
    exact File.left_between rfl rfl rfl _
  · rw [List.take_of_length_le hk, atomicWrite_done data h hne, File.left_of_settled ⟨rfl, rfl⟩]
    exact .inr (.inr ⟨data, rfl, List.prefix_refl data⟩)

end AtomicWrite

end CrashFs
