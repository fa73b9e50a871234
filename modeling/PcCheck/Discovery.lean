/-
Finding the disks and judging whether one may be overwritten (`disks.py`).

`blockDisks` reads a listing of `lsblk`, and `destructiveCandidates` probes each disk with
`wipefs` and a second `lsblk`, whose JSON it walks without checking its shape: Python's
`TypeError` and `KeyError` there count as a disk in use, and its `AttributeError` goes
through to the caller.  A disk carries the physical `device` that answers under its name,
which the program never sees.
-/
import PcCheck.Config

namespace PcCheck

/-- A JSON value as `json.loads` returns it. -/
inductive Json where
  | null
  | bool (b : Bool)
  | num (q : ℚ)
  | str (s : String)
  | arr (items : List Json)
  | obj (fields : List (String × Json))

namespace Json

def truthy : Json → Bool
  | null => false
  | bool b => b
  | num q => decide (q ≠ 0)
  | str s => decide (s ≠ "")
  | arr items => !items.isEmpty
  | obj fields => !fields.isEmpty

/-- What a loop over the value visits. -/
def elements : Json → List Json
  | arr items => items
  | str s => s.toList.map fun c => str (String.singleton c)
  | obj fields => fields.map fun f => str f.1
  | _ => []

def iterable : Json → Bool
  | arr _ => true
  | str _ => true
  | obj _ => true
  | _ => false

/-- `value.get(key)` of a dict. -/
def get? (key : String) : Json → Option Json
  | obj fields => fields.lookup key
  | _ => none

end Json

/-! ## The tree of a device -/

section Tree

variable (holders : Json → Bool)

/-- `any(node.get("mountpoints") or [])`. -/
def anyMounted (fields : List (String × Json)) : Except PyError Bool :=
  match fields.lookup "mountpoints" with
  | none => .ok false
  | some v =>
    if v.truthy then
      if v.iterable then .ok (v.elements.any Json.truthy) else .error .typeError
    else .ok false

/-- `bool(glob(f"/sys/class/block/{node['name']}/holders/*"))`. -/
def anyHolder (fields : List (String × Json)) : Except PyError Bool :=
  match fields.lookup "name" with
  | none => .error .keyError
  | some name => .ok (holders name)

mutual

def busy : Json → Except PyError Bool
  | .obj fields => do
    if ← anyMounted fields then return true
    if ← anyHolder holders fields then return true
    busyChildren fields
  | _ => .error .attributeError

/-- `any(busy(c) for c in node.get("children", []))`. -/
def busyChildren : List (String × Json) → Except PyError Bool
  | [] => .ok false
  | (key, v) :: rest => if key = "children" then busyIn v else busyChildren rest

def busyIn : Json → Except PyError Bool
  | .arr items => busyAny items
  | .str s => if s = "" then .ok false else .error .attributeError
  | .obj fields => if fields.isEmpty then .ok false else .error .attributeError
  | _ => .error .typeError

def busyAny : List Json → Except PyError Bool
  | [] => .ok false
  | c :: rest => do
    if ← busy c then return true
    busyAny rest

end

/-- `any(node.get("children") for node in nodes)`. -/
def anyParent : List Json → Except PyError Bool
  | [] => .ok false
  | .obj fields :: rest =>
    if ((fields.lookup "children").map Json.truthy).getD false then .ok true else anyParent rest
  | _ :: _ => .error .attributeError

/-- The body of the `try`: whether the disk is in use and whether it has children. -/
def readTopology (stdout : Option Json) : Except PyError (Bool × Bool) := do
  let root ← match stdout with
    | none => .error .valueError
    | some root => .ok root
  let nodes ← match root with
    | .obj fields => match fields.lookup "blockdevices" with
      | none => .error .keyError
      | some nodes => .ok nodes
    | _ => .error .typeError
  let inUse ← if nodes.truthy then busyIn holders nodes else .ok true
  let children ← if nodes.iterable then anyParent nodes.elements else .error .typeError
  return (inUse, children)

end Tree

/-! ## Disks -/

/-- A record of `block_disks`, with the device that answers under the name. -/
structure Disk (δ : Type) where
  device : δ
  name : String
  size : Nat
  model : String := ""
  serial : String := ""
  wwn : String := ""
  deriving DecidableEq

structure LsblkDevice (δ : Type) where
  device : δ
  name : String
  type : String
  size : Nat
  model : String := ""
  serial : String := ""
  wwn : String := ""
  readOnly : Bool := false

/-- The result of the listing command.  `none` is output that is not JSON. -/
structure Lsblk (δ : Type) where
  returncode : Int
  stderr : String := ""
  devices : Option (List (LsblkDevice δ))

/-- What the two discovery commands and `glob` report on a disk. -/
structure Probe where
  signaturesCode : Int
  signatures : String
  topologyCode : Int
  topology : Option Json
  holders : Json → Bool

structure DiskConfig where
  opts : Options
  bootDisk : String
  /-- `parent_disk` of the log device. -/
  logDisk : String

variable {δ : Type}

def skippedPrefixes : List String := ["loop", "ram", "zram", "sr", "fd", "nbd", "md", "dm-"]

def blockDisks (exclude : List String) (res : Lsblk δ) : Except PyError (List (Disk δ)) :=
  if res.returncode ≠ 0 then
    .error (.runtimeError s!"Block device discovery failed: {strip res.stderr}")
  else match res.devices with
    | none => .error (.runtimeError "Block device discovery returned invalid JSON")
    | some devices =>
      .ok ((devices.filter fun d =>
          decide (d.type = "disk") && !exclude.contains d.name &&
            !(skippedPrefixes.any fun p => d.name.startsWith p) && decide (d.size ≠ 0) &&
            !d.readOnly).map
        fun d =>
          { device := d.device, name := d.name, size := d.size, model := strip d.model,
            serial := strip d.serial, wwn := d.wwn })

def diskId (d : Disk δ) : String :=
  if d.serial ≠ "" then d.serial else if d.wwn ≠ "" then d.wwn else d.name

namespace DiskConfig

def exclude (cfg : DiskConfig) : List String := [cfg.bootDisk, cfg.logDisk].filter (· ≠ "")

/-- One turn of the loop of `destructive_candidates`. -/
def eligible (cfg : DiskConfig) (d : Disk δ) (p : Probe) : Except PyError Bool := do
  let (inUse, children) ← match readTopology p.holders p.topology with
    | .ok found => .ok found
    | .error .attributeError => .error .attributeError
    | .error _ => .ok (true, true)
  return !(decide (cfg.bootDisk = "") || cfg.exclude.contains d.name || inUse ||
    decide (p.signaturesCode ≠ 0) || decide (p.topologyCode ≠ 0) ||
    ((decide (strip p.signatures ≠ "") || children) && decide (cfg.opts.destructive ≠ "force")))

def destructiveCandidates (cfg : DiskConfig) (probe : String → Probe) :
    List (Disk δ) → Except PyError (List (Disk δ) × List (Disk δ))
  | [] => .ok ([], [])
  | d :: rest => do
    let ok ← cfg.eligible d (probe d.name)
    let (eligible, skipped) ← cfg.destructiveCandidates probe rest
    return if ok then (d :: eligible, skipped) else (eligible, d :: skipped)

end DiskConfig

/-! ## What eligibility says -/

mutual

def treeNodes : Json → List Json
  | .obj fields => .obj fields :: childNodes fields
  | j => [j]

def childNodes : List (String × Json) → List Json
  | [] => []
  | (key, v) :: rest => if key = "children" then nodesIn v else childNodes rest

def nodesIn : Json → List Json
  | .arr items => nodesOf items
  | _ => []

def nodesOf : List Json → List Json
  | [] => []
  | c :: rest => treeNodes c ++ nodesOf rest

end

def Mounted (node : Json) : Prop :=
  ∃ v, node.get? "mountpoints" = some v ∧ ∃ m ∈ v.elements, m.truthy = true

def Held (holders : Json → Bool) (node : Json) : Prop :=
  ∃ name, node.get? "name" = some name ∧ holders name = true

def HasChildren (node : Json) : Prop :=
  ∃ v, node.get? "children" = some v ∧ v.truthy = true

def Quiet (holders : Json → Bool) (node : Json) : Prop := ¬ Mounted node ∧ ¬ Held holders node

theorem not_mounted_of_anyMounted {fields : List (String × Json)}
    (h : anyMounted fields = .ok false) : ¬ Mounted (.obj fields) := by
  intro hm
  obtain ⟨v, hv, m, hmem, htruthy⟩ := hm
  have hlookup : fields.lookup "mountpoints" = some v := hv
  simp only [anyMounted, hlookup] at h
  have hv : v.truthy = true := by
    cases v with
    | arr items => cases items <;> simp_all [Json.elements, Json.truthy]
    | str s =>
      by_cases hs : s = ""
      · subst hs
        cases hmem
      · simp [Json.truthy, hs]
    | obj f => cases f <;> simp_all [Json.elements, Json.truthy]
    | null => cases hmem
    | bool b => cases hmem
    | num q => cases hmem
  rw [if_pos hv] at h
  by_cases hit : v.iterable = true
  · rw [if_pos hit, Except.ok.injEq, List.any_eq_false] at h
    exact h m hmem htruthy
  · rw [if_neg hit] at h
    cases h

theorem not_held_of_anyHolder {holders : Json → Bool} {fields : List (String × Json)}
    (h : anyHolder holders fields = .ok false) : ¬ Held holders (.obj fields) := by
  intro hheld
  obtain ⟨name, hname, hh⟩ := hheld
  have hlookup : fields.lookup "name" = some name := hname
  simp only [anyHolder, hlookup, Except.ok.injEq] at h
  rw [hh] at h
  cases h

theorem busy_obj_eq_false {holders : Json → Bool} {fields : List (String × Json)}
    (h : busy holders (.obj fields) = .ok false) :
    anyMounted fields = .ok false ∧ anyHolder holders fields = .ok false ∧
      busyChildren holders fields = .ok false := by
  rw [busy] at h
  obtain ⟨mounted, hm, h⟩ := bind_eq_ok.mp h
  cases mounted with
  | true => cases h
  | false =>
    obtain ⟨held, hh, h⟩ := bind_eq_ok.mp h
    cases held with
    | true => cases h
    | false => exact ⟨hm, hh, h⟩

theorem busyAny_cons_eq_false {holders : Json → Bool} {c : Json} {rest : List Json}
    (h : busyAny holders (c :: rest) = .ok false) :
    busy holders c = .ok false ∧ busyAny holders rest = .ok false := by
  rw [busyAny] at h
  obtain ⟨used, hc, h⟩ := bind_eq_ok.mp h
  cases used with
  | true => cases h
  | false => exact ⟨hc, h⟩

mutual

/-- A tree that is not busy is quiet at every node. -/
theorem quiet_of_busy {holders : Json → Bool} :
    ∀ j, busy holders j = .ok false → ∀ n ∈ treeNodes j, Quiet holders n
  | .obj fields, h, n, hn => by
    obtain ⟨hmounted, hheld, hchildren⟩ := busy_obj_eq_false h
    rw [treeNodes, List.mem_cons] at hn
    rcases hn with hself | hbelow
    · subst hself
      exact ⟨not_mounted_of_anyMounted hmounted, not_held_of_anyHolder hheld⟩
    · exact quiet_of_busyChildren fields hchildren n hbelow
  | .null, h, _, _ => by cases h
  | .bool _, h, _, _ => by cases h
  | .num _, h, _, _ => by cases h
  | .str _, h, _, _ => by cases h
  | .arr _, h, _, _ => by cases h

theorem quiet_of_busyChildren {holders : Json → Bool} :
    ∀ fields, busyChildren holders fields = .ok false → ∀ n ∈ childNodes fields, Quiet holders n
  | [], _, n, hn => by cases hn
  | (key, v) :: rest, h, n, hn => by
    rw [busyChildren] at h
    rw [childNodes] at hn
    by_cases hkey : key = "children"
    · rw [if_pos hkey] at h hn
      exact quiet_of_busyIn v h n hn
    · rw [if_neg hkey] at h hn
      exact quiet_of_busyChildren rest h n hn

theorem quiet_of_busyIn {holders : Json → Bool} :
    ∀ v, busyIn holders v = .ok false → ∀ n ∈ nodesIn v, Quiet holders n
  | .arr items, h, n, hn => quiet_of_busyAny items h n hn
  | .null, _, _, hn => by cases hn
  | .bool _, _, _, hn => by cases hn
  | .num _, _, _, hn => by cases hn
  | .str _, _, _, hn => by cases hn
  | .obj _, _, _, hn => by cases hn

theorem quiet_of_busyAny {holders : Json → Bool} :
    ∀ items, busyAny holders items = .ok false → ∀ n ∈ nodesOf items, Quiet holders n
  | [], _, n, hn => by cases hn
  | c :: rest, h, n, hn => by
    obtain ⟨hc, hrest⟩ := busyAny_cons_eq_false h
    rw [nodesOf, List.mem_append] at hn
    rcases hn with hn | hn
    · exact quiet_of_busy c hc n hn
    · exact quiet_of_busyAny rest hrest n hn

end

theorem not_hasChildren_of_anyParent {nodes : List Json} (h : anyParent nodes = .ok false) :
    ∀ n ∈ nodes, ¬ HasChildren n := by
  induction nodes with
  | nil => intro n hn; cases hn
  | cons c rest ih =>
    intro n hn hchildren
    cases c with
    | obj fields =>
      rw [anyParent] at h
      cases ht : ((fields.lookup "children").map Json.truthy).getD false with
      | true => rw [ht] at h; cases h
      | false =>
        rw [ht] at h
        rcases List.mem_cons.mp hn with hself | hrest
        · subst hself
          obtain ⟨v, hv, htruthy⟩ := hchildren
          have hlookup : fields.lookup "children" = some v := hv
          rw [hlookup, Option.map_some, Option.getD_some, htruthy] at ht
          cases ht
        · exact ih h n hrest hchildren
    | _ => cases h

theorem readTopology_obj {holders : Json → Bool} {fields : List (String × Json)} {nodes : Json}
    (hnodes : fields.lookup "blockdevices" = some nodes) :
    readTopology holders (some (.obj fields)) =
      (if nodes.truthy then busyIn holders nodes else .ok true).bind fun inUse =>
        (if nodes.iterable then anyParent nodes.elements else .error .typeError).bind
          fun children => .ok (inUse, children) := by
  by_cases ht : nodes.truthy = true <;> by_cases hi : nodes.iterable = true <;>
    simp [readTopology, hnodes, ht, hi, bind, Except.bind, pure, Except.pure]

theorem readTopology_eq_idle {holders : Json → Bool} {stdout : Option Json} {children : Bool}
    (h : readTopology holders stdout = .ok (false, children)) :
    ∃ fields nodes, stdout = some (.obj fields) ∧ fields.lookup "blockdevices" = some nodes ∧
      nodes.truthy = true ∧ (∀ n ∈ nodesIn nodes, Quiet holders n) ∧
      anyParent nodes.elements = .ok children := by
  cases stdout with
  | none => cases h
  | some root =>
    cases root with
    | obj fields =>
      cases hnodes : fields.lookup "blockdevices" with
      | none => simp [readTopology, hnodes, bind, Except.bind] at h
      | some nodes =>
        rw [readTopology_obj hnodes] at h
        obtain ⟨used, hused, h⟩ := bind_eq_ok.mp h
        obtain ⟨found, hfound, h⟩ := bind_eq_ok.mp h
        obtain ⟨rfl, rfl⟩ := Prod.mk.inj (Except.ok.inj h)
        have htruthy : nodes.truthy = true := by
          by_contra hempty
          rw [if_neg hempty] at hused
          cases hused
        rw [if_pos htruthy] at hused
        refine ⟨fields, nodes, rfl, hnodes, htruthy, quiet_of_busyIn nodes hused, ?_⟩
        split at hfound
        · exact hfound
        · cases hfound
    | _ => cases h

/-- The safety checks a disk passes before it is overwritten. -/
structure Overwritable (cfg : DiskConfig) (d : Disk δ) (p : Probe) : Prop where
  bootKnown : cfg.bootDisk ≠ ""
  notBoot : d.name ≠ cfg.bootDisk
  notLog : cfg.logDisk ≠ "" → d.name ≠ cfg.logDisk
  signaturesRead : p.signaturesCode = 0
  topologyRead : p.topologyCode = 0
  idle : ∃ fields nodes, p.topology = some (.obj fields) ∧
    fields.lookup "blockdevices" = some nodes ∧ nodes.truthy = true ∧
    (∀ n ∈ nodesIn nodes, Quiet p.holders n) ∧
    (cfg.opts.destructive = "force" ∨ ∀ n ∈ nodes.elements, ¬ HasChildren n)
  blank : cfg.opts.destructive = "force" ∨ strip p.signatures = ""

theorem DiskConfig.overwritable_of_eligible {cfg : DiskConfig} {d : Disk δ} {p : Probe}
    (h : cfg.eligible d p = .ok true) : Overwritable cfg d p := by
  rw [DiskConfig.eligible] at h
  cases ht : readTopology p.holders p.topology with
  | error e =>
    rw [ht] at h
    cases e <;> simp [bind, Except.bind, pure, Except.pure] at h
  | ok found =>
    obtain ⟨inUse, children⟩ := found
    simp only [ht, bind, Except.bind, pure, Except.pure, Except.ok.injEq, Bool.not_eq_true',
      Bool.or_eq_false_iff, Bool.and_eq_false_iff, decide_eq_false_iff_not, not_not] at h
    obtain ⟨⟨⟨⟨⟨hboot, hexclude⟩, huse⟩, hsig⟩, htop⟩, hblank⟩ := h
    subst huse
    obtain ⟨fields, nodes, hout, hnodes, htruthy, hquiet, hparent⟩ := readTopology_eq_idle ht
    have hout' : d.name ∉ cfg.exclude := by simpa using hexclude
    have hnot : ∀ name, name ≠ "" → (name = cfg.bootDisk ∨ name = cfg.logDisk) → d.name ≠ name := by
      intro name hne hname heq
      refine hout' ?_
      rw [DiskConfig.exclude, heq, List.mem_filter]
      exact ⟨by simpa using hname, by simpa using hne⟩
    refine ⟨hboot, hnot _ hboot (Or.inl rfl), fun hlog => hnot _ hlog (Or.inr rfl), hsig, htop,
      ⟨fields, nodes, hout, hnodes, htruthy, hquiet, ?_⟩, ?_⟩
    · rcases hblank with ⟨-, hc⟩ | hforce
      · exact Or.inr (not_hasChildren_of_anyParent (by rw [hparent, hc]))
      · exact Or.inl hforce
    · rcases hblank with ⟨hs, -⟩ | hforce
      · exact Or.inr hs
      · exact Or.inl hforce

end PcCheck
