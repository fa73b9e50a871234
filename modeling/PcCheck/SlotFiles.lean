/-
The rotating files as texts on a disk (`atomic_write`, `write_rotating`, `read_rotating` and
`load_json` of `util.py`).

A save writes the JSON text of a dict to a file beside its slot and puts that in the place of
the slot.  It may raise before that (the disk is full, or a thread changes the dict while it
is written), and its number is used up then.  A crash may catch a save at any of its steps.
-/
import PcCheck.Boots
import PcCheck.Lib.CrashFs
import PcCheck.Lib.JsonText

namespace PcCheck
namespace SlotFiles

open EventMachine JsonText CrashFs

/-- A file that `read_rotating` looks at, or the one that `atomic_write` fills beside it. -/
inductive Path where
  | file (p : Place)
  | tmp (p : Place)
  deriving DecidableEq

abbrev Content := Option (List Char)

abbrev Files := CrashFs.Disk Path Char

def loadJson (content : Content) : Option Doc := content.bind loads

/-- `data.get("save_seq", 0)` as the number it is compared as.  Of a text, a null, a list or a
dict there is none, and neither of a float here. -/
def saveSeq : Doc → Option Int
  | .obj fields =>
    match Dict.assoc "save_seq" fields with
    | none => some 0
    | some (.num n) => n.toInt?
    | some (.bool b) => some (if b then 1 else 0)
    | some _ => none
  | _ => some 0

/-- What `read_rotating` finds at one path, or `none` where the comparison raises. -/
def candidate (content : Content) : Option (Option (Saved Doc)) :=
  match loadJson content with
  | some (.obj fields) => (saveSeq (.obj fields)).map fun seq => some ⟨.obj fields, seq⟩
  | some (.arr items) => some (some ⟨.arr items, 0⟩)
  | _ => some none

def readRotating (d : Files) : Option (Option Doc × Int) :=
  (candidate (d (.file .slot0)).now).bind fun first =>
    (candidate (d (.file .slot1)).now).bind fun second =>
      (candidate (d (.file .base)).now).map fun legacy =>
        [first, second, legacy].foldl RotatingFiles.consider (none, -1)

/-- A dict of JSON values. -/
structure Record where
  fields : Dict String Doc
  proper : ∀ e ∈ fields.entries, e.2.Proper

namespace Record

def withSeq (obj : Record) (seq : Int) : Doc :=
  .obj (obj.fields.set "save_seq" (.num (.ofInt seq))).entries

def text (obj : Record) (seq : Int) : List Char := dumps (obj.withSeq seq)

/-- What is read back of a save. -/
def saved (obj : Record) (seq : Int) : Saved Doc := ⟨(obj.withSeq seq).sorted, seq⟩

end Record

def writeOps (obj : Record) (seq : Int) : List (Op Path Char) :=
  atomicWrite (.tmp (Place.ofSeq seq)) (.file (Place.ofSeq seq)) (obj.text seq)

inductive Event where
  | save (obj : Record)
  /-- A save that raises after some of its steps, none of them the rename. -/
  | fail (obj : Record) (k : Nat)
  /-- A crash after some of the steps of a save. -/
  | crash (obj : Record) (k : Nat) (fates : Path → Fate Char)

/-- The disk, the number of the last save, and the saves that completed or landed, newest
first. -/
structure World where
  disk : Files
  seq : Int
  completed : List (Saved Doc) := []

namespace World

def resumeSeq (first : Int) (d : Files) : Int :=
  match readRotating d with
  | some (some _, seq) => seq
  | _ => first

def save (w : World) (obj : Record) : World :=
  { disk := w.disk.execAll (writeOps obj (w.seq + 1)), seq := w.seq + 1,
    completed := obj.saved (w.seq + 1) :: w.completed }

def fail (w : World) (obj : Record) (k : Nat) : World :=
  { w with disk := w.disk.execAll ((writeOps obj (w.seq + 1)).take (min k 3)), seq := w.seq + 1 }

/-- The disk that a crash leaves. -/
def crashed (w : World) (obj : Record) (k : Nat) (fates : Path → Fate Char) : Files :=
  (w.disk.execAll ((writeOps obj (w.seq + 1)).take k)).crash fates

/-- The save that a crash caught has landed when its slot holds the whole text. -/
def Landed (w : World) (obj : Record) (d : Files) : Prop :=
  (d (.file (Place.ofSeq (w.seq + 1)))).now = some (obj.text (w.seq + 1))

instance (w : World) (obj : Record) (d : Files) : Decidable (w.Landed obj d) :=
  inferInstanceAs (Decidable (_ = _))

def crash (first : Int) (w : World) (obj : Record) (k : Nat) (fates : Path → Fate Char) : World :=
  let d := w.crashed obj k fates
  { disk := d, seq := resumeSeq first d,
    completed := if w.Landed obj d then obj.saved (w.seq + 1) :: w.completed else w.completed }

end World

def step (first : Int) (w : World) : Event → Option World
  | .save obj => some (w.save obj)
  | .fail obj k => some (w.fail obj k)
  | .crash obj k fates => some (w.crash first obj k fates)

/-- The first boot finds at most the single file of an older version. -/
def opened (first : Int) (legacy : Content) : World :=
  let d : Files := fun p => { now := if p = .file .base then legacy else none }
  { disk := d, seq := World.resumeSeq first d }

/-! ## What one text is read as -/

theorem proper_withSeq (obj : Record) (seq : Int) : (obj.withSeq seq).Proper := by
  refine ⟨(obj.fields.set _ _).nodup, properFields_iff.mpr fun e he => ?_⟩
  have hget := Dict.get?_eq_some_iff.mpr he
  rw [Dict.get?_set] at hget
  split at hget
  · rw [← Option.some.inj hget]
    trivial
  · exact obj.proper _ (Dict.get?_eq_some_iff.mp hget)

theorem candidate_text (obj : Record) (seq : Int) :
    candidate (some (obj.text seq)) = some (some (obj.saved seq)) := by
  have hseq : saveSeq (obj.withSeq seq).sorted = some seq := by
    have hassoc := assoc_sorted (proper_withSeq obj seq).1 "save_seq"
    have hget : Dict.assoc "save_seq" (obj.fields.set "save_seq" (.num (.ofInt seq))).entries =
        some (.num (.ofInt seq)) := Dict.get?_set_self _ _ _
    rw [hget] at hassoc
    show saveSeq (.obj _) = _
    rw [saveSeq, hassoc]
    exact Literal.toInt?_ofInt seq
  have hload : loadJson (some (obj.text seq)) = some (obj.withSeq seq).sorted :=
    loads_dumps (proper_withSeq obj seq)
  rw [candidate, hload]
  exact congrArg (Option.map _) hseq

/-- A save that is cut short leaves nothing to read. -/
theorem candidate_cut {obj : Record} {seq : Int} {s : List Char} (hs : s <+: obj.text seq)
    (hne : s ≠ obj.text seq) : candidate (some s) = some none := by
  have hload : loadJson (some s) = none :=
    loads_of_cut (proper_withSeq obj seq) trivial hs hne
  rw [candidate, hload]

/-! ## The disk as a register -/

/-- What `read_rotating` finds at every path. -/
def files (d : Files) : RotatingFiles Doc := fun p => (candidate (d (.file p)).now).getD none

/-- No comparison raises. -/
def Comparable (d : Files) : Prop := ∀ p, (candidate (d (.file p)).now).isSome

theorem readRotating_eq {d : Files} (h : Comparable d) :
    readRotating d = some (files d).readRotating := by
  have hfile : ∀ p, candidate (d (.file p)).now = some (files d p) := by
    intro p
    obtain ⟨c, hc⟩ := Option.isSome_iff_exists.mp (h p)
    rw [files, hc, Option.getD_some]
  rw [readRotating, hfile, hfile, hfile]
  rfl

/-- A count that starts after -1 goes on from what `read_rotating` reports. -/
theorem resumeSeq_eq {d : Files} (h : Comparable d) :
    World.resumeSeq (-1) d = (files d).readRotating.2 := by
  unfold World.resumeSeq
  rw [readRotating_eq h]
  rcases RotatingFiles.readRotating_cases (files d) with hnone | ⟨p, c, -, hc⟩
  · rw [hnone]
  · rw [hc]

section Crash

variable {d : Files} {obj : Record} {seq : Int}

theorem file_ne_tmp (p q : Place) : Path.file p ≠ Path.tmp q := nofun

theorem files_congr {d d' : Files} {p : Place} (h : (d' (.file p)).now = (d (.file p)).now) :
    files d' p = files d p := by
  unfold files
  rw [h]

/-- A completed save is the put of the register. -/
theorem files_save (h : ∀ p, d.Settled (.file p)) :
    files (d.execAll (writeOps obj seq)) = (files d).put Place.ofSeq (obj.saved seq) := by
  funext p
  by_cases hp : p = Place.ofSeq seq
  · subst hp
    have hself : (files d).put Place.ofSeq (obj.saved seq) (Place.ofSeq seq) =
        some (obj.saved seq) := Register.put_self (files d) (obj.saved seq)
    have hdone := atomicWrite_done (obj.text seq) (h (Place.ofSeq seq))
      (file_ne_tmp (Place.ofSeq seq) (Place.ofSeq seq))
    rw [hself, files, writeOps, hdone, candidate_text, Option.getD_some]
  · rw [Register.put_of_ne (files d) (obj.saved seq) hp]
    have hother := atomicWrite_other (obj.text seq) (h p)
      (file_ne_tmp p (Place.ofSeq seq)) (fun heq => hp (Path.file.inj heq)) 5
    exact files_congr (congrArg File.now hother)

/-- Before the rename nothing is changed that `read_rotating` looks at. -/
theorem fail_file (h : ∀ p, d.Settled (.file p)) {k : Nat} (hk : k ≤ 3) (p : Place) :
    d.execAll ((writeOps obj seq).take k) (.file p) = d (.file p) := by
  by_cases hp : p = Place.ofSeq seq
  · subst hp
    exact atomicWrite_before_rename (obj.text seq) (h _) (file_ne_tmp _ _) hk
  · exact atomicWrite_other (obj.text seq) (h p) (file_ne_tmp _ _)
      (fun heq => hp (Path.file.inj heq)) k

/-- A crash changes the slot of the save it catches and no other. -/
theorem crash_file (h : ∀ p, d.Settled (.file p)) (k : Nat) (fates : Path → Fate Char) {p : Place}
    (hp : p ≠ Place.ofSeq seq) :
    ((d.execAll ((writeOps obj seq).take k)).crash fates (.file p)).now = (d (.file p)).now := by
  have hother := atomicWrite_other (obj.text seq) (h p)
    (file_ne_tmp p (Place.ofSeq seq)) (fun heq => hp (Path.file.inj heq)) k
  show (d.execAll ((writeOps obj seq).take k) (.file p)).left (fates (.file p)) = _
  rw [writeOps, hother]
  exact File.left_of_settled (h p) _

/-- The slot of a save that a crash catches reads as before, as the save, or not at all. -/
theorem candidate_crash (obj : Record) (h : ∀ p, d.Settled (.file p)) (k : Nat)
    (fates : Path → Fate Char) {c : Content}
    (hc : ((d.execAll ((writeOps obj seq).take k)).crash fates (.file (Place.ofSeq seq))).now = c) :
    c = some (obj.text seq) ∨ c = (d (.file (Place.ofSeq seq))).now ∨
      candidate c = some none := by
  have hbetween := crash_atomicWrite (obj.text seq) (h (Place.ofSeq seq))
    (file_ne_tmp (Place.ofSeq seq) (Place.ofSeq seq)) k fates
  rw [← writeOps, hc] at hbetween
  rcases hbetween with rfl | hold | ⟨s, rfl, hprefix⟩
  · exact .inr (.inr rfl)
  · exact .inr (.inl hold)
  · by_cases hwhole : s = obj.text seq
    · exact .inl (congrArg some hwhole)
    · exact .inr (.inr (candidate_cut hprefix hwhole))

end Crash

/-! ## What is read back over many boots -/

/-- The file of an older version has no `save_seq`, or is not read at all. -/
def Unnumbered (legacy : Content) : Prop :=
  ∃ c, candidate legacy = some c ∧ ∀ d ∈ c, d.stamp = 0

def legacyFile (legacy : Content) : Option (Saved Doc) := (candidate legacy).getD none

/-- What `read_rotating` returns is the newest save that completed or landed, and the legacy
file while there is none. -/
def ReadsNewest (legacy : Content) (w : World) : Prop :=
  readRotating w.disk = some (Boots.newest ((legacyFile legacy).map Copy.val) w.completed)

/-- The slot of the save that the crash caught holds neither what it held nor the save. -/
def Torn (w : World) (obj : Record) (d : Files) : Prop :=
  ¬ w.Landed obj d ∧ (d (.file (Place.ofSeq (w.seq + 1)))).now ≠
    (w.disk (.file (Place.ofSeq (w.seq + 1)))).now

/-- No crash tears a slot after an odd number of saves in a row has failed. -/
def Safe (w : World) : Event → Prop
  | .crash obj k fates => Torn w obj (w.crashed obj k fates) →
      ∀ c ∈ w.completed.head?, (w.seq - c.stamp) % 2 = 0
  | _ => True

structure Inv (first : Int) (legacy : Content) (w : World) : Prop where
  settled : ∀ p, w.disk.Settled (.file p)
  comparable : Comparable w.disk
  base : files w.disk .base = legacyFile legacy
  readable : ∀ k d, k ≠ .base → files w.disk k = some d → d ∈ w.completed
  blank : w.completed = [] → -1 ≤ w.seq ∧ ((legacyFile legacy).isSome → 0 ≤ w.seq)
  held : ∀ d, w.completed.head? = some d →
    Register.Holds Place.ofSeq (files w.disk) d ∧ 0 ≤ d.stamp ∧ d.stamp ≤ w.seq

section Runs

variable {first : Int} {legacy : Content} {w : World}

theorem slots_blank (h : Inv first legacy w) (hnil : w.completed = []) {k : Place}
    (hk : k ≠ .base) : files w.disk k = none := by
  cases hfile : files w.disk k with
  | none => rfl
  | some d =>
    have hmem := h.readable k d hk hfile
    rw [hnil] at hmem
    cases hmem

theorem legacy_stamp (hlegacy : Unnumbered legacy) {d : Saved Doc}
    (hd : legacyFile legacy = some d) : d.stamp = 0 := by
  obtain ⟨c, hc, hstamp⟩ := hlegacy
  rw [legacyFile, hc, Option.getD_some] at hd
  exact hstamp d hd

theorem readsNewest_of_inv (hlegacy : Unnumbered legacy) (h : Inv first legacy w) :
    ReadsNewest legacy w := by
  rw [ReadsNewest, readRotating_eq h.comparable]
  cases hcase : w.completed with
  | nil =>
    have h0 := slots_blank h hcase (k := .slot0) (by decide)
    have h1 := slots_blank h hcase (k := .slot1) (by decide)
    unfold RotatingFiles.readRotating
    rw [h0, h1, h.base]
    cases hfile : legacyFile legacy with
    | none => rfl
    | some d =>
      have hstamp := legacy_stamp hlegacy hfile
      show some (RotatingFiles.consider (none, -1) (some d)) = _
      rw [RotatingFiles.consider_some, hstamp]
      rfl
  | cons d rest =>
    obtain ⟨hholds, hpos, -⟩ := h.held d (by rw [hcase]; rfl)
    exact congrArg some (RotatingFiles.readRotating_of_holds hholds hpos)

/-- The next number is above every file's. -/
theorem below_next (hlegacy : Unnumbered legacy) (h : Inv first legacy w) :
    (files w.disk).Below (w.seq + 1) ∧ 0 ≤ w.seq + 1 := by
  cases hcase : w.completed with
  | nil =>
    obtain ⟨hseq, hsome⟩ := h.blank hcase
    refine ⟨fun k d hd => ?_, by omega⟩
    by_cases hk : k = .base
    · rw [hk, h.base] at hd
      rw [legacy_stamp hlegacy hd]
      have hpos := hsome (by rw [hd]; rfl)
      omega
    · rw [slots_blank h hcase hk] at hd
      cases hd
  | cons c rest =>
    obtain ⟨hholds, hpos, hseq⟩ := h.held c (by rw [hcase]; rfl)
    exact ⟨hholds.below_of_lt (by omega), by omega⟩

/-- A put under the next number keeps the invariant, however it came to the disk. -/
theorem inv_put (hlegacy : Unnumbered legacy) (h : Inv first legacy w)
    {obj : Record} {d : Files} {seq : Int} (hsettled : ∀ p, d.Settled (.file p))
    (hcomparable : Comparable d)
    (hput : files d = (files w.disk).put Place.ofSeq (obj.saved (w.seq + 1)))
    (hseq : w.seq + 1 ≤ seq) :
    Inv first legacy
      { disk := d, seq := seq, completed := obj.saved (w.seq + 1) :: w.completed } := by
  obtain ⟨hbelow, hpos⟩ := below_next hlegacy h
  refine ⟨hsettled, hcomparable, ?_, fun k e hk he => ?_, nofun, fun e he => ?_⟩
  · show files d .base = _
    rw [hput, ← h.base]
    exact Register.put_of_ne (files w.disk) (obj.saved (w.seq + 1))
      (Boots.ofSeq_ne_base (w.seq + 1)).symm
  · change files d k = some e at he
    rw [hput] at he
    by_cases hself : k = Place.ofSeq (w.seq + 1)
    · subst hself
      have hsome : (files w.disk).put Place.ofSeq (obj.saved (w.seq + 1))
          (Place.ofSeq (w.seq + 1)) = some (obj.saved (w.seq + 1)) :=
        Register.put_self (files w.disk) (obj.saved (w.seq + 1))
      rw [← Option.some.inj (hsome.symm.trans he)]
      exact List.mem_cons_self
    · rw [Register.put_of_ne (files w.disk) (obj.saved (w.seq + 1)) hself] at he
      exact List.mem_cons_of_mem _ (h.readable k e hk he)
  · obtain rfl := Option.some.inj he
    refine ⟨?_, hpos, hseq⟩
    show Register.Holds Place.ofSeq (files d) _
    rw [hput]
    exact Register.Holds.put_of_below hbelow

theorem settled_execAll (h : ∀ p, w.disk.Settled (.file p)) (obj : Record) (seq : Int)
    (p : Place) : (w.disk.execAll (writeOps obj seq)).Settled (.file p) := by
  by_cases hp : p = Place.ofSeq seq
  · subst hp
    have hdone := atomicWrite_done (obj.text seq) (h (Place.ofSeq seq))
      (file_ne_tmp (Place.ofSeq seq) (Place.ofSeq seq))
    show File.Settled _
    rw [writeOps, hdone]
    exact ⟨rfl, rfl⟩
  · have hother := atomicWrite_other (obj.text seq) (h p)
      (file_ne_tmp p (Place.ofSeq seq)) (fun heq => hp (Path.file.inj heq)) 5
    show File.Settled _
    rw [writeOps, show w.disk.execAll (atomicWrite _ _ _) _ = _ from hother]
    exact h p

theorem comparable_save (h : ∀ p, w.disk.Settled (.file p)) (hcomparable : Comparable w.disk)
    (obj : Record) (seq : Int) : Comparable (w.disk.execAll (writeOps obj seq)) := by
  intro p
  by_cases hp : p = Place.ofSeq seq
  · subst hp
    have hdone := atomicWrite_done (obj.text seq) (h (Place.ofSeq seq))
      (file_ne_tmp (Place.ofSeq seq) (Place.ofSeq seq))
    rw [writeOps, hdone, candidate_text]
    rfl
  · have hother := atomicWrite_other (obj.text seq) (h p)
      (file_ne_tmp p (Place.ofSeq seq)) (fun heq => hp (Path.file.inj heq)) 5
    have hnow := congrArg (fun f : File Char => candidate f.now) hother
    exact (congrArg Option.isSome hnow).trans (hcomparable p)

theorem comparable_crashed (h : Inv first legacy w) (obj : Record) (k : Nat)
    (fates : Path → Fate Char) : Comparable (w.crashed obj k fates) := by
  intro p
  by_cases hp : p = Place.ofSeq (w.seq + 1)
  · subst hp
    rcases candidate_crash obj h.settled k fates rfl with hnew | hold | hnone
    · rw [World.crashed, hnew, candidate_text]
      rfl
    · rw [World.crashed, hold]
      exact h.comparable _
    · rw [World.crashed, hnone]
      rfl
  · rw [World.crashed, crash_file h.settled k fates hp]
    exact h.comparable p

theorem inv_save (hlegacy : Unnumbered legacy) (h : Inv first legacy w)
    (obj : Record) : Inv first legacy (w.save obj) :=
  inv_put hlegacy h (settled_execAll h.settled obj _)
    (comparable_save h.settled h.comparable obj _) (files_save h.settled) (le_refl _)

/-- A save that raises costs its number and nothing else. -/
theorem inv_fail (h : Inv first legacy w) (obj : Record) (k : Nat) :
    Inv first legacy (w.fail obj k) := by
  have hfile : ∀ p, (w.fail obj k).disk (.file p) = w.disk (.file p) :=
    fail_file h.settled (min_le_right k 3)
  have hfiles : files (w.fail obj k).disk = files w.disk :=
    funext fun p => files_congr (congrArg File.now (hfile p))
  refine ⟨fun p => ?_, fun p => ?_, hfiles ▸ h.base, hfiles ▸ h.readable, fun hnil => ?_,
    fun d hd => ?_⟩
  · show File.Settled _
    rw [hfile p]
    exact h.settled p
  · rw [hfile p]
    exact h.comparable p
  · obtain ⟨hseq, hsome⟩ := h.blank hnil
    refine ⟨?_, fun hleg => ?_⟩
    · show -1 ≤ w.seq + 1
      omega
    · have hpos := hsome hleg
      show 0 ≤ w.seq + 1
      omega
  · obtain ⟨hholds, hpos, hseq⟩ := h.held d hd
    refine ⟨hfiles ▸ hholds, hpos, ?_⟩
    show d.stamp ≤ w.seq + 1
    omega

/-- The next boot goes on from the number of what it reads. -/
theorem inv_resume (hfirst : -1 ≤ first) (hlegacy : Unnumbered legacy) (h : Inv first legacy w) :
    Inv first legacy { w with seq := World.resumeSeq first w.disk } := by
  have hread : readRotating w.disk = _ := readsNewest_of_inv hlegacy h
  refine ⟨h.settled, h.comparable, h.base, h.readable, fun hnil => ?_, fun d hd => ?_⟩
  · have hblank : w.completed = [] := hnil
    rw [hblank] at hread
    have hresume : World.resumeSeq first w.disk =
        if (legacyFile legacy).isSome then 0 else first := by
      unfold World.resumeSeq
      rw [hread]
      cases legacyFile legacy <;> rfl
    show -1 ≤ World.resumeSeq first w.disk ∧ (_ → 0 ≤ World.resumeSeq first w.disk)
    rw [hresume]
    split
    next hleg => exact ⟨by omega, fun _ => le_refl 0⟩
    next hleg => exact ⟨hfirst, fun hleg' => absurd hleg' hleg⟩
  · obtain ⟨hholds, hpos, -⟩ := h.held d hd
    refine ⟨hholds, hpos, ?_⟩
    have hresume : World.resumeSeq first w.disk = d.stamp := by
      obtain ⟨rest, hrest⟩ : ∃ rest, w.completed = d :: rest := by
        cases hcase : w.completed with
        | nil =>
          change w.completed.head? = some d at hd
          rw [hcase] at hd
          cases hd
        | cons c rest =>
          change w.completed.head? = some d at hd
          rw [hcase] at hd
          exact ⟨rest, by rw [Option.some.inj hd]⟩
      unfold World.resumeSeq
      rw [hread, hrest]
      rfl
    exact hresume.ge

/-- A crash leaves the slot of the save it catches as it was, holding the save, or torn. -/
theorem files_crashed (h : Inv first legacy w) (obj : Record) (k : Nat)
    (fates : Path → Fate Char) :
    (w.Landed obj (w.crashed obj k fates) ∧ files (w.crashed obj k fates) =
        (files w.disk).put Place.ofSeq (obj.saved (w.seq + 1))) ∨
      (¬ w.Landed obj (w.crashed obj k fates) ∧ ¬ Torn w obj (w.crashed obj k fates) ∧
        files (w.crashed obj k fates) = files w.disk) ∨
      (¬ w.Landed obj (w.crashed obj k fates) ∧ Torn w obj (w.crashed obj k fates) ∧
        files (w.crashed obj k fates) = (files w.disk).tear (Place.ofSeq (w.seq + 1))) := by
  have hother : ∀ p, p ≠ Place.ofSeq (w.seq + 1) →
      files (w.crashed obj k fates) p = files w.disk p :=
    fun p hp => files_congr (crash_file h.settled k fates hp)
  by_cases hlanded : w.Landed obj (w.crashed obj k fates)
  · refine .inl ⟨hlanded, funext fun p => ?_⟩
    by_cases hp : p = Place.ofSeq (w.seq + 1)
    · subst hp
      have hself : (files w.disk).put Place.ofSeq (obj.saved (w.seq + 1))
          (Place.ofSeq (w.seq + 1)) = some (obj.saved (w.seq + 1)) :=
        Register.put_self (files w.disk) (obj.saved (w.seq + 1))
      rw [files, hlanded, candidate_text]
      exact hself.symm
    · rw [hother p hp]
      exact (Register.put_of_ne (files w.disk) (obj.saved (w.seq + 1)) hp).symm
  · right
    by_cases hsame : (w.crashed obj k fates (.file (Place.ofSeq (w.seq + 1)))).now =
        (w.disk (.file (Place.ofSeq (w.seq + 1)))).now
    · refine .inl ⟨hlanded, fun htorn => htorn.2 hsame, funext fun p => ?_⟩
      by_cases hp : p = Place.ofSeq (w.seq + 1)
      · exact hp ▸ files_congr hsame
      · exact hother p hp
    · refine .inr ⟨hlanded, ⟨hlanded, hsame⟩, funext fun p => ?_⟩
      by_cases hp : p = Place.ofSeq (w.seq + 1)
      · subst hp
        rw [Register.tear_self, files]
        rcases candidate_crash obj h.settled k fates rfl with hnew | hold | hnone
        · exact absurd hnew hlanded
        · exact absurd hold hsame
        · rw [World.crashed, hnone, Option.getD_some]
      · rw [hother p hp, Register.tear_of_ne _ hp]

theorem ofSeq_ne_of_even {m n : Int} (h : (m - n) % 2 = 0) :
    Place.ofSeq (m + 1) ≠ Place.ofSeq n := by
  rw [Ne, Place.ofSeq_eq_iff]
  omega

theorem inv_crash (hfirst : -1 ≤ first) (hlegacy : Unnumbered legacy) (h : Inv first legacy w)
    {obj : Record} {k : Nat} {fates : Path → Fate Char} (hsafe : Safe w (.crash obj k fates)) :
    Inv first legacy (w.crash first obj k fates) := by
  have hsettled : ∀ p, (w.crashed obj k fates).Settled (.file p) :=
    fun p => CrashFs.Disk.settled_crash _ _ _
  have hcomparable := comparable_crashed h obj k fates
  unfold World.crash
  dsimp only
  rcases files_crashed h obj k fates with ⟨hlanded, hfiles⟩ | ⟨hlanded, -, hfiles⟩ |
    ⟨hlanded, htorn, hfiles⟩
  · rw [if_pos hlanded]
    exact inv_resume hfirst hlegacy (inv_put hlegacy h hsettled hcomparable hfiles (le_refl _))
  · rw [if_neg hlanded]
    exact inv_resume hfirst
      (w := { disk := w.crashed obj k fates, seq := w.seq, completed := w.completed })
      hlegacy ⟨hsettled, hcomparable, hfiles ▸ h.base, hfiles ▸ h.readable, h.blank,
        hfiles ▸ h.held⟩
  · rw [if_neg hlanded]
    have hslot : Place.base ≠ Place.ofSeq (w.seq + 1) := (Boots.ofSeq_ne_base _).symm
    refine inv_resume hfirst
      (w := { disk := w.crashed obj k fates, seq := w.seq, completed := w.completed })
      hlegacy ⟨hsettled, hcomparable, ?_, fun p d hp hd => ?_, h.blank, fun d hd => ?_⟩
    · rw [hfiles, Register.tear_of_ne _ hslot]
      exact h.base
    · rw [hfiles] at hd
      by_cases hpp : p = Place.ofSeq (w.seq + 1)
      · rw [hpp, Register.tear_self] at hd
        cases hd
      · rw [Register.tear_of_ne _ hpp] at hd
        exact h.readable p d hp hd
    · obtain ⟨hholds, hpos, hseq⟩ := h.held d hd
      refine ⟨?_, hpos, hseq⟩
      rw [hfiles]
      exact hholds.tear_other (ofSeq_ne_of_even (hsafe htorn d hd))

/-- A slot torn after an odd number of failed saves is the one of the newest save. -/
theorem safe_of_readsNewest (h : Inv first legacy w) {obj : Record} {k : Nat}
    {fates : Path → Fate Char} (hread : ReadsNewest legacy (w.crash first obj k fates)) :
    Safe w (.crash obj k fates) := by
  intro htorn c hc
  by_contra hodd
  obtain ⟨hholds, hpos, -⟩ := h.held c hc
  have hslot : Place.ofSeq (w.seq + 1) = Place.ofSeq c.stamp := by
    rw [Place.ofSeq_eq_iff]
    omega
  have hbelow : (files (w.crashed obj k fates)).Below c.stamp := by
    rcases files_crashed h obj k fates with ⟨hlanded, -⟩ | ⟨-, hsame, -⟩ | ⟨-, -, hfiles⟩
    · exact absurd hlanded htorn.1
    · exact absurd htorn hsame
    · rw [hfiles, hslot]
      exact hholds.tear_own
  have hlt := RotatingFiles.readRotating_lt_of_below hbelow hpos
  have hcompleted : (w.crash first obj k fates).completed = w.completed := if_neg htorn.1
  have hdisk : (w.crash first obj k fates).disk = w.crashed obj k fates := rfl
  rw [ReadsNewest, hdisk, hcompleted, readRotating_eq (comparable_crashed h obj k fates)] at hread
  rw [Option.some.inj hread] at hlt
  cases hcase : w.completed with
  | nil =>
    rw [hcase] at hc
    cases hc
  | cons d rest =>
    rw [hcase] at hc hlt
    obtain rfl := Option.some.inj hc
    exact absurd hlt (lt_irrefl _)

theorem inv_opened (first : Int) (hfirst : -1 ≤ first) (hlegacy : Unnumbered legacy) :
    Inv first legacy (opened first legacy) := by
  obtain ⟨c, hc, -⟩ := id hlegacy
  have hnow : ∀ p, ((opened first legacy).disk (.file p)).now =
      if p = .base then legacy else none := by
    intro p
    cases p <;> rfl
  have hslots : ∀ k, k ≠ .base → files (opened first legacy).disk k = none := by
    intro k hk
    rw [files, hnow, if_neg hk]
    rfl
  refine inv_resume hfirst (w := { opened first legacy with seq := 0 }) hlegacy
    ⟨fun p => ⟨rfl, rfl⟩, fun p => ?_, ?_, fun k d hk hd => ?_, fun _ => ⟨?_, fun _ => ?_⟩,
      nofun⟩
  · rw [hnow]
    split
    · rw [hc]
      rfl
    · rfl
  · rw [files, hnow, if_pos rfl]
    rfl
  · cases (hslots k hk).symm.trans hd
  · show (-1 : Int) ≤ 0
    decide
  · exact le_refl (0 : Int)

end Runs

theorem run_isSome (first : Int) (w : World) (es : List Event) :
    ∃ u, run (step first) w es = some u := by
  induction es generalizing w with
  | nil => exact ⟨w, rfl⟩
  | cons e es ih =>
    cases e with
    | save obj => exact ih (w.save obj)
    | fail obj k => exact ih (w.fail obj k)
    | crash obj k fates => exact ih (w.crash first obj k fates)

/-- Over any number of boots, with saves that raise and crashes at any step of a save, the newest
save that completed or landed is what is read, exactly as long as no crash tears a slot after an
odd number of saves in a row has failed. -/
theorem reads_newest_iff_safe {first : Int} (hfirst : -1 ≤ first) {legacy : Content}
    (hlegacy : Unnumbered legacy) (es : List Event) :
    Always (step first) (ReadsNewest legacy) (opened first legacy) es ↔
      Along (step first) Safe (opened first legacy) es := by
  obtain ⟨u, hrun⟩ := run_isSome first (opened first legacy) es
  have hall : Along (step first) (fun _ _ => True) (opened first legacy) es :=
    along_of_forall fun _ _ _ => trivial
  refine always_iff_along_of (fun w h => readsNewest_of_inv hlegacy h)
    (fun w e t h _ hsafe ht => ?_) (fun w e t h _ ht hread => ?_)
    (inv_opened first hfirst hlegacy) hall hrun
  · cases e with
    | save obj =>
      obtain rfl := Option.some.inj ht
      exact inv_save hlegacy h obj
    | fail obj k =>
      obtain rfl := Option.some.inj ht
      exact inv_fail h obj k
    | crash obj k fates =>
      obtain rfl := Option.some.inj ht
      exact inv_crash hfirst hlegacy h hsafe
  · cases e with
    | save obj => trivial
    | fail obj k => trivial
    | crash obj k fates =>
      obtain rfl := Option.some.inj ht
      exact safe_of_readsNewest h hread

/-- A save that raises costs the next one its slot: a crash then tears the newest copy. -/
theorem reads_newest_unless_safe :
    ¬ Always (step (-1)) (ReadsNewest none) (opened (-1) none)
      [.save ⟨.empty, nofun⟩, .fail ⟨.empty, nofun⟩ 0, .crash ⟨.empty, nofun⟩ 4 fun _ => .gone] := by
  rw [reads_newest_iff_safe (le_refl (-1)) ⟨none, rfl, nofun⟩]
  intro h
  have hsafe := (h.2 _ rfl).2 _ rfl
  have hodd := hsafe.1 ⟨by decide, by decide⟩ _ rfl
  revert hodd
  decide

end SlotFiles
end PcCheck
