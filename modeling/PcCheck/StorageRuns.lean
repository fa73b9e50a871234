/-
What `setup_storage` does to the disks.

A partition is added, and a file system made, only where nothing that outlives a reboot could be
written, only on the boot disk, and only in the partition that was added.  What is returned as
persistent has been written to, and the fallback to RAM means that nothing could be.
-/
import PcCheck.Storage

namespace PcCheck
namespace Storage

open DataPartition Script

/-- The calls that change what is on a disk. -/
def changes : Op → Bool
  | .run (cmd :: rest) _ => cmd == "mkfs.vfat" || (cmd == "sfdisk" && rest.head? == some "--force")
  | _ => false

def formats : Op → Bool
  | .run (cmd :: _) _ => cmd == "mkfs.vfat"
  | _ => false

def probes : Op → Bool
  | .probe _ => true
  | _ => false

/-- The calls that neither change a disk nor try to write. -/
def Quiet (op : Op) : Prop := changes op = false ∧ probes op = false

section Quiet

variable {digits : DigitTable}

theorem calls_run {argv : List String} {input : String} (h : Quiet (.run argv input)) :
    (run argv input).Calls Quiet := calls_perform h

theorem calls_out {argv : List String} (h : Quiet (.run argv "")) : (out argv).Calls Quiet :=
  calls_bind (calls_run h) fun _ => calls_pure _

theorem calls_readFile (path : String) : (readFile path).Calls Quiet := calls_perform ⟨rfl, rfl⟩

theorem calls_orRaise (ok : Bool) : (orRaise ok).Calls Quiet := by
  cases ok
  · exact calls_raise
  · exact calls_pure _

theorem calls_int (s : String) : (int digits s).Calls Quiet := by
  unfold int
  cases digits.int s
  · exact calls_raise
  · exact calls_pure _

theorem calls_findmntSource (path : String) : (findmntSource path).Calls Quiet :=
  calls_bind (calls_out ⟨rfl, rfl⟩) fun _ => calls_pure _

theorem calls_fstypeOf (dev : String) : (fstypeOf dev).Calls Quiet :=
  calls_bind (calls_out ⟨rfl, rfl⟩) fun _ => calls_pure _

theorem calls_parentDisk (dev : String) : (parentDisk dev).Calls Quiet :=
  calls_ite (calls_bind (calls_out ⟨rfl, rfl⟩) fun _ => calls_pure _) (calls_pure _)

theorem calls_labelledDevices : labelledDevices.Calls Quiet :=
  calls_bind (calls_run ⟨rfl, rfl⟩) fun _ => calls_pure _

theorem calls_usableDevice (dev : String) : (usableDevice digits dev).Calls Quiet := by
  refine calls_bind (calls_perform ⟨rfl, rfl⟩) fun opened => ?_
  cases opened with
  | ok => exact calls_pure _
  | failed => exact calls_pure _
  | busy =>
    exact calls_bind (calls_readFile _) fun _ => calls_bind (calls_readFile _) fun _ =>
      calls_bind (calls_parentDisk dev) fun _ => calls_ite (calls_pure _) <|
        calls_bind (calls_int _) fun _ => calls_bind (calls_int _) fun _ =>
          calls_bind (calls_perform ⟨rfl, rfl⟩) fun _ => calls_ite (calls_pure _) <|
            calls_bind (calls_run ⟨rfl, rfl⟩) fun _ =>
              calls_bind (calls_perform ⟨rfl, rfl⟩) fun _ => calls_pure _

theorem calls_repair (fstype target : String) : (repair fstype target).Calls Quiet :=
  calls_ite (calls_bind (calls_run ⟨rfl, rfl⟩) fun _ => calls_pure _) <|
    calls_ite (calls_bind (calls_run ⟨rfl, rfl⟩) fun _ => calls_pure _) (calls_pure _)

theorem calls_mount (dev mountPoint : String) : (mount digits dev mountPoint).Calls Quiet :=
  calls_bind (calls_perform ⟨rfl, rfl⟩) fun _ => calls_bind (calls_orRaise _) fun _ =>
    calls_bind (calls_fstypeOf dev) fun _ => calls_bind (calls_usableDevice dev) fun _ =>
      calls_bind (calls_repair _ _) fun _ => calls_bind (calls_run ⟨rfl, rfl⟩) fun _ =>
        calls_pure _

theorem calls_awaitNode (part : String) (n : Nat) : (awaitNode part n).Calls Quiet := by
  induction n with
  | zero => exact calls_pure _
  | succ n ih =>
    exact calls_bind (calls_perform ⟨rfl, rfl⟩) fun _ => calls_ite (calls_pure _) ih

theorem calls_makeNode (part : String) : (makeNode digits part).Calls Quiet := by
  refine calls_bind (calls_readFile _) fun devnum => calls_ite (calls_pure _) ?_
  generalize ((strip devnum).toList.splitOn ':').map String.ofList = numbers
  match numbers with
  | [major, minor] =>
    exact calls_bind (calls_int _) fun _ => calls_bind (calls_int _) fun _ =>
      calls_bind (calls_perform ⟨rfl, rfl⟩) fun _ => calls_orRaise _
  | [] => exact calls_raise
  | [_] => exact calls_raise
  | _ :: _ :: _ :: _ => exact calls_raise

theorem calls_ensureNode (part : String) : (ensureNode digits part).Calls Quiet :=
  calls_bind (calls_awaitNode part 20) fun _ => calls_ite (calls_pure _) (calls_makeNode part)

theorem calls_sortDevices (bootDisk : String) (devices : List String) :
    (sortDevices bootDisk devices).Calls Quiet :=
  calls_ite (calls_pure _) <|
    calls_bind (calls_mapM calls_parentDisk devices) fun _ => calls_pure _

end Quiet

/-! ## What stands in the trace -/

/-- The whole disk of a device, as `lsblk` has told it or by the name of the device. -/
def ParentOf (h : History) (dev disk : String) : Prop :=
  ∃ pk, ⟨.run ["lsblk", "-ndo", "PKNAME", dev] "", pk⟩ ∈ h ∧
    disk = if strip (Completed.out pk) ≠ "" then strip (Completed.out pk) else basename dev

/-- The device that the system was started from. -/
def LiveDevice (h : History) (src : String) : Prop :=
  (∃ c, ⟨.run ["findmnt", "-no", "SOURCE", liveMedium] "", c⟩ ∈ h ∧
    src = strip (Completed.out c)) ∨
  ∃ text, ⟨.readFile "/run/live/medium-device", text⟩ ∈ h ∧
    src = ((splitlines text).map strip).getLast?.getD ""

def BootDisk (h : History) (disk : String) : Prop :=
  disk ≠ "" ∧ ∃ src, LiveDevice h src ∧ ParentOf h src disk

/-- The device itself, or a loop device over the sectors of it on its disk. -/
def Stands (digits : DigitTable) (h : History) (part target : String) : Prop :=
  target = part ∨ ∃ (start size : String) (first sectors : Int) (disk : String) (res : Completed),
    ⟨.readFile ("/sys/class/block/" ++ basename part ++ "/start"), start⟩ ∈ h ∧
    ⟨.readFile ("/sys/class/block/" ++ basename part ++ "/size"), size⟩ ∈ h ∧
    digits.int (strip start) = .ok first ∧ digits.int (strip size) = .ok sectors ∧
    ParentOf h part disk ∧ ⟨losetup first sectors disk, res⟩ ∈ h ∧ res.returncode = 0 ∧
    target = strip res.stdout

theorem ParentOf.mono {h h' : History} {dev disk : String} (hp : ParentOf h dev disk)
    (hsub : h ⊆ h') : ParentOf h' dev disk := by
  obtain ⟨pk, hmem, hdisk⟩ := hp
  exact ⟨pk, hsub hmem, hdisk⟩

theorem Stands.mono {digits : DigitTable} {h h' : History} {part target : String}
    (hs : Stands digits h part target) (hsub : h ⊆ h') : Stands digits h' part target := by
  refine hs.imp id ?_
  rintro ⟨start, size, first, sectors, disk, res, hstart, hsize, hfirst, hsectors, hdisk, hres, h⟩
  exact ⟨start, size, first, sectors, disk, res, hsub hstart, hsub hsize, hfirst, hsectors,
    hdisk.mono hsub, hsub hres, h⟩

section Specs

variable {digits : DigitTable} {C : History → Op → Prop} {α : Type}

theorem wp_out_bind {argv : List String} {f : String → Program α}
    {Q : History → Outcome α → Prop} :
    (out argv >>= f).wp C Q ↔ C [] (.run argv "") ∧ ∀ c : Completed,
      (f c.out).wp (fun t => C (⟨.run argv "", c⟩ :: t)) fun t => Q (⟨.run argv "", c⟩ :: t) := by
  unfold out
  rw [bind_assoc]
  exact wp_perform_bind

theorem parentDisk_wp (dev : String) :
    (parentDisk dev).wp (fun _ => Quiet) fun t r =>
      ∀ disk, r = .value disk → disk = "" ∨ ParentOf t dev disk := by
  unfold parentDisk
  refine wp_ite (fun _ => wp_out_bind.mpr ⟨⟨rfl, rfl⟩, fun c => wp_pure.mpr ?_⟩)
    fun _ => wp_pure.mpr ?_
  · intro disk h
    exact .inr ⟨c, List.mem_cons_self, (Outcome.value.inj h).symm⟩
  · intro disk h
    exact .inl (Outcome.value.inj h).symm

theorem int_wp {s : String} {f : Int → Program α} {Q : History → Outcome α → Prop}
    (hf : ∀ n, digits.int s = .ok n → (f n).wp C Q) (hraise : Q [] .raised) :
    (int digits s >>= f).wp C Q := by
  unfold int
  cases h : digits.int s with
  | ok n => exact hf n h
  | error e => exact wp_raise.mpr hraise

theorem usableDevice_wp (dev : String) :
    (usableDevice digits dev).wp (fun _ => Quiet) fun t r =>
      ∀ target, r = .value target → Stands digits t dev target := by
  have hself : ∀ t target, Outcome.value dev = .value target → Stands digits t dev target := by
    intro t target h
    exact .inl (Outcome.value.inj h).symm
  refine wp_perform_bind.mpr ⟨⟨rfl, rfl⟩, fun opened => ?_⟩
  cases opened with
  | ok => exact wp_pure.mpr (hself _)
  | failed => exact wp_pure.mpr (hself _)
  | busy =>
    refine wp_perform_bind.mpr ⟨⟨rfl, rfl⟩, fun start =>
      wp_perform_bind.mpr ⟨⟨rfl, rfl⟩, fun size =>
        wp_bind.mpr (wp_mono (parentDisk_wp dev) (fun _ _ h => h) fun t r hparent => ?_)⟩⟩
    cases r with
    | raised => exact fun _ h => nomatch h
    | cut => exact fun _ h => nomatch h
    | value disk =>
      refine wp_ite (fun _ => wp_pure.mpr (hself _)) fun hnone =>
        int_wp (fun first hfirst => int_wp (fun sectors hsectors => ?_) (fun _ h => nomatch h))
          (fun _ h => nomatch h)
      refine wp_perform_bind.mpr ⟨⟨rfl, rfl⟩, fun res => ?_⟩
      refine wp_ite (fun _ => wp_pure.mpr (hself _)) fun hres =>
        wp_perform_bind.mpr ⟨⟨rfl, rfl⟩, fun _ => wp_perform_bind.mpr ⟨⟨rfl, rfl⟩, fun _ => ?_⟩⟩
      refine wp_pure.mpr fun target h => ?_
      obtain rfl := Outcome.value.inj h
      have hdisk : ParentOf t dev disk :=
        (hparent disk rfl).resolve_left fun hnil => hnone (.inr (.inr (.inl hnil)))
      refine .inr ⟨start, size, first, sectors, disk, res, ?_, ?_, hfirst, hsectors,
        hdisk.mono ?_, ?_, not_not.mp fun hc => hres (.inl hc), rfl⟩
      · exact List.mem_cons_of_mem _ List.mem_cons_self
      · exact List.mem_cons_of_mem _ (List.mem_cons_of_mem _ List.mem_cons_self)
      · exact fun e he => List.mem_cons_of_mem _ (List.mem_cons_of_mem _
          (List.mem_cons_of_mem _ (List.mem_append_left _ he)))
      · exact List.mem_cons_of_mem _ (List.mem_cons_of_mem _
          (List.mem_cons_of_mem _ (List.mem_append_right _ List.mem_cons_self)))

/-- The place that was found for a partition, from what the disk has told about itself. -/
def Planned (digits : DigitTable) (h : History) (dev : String) (start : Int) (label : Label) :
    Prop :=
  ∃ (dump size : Completed) (table : JsonText.Doc) (sfdisk : SfdiskJson) (bytes : Int)
    (pvd : List Nat),
    ⟨.run ["sfdisk", "--json", dev] "", dump⟩ ∈ h ∧
    ⟨.run ["blockdev", "--getsize64", dev] "", size⟩ ∈ h ∧ ⟨.readVolume dev, pvd⟩ ∈ h ∧
    JsonText.loads dump.stdout.toList = some table ∧ sfdiskOf table = some sfdisk ∧
    (strip size.out = "" ∧ bytes = 0 ∨ digits.int (strip size.out) = .ok bytes) ∧
    planPartition (some sfdisk) bytes (volumeSize pvd) 512 = some (start, label)

/-- The partition has appeared after a successful append: it was not listed before it, and is
after it. -/
def Appeared (h : History) (dev : String) (start : Int) (label : Label) (part : String) : Prop :=
  ∃ before app after : Completed,
    [(⟨lsblk dev, before⟩ : Σ op, Op.Answer op), ⟨append dev start label, app⟩,
      ⟨lsblk dev, after⟩].Sublist h ∧
    app.returncode = 0 ∧ part ∈ words after.out ∧ part ∉ words before.out ∧ part ≠ dev

/-- What a call that changes a disk rests on. -/
def Grounds (digits : DigitTable) (dev : String) (h : History) (op : Op) : Prop :=
  ∃ start label, Planned digits h dev start label ∧
    ((op = relocateBackup dev ∧ label = .gpt) ∨ op = append dev start label ∨
      ∃ part target, op = mkfs target ∧ Appeared h dev start label part ∧
        Stands digits h part target ∧ ∀ e ∈ h, formats e.1 = false)

theorem wp_listing_bind {dev : String} {f : List String → Program α}
    {Q : History → Outcome α → Prop} :
    (listing dev >>= f).wp C Q ↔ C [] (lsblk dev) ∧ ∀ c : Completed,
      (f (words c.out)).wp (fun t => C (⟨lsblk dev, c⟩ :: t)) fun t => Q (⟨lsblk dev, c⟩ :: t) := by
  unfold listing
  rw [bind_assoc]
  exact wp_perform_bind

theorem appendPartition_wp (dev : String) (start : Int) (label : Label) :
    (appendPartition dev start label).wp
      (fun _ op => formats op = false ∧ (changes op = true →
        (op = relocateBackup dev ∧ label = .gpt) ∨ op = append dev start label))
      fun t r => ∀ part, r = .value part → part = "" ∨ Appeared t dev start label part := by
  have hrelocate : (relocate dev label).wp
      (fun _ op => formats op = false ∧ (changes op = true →
        (op = relocateBackup dev ∧ label = .gpt) ∨ op = append dev start label))
      fun _ _ => True := by
    refine wp_ite (fun hgpt => ?_) fun _ => wp_pure.mpr trivial
    exact wp_perform_bind.mpr ⟨⟨rfl, fun _ => .inl ⟨rfl, hgpt⟩⟩, fun _ => wp_pure.mpr trivial⟩
  have hquiet : ∀ {op : Op}, formats op = false → changes op = false → formats op = false ∧
      (changes op = true → (op = relocateBackup dev ∧ label = .gpt) ∨ op = append dev start label) :=
    fun hformats hchanges => ⟨hformats, fun h => nomatch hchanges.symm.trans h⟩
  refine wp_bind.mpr (wp_mono hrelocate (fun _ _ h => h) fun t r _ => ?_)
  cases r with
  | raised => exact fun _ h => nomatch h
  | cut => exact fun _ h => nomatch h
  | value _ =>
    refine wp_listing_bind.mpr ⟨hquiet rfl rfl, fun before => wp_perform_bind.mpr
      ⟨⟨rfl, fun _ => .inr rfl⟩, fun app => wp_ite (fun _ => wp_pure.mpr ?_) fun hok => ?_⟩⟩
    · exact fun part h => .inl (Outcome.value.inj h).symm
    · refine wp_perform_bind.mpr ⟨hquiet rfl rfl, fun _ => wp_perform_bind.mpr
        ⟨hquiet rfl rfl, fun _ => wp_listing_bind.mpr ⟨hquiet rfl rfl, fun after =>
          wp_pure.mpr fun part h => ?_⟩⟩⟩
      obtain rfl := Outcome.value.inj h
      generalize hnew : (words (Completed.out after)).filter (fun p =>
        p ∉ words (Completed.out before) ∧ p ≠ dev) = new
      cases hlast : new.getLast? with
      | none => exact .inl rfl
      | some part =>
        right
        have hmem := List.mem_of_getLast? hlast
        rw [← hnew, List.mem_filter, decide_eq_true_iff] at hmem
        refine ⟨before, app, after, ?_, not_not.mp hok, hmem.1, hmem.2⟩
        refine List.Sublist.trans ?_ (List.sublist_append_right t _)
        exact .cons_cons _ (.cons_cons _ (.cons _ (.cons _ (List.Sublist.refl _))))

theorem formats_of_not_changes {op : Op} (h : changes op = false) : formats op = false := by
  unfold changes at h
  unfold formats
  split
  next cmd rest input => exact (Bool.or_eq_false_iff.mp h).1
  next => rfl

theorem format_wp (part : String) :
    (format digits part).wp
      (fun t op => changes op = true → ∃ target, op = mkfs target ∧ Stands digits t part target ∧
        ∀ e ∈ t, formats e.1 = false)
      fun _ _ => True := by
  refine wp_bind.mpr (wp_of_calls (calls_ensureNode part)
    (fun t op hop h => nomatch hop.1.symm.trans h) fun t r ht => ?_)
  cases r with
  | raised => trivial
  | cut => trivial
  | value _ =>
    refine wp_bind.mpr (wp_mono (wp_history (usableDevice_wp part))
      (fun t' op hop h => nomatch hop.1.1.symm.trans h) fun t' r ht' => ?_)
    cases r with
    | raised => trivial
    | cut => trivial
    | value target =>
      have hstands : Stands digits (t ++ (t' ++ [])) part target := by
        rw [List.append_nil]
        exact (ht'.1 target rfl).mono fun e he => List.mem_append_right t he
      have hnone : ∀ e ∈ t ++ (t' ++ []), formats e.1 = false := by
        intro e he
        rw [List.append_nil] at he
        rcases List.mem_append.mp he with he | he
        · exact formats_of_not_changes (ht e he).1
        · exact formats_of_not_changes (ht'.2 e he).1
      refine wp_perform_bind.mpr ⟨fun _ => ⟨target, rfl, hstands, hnone⟩, fun res => ?_⟩
      refine wp_bind.mpr (wp_of_calls (p := Quiet) (b := true) ?_
        (fun _ op hop h => nomatch hop.1.symm.trans h) fun _ r _ => ?_)
      · exact calls_ite (calls_pure _) (calls_bind (calls_run ⟨rfl, rfl⟩) fun _ => calls_pure _)
      · cases r with
        | raised => trivial
        | cut => trivial
        | value _ => exact wp_pure.mpr trivial

theorem diskBytes_wp (dev : String) :
    (diskBytes digits dev).wp (fun _ => Quiet) fun t r => ∀ bytes, r = .value bytes →
      ∃ size : Completed, ⟨.run ["blockdev", "--getsize64", dev] "", size⟩ ∈ t ∧
        (strip size.out = "" ∧ bytes = 0 ∨ digits.int (strip size.out) = .ok bytes) := by
  refine wp_out_bind.mpr ⟨⟨rfl, rfl⟩, fun size => wp_ite (fun hnil => wp_pure.mpr ?_) fun _ => ?_⟩
  · exact fun bytes h => ⟨size, List.mem_cons_self, .inl ⟨hnil, (Outcome.value.inj h).symm⟩⟩
  · unfold int
    cases hint : digits.int (strip (Completed.out size)) with
    | error e => exact wp_raise.mpr fun _ h => nomatch h
    | ok n =>
      refine wp_pure.mpr fun bytes h => ⟨size, List.mem_cons_self, .inr ?_⟩
      rw [hint, Outcome.value.inj h]

theorem wp_isoSizeBytes_bind {dev : String} {f : Int → Program α}
    {Q : History → Outcome α → Prop} :
    (isoSizeBytes dev >>= f).wp C Q ↔ C [] (.readVolume dev) ∧ ∀ pvd : List Nat,
      (f (volumeSize pvd)).wp (fun t => C (⟨.readVolume dev, pvd⟩ :: t))
        fun t => Q (⟨.readVolume dev, pvd⟩ :: t) := by
  unfold isoSizeBytes
  rw [bind_assoc]
  exact wp_perform_bind

theorem plan_wp {doc : JsonText.Doc} {bytes image : Int} {f : Option (Int × Label) → Program α}
    {Q : History → Outcome α → Prop} (hraise : Q [] .raised)
    (hf : ∀ sfdisk, sfdiskOf doc = some sfdisk →
      (f (planPartition (some sfdisk) bytes image 512)).wp C Q) :
    (plan doc bytes image >>= f).wp C Q := by
  unfold plan
  cases hsfdisk : sfdiskOf doc with
  | none => exact wp_raise.mpr hraise
  | some sfdisk =>
    dsimp only
    split
    · exact wp_raise.mpr hraise
    · exact hf sfdisk hsfdisk

theorem Planned.mono {h h' : History} {dev : String} {start : Int} {label : Label}
    (hp : Planned digits h dev start label) (hsub : h ⊆ h') :
    Planned digits h' dev start label := by
  obtain ⟨dump, size, table, sfdisk, bytes, pvd, hdump, hsize, hpvd, h⟩ := hp
  exact ⟨dump, size, table, sfdisk, bytes, pvd, hsub hdump, hsub hsize, hsub hpvd, h⟩

theorem Appeared.mono {h h' : History} {dev : String} {start : Int} {label : Label} {part : String}
    (ha : Appeared h dev start label part) (hsub : h.Sublist h') :
    Appeared h' dev start label part := by
  obtain ⟨before, app, after, hlist, hrest⟩ := ha
  exact ⟨before, app, after, hlist.trans hsub, hrest⟩

theorem createDataPartition_wp (disk : String) :
    (createDataPartition digits disk).wp
      (fun t op => changes op = true → Grounds digits ("/dev/" ++ disk) t op) fun _ _ => True := by
  unfold createDataPartition
  generalize "/dev/" ++ disk = dev
  have hquiet : ∀ {t : History} {op : Op}, changes op = false → changes op = true →
      Grounds digits dev t op := fun hop h => nomatch hop.symm.trans h
  refine wp_perform_bind.mpr ⟨hquiet rfl, fun dump => wp_ite (fun _ => wp_pure.mpr trivial)
    fun _ => ?_⟩
  cases hload : JsonText.loads (Completed.stdout dump).toList with
  | none => exact wp_pure.mpr trivial
  | some table =>
    refine wp_bind.mpr (wp_mono (wp_history (diskBytes_wp dev))
      (fun t op hop => hquiet hop.1.1) fun t r ht => ?_)
    cases r with
    | raised => trivial
    | cut => trivial
    | value bytes =>
      obtain ⟨size, hsize, hbytes⟩ := ht.1 bytes rfl
      refine wp_isoSizeBytes_bind.mpr ⟨hquiet rfl, fun pvd =>
        plan_wp trivial fun sfdisk hsfdisk => ?_⟩
      cases hplan : planPartition (some sfdisk) bytes (volumeSize pvd) 512 with
      | none => exact wp_pure.mpr trivial
      | some p =>
        obtain ⟨start, label⟩ := p
        have hplanned : ∀ t', Planned digits (⟨.run ["sfdisk", "--json", dev] "", dump⟩ ::
            (t ++ ⟨.readVolume dev, pvd⟩ :: t')) dev start label := fun t' =>
          ⟨dump, size, table, sfdisk, bytes, pvd, List.mem_cons_self,
            List.mem_cons_of_mem _ (List.mem_append_left _ hsize),
            List.mem_cons_of_mem _ (List.mem_append_right _ List.mem_cons_self), hload, hsfdisk,
            hbytes, hplan⟩
        refine wp_bind.mpr (wp_mono (wp_history (appendPartition_wp dev start label))
          (fun t' op hop h => ⟨start, label, hplanned t', (hop.1.2 h).imp_right .inl⟩)
          fun t' r ht' => ?_)
        cases r with
        | raised => trivial
        | cut => trivial
        | value part =>
          refine wp_ite (fun _ => wp_pure.mpr trivial) fun hpart => ?_
          have happeared := (ht'.1 part rfl).resolve_left hpart
          refine wp_mono (format_wp part) (fun t'' op hop h => ?_) fun _ _ _ => trivial
          obtain ⟨target, rfl, hstands, hnone⟩ := hop h
          refine ⟨start, label, hplanned _, .inr (.inr ⟨part, target, rfl, ?_, ?_, ?_⟩)⟩
          · refine happeared.mono (List.Sublist.cons _ ?_)
            exact (List.sublist_append_left t' t'').trans
              ((List.sublist_cons_self _ _).trans (List.sublist_append_right t _))
          · refine hstands.mono fun e he => List.mem_cons_of_mem _ (List.mem_append_right t ?_)
            exact List.mem_cons_of_mem _ (List.mem_append_right t' he)
          · refine List.forall_mem_cons.mpr ⟨rfl, fun e he => ?_⟩
            rcases List.mem_append.mp he with he | he
            · exact formats_of_not_changes (ht.2 e he).1
            · rcases List.mem_cons.mp he with rfl | he
              · rfl
              · rcases List.mem_append.mp he with he | he
                · exact (ht'.2 e he).1
                · exact hnone e he

theorem calls_createDataPartition (disk : String) :
    (createDataPartition digits disk).Calls fun op => probes op = false := by
  have hquiet : ∀ {β : Type} {s : Program β}, s.Calls Quiet → s.Calls fun op => probes op = false :=
    fun hs => hs.mono fun _ h => h.2
  have hlisting : ∀ dev, (listing dev).Calls Quiet := fun dev =>
    calls_bind (calls_perform ⟨rfl, rfl⟩) fun _ => calls_pure _
  refine calls_bind (calls_perform rfl) fun dump => calls_ite (calls_pure _) ?_
  cases JsonText.loads (Completed.stdout dump).toList with
  | none => exact calls_pure _
  | some table =>
    refine calls_bind (hquiet (calls_bind (calls_out ⟨rfl, rfl⟩) fun _ =>
      calls_ite (calls_pure _) (calls_int _))) fun bytes => calls_bind (calls_bind
        (calls_perform rfl) fun _ => calls_pure _) fun image => ?_
    refine ⟨plan_wp rfl fun sfdisk _ => ?_⟩
    cases planPartition (some sfdisk) bytes image 512 with
    | none => exact wp_pure.mpr trivial
    | some p =>
      refine (calls_bind (calls_bind ?_ fun _ => calls_bind (hquiet (hlisting _)) fun before =>
        calls_bind (calls_perform rfl) fun app => calls_ite (calls_pure _) ?_) fun part =>
          calls_ite (calls_pure _) ?_).wp
      · exact calls_ite (calls_bind (calls_perform rfl) fun _ => calls_pure _) (calls_pure _)
      · exact calls_bind (calls_perform rfl) fun _ => calls_bind (calls_perform rfl) fun _ =>
          calls_bind (hquiet (hlisting _)) fun _ => calls_pure _
      · exact calls_bind (hquiet (calls_ensureNode part)) fun _ =>
          calls_bind (hquiet (calls_usableDevice part)) fun target =>
            calls_bind (calls_perform rfl) fun _ => calls_bind (calls_ite (calls_pure _)
              (calls_bind (calls_perform rfl) fun _ => calls_pure _)) fun _ => calls_pure _

end Specs

/-! ## What is found, and what is done -/

/-- Nothing could be written so far. -/
def Barren (h : History) : Prop := ∀ path, (⟨.probe path, true⟩ : Σ op, Op.Answer op) ∉ h

/-- The last call has written there, and no call before it could write. -/
def Written (path : String) (h : History) : Prop :=
  ∃ pre, h = pre ++ [⟨.probe path, true⟩] ∧ Barren pre

/-- A partition is added and a file system made only where nothing could be written, and on the
boot disk. -/
def Careful (digits : DigitTable) (h : History) (op : Op) : Prop :=
  changes op = true →
    Barren h ∧ ∃ disk, BootDisk h disk ∧ Grounds digits ("/dev/" ++ disk) h op

/-- What is persistent has been written to since, and the fallback means that nothing could be. -/
def Honest (h : History) (info : StorageInfo) : Prop :=
  (info.persistent = true ∧ ∃ pre post, h = pre ++ post ∧ Written info.root pre ∧
    ∀ e ∈ post, Quiet e.1) ∨
  (info.persistent = false ∧ info.root = ramFallback ∧ Barren h)

theorem barren_of_probes {h : History} (hp : ∀ e ∈ h, probes e.1 = false) : Barren h :=
  fun _ hmem => nomatch hp _ hmem

theorem Barren.append {h h' : History} (hb : Barren h) (hb' : Barren h') : Barren (h ++ h') :=
  fun path hmem => (List.mem_append.mp hmem).elim (hb path) (hb' path)

theorem Written.append {h h' : History} {path : String} (hb : Barren h) (hw : Written path h') :
    Written path (h ++ h') := by
  obtain ⟨pre, rfl, hpre⟩ := hw
  exact ⟨h ++ pre, (List.append_assoc _ _ _).symm, hb.append hpre⟩

theorem barren_of_quiet {h : History} (hq : ∀ e ∈ h, Quiet e.1) : Barren h :=
  barren_of_probes fun e he => (hq e he).2

/-- How a try to write has ended. -/
def Tried (path : String) (h : History) : Outcome Bool → Prop
  | .value true => Written path h
  | _ => Barren h

/-- How the tries of several devices have ended. -/
def Found (h : History) : Outcome (Option String) → Prop
  | .value (some _) => Written mountPoint h
  | _ => Barren h

theorem Tried.append {h t : History} {path : String} {r : Outcome Bool} (ht : Tried path t r)
    (hb : Barren h) : Tried path (h ++ t) r := by
  match r, ht with
  | .value true, ht => exact Written.append hb ht
  | .value false, ht => exact hb.append ht
  | .raised, ht => exact hb.append ht
  | .cut, ht => exact hb.append ht

theorem Found.append {h h' : History} {r : Outcome (Option String)} (hf : Found h' r)
    (hb : Barren h) : Found (h ++ h') r := by
  match r, hf with
  | .value (some _), hf => exact Written.append hb hf
  | .value none, hf => exact hb.append hf
  | .raised, hf => exact hb.append hf
  | .cut, hf => exact hb.append hf

section Tries

variable {digits : DigitTable}

theorem writable_wp (path : String) :
    (writable path).wp (fun _ op => changes op = false) (Tried path) := by
  refine wp_perform.mpr ⟨rfl, fun ok => ?_⟩
  cases ok with
  | true => exact ⟨[], rfl, fun _ h => nomatch h⟩
  | false =>
    intro p hmem
    cases List.mem_singleton.mp hmem

theorem mountWritable_wp (dev : String) :
    (mountWritable digits dev).wp (fun _ op => changes op = false) (Tried mountPoint) := by
  refine wp_bind.mpr (wp_of_calls (calls_mount dev mountPoint) (fun _ _ h => h.1)
    fun t r ht => ?_)
  have hbarren := barren_of_quiet ht
  cases r with
  | raised => exact hbarren
  | cut => exact hbarren
  | value mounted =>
    refine wp_ite (fun _ => wp_mono (writable_wp mountPoint) (fun _ _ h => h) fun t' r ht' => ?_)
      fun _ => wp_pure.mpr ?_
    · exact ht'.append hbarren
    · rw [List.append_nil]
      exact hbarren

theorem firstWritable_wp (devices : List String) :
    (firstWritable digits devices).wp (fun _ op => changes op = false) Found := by
  induction devices with
  | nil => exact wp_pure.mpr fun _ h => nomatch h
  | cons dev rest ih =>
    refine wp_bind.mpr (wp_mono (mountWritable_wp dev) (fun _ _ h => h) fun t r ht => ?_)
    cases r with
    | raised => exact ht
    | cut => exact ht
    | value ok =>
      cases ok with
      | true => exact wp_pure.mpr (by rw [List.append_nil]; exact ht)
      | false => exact wp_mono ih (fun _ _ h => h) fun t' r ht' => ht'.append ht

theorem writableMedium_wp (medium : String) :
    (writableMedium medium).wp (fun _ op => changes op = false) (Tried liveMedium) := by
  refine wp_ite (fun _ => wp_pure.mpr fun _ h => nomatch h) fun _ => ?_
  refine wp_bind.mpr (wp_of_calls (calls_fstypeOf medium) (fun _ _ h => h.1) fun t r ht => ?_)
  have hbarren := barren_of_quiet ht
  cases r with
  | raised => exact hbarren
  | cut => exact hbarren
  | value fstype =>
    refine wp_ite (fun _ => wp_perform_bind.mpr ⟨rfl, fun res => ?_⟩) fun _ => wp_pure.mpr ?_
    · refine wp_mono (writable_wp liveMedium) (fun _ _ h => h) fun t' r ht' =>
        Tried.append (t := _ :: t') (Tried.append (h := [_]) ht' ?_) hbarren
      exact barren_of_probes (List.forall_mem_singleton.mpr rfl)
    · rw [List.append_nil]
      exact hbarren

theorem mountedBefore_wp :
    mountedBefore.wp (fun _ op => changes op = false) (Tried mountPoint) := by
  refine wp_perform_bind.mpr ⟨rfl, fun mounted : Bool => ?_⟩
  have hbarren : Barren [⟨.isMount mountPoint, mounted⟩] :=
    barren_of_probes (List.forall_mem_singleton.mpr rfl)
  refine wp_ite (fun _ => wp_mono (writable_wp mountPoint) (fun _ _ h => h) fun t' r ht' => ?_)
    fun _ => wp_pure.mpr hbarren
  exact Tried.append (h := [_]) ht' hbarren

theorem createdPartition_wp (bootDisk : String) :
    (createdPartition digits bootDisk).wp
      (fun t op => changes op = true → bootDisk ≠ "" ∧ Barren t ∧
        Grounds digits ("/dev/" ++ bootDisk) t op) Found := by
  refine wp_ite (fun _ => wp_pure.mpr fun _ h => nomatch h) fun hdisk => ?_
  refine wp_bind.mpr (wp_mono (wp_and (createDataPartition_wp bootDisk)
    (wp_history (calls_createDataPartition bootDisk).wp)) (fun t op h hop => ?_) fun t r ht => ?_)
  · exact ⟨hdisk, barren_of_probes h.2.2, h.1 hop⟩
  have hbarren := barren_of_probes ht.2.2
  cases r with
  | raised => exact hbarren
  | cut => exact hbarren
  | value part =>
    refine wp_ite (fun _ => wp_pure.mpr ?_) fun _ => ?_
    · rw [List.append_nil]
      exact hbarren
    · refine wp_bind.mpr (wp_mono (mountWritable_wp part)
        (fun _ _ h hop => nomatch h.symm.trans hop) fun t' r ht' => ?_)
      have htried := ht'.append hbarren
      cases r with
      | raised => exact htried
      | cut => exact htried
      | value ok => cases ok <;> exact wp_pure.mpr (by rw [List.append_nil]; exact htried)

theorem liveDevice_wp :
    liveDevice.wp (fun _ => Quiet) fun t r => ∀ src, r = .value src → LiveDevice t src := by
  unfold liveDevice findmntSource
  rw [bind_assoc]
  refine wp_out_bind.mpr ⟨⟨rfl, rfl⟩, fun c => ?_⟩
  rw [pure_bind]
  refine wp_ite (fun _ => wp_pure.mpr fun src h => ?_) fun _ =>
    wp_perform_bind.mpr ⟨⟨rfl, rfl⟩, fun text => wp_pure.mpr fun src h => ?_⟩
  · exact .inl ⟨c, List.mem_cons_self, (Outcome.value.inj h).symm⟩
  · exact .inr ⟨text, List.mem_cons_of_mem _ List.mem_cons_self, (Outcome.value.inj h).symm⟩

theorem LiveDevice.mono {h h' : History} {src : String} (hl : LiveDevice h src) (hsub : h ⊆ h') :
    LiveDevice h' src := by
  rcases hl with ⟨c, hmem, hsrc⟩ | ⟨text, hmem, hsrc⟩
  · exact .inl ⟨c, hsub hmem, hsrc⟩
  · exact .inr ⟨text, hsub hmem, hsrc⟩

theorem BootDisk.mono {h h' : History} {disk : String} (hb : BootDisk h disk) (hsub : h ⊆ h') :
    BootDisk h' disk := by
  obtain ⟨hdisk, src, hlive, hparent⟩ := hb
  exact ⟨hdisk, src, hlive.mono hsub, hparent.mono hsub⟩

theorem findBootDisk_wp :
    findBootDisk.wp (fun _ => Quiet) fun t r =>
      ∀ p, r = .value p → p.1 = "" ∨ BootDisk t p.1 := by
  refine wp_bind.mpr (wp_mono liveDevice_wp (fun _ _ h => h) fun t r ht => ?_)
  cases r with
  | raised => exact fun _ h => nomatch h
  | cut => exact fun _ h => nomatch h
  | value src =>
    have hlive := ht src rfl
    refine wp_bind.mpr (wp_ite (fun _ => wp_pure.mpr ?_) fun hsrc =>
      wp_mono (parentDisk_wp src) (fun _ _ h => h) fun t' r ht' => ?_)
    · exact wp_pure.mpr fun p h => .inl (congrArg Prod.fst (Outcome.value.inj h)).symm
    · cases r with
      | raised => exact fun _ h => nomatch h
      | cut => exact fun _ h => nomatch h
      | value disk =>
        refine wp_pure.mpr fun p h => ?_
        obtain rfl := Outcome.value.inj h
        by_cases hdisk : disk = ""
        · exact .inl hdisk
        · have hparent := (ht' disk rfl).resolve_left hdisk
          rw [List.append_nil]
          exact .inr ⟨hdisk, src, hlive.mono (List.subset_append_left t t'),
            hparent.mono (List.subset_append_right t t')⟩

theorem Grounds.prepend {h h' : History} {dev : String} {op : Op}
    (hg : Grounds digits dev h' op) (hold : ∀ e ∈ h, formats e.1 = false) :
    Grounds digits dev (h ++ h') op := by
  obtain ⟨start, label, hplanned, hop⟩ := hg
  refine ⟨start, label, hplanned.mono (List.subset_append_right h h'), ?_⟩
  refine hop.imp_right (Or.imp_right ?_)
  rintro ⟨part, target, rfl, happeared, hstands, hnone⟩
  refine ⟨part, target, rfl, happeared.mono (List.sublist_append_right h h'),
    hstands.mono (List.subset_append_right h h'), fun e he => ?_⟩
  exact (List.mem_append.mp he).elim (hold e) (hnone e)

theorem Honest.prepend {h t : History} {info : StorageInfo} (hi : Honest t info)
    (hb : Barren h) : Honest (h ++ t) info := by
  rcases hi with ⟨hp, pre, post, rfl, hw, hq⟩ | ⟨hp, hroot, hbarren⟩
  · exact .inl ⟨hp, h ++ pre, post, (List.append_assoc _ _ _).symm, Written.append hb hw, hq⟩
  · exact .inr ⟨hp, hroot, hb.append hbarren⟩

theorem honest_kept {t : History} {bootDisk root device note : String} (hw : Written root t)
    {info : StorageInfo} (hi : Outcome.value (kept bootDisk root device note) = .value info) :
    Honest (t ++ []) info := by
  rw [← Outcome.value.inj hi]
  exact .inl ⟨rfl, t, [], rfl, hw, nofun⟩

/-- A change of the boot disk where nothing could be written before. -/
def LastResort (digits : DigitTable) (bootDisk : String) (h : History) (op : Op) : Prop :=
  changes op = true → bootDisk ≠ "" ∧ Barren h ∧ Grounds digits ("/dev/" ++ bootDisk) h op

theorem LastResort.prepend {h t : History} {bootDisk : String} {op : Op}
    (hr : LastResort digits bootDisk t op) (hb : Barren h)
    (hold : ∀ e ∈ h, changes e.1 = false) : LastResort digits bootDisk (h ++ t) op := by
  intro hop
  obtain ⟨hdisk, hbarren, hgrounds⟩ := hr hop
  exact ⟨hdisk, hb.append hbarren, hgrounds.prepend fun e he => formats_of_not_changes (hold e he)⟩

theorem lastResort_of_not_changes {h : History} {bootDisk : String} {op : Op}
    (hop : changes op = false) : LastResort digits bootDisk h op :=
  fun h => nomatch hop.symm.trans h

theorem ramOnly_wp (bootDisk : String) :
    (ramOnly bootDisk).wp (fun _ op => changes op = false) fun t r =>
      ∀ info, r = .value info → Honest t info := by
  refine wp_perform_bind.mpr ⟨rfl, fun ok : Bool => ?_⟩
  cases ok with
  | false => exact wp_raise.mpr fun _ h => nomatch h
  | true =>
    refine wp_pure.mpr fun info h => ?_
    rw [← Outcome.value.inj h]
    exact .inr ⟨rfl, rfl, barren_of_probes (List.forall_mem_singleton.mpr rfl)⟩

theorem otherStorage_wp (bootDisk medium : String) :
    (otherStorage digits bootDisk medium).wp (LastResort digits bootDisk) fun t r =>
      ∀ info, r = .value info → Honest t info := by
  refine wp_bind.mpr (wp_mono (wp_history (writableMedium_wp medium))
    (fun _ _ h => lastResort_of_not_changes h.1) fun t r ht => ?_)
  match r, ht with
  | .raised, _ => exact fun _ h => nomatch h
  | .cut, _ => exact fun _ h => nomatch h
  | .value true, ht => exact wp_pure.mpr fun info h => honest_kept ht.1 h
  | .value false, ht =>
    refine wp_bind.mpr (wp_mono (createdPartition_wp bootDisk)
      (fun _ _ h => LastResort.prepend h ht.1 ht.2) fun t' r ht' => ?_)
    match r, ht' with
    | .raised, _ => exact fun _ h => nomatch h
    | .cut, _ => exact fun _ h => nomatch h
    | .value (some part), ht' =>
      refine wp_pure.mpr fun info h => ?_
      exact (honest_kept ht' h).prepend ht.1
    | .value none, ht' =>
      exact wp_mono (ramOnly_wp bootDisk) (fun _ _ h => lastResort_of_not_changes h)
        fun _ _ h info hr => ((h info hr).prepend ht').prepend ht.1

theorem labelledStorage_wp (bootDisk medium : String) :
    (labelledStorage digits bootDisk medium).wp (LastResort digits bootDisk) fun t r =>
      ∀ info, r = .value info → Honest t info := by
  have hquiet : ∀ {t : History} {op : Op}, Quiet op → LastResort digits bootDisk t op :=
    fun h => lastResort_of_not_changes h.1
  refine wp_bind.mpr (wp_of_calls calls_labelledDevices (fun _ _ => hquiet) fun t r ht => ?_)
  cases r with
  | raised => exact fun _ h => nomatch h
  | cut => exact fun _ h => nomatch h
  | value devices =>
    refine wp_bind.mpr (wp_of_calls (calls_sortDevices bootDisk devices) (fun _ _ => hquiet)
      fun t₁ r ht₁ => ?_)
    cases r with
    | raised => exact fun _ h => nomatch h
    | cut => exact fun _ h => nomatch h
    | value devices =>
      have hb := barren_of_quiet ht
      have hb₁ := barren_of_quiet ht₁
      refine wp_bind.mpr (wp_mono (wp_history (firstWritable_wp devices))
        (fun _ _ h => lastResort_of_not_changes h.1) fun t₂ r ht₂ => ?_)
      match r, ht₂ with
      | .raised, _ => exact fun _ h => nomatch h
      | .cut, _ => exact fun _ h => nomatch h
      | .value (some dev), ht₂ =>
        exact wp_pure.mpr fun info h => ((honest_kept ht₂.1 h).prepend hb₁).prepend hb
      | .value none, ht₂ =>
        refine wp_mono (otherStorage_wp bootDisk medium) (fun _ _ h => ?_) fun _ _ h info hr => ?_
        · exact ((h.prepend ht₂.1 ht₂.2).prepend hb₁ fun e he => (ht₁ e he).1).prepend hb
            fun e he => (ht e he).1
        · exact (((h info hr).prepend ht₂.1).prepend hb₁).prepend hb

theorem setupStorage_wp (digits : DigitTable) :
    (setupStorage digits).wp (Careful digits) fun t r =>
      ∀ info, r = .value info → Honest t info := by
  have hsafe : ∀ {t : History} {op : Op}, changes op = false → Careful digits t op :=
    fun hop h => nomatch hop.symm.trans h
  refine wp_bind.mpr (wp_mono (wp_history findBootDisk_wp) (fun _ _ h => hsafe h.1.1)
    fun t r ht => ?_)
  match r, ht with
  | .raised, _ => exact fun _ h => nomatch h
  | .cut, _ => exact fun _ h => nomatch h
  | .value (bootDisk, medium), ht =>
    have hb := barren_of_quiet ht.2
    refine wp_bind.mpr (wp_mono (wp_history mountedBefore_wp) (fun _ _ h => hsafe h.1)
      fun t₁ r ht₁ => ?_)
    match r, ht₁ with
    | .raised, _ => exact fun _ h => nomatch h
    | .cut, _ => exact fun _ h => nomatch h
    | .value true, ht₁ =>
      -- The file system is mounted already.
      refine wp_bind.mpr (wp_of_calls (calls_findmntSource _) (fun _ _ h => hsafe h.1)
        fun t₂ r ht₂ => ?_)
      cases r with
      | raised => exact fun _ h => nomatch h
      | cut => exact fun _ h => nomatch h
      | value device =>
        refine wp_pure.mpr fun info h => ?_
        obtain rfl := Outcome.value.inj h
        rw [List.append_nil]
        exact Honest.prepend (.inl ⟨rfl, t₁, t₂, rfl, ht₁.1, ht₂⟩) hb
    | .value false, ht₁ =>
      refine wp_mono (labelledStorage_wp bootDisk medium) (fun t₂ op h hop => ?_)
        fun _ _ h info hr => ((h info hr).prepend ht₁.1).prepend hb
      obtain ⟨hdisk, hbarren, hgrounds⟩ :=
        (h.prepend ht₁.1 ht₁.2).prepend hb (fun e he => (ht.2 e he).1) hop
      exact ⟨hbarren, bootDisk, ((ht.1 _ rfl).resolve_left hdisk).mono
        (List.subset_append_left t _), hgrounds⟩

end Tries

/-- A stick with room behind its image, on which `partx` makes `/dev/sda2` appear. -/
def roomyStick (h : History) : (op : Op) → op.Answer
  | .run argv _ =>
    { returncode := 0
      stdout := match argv with
        | ["findmnt", _, _, _] => "/dev/sda1"
        | ["lsblk", "-ndo", _, _] => "sda"
        | ["lsblk", _, _, _] =>
          if h.any fun e => e.1 = .run ["partx", "-a", "/dev/sda"] "" then "/dev/sda1 /dev/sda2"
          else "/dev/sda1"
        | ["sfdisk", "--json", _] => "\x7b\"partitiontable\": \x7b\"label\": \"dos\"\x7d\x7d"
        | ["blockdev", _, _] => "8000000000"
        | _ => "" }
  | .readFile _ => ""
  | .openExclusive _ => .ok
  | .makedirs _ => true
  | .isMount _ => false
  | .probe _ => true
  | .readVolume _ => []
  | .exists _ => true
  | .mknod _ _ _ => true
  | .flushDevice _ => ()

/-- Whatever the machine answers, a partition is added and a file system made only where nothing
that outlives a reboot could be written, on the boot disk, where the plan has found room, and in
the partition that has appeared there. -/
theorem setupStorage_careful (digits : DigitTable) (env : Env Op.Answer) :
    ∀ pre e post, ((setupStorage digits).exec env).1 = pre ++ e :: post →
      Careful digits pre e.1 :=
  (wp_sound (setupStorage_wp digits) env).2

theorem setupStorage_careful_roomyStick :
    ∃ pre e post,
      ((setupStorage DigitTable.ascii).exec roomyStick).1 = pre ++ e :: post ∧
      e.1 = mkfs "/dev/sda2" ∧ Careful DigitTable.ascii pre e.1 := by
  have hget : (((setupStorage DigitTable.ascii).exec roomyStick).1[15]?).map Sigma.fst =
      some (mkfs "/dev/sda2") := by decide +kernel
  obtain ⟨e, he, hop⟩ := Option.map_eq_some_iff.mp hget
  obtain ⟨hlen, rfl⟩ := List.getElem?_eq_some_iff.mp he
  have hsplit := (List.take_append_drop 15
    ((setupStorage DigitTable.ascii).exec roomyStick).1).symm
  rw [List.drop_eq_getElem_cons hlen] at hsplit
  exact ⟨_, _, _, hsplit, hop, setupStorage_careful _ _ _ _ _ hsplit⟩

/-- Whatever the machine answers, what is returned as persistent has been written to, and RAM is
used only where nothing else could be. -/
theorem setupStorage_honest (digits : DigitTable) (env : Env Op.Answer) :
    ∀ info, ((setupStorage digits).exec env).2 = .value info →
      Honest ((setupStorage digits).exec env).1 info :=
  (wp_sound (setupStorage_wp digits) env).1

theorem setupStorage_honest_roomyStick :
    Honest ((setupStorage DigitTable.ascii).exec roomyStick).1
      (kept "sda" mountPoint "/dev/sda2" "data partition (created automatically)") :=
  setupStorage_honest _ _ _ (by decide +kernel)

end Storage
end PcCheck
