/-
Where the logs are kept (`storage.py`).

`setup_storage` looks for a file system that survives a reboot: one that is mounted already, a
labelled partition, the boot medium itself, and last a partition that it creates after the image
on the boot disk.  All it does is run commands and read files, so it is a script whose answers
the machine gives.
-/
import PcCheck.DataPartition
import PcCheck.Settings
import PcCheck.Lib.JsonText
import PcCheck.Lib.Script

namespace PcCheck
namespace Storage

open DataPartition

structure Completed where
  returncode : Int
  stdout : String := ""
  stderr : String := ""
  deriving DecidableEq, Repr

/-- How an exclusive open of a device ends. -/
inductive Opened where
  | ok
  | busy
  | failed
  deriving DecidableEq, Repr

inductive Op where
  /-- `util.run`, which never raises. -/
  | run (argv : List String) (input : String)
  /-- `util.read_file`, empty where there is no file. -/
  | readFile (path : String)
  | openExclusive (dev : String)
  | makedirs (path : String)
  | isMount (path : String)
  /-- Write a file there, flush it and remove it. -/
  | probe (path : String)
  /-- The 2048 bytes at 32768, or as many as there are. -/
  | readVolume (dev : String)
  | exists (path : String)
  | mknod (path : String) (major minor : Int)
  | flushDevice (dev : String)
  deriving DecidableEq, Repr

def Op.Answer : Op → Type
  | .run _ _ => Completed
  | .readFile _ => String
  | .openExclusive _ => Opened
  | .makedirs _ => Bool
  | .isMount _ => Bool
  | .probe _ => Bool
  | .readVolume _ => List Nat
  | .exists _ => Bool
  | .mknod _ _ _ => Bool
  | .flushDevice _ => Unit

abbrev Program := Script Op.Answer

abbrev History := Script.Trace Op.Answer

def dataLabel : String := "PCCHECKDATA"

def mountPoint : String := "/mnt/pccheck"

def liveMedium : String := "/run/live/medium"

def ramFallback : String := "/run/pccheck/storage"

def perform (op : Op) : Program op.Answer := Script.perform op

def run (argv : List String) (input : String := "") : Program Completed :=
  perform (.run argv input)

def Completed.out (c : Completed) : String := if c.returncode = 0 then c.stdout else ""

def out (argv : List String) : Program String := do return (← run argv).out

def readFile (path : String) : Program String := perform (.readFile path)

/-- An operation that raises where it fails. -/
def orRaise (ok : Bool) : Program Unit := if ok then pure () else .raise

def int (t : DigitTable) (s : String) : Program Int :=
  match t.int s with
  | .ok n => pure n
  | .error _ => .raise

def pathExists (path : String) : Program Bool := perform (.exists path)

def isMount (path : String) : Program Bool := perform (.isMount path)

structure StorageInfo where
  root : String
  device : String := ""
  persistent : Bool := false
  note : String := ""
  bootDisk : String := ""
  deriving DecidableEq, Repr

/-- `os.path.basename` -/
def basename (path : String) : String :=
  String.ofList (path.toList.reverse.takeWhile fun c => c ≠ '/').reverse

def findmntSource (path : String) : Program String := do
  return strip (← out ["findmnt", "-no", "SOURCE", path])

def fstypeOf (dev : String) : Program String := do
  return strip (← out ["blkid", "-o", "value", "-s", "TYPE", dev])

def parentDisk (dev : String) : Program String :=
  if "/dev/".toList <+: dev.toList then do
    let pk := strip (← out ["lsblk", "-ndo", "PKNAME", dev])
    return if pk ≠ "" then pk else basename dev
  else pure ""

/-- The device of the live medium.  Where it is not mounted, the file that names the device it
was copied from is read. -/
def liveDevice : Program String := do
  let src ← findmntSource liveMedium
  if src ≠ "" then pure src
  else do
    let text ← readFile "/run/live/medium-device"
    pure (((splitlines text).map strip).getLast?.getD "")

def bootDiskOf (src : String) : Program String := if src = "" then pure "" else parentDisk src

/-- The boot disk and the device of the live medium. -/
def findBootDisk : Program (String × String) := do
  let src ← liveDevice
  let disk ← bootDiskOf src
  pure (disk, src)

def labelledDevices : Program (List String) := do
  let res ← run ["blkid", "-t", "LABEL=" ++ dataLabel, "-o", "device"]
  return ((splitlines res.stdout).map strip).filter fun d => d ≠ ""

section Devices

variable (digits : DigitTable)

/-- A loop device over so many sectors of a disk. -/
def losetup (first sectors : Int) (disk : String) : Op :=
  .run ["losetup", "--find", "--show", "--offset", toString (first * 512), "--sizelimit",
    toString (sectors * 512), "/dev/" ++ disk] ""

def usableDevice (dev : String) : Program String := do
  match ← perform (.openExclusive dev) with
  | .ok => pure dev
  | .failed => pure dev
  | .busy =>
    let name := basename dev
    let start ← readFile ("/sys/class/block/" ++ name ++ "/start")
    let size ← readFile ("/sys/class/block/" ++ name ++ "/size")
    let disk ← parentDisk dev
    if strip start = "" ∨ strip size = "" ∨ disk = "" ∨ disk = name then pure dev
    else
      let first ← int digits (strip start)
      let sectors ← int digits (strip size)
      let res ← perform (losetup first sectors disk)
      let loop := strip (res : Completed).stdout
      if res.returncode ≠ 0 ∨ loop = "" then pure dev
      else
        let _ ← run ["losetup", "--direct-io=on", loop]
        perform (.flushDevice ("/dev/" ++ disk))
        pure loop

/-- Check a file system before it is mounted, and choose the options of the mount. -/
def repair (fstype target : String) : Program String :=
  if fstype = "vfat" then do
    let _ ← run ["fsck.vfat", "-a", "-w", target]
    pure "rw,noatime,sync,flush,utf8,dmask=0022,fmask=0133"
  else if "ext".toList <+: fstype.toList then do
    let _ ← run ["fsck", "-p", target]
    pure (if fstype = "ext3" ∨ fstype = "ext4" then "rw,noatime,sync,data=journal"
      else "rw,noatime,sync")
  else pure "rw,noatime,sync"

def mount (dev mountPoint : String) : Program Bool := do
  orRaise (← perform (.makedirs mountPoint))
  let fstype ← fstypeOf dev
  let target ← usableDevice digits dev
  let opts ← repair fstype target
  let res ← run ["mount", "-t", if fstype ≠ "" then fstype else "auto", "-o", opts, target,
    mountPoint]
  pure (res.returncode = 0)

def writable (path : String) : Program Bool := perform (.probe path)

/-- A little-endian number. -/
def unpack (bytes : List Nat) : Int := bytes.foldr (fun b n => b + 256 * n) 0

/-- The size in the volume descriptor of an image, 0 where there is none. -/
def volumeSize (pvd : List Nat) : Int :=
  if pvd.length < 136 ∨ (pvd.drop 1).take 5 ≠ [67, 68, 48, 48, 49] then 0
  else
    let size := unpack ((pvd.drop 128).take 2)
    unpack ((pvd.drop 80).take 4) * (if size ≠ 0 then size else 2048)

def isoSizeBytes (dev : String) : Program Int := do
  let pvd ← perform (.readVolume dev)
  pure (volumeSize pvd)

/-! ### The table that `sfdisk --json` prints -/

open JsonText (Doc)

/-- A number that is zero as an `int`, or as the float it is read as. -/
def isZero (n : JsonText.Literal) : Bool :=
  match n.toInt? with
  | some k => k == 0
  | none =>
    match DigitTable.ascii.float (String.ofList n.text) with
    | .ok x => x == .finite 0
    | .error _ => false

/-- `not value` -/
def falsy : Doc → Bool
  | .null => true
  | .bool b => !b
  | .num n => isZero n
  | .str s => s == ""
  | .arr items => items.isEmpty
  | .obj fields => fields.isEmpty

/-- The truth values are numbers too. -/
def intOf : Doc → Option Int
  | .num n => n.toInt?
  | .bool b => some b.toNat
  | _ => none

def labelOf : Doc → Label
  | .str "dos" => .dos
  | .str "gpt" => .gpt
  | .str name => .other name
  | _ => .unnamed

/-- The value of a key of a dict, read as what it is to be. -/
def field {α : Type} (fields : List (String × Doc)) (name : String) (read : Doc → Option α) :
    Option (Option α) :=
  match Dict.assoc name fields with
  | some d => (read d).map some
  | none => some none

def partitionOf : Doc → Option Partition
  | .obj fields =>
    ((Dict.assoc "start" fields).bind intOf).bind fun start =>
      ((Dict.assoc "size" fields).bind intOf).map fun size => ⟨start, size⟩
  | _ => none

/-- Other values that are empty have no partitions either. -/
def partitionsOf : Doc → Option (List Partition)
  | .arr items => items.mapM partitionOf
  | .str "" => some []
  | .obj [] => some []
  | _ => none

def tableOf : Doc → Option PartitionTable
  | .obj fields =>
    (field fields "sectorsize" intOf).bind fun sectorsize =>
      (field fields "partitions" partitionsOf).map fun partitions =>
        { label := (Dict.assoc "label" fields).map labelOf, sectorsize, partitions }
  | _ => none

/-- The table as `plan_partition` reads it.  A document that counts as false is an empty table.
Numbers and partitions of other types than `sfdisk` prints make it raise here. -/
def sfdiskOf (doc : Doc) : Option SfdiskJson :=
  if falsy doc then some {}
  else
    match doc with
    | .obj fields =>
      (field fields "partitiontable" tableOf).map fun partitiontable => { partitiontable }
    | _ => none

example : ((JsonText.loads "0.0".toList).bind sfdiskOf) = some {} := by decide +kernel

/-- An MBR with its four partitions, of which no more is read. -/
def isFull (table : PartitionTable) : Bool :=
  decide (table.labelType = .dos ∧ 4 ≤ table.parts.length)

/-- `plan_partition` on what `sfdisk` printed. -/
def plan (doc : Doc) (diskBytes isoBytes : Int) : Program (Option (Int × Label)) :=
  match sfdiskOf doc with
  | none => .raise
  | some sfdisk =>
    let table := DataPartition.tableOf (some sfdisk)
    -- No partition begins on a multiple of nothing.
    if ¬ isFull table ∧ mebibyte / table.sectorBytes 512 = 0 then .raise
    else pure (planPartition (some sfdisk) diskBytes isoBytes 512)

def partitionType (label : Label) : String :=
  if label = .gpt then "EBD0A0A2-B9E5-4433-87C0-68B6B72699C7" else "c"

/-- What `sfdisk --append` is told. -/
def appendInput (start : Int) (label : Label) : String :=
  "start=" ++ toString start ++ ", type=" ++ partitionType label ++ "\n"

def lsblk (dev : String) : Op := .run ["lsblk", "-lnpo", "NAME", dev] ""

/-- The names of a disk and of its partitions. -/
def listing (dev : String) : Program (List String) := do
  let names ← perform (lsblk dev)
  pure (words (names : Completed).out)

/-- Wait until the device node is there, for so many looks. -/
def awaitNode (part : String) : Nat → Program Bool
  | 0 => pure false
  | n + 1 => do if ← pathExists part then pure true else awaitNode part n

def makeNode (part : String) : Program Unit := do
  let devnum ← readFile ("/sys/class/block/" ++ basename part ++ "/dev")
  if strip devnum = "" then pure ()
  else
    match ((strip devnum).toList.splitOn ':').map String.ofList with
    | [major, minor] => do
      orRaise (← perform (.mknod part (← int digits major) (← int digits minor)))
    | _ => .raise

def mkfs (target : String) : Op :=
  .run ["mkfs.vfat", "-F", "32", "-n", dataLabel, target] ""

/-- Wait until udev has made the node of a partition, and make it where it has not. -/
def ensureNode (part : String) : Program Unit := do
  if ← awaitNode part 20 then pure () else makeNode digits part

/-- Free the loop device that stood for a partition. -/
def detach (target part : String) : Program Unit :=
  if target = part then pure () else do
    let _ ← run ["losetup", "-d", target]
    pure ()

/-- Make a file system on the partition that has appeared. -/
def format (part : String) : Program String := do
  ensureNode digits part
  let target ← usableDevice digits part
  let res ← perform (mkfs target)
  detach target part
  pure (if (res : Completed).returncode ≠ 0 then "" else part)

def relocateBackup (dev : String) : Op :=
  .run ["sfdisk", "--force", "--relocate", "gpt-bak-std", dev] ""

/-- The backup table of a GPT image goes to the end of the disk. -/
def relocate (dev : String) (label : Label) : Program Unit :=
  if label = .gpt then do
    let _ ← perform (relocateBackup dev)
    pure ()
  else pure ()

def append (dev : String) (start : Int) (label : Label) : Op :=
  .run ["sfdisk", "--force", "--append", "--no-reread", "--no-tell-kernel", dev]
    (appendInput start label)

/-- Add the planned partition to the table and find its name. -/
def appendPartition (dev : String) (start : Int) (label : Label) : Program String := do
  relocate dev label
  let before ← listing dev
  let res ← perform (append dev start label)
  if (res : Completed).returncode ≠ 0 then pure ""
  else
    let _ ← run ["partx", "-a", dev]
    let _ ← run ["udevadm", "settle"]
    let after ← listing dev
    pure ((after.filter fun p => p ∉ before ∧ p ≠ dev).getLast?.getD "")

/-- The size of a disk in bytes, 0 where nothing is printed. -/
def diskBytes (dev : String) : Program Int := do
  let size := strip (← out ["blockdev", "--getsize64", dev])
  if size = "" then pure 0 else int digits size

def createDataPartition (disk : String) : Program String := do
  let dev := "/dev/" ++ disk
  let dump ← run ["sfdisk", "--json", dev]
  if dump.returncode ≠ 0 then pure ""
  else
    match JsonText.loads dump.stdout.toList with
    | none => pure ""
    | some table => do
      let size ← diskBytes digits dev
      let image ← isoSizeBytes dev
      match ← plan table size image with
      | none => pure ""
      | some p => do
        let part ← appendPartition dev p.1 p.2
        if part = "" then pure "" else format digits part

/-- The devices on the boot disk first, each class in its order. -/
def sortDevices (bootDisk : String) (devices : List String) : Program (List String) :=
  if bootDisk = "" then pure devices else do
    let parents ← devices.mapM parentDisk
    let keyed := devices.zip parents
    pure (((keyed.filter fun d => d.2 = bootDisk) ++
      (keyed.filter fun d => d.2 ≠ bootDisk)).map Prod.fst)

/-- Mount a device and try to write there. -/
def mountWritable (dev : String) : Program Bool := do
  if ← mount digits dev mountPoint then writable mountPoint else pure false

def firstWritable : List String → Program (Option String)
  | [] => pure none
  | dev :: rest => do
    if ← mountWritable digits dev then pure (some dev) else firstWritable rest

def mediumTypes : List String := ["vfat", "exfat", "ext4", "ext3", "ext2", "ntfs", "ntfs3"]

def writableMedium (medium : String) : Program Bool :=
  if medium = "" then pure false else do
    let fstype ← fstypeOf medium
    if fstype ∈ mediumTypes then do
      let _ ← run ["mount", "-o", "remount,rw", liveMedium]
      writable liveMedium
    else pure false

/-- The partition that was created, once it is mounted and can be written. -/
def createdPartition (bootDisk : String) : Program (Option String) :=
  if bootDisk = "" then pure none else do
    let part ← createDataPartition digits bootDisk
    if part = "" then pure none
    else if ← mountWritable digits part then pure (some part) else pure none

def mountedBefore : Program Bool := do
  if ← isMount mountPoint then writable mountPoint else pure false

def ramNote : String :=
  "RAM only - logs are lost on reboot and unexpected reboots cannot be detected"

/-- A storage that outlives a reboot. -/
def kept (bootDisk root device note : String) : StorageInfo :=
  { root, device, persistent := true, note, bootDisk }

def ramOnly (bootDisk : String) : Program StorageInfo := do
  orRaise (← perform (.makedirs ramFallback))
  pure { root := ramFallback, bootDisk, note := ramNote }

/-- The boot medium, a partition that is created, and at last RAM. -/
def otherStorage (bootDisk medium : String) : Program StorageInfo := do
  if ← writableMedium medium then pure (kept bootDisk liveMedium medium "boot medium")
  else
    match ← createdPartition digits bootDisk with
    | some part => pure (kept bootDisk mountPoint part "data partition (created automatically)")
    | none => ramOnly bootDisk

def labelledStorage (bootDisk medium : String) : Program StorageInfo := do
  let devices ← labelledDevices
  let devices ← sortDevices bootDisk devices
  match ← firstWritable digits devices with
  | some dev => pure (kept bootDisk mountPoint dev "data partition")
  | none => otherStorage digits bootDisk medium

def setupStorage : Program StorageInfo := do
  let (bootDisk, medium) ← findBootDisk
  if ← mountedBefore then do
    let device ← findmntSource mountPoint
    pure (kept bootDisk mountPoint device "")
  else labelledStorage digits bootDisk medium

end Devices

end Storage
end PcCheck
