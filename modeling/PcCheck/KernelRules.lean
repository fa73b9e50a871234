/-
What the kernel log tells of the hardware (`RULES`, `classify` and `KmsgMonitor._process` of
`kmsg.py`).

A message is classified by the first rule whose pattern it contains.  The rule names the
finding, and the device in the message splits it: `device_key` takes the PCI address or what
the pattern has captured.  Three things change what is recorded: the first two minutes of a
boot, the name of the boot disk in the message, and a monitor of sysfs that owns the count.
The characters that `\w` and `\d` stand for are a table, since Unicode decides on them.
-/
import PcCheck.Counters
import PcCheck.Disks
import PcCheck.Lib.Regex

namespace PcCheck
namespace Kernel

open Regex

/-- The Unicode properties the patterns read. -/
structure CharTable where
  isWord : Char → Bool
  isDigit : Char → Bool

/-- The table on the characters of ASCII. -/
def ascii : CharTable where
  isWord c := c.isAlphanum || c == '_'
  isDigit c := c.isDigit

inductive KeyGroup where
  | bdf
  | dev
  deriving DecidableEq, Repr

/-- The monitors of sysfs that own the count of a rule. -/
inductive Counter where
  | edac
  | aer
  | throttle
  deriving DecidableEq, Repr

structure Rule where
  id : String
  re : Regex
  severity : Severity
  component : String
  title : String
  recommendation : String := ""
  /-- What splits the findings of the rule per device. -/
  keyGroup : Option KeyGroup := none
  counter : Option Counter := none
  bootTitle : Option String := none
  ignoreAtBoot : Bool := false

def recThermal : String :=
  "Improve cooling: check heatsink mounting and thermal paste, fans, airflow and blanking panels."

section Patterns

variable (u : CharTable)

def digit : Regex := one u.isDigit

def word : Regex := one u.isWord

def edge : Regex := boundary u.isWord

def nonSpace : Regex := one fun c => !isSpace c

def hex : Regex := oneOf "0123456789abcdef"

def selfDetected : Regex := seqs [opt (text "self-"), text "detected stall"]

def faultOrTrap : Regex := alts [text "general protection", text "trap"]

def stressProgram : Regex := seqs
  [alts [text "stress-ng", text "stressapptest", text "mprime", text "y-cruncher"], star nonSpace]

/-- The name of a binary of y-cruncher. -/
def ycruncherBinary : Regex := seqs
  [times 2 (digit u), text "-", times 3 (oneOf "ABCDEFGHIJKLMNOPQRSTUVWXYZ0123456789"),
    text " ~ ", plus (noneOf "[")]

def rules : List Rule :=
  [{ id := "kernel-panic", re := text "Kernel panic - not syncing", severity := .fail,
     component := "System", title := "Kernel panic", recommendation := recCpuMem },
   { id := "mce-fatal",
     re := alts [text "Fatal machine check",
       seqs [text "Machine check: ", star any, alts [text "corrupt", text "PANIC"]],
       seqs [text "[Hardware Error]: ", star any,
         alts [text "Uncorrected", text "uncorrected", text "Fatal"]]],
     severity := .fail, component := "CPU/Memory",
     title := "Uncorrected machine check exception (MCE)", recommendation := recCpuMem },
   { id := "bert", re := text "BERT: Error records from previous boot", severity := .warn,
     component := "System",
     title := "Firmware recorded a fatal hardware error from a previous boot (BERT)",
     recommendation := recCpuMem },
   { id := "ghes-fatal",
     re := seqs [text "[Hardware Error]: event severity: ",
       alts [text "fatal", text "recoverable"]],
     severity := .fail, component := "Platform",
     title := "Uncorrected hardware error reported by firmware (APEI/GHES)",
     recommendation := recCpuMem },
   { id := "ghes-corrected", re := text "[Hardware Error]: event severity: corrected",
     severity := .warn, component := "Platform",
     title := "Corrected hardware error reported by firmware (APEI/GHES)",
     recommendation := recCpuMem },
   { id := "mce-corrected",
     re := seqs [text "[Hardware Error]: ",
       alts [text "Corrected error", text "Machine check events logged"]],
     severity := .warn, component := "CPU/Memory",
     title := "Corrected machine check (MCE) during test", recommendation := recCpuMem,
     bootTitle := some "Machine check logged at boot (error happened before/while booting)" },
   { id := "edac-ue",
     re := seqs [text "EDAC ", star any,
       alts [seqs [edge u, text "UE", edge u], seqs [oneOf "Uu", text "ncorrect"]]],
     severity := .fail, component := "Memory", title := "Uncorrectable memory error (EDAC)",
     recommendation := recMemory, counter := some .edac },
   { id := "edac-ce", re := seqs [text "EDAC ", star any, edge u, text "CE", edge u],
     severity := .warn, component := "Memory", title := "Corrected memory error (EDAC)",
     recommendation := recMemory, counter := some .edac },
   { id := "memory-failure",
     re := alts [text "Memory failure: ",
       seqs [edge u, text "Bad page ", alts [text "state", text "map"], edge u],
       text "HardwareCorrupted", text "soft offline:"],
     severity := .fail, component := "Memory",
     title := "Kernel memory failure handling (poisoned/bad page)", recommendation := recMemory },
   { id := "nmi",
     re := alts [text "NMI received for unknown reason", text "NMI: PCI system error",
       text "NMI: IOCK error", text "Dazed and confused"],
     severity := .fail, component := "Platform", title := "Unexpected hardware NMI",
     recommendation := recCpuMem },
   { id := "lockup",
     re := alts [text "soft lockup - CPU#", text "hard LOCKUP",
       seqs [text "rcu_", alts [text "sched", text "preempt"], text " ", selfDetected],
       seqs [text "rcu: INFO: ", plus nonSpace, text " ", selfDetected]],
     severity := .fail, component := "CPU",
     title := "CPU lockup / RCU stall (a CPU stopped responding)", recommendation := recCpuMem },
   { id := "stress-crash",
     re := seqs [alts [stressProgram, ycruncherBinary u], text "[", plus (digit u), text "]",
       opt (text ":"), text " ", alts [text "segfault", faultOrTrap]],
     severity := .fail, component := "CPU/Memory",
     title := "Stress test process crashed (segfault / illegal instruction)",
     recommendation := recCpuMem },
   { id := "segfault",
     re := alts [seqs [edge u, text "segfault at ", plus hex, text " ip "],
       seqs [text "traps: ", plus nonSpace, text "[", plus (digit u), text "] ", faultOrTrap]],
     severity := .warn, component := "CPU/Memory", title := "Unexpected process crash (segfault)",
     recommendation := recCpuMem },
   { id := "oops",
     re := alts
       [seqs [text "general protection fault", alts [text ",", seqs [text ": ", times 4 hex]]],
       seqs [text "invalid opcode: ", times 4 hex], text "BUG: unable to handle",
       seqs [edge u, text "Oops: "], text "kernel BUG at", text "BUG: Bad rss-counter"],
     severity := .fail, component := "CPU/Memory",
     title := "Kernel crash (oops) - typical of unstable CPU or memory",
     recommendation := recCpuMem },
   { id := "aer-uncorrected",
     re := alts
       [seqs [text "PCIe Bus Error: severity=", alts [text "Uncorrect", text "Fatal"]],
       seqs [text "AER: ", opt (text "Multiple "), text "Uncorrect"]],
     severity := .fail, component := "PCIe", title := "Uncorrected PCIe error",
     recommendation := recPcie, keyGroup := some .bdf, counter := some .aer },
   { id := "aer-corrected", re := text "PCIe Bus Error: severity=Corrected", severity := .warn,
     component := "PCIe", title := "Corrected PCIe errors (link signal integrity)",
     recommendation := recPcie, keyGroup := some .bdf, counter := some .aer },
   { id := "pcie-link-down",
     re := alts [seqs [text "pciehp ", star any, text "Link Down"], text "PCIe link lost",
       text "Surprise Removal"],
     severity := .fail, component := "PCIe", title := "PCIe device dropped off the bus",
     recommendation := recPcie, ignoreAtBoot := true },
   { id := "gpu-lost", re := alts [text "fallen off the bus", text "GPU has fallen"],
     severity := .fail, component := "GPU", title := "GPU dropped off the bus",
     recommendation := recPcie },
   { id := "disk-io-error",
     re := alts [seqs [text "I/O error, dev ", group 1 (plus (word u))],
       seqs [text "blk_update_request: ", opt (text "critical "),
         alts [text "medium", text "I/O"], text " error, dev ", group 2 (plus (word u))]],
     severity := .fail, component := "Storage", title := "Disk I/O error",
     recommendation := recDisk, keyGroup := some .dev },
   { id := "disk-medium",
     re := alts [text "Unrecovered read error", text "Medium Error",
       text "critical medium error", seqs [edge u, text "UNC", edge u]],
     severity := .fail, component := "Storage", title := "Disk medium error (unreadable sector)",
     recommendation := recDisk },
   { id := "nvme-timeout",
     re := seqs [group 1 (seqs [text "nvme", plus (digit u)]), star nonSpace, text ": ",
       alts [seqs [text "I/O", opt (text " tag"), text " ", plus (digit u), text " ", star any,
           text "timeout"],
         text "controller is down", text "Device not ready",
         text "Removing after probe failure", text "resetting controller", text "Abort status"]],
     severity := .fail, component := "Storage", title := "NVMe controller timeout/reset",
     recommendation := recDisk, keyGroup := some .dev },
   { id := "sata-link",
     re := seqs [group 1 (seqs [text "ata", plus (digit u)]),
       opt (seqs [text ".", plus (digit u)]), text ": ",
       alts [text "hard resetting link", text "SError: ", text "failed command",
         text "exception Emask", text "COMRESET failed", text "limiting SATA link speed"]],
     severity := .warn, component := "Storage",
     title := "SATA link errors (cable, backplane or drive)", recommendation := recDisk,
     keyGroup := some .dev },
   { id := "sas-reset",
     re := seqs [alts [text "mpt3sas", text "megaraid_sas", text "smartpqi", text "aacraid",
         text "hpsa"], star nonSpace, text ": ", star any,
       alts [text "FW fault", text "fault state", text "reset", text "timeout", text "Timeout"]],
     severity := .warn, component := "Storage", title := "Storage controller reset/timeout",
     recommendation := recDisk, ignoreAtBoot := true },
   { id := "thermal-throttle",
     re := seqs [alts [text "Core", text "Package"],
       text " temperature above threshold, cpu clock throttled"],
     severity := .warn, component := "Thermal", title := "CPU thermal throttling",
     recommendation := recThermal, counter := some .throttle },
   { id := "thermal-critical",
     re := alts [seqs [oneOf "Cc", text "ritical temperature reached"],
       seqs [text "thermal_zone", plus (digit u), text ": critical"],
       text "temperature above critical"],
     severity := .fail, component := "Thermal", title := "Critical temperature reached",
     recommendation := recThermal },
   { id := "clocksource",
     re := alts [seqs [text "clocksource: ", star any, text "unstable"],
       text "TSC found unstable", text "Marking TSC unstable",
       seqs [text "timekeeping watchdog", star any, text "skew"]],
     severity := .warn, component := "CPU/Platform", title := "Unstable clock source (TSC)",
     recommendation := "Often a firmware or CPU/board problem; update BIOS and re-test." },
   { id := "hung-task",
     re := seqs [text "blocked for more than ", plus (digit u), text " seconds"],
     severity := .warn, component := "System",
     title := "Task hung for a long time (storage stall or lockup)", recommendation := recDisk },
   { id := "oom", re := alts [text "Out of memory: Killed process", text "invoked oom-killer"],
     severity := .warn, component := "Test",
     title :=
       "Out of memory during stress test (test configuration issue, not a hardware failure)" },
   { id := "nic-hang",
     re := alts [text "Detected Hardware Unit Hang",
       seqs [text "NETDEV WATCHDOG: ", star any, text "transmit queue ", plus (digit u),
         text " timed out"],
       seqs [alts [text "tx", text "TX"], text " timeout"],
       seqs [text "firmware ", alts [text "error", text "crashed"]], text "Reset adapter",
       text "PCIe link lost"],
     severity := .warn, component := "Network", title := "Network adapter hang/reset",
     recommendation := "Reseat the NIC/optics, update NIC firmware; replace if it repeats.",
     ignoreAtBoot := true },
   { id := "iommu-fault",
     re := alts [seqs [text "DMAR: [DMA ", alts [text "Read", text "Write"], text "]"],
       text "DMAR: DRHD: handling fault", text "AMD-Vi: Event logged [IO_PAGE_FAULT"],
     severity := .warn, component := "Platform",
     title := "IOMMU fault (device accessed invalid memory)",
     recommendation :=
       "Usually a device firmware/driver issue; update firmware. Hardware if repeated under " ++
         "load." },
   { id := "irq-nobody",
     re := seqs [text "irq ", plus (digit u), text ": nobody cared"], severity := .warn,
     component := "Platform", title := "Spurious interrupt storm (irq nobody cared)",
     recommendation := "Update BIOS; can be a failing device asserting interrupts." },
   { id := "usb-overcurrent", re := text "over-current condition", severity := .warn,
     component := "Platform", title := "USB over-current condition",
     recommendation := "Check USB devices/ports and board power." },
   { id := "firmware-bug", re := text "[Firmware Bug]", severity := .info,
     component := "Firmware", title := "Firmware bug reported by the kernel",
     recommendation := "Consider a BIOS/BMC firmware update." }]

/-- The first rule that finds its pattern in the message, with the match. -/
def firstMatch (message : String) : List Rule → Option (Rule × Position)
  | [] => none
  | rule :: rest =>
    match search rule.re message with
    | some found => some (rule, found)
    | none => firstMatch message rest

def classify (message : String) : Option (Rule × Position) := firstMatch message (rules u)

/-- `BDF_RE`: the address of a PCI device. -/
def bdfRe : Regex := seqs
  [edge u, group 1 (seqs [times 4 hex, text ":", times 2 hex, text ":", times 2 hex, text ".",
    oneOf "01234567"]), edge u]

/-- `[g for g in match.groups() if g]`. -/
def captures (rule : Rule) (found : Position) : List (List Char) :=
  (rule.re.groupNumbers.filterMap found.captured).filter fun part => !part.isEmpty

def deviceKey (rule : Rule) (found : Position) (message : String) : String :=
  match rule.keyGroup with
  | some .bdf =>
    match (search (bdfRe u) message).bind fun m => m.captured 1 with
    | some part => String.ofList part
    | none => "unknown"
  | some .dev =>
    match captures rule found with
    | part :: _ => String.ofList part
    | [] => "unknown"
  | none => ""

end Patterns

end Kernel
end PcCheck
