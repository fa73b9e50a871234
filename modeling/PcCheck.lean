import PcCheck.Lib.EventMachine
import PcCheck.Lib.Dict
import PcCheck.Lib.Register
import PcCheck.Lib.Tally
import PcCheck.Lib.Firsts
import PcCheck.Lib.Regex
import PcCheck.Lib.Spool
import PcCheck.Lib.Utf8
import PcCheck.Lib.JsonNumber
import PcCheck.Lib.JsonString
import PcCheck.Lib.JsonText
import PcCheck.Lib.CrashFs
import PcCheck.Lib.Script
import PcCheck.Lib.Machine
import PcCheck.Python
import PcCheck.Text
import PcCheck.Config
import PcCheck.Rotating
import PcCheck.Findings
import PcCheck.Store
import PcCheck.Calls
import PcCheck.Dedup
import PcCheck.FlushRace
import PcCheck.Session
import PcCheck.Saves
import PcCheck.Report
import PcCheck.Acceptance
import PcCheck.Finalize
import PcCheck.Incident
import PcCheck.Resets
import PcCheck.Discovery
import PcCheck.Disks
import PcCheck.DiskRuns
import PcCheck.Erasure
import PcCheck.ScanProgress
import PcCheck.ScanRecovery
import PcCheck.Phases
import PcCheck.PhaseMoves
import PcCheck.PhaseOrder
import PcCheck.PowerCycle
import PcCheck.StuckPhases
import PcCheck.Aborts
import PcCheck.Boots
import PcCheck.Counters
import PcCheck.CountRuns
import PcCheck.CountCredit
import PcCheck.CountExact
import PcCheck.Sticks
import PcCheck.StickRuns
import PcCheck.DiskStops
import PcCheck.StopRuns
import PcCheck.Kmsg
import PcCheck.Ipmi
import PcCheck.KernelRules
import PcCheck.KernelMessages
import PcCheck.AerCounts
import PcCheck.CleanFlag
import PcCheck.Smart
import PcCheck.SmartFinal
import PcCheck.SmartDrives
import PcCheck.SelftestRuns
import PcCheck.ScanCoverage
import PcCheck.Stressors
import PcCheck.PhaseRows
import PcCheck.BootDisk
import PcCheck.KernelLog
import PcCheck.Taint
import PcCheck.DataPartition
import PcCheck.PcieLinks
import PcCheck.OutputTail
import PcCheck.YCruncher
import PcCheck.FloatRange
import PcCheck.Settings
import PcCheck.LoadOptions
import PcCheck.SilentSettings
import PcCheck.Judged
import PcCheck.RasPolls
import PcCheck.RasReflected
import PcCheck.EdacTree
import PcCheck.EdacTotals
import PcCheck.SlotFiles
import PcCheck.FindingsText
import PcCheck.Storage
import PcCheck.StorageRuns
import PcCheck.Children
import PcCheck.Workloads
import PcCheck.WorkloadRuns
import PcCheck.WorkloadEnds
import PcCheck.WorkloadFailures
