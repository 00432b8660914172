import AegisHV.Lib.Float
import AegisHV.Spec.Memory
import AegisHV.Lib.Run
import AegisHV.Lib.Span
import AegisHV.Proofs.Memory
import AegisHV.Spec.Allocator
import AegisHV.Proofs.FreeRuns
import AegisHV.Proofs.Allocator
import AegisHV.Lib.Ledger
import AegisHV.Proofs.AllocatorRun
import AegisHV.Proofs.AllocatorRollback
import AegisHV.Lib.OrdMap
import AegisHV.Lib.Text
import AegisHV.Spec.Stage2
import AegisHV.Spec.Pattern
import AegisHV.Spec.TrapPolicy
import AegisHV.Spec.TrapController
import AegisHV.Proofs.TrapController
import AegisHV.Proofs.TrapRun
import AegisHV.Proofs.TrapHits
import AegisHV.Proofs.TrapRestore
import AegisHV.Lib.Bytes
import AegisHV.Lib.Ends
import AegisHV.Spec.Elf
import AegisHV.Spec.HostPaging
import AegisHV.Proofs.Elf
import AegisHV.Proofs.HostPaging
import AegisHV.Spec.EarlyMemory
import AegisHV.Proofs.EarlyMemory
import AegisHV.Lib.Ranges
import AegisHV.Spec.MapPlan
import AegisHV.Lib.Places
import AegisHV.Lib.Ring
import AegisHV.Proofs.MapPlan
import AegisHV.Spec.Scheduler
import AegisHV.Proofs.Scheduler
import AegisHV.Lib.Fifo
import AegisHV.Spec.Abi
import AegisHV.Proofs.Abi
import AegisHV.Proofs.MemoryMap
import AegisHV.Proofs.Handoff
import AegisHV.Lib.Glob
import AegisHV.Proofs.Pattern
import AegisHV.Spec.Regex
import AegisHV.Proofs.PatternText
import AegisHV.Proofs.PatternOperators
import AegisHV.Proofs.Cgroup
import AegisHV.Proofs.Qmp
import AegisHV.Proofs.Kaslr
import AegisHV.Spec.Identity
import AegisHV.Spec.Actions
import AegisHV.Proofs.Identity
import AegisHV.Proofs.Actions
import AegisHV.Spec.Telemetry
import AegisHV.Proofs.Telemetry
import AegisHV.Lib.Radix
import AegisHV.Spec.Spool
import AegisHV.Proofs.SpoolCodec
import AegisHV.Proofs.Spool
import AegisHV.Lib.Split
import AegisHV.Spec.Trace
import AegisHV.Proofs.Trace
import AegisHV.Lib.Walk
import AegisHV.Spec.Vmi
import AegisHV.Spec.VmiX86
import AegisHV.Proofs.VmiX86
import AegisHV.Spec.VmiCache
import AegisHV.Proofs.VmiCache
import AegisHV.Spec.VmiArm64
import AegisHV.Proofs.VmiArm64
import AegisHV.Spec.DetectorState
import AegisHV.Proofs.DetectorState
import AegisHV.Proofs.Config
import AegisHV.Proofs.ConfigLines
import AegisHV.Proofs.ConfigTables
import AegisHV.Proofs.Event
import AegisHV.Proofs.Stage2
import AegisHV.Proofs.Storm
import AegisHV.Proofs.AllocatorExact
import AegisHV.Proofs.EarlyRollback
import AegisHV.Proofs.HostPagingOrder
import AegisHV.Proofs.HostPagingMaterialized
import AegisHV.Lib.Bits
import AegisHV.Lib.Sha256
import AegisHV.Spec.Integrity
import AegisHV.Proofs.Sha256
import AegisHV.Proofs.Integrity
import AegisHV.Lib.Gaps
import AegisHV.Lib.PyJson
import AegisHV.Spec.Type1Events
import AegisHV.Proofs.Type1Events
import AegisHV.Proofs.Type1Stream
import AegisHV.Proofs.Ownership
import AegisHV.Proofs.HugePage
import AegisHV.Spec.Acpi
import AegisHV.Spec.Vgic
import AegisHV.Proofs.Vgic
import AegisHV.Proofs.VgicSgi
import AegisHV.Spec.VmxEpt
import AegisHV.Spec.VmxTraps
import AegisHV.Proofs.VmxTraps
import AegisHV.Lib.Assoc
import AegisHV.Spec.Wx
import AegisHV.Proofs.TraceFields
import AegisHV.Spec.Policy
import AegisHV.Proofs.Policy
import AegisHV.Proofs.PolicyCooldown
import AegisHV.Spec.VmxRuntime
import AegisHV.Proofs.CacheFifo
import AegisHV.Proofs.Cgroup
import AegisHV.Proofs.Qmp
import AegisHV.Proofs.Kaslr
import AegisHV.Proofs.VmxRuntime
import AegisHV.Proofs.Wx
import AegisHV.Proofs.Acpi
import AegisHV.Proofs.Calendar
import AegisHV.Proofs.QueueGauge
