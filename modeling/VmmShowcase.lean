import VmmShowcase.Foundations.BudgetedRun
import VmmShowcase.Foundations.LoopSemantics
import VmmShowcase.Foundations.PartialStep
import VmmShowcase.Foundations.CursorReader
import VmmShowcase.Foundations.XorMulHash
import VmmShowcase.Foundations.TextStream
import VmmShowcase.Foundations.Words
import VmmShowcase.Foundations.SignedRange
import VmmShowcase.Foundations.Turns
import VmmShowcase.Foundations.TimeSlicing
import VmmShowcase.Foundations.LazyReading
import VmmShowcase.Cpu.OperandFormats
import VmmShowcase.Cpu.LineGrammar
import VmmShowcase.Cpu.Layout
import VmmShowcase.Memory.FlatMemory
import VmmShowcase.Memory.Isolation
import VmmShowcase.Memory.ExactTranslation
import VmmShowcase.Vm.GuestState
import VmmShowcase.Vm.SnapshotRestore
import VmmShowcase.Vm.PreciseStops
import VmmShowcase.Vm.Finishing
import VmmShowcase.Vm.SliceCount
import VmmShowcase.Vm.Arithmetic
import VmmShowcase.Vm.ParsedRegisters
import VmmShowcase.Vm.Printing
import VmmShowcase.Migration.StateSerializer
import VmmShowcase.Migration.PacketValidation
import VmmShowcase.Migration.Transparency
import VmmShowcase.Scheduler.Fairness
import VmmShowcase.Scheduler.Rotation
import VmmShowcase.Scheduler.Balance
import VmmShowcase.Scheduler.Notification
import VmmShowcase.Scheduler.Turns
import VmmShowcase.Snapshot.CompleteFiles
import VmmShowcase.Snapshot.Reloading
import VmmShowcase.Hypervisor.HypervisorCore
import VmmShowcase.Hypervisor.Iteration
import VmmShowcase.Hypervisor.Termination
import VmmShowcase.Hypervisor.SchedulingTransparency
import VmmShowcase.Hypervisor.Ownership
import VmmShowcase.Hypervisor.Accounting
import VmmShowcase.Hypervisor.ConsistentMigration
import VmmShowcase.Hypervisor.Dispatches
import VmmShowcase.Hypervisor.RetiredCounts
import VmmShowcase.Hypervisor.Output
import VmmShowcase.Hypervisor.BoundedWaiting
import VmmShowcase.Hypervisor.PriorityOrder
import VmmShowcase.Hypervisor.Wire
import VmmShowcase.Hypervisor.Settling
import VmmShowcase.Main
import VmmShowcase.Legacy.Agreement
import VmmShowcase.Legacy.WordOperations
import VmmShowcase.Legacy.Resumption
import VmmShowcase.Legacy.PartialReceive
import VmmShowcase.Legacy.SnapshotFile
import VmmShowcase.Legacy.TimeSharing
import VmmShowcase.Legacy.Checkpointing
import VmmShowcase.Legacy.CheckpointedRun
import VmmShowcase.Legacy.Restart
import VmmShowcase.Legacy.Compatibility
import VmmShowcase.Legacy.ProgramAgreement
