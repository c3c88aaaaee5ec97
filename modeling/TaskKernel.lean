import TaskKernel.Archive.Writer
import TaskKernel.DeviceTree.Writer
import TaskKernel.Interrupt.Hosted
import TaskKernel.Kernel.SystemCall
import TaskKernel.PageTable.KernelTables
import TaskKernel.Trap.Syndrome
import TaskKernel.Proofs.Memory.Coalescing
import TaskKernel.Proofs.PageTable.Refinement
import TaskKernel.Proofs.Scheduler.Fairness
import TaskKernel.Proofs.Machine.UserCopies
import TaskKernel.Proofs.Signal.RoundTrip
import TaskKernel.Proofs.Archive.RoundTrip
import TaskKernel.Proofs.DeviceTree.AnyBytes
import TaskKernel.Proofs.DeviceTree.Nesting
import TaskKernel.Proofs.Scheduler.ActiveTable
import TaskKernel.Proofs.Scheduler.Termination
import TaskKernel.Proofs.PageTable.ByteAccess
import TaskKernel.Proofs.Machine.FailedLaunch
import TaskKernel.Proofs.Machine.FrameAccounts
import TaskKernel.Proofs.Machine.LaunchedTask
import TaskKernel.Proofs.Signal.Delivery
import TaskKernel.Proofs.PageTable.Names
import TaskKernel.Proofs.Kernel.ConsoleCalls
import TaskKernel.Proofs.Task.Registration
import TaskKernel.Proofs.Memory.UsableMemory
import TaskKernel.Proofs.PageTable.Edits
import TaskKernel.Proofs.PageTable.SpaceRuns
import TaskKernel.Proofs.PageTable.TableCount
import TaskKernel.Proofs.PageTable.WellFormed
import TaskKernel.Proofs.Kernel.Neutrality
import TaskKernel.Proofs.Memory.SharedHeap
import TaskKernel.Proofs.Archive.Lookup
import TaskKernel.Proofs.Task.Roster
import TaskKernel.Proofs.Interrupt.NestedLocks
