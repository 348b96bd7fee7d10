import NetStack.Lib.ByteMem
import NetStack.Lib.Chain
import NetStack.Lib.Transition
import NetStack.Lib.Ownership
import NetStack.Lib.Trace
import NetStack.Lib.Ring
import NetStack.Lib.Concurrent
import NetStack.Lib.Riscv
import NetStack.Lib.MachineMode
import NetStack.Lib.Privilege
import NetStack.Lib.TxFifo
import NetStack.Lib.Sv39
import NetStack.Lib.Emit
import NetStack.Memory.Allocator
import NetStack.Memory.AllocatorSpec
import NetStack.Memory.AllocatorSteps
import NetStack.Memory.Preemption
import NetStack.Memory.Partition
import NetStack.Memory.Bump
import NetStack.Memory.PageTable
import NetStack.Memory.PageTableMap
import NetStack.Memory.SatpSwitch
import NetStack.Memory.KernelTables
import NetStack.Memory.SoftwareWalk
import NetStack.Memory.MapEffects
import NetStack.Memory.FirstFit
import NetStack.Memory.PageList
import NetStack.Memory.ClientData
import NetStack.Memory.Availability
import NetStack.Memory.BootRun
import NetStack.Memory.FastPath
import NetStack.Memory.InitLayout
import NetStack.Virtio.Queue
import NetStack.Virtio.Device
import NetStack.Virtio.Init
import NetStack.Virtio.Rx
import NetStack.Virtio.Tx
import NetStack.Virtio.Output
import NetStack.Virtio.Stale
import NetStack.Virtio.RxSafe
import NetStack.Virtio.TxSafe
import NetStack.Virtio.Handshake
import NetStack.Virtio.Reinit
import NetStack.Virtio.Leak
import NetStack.Virtio.Packet
import NetStack.Virtio.TxWait
import NetStack.Virtio.Send
import NetStack.Virtio.TxDelivery
import NetStack.Virtio.Scan
import NetStack.Dtb.Traverse
import NetStack.Dtb.Encoding
import NetStack.Dtb.Walk
import NetStack.Dtb.Callback
import NetStack.Dtb.Bounds
import NetStack.Dtb.Progress
import NetStack.Dtb.UnitName
import NetStack.Process.Scheduler
import NetStack.Process.SchedulerInv
import NetStack.Process.SchedulerSteps
import NetStack.Process.SchedulerRules
import NetStack.Process.SchedulerPaths
import NetStack.Process.Contexts
import NetStack.Process.Switch
import NetStack.Process.Transparent
import NetStack.Process.States
import NetStack.Process.ProcessTable
import NetStack.Process.Create
import NetStack.Process.RoundRobin
import NetStack.Process.Preemptible
import NetStack.Process.TrapToken
import NetStack.Process.MachineTrap
import NetStack.Process.MachinePanic
import NetStack.Process.Ticks
import NetStack.Trap.Uart
import NetStack.Trap.Exception
import NetStack.Trap.Vector
import NetStack.Trap.Routing
import NetStack.Trap.Ns16550a
import NetStack.Trap.Console
import NetStack.System.Moves
import NetStack.System.DriverMoves
import NetStack.System.Isolation
import NetStack.System.Guarantees
import NetStack.System.Scan
import NetStack.Virtio.RxDelivery
