import K0.Lib.Word
import K0.Lib.Bytes
import K0.Lib.Outcome
import K0.Lib.Memory
import K0.Lib.Radix
import K0.Lib.Intrusive
import K0.Lib.Gaps
import K0.Abi
import K0.Cap.Basic
import K0.Cap.Retype
import K0.Cap.Bootstrap
import K0.Cap.Ledger
import K0.Mm.Paging
import K0.Mm.Pool
import K0.Mm.PoolRefinement
import K0.Mm.Linear
import K0.Mm.User
import K0.Mm.UserTables
import K0.Mm.UserBuild
import K0.Mm.UserRange
import K0.Task.Basic
import K0.Task.Spawn
import K0.Ipc.Basic
import K0.Ipc.Erasure
import K0.Ipc.Abstract
import K0.Ipc.Invariant
import K0.Ipc.Refinement
import K0.Kernel.Basic
import K0.Boot.Fdt
import K0.Boot.FdtTree
import K0.Boot.FdtScan
import K0.Boot.FdtCorrect
import K0.Boot.FdtSound
import K0.Boot.Window
import K0.Boot.Main
import K0.Boot.Tables
import K0.Boot.Memory
import K0.Ipc.World
import K0.Ipc.Effect
import K0.Ipc.Order
import K0.Ipc.Commute
import K0.Kernel.Steps
import K0.Boot.FdtForest
import K0.Boot.FdtReads
import K0.Boot.FdtPanic
import K0.Boot.FdtConfined
import K0.Boot.FdtUnique
import K0.Boot.FdtCells
import K0.Kernel.Simulation
import K0.Kernel.Tables
import K0.Kernel.Atomic
import K0.Kernel.Queues
import K0.Kernel.Park
import K0.Kernel.Erasure
import K0.Kernel.Private
import K0.Kernel.Registers
import K0.Kernel.Trace
import K0.Kernel.Lawful
import K0.Kernel.Lifecycle
import K0.Task.Load
import K0.Kernel.Mmu
import K0.Boot.Elf
import K0.Boot.Budget
import K0.Boot.Space
import K0.Boot.SelfCheck
import K0.Boot.Complete
import K0.Kernel.Space
import K0.Kernel.Walkers
import K0.Kernel.Isolation
import K0.Kernel.Derive
import K0.Kernel.Contents
import K0.Kernel.UserMemory
import K0.Kernel.Bootinfo
import K0.Kernel.Addresses
import K0.Kernel.Order
import K0.Kernel.Commute
import K0.Kernel.Run
import K0.Kernel.Messages
import K0.Kernel.Calls
