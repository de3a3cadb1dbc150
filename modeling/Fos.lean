import Fos.Lib.Prog
import Fos.Lib.Cover
import Fos.Lib.Fifo
import Fos.Mmu
import Fos.Kernel
import Fos.BlockList
import Fos.Frames
import Fos.KernelHeap
import Fos.KernelHeap.Blocks
import Fos.KernelHeap.Pages
import Fos.KernelHeap.Calls
import Fos.KernelHeap.Partition
import Fos.Boot
import Fos.KernelHeap.Runs
import Fos.KernelHeap.Strategy
import Fos.UserHeap
import Fos.UserHeap.Accounting
import Fos.Queue
import Fos.Queue.Sequences
import Fos.Queue.Foreach
import Fos.Sched
import Fos.Sched.Queues
import Fos.Sched.Semaphore
import Fos.Sched.SemaphoreRuns
import Fos.Lib.RefPool
import Fos.PageTables
import Fos.PageTables.Directories
import Fos.PageTables.Accounts
import Fos.Lib.FlatMemory
import Fos.Lib.Gaps
import Fos.BlockOrder
import Fos.KernelHeap.Order
import Fos.KernelHeap.FirstFit
import Fos.KernelHeap.NextFit
import Fos.KernelHeap.EmptyList
import Fos.KernelHeap.Sizes
import Fos.PageTables.Tables
import Fos.PageTables.Kmalloc
import Fos.PageTables.Create
import Fos.PageTables.Memory
import Fos.PageTables.Translation
import Fos.PageTables.User
import Fos.PageTables.Release
import Fos.PageTables.Roots
import Fos.PageTables.Still
import Fos.PageTables.Pages
import Fos.PageTables.Access
import Fos.UserEnvironment
import Fos.PageTables.NewDirectory
import Fos.PageTables.Boot
import Fos.PageTables.FrameRuns
import Fos.PageTables.MapFrame
import Fos.PageTables.GiveBack
import Fos.PageTables.HeapBlocks
import Fos.PageFile
import Fos.Lib.SlotPool
import Fos.PageFile.Tables
import Fos.PageFile.Slots
import Fos.PageFile.Teardown
import Fos.PageFile.Counting
import Fos.PageFile.Conservation
import Fos.PageFile.Transfer
import Fos.Lib.Store
import Fos.PageFile.Contents
import Fos.PageFile.StoreRuns
import Fos.PageFile.MemoryRuns
import Fos.PageFile.Later
import Fos.PageFile.Coverage
import Fos.WorkingSet
import Fos.WorkingSet.DemandPaging
import Fos.WorkingSet.Entries
import Fos.WorkingSet.Eviction
import Fos.WorkingSet.Faults
import Fos.WorkingSet.Fifo
import Fos.WorkingSet.Invariant
import Fos.WorkingSet.Processes
import Fos.Loader
import Fos.Loader.Segments
import Fos.Loader.Mapping
import Fos.Loader.Copying
import Fos.Loader.Storing
import Fos.WorkingSet.Runs
import Fos.WorkingSet.Transparency
import Fos.UserMemory
import Fos.UserMemory.Backing
import Fos.UserMemory.AllocatePage
import Fos.UserMemory.FreeMem
import Fos.PageTables.Required
import Fos.SharedMemory
import Fos.SharedMemory.Blind
import Fos.Lib.KeyTable
import Fos.SharedMemory.FullTable
import Fos.Lib.Bytes
import Fos.ObjectTable
import Fos.ObjectTable.Names
import Fos.ObjectTable.Shares
import Fos.ObjectTable.Semaphores
import Fos.ObjectTable.Lookup
import Fos.UserHeap.FirstFit
import Fos.UserHeap.Sizes
import Fos.UserHeap.EmptyList
import Fos.Lib.RoundRobin
import Fos.Sched.RoundRobin
import Fos.Sched.Lifecycle
import Fos.Sched.Exclusive
import Fos.Sched.EnvIds
import Fos.Sched.SignalSafety
import Fos.Sched.Exits
import Fos.SharedMemory.Storage
import Fos.SharedMemory.StorageRuns
import Fos.SharedMemory.StorageArray
import Fos.SharedMemory.Attachments
import Fos.SharedMemory.Pages
import Fos.SharedMemory.Calls
import Fos.SharedMemory.Start
import Fos.SharedMemory.Runs
import Fos.SharedMemory.LifeCycle
import Fos.SharedMemory.Counts
import Fos.SharedMemory.Room
import Fos.SharedMemory.OneObject
import Fos.Strings
import Fos.Strings.Numbers
import Fos.Strings.Split
import Fos.Sleep
import Fos.CommandPrompt
import Fos.CommandPrompt.Bounds
import Fos.Descriptors
import Fos.UserHeap.Descriptors
import Fos.KernelHeap.Tabled
import Fos.KernelHeap.Descriptors
import Fos.Loader.Allocation
import Fos.Loader.Image
import Fos.Loader.Program
import Fos.Loader.Running
import Fos.Console
import Fos.Strings.Memory
import Fos.Console.Input
import Fos.Console.Screen
import Fos.Console.Keyboard
import Fos.Console.Readline
