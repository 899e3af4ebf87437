import RedMagic.Lib.Transition
import RedMagic.Mm.Basic
import RedMagic.Lib.Blocks
import RedMagic.Mm.Colour
import RedMagic.Mm.Frames
import RedMagic.Mm.Regions
import RedMagic.Mm.FirstFit
import RedMagic.Heap.Basic
import RedMagic.Heap.Nodes
import RedMagic.Lib.Tiling
import RedMagic.Heap.Partition
import RedMagic.Heap.Merge
import RedMagic.Heap.OnFrames
import RedMagic.Heap.ZeroSize
import RedMagic.Heap.BestFit
import RedMagic.Heap.Calls
import RedMagic.Heap.Runs
import RedMagic.Bbuf.Basic
import RedMagic.Bbuf.Sections
import RedMagic.Bbuf.Sequential
import RedMagic.Sched.Status
import RedMagic.Sync.Mutex
import RedMagic.Sync.Semaphore
import RedMagic.Bbuf.Threads
import RedMagic.Bbuf.Identity
import RedMagic.Bbuf.Waiters
import RedMagic.Bbuf.Writes
import RedMagic.Sched.Machine
import RedMagic.Sched.Lifecycle
import RedMagic.Sched.Exit
import RedMagic.Sched.Derefs
import RedMagic.Sync.Irq
import RedMagic.Paging.Basic
import RedMagic.Paging.Map
import RedMagic.Paging.Init
import RedMagic.Bbuf.Veil
import RedMagic.Bbuf.OutOfRange
import RedMagic.Lib.Loop
import RedMagic.Mp.Basic
import RedMagic.Mp.Table
import RedMagic.Mp.Boot
import RedMagic.Heap.Coalesce
import RedMagic.Sched.Running
import RedMagic.Sched.Entries
import RedMagic.Sched.RoundRobin
import RedMagic.Sched.Pick
import RedMagic.Lib.Pic8259
import RedMagic.Lib.Ring
import RedMagic.Lib.Memory
import RedMagic.Lib.Countdown
import RedMagic.Sched.Remove
import RedMagic.Lib.Stock
import RedMagic.Heap.Stock
import RedMagic.Heap.Memory
import RedMagic.Task.Create
import RedMagic.Task.AllOrNothing
import RedMagic.Console.Basic
import RedMagic.Console.Window
import RedMagic.Printk.Basic
import RedMagic.Printk.Number
import RedMagic.Printk.Grammar
import RedMagic.Dev.Names
import RedMagic.Printk.Rendering
import RedMagic.Sched.Alarm
import RedMagic.Sched.SchedRr
import RedMagic.Paging.MemInfo
import RedMagic.Paging.Spaces
import RedMagic.Mp.Bounds
import RedMagic.Paging.Fault
import RedMagic.Lib.Fallible
import RedMagic.Lib.Recency
import RedMagic.Bbuf.Recency
import RedMagic.Bbuf.Disclosure
import RedMagic.Lib.Scanner
import RedMagic.Printk.Rounds
import RedMagic.Printk.Screen
import RedMagic.Printk.Star
import RedMagic.Lib.Moves
import RedMagic.Str.Memmove
import RedMagic.Sync.Spinlock
import RedMagic.Lib.Nesting
import RedMagic.Sync.Regions
import RedMagic.Lib.Cursor
import RedMagic.Printk.Cursor
import RedMagic.Dev.Ramfs
import RedMagic.Dev.Rtc
import RedMagic.Lib.Rings
import RedMagic.ListHead.Basic
import RedMagic.ListHead.Refine
import RedMagic.Heap.Links
import RedMagic.Heap.Ownership
import RedMagic.Lib.X86
import RedMagic.Arch.Switch
import RedMagic.Arch.Threads
import RedMagic.Arch.Interrupt
import RedMagic.Arch.Irq
import RedMagic.Arch.Preempt
import RedMagic.Lib.Sections
import RedMagic.Sync.Statements
