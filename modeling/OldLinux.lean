import OldLinux.Lib.System
import OldLinux.Lib.Numerals
import OldLinux.Lib.Links
import OldLinux.Lib.RingBuffer
import OldLinux.Sched.WaitQueue
import OldLinux.Sched.Interruptible
import OldLinux.Pipe.Code
import OldLinux.Pipe.Fifo
import OldLinux.Pipe.Wakeup
import OldLinux.Lib.Bytes
import OldLinux.Lib.Program
import OldLinux.Lib.Tally
import OldLinux.Bitmap.Bits
import OldLinux.Fs.Types
import OldLinux.Bitmap.Alloc
import OldLinux.Bitmap.Exact
import OldLinux.Hd.Driver
import OldLinux.Hd.EndToEnd
import OldLinux.Lib.WriteBack
import OldLinux.Buffer.Cache
import OldLinux.Buffer.Users
import OldLinux.Buffer.View
import OldLinux.Buffer.Coherence
import OldLinux.Fs.Bmap
import OldLinux.Fs.FileDev
import OldLinux.Fs.BlockMap
import OldLinux.Fs.DirFile
import OldLinux.Fs.DirMap
import OldLinux.Fs.Truncate
import OldLinux.Files.Tables
import OldLinux.Files.Inode
import OldLinux.Files.Namei
import OldLinux.Files.Syscalls
import OldLinux.Files.View
import OldLinux.Files.Count
import OldLinux.Files.Descriptors
import OldLinux.Trap.Frame
import OldLinux.Trap.Entry
import OldLinux.Trap.Irq
import OldLinux.Trap.Discipline
import OldLinux.Trap.Arguments
import OldLinux.Mm.Page
import OldLinux.Mm.Memory
import OldLinux.Mm.Tree
import OldLinux.Mm.Allocator
import OldLinux.Mm.Walk
import OldLinux.Sched.Schedule
import OldLinux.Mm.RefCount
import OldLinux.Mm.Cow
import OldLinux.Sched.Fork
import OldLinux.Fs.Directory
import OldLinux.Fs.UniqueNames
import OldLinux.Lib.Hierarchy
import OldLinux.Fs.NameCalls
import OldLinux.Fs.LinkCounts
import OldLinux.Lib.Threaded
import OldLinux.Lib.StructLayout
import OldLinux.Lib.Turns
import OldLinux.Buffer.Queues
import OldLinux.Buffer.Getblk
import OldLinux.Buffer.NullLinks
import OldLinux.Buffer.Layout
import OldLinux.BlockDev.Sync
import OldLinux.Mm.VerifyArea
import OldLinux.Fs.DiskFormat
import OldLinux.Hd.AddRequest
import OldLinux.Lib.Elevator
import OldLinux.Hd.Elevator
import OldLinux.Tty.Queue
import OldLinux.Tty.Table
import OldLinux.Tty.Code
import OldLinux.Tty.Terminal
import OldLinux.Tty.Overrun
import OldLinux.Tty.Serial
import OldLinux.Tty.LineCount
import OldLinux.Tty.Output
import OldLinux.Access.State
import OldLinux.Access.Namei
import OldLinux.Access.Calls
import OldLinux.Fs.Touches
import OldLinux.Access.Guard
import OldLinux.Access.Entries
import OldLinux.Access.Permission
import OldLinux.Inode.Cache
import OldLinux.Inode.References
import OldLinux.Inode.Steps
import OldLinux.Inode.Unique
import OldLinux.Mm.ForkExit
import OldLinux.Mm.MapPage
import OldLinux.Mm.Rollback
import OldLinux.Mm.GetPte
import OldLinux.Mm.DemandPaging
import OldLinux.Mm.ClearTables
import OldLinux.Mm.KernelTree
import OldLinux.Mm.PagingInit
import OldLinux.Mm.SetupVm
import OldLinux.Mm.MapBounds
import OldLinux.Lib.FirstMax
import OldLinux.Sched.Selection
import OldLinux.Sched.Fairness
import OldLinux.Sched.Switch
import OldLinux.Sched.Processes
import OldLinux.Sched.Signals
import OldLinux.Sched.Kill
import OldLinux.Sched.Zombies
import OldLinux.Sched.Pids
import OldLinux.Lib.Emitter
import OldLinux.Vsprintf.Code
import OldLinux.Vsprintf.Truncate
import OldLinux.Vsprintf.Pieces
import OldLinux.Vsprintf.Fields
import OldLinux.Vsprintf.Scan
import OldLinux.Bitmap.FreeCount
import OldLinux.Access.Seek
import OldLinux.Access.Offsets
import OldLinux.Files.Disk
import OldLinux.Files.FailedAlloc
import OldLinux.Buffer.Numbers
import OldLinux.Fs.Offsets
import OldLinux.BlockDev.Cache
import OldLinux.BlockDev.Transfer
import OldLinux.Fs.Mount
import OldLinux.Files.Path
import OldLinux.Files.Access
import OldLinux.Files.Coherent
import OldLinux.Files.Resolve
import OldLinux.Tty.Uart
import OldLinux.Vsprintf.Number
import OldLinux.Lib.CString
import OldLinux.Lib.Cost
import OldLinux.Lib.Runs
import OldLinux.Strings.Code
import OldLinux.Strings.Move
import OldLinux.Strings.Bounded
import OldLinux.Strings.Search
import OldLinux.Strings.Compare
import OldLinux.Strings.Copy
import OldLinux.Strings.Tokens
import OldLinux.Files.DirRoom
import OldLinux.Files.GiveBack
import OldLinux.Files.Mkdir
import OldLinux.Files.MkdirCleanup
import OldLinux.Lib.Rooted
import OldLinux.Fs.DirTree
import OldLinux.Inode.Stable
import OldLinux.Files.Entries
import OldLinux.Files.AllCalls
import OldLinux.Files.Modify
import OldLinux.Files.Unlink
import OldLinux.Files.Attributes
import OldLinux.Files.MountRoot
import OldLinux.Lib.LineEditor
import OldLinux.Tty.Editing
import OldLinux.Lib.Refinement
import OldLinux.Hd.Virtqueue
