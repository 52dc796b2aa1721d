import CheesecakeOS.Lib.Words
import CheesecakeOS.Lib.Runs
import CheesecakeOS.Lib.Bytes
import CheesecakeOS.Lib.Links
import CheesecakeOS.Lib.Tiling
import CheesecakeOS.Lib.TwoLevel
import CheesecakeOS.Lib.Stack
import CheesecakeOS.Lib.Ring
import CheesecakeOS.Lib.Caching
import CheesecakeOS.Lib.Decimal
import CheesecakeOS.Lib.Priority
import CheesecakeOS.Lib.Painting
import CheesecakeOS.Memory.Pmem
import CheesecakeOS.Memory.PmemRuns
import CheesecakeOS.Memory.KernelImage
import CheesecakeOS.Memory.Heap
import CheesecakeOS.Memory.HeapBlocks
import CheesecakeOS.Memory.HeapLayout
import CheesecakeOS.Memory.HeapRuns
import CheesecakeOS.Memory.HeapStats
import CheesecakeOS.Memory.HeapFrame
import CheesecakeOS.Memory.HeapLimits
import CheesecakeOS.Memory.HeapFull
import CheesecakeOS.Memory.Paging
import CheesecakeOS.Memory.PageMap
import CheesecakeOS.Memory.MapPage
import CheesecakeOS.Memory.IdentityMap
import CheesecakeOS.Memory.Tlb
import CheesecakeOS.Interrupts.Machine
import CheesecakeOS.Interrupts.Exceptions
import CheesecakeOS.Interrupts.Stubs
import CheesecakeOS.Interrupts.Idt
import CheesecakeOS.Interrupts.Pic
import CheesecakeOS.Interrupts.Irq
import CheesecakeOS.Interrupts.InService
import CheesecakeOS.Drivers.Keyboard
import CheesecakeOS.Drivers.Scancode
import CheesecakeOS.Drivers.ReadChar
import CheesecakeOS.Drivers.KeyRepeat
import CheesecakeOS.Drivers.TypedText
import CheesecakeOS.Drivers.Shift
import CheesecakeOS.Drivers.Keystrokes
import CheesecakeOS.Drivers.Timer
import CheesecakeOS.Kernel.Scheduler
import CheesecakeOS.Kernel.SchedulerRuns
import CheesecakeOS.Kernel.Yields
import CheesecakeOS.Kernel.TaskRollback
import CheesecakeOS.Kernel.Vga
import CheesecakeOS.Kernel.Terminal
import CheesecakeOS.Kernel.Console
import CheesecakeOS.Kernel.Visualizer
import CheesecakeOS.Kernel.Monitor
import CheesecakeOS.Kernel.Shell
import CheesecakeOS.Kernel.ShellLine
import CheesecakeOS.Kernel.Commands
import CheesecakeOS.Kernel.Numbers
import CheesecakeOS.Kernel.Dispatch
import CheesecakeOS.Kernel.Elapsed
import CheesecakeOS.Kernel.Tasks
import CheesecakeOS.Kernel.Bounce
import CheesecakeOS.Kernel.Boot
import CheesecakeOS.Kernel.BootMemory
import CheesecakeOS.Kernel.GameClock
import CheesecakeOS.Kernel.Os
import CheesecakeOS.Kernel.OsShell
import CheesecakeOS.Kernel.OsSession
import CheesecakeOS.Kernel.OsFrames
import CheesecakeOS.Kernel.OsTyped
import CheesecakeOS.Kernel.OsIsolation
import CheesecakeOS.Kernel.OsBooks
import CheesecakeOS.Kernel.OsPicture
import CheesecakeOS.Kernel.Board
import CheesecakeOS.Kernel.BoardTime
