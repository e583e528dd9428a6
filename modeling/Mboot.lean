import Mboot.Common.Run
import Mboot.Common.Ring
import Mboot.Common.Slice
import Mboot.Common.Memory
import Mboot.Common.OnesComplement
import Mboot.Common.Counting
import Mboot.Common.Fifo
import Mboot.Common.RingLog
import Mboot.Common.Bits
import Mboot.Common.Chain
import Mboot.Common.Exclusion
import Mboot.Common.Budget
import Mboot.Common.FirstDifference
import Mboot.Common.FormatLoop
import Mboot.Common.LongDivision
import Mboot.Common.Rearrange
import Mboot.Common.Stack
import Mboot.Common.Waiting
import Mboot.Scheduler.Model
import Mboot.Scheduler.Ring
import Mboot.Scheduler.Invariant
import Mboot.Scheduler.Spaces
import Mboot.Scheduler.System
import Mboot.Scheduler.WaitPid
import Mboot.Scheduler.LostWakeup
import Mboot.Scheduler.RoundRobin
import Mboot.Heap.Model
import Mboot.Heap.Layout
import Mboot.Heap.FreeList
import Mboot.Heap.Invariant
import Mboot.Heap.Contents
import Mboot.Heap.Coalescing
import Mboot.Heap.Client
import Mboot.Heap.OutOfMemory
import Mboot.Heap.Region
import Mboot.Paging.Model
import Mboot.Paging.Directory
import Mboot.Paging.Clone
import Mboot.Paging.AddressSpace
import Mboot.Paging.MapPage
import Mboot.Process.Model
import Mboot.Process.Image
import Mboot.Process.Spawn
import Mboot.Process.Exec
import Mboot.Process.Fork
import Mboot.Process.Sharing
import Mboot.Process.Elf
import Mboot.Cpu.Model
import Mboot.Cpu.Switch
import Mboot.Fat16.Model
import Mboot.Fat16.Volume
import Mboot.Fat16.Read
import Mboot.Fat16.Chain
import Mboot.Fat16.Directory
import Mboot.Fat16.LongNames
import Mboot.Fat16.Sectors
import Mboot.Disk.Model
import Mboot.Disk.Lock
import Mboot.Net.Model
import Mboot.Net.Wire
import Mboot.Net.RoundTrip
import Mboot.Net.Checksums
import Mboot.Net.Queue
import Mboot.Net.Fifo
import Mboot.Net.Socket
import Mboot.Net.Ports
import Mboot.Net.Receive
import Mboot.Net.Send
import Mboot.Net.Arp
import Mboot.Net.Network
import Mboot.E1k.Model
import Mboot.E1k.Receive
import Mboot.E1k.Fragments
import Mboot.E1k.Transmit
import Mboot.Vfs.Model
import Mboot.Vfs.UdpSend
import Mboot.Vfs.Objects
import Mboot.Vfs.System
import Mboot.Vfs.RefCount
import Mboot.Vfs.Invariant
import Mboot.Vfs.Agreement
import Mboot.Vfs.Namespaces
import Mboot.Vfs.ControllingTty
import Mboot.Vfs.Rebinding
import Mboot.Vfs.FailedOpen
import Mboot.Process.FailedExec
import Mboot.Process.Exit
import Mboot.Tty.Model
import Mboot.Tty.Input
import Mboot.Tty.Display
import Mboot.Tty.Scroll
import Mboot.Tty.Cells
import Mboot.Tty.Line
import Mboot.Tty.Discipline
import Mboot.Tty.Echo
import Mboot.Wait.Model
import Mboot.Wait.Invariant
import Mboot.Libc.Alloc
import Mboot.Libc.Stream
import Mboot.Libc.Qsort
import Mboot.Libc.Printf
import Mboot.Libc.Expansion
import Mboot.Libc.Terminator
import Mboot.Libc.Strtol
import Mboot.Libc.RoundTrip
import Mboot.Libc.Strtod
import Mboot.Libc.Division
import Mboot.Libc.Compare
import Mboot.Serial.Printf
