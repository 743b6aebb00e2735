import TuduOS.Lib.Lts
import TuduOS.Lib.Tiling
import TuduOS.Kernel.Thread
import TuduOS.Shm.BmemSafe
import TuduOS.Shm.BmemConserve
import TuduOS.Lwt.Pid
import TuduOS.Lwt.Ref
import TuduOS.Ipc.MutexExcl
import TuduOS.Ipc.MutexOwner
import TuduOS.Ipc.ChannelDeliver
import TuduOS.Ipc.ChannelSlot
import TuduOS.Ipc.ChannelPool
import TuduOS.Ipc.ChannelReply
import TuduOS.Lib.PrioQueue
import TuduOS.Ipc.MutexInherit
import TuduOS.Ipc.Suspend
import TuduOS.Ipc.Sem
import TuduOS.Ipc.Mailbox
import TuduOS.Lib.BitSet
import TuduOS.Ipc.Event
import TuduOS.Lib.Chain
import TuduOS.Ipc.MessageQueueOrder
import TuduOS.Kernel.ReadyQueue
import TuduOS.Lib.Bytes
import TuduOS.Lib.Ordered
import TuduOS.Mem.SmallRun
import TuduOS.Kernel.TimerFlag
import TuduOS.Kernel.TimerSoft
import TuduOS.Kernel.TimerExpiry
import TuduOS.Ipc.ChannelOpen
import TuduOS.Lwt.Execve
import TuduOS.Drivers.RingBuffer
import TuduOS.Mem.Pages
import TuduOS.Mem.Pool
import TuduOS.Kernel.Slices
import TuduOS.Drivers.RingBlk
import TuduOS.Kernel.SignalMask
import TuduOS.Kernel.SignalWait
import TuduOS.Lib.Chunks
import TuduOS.Mem.SlabRun
import TuduOS.Drivers.RingBlkQueue
import TuduOS.Drivers.DataQueue
import TuduOS.Kernel.Listed
import TuduOS.Drivers.DataQueueWait
import TuduOS.Drivers.WorkqueueRun
import TuduOS.Drivers.Completion
import TuduOS.Drivers.PipeWait
import TuduOS.Flash.Def
import TuduOS.Lib.FirstRun
import TuduOS.Flash.AllocSafe
import TuduOS.Drivers.SerialFifo
import TuduOS.Dfs.FdTable
import TuduOS.Lwt.Share
import TuduOS.Lwt.Exit
import TuduOS.Dfs.Mount
import TuduOS.Lwt.Family
import TuduOS.Xipfs.Read
import TuduOS.Xipfs.Getdents
import TuduOS.Shm.Tables
import TuduOS.Finsh.Heap
import TuduOS.Lib.Blocks
import TuduOS.Finsh.Strings
import TuduOS.Drivers.SerialTx
import TuduOS.Ymodem.Session
import TuduOS.Ymodem.Resend
import TuduOS.Lib.Count
import TuduOS.Pthread.RwlockRun
import TuduOS.Finsh.Parser
import TuduOS.Finsh.Compiler
import TuduOS.Finsh.Buffers
import TuduOS.Drivers.RingForce
import TuduOS.Mem.SmallBytes
import TuduOS.Pthread.Barrier
import TuduOS.Pthread.NamedRun
import TuduOS.Pthread.Life
import TuduOS.Utilities.Ulog
import TuduOS.Flash.NewEnv
import TuduOS.Ipc.EventAgree
import TuduOS.Lwt.Args
import TuduOS.Dfs.Poll
import TuduOS.Kernel.DelayUntil
import TuduOS.Kernel.Printf
import TuduOS.Kernel.PrintfBounds
import TuduOS.Kernel.PrintfC
import TuduOS.Lib.OrderedRing
import TuduOS.Mem.MemheapItems
import TuduOS.Ymodem.Crc
import TuduOS.Pthread.RwlockDestroy
import TuduOS.Pthread.Once
import TuduOS.Dfs.Select
import TuduOS.Finsh.Shell
import TuduOS.Finsh.Msh
import TuduOS.Utilities.UlogBackend
import TuduOS.Finsh.Literal
import TuduOS.Finsh.Termination
import TuduOS.Mem.MemheapRun
import TuduOS.Finsh.Correct
