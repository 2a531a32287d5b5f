import DemandPaging.Tlb.Slots
import DemandPaging.Coremap.Queue
import DemandPaging.Fault.Residue
import DemandPaging.Fault.OutOfMemory
import DemandPaging.Machine.Residency
import DemandPaging.Machine.Teardown
import DemandPaging.Smp.Statistics
import DemandPaging.Fork
import DemandPaging.Kernel.Announced
import DemandPaging.Kernel.Reaping
import DemandPaging.Kernel.Pids
import DemandPaging.LoadElf.Accepted
import DemandPaging.Emu.Locking
import DemandPaging.Syscall.Open
import DemandPaging.Syscall.FileIo
import DemandPaging.Synch.Semaphore
import DemandPaging.Synch.Lock
import DemandPaging.Semfs.Waiters
import DemandPaging.AddrSpace.Refusals
import DemandPaging.Kheap.Runs
import DemandPaging.Kheap.Large
import DemandPaging.Migration
import DemandPaging.Sfs.Truncated
import DemandPaging.Sfs.Refinement
import DemandPaging.Lib.DList
import DemandPaging.Threadlist
