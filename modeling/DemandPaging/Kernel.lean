import DemandPaging.Fault
import DemandPaging.LoadElf.Failures
import DemandPaging.Lib.Search
import DemandPaging.Lib.Run
import DemandPaging.Proc

set_option autoImplicit false

/-! # Processes, vnodes and open files

The life of processes, from `common_prog` and `sys_fork` to `sys__exit` and `proc_wait`, with what
they share: vnodes and their reference counts, the system table of open files, and the semaphore a
process signals when it ends (`proc.c`, `proc_syscalls.c`, `file_syscalls.c`, `runprogram.c`,
`menu.c`, `vnode.c`, `synch.c`). A thread runs from one point where it can block in `P` to the next.
Every process has one thread, which is named by the pid; the menu is the thread of the kernel
process.

Addresses of structures are never used twice here, so a pointer to a freed structure is recognised
as one. Contents of files and of memory are not part of this state: the load flags of segments
belong to `Sys`. -/

namespace DemandPaging

open Function (update)

def OPEN_MAX : Nat := 128

def SYSTEM_OPEN_MAX : Nat := 10 * OPEN_MAX

def STDERR_FILENO : Nat := 2

/-- `struct semaphore`. -/
structure Semaphore where
  sem_count : Nat
  sem_wchan : List Nat
deriving DecidableEq, Repr

/-- `struct proc`. `addr` is where it lies; the index in `processTable` is `p_pid`. -/
structure ProcStruct where
  addr : Nat
  p_numthreads : Nat
  p_addrspace : Option AddrSpace
  p_status : UInt32
  p_sem : Semaphore
  fileTable : Nat → Option Nat

/-- `struct openfile`, an entry of `systemFileTable`. -/
structure Openfile where
  vn : Option Nat
  offset : Nat
  countRef : UInt32
deriving DecidableEq, Repr

/-- Where a thread stands in `proc_wait`: about to test the count in `P`, asleep on the wait
    channel, or past `P`. -/
inductive WaitPhase
  | ready
  | asleep
  | taken
deriving DecidableEq, Repr

/-- A thread in `proc_wait`, with the pointer it was given. -/
structure Waiter where
  pid : Nat
  addr : Nat
  phase : WaitPhase
deriving DecidableEq, Repr

structure Kernel where
  table : ProcessTable
  procs : Nat → Option ProcStruct
  waits : Nat → Option Waiter
  vnodes : Nat → Nat
  files : Nat → Openfile
  fresh : Nat

/-- The slot of the kernel process. -/
def KPROC : Nat := 1

/-! ## Vnodes -/

/-- `vfs_open` of a vnode: `vnode_init` gives the count 1, `VOP_INCREF` adds one. A vnode that is
    not in memory has the count 0. -/
def vfsOpen (vnodes : Nat → Nat) (v : Nat) : Nat → Nat := update vnodes v (vnodes v + 1)

/-- `vfs_close`: `vnode_decref`, which hands the last reference to `VOP_RECLAIM`. -/
def vfsClose (vnodes : Nat → Nat) (v : Nat) : Except Crash (Nat → Nat) := do
  kassert (vnodes v > 0)
  return update vnodes v (vnodes v - 1)

namespace Kernel

/-- `as_destroy`, as far as vnodes go. `segdes` reads through its argument. -/
def asDestroy (as : AddrSpace) (vnodes : Nat → Nat) : Except Crash (Nat → Nat) :=
  match as.seg1, as.seg2, as.segstack with
  | some s1, some _, some _ =>
    match s1.elfdata with
    | none => .ok vnodes
    | some v => vfsClose vnodes v
  | _, _, _ => .error .nullDeref

variable (k : Kernel)

/-- The structure of process `p`, for a thread of its own or with a pointer to it. -/
def proc (p : Nat) : Except Crash ProcStruct :=
  match k.procs p with
  | none => .error .useAfterFree
  | some pr => .ok pr

def setProc (p : Nat) (pr : ProcStruct) : Kernel :=
  { k with procs := update k.procs p (some pr) }

@[simp] theorem setProc_table (p : Nat) (pr : ProcStruct) : (k.setProc p pr).table = k.table := rfl

@[simp] theorem setProc_procs (p : Nat) (pr : ProcStruct) :
    (k.setProc p pr).procs = update k.procs p (some pr) := rfl

/-! ## Creating and destroying processes -/

/-- What `proc_create` puts into a new structure. -/
def freshProc (addr : Nat) : ProcStruct where
  addr := addr
  p_numthreads := 0
  p_addrspace := none
  p_status := 0
  p_sem := ⟨0, []⟩
  fileTable := fun _ => none

/-- The new structure in its slot. -/
def addProc (table : ProcessTable) (newp : Nat) : Kernel :=
  { k with
    table := table
    procs := update k.procs newp (some (freshProc k.fresh))
    fresh := k.fresh + 1 }

/-- `proc_create_runprogram`, with a heap that has room. -/
def procCreateRunprogram : Except Crash (Kernel × Nat) := do
  let (table, pid) ← k.table.procInitWaitpid
  return (k.addProc table pid.toNat, pid.toNat)

/-- `proc_destroy`. The file table is not looked at. `sem_destroy` asserts that nobody sleeps on the
    semaphore. -/
def procDestroy (p : Nat) : Except Crash Kernel := do
  let pr ← k.proc p
  let vnodes ← pr.p_addrspace.elim (.ok k.vnodes) (asDestroy · k.vnodes)
  kassert (pr.p_numthreads = 0)
  let table ← k.table.procEndWaitpid p
  kassert (pr.p_sem.sem_wchan = [])
  return { k with table := table, procs := update k.procs p none, vnodes := vnodes }

/-! ## Programs -/

/-- How far `common_prog` gets. -/
inductive ProgPoint
  | procCreate
  | threadFork
  | done
deriving DecidableEq, Repr

/-- `proc_addthread`, from `thread_fork`. -/
def procAddthread (p : Nat) (pr : ProcStruct) : Kernel :=
  k.setProc p { pr with p_numthreads := pr.p_numthreads + 1 }

/-- `proc_remthread`, from `thread_exit` of a thread that is still attached. -/
def procRemthread (p : Nat) (pr : ProcStruct) : Kernel :=
  k.setProc p { pr with p_numthreads := pr.p_numthreads - 1 }

/-- `common_prog` up to the `P` of its `proc_wait`. -/
def commonProg (point : ProgPoint) : Except Crash (Kernel × Except Errno Nat) :=
  match point with
  | .procCreate => .ok (k, .error .ENOMEM)
  | .threadFork => do
      let (k, newp) ← k.procCreateRunprogram
      let k ← k.procDestroy newp
      return (k, .error .ENOMEM)
  | .done => do
      let (k, newp) ← k.procCreateRunprogram
      let pr ← k.proc newp
      let k := k.procAddthread newp pr
      let waits := update k.waits KPROC (some ⟨newp, pr.addr, .ready⟩)
      return ({ k with waits := waits }, .ok newp)

/-- An executable that can be opened: its vnode and contents, and what the load meets. `space` tells
    whether `as_create` succeeds. -/
structure Exe where
  vnode : Nat
  file : List UInt8
  space : Bool
  env : LoadEnv

/-- `runprogram` in the new process `p`. On an error `cmd_progthread` returns, and the thread exits
    through `thread_startup`; otherwise the process is in user mode. -/
def runprogram (p : Nat) (exe : Option Exe) : Except Crash (Kernel × Except Errno Unit) := do
  let pr ← k.proc p
  match exe with
  | none => return (k.procRemthread p pr, .error .ENOENT)
  | some exe =>
    let vnodes := vfsOpen k.vnodes exe.vnode
    kassert (pr.p_addrspace.isNone)
    if exe.space then
      match loadElfLeaves exe.file exe.vnode exe.env asCreate with
      | (as, .ok _) =>
        let k := k.setProc p { pr with p_addrspace := some (asDefineStack as).1 }
        return ({ k with vnodes := vnodes }, .ok ())
      | (as, .error e) =>
        -- the address space keeps the segments it has, and the file is closed
        let vnodes ← vfsClose vnodes exe.vnode
        let k := k.procRemthread p { pr with p_addrspace := some as }
        return ({ k with vnodes := vnodes }, .error e)
    else
      let vnodes ← vfsClose vnodes exe.vnode
      return ({ k.procRemthread p pr with vnodes := vnodes }, .error .ENOMEM)

/-! ## Open files -/

/-- `openfileIncrRefCount`. -/
def openfileIncrRefCount (files : Nat → Openfile) (of : Option Nat) : Nat → Openfile :=
  match of with
  | none => files
  | some i => update files i { files i with countRef := (files i).countRef + 1 }

/-- The loop of `proc_file_table_copy`: the target's table and the open files after descriptors
    `0` to `n - 1`. -/
def copyDescriptors (src : Nat → Option Nat) :
    Nat → (Nat → Option Nat) × (Nat → Openfile) → (Nat → Option Nat) × (Nat → Openfile)
  | 0, (dest, files) => (dest, files)
  | n + 1, (dest, files) =>
    let (dest, files) := copyDescriptors src n (dest, files)
    (update dest n (src n), openfileIncrRefCount files (src n))

/-- `proc_file_table_copy`. -/
def procFileTableCopy (psrc pdest : Nat) : Except Crash Kernel := do
  let src ← k.proc psrc
  let dest ← k.proc pdest
  let (table, files) := copyDescriptors src.fileTable OPEN_MAX (dest.fileTable, k.files)
  return { k.setProc pdest { dest with fileTable := table } with files := files }

/-- The first free entry of `systemFileTable`. -/
def freeOpenfile (files : Nat → Openfile) : Option Nat :=
  search (fun i => (files i).vn.isNone) SYSTEM_OPEN_MAX

/-- The first free descriptor behind the standard ones. -/
def freeDescriptor (fileTable : Nat → Option Nat) : Option Nat :=
  searchFrom (fun fd => (fileTable fd).isNone) (OPEN_MAX - (STDERR_FILENO + 1)) (STDERR_FILENO + 1)

/-- `sys_open`, where `vfs_open` gives the vnode `opened` or fails. -/
def sysOpen (p : Nat) (opened : Option Nat) : Except Crash (Kernel × Except Errno Nat) := do
  let pr ← k.proc p
  match opened with
  | none => return (k, .error .ENOENT)
  | some v =>
    let vnodes := vfsOpen k.vnodes v
    match freeOpenfile k.files with
    | none =>
      let vnodes ← vfsClose vnodes v
      return ({ k with vnodes := vnodes }, .error .ENFILE)
    | some i =>
      let files := update k.files i ⟨some v, 0, 1⟩
      match freeDescriptor pr.fileTable with
      | some fd =>
        let k := k.setProc p { pr with fileTable := update pr.fileTable fd (some i) }
        return ({ k with vnodes := vnodes, files := files }, .ok fd)
      | none =>
        -- the entry of `systemFileTable` stays as it is
        let vnodes ← vfsClose vnodes v
        return ({ k with vnodes := vnodes, files := files }, .error .EMFILE)

/-- `sys_close` and its return value. The test lets `OPEN_MAX` through, one behind the table. -/
def sysClose (p : Nat) (fd : Int) : Except Crash (Kernel × Int) := do
  let pr ← k.proc p
  if fd < 0 ∨ fd > OPEN_MAX then return (k, -1)
  else if fd = OPEN_MAX then throw .outOfBounds
  else
    match pr.fileTable fd.toNat with
    | none => return (k, -1)
    | some i =>
      let of := k.files i
      let countRef := of.countRef - 1
      let k := k.setProc p { pr with fileTable := update pr.fileTable fd.toNat none }
      if countRef > 0 then
        return ({ k with files := update k.files i { of with countRef := countRef } }, 0)
      else
        let files := update k.files i { of with countRef := countRef, vn := none }
        match of.vn with
        | none => return ({ k with files := files }, -1)
        | some v =>
          let vnodes ← vfsClose k.vnodes v
          return ({ k with files := files, vnodes := vnodes }, 0)

/-! ## Fork -/

/-- How far `sys_fork` gets: the step that runs out of memory, or the end. -/
inductive ForkPoint
  | procCreate
  | asCopy
  | trapframe
  | threadFork
  | done
deriving DecidableEq, Repr

/-- The end of `sys_fork`: a thread for the new process, or the process is destroyed. -/
def forkEnd (newp : Nat) (point : ForkPoint) : Except Crash (Kernel × Except Errno Nat) :=
  match point with
  | .done => do
      let pr ← k.proc newp
      return (k.procAddthread newp pr, .ok newp)
  | _ => do
      let k ← k.procDestroy newp
      return (k, .error .ENOMEM)

/-- `sys_fork` behind `as_copy`. The new process comes first among the arguments of
    `proc_file_table_copy`. -/
def forkCopied (p newp : Nat) (as : AddrSpace) (point : ForkPoint) :
    Except Crash (Kernel × Except Errno Nat) := do
  let pr ← k.proc newp
  let k := k.setProc newp { pr with p_addrspace := some as }
  let k ← k.procFileTableCopy newp p
  k.forkEnd newp point

/-- `sys_fork` with an `as_copy` that finds memory. -/
def forkCopy (p : Nat) (parent : ProcStruct) (point : ForkPoint) :
    Except Crash (Kernel × Except Errno Nat) := do
  let (k, newp) ← k.procCreateRunprogram
  match parent.p_addrspace with
  | none => throw .nullDeref
  | some old =>
    let as ← asCopy old
    k.forkCopied p newp as point

/-- `sys_fork` in process `p`. -/
def sysFork (p : Nat) (point : ForkPoint) : Except Crash (Kernel × Except Errno Nat) := do
  let parent ← k.proc p
  match point with
  | .procCreate => return (k, .error .ENOMEM)
  | .asCopy =>
    let (k, newp) ← k.procCreateRunprogram
    let k ← k.procDestroy newp
    return (k, .error .ENOMEM)
  | point => k.forkCopy p parent point

/-- The read of `readfromelfto` in a fault of process `p` at `fa`: `vnode_check` rejects a vnode
    that has been reclaimed. -/
def readfromelfto (p : Nat) (fa : VAddr) : Except Crash Kernel := do
  let pr ← k.proc p
  match pr.p_addrspace with
  | none => throw .nullDeref
  | some as =>
    let (vnode, _) ← elfSource as fa
    if k.vnodes vnode = 0 then throw .useAfterFree else return k

/-! ## Ending and waiting -/

/-- `wchan_wakeone` for the semaphore of a process: the first sleeper is made runnable. -/
def wakeone (waits : Nat → Option Waiter) (sleepers : List Nat) : Nat → Option Waiter :=
  match sleepers with
  | [] => waits
  | t :: _ => update waits t ((waits t).map fun w => { w with phase := .ready })

/-- `sys__exit`: the status is recorded, the thread leaves the process, and `V` announces it. -/
def sysExit (p : Nat) (status : UInt32) : Except Crash Kernel := do
  let pr ← k.proc p
  kassert (pr.p_numthreads > 0)
  let sem : Semaphore := ⟨pr.p_sem.sem_count + 1, pr.p_sem.sem_wchan.tail⟩
  let pr' := { pr with
    p_status := status &&& 0xff, p_numthreads := pr.p_numthreads - 1, p_sem := sem }
  return { k.setProc p pr' with waits := wakeone k.waits pr.p_sem.sem_wchan }

/-- `sys_waitpid` up to the `P` of its `proc_wait`. `proc_search_pid` reads through the pointer in
    the table. -/
def sysWaitpid (t : Nat) (pid : Int) : Except Crash Kernel := do
  kassert (pid ≥ 0 ∧ pid < MAX_PROC)
  match k.procs pid.toNat with
  | none => throw .nullDeref
  | some pr =>
    kassert (pid.toNat ≠ KPROC)
    return { k with waits := update k.waits t (some ⟨pid.toNat, pr.addr, .ready⟩) }

/-- The structure a waiter points to. -/
def waited (w : Waiter) : Except Crash ProcStruct := do
  let pr ← k.proc w.pid
  if pr.addr = w.addr then return pr else throw .useAfterFree

/-- One turn of the loop in `P`. -/
def semP (t : Nat) (w : Waiter) : Except Crash Kernel := do
  let pr ← k.waited w
  if pr.p_sem.sem_count = 0 then
    let sem := { pr.p_sem with sem_wchan := pr.p_sem.sem_wchan ++ [t] }
    let waits := update k.waits t (some { w with phase := .asleep })
    return { k.setProc w.pid { pr with p_sem := sem } with waits := waits }
  else
    let sem := { pr.p_sem with sem_count := pr.p_sem.sem_count - 1 }
    let waits := update k.waits t (some { w with phase := .taken })
    return { k.setProc w.pid { pr with p_sem := sem } with waits := waits }

/-- `proc_wait` behind its `P`: the status, and the process is destroyed. -/
def procWait (t : Nat) (w : Waiter) : Except Crash (Kernel × UInt32) := do
  let pr ← k.waited w
  let k ← k.procDestroy w.pid
  return ({ k with waits := update k.waits t none }, pr.p_status)

/-! ## The machine -/

end Kernel

/-- What a thread does next. The first argument is its process; `commonProg` is the menu. -/
inductive KernelOp
  | commonProg (point : Kernel.ProgPoint)
  | runprogram (p : Nat) (exe : Option Kernel.Exe)
  | sysOpen (p : Nat) (opened : Option Nat)
  | sysClose (p : Nat) (fd : Int)
  | sysFork (p : Nat) (point : Kernel.ForkPoint)
  | readfromelfto (p : Nat) (fa : VAddr)
  | sysExit (p : Nat) (status : UInt32)
  | sysWaitpid (t : Nat) (pid : Int)
  | semP (t : Nat)
  | procWait (t : Nat)

namespace Kernel

variable (k : Kernel)

/-- The thread of process `p` exists and is not in `proc_wait`. -/
def Runs (p : Nat) : Prop :=
  (k.procs p).any (0 < ·.p_numthreads) = true ∧ k.waits p = none

/-- The thread of process `p` is in user mode: `runprogram` has given it an address space. -/
def User (p : Nat) : Prop := k.Runs p ∧ (k.procs p).any (·.p_addrspace.isSome) = true

instance (p : Nat) : Decidable (k.Runs p) := inferInstanceAs (Decidable (_ ∧ _))

instance (p : Nat) : Decidable (k.User p) := inferInstanceAs (Decidable (_ ∧ _))

/-- The thread can do this now. -/
def Enabled : KernelOp → Prop
  | .commonProg _ => k.Runs KPROC
  | .runprogram p _ => k.Runs p ∧ p ≠ KPROC ∧ ¬ k.User p
  | .sysOpen p _ => k.User p
  | .sysClose p _ => k.User p
  | .sysFork p _ => k.User p
  | .readfromelfto p _ => k.User p
  | .sysExit p _ => k.User p
  | .sysWaitpid t _ => k.User t
  | .semP t => (k.waits t).map Waiter.phase = some .ready
  | .procWait t => (k.waits t).map Waiter.phase = some .taken

instance : (op : KernelOp) → Decidable (k.Enabled op)
  | .commonProg _ => inferInstanceAs (Decidable (k.Runs KPROC))
  | .runprogram p _ => inferInstanceAs (Decidable (k.Runs p ∧ p ≠ KPROC ∧ ¬ k.User p))
  | .sysOpen p _ => inferInstanceAs (Decidable (k.User p))
  | .sysClose p _ => inferInstanceAs (Decidable (k.User p))
  | .sysFork p _ => inferInstanceAs (Decidable (k.User p))
  | .readfromelfto p _ => inferInstanceAs (Decidable (k.User p))
  | .sysExit p _ => inferInstanceAs (Decidable (k.User p))
  | .sysWaitpid t _ => inferInstanceAs (Decidable (k.User t))
  | .semP t => inferInstanceAs (Decidable ((k.waits t).map Waiter.phase = some .ready))
  | .procWait t => inferInstanceAs (Decidable ((k.waits t).map Waiter.phase = some .taken))

/-- The state after the operation. -/
def exec : KernelOp → Except Crash Kernel
  | .commonProg point => do return (← k.commonProg point).1
  | .runprogram p exe => do return (← k.runprogram p exe).1
  | .sysOpen p opened => do return (← k.sysOpen p opened).1
  | .sysClose p fd => do return (← k.sysClose p fd).1
  | .sysFork p point => do return (← k.sysFork p point).1
  | .readfromelfto p fa => k.readfromelfto p fa
  | .sysExit p status => k.sysExit p status
  | .sysWaitpid t pid => k.sysWaitpid t pid
  | .semP t => (k.waits t).elim (.ok k) (k.semP t)
  | .procWait t => (k.waits t).elim (.ok k) fun w => do return (← k.procWait t w).1

/-- After `proc_bootstrap` and before the first program: one process, the kernel, with the menu. -/
def boot : Kernel where
  table := { proc := update (fun _ => none) KPROC (some 1), last_i := KPROC }
  procs := update (fun _ => none) KPROC (some
    { addr := 0, p_numthreads := 1, p_addrspace := none, p_status := 0, p_sem := ⟨0, []⟩
      fileTable := fun _ => none })
  waits := fun _ => none
  vnodes := fun _ => 0
  files := fun _ => ⟨none, 0, 0⟩
  fresh := 1

example : ProcessTable.procBootstrap = .ok (boot.table, KERNEL_PID) := rfl

end Kernel

/-- An operation that returns. -/
def KernelStep (k : Kernel) (op : KernelOp) (k' : Kernel) : Prop :=
  k.Enabled op ∧ k.exec op = .ok k'

/-- An operation that stops the kernel. -/
def KernelStops (k : Kernel) (op : KernelOp) (c : Crash) : Prop :=
  k.Enabled op ∧ k.exec op = .error c

/-- Operations one after the other, for runs that are written down. -/
def Kernel.next (k : Kernel) (op : KernelOp) : Option Kernel :=
  if k.Enabled op then (k.exec op).toOption else none

theorem Kernel.next_step {k k' : Kernel} {op : KernelOp} (h : k.next op = some k') :
    KernelStep k op k' :=
  of_ite_toOption h

/-- A run from boot to a state that passes a test. -/
theorem Kernel.reaches_of_replay {ops : List KernelOp} {p : Kernel → Bool}
    (h : (replay Kernel.next Kernel.boot ops).map p = some true) :
    ∃ k, Reaches KernelStep Kernel.boot k ∧ p k = true :=
  exists_reaches_of_replay (fun _ _ _ _ hnext => Kernel.next_step hnext) h

/-- What stops the kernel in this operation, if anything does. -/
def Kernel.stops (k : Kernel) (op : KernelOp) : Option Crash :=
  if k.Enabled op then
    match k.exec op with
    | .ok _ => none
    | .error c => some c
  else none

theorem Kernel.stops_iff {k : Kernel} {op : KernelOp} {c : Crash} :
    k.stops op = some c ↔ KernelStops k op c := by
  unfold Kernel.stops KernelStops
  by_cases he : k.Enabled op
  · rw [if_pos he]
    cases k.exec op with
    | ok k' => simp
    | error c' => simp [he]
  · simp [he]

end DemandPaging
