import DemandPaging.Fault
import DemandPaging.Tlb.Entries

set_option autoImplicit false

/-! # Reading and writing files on `emu0`

`file_read` and `file_write` go through `emufs_read` and `emufs_write` to the driver, which takes
the lock `e_lock` for every operation and moves the data to or from the user's buffer while it owns
it (`file_syscalls.c`, `emu.c`, `uio.c`, `copyinout.c`). The accesses to the buffer can fault
(`trap.c`). The swap file and the executables are on `emu0` as well, so a fault that needs the disk
comes back to the driver.

The definitions follow one thread from the system call on. The bytes that are moved are not part of
the state. The other threads run while it sleeps in `emu_waitdone`, and what they do to the memory
is left open; a copy is not interrupted. -/

namespace DemandPaging

def EMU_MAXIO : UInt32 := 16384

/-- The numbers of `kern/errno.h`. -/
def Errno.number : Errno → UInt32
  | .ENOSYS => 1
  | .ENOMEM => 3
  | .EFAULT => 6
  | .ENAMETOOLONG => 7
  | .EINVAL => 8
  | .ENOEXEC => 13
  | .ENOTDIR => 17
  | .EISDIR => 18
  | .ENOENT => 19
  | .EEXIST => 22
  | .EBUSY => 27
  | .EMFILE => 28
  | .ENFILE => 29
  | Errno.EIO => 32
  | .ENOSPC => 36
  | .EFBIG => 38
  | .EADDRNOTAVAIL => 55

/-- What a call works on: the owner of `e_lock`, the memory, the address space of the process. -/
structure IoState where
  e_lock : Option Nat
  vm : Vm
  as : AddrSpace

/-- The thread that makes the call, its process, and the files of `emu0`. -/
structure Caller where
  curthread : Nat
  p_pid : Int
  files : Nat → List UInt8

/-- Why a call does not come back: its thread exits, or sleeps on `e_lock`, or the kernel stops. -/
inductive Halt
  | exited (s : IoState)
  | blocked (s : IoState)
  | crashed (c : Crash)

namespace Caller

variable (cl : Caller)

/-! ## The lock -/

/-- `lock_acquire(e_lock)`: the thread sleeps as long as there is an owner, whoever that is. -/
def lockAcquire (s : IoState) : Except Halt IoState :=
  if s.e_lock = none then .ok { s with e_lock := some cl.curthread } else .error (.blocked s)

/-- `lock_release(e_lock)`, which does nothing for a thread that is not the owner. -/
def lockRelease (s : IoState) : IoState :=
  if s.e_lock = some cl.curthread then { s with e_lock := none } else s

/-- The driver's part in moving a page between a frame and a file. -/
def emuTransfer (s : IoState) : Except Halt IoState := do
  let s ← cl.lockAcquire s
  return cl.lockRelease s

/-! ## Faults -/

/-- `vm_fault` behind `allocuserpage`. -/
def loadPage (s : IoState) (c : FaultCtx) (respaddr : Nat) : Except Halt IoState :=
  match loadBegin s.vm cl.p_pid s.as c respaddr with
  | .error e => .error (.crashed e)
  | .ok (.ready vm as) => .ok { s with vm := faultEnd vm cl.p_pid as c respaddr, as := as }
  | .ok (.swapRead slot) => do
      let s ← cl.emuTransfer s
      return { s with
        vm := faultEnd (swapoutpageEnd s.vm respaddr slot) cl.p_pid s.as c respaddr }
  | .ok (.elfRead vnode offset) => do
      let s ← cl.emuTransfer s
      let vm := elfCounters (readfromelfto s.vm (cl.files vnode) respaddr offset)
      return { s with
        vm := faultEnd vm cl.p_pid (s.as.setLoaded c) c respaddr, as := s.as.setLoaded c }

/-- `vm_fault` for a page, from the page table on. -/
def faultPage (s : IoState) (c : FaultCtx) : Except Halt IoState :=
  match faultBegin s.vm cl.p_pid c.fa with
  | .error e => .error (.crashed e)
  | .ok (.mapped vm paddr) => .ok { s with vm := faultEnd vm cl.p_pid s.as c paddr }
  | .ok (.granted vm respaddr) => cl.loadPage { s with vm := vm } c respaddr
  | .ok (.evicting vm ev) => do
      let s ← cl.emuTransfer { s with vm := vm }
      match allocuserpageFinish (evictWrite s.vm ev) cl.p_pid c.fa ev.ind with
      | .error e => .error (.crashed e)
      | .ok (vm, respaddr) => cl.loadPage { s with vm := vm } c respaddr

/-- `vm_fault` with the lock of the driver; `none` is the C result 0. -/
def vmFault (s : IoState) (faulttype : FaultType) (faultaddress : VAddr) :
    Except Halt (IoState × Option Errno) :=
  match faultEntry (some s.as) faulttype faultaddress with
  | .error e => .error (.crashed e)
  | .ok .exits => .error (.exited s)
  | .ok (.returns e) => .ok (s, some e)
  | .ok (.page _ c) => do
      let s ← cl.faultPage s c
      return (s, none)

/-- The exception that an access to page `v` raises, if any (`mips_trap`). -/
def trapOf (t : Tlb) (write : Bool) (v : VAddr) : Option FaultType :=
  match t.lookup v with
  | none => some (if write then .VM_FAULT_WRITE else .VM_FAULT_READ)
  | some e => if write && !e.dirty then some .VM_FAULT_READONLY else none

/-- An access to page `v` from inside `copyin` or `copyout`, repeated as long as `vm_fault` returns
    0. The result tells whether it got through; otherwise `mips_trap` goes to `copyfail`. -/
def access (write : Bool) (v : VAddr) : Nat → IoState → Except Halt (IoState × Bool)
  | 0, _ => .error (.crashed .endless)
  | fuel + 1, s =>
    match trapOf s.vm.tlb write v with
    | none => .ok (s, true)
    | some faulttype => do
        let (s, result) ← cl.vmFault s faulttype v
        match result with
        | some _ => return (s, false)
        | none => access write v fuel s

/-! ## Copies -/

/-- `copycheck`, as `copyin` and `copyout` use it: a block that wraps around, or that is not below
    `USERSPACETOP` as a whole, is refused. -/
def copycheck (userptr : VAddr) (len : UInt32) : Bool :=
  let top := userptr + len - 1
  decide (userptr ≤ top) && decide (userptr < USERSPACETOP) && decide (top < USERSPACETOP)

/-- The pages of a block, in the order in which `memcpy` comes to them. -/
def pagesOf (addr : VAddr) (len : UInt32) : List VAddr :=
  (List.range ((addr.toNat % PAGE_SIZE + len.toNat + (PAGE_SIZE - 1)) / PAGE_SIZE)).map fun i =>
    pageOf (addr + UInt32.ofNat (i * PAGE_SIZE))

/-- `memcpy` to or from user space. A page is resident for the next access when it has been loaded
    and entered into the TLB, so three tries are enough. -/
def memcpy (write : Bool) : List VAddr → IoState → Except Halt (IoState × Bool)
  | [], s => .ok (s, true)
  | v :: vs, s => do
      let (s, through) ← cl.access write v 3 s
      if through then memcpy write vs s else return (s, false)

/-- `copyin` (`write` is false) and `copyout` (`write` is true). -/
def copyUser (write : Bool) (addr : VAddr) (len : UInt32) (s : IoState) :
    Except Halt (IoState × Option Errno) :=
  if copycheck addr len then do
    let (s, through) ← cl.memcpy write (pagesOf addr len) s
    return (s, if through then none else some .EFAULT)
  else .ok (s, some .EFAULT)

def copyin (usersrc : VAddr) (len : UInt32) (s : IoState) : Except Halt (IoState × Option Errno) :=
  cl.copyUser false usersrc len s

def copyout (userdest : VAddr) (len : UInt32) (s : IoState) :
    Except Halt (IoState × Option Errno) :=
  cl.copyUser true userdest len s

/-- `enum uio_rw`. -/
inductive UioRw
  | UIO_READ
  | UIO_WRITE
deriving DecidableEq, Repr

/-- `struct uio` with its only `iovec`, whose length is `uio_resid`. -/
structure Uio where
  iov_ubase : VAddr
  uio_resid : UInt32
  uio_offset : Nat
deriving DecidableEq, Repr

/-- The `uio` behind a copy of `size` bytes. -/
def Uio.advance (u : Uio) (size : UInt32) : Uio :=
  ⟨u.iov_ubase + size, u.uio_resid - size, u.uio_offset + size.toNat⟩

/-- `uiomove` for a user buffer. -/
def uiomove (rw : UioRw) (n : UInt32) (u : Uio) (s : IoState) :
    Except Halt (IoState × Uio × Option Errno) :=
  if n = 0 ∨ u.uio_resid = 0 then .ok (s, u, none)
  else do
    let size := min u.uio_resid n
    let (s, result) ← match rw with
      | .UIO_READ => cl.copyout u.iov_ubase size s
      | .UIO_WRITE => cl.copyin u.iov_ubase size s
    match result with
    | some e => return (s, u, some e)
    | none => return (s, u.advance size, none)

/-! ## The driver -/

/-- What comes of an operation: the result of `emu_waitdone`, the registers that are read behind it,
    and what the other threads do to the memory while the thread sleeps there. -/
structure Reply where
  waitdone : Option Errno
  iolen : UInt32
  offset : UInt32
  others : Vm → Vm

/-- The sleep in `emu_waitdone`. -/
def Reply.sleep (reply : Reply) (s : IoState) : IoState := { s with vm := reply.others s.vm }

/-- `emu_read`, that is `emu_doread`. -/
def emuRead (reply : Reply) (u : Uio) (s : IoState) : Except Halt (IoState × Uio × Option Errno) :=
  if u.uio_offset > 0xffffffff then .ok (s, u, none)
  else do
    let s ← cl.lockAcquire s
    let s := reply.sleep s
    match reply.waitdone with
    | some e => return (cl.lockRelease s, u, some e)
    | none =>
      let (s, u, result) ← cl.uiomove .UIO_READ reply.iolen u s
      return (cl.lockRelease s, { u with uio_offset := reply.offset.toNat }, result)

def emuWrite (reply : Reply) (len : UInt32) (u : Uio) (s : IoState) :
    Except Halt (IoState × Uio × Option Errno) :=
  if u.uio_offset > 0xffffffff then .ok (s, u, some .EFBIG)
  else do
    let s ← cl.lockAcquire s
    let (s, u, result) ← cl.uiomove .UIO_WRITE len u s
    match result with
    | some e => return (cl.lockRelease s, u, some e)
    | none => return (cl.lockRelease (reply.sleep s), u, reply.waitdone)

/-- One operation of the driver. -/
def emuOp (rw : UioRw) (reply : Reply) (len : UInt32) (u : Uio) (s : IoState) :
    Except Halt (IoState × Uio × Option Errno) :=
  match rw with
  | .UIO_READ => cl.emuRead reply u s
  | .UIO_WRITE => cl.emuWrite reply len u s

/-- `emufs_read` and `emufs_write`, which differ in the operation only. `replies` are the answers of
    the device. -/
def emufsLoop (rw : UioRw) (replies : Nat → Reply) :
    Nat → Nat → Uio → IoState → Except Halt (IoState × Uio × Option Errno)
  | 0, _, _, _ => .error (.crashed .endless)
  | fuel + 1, i, u, s =>
    if u.uio_resid = 0 then .ok (s, u, none)
    else do
      let amt := if u.uio_resid > EMU_MAXIO then EMU_MAXIO else u.uio_resid
      let (s, u', result) ← cl.emuOp rw (replies i) amt u s
      match result with
      | some e => return (s, u', some e)
      | none =>
        if u'.uio_resid = u.uio_resid then return (s, u', none)
        else emufsLoop rw replies fuel (i + 1) u' s

/-- `file_read` and `file_write` behind the look-up of the descriptor: the new offset of the open
    file, and the number of bytes or the error. -/
def fileIo (rw : UioRw) (replies : Nat → Reply) (buf_ptr : VAddr) (size : UInt32) (offset : Nat)
    (s : IoState) : Except Halt (IoState × Nat × Except Errno UInt32) := do
  let (s, u, result) ← cl.emufsLoop rw replies (size.toNat + 1) 0 ⟨buf_ptr, size, offset⟩ s
  match result with
  | some e => return (s, offset, .error e)
  | none => return (s, u.uio_offset, .ok (size - u.uio_resid))

def fileRead (replies : Nat → Reply) (buf_ptr : VAddr) (size : UInt32) (offset : Nat)
    (s : IoState) : Except Halt (IoState × Nat × Except Errno UInt32) :=
  cl.fileIo .UIO_READ replies buf_ptr size offset s

def fileWrite (replies : Nat → Reply) (buf_ptr : VAddr) (size : UInt32) (offset : Nat)
    (s : IoState) : Except Halt (IoState × Nat × Except Errno UInt32) :=
  cl.fileIo .UIO_WRITE replies buf_ptr size offset s

/-- What `file_read` and `file_write` return to `syscall`: the error number, or the bytes moved. -/
def retval : Except Errno UInt32 → UInt32
  | .error e => e.number
  | .ok n => n

/-- The end of `syscall` for `SYS_read` and `SYS_write`: `tf_v0`, and `tf_a3`, which is set for an
    error. Only a negative value counts as one. -/
def syscallEnd (retval : UInt32) : UInt32 × Bool :=
  if retval.toInt32 < 0 then (Errno.ENOSYS.number, true) else (retval, false)

end Caller

end DemandPaging
