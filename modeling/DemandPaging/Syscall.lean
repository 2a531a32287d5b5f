import DemandPaging.Emu
import DemandPaging.Kernel
import DemandPaging.Lib.Traced

set_option autoImplicit false

/-! # System calls and the pointers they are given

`sys_open`, `sys_read`, `sys_write` and `sys_waitpid` use pointers of their caller
(`file_syscalls.c`, `proc_syscalls.c`, `vfspath.c`, `vfslookup.c`). Some go through `copyin` and
`copyout`, others are used directly. The definitions follow one call from `syscall` on and record
every address that is read or written through such a pointer; the bytes that are written are not
part of the model. Everything the calls learn from the rest of the kernel is in a `World`. -/

namespace DemandPaging.Syscall

/-- What becomes of an access by the kernel: it gets through (after a fault, perhaps), `vm_fault`
    returns an error, or the thread does not come back from the fault. -/
inductive Access
  | through
  | fault
  | gone
deriving DecidableEq, Repr

/-- The rest of the kernel, as one call meets it. In the fields for results, `none` is the C
    result 0. -/
structure World where
  access : VAddr → Access
  /-- The characters from the console. -/
  getch : Nat → UInt8
  /-- The sizes with which `VOP_READ` or `VOP_WRITE` calls `uiomove`, and its own result. -/
  uiomoves : List UInt32
  vop : Option Errno
  vfs_getcurdir : Option Errno
  vfs_getroot : Option Errno
  bootfs_vnode : Bool
  /-- The current directory is in a file system, and the result of `FSOP_GETROOT` for it. -/
  vn_fs : Bool
  fsop_getroot : Option Errno
  /-- What `vfs_open` does behind the scan of the path. -/
  vop_lookup : Option Errno
  /-- The search of `sys_open` for a place in the two tables. -/
  descriptor : Except Errno UInt32
  /-- The status from `proc_wait`, `none` if `sys_waitpid` does not come that far. -/
  proc_wait : Option UInt32
  /-- The other system calls. -/
  other : Option (UInt32 × Bool)

/-- What the caller brings: its memory (with the kernel's behind it), and its open files. -/
structure Process where
  byte : VAddr → UInt8
  fileTable : Int32 → Bool

/-- The registers of the trapframe that `syscall` looks at. -/
structure Trapframe where
  tf_v0 : UInt32
  tf_a0 : UInt32
  tf_a1 : UInt32
  tf_a2 : UInt32
deriving DecidableEq, Repr

/-- A call with the addresses it uses. -/
abbrev Call := Traced VAddr

/-- `n` bytes from `p` on. -/
def block (p : VAddr) (n : Nat) : List VAddr := (List.range n).map fun i => p + UInt32.ofNat i

namespace World

variable (w : World)

/-! ## Accesses -/

/-- A pointer is used directly: nothing but a successful access comes back (`mips_trap` panics). -/
def deref (a : VAddr) : Call Unit := ⟨[a], if w.access a = .through then some () else none⟩

def derefAll : List VAddr → Call Unit
  | [] => pure ()
  | a :: as => do
      w.deref a
      derefAll as

/-- `memcpy` inside `copyin` and `copyout`: a fault leads to `copyfail`, which is the result
    false. -/
def memcpy : List VAddr → Call Bool
  | [] => pure true
  | a :: as =>
    match w.access a with
    | .through => do
        Traced.emit a
        memcpy as
    | .fault => ⟨[a], some false⟩
    | .gone => ⟨[a], none⟩

/-- `copyin` and `copyout`. -/
def copyUser (addr : VAddr) (len : UInt32) : Call (Option Errno) :=
  if Caller.copycheck addr len then do
    let through ← w.memcpy (block addr len.toNat)
    return if through then none else some .EFAULT
  else return some .EFAULT

/-! ## Reading and writing -/

/-- `VOP_READ` and `VOP_WRITE`: calls of `uiomove` until one fails. The result is `uio_resid`. -/
def vopIo : List UInt32 → VAddr → UInt32 → Call (Except Errno UInt32)
  | [], _, uio_resid =>
    match w.vop with
    | none => return .ok uio_resid
    | some e => return .error e
  | n :: ns, iov_ubase, uio_resid =>
    if n = 0 ∨ uio_resid = 0 then vopIo ns iov_ubase uio_resid
    else do
      let size := min uio_resid n
      match ← w.copyUser iov_ubase size with
      | some e => return .error e
      | none => vopIo ns (iov_ubase + size) (uio_resid - size)

/-- `file_read` and `file_write`. The test lets `OPEN_MAX` through, one behind the table. -/
def fileIo (fileTable : Int32 → Bool) (fd : Int32) (buf_ptr : VAddr) (size : UInt32) :
    Call UInt32 :=
  if fd < 0 ∨ OPEN_MAX < fd.toInt ∨ fileTable fd = false then return -1
  else do
    let result ← w.vopIo w.uiomoves buf_ptr size
    return Caller.retval (result.map (size - ·))

/-- `(int)size`, as the bound of a loop. -/
def intBound (size : UInt32) : Nat := size.toInt32.toInt.toNat

def sysWrite (fileTable : Int32 → Bool) (fd : Int32) (buf_ptr : VAddr) (size : UInt32) :
    Call UInt32 :=
  if fd ≠ 1 ∧ fd ≠ 2 then w.fileIo fileTable fd buf_ptr size
  else do
    w.derefAll (block buf_ptr (intBound size))
    return size

/-- The loop of `sys_read`, with `left` characters to go. -/
def readLoop (p : VAddr) (size : UInt32) : Nat → Nat → Call UInt32
  | 0, _ => return size
  | left + 1, i => do
      w.deref (p + UInt32.ofNat i)
      if (w.getch i).toInt8 < 0 then return UInt32.ofNat i else readLoop p size left (i + 1)

def sysRead (fileTable : Int32 → Bool) (fd : Int32) (buf_ptr : VAddr) (size : UInt32) :
    Call UInt32 :=
  if fd ≠ 0 then w.fileIo fileTable fd buf_ptr size
  else w.readLoop buf_ptr size (intBound size) 0

/-! ## Opening -/

/-- Read bytes from `p` on until one satisfies the test: its address. The fuel is the size of the
    address space. -/
def scan (byte : VAddr → UInt8) (test : UInt8 → Bool) : Nat → VAddr → Call VAddr
  | 0, _ => Traced.halt
  | fuel + 1, p => do
      w.deref p
      if test (byte p) then return p else scan byte test fuel (p + 1)

def COLON : UInt8 := 58

def SLASH : UInt8 := 47

/-- The start of the look-up for a path that begins with a slash or a colon: `none` for the failed
    assertion. -/
def rootVnode (first : UInt8) : Option (Option Errno) :=
  if first = SLASH then some (if w.bootfs_vnode then none else some .ENOENT)
  else if w.vfs_getcurdir.isSome then some w.vfs_getcurdir
  else if w.vn_fs then some w.fsop_getroot
  else none

/-- `getdevice` behind its search for the first colon or slash, with the subpath. -/
def startvn (byte : VAddr → UInt8) (path stop : VAddr) : Call (Except Errno VAddr) :=
  if byte stop = COLON ∧ stop ≠ path then do
    -- `path[colon]=0`
    w.deref stop
    let subpath ← w.scan byte (· != SLASH) (2 ^ 32) (stop + 1)
    return w.vfs_getroot.elim (.ok subpath) .error
  else if stop ≠ path then return w.vfs_getcurdir.elim (.ok path) .error
  else
    match w.rootVnode (byte path) with
    | none => Traced.halt
    | some (some e) => return .error e
    | some none => do
        let subpath ← w.scan byte (· != SLASH) (2 ^ 32) (path + 1)
        return .ok subpath

def getdevice (byte : VAddr → UInt8) (path : VAddr) : Call (Except Errno VAddr) := do
  w.deref path
  if byte path = 0 then return .error .EINVAL
  else
    let stop ← w.scan byte (fun b => b == 0 || b == COLON || b == SLASH) (2 ^ 32) path
    w.startvn byte path stop

def O_ACCMODE : UInt32 := 3

def O_CREAT : UInt32 := 4

/-- `vfs_open`. `vfs_lookup` and `vfs_lookparent` take the length of the subpath; what comes behind
    that stays in the string. -/
def vfsOpen (byte : VAddr → UInt8) (path : VAddr) (openflags : UInt32) : Call (Option Errno) :=
  if openflags &&& O_ACCMODE = 3 then return some .EINVAL
  else do
    match ← w.getdevice byte path with
    | .error e => return some e
    | .ok subpath =>
      let nul ← w.scan byte (· == 0) (2 ^ 32) subpath
      if openflags &&& O_CREAT ≠ 0 ∧ nul = subpath then return some .EINVAL
      else return w.vop_lookup

def sysOpen (byte : VAddr → UInt8) (path : VAddr) (openflags : UInt32) :
    Call (Except Errno UInt32) := do
  match ← w.vfsOpen byte path openflags with
  | some _ => return .error .ENOENT
  | none => return w.descriptor

/-! ## Waiting, and the dispatcher -/

/-- `sys_waitpid`. `proc_search_pid` asserts the range, and the status is stored as an `int`. -/
def sysWaitpid (pid : Int32) (statusp : VAddr) : Call UInt32 :=
  if pid < 0 ∨ (MAX_PROC : Int) ≤ pid.toInt then Traced.halt
  else
    match w.proc_wait with
    | none => Traced.halt
    | some _ => do
        w.derefAll (if statusp ≠ 0 then block statusp 4 else [])
        return pid.toUInt32

end World

def SYS_waitpid : UInt32 := 4

def SYS_open : UInt32 := 45

def SYS_read : UInt32 := 50

def SYS_write : UInt32 := 55

/-- `syscall`: what it leaves in `tf_v0`, and `tf_a3`, which is set for an error. -/
def syscall (w : World) (curproc : Process) (tf : Trapframe) : Call (UInt32 × Bool) :=
  if tf.tf_v0 = SYS_open then do
    match ← w.sysOpen curproc.byte tf.tf_a0 tf.tf_a1 with
    | .error e => return (e.number, true)
    | .ok fd => return (fd, false)
  else if tf.tf_v0 = SYS_write then do
    let retval ← w.sysWrite curproc.fileTable tf.tf_a0.toInt32 tf.tf_a1 tf.tf_a2
    return Caller.syscallEnd retval
  else if tf.tf_v0 = SYS_read then do
    let retval ← w.sysRead curproc.fileTable tf.tf_a0.toInt32 tf.tf_a1 tf.tf_a2
    return Caller.syscallEnd retval
  else if tf.tf_v0 = SYS_waitpid then do
    let retval ← w.sysWaitpid tf.tf_a0.toInt32 tf.tf_a1
    return Caller.syscallEnd retval
  else ⟨[], w.other⟩

end DemandPaging.Syscall
