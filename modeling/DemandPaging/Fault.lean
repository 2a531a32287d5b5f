import DemandPaging.AddrSpace
import DemandPaging.Coremap

set_option autoImplicit false

/-! # The fault handler (`vm.c`)

`vm_fault` sleeps in up to three places: in the disk write of an eviction, in the read of
`swapoutpage` and in the read of `readfromelfto`. The definitions below are the stretches of code
between them. `vmFault` runs them in a row, for a call that is not interrupted; the machine in
`DemandPaging.Machine` runs them one at a time. -/

namespace DemandPaging

/-- The `faulttype` argument. -/
inductive FaultType
  | VM_FAULT_READ
  | VM_FAULT_WRITE
  | VM_FAULT_READONLY
  | other (n : Int)
deriving DecidableEq, Repr

/-- The page a fault is about: its address, its segment and its index there. -/
structure FaultCtx where
  fa : VAddr
  seg : SegId
  ind : Nat
deriving DecidableEq, Repr

/-! ## Load flags -/

namespace AddrSpace

variable (as : AddrSpace)

/-- `seg->loadedelf[ind]`. -/
def flag (c : FaultCtx) : UInt8 :=
  match as.seg c.seg with
  | some s => s.loadedelf c.ind
  | none => 0

/-- `seg->loadedelf[ind]=1`. -/
def setLoaded (c : FaultCtx) : AddrSpace :=
  match as.seg c.seg with
  | some s => as.setSeg c.seg { s with loadedelf := Function.update s.loadedelf c.ind 1 }
  | none => as

/-- `seg->stackseg`. -/
def stackseg (c : FaultCtx) : Bool :=
  match as.seg c.seg with
  | some s => s.stackseg
  | none => false

/-- `seg->permissions & WRFLAG`, as the `bool` it is passed for. -/
def writable (seg : SegId) : Bool :=
  match as.seg seg with
  | some s => s.permissions &&& WRFLAG.toUInt8 != 0
  | none => false

/-- The page `vm_fault` finds for an address, `none` outside the segments. All three segments
    exist when it looks. -/
def locate (v : VAddr) : Option FaultCtx :=
  match as.seg1, as.seg2, as.segstack with
  | some s1, some s2, some _ => (selectSegment s1 s2 v).map fun (seg, ind) => ⟨v, seg, ind⟩
  | _, _, _ => none

/-- Page `v` has been loaded once. -/
def LoadedAt (v : VAddr) : Prop := ∃ c, as.locate v = some c ∧ as.flag c = 1

/-- Load flags are 0 or 1. -/
def Binary : Prop := ∀ c, as.flag c = 0 ∨ as.flag c = 1

end AddrSpace

/-! ## Up to the page table -/

/-- Where the checks at the start of `vm_fault` lead. -/
inductive FaultEntry
  | exits
  | returns (e : Errno)
  | page (as : AddrSpace) (c : FaultCtx)

/-- The checks at the start of `vm_fault`. A write to a read-only page ends the process. -/
def faultEntry (as : Option AddrSpace) (faulttype : FaultType) (faultaddress : VAddr) :
    Except Crash FaultEntry :=
  match faulttype with
  | .VM_FAULT_READONLY => .ok .exits
  | .other _ => .ok (.returns .EINVAL)
  | .VM_FAULT_READ | .VM_FAULT_WRITE =>
    match as with
    | none => .ok (.returns .EFAULT)
    | some as =>
      match as.checked with
      | .error e => .error e
      | .ok _ =>
        match as.locate (pageOf faultaddress) with
        | none => .ok (.returns .EFAULT)
        | some c => .ok (.page as c)

/-- What the page table says: the page is there, a frame is granted to it (address 0 if there is
    none), or a victim has to be written out first. -/
inductive FaultPoint
  | mapped (vm : Vm) (paddr : Nat)
  | granted (vm : Vm) (respaddr : Nat)
  | evicting (vm : Vm) (ev : Eviction)

def faultBegin (vm : Vm) (pid : Int) (fa : VAddr) : Except Crash FaultPoint :=
  let vm := vm.incr .TLBFAULT
  match pageaddr vm pid fa with
  | .error e => .error e
  | .ok paddr =>
    if paddr = 0 then
      match allocuserpageStart vm pid fa with
      | .error e => .error e
      | .ok (.done vm respaddr) => .ok (.granted vm respaddr)
      | .ok (.evicting vm ev) => .ok (.evicting vm ev)
    else .ok (.mapped (vm.incr .TLBRELOAD) paddr)

/-! ## Loading the page -/

/-- The load is done, or it sleeps in one of the two reads. -/
inductive LoadPoint
  | ready (vm : Vm) (as : AddrSpace)
  | swapRead (slot : Nat)
  | elfRead (vnode offset : Nat)

/-- The text of `readfromelfto`'s panic. -/
def elfReadMsg : String := "Could not read from elf"

/-- `readfromelfto` up to its read: the file and the offset. -/
def elfSource (as : AddrSpace) (v : VAddr) : Except Crash (Nat × Nat) :=
  match as.seg1, as.seg2, as.segstack with
  | some s1, some s2, some st =>
    match elfSegment s1 s2 st v with
    | none => .error (.panic elfReadMsg)
    | some s =>
      match s.elfdata with
      | none => .error .nullDeref
      | some vnode => .ok (vnode, s.fileOffset v)
  | _, _, _ => .error .nullDeref

/-- The three-way load of `vm_fault` up to its read. -/
def loadBegin (vm : Vm) (pid : Int) (as : AddrSpace) (c : FaultCtx) (respaddr : Nat) :
    Except Crash LoadPoint :=
  if as.flag c = 1 then
    match vm.swap.findSlot pid c.fa with
    -- `swapoutpage` returns `EADDRNOTAVAIL`, which nobody looks at
    | none => .ok (.ready ((vm.incr .PAGEFAULTDISK).incr .PAGEFAULTSWAP) as)
    | some slot => .ok (.swapRead slot)
  else if as.stackseg c = false ∧ as.flag c = 0 then
    match elfSource as c.fa with
    | .error e => .error e
    | .ok (vnode, offset) => .ok (.elfRead vnode offset)
  else if as.stackseg c = true ∧ as.flag c = 0 then
    .ok (.ready ((vm.setFrame respaddr fun _ => 0).incr .PAGEFAULTZERO) (as.setLoaded c))
  else .ok (.ready vm as)

/-- The end of `swapoutpage`: the read fills the frame, then the slot is released. -/
def swapoutpageEnd (vm : Vm) (respaddr slot : Nat) : Vm :=
  let vm := vm.setFrame respaddr (vm.swap.readSlot slot)
  (({ vm with swap := vm.swap.releaseSlot slot } : Vm).incr .PAGEFAULTDISK).incr .PAGEFAULTSWAP

/-- `VOP_READ` of one page at `offset`: bytes behind the end of the file stay as they were. -/
def readInto (file : List UInt8) (offset : Nat) (old : Page) : Page :=
  fun o => match file[offset + o.val]? with
    | some b => b
    | none => old o

/-- The read of `readfromelfto`. -/
def readfromelfto (vm : Vm) (file : List UInt8) (respaddr offset : Nat) : Vm :=
  vm.setFrame respaddr (readInto file offset (vm.frame respaddr))

/-- The counters behind `readfromelfto`. -/
def elfCounters (vm : Vm) : Vm := (vm.incr .PAGEFAULTDISK).incr .PAGEFAULTELF

/-- The end of `vm_fault`: the TLB entry. -/
def faultEnd (vm : Vm) (pid : Int) (as : AddrSpace) (c : FaultCtx) (paddr : Nat) : Vm :=
  let r := vm.tlb.vmtlbWrite pid c.fa paddr (as.writable c.seg) vm.counter
  { vm with tlb := r.1, counter := r.2 }

/-! ## One uninterrupted call -/

/-- How a call of `vm_fault` ends: `none` is the C result 0. -/
inductive FaultResult
  | exited
  | returned (e : Option Errno)
deriving DecidableEq, Repr

/-- `vm_fault` behind `allocuserpage`. -/
def loadPage (files : Nat → List UInt8) (vm : Vm) (pid : Int) (as : AddrSpace) (c : FaultCtx)
    (respaddr : Nat) : Except Crash (Vm × AddrSpace) :=
  match loadBegin vm pid as c respaddr with
  | .error e => .error e
  | .ok (.ready vm as) => .ok (faultEnd vm pid as c respaddr, as)
  | .ok (.swapRead slot) => .ok (faultEnd (swapoutpageEnd vm respaddr slot) pid as c respaddr, as)
  | .ok (.elfRead vnode offset) =>
    let vm := elfCounters (readfromelfto vm (files vnode) respaddr offset)
    .ok (faultEnd vm pid (as.setLoaded c) c respaddr, as.setLoaded c)

/-- `vm_fault` for a page of process `pid`, from the page table on. -/
def faultPage (files : Nat → List UInt8) (vm : Vm) (pid : Int) (as : AddrSpace) (c : FaultCtx) :
    Except Crash (Vm × AddrSpace) :=
  match faultBegin vm pid c.fa with
  | .error e => .error e
  | .ok (.mapped vm paddr) => .ok (faultEnd vm pid as c paddr, as)
  | .ok (.granted vm respaddr) => loadPage files vm pid as c respaddr
  | .ok (.evicting vm ev) =>
    match allocuserpageFinish (evictWrite vm ev) pid c.fa ev.ind with
    | .error e => .error e
    | .ok (vm, respaddr) => loadPage files vm pid as c respaddr

/-- `vm_fault`, called by process `pid` with address space `as`. -/
def vmFault (files : Nat → List UInt8) (vm : Vm) (pid : Int) (as : Option AddrSpace)
    (faulttype : FaultType) (faultaddress : VAddr) :
    Except Crash (Vm × Option AddrSpace × FaultResult) :=
  match faultEntry as faulttype faultaddress with
  | .error e => .error e
  | .ok .exits => .ok (vm, as, .exited)
  | .ok (.returns e) => .ok (vm, as, .returned (some e))
  | .ok (.page as c) =>
    match faultPage files vm pid as c with
    | .error e => .error e
    | .ok (vm, as) => .ok (vm, some as, .returned none)

end DemandPaging
