import DemandPaging.Basic
import Mathlib.Logic.Function.Basic

set_option autoImplicit false

/-! # Segments and address spaces (`segments.c`, `addrspace.c`)

An address space has two segments that come from the executable and a stack segment. `loadedelf`
records, page by page, whether a page has been loaded once. Kernel heap allocations succeed here.

Two separately written range tests pick a segment for an address: `selectSegment` is the one of
`vm_fault` (exclusive upper bounds), `elfSegment` the one of `readfromelfto` (inclusive upper
bounds). -/

namespace DemandPaging

/-- `PAGE_SIZE` in 32-bit address arithmetic. -/
def PAGE_SIZE32 : UInt32 := 4096

def RDFLAG : UInt32 := 4

def WRFLAG : UInt32 := 2

def EXFLAG : UInt32 := 1

/-- `struct segment`. `elfdata` names a vnode; `loadedelf` has `numpages` bytes. -/
structure Segment where
  numpages : UInt32
  elfdata : Option Nat
  loadedelf : Nat → UInt8
  elfoffset : Nat
  startaddr : VAddr
  stackseg : Bool
  permissions : UInt8

/-- `struct addrspace`. -/
structure AddrSpace where
  seg1 : Option Segment
  seg2 : Option Segment
  segstack : Option Segment

/-- Which of the three segments. -/
inductive SegId
  | seg1
  | seg2
  | segstack
deriving DecidableEq, Repr

def AddrSpace.seg (as : AddrSpace) : SegId → Option Segment
  | .seg1 => as.seg1
  | .seg2 => as.seg2
  | .segstack => as.segstack

def AddrSpace.setSeg (as : AddrSpace) (i : SegId) (s : Segment) : AddrSpace :=
  match i with
  | .seg1 => { as with seg1 := some s }
  | .seg2 => { as with seg2 := some s }
  | .segstack => { as with segstack := some s }

/-! ## Building segments -/

/-- `segcreate` followed by `segdef`. -/
def segdef (vaddr : VAddr) (npages : UInt32) (offset : Nat) (elfnode : Option Nat) (stack : Bool)
    (readable writable executable : UInt32) : Segment :=
  { startaddr := vaddr
    numpages := npages
    elfoffset := offset
    elfdata := elfnode
    permissions := (readable ||| writable ||| executable).toUInt8
    stackseg := stack
    loadedelf := fun _ => 0 }

/-- `segcopy`: everything but the load flags. -/
def segcopy (seg : Segment) : Segment := { seg with loadedelf := fun _ => 0 }

def asCreate : AddrSpace := { seg1 := none, seg2 := none, segstack := none }

/-- `as_copy`. `segcopy` reads through its argument. -/
def asCopy (old : AddrSpace) : Except Crash AddrSpace :=
  match old.seg1, old.seg2, old.segstack with
  | some s1, some s2, some st =>
    .ok { seg1 := some (segcopy s1), seg2 := some (segcopy s2), segstack := some (segcopy st) }
  | _, _, _ => .error .nullDeref

/-- The layout of an address space with no page loaded, as `load_elf` leaves it and as `as_copy`
    copies it. -/
def AddrSpace.unloaded (as : AddrSpace) : AddrSpace :=
  { seg1 := as.seg1.map segcopy, seg2 := as.seg2.map segcopy, segstack := as.segstack.map segcopy }

/-- The page count `as_define_region` computes for a region. -/
def regionPages (vaddr memsize : UInt32) : UInt32 :=
  let sz := memsize + (vaddr &&& ~~~PAGE_FRAME)
  let sz := (sz + PAGE_SIZE32 - 1) &&& PAGE_FRAME
  sz / PAGE_SIZE32

/-- `as_define_region`: the first free one of the two program segments. -/
def asDefineRegion (as : AddrSpace) (vaddr memsize : UInt32) (offset : Nat) (vnode : Nat)
    (readable writable executable : UInt32) : Except Errno AddrSpace :=
  let seg := segdef (vaddr &&& PAGE_FRAME) (regionPages vaddr memsize) offset (some vnode) false
    readable writable executable
  match as.seg1, as.seg2 with
  | none, _ => .ok { as with seg1 := some seg }
  | some _, none => .ok { as with seg2 := some seg }
  | some _, some _ => .error .ENOSYS

/-- The lowest stack address. -/
def stackbase : VAddr := USERSTACK - STACKPAGES * PAGE_SIZE32

/-- `as_define_stack`, and the initial stack pointer it hands back. -/
def asDefineStack (as : AddrSpace) : AddrSpace × VAddr :=
  ({ as with segstack := some (segdef stackbase STACKPAGES 0 none true RDFLAG WRFLAG 0) },
    USERSTACK)

/-! ## Picking a segment -/

/-- The address behind a segment, in wrapping arithmetic. -/
def Segment.top (s : Segment) : VAddr := s.startaddr + s.numpages * PAGE_SIZE32

/-- The three-way test of `vm_fault`, with the page index in the segment. -/
def selectSegment (s1 s2 : Segment) (fa : VAddr) : Option (SegId × Nat) :=
  if s1.startaddr ≤ fa ∧ fa < s1.top then
    some (.seg1, ((fa - s1.startaddr) / PAGE_SIZE32).toNat)
  else if s2.startaddr ≤ fa ∧ fa < s2.top then
    some (.seg2, ((fa - s2.startaddr) / PAGE_SIZE32).toNat)
  else if stackbase ≤ fa ∧ fa < USERSTACK then
    some (.segstack, ((fa - stackbase) / PAGE_SIZE32).toNat)
  else none

/-- The three-way test of `readfromelfto`. -/
def elfSegment (s1 s2 st : Segment) (v : VAddr) : Option Segment :=
  if s1.startaddr ≤ v ∧ v ≤ s1.numpages * PAGE_SIZE32 + s1.startaddr then some s1
  else if s2.startaddr ≤ v ∧ v ≤ s2.numpages * PAGE_SIZE32 + s2.startaddr then some s2
  else if st.startaddr ≤ v ∧ v ≤ st.numpages * PAGE_SIZE32 + st.startaddr then some st
  else none

/-- The file offset `readfromelfto` reads at: a 32-bit difference added to an `off_t`. -/
def Segment.fileOffset (s : Segment) (v : VAddr) : Nat := (v - s.startaddr).toNat + s.elfoffset

/-- The assertions at the start of `vm_fault`: three non-empty segments. -/
def AddrSpace.checked (as : AddrSpace) : Except Crash (Segment × Segment × Segment) :=
  match as.seg1, as.seg2, as.segstack with
  | some s1, some s2, some st =>
    if s1.numpages ≠ 0 ∧ s2.numpages ≠ 0 ∧ st.numpages ≠ 0 then .ok (s1, s2, st)
    else .error .kassert
  | _, _, _ => .error .kassert

end DemandPaging
