import DemandPaging.Basic
import DemandPaging.Lib.Bitmap
import DemandPaging.Lib.Linked

set_option autoImplicit false

/-! # The kernel heap

The subpage allocator of `kmalloc.c`, as it is compiled here (without `SLOW`, `GUARDS` and
`LABELS`). A page of the heap holds blocks of one size, and a `pageref` describes it: where the page
is and what size its blocks have, the first free block, and how many blocks are free. The free
blocks of a page are linked through their first words. The pagerefs are themselves on pages, one for
each of the 16 roots, which keep a bitmap of the pagerefs in use.

Addresses are natural numbers. A pageref is known by its address, and `refs` reads the pageref at an
address; `mem` reads the word at an address of a block. What `alloc_kpages(1)` answers is a
parameter of the functions that call it (`none` for 0). `kpages` is not part of the C state: it is
the list of the pages that `alloc_kpages` has given to the allocator and `free_kpages` has not taken
back. -/

namespace DemandPaging

open Function

/-! ## Data -/

namespace Kheap

def NSIZES : Nat := 8

/-- The table `sizes`. -/
def sizes (t : Nat) : Nat := [16, 32, 64, 128, 256, 512, 1024, 2048].getD t 0

def LARGEST_SUBPAGE_SIZE : Nat := 2048

def INVALID_OFFSET : Nat := 0xffff

/-- `sizeof(struct pageref)`. -/
def PAGEREF_SIZE : Nat := 16

def NPAGEREFS_PER_PAGE : Nat := 256

/-- The bitmap of a root is kept in words of 32 bits. -/
def INUSE_WORDS : Nat := 8

def NUM_PAGEREFPAGES : Nat := 16

def TOTAL_PAGEREFS : Nat := NUM_PAGEREFPAGES * NPAGEREFS_PER_PAGE

end Kheap

structure Pageref where
  next_samesize : Option Nat
  next_all : Option Nat
  pageaddr_and_blocktype : Nat
  freelist_offset : Nat
  nfree : Nat
deriving DecidableEq, Repr

/-- `PR_PAGEADDR`. -/
def Pageref.pageaddr (r : Pageref) : Nat := r.pageaddr_and_blocktype / PAGE_SIZE * PAGE_SIZE

/-- `PR_BLOCKTYPE`. -/
def Pageref.blocktype (r : Pageref) : Nat := r.pageaddr_and_blocktype % PAGE_SIZE

def MKPAB (pa blk : Nat) : Nat := pa / PAGE_SIZE * PAGE_SIZE + blk % PAGE_SIZE

structure KheapRoot where
  page : Option Nat
  pagerefs_inuse : Nat → Bool
  numinuse : Nat

/-- The bit `k` is set and counted. -/
def KheapRoot.claim (root : KheapRoot) (k : Nat) : KheapRoot :=
  { root with
    pagerefs_inuse := update root.pagerefs_inuse k true
    numinuse := root.numinuse + 1 }

/-- The bit `k` is cleared again. -/
def KheapRoot.release (root : KheapRoot) (k : Nat) : KheapRoot :=
  { root with
    pagerefs_inuse := update root.pagerefs_inuse k false
    numinuse := root.numinuse - 1 }

structure Kheap where
  kheaproots : Nat → KheapRoot
  refs : Nat → Pageref
  sizebases : Nat → Option Nat
  allbase : Option Nat
  mem : Nat → Nat
  kpages : List Nat

namespace Kheap

/-- The heap at boot: the static variables are zero, and the memory holds anything. -/
def boot (refs : Nat → Pageref) (mem : Nat → Nat) : Kheap where
  kheaproots := fun _ => { page := none, pagerefs_inuse := fun _ => false, numinuse := 0 }
  refs := refs
  sizebases := fun _ => none
  allbase := none
  mem := mem
  kpages := []

def setRoot (h : Kheap) (w : Nat) (root : KheapRoot) : Kheap :=
  { h with kheaproots := update h.kheaproots w root }

def setRef (h : Kheap) (pr : Nat) (r : Pageref) : Kheap :=
  { h with refs := update h.refs pr r }

/-- `alloc_kpages(1)` has answered with a page. -/
def gotPage (h : Kheap) (va : Nat) : Kheap := { h with kpages := va :: h.kpages }

/-- `free_kpages`. -/
def freeKpage (h : Kheap) (va : Nat) : Kheap := { h with kpages := h.kpages.erase va }

/-! ## Pagerefs -/

/-- `allocpagerefpage`. The lock is given up around `alloc_kpages`; nobody else runs meanwhile. -/
def allocpagerefpage (h : Kheap) (w : Nat) (va : Option Nat) : Except Crash Kheap := do
  kassert ((h.kheaproots w).page = none)
  match va with
  | none => return h
  | some va =>
    let h := h.gotPage va
    kassert (va % PAGE_SIZE = 0)
    if (h.kheaproots w).page ≠ none then return h.freeKpage va
    else return h.setRoot w { h.kheaproots w with page := some va }

/-- The body of the loops of `allocpageref`, for the bit `k` of the root `w`: the bit and the count
    are changed before the page of the root is asked for. -/
def claimPageref (h : Kheap) (w k : Nat) (va : Option Nat) : Except Crash (Option Nat × Kheap) := do
  let root := h.kheaproots w
  let h := h.setRoot w (root.claim k)
  let h ← if root.page = none then allocpagerefpage h w va else pure h
  match (h.kheaproots w).page with
  | none => return (none, h)
  | some page => return (some (page + k * PAGEREF_SIZE), h)

/-- The loop of `allocpageref` over the roots. -/
def allocpagerefFrom (h : Kheap) (va : Option Nat) : List Nat → Except Crash (Option Nat × Kheap)
  | [] => .ok (none, h)
  | w :: ws =>
    let root := h.kheaproots w
    if NPAGEREFS_PER_PAGE ≤ root.numinuse then h.allocpagerefFrom va ws
    else
      match firstWord root.pagerefs_inuse 32 INUSE_WORDS with
      | none => h.allocpagerefFrom va ws
      | some i =>
        match firstBit root.pagerefs_inuse 32 i with
        | none => .error .kassert
        | some j => h.claimPageref w (i * 32 + j) va

def allocpageref (h : Kheap) (va : Option Nat) : Except Crash (Option Nat × Kheap) :=
  h.allocpagerefFrom va (List.range NUM_PAGEREFPAGES)

/-- The loop of `freepageref` over the roots. The index is unsigned, so that a pageref before the
    page has a large one. -/
def freepagerefFrom (h : Kheap) (p : Nat) : List Nat → Except Crash Kheap
  | [] => .error .kassert
  | w :: ws =>
    let root := h.kheaproots w
    match root.page with
    | none => if root.numinuse = 0 then h.freepagerefFrom p ws else .error .kassert
    | some page =>
      let j := (p - page) / PAGEREF_SIZE
      if page ≤ p ∧ j < NPAGEREFS_PER_PAGE then do
        kassert (root.pagerefs_inuse j = true)
        kassert (root.numinuse > 0)
        return h.setRoot w (root.release j)
      else h.freepagerefFrom p ws

def freepageref (h : Kheap) (p : Nat) : Except Crash Kheap :=
  h.freepagerefFrom p (List.range NUM_PAGEREFPAGES)

/-! ## The lists of pages -/

def nextAll (h : Kheap) (pr : Nat) : Option Nat := (h.refs pr).next_all

def nextSamesize (h : Kheap) (pr : Nat) : Option Nat := (h.refs pr).next_samesize

/-- A fault of a walk as a crash. -/
def ofWalk {α : Type} : Except WalkFault α → Except Crash α
  | .ok a => .ok a
  | .error .endless => .error .endless
  | .error .null => .error .nullDeref

def removeLists (h : Kheap) (pr blktype : Nat) : Except Crash Kheap := do
  kassert (blktype < NSIZES)
  let (base, next) ← ofWalk (removeNode h.nextSamesize TOTAL_PAGEREFS (h.sizebases blktype) pr)
  let h := { h with
    sizebases := update h.sizebases blktype base
    refs := fun a => { h.refs a with next_samesize := next a } }
  let (base, next) ← ofWalk (removeNode h.nextAll TOTAL_PAGEREFS h.allbase pr)
  return { h with allbase := base, refs := fun a => { h.refs a with next_all := next a } }

def blocktype (clientsz : Nat) : Except Crash Nat :=
  match search (fun i => clientsz ≤ sizes i) NSIZES with
  | some i => .ok i
  | none => .error (.panic s!"Subpage allocator cannot handle allocation of size {clientsz}\n")

/-! ## Allocation -/

/-- The first page of the list of a block type that has a free block. -/
def findFree (h : Kheap) (blktype : Nat) : Nat → Option Nat → Except Crash (Option Nat)
  | _, none => .ok none
  | 0, some _ => .error .endless
  | fuel + 1, some pr => do
      kassert ((h.refs pr).blocktype = blktype)
      if 0 < (h.refs pr).nfree then return some pr
      else h.findFree blktype fuel (h.refs pr).next_samesize

/-- From `doalloc` on: the first free block of a page is taken. -/
def doalloc (h : Kheap) (pr : Nat) : Except Crash (Nat × Kheap) := do
  let r := h.refs pr
  kassert (r.freelist_offset < PAGE_SIZE)
  let prpage := r.pageaddr
  let retptr := prpage + r.freelist_offset
  let fl := h.mem retptr
  if fl ≠ 0 then
    kassert (r.nfree - 1 > 0)
    kassert (prpage ≤ fl ∧ fl - prpage < PAGE_SIZE)
    return (retptr, h.setRef pr { r with nfree := r.nfree - 1, freelist_offset := fl - prpage })
  else
    kassert (r.nfree - 1 = 0)
    return (retptr, h.setRef pr { r with nfree := r.nfree - 1, freelist_offset := INVALID_OFFSET })

/-- The free list of a fresh page, up to the block `i`: each block points to the one before it. -/
def threadBlocks (mem : Nat → Nat) (fla size : Nat) : Nat → Except Crash (Nat → Nat)
  | 0 => .ok (update mem fla 0)
  | i + 1 => do
      let mem ← threadBlocks mem fla size i
      kassert (fla + (i + 1) * size ≠ fla + i * size)
      return update mem (fla + (i + 1) * size) (fla + i * size)

/-- A fresh page gets its pageref and its free list, and is put in front of both lists. -/
def addPage (h : Kheap) (pr prpage blktype : Nat) : Except Crash Kheap := do
  let nfree := PAGE_SIZE / sizes blktype
  let mem ← threadBlocks h.mem prpage (sizes blktype) (nfree - 1)
  let offset := (nfree - 1) * sizes blktype
  return { h.setRef pr {
      next_samesize := h.sizebases blktype
      next_all := h.allbase
      pageaddr_and_blocktype := MKPAB prpage blktype
      freelist_offset := offset
      nfree := nfree } with
    sizebases := update h.sizebases blktype (some pr)
    allbase := some pr
    mem := mem }

/-- `subpage_kmalloc`. The answers of `alloc_kpages` are `va`, where a page of blocks is needed, and
    `refva`, where a page of pagerefs is needed as well. -/
def subpageKmalloc (h : Kheap) (sz : Nat) (va refva : Option Nat) :
    Except Crash (Option Nat × Kheap) := do
  let blktype ← blocktype sz
  match ← h.findFree blktype TOTAL_PAGEREFS (h.sizebases blktype) with
  | some pr =>
    let (retptr, h) ← h.doalloc pr
    return (some retptr, h)
  | none =>
    match va with
    | none => return (none, h)
    | some prpage =>
      let h := h.gotPage prpage
      kassert (prpage % PAGE_SIZE = 0)
      match ← h.allocpageref refva with
      | (none, h) => return (none, h.freeKpage prpage)
      | (some pr, h) =>
        let h ← h.addPage pr prpage blktype
        let (retptr, h) ← h.doalloc pr
        return (some retptr, h)

/-- `kmalloc`. A large block is a run of whole pages, and `va` is what `alloc_kpages` answers. -/
def kmalloc (h : Kheap) (sz : Nat) (va refva : Option Nat) : Except Crash (Option Nat × Kheap) := do
  if LARGEST_SUBPAGE_SIZE ≤ sz then
    match va with
    | none => return (none, h)
    | some address =>
      kassert (address % PAGE_SIZE = 0)
      return (some address, h.gotPage address)
  else h.subpageKmalloc sz va refva

/-! ## Release -/

/-- The page of the heap that an address is on. The end of a page is computed in 32 bits. -/
def findPage (h : Kheap) (ptraddr : Nat) : Nat → Option Nat → Except Crash (Option Nat)
  | _, none => .ok none
  | 0, some _ => .error .endless
  | fuel + 1, some pr => do
      let prpage := (h.refs pr).pageaddr
      kassert ((h.refs pr).blocktype < NSIZES)
      if prpage ≤ ptraddr ∧ ptraddr < (prpage + PAGE_SIZE) % UInt32.size then return some pr
      else h.findPage ptraddr fuel (h.refs pr).next_all

def fillDeadbeef (mem : Nat → Nat) (ptraddr size : Nat) : Nat → Nat :=
  fun a => if ptraddr ≤ a ∧ a < ptraddr + size then 0xdeadbeef else mem a

/-- The block at `offset` goes to the front of the free list of its page. -/
def pushFree (h : Kheap) (pr offset : Nat) : Except Crash Kheap := do
  let r := h.refs pr
  let prpage := r.pageaddr
  let fl := prpage + offset
  let mem := fillDeadbeef h.mem fl (sizes r.blocktype)
  let next := if r.freelist_offset = INVALID_OFFSET then 0 else prpage + r.freelist_offset
  kassert (r.freelist_offset = INVALID_OFFSET ∨ fl ≠ next)
  return { h.setRef pr { r with freelist_offset := offset, nfree := r.nfree + 1 } with
    mem := update mem fl next }

/-- `subpage_kfree`; the result tells whether the address is on a page of the heap. -/
def subpageKfree (h : Kheap) (ptraddr : Nat) : Except Crash (Bool × Kheap) := do
  match ← h.findPage ptraddr TOTAL_PAGEREFS h.allbase with
  | none => return (false, h)
  | some pr =>
    let prpage := (h.refs pr).pageaddr
    let blktype := (h.refs pr).blocktype
    let offset := ptraddr - prpage
    if PAGE_SIZE ≤ offset ∨ offset % sizes blktype ≠ 0 then
      throw (.panic s!"kfree: subpage free of invalid addr {ptraddr}\n")
    let h ← h.pushFree pr offset
    kassert ((h.refs pr).nfree ≤ PAGE_SIZE / sizes blktype)
    if (h.refs pr).nfree = PAGE_SIZE / sizes blktype then
      let h ← h.removeLists pr blktype
      let h ← h.freepageref pr
      return (true, h.freeKpage prpage)
    else return (true, h)

/-- `kfree`. What is not on a page of the heap is a run of whole pages. -/
def kfree (h : Kheap) (ptr : Nat) : Except Crash Kheap := do
  if ptr = 0 then return h
  let (found, h) ← h.subpageKfree ptr
  if found then return h
  else
    kassert (ptr % PAGE_SIZE = 0)
    return h.freeKpage ptr

end Kheap

end DemandPaging
