import DemandPaging.AddrSpace
import DemandPaging.Lib.Heap

set_option autoImplicit false

/-! # Building address spaces while memory runs out

`as_define_region`, `as_define_stack`, `segdef`, `segcopy` and `as_copy` once more, this time with
the pointers: a segment, its array `loadedelf` and an address space are blocks of the kernel heap,
and any call of `kmalloc` may return `NULL` (`segments.c`, `addrspace.c`). Of the seven requests
that `as_copy` makes, the source checks the first one; `as_define_region` checks the first of two
and `as_define_stack` neither.

When no request is refused, the blocks hold what the definitions of `DemandPaging.AddrSpace` say. -/

namespace DemandPaging.Kmalloc

/-! ## Blocks -/

/-- A pointer, `none` for `NULL`. -/
abbrev Ptr := Option Nat

/-- `struct segment`, with a pointer to its array of flags. -/
structure SegmentBlock where
  numpages : UInt32
  elfdata : Option Nat
  loadedelf : Ptr
  elfoffset : Nat
  startaddr : VAddr
  stackseg : Bool
  permissions : UInt8

/-- An array of bytes. -/
structure ByteBlock where
  size : Nat
  byte : Nat → UInt8

def ByteBlock.set (a : ByteBlock) (i : Nat) (c : UInt8) : ByteBlock :=
  { a with byte := Function.update a.byte i c }

/-- `struct addrspace`. -/
structure AddrSpaceBlock where
  seg1 : Ptr
  seg2 : Ptr
  segstack : Ptr

def AddrSpaceBlock.seg (a : AddrSpaceBlock) : SegId → Ptr
  | .seg1 => a.seg1
  | .seg2 => a.seg2
  | .segstack => a.segstack

def AddrSpaceBlock.setSeg (a : AddrSpaceBlock) (i : SegId) (p : Ptr) : AddrSpaceBlock :=
  match i with
  | .seg1 => { a with seg1 := p }
  | .seg2 => { a with seg2 := p }
  | .segstack => { a with segstack := p }

inductive Block
  | segment (s : SegmentBlock)
  | bytes (b : ByteBlock)
  | addrspace (a : AddrSpaceBlock)

/-- Code that works on the heap, or stops the kernel. -/
abbrev HeapM (A : Type) := StateT (Heap Block) (Except Crash) A

/-- `*seg`. -/
def segment (seg : Ptr) : HeapM SegmentBlock := fun h =>
  match seg with
  | none => .error .nullDeref
  | some p =>
    match h.block p with
    | some (.segment s) => .ok (s, h)
    | _ => .error .useAfterFree

/-- Assignments to fields of `*seg`. -/
def setSegment (seg : Ptr) (f : SegmentBlock → SegmentBlock) : HeapM Unit := do
  let s ← segment seg
  modify fun h => seg.elim h fun p => h.write p (.segment (f s))

/-- `p[i]=b`. -/
def setByte (p : Ptr) (i : Nat) (b : UInt8) : HeapM Unit := fun h =>
  match p with
  | none => .error .nullDeref
  | some p =>
    match h.block p with
    | some (.bytes a) =>
      if i < a.size then .ok ((), h.write p (.bytes (a.set i b))) else .error .outOfBounds
    | _ => .error .useAfterFree

/-- `*as`. -/
def addrspace (as : Ptr) : HeapM AddrSpaceBlock := fun h =>
  match as with
  | none => .error .nullDeref
  | some p =>
    match h.block p with
    | some (.addrspace a) => .ok (a, h)
    | _ => .error .useAfterFree

/-- An assignment to one of the three pointers of `*as`. -/
def setAddrspace (as : Ptr) (i : SegId) (seg : Ptr) : HeapM Unit := do
  let a ← addrspace as
  modify fun h => as.elim h fun p => h.write p (.addrspace (a.setSeg i seg))

/-! ## The functions of the source -/

section

-- what each call of `kmalloc` comes back with: `NULL`, or memory with some bytes in it
variable (kmalloc : Nat → Option (Nat → UInt8))

/-- The fields that `segcreate` sets. -/
def blankSegment : SegmentBlock :=
  { numpages := 0
    elfdata := none
    loadedelf := none
    elfoffset := 0
    startaddr := 0
    stackseg := false
    permissions := 0 }

/-- `segcreate`. All fields are set before anybody sees the segment. -/
def segcreate : HeapM Ptr := fun h => .ok (h.malloc kmalloc fun _ => .segment blankSegment)

/-- `kmalloc(npages*sizeof(unsigned char))`. -/
def kmallocBytes (npages : UInt32) : HeapM Ptr := fun h =>
  .ok (h.malloc kmalloc fun byte => .bytes ⟨npages.toNat, byte⟩)

/-- `for(unsigned int i=0;i<npages;i++) loadedelf[i]=0`, with `left` bytes to go. -/
def zeroLoop (loadedelf : Ptr) : Nat → Nat → HeapM Unit
  | _, 0 => pure ()
  | i, left + 1 => do
      setByte loadedelf i 0
      zeroLoop loadedelf (i + 1) left

/-- The end of `segdef` and of `segcopy`: the array of flags. -/
def fillLoadedelf (seg : Ptr) (npages : UInt32) : HeapM Unit := do
  let loadedelf ← kmallocBytes kmalloc npages
  setSegment seg fun s => { s with loadedelf }
  zeroLoop loadedelf 0 npages.toNat

def segdef (seg : Ptr) (vaddr : VAddr) (npages : UInt32) (offset : Nat) (elfnode : Option Nat)
    (stack : Bool) (readable writable executable : UInt32) : HeapM Unit :=
  -- `KASSERT(seg!=NULL)`
  if seg = none then throw .kassert
  else do
    setSegment seg fun s =>
      { s with
        startaddr := vaddr
        numpages := npages
        elfoffset := offset
        elfdata := elfnode
        permissions := (readable ||| writable ||| executable).toUInt8
        stackseg := stack }
    fillLoadedelf kmalloc seg npages

def segcopy (seg : Ptr) : HeapM Ptr := do
  let newseg ← segcreate kmalloc
  let s ← segment seg
  setSegment newseg fun new => { s with loadedelf := new.loadedelf }
  fillLoadedelf kmalloc newseg s.numpages
  return newseg

def asCreate : HeapM Ptr := fun h =>
  .ok (h.malloc kmalloc fun _ => .addrspace ⟨none, none, none⟩)

/-- `newas->seg=segcopy(old->seg)` for one of the three segments. -/
def copySeg (newas old : Ptr) (i : SegId) : HeapM Unit := do
  let o ← addrspace old
  let seg ← segcopy kmalloc (o.seg i)
  setAddrspace newas i seg

/-- `as_copy`, with the pointer it stores in `*ret`. -/
def asCopy (old : Ptr) : HeapM (Except Errno Ptr) := do
  let newas ← asCreate kmalloc
  if newas = none then return .error .ENOMEM
  else
    copySeg kmalloc newas old .seg1
    copySeg kmalloc newas old .seg2
    copySeg kmalloc newas old .segstack
    return .ok newas

/-- One branch of `as_define_region`: `none` is the C result 0. -/
def defineSeg (as : Ptr) (i : SegId) (vaddr : VAddr) (npages : UInt32) (offset vnode : Nat)
    (readable writable executable : UInt32) : HeapM (Option Errno) := do
  let seg ← segcreate kmalloc
  setAddrspace as i seg
  if seg = none then return some .ENOMEM
  else
    segdef kmalloc seg vaddr npages offset (some vnode) false readable writable executable
    return none

def asDefineRegion (as : Ptr) (vaddr memsize : UInt32) (offset vnode : Nat)
    (readable writable executable : UInt32) : HeapM (Option Errno) := do
  let a ← addrspace as
  if a.seg1 = none then
    defineSeg kmalloc as .seg1 (vaddr &&& PAGE_FRAME) (regionPages vaddr memsize) offset vnode
      readable writable executable
  else if a.seg2 = none then
    defineSeg kmalloc as .seg2 (vaddr &&& PAGE_FRAME) (regionPages vaddr memsize) offset vnode
      readable writable executable
  else return some .ENOSYS

/-- `as_define_stack`, which returns 0 in any case, with the stack pointer it hands back. -/
def asDefineStack (as : Ptr) : HeapM VAddr := do
  let seg ← segcreate kmalloc
  setAddrspace as .segstack seg
  segdef kmalloc seg stackbase STACKPAGES 0 none true RDFLAG WRFLAG 0
  return USERSTACK

end

/-! ## Requests -/

/-- `p[i]`, if there is such a byte. -/
def byteAt (h : Heap Block) (p : Ptr) (i : Nat) : Option UInt8 :=
  match p.bind h.block with
  | some (.bytes b) => if i < b.size then some (b.byte i) else none
  | _ => none

/-- `NULL`, or a pointer to a segment. -/
def Typed (h : Heap Block) (seg : Ptr) : Prop :=
  ∀ p, seg = some p → ∃ s, h.block p = some (.segment s)

variable (kmalloc : Nat → Option (Nat → UInt8))

/-- Call `n` of `kmalloc` delivers the flags of `npages` pages; no pages need none. -/
def FlagsGranted (n : Nat) (npages : UInt32) : Prop := (kmalloc n).isSome ∨ npages = 0

/-- Call `n` of `kmalloc` delivers a segment, and the next one its flags. -/
def SegmentGranted (n : Nat) (npages : UInt32) : Prop :=
  (kmalloc n).isSome ∧ FlagsGranted kmalloc (n + 1) npages

/-- There is a segment to copy, and memory for its copy from call `n` on. -/
def CopyGranted (h : Heap Block) (n : Nat) (seg : Ptr) : Prop :=
  ∃ p s, seg = some p ∧ h.block p = some (.segment s) ∧ SegmentGranted kmalloc n s.numpages

/-- The call of `kmalloc`, counted from the first one in `as_copy`, that is to deliver the copy of a
    segment. -/
def copyCall : SegId → Nat
  | .seg1 => 1
  | .seg2 => 3
  | .segstack => 5

/-! ## Single operations -/

variable {kmalloc} {h h' : Heap Block} {p as : Nat} {s : SegmentBlock} {a : AddrSpaceBlock}
  {npages : UInt32}

theorem segment_ok (hp : h.block p = some (.segment s)) : segment (some p) h = .ok (s, h) := by
  rw [segment, hp]

theorem setSegment_ok (hp : h.block p = some (.segment s)) (f : SegmentBlock → SegmentBlock) :
    setSegment (some p) f h = .ok ((), h.write p (.segment (f s))) := by
  rw [setSegment, bind_run_ok (segment_ok hp)]
  rfl

theorem setSegment_null (f : SegmentBlock → SegmentBlock) :
    setSegment none f h = .error .nullDeref := rfl

theorem addrspace_ok (ha : h.block as = some (.addrspace a)) :
    addrspace (some as) h = .ok (a, h) := by
  rw [addrspace, ha]

theorem setAddrspace_ok (ha : h.block as = some (.addrspace a)) (i : SegId) (seg : Ptr) :
    setAddrspace (some as) i seg h =
      .ok ((), h.write as (.addrspace (a.setSeg i seg))) := by
  rw [setAddrspace, bind_run_ok (addrspace_ok ha)]
  rfl

/-- The loop clears the bytes from `i` on and changes nothing else. -/
theorem zeroLoop_ok {b : ByteBlock} (i left : Nat) (hp : h.block p = some (.bytes b))
    (hsize : i + left ≤ b.size) :
    ∃ h' b', zeroLoop (some p) i left h = .ok ((), h') ∧ h'.calls = h.calls ∧ h.Keeps {p} h' ∧
      h'.block p = some (.bytes b') ∧ b'.size = b.size ∧
      ∀ j, b'.byte j = if i ≤ j ∧ j < i + left then 0 else b.byte j := by
  induction left generalizing i h b with
  | zero =>
    refine ⟨h, b, rfl, rfl, .refl _ _, hp, rfl, fun j => ?_⟩
    rw [if_neg (by omega)]
  | succ left ih =>
    have hset : setByte (some p) i 0 h = .ok ((), h.write p (.bytes (b.set i 0))) := by
      simp only [setByte, hp, if_pos (show i < b.size by omega)]
    obtain ⟨h', b', hrun, hcalls, hkeeps, hb', hsize', hbyte⟩ :=
      ih (i + 1) (b := b.set i 0) (Heap.write_block_self hp) (show i + 1 + left ≤ b.size by omega)
    refine ⟨h', b', ?_, hcalls, Heap.keeps_write.trans hkeeps, hb', hsize', fun j => ?_⟩
    · rw [zeroLoop, bind_run_ok hset]
      exact hrun
    · rw [hbyte j]
      by_cases hij : j = i
      · subst hij
        rw [if_neg (by omega), if_pos (by omega)]
        exact Function.update_self ..
      · by_cases hin : i + 1 ≤ j ∧ j < i + 1 + left
        · rw [if_pos hin, if_pos (by omega)]
        · rw [if_neg hin, if_neg (by omega)]
          exact Function.update_of_ne hij ..

theorem zeroLoop_null {left : Nat} (h : Heap Block) (hleft : left ≠ 0) (i : Nat) :
    zeroLoop none i left h = .error .nullDeref := by
  obtain ⟨n, rfl⟩ := Nat.exists_eq_succ_of_ne_zero hleft
  rfl

/-! ## What the blocks stand for -/

/-- The segment, with these flags. -/
def SegmentBlock.value (s : SegmentBlock) (loadedelf : Nat → UInt8) : Segment :=
  { numpages := s.numpages
    elfdata := s.elfdata
    loadedelf
    elfoffset := s.elfoffset
    startaddr := s.startaddr
    stackseg := s.stackseg
    permissions := s.permissions }

/-- The block at `p` is the segment `v`. -/
def Holds (h : Heap Block) (p : Nat) (v : Segment) : Prop :=
  ∃ s, h.block p = some (.segment s) ∧ v = s.value v.loadedelf ∧
    ∀ i < s.numpages.toNat, byteAt h s.loadedelf i = some (v.loadedelf i)

/-- The pointer is `NULL` where there is no segment. -/
def SegHolds (h : Heap Block) : Ptr → Option Segment → Prop
  | none, none => True
  | some p, some v => Holds h p v
  | _, _ => False

/-- The block at `as` is the address space `v`. -/
def SpaceHolds (h : Heap Block) (as : Nat) (v : AddrSpace) : Prop :=
  ∃ a, h.block as = some (.addrspace a) ∧ ∀ i, SegHolds h (a.seg i) (v.seg i)

variable {v : AddrSpace} {x : Segment} {q : Nat} {i : SegId} {seg : Ptr}

/-- Bytes survive changes to other blocks. -/
theorem byteAt_keeps {l : Ptr} {j : Nat} {c : UInt8} (hk : h.Keeps {as} h')
    (hne : ∀ b, h.block as ≠ some (.bytes b)) (hbyte : byteAt h l j = some c) :
    byteAt h' l j = some c := by
  unfold byteAt at hbyte ⊢
  cases l with
  | none => cases hbyte
  | some l =>
    cases hl : h.block l with
    | none =>
      rw [Option.bind_some, hl] at hbyte
      cases hbyte
    | some b =>
      rw [Option.bind_some, hl] at hbyte
      cases b with
      | bytes b =>
        have hl' := hk l _ (fun heq => hne b (heq ▸ hl)) hl
        rw [Option.bind_some, hl']
        exact hbyte
      | segment s => cases hbyte
      | addrspace a => cases hbyte

/-- Segments survive changes to an address space. -/
theorem keeps_segment (hk : h.Keeps {as} h') (ha : h.block as = some (.addrspace a))
    (hp : h.block p = some (.segment s)) : h'.block p = some (.segment s) := by
  refine hk p _ ?_ hp
  rintro rfl
  rw [ha] at hp
  cases hp

theorem Holds.keeps (hp : Holds h p x) (hk : h.Keeps {as} h')
    (ha : h.block as = some (.addrspace a)) : Holds h' p x := by
  obtain ⟨s, hs, hx, hbyte⟩ := hp
  refine ⟨s, keeps_segment hk ha hs, hx, fun i hi => byteAt_keeps hk ?_ (hbyte i hi)⟩
  intro b hb
  rw [ha] at hb
  cases hb

theorem SegHolds.keeps {v : Option Segment} (hp : SegHolds h seg v) (hk : h.Keeps {as} h')
    (ha : h.block as = some (.addrspace a)) : SegHolds h' seg v := by
  cases seg with
  | none => cases v <;> exact hp
  | some p =>
    cases v with
    | none => exact hp
    | some x => exact Holds.keeps hp hk ha

/-- A segment is put into an address space. -/
theorem SpaceHolds.setSeg (hv : SpaceHolds h as v) (ha : h.block as = some (.addrspace a))
    (hk : h.Keeps {as} h') (ha' : h'.block as = some (.addrspace (a.setSeg i (some p))))
    (hp : Holds h' p x) : SpaceHolds h' as (v.setSeg i x) := by
  obtain ⟨a₀, ha₀, hseg⟩ := hv
  obtain rfl : a = a₀ := by
    rw [ha] at ha₀
    cases ha₀
    rfl
  refine ⟨_, ha', fun j => ?_⟩
  have hj := (hseg j).keeps hk ha
  cases i <;> cases j <;> first | exact hp | exact hj

/-! ## Segments -/

section

variable {vaddr : VAddr} {offset : Nat} {elfnode : Option Nat} {stack : Bool}
  {readable writable executable : UInt32}

/-- The flags are filled in, unless they are missing. -/
theorem fillLoadedelf_ok (hp : h.block p = some (.segment s))
    (hmem : FlagsGranted kmalloc h.calls npages) :
    ∃ h' l, fillLoadedelf kmalloc (some p) npages h = .ok ((), h') ∧ h'.calls = h.calls + 1 ∧
      h.Keeps {p} h' ∧ h'.block p = some (.segment { s with loadedelf := l }) ∧
      ∀ i < npages.toNat, byteAt h' l i = some 0 := by
  cases hk : kmalloc h.calls with
  | none =>
    obtain rfl : npages = 0 := by
      rcases hmem with hsome | hzero
      · rw [hk] at hsome
        cases hsome
      · exact hzero
    have hbytes : kmallocBytes kmalloc 0 h = .ok (none, h.refuse) := by
      rw [kmallocBytes, Heap.malloc_refused hk]
    have hp₁ : h.refuse.block p = some (.segment s) := hp
    refine ⟨_, none, ?_, rfl, Heap.keeps_write (h := h.refuse), Heap.write_block_self hp₁, ?_⟩
    · rw [fillLoadedelf, bind_run_ok hbytes, bind_run_ok (setSegment_ok hp₁ _)]
      rfl
    · intro i hi
      cases hi
  | some byte =>
    have hbytes : kmallocBytes kmalloc npages h =
        .ok (some h.next, h.alloc (.bytes ⟨npages.toNat, byte⟩)) := by
      rw [kmallocBytes, Heap.malloc_granted hk]
    have hne := Heap.ne_next hp
    have hp₁ : (h.alloc (.bytes ⟨npages.toNat, byte⟩)).block p = some (.segment s) :=
      Heap.keeps_alloc p _ (Set.notMem_empty p) hp
    have hset := setSegment_ok hp₁ fun s => { s with loadedelf := some h.next }
    have hb₂ := (Heap.write_block_ne (p := p)
      (b := .segment { s with loadedelf := some h.next }) hne.symm).trans
      (Heap.alloc_block_next (h := h) (b := .bytes ⟨npages.toNat, byte⟩))
    obtain ⟨h', b', hloop, hcalls, hkeeps, hb', hsize, hbyte⟩ :=
      zeroLoop_ok 0 npages.toNat hb₂ (by simp)
    -- the array is new, and the segment is the only other block that changes
    refine ⟨h', some h.next, ?_, hcalls, .of_alloc_write hkeeps, ?_, ?_⟩
    · rw [fillLoadedelf, bind_run_ok hbytes, bind_run_ok hset]
      exact hloop
    · exact hkeeps p _ hne (Heap.write_block_self hp₁)
    · intro i hi
      simp only [byteAt, Option.bind_some, hb', hsize, if_pos hi, hbyte i]
      rw [if_pos (by omega)]

theorem fillLoadedelf_fails (hp : h.block p = some (.segment s))
    (hmem : ¬ FlagsGranted kmalloc h.calls npages) :
    fillLoadedelf kmalloc (some p) npages h = .error .nullDeref := by
  obtain ⟨hnone, hpages⟩ := not_or.1 hmem
  have hbytes : kmallocBytes kmalloc npages h = .ok (none, h.refuse) := by
    rw [kmallocBytes, Heap.malloc_refused (Option.not_isSome_iff_eq_none.1 hnone)]
  have hp₁ : h.refuse.block p = some (.segment s) := hp
  rw [fillLoadedelf, bind_run_ok hbytes, bind_run_ok (setSegment_ok hp₁ _)]
  refine zeroLoop_null _ (fun hzero => hpages ?_) 0
  exact UInt32.toNat_inj.1 hzero

theorem segdef_ok (vaddr : VAddr) (offset : Nat) (elfnode : Option Nat) (stack : Bool)
    (readable writable executable : UInt32) (hp : h.block p = some (.segment s))
    (hmem : FlagsGranted kmalloc h.calls npages) :
    ∃ h', segdef kmalloc (some p) vaddr npages offset elfnode stack readable writable executable h =
        .ok ((), h') ∧ h'.calls = h.calls + 1 ∧ h.Keeps {p} h' ∧
      Holds h' p (DemandPaging.segdef vaddr npages offset elfnode stack readable writable
        executable) := by
  obtain ⟨h', l, hfill, hcalls, hkeeps, hp', hbyte⟩ := fillLoadedelf_ok
    (h := h.write p (.segment
      { s with
        startaddr := vaddr
        numpages := npages
        elfoffset := offset
        elfdata := elfnode
        permissions := (readable ||| writable ||| executable).toUInt8
        stackseg := stack })) (Heap.write_block_self hp) hmem
  refine ⟨h', ?_, hcalls, Heap.keeps_write.trans hkeeps, _, hp', rfl, hbyte⟩
  rw [segdef, if_neg (by simp), bind_run_ok (setSegment_ok hp _)]
  exact hfill

theorem segdef_fails (hp : h.block p = some (.segment s))
    (hmem : ¬ FlagsGranted kmalloc h.calls npages) :
    segdef kmalloc (some p) vaddr npages offset elfnode stack readable writable executable h =
      .error .nullDeref := by
  rw [segdef, if_neg (by simp), bind_run_ok (setSegment_ok hp _)]
  exact fillLoadedelf_fails (Heap.write_block_self hp) hmem

theorem segdef_null :
    segdef kmalloc none vaddr npages offset elfnode stack readable writable executable h =
      .error .kassert := rfl

theorem segcreate_refused (hk : kmalloc h.calls = none) :
    segcreate kmalloc h = .ok (none, h.refuse) := by
  rw [segcreate, Heap.malloc_refused hk]

/-- A new segment is where there was nothing. -/
theorem segcreate_granted (hk : (kmalloc h.calls).isSome) :
    segcreate kmalloc h = .ok (some h.next, h.alloc (.segment blankSegment)) := by
  obtain ⟨g, hg⟩ := Option.isSome_iff_exists.1 hk
  rw [segcreate, Heap.malloc_granted hg]

theorem segcopy_ok (hp : h.block p = some (.segment s))
    (hmem : SegmentGranted kmalloc h.calls s.numpages) :
    ∃ h' q, segcopy kmalloc (some p) h = .ok (some q, h') ∧ h'.calls = h.calls + 2 ∧
      h.Keeps ∅ h' ∧ Holds h' q (s.value fun _ => 0) := by
  have hp₁ : (h.alloc (.segment blankSegment)).block p = some (.segment s) :=
    Heap.keeps_alloc p _ (Set.notMem_empty p) hp
  obtain ⟨h', l, hfill, hcalls, hkeeps, hq, hbyte⟩ := fillLoadedelf_ok
    (h := (h.alloc (.segment blankSegment)).write h.next (.segment { s with loadedelf := none }))
    (Heap.write_block_self Heap.alloc_block_next) hmem.2
  refine ⟨h', h.next, ?_, hcalls, ?_, _, hq, rfl, hbyte⟩
  · rw [segcopy, bind_run_ok (segcreate_granted hmem.1), bind_run_ok (segment_ok hp₁),
      bind_run_ok (setSegment_ok Heap.alloc_block_next _)]
    exact bind_run_ok hfill
  · refine Heap.Keeps.of_fresh (p := h.next) ?_ (h.fresh _ (Nat.le_refl _))
    rw [insert_empty_eq]
    exact Heap.keeps_alloc.trans (Heap.keeps_write.trans hkeeps)

/-- `segcopy` uses whatever `segcreate` and `kmalloc` give it. -/
theorem segcopy_fails (ht : Typed h seg) (hmem : ¬ CopyGranted kmalloc h h.calls seg) :
    segcopy kmalloc seg h = .error .nullDeref := by
  by_cases hsome : (kmalloc h.calls).isSome
  · rw [segcopy, bind_run_ok (segcreate_granted hsome)]
    cases seg with
    | none => rfl
    | some p =>
      obtain ⟨s, hp⟩ := ht p rfl
      have hp₁ : (h.alloc (.segment blankSegment)).block p = some (.segment s) :=
        Heap.keeps_alloc p _ (Set.notMem_empty p) hp
      have hmem₁ : ¬ FlagsGranted kmalloc (h.calls + 1) s.numpages :=
        fun hflags => hmem ⟨p, s, rfl, hp, hsome, hflags⟩
      rw [bind_run_ok (segment_ok hp₁), bind_run_ok (setSegment_ok Heap.alloc_block_next _)]
      exact bind_run_error
        (fillLoadedelf_fails (Heap.write_block_self Heap.alloc_block_next) hmem₁)
  · have hnone := Option.not_isSome_iff_eq_none.1 hsome
    rw [segcopy, bind_run_ok (segcreate_refused hnone)]
    cases seg with
    | none => rfl
    | some p =>
      obtain ⟨s, hp⟩ := ht p rfl
      have hp₁ : h.refuse.block p = some (.segment s) := hp
      rw [bind_run_ok (segment_ok hp₁), bind_run_error (setSegment_null _)]

/-! ## Address spaces -/

/-- The heap after a new segment was put into an address space. -/
def placed (h : Heap Block) (as : Nat) (a : AddrSpaceBlock) (i : SegId) : Heap Block :=
  (h.alloc (.segment blankSegment)).write as (.addrspace (a.setSeg i (some h.next)))

theorem alloc_addrspace (ha : h.block as = some (.addrspace a)) :
    (h.alloc (.segment blankSegment)).block as = some (.addrspace a) :=
  Heap.keeps_alloc as _ (Set.notMem_empty as) ha

theorem placed_segment (ha : h.block as = some (.addrspace a)) :
    (placed h as a i).block h.next = some (.segment blankSegment) :=
  (Heap.write_block_ne (Heap.ne_next ha).symm).trans Heap.alloc_block_next

/-- The new segment is defined in its place. -/
theorem placed_segdef (i : SegId) (vaddr : VAddr) (offset : Nat) (elfnode : Option Nat)
    (stack : Bool) (readable writable executable : UInt32)
    (ha : h.block as = some (.addrspace a)) (hmem : FlagsGranted kmalloc (h.calls + 1) npages) :
    ∃ h', segdef kmalloc (some h.next) vaddr npages offset elfnode stack readable writable
        executable (placed h as a i) = .ok ((), h') ∧ h.Keeps {as} h' ∧
      h'.block as = some (.addrspace (a.setSeg i (some h.next))) ∧
      Holds h' h.next (DemandPaging.segdef vaddr npages offset elfnode stack readable writable
        executable) := by
  obtain ⟨h', hdef, -, hkeeps, hholds⟩ :=
    segdef_ok vaddr offset elfnode stack readable writable executable (placed_segment ha) hmem
  refine ⟨h', hdef, .of_alloc_write hkeeps, ?_, hholds⟩
  exact hkeeps as _ (Heap.ne_next ha) (Heap.write_block_self (alloc_addrspace ha))

variable {vnode : Nat} {memsize : UInt32}

theorem defineSeg_ok (ha : h.block as = some (.addrspace a))
    (hmem : SegmentGranted kmalloc h.calls npages) :
    ∃ h', defineSeg kmalloc (some as) i vaddr npages offset vnode readable writable executable h =
        .ok (none, h') ∧ h.Keeps {as} h' ∧
      h'.block as = some (.addrspace (a.setSeg i (some h.next))) ∧
      Holds h' h.next (DemandPaging.segdef vaddr npages offset (some vnode) false readable writable
        executable) := by
  obtain ⟨h', hdef, hrest⟩ :=
    placed_segdef i vaddr offset (some vnode) false readable writable executable ha hmem.2
  refine ⟨h', ?_, hrest⟩
  rw [defineSeg, bind_run_ok (segcreate_granted hmem.1),
    bind_run_ok (setAddrspace_ok (alloc_addrspace ha) _ _), if_neg (by simp)]
  exact bind_run_ok hdef

theorem defineSeg_fails (ha : h.block as = some (.addrspace a)) (hsome : (kmalloc h.calls).isSome)
    (hmem : ¬ FlagsGranted kmalloc (h.calls + 1) npages) :
    defineSeg kmalloc (some as) i vaddr npages offset vnode readable writable executable h =
      .error .nullDeref := by
  rw [defineSeg, bind_run_ok (segcreate_granted hsome),
    bind_run_ok (setAddrspace_ok (alloc_addrspace ha) _ _), if_neg (by simp)]
  exact bind_run_error (segdef_fails (placed_segment ha) hmem)

theorem AddrSpaceBlock.setSeg_none (hi : a.seg i = none) : a.setSeg i none = a := by
  cases a
  cases i <;> cases hi <;> rfl

/-- The pointer that `segcreate` could not fill was `NULL` before. -/
theorem defineSeg_refused (ha : h.block as = some (.addrspace a)) (hi : a.seg i = none)
    (hnone : kmalloc h.calls = none) :
    ∃ h', defineSeg kmalloc (some as) i vaddr npages offset vnode readable writable executable h =
      .ok (some .ENOMEM, h') ∧ h'.block = h.block := by
  have ha₁ : h.refuse.block as = some (.addrspace a) := ha
  refine ⟨h.refuse.write as (.addrspace (a.setSeg i none)), ?_, ?_⟩
  · rw [defineSeg, bind_run_ok (segcreate_refused hnone), bind_run_ok (setAddrspace_ok ha₁ _ _),
      if_pos rfl]
    rfl
  · rw [AddrSpaceBlock.setSeg_none hi, Heap.write_block_eq ha₁]
    rfl

/-- The segment that `as_define_region` fills. -/
def AddrSpaceBlock.freeSeg (a : AddrSpaceBlock) : Option SegId :=
  if a.seg1 = none then some .seg1 else if a.seg2 = none then some .seg2 else none

theorem AddrSpaceBlock.seg_freeSeg (hi : a.freeSeg = some i) : a.seg i = none := by
  unfold freeSeg at hi
  split at hi
  · next hseg =>
    cases hi
    exact hseg
  · split at hi
    · next hseg =>
      cases hi
      exact hseg
    · cases hi

theorem asDefineRegion_free (ha : h.block as = some (.addrspace a)) (hi : a.freeSeg = some i) :
    asDefineRegion kmalloc (some as) vaddr memsize offset vnode readable writable executable h =
      defineSeg kmalloc (some as) i (vaddr &&& PAGE_FRAME) (regionPages vaddr memsize) offset vnode
        readable writable executable h := by
  rw [asDefineRegion, bind_run_ok (addrspace_ok ha)]
  unfold AddrSpaceBlock.freeSeg at hi
  split at hi
  · next hseg =>
    cases hi
    rw [if_pos hseg]
  · next hseg =>
    split at hi
    · next hseg2 =>
      cases hi
      rw [if_neg hseg, if_pos hseg2]
    · cases hi

theorem asDefineRegion_full (ha : h.block as = some (.addrspace a)) (hi : a.freeSeg = none) :
    asDefineRegion kmalloc (some as) vaddr memsize offset vnode readable writable executable h =
      .ok (some .ENOSYS, h) := by
  rw [asDefineRegion, bind_run_ok (addrspace_ok ha)]
  unfold AddrSpaceBlock.freeSeg at hi
  split at hi
  · cases hi
  · next hseg =>
    split at hi
    · cases hi
    · next hseg2 =>
      rw [if_neg hseg, if_neg hseg2]
      rfl

theorem asDefineStack_ok (ha : h.block as = some (.addrspace a))
    (hmem : SegmentGranted kmalloc h.calls STACKPAGES) :
    ∃ h', asDefineStack kmalloc (some as) h = .ok (USERSTACK, h') ∧ h.Keeps {as} h' ∧
      h'.block as = some (.addrspace (a.setSeg .segstack (some h.next))) ∧
      Holds h' h.next
        (DemandPaging.segdef stackbase STACKPAGES 0 none true RDFLAG WRFLAG 0) := by
  obtain ⟨h', hdef, hrest⟩ :=
    placed_segdef .segstack stackbase 0 none true RDFLAG WRFLAG 0 ha hmem.2
  refine ⟨h', ?_, hrest⟩
  rw [asDefineStack, bind_run_ok (segcreate_granted hmem.1),
    bind_run_ok (setAddrspace_ok (alloc_addrspace ha) _ _)]
  exact bind_run_ok hdef

/-- The assertion of `segdef` stands in for the check that `as_define_stack` leaves out. -/
theorem asDefineStack_fails (ha : h.block as = some (.addrspace a))
    (hmem : ¬ SegmentGranted kmalloc h.calls STACKPAGES) :
    ∃ e, asDefineStack kmalloc (some as) h = .error e := by
  by_cases hsome : (kmalloc h.calls).isSome
  · have hflags : ¬ FlagsGranted kmalloc (h.calls + 1) STACKPAGES := fun hf => hmem ⟨hsome, hf⟩
    refine ⟨.nullDeref, ?_⟩
    rw [asDefineStack, bind_run_ok (segcreate_granted hsome),
      bind_run_ok (setAddrspace_ok (alloc_addrspace ha) _ _)]
    exact bind_run_error (segdef_fails (placed_segment ha) hflags)
  · have ha₁ : h.refuse.block as = some (.addrspace a) := ha
    refine ⟨.kassert, ?_⟩
    rw [asDefineStack, bind_run_ok (segcreate_refused (Option.not_isSome_iff_eq_none.1 hsome)),
      bind_run_ok (setAddrspace_ok ha₁ _ _)]
    exact bind_run_error segdef_null

end

/-! ## Copying -/

section

variable {hk : Heap Block} {old new n : Nat} {o : AddrSpaceBlock}

/-- While `as_copy` is under way, `n` calls of `kmalloc` after it started: what was there before is
    there still, and the new address space is `v` so far. -/
structure Copying (h : Heap Block) (new : Nat) (hk : Heap Block) (n : Nat) (v : AddrSpace) :
    Prop where
  calls : hk.calls = h.calls + n
  keeps : h.Keeps ∅ hk
  space : SpaceHolds hk new v

theorem Copying.start (h : Heap Block) :
    Copying h h.next (h.alloc (.addrspace ⟨none, none, none⟩)) 1 DemandPaging.asCreate := by
  refine ⟨rfl, Heap.keeps_alloc, _, Heap.alloc_block_next, fun i => ?_⟩
  cases i <;> trivial

/-- What there is to copy, and whether there is memory for it, does not change on the way. -/
theorem Copying.copyGranted_iff (hc : Copying h new hk n v) (ht : Typed h seg) (m : Nat) :
    CopyGranted kmalloc hk m seg ↔ CopyGranted kmalloc h m seg := by
  constructor
  · rintro ⟨p, s, rfl, hp, hmem⟩
    obtain ⟨s', hp'⟩ := ht p rfl
    have hkept := hc.keeps p _ (Set.notMem_empty p) hp'
    rw [hkept] at hp
    cases hp
    exact ⟨p, s, rfl, hp', hmem⟩
  · rintro ⟨p, s, rfl, hp, hmem⟩
    exact ⟨p, s, rfl, hc.keeps p _ (Set.notMem_empty p) hp, hmem⟩

theorem Copying.step (hc : Copying h new hk n v) (hnew : h.block new = none)
    (hold : h.block old = some (.addrspace o)) (hp : o.seg i = some p)
    (hs : h.block p = some (.segment s)) (hmem : SegmentGranted kmalloc (h.calls + n) s.numpages) :
    ∃ hk', copySeg kmalloc (some new) (some old) i hk = .ok ((), hk') ∧
      Copying h new hk' (n + 2) (v.setSeg i (s.value fun _ => 0)) := by
  obtain ⟨a, ha, -⟩ := hc.space
  have hold' := hc.keeps old _ (Set.notMem_empty old) hold
  have hs' := hc.keeps p _ (Set.notMem_empty p) hs
  rw [← hc.calls] at hmem
  obtain ⟨h₁, q, hcopy, hcalls, hkeeps, hholds⟩ := segcopy_ok hs' hmem
  have ha₁ := hkeeps new _ (Set.notMem_empty new) ha
  have hwrite : h₁.Keeps {new} (h₁.write new (.addrspace (a.setSeg i (some q)))) :=
    Heap.keeps_write
  have hkeeps' := (hkeeps.mono (Set.empty_subset {new})).trans hwrite
  refine ⟨h₁.write new (.addrspace (a.setSeg i (some q))), ?_, ?_, ?_, ?_⟩
  · rw [copySeg, bind_run_ok (addrspace_ok hold'), hp, bind_run_ok hcopy]
    exact setAddrspace_ok ha₁ _ _
  · show h₁.calls = _
    rw [hcalls, hc.calls, Nat.add_assoc]
  · refine Heap.Keeps.of_fresh (p := new) ?_ hnew
    rw [insert_empty_eq]
    exact (hc.keeps.mono (Set.empty_subset _)).trans hkeeps'
  · exact hc.space.setSeg ha hkeeps' (Heap.write_block_self ha₁) (hholds.keeps hwrite ha₁)

theorem Copying.stuck (hc : Copying h new hk n v) (hold : h.block old = some (.addrspace o))
    (ht : Typed h (o.seg i)) (hmem : ¬ CopyGranted kmalloc h (h.calls + n) (o.seg i)) :
    copySeg kmalloc (some new) (some old) i hk = .error .nullDeref := by
  have hold' := hc.keeps old _ (Set.notMem_empty old) hold
  have ht' : Typed hk (o.seg i) := fun p hp =>
    (ht p hp).imp fun s hs => hc.keeps p _ (Set.notMem_empty p) hs
  rw [← hc.copyGranted_iff ht, ← hc.calls] at hmem
  rw [copySeg, bind_run_ok (addrspace_ok hold')]
  exact bind_run_error (segcopy_fails ht' hmem)

theorem asCreate_granted (hsome : (kmalloc h.calls).isSome) :
    asCreate kmalloc h = .ok (some h.next, h.alloc (.addrspace ⟨none, none, none⟩)) := by
  obtain ⟨g, hg⟩ := Option.isSome_iff_exists.1 hsome
  rw [asCreate, Heap.malloc_granted hg]

theorem asCopy_refused (hnone : kmalloc h.calls = none) :
    asCopy kmalloc (some old) h = .ok (.error .ENOMEM, h.refuse) := by
  have hcreate : asCreate kmalloc h = .ok (none, h.refuse) := by
    rw [asCreate, Heap.malloc_refused hnone]
  rw [asCopy, bind_run_ok hcreate, if_pos rfl]
  rfl

theorem asCopy_ok {ps : SegId → Nat} {ss : SegId → SegmentBlock}
    (hold : h.block old = some (.addrspace o)) (hp : ∀ i, o.seg i = some (ps i))
    (hs : ∀ i, h.block (ps i) = some (.segment (ss i))) (hsome : (kmalloc h.calls).isSome)
    (hmem : ∀ i, SegmentGranted kmalloc (h.calls + copyCall i) (ss i).numpages) :
    ∃ h', asCopy kmalloc (some old) h = .ok (.ok (some h.next), h') ∧ h.Keeps ∅ h' ∧
      SpaceHolds h' h.next
        { seg1 := some ((ss .seg1).value fun _ => 0)
          seg2 := some ((ss .seg2).value fun _ => 0)
          segstack := some ((ss .segstack).value fun _ => 0) } := by
  have hnew : h.block h.next = none := h.fresh _ (Nat.le_refl _)
  obtain ⟨h₁, hrun₁, hc₁⟩ := (Copying.start h).step hnew hold (hp .seg1) (hs .seg1) (hmem .seg1)
  obtain ⟨h₂, hrun₂, hc₂⟩ := hc₁.step hnew hold (hp .seg2) (hs .seg2) (hmem .seg2)
  obtain ⟨h₃, hrun₃, hc₃⟩ := hc₂.step hnew hold (hp .segstack) (hs .segstack) (hmem .segstack)
  refine ⟨h₃, ?_, hc₃.keeps, hc₃.space⟩
  rw [asCopy, bind_run_ok (asCreate_granted hsome), if_neg (by simp), bind_run_ok hrun₁,
    bind_run_ok hrun₂, bind_run_ok hrun₃]
  rfl

/-- Behind `as_create`, nothing is checked. -/
theorem asCopy_fails (hold : h.block old = some (.addrspace o)) (ht : ∀ i, Typed h (o.seg i))
    (hsome : (kmalloc h.calls).isSome)
    (hmem : ¬ ∀ i, CopyGranted kmalloc h (h.calls + copyCall i) (o.seg i)) :
    asCopy kmalloc (some old) h = .error .nullDeref := by
  have hnew : h.block h.next = none := h.fresh _ (Nat.le_refl _)
  have hstart := Copying.start h
  rw [asCopy, bind_run_ok (asCreate_granted hsome), if_neg (by simp)]
  by_cases hm₁ : CopyGranted kmalloc h (h.calls + copyCall .seg1) (o.seg .seg1)
  · obtain ⟨p₁, s₁, hp₁, hs₁, hseg₁⟩ := id hm₁
    obtain ⟨h₁, hrun₁, hc₁⟩ := hstart.step hnew hold hp₁ hs₁ hseg₁
    rw [bind_run_ok hrun₁]
    by_cases hm₂ : CopyGranted kmalloc h (h.calls + copyCall .seg2) (o.seg .seg2)
    · obtain ⟨p₂, s₂, hp₂, hs₂, hseg₂⟩ := id hm₂
      obtain ⟨h₂, hrun₂, hc₂⟩ := hc₁.step hnew hold hp₂ hs₂ hseg₂
      rw [bind_run_ok hrun₂]
      have hm₃ : ¬ CopyGranted kmalloc h (h.calls + copyCall .segstack) (o.seg .segstack) := by
        intro hm₃
        refine hmem fun i => ?_
        cases i with
        | seg1 => exact hm₁
        | seg2 => exact hm₂
        | segstack => exact hm₃
      exact bind_run_error (hc₂.stuck hold (ht .segstack) hm₃)
    · exact bind_run_error (hc₁.stuck hold (ht .seg2) hm₂)
  · exact bind_run_error (hstart.stuck hold (ht .seg1) hm₁)

end

/-! ## With enough memory -/

section

variable {v' : AddrSpace} {vaddr memsize : UInt32} {offset vnode : Nat}
  {readable writable executable : UInt32}

/-- `NULL` is where there is no segment. -/
theorem SegHolds.eq_none_iff {v : Option Segment} (hseg : SegHolds h seg v) :
    seg = none ↔ v = none := by
  cases seg <;> cases v <;> simp_all [SegHolds]

theorem asDefineRegion_refines (hv : SpaceHolds h as v)
    (hval : DemandPaging.asDefineRegion v vaddr memsize offset vnode readable writable executable =
      .ok v')
    (hmem : SegmentGranted kmalloc h.calls (regionPages vaddr memsize)) :
    ∃ h', asDefineRegion kmalloc (some as) vaddr memsize offset vnode readable writable executable h
        = .ok (none, h') ∧ SpaceHolds h' as v' := by
  obtain ⟨a, ha, hseg⟩ := id hv
  have hseg1 : a.seg1 = none ↔ v.seg1 = none := (hseg .seg1).eq_none_iff
  have hseg2 : a.seg2 = none ↔ v.seg2 = none := (hseg .seg2).eq_none_iff
  have hdefine : ∀ i, a.freeSeg = some i →
      ∃ h', asDefineRegion kmalloc (some as) vaddr memsize offset vnode readable writable executable
          h = .ok (none, h') ∧
        SpaceHolds h' as (v.setSeg i (DemandPaging.segdef (vaddr &&& PAGE_FRAME)
          (regionPages vaddr memsize) offset (some vnode) false readable writable executable)) := by
    intro i hi
    obtain ⟨h', hdef, hkeeps, ha', hholds⟩ := defineSeg_ok ha hmem
    exact ⟨h', (asDefineRegion_free ha hi).trans hdef, hv.setSeg ha hkeeps ha' hholds⟩
  unfold DemandPaging.asDefineRegion at hval
  split at hval
  · next hnone =>
    cases hval
    exact hdefine .seg1 (if_pos (hseg1.2 hnone))
  · next hsome hnone =>
    cases hval
    refine hdefine .seg2 ((if_neg ?_).trans (if_pos (hseg2.2 hnone)))
    rw [hseg1, hsome]
    simp
  · cases hval

theorem asDefineStack_refines (hv : SpaceHolds h as v)
    (hmem : SegmentGranted kmalloc h.calls STACKPAGES) :
    ∃ h', asDefineStack kmalloc (some as) h = .ok ((DemandPaging.asDefineStack v).2, h') ∧
      SpaceHolds h' as (DemandPaging.asDefineStack v).1 := by
  obtain ⟨a, ha, -⟩ := id hv
  obtain ⟨h', hrun, hkeeps, ha', hholds⟩ := asDefineStack_ok ha hmem
  exact ⟨h', hrun, hv.setSeg ha hkeeps ha' hholds⟩

theorem SpaceHolds.keeps (hv : SpaceHolds h as v) (hk : h.Keeps ∅ h') : SpaceHolds h' as v := by
  obtain ⟨a, ha, hseg⟩ := hv
  exact ⟨a, hk as _ (Set.notMem_empty as) ha,
    fun i => (hseg i).keeps (hk.mono (Set.empty_subset {as})) ha⟩

/-- What `segcopy` is to make of a segment. -/
theorem SegHolds.copied (hseg : SegHolds h seg (some x)) :
    ∃ p s, seg = some p ∧ h.block p = some (.segment s) ∧
      (s.value fun _ => 0) = DemandPaging.segcopy x := by
  cases seg with
  | none => exact hseg.elim
  | some p =>
    obtain ⟨s, hs, hx, -⟩ := hseg
    refine ⟨p, s, rfl, hs, ?_⟩
    rw [hx]
    rfl

/-- The copy is new and what `as_copy` makes of the old space. All that were there stay. -/
theorem asCopy_refines {old : Nat} (hv : SpaceHolds h old v) (hval : DemandPaging.asCopy v = .ok v')
    (hmem : ∀ n, (kmalloc n).isSome) :
    ∃ h' new, asCopy kmalloc (some old) h = .ok (.ok (some new), h') ∧ h.block new = none ∧
      SpaceHolds h' new v' ∧ ∀ as w, SpaceHolds h as w → SpaceHolds h' as w := by
  obtain ⟨o, ho, hseg⟩ := id hv
  unfold DemandPaging.asCopy at hval
  split at hval
  · next x₁ x₂ x₃ hx₁ hx₂ hx₃ =>
    cases hval
    have hcopied : ∀ i, ∃ p s, o.seg i = some p ∧ h.block p = some (.segment s) ∧
        some (s.value fun _ => 0) = (v.seg i).map DemandPaging.segcopy := by
      intro i
      obtain ⟨x, hx⟩ : ∃ x, v.seg i = some x := by
        cases i with
        | seg1 => exact ⟨x₁, hx₁⟩
        | seg2 => exact ⟨x₂, hx₂⟩
        | segstack => exact ⟨x₃, hx₃⟩
      have hi := hseg i
      rw [hx] at hi
      obtain ⟨p, s, hp, hs, hvalue⟩ := hi.copied
      exact ⟨p, s, hp, hs, by rw [hx, hvalue]; rfl⟩
    choose ps ss hp hs hvalue using hcopied
    obtain ⟨h', hrun, hkeeps, hspace⟩ :=
      asCopy_ok ho hp hs (hmem _) fun i => ⟨hmem _, .inl (hmem _)⟩
    refine ⟨h', h.next, hrun, h.fresh _ (Nat.le_refl _), ?_, fun _ _ hw => hw.keeps hkeeps⟩
    rw [hvalue .seg1, hvalue .seg2, hvalue .segstack] at hspace
    simp only [AddrSpace.seg, hx₁, hx₂, hx₃, Option.map_some] at hspace
    exact hspace
  · cases hval

/-- A segment and its flags, in two new blocks. -/
def addSegment (h : Heap Block) (x : Segment) : Heap Block :=
  (h.alloc (.bytes ⟨x.numpages.toNat, x.loadedelf⟩)).alloc (.segment
    { numpages := x.numpages
      elfdata := x.elfdata
      loadedelf := some h.next
      elfoffset := x.elfoffset
      startaddr := x.startaddr
      stackseg := x.stackseg
      permissions := x.permissions })

/-- Two pages of code, a page of data and the stack, all of them loaded. -/
def loadedSegment : SegId → Segment
  | .seg1 => { DemandPaging.segdef 0x400000 2 0 (some 0) false RDFLAG 0 EXFLAG with
      loadedelf := fun _ => 1 }
  | .seg2 => { DemandPaging.segdef 0x500000 1 0x2000 (some 0) false RDFLAG WRFLAG 0 with
      loadedelf := fun _ => 1 }
  | .segstack => { DemandPaging.segdef stackbase STACKPAGES 0 none true RDFLAG WRFLAG 0 with
      loadedelf := fun _ => 1 }

def loadedSpace : AddrSpace :=
  ⟨some (loadedSegment .seg1), some (loadedSegment .seg2), some (loadedSegment .segstack)⟩

def loadedHeap : Heap Block :=
  Heap.alloc ([.seg1, .seg2, .segstack].foldl (fun h i => addSegment h (loadedSegment i))
    ⟨fun _ => none, 1, 0, fun _ _ => rfl⟩) (.addrspace ⟨some 2, some 4, some 6⟩)

/-- The copy has the pages and the permissions, and no flag set. -/
theorem loadedSpace_copied : ∃ h' new, asCopy (fun _ => some fun _ => 0xde) (some 7) loadedHeap =
    .ok (.ok (some new), h') ∧ loadedHeap.block new = none ∧
      SpaceHolds h' new loadedSpace.unloaded ∧
      ∀ as w, SpaceHolds loadedHeap as w → SpaceHolds h' as w := by
  have hv : SpaceHolds loadedHeap 7 loadedSpace := by
    refine ⟨_, rfl, fun i => ?_⟩
    cases i <;> exact ⟨_, rfl, rfl, fun _ hj => if_pos hj⟩
  exact asCopy_refines hv rfl fun _ => rfl

end

end DemandPaging.Kmalloc
