import DemandPaging.AddrSpace.Heap

set_option autoImplicit false

/-! # Which refusals the construction of an address space survives

Any of the requests that `as_define_region`, `as_define_stack`, `segdef`, `segcopy` and `as_copy`
make may be refused. A call survives if it comes back with all its segments in place, or with
`ENOMEM` and nothing left behind. -/

namespace DemandPaging.Kmalloc

/-! ## Calls -/

/-- A call of one of the five functions. -/
inductive SegCall
  | segdef (seg : Ptr) (vaddr : VAddr) (npages : UInt32) (offset : Nat) (elfnode : Option Nat)
      (stack : Bool) (readable writable executable : UInt32)
  | segcopy (seg : Ptr)
  | asDefineRegion (as : Nat) (vaddr memsize : UInt32) (offset vnode : Nat)
      (readable writable executable : UInt32)
  | asDefineStack (as : Nat)
  | asCopy (old : Nat)

/-- What a call returns (`none` for 0), the segments that it was to build, and the heap. -/
structure Done where
  result : Option Errno
  built : List Ptr
  heap : Heap Block

/-- The pointer to a segment in an address space. -/
def segOf (h : Heap Block) (as : Nat) (i : SegId) : Ptr :=
  match h.block as with
  | some (.addrspace a) => a.seg i
  | _ => none

/-- What `as_copy` leaves. -/
def Done.ofCopy (h : Heap Block) : Except Errno Ptr → Done
  | .error e => ⟨some e, [], h⟩
  | .ok none => ⟨none, [none], h⟩
  | .ok (some new) =>
    ⟨none, [segOf h new .seg1, segOf h new .seg2, segOf h new .segstack], h⟩

variable (kmalloc : Nat → Option (Nat → UInt8))

/-- `segdef` has no result, and a `NULL` from `segcopy` would stand for `ENOMEM`. -/
def SegCall.run (h : Heap Block) : SegCall → Except Crash Done
  | .segdef seg vaddr npages offset elfnode stack readable writable executable =>
    (Kmalloc.segdef kmalloc seg vaddr npages offset elfnode stack readable writable executable
      h).map fun r => ⟨none, [seg], r.2⟩
  | .segcopy seg =>
    (Kmalloc.segcopy kmalloc seg h).map fun r =>
      ⟨if r.1 = none then some .ENOMEM else none, [r.1], r.2⟩
  | .asDefineRegion as vaddr memsize offset vnode readable writable executable =>
    (Kmalloc.asDefineRegion kmalloc (some as) vaddr memsize offset vnode readable writable
      executable h).map fun r =>
        ⟨r.1, [segOf r.2 as (if segOf h as .seg1 = none then .seg1 else .seg2)], r.2⟩
  | .asDefineStack as =>
    (Kmalloc.asDefineStack kmalloc (some as) h).map fun r =>
      ⟨none, [segOf r.2 as .segstack], r.2⟩
  | .asCopy old =>
    (Kmalloc.asCopy kmalloc (some old) h).map fun r => Done.ofCopy r.2 r.1

/-- The pointer leads to a segment, and its `loadedelf` has `numpages` bytes that are zero. -/
def Initialised (h : Heap Block) (seg : Ptr) : Prop :=
  ∃ p s, seg = some p ∧ h.block p = some (.segment s) ∧
    ∀ i < s.numpages.toNat, byteAt h s.loadedelf i = some 0

/-- The call comes back: with all segments initialised, or with `ENOMEM` and the heap as it was. -/
def SegCall.Survives (h : Heap Block) (c : SegCall) : Prop :=
  ∃ d, c.run kmalloc h = .ok d ∧
    (d.result = none ∧ (∀ seg ∈ d.built, Initialised d.heap seg) ∨
      d.result = some .ENOMEM ∧ d.heap.block = h.block)

/-- The pointers that the call is given lead to what they are meant to lead to. -/
def SegCall.Valid (h : Heap Block) : SegCall → Prop
  | .segdef seg .. => Typed h seg
  | .segcopy seg => Typed h seg
  | .asDefineRegion as .. => ∃ a, h.block as = some (.addrspace a)
  | .asDefineStack as => ∃ a, h.block as = some (.addrspace a)
  | .asCopy old => ∃ a, h.block old = some (.addrspace a) ∧ ∀ i, Typed h (a.seg i)

/-- The condition for a call to survive. -/
def SegCall.Granted (h : Heap Block) : SegCall → Prop
  | .segdef seg _ npages .. => seg ≠ none ∧ FlagsGranted kmalloc h.calls npages
  | .segcopy seg => CopyGranted kmalloc h h.calls seg
  | .asDefineRegion as vaddr memsize .. =>
    (segOf h as .seg1 = none ∨ segOf h as .seg2 = none) ∧
      (kmalloc h.calls = none ∨ FlagsGranted kmalloc (h.calls + 1) (regionPages vaddr memsize))
  | .asDefineStack _ => SegmentGranted kmalloc h.calls STACKPAGES
  | .asCopy old =>
    kmalloc h.calls = none ∨
      ∀ i, CopyGranted kmalloc h (h.calls + copyCall i) (segOf h old i)

variable {kmalloc} {h h' : Heap Block} {p as : Nat} {s : SegmentBlock} {a : AddrSpaceBlock}
  {npages : UInt32} {v : AddrSpace} {x : Segment} {i : SegId} {seg : Ptr}

/-! ## What is initialised -/

theorem Holds.initialised (hp : Holds h p x) (hzero : ∀ i, x.loadedelf i = 0) :
    Initialised h (some p) := by
  obtain ⟨s, hs, -, hbyte⟩ := hp
  refine ⟨p, s, rfl, hs, fun i hi => ?_⟩
  rw [hbyte i hi, hzero i]

theorem segOf_eq (ha : h.block as = some (.addrspace a)) (i : SegId) : segOf h as i = a.seg i := by
  rw [segOf, ha]

/-- A segment of an address space whose flags are all zero. -/
theorem SpaceHolds.initialised (hv : SpaceHolds h as v) (hi : v.seg i = some x)
    (hzero : ∀ j, x.loadedelf j = 0) : Initialised h (segOf h as i) := by
  obtain ⟨a, ha, hseg⟩ := hv
  have hx := hseg i
  rw [hi] at hx
  rw [segOf_eq ha]
  cases hp : a.seg i with
  | none =>
    rw [hp] at hx
    exact hx.elim
  | some p =>
    rw [hp] at hx
    exact Holds.initialised hx hzero

/-! ## Single calls -/

theorem SegCall.not_survives {c : SegCall} {e : Crash} (hrun : c.run kmalloc h = .error e) :
    ¬ c.Survives kmalloc h := by
  rintro ⟨d, hd, -⟩
  rw [hrun] at hd
  cases hd

theorem segdef_survives_iff {vaddr : VAddr} {offset : Nat} {elfnode : Option Nat} {stack : Bool}
    {readable writable executable : UInt32} (ht : Typed h seg) :
    (SegCall.segdef seg vaddr npages offset elfnode stack readable writable executable).Survives
        kmalloc h ↔ seg ≠ none ∧ FlagsGranted kmalloc h.calls npages := by
  cases seg with
  | none => exact ⟨fun hs => absurd hs (SegCall.not_survives rfl), fun hs => absurd rfl hs.1⟩
  | some p =>
    obtain ⟨s, hp⟩ := ht p rfl
    by_cases hmem : FlagsGranted kmalloc h.calls npages
    · obtain ⟨h', hdef, -, -, hholds⟩ :=
        segdef_ok vaddr offset elfnode stack readable writable executable hp hmem
      refine iff_of_true ⟨⟨none, [some p], h'⟩, ?_, .inl ⟨rfl, ?_⟩⟩ ⟨by simp, hmem⟩
      · rw [SegCall.run, hdef]
        rfl
      · intro seg hseg
        rw [List.mem_singleton.1 hseg]
        exact hholds.initialised fun _ => rfl
    · refine iff_of_false (SegCall.not_survives (e := .nullDeref) ?_) fun hs => hmem hs.2
      rw [SegCall.run, segdef_fails hp hmem]
      rfl

theorem segcopy_survives_iff (ht : Typed h seg) :
    (SegCall.segcopy seg).Survives kmalloc h ↔ CopyGranted kmalloc h h.calls seg := by
  by_cases hmem : CopyGranted kmalloc h h.calls seg
  · obtain ⟨p, s, rfl, hp, hseg⟩ := id hmem
    obtain ⟨h', q, hcopy, -, -, hholds⟩ := segcopy_ok hp hseg
    refine iff_of_true ⟨⟨none, [some q], h'⟩, ?_, .inl ⟨rfl, ?_⟩⟩ hmem
    · rw [SegCall.run, hcopy]
      rfl
    · intro seg hseg
      rw [List.mem_singleton.1 hseg]
      exact hholds.initialised fun _ => rfl
  · refine iff_of_false (SegCall.not_survives (e := .nullDeref) ?_) hmem
    rw [SegCall.run, segcopy_fails ht hmem]
    rfl

theorem asDefineStack_survives_iff (ha : h.block as = some (.addrspace a)) :
    (SegCall.asDefineStack as).Survives kmalloc h ↔ SegmentGranted kmalloc h.calls STACKPAGES := by
  by_cases hmem : SegmentGranted kmalloc h.calls STACKPAGES
  · obtain ⟨h', hstack, -, ha', hholds⟩ := asDefineStack_ok ha hmem
    refine iff_of_true ⟨⟨none, [segOf h' as .segstack], h'⟩, ?_, .inl ⟨rfl, ?_⟩⟩ hmem
    · rw [SegCall.run, hstack]
      rfl
    · intro seg hseg
      rw [List.mem_singleton.1 hseg, segOf_eq ha']
      exact hholds.initialised fun _ => rfl
  · obtain ⟨e, hstack⟩ := asDefineStack_fails ha hmem
    refine iff_of_false (SegCall.not_survives (e := e) ?_) hmem
    rw [SegCall.run, hstack]
    rfl

theorem AddrSpaceBlock.freeSeg_eq_none : a.freeSeg = none ↔ ¬ (a.seg1 = none ∨ a.seg2 = none) := by
  unfold freeSeg
  split
  · next hseg => simp [hseg]
  · next hseg => split <;> simp_all

/-- `SegCall.run` looks for the new segment where `as_define_region` puts it. -/
theorem AddrSpaceBlock.freeSeg_eq_some (hi : a.freeSeg = some i) :
    (if a.seg .seg1 = none then .seg1 else .seg2) = i := by
  unfold freeSeg at hi
  split at hi
  · next hseg =>
    cases hi
    exact if_pos hseg
  · next hseg =>
    split at hi
    · cases hi
      exact if_neg hseg
    · cases hi

theorem AddrSpaceBlock.seg_setSeg (a : AddrSpaceBlock) (i : SegId) (seg : Ptr) :
    (a.setSeg i seg).seg i = seg := by
  cases i <;> rfl

theorem asDefineRegion_survives_iff {vaddr memsize : UInt32} {offset vnode : Nat}
    {readable writable executable : UInt32} (ha : h.block as = some (.addrspace a)) :
    (SegCall.asDefineRegion as vaddr memsize offset vnode readable writable executable).Survives
        kmalloc h ↔
      (segOf h as .seg1 = none ∨ segOf h as .seg2 = none) ∧
        (kmalloc h.calls = none ∨
          FlagsGranted kmalloc (h.calls + 1) (regionPages vaddr memsize)) := by
  rw [segOf_eq ha, segOf_eq ha]
  cases hfree : a.freeSeg with
  | none =>
    refine iff_of_false ?_ fun hs => AddrSpaceBlock.freeSeg_eq_none.1 hfree hs.1
    rintro ⟨d, hd, hs⟩
    rw [SegCall.run, asDefineRegion_full ha hfree] at hd
    cases hd
    rcases hs with ⟨hzero, -⟩ | ⟨hnomem, -⟩
    · cases hzero
    · cases hnomem
  | some i =>
    have hseg : a.seg .seg1 = none ∨ a.seg .seg2 = none := by
      by_contra hno
      rw [AddrSpaceBlock.freeSeg_eq_none.2 hno] at hfree
      cases hfree
    rw [and_iff_right hseg]
    by_cases hsome : (kmalloc h.calls).isSome
    · by_cases hmem : FlagsGranted kmalloc (h.calls + 1) (regionPages vaddr memsize)
      · obtain ⟨h', hdef, -, ha', hholds⟩ := defineSeg_ok ha ⟨hsome, hmem⟩
        refine iff_of_true ⟨⟨none, [some h.next], h'⟩, ?_, .inl ⟨rfl, ?_⟩⟩ (.inr hmem)
        · rw [SegCall.run, asDefineRegion_free ha hfree, hdef, segOf_eq ha,
            AddrSpaceBlock.freeSeg_eq_some hfree]
          show Except.ok (Done.mk none [segOf h' as i] h') = _
          rw [segOf_eq ha', AddrSpaceBlock.seg_setSeg]
        · intro seg hseg
          rw [List.mem_singleton.1 hseg]
          exact hholds.initialised fun _ => rfl
      · refine iff_of_false (SegCall.not_survives (e := .nullDeref) ?_) fun hs => ?_
        · rw [SegCall.run, asDefineRegion_free ha hfree, defineSeg_fails ha hsome hmem]
          rfl
        · exact hmem (hs.resolve_left (Option.isSome_iff_ne_none.1 hsome))
    · have hnone := Option.not_isSome_iff_eq_none.1 hsome
      obtain ⟨h', hdef, hblock⟩ :=
        defineSeg_refused ha (AddrSpaceBlock.seg_freeSeg hfree) hnone
      refine iff_of_true ⟨⟨some .ENOMEM, [segOf h' as i], h'⟩, ?_, .inr ⟨rfl, hblock⟩⟩
        (.inl hnone)
      rw [SegCall.run, asDefineRegion_free ha hfree, hdef, segOf_eq ha,
        AddrSpaceBlock.freeSeg_eq_some hfree]
      rfl

theorem asCopy_survives_iff {old : Nat} {o : AddrSpaceBlock}
    (hold : h.block old = some (.addrspace o)) (ht : ∀ i, Typed h (o.seg i)) :
    (SegCall.asCopy old).Survives kmalloc h ↔ kmalloc h.calls = none ∨
      ∀ i, CopyGranted kmalloc h (h.calls + copyCall i) (segOf h old i) := by
  simp only [segOf_eq hold]
  by_cases hsome : (kmalloc h.calls).isSome
  · by_cases hmem : ∀ i, CopyGranted kmalloc h (h.calls + copyCall i) (o.seg i)
    · choose ps ss hp hs hseg using id hmem
      obtain ⟨h', hcopy, -, hspace⟩ := asCopy_ok hold hp hs hsome hseg
      refine iff_of_true ⟨⟨none, [segOf h' h.next .seg1, segOf h' h.next .seg2,
        segOf h' h.next .segstack], h'⟩, ?_, .inl ⟨rfl, ?_⟩⟩ (.inr hmem)
      · rw [SegCall.run, hcopy]
        rfl
      · intro seg hmem
        simp only [List.mem_cons, List.not_mem_nil, or_false] at hmem
        rcases hmem with rfl | rfl | rfl
        · exact hspace.initialised (i := .seg1) rfl fun _ => rfl
        · exact hspace.initialised (i := .seg2) rfl fun _ => rfl
        · exact hspace.initialised (i := .segstack) rfl fun _ => rfl
    · refine iff_of_false (SegCall.not_survives (e := .nullDeref) ?_) fun hs => ?_
      · rw [SegCall.run, asCopy_fails hold ht hsome hmem]
        rfl
      · exact hmem (hs.resolve_left (Option.isSome_iff_ne_none.1 hsome))
  · have hnone := Option.not_isSome_iff_eq_none.1 hsome
    refine iff_of_true ⟨⟨some .ENOMEM, [], h.refuse⟩, ?_, .inr ⟨rfl, rfl⟩⟩ (.inl hnone)
    rw [SegCall.run, asCopy_refused hnone]
    rfl

/-! ## All calls -/

/-- A call survives the refusals of `kmalloc` exactly if none of its requests is refused, apart from
    the ones whose answer is checked (the first of `as_define_region` and of `as_copy`) and from
    flags for no pages, and if there is a segment to define or to copy. -/
theorem survives_iff (c : SegCall) (hvalid : c.Valid h) :
    c.Survives kmalloc h ↔ c.Granted kmalloc h := by
  cases c with
  | segdef => exact segdef_survives_iff hvalid
  | segcopy => exact segcopy_survives_iff hvalid
  | asDefineRegion =>
    obtain ⟨a, ha⟩ := hvalid
    exact asDefineRegion_survives_iff ha
  | asDefineStack =>
    obtain ⟨a, ha⟩ := hvalid
    exact asDefineStack_survives_iff ha
  | asCopy =>
    obtain ⟨a, ha, ht⟩ := hvalid
    exact asCopy_survives_iff ha ht

/-- An address space with nothing in it. -/
def emptySpace : Heap Block :=
  Heap.alloc ⟨fun _ => none, 0, 0, fun _ _ => rfl⟩ (.addrspace ⟨none, none, none⟩)

/-- `kmalloc` refuses the call `n` only. -/
def refusing (n m : Nat) : Option (Nat → UInt8) := if m = n then none else some fun _ => 0xde

/-- A region whose segment is refused, and a stack with memory enough. -/
theorem region_and_stack_survive :
    (SegCall.asDefineRegion 0 0x400000 0x1000 0 7 4 0 1).Survives (refusing 1) emptySpace ∧
      (SegCall.asDefineStack 0).Survives (refusing 3) emptySpace :=
  ⟨(survives_iff (.asDefineRegion 0 0x400000 0x1000 0 7 4 0 1) ⟨_, rfl⟩).2 ⟨.inl rfl, .inl rfl⟩,
    (survives_iff (.asDefineStack 0) ⟨_, rfl⟩).2 ⟨rfl, .inl rfl⟩⟩

/-- Two regions and the stack are defined while there is memory. -/
def load (kmalloc : Nat → Option (Nat → UInt8)) : HeapM Unit := do
  discard (asDefineRegion kmalloc (some 0) 0x400000 0x1000 0 7 4 0 1)
  discard (asDefineRegion kmalloc (some 0) 0x10000000 0x1000 0 7 4 2 0)
  discard (asDefineStack kmalloc (some 0))

/-- Without memory for the flags of the region, or for the second segment of the copy, `NULL` is
    dereferenced; without memory for the stack segment, an assertion fails. -/
theorem refusals_stop_kernel :
    (SegCall.asDefineRegion 0 0x400000 0x1000 0 7 4 0 1).run (refusing 2) emptySpace =
        .error .nullDeref ∧
      (SegCall.asDefineStack 0).run (refusing 1) emptySpace = .error .kassert ∧
      (∃ h, load (refusing 10) emptySpace = .ok ((), h) ∧
        (SegCall.asCopy 0).run (refusing 10) h = .error .nullDeref ∧
        ¬ (SegCall.asCopy 0).Survives (refusing 10) h) ∧
      ¬ (SegCall.asDefineRegion 0 0x400000 0x1000 0 7 4 0 1).Survives (refusing 2) emptySpace ∧
      ¬ (SegCall.asDefineStack 0).Survives (refusing 1) emptySpace :=
  ⟨rfl, rfl, ⟨_, rfl, rfl, SegCall.not_survives rfl⟩, SegCall.not_survives rfl,
    SegCall.not_survives rfl⟩

end DemandPaging.Kmalloc
