import DemandPaging.Fault.ElfImage

set_option autoImplicit false

/-! # The pages of an address space

`loadedelf` is indexed by segment and page number, the page table and the swap map by address. The
two agree as long as no address belongs to two segments: then `vm_fault` finds a page in the
segment it lies in, or does not find it at all (a segment that runs over the end of the address
space fails its own range test). -/

namespace DemandPaging

/-- The address of page `k` of a segment. -/
def Segment.pageAddr (s : Segment) (k : Nat) : VAddr := s.startaddr + UInt32.ofNat k * PAGE_SIZE32

namespace AddrSpace

variable (as : AddrSpace)

/-- No address belongs to two segments. -/
def Disjoint : Prop :=
  ∀ i j s t k l, as.seg i = some s → as.seg j = some t → k < s.numpages.toNat →
    l < t.numpages.toNat → s.pageAddr k = t.pageAddr l → i = j

/-- Segments as `as_define_region` and `as_define_stack` make them, without overlaps. -/
structure Paged : Prop where
  aligned : ∀ i s, as.seg i = some s → pageOf s.startaddr = s.startaddr
  small : ∀ i s, as.seg i = some s → s.numpages.toNat < 2 ^ 20
  stack : ∀ s, as.segstack = some s → s.startaddr = stackbase ∧ s.numpages = STACKPAGES
  disjoint : as.Disjoint

/-- Only pages that `vm_fault` finds have been loaded. -/
def Marked : Prop :=
  ∀ i s k, as.seg i = some s → k < s.numpages.toNat → s.loadedelf k ≠ 0 →
    as.locate (s.pageAddr k) = some ⟨s.pageAddr k, i, k⟩

end AddrSpace

/-! ## Page addresses -/

theorem pageOf_of_toNat_mod {v : VAddr} (h : v.toNat % 4096 = 0) : pageOf v = v := by
  have hmask : PAGE_FRAME.toNat = (2 ^ 20 - 1) <<< 12 := by decide
  have hv : v.toNat = (v.toNat / 4096) <<< 12 := by
    rw [Nat.shiftLeft_eq]
    omega
  have hlt : v.toNat / 4096 < 2 ^ 20 := by
    have := v.toNat_lt
    omega
  apply UInt32.toNat_inj.1
  rw [pageOf, UInt32.toNat_and, hmask]
  calc v.toNat &&& (2 ^ 20 - 1) <<< 12
      = (v.toNat / 4096 &&& (2 ^ 20 - 1)) <<< 12 := by rw [Nat.shiftLeft_and_distrib, ← hv]
    _ = (v.toNat / 4096) <<< 12 := by
        rw [Nat.and_two_pow_sub_one_eq_mod, Nat.mod_eq_of_lt hlt]
    _ = v.toNat := hv.symm

variable {s : Segment} {v : VAddr} {k l : Nat}

theorem pageAddr_toNat (s : Segment) (k : Nat) :
    (s.pageAddr k).toNat = (s.startaddr.toNat + k * 4096) % 2 ^ 32 := by
  have hpage : (PAGE_SIZE32).toNat = 4096 := rfl
  unfold Segment.pageAddr
  rw [UInt32.toNat_add, UInt32.toNat_mul, UInt32.toNat_ofNat', hpage]
  omega

theorem pageOf_pageAddr (hs : pageOf s.startaddr = s.startaddr) (k : Nat) :
    pageOf (s.pageAddr k) = s.pageAddr k := by
  have := toNat_mod_of_pageOf hs
  apply pageOf_of_toNat_mod
  rw [pageAddr_toNat]
  omega

theorem pageAddr_inj (hk : k < 2 ^ 20) (hl : l < 2 ^ 20) (h : s.pageAddr k = s.pageAddr l) :
    k = l := by
  have := congrArg UInt32.toNat h
  rw [pageAddr_toNat, pageAddr_toNat] at this
  omega

/-- The index `vm_fault` computes is that of the page. -/
theorem pageAddr_index (hs : pageOf s.startaddr = s.startaddr) (hv : pageOf v = v)
    (hle : s.startaddr ≤ v) : s.pageAddr ((v - s.startaddr) / PAGE_SIZE32).toNat = v := by
  have h1 := toNat_mod_of_pageOf hs
  have h2 := toNat_mod_of_pageOf hv
  have h3 : (PAGE_SIZE32).toNat = 4096 := rfl
  have h4 : s.startaddr.toNat ≤ v.toNat := hle
  have h5 := v.toNat_lt
  have hind : ((v - s.startaddr) / PAGE_SIZE32).toNat = (v.toNat - s.startaddr.toNat) / 4096 := by
    rw [UInt32.toNat_div, UInt32.toNat_sub_of_le _ _ hle, h3]
  apply UInt32.toNat_inj.1
  rw [hind, pageAddr_toNat]
  omega

theorem index_lt (hle : s.startaddr ≤ v) (hlt : v < s.top) (hsmall : s.numpages.toNat < 2 ^ 20) :
    ((v - s.startaddr) / PAGE_SIZE32).toNat < s.numpages.toNat := by
  have h3 : (PAGE_SIZE32).toNat = 4096 := rfl
  have h4 : s.startaddr.toNat ≤ v.toNat := hle
  have h5 : v.toNat < s.top.toNat := hlt
  have h6 := v.toNat_lt
  rw [Segment.top, UInt32.toNat_add, UInt32.toNat_mul, h3] at h5
  rw [UInt32.toNat_div, UInt32.toNat_sub_of_le _ _ hle, h3]
  omega

/-- Segments that lie behind each other, below the end of the address space, are disjoint. -/
theorem AddrSpace.disjoint_of_ordered {as : AddrSpace} {s1 s2 st : Segment}
    (h1 : as.seg1 = some s1) (h2 : as.seg2 = some s2) (hst : as.segstack = some st)
    (h12 : s1.startaddr.toNat + s1.numpages.toNat * 4096 ≤ s2.startaddr.toNat)
    (h2t : s2.startaddr.toNat + s2.numpages.toNat * 4096 ≤ st.startaddr.toNat)
    (htop : st.startaddr.toNat + st.numpages.toNat * 4096 ≤ 2 ^ 32) : as.Disjoint := by
  intro i j s t k l hi hj hk hl heq
  have haddr := congrArg UInt32.toNat heq
  rw [pageAddr_toNat, pageAddr_toNat] at haddr
  cases i <;> cases j <;> simp only [AddrSpace.seg, h1, h2, hst, Option.some.injEq] at hi hj <;>
    first | rfl | (subst hi hj; omega)

/-! ## Where `vm_fault` finds a page -/

variable {as as' : AddrSpace} {c : FaultCtx} {i : SegId}

/-- A located page is a page of its segment. -/
theorem AddrSpace.Paged.located (h : as.Paged) (hv : pageOf v = v) (hloc : as.locate v = some c) :
    ∃ t, as.seg c.seg = some t ∧ c.ind < t.numpages.toNat ∧ t.pageAddr c.ind = v := by
  obtain ⟨-, -, s1, s2, st, h1, h2, h3, hsel⟩ := locate_some hloc
  obtain ⟨fa, seg, ind⟩ := c
  unfold selectSegment at hsel
  split_ifs at hsel with hr1 hr2 hr3
  · cases hsel
    have hal := h.aligned .seg1 s1 h1
    exact ⟨s1, h1, index_lt hr1.1 hr1.2 (h.small .seg1 s1 h1), pageAddr_index hal hv hr1.1⟩
  · cases hsel
    have hal := h.aligned .seg2 s2 h2
    exact ⟨s2, h2, index_lt hr2.1 hr2.2 (h.small .seg2 s2 h2), pageAddr_index hal hv hr2.1⟩
  · cases hsel
    obtain ⟨hbase, hpages⟩ := h.stack st h3
    have hle : st.startaddr ≤ v := hbase ▸ hr3.1
    have hlt : v < st.top := by
      rw [Segment.top, hbase, hpages]
      exact hr3.2
    have hind := index_lt hle hlt (h.small .segstack st h3)
    have haddr := pageAddr_index (h.aligned .segstack st h3) hv hle
    rw [hbase] at hind haddr
    exact ⟨st, h3, hind, haddr⟩

/-- A page of a segment is found there or not at all. -/
theorem AddrSpace.Paged.locate_page (h : as.Paged) (hs : as.seg i = some s)
    (hk : k < s.numpages.toNat) :
    as.locate (s.pageAddr k) = some ⟨s.pageAddr k, i, k⟩ ∨ as.locate (s.pageAddr k) = none := by
  cases hloc : as.locate (s.pageAddr k) with
  | none => exact .inr rfl
  | some c =>
    have hpage := pageOf_pageAddr (h.aligned i s hs) k
    obtain ⟨t, ht, hind, haddr⟩ := h.located hpage hloc
    have hsmall := h.small i s hs
    obtain ⟨fa, seg, ind⟩ := c
    have hfa : fa = s.pageAddr k := (locate_some hloc).1
    obtain rfl : seg = i := h.disjoint _ _ _ _ _ _ ht hs hind hk haddr
    obtain rfl : t = s := Option.some.inj (ht.symm.trans hs)
    obtain rfl : ind = k := pageAddr_inj (hind.trans hsmall) (hk.trans hsmall) haddr
    exact .inl (by rw [hfa])

/-! ## Loading keeps the layout -/

theorem seg_unloaded (as : AddrSpace) (i : SegId) : as.unloaded.seg i = (as.seg i).map segcopy := by
  cases i <;> rfl

/-- The layout of an address space is that of its unloaded copy. -/
theorem AddrSpace.Paged.congr (h : as.Paged) (heq : as'.unloaded = as.unloaded) : as'.Paged := by
  have hseg : ∀ i s', as'.seg i = some s' → ∃ s, as.seg i = some s ∧ segcopy s = segcopy s' := by
    intro i s' hs'
    have hcopy : (as.seg i).map segcopy = some (segcopy s') := by
      rw [← seg_unloaded, ← heq, seg_unloaded, hs', Option.map_some]
    exact Option.map_eq_some_iff.1 hcopy
  have hstart : ∀ {s s' : Segment}, segcopy s = segcopy s' → s'.startaddr = s.startaddr :=
    fun hcopy => (congrArg Segment.startaddr hcopy).symm
  have hpages : ∀ {s s' : Segment}, segcopy s = segcopy s' → s'.numpages = s.numpages :=
    fun hcopy => (congrArg Segment.numpages hcopy).symm
  constructor
  · intro i s' hs'
    obtain ⟨s, hs, hcopy⟩ := hseg i s' hs'
    rw [hstart hcopy]
    exact h.aligned i s hs
  · intro i s' hs'
    obtain ⟨s, hs, hcopy⟩ := hseg i s' hs'
    rw [hpages hcopy]
    exact h.small i s hs
  · intro s' hs'
    obtain ⟨s, hs, hcopy⟩ := hseg .segstack s' hs'
    rw [hstart hcopy, hpages hcopy]
    exact h.stack s hs
  · intro i j s' t' k l hs' ht' hk hl haddr
    obtain ⟨s, hs, hcs⟩ := hseg i s' hs'
    obtain ⟨t, ht, hct⟩ := hseg j t' ht'
    rw [hpages hcs] at hk
    rw [hpages hct] at hl
    rw [Segment.pageAddr, Segment.pageAddr, hstart hcs, hstart hct] at haddr
    exact h.disjoint i j s t k l hs ht hk hl haddr

theorem unloaded_marked (as : AddrSpace) : as.unloaded.Marked := by
  intro i s k hs _ hflag
  rw [seg_unloaded] at hs
  obtain ⟨t, -, rfl⟩ := Option.map_eq_some_iff.1 hs
  exact absurd rfl hflag

theorem AddrSpace.Marked.setLoaded (h : as.Marked) (hp : as.Paged) (hv : pageOf v = v)
    (hloc : as.locate v = some c) : (as.setLoaded c).Marked := by
  obtain ⟨t, ht, -, haddr⟩ := hp.located hv hloc
  have hfa := (locate_some hloc).1
  intro i s k hs hk hflag
  rw [locate_setLoaded]
  rw [AddrSpace.setLoaded, ht] at hs
  simp only [seg_setSeg] at hs
  split_ifs at hs with hi
  · subst hi
    cases hs
    by_cases hkc : k = c.ind
    · subst hkc
      have hsame : t.pageAddr c.ind = c.fa := haddr.trans hfa.symm
      change as.locate (t.pageAddr c.ind) = some ⟨t.pageAddr c.ind, c.seg, c.ind⟩
      rw [hsame, hfa, hloc, ← hfa]
    · have hold : t.loadedelf k ≠ 0 := by simpa [Function.update_of_ne hkc] using hflag
      exact h c.seg t k ht hk hold
  · exact h i s k hs hk hflag

/-! ## The layout of a program -/

theorem regionPages_lt (vaddr memsize : UInt32) : (regionPages vaddr memsize).toNat < 2 ^ 20 := by
  have hpage : (PAGE_SIZE32).toNat = 4096 := rfl
  unfold regionPages
  rw [UInt32.toNat_div, hpage]
  have := (((memsize + (vaddr &&& ~~~PAGE_FRAME)) + PAGE_SIZE32 - 1) &&& PAGE_FRAME).toNat_lt
  omega

theorem runprogram_paged {file : List UInt8} {vnode : Nat} (h : runprogram file vnode = .ok as)
    (hd : as.Disjoint) : as.Paged := by
  have hstack : ∀ s, as.segstack = some s →
      s = segdef stackbase STACKPAGES 0 none true RDFLAG WRFLAG 0 := by
    intro s hs
    rw [runprogram_ok h] at hs
    exact (Option.some.inj hs).symm
  have hprog : ∀ (s : Segment) (k : Nat), ((loadHeaders file).map (·.segment vnode))[k]? = some s →
      pageOf s.startaddr = s.startaddr ∧ s.numpages.toNat < 2 ^ 20 := by
    intro s k hs
    obtain ⟨ph, -, rfl⟩ := List.mem_map.1 (List.mem_of_getElem? hs)
    exact ⟨pageOf_pageOf ph.p_vaddr, regionPages_lt ph.p_vaddr ph.p_memsz⟩
  have hall : ∀ i s, as.seg i = some s →
      pageOf s.startaddr = s.startaddr ∧ s.numpages.toNat < 2 ^ 20 := by
    intro i s hs
    cases i with
    | seg1 => rw [runprogram_ok h] at hs; exact hprog s 0 hs
    | seg2 => rw [runprogram_ok h] at hs; exact hprog s 1 hs
    | segstack => rw [hstack s hs]; exact ⟨by decide, by decide⟩
  refine ⟨fun i s hs => (hall i s hs).1, fun i s hs => (hall i s hs).2, fun s hs => ?_, hd⟩
  rw [hstack s hs]
  exact ⟨rfl, rfl⟩

end DemandPaging
