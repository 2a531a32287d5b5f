import DemandPaging.Fault

set_option autoImplicit false

/-! # The load flags of an address space

`vm_fault` finds a page through `locate` and marks it through `setLoaded`. Marking keeps the layout
and sets the flag of exactly one page. -/

namespace DemandPaging

variable {as : AddrSpace} {v : VAddr} {c : FaultCtx}

/-- A located page carries its address and lies in an existing segment. -/
theorem locate_some (h : as.locate v = some c) :
    c.fa = v ∧ (as.seg c.seg).isSome ∧ ∃ s1 s2 st, as.seg1 = some s1 ∧ as.seg2 = some s2 ∧
      as.segstack = some st ∧ selectSegment s1 s2 v = some (c.seg, c.ind) := by
  obtain ⟨o1, o2, ost⟩ := as
  cases o1 with
  | none => simp [AddrSpace.locate] at h
  | some s1 =>
    cases o2 with
    | none => simp [AddrSpace.locate] at h
    | some s2 =>
      cases ost with
      | none => simp [AddrSpace.locate] at h
      | some st =>
        simp only [AddrSpace.locate, Option.map_eq_some_iff] at h
        obtain ⟨⟨seg, ind⟩, hsel, rfl⟩ := h
        refine ⟨rfl, ?_, s1, s2, st, rfl, rfl, rfl, hsel⟩
        cases seg <;> rfl

theorem seg_setSeg (i j : SegId) (s : Segment) :
    (as.setSeg i s).seg j = if j = i then some s else as.seg j := by
  cases i <;> cases j <;> rfl

/-- Marking a page changes no layout. -/
theorem locate_setLoaded (c : FaultCtx) (v : VAddr) :
    (as.setLoaded c).locate v = as.locate v := by
  obtain ⟨o1, o2, ost⟩ := as
  obtain ⟨fa, seg, ind⟩ := c
  cases seg with
  | seg1 | seg2 | segstack => cases o1 <;> cases o2 <;> cases ost <;> rfl

theorem flag_setLoaded (hseg : (as.seg c.seg).isSome) (d : FaultCtx) :
    (as.setLoaded c).flag d = if d.seg = c.seg ∧ d.ind = c.ind then 1 else as.flag d := by
  obtain ⟨s, hs⟩ := Option.isSome_iff_exists.1 hseg
  unfold AddrSpace.setLoaded AddrSpace.flag
  simp only [hs, seg_setSeg]
  by_cases hd : d.seg = c.seg
  · by_cases hi : d.ind = c.ind
    · simp [hd, hi]
    · simp [hd, hi, hs]
  · simp [hd]

theorem AddrSpace.Binary.setLoaded (h : as.Binary) (hloc : as.locate v = some c) :
    (as.setLoaded c).Binary := by
  intro d
  rw [flag_setLoaded (locate_some hloc).2.1]
  split
  · exact .inr rfl
  · exact h d

theorem loadedAt_setLoaded (hloc : as.locate v = some c) : (as.setLoaded c).LoadedAt v := by
  refine ⟨c, by rw [locate_setLoaded]; exact hloc, ?_⟩
  rw [flag_setLoaded (locate_some hloc).2.1, if_pos ⟨rfl, rfl⟩]

theorem AddrSpace.LoadedAt.setLoaded {w : VAddr} (h : as.LoadedAt w) (hloc : as.locate v = some c) :
    (as.setLoaded c).LoadedAt w := by
  obtain ⟨d, hd, hf⟩ := h
  refine ⟨d, by rw [locate_setLoaded]; exact hd, ?_⟩
  rw [flag_setLoaded (locate_some hloc).2.1, hf, ite_self]

theorem loadedAt_iff (hloc : as.locate v = some c) : as.LoadedAt v ↔ as.flag c = 1 := by
  constructor
  · rintro ⟨d, hd, hf⟩
    rw [hloc] at hd
    cases hd
    exact hf
  · intro hf
    exact ⟨c, hloc, hf⟩

theorem unloaded_flag (layout : AddrSpace) (c : FaultCtx) : layout.unloaded.flag c = 0 := by
  obtain ⟨o1, o2, ost⟩ := layout
  obtain ⟨fa, seg, ind⟩ := c
  cases seg with
  | seg1 => cases o1 <;> rfl
  | seg2 => cases o2 <;> rfl
  | segstack => cases ost <;> rfl

theorem unloaded_binary (layout : AddrSpace) : layout.unloaded.Binary :=
  fun c => .inl (unloaded_flag layout c)

/-! ## Copies of the layout

`as_copy` copies everything but the load flags, so a copy finds the same pages in the same file. -/

theorem asCopy_ok {as' : AddrSpace} (h : asCopy as = .ok as') : as' = as.unloaded := by
  obtain ⟨o1, o2, ost⟩ := as
  cases o1 <;> cases o2 <;> cases ost <;> cases h
  rfl

theorem unloaded_unloaded (as : AddrSpace) : as.unloaded.unloaded = as.unloaded := by
  obtain ⟨o1, o2, ost⟩ := as
  cases o1 <;> cases o2 <;> cases ost <;> rfl

theorem checked_unloaded (as : AddrSpace) : as.unloaded.checked.isOk = as.checked.isOk := by
  obtain ⟨o1, o2, ost⟩ := as
  cases o1 with
  | none => rfl
  | some s1 =>
    cases o2 with
    | none => rfl
    | some s2 =>
      cases ost with
      | none => rfl
      | some st =>
        by_cases hne : s1.numpages ≠ 0 ∧ s2.numpages ≠ 0 ∧ st.numpages ≠ 0 <;>
          simp [AddrSpace.checked, AddrSpace.unloaded, segcopy, hne, Except.isOk,
            Except.toBool]

theorem stackseg_unloaded (as : AddrSpace) (c : FaultCtx) :
    as.unloaded.stackseg c = as.stackseg c := by
  obtain ⟨o1, o2, ost⟩ := as
  obtain ⟨fa, seg, ind⟩ := c
  cases seg with
  | seg1 => cases o1 <;> rfl
  | seg2 => cases o2 <;> rfl
  | segstack => cases ost <;> rfl

theorem elfSource_unloaded (as : AddrSpace) (v : VAddr) :
    elfSource as.unloaded v = elfSource as v := by
  obtain ⟨o1, o2, ost⟩ := as
  cases o1 with
  | none => rfl
  | some s1 =>
    cases o2 with
    | none => rfl
    | some s2 =>
      cases ost with
      | none => rfl
      | some st =>
        have hseg : elfSegment (segcopy s1) (segcopy s2) (segcopy st) v
            = (elfSegment s1 s2 st v).map segcopy := by
          unfold elfSegment segcopy
          dsimp only
          split_ifs <;> rfl
        simp only [elfSource, AddrSpace.unloaded, Option.map_some, hseg]
        cases elfSegment s1 s2 st v <;> rfl

/-! Marking a page changes nothing but the flags, which the copy drops. -/

theorem unloaded_setLoaded (as : AddrSpace) (c : FaultCtx) :
    (as.setLoaded c).unloaded = as.unloaded := by
  obtain ⟨o1, o2, ost⟩ := as
  obtain ⟨fa, seg, ind⟩ := c
  cases seg with
  | seg1 => cases o1 <;> rfl
  | seg2 => cases o2 <;> rfl
  | segstack => cases ost <;> rfl

theorem stackseg_setLoaded (c d : FaultCtx) : (as.setLoaded c).stackseg d = as.stackseg d := by
  rw [← stackseg_unloaded, unloaded_setLoaded, stackseg_unloaded]

theorem checked_setLoaded (c : FaultCtx) : (as.setLoaded c).checked.isOk = as.checked.isOk := by
  rw [← checked_unloaded, unloaded_setLoaded, checked_unloaded]

theorem elfSource_setLoaded (c : FaultCtx) (v : VAddr) :
    elfSource (as.setLoaded c) v = elfSource as v := by
  rw [← elfSource_unloaded, unloaded_setLoaded, elfSource_unloaded]

/-! ## Two pages never share a flag

Page addresses are multiples of the page size, whatever the start of the segment is. -/

theorem pageOf_pageOf (v : VAddr) : pageOf (pageOf v) = pageOf v := by
  unfold pageOf
  rw [UInt32.and_assoc, UInt32.and_self]

theorem toNat_mod_of_pageOf (h : pageOf v = v) : v.toNat % 4096 = 0 := by
  have hand : v.toNat &&& 0xfffff000 = v.toNat := by
    have := congrArg UInt32.toNat h
    simpa [pageOf, PAGE_FRAME, UInt32.toNat_and] using this
  have hlow : v.toNat % 2 ^ 12 = (v.toNat &&& 0xfffff000) % 2 ^ 12 := by rw [hand]
  rw [Nat.and_mod_two_pow] at hlow
  simpa using hlow

/-- The page index determines the page. -/
theorem page_index_inj {w s : VAddr} (hv : pageOf v = v) (hw : pageOf w = w) (hsv : s ≤ v)
    (hsw : s ≤ w) (h : ((v - s) / PAGE_SIZE32).toNat = ((w - s) / PAGE_SIZE32).toNat) : v = w := by
  have h1 := toNat_mod_of_pageOf hv
  have h2 := toNat_mod_of_pageOf hw
  have h3 : (PAGE_SIZE32).toNat = 4096 := rfl
  rw [UInt32.toNat_div, UInt32.toNat_div, UInt32.toNat_sub_of_le _ _ hsv,
    UInt32.toNat_sub_of_le _ _ hsw, h3] at h
  have h4 : s.toNat ≤ v.toNat := hsv
  have h5 : s.toNat ≤ w.toNat := hsw
  exact UInt32.toNat_inj.1 (by omega)

theorem selectSegment_inj {s1 s2 : Segment} {w : VAddr} {r : SegId × Nat} (hv : pageOf v = v)
    (hw : pageOf w = w) (h1 : selectSegment s1 s2 v = some r)
    (h2 : selectSegment s1 s2 w = some r) : v = w := by
  unfold selectSegment at h1 h2
  split_ifs at h1 h2 <;> simp only [Option.some.injEq] at h1 h2 <;> subst h1 <;>
    simp only [Prod.mk.injEq, reduceCtorEq, false_and, true_and] at h2
  all_goals exact page_index_inj hv hw (by tauto) (by tauto) h2.symm

/-- Different pages have different flags. -/
theorem locate_inj {w : VAddr} {d : FaultCtx} (hloc : as.locate v = some c)
    (hd : as.locate w = some d) (hv : pageOf v = v) (hw : pageOf w = w)
    (hsame : d.seg = c.seg ∧ d.ind = c.ind) : w = v := by
  obtain ⟨-, -, s1, s2, st, h1, h2, -, hsel⟩ := locate_some hloc
  obtain ⟨-, -, t1, t2, tt, g1, g2, -, gsel⟩ := locate_some hd
  rw [h1] at g1
  rw [h2] at g2
  cases g1
  cases g2
  rw [hsame.1, hsame.2] at gsel
  exact selectSegment_inj hw hv gsel hsel

/-- Marking one page does not mark another one. -/
theorem loadedAt_of_setLoaded {w : VAddr} (h : (as.setLoaded c).LoadedAt w)
    (hloc : as.locate v = some c) (hv : pageOf v = v) (hw : pageOf w = w) :
    as.LoadedAt w ∨ w = v := by
  obtain ⟨d, hd, hf⟩ := h
  rw [locate_setLoaded] at hd
  rw [flag_setLoaded (locate_some hloc).2.1] at hf
  by_cases hsame : d.seg = c.seg ∧ d.ind = c.ind
  · exact .inr (locate_inj hloc hd hv hw hsame)
  · rw [if_neg hsame] at hf
    exact .inl ⟨d, hd, hf⟩

end DemandPaging
