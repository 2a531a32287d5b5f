import DemandPaging.Fault.Layout

set_option autoImplicit false

/-! # Two range tests for one segment

`vm_fault` takes the first segment whose range contains the address, without its end.
`readfromelfto` then looks for the segment again, with its end. So an address at which a segment
ends and another one begins belongs to the second for `vm_fault` and to the first for
`readfromelfto`. -/

namespace DemandPaging

/-- The segment ends where the address lies, as far as `readfromelfto` can tell. -/
def Segment.EndsAt (s : Segment) (v : VAddr) : Prop := s.startaddr ≤ v ∧ v = s.top

/-- The segment contains the address or ends there: the test of `readfromelfto`. -/
def Segment.Reaches (s : Segment) (v : VAddr) : Prop := s.startaddr ≤ v ∧ v ≤ s.top

instance (s : Segment) (v : VAddr) : Decidable (s.Reaches v) := inferInstanceAs (Decidable (_ ∧ _))

variable {s s1 s2 st : Segment} {v : VAddr} {as : AddrSpace} {c : FaultCtx}

theorem Segment.reaches_iff :
    s.Reaches v ↔ s.startaddr ≤ v ∧ v ≤ s.numpages * PAGE_SIZE32 + s.startaddr := by
  rw [Segment.Reaches, Segment.top, UInt32.add_comm]

/-- Outside its range for `vm_fault`, a segment is chosen only at its end. -/
theorem Segment.endsAt_of_reaches (h : s.Reaches v) (hout : ¬ (s.startaddr ≤ v ∧ v < s.top)) :
    s.EndsAt v :=
  ⟨h.1, UInt32.le_antisymm h.2 (UInt32.not_lt.1 fun hlt => hout ⟨h.1, hlt⟩)⟩

theorem Segment.EndsAt.reaches (h : s.EndsAt v) : s.Reaches v :=
  ⟨h.1, h.2 ▸ UInt32.le_refl _⟩

/-- `readfromelfto` finds the segment `vm_fault` has chosen, and the place in the file that belongs
    to the address. -/
def ReadsSegment (as : AddrSpace) (v : VAddr) (i : SegId) : Prop :=
  ∃ s1 s2 st s, as.seg1 = some s1 ∧ as.seg2 = some s2 ∧ as.segstack = some st ∧ as.seg i = some s ∧
    elfSegment s1 s2 st v = some s ∧ s.fileOffset v = s.elfoffset + (v - s.startaddr).toNat

/-- No segment before the chosen one ends at the address. The bounds of the stack, which `vm_fault`
    does not read from its segment, are what the segment says. -/
def NoEarlierEnd (as : AddrSpace) (v : VAddr) : SegId → Prop
  | .seg1 => True
  | .seg2 => ∀ s, as.seg1 = some s → ¬ s.EndsAt v
  | .segstack => (∀ s, as.seg1 = some s ∨ as.seg2 = some s → ¬ s.EndsAt v) ∧
      ∀ s, as.segstack = some s → s.Reaches v

/-- Segments without a common page are not the same. -/
theorem AddrSpace.Disjoint.seg_ne {i j : SegId} (h : as.Disjoint) (hi : as.seg i = some s)
    (hs : s.numpages ≠ 0) (hij : i ≠ j) : some s ≠ as.seg j := by
  intro hj
  have hpos : 0 < s.numpages.toNat := Nat.pos_of_ne_zero fun h0 => hs (UInt32.toNat_inj.1 h0)
  exact hij (h i j s s 0 0 hi hj.symm hpos hpos rfl)

theorem checked_ok {s1 s2 st : Segment} (h : as.checked = .ok (s1, s2, st)) :
    as.seg1 = some s1 ∧ as.seg2 = some s2 ∧ as.segstack = some st ∧
      s1.numpages ≠ 0 ∧ s2.numpages ≠ 0 ∧ st.numpages ≠ 0 := by
  obtain ⟨o1, o2, ost⟩ := as
  unfold AddrSpace.checked at h
  split at h
  next h1 h2 hst =>
    split at h
    next hne => cases h; exact ⟨h1, h2, hst, hne⟩
    next => cases h
  next => cases h

/-- The segment `vm_fault` chooses, case by case. -/
theorem selectSegment_cases {i : SegId} {ind : Nat} (h : selectSegment s1 s2 v = some (i, ind)) :
    (i = .seg1 ∧ s1.startaddr ≤ v ∧ v < s1.top) ∨
      ¬ (s1.startaddr ≤ v ∧ v < s1.top) ∧
        ((i = .seg2 ∧ s2.startaddr ≤ v ∧ v < s2.top) ∨
          ¬ (s2.startaddr ≤ v ∧ v < s2.top) ∧ i = .segstack) := by
  unfold selectSegment at h
  split at h
  next h1 => cases h; exact .inl ⟨rfl, h1⟩
  next h1 =>
    refine .inr ⟨h1, ?_⟩
    split at h
    next h2 => cases h; exact .inl ⟨rfl, h2⟩
    next h2 =>
      split at h
      · cases h; exact .inr ⟨h2, rfl⟩
      · cases h

theorem elfSegment_eq (s1 s2 st : Segment) (v : VAddr) :
    elfSegment s1 s2 st v = if s1.Reaches v then some s1 else if s2.Reaches v then some s2
      else if st.Reaches v then some st else none := by
  simp only [elfSegment, Segment.reaches_iff]

theorem readsSegment_eq (h1 : as.seg1 = some s1) (h2 : as.seg2 = some s2)
    (hst : as.segstack = some st) (i : SegId) :
    ReadsSegment as v i ↔ elfSegment s1 s2 st v = as.seg i := by
  constructor
  · rintro ⟨t1, t2, tt, t, ht1, ht2, htt, hi, helf, -⟩
    obtain rfl : s1 = t1 := Option.some.inj (h1.symm.trans ht1)
    obtain rfl : s2 = t2 := Option.some.inj (h2.symm.trans ht2)
    obtain rfl : st = tt := Option.some.inj (hst.symm.trans htt)
    exact helf.trans hi.symm
  · intro helf
    obtain ⟨t, ht⟩ : ∃ t, as.seg i = some t := by
      cases i with
      | seg1 => exact ⟨s1, h1⟩
      | seg2 => exact ⟨s2, h2⟩
      | segstack => exact ⟨st, hst⟩
    exact ⟨s1, s2, st, t, h1, h2, hst, ht, helf.trans ht, Nat.add_comm _ _⟩

/-- The segment that is read from is the one that was chosen exactly if no segment before it ends
    at the address. -/
theorem readsSegment_iff (hchk : as.checked = .ok (s1, s2, st)) (hd : as.Disjoint)
    (hloc : as.locate v = some c) : ReadsSegment as v c.seg ↔ NoEarlierEnd as v c.seg := by
  obtain ⟨h1, h2, hst, hne1, hne2, -⟩ := checked_ok hchk
  obtain ⟨-, -, t1, t2, tt, ht1, ht2, -, hsel⟩ := locate_some hloc
  obtain rfl : s1 = t1 := Option.some.inj (h1.symm.trans ht1)
  obtain rfl : s2 = t2 := Option.some.inj (h2.symm.trans ht2)
  rw [readsSegment_eq h1 h2 hst, elfSegment_eq]
  rcases selectSegment_cases hsel with ⟨hi, hin⟩ | ⟨hout1, hrest⟩
  · have hr1 : s1.Reaches v := ⟨hin.1, UInt32.le_of_lt hin.2⟩
    rw [hi, if_pos hr1]
    exact ⟨fun _ => trivial, fun _ => h1.symm⟩
  · by_cases hr1 : s1.Reaches v
    · -- the first segment ends here, and is read instead
      have hend := s1.endsAt_of_reaches hr1 hout1
      rw [if_pos hr1]
      rcases hrest with ⟨hi, -⟩ | ⟨-, hi⟩ <;> rw [hi]
      · exact ⟨fun heq => absurd heq (hd.seg_ne (i := .seg1) h1 hne1 (by decide)),
          fun hno => absurd hend (hno s1 h1)⟩
      · exact ⟨fun heq => absurd heq (hd.seg_ne (i := .seg1) h1 hne1 (by decide)),
          fun hno => absurd hend (hno.1 s1 (.inl h1))⟩
    · have hno1 : ∀ s, as.seg1 = some s → ¬ s.EndsAt v := fun s hs hend =>
        hr1 (Option.some.inj (hs.symm.trans h1) ▸ hend.reaches)
      rw [if_neg hr1]
      rcases hrest with ⟨hi, hin⟩ | ⟨hout2, hi⟩ <;> rw [hi]
      · have hr2 : s2.Reaches v := ⟨hin.1, UInt32.le_of_lt hin.2⟩
        rw [if_pos hr2]
        exact ⟨fun _ => hno1, fun _ => h2.symm⟩
      · by_cases hr2 : s2.Reaches v
        · have hend := s2.endsAt_of_reaches hr2 hout2
          rw [if_pos hr2]
          exact ⟨fun heq => absurd heq (hd.seg_ne (i := .seg2) h2 hne2 (by decide)),
            fun hno => absurd hend (hno.1 s2 (.inr h2))⟩
        · have hno2 : ∀ s, as.seg2 = some s → ¬ s.EndsAt v := fun s hs hend =>
            hr2 (Option.some.inj (hs.symm.trans h2) ▸ hend.reaches)
          have hseg : as.seg .segstack = some st := hst
          rw [if_neg hr2, hseg]
          constructor
          · intro heq
            refine ⟨fun s hs => hs.elim (hno1 s) (hno2 s), fun s hs => ?_⟩
            obtain rfl : s = st := Option.some.inj (hs.symm.trans hst)
            by_contra hr
            rw [if_neg hr] at heq
            cases heq
          · intro hno
            exact if_pos (hno.2 st hst)

/-- A page of code with a page of data right behind it. -/
def touchingSpace : AddrSpace where
  seg1 := some (segdef 0x400000 1 0x1000 (some 0) false RDFLAG 0 EXFLAG)
  seg2 := some (segdef 0x401000 1 0x2000 (some 0) false RDFLAG WRFLAG 0)
  segstack := some (segdef stackbase STACKPAGES 0 none true RDFLAG WRFLAG 0)

theorem touchingSpace_disjoint : touchingSpace.Disjoint :=
  AddrSpace.disjoint_of_ordered rfl rfl rfl (by decide) (by decide) (by decide)

/-- The page of the code is read from the code. -/
theorem touching_code_read : touchingSpace.locate 0x400000 = some ⟨0x400000, .seg1, 0⟩ ∧
    ReadsSegment touchingSpace 0x400000 .seg1 :=
  ⟨by decide, (readsSegment_iff (c := ⟨0x400000, .seg1, 0⟩) rfl touchingSpace_disjoint
    (by decide)).2 trivial⟩

/-- The page of the data is chosen in the data and read from the end of the code: with the two
    regions an executable can ask for, with one page each. -/
theorem touching_data_misread :
    (∃ as, asDefineRegion asCreate 0x400000 0x1000 0x1000 0 RDFLAG 0 EXFLAG = .ok as ∧
      ∃ as', asDefineRegion as 0x401000 0x1000 0x2000 0 RDFLAG WRFLAG 0 = .ok as' ∧
        (asDefineStack as').1 = touchingSpace) ∧
      touchingSpace.Disjoint ∧ touchingSpace.locate 0x401000 = some ⟨0x401000, .seg2, 0⟩ ∧
      ¬ ReadsSegment touchingSpace 0x401000 .seg2 := by
  refine ⟨⟨_, rfl, _, rfl, rfl⟩, touchingSpace_disjoint, by decide, fun h => ?_⟩
  obtain ⟨s1, s2, st, s, h1, h2, hst, hs, helf, -⟩ := h
  cases h1
  cases h2
  cases hst
  cases hs
  have hstart := congrArg (Option.map Segment.startaddr) helf
  revert hstart
  decide

end DemandPaging
