import DemandPaging.Fault.Segments

set_option autoImplicit false

/-! # What `as_define_region` defines

The region a program header asks for is turned into whole pages in 32-bit arithmetic, and is not
compared with anything: not with the end of the address space, not with the end of user space, and
not with the stack. -/

namespace DemandPaging

/-- Address `x` lies in the segment, in exact arithmetic. -/
def Segment.Holds (s : Segment) (x : Nat) : Prop :=
  s.startaddr.toNat ≤ x ∧ x < s.startaddr.toNat + s.numpages.toNat * 4096

/-- Page number `p` has an address of the region from `vaddr` on, `memsize` bytes long. -/
def Requested (vaddr memsize : UInt32) (p : Nat) : Prop :=
  ∃ x, vaddr.toNat ≤ x ∧ x < vaddr.toNat + memsize.toNat ∧ x / 4096 = p

/-- The segment is what was asked for: its end does not wrap around, its pages are those of the
    region, they are user pages and not pages of the stack, and `vm_fault` finds them and no
    others. -/
structure Segment.Covers (s : Segment) (vaddr memsize : UInt32) : Prop where
  top : s.top.toNat = s.startaddr.toNat + s.numpages.toNat * 4096
  pages : ∀ x, s.Holds x ↔ Requested vaddr memsize (x / 4096)
  user : ∀ x, s.Holds x → x < USERSPACETOP.toNat
  stack : ∀ x, s.Holds x → ¬ (stackbase.toNat ≤ x ∧ x < USERSTACK.toNat)
  accepted : ∀ fa : VAddr, s.startaddr ≤ pageOf fa ∧ pageOf fa < s.top ↔
    Requested vaddr memsize (fa.toNat / 4096)

/-- `as_define_region` fails, or defines one segment more, which is what was asked for. -/
def DefinesExactly (as : AddrSpace) (vaddr memsize : UInt32) (offset vnode : Nat)
    (readable writable executable : UInt32) : Prop :=
  ∀ as', asDefineRegion as vaddr memsize offset vnode readable writable executable = .ok as' →
    ∃ i s, as.seg i = none ∧ as'.seg i = some s ∧ (∀ j, j ≠ i → as'.seg j = as.seg j) ∧
      s.Covers vaddr memsize

/-! ## Rounding -/

theorem pageOf_toNat (v : VAddr) : (pageOf v).toNat = v.toNat / 4096 * 4096 := by
  have hmask : PAGE_FRAME.toNat = (2 ^ 20 - 1) <<< 12 := by decide
  have hshift : v.toNat / 4096 * 4096 = (v.toNat >>> 12) <<< 12 := by
    rw [Nat.shiftLeft_eq, Nat.shiftRight_eq_div_pow]
  rw [pageOf, UInt32.toNat_and, hmask, hshift]
  -- bit by bit: the mask keeps the bits from 12 on, and there are 32 of them
  refine Nat.eq_of_testBit_eq fun i => ?_
  rw [Nat.testBit_and, Nat.testBit_shiftLeft, Nat.testBit_shiftLeft, Nat.testBit_two_pow_sub_one,
    Nat.testBit_shiftRight]
  by_cases hlow : 12 ≤ i
  · rw [Nat.add_sub_cancel' hlow]
    by_cases hhigh : i < 32
    · have h20 : i - 12 < 20 := by omega
      simp [hlow, h20]
    · have hzero : v.toNat.testBit i = false :=
        Nat.testBit_lt_two_pow (Nat.lt_of_lt_of_le v.toNat_lt (Nat.pow_le_pow_right (by decide)
          (by omega)))
      rw [hzero, Bool.false_and, Bool.and_false]
  · simp [hlow]

theorem offset_toNat (v : VAddr) : (v &&& ~~~PAGE_FRAME).toNat = v.toNat % 4096 := by
  have hmask : (~~~PAGE_FRAME).toNat = 2 ^ 12 - 1 := by decide
  rw [UInt32.toNat_and, hmask, Nat.and_two_pow_sub_one_eq_mod]

/-- The page count: two sums modulo `2 ^ 32`, and a division. -/
theorem regionPages_toNat (vaddr memsize : UInt32) : (regionPages vaddr memsize).toNat
    = (vaddr.toNat % 4096 + memsize.toNat + 4095) % 2 ^ 32 / 4096 := by
  have hpage : (PAGE_SIZE32).toNat = 4096 := rfl
  have hone : (1 : UInt32).toNat = 1 := rfl
  have hup : (memsize + (vaddr &&& ~~~PAGE_FRAME) + PAGE_SIZE32 - 1).toNat
      = (vaddr.toNat % 4096 + memsize.toNat + 4095) % 2 ^ 32 := by
    have hadd : (memsize + (vaddr &&& ~~~PAGE_FRAME) + PAGE_SIZE32).toNat
        = (vaddr.toNat % 4096 + memsize.toNat + 4096) % 2 ^ 32 := by
      rw [UInt32.toNat_add, UInt32.toNat_add, offset_toNat, hpage]
      omega
    rw [UInt32.toNat_sub, hadd, hone]
    omega
  have hmask := pageOf_toNat (memsize + (vaddr &&& ~~~PAGE_FRAME) + PAGE_SIZE32 - 1)
  rw [hup, pageOf] at hmask
  unfold regionPages
  rw [UInt32.toNat_div, hpage, hmask]
  omega

/-- The pages of a region are those between its first and its last address. -/
theorem requested_iff {vaddr memsize : UInt32} (hmem : 0 < memsize) (p : Nat) :
    Requested vaddr memsize p ↔
      vaddr.toNat / 4096 ≤ p ∧ p ≤ (vaddr.toNat + memsize.toNat - 1) / 4096 := by
  have hpos : 0 < memsize.toNat := UInt32.lt_iff_toNat_lt.1 hmem
  constructor
  · rintro ⟨x, hlo, hhi, rfl⟩
    omega
  · rintro ⟨hlo, hhi⟩
    by_cases hin : vaddr.toNat ≤ p * 4096
    · exact ⟨p * 4096, hin, by omega, by omega⟩
    · exact ⟨vaddr.toNat, Nat.le_refl _, by omega, by omega⟩

/-! ## Regions below the stack -/

variable {s : Segment} {vaddr memsize : UInt32}

/-- A region that ends below the stack is covered. -/
theorem covers_of_below (hstart : s.startaddr = pageOf vaddr)
    (hnum : s.numpages = regionPages vaddr memsize) (hmem : 0 < memsize)
    (hbelow : vaddr.toNat + memsize.toNat ≤ stackbase.toNat) : s.Covers vaddr memsize := by
  have hbase : stackbase.toNat = 0x7ffee000 := by decide
  have huser : USERSPACETOP.toNat = 0x80000000 := by decide
  have hpage : (PAGE_SIZE32).toNat = 4096 := rfl
  have hpos : 0 < memsize.toNat := UInt32.lt_iff_toNat_lt.1 hmem
  have hs : s.startaddr.toNat = vaddr.toNat / 4096 * 4096 := by rw [hstart, pageOf_toNat]
  have hn : s.numpages.toNat = (vaddr.toNat % 4096 + memsize.toNat + 4095) / 4096 := by
    rw [hnum, regionPages_toNat, Nat.mod_eq_of_lt (by omega)]
  have htop : s.top.toNat = s.startaddr.toNat + s.numpages.toNat * 4096 := by
    rw [Segment.top, UInt32.toNat_add, UInt32.toNat_mul, hpage]
    omega
  refine ⟨htop, fun x => ?_, fun x hx => ?_, fun x hx => ?_, fun fa => ?_⟩
  · rw [requested_iff hmem]
    unfold Segment.Holds
    omega
  · unfold Segment.Holds at hx
    omega
  · unfold Segment.Holds at hx
    omega
  · have hfa := pageOf_toNat fa
    rw [requested_iff hmem, UInt32.le_iff_toNat_le, UInt32.lt_iff_toNat_lt, htop]
    omega

/-- A covered region ends below the stack: its last address is a user address outside the
    stack. -/
theorem Segment.Covers.below (h : s.Covers vaddr memsize) (hmem : 0 < memsize) :
    vaddr.toNat + memsize.toNat ≤ stackbase.toNat := by
  have hpos : 0 < memsize.toNat := UInt32.lt_iff_toNat_lt.1 hmem
  have hlast : s.Holds (vaddr.toNat + memsize.toNat - 1) :=
    (h.pages _).2 ⟨vaddr.toNat + memsize.toNat - 1, by omega, by omega, rfl⟩
  have huser : vaddr.toNat + memsize.toNat - 1 < USERSTACK.toNat := h.user _ hlast
  have hstack := h.stack _ hlast
  omega

/-- With a free segment, `as_define_region` defines it and leaves the others alone. -/
theorem asDefineRegion_free {as : AddrSpace} (hfree : as.seg1 = none ∨ as.seg2 = none)
    (vaddr memsize : UInt32) (offset vnode : Nat) (readable writable executable : UInt32) :
    ∃ as' i s, asDefineRegion as vaddr memsize offset vnode readable writable executable = .ok as' ∧
      as.seg i = none ∧ as'.seg i = some s ∧ (∀ j, j ≠ i → as'.seg j = as.seg j) ∧
      s.startaddr = pageOf vaddr ∧ s.numpages = regionPages vaddr memsize := by
  obtain ⟨o1, o2, ost⟩ := as
  cases o1 with
  | none => exact ⟨_, .seg1, _, rfl, rfl, rfl, fun j hj => by cases j <;> trivial, rfl, rfl⟩
  | some s1 =>
    obtain rfl : o2 = none := hfree.resolve_left (Option.some_ne_none s1)
    exact ⟨_, .seg2, _, rfl, rfl, rfl, fun j hj => by cases j <;> trivial, rfl, rfl⟩

/-- `as_define_region` does what it is asked for exactly if the region ends below the stack. -/
theorem definesExactly_iff {as : AddrSpace} (hfree : as.seg1 = none ∨ as.seg2 = none)
    (vaddr : UInt32) {memsize : UInt32} (hmem : 0 < memsize) (offset vnode : Nat)
    (readable writable executable : UInt32) :
    DefinesExactly as vaddr memsize offset vnode readable writable executable ↔
      vaddr.toNat + memsize.toNat ≤ stackbase.toNat := by
  obtain ⟨as', i, s, hok, hnone, hsome, hothers, hstart, hnum⟩ :=
    asDefineRegion_free hfree vaddr memsize offset vnode readable writable executable
  constructor
  · intro h
    obtain ⟨j, t, -, -, -, hcovers⟩ := h as' hok
    exact hcovers.below hmem
  · intro hbelow as'' hok'
    obtain rfl : as' = as'' := Except.ok.inj (hok.symm.trans hok')
    exact ⟨i, s, hnone, hsome, hothers, covers_of_below hstart hnum hmem hbelow⟩

theorem code_region_exact :
    DefinesExactly asCreate 0x400010 0x2000 0 0 RDFLAG 0 EXFLAG :=
  (definesExactly_iff (.inl rfl) 0x400010 (by decide) 0 0 RDFLAG 0 EXFLAG).2 (by decide)

/-- A region in kernel space is defined there, a region that ends behind the address space gets no
    page at all, and one at the top of user space gets the pages of the stack. -/
theorem regions_not_exact :
    (∃ as', asDefineRegion asCreate 0x80000000 0x1000 0 0 RDFLAG WRFLAG 0 = .ok as' ∧
      as'.seg1.map (·.startaddr) = some 0x80000000) ∧
      ¬ DefinesExactly asCreate 0x80000000 0x1000 0 0 RDFLAG WRFLAG 0 ∧
      (∃ as', asDefineRegion asCreate 0x1000 0xfffff001 0 0 RDFLAG WRFLAG 0 = .ok as' ∧
        as'.seg1.map (·.numpages) = some 0) ∧
      ¬ DefinesExactly asCreate 0x1000 0xfffff001 0 0 RDFLAG WRFLAG 0 ∧
      ¬ DefinesExactly asCreate 0x7ffff000 0x1000 0 0 RDFLAG WRFLAG 0 := by
  have hnot : ∀ (vaddr memsize : UInt32), 0 < memsize →
      ¬ vaddr.toNat + memsize.toNat ≤ stackbase.toNat →
      ¬ DefinesExactly asCreate vaddr memsize 0 0 RDFLAG WRFLAG 0 := by
    intro vaddr memsize hmem habove h
    obtain ⟨i, s, -, -, -, hcovers⟩ := h _ rfl
    exact habove (hcovers.below hmem)
  exact ⟨⟨_, rfl, rfl⟩, hnot _ _ (by decide) (by decide), ⟨_, rfl, rfl⟩,
    hnot _ _ (by decide) (by decide), hnot _ _ (by decide) (by decide)⟩

end DemandPaging
