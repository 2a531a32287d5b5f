import DemandPaging.Kheap.Invariant

set_option autoImplicit false

/-! # Pagerefs and the lists of pages

What `allocpageref` and `freepageref` do to the root bitmaps, and how a page gets onto the lists and
off them. `allocpageref` sets a bit in the first root that is not full. If this root has no page
yet and gets none, the bit stays set. -/

namespace DemandPaging

open Function

namespace Kheap

/-- The first root that is not full. -/
def firstRoot (h : Kheap) : Option Nat :=
  search (fun w => (h.kheaproots w).numinuse < NPAGEREFS_PER_PAGE) NUM_PAGEREFPAGES

variable {h : Kheap} {live : List Block} {all : List Nat} {fly va : Option Nat}
  {p pr w k q t : Nat}

/-! ## The functions -/

theorem kheaproots_setRoot_self (root : KheapRoot) : (h.setRoot w root).kheaproots w = root :=
  update_self ..

theorem kheaproots_setRoot_ne (root : KheapRoot) {w' : Nat} (hne : w' ≠ w) :
    (h.setRoot w root).kheaproots w' = h.kheaproots w' := update_of_ne hne ..

theorem page_setRoot {root : KheapRoot} (hpage : root.page = (h.kheaproots w).page) (w' : Nat) :
    ((h.setRoot w root).kheaproots w').page = (h.kheaproots w').page := by
  by_cases he : w' = w
  · rw [he, kheaproots_setRoot_self, hpage]
  · rw [kheaproots_setRoot_ne _ he]

/-- In a root that is not full the search finds a clear bit. -/
theorem exists_clear_bit {root : KheapRoot}
    (hc : root.numinuse = countSet root.pagerefs_inuse NPAGEREFS_PER_PAGE)
    (hlt : root.numinuse < NPAGEREFS_PER_PAGE) :
    ∃ i j, firstWord root.pagerefs_inuse 32 INUSE_WORDS = some i ∧
      firstBit root.pagerefs_inuse 32 i = some j ∧ i * 32 + j < NPAGEREFS_PER_PAGE ∧
      root.pagerefs_inuse (i * 32 + j) = false := by
  cases hi : firstWord root.pagerefs_inuse 32 INUSE_WORDS with
  | none =>
    have hall := countSet_eq_of_all (all_set_of_firstWord (by decide) hi)
    rw [show INUSE_WORDS * 32 = NPAGEREFS_PER_PAGE from rfl] at hall
    omega
  | some i =>
    obtain ⟨j, hj⟩ := exists_firstBit (firstWord_not_full hi)
    obtain ⟨hbound, hclear, -⟩ := first_clear (by decide) hi hj
    exact ⟨i, j, rfl, hj, hbound, hclear⟩

/-- The loop over the roots stops at the first one that is not full. -/
theorem allocpagerefFrom_eq
    (hc : ∀ w, (h.kheaproots w).numinuse
      = countSet (h.kheaproots w).pagerefs_inuse NPAGEREFS_PER_PAGE) (va : Option Nat) (n : Nat) :
    ∀ w, match searchFrom (fun w => (h.kheaproots w).numinuse < NPAGEREFS_PER_PAGE) n w with
      | none => h.allocpagerefFrom va (List.range' w n) = .ok (none, h)
      | some w' => ∃ k < NPAGEREFS_PER_PAGE, (h.kheaproots w').pagerefs_inuse k = false ∧
          h.allocpagerefFrom va (List.range' w n) = h.claimPageref w' k va := by
  induction n with
  | zero => intro w; rfl
  | succ n ih =>
    intro w
    rw [searchFrom, List.range'_succ, allocpagerefFrom]
    by_cases hlt : (h.kheaproots w).numinuse < NPAGEREFS_PER_PAGE
    · obtain ⟨i, j, hi, hj, hbound, hclear⟩ := exists_clear_bit (hc w) hlt
      simp only [hlt, decide_true, if_true, if_neg (Nat.not_le.2 hlt), hi, hj]
      exact ⟨i * 32 + j, hbound, hclear, rfl⟩
    · simp only [hlt, decide_false, Bool.false_eq_true, if_false, if_pos (Nat.le_of_not_lt hlt)]
      exact ih (w + 1)

theorem allocpageref_full (hinv : HeapInv h live all fly) (hf : h.firstRoot = none) :
    h.allocpageref va = .ok (none, h) := by
  have := allocpagerefFrom_eq hinv.counted va NUM_PAGEREFPAGES 0
  rw [show searchFrom _ _ 0 = none from hf] at this
  rwa [allocpageref, List.range_eq_range']

theorem allocpageref_root (hinv : HeapInv h live all fly) (hf : h.firstRoot = some w) :
    ∃ k < NPAGEREFS_PER_PAGE, (h.kheaproots w).pagerefs_inuse k = false ∧
      h.allocpageref va = h.claimPageref w k va := by
  have := allocpagerefFrom_eq hinv.counted va NUM_PAGEREFPAGES 0
  rw [show searchFrom _ _ 0 = some w from hf] at this
  rwa [allocpageref, List.range_eq_range']

theorem claimPageref_page (hp : (h.kheaproots w).page = some q) :
    h.claimPageref w k va
      = .ok (some (q + k * PAGEREF_SIZE), h.setRoot w ((h.kheaproots w).claim k)) := by
  have hpage : ((h.setRoot w ((h.kheaproots w).claim k)).kheaproots w).page = some q :=
    (page_setRoot (by rfl) w).trans hp
  simp only [claimPageref, hp, reduceCtorEq, if_false, pure_bind, hpage]
  rfl

theorem claimPageref_refused (hp : (h.kheaproots w).page = none) :
    h.claimPageref w k none = .ok (none, h.setRoot w ((h.kheaproots w).claim k)) := by
  have hpage : ((h.setRoot w ((h.kheaproots w).claim k)).kheaproots w).page = none :=
    (page_setRoot (by rfl) w).trans hp
  rw [claimPageref, if_pos hp, allocpagerefpage, kassert_of hpage, ok_bind]
  simp only [pure_bind, hpage]
  rfl

/-- The root `w` gets the page `q`. -/
def setRootPage (h : Kheap) (w q : Nat) : Kheap :=
  (h.gotPage q).setRoot w { h.kheaproots w with page := some q }

theorem claimPageref_granted (hp : (h.kheaproots w).page = none) (hq : q % PAGE_SIZE = 0) :
    h.claimPageref w k (some q) = .ok (some (q + k * PAGEREF_SIZE),
      (h.setRoot w ((h.kheaproots w).claim k)).setRootPage w q) := by
  have hpage : ((h.setRoot w ((h.kheaproots w).claim k)).kheaproots w).page = none :=
    (page_setRoot (by rfl) w).trans hp
  have hgot : ((((h.setRoot w ((h.kheaproots w).claim k))).gotPage q).kheaproots w).page = none :=
    hpage
  rw [claimPageref, if_pos hp, allocpagerefpage, kassert_of hpage, ok_bind]
  simp only [kassert_of hq, ok_bind, hgot, ne_eq, not_true_eq_false, if_false, pure_bind,
    kheaproots_setRoot_self]
  rfl

/-- `freepageref` passes the roots before the one of the pageref, and stops at a root without a page
    that counts a pageref. -/
theorem freepagerefFrom_eq (hq : (h.kheaproots w).page = some q) (hk : k < NPAGEREFS_PER_PAGE)
    (hbit : (h.kheaproots w).pagerefs_inuse k = true) (hnum : 0 < (h.kheaproots w).numinuse)
    (n : Nat) : ∀ w₀, w₀ ≤ w → w < w₀ + n →
    (∀ w', w₀ ≤ w' → w' < w → ∀ q', (h.kheaproots w').page = some q' →
      q + k * PAGEREF_SIZE < q' ∨ q' + PAGE_SIZE ≤ q + k * PAGEREF_SIZE) →
    ((∀ w', w₀ ≤ w' → w' < w → (h.kheaproots w').page = none → (h.kheaproots w').numinuse = 0) ∧
      h.freepagerefFrom (q + k * PAGEREF_SIZE) (List.range' w₀ n)
        = .ok (h.setRoot w ((h.kheaproots w).release k))) ∨
    ((∃ w' < w, (h.kheaproots w').page = none ∧ (h.kheaproots w').numinuse ≠ 0) ∧
      h.freepagerefFrom (q + k * PAGEREF_SIZE) (List.range' w₀ n) = .error .kassert) := by
  induction n with
  | zero => intro w₀ h1 h2; omega
  | succ n ih =>
    intro w₀ h1 h2 hapart
    rw [List.range'_succ, freepagerefFrom]
    rcases Nat.eq_or_lt_of_le h1 with rfl | hlt
    · have hj : (q + k * PAGEREF_SIZE - q) / PAGEREF_SIZE = k := by
        unfold PAGEREF_SIZE
        omega
      refine .inl ⟨fun w' h1 h2 => by omega, ?_⟩
      simp only [hq, hj, Nat.le_add_right, hk, and_self, if_true]
      rw [kassert_of hbit, ok_bind, kassert_of hnum]
      rfl
    · have hrest := ih (w₀ + 1) hlt (by omega) fun w' hw' => hapart w' (by omega)
      -- passing one more root
      have hpass : ((h.kheaproots w₀).page = none → (h.kheaproots w₀).numinuse = 0) →
          (∀ w', w₀ + 1 ≤ w' → w' < w → (h.kheaproots w').page = none →
            (h.kheaproots w').numinuse = 0) →
          ∀ w', w₀ ≤ w' → w' < w → (h.kheaproots w').page = none →
            (h.kheaproots w').numinuse = 0 := by
        intro h0 hnull w' hle hlt'
        rcases Nat.eq_or_lt_of_le hle with rfl | hgt
        · exact h0
        · exact hnull w' hgt hlt'
      cases hpage : (h.kheaproots w₀).page with
      | none =>
        by_cases hzero : (h.kheaproots w₀).numinuse = 0
        · simp only [hzero, if_true]
          exact hrest.imp_left fun hr => ⟨hpass (fun _ => hzero) hr.1, hr.2⟩
        · exact .inr ⟨⟨w₀, hlt, hpage, hzero⟩, if_neg hzero⟩
      | some q' =>
        have hout : ¬ (q' ≤ q + k * PAGEREF_SIZE ∧
            (q + k * PAGEREF_SIZE - q') / PAGEREF_SIZE < NPAGEREFS_PER_PAGE) := by
          have := hapart w₀ le_rfl hlt q' hpage
          unfold PAGEREF_SIZE NPAGEREFS_PER_PAGE PAGE_SIZE at *
          omega
        simp only [if_neg hout]
        refine hrest.imp_left fun hr => ⟨hpass (fun hn => ?_) hr.1, hr.2⟩
        rw [hpage] at hn
        cases hn

/-- The bitmaps of `h'` are those of `h` with one more bit set, and no page changes but that of the
    root of this bit, if it has none. -/
structure BitSet (h h' : Kheap) (w k : Nat) : Prop where
  bits : ∀ w', (h'.kheaproots w').pagerefs_inuse
    = if w' = w then update (h.kheaproots w).pagerefs_inuse k true
      else (h.kheaproots w').pagerefs_inuse
  pages : ∀ w', w' ≠ w ∨ (h.kheaproots w').page ≠ none →
    (h'.kheaproots w').page = (h.kheaproots w').page

theorem bitSet_claim : BitSet h (h.setRoot w ((h.kheaproots w).claim k)) w k where
  bits w' := by
    split
    · next he =>
      rw [he, kheaproots_setRoot_self]
      rfl
    · next he => rw [kheaproots_setRoot_ne _ he]
  pages w' _ := page_setRoot (by rfl) w'

theorem BitSet.setRootPage {h' : Kheap} (hb : BitSet h h' w k)
    (hnone : (h.kheaproots w).page = none) : BitSet h (h'.setRootPage w q) w k where
  bits w' := by
    rw [← hb.bits w', Kheap.setRootPage]
    by_cases he : w' = w
    · rw [he, kheaproots_setRoot_self]
    · rw [kheaproots_setRoot_ne _ he]
      rfl
  pages w' hw' := by
    have he : w' ≠ w := by
      rintro rfl
      exact hw'.elim (fun hne => hne rfl) fun hne => hne hnone
    rw [← hb.pages w' hw', Kheap.setRootPage, kheaproots_setRoot_ne _ he]
    rfl

theorem BitSet.bit {h' : Kheap} (hb : BitSet h h' w k) :
    (h'.kheaproots w).pagerefs_inuse k = true := by
  rw [hb.bits, if_pos rfl, update_self]

/-! ## The bitmaps and the invariant -/

/-- The reference of a page whose blocks are all free, in front of both lists. -/
def freshRef (h : Kheap) (p t : Nat) : Pageref where
  next_samesize := h.sizebases t
  next_all := h.allbase
  pageaddr_and_blocktype := MKPAB p t
  freelist_offset := (PAGE_SIZE / sizes t - 1) * sizes t
  nfree := PAGE_SIZE / sizes t

theorem freshRef_spec (hkp : IsKpage p) (ht : t < NSIZES) :
    (h.freshRef p t).pageaddr = p ∧ (h.freshRef p t).blocktype = t ∧
      0 < (h.freshRef p t).nfree := by
  obtain ⟨hs1, hs2, -⟩ := sizes_spec ht
  obtain ⟨hpa, hbt⟩ := pageaddr_MKPAB hkp.1 ht
  exact ⟨hpa, hbt, Nat.div_pos (by unfold PAGE_SIZE; omega) (by omega)⟩

/-- The blocks of its free list are the blocks of the page. -/
theorem mem_blockList_freshRef (hkp : IsKpage p) (ht : t < NSIZES) (a : Nat) :
    a ∈ blockList p (sizes t) (PAGE_SIZE / sizes t - 1) ↔ (h.freshRef p t).IsBlock a := by
  obtain ⟨hpa, hbt, hn⟩ := freshRef_spec (h := h) hkp ht
  change 0 < PAGE_SIZE / sizes t at hn
  rw [mem_blockList, ← mem_blockSet (hbt.symm ▸ ht), blockSet, hpa, Pageref.size, hbt,
    Finset.mem_image]
  constructor
  · rintro ⟨i, hi, rfl⟩
    exact ⟨i, Finset.mem_range.2 (by omega), rfl⟩
  · rintro ⟨i, hi, rfl⟩
    exact ⟨i, by have := Finset.mem_range.1 hi; omega, rfl⟩

theorem pageOk_freshRef {mem : Nat → Nat} {L : Set Nat} (hkp : IsKpage p) (ht : t < NSIZES)
    (hlink : Linked (nextFree mem) (some (p + (PAGE_SIZE / sizes t - 1) * sizes t))
      (blockList p (sizes t) (PAGE_SIZE / sizes t - 1)))
    (hfresh : ∀ a, (h.freshRef p t).IsBlock a → a ∉ L) : PageOk (h.freshRef p t) mem L := by
  obtain ⟨hpa, hbt, hn⟩ := freshRef_spec (h := h) hkp ht
  change 0 < PAGE_SIZE / sizes t at hn
  refine ⟨hbt.symm ▸ ht, hpa.symm ▸ hkp, blockList p (sizes t) (PAGE_SIZE / sizes t - 1), ?_, ?_,
    fun a => ?_⟩
  · have hmul : (PAGE_SIZE / sizes t - 1) * sizes t + sizes t = PAGE_SIZE := by
      rw [← Nat.succ_mul, Nat.succ_eq_add_one, Nat.sub_add_cancel hn, (sizes_spec ht).2.2]
    have hoff : (PAGE_SIZE / sizes t - 1) * sizes t ≠ INVALID_OFFSET := by
      have := (sizes_spec ht).1
      unfold INVALID_OFFSET PAGE_SIZE at *
      omega
    rw [Pageref.freeHead, hpa]
    exact (if_neg hoff).symm ▸ hlink
  · rw [length_blockList]
    exact Nat.sub_add_cancel hn
  · rw [mem_blockList_freshRef hkp ht]
    exact ⟨fun ha => ⟨ha, hfresh a ha⟩, fun ha => ha.1⟩

namespace HeapInv

section

variable (hinv : HeapInv h live all fly)
include hinv

/-- Another bitmap for a root, in which the pagerefs of the list keep their bits. -/
theorem setBits {root : KheapRoot} (hpage : root.page = (h.kheaproots w).page)
    (hbits : ∀ pr ∈ all, ∀ k, Marks h w k pr → root.pagerefs_inuse k = true)
    (hcount : root.numinuse = countSet root.pagerefs_inuse NPAGEREFS_PER_PAGE) :
    HeapInv (h.setRoot w root) live all fly := by
  have hpages := page_setRoot hpage
  refine
    { hinv with
      marked := fun pr hpr => ?_
      counted := fun w' => ?_
      pages := hinv.pages.congr (fun r p => ?_) fun _ => Iff.rfl }
  · obtain ⟨w', k, hm⟩ := hinv.marked pr hpr
    refine ⟨w', k, hm.1, hm.2.1, ?_, by simpa only [hpages] using hm.2.2.2⟩
    by_cases he : w' = w
    · rw [he, kheaproots_setRoot_self]
      exact hbits pr hpr k (he ▸ hm)
    · rw [kheaproots_setRoot_ne _ he]
      exact hm.2.2.1
  · by_cases he : w' = w
    · rw [he, kheaproots_setRoot_self, hcount]
    · rw [kheaproots_setRoot_ne _ he]
      exact hinv.counted w'
  · cases r with
    | pagerefs w' => simp only [PageOf, hpages]
    | _ => rfl

/-- Setting a bit that was clear. -/
theorem claim (hk : k < NPAGEREFS_PER_PAGE) (hclear : (h.kheaproots w).pagerefs_inuse k = false) :
    HeapInv (h.setRoot w ((h.kheaproots w).claim k)) live all fly := by
  refine hinv.setBits rfl (fun pr _ k' hm => ?_) ?_
  · by_cases hek : k' = k
    · rw [hek]
      exact update_self ..
    · exact (update_of_ne hek ..).trans hm.2.2.1
  · exact (congrArg (· + 1) (hinv.counted w)).trans (countSet_update_true hk hclear).symm

/-- Clearing the bit of a pageref that is not on the list. -/
theorem release (hpr : pr ∉ all) (hm : Marks h w k pr) :
    HeapInv (h.setRoot w ((h.kheaproots w).release k)) live all fly := by
  refine hinv.setBits rfl (fun pr' hpr' k' hm' => ?_) ?_
  · have hek : k' ≠ k := by
      rintro rfl
      obtain ⟨-, -, -, page, hpage, rfl⟩ := hm
      obtain ⟨-, -, -, page', hpage', rfl⟩ := hm'
      rw [hpage] at hpage'
      cases hpage'
      exact hpr hpr'
    exact (update_of_ne hek ..).trans hm'.2.2.1
  · have h1 := countSet_update_false hm.2.1 hm.2.2.1
    have h2 := hinv.counted w
    simp only [KheapRoot.release]
    omega

/-- A root without a page gets one. -/
theorem setRootPage (hw : w < NUM_PAGEREFPAGES)
    (hnone : (h.kheaproots w).page = none) (hq : IsKpage q) (hnew : q ∉ h.kpages) :
    HeapInv (h.setRootPage w q) live all fly := by
  have hself : (h.setRootPage w q).kheaproots w = { h.kheaproots w with page := some q } :=
    kheaproots_setRoot_self ..
  have hne : ∀ w', w' ≠ w → (h.setRootPage w q).kheaproots w' = h.kheaproots w' :=
    fun w' he => kheaproots_setRoot_ne _ he
  refine
    { hinv with
      marked := fun pr hpr => ?_
      counted := fun w' => ?_
      kpages_nodup := List.nodup_cons.2 ⟨hnew, hinv.kpages_nodup⟩
      kpage := List.forall_mem_cons.2 ⟨hq, hinv.kpage⟩
      pages := hinv.pages.give (.pagerefs w) hnew (fun r p => ?_) fun p => by
        simp [Kheap.setRootPage, Kheap.setRoot, Kheap.gotPage, or_comm] }
  · obtain ⟨w', k', hw', hk', hbit, page, hpg, rfl⟩ := hinv.marked pr hpr
    have he : w' ≠ w := by
      rintro rfl
      rw [hnone] at hpg
      cases hpg
    exact ⟨w', k', hw', hk', by rwa [hne w' he], page, by rwa [hne w' he], rfl⟩
  · by_cases he : w' = w
    · rw [he, hself]
      exact hinv.counted w
    · rw [hne w' he]
      exact hinv.counted w'
  · cases r with
    | blocks pr => simp [PageOf, Kheap.setRootPage, Kheap.setRoot, Kheap.gotPage]
    | fly => simp [PageOf]
    | pagerefs w' =>
      by_cases he : w' = w
      · subst he
        simp [PageOf, hself, hnone, hw, eq_comm]
      · simp [PageOf, hne w' he, he]

/-- A pageref whose bit is clear is not on the list. -/
theorem notMem_of_clear (hw : w < NUM_PAGEREFPAGES)
    (hk : k < NPAGEREFS_PER_PAGE) (hpage : (h.kheaproots w).page = some q)
    (hclear : (h.kheaproots w).pagerefs_inuse k = false) : q + k * PAGEREF_SIZE ∉ all := by
  intro hmem
  obtain ⟨w', k', hw', hk', hbit, page, hpg, heq⟩ := hinv.marked _ hmem
  have h1 := (hinv.root_kpage hw hpage).2
  have h2 := (hinv.root_kpage hw' hpg).2
  unfold NPAGEREFS_PER_PAGE PAGEREF_SIZE PAGE_SIZE at *
  obtain rfl : page = q := by omega
  obtain rfl : w' = w := hinv.root_inj hw hpage hw' hpg
  obtain rfl : k' = k := by omega
  rw [hclear] at hbit
  cases hbit

/-- `freepageref` of a pageref clears its bit, unless a root before its own has no page and counts
    a pageref. -/
theorem freepageref_eq (hm : Marks h w k pr) :
    ((∀ w' < w, (h.kheaproots w').page = none → (h.kheaproots w').numinuse = 0) ∧
      h.freepageref pr = .ok (h.setRoot w ((h.kheaproots w).release k))) ∨
    ((∃ w' < w, (h.kheaproots w').page = none ∧ (h.kheaproots w').numinuse ≠ 0) ∧
      h.freepageref pr = .error .kassert) := by
  obtain ⟨hw, hk, hbit, q, hpage, rfl⟩ := hm
  rw [Kheap.freepageref, List.range_eq_range']
  have hnum : 0 < (h.kheaproots w).numinuse := by
    rw [hinv.counted]
    exact countSet_pos hk hbit
  refine (freepagerefFrom_eq hpage hk hbit hnum NUM_PAGEREFPAGES 0 (Nat.zero_le w) (by omega)
    fun w' _ hlt q' hq' => ?_).imp_left fun hr => ⟨fun w' => hr.1 w' (Nat.zero_le w'), hr.2⟩
  have hw' : w' < NUM_PAGEREFPAGES := by omega
  have h1 := (hinv.root_kpage hw hpage).2
  have h2 := (hinv.root_kpage hw' hq').2
  have hne : q' ≠ q := by
    rintro rfl
    exact absurd (hinv.root_inj hw hpage hw' hq') (by omega)
  unfold NPAGEREFS_PER_PAGE PAGEREF_SIZE PAGE_SIZE at *
  omega

end

/-! ## The lists of pages -/

/-- A page without blocks in use leaves the lists. -/
theorem removeLists (hinv : HeapInv h live all none) (hpr : pr ∈ all)
    (hempty : ∀ a, (h.refs pr).IsBlock a → a ∉ addrs live) :
    ∃ h', h.removeLists pr (h.refs pr).blocktype = .ok h' ∧
      HeapInv h' live (all.erase pr) (some (h.refs pr).pageaddr) ∧
      h'.kheaproots = h.kheaproots ∧ h'.kpages = h.kpages ∧
      ∀ pr', (h'.refs pr').pageaddr_and_blocktype = (h.refs pr').pageaddr_and_blocktype := by
  have hnodup := hinv.all_linked.nodup
  have ht := (hinv.page pr hpr).type_lt
  have hmem : ∀ pr', pr' ∈ all.erase pr ↔ pr' ≠ pr ∧ pr' ∈ all := fun pr' => hnodup.mem_erase_iff
  -- the list of the block type, and the links of the other lists
  obtain ⟨base, next, hrem, hlink, hkeep⟩ := removeNode_eq (hinv.size_linked _ ht)
    ((List.length_filter_le ..).trans hinv.length_le)
    (List.mem_filter.2 ⟨hpr, by simp⟩ : pr ∈ all.filter _)
  obtain ⟨base', next', hrem', hlink', -⟩ := removeNode_eq hinv.all_linked hinv.length_le hpr
  let h₁ : Kheap := { h with
    sizebases := update h.sizebases (h.refs pr).blocktype base
    refs := fun a => { h.refs a with next_samesize := next a } }
  have hrem₁ : removeNode h₁.nextAll TOTAL_PAGEREFS h₁.allbase pr = .ok (base', next') := hrem'
  refine ⟨{ h₁ with allbase := base', refs := fun a => { h₁.refs a with next_all := next' a } },
    ?_, ?_, rfl, rfl, fun _ => rfl⟩
  · rw [Kheap.removeLists, kassert_of ht, ok_bind, hrem]
    simp only [ofWalk, ok_bind]
    rw [hrem₁]
    rfl
  · refine
      { hinv with
        all_linked := hlink'
        size_linked := fun t htt => ?_
        page := fun pr' hpr' => ?_
        marked := fun x hx => hinv.marked x (List.mem_of_mem_erase hx)
        pages := hinv.pages.move (.blocks pr) .fly (fun _ => nofun) fun r q => ?_
        live_block := fun b hb => ?_ }
    · change Linked next (update h.sizebases (h.refs pr).blocktype base t)
        ((all.erase pr).filter fun x => (h.refs x).blocktype == t)
      by_cases he : t = (h.refs pr).blocktype
      · subst he
        rw [update_self]
        have hcomm : (all.erase pr).filter (fun x => (h.refs x).blocktype == (h.refs pr).blocktype)
            = (all.filter fun x => (h.refs x).blocktype == (h.refs pr).blocktype).erase pr := by
          rw [hnodup.erase_eq_filter, (hnodup.filter _).erase_eq_filter, List.filter_filter,
            List.filter_filter]
          exact List.filter_congr fun x _ => Bool.and_comm ..
        rw [hcomm]
        exact hlink
      · rw [update_of_ne he]
        have hsame : (all.erase pr).filter (fun x => (h.refs x).blocktype == t)
            = all.filter fun x => (h.refs x).blocktype == t := by
          rw [hnodup.erase_eq_filter, List.filter_filter]
          refine List.filter_congr fun x _ => ?_
          by_cases hx : x = pr
          · subst hx
            simp [Ne.symm he]
          · simp [hx]
        rw [hsame]
        refine (hinv.size_linked t htt).congr fun x hx => hkeep x fun hx' => he ?_
        have h1 := (List.mem_filter.1 hx).2
        have h2 := (List.mem_filter.1 hx').2
        exact (beq_iff_eq.1 h1).symm.trans (beq_iff_eq.1 h2)
    · have hok := hinv.page pr' (List.mem_of_mem_erase hpr')
      exact ⟨hok.type_lt, hok.kpage, hok.free⟩
    · cases r with
      | blocks pr' =>
        change pr' ∈ all.erase pr ∧ (h.refs pr').pageaddr = q ↔ _
        simp only [PageOf, hmem, ne_eq, PageRole.blocks.injEq, reduceCtorEq, false_and, or_false]
        tauto
      | pagerefs w => simp [PageOf, h₁]
      | fly => simp [PageOf, hpr]
    · obtain ⟨pr', hpr', hblock, hsz⟩ := hinv.live_block b hb
      refine ⟨pr', (hmem pr').2 ⟨?_, hpr'⟩, hblock, hsz⟩
      rintro rfl
      exact hempty b.addr hblock ⟨b, hb, rfl⟩

/-- With `pr` in front of the list of its block type, the lists by block type are in order. -/
theorem size_linked_cons {h' : Kheap} (hinv : HeapInv h live all fly) (hpr : pr ∉ all)
    (hother : ∀ x, x ≠ pr → h'.refs x = h.refs x) (ht : (h'.refs pr).blocktype = t)
    (hbase : h'.sizebases = update h.sizebases t (some pr))
    (hnext : h'.nextSamesize pr = h.sizebases t) {t' : Nat} (ht' : t' < NSIZES) :
    Linked h'.nextSamesize (h'.sizebases t')
      ((pr :: all).filter fun x => (h'.refs x).blocktype == t') := by
  have hsame : ∀ x ∈ all, h'.refs x = h.refs x := fun x hx => hother x fun he => hpr (he ▸ hx)
  have hlist : (all.filter fun x => (h'.refs x).blocktype == t')
      = all.filter fun x => (h.refs x).blocktype == t' :=
    List.filter_congr fun x hx => by rw [hsame x hx]
  have hold : Linked h'.nextSamesize (h.sizebases t')
      (all.filter fun x => (h.refs x).blocktype == t') :=
    (hinv.size_linked t' ht').congr fun x hx => by
      rw [nextSamesize, nextSamesize, hsame x (List.mem_of_mem_filter hx)]
  rw [List.filter_cons, ht, hlist, hbase]
  by_cases he : t' = t
  · subst he
    rw [if_pos (beq_self_eq_true t'), update_self]
    exact ⟨rfl, hnext.symm ▸ hold⟩
  · rw [if_neg (by simpa using Ne.symm he), update_of_ne he]
    exact hold

/-- A fresh page with a pageref of its own comes onto the lists. -/
theorem addPage (hinv : HeapInv h live all (some p)) (hpr : pr ∉ all) (hm : Marks h w k pr)
    (ht : t < NSIZES) :
    ∃ h', h.addPage pr p t = .ok h' ∧ HeapInv h' live (pr :: all) none ∧
      h'.kheaproots = h.kheaproots ∧ h'.kpages = h.kpages ∧
      (h'.refs pr).blocktype = t ∧ (h'.refs pr).pageaddr = p ∧ 0 < (h'.refs pr).nfree ∧
      ∀ pr', pr' ≠ pr → h'.refs pr' = h.refs pr' := by
  have hkp : IsKpage p := hinv.kpage p (hinv.pages.marked .fly p rfl)
  obtain ⟨hrp, hrt, hfree⟩ := freshRef_spec (h := h) hkp ht
  obtain ⟨mem, hthread, hlink, hkeep⟩ := threadBlocks_eq h.mem (by have := hkp.2.1; omega : p ≠ 0)
    (by have := (sizes_spec ht).1; omega : 0 < sizes t) (PAGE_SIZE / sizes t - 1)
  let r := h.freshRef p t
  -- the page was nobody's: its blocks are not in use, and in no other free list
  have hapart : ∀ a, r.IsBlock a → ∀ x ∈ all, ¬ (h.refs x).IsBlock a := by
    intro a ha x hx hblock
    refine hinv.fly_apart hx ?_
    rw [← isBlock_page hblock, isBlock_page ha]
    exact hrp
  have hok : PageOk r mem (addrs live) := by
    refine pageOk_freshRef hkp ht hlink ?_
    rintro a ha ⟨b, hb, rfl⟩
    obtain ⟨x, hx, hblock, -⟩ := hinv.live_block b hb
    exact hapart _ ha x hx hblock
  let h' : Kheap := { h.setRef pr r with
    sizebases := update h.sizebases t (some pr)
    allbase := some pr
    mem := mem }
  have hself : h'.refs pr = r := update_self ..
  have hother : ∀ x, x ≠ pr → h'.refs x = h.refs x := fun x hne => update_of_ne hne ..
  have hsame : ∀ x ∈ all, h'.refs x = h.refs x := fun x hx => hother x fun he => hpr (he ▸ hx)
  refine ⟨h', ?_, ?_, rfl, rfl, hself ▸ hrt, hself ▸ hrp, hself ▸ hfree, hother⟩
  · rw [Kheap.addPage, hthread]
    rfl
  · refine
      { all_linked := ⟨rfl, ?_⟩
        size_linked := fun t' ht' => hinv.size_linked_cons hpr hother (hself ▸ hrt) rfl ?_ ht'
        page := fun x hx => ?_
        marked := fun x hx => ?_
        counted := hinv.counted
        kpages_nodup := hinv.kpages_nodup
        kpage := hinv.kpage
        pages := hinv.pages.move .fly (.blocks pr) (fun _ hr => hpr hr.1) fun r q => ?_
        live_nodup := hinv.live_nodup
        live_block := fun b hb => ?_ }
    · rw [nextAll, hself]
      exact hinv.all_linked.congr fun x hx => by rw [nextAll, nextAll, hsame x hx]
    · rw [nextSamesize, hself]
      rfl
    · rcases List.mem_cons.1 hx with rfl | hx
      · rw [hself]
        exact hok
      · rw [hsame x hx]
        refine (hinv.page x hx).congr (fun a ha _ => hkeep a fun hmem => ?_) fun _ _ => Iff.rfl
        exact hapart a ((mem_blockList_freshRef hkp ht a).1 hmem) x hx ha
    · rcases List.mem_cons.1 hx with rfl | hx
      · exact ⟨w, k, hm⟩
      · exact hinv.marked x hx
    · cases r with
      | blocks x =>
        by_cases he : x = pr
        · subst he
          simp [PageOf, hself, r, hrp, hpr]
        · simp [PageOf, hother x he, he]
      | pagerefs w' => simp [PageOf, h', Kheap.setRef]
      | fly => simp [PageOf]
    · obtain ⟨x, hx, hblock⟩ := hinv.live_block b hb
      exact ⟨x, List.mem_cons_of_mem _ hx, (hsame x hx).symm ▸ hblock⟩

end HeapInv

end Kheap

end DemandPaging
