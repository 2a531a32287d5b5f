import DemandPaging.Kheap.Pagerefs

set_option autoImplicit false

/-! # What a call of `kmalloc` or `kfree` does to the heap

`KmallocOutcome` lists the ways a call of `subpage_kmalloc` can end, with the state each one leaves.
All but one keep the root bitmaps exact. In the other one a page for blocks was had, the first root
that is not full has no page, and none could be had for it: the call fails and a bit stays set. -/

namespace DemandPaging.Kheap

variable {h : Kheap} {live : List Block} {all : List Nat} {va refva : Option Nat}
  {p pr w k sz t : Nat}

/-! ## The searches -/

theorem blocktype_eq (hsz : sz ≤ LARGEST_SUBPAGE_SIZE) : ∃ t < NSIZES, blocktype sz = .ok t := by
  unfold blocktype
  cases hs : search (fun i => decide (sz ≤ sizes i)) NSIZES with
  | none =>
    have := search_eq_none.1 hs 7 (by decide)
    simp only [decide_eq_false_iff_not] at this
    exact absurd hsz this
  | some t =>
    exact ⟨t, (search_some hs).1, rfl⟩

theorem le_of_blocktype (h : blocktype sz = .ok t) : sz ≤ sizes t := by
  unfold blocktype at h
  cases hs : search (fun i => decide (sz ≤ sizes i)) NSIZES with
  | none => rw [hs] at h; cases h
  | some i =>
    rw [hs] at h
    cases h
    simpa using (search_some hs).2.1

/-- The walk over the pages of a block type finds the first one with a free block. -/
theorem findFree_eq {l : List Nat} : ∀ {fuel : Nat} {s : Option Nat},
    Linked h.nextSamesize s l → l.length ≤ fuel → (∀ pr ∈ l, (h.refs pr).blocktype = t) →
    h.findFree t fuel s = .ok (l.find? fun pr => 0 < (h.refs pr).nfree) := by
  induction l with
  | nil =>
    intro fuel s hl _ _
    obtain rfl : s = none := hl
    cases fuel <;> rfl
  | cons pr l ih =>
    intro fuel s hl hlen ht
    obtain ⟨rfl, htl⟩ := hl
    cases fuel with
    | zero => simp at hlen
    | succ fuel =>
      have hrest := ih htl (by simpa using hlen) fun x hx => ht x (List.mem_cons_of_mem _ hx)
      rw [findFree, kassert_of (ht pr (List.mem_cons_self ..)), ok_bind, List.find?_cons]
      by_cases hpos : 0 < (h.refs pr).nfree
      · simp only [hpos, if_true, decide_true]
        rfl
      · simp only [hpos, if_false, decide_false]
        exact hrest

/-- The walk over all pages finds the page an address is on. -/
theorem findPage_eq {l : List Nat} {ptr : Nat} : ∀ {fuel : Nat} {s : Option Nat},
    Linked h.nextAll s l → l.length ≤ fuel →
    (∀ pr ∈ l, (h.refs pr).blocktype < NSIZES ∧ IsKpage (h.refs pr).pageaddr) →
    h.findPage ptr fuel s = .ok (l.find? fun pr =>
      (h.refs pr).pageaddr ≤ ptr ∧ ptr < (h.refs pr).pageaddr + PAGE_SIZE) := by
  induction l with
  | nil =>
    intro fuel s hl _ _
    obtain rfl : s = none := hl
    cases fuel <;> rfl
  | cons pr l ih =>
    intro fuel s hl hlen ht
    obtain ⟨rfl, htl⟩ := hl
    cases fuel with
    | zero => simp at hlen
    | succ fuel =>
      have hrest := ih htl (by simpa using hlen) fun x hx => ht x (List.mem_cons_of_mem _ hx)
      obtain ⟨htype, -, -, hlt⟩ := ht pr (List.mem_cons_self ..)
      -- the end of a page of the kernel does not wrap
      have hend : ((h.refs pr).pageaddr + PAGE_SIZE) % UInt32.size
          = (h.refs pr).pageaddr + PAGE_SIZE := by
        rw [Nat.mod_eq_of_lt]
        unfold PAGE_SIZE UInt32.size
        omega
      rw [findPage, kassert_of htype, ok_bind, List.find?_cons, hend]
      by_cases hin : (h.refs pr).pageaddr ≤ ptr ∧ ptr < (h.refs pr).pageaddr + PAGE_SIZE
      · rw [if_pos hin, decide_eq_true hin]
        rfl
      · rw [if_neg hin, decide_eq_false hin]
        exact hrest

/-! ## Allocation -/

/-- No page of the block type of `sz` has a free block. -/
def NoFreeBlock (h : Kheap) (sz : Nat) : Prop :=
  ∃ t, blocktype sz = .ok t ∧ h.findFree t TOTAL_PAGEREFS (h.sizebases t) = .ok none

/-- The next pageref is on a page that the allocator does not have yet. -/
def NeedsPagerefPage (h : Kheap) : Prop :=
  ∃ w, h.firstRoot = some w ∧ (h.kheaproots w).page = none

/-- The answers of `alloc_kpages` are pages that the allocator does not hold. -/
def FreshPages (h : Kheap) (va refva : Option Nat) : Prop :=
  (∀ p, va = some p → IsKpage p ∧ p ∉ h.kpages) ∧
    ∀ q, refva = some q → IsKpage q ∧ q ∉ h.kpages ∧ va ≠ some q

/-- The ways a call of `subpage_kmalloc` ends. -/
inductive KmallocOutcome (h : Kheap) (live : List Block) (all : List Nat) (sz : Nat)
    (va refva : Option Nat) : Option Nat → Kheap → Prop
  /-- a page on the list has a free block -/
  | block {a pr : Nat} {h' : Kheap} (hfree : ¬ h.NoFreeBlock sz) (hpr : pr ∈ all)
      (ha : (h.refs pr).IsBlock a) (hinv : HeapInv h' (⟨a, sz⟩ :: live) all none)
      (hroots : h'.kheaproots = h.kheaproots) (hkpages : h'.kpages = h.kpages)
      (hpab : ∀ pr, (h'.refs pr).pageaddr_and_blocktype = (h.refs pr).pageaddr_and_blocktype) :
      KmallocOutcome h live all sz va refva (some a) h'
  /-- a fresh page comes onto the list, and the bit of its pageref is set -/
  | page {a p pr w k : Nat} {h' : Kheap} (hva : va = some p) (hno : h.NoFreeBlock sz)
      (hgot : refva = none → ¬ h.NeedsPagerefPage) (hk : k < NPAGEREFS_PER_PAGE)
      (hclear : (h.kheaproots w).pagerefs_inuse k = false)
      (hm : Marks h' w k pr) (hbits : BitSet h h' w k) (ha : (h'.refs pr).IsBlock a)
      (hinv : HeapInv h' (⟨a, sz⟩ :: live) (pr :: all) none)
      (hpab : ∀ pr' ∈ all, (h'.refs pr').pageaddr_and_blocktype
        = (h.refs pr').pageaddr_and_blocktype) :
      KmallocOutcome h live all sz va refva (some a) h'
  /-- no page for blocks, or no pageref left -/
  | refused (hno : h.NoFreeBlock sz) (hwhy : va = none ∨ h.firstRoot = none) :
      KmallocOutcome h live all sz va refva none h
  /-- no page for pagerefs -/
  | leaked {w k : Nat} (hno : h.NoFreeBlock sz) (hva : va ≠ none) (hrefva : refva = none)
      (hroot : h.firstRoot = some w) (hnone : (h.kheaproots w).page = none)
      (hk : k < NPAGEREFS_PER_PAGE) (hclear : (h.kheaproots w).pagerefs_inuse k = false)
      (hinv : HeapInv (h.setRoot w ((h.kheaproots w).claim k)) live all none) :
      KmallocOutcome h live all sz va refva none (h.setRoot w ((h.kheaproots w).claim k))

/-- The pageref that a fresh page needs: there is none, or its bit is set. -/
theorem HeapInv.allocpageref (hinv : HeapInv h live all (some p))
    (href : ∀ q, refva = some q → IsKpage q ∧ q ∉ h.kpages) :
    (h.firstRoot = none ∧ h.allocpageref refva = .ok (none, h)) ∨
    ∃ w k, h.firstRoot = some w ∧ k < NPAGEREFS_PER_PAGE ∧
      (h.kheaproots w).pagerefs_inuse k = false ∧
      ((refva = none ∧ (h.kheaproots w).page = none ∧
          h.allocpageref refva = .ok (none, h.setRoot w ((h.kheaproots w).claim k))) ∨
        ∃ pr h', h.allocpageref refva = .ok (some pr, h') ∧ HeapInv h' live all (some p) ∧
          (refva = none → (h.kheaproots w).page ≠ none) ∧ pr ∉ all ∧ Marks h' w k pr ∧
          BitSet h h' w k ∧ h'.refs = h.refs) := by
  cases hf : h.firstRoot with
  | none => exact .inl ⟨rfl, allocpageref_full hinv hf⟩
  | some w =>
    obtain ⟨k, hk, hclear, heq⟩ := allocpageref_root hinv hf
    have hw : w < NUM_PAGEREFPAGES := (search_some hf).1
    have hclaim := hinv.claim hk hclear
    refine .inr ⟨w, k, rfl, hk, hclear, ?_⟩
    cases hpage : (h.kheaproots w).page with
    | some q =>
      rw [claimPageref_page hpage] at heq
      refine .inr ⟨_, _, heq, hclaim, fun _ => by simp,
        hinv.notMem_of_clear hw hk hpage hclear, ?_, bitSet_claim, rfl⟩
      exact ⟨hw, hk, bitSet_claim.bit, q, (page_setRoot (by rfl) w).trans hpage, rfl⟩
    | none =>
      cases refva with
      | none => exact .inl ⟨rfl, rfl, by rw [heq, claimPageref_refused hpage]⟩
      | some q =>
        obtain ⟨hq, hnew⟩ := href q rfl
        rw [claimPageref_granted hpage hq.1] at heq
        have hbits := bitSet_claim.setRootPage (k := k) (q := q) hpage
        have hinv' := hclaim.setRootPage hw ((page_setRoot (by rfl) w).trans hpage) hq hnew
        refine .inr ⟨_, _, heq, hinv', (fun hn => nomatch hn), ?_,
          ⟨hw, hk, hbits.bit, q, ?_, rfl⟩, hbits, rfl⟩
        · intro hmem
          obtain ⟨w', k', hw', hk', -, page, hpg, heq'⟩ := hinv.marked _ hmem
          obtain ⟨hheld, h1⟩ := hinv.root_kpage hw' hpg
          have h2 := hq.1
          unfold NPAGEREFS_PER_PAGE PAGEREF_SIZE PAGE_SIZE at *
          obtain rfl : page = q := by omega
          exact hnew hheld
        · rw [Kheap.setRootPage, kheaproots_setRoot_self]

theorem HeapInv.subpageKmalloc (hinv : HeapInv h live all none) (hsz : sz ≤ LARGEST_SUBPAGE_SIZE)
    (hfresh : FreshPages h va refva) :
    ∃ ret h', h.subpageKmalloc sz va refva = .ok (ret, h') ∧
      KmallocOutcome h live all sz va refva ret h' := by
  obtain ⟨t, ht, hbt⟩ := blocktype_eq hsz
  have hlist := findFree_eq (hinv.size_linked t ht)
    ((List.length_filter_le ..).trans hinv.length_le)
    (fun pr hpr => beq_iff_eq.1 (List.mem_filter.1 hpr).2)
  rw [Kheap.subpageKmalloc, hbt, ok_bind, hlist, ok_bind]
  cases hfind : (all.filter fun pr => (h.refs pr).blocktype == t).find?
      fun pr => 0 < (h.refs pr).nfree with
  | some pr =>
    obtain ⟨hpr, htype⟩ := List.mem_filter.1 (List.mem_of_find?_eq_some hfind)
    have hfree : 0 < (h.refs pr).nfree := by simpa using List.find?_some hfind
    have hpt : (h.refs pr).blocktype = t := beq_iff_eq.1 htype
    obtain ⟨a, h', heq, hblock, -, hinv', hroots, hkpages, hpab⟩ :=
      hinv.doalloc hpr hfree (hbt.trans (by rw [hpt]))
    refine ⟨some a, h', ?_, .block ?_ hpr hblock hinv' hroots hkpages hpab⟩
    · simp only [heq, ok_bind]
      rfl
    · rintro ⟨t', hbt', hnone⟩
      rw [hbt] at hbt'
      cases hbt'
      rw [hlist, hfind] at hnone
      cases hnone
  | none =>
    have hno : h.NoFreeBlock sz := ⟨t, hbt, hlist.trans (by rw [hfind])⟩
    cases va with
    | none => exact ⟨none, h, rfl, .refused hno (.inl rfl)⟩
    | some p =>
      obtain ⟨hp, hpnew⟩ := hfresh.1 p rfl
      have hback : (h.gotPage p).freeKpage p = h := by
        simp [Kheap.gotPage, Kheap.freeKpage]
      have hrefva : ∀ q, refva = some q → IsKpage q ∧ q ∉ (h.gotPage p).kpages := by
        intro q hq
        obtain ⟨hkq, hnew, hne⟩ := hfresh.2 q hq
        refine ⟨hkq, fun hm => ?_⟩
        rcases List.mem_cons.1 hm with rfl | hm
        · exact hne rfl
        · exact hnew hm
      rcases (hinv.gotPage hp hpnew).allocpageref hrefva with
        ⟨hroot, heq⟩ | ⟨w, k, hroot, hk, hclear, ⟨hnone, hpage, heq⟩ |
          ⟨pr, h₁, heq, hinv₁, hgot, hpr, hm, hbits, hrefs⟩⟩
      · refine ⟨none, h, ?_, .refused hno (.inr hroot)⟩
        simp only [kassert_of hp.1, ok_bind, heq]
        exact congrArg (fun x => Except.ok (none, x)) hback
      · refine ⟨none, _, ?_, .leaked hno (by simp) hnone hroot hpage hk hclear
          (hinv.claim hk hclear)⟩
        simp only [kassert_of hp.1, ok_bind, heq]
        exact congrArg (fun x => Except.ok (none, x.setRoot w ((h.kheaproots w).claim k))) hback
      · obtain ⟨h₂, heq₂, hinv₂, hroots₂, -, htype, -, hfree, hother⟩ := hinv₁.addPage hpr hm ht
        obtain ⟨a, h₃, heq₃, hblock, -, hinv₃, hroots₃, -, hpab⟩ :=
          hinv₂.doalloc (List.mem_cons_self ..) hfree (hbt.trans (by rw [htype]))
        have hroots : h₃.kheaproots = h₁.kheaproots := hroots₃.trans hroots₂
        refine ⟨some a, h₃, ?_, .page rfl hno ?_ hk hclear ?_ ⟨?_, ?_⟩ ?_ hinv₃ ?_⟩
        · simp only [kassert_of hp.1, ok_bind, heq, heq₂, heq₃]
          rfl
        · rintro hn ⟨w', hroot', hnone⟩
          obtain rfl : w' = w := Option.some.inj (hroot'.symm.trans hroot)
          exact hgot hn hnone
        · rw [Marks, hroots]
          exact hm
        · rw [hroots]
          exact hbits.bits
        · rw [hroots]
          exact hbits.pages
        · exact (isBlock_congr (hpab pr)).2 hblock
        · intro pr' hpr'
          rw [hpab, hother pr' (fun he => hpr (he ▸ hpr')), hrefs]
          rfl

/-! ## Release -/

/-- The ways a call of `kfree` for a block in use ends. -/
inductive KfreeOutcome (h : Kheap) (live : List Block) (all : List Nat) (b : Block) :
    Except Crash Kheap → Prop
  /-- other blocks of the page are in use -/
  | block {pr a : Nat} {h' : Kheap} (hpr : pr ∈ all) (hb : (h.refs pr).IsBlock b.addr)
      (ha : (h.refs pr).IsBlock a) (hlive : a ∈ addrs (live.erase b))
      (hinv : HeapInv h' (live.erase b) all none) (hroots : h'.kheaproots = h.kheaproots)
      (hkpages : h'.kpages = h.kpages)
      (hpab : ∀ pr, (h'.refs pr).pageaddr_and_blocktype = (h.refs pr).pageaddr_and_blocktype) :
      KfreeOutcome h live all b (.ok h')
  /-- the page is empty now, and goes back -/
  | page {pr w k : Nat} {h' : Kheap} (hpr : pr ∈ all) (hb : (h.refs pr).IsBlock b.addr)
      (hempty : ∀ a, (h.refs pr).IsBlock a → a ∉ addrs (live.erase b)) (hm : Marks h w k pr)
      (hnull : ∀ w' < w, (h.kheaproots w').page = none → (h.kheaproots w').numinuse = 0)
      (hinv : HeapInv h' (live.erase b) (all.erase pr) none)
      (hroots : h'.kheaproots = (h.setRoot w ((h.kheaproots w).release k)).kheaproots)
      (hkpages : h'.kpages = h.kpages.erase (h.refs pr).pageaddr)
      (hpab : ∀ pr, (h'.refs pr).pageaddr_and_blocktype = (h.refs pr).pageaddr_and_blocktype) :
      KfreeOutcome h live all b (.ok h')
  /-- the assertion of `freepageref` fails -/
  | failed {w : Nat} (hw : w < NUM_PAGEREFPAGES) (hnone : (h.kheaproots w).page = none)
      (hnum : (h.kheaproots w).numinuse ≠ 0) : KfreeOutcome h live all b (.error .kassert)

theorem HeapInv.kfree (hinv : HeapInv h live all none) {b : Block} (hb : b ∈ live) :
    KfreeOutcome h live all b (h.kfree b.addr) := by
  obtain ⟨pr, hpr, hblock, -⟩ := hinv.live_block b hb
  have hok := hinv.page pr hpr
  have hne : b.addr ≠ 0 := by
    have := hblock.1
    have := hok.kpage.2.1
    omega
  -- the walk over the pages stops at the page of the block
  have hfind : h.findPage b.addr TOTAL_PAGEREFS h.allbase = .ok (some pr) := by
    rw [findPage_eq hinv.all_linked hinv.length_le fun x hx =>
      ⟨(hinv.page x hx).type_lt, (hinv.page x hx).kpage⟩]
    cases hf : all.find? fun x =>
        (h.refs x).pageaddr ≤ b.addr ∧ b.addr < (h.refs x).pageaddr + PAGE_SIZE with
    | none =>
      have := List.find?_eq_none.1 hf pr hpr
      simp only [decide_eq_true_eq, not_and, not_lt] at this
      exact absurd (this hblock.1) (Nat.not_le.2 hblock.2.1)
    | some x =>
      have hx := List.mem_of_find?_eq_some hf
      have hin := List.find?_some hf
      simp only [decide_eq_true_eq] at hin
      have h1 := pageaddr_mod (h.refs x)
      have h2 := pageaddr_mod (h.refs pr)
      have hsame : (h.refs x).pageaddr = (h.refs pr).pageaddr := by
        obtain ⟨hb1, hb2, -⟩ := hblock
        unfold PAGE_SIZE at *
        omega
      rw [hinv.page_inj x hx pr hpr hsame]
  have hin : ¬ (PAGE_SIZE ≤ b.addr - (h.refs pr).pageaddr ∨
      (b.addr - (h.refs pr).pageaddr) % sizes (h.refs pr).blocktype ≠ 0) := by
    obtain ⟨hb1, hb2, hb3⟩ := hblock
    rintro (hge | hmod)
    · omega
    · exact hmod hb3
  obtain ⟨h₁, heq₁, hinv₁, hroots₁, hkpages₁, hpab₁⟩ := hinv.pushFree hpr hb hblock
  have hpage₁ : (h₁.refs pr).pageaddr = (h.refs pr).pageaddr := by
    rw [Pageref.pageaddr, Pageref.pageaddr, hpab₁]
  have htype₁ : (h₁.refs pr).blocktype = (h.refs pr).blocktype := by
    rw [Pageref.blocktype, Pageref.blocktype, hpab₁]
  have hsize₁ : (h₁.refs pr).size = sizes (h.refs pr).blocktype := by rw [Pageref.size, htype₁]
  have hblock₁ : ∀ a, (h₁.refs pr).IsBlock a ↔ (h.refs pr).IsBlock a := fun a =>
    isBlock_congr (hpab₁ pr)
  obtain ⟨hle, hfull⟩ := (hinv₁.page pr hpr).nfree_eq_iff
  rw [hsize₁] at hle hfull
  have hcall : h.kfree b.addr = (do
      if (h₁.refs pr).nfree = PAGE_SIZE / sizes (h.refs pr).blocktype then
        let h ← h₁.removeLists pr (h.refs pr).blocktype
        let h ← h.freepageref pr
        return h.freeKpage (h₁.refs pr).pageaddr
      else return h₁) := by
    rw [Kheap.kfree, if_neg hne, subpageKfree, hfind]
    simp only [ok_bind, if_neg hin, heq₁, kassert_of hle, hpage₁]
    split
    · cases h₁.removeLists pr (h.refs pr).blocktype with
      | error e => rfl
      | ok h₂ =>
        simp only [ok_bind]
        cases h₂.freepageref pr <;> rfl
    · rfl
  rw [hcall]
  by_cases hall : (h₁.refs pr).nfree = PAGE_SIZE / sizes (h.refs pr).blocktype
  · have hempty := hfull.1 hall
    obtain ⟨w, k, hm⟩ := hinv.marked pr hpr
    obtain ⟨h₂, heq₂, hinv₂, hroots₂, hkpages₂, hpab₂⟩ := hinv₁.removeLists hpr hempty
    have hroots : h₂.kheaproots = h.kheaproots := hroots₂.trans hroots₁
    have hm₂ : Marks h₂ w k pr := by
      rw [Marks, hroots]
      exact hm
    rw [if_pos hall, ← htype₁, heq₂, ok_bind]
    rcases hinv₂.freepageref_eq hm₂ with ⟨hnull, heq₃⟩ | ⟨⟨w', hw', hnone, hnum⟩, heq₃⟩
    · rw [heq₃]
      have hnot : pr ∉ all.erase pr := fun hx =>
        (hinv.all_linked.nodup.mem_erase_iff.1 hx).1 rfl
      refine .page hpr hblock (fun a ha => hempty a ((hblock₁ a).2 ha)) hm (hroots ▸ hnull)
        (hinv₂.release hnot hm₂).freeKpage ?_ ?_ fun x => ?_
      · change Function.update h₂.kheaproots w _ = Function.update h.kheaproots w _
        rw [hroots]
      · change h₂.kpages.erase _ = _
        rw [hkpages₂, hkpages₁, hpage₁]
      · exact (hpab₂ x).trans (hpab₁ x)
    · rw [heq₃]
      refine .failed (w := w') ?_ ?_ ?_
      · have := hm.1
        omega
      · rw [← hroots]
        exact hnone
      · rw [← hroots]
        exact hnum
  · rw [if_neg hall]
    obtain ⟨a, ha⟩ := not_forall.1 (mt hfull.2 hall)
    obtain ⟨hblk, hlive⟩ := Classical.not_imp.1 ha
    exact .block hpr hblock ((hblock₁ a).1 hblk) (not_not.1 hlive) hinv₁ hroots₁ hkpages₁ hpab₁

end DemandPaging.Kheap
