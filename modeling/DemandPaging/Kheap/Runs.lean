import DemandPaging.Kheap.Calls
import DemandPaging.Lib.Run

set_option autoImplicit false

/-! # Runs of the heap

The heap together with its clients: they call `kmalloc` for less than half a page, `kfree` for a
block they have, and write into their own blocks and into the memory that is not the allocator's.
`HeapSound` is what the clients may rely on in every state.

When `alloc_kpages` may fail, a call can leave a bit of a root bitmap behind. Then a root without a
page counts pagerefs, which `freepageref` asserts it does not. -/

namespace DemandPaging

namespace Kheap

/-- The size of the class that a block belongs to. -/
def Block.size (b : Block) : Nat :=
  match Kheap.blocktype b.sz with
  | .ok t => sizes t
  | .error _ => 0

/-- The page a block is on. -/
def Block.page (b : Block) : Nat := b.addr / PAGE_SIZE * PAGE_SIZE

end Kheap

open Kheap

/-- The heap and the blocks its clients have. -/
structure HeapSys where
  heap : Kheap
  live : List Block

/-- What a client does; a call of `kmalloc` comes with the answers of `alloc_kpages`. -/
inductive HeapOp
  | kmalloc (sz : Nat) (va refva : Option Nat)
  | kfree (b : Block)
  | store (a v : Nat)

/-- `alloc_kpages` does not fail. -/
def HeapOp.Answered : HeapOp → Prop
  | .kmalloc _ va refva => va ≠ none ∧ refva ≠ none
  | _ => True

namespace HeapSys

/-- The heap at boot, with nothing allocated. -/
def boot (refs : Nat → Pageref) (mem : Nat → Nat) : HeapSys where
  heap := Kheap.boot refs mem
  live := []

def next (s : HeapSys) : HeapOp → Except Crash HeapSys
  | .kmalloc sz va refva => do
      let (ret, h) ← s.heap.kmalloc sz va refva
      return { heap := h, live := ret.elim s.live fun a => ⟨a, sz⟩ :: s.live }
  | .kfree b => do
      let h ← s.heap.kfree b.addr
      return { heap := h, live := s.live.erase b }
  | .store a v => return { s with heap := { s.heap with mem := Function.update s.heap.mem a v } }

/-- What clients may do. The word that is written is in a block of theirs or on a page that the
    allocator does not hold. -/
def Allowed (s : HeapSys) : HeapOp → Prop
  | .kmalloc sz va refva => sz < LARGEST_SUBPAGE_SIZE ∧ FreshPages s.heap va refva
  | .kfree b => b ∈ s.live
  | .store a _ => (∃ b ∈ s.live, b.addr ≤ a ∧ a < b.addr + b.sz) ∨
      a / PAGE_SIZE * PAGE_SIZE ∉ s.heap.kpages

/-- Not the call that fails for want of a page of pagerefs: a page for blocks is needed and can be
    had, the first root that is not full has no page, and none can be had for it. -/
def Spared (s : HeapSys) : HeapOp → Prop
  | .kmalloc sz va refva => ¬ (s.heap.NoFreeBlock sz ∧ va ≠ none ∧ s.heap.NeedsPagerefPage ∧
      refva = none)
  | _ => True

/-- A step of a client, with any answers of `alloc_kpages`. -/
def Step (s : HeapSys) (op : HeapOp) (s' : HeapSys) : Prop := s.Allowed op ∧ s.next op = .ok s'

/-- A step in which `alloc_kpages` does not fail. -/
def AnsweredStep (s : HeapSys) (op : HeapOp) (s' : HeapSys) : Prop :=
  s.Step op s' ∧ op.Answered

/-- A step that is not the one that leaves a bit behind. -/
def SparedStep (s : HeapSys) (op : HeapOp) (s' : HeapSys) : Prop := s.Step op s' ∧ s.Spared op

/-- The invariant of the runs. -/
def Inv (s : HeapSys) (all : List Nat) : Prop :=
  HeapInv s.heap s.live all none ∧ Busy s.heap s.live all

variable {s s' : HeapSys} {all : List Nat} {op : HeapOp}

/-! ## One step -/

theorem inv_boot (refs : Nat → Pageref) (mem : Nat → Nat) :
    (boot refs mem).Inv [] ∧ NoLeak (boot refs mem).heap [] := by
  refine ⟨⟨?_, fun pr hpr => by cases hpr⟩, fun w _ k _ hbit => by cases hbit⟩
  have hnone : ∀ r p, ¬ (boot refs mem).heap.PageOf [] none r p := by
    rintro (pr | w | _) p hr
    · exact nomatch hr.1
    · exact nomatch hr.2
    · exact nomatch hr
  exact
    { all_linked := rfl
      size_linked := fun _ _ => rfl
      page := fun pr hpr => by cases hpr
      marked := fun pr hpr => by cases hpr
      counted := fun w => by simp [boot, Kheap.boot, countSet]
      kpages_nodup := List.nodup_nil
      kpage := fun p hp => by cases hp
      pages := ⟨(fun p hp => nomatch hp), fun r p hr => absurd hr (hnone r p), fun r _ p hr =>
        absurd hr (hnone r p)⟩
      live_nodup := List.nodup_nil
      live_block := fun b hb => by cases hb }

/-- With exact bitmaps a root without a page counts no pageref. -/
theorem numinuse_of_noLeak (hinv : s.Inv all) (hleak : NoLeak s.heap all) {w : Nat}
    (hw : w < NUM_PAGEREFPAGES) (hnone : (s.heap.kheaproots w).page = none) :
    (s.heap.kheaproots w).numinuse = 0 := by
  rw [hinv.1.counted, countSet, Finset.card_eq_zero, Finset.filter_eq_empty_iff]
  intro k hk hbit
  obtain ⟨page, hpage, -⟩ := hleak w hw k (Finset.mem_range.1 hk) hbit
  rw [hnone] at hpage
  cases hpage

/-- What a call of `kmalloc` comes to. -/
theorem next_kmalloc (hinv : s.Inv all) {sz : Nat} {va refva : Option Nat}
    (hall : s.Allowed (.kmalloc sz va refva)) :
    ∃ ret h', s.heap.kmalloc sz va refva = .ok (ret, h') ∧
      s.next (.kmalloc sz va refva)
        = .ok { heap := h', live := ret.elim s.live fun a => ⟨a, sz⟩ :: s.live } ∧
      KmallocOutcome s.heap s.live all sz va refva ret h' := by
  obtain ⟨ret, h', heq, hout⟩ := hinv.1.subpageKmalloc hall.1.le hall.2
  have hcall : s.heap.kmalloc sz va refva = .ok (ret, h') :=
    (if_neg (Nat.not_le.2 hall.1)).trans heq
  exact ⟨ret, h', hcall, by rw [next, hcall]; rfl, hout⟩

/-- A block in use keeps its page busy, whatever else comes into use. -/
theorem busy_mono {h h' : Kheap} {live live' : List Block} (hbusy : Busy h live all)
    (hpab : ∀ pr ∈ all, (h'.refs pr).pageaddr_and_blocktype = (h.refs pr).pageaddr_and_blocktype)
    (hsub : ∀ a ∈ addrs live, a ∈ addrs live') : Busy h' live' all := by
  intro pr hpr
  obtain ⟨a, ha, hblock⟩ := hbusy pr hpr
  exact ⟨a, hsub a ha, (isBlock_congr (hpab pr hpr)).2 hblock⟩

/-- A call of `kmalloc` returns, and keeps the invariant. It keeps the bitmaps exact unless it is
    the one that leaves a bit behind. -/
theorem kmalloc_step (hinv : s.Inv all) {sz : Nat} {va refva : Option Nat}
    (hall : s.Allowed (.kmalloc sz va refva)) :
    ∃ s' all', s.next (.kmalloc sz va refva) = .ok s' ∧ s'.Inv all' ∧
      (NoLeak s.heap all → s.Spared (.kmalloc sz va refva) → NoLeak s'.heap all') := by
  obtain ⟨ret, h', -, hnext, hout⟩ := next_kmalloc hinv hall
  rw [hnext]
  cases hout with
  | @block a pr _ _ hpr ha hinv' hroots hkpages hpab =>
    refine ⟨_, all, rfl, ⟨hinv', ?_⟩, fun hleak _ => ?_⟩
    · exact busy_mono hinv.2 (fun pr _ => hpab pr) fun a ha => mem_addrs_cons.2 (.inr ha)
    · rw [NoLeak, hroots]
      exact hleak
  | @page a p pr w k _ hva hno _ hk hclear hm hbits ha hinv' hpab =>
    refine ⟨_, pr :: all, rfl, ⟨hinv', ?_⟩, fun hleak _ => ?_⟩
    · intro x hx
      rcases List.mem_cons.1 hx with rfl | hx
      · exact ⟨a, mem_addrs_cons.2 (.inl rfl), ha⟩
      · exact busy_mono hinv.2 hpab (fun a ha => mem_addrs_cons.2 (.inr ha)) x hx
    · intro w' hw' k' hk' hbit
      change (h'.kheaproots w').pagerefs_inuse k' = true at hbit
      rw [hbits.bits] at hbit
      by_cases hnew : w' = w ∧ k' = k
      · obtain ⟨rfl, rfl⟩ := hnew
        obtain ⟨-, -, -, page, hpage, rfl⟩ := hm
        exact ⟨page, hpage, List.mem_cons_self ..⟩
      · have hold : (s.heap.kheaproots w').pagerefs_inuse k' = true := by
          split at hbit
          · next he =>
            subst he
            rwa [Function.update_of_ne fun hek => hnew ⟨rfl, hek⟩] at hbit
          · exact hbit
        obtain ⟨page, hpage, hmem⟩ := hleak w' hw' k' hk' hold
        refine ⟨page, ?_, List.mem_cons_of_mem _ hmem⟩
        exact (hbits.pages w' (.inr (by rw [hpage]; simp))).trans hpage
  | refused hno hwhy => exact ⟨_, all, rfl, hinv, fun hleak _ => hleak⟩
  | @leaked w k hno hva hrefva hroot hnone hk hclear hinv' =>
    refine ⟨_, all, rfl, ⟨hinv', hinv.2⟩, fun _ hspared => ?_⟩
    exact absurd ⟨hno, hva, ⟨w, hroot, hnone⟩, hrefva⟩ hspared

/-- A call of `kfree` for a block in use keeps the invariant and the bitmaps exact. It returns if
    they are exact. -/
theorem kfree_step (hinv : s.Inv all) {b : Block} (hb : b ∈ s.live) :
    (∃ s' all', s.next (.kfree b) = .ok s' ∧ s'.Inv all' ∧
      (NoLeak s.heap all → NoLeak s'.heap all') ∧
      (b.page ∉ s'.heap.kpages ↔ ∀ c ∈ s'.live, c.page ≠ b.page)) ∨
    (s.next (.kfree b) = .error .kassert ∧ ¬ NoLeak s.heap all) := by
  have hout := hinv.1.kfree hb
  rw [next]
  generalize hres : s.heap.kfree b.addr = res at hout
  cases hout with
  | @block pr a h' hpr hblock ha hlive hinv' hroots hkpages hpab =>
    refine .inl ⟨_, all, rfl, ⟨hinv', ?_⟩, fun hleak => ?_, ?_⟩
    · intro x hx
      obtain ⟨c, hc, hcblock⟩ := hinv.2 x hx
      by_cases he : c = b.addr
      · have : x = pr := hinv.1.page_unique hpr hx hblock (he ▸ hcblock)
        subst this
        exact ⟨a, hlive, (isBlock_congr (hpab x)).2 ha⟩
      · exact ⟨c, (mem_addrs_erase hinv.1.live_nodup hb).2 ⟨hc, he⟩,
          (isBlock_congr (hpab x)).2 hcblock⟩
    · rw [NoLeak, hroots]
      exact hleak
    · obtain ⟨c, hc, rfl⟩ := hlive
      have hp : b.page = _ := isBlock_page hblock
      refine iff_of_false (fun hnot => hnot ?_) fun hnone => ?_
      · rw [hkpages, hp]
        exact hinv.1.pages.marked (.blocks pr) _ ⟨hpr, rfl⟩
      · exact hnone c hc ((isBlock_page ha).trans hp.symm)
  | @page pr w k h' hpr hblock hempty hm _ hinv' hroots hkpages hpab =>
    have hmem : ∀ x, x ∈ all.erase pr ↔ x ≠ pr ∧ x ∈ all := fun x =>
      hinv.1.all_linked.nodup.mem_erase_iff
    refine .inl ⟨_, all.erase pr, rfl, ⟨hinv', ?_⟩, fun hleak => ?_, ?_⟩
    · intro x hx
      obtain ⟨hne, hx⟩ := (hmem x).1 hx
      obtain ⟨c, hc, hcblock⟩ := hinv.2 x hx
      refine ⟨c, (mem_addrs_erase hinv.1.live_nodup hb).2 ⟨hc, ?_⟩,
        (isBlock_congr (hpab x)).2 hcblock⟩
      rintro rfl
      exact hne (hinv.1.page_unique hpr hx hblock hcblock)
    · intro w' hw' k' hk' hbit
      change (h'.kheaproots w').pagerefs_inuse k' = true at hbit
      change ∃ page, (h'.kheaproots w').page = some page ∧ _
      rw [hroots] at hbit ⊢
      by_cases hww : w' = w
      · subst hww
        rw [kheaproots_setRoot_self] at hbit ⊢
        have hne : k' ≠ k := by
          rintro rfl
          simp [KheapRoot.release] at hbit
        have hold : (s.heap.kheaproots w').pagerefs_inuse k' = true := by
          simpa [KheapRoot.release, Function.update_of_ne hne] using hbit
        obtain ⟨page, hpage, hin⟩ := hleak w' hw' k' hk' hold
        refine ⟨page, hpage, (hmem _).2 ⟨?_, hin⟩⟩
        obtain ⟨-, -, -, page', hpage', rfl⟩ := hm
        rw [hpage] at hpage'
        cases hpage'
        unfold PAGEREF_SIZE
        omega
      · rw [kheaproots_setRoot_ne _ hww] at hbit ⊢
        obtain ⟨page, hpage, hin⟩ := hleak w' hw' k' hk' hbit
        refine ⟨page, hpage, (hmem _).2 ⟨?_, hin⟩⟩
        rintro rfl
        exact hww (hinv.1.marks_unique hm ⟨hw', hk', hbit, page, hpage, rfl⟩).1
    · have hp : b.page = _ := isBlock_page hblock
      refine iff_of_true ?_ fun c hc he => ?_
      · change b.page ∉ h'.kpages
        rw [hkpages, hp, hinv.1.kpages_nodup.mem_erase_iff]
        exact fun hx => hx.1 rfl
      · have hc' := List.mem_of_mem_erase hc
        obtain ⟨x, hx, hcblock, -⟩ := hinv.1.live_block c hc'
        have hxp : x = pr := hinv.1.page_inj x hx pr hpr
          ((isBlock_page hcblock).symm.trans (he.trans hp))
        subst hxp
        exact hempty c.addr hcblock ⟨c, hc, rfl⟩
  | failed hw hnone hnum =>
    exact .inr ⟨rfl, fun hleak => hnum (numinuse_of_noLeak hinv hleak hw hnone)⟩

/-- A client writes nothing that the allocator reads. -/
theorem store_step (hinv : s.Inv all) {a v : Nat} (hall : s.Allowed (.store a v)) :
    ∃ s', s.next (.store a v) = .ok s' ∧ s'.Inv all ∧
      (NoLeak s.heap all → NoLeak s'.heap all) := by
  refine ⟨_, rfl, ⟨hinv.1.store fun pr hpr x hx hnot => ?_, hinv.2⟩, fun hleak => hleak⟩
  refine Function.update_of_ne ?_ _ _
  rintro rfl
  rcases hall with ⟨b, hb, hle, hlt⟩ | hpage
  · obtain ⟨y, hy, hblock, hbt⟩ := hinv.1.live_block b hb
    have hsz : b.sz ≤ (s.heap.refs y).size := le_of_blocktype hbt
    by_cases hyp : y = pr
    · subst hyp
      rcases Nat.lt_or_eq_of_le hle with hgt | heq
      · have := isBlock_apart hblock hx hgt
        omega
      · exact hnot ⟨b, hb, heq⟩
    · have := hinv.1.mem_other_page hy hpr (Ne.symm hyp) hblock hx
      omega
  · exact hpage (hinv.1.pages.marked (.blocks pr) _ ⟨hpr, (isBlock_page hx).symm⟩)

/-- Every step that returns keeps the invariant, and every step but one the bitmaps exact. With
    exact bitmaps every step returns. -/
theorem exists_step (hinv : s.Inv all) (hall : s.Allowed op) :
    (∃ s' all', s.next op = .ok s' ∧ s'.Inv all' ∧
      (NoLeak s.heap all → s.Spared op → NoLeak s'.heap all')) ∨
    (s.next op = .error .kassert ∧ ¬ NoLeak s.heap all) := by
  cases op with
  | kmalloc sz va refva => exact .inl (kmalloc_step hinv hall)
  | kfree b =>
    rcases kfree_step hinv hall with ⟨s', all', heq, hinv', hleak, -⟩ | hfail
    · exact .inl ⟨s', all', heq, hinv', fun hl _ => hleak hl⟩
    · exact .inr hfail
  | store a v =>
    obtain ⟨s', heq, hinv', hleak⟩ := store_step hinv hall
    exact .inl ⟨s', all, heq, hinv', fun hl _ => hleak hl⟩

theorem Step.inv (h : s.Step op s') (hinv : s.Inv all) :
    ∃ all', s'.Inv all' ∧ (NoLeak s.heap all → s.Spared op → NoLeak s'.heap all') := by
  obtain ⟨hall, hnext⟩ := h
  rcases exists_step hinv hall with ⟨t, all', heq, hkeeps⟩ | ⟨heq, -⟩
  · cases hnext.symm.trans heq
    exact ⟨all', hkeeps⟩
  · cases hnext.symm.trans heq

theorem exists_next (hinv : s.Inv all) (hleak : NoLeak s.heap all) (hall : s.Allowed op) :
    ∃ s', s.next op = .ok s' := by
  rcases exists_step hinv hall with ⟨s', -, heq, -⟩ | ⟨-, hnot⟩
  · exact ⟨s', heq⟩
  · exact absurd hleak hnot

/-! ## Runs -/

variable {refs : Nat → Pageref} {mem : Nat → Nat}

theorem inv_of_reaches (hr : Reaches Step (boot refs mem) s) : ∃ all, s.Inv all := by
  refine hr.invariant (P := fun s => ∃ all, s.Inv all) ?_ ⟨[], (inv_boot refs mem).1⟩
  rintro t op t' ⟨all, hinv⟩ hs
  obtain ⟨all', hinv', -⟩ := hs.inv hinv
  exact ⟨all', hinv'⟩

theorem noLeak_of_reaches (hr : Reaches SparedStep (boot refs mem) s) :
    ∃ all, s.Inv all ∧ NoLeak s.heap all := by
  refine hr.invariant (P := fun s => ∃ all, s.Inv all ∧ NoLeak s.heap all) ?_
    ⟨[], inv_boot refs mem⟩
  rintro t op t' ⟨all, hinv, hleak⟩ ⟨hs, hspared⟩
  obtain ⟨all', hinv', hleak'⟩ := hs.inv hinv
  exact ⟨all', hinv', hleak' hleak hspared⟩

theorem spared_of_answered (h : op.Answered) (s : HeapSys) : s.Spared op := by
  cases op with
  | kmalloc sz va refva => exact fun hx => h.2 hx.2.2.2
  | kfree b => trivial
  | store a v => trivial

/-- The free list of a page: it ends, it stays in the page at multiples of the block size, and it
    holds the blocks that are not in use, as many as `nfree` says. -/
def FreeListExact (s : HeapSys) (pr : Nat) : Prop :=
  ∃ fl : List Nat, Linked (nextFree s.heap.mem) (s.heap.refs pr).freeHead fl ∧ fl.Nodup ∧
    fl.length = (s.heap.refs pr).nfree ∧
    ∀ a, a ∈ fl ↔ ((s.heap.refs pr).pageaddr ≤ a ∧ a < (s.heap.refs pr).pageaddr + PAGE_SIZE ∧
      (a - (s.heap.refs pr).pageaddr) % (s.heap.refs pr).size = 0) ∧ ∀ b ∈ s.live, b.addr ≠ a

/-- What the clients may rely on. -/
structure HeapSound (s : HeapSys) : Prop where
  /-- the blocks in use do not overlap, each over the whole size of its class -/
  apart : s.live.Pairwise fun b c => b.addr + b.size ≤ c.addr ∨ c.addr + c.size ≤ b.addr
  /-- they are aligned to it, and as long as was asked for -/
  aligned : ∀ b ∈ s.live, b.addr % b.size = 0 ∧ b.sz ≤ b.size
  /-- the pages in use are on `allbase` once and on the list of their class once -/
  lists : ∃ all : List Nat, Linked s.heap.nextAll s.heap.allbase all ∧ all.Nodup ∧
    (∀ t < NSIZES, Linked s.heap.nextSamesize (s.heap.sizebases t)
      (all.filter fun pr => (s.heap.refs pr).blocktype == t)) ∧
    (∀ p, (∃ b ∈ s.live, b.page = p) ↔ ∃ pr ∈ all, (s.heap.refs pr).pageaddr = p) ∧
    (∀ pr ∈ all, ∀ pr' ∈ all, (s.heap.refs pr).pageaddr = (s.heap.refs pr').pageaddr → pr = pr') ∧
    ∀ pr ∈ all, (s.heap.refs pr).blocktype < NSIZES ∧ s.FreeListExact pr ∧
      (∀ b ∈ s.live, b.page = (s.heap.refs pr).pageaddr → b.size = (s.heap.refs pr).size) ∧
      -- one pageref is marked for it
      ∃! x : Nat × Nat, Marks s.heap x.1 x.2 pr
  /-- no other pageref is marked -/
  marked : ∀ w < NUM_PAGEREFPAGES, ∀ k < NPAGEREFS_PER_PAGE,
    (s.heap.kheaproots w).pagerefs_inuse k = true →
      ∃ pr, Marks s.heap w k pr ∧ ∃ b ∈ s.live, b.page = (s.heap.refs pr).pageaddr
  /-- the pages that are held are those with a block in use and those of the pagerefs -/
  held : ∀ p, p ∈ s.heap.kpages ↔ (∃ b ∈ s.live, b.page = p) ∨
    ∃ w < NUM_PAGEREFPAGES, (s.heap.kheaproots w).page = some p

theorem heapSound_of_inv (hinv : s.Inv all) (hleak : NoLeak s.heap all) : s.HeapSound := by
  have hsize : ∀ (b : Block) pr, Kheap.blocktype b.sz = .ok (s.heap.refs pr).blocktype →
      b.size = (s.heap.refs pr).size := fun b pr hbt => by rw [Block.size, hbt, Pageref.size]
  have hpages : ∀ p, (∃ b ∈ s.live, b.page = p) ↔ ∃ pr ∈ all, (s.heap.refs pr).pageaddr = p := by
    intro p
    constructor
    · rintro ⟨b, hb, rfl⟩
      obtain ⟨pr, hpr, hblock, -⟩ := hinv.1.live_block b hb
      exact ⟨pr, hpr, (isBlock_page hblock).symm⟩
    · rintro ⟨pr, hpr, rfl⟩
      obtain ⟨a, ⟨b, hb, rfl⟩, hblock⟩ := hinv.2 pr hpr
      exact ⟨b, hb, isBlock_page hblock⟩
  refine
    { apart := ?_
      aligned := fun b hb => ?_
      lists := ⟨all, hinv.1.all_linked, hinv.1.all_linked.nodup, hinv.1.size_linked, hpages,
        hinv.1.page_inj, fun pr hpr => ⟨(hinv.1.page pr hpr).type_lt, ?_, fun b hb he => ?_, ?_⟩⟩
      marked := fun w hw k hk hbit => ?_
      held := fun p => ?_ }
  · refine List.Pairwise.imp_of_mem ?_ (List.pairwise_map.1 hinv.1.live_nodup)
    intro b c hb hc hne
    obtain ⟨pr, hpr, hblock, hbt⟩ := hinv.1.live_block b hb
    obtain ⟨pr', hpr', hblock', hbt'⟩ := hinv.1.live_block c hc
    rw [hsize b pr hbt, hsize c pr' hbt']
    by_cases he : pr' = pr
    · subst he
      rcases Nat.lt_or_gt_of_ne hne with hlt | hgt
      · exact .inl (isBlock_apart hblock hblock' hlt)
      · exact .inr (isBlock_apart hblock' hblock hgt)
    · rcases hinv.1.mem_other_page hpr hpr' he hblock hblock' with hlt | hge
      · rcases hinv.1.mem_other_page hpr' hpr (Ne.symm he) hblock' hblock with hlt' | hge'
        · omega
        · exact .inr hge'
      · exact .inl hge
  · obtain ⟨pr, hpr, hblock, hbt⟩ := hinv.1.live_block b hb
    rw [hsize b pr hbt]
    exact ⟨isBlock_aligned (hinv.1.page pr hpr).type_lt hblock, le_of_blocktype hbt⟩
  · obtain ⟨fl, hlink, hlen, hfl⟩ := (hinv.1.page pr hpr).free
    refine ⟨fl, hlink, hlink.nodup, hlen, fun a => (hfl a).trans (and_congr_right fun _ => ?_)⟩
    exact ⟨fun hn b hb he => hn ⟨b, hb, he⟩, fun hn hx => hx.elim fun b hb => hn b hb.1 hb.2⟩
  · obtain ⟨pr', hpr', hblock, hbt⟩ := hinv.1.live_block b hb
    have : pr' = pr := hinv.1.page_inj pr' hpr' pr hpr ((isBlock_page hblock).symm.trans he)
    subst this
    exact hsize b pr' hbt
  · obtain ⟨w, k, hm⟩ := hinv.1.marked pr hpr
    refine ⟨(w, k), hm, fun x hx => ?_⟩
    obtain ⟨h1, h2⟩ := hinv.1.marks_unique hm hx
    exact Prod.ext h1 h2
  · obtain ⟨page, hpage, hmem⟩ := hleak w hw k hk hbit
    exact ⟨_, ⟨hw, hk, hbit, page, hpage, rfl⟩, (hpages _).2 ⟨_, hmem, rfl⟩⟩
  · rw [hinv.1.mem_kpages, hpages]
    simp

/-- **The subpage allocator.** As long as `alloc_kpages` answers with pages that are not in use, in
    every state the heap is sound and every call returns, and `kfree` gives a page back exactly when
    it frees the last block on it. -/
theorem heap_sound (refs : Nat → Pageref) (mem : Nat → Nat) (s : HeapSys)
    (hr : Reaches AnsweredStep (boot refs mem) s) :
    s.HeapSound ∧ ∀ op, s.Allowed op → op.Answered → ∃ s', s.next op = .ok s' ∧
      ∀ b, op = .kfree b → (b.page ∉ s'.heap.kpages ↔ ∀ c ∈ s.live.erase b, c.page ≠ b.page) := by
  obtain ⟨all, hinv, hleak⟩ := noLeak_of_reaches
    (hr.mono fun t _ _ hs => ⟨hs.1, spared_of_answered hs.2 t⟩)
  refine ⟨heapSound_of_inv hinv hleak, fun op hall _ => ?_⟩
  obtain ⟨s', heq⟩ := exists_next hinv hleak hall
  refine ⟨s', heq, ?_⟩
  rintro b rfl
  rcases kfree_step hinv hall with ⟨t, -, ht, -, -, hback⟩ | ⟨herr, -⟩
  · have hlive : t.live = s.live.erase b := by
      rw [next] at ht
      obtain ⟨h', -, hpure⟩ := bind_eq_ok.1 ht
      rw [← pure_eq_ok.1 hpure]
    rw [ht] at heq
    cases heq
    rw [← hlive]
    exact hback
  · rw [heq] at herr
    cases herr

/-- A heap at boot in which every word is zero. -/
def zeroHeap : HeapSys := boot (fun _ => ⟨none, none, 0, 0, 0⟩) fun _ => 0

/-- With no page held, `alloc_kpages` may answer with these. -/
theorem allowed_of_noPages {sz : Nat} {refva : Option Nat} (hsz : sz < LARGEST_SUBPAGE_SIZE)
    (hkp : s.heap.kpages = []) (hrefva : ∀ q, refva = some q → q = 0x80002000) :
    s.Allowed (.kmalloc sz (some 0x80001000) refva) := by
  refine ⟨hsz, fun p hp => ?_, fun q hq => ?_⟩
  · cases hp
    exact ⟨⟨by decide, by decide, by decide⟩, by simp [hkp]⟩
  · obtain rfl := hrefva q hq
    exact ⟨⟨by decide, by decide, by decide⟩, by simp [hkp], by decide⟩

instance (p : Nat) : Decidable (IsKpage p) := inferInstanceAs (Decidable (_ ∧ _ ∧ _))

instance (op : HeapOp) : Decidable (s.Allowed op ∧ op.Answered) :=
  match op with
  | .kmalloc sz va refva => inferInstanceAs (Decidable ((sz < LARGEST_SUBPAGE_SIZE ∧
      (∀ p ∈ va, IsKpage p ∧ p ∉ s.heap.kpages) ∧
        ∀ q ∈ refva, IsKpage q ∧ q ∉ s.heap.kpages ∧ va ≠ some q) ∧ va ≠ none ∧ refva ≠ none))
  | .kfree b => inferInstanceAs (Decidable (b ∈ s.live ∧ True))
  | .store a _ => inferInstanceAs (Decidable (((∃ b ∈ s.live, b.addr ≤ a ∧ a < b.addr + b.sz) ∨
      a / PAGE_SIZE * PAGE_SIZE ∉ s.heap.kpages) ∧ True))

/-- Two blocks of one page are had, the second is written, and the first is freed. -/
def mallocMallocFree : List HeapOp :=
  [.kmalloc 100 (some 0x80001000) (some 0x80002000),
    .kmalloc 100 (some 0x80003000) (some 0x80004000), .store 0x80001f00 7,
    .kfree ⟨0x80001f80, 100⟩]

/-- The other block is left, and there is none of another size. -/
theorem reaches_oneLeft : ∃ s, Reaches AnsweredStep zeroHeap s ∧ s.live = [⟨0x80001f00, 100⟩] ∧
    (s.heap.kmalloc 16 none none).toOption.map Prod.fst = some none := by
  have hreplay : (replay (fun s op =>
      if s.Allowed op ∧ op.Answered then (s.next op).toOption else none) zeroHeap
      mallocMallocFree).map (fun s => decide (s.live = [⟨0x80001f00, 100⟩] ∧
        (s.heap.kmalloc 16 none none).toOption.map Prod.fst = some none)) = some true := by
    decide +kernel
  have hstep : ∀ s s' op, op ∈ mallocMallocFree →
      (if s.Allowed op ∧ op.Answered then (s.next op).toOption else none) = some s' →
      AnsweredStep s op s' := by
    intro s s' op _ hnext
    obtain ⟨⟨hall, hans⟩, hrun⟩ := of_ite_toOption hnext
    exact ⟨⟨hall, hrun⟩, hans⟩
  obtain ⟨s, hr, hs⟩ := exists_reaches_of_replay hstep hreplay
  exact ⟨s, hr, of_decide_eq_true hs⟩

/-- One of two blocks is freed again. -/
theorem zeroHeap_sound : ∃ s, Reaches AnsweredStep zeroHeap s ∧
    s.live = [⟨0x80001f00, 100⟩] ∧ s.HeapSound := by
  obtain ⟨s, hr, hlive, -⟩ := reaches_oneLeft
  exact ⟨s, hr, hlive, (heap_sound _ _ s hr).1⟩

/-! ## When `alloc_kpages` fails -/

/-- If the call returns NULL, the bitmaps and counts of the roots and both lists are as before, and
    the pages that were had are given back. -/
def KeepsBooks (s : HeapSys) (sz : Nat) (va refva : Option Nat) : Prop :=
  ∀ h', s.heap.kmalloc sz va refva = .ok (none, h') →
    h'.kheaproots = s.heap.kheaproots ∧ h'.refs = s.heap.refs ∧
      h'.sizebases = s.heap.sizebases ∧ h'.allbase = s.heap.allbase ∧
      h'.kpages = s.heap.kpages

/-- **Failed calls.** In every state a failed call keeps the books exactly when it is not the one
    that sets a bit for a pageref and gets no page to put it on. If no call is of this kind, a root
    without a page never counts a pageref, and every call returns. -/
theorem failed_kmalloc_iff (refs : Nat → Pageref) (mem : Nat → Nat) :
    (∀ s, Reaches Step (boot refs mem) s → ∀ sz va refva, s.Allowed (.kmalloc sz va refva) →
      (s.KeepsBooks sz va refva ↔ s.Spared (.kmalloc sz va refva))) ∧
    ∀ s, Reaches SparedStep (boot refs mem) s →
      (∀ w < NUM_PAGEREFPAGES, (s.heap.kheaproots w).page = none →
        (s.heap.kheaproots w).numinuse = 0) ∧
      ∀ op, s.Allowed op → ∃ s', s.next op = .ok s' := by
  constructor
  · intro s hr sz va refva hall
    obtain ⟨all, hinv⟩ := inv_of_reaches hr
    obtain ⟨ret, h', heq, -, hout⟩ := next_kmalloc hinv hall
    unfold KeepsBooks
    rw [heq]
    cases hout with
    | block hfree => exact iff_of_true (fun _ h => by cases h) fun hx => hfree hx.1
    | page hva hno hgot =>
      exact iff_of_true (fun _ h => by cases h) fun hx => hgot hx.2.2.2 hx.2.2.1
    | refused hno hwhy =>
      refine iff_of_true (fun _ h => ?_) ?_
      · cases h
        exact ⟨rfl, rfl, rfl, rfl, rfl⟩
      · rintro ⟨-, hva, ⟨w, hroot, -⟩, -⟩
        rcases hwhy with hnone | hfull
        · exact hva hnone
        · rw [hfull] at hroot
          cases hroot
    | @leaked w k hno hva hrefva hroot hnone hk hclear =>
      refine iff_of_false (fun hkeep => ?_) fun hx => hx ⟨hno, hva, ⟨w, hroot, hnone⟩, hrefva⟩
      -- the count of the root has changed
      have hsame := congrArg (fun r => (r w).numinuse) (hkeep _ rfl).1
      simp only [kheaproots_setRoot_self, KheapRoot.claim] at hsame
      omega
  · intro s hr
    obtain ⟨all, hinv, hleak⟩ := noLeak_of_reaches hr
    exact ⟨fun w hw hnone => numinuse_of_noLeak hinv hleak hw hnone,
      fun op hall => exists_next hinv hleak hall⟩

/-- With a block in use, and no page to be had for one of another size. -/
theorem zeroHeap_keepsBooks : ∃ s, Reaches Step zeroHeap s ∧ s.live = [⟨0x80001f00, 100⟩] ∧
    (s.heap.kmalloc 16 none none).toOption.map Prod.fst = some none ∧
    s.KeepsBooks 16 none none := by
  obtain ⟨s, hr, hlive, hnone⟩ := reaches_oneLeft
  have hr' : Reaches Step zeroHeap s := hr.mono fun _ _ _ hs => hs.1
  refine ⟨s, hr', hlive, hnone,
    ((failed_kmalloc_iff _ _).1 s hr' 16 none none ⟨by decide, ?_⟩).2 ?_⟩
  · exact ⟨(fun p hp => nomatch hp), fun q hq => nomatch hq⟩
  · exact fun hx => hx.2.1 rfl

/-- Pages for blocks can be had and pages of pagerefs cannot, `n` times: the first root counts `n`
    pagerefs and has no page. -/
theorem leaks (n : Nat) (hn : n ≤ NPAGEREFS_PER_PAGE) :
    ∃ s, Reaches Step zeroHeap s ∧ s.live = [] ∧ s.Inv [] ∧
      (s.heap.kheaproots 0).page = none ∧ (s.heap.kheaproots 0).numinuse = n ∧
      (s.heap.kheaproots 1).numinuse = 0 ∧ s.heap.kpages = [] := by
  induction n with
  | zero => exact ⟨zeroHeap, .refl, rfl, (inv_boot _ _).1, rfl, rfl, rfl, rfl⟩
  | succ n ih =>
    obtain ⟨s, hr, hlive, hinv, hpage, hnum, hnum1, hkp⟩ := ih (by omega)
    have hroot : s.heap.firstRoot = some 0 := by
      have hlt : (s.heap.kheaproots 0).numinuse < NPAGEREFS_PER_PAGE := by omega
      rw [firstRoot, search, show NUM_PAGEREFPAGES = 15 + 1 from rfl, searchFrom,
        if_pos (decide_eq_true hlt)]
    have hallowed : s.Allowed (.kmalloc 16 (some 0x80001000) none) :=
      allowed_of_noPages (by decide) hkp fun _ hq => by cases hq
    obtain ⟨ret, h', -, hnext, hout⟩ := next_kmalloc hinv hallowed
    have hreach := Reaches.tail hr ⟨hallowed, hnext⟩
    cases hout with
    | block _ hpr => cases hpr
    | page _ _ hgot => exact absurd ⟨0, hroot, hpage⟩ (hgot rfl)
    | refused _ hwhy =>
      rcases hwhy with hva | hfull
      · cases hva
      · rw [hroot] at hfull
        cases hfull
    | @leaked w k _ _ _ hw _ hk hclear hinv' =>
      obtain rfl : w = 0 := Option.some.inj (hw.symm.trans hroot)
      refine ⟨_, hreach, hlive, ⟨hinv', fun pr hpr => by cases hpr⟩, ?_, ?_, ?_, hkp⟩
      · exact (page_setRoot (by rfl) 0).trans hpage
      · change ((s.heap.setRoot 0 _).kheaproots 0).numinuse = n + 1
        rw [kheaproots_setRoot_self, KheapRoot.claim, hnum]
      · change ((s.heap.setRoot 0 _).kheaproots 1).numinuse = 0
        rw [kheaproots_setRoot_ne _ (by decide)]
        exact hnum1

/-- A single failed call leaves a bit and a count behind. After 256 of them the first root is full
    and has no page. The next block gets its pageref from the second root, and releasing it trips
    the assertion of `freepageref`. -/
theorem leak_trips_freepageref :
    (∃ h', zeroHeap.heap.kmalloc 16 (some 0x80001000) none = .ok (none, h') ∧
      (h'.kheaproots 0).page = none ∧ (h'.kheaproots 0).pagerefs_inuse 0 = true ∧
      (h'.kheaproots 0).numinuse = 1 ∧ (zeroHeap.heap.kheaproots 0).numinuse = 0) ∧
    ¬ zeroHeap.KeepsBooks 16 (some 0x80001000) none ∧
    ∃ s b, Reaches Step zeroHeap s ∧ b ∈ s.live ∧ s.next (.kfree b) = .error .kassert := by
  refine ⟨⟨_, rfl, rfl, rfl, rfl, rfl⟩, fun hkeep => ?_, ?_⟩
  · have hsame := congrArg (fun r => (r 0).numinuse) (hkeep _ rfl).1
    cases hsame
  obtain ⟨s, hr, hlive, hinv, hpage, hnum, hnum1, hkp⟩ := leaks NPAGEREFS_PER_PAGE le_rfl
  have hroot : s.heap.firstRoot = some 1 := by
    have hge : ¬ (s.heap.kheaproots 0).numinuse < NPAGEREFS_PER_PAGE := by omega
    have hlt : (s.heap.kheaproots 1).numinuse < NPAGEREFS_PER_PAGE := by
      rw [hnum1]
      decide
    rw [firstRoot, search, show NUM_PAGEREFPAGES = 14 + 1 + 1 from rfl, searchFrom,
      if_neg (by simpa using hge), searchFrom, if_pos (decide_eq_true hlt)]
  have hallowed : s.Allowed (.kmalloc 16 (some 0x80001000) (some 0x80002000)) :=
    allowed_of_noPages (by decide) hkp (by simp)
  obtain ⟨ret, h', -, hnext, hout⟩ := next_kmalloc hinv hallowed
  have hreach := Reaches.tail hr ⟨hallowed, hnext⟩
  cases hout with
  | block _ hpr => cases hpr
  | refused _ hwhy =>
    rcases hwhy with hva | hfull
    · cases hva
    · rw [hroot] at hfull
      cases hfull
  | leaked _ _ hrefva => cases hrefva
  | @page a p pr w k _ _ _ _ hk hclear hm hbits ha hinv' hpab =>
    -- all bits of the first root are set, so the pageref is on another one
    have hfull : ∀ k < NPAGEREFS_PER_PAGE, (s.heap.kheaproots 0).pagerefs_inuse k = true :=
      all_set_of_countSet_eq ((hinv.1.counted 0).symm.trans hnum)
    have hw : 0 ≠ w := by
      rintro rfl
      rw [hfull k hk] at hclear
      cases hclear
    have hpage' : (h'.kheaproots 0).page = none := (hbits.pages 0 (.inl hw)).trans hpage
    have hnum' : (h'.kheaproots 0).numinuse ≠ 0 := by
      rw [hinv'.counted 0, hbits.bits 0, if_neg hw, ← hinv.1.counted 0, hnum]
      decide
    rw [hlive] at hreach hinv'
    refine ⟨_, ⟨a, 16⟩, hreach, List.mem_singleton.2 rfl, ?_⟩
    have hfree := hinv'.kfree (List.mem_singleton.2 rfl)
    rw [next]
    generalize h'.kfree a = res at hfree
    cases hfree with
    | block _ _ _ hmem =>
      obtain ⟨c, hc, -⟩ := hmem
      simp at hc
    | @page pr' w' k' _ hpr' _ _ hm' hnull =>
      obtain rfl : pr' = pr := by simpa using hpr'
      obtain ⟨rfl, -⟩ := hinv'.marks_unique hm hm'
      exact absurd (hnull 0 (Nat.pos_of_ne_zero hw.symm) hpage') hnum'
    | failed => rfl

end HeapSys

end DemandPaging
