import DemandPaging.Kheap.Pages
import DemandPaging.Lib.Owners
import Mathlib.Data.Finset.Prod
import Mathlib.Data.List.Perm.Subperm

set_option autoImplicit false

/-! # The invariant of the heap

`HeapInv h live all fly` says what holds in every state: `live` are the blocks in use, `all` the
pagerefs on the list `allbase`, and `fly` the page, if there is one, that the allocator has got or
is about to give back and that is on no list. It says nothing about bits of the root bitmaps that
belong to no pageref; that there are none is `NoLeak`.

The parts of `subpage_kmalloc` and `subpage_kfree` each get one lemma that says they run and keep
the invariant. -/

namespace DemandPaging.Kheap

/-- A block in use, with the size that was asked for. -/
structure Block where
  addr : Nat
  sz : Nat
deriving DecidableEq, Repr

/-- The addresses of the blocks in use. -/
def addrs (live : List Block) : Set Nat := { a | ∃ b ∈ live, b.addr = a }

/-- The bit `k` of the root `w` is set and stands for the pageref `pr`. -/
def Marks (h : Kheap) (w k pr : Nat) : Prop :=
  w < NUM_PAGEREFPAGES ∧ k < NPAGEREFS_PER_PAGE ∧ (h.kheaproots w).pagerefs_inuse k = true ∧
    ∃ page, (h.kheaproots w).page = some page ∧ pr = page + k * PAGEREF_SIZE

/-- What a page of the allocator is for. -/
inductive PageRole
  | blocks (pr : Nat)
  | pagerefs (w : Nat)
  | fly

/-- The page that has a role. -/
def PageOf (h : Kheap) (all : List Nat) (fly : Option Nat) : PageRole → Nat → Prop
  | .blocks pr => fun p => pr ∈ all ∧ (h.refs pr).pageaddr = p
  | .pagerefs w => fun p => w < NUM_PAGEREFPAGES ∧ (h.kheaproots w).page = some p
  | .fly => fun p => fly = some p

structure HeapInv (h : Kheap) (live : List Block) (all : List Nat) (fly : Option Nat) : Prop where
  all_linked : Linked h.nextAll h.allbase all
  size_linked : ∀ t < NSIZES, Linked h.nextSamesize (h.sizebases t)
    (all.filter fun pr => (h.refs pr).blocktype == t)
  page : ∀ pr ∈ all, PageOk (h.refs pr) h.mem (addrs live)
  marked : ∀ pr ∈ all, ∃ w k, Marks h w k pr
  counted : ∀ w, (h.kheaproots w).numinuse
    = countSet (h.kheaproots w).pagerefs_inuse NPAGEREFS_PER_PAGE
  kpages_nodup : h.kpages.Nodup
  kpage : ∀ p ∈ h.kpages, IsKpage p
  pages : Exact (· ∈ h.kpages) (h.PageOf all fly)
  live_nodup : (live.map Block.addr).Nodup
  live_block : ∀ b ∈ live, ∃ pr ∈ all, (h.refs pr).IsBlock b.addr ∧
    Kheap.blocktype b.sz = .ok (h.refs pr).blocktype

/-- Every bit of a root bitmap belongs to a pageref on the list. -/
def NoLeak (h : Kheap) (all : List Nat) : Prop :=
  ∀ w < NUM_PAGEREFPAGES, ∀ k < NPAGEREFS_PER_PAGE, (h.kheaproots w).pagerefs_inuse k = true →
    ∃ page, (h.kheaproots w).page = some page ∧ page + k * PAGEREF_SIZE ∈ all

/-- Every page on the list has a block in use. -/
def Busy (h : Kheap) (live : List Block) (all : List Nat) : Prop :=
  ∀ pr ∈ all, ∃ a ∈ addrs live, (h.refs pr).IsBlock a

variable {h : Kheap} {live : List Block} {all : List Nat} {fly : Option Nat} {a p pr w k : Nat}

theorem mem_addrs_cons {b : Block} : a ∈ addrs (b :: live) ↔ a = b.addr ∨ a ∈ addrs live := by
  simp only [addrs, Set.mem_ofPred_eq, List.mem_cons]
  constructor
  · rintro ⟨c, rfl | hc, rfl⟩
    · exact .inl rfl
    · exact .inr ⟨c, hc, rfl⟩
  · rintro (rfl | ⟨c, hc, rfl⟩)
    · exact ⟨b, .inl rfl, rfl⟩
    · exact ⟨c, .inr hc, rfl⟩

theorem mem_addrs_erase {b : Block} (hnodup : (live.map Block.addr).Nodup) (hb : b ∈ live) :
    a ∈ addrs (live.erase b) ↔ a ∈ addrs live ∧ a ≠ b.addr := by
  have hinj : ∀ c ∈ live, c.addr = b.addr → c = b := fun c hc he =>
    List.inj_on_of_nodup_map hnodup hc hb he
  have hlive : live.Nodup := hnodup.of_map _
  simp only [addrs, Set.mem_ofPred_eq, hlive.mem_erase_iff]
  constructor
  · rintro ⟨c, ⟨hne, hc⟩, rfl⟩
    exact ⟨⟨c, hc, rfl⟩, fun he => hne (hinj c hc he)⟩
  · rintro ⟨⟨c, hc, rfl⟩, hne⟩
    exact ⟨c, ⟨fun he => hne (he ▸ rfl), hc⟩, rfl⟩

namespace HeapInv

/-! ## Reading the invariant -/

theorem page_inj (hinv : HeapInv h live all fly) : ∀ pr ∈ all, ∀ pr' ∈ all,
    (h.refs pr).pageaddr = (h.refs pr').pageaddr → pr = pr' := by
  intro pr hpr pr' hpr' he
  cases hinv.pages.unique (.blocks pr) (.blocks pr') _ ⟨hpr, he⟩ ⟨hpr', rfl⟩
  rfl

theorem fly_apart (hinv : HeapInv h live all (some p)) (hpr : pr ∈ all) :
    (h.refs pr).pageaddr ≠ p := by
  rintro rfl
  cases hinv.pages.unique (.blocks pr) .fly _ ⟨hpr, rfl⟩ rfl

section

variable (hinv : HeapInv h live all fly)
include hinv

/-- The pages that are held. -/
theorem mem_kpages : p ∈ h.kpages ↔ (∃ pr ∈ all, (h.refs pr).pageaddr = p) ∨
      (∃ w < NUM_PAGEREFPAGES, (h.kheaproots w).page = some p) ∨ fly = some p := by
  constructor
  · intro hp
    obtain ⟨pr | w | _, hr⟩ := hinv.pages.covered p hp
    · exact .inl ⟨pr, hr⟩
    · exact .inr (.inl ⟨w, hr⟩)
    · exact .inr (.inr hr)
  · rintro (⟨pr, hr⟩ | ⟨w, hr⟩ | hr)
    · exact hinv.pages.marked (.blocks pr) p hr
    · exact hinv.pages.marked (.pagerefs w) p hr
    · exact hinv.pages.marked .fly p hr

/-- The page of a root is held, and of no other root. -/
theorem root_kpage (hw : w < NUM_PAGEREFPAGES)
    (hp : (h.kheaproots w).page = some p) : p ∈ h.kpages ∧ p % PAGE_SIZE = 0 :=
  have hheld := hinv.pages.marked (.pagerefs w) p ⟨hw, hp⟩
  ⟨hheld, (hinv.kpage p hheld).1⟩

theorem root_inj {w' : Nat} (hw : w < NUM_PAGEREFPAGES)
    (hp : (h.kheaproots w).page = some p) (hw' : w' < NUM_PAGEREFPAGES)
    (hp' : (h.kheaproots w').page = some p) : w' = w := by
  cases hinv.pages.unique (.pagerefs w') (.pagerefs w) p ⟨hw', hp'⟩ ⟨hw, hp⟩
  rfl

/-- A bit that is set stands for one pageref, and a pageref has one bit. -/
theorem marks_unique {w' k' : Nat} (hm : Marks h w k pr)
    (hm' : Marks h w' k' pr) : w' = w ∧ k' = k := by
  obtain ⟨hw, hk, -, page, hpage, rfl⟩ := hm
  obtain ⟨hw', hk', -, page', hpage', heq⟩ := hm'
  have h1 := (hinv.root_kpage hw hpage).2
  have h2 := (hinv.root_kpage hw' hpage').2
  unfold NPAGEREFS_PER_PAGE PAGEREF_SIZE PAGE_SIZE at *
  obtain rfl : page = page' := by omega
  exact ⟨hinv.root_inj hw hpage hw' hpage', by omega⟩

/-- There are at most as many pages on the list as there are pagerefs. -/
theorem length_le : all.length ≤ TOTAL_PAGEREFS := by
  let addr : Nat × Nat → Nat := fun x => ((h.kheaproots x.1).page).getD 0 + x.2 * PAGEREF_SIZE
  have hsub : all.toFinset ⊆
      (Finset.range NUM_PAGEREFPAGES ×ˢ Finset.range NPAGEREFS_PER_PAGE).image addr := by
    intro pr hpr
    obtain ⟨w, k, hw, hk, -, page, hpage, rfl⟩ := hinv.marked pr (List.mem_toFinset.1 hpr)
    refine Finset.mem_image.2 ⟨(w, k), ?_, by simp [addr, hpage]⟩
    exact Finset.mem_product.2 ⟨Finset.mem_range.2 hw, Finset.mem_range.2 hk⟩
  have hcard := (Finset.card_le_card hsub).trans Finset.card_image_le
  rw [List.toFinset_card_of_nodup hinv.all_linked.nodup, Finset.card_product, Finset.card_range,
    Finset.card_range] at hcard
  exact hcard

/-- An address of a block belongs to one page of the list. -/
theorem page_unique {pr' : Nat} (hpr : pr ∈ all) (hpr' : pr' ∈ all)
    (ha : (h.refs pr).IsBlock a) (ha' : (h.refs pr').IsBlock a) : pr' = pr :=
  hinv.page_inj pr' hpr' pr hpr ((isBlock_page ha').symm.trans (isBlock_page ha))

/-- A change of the free lists and of the blocks in use leaves the rest as it is. -/
theorem frame {h' : Kheap} {live' : List Block}
    (hroots : h'.kheaproots = h.kheaproots) (hall : h'.allbase = h.allbase)
    (hsize : h'.sizebases = h.sizebases) (hkpages : h'.kpages = h.kpages)
    (hnext : ∀ pr, h'.nextAll pr = h.nextAll pr)
    (hsame : ∀ pr, h'.nextSamesize pr = h.nextSamesize pr)
    (hpab : ∀ pr, (h'.refs pr).pageaddr_and_blocktype = (h.refs pr).pageaddr_and_blocktype)
    (hpage : ∀ pr ∈ all, PageOk (h'.refs pr) h'.mem (addrs live'))
    (hnodup : (live'.map Block.addr).Nodup)
    (hblock : ∀ b ∈ live', ∃ pr ∈ all, (h.refs pr).IsBlock b.addr ∧
      Kheap.blocktype b.sz = .ok (h.refs pr).blocktype) :
    HeapInv h' live' all fly := by
  have hp : ∀ pr, (h'.refs pr).pageaddr = (h.refs pr).pageaddr := fun pr => by
    rw [Pageref.pageaddr, Pageref.pageaddr, hpab]
  have ht : ∀ pr, (h'.refs pr).blocktype = (h.refs pr).blocktype := fun pr => by
    rw [Pageref.blocktype, Pageref.blocktype, hpab]
  have hs : ∀ pr, (h'.refs pr).size = (h.refs pr).size := fun pr => by
    rw [Pageref.size, Pageref.size, ht]
  refine
    { all_linked := ?_, size_linked := fun t htt => ?_, page := hpage, marked := ?_, counted := ?_,
      kpages_nodup := hkpages ▸ hinv.kpages_nodup, kpage := hkpages ▸ hinv.kpage,
      pages := hkpages ▸ hinv.pages.congr (fun r p => ?_) fun _ => Iff.rfl,
      live_nodup := hnodup, live_block := ?_ }
  · rw [hall]
    exact hinv.all_linked.congr fun pr _ => hnext pr
  · simp only [hsize, ht]
    exact (hinv.size_linked t htt).congr fun pr _ => hsame pr
  · simpa only [Marks, hroots] using hinv.marked
  · simpa only [hroots] using hinv.counted
  · cases r <;> simp only [PageOf, hp, hroots]
  · simpa only [Pageref.IsBlock, hp, hs, ht] using hblock

end

/-! ## Taking and giving back a block -/

section FreeList

variable {offset n : Nat}

theorem refs_setRef (h : Kheap) (pr : Nat) (r : Pageref) (pr' : Nat) :
    (h.setRef pr r).refs pr' = if pr' = pr then r else h.refs pr' := Function.update_apply ..

theorem withFree_nextAll (pr' : Nat) :
    (h.setRef pr ((h.refs pr).withFree offset n)).nextAll pr' = h.nextAll pr' := by
  rw [nextAll, nextAll, refs_setRef]
  split
  · next he => rw [he]; rfl
  · rfl

theorem withFree_nextSamesize (pr' : Nat) :
    (h.setRef pr ((h.refs pr).withFree offset n)).nextSamesize pr' = h.nextSamesize pr' := by
  rw [nextSamesize, nextSamesize, refs_setRef]
  split
  · next he => rw [he]; rfl
  · rfl

theorem withFree_pab (pr' : Nat) :
    ((h.setRef pr ((h.refs pr).withFree offset n)).refs pr').pageaddr_and_blocktype
      = (h.refs pr').pageaddr_and_blocktype := by
  rw [refs_setRef]
  split
  · next he => rw [he]; rfl
  · rfl

end FreeList

section

variable (hinv : HeapInv h live all fly)
include hinv

/-- `doalloc` on a page with a free block: the block was not in use, and now it is. -/
theorem doalloc (hpr : pr ∈ all) (hfree : 0 < (h.refs pr).nfree)
    {sz : Nat} (hsz : Kheap.blocktype sz = .ok (h.refs pr).blocktype) :
    ∃ a h', h.doalloc pr = .ok (a, h') ∧ (h.refs pr).IsBlock a ∧ a ∉ addrs live ∧
      HeapInv h' (⟨a, sz⟩ :: live) all fly ∧ h'.kheaproots = h.kheaproots ∧
      h'.kpages = h.kpages ∧ ∀ pr', (h'.refs pr').pageaddr_and_blocktype
        = (h.refs pr').pageaddr_and_blocktype := by
  obtain ⟨a, offset, heq, hblock, hnew, hok⟩ := doalloc_eq (hinv.page pr hpr) hfree
  refine ⟨a, _, heq, hblock, hnew, ?_, rfl, rfl, withFree_pab⟩
  refine hinv.frame rfl rfl rfl rfl withFree_nextAll withFree_nextSamesize withFree_pab ?_ ?_ ?_
  · intro pr' hpr'
    rw [refs_setRef]
    split
    · refine hok.congr (fun _ _ _ => rfl) fun b _ => ?_
      rw [mem_addrs_cons, Set.mem_insert_iff]
    · next hne =>
      refine (hinv.page pr' hpr').congr (fun _ _ _ => rfl) fun b hb => ?_
      rw [mem_addrs_cons]
      refine or_iff_right ?_
      rintro rfl
      exact hne (hinv.page_unique hpr hpr' hblock hb)
  · rw [List.map_cons, List.nodup_cons]
    refine ⟨fun hm => hnew ?_, hinv.live_nodup⟩
    obtain ⟨b, hb, he⟩ := List.mem_map.1 hm
    exact ⟨b, hb, he⟩
  · intro b hb
    rcases List.mem_cons.1 hb with rfl | hb
    · exact ⟨pr, hpr, hblock, hsz⟩
    · exact hinv.live_block b hb

/-- What is written in one page is not read in another. -/
theorem mem_other_page {pr' b : Nat} (hpr : pr ∈ all)
    (hpr' : pr' ∈ all) (hne : pr' ≠ pr) (ha : (h.refs pr).IsBlock a)
    (hb : (h.refs pr').IsBlock b) : b < a ∨ a + (h.refs pr).size ≤ b := by
  have hend := isBlock_end (hinv.page pr hpr).type_lt ha
  have hpage : (h.refs pr).pageaddr ≠ (h.refs pr').pageaddr := fun he =>
    hne (hinv.page_inj pr hpr pr' hpr' he).symm
  have h1 := pageaddr_mod (h.refs pr)
  have h2 := pageaddr_mod (h.refs pr')
  obtain ⟨ha1, ha2, -⟩ := ha
  obtain ⟨hb1, hb2, -⟩ := hb
  unfold PAGE_SIZE at *
  omega

/-- `pushFree` of a block in use. -/
theorem pushFree (hpr : pr ∈ all) {b : Block} (hb : b ∈ live)
    (hblock : (h.refs pr).IsBlock b.addr) :
    ∃ h', h.pushFree pr (b.addr - (h.refs pr).pageaddr) = .ok h' ∧
      HeapInv h' (live.erase b) all fly ∧ h'.kheaproots = h.kheaproots ∧
      h'.kpages = h.kpages ∧ ∀ pr', (h'.refs pr').pageaddr_and_blocktype
        = (h.refs pr').pageaddr_and_blocktype := by
  have hmem : ∀ a, a ∈ addrs (live.erase b) ↔ a ∈ addrs live ∧ a ≠ b.addr := fun a =>
    mem_addrs_erase hinv.live_nodup hb
  obtain ⟨heq, hkeep, hok⟩ := pushFree_eq (hinv.page pr hpr) hblock ⟨b, hb, rfl⟩
  refine ⟨_, heq, ?_, rfl, rfl, withFree_pab⟩
  refine hinv.frame rfl rfl rfl rfl withFree_nextAll withFree_nextSamesize withFree_pab ?_ ?_ ?_
  · intro pr' hpr'
    change PageOk ((h.setRef pr _).refs pr') _ _
    rw [refs_setRef]
    split
    · exact hok.congr (fun _ _ _ => rfl) fun a _ => hmem a
    · next hne =>
      refine (hinv.page pr' hpr').congr (fun a ha _ => ?_) fun a ha => ?_
      · exact hkeep a (hinv.mem_other_page hpr hpr' hne hblock ha)
      · rw [hmem]
        refine and_iff_left ?_
        rintro rfl
        exact hne (hinv.page_unique hpr hpr' hblock ha)
  · exact (hinv.live_nodup.sublist (List.erase_sublist.map _))
  · exact fun c hc => hinv.live_block c (List.mem_of_mem_erase hc)

/-- Words outside the free blocks do not matter. -/
theorem store {mem : Nat → Nat}
    (hmem : ∀ pr ∈ all, ∀ a, (h.refs pr).IsBlock a → a ∉ addrs live → mem a = h.mem a) :
    HeapInv { h with mem := mem } live all fly :=
  hinv.frame rfl rfl rfl rfl (fun _ => rfl) (fun _ => rfl) (fun _ => rfl)
    (fun pr hpr => (hinv.page pr hpr).congr (hmem pr hpr) fun _ _ => Iff.rfl)
    hinv.live_nodup hinv.live_block

end

/-! ## Pagerefs -/

/-- A page that is on no list. -/
theorem gotPage (hinv : HeapInv h live all none) (hp : IsKpage p) (hnew : p ∉ h.kpages) :
    HeapInv (h.gotPage p) live all (some p) :=
  { hinv with
    kpages_nodup := List.nodup_cons.2 ⟨hnew, hinv.kpages_nodup⟩
    kpage := List.forall_mem_cons.2 ⟨hp, hinv.kpage⟩
    pages := hinv.pages.give .fly hnew
      (fun r q => by cases r <;> simp [PageOf, Kheap.gotPage, eq_comm])
      fun q => by simp [Kheap.gotPage, or_comm] }

/-- `free_kpages` of a page that is on no list. -/
theorem freeKpage (hinv : HeapInv h live all (some p)) : HeapInv (h.freeKpage p) live all none := by
  refine
    { hinv with
      kpages_nodup := hinv.kpages_nodup.erase p
      kpage := fun q hq => hinv.kpage q (List.mem_of_mem_erase hq)
      pages := hinv.pages.drop (· = p) (fun r q => ?_) fun q => ?_ }
  · -- who has the page is no list and no root
    have hfly : h.PageOf all (some p) r q → q = p → r = .fly := fun hr hq =>
      hinv.pages.unique r .fly q hr (congrArg some hq.symm)
    cases r with
    | fly => simp [PageOf, eq_comm]
    | blocks pr | pagerefs w => exact ⟨fun hr => ⟨hr, fun hq => nomatch hfly hr hq⟩, And.left⟩
  · change q ∈ h.kpages.erase p ↔ _
    rw [hinv.kpages_nodup.mem_erase_iff, and_comm]

end HeapInv

end DemandPaging.Kheap
