import DemandPaging.Kheap
import Mathlib.Data.Finset.Card
import Mathlib.Data.Set.Defs
import Mathlib.Tactic.IntervalCases

set_option autoImplicit false

/-! # One page of the heap

The blocks of a page, what a well-formed free list is (`PageOk`), and what `doalloc`, the threading
of a fresh page and the release of a block do to it. `L` stands for the addresses of the blocks that
are in use. -/

namespace DemandPaging

open Function

namespace Kheap

/-- Pages that `alloc_kpages` can answer with: `PADDR_TO_KVADDR` of a page of RAM, of which there
    are at most 512M. -/
def IsKpage (p : Nat) : Prop := p % PAGE_SIZE = 0 ∧ 0x80000000 ≤ p ∧ p < 0xa0000000

/-- The link in the first word of a free block. -/
def nextFree (mem : Nat → Nat) (a : Nat) : Option Nat := if mem a = 0 then none else some (mem a)

end Kheap

/-! ## Blocks -/

namespace Pageref

/-- The size of the blocks of the page. -/
def size (r : Pageref) : Nat := Kheap.sizes r.blocktype

/-- The address `a` is the start of a block of the page. -/
def IsBlock (r : Pageref) (a : Nat) : Prop :=
  r.pageaddr ≤ a ∧ a < r.pageaddr + PAGE_SIZE ∧ (a - r.pageaddr) % r.size = 0

/-- Another free list. -/
def withFree (r : Pageref) (offset nfree : Nat) : Pageref :=
  { r with freelist_offset := offset, nfree := nfree }

/-- The first free block of the page. -/
def freeHead (r : Pageref) : Option Nat :=
  if r.freelist_offset = Kheap.INVALID_OFFSET then none
  else some (r.pageaddr + r.freelist_offset)

end Pageref

namespace Kheap

variable {h : Kheap} {r : Pageref} {mem mem' : Nat → Nat} {L L' : Set Nat} {a b p t : Nat}

theorem sizes_spec (ht : t < NSIZES) :
    16 ≤ sizes t ∧ sizes t ≤ 2048 ∧ PAGE_SIZE / sizes t * sizes t = PAGE_SIZE := by
  unfold NSIZES at ht
  interval_cases t <;> decide

theorem pageaddr_mod (r : Pageref) : r.pageaddr % PAGE_SIZE = 0 := Nat.mul_mod_left ..

theorem pageaddr_MKPAB (hp : p % PAGE_SIZE = 0) (ht : t < NSIZES) :
    MKPAB p t / PAGE_SIZE * PAGE_SIZE = p ∧ MKPAB p t % PAGE_SIZE = t := by
  unfold MKPAB PAGE_SIZE NSIZES at *
  omega

/-- A block lies in its page. -/
theorem isBlock_end (ht : r.blocktype < NSIZES) (h : r.IsBlock a) :
    a + r.size ≤ r.pageaddr + PAGE_SIZE := by
  obtain ⟨h1, h2, h3⟩ := h
  obtain ⟨hpos, -, hdiv⟩ := sizes_spec ht
  obtain ⟨c, hc⟩ := Nat.dvd_of_mod_eq_zero h3
  have hdiv : PAGE_SIZE / r.size * r.size = PAGE_SIZE := hdiv
  rw [Nat.mul_comm] at hc
  have hlt : c < PAGE_SIZE / r.size := by
    by_contra hge
    have := Nat.mul_le_mul_right r.size (Nat.le_of_not_lt hge)
    omega
  have hmul := Nat.mul_le_mul_right r.size (Nat.succ_le_of_lt hlt)
  rw [Nat.succ_mul] at hmul
  omega

/-- Two blocks of a page are the same or do not overlap. -/
theorem isBlock_apart (ha : r.IsBlock a) (hb : r.IsBlock b) (hlt : a < b) : a + r.size ≤ b := by
  obtain ⟨h1, -, h3⟩ := ha
  obtain ⟨h1', -, h3'⟩ := hb
  have hdvd : r.size ∣ (b - r.pageaddr) - (a - r.pageaddr) :=
    Nat.dvd_sub (Nat.dvd_of_mod_eq_zero h3') (Nat.dvd_of_mod_eq_zero h3)
  have := Nat.le_of_dvd (by omega) hdvd
  omega

/-- Blocks are aligned to their size. -/
theorem isBlock_aligned (ht : r.blocktype < NSIZES) (h : r.IsBlock a) : a % r.size = 0 := by
  obtain ⟨h1, -, h3⟩ := h
  have hpage : r.size ∣ r.pageaddr := by
    have hsz : r.size ∣ PAGE_SIZE := Dvd.intro_left _ (sizes_spec ht).2.2
    exact hsz.trans (Nat.dvd_of_mod_eq_zero (pageaddr_mod r))
  have hdvd := Nat.dvd_add hpage (Nat.dvd_of_mod_eq_zero h3)
  rw [Nat.add_sub_cancel' h1] at hdvd
  exact Nat.mod_eq_zero_of_dvd hdvd

/-- Pages with different addresses have no block in common. -/
theorem isBlock_page (ha : r.IsBlock a) : a / PAGE_SIZE * PAGE_SIZE = r.pageaddr := by
  have := pageaddr_mod r
  unfold Pageref.IsBlock PAGE_SIZE at *
  omega

/-- The page and the size of its blocks determine the blocks. -/
theorem isBlock_congr {r' : Pageref} (h : r'.pageaddr_and_blocktype = r.pageaddr_and_blocktype) :
    r'.IsBlock a ↔ r.IsBlock a := by
  rw [Pageref.IsBlock, Pageref.IsBlock, Pageref.size, Pageref.size, Pageref.pageaddr,
    Pageref.pageaddr, Pageref.blocktype, Pageref.blocktype, h]

/-- The blocks of a page as a finite set. -/
def blockSet (r : Pageref) : Finset Nat :=
  (Finset.range (PAGE_SIZE / r.size)).image fun i => r.pageaddr + i * r.size

theorem mem_blockSet (ht : r.blocktype < NSIZES) : a ∈ blockSet r ↔ r.IsBlock a := by
  obtain ⟨hpos, -, hdiv⟩ := sizes_spec ht
  have hpos : 0 < r.size := by unfold Pageref.size; omega
  constructor
  · intro h
    obtain ⟨i, hi, rfl⟩ := Finset.mem_image.1 h
    have hmul := Nat.mul_le_mul_right r.size (Nat.succ_le_of_lt (Finset.mem_range.1 hi))
    rw [show PAGE_SIZE / r.size * r.size = PAGE_SIZE from hdiv, Nat.succ_mul] at hmul
    refine ⟨by omega, by omega, ?_⟩
    rw [Nat.add_sub_cancel_left]
    exact Nat.mul_mod_left ..
  · rintro ⟨h1, h2, h3⟩
    have hd := Nat.div_mul_cancel (Nat.dvd_of_mod_eq_zero h3)
    refine Finset.mem_image.2 ⟨(a - r.pageaddr) / r.size, Finset.mem_range.2 ?_, by omega⟩
    rw [Nat.div_lt_iff_lt_mul hpos, show PAGE_SIZE / r.size * r.size = PAGE_SIZE from hdiv]
    omega

theorem card_blockSet (ht : r.blocktype < NSIZES) : (blockSet r).card = PAGE_SIZE / r.size := by
  have hpos : 0 < r.size := by
    have := (sizes_spec ht).1
    unfold Pageref.size
    omega
  rw [blockSet, Finset.card_image_of_injective, Finset.card_range]
  intro i j hij
  have : i * r.size = j * r.size := by simpa using hij
  exact Nat.eq_of_mul_eq_mul_right hpos this

/-! ## The free list of a page -/

/-- The free list of a page is linked, as long as `nfree` says, and consists of the blocks that are
    not in use. -/
structure PageOk (r : Pageref) (mem : Nat → Nat) (L : Set Nat) : Prop where
  type_lt : r.blocktype < NSIZES
  kpage : IsKpage r.pageaddr
  free : ∃ fl, Linked (nextFree mem) r.freeHead fl ∧ fl.length = r.nfree ∧
    ∀ a, a ∈ fl ↔ r.IsBlock a ∧ a ∉ L

/-- Only the words of the page and the blocks of the page matter. -/
theorem PageOk.congr (h : PageOk r mem L)
    (hmem : ∀ a, r.IsBlock a → a ∉ L → mem' a = mem a)
    (hL : ∀ a, r.IsBlock a → (a ∈ L' ↔ a ∈ L)) : PageOk r mem' L' := by
  obtain ⟨fl, hlink, hlen, hfl⟩ := h.free
  refine ⟨h.type_lt, h.kpage, fl, hlink.congr fun a ha => ?_, hlen, fun a => ?_⟩
  · obtain ⟨hblock, hnot⟩ := (hfl a).1 ha
    rw [nextFree, nextFree, hmem a hblock hnot]
  · rw [hfl]
    exact and_congr_right fun hb => not_congr (hL a hb).symm

/-- There are as many free blocks as blocks exactly when no block is in use. -/
theorem PageOk.nfree_eq_iff (h : PageOk r mem L) :
    r.nfree ≤ PAGE_SIZE / r.size ∧
      (r.nfree = PAGE_SIZE / r.size ↔ ∀ a, r.IsBlock a → a ∉ L) := by
  obtain ⟨fl, hlink, hlen, hfl⟩ := h.free
  have hsub : fl.toFinset ⊆ blockSet r := fun a ha =>
    (mem_blockSet h.type_lt).2 ((hfl a).1 (List.mem_toFinset.1 ha)).1
  have hcard : fl.toFinset.card = r.nfree := by
    rw [List.toFinset_card_of_nodup hlink.nodup, hlen]
  rw [← card_blockSet h.type_lt, ← hcard]
  refine ⟨Finset.card_le_card hsub, fun heq a ha => ?_, fun hall => ?_⟩
  · have hset := Finset.eq_of_subset_of_card_le hsub heq.ge
    have hmem := (mem_blockSet h.type_lt).2 ha
    rw [← hset, List.mem_toFinset] at hmem
    exact ((hfl a).1 hmem).2
  · congr 1
    refine Finset.Subset.antisymm hsub fun a ha => ?_
    have hblock := (mem_blockSet h.type_lt).1 ha
    exact List.mem_toFinset.2 ((hfl a).2 ⟨hblock, hall a hblock⟩)

/-! ## Taking a block -/

/-- `doalloc` on a page with a free block takes a block that is not in use. -/
theorem doalloc_eq {pr : Nat} (hok : PageOk (h.refs pr) h.mem L) (hfree : 0 < (h.refs pr).nfree) :
    ∃ a offset, h.doalloc pr
        = .ok (a, h.setRef pr ((h.refs pr).withFree offset ((h.refs pr).nfree - 1))) ∧
      (h.refs pr).IsBlock a ∧ a ∉ L ∧
      PageOk ((h.refs pr).withFree offset ((h.refs pr).nfree - 1)) h.mem (insert a L) := by
  obtain ⟨fl, hlink, hlen, hfl⟩ := hok.free
  set r := h.refs pr with hr
  cases fl with
  | nil =>
    simp only [List.length_nil] at hlen
    omega
  | cons a fl =>
    obtain ⟨hhead, htail⟩ := hlink
    obtain ⟨hblock, hnot⟩ := (hfl a).1 (List.mem_cons_self ..)
    have hoff : r.freelist_offset ≠ INVALID_OFFSET ∧ r.pageaddr + r.freelist_offset = a := by
      unfold Pageref.freeHead at hhead
      split at hhead
      · cases hhead
      · next hne => exact ⟨hne, Option.some.inj hhead⟩
    have hlt : r.freelist_offset < PAGE_SIZE := by
      have := hblock.2.1
      omega
    have hnodup : a ∉ fl := (List.nodup_cons.1 (show (a :: fl).Nodup from
      Linked.nodup (⟨rfl, htail⟩ : Linked (nextFree h.mem) (some a) (a :: fl)))).1
    have hrest : ∀ b, b ∈ fl ↔ r.IsBlock b ∧ b ∉ insert a L := by
      intro b
      have hb := hfl b
      rw [List.mem_cons] at hb
      rw [Set.mem_insert_iff, not_or]
      constructor
      · intro hm
        have hba : b ≠ a := fun he => hnodup (he ▸ hm)
        exact ⟨(hb.1 (.inr hm)).1, hba, (hb.1 (.inr hm)).2⟩
      · rintro ⟨hbl, hba, hbL⟩
        exact (hb.2 ⟨hbl, hbL⟩).resolve_left hba
    have hn : fl.length = r.nfree - 1 := by
      rw [List.length_cons] at hlen
      omega
    unfold doalloc
    rw [← hr]
    simp only [kassert, if_pos hlt, hoff.2]
    cases fl with
    | nil =>
      have hz : h.mem a = 0 := by
        simpa [nextFree] using htail
      refine ⟨a, INVALID_OFFSET, ?_, hblock, hnot, hok.type_lt, hok.kpage, [], ?_, hn, hrest⟩
      · have hn0 : r.nfree - 1 = 0 := hn.symm
        simp [hz, hn0, bind, Except.bind, pure, Except.pure, Pageref.withFree]
      · simp [Pageref.freeHead, Pageref.withFree]
    | cons b fl =>
      have hz : h.mem a ≠ 0 ∧ h.mem a = b := by
        have := htail.1
        unfold nextFree at this
        split at this
        · cases this
        · next hne => exact ⟨hne, Option.some.inj this⟩
      obtain ⟨hb1, hb2, -⟩ := ((hrest b).1 (List.mem_cons_self ..)).1
      have hlt' : b - r.pageaddr < PAGE_SIZE := by omega
      have hpos : r.nfree - 1 > 0 := by rw [← hn]; simp
      refine ⟨a, b - r.pageaddr, ?_, hblock, hnot, hok.type_lt, hok.kpage, b :: fl, ?_, hn,
        hrest⟩
      · have hb0 : b ≠ 0 := hz.2 ▸ hz.1
        simp [hz.2, hb0, hpos, hb1, hlt', bind, Except.bind, pure, Except.pure,
          Pageref.withFree]
      · have hne : b - r.pageaddr ≠ INVALID_OFFSET := by
          unfold INVALID_OFFSET PAGE_SIZE at *
          omega
        refine ⟨?_, htail.2⟩
        rw [Pageref.freeHead, Pageref.withFree, if_neg hne]
        exact congrArg some (Nat.add_sub_cancel' hb1)

/-! ## A fresh page -/

/-- The blocks `0 … n` of a page, the last one first. -/
def blockList (fla size : Nat) : Nat → List Nat
  | 0 => [fla]
  | n + 1 => (fla + (n + 1) * size) :: blockList fla size n

theorem mem_blockList {fla size n : Nat} :
    a ∈ blockList fla size n ↔ ∃ i ≤ n, a = fla + i * size := by
  induction n with
  | zero => simp [blockList]
  | succ n ih =>
    rw [blockList, List.mem_cons, ih]
    constructor
    · rintro (rfl | ⟨i, hi, rfl⟩)
      · exact ⟨n + 1, le_rfl, rfl⟩
      · exact ⟨i, by omega, rfl⟩
    · rintro ⟨i, hi, rfl⟩
      rcases Nat.lt_or_eq_of_le hi with hlt | rfl
      · exact .inr ⟨i, by omega, rfl⟩
      · exact .inl rfl

theorem length_blockList {fla size n : Nat} : (blockList fla size n).length = n + 1 := by
  induction n with
  | zero => rfl
  | succ n ih => rw [blockList, List.length_cons, ih]

/-- The loop over a fresh page links its blocks, from the last to the first, and writes nowhere
    else. -/
theorem threadBlocks_eq (mem : Nat → Nat) {fla size : Nat} (hfla : fla ≠ 0) (hsize : 0 < size)
    (n : Nat) :
    ∃ mem', threadBlocks mem fla size n = .ok mem' ∧
      Linked (nextFree mem') (some (fla + n * size)) (blockList fla size n) ∧
      ∀ a, a ∉ blockList fla size n → mem' a = mem a := by
  induction n with
  | zero =>
    refine ⟨update mem fla 0, rfl, ⟨by simp, ?_⟩, fun a ha => ?_⟩
    · simp [nextFree]
    · exact update_of_ne (by simpa [blockList] using ha) _ _
  | succ n ih =>
    obtain ⟨mem', heq, hlink, hkeep⟩ := ih
    have hne : fla + (n + 1) * size ≠ fla + n * size := by
      rw [Nat.succ_mul]
      omega
    have hnot : fla + (n + 1) * size ∉ blockList fla size n := by
      rw [mem_blockList]
      rintro ⟨i, hi, he⟩
      have := Nat.mul_le_mul_right size hi
      rw [Nat.succ_mul] at he
      omega
    refine ⟨update mem' (fla + (n + 1) * size) (fla + n * size), ?_, ⟨rfl, ?_⟩, ?_⟩
    · rw [threadBlocks, heq, ok_bind, kassert_of hne]
      rfl
    · have hval : nextFree (update mem' (fla + (n + 1) * size) (fla + n * size))
          (fla + (n + 1) * size) = some (fla + n * size) := by
        rw [nextFree, update_self, if_neg (by omega)]
      rw [hval]
      refine hlink.congr fun b hb => ?_
      have hne' : b ≠ fla + (n + 1) * size := fun he => hnot (he ▸ hb)
      rw [nextFree, nextFree, update_of_ne hne']
    · intro a ha
      rw [blockList, List.mem_cons, not_or] at ha
      rw [update_of_ne ha.1, hkeep a ha.2]

/-! ## Giving a block back -/

theorem fillDeadbeef_of_lt {ptr size : Nat} (h : a < ptr ∨ ptr + size ≤ a) :
    fillDeadbeef mem ptr size a = mem a := by
  rw [fillDeadbeef, if_neg (by omega)]

/-- The memory after the block `a` of a page was released. -/
def freedMem (mem : Nat → Nat) (r : Pageref) (a : Nat) : Nat → Nat :=
  update (fillDeadbeef mem a r.size) a (r.freeHead.getD 0)

/-- A block in use goes back to the front of the free list of its page. -/
theorem pushFree_eq {pr : Nat} (hok : PageOk (h.refs pr) h.mem L) (ha : (h.refs pr).IsBlock a)
    (hL : a ∈ L) :
    h.pushFree pr (a - (h.refs pr).pageaddr) = .ok { h.setRef pr ((h.refs pr).withFree
        (a - (h.refs pr).pageaddr) ((h.refs pr).nfree + 1)) with
          mem := freedMem h.mem (h.refs pr) a } ∧
      (∀ b, b < a ∨ a + (h.refs pr).size ≤ b → freedMem h.mem (h.refs pr) a b = h.mem b) ∧
      PageOk ((h.refs pr).withFree (a - (h.refs pr).pageaddr) ((h.refs pr).nfree + 1))
        (freedMem h.mem (h.refs pr) a) (L \ {a}) := by
  obtain ⟨fl, hlink, hlen, hfl⟩ := hok.free
  set r := h.refs pr with hr
  have hpos : 0 < r.size := by
    have := (sizes_spec hok.type_lt).1
    unfold Pageref.size
    omega
  have hsum : r.pageaddr + (a - r.pageaddr) = a := Nat.add_sub_cancel' ha.1
  have hafl : a ∉ fl := fun hm => ((hfl a).1 hm).2 hL
  have hnext : ∀ b, r.freeHead = some b → b ≠ a ∧ b ≠ 0 := by
    intro b hb
    have hmem : b ∈ fl := by
      rw [hlink.head_eq] at hb
      exact List.mem_of_mem_head? hb
    have := ((hfl b).1 hmem).1.1
    have := hok.kpage.2.1
    exact ⟨fun he => hafl (he ▸ hmem), by omega⟩
  have hkeep : ∀ b, b < a ∨ a + r.size ≤ b → freedMem h.mem r a b = h.mem b := by
    intro b hb
    rw [freedMem, update_of_ne (by omega)]
    exact fillDeadbeef_of_lt hb
  refine ⟨?_, hkeep, hok.type_lt, hok.kpage, a :: fl, ⟨?_, ?_⟩, ?_, ?_⟩
  · have hhead : (if r.freelist_offset = INVALID_OFFSET then 0
        else r.pageaddr + r.freelist_offset) = r.freeHead.getD 0 := by
      rw [Pageref.freeHead]
      split <;> rfl
    have hne : r.freelist_offset = INVALID_OFFSET ∨ a ≠ r.freeHead.getD 0 := by
      by_cases hinv : r.freelist_offset = INVALID_OFFSET
      · exact .inl hinv
      · have hsome : r.freeHead = some (r.pageaddr + r.freelist_offset) := by
          rw [Pageref.freeHead, if_neg hinv]
        rw [hsome]
        exact .inr (hnext _ hsome).1.symm
    unfold pushFree
    rw [← hr]
    simp only [hsum, hhead]
    rw [kassert_of hne]
    rfl
  · have hne : a - r.pageaddr ≠ INVALID_OFFSET := by
      have := ha.2.1
      unfold INVALID_OFFSET PAGE_SIZE at *
      omega
    rw [Pageref.freeHead, Pageref.withFree, if_neg hne]
    exact congrArg some hsum
  · have hval : nextFree (freedMem h.mem r a) a = r.freeHead := by
      rw [nextFree, freedMem, update_self]
      cases hhead : r.freeHead with
      | none => rfl
      | some b => exact if_neg (hnext b hhead).2
    rw [hval]
    refine hlink.congr fun b hb => ?_
    have hbl := ((hfl b).1 hb).1
    have hba : b ≠ a := fun he => hafl (he ▸ hb)
    have hout : b < a ∨ a + r.size ≤ b := by
      rcases Nat.lt_or_gt_of_ne hba with hlt | hgt
      · exact .inl hlt
      · exact .inr (isBlock_apart ha hbl hgt)
    rw [nextFree, nextFree, hkeep b hout]
  · rw [List.length_cons, hlen]
    rfl
  · intro b
    rw [List.mem_cons, hfl]
    constructor
    · rintro (rfl | ⟨hb, hn⟩)
      · exact ⟨ha, by simp⟩
      · exact ⟨hb, fun hm => hn hm.1⟩
    · rintro ⟨hb, hn⟩
      by_cases hba : b = a
      · exact .inl hba
      · exact .inr ⟨hb, fun hm => hn ⟨hm, hba⟩⟩

end Kheap

end DemandPaging
