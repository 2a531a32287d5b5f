import DemandPaging.Coremap.Extents
import DemandPaging.Coremap.KernelPages
import DemandPaging.Kheap.Pages
import DemandPaging.Ram

set_option autoImplicit false

/-! # Large blocks

From half a page on `kmalloc` asks `alloc_kpages` for whole pages. Before the page table is active
these come from `ram_stealmem`, afterwards from `getfreeppages`. The number of pages is computed in
32 bits, and wraps around for the last sizes. -/

namespace DemandPaging

/-- The page table and the memory below it. -/
structure Memory where
  vm : Vm
  ram : Ram

/-- The number of pages that `kmalloc` asks for. -/
def largeNpages (sz : UInt32) : UInt32 := (sz + PAGE_SIZE32 - 1) / PAGE_SIZE32

namespace Memory

variable (m m' : Memory)

def getppages (npages : UInt32) : Except Crash (UInt32 × Memory) :=
  let r := getfreeppages m.vm npages.toNat
  match r.result with
  | .error e => .error e
  | .ok addr =>
    if addr ≠ 0 then .ok (UInt32.ofNat addr, { m with vm := r.vm })
    else
      let (addr, ram) := m.ram.ramStealmem npages
      .ok (addr, { vm := r.vm, ram := ram })

def allocKpages (npages : UInt32) : Except Crash (UInt32 × Memory) := do
  let (pa, m) ← m.getppages npages
  if pa = 0 then return (0, m) else return (pa + MIPS_KSEG0, m)

/-- `kmalloc` of a large block. -/
def kmallocLarge (sz : UInt32) : Except Crash (Option UInt32 × Memory) := do
  let (address, m) ← m.allocKpages (largeNpages sz)
  if address = 0 then return (none, m)
  else
    kassert (address.toNat % PAGE_SIZE = 0)
    return (some address, m)

/-! ## The property -/

/-- There are `n` pages in a row that nobody has. -/
def HasRun (n : Nat) : Prop :=
  if m.vm.cm.isAct = false then m.ram.firstpaddr.toNat + n * PAGE_SIZE ≤ m.ram.lastpaddr.toNat
  else ∃ k, m.vm.cm.RunFree k n

/-- The `n` pages from `address` on were nobody's before the call, and are recorded as taken after
    it. -/
def Alone (address : UInt32) (n : Nat) : Prop :=
  if m.vm.cm.isAct = false then
    (address - MIPS_KSEG0).toNat = m.ram.firstpaddr.toNat ∧
      m'.ram.firstpaddr.toNat = m.ram.firstpaddr.toNat + n * PAGE_SIZE ∧
      m'.ram.firstpaddr.toNat ≤ m.ram.lastpaddr.toNat ∧ m'.ram.lastpaddr = m.ram.lastpaddr
  else
    ∃ ind, address = PADDR_TO_KVADDR (ind * PAGE_SIZE) ∧ m.vm.cm.RunFree ind n ∧
      m'.vm.cm.own = Function.update m.vm.cm.own ind (0, address, n)

/-- What is returned is large enough and nobody else's, and what cannot be had gives NULL. -/
def LargeSound (sz : UInt32) : Prop :=
  (∀ address m', m.kmallocLarge sz = .ok (some address, m') →
    sz.toNat ≤ (largeNpages sz).toNat * PAGE_SIZE ∧ 1 ≤ (largeNpages sz).toNat ∧
      m.Alone m' address (largeNpages sz).toNat) ∧
  ((∀ n, 1 ≤ n → sz.toNat ≤ n * PAGE_SIZE → ¬ m.HasRun n) →
    ∃ m', m.kmallocLarge sz = .ok (none, m'))

/-- The memory before `ptinit`, or a state of the page table after it, when the old allocator is
    closed. -/
def Running : Prop :=
  m.vm.cm.isAct = false ∨ (CoreReachable m.vm ∧ m.ram = ⟨0, 0⟩)

/-- The number of pages of a block, without wraparound. -/
def pagesOf (sz : UInt32) : Nat := (sz.toNat + (PAGE_SIZE - 1)) / PAGE_SIZE

/-- Before `ptinit` the pages end below 4G, or the request is refused all the same (or the memory
    begins where its address is the 0 that means failure). Afterwards there is a free run. -/
def Affordable (sz : UInt32) : Prop :=
  if m.vm.cm.isAct = false then
    (m.ram.firstpaddr = 0 ∨ m.ram.firstpaddr + MIPS_KSEG0 = 0) ∨
      m.ram.lastpaddr < m.ram.firstpaddr + largeNpages sz * PAGE_SIZE32 ∨
      m.ram.firstpaddr.toNat + pagesOf sz * PAGE_SIZE < 2 ^ 32
  else ∃ k, m.vm.cm.RunFree k (pagesOf sz)

/-! ## Rounding up -/

variable {m m'} {sz : UInt32}

/-- Without wraparound the number of pages is the right one; with it, it is 0. -/
theorem largeNpages_cases (sz : UInt32) :
    (sz.toNat + (PAGE_SIZE - 1) < 2 ^ 32 ∧ (largeNpages sz).toNat = pagesOf sz) ∨
      (2 ^ 32 ≤ sz.toNat + (PAGE_SIZE - 1) ∧ largeNpages sz = 0 ∧ pagesOf sz = 2 ^ 20) := by
  have hlt := sz.toNat_lt
  have hnum : (largeNpages sz).toNat
      = (2 ^ 32 - 1 + ((sz.toNat + 4096) % 2 ^ 32)) % 2 ^ 32 / 4096 := by
    rw [largeNpages, UInt32.toNat_div, UInt32.toNat_sub, UInt32.toNat_add]
    rfl
  unfold pagesOf PAGE_SIZE
  rcases Nat.lt_or_ge (sz.toNat + (4096 - 1)) (2 ^ 32) with h | h
  · refine .inl ⟨h, ?_⟩
    rw [hnum]
    omega
  · refine .inr ⟨h, UInt32.toNat_inj.1 ?_, by omega⟩
    rw [hnum]
    change _ = 0
    omega

theorem le_pagesOf (sz : UInt32) : sz.toNat ≤ pagesOf sz * PAGE_SIZE := by
  unfold pagesOf PAGE_SIZE
  omega

theorem pagesOf_le {n : Nat} (h : sz.toNat ≤ n * PAGE_SIZE) : pagesOf sz ≤ n := by
  unfold pagesOf PAGE_SIZE at *
  omega

theorem pagesOf_pos (hsz : 2048 ≤ sz.toNat) : 1 ≤ pagesOf sz := by
  unfold pagesOf PAGE_SIZE
  omega

/-- A longer run contains a shorter one. -/
theorem HasRun.mono {n n' : Nat} (h : m.HasRun n) (hle : n' ≤ n) : m.HasRun n' := by
  unfold HasRun at *
  split
  · next hact =>
    rw [if_pos hact] at h
    have := Nat.mul_le_mul_right PAGE_SIZE hle
    omega
  · next hact =>
    rw [if_neg hact] at h
    obtain ⟨k, hk⟩ := h
    exact ⟨k, fun j h1 h2 => hk j h1 (by omega)⟩

/-- Whether a size can be had depends on the least number of pages for it. -/
theorem no_run_iff (hsz : 2048 ≤ sz.toNat) :
    (∀ n, 1 ≤ n → sz.toNat ≤ n * PAGE_SIZE → ¬ m.HasRun n) ↔ ¬ m.HasRun (pagesOf sz) :=
  ⟨fun h => h _ (pagesOf_pos hsz) (le_pagesOf sz), fun h _ _ hle hrun =>
    h (hrun.mono (pagesOf_le hle))⟩

/-! ## Before the page table is active -/

theorem allocKpages_boot (hact : m.vm.cm.isAct = false) (npages : UInt32) :
    m.allocKpages npages =
      .ok (if (m.ram.ramStealmem npages).1 = 0 then 0
        else (m.ram.ramStealmem npages).1 + MIPS_KSEG0, ⟨m.vm, (m.ram.ramStealmem npages).2⟩) := by
  have hfree : getfreeppages m.vm npages.toNat = ⟨m.vm, [.acquire, .release], .ok 0⟩ := by
    rw [getfreeppages, if_pos hact]
  simp only [allocKpages, getppages, hfree, ne_eq, not_true_eq_false, if_false, ok_bind]
  split <;> rfl

theorem kmallocLarge_none {address : UInt32}
    (h : m.allocKpages (largeNpages sz) = .ok (address, m')) (hz : address = 0) :
    m.kmallocLarge sz = .ok (none, m') := by
  simp only [kmallocLarge, h, ok_bind, if_pos hz]
  rfl

theorem kmallocLarge_some {address : UInt32} {r : Option UInt32} {m'' : Memory}
    (h : m.allocKpages (largeNpages sz) = .ok (address, m')) (hz : address ≠ 0)
    (hk : m.kmallocLarge sz = .ok (r, m'')) : r = some address ∧ m'' = m' := by
  simp only [kmallocLarge, h, ok_bind, if_neg hz] at hk
  obtain ⟨-, -, hpure⟩ := bind_eq_ok.1 hk
  obtain ⟨rfl, rfl⟩ := Prod.mk.inj (pure_eq_ok.1 hpure)
  exact ⟨rfl, rfl⟩

/-- A call that returns NULL says nothing wrong. -/
theorem largeSound_of_none (h : m.kmallocLarge sz = .ok (none, m')) : m.LargeSound sz := by
  refine ⟨fun a m'' hk => ?_, fun _ => ⟨m', h⟩⟩
  rw [h] at hk
  cases hk

/-- Before `ptinit`. -/
theorem largeSound_boot (hact : m.vm.cm.isAct = false) (hsz : 2048 ≤ sz.toNat) :
    m.LargeSound sz ↔ m.Affordable sz := by
  have halloc := allocKpages_boot hact (largeNpages sz)
  have hlast := m.ram.lastpaddr.toNat_lt
  rw [Affordable, if_pos hact]
  by_cases hfits : m.ram.lastpaddr < m.ram.firstpaddr + largeNpages sz * PAGE_SIZE32
  · have hres : m.ram.ramStealmem (largeNpages sz) = (0, m.ram) := if_pos hfits
    rw [hres] at halloc
    exact iff_of_true (largeSound_of_none (kmallocLarge_none halloc rfl)) (.inr (.inl hfits))
  have hres : m.ram.ramStealmem (largeNpages sz) = (m.ram.firstpaddr,
      ⟨m.ram.firstpaddr + largeNpages sz * PAGE_SIZE32, m.ram.lastpaddr⟩) := if_neg hfits
  rw [hres] at halloc
  by_cases hzero : m.ram.firstpaddr = 0 ∨ m.ram.firstpaddr + MIPS_KSEG0 = 0
  · refine iff_of_true (largeSound_of_none (kmallocLarge_none halloc ?_)) (.inl hzero)
    rcases hzero with hz | hz
    · exact if_pos hz
    · simp only [hz, ite_self]
  obtain ⟨hz, ha⟩ := not_or.1 hzero
  simp only [if_neg hz] at halloc
  have hsum : (m.ram.firstpaddr + largeNpages sz * PAGE_SIZE32).toNat
      = (m.ram.firstpaddr.toNat + (largeNpages sz).toNat * PAGE_SIZE) % 2 ^ 32 := by
    rw [UInt32.toNat_add, size_toNat, Nat.add_mod_mod]
  have hle := UInt32.le_iff_toNat_le.1 (UInt32.not_lt.1 hfits)
  by_cases htot : m.ram.firstpaddr.toNat + pagesOf sz * PAGE_SIZE < 2 ^ 32
  · -- the number of pages is right, and the sum is exact
    have hnum : (largeNpages sz).toNat = pagesOf sz := by
      rcases largeNpages_cases sz with ⟨-, h⟩ | ⟨-, -, h⟩
      · exact h
      · rw [h] at htot
        unfold PAGE_SIZE at htot
        omega
    rw [hnum, Nat.mod_eq_of_lt htot] at hsum
    refine iff_of_true ⟨fun a m'' hk => ?_, fun hno => ?_⟩ (.inr (.inr htot))
    · obtain ⟨hr, rfl⟩ := kmallocLarge_some halloc ha hk
      obtain rfl := Option.some.inj hr
      refine ⟨hnum ▸ le_pagesOf sz, hnum ▸ pagesOf_pos hsz, ?_⟩
      rw [Alone, if_pos hact, hnum]
      exact ⟨by rw [UInt32.add_sub_cancel], hsum, hle, rfl⟩
    · refine absurd ?_ ((no_run_iff hsz).1 hno)
      rw [HasRun, if_pos hact, ← hsum]
      exact hle
  · refine iff_of_false (fun hsound => ?_) ?_
    · obtain ⟨m'', hk⟩ := hsound.2 ((no_run_iff hsz).2 fun hrun => by
        rw [HasRun, if_pos hact] at hrun
        omega)
      cases (kmallocLarge_some halloc ha hk).1
    · rintro (h | h | h)
      · exact hzero h
      · exact hfits h
      · exact htot h

/-! ## When the page table is active -/

section Active

variable {q : List Nat} {n : UInt32}

/-- With a free run `alloc_kpages` takes one. -/
theorem allocKpages_found (hinv : TableInv m.vm.cm q) (hn : 0 < n.toNat)
    (hrun : ∃ k, m.vm.cm.RunFree k n.toNat) :
    ∃ i vm, m.vm.cm.RunFree i n.toNat ∧
      vm.cm.own = Function.update m.vm.cm.own i (0, PADDR_TO_KVADDR (i * PAGE_SIZE), n.toNat) ∧
      m.allocKpages n = .ok (PADDR_TO_KVADDR (i * PAGE_SIZE), { m with vm := vm }) := by
  obtain ⟨i, e, hfree, -, rfl, heq, -⟩ := getfreeppages_found hinv hn hrun
  have hne : i * PAGE_SIZE ≠ 0 :=
    Nat.mul_ne_zero (hinv.freeFrame_ne_zero (hfree i le_rfl (by omega))) (by decide)
  have hlt : i * PAGE_SIZE < 2 ^ 32 := by
    have := (hfree i le_rfl (by omega)).1
    have := hinv.ptsize_le
    unfold PAGE_SIZE
    omega
  have hpa : UInt32.ofNat (i * PAGE_SIZE) ≠ 0 := by
    intro h
    have := congrArg UInt32.toNat h
    rw [UInt32.toNat_ofNat_of_lt' hlt] at this
    exact hne this
  refine ⟨i, (getfreeppages m.vm n.toNat).vm, hfree, by rw [heq, own_setEntry], ?_⟩
  simp only [allocKpages, getppages, heq, ne_eq, hne, not_false_eq_true, if_true, ok_bind,
    if_neg hpa]
  rfl

/-- Where the search fails the call does not return. -/
theorem allocKpages_not_found (hinv : TableInv m.vm.cm q)
    (hind : getfreeframes m.vm.cm.pt m.vm.cm.ptsize n.toNat = -1) :
    ∃ e, m.allocKpages n = .error e := by
  have hres : ∃ e, (getfreeppages m.vm n.toNat).result = .error e := by
    rcases getfreeppages_not_found hinv hind with ⟨-, heq⟩ | ⟨-, -, heq⟩ | ⟨-, -, heq⟩
    · exact ⟨_, by rw [heq]⟩
    · exact ⟨_, by rw [heq]⟩
    · exact ⟨_, heq⟩
  obtain ⟨e, he⟩ := hres
  refine ⟨e, ?_⟩
  simp only [allocKpages, getppages, he]
  rfl

/-- With RAM of at most 512M the answers of `alloc_kpages` are pages of the kernel's segment. -/
theorem isKpage_of_allocKpages (hreach : CoreReachable m.vm)
    (hram : m.vm.cm.ptsize * PAGE_SIZE ≤ 512 * 1024 * 1024) {address : UInt32}
    (h : m.allocKpages 1 = .ok (address, m')) : Kheap.IsKpage address.toNat := by
  obtain ⟨q, hinv⟩ := hreach.tableInv
  by_cases hrun : ∃ k, m.vm.cm.RunFree k 1
  · obtain ⟨i, vm, hfree, -, heq⟩ := allocKpages_found (n := 1) hinv (by decide) hrun
    obtain ⟨rfl, -⟩ := Prod.mk.inj (Except.ok.inj (h.symm.trans heq))
    have hi : i < m.vm.cm.ptsize := (hfree i le_rfl (by simp)).1
    have haddr : (PADDR_TO_KVADDR (i * PAGE_SIZE)).toNat = i * PAGE_SIZE + 0x80000000 := by
      unfold PAGE_SIZE at *
      rw [PADDR_TO_KVADDR, UInt32.toNat_add,
        UInt32.toNat_ofNat_of_lt' (by change _ < 2 ^ 32; omega)]
      change (i * 4096 + 0x80000000) % 2 ^ 32 = _
      omega
    rw [haddr, Kheap.IsKpage]
    unfold PAGE_SIZE at *
    omega
  · obtain ⟨e, he⟩ := allocKpages_not_found (n := 1) hinv
      (getfreeframes_no_run hinv Nat.zero_lt_one fun k hk => hrun ⟨k, hk⟩)
    cases h.symm.trans he

/-- The first page behind the kernel. -/
theorem fourFrames_isKpage : ∃ m', allocKpages ⟨fourFrames, ⟨0, 0⟩⟩ 1 = .ok (0x8001c000, m') ∧
    Kheap.IsKpage (0x8001c000 : UInt32).toNat :=
  ⟨_, rfl, isKpage_of_allocKpages (m := ⟨fourFrames, ⟨0, 0⟩⟩) fourFrames_reachable (by decide) rfl⟩

end Active

theorem largeSound_active (hreach : CoreReachable m.vm) (hsz : 2048 ≤ sz.toNat) :
    m.LargeSound sz ↔ m.Affordable sz := by
  obtain ⟨q, hinv⟩ := hreach.tableInv
  have hact : ¬ m.vm.cm.isAct = false := by
    rw [hinv.isAct]
    decide
  have hpos := pagesOf_pos hsz
  rw [Affordable, if_neg hact]
  by_cases hrun : ∃ k, m.vm.cm.RunFree k (pagesOf sz)
  · obtain ⟨k, hk⟩ := hrun
    -- the run is shorter than the table, so the number of pages has not wrapped around
    have hnum : (largeNpages sz).toNat = pagesOf sz := by
      have h0 := hinv.freeFrame_ne_zero (hk k le_rfl (by omega))
      have hlast := (hk (k + pagesOf sz - 1) (by omega) (by omega)).1
      have := hinv.ptsize_le
      rcases largeNpages_cases sz with ⟨-, h⟩ | ⟨-, -, h⟩
      · exact h
      · omega
    refine iff_of_true ?_ ⟨k, hk⟩
    rw [← hnum] at hk hpos
    obtain ⟨i, vm, hfree, hown, halloc⟩ := allocKpages_found hinv hpos ⟨k, hk⟩
    by_cases hz : PADDR_TO_KVADDR (i * PAGE_SIZE) = 0
    · exact largeSound_of_none (kmallocLarge_none halloc hz)
    · refine ⟨fun a m'' hka => ?_, fun hno => absurd ?_ ((no_run_iff hsz).1 hno)⟩
      · obtain ⟨hr, rfl⟩ := kmallocLarge_some halloc hz hka
        obtain rfl := Option.some.inj hr
        refine ⟨hnum ▸ le_pagesOf sz, hpos, ?_⟩
        rw [Alone, if_neg hact]
        exact ⟨i, rfl, hfree, hown⟩
      · rw [HasRun, if_neg hact, ← hnum]
        exact ⟨k, hk⟩
  · -- the search fails, also for no page at all
    have hind : getfreeframes m.vm.cm.pt m.vm.cm.ptsize (largeNpages sz).toNat = -1 := by
      rcases largeNpages_cases sz with ⟨-, h⟩ | ⟨-, h, -⟩
      · rw [h]
        exact getfreeframes_no_run hinv hpos fun k hk => hrun ⟨k, hk⟩
      · rw [h]
        exact getfreeframes_zero m.vm.cm
    obtain ⟨e, he⟩ := allocKpages_not_found hinv hind
    refine iff_of_false (fun hsound => ?_) hrun
    obtain ⟨m'', hk⟩ := hsound.2 ((no_run_iff hsz).2 fun h => by
      rw [HasRun, if_neg hact] at h
      exact hrun h)
    rw [kmallocLarge, he] at hk
    cases hk

/-- **Large blocks.** The pages of a large block are enough and nobody else's, and a size that
    cannot be had gives NULL, exactly if the size is affordable. -/
theorem kmallocLarge_sound_iff (m : Memory) (sz : UInt32) (hm : m.Running)
    (hsz : 2048 ≤ sz.toNat) : m.LargeSound sz ↔ m.Affordable sz := by
  rcases hm with hact | ⟨hreach, -⟩
  · exact largeSound_boot hact hsz
  · exact largeSound_active hreach hsz

/-- The memory of 16M at boot, with 256K in use. -/
def atBoot : Memory where
  vm := blank
  ram := ⟨0x40000, 0x1000000⟩

theorem atBoot_largeSound : atBoot.LargeSound 5000 ∧ atBoot.LargeSound 0x2000000 :=
  ⟨(kmallocLarge_sound_iff atBoot 5000 (.inl rfl) (by decide)).2 (.inr (.inr (by decide))),
    (kmallocLarge_sound_iff atBoot 0x2000000 (.inl rfl) (by decide)).2 (.inr (.inr (by decide)))⟩

/-- At boot a request for the last size gets no page at all, and the address of memory that the next
    request gets as well. With the page table active and the last frame in use by a process, a
    request for one page does not return. -/
theorem atBoot_not_largeSound :
    (atBoot.kmallocLarge 0xffffffff).map Prod.fst = .ok (some 0x80040000) ∧
      largeNpages 0xffffffff = 0 ∧ ¬ atBoot.LargeSound 0xffffffff ∧
      Running ⟨oneFrameUsed, ⟨0, 0⟩⟩ ∧ ¬ LargeSound ⟨oneFrameUsed, ⟨0, 0⟩⟩ 4096 := by
  have hboot : (atBoot.kmallocLarge 0xffffffff).map Prod.fst = .ok (some 0x80040000) := by rfl
  refine ⟨hboot, rfl, fun hsound => ?_, .inr ⟨oneFrameUsed_reachable, rfl⟩, fun hsound => ?_⟩
  · cases hk : atBoot.kmallocLarge 0xffffffff with
    | error e =>
      rw [hk] at hboot
      cases hboot
    | ok r =>
      rw [hk] at hboot
      obtain ⟨a, m'⟩ := r
      cases hboot
      exact absurd (hsound.1 _ _ hk).2.1 (by decide)
  · have hnot : ¬ Affordable ⟨oneFrameUsed, ⟨0, 0⟩⟩ 4096 := by
      obtain ⟨q, hinv⟩ := oneFrameUsed_reachable.tableInv
      have hnone : getfreeframes oneFrameUsed.cm.pt oneFrameUsed.cm.ptsize 1 = -1 := rfl
      rintro ⟨k, hk⟩
      rcases getfreeframes_spec hinv.extents Nat.zero_lt_one with ⟨i, hi, -⟩ | ⟨-, hno⟩
      · omega
      · exact hno k hk
    exact hnot ((largeSound_active oneFrameUsed_reachable (by decide)).1 hsound)

end Memory

end DemandPaging
