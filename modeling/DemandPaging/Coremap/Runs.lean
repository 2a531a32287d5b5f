import DemandPaging.Coremap.Invariant
import DemandPaging.Lib.Run

set_option autoImplicit false

/-! # Runs of the page table operations

The page table as a state machine: it starts as `ptinit` leaves it and every step is one complete
call of an operation of `coremap.c`, made as the kernel makes it. Frame 0 holds the exception
handlers; it is in use at boot and no allocation ever returns it, so no call frees it.

`PtRepresentation` spells out what the hashed inverted page table has to look like, in terms of the
lists one sees when following its pointers. -/

namespace DemandPaging

/-- The calls the rest of the kernel makes. -/
inductive CoreOp
  | allocuserpage (pid : Int) (v : VAddr)
  | freeuserpage (pid : Int) (v : VAddr)
  | removeptentries (pid : Int)
  | getfreeppages (npages : Nat)
  | freeKpages (i : Nat)

/-- One call. A user page is allocated only when it is not resident, a kernel allocation has found
    a free run, and only a live kernel allocation is freed. -/
def CoreStep (vm : Vm) (op : CoreOp) (vm' : Vm) : Prop :=
  match op with
  | .allocuserpage pid v =>
    0 < pid ∧ pageaddr vm pid v = .ok 0 ∧ ∃ paddr, allocuserpage vm pid v = .ok (vm', paddr)
  | .freeuserpage pid v => ∃ res, freeuserpage vm pid v = .ok (vm', res)
  | .removeptentries pid => removeptentries vm pid = .ok vm'
  | .getfreeppages n =>
    getfreeframes vm.cm.pt vm.cm.ptsize n ≠ -1 ∧ (getfreeppages vm n).vm = vm'
  | .freeKpages i =>
    i ≠ 0 ∧ i < vm.cm.ptsize ∧ (vm.cm.pt i).pid = 0 ∧
      freeKpages vm (PADDR_TO_KVADDR (i * PAGE_SIZE)) = .ok vm'

/-- The state `ptinit` leaves on a machine with at least 32 frames. -/
def Boots (vm : Vm) : Prop :=
  ∃ cm ramsize firstpaddr, cm.firstvictim = none ∧ cm.lastallocateduser = none ∧
    32 ≤ ramsize.toNat / PAGE_SIZE ∧ 0 < firstpaddr.toNat / PAGE_SIZE ∧
    ptinit cm ramsize firstpaddr = .ok vm.cm

/-- The states of the page table over all runs from boot. -/
def CoreReachable (vm : Vm) : Prop :=
  ∃ vm₀, Boots vm₀ ∧ Reaches CoreStep vm₀ vm

/-! ## A small machine

Thirty-two frames, of which the kernel leaves one free. Concrete runs start here. -/

/-- Memory before boot. -/
def blank : Vm where
  cm :=
    { pt := fun _ => ⟨0, 0, 0, none, none⟩, ptsize := 0, hashedpt := fun _ => none
      hashedptsize := 0, firstvictim := none, lastallocateduser := none, isAct := false }
  swap := Swapfile.swapinit ⟨fun _ => ⟨0, 0⟩, 0, fun _ => 0⟩
  ram := fun _ _ => 0
  tlb := Tlb.boot
  counter := fun _ => 0

/-- The value of a call that returns, `d` for one that does not. -/
def okOr {α : Type} (d : α) : Except Crash α → α
  | .ok a => a
  | .error _ => d

theorem exists_okOr {α β : Type} {d : α × β} {x : Except Crash (α × β)} (h : x.isOk = true) :
    ∃ b, x = .ok ((okOr d x).1, b) := by
  cases x with
  | ok a => exact ⟨a.2, rfl⟩
  | error e => cases h

def oneFrame : Vm :=
  { blank with cm := okOr blank.cm (ptinit blank.cm (32 * 4096) (31 * 4096)) }

/-- The free frame is given to page `0x400000` of process 2. -/
def oneFrameUsed : Vm := (okOr (oneFrame, 0) (allocuserpage oneFrame 2 0x400000)).1

theorem oneFrame_boots : Boots oneFrame :=
  ⟨blank.cm, 32 * 4096, 31 * 4096, rfl, rfl, by decide, by decide, rfl⟩

theorem oneFrameUsed_reachable : CoreReachable oneFrameUsed := by
  have hstep : CoreStep oneFrame (.allocuserpage 2 0x400000) oneFrameUsed :=
    ⟨by decide, rfl, 31 * 4096, rfl⟩
  exact ⟨oneFrame, oneFrame_boots, .single hstep⟩

/-! ## The invariant over runs -/

variable {vm vm' : Vm}

theorem Boots.tableInv (h : Boots vm) : TableInv vm.cm [] := by
  obtain ⟨cm, ramsize, firstpaddr, hv, hl, hsize, hpos, hinit⟩ := h
  exact (ptinit_spec hinit hv hl hsize hpos).1

/-- `pageaddr` answers 0 exactly for the pages that are not resident. -/
theorem TableInv.pageaddr_eq_zero {q : List Nat} {pid : Int} {v : VAddr} (h : TableInv vm.cm q) :
    pageaddr vm pid v = .ok 0 ↔ ∀ g, ¬ vm.cm.Maps pid v g := by
  rw [pageaddr, if_neg (by rw [h.isAct]; decide)]
  exact h.getpageaddr_eq_zero

/-- What a call does to the owners of the frames and to the FIFO queue. -/
inductive CoreEffect (cm : Coremap) (q : List Nat) : CoreOp → Coremap → List Nat → Prop
  | install {pid : Int} {v : VAddr} {i : Nat} {cm' : Coremap} (hp : 0 < pid)
      (hfresh : ∀ g, ¬ cm.Maps pid v g) (hi : cm.FreeFrame i) (hleast : ∀ k < i, ¬ cm.FreeFrame k)
      (hown : cm'.own = Function.update cm.own i (pid, v, 1)) :
      CoreEffect cm q (.allocuserpage pid v) cm' (q ++ [i])
  | starve {pid : Int} {v : VAddr} (hno : ∀ k, ¬ cm.FreeFrame k) (hq : q = []) :
      CoreEffect cm q (.allocuserpage pid v) cm q
  | replace {pid : Int} {v : VAddr} {f : Nat} {t : List Nat} {cm' : Coremap} (hp : 0 < pid)
      (hfresh : ∀ g, ¬ cm.Maps pid v g) (hno : ∀ k, ¬ cm.FreeFrame k) (hq : q = f :: t)
      (hown : cm'.own = Function.update cm.own f (pid, v, 1)) :
      CoreEffect cm q (.allocuserpage pid v) cm' (t ++ [f])
  | release {pid : Int} {v : VAddr} {f : Nat} {cm' : Coremap} (hm : cm.Maps pid v f)
      (hown : cm'.own = Function.update cm.own f (-1, v, 0)) :
      CoreEffect cm q (.freeuserpage pid v) cm' (q.erase f)
  | absent {pid : Int} {v : VAddr} (hfresh : ∀ g, ¬ cm.Maps pid v g) :
      CoreEffect cm q (.freeuserpage pid v) cm q
  | remove {pid : Int} {cm' : Coremap} (hp : 0 < pid)
      (hown : ∀ j < cm.ptsize, cm'.own j = if (cm.own j).1 = pid
        then (-1, (cm.own j).2.1, 0) else cm.own j) :
      CoreEffect cm q (.removeptentries pid) cm' (q.filter fun j => !decide ((cm.own j).1 = pid))
  | removeNobody {pid : Int} (hp : ¬ 0 < pid) : CoreEffect cm q (.removeptentries pid) cm q
  | kalloc {n i : Nat} {v : VAddr} {cm' : Coremap} (hn : 0 < n) (hrun : cm.RunFree i n)
      (hown : cm'.own = Function.update cm.own i (0, v, n)) :
      CoreEffect cm q (.getfreeppages n) cm' q
  | kfree {i : Nat} {cm' : Coremap} (hz : (cm.own i).1 = 0)
      (hown : cm'.own = Function.update cm.own i (-1, (cm.own i).2.1, 0)) :
      CoreEffect cm q (.freeKpages i) cm' q

theorem allocuserpage_effect {q : List Nat} {pid : Int} {v : VAddr} {paddr : Nat}
    (h : TableInv vm.cm q) (hp : 0 < pid) (hfresh : ∀ g, ¬ vm.cm.Maps pid v g)
    (heq : allocuserpage vm pid v = .ok (vm', paddr)) :
    ∃ q', TableInv vm'.cm q' ∧ SameShape vm.cm vm'.cm ∧
      CoreEffect vm.cm q (.allocuserpage pid v) vm'.cm q' := by
  cases allocuserpage_spec h hp hfresh with
  | free i cm' hi hrun hinv hown hs hleast =>
    rw [heq] at hrun
    obtain ⟨rfl, -⟩ := Prod.mk.inj (Except.ok.inj hrun)
    exact ⟨_, hinv, hs, .install hp hfresh hi hleast hown⟩
  | exhausted hno hq hrun =>
    rw [heq] at hrun
    obtain ⟨rfl, -⟩ := Prod.mk.inj (Except.ok.inj hrun)
    exact ⟨_, h, SameShape.refl _, .starve hno hq⟩
  | evict f q' p w sw slot cm' hno hq _ _ hrun hinv hown hs =>
    rw [heq] at hrun
    obtain ⟨rfl, -⟩ := Prod.mk.inj (Except.ok.inj hrun)
    exact ⟨_, hinv, hs, .replace hp hfresh hno hq hown⟩
  | swapFull f q' p w _ _ _ _ hrun => rw [heq] at hrun; cases hrun

/-- `freeuser` always returns: it finds the page and unlinks it, or leaves the table alone. -/
theorem TableInv.freeuser_effect {cm : Coremap} {q : List Nat} (h : TableInv cm q) (pid : Int)
    (v : VAddr) : ∃ cm' res q', cm.freeuser pid v = .ok (cm', res) ∧ TableInv cm' q' ∧
      SameShape cm cm' ∧ CoreEffect cm q (.freeuserpage pid v) cm' q' := by
  by_cases hm : ∃ g, cm.Maps pid v g
  · obtain ⟨f, hm⟩ := hm
    obtain ⟨cm', hfree, hinv, hown, hs, -⟩ := h.evict hm
    exact ⟨cm', 0, _, hfree, hinv, hs, .release hm hown⟩
  · have hno : ∀ g, ¬ cm.Maps pid v g := fun g hg => hm ⟨g, hg⟩
    exact ⟨cm, _, q, h.rep.freeuser_absent hno, h, SameShape.refl _, .absent hno⟩

theorem getfreeppages_effect {q : List Nat} {n : Nat} (h : TableInv vm.cm q)
    (hfound : getfreeframes vm.cm.pt vm.cm.ptsize n ≠ -1) :
    TableInv (getfreeppages vm n).vm.cm q ∧ SameShape vm.cm (getfreeppages vm n).vm.cm ∧
      CoreEffect vm.cm q (.getfreeppages n) (getfreeppages vm n).vm.cm q := by
  rcases Nat.eq_zero_or_pos n with rfl | hn
  · exact absurd (getfreeframes_zero vm.cm) hfound
  · rcases getfreeframes_spec h.extents hn with ⟨i, -, hrun, -⟩ | ⟨hno, -⟩
    · obtain ⟨i, e, hrun, -, rfl, heq, hinv⟩ := getfreeppages_found h hn ⟨i, hrun⟩
      rw [heq]
      exact ⟨hinv, setEntry_sameShape .., .kalloc hn hrun (own_setEntry ..)⟩
    · exact absurd hno hfound

/-- Every call keeps the invariant and has its effect. -/
theorem coreStep_effect {q : List Nat} {op : CoreOp} (h : TableInv vm.cm q)
    (hstep : CoreStep vm op vm') :
    ∃ q', TableInv vm'.cm q' ∧ SameShape vm.cm vm'.cm ∧ CoreEffect vm.cm q op vm'.cm q' := by
  have hact : ¬ vm.cm.isAct = false := by rw [h.isAct]; decide
  cases op with
  | allocuserpage pid v =>
    obtain ⟨hp, habs, paddr, heq⟩ := hstep
    exact allocuserpage_effect h hp (h.pageaddr_eq_zero.1 habs) heq
  | freeuserpage pid v =>
    obtain ⟨res, heq⟩ := hstep
    obtain ⟨cm', res', q', hfree, hinv, hs, heff⟩ := h.freeuser_effect pid v
    rw [freeuserpage, if_neg hact, hfree] at heq
    obtain ⟨rfl, -⟩ := Prod.mk.inj (Except.ok.inj heq)
    exact ⟨q', hinv, hs, heff⟩
  | removeptentries pid =>
    have heq : removeptentries vm pid = .ok vm' := hstep
    by_cases hp : 0 < pid
    · obtain ⟨cm', hrem, hinv, hs, hown⟩ := removeptentries_spec h hp
      obtain rfl := Except.ok.inj (heq.symm.trans hrem)
      exact ⟨_, hinv, hs, .remove hp hown⟩
    · obtain rfl := Except.ok.inj (heq.symm.trans (removeptentries_nonpos h hp))
      exact ⟨q, h, SameShape.refl _, .removeNobody hp⟩
  | getfreeppages n =>
    obtain ⟨hfound, rfl⟩ := hstep
    exact ⟨q, getfreeppages_effect h hfound⟩
  | freeKpages i =>
    obtain ⟨h0, hi, hz, heq⟩ := hstep
    obtain ⟨cm', hfree, hinv, hs, hown⟩ := freeKpages_spec h hi hz h0
    obtain rfl := Except.ok.inj (heq.symm.trans hfree)
    exact ⟨q, hinv, hs, .kfree hz hown⟩

theorem coreStep_inv (vm : Vm) (op : CoreOp) (vm' : Vm) (h : ∃ q, TableInv vm.cm q)
    (hstep : CoreStep vm op vm') : ∃ q, TableInv vm'.cm q := by
  obtain ⟨q, h⟩ := h
  obtain ⟨q', hinv, -⟩ := coreStep_effect h hstep
  exact ⟨q', hinv⟩

theorem CoreReachable.tableInv (h : CoreReachable vm) : ∃ q, TableInv vm.cm q := by
  obtain ⟨vm₀, hboot, hrun⟩ := h
  exact hrun.invariant coreStep_inv ⟨[], hboot.tableInv⟩

/-! ## What the pointers show -/

/-- The representation of the page table, read off its pointers: `fifo` is the list behind
    `firstvictim` and `chain b` the chain of bucket `b`, both followed to their null link. -/
structure PtRepresentation (cm : Coremap) (fifo : List Nat) (chain : Nat → List Nat) : Prop where
  fifo_linked : Linked cm.fifoOf cm.firstvictim fifo
  fifo_nodup : fifo.Nodup
  chain_linked : ∀ b < cm.hashedptsize, Linked cm.nextOf (cm.hashedpt b) (chain b)
  chain_nodup : ∀ b < cm.hashedptsize, (chain b).Nodup
  chain_once : ∀ i, cm.IsUser i → cm.bucketOf i < cm.hashedptsize ∧
    (chain (cm.bucketOf i)).count i = 1
  chain_other : ∀ i, cm.IsUser i → ∀ b < cm.hashedptsize, b ≠ cm.bucketOf i → i ∉ chain b
  fifo_once : ∀ i, cm.IsUser i → fifo.count i = 1
  chain_user : ∀ b < cm.hashedptsize, ∀ i ∈ chain b, cm.IsUser i
  fifo_user : ∀ i ∈ fifo, cm.IsUser i
  last_eq : cm.lastallocateduser = fifo.getLast?
  first_none : cm.firstvictim = none ↔ ∀ i, ¬ cm.IsUser i
  last_none : cm.lastallocateduser = none ↔ ∀ i, ¬ cm.IsUser i
  key_unique : ∀ i j, cm.IsUser i → cm.IsUser j → (cm.pt i).pid = (cm.pt j).pid →
    (cm.pt i).vaddr = (cm.pt j).vaddr → i = j

theorem Rep.queue_eq_nil {cm : Coremap} {q : List Nat} (h : Rep cm q) :
    q = [] ↔ ∀ i, ¬ cm.IsUser i := by
  constructor
  · rintro rfl i hu
    exact absurd ((h.mem_queue i).2 hu) (by simp)
  · intro hno
    exact List.eq_nil_iff_forall_not_mem.2 fun i hi => hno i ((h.mem_queue i).1 hi)

theorem Rep.ptRepresentation {cm : Coremap} {q : List Nat} (h : Rep cm q) :
    ∃ chain, PtRepresentation cm q chain := by
  choose! chain hlinked hmem using h.chained
  have hbucket : ∀ i, cm.bucketOf i < cm.hashedptsize := fun i => Nat.mod_lt _ h.hashed_pos
  have hnodup : ∀ b < cm.hashedptsize, (chain b).Nodup := fun b hb => (hlinked b hb).nodup
  refine ⟨chain, h.queued.1, h.queue_nodup, hlinked, hnodup, ?_, ?_, ?_, ?_, ?_, h.queued.2, ?_, ?_,
    h.inj⟩
  · intro i hu
    exact ⟨hbucket i, List.count_eq_one_of_mem (hnodup _ (hbucket i))
      ((hmem _ (hbucket i) i).2 ⟨hu, rfl⟩)⟩
  · intro i _ b hb hne hi
    exact hne ((hmem b hb i).1 hi).2.symm
  · intro i hu
    exact List.count_eq_one_of_mem h.queue_nodup ((h.mem_queue i).2 hu)
  · intro b hb i hi
    exact ((hmem b hb i).1 hi).1
  · intro i hi
    exact (h.mem_queue i).1 hi
  · rw [← h.queue_eq_nil, h.firstvictim_eq]
    cases q <;> simp
  · rw [← h.queue_eq_nil, h.queued.2]
    simp

/-- Over every run from boot the page table keeps its representation, and `freeuser` returns. -/
theorem coreReachable_ptRepresentation (h : CoreReachable vm) :
    (∃ fifo chain, PtRepresentation vm.cm fifo chain) ∧
      ∀ pid v, ∃ r, vm.cm.freeuser pid v = .ok r := by
  obtain ⟨q, hinv⟩ := h.tableInv
  refine ⟨⟨q, hinv.rep.ptRepresentation⟩, fun pid v => ?_⟩
  obtain ⟨cm', res, -, hfree, -⟩ := hinv.freeuser_effect pid v
  exact ⟨_, hfree⟩

/-- Sixty-four frames, of which the kernel leaves three free, and two buckets. -/
def threeFrames : Vm :=
  { blank with cm := okOr blank.cm (ptinit blank.cm (64 * 4096) (61 * 4096)) }

def afterAlloc (vm : Vm) (pid : Int) (v : VAddr) : Vm := (okOr (vm, 0) (allocuserpage vm pid v)).1

theorem CoreReachable.afterAlloc {pid : Int} {v : VAddr} (hr : CoreReachable vm) (h : 0 < pid ∧
    (pageaddr vm pid v).toOption = some 0 ∧ (allocuserpage vm pid v).isOk = true) :
    CoreReachable (afterAlloc vm pid v) := by
  obtain ⟨vm₀, hboots, hreach⟩ := hr
  have hstep : CoreStep vm (.allocuserpage pid v) (DemandPaging.afterAlloc vm pid v) :=
    ⟨h.1, eq_ok_of_toOption h.2.1, exists_okOr h.2.2⟩
  exact ⟨vm₀, hboots, hreach.tail hstep⟩

/-- Two pages of process 2 collide, a page of process 3 is in the other bucket, and a third page of
    process 2 evicts the first one. -/
def collided : Vm :=
  afterAlloc (afterAlloc (afterAlloc (afterAlloc threeFrames 2 0x400000) 3 0x401000) 2 0x402000)
    2 0x404000

theorem collided_reachable : CoreReachable collided := by
  have hboots : Boots threeFrames :=
    ⟨blank.cm, 64 * 4096, 61 * 4096, rfl, rfl, by decide, by decide, rfl⟩
  have hboot : CoreReachable threeFrames := ⟨_, hboots, .refl⟩
  exact (((hboot.afterAlloc (by decide +kernel)).afterAlloc (by decide +kernel)).afterAlloc
    (by decide +kernel)).afterAlloc (by decide +kernel)

theorem collided_ptRepresentation :
    ((pageaddr collided 2 0x400000).toOption = some 0 ∧
      collided.cm.bucketOf 61 = collided.cm.bucketOf 63 ∧
      collided.cm.bucketOf 61 ≠ collided.cm.bucketOf 62) ∧
    ∃ fifo chain, PtRepresentation collided.cm fifo chain :=
  ⟨by decide +kernel, (coreReachable_ptRepresentation collided_reachable).1⟩

end DemandPaging
