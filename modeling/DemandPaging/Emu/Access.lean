import DemandPaging.Emu
import DemandPaging.Machine.TlbOwner
import DemandPaging.Lib.Count

set_option autoImplicit false

/-! # One access to a user page

What becomes of an access that `copyin` or `copyout` makes while its thread owns `e_lock`
(`access_spec`). Outside the segments it is refused. A page that is resident, or that gets a free
frame and needs nothing from the disk, is entered into the TLB, and then the access gets through,
unless it is a write to a read-only page, which ends the thread. Every other page sends `vm_fault`
to the disk, and so to the lock that the thread owns. -/

namespace DemandPaging

open Function (update update_self update_of_ne)

/-! ## Free frames -/

instance (cm : Coremap) (h j : Nat) : Decidable (cm.ExtentOf h j) :=
  inferInstanceAs (Decidable (_ ∧ _))

instance (cm : Coremap) (j : Nat) : Decidable (cm.InExtent j) :=
  decidable_of_iff (∃ h, h < cm.ptsize ∧ cm.ExtentOf h j)
    ⟨fun ⟨h, _, hx⟩ => ⟨h, hx⟩, fun ⟨h, hx⟩ => ⟨h, hx.1, hx⟩⟩

instance (cm : Coremap) (j : Nat) : Decidable (cm.FreeFrame j) :=
  inferInstanceAs (Decidable (_ ∧ _))

/-- The number of free frames. -/
def Coremap.freeFrames (cm : Coremap) : Nat := ((Finset.range cm.ptsize).filter cm.FreeFrame).card

theorem freeFrame_install {cm cm' : Coremap} {i : Nat} {pid : Int} {v : VAddr}
    (hi : cm.FreeFrame i) (hp : 0 < pid) (hown : cm'.own = update cm.own i (pid, v, 1))
    (hsz : cm'.ptsize = cm.ptsize) (j : Nat) : cm'.FreeFrame j ↔ cm.FreeFrame j ∧ j ≠ i := by
  have hself : ∀ k, ¬ cm'.ExtentOf i k := by
    intro k hx
    have hzero := hx.2.1
    rw [hown, update_self] at hzero
    exact absurd hzero (Int.ne_of_gt hp)
  have hself' : ∀ k, ¬ cm.ExtentOf i k :=
    fun k hx => hi.2.2 ⟨i, hx.1, hx.2.1, Nat.le_refl i, by have := hx.2.2; omega⟩
  have hext : cm'.InExtent j ↔ cm.InExtent j := by
    refine exists_congr fun h => ?_
    by_cases hhi : h = i
    · subst hhi
      exact ⟨fun hx => (hself j hx).elim, fun hx => (hself' j hx).elim⟩
    · exact extentOf_of_own_update hown hsz hhi j
  unfold Coremap.FreeFrame
  rw [hext, hsz, isUser_of_own_update hown hsz]
  constructor
  · rintro ⟨hlt, hnu, hnx⟩
    refine ⟨⟨hlt, fun hu => ?_, hnx⟩, ?_⟩
    · by_cases hji : j = i
      · exact hi.2.1 (hji ▸ hu)
      · exact hnu (.inl ⟨hji, hu⟩)
    · rintro rfl
      exact hnu (.inr ⟨rfl, hlt, hp⟩)
  · rintro ⟨⟨hlt, hnu, hnx⟩, hji⟩
    exact ⟨hlt, fun hu => hu.elim (fun h => hnu h.2) fun h => hji h.1, hnx⟩

theorem freeFrames_install {cm cm' : Coremap} {i : Nat} {pid : Int} {v : VAddr}
    (hi : cm.FreeFrame i) (hp : 0 < pid) (hown : cm'.own = update cm.own i (pid, v, 1))
    (hsz : cm'.ptsize = cm.ptsize) : cm'.freeFrames + 1 = cm.freeFrames := by
  have hfree := freeFrame_install hi hp hown hsz
  have hchange := card_filter_change cm.FreeFrame cm'.FreeFrame (Finset.mem_range.2 hi.1)
    fun j _ hji => (hfree j).trans (and_iff_left hji)
  rw [if_pos hi, if_neg fun h => ((hfree i).1 h).2 rfl] at hchange
  unfold Coremap.freeFrames
  rw [hsz]
  exact hchange

theorem freeFrames_pos {cm : Coremap} : 0 < cm.freeFrames ↔ ∃ i, cm.FreeFrame i := by
  unfold Coremap.freeFrames
  rw [Finset.card_pos]
  constructor
  · rintro ⟨i, hi⟩
    exact ⟨i, (Finset.mem_filter.1 hi).2⟩
  · rintro ⟨i, hi⟩
    exact ⟨i, Finset.mem_filter.2 ⟨Finset.mem_range.2 hi.1, hi⟩⟩

/-! ## The TLB -/

namespace Tlb

variable {t : Tlb} {v : VAddr} {e : TlbEntry}

theorem lookup_some (h : t.lookup v = some e) : ∃ i, t.Live i ∧ t.entry i = e ∧ e.page = v := by
  obtain ⟨i, hi, rfl⟩ := Option.map_eq_some_iff.1 h
  obtain ⟨hlt, htest, -⟩ := search_some hi
  simp only [Bool.and_eq_true, beq_iff_eq] at htest
  exact ⟨i, ⟨hlt, htest.1⟩, rfl, htest.2⟩

theorem lookup_live {i : Nat} (hi : t.Live i) (hpage : (t.entry i).page = v) :
    ∃ e, t.lookup v = some e := by
  cases h : t.lookup v with
  | some e => exact ⟨e, rfl⟩
  | none => exact absurd hpage (lookup_none h hi)

end Tlb

/-- Every slot of the swap file is taken. -/
def Swapfile.Full (sw : Swapfile) : Prop := ∀ k < SWAPPAGES, (sw.swappagesmap k).pid ≠ -1

/-! ## Pages of the calling process -/

namespace Caller

variable (cl : Caller)

/-- Page `v` of the process is not in memory. -/
def Missing (s : IoState) (v : VAddr) : Prop := pageaddr s.vm cl.p_pid v = .ok 0

/-- Page `v` has to be read, from the swap file or from the executable, before it can be used. -/
def NeedsDisk (s : IoState) (v : VAddr) : Prop :=
  (s.as.locate v).any (fun c => (s.as.flag c == 1 && (s.vm.swap.findSlot cl.p_pid v).isSome) ||
    (s.as.flag c == 0 && !s.as.stackseg c)) = true

/-- Page `v` is in memory, or can be put there without the disk. -/
def Ready (s : IoState) (v : VAddr) : Prop :=
  cl.Missing s v → ¬ cl.NeedsDisk s v ∧ 0 < s.vm.cm.freeFrames

/-- A fault on page `v` goes to the disk: to read the page, or to write a victim. -/
def Blocks (s : IoState) (v : VAddr) : Prop :=
  cl.Missing s v ∧ (0 < s.vm.cm.freeFrames → cl.NeedsDisk s v) ∧
    (s.vm.cm.freeFrames = 0 → ¬ s.vm.swap.Full)

/-- A fault on page `v` stops the kernel: there is no room for a victim. -/
def Panics (s : IoState) (v : VAddr) : Prop :=
  cl.Missing s v ∧ s.vm.cm.freeFrames = 0 ∧ s.vm.swap.Full

instance (s : IoState) (v : VAddr) : Decidable (cl.Missing s v) :=
  inferInstanceAs (Decidable (_ = _))

instance (s : IoState) (v : VAddr) : Decidable (cl.NeedsDisk s v) :=
  inferInstanceAs (Decidable (_ = _))

/-- The entry is for a page of the process that is in memory, with the rights of its segment. -/
def EntryFits (s : IoState) (e : TlbEntry) : Prop :=
  ∃ c f, s.as.locate e.page = some c ∧ s.vm.cm.Maps cl.p_pid e.page f ∧
    e.dirty = s.as.writable c.seg

/-- The memory of a process that runs: the page table is in order and holds a user page, the three
    segments are there, with an executable behind the pages that are not in the stack, and the TLB
    serves the process. -/
structure MemOk (s : IoState) : Prop where
  pid : 0 < cl.p_pid
  table : ∃ q, q ≠ [] ∧ TableInv s.vm.cm q
  binary : s.as.Binary
  checked : s.as.checked.isOk = true
  source : ∀ v c, s.as.locate v = some c → s.as.stackseg c = false →
    ∃ src, elfSource s.as v = .ok src
  reuse : s.vm.tlb.tlbinvalidatedindex < NUM_TLB
  entries : ∀ i, s.vm.tlb.Live i → cl.EntryFits s (s.vm.tlb.entry i)

/-- Page `v` has come into the TLB, and into memory if it was not there. -/
structure Entered (s s' : IoState) (v : VAddr) : Prop where
  ok : cl.MemOk s'
  lock : s'.e_lock = s.e_lock
  layout : SameLayout s.as s'.as
  missing : ∀ u, cl.Missing s' u ↔ cl.Missing s u ∧ u ≠ v
  disk : ∀ u, pageOf u = u → u ≠ v → (cl.NeedsDisk s' u ↔ cl.NeedsDisk s u)
  free : s'.vm.cm.freeFrames + (if cl.Missing s v then 1 else 0) = s.vm.cm.freeFrames
  swap : s'.vm.swap = s.vm.swap
  entry : ∃ i, s'.vm.tlb.Live i ∧ (s'.vm.tlb.entry i).page = v

variable {cl} {s s' : IoState} {v : VAddr} {c : FaultCtx}

theorem MemOk.missing_iff (h : cl.MemOk s) :
    cl.Missing s v ↔ ∀ f, ¬ s.vm.cm.Maps cl.p_pid v f := by
  obtain ⟨q, -, hinv⟩ := h.table
  exact hinv.pageaddr_eq_zero

theorem needsDisk_iff (hloc : s.as.locate v = some c) : cl.NeedsDisk s v ↔
    (s.as.flag c = 1 ∧ s.vm.swap.findSlot cl.p_pid v ≠ none) ∨
      (s.as.flag c = 0 ∧ s.as.stackseg c = false) := by
  simp [NeedsDisk, hloc, Option.isSome_iff_ne_none]

/-- Loading page `v` makes no difference to the other pages. -/
theorem needsDisk_congr {vm : Vm} {as' : AddrSpace} {u : VAddr} (hloc : s.as.locate v = some c)
    (hv : pageOf v = v) (hu : pageOf u = u) (hne : u ≠ v)
    (has : as' = s.as ∨ as' = s.as.setLoaded c) (hswap : vm.swap = s.vm.swap) :
    cl.NeedsDisk { s with vm := vm, as := as' } u ↔ cl.NeedsDisk s u := by
  cases hd : s.as.locate u with
  | none => rcases has with rfl | rfl <;> simp [NeedsDisk, hd, locate_setLoaded]
  | some d =>
    have hother : ¬ (d.seg = c.seg ∧ d.ind = c.ind) :=
      fun hsame => hne (locate_inj hloc hd hv hu hsame)
    rcases has with rfl | rfl
    · simp [NeedsDisk, hswap]
    · simp only [NeedsDisk, locate_setLoaded, hd, hswap, Option.any_some,
        flag_setLoaded (locate_some hloc).2.1, if_neg hother, stackseg_setLoaded]

/-- The end of `vm_fault`. -/
theorem MemOk.enter {vm : Vm} {as : AddrSpace} {f : Nat}
    (h : cl.MemOk { s with vm := vm, as := as }) (hloc : as.locate c.fa = some c)
    (hpage : pageOf c.fa = c.fa) (hm : vm.cm.Maps cl.p_pid c.fa f) (paddr : Nat) :
    cl.MemOk { s with vm := faultEnd vm cl.p_pid as c paddr, as := as } ∧
      ∃ i, (faultEnd vm cl.p_pid as c paddr).tlb.Live i ∧
        ((faultEnd vm cl.p_pid as c paddr).tlb.entry i).page = c.fa := by
  obtain ⟨k, hk, hentry, -, hreuse⟩ :=
    Tlb.vmtlbWrite_spec h.reuse cl.p_pid c.fa paddr (as.writable c.seg) vm.counter
  have hnewpage : (⟨c.fa &&& TLBHI_VPAGE, Tlb.entryLo paddr (as.writable c.seg)⟩ : TlbEntry).page =
      c.fa := by
    unfold TlbEntry.page
    rw [show TLBHI_VPAGE = PAGE_FRAME from rfl, UInt32.and_assoc, UInt32.and_self]
    exact hpage
  refine ⟨⟨h.pid, h.table, h.binary, h.checked, h.source, hreuse, fun i hi => ?_⟩, k, ⟨hk, ?_⟩, ?_⟩
  · by_cases hik : i = k
    · subst hik
      refine ⟨c, f, ?_⟩
      simp only [faultEnd, hentry, update_self, hnewpage, dirty_entryLo]
      exact ⟨hloc, hm, trivial⟩
    · have hsame : (faultEnd vm cl.p_pid as c paddr).tlb.entry i = vm.tlb.entry i := by
        simp only [faultEnd, hentry, update_of_ne hik]
      have hlive : vm.tlb.Live i := ⟨hi.1, by rw [← hsame]; exact hi.2⟩
      rw [hsame]
      exact h.entries i hlive
  · simp only [faultEnd, hentry, update_self, valid_entryLo]
  · simp only [faultEnd, hentry, update_self, hnewpage]

/-- Nothing happens to a page with an entry. -/
theorem Entered.refl {i : Nat} (h : cl.MemOk s) (hi : s.vm.tlb.Live i)
    (hpage : (s.vm.tlb.entry i).page = v) (hres : ¬ cl.Missing s v) : cl.Entered s s v := by
  refine ⟨h, rfl, .refl _, fun u => ?_, fun _ _ _ => Iff.rfl, by rw [if_neg hres]; rfl, rfl,
    i, hi, hpage⟩
  refine ⟨fun hu => ⟨hu, ?_⟩, And.left⟩
  rintro rfl
  exact hres hu

/-! ## The fault -/

/-- A page that is in memory only has to be entered. -/
theorem MemOk.faultHit {f : Nat} (h : cl.MemOk s) (hloc : s.as.locate v = some c)
    (hpage : pageOf v = v) (hm : s.vm.cm.Maps cl.p_pid v f) (counter : Counters) :
    cl.Entered s { s with
      vm := faultEnd { s.vm with counter := counter } cl.p_pid s.as c (f * PAGE_SIZE) } v := by
  obtain rfl : c.fa = v := (locate_some hloc).1
  have hmid : cl.MemOk { s with vm := { s.vm with counter := counter }, as := s.as } :=
    ⟨h.pid, h.table, h.binary, h.checked, h.source, h.reuse, h.entries⟩
  obtain ⟨hok, hentry⟩ := hmid.enter hloc hpage hm (f * PAGE_SIZE)
  have hres : ¬ cl.Missing s c.fa := fun hmiss => h.missing_iff.1 hmiss f hm
  refine ⟨hok, rfl, .refl _, fun u => ?_, fun _ _ _ => Iff.rfl, ?_, rfl, hentry⟩
  · refine ⟨fun hu => ⟨hu, ?_⟩, And.left⟩
    rintro rfl
    exact hres hu
  · rw [if_neg hres]
    rfl

/-- A page that needs nothing from the disk, in the free frame `i`. `as'` is the address space with
    the page marked, if it had to be. -/
theorem MemOk.faultFree {i : Nat} {q : List Nat} {cm' : Coremap} {as' : AddrSpace} (h : cl.MemOk s)
    (hloc : s.as.locate v = some c) (hpage : pageOf v = v) (hmiss : cl.Missing s v)
    (hi : s.vm.cm.FreeFrame i) (hinv : TableInv cm' (q ++ [i]))
    (hown : cm'.own = update s.vm.cm.own i (cl.p_pid, v, 1)) (hs : SameShape s.vm.cm cm')
    (has : as' = s.as ∨ as' = s.as.setLoaded c) (ram : Nat → Page) (counter : Counters) :
    cl.Entered s { s with
      vm := faultEnd { s.vm with cm := cm', ram := ram, counter := counter } cl.p_pid as' c
        (i * PAGE_SIZE)
      as := as' } v := by
  obtain rfl : c.fa = v := (locate_some hloc).1
  have hmaps := maps_update_user hown hs.ptsize hi.1 h.pid
  have hlay : SameLayout s.as as' := by
    rcases has with rfl | rfl
    · exact .refl _
    · exact sameLayout_setLoaded s.as c
  have hm : cm'.Maps cl.p_pid c.fa i := (hmaps _ _ _).2 (.inr ⟨rfl, rfl, rfl⟩)
  have hbin : as'.Binary := by
    rcases has with rfl | rfl
    · exact h.binary
    · exact h.binary.setLoaded hloc
  have hchecked : as'.checked.isOk = true := by
    rcases has with rfl | rfl
    · exact h.checked
    · exact (checked_setLoaded c).trans h.checked
  have hsource : ∀ w d, as'.locate w = some d → as'.stackseg d = false →
      ∃ src, elfSource as' w = .ok src := by
    rcases has with rfl | rfl
    · exact h.source
    · intro w d hd hstack
      rw [elfSource_setLoaded]
      exact h.source w d ((hlay.1 w).symm.trans hd) (by rwa [stackseg_setLoaded] at hstack)
  have hkeep : ∀ w g, s.vm.cm.Maps cl.p_pid w g → cm'.Maps cl.p_pid w g := by
    intro w g hg
    refine (hmaps _ _ _).2 (.inl ⟨?_, hg⟩)
    rintro rfl
    exact hi.2.1 hg.1
  have hmid : cl.MemOk { s with
      vm := { s.vm with cm := cm', ram := ram, counter := counter }, as := as' } := by
    refine ⟨h.pid, ⟨_, by simp, hinv⟩, hbin, hchecked, hsource, h.reuse, fun k hk => ?_⟩
    obtain ⟨d, f, hd, hf, hdirty⟩ := h.entries k hk
    exact ⟨d, f, (hlay.1 _).trans hd, hkeep _ _ hf, hdirty.trans (hlay.2 _).symm⟩
  obtain ⟨hok, hentry⟩ := hmid.enter ((hlay.1 _).trans hloc) hpage hm (i * PAGE_SIZE)
  refine ⟨hok, rfl, hlay, fun u => ?_, fun u hu hne => ?_, ?_, rfl, hentry⟩
  · rw [hok.missing_iff, h.missing_iff]
    constructor
    · intro hno
      refine ⟨fun f hf => hno f (hkeep _ _ hf), ?_⟩
      rintro rfl
      exact hno i hm
    · rintro ⟨hno, hne⟩ f hf
      rcases (hmaps _ _ _).1 hf with ⟨-, hold⟩ | ⟨-, -, hu⟩
      · exact hno f hold
      · exact hne hu
  · exact needsDisk_congr hloc hpage hu hne has rfl
  · rw [if_pos hmiss]
    exact freeFrames_install hi h.pid hown hs.ptsize

/-- With the lock taken, the driver is a dead end. -/
theorem emuTransfer_taken {α : Type} {f : IoState → Except Halt α} (hlock : s.e_lock ≠ none) :
    (cl.emuTransfer s >>= f) = .error (.blocked s) := by
  simp [emuTransfer, lockAcquire, hlock, bind, Except.bind]

/-- What `vm_fault` does with a page of the process while `e_lock` is taken. -/
inductive Faulted (cl : Caller) (s : IoState) (c : FaultCtx) : Prop
  | entered (s' : IoState) (hready : cl.Ready s c.fa) (heq : cl.faultPage s c = .ok s')
      (hent : cl.Entered s s' c.fa)
  | blocked (s' : IoState) (hwhy : cl.Blocks s c.fa)
      (heq : cl.faultPage s c = .error (.blocked s')) (hlock : s'.e_lock = s.e_lock)
  | crashed (e : Crash) (hwhy : cl.Panics s c.fa) (heq : cl.faultPage s c = .error (.crashed e))

theorem faultPage_spec (h : cl.MemOk s) (hlock : s.e_lock ≠ none) (hloc : s.as.locate v = some c)
    (hpage : pageOf v = v) : Faulted cl s c := by
  obtain rfl : c.fa = v := (locate_some hloc).1
  obtain ⟨q, hq, hinv⟩ := h.table
  have hmissing : (∀ g, ¬ s.vm.cm.Maps cl.p_pid c.fa g) → cl.Missing s c.fa := h.missing_iff.2
  have hnone : (∀ k, ¬ s.vm.cm.FreeFrame k) → s.vm.cm.freeFrames = 0 := by
    intro hno
    by_contra hpos
    obtain ⟨k, hk⟩ := freeFrames_pos.1 (Nat.pos_of_ne_zero hpos)
    exact hno k hk
  have hbegin : FaultBegins s.vm q cl.p_pid c.fa := faultBegin_spec hinv h.pid
  cases hbegin with
  | hit f counter hm heq =>
    refine .entered _ (fun hmiss => (h.missing_iff.1 hmiss f hm).elim) ?_
      (h.faultHit hloc hpage hm counter)
    simp only [faultPage, heq]
  | free i cm' counter hfresh hi heq hinv' hown hs _ =>
    have hmiss := hmissing hfresh
    have hpos : 0 < s.vm.cm.freeFrames := freeFrames_pos.2 ⟨i, hi⟩
    have hdisk : cl.NeedsDisk s c.fa ↔ _ := needsDisk_iff hloc
    have hblocks : cl.NeedsDisk s c.fa → cl.Blocks s c.fa :=
      fun hd => ⟨hmiss, fun _ => hd, fun hzero => absurd hzero (Nat.ne_of_gt hpos)⟩
    have hloading : LoadBegins { s.vm with cm := cm', counter := counter } cl.p_pid s.as c
        (i * PAGE_SIZE) := loadBegin_spec h.binary c _
    cases hloading with
    | missing counter' hflag hslot hload =>
      refine .entered _ (fun _ => ⟨fun hd => ?_, hpos⟩) ?_
        (h.faultFree hloc hpage hmiss hi hinv' hown hs (.inl rfl) s.vm.ram counter')
      · rcases hdisk.1 hd with ⟨-, hsome⟩ | ⟨hzero, -⟩
        · exact hsome hslot
        · rw [hflag] at hzero
          cases hzero
      · simp only [faultPage, heq, loadPage, hload]
    | swap slot hflag hslot hload =>
      have hsome : s.vm.swap.findSlot cl.p_pid c.fa = some slot := hslot
      refine .blocked ⟨s.e_lock, { s.vm with cm := cm', counter := counter }, s.as⟩
        (hblocks (hdisk.2 (.inl ⟨hflag, by simp [hsome]⟩))) ?_ rfl
      simp only [faultPage, heq, loadPage, hload]
      exact emuTransfer_taken hlock
    | elf vnode offset hflag hstack hsrc hload =>
      refine .blocked ⟨s.e_lock, { s.vm with cm := cm', counter := counter }, s.as⟩
        (hblocks (hdisk.2 (.inr ⟨hflag, hstack⟩))) ?_ rfl
      simp only [faultPage, heq, loadPage, hload]
      exact emuTransfer_taken hlock
    | elfCrash e hflag hstack hsrc hload =>
      obtain ⟨src, hok⟩ := h.source _ _ hloc hstack
      rw [hsrc] at hok
      cases hok
    | zero counter' hflag hstack hload =>
      refine .entered _ (fun _ => ⟨fun hd => ?_, hpos⟩) ?_
        (h.faultFree hloc hpage hmiss hi hinv' hown hs (.inr rfl)
          (update s.vm.ram (i * PAGE_SIZE / PAGE_SIZE) fun _ => 0) counter')
      · rcases hdisk.1 hd with ⟨hone, -⟩ | ⟨-, hno⟩
        · rw [hflag] at hone
          cases hone
        · rw [hstack] at hno
          cases hno
      · simp only [faultPage, heq, loadPage, hload]
  | exhausted _ _ _ hnil _ => exact absurd hnil hq
  | evict f q' p w sw slot counter hfresh hno _ _ hclaim heq =>
    have hroom : ¬ s.vm.swap.Full := by
      intro hfull
      rw [claimSlot_eq_none.2 hfull] at hclaim
      cases hclaim
    refine .blocked ⟨s.e_lock, { s.vm with swap := sw, counter := counter }, s.as⟩
      ⟨hmissing hfresh, fun hpos => absurd (hnone hno) (Nat.ne_of_gt hpos), fun _ => hroom⟩ ?_ rfl
    simp only [faultPage, heq]
    exact emuTransfer_taken hlock
  | swapFull f q' p w hfresh hno _ _ hclaim heq =>
    refine .crashed (.panic swapFullMsg)
      ⟨hmissing hfresh, hnone hno, claimSlot_eq_none.1 hclaim⟩ ?_
    simp only [faultPage, heq]

/-! ## The access -/

/-- Page `v` belongs to a segment that may not be written. -/
def ReadOnly (as : AddrSpace) (v : VAddr) : Prop :=
  (as.locate v).any (fun c => !as.writable c.seg) = true

instance (as : AddrSpace) (v : VAddr) : Decidable (ReadOnly as v) :=
  inferInstanceAs (Decidable (_ = _))

theorem readOnly_iff {as : AddrSpace} (hloc : as.locate v = some c) :
    ReadOnly as v ↔ as.writable c.seg = false := by
  simp [ReadOnly, hloc]

theorem readOnly_congr {as as' : AddrSpace} (h : SameLayout as as') :
    ReadOnly as' v ↔ ReadOnly as v := by
  simp only [ReadOnly, h.1, h.2]

/-- What becomes of an access to page `v` while `e_lock` is taken. -/
inductive Accessed (cl : Caller) (write : Bool) (v : VAddr) (s : IoState) : Prop
  | refused (hout : s.as.locate v = none) (heq : cl.access write v 3 s = .ok (s, false))
  | through (s' : IoState) (hin : s.as.locate v ≠ none) (hready : cl.Ready s v)
      (hmay : ¬ (write = true ∧ ReadOnly s.as v)) (heq : cl.access write v 3 s = .ok (s', true))
      (hent : cl.Entered s s' v)
  | dies (s' : IoState) (hin : s.as.locate v ≠ none) (hready : cl.Ready s v)
      (hro : write = true ∧ ReadOnly s.as v)
      (heq : cl.access write v 3 s = .error (.exited s')) (hlock : s'.e_lock = s.e_lock)
  | blocked (s' : IoState) (hin : s.as.locate v ≠ none) (hwhy : cl.Blocks s v)
      (heq : cl.access write v 3 s = .error (.blocked s')) (hlock : s'.e_lock = s.e_lock)
  | crashed (e : Crash) (hin : s.as.locate v ≠ none) (hwhy : cl.Panics s v)
      (heq : cl.access write v 3 s = .error (.crashed e))

/-- A page with a TLB entry: the rights of its segment decide. -/
theorem access_hit (write : Bool) (h : cl.MemOk s) (hloc : s.as.locate v = some c)
    {i : Nat} (hlive : s.vm.tlb.Live i) (hpage : (s.vm.tlb.entry i).page = v) (fuel : Nat) :
    (¬ (write = true ∧ ReadOnly s.as v) ∧ cl.access write v (fuel + 1) s = .ok (s, true)) ∨
      (write = true ∧ ReadOnly s.as v) ∧
        cl.access write v (fuel + 1) s = .error (.exited s) := by
  obtain ⟨e, he⟩ := Tlb.lookup_live hlive hpage
  obtain ⟨k, hk, rfl, hkv⟩ := Tlb.lookup_some he
  obtain ⟨d, f, hd, -, hdirty⟩ := h.entries k hk
  rw [hkv, hloc] at hd
  cases hd
  rw [readOnly_iff hloc]
  cases hright : s.as.writable c.seg with
  | true =>
    rw [hright] at hdirty
    exact .inl ⟨by simp, by simp [access, trapOf, he, hdirty]⟩
  | false =>
    rw [hright] at hdirty
    cases write with
    | false => exact .inl ⟨by simp, by simp [access, trapOf, he]⟩
    | true =>
      refine .inr ⟨⟨rfl, rfl⟩, ?_⟩
      simp [access, trapOf, he, hdirty, vmFault, faultEntry, bind, Except.bind]

/-- A fault on a missing entry, up to the page table. -/
theorem MemOk.vmFault_eq {faulttype : FaultType} (h : cl.MemOk s) (hpage : pageOf v = v)
    (hty : faulttype = .VM_FAULT_READ ∨ faulttype = .VM_FAULT_WRITE) :
    cl.vmFault s faulttype v = match s.as.locate v with
      | none => .ok (s, some .EFAULT)
      | some c => (cl.faultPage s c).map (·, none) := by
  have hchecked := h.checked
  unfold vmFault
  rw [faultEntry_access hty, hpage]
  cases hc : s.as.checked with
  | error e =>
    rw [hc] at hchecked
    cases hchecked
  | ok segs =>
    cases hloc : s.as.locate v with
    | none => rfl
    | some c => cases hf : cl.faultPage s c <;> simp only [hf] <;> rfl

/-- A page without a TLB entry faults. -/
theorem MemOk.access_miss (write : Bool) (h : cl.MemOk s) (hpage : pageOf v = v)
    (hmiss : s.vm.tlb.lookup v = none) (fuel : Nat) :
    cl.access write v (fuel + 1) s = match s.as.locate v with
      | none => .ok (s, false)
      | some c => cl.faultPage s c >>= cl.access write v fuel := by
  obtain ⟨ty, hty, htrap⟩ : ∃ ty, (ty = FaultType.VM_FAULT_READ ∨ ty = .VM_FAULT_WRITE) ∧
      trapOf s.vm.tlb write v = some ty := by
    refine ⟨if write then .VM_FAULT_WRITE else .VM_FAULT_READ, ?_, by simp only [trapOf, hmiss]⟩
    cases write <;> simp
  simp only [access, htrap, h.vmFault_eq hpage hty]
  cases hloc : s.as.locate v with
  | none => rfl
  | some c => cases hf : cl.faultPage s c <;> simp only [hf] <;> rfl

theorem access_spec (write : Bool) (h : cl.MemOk s) (hlock : s.e_lock ≠ none)
    (hpage : pageOf v = v) : Accessed cl write v s := by
  cases hlook : s.vm.tlb.lookup v with
  | some e =>
    obtain ⟨i, hi, rfl, hiv⟩ := Tlb.lookup_some hlook
    obtain ⟨c, f, hloc, hm, -⟩ := h.entries i hi
    rw [hiv] at hloc hm
    have hres : ¬ cl.Missing s v := fun hmiss => h.missing_iff.1 hmiss f hm
    have hin : s.as.locate v ≠ none := by simp [hloc]
    rcases access_hit write h hloc hi hiv 2 with ⟨hmay, heq⟩ | ⟨hro, heq⟩
    · exact .through s hin (fun hmiss => absurd hmiss hres) hmay heq (.refl h hi hiv hres)
    · exact .dies s hin (fun hmiss => absurd hmiss hres) hro heq rfl
  | none =>
    have heq := h.access_miss write hpage hlook 2
    cases hloc : s.as.locate v with
    | none =>
      rw [hloc] at heq
      exact .refused hloc heq
    | some c =>
      have hin : s.as.locate v ≠ none := by simp [hloc]
      obtain rfl : c.fa = v := (locate_some hloc).1
      simp only [hloc] at heq
      cases faultPage_spec h hlock hloc hpage with
      | entered s' hready hfault hent =>
        simp only [hfault, bind, Except.bind] at heq
        obtain ⟨i, hi, hiv⟩ := hent.entry
        have hnext := access_hit write hent.ok ((hent.layout.1 _).trans hloc) hi hiv 1
        rw [readOnly_congr hent.layout, ← heq] at hnext
        rcases hnext with ⟨hmay, hdone⟩ | ⟨hno, hdone⟩
        · exact .through s' hin hready hmay hdone hent
        · exact .dies s' hin hready hno hdone hent.lock
      | blocked s' hwhy hfault hkept =>
        simp only [hfault, bind, Except.bind] at heq
        exact .blocked s' hin hwhy heq hkept
      | crashed e hwhy hfault =>
        simp only [hfault, bind, Except.bind] at heq
        exact .crashed e hin hwhy heq

end Caller

end DemandPaging
