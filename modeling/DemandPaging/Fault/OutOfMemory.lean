import DemandPaging.Fault.ElfImage
import DemandPaging.Tlb.Entries

set_option autoImplicit false

/-! # Faults without memory

`allocuserpage` answers 0 when no frame is free and no user page can be evicted. `vm_fault` does not
look: it loads the page at physical address 0 and maps it there. As long as there is a frame to
give, a fault writes and maps nothing but the frame that the page table assigns to the page. -/

namespace DemandPaging

/-- The fault gets as far as `allocuserpage`, which answers 0. -/
def AllocFails (vm : Vm) (pid : Int) (as : Option AddrSpace) (ty : FaultType) (addr : VAddr) :
    Prop :=
  ∃ as' c, faultEntry as ty addr = .ok (.page as' c) ∧ pageaddr vm pid c.fa = .ok 0 ∧
    ∃ vm', allocuserpage vm pid c.fa = .ok (vm', 0)

/-- The call returns an error and has changed nothing but its counters. -/
def FaultReported (files : Nat → List UInt8) (vm : Vm) (pid : Int) (as : Option AddrSpace)
    (ty : FaultType) (addr : VAddr) : Prop :=
  ∃ vm' e, vmFault files vm pid as ty addr = .ok (vm', as, .returned (some e)) ∧
    vm'.cm = vm.cm ∧ vm'.tlb = vm.tlb ∧ vm'.ram = vm.ram

/-- Every frame that a call changes or maps is the one the page table assigns to the page. (A call
    that panics does so before its first write.) -/
def FaultConfined (files : Nat → List UInt8) (vm : Vm) (pid : Int) (as : Option AddrSpace)
    (ty : FaultType) (addr : VAddr) : Prop :=
  ∀ vm' as' r, vmFault files vm pid as ty addr = .ok (vm', as', r) →
    (∀ f, vm'.ram f ≠ vm.ram f → vm'.cm.Maps pid (pageOf addr) f) ∧
    ∀ i, vm'.tlb.entry i ≠ vm.tlb.entry i → (vm'.tlb.entry i).valid = true →
      vm'.cm.Maps pid (pageOf addr) (vm'.tlb.entry i).frame

/-! ## What a call touches -/

/-- Between two states at most frame `f` is written and at most frame `f` is mapped. -/
structure Vm.TouchesOnly (vm vm' : Vm) (f : Nat) : Prop where
  ram : ∀ g, vm'.ram g ≠ vm.ram g → g = f
  tlb : ∀ i, vm'.tlb.entry i ≠ vm.tlb.entry i → (vm'.tlb.entry i).valid = true →
    (vm'.tlb.entry i).frame = f

variable {files : Nat → List UInt8} {vm vm' vm₁ : Vm} {q : List Nat} {pid : Int}
  {as as' : AddrSpace} {c : FaultCtx} {f : Nat}

theorem Vm.TouchesOnly.of_same (hram : vm'.ram = vm.ram) (htlb : vm'.tlb = vm.tlb) :
    vm.TouchesOnly vm' f where
  ram g hg := absurd (congrFun hram g) hg
  tlb i hi := absurd (by rw [htlb]) hi

theorem Vm.TouchesOnly.trans (h : vm.TouchesOnly vm₁ f) (h' : vm₁.TouchesOnly vm' f) :
    vm.TouchesOnly vm' f where
  ram g hg := by
    by_cases hmid : vm'.ram g = vm₁.ram g
    · exact h.ram g (hmid ▸ hg)
    · exact h'.ram g hmid
  tlb i hi hvalid := by
    by_cases hmid : vm'.tlb.entry i = vm₁.tlb.entry i
    · rw [hmid] at hi hvalid ⊢
      exact h.tlb i hi hvalid
    · exact h'.tlb i hmid hvalid

/-- A write to frame `f`. -/
theorem Vm.TouchesOnly.of_update {page : Page}
    (hram : vm'.ram = Function.update vm.ram (f * PAGE_SIZE / PAGE_SIZE) page)
    (htlb : vm'.tlb = vm.tlb) : vm.TouchesOnly vm' f where
  ram g hg := by
    rw [Nat.mul_div_cancel f (by decide)] at hram
    by_contra hne
    exact hg (by rw [hram, Function.update_of_ne hne])
  tlb i hi := absurd (by rw [htlb]) hi

/-- The end of `vm_fault` maps the frame it is given. -/
theorem faultEnd_touches (hf : f < 2 ^ 20) :
    vm.TouchesOnly (faultEnd vm pid as c (f * PAGE_SIZE)) f where
  ram g hg := absurd rfl hg
  tlb i hi _ := by
    have htlb : (faultEnd vm pid as c (f * PAGE_SIZE)).tlb.entry = _ :=
      vm.tlb.vmtlbWrite_entry pid c.fa (f * PAGE_SIZE) (as.writable c.seg) vm.counter
    rw [htlb] at hi ⊢
    by_cases hik : i = vm.tlb.nextSlot
    · rw [hik, Function.update_self]
      exact frame_entryLo _ hf _
    · exact absurd (Function.update_of_ne hik ..) hi

/-- Evicting a page writes no frame, and maps none. -/
theorem vmtlbInvalidatepage_touches {w : VAddr} (hram : vm'.ram = vm.ram)
    (htlb : vm'.tlb = vm.tlb.vmtlbInvalidatepage w) : vm.TouchesOnly vm' f where
  ram g hg := absurd (congrFun hram g) hg
  tlb i hi hvalid := by
    rw [htlb] at hi hvalid
    unfold Tlb.vmtlbInvalidatepage at hi hvalid
    split at hi
    · next k hk =>
      simp only [hk, Tlb.tlbWrite] at hi hvalid
      by_cases hik : i = k
      · rw [hik, Function.update_self] at hvalid
        exact absurd hvalid (Bool.eq_false_iff.1 (valid_invalid k))
      · exact absurd (Function.update_of_ne hik ..) hi
    · exact absurd rfl hi

/-- The load writes and maps the frame it is given, and leaves the page table alone. -/
theorem loadPage_touches (hf : f < 2 ^ 20)
    (h : loadPage files vm pid as c (f * PAGE_SIZE) = .ok (vm', as')) :
    vm'.cm = vm.cm ∧ vm.TouchesOnly vm' f := by
  unfold loadPage at h
  cases hbegin : loadBegin vm pid as c (f * PAGE_SIZE) with
  | error e => rw [hbegin] at h; cases h
  | ok point =>
    rw [hbegin] at h
    cases point with
    | ready vm₁ as₁ =>
      cases h
      have hmid : vm₁.cm = vm.cm ∧ vm.TouchesOnly vm₁ f := by
        unfold loadBegin at hbegin
        split_ifs at hbegin
        · cases hslot : vm.swap.findSlot pid c.fa with
          | none =>
            rw [hslot] at hbegin
            cases hbegin
            exact ⟨rfl, .of_same rfl rfl⟩
          | some slot => rw [hslot] at hbegin; cases hbegin
        · cases hsrc : elfSource as c.fa with
          | error e | ok src => rw [hsrc] at hbegin; cases hbegin
        · cases hbegin
          exact ⟨rfl, .of_update rfl rfl⟩
        · cases hbegin
          exact ⟨rfl, .of_same rfl rfl⟩
      exact ⟨hmid.1, hmid.2.trans (faultEnd_touches hf)⟩
    | swapRead slot =>
      cases h
      have hread : vm.TouchesOnly (swapoutpageEnd vm (f * PAGE_SIZE) slot) f :=
        .of_update rfl rfl
      exact ⟨rfl, hread.trans (faultEnd_touches hf)⟩
    | elfRead vnode offset =>
      cases h
      have hread : vm.TouchesOnly (elfCounters
        (readfromelfto vm (files vnode) (f * PAGE_SIZE) offset)) f := .of_update rfl rfl
      exact ⟨rfl, hread.trans (faultEnd_touches hf)⟩

/-- While there is a frame to give, a fault touches only the frame its page has afterwards. -/
theorem faultPage_touches (h : TableInv vm.cm q) (hp : 0 < pid)
    (hmem : (∃ k, vm.cm.FreeFrame k) ∨ ∃ g, vm.cm.firstvictim = some g)
    (heq : faultPage files vm pid as c = .ok (vm', as')) :
    ∃ f, vm'.cm.Maps pid c.fa f ∧ vm.TouchesOnly vm' f := by
  have hsmall : ∀ {g}, g < vm.cm.ptsize → g < 2 ^ 20 := fun hg => Nat.lt_of_lt_of_le hg h.ptsize_le
  have hbegin : FaultBegins vm q pid c.fa := faultBegin_spec h hp
  cases hbegin with
  | hit f counter hm hbegin =>
    simp only [faultPage, hbegin, Except.ok.injEq, Prod.mk.injEq] at heq
    obtain ⟨rfl, -⟩ := heq
    have hcount : vm.TouchesOnly { vm with counter := counter } f := .of_same rfl rfl
    exact ⟨f, hm, hcount.trans (faultEnd_touches (hsmall hm.1.1))⟩
  | free i cm' counter hfresh hi hbegin hinv hown hs hleast =>
    simp only [faultPage, hbegin] at heq
    obtain ⟨hcm, htouch⟩ := loadPage_touches (hsmall hi.1) heq
    have hgrant : vm.TouchesOnly { vm with cm := cm', counter := counter } i := .of_same rfl rfl
    refine ⟨i, ?_, hgrant.trans htouch⟩
    rw [hcm]
    exact (maps_granted hown hs.ptsize hi.1 hp hfresh i).2 rfl
  | exhausted counter hfresh hno hq hbegin =>
    rcases hmem with ⟨k, hk⟩ | ⟨g, hg⟩
    · exact absurd hk (hno k)
    · rw [h.rep.queued.1.head_eq, hq] at hg
      cases hg
  | evict g q' p w sw slot counter hfresh hno hq hm hclaim hbegin =>
    subst hq
    obtain ⟨cm', -, hown, hs, hfault⟩ := faultPage_evicts h hp hfresh hbegin
    rw [hfault] at heq
    obtain ⟨hcm, htouch⟩ := loadPage_touches (hsmall hm.1.1) heq
    refine ⟨g, ?_, .trans ?_ htouch⟩
    · rw [hcm]
      exact (maps_granted hown hs.ptsize hm.1.1 hp hfresh g).2 rfl
    · exact vmtlbInvalidatepage_touches rfl rfl
  | swapFull g q' p w hfresh hno hq hm hclaim hbegin =>
    simp only [faultPage, hbegin] at heq
    cases heq

/-! ## Reported or not -/

variable {space : Option AddrSpace} {ty : FaultType} {addr : VAddr}

theorem FaultConfined.of_entry_ne (hno : ∀ as c, faultEntry space ty addr ≠ .ok (.page as c)) :
    FaultConfined files vm pid space ty addr := by
  intro vm' as' r hrun
  unfold vmFault at hrun
  have hsame : vm' = vm := by
    split at hrun
    · cases hrun
    · cases hrun; rfl
    · cases hrun; rfl
    · next heq => exact absurd heq (hno _ _)
  subst hsame
  exact ⟨fun f hf => absurd rfl hf, fun i hi => absurd rfl hi⟩

theorem faultConfined_of_mem (h : TableInv vm.cm q) (hp : 0 < pid)
    (hmem : (∃ k, vm.cm.FreeFrame k) ∨ ∃ g, vm.cm.firstvictim = some g)
    (hentry : faultEntry space ty addr = .ok (.page as c)) :
    FaultConfined files vm pid space ty addr := by
  intro vm' as' r hrun
  simp only [vmFault, hentry] at hrun
  cases hpage : faultPage files vm pid as c with
  | error e => rw [hpage] at hrun; cases hrun
  | ok out =>
    rw [hpage] at hrun
    cases hrun
    obtain ⟨f, hm, htouch⟩ := faultPage_touches h hp hmem hpage
    rw [(faultEntry_page hentry).2.2.2] at hm
    exact ⟨fun g hg => htouch.ram g hg ▸ hm, fun i hi hv => htouch.tlb i hi hv ▸ hm⟩

/-- Past the checks `vm_fault` returns 0 or does not return. -/
theorem not_faultReported (hentry : faultEntry space ty addr = .ok (.page as c)) :
    ¬ FaultReported files vm pid space ty addr := by
  rintro ⟨vm', e, hrun, -⟩
  simp only [vmFault, hentry] at hrun
  cases hpage : faultPage files vm pid as c with
  | error e | ok out => rw [hpage] at hrun; cases hrun

/-- With a frame to give, `allocuserpage` does not answer 0: frame 0 is the kernel's. -/
theorem not_allocFails (h : TableInv vm.cm q) (hp : 0 < pid)
    (hmem : (∃ k, vm.cm.FreeFrame k) ∨ ∃ g, vm.cm.firstvictim = some g)
    (hentry : faultEntry space ty addr = .ok (.page as c)) :
    ¬ AllocFails vm pid space ty addr := by
  rintro ⟨as', c', hentry', hpa, vm', halloc⟩
  cases hentry.symm.trans hentry'
  have hzero : ∀ {i}, i ≠ 0 → i * PAGE_SIZE ≠ 0 := fun hi => Nat.mul_ne_zero hi (by decide)
  have hspec : Allocates vm q pid c.fa := allocuserpage_spec h hp (h.pageaddr_eq_zero.1 hpa)
  cases hspec with
  | free i cm' hi heq =>
    rw [heq] at halloc
    exact hzero (h.freeFrame_ne_zero hi) (congrArg Prod.snd (Except.ok.inj halloc))
  | exhausted hno hq heq =>
    rcases hmem with ⟨k, hk⟩ | ⟨g, hg⟩
    · exact hno k hk
    · rw [h.rep.queued.1.head_eq, hq] at hg
      cases hg
  | evict g q' p w sw slot cm' hno hq hm hclaim heq =>
    rw [heq] at halloc
    exact hzero (h.user_ne_zero hm.1) (congrArg Prod.snd (Except.ok.inj halloc))
  | swapFull g q' p w hno hq hm hclaim heq =>
    rw [heq] at halloc
    cases halloc

/-- Without a frame to give, `allocuserpage` answers 0 to every fault that reaches it. -/
theorem allocFails_of_exhausted (h : TableInv vm.cm q) (hp : 0 < pid)
    (hno : ∀ k, ¬ vm.cm.FreeFrame k) (hfv : vm.cm.firstvictim = none)
    (hentry : faultEntry space ty addr = .ok (.page as c)) :
    AllocFails vm pid space ty addr := by
  have hq : q = [] := List.head?_eq_none_iff.1 (h.rep.queued.1.head_eq.symm.trans hfv)
  have hfresh : ∀ g, ¬ vm.cm.Maps pid c.fa g := by
    intro g hg
    have hmem := (h.rep.mem_queue g).2 hg.1
    rw [hq] at hmem
    cases hmem
  have hspec : Allocates vm q pid c.fa := allocuserpage_spec h hp hfresh
  refine ⟨as, c, hentry, h.pageaddr_eq_zero.2 hfresh, ?_⟩
  cases hspec with
  | free i cm' hi => exact absurd hi (hno i)
  | exhausted _ _ heq => exact ⟨vm, heq⟩
  | evict g q' p w sw slot cm' _ hcons => rw [hq] at hcons; cases hcons
  | swapFull g q' p w _ hcons => rw [hq] at hcons; cases hcons

/-- Out-of-memory faults are reported and every fault is confined to the frame of its page, exactly
    as long as no fault that gets past the checks finds memory exhausted. -/
theorem outOfMemory_reported_iff (h : TableInv vm.cm q) (hp : 0 < pid) :
    ((AllocFails vm pid space ty addr → FaultReported files vm pid space ty addr) ∧
      FaultConfined files vm pid space ty addr) ↔
    ((∃ as c, faultEntry space ty addr = .ok (.page as c)) →
      (∃ k, vm.cm.FreeFrame k) ∨ ∃ g, vm.cm.firstvictim = some g) := by
  constructor
  · rintro ⟨hreport, -⟩ ⟨as, c, hentry⟩
    by_contra hnone
    push Not at hnone
    have hfv : vm.cm.firstvictim = none := Option.eq_none_iff_forall_ne_some.2 hnone.2
    exact not_faultReported hentry
      (hreport (allocFails_of_exhausted h hp hnone.1 hfv hentry))
  · intro hmem
    by_cases hentry : ∃ as c, faultEntry space ty addr = .ok (.page as c)
    · obtain ⟨as, c, heq⟩ := hentry
      have hgive := hmem ⟨as, c, heq⟩
      exact ⟨fun hfail => absurd hfail (not_allocFails h hp hgive heq),
        faultConfined_of_mem h hp hgive heq⟩
    · refine ⟨?_, FaultConfined.of_entry_ne fun as c heq => hentry ⟨as, c, heq⟩⟩
      rintro ⟨as, c, heq, -⟩
      exact absurd ⟨as, c, heq⟩ hentry

/-- With one frame left, the fault on the first page of the stack is confined. -/
theorem oneFrame_fault_confined : ∃ q, TableInv oneFrame.cm q ∧
    (AllocFails oneFrame 2 (some (smallSpace 4)) .VM_FAULT_WRITE stackbase →
      FaultReported (fun _ => []) oneFrame 2 (some (smallSpace 4)) .VM_FAULT_WRITE stackbase) ∧
    FaultConfined (fun _ => []) oneFrame 2 (some (smallSpace 4)) .VM_FAULT_WRITE stackbase := by
  have hinv : TableInv oneFrame.cm [] := oneFrame_boots.tableInv
  have hmem : (∃ k, oneFrame.cm.FreeFrame k) ∨ ∃ g, oneFrame.cm.firstvictim = some g :=
    (obtains_of_getfreeframes (i := 31) hinv (by decide)).imp (fun h => ⟨31, h.1⟩)
      fun h => ⟨31, h.2.1⟩
  exact ⟨[], hinv, (outOfMemory_reported_iff hinv (by decide)).2 fun _ => hmem⟩

/-- The small machine with code in its frames, after the kernel has taken the last one. -/
def kernelOnly : Vm := (getfreeppages { oneFrame with ram := fun _ _ => 0xff } 1).vm

theorem kernelOnly_reachable : CoreReachable kernelOnly := by
  have hboots : Boots { oneFrame with ram := fun _ _ => 0xff } := oneFrame_boots
  have hstep : CoreStep { oneFrame with ram := fun _ _ => 0xff } (.getfreeppages 1) kernelOnly :=
    ⟨by decide, rfl⟩
  exact ⟨_, hboots, .single hstep⟩

theorem smallSpace_stackEntry :
    faultEntry (some (smallSpace 4)) .VM_FAULT_WRITE stackbase
      = .ok (.page (smallSpace 4) ⟨stackbase, .segstack, 0⟩) := by
  have hloc : (smallSpace 4).locate (pageOf stackbase) = some ⟨stackbase, .segstack, 0⟩ := by
    decide +kernel
  obtain ⟨-, -, hok, -⟩ := smallSpace_spec 4 (.inr rfl)
  rw [faultEntry_access (.inr rfl)]
  cases hc : (smallSpace 4).checked with
  | error e => rw [hc] at hok; cases hok
  | ok u => simp only [hloc]

/-- The fault on the stack page clears a byte of frame 0, which stays the kernel's. -/
def clearsFrameZero : Bool :=
  match vmFault (fun _ => []) kernelOnly 2 (some (smallSpace 4)) .VM_FAULT_WRITE stackbase with
  | .ok (vm, _, _) => vm.ram 0 ⟨0, by decide⟩ == 0 && (vm.cm.pt 0).pid == 0
  | .error _ => false

/-- The stack page of a process that starts then goes to frame 0, which is cleared. -/
theorem kernelOnly_fault_unreported : CoreReachable kernelOnly ∧
    AllocFails kernelOnly 2 (some (smallSpace 4)) .VM_FAULT_WRITE stackbase ∧
    ¬ FaultReported (fun _ => []) kernelOnly 2 (some (smallSpace 4)) .VM_FAULT_WRITE stackbase ∧
    ¬ FaultConfined (fun _ => []) kernelOnly 2 (some (smallSpace 4)) .VM_FAULT_WRITE stackbase := by
  refine ⟨kernelOnly_reachable, ⟨_, _, smallSpace_stackEntry, by decide, kernelOnly, rfl⟩,
    not_faultReported smallSpace_stackEntry, fun hconf => ?_⟩
  have hclear : clearsFrameZero = true := by decide +kernel
  unfold clearsFrameZero at hclear
  split at hclear
  · next vm' as' r hrun =>
    simp only [Bool.and_eq_true, beq_iff_eq] at hclear
    obtain ⟨hram, hpid⟩ := hclear
    have hchanged : vm'.ram 0 ≠ kernelOnly.ram 0 := fun heq =>
      absurd (hram.symm.trans (congrFun heq _)) (by decide)
    have hm := (hconf vm' as' r hrun).1 0 hchanged
    exact absurd (hpid.symm.trans hm.2.1) (by decide)
  · cases hclear

end DemandPaging
