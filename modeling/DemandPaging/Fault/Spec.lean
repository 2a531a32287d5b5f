import DemandPaging.Coremap.Runs
import DemandPaging.Fault.Flags

set_option autoImplicit false

/-! # What the stretches of `vm_fault` do

One specification for each stretch of the handler, on a page table that satisfies its invariant.
`FaultBegins` lists where the page table can lead a fault, `LoadBegins` where the load goes from
there. -/

namespace DemandPaging

variable {vm : Vm} {q : List Nat} {pid : Int} {fa : VAddr}

/-- The checks on a read or a write by a process with an address space. -/
theorem faultEntry_access {ty : FaultType} {addr : VAddr} {as : AddrSpace}
    (hty : ty = .VM_FAULT_READ ∨ ty = .VM_FAULT_WRITE) :
    faultEntry (some as) ty addr = match as.checked with
      | .error e => .error e
      | .ok _ =>
        match as.locate (pageOf addr) with
        | none => .ok (.returns .EFAULT)
        | some c => .ok (.page as c) := by
  rcases hty with rfl | rfl <;> rfl

/-- A fault that gets past the checks is about a page of the address space. -/
theorem faultEntry_page {as : Option AddrSpace} {as' : AddrSpace} {t : FaultType} {addr : VAddr}
    {c : FaultCtx} (h : faultEntry as t addr = .ok (.page as' c)) :
    as = some as' ∧ as'.locate c.fa = some c ∧ pageOf c.fa = c.fa ∧ c.fa = pageOf addr := by
  have hty : t = .VM_FAULT_READ ∨ t = .VM_FAULT_WRITE := by
    cases t with
    | VM_FAULT_READONLY => cases h
    | VM_FAULT_READ => exact .inl rfl
    | VM_FAULT_WRITE => exact .inr rfl
    | other n => cases h
  cases as with
  | none => rcases hty with rfl | rfl <;> cases h
  | some as₀ =>
    rw [faultEntry_access hty] at h
    split at h
    · cases h
    · split at h
      · cases h
      · next c' hloc =>
        simp only [Except.ok.injEq, FaultEntry.page.injEq] at h
        obtain ⟨rfl, rfl⟩ := h
        obtain ⟨hfa, -⟩ := locate_some hloc
        rw [hfa]
        exact ⟨rfl, hloc, pageOf_pageOf addr, rfl⟩

/-- The ways through the first stretch: the page is resident, a free frame, no frame at all, a
    victim, a victim and a full swap file. -/
inductive FaultBegins (vm : Vm) (q : List Nat) (pid : Int) (fa : VAddr) : Prop
  | hit (f : Nat) (counter : Counters) (hm : vm.cm.Maps pid fa f)
      (heq : faultBegin vm pid fa = .ok (.mapped { vm with counter := counter } (f * PAGE_SIZE)))
  | free (i : Nat) (cm' : Coremap) (counter : Counters) (hfresh : ∀ g, ¬ vm.cm.Maps pid fa g)
      (hi : vm.cm.FreeFrame i)
      (heq : faultBegin vm pid fa =
        .ok (.granted { vm with cm := cm', counter := counter } (i * PAGE_SIZE)))
      (hinv : TableInv cm' (q ++ [i]))
      (hown : cm'.own = Function.update vm.cm.own i (pid, fa, 1)) (hs : SameShape vm.cm cm')
      (hleast : ∀ k < i, ¬ vm.cm.FreeFrame k)
  | exhausted (counter : Counters) (hfresh : ∀ g, ¬ vm.cm.Maps pid fa g)
      (hno : ∀ k, ¬ vm.cm.FreeFrame k) (hq : q = [])
      (heq : faultBegin vm pid fa = .ok (.granted { vm with counter := counter } 0))
  | evict (f : Nat) (q' : List Nat) (p : Int) (w : VAddr) (sw : Swapfile) (slot : Nat)
      (counter : Counters) (hfresh : ∀ g, ¬ vm.cm.Maps pid fa g)
      (hno : ∀ k, ¬ vm.cm.FreeFrame k) (hq : q = f :: q') (hm : vm.cm.Maps p w f)
      (hclaim : vm.swap.claimSlot p w = some (sw, slot))
      (heq : faultBegin vm pid fa = .ok (.evicting { vm with swap := sw, counter := counter }
        { ind := f, pid := p, vaddr := w, readfrom := f * PAGE_SIZE, slot := slot }))
  | swapFull (f : Nat) (q' : List Nat) (p : Int) (w : VAddr)
      (hfresh : ∀ g, ¬ vm.cm.Maps pid fa g) (hno : ∀ k, ¬ vm.cm.FreeFrame k) (hq : q = f :: q')
      (hm : vm.cm.Maps p w f) (hclaim : vm.swap.claimSlot p w = none)
      (heq : faultBegin vm pid fa = .error (.panic swapFullMsg))

theorem faultBegin_spec (h : TableInv vm.cm q) (hp : 0 < pid) : FaultBegins vm q pid fa := by
  have hact : ¬ vm.cm.isAct = false := by rw [h.isAct]; decide
  by_cases hres : ∃ f, vm.cm.Maps pid fa f
  · obtain ⟨f, hm⟩ := hres
    have hne : f * PAGE_SIZE ≠ 0 := Nat.mul_ne_zero (h.user_ne_zero hm.1) (by decide)
    refine .hit f (vmstatincr (vmstatincr vm.counter .TLBFAULT) .TLBRELOAD) hm ?_
    unfold faultBegin
    simp only [pageaddr, Vm.incr, if_neg hact, h.getpageaddr_maps hm, if_neg hne]
  · have hfresh : ∀ g, ¬ vm.cm.Maps pid fa g := fun g hg => hres ⟨g, hg⟩
    have hvm : TableInv (vm.incr .TLBFAULT).cm q := h
    have hpa : pageaddr (vm.incr .TLBFAULT) pid fa = .ok 0 := hvm.pageaddr_eq_zero.2 hfresh
    cases allocuserpageStart_spec hvm hp hfresh with
    | free i cm' hi heq hinv hown hs hleast =>
      refine .free i cm' (vmstatincr vm.counter .TLBFAULT) hfresh hi ?_ hinv hown hs hleast
      unfold faultBegin
      simp only [hpa, if_true, heq]
      rfl
    | exhausted hno hq heq =>
      refine .exhausted (vmstatincr vm.counter .TLBFAULT) hfresh hno hq ?_
      unfold faultBegin
      simp only [hpa, if_true, heq]
      rfl
    | evict f q' p w sw slot hno hq hm hclaim heq =>
      refine .evict f q' p w sw slot (vmstatincr vm.counter .TLBFAULT) hfresh hno hq hm hclaim ?_
      unfold faultBegin
      simp only [hpa, if_true, heq]
      rfl
    | swapFull f q' p w hno hq hm hclaim heq =>
      refine .swapFull f q' p w hfresh hno hq hm hclaim ?_
      unfold faultBegin
      simp only [hpa, if_true, heq]

/-- The ways through the load of a page: its slot is missing, a read from swap, a read from the
    executable, a zeroed stack page. -/
inductive LoadBegins (vm : Vm) (pid : Int) (as : AddrSpace) (c : FaultCtx) (r : Nat) : Prop
  | missing (counter : Counters) (hflag : as.flag c = 1)
      (hslot : vm.swap.findSlot pid c.fa = none)
      (heq : loadBegin vm pid as c r = .ok (.ready { vm with counter := counter } as))
  | swap (slot : Nat) (hflag : as.flag c = 1) (hslot : vm.swap.findSlot pid c.fa = some slot)
      (heq : loadBegin vm pid as c r = .ok (.swapRead slot))
  | elf (vnode offset : Nat) (hflag : as.flag c = 0) (hstack : as.stackseg c = false)
      (hsrc : elfSource as c.fa = .ok (vnode, offset))
      (heq : loadBegin vm pid as c r = .ok (.elfRead vnode offset))
  | elfCrash (e : Crash) (hflag : as.flag c = 0) (hstack : as.stackseg c = false)
      (hsrc : elfSource as c.fa = .error e) (heq : loadBegin vm pid as c r = .error e)
  | zero (counter : Counters) (hflag : as.flag c = 0) (hstack : as.stackseg c = true)
      (heq : loadBegin vm pid as c r = .ok (.ready
        { vm with ram := Function.update vm.ram (r / PAGE_SIZE) fun _ => 0, counter := counter }
        (as.setLoaded c)))

theorem loadBegin_spec {as : AddrSpace} (hbin : as.Binary) (c : FaultCtx) (r : Nat) :
    LoadBegins vm pid as c r := by
  rcases hbin c with hflag | hflag
  · cases hstack : as.stackseg c with
    | false =>
      cases hsrc : elfSource as c.fa with
      | error e => exact .elfCrash e hflag hstack hsrc (by simp [loadBegin, hflag, hstack, hsrc])
      | ok src =>
        exact .elf src.1 src.2 hflag hstack hsrc (by simp [loadBegin, hflag, hstack, hsrc])
    | true =>
      refine .zero (vmstatincr vm.counter .PAGEFAULTZERO) hflag hstack ?_
      simp only [loadBegin, hflag, hstack]
      rfl
  · cases hslot : vm.swap.findSlot pid c.fa with
    | none =>
      refine .missing (vmstatincr (vmstatincr vm.counter .PAGEFAULTDISK) .PAGEFAULTSWAP) hflag
        hslot ?_
      simp only [loadBegin, hflag, hslot, if_true]
      rfl
    | some slot => exact .swap slot hflag hslot (by simp [loadBegin, hflag, hslot])

/-! ## The address space after a call -/

variable {files : Nat → List UInt8} {vm' : Vm} {as as' : AddrSpace} {c : FaultCtx}

theorem loadPage_space {r : Nat}
    (h : loadPage files vm pid as c r = .ok (vm', as')) : as' = as ∨ as' = as.setLoaded c := by
  unfold loadPage loadBegin at h
  split_ifs at h with h1 h2 h3
  · cases hslot : vm.swap.findSlot pid c.fa <;>
      simp only [hslot, Except.ok.injEq, Prod.mk.injEq] at h <;> exact .inl h.2.symm
  · cases hsrc : elfSource as c.fa with
    | error e => simp [hsrc] at h
    | ok r =>
      simp only [hsrc, Except.ok.injEq, Prod.mk.injEq] at h
      exact .inr h.2.symm
  · simp only [Except.ok.injEq, Prod.mk.injEq] at h
    exact .inr h.2.symm
  · simp only [Except.ok.injEq, Prod.mk.injEq] at h
    exact .inl h.2.symm

theorem faultPage_space (h : faultPage files vm pid as c = .ok (vm', as')) :
    as' = as ∨ as' = as.setLoaded c := by
  unfold faultPage at h
  split at h
  · cases h
  · simp only [Except.ok.injEq, Prod.mk.injEq] at h
    exact .inl h.2.symm
  · exact loadPage_space h
  · split at h
    · cases h
    · exact loadPage_space h

/-- What a call of `vm_fault` makes of the address space. -/
theorem vmFault_space {t : FaultType} {addr : VAddr} {r : FaultResult}
    (h : vmFault files vm pid (some as) t addr = .ok (vm', some as', r)) :
    as' = as ∨ ∃ c, as.locate (pageOf addr) = some c ∧ as' = as.setLoaded c := by
  unfold vmFault at h
  split at h
  · cases h
  · cases h
    exact .inl rfl
  · cases h
    exact .inl rfl
  · next as₁ c hentry =>
    obtain ⟨heq, hloc, -, hfa⟩ := faultEntry_page hentry
    cases heq
    split at h
    · cases h
    · next hpage =>
      cases h
      rcases faultPage_space hpage with rfl | rfl
      · exact .inl rfl
      · exact .inr ⟨c, hfa ▸ hloc, rfl⟩

end DemandPaging
