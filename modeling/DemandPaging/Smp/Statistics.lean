import DemandPaging.Fault.Flags
import DemandPaging.Smp.Bookkeeping

set_option autoImplicit false

/-! # The statistics of the paging system (`vmstats.c`)

`printvmstats` announces three laws between the counters. They need not hold while a process is
inside `vm_fault`: the fault is counted where it begins, the load where it ends, and the TLB slot at
the very end. The books therefore carry the number of faults that are under way, on both sides of
every sleep, and the laws are the books with no fault under way. Counters wrap around, and so does
the number beside them. -/

namespace DemandPaging

open Function (update update_self update_of_ne)

/-! ## The counters -/

/-- `vmstatsetup`. -/
def vmstatsetup : Counters := fun _ => 0

/-- The laws that `printvmstats` announces. -/
structure StatLaws (c : Counters) : Prop where
  tlb : c .TLBFAULT = c .TLBFAULTWITHFREE + c .TLBFAULTWITHREPLACE
  page : c .TLBFAULT = c .TLBRELOAD + c .PAGEFAULTDISK + c .PAGEFAULTZERO
  disk : c .PAGEFAULTDISK = c .PAGEFAULTELF + c .PAGEFAULTSWAP

/-- The warnings of `printvmstats`. The source tests the first law for all three of them. -/
def vmstatWarnings (c : Counters) : List String :=
  let wrong := c .TLBFAULT != c .TLBFAULTWITHFREE + c .TLBFAULTWITHREPLACE
  (if wrong then ["WARNING:    The sum between the amount of TLB faults with free and TLB " ++
    "faults with replace should be equal to the total amount of TLB faults\n"] else []) ++
  (if wrong then ["WARNING:    The sum between the amount of TLB reloads, page faults from disk " ++
    "and page faults with zeroing should be equal to the total amount of TLB faults\n"] else []) ++
  (if wrong then ["WARNING:    The sum between the amount of page faults from ELF and page " ++
    "faults from the swapfile should be equal to the total amount of page faults from disk\n"]
  else [])

/-- The books with `n` faults under way. -/
structure Books (c : Counters) (n : UInt32) : Prop where
  tlb : c .TLBFAULT = c .TLBFAULTWITHFREE + c .TLBFAULTWITHREPLACE + n
  page : c .TLBFAULT = c .TLBRELOAD + c .PAGEFAULTDISK + c .PAGEFAULTZERO + n
  disk : c .PAGEFAULTDISK = c .PAGEFAULTELF + c .PAGEFAULTSWAP

/-- The ways a page gets to its frame. -/
inductive Loads (c : Counters) : Counters → Prop
  | reload : Loads c (vmstatincr c .TLBRELOAD)
  | swap : Loads c (vmstatincr (vmstatincr c .PAGEFAULTDISK) .PAGEFAULTSWAP)
  | elf : Loads c (vmstatincr (vmstatincr c .PAGEFAULTDISK) .PAGEFAULTELF)
  | zero : Loads c (vmstatincr c .PAGEFAULTZERO)

/-- What the end of a fault counts: how the page was loaded, and whether the TLB had room. -/
inductive Settles (c : Counters) : Counters → Prop
  | free {c' : Counters} (h : Loads c c') : Settles c (vmstatincr c' .TLBFAULTWITHFREE)
  | replace {c' : Counters} (h : Loads c c') : Settles c (vmstatincr c' .TLBFAULTWITHREPLACE)

section Counting

variable {c c' : Counters} {n : UInt32}

theorem Books.begins (h : Books c n) : Books (vmstatincr c .TLBFAULT) (n + 1) := by
  obtain ⟨htlb, hpage, hdisk⟩ := h
  constructor <;> simp [vmstatincr, update] <;> grind

theorem Books.loads (h : Books c (n + 1)) (hload : Loads c c') :
    c' .TLBFAULT = c' .TLBFAULTWITHFREE + c' .TLBFAULTWITHREPLACE + (n + 1) ∧
      c' .TLBFAULT = c' .TLBRELOAD + c' .PAGEFAULTDISK + c' .PAGEFAULTZERO + n ∧
      c' .PAGEFAULTDISK = c' .PAGEFAULTELF + c' .PAGEFAULTSWAP := by
  obtain ⟨htlb, hpage, hdisk⟩ := h
  cases hload <;> simp [vmstatincr, update] <;> grind

theorem Books.settles (h : Books c (n + 1)) (hend : Settles c c') : Books c' n := by
  cases hend with
  | free hload | replace hload =>
    obtain ⟨htlb, hpage, hdisk⟩ := h.loads hload
    constructor <;> simp [vmstatincr, update] <;> grind

/-- The laws do not speak of the writes to the swap file and of the flushes. -/
theorem Books.other (h : Books c n) {t : VmStat} (ht : t = .SWAPWRITE ∨ t = .TLBINVALIDATION) :
    Books (vmstatincr c t) n := by
  obtain ⟨htlb, hpage, hdisk⟩ := h
  rcases ht with rfl | rfl
  · constructor <;> simpa [vmstatincr, update]
  · constructor <;> simpa [vmstatincr, update]

theorem Books.laws (h : Books c 0) : StatLaws c := by
  obtain ⟨htlb, hpage, hdisk⟩ := h
  constructor <;> grind

theorem StatLaws.silent (h : StatLaws c) : vmstatWarnings c = [] := by
  simp [vmstatWarnings, h.tlb]

end Counting

/-! ## The counters along a fault -/

variable {s s' : Sys} {w : Option TlbWrite} {pid : Int} {as : AddrSpace} {c : FaultCtx}
  {a : Action} {vm vm' : Vm}

theorem vmtlbWrite_settles (t : Tlb) (pid : Int) (addr : VAddr) (paddr : Nat) (writePriv : Bool)
    {c c' : Counters} (h : Loads c c') :
    Settles c (t.vmtlbWrite pid addr paddr writePriv c').2 := by
  unfold Tlb.vmtlbWrite
  dsimp only
  split
  · dsimp only
    split
    · exact .free h
    · exact .replace h
  · split
    · exact .free h
    · exact .replace h

theorem faultEnd_settles {cs : Counters} (h : Loads cs vm.counter) (pid : Int) (as : AddrSpace)
    (c : FaultCtx) (paddr : Nat) : Settles cs (faultEnd vm pid as c paddr).counter :=
  vmtlbWrite_settles _ _ _ _ _ h

theorem allocuserpageFinish_counter {addr : VAddr} {ind paddr : Nat}
    (h : allocuserpageFinish vm pid addr ind = .ok (vm', paddr)) :
    vm'.counter = vmstatincr vm.counter .SWAPWRITE := by
  unfold allocuserpageFinish at h
  dsimp only [Vm.incr] at h
  repeat' split at h
  all_goals cases h
  all_goals rfl

theorem AddrSpace.Binary.mark (h : as.Binary) (c : FaultCtx) : (as.setLoaded c).Binary := by
  cases hseg : as.seg c.seg with
  | none =>
    have hsame : as.setLoaded c = as := by simp only [AddrSpace.setLoaded, hseg]
    rw [hsame]
    exact h
  | some s =>
    intro d
    rw [flag_setLoaded (by rw [hseg]; rfl)]
    split
    · exact .inr rfl
    · exact h d

theorem loadBegin_ready_counter (hbin : as.Binary) {r : Nat} {as' : AddrSpace}
    (h : loadBegin vm pid as c r = .ok (.ready vm' as')) :
    Loads vm.counter vm'.counter ∧ as'.Binary := by
  unfold loadBegin at h
  split at h
  · split at h
    · cases h
      exact ⟨.swap, hbin⟩
    · cases h
  · next hone =>
    split at h
    · split at h
      · cases h
      · cases h
    · next hfile =>
      split at h
      · cases h
        exact ⟨.zero, hbin.mark c⟩
      · next hstack =>
        -- a flag that is neither 0 nor 1
        have hzero : as.flag c = 0 := (hbin c).resolve_right hone
        cases hs : as.stackseg c with
        | false => exact absurd ⟨hs, hzero⟩ hfile
        | true => exact absurd ⟨hs, hzero⟩ hstack

theorem faultBegin_mapped_counter {fa : VAddr} {paddr : Nat}
    (h : faultBegin vm pid fa = .ok (.mapped vm' paddr)) :
    vm'.counter = vmstatincr (vmstatincr vm.counter .TLBFAULT) .TLBRELOAD := by
  unfold faultBegin at h
  dsimp only at h
  repeat' split at h
  all_goals cases h
  rfl

theorem faultBegin_granted_counter {fa : VAddr} {r : Nat}
    (h : faultBegin vm pid fa = .ok (.granted vm' r)) :
    vm'.counter = vmstatincr vm.counter .TLBFAULT := by
  unfold faultBegin at h
  dsimp only at h
  split at h
  · cases h
  · split at h
    · split at h
      · cases h
      · next hstart =>
        cases h
        exact (allocuserpageStart_frame hstart).2
      · cases h
    · cases h

theorem faultBegin_evicting_counter {fa : VAddr} {ev : Eviction}
    (h : faultBegin vm pid fa = .ok (.evicting vm' ev)) :
    vm'.counter = vmstatincr vm.counter .TLBFAULT := by
  unfold faultBegin at h
  dsimp only at h
  split at h
  · cases h
  · split at h
    · split at h
      · cases h
      · cases h
      · next hstart =>
        cases h
        exact (allocuserpageStart_frame hstart).2
    · cases h

/-! ## Outcomes -/

/-- A process inside `vm_fault`, with the counters at `cs`, goes to sleep or settles its fault. -/
inductive Accounts (s : Sys) (cs : Counters) (pid : Int) : Sys → Prop
  | ends {vm : Vm} {as : AddrSpace} (hbin : as.Binary) (hend : Settles cs vm.counter) :
      Accounts s cs pid (s.put vm pid as .user)
  | sleeps {vm : Vm} {as : AddrSpace} {pc : Pc} (hbin : as.Binary) (hcount : vm.counter = cs)
      (hasleep : pc.asleep = true) : Accounts s cs pid (s.put vm pid as pc)

theorem runLoad_accounts (hbin : as.Binary) {r : Nat}
    (h : s.runLoad vm pid as c r = .ok (s', w)) : Accounts s vm.counter pid s' := by
  unfold Sys.runLoad at h
  split at h
  · cases h
  · next hready =>
    cases h
    obtain ⟨hload, hbin'⟩ := loadBegin_ready_counter hbin hready
    exact .ends hbin' (faultEnd_settles hload _ _ _ _)
  · cases h
    exact .sleeps hbin rfl rfl
  · cases h
    exact .sleeps hbin rfl rfl

theorem execFault_accounts (hbin : as.Binary) (h : s.execFault pid as c = .ok (s', w)) :
    Accounts s (vmstatincr s.vm.counter .TLBFAULT) pid s' := by
  unfold Sys.execFault at h
  split at h
  · cases h
  · next hbegin =>
    cases h
    refine .ends hbin (faultEnd_settles ?_ _ _ _ _)
    rw [faultBegin_mapped_counter hbegin]
    exact .reload
  · next hbegin =>
    rw [← faultBegin_granted_counter hbegin]
    exact runLoad_accounts hbin h
  · next hbegin =>
    cases h
    exact .sleeps hbin (faultBegin_evicting_counter hbegin) rfl

/-- A process that wakes up has written its victim out, or has read its page. -/
theorem execResume_accounts
    (hbin : ∀ p as pc, s.procs p = some ⟨some as, pc⟩ → as.Binary)
    (h : s.execResume pid = .ok (s', w)) :
    s' = s ∨ ∃ proc cs, s.procs pid = some proc ∧ proc.pc.asleep = true ∧
      (cs = s.vm.counter ∨ cs = vmstatincr s.vm.counter .SWAPWRITE) ∧ Accounts s cs pid s' := by
  unfold Sys.execResume at h
  split at h
  · next as c ev hp =>
    split at h
    · cases h
    · next vm' r hfin =>
      refine .inr ⟨_, vm'.counter, hp, rfl, .inr (allocuserpageFinish_counter hfin), ?_⟩
      exact runLoad_accounts (hbin _ _ _ hp) h
  · next as c r slot hp =>
    cases h
    refine .inr ⟨_, s.vm.counter, hp, rfl, .inl rfl, ?_⟩
    exact .ends (hbin _ _ _ hp) (faultEnd_settles .swap _ _ _ _)
  · next as c r vnode offset hp =>
    cases h
    refine .inr ⟨_, s.vm.counter, hp, rfl, .inl rfl, ?_⟩
    exact .ends ((hbin _ _ _ hp).mark c) (faultEnd_settles .elf _ _ _ _)
  · cases h
    exact .inl rfl

/-! ## The faults under way -/

/-- Process `p` is inside `vm_fault`. -/
def Sys.InFault (s : Sys) (p : Int) : Prop := ((s.procs p).any fun proc => proc.pc.asleep) = true

/-- The books of the system are right: the faults under way are those of the processes inside
    `vm_fault`. -/
structure Sys.Accounted (s : Sys) : Prop where
  binary : ∀ p as pc, s.procs p = some ⟨some as, pc⟩ → as.Binary
  books : ∃ S : Finset Int, (∀ p, p ∈ S ↔ s.InFault p) ∧ Books s.vm.counter (UInt32.ofNat S.card)

theorem inFault_of_asleep {proc : Proc} (hp : s.procs pid = some proc)
    (h : proc.pc.asleep = true) : s.InFault pid := by
  unfold Sys.InFault
  rw [hp]
  exact h

theorem inFault_update {vm : Vm} {x : Option Proc} {p : Int} :
    ({ s with vm := vm, procs := update s.procs pid x } : Sys).InFault p ↔
      (p = pid ∧ (x.any fun proc => proc.pc.asleep) = true) ∨ (p ≠ pid ∧ s.InFault p) := by
  unfold Sys.InFault
  by_cases hp : p = pid
  · subst hp
    simp [update_self]
  · simp [hp]

theorem binary_update (h : ∀ p as pc, s.procs p = some ⟨some as, pc⟩ → as.Binary)
    {x : Option Proc} (hx : ∀ as pc, x = some ⟨some as, pc⟩ → as.Binary) :
    ∀ p as pc, update s.procs pid x p = some ⟨some as, pc⟩ → as.Binary := by
  intro p as pc hp
  by_cases heq : p = pid
  · subst heq
    rw [update_self] at hp
    exact hx as pc hp
  · rw [update_of_ne heq] at hp
    exact h p as pc hp

/-- The other faults go on; this one sleeps again or is off the books. -/
theorem Accounts.accounted {cs : Counters} {S : Finset Int} (hacc : Accounts s cs pid s')
    (hbin : ∀ p as pc, s.procs p = some ⟨some as, pc⟩ → as.Binary)
    (hS : ∀ p, p ∈ S ↔ p ≠ pid ∧ s.InFault p) (hbooks : Books cs (UInt32.ofNat S.card + 1)) :
    s'.Accounted := by
  cases hacc with
  | ends has hend =>
    refine ⟨binary_update hbin fun _ _ heq => by cases heq; exact has, S, fun p => ?_,
      hbooks.settles hend⟩
    rw [hS p]
    refine Iff.trans ?_ inFault_update.symm
    simp [Pc.asleep]
  | @sleeps vm as pc has hcount hasleep =>
    have hfresh : pid ∉ S := fun hmem => ((hS pid).1 hmem).1 rfl
    refine ⟨binary_update hbin fun _ _ heq => by cases heq; exact has, insert pid S,
      fun p => ?_, ?_⟩
    · rw [Finset.mem_insert, hS p]
      refine Iff.trans ?_ inFault_update.symm
      simp [hasleep]
    · rw [Finset.card_insert_of_notMem hfresh, UInt32.ofNat_add]
      show Books vm.counter _
      rw [hcount]
      exact hbooks

theorem Accounts.begun (h : s.Accounted) (hout : ¬ s.InFault pid)
    (hacc : Accounts s (vmstatincr s.vm.counter .TLBFAULT) pid s') : s'.Accounted := by
  obtain ⟨S, hS, hbooks⟩ := h.books
  refine hacc.accounted h.binary (fun p => ?_) hbooks.begins
  rw [hS p]
  refine ⟨fun hp => ⟨?_, hp⟩, fun hp => hp.2⟩
  rintro rfl
  exact hout hp

theorem Accounts.resumed {cs : Counters} (h : s.Accounted) (hin : s.InFault pid)
    (hcs : cs = s.vm.counter ∨ cs = vmstatincr s.vm.counter .SWAPWRITE)
    (hacc : Accounts s cs pid s') : s'.Accounted := by
  obtain ⟨S, hS, hbooks⟩ := h.books
  have hmem : pid ∈ S := (hS pid).2 hin
  have hcard : (S.erase pid).card + 1 = S.card := Finset.card_erase_add_one hmem
  have hbooks' : Books cs (UInt32.ofNat S.card) := by
    rcases hcs with rfl | rfl
    · exact hbooks
    · exact hbooks.other (.inl rfl)
  rw [← hcard, UInt32.ofNat_add] at hbooks'
  exact hacc.accounted h.binary (fun p => by rw [Finset.mem_erase, hS p]) hbooks'

/-! ## One step -/

/-- Nothing happens that the books speak of. -/
structure OffBooks (s s' : Sys) : Prop where
  counter : s'.vm.counter = s.vm.counter
  faults : ∀ p, s'.InFault p ↔ s.InFault p
  binary : (∀ p as pc, s.procs p = some ⟨some as, pc⟩ → as.Binary) →
    ∀ p as pc, s'.procs p = some ⟨some as, pc⟩ → as.Binary

theorem OffBooks.accounted (hoff : OffBooks s s') (h : s.Accounted) : s'.Accounted := by
  obtain ⟨S, hS, hbooks⟩ := h.books
  refine ⟨hoff.binary h.binary, S, fun p => (hS p).trans (hoff.faults p).symm, ?_⟩
  rw [hoff.counter]
  exact hbooks

theorem OffBooks.of_procs (hcount : s'.vm.counter = s.vm.counter) (hprocs : s'.procs = s.procs) :
    OffBooks s s' where
  counter := hcount
  faults p := by rw [Sys.InFault, Sys.InFault, hprocs]
  binary h := by rw [hprocs]; exact h

/-- One process moves, and is inside `vm_fault` afterwards if it was before. -/
theorem OffBooks.update {x : Option Proc} (hcount : vm.counter = s.vm.counter)
    (hsame : (x.any fun proc => proc.pc.asleep) = (s.procs pid).any fun proc => proc.pc.asleep)
    (hx : (∀ as pc, s.procs pid = some ⟨some as, pc⟩ → as.Binary) →
      ∀ as pc, x = some ⟨some as, pc⟩ → as.Binary) :
    OffBooks s { s with vm := vm, procs := Function.update s.procs pid x } where
  counter := hcount
  faults p := by
    rw [inFault_update, hsame]
    by_cases hp : p = pid
    · simp [hp, Sys.InFault]
    · simp [hp]
  binary h := binary_update h (hx (h pid))

theorem offBooks_execExit (s : Sys) (pid : Int) : OffBooks s (s.execExit pid) := by
  unfold Sys.execExit
  split
  · next as hp =>
    refine .update rfl (by rw [hp]; rfl) fun h as' pc heq => ?_
    cases heq
    exact h as' _ hp
  · exact .of_procs rfl rfl

theorem offBooks_execIo (s : Sys) (pid : Int) : OffBooks s (s.execIo pid) := by
  unfold Sys.execIo
  split
  · next as c ev hp =>
    refine .update rfl (by rw [hp]; rfl) fun h as' pc heq => ?_
    cases heq
    exact h _ _ hp
  · next as c r vnode offset hp =>
    refine .update rfl (by rw [hp]; rfl) fun h as' pc heq => ?_
    cases heq
    exact h _ _ hp
  · exact .of_procs rfl rfl

theorem offBooks_execNewProc (s : Sys) (pid : Int) (layout : AddrSpace) :
    OffBooks s (s.execNewProc pid layout) := by
  unfold Sys.execNewProc
  split
  · next hnone =>
    refine .update rfl (by rw [Option.isNone_iff_eq_none.1 hnone.2]; rfl) fun _ as' pc heq => ?_
    cases heq
    exact unloaded_binary layout
  · exact .of_procs rfl rfl

theorem offBooks_execReap (h : s.execReap pid = .ok s') : OffBooks s s' := by
  unfold Sys.execReap at h
  split at h
  · next as hp =>
    split at h
    · cases h
    · next hdestroy =>
      cases h
      exact .update (asDestroy_frame hdestroy).2 (by rw [hp]; rfl) fun _ _ _ heq => by cases heq
  · cases h
    exact .of_procs rfl rfl

theorem offBooks_execKfree {i : Nat} (h : s.execKfree i = .ok s') : OffBooks s s' := by
  unfold Sys.execKfree at h
  split at h
  · split at h
    · cases h
    · next hfree =>
      cases h
      exact .of_procs (freeKpages_frame hfree).2 rfl
  · cases h
    exact .of_procs rfl rfl

theorem offBooks_execStore (s : Sys) (pid : Int) (addr : VAddr) (b : UInt8) :
    OffBooks s (s.execStore pid addr b) := by
  unfold Sys.execStore
  split
  · split
    · exact .of_procs rfl rfl
    · exact .of_procs rfl rfl
  · exact .of_procs rfl rfl

theorem offBooks_execKstore (s : Sys) (i k : Nat) (page : Page) :
    OffBooks s (s.execKstore i k page) := by
  unfold Sys.execKstore
  split
  · exact .of_procs rfl rfl
  · exact .of_procs rfl rfl

/-- Every action keeps the books. -/
theorem exec_accounted (h : s.Accounted) (hexec : s.exec a = .ok (s', w)) : s'.Accounted := by
  cases a with
  | fault pid ty addr =>
    simp only [Sys.exec] at hexec
    split at hexec
    · next as hp =>
      have hout : ¬ s.InFault pid := by simp [Sys.InFault, hp, Pc.asleep]
      split at hexec
      · cases hexec
      · cases hexec
        exact (offBooks_execExit s pid).accounted h
      · cases hexec
        exact h
      · next as' c hentry =>
        obtain ⟨rfl, -⟩ := faultEntry_page hentry
        exact (execFault_accounts (h.binary _ _ _ hp) hexec).begun h hout
    · cases hexec
      exact h
  | resume pid =>
    rcases execResume_accounts h.binary hexec with rfl | ⟨proc, cs, hp, hasleep, hcs, hacc⟩
    · exact h
    · exact hacc.resumed h (inFault_of_asleep hp hasleep) hcs
  | io pid =>
    cases hexec
    exact (offBooks_execIo s pid).accounted h
  | store pid addr b =>
    cases hexec
    exact (offBooks_execStore s pid addr b).accounted h
  | exit pid =>
    cases hexec
    exact (offBooks_execExit s pid).accounted h
  | reap pid =>
    cases hreap : s.execReap pid with
    | error e => simp [Sys.exec, hreap, Except.map] at hexec
    | ok s₁ =>
      obtain ⟨rfl, -⟩ : s₁ = s' ∧ none = w := by simpa [Sys.exec, hreap, Except.map] using hexec
      exact (offBooks_execReap hreap).accounted h
  | newProc pid layout =>
    cases hexec
    exact (offBooks_execNewProc s pid layout).accounted h
  | kalloc n =>
    simp only [Sys.exec] at hexec
    split at hexec
    · cases hexec
      exact h
    · next hfree =>
      cases hexec
      have hoff : OffBooks s { s with vm := (getfreeppages s.vm n).vm } :=
        .of_procs (getfreeppages_frame hfree).2 rfl
      exact hoff.accounted h
  | kfree i =>
    cases hfree : s.execKfree i with
    | error e => simp [Sys.exec, hfree, Except.map] at hexec
    | ok s₁ =>
      obtain ⟨rfl, -⟩ : s₁ = s' ∧ none = w := by simpa [Sys.exec, hfree, Except.map] using hexec
      exact (offBooks_execKfree hfree).accounted h
  | kstore i k page =>
    cases hexec
    exact (offBooks_execKstore s i k page).accounted h

/-- A context switch counts a flush at most. -/
theorem asActivate_accounted {k : Cpu} (h : k.sys.Accounted) : k.asActivate.sys.Accounted := by
  have hprocs : k.asActivate.sys.procs = k.sys.procs := (asActivate_spec k).1
  have hcount : k.asActivate.sys.vm.counter = k.sys.vm.counter ∨
      k.asActivate.sys.vm.counter = vmstatincr k.sys.vm.counter .TLBINVALIDATION := by
    unfold Cpu.asActivate
    split
    · exact .inl rfl
    · split
      · exact .inl rfl
      · unfold Tlb.vmtlbInvalidate
        split
        · exact .inl rfl
        · exact .inr rfl
  obtain ⟨S, hS, hbooks⟩ := h.books
  refine ⟨by rw [hprocs]; exact h.binary, S, fun p => ?_, ?_⟩
  · rw [hS p, Sys.InFault, Sys.InFault, hprocs]
  · rcases hcount with heq | heq
    · rw [heq]
      exact hbooks
    · rw [heq]
      exact hbooks.other (.inr rfl)

theorem leave_accounted {k : Cpu} (h : k.sys.Accounted) : k.leave.sys.Accounted := by
  rw [(leave_spec k).1]
  exact h

theorem cpuStep_accounted {k k' : Cpu} {x : CpuAction} (h : k.sys.Accounted)
    (hstep : CpuStep k x k') : k'.sys.Accounted := by
  cases cpuStep_move hstep with
  | stay => exact h
  | create => exact h
  | @runprogram pid layout =>
    exact asActivate_accounted (k := { k with sys := k.sys.execNewProc pid layout })
      ((offBooks_execNewProc k.sys pid layout).accounted h)
  | fork => exact (offBooks_execNewProc k.sys _ _).accounted h
  | @switch pid => exact asActivate_accounted (k := { k with curproc := some pid }) h
  | @wait pid s' w table hsys hexec | @paging _ a s' w hsys hreap hexec =>
    exact leave_accounted (k := { k with sys := s' }) (exec_accounted h hexec)

/-! ## Runs -/

section Runs

variable {κ : Type} [DecidableEq κ] {m m' m₀ : Smp κ}

theorem SmpStep.accounted {l : κ × CpuAction} (h : m.sys.Accounted) (hstep : SmpStep m l m') :
    m'.sys.Accounted := by
  obtain ⟨-, hexec⟩ := hstep
  unfold Smp.exec at hexec
  split at hexec
  · cases hexec
  · next k hk =>
    cases hexec
    -- the books do not mention the TLB, which is all that a CPU has of its own
    have hview : (m.cpu l.1).sys.Accounted := ⟨h.binary, h.books⟩
    exact cpuStep_accounted hview hk

omit [DecidableEq κ] in
theorem Smp.Initial.accounted (h : m₀.Initial) (hstat : m₀.sys.vm.counter = vmstatsetup) :
    m₀.sys.Accounted := by
  have hnone : ∀ p, m₀.sys.procs p = none := h.1.2.2
  refine ⟨fun p as pc hp => ?_, ∅, fun p => ?_, ?_⟩
  · rw [hnone p] at hp
    cases hp
  · simp [Sys.InFault, hnone p]
  · rw [hstat]
    exact ⟨rfl, rfl, rfl⟩

/-- Whenever no process is inside `vm_fault`, the three laws hold and `printvmstats` does not
    complain. -/
theorem statistics_balance (hinit : m₀.Initial) (hstat : m₀.sys.vm.counter = vmstatsetup)
    (hrun : Reaches SmpStep m₀ m) (hquiet : m.sys.Quiet) :
    StatLaws m.sys.vm.counter ∧ vmstatWarnings m.sys.vm.counter = [] := by
  have hacc : m.sys.Accounted :=
    hrun.invariant (P := fun m => m.sys.Accounted) (fun _ _ _ h hstep => hstep.accounted h)
      (hinit.accounted hstat)
  obtain ⟨S, hS, hbooks⟩ := hacc.books
  have hempty : S = ∅ := by
    refine Finset.eq_empty_of_forall_notMem fun p hp => ?_
    obtain ⟨proc, hproc, hasleep⟩ := (Option.any_eq_true _ _).1 ((hS p).1 hp)
    rw [hquiet p proc hproc] at hasleep
    cases hasleep
  rw [hempty, Finset.card_empty] at hbooks
  exact ⟨hbooks.laws, hbooks.laws.silent⟩

end Runs

/-! ## A run with evictions -/

/-- A step other than `fork` moves the current process, or the one its action is about. -/
theorem cpuStep_others {k k' : Cpu} {x : CpuAction} {p : Int} (h : CpuStep k x k')
    (hfork : x ≠ .fork) (hcur : k.curproc = some p → p = KERNEL_PID)
    (hact : ∀ b, k.sysAction x = some b → b.actor ≠ some p) : k'.sys.procs p = k.sys.procs p := by
  cases cpuStep_move h with
  | stay => rfl
  | create => rfl
  | @runprogram pid layout hpid hkernel =>
    rw [(asActivate_spec _).1]
    refine execNewProc_of_ne k.sys layout ?_
    rintro rfl
    exact hkernel (hcur hpid)
  | fork => exact absurd rfl hfork
  | switch => rw [(asActivate_spec _).1]
  | @wait pid s' w table hsys hexec =>
    show (Cpu.leave { k with sys := s' }).sys.procs p = _
    rw [(leave_spec _).1]
    exact exec_onlyMoves hexec p (hact _ hsys)
  | @paging _ a s' w hsys hreap hexec =>
    rw [(leave_spec _).1]
    exact exec_onlyMoves hexec p (hact _ hsys)

/-- There are no processes but 2 and 3. -/
def Smp.TwoProcs (m : Smp (Fin 2)) : Prop := ∀ p, p ≠ 2 → p ≠ 3 → m.sys.procs p = none

/-- A step of one of these two, or of the kernel. -/
def Smp.nextOfTwo (m : Smp (Fin 2)) (l : Fin 2 × CpuAction) : Option (Smp (Fin 2)) :=
  match l.2 with
  | .fork => none
  | _ =>
    if m.curproc l.1 ∈ [none, some KERNEL_PID, some 2, some 3] ∧
        (((m.cpu l.1).sysAction l.2).bind Action.actor) ∈ [none, some 2, some 3] then m.next l
    else none

theorem Smp.TwoProcs.step {m m' : Smp (Fin 2)} {l : Fin 2 × CpuAction} (h : m.TwoProcs)
    (hn : m.nextOfTwo l = some m') : SmpStep m l m' ∧ m'.TwoProcs := by
  unfold Smp.nextOfTwo at hn
  split at hn
  · cases hn
  · next hfork =>
    split at hn
    · next hfew =>
      have hstep := smpNext_step hn
      refine ⟨hstep, fun p hp₂ hp₃ => ?_⟩
      obtain ⟨-, hexec⟩ := hstep
      unfold Smp.exec at hexec
      split at hexec
      · cases hexec
      · next k hk =>
        cases hexec
        refine Eq.trans (cpuStep_others hk ?_ ?_ ?_) (h p hp₂ hp₃)
        · exact hfork
        · intro hcur
          have hmem := hfew.1
          simp only [show m.curproc l.1 = some p from hcur] at hmem
          simpa [hp₂, hp₃] using hmem
        · intro b hb hact
          have hmem := hfew.2
          simp only [hb, Option.bind_some, hact] at hmem
          simp [hp₂, hp₃] at hmem
    · cases hn

/-- On CPU `c`, the first program fills both frames; the second one evicts a page of it on CPU `d`,
    where the first one then reads its page back, and the last fault finds its page in memory. -/
def evictAndReturn (c d : Fin 2) : List (Fin 2 × CpuAction) :=
  [(c, .create), (c, .create), (c, .switch 2), (c, .runprogram smallLayout),
    (c, .touch 0x7ffff000 true), (c, .touch 0x7fffe000 true), (d, .switch 3),
    (d, .runprogram smallLayout), (d, .touch 0x400000 false), (d, .io 3), (d, .resume), (d, .io 3),
    (d, .resume), (c, .switch 1), (d, .switch 2), (d, .touch 0x7ffff000 true), (d, .io 2),
    (d, .resume), (d, .resume), (d, .switch 3), (d, .switch 2), (d, .touch 0x7ffff000 false)]

theorem evictAndReturn_balanced : ∃ m, Reaches SmpStep smallSmp m ∧ m.sys.Quiet ∧
    m.sys.vm.counter .TLBFAULT = 5 ∧ StatLaws m.sys.vm.counter := by
  have hstep : ∀ (m m' : Smp (Fin 2)) l, m.TwoProcs → l ∈ evictAndReturn 0 1 →
      m.nextOfTwo l = some m' → SmpStep m l m' ∧ m'.TwoProcs := fun _ _ _ h _ hn => h.step hn
  obtain ⟨m, hreach, htwo, hcheck⟩ := reaches_of_replay (s := smallSmp) hstep (fun _ _ _ => rfl)
    (p := fun m => m.sys.vm.counter .TLBFAULT == 5 &&
      !((m.sys.procs 2).any fun proc => proc.pc.asleep) &&
      !((m.sys.procs 3).any fun proc => proc.pc.asleep)) (by decide +kernel)
  simp only [Bool.and_eq_true, beq_iff_eq, Bool.not_eq_true'] at hcheck
  obtain ⟨⟨hfaults, h₂⟩, h₃⟩ := hcheck
  have hquiet : m.sys.Quiet := by
    intro p proc hp
    by_cases hp₂ : p = 2
    · subst hp₂
      simpa [hp] using h₂
    · by_cases hp₃ : p = 3
      · subst hp₃
        simpa [hp] using h₃
      · rw [htwo p hp₂ hp₃] at hp
        cases hp
  exact ⟨m, hreach, hquiet, hfaults, (statistics_balance smallSmp_initial rfl hreach hquiet).1⟩

end DemandPaging
