import DemandPaging.Machine.TlbOwner

set_option autoImplicit false

/-! # What an action does to the TLB

One action of the paging system touches the TLB of the CPU it runs on in at most two ways, in this
order: the end of an eviction invalidates the victim's page, and the end of a fault writes an entry.
Nothing is assumed of the state here, so the description also serves where several CPUs share the
paging system and none of the invariants of a single CPU hold. -/

namespace DemandPaging

/-- From `t` to `t'` by the TLB write `w`, if there is one. -/
def WritesTlb (t t' : Tlb) : Option TlbWrite → Prop
  | none => t' = t
  | some x => ∃ writePriv counter, t' = (t.vmtlbWrite x.pid x.vaddr x.paddr writePriv counter).1

variable {s s' : Sys} {w : Option TlbWrite} {pid : Int} {as : AddrSpace} {c : FaultCtx}
  {a : Action} {vm vm' : Vm}

theorem FaultOutcome.writesTlb {t : Tlb} (h : FaultOutcome s t pid c s' w) :
    WritesTlb t s'.vm.tlb w := by
  cases h with
  | @ends vm as r htlb => exact ⟨as.writable c.seg, vm.counter, by rw [← htlb]; rfl⟩
  | sleeps htlb => exact htlb

theorem execExit_tlb (s : Sys) (pid : Int) : (s.execExit pid).vm.tlb = s.vm.tlb := by
  unfold Sys.execExit
  split <;> rfl

/-! The code that gives frames back or takes free ones leaves the TLB and the counters alone. -/

theorem removeptentries_frame (h : removeptentries vm pid = .ok vm') :
    vm'.tlb = vm.tlb ∧ vm'.counter = vm.counter := by
  unfold removeptentries at h
  repeat' split at h
  all_goals cases h
  all_goals exact ⟨rfl, rfl⟩

theorem asDestroy_frame (h : asDestroy vm as pid = .ok vm') :
    vm'.tlb = vm.tlb ∧ vm'.counter = vm.counter := by
  unfold asDestroy at h
  split at h
  · split at h
    · cases h
    · next vm₁ hremove =>
      cases h
      exact (removeptentries_frame hremove :)
  · cases h

theorem freeKpages_frame {addr : VAddr} (h : freeKpages vm addr = .ok vm') :
    vm'.tlb = vm.tlb ∧ vm'.counter = vm.counter := by
  unfold freeKpages at h
  dsimp only at h
  repeat' split at h
  all_goals cases h
  all_goals exact ⟨rfl, rfl⟩

/-- A kernel allocation that finds a free run evicts nothing. -/
theorem getfreeppages_frame {n : Nat} (h : getfreeframes vm.cm.pt vm.cm.ptsize n ≠ -1) :
    (getfreeppages vm n).vm.tlb = vm.tlb ∧ (getfreeppages vm n).vm.counter = vm.counter := by
  unfold getfreeppages getfreeppagesEnd
  simp only [if_neg h]
  repeat' split
  all_goals exact ⟨rfl, rfl⟩

/-- Only a process that wakes up ends an eviction. -/
theorem evicted_eq_none (h : ∀ pid, a ≠ .resume pid) : s.evicted a = none := by
  cases a with
  | resume pid => exact absurd rfl (h pid)
  | _ => rfl

theorem tlbEvicted_of_not_resume (h : ∀ pid, a ≠ .resume pid) : s.tlbEvicted a = s.vm.tlb := by
  unfold Sys.tlbEvicted
  rw [evicted_eq_none h]

/-- The TLB after an action. -/
theorem exec_tlb (h : s.exec a = .ok (s', w)) : WritesTlb (s.tlbEvicted a) s'.vm.tlb w := by
  cases a with
  | fault pid ty addr =>
    rw [tlbEvicted_of_not_resume (by simp)]
    rcases exec_fault_outcome h with ⟨rfl, rfl | rfl⟩ | ⟨as, c, -, -, -, hout⟩
    · exact rfl
    · exact execExit_tlb s pid
    · exact hout.writesTlb
  | resume pid =>
    rcases execResume_outcome h with ⟨rfl, rfl, htlb⟩ | ⟨proc, c, -, -, hout⟩
    · exact htlb.symm
    · exact hout.writesTlb
  | io pid =>
    cases h
    show (s.execIo pid).vm.tlb = s.vm.tlb
    unfold Sys.execIo
    split <;> rfl
  | store pid addr b =>
    cases h
    show (s.execStore pid addr b).vm.tlb = s.vm.tlb
    unfold Sys.execStore
    split
    · split <;> rfl
    · rfl
  | exit pid =>
    cases h
    exact execExit_tlb s pid
  | reap pid =>
    rw [tlbEvicted_of_not_resume (by simp)]
    simp only [Sys.exec, Sys.execReap] at h
    split at h
    · split at h
      · cases h
      · next hdestroy =>
        cases h
        exact (asDestroy_frame hdestroy).1
    · cases h
      exact rfl
  | newProc pid layout =>
    cases h
    show (s.execNewProc pid layout).vm.tlb = s.vm.tlb
    unfold Sys.execNewProc
    split <;> rfl
  | kalloc n =>
    simp only [Sys.exec] at h
    split at h
    · cases h
      exact rfl
    · next hfree =>
      cases h
      exact (getfreeppages_frame hfree).1
  | kfree i =>
    rw [tlbEvicted_of_not_resume (by simp)]
    simp only [Sys.exec, Sys.execKfree] at h
    split at h
    · split at h
      · cases h
      · next hfree =>
        cases h
        exact (freeKpages_frame hfree).1
    · cases h
      exact rfl
  | kstore i k page =>
    cases h
    show (s.execKstore i k page).vm.tlb = s.vm.tlb
    unfold Sys.execKstore
    split <;> rfl

/-! ## After a write -/

theorem FaultOutcome.user {t : Tlb} {x : TlbWrite} (h : FaultOutcome s t pid c s' (some x)) :
    ∃ as, s'.procs x.pid = some ⟨some as, .user⟩ := by
  cases h with
  | ends => exact ⟨_, procs_put ..⟩

/-- The process that writes an entry goes back to user mode. -/
theorem exec_write_user {t : TlbWrite} (h : s.exec a = .ok (s', some t)) :
    ∃ as, s'.procs t.pid = some ⟨some as, .user⟩ := by
  rcases exec_write h with ⟨_, ty, addr, -, rfl, -⟩ | ⟨_, _, -, rfl, -⟩
  · rcases exec_fault_outcome h with ⟨hw, -⟩ | ⟨as, c, -, -, -, hout⟩
    · cases hw
    · exact hout.user
  · rcases execResume_outcome h with ⟨-, hw, -⟩ | ⟨proc, c, -, -, hout⟩
    · cases hw
    · exact hout.user

/-- A copy ends nobody. -/
theorem execIo_zombie {p : Int} {as : Option AddrSpace}
    (h : (s.execIo pid).procs p = some ⟨as, .zombie⟩) : s.procs p = some ⟨as, .zombie⟩ := by
  unfold Sys.execIo at h
  split at h
  · rcases update_cases h with ⟨-, heq⟩ | ⟨-, hold⟩
    · cases heq
    · exact hold
  · rcases update_cases h with ⟨-, heq⟩ | ⟨-, hold⟩
    · cases heq
    · exact hold
  · exact h

end DemandPaging
