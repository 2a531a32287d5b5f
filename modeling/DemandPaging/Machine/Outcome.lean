import DemandPaging.Fault.Spec
import DemandPaging.Machine

set_option autoImplicit false

/-! # How a part of a fault ends

A process inside `vm_fault` runs to its next sleep or to the end of the fault. Seen from outside it
is one of two things: the process goes to sleep for the same page, or it writes the entry of that
page and is back in user mode. Nothing is assumed of the state. The TLB changes on the way at the
end of an eviction only, which invalidates the page of the victim. -/

namespace DemandPaging

/-- The page of the fault the process is inside of. -/
def Pc.ctx : Pc → Option FaultCtx
  | .user => none
  | .zombie => none
  | .evicting c _ _ => some c
  | .granted c _ => some c
  | .swapRead c _ _ => some c
  | .elfRead c _ _ _ _ => some c

/-- A page that an eviction takes out of the page table. -/
structure Victim where
  pid : Int
  vaddr : VAddr
  frame : Nat

namespace Sys

/-- The page that the action evicts: a process that wakes up behind the disk write of
    `allocuserpage` reads `firstvictim` again. -/
def evicted (s : Sys) : Action → Option Victim
  | .resume pid =>
    match s.procs pid with
    | some ⟨some _, .evicting _ _ true⟩ =>
      s.vm.cm.firstvictim.map fun v => ⟨(s.vm.cm.pt v).pid, (s.vm.cm.pt v).vaddr, v⟩
    | _ => none
  | _ => none

/-- The TLB behind the eviction, before the entry of the fault is written. -/
def tlbEvicted (s : Sys) (a : Action) : Tlb :=
  match s.evicted a with
  | some v => s.vm.tlb.vmtlbInvalidatepage v.vaddr
  | none => s.vm.tlb

end Sys

/-- The memory where `allocuserpage` returns or goes to sleep. -/
def AllocPoint.vm : AllocPoint → Vm
  | .done vm _ => vm
  | .evicting vm _ => vm

/-- The memory where `vm_fault` gets to before it loads the page. -/
def FaultPoint.vm : FaultPoint → Vm
  | .mapped vm _ => vm
  | .granted vm _ => vm
  | .evicting vm _ => vm

theorem procs_put (s : Sys) (vm : Vm) (pid : Int) (as : AddrSpace) (pc : Pc) :
    (s.put vm pid as pc).procs pid = some ⟨some as, pc⟩ := Function.update_self ..

/-- A process at the fault `c`, with the TLB at `t`, goes to sleep or ends the fault. -/
inductive FaultOutcome (s : Sys) (t : Tlb) (pid : Int) (c : FaultCtx) :
    Sys → Option TlbWrite → Prop
  | ends {vm : Vm} {as : AddrSpace} {r : Nat} (htlb : vm.tlb = t) :
      FaultOutcome s t pid c (s.put (faultEnd vm pid as c r) pid as .user) (some ⟨pid, c.fa, r⟩)
  | sleeps {vm : Vm} {as : AddrSpace} {pc : Pc} (htlb : vm.tlb = t) (hctx : pc.ctx = some c) :
      FaultOutcome s t pid c (s.put vm pid as pc) none

variable {s s' : Sys} {w : Option TlbWrite} {pid : Int} {as : AddrSpace} {c : FaultCtx}
  {vm vm' : Vm}

/-! ## The TLB and the counters inside the fault -/

theorem allocuserpageStart_frame {addr : VAddr} {r : AllocPoint}
    (h : allocuserpageStart vm pid addr = .ok r) :
    r.vm.tlb = vm.tlb ∧ r.vm.counter = vm.counter := by
  unfold allocuserpageStart at h
  dsimp only at h
  repeat' split at h
  all_goals cases h
  all_goals exact ⟨rfl, rfl⟩

theorem allocuserpageFinish_tlb {addr : VAddr} {ind paddr : Nat}
    (h : allocuserpageFinish vm pid addr ind = .ok (vm', paddr)) :
    ∃ v, vm.cm.firstvictim = some v ∧
      vm'.tlb = vm.tlb.vmtlbInvalidatepage (vm.cm.pt v).vaddr := by
  unfold allocuserpageFinish at h
  dsimp only [Vm.incr] at h
  split at h
  · cases h
  · next v hv =>
    split at h
    · cases h
    · split at h
      · cases h
      · cases h
        exact ⟨v, hv, rfl⟩

theorem faultBegin_tlb {fa : VAddr} {r : FaultPoint} (h : faultBegin vm pid fa = .ok r) :
    r.vm.tlb = vm.tlb := by
  unfold faultBegin at h
  dsimp only at h
  split at h
  · cases h
  · split at h
    · split at h
      · cases h
      · next hstart =>
        cases h
        exact (allocuserpageStart_frame hstart).1
      · next hstart =>
        cases h
        exact (allocuserpageStart_frame hstart).1
    · cases h
      rfl

theorem loadBegin_tlb {r : Nat} {as' : AddrSpace}
    (h : loadBegin vm pid as c r = .ok (.ready vm' as')) : vm'.tlb = vm.tlb := by
  unfold loadBegin at h
  repeat' split at h
  all_goals cases h
  all_goals rfl

/-! ## Outcomes -/

theorem runLoad_outcome {r : Nat} (h : s.runLoad vm pid as c r = .ok (s', w)) :
    FaultOutcome s vm.tlb pid c s' w := by
  unfold Sys.runLoad at h
  split at h
  · cases h
  · next hready =>
    cases h
    exact .ends (loadBegin_tlb hready)
  · cases h
    exact .sleeps rfl rfl
  · cases h
    exact .sleeps rfl rfl

theorem execFault_outcome (h : s.execFault pid as c = .ok (s', w)) :
    FaultOutcome s s.vm.tlb pid c s' w := by
  unfold Sys.execFault at h
  split at h
  · cases h
  · next hbegin =>
    cases h
    exact .ends (faultBegin_tlb hbegin)
  · next vm' r hbegin =>
    have htlb : vm'.tlb = s.vm.tlb := faultBegin_tlb hbegin
    exact htlb ▸ runLoad_outcome h
  · next hbegin =>
    cases h
    exact .sleeps (faultBegin_tlb hbegin) rfl

/-- A fault in user mode ends the process, is turned down, or is about the page of its address. -/
theorem exec_fault_outcome {t : FaultType} {addr : VAddr}
    (h : s.exec (.fault pid t addr) = .ok (s', w)) :
    (w = none ∧ (s' = s ∨ s' = s.execExit pid)) ∨
      ∃ as c, s.procs pid = some ⟨as, .user⟩ ∧ t ≠ .VM_FAULT_READONLY ∧ c.fa = pageOf addr ∧
        FaultOutcome s s.vm.tlb pid c s' w := by
  simp only [Sys.exec] at h
  split at h
  · next as hp =>
    split at h
    · cases h
    · cases h
      exact .inl ⟨rfl, .inr rfl⟩
    · cases h
      exact .inl ⟨rfl, .inl rfl⟩
    · next as' c hentry =>
      obtain ⟨-, -, -, hfa⟩ := faultEntry_page hentry
      refine .inr ⟨as, c, hp, ?_, hfa, execFault_outcome h⟩
      rintro rfl
      cases hentry
  · cases h
    exact .inl ⟨rfl, .inl rfl⟩

/-- A process that wakes up goes on with its page. -/
theorem execResume_outcome (h : s.execResume pid = .ok (s', w)) :
    (s' = s ∧ w = none ∧ s.tlbEvicted (.resume pid) = s.vm.tlb) ∨
      ∃ proc c, s.procs pid = some proc ∧ proc.pc.ctx = some c ∧
        FaultOutcome s (s.tlbEvicted (.resume pid)) pid c s' w := by
  unfold Sys.execResume at h
  split at h
  · next as c ev hp =>
    split at h
    · cases h
    · next vm' r hfin =>
      obtain ⟨v, hv, htlb⟩ := allocuserpageFinish_tlb hfin
      have hload := runLoad_outcome h
      rw [htlb] at hload
      refine .inr ⟨_, c, hp, rfl, ?_⟩
      simpa only [Sys.tlbEvicted, Sys.evicted, hp, hv, Option.map_some] using hload
  · next as c r slot hp =>
    cases h
    refine .inr ⟨_, c, hp, rfl, .ends ?_⟩
    simp only [Sys.tlbEvicted, Sys.evicted, hp]
    rfl
  · next as c r vnode offset hp =>
    cases h
    refine .inr ⟨_, c, hp, rfl, .ends ?_⟩
    simp only [Sys.tlbEvicted, Sys.evicted, hp]
    rfl
  · next hno _ _ =>
    cases h
    refine .inl ⟨rfl, rfl, ?_⟩
    unfold Sys.tlbEvicted Sys.evicted
    dsimp only
    split
    · next hp =>
      split at hp
      · next hev => exact absurd hev (hno _ _ _)
      · cases hp
    · rfl

theorem FaultOutcome.ne_none {t : Tlb} (h : FaultOutcome s t pid c s' w) :
    s'.procs pid ≠ none := by
  cases h with
  | ends | sleeps =>
    rw [procs_put]
    exact Option.some_ne_none _

end DemandPaging
