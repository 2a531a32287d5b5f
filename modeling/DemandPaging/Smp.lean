import DemandPaging.Cpu
import DemandPaging.Machine.TlbEffect

set_option autoImplicit false

/-! # Several CPUs

Each CPU has a TLB of its own, and `tlb_write` and `tlb_probe` act on the one of the CPU that
executes them. `tlbindex`, `tlbinvalidatedindex` and `lastpid` are variables of the kernel, of which
there is one set, like the page table and the process table. A step is a step of `DemandPaging.Cpu`
on one of the CPUs. A process is current on one CPU at a time; it migrates by being switched out on
one CPU and in on another, also while it is asleep inside `vm_fault`, and a process that wakes up
does so on the CPU it is current on. The kernel's own process has a thread on every CPU.

The CPUs alternate at the sleep points of `vm_fault`, as the processes of `DemandPaging.Machine` do,
so what goes wrong here goes wrong without two CPUs inside `vm_tlb.c` at the same time. An eviction
by `getfreeppages` is not among the steps, because the call does not survive it: it stores to
`pt[-1]` and releases a lock it does not hold.

Beside the state runs a record of the process that each slot was last written for. No step reads
it. -/

namespace DemandPaging

/-- The machine, with one TLB and one current process for each CPU. The slots of `sys.vm.tlb` are
    those of the CPU that made the last step. -/
structure Smp (κ : Type) where
  sys : Sys
  table : ProcessTable
  entries : κ → Nat → TlbEntry
  curproc : κ → Option Int
  writtenFor : κ → Nat → Int

namespace Cpu

variable (k : Cpu)

/-- The slot the step writes an entry to, and the process it writes it for. -/
def wrote (x : CpuAction) : Option (Nat × Int) :=
  match k.sysAction x with
  | none => none
  | some a =>
    match k.sys.exec a with
    | .ok (_, some t) => some ((k.sys.tlbEvicted a).nextSlot, t.pid)
    | _ => none

/-- The page the step evicts. -/
def evicted (x : CpuAction) : Option Victim := (k.sysAction x).bind k.sys.evicted

/-- The argument of the call of `vmtlb_invalidate` that the step makes, if it makes one. -/
def activates : CpuAction → Option Int
  | .switch pid =>
    match k.table.proc pid.toNat, k.sys.procs pid with
    | none, _ => none
    | some _, none => none
    | some _, some ⟨_, .zombie⟩ => none
    | some _, some _ => some pid
  | .runprogram _ =>
    match k.curproc with
    | none => none
    | some pid =>
      if 0 < pid ∧ pid ≠ KERNEL_PID ∧ (k.sys.procs pid).isNone ∧
          (k.table.proc pid.toNat).isSome then
        some pid
      else none
  | _ => none

end Cpu

theorem activates_cases {k : Cpu} {x : CpuAction} {pid : Int} (h : k.activates x = some pid) :
    k.table.proc pid.toNat ≠ none ∧
      ((x = .switch pid ∧ ∃ proc, k.sys.procs pid = some proc ∧ proc.pc ≠ .zombie) ∨
        ∃ layout, x = .runprogram layout ∧ k.curproc = some pid ∧ 0 < pid ∧ pid ≠ KERNEL_PID ∧
          k.sys.procs pid = none) := by
  unfold Cpu.activates at h
  split at h
  · split at h
    · cases h
    · cases h
    · cases h
    · next proc hlive hslot hp =>
      cases h
      refine ⟨by rw [hslot]; exact Option.some_ne_none _, .inl ⟨rfl, proc, hp, fun hz => ?_⟩⟩
      exact hlive proc.as (by rw [← hz])
  · split at h
    · cases h
    · next hcur =>
      split at h
      · next hcond =>
        cases h
        obtain ⟨hpos, hkernel, hnone, hslot⟩ := hcond
        exact ⟨Option.isSome_iff_ne_none.1 hslot, .inr ⟨_, rfl, hcur, hpos, hkernel,
          Option.isNone_iff_eq_none.1 hnone⟩⟩
      · cases h
  · cases h

/-- The call does to the TLB what `vmtlb_invalidate` does. -/
theorem exec_activates {k k' : Cpu} {x : CpuAction} {pid : Int} (h : k.activates x = some pid)
    (hexec : k.exec x = .ok k') :
    k'.sys.vm.tlb = (k.sys.vm.tlb.vmtlbInvalidate pid k.sys.vm.counter).1 := by
  obtain ⟨hslot, ⟨rfl, proc, hp, hlive⟩ | ⟨layout, rfl, hcur, hpos, hkernel, hnone⟩⟩ :=
    activates_cases h
  · obtain ⟨slot, hslot⟩ := Option.ne_none_iff_exists'.1 hslot
    obtain ⟨as, pc⟩ := proc
    cases pc with
    | zombie => exact absurd rfl hlive
    | _ =>
      simp only [Cpu.exec, hslot, hp, Except.ok.injEq] at hexec
      rw [← hexec]
      simp [Cpu.asActivate, hp]
  · have hcond : pid ≠ KERNEL_PID ∧ (k.sys.procs pid).isNone ∧
        (k.table.proc pid.toNat).isSome :=
      ⟨hkernel, by rw [hnone]; rfl, Option.isSome_iff_ne_none.2 hslot⟩
    simp only [Cpu.exec, hcur, if_pos hcond, Except.ok.injEq] at hexec
    rw [← hexec]
    simp [Cpu.asActivate, Sys.execNewProc, hpos, hnone]

/-- The record of a TLB's slots after a write. -/
def recordWrite (own : Nat → Int) : Option (Nat × Int) → Nat → Int
  | none => own
  | some (i, pid) => Function.update own i pid

namespace Smp

variable {κ : Type} (m : Smp κ)

/-- The TLB of a CPU, with the variables that all CPUs share. -/
def tlb (c : κ) : Tlb := { m.sys.vm.tlb with entry := m.entries c }

/-- What CPU `c` sees. -/
def cpu (c : κ) : Cpu where
  sys := { m.sys with vm := { m.sys.vm with tlb := m.tlb c } }
  table := m.table
  curproc := m.curproc c

/-- Every valid entry in the TLB of `c` was written for `pid`. -/
def Owned (c : κ) (pid : Int) : Prop := ∀ i, (m.tlb c).Live i → m.writtenFor c i = pid

/-- A thread runs on one CPU at a time; the kernel's process has one for each. -/
def Enabled (c : κ) : CpuAction → Prop
  | .switch pid => pid = KERNEL_PID ∨ ∀ c', c' ≠ c → m.curproc c' ≠ some pid
  | _ => True

/-- After boot the kernel's own threads run, and all TLBs are empty. -/
def Initial : Prop :=
  m.sys.Initial ∧ m.sys.vm.tlb = Tlb.boot ∧ (∀ c, m.entries c = TlbEntry.reset) ∧
    (∀ c, m.curproc c = some KERNEL_PID) ∧
    ProcessTable.procBootstrap = .ok (m.table, KERNEL_PID)

variable [DecidableEq κ]

/-- CPU `c` has moved to `k` and written an entry. -/
def store (c : κ) (k : Cpu) (w : Option (Nat × Int)) : Smp κ where
  sys := k.sys
  table := k.table
  entries := Function.update m.entries c k.sys.vm.tlb.entry
  curproc := Function.update m.curproc c k.curproc
  writtenFor := Function.update m.writtenFor c (recordWrite (m.writtenFor c) w)

/-- One step on CPU `c`. -/
def exec (c : κ) (x : CpuAction) : Except Crash (Smp κ) :=
  match (m.cpu c).exec x with
  | .error e => .error e
  | .ok k => .ok (m.store c k ((m.cpu c).wrote x))

/-- The slots of all CPUs when an eviction on `c` has taken `v` out of the page table and called
    `vmtlb_invalidatepage`. -/
def entriesEvicted (c : κ) (v : Victim) : κ → Nat → TlbEntry :=
  Function.update m.entries c ((m.tlb c).vmtlbInvalidatepage v.vaddr).entry

/-- What the kernel counts on in a step on `c`: where `vmtlb_invalidate` returns without flushing,
    the TLB holds only entries of the process it was called for, and where an eviction is over, no
    TLB maps the page to the frame it had. -/
structure TlbsTrue (c : κ) (x : CpuAction) : Prop where
  kept : ∀ pid, (m.cpu c).activates x = some pid → pid = m.sys.vm.tlb.lastpid → m.Owned c pid
  gone : ∀ v, (m.cpu c).evicted x = some v → ∀ c', ∀ i < NUM_TLB,
    (m.entriesEvicted c v c' i).valid = true →
      ¬ ((m.entriesEvicted c v c' i).page = v.vaddr ∧ (m.entriesEvicted c v c' i).frame = v.frame)

end Smp

/-- One step of the machine: a CPU and what it does. -/
def SmpStep {κ : Type} [DecidableEq κ] (m : Smp κ) (l : κ × CpuAction) (m' : Smp κ) : Prop :=
  m.Enabled l.1 l.2 ∧ m.exec l.1 l.2 = .ok m'

/-! ## Conditions on a step -/

/-- The process and the page of the fault that the action begins or goes on with. -/
def Sys.faulting (s : Sys) : Action → Option (Int × VAddr)
  | .fault pid _ addr =>
    match s.procs pid with
    | some ⟨_, .user⟩ => some (pid, pageOf addr)
    | _ => none
  | .resume pid =>
    match s.procs pid with
    | some proc => proc.pc.ctx.map fun c => (pid, c.fa)
    | none => none
  | _ => none

/-- A process that faults, or goes on with a fault, finds in the TLBs of the other CPUs only entries
    of its own and none for the page of the fault, and an eviction ends while those TLBs have no
    entry for its page. -/
structure Smp.Secluded {κ : Type} (m : Smp κ) (c : κ) (x : CpuAction) : Prop where
  own : ∀ a p v, (m.cpu c).sysAction x = some a → m.sys.faulting a = some (p, v) →
    ∀ c', c' ≠ c → ∀ i, (m.tlb c').Live i → m.writtenFor c' i = p ∧ (m.entries c' i).page ≠ v
  gone : ∀ v, (m.cpu c).evicted x = some v → ∀ c', c' ≠ c → ∀ i, (m.tlb c').Live i →
    (m.entries c' i).page ≠ v.vaddr

/-- A step under the conditions. -/
def SecludedStep {κ : Type} [DecidableEq κ] (m : Smp κ) (l : κ × CpuAction) (m' : Smp κ) : Prop :=
  SmpStep m l m' ∧ m.Secluded l.1 l.2

end DemandPaging
