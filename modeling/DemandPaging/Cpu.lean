import DemandPaging.Machine
import DemandPaging.Proc
import DemandPaging.Tlb.Entries

set_option autoImplicit false

/-! # One CPU

The system seen from the CPU: which process is current, what its accesses find in the TLB, and how
processes come and go. A fault happens only where the TLB has no entry for a user page, or an entry
that forbids the write. A context switch ends in `as_activate`. A process without an address space
(the kernel's own, or a new one before `runprogram` has given it one) leaves the TLB as it is.

`runprogram` is one step: it reads the executable and defines the segments, and no user address is
touched before it is done. Stores change neither the page table nor the TLB and are left out. -/

namespace DemandPaging

/-- `sys_fork` in a process whose address space is `as`: a slot of the process table, a copy of the
    layout, and a process of its own. The kernel heap has room for the trapframe, and `thread_fork`
    succeeds. -/
def sysFork (s : Sys) (table : ProcessTable) (as : AddrSpace) :
    Except Crash (Sys × ProcessTable × Int) :=
  match table.procInitWaitpid with
  | .error e => .error e
  | .ok (table, child) =>
    match asCopy as with
    | .error e => .error e
    | .ok as => .ok (s.execNewProc child as, table, child)

theorem sysFork_ok {s s' : Sys} {table table' : ProcessTable} {as : AddrSpace} {child : Int}
    (h : sysFork s table as = .ok (s', table', child)) :
    ∃ as', table.procInitWaitpid = .ok (table', child) ∧ asCopy as = .ok as' ∧
      s' = s.execNewProc child as' := by
  unfold sysFork at h
  cases hinit : table.procInitWaitpid with
  | error e => simp [hinit] at h
  | ok r =>
    cases hcopy : asCopy as with
    | error e => simp [hinit, hcopy] at h
    | ok as' =>
      simp only [hinit, hcopy, Except.ok.injEq, Prod.mk.injEq] at h
      obtain ⟨rfl, rfl, rfl⟩ := h
      exact ⟨as', rfl, rfl, rfl⟩

/-- The state of the machine as the CPU sees it. -/
structure Cpu where
  sys : Sys
  table : ProcessTable
  curproc : Option Int

inductive CpuAction
  | create
  | runprogram (layout : AddrSpace)
  | fork
  | switch (pid : Int)
  | touch (addr : VAddr) (write : Bool)
  | io (pid : Int)
  | resume
  | exit
  | wait (pid : Int)
  | kalloc (npages : Nat)
  | kfree (i : Nat)
  | kstore (i k : Nat) (page : Page)

namespace Cpu

variable (k : Cpu)

/-- `as_activate`, which does nothing without an address space. -/
def asActivate : Cpu :=
  match k.curproc with
  | none => k
  | some pid =>
    match k.sys.procs pid with
    | none => k
    | some _ =>
      let r := k.sys.vm.tlb.vmtlbInvalidate pid k.sys.vm.counter
      { k with sys := { k.sys with vm := { k.sys.vm with tlb := r.1, counter := r.2 } } }

/-- A thread whose process is over runs on without one. -/
def leave : Cpu :=
  match k.curproc with
  | none => k
  | some pid =>
    match k.sys.procs pid with
    | some ⟨_, .zombie⟩ => { k with curproc := none }
    | _ => k

/-- What the action means for the paging system. -/
def sysAction : CpuAction → Option Action
  | .touch addr write =>
    match k.curproc with
    | none => none
    | some pid =>
      if addr < USERSPACETOP then
        match k.sys.vm.tlb.lookup (pageOf addr) with
        | none => some (.fault pid (if write then .VM_FAULT_WRITE else .VM_FAULT_READ) addr)
        | some e =>
          if write && !e.dirty then some (.fault pid .VM_FAULT_READONLY addr) else none
      else none
  | .io pid => some (.io pid)
  | .resume => k.curproc.map .resume
  | .exit => k.curproc.map .exit
  | .wait pid =>
    match k.sys.procs pid with
    | some ⟨_, .zombie⟩ => if k.curproc = none then none else some (.reap pid)
    | _ => none
  | .kalloc npages => some (.kalloc npages)
  | .kfree i => some (.kfree i)
  | .kstore i j page => some (.kstore i j page)
  | _ => none

/-- The paging system makes its step. -/
def execSys (a : Action) : Except Crash Cpu :=
  match k.sys.exec a with
  | .error e => .error e
  | .ok (sys, _) => .ok ({ k with sys := sys } : Cpu).leave

def exec : CpuAction → Except Crash Cpu
  | .create =>
    if k.curproc = some KERNEL_PID then
      match k.table.procInitWaitpid with
      | .error e => .error e
      | .ok (table, _) => .ok { k with table := table }
    else .ok k
  | .runprogram layout =>
    match k.curproc with
    | none => .ok k
    | some pid =>
      if pid ≠ KERNEL_PID ∧ (k.sys.procs pid).isNone ∧ (k.table.proc pid.toNat).isSome then
        .ok ({ k with sys := k.sys.execNewProc pid layout } : Cpu).asActivate
      else .ok k
  | .fork =>
    match k.curproc with
    | none => .ok k
    | some pid =>
      match k.sys.procs pid with
      | some ⟨some as, .user⟩ =>
        match sysFork k.sys k.table as with
        | .error e => .error e
        | .ok (sys, table, _) => .ok { k with sys := sys, table := table }
      | _ => .ok k
  | .switch pid =>
    match k.table.proc pid.toNat, k.sys.procs pid with
    | none, _ => .ok k
    | some _, some ⟨_, .zombie⟩ => .ok k
    | some _, _ => .ok ({ k with curproc := some pid } : Cpu).asActivate
  | .wait pid =>
    match k.sysAction (.wait pid) with
    | none => .ok k
    | some a =>
      match k.execSys a, k.table.procEndWaitpid pid with
      | .error e, _ => .error e
      | .ok _, .error e => .error e
      | .ok k, .ok table => .ok { k with table := table }
  | a =>
    match k.sysAction a with
    | none => .ok k
    | some b => k.execSys b

/-- After boot the kernel's own thread runs. -/
def Initial : Prop :=
  k.sys.Initial ∧ k.sys.vm.tlb = Tlb.boot ∧ k.curproc = some KERNEL_PID ∧
    ProcessTable.procBootstrap = .ok (k.table, KERNEL_PID)

end Cpu

/-- One step of the CPU. -/
def CpuStep (k : Cpu) (a : CpuAction) (k' : Cpu) : Prop := k.exec a = .ok k'

/-- The TLB serves the current process: every valid entry maps a page of that process to the frame
    the page table gives it, and allows writes only where the segment does. -/
def Coherent (k : Cpu) : Prop :=
  ∀ pid as pc, k.curproc = some pid → k.sys.procs pid = some ⟨some as, pc⟩ →
    ∀ i < NUM_TLB, (k.sys.vm.tlb.entry i).valid = true →
      (k.sys.vm.cm.pt (k.sys.vm.tlb.entry i).frame).pid = pid ∧
      (k.sys.vm.cm.pt (k.sys.vm.tlb.entry i).frame).vaddr = (k.sys.vm.tlb.entry i).page ∧
      ((k.sys.vm.tlb.entry i).dirty = true →
        ∃ c, as.locate (k.sys.vm.tlb.entry i).page = some c ∧ as.writable c.seg = true)

/-- Evictions are calm, faults get a frame, and no process is given the pid that the TLB was last
    filled for. -/
structure Orderly (k : Cpu) (a : CpuAction) : Prop where
  calm : ∀ b, k.sysAction a = some b → Calm k.sys b
  granted : ∀ b, k.sysAction a = some b → Granted k.sys b
  pid : a = .create ∨ a = .fork → ∀ table child, k.table.procInitWaitpid = .ok (table, child) →
    child ≠ k.sys.vm.tlb.lastpid

/-! ## What a step can do -/

/-- What the CPU asks of the paging system: faults in user space, on a TLB miss or for a write that
    the entry forbids, and wake-ups and exits of the current process. There is no store and no new
    process. -/
inductive Asks (k : Cpu) : Action → Prop
  | fault {pid : Int} {t : FaultType} {addr : VAddr} (hcur : k.curproc = some pid)
      (hlt : addr < USERSPACETOP) (hmiss : t = .VM_FAULT_READONLY ∨
        ∀ i, k.sys.vm.tlb.Live i → (k.sys.vm.tlb.entry i).page ≠ pageOf addr) :
      Asks k (.fault pid t addr)
  | io (pid : Int) : Asks k (.io pid)
  | resume {pid : Int} (hcur : k.curproc = some pid) : Asks k (.resume pid)
  | exit {pid : Int} (hcur : k.curproc = some pid) : Asks k (.exit pid)
  | reap {pid : Int} {as : Option AddrSpace} (hp : k.sys.procs pid = some ⟨as, .zombie⟩) :
      Asks k (.reap pid)
  | kalloc (npages : Nat) : Asks k (.kalloc npages)
  | kfree (i : Nat) : Asks k (.kfree i)
  | kstore (i j : Nat) (page : Page) : Asks k (.kstore i j page)

theorem sysAction_asks {k : Cpu} {x : CpuAction} {a : Action} (h : k.sysAction x = some a) :
    Asks k a := by
  cases x with
  | touch addr write =>
    simp only [Cpu.sysAction] at h
    split at h
    · cases h
    · next pid hcur =>
      split at h
      · next hlt =>
        split at h
        · next hmiss =>
          cases h
          exact .fault hcur hlt (.inr fun i hi => Tlb.lookup_none hmiss hi)
        · split at h
          · cases h
            exact .fault hcur hlt (.inl rfl)
          · cases h
      · cases h
  | resume =>
    obtain ⟨pid, hcur, rfl⟩ := Option.map_eq_some_iff.1 h
    exact .resume hcur
  | exit =>
    obtain ⟨pid, hcur, rfl⟩ := Option.map_eq_some_iff.1 h
    exact .exit hcur
  | wait pid =>
    simp only [Cpu.sysAction] at h
    split at h
    · next hp =>
      split at h
      · cases h
      · cases h
        exact .reap hp
    · cases h
  | io pid => cases h; exact .io pid
  | kalloc n => cases h; exact .kalloc n
  | kfree i => cases h; exact .kfree i
  | kstore i j page => cases h; exact .kstore i j page
  | create => cases h
  | runprogram layout => cases h
  | fork => cases h
  | switch pid => cases h

/-- The steps of the CPU. -/
inductive CpuMove (k : Cpu) : CpuAction → Cpu → Prop
  | stay {x : CpuAction} (hnone : k.sysAction x = none) : CpuMove k x k
  | create {table : ProcessTable} {child : Int}
      (hinit : k.table.procInitWaitpid = .ok (table, child)) :
      CpuMove k .create { k with table := table }
  | runprogram {pid : Int} (layout : AddrSpace) (hcur : k.curproc = some pid)
      (hkernel : pid ≠ KERNEL_PID) (hnone : k.sys.procs pid = none)
      (hslot : k.table.proc pid.toNat ≠ none) :
      CpuMove k (.runprogram layout)
        ({ k with sys := k.sys.execNewProc pid layout } : Cpu).asActivate
  | fork {pid child : Int} {as as' : AddrSpace} {table : ProcessTable} (hcur : k.curproc = some pid)
      (hp : k.sys.procs pid = some ⟨some as, .user⟩)
      (hinit : k.table.procInitWaitpid = .ok (table, child)) :
      CpuMove k .fork { k with sys := k.sys.execNewProc child as', table := table }
  | switch {pid : Int} (hslot : k.table.proc pid.toNat ≠ none)
      (hlive : ∀ as, k.sys.procs pid ≠ some ⟨as, .zombie⟩) :
      CpuMove k (.switch pid) ({ k with curproc := some pid } : Cpu).asActivate
  | wait {pid : Int} {s' : Sys} {w : Option TlbWrite} {table : ProcessTable}
      (hsys : k.sysAction (.wait pid) = some (.reap pid))
      (hexec : k.sys.exec (.reap pid) = .ok (s', w))
      (htable : k.table.procEndWaitpid pid = .ok table) :
      CpuMove k (.wait pid) { ({ k with sys := s' } : Cpu).leave with table := table }
  | paging {x : CpuAction} {a : Action} {s' : Sys} {w : Option TlbWrite}
      (hsys : k.sysAction x = some a) (hreap : ∀ pid, a ≠ .reap pid)
      (hexec : k.sys.exec a = .ok (s', w)) : CpuMove k x ({ k with sys := s' } : Cpu).leave

theorem execSys_ok {k k' : Cpu} {a : Action} (h : k.execSys a = .ok k') :
    ∃ s' w, k.sys.exec a = .ok (s', w) ∧ k' = ({ k with sys := s' } : Cpu).leave := by
  unfold Cpu.execSys at h
  split at h
  · cases h
  · next s' w hexec =>
    cases h
    exact ⟨s', w, hexec, rfl⟩

/-- Only `wait` reaps. -/
theorem sysAction_reap {k : Cpu} {x : CpuAction} {pid : Int}
    (h : k.sysAction x = some (.reap pid)) : x = .wait pid := by
  cases x with
  | touch addr write =>
    simp only [Cpu.sysAction] at h
    repeat' split at h
    all_goals cases h
  | wait pid =>
    simp only [Cpu.sysAction] at h
    split at h
    · split at h
      · cases h
      · cases h
        rfl
    · cases h
  | resume | exit =>
    obtain ⟨pid, -, heq⟩ := Option.map_eq_some_iff.1 h
    cases heq
  | _ => cases h

/-- The actions that are only an action of the paging system. -/
theorem cpuMove_paging {k k' : Cpu} {x : CpuAction} (hwait : ∀ pid, x ≠ .wait pid)
    (h : (match k.sysAction x with
      | none => .ok k
      | some a => k.execSys a) = Except.ok k') : CpuMove k x k' := by
  split at h
  · next hnone =>
    cases h
    exact .stay hnone
  · next a ha =>
    obtain ⟨s', w, hexec, rfl⟩ := execSys_ok h
    exact .paging ha (fun pid hpid => hwait pid (sysAction_reap (hpid ▸ ha))) hexec

theorem cpuStep_move {k k' : Cpu} {x : CpuAction} (h : CpuStep k x k') : CpuMove k x k' := by
  unfold CpuStep at h
  cases x with
  | create =>
    simp only [Cpu.exec] at h
    split at h
    · split at h
      · cases h
      · next hinit =>
        cases h
        exact .create hinit
    · cases h
      exact .stay rfl
  | runprogram layout =>
    simp only [Cpu.exec] at h
    split at h
    · cases h
      exact .stay rfl
    · next pid hcur =>
      split at h
      · next hcond =>
        cases h
        exact .runprogram layout hcur hcond.1 (Option.isNone_iff_eq_none.1 hcond.2.1)
          (Option.isSome_iff_ne_none.1 hcond.2.2)
      · cases h
        exact .stay rfl
  | fork =>
    simp only [Cpu.exec] at h
    split at h
    · cases h
      exact .stay rfl
    · next pid hcur =>
      split at h
      · next as hp =>
        split at h
        · cases h
        · next hfork =>
          cases h
          obtain ⟨as', hinit, -, rfl⟩ := sysFork_ok hfork
          exact .fork hcur hp hinit
      · cases h
        exact .stay rfl
  | switch pid =>
    simp only [Cpu.exec] at h
    split at h
    · cases h
      exact .stay rfl
    · cases h
      exact .stay rfl
    · next proc _ hslot hlive =>
      cases h
      exact .switch (by rw [hslot]; exact Option.some_ne_none _) fun as hp => hlive as hp
  | wait pid =>
    simp only [Cpu.exec] at h
    split at h
    · next hnone =>
      cases h
      exact .stay hnone
    · next a ha =>
      split at h
      · cases h
      · cases h
      · next k₁ table hk₁ htable =>
        cases h
        obtain ⟨s', w, hexec, rfl⟩ := execSys_ok hk₁
        obtain rfl : a = .reap pid := by
          simp only [Cpu.sysAction] at ha
          split at ha
          · split at ha
            · cases ha
            · exact (Option.some.inj ha).symm
          · cases ha
        exact .wait ha hexec htable
  | touch addr write | io pid | resume | exit | kalloc n | kfree i | kstore i j page =>
    exact cpuMove_paging (by simp) h

theorem leave_spec (k : Cpu) : k.leave.sys = k.sys ∧ k.leave.table = k.table ∧
    ∀ pid, k.leave.curproc = some pid → k.curproc = some pid := by
  unfold Cpu.leave
  split
  · exact ⟨rfl, rfl, fun _ h => h⟩
  · split
    · exact ⟨rfl, rfl, fun _ h => by cases h⟩
    · exact ⟨rfl, rfl, fun _ h => h⟩

/-- Nobody stays current who is dead. -/
theorem leave_alive {k : Cpu} {pid : Int} (h : k.leave.curproc = some pid)
    (as : Option AddrSpace) : k.sys.procs pid ≠ some ⟨as, .zombie⟩ := by
  intro hz
  unfold Cpu.leave at h
  split at h
  · next hcur =>
    rw [hcur] at h
    cases h
  · next p hcur =>
    split at h
    · cases h
    · next hlive =>
      rw [hcur] at h
      cases h
      exact hlive as hz

theorem asActivate_spec (k : Cpu) : k.asActivate.sys.procs = k.sys.procs ∧
    k.asActivate.table = k.table ∧ k.asActivate.curproc = k.curproc := by
  unfold Cpu.asActivate
  split
  · exact ⟨rfl, rfl, rfl⟩
  · split
    · exact ⟨rfl, rfl, rfl⟩
    · exact ⟨rfl, rfl, rfl⟩

theorem Asks.user {k : Cpu} {a : Action} {pid : Int} {t : FaultType} {addr : VAddr} (h : Asks k a)
    (ha : a = .fault pid t addr) : addr < USERSPACETOP := by
  cases h with
  | fault _ hlt _ => cases ha; exact hlt
  | _ => cases ha

theorem Asks.not_new {k : Cpu} {a : Action} (h : Asks k a) {pid : Int} (layout : AddrSpace) :
    a ≠ .newProc pid layout := by
  rintro rfl
  cases h

end DemandPaging
