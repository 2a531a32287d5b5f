import DemandPaging.Fault
import DemandPaging.Coremap.Runs

set_option autoImplicit false

/-! # Processes that fault concurrently

The paging system as a labelled transition system. Each process is in user mode, dead, or asleep at
one of the sleep points of `vm_fault`; an action lets one process run to its next sleep point, so
the runs are exactly the interleavings at the sleeps. An action that does not apply to the state
(resuming a process that is not asleep, reaping a live one) does nothing.

`VOP_WRITE` copies the page somewhere between going to sleep for the device lock and returning,
and a read that meets the end of the file sleeps once more after its last byte. The action `io`
is the copy, `resume` the return. -/

namespace DemandPaging

/-- Where a process stands. In `granted` the frame has been granted and the load has not begun;
    a process passes through it and never sleeps there. -/
inductive Pc
  | user
  | evicting (c : FaultCtx) (ev : Eviction) (copied : Bool)
  | granted (c : FaultCtx) (respaddr : Nat)
  | swapRead (c : FaultCtx) (respaddr slot : Nat)
  | elfRead (c : FaultCtx) (respaddr vnode offset : Nat) (copied : Bool)
  | zombie

namespace Pc

/-- The eviction the process is asleep in. -/
def eviction : Pc → Option Eviction
  | .evicting _ ev _ => some ev
  | _ => none

/-- The page the process is loading, and the physical address it loads it to. -/
def loading : Pc → Option (FaultCtx × Nat)
  | .granted c r => some (c, r)
  | .swapRead c r _ => some (c, r)
  | .elfRead c r _ _ _ => some (c, r)
  | _ => none

/-- Inside `vm_fault`. -/
def asleep : Pc → Bool
  | .user => false
  | .zombie => false
  | _ => true

end Pc

structure Proc where
  as : Option AddrSpace
  pc : Pc

/-- Memory, the files on disk and the processes. -/
structure Sys where
  vm : Vm
  files : Nat → List UInt8
  procs : Int → Option Proc

/-- The arguments of a call of `vmtlb_write`. -/
structure TlbWrite where
  pid : Int
  vaddr : VAddr
  paddr : Nat
deriving DecidableEq, Repr

/-- What can happen next. Kernel allocations are those that find a free run. -/
inductive Action
  | fault (pid : Int) (faulttype : FaultType) (faultaddress : VAddr)
  | io (pid : Int)
  | resume (pid : Int)
  | store (pid : Int) (addr : VAddr) (b : UInt8)
  | exit (pid : Int)
  | reap (pid : Int)
  | newProc (pid : Int) (layout : AddrSpace)
  | kalloc (npages : Nat)
  | kfree (i : Nat)
  | kstore (i k : Nat) (page : Page)

/-! ## Address spaces of new and dead processes -/

/-- `as_destroy`, which reads through all three segment pointers. -/
def asDestroy (vm : Vm) (as : AddrSpace) (pid : Int) : Except Crash Vm :=
  match as.seg1, as.seg2, as.segstack with
  | some _, some _, some _ =>
    match removeptentries vm pid with
    | .error e => .error e
    | .ok vm => .ok { vm with swap := vm.swap.removeswapentries pid }
  | _, _, _ => .error .nullDeref

/-! ## Steps -/

namespace Sys

/-- The state with new memory and a new position of `pid`. -/
def put (s : Sys) (vm : Vm) (pid : Int) (as : AddrSpace) (pc : Pc) : Sys :=
  { s with vm := vm, procs := Function.update s.procs pid (some { as := some as, pc := pc }) }

/-- The fault of `pid` is over. -/
def endFault (s : Sys) (vm : Vm) (pid : Int) (as : AddrSpace) (c : FaultCtx) (paddr : Nat) :
    Sys × Option TlbWrite :=
  (s.put (faultEnd vm pid as c paddr) pid as .user,
    some { pid := pid, vaddr := c.fa, paddr := paddr })

/-- From `allocuserpage` to the next sleep or the end. -/
def runLoad (s : Sys) (vm : Vm) (pid : Int) (as : AddrSpace) (c : FaultCtx) (respaddr : Nat) :
    Except Crash (Sys × Option TlbWrite) :=
  match loadBegin vm pid as c respaddr with
  | .error e => .error e
  | .ok (.ready vm as) => .ok (s.endFault vm pid as c respaddr)
  | .ok (.swapRead slot) => .ok (s.put vm pid as (.swapRead c respaddr slot), none)
  | .ok (.elfRead vnode offset) =>
    .ok (s.put vm pid as (.elfRead c respaddr vnode offset false), none)

/-- `vm_fault` up to its first sleep. -/
def execFault (s : Sys) (pid : Int) (as : AddrSpace) (c : FaultCtx) :
    Except Crash (Sys × Option TlbWrite) :=
  match faultBegin s.vm pid c.fa with
  | .error e => .error e
  | .ok (.mapped vm paddr) => .ok (s.endFault vm pid as c paddr)
  | .ok (.granted vm respaddr) => s.runLoad vm pid as c respaddr
  | .ok (.evicting vm ev) => .ok (s.put vm pid as (.evicting c ev false), none)

/-- The copy that a sleeping process waits for. -/
def execIo (s : Sys) (pid : Int) : Sys :=
  match s.procs pid with
  | some ⟨some as, .evicting c ev false⟩ =>
    s.put (evictWrite s.vm ev) pid as (.evicting c ev true)
  | some ⟨some as, .elfRead c r vnode offset false⟩ =>
    s.put (readfromelfto s.vm (s.files vnode) r offset) pid as (.elfRead c r vnode offset true)
  | _ => s

/-- A process whose disk operation is complete wakes up. -/
def execResume (s : Sys) (pid : Int) : Except Crash (Sys × Option TlbWrite) :=
  match s.procs pid with
  | some ⟨some as, .evicting c ev true⟩ =>
    match allocuserpageFinish s.vm pid c.fa ev.ind with
    | .error e => .error e
    | .ok (vm, respaddr) => s.runLoad vm pid as c respaddr
  | some ⟨some as, .swapRead c r slot⟩ =>
    .ok (s.endFault (swapoutpageEnd s.vm r slot) pid as c r)
  | some ⟨some as, .elfRead c r _ _ true⟩ =>
    .ok (s.endFault (elfCounters s.vm) pid (as.setLoaded c) c r)
  | _ => .ok (s, none)

/-- A store in user mode, through the translation in the page table. -/
def execStore (s : Sys) (pid : Int) (addr : VAddr) (b : UInt8) : Sys :=
  match s.procs pid, pageaddr s.vm pid (pageOf addr) with
  | some ⟨_, .user⟩, .ok paddr =>
    if paddr = 0 then s
    else
      let offset : Fin PAGE_SIZE := ⟨addr.toNat % PAGE_SIZE, Nat.mod_lt _ PAGE_SIZE_pos⟩
      { s with vm := s.vm.setFrame paddr (Function.update (s.vm.frame paddr) offset b) }
  | _, _ => s

/-- The process dies; its memory stays until it is reaped. -/
def execExit (s : Sys) (pid : Int) : Sys :=
  match s.procs pid with
  | some ⟨as, .user⟩ => { s with procs := Function.update s.procs pid (some ⟨as, .zombie⟩) }
  | _ => s

def execReap (s : Sys) (pid : Int) : Except Crash Sys :=
  match s.procs pid with
  | some ⟨some as, .zombie⟩ =>
    match asDestroy s.vm as pid with
    | .error e => .error e
    | .ok vm => .ok { s with vm := vm, procs := Function.update s.procs pid none }
  | _ => .ok s

/-- A new process with the given layout, from `runprogram` or from `fork`. -/
def execNewProc (s : Sys) (pid : Int) (layout : AddrSpace) : Sys :=
  if 0 < pid ∧ (s.procs pid).isNone then
    { s with procs := Function.update s.procs pid (some ⟨some layout.unloaded, .user⟩) }
  else s

def execKfree (s : Sys) (i : Nat) : Except Crash Sys :=
  if i ≠ 0 ∧ i < s.vm.cm.ptsize ∧ (s.vm.cm.pt i).pid = 0 then
    match freeKpages s.vm (PADDR_TO_KVADDR (i * PAGE_SIZE)) with
    | .error e => .error e
    | .ok vm => .ok { s with vm := vm }
  else .ok s

/-- The kernel writes to a frame of its allocation at `i`. -/
def execKstore (s : Sys) (i k : Nat) (page : Page) : Sys :=
  if i < s.vm.cm.ptsize ∧ (s.vm.cm.pt i).pid = 0 ∧ i ≤ k ∧ k < i + (s.vm.cm.pt i).numpages then
    { s with vm := { s.vm with ram := Function.update s.vm.ram k page } }
  else s

/-- One action: the state after it and the TLB entry it writes, if it writes one. -/
def exec (s : Sys) : Action → Except Crash (Sys × Option TlbWrite)
  | .fault pid faulttype faultaddress =>
    match s.procs pid with
    | some ⟨as, .user⟩ =>
      match faultEntry as faulttype faultaddress with
      | .error e => .error e
      | .ok .exits => .ok (s.execExit pid, none)
      | .ok (.returns _) => .ok (s, none)
      | .ok (.page as c) => s.execFault pid as c
    | _ => .ok (s, none)
  | .io pid => .ok (s.execIo pid, none)
  | .resume pid => s.execResume pid
  | .store pid addr b => .ok (s.execStore pid addr b, none)
  | .exit pid => .ok (s.execExit pid, none)
  | .reap pid => (s.execReap pid).map (·, none)
  | .newProc pid layout => .ok (s.execNewProc pid layout, none)
  | .kalloc n =>
    if getfreeframes s.vm.cm.pt s.vm.cm.ptsize n = -1 then .ok (s, none)
    else .ok ({ s with vm := (getfreeppages s.vm n).vm }, none)
  | .kfree i => (s.execKfree i).map (·, none)
  | .kstore i k page => .ok (s.execKstore i k page, none)

/-- After boot: nothing swapped out, no process yet. -/
def Initial (s : Sys) : Prop :=
  Boots s.vm ∧ (∃ sw : Swapfile, s.vm.swap = sw.swapinit) ∧ ∀ pid, s.procs pid = none

end Sys

/-- The interleavings: any action may come next. -/
def Step (s : Sys) (a : Action) (s' : Sys) : Prop := ∃ w, s.exec a = .ok (s', w)

/-! ## Conditions on a step -/

/-- Where the page table leads the fault that the action starts. -/
def Sys.faultPoint (s : Sys) : Action → Option FaultPoint
  | .fault pid faulttype faultaddress =>
    match s.procs pid with
    | some ⟨as, .user⟩ =>
      match faultEntry as faulttype faultaddress with
      | .ok (.page _ c) => (faultBegin s.vm pid c.fa).toOption
      | _ => none
    | _ => none
  | _ => none

/-- An eviction begins only when no other one is asleep and the owner of its victim is not loading
    it, and nobody is reaped while one of their pages is being evicted. -/
structure Calm (s : Sys) (a : Action) : Prop where
  alone : ∀ vm ev, s.faultPoint a = some (.evicting vm ev) →
    ∀ pid proc, s.procs pid = some proc → proc.pc.eviction = none
  loaded : ∀ vm ev, s.faultPoint a = some (.evicting vm ev) → ∀ proc, s.procs ev.pid = some proc →
    ∀ c r, proc.pc.loading = some (c, r) → c.fa ≠ ev.vaddr
  kept : ∀ p, a = .reap p →
    ∀ pid proc ev, s.procs pid = some proc → proc.pc.eviction = some ev → ev.pid ≠ p

/-- No store hits a page under eviction after its bytes have been copied to the disk. -/
def Unraced (s : Sys) (a : Action) : Prop :=
  ∀ p addr b, a = .store p addr b → ∀ pid as c ev,
    s.procs pid = some ⟨as, .evicting c ev true⟩ → ¬ (ev.pid = p ∧ ev.vaddr = pageOf addr)

/-- `allocuserpage` does not return 0. -/
def Granted (s : Sys) (a : Action) : Prop := ∀ vm, s.faultPoint a ≠ some (.granted vm 0)

end DemandPaging
