import DemandPaging.PageTable
import DemandPaging.Swapfile
import DemandPaging.Tlb

set_option autoImplicit false

/-! # Frame allocation (`coremap.c`)

The wrappers around `pt.c`, on the whole memory state `Vm`: page table, swap file, RAM, TLB and
counters. They run under the spinlock `ptspin` and with interrupts off, so each is one step, except
where it sleeps: `allocuserpage` gives up the lock while `swapinpage` waits for the disk. It is
therefore cut there, into `allocuserpageStart` (up to the write), the write itself and
`allocuserpageFinish`, which reads `firstvictim` again; `allocuserpage` runs the three in a row.

`getfreeppages` handles the lock differently on its two paths, so its model also records what it
does to the lock and to the table, in order (`PtEvent`). -/

namespace DemandPaging

/-- The memory side of the kernel. -/
structure Vm where
  cm : Coremap
  swap : Swapfile
  ram : Nat → Page
  tlb : Tlb
  counter : Counters

namespace Vm

def incr (vm : Vm) (t : VmStat) : Vm := { vm with counter := vmstatincr vm.counter t }

/-- Overwrite the frame at a page-aligned physical address. -/
def setFrame (vm : Vm) (paddr : Nat) (page : Page) : Vm :=
  { vm with ram := Function.update vm.ram (paddr / PAGE_SIZE) page }

/-- The frame at a page-aligned physical address. -/
def frame (vm : Vm) (paddr : Nat) : Page := vm.ram (paddr / PAGE_SIZE)

end Vm

/-! ## Initialisation -/

/-- A loop of `ptinit`: `left` entries from `i` on. -/
def initLoop (pid : Int) (numpages : Nat) : Nat → Nat → Coremap → Except Crash Coremap
  | 0, _, cm => .ok cm
  | left + 1, i, cm =>
    match cm.setptentry i numpages pid (PADDR_TO_KVADDR (i * PAGE_SIZE)) with
    | .ok cm => initLoop pid numpages left (i + 1) cm
    | .error e => .error e

/-- `ptinit`, given what `ram_getsize` and `ram_getfirstfree` return. The table comes from
    `kmalloc`, so its entries are arbitrary before. -/
def ptinit (cm : Coremap) (ramsize firstpaddr : UInt32) : Except Crash Coremap :=
  let ptsize := ramsize.toNat / PAGE_SIZE
  let firstfree := firstpaddr.toNat / PAGE_SIZE
  let cm := { cm with
    ptsize := ptsize, hashedptsize := ptsize / 32, hashedpt := fun _ => none }
  match initLoop 0 1 firstfree 0 cm with
  | .error e => .error e
  | .ok cm =>
    match initLoop (-1) 0 (ptsize - firstfree) firstfree cm with
    | .error e => .error e
    | .ok cm => .ok { cm with isAct := true }

/-! ## User pages -/

/-- An eviction asleep in the disk write: the frame remembered in `ind`, the page and the physical
    address handed to `swapinpage`, and the slot it claimed. -/
structure Eviction where
  ind : Nat
  pid : Int
  vaddr : VAddr
  readfrom : Nat
  slot : Nat
deriving DecidableEq, Repr

/-- Where `allocuserpage` returns, or where it goes to sleep. -/
inductive AllocPoint
  | done (vm : Vm) (paddr : Nat)
  | evicting (vm : Vm) (ev : Eviction)

/-- The text of `swapinpage`'s panic. -/
def swapFullMsg : String := "Swapfile has reached the maximum memory allowed"

/-- `allocuserpage` up to its return or its disk write. -/
def allocuserpageStart (vm : Vm) (pid : Int) (addr : VAddr) : Except Crash AllocPoint :=
  if vm.cm.isAct = false then .ok (.done vm 0)
  else
    let ind := getfreeframes vm.cm.pt vm.cm.ptsize 1
    if ind = -1 then
      match vm.cm.firstvictim with
      | none => .ok (.done vm 0)
      | some v =>
        match vm.cm.getpageaddr (vm.cm.pt v).pid (vm.cm.pt v).vaddr with
        | .error e => .error e
        | .ok readfrom =>
          match vm.swap.claimSlot (vm.cm.pt v).pid (vm.cm.pt v).vaddr with
          | none => .error (.panic swapFullMsg)
          | some (swap, slot) =>
            .ok (.evicting { vm with swap := swap }
              { ind := v, pid := (vm.cm.pt v).pid, vaddr := (vm.cm.pt v).vaddr,
                readfrom := readfrom, slot := slot })
    else
      match vm.cm.setptentry ind.toNat 1 pid addr with
      | .error e => .error e
      | .ok cm => .ok (.done { vm with cm := cm } (ind.toNat * PAGE_SIZE))

/-- The disk write of an eviction. -/
def evictWrite (vm : Vm) (ev : Eviction) : Vm :=
  { vm with swap := vm.swap.writeSlot ev.slot (vm.frame ev.readfrom) }

/-- `allocuserpage` after the disk write: `firstvictim` is read again. -/
def allocuserpageFinish (vm : Vm) (pid : Int) (addr : VAddr) (ind : Nat) :
    Except Crash (Vm × Nat) :=
  let vm := vm.incr .SWAPWRITE
  match vm.cm.firstvictim with
  | none => .error .nullDeref
  | some v =>
    let vm := { vm with tlb := vm.tlb.vmtlbInvalidatepage (vm.cm.pt v).vaddr }
    match vm.cm.freeuser (vm.cm.pt v).pid (vm.cm.pt v).vaddr with
    | .error e => .error e
    | .ok (cm, _) =>
      match cm.setptentry ind 1 pid addr with
      | .error e => .error e
      | .ok cm => .ok ({ vm with cm := cm }, ind * PAGE_SIZE)

/-- `allocuserpage` run without interruption. -/
def allocuserpage (vm : Vm) (pid : Int) (addr : VAddr) : Except Crash (Vm × Nat) :=
  match allocuserpageStart vm pid addr with
  | .error e => .error e
  | .ok (.done vm paddr) => .ok (vm, paddr)
  | .ok (.evicting vm ev) => allocuserpageFinish (evictWrite vm ev) pid addr ev.ind

/-- `freeuserpage`: the table and the C result (`EFAULT` is `6` in `kern/errno.h`). -/
def freeuserpage (vm : Vm) (pid : Int) (addr : VAddr) : Except Crash (Vm × Int) :=
  if vm.cm.isAct = false then .ok (vm, 6)
  else
    match vm.cm.freeuser pid addr with
    | .error e => .error e
    | .ok (cm, res) => .ok ({ vm with cm := cm }, res)

def pageaddr (vm : Vm) (pid : Int) (addr : VAddr) : Except Crash Nat :=
  if vm.cm.isAct = false then .ok 0 else vm.cm.getpageaddr pid addr

/-- The loop of `removeptentries`: `left` entries from `i` on. -/
def removeLoop (pid : Int) : Nat → Nat → Coremap → Except Crash Coremap
  | 0, _, cm => .ok cm
  | left + 1, i, cm =>
    if (cm.pt i).pid = pid then
      match cm.freeuser pid (cm.pt i).vaddr with
      | .error e => .error e
      | .ok (cm, _) => removeLoop pid left (i + 1) cm
    else removeLoop pid left (i + 1) cm

def removeptentries (vm : Vm) (pid : Int) : Except Crash Vm :=
  if vm.cm.isAct = false then .ok vm
  else
    match removeLoop pid vm.cm.ptsize 0 vm.cm with
    | .error e => .error e
    | .ok cm => .ok { vm with cm := cm }

/-! ## Kernel pages -/

/-- What `getfreeppages` does to the lock and to the table, in program order. -/
inductive PtEvent
  | acquire
  | release
  | swapout (pid : Int) (vaddr : VAddr)
  | update
deriving DecidableEq, Repr

/-- A run of `getfreeppages`: the state it leaves, its events, and its result if it returns. -/
structure KernelAlloc where
  vm : Vm
  events : List PtEvent
  result : Except Crash Nat

/-- The text of `getfreeppages`'s panic. -/
def noSpaceMsg : String := "No space left on memory to allocate to kernel!!"

/-- The common end of `getfreeppages`: `ind` becomes an `unsigned int` index, and
    `spinlock_release` asserts that the lock is held. -/
def getfreeppagesEnd (vm : Vm) (npages : Nat) (ind : Int) (held : Bool) (events : List PtEvent) :
    KernelAlloc :=
  let index := (UInt32.ofInt ind).toNat
  match vm.cm.setptentry index npages 0 (PADDR_TO_KVADDR (index * PAGE_SIZE)) with
  | .error e => { vm := vm, events := events ++ [.update], result := .error e }
  | .ok cm =>
    if held then
      { vm := { vm with cm := cm }, events := events ++ [.update, .release],
        result := .ok (index * PAGE_SIZE) }
    else { vm := { vm with cm := cm }, events := events ++ [.update], result := .error .kassert }

/-- `getfreeppages`. `isptactive` takes and releases the lock once on its own. -/
def getfreeppages (vm : Vm) (npages : Nat) : KernelAlloc :=
  let events : List PtEvent := [.acquire, .release]
  if vm.cm.isAct = false then { vm := vm, events := events, result := .ok 0 }
  else
    let events := events ++ [.acquire]
    let ind := getfreeframes vm.cm.pt vm.cm.ptsize npages
    if ind = -1 then
      let events := events ++ [.release]
      match vm.cm.firstvictim with
      | none => { vm := vm, events := events, result := .error (.panic noSpaceMsg) }
      | some v =>
        -- the lock is not held from here on
        let pid := (vm.cm.pt v).pid
        let vaddr := (vm.cm.pt v).vaddr
        match vm.cm.getpageaddr pid vaddr with
        | .error e => { vm := vm, events := events, result := .error e }
        | .ok readfrom =>
          match vm.swap.claimSlot pid vaddr with
          | none => { vm := vm, events := events, result := .error (.panic swapFullMsg) }
          | some (swap, slot) =>
            let vm := { vm with swap := swap.writeSlot slot (vm.frame readfrom) }
            let vm := vm.incr .SWAPWRITE
            let vm := { vm with tlb := vm.tlb.vmtlbInvalidatepage vaddr }
            let events := events ++ [.swapout pid vaddr]
            match vm.cm.freeuser pid vaddr with
            | .error e => { vm := vm, events := events, result := .error e }
            | .ok (cm, _) =>
              getfreeppagesEnd { vm with cm := cm } npages ind false (events ++ [.update])
    else getfreeppagesEnd vm npages ind true events

/-- `alloc_kpages` with `getppages` inlined. At boot `ram_getfirstfree` has closed `ram_stealmem`,
    which answers 0 from then on. -/
def allocKpages (vm : Vm) (npages : Nat) : Except Crash VAddr :=
  match (getfreeppages vm npages).result with
  | .error e => .error e
  | .ok pa => .ok (if pa = 0 then 0 else PADDR_TO_KVADDR pa)

/-- `free_kpages`. -/
def freeKpages (vm : Vm) (addr : VAddr) : Except Crash Vm :=
  if vm.cm.isAct = false then .ok vm
  else
    let i := ((addr - USERSPACETOP) / UInt32.ofNat PAGE_SIZE).toNat
    match vm.cm.freekernel i with
    | .error e => .error e
    | .ok cm => .ok { vm with cm := cm }

end DemandPaging
