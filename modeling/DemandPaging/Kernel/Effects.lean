import DemandPaging.Kernel
import Mathlib.Tactic.SplitIfs

set_option autoImplicit false

/-! # What one operation does to the kernel

`KernelEffect` lists the outcomes of all operations, with the state each one leaves. Everything that
is proved about runs of the kernel goes through `kernelStep_effect`, and does not look into the
operations again. -/

namespace DemandPaging

open Function (update update_self update_of_ne update_idem update_eq_self_iff)

namespace Kernel

variable {k k' : Kernel} {p : Nat} {pr : ProcStruct}

theorem proc_eq_ok : k.proc p = .ok pr ↔ k.procs p = some pr := by
  unfold proc
  split <;> simp [*]

end Kernel

theorem vfsClose_eq_ok {vs vs' : Nat → Nat} {v : Nat} :
    vfsClose vs v = .ok vs' ↔ 0 < vs v ∧ vs' = update vs v (vs v - 1) := by
  unfold vfsClose
  simp only [bind_eq_ok, kassert_eq_ok, pure_eq_ok, exists_const]
  exact and_congr_right fun _ => eq_comm

/-- Closing what was just opened changes nothing. -/
theorem vfsClose_vfsOpen (vs : Nat → Nat) (v : Nat) : vfsClose (vfsOpen vs v) v = .ok vs := by
  rw [vfsClose_eq_ok, vfsOpen, update_self]
  exact ⟨by omega, by simp⟩

/-! ## The outcomes -/

/-- A slot that `proc_create` can give to a new process. -/
structure NewSlot (k : Kernel) (newp : Nat) : Prop where
  pos : 0 < newp
  le : newp ≤ MAX_PROC
  unused : k.procs newp = none

theorem NewSlot.ne {k : Kernel} {newp p : Nat} {pr : ProcStruct} (hnew : NewSlot k newp)
    (hp : k.procs p = some pr) : newp ≠ p := by
  rintro rfl
  rw [hnew.unused] at hp
  cases hp

/-- A descriptor table with all its entries cleared. -/
def cleared (fileTable : Nat → Option Nat) (fd : Nat) : Option Nat :=
  if fd < OPEN_MAX then none else fileTable fd

open Kernel in
/-- What an operation does, and when. -/
inductive KernelEffect (k : Kernel) : KernelOp → Kernel → Prop
  | same {op : KernelOp} : KernelEffect k op k
  -- a process is created and destroyed again
  | scrap {op : KernelOp} {table : ProcessTable} (htable : table.proc = k.table.proc) :
      KernelEffect k op { k with table := table, fresh := k.fresh + 1 }
  | launch {newp : Nat} {table : ProcessTable} (hnew : NewSlot k newp)
      (htable : table.proc = update k.table.proc newp (some newp)) :
      KernelEffect k (.commonProg .done)
        { k with
          table := table
          procs := update k.procs newp (some { freshProc k.fresh with p_numthreads := 1 })
          waits := update k.waits KPROC (some ⟨newp, k.fresh, .ready⟩)
          fresh := k.fresh + 1 }
  -- `vfs_open` or `as_create` fails
  | noSpace {p : Nat} {pr : ProcStruct} {exe : Option Exe} (hp : k.procs p = some pr)
      (hexe : ∀ e, exe = some e → e.space = false) :
      KernelEffect k (.runprogram p exe) (k.procRemthread p pr)
  | loadFails {p : Nat} {pr : ProcStruct} {e : Exe} {as : AddrSpace} {err : Errno}
      (hp : k.procs p = some pr) (hnone : pr.p_addrspace = none) (hspace : e.space = true)
      (hload : loadElfLeaves e.file e.vnode e.env asCreate = (as, .error err)) :
      KernelEffect k (.runprogram p (some e)) (k.procRemthread p { pr with p_addrspace := some as })
  | loads {p : Nat} {pr : ProcStruct} {e : Exe} {as : AddrSpace} {entry : VAddr}
      (hp : k.procs p = some pr) (hnone : pr.p_addrspace = none) (hspace : e.space = true)
      (hload : loadElfLeaves e.file e.vnode e.env asCreate = (as, .ok entry)) :
      KernelEffect k (.runprogram p (some e))
        { k.setProc p { pr with p_addrspace := some (asDefineStack as).1 } with
          vnodes := vfsOpen k.vnodes e.vnode }
  | opens {p v i fd : Nat} {pr : ProcStruct} (hp : k.procs p = some pr)
      (hi : freeOpenfile k.files = some i) (hfd : freeDescriptor pr.fileTable = some fd) :
      KernelEffect k (.sysOpen p (some v))
        { k.setProc p { pr with fileTable := update pr.fileTable fd (some i) } with
          vnodes := vfsOpen k.vnodes v
          files := update k.files i ⟨some v, 0, 1⟩ }
  -- no descriptor is free
  | openFails {p v i : Nat} {pr : ProcStruct} (hp : k.procs p = some pr)
      (hi : freeOpenfile k.files = some i) (hfd : freeDescriptor pr.fileTable = none) :
      KernelEffect k (.sysOpen p (some v))
        { k with files := update k.files i ⟨some v, 0, 1⟩ }
  | closes {p i fd : Nat} {pr : ProcStruct} {of : Openfile} {vnodes : Nat → Nat}
      (hp : k.procs p = some pr) (hfd : fd < OPEN_MAX) (hi : pr.fileTable fd = some i)
      (hcount : of.countRef = (k.files i).countRef - 1)
      (hvn : of.vn = if 0 < of.countRef then (k.files i).vn else none) :
      KernelEffect k (.sysClose p fd)
        { k.setProc p { pr with fileTable := update pr.fileTable fd none } with
          vnodes := vnodes
          files := update k.files i of }
  | forks {p newp : Nat} {pr : ProcStruct} {as as' : AddrSpace} {table : ProcessTable}
      (hp : k.procs p = some pr) (has : pr.p_addrspace = some as) (hcopy : asCopy as = .ok as')
      (hnew : NewSlot k newp)
      (htable : table.proc = update k.table.proc newp (some newp)) :
      KernelEffect k (.sysFork p .done)
        { k with
          table := table
          procs := update
            (update k.procs p (some { pr with fileTable := cleared pr.fileTable })) newp
            (some { freshProc k.fresh with p_numthreads := 1, p_addrspace := some as' })
          fresh := k.fresh + 1 }
  -- the trapframe or the thread cannot be allocated, and the copy is destroyed
  | forkFails {p : Nat} {pr : ProcStruct} {as as' : AddrSpace} {table : ProcessTable}
      {vnodes : Nat → Nat} {point : ForkPoint} (hp : k.procs p = some pr)
      (hpoint : point = .trapframe ∨ point = .threadFork)
      (has : pr.p_addrspace = some as) (hcopy : asCopy as = .ok as')
      (htable : table.proc = k.table.proc) (hdestroy : asDestroy as' k.vnodes = .ok vnodes) :
      KernelEffect k (.sysFork p point)
        { k.setProc p { pr with fileTable := cleared pr.fileTable } with
          table := table
          vnodes := vnodes
          fresh := k.fresh + 1 }
  | exits {p : Nat} {pr : ProcStruct} {status : UInt32} (hp : k.procs p = some pr)
      (hpos : 0 < pr.p_numthreads) :
      KernelEffect k (.sysExit p status)
        { k.setProc p { pr with
            p_status := status &&& 0xff
            p_numthreads := pr.p_numthreads - 1
            p_sem := ⟨pr.p_sem.sem_count + 1, pr.p_sem.sem_wchan.tail⟩ } with
          waits := wakeone k.waits pr.p_sem.sem_wchan }
  | waits {t pid : Nat} {pr : ProcStruct} (hp : k.procs pid = some pr) (hk : pid ≠ KPROC) :
      KernelEffect k (.sysWaitpid t pid)
        { k with waits := update k.waits t (some ⟨pid, pr.addr, .ready⟩) }
  | sleeps {t : Nat} {w : Waiter} {pr : ProcStruct} (hw : k.waits t = some w)
      (hp : k.procs w.pid = some pr) (haddr : pr.addr = w.addr) (hzero : pr.p_sem.sem_count = 0) :
      KernelEffect k (.semP t)
        { k.setProc w.pid { pr with p_sem := ⟨0, pr.p_sem.sem_wchan ++ [t]⟩ } with
          waits := update k.waits t (some { w with phase := .asleep }) }
  | takes {t : Nat} {w : Waiter} {pr : ProcStruct} (hw : k.waits t = some w)
      (hp : k.procs w.pid = some pr) (haddr : pr.addr = w.addr) (hpos : 0 < pr.p_sem.sem_count) :
      KernelEffect k (.semP t)
        { k.setProc w.pid { pr with
            p_sem := ⟨pr.p_sem.sem_count - 1, pr.p_sem.sem_wchan⟩ } with
          waits := update k.waits t (some { w with phase := .taken }) }
  | reaps {t : Nat} {w : Waiter} {pr : ProcStruct} {table : ProcessTable} {vnodes : Nat → Nat}
      (hw : k.waits t = some w) (hp : k.procs w.pid = some pr) (haddr : pr.addr = w.addr)
      (hdestroy : pr.p_addrspace.elim (.ok k.vnodes) (asDestroy · k.vnodes) = .ok vnodes)
      (hthreads : pr.p_numthreads = 0) (hchan : pr.p_sem.sem_wchan = [])
      (htable : table.proc = update k.table.proc w.pid none) :
      KernelEffect k (.procWait t)
        { k with
          table := table
          procs := update k.procs w.pid none
          vnodes := vnodes
          waits := update k.waits t none }

/-! ## Slots of the process table -/

/-- Where the structures of the processes are. -/
structure SlotInv (k : Kernel) : Prop where
  slots : ∀ i, k.table.proc i = none → k.procs i = none
  range : ∀ i pr, k.procs i = some pr → 0 < i ∧ i ≤ MAX_PROC

theorem ProcessTable.succ_le (i : Nat) : ProcessTable.succ i ≤ MAX_PROC := by
  unfold ProcessTable.succ
  by_cases h : MAX_PROC < i + 1
  · rw [if_pos h]
    decide
  · rw [if_neg h]
    omega

theorem ProcessTable.searchPid_le {t : ProcessTable} {fuel i j : Nat}
    (h : t.searchPid fuel i = .ok (some j)) (hi : i ≤ MAX_PROC) : j ≤ MAX_PROC := by
  induction fuel generalizing i with
  | zero => cases h
  | succ fuel ih =>
    simp only [ProcessTable.searchPid] at h
    split at h
    · cases h
    · split at h
      · cases h
        exact hi
      · exact ih h (ProcessTable.succ_le i)

theorem ProcessTable.procInitWaitpid_le {t t' : ProcessTable} {pid : Int}
    (h : t.procInitWaitpid = .ok (t', pid)) : pid ≤ MAX_PROC := by
  unfold ProcessTable.procInitWaitpid at h
  split at h
  · cases h
  · cases h
  · next i hi =>
    cases h
    exact Int.ofNat_le.2 (ProcessTable.searchPid_le hi (ProcessTable.succ_le _))

namespace Kernel

variable {k k' : Kernel} {p : Nat} {pr : ProcStruct}

theorem procCreateRunprogram_ok {newp : Nat} (h : SlotInv k)
    (hc : k.procCreateRunprogram = .ok (k', newp)) :
    NewSlot k newp ∧ k.table.proc newp = none ∧ ∃ table : ProcessTable,
      table.proc = update k.table.proc newp (some newp) ∧
      k' = k.addProc table newp := by
  unfold procCreateRunprogram at hc
  obtain ⟨⟨table, pid⟩, hinit, hret⟩ := bind_eq_ok.1 hc
  obtain ⟨rfl, rfl⟩ := Prod.mk.inj (pure_eq_ok.1 hret)
  have hle := ProcessTable.procInitWaitpid_le hinit
  obtain ⟨i, rfl, hpos, hfree, htable⟩ := ProcessTable.procInitWaitpid_ok hinit
  exact ⟨⟨hpos, by simpa using hle, h.slots i hfree⟩, hfree, table, htable, rfl⟩

theorem procDestroy_ok (hd : k.procDestroy p = .ok k') :
    ∃ pr vnodes, ∃ table : ProcessTable, k.procs p = some pr ∧
      pr.p_addrspace.elim (.ok k.vnodes) (asDestroy · k.vnodes) = .ok vnodes ∧
      pr.p_numthreads = 0 ∧ pr.p_sem.sem_wchan = [] ∧
      table.proc = update k.table.proc p none ∧
      k' = { k with
        table := table, procs := update k.procs p none, vnodes := vnodes } := by
  simp only [procDestroy, bind_eq_ok, kassert_eq_ok, proc_eq_ok, pure_eq_ok] at hd
  obtain ⟨pr, hp, vnodes, hvnodes, -, hthreads, table, htable, -, hchan, rfl⟩ := hd
  have hend := (ProcessTable.procEndWaitpid_ok htable).2
  exact ⟨pr, vnodes, table, hp, hvnodes, hthreads, hchan, hend, rfl⟩

/-- A new process that is destroyed at once leaves its slot as it was. -/
theorem scrapped {k₁ : Kernel} {newp : Nat} (h : SlotInv k)
    (hc : k.procCreateRunprogram = .ok (k₁, newp)) (hd : k₁.procDestroy newp = .ok k') :
    ∃ table : ProcessTable, table.proc = k.table.proc ∧
      k' = { k with table := table, fresh := k.fresh + 1 } := by
  obtain ⟨hnew, hfree, table₁, htable₁, rfl⟩ := procCreateRunprogram_ok h hc
  obtain ⟨pr, vnodes, table, hp, hvnodes, -, -, htable, rfl⟩ := procDestroy_ok hd
  obtain rfl : freshProc k.fresh = pr := by simpa [addProc] using hp
  obtain rfl : k.vnodes = vnodes := Except.ok.inj hvnodes
  refine ⟨table, ?_, ?_⟩
  · rw [htable]
    simp only [addProc, htable₁, update_idem, update_eq_self_iff, hfree]
  · have hprocs : update k.procs newp none = k.procs := by
      rw [update_eq_self_iff, hnew.unused]
    simp only [addProc, update_idem, hprocs]

/-! ## One operation at a time -/

theorem commonProg_effect {point : ProgPoint} {r : Except Errno Nat} (h : SlotInv k)
    (hx : k.commonProg point = .ok (k', r)) : KernelEffect k (.commonProg point) k' := by
  cases point with
  | procCreate =>
    obtain ⟨rfl, -⟩ := Prod.mk.inj (Except.ok.inj hx)
    exact .same
  | threadFork =>
    simp only [commonProg, bind_eq_ok, pure_eq_ok, Prod.mk.injEq] at hx
    obtain ⟨⟨k₁, newp⟩, hc, k₂, hd, rfl, -⟩ := hx
    obtain ⟨table, htable, rfl⟩ := scrapped h hc hd
    exact .scrap htable
  | done =>
    simp only [commonProg, bind_eq_ok, pure_eq_ok, proc_eq_ok, Prod.mk.injEq] at hx
    obtain ⟨⟨k₁, newp⟩, hc, pr, hp, rfl, -⟩ := hx
    obtain ⟨hnew, -, table, htable, rfl⟩ := procCreateRunprogram_ok h hc
    obtain rfl : freshProc k.fresh = pr := by simpa [addProc] using hp
    simp only [procAddthread, setProc, addProc, update_idem]
    exact .launch hnew htable

theorem runprogram_effect {exe : Option Exe} {r : Except Errno Unit}
    (hx : k.runprogram p exe = .ok (k', r)) : KernelEffect k (.runprogram p exe) k' := by
  simp only [runprogram, bind_eq_ok, proc_eq_ok] at hx
  obtain ⟨pr, hp, hx⟩ := hx
  cases exe with
  | none =>
    obtain ⟨rfl, -⟩ := Prod.mk.inj (pure_eq_ok.1 hx)
    exact .noSpace hp fun e he => by cases he
  | some e =>
    simp only [bind_eq_ok, kassert_eq_ok] at hx
    obtain ⟨-, hnone, hx⟩ := hx
    cases hspace : e.space with
    | false =>
      simp only [hspace, Bool.false_eq_true, if_false, vfsClose_vfsOpen, bind_eq_ok,
        pure_eq_ok, Prod.mk.injEq] at hx
      obtain ⟨vnodes, hvnodes, rfl, -⟩ := hx
      obtain rfl := Except.ok.inj hvnodes
      exact .noSpace hp fun e' he => by rw [← Option.some.inj he]; exact hspace
    | true =>
      simp only [hspace, if_true] at hx
      rcases hload : loadElfLeaves e.file e.vnode e.env asCreate with ⟨as, err | entry⟩
      · simp only [hload, vfsClose_vfsOpen, bind_eq_ok, pure_eq_ok, Prod.mk.injEq] at hx
        obtain ⟨vnodes, hvnodes, rfl, -⟩ := hx
        obtain rfl := Except.ok.inj hvnodes
        exact .loadFails hp (by simpa using hnone) hspace hload
      · simp only [hload, pure_eq_ok, Prod.mk.injEq] at hx
        obtain ⟨rfl, -⟩ := hx
        exact .loads hp (by simpa using hnone) hspace hload

theorem sysOpen_effect {opened : Option Nat} {r : Except Errno Nat}
    (hx : k.sysOpen p opened = .ok (k', r)) : KernelEffect k (.sysOpen p opened) k' := by
  simp only [sysOpen, bind_eq_ok, proc_eq_ok] at hx
  obtain ⟨pr, hp, hx⟩ := hx
  cases opened with
  | none =>
    obtain ⟨rfl, -⟩ := Prod.mk.inj (pure_eq_ok.1 hx)
    exact .same
  | some v =>
    cases hi : freeOpenfile k.files with
    | none =>
      simp only [hi, vfsClose_vfsOpen, bind_eq_ok, pure_eq_ok, Prod.mk.injEq] at hx
      obtain ⟨vnodes, hvnodes, rfl, -⟩ := hx
      obtain rfl := Except.ok.inj hvnodes
      exact .same
    | some i =>
      cases hfd : freeDescriptor pr.fileTable with
      | none =>
        simp only [hi, hfd, vfsClose_vfsOpen, bind_eq_ok, pure_eq_ok, Prod.mk.injEq] at hx
        obtain ⟨vnodes, hvnodes, rfl, -⟩ := hx
        obtain rfl := Except.ok.inj hvnodes
        exact .openFails hp hi hfd
      | some fd =>
        simp only [hi, hfd, pure_eq_ok, Prod.mk.injEq] at hx
        obtain ⟨rfl, -⟩ := hx
        exact .opens hp hi hfd

theorem sysClose_effect {fd r : Int} (hx : k.sysClose p fd = .ok (k', r)) :
    KernelEffect k (.sysClose p fd) k' := by
  simp only [sysClose, bind_eq_ok, proc_eq_ok] at hx
  obtain ⟨pr, hp, hx⟩ := hx
  split_ifs at hx with hrange hbehind
  · obtain ⟨rfl, -⟩ := Prod.mk.inj (pure_eq_ok.1 hx)
    exact .same
  · obtain ⟨n, rfl⟩ : ∃ n : Nat, fd = n := ⟨fd.toNat, by omega⟩
    have hlt : n < OPEN_MAX := by omega
    simp only [Int.toNat_natCast] at hx
    cases hi : pr.fileTable n with
    | none =>
      simp only [hi] at hx
      obtain ⟨rfl, -⟩ := Prod.mk.inj (pure_eq_ok.1 hx)
      exact .same
    | some i =>
      simp only [hi] at hx
      by_cases hcount : (k.files i).countRef - 1 > 0
      · rw [if_pos hcount] at hx
        obtain ⟨rfl, -⟩ := Prod.mk.inj (pure_eq_ok.1 hx)
        exact .closes hp hlt hi rfl (if_pos hcount).symm
      · rw [if_neg hcount] at hx
        cases hvn : (k.files i).vn with
        | none =>
          simp only [hvn] at hx
          obtain ⟨rfl, -⟩ := Prod.mk.inj (pure_eq_ok.1 hx)
          exact .closes hp hlt hi rfl (if_neg hcount).symm
        | some v =>
          simp only [hvn, bind_eq_ok, pure_eq_ok, Prod.mk.injEq] at hx
          obtain ⟨vnodes, -, rfl, -⟩ := hx
          exact .closes hp hlt hi rfl (if_neg hcount).symm

/-- The loop of `proc_file_table_copy` copies the entries and counts them. -/
theorem copyDescriptors_fst (src dest : Nat → Option Nat) (files : Nat → Openfile) (n fd : Nat) :
    (copyDescriptors src n (dest, files)).1 fd = if fd < n then src fd else dest fd := by
  induction n with
  | zero => rfl
  | succ n ih =>
    simp only [copyDescriptors, Function.update_apply, ih]
    by_cases hfd : fd = n
    · simp [hfd]
    · have hlt : fd < n + 1 ↔ fd < n := by omega
      simp [hfd, hlt]

theorem copyDescriptors_none (dest : Nat → Option Nat) (files : Nat → Openfile) (n : Nat) :
    (copyDescriptors (fun _ => none) n (dest, files)).2 = files := by
  induction n with
  | zero => rfl
  | succ n ih => exact ih

/-- The table of a new process is empty, so copying it empties the table it is copied to. -/
theorem procFileTableCopy_fresh {psrc pdest : Nat} {src dest : ProcStruct}
    (hsrc : k.procs psrc = some src) (hempty : src.fileTable = fun _ => none)
    (hdest : k.procs pdest = some dest) :
    k.procFileTableCopy psrc pdest =
      .ok (k.setProc pdest { dest with fileTable := cleared dest.fileTable }) := by
  have htable : (copyDescriptors (fun _ => none) OPEN_MAX (dest.fileTable, k.files)).1 =
      cleared dest.fileTable := by
    funext fd
    rw [copyDescriptors_fst]
    rfl
  rw [procFileTableCopy, proc_eq_ok.2 hsrc, proc_eq_ok.2 hdest]
  simp only [bind, Except.bind, hempty, htable, copyDescriptors_none]
  rfl

/-- The kernel behind `proc_file_table_copy` in a fork of `p`. -/
def forked (k : Kernel) (table : ProcessTable) (p newp : Nat) (pr : ProcStruct) (as : AddrSpace) :
    Kernel :=
  ((k.addProc table newp).setProc newp { freshProc k.fresh with p_addrspace := some as }).setProc p
    { pr with fileTable := cleared pr.fileTable }

variable {newp : Nat} {point : ForkPoint} {as as' : AddrSpace} {table : ProcessTable}

theorem forked_child (hnew : NewSlot k newp) (hp : k.procs p = some pr) :
    (k.forked table p newp pr as').procs newp =
      some { freshProc k.fresh with p_addrspace := some as' } := by
  simp [forked, update_of_ne (hnew.ne hp)]

/-- The processes in the end, whatever becomes of the child. -/
theorem forked_update (hnew : NewSlot k newp) (hp : k.procs p = some pr)
    (child : Option ProcStruct) :
    update (k.forked table p newp pr as').procs newp child = update
      (update k.procs p (some { pr with fileTable := cleared pr.fileTable }))
      newp child := by
  simp only [forked, setProc_procs, addProc, update_idem,
    Function.update_comm (hnew.ne hp)]

theorem forkCopied_eq (hnew : NewSlot k newp) (hp : k.procs p = some pr) :
    (k.addProc table newp).forkCopied p newp as' point =
      (k.forked table p newp pr as').forkEnd newp point := by
  have hstart : (k.addProc table newp).proc newp = .ok (freshProc k.fresh) :=
    proc_eq_ok.2 (by simp [addProc])
  have hdest : ((k.addProc table newp).setProc newp
      { freshProc k.fresh with p_addrspace := some as' }).procs p = some pr := by
    simpa [addProc, update_of_ne (hnew.ne hp).symm] using hp
  rw [forkCopied, hstart]
  simp only [bind, Except.bind]
  rw [procFileTableCopy_fresh (update_self ..) rfl hdest]
  rfl

theorem forkEnd_effect {r : Except Errno Nat} (hp : k.procs p = some pr)
    (hpoint : point = .trapframe ∨ point = .threadFork ∨ point = .done)
    (has : pr.p_addrspace = some as) (hcopy : asCopy as = .ok as') (hnew : NewSlot k newp)
    (hslot : k.table.proc newp = none)
    (htable : table.proc = update k.table.proc newp (some newp))
    (hx : (k.forked table p newp pr as').forkEnd newp point = .ok (k', r)) :
    KernelEffect k (.sysFork p point) k' := by
  have hchild : (k.forked table p newp pr as').procs newp =
      some { freshProc k.fresh with p_addrspace := some as' } := forked_child hnew hp
  -- the two ways to fail after the copy are one
  have hfails : (k.forked table p newp pr as').procDestroy newp = .ok k' →
      (point = .trapframe ∨ point = .threadFork) → KernelEffect k (.sysFork p point) k' := by
    intro hd hpoint
    obtain ⟨c, vnodes, table', hc, hvnodes, -, -, htable', rfl⟩ := procDestroy_ok hd
    obtain rfl := Option.some.inj (hchild.symm.trans hc)
    have hproc : table'.proc = k.table.proc := by
      rw [htable']
      simp only [forked, setProc_table, addProc, htable, update_idem,
        update_eq_self_iff, hslot]
    have hback : update (update k.procs p
        (some { pr with fileTable := cleared pr.fileTable })) newp none =
        update k.procs p (some { pr with fileTable := cleared pr.fileTable }) := by
      rw [update_eq_self_iff, update_of_ne (hnew.ne hp), hnew.unused]
    rw [forked_update hnew hp, hback]
    exact .forkFails hp hpoint has hcopy hproc hvnodes
  rcases hpoint with rfl | rfl | rfl
  · obtain ⟨k₃, hd, hret⟩ := bind_eq_ok.1 hx
    obtain ⟨rfl, -⟩ := Prod.mk.inj (pure_eq_ok.1 hret)
    exact hfails hd (.inl rfl)
  · obtain ⟨k₃, hd, hret⟩ := bind_eq_ok.1 hx
    obtain ⟨rfl, -⟩ := Prod.mk.inj (pure_eq_ok.1 hret)
    exact hfails hd (.inr rfl)
  · obtain ⟨c, hc, hret⟩ := bind_eq_ok.1 hx
    obtain rfl := Option.some.inj (hchild.symm.trans (proc_eq_ok.1 hc))
    obtain ⟨rfl, -⟩ := Prod.mk.inj (pure_eq_ok.1 hret)
    simp only [procAddthread, setProc, forked_update hnew hp]
    exact .forks hp has hcopy hnew htable

theorem forkCopy_effect {point : ForkPoint} {r : Except Errno Nat} (h : SlotInv k)
    (hp : k.procs p = some pr)
    (hpoint : point = .trapframe ∨ point = .threadFork ∨ point = .done)
    (hx : k.forkCopy p pr point = .ok (k', r)) : KernelEffect k (.sysFork p point) k' := by
  simp only [forkCopy, bind_eq_ok] at hx
  obtain ⟨⟨k₁, newp⟩, hc, hx⟩ := hx
  obtain ⟨hnew, hslot, table, htable, rfl⟩ := procCreateRunprogram_ok h hc
  cases has : pr.p_addrspace with
  | none =>
    simp only [has] at hx
    exact absurd hx throw_ne_ok
  | some old =>
    simp only [has, bind_eq_ok] at hx
    obtain ⟨as', hcopy, hx⟩ := hx
    rw [forkCopied_eq hnew hp] at hx
    exact forkEnd_effect hp hpoint has hcopy hnew hslot htable hx

theorem sysFork_effect {point : ForkPoint} {r : Except Errno Nat} (h : SlotInv k)
    (hx : k.sysFork p point = .ok (k', r)) : KernelEffect k (.sysFork p point) k' := by
  simp only [sysFork, bind_eq_ok, proc_eq_ok] at hx
  obtain ⟨pr, hp, hx⟩ := hx
  cases point with
  | procCreate =>
    obtain ⟨rfl, -⟩ := Prod.mk.inj (pure_eq_ok.1 hx)
    exact .same
  | asCopy =>
    simp only [bind_eq_ok, pure_eq_ok, Prod.mk.injEq] at hx
    obtain ⟨⟨k₁, newp⟩, hc, k₂, hd, rfl, -⟩ := hx
    obtain ⟨table, htable, rfl⟩ := scrapped h hc hd
    exact .scrap htable
  | trapframe => exact forkCopy_effect h hp (.inl rfl) hx
  | threadFork => exact forkCopy_effect h hp (.inr (.inl rfl)) hx
  | done => exact forkCopy_effect h hp (.inr (.inr rfl)) hx

theorem readfromelfto_effect {fa : VAddr} (hx : k.readfromelfto p fa = .ok k') : k' = k := by
  simp only [readfromelfto, bind_eq_ok, proc_eq_ok] at hx
  obtain ⟨pr, -, hx⟩ := hx
  cases has : pr.p_addrspace with
  | none =>
    simp only [has] at hx
    exact absurd hx throw_ne_ok
  | some as =>
    simp only [has, bind_eq_ok] at hx
    obtain ⟨src, -, hx⟩ := hx
    split at hx
    · exact absurd hx throw_ne_ok
    · exact (pure_eq_ok.1 hx).symm

theorem sysExit_effect {status : UInt32} (hx : k.sysExit p status = .ok k') :
    KernelEffect k (.sysExit p status) k' := by
  simp only [sysExit, bind_eq_ok, proc_eq_ok, kassert_eq_ok, pure_eq_ok] at hx
  obtain ⟨pr, hp, -, hpos, rfl⟩ := hx
  exact .exits hp hpos

theorem sysWaitpid_effect {t : Nat} {pid : Int} (hx : k.sysWaitpid t pid = .ok k') :
    KernelEffect k (.sysWaitpid t pid) k' := by
  simp only [sysWaitpid, bind_eq_ok, kassert_eq_ok] at hx
  obtain ⟨-, ⟨hnonneg, -⟩, hx⟩ := hx
  obtain ⟨n, rfl⟩ : ∃ n : Nat, pid = n := ⟨pid.toNat, by omega⟩
  simp only [Int.toNat_natCast] at hx
  cases hp : k.procs n with
  | none =>
    simp only [hp] at hx
    exact absurd hx throw_ne_ok
  | some pr =>
    simp only [hp, bind_eq_ok, kassert_eq_ok, pure_eq_ok] at hx
    obtain ⟨-, hk, rfl⟩ := hx
    exact .waits hp hk

theorem waited_eq_ok {w : Waiter} :
    k.waited w = .ok pr ↔ k.procs w.pid = some pr ∧ pr.addr = w.addr := by
  simp only [waited, bind_eq_ok, proc_eq_ok]
  constructor
  · rintro ⟨pr', hp, hx⟩
    split at hx
    · next haddr =>
      obtain rfl := pure_eq_ok.1 hx
      exact ⟨hp, haddr⟩
    · exact absurd hx throw_ne_ok
  · rintro ⟨hp, haddr⟩
    exact ⟨pr, hp, by rw [if_pos haddr]; rfl⟩

theorem semP_effect {t : Nat} {w : Waiter} (hw : k.waits t = some w) (hx : k.semP t w = .ok k') :
    KernelEffect k (.semP t) k' := by
  simp only [semP, bind_eq_ok, waited_eq_ok] at hx
  obtain ⟨pr, ⟨hp, haddr⟩, hx⟩ := hx
  split at hx
  · next hzero =>
    obtain rfl := pure_eq_ok.1 hx
    rw [hzero]
    exact .sleeps hw hp haddr hzero
  · next hpos =>
    obtain rfl := pure_eq_ok.1 hx
    exact .takes hw hp haddr (Nat.pos_of_ne_zero hpos)

theorem procWait_effect {t : Nat} {w : Waiter} {status : UInt32} (hw : k.waits t = some w)
    (hx : k.procWait t w = .ok (k', status)) : KernelEffect k (.procWait t) k' := by
  simp only [procWait, bind_eq_ok, waited_eq_ok, pure_eq_ok, Prod.mk.injEq] at hx
  obtain ⟨pr, ⟨hp, haddr⟩, k₁, hd, rfl, -⟩ := hx
  obtain ⟨pr', vnodes, table, hp', hvnodes, hthreads, hchan, htable, rfl⟩ := procDestroy_ok hd
  obtain rfl := Option.some.inj (hp.symm.trans hp')
  exact .reaps hw hp haddr hvnodes hthreads hchan htable

end Kernel

/-! ## Every step -/

variable {k k' : Kernel} {op : KernelOp}

theorem map_fst_eq_ok {α β : Type} {x : Except Crash (α × β)} {a : α}
    (h : (do return (← x).1) = Except.ok a) : ∃ b, x = .ok (a, b) := by
  obtain ⟨⟨a', b⟩, hx, ha⟩ := bind_eq_ok.1 h
  obtain rfl := pure_eq_ok.1 ha
  exact ⟨b, hx⟩

/-- Every operation that returns has one of the effects. -/
theorem kernelStep_effect (h : SlotInv k) (hstep : KernelStep k op k') : KernelEffect k op k' := by
  obtain ⟨hen, hx⟩ := hstep
  cases op with
  | commonProg point =>
    obtain ⟨r, hx⟩ := map_fst_eq_ok hx
    exact Kernel.commonProg_effect h hx
  | runprogram p exe =>
    obtain ⟨r, hx⟩ := map_fst_eq_ok hx
    exact Kernel.runprogram_effect hx
  | sysOpen p opened =>
    obtain ⟨r, hx⟩ := map_fst_eq_ok hx
    exact Kernel.sysOpen_effect hx
  | sysClose p fd =>
    obtain ⟨r, hx⟩ := map_fst_eq_ok hx
    exact Kernel.sysClose_effect hx
  | sysFork p point =>
    obtain ⟨r, hx⟩ := map_fst_eq_ok hx
    exact Kernel.sysFork_effect h hx
  | readfromelfto p fa =>
    obtain rfl := Kernel.readfromelfto_effect hx
    exact .same
  | sysExit p status => exact Kernel.sysExit_effect hx
  | sysWaitpid t pid => exact Kernel.sysWaitpid_effect hx
  | semP t =>
    simp only [Kernel.Enabled, Option.map_eq_some_iff] at hen
    obtain ⟨w, hw, -⟩ := hen
    rw [Kernel.exec, hw] at hx
    exact Kernel.semP_effect hw hx
  | procWait t =>
    simp only [Kernel.Enabled, Option.map_eq_some_iff] at hen
    obtain ⟨w, hw, -⟩ := hen
    rw [Kernel.exec, hw] at hx
    obtain ⟨status, hx⟩ := map_fst_eq_ok hx
    exact Kernel.procWait_effect hw hx

/-- The structure in one slot changes. -/
theorem SlotInv.change {p : Nat} {c : Option ProcStruct} (h : SlotInv k)
    (htable : ∀ i, i ≠ p → k'.table.proc i = k.table.proc i)
    (hprocs : k'.procs = Function.update k.procs p c) (hslot : k'.table.proc p = none → c = none)
    (hrange : ∀ pr, c = some pr → 0 < p ∧ p ≤ MAX_PROC) : SlotInv k' where
  slots := by
    intro i hi
    by_cases hip : i = p
    · rw [hprocs, hip, Function.update_self, hslot (hip ▸ hi)]
    · rw [hprocs, Function.update_of_ne hip, h.slots i ((htable i hip).symm.trans hi)]
  range := by
    intro i pr hi
    by_cases hip : i = p
    · rw [hprocs, hip, Function.update_self] at hi
      exact hip ▸ hrange pr hi
    · rw [hprocs, Function.update_of_ne hip] at hi
      exact h.range i pr hi

theorem SlotInv.update {p : Nat} {pr pr' : ProcStruct} (h : SlotInv k) (hp : k.procs p = some pr)
    (htable : k'.table.proc = k.table.proc)
    (hprocs : k'.procs = Function.update k.procs p (some pr')) : SlotInv k' := by
  refine h.change (fun i _ => by rw [htable]) hprocs (fun hnone => ?_) fun _ _ => h.range p pr hp
  rw [h.slots p (htable ▸ hnone)] at hp
  cases hp

theorem SlotInv.congr (h : SlotInv k) (htable : k'.table.proc = k.table.proc)
    (hprocs : k'.procs = k.procs) : SlotInv k' :=
  ⟨fun i hi => hprocs ▸ h.slots i (htable ▸ hi), fun i pr hi => h.range i pr (hprocs ▸ hi)⟩

theorem SlotInv.add {newp : Nat} {child : ProcStruct} (h : SlotInv k) (hnew : NewSlot k newp)
    (htable : k'.table.proc = Function.update k.table.proc newp (some newp))
    (hprocs : k'.procs = Function.update k.procs newp (some child)) : SlotInv k' := by
  refine h.change (fun i hi => by rw [htable, Function.update_of_ne hi]) hprocs (fun hnone => ?_)
    fun _ _ => ⟨hnew.pos, hnew.le⟩
  rw [htable, Function.update_self] at hnone
  cases hnone

theorem SlotInv.remove {p : Nat} (h : SlotInv k)
    (htable : k'.table.proc = Function.update k.table.proc p none)
    (hprocs : k'.procs = Function.update k.procs p none) : SlotInv k' :=
  h.change (fun i hi => by rw [htable, Function.update_of_ne hi]) hprocs (fun _ => rfl)
    fun _ hpr => by cases hpr

theorem KernelEffect.slotInv (h : SlotInv k) (heff : KernelEffect k op k') : SlotInv k' := by
  cases heff with
  | same => exact h
  | scrap htable => exact h.congr htable rfl
  | launch hnew htable => exact h.add hnew htable rfl
  | noSpace hp _ | loadFails hp _ _ _ | loads hp _ _ _ | opens hp _ _ | closes hp _ _ _ _
  | exits hp _ | sleeps _ hp _ _ | takes _ hp _ _ => exact h.update hp rfl rfl
  | openFails _ _ _ => exact h.congr rfl rfl
  | @forks p newp pr as as' table hp _ _ hnew htable =>
    have hmid : SlotInv (k.setProc p { pr with fileTable := cleared pr.fileTable }) :=
      h.update hp rfl rfl
    have hne : newp ≠ p := hnew.ne hp
    have hnew' : NewSlot (k.setProc p { pr with fileTable := cleared pr.fileTable }) newp :=
      ⟨hnew.pos, hnew.le, by simp [update_of_ne hne, hnew.unused]⟩
    exact hmid.add hnew' htable rfl
  | forkFails hp _ _ _ htable _ => exact h.update hp htable rfl
  | waits _ _ => exact h.congr rfl rfl
  | reaps _ _ _ _ _ _ htable => exact h.remove htable rfl

theorem boot_slotInv : SlotInv Kernel.boot where
  slots := by
    intro i hi
    by_cases hik : i = KPROC
    · rw [hik] at hi
      cases hi
    · simp [Kernel.boot, update_of_ne hik]
  range := by
    intro i pr hi
    by_cases hik : i = KPROC
    · exact hik ▸ by decide
    · rw [Kernel.boot] at hi
      simp only [update_of_ne hik] at hi
      cases hi

theorem reaches_slotInv (h : Reaches KernelStep Kernel.boot k) : SlotInv k :=
  h.invariant (fun _ _ _ hs hstep => (kernelStep_effect hs hstep).slotInv hs) boot_slotInv

end DemandPaging
