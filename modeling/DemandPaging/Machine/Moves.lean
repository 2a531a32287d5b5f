import DemandPaging.Fault.Spec
import DemandPaging.Machine.Invariant

set_option autoImplicit false

/-! # Every action as elementary moves

`FaultMove` and `OtherMove` list the elementary moves of the system: what happens to the page table,
the swap map, RAM and one process, with the facts that hold when it happens. Under the conditions
`Calm` and `Unraced` every action is one such move, or two when a fault is granted a frame and
begins to load it in one go (`exec_moves`). Later invariants are proved move by move. -/

namespace DemandPaging

open Function (update update_self update_of_ne)

/-- The invariant of the whole system, with FIFO queue `q`. -/
abbrev Sys.Inv (s : Sys) (q : List Nat) : Prop := PagingInv s.vm.cm s.vm.swap s.procs q

/-- Moves of a process inside `vm_fault`, from queue to queue, with the TLB entry written. `starved`
    has to hold for the move in which `allocuserpage` finds nothing and returns 0. -/
inductive FaultMove (starved : Prop) (s : Sys) (q : List Nat) :
    Sys → List Nat → Option TlbWrite → Prop
  | hit {pid : Int} {as : AddrSpace} {c : FaultCtx} {f : Nat} {counter : Counters}
      (hp : s.procs pid = some ⟨some as, .user⟩) (hloc : as.locate c.fa = some c)
      (hpage : pageOf c.fa = c.fa) (hm : s.vm.cm.Maps pid c.fa f) :
      FaultMove starved s q
        (s.put (faultEnd { s.vm with counter := counter } pid as c (f * PAGE_SIZE)) pid as .user) q
        (some ⟨pid, c.fa, f * PAGE_SIZE⟩)
  | evictBegin {pid p : Int} {as : AddrSpace} {c : FaultCtx} {w : VAddr} {f slot : Nat}
      {sw : Swapfile} {counter : Counters} (hp : s.procs pid = some ⟨some as, .user⟩)
      (hloc : as.locate c.fa = some c) (hpage : pageOf c.fa = c.fa)
      (hfresh : ∀ g, ¬ s.vm.cm.Maps pid c.fa g) (hhead : q.head? = some f)
      (hm : s.vm.cm.Maps p w f) (hclaim : s.vm.swap.claimSlot p w = some (sw, slot))
      (halone : ∀ pid proc, s.procs pid = some proc → proc.pc.eviction = none)
      (hidle : ¬ Busy s.procs p w) :
      FaultMove starved s q (s.put { s.vm with swap := sw, counter := counter } pid as
        (.evicting c ⟨f, p, w, f * PAGE_SIZE, slot⟩ false)) q none
  | grantFree {pid : Int} {as : AddrSpace} {c : FaultCtx} {i : Nat} {cm' : Coremap}
      {counter : Counters} (hp : s.procs pid = some ⟨some as, .user⟩)
      (hloc : as.locate c.fa = some c) (hpage : pageOf c.fa = c.fa)
      (hfresh : ∀ g, ¬ s.vm.cm.Maps pid c.fa g) (hi : s.vm.cm.FreeFrame i)
      (ht : TableInv cm' (q ++ [i]))
      (hown : cm'.own = update s.vm.cm.own i (pid, c.fa, 1))
      (hs : SameShape s.vm.cm cm') :
      FaultMove starved s q (s.put { s.vm with cm := cm', counter := counter } pid as
        (.granted c (i * PAGE_SIZE))) (q ++ [i]) none
  | grantNone {pid : Int} {as : AddrSpace} {c : FaultCtx} {counter : Counters}
      (hp : s.procs pid = some ⟨some as, .user⟩) (hloc : as.locate c.fa = some c)
      (hpage : pageOf c.fa = c.fa) (hfresh : ∀ g, ¬ s.vm.cm.Maps pid c.fa g) (hnone : starved) :
      FaultMove starved s q (s.put { s.vm with counter := counter } pid as (.granted c 0)) q none
  | evictEnd {pid : Int} {as : AddrSpace} {c : FaultCtx} {ev : Eviction} {cm' : Coremap}
      {q' : List Nat} {counter : Counters} (hp : s.procs pid = some ⟨some as, .evicting c ev true⟩)
      (hq : q = ev.ind :: q') (ht : TableInv cm' (q' ++ [ev.ind]))
      (hown : cm'.own = update s.vm.cm.own ev.ind (pid, c.fa, 1))
      (hs : SameShape s.vm.cm cm') :
      FaultMove starved s q (s.put { s.vm with
          cm := cm'
          tlb := s.vm.tlb.vmtlbInvalidatepage ev.vaddr
          counter := counter } pid as (.granted c (ev.ind * PAGE_SIZE))) (q' ++ [ev.ind]) none
  | loadMissing {pid : Int} {as : AddrSpace} {c : FaultCtx} {r : Nat} {counter : Counters}
      (hp : s.procs pid = some ⟨some as, .granted c r⟩) (hflag : as.flag c = 1)
      (hslot : s.vm.swap.findSlot pid c.fa = none) :
      FaultMove starved s q
        (s.put (faultEnd { s.vm with counter := counter } pid as c r) pid as .user) q
        (some ⟨pid, c.fa, r⟩)
  | loadSwap {pid : Int} {as : AddrSpace} {c : FaultCtx} {r slot : Nat}
      (hp : s.procs pid = some ⟨some as, .granted c r⟩) (hflag : as.flag c = 1)
      (hslot : s.vm.swap.findSlot pid c.fa = some slot) :
      FaultMove starved s q (s.put s.vm pid as (.swapRead c r slot)) q none
  | loadElf {pid : Int} {as : AddrSpace} {c : FaultCtx} {r vnode offset : Nat}
      (hp : s.procs pid = some ⟨some as, .granted c r⟩) (hflag : as.flag c = 0)
      (hstack : as.stackseg c = false) (hsrc : elfSource as c.fa = .ok (vnode, offset)) :
      FaultMove starved s q (s.put s.vm pid as (.elfRead c r vnode offset false)) q none
  | loadZero {pid : Int} {as : AddrSpace} {c : FaultCtx} {r : Nat} {counter : Counters}
      (hp : s.procs pid = some ⟨some as, .granted c r⟩) (hflag : as.flag c = 0)
      (hstack : as.stackseg c = true) :
      FaultMove starved s q (s.put (faultEnd { s.vm with
          ram := update s.vm.ram (r / PAGE_SIZE) fun _ => 0
          counter := counter } pid (as.setLoaded c) c r) pid (as.setLoaded c) .user) q
        (some ⟨pid, c.fa, r⟩)
  | ioEvict {pid : Int} {as : AddrSpace} {c : FaultCtx} {ev : Eviction}
      (hp : s.procs pid = some ⟨some as, .evicting c ev false⟩) :
      FaultMove starved s q (s.put (evictWrite s.vm ev) pid as (.evicting c ev true)) q none
  | ioElf {pid : Int} {as : AddrSpace} {c : FaultCtx} {r vnode offset : Nat}
      (hp : s.procs pid = some ⟨some as, .elfRead c r vnode offset false⟩) :
      FaultMove starved s q (s.put (readfromelfto s.vm (s.files vnode) r offset) pid as
        (.elfRead c r vnode offset true)) q none
  | swapEnd {pid : Int} {as : AddrSpace} {c : FaultCtx} {r slot : Nat} {counter : Counters}
      (hp : s.procs pid = some ⟨some as, .swapRead c r slot⟩) :
      FaultMove starved s q (s.put (faultEnd { s.vm with
          swap := s.vm.swap.releaseSlot slot
          ram := update s.vm.ram (r / PAGE_SIZE) (s.vm.swap.readSlot slot)
          counter := counter } pid as c r) pid as .user) q (some ⟨pid, c.fa, r⟩)
  | elfEnd {pid : Int} {as : AddrSpace} {c : FaultCtx} {r vnode offset : Nat} {counter : Counters}
      (hp : s.procs pid = some ⟨some as, .elfRead c r vnode offset true⟩) :
      FaultMove starved s q (s.put
        (faultEnd { s.vm with counter := counter } pid (as.setLoaded c) c r) pid
        (as.setLoaded c) .user) q (some ⟨pid, c.fa, r⟩)

/-- Moves outside `vm_fault`. -/
inductive OtherMove (s : Sys) (q : List Nat) : Sys → List Nat → Prop
  | stay : OtherMove s q s q
  | exit {pid : Int} {as : AddrSpace} (hp : s.procs pid = some ⟨some as, .user⟩) :
      OtherMove s q { s with
        procs := update s.procs pid (some ⟨some as, .zombie⟩) } q
  | store {pid : Int} {as : Option AddrSpace} {v : VAddr} {f : Nat} {page : Page}
      (hp : s.procs pid = some ⟨as, .user⟩) (hm : s.vm.cm.Maps pid v f)
      (hrace : ∀ pid' as' c ev, s.procs pid' = some ⟨as', .evicting c ev true⟩ →
        ¬ (ev.pid = pid ∧ ev.vaddr = v)) :
      OtherMove s q { s with vm := { s.vm with ram := update s.vm.ram f page } } q
  | reap {pid : Int} {as : AddrSpace} {cm' : Coremap} {q' : List Nat}
      (hp : s.procs pid = some ⟨some as, .zombie⟩)
      (hkept : ∀ pid' proc ev, s.procs pid' = some proc → proc.pc.eviction = some ev →
        ev.pid ≠ pid)
      (ht : TableInv cm' q')
      (hmaps : ∀ p v f, cm'.Maps p v f ↔ s.vm.cm.Maps p v f ∧ p ≠ pid)
      (hhead : ∀ f, q.head? = some f → (s.vm.cm.own f).1 ≠ pid → q'.head? = some f) :
      OtherMove s q { s with
        vm := { s.vm with cm := cm', swap := s.vm.swap.removeswapentries pid }
        procs := update s.procs pid none } q'
  | newProc {pid : Int} {layout : AddrSpace} (hp : s.procs pid = none) (hpos : 0 < pid) :
      OtherMove s q { s with
        procs := update s.procs pid (some ⟨some layout.unloaded, .user⟩) } q
  | kernel {cm' : Coremap} {ram' : Nat → Page} (ht : TableInv cm' q)
      (hmaps : ∀ p v f, cm'.Maps p v f ↔ s.vm.cm.Maps p v f)
      (hram : ∀ f, s.vm.cm.IsUser f → ram' f = s.vm.ram f) :
      OtherMove s q { s with vm := { s.vm with cm := cm', ram := ram' } } q

variable {starved : Prop} {s s' : Sys} {q q' : List Nat} {w : Option TlbWrite}

/-! ## Moves keep the invariant -/

/-- A page whose flag is clear has no slot. -/
theorem PagingInv.no_slot_of_flag (h : s.Inv q) {pid : Int} {as : AddrSpace} {pc : Pc}
    {c : FaultCtx} (hp : s.procs pid = some ⟨some as, pc⟩) (hloc : as.locate c.fa = some c)
    (hflag : as.flag c = 0) (k : Nat) : ¬ s.vm.swap.Holds pid c.fa k := by
  intro hk
  obtain ⟨as₀, pc₀, heq, hl⟩ := h.key_loaded pid c.fa k hk
  rw [hp] at heq
  cases heq
  rw [loadedAt_iff hloc, hflag] at hl
  exact absurd hl (by decide)

/-- A process in user mode moves on without touching memory. -/
theorem PagingInv.leave_user (h : s.Inv q) {pid : Int} {as : AddrSpace} {pc' : Pc}
    (hp : s.procs pid = some ⟨some as, .user⟩) (hev : pc'.eviction = none)
    (hnl : ∀ v, ¬ pc'.Loads v) (hok : PcOk s.vm.cm s.vm.swap q pid as pc') :
    PagingInv s.vm.cm s.vm.swap (update s.procs pid (some ⟨some as, pc'⟩)) q :=
  h.move hp (h.binary hp) (fun _ => id) hok hev (fun v hl => absurd hl (hnl v))
    (fun _ hl => absurd hl Pc.not_loads_user)

theorem FaultMove.inv (h : s.Inv q) (hmove : FaultMove starved s q s' q' w) : s'.Inv q' := by
  cases hmove with
  | hit hp _ _ _ => exact h.leave_user hp rfl (fun v => Pc.not_loads_user) trivial
  | evictBegin hp hloc _ hfresh hhead hm hclaim halone hidle =>
    exact h.claim hp hloc hfresh hhead hm hclaim halone hidle
  | grantFree hp hloc _ hfresh hi ht hown hs => exact h.grantFree hp hloc hfresh hi ht hown hs
  | grantNone hp hloc _ hfresh _ =>
    refine h.move hp (h.binary hp) (fun _ => id) ⟨hloc, .inl rfl⟩ rfl (fun v hl => ?_)
      (fun v hl => absurd hl Pc.not_loads_user)
    obtain rfl := (Pc.loads_of_loading rfl).1 hl
    exact .inr hfresh
  | evictEnd hp _ ht hown hs => exact h.grantEvicted hp ht hown hs
  | @loadMissing pid as c r counter hp hflag hslot =>
    obtain ⟨hloc, -⟩ := h.pc_ok pid as _ hp
    refine h.move hp (h.binary hp) (fun _ => id) trivial rfl
      (fun v hl => absurd hl Pc.not_loads_user) (fun v hl _ => ?_)
    obtain rfl := (Pc.loads_of_loading rfl).1 hl
    exact ⟨(loadedAt_iff hloc).2 hflag, findSlot_none hslot⟩
  | @loadSwap pid as c r slot hp hflag hslot =>
    obtain ⟨hloc, ht⟩ := h.pc_ok pid as _ hp
    refine h.move hp (h.binary hp) (fun _ => id) ⟨hloc, ht, findSlot_some hslot (h.pid_pos hp)⟩
      rfl (fun v hl => .inl ?_) (fun v hl hl' => absurd ?_ hl')
    · exact (Pc.loads_of_loading rfl).2 ((Pc.loads_of_loading rfl).1 hl)
    · exact (Pc.loads_of_loading rfl).2 ((Pc.loads_of_loading rfl).1 hl)
  | @loadElf pid as c r vnode offset hp hflag _ _ =>
    obtain ⟨hloc, ht⟩ := h.pc_ok pid as _ hp
    refine h.move hp (h.binary hp) (fun _ => id) ⟨hloc, ht, h.no_slot_of_flag hp hloc hflag⟩
      rfl (fun v hl => .inl ?_) (fun v hl hl' => absurd ?_ hl')
    · exact (Pc.loads_of_loading rfl).2 ((Pc.loads_of_loading rfl).1 hl)
    · exact (Pc.loads_of_loading rfl).2 ((Pc.loads_of_loading rfl).1 hl)
  | @loadZero pid as c r counter hp hflag _ =>
    obtain ⟨hloc, -⟩ := h.pc_ok pid as _ hp
    refine h.move hp ((h.binary hp).setLoaded hloc) (fun v hl => hl.setLoaded hloc) trivial rfl
      (fun v hl => absurd hl Pc.not_loads_user) (fun v hl _ => ?_)
    obtain rfl := (Pc.loads_of_loading rfl).1 hl
    exact ⟨loadedAt_setLoaded hloc, h.no_slot_of_flag hp hloc hflag⟩
  | @ioEvict pid as c ev hp =>
    have hsame : PagingInv s.vm.cm (evictWrite s.vm ev).swap s.procs q :=
      h.congr_swap (h.bounded.writeSlot ..) (fun p v k => holds_writeSlot ..)
    have hok := hsame.pc_ok pid as _ hp
    exact hsame.move hp (hsame.binary hp) (fun _ => id) hok rfl
      (fun v hl => absurd hl Pc.not_loads_evicting) (fun v hl => absurd hl Pc.not_loads_evicting)
  | @ioElf pid as c r vnode offset hp =>
    have hok := h.pc_ok pid as _ hp
    refine h.move hp (h.binary hp) (fun _ => id) hok rfl
      (fun v hl => .inl ?_) (fun v hl hl' => absurd ?_ hl')
    · exact (Pc.loads_of_loading rfl).2 ((Pc.loads_of_loading rfl).1 hl)
    · exact (Pc.loads_of_loading rfl).2 ((Pc.loads_of_loading rfl).1 hl)
  | swapEnd hp => exact h.release hp
  | @elfEnd pid as c r vnode offset counter hp =>
    obtain ⟨hloc, -, hno⟩ := h.pc_ok pid as _ hp
    refine h.move hp ((h.binary hp).setLoaded hloc) (fun v hl => hl.setLoaded hloc) trivial rfl
      (fun v hl => absurd hl Pc.not_loads_user) (fun v hl _ => ?_)
    obtain rfl := (Pc.loads_of_loading rfl).1 hl
    exact ⟨loadedAt_setLoaded hloc, hno⟩

theorem OtherMove.inv (h : s.Inv q) (hmove : OtherMove s q s' q') : s'.Inv q' := by
  cases hmove with
  | stay => exact h
  | exit hp =>
    exact h.leave_user hp rfl (fun v hl => by obtain ⟨c, r, hl, -⟩ := hl; cases hl) trivial
  | store => exact h
  | reap hp hkept ht hmaps hhead =>
    exact h.reap hp hkept ht (h.bounded.removeswapentries _) hmaps
      (fun p v k => holds_removeswapentries h.bounded p v k) hhead
  | newProc hp hpos => exact h.newProc hp hpos (unloaded_binary _)
  | kernel ht hmaps _ => exact h.congr_table ht hmaps

/-! ## Actions are moves -/

theorem put_put (s : Sys) (vm vm' : Vm) (pid : Int) (as as' : AddrSpace) (pc pc' : Pc) :
    (s.put vm pid as pc).put vm' pid as' pc' = s.put vm' pid as' pc' := by
  simp [Sys.put]

/-- A load does not look at the position recorded for its process. -/
theorem runLoad_put (s : Sys) (vm : Vm) (pid : Int) (as : AddrSpace) (pc : Pc) (c : FaultCtx)
    (r : Nat) : (s.put vm pid as pc).runLoad vm pid as c r = s.runLoad vm pid as c r := by
  unfold Sys.runLoad
  cases loadBegin vm pid as c r with
  | error e => rfl
  | ok lp => cases lp <;> simp [Sys.endFault, put_put]

theorem runLoad_move {pid : Int} {as : AddrSpace} {c : FaultCtx} {r : Nat} (h : s.Inv q)
    (hp : s.procs pid = some ⟨some as, .granted c r⟩)
    (hrun : s.runLoad s.vm pid as c r = .ok (s', w)) : FaultMove starved s q s' q w := by
  unfold Sys.runLoad at hrun
  cases loadBegin_spec (h.binary hp) c r with
  | missing counter hflag hslot heq =>
    rw [heq] at hrun
    cases hrun
    exact .loadMissing hp hflag hslot
  | swap slot hflag hslot heq =>
    rw [heq] at hrun
    cases hrun
    exact .loadSwap hp hflag hslot
  | elf vnode offset hflag hstack hsrc heq =>
    rw [heq] at hrun
    cases hrun
    exact .loadElf hp hflag hstack hsrc
  | elfCrash e _ _ _ heq =>
    rw [heq] at hrun
    cases hrun
  | zero counter hflag hstack heq =>
    rw [heq] at hrun
    cases hrun
    exact .loadZero hp hflag hstack

/-- What an action amounts to: a move outside `vm_fault`, a move inside, or two of these; then the
    second one begins a load, which leaves the page table and the swap file alone. -/
inductive Moves (starved : Prop) (s : Sys) (q : List Nat) (s' : Sys) (q' : List Nat) :
    Option TlbWrite → Prop
  | other (h : OtherMove s q s' q') : Moves starved s q s' q' none
  | one {w : Option TlbWrite} (h : FaultMove starved s q s' q' w) : Moves starved s q s' q' w
  | two {w : Option TlbWrite} (s₁ : Sys) (q₁ : List Nat) (h₁ : FaultMove starved s q s₁ q₁ none)
      (h₂ : FaultMove starved s₁ q₁ s' q' w) (hcm : s'.vm.cm = s₁.vm.cm)
      (hswap : s'.vm.swap = s₁.vm.swap) (hprocs : ∀ p, s'.procs p ≠ none → s₁.procs p ≠ none) :
      Moves starved s q s' q' w

theorem runLoad_vm {vm : Vm} {pid : Int} {as : AddrSpace} {c : FaultCtx} {r : Nat}
    (hbin : as.Binary) (hrun : s.runLoad vm pid as c r = .ok (s', w)) :
    s'.vm.cm = vm.cm ∧ s'.vm.swap = vm.swap ∧
      ∃ proc, s'.procs = update s.procs pid (some proc) := by
  unfold Sys.runLoad at hrun
  cases loadBegin_spec hbin c r with
  | missing counter _ _ heq | swap slot _ _ heq | elf vnode offset _ _ _ heq
  | zero counter _ _ heq =>
    rw [heq] at hrun
    cases hrun
    exact ⟨rfl, rfl, _, rfl⟩
  | elfCrash e _ _ _ heq =>
    rw [heq] at hrun
    cases hrun

/-- A process is granted a frame and goes on to load it. -/
theorem moves_of_granted {vm : Vm} {pid : Int} {as : AddrSpace} {c : FaultCtx} {r : Nat}
    {q₁ : List Nat} (h : s.Inv q)
    (h₁ : FaultMove starved s q (s.put vm pid as (.granted c r)) q₁ none)
    (hrun : s.runLoad vm pid as c r = .ok (s', w)) : Moves starved s q s' q₁ w := by
  have hinv := h₁.inv h
  have hp : (s.put vm pid as (.granted c r)).procs pid = some ⟨some as, .granted c r⟩ :=
    update_self ..
  obtain ⟨hcm, hswap, proc, hprocs⟩ := runLoad_vm (hinv.binary hp) hrun
  refine .two _ q₁ h₁ (runLoad_move hinv hp ((runLoad_put ..).trans hrun)) hcm hswap ?_
  intro p hne
  by_cases hpp : p = pid
  · rw [hpp, hp]
    exact Option.some_ne_none _
  · rw [hprocs, update_of_ne hpp] at hne
    show update s.procs pid _ p ≠ none
    rw [update_of_ne hpp]
    exact hne

theorem execFault_moves {a : Action} {pid : Int} {as : AddrSpace} {c : FaultCtx} (h : s.Inv q)
    (hc : Calm s a) (hp : s.procs pid = some ⟨some as, .user⟩) (hloc : as.locate c.fa = some c)
    (hpage : pageOf c.fa = c.fa)
    (hpoint : ∀ fp, faultBegin s.vm pid c.fa = .ok fp → s.faultPoint a = some fp)
    (hexec : s.execFault pid as c = .ok (s', w)) :
    ∃ q', Moves (¬ Granted s a) s q s' q' w := by
  unfold Sys.execFault at hexec
  cases faultBegin_spec h.table (h.pid_pos hp) with
  | hit f counter hm heq =>
    rw [heq] at hexec
    cases hexec
    exact ⟨q, .one (.hit hp hloc hpage hm)⟩
  | free i cm' counter hfresh hi heq hinv hown hs _ =>
    rw [heq] at hexec
    exact ⟨_, moves_of_granted h (.grantFree hp hloc hpage hfresh hi hinv hown hs) hexec⟩
  | exhausted counter hfresh _ _ heq =>
    rw [heq] at hexec
    have hstarved : ¬ Granted s a := fun hg => hg _ (hpoint _ heq)
    exact ⟨_, moves_of_granted h (.grantNone hp hloc hpage hfresh hstarved) hexec⟩
  | evict f q' p w' sw slot counter hfresh _ hq hm hclaim heq =>
    rw [heq] at hexec
    cases hexec
    have hev := hpoint _ heq
    refine ⟨q, .one (.evictBegin hp hloc hpage hfresh (by rw [hq]; rfl) hm hclaim
      (hc.alone _ _ hev) ?_)⟩
    rintro ⟨proc, hproc, c', r, hl, hw⟩
    exact hc.loaded _ _ hev proc hproc c' r hl hw
  | swapFull f q' p w' _ _ _ _ _ heq =>
    rw [heq] at hexec
    cases hexec

theorem execExit_move (h : s.Inv q) (pid : Int) : OtherMove s q (s.execExit pid) q := by
  unfold Sys.execExit
  split
  · next as hp =>
    obtain ⟨-, as₀, has, -⟩ := h.live pid _ hp
    cases has
    exact .exit hp
  · exact .stay

theorem execIo_moves (pid : Int) : Moves starved s q (s.execIo pid) q none := by
  unfold Sys.execIo
  split
  · next as c ev hp => exact .one (.ioEvict hp)
  · next as c r vnode offset hp => exact .one (.ioElf hp)
  · exact .other .stay

theorem execResume_moves {pid : Int} (h : s.Inv q) (hexec : s.execResume pid = .ok (s', w)) :
    ∃ q', Moves starved s q s' q' w := by
  unfold Sys.execResume at hexec
  split at hexec
  · next as c ev hp =>
    obtain ⟨-, hfresh, hhead, hm, -, -⟩ := h.pc_ok pid as _ hp
    obtain ⟨q', rfl⟩ := List.head?_eq_some_iff.1 hhead
    obtain ⟨cm', hfin, hinv, hown, hs⟩ :=
      allocuserpageFinish_spec h.table (h.pid_pos hp) hfresh
    rw [hfin] at hexec
    have hv : (s.vm.cm.pt ev.ind).vaddr = ev.vaddr := hm.2.2
    rw [hv] at hexec
    exact ⟨_, moves_of_granted h (.evictEnd hp rfl hinv hown hs) hexec⟩
  · next as c r slot hp =>
    cases hexec
    exact ⟨q, .one (.swapEnd hp)⟩
  · next as c r vnode offset hp =>
    cases hexec
    exact ⟨q, .one (.elfEnd hp)⟩
  · cases hexec
    exact ⟨q, .other .stay⟩

/-- A store does nothing, or it changes the frame of a resident page of its process. -/
theorem execStore_cases (h : s.Inv q) (pid : Int) (addr : VAddr) (b : UInt8) :
    s.execStore pid addr b = s ∨ ∃ as f page, s.procs pid = some ⟨as, .user⟩ ∧
      s.vm.cm.Maps pid (pageOf addr) f ∧ s.execStore pid addr b =
        { s with vm := { s.vm with ram := update s.vm.ram f page } } := by
  unfold Sys.execStore
  split
  · next as paddr hp hpa =>
    split
    · exact .inl rfl
    · next hne =>
      have hres : ∃ f, s.vm.cm.Maps pid (pageOf addr) f := by
        by_contra hno
        rw [h.table.pageaddr_eq_zero.2 (fun g hg => hno ⟨g, hg⟩)] at hpa
        exact hne (Except.ok.inj hpa).symm
      obtain ⟨f, hm⟩ := hres
      have hframe : paddr / PAGE_SIZE = f := by
        rw [pageaddr, if_neg (by rw [h.table.isAct]; decide),
          h.table.getpageaddr_maps hm] at hpa
        rw [← Except.ok.inj hpa]
        exact Nat.mul_div_cancel f (by decide)
      dsimp only [Vm.setFrame]
      rw [hframe]
      exact .inr ⟨as, f, _, hp, hm, rfl⟩
  · exact .inl rfl

theorem execStore_move {pid : Int} {addr : VAddr} {b : UInt8} (h : s.Inv q)
    (hu : Unraced s (.store pid addr b)) : OtherMove s q (s.execStore pid addr b) q := by
  rcases execStore_cases h pid addr b with heq | ⟨as, f, page, hp, hm, heq⟩
  · rw [heq]
    exact .stay
  · rw [heq]
    exact .store hp hm (hu pid addr b rfl)

theorem execReap_move {pid : Int} (h : s.Inv q) (hc : Calm s (.reap pid))
    (hexec : s.execReap pid = .ok s') : ∃ q', OtherMove s q s' q' := by
  unfold Sys.execReap at hexec
  split at hexec
  · next as hp =>
    unfold asDestroy at hexec
    split at hexec
    · next heq => cases hexec
    · next vm heq =>
      split at heq
      · obtain ⟨cm', hrem, hinv, hs, hown⟩ := removeptentries_spec h.table (h.pid_pos hp)
        rw [hrem] at heq
        obtain rfl := Except.ok.inj heq
        obtain rfl := Except.ok.inj hexec
        refine ⟨_, .reap hp (hc.kept pid rfl) hinv (maps_removeptentries hs hown) ?_⟩
        intro f hf hne
        cases q with
        | nil => cases hf
        | cons g q' =>
          cases hf
          rw [List.filter_cons_of_pos (by simpa using hne)]
          rfl
      · cases heq
  · obtain rfl := Except.ok.inj hexec
    exact ⟨q, .stay⟩

theorem execNewProc_move (pid : Int) (layout : AddrSpace) :
    OtherMove s q (s.execNewProc pid layout) q := by
  unfold Sys.execNewProc
  split
  · next hcond => exact .newProc (Option.isNone_iff_eq_none.1 hcond.2) hcond.1
  · exact .stay

/-- Writing a kernel or free entry over an entry that is not a user's moves no user page. -/
theorem maps_update_other {cm cm' : Coremap} {i : Nat} {x : Int × VAddr × Nat}
    (hown : cm'.own = update cm.own i x) (hsize : cm'.ptsize = cm.ptsize)
    (hx : ¬ 0 < x.1) (hi : ¬ cm.IsUser i) (p : Int) (v : VAddr) (f : Nat) :
    cm'.Maps p v f ↔ cm.Maps p v f := by
  rw [maps_of_own_update hown hsize]
  constructor
  · intro hm
    rcases hm with ⟨-, hm⟩ | ⟨-, -, hpos, -⟩
    · exact hm
    · exact absurd hpos hx
  · intro hm
    refine .inl ⟨?_, hm⟩
    intro heq
    exact hi (heq ▸ hm.1)

theorem execKalloc_move {n : Nat} (h : s.Inv q)
    (hfound : getfreeframes s.vm.cm.pt s.vm.cm.ptsize n ≠ -1) :
    OtherMove s q { s with vm := (getfreeppages s.vm n).vm } q := by
  rcases Nat.eq_zero_or_pos n with rfl | hn
  · exact absurd (getfreeframes_zero s.vm.cm) hfound
  rcases getfreeframes_spec h.table.extents hn with ⟨i, -, hrun, -⟩ | ⟨hno, -⟩
  · obtain ⟨i, e, hfree, -, he, heq, hinv⟩ := getfreeppages_found h.table hn ⟨i, hrun⟩
    rw [heq]
    refine .kernel hinv (maps_update_other (own_setEntry ..) rfl ?_ ?_) (fun f _ => rfl)
    · rw [he]
      exact lt_irrefl 0
    · exact (hfree i le_rfl (by omega)).2.1
  · exact absurd hno hfound

theorem execKfree_move {i : Nat} (h : s.Inv q) (hexec : s.execKfree i = .ok s') :
    OtherMove s q s' q := by
  unfold Sys.execKfree at hexec
  split at hexec
  · next hcond =>
    obtain ⟨h0, hi, hz⟩ := hcond
    obtain ⟨cm', hfree, hinv, hs, hown⟩ := freeKpages_spec h.table hi hz h0
    rw [hfree] at hexec
    obtain rfl := Except.ok.inj hexec
    refine .kernel hinv (maps_update_other hown hs.ptsize (by simp) ?_) (fun f _ => rfl)
    intro hu
    have hpos := hu.2
    have hz' : (s.vm.cm.own i).1 = 0 := hz
    omega
  · obtain rfl := Except.ok.inj hexec
    exact .stay

theorem execKstore_move (h : s.Inv q) (i k : Nat) (page : Page) :
    OtherMove s q (s.execKstore i k page) q := by
  unfold Sys.execKstore
  split
  · next hcond =>
    refine .kernel h.table (fun _ _ _ => Iff.rfl) (fun f hu => ?_)
    refine update_of_ne ?_ _ _
    intro hfk
    rw [hfk] at hu
    exact h.table.extents.not_extentOf_user hu hcond
  · exact .stay

/-- The actions that run a part of `vm_fault`. -/
def Action.inFault : Action → Bool
  | .fault _ _ _ => true
  | .io _ => true
  | .resume _ => true
  | _ => false

/-- Every other action is one move outside `vm_fault`. -/
theorem exec_otherMove {a : Action} (h : s.Inv q) (hc : Calm s a) (hu : Unraced s a)
    (hout : a.inFault = false) (hexec : s.exec a = .ok (s', w)) :
    w = none ∧ ∃ q', OtherMove s q s' q' := by
  cases a with
  | fault pid t addr => cases hout
  | io pid => cases hout
  | resume pid => cases hout
  | store pid addr b =>
    cases hexec
    exact ⟨rfl, q, execStore_move h hu⟩
  | exit pid =>
    cases hexec
    exact ⟨rfl, q, execExit_move h pid⟩
  | reap pid =>
    simp only [Sys.exec] at hexec
    cases hreap : s.execReap pid with
    | error e => rw [hreap] at hexec; cases hexec
    | ok s₁ =>
      rw [hreap] at hexec
      cases hexec
      exact ⟨rfl, execReap_move h hc hreap⟩
  | newProc pid layout =>
    cases hexec
    exact ⟨rfl, q, execNewProc_move pid layout⟩
  | kalloc n =>
    simp only [Sys.exec] at hexec
    split at hexec
    · cases hexec
      exact ⟨rfl, q, .stay⟩
    · next hfound =>
      cases hexec
      exact ⟨rfl, q, execKalloc_move h hfound⟩
  | kfree i =>
    simp only [Sys.exec] at hexec
    cases hfree : s.execKfree i with
    | error e => rw [hfree] at hexec; cases hexec
    | ok s₁ =>
      rw [hfree] at hexec
      cases hexec
      exact ⟨rfl, q, execKfree_move h hfree⟩
  | kstore i k page =>
    cases hexec
    exact ⟨rfl, q, execKstore_move h i k page⟩

theorem execFault_entry_moves {pid : Int} {t : FaultType} {addr : VAddr} (h : s.Inv q)
    (hc : Calm s (.fault pid t addr)) (hexec : s.exec (.fault pid t addr) = .ok (s', w)) :
    ∃ q', Moves (¬ Granted s (.fault pid t addr)) s q s' q' w := by
  simp only [Sys.exec] at hexec
  split at hexec
  · next as hp =>
    split at hexec
    · cases hexec
    · cases hexec
      exact ⟨q, .other (execExit_move h pid)⟩
    · cases hexec
      exact ⟨q, .other .stay⟩
    · next as' c hentry =>
      obtain ⟨rfl, hloc, hpage, -⟩ := faultEntry_page hentry
      refine execFault_moves h hc hp hloc hpage (fun fp hfp => ?_) hexec
      simp [Sys.faultPoint, hp, hentry, hfp, Except.toOption]
  · cases hexec
    exact ⟨q, .other .stay⟩

/-- Every action under the two conditions is one or two elementary moves. -/
theorem exec_moves {a : Action} (h : s.Inv q) (hc : Calm s a) (hu : Unraced s a)
    (hexec : s.exec a = .ok (s', w)) : ∃ q', Moves (¬ Granted s a) s q s' q' w := by
  cases hin : a.inFault with
  | false =>
    obtain ⟨rfl, q', hmove⟩ := exec_otherMove h hc hu hin hexec
    exact ⟨q', .other hmove⟩
  | true =>
    cases a with
    | fault pid t addr => exact execFault_entry_moves h hc hexec
    | io pid =>
      cases hexec
      exact ⟨q, execIo_moves pid⟩
    | resume pid => exact execResume_moves h hexec
    | _ => cases hin

theorem Moves.inv (h : s.Inv q) (hm : Moves starved s q s' q' w) : s'.Inv q' := by
  cases hm with
  | other h₁ => exact h₁.inv h
  | one h₁ => exact h₁.inv h
  | two s₁ q₁ h₁ h₂ _ _ _ => exact h₂.inv (h₁.inv h)

end DemandPaging
