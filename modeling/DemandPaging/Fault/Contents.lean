import DemandPaging.Fault.Spec

set_option autoImplicit false

/-! # The frame a fault maps, and its bytes

A fault on a page that is not resident takes the lowest free frame, or else the victim's. The load
then overwrites it, but a read that ends at the end of the executable leaves the rest as it was:
`loadedPage` is a function of the bytes the frame held before. -/

namespace DemandPaging

open Function (update update_self update_eq_self)

/-- The bytes the first load of a page leaves in a frame that held `old`. -/
def firstPage (files : Nat → List UInt8) (as : AddrSpace) (c : FaultCtx) (old : Page) :
    Except Crash Page :=
  if as.stackseg c then .ok fun _ => 0
  else
    match elfSource as c.fa with
    | .error e => .error e
    | .ok (vnode, offset) => .ok (readInto (files vnode) offset old)

/-- The bytes any load of a page leaves there. -/
def loadedPage (files : Nat → List UInt8) (sw : Swapfile) (pid : Int) (as : AddrSpace)
    (c : FaultCtx) (old : Page) : Except Crash Page :=
  if as.flag c = 1 then
    match sw.findSlot pid c.fa with
    | none => .ok old
    | some slot => .ok (sw.readSlot slot)
  else firstPage files as c old

/-- The frame a page that is not resident gets: the lowest free one, or the head of the victims'
    queue if there is none and the victim can be written out. -/
def Vm.Obtains (vm : Vm) (f : Nat) : Prop :=
  (vm.cm.FreeFrame f ∧ ∀ k < f, ¬ vm.cm.FreeFrame k) ∨
  ((∀ k, ¬ vm.cm.FreeFrame k) ∧ vm.cm.firstvictim = some f ∧
    ∃ k < SWAPPAGES, (vm.swap.swappagesmap k).pid = -1)

/-- The call returns 0 and leaves the page in a frame that has these bytes. -/
def FaultGives (files : Nat → List UInt8) (vm : Vm) (pid : Int) (as : AddrSpace) (ty : FaultType)
    (addr : VAddr) (page : Page) : Prop :=
  ∃ vm' as' f, vmFault files vm pid (some as) ty addr = .ok (vm', some as', .returned none) ∧
    vm'.cm.Maps pid (pageOf addr) f ∧ vm'.ram f = page

/-- The physical address `vm_fault` maps. -/
def faultPaddr (vm : Vm) (pid : Int) (fa : VAddr) : Except Crash Nat :=
  match faultBegin vm pid fa with
  | .error e => .error e
  | .ok (.mapped _ paddr) => .ok paddr
  | .ok (.granted _ respaddr) => .ok respaddr
  | .ok (.evicting _ ev) => .ok (ev.ind * PAGE_SIZE)

variable {files : Nat → List UInt8} {vm : Vm} {q : List Nat} {pid : Int} {as : AddrSpace}
  {c : FaultCtx} {sw : Swapfile} {v : VAddr}

theorem Vm.Obtains.unique {f g : Nat} (hf : vm.Obtains f) (hg : vm.Obtains g) : f = g := by
  rcases hf with ⟨hff, hfl⟩ | ⟨hno, hfv, -⟩
  · rcases hg with ⟨hgf, hgl⟩ | ⟨hno, -, -⟩
    · have h1 : ¬ f < g := fun h => hgl f h hff
      have h2 : ¬ g < f := fun h => hfl g h hgf
      omega
    · exact absurd hff (hno f)
  · rcases hg with ⟨hgf, -⟩ | ⟨-, hgv, -⟩
    · exact absurd hgf (hno g)
    · rw [hfv] at hgv
      exact Option.some.inj hgv

/-- What the first-fit scan finds is what the page gets. -/
theorem obtains_of_getfreeframes {i : Nat} (h : TableInv vm.cm q)
    (hi : getfreeframes vm.cm.pt vm.cm.ptsize 1 = i) : vm.Obtains i := by
  rcases getfreeframes_spec h.extents Nat.zero_lt_one with ⟨j, hj, hrun, hleast⟩ | ⟨hnone, -⟩
  · obtain rfl : i = j := by omega
    exact .inl ⟨runFree_one.1 hrun, fun k hk hf => hleast k hk (runFree_one.2 hf)⟩
  · omega

/-! ## Where first loads read -/

/-- The program segments read from `vnode`, and the stack is marked as such. -/
structure AddrSpace.Backed (as : AddrSpace) (vnode : Nat) : Prop where
  data : ∀ s, as.seg1 = some s ∨ as.seg2 = some s → s.elfdata = some vnode
  stack : ∀ s, as.segstack = some s → s.stackseg = true

/-- Where `vm_fault` finds a page of the program, `readfromelfto` finds one of its segments. -/
theorem AddrSpace.Backed.elfSource_ok {vnode : Nat} (h : as.Backed vnode)
    (hloc : as.locate v = some c) (hstack : as.stackseg c = false) :
    ∃ offset, elfSource as v = .ok (vnode, offset) := by
  obtain ⟨-, -, s1, s2, st, h1, h2, hst, hsel⟩ := locate_some hloc
  have hfound : elfSegment s1 s2 st v = some s1 ∨ elfSegment s1 s2 st v = some s2 := by
    unfold selectSegment at hsel
    unfold elfSegment
    split_ifs at hsel with ht1 ht2 ht3
    · have hle : v ≤ s1.numpages * PAGE_SIZE32 + s1.startaddr := by
        rw [UInt32.add_comm]
        exact UInt32.le_of_lt ht1.2
      exact .inl (if_pos ⟨ht1.1, hle⟩)
    · have hle : v ≤ s2.numpages * PAGE_SIZE32 + s2.startaddr := by
        rw [UInt32.add_comm]
        exact UInt32.le_of_lt ht2.2
      -- the bound of the first test is inclusive here, so it may catch the page as well
      by_cases hs1 : s1.startaddr ≤ v ∧ v ≤ s1.numpages * PAGE_SIZE32 + s1.startaddr
      · exact .inl (if_pos hs1)
      · rw [if_neg hs1]
        exact .inr (if_pos ⟨ht2.1, hle⟩)
    · simp only [Option.some.injEq, Prod.mk.injEq] at hsel
      have hseg : as.seg c.seg = some st := by rw [← hsel.1]; exact hst
      simp only [AddrSpace.stackseg, hseg, h.stack st hst, Bool.true_eq_false] at hstack
  rcases hfound with hf | hf
  · exact ⟨s1.fileOffset v, by simp only [elfSource, h1, h2, hst, hf, h.data s1 (.inl h1)]⟩
  · exact ⟨s2.fileOffset v, by simp only [elfSource, h1, h2, hst, hf, h.data s2 (.inr h2)]⟩

/-- Whether a load crashes does not depend on the frame. -/
theorem loadedPage_error {old : Page} {e : Crash} (h : loadedPage files sw pid as c old = .error e)
    (old' : Page) : loadedPage files sw pid as c old' = .error e := by
  unfold loadedPage at h ⊢
  split
  · next hflag =>
    rw [if_pos hflag] at h
    cases hslot : sw.findSlot pid c.fa <;> simp [hslot] at h
  · next hflag =>
    rw [if_neg hflag] at h
    unfold firstPage at h ⊢
    split
    · next hstack => simp [hstack] at h
    · next hstack =>
      rw [if_neg hstack] at h
      cases hsrc : elfSource as c.fa with
      | error e' => simpa [hsrc] using h
      | ok src => simp [hsrc] at h

/-- A load overwrites its frame, or stops as `readfromelfto` does. -/
inductive LoadContents (files : Nat → List UInt8) (vm : Vm) (pid : Int) (as : AddrSpace)
    (c : FaultCtx) (r : Nat) : Prop
  | done (page : Page) (vm' : Vm) (as' : AddrSpace)
      (hpage : loadedPage files vm.swap pid as c (vm.frame r) = .ok page)
      (heq : loadPage files vm pid as c r = .ok (vm', as')) (hcm : vm'.cm = vm.cm)
      (hram : vm'.ram = update vm.ram (r / PAGE_SIZE) page)
  | crash (e : Crash) (hpage : loadedPage files vm.swap pid as c (vm.frame r) = .error e)
      (heq : loadPage files vm pid as c r = .error e)

theorem loadPage_contents (hbin : as.Binary) (c : FaultCtx) (r : Nat) :
    LoadContents files vm pid as c r := by
  have hbegin : LoadBegins vm pid as c r := loadBegin_spec hbin c r
  cases hbegin with
  | missing counter hflag hslot heq =>
    have hload : loadPage files vm pid as c r
        = .ok (faultEnd { vm with counter := counter } pid as c r, as) := by
      simp only [loadPage, heq]
    refine .done (vm.frame r) _ _ ?_ hload rfl (update_eq_self ..).symm
    simp [loadedPage, hflag, hslot]
  | swap slot hflag hslot heq =>
    have hload : loadPage files vm pid as c r
        = .ok (faultEnd (swapoutpageEnd vm r slot) pid as c r, as) := by
      simp only [loadPage, heq]
    refine .done (vm.swap.readSlot slot) _ _ ?_ hload rfl rfl
    simp [loadedPage, hflag, hslot]
  | elf vnode offset hflag hstack hsrc heq =>
    have hload : loadPage files vm pid as c r
        = .ok (faultEnd (elfCounters (readfromelfto vm (files vnode) r offset)) pid
            (as.setLoaded c) c r, as.setLoaded c) := by
      simp only [loadPage, heq]
    refine .done (readInto (files vnode) offset (vm.frame r)) _ _ ?_ hload rfl rfl
    simp [loadedPage, firstPage, hflag, hstack, hsrc]
  | elfCrash e hflag hstack hsrc heq =>
    refine .crash e ?_ (by simp only [loadPage, heq])
    simp [loadedPage, firstPage, hflag, hstack, hsrc]
  | zero counter hflag hstack heq =>
    have hload : loadPage files vm pid as c r
        = .ok (faultEnd { vm with
            ram := update vm.ram (r / PAGE_SIZE) fun _ => 0, counter := counter }
            pid (as.setLoaded c) c r, as.setLoaded c) := by
      simp only [loadPage, heq]
    refine .done (fun _ => 0) _ _ ?_ hload rfl rfl
    simp [loadedPage, firstPage, hflag, hstack]

/-! ## An eviction in between -/

theorem findSlot_claimSlot {sw' : Swapfile} {p : Int} {w : VAddr} {k : Nat}
    (h : sw.claimSlot p w = some (sw', k)) (hpid : 0 < pid) (hne : ¬ (p = pid ∧ w = v)) :
    sw'.findSlot pid v = sw.findSlot pid v := by
  unfold Swapfile.claimSlot at h
  cases hs : search (fun i => (sw.swappagesmap i).pid == -1) SWAPPAGES with
  | none => simp [hs] at h
  | some i =>
    simp only [hs, Option.some.injEq, Prod.mk.injEq] at h
    obtain ⟨rfl, rfl⟩ := h
    have hfree : (sw.swappagesmap i).pid = -1 := by simpa using (search_some hs).2.1
    unfold Swapfile.findSlot
    congr 1
    funext j
    by_cases hj : j = i
    · subst hj
      have hold : ((sw.swappagesmap j).pid == pid) = false := by
        rw [hfree]
        exact beq_false_of_ne (by omega)
      simp only [update_self, hold, Bool.false_and]
      exact Bool.eq_false_iff.2 (by simpa using hne)
    · simp [hj]

/-- The victim's slot is not the one the load reads. -/
theorem loadedPage_evicted {sw' : Swapfile} {p : Int} {w : VAddr} {k : Nat} {page : Page}
    (h : sw.claimSlot p w = some (sw', k)) (hp : 0 < p) (hpid : 0 < pid)
    (hne : ¬ (p = pid ∧ w = c.fa)) (old : Page) :
    loadedPage files (sw'.writeSlot k page) pid as c old = loadedPage files sw pid as c old := by
  obtain ⟨-, hfree, -, hfile⟩ := claimSlot_spec h hp
  have hfind : (sw'.writeSlot k page).findSlot pid c.fa = sw.findSlot pid c.fa := by
    rw [← findSlot_claimSlot h hpid hne]
    rfl
  unfold loadedPage
  rw [hfind]
  cases hslot : sw.findSlot pid c.fa with
  | none => rfl
  | some slot =>
    have hslot_ne : slot ≠ k := by
      rintro rfl
      exact hfree pid c.fa (findSlot_some hslot hpid)
    have hread : (sw'.writeSlot k page).readSlot slot = sw.readSlot slot := by
      rw [readSlot_writeSlot, if_neg hslot_ne]
      unfold Swapfile.readSlot
      rw [hfile]
    simp only [hread]

/-! ## A whole call -/

/-- What a fault on page `c.fa` does to the frames. -/
inductive FaultContents (files : Nat → List UInt8) (vm : Vm) (pid : Int) (as : AddrSpace)
    (c : FaultCtx) : Prop
  | hit (f : Nat) (vm' : Vm) (hm : vm.cm.Maps pid c.fa f)
      (haddr : faultPaddr vm pid c.fa = .ok (f * PAGE_SIZE))
      (heq : faultPage files vm pid as c = .ok (vm', as)) (hcm : vm'.cm = vm.cm)
      (hram : vm'.ram = vm.ram)
  | loaded (f : Nat) (page : Page) (vm' : Vm) (as' : AddrSpace)
      (hfresh : ∀ g, ¬ vm.cm.Maps pid c.fa g) (hobt : vm.Obtains f)
      (hpage : loadedPage files vm.swap pid as c (vm.ram f) = .ok page)
      (haddr : faultPaddr vm pid c.fa = .ok (f * PAGE_SIZE))
      (heq : faultPage files vm pid as c = .ok (vm', as'))
      (hm : ∀ g, vm'.cm.Maps pid c.fa g ↔ g = f)
      (hram : vm'.ram = update vm.ram f page)
  -- `allocuserpage` returns 0, and the load goes to frame 0, which stays the kernel's
  | unplaced (page : Page) (vm' : Vm) (as' : AddrSpace)
      (hfresh : ∀ g, ¬ vm.cm.Maps pid c.fa g) (hno : ∀ f, ¬ vm.Obtains f)
      (hpage : loadedPage files vm.swap pid as c (vm.ram 0) = .ok page)
      (haddr : faultPaddr vm pid c.fa = .ok 0)
      (heq : faultPage files vm pid as c = .ok (vm', as')) (hcm : vm'.cm = vm.cm)
      (hram : vm'.ram = update vm.ram 0 page)
  | swapFull (hfresh : ∀ g, ¬ vm.cm.Maps pid c.fa g) (hno : ∀ f, ¬ vm.Obtains f)
      (haddr : faultPaddr vm pid c.fa = .error (.panic swapFullMsg))
      (heq : faultPage files vm pid as c = .error (.panic swapFullMsg))
  | crash (old : Page) (e : Crash) (hfresh : ∀ g, ¬ vm.cm.Maps pid c.fa g)
      (haddr : (∃ f, vm.Obtains f ∧ faultPaddr vm pid c.fa = .ok (f * PAGE_SIZE)) ∨
        ((∀ f, ¬ vm.Obtains f) ∧ faultPaddr vm pid c.fa = .ok 0))
      (hpage : loadedPage files vm.swap pid as c old = .error e)
      (heq : faultPage files vm pid as c = .error e)

theorem claimSlot_eq_none_iff_full {p : Int} {w : VAddr} : sw.claimSlot p w = none ↔
    ¬ ∃ k < SWAPPAGES, (sw.swappagesmap k).pid = -1 := by
  rw [claimSlot_eq_none]
  push Not
  rfl

/-- A page that was not resident is in the frame it has been granted, and in no other. -/
theorem maps_granted {cm cm' : Coremap} {n f : Nat}
    (hown : cm'.own = update cm.own f (pid, v, n)) (hsize : cm'.ptsize = cm.ptsize)
    (hf : f < cm.ptsize) (hpid : 0 < pid) (hfresh : ∀ g, ¬ cm.Maps pid v g) (g : Nat) :
    cm'.Maps pid v g ↔ g = f := by
  rw [maps_update_user hown hsize hf hpid]
  constructor
  · rintro (⟨-, hg⟩ | ⟨hg, -, -⟩)
    · exact absurd hg (hfresh g)
    · exact hg
  · intro hg
    exact .inr ⟨hg, rfl, rfl⟩

/-- After an eviction, the load into the frame of the victim is left. -/
theorem faultPage_evicts {g slot : Nat} {q' : List Nat} {p : Int} {w : VAddr} {sw : Swapfile}
    {counter : Counters} (h : TableInv vm.cm (g :: q')) (hp : 0 < pid)
    (hfresh : ∀ f, ¬ vm.cm.Maps pid c.fa f)
    (heq : faultBegin vm pid c.fa = .ok (.evicting { vm with swap := sw, counter := counter }
      ⟨g, p, w, g * PAGE_SIZE, slot⟩)) :
    ∃ cm', TableInv cm' (q' ++ [g]) ∧
      cm'.own = update vm.cm.own g (pid, c.fa, 1) ∧ SameShape vm.cm cm' ∧
      faultPage files vm pid as c = loadPage files
        { evictWrite { vm with swap := sw, counter := counter } ⟨g, p, w, g * PAGE_SIZE, slot⟩ with
          cm := cm'
          tlb := vm.tlb.vmtlbInvalidatepage (vm.cm.pt g).vaddr
          counter := vmstatincr counter .SWAPWRITE } pid as c (g * PAGE_SIZE) := by
  have hmid : TableInv (evictWrite { vm with swap := sw, counter := counter }
      ⟨g, p, w, g * PAGE_SIZE, slot⟩).cm (g :: q') := h
  obtain ⟨cm', hfin, hinv, hown, hs⟩ := allocuserpageFinish_spec hmid hp hfresh
  refine ⟨cm', hinv, hown, hs, ?_⟩
  simp only [faultPage, heq, hfin]
  rfl

/-- Frame `f` has been granted, and what is left of the call is the load. -/
theorem granted_contents {vm₁ : Vm} {f : Nat} (hbin : as.Binary)
    (hfresh : ∀ g, ¬ vm.cm.Maps pid c.fa g) (hobt : vm.Obtains f)
    (haddr : faultPaddr vm pid c.fa = .ok (f * PAGE_SIZE))
    (hfault : faultPage files vm pid as c = loadPage files vm₁ pid as c (f * PAGE_SIZE))
    (hm : ∀ g, vm₁.cm.Maps pid c.fa g ↔ g = f) (hram : vm₁.ram = vm.ram)
    (hsame : ∀ old, loadedPage files vm₁.swap pid as c old =
      loadedPage files vm.swap pid as c old) :
    FaultContents files vm pid as c := by
  have hdiv : f * PAGE_SIZE / PAGE_SIZE = f := Nat.mul_div_cancel f (by decide)
  have hcontents : LoadContents files vm₁ pid as c (f * PAGE_SIZE) := loadPage_contents hbin c _
  cases hcontents with
  | done page vm' as' hpage hload hcm hram' =>
    rw [Vm.frame, hdiv, hram, hsame] at hpage
    rw [hdiv, hram] at hram'
    exact .loaded f page vm' as' hfresh hobt hpage haddr (hfault.trans hload) (hcm ▸ hm) hram'
  | crash e hpage hload =>
    rw [hsame] at hpage
    exact .crash _ e hfresh (.inl ⟨f, hobt, haddr⟩) hpage (hfault.trans hload)

theorem faultPage_contents (h : TableInv vm.cm q) (hp : 0 < pid) (hbin : as.Binary) :
    FaultContents files vm pid as c := by
  have hfirst : vm.cm.firstvictim = q.head? := h.rep.queued.1.head_eq
  have hbegin : FaultBegins vm q pid c.fa := faultBegin_spec h hp
  cases hbegin with
  | hit f counter hm heq =>
    have hfault : faultPage files vm pid as c
        = .ok (faultEnd { vm with counter := counter } pid as c (f * PAGE_SIZE), as) := by
      simp only [faultPage, heq]
    exact .hit f _ hm (by simp only [faultPaddr, heq]) hfault rfl rfl
  | free i cm' counter hfresh hi heq hinv hown hs hleast =>
    have hfault : faultPage files vm pid as c
        = loadPage files { vm with cm := cm', counter := counter } pid as c (i * PAGE_SIZE) := by
      simp only [faultPage, heq]
    exact granted_contents hbin hfresh (.inl ⟨hi, hleast⟩) (by simp only [faultPaddr, heq]) hfault
      (maps_granted hown hs.ptsize hi.1 hp hfresh) rfl fun _ => rfl
  | exhausted counter hfresh hno hq heq =>
    have hnone : ∀ f, ¬ vm.Obtains f := by
      rintro f (⟨hf, -⟩ | ⟨-, hfv, -⟩)
      · exact hno f hf
      · rw [hfirst, hq] at hfv
        cases hfv
    have hcontents : LoadContents files { vm with counter := counter } pid as c 0 :=
      loadPage_contents hbin c 0
    cases hcontents with
    | done page vm' as' hpage hload hcm hram =>
      exact .unplaced page vm' as' hfresh hnone hpage (by simp only [faultPaddr, heq])
        (by simp only [faultPage, heq, hload]) hcm hram
    | crash e hpage hload =>
      exact .crash _ e hfresh (.inr ⟨hnone, by simp only [faultPaddr, heq]⟩) hpage
        (by simp only [faultPage, heq, hload])
  | evict f q' p w sw slot counter hfresh hno hq hm hclaim heq =>
    subst hq
    have hobt : vm.Obtains f := by
      refine .inr ⟨hno, hfirst, ?_⟩
      by_contra hfull
      rw [claimSlot_eq_none_iff_full.2 hfull] at hclaim
      cases hclaim
    have hposp : 0 < p := hm.pid_pos
    have hne : ¬ (p = pid ∧ w = c.fa) := by
      rintro ⟨rfl, rfl⟩
      exact hfresh f hm
    obtain ⟨cm', -, hown, hs, hfault⟩ := faultPage_evicts h hp hfresh heq
    exact granted_contents hbin hfresh hobt (by simp only [faultPaddr, heq]) hfault
      (maps_granted hown hs.ptsize hm.1.1 hp hfresh) rfl
      fun old => loadedPage_evicted hclaim hposp hp hne old
  | swapFull f q' p w hfresh hno hq hm hclaim heq =>
    refine .swapFull hfresh ?_ (by simp only [faultPaddr, heq]) (by simp only [faultPage, heq])
    rintro g (⟨hg, -⟩ | ⟨-, -, hslot⟩)
    · exact hno g hg
    · exact claimSlot_eq_none_iff_full.1 hclaim hslot

/-- The frame that is mapped is the one the page obtains, and frame 0 or none without one. -/
theorem faultPaddr_spec (h : TableInv vm.cm q) (hp : 0 < pid) (hfresh : ∀ g, ¬ vm.cm.Maps pid v g) :
    (∃ f, vm.Obtains f ∧ faultPaddr vm pid v = .ok (f * PAGE_SIZE)) ∨
    ((∀ f, ¬ vm.Obtains f) ∧
      (faultPaddr vm pid v = .ok 0 ∨ ∃ e, faultPaddr vm pid v = .error e)) := by
  have hcontents : FaultContents (fun _ => []) vm pid asCreate.unloaded ⟨v, .seg1, 0⟩ :=
    faultPage_contents h hp (unloaded_binary _)
  cases hcontents with
  | hit f _ hm => exact absurd hm (hfresh f)
  | loaded f _ _ _ _ hobt _ haddr => exact .inl ⟨f, hobt, haddr⟩
  | unplaced _ _ _ _ hno _ haddr => exact .inr ⟨hno, .inl haddr⟩
  | swapFull _ hno haddr => exact .inr ⟨hno, .inr ⟨_, haddr⟩⟩
  | crash _ _ _ haddr =>
    rcases haddr with hsome | ⟨hno, hzero⟩
    · exact .inl hsome
    · exact .inr ⟨hno, .inl hzero⟩

/-- A call that returns 0 has passed the checks and found its page. -/
theorem vmFault_returned_iff {ty : FaultType} {addr : VAddr} {vm' : Vm} {as' : AddrSpace}
    (hty : ty = .VM_FAULT_READ ∨ ty = .VM_FAULT_WRITE) :
    vmFault files vm pid (some as) ty addr = .ok (vm', some as', .returned none) ↔
      ∃ c, as.checked.isOk ∧ as.locate (pageOf addr) = some c ∧
        faultPage files vm pid as c = .ok (vm', as') := by
  unfold vmFault
  rw [faultEntry_access hty]
  cases as.checked with
  | error e => simp [Except.isOk, Except.toBool]
  | ok ss =>
    cases as.locate (pageOf addr) with
    | none => simp
    | some c =>
      cases hfault : faultPage files vm pid as c <;>
        simp [Except.isOk, Except.toBool, hfault, Prod.ext_iff]

/-- A fault on a page that is not resident gives it the bytes its load leaves in the frame it
    obtains. -/
theorem faultGives_iff {ty : FaultType} {addr : VAddr} {page : Page} (h : TableInv vm.cm q)
    (hp : 0 < pid) (hbin : as.Binary) (hfresh : ∀ g, ¬ vm.cm.Maps pid (pageOf addr) g)
    (hty : ty = .VM_FAULT_READ ∨ ty = .VM_FAULT_WRITE) :
    FaultGives files vm pid as ty addr page ↔
      as.checked.isOk ∧ ∃ c f, as.locate (pageOf addr) = some c ∧ vm.Obtains f ∧
        loadedPage files vm.swap pid as c (vm.ram f) = .ok page := by
  constructor
  · rintro ⟨vm', as', f, hfault, hm, rfl⟩
    obtain ⟨c, hok, hloc, hpage⟩ := (vmFault_returned_iff hty).1 hfault
    have hfa : c.fa = pageOf addr := (locate_some hloc).1
    have hcontents : FaultContents files vm pid as c := faultPage_contents h hp hbin
    cases hcontents with
    | hit g _ hg => exact absurd (hfa ▸ hg) (hfresh g)
    | loaded g page vm₁ as₁ _ hobt hbytes _ heq hmaps hram =>
      cases hpage.symm.trans heq
      rw [hfa] at hmaps
      obtain rfl : f = g := (hmaps f).1 hm
      rw [hram, update_self]
      exact ⟨hok, c, f, hloc, hobt, hbytes⟩
    | unplaced _ vm₁ as₁ _ _ _ _ heq hcm _ =>
      -- the page is in frame 0, which the page table does not give to it
      cases hpage.symm.trans heq
      rw [hcm] at hm
      exact absurd hm (hfresh f)
    | swapFull _ _ _ heq | crash _ _ _ _ _ heq => exact absurd (hpage.symm.trans heq) (by simp)
  · rintro ⟨hok, c, f, hloc, hobt, hbytes⟩
    have hfa : c.fa = pageOf addr := (locate_some hloc).1
    have hcontents : FaultContents files vm pid as c := faultPage_contents h hp hbin
    cases hcontents with
    | hit g _ hg => exact absurd (hfa ▸ hg) (hfresh g)
    | loaded g page' vm' as' _ hg hpage _ heq hmaps hram =>
      obtain rfl := hobt.unique hg
      cases hbytes.symm.trans hpage
      refine ⟨vm', as', f, (vmFault_returned_iff hty).2 ⟨c, hok, hloc, heq⟩, ?_, ?_⟩
      · rw [← hfa]
        exact (hmaps f).2 rfl
      · rw [hram, update_self]
    | unplaced _ _ _ _ hno => exact absurd hobt (hno f)
    | swapFull _ hno => exact absurd hobt (hno f)
    | crash old e _ _ hpage =>
      exact absurd ((loadedPage_error hpage _).symm.trans hbytes) (by simp)

end DemandPaging
