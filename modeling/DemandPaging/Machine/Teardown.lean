import DemandPaging.Fault.Contents
import DemandPaging.Machine.Transparency

set_option autoImplicit false

/-! # What `as_destroy` takes away

`as_destroy` gives back the memory of one process in two passes that know nothing of each other.
`removeptentries` frees the pages of the process one by one while it scans the table they are
linked through, and `removeswapentries` clears their slots up to a high-water mark that
`swapinpage` maintains. In every state that completed operations lead to, both passes together take
exactly the pages of that process: the other processes keep their entries, their order in the FIFO
queue, their slots and their bytes. The second pass needs the high-water mark to be above every slot
in use, and every operation keeps it there.

A fault may find no memory at all here; `vm_fault` goes on with address 0 then, which is neither in
the page table nor in the swap map. -/

namespace DemandPaging

/-- The two passes of `as_destroy` over the memory. -/
def reclaim (vm : Vm) (pid : Int) : Except Crash Vm :=
  match removeptentries vm pid with
  | .error e => .error e
  | .ok vm => .ok { vm with swap := vm.swap.removeswapentries pid }

theorem asDestroy_eq_reclaim {vm : Vm} {as : AddrSpace} {pid : Int} {s1 s2 st : Segment}
    (h1 : as.seg1 = some s1) (h2 : as.seg2 = some s2) (ht : as.segstack = some st) :
    asDestroy vm as pid = reclaim vm pid := by
  simp only [asDestroy, h1, h2, ht]
  rfl

/-- One operation that runs to completion. -/
def WholeStep (s : Sys) (a : Action) (s' : Sys) : Prop := s.seqExec a = .ok s'

/-- The user pages of `pid`, as frames. -/
def residentFrames (cm : Coremap) (pid : Int) : Finset Nat :=
  (Finset.range cm.ptsize).filter fun i => (cm.pt i).pid = pid

open Classical in
/-- The frames nobody holds. -/
noncomputable def freeFrames (cm : Coremap) : Finset Nat :=
  (Finset.range cm.ptsize).filter cm.FreeFrame

/-- From `vm` to `vm'` exactly the pages of `pid` have gone. The lists `fifo` and `chain b` are what
    one sees when following the pointers of `vm`, and `fifo'` and `chain' b` those of `vm'`. -/
structure Reclaimed (vm vm' : Vm) (pid : Int) : Prop where
  lists : ∃ fifo chain fifo' chain', PtRepresentation vm.cm fifo chain ∧
    PtRepresentation vm'.cm fifo' chain' ∧
    fifo' = fifo.filter (fun i => decide ((vm.cm.pt i).pid ≠ pid)) ∧
    (∀ i ∈ fifo', (vm'.cm.pt i).pid ≠ pid) ∧
    ∀ b < vm'.cm.hashedptsize, ∀ i ∈ chain' b, (vm'.cm.pt i).pid ≠ pid
  entries : ∀ i < vm'.cm.ptsize, (vm'.cm.pt i).pid ≠ pid
  slots : ∀ k < SWAPPAGES, (vm'.swap.swappagesmap k).pid ≠ pid
  shape : vm'.cm.ptsize = vm.cm.ptsize ∧ vm'.cm.hashedptsize = vm.cm.hashedptsize
  otherEntries : ∀ i < vm.cm.ptsize, (vm.cm.pt i).pid ≠ pid → vm'.cm.own i = vm.cm.own i
  otherSlots : ∀ k < SWAPPAGES, (vm.swap.swappagesmap k).pid ≠ pid →
    vm'.swap.swappagesmap k = vm.swap.swappagesmap k
  contents : vm'.ram = vm.ram ∧ vm'.swap.swapfile = vm.swap.swapfile
  freed : (freeFrames vm'.cm).card = (freeFrames vm.cm).card + (residentFrames vm.cm pid).card

/-- Every slot in use lies below the high-water mark. -/
def Swapfile.BelowMark (sw : Swapfile) : Prop :=
  ∀ k < SWAPPAGES, (sw.swappagesmap k).pid ≠ -1 → k ≤ sw.maxindswappedpage

variable {s s' : Sys} {vm vm' : Vm} {cm cm' : Coremap} {sw : Swapfile} {q : List Nat} {pid : Int}
  {as as' : AddrSpace} {c : FaultCtx} {files : Nat → List UInt8}

/-! ## The two passes -/

/-- Who holds a frame after `removeptentries`. -/
theorem extentOf_removeptentries (hp : 0 < pid) (hs : SameShape cm cm')
    (hown : ∀ j < cm.ptsize, cm'.own j = if (cm.own j).1 = pid
      then (-1, (cm.own j).2.1, 0) else cm.own j) (h j : Nat) :
    cm'.ExtentOf h j ↔ cm.ExtentOf h j := by
  unfold Coremap.ExtentOf
  rw [hs.ptsize]
  refine and_congr_right fun hh => ?_
  rw [hown h hh]
  split
  · next hpid => exact iff_of_false (by simp) (by rw [hpid]; omega)
  · exact Iff.rfl

theorem freeFrame_removeptentries (he : cm.Extents) (hp : 0 < pid) (hs : SameShape cm cm')
    (hown : ∀ j < cm.ptsize, cm'.own j = if (cm.own j).1 = pid
      then (-1, (cm.own j).2.1, 0) else cm.own j) (j : Nat) :
    cm'.FreeFrame j ↔ cm.FreeFrame j ∨ (j < cm.ptsize ∧ (cm.own j).1 = pid) := by
  have hext : cm'.InExtent j ↔ cm.InExtent j :=
    exists_congr fun h => extentOf_removeptentries hp hs hown h j
  unfold Coremap.FreeFrame
  rw [hext, hs.ptsize]
  by_cases hj : j < cm.ptsize
  · by_cases hpid : (cm.own j).1 = pid
    · have hu : cm.IsUser j := ⟨hj, by omega⟩
      have hgone : ¬ cm'.IsUser j := by
        intro hu'
        have hpos := hu'.2
        rw [hown j hj, if_pos hpid] at hpos
        exact absurd hpos (by simp)
      refine iff_of_true ⟨hj, hgone, ?_⟩ (.inr ⟨hj, hpid⟩)
      rintro ⟨h, hx⟩
      exact he.not_extentOf_user hu hx
    · have hsame : cm'.IsUser j ↔ cm.IsUser j := by
        unfold Coremap.IsUser
        rw [hs.ptsize, hown j hj, if_neg hpid]
      rw [hsame]
      simp [hpid]
  · simp [hj]

/-- The pages of `pid` turn into free frames, one each. -/
theorem card_freeFrames_removeptentries (he : cm.Extents) (hp : 0 < pid) (hs : SameShape cm cm')
    (hown : ∀ j < cm.ptsize, cm'.own j = if (cm.own j).1 = pid
      then (-1, (cm.own j).2.1, 0) else cm.own j) :
    (freeFrames cm').card = (freeFrames cm).card + (residentFrames cm pid).card := by
  classical
  have hunion : freeFrames cm' = freeFrames cm ∪ residentFrames cm pid := by
    ext j
    simp only [freeFrames, residentFrames, Finset.mem_union, Finset.mem_filter, Finset.mem_range,
      freeFrame_removeptentries he hp hs hown, hs.ptsize]
    have hpid : (cm.own j).1 = (cm.pt j).pid := rfl
    rw [hpid]
    tauto
  have hdisjoint : Disjoint (freeFrames cm) (residentFrames cm pid) := by
    refine Finset.disjoint_left.2 fun j hfree hres => ?_
    have hj := (Finset.mem_filter.1 hres).2
    have hfree := (Finset.mem_filter.1 hfree).2.pid_eq he
    have hpid : (cm.own j).1 = pid := hj
    omega
  rw [hunion, Finset.card_union_of_disjoint hdisjoint]

/-- The loop of `removeswapentries` reaches every slot of the process exactly when none of them lies
    above the high-water mark. -/
theorem removeswapentries_clears_iff (sw : Swapfile) (hp : 0 < pid) :
    (∀ k < SWAPPAGES, ((sw.removeswapentries pid).swappagesmap k).pid ≠ pid) ↔
      ∀ k < SWAPPAGES, (sw.swappagesmap k).pid = pid → k ≤ sw.maxindswappedpage := by
  refine forall₂_congr fun k _ => ?_
  simp only [Swapfile.removeswapentries]
  split
  · next hc => exact iff_of_true (fun h => by simp only at h; omega) fun _ => hc.1
  · next hc => exact ⟨fun h hpid => absurd hpid h, fun h hpid => hc ⟨h hpid, hpid⟩⟩

theorem removeswapentries_other {k : Nat} (h : (sw.swappagesmap k).pid ≠ pid) :
    (sw.removeswapentries pid).swappagesmap k = sw.swappagesmap k := by
  simp [Swapfile.removeswapentries, h]

/-- `as_destroy` takes the pages of one process, and nothing else. -/
theorem reclaim_spec (h : TableInv vm.cm q) (hb : vm.swap.BelowMark) (hp : 0 < pid) :
    ∃ vm', reclaim vm pid = .ok vm' ∧ Reclaimed vm vm' pid := by
  obtain ⟨cm', hrem, hinv, hs, hown⟩ := removeptentries_spec h hp
  have hentry : ∀ i < vm.cm.ptsize, (cm'.pt i).pid ≠ pid := by
    intro i hi
    show (cm'.own i).1 ≠ pid
    rw [hown i hi]
    split
    · show (-1 : Int) ≠ pid
      omega
    · assumption
  have hclears : ∀ k < SWAPPAGES,
      ((vm.swap.removeswapentries pid).swappagesmap k).pid ≠ pid := by
    refine (removeswapentries_clears_iff vm.swap hp).2 fun k hk hpid => hb k hk ?_
    omega
  obtain ⟨chain, hrep⟩ := h.rep.ptRepresentation
  obtain ⟨chain', hrep'⟩ := hinv.rep.ptRepresentation
  refine ⟨_, by rw [reclaim, hrem], ?_⟩
  refine ⟨⟨q, chain, _, chain', hrep, hrep', ?_, ?_, ?_⟩, ?_, hclears, ⟨hs.ptsize, hs.hashedptsize⟩,
    ?_, fun k _ hk => removeswapentries_other hk, ⟨rfl, rfl⟩,
    card_freeFrames_removeptentries h.extents hp hs hown⟩
  · refine List.filter_congr fun i _ => ?_
    by_cases hpid : (vm.cm.pt i).pid = pid <;> simp [Coremap.own, hpid]
  · exact fun i hi => hentry i (hs.ptsize ▸ (hrep'.fifo_user i hi).1)
  · exact fun b hb' i hi => hentry i (hs.ptsize ▸ (hrep'.chain_user b hb' i hi).1)
  · exact fun i hi => hentry i (hs.ptsize ▸ hi)
  · intro i hi hne
    rw [hown i hi]
    exact if_neg hne

/-! ## What every operation keeps -/

/-- The invariant of the machine with whole operations. -/
structure WholeInv (s : Sys) : Prop where
  table : ∃ q, TableInv s.vm.cm q
  bounded : s.vm.swap.Bounded
  pos : ∀ p, s.procs p ≠ none → 0 < p

theorem Sys.Initial.wholeInv (h : s.Initial) : WholeInv s where
  table := ⟨[], h.1.tableInv⟩
  bounded := by
    obtain ⟨sw, hsw⟩ := h.2.1
    rw [hsw]
    exact swapinit_bounded sw
  pos p hp := absurd (h.2.2 p) hp

/-- Loading a page leaves the page table alone. -/
theorem loadPage_keeps {r : Nat} (h : loadPage files vm pid as c r = .ok (vm', as'))
    (hb : vm.swap.Bounded) : vm'.cm = vm.cm ∧ vm'.swap.Bounded := by
  unfold loadPage loadBegin at h
  split_ifs at h with h1 h2 h3
  · cases hslot : vm.swap.findSlot pid c.fa with
    | none =>
      simp only [hslot, Except.ok.injEq, Prod.mk.injEq] at h
      obtain ⟨rfl, -⟩ := h
      exact ⟨rfl, hb⟩
    | some slot =>
      simp only [hslot, Except.ok.injEq, Prod.mk.injEq] at h
      obtain ⟨rfl, -⟩ := h
      exact ⟨rfl, hb.releaseSlot slot⟩
  · cases hsrc : elfSource as c.fa with
    | error e => simp [hsrc] at h
    | ok src =>
      simp only [hsrc, Except.ok.injEq, Prod.mk.injEq] at h
      obtain ⟨rfl, -⟩ := h
      exact ⟨rfl, hb⟩
  · simp only [Except.ok.injEq, Prod.mk.injEq] at h
    obtain ⟨rfl, -⟩ := h
    exact ⟨rfl, hb⟩
  · simp only [Except.ok.injEq, Prod.mk.injEq] at h
    obtain ⟨rfl, -⟩ := h
    exact ⟨rfl, hb⟩

theorem faultPage_keeps (h : TableInv vm.cm q) (hp : 0 < pid) (hb : vm.swap.Bounded)
    (heq : faultPage files vm pid as c = .ok (vm', as')) :
    (∃ q', TableInv vm'.cm q') ∧ vm'.swap.Bounded := by
  have hbegin : FaultBegins vm q pid c.fa := faultBegin_spec h hp
  cases hbegin with
  | hit f counter hm hbegin =>
    simp only [faultPage, hbegin, Except.ok.injEq, Prod.mk.injEq] at heq
    obtain ⟨rfl, -⟩ := heq
    exact ⟨⟨q, h⟩, hb⟩
  | free i cm' counter hfresh hi hbegin hinv hown hs hleast =>
    simp only [faultPage, hbegin] at heq
    obtain ⟨hcm, hb'⟩ := loadPage_keeps heq hb
    exact ⟨⟨_, by rw [hcm]; exact hinv⟩, hb'⟩
  | exhausted counter hfresh hno hq hbegin =>
    simp only [faultPage, hbegin] at heq
    obtain ⟨hcm, hb'⟩ := loadPage_keeps heq hb
    exact ⟨⟨q, by rw [hcm]; exact h⟩, hb'⟩
  | evict g q' p w sw slot counter hfresh hno hq hm hclaim hbegin =>
    subst hq
    obtain ⟨cm', hinv, -, -, hfault⟩ := faultPage_evicts h hp hfresh hbegin
    rw [hfault] at heq
    have hsw : sw.Bounded := claimSlot_bounded hclaim hm.pid_pos hb
    obtain ⟨hcm, hb'⟩ := loadPage_keeps heq (hsw.writeSlot slot _)
    exact ⟨⟨_, by rw [hcm]; exact hinv⟩, hb'⟩
  | swapFull g q' p w hfresh hno hq hm hclaim hbegin =>
    simp only [faultPage, hbegin] at heq
    cases heq

theorem vmFault_keeps {as : Option AddrSpace} {as' : Option AddrSpace} {t : FaultType}
    {addr : VAddr} {r : FaultResult} (h : TableInv vm.cm q) (hp : 0 < pid)
    (hb : vm.swap.Bounded) (heq : vmFault files vm pid as t addr = .ok (vm', as', r)) :
    (∃ q', TableInv vm'.cm q') ∧ vm'.swap.Bounded := by
  unfold vmFault at heq
  split at heq
  · cases heq
  · cases heq
    exact ⟨⟨q, h⟩, hb⟩
  · cases heq
    exact ⟨⟨q, h⟩, hb⟩
  · split at heq
    · cases heq
    · next hpage =>
      cases heq
      exact faultPage_keeps h hp hb hpage

/-- A new value in a slot of the process table that was in use. -/
theorem pos_update {procs : Int → Option Proc} {proc : Proc} {x : Option Proc}
    (h : ∀ p, procs p ≠ none → 0 < p) (hpid : procs pid = some proc) :
    ∀ p, Function.update procs pid x p ≠ none → 0 < p := by
  intro p hp
  by_cases hpp : p = pid
  · exact h p (by rw [hpp, hpid]; exact Option.some_ne_none _)
  · rw [Function.update_of_ne hpp] at hp
    exact h p hp

theorem WholeInv.fault {t : FaultType} {addr : VAddr} (h : WholeInv s)
    (hexec : s.seqFault pid t addr = .ok s') : WholeInv s' := by
  unfold Sys.seqFault at hexec
  split at hexec
  · next as hproc =>
    have hp : 0 < pid := h.pos pid (by rw [hproc]; exact Option.some_ne_none _)
    obtain ⟨q, ht⟩ := h.table
    split at hexec
    · cases hexec
    · next hrun =>
      cases hexec
      obtain ⟨htable, hb⟩ := vmFault_keeps ht hp h.bounded hrun
      exact ⟨htable, hb, pos_update h.pos hproc⟩
    · next hrun =>
      cases hexec
      obtain ⟨htable, hb⟩ := vmFault_keeps ht hp h.bounded hrun
      exact ⟨htable, hb, pos_update h.pos hproc⟩
  · cases hexec
    exact h

theorem WholeInv.store (h : WholeInv s) (addr : VAddr) (b : UInt8) :
    WholeInv (s.execStore pid addr b) := by
  unfold Sys.execStore
  split
  · split
    · exact h
    · exact ⟨h.table, h.bounded, h.pos⟩
  · exact h

theorem WholeInv.exit (h : WholeInv s) : WholeInv (s.execExit pid) := by
  unfold Sys.execExit
  split
  · next hproc => exact ⟨h.table, h.bounded, pos_update h.pos hproc⟩
  · exact h

theorem WholeInv.reap (h : WholeInv s) (hexec : s.execReap pid = .ok s') : WholeInv s' := by
  unfold Sys.execReap at hexec
  split at hexec
  · next as hproc =>
    split at hexec
    · cases hexec
    · next vm' hdestroy =>
      cases hexec
      unfold asDestroy at hdestroy
      obtain ⟨q, ht⟩ := h.table
      have hp : 0 < pid := h.pos pid (by rw [hproc]; exact Option.some_ne_none _)
      obtain ⟨cm', hrem, hinv, -⟩ := removeptentries_spec ht hp
      split at hdestroy
      · rw [hrem] at hdestroy
        cases hdestroy
        exact ⟨⟨_, hinv⟩, h.bounded.removeswapentries pid, pos_update h.pos hproc⟩
      · cases hdestroy
  · cases hexec
    exact h

theorem WholeInv.newProc (h : WholeInv s) (layout : AddrSpace) :
    WholeInv (s.execNewProc pid layout) := by
  unfold Sys.execNewProc
  split
  · next hc =>
    refine ⟨h.table, h.bounded, fun p hp => ?_⟩
    by_cases hpp : p = pid
    · exact hpp ▸ hc.1
    · exact h.pos p fun hnone => hp ((Function.update_of_ne hpp _ _).trans hnone)
  · exact h

theorem WholeInv.kalloc {n : Nat} (h : WholeInv s)
    (hfound : getfreeframes s.vm.cm.pt s.vm.cm.ptsize n ≠ -1) :
    WholeInv { s with vm := (getfreeppages s.vm n).vm } := by
  obtain ⟨q, ht⟩ := h.table
  refine ⟨⟨q, (getfreeppages_effect ht hfound).1⟩, ?_, h.pos⟩
  show (getfreeppages s.vm n).vm.swap.Bounded
  unfold getfreeppages getfreeppagesEnd
  simp only [if_neg hfound]
  repeat' split
  all_goals exact h.bounded

theorem WholeInv.kfree {i : Nat} (h : WholeInv s) (hexec : s.execKfree i = .ok s') :
    WholeInv s' := by
  unfold Sys.execKfree at hexec
  split at hexec
  · next hc =>
    obtain ⟨q, ht⟩ := h.table
    obtain ⟨cm', hfree, hinv, -⟩ := freeKpages_spec ht hc.2.1 hc.2.2 hc.1
    rw [hfree] at hexec
    cases hexec
    exact ⟨⟨q, hinv⟩, h.bounded, h.pos⟩
  · cases hexec
    exact h

theorem WholeInv.kstore (h : WholeInv s) (i k : Nat) (page : Page) :
    WholeInv (s.execKstore i k page) := by
  unfold Sys.execKstore
  split
  · exact ⟨h.table, h.bounded, h.pos⟩
  · exact h

/-- Every operation keeps the invariant, and with it the high-water mark above the slots. -/
theorem WholeStep.inv {a : Action} (h : WholeInv s) (hstep : WholeStep s a s') : WholeInv s' := by
  unfold WholeStep at hstep
  cases a with
  | fault pid t addr => exact h.fault hstep
  | io pid => cases hstep; exact h
  | resume pid => cases hstep; exact h
  | store pid addr b => cases hstep; exact h.store addr b
  | exit pid => cases hstep; exact h.exit
  | reap pid =>
    cases hr : s.execReap pid with
    | error e => simp [Sys.seqExec, Sys.exec, hr, Except.map] at hstep
    | ok s₁ =>
      obtain rfl : s₁ = s' := by simpa [Sys.seqExec, Sys.exec, hr, Except.map] using hstep
      exact h.reap hr
  | newProc pid layout => cases hstep; exact h.newProc layout
  | kalloc n =>
    by_cases hfound : getfreeframes s.vm.cm.pt s.vm.cm.ptsize n = -1
    · obtain rfl : s = s' := by simpa [Sys.seqExec, Sys.exec, hfound, Except.map] using hstep
      exact h
    · obtain rfl : { s with vm := (getfreeppages s.vm n).vm } = s' := by
        simpa [Sys.seqExec, Sys.exec, hfound, Except.map] using hstep
      exact h.kalloc hfound
  | kfree i =>
    cases hr : s.execKfree i with
    | error e => simp [Sys.seqExec, Sys.exec, hr, Except.map] at hstep
    | ok s₁ =>
      obtain rfl : s₁ = s' := by simpa [Sys.seqExec, Sys.exec, hr, Except.map] using hstep
      exact h.kfree hr
  | kstore i k page => cases hstep; exact h.kstore i k page

/-- Teardown reclaims exactly one process, in every state that whole operations lead to. It relies
    on the high-water mark, which is above every slot in use there: without it, the second pass
    would leave behind the slots above the mark. -/
theorem teardown_exact {s₀ : Sys} (h₀ : s₀.Initial) (hrun : Reaches WholeStep s₀ s)
    (hp : 0 < pid) :
    (∃ vm', reclaim s.vm pid = .ok vm' ∧ Reclaimed s.vm vm' pid) ∧ s.vm.swap.BelowMark ∧
      ∀ sw : Swapfile, (∀ k < SWAPPAGES, ((sw.removeswapentries pid).swappagesmap k).pid ≠ pid) ↔
        ∀ k < SWAPPAGES, (sw.swappagesmap k).pid = pid → k ≤ sw.maxindswappedpage := by
  have hinv : WholeInv s := hrun.invariant (fun _ _ _ h hs => WholeStep.inv h hs) h₀.wholeInv
  obtain ⟨q, ht⟩ := hinv.table
  exact ⟨reclaim_spec ht hinv.bounded.high hp, hinv.bounded.high,
    fun sw => removeswapentries_clears_iff sw hp⟩

/-- Process 2 has one page in memory and one in the swap file when it is torn down, and process 3
    has the other frame. -/
theorem teardown_exact_small : ∃ s vm', Reaches WholeStep smallSys s ∧
    s.vm.cm.Maps 2 0x7fffe000 31 ∧ s.vm.swap.Holds 2 0x7ffff000 0 ∧
    s.vm.cm.Maps 3 0x7ffff000 30 ∧ reclaim s.vm 2 = .ok vm' ∧ Reclaimed s.vm vm' 2 := by
  have hstep : ∀ (s s' : Sys) a, a ∈ fillFrames ++ [.fault 3 .VM_FAULT_WRITE 0x7ffff000] →
      s.seqNext a = some s' → WholeStep s a s' := fun _ _ _ _ hn => (seqNext_step hn).1
  obtain ⟨s, hreach, hcheck⟩ := exists_reaches_of_replay (s := smallSys) hstep
    (p := fun s => decide (s.vm.cm.Maps 2 0x7fffe000 31) &&
      (decide (s.vm.swap.Holds 2 0x7ffff000 0) && decide (s.vm.cm.Maps 3 0x7ffff000 30)))
    (by decide +kernel)
  simp only [Bool.and_eq_true, decide_eq_true_eq] at hcheck
  have hpos : (0 : Int) < 2 := by decide
  obtain ⟨vm', hrun, hrec⟩ := (teardown_exact smallSys_initial hreach hpos).1
  exact ⟨s, vm', hreach, hcheck.1, hcheck.2.1, hcheck.2.2, hrun, hrec⟩

end DemandPaging
