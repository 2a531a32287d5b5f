import DemandPaging.Fault.Layout
import DemandPaging.Machine.TlbOwner

set_option autoImplicit false

/-! # Where the pages of a process are

A page has a load flag, an entry in the page table and a slot in the swap map, in three places that
know nothing of each other. In every state that completed faults, forks, exits and reaps lead to,
they fit: a page that was never loaded is in neither table, and a page that was loaded is in exactly
one of them, once. So the call of `swapoutpage` in `vm_fault`, whose result nobody looks at, always
finds its page. -/

namespace DemandPaging

/-- `swapoutpage` in one go, with its result (`none` for 0). -/
def swapoutpage (vm : Vm) (pid : Int) (addr : VAddr) (readin : Nat) : Vm × Option Errno :=
  match vm.swap.findSlot pid addr with
  | none => (vm, some .EADDRNOTAVAIL)
  | some slot =>
    let vm := vm.setFrame readin (vm.swap.readSlot slot)
    ({ vm with swap := vm.swap.releaseSlot slot }, none)

/-! ## The partition -/

/-- Page `v` of process `p` is in no frame and no slot. -/
def Nowhere (vm : Vm) (p : Int) (v : VAddr) : Prop :=
  (∀ f, ¬ vm.cm.Maps p v f) ∧ ∀ k, ¬ vm.swap.Holds p v k

/-- Page `v` of process `p` is in exactly one frame or in exactly one slot, and not in both. -/
def OnePlace (vm : Vm) (p : Int) (v : VAddr) : Prop :=
  ((∃! f, vm.cm.Maps p v f) ∧ ∀ k, ¬ vm.swap.Holds p v k) ∨
    ((∀ f, ¬ vm.cm.Maps p v f) ∧ ∃! k, vm.swap.Holds p v k)

/-- The load flags tell where the pages are. -/
def Partition (s : Sys) : Prop :=
  ∀ p as pc, s.procs p = some ⟨some as, pc⟩ → ∀ i seg, as.seg i = some seg →
    ∀ k < seg.numpages.toNat,
      (seg.loadedelf k = 0 ∧ Nowhere s.vm p (seg.pageAddr k)) ∨
        (seg.loadedelf k = 1 ∧ OnePlace s.vm p (seg.pageAddr k))

/-- Where `vm_fault` calls `swapoutpage`, it returns 0. -/
def SwapsIn (s : Sys) : Prop :=
  ∀ p as ty addr c vm respaddr, s.procs p = some ⟨some as, .user⟩ →
    faultEntry (some as) ty addr = .ok (.page as c) →
    pageaddr (s.vm.incr .TLBFAULT) p c.fa = .ok 0 →
    allocuserpage (s.vm.incr .TLBFAULT) p c.fa = .ok (vm, respaddr) → as.flag c = 1 →
    (swapoutpage vm p c.fa respaddr).2 = none

/-- The address space of a new process: `runprogram`'s, with segments that do not overlap, or the
    copy that `fork` makes of its parent's. -/
def Spawned (s : Sys) (layout : AddrSpace) : Prop :=
  (∃ file vnode, runprogram file vnode = .ok layout ∧ layout.Disjoint) ∨
    ∃ p as, s.procs p = some ⟨some as, .user⟩ ∧ asCopy as = .ok layout

/-- One event of the sequential machine, in which processes start as the kernel starts them. -/
def PagedStep (s : Sys) (a : Action) (s' : Sys) : Prop :=
  SeqStep s a s' ∧ ∀ pid layout, a = .newProc pid layout → Spawned s layout

/-! ## Address spaces along a run -/

variable {s s' : Sys} {q q' : List Nat} {a : Action} {pid p : Int} {as as' : AddrSpace}
  {c : FaultCtx} {pc pc' : Pc}

/-- Every address space is laid out without overlaps, and only pages found by `vm_fault` are
    marked. -/
def Spaced (s : Sys) : Prop :=
  ∀ p as pc, s.procs p = some ⟨some as, pc⟩ → as.Paged ∧ as.Marked

theorem space_unique (hp : s.procs p = some ⟨some as, pc⟩)
    (hp' : s.procs p = some ⟨some as', pc'⟩) : as' = as := by
  rw [hp] at hp'
  cases hp'
  rfl

theorem OtherMove.space (hm : OtherMove s q s' q') (hp : s.procs p = some ⟨some as, pc⟩)
    (hp' : s'.procs p = some ⟨some as', pc'⟩) : as' = as := by
  cases hm with
  | stay | store | kernel => exact space_unique hp hp'
  | exit hq =>
    rcases update_cases hp' with ⟨rfl, heq⟩ | ⟨-, hold⟩
    · rw [hp] at hq
      cases hq
      cases heq
      rfl
    · exact space_unique hp hold
  | reap => exact space_unique hp (update_none_cases hp').2
  | newProc hnone =>
    rcases update_cases hp' with ⟨rfl, -⟩ | ⟨-, hold⟩
    · rw [hp] at hnone
      cases hnone
    · exact space_unique hp hold

/-- A completed fault marks at most the page it is about. -/
theorem seqFault_space {t : FaultType} {addr : VAddr} (hfault : s.seqFault pid t addr = .ok s')
    (hp : s.procs p = some ⟨some as, pc⟩) (hp' : s'.procs p = some ⟨some as', pc'⟩) :
    as' = as ∨ ∃ c, as.locate (pageOf addr) = some c ∧ as' = as.setLoaded c := by
  have hput : ∀ {vm o o' r x}, s.procs pid = some ⟨o, .user⟩ →
      vmFault s.files s.vm pid o t addr = .ok (vm, o', r) →
      Function.update s.procs pid (some ⟨o', x⟩) p = some ⟨some as', pc'⟩ →
      as' = as ∨ ∃ c, as.locate (pageOf addr) = some c ∧ as' = as.setLoaded c := by
    intro vm o o' r x hq hvm h
    rcases update_cases h with ⟨rfl, heq⟩ | ⟨-, hold⟩
    · rw [hp] at hq
      cases hq
      cases heq
      exact vmFault_space hvm
    · exact .inl (space_unique hp hold)
  unfold Sys.seqFault at hfault
  split at hfault
  · next o hq =>
    split at hfault
    · cases hfault
    · next hvm =>
      cases hfault
      exact hput hq hvm hp'
    · next hvm =>
      cases hfault
      exact hput hq hvm hp'
  · cases hfault
    exact .inl (space_unique hp hp')

/-- The address space of a process after a step: its old one, possibly with one more page marked, or
    the layout of a new process. -/
theorem SeqStep.space (h : SeqInv s) (hstep : SeqStep s a s')
    (hp' : s'.procs p = some ⟨some as', pc'⟩) :
    (∃ as pc, s.procs p = some ⟨some as, pc⟩ ∧ (as' = as ∨
      ∃ v c, pageOf v = v ∧ as.locate v = some c ∧ as' = as.setLoaded c)) ∨
    ∃ layout, a = .newProc p layout ∧ as' = layout.unloaded := by
  obtain ⟨⟨q, hinv, -⟩, hquiet⟩ := h
  cases hp : s.procs p with
  | none =>
    have hnew : ∃ layout, a = .newProc p layout := by
      by_contra hne
      push Not at hne
      rw [seqExec_absent hp hne hstep.1] at hp'
      cases hp'
    obtain ⟨layout, rfl⟩ := hnew
    have hexec : (s.execNewProc p layout).procs p = some ⟨some as', pc'⟩ := by
      obtain ⟨hex, -⟩ := hstep
      cases hex
      exact hp'
    unfold Sys.execNewProc at hexec
    split at hexec
    · rcases update_cases hexec with ⟨-, heq⟩ | ⟨hne, -⟩
      · cases heq
        exact .inr ⟨layout, rfl, rfl⟩
      · exact absurd rfl hne
    · rw [hp] at hexec
      cases hexec
  | some proc =>
    obtain ⟨o, pc⟩ := proc
    obtain ⟨-, as, rfl, -⟩ := hinv.live p _ hp
    refine .inl ⟨as, pc, rfl, ?_⟩
    obtain ⟨hexec, -⟩ := hstep
    cases hin : a.inFault with
    | false =>
      obtain ⟨w, hr⟩ := exec_of_seqExec hin hexec
      obtain ⟨-, q', hm⟩ := exec_otherMove hinv (hquiet.calm a) (hquiet.unraced a) hin hr
      exact .inl (hm.space hp hp')
    | true =>
      cases a with
      | fault pid t addr =>
        rcases seqFault_space hexec hp hp' with heq | ⟨c, hloc, heq⟩
        · exact .inl heq
        · exact .inr ⟨_, c, pageOf_pageOf addr, hloc, heq⟩
      | io pid | resume pid =>
        cases hexec
        exact .inl (space_unique hp hp')
      | _ => cases hin

theorem Spaced.spawned (h : Spaced s) {layout : AddrSpace} (hs : Spawned s layout) :
    layout.Paged := by
  rcases hs with ⟨file, vnode, hprog, hd⟩ | ⟨p, as, hp, hcopy⟩
  · exact runprogram_paged hprog hd
  · rw [asCopy_ok hcopy]
    exact (h p as _ hp).1.congr (unloaded_unloaded as)

theorem PagedStep.spaced (h : SeqInv s) (hs : Spaced s) (hstep : PagedStep s a s') : Spaced s' := by
  intro p as' pc' hp'
  rcases hstep.1.space h hp' with ⟨as, pc, hp, heq⟩ | ⟨layout, ha, rfl⟩
  · obtain ⟨hpaged, hmarked⟩ := hs p as pc hp
    rcases heq with rfl | ⟨v, c, hv, hloc, rfl⟩
    · exact ⟨hpaged, hmarked⟩
    · exact ⟨hpaged.congr (unloaded_setLoaded as c), hmarked.setLoaded hpaged hv hloc⟩
  · have hpaged := hs.spawned (hstep.2 p layout ha)
    exact ⟨hpaged.congr (unloaded_unloaded layout), unloaded_marked layout⟩

/-! ## The partition holds -/

theorem SeqInv.not_both {v : VAddr} {f k : Nat} (h : SeqInv s) (hm : s.vm.cm.Maps p v f) :
    ¬ s.vm.swap.Holds p v k := by
  obtain ⟨⟨q, hinv, -⟩, hquiet⟩ := h
  intro hk
  rcases hinv.res_key p v f k hm hk with ⟨pid, proc, ev, hp, hev, -⟩ | hbusy
  · rw [Pc.eviction_of_awake (hquiet pid proc hp)] at hev
    cases hev
  · exact hquiet.not_busy hbusy

/-- A page that has never been loaded is in no frame and no slot. -/
theorem SeqInv.nowhere {v : VAddr} (h : SeqInv s) (hno : ¬ Loaded s.procs p v) :
    Nowhere s.vm p v := by
  obtain ⟨⟨q, hinv, -⟩, hquiet⟩ := h
  constructor
  · intro f hm
    rcases hinv.res_loaded p v f hm with hl | hb
    · exact hno hl
    · exact hquiet.not_busy hb
  · exact fun k hk => hno (hinv.key_loaded p v k hk)

/-- A page that was loaded once is in one place. -/
theorem SeqInv.onePlace {v : VAddr} (h : SeqInv s) (hv : pageOf v = v) (hl : Loaded s.procs p v) :
    OnePlace s.vm p v := by
  have hboth := fun f k => h.not_both (p := p) (v := v) (f := f) (k := k)
  obtain ⟨⟨q, hinv, -, hmem⟩, hquiet⟩ := h
  obtain ⟨page, hhas⟩ := hmem.backed p v hv hl
  rcases hhas with ⟨f, hm, -, -⟩ | ⟨hno | hb, k, hk, -⟩
  · exact .inl ⟨⟨f, hm, fun g hg => hinv.table.rep.maps_unique hg hm⟩, fun k => hboth f k hm⟩
  · exact .inr ⟨hno, k, hk, fun j hj => hinv.slot_unique p v j k hj hk⟩
  · exact absurd hb hquiet.not_busy

theorem SeqInv.partition (h : SeqInv s) (hs : Spaced s) : Partition s := by
  intro p as pc hp i seg hseg k hk
  obtain ⟨hpaged, hmarked⟩ := hs p as pc hp
  have hv := pageOf_pageAddr (hpaged.aligned i seg hseg) k
  have hflag : as.flag ⟨seg.pageAddr k, i, k⟩ = seg.loadedelf k := by
    simp only [AddrSpace.flag, hseg]
  have hbin : seg.loadedelf k = 0 ∨ seg.loadedelf k = 1 := by
    obtain ⟨⟨q, hinv, -⟩, -⟩ := h
    rw [← hflag]
    exact hinv.binary hp _
  rcases hbin with h0 | h1
  · refine .inl ⟨h0, h.nowhere ?_⟩
    rintro ⟨as', pc', hp', hl⟩
    rw [hp] at hp'
    cases hp'
    rcases hpaged.locate_page hseg hk with hloc | hnone
    · rw [loadedAt_iff hloc, hflag, h0] at hl
      exact absurd hl (by decide)
    · obtain ⟨c, hc, -⟩ := hl
      rw [hnone] at hc
      cases hc
  · have hloc := hmarked i seg k hseg hk (by rw [h1]; decide)
    refine .inr ⟨h1, h.onePlace hv ⟨as, pc, hp, ?_⟩⟩
    rw [loadedAt_iff hloc, hflag]
    exact h1

/-- `allocuserpage` for one page takes no slot away from another. -/
theorem allocuserpage_keeps_slot {vm vm' : Vm} {v : VAddr} {r k : Nat} (h : TableInv vm.cm q)
    (hpos : 0 < p) (hfresh : ∀ g, ¬ vm.cm.Maps p v g)
    (halloc : allocuserpage vm p v = .ok (vm', r)) (hk : vm.swap.Holds p v k) :
    vm'.swap.Holds p v k := by
  cases allocuserpage_spec h hpos hfresh with
  | free i cm' _ heq | exhausted _ _ heq =>
    rw [halloc] at heq
    cases heq
    exact hk
  | evict f q' p' w sw slot cm' _ _ hm hclaim heq =>
    rw [halloc] at heq
    cases heq
    obtain ⟨-, -, hholds, -⟩ := claimSlot_spec hclaim hm.pid_pos
    exact (holds_writeSlot ..).2 ((hholds p v k).2 (.inl hk))
  | swapFull f q' p' w _ _ _ _ heq =>
    rw [halloc] at heq
    cases heq

theorem SeqInv.swapsIn (h : SeqInv s) : SwapsIn s := by
  intro p as ty addr c vm r hp hentry habs halloc hflag
  obtain ⟨-, hloc, hpage, -⟩ := faultEntry_page hentry
  have hplace := h.onePlace hpage ⟨as, _, hp, (loadedAt_iff hloc).2 hflag⟩
  obtain ⟨⟨q, hinv, -⟩, -⟩ := h
  have htable : TableInv (s.vm.incr .TLBFAULT).cm q := hinv.table
  have hfresh := htable.pageaddr_eq_zero.1 habs
  rcases hplace with ⟨⟨f, hm, -⟩, -⟩ | ⟨-, k, hk, -⟩
  · exact absurd hm (hfresh f)
  · have hk' := allocuserpage_keeps_slot htable (hinv.pid_pos hp) hfresh halloc hk
    cases hslot : vm.swap.findSlot p c.fa with
    | none => exact absurd hk' (findSlot_none hslot k)
    | some slot => simp only [swapoutpage, hslot]

/-- In every state that completed faults, forks, exits and reaps lead to, the load flags, the page
    table and the swap map agree on where every page is, and `vm_fault` swaps in what it asks
    for. -/
theorem residency_partition {s₀ : Sys} (h₀ : s₀.Initial) (hrun : Reaches PagedStep s₀ s) :
    Partition s ∧ SwapsIn s := by
  have hinit : Spaced s₀ := by
    intro p as pc hp
    rw [h₀.2.2] at hp
    cases hp
  obtain ⟨hinv, hspaced⟩ := hrun.invariant (P := fun s => SeqInv s ∧ Spaced s)
    (fun s a s' h hstep => ⟨(SeqStep.inv h.1 hstep.1).1, hstep.spaced h.1 h.2⟩)
    ⟨h₀.seqInv, hinit⟩
  exact ⟨hinv.partition hspaced, hinv.swapsIn⟩

theorem smallSpace_disjoint : (smallSpace 4).Disjoint := by
  have h1 : (smallSpace 4).seg1.map (fun s => (s.startaddr, s.numpages)) = some (0x400000, 1) := by
    decide +kernel
  have h2 : (smallSpace 4).seg2.map (fun s => (s.startaddr, s.numpages)) = some (0x500000, 1) := by
    decide +kernel
  have h3 : (smallSpace 4).segstack.map (fun s => (s.startaddr, s.numpages))
      = some (0x7ffee000, 18) := by decide +kernel
  obtain ⟨s1, hs1, heq1⟩ := Option.map_eq_some_iff.1 h1
  obtain ⟨s2, hs2, heq2⟩ := Option.map_eq_some_iff.1 h2
  obtain ⟨st, hst, heqt⟩ := Option.map_eq_some_iff.1 h3
  obtain ⟨hstart1, hnum1⟩ := Prod.mk.inj heq1
  obtain ⟨hstart2, hnum2⟩ := Prod.mk.inj heq2
  obtain ⟨hstartt, hnumt⟩ := Prod.mk.inj heqt
  refine AddrSpace.disjoint_of_ordered hs1 hs2 hst ?_ ?_ ?_
  · rw [hstart1, hnum1, hstart2]
    decide
  · rw [hstart2, hnum2, hstartt]
    decide
  · rw [hstartt, hnumt]
    decide

/-- Process 2 uses three pages of its stack in two frames. -/
theorem residency_partition_small : ∃ s, Reaches PagedStep smallSys s ∧
    s.vm.swap.Holds 2 0x7ffff000 0 ∧ s.vm.cm.Maps 2 0x7fffe000 31 ∧ Partition s ∧ SwapsIn s := by
  have hstep : ∀ (s s' : Sys) a,
      a ∈ [.newProc 2 (smallSpace 4), .fault 2 .VM_FAULT_WRITE 0x7ffff000,
        .fault 2 .VM_FAULT_WRITE 0x7fffe000, .fault 2 .VM_FAULT_WRITE 0x7fffd000] →
      s.seqNext a = some s' → PagedStep s a s' := by
    intro s s' a ha hn
    refine ⟨seqNext_step hn, ?_⟩
    rintro pid layout rfl
    simp only [List.mem_cons, Action.newProc.injEq, reduceCtorEq, List.not_mem_nil, or_false] at ha
    rw [ha.2]
    have hruns := smallSpace_runs (smallSpace_spec 4 (.inr rfl)).1
    exact .inl ⟨smallElf 4, 0, hruns, smallSpace_disjoint⟩
  obtain ⟨s, hreach, hcheck⟩ := exists_reaches_of_replay (s := smallSys) hstep
    (p := fun s => decide (s.vm.swap.Holds 2 0x7ffff000 0) && decide (s.vm.cm.Maps 2 0x7fffe000 31))
    (by decide +kernel)
  simp only [Bool.and_eq_true, decide_eq_true_eq] at hcheck
  exact ⟨s, hreach, hcheck.1, hcheck.2, residency_partition smallSys_initial hreach⟩

end DemandPaging
