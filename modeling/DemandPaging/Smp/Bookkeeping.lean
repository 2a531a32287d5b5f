import DemandPaging.Smp.Invariant

set_option autoImplicit false

/-! # One set of variables for several TLBs

`lastpid` says whose entries are in the TLB, of which there are several. The bookkeeping is right
as long as one process at a time has entries in them. Otherwise a process that faults on one CPU
makes `lastpid` name it while the TLB of another CPU holds entries of somebody else: when the
process migrates there, it runs on those entries. And an eviction invalidates the page on the CPU
that evicts only; there is no call of `ipi_tlbshootdown`, which `thread.c` has for the purpose. -/

namespace DemandPaging

open Function (update update_self update_of_ne update_eq_self)

variable {κ : Type} [DecidableEq κ] {m : Smp κ} {c c' : κ} {k : Cpu} {r : Option (Nat × Int)}
  {w : Option TlbWrite} {own : Nat → Int}

/-! ## Steps -/

/-- The invariant of secluded runs. -/
structure SmpInv (m : Smp κ) : Prop where
  procs : ProcsInv m.sys.procs m.table m.curproc
  tlbs : TlbsInv m
  serves : ∀ c, Serves m c

theorem cpu_store_self : (m.store c k r).cpu c = k := by
  rw [Smp.cpu, tlb_store_self]
  simp [Smp.store]

theorem store_store (k' : Cpu) : (m.store c k none).store c k' r = m.store c k' r := by
  simp [Smp.store, recordWrite]

/-- A step that leaves the TLB alone and sends nobody into `vm_fault`. -/
theorem TlbsInv.quiet (h : TlbsInv m) (htlb : k.sys.vm.tlb = m.tlb c)
    (hctx : ∀ p proc x, k.sys.procs p = some proc → proc.pc.ctx = some x →
      m.sys.procs p = some proc) : TlbsInv (m.store c k none) := by
  have hs : Shifts (m.tlb c) (m.writtenFor c) k.sys.vm.tlb (m.writtenFor c) none := by
    rw [htlb]
    exact .refl (h.ok c)
  exact h.store hs (fun x hx => by cases hx) fun p proc x hp hx =>
    ⟨fun t ht => (by cases ht), .inl ⟨proc, x, hctx p proc x hp hx, hx, rfl⟩⟩

theorem Serves.quiet (h : Serves m c) (htlb : k.sys.vm.tlb = m.tlb c)
    (hcur : k.curproc = m.curproc c) (hback : ∀ pid, m.curproc c = some pid →
      k.sys.procs pid ≠ none → m.sys.procs pid ≠ none) : Serves (m.store c k none) c := by
  intro pid hp hne i hi
  rw [curproc_store_self, hcur] at hp
  rw [tlb_store_self, htlb] at hi
  rw [writtenFor_store_self]
  exact h pid hp (hback pid hp hne) i hi

theorem SmpInv.quiet (h : SmpInv m) (htlb : k.sys.vm.tlb = m.tlb c)
    (hcur : k.curproc = m.curproc c) (hprocs : ProcsInv k.sys.procs k.table m.curproc)
    (hctx : ∀ p proc x, k.sys.procs p = some proc → proc.pc.ctx = some x →
      m.sys.procs p = some proc)
    (hback : ∀ c pid, m.curproc c = some pid → k.sys.procs pid ≠ none → m.sys.procs pid ≠ none) :
    SmpInv (m.store c k none) := by
  refine ⟨?_, h.tlbs.quiet htlb hctx, fun c' => ?_⟩
  · show ProcsInv k.sys.procs k.table (update m.curproc c k.curproc)
    rw [hcur, update_eq_self]
    exact hprocs
  · by_cases hc : c' = c
    · rw [hc]
      exact (h.serves c).quiet htlb hcur (hback c)
    · exact (h.serves c').store_of_ne hc (hback c')

theorem asActivate_shifts (h : k.sys.vm.tlb.Ok) :
    Shifts k.sys.vm.tlb own k.asActivate.sys.vm.tlb own none := by
  unfold Cpu.asActivate
  split
  · exact .refl h
  · split
    · exact .refl h
    · exact shifts_activate h _ _

/-- `as_activate` on `c` leaves there the entries of the process that is current on `c`. -/
theorem asActivate_owned {pid : Int} (hcur : k.curproc = some pid) (hne : k.sys.procs pid ≠ none)
    (hlast : pid = k.sys.vm.tlb.lastpid → ∀ i, k.sys.vm.tlb.Live i → own i = pid) :
    ∀ i, k.asActivate.sys.vm.tlb.Live i → own i = pid := by
  obtain ⟨proc, hp⟩ := Option.ne_none_iff_exists'.1 hne
  have htlb : k.asActivate.sys.vm.tlb =
      (k.sys.vm.tlb.vmtlbInvalidate pid k.sys.vm.counter).1 := by
    simp [Cpu.asActivate, hcur, hp]
  rw [htlb]
  by_cases hpid : pid = k.sys.vm.tlb.lastpid
  · rw [Tlb.vmtlbInvalidate, if_pos hpid]
    exact hlast hpid
  · obtain ⟨-, hno, -⟩ := Tlb.vmtlbInvalidate_ne pid k.sys.vm.counter hpid
    exact fun i hi => absurd hi (hno i)

theorem SmpInv.activate (hprocs : ProcsInv m.sys.procs m.table m.curproc) (htlbs : TlbsInv m)
    (hserves : ∀ c', c' ≠ c → Serves m c') : SmpInv (m.store c (m.cpu c).asActivate none) := by
  obtain ⟨hp, htable, hcur⟩ := asActivate_spec (m.cpu c)
  have hsame : (m.cpu c).asActivate.sys.procs = m.sys.procs := hp
  refine ⟨?_, ?_, fun c' => ?_⟩
  · show ProcsInv _ (m.cpu c).asActivate.table (update m.curproc c _)
    rw [htable, hcur]
    exact hsame ▸ (update_eq_self c m.curproc).symm ▸ hprocs
  · have hs : Shifts (m.tlb c) (m.writtenFor c) (m.cpu c).asActivate.sys.vm.tlb
        (m.writtenFor c) none := asActivate_shifts (k := m.cpu c) (htlbs.ok c)
    refine htlbs.store hs (fun x hx => by cases hx)
      fun p proc x hp hx => ⟨fun t ht => (by cases ht), .inl ⟨proc, x, ?_, hx, rfl⟩⟩
    rw [hsame] at hp
    exact hp
  · by_cases hc : c' = c
    · subst hc
      intro pid hcur' hne i hi
      rw [curproc_store_self, hcur] at hcur'
      rw [tlb_store_self] at hi
      rw [writtenFor_store_self]
      refine asActivate_owned (k := m.cpu c') hcur' (hsame ▸ hne) (fun hlast => ?_) i hi
      -- `lastpid` is not 0, so every entry is an entry of `lastpid`
      have hpos := hprocs.pos (hprocs.slot c' pid hcur')
      have hlast : pid = m.sys.vm.tlb.lastpid := hlast
      rw [hlast]
      exact (htlbs.last c').resolve_left (by omega)
    · refine (hserves c' hc).store_of_ne hc fun pid _ hne => ?_
      rw [hsame] at hne
      exact hne

theorem wrote_eq {x : CpuAction} {a : Action} {s' : Sys} (hsys : k.sysAction x = some a)
    (hexec : k.sys.exec a = .ok (s', w)) :
    k.wrote x = w.map fun t => ((k.sys.tlbEvicted a).nextSlot, t.pid) := by
  cases w <;> simp [Cpu.wrote, hsys, hexec]

/-- A TLB write belongs to the fault that the action begins or goes on with. -/
theorem faulting_of_write {s s' : Sys} {a : Action} {t : TlbWrite}
    (hexec : s.exec a = .ok (s', some t)) : s.faulting a = some (t.pid, t.vaddr) := by
  rcases exec_write hexec with ⟨as, ty, addr, hp, rfl, -, hva⟩ | ⟨proc, c, hp, rfl, hc, hva⟩
  · simp [Sys.faulting, hp, hva]
  · simp [Sys.faulting, hp, hc, hva]

/-- The CPU `c` after an action of the paging system. -/
def Smp.after (m : Smp κ) (c : κ) (s' : Sys) : Cpu :=
  ({ sys := s', table := m.table, curproc := m.curproc c } : Cpu).leave

section Paging

variable {x : CpuAction} {a : Action} {s' : Sys}

omit [DecidableEq κ] in
/-- The TLB of the CPU that makes the step. A process that wakes up has no entry for its page, for
    the entries there are its own. -/
theorem SmpInv.shifts (h : SmpInv m) (hsys : (m.cpu c).sysAction x = some a)
    (hexec : (m.cpu c).sys.exec a = .ok (s', w)) :
    Shifts (m.tlb c) (m.writtenFor c) s'.vm.tlb
      (recordWrite (m.writtenFor c) ((m.cpu c).wrote x)) w := by
  have ha := sysAction_asks hsys
  rw [wrote_eq hsys hexec]
  refine shifts_exec (s := (m.cpu c).sys) (h.tlbs.ok c) hexec fun t ht => ?_
  subst ht
  obtain ⟨huser, hpage⟩ := exec_writesAt (s := (m.cpu c).sys)
    (P := fun v => v < USERSPACETOP ∧ pageOf v = v)
    (fun p proc y hp hy => (h.tlbs.asleep p proc y hp hy).1)
    (fun _ _ addr heq => ⟨pageOf_lt (ha.user heq), pageOf_pageOf addr⟩) hexec
  refine ⟨huser, hpage, fun i hi => ?_⟩
  obtain ⟨hcur, hne, hmiss | ⟨proc, y, hp, hy, hva⟩⟩ := ha.write hexec
  · exact hmiss i hi
  · rw [hva]
    exact (h.tlbs.asleep t.pid proc y hp hy).2 c i hi (h.serves c t.pid hcur hne i hi)

theorem SmpInv.asks (h : SmpInv m) (hsec : m.Secluded c x) (hsys : (m.cpu c).sysAction x = some a)
    (hexec : (m.cpu c).sys.exec a = .ok (s', w)) :
    SmpInv (m.store c (m.after c s') ((m.cpu c).wrote x)) := by
  have ha := sysAction_asks hsys
  obtain ⟨hleave, htable, hcur⟩ := leave_spec ⟨s', m.table, m.curproc c⟩
  change (m.after c s').sys = s' at hleave
  change (m.after c s').table = m.table at htable
  change ∀ pid, (m.after c s').curproc = some pid → m.curproc c = some pid at hcur
  have hs := h.shifts hsys hexec
  rw [← hleave] at hs
  have hback : ∀ p, (m.after c s').sys.procs p ≠ none → m.sys.procs p ≠ none := by
    intro p hp hnone
    rw [hleave] at hp
    exact hp (exec_absent (s := (m.cpu c).sys) hnone ha.not_new hexec)
  have hwrite : ∀ t, w = some t → m.curproc c = some t.pid ∧ m.sys.procs t.pid ≠ none := by
    rintro t rfl
    obtain ⟨hpc, hne, -⟩ := ha.write hexec
    exact ⟨hpc, hne⟩
  refine ⟨?_, h.tlbs.store hs (fun t ht c' => ?_) fun p proc y hp hy => ⟨fun t ht htp => ?_, ?_⟩,
    fun c' => ?_⟩
  · show ProcsInv (m.after c s').sys.procs (m.after c s').table (update m.curproc c _)
    rw [htable, hleave]
    exact ProcsInv.asks (k := m.cpu c) h.procs rfl ha hexec
  · obtain ⟨hpc, hne⟩ := hwrite t ht
    subst ht
    by_cases hc : c' = c
    · rw [hc]
      exact h.serves c t.pid hpc hne
    · have hfaulting : m.sys.faulting a = _ := faulting_of_write (s := (m.cpu c).sys) hexec
      exact fun i hi => (hsec.own a _ _ hsys hfaulting c' hc i hi).1
  · subst ht htp
    obtain ⟨as', huser⟩ := exec_write_user hexec
    rw [hleave, huser] at hp
    cases hp
    cases hy
  · rw [hleave] at hp
    rcases exec_ctx hexec hp hy with ⟨proc₀, y₀, hp₀, hy₀, heq⟩ |
      ⟨as, ty, addr, hp₀, rfl, hty, heq⟩
    · exact .inl ⟨proc₀, y₀, hp₀, hy₀, heq⟩
    · obtain ⟨-, hlt, hro | hmiss⟩ := ha
      · exact absurd hro hty
      · rw [heq]
        refine .inr ⟨⟨pageOf_lt hlt, pageOf_pageOf addr⟩, fun c' i hi => ?_⟩
        by_cases hc : c' = c
        · subst hc
          exact hmiss i hi
        · have hfaulting : m.sys.faulting (.fault p ty addr) = some (p, pageOf addr) := by
            have hp₀ : m.sys.procs p = some ⟨as, .user⟩ := hp₀
            simp [Sys.faulting, hp₀]
          exact (hsec.own _ p _ hsys hfaulting c' hc i hi).2
  · by_cases hc : c' = c
    · subst hc
      intro pid hpc hne
      rw [curproc_store_self] at hpc
      have hpc := hcur pid hpc
      refine hs.owned (h.serves c' pid hpc (hback pid hne)) fun t ht => ?_
      exact Option.some.inj ((hwrite t ht).1.symm.trans hpc)
    · exact (h.serves c').store_of_ne hc fun pid _ hne => hback pid hne

theorem SmpInv.wait {pid : Int} {table : ProcessTable} (h : SmpInv m)
    (hsec : m.Secluded c (.wait pid)) (hsys : (m.cpu c).sysAction (.wait pid) = some (.reap pid))
    (hexec : (m.cpu c).sys.exec (.reap pid) = .ok (s', w))
    (htable : m.table.procEndWaitpid pid = .ok table) :
    SmpInv { m.store c (m.after c s') ((m.cpu c).wrote (.wait pid)) with table := table } := by
  obtain ⟨hprocs, htlbs, hserves⟩ := h.asks hsec hsys hexec
  have hkeep : (m.after c s').table = m.table := (leave_spec ⟨s', m.table, m.curproc c⟩).2.1
  have hdead : ∃ as, m.sys.procs pid = some ⟨as, .zombie⟩ := by
    cases sysAction_asks hsys with
    | reap hz => exact ⟨_, hz⟩
  obtain ⟨as, hz⟩ := hdead
  refine ⟨hprocs.endWaitpid (hkeep.symm ▸ htable) (fun c' hp => ?_) ?_,
    ⟨htlbs.ok, htlbs.last, htlbs.asleep⟩, hserves⟩
  · exact h.procs.alive c' pid as
      (update_leave (k := ⟨s', m.table, m.curproc c⟩) rfl hp) hz
  · rintro rfl
    rw [h.procs.kernel] at hz
    cases hz

end Paging

theorem SmpInv.switch {pid : Int} (h : SmpInv m) (hen : m.Enabled c (.switch pid))
    (hslot : m.table.proc pid.toNat ≠ none) (hlive : ∀ as, m.sys.procs pid ≠ some ⟨as, .zombie⟩) :
    SmpInv (m.store c (⟨(m.cpu c).sys, m.table, some pid⟩ : Cpu).asActivate none) := by
  have hactivate := SmpInv.activate
    (m := m.store c ⟨(m.cpu c).sys, m.table, some pid⟩ none) (c := c) ?_
    (h.tlbs.quiet rfl fun p proc x hp _ => hp)
    fun c' hc => (h.serves c').store_of_ne hc fun _ _ hne => hne
  · rw [cpu_store_self, store_store] at hactivate
    exact hactivate
  · show ProcsInv m.sys.procs m.table (update m.curproc c (some pid))
    have hcases : ∀ c' p, update m.curproc c (some pid) c' = some p →
        (c' = c ∧ p = pid) ∨ (c' ≠ c ∧ m.curproc c' = some p) := by
      intro c' p hp
      by_cases hc : c' = c
      · rw [hc, update_self] at hp
        exact .inl ⟨hc, (Option.some.inj hp).symm⟩
      · rw [update_of_ne hc] at hp
        exact .inr ⟨hc, hp⟩
    refine ⟨fun c' p hp => ?_, fun c' p as hp => ?_, fun c₁ c₂ p h₁ h₂ => ?_, h.procs.unused,
      h.procs.kernel, h.procs.kernelSlot⟩
    · rcases hcases c' p hp with ⟨-, rfl⟩ | ⟨-, hold⟩
      · exact hslot
      · exact h.procs.slot c' p hold
    · rcases hcases c' p hp with ⟨-, rfl⟩ | ⟨-, hold⟩
      · exact hlive as
      · exact h.procs.alive c' p as hold
    · rcases hcases c₁ p h₁ with ⟨rfl, rfl⟩ | ⟨hc₁, hold₁⟩
      · rcases hcases c₂ p h₂ with ⟨rfl, -⟩ | ⟨hc₂, hold₂⟩
        · exact .inr rfl
        · exact hen.imp_right fun hno => absurd hold₂ (hno c₂ hc₂)
      · rcases hcases c₂ p h₂ with ⟨rfl, rfl⟩ | ⟨hc₂, hold₂⟩
        · exact hen.imp_right fun hno => absurd hold₁ (hno c₁ hc₁)
        · exact h.procs.single c₁ c₂ p hold₁ hold₂

theorem SmpInv.runprogram {pid : Int} (h : SmpInv m) (layout : AddrSpace)
    (hcur : m.curproc c = some pid) (hkernel : pid ≠ KERNEL_PID) :
    SmpInv (m.store c (⟨(m.cpu c).sys.execNewProc pid layout, m.table, m.curproc c⟩ :
      Cpu).asActivate none) := by
  have hvm : ((m.cpu c).sys.execNewProc pid layout).vm = (m.cpu c).sys.vm :=
    execNewProc_vm _ pid layout
  have hactivate := SmpInv.activate (c := c)
    (m := m.store c ⟨(m.cpu c).sys.execNewProc pid layout, m.table, m.curproc c⟩ none) ?_
    (h.tlbs.quiet (by rw [hvm]; rfl)
      fun p proc x hp hx => execNewProc_ctx (s := (m.cpu c).sys) hp hx)
    fun c' hc => (h.serves c').store_of_ne hc fun p hp hne hnone => ?_
  · rw [cpu_store_self, store_store] at hactivate
    exact hactivate
  · show ProcsInv ((m.cpu c).sys.execNewProc pid layout).procs m.table
      (update m.curproc c (m.curproc c))
    rw [update_eq_self]
    exact ProcsInv.newProc (s := (m.cpu c).sys) h.procs layout hkernel
  · -- the new process is current on `c`, so on no other CPU
    have hpid : p ≠ pid := by
      rintro rfl
      exact hc ((h.procs.single c' c p hp hcur).resolve_left hkernel)
    exact hne ((execNewProc_of_ne _ layout hpid).trans hnone)

theorem SmpInv.step {l : κ × CpuAction} {m' : Smp κ} (h : SmpInv m) (hstep : SecludedStep m l m') :
    SmpInv m' := by
  obtain ⟨c, x⟩ := l
  obtain ⟨⟨hen, hexec⟩, hsec⟩ := hstep
  unfold Smp.exec at hexec
  split at hexec
  · cases hexec
  · next k' hk =>
    cases hexec
    cases cpuStep_move (k := m.cpu c) hk with
    | stay hnone =>
      have hwrote : (m.cpu c).wrote x = none := by
        unfold Cpu.wrote
        rw [hnone]
      show SmpInv (m.store c _ ((m.cpu c).wrote x))
      rw [hwrote]
      exact h.quiet rfl rfl h.procs (fun _ _ _ hp _ => hp) fun _ _ _ hne => hne
    | create hinit =>
      exact h.quiet rfl rfl (h.procs.initWaitpid hinit) (fun _ _ _ hp _ => hp)
        fun _ _ _ hne => hne
    | runprogram layout hcur hkernel => exact h.runprogram layout hcur hkernel
    | @fork pid child as as' table _ _ hinit =>
      obtain ⟨hkernel, hnew⟩ := h.procs.fresh hinit
      refine h.quiet (congrArg Vm.tlb (execNewProc_vm (m.cpu c).sys child as')) rfl
        ((ProcsInv.newProc (s := (m.cpu c).sys) h.procs as' hkernel).initWaitpid hinit)
        (fun _ _ _ hp hx => execNewProc_ctx (s := (m.cpu c).sys) hp hx)
        fun c' p hp hne hnone => ?_
      have hpc : p ≠ child := fun heq => hnew c' (heq ▸ hp)
      exact hne ((execNewProc_of_ne (m.cpu c).sys as' hpc).trans hnone)
    | switch hslot hlive => exact h.switch hen hslot hlive
    | wait hsys hreap htable => exact h.wait hsec hsys hreap htable
    | paging hsys _ hexec => exact h.asks hsec hsys hexec

/-! ## Runs -/

omit [DecidableEq κ] in
theorem Smp.Initial.smpInv (h : m.Initial) : SmpInv m := by
  obtain ⟨hsys, htlb, hentries, hcur, htable⟩ := h
  have hboot : ∀ c, m.tlb c = Tlb.boot := by
    intro c
    rw [Smp.tlb, htlb, hentries]
    rfl
  have hno : ∀ c i, ¬ (m.tlb c).Live i := by
    intro c
    rw [hboot]
    exact Tlb.boot_live
  obtain ⟨j, hj, hpos, -, hproc⟩ := ProcessTable.procInitWaitpid_ok htable
  have hslot : m.table.proc KERNEL_PID.toNat ≠ none := by
    rw [hproc, show KERNEL_PID.toNat = j by omega, update_self]
    exact Option.some_ne_none _
  refine ⟨⟨fun c pid hp => ?_, fun c pid as _ => ?_, fun c c' pid hp _ => ?_, ?_, hsys.2.2 _,
    hslot⟩, ⟨fun c => ?_, fun c => .inr fun i hi => absurd hi (hno c i), fun p proc x hp => ?_⟩,
    fun c pid _ _ i hi => absurd hi (hno c i)⟩
  · obtain rfl := Option.some.inj ((hcur c).symm.trans hp)
    exact hslot
  · rw [hsys.2.2]
    exact (Option.some_ne_none _).symm
  · exact .inl (Option.some.inj ((hcur c).symm.trans hp)).symm
  · rw [hproc, update_of_ne (by omega)]
    rfl
  · rw [hboot]
    exact Tlb.boot_ok
  · rw [hsys.2.2] at hp
    cases hp

theorem SmpInv.tlbsTrue {x : CpuAction} (h : SmpInv m) (hsec : m.Secluded c x) :
    m.TlbsTrue c x := by
  refine ⟨fun pid hact hlast => ?_, fun v hv c' i hi hvalid => ?_⟩
  · have hpos := h.procs.pos (activates_cases hact).1
    rw [hlast]
    exact (h.tlbs.last c).resolve_left (by omega)
  · rintro ⟨hpage, -⟩
    unfold Smp.entriesEvicted at hvalid hpage
    by_cases hc : c' = c
    · subst hc
      rw [update_self] at hvalid hpage
      obtain ⟨-, -, hlive⟩ := Tlb.vmtlbInvalidatepage_spec (h.tlbs.ok c') v.vaddr
      obtain ⟨-, heq, hne⟩ := hlive i ⟨hi, hvalid⟩
      rw [heq] at hpage
      exact hne (by rw [← hpage, TlbEntry.page_mask])
    · rw [update_of_ne hc] at hvalid hpage
      exact hsec.gone v hv c' hc i ⟨hi, hvalid⟩ hpage

/-- With one process at a time in the TLBs, and evicted pages in the TLB of the evicting CPU only,
    `lastpid` and `vmtlb_invalidatepage` do what they are for. -/
theorem secluded_tlbsTrue {m₀ m m' : Smp κ} {x : CpuAction} (h₀ : m₀.Initial)
    (hrun : Reaches SecludedStep m₀ m) (hstep : SecludedStep m (c, x) m') : m.TlbsTrue c x :=
  (hrun.invariant (fun _ _ _ h hs => SmpInv.step h hs) h₀.smpInv).tlbsTrue hstep.2

/-! ## Two CPUs on the small system -/

def smallSmp : Smp (Fin 2) where
  sys := smallSys
  table := smallCpu.table
  entries := fun _ => TlbEntry.reset
  curproc := fun _ => some KERNEL_PID
  writtenFor := fun _ _ => 0

theorem smallSmp_initial : smallSmp.Initial :=
  ⟨smallSys_initial, rfl, fun _ => rfl, fun _ => rfl, rfl⟩

def Smp.enabled (m : Smp (Fin 2)) (c : Fin 2) : CpuAction → Bool
  | .switch pid => decide (pid = KERNEL_PID ∨ ∀ c', c' ≠ c → m.curproc c' ≠ some pid)
  | _ => true

theorem enabled_iff {m : Smp (Fin 2)} {c : Fin 2} {x : CpuAction} :
    m.enabled c x = true ↔ m.Enabled c x := by
  cases x with
  | switch pid => exact decide_eq_true_iff
  | _ => exact ⟨fun _ => trivial, fun _ => rfl⟩

def Smp.next (m : Smp (Fin 2)) (l : Fin 2 × CpuAction) : Option (Smp (Fin 2)) :=
  if m.enabled l.1 l.2 then (m.exec l.1 l.2).toOption else none

theorem smpNext_step {m m' : Smp (Fin 2)} {l : Fin 2 × CpuAction} (h : m.next l = some m') :
    SmpStep m l m' :=
  (of_ite_toOption h).imp_left enabled_iff.1

/-- The steps of the paging system are made while the other TLB is empty. -/
def Smp.nextSecluded (m : Smp (Fin 2)) (l : Fin 2 × CpuAction) : Option (Smp (Fin 2)) :=
  if ((m.cpu l.1).sysAction l.2).isNone ∨
      ∀ c, c ≠ l.1 → ∀ i < NUM_TLB, (m.entries c i).valid = false then m.next l
  else none

theorem nextSecluded_step {m m' : Smp (Fin 2)} {l : Fin 2 × CpuAction}
    (h : m.nextSecluded l = some m') : SecludedStep m l m' := by
  unfold Smp.nextSecluded at h
  split at h
  · next hcond =>
    refine ⟨smpNext_step h, ?_⟩
    rcases hcond with hnone | hempty
    · have hnone := Option.isNone_iff_eq_none.1 hnone
      refine ⟨fun a p v ha => ?_, fun v hv => ?_⟩
      · rw [hnone] at ha
        cases ha
      · rw [Cpu.evicted, hnone] at hv
        cases hv
    · have hno : ∀ c, c ≠ l.1 → ∀ i, ¬ (m.tlb c).Live i := by
        intro c hc i hi
        have hv : (m.entries c i).valid = true := hi.2
        rw [hempty c hc i hi.1] at hv
        cases hv
      exact ⟨fun _ _ _ _ _ c hc i hi => absurd hi (hno c hc i),
        fun _ _ c hc i hi => absurd hi (hno c hc i)⟩
  · cases h

/-- A program moves to the second CPU, fills both frames there and goes to sleep in an eviction. -/
def migrateAndEvict : List (Fin 2 × CpuAction) :=
  [(0, .create), (0, .switch 2), (0, .runprogram smallLayout), (0, .switch 1), (1, .switch 2),
    (1, .touch 0x7ffff000 true), (1, .touch 0x7fffe000 true), (1, .touch 0x7fffd000 true),
    (1, .io 2)]

theorem migrateAndEvict_tlbsTrue : ∃ m m', Reaches SecludedStep smallSmp m ∧
    SecludedStep m (1, .resume) m' ∧ ((m.cpu 1).evicted .resume).isSome = true ∧
      m.TlbsTrue 1 .resume := by
  have hstep : ∀ (m m' : Smp (Fin 2)) l, l ∈ migrateAndEvict → m.nextSecluded l = some m' →
      SecludedStep m l m' := fun _ _ _ _ hn => nextSecluded_step hn
  obtain ⟨m, hreach, hcheck⟩ := exists_reaches_of_replay (s := smallSmp) hstep
    (p := fun m => ((m.cpu 1).evicted .resume).isSome && (m.nextSecluded (1, .resume)).isSome)
    (by decide +kernel)
  simp only [Bool.and_eq_true] at hcheck
  obtain ⟨m', hm'⟩ := Option.isSome_iff_exists.1 hcheck.2
  have hlast := nextSecluded_step hm'
  exact ⟨m, m', hreach, hlast, hcheck.1, secluded_tlbsTrue smallSmp_initial hreach hlast⟩

/-- Two programs touch a page each, one on each CPU. -/
def touchOnBoth : List (Fin 2 × CpuAction) :=
  [(0, .create), (0, .create), (0, .switch 2), (0, .runprogram smallLayout),
    (0, .touch 0x7ffff000 true), (1, .switch 3), (1, .runprogram smallLayout),
    (1, .touch 0x7ffff000 true)]

/-- `vmtlb_invalidate` finds the pid it is called for in `lastpid`, and slot 0 was written for
    another one. -/
def Smp.keepsForeign (m : Smp (Fin 2)) (c : Fin 2) (x : CpuAction) : Bool :=
  match (m.cpu c).activates x with
  | some pid =>
    pid == m.sys.vm.tlb.lastpid && (m.entries c 0).valid && m.writtenFor c 0 != pid
  | none => false

theorem not_tlbsTrue_of_keepsForeign {m : Smp (Fin 2)} {c : Fin 2} {x : CpuAction}
    (h : m.keepsForeign c x = true) : ¬ m.TlbsTrue c x := by
  intro htrue
  unfold Smp.keepsForeign at h
  split at h
  · next pid hact =>
    simp only [Bool.and_eq_true, beq_iff_eq, bne_iff_ne] at h
    obtain ⟨⟨hlast, hv⟩, hne⟩ := h
    exact hne (htrue.kept pid hact hlast 0 ⟨by decide, hv⟩)
  · cases h

/-- The eviction on one CPU leaves slot 0 of the other one, which maps the page to its frame. -/
def Smp.keepsEvicted (m : Smp (Fin 2)) (c c' : Fin 2) (x : CpuAction) : Bool :=
  match (m.cpu c).evicted x with
  | some v =>
    (m.entriesEvicted c v c' 0).valid && (m.entriesEvicted c v c' 0).page == v.vaddr &&
      (m.entriesEvicted c v c' 0).frame == v.frame
  | none => false

theorem not_tlbsTrue_of_keepsEvicted {m : Smp (Fin 2)} {c c' : Fin 2} {x : CpuAction}
    (h : m.keepsEvicted c c' x = true) : ¬ m.TlbsTrue c x := by
  intro htrue
  unfold Smp.keepsEvicted at h
  split at h
  · next v hev =>
    simp only [Bool.and_eq_true, beq_iff_eq] at h
    exact htrue.gone v hev c' 0 (by decide) h.1.1 ⟨h.1.2, h.2⟩
  · cases h

/-- The second program moves to the first CPU, or it evicts the page of the first program. -/
theorem two_tlbs_untrue : smallSmp.Initial ∧
    (∃ m m', Reaches SmpStep smallSmp m ∧ SmpStep m (0, .switch 3) m' ∧
      ¬ m.TlbsTrue 0 (.switch 3)) ∧
    ∃ m m', Reaches SmpStep smallSmp m ∧ SmpStep m (1, .resume) m' ∧ ¬ m.TlbsTrue 1 .resume := by
  refine ⟨smallSmp_initial, ?_, ?_⟩
  · have hstep : ∀ (m m' : Smp (Fin 2)) l, l ∈ touchOnBoth ++ [(1, .switch 1)] →
        m.next l = some m' → SmpStep m l m' := fun _ _ _ _ hn => smpNext_step hn
    obtain ⟨m, hreach, hcheck⟩ := exists_reaches_of_replay (s := smallSmp) hstep
      (p := fun m => m.keepsForeign 0 (.switch 3) && (m.next (0, .switch 3)).isSome)
      (by decide +kernel)
    simp only [Bool.and_eq_true] at hcheck
    obtain ⟨m', hm'⟩ := Option.isSome_iff_exists.1 hcheck.2
    exact ⟨m, m', hreach, smpNext_step hm', not_tlbsTrue_of_keepsForeign hcheck.1⟩
  · have hstep : ∀ (m m' : Smp (Fin 2)) l,
        l ∈ touchOnBoth ++ [(1, .touch 0x7fffe000 true), (1, .io 3)] →
        m.next l = some m' → SmpStep m l m' := fun _ _ _ _ hn => smpNext_step hn
    obtain ⟨m, hreach, hcheck⟩ := exists_reaches_of_replay (s := smallSmp) hstep
      (p := fun m => m.keepsEvicted 1 0 .resume && (m.next (1, .resume)).isSome)
      (by decide +kernel)
    simp only [Bool.and_eq_true] at hcheck
    obtain ⟨m', hm'⟩ := Option.isSome_iff_exists.1 hcheck.2
    exact ⟨m, m', hreach, smpNext_step hm', not_tlbsTrue_of_keepsEvicted hcheck.1⟩

end DemandPaging
