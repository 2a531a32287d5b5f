import DemandPaging.Cpu
import DemandPaging.Machine.TlbOwner

set_option autoImplicit false

/-! # The TLB serves the current process

`as_activate` flushes the TLB unless the pid of the process it activates is `lastpid`. That is right
as long as a pid means one process: the theorem of this file holds for runs that never give a new
process the pid the TLB was last filled for. The table has room for a hundred processes and hands
out pids in a circle, so a program that leaves enough children behind makes the next program inherit
its pid, and with it the TLB entries of its frames, which are free or somebody else's by then. -/

namespace DemandPaging

open Function (update update_self update_of_ne)

/-- The invariant of orderly runs. -/
structure CpuInv (k : Cpu) : Prop where
  flat : FlatInv k.sys
  tlb : TlbInv k.sys
  user : UserFaults k.sys
  active : ∀ pid, k.curproc = some pid → k.sys.procs pid ≠ none → Active k.sys pid
  fresh : ∀ i, k.table.proc i ≠ none → k.sys.procs i = none → k.sys.vm.tlb.lastpid ≠ i
  unused : k.table.proc 0 = none

variable {k k' : Cpu} {a : Action} {s s' : Sys} {w : Option TlbWrite}

/-! ## Steps of the paging system -/

/-- What the CPU lets the paging system do: faults in user space on a TLB miss and wake-ups are the
    current process's, and there is no store and no new process. -/
structure Allowed (k : Cpu) (a : Action) : Prop where
  calm : Calm k.sys a
  granted : Granted k.sys a
  fault : ∀ p t addr, a = .fault p t addr → k.curproc = some p ∧ addr < USERSPACETOP ∧
    (t = .VM_FAULT_READONLY ∨
      ∀ i, k.sys.vm.tlb.Live i → (k.sys.vm.tlb.entry i).page ≠ pageOf addr)
  resume : ∀ p, a = .resume p → k.curproc = some p
  noStore : ¬ a.IsStore
  noNew : ∀ p layout, a ≠ .newProc p layout

theorem Asks.allowed (h : Asks k a) (hc : Calm k.sys a) (hg : Granted k.sys a) : Allowed k a where
  calm := hc
  granted := hg
  fault p t addr heq := by
    subst heq
    cases h with
    | fault hcur hlt hmiss => exact ⟨hcur, hlt, hmiss⟩
  resume p heq := by
    subst heq
    cases h with
    | resume hcur => exact hcur
  noStore hs := by
    obtain ⟨p, addr, b, rfl⟩ := hs
    cases h
  noNew p layout := h.not_new layout

/-- The CPU lets only the current process write to the TLB. -/
theorem Allowed.writeOk {t : TlbWrite} (h : CpuInv k) (ha : Allowed k a)
    (hexec : k.sys.exec a = .ok (s', some t)) :
    WriteOk k.sys t ∧ k.curproc = some t.pid ∧ k.sys.procs t.pid ≠ none := by
  have hlt : t.vaddr < USERSPACETOP := exec_writesAt (P := (· < USERSPACETOP)) h.user
    (fun p ty addr heq => pageOf_lt (ha.fault p ty addr heq).2.1) hexec
  rcases exec_write hexec with ⟨as, ty, addr, hp, rfl, hty, hva⟩ | ⟨proc, c, hp, rfl, hc, -⟩
  · have hne : k.sys.procs t.pid ≠ none := by
      rw [hp]
      exact Option.some_ne_none _
    obtain ⟨hcur, -, hro | hmiss⟩ := ha.fault _ _ _ rfl
    · exact absurd hro hty
    · exact ⟨⟨h.active _ hcur hne, hlt, fun as _ i hi => hva ▸ hmiss i hi⟩, hcur, hne⟩
  · have hne : k.sys.procs t.pid ≠ none := by
      rw [hp]
      exact Option.some_ne_none _
    have hcur := ha.resume _ rfl
    refine ⟨⟨h.active _ hcur hne, hlt, fun as hp' => ?_⟩, hcur, hne⟩
    rw [hp] at hp'
    cases hp'
    cases hc

/-- An allowed action keeps the invariant, except that a process that is reaped still has its slot
    in the table. -/
theorem CpuInv.exec (h : CpuInv k) (ha : Allowed k a) (hexec : k.sys.exec a = .ok (s', w)) :
    FlatInv s' ∧ TlbInv s' ∧ UserFaults s' ∧
    (∀ pid, k.curproc = some pid → s'.procs pid ≠ none → Active s' pid) ∧
    ∀ i, k.table.proc i ≠ none → s'.procs i = none → s'.vm.tlb.lastpid ≠ i ∨ a = .reap i := by
  obtain ⟨q, hinv, hcop, hmem⟩ := h.flat
  have hu := unraced_of_not_store (s := k.sys) ha.noStore
  obtain ⟨q', hm⟩ := exec_moves_granted hinv ha.calm hu ha.granted hexec
  have huser := exec_userFaults h.user (fun p t addr heq => (ha.fault p t addr heq).2.1) hexec
  have hwrite : ∀ t, w = some t → _ := fun t ht => ha.writeOk h (ht ▸ hexec)
  obtain ⟨hquiet, hlast⟩ := hm.active hinv hmem h.tlb
  have hback : ∀ p, s'.procs p ≠ none → k.sys.procs p ≠ none := fun p hp hnone =>
    hp (exec_absent hnone (ha.noNew p) hexec)
  refine ⟨⟨q', hm.inv hinv, hm.copied hinv hcop, hm.memInv hinv hcop hmem⟩,
    hm.tlbInv hinv hcop hmem h.tlb (fun t ht => (hwrite t ht).1)
      (fun p hnone hp => absurd hnone (hback p hp)), huser, fun pid hcur hp => ?_,
    fun i hi hp => ?_⟩
  · cases w with
    | none => exact (hquiet rfl).2 pid (h.active pid hcur (hback pid hp))
    | some t =>
      obtain ⟨-, hcur', -⟩ := hwrite t rfl
      rw [hcur] at hcur'
      exact .inl ((hlast t rfl).trans (Option.some.inj hcur').symm)
  · by_cases hold : k.sys.procs i = none
    · left
      cases w with
      | none =>
        rw [(hquiet rfl).1]
        exact h.fresh i hi hold
      | some t =>
        rw [hlast t rfl]
        intro heq
        exact (hwrite t rfl).2.2 (heq ▸ hold)
    · exact .inr (exec_reaped hold hexec hp)

/-! ## Steps of the CPU -/

theorem FlatInv.with_tlb (h : FlatInv s) (tlb : Tlb) (counter : Counters) :
    FlatInv { s with vm := { s.vm with tlb := tlb, counter := counter } } := by
  obtain ⟨q, hinv, hcop, hmem⟩ := h
  exact ⟨q, hinv, hcop, ⟨hmem.loads, hmem.backed⟩⟩

theorem tlbInv_of_no_live {t : Tlb} (hok : t.Ok) (hno : ∀ i, ¬ t.Live i) (counter : Counters) :
    TlbInv { s with vm := { s.vm with tlb := t, counter := counter } } :=
  ⟨hok, fun _ _ _ i hi => absurd hi (hno i), fun _ _ _ _ _ i hi => absurd hi (hno i)⟩

/-- `as_activate` makes the current process the one the TLB serves. -/
theorem cpuInv_asActivate (hflat : FlatInv k.sys) (htlb : TlbInv k.sys) (huser : UserFaults k.sys)
    (hfresh : ∀ i, k.table.proc i ≠ none → k.sys.procs i = none → k.sys.vm.tlb.lastpid ≠ i)
    (hunused : k.table.proc 0 = none) : CpuInv k.asActivate := by
  unfold Cpu.asActivate
  split
  · next hcur =>
    refine ⟨hflat, htlb, huser, fun pid hp => ?_, hfresh, hunused⟩
    rw [hcur] at hp
    cases hp
  · next pid hcur =>
    split
    · next hnone =>
      refine ⟨hflat, htlb, huser, fun pid' hp' hne => ?_, hfresh, hunused⟩
      rw [hcur] at hp'
      cases hp'
      exact absurd hnone hne
    · by_cases hpid : pid = k.sys.vm.tlb.lastpid
      · have hsame : k.sys.vm.tlb.vmtlbInvalidate pid k.sys.vm.counter =
            (k.sys.vm.tlb, k.sys.vm.counter) := if_pos hpid
        dsimp only
        rw [hsame]
        refine ⟨hflat, htlb, huser, fun pid' hp' _ => ?_, hfresh, hunused⟩
        rw [hcur] at hp'
        cases hp'
        exact .inl hpid.symm
      · obtain ⟨hok, hno, hlast⟩ := Tlb.vmtlbInvalidate_ne pid k.sys.vm.counter hpid
        refine ⟨hflat.with_tlb _ _, tlbInv_of_no_live hok hno _, huser, fun _ _ _ => .inr hno,
          fun i hi _ => ?_, hunused⟩
        show (k.sys.vm.tlb.vmtlbInvalidate pid k.sys.vm.counter).1.lastpid ≠ i
        rw [hlast]
        intro h0
        rw [show i = 0 by omega] at hi
        exact hi hunused

/-- A new process whose pid the TLB does not know. -/
theorem CpuInv.newProc (h : CpuInv k) {pid : Int} (layout : AddrSpace)
    (hpid : 0 < pid → k.sys.procs pid = none → pid ≠ k.sys.vm.tlb.lastpid) :
    FlatInv (k.sys.execNewProc pid layout) ∧ TlbInv (k.sys.execNewProc pid layout) ∧
      UserFaults (k.sys.execNewProc pid layout) ∧
      (k.sys.execNewProc pid layout).vm = k.sys.vm ∧
      ∀ p, (k.sys.execNewProc pid layout).procs p = none → k.sys.procs p = none := by
  obtain ⟨q, hinv, hcop, hmem⟩ := h.flat
  have hm : OtherMove k.sys q (k.sys.execNewProc pid layout) q := execNewProc_move pid layout
  have hcases : k.sys.execNewProc pid layout = k.sys ∨ (0 < pid ∧ k.sys.procs pid = none ∧
      (k.sys.execNewProc pid layout).vm = k.sys.vm ∧ (k.sys.execNewProc pid layout).procs =
        update k.sys.procs pid (some ⟨some layout.unloaded, .user⟩)) := by
    unfold Sys.execNewProc
    split
    · next hc => exact .inr ⟨hc.1, Option.isNone_iff_eq_none.1 hc.2, rfl, rfl⟩
    · exact .inl rfl
  have hnew : ∀ p, k.sys.procs p = none → (k.sys.execNewProc pid layout).procs p ≠ none →
      p ≠ k.sys.vm.tlb.lastpid := by
    intro p hnone hne
    rcases hcases with heq | ⟨hpos, habsent, -, hprocs⟩
    · rw [heq] at hne
      exact absurd hnone hne
    · by_cases hpp : p = pid
      · rw [hpp]
        exact hpid hpos habsent
      · rw [hprocs, update_of_ne hpp] at hne
        exact absurd hnone hne
  refine ⟨⟨q, hm.inv hinv, hm.copied hinv hcop, hm.memInv hinv hmem⟩, hm.tlbInv h.tlb hnew,
    fun p proc c hp hc => h.user p proc c (execNewProc_ctx hp hc) hc, ?_, fun p hp => ?_⟩
  · rcases hcases with heq | ⟨-, -, hvm, -⟩
    · rw [heq]
    · exact hvm
  · rcases hcases with heq | ⟨-, -, -, hprocs⟩
    · rw [← heq]
      exact hp
    · by_cases hpp : p = pid
      · rw [hprocs, hpp, update_self] at hp
        cases hp
      · rw [hprocs, update_of_ne hpp] at hp
        exact hp

theorem Orderly.allowed {x : CpuAction} (h : Orderly k x) (hx : k.sysAction x = some a) :
    Allowed k a :=
  (sysAction_asks hx).allowed (h.calm a hx) (h.granted a hx)

theorem CpuInv.paging (h : CpuInv k) (ha : Allowed k a) (hreap : ∀ p, a ≠ .reap p)
    (hexec : k.sys.exec a = .ok (s', w)) : CpuInv ({ k with sys := s' } : Cpu).leave := by
  obtain ⟨hflat, htlb, huser, hactive, hfresh⟩ := h.exec ha hexec
  obtain ⟨hsys, htable, hcur⟩ := leave_spec { k with sys := s' }
  refine ⟨hsys ▸ hflat, hsys ▸ htlb, hsys ▸ huser, ?_, ?_, ?_⟩
  · rw [hsys]
    exact fun pid hp => hactive pid (hcur pid hp)
  · rw [hsys, htable]
    exact fun i hi hp => (hfresh i hi hp).resolve_right (hreap i)
  · rw [htable]
    exact h.unused

theorem CpuInv.wait {pid : Int} {table : ProcessTable} (h : CpuInv k)
    (ha : Allowed k (.reap pid)) (hexec : k.sys.exec (.reap pid) = .ok (s', w))
    (htable : k.table.procEndWaitpid pid = .ok table) :
    CpuInv { ({ k with sys := s' } : Cpu).leave with table := table } := by
  obtain ⟨hflat, htlb, huser, hactive, hfresh⟩ := h.exec ha hexec
  obtain ⟨hpos, hproc⟩ := ProcessTable.procEndWaitpid_ok htable
  obtain ⟨hsys, -, hcur⟩ := leave_spec { k with sys := s' }
  refine ⟨hsys ▸ hflat, hsys ▸ htlb, hsys ▸ huser, ?_, ?_, ?_⟩
  · show ∀ pid, _ → _
    rw [hsys]
    exact fun pid hp => hactive pid (hcur pid hp)
  · rw [hsys]
    intro i hi hp
    rw [hproc] at hi
    by_cases hipid : i = pid.toNat
    · rw [hipid, update_self] at hi
      exact absurd rfl hi
    · rw [update_of_ne hipid] at hi
      refine (hfresh i hi hp).resolve_right fun heq => hipid ?_
      injection heq with heq
      omega
  · show table.proc 0 = none
    rw [hproc, update_of_ne (by omega)]
    exact h.unused

/-- A new slot in the table is one the TLB does not know. -/
theorem CpuInv.fresh_update (h : CpuInv k) {table : ProcessTable} {child : Int}
    (hinit : k.table.procInitWaitpid = .ok (table, child)) (hne : child ≠ k.sys.vm.tlb.lastpid)
    (hback : ∀ p, s.procs p = none → k.sys.procs p = none) (hvm : s.vm = k.sys.vm) :
    (∀ i, table.proc i ≠ none → s.procs i = none → s.vm.tlb.lastpid ≠ i) ∧
      table.proc 0 = none := by
  obtain ⟨j, rfl, hpos, -, hproc⟩ := ProcessTable.procInitWaitpid_ok hinit
  refine ⟨fun i hi hp => ?_, ?_⟩
  · rw [hvm]
    by_cases hij : i = j
    · rw [hij]
      exact hne.symm
    · rw [hproc, update_of_ne hij] at hi
      exact h.fresh i hi (hback i hp)
  · rw [hproc, update_of_ne (by omega)]
    exact h.unused

theorem CpuInv.step {x : CpuAction} (h : CpuInv k) (ho : Orderly k x) (hstep : CpuStep k x k') :
    CpuInv k' := by
  cases cpuStep_move hstep with
  | stay => exact h
  | create hinit =>
    obtain ⟨hfresh, hunused⟩ := h.fresh_update hinit (ho.pid (.inl rfl) _ _ hinit)
      (fun p hp => hp) rfl
    exact ⟨h.flat, h.tlb, h.user, h.active, hfresh, hunused⟩
  | @runprogram pid layout hcur _ hnone hslot =>
    have hpid : 0 < pid → k.sys.procs pid = none → pid ≠ k.sys.vm.tlb.lastpid := by
      intro hpos habsent heq
      have hcast : ((pid.toNat : Nat) : Int) = pid := Int.toNat_of_nonneg (le_of_lt hpos)
      refine h.fresh pid.toNat hslot ?_ ?_
      · rw [hcast]
        exact habsent
      · rw [hcast]
        exact heq.symm
    obtain ⟨hflat, htlb, huser, hvm, hback⟩ := h.newProc layout hpid
    refine cpuInv_asActivate hflat htlb huser (fun i hi hp => ?_) h.unused
    rw [hvm]
    exact h.fresh i hi (hback i hp)
  | @fork pid child as as' table hcur hp hinit =>
    have hne := ho.pid (.inr rfl) table child hinit
    obtain ⟨hflat, htlb, huser, hvm, hback⟩ := h.newProc as' fun _ _ => hne
    obtain ⟨hfresh, hunused⟩ := h.fresh_update hinit hne hback hvm
    refine ⟨hflat, htlb, huser, fun pid' hcur' _ => ?_, hfresh, hunused⟩
    obtain rfl := Option.some.inj (hcur.symm.trans hcur')
    have hact := h.active pid hcur (by rw [hp]; exact Option.some_ne_none _)
    unfold Active
    rw [hvm]
    exact hact
  | switch => exact cpuInv_asActivate h.flat h.tlb h.user h.fresh h.unused
  | wait hsys hexec htable => exact h.wait (ho.allowed hsys) hexec htable
  | paging hsys hreap hexec => exact h.paging (ho.allowed hsys) hreap hexec

/-! ## Runs -/

/-- A step under the conditions. -/
def OrderlyStep (k : Cpu) (x : CpuAction) (k' : Cpu) : Prop := CpuStep k x k' ∧ Orderly k x

theorem Cpu.Initial.cpuInv (h : k.Initial) : CpuInv k := by
  obtain ⟨hsys, htlb, hcur, htable⟩ := h
  have hno : ∀ i, ¬ k.sys.vm.tlb.Live i := by
    rw [htlb]
    exact Tlb.boot_live
  have hunused : k.table.proc 0 = none := by
    obtain ⟨j, -, hpos, -, hproc⟩ := ProcessTable.procInitWaitpid_ok htable
    rw [hproc, update_of_ne (by omega)]
    rfl
  refine ⟨hsys.flatInv, ⟨by rw [htlb]; exact Tlb.boot_ok, ?_, ?_⟩, ?_, ?_, ?_, hunused⟩
  · exact fun _ _ _ i hi => absurd hi (hno i)
  · exact fun _ _ _ _ _ i hi => absurd hi (hno i)
  · intro p proc c hp
    rw [hsys.2.2] at hp
    cases hp
  · exact fun pid _ hne => absurd (hsys.2.2 pid) hne
  · intro i hi _
    rw [htlb]
    show (0 : Int) ≠ i
    intro h0
    rw [show i = 0 by omega] at hi
    exact hi hunused

theorem CpuInv.coherent (h : CpuInv k) : Coherent k := by
  intro pid as pc hcur hp i hi hv
  rcases h.active pid hcur (by rw [hp]; exact Option.some_ne_none _) with hlast | hnone
  · have hentry := h.tlb.owned as pc (hlast ▸ hp) i ⟨hi, hv⟩
    rw [hlast] at hentry
    obtain ⟨c, hloc, hrights⟩ := hentry.rights
    exact ⟨hentry.maps.2.1, hentry.maps.2.2, fun hdirty => ⟨c, hloc, hrights.symm.trans hdirty⟩⟩
  · exact absurd ⟨hi, hv⟩ (hnone i)

/-- In every orderly run the TLB serves the current process. -/
theorem orderly_coherent {k₀ : Cpu} (h₀ : k₀.Initial) (hrun : Reaches OrderlyStep k₀ k) :
    Coherent k :=
  (hrun.invariant (fun _ _ _ h hs => CpuInv.step h hs.2 hs.1) h₀.cpuInv).coherent

/-! ## Runs on the small system -/

def smallCpu : Cpu where
  sys := smallSys
  table := match ProcessTable.procBootstrap with
    | .ok r => r.1
    | .error _ => ProcessTable.blank
  curproc := some KERNEL_PID

theorem smallCpu_initial : smallCpu.Initial :=
  ⟨smallSys_initial, rfl, rfl, rfl⟩

def Cpu.next (k : Cpu) (x : CpuAction) : Option Cpu := (k.exec x).toOption

theorem cpuNext_step {x : CpuAction} (h : k.next x = some k') : CpuStep k x k' :=
  eq_ok_of_toOption h

/-- The paging system evicts, refuses and reaps nothing, and the next pid is not `lastpid`. -/
def Cpu.nextOrderly (k : Cpu) (x : CpuAction) : Option Cpu :=
  match k.sysAction x, k.table.procInitWaitpid with
  | some a, .ok (_, child) =>
    if (k.sys.nextEasy a).isSome && child != k.sys.vm.tlb.lastpid then k.next x else none
  | none, .ok (_, child) => if child != k.sys.vm.tlb.lastpid then k.next x else none
  | _, .error _ => none

theorem nextOrderly_step {x : CpuAction} (h : k.nextOrderly x = some k') : OrderlyStep k x k' := by
  unfold Cpu.nextOrderly at h
  split at h
  · next a table child ha hinit =>
    split at h
    · next hcond =>
      simp only [Bool.and_eq_true, bne_iff_ne] at hcond
      obtain ⟨s', hs'⟩ := Option.isSome_iff_exists.1 hcond.1
      obtain ⟨-, hc, -, hg⟩ := nextEasy_granted hs'
      refine ⟨cpuNext_step h, fun b hb => ?_, fun b hb => ?_, fun _ t c hinit' => ?_⟩
      · rw [ha] at hb
        cases hb
        exact hc
      · rw [ha] at hb
        cases hb
        exact hg
      · rw [hinit] at hinit'
        cases hinit'
        exact hcond.2
    · cases h
  · next table child ha hinit =>
    split at h
    · next hcond =>
      refine ⟨cpuNext_step h, fun b hb => ?_, fun b hb => ?_, fun _ t c hinit' => ?_⟩
      · rw [ha] at hb
        cases hb
      · rw [ha] at hb
        cases hb
      · rw [hinit] at hinit'
        cases hinit'
        exact bne_iff_ne.1 hcond
    · cases h
  · cases h

/-- Two programs start and touch the same page of their stacks. -/
def firstTouch : List CpuAction :=
  [.create, .create, .switch 2, .runprogram smallLayout, .touch 0x7ffff000 true, .switch 3,
    .runprogram smallLayout, .touch 0x7ffff000 true]

theorem orderly_coherent_small :
    ∃ k, Reaches OrderlyStep smallCpu k ∧ k.curproc = some 3 ∧ k.sys.vm.cm.Maps 2 0x7ffff000 30 ∧
      (k.sys.vm.tlb.entry 0).valid = true ∧ Coherent k := by
  have hstep : ∀ (k k' : Cpu) x, x ∈ firstTouch → k.nextOrderly x = some k' →
      OrderlyStep k x k' := fun _ _ _ _ hn => nextOrderly_step hn
  obtain ⟨k, hreach, hcheck⟩ := exists_reaches_of_replay (s := smallCpu) hstep
    (p := fun k => k.curproc == some 3 && decide (k.sys.vm.cm.Maps 2 0x7ffff000 30) &&
      (k.sys.vm.tlb.entry 0).valid) (by decide +kernel)
  simp only [Bool.and_eq_true, beq_iff_eq, decide_eq_true_eq] at hcheck
  exact ⟨k, hreach, hcheck.1.1, hcheck.1.2, hcheck.2, orderly_coherent smallCpu_initial hreach⟩

/-- The first program fills the process table with children that end at once, touches a page, ends
    and is reaped; the next program gets its pid. -/
def recyclePid : List CpuAction :=
  [.create, .switch 2, .runprogram smallLayout] ++ List.replicate 98 .fork ++
  (List.range 98).flatMap (fun i => [.switch (i + 3), .exit]) ++
  [.switch 2, .touch 0x7ffff000 true, .exit, .switch 1, .wait 2, .create, .switch 2,
    .runprogram smallLayout]

/-- Slot `i` maps a page of the current process to a frame that is not its own. -/
def Cpu.stale (k : Cpu) (i : Nat) : Bool :=
  match k.curproc with
  | some pid => match k.sys.procs pid with
    | some ⟨some _, _⟩ => decide (i < NUM_TLB) && (k.sys.vm.tlb.entry i).valid &&
        (k.sys.vm.cm.pt (k.sys.vm.tlb.entry i).frame).pid != pid
    | _ => false
  | none => false

theorem not_coherent_of_stale {i : Nat} (h : k.stale i = true) : ¬ Coherent k := by
  intro hco
  unfold Cpu.stale at h
  split at h
  · next pid hcur =>
    split at h
    · next as pc hp =>
      simp only [Bool.and_eq_true, decide_eq_true_eq, bne_iff_ne] at h
      obtain ⟨⟨hi, hv⟩, hne⟩ := h
      exact hne (hco pid as pc hcur hp i hi hv).1
    · cases h
  · cases h

theorem recycled_pid_incoherent : ∃ k₀ k, k₀.Initial ∧ Reaches CpuStep k₀ k ∧ ¬ Coherent k := by
  have hstep : ∀ (k k' : Cpu) x, x ∈ recyclePid → k.next x = some k' → CpuStep k x k' :=
    fun _ _ _ _ hn => cpuNext_step hn
  obtain ⟨k, hreach, hstale⟩ := exists_reaches_of_replay (s := smallCpu) hstep
    (p := fun k => k.stale 0) (by decide +kernel)
  exact ⟨smallCpu, k, smallCpu_initial, hreach, not_coherent_of_stale hstale⟩

end DemandPaging
