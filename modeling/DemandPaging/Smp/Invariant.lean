import DemandPaging.Smp
import DemandPaging.Cpu.Coherence

set_option autoImplicit false

/-! # What holds of processes, CPUs and TLBs

Two halves of one invariant. `ProcsInv` is about who is current where and needs no TLB: a process is
current on one CPU only, is alive and has its slot in the process table, so a pid is not given to
a new process while somebody runs under it. `TlbsInv` is about the entries: as long as `lastpid` is
not 0, all of them were written for it. `Shifts` is all that a step does to one TLB, whatever the
step is, and `TlbsInv.store` carries the invariant over it. -/

namespace DemandPaging

open Function (update update_self update_of_ne)

variable {κ : Type}

/-! ## Processes and CPUs -/

/-- Current processes have a slot in the process table and are not dead, and only the kernel's is
    current on two CPUs. -/
structure ProcsInv (procs : Int → Option Proc) (table : ProcessTable) (curproc : κ → Option Int) :
    Prop where
  slot : ∀ c pid, curproc c = some pid → table.proc pid.toNat ≠ none
  alive : ∀ c pid as, curproc c = some pid → procs pid ≠ some ⟨as, .zombie⟩
  single : ∀ c c' pid, curproc c = some pid → curproc c' = some pid → pid = KERNEL_PID ∨ c = c'
  unused : table.proc 0 = none
  kernel : procs KERNEL_PID = none
  kernelSlot : table.proc KERNEL_PID.toNat ≠ none

section Procs

variable {s s' : Sys} {procs : Int → Option Proc} {table table' : ProcessTable}
  {curproc : κ → Option Int} {w : Option TlbWrite} {pid : Int}

theorem ProcsInv.pos (h : ProcsInv procs table curproc) (hslot : table.proc pid.toNat ≠ none) :
    0 < pid := by
  by_contra hneg
  rw [Int.toNat_of_nonpos (not_lt.1 hneg)] at hslot
  exact hslot h.unused

theorem ProcsInv.initWaitpid (h : ProcsInv procs table curproc)
    (hinit : table.procInitWaitpid = .ok (table', pid)) : ProcsInv procs table' curproc := by
  obtain ⟨i, -, hpos, -, hproc⟩ := ProcessTable.procInitWaitpid_ok hinit
  have hmono : ∀ j, table.proc j ≠ none → table'.proc j ≠ none := by
    intro j hj
    rw [hproc]
    by_cases hji : j = i
    · rw [hji, update_self]
      exact Option.some_ne_none _
    · rw [update_of_ne hji]
      exact hj
  refine ⟨fun c p hp => hmono _ (h.slot c p hp), h.alive, h.single, ?_, h.kernel,
    hmono _ h.kernelSlot⟩
  rw [hproc, update_of_ne (by omega)]
  exact h.unused

/-- A pid that has just been handed out belongs to nobody. -/
theorem ProcsInv.fresh (h : ProcsInv procs table curproc)
    (hinit : table.procInitWaitpid = .ok (table', pid)) :
    pid ≠ KERNEL_PID ∧ ∀ c, curproc c ≠ some pid := by
  obtain ⟨i, rfl, -, hfree, -⟩ := ProcessTable.procInitWaitpid_ok hinit
  refine ⟨fun hk => h.kernelSlot ?_, fun c hc => h.slot c _ hc hfree⟩
  rw [← hk]
  exact hfree

theorem ProcsInv.endWaitpid (h : ProcsInv procs table curproc)
    (hend : table.procEndWaitpid pid = .ok table') (hcur : ∀ c, curproc c ≠ some pid)
    (hk : pid ≠ KERNEL_PID) : ProcsInv procs table' curproc := by
  obtain ⟨hpos, hproc⟩ := ProcessTable.procEndWaitpid_ok hend
  have hmono : ∀ p, p ≠ pid → table.proc p.toNat ≠ none → table'.proc p.toNat ≠ none := by
    intro p hp hslot
    have hp0 := h.pos hslot
    rw [hproc, update_of_ne (by omega)]
    exact hslot
  refine ⟨fun c p hp => hmono p ?_ (h.slot c p hp), h.alive, h.single, ?_, h.kernel,
    hmono _ hk.symm h.kernelSlot⟩
  · rintro rfl
    exact hcur c hp
  · rw [hproc, update_of_ne (by omega)]
    exact h.unused

theorem ProcsInv.newProc (h : ProcsInv s.procs table curproc) (layout : AddrSpace)
    (hk : pid ≠ KERNEL_PID) : ProcsInv (s.execNewProc pid layout).procs table curproc := by
  unfold Sys.execNewProc
  split
  · refine ⟨h.slot, fun c p as hp hz => ?_, h.single, h.unused, ?_, h.kernelSlot⟩
    · rcases update_cases hz with ⟨-, heq⟩ | ⟨-, hold⟩
      · cases heq
      · exact h.alive c p as hp hold
    · exact (update_of_ne hk.symm _ _).trans h.kernel
  · exact h

theorem execNewProc_vm (s : Sys) (pid : Int) (layout : AddrSpace) :
    (s.execNewProc pid layout).vm = s.vm := by
  unfold Sys.execNewProc
  split <;> rfl

theorem execNewProc_of_ne (s : Sys) (layout : AddrSpace) {p : Int} (h : p ≠ pid) :
    (s.execNewProc pid layout).procs p = s.procs p := by
  unfold Sys.execNewProc
  split
  · exact update_of_ne h _ _
  · rfl

/-- A CPU goes on with its current process or with none. -/
theorem update_leave {k : Cpu} [DecidableEq κ] {c c' : κ} (hcur : k.curproc = curproc c)
    (h : update curproc c k.leave.curproc c' = some pid) : curproc c' = some pid := by
  by_cases hc : c' = c
  · subst hc
    rw [update_self] at h
    exact hcur ▸ (leave_spec k).2.2 pid h
  · rw [update_of_ne hc] at h
    exact h

/-- An action of the paging system, asked for by the CPU on which `cur` is current. -/
theorem ProcsInv.asks {k : Cpu} {a : Action} [DecidableEq κ] {c : κ}
    (h : ProcsInv k.sys.procs table curproc) (hcur : k.curproc = curproc c) (ha : Asks k a)
    (hexec : k.sys.exec a = .ok (s', w)) :
    ProcsInv s'.procs table
      (update curproc c ({ k with sys := s' } : Cpu).leave.curproc) := by
  have hback : ∀ c' p, update curproc c ({ k with sys := s' } : Cpu).leave.curproc c' =
      some p → curproc c' = some p :=
    fun c' p hp => update_leave (k := { k with sys := s' }) hcur hp
  refine ⟨fun c' p hp => h.slot c' p (hback c' p hp), fun c' p as hp => ?_,
    fun c₁ c₂ p h₁ h₂ => h.single c₁ c₂ p (hback c₁ p h₁) (hback c₂ p h₂), h.unused,
    exec_absent h.kernel ha.not_new hexec, h.kernelSlot⟩
  by_cases hc : c' = c
  · rw [hc, update_self] at hp
    exact leave_alive hp as
  · have hp := hback c' p hp
    have hold := h.alive c' p as hp
    by_cases hact : a.actor = some p
    · -- the action is about a process that is current on another CPU
      have hkernel : curproc c = some p → s'.procs p ≠ some ⟨as, .zombie⟩ := by
        intro hpc
        obtain rfl := (h.single c' c p hp hpc).resolve_right hc
        rw [exec_absent h.kernel ha.not_new hexec]
        exact (Option.some_ne_none _).symm
      cases ha with
      | fault hpc | resume hpc | exit hpc => cases hact; exact hkernel (hcur ▸ hpc)
      | io pid =>
        cases hexec
        exact fun hz => hold (execIo_zombie hz)
      | reap hz =>
        cases hact
        exact absurd hz (h.alive c' p _ hp)
      | _ => cases hact
    · rw [exec_onlyMoves hexec p hact]
      exact hold

end Procs

/-- The CPU lets only the current process write to the TLB, for a page that it missed, or for the
    one it is at when it wakes up. -/
theorem Asks.write {k : Cpu} {a : Action} {s' : Sys} {t : TlbWrite} (ha : Asks k a)
    (hexec : k.sys.exec a = .ok (s', some t)) :
    k.curproc = some t.pid ∧ k.sys.procs t.pid ≠ none ∧
      ((∀ i, k.sys.vm.tlb.Live i → (k.sys.vm.tlb.entry i).page ≠ t.vaddr) ∨
        ∃ proc c, k.sys.procs t.pid = some proc ∧ proc.pc.ctx = some c ∧ t.vaddr = c.fa) := by
  rcases exec_write hexec with ⟨as, ty, addr, hp, rfl, hty, hva⟩ | ⟨proc, c, hp, rfl, hc, hva⟩
  · obtain ⟨hcur, -, hro | hmiss⟩ := ha
    · exact absurd hro hty
    · exact ⟨hcur, by rw [hp]; exact Option.some_ne_none _, .inl (hva ▸ hmiss)⟩
  · cases ha with
    | resume hcur =>
      exact ⟨hcur, by rw [hp]; exact Option.some_ne_none _, .inr ⟨proc, c, hp, hc, hva⟩⟩

/-! ## One TLB -/

/-- From the TLB `t` to `t'`, and from the record `own` to `own'`: entries go, and those that are
    new come from the write `w`. -/
structure Shifts (t : Tlb) (own : Nat → Int) (t' : Tlb) (own' : Nat → Int) (w : Option TlbWrite) :
    Prop where
  ok : t'.Ok
  live : ∀ i, t'.Live i → (t.Live i ∧ t'.entry i = t.entry i ∧ own' i = own i) ∨
    ∃ x, w = some x ∧ own' i = x.pid ∧ (t'.entry i).page = x.vaddr
  last : (∃ x, w = some x ∧ t'.lastpid = x.pid) ∨
    (w = none ∧ (t'.lastpid = t.lastpid ∨ t'.lastpid = 0))

variable {t t' : Tlb} {own own' : Nat → Int} {w : Option TlbWrite}

theorem Shifts.refl (h : t.Ok) : Shifts t own t own none :=
  ⟨h, fun _ hi => .inl ⟨hi, rfl, rfl⟩, .inr ⟨rfl, .inl rfl⟩⟩

theorem shifts_activate (h : t.Ok) (pid : Int) (counter : Counters) :
    Shifts t own (t.vmtlbInvalidate pid counter).1 own none := by
  by_cases hpid : pid = t.lastpid
  · rw [Tlb.vmtlbInvalidate, if_pos hpid]
    exact .refl h
  · obtain ⟨hok, hno, hlast⟩ := Tlb.vmtlbInvalidate_ne pid counter hpid
    exact ⟨hok, fun i hi => absurd hi (hno i), .inr ⟨rfl, .inr hlast⟩⟩

/-- The end of an eviction. -/
theorem shifts_evicted {s : Sys} (h : s.vm.tlb.Ok) (a : Action) :
    (s.tlbEvicted a).Ok ∧ (s.tlbEvicted a).lastpid = s.vm.tlb.lastpid ∧
      ∀ i, (s.tlbEvicted a).Live i →
        s.vm.tlb.Live i ∧ (s.tlbEvicted a).entry i = s.vm.tlb.entry i := by
  unfold Sys.tlbEvicted
  split
  · next v _ =>
    obtain ⟨hok, hlast, hlive⟩ := Tlb.vmtlbInvalidatepage_spec h v.vaddr
    exact ⟨hok, hlast, fun i hi => ⟨(hlive i hi).1, (hlive i hi).2.1⟩⟩
  · exact ⟨h, rfl, fun i hi => ⟨hi, rfl⟩⟩

/-- An action of the paging system that writes no second entry for a page. -/
theorem shifts_exec {s s' : Sys} {a : Action} (h : s.vm.tlb.Ok) (hexec : s.exec a = .ok (s', w))
    (hw : ∀ x, w = some x → x.vaddr < USERSPACETOP ∧ pageOf x.vaddr = x.vaddr ∧
      ∀ i, s.vm.tlb.Live i → (s.vm.tlb.entry i).page ≠ x.vaddr) :
    Shifts s.vm.tlb own s'.vm.tlb
      (recordWrite own (w.map fun x => ((s.tlbEvicted a).nextSlot, x.pid))) w := by
  obtain ⟨hok, hlast, hlive⟩ := shifts_evicted h a
  have htlb := exec_tlb hexec
  cases w with
  | none =>
    rw [show s'.vm.tlb = s.tlbEvicted a from htlb]
    exact ⟨hok, fun i hi => .inl ⟨(hlive i hi).1, (hlive i hi).2, rfl⟩,
      .inr ⟨rfl, .inl hlast⟩⟩
  | some x =>
    obtain ⟨hlt, hpage, hmiss⟩ := hw x rfl
    have hmask : x.vaddr &&& TLBHI_VPAGE = x.vaddr := hpage
    obtain ⟨writePriv, counter, htlb⟩ := htlb
    have hno : ∀ i, (s.tlbEvicted a).Live i →
        ((s.tlbEvicted a).entry i).page ≠ x.vaddr &&& TLBHI_VPAGE := by
      intro i hi
      obtain ⟨hold, heq⟩ := hlive i hi
      rw [heq, hmask]
      exact hmiss i hold
    obtain ⟨hok', hlast', -⟩ := hok.write x.pid x.paddr writePriv counter hno (hmask.symm ▸ hlt)
    have hentry := (s.tlbEvicted a).vmtlbWrite_entry x.pid x.vaddr x.paddr writePriv counter
    rw [← htlb] at hok' hlast' hentry
    refine ⟨hok', fun i hi => ?_, .inl ⟨x, rfl, hlast'⟩⟩
    by_cases hslot : i = (s.tlbEvicted a).nextSlot
    · refine .inr ⟨x, rfl, ?_, ?_⟩
      · rw [hslot]
        exact update_self ..
      · rw [hentry, hslot, update_self, TlbEntry.page, UInt32.and_assoc, UInt32.and_self,
          hmask]
    · have hsame : s'.vm.tlb.entry i = (s.tlbEvicted a).entry i := by
        rw [hentry, update_of_ne hslot]
      have hv := hi.2
      rw [hsame] at hv
      obtain ⟨hold, heq⟩ := hlive i ⟨hi.1, hv⟩
      exact .inl ⟨hold, hsame.trans heq, update_of_ne hslot _ _⟩

/-! ## All TLBs -/

/-- Unless `lastpid` is 0, all entries on all CPUs are entries of `lastpid`, and no process that is
    inside `vm_fault` has an entry for its page. -/
structure TlbsInv (m : Smp κ) : Prop where
  ok : ∀ c, (m.tlb c).Ok
  last : ∀ c, m.sys.vm.tlb.lastpid = 0 ∨ m.Owned c m.sys.vm.tlb.lastpid
  asleep : ∀ p proc x, m.sys.procs p = some proc → proc.pc.ctx = some x →
    (x.fa < USERSPACETOP ∧ pageOf x.fa = x.fa) ∧
      ∀ c i, (m.tlb c).Live i → m.writtenFor c i = p → (m.entries c i).page ≠ x.fa

/-- The TLB of `c` serves the process that is current on it. -/
def Serves (m : Smp κ) (c : κ) : Prop :=
  ∀ pid, m.curproc c = some pid → m.sys.procs pid ≠ none → m.Owned c pid

variable [DecidableEq κ] {m : Smp κ} {c c' : κ} {k : Cpu} {r : Option (Nat × Int)}

theorem tlb_store_self : (m.store c k r).tlb c = k.sys.vm.tlb := by
  simp [Smp.tlb, Smp.store]

theorem writtenFor_store_self :
    (m.store c k r).writtenFor c = recordWrite (m.writtenFor c) r := by
  simp [Smp.store]

theorem curproc_store_self : (m.store c k r).curproc c = k.curproc := by
  simp [Smp.store]

theorem store_of_ne (h : c' ≠ c) : (m.store c k r).entries c' = m.entries c' ∧
    (m.store c k r).curproc c' = m.curproc c' ∧
    (m.store c k r).writtenFor c' = m.writtenFor c' := by
  simp [Smp.store, h]

theorem live_store_of_ne (h : c' ≠ c) {i : Nat} :
    ((m.store c k r).tlb c').Live i ↔ (m.tlb c').Live i := by
  unfold Tlb.Live
  show i < NUM_TLB ∧ ((m.store c k r).entries c' i).valid = true ↔ _
  rw [(store_of_ne h).1]
  exact Iff.rfl

theorem owned_store_of_ne (h : c' ≠ c) {pid : Int} :
    (m.store c k r).Owned c' pid ↔ m.Owned c' pid := by
  unfold Smp.Owned
  rw [(store_of_ne h).2.2]
  exact forall_congr' fun i => by rw [live_store_of_ne h]

/-- A step on `c` leaves the TLB of `c` with entries of `pid`. -/
theorem Shifts.owned {pid : Int} (hs : Shifts (m.tlb c) (m.writtenFor c) k.sys.vm.tlb
      (recordWrite (m.writtenFor c) r) w) (h : m.Owned c pid)
    (hw : ∀ x, w = some x → x.pid = pid) : (m.store c k r).Owned c pid := by
  intro i hi
  rw [tlb_store_self] at hi
  rw [writtenFor_store_self]
  rcases hs.live i hi with ⟨hold, -, heq⟩ | ⟨x, hx, heq, -⟩
  · rw [heq]
    exact h i hold
  · rw [heq]
    exact hw x hx

/-- A step on `c`. Entries are written for a process whose entries are the only ones there are, and
    a process that goes to sleep for a new page has no entry for it. -/
theorem TlbsInv.store (h : TlbsInv m)
    (hs : Shifts (m.tlb c) (m.writtenFor c) k.sys.vm.tlb (recordWrite (m.writtenFor c) r) w)
    (hown : ∀ x, w = some x → ∀ c', m.Owned c' x.pid)
    (hsleep : ∀ p proc x, k.sys.procs p = some proc → proc.pc.ctx = some x →
      (∀ t, w = some t → t.pid ≠ p) ∧
      ((∃ proc₀ x₀, m.sys.procs p = some proc₀ ∧ proc₀.pc.ctx = some x₀ ∧ x₀.fa = x.fa) ∨
        ((x.fa < USERSPACETOP ∧ pageOf x.fa = x.fa) ∧
          ∀ c i, (m.tlb c).Live i → (m.entries c i).page ≠ x.fa))) :
    TlbsInv (m.store c k r) := by
  refine ⟨fun c' => ?_, fun c' => ?_, fun p proc x hp hx => ?_⟩
  · by_cases hc : c' = c
    · rw [hc, tlb_store_self]
      exact hs.ok
    · have hold := h.ok c'
      rw [show (m.store c k r).tlb c' = { k.sys.vm.tlb with entry := m.entries c' } by
        rw [Smp.tlb, (store_of_ne hc).1]; rfl]
      exact ⟨hs.ok.reuse, hold.unique, hold.user, hold.parked⟩
  · show k.sys.vm.tlb.lastpid = 0 ∨ (m.store c k r).Owned c' k.sys.vm.tlb.lastpid
    have hkeep : ∀ pid, m.Owned c' pid → (∀ x, w = some x → x.pid = pid) →
        (m.store c k r).Owned c' pid := by
      intro pid hold hx
      by_cases hc : c' = c
      · subst hc
        exact hs.owned hold hx
      · exact (owned_store_of_ne hc).2 hold
    rcases hs.last with ⟨x, rfl, hlast⟩ | ⟨rfl, hlast | hlast⟩
    · rw [hlast]
      exact .inr (hkeep _ (hown x rfl c') fun y hy => by cases hy; rfl)
    · rw [hlast]
      exact (h.last c').imp_right fun hold => hkeep _ hold fun y hy => by cases hy
    · exact .inl hlast
  · obtain ⟨hnot, hpage⟩ := hsleep p proc x hp hx
    -- the entries of `p` that are there were there before
    have hback : ∀ c' i, ((m.store c k r).tlb c').Live i → (m.store c k r).writtenFor c' i = p →
        (m.tlb c').Live i ∧ m.writtenFor c' i = p ∧
          (m.store c k r).entries c' i = m.entries c' i := by
      intro c' i hi hwf
      by_cases hc : c' = c
      · subst hc
        rw [tlb_store_self] at hi
        rw [writtenFor_store_self] at hwf
        rcases hs.live i hi with ⟨hold, hentry, heq⟩ | ⟨t, ht, heq, -⟩
        · refine ⟨hold, heq.symm.trans hwf, ?_⟩
          have hself : ((m.store c' k r).tlb c').entry i = k.sys.vm.tlb.entry i := by
            rw [tlb_store_self]
          exact hself.trans hentry
        · exact absurd (heq.symm.trans hwf) (hnot t ht)
      · rw [(store_of_ne hc).2.2] at hwf
        exact ⟨(live_store_of_ne hc).1 hi, hwf, by rw [(store_of_ne hc).1]⟩
    rcases hpage with ⟨proc₀, x₀, hp₀, hx₀, heq⟩ | ⟨huser, hmiss⟩
    · obtain ⟨huser, hmiss⟩ := h.asleep p proc₀ x₀ hp₀ hx₀
      rw [heq] at huser hmiss
      refine ⟨huser, fun c' i hi hwf => ?_⟩
      obtain ⟨hold, hown, hentry⟩ := hback c' i hi hwf
      rw [hentry]
      exact hmiss c' i hold hown
    · refine ⟨huser, fun c' i hi hwf => ?_⟩
      obtain ⟨hold, -, hentry⟩ := hback c' i hi hwf
      rw [hentry]
      exact hmiss c' i hold

theorem Serves.store_of_ne (h : Serves m c') (hc : c' ≠ c)
    (hback : ∀ pid, m.curproc c' = some pid → k.sys.procs pid ≠ none → m.sys.procs pid ≠ none) :
    Serves (m.store c k r) c' := by
  intro pid hcur hne
  rw [(DemandPaging.store_of_ne hc).2.1] at hcur
  exact (owned_store_of_ne hc).2 (h pid hcur (hback pid hcur hne))

end DemandPaging
