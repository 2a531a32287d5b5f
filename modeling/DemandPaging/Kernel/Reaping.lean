import DemandPaging.Kernel.Waiting
import DemandPaging.Kernel.Vnodes

set_option autoImplicit false

/-! # Reaping a process once

The thread that gets through `P` destroys the process, with the semaphore. That is right as long as
it is the only one that waits for it. `proc_wait` does not see to that: a second waiter is left with
a pointer to freed memory, or makes `sem_destroy` fail because it still sleeps. -/

namespace DemandPaging

open Function (update update_self update_of_ne)

variable {W W' : Waiting} {op : KernelOp} {p t a : Nat} {c c' : Cell}
  {waits waits' : Nat → Option Waiter}

/-! ## One thread for each process -/

/-- At most one thread waits for the process. -/
def Alone (waits : Nat → Option Waiter) (p : Nat) (c : Cell) : Prop :=
  ∀ t t' phase phase', waits t = some ⟨p, c.addr, phase⟩ → waits t' = some ⟨p, c.addr, phase'⟩ →
    t = t'

/-- No thread starts to wait. -/
def NoArrival (waits waits' : Nat → Option Waiter) : Prop :=
  ∀ u w, waits' u = some w → ∃ phase, waits u = some ⟨w.pid, w.addr, phase⟩

theorem noArrival_refl (waits : Nat → Option Waiter) : NoArrival waits waits :=
  fun _ w hu => ⟨w.phase, hu⟩

theorem noArrival_set {phase phase' : WaitPhase} (hw : waits t = some ⟨p, a, phase⟩) :
    NoArrival waits (update waits t (some ⟨p, a, phase'⟩)) := by
  intro u w hu
  rcases update_some_cases hu with ⟨rfl, hnew⟩ | ⟨-, hold⟩
  · obtain rfl := Option.some.inj hnew
    exact ⟨phase, hw⟩
  · exact ⟨w.phase, hold⟩

theorem noArrival_wakeone (sleepers : List Nat) :
    NoArrival waits (Kernel.wakeone waits sleepers) := by
  cases sleepers with
  | nil => exact noArrival_refl waits
  | cons t rest =>
    intro u w hu
    rcases update_some_cases hu with ⟨rfl, hmap⟩ | ⟨-, hold⟩
    · obtain ⟨w', hw', rfl⟩ := Option.map_eq_some_iff.1 hmap
      exact ⟨w'.phase, hw'⟩
    · exact ⟨w.phase, hold⟩

theorem Alone.mono (h : Alone waits p c) (hno : NoArrival waits waits') (haddr : c'.addr = c.addr) :
    Alone waits' p c' := by
  intro t t' phase phase' ht ht'
  rw [haddr] at ht ht'
  obtain ⟨_, hold⟩ := hno t _ ht
  obtain ⟨_, hold'⟩ := hno t' _ ht'
  exact h t t' _ _ hold hold'

/-- Every thread waits for a process that is there. -/
def Alive (W : Waiting) : Prop :=
  ∀ t w, W.waits t = some w → ∃ c, W.cell w.pid = some c ∧ c.addr = w.addr

/-- Nobody waits for the process that `sys_waitpid` names. -/
def Unawaited (W : Waiting) (op : KernelOp) : Prop :=
  ∀ t p : Nat, op = .sysWaitpid t p → ∀ u w, W.waits u = some w → w.pid ≠ p

theorem alone_kept (hfree : Unawaited W op) : Kept W op Alone where
  congr := by
    intro waits p c h hsame t t' phase phase' ht ht'
    exact h t t' _ _ ((hsame t _).1 ht) ((hsame t' _).1 ht')
  new := by
    intro waits p hready t t' phase phase' ht ht'
    rw [(hready t _ ht rfl).1, (hready t' _ ht' rfl).1]
  failed := fun _ _ _ h => h
  ended := fun _ _ _ h => h.mono (noArrival_wakeone _) rfl
  started := by
    intro p t c hop _ _ u u' phase phase' hu hu'
    have honly : ∀ {v phase}, update W.waits t (some ⟨p, c.addr, .ready⟩) v =
        some ⟨p, c.addr, phase⟩ → v = t := by
      intro v phase hv
      rcases update_some_cases hv with ⟨hvt, -⟩ | ⟨-, hold⟩
      · exact hvt
      · exact absurd rfl (hfree t p hop v _ hold)
    rw [honly hu, honly hu']
  slept := fun hw _ h => h.mono (noArrival_set hw) rfl
  took := fun _ hw _ h => h.mono (noArrival_set hw) rfl

theorem Alive.change (h : Alive W) (hp : W.cell p = some c) (haddr : c'.addr = c.addr)
    (hno : NoArrival W.waits waits) :
    Alive { W with cell := update W.cell p (some c'), waits := waits } := by
  intro u w hu
  obtain ⟨phase, hold⟩ := hno u w hu
  obtain ⟨d, hd, hda⟩ := h u _ hold
  by_cases hwp : w.pid = p
  · obtain rfl : c = d := Option.some.inj (hp.symm.trans (hwp ▸ hd))
    exact ⟨c', by simp [hwp], haddr.trans hda⟩
  · exact ⟨d, by simpa [hwp] using hd, hda⟩

theorem Alive.add {newp : Nat} {fresh : Nat} (h : Alive W) (hnew : W.cell newp = none) {u : Nat}
    {w : Waiter} (hu : W.waits u = some w) :
    ∃ d, update W.cell newp (some (Cell.new fresh)) w.pid = some d ∧ d.addr = w.addr := by
  obtain ⟨d, hd, hda⟩ := h u w hu
  have hne : w.pid ≠ newp := by
    intro heq
    rw [heq, hnew] at hd
    cases hd
  exact ⟨d, by rwa [update_of_ne hne], hda⟩

theorem WaitMove.alive (hmove : WaitMove W op W') (halone : Each W Alone) (h : Alive W) :
    Alive W' := by
  cases hmove with
  | stay _ => exact h
  | forked hnew => exact fun u w hu => h.add hnew hu
  | launched hnew _ =>
    intro u w hu
    rcases update_some_cases hu with ⟨-, hw⟩ | ⟨-, hold⟩
    · obtain rfl := Option.some.inj hw
      exact ⟨_, update_self .., rfl⟩
    · exact h.add hnew hold
  | failed hp _ _ => exact h.change hp rfl (noArrival_refl _)
  | ended hp _ => exact h.change hp rfl (noArrival_wakeone _)
  | started hp _ =>
    intro u w hu
    rcases update_some_cases hu with ⟨-, hw⟩ | ⟨-, hold⟩
    · obtain rfl := Option.some.inj hw
      exact ⟨_, hp, rfl⟩
    · exact h u w hold
  | slept hw hp _ | took hw hp _ => exact h.change hp rfl (noArrival_set hw)
  | @reaped t p c ht hp _ _ =>
    intro u w hu
    rcases update_some_cases hu with ⟨-, hw⟩ | ⟨hut, hold⟩
    · cases hw
    · obtain ⟨d, hd, hda⟩ := h u w hold
      have hne : w.pid ≠ p := by
        -- the thread that reaps was the only one
        rintro rfl
        obtain rfl : c = d := Option.some.inj (hp.symm.trans hd)
        have hu' : W.waits u = some ⟨w.pid, c.addr, w.phase⟩ := by rw [hda, hold]
        exact hut (halone w.pid c hp u t _ _ hu' ht)
      exact ⟨d, (update_of_ne hne _ _).trans hd, hda⟩

/-! ## What becomes of a structure -/

/-- Structures disappear in `proc_wait` only, behind their semaphore and without a thread. -/
theorem WaitMove.keeps (hmove : WaitMove W op W') (hp : W.cell p = some c) :
    (∃ d, W'.cell p = some d ∧ d.addr = c.addr) ∨
      ∃ t, op = .procWait t ∧ W.waits t = some ⟨p, c.addr, .taken⟩ ∧ c.threads = 0 := by
  have hset : ∀ {q : Nat} {d d' : Cell}, W.cell q = some d → d'.addr = d.addr →
      ∃ e, update W.cell q (some d') p = some e ∧ e.addr = c.addr := by
    intro q d d' hq haddr
    by_cases hpq : p = q
    · subst hpq
      obtain rfl : c = d := Option.some.inj (hp.symm.trans hq)
      exact ⟨d', update_self .., haddr⟩
    · exact ⟨c, (update_of_ne hpq _ _).trans hp, rfl⟩
  have hadd : ∀ {newp : Nat} {d' : Cell}, W.cell newp = none →
      ∃ e, update W.cell newp (some d') p = some e ∧ e.addr = c.addr := by
    intro newp d' hnew
    have hne : p ≠ newp := by
      rintro rfl
      rw [hnew] at hp
      cases hp
    exact ⟨c, (update_of_ne hne _ _).trans hp, rfl⟩
  cases hmove with
  | stay _ => exact .inl ⟨c, hp, rfl⟩
  | forked hnew => exact .inl (hadd hnew)
  | launched hnew _ => exact .inl (hadd hnew)
  | failed hq _ _ | ended hq _ | slept _ hq _ | took _ hq _ => exact .inl (hset hq rfl)
  | started _ _ => exact .inl ⟨c, hp, rfl⟩
  | @reaped t q d ht hq hthreads _ =>
    by_cases hpq : p = q
    · subst hpq
      obtain rfl : c = d := Option.some.inj (hp.symm.trans hq)
      exact .inr ⟨t, rfl, ht, hthreads⟩
    · exact .inl ⟨c, (update_of_ne hpq _ _).trans hp, rfl⟩

/-- If the structure at `a` is still there, it belongs to one of the processes in `Q`. -/
def Placed (a : Nat) (Q : Nat → Prop) (_ : Nat → Option Waiter) (p : Nat) (c : Cell) : Prop :=
  c.addr = a → Q p

theorem placed_kept {Q : Nat → Prop} (ha : a < W.fresh) : Kept W op (Placed a Q) where
  congr := fun h _ => h
  new := fun _ haddr => absurd haddr (Nat.ne_of_gt ha)
  failed := fun _ _ _ h => h
  ended := fun _ _ _ h => h
  started := fun _ _ h => h
  slept := fun _ _ h => h
  took := fun _ _ _ h => h

/-- The process at `a` has ended and was announced. -/
def Finished (a : Nat) (waits : Nat → Option Waiter) (p : Nat) (c : Cell) : Prop :=
  c.addr = a → c.threads = 0 ∧ HasSignal waits p c

theorem finished_kept (ha : a < W.fresh) : Kept W op (Finished a) where
  congr := fun h hsame haddr => ⟨(h haddr).1, (hasSignal_congr hsame).2 (h haddr).2⟩
  new := fun _ haddr => absurd haddr (Nat.ne_of_gt ha)
  failed := fun _ _ hpos h haddr => absurd (h haddr).1 (Nat.ne_of_gt hpos)
  ended := fun _ _ hpos h haddr => absurd (h haddr).1 (Nat.ne_of_gt hpos)
  started := by
    intro p t c _ hfree h haddr
    exact ⟨(h haddr).1, (hasSignal_update (by simp [hfree]) (by simp)).2 (h haddr).2⟩
  slept := by
    intro p t c hw _ h haddr
    exact ⟨(h haddr).1, (hasSignal_update (by simp [hw]) (by simp)).2 (h haddr).2⟩
  took := fun _ _ _ h haddr => ⟨(h haddr).1, .inr ⟨_, update_self ..⟩⟩

/-- The structure of process `p` lies at `a`. -/
def Kernel.Lives (k : Kernel) (p a : Nat) : Prop := ∃ pr, k.procs p = some pr ∧ pr.addr = a

theorem Kernel.lives_iff {k : Kernel} :
    k.Lives p a ↔ ∃ c, k.waiting.cell p = some c ∧ c.addr = a := by
  constructor
  · rintro ⟨pr, hp, rfl⟩
    exact ⟨pr.cell, Kernel.waiting_cell hp, rfl⟩
  · rintro ⟨c, hc, rfl⟩
    obtain ⟨pr, hp, rfl⟩ := Option.map_eq_some_iff.1 hc
    exact ⟨pr, hp, rfl⟩

section Past

variable {σ : Nat → Kernel} {lab : Nat → KernelOp} {i : Nat}

/-- A signal comes from a `sys__exit` before time `i`, which left the status. -/
def Past (σ : Nat → Kernel) (lab : Nat → KernelOp) (i : Nat) (waits : Nat → Option Waiter) (p : Nat)
    (c : Cell) : Prop :=
  HasSignal waits p c → ∃ j < i, ∃ status, lab j = .sysExit p status ∧ (σ j).Lives p c.addr ∧
    c.status = status &&& 0xff

theorem Past.succ (h : Past σ lab i waits p c) : Past σ lab (i + 1) waits p c := by
  intro hsignal
  obtain ⟨j, hj, hexit⟩ := h hsignal
  exact ⟨j, by omega, hexit⟩

theorem past_kept (σ : Nat → Kernel) (lab : Nat → KernelOp) (i : Nat) :
    Kept (σ i).waiting (lab i) (Past σ lab (i + 1)) where
  congr := fun h hsame hsignal => h ((hasSignal_congr hsame).1 hsignal)
  new := by
    rintro waits p hready (hpos | ⟨t, ht⟩)
    · exact absurd hpos (Nat.lt_irrefl 0)
    · cases (hready t _ ht rfl).2
  failed := fun _ _ _ h => h
  ended := fun hop hp _ _ _ => ⟨i, Nat.lt_succ_self i, _, hop, Kernel.lives_iff.2 ⟨_, hp, rfl⟩, rfl⟩
  started := by
    intro p t c _ hfree h hsignal
    exact h ((hasSignal_update (by simp [hfree]) (by simp)).1 hsignal)
  slept := by
    intro p t c hw _ h hsignal
    exact h ((hasSignal_update (c := c) (by simp [hw]) (by simp)).1 hsignal)
  took := fun _ _ hpos h _ => h (.inl hpos)

end Past

/-! ## Calls that wait alone -/

/-- `sys_waitpid` names a process that exists and that nobody waits for. -/
def Solo (k : Kernel) : KernelOp → Prop
  | .sysWaitpid _ pid => ∃ p : Nat, pid = p ∧ p < MAX_PROC ∧ p ≠ KPROC ∧
      (k.procs p).isSome = true ∧ ∀ u w, k.waits u = some w → w.pid ≠ p
  | _ => True

def SoloStep (k : Kernel) (op : KernelOp) (k' : Kernel) : Prop := KernelStep k op k' ∧ Solo k op

/-- All three segments have been defined. -/
def AddrSpace.Complete (as : AddrSpace) : Prop :=
  as.seg1.isSome ∧ as.seg2.isSome ∧ as.segstack.isSome

instance (as : AddrSpace) : Decidable as.Complete := inferInstanceAs (Decidable (_ ∧ _))

/-- The address space of every process that has ended is complete, and its executable still has a
    reference. -/
def Kernel.Closable (k : Kernel) : Prop :=
  ∀ p ≤ MAX_PROC, ∀ pr ∈ k.procs p, pr.p_numthreads = 0 → ∀ as ∈ pr.p_addrspace,
    as.Complete ∧ ∀ v ∈ as.seg1.bind Segment.elfdata, 0 < k.vnodes v

instance (k : Kernel) : Decidable k.Closable := by
  unfold Kernel.Closable
  infer_instance

variable {k k' : Kernel} {pr : ProcStruct}

theorem Solo.unawaited (h : Solo k op) : Unawaited k.waiting op := by
  rintro t p rfl u w hu
  obtain ⟨q, hq, -, -, -, hfree⟩ := h
  obtain rfl : p = q := Int.ofNat_inj.1 hq
  exact hfree u w hu

theorem solo_of_ne (h : ∀ t pid, op ≠ .sysWaitpid t pid) : Solo k op := by
  cases op with
  | sysWaitpid t pid => exact absurd rfl (h t pid)
  | _ => trivial

structure SoloInv (k : Kernel) : Prop where
  slots : SlotInv k
  wait : WaitInv k.waiting
  alone : Each k.waiting Alone
  alive : Alive k.waiting

theorem boot_soloInv : SoloInv Kernel.boot where
  slots := boot_slotInv
  wait := boot_waitInv
  alone := fun _ _ _ => nofun
  alive := nofun

theorem soloStep_inv (k : Kernel) (op : KernelOp) (k' : Kernel) (h : SoloInv k)
    (hstep : SoloStep k op k') : SoloInv k' := by
  have hmove := kernelStep_moves h.slots hstep.1
  exact ⟨(kernelStep_effect h.slots hstep.1).slotInv h.slots, hmove.inv h.wait,
    hmove.each (alone_kept hstep.2.unawaited) h.wait h.alone, hmove.alive h.alone h.alive⟩

theorem SoloInv.lives (h : SoloInv k) {w : Waiter} (hw : k.waits t = some w) :
    k.Lives w.pid w.addr :=
  Kernel.lives_iff.2 (h.alive t w hw)

/-- The only thread that waits for the process does not sleep once it is signalled. -/
theorem SoloInv.awake (h : SoloInv k) (hp : k.waiting.cell p = some c)
    (hsignal : HasSignal k.waits p c) {phase : WaitPhase}
    (hw : k.waits t = some ⟨p, c.addr, phase⟩) :
    phase = .ready ∧ 0 < c.count ∨ phase = .taken := by
  have hok := h.wait.ok hp
  have hother : ∀ {u phase'}, k.waits u = some ⟨p, c.addr, phase'⟩ → phase' = phase := by
    intro u phase' hu
    obtain rfl := h.alone p c hp u t _ _ hu hw
    exact congrArg Waiter.phase (Option.some.inj (hu.symm.trans hw))
  rcases hsignal with hpos | ⟨u, hu⟩
  · cases phase with
    | ready => exact .inl ⟨rfl, hpos⟩
    | asleep =>
      have hmem := (hok.sleepers t).2 hw
      obtain ⟨u, hu⟩ := hok.woken hpos (List.ne_nil_of_mem hmem)
      cases hother hu
    | taken => exact .inr rfl
  · exact .inr (hother hu).symm

/-! ## Nothing that was freed is touched -/

theorem SoloInv.semP_ok (h : SoloInv k) (crash : Crash) : ¬ KernelStops k (.semP t) crash := by
  rintro ⟨hen, hx⟩
  obtain ⟨w, hw, -⟩ := Option.map_eq_some_iff.1 hen
  obtain ⟨pr, hp, haddr⟩ := h.lives hw
  have hwaited : k.waited w = .ok pr := Kernel.waited_eq_ok.2 ⟨hp, haddr⟩
  simp only [Kernel.exec, hw, Option.elim, Kernel.semP, hwaited, bind, Except.bind] at hx
  split at hx <;> cases hx

theorem Solo.sysWaitpid_ok {pid : Int} (hsolo : Solo k (.sysWaitpid t pid)) (crash : Crash) :
    ¬ KernelStops k (.sysWaitpid t pid) crash := by
  rintro ⟨-, hx⟩
  obtain ⟨p, rfl, hlt, hk, hsome, -⟩ := hsolo
  obtain ⟨pr, hp⟩ := Option.isSome_iff_exists.1 hsome
  have hrange : (p : Int) ≥ 0 ∧ (p : Int) < MAX_PROC := by omega
  simp only [Kernel.exec, Kernel.sysWaitpid, kassert, if_pos hrange, Int.toNat_natCast, hp,
    if_pos hk, bind, Except.bind] at hx
  cases hx

/-- `as_destroy` returns for the process that a thread is about to reap. -/
theorem Kernel.Closable.asDestroy_ok (h : k.Closable) (hp : k.procs p = some pr)
    (hle : p ≤ MAX_PROC) (hthreads : pr.p_numthreads = 0) :
    ∃ vnodes, pr.p_addrspace.elim (.ok k.vnodes) (Kernel.asDestroy · k.vnodes) = .ok vnodes := by
  cases has : pr.p_addrspace with
  | none => exact ⟨_, rfl⟩
  | some as =>
    obtain ⟨⟨h1, h2, hst⟩, hopen⟩ := h p hle pr hp hthreads as has
    obtain ⟨s1, hs1⟩ := Option.isSome_iff_exists.1 h1
    obtain ⟨s2, hs2⟩ := Option.isSome_iff_exists.1 h2
    obtain ⟨st, hst⟩ := Option.isSome_iff_exists.1 hst
    simp only [Option.elim, Kernel.asDestroy, hs1, hs2, hst]
    cases he : s1.elfdata with
    | none => exact ⟨_, rfl⟩
    | some v => exact ⟨_, vfsClose_eq_ok.2 ⟨hopen v (by simp [hs1, he]), rfl⟩⟩

/-- Behind `P`, `proc_wait` returns, and the process is gone. -/
theorem SoloInv.procWait_ok (h : SoloInv k) (hclose : k.Closable) {w : Waiter}
    (hw : k.waits t = some w) (hphase : w.phase = .taken) :
    ∃ k' status, k.procWait t w = .ok (k', status) ∧ ¬ k'.Lives w.pid w.addr := by
  obtain ⟨pid, addr, phase⟩ := w
  obtain rfl : phase = .taken := hphase
  obtain ⟨pr, hp, rfl⟩ := h.lives hw
  have hcell := Kernel.waiting_cell hp
  have hok := h.wait.ok hcell
  have hthreads : pr.p_numthreads = 0 := (hok.taken t hw).1
  have hchan : pr.p_sem.sem_wchan = [] := by
    refine List.eq_nil_iff_forall_not_mem.2 fun u hu => ?_
    have hsleep := (hok.sleepers u).1 hu
    exact ne_of_waits hw hsleep (by simp) (h.alone pid pr.cell hcell u t _ _ hsleep hw)
  have hrange := h.slots.range pid pr hp
  have hpid : 0 < (pid : Int) ∧ (pid : Int) ≤ MAX_PROC := by omega
  have hwaited : k.waited ⟨pid, pr.addr, .taken⟩ = .ok pr := Kernel.waited_eq_ok.2 ⟨hp, rfl⟩
  have hproc : k.proc pid = .ok pr := Kernel.proc_eq_ok.2 hp
  obtain ⟨vnodes, hdestroy⟩ := hclose.asDestroy_ok hp hrange.2 hthreads
  simp only [Kernel.procWait, hwaited, Kernel.procDestroy, hproc, hdestroy, kassert,
    if_pos hthreads, if_pos hchan, ProcessTable.procEndWaitpid, if_pos hpid, bind, Except.bind]
  refine ⟨_, _, rfl, ?_⟩
  rintro ⟨pr', hp', -⟩
  simp at hp'

/-! ## Whole runs -/

variable {σ : Nat → Kernel} {lab : Nat → KernelOp} {n i j : Nat}

theorem WaitMove.fresh_le (hmove : WaitMove W op W') : W.fresh ≤ W'.fresh := by
  cases hmove with
  | stay hfresh => exact hfresh
  | forked _ => exact Nat.le_succ _
  | launched _ _ => exact Nat.le_succ _
  | failed _ _ _ | ended _ _ | started _ _ | slept _ _ _ | took _ _ _ | reaped _ _ _ _ =>
    exact Nat.le_refl _

/-- What happens to a process that is waited for, over a run. -/
structure ReapedOnce (σ : Nat → Kernel) (lab : Nat → KernelOp) (n : Nat) : Prop where
  -- no thread in `proc_wait` holds a pointer to freed memory, and each of them gets on
  pointers : ∀ i ≤ n, ∀ t w, (σ i).waits t = some w → (σ i).Lives w.pid w.addr
  sysWaitpid_ok : ∀ i ≤ n, ∀ t pid crash, Solo (σ i) (.sysWaitpid t pid) →
    ¬ KernelStops (σ i) (.sysWaitpid t pid) crash
  semP_ok : ∀ i ≤ n, ∀ t crash, ¬ KernelStops (σ i) (.semP t) crash
  procWait_ok : ∀ i ≤ n, ∀ t w, (σ i).waits t = some w → w.phase = .taken →
    ∃ k' status, (σ i).procWait t w = .ok (k', status) ∧ ¬ k'.Lives w.pid w.addr
  -- a structure is destroyed behind its semaphore and without a thread, and does not come back
  destroyed : ∀ i < n, ∀ p pr, (σ i).procs p = some pr → ¬ (σ (i + 1)).Lives p pr.addr →
    pr.p_numthreads = 0 ∧
      ∃ t, lab i = .procWait t ∧ (σ i).waits t = some ⟨p, pr.addr, .taken⟩
  once : ∀ i j m, i ≤ j → j ≤ m → m ≤ n → ∀ p a, (σ i).Lives p a → ¬ (σ j).Lives p a →
    ∀ q, ¬ (σ m).Lives q a
  -- a wait returns what `sys__exit` recorded
  status : ∀ i < n, ∀ t w, lab i = .procWait t → (σ i).waits t = some w →
    ∃ j < i, ∃ status, lab j = .sysExit w.pid status ∧ (σ j).Lives w.pid w.addr ∧
      (σ i).procWait t w = .ok (σ (i + 1), status &&& 0xff)
  -- and does not block behind it
  passes : ∀ i j, j < i → i ≤ n → ∀ p a status, lab j = .sysExit p status → (σ j).Lives p a →
    ∀ t phase, (σ i).waits t = some ⟨p, a, phase⟩ → phase = .taken ∨ phase = .ready ∧
      ∃ k', KernelStep (σ i) (.semP t) k' ∧ k'.waits t = some ⟨p, a, .taken⟩

/-- `sys__exit` always announces the process. -/
theorem sysExit_cell {status : UInt32} (hstep : KernelStep k (.sysExit p status) k') :
    ∃ c, k.waiting.cell p = some c ∧ k'.waiting.cell p = some (c.ended status) := by
  have hx : k.sysExit p status = .ok k' := hstep.2
  simp only [Kernel.sysExit, bind_eq_ok, Kernel.proc_eq_ok, kassert_eq_ok, pure_eq_ok] at hx
  obtain ⟨pr, hp, -, -, rfl⟩ := hx
  refine ⟨pr.cell, Kernel.waiting_cell hp, ?_⟩
  simp [Kernel.waiting, ProcStruct.cell, Cell.ended]

section Run

variable (hrun : IsRun SoloStep σ lab n) (h0 : σ 0 = Kernel.boot)

include hrun h0

theorem run_soloInv (hi : i ≤ n) : SoloInv (σ i) :=
  (hrun.reaches i hi).invariant soloStep_inv (h0 ▸ boot_soloInv)

theorem run_moves (hi : i < n) : WaitMove (σ i).waiting (lab i) (σ (i + 1)).waiting :=
  kernelStep_moves (run_soloInv hrun h0 (Nat.le_of_lt hi)).slots (hrun i hi).1

theorem run_fresh_le (hij : i ≤ j) : j ≤ n → (σ i).fresh ≤ (σ j).fresh := by
  induction hij with
  | refl => exact fun _ => Nat.le_refl _
  | step hij ih =>
    intro hj
    exact Nat.le_trans (ih (by omega)) (run_moves hrun h0 hj).fresh_le

/-- A property that every step keeps holds from then on. -/
theorem run_each {P : (Nat → Option Waiter) → Nat → Cell → Prop} (hij : i ≤ j)
    (hkept : ∀ m, i ≤ m → m < n → Kept (σ m).waiting (lab m) P) (hi : Each (σ i).waiting P) :
    j ≤ n → Each (σ j).waiting P := by
  induction hij with
  | refl => exact fun _ => hi
  | step hij ih =>
    intro hj
    exact (run_moves hrun h0 hj).each (hkept _ hij hj) (run_soloInv hrun h0 (by omega)).wait
      (ih (by omega))

theorem run_past : ∀ i, i ≤ n → Each (σ i).waiting (Past σ lab i) := by
  intro i
  induction i with
  | zero =>
    intro _ p c hp hsignal
    rw [h0] at hp hsignal
    rw [(boot_cell hp).2] at hsignal
    rcases hsignal with hpos | ⟨t, ht⟩
    · exact absurd hpos (Nat.lt_irrefl 0)
    · cases ht
  | succ i ih =>
    intro hi
    exact (run_moves hrun h0 hi).each (past_kept σ lab i) (run_soloInv hrun h0 (by omega)).wait
      fun p c hp => (ih (by omega) p c hp).succ

theorem run_addr_lt (hij : i ≤ j) (hj : j ≤ n) (hlive : (σ i).Lives p a) : a < (σ j).fresh := by
  obtain ⟨c, hc, rfl⟩ := Kernel.lives_iff.1 hlive
  exact Nat.lt_of_lt_of_le ((run_soloInv hrun h0 (by omega)).wait.addr_lt hc)
    (run_fresh_le hrun h0 hij hj)

theorem run_once {m : Nat} (hij : i ≤ j) (hjm : j ≤ m) (hm : m ≤ n) (hlive : (σ i).Lives p a)
    (hgone : ¬ (σ j).Lives p a) (q : Nat) : ¬ (σ m).Lives q a := by
  have hkept : ∀ Q m, i ≤ m → m < n → Kept (σ m).waiting (lab m) (Placed a Q) :=
    fun Q m him hm => placed_kept (run_addr_lt hrun h0 him (by omega) hlive)
  have hfirst : Each (σ i).waiting (Placed a (· = p)) := by
    intro q c hq haddr
    obtain ⟨d, hd, hda⟩ := Kernel.lives_iff.1 hlive
    exact (run_soloInv hrun h0 (by omega)).wait.addr_inj hq hd (haddr.trans hda.symm)
  have hgone' : Each (σ j).waiting (Placed a fun _ => False) := by
    intro q c hq haddr
    obtain rfl := run_each hrun h0 hij (hkept _) hfirst (by omega) q c hq haddr
    exact hgone (Kernel.lives_iff.2 ⟨c, hq, haddr⟩)
  intro hback
  obtain ⟨c, hc, haddr⟩ := Kernel.lives_iff.1 hback
  exact run_each hrun h0 hjm (fun m hjm' => hkept _ m (by omega)) hgone' hm q c hc haddr

theorem run_destroyed (hi : i < n) {pr : ProcStruct} (hp : (σ i).procs p = some pr)
    (hgone : ¬ (σ (i + 1)).Lives p pr.addr) : pr.p_numthreads = 0 ∧
      ∃ t, lab i = .procWait t ∧ (σ i).waits t = some ⟨p, pr.addr, .taken⟩ := by
  rcases (run_moves hrun h0 hi).keeps (Kernel.waiting_cell hp) with hlive | ⟨t, hop, hw, hthreads⟩
  · exact absurd (Kernel.lives_iff.2 hlive) hgone
  · exact ⟨hthreads, t, hop, hw⟩

theorem run_status (hi : i < n) {w : Waiter} (hlab : lab i = .procWait t)
    (hw : (σ i).waits t = some w) : ∃ j < i, ∃ status, lab j = .sysExit w.pid status ∧
      (σ j).Lives w.pid w.addr ∧
      (σ i).procWait t w = .ok (σ (i + 1), status &&& 0xff) := by
  obtain ⟨hen, hx⟩ := (hrun i hi).1
  rw [hlab] at hen hx
  rw [Kernel.exec, hw] at hx
  obtain ⟨status, hx⟩ := map_fst_eq_ok hx
  have hphase : w.phase = .taken := phase_eq hen hw
  obtain ⟨pr, hp, haddr⟩ := (run_soloInv hrun h0 (Nat.le_of_lt hi)).lives hw
  have hsignal : HasSignal (σ i).waits w.pid pr.cell := by
    refine .inr ⟨t, ?_⟩
    rw [hw, ← hphase]
    exact congrArg (fun a => some (⟨w.pid, a, w.phase⟩ : Waiter)) haddr.symm
  obtain ⟨j, hj, status', hexit, hlive, hstatus⟩ :=
    run_past hrun h0 i (Nat.le_of_lt hi) w.pid pr.cell (Kernel.waiting_cell hp) hsignal
  refine ⟨j, hj, status', hexit, haddr ▸ hlive, ?_⟩
  have hret : status = pr.p_status := by
    simp only [Kernel.procWait, bind_eq_ok, Kernel.waited_eq_ok, pure_eq_ok, Prod.mk.injEq] at hx
    obtain ⟨pr', ⟨hp', -⟩, _, _, -, hst⟩ := hx
    rw [← hst, Option.some.inj (hp'.symm.trans hp)]
  rw [hx, hret]
  exact congrArg (fun s => Except.ok (σ (i + 1), s)) hstatus

/-- Behind `sys__exit`, the process is finished and stays so. -/
theorem run_finished {status : UInt32} (hj : j < n) (hlab : lab j = .sysExit p status)
    (hlive : (σ j).Lives p a) : Each (σ (j + 1)).waiting (Finished a) := by
  have hinv := run_soloInv hrun h0 (Nat.le_of_lt hj)
  obtain ⟨c, hc, hended⟩ := sysExit_cell (hlab ▸ (hrun j hj).1)
  have hone := (hinv.wait.ok hc).one
  obtain ⟨d, hd, hda⟩ := Kernel.lives_iff.1 hlive
  have honly : Each (σ j).waiting (Placed a (· = p)) :=
    fun q e hq haddr => hinv.wait.addr_inj hq hd (haddr.trans hda.symm)
  intro q e hq haddr
  -- the structure at `a` is the one of `p`
  obtain rfl := (run_moves hrun h0 hj).each
    (placed_kept (run_addr_lt hrun h0 (Nat.le_refl j) (Nat.le_of_lt hj) hlive)) hinv.wait honly
    q e hq haddr
  obtain rfl := Option.some.inj (hended.symm.trans hq)
  exact ⟨by simp only [Cell.ended]; omega, .inl (Nat.succ_pos _)⟩

theorem run_passes (hji : j < i) (hi : i ≤ n) {status : UInt32} {phase : WaitPhase}
    (hlab : lab j = .sysExit p status) (hlive : (σ j).Lives p a)
    (hw : (σ i).waits t = some ⟨p, a, phase⟩) : phase = .taken ∨ phase = .ready ∧
      ∃ k', KernelStep (σ i) (.semP t) k' ∧ k'.waits t = some ⟨p, a, .taken⟩ := by
  have hinv := run_soloInv hrun h0 hi
  have hfinished : Each (σ i).waiting (Finished a) :=
    run_each hrun h0 hji
      (fun m hm hmn => finished_kept (run_addr_lt hrun h0 (by omega) (by omega) hlive))
      (run_finished hrun h0 (by omega) hlab hlive) hi
  obtain ⟨pr, hp, rfl⟩ := hinv.lives hw
  have hcell := Kernel.waiting_cell hp
  rcases hinv.awake hcell (hfinished _ _ hcell rfl).2 hw with ⟨rfl, hpos⟩ | htaken
  · exact .inr ⟨rfl, semP_takes hp (Nat.ne_of_gt hpos) hw⟩
  · exact .inl htaken

/-- Along runs in which every process is waited for by one thread at most and finds a reference to
    its executable when it is torn down. -/
theorem solo_reapedOnce (hclose : ∀ i ≤ n, (σ i).Closable) : ReapedOnce σ lab n where
  pointers := fun _ hi _ _ hw => (run_soloInv hrun h0 hi).lives hw
  sysWaitpid_ok := fun _ _ _ _ crash hsolo => hsolo.sysWaitpid_ok crash
  semP_ok := fun _ hi _ crash => (run_soloInv hrun h0 hi).semP_ok crash
  procWait_ok := fun i hi _ _ hw => (run_soloInv hrun h0 hi).procWait_ok (hclose i hi) hw
  destroyed := fun _ hi _ _ hp hgone => run_destroyed hrun h0 hi hp hgone
  once := fun _ _ _ hij hjm hm _ _ hlive hgone q => run_once hrun h0 hij hjm hm hlive hgone q
  status := fun _ hi _ _ hlab hw => run_status hrun h0 hi hlab hw
  passes := fun _ _ hji hi _ _ _ hlab hlive _ _ hw => run_passes hrun h0 hji hi hlab hlive hw

end Run

/-- A process waits for its child, which ends with status 7, and reaps it. -/
def waitForChild : List KernelOp :=
  [.commonProg .done, .runprogram 2 (some smallExe), .sysFork 2 .done, .sysWaitpid 2 3, .semP 2,
    .sysExit 3 7, .semP 2, .procWait 2]

def waitForChildOp (i : Nat) : KernelOp := waitForChild.getD i (.semP 0)

def waitForChildState (i : Nat) : Kernel := trace Kernel.next waitForChildOp Kernel.boot i

theorem waitForChild_steps : IsRun KernelStep waitForChildState waitForChildOp 8 :=
  isRun_trace (fun _ _ _ hnext => Kernel.next_step hnext) (by decide +kernel)

theorem waitForChildOp_ne {i : Nat} (hi : i < 8) (h3 : i ≠ 3) (t : Nat) (pid : Int) :
    waitForChildOp i ≠ .sysWaitpid t pid := by
  have hcases : i = 0 ∨ i = 1 ∨ i = 2 ∨ i = 4 ∨ i = 5 ∨ i = 6 ∨ i = 7 := by omega
  rcases hcases with rfl | rfl | rfl | rfl | rfl | rfl | rfl <;> nofun

/-- Before its `sys_waitpid`, only the menu waits, and it waits for the parent. -/
theorem waitForChild_solo : Solo (waitForChildState 3) (.sysWaitpid 2 3) := by
  have hmenu : ∀ i, i ≤ 3 → OnlyMenu (waitForChildState i).waiting := by
    intro i
    induction i with
    | zero => exact fun _ => nofun
    | succ i ih =>
      intro hi
      have hslots := reaches_slotInv (waitForChild_steps.reaches i (by omega))
      exact (kernelStep_moves hslots (waitForChild_steps i (by omega))).onlyMenu
        (waitForChildOp_ne (by omega) (by omega)) (ih (by omega))
  have hsome : ((waitForChildState 3).procs 3).isSome = true := by decide +kernel
  have hpid : ((waitForChildState 3).waits KPROC).map Waiter.pid = some 2 := by decide +kernel
  refine ⟨3, rfl, by decide, by decide, hsome, fun u w hw => ?_⟩
  obtain rfl := (hmenu 3 (Nat.le_refl 3)).eq_menu hw
  rw [hw] at hpid
  rw [Option.some.inj hpid]
  decide

theorem waitForChild_reaped : ReapedOnce waitForChildState waitForChildOp 8 ∧
    (waitForChildState 7).Lives 3 2 ∧ ¬ (waitForChildState 8).Lives 3 2 := by
  have hrun : IsRun SoloStep waitForChildState waitForChildOp 8 := by
    intro i hi
    refine ⟨waitForChild_steps i hi, ?_⟩
    by_cases h3 : i = 3
    · subst h3
      exact waitForChild_solo
    · exact solo_of_ne (waitForChildOp_ne hi h3)
  have hlives : ((waitForChildState 7).procs 3).map ProcStruct.addr = some 2 := by decide +kernel
  have hgone : ((waitForChildState 8).procs 3).isNone = true := by decide +kernel
  have hclose : ∀ i ≤ 8, (waitForChildState i).Closable := by decide +kernel
  refine ⟨solo_reapedOnce hrun rfl hclose, Option.map_eq_some_iff.1 hlives, ?_⟩
  rintro ⟨pr, hp, -⟩
  rw [hp] at hgone
  cases hgone

/-- A program with two children, one of which waits for the other, as its parent does. -/
def twoChildren : List KernelOp :=
  [.commonProg .done, .runprogram 2 (some smallExe), .sysFork 2 .done, .sysFork 2 .done,
    .sysWaitpid 2 3, .semP 2]

/-- The parent sleeps. The other child comes when the process has ended, and reaps it before the
    parent gets to run. -/
def reapedBySecond : List KernelOp :=
  twoChildren ++ [.sysExit 3 0, .sysWaitpid 4 3, .semP 4, .procWait 4]

/-- Both sleep when the process ends. -/
def bothAsleep : List KernelOp :=
  twoChildren ++ [.sysWaitpid 4 3, .semP 4, .sysExit 3 0, .semP 2]

/-- The parent has reaped the process when the other child comes. -/
def alreadyReaped : List KernelOp := twoChildren ++ [.sysExit 3 0, .semP 2, .procWait 2]

theorem stops_of_replay {ops : List KernelOp} {op : KernelOp} {crash : Crash}
    (hreplay : (replay Kernel.next Kernel.boot ops).map (fun k => k.stops op == some crash) =
      some true) : ∃ k, Reaches KernelStep Kernel.boot k ∧ KernelStops k op crash := by
  obtain ⟨k, hreach, hk⟩ := Kernel.reaches_of_replay hreplay
  exact ⟨k, hreach, Kernel.stops_iff.1 (by simpa using hk)⟩

/-- A waiter touches the freed semaphore; the semaphore is destroyed under a sleeper; the slot of a
    reaped process is followed; and with one waiter for each, the parent's executable has no
    reference left when the parent is reaped after the child. -/
theorem second_waiter_stops :
    (∃ k, Reaches KernelStep Kernel.boot k ∧ KernelStops k (.semP 2) .useAfterFree) ∧
    (∃ k, Reaches KernelStep Kernel.boot k ∧ KernelStops k (.procWait 2) .kassert) ∧
    (∃ k, Reaches KernelStep Kernel.boot k ∧ KernelStops k (.sysWaitpid 4 3) .nullDeref) ∧
    ∃ k, Reaches KernelStep Kernel.boot k ∧ KernelStops k (.procWait KPROC) .kassert := by
  have hfreed : (replay Kernel.next Kernel.boot reapedBySecond).map (fun k =>
      k.stops (.semP 2) == some .useAfterFree) = some true := by decide +kernel
  have hasleep : (replay Kernel.next Kernel.boot bothAsleep).map (fun k =>
      k.stops (.procWait 2) == some .kassert) = some true := by decide +kernel
  have hgone : (replay Kernel.next Kernel.boot alreadyReaped).map (fun k =>
      k.stops (.sysWaitpid 4 3) == some .nullDeref) = some true := by decide +kernel
  have hclosed : (replay Kernel.next Kernel.boot (waitForChild ++ [.sysExit 2 0, .semP KPROC])).map
      (fun k => k.stops (.procWait KPROC) == some .kassert) = some true := by decide +kernel
  exact ⟨stops_of_replay hfreed, stops_of_replay hasleep, stops_of_replay hgone,
    stops_of_replay hclosed⟩

end DemandPaging
