import DemandPaging.Kernel.Waiting
import DemandPaging.Kernel.Vnodes

set_option autoImplicit false

/-! # Finished processes are announced

`proc_wait` sleeps until the semaphore of the process is signalled, and only `sys__exit` signals it.
A program that starts ends through `sys__exit`, and is announced once. When `runprogram` fails, the
thread returns from `cmd_progthread` and leaves through `thread_exit`, which takes it from the
process but signals nobody: the menu waits forever. -/

namespace DemandPaging

/-- A process without a thread has its signal. -/
def Signalled (waits : Nat → Option Waiter) (p : Nat) (c : Cell) : Prop :=
  c.threads = 0 → HasSignal waits p c

/-- Programs that are run can be loaded. -/
def Starting : KernelOp → Prop
  | .runprogram _ exe => Starts exe
  | _ => True

def StartingStep (k : Kernel) (op : KernelOp) (k' : Kernel) : Prop :=
  KernelStep k op k' ∧ Starting op

variable {k k' : Kernel} {op : KernelOp} {p t : Nat} {pr : ProcStruct}

theorem signalled_kept (W : Waiting) (hop : Starting op) : Kept W op Signalled where
  congr := fun h hsame hzero => (hasSignal_congr hsame).2 (h hzero)
  new := fun _ hzero => by cases hzero
  failed := by
    rintro p c exe rfl hexe
    exact absurd hop hexe
  ended := fun _ _ _ _ _ => .inl (Nat.succ_pos _)
  started := by
    intro p t c _ hfree h hzero
    exact (hasSignal_update (by simp [hfree]) (by simp)).2 (h hzero)
  slept := by
    intro p t c hw _ h hzero
    exact (hasSignal_update (by simp [hw]) (by simp)).2 (h hzero)
  took := fun _ _ _ _ _ => .inr ⟨_, Function.update_self ..⟩

theorem reaches_signalled (h : Reaches StartingStep Kernel.boot k) : Each k.waiting Signalled := by
  induction h with
  | refl =>
    intro p c hp hzero
    rw [(boot_cell hp).2] at hzero
    cases hzero
  | tail h hstep ih =>
    have hreach := h.mono fun _ _ _ hstep => hstep.1
    exact (kernelStep_moves (reaches_slotInv hreach) hstep.1).each (signalled_kept _ hstep.2)
      (reaches_waitInv hreach) ih

/-- The end of a process is announced once: the signal is there, or one thread has taken it. A
    thread that comes to `P` while it is there gets through, and none sleeps unless another is
    served. -/
structure Announced (k : Kernel) (p : Nat) (pr : ProcStruct) : Prop where
  once : pr.p_sem.sem_count = 1 ∧ (∀ t, k.waits t ≠ some ⟨p, pr.addr, .taken⟩) ∨
    pr.p_sem.sem_count = 0 ∧ ∃! t, k.waits t = some ⟨p, pr.addr, .taken⟩
  passes : pr.p_sem.sem_count = 1 → ∀ t, k.waits t = some ⟨p, pr.addr, .ready⟩ →
    ∃ k', KernelStep k (.semP t) k' ∧ k'.waits t = some ⟨p, pr.addr, .taken⟩
  sleeps : ∀ t, k.waits t = some ⟨p, pr.addr, .asleep⟩ →
    ∃ t' ≠ t, ∃ phase ≠ .asleep, k.waits t' = some ⟨p, pr.addr, phase⟩

/-- Along runs in which every program can be loaded. -/
theorem starting_announced (h : Reaches StartingStep Kernel.boot k) (hp : k.procs p = some pr)
    (hdone : pr.p_numthreads = 0) : Announced k p pr := by
  have hok : CellOk k.waits p pr.cell :=
    (reaches_waitInv (h.mono fun _ _ _ hstep => hstep.1)).ok (Kernel.waiting_cell hp)
  have hsignal := reaches_signalled h p pr.cell (Kernel.waiting_cell hp) hdone
  have hone : pr.p_numthreads + pr.p_sem.sem_count ≤ 1 := hok.one
  refine ⟨?_, fun hcount t hw => semP_takes hp (by omega) hw, fun t hw => ?_⟩
  · rcases hsignal with hpos | ⟨t, ht⟩
    · have hcount : 0 < pr.p_sem.sem_count := hpos
      refine .inl ⟨by omega, fun t ht => ?_⟩
      have hzero : pr.p_sem.sem_count = 0 := (hok.taken t ht).2
      omega
    · exact .inr ⟨(hok.taken t ht).2, t, ht, fun u hu => hok.sole u t hu ht⟩
  · have hmem : t ∈ pr.cell.chan := (hok.sleepers t).2 hw
    -- the one that is served is on its way, or has its signal
    have hserved : ∃ u, ∃ phase ≠ .asleep, k.waits u = some ⟨p, pr.addr, phase⟩ := by
      rcases hsignal with hpos | ⟨u, hu⟩
      · obtain ⟨u, hu⟩ := hok.woken hpos (List.ne_nil_of_mem hmem)
        exact ⟨u, .ready, nofun, hu⟩
      · exact ⟨u, .taken, nofun, hu⟩
    obtain ⟨u, phase, hphase, hu⟩ := hserved
    have hut : u ≠ t := ne_of_waits hw hu fun heq => hphase (congrArg Waiter.phase heq).symm
    exact ⟨u, hut, phase, hphase, hu⟩

/-- The menu starts a program, which ends before the menu comes to `P`. -/
def runToEnd : List KernelOp := [.commonProg .done, .runprogram 2 (some smallExe), .sysExit 2 3]

theorem runToEnd_announced : ∃ k pr, Reaches StartingStep Kernel.boot k ∧ k.procs 2 = some pr ∧
    pr.p_numthreads = 0 ∧ Announced k 2 pr := by
  have hreplay : (replay Kernel.next Kernel.boot runToEnd).map
      (fun k => (k.procs 2).any fun pr => pr.p_numthreads == 0) = some true := by decide +kernel
  have hstep : ∀ k k' op, op ∈ runToEnd → Kernel.next k op = some k' → StartingStep k op k' := by
    intro k k' op hmem hnext
    refine ⟨Kernel.next_step hnext, ?_⟩
    simp only [runToEnd, List.mem_cons, List.not_mem_nil, or_false] at hmem
    rcases hmem with rfl | rfl | rfl
    · trivial
    · exact ⟨smallExe, rfl, rfl, smallExe_loadable.1⟩
    · trivial
  obtain ⟨k, hreach, hk⟩ := exists_reaches_of_replay hstep hreplay
  obtain ⟨pr, hp, hdone⟩ := (Option.any_eq_true _ _).1 hk
  have hzero : pr.p_numthreads = 0 := by simpa using hdone
  exact ⟨k, pr, hreach, hp, hzero, starting_announced hreach hp hzero⟩

/-- The menu starts a program that does not exist, and goes to sleep. -/
def missingProgram : List KernelOp := [.commonProg .done, .semP KPROC, .runprogram 2 none]

/-- The process has no thread, its semaphore was never signalled, and the menu sleeps on it. -/
theorem missing_program_not_announced : ∃ k pr, Reaches KernelStep Kernel.boot k ∧
    k.procs 2 = some pr ∧ pr.p_numthreads = 0 ∧ pr.p_sem = ⟨0, [KPROC]⟩ ∧
    k.waits KPROC = some ⟨2, pr.addr, .asleep⟩ ∧ ¬ Announced k 2 pr := by
  have hreplay : (replay Kernel.next Kernel.boot missingProgram).map
      (fun k => (k.procs 2).any fun pr => pr.p_numthreads == 0 && pr.p_sem == ⟨0, [KPROC]⟩ &&
        k.waits KPROC == some ⟨2, pr.addr, .asleep⟩) = some true := by decide +kernel
  have hstep : ∀ k k' op, (SlotInv k ∧ OnlyMenu k.waiting) → op ∈ missingProgram →
      Kernel.next k op = some k' → KernelStep k op k' ∧ SlotInv k' ∧ OnlyMenu k'.waiting := by
    rintro k k' op ⟨hslots, hmenu⟩ hmem hnext
    have hop : ∀ t pid, op ≠ .sysWaitpid t pid := by
      rintro t pid rfl
      simp [missingProgram] at hmem
    have hs := Kernel.next_step hnext
    exact ⟨hs, (kernelStep_effect hslots hs).slotInv hslots,
      (kernelStep_moves hslots hs).onlyMenu hop hmenu⟩
  obtain ⟨k, hreach, ⟨-, hmenu⟩, hk⟩ := reaches_of_replay hstep ⟨boot_slotInv, nofun⟩ hreplay
  obtain ⟨pr, hp, hpr⟩ := (Option.any_eq_true _ _).1 hk
  simp only [Bool.and_eq_true, beq_iff_eq] at hpr
  obtain ⟨⟨hzero, hsem⟩, hwait⟩ := hpr
  refine ⟨k, pr, hreach, hp, hzero, hsem, hwait, fun hann => ?_⟩
  rcases hann.once with ⟨hcount, -⟩ | ⟨-, t, ht, -⟩
  · rw [hsem] at hcount
    cases hcount
  · -- only the menu could have taken the signal
    rw [hmenu.eq_menu ht, hwait] at ht
    cases ht

end DemandPaging
