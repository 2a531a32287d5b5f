import DemandPaging.Kernel.Effects

set_option autoImplicit false

/-! # Waiting for a process

What `P` and `V` on the semaphore of a process, and the destruction of the process behind `P`,
amount to. Of a process only its thread, its semaphore and its status matter here (`Cell`), and of
an operation only what it does to those (`WaitMove`). `kernelStep_moves` connects this to the
kernel, and `WaitInv` holds in every state the kernel gets into, however many threads wait for one
process: a process that has a thread, a signal that nobody has taken and a thread that has taken it
exclude each other. -/

namespace DemandPaging

open Function (update update_self update_of_ne update_eq_self)

/-- A process as those who wait for it see it. -/
structure Cell where
  addr : Nat
  threads : Nat
  count : Nat
  chan : List Nat
  status : UInt32
deriving DecidableEq, Repr

structure Waiting where
  cell : Nat → Option Cell
  waits : Nat → Option Waiter
  fresh : Nat

def ProcStruct.cell (pr : ProcStruct) : Cell :=
  ⟨pr.addr, pr.p_numthreads, pr.p_sem.sem_count, pr.p_sem.sem_wchan, pr.p_status⟩

def Kernel.waiting (k : Kernel) : Waiting :=
  ⟨fun p => (k.procs p).map ProcStruct.cell, k.waits, k.fresh⟩

/-- A new process, with its thread. -/
def Cell.new (addr : Nat) : Cell := ⟨addr, 1, 0, [], 0⟩

/-- `sys__exit`. -/
def Cell.ended (c : Cell) (status : UInt32) : Cell :=
  ⟨c.addr, c.threads - 1, c.count + 1, c.chan.tail, status &&& 0xff⟩

/-- `runprogram` succeeds with this: a file that is there, memory for an address space, and an
    executable that `load_elf` takes. -/
def Starts (exe : Option Kernel.Exe) : Prop :=
  ∃ e, exe = some e ∧ e.space = true ∧ Loadable e.file e.env

/-- What an operation means for those who wait. -/
inductive WaitMove (W : Waiting) : KernelOp → Waiting → Prop
  | stay {op : KernelOp} {fresh : Nat} (hfresh : W.fresh ≤ fresh) :
      WaitMove W op { W with fresh := fresh }
  | forked {p newp : Nat} (hnew : W.cell newp = none) :
      WaitMove W (.sysFork p .done)
        { W with
          cell := update W.cell newp (some (Cell.new W.fresh))
          fresh := W.fresh + 1 }
  | launched {newp : Nat} (hnew : W.cell newp = none) (hfree : W.waits KPROC = none) :
      WaitMove W (.commonProg .done)
        { cell := update W.cell newp (some (Cell.new W.fresh))
          waits := update W.waits KPROC (some ⟨newp, W.fresh, .ready⟩)
          fresh := W.fresh + 1 }
  -- the thread leaves through `thread_exit`, and nobody is told
  | failed {p : Nat} {c : Cell} {exe : Option Kernel.Exe} (hp : W.cell p = some c)
      (hpos : 0 < c.threads) (hexe : ¬ Starts exe) :
      WaitMove W (.runprogram p exe)
        { W with cell := update W.cell p (some { c with threads := c.threads - 1 }) }
  | ended {p : Nat} {c : Cell} {status : UInt32} (hp : W.cell p = some c) (hpos : 0 < c.threads) :
      WaitMove W (.sysExit p status)
        { W with
          cell := update W.cell p (some (c.ended status))
          waits := Kernel.wakeone W.waits c.chan }
  | started {t pid : Nat} {c : Cell} (hp : W.cell pid = some c) (hfree : W.waits t = none) :
      WaitMove W (.sysWaitpid t pid)
        { W with waits := update W.waits t (some ⟨pid, c.addr, .ready⟩) }
  | slept {t p : Nat} {c : Cell} (hw : W.waits t = some ⟨p, c.addr, .ready⟩)
      (hp : W.cell p = some c) (hzero : c.count = 0) :
      WaitMove W (.semP t)
        { W with
          cell := update W.cell p (some { c with chan := c.chan ++ [t] })
          waits := update W.waits t (some ⟨p, c.addr, .asleep⟩) }
  | took {t p : Nat} {c : Cell} (hw : W.waits t = some ⟨p, c.addr, .ready⟩)
      (hp : W.cell p = some c) (hpos : 0 < c.count) :
      WaitMove W (.semP t)
        { W with
          cell := update W.cell p (some { c with count := c.count - 1 })
          waits := update W.waits t (some ⟨p, c.addr, .taken⟩) }
  | reaped {t p : Nat} {c : Cell} (hw : W.waits t = some ⟨p, c.addr, .taken⟩)
      (hp : W.cell p = some c) (hthreads : c.threads = 0) (hchan : c.chan = []) :
      WaitMove W (.procWait t)
        { W with
          cell := update W.cell p none
          waits := update W.waits t none }

/-! ## The kernel makes these moves -/

variable {k k' : Kernel} {op : KernelOp} {p t : Nat} {pr : ProcStruct}

theorem Kernel.waiting_cell (hp : k.procs p = some pr) : k.waiting.cell p = some pr.cell := by
  simp [Kernel.waiting, hp]

theorem Kernel.waiting_none (hp : k.procs p = none) : k.waiting.cell p = none := by
  simp [Kernel.waiting, hp]

theorem map_cell_update (procs : Nat → Option ProcStruct) (p : Nat) (pr : Option ProcStruct) :
    (fun i => (update procs p pr i).map ProcStruct.cell) =
      update (fun i => (procs i).map ProcStruct.cell) p (pr.map ProcStruct.cell) := by
  funext i
  by_cases hi : i = p
  · subst hi
    simp
  · simp [update_of_ne hi]

/-- Changing what nobody waits for. -/
theorem map_cell_same {pr' : ProcStruct} (hp : k.procs p = some pr) (hcell : pr'.cell = pr.cell) :
    (fun i => (update k.procs p (some pr') i).map ProcStruct.cell) = k.waiting.cell := by
  rw [map_cell_update, Option.map_some, hcell, ← Kernel.waiting_cell hp]
  exact update_eq_self p k.waiting.cell

theorem Kernel.waiting_eq {W : Waiting}
    (hcell : (fun i => (k'.procs i).map ProcStruct.cell) = W.cell)
    (hwaits : k'.waits = W.waits) (hfresh : k'.fresh = W.fresh) : k'.waiting = W := by
  cases W
  simp only [Kernel.waiting, Waiting.mk.injEq]
  exact ⟨hcell, hwaits, hfresh⟩

theorem WaitMove.of_eq {W W' : Waiting} (hmove : WaitMove W op W') (heq : k'.waiting = W') :
    WaitMove W op k'.waiting :=
  heq ▸ hmove

/-- A phase that the operation asks for. -/
theorem phase_eq {w : Waiter} {phase : WaitPhase} (h : (k.waits t).map Waiter.phase = some phase)
    (hw : k.waits t = some w) : w.phase = phase := by
  rw [hw] at h
  exact Option.some.inj h

theorem not_starts_of_error {e : Kernel.Exe} {as : AddrSpace} {err : Errno}
    (h : loadElfLeaves e.file e.vnode e.env asCreate = (as, .error err)) : ¬ Starts (some e) := by
  rintro ⟨e', he, -, hload⟩
  obtain rfl := Option.some.inj he
  obtain ⟨entry, hok⟩ := hload.ok e.vnode
  rw [h] at hok
  cases hok

theorem Kernel.Runs.threads (h : k.Runs p) (hp : k.procs p = some pr) : 0 < pr.p_numthreads := by
  have h1 := h.1
  rw [hp] at h1
  simpa using h1

/-- A step of the kernel is a move. -/
theorem kernelStep_moves (h : SlotInv k) (hstep : KernelStep k op k') :
    WaitMove k.waiting op k'.waiting := by
  have hen := hstep.1
  have hstay : ∀ {k'' : Kernel} {op : KernelOp},
      (fun i => (k''.procs i).map ProcStruct.cell) = k.waiting.cell → k''.waits = k.waits →
      k.fresh ≤ k''.fresh → WaitMove k.waiting op k''.waiting := by
    intro k'' op hcell hwaits hfresh
    have hmove : WaitMove k.waiting op { k.waiting with fresh := k''.fresh } := .stay hfresh
    exact hmove.of_eq (Kernel.waiting_eq hcell hwaits rfl)
  cases kernelStep_effect h hstep with
  | same | openFails _ _ _ => exact hstay rfl rfl (Nat.le_refl _)
  | scrap _ => exact hstay rfl rfl (Nat.le_succ _)
  | launch hnew _ =>
    refine (WaitMove.launched (Kernel.waiting_none hnew.unused) hen.2).of_eq ?_
    exact Kernel.waiting_eq (map_cell_update ..) rfl rfl
  | noSpace hp hexe =>
    refine (WaitMove.failed (Kernel.waiting_cell hp) (hen.1.threads hp) ?_).of_eq
      (Kernel.waiting_eq (map_cell_update ..) rfl rfl)
    rintro ⟨e, rfl, hspace, -⟩
    rw [hexe e rfl] at hspace
    cases hspace
  | loadFails hp _ _ hload =>
    exact (WaitMove.failed (Kernel.waiting_cell hp) (hen.1.threads hp)
      (not_starts_of_error hload)).of_eq (Kernel.waiting_eq (map_cell_update ..) rfl rfl)
  | loads hp _ _ _ | opens hp _ _ | closes hp _ _ _ _ =>
    exact hstay (map_cell_same hp rfl) rfl (Nat.le_refl _)
  | forks hp _ _ hnew _ =>
    refine (WaitMove.forked (Kernel.waiting_none hnew.unused)).of_eq
      (Kernel.waiting_eq ?_ rfl rfl)
    rw [map_cell_update]
    exact congrArg (update · _ _) (map_cell_same hp rfl)
  | forkFails hp _ _ _ _ _ => exact hstay (map_cell_same hp rfl) rfl (Nat.le_succ _)
  | exits hp hpos =>
    exact (WaitMove.ended (Kernel.waiting_cell hp) hpos).of_eq
      (Kernel.waiting_eq (map_cell_update ..) rfl rfl)
  | waits hp _ =>
    exact (WaitMove.started (Kernel.waiting_cell hp) hen.1.2).of_eq
      (Kernel.waiting_eq rfl rfl rfl)
  | @sleeps t w pr hw hp haddr hzero =>
    have hphase := phase_eq hen hw
    cases w with
    | mk pid addr phase =>
      cases hphase
      cases haddr
      exact (WaitMove.slept hw (Kernel.waiting_cell hp) hzero).of_eq
        (Kernel.waiting_eq (by rw [← hzero]; exact map_cell_update ..) rfl rfl)
  | @takes t w pr hw hp haddr hpos =>
    have hphase := phase_eq hen hw
    cases w with
    | mk pid addr phase =>
      cases hphase
      cases haddr
      exact (WaitMove.took hw (Kernel.waiting_cell hp) hpos).of_eq
        (Kernel.waiting_eq (map_cell_update ..) rfl rfl)
  | @reaps t w pr table vnodes hw hp haddr _ hthreads hchan _ =>
    have hphase := phase_eq hen hw
    cases w with
    | mk pid addr phase =>
      cases hphase
      cases haddr
      exact (WaitMove.reaped hw (Kernel.waiting_cell hp) hthreads hchan).of_eq
        (Kernel.waiting_eq (map_cell_update ..) rfl rfl)

/-! ## The semaphore of one process -/

/-- How the semaphore of process `p` fits the threads that wait for it. -/
structure CellOk (waits : Nat → Option Waiter) (p : Nat) (c : Cell) : Prop where
  one : c.threads + c.count ≤ 1
  nodup : c.chan.Nodup
  sleepers : ∀ t, t ∈ c.chan ↔ waits t = some ⟨p, c.addr, .asleep⟩
  taken : ∀ t, waits t = some ⟨p, c.addr, .taken⟩ → c.threads = 0 ∧ c.count = 0
  sole : ∀ t t', waits t = some ⟨p, c.addr, .taken⟩ → waits t' = some ⟨p, c.addr, .taken⟩ → t = t'
  -- a signal that is still there has a thread on its way to it, if there was one to wake
  woken : 0 < c.count → c.chan ≠ [] → ∃ t, waits t = some ⟨p, c.addr, .ready⟩

section CellOk

variable {waits waits' : Nat → Option Waiter} {c : Cell}

/-- Only threads that wait for this process count. -/
theorem CellOk.congr (h : CellOk waits p c)
    (hsame : ∀ t phase, waits' t = some ⟨p, c.addr, phase⟩ ↔ waits t = some ⟨p, c.addr, phase⟩) :
    CellOk waits' p c where
  one := h.one
  nodup := h.nodup
  sleepers := fun t => (h.sleepers t).trans (hsame t _).symm
  taken := fun t ht => h.taken t ((hsame t _).1 ht)
  sole := fun t t' ht ht' => h.sole t t' ((hsame t _).1 ht) ((hsame t' _).1 ht')
  woken := by
    intro hpos hchan
    obtain ⟨t, ht⟩ := h.woken hpos hchan
    exact ⟨t, (hsame t _).2 ht⟩

theorem CellOk.new {addr : Nat} (h : ∀ t w, waits t = some w → w.addr = addr → w.phase = .ready) :
    CellOk waits p (Cell.new addr) where
  one := Nat.le_refl 1
  nodup := List.nodup_nil
  sleepers := fun t => ⟨fun ht => (List.not_mem_nil ht).elim, fun ht => nomatch h t _ ht rfl⟩
  taken := fun t ht => nomatch h t _ ht rfl
  sole := fun t _ ht _ => nomatch h t _ ht rfl
  woken := fun hpos _ => absurd hpos (Nat.lt_irrefl 0)

theorem CellOk.failed (h : CellOk waits p c) :
    CellOk waits p { c with threads := c.threads - 1 } where
  one := by
    have := h.one
    simp only
    omega
  nodup := h.nodup
  sleepers := h.sleepers
  taken := by
    intro t ht
    obtain ⟨hthreads, hcount⟩ := h.taken t ht
    exact ⟨by simp [hthreads], hcount⟩
  sole := h.sole
  woken := h.woken

/-- A thread with another state than before is another thread. -/
theorem ne_of_waits {w w' : Waiter} {u : Nat} (ht : waits t = some w) (hu : waits u = some w')
    (hne : w ≠ w') : u ≠ t := by
  rintro rfl
  exact hne (Option.some.inj (ht.symm.trans hu))

theorem update_waits_iff {w w' : Waiter} {u : Nat} (hne : w' ≠ w) :
    update waits t (some w) u = some w' ↔ u ≠ t ∧ waits u = some w' := by
  by_cases hu : u = t
  · subst hu
    simp [hne.symm]
  · simp [hu]

theorem CellOk.started (h : CellOk waits p c) (hfree : waits t = none) :
    CellOk (update waits t (some ⟨p, c.addr, .ready⟩)) p c where
  one := h.one
  nodup := h.nodup
  sleepers := by
    intro u
    rw [update_waits_iff (by simp), h.sleepers u]
    refine ⟨fun hu => ⟨?_, hu⟩, And.right⟩
    rintro rfl
    rw [hfree] at hu
    cases hu
  taken := fun u hu => h.taken u ((update_waits_iff (by simp)).1 hu).2
  sole := fun u u' hu hu' =>
    h.sole u u' ((update_waits_iff (by simp)).1 hu).2 ((update_waits_iff (by simp)).1 hu').2
  woken := fun _ _ => ⟨t, update_self ..⟩

theorem CellOk.slept (h : CellOk waits p c) (hw : waits t = some ⟨p, c.addr, .ready⟩)
    (hzero : c.count = 0) :
    CellOk (update waits t (some ⟨p, c.addr, .asleep⟩)) p
      { c with chan := c.chan ++ [t] } where
  one := h.one
  nodup := by
    have hnot : t ∉ c.chan := fun hmem => ne_of_waits hw ((h.sleepers t).1 hmem) (by simp) rfl
    exact h.nodup.append (List.nodup_singleton t) (by simpa using hnot)
  sleepers := by
    intro u
    by_cases hu : u = t
    · subst hu
      simp
    · simp [hu, h.sleepers u]
  taken := fun u hu => h.taken u ((update_waits_iff (by simp)).1 hu).2
  sole := fun u u' hu hu' =>
    h.sole u u' ((update_waits_iff (by simp)).1 hu).2 ((update_waits_iff (by simp)).1 hu').2
  woken := fun hpos _ => absurd hzero (Nat.ne_of_gt hpos)

theorem CellOk.took (h : CellOk waits p c) (hw : waits t = some ⟨p, c.addr, .ready⟩)
    (hpos : 0 < c.count) :
    CellOk (update waits t (some ⟨p, c.addr, .taken⟩)) p
      { c with count := c.count - 1 } where
  one := by
    have := h.one
    simp only
    omega
  nodup := h.nodup
  sleepers := by
    intro u
    rw [update_waits_iff (by simp)]
    exact (h.sleepers u).trans ⟨fun hu => ⟨ne_of_waits hw hu (by simp), hu⟩, And.right⟩
  taken := by
    have := h.one
    intro _ _
    exact ⟨by simp only; omega, by simp only; omega⟩
  sole := by
    -- nobody has taken a signal that is still there
    have honly : ∀ u, update waits t (some ⟨p, c.addr, .taken⟩) u =
        some ⟨p, c.addr, .taken⟩ → u = t := by
      intro u hu
      by_contra hne
      rw [update_of_ne hne] at hu
      have := (h.taken u hu).2
      omega
    intro u u' hu hu'
    rw [honly u hu, honly u' hu']
  woken := by
    intro hpos' _
    have := h.one
    simp only at hpos'
    omega

/-- `wchan_wakeone` moves the first sleeper. -/
theorem wakeone_cons {rest : List Nat} (hw : waits t = some ⟨p, c.addr, .asleep⟩) :
    Kernel.wakeone waits (t :: rest) = update waits t (some ⟨p, c.addr, .ready⟩) := by
  simp [Kernel.wakeone, hw]

theorem CellOk.ended (h : CellOk waits p c) (hpos : 0 < c.threads) (status : UInt32) :
    CellOk (Kernel.wakeone waits c.chan) p (c.ended status) := by
  have hone := h.one
  have hnone : ∀ u, waits u ≠ some ⟨p, c.addr, .taken⟩ := by
    intro u hu
    have := (h.taken u hu).1
    omega
  cases hchan : c.chan with
  | nil =>
    have hawake : ∀ u, waits u ≠ some ⟨p, c.addr, .asleep⟩ := by
      intro u hu
      have hmem := (h.sleepers u).2 hu
      simp [hchan] at hmem
    refine ⟨by simp only [Cell.ended]; omega, by simp [Cell.ended, hchan], fun u => ?_,
      fun u hu => (hnone u hu).elim, fun u _ hu _ => (hnone u hu).elim, fun _ hne => ?_⟩
    · simpa [Cell.ended, hchan, Kernel.wakeone] using hawake u
    · simp [Cell.ended, hchan] at hne
  | cons t rest =>
    have hnodup := h.nodup
    have hsleep := h.sleepers
    rw [hchan] at hnodup hsleep
    have hw := (hsleep t).1 (List.mem_cons_self ..)
    rw [wakeone_cons hw]
    refine ⟨by simp only [Cell.ended]; omega, ?_, fun u => ?_, fun u hu => ?_, fun u _ hu _ => ?_,
      fun _ _ => ⟨t, update_self ..⟩⟩
    · simpa [Cell.ended, hchan] using (List.nodup_cons.1 hnodup).2
    · rw [update_waits_iff (by simp)]
      simp only [Cell.ended, hchan, List.tail_cons]
      rw [← hsleep u, List.mem_cons]
      constructor
      · intro hmem
        refine ⟨?_, .inr hmem⟩
        rintro rfl
        exact (List.nodup_cons.1 hnodup).1 hmem
      · rintro ⟨hne, hmem⟩
        exact hmem.resolve_left hne
    · exact (hnone u ((update_waits_iff (by simp)).1 hu).2).elim
    · exact (hnone u ((update_waits_iff (by simp)).1 hu).2).elim

/-- The signal is there, or a thread has taken it. -/
def HasSignal (waits : Nat → Option Waiter) (p : Nat) (c : Cell) : Prop :=
  0 < c.count ∨ ∃ t, waits t = some ⟨p, c.addr, .taken⟩

theorem hasSignal_congr
    (hsame : ∀ t phase, waits' t = some ⟨p, c.addr, phase⟩ ↔ waits t = some ⟨p, c.addr, phase⟩) :
    HasSignal waits' p c ↔ HasSignal waits p c :=
  or_congr Iff.rfl (exists_congr fun t => hsame t _)

/-- A thread that starts to wait or goes to sleep takes nothing. -/
theorem hasSignal_update {w : Waiter} (hold : waits t ≠ some ⟨p, c.addr, .taken⟩)
    (hnew : w.phase ≠ .taken) :
    HasSignal (update waits t (some w)) p c ↔ HasSignal waits p c := by
  have hne : (⟨p, c.addr, .taken⟩ : Waiter) ≠ w := fun h => hnew (h ▸ rfl)
  refine or_congr Iff.rfl (exists_congr fun u => ?_)
  rw [update_waits_iff hne]
  refine ⟨And.right, fun hu => ⟨?_, hu⟩⟩
  rintro rfl
  exact hold hu

end CellOk

/-! ## All processes -/

/-- Structures lie at different addresses, all of them handed out before. -/
structure AddrInv (W : Waiting) : Prop where
  addr_lt : ∀ {p c}, W.cell p = some c → c.addr < W.fresh
  addr_inj : ∀ {p p' c c'}, W.cell p = some c → W.cell p' = some c' → c.addr = c'.addr → p = p'
  ptr_lt : ∀ {t w}, W.waits t = some w → w.addr < W.fresh

/-- All processes have the property `P`. -/
def Each (W : Waiting) (P : (Nat → Option Waiter) → Nat → Cell → Prop) : Prop :=
  ∀ p c, W.cell p = some c → P W.waits p c

structure WaitInv (W : Waiting) : Prop extends AddrInv W where
  each : Each W CellOk

theorem WaitInv.ok {W : Waiting} {c : Cell} (h : WaitInv W) (hp : W.cell p = some c) :
    CellOk W.waits p c :=
  h.each p c hp

theorem update_some_cases {α : Type} {f : Nat → Option α} {p q : Nat} {a : Option α} {b : α}
    (h : update f p a q = some b) : q = p ∧ a = some b ∨ q ≠ p ∧ f q = some b := by
  by_cases hqp : q = p
  · subst hqp
    exact .inl ⟨rfl, by rwa [update_self] at h⟩
  · exact .inr ⟨hqp, by rwa [update_of_ne hqp] at h⟩

/-- Only threads with a pointer to the structure at `a` have moved. -/
def MovesAt (waits waits' : Nat → Option Waiter) (a : Nat) : Prop :=
  ∀ u w, w.addr ≠ a → (waits' u = some w ↔ waits u = some w)

section MovesAt

variable {waits : Nat → Option Waiter} {a : Nat} {c : Cell}

theorem movesAt_refl (waits : Nat → Option Waiter) (a : Nat) : MovesAt waits waits a :=
  fun _ _ _ => Iff.rfl

theorem movesAt_update {new : Option Waiter} (hold : ∀ w, waits t = some w → w.addr = a)
    (hnew : ∀ w, new = some w → w.addr = a) : MovesAt waits (update waits t new) a := by
  intro u w hne
  by_cases hu : u = t
  · subst hu
    rw [update_self]
    exact ⟨fun h => (hne (hnew w h)).elim, fun h => (hne (hold w h)).elim⟩
  · rw [update_of_ne hu]

theorem movesAt_set {phase phase' : WaitPhase} (hw : waits t = some ⟨p, a, phase⟩) :
    MovesAt waits (update waits t (some ⟨p, a, phase'⟩)) a := by
  refine movesAt_update (fun w h => ?_) (fun w h => ?_)
  · rw [← Option.some.inj (hw.symm.trans h)]
  · rw [← Option.some.inj h]

theorem movesAt_start (hfree : waits t = none) :
    MovesAt waits (update waits t (some ⟨p, a, .ready⟩)) a := by
  refine movesAt_update (fun w h => ?_) (fun w h => ?_)
  · rw [hfree] at h
    cases h
  · rw [← Option.some.inj h]

theorem movesAt_leave {phase : WaitPhase} (hw : waits t = some ⟨p, a, phase⟩) :
    MovesAt waits (update waits t none) a := by
  refine movesAt_update (fun w h => ?_) nofun
  rw [← Option.some.inj (hw.symm.trans h)]

theorem CellOk.movesAt_wakeone (h : CellOk waits p c) :
    MovesAt waits (Kernel.wakeone waits c.chan) c.addr := by
  cases hchan : c.chan with
  | nil => exact movesAt_refl waits c.addr
  | cons t rest =>
    have hw := (h.sleepers t).1 (hchan ▸ List.mem_cons_self ..)
    rw [wakeone_cons hw]
    exact movesAt_set hw

end MovesAt

section AddrInv

variable {W W' : Waiting} {c c' : Cell} {waits : Nat → Option Waiter}

theorem AddrInv.ptr_lt_of_moves (h : AddrInv W) (hp : W.cell p = some c)
    (hmoves : MovesAt W.waits waits c.addr) {w : Waiter} (ht : waits t = some w) :
    w.addr < W.fresh := by
  by_cases hwa : w.addr = c.addr
  · exact hwa ▸ h.addr_lt hp
  · exact h.ptr_lt ((hmoves t w hwa).1 ht)

theorem AddrInv.change (h : AddrInv W) (hp : W.cell p = some c) (haddr : c'.addr = c.addr)
    (hmoves : MovesAt W.waits waits c.addr) :
    AddrInv { W with cell := update W.cell p (some c'), waits := waits } := by
  -- every structure is where it was
  have hback : ∀ {q d}, update W.cell p (some c') q = some d →
      ∃ d', W.cell q = some d' ∧ d'.addr = d.addr := by
    intro q d hq
    rcases update_some_cases hq with ⟨rfl, hd⟩ | ⟨-, hold⟩
    · exact ⟨c, hp, by rw [← Option.some.inj hd, haddr]⟩
    · exact ⟨d, hold, rfl⟩
  refine ⟨fun hq => ?_, fun hq hq' hdd => ?_, fun ht => h.ptr_lt_of_moves hp hmoves ht⟩
  · obtain ⟨d', hd', hda⟩ := hback hq
    exact hda ▸ h.addr_lt hd'
  · obtain ⟨e, he, hea⟩ := hback hq
    obtain ⟨e', he', hea'⟩ := hback hq'
    exact h.addr_inj he he' (by rw [hea, hea', hdd])

theorem AddrInv.remove (h : AddrInv W) (hp : W.cell p = some c)
    (hmoves : MovesAt W.waits waits c.addr) :
    AddrInv { W with cell := update W.cell p none, waits := waits } := by
  have hback : ∀ {q d}, update W.cell p none q = some d → W.cell q = some d := by
    intro q d hq
    rcases update_some_cases hq with ⟨-, hd⟩ | ⟨-, hold⟩
    · cases hd
    · exact hold
  exact ⟨fun hq => h.addr_lt (hback hq), fun hq hq' => h.addr_inj (hback hq) (hback hq'),
    fun ht => h.ptr_lt_of_moves hp hmoves ht⟩

theorem AddrInv.add {newp : Nat} (h : AddrInv W) (hmoves : MovesAt W.waits waits W.fresh) :
    AddrInv
      { cell := update W.cell newp (some (Cell.new W.fresh))
        waits := waits
        fresh := W.fresh + 1 } := by
  constructor
  · intro q d hq
    rcases update_some_cases hq with ⟨-, hd⟩ | ⟨-, hold⟩
    · exact Option.some.inj hd ▸ Nat.lt_succ_self W.fresh
    · exact Nat.lt_succ_of_lt (h.addr_lt hold)
  · intro q q' d d' hq hq' hdd
    rcases update_some_cases hq with ⟨rfl, hd⟩ | ⟨-, hold⟩ <;>
      rcases update_some_cases hq' with ⟨rfl, hd'⟩ | ⟨-, hold'⟩
    · rfl
    · rw [← Option.some.inj hd] at hdd
      exact absurd hdd.symm (Nat.ne_of_lt (h.addr_lt hold'))
    · rw [← Option.some.inj hd'] at hdd
      exact absurd hdd (Nat.ne_of_lt (h.addr_lt hold))
    · exact h.addr_inj hold hold' hdd
  · intro u w hu
    by_cases hwa : w.addr = W.fresh
    · exact hwa ▸ Nat.lt_succ_self W.fresh
    · exact Nat.lt_succ_of_lt (h.ptr_lt ((hmoves u w hwa).1 hu))

theorem WaitMove.addrInv (h : WaitInv W) (hmove : WaitMove W op W') : AddrInv W' := by
  have haddr : AddrInv W := h.toAddrInv
  cases hmove with
  | stay hfresh =>
    exact ⟨fun hp => Nat.lt_of_lt_of_le (h.addr_lt hp) hfresh, h.addr_inj,
      fun ht => Nat.lt_of_lt_of_le (h.ptr_lt ht) hfresh⟩
  | forked _ => exact haddr.add (movesAt_refl _ _)
  | launched _ hfree => exact haddr.add (movesAt_start hfree)
  | failed hp _ _ => exact haddr.change hp rfl (movesAt_refl _ _)
  | ended hp _ => exact haddr.change hp rfl (h.ok hp).movesAt_wakeone
  | @started t pid c hp hfree =>
    have hnew := haddr.change hp rfl (movesAt_start (p := pid) hfree)
    rwa [← hp, update_eq_self] at hnew
  | slept hw hp _ | took hw hp _ => exact haddr.change hp rfl (movesAt_set hw)
  | reaped hw hp _ _ => exact haddr.remove hp (movesAt_leave hw)

end AddrInv

/-! ## Properties of single processes

A property of a process and of the threads that wait for it concerns one process at a time. It is
enough to look at what the operation does to that one. -/

/-- The property `P` of a process survives the operation `op` in `W`. -/
structure Kept (W : Waiting) (op : KernelOp) (P : (Nat → Option Waiter) → Nat → Cell → Prop) :
    Prop where
  congr : ∀ {waits : Nat → Option Waiter} {p : Nat} {c : Cell}, P W.waits p c →
    (∀ t phase, waits t = some ⟨p, c.addr, phase⟩ ↔ W.waits t = some ⟨p, c.addr, phase⟩) →
    P waits p c
  new : ∀ {waits : Nat → Option Waiter} {p : Nat},
    (∀ t w, waits t = some w → w.addr = W.fresh → t = KPROC ∧ w.phase = .ready) →
    P waits p (Cell.new W.fresh)
  failed : ∀ {p : Nat} {c : Cell} {exe : Option Kernel.Exe}, op = .runprogram p exe →
    ¬ Starts exe → 0 < c.threads → P W.waits p c → P W.waits p { c with threads := c.threads - 1 }
  ended : ∀ {p : Nat} {c : Cell} {status : UInt32}, op = .sysExit p status → W.cell p = some c →
    0 < c.threads → P W.waits p c → P (Kernel.wakeone W.waits c.chan) p (c.ended status)
  started : ∀ {p t : Nat} {c : Cell}, op = .sysWaitpid t p → W.waits t = none → P W.waits p c →
    P (update W.waits t (some ⟨p, c.addr, .ready⟩)) p c
  slept : ∀ {p t : Nat} {c : Cell}, W.waits t = some ⟨p, c.addr, .ready⟩ → c.count = 0 →
    P W.waits p c →
    P (update W.waits t (some ⟨p, c.addr, .asleep⟩)) p { c with chan := c.chan ++ [t] }
  took : ∀ {p t : Nat} {c : Cell}, W.cell p = some c → W.waits t = some ⟨p, c.addr, .ready⟩ →
    0 < c.count → P W.waits p c →
    P (update W.waits t (some ⟨p, c.addr, .taken⟩)) p { c with count := c.count - 1 }

section Kept

variable {W W' : Waiting} {c c' : Cell} {waits : Nat → Option Waiter}
  {P : (Nat → Option Waiter) → Nat → Cell → Prop}

/-- The processes that are not concerned. -/
theorem Kept.others (hkept : Kept W op P) (h : AddrInv W) (hp : W.cell p = some c)
    (hall : Each W P) (hmoves : MovesAt W.waits waits c.addr) {q : Nat} {d : Cell} (hqp : q ≠ p)
    (hq : W.cell q = some d) : P waits q d :=
  hkept.congr (hall q d hq) fun u _ => hmoves u _ fun hda => hqp (h.addr_inj hq hp hda)

theorem Kept.change (hkept : Kept W op P) (h : AddrInv W) (hp : W.cell p = some c)
    (hall : Each W P) (hmoves : MovesAt W.waits waits c.addr) (hnew : P waits p c') :
    Each { W with cell := update W.cell p (some c'), waits := waits } P := by
  intro q d hq
  rcases update_some_cases hq with ⟨rfl, hd⟩ | ⟨hqp, hold⟩
  · exact Option.some.inj hd ▸ hnew
  · exact hkept.others h hp hall hmoves hqp hold

theorem Kept.add {newp : Nat} (hkept : Kept W op P) (h : AddrInv W) (hall : Each W P)
    (hmoves : MovesAt W.waits waits W.fresh)
    (hready : ∀ t w, waits t = some w → w.addr = W.fresh → t = KPROC ∧ w.phase = .ready) :
    Each
      { cell := update W.cell newp (some (Cell.new W.fresh))
        waits := waits
        fresh := W.fresh + 1 } P := by
  intro q d hq
  rcases update_some_cases hq with ⟨rfl, hd⟩ | ⟨-, hold⟩
  · exact Option.some.inj hd ▸ hkept.new hready
  · exact hkept.congr (hall q d hold) fun u _ => hmoves u _ (Nat.ne_of_lt (h.addr_lt hold))

/-- What one process keeps, all keep. -/
theorem WaitMove.each (hmove : WaitMove W op W') (hkept : Kept W op P) (h : WaitInv W)
    (hall : Each W P) : Each W' P := by
  have haddr : AddrInv W := h.toAddrInv
  cases hmove with
  | stay _ => exact hall
  | forked _ =>
    exact hkept.add haddr hall (movesAt_refl _ _) fun t w ht hw =>
      absurd hw (Nat.ne_of_lt (h.ptr_lt ht))
  | launched _ hfree =>
    refine hkept.add haddr hall (movesAt_start hfree) fun t w ht hw => ?_
    rcases update_some_cases ht with ⟨hk, hd⟩ | ⟨-, hold⟩
    · exact ⟨hk, by rw [← Option.some.inj hd]⟩
    · exact absurd hw (Nat.ne_of_lt (h.ptr_lt hold))
  | failed hp hpos hexe =>
    exact hkept.change haddr hp hall (movesAt_refl _ _) (hkept.failed rfl hexe hpos (hall _ _ hp))
  | ended hp hpos =>
    exact hkept.change haddr hp hall (h.ok hp).movesAt_wakeone
      (hkept.ended rfl hp hpos (hall _ _ hp))
  | started hp hfree =>
    have hnew := hkept.change haddr hp hall (movesAt_start hfree)
      (hkept.started rfl hfree (hall _ _ hp))
    rwa [← hp, update_eq_self] at hnew
  | slept hw hp hzero =>
    exact hkept.change haddr hp hall (movesAt_set hw) (hkept.slept hw hzero (hall _ _ hp))
  | took hw hp hpos =>
    exact hkept.change haddr hp hall (movesAt_set hw) (hkept.took hp hw hpos (hall _ _ hp))
  | reaped hw hp _ _ =>
    intro q d hq
    rcases update_some_cases hq with ⟨-, hd⟩ | ⟨hqp, hold⟩
    · cases hd
    · exact hkept.others haddr hp hall (movesAt_leave hw) hqp hold

end Kept

theorem cellOk_kept (W : Waiting) : Kept W op CellOk where
  congr := CellOk.congr
  new := fun hready => CellOk.new fun t w ht hw => (hready t w ht hw).2
  failed := fun _ _ _ h => h.failed
  ended := fun _ _ hpos h => h.ended hpos _
  started := fun _ hfree h => h.started hfree
  slept := fun hw hzero h => h.slept hw hzero
  took := fun _ hw hpos h => h.took hw hpos

theorem WaitMove.inv {W W' : Waiting} (h : WaitInv W) (hmove : WaitMove W op W') : WaitInv W' :=
  ⟨hmove.addrInv h, hmove.each (cellOk_kept W) h h.each⟩

theorem boot_cell {c : Cell} (hp : Kernel.boot.waiting.cell p = some c) :
    p = KPROC ∧ c = Cell.new 0 := by
  have hboot : Kernel.boot.waiting.cell =
      update (fun _ => none) KPROC (some (Cell.new 0)) := map_cell_update ..
  rw [hboot] at hp
  rcases update_some_cases hp with ⟨hk, hd⟩ | ⟨-, hold⟩
  · exact ⟨hk, (Option.some.inj hd).symm⟩
  · cases hold

theorem boot_waitInv : WaitInv Kernel.boot.waiting where
  addr_lt := fun hp => (boot_cell hp).2 ▸ Nat.one_pos
  addr_inj := fun hp hp' _ => (boot_cell hp).1.trans (boot_cell hp').1.symm
  ptr_lt := nofun
  each := fun _ _ hp => (boot_cell hp).2 ▸ CellOk.new nofun

/-- It holds in every state of the kernel. -/
theorem reaches_waitInv (h : Reaches KernelStep Kernel.boot k) : WaitInv k.waiting := by
  induction h with
  | refl => exact boot_waitInv
  | tail h hstep ih => exact (kernelStep_moves (reaches_slotInv h) hstep).inv ih

/-- A thread that finds the signal in `P` takes it. -/
theorem semP_takes (hp : k.procs p = some pr) (hpos : pr.p_sem.sem_count ≠ 0)
    (hw : k.waits t = some ⟨p, pr.addr, .ready⟩) :
    ∃ k', KernelStep k (.semP t) k' ∧ k'.waits t = some ⟨p, pr.addr, .taken⟩ := by
  have hwaited : k.waited ⟨p, pr.addr, .ready⟩ = .ok pr := Kernel.waited_eq_ok.2 ⟨hp, rfl⟩
  have hexec : ∃ k', k.semP t ⟨p, pr.addr, .ready⟩ = .ok k' ∧
      k'.waits t = some ⟨p, pr.addr, .taken⟩ := by
    simp only [Kernel.semP, hwaited, bind, Except.bind, if_neg hpos]
    exact ⟨_, rfl, update_self ..⟩
  obtain ⟨k', hx, hk'⟩ := hexec
  refine ⟨k', ⟨by simp [Kernel.Enabled, hw], ?_⟩, hk'⟩
  rw [Kernel.exec, hw]
  exact hx

/-- Only the menu is in `proc_wait`. -/
def OnlyMenu (W : Waiting) : Prop := ∀ t w, W.waits t = some w → t = KPROC

theorem OnlyMenu.eq_menu (h : OnlyMenu k.waiting) {w : Waiter} (hw : k.waits t = some w) :
    t = KPROC :=
  h t w hw

/-- So it stays until a process calls `sys_waitpid`. -/
theorem WaitMove.onlyMenu {W W' : Waiting} (hmove : WaitMove W op W')
    (hop : ∀ t pid, op ≠ .sysWaitpid t pid) (h : OnlyMenu W) : OnlyMenu W' := by
  have hset : ∀ {t : Nat} {w : Waiter} {new : Option Waiter}, W.waits t = some w →
      ∀ u w', update W.waits t new u = some w' → u = KPROC := by
    intro t w new ht u w' hu
    rcases update_some_cases hu with ⟨rfl, -⟩ | ⟨-, hold⟩
    · exact h u w ht
    · exact h u w' hold
  cases hmove with
  | stay _ => exact h
  | forked _ => exact h
  | launched _ _ =>
    intro u w hu
    rcases update_some_cases hu with ⟨hk, -⟩ | ⟨-, hold⟩
    · exact hk
    · exact h u w hold
  | failed _ _ _ => exact h
  | @ended p c status _ _ =>
    cases hchan : c.chan with
    | nil => simpa [OnlyMenu, hchan, Kernel.wakeone] using h
    | cons t rest =>
      intro u w hu
      simp only [Kernel.wakeone] at hu
      rcases update_some_cases hu with ⟨rfl, hmap⟩ | ⟨-, hold⟩
      · obtain ⟨w', hw', -⟩ := Option.map_eq_some_iff.1 hmap
        exact h u w' hw'
      · exact h u w hold
  | started _ _ => exact absurd rfl (hop _ _)
  | slept hw _ _ => exact hset hw
  | took hw _ _ => exact hset hw
  | reaped hw _ _ _ => exact hset hw

end DemandPaging
