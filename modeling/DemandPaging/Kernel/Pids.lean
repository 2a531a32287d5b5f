import DemandPaging.Kernel.Effects
import Mathlib.Logic.Function.Iterate

set_option autoImplicit false

/-! # Process ids and the structures behind them

`processTable` holds pointers, and the pid of a process is a field of the structure pointed to.
Here the two are kept apart: the slots, the field `p_pid` of every structure, and the structures
that have been allocated and not been freed yet. `kmalloc` returns any address that is not in use,
so a new process may lie where a dead one was. What the search of `proc_init_waitpid` sees is the
`ProcessTable` of the pids in the slots (`PidTable.slots`).

The search starts behind `last_i` and gives up when it is back at `last_i`, without having looked
at that slot. -/

namespace DemandPaging

open Function (update update_self update_of_ne)

/-! ## The search -/

namespace ProcessTable

theorem succ_eq {i : Nat} (hi : i ≤ MAX_PROC) : succ i = i % MAX_PROC + 1 := by
  unfold succ
  split <;> simp only [MAX_PROC] at * <;> omega

/-- The slot that comes `n + 1` places behind `i` in the circular order. -/
def behind (i n : Nat) : Nat := succ^[n + 1] i

theorem behind_eq {i : Nat} (hi : i ≤ MAX_PROC) (n : Nat) :
    behind i n = (i + n) % MAX_PROC + 1 := by
  unfold behind
  induction n with
  | zero => exact succ_eq hi
  | succ n ih =>
    have hle : (i + n) % MAX_PROC + 1 ≤ MAX_PROC := Nat.mod_lt _ (by decide)
    rw [Function.iterate_succ_apply', ih, succ_eq hle]
    simp only [MAX_PROC]
    omega

theorem behind_bounds {i : Nat} (hi : i ≤ MAX_PROC) (n : Nat) :
    1 ≤ behind i n ∧ behind i n ≤ MAX_PROC := by
  have heq := behind_eq hi n
  simp only [MAX_PROC] at *
  omega

/-- The last slot of a round is the one it started from. -/
theorem behind_eq_self {i n : Nat} (hpos : 1 ≤ i) (hi : i ≤ MAX_PROC) :
    behind i n = i ↔ (n + 1) % MAX_PROC = 0 := by
  have heq := behind_eq hi n
  simp only [MAX_PROC] at *
  omega

/-- A round sees every slot. -/
theorem exists_behind {i j : Nat} (hi : i ≤ MAX_PROC) (hpos : 1 ≤ j) (hj : j ≤ MAX_PROC) :
    ∃ n < MAX_PROC, behind i n = j := by
  have heq := behind_eq hi ((j + MAX_PROC - 1 - i) % MAX_PROC)
  refine ⟨(j + MAX_PROC - 1 - i) % MAX_PROC, ?_, ?_⟩ <;> simp only [MAX_PROC] at * <;> omega

variable {t : ProcessTable}

/-- The first `n` slots of the search, from `i` on, are in use, and the search does not end
    there. -/
def Passes (t : ProcessTable) (i n : Nat) : Prop :=
  ∀ m < n, succ^[m] i ≠ t.last_i ∧ t.proc (succ^[m] i) ≠ none

theorem Passes.cons {i n : Nat} (hlast : i ≠ t.last_i) (huse : t.proc i ≠ none)
    (h : t.Passes (succ i) n) : t.Passes i (n + 1) := by
  intro m hm
  cases m with
  | zero => exact ⟨hlast, huse⟩
  | succ m =>
    rw [Function.iterate_succ_apply]
    exact h m (by omega)

/-- The search finds a slot, is back at `last_i`, or has not come to an end. -/
theorem searchPid_cases (t : ProcessTable) (fuel i : Nat) :
    (∃ n < fuel, t.searchPid fuel i = .ok (some (succ^[n] i)) ∧ succ^[n] i ≠ t.last_i ∧
        t.proc (succ^[n] i) = none ∧ t.Passes i n) ∨
      (∃ n < fuel, t.searchPid fuel i = .ok none ∧ succ^[n] i = t.last_i ∧ t.Passes i n) ∨
      (t.searchPid fuel i = .error .endless ∧ t.Passes i fuel) := by
  induction fuel generalizing i with
  | zero => exact .inr (.inr ⟨rfl, fun m hm => absurd hm (by omega)⟩)
  | succ fuel ih =>
    rw [searchPid]
    by_cases hlast : i = t.last_i
    · rw [if_pos hlast]
      exact .inr (.inl ⟨0, by omega, rfl, hlast, fun m hm => absurd hm (by omega)⟩)
    · rw [if_neg hlast]
      by_cases hfree : t.proc i = none
      · rw [if_pos hfree]
        exact .inl ⟨0, by omega, rfl, hlast, hfree, fun m hm => absurd hm (by omega)⟩
      · rw [if_neg hfree]
        rcases ih (succ i) with ⟨n, hn, hres, hne, hnone, hpass⟩ | ⟨n, hn, hres, heq, hpass⟩ |
            ⟨hres, hpass⟩
        · exact .inl ⟨n + 1, by omega, hres, hne, hnone, hpass.cons hlast hfree⟩
        · exact .inr (.inl ⟨n + 1, by omega, hres, heq, hpass.cons hlast hfree⟩)
        · exact .inr (.inr ⟨hres, hpass.cons hlast hfree⟩)

/-- `last_i` is a slot, or no process was created yet. -/
def LastOk (t : ProcessTable) : Prop :=
  (t.last_i = 0 ∧ ∀ i, t.proc i = none) ∨ (1 ≤ t.last_i ∧ t.last_i ≤ MAX_PROC)

theorem LastOk.le (h : t.LastOk) : t.last_i ≤ MAX_PROC := by
  rcases h with ⟨hzero, -⟩ | ⟨-, hle⟩
  · omega
  · exact hle

/-- The new table with `i` for the new process. -/
def place (t : ProcessTable) (i : Nat) : ProcessTable where
  proc := update t.proc i (some i)
  last_i := i

/-- `proc_init_waitpid` takes the first free slot behind `last_i`, or panics when all slots but
    that of `last_i` are in use. -/
theorem procInitWaitpid_cases (h : t.LastOk) :
    (∃ n < MAX_PROC, t.procInitWaitpid =
          .ok (t.place (behind t.last_i n), (behind t.last_i n : Nat)) ∧
        behind t.last_i n ≠ t.last_i ∧ t.proc (behind t.last_i n) = none ∧
        ∀ m < n, t.proc (behind t.last_i m) ≠ none) ∨
      (t.procInitWaitpid = .error (.panic tableFullMsg) ∧
        ∀ j, 1 ≤ j → j ≤ MAX_PROC → j ≠ t.last_i → t.proc j ≠ none) := by
  have hstart : ∀ m, succ^[m] (succ t.last_i) = behind t.last_i m :=
    fun m => (Function.iterate_succ_apply ..).symm
  -- the round is over at its hundredth slot, at the latest
  have hround : ∀ n, t.Passes (succ t.last_i) n → t.last_i ≠ 0 → n < MAX_PROC := by
    intro n hpass hne
    by_contra hge
    rcases h with ⟨hzero, -⟩ | ⟨hpos, hle⟩
    · exact hne hzero
    · have hlast := (hpass (MAX_PROC - 1) (by simp only [MAX_PROC] at *; omega)).1
      rw [hstart] at hlast
      exact hlast ((behind_eq_self hpos hle).2 (by simp [MAX_PROC]))
  have hempty : ∀ n, t.last_i = 0 → t.Passes (succ t.last_i) n → n = 0 := by
    intro n hzero hpass
    by_contra hne
    rcases h with ⟨-, hnone⟩ | ⟨hpos, -⟩
    · exact (hpass 0 (by omega)).2 (hnone _)
    · omega
  have hbound : ∀ n, t.Passes (succ t.last_i) n → n < MAX_PROC := by
    intro n hpass
    by_cases hzero : t.last_i = 0
    · rw [hempty n hzero hpass]
      simp [MAX_PROC]
    · exact hround n hpass hzero
  unfold procInitWaitpid
  rcases searchPid_cases t (MAX_PROC + 1) (succ t.last_i) with
    ⟨n, -, hres, hne, hnone, hpass⟩ | ⟨n, -, hres, heq, hpass⟩ | ⟨-, hpass⟩
  · rw [hres]
    rw [hstart] at hne hnone ⊢
    refine .inl ⟨n, hbound n hpass, rfl, hne, hnone, fun m hm => ?_⟩
    rw [← hstart]
    exact (hpass m hm).2
  · rw [hres]
    refine .inr ⟨rfl, fun j hpos hj hne => ?_⟩
    rw [hstart] at heq
    have hlast : 1 ≤ t.last_i := heq ▸ (behind_bounds h.le n).1
    have hn := (behind_eq_self hlast h.le).1 heq
    obtain ⟨m, hm, rfl⟩ := exists_behind h.le hpos hj
    have hm' : m ≠ n := fun heqm => hne (heqm ▸ heq)
    have hlt : m < n := by
      have := hbound n hpass
      simp only [MAX_PROC] at *
      omega
    have hused := (hpass m hlt).2
    rwa [hstart] at hused
  · have := hbound _ hpass
    omega

end ProcessTable

/-! ## The table and its processes -/

/-- `processTable` and the variable `kproc`, with the structures of the processes: `p_pid a` is the
    field of the structure at address `a`, `live a` tells that it is allocated. -/
structure PidTable where
  proc : Nat → Option Nat
  last_i : Nat
  p_pid : Nat → Int
  live : Nat → Bool
  kproc : Option Nat

/-- How a call of `sys_waitpid` goes: it returns, or blocks in the `P` of `proc_wait`. -/
inductive WaitCall
  | returns (r : Int)
  | waits (p : Nat)
deriving DecidableEq, Repr

namespace PidTable

/-- Before `proc_bootstrap`. -/
def blank : PidTable where
  proc := fun _ => none
  last_i := 0
  p_pid := fun _ => 0
  live := fun _ => false
  kproc := none

variable (T : PidTable)

/-- The pids in the slots. -/
def slots : ProcessTable where
  proc i := (T.proc i).map T.p_pid
  last_i := T.last_i

/-- The structure at `a` in slot `i`. -/
def place (i a : Nat) : PidTable :=
  { T with
    proc := update T.proc i (some a)
    last_i := i
    p_pid := update T.p_pid a i
    live := update T.live a true }

/-- `proc_create`, where `kmalloc` returns `a`. -/
def procCreate (a : Nat) : Except Crash PidTable := do
  let (_, i) ← T.slots.procInitWaitpid
  return T.place i.toNat a

def procBootstrap (a : Nat) : Except Crash PidTable := do
  let T ← T.procCreate a
  return { T with kproc := some a }

/-- `proc_destroy` of the structure at `a`, as far as it concerns the table. -/
def procDestroy (a : Nat) : Except Crash PidTable := do
  kassert (T.kproc ≠ some a)
  -- `proc_end_waitpid`
  let i := T.p_pid a
  kassert (i > 0 ∧ i ≤ MAX_PROC)
  return { T with
    proc := update T.proc i.toNat none
    live := update T.live a false }

/-- `proc_search_pid`, which reads through the pointer before it returns it. -/
def procSearchPid (pid : Int) : Except Crash (Option Nat) := do
  kassert (pid ≥ 0 ∧ pid < MAX_PROC)
  match T.proc pid.toNat with
  | none => throw .nullDeref
  | some p =>
    kassert (T.p_pid p = pid)
    return some p

/-- `sys_waitpid` up to the `P` of its `proc_wait`. -/
def sysWaitpid (pid : Int32) : Except Crash WaitCall := do
  match ← T.procSearchPid pid.toInt with
  | none => return .returns (-1)
  | some p =>
    kassert (T.kproc ≠ some p)
    return .waits p

end PidTable

/-- What happens to the table. `a` is the address of a structure. -/
inductive PidOp
  | bootstrap (a : Nat)
  | create (a : Nat)
  | destroy (a : Nat)

namespace PidTable

variable (T : PidTable)

/-- The kernel process is the first one. `kmalloc` returns memory that is not in use, and a process
    is destroyed through a pointer to its structure. -/
def Enabled : PidOp → Prop
  | .bootstrap _ => T.kproc = none
  | .create a => T.kproc ≠ none ∧ T.live a = false
  | .destroy a => T.live a = true

instance : (op : PidOp) → Decidable (T.Enabled op)
  | .bootstrap _ => inferInstanceAs (Decidable (T.kproc = none))
  | .create a => inferInstanceAs (Decidable (T.kproc ≠ none ∧ T.live a = false))
  | .destroy a => inferInstanceAs (Decidable (T.live a = true))

def exec : PidOp → Except Crash PidTable
  | .bootstrap a => T.procBootstrap a
  | .create a => T.procCreate a
  | .destroy a => T.procDestroy a

end PidTable

def PidStep (T : PidTable) (op : PidOp) (T' : PidTable) : Prop :=
  T.Enabled op ∧ T.exec op = .ok T'

/-! ## What holds of every table -/

variable {T T' : PidTable} {a b i : Nat}

/-- Slot `i` holds a process with the pid `i`, and every process has a slot. -/
structure PidTable.Sound (T : PidTable) : Prop where
  slot : ∀ i a, T.proc i = some a →
    1 ≤ i ∧ i ≤ MAX_PROC ∧ T.live a = true ∧ T.p_pid a = i
  held : ∀ a, T.live a = true → ∃ i, T.proc i = some a

/-- Live processes have distinct pids. -/
theorem PidTable.Sound.distinct (h : T.Sound) (ha : T.live a = true) (hb : T.live b = true)
    (heq : T.p_pid a = T.p_pid b) : a = b := by
  obtain ⟨i, hi⟩ := h.held a ha
  obtain ⟨j, hj⟩ := h.held b hb
  have hij : (i : Int) = j := by
    rw [← (h.slot i a hi).2.2.2, ← (h.slot j b hj).2.2.2]
    exact heq
  obtain rfl : i = j := by omega
  rw [hi] at hj
  exact Option.some.inj hj

/-- The invariant: nothing exists before the kernel process does. -/
structure PidInv (T : PidTable) : Prop extends T.Sound where
  last : (T.last_i = 0 ∧ ∀ i, T.proc i = none) ∨ (1 ≤ T.last_i ∧ T.last_i ≤ MAX_PROC)
  first : T.kproc = none → ∀ a, T.live a = false

theorem slots_proc : T.slots.proc i = none ↔ T.proc i = none := Option.map_eq_none_iff

theorem PidInv.lastOk (h : PidInv T) : T.slots.LastOk := by
  rcases h.last with ⟨hzero, hnone⟩ | hbounds
  · exact .inl ⟨hzero, fun i => slots_proc.2 (hnone i)⟩
  · exact .inr hbounds

open ProcessTable in
/-- What `proc_create` does in a table that satisfies the invariant. -/
theorem PidInv.procCreate (h : PidInv T) (a : Nat) :
    (∃ n < MAX_PROC, T.procCreate a = .ok (T.place (behind T.last_i n) a) ∧
        behind T.last_i n ≠ T.last_i ∧ T.proc (behind T.last_i n) = none ∧
        ∀ m < n, T.proc (behind T.last_i m) ≠ none) ∨
      (T.procCreate a = .error (.panic tableFullMsg) ∧
        ∀ j, 1 ≤ j → j ≤ MAX_PROC → j ≠ T.last_i → T.proc j ≠ none) := by
  unfold PidTable.procCreate
  rcases procInitWaitpid_cases h.lastOk with ⟨n, hn, hres, hne, hnone, hused⟩ | ⟨hres, hused⟩
  · refine .inl ⟨n, hn, ?_, hne, slots_proc.1 hnone, fun m hm hfree => ?_⟩
    · rw [hres]
      rfl
    · exact hused m hm (slots_proc.2 hfree)
  · refine .inr ⟨by rw [hres]; rfl, fun j hpos hj hne hfree => ?_⟩
    exact hused j hpos hj hne (slots_proc.2 hfree)

/-- A structure that is not in use goes into a free slot. -/
theorem PidInv.place (h : PidInv T) (hdead : T.live a = false) (hpos : 1 ≤ i) (hi : i ≤ MAX_PROC)
    (hfree : T.proc i = none) : (T.place i a).Sound where
  slot j b hj := by
    simp only [PidTable.place] at hj ⊢
    by_cases hji : j = i
    · subst hji
      rw [update_self] at hj
      obtain rfl : a = b := Option.some.inj hj
      exact ⟨hpos, hi, update_self .., update_self ..⟩
    · rw [update_of_ne hji] at hj
      obtain ⟨hj₁, hj₂, hlive, hpid⟩ := h.slot j b hj
      have hba : b ≠ a := by
        rintro rfl
        rw [hdead] at hlive
        cases hlive
      rw [update_of_ne hba, update_of_ne hba]
      exact ⟨hj₁, hj₂, hlive, hpid⟩
  held b hb := by
    simp only [PidTable.place] at hb ⊢
    by_cases hba : b = a
    · subst hba
      exact ⟨i, update_self ..⟩
    · rw [update_of_ne hba] at hb
      obtain ⟨j, hj⟩ := h.held b hb
      have hji : j ≠ i := by
        rintro rfl
        rw [hfree] at hj
        cases hj
      exact ⟨j, by rw [update_of_ne hji]; exact hj⟩

theorem PidInv.created (h : PidInv T) (hdead : T.live a = false) (hc : T.procCreate a = .ok T') :
    T'.Sound ∧ (1 ≤ T'.last_i ∧ T'.last_i ≤ MAX_PROC) ∧ T'.kproc = T.kproc := by
  rcases h.procCreate a with ⟨n, -, hres, -, hfree, -⟩ | ⟨hres, -⟩
  · rw [hres] at hc
    cases hc
    obtain ⟨hpos, hle⟩ := ProcessTable.behind_bounds h.lastOk.le n
    exact ⟨h.place hdead hpos hle hfree, ⟨hpos, hle⟩, rfl⟩
  · rw [hres] at hc
    cases hc

theorem PidInv.destroyed (h : PidInv T) (halive : T.live a = true)
    (hd : T.procDestroy a = .ok T') : PidInv T' := by
  simp only [PidTable.procDestroy, bind_eq_ok, kassert_eq_ok, pure_eq_ok, exists_const] at hd
  obtain ⟨hkernel, -, rfl⟩ := hd
  obtain ⟨i, hi⟩ := h.held a halive
  have hpid : T.p_pid a = i := (h.slot i a hi).2.2.2
  have hnat : (T.p_pid a).toNat = i := by omega
  refine ⟨⟨fun j b hj => ?_, fun b hb => ?_⟩, ?_, fun hnone => ?_⟩
  · dsimp only at hj ⊢
    rw [hnat] at hj
    by_cases hji : j = i
    · rw [hji, update_self] at hj
      cases hj
    · rw [update_of_ne hji] at hj
      obtain ⟨hj₁, hj₂, hlive, hpidb⟩ := h.slot j b hj
      have hba : b ≠ a := by
        rintro rfl
        omega
      exact ⟨hj₁, hj₂, by rw [update_of_ne hba]; exact hlive, hpidb⟩
  · dsimp only at hb ⊢
    by_cases hba : b = a
    · rw [hba, update_self] at hb
      cases hb
    · rw [update_of_ne hba] at hb
      obtain ⟨j, hj⟩ := h.held b hb
      have hji : j ≠ i := by
        rintro rfl
        rw [hi] at hj
        exact hba (Option.some.inj hj).symm
      exact ⟨j, by rw [hnat, update_of_ne hji]; exact hj⟩
  · rcases h.last with ⟨hzero, hnone⟩ | hbounds
    · rw [hnone i] at hi
      cases hi
    · exact .inr hbounds
  · rw [h.first hnone a] at halive
    cases halive

theorem PidStep.inv {op : PidOp} (h : PidInv T) (hstep : PidStep T op T') : PidInv T' := by
  obtain ⟨hen, hexec⟩ := hstep
  cases op with
  | bootstrap a =>
    simp only [PidTable.exec, PidTable.procBootstrap, bind_eq_ok, pure_eq_ok] at hexec
    obtain ⟨T₁, hc, rfl⟩ := hexec
    obtain ⟨hsound, hlast, -⟩ := h.created (h.first hen a) hc
    exact ⟨⟨hsound.slot, hsound.held⟩, .inr hlast, fun hnone => by cases hnone⟩
  | create a =>
    obtain ⟨hsound, hlast, hk⟩ := h.created hen.2 hexec
    exact ⟨hsound, .inr hlast, fun hnone => absurd (hk ▸ hnone) hen.1⟩
  | destroy a => exact h.destroyed hen hexec

theorem blank_pidInv : PidInv .blank where
  slot _ _ h := by cases h
  held _ h := by cases h
  last := .inl ⟨rfl, fun _ => rfl⟩
  first _ _ := rfl

theorem reaches_pidInv (h : Reaches PidStep .blank T) : PidInv T :=
  h.invariant (fun _ _ _ hinv hstep => hstep.inv hinv) blank_pidInv

/-! ## Allocation -/

/-- A new process gets a pid if there is a free slot, and it is the first one behind `last_i`. -/
structure PidTable.Allocates (T : PidTable) (a : Nat) : Prop where
  complete : (∃ T', T.procCreate a = .ok T') ↔ ∃ i, 1 ≤ i ∧ i ≤ MAX_PROC ∧ T.proc i = none
  first : ∀ T', T.procCreate a = .ok T' → ∃ n,
    T' = T.place (ProcessTable.behind T.last_i n) a ∧
      T.proc (ProcessTable.behind T.last_i n) = none ∧
      ∀ m < n, T.proc (ProcessTable.behind T.last_i m) ≠ none

/-- The process that was created last is gone, and all other slots are in use. -/
def PidTable.OnlyLastFree (T : PidTable) : Prop :=
  T.proc T.last_i = none ∧ ∀ i, 1 ≤ i → i ≤ MAX_PROC → i ≠ T.last_i → T.proc i ≠ none

theorem PidInv.not_endless (h : PidInv T) (a : Nat) : T.procCreate a ≠ .error .endless := by
  rcases h.procCreate a with ⟨n, -, hres, -⟩ | ⟨hres, -⟩
  · rw [hres]
    exact fun heq => by cases heq
  · rw [hres]
    exact fun heq => by cases heq

theorem PidInv.allocates (h : PidInv T) (hfree : ¬ T.OnlyLastFree) (a : Nat) : T.Allocates a := by
  rcases h.procCreate a with ⟨n, -, hres, -, hnone, hused⟩ | ⟨hres, hused⟩
  · obtain ⟨hpos, hle⟩ := ProcessTable.behind_bounds h.lastOk.le n
    refine ⟨⟨fun _ => ⟨_, hpos, hle, hnone⟩, fun _ => ⟨_, hres⟩⟩, fun T' hT' => ?_⟩
    rw [hres] at hT'
    cases hT'
    exact ⟨n, rfl, hnone, hused⟩
  · have hno : ∀ T', T.procCreate a ≠ .ok T' := fun T' hT' => by
      rw [hres] at hT'
      cases hT'
    refine ⟨⟨fun ⟨T', hT'⟩ => absurd hT' (hno T'), ?_⟩, fun T' hT' => absurd hT' (hno T')⟩
    rintro ⟨i, hpos, hi, hnone⟩
    -- only the slot of `last_i` is left, which the search does not look at
    have hlast : i = T.last_i := by
      by_contra hne
      exact hused i hpos hi hne hnone
    exact absurd ⟨hlast ▸ hnone, hused⟩ hfree

theorem PidInv.refused (h : PidInv T) (hfree : T.OnlyLastFree) (a : Nat) :
    ¬ T.Allocates a := by
  intro halloc
  have hlast : 1 ≤ T.last_i ∧ T.last_i ≤ MAX_PROC := by
    rcases h.last with ⟨hzero, hnone⟩ | hbounds
    · exact absurd (hnone 1) (hfree.2 1 (by omega) (by decide) (by omega))
    · exact hbounds
  obtain ⟨T', hT'⟩ := halloc.complete.2 ⟨T.last_i, hlast.1, hlast.2, hfree.1⟩
  rcases h.procCreate a with ⟨n, -, -, hne, hnone, -⟩ | ⟨hres, -⟩
  · obtain ⟨hpos, hle⟩ := ProcessTable.behind_bounds h.lastOk.le n
    exact hfree.2 _ hpos hle hne hnone
  · rw [hres] at hT'
    cases hT'

/-- Slots and pids agree in every table, live processes have distinct pids and the search ends. It
    finds the first free slot unless the only one is that of `last_i`. -/
theorem pids_allocated (h : Reaches PidStep .blank T) (a : Nat) :
    (∀ i p, T.proc i = some p → T.live p = true ∧ T.p_pid p = i) ∧
      (∀ p q, T.live p = true → T.live q = true → T.p_pid p = T.p_pid q → p = q) ∧
      T.procCreate a ≠ .error .endless ∧
      (T.Allocates a ↔ ¬ T.OnlyLastFree) := by
  have hinv := reaches_pidInv h
  refine ⟨fun i p hp => (hinv.slot i p hp).2.2, fun p q hp hq => hinv.distinct hp hq,
    hinv.not_endless a, fun halloc hfree => hinv.refused hfree a halloc,
    fun hfree => hinv.allocates hfree a⟩

/-- The state after an operation, for runs that are written down. -/
def PidTable.next (T : PidTable) (op : PidOp) : Option PidTable :=
  if T.Enabled op then (T.exec op).toOption else none

theorem pidNext_step {op : PidOp} (h : T.next op = some T') : PidStep T op T' :=
  of_ite_toOption h

theorem pidTable_reaches (ops : List PidOp) {p : PidTable → Bool}
    (h : (replay PidTable.next .blank ops).map p = some true) :
    ∃ T, Reaches PidStep .blank T ∧ p T = true :=
  exists_reaches_of_replay (fun _ _ _ _ hnext => pidNext_step hnext) h

/-- Process 2 is gone, and the next process gets slot 4. -/
theorem pids_allocated_small : ∃ T, Reaches PidStep .blank T ∧ T.last_i = 3 ∧ T.proc 2 = none ∧
    T.Allocates 7 := by
  obtain ⟨T, hreach, hcheck⟩ := pidTable_reaches
    [.bootstrap 1, .create 5, .create 6, .destroy 5]
    (p := fun T => T.last_i == 3 && (T.proc 2).isNone && (T.proc 3).isSome) (by decide)
  simp only [Bool.and_eq_true, beq_iff_eq, Option.isNone_iff_eq_none, Option.isSome_iff_ne_none]
    at hcheck
  obtain ⟨⟨hlast, hfree⟩, hused⟩ := hcheck
  refine ⟨T, hreach, hlast, hfree, (pids_allocated hreach 7).2.2.2.2 fun honly => ?_⟩
  rw [PidTable.OnlyLastFree, hlast] at honly
  exact hused honly.1

/-- All slots are in use. -/
def fillTable : List PidOp := .bootstrap 1 :: (List.range 99).map fun i => .create (i + 2)

/-- `proc_create` says that the table is full. -/
def PidTable.isFull (T : PidTable) (a : Nat) : Bool :=
  match T.procCreate a with
  | .error e => e == .panic ProcessTable.tableFullMsg
  | .ok _ => false

theorem isFull_panics (h : T.isFull a = true) :
    T.procCreate a = .error (.panic ProcessTable.tableFullMsg) := by
  unfold PidTable.isFull at h
  split at h
  · next e he =>
    rw [he, beq_iff_eq.1 h]
  · cases h

/-- The process created last ends and is reaped in a full table. The next one does not get its
    slot. -/
theorem last_slot_refused : ∃ T, Reaches PidStep .blank T ∧ T.proc 100 = none ∧
    T.procCreate 100 = .error (.panic ProcessTable.tableFullMsg) ∧ ¬ T.Allocates 100 := by
  obtain ⟨T, hreach, hcheck⟩ := pidTable_reaches (fillTable ++ [.destroy 100])
    (p := fun T => (T.proc 100).isNone && T.isFull 100) (by decide +kernel)
  simp only [Bool.and_eq_true, Option.isNone_iff_eq_none] at hcheck
  obtain ⟨hfree, hfull⟩ := hcheck
  have hres := isFull_panics hfull
  refine ⟨T, hreach, hfree, hres, fun halloc => ?_⟩
  obtain ⟨T', hT'⟩ := halloc.complete.2 ⟨100, by decide, by decide, hfree⟩
  rw [hres] at hT'
  cases hT'

/-! ## Looking a process up -/

/-- `pid` is that of a process which user programs can wait for. -/
def PidTable.Awaitable (T : PidTable) (pid : Int32) (p : Nat) : Prop :=
  T.live p = true ∧ T.p_pid p = pid.toInt ∧ T.kproc ≠ some p

/-- `sys_waitpid` returns an error if there is no such process, and waits for it otherwise. -/
def PidTable.Answers (T : PidTable) (pid : Int32) : Prop :=
  (T.sysWaitpid pid = .ok (.returns (-1)) ∧ ∀ p, ¬ T.Awaitable pid p) ∨
    ∃ p, T.sysWaitpid pid = .ok (.waits p) ∧ T.Awaitable pid p

theorem procSearchPid_eq_ok {pid : Int} {r : Option Nat} :
    T.procSearchPid pid = .ok r ↔
      0 ≤ pid ∧ pid < MAX_PROC ∧ ∃ p, T.proc pid.toNat = some p ∧ T.p_pid p = pid ∧ r = some p := by
  unfold PidTable.procSearchPid
  simp only [bind_eq_ok, kassert_eq_ok, exists_const, ge_iff_le, and_assoc]
  refine and_congr_right fun _ => and_congr_right fun _ => ?_
  cases hp : T.proc pid.toNat with
  | none => simp [throw_ne_ok]
  | some p =>
    simp only [bind_eq_ok, kassert_eq_ok, exists_const, pure_eq_ok, Option.some.injEq]
    constructor
    · rintro ⟨hpid, rfl⟩
      exact ⟨p, rfl, hpid, rfl⟩
    · rintro ⟨q, rfl, hpid, rfl⟩
      exact ⟨hpid, rfl⟩

theorem sysWaitpid_eq_ok {pid : Int32} {r : WaitCall} :
    T.sysWaitpid pid = .ok r ↔ ∃ p, T.procSearchPid pid.toInt = .ok (some p) ∧
      T.kproc ≠ some p ∧ r = .waits p := by
  unfold PidTable.sysWaitpid
  rw [bind_eq_ok]
  constructor
  · rintro ⟨o, ho, hr⟩
    obtain ⟨-, -, p, -, -, rfl⟩ := procSearchPid_eq_ok.1 ho
    simp only [bind_eq_ok, kassert_eq_ok, exists_const, pure_eq_ok] at hr
    exact ⟨p, ho, hr.1, hr.2.symm⟩
  · rintro ⟨p, hp, hkernel, rfl⟩
    refine ⟨some p, hp, ?_⟩
    simp only [bind_eq_ok, kassert_eq_ok, exists_const, pure_eq_ok, and_true]
    exact hkernel

/-- The lookup finds every process but the one in the last slot. -/
theorem PidInv.lookup (h : PidInv T) {p : Nat} (hp : T.live p = true) :
    T.procSearchPid (T.p_pid p) = .ok (some p) ↔ T.p_pid p ≠ MAX_PROC := by
  obtain ⟨i, hi⟩ := h.held p hp
  obtain ⟨hpos, hle, -, hpid⟩ := h.slot i p hi
  rw [procSearchPid_eq_ok]
  constructor
  · rintro ⟨-, hlt, -⟩
    omega
  · intro hne
    refine ⟨by omega, by omega, p, ?_, rfl, rfl⟩
    rw [hpid, Int.toNat_natCast]
    exact hi

theorem PidInv.answers (h : PidInv T) (pid : Int32) :
    T.Answers pid ↔ (∃ p, T.Awaitable pid p) ∧ pid.toInt ≠ MAX_PROC := by
  constructor
  · rintro (⟨hret, -⟩ | ⟨p, hwaits, hawait⟩)
    · obtain ⟨p, -, -, heq⟩ := sysWaitpid_eq_ok.1 hret
      cases heq
    · obtain ⟨q, hq, -⟩ := sysWaitpid_eq_ok.1 hwaits
      obtain ⟨-, hlt, -⟩ := procSearchPid_eq_ok.1 hq
      exact ⟨⟨p, hawait⟩, by omega⟩
  · rintro ⟨⟨p, hawait⟩, hne⟩
    obtain ⟨hlive, hpid, hkernel⟩ := hawait
    refine .inr ⟨p, sysWaitpid_eq_ok.2 ⟨p, ?_, hkernel, rfl⟩, hlive, hpid, hkernel⟩
    rw [← hpid] at hne ⊢
    exact (h.lookup hlive).2 hne

/-- The lookup inverts the allocation but for the last slot, and `sys_waitpid` does what it should
    exactly for the processes that it can wait for and that the lookup finds. The call is followed
    up to its `P`; the assertions of `proc_destroy` behind it are those of `Kernel.Reaping`. -/
theorem waitpid_answers (h : Reaches PidStep .blank T) :
    (∀ p, T.live p = true →
      (T.procSearchPid (T.p_pid p) = .ok (some p) ↔ T.p_pid p ≠ MAX_PROC)) ∧
    ∀ pid : Int32, T.Answers pid ↔ (∃ p, T.Awaitable pid p) ∧ pid.toInt ≠ MAX_PROC :=
  ⟨fun _ hp => (reaches_pidInv h).lookup hp, (reaches_pidInv h).answers⟩

/-- A program waits for its child. -/
theorem waitpid_answers_child : ∃ T, Reaches PidStep .blank T ∧ T.Awaitable 3 6 ∧
    T.procSearchPid 3 = .ok (some 6) ∧ T.Answers 3 := by
  obtain ⟨T, hreach, hcheck⟩ := pidTable_reaches [.bootstrap 1, .create 5, .create 6]
    (p := fun T => T.live 6 && T.p_pid 6 == 3 && T.kproc != some 6) (by decide)
  simp only [Bool.and_eq_true, beq_iff_eq, bne_iff_ne] at hcheck
  obtain ⟨⟨hlive, hpid⟩, hkernel⟩ := hcheck
  have hawait : T.Awaitable 3 6 := ⟨hlive, hpid, hkernel⟩
  have hlookup := ((waitpid_answers hreach).1 6 hlive).2 (by rw [hpid]; decide)
  rw [hpid] at hlookup
  exact ⟨T, hreach, hawait, hlookup, ((waitpid_answers hreach).2 3).2 ⟨⟨6, hawait⟩, by decide⟩⟩

/-- In a full table the lookup does not find process 100, and `waitpid` stops the kernel for it,
    for pids out of range, for the kernel's pid and for the slot that is not used. -/
theorem waitpid_stops_kernel : ∃ T, Reaches PidStep .blank T ∧
    (T.Awaitable 100 100 ∧ T.procSearchPid 100 = .error .kassert ∧
      T.sysWaitpid 100 = .error .kassert) ∧
    T.sysWaitpid (-1) = .error .kassert ∧ T.sysWaitpid 1 = .error .kassert ∧
    T.sysWaitpid 0 = .error .nullDeref ∧ ¬ T.Answers 0 := by
  obtain ⟨T, hreach, hcheck⟩ := pidTable_reaches fillTable
    (p := fun T => (T.live 100 && T.p_pid 100 == 100 && T.kproc != some 100) &&
      decide (T.procSearchPid 100 = .error .kassert) &&
      decide (T.sysWaitpid 100 = .error .kassert) &&
      decide (T.sysWaitpid (-1) = .error .kassert) && decide (T.sysWaitpid 1 = .error .kassert) &&
      decide (T.sysWaitpid 0 = .error .nullDeref)) (by decide +kernel)
  simp only [Bool.and_eq_true, beq_iff_eq, bne_iff_ne, decide_eq_true_eq] at hcheck
  obtain ⟨⟨⟨⟨⟨⟨⟨hlive, hpid⟩, hkernel⟩, hlookup⟩, hlast⟩, hneg⟩, hkproc⟩, hzero⟩ := hcheck
  refine ⟨T, hreach, ⟨⟨hlive, hpid, hkernel⟩, hlookup, hlast⟩, hneg, hkproc, hzero, ?_⟩
  rintro (⟨hret, -⟩ | ⟨p, hwaits, -⟩)
  · rw [hzero] at hret
    cases hret
  · rw [hzero] at hwaits
    cases hwaits

end DemandPaging
