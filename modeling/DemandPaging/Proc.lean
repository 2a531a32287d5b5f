import DemandPaging.Basic

set_option autoImplicit false

/-! # The process table (`proc.c`)

Process ids are slots of a table of `MAX_PROC` entries, handed out by a circular search that starts
behind the last one given. -/

namespace DemandPaging

def MAX_PROC : Nat := 100

/-- `processTable`. A slot holds the `p_pid` of its process, `none` for NULL. Slot 0 is not used. -/
structure ProcessTable where
  proc : Nat → Option Int
  last_i : Nat

namespace ProcessTable

variable (t : ProcessTable)

/-- The table before boot. -/
def blank : ProcessTable := { proc := fun _ => none, last_i := 0 }

/-- `i++; if (i>MAX_PROC) i=1;` -/
def succ (i : Nat) : Nat := if MAX_PROC < i + 1 then 1 else i + 1

/-- The search loop of `proc_init_waitpid`. The fuel is the number of slots and one more: the loop
    sees every slot once before it repeats itself. -/
def searchPid : Nat → Nat → Except Crash (Option Nat)
  | 0, _ => .error .endless
  | fuel + 1, i =>
    if i = t.last_i then .ok none
    else if t.proc i = none then .ok (some i)
    else searchPid fuel (succ i)

/-- The text of the panic. -/
def tableFullMsg : String := "too many processes. proc table is full\n"

/-- `proc_init_waitpid`: the new table and the pid of the new process. -/
def procInitWaitpid : Except Crash (ProcessTable × Int) :=
  match t.searchPid (MAX_PROC + 1) (succ t.last_i) with
  | .error e => .error e
  | .ok none => .error (.panic tableFullMsg)
  | .ok (some i) => .ok ({ proc := Function.update t.proc i (some i), last_i := i }, i)

/-- `proc_end_waitpid`. -/
def procEndWaitpid (p_pid : Int) : Except Crash ProcessTable :=
  if 0 < p_pid ∧ p_pid ≤ MAX_PROC then
    .ok { t with proc := Function.update t.proc p_pid.toNat none }
  else .error .kassert

/-- `proc_bootstrap`: the kernel process takes a slot as well. -/
def procBootstrap : Except Crash (ProcessTable × Int) := blank.procInitWaitpid

/-! ## What the search finds -/

variable {t}

theorem succ_pos (i : Nat) : 0 < succ i := by
  unfold succ
  split <;> omega

theorem searchPid_some {fuel i j : Nat} (h : t.searchPid fuel i = .ok (some j)) (hi : 0 < i) :
    0 < j ∧ t.proc j = none := by
  induction fuel generalizing i with
  | zero => cases h
  | succ fuel ih =>
    rw [searchPid] at h
    split at h
    · cases h
    · split at h
      · next hfree =>
        cases h
        exact ⟨hi, hfree⟩
      · exact ih h (succ_pos i)

/-- A new process takes a slot that was free, and that is its pid. -/
theorem procInitWaitpid_ok {t' : ProcessTable} {pid : Int} (h : t.procInitWaitpid = .ok (t', pid)) :
    ∃ i : Nat, pid = i ∧ 0 < i ∧ t.proc i = none ∧
      t'.proc = Function.update t.proc i (some ↑i) := by
  unfold procInitWaitpid at h
  split at h
  · cases h
  · cases h
  · next i hi =>
    cases h
    obtain ⟨hpos, hfree⟩ := searchPid_some hi (succ_pos _)
    exact ⟨i, rfl, hpos, hfree, rfl⟩

theorem procEndWaitpid_ok {t' : ProcessTable} {pid : Int} (h : t.procEndWaitpid pid = .ok t') :
    0 < pid ∧ t'.proc = Function.update t.proc pid.toNat none := by
  unfold procEndWaitpid at h
  split at h
  · next hpid =>
    cases h
    exact ⟨hpid.1, rfl⟩
  · cases h

end ProcessTable

/-- The pid of the kernel process. -/
def KERNEL_PID : Int := 1

end DemandPaging
