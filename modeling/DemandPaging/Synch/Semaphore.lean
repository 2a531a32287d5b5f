import DemandPaging.Lib.Run
import DemandPaging.Synch
import Mathlib.Tactic.Common

set_option autoImplicit false

/-! # Semaphores conserve units and strand nobody

Any number of threads run `P` and `V` on one semaphore, and interrupt handlers run `V`. A unit is
not handed to the thread that is woken for it: another thread may come first, and the woken one
sleeps again. What holds over all interleavings is a relation between the count, the sleepers and
the threads on their way: a thread sleeps only when the count is 0, and from then on every `V` that
raises the count also wakes a sleeper, as long as there is one. -/

namespace DemandPaging.Synch

variable {τ : Type}

/-- A semaphore in use, with the calls that have returned. -/
structure SemSys (τ : Type) where
  sem : Semaphore τ
  completedP : Nat
  completedV : Nat

/-- The sections under `sem_lock`. `V` may come from any thread that is not inside `P` and from any
    interrupt handler, so it names nobody. -/
inductive SemOp (τ : Type)
  | P (t : τ)
  | V

def SemSys.create (initial : UInt32) : SemSys τ :=
  { sem := semCreate initial, completedP := 0, completedV := 0 }

/-- Units are neither lost nor made up, and every unit has a woken thread that has yet to look for
    it, as long as anybody sleeps. -/
structure SemInv (initial : UInt32) (s : SemSys τ) : Prop where
  conserved : s.sem.sem_count.toNat + s.completedP = initial.toNat + s.completedV
  served : WaitChannel.Served s.sem.sem_count.toNat s.sem.sem_wchan

theorem SemInv.create (initial : UInt32) : SemInv initial (SemSys.create initial : SemSys τ) :=
  ⟨rfl, fun h => absurd rfl h⟩

variable [DecidableEq τ]

/-- A thread on the channel does not run. One that has been woken can only look again, which is the
    next pass of its `P`. -/
def SemSys.next (s : SemSys τ) : SemOp τ → Option (SemSys τ)
  | .P t =>
    if t ∈ s.sem.sem_wchan.asleep then none
    else match s.sem.P t with
      | (sem, false) => some { s with sem := sem }
      | (sem, true) => some { s with sem := sem, completedP := s.completedP + 1 }
  | .V => s.sem.V.map fun sem => { s with sem := sem, completedV := s.completedV + 1 }

def SemStep (s : SemSys τ) (op : SemOp τ) (s' : SemSys τ) : Prop := s.next op = some s'

/-- What one section does: a thread finds no unit and sleeps, takes one, or one is added. -/
inductive SemMove (s : SemSys τ) : SemSys τ → Prop
  | sleeps (t : τ) (hzero : s.sem.sem_count = 0) :
      SemMove s { s with sem := { s.sem with sem_wchan := s.sem.sem_wchan.sleep t } }
  | takes (t : τ) (hpos : s.sem.sem_count ≠ 0) :
      SemMove s { s with
        sem := { sem_count := s.sem.sem_count - 1, sem_wchan := s.sem.sem_wchan.resume t }
        completedP := s.completedP + 1 }
  | gives (hmax : 0 < s.sem.sem_count + 1) :
      SemMove s { s with
        sem := { sem_count := s.sem.sem_count + 1, sem_wchan := s.sem.sem_wchan.wakeOne }
        completedV := s.completedV + 1 }

theorem SemStep.move {s s' : SemSys τ} {op : SemOp τ} (h : SemStep s op s') : SemMove s s' := by
  cases op with
  | P t =>
    simp only [SemStep, SemSys.next, Semaphore.P] at h
    by_cases hzero : s.sem.sem_count = 0
    · simp only [hzero, if_true] at h
      split at h
      · cases h
      · cases h
        rw [← hzero]
        exact .sleeps t hzero
    · simp only [hzero, if_false] at h
      split at h
      · cases h
      · cases h
        exact .takes t hzero
  | V =>
    simp only [SemStep, SemSys.next, Semaphore.V] at h
    by_cases hmax : 0 < s.sem.sem_count + 1
    · rw [if_pos hmax] at h
      cases h
      exact .gives hmax
    · rw [if_neg hmax] at h
      cases h

theorem SemInv.step {initial : UInt32} {s s' : SemSys τ} (h : SemInv initial s)
    (hm : SemMove s s') : SemInv initial s' := by
  have hcons := h.conserved
  cases hm with
  | sleeps t hzero =>
    refine ⟨hcons, ?_⟩
    show WaitChannel.Served s.sem.sem_count.toNat _
    rw [hzero]
    exact WaitChannel.served_zero
  | takes t hpos =>
    have hcount : (s.sem.sem_count - 1).toNat + 1 = s.sem.sem_count.toNat := by
      have h1 : (1 : UInt32) ≤ s.sem.sem_count := by
        rw [UInt32.le_iff_toNat_le]
        exact Nat.pos_of_ne_zero fun h0 => hpos (UInt32.toNat_inj.1 h0)
      have hsub := UInt32.toNat_sub_of_le _ _ h1
      have h1' := UInt32.le_iff_toNat_le.1 h1
      have hone : (1 : UInt32).toNat = 1 := rfl
      omega
    refine ⟨?_, ?_⟩
    · show (s.sem.sem_count - 1).toNat + (s.completedP + 1) = initial.toNat + s.completedV
      omega
    · have hserved := h.served
      rw [← hcount] at hserved
      exact hserved.resume
  | gives hmax =>
    have hcount : (s.sem.sem_count + 1).toNat = s.sem.sem_count.toNat + 1 := by
      have hadd := UInt32.toNat_add s.sem.sem_count 1
      have hone : (1 : UInt32).toNat = 1 := rfl
      have hlt := s.sem.sem_count.toNat_lt
      have hpos : 0 < (s.sem.sem_count + 1).toNat := UInt32.lt_iff_toNat_lt.1 hmax
      omega
    refine ⟨?_, ?_⟩
    · show (s.sem.sem_count + 1).toNat + s.completedP = initial.toNat + (s.completedV + 1)
      omega
    · show WaitChannel.Served (s.sem.sem_count + 1).toNat _
      rw [hcount]
      exact h.served.wakeOne

/-- In every state the count is what was there at first and was added, less what was taken; and if
    a thread sleeps then at least as many woken threads have yet to look as there are units. -/
theorem semaphore_conserves_and_serves {initial : UInt32} {s : SemSys τ}
    (h : Reaches SemStep (SemSys.create initial) s) :
    s.sem.sem_count.toNat + s.completedP = initial.toNat + s.completedV ∧
      (s.sem.sem_wchan.asleep ≠ [] → s.sem.sem_count.toNat ≤ s.sem.sem_wchan.woken.length) := by
  have hinv : SemInv initial s :=
    h.invariant (fun _ _ _ hs hstep => hs.step hstep.move) (SemInv.create initial)
  exact ⟨hinv.conserved, hinv.served⟩

/-- Two threads sleep and a unit arrives; a third thread takes it before the woken one looks, so
    that one sleeps again, and another unit arrives. -/
theorem barging_conserves_and_serves :
    ∃ s : SemSys Nat, Reaches SemStep (SemSys.create 0) s ∧
      s.sem.sem_wchan.asleep = [0] ∧ s.sem.sem_count = 1 ∧
      s.sem.sem_count.toNat + s.completedP = (0 : UInt32).toNat + s.completedV ∧
      (s.sem.sem_wchan.asleep ≠ [] → s.sem.sem_count.toNat ≤ s.sem.sem_wchan.woken.length) := by
  have hstep : ∀ (s s' : SemSys Nat) (op : SemOp Nat), op ∈ [.P 0, .P 1, .V, .P 2, .P 0, .V] →
      s.next op = some s' → SemStep s op s' := fun _ _ _ _ h => h
  obtain ⟨s, hs, hend⟩ := exists_reaches_of_replay (s := SemSys.create 0) hstep
    (p := fun s => decide (s.sem.sem_wchan.asleep = [0] ∧ s.sem.sem_count = 1)) (by decide)
  obtain ⟨hasleep, hcount⟩ := of_decide_eq_true hend
  exact ⟨s, hs, hasleep, hcount, semaphore_conserves_and_serves hs⟩

end DemandPaging.Synch
