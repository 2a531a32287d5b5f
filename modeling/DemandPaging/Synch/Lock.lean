import DemandPaging.Lib.Run
import DemandPaging.Synch
import Mathlib.Tactic.Common

set_option autoImplicit false

/-! # Sleep locks exclude each other's holders and strand nobody

Any number of threads call `lock_acquire` and `lock_release` on one lock, in any order, also a
thread that holds the lock or one that does not. `lock_release` looks at the owner before it takes
the spinlock and then clears it without looking again; this is sound because only the owner itself
can make that answer stale. -/

namespace DemandPaging.Synch

variable {τ : Type}

/-- Where a thread stands. In `lock_acquire` it waits for the spinlock, sleeps or has been woken,
    which the channel knows; in `lock_release` it may have seen that it holds the lock. -/
inductive LockPc
  | elsewhere
  | releasing
  deriving DecidableEq

/-- A lock in use. `inside` are the threads whose last `lock_acquire` has returned and whose
    `lock_release` has not cleared the owner yet, with one entry for each such call. -/
structure LockSys (τ : Type) where
  lock : Lock τ
  pc : τ → LockPc
  inside : List τ

/-- The steps of a thread: a pass of `lock_acquire`, the look of `lock_release` at the owner, and
    its section under the spinlock. -/
inductive LockOp (τ : Type)
  | acquire (t : τ)
  | doIHold (t : τ)
  | release (t : τ)

def LockSys.create : LockSys τ :=
  { lock := lockCreate, pc := fun _ => .elsewhere, inside := [] }

/-- The owner is the one thread inside, `lock_release` clears no other thread's ownership, and a
    free lock with sleepers has a woken thread that has yet to look. -/
structure LockInv (s : LockSys τ) : Prop where
  inside : s.inside = s.lock.owner.toList
  releasing : ∀ t, s.pc t = .releasing → s.lock.owner = some t
  served : s.lock.owner = none → WaitChannel.Served 1 s.lock.wchan_t

theorem LockInv.create : LockInv (LockSys.create : LockSys τ) where
  inside := rfl
  releasing := fun t h => by cases h
  served := fun _ h => absurd rfl h

variable [DecidableEq τ]

/-- A thread on the channel does not run, one that has been woken is inside `lock_acquire`, and one
    that has looked at the owner is inside `lock_release`. -/
def LockSys.next (s : LockSys τ) : LockOp τ → Option (LockSys τ)
  | .acquire t =>
    if t ∈ s.lock.wchan_t.asleep ∨ s.pc t = .releasing then none
    else match s.lock.acquire t with
      | (lock, false) => some { s with lock := lock }
      | (lock, true) => some { s with lock := lock, inside := s.inside ++ [t] }
  | .doIHold t =>
    if s.lock.wchan_t.Holds t ∨ s.pc t = .releasing then none
    else if s.lock.doIHold t then some { s with pc := Function.update s.pc t .releasing }
    else some s
  | .release t =>
    if s.pc t = .releasing then
      some { lock := s.lock.release
             pc := Function.update s.pc t .elsewhere
             inside := s.inside.erase t }
    else none

def LockStep (s : LockSys τ) (op : LockOp τ) (s' : LockSys τ) : Prop := s.next op = some s'

/-- What one step does. -/
inductive LockMove (s : LockSys τ) : LockOp τ → LockSys τ → Prop
  | sleeps (t : τ) (howned : s.lock.owner ≠ none) :
      LockMove s (.acquire t) { s with lock := { s.lock with wchan_t := s.lock.wchan_t.sleep t } }
  | takes (t : τ) (hfree : s.lock.owner = none) :
      LockMove s (.acquire t) { s with
        lock := { owner := some t, wchan_t := s.lock.wchan_t.resume t }
        inside := s.inside ++ [t] }
  | looks (t : τ) (hmine : s.lock.owner = some t) :
      LockMove s (.doIHold t) { s with pc := Function.update s.pc t .releasing }
  | returns (t : τ) (hother : s.lock.owner ≠ some t) : LockMove s (.doIHold t) s
  | releases (t : τ) (hpc : s.pc t = .releasing) :
      LockMove s (.release t)
        { lock := s.lock.release
          pc := Function.update s.pc t .elsewhere
          inside := s.inside.erase t }

theorem LockStep.move {s s' : LockSys τ} {op : LockOp τ} (h : LockStep s op s') :
    LockMove s op s' := by
  cases op with
  | acquire t =>
    simp only [LockStep, LockSys.next, Lock.acquire] at h
    split at h
    · cases h
    · by_cases howned : s.lock.owner ≠ none
      · rw [if_pos howned] at h
        cases h
        exact .sleeps t howned
      · rw [if_neg howned] at h
        cases h
        exact .takes t (not_not.1 howned)
  | doIHold t =>
    simp only [LockStep, LockSys.next, Lock.doIHold, beq_iff_eq] at h
    split at h
    · cases h
    · split at h
      next hmine => cases h; exact .looks t hmine
      next hother => cases h; exact .returns t hother
  | release t =>
    simp only [LockStep, LockSys.next] at h
    split at h
    next hpc => cases h; exact .releases t hpc
    next => cases h

theorem LockInv.step {s s' : LockSys τ} {op : LockOp τ} (h : LockInv s) (hm : LockMove s op s') :
    LockInv s' := by
  cases hm with
  | sleeps t howned => exact ⟨h.inside, h.releasing, fun hfree => absurd hfree howned⟩
  | takes t hfree =>
    refine ⟨?_, fun u hu => ?_, fun hnone => by cases hnone⟩
    · show s.inside ++ [t] = [t]
      rw [h.inside, hfree]
      rfl
    · -- the owner was nobody, so no thread is in the middle of `lock_release`
      rw [h.releasing u hu] at hfree
      cases hfree
  | looks t hmine =>
    refine ⟨h.inside, fun u hu => ?_, h.served⟩
    by_cases hut : u = t
    · rw [hut]
      exact hmine
    · exact h.releasing u (Function.update_of_ne hut _ s.pc ▸ hu)
  | returns t hother => exact h
  | releases t hpc =>
    have hmine := h.releasing t hpc
    refine ⟨?_, fun u hu => ?_, fun _ => ?_⟩
    · show s.inside.erase t = []
      rw [h.inside, hmine]
      simp
    · by_cases hut : u = t
      · rw [hut] at hu
        simp at hu
      · have hother := h.releasing u (Function.update_of_ne hut _ s.pc ▸ hu)
        rw [hmine] at hother
        exact absurd (Option.some.inj hother).symm hut
    · exact WaitChannel.served_zero.wakeOne

theorem LockInv.reaches {s : LockSys τ} (h : Reaches LockStep LockSys.create s) : LockInv s :=
  h.invariant (fun _ _ _ hs hstep => hs.step hstep.move) LockInv.create

/-- In every state at most one thread is inside and the owner is that thread; a thread loses the
    lock only by its own `lock_release`, and a free lock goes only to a thread that acquires it; and
    if the lock is free while a thread sleeps, a woken thread has yet to look. -/
theorem lock_excludes_and_serves {s : LockSys τ} (h : Reaches LockStep LockSys.create s) :
    s.inside.length ≤ 1 ∧
      (∀ t, s.lock.owner = some t ↔ t ∈ s.inside) ∧
      (∀ op s', LockStep s op s' → ∀ t, s.lock.owner = some t → s'.lock.owner ≠ some t →
        op = .release t) ∧
      (∀ op s', LockStep s op s' → s.lock.owner = none → ∀ t, s'.lock.owner = some t →
        op = .acquire t) ∧
      (s.lock.owner = none → s.lock.wchan_t.asleep ≠ [] → s.lock.wchan_t.woken ≠ []) := by
  have hinv := LockInv.reaches h
  refine ⟨?_, fun t => ?_, fun op s' hstep t hmine hlost => ?_, fun op s' hstep hfree t ht => ?_,
    fun hfree hasleep => ?_⟩
  · rw [hinv.inside]
    exact Option.length_toList_le
  · rw [hinv.inside, Option.mem_toList]
  · cases hstep.move with
    | sleeps u howned | looks u hown | returns u hother => exact absurd hmine hlost
    | takes u hfree => rw [hmine] at hfree; cases hfree
    | releases u hpc =>
      have hown := hinv.releasing u hpc
      rw [hmine] at hown
      rw [Option.some.inj hown]
  · cases hstep.move with
    | sleeps u howned => exact absurd hfree howned
    | takes u hnone => rw [Option.some.inj ht]
    | looks u hown => rw [hfree] at hown; cases hown
    | returns u hother => rw [hfree] at ht; cases ht
    | releases u hpc => cases ht
  · exact List.ne_nil_of_length_pos (hinv.served hfree hasleep)

/-- A thread holds the lock, two others sleep, and the holder releases it: the lock is free, one
    thread sleeps and one has yet to look. -/
theorem handover_excludes_and_serves :
    ∃ s : LockSys Nat, Reaches LockStep LockSys.create s ∧
      s.lock.owner = none ∧ s.lock.wchan_t.asleep = [2] ∧
      s.inside.length ≤ 1 ∧
      (∀ t, s.lock.owner = some t ↔ t ∈ s.inside) ∧
      (∀ op s', LockStep s op s' → ∀ t, s.lock.owner = some t → s'.lock.owner ≠ some t →
        op = .release t) ∧
      (∀ op s', LockStep s op s' → s.lock.owner = none → ∀ t, s'.lock.owner = some t →
        op = .acquire t) ∧
      (s.lock.owner = none → s.lock.wchan_t.asleep ≠ [] → s.lock.wchan_t.woken ≠ []) := by
  have hstep : ∀ (s s' : LockSys Nat) (op : LockOp Nat),
      op ∈ [.acquire 0, .acquire 1, .acquire 2, .doIHold 0, .release 0] →
      s.next op = some s' → LockStep s op s' := fun _ _ _ _ h => h
  obtain ⟨s, hs, hend⟩ := exists_reaches_of_replay (s := LockSys.create) hstep
    (p := fun s => decide (s.lock.owner = none ∧ s.lock.wchan_t.asleep = [2])) (by decide)
  obtain ⟨hfree, hasleep⟩ := of_decide_eq_true hend
  exact ⟨s, hs, hfree, hasleep, lock_excludes_and_serves hs⟩

end DemandPaging.Synch
