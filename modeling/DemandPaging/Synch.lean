import DemandPaging.Lib.WaitChannel

set_option autoImplicit false

/-! # Semaphores, sleep locks and condition variables (`thread/synch.c`)

Every one of them is some data and a wait channel behind a spinlock. What a function does between
taking that spinlock and giving it back is one function here, and `wchan_sleep` ends such a
section: it puts the thread on the channel and drops the spinlock in one step, and the thread takes
the spinlock again before it goes on. So a loop `while (…) wchan_sleep(…)` is a sequence of
sections, one per time the thread looks, and the functions below are one pass of these loops. The
threads are of an arbitrary type. -/

namespace DemandPaging.Synch

variable {τ : Type} [DecidableEq τ]

/-! ## Semaphores -/

/-- `struct semaphore`; `sem_lock` is held during each of the functions below. -/
structure Semaphore (τ : Type) where
  sem_count : UInt32
  sem_wchan : WaitChannel τ
  deriving DecidableEq

/-- `sem_create`. -/
def semCreate (initialCount : UInt32) : Semaphore τ :=
  { sem_count := initialCount, sem_wchan := .empty }

/-- One pass of the loop of `P` for a thread: it sleeps, or it takes a unit and `P` returns. -/
def Semaphore.P (sem : Semaphore τ) (t : τ) : Semaphore τ × Bool :=
  if sem.sem_count = 0 then
    ({ sem with sem_wchan := sem.sem_wchan.sleep t }, false)
  else
    ({ sem_count := sem.sem_count - 1, sem_wchan := sem.sem_wchan.resume t }, true)

/-- `V`. Its assertion fails when the count wraps around. -/
def Semaphore.V (sem : Semaphore τ) : Option (Semaphore τ) :=
  let count := sem.sem_count + 1
  if 0 < count then
    some { sem_count := count, sem_wchan := sem.sem_wchan.wakeOne }
  else none

/-! ## Sleep locks -/

/-- `struct lock`. -/
structure Lock (τ : Type) where
  owner : Option τ
  wchan_t : WaitChannel τ
  deriving DecidableEq

/-- `lock_create`. -/
def lockCreate : Lock τ := { owner := none, wchan_t := .empty }

/-- `lock_do_i_hold`, which does not take the spinlock. -/
def Lock.doIHold (lock : Lock τ) (t : τ) : Bool := lock.owner == some t

/-- One pass of the loop of `lock_acquire`: the thread sleeps, or the lock is its own and
    `lock_acquire` returns. -/
def Lock.acquire (lock : Lock τ) (t : τ) : Lock τ × Bool :=
  if lock.owner ≠ none then
    ({ lock with wchan_t := lock.wchan_t.sleep t }, false)
  else
    ({ owner := some t, wchan_t := lock.wchan_t.resume t }, true)

/-- What `lock_release` does under the spinlock. It has looked at the owner before, without the
    spinlock. -/
def Lock.release (lock : Lock τ) : Lock τ :=
  { owner := none, wchan_t := lock.wchan_t.wakeOne }

end DemandPaging.Synch
