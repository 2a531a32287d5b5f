import DemandPaging.Lib.Run
import DemandPaging.Synch
import Mathlib.Tactic.Common

set_option autoImplicit false

/-! # Threads that share a lock and a condition variable

Any number of threads run a program that calls `lock_acquire`, `lock_release`, `cv_wait`,
`cv_signal` and `cv_broadcast` on one lock and one condition variable. A step is what a thread does
up to the point where another thread can see a difference: one section under a spinlock, one look
at the owner with `lock_do_i_hold`, or, between two calls, a step of the program itself. `cv_wait`
keeps the spinlock of the condition variable over several steps, from before it releases the lock
until `wchan_sleep` has put it on the channel.

The program is a parameter: from the data the threads share and the data of its own, a thread
between two calls computes both anew and says what it calls next. Which of several ways it goes is
up to a label. -/

namespace DemandPaging.Synch

open Function (update)

variable {τ σ ℓ κ : Type}

/-- `struct cv`. The spinlock is held from one step to the next only by a thread in `cv_wait`. -/
structure Cv (τ : Type) where
  spinlock_t : Option τ
  wchan_t : WaitChannel τ

/-- The functions that begin with `lock_do_i_hold`. -/
inductive HolderCall
  | lockRelease
  | cvWait
  | cvSignal
  | cvBroadcast
  deriving DecidableEq

/-- What a program can do next. -/
inductive Call
  | nothing
  | lockAcquire
  | holder (c : HolderCall)
  deriving DecidableEq

/-- From where `lock_acquire` was called: by the program, at the beginning of one of the functions
    of the condition variable because the thread did not hold the lock, or at the end of
    `cv_wait`. -/
inductive AcquiredFor
  | program
  | cvWait
  | cvSignal
  | cvBroadcast
  | cvWaitEnd
  deriving DecidableEq

/-- Where a thread stands. -/
inductive Pc
  /-- Between two calls. -/
  | program
  /-- At the `lock_do_i_hold` with which a function begins. -/
  | looking (c : HolderCall)
  /-- In `lock_acquire`: in front of the spinlock, on the channel, or woken. -/
  | acquiring (k : AcquiredFor)
  /-- In `lock_release`, having seen that it holds the lock. -/
  | releasing
  /-- In `cv_wait` with the lock held, in front of the spinlock of the condition variable. -/
  | waitSpin
  /-- In `cv_wait` with that spinlock, at the `lock_do_i_hold` of `lock_release`. -/
  | waitLook
  /-- The same, having seen that it holds the lock. -/
  | waitRelease
  /-- In `cv_wait` with that spinlock, `lock_release` has returned and `wchan_sleep` comes next. -/
  | waitSleep
  /-- In the `wchan_sleep` of `cv_wait`: on the channel, or woken and in front of the spinlock. -/
  | waitChannel
  /-- In `cv_signal` with the lock held, in front of the spinlock. -/
  | signal
  /-- In `cv_broadcast` with the lock held, in front of the spinlock. -/
  | broadcast
  deriving DecidableEq

/-- Where a call begins. -/
def Call.entry : Call → Pc
  | .nothing => .program
  | .lockAcquire => .acquiring .program
  | .holder c => .looking c

/-- Where a function goes on if `lock_do_i_hold` says yes. -/
def HolderCall.held : HolderCall → Pc
  | .lockRelease => .releasing
  | .cvWait => .waitSpin
  | .cvSignal => .signal
  | .cvBroadcast => .broadcast

/-- Where it goes on if `lock_do_i_hold` says no: `lock_release` returns, the others acquire the
    lock first. -/
def HolderCall.notHeld : HolderCall → Pc
  | .lockRelease => .program
  | .cvWait => .acquiring .cvWait
  | .cvSignal => .acquiring .cvSignal
  | .cvBroadcast => .acquiring .cvBroadcast

/-- What comes after `lock_acquire`. -/
def AcquiredFor.after : AcquiredFor → Pc
  | .program => .program
  | .cvWait => .waitSpin
  | .cvSignal => .signal
  | .cvBroadcast => .broadcast
  | .cvWaitEnd => .program

/-- The threads, the lock, the condition variable and the data of the program. -/
structure Monitor (τ σ ℓ : Type) where
  lock : Lock τ
  cv : Cv τ
  pc : τ → Pc
  shared : σ
  loc : τ → ℓ

/-- A step of the program of a thread, or the next step inside the call it has made. -/
inductive MonOp (τ κ : Type)
  | program (t : τ) (k : κ)
  | call (t : τ)

/-- The thread that takes the step. -/
def MonOp.thread : MonOp τ κ → τ
  | .program t _ => t
  | .call t => t

@[simp] theorem MonOp.thread_call (t : τ) : (MonOp.call t : MonOp τ κ).thread = t := rfl

/-- What a thread that is between two calls does: with the shared data and its own, new ones and
    the next call. -/
abbrev Program (σ ℓ κ : Type) := κ → σ → ℓ → Option (Call × σ × ℓ)

/-- Nobody is in a call. -/
def Monitor.create (shared : σ) (loc : ℓ) : Monitor τ σ ℓ where
  lock := lockCreate
  cv := { spinlock_t := none, wchan_t := .empty }
  pc := fun _ => .program
  shared := shared
  loc := fun _ => loc

variable [DecidableEq τ]

namespace Monitor

/-- The next step of a thread inside a call, if it can take one. -/
def callStep (m : Monitor τ σ ℓ) (t : τ) : Option (Monitor τ σ ℓ) :=
  let goto (m : Monitor τ σ ℓ) (pc : Pc) := some { m with pc := update m.pc t pc }
  match m.pc t with
  | .program => none
  | .looking c => goto m (if m.lock.doIHold t then c.held else c.notHeld)
  | .acquiring k =>
    if t ∈ m.lock.wchan_t.asleep then none
    else match m.lock.acquire t with
      | (lock, false) => some { m with lock := lock }
      | (lock, true) => goto { m with lock := lock } k.after
  | .releasing => goto { m with lock := m.lock.release } .program
  | .waitSpin =>
    if m.cv.spinlock_t = none then
      goto { m with cv := { m.cv with spinlock_t := some t } } .waitLook
    else none
  | .waitLook => goto m (if m.lock.doIHold t then .waitRelease else .waitSleep)
  | .waitRelease => goto { m with lock := m.lock.release } .waitSleep
  | .waitSleep =>
    goto { m with cv := { spinlock_t := none, wchan_t := m.cv.wchan_t.sleep t } } .waitChannel
  | .waitChannel =>
    if t ∉ m.cv.wchan_t.asleep ∧ m.cv.spinlock_t = none then
      goto { m with cv := { m.cv with wchan_t := m.cv.wchan_t.resume t } } (.acquiring .cvWaitEnd)
    else none
  | .signal =>
    if m.cv.spinlock_t = none then
      goto { m with cv := { m.cv with wchan_t := m.cv.wchan_t.wakeOne } } .program
    else none
  | .broadcast =>
    if m.cv.spinlock_t = none then
      goto { m with cv := { m.cv with wchan_t := m.cv.wchan_t.wakeAll } } .program
    else none

def next (prog : Program σ ℓ κ) (m : Monitor τ σ ℓ) : MonOp τ κ → Option (Monitor τ σ ℓ)
  | .program t k =>
    if m.pc t = .program then
      (prog k m.shared (m.loc t)).map fun (c, shared, l) =>
        { m with
          pc := update m.pc t c.entry
          shared := shared
          loc := update m.loc t l }
    else none
  | .call t => m.callStep t

end Monitor

def MonStep (prog : Program σ ℓ κ) (m : Monitor τ σ ℓ) (op : MonOp τ κ) (m' : Monitor τ σ ℓ) :
    Prop := m.next prog op = some m'

/-! ## What one step does -/

/-- What one step does, with what the thread has found out. -/
inductive MonMove (prog : Program σ ℓ κ) (m : Monitor τ σ ℓ) : MonOp τ κ → Monitor τ σ ℓ → Prop
  | runs (t : τ) (k : κ) (c : Call) (shared : σ) (l : ℓ) (hpc : m.pc t = .program)
      (hprog : prog k m.shared (m.loc t) = some (c, shared, l)) :
      MonMove prog m (.program t k) { m with
        pc := update m.pc t c.entry
        shared := shared
        loc := update m.loc t l }
  | looks (t : τ) (c : HolderCall) (hpc : m.pc t = .looking c) :
      MonMove prog m (.call t) { m with
        pc := update m.pc t (if m.lock.owner = some t then c.held else c.notHeld) }
  | sleeps (t : τ) (k : AcquiredFor) (hpc : m.pc t = .acquiring k) (howned : m.lock.owner ≠ none) :
      MonMove prog m (.call t) { m with
        lock := { m.lock with wchan_t := m.lock.wchan_t.sleep t } }
  | takes (t : τ) (k : AcquiredFor) (hpc : m.pc t = .acquiring k) (hfree : m.lock.owner = none)
      (hawake : t ∉ m.lock.wchan_t.asleep) :
      MonMove prog m (.call t) { m with
        lock := { owner := some t, wchan_t := m.lock.wchan_t.resume t }
        pc := update m.pc t k.after }
  | releases (t : τ) (hpc : m.pc t = .releasing) :
      MonMove prog m (.call t) { m with
        lock := m.lock.release
        pc := update m.pc t .program }
  | waitSpins (t : τ) (hpc : m.pc t = .waitSpin) (hspin : m.cv.spinlock_t = none) :
      MonMove prog m (.call t) { m with
        cv := { m.cv with spinlock_t := some t }
        pc := update m.pc t .waitLook }
  | waitLooks (t : τ) (hpc : m.pc t = .waitLook) :
      MonMove prog m (.call t) { m with
        pc := update m.pc t
          (if m.lock.owner = some t then .waitRelease else .waitSleep) }
  | waitReleases (t : τ) (hpc : m.pc t = .waitRelease) :
      MonMove prog m (.call t) { m with
        lock := m.lock.release
        pc := update m.pc t .waitSleep }
  | waitSleeps (t : τ) (hpc : m.pc t = .waitSleep) :
      MonMove prog m (.call t) { m with
        cv := { spinlock_t := none, wchan_t := m.cv.wchan_t.sleep t }
        pc := update m.pc t .waitChannel }
  | waitWakes (t : τ) (hpc : m.pc t = .waitChannel) (hawake : t ∉ m.cv.wchan_t.asleep)
      (hspin : m.cv.spinlock_t = none) :
      MonMove prog m (.call t) { m with
        cv := { m.cv with wchan_t := m.cv.wchan_t.resume t }
        pc := update m.pc t (.acquiring .cvWaitEnd) }
  | signals (t : τ) (hpc : m.pc t = .signal) (hspin : m.cv.spinlock_t = none) :
      MonMove prog m (.call t) { m with
        cv := { m.cv with wchan_t := m.cv.wchan_t.wakeOne }
        pc := update m.pc t .program }
  | broadcasts (t : τ) (hpc : m.pc t = .broadcast) (hspin : m.cv.spinlock_t = none) :
      MonMove prog m (.call t) { m with
        cv := { m.cv with wchan_t := m.cv.wchan_t.wakeAll }
        pc := update m.pc t .program }

theorem move_callStep {prog : Program σ ℓ κ} {m m' : Monitor τ σ ℓ} {t : τ}
    (h : m.callStep t = some m') : MonMove prog m (.call t) m' := by
  unfold Monitor.callStep at h
  cases hpc : m.pc t with
  | program => rw [hpc] at h; cases h
  | looking c =>
    simp only [hpc, Lock.doIHold, beq_iff_eq, Option.some.injEq] at h
    subst h
    exact .looks t c hpc
  | acquiring k =>
    simp only [hpc, Lock.acquire] at h
    split at h
    · cases h
    · by_cases howned : m.lock.owner ≠ none
      · rw [if_pos howned] at h
        cases h
        exact .sleeps t k hpc howned
      · rw [if_neg howned] at h
        cases h
        exact .takes t k hpc (not_not.1 howned) ‹_›
  | releasing =>
    simp only [hpc, Option.some.injEq] at h
    subst h
    exact .releases t hpc
  | waitSpin =>
    simp only [hpc] at h
    split at h
    · cases h; exact .waitSpins t hpc ‹_›
    · cases h
  | waitLook =>
    simp only [hpc, Lock.doIHold, beq_iff_eq, Option.some.injEq] at h
    subst h
    exact .waitLooks t hpc
  | waitRelease =>
    simp only [hpc, Option.some.injEq] at h
    subst h
    exact .waitReleases t hpc
  | waitSleep =>
    simp only [hpc, Option.some.injEq] at h
    subst h
    exact .waitSleeps t hpc
  | waitChannel =>
    simp only [hpc] at h
    split at h
    next hgo => cases h; exact .waitWakes t hpc hgo.1 hgo.2
    next => cases h
  | signal =>
    simp only [hpc] at h
    split at h
    · cases h; exact .signals t hpc ‹_›
    · cases h
  | broadcast =>
    simp only [hpc] at h
    split at h
    · cases h; exact .broadcasts t hpc ‹_›
    · cases h

theorem MonStep.move {prog : Program σ ℓ κ} {m m' : Monitor τ σ ℓ} {op : MonOp τ κ}
    (h : MonStep prog m op m') : MonMove prog m op m' := by
  cases op with
  | program t k =>
    simp only [MonStep, Monitor.next] at h
    split at h
    next hpc =>
      obtain ⟨⟨c, shared, l⟩, hprog, rfl⟩ := Option.map_eq_some_iff.1 h
      exact .runs t k c shared l hpc hprog
    next => cases h
  | call t => exact move_callStep h

/-- Inside a call the data of the program do not change. -/
theorem MonMove.call_data {prog : Program σ ℓ κ} {m m' : Monitor τ σ ℓ} {t : τ}
    (h : MonMove prog m (.call t) m') : m'.shared = m.shared ∧ m'.loc = m.loc := by
  cases h <;> exact ⟨rfl, rfl⟩

end DemandPaging.Synch
