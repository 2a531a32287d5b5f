import DemandPaging.Synch.Monitor

set_option autoImplicit false

/-! # Condition variables lose no wakeup

The window in which a thread has released the lock in `cv_wait` and is not on the channel yet is
covered by the spinlock of the condition variable: who signals needs that spinlock too, and so
finds the thread on the channel. All that is needed for it is what each thread holds at each point;
a step of one thread changes nothing another thread can rely on. -/

namespace DemandPaging.Synch

open Function (update_of_ne)

variable {τ σ ℓ κ : Type}

/-- The points at which a thread holds the spinlock of the condition variable. -/
def Pc.spins : Pc → Bool
  | .waitLook | .waitRelease | .waitSleep => true
  | _ => false

/-- The points at which a thread holds the lock, whatever the program does. -/
def Pc.owns : Pc → Bool
  | .releasing | .waitSpin | .waitLook | .waitRelease | .signal | .broadcast => true
  | _ => false

/-- The points inside `cv_wait`. -/
def Pc.inCvWait : Pc → Bool
  | .looking .cvWait | .acquiring .cvWait | .waitSpin | .waitLook | .waitRelease | .waitSleep
  | .waitChannel | .acquiring .cvWaitEnd => true
  | _ => false

/-- The points inside `cv_wait` at which the thread has released the lock and has not started to
    look for it again or is still looking. -/
def Pc.hasReleased : Pc → Bool
  | .waitSleep | .waitChannel | .acquiring .cvWaitEnd => true
  | _ => false

/-- The thread has been woken in `cv_wait`, which has not returned yet. -/
def Monitor.Woken (m : Monitor τ σ ℓ) (u : τ) : Prop :=
  u ∈ m.cv.wchan_t.woken ∨ m.pc u = .acquiring .cvWaitEnd

/-- What a thread holds and waits for fits where it stands. -/
structure ThreadOk (m : Monitor τ σ ℓ) (u : τ) : Prop where
  owner : (m.pc u).owns = true → m.lock.owner = some u
  lockChannel : m.lock.wchan_t.Holds u → ∃ k, m.pc u = .acquiring k
  spinlock : m.cv.spinlock_t = some u ↔ (m.pc u).spins = true
  cvChannel : m.cv.wchan_t.Holds u ↔ m.pc u = .waitChannel

/-- The two states are the same for a thread: where it stands, and what it holds and waits for. -/
structure SameFor (u : τ) (m m' : Monitor τ σ ℓ) : Prop where
  pc : m'.pc u = m.pc u
  loc : m'.loc u = m.loc u
  owner : m'.lock.owner = some u ↔ m.lock.owner = some u
  lockChannel : m'.lock.wchan_t.Holds u ↔ m.lock.wchan_t.Holds u
  spinlock : m'.cv.spinlock_t = some u ↔ m.cv.spinlock_t = some u
  cvChannel : m'.cv.wchan_t.Holds u ↔ m.cv.wchan_t.Holds u

variable {prog : Program σ ℓ κ} {m m' : Monitor τ σ ℓ} {op : MonOp τ κ} {u : τ}

theorem ThreadOk.create (shared : σ) (l : ℓ) (u : τ) :
    ThreadOk (Monitor.create shared l : Monitor τ σ ℓ) u where
  owner := fun h => by cases h
  lockChannel := by simp [Monitor.create, lockCreate, WaitChannel.Holds, WaitChannel.empty]
  spinlock := by simp [Monitor.create, Pc.spins]
  cvChannel := by simp [Monitor.create, WaitChannel.Holds, WaitChannel.empty]

theorem ThreadOk.frame (h : ThreadOk m u) (hs : SameFor u m m') : ThreadOk m' u where
  owner := by
    rw [hs.pc, hs.owner]
    exact h.owner
  lockChannel := by
    rw [hs.pc, hs.lockChannel]
    exact h.lockChannel
  spinlock := by
    rw [hs.pc, hs.spinlock]
    exact h.spinlock
  cvChannel := by
    rw [hs.pc, hs.cvChannel]
    exact h.cvChannel

/-- While the spinlock of the condition variable is free, a thread that has released the lock in
    `cv_wait` is on the channel or has been woken. -/
theorem ThreadOk.enqueued (h : ThreadOk m u) (hspin : m.cv.spinlock_t = none)
    (hu : (m.pc u).hasReleased = true) : u ∈ m.cv.wchan_t.asleep ∨ m.Woken u := by
  have hnot : (m.pc u).spins ≠ true := fun hs => by
    rw [h.spinlock.2 hs] at hspin
    cases hspin
  cases hpc : m.pc u with
  | waitSleep => rw [hpc] at hnot; exact absurd rfl hnot
  | waitChannel =>
    rcases h.cvChannel.2 hpc with hu | hu
    · exact .inl hu
    · exact .inr (.inl hu)
  | acquiring k =>
    cases k with
    | cvWaitEnd => exact .inr (.inr hpc)
    | _ => rw [hpc] at hu; cases hu
  | _ => rw [hpc] at hu; cases hu

variable [DecidableEq τ]

/-- A step of one thread is not seen by another, apart from being woken. -/
theorem MonMove.sameFor (hm : MonMove prog m op m') (hok : ThreadOk m op.thread)
    (hu : u ≠ op.thread) : SameFor u m m' := by
  cases hm with
  | runs t k c shared l hpc hprog =>
    exact ⟨update_of_ne hu _ _, update_of_ne hu _ _, .rfl, .rfl, .rfl, .rfl⟩
  | looks t c hpc | waitLooks t hpc => exact ⟨update_of_ne hu _ _, rfl, .rfl, .rfl, .rfl, .rfl⟩
  | sleeps t k hpc howned =>
    refine ⟨rfl, rfl, .rfl, ?_, .rfl, .rfl⟩
    exact WaitChannel.holds_sleep.trans (or_iff_right hu)
  | takes t k hpc hfree hawake =>
    refine ⟨update_of_ne hu _ _, rfl, ?_, ?_, .rfl, .rfl⟩
    · simpa [hfree] using Ne.symm hu
    · exact (WaitChannel.holds_resume hawake).trans (and_iff_right hu)
  | releases t hpc | waitReleases t hpc =>
    have hown : m.lock.owner = some t := hok.owner (by rw [MonOp.thread, hpc]; rfl)
    refine ⟨update_of_ne hu _ _, rfl, ?_, WaitChannel.holds_wakeOne, .rfl, .rfl⟩
    simpa [Lock.release, hown] using Ne.symm hu
  | waitSpins t hpc hspin =>
    refine ⟨update_of_ne hu _ _, rfl, .rfl, .rfl, ?_, .rfl⟩
    simpa [hspin] using Ne.symm hu
  | waitSleeps t hpc =>
    have hspin : m.cv.spinlock_t = some t := hok.spinlock.2 (by rw [MonOp.thread, hpc]; rfl)
    refine ⟨update_of_ne hu _ _, rfl, .rfl, .rfl, ?_, ?_⟩
    · simpa [hspin] using Ne.symm hu
    · exact WaitChannel.holds_sleep.trans (or_iff_right hu)
  | waitWakes t hpc hawake hspin =>
    refine ⟨update_of_ne hu _ _, rfl, .rfl, .rfl, .rfl, ?_⟩
    exact (WaitChannel.holds_resume hawake).trans (and_iff_right hu)
  | signals t hpc hspin =>
    exact ⟨update_of_ne hu _ _, rfl, .rfl, .rfl, .rfl, WaitChannel.holds_wakeOne⟩
  | broadcasts t hpc hspin =>
    exact ⟨update_of_ne hu _ _, rfl, .rfl, .rfl, .rfl, WaitChannel.holds_wakeAll⟩

/-- The thread that takes the step ends up at a point that fits what it has then. -/
theorem MonMove.threadOk_self (hm : MonMove prog m op m') (hok : ThreadOk m op.thread) :
    ThreadOk m' op.thread := by
  obtain ⟨howner, hlock, hspinlock, hcv⟩ := hok
  cases hm with
  | runs t k c shared l hpc hprog =>
    simp only [MonOp.thread, hpc] at howner hlock hspinlock hcv ⊢
    cases c <;> constructor <;> simp_all [Call.entry, Pc.owns, Pc.spins]
  | looks t c hpc =>
    simp only [MonOp.thread, hpc] at howner hlock hspinlock hcv ⊢
    by_cases hown : m.lock.owner = some t <;> cases c <;> constructor <;>
      simp_all [HolderCall.held, HolderCall.notHeld, Pc.owns, Pc.spins]
  | sleeps t k hpc howned | waitSpins t hpc hspin | waitLooks t hpc =>
    simp only [MonOp.thread, hpc] at howner hlock hspinlock hcv ⊢
    constructor <;> simp_all [Pc.owns, Pc.spins]
  | takes t k hpc hfree hawake =>
    simp only [MonOp.thread, hpc] at howner hlock hspinlock hcv ⊢
    cases k <;> constructor <;>
      simp_all [AcquiredFor.after, Pc.owns, Pc.spins, WaitChannel.holds_resume hawake]
  | releases t hpc | waitReleases t hpc =>
    simp only [MonOp.thread, hpc] at howner hlock hspinlock hcv ⊢
    constructor <;> simp_all [Pc.owns, Pc.spins, Lock.release, WaitChannel.holds_wakeOne]
  | waitSleeps t hpc =>
    simp only [MonOp.thread, hpc] at howner hlock hspinlock hcv ⊢
    constructor <;> simp_all [Pc.owns, Pc.spins, WaitChannel.holds_sleep]
  | waitWakes t hpc hawake hspin =>
    simp only [MonOp.thread, hpc] at howner hlock hspinlock hcv ⊢
    constructor <;> simp_all [Pc.owns, Pc.spins, WaitChannel.holds_resume hawake]
  | signals t hpc hspin =>
    simp only [MonOp.thread, hpc] at howner hlock hspinlock hcv ⊢
    constructor <;> simp_all [Pc.owns, Pc.spins, WaitChannel.holds_wakeOne]
  | broadcasts t hpc hspin =>
    simp only [MonOp.thread, hpc] at howner hlock hspinlock hcv ⊢
    constructor <;> simp_all [Pc.owns, Pc.spins, WaitChannel.holds_wakeAll]

theorem ThreadOk.reaches {shared : σ} {l : ℓ}
    (h : Reaches (MonStep prog) (Monitor.create shared l) m) (u : τ) : ThreadOk m u := by
  refine h.invariant (P := fun m => ∀ u, ThreadOk m u) (fun m op m' hok hstep u => ?_)
    (ThreadOk.create shared l) u
  by_cases hu : u = op.thread
  · rw [hu]
    exact hstep.move.threadOk_self (hok op.thread)
  · exact (hok u).frame (hstep.move.sameFor (hok op.thread) hu)

/-! ## Waiting and signalling -/

/-- `cv_wait` is left by taking the lock. -/
theorem MonMove.leaves_cvWait (hm : MonMove prog m op m') (hok : ThreadOk m op.thread)
    (hin : (m.pc u).inCvWait = true) (hout : (m'.pc u).inCvWait ≠ true) :
    m'.lock.owner = some u := by
  obtain rfl : u = op.thread := by
    by_contra hu
    rw [(hm.sameFor hok hu).pc] at hout
    exact hout hin
  cases hm with
  | takes t k hpc hfree hawake => rfl
  | looks t c hpc =>
    rw [MonOp.thread_call, hpc] at hin
    cases c with
    | cvWait =>
      refine absurd ?_ hout
      by_cases hown : m.lock.owner = some t <;>
        simp [hown, HolderCall.held, HolderCall.notHeld, Pc.inCvWait]
    | _ => cases hin
  | waitLooks t hpc =>
    refine absurd ?_ hout
    by_cases hown : m.lock.owner = some t <;> simp [hown, Pc.inCvWait]
  | runs t k c shared l hpc hprog =>
    rw [MonOp.thread, hpc] at hin
    cases hin
  | sleeps t k hpc howned => exact absurd hin hout
  | _ => simp_all [Pc.inCvWait]

/-- The section of `cv_signal` under the spinlock. -/
theorem MonMove.at_signal {t : τ} (hm : MonMove prog m (.call t) m') (hpc : m.pc t = .signal) :
    m.cv.spinlock_t = none ∧ m'.cv.wchan_t = m.cv.wchan_t.wakeOne := by
  cases hm with
  | signals _ _ hspin => exact ⟨hspin, rfl⟩
  | _ => simp_all

/-- The section of `cv_broadcast` under the spinlock. -/
theorem MonMove.at_broadcast {t : τ} (hm : MonMove prog m (.call t) m')
    (hpc : m.pc t = .broadcast) :
    m.cv.spinlock_t = none ∧ m'.cv.wchan_t = m.cv.wchan_t.wakeAll := by
  cases hm with
  | broadcasts _ _ hspin => exact ⟨hspin, rfl⟩
  | _ => simp_all

/-- Whatever the threads do: when a thread signals, it holds the lock and every thread that has
    released the lock in `cv_wait` is on the channel or has been woken; `cv_signal` wakes the first
    thread on the channel, if there is one, and no other; `cv_broadcast` wakes all of them; and a
    thread leaves `cv_wait` with the lock held. -/
theorem cv_loses_no_wakeup {shared : σ} {l : ℓ}
    (h : Reaches (MonStep prog) (Monitor.create shared l) m) :
    (∀ t m', MonStep prog m (.call t) m' → m.pc t = .signal ∨ m.pc t = .broadcast →
      m.lock.owner = some t ∧
        ∀ u, (m.pc u).hasReleased = true → u ∈ m.cv.wchan_t.asleep ∨ m.Woken u) ∧
      (∀ t m', MonStep prog m (.call t) m' → m.pc t = .signal →
        m'.cv.wchan_t.asleep = m.cv.wchan_t.asleep.tail ∧
          m'.cv.wchan_t.woken = m.cv.wchan_t.woken ++ m.cv.wchan_t.asleep.take 1) ∧
      (∀ t m', MonStep prog m (.call t) m' → m.pc t = .broadcast →
        m'.cv.wchan_t.asleep = [] ∧
          m'.cv.wchan_t.woken = m.cv.wchan_t.woken ++ m.cv.wchan_t.asleep) ∧
      (∀ op m' u, MonStep prog m op m' → (m.pc u).inCvWait = true →
        (m'.pc u).inCvWait ≠ true → m'.lock.owner = some u) := by
  have hok := ThreadOk.reaches h
  refine ⟨fun t m' hstep hpc => ⟨?_, fun u hu => ?_⟩, fun t m' hstep hpc => ?_,
    fun t m' hstep hpc => ?_, fun op m' u hstep hin hout => ?_⟩
  · refine (hok t).owner ?_
    rcases hpc with hpc | hpc <;> rw [hpc] <;> rfl
  · rcases hpc with hpc | hpc
    · exact (hok u).enqueued (hstep.move.at_signal hpc).1 hu
    · exact (hok u).enqueued (hstep.move.at_broadcast hpc).1 hu
  · rw [(hstep.move.at_signal hpc).2]
    exact ⟨WaitChannel.asleep_wakeOne _, WaitChannel.woken_wakeOne _⟩
  · rw [(hstep.move.at_broadcast hpc).2]
    exact ⟨rfl, rfl⟩
  · exact hstep.move.leaves_cvWait (hok op.thread) hin hout

/-- A thread that may make any call at any time. -/
def anyCall : Program Unit Unit Call := fun c _ _ => some (c, (), ())

/-- Two threads wait, and a third one is about to signal. -/
def waitWaitSignal : List (MonOp Nat Call) :=
  let waits (t : Nat) : List (MonOp Nat Call) :=
    [.program t .lockAcquire, .call t, .program t (.holder .cvWait), .call t, .call t, .call t,
      .call t, .call t]
  waits 0 ++ waits 1 ++ [.program 2 .lockAcquire, .call 2, .program 2 (.holder .cvSignal), .call 2]

theorem waitWaitSignal_loses_no_wakeup :
    ∃ m m' : Monitor Nat Unit Unit, Reaches (MonStep anyCall) (Monitor.create () ()) m ∧
      MonStep anyCall m (.call 2) m' ∧ m.pc 2 = .signal ∧ (m.pc 1).hasReleased = true ∧
      m.lock.owner = some 2 ∧
      (∀ u, (m.pc u).hasReleased = true → u ∈ m.cv.wchan_t.asleep ∨ m.Woken u) ∧
      m'.cv.wchan_t.woken = m.cv.wchan_t.woken ++ m.cv.wchan_t.asleep.take 1 := by
  have hstep : ∀ (m m' : Monitor Nat Unit Unit) (op : MonOp Nat Call), op ∈ waitWaitSignal →
      m.next anyCall op = some m' → MonStep anyCall m op m' := fun _ _ _ _ h => h
  obtain ⟨m, hm, hend⟩ := exists_reaches_of_replay (s := Monitor.create () ()) hstep
    (p := fun m => m.pc 2 == .signal && (m.pc 1).hasReleased && (m.callStep 2).isSome) (by decide)
  simp only [Bool.and_eq_true, beq_iff_eq] at hend
  obtain ⟨⟨hsignal, hreleased⟩, hsome⟩ := hend
  obtain ⟨m', hm'⟩ := Option.isSome_iff_exists.1 hsome
  obtain ⟨hatomic, hone, -, -⟩ := cv_loses_no_wakeup hm
  obtain ⟨howner, hfound⟩ := hatomic 2 m' hm' (.inl hsignal)
  exact ⟨m, m', hm, hm', hsignal, hreleased, howner, hfound, (hone 2 m' hm' hsignal).2⟩

end DemandPaging.Synch
