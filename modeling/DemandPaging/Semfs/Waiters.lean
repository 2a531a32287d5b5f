import DemandPaging.Semfs.Holders

set_option autoImplicit false

/-! # Who is left waiting for a user-level semaphore

`semfs_wakeup` wakes readers only when the count leaves 0, and only one if it becomes 1, because
readers go to sleep only at 0. But a reader woken by such a write needs time to get the lock, and a
second write in between finds a count that is not 0 and wakes nobody: with two readers asleep, the
one that was woken takes its unit and the other sleeps on, although a unit is there. This is the
only way it can go wrong. As long as the count is raised from something other than 0 only while
nobody sleeps, a reader sleeps beside a count that is not 0 only if that count is 1 and somebody is
on the way to take it. -/

namespace DemandPaging.Semfs

open Synch
open Function (update_self)

variable {τ : Type} {m m' : Sems τ} {t u : τ} {op : MonOp τ SemfsCall}

/-- If the lock is free and the count is not 0 while a reader sleeps, some reader has been woken and
    has not looked at the count again. -/
def Unstranded (m : Sems τ) : Prop :=
  m.lock.owner = none → m.shared.sems_count ≠ 0 → m.cv.wchan_t.asleep ≠ [] →
    ∃ u resid, m.Woken u ∧ m.loc u = .reading resid

/-- The count a step stores, if it does. -/
def stores (m : Sems τ) : MonOp τ SemfsCall → Option UInt32
  | .program t _ => if m.pc t = .program then (m.loc t).sets else none
  | .call _ => none

/-- The count is raised only from 0, or while no reader sleeps. -/
def Timely (m : Sems τ) (op : MonOp τ SemfsCall) : Prop :=
  ∀ newcount, stores m op = some newcount → m.shared.sems_count < newcount →
    m.shared.sems_count = 0 ∨ m.cv.wchan_t.asleep = []

/-- A reader that is going to look at the count: it has been woken, or it has the lock again. -/
def Rechecks (m : Sems τ) (u : τ) : Prop :=
  m.Woken u ∨ m.pc u = .program ∧ (m.loc u).wants = true

/-- The points of `cv_wait` before the thread is on the channel. -/
def entersWait : Pc → Bool
  | .looking .cvWait | .waitSpin | .waitLook | .waitRelease | .waitSleep => true
  | _ => false

theorem holdsLock_of_entersWait {p : Pc} {l : SemfsPc} (h : entersWait p = true)
    (hne : p ≠ .waitSleep) : holdsLock p l = true := by
  cases p with
  | waitSleep => exact absurd rfl hne
  | looking c => rfl
  | waitSpin => rfl
  | waitLook => rfl
  | waitRelease => rfl
  | _ => cases h

theorem eq_one_of_le {n : UInt32} (hle : n ≤ 1) (hne : n ≠ 0) : n = 1 := by
  have hle' : n.toNat ≤ 1 := UInt32.le_iff_toNat_le.1 hle
  have hpos : n.toNat ≠ 0 := fun h0 => hne (UInt32.toNat_inj.1 h0)
  have hone : n.toNat = 1 := by omega
  exact UInt32.toNat_inj.1 hone

/-- Readers enter `cv_wait` at the count 0. Before the count leaves 0, the readers on the channel
    are woken, one if the new count is 1, and none is on its way there. So where there are both
    units and sleepers, there is one unit and a reader that is going to look. -/
structure Served (m : Sems τ) : Prop where
  entering : ∀ u, entersWait (m.pc u) = true → m.shared.sems_count = 0
  setting : ∀ t newcount, m.pc t = .program → (m.loc t).sets = some newcount →
    m.shared.sems_count = 0 → newcount ≠ 0 →
      (∀ u, m.pc u ≠ .waitSleep) ∧
        (m.cv.wchan_t.asleep ≠ [] → newcount = 1 ∧ ∃ u, Rechecks m u)
  served : m.shared.sems_count ≠ 0 → m.cv.wchan_t.asleep ≠ [] →
    m.shared.sems_count = 1 ∧ ∃ u, Rechecks m u

theorem Served.create : Served (semfsSemCreate : Sems τ) where
  entering := fun u h => by cases h
  setting := fun t newcount hpc hsets => by cases hsets
  served := fun h => absurd rfl h

/-- In a state with the lock free, the reader that is going to look has been woken. -/
theorem Served.unstranded (h : Served m) (hp : Placed m) : Unstranded m := by
  intro hfree hcount hasleep
  obtain ⟨-, u, hu⟩ := h.served hcount hasleep
  have hwoken : m.Woken u := hu.resolve_right fun ⟨hpc, hwants⟩ => by
    have hown := ((hp.semfs u).stands hpc rfl).1.2 (SemfsPc.inside_of_wants hwants)
    rw [hfree] at hown
    cases hown
  have hwants : (m.loc u).wants = true := by
    rcases hwoken with hw | hpc
    · exact ((hp.semfs u).stands ((hp.thread u).cvChannel.1 (.inr hw)) rfl).2
    · exact ((hp.semfs u).stands hpc rfl).2
  cases hloc : m.loc u with
  | reading resid => exact ⟨u, resid, hwoken, hloc⟩
  | _ => rw [hloc] at hwants; cases hwants

/-- While nobody holds the spinlock of the condition variable, nobody is on the way to the
    channel. -/
theorem not_waitSleep (hp : Placed m) (hspin : m.cv.spinlock_t = none) (u : τ) :
    m.pc u ≠ .waitSleep := fun hpc => by
  have hmine := (hp.thread u).spinlock.2 (by rw [hpc]; rfl)
  rw [hspin] at hmine
  cases hmine

/-- Who is between two calls and has nothing left to read is not going to look. -/
theorem not_rechecks (hp : Placed m) (hpc : m.pc t = .program) (hwants : (m.loc t).wants ≠ true) :
    ¬ Rechecks m t := by
  rintro ((hw | hacq) | ⟨-, hw⟩)
  · have hchan := (hp.thread t).cvChannel.1 (.inr hw)
    rw [hpc] at hchan
    cases hchan
  · rw [hpc] at hacq
    cases hacq
  · exact hwants hw

/-- Only one process is about to set the count, and it is the one with the lock. -/
theorem eq_of_sets (hp : Placed m) (hown : m.lock.owner = some t)
    (hsets : (m.loc u).sets.isSome = true) : u = t := by
  rw [(hp.semfs u).owner_of_sets hsets] at hown
  exact Option.some.inj hown

variable [DecidableEq τ]

/-- A woken thread stays woken while others run. -/
theorem woken_of_ne (hm : MonMove semfsProgram m op m') (hu : u ≠ op.thread)
    (h : u ∈ m.cv.wchan_t.woken) : u ∈ m'.cv.wchan_t.woken := by
  cases hm with
  | waitSleeps t hpc => exact WaitChannel.mem_woken_sleep.2 ⟨hu, h⟩
  | waitWakes t hpc hawake hspin => exact WaitChannel.mem_woken_resume.2 ⟨hu, h⟩
  | signals t hpc hspin =>
    show u ∈ m.cv.wchan_t.wakeOne.woken
    rw [WaitChannel.woken_wakeOne]
    exact List.mem_append_left _ h
  | broadcasts t hpc hspin => exact List.mem_append_left _ h
  | _ => exact h

/-- A reader that is going to look does so in a step of the program of its own. -/
theorem Rechecks.step (h : Rechecks m u) (hp : Placed m) (hm : MonMove semfsProgram m op m')
    (hop : ∀ k, op ≠ .program u k) : Rechecks m' u := by
  by_cases hu : u = op.thread
  · cases op with
    | program t k => exact absurd (congrArg (MonOp.program · k) hu.symm) (hop k)
    | call t =>
      obtain rfl : u = t := hu
      rcases h with (hw | hpc) | ⟨hpc, -⟩
      · have hpc := (hp.thread u).cvChannel.1 (.inr hw)
        cases hm with
        | waitWakes _ _ hawake hspin => exact .inl (.inr (update_self ..))
        | _ => simp_all
      · cases hm with
        | sleeps _ k hpc' howned => exact .inl (.inr hpc)
        | takes _ k hpc' hfree hawake =>
          rw [hpc] at hpc'
          cases hpc'
          exact .inr ⟨update_self .., ((hp.semfs u).stands hpc rfl).2⟩
        | _ => simp_all
      · cases hm <;> simp_all
  · have hsame := hm.sameFor (hp.thread op.thread) hu
    rcases h with (hw | hpc) | ⟨hpc, hwants⟩
    · exact .inl (.inl (woken_of_ne hm hu hw))
    · exact .inl (.inr (hsame.pc.trans hpc))
    · exact .inr ⟨hsame.pc.trans hpc, hsame.loc ▸ hwants⟩

/-! ## Steps inside a call -/

/-- Inside a call, a thread comes to the channel only from the point before `wchan_sleep`. -/
theorem asleep_of_call (hm : MonMove semfsProgram m (.call t) m')
    (h : m'.cv.wchan_t.asleep ≠ []) : m.cv.wchan_t.asleep ≠ [] ∨ m.pc t = .waitSleep := by
  cases hm with
  | waitSleeps _ hpc => exact .inr hpc
  | signals _ hpc hspin =>
    refine .inl fun h0 => h ?_
    show m.cv.wchan_t.wakeOne.asleep = []
    rw [WaitChannel.asleep_wakeOne, h0]
    rfl
  | broadcasts _ hpc hspin => exact absurd rfl h
  | _ => exact .inl h

/-- Inside a call, nobody enters `cv_wait` anew. -/
theorem entersWait_of_call (hp : Placed m) (hm : MonMove semfsProgram m (.call t) m')
    (h : entersWait (m'.pc t) = true) : entersWait (m.pc t) = true := by
  have hfits := (hp.semfs t).fits
  cases hm with
  | looks _ c hpc =>
    rw [hpc]
    simp only [update_self] at h
    cases c with
    | cvWait => rfl
    | _ => split at h <;> cases h
  | sleeps _ k hpc howned => exact h
  | takes _ k hpc hfree hawake =>
    rw [hpc] at hfits
    simp only [update_self] at h
    cases k <;> first | cases hfits | cases h
  | releases _ hpc | waitWakes _ hpc hawake hspin | signals _ hpc hspin | broadcasts _ hpc hspin
  | waitSleeps _ hpc => simp [entersWait] at h
  | waitSpins _ hpc hspin => rw [hpc]; rfl
  | waitLooks _ hpc => rw [hpc]; rfl
  | waitReleases _ hpc => rw [hpc]; rfl

/-- The point before `wchan_sleep` is reached with the lock. -/
theorem owner_of_waitSleep (hp : Placed m) (hm : MonMove semfsProgram m (.call t) m')
    (h : m'.pc t = .waitSleep) : m.lock.owner = some t := by
  have hfits := (hp.semfs t).fits
  cases hm with
  | waitLooks _ hpc | waitReleases _ hpc => exact (hp.thread t).owner (by rw [hpc]; rfl)
  | looks _ c hpc =>
    simp only [update_self] at h
    split at h <;> cases c <;> cases h
  | takes _ k hpc hfree hawake =>
    simp only [update_self] at h
    cases k <;> cases h
  | sleeps _ k hpc howned => rw [hpc] at h; cases h
  | _ => simp at h

/-- After a call, the program goes on with a count to store only if the call was one of
    `semfs_wakeup`. -/
theorem wakes_of_sets (hp : Placed m) (hm : MonMove semfsProgram m (.call t) m')
    (hpc' : m'.pc t = .program) {newcount : UInt32} (hsets : (m.loc t).sets = some newcount) :
    m.pc t = .signal ∨ m.pc t = .broadcast := by
  have hown : m.lock.owner = some t := (hp.semfs t).owner_of_sets (by rw [hsets]; rfl)
  have hfits := (hp.semfs t).fits
  cases hm with
  | signals _ hpc hspin => exact .inl hpc
  | broadcasts _ hpc hspin => exact .inr hpc
  | looks _ c hpc =>
    simp only [update_self, hown, if_true] at hpc'
    cases c <;> cases hpc'
  | sleeps _ k hpc howned => rw [hpc] at hpc'; cases hpc'
  | takes _ k hpc hfree hawake => rw [hown] at hfree; cases hfree
  | releases _ hpc =>
    rw [hpc, Semfs.fits, SemfsPc.inside_of_sets (by rw [hsets]; rfl)] at hfits
    cases hfits
  | waitLooks _ hpc =>
    simp only [update_self] at hpc'
    split at hpc' <;> cases hpc'
  | _ => simp at hpc'

/-- After `semfs_wakeup` the readers on the channel have been woken as the new count requires. -/
theorem Served.woken (hp : Placed m) (hm : MonMove semfsProgram m (.call t) m')
    (hpc' : m'.pc t = .program) {newcount : UInt32} (hsets : (m.loc t).sets = some newcount) :
    (∀ u, m'.pc u ≠ .waitSleep) ∧
      (m'.cv.wchan_t.asleep ≠ [] → newcount = 1 ∧ ∃ u, Rechecks m' u) := by
  have hnobody : m.cv.spinlock_t = none → ∀ u, m'.pc u ≠ .waitSleep := fun hspin u hu => by
    by_cases hut : u = t
    · rw [hut, hpc'] at hu
      cases hu
    · rw [(hm.sameFor (hp.thread t) hut).pc] at hu
      exact not_waitSleep hp hspin u hu
  rcases wakes_of_sets hp hm hpc' hsets with hpc | hpc
  · obtain ⟨hspin, hwchan⟩ := hm.at_signal hpc
    have hone := ((hp.semfs t).stands hpc rfl).2
    rw [Semfs.fits, hsets, beq_iff_eq] at hone
    refine ⟨hnobody hspin, fun hasleep => ⟨Option.some.inj hone, ?_⟩⟩
    cases hold : m.cv.wchan_t.asleep with
    | nil =>
      rw [hwchan, WaitChannel.asleep_wakeOne, hold] at hasleep
      exact absurd rfl hasleep
    | cons u rest =>
      refine ⟨u, .inl (.inl ?_)⟩
      rw [hwchan, WaitChannel.woken_wakeOne, hold]
      exact List.mem_append_right _ (List.mem_cons_self ..)
  · obtain ⟨hspin, hwchan⟩ := hm.at_broadcast hpc
    refine ⟨hnobody hspin, fun hasleep => ?_⟩
    rw [hwchan] at hasleep
    exact absurd rfl hasleep

theorem Served.call (h : Served m) (hp : Placed m) {t : τ}
    (hm : MonMove semfsProgram m (.call t) m') : Served m' := by
  obtain ⟨hshared, hloc⟩ := hm.call_data
  have hother : ∀ u, u ≠ t → m'.pc u = m.pc u := fun u hu => (hm.sameFor (hp.thread t) hu).pc
  have hrecheck : ∀ u, Rechecks m u → Rechecks m' u :=
    fun u hu => hu.step hp hm fun k hk => by cases hk
  refine ⟨fun u hu => ?_, fun t' newcount hpc hsets hcount hne => ?_, fun hcount hasleep => ?_⟩
  · rw [hshared]
    by_cases hut : u = t
    · rw [hut] at hu
      exact h.entering t (entersWait_of_call hp hm hu)
    · rw [hother u hut] at hu
      exact h.entering u hu
  · rw [hshared] at hcount
    rw [hloc] at hsets
    have hown : m.lock.owner = some t' := (hp.semfs t').owner_of_sets (by rw [hsets]; rfl)
    by_cases htt : t' = t
    · rw [htt] at hpc hsets
      exact Served.woken hp hm hpc hsets
    · -- `t'` has the lock, so `t` neither goes to sleep nor wakes anybody
      rw [hother t' htt] at hpc
      obtain ⟨hnobody, hready⟩ := h.setting t' newcount hpc hsets hcount hne
      refine ⟨fun u hu => ?_, fun hasleep => ?_⟩
      · by_cases hut : u = t
        · rw [hut] at hu
          rw [owner_of_waitSleep hp hm hu] at hown
          exact htt (Option.some.inj hown).symm
        · exact hnobody u (hother u hut ▸ hu)
      · obtain ⟨hone, u, hu⟩ := hready ((asleep_of_call hm hasleep).resolve_right (hnobody t))
        exact ⟨hone, u, hrecheck u hu⟩
  · rw [hshared] at hcount ⊢
    have hasleep' := (asleep_of_call hm hasleep).resolve_right fun hpc =>
      hcount (h.entering t (by rw [hpc]; rfl))
    obtain ⟨hone, u, hu⟩ := h.served hcount hasleep'
    exact ⟨hone, u, hrecheck u hu⟩

/-! ## Steps of the program -/

section Program

variable {k : SemfsCall}

/-- Who has nothing left to read takes no reader that is going to look away. -/
theorem exists_rechecks (hp : Placed m) (hm : MonMove semfsProgram m (.program t k) m')
    (hwants : (m.loc t).wants ≠ true) (h : ∃ u, Rechecks m u) : ∃ u, Rechecks m' u := by
  obtain ⟨u, hu⟩ := h
  refine ⟨u, hu.step hp hm fun k' hk => ?_⟩
  have hpc : m.pc t = .program := by cases hm; assumption
  cases hk
  exact not_rechecks hp hpc hwants hu

/-- A step that leaves the count alone, does not lead to `cv_wait` and is not a reader's. -/
theorem Served.program_same (h : Served m) (hp : Placed m)
    (hm : MonMove semfsProgram m (.program t k) m') (hshared : m'.shared = m.shared)
    (hwants : (m.loc t).wants ≠ true) (henters : entersWait (m'.pc t) ≠ true)
    (hsets : ∀ newcount, m'.pc t = .program → (m'.loc t).sets = some newcount →
      m.shared.sems_count = 0 → newcount = 0) : Served m' := by
  have hcv : m'.cv = m.cv := by cases hm; rfl
  have hsame : ∀ u, u ≠ t → SameFor u m m' := fun u hu => hm.sameFor (hp.thread t) hu
  refine ⟨fun u hu => ?_, fun t' newcount hpc' hset hcount hne => ?_, fun hcount hasleep => ?_⟩
  · rw [hshared]
    by_cases hut : u = t
    · exact absurd (hut ▸ hu) henters
    · exact h.entering u ((hsame u hut).pc ▸ hu)
  · rw [hshared] at hcount
    by_cases htt : t' = t
    · rw [htt] at hpc' hset
      exact absurd (hsets newcount hpc' hset hcount) hne
    · rw [(hsame t' htt).pc] at hpc'
      rw [(hsame t' htt).loc] at hset
      obtain ⟨hnobody, hready⟩ := h.setting t' newcount hpc' hset hcount hne
      refine ⟨fun u hu => ?_, fun hasleep => ?_⟩
      · by_cases hut : u = t
        · exact henters (by rw [← hut, hu]; rfl)
        · exact hnobody u ((hsame u hut).pc ▸ hu)
      · obtain ⟨hone, hex⟩ := hready (hcv ▸ hasleep)
        exact ⟨hone, exists_rechecks hp hm hwants hex⟩
  · rw [hshared] at hcount ⊢
    obtain ⟨hone, hex⟩ := h.served hcount (hcv ▸ hasleep)
    exact ⟨hone, exists_rechecks hp hm hwants hex⟩

/-- The step that stores a new count. -/
theorem Served.program_set (h : Served m) (hp : Placed m)
    (hm : MonMove semfsProgram m (.program t k) m') (htimely : Timely m (.program t k))
    {newcount : UInt32} (hset : (m.loc t).sets = some newcount)
    (hshared : m'.shared.sems_count = newcount) (henters : entersWait (m'.pc t) ≠ true)
    (hset' : (m'.loc t).sets = none) : Served m' := by
  have hpc : m.pc t = .program := by cases hm; assumption
  have hcv : m'.cv = m.cv := by cases hm; rfl
  have hown : m.lock.owner = some t := (hp.semfs t).owner_of_sets (by rw [hset]; rfl)
  have hwants : (m.loc t).wants ≠ true := SemfsPc.not_wants_of_sets (by rw [hset]; rfl)
  have hsame : ∀ u, u ≠ t → SameFor u m m' := fun u hu => hm.sameFor (hp.thread t) hu
  refine ⟨fun u hu => ?_, fun t' newcount hpc' hset hcount hne => ?_, fun hcount hasleep => ?_⟩
  · rw [hshared]
    by_contra hne
    by_cases hut : u = t
    · exact henters (hut ▸ hu)
    · rw [(hsame u hut).pc] at hu
      have hzero := h.entering u hu
      have hnobody := (h.setting t newcount hpc hset hzero hne).1 u
      -- anybody else that enters `cv_wait` would have the lock
      have hown' := (hp.semfs u).owner.2 (holdsLock_of_entersWait hu hnobody)
      exact hut (Option.some.inj (hown'.symm.trans hown))
  · by_cases htt : t' = t
    · rw [htt, hset'] at hset
      cases hset
    · rw [(hsame t' htt).loc] at hset
      exact absurd (eq_of_sets hp hown (by rw [hset]; rfl)) htt
  · rw [hshared] at hcount ⊢
    rw [hcv] at hasleep
    by_cases hzero : m.shared.sems_count = 0
    · obtain ⟨-, hready⟩ := h.setting t newcount hpc hset hzero hcount
      obtain ⟨hone, hex⟩ := hready hasleep
      exact ⟨hone, exists_rechecks hp hm hwants hex⟩
    · obtain ⟨hone, hex⟩ := h.served hzero hasleep
      refine ⟨?_, exists_rechecks hp hm hwants hex⟩
      have hle : newcount ≤ 1 := by
        rw [← hone]
        refine UInt32.not_lt.1 fun hlt => ?_
        have hstores : stores m (.program t k) = some newcount := (if_pos hpc).trans hset
        rcases htimely newcount hstores hlt with h0 | h0
        · exact hzero h0
        · exact hasleep h0
      exact eq_one_of_le hle hcount

/-- A reader's step with the lock, which leaves no unit beside a sleeper. -/
theorem Served.program_read (hp : Placed m)
    (hm : MonMove semfsProgram m (.program t k) m') (hin : (m.loc t).inside = true)
    (hset' : (m'.loc t).sets = none)
    (hentering : ∀ u, entersWait (m'.pc u) = true → m'.shared.sems_count = 0)
    (hserved : m'.shared.sems_count ≠ 0 → m.cv.wchan_t.asleep = []) : Served m' := by
  have hpc : m.pc t = .program := by cases hm; assumption
  have hcv : m'.cv = m.cv := by cases hm; rfl
  have hown : m.lock.owner = some t := ((hp.semfs t).stands hpc rfl).1.2 hin
  refine ⟨hentering, fun t' newcount hpc' hset hcount hne => ?_, fun hcount hasleep => ?_⟩
  · by_cases htt : t' = t
    · rw [htt, hset'] at hset
      cases hset
    · rw [(hm.sameFor (hp.thread t) htt).loc] at hset
      exact absurd (eq_of_sets hp hown (by rw [hset]; rfl)) htt
  · rw [hcv] at hasleep
    exact absurd (hserved hcount) hasleep

/-- A step of the program, seen from the process that takes it. -/
theorem program_runs (hm : MonMove semfsProgram m (.program t k) m') :
    ∃ c, m.pc t = .program ∧ m'.pc t = c.entry ∧
      Runs m.shared (m.loc t) c m'.shared (m'.loc t) := by
  cases hm with
  | runs _ _ c shared l hpc hprog =>
    refine ⟨c, hpc, update_self .., ?_⟩
    simp only [update_self]
    exact runs_semfsProgram hprog

theorem entry_semfsWakeup (count newcount : UInt32) :
    entersWait (semfsWakeup count newcount).entry ≠ true ∧
      ((semfsWakeup count newcount).entry = .program → count = 0 → newcount = 0) := by
  unfold semfsWakeup
  split
  next hskip =>
    refine ⟨Bool.false_ne_true, fun _ h0 => hskip.resolve_left fun hpos => ?_⟩
    rw [h0] at hpos
    exact UInt32.lt_irrefl 0 hpos
  next => split <;> exact ⟨Bool.false_ne_true, fun hpc => by cases hpc⟩

/-- A step that leads straight into a call other than `cv_wait`. -/
theorem Served.program_calls (h : Served m) (hp : Placed m)
    (hm : MonMove semfsProgram m (.program t k) m') (hshared : m'.shared = m.shared)
    (hwants : (m.loc t).wants ≠ true) (henters : entersWait (m'.pc t) ≠ true)
    (hcalls : m'.pc t ≠ .program) : Served m' :=
  h.program_same hp hm hshared hwants henters fun _ hpc' => absurd hpc' hcalls

/-- A step that ends in `semfs_wakeup`, with the new count still to be stored. -/
theorem Served.program_wakeup (h : Served m) (hp : Placed m)
    (hm : MonMove semfsProgram m (.program t k) m') (hshared : m'.shared = m.shared)
    (hwants : (m.loc t).wants ≠ true) {newcount : UInt32}
    (hpc' : m'.pc t = (semfsWakeup m.shared.sems_count newcount).entry)
    (hset : (m'.loc t).sets = some newcount) : Served m' := by
  obtain ⟨henters, hzero⟩ := entry_semfsWakeup m.shared.sems_count newcount
  refine h.program_same hp hm hshared hwants (by rw [hpc']; exact henters)
    fun newcount' hpc hset' hcount => ?_
  rw [hset] at hset'
  rw [hpc'] at hpc
  exact (Option.some.inj hset').symm.trans (hzero hpc hcount)

theorem Served.program (h : Served m) (hp : Placed m)
    (hm : MonMove semfsProgram m (.program t k) m') (htimely : Timely m (.program t k)) :
    Served m' := by
  obtain ⟨c, hpc, hpc', hrun⟩ := program_runs hm
  generalize hl : m.loc t = l, hl' : m'.loc t = l', hs' : m'.shared = sem' at hrun
  cases hrun with
  | enters result _ hin hsets | readNothing result | writeNothing resid result =>
    exact h.program_calls hp hm hs' (by rw [hl]; exact Bool.false_ne_true)
      (by rw [hpc']; exact Bool.false_ne_true) (by rw [hpc']; nofun)
  | refuses result result' =>
    refine h.program_same hp hm hs' (by rw [hl]; exact Bool.false_ne_true)
      (by rw [hpc']; exact Bool.false_ne_true) fun newcount _ hset => ?_
    rw [hl'] at hset
    cases hset
  | writes resid hfit | truncates n =>
    exact h.program_wakeup hp hm hs' (by rw [hl]; exact Bool.false_ne_true) hpc'
      (by rw [hl']; rfl)
  | written newcount resid | truncated newcount =>
    exact h.program_set hp hm htimely (by rw [hl]; rfl) (by rw [hs'])
      (by rw [hpc']; exact Bool.false_ne_true) (by rw [hl']; rfl)
  | waits resid hlt =>
    exact Served.program_read hp hm (by rw [hl]; rfl) (by rw [hl']; rfl)
      (fun u _ => by rw [hs']) fun hcount => absurd (by rw [hs']) hcount
  | takes resid hpos hle =>
    have hsome : m.shared.sems_count ≠ 0 := fun h0 => hpos (UInt32.le_zero_iff.1 (h0 ▸ hle))
    refine Served.program_read hp hm (by rw [hl]; rfl) (by rw [hl']; rfl)
      (fun u hu => ?_) fun hcount => ?_
    · by_cases hut : u = t
      · rw [hut, hpc'] at hu
        cases hu
      · rw [(hm.sameFor (hp.thread t) hut).pc] at hu
        exact absurd (h.entering u hu) hsome
    · by_contra hasleep
      -- the only unit beside a sleeper is the one the reader takes
      have hone := (h.served hsome hasleep).1
      rw [hs'] at hcount
      rw [hone] at hle
      have hall : resid = 1 := eq_one_of_le hle hpos
      refine hcount ?_
      show m.shared.sems_count - resid = 0
      rw [hone, hall]
      rfl

end Program

/-! ## Whole runs -/

/-- A step that raises the count only at the right time. -/
def TimelyStep (m : Sems τ) (op : MonOp τ SemfsCall) (m' : Sems τ) : Prop :=
  SemfsStep m op m' ∧ Timely m op

theorem Served.step (h : Served m) (hp : Placed m) (hm : MonMove semfsProgram m op m')
    (htimely : Timely m op) : Served m' := by
  cases op with
  | call t => exact h.call hp hm
  | program t k => exact h.program hp hm htimely

/-- As long as the count is raised only from 0 or while no reader sleeps, nobody is left waiting
    for a unit that is there. And in every run at all, as long as nobody truncates, what was read
    and what is there is what was written. -/
theorem timely_unstranded :
    (Reaches TimelyStep semfsSemCreate m → Unstranded m) ∧
      (Reaches SemfsStep semfsSemCreate m → m.shared.truncated = false →
        m.shared.consumed + m.shared.sems_count.toNat = m.shared.produced) := by
  refine ⟨fun h => ?_, fun h => (Conserved.reaches h).total⟩
  have hboth : Placed m ∧ Served m := h.invariant (P := fun m => Placed m ∧ Served m)
    (fun _ _ _ hm hstep => ⟨hm.1.step hstep.1.move, hm.2.step hm.1 hstep.1.move hstep.2⟩)
    ⟨Placed.create, Served.create⟩
  exact hboth.2.unstranded hboth.1

/-- Take a step if it raises the count only at the right time. -/
def nextTimely (m : Sems τ) (op : MonOp τ SemfsCall) : Option (Sems τ) :=
  match stores m op with
  | none => m.next semfsProgram op
  | some newcount =>
    if m.shared.sems_count < newcount → m.shared.sems_count = 0 ∨ m.cv.wchan_t.asleep = [] then
      m.next semfsProgram op
    else none

theorem nextTimely_step (h : nextTimely m op = some m') : TimelyStep m op m' := by
  unfold nextTimely at h
  split at h
  next hnone =>
    refine ⟨h, fun newcount hsome => ?_⟩
    rw [hnone] at hsome
    cases hsome
  next newcount hstores =>
    split at h
    next htimely =>
      refine ⟨h, fun n hn => ?_⟩
      obtain rfl : newcount = n := Option.some.inj (hstores.symm.trans hn)
      exact htimely
    next => cases h

/-- A process finds the count 0 and sleeps. -/
def readerSleeps (t : Fin 4) : List (MonOp (Fin 4) SemfsCall) :=
  [.program t (.read 1), .call t, .program t .go, .call t, .call t, .call t, .call t, .call t]

/-- A process finds the count 0, adds a unit and signals. -/
def writerSignals (t : Fin 4) : List (MonOp (Fin 4) SemfsCall) :=
  [.program t (.write 1), .call t, .program t .go, .call t, .call t, .program t .go,
    .program t .go, .call t, .call t]

/-- A process finds another count, adds a unit and wakes nobody. -/
def writerSkips (t : Fin 4) : List (MonOp (Fin 4) SemfsCall) :=
  [.program t (.write 1), .call t, .program t .go, .program t .go, .program t .go, .call t, .call t]

/-- A woken process takes its unit. -/
def readerTakes (t : Fin 4) : List (MonOp (Fin 4) SemfsCall) :=
  [.call t, .call t, .program t .go, .call t, .call t]

/-- Two readers sleep and one unit is written: one sleeps on and the other is on its way. -/
theorem one_unit_unstranded :
    ∃ m : Sems (Fin 4), Reaches TimelyStep semfsSemCreate m ∧ Reaches SemfsStep semfsSemCreate m ∧
      m.lock.owner = none ∧ m.shared.sems_count = 1 ∧ m.cv.wchan_t.asleep = [1] ∧ Unstranded m ∧
      m.shared.consumed + m.shared.sems_count.toNat = m.shared.produced := by
  have hstep : ∀ (m m' : Sems (Fin 4)) (op : MonOp (Fin 4) SemfsCall),
      op ∈ readerSleeps 0 ++ readerSleeps 1 ++ writerSignals 2 →
      nextTimely m op = some m' → TimelyStep m op m' := fun _ _ _ _ h => nextTimely_step h
  obtain ⟨m, hm, hend⟩ := exists_reaches_of_replay (s := semfsSemCreate) hstep
    (p := fun m => m.lock.owner == none && m.shared.sems_count == 1 &&
      m.cv.wchan_t.asleep == [1] && m.shared.truncated == false) (by decide)
  simp only [Bool.and_eq_true, beq_iff_eq] at hend
  obtain ⟨⟨⟨hfree, hcount⟩, hasleep⟩, htr⟩ := hend
  have hm' : Reaches SemfsStep semfsSemCreate m := hm.mono fun _ _ _ h => h.1
  exact ⟨m, hm, hm', hfree, hcount, hasleep, timely_unstranded.1 hm, timely_unstranded.2 hm' htr⟩

/-- Two readers sleep, and a second unit is written before the reader woken for the first one has
    the lock: that reader takes its unit, and the other sleeps on beside the second. -/
theorem second_unit_strands_reader :
    ∃ m : Sems (Fin 4), Reaches SemfsStep semfsSemCreate m ∧ m.shared.sems_count = 1 ∧
      m.cv.wchan_t.asleep = [1] ∧ ¬ Unstranded m := by
  have hstep : ∀ (m m' : Sems (Fin 4)) (op : MonOp (Fin 4) SemfsCall),
      op ∈ readerSleeps 0 ++ readerSleeps 1 ++ writerSignals 2 ++ writerSkips 3 ++ readerTakes 0 →
      m.next semfsProgram op = some m' → SemfsStep m op m' := fun _ _ _ _ h => h
  obtain ⟨m, hm, hend⟩ := exists_reaches_of_replay (s := semfsSemCreate) hstep
    (p := fun m => m.lock.owner == none && m.shared.sems_count == 1 &&
      m.cv.wchan_t.asleep == [1] && m.cv.wchan_t.woken == [] &&
      decide (∀ u, m.pc u ≠ .acquiring .cvWaitEnd)) (by decide)
  simp only [Bool.and_eq_true, beq_iff_eq, decide_eq_true_eq] at hend
  obtain ⟨⟨⟨⟨hfree, hcount⟩, hasleep⟩, hwoken⟩, hpc⟩ := hend
  refine ⟨m, hm, hcount, hasleep, fun h => ?_⟩
  obtain ⟨u, -, hw | hacq, -⟩ := h hfree (by rw [hcount]; decide) (by rw [hasleep]; decide)
  · rw [hwoken] at hw
    cases hw
  · exact hpc u hacq

end DemandPaging.Semfs
