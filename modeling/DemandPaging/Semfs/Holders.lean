import DemandPaging.Semfs
import DemandPaging.Synch.CondVar

set_option autoImplicit false

/-! # Who holds the lock of a user-level semaphore

A process in one of the functions has `sems_lock` at every point at which it looks at the count or
changes it. So a step of one process is a step of the whole semaphore, a writer that has computed
the new count knows the old one until it stores the new one, and no unit is lost. -/

namespace DemandPaging.Semfs

open Synch
open Function (update_self update_of_ne)

variable {τ : Type} {m m' : Sems τ} {t u : τ} {op : MonOp τ SemfsCall}

/-! ## The program, one step at a time -/

/-- The process is in one of the functions and has called `lock_acquire`. -/
def SemfsPc.inside : SemfsPc → Bool
  | .returned _ => false
  | _ => true

/-- The value the process is about to give to the count. -/
def SemfsPc.sets : SemfsPc → Option UInt32
  | .writingCount newcount _ => some newcount
  | .truncatingCount newcount => some newcount
  | _ => none

/-- The process is in `semfs_read` with something left to read. -/
def SemfsPc.wants : SemfsPc → Bool
  | .reading resid => resid != 0
  | _ => false

/-- What a step of the program does. -/
inductive Runs (sem : SemfsSem) : SemfsPc → Call → SemfsSem → SemfsPc → Prop
  | enters (result : Except Errno Unit) (l : SemfsPc) (hin : l.inside = true)
      (hsets : l.sets = none) : Runs sem (.returned result) .lockAcquire sem l
  | refuses (result result' : Except Errno Unit) :
      Runs sem (.returned result) .nothing sem (.returned result')
  | readNothing (result : Except Errno Unit) :
      Runs sem (.reading 0) (.holder .lockRelease) sem (.returned result)
  | writeNothing (resid : UInt32) (result : Except Errno Unit) :
      Runs sem (.writing resid) (.holder .lockRelease) sem (.returned result)
  | takes (resid : UInt32) (hpos : resid ≠ 0) (hle : resid ≤ sem.sems_count) :
      Runs sem (.reading resid) (.holder .lockRelease)
        { sem with
          sems_count := sem.sems_count - resid
          consumed := sem.consumed + resid.toNat }
        (.returned (.ok ()))
  | waits (resid : UInt32) (hlt : sem.sems_count < resid) :
      Runs sem (.reading resid) (.holder .cvWait)
        { sem with sems_count := 0, consumed := sem.consumed + sem.sems_count.toNat }
        (.reading (resid - sem.sems_count))
  | writes (resid : UInt32) (hfit : sem.sems_count ≤ sem.sems_count + resid) :
      Runs sem (.writing resid) (semfsWakeup sem.sems_count (sem.sems_count + resid)) sem
        (.writingCount (sem.sems_count + resid) resid)
  | written (newcount resid : UInt32) :
      Runs sem (.writingCount newcount resid) .nothing
        { sem with sems_count := newcount, produced := sem.produced + resid.toNat } (.writing 0)
  | truncates (newcount : UInt32) :
      Runs sem (.truncating newcount) (semfsWakeup sem.sems_count newcount) sem
        (.truncatingCount newcount)
  | truncated (newcount : UInt32) :
      Runs sem (.truncatingCount newcount) (.holder .lockRelease)
        { sem with sems_count := newcount, truncated := true } (.returned (.ok ()))

theorem sub_ne_zero_of_lt {a b : UInt32} (h : a < b) : b - a ≠ 0 := fun h0 => by
  have hsub := UInt32.toNat_sub_of_le _ _ (UInt32.le_of_lt h)
  have hlt := UInt32.lt_iff_toNat_lt.1 h
  rw [h0, UInt32.toNat_zero] at hsub
  omega

/-- A reader takes all it wants, or all there is. -/
theorem consume_eq (count resid : UInt32) :
    (if count > 0 then consume count resid else 0) = if resid ≤ count then resid else count := by
  unfold consume
  by_cases hle : resid ≤ count
  · rw [if_pos hle, if_neg (UInt32.not_lt.2 hle)]
    by_cases hpos : count > 0
    · exact if_pos hpos
    · obtain rfl : count = 0 := UInt32.le_zero_iff.1 (UInt32.not_lt.1 hpos)
      rw [if_neg hpos, UInt32.le_zero_iff.1 hle]
  · rw [if_neg hle, if_pos (UInt32.not_le.1 hle)]
    by_cases hpos : count > 0
    · exact if_pos hpos
    · rw [if_neg hpos, UInt32.le_zero_iff.1 (UInt32.not_lt.1 hpos)]

theorem runs_semfsRead (sem : SemfsSem) (resid : UInt32) :
    Runs sem (.reading resid) (semfsRead sem resid).1 (semfsRead sem resid).2.1
      (semfsRead sem resid).2.2 := by
  unfold semfsRead
  by_cases hpos : resid > 0
  · have hne : resid ≠ 0 := fun h0 => by
      rw [h0] at hpos
      exact absurd hpos (UInt32.lt_irrefl 0)
    simp only [if_pos hpos, consume_eq]
    by_cases hle : resid ≤ sem.sems_count
    · simp only [if_pos hle, UInt32.sub_self]
      exact .takes resid hne hle
    · have hlt : sem.sems_count < resid := UInt32.not_le.1 hle
      have hleft : resid - sem.sems_count ≠ 0 := sub_ne_zero_of_lt hlt
      simp only [if_neg hle, UInt32.sub_self, if_neg hleft]
      exact .waits resid hlt
  · obtain rfl : resid = 0 := UInt32.le_zero_iff.1 (UInt32.not_lt.1 hpos)
    rw [if_neg hpos]
    exact .readNothing _

theorem runs_semfsWrite (sem : SemfsSem) (resid : UInt32) :
    Runs sem (.writing resid) (semfsWrite sem resid).1 (semfsWrite sem resid).2.1
      (semfsWrite sem resid).2.2 := by
  unfold semfsWrite
  by_cases hpos : resid > 0
  · simp only [if_pos hpos]
    by_cases hover : sem.sems_count + resid < sem.sems_count
    · simp only [if_pos hover]
      exact .writeNothing resid _
    · simp only [if_neg hover]
      exact .writes resid (UInt32.not_lt.1 hover)
  · rw [if_neg hpos]
    exact .writeNothing resid _

theorem runs_semfsProgram {sem sem' : SemfsSem} {l l' : SemfsPc} {k : SemfsCall} {c : Call}
    (h : semfsProgram k sem l = some (c, sem', l')) : Runs sem l c sem' l' := by
  cases l with
  | returned result =>
    cases k with
    | read resid | write resid => cases h; exact .enters result _ rfl rfl
    | truncate len =>
      simp only [semfsProgram, semfsTruncate] at h
      split at h
      · cases h; exact .refuses result _
      · split at h
        · cases h; exact .refuses result _
        · cases h; exact .enters result _ rfl rfl
    | go => cases h
  | reading resid =>
    cases k with
    | go =>
      have hrun := runs_semfsRead sem resid
      rw [Option.some.inj h] at hrun
      exact hrun
    | _ => cases h
  | writing resid =>
    cases k with
    | go =>
      have hrun := runs_semfsWrite sem resid
      rw [Option.some.inj h] at hrun
      exact hrun
    | _ => cases h
  | writingCount newcount resid =>
    cases k with
    | go => cases h; exact .written newcount resid
    | _ => cases h
  | truncating newcount =>
    cases k with
    | go => cases h; exact .truncates newcount
    | _ => cases h
  | truncatingCount newcount =>
    cases k with
    | go => cases h; exact .truncated newcount
    | _ => cases h

/-! ## Who holds the lock -/

/-- Whether a process has `sems_lock`, from where it stands. -/
def holdsLock : Pc → SemfsPc → Bool
  | .program, l => l.inside
  | .acquiring _, _ | .waitSleep, _ | .waitChannel, _ => false
  | _, _ => true

/-- Where a process can stand inside a call: only readers wait, with something left to read, and
    only a process that is about to set the count wakes readers. -/
def fits : Pc → SemfsPc → Bool
  | .program, _ => true
  | .looking .lockRelease, l | .releasing, l => !l.inside
  | .acquiring .program, l => l.inside && l.sets == none
  | .looking .cvWait, l | .waitSpin, l | .waitLook, l | .waitRelease, l | .waitSleep, l
  | .waitChannel, l | .acquiring .cvWaitEnd, l => l.wants
  | .looking .cvSignal, l | .signal, l => l.sets == some 1
  | .looking .cvBroadcast, l | .broadcast, l => l.sets.isSome
  | _, _ => false

/-- What holds of every process on its own. -/
structure SemfsOk (m : Sems τ) (u : τ) : Prop where
  owner : m.lock.owner = some u ↔ holdsLock (m.pc u) (m.loc u) = true
  fits : fits (m.pc u) (m.loc u) = true

theorem SemfsOk.create (u : τ) : SemfsOk (semfsSemCreate : Sems τ) u where
  owner := by simp [semfsSemCreate, Monitor.create, lockCreate, holdsLock, SemfsPc.inside]
  fits := rfl

/-- What is known of a process that stands at a given point. -/
theorem SemfsOk.stands {p : Pc} {l : SemfsPc} (h : SemfsOk m u) (hpc : m.pc u = p)
    (hloc : m.loc u = l) :
    (m.lock.owner = some u ↔ holdsLock p l = true) ∧ Semfs.fits p l = true := by
  subst hpc hloc
  exact ⟨h.owner, h.fits⟩

theorem SemfsOk.of_stands {p : Pc} {l : SemfsPc} (hpc : m.pc u = p) (hloc : m.loc u = l)
    (howner : m.lock.owner = some u ↔ holdsLock p l = true) (hfits : Semfs.fits p l = true) :
    SemfsOk m u := by
  subst hpc hloc
  exact ⟨howner, hfits⟩

theorem SemfsOk.frame (h : SemfsOk m u) (hs : SameFor u m m') : SemfsOk m' u where
  owner := by
    rw [hs.owner, hs.pc, hs.loc]
    exact h.owner
  fits := by
    rw [hs.pc, hs.loc]
    exact h.fits

/-- A step of the program goes to a point that fits, without taking or giving away the lock. -/
theorem Runs.fits {sem sem' : SemfsSem} {l l' : SemfsPc} {c : Call} (h : Runs sem l c sem' l') :
    holdsLock c.entry l' = l.inside ∧ Semfs.fits c.entry l' = true := by
  have hwakeup : ∀ (count newcount : UInt32) (l' : SemfsPc), l'.inside = true →
      l'.sets = some newcount → holdsLock (semfsWakeup count newcount).entry l' = true ∧
        Semfs.fits (semfsWakeup count newcount).entry l' = true := by
    intro count newcount l' hin hsets
    unfold semfsWakeup
    split
    · exact ⟨hin, rfl⟩
    · split
      next h1 => exact ⟨rfl, by simp [Call.entry, Semfs.fits, hsets, h1]⟩
      next => exact ⟨rfl, by simp [Call.entry, Semfs.fits, hsets]⟩
  cases h with
  | enters result l hin hsets => exact ⟨rfl, by simp [Call.entry, Semfs.fits, hin, hsets]⟩
  | waits resid hlt => exact ⟨rfl, bne_iff_ne.2 (sub_ne_zero_of_lt hlt)⟩
  | writes resid hfit => exact hwakeup _ _ _ rfl rfl
  | truncates newcount => exact hwakeup _ _ _ rfl rfl
  | _ => exact ⟨rfl, rfl⟩

theorem SemfsPc.inside_of_wants {l : SemfsPc} (h : l.wants = true) : l.inside = true := by
  cases l <;> first | rfl | cases h

theorem SemfsPc.inside_of_sets {l : SemfsPc} (h : l.sets.isSome = true) : l.inside = true := by
  cases l <;> first | rfl | cases h

theorem SemfsPc.not_wants_of_sets {l : SemfsPc} (h : l.sets.isSome = true) : l.wants ≠ true := by
  cases l with
  | writingCount newcount resid => exact Bool.false_ne_true
  | truncatingCount newcount => exact Bool.false_ne_true
  | _ => cases h

/-- Who is about to set the count has the lock. -/
theorem SemfsOk.owner_of_sets (h : SemfsOk m u) (hs : (m.loc u).sets.isSome = true) :
    m.lock.owner = some u := by
  have hin := SemfsPc.inside_of_sets hs
  have hwants : (m.loc u).wants ≠ true := SemfsPc.not_wants_of_sets hs
  refine h.owner.2 ?_
  have hfits := h.fits
  cases hpc : m.pc u with
  | program => exact hin
  | acquiring k =>
    rw [hpc] at hfits
    cases k with
    | program =>
      have hnone := beq_iff_eq.1 (Bool.and_eq_true_iff.1 hfits).2
      rw [hnone] at hs
      cases hs
    | cvWaitEnd => exact absurd hfits hwants
    | _ => cases hfits
  | waitSleep | waitChannel => rw [hpc] at hfits; exact absurd hfits hwants
  | _ => rfl

/-- Every process stands where it can stand, in the call and in the program. -/
structure Placed (m : Sems τ) : Prop where
  thread : ∀ u, ThreadOk m u
  semfs : ∀ u, SemfsOk m u

theorem Placed.create : Placed (semfsSemCreate : Sems τ) :=
  ⟨ThreadOk.create _ _, SemfsOk.create⟩

/-! ## Units are conserved -/

/-- What was taken and what is there is what was added, unless the count was set by hand; and a
    writer with the lock knows the count. -/
structure Conserved (m : Sems τ) : Prop where
  total : m.shared.truncated = false →
    m.shared.consumed + m.shared.sems_count.toNat = m.shared.produced
  pending : ∀ u newcount resid, m.loc u = .writingCount newcount resid →
    newcount.toNat = m.shared.sems_count.toNat + resid.toNat

theorem Conserved.create : Conserved (semfsSemCreate : Sems τ) where
  total := fun _ => rfl
  pending := fun u n r h => by cases h

/-- A process that does not have the lock changes nothing. -/
theorem Runs.outside {sem sem' : SemfsSem} {l l' : SemfsPc} {c : Call} (h : Runs sem l c sem' l')
    (hout : l.inside ≠ true) : sem' = sem := by
  cases h <;> first | rfl | exact absurd rfl hout

/-- While one process is about to set the count, no other changes it. -/
theorem Placed.count_same (h : Placed m) {sem' : SemfsSem} {l' : SemfsPc} {c : Call}
    (hu : (m.loc u).sets.isSome = true) (htu : u ≠ t) (hpc : m.pc t = .program)
    (hrun : Runs m.shared (m.loc t) c sem' l') : sem' = m.shared := by
  refine hrun.outside fun hin => htu ?_
  have hown : m.lock.owner = some t := ((h.semfs t).stands hpc rfl).1.2 hin
  rw [(h.semfs u).owner_of_sets hu] at hown
  exact Option.some.inj hown

/-- A step of the program keeps the sum. -/
theorem Runs.total {sem sem' : SemfsSem} {l l' : SemfsPc} {c : Call} (h : Runs sem l c sem' l')
    (hpending : ∀ newcount resid, l = .writingCount newcount resid →
      newcount.toNat = sem.sems_count.toNat + resid.toNat)
    (htotal : sem.truncated = false → sem.consumed + sem.sems_count.toNat = sem.produced) :
    sem'.truncated = false → sem'.consumed + sem'.sems_count.toNat = sem'.produced := by
  cases h with
  | takes resid hpos hle =>
    intro htr
    have hsub := UInt32.toNat_sub_of_le _ _ hle
    have hle' := UInt32.le_iff_toNat_le.1 hle
    have hold := htotal htr
    show sem.consumed + resid.toNat + (sem.sems_count - resid).toNat = sem.produced
    omega
  | waits resid hlt => exact htotal
  | written newcount resid =>
    intro htr
    have hnew := hpending newcount resid rfl
    have hold := htotal htr
    show sem.consumed + newcount.toNat = sem.produced + resid.toNat
    omega
  | truncated newcount => exact fun htr => by cases htr
  | _ => exact htotal

variable [DecidableEq τ]

theorem SemfsOk.step_self (hm : MonMove semfsProgram m op m') (h : SemfsOk m op.thread) :
    SemfsOk m' op.thread := by
  cases hm with
  | runs t k c shared l hpc hprog =>
    obtain ⟨howner, -⟩ := h.stands (u := t) hpc rfl
    obtain ⟨hholds, hfits⟩ := (runs_semfsProgram hprog).fits
    refine .of_stands (update_self ..) (update_self ..) ?_ hfits
    rw [hholds]
    exact howner
  | looks t c hpc =>
    obtain ⟨howner, hfits⟩ := h.stands (u := t) hpc rfl
    have hown : m.lock.owner = some t := howner.2 rfl
    rw [if_pos hown]
    refine .of_stands (update_self ..) rfl ?_ ?_
    · cases c <;> exact howner
    · cases c <;> exact hfits
  | sleeps t k hpc howned => exact ⟨h.owner, h.fits⟩
  | takes t k hpc hfree hawake =>
    obtain ⟨-, hfits⟩ := h.stands (u := t) hpc rfl
    -- the program itself called `lock_acquire`, or `cv_wait` ends
    have hafter : k.after = .program ∧ (m.loc t).inside = true := by
      cases k with
      | program => exact ⟨rfl, (Bool.and_eq_true_iff.1 hfits).1⟩
      | cvWaitEnd => exact ⟨rfl, SemfsPc.inside_of_wants hfits⟩
      | _ => cases hfits
    rw [hafter.1]
    exact .of_stands (update_self ..) rfl ⟨fun _ => hafter.2, fun _ => rfl⟩ rfl
  | releases t hpc =>
    obtain ⟨-, hfits⟩ := h.stands (u := t) hpc rfl
    have hout : (m.loc t).inside ≠ true := fun hin => by
      rw [Semfs.fits, hin] at hfits
      cases hfits
    have hfree : m.lock.release.owner ≠ some t := fun hown => by cases hown
    exact .of_stands (update_self ..) rfl ⟨(absurd · hfree), (absurd · hout)⟩ rfl
  | waitSpins t hpc hspin | waitSleeps t hpc | waitWakes t hpc hawake hspin =>
    obtain ⟨howner, hfits⟩ := h.stands (u := t) hpc rfl
    exact .of_stands (update_self ..) rfl howner hfits
  | waitLooks t hpc =>
    obtain ⟨howner, hfits⟩ := h.stands (u := t) hpc rfl
    rw [if_pos (howner.2 rfl)]
    exact .of_stands (update_self ..) rfl howner hfits
  | waitReleases t hpc =>
    obtain ⟨-, hfits⟩ := h.stands (u := t) hpc rfl
    have hfree : m.lock.release.owner ≠ some t := fun hown => by cases hown
    exact .of_stands (update_self ..) rfl ⟨(absurd · hfree), fun hh => by cases hh⟩ hfits
  | signals t hpc hspin =>
    obtain ⟨howner, hfits⟩ := h.stands (u := t) hpc rfl
    have hin : (m.loc t).inside = true :=
      SemfsPc.inside_of_sets (by rw [beq_iff_eq.1 hfits]; rfl)
    exact .of_stands (update_self ..) rfl (howner.trans ⟨fun _ => hin, fun _ => rfl⟩) rfl
  | broadcasts t hpc hspin =>
    obtain ⟨howner, hfits⟩ := h.stands (u := t) hpc rfl
    have hin : (m.loc t).inside = true := SemfsPc.inside_of_sets hfits
    exact .of_stands (update_self ..) rfl (howner.trans ⟨fun _ => hin, fun _ => rfl⟩) rfl

theorem Placed.step (h : Placed m) (hm : MonMove semfsProgram m op m') : Placed m' := by
  refine ⟨fun u => ?_, fun u => ?_⟩ <;> by_cases hu : u = op.thread
  · rw [hu]
    exact hm.threadOk_self (h.thread op.thread)
  · exact (h.thread u).frame (hm.sameFor (h.thread op.thread) hu)
  · rw [hu]
    exact (h.semfs op.thread).step_self hm
  · exact (h.semfs u).frame (hm.sameFor (h.thread op.thread) hu)

theorem Conserved.step (h : Conserved m) (hp : Placed m) (hm : MonMove semfsProgram m op m') :
    Conserved m' := by
  cases op with
  | call t =>
    obtain ⟨hshared, hloc⟩ := hm.call_data
    refine ⟨?_, ?_⟩
    · rw [hshared]
      exact h.total
    · rw [hshared, hloc]
      exact h.pending
  | program t k =>
    cases hm with
    | runs _ _ c shared l hpc hprog =>
      have hrun := runs_semfsProgram hprog
      refine ⟨hrun.total (h.pending t) h.total, fun u newcount resid hu => ?_⟩
      by_cases hut : u = t
      · subst hut
        obtain rfl : l = .writingCount newcount resid := by simpa using hu
        generalize m.loc u = l at hrun
        cases hrun with
        | enters result l hin hsets => cases hsets
        | writes resid hfit =>
          have hadd := UInt32.toNat_add m.shared.sems_count resid
          have hle := UInt32.le_iff_toNat_le.1 hfit
          have h1 := m.shared.sems_count.toNat_lt
          have h2 := resid.toNat_lt
          show (m.shared.sems_count + resid).toNat = m.shared.sems_count.toNat + resid.toNat
          omega
      · have hloc : m.loc u = .writingCount newcount resid := by
          simpa only [update_of_ne hut] using hu
        have hsame := hp.count_same (by rw [hloc]; rfl) hut hpc hrun
        show newcount.toNat = shared.sems_count.toNat + resid.toNat
        rw [hsame]
        exact h.pending u newcount resid hloc

theorem Conserved.reaches (h : Reaches SemfsStep semfsSemCreate m) : Conserved m := by
  have hboth : Placed m ∧ Conserved m := h.invariant (P := fun m => Placed m ∧ Conserved m)
    (fun _ _ _ hp hstep => ⟨hp.1.step hstep.move, hp.2.step hp.1 hstep.move⟩)
    ⟨Placed.create, Conserved.create⟩
  exact hboth.2

end DemandPaging.Semfs
