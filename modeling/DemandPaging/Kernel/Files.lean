import DemandPaging.Kernel.Vnodes
import Mathlib.Data.Finset.Prod

set_option autoImplicit false

/-! # Descriptors and open files

An entry of `systemFileTable` should be counted once for every descriptor that leads to it. Three
operations break that: `sys_fork` copies the new process's empty table over the parent's, so that
the parent loses its descriptors and the child gets none; `proc_destroy` does not look at the table;
and a `sys_open` without a free descriptor leaves the entry it has taken. Without them the counts
are right. -/

namespace DemandPaging

open Function (update update_self update_of_ne update_apply)

/-- All descriptors of all processes. -/
def allDescriptors : Finset (Nat × Nat) := Finset.range (MAX_PROC + 1) ×ˢ Finset.range OPEN_MAX

theorem mem_allDescriptors {p fd : Nat} :
    (p, fd) ∈ allDescriptors ↔ p ≤ MAX_PROC ∧ fd < OPEN_MAX := by
  simp only [allDescriptors, Finset.mem_product, Finset.mem_range, Nat.lt_succ_iff]

-- the set is large, and membership in it is not to be computed
attribute [irreducible] allDescriptors

namespace Kernel

variable (k : Kernel)

/-- The entry behind descriptor `fd` of process `p`. -/
def fileOf (p fd : Nat) : Option Nat := (k.procs p).bind fun pr => pr.fileTable fd

/-- The number of descriptors of live processes that lead to entry `i`. -/
def descriptors (i : Nat) : Nat :=
  (allDescriptors.filter fun x => k.fileOf x.1 x.2 = some i).card

/-- Process `p` has no open file. -/
def NoFiles (p : Nat) : Prop := ∀ fd < OPEN_MAX, k.fileOf p fd = none

end Kernel

/-- The counts of open files are right, and an entry is in use exactly when it is counted. -/
structure FilesCounted (k : Kernel) : Prop where
  count : ∀ i < SYSTEM_OPEN_MAX, (k.files i).countRef.toNat = k.descriptors i
  vn : ∀ i < SYSTEM_OPEN_MAX, (k.files i).vn ≠ none ↔ 0 < (k.files i).countRef

/-- Operations that keep the counts: a process that forks or is destroyed has closed its files, and
    one that opens a file has a descriptor left, unless the system table is full. -/
def Tidy (k : Kernel) : KernelOp → Prop
  | .sysOpen p _ =>
    (∃ fd, STDERR_FILENO < fd ∧ fd < OPEN_MAX ∧ k.fileOf p fd = none) ∨
      ∀ i < SYSTEM_OPEN_MAX, (k.files i).vn ≠ none
  | .sysFork p point => point = .procCreate ∨ point = .asCopy ∨ k.NoFiles p
  | .procWait t => ∀ w, k.waits t = some w → k.NoFiles w.pid
  | _ => True

def TidyStep (k : Kernel) (op : KernelOp) (k' : Kernel) : Prop := KernelStep k op k' ∧ Tidy k op

variable {k k' : Kernel} {op : KernelOp} {p fd i : Nat} {pr : ProcStruct}

theorem Kernel.fileOf_some (hp : k.procs p = some pr) : k.fileOf p fd = pr.fileTable fd := by
  simp [Kernel.fileOf, hp]

theorem Kernel.fileOf_none (hp : k.procs p = none) : k.fileOf p fd = none := by
  simp [Kernel.fileOf, hp]

/-! ## Counting descriptors -/

theorem descriptors_congr (h : ∀ p fd, fd < OPEN_MAX → k'.fileOf p fd = k.fileOf p fd) :
    k'.descriptors i = k.descriptors i := by
  unfold Kernel.descriptors
  congr 1
  refine Finset.filter_congr fun ⟨p, fd⟩ hx => ?_
  rw [h p fd (mem_allDescriptors.1 hx).2]

/-- One descriptor changes. -/
theorem descriptors_change (hle : p ≤ MAX_PROC) (hfd : fd < OPEN_MAX)
    (h : ∀ q e, ¬ (q = p ∧ e = fd) → k'.fileOf q e = k.fileOf q e) :
    k'.descriptors i + (if k.fileOf p fd = some i then 1 else 0) =
      k.descriptors i + if k'.fileOf p fd = some i then 1 else 0 := by
  have hmem : (p, fd) ∈ allDescriptors := mem_allDescriptors.2 ⟨hle, hfd⟩
  refine card_filter_change (fun x => k.fileOf x.1 x.2 = some i)
    (fun x => k'.fileOf x.1 x.2 = some i) hmem fun x _ hx => ?_
  rw [h x.1 x.2 fun heq => hx (Prod.ext heq.1 heq.2)]

/-- A descriptor that leads to an entry is counted there. -/
theorem descriptors_pos (hle : p ≤ MAX_PROC) (hfd : fd < OPEN_MAX) (h : k.fileOf p fd = some i) :
    0 < k.descriptors i := by
  have hmem : (p, fd) ∈ allDescriptors := mem_allDescriptors.2 ⟨hle, hfd⟩
  exact Finset.card_pos.2 ⟨(p, fd), Finset.mem_filter.2 ⟨hmem, h⟩⟩

theorem fileOf_update {procs : Nat → Option ProcStruct} {pr' : ProcStruct}
    (hk : k.procs = procs) (hp : procs p = some pr)
    (hprocs : k'.procs = update procs p (some pr'))
    (htable : ∀ fd < OPEN_MAX, pr'.fileTable fd = pr.fileTable fd) (q fd : Nat)
    (hfd : fd < OPEN_MAX) : k'.fileOf q fd = k.fileOf q fd := by
  subst hk
  by_cases hq : q = p
  · subst hq
    rw [Kernel.fileOf_some hp, Kernel.fileOf_some (by rw [hprocs, update_self])]
    exact htable fd hfd
  · simp only [Kernel.fileOf, hprocs, update_of_ne hq]

/-! ## One step -/

/-- The counts are right, and descriptors lead into the system table. -/
structure FileInv (k : Kernel) : Prop where
  slots : SlotInv k
  bound : ∀ p fd i, fd < OPEN_MAX → k.fileOf p fd = some i → i < SYSTEM_OPEN_MAX
  counted : FilesCounted k

/-- Nothing happens to descriptors and open files. -/
theorem FileInv.congr (h : FileInv k) (hslots : SlotInv k') (hfiles : k'.files = k.files)
    (hfile : ∀ p fd, fd < OPEN_MAX → k'.fileOf p fd = k.fileOf p fd) : FileInv k' where
  slots := hslots
  bound := fun p fd i hfd hi => h.bound p fd i hfd (hfile p fd hfd ▸ hi)
  counted :=
    { count := fun i hi => by rw [hfiles, h.counted.count i hi, descriptors_congr hfile]
      vn := fun i hi => by rw [hfiles]; exact h.counted.vn i hi }

/-- The structure of one process changes, but not its descriptors. -/
theorem FileInv.update {pr' : ProcStruct} (h : FileInv k) (hslots : SlotInv k')
    (hfiles : k'.files = k.files) (hp : k.procs p = some pr)
    (hprocs : k'.procs = Function.update k.procs p (some pr'))
    (htable : ∀ fd < OPEN_MAX, pr'.fileTable fd = pr.fileTable fd) : FileInv k' :=
  h.congr hslots hfiles (fileOf_update rfl hp hprocs htable)

/-- An entry without a vnode has no descriptor. -/
theorem FileInv.unused (h : FileInv k) (hi : i < SYSTEM_OPEN_MAX) (hvn : (k.files i).vn = none) :
    k.descriptors i = 0 := by
  have hzero : ¬ 0 < (k.files i).countRef := fun hpos => (h.counted.vn i hi).2 hpos hvn
  have hcount := h.counted.count i hi
  rw [UInt32.lt_iff_toNat_lt] at hzero
  simp only [UInt32.toNat_zero] at hzero
  omega

theorem freeOpenfile_some (h : Kernel.freeOpenfile k.files = some i) :
    i < SYSTEM_OPEN_MAX ∧ (k.files i).vn = none := by
  obtain ⟨hlt, hvn, -⟩ := search_some h
  exact ⟨hlt, by simpa using hvn⟩

theorem freeDescriptor_some {fileTable : Nat → Option Nat}
    (h : Kernel.freeDescriptor fileTable = some fd) : fd < OPEN_MAX ∧ fileTable fd = none := by
  obtain ⟨h1, h2, hfree, -⟩ := searchFrom_some h
  have hsum : STDERR_FILENO + 1 + (OPEN_MAX - (STDERR_FILENO + 1)) = OPEN_MAX := by decide
  exact ⟨hsum ▸ h2, by simpa using hfree⟩

theorem freeDescriptor_none {fileTable : Nat → Option Nat}
    (h : Kernel.freeDescriptor fileTable = none) (h1 : STDERR_FILENO < fd) (h2 : fd < OPEN_MAX) :
    fileTable fd ≠ none := by
  have hsum : STDERR_FILENO + 1 + (OPEN_MAX - (STDERR_FILENO + 1)) = OPEN_MAX := by decide
  have hused := searchFrom_none h fd h1 (hsum.symm ▸ h2)
  intro hfree
  simp [hfree] at hused

/-- One descriptor of one process is set to `of`. -/
theorem fileOf_set {of : Option Nat} (hp : k.procs p = some pr)
    (hprocs : k'.procs = update k.procs p
      (some { pr with fileTable := update pr.fileTable fd of })) (q e : Nat) :
    k'.fileOf q e = if q = p ∧ e = fd then of else k.fileOf q e := by
  by_cases hq : q = p
  · subst hq
    rw [Kernel.fileOf_some (by rw [hprocs, update_self]), Kernel.fileOf_some hp]
    simp only [update_apply, true_and]
  · simp only [Kernel.fileOf, hprocs, update_of_ne hq, hq, false_and, if_false]

theorem FileInv.opens {v : Nat} (h : FileInv k) (hslots : SlotInv k') (hp : k.procs p = some pr)
    (hi : Kernel.freeOpenfile k.files = some i)
    (hfd : Kernel.freeDescriptor pr.fileTable = some fd)
    (hfiles : k'.files = Function.update k.files i ⟨some v, 0, 1⟩)
    (hprocs : k'.procs = Function.update k.procs p
      (some { pr with fileTable := Function.update pr.fileTable fd (some i) })) : FileInv k' := by
  obtain ⟨hilt, hvn⟩ := freeOpenfile_some hi
  obtain ⟨hfdlt, hfree⟩ := freeDescriptor_some hfd
  have hset := fileOf_set hp hprocs
  have hold : k.fileOf p fd = none := by rw [Kernel.fileOf_some hp, hfree]
  have hnew : k'.fileOf p fd = some i := by rw [hset, if_pos ⟨rfl, rfl⟩]
  have hchange : ∀ j, k'.descriptors j = k.descriptors j + if j = i then 1 else 0 := by
    intro j
    have hc : k'.descriptors j + (if k.fileOf p fd = some j then 1 else 0) =
        k.descriptors j + if k'.fileOf p fd = some j then 1 else 0 :=
      descriptors_change (h.slots.range p pr hp).2 hfdlt fun q e hne => by rw [hset, if_neg hne]
    simp only [hold, hnew, Option.some.injEq, reduceCtorEq, if_false, eq_comm (a := i)] at hc
    exact hc
  refine ⟨hslots, ?_, ?_, ?_⟩
  · intro q e j he hj
    rw [hset] at hj
    split at hj
    · exact Option.some.inj hj ▸ hilt
    · exact h.bound q e j he hj
  · intro j hj
    rw [hfiles, hchange]
    by_cases hji : j = i
    · rw [hji, Function.update_self, if_pos rfl, h.unused hilt hvn]
      rfl
    · rw [Function.update_of_ne hji, if_neg hji, h.counted.count j hj]
      rfl
  · intro j hj
    rw [hfiles]
    by_cases hji : j = i
    · rw [hji, Function.update_self]
      simp
    · rw [Function.update_of_ne hji]
      exact h.counted.vn j hj

theorem FileInv.closes {of : Openfile} (h : FileInv k) (hslots : SlotInv k')
    (hp : k.procs p = some pr) (hfd : fd < OPEN_MAX) (hi : pr.fileTable fd = some i)
    (hcount : of.countRef = (k.files i).countRef - 1)
    (hvn : of.vn = if 0 < of.countRef then (k.files i).vn else none)
    (hfiles : k'.files = Function.update k.files i of)
    (hprocs : k'.procs = Function.update k.procs p
      (some { pr with fileTable := Function.update pr.fileTable fd none })) : FileInv k' := by
  have hset := fileOf_set hp hprocs
  have hle := (h.slots.range p pr hp).2
  have hold : k.fileOf p fd = some i := by rw [Kernel.fileOf_some hp, hi]
  have hnew : k'.fileOf p fd = none := by rw [hset, if_pos ⟨rfl, rfl⟩]
  have hilt := h.bound p fd i hfd hold
  have hchange : ∀ j, k'.descriptors j + (if j = i then 1 else 0) = k.descriptors j := by
    intro j
    have hc : k'.descriptors j + (if k.fileOf p fd = some j then 1 else 0) =
        k.descriptors j + if k'.fileOf p fd = some j then 1 else 0 :=
      descriptors_change hle hfd fun q e hne => by rw [hset, if_neg hne]
    simp only [hold, hnew, Option.some.injEq, reduceCtorEq, if_false, eq_comm (a := i)] at hc
    exact hc
  -- the descriptor that is closed has been counted
  have hpos : 1 ≤ (k.files i).countRef.toNat := by
    rw [h.counted.count i hilt]
    exact descriptors_pos hle hfd hold
  have hone : (1 : UInt32) ≤ (k.files i).countRef := UInt32.le_iff_toNat_le.2 hpos
  have hsub : of.countRef.toNat = (k.files i).countRef.toNat - 1 := by
    rw [hcount, UInt32.toNat_sub_of_le _ _ hone]
    rfl
  refine ⟨hslots, ?_, ?_, ?_⟩
  · intro q e j he hj
    rw [hset] at hj
    split at hj
    · cases hj
    · exact h.bound q e j he hj
  · intro j hj
    have hc := hchange j
    have hcounted := h.counted.count j hj
    rw [hfiles]
    by_cases hji : j = i
    · rw [if_pos hji] at hc
      rw [hji, Function.update_self, hsub]
      rw [hji] at hc hcounted
      omega
    · rw [if_neg hji] at hc
      rw [Function.update_of_ne hji]
      omega
  · intro j hj
    rw [hfiles]
    by_cases hji : j = i
    · rw [hji, Function.update_self, hvn]
      by_cases hleft : 0 < of.countRef
      · have hused : 0 < (k.files i).countRef := UInt32.lt_iff_toNat_lt.2 hpos
        simp only [hleft, if_true, iff_true]
        exact (h.counted.vn i hilt).2 hused
      · simp [hleft]
    · rw [Function.update_of_ne hji]
      exact h.counted.vn j hj

/-- Emptying an empty table changes nothing. -/
theorem cleared_eq (h : k.NoFiles p) (hp : k.procs p = some pr) (hfd : fd < OPEN_MAX) :
    cleared pr.fileTable fd = pr.fileTable fd := by
  have hnone := h fd hfd
  rw [Kernel.fileOf_some hp] at hnone
  rw [hnone, cleared, if_pos hfd]

theorem not_openFails (hp : k.procs p = some pr) (hi : Kernel.freeOpenfile k.files = some i)
    (hfd : Kernel.freeDescriptor pr.fileTable = none) (opened : Option Nat) :
    ¬ Tidy k (.sysOpen p opened) := by
  rintro (⟨fd, h1, h2, hfree⟩ | hfull)
  · rw [Kernel.fileOf_some hp] at hfree
    exact freeDescriptor_none hfd h1 h2 hfree
  · obtain ⟨hlt, hvn⟩ := freeOpenfile_some hi
    exact hfull i hlt hvn

theorem tidyStep_inv (k : Kernel) (op : KernelOp) (k' : Kernel) (h : FileInv k)
    (hstep : TidyStep k op k') : FileInv k' := by
  have heff := kernelStep_effect h.slots hstep.1
  have hslots := heff.slotInv h.slots
  have htidy := hstep.2
  cases heff with
  | same => exact h
  | scrap _ | waits _ _ => exact h.congr hslots rfl fun _ _ _ => rfl
  | @launch newp _ hnew _ =>
    refine h.congr hslots rfl fun q e _ => ?_
    by_cases hq : q = newp
    · rw [hq, Kernel.fileOf_none hnew.unused, Kernel.fileOf_some (update_self ..)]
      rfl
    · simp only [Kernel.fileOf, update_of_ne hq]
  | noSpace hp _ | loadFails hp _ _ _ | loads hp _ _ _ | exits hp _ | sleeps _ hp _ _
  | takes _ hp _ _ => exact h.update hslots rfl hp rfl fun _ _ => rfl
  | opens hp hi hfd => exact h.opens hslots hp hi hfd rfl rfl
  | openFails hp hi hfd => exact absurd htidy (not_openFails hp hi hfd _)
  | closes hp hfd hi hcount hvn => exact h.closes hslots hp hfd hi hcount hvn rfl rfl
  | @forks p newp pr _ _ _ hp _ _ hnew _ =>
    have hempty : k.NoFiles p := by simpa [Tidy] using htidy
    refine h.congr hslots rfl fun q e he => ?_
    by_cases hq : q = newp
    · rw [hq, Kernel.fileOf_none hnew.unused, Kernel.fileOf_some (update_self ..)]
      rfl
    · have hmid : Kernel.fileOf (k.setProc p { pr with fileTable := cleared pr.fileTable }) q e =
          k.fileOf q e :=
        fileOf_update rfl hp rfl (fun fd hfd => cleared_eq hempty hp hfd) q e he
      rw [← hmid]
      simp only [Kernel.fileOf, update_of_ne hq, Kernel.setProc_procs]
  | @forkFails p pr _ _ _ _ point hp hpoint _ _ _ _ =>
    have hempty : k.NoFiles p := by
      rcases hpoint with rfl | rfl <;> simpa [Tidy] using htidy
    exact h.update hslots rfl hp rfl fun fd hfd => cleared_eq hempty hp hfd
  | @reaps t w pr _ _ hw hp _ _ _ _ _ =>
    have hempty : k.NoFiles w.pid := htidy w hw
    refine h.congr hslots rfl fun q e he => ?_
    by_cases hq : q = w.pid
    · rw [hq, hempty e he, Kernel.fileOf_none (update_self ..)]
    · simp only [Kernel.fileOf, update_of_ne hq]

/-! ## Every run -/

theorem boot_fileOf (p fd : Nat) : Kernel.boot.fileOf p fd = none := by
  by_cases hp : p = KPROC
  · simp [Kernel.fileOf, Kernel.boot, hp]
  · simp [Kernel.fileOf, Kernel.boot, update_of_ne hp]

theorem boot_fileInv : FileInv Kernel.boot where
  slots := boot_slotInv
  bound := by
    intro p fd i _ hi
    rw [boot_fileOf] at hi
    cases hi
  counted :=
    { count := by
        intro i _
        have hnone : ∀ x ∈ allDescriptors, ¬ Kernel.boot.fileOf x.1 x.2 = some i := by
          intro x _
          simp [boot_fileOf]
        rw [Kernel.descriptors, Finset.filter_false_of_mem hnone]
        rfl
      vn := fun i _ => by simp [Kernel.boot] }

/-- In every run in which processes close their files before they fork and before they are reaped,
    and open files only with a descriptor left, the counts of open files are right. -/
theorem tidy_filesCounted (h : Reaches TidyStep Kernel.boot k) : FilesCounted k :=
  (h.invariant tidyStep_inv boot_fileInv).counted

/-- A program opens files 8 and 9 and closes the first. -/
def openTwoCloseOne : List KernelOp :=
  [.commonProg .done, .runprogram 2 (some smallExe), .sysOpen 2 (some 8),
    .sysOpen 2 (some 9), .sysClose 2 3]

theorem openTwoCloseOne_counted : ∃ k, Reaches TidyStep Kernel.boot k ∧
    (k.files 1).vn = some 9 ∧ FilesCounted k := by
  -- descriptor 5 stays free all the time
  let next (k : Kernel) (op : KernelOp) := if k.fileOf 2 5 = none then k.next op else none
  have hstep : ∀ k k' op, op ∈ openTwoCloseOne → next k op = some k' → TidyStep k op k' := by
    intro k k' op hop hnext
    have hfree : k.fileOf 2 5 = none := by
      by_contra hne
      simp [next, hne] at hnext
    have hk : k.next op = some k' := by simpa [next, hfree] using hnext
    refine ⟨Kernel.next_step hk, ?_⟩
    simp only [openTwoCloseOne, List.mem_cons, List.not_mem_nil, or_false] at hop
    rcases hop with rfl | rfl | rfl | rfl | rfl
    · trivial
    · trivial
    · exact .inl ⟨5, by decide, by decide, hfree⟩
    · exact .inl ⟨5, by decide, by decide, hfree⟩
    · trivial
  have hreplay : (replay next Kernel.boot openTwoCloseOne).map (fun k => (k.files 1).vn == some 9) =
      some true := by decide +kernel
  obtain ⟨k, hreach, hk⟩ := exists_reaches_of_replay hstep hreplay
  exact ⟨k, hreach, by simpa using hk, tidy_filesCounted hreach⟩

/-- A program opens file 8 and forks. -/
def openAndFork : List KernelOp :=
  [.commonProg .done, .runprogram 2 (some smallExe), .sysOpen 2 (some 8),
    .sysFork 2 .done]

/-- A program opens file 8, ends and is reaped by the menu. -/
def openAndExit : List KernelOp :=
  [.commonProg .done, .runprogram 2 (some smallExe), .sysOpen 2 (some 8),
    .sysExit 2 0, .semP KPROC, .procWait KPROC]

/-- No descriptor leads to entry `i`: a test that looks at the processes only that exist. -/
def Kernel.unreferenced (k : Kernel) (i : Nat) : Bool :=
  (List.range (MAX_PROC + 1)).all fun p => (k.procs p).all fun pr =>
    (List.range OPEN_MAX).all fun fd => pr.fileTable fd != some i

theorem descriptors_eq_zero (h : k.unreferenced i = true) : k.descriptors i = 0 := by
  refine Finset.card_eq_zero.2 (Finset.filter_false_of_mem fun ⟨p, fd⟩ hx hfile => ?_)
  obtain ⟨hp, hfd⟩ := mem_allDescriptors.1 hx
  obtain ⟨pr, hpr, htable⟩ := Option.bind_eq_some_iff.1 hfile
  have hall := List.all_eq_true.1 h p (List.mem_range.2 (by omega))
  rw [hpr] at hall
  have hne := List.all_eq_true.1 hall fd (List.mem_range.2 hfd)
  simp [htable] at hne

/-- Entry `i` is in use, but no descriptor leads to it. -/
def Kernel.Leaks (k : Kernel) (i : Nat) : Prop :=
  (k.files i).countRef = 1 ∧ (k.files i).vn ≠ none ∧ k.descriptors i = 0

theorem leaks_of_replay {ops : List KernelOp} {alive : Bool}
    (hreplay : (replay Kernel.next Kernel.boot ops).map (fun k => (k.files 0).countRef == 1 &&
      ((k.files 0).vn != none && (k.unreferenced 0 && (k.procs 2).isSome == alive))) = some true) :
    ∃ k, Reaches KernelStep Kernel.boot k ∧ k.Leaks 0 ∧ (k.procs 2).isSome = alive := by
  obtain ⟨k, hreach, hk⟩ := Kernel.reaches_of_replay hreplay
  simp only [Bool.and_eq_true, beq_iff_eq, bne_iff_ne] at hk
  exact ⟨k, hreach, ⟨hk.1, hk.2.1, descriptors_eq_zero hk.2.2.1⟩, hk.2.2.2⟩

/-- The process that opened the file has forked, or it has ended and is gone. -/
theorem open_file_leaks :
    (∃ k, Reaches KernelStep Kernel.boot k ∧ k.Leaks 0 ∧ (k.procs 2).isSome = true) ∧
      ∃ k, Reaches KernelStep Kernel.boot k ∧ k.Leaks 0 ∧ (k.procs 2).isSome = false := by
  have hfork : (replay Kernel.next Kernel.boot openAndFork).map (fun k =>
      (k.files 0).countRef == 1 && ((k.files 0).vn != none &&
        (k.unreferenced 0 && (k.procs 2).isSome == true))) = some true := by decide +kernel
  have hexit : (replay Kernel.next Kernel.boot openAndExit).map (fun k =>
      (k.files 0).countRef == 1 && ((k.files 0).vn != none &&
        (k.unreferenced 0 && (k.procs 2).isSome == false))) = some true := by decide +kernel
  exact ⟨leaks_of_replay hfork, leaks_of_replay hexit⟩

/-! ## What a fork does to the descriptors -/

/-- The child has the parent's descriptors, the parent keeps its own, and each open file is counted
    once more for every descriptor through which the parent has it. -/
structure ForkShares (k k' : Kernel) (p newp : Nat) : Prop where
  child : ∀ fd < OPEN_MAX, k'.fileOf newp fd = k.fileOf p fd
  parent : ∀ fd < OPEN_MAX, k'.fileOf p fd = k.fileOf p fd
  count : ∀ i, (k'.files i).countRef.toNat = (k.files i).countRef.toNat +
    ((Finset.range OPEN_MAX).filter fun fd => k.fileOf p fd = some i).card

variable {newp : Nat}

/-- After a fork both tables are empty. -/
theorem sysFork_files (h : SlotInv k) (hx : k.sysFork p .done = .ok (k', .ok newp)) :
    k'.files = k.files ∧ ∀ fd < OPEN_MAX, k'.fileOf newp fd = none ∧ k'.fileOf p fd = none := by
  simp only [Kernel.sysFork, bind_eq_ok, Kernel.proc_eq_ok] at hx
  obtain ⟨pr, hp, hx⟩ := hx
  simp only [Kernel.forkCopy, bind_eq_ok] at hx
  obtain ⟨⟨k₁, n⟩, hc, hx⟩ := hx
  obtain ⟨hnew, -, table, -, rfl⟩ := Kernel.procCreateRunprogram_ok h hc
  cases has : pr.p_addrspace with
  | none =>
    simp only [has] at hx
    exact absurd hx throw_ne_ok
  | some as =>
    simp only [has, bind_eq_ok] at hx
    obtain ⟨as', -, hx⟩ := hx
    rw [Kernel.forkCopied_eq hnew hp] at hx
    obtain ⟨c, hc, hret⟩ := bind_eq_ok.1 hx
    obtain ⟨rfl, hn⟩ := Prod.mk.inj (pure_eq_ok.1 hret)
    obtain rfl := Except.ok.inj hn
    have hchild : (k.forked table p n pr as').procs n =
        some { Kernel.freshProc k.fresh with p_addrspace := some as' } :=
      Kernel.forked_child hnew hp
    obtain rfl := Option.some.inj (hchild.symm.trans (Kernel.proc_eq_ok.1 hc))
    refine ⟨rfl, fun fd hfd => ⟨?_, ?_⟩⟩
    · rw [Kernel.fileOf_some (update_self ..)]
      rfl
    · have hparent : ((k.forked table p n pr as').procAddthread n
          { Kernel.freshProc k.fresh with p_addrspace := some as' }).procs p =
          some { pr with fileTable := cleared pr.fileTable } := by
        simp [Kernel.procAddthread, Kernel.forked, update_of_ne (hnew.ne hp).symm]
      rw [Kernel.fileOf_some hparent]
      exact if_pos hfd

/-- `sys_fork` shares the parent's descriptors with the child exactly when there are none. -/
theorem forkShares_iff (h : SlotInv k) (hx : k.sysFork p .done = .ok (k', .ok newp)) :
    ForkShares k k' p newp ↔ k.NoFiles p := by
  obtain ⟨hfiles, hempty⟩ := sysFork_files h hx
  constructor
  · intro hshares fd hfd
    rw [← hshares.child fd hfd]
    exact (hempty fd hfd).1
  · intro hnone
    refine ⟨fun fd hfd => ?_, fun fd hfd => ?_, fun i => ?_⟩
    · rw [(hempty fd hfd).1, hnone fd hfd]
    · rw [(hempty fd hfd).2, hnone fd hfd]
    · have hno : ∀ fd ∈ Finset.range OPEN_MAX, ¬ k.fileOf p fd = some i := by
        intro fd hfd heq
        rw [hnone fd (Finset.mem_range.1 hfd)] at heq
        cases heq
      rw [hfiles, Finset.filter_false_of_mem hno]
      rfl

/-- A program that has just started. -/
def justStarted : List KernelOp :=
  [.commonProg .done, .runprogram 2 (some smallExe)]

/-- The child of a fork, if there is one. -/
def Kernel.forkedChild (k : Kernel) (p : Nat) : Option Nat :=
  match k.sysFork p .done with
  | .ok (_, .ok newp) => some newp
  | _ => none

theorem forkedChild_eq {n : Nat} (h : k.forkedChild p = some n) :
    ∃ k', k.sysFork p .done = .ok (k', .ok n) := by
  unfold Kernel.forkedChild at h
  split at h
  · next k' newp hx =>
    obtain rfl := Option.some.inj h
    exact ⟨k', hx⟩
  · cases h

theorem forkShares_justStarted : ∃ k k', Reaches KernelStep Kernel.boot k ∧
    k.sysFork 2 .done = .ok (k', .ok 3) ∧ k.NoFiles 2 ∧ ForkShares k k' 2 3 := by
  have hreplay : (replay Kernel.next Kernel.boot justStarted).map (fun k =>
      k.forkedChild 2 == some 3 && (List.range OPEN_MAX).all fun fd => k.fileOf 2 fd == none) =
      some true := by decide +kernel
  obtain ⟨k, hreach, hk⟩ := Kernel.reaches_of_replay hreplay
  simp only [Bool.and_eq_true, beq_iff_eq, List.all_eq_true, List.mem_range] at hk
  obtain ⟨k', hfork⟩ := forkedChild_eq hk.1
  exact ⟨k, k', hreach, hfork, hk.2, (forkShares_iff (reaches_slotInv hreach) hfork).2 hk.2⟩

/-- A program that has opened a file. -/
def oneOpened : List KernelOp := justStarted ++ [.sysOpen 2 (some 8)]

/-- After the fork neither the parent nor the child has the file. -/
theorem fork_drops_descriptor : ∃ k k', Reaches KernelStep Kernel.boot k ∧
    k.sysFork 2 .done = .ok (k', .ok 3) ∧ k.fileOf 2 3 = some 0 ∧ k'.fileOf 2 3 = none ∧
    k'.fileOf 3 3 = none ∧ ¬ ForkShares k k' 2 3 := by
  have hreplay : (replay Kernel.next Kernel.boot oneOpened).map (fun k =>
      k.forkedChild 2 == some 3 && k.fileOf 2 3 == some 0) = some true := by decide +kernel
  obtain ⟨k, hreach, hk⟩ := Kernel.reaches_of_replay hreplay
  simp only [Bool.and_eq_true, beq_iff_eq] at hk
  obtain ⟨k', hfork⟩ := forkedChild_eq hk.1
  have hthree : 3 < OPEN_MAX := by decide
  obtain ⟨hchild, hparent⟩ := (sysFork_files (reaches_slotInv hreach) hfork).2 3 hthree
  refine ⟨k, k', hreach, hfork, hk.2, hparent, hchild, fun hshares => ?_⟩
  have hsame := hshares.parent 3 hthree
  rw [hparent, hk.2] at hsame
  cases hsame

end DemandPaging
