import DemandPaging.Kernel.Files
import DemandPaging.Syscall

set_option autoImplicit false

/-! # `sys_open` and its failures

`sys_open` takes a reference to a vnode, an entry of `systemFileTable` and a descriptor, in this
order, and each of the three can fail (`file_syscalls.c`, `vfspath.c`). `vfs_open` gives back what
it has taken when it fails half-way, so for `sys_open` it is either a vnode with one reference more,
or nothing at all. `sys_open` gives the reference back when it fails later on, and forgets the entry
of `systemFileTable` it has filled. -/

namespace DemandPaging

open Function (update update_self update_of_ne)

/-! ## `vfs_open` -/

def O_TRUNC : UInt32 := 16

/-- What `vfs_open` meets on its way. The look-ups return a vnode with a reference for the caller;
    in the other fields `none` is the C result 0. -/
structure VfsEnv where
  vfs_lookparent : Except Errno Nat
  vop_creat : Except Errno Nat
  vfs_lookup : Except Errno Nat
  vop_eachopen : Option Errno
  vop_truncate : Option Errno

/-- The counts behind a look-up. -/
def lookedUp (vnodes : Nat → Nat) : Except Errno Nat → Nat → Nat
  | .error _ => vnodes
  | .ok v => vfsOpen vnodes v

/-- The first half of `vfs_open`: the vnode of the path, created if it has to be. -/
def vfsFind (vnodes : Nat → Nat) (openflags : UInt32) (env : VfsEnv) :
    Except Crash ((Nat → Nat) × Except Errno Nat) :=
  if openflags &&& Syscall.World.O_CREAT ≠ 0 then
    match env.vfs_lookparent with
    | .error e => return (vnodes, .error e)
    | .ok dir => do
        let vnodes := lookedUp (vfsOpen vnodes dir) env.vop_creat
        -- `VOP_DECREF(dir)`
        let vnodes ← vfsClose vnodes dir
        return (vnodes, env.vop_creat)
  else return (lookedUp vnodes env.vfs_lookup, env.vfs_lookup)

/-- `vfs_open`: the reference counts after the call, and its result. -/
def vfsOpenPath (vnodes : Nat → Nat) (openflags : UInt32) (env : VfsEnv) :
    Except Crash ((Nat → Nat) × Except Errno Nat) := do
  let how := openflags &&& Syscall.World.O_ACCMODE
  if how = 3 then return (vnodes, .error .EINVAL)
  else
    match ← vfsFind vnodes openflags env with
    | (vnodes, .error e) => return (vnodes, .error e)
    | (vnodes, .ok vn) =>
      -- `VOP_EACHOPEN` comes first
      let truncated :=
        if openflags &&& O_TRUNC = 0 then none
        else if how = 0 then some .EINVAL
        else env.vop_truncate
      match env.vop_eachopen.or truncated with
      | none => return (vnodes, .ok vn)
      | some e =>
        let vnodes ← vfsClose vnodes vn
        return (vnodes, .error e)

theorem vfsFind_spec (vnodes : Nat → Nat) (openflags : UInt32) (env : VfsEnv) :
    ∃ r, vfsFind vnodes openflags env = .ok (lookedUp vnodes r, r) := by
  unfold vfsFind
  split
  · cases env.vfs_lookparent with
    | error e => exact ⟨.error e, rfl⟩
    | ok dir =>
      refine ⟨env.vop_creat, ?_⟩
      cases env.vop_creat with
      | error e => simp [lookedUp, vfsClose_vfsOpen, bind, Except.bind, pure, Except.pure]
      | ok v =>
        -- the file and its directory may be the same vnode for all that is known here
        have hclose :
            vfsClose (vfsOpen (vfsOpen vnodes dir) v) dir = .ok (vfsOpen vnodes v) := by
          rw [vfsClose_eq_ok]
          simp only [vfsOpen]
          by_cases hdir : dir = v
          · subst hdir
            simp
          · simp only [update_of_ne hdir, update_self]
            refine ⟨by omega, ?_⟩
            funext u
            by_cases hu : u = dir
            · subst hu
              simp [hdir]
            · by_cases hv : u = v
              · subst hv
                simp [hu]
              · simp [hu, hv]
        simp [lookedUp, hclose, bind, Except.bind, pure, Except.pure]
  · exact ⟨env.vfs_lookup, rfl⟩

/-- `vfs_open` returns a vnode with one more reference, or an error with the counts as before. -/
theorem vfsOpenPath_spec (vnodes : Nat → Nat) (openflags : UInt32) (env : VfsEnv) :
    ∃ r, vfsOpenPath vnodes openflags env = .ok (lookedUp vnodes r, r) := by
  unfold vfsOpenPath
  dsimp only
  split
  · exact ⟨.error .EINVAL, rfl⟩
  · obtain ⟨r, hr⟩ := vfsFind_spec vnodes openflags env
    rw [hr]
    cases r with
    | error e => exact ⟨.error e, rfl⟩
    | ok vn =>
      simp only [bind, Except.bind]
      split
      · exact ⟨.ok vn, rfl⟩
      · next e _ =>
        refine ⟨.error e, ?_⟩
        simp only [lookedUp, vfsClose_vfsOpen]
        rfl

/-! ## `sys_open` -/

namespace Kernel

/-- The state behind a call of `sys_open` in process `p` that returns `r`: all as before if it is
    an error, and otherwise one descriptor that was free leads to one entry that was free. -/
def Opened (k : Kernel) (p : Nat) (pr : ProcStruct) (opened : Option Nat) (k' : Kernel) :
    Except Errno Nat → Prop
  | .error _ => k' = k
  | .ok fd => STDERR_FILENO < fd ∧ fd < OPEN_MAX ∧ pr.fileTable fd = none ∧
      ∃ v i, opened = some v ∧ i < SYSTEM_OPEN_MAX ∧ (k.files i).vn = none ∧
        k' = { k.setProc p { pr with fileTable := update pr.fileTable fd (some i) } with
          vnodes := vfsOpen k.vnodes v
          files := update k.files i ⟨some v, 0, 1⟩ }

/-- The call returns, and fails only as a whole. -/
def OpensAtomically (k : Kernel) (p : Nat) (pr : ProcStruct) (opened : Option Nat) : Prop :=
  ∃ k' r, k.sysOpen p opened = .ok (k', r) ∧ k.Opened p pr opened k' r

/-- The file is there and the system has room for it, but the process has no descriptor left. -/
def LacksDescriptor (k : Kernel) (pr : ProcStruct) (opened : Option Nat) : Prop :=
  opened ≠ none ∧ (∃ i < SYSTEM_OPEN_MAX, (k.files i).vn = none) ∧
    ∀ fd, STDERR_FILENO < fd → fd < OPEN_MAX → pr.fileTable fd ≠ none

end Kernel

variable {k : Kernel} {p : Nat} {pr : ProcStruct}

open Kernel

theorem freeOpenfile_eq_none : freeOpenfile k.files = none ↔
    ∀ i < SYSTEM_OPEN_MAX, (k.files i).vn ≠ none := by
  unfold freeOpenfile
  rw [search_eq_none]
  refine forall₂_congr fun i _ => ?_
  cases (k.files i).vn <;> simp

theorem freeDescriptor_pos {fileTable : Nat → Option Nat} {fd : Nat}
    (h : freeDescriptor fileTable = some fd) : STDERR_FILENO < fd := (searchFrom_some h).1

/-- What `sys_open` does, for each way it can go. -/
theorem sysOpen_none (hp : k.procs p = some pr) : k.sysOpen p none = .ok (k, .error .ENOENT) := by
  simp only [sysOpen, proc, hp, bind, Except.bind]
  rfl

theorem sysOpen_full {v : Nat} (hp : k.procs p = some pr) (hfull : freeOpenfile k.files = none) :
    k.sysOpen p (some v) = .ok (k, .error .ENFILE) := by
  simp only [sysOpen, proc, hp, hfull, vfsClose_vfsOpen, bind, Except.bind]
  rfl

theorem sysOpen_ok {v i fd : Nat} (hp : k.procs p = some pr) (hi : freeOpenfile k.files = some i)
    (hfd : freeDescriptor pr.fileTable = some fd) :
    k.sysOpen p (some v) =
      .ok ({ k.setProc p { pr with fileTable := update pr.fileTable fd (some i) } with
        vnodes := vfsOpen k.vnodes v
        files := update k.files i ⟨some v, 0, 1⟩ }, .ok fd) := by
  simp only [sysOpen, proc, hp, hi, hfd, bind, Except.bind]
  rfl

/-- The entry keeps the vnode that has been closed. -/
theorem sysOpen_lost {v i : Nat} (hp : k.procs p = some pr) (hi : freeOpenfile k.files = some i)
    (hfd : freeDescriptor pr.fileTable = none) :
    k.sysOpen p (some v) =
      .ok ({ k with files := update k.files i ⟨some v, 0, 1⟩ }, .error .EMFILE) := by
  simp only [sysOpen, proc, hp, hi, hfd, vfsClose_vfsOpen, bind, Except.bind]
  rfl

/-- The entry was free before the call, and is not afterwards. -/
theorem not_opensAtomically {v i : Nat} (hp : k.procs p = some pr)
    (hi : freeOpenfile k.files = some i) (hfd : freeDescriptor pr.fileTable = none) :
    ¬ k.OpensAtomically p pr (some v) := by
  rintro ⟨k', r, hopen, hspec⟩
  rw [sysOpen_lost hp hi hfd] at hopen
  cases hopen
  have hentry : update k.files i ⟨some v, 0, 1⟩ i = k.files i :=
    congrFun (congrArg Kernel.files hspec) i
  rw [update_self] at hentry
  have hnone := (freeOpenfile_some hi).2
  rw [← hentry] at hnone
  cases hnone

/-- `sys_open` fails as a whole or succeeds, unless it is the descriptor that is missing. -/
theorem sysOpen_atomic_iff (hp : k.procs p = some pr) (opened : Option Nat) :
    k.OpensAtomically p pr opened ↔ ¬ k.LacksDescriptor pr opened := by
  constructor
  · rintro hatomic ⟨hsome, ⟨j, hj, hvn⟩, hused⟩
    obtain ⟨v, rfl⟩ := Option.ne_none_iff_exists'.1 hsome
    cases hi : freeOpenfile k.files with
    | none => exact freeOpenfile_eq_none.1 hi j hj hvn
    | some i =>
      cases hfd : freeDescriptor pr.fileTable with
      | some fd =>
        obtain ⟨hlt, hfree⟩ := freeDescriptor_some hfd
        exact hused fd (freeDescriptor_pos hfd) hlt hfree
      | none => exact not_opensAtomically hp hi hfd hatomic
  · intro hlacks
    cases opened with
    | none => exact ⟨k, _, sysOpen_none hp, rfl⟩
    | some v =>
      cases hi : freeOpenfile k.files with
      | none => exact ⟨k, _, sysOpen_full hp hi, rfl⟩
      | some i =>
        obtain ⟨hilt, hvn⟩ := freeOpenfile_some hi
        cases hfd : freeDescriptor pr.fileTable with
        | some fd =>
          obtain ⟨hlt, hfree⟩ := freeDescriptor_some hfd
          exact ⟨_, _, sysOpen_ok hp hi hfd, freeDescriptor_pos hfd, hlt, hfree, v, i, rfl,
            hilt, hvn, rfl⟩
        | none =>
          refine absurd ⟨Option.some_ne_none v, ⟨i, hilt, hvn⟩, ?_⟩ hlacks
          exact fun fd h1 h2 => freeDescriptor_none hfd h1 h2

/-- A program that has just been started opens a file. -/
theorem sysOpen_atomic_started : ∃ k pr, Reaches KernelStep Kernel.boot k ∧
    k.procs 2 = some pr ∧ k.OpensAtomically 2 pr (some 8) := by
  have hreplay : (replay Kernel.next Kernel.boot justStarted).map (fun k =>
      (k.procs 2).any fun pr => (pr.fileTable 3).isNone) = some true := by decide +kernel
  obtain ⟨k, hreach, hk⟩ := Kernel.reaches_of_replay hreplay
  obtain ⟨pr, hp, hfree⟩ := (Option.any_eq_true _ _).1 hk
  refine ⟨k, pr, hreach, hp, (sysOpen_atomic_iff hp (some 8)).2 fun hlacks => ?_⟩
  exact hlacks.2.2 3 (by decide) (by decide) (Option.isNone_iff_eq_none.1 hfree)

/-- A program that has opened as many files as it can. -/
def allOpened : List KernelOp := justStarted ++ List.replicate 125 (.sysOpen 2 (some 8))

/-- It opens another one: the call fails, and an entry of `systemFileTable` stays in use. -/
theorem sysOpen_leaves_entry : ∃ k pr, Reaches KernelStep Kernel.boot k ∧
    k.procs 2 = some pr ∧ (∃ k', k.sysOpen 2 (some 9) = .ok (k', .error .EMFILE) ∧
      (k.files 125).vn = none ∧ (k'.files 125).vn = some 9) ∧
    ¬ k.OpensAtomically 2 pr (some 9) := by
  have hreplay : (replay Kernel.next Kernel.boot allOpened).map (fun k =>
      freeOpenfile k.files == some 125 &&
        (k.procs 2).any fun pr => freeDescriptor pr.fileTable == none) = some true := by
    decide +kernel
  obtain ⟨k, hreach, hk⟩ := Kernel.reaches_of_replay hreplay
  simp only [Bool.and_eq_true, beq_iff_eq, Option.any_eq_true] at hk
  obtain ⟨hi, pr, hp, hfd⟩ := hk
  refine ⟨k, pr, hreach, hp, ⟨_, sysOpen_lost hp hi hfd, (freeOpenfile_some hi).2, ?_⟩,
    not_opensAtomically hp hi hfd⟩
  simp only [update_self]

end DemandPaging
