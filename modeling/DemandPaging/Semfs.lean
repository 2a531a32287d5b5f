import DemandPaging.Basic
import DemandPaging.Synch.Monitor

set_option autoImplicit false

/-! # User-level semaphores (`fs/semfs/semfs_vnops.c`)

One semaphore of the semaphore file system: a count, a lock `sems_lock` and a condition variable
`sems_cv`. `semfs_read` takes as many units as it has bytes to read, waiting for them piece by
piece, `semfs_write` adds units, `semfs_truncate` sets the count. The functions are a program over
the lock and the condition variable; what a thread does between two calls of those is one step.
The table of semaphores and its lock, which only lead to this semaphore, are not part of it. -/

namespace DemandPaging.Semfs

open Synch

/-- The count of `struct semfs_sem`, and what has been taken and added by reads and writes; a
    truncation is remembered. -/
structure SemfsSem where
  sems_count : UInt32
  consumed : Nat
  produced : Nat
  truncated : Bool
  deriving DecidableEq

/-- Where a process stands in the functions, with `uio_resid` and `newcount`. -/
inductive SemfsPc
  /-- In none of them; the last one returned this. -/
  | returned (result : Except Errno Unit)
  /-- At the top of the loop of `semfs_read`. -/
  | reading (resid : UInt32)
  /-- At the top of the loop of `semfs_write`. -/
  | writing (resid : UInt32)
  /-- In `semfs_write`, `semfs_wakeup` has returned. -/
  | writingCount (newcount resid : UInt32)
  /-- In `semfs_truncate`, in front of `semfs_wakeup`. -/
  | truncating (newcount : UInt32)
  /-- In `semfs_truncate`, `semfs_wakeup` has returned. -/
  | truncatingCount (newcount : UInt32)

/-- What a process decides: to call one of the functions, or to go on in the one it is in. -/
inductive SemfsCall
  | read (resid : UInt32)
  | write (resid : UInt32)
  | truncate (len : Int)
  | go

/-- `semfs_wakeup`. -/
def semfsWakeup (count newcount : UInt32) : Call :=
  if count > 0 ∨ newcount = 0 then .nothing
  else if newcount = 1 then .holder .cvSignal
  else .holder .cvBroadcast

/-- The units a reader takes: `consume`. -/
def consume (count resid : UInt32) : UInt32 := if resid > count then count else resid

/-- One round of the loop of `semfs_read`. -/
def semfsRead (sem : SemfsSem) (resid : UInt32) : Call × SemfsSem × SemfsPc :=
  if resid > 0 then
    let c := if sem.sems_count > 0 then consume sem.sems_count resid else 0
    let sem := { sem with sems_count := sem.sems_count - c, consumed := sem.consumed + c.toNat }
    let resid := resid - c
    if resid = 0 then (.holder .lockRelease, sem, .returned (.ok ()))
    else if sem.sems_count = 0 then (.holder .cvWait, sem, .reading resid)
    else (.nothing, sem, .reading resid)
  else (.holder .lockRelease, sem, .returned (.ok ()))

/-- One round of the loop of `semfs_write`, up to the return of `semfs_wakeup`. -/
def semfsWrite (sem : SemfsSem) (resid : UInt32) : Call × SemfsSem × SemfsPc :=
  if resid > 0 then
    let newcount := sem.sems_count + resid
    if newcount < sem.sems_count then
      (.holder .lockRelease, sem, .returned (.error .EFBIG))
    else (semfsWakeup sem.sems_count newcount, sem, .writingCount newcount resid)
  else (.holder .lockRelease, sem, .returned (.ok ()))

/-- `semfs_truncate` up to its `lock_acquire`. -/
def semfsTruncate (len : Int) : Call × SemfsPc :=
  if len < 0 then (.nothing, .returned (.error .EINVAL))
  else if len > 0xffffffff then (.nothing, .returned (.error .EFBIG))
  else (.lockAcquire, .truncating (UInt32.ofNat len.toNat))

/-- The functions as a program over `sems_lock` and `sems_cv`. -/
def semfsProgram : Program SemfsSem SemfsPc SemfsCall
  | .read resid, sem, .returned _ => some (.lockAcquire, sem, .reading resid)
  | .write resid, sem, .returned _ => some (.lockAcquire, sem, .writing resid)
  | .truncate len, sem, .returned _ =>
    let (call, pc) := semfsTruncate len
    some (call, sem, pc)
  | .go, sem, .reading resid => some (semfsRead sem resid)
  | .go, sem, .writing resid => some (semfsWrite sem resid)
  | .go, sem, .writingCount newcount resid =>
    let sem := { sem with sems_count := newcount, produced := sem.produced + resid.toNat }
    some (.nothing, sem, .writing 0)
  | .go, sem, .truncating newcount =>
    some (semfsWakeup sem.sems_count newcount, sem, .truncatingCount newcount)
  | .go, sem, .truncatingCount newcount =>
    let sem := { sem with sems_count := newcount, truncated := true }
    some (.holder .lockRelease, sem, .returned (.ok ()))
  | _, _, _ => none

/-- One semaphore in use by threads of the type `τ`. -/
abbrev Sems (τ : Type) := Monitor τ SemfsSem SemfsPc

/-- `semfs_sem_create`: the count is 0, and nobody is in a function. -/
def semfsSemCreate {τ : Type} : Sems τ :=
  Monitor.create { sems_count := 0, consumed := 0, produced := 0, truncated := false }
    (.returned (.ok ()))

abbrev SemfsStep {τ : Type} [DecidableEq τ] : Sems τ → MonOp τ SemfsCall → Sems τ → Prop :=
  MonStep semfsProgram

end DemandPaging.Semfs
