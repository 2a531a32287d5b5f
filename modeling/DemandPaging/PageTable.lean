import DemandPaging.Basic
import DemandPaging.Lib.Linked

set_option autoImplicit false

/-! # The hashed inverted page table (`pt.c`)

One `PtPage` per frame. A user entry sits on two intrusive lists: the chain of its hash bucket
(`next`) and the FIFO queue of replacement victims (`fifonext`). `pid = -1` marks a free frame,
`pid = 0` the head of a kernel allocation of `numpages` frames.

The globals of `coremap.c` that `pt.c` receives as arguments are the fields of `Coremap`. The
pointer loops run with `ptsize` fuel: a list of distinct table entries is never longer, so running
out means that the C loop does not end. -/

namespace DemandPaging

/-- `struct ptpage`. -/
structure PtPage where
  pid : Int
  vaddr : VAddr
  numpages : Nat
  fifonext : Option Nat
  next : Option Nat
deriving DecidableEq, Repr

/-- The page table, its hash table and the two ends of the FIFO queue. -/
structure Coremap where
  pt : Nat → PtPage
  ptsize : Nat
  hashedpt : Nat → Option Nat
  hashedptsize : Nat
  firstvictim : Option Nat
  lastallocateduser : Option Nat
  isAct : Bool

namespace Coremap

variable (cm : Coremap)

/-! ## Single-word reads and writes -/

def nextOf : Nat → Option Nat := fun i => (cm.pt i).next

def fifoOf : Nat → Option Nat := fun i => (cm.pt i).fifonext

/-- `node->pid == pid && node->vaddr == vaddr`. -/
def isKey (pid : Int) (vaddr : VAddr) : Nat → Bool :=
  fun i => (cm.pt i).pid == pid && (cm.pt i).vaddr == vaddr

def setEntry (i : Nat) (e : PtPage) : Coremap :=
  { cm with pt := Function.update cm.pt i e }

def setNext (i : Nat) (x : Option Nat) : Coremap :=
  cm.setEntry i { cm.pt i with next := x }

def setFifonext (i : Nat) (x : Option Nat) : Coremap :=
  cm.setEntry i { cm.pt i with fifonext := x }

/-- The bucket `(vaddr|pid)%hashedptsize`, computed in `unsigned int`. -/
def bucket (pid : Int) (vaddr : VAddr) : Nat :=
  (vaddr ||| UInt32.ofInt pid).toNat % cm.hashedptsize

def gethashedentry (pid : Int) (vaddr : VAddr) : Option Nat :=
  cm.hashedpt (cm.bucket pid vaddr)

def sethashedptentry (pid : Int) (vaddr : VAddr) (node : Option Nat) : Coremap :=
  { cm with hashedpt := Function.update cm.hashedpt (cm.bucket pid vaddr) node }

end Coremap

/-! ## Free frames -/

/-- The inner loop of `getfreeframes`: do the frames from `j` on extend the run that started at
    `i` to `numpages` free frames? The first argument counts the frames left, `ptsize - j`. -/
def freeRun (pt : Nat → PtPage) (numpages i : Nat) : Nat → Nat → Bool
  | 0, _ => false
  | left + 1, j =>
    if (pt j).pid ≠ -1 then false
    else if j - i + 1 = numpages then true
    else freeRun pt numpages i left (j + 1)

/-- The outer loop of `getfreeframes`. Each round advances `i`, so `ptsize` rounds suffice. -/
def scanFrames (pt : Nat → PtPage) (ptsize numpages : Nat) : Nat → Nat → Option Nat
  | 0, _ => none
  | fuel + 1, i =>
    if ptsize ≤ i then none
    else if (pt i).pid = -1 then
      if freeRun pt numpages i (ptsize - i) i then some i
      else scanFrames pt ptsize numpages fuel (i + 1)
    -- `i += numpages-1`, then the loop's own `i++`
    else if 0 < (pt i).numpages then
      scanFrames pt ptsize numpages fuel (i + (pt i).numpages - 1 + 1)
    else scanFrames pt ptsize numpages fuel (i + 1)

/-- The start of `numpages` contiguous free frames, `-1` if the scan finds none. -/
def getfreeframes (pt : Nat → PtPage) (ptsize numpages : Nat) : Int :=
  match scanFrames pt ptsize numpages ptsize 0 with
  | some i => i
  | none => -1

/-! ## Setting and clearing entries -/

def WalkFault.toCrash : WalkFault → Crash
  | .endless => .endless
  | .null => .nullDeref

/-- A walk's result in the kernel's own error type. -/
def liftWalk {β : Type} : Except WalkFault β → Except Crash β
  | .ok b => .ok b
  | .error e => .error e.toCrash

namespace Coremap

variable (cm : Coremap)

/-- Put `node` at the end of the chain of its bucket. -/
def hashInsert (pid : Int) (vaddr : VAddr) (node : Nat) : Except Crash Coremap :=
  match cm.gethashedentry pid vaddr with
  | none => .ok (cm.sethashedptentry pid vaddr (some node))
  | some n =>
    match liftWalk (walkLast cm.nextOf cm.ptsize n) with
    | .ok l => .ok (cm.setNext l (some node))
    | .error e => .error e

/-- Put `node` at the end of the FIFO queue. -/
def fifoInsert (node : Nat) : Coremap :=
  let cm := match cm.lastallocateduser with
    | some l => cm.setFifonext l (some node)
    | none => cm
  let cm := if cm.firstvictim = none then { cm with firstvictim := some node } else cm
  { cm with lastallocateduser := some node }

/-- `setptentry`: the callers pass an index; one past the table is a stray write. -/
def setptentry (index numpages : Nat) (pid : Int) (vaddr : VAddr) : Except Crash Coremap :=
  if cm.ptsize ≤ index then .error .outOfBounds
  else
    let cm := cm.setEntry index
      { pid := pid, vaddr := vaddr, numpages := numpages, fifonext := none, next := none }
    if 0 < pid then
      match cm.hashInsert pid vaddr index with
      | .ok cm => .ok (cm.fifoInsert index)
      | .error e => .error e
    else .ok cm

/-- First part of `freeuser`: take `node`, found behind `prec`, off the chain of its bucket. -/
def hashRemove (pid : Int) (vaddr : VAddr) (node : Nat) (prec : Option Nat) : Coremap :=
  let hashedentry := cm.gethashedentry pid vaddr
  let cm := match prec with
    | some p => cm.setNext p (cm.pt node).next
    | none => cm
  if hashedentry = some node then cm.sethashedptentry pid vaddr (cm.pt node).next else cm

/-- Second part of `freeuser`: take `node` off the FIFO queue. The loop reads the key of
    `node->fifonext` without testing it for NULL. -/
def fifoUnlink (pid : Int) (vaddr : VAddr) (node : Nat) : Except Crash Coremap :=
  if cm.firstvictim ≠ some node then
    match cm.firstvictim with
    | none => .ok cm
    | some v =>
      match liftWalk (walkPrec cm.fifoOf (cm.isKey pid vaddr) cm.ptsize v) with
      | .ok b => .ok (cm.setFifonext b ((cm.fifoOf b).bind cm.fifoOf))
      | .error e => .error e
  else .ok { cm with firstvictim := (cm.pt node).fifonext }

/-- Third part of `freeuser`: if `node` was the last allocated page, find the new last one. -/
def fixLast (node : Nat) : Except Crash Coremap :=
  if cm.lastallocateduser = some node then
    match cm.firstvictim with
    | none => .ok { cm with lastallocateduser := none }
    | some v =>
      match liftWalk (walkLast cm.fifoOf cm.ptsize v) with
      | .ok l => .ok { cm with lastallocateduser := some l }
      | .error e => .error e
  else .ok cm

/-- The last four assignments of `freeuser`, and all of `freekernel`. -/
def clearEntry (i : Nat) : Coremap :=
  cm.setEntry i { cm.pt i with fifonext := none, next := none, numpages := 0, pid := -1 }

/-- `freeuser`: the new table and the C result, `-1` if the page is not resident. -/
def freeuser (pid : Int) (vaddr : VAddr) : Except Crash (Coremap × Int) :=
  match liftWalk (walkFind cm.nextOf (cm.isKey pid vaddr) cm.ptsize
      (cm.gethashedentry pid vaddr) none) with
  | .error e => .error e
  | .ok none => .ok (cm, -1)
  | .ok (some (node, prec)) =>
    match (cm.hashRemove pid vaddr node prec).fifoUnlink pid vaddr node with
    | .error e => .error e
    | .ok cm =>
      match cm.fixLast node with
      | .error e => .error e
      | .ok cm => .ok (cm.clearEntry node, 0)

/-- `freekernel`. -/
def freekernel (index : Nat) : Except Crash Coremap :=
  if cm.ptsize ≤ index then .error .outOfBounds else .ok (cm.clearEntry index)

/-- `getpageaddr`: the physical address of a resident page, `0` if there is none. -/
def getpageaddr (pid : Int) (vaddr : VAddr) : Except Crash Nat :=
  match liftWalk (walkFind cm.nextOf (cm.isKey pid vaddr) cm.ptsize
      (cm.gethashedentry pid vaddr) none) with
  | .error e => .error e
  | .ok none => .ok 0
  | .ok (some (node, _)) => .ok (node * PAGE_SIZE)

end Coremap

end DemandPaging
