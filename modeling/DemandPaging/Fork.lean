import DemandPaging.Cpu
import DemandPaging.Fault.Contents
import DemandPaging.Machine.TlbOwner
import DemandPaging.Machine.Transparency

set_option autoImplicit false

/-! # What the child of a fork finds in memory

`sys_fork` gives the child a copy of the parent's address space, but `as_copy` copies the layout and
nothing else: frames and slots are looked up by pid, and the child has a new one. So every page of
the child is loaded from the executable or zeroed when it is touched, whatever the parent has made
of it since. The two processes never share a frame, which is why later stores stay private. -/

namespace DemandPaging

/-! ## The parent's memory and the child's -/

variable {s s' : Sys} {table table' : ProcessTable} {parent child : Int} {as : AddrSpace}
  {c : FaultCtx} {v : VAddr} {q : List Nat}

/-! ## First loads -/

/-- A process that is not there has no page. -/
theorem SeqInv.fresh {p : Int} (h : SeqInv s) (hnone : s.procs p = none) (v : VAddr) (f : Nat) :
    ¬ s.vm.cm.Maps p v f :=
  fun hm => h.live (h.has_frame hm) hnone

/-- Both segments are read from the executable, and the stack is not. -/
def AddrSpace.backed (as : AddrSpace) : Bool :=
  as.seg1.all (·.elfdata == some 0) && as.seg2.all (·.elfdata == some 0) &&
    as.segstack.all (·.stackseg)

end DemandPaging
