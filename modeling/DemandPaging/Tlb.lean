import DemandPaging.Basic
import DemandPaging.Lib.Search

set_option autoImplicit false

/-! # The TLB and the statistics counters (`vm_tlb.c`, `vmstats.c`)

The 64 hardware slots and the three variables that manage them. Entries carry no address-space
identifier, so a lookup matches on the page field alone, valid bit or not. -/

namespace DemandPaging

def NUM_TLB : Nat := 64

def TLBHI_VPAGE : UInt32 := 0xfffff000

def TLBLO_PPAGE : UInt32 := 0xfffff000

def TLBLO_DIRTY : UInt32 := 0x00000400

def TLBLO_VALID : UInt32 := 0x00000200

def TLBLO_GLOBAL : UInt32 := 0x00000100

/-- The page field of an invalid slot: a page of the unmapped segment, different for each slot. -/
def TLBHI_INVALID (entryno : Nat) : UInt32 := (0x80000 + UInt32.ofNat entryno) <<< 12

def TLBLO_INVALID : UInt32 := 0

/-! ## Counters -/

/-- The counter indices of `vmstats.h`. -/
inductive VmStat
  | TLBFAULT
  | TLBFAULTWITHFREE
  | TLBFAULTWITHREPLACE
  | TLBINVALIDATION
  | TLBRELOAD
  | PAGEFAULTZERO
  | PAGEFAULTDISK
  | PAGEFAULTELF
  | PAGEFAULTSWAP
  | SWAPWRITE
deriving DecidableEq, Repr

/-- `unsigned int counter[VMSTATSLEN]`. -/
abbrev Counters := VmStat → UInt32

def vmstatincr (c : Counters) (t : VmStat) : Counters := Function.update c t (c t + 1)

/-! ## The TLB -/

/-- One hardware entry. -/
structure TlbEntry where
  hi : UInt32
  lo : UInt32
deriving DecidableEq, Repr

def TlbEntry.invalid (entryno : Nat) : TlbEntry :=
  { hi := TLBHI_INVALID entryno, lo := TLBLO_INVALID }

/-- What `tlb_reset` puts into a slot, where none of the pages it tries is there already. -/
def TlbEntry.reset (entryno : Nat) : TlbEntry :=
  { hi := UInt32.ofNat (0x81000000 + entryno * 0x1000), lo := 0 }

/-- The hardware slots with `tlbindex`, `tlbinvalidatedindex` and `lastpid`. -/
structure Tlb where
  entry : Nat → TlbEntry
  tlbindex : UInt32
  tlbinvalidatedindex : Int
  lastpid : Int

namespace Tlb

variable (t : Tlb)

/-- The state at boot, behind `tlb_reset`. -/
def boot : Tlb :=
  { entry := TlbEntry.reset, tlbindex := 0, tlbinvalidatedindex := -1, lastpid := 0 }

def tlbWrite (hi lo : UInt32) (index : Nat) : Tlb :=
  { t with entry := Function.update t.entry index { hi := hi, lo := lo } }

/-- `tlb_probe`: the slot whose page field matches, `none` for the negative result. -/
def tlbProbe (hi : UInt32) : Option Nat :=
  search (fun i => (t.entry i).hi &&& TLBHI_VPAGE == hi &&& TLBHI_VPAGE) NUM_TLB

/-- `vmtlb_invalidatepage`, which ignores its `pid` argument. -/
def vmtlbInvalidatepage (addr : VAddr) : Tlb :=
  match t.tlbProbe (addr &&& TLBHI_VPAGE) with
  | some ind =>
    { t.tlbWrite (TLBHI_INVALID ind) TLBLO_INVALID ind with tlbinvalidatedindex := ind }
  | none => t

/-- `vmtlb_invalidate`: flush everything unless the last entry was written for `pid`. -/
def vmtlbInvalidate (pid : Int) (c : Counters) : Tlb × Counters :=
  if pid = t.lastpid then (t, c)
  else
    ({ entry := fun i => if i < NUM_TLB then TlbEntry.invalid i else t.entry i
       tlbindex := 0
       tlbinvalidatedindex := -1
       lastpid := 0 },
      vmstatincr c .TLBINVALIDATION)

/-- The low word `vmtlb_write` installs. -/
def entryLo (paddr : Nat) (writePriv : Bool) : UInt32 :=
  let lo := (UInt32.ofNat paddr &&& TLBLO_PPAGE) ||| TLBLO_VALID ||| TLBLO_GLOBAL
  if writePriv then lo ||| TLBLO_DIRTY else lo

/-- `vmtlb_write`. The valid bit was just set, so the panic branch is dead and the C result is
    always `0`. -/
def vmtlbWrite (pid : Int) (addr : VAddr) (paddr : Nat) (writePriv : Bool) (c : Counters) :
    Tlb × Counters :=
  let t := { t with lastpid := pid }
  let hi := addr &&& TLBHI_VPAGE
  let lo := entryLo paddr writePriv
  if 0 ≤ t.tlbinvalidatedindex then
    ({ t.tlbWrite hi lo t.tlbinvalidatedindex.toNat with tlbinvalidatedindex := -1 },
      vmstatincr c (if t.tlbindex.toNat < NUM_TLB then .TLBFAULTWITHFREE else .TLBFAULTWITHREPLACE))
  else if t.tlbindex.toNat < NUM_TLB then
    ({ t.tlbWrite hi lo t.tlbindex.toNat with tlbindex := t.tlbindex + 1 },
      vmstatincr c .TLBFAULTWITHFREE)
  else
    ({ t.tlbWrite hi lo (t.tlbindex.toNat % NUM_TLB) with tlbindex := t.tlbindex + 1 },
      vmstatincr c .TLBFAULTWITHREPLACE)

end Tlb

end DemandPaging
