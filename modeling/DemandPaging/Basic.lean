import Mathlib.Logic.Function.Basic

set_option autoImplicit false

/-! # Machine constants and the ways the kernel stops

Constants of `arch/mips/include/vm.h`, `vm.h` and `kern/errno.h`, a page as its 4096 bytes, and
`Crash`: what C code does instead of returning. Pointers into the page table are frame indices
(`Option Nat`, `none` for NULL), physical addresses are natural numbers (RAM has at most 512M, so
no physical address wraps), virtual addresses are `UInt32`,
process ids (`pid_t`) are integers. -/

namespace DemandPaging

/-- `vaddr_t`. -/
abbrev VAddr := UInt32

def PAGE_SIZE : Nat := 4096

theorem PAGE_SIZE_pos : 0 < PAGE_SIZE := by decide

def PAGE_FRAME : UInt32 := 0xfffff000

/-- `USERSPACETOP`, equal to `MIPS_KSEG0` and to `USERSTACK`. -/
def USERSPACETOP : UInt32 := 0x80000000

def USERSTACK : UInt32 := USERSPACETOP

def STACKPAGES : UInt32 := 18

def PADDR_TO_KVADDR (paddr : Nat) : UInt32 := UInt32.ofNat paddr + USERSPACETOP

/-- Error numbers of `kern/errno.h` that the modelled code returns. -/
inductive Errno
  | ENOSYS
  | ENOMEM
  | EFAULT
  | EINVAL
  | ENOEXEC
  | EADDRNOTAVAIL
  | ENOENT
  | ENFILE
  | EMFILE
  | EIO
  | EFBIG
  | ENOSPC
  | EEXIST
  | ENAMETOOLONG
  | EBUSY
  | ENOTDIR
  | EISDIR
deriving DecidableEq, Repr

/-- The contents of one page: exactly its 4096 bytes. -/
abbrev Page := Fin PAGE_SIZE → UInt8

/-- What the C code does where it does not return. -/
inductive Crash
  | nullDeref
  | outOfBounds
  | endless
  | kassert
  | panic (msg : String)
  | useAfterFree
deriving DecidableEq, Repr

/-- `KASSERT`. -/
def kassert (p : Prop) [Decidable p] : Except Crash Unit :=
  if p then .ok () else .error .kassert

/-- The page number of an address as an address: `addr & PAGE_FRAME`. -/
def pageOf (addr : VAddr) : VAddr := addr &&& PAGE_FRAME

/-! ## Reading the code -/

theorem kassert_of {p : Prop} [Decidable p] (h : p) : kassert p = .ok () := if_pos h

theorem ok_bind {α β : Type} (a : α) (f : α → Except Crash β) :
    ((.ok a : Except Crash α) >>= f) = f a := rfl

theorem bind_eq_ok {α β : Type} {x : Except Crash α} {f : α → Except Crash β} {b : β} :
    (x >>= f) = .ok b ↔ ∃ a, x = .ok a ∧ f a = .ok b := by
  cases x with
  | error e => simp [bind, Except.bind]
  | ok a => simp [bind, Except.bind]

theorem kassert_eq_ok {p : Prop} [Decidable p] {u : Unit} : kassert p = .ok u ↔ p := by
  unfold kassert
  split <;> simp [*]

theorem pure_eq_ok {α : Type} {a b : α} : (pure a : Except Crash α) = .ok b ↔ a = b :=
  Except.ok.injEq a b ▸ Iff.rfl

theorem throw_ne_ok {α : Type} {e : Crash} {b : α} : (throw e : Except Crash α) ≠ .ok b :=
  fun h => by cases h

end DemandPaging
