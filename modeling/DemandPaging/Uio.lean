import DemandPaging.Emu
import DemandPaging.Lib.Fallible

set_option autoImplicit false

/-! # Transfers between a kernel buffer and a `uio`

`kern/lib/uio.c`. A `uio` names the buffers of the other side, a position and how much is still to
be moved. Here an iovec is what is left of its buffer, as a list of bytes: the bytes to take when
writing, the bytes to replace when reading. The bytes moved so far are kept as well, in order.

A copy to or from user space can fail. `copies` says which of the coming copies succeed; copies
beyond it do, as copies in the kernel always do. -/

namespace DemandPaging

open Caller (UioRw)
open Fallible

/-- `struct uio` with its iovecs. -/
structure Uio where
  uio_iov : List (List UInt8)
  uio_offset : Nat
  uio_resid : Nat
  uio_rw : UioRw
  copies : List Bool
  moved : List UInt8

/-- Subtraction of a `size_t`. -/
def sizeSub (a b : Nat) : Nat := (a + 2 ^ 32 - b) % 2 ^ 32

namespace Uio

/-! ## The code -/

/-- The bytes that a copy of `size` bytes moves, out of `ptr` or out of the first iovec. -/
def copied (u : Uio) (ptr : List UInt8) (size : Nat) : List UInt8 :=
  if u.uio_rw = .UIO_READ then ptr.take size else (u.uio_iov.headD []).take size

/-- The `uio` after a copy of `size` bytes. -/
def advance (u : Uio) (ptr : List UInt8) (size : Nat) : Uio :=
  { u with
    uio_iov := (u.uio_iov.headD []).drop size :: u.uio_iov.tail
    uio_offset := u.uio_offset + size
    uio_resid := sizeSub u.uio_resid size
    copies := u.copies.tail
    moved := u.moved ++ u.copied ptr size }

/-- The loop of `uiomove`, for at most so many rounds. It returns what is then in the buffer. -/
def uiomoveLoop : Nat → List UInt8 → Fallible Crash Errno Uio (List UInt8)
  | 0, _ => .crash .endless
  | k + 1, ptr => do
      let u ← .read
      if ptr = [] ∨ u.uio_resid = 0 then return ptr
      else
        let size := min (u.uio_iov.headD []).length ptr.length
        if size = 0 then
          .modify fun u => { u with uio_iov := u.uio_iov.tail }
          .check (u.uio_iov.tail ≠ []) (.panic "uiomove: ran out of buffers\n")
          uiomoveLoop k ptr
        else if u.copies.headD true then
          .modify fun u => u.advance ptr size
          let rest ← uiomoveLoop k (ptr.drop size)
          return u.copied ptr size ++ rest
        else
          .modify fun u => { u with copies := u.copies.tail }
          .fail .EFAULT

def uiomove (ptr : List UInt8) : Fallible Crash Errno Uio (List UInt8) := do
  let u ← .read
  uiomoveLoop (u.uio_iov.length + ptr.length + 1) ptr

/-- The loop of `uiomovezeros`, for at most so many rounds. -/
def uiomovezerosLoop : Nat → Nat → Fallible Crash Errno Uio Unit
  | 0, _ => .crash .endless
  | k + 1, n => do
      if n = 0 then return ()
      else
        let amt := min 16 n
        let _ ← uiomove (List.replicate amt 0)
        uiomovezerosLoop k (n - amt)

def uiomovezeros (n : Nat) : Fallible Crash Errno Uio Unit := do
  let u ← .read
  .check (u.uio_rw = .UIO_READ) .kassert
  uiomovezerosLoop (n + 1) n

/-! ## What is moved -/

/-- The buffers are large enough for what is to be moved. -/
def Fits (u : Uio) : Prop := u.uio_resid ≤ u.uio_iov.flatten.length ∧ u.uio_resid < 2 ^ 32

/-- `u'` is `u` after the bytes `bs` were moved. -/
structure Moved (u : Uio) (bs : List UInt8) (u' : Uio) : Prop where
  offset : u'.uio_offset = u.uio_offset + bs.length
  resid : u'.uio_resid + bs.length = u.uio_resid
  iov : u'.uio_iov.flatten = u.uio_iov.flatten.drop bs.length
  rw : u'.uio_rw = u.uio_rw
  moved : u'.moved = u.moved ++ bs
  out : u.uio_rw = .UIO_WRITE → bs = u.uio_iov.flatten.take bs.length
  copies : u'.copies ⊆ u.copies

variable {u u' u'' : Uio} {bs bs' ptr : List UInt8}

theorem Moved.refl (u : Uio) : Moved u [] u := by
  constructor <;> simp

theorem Moved.trans (h : Moved u bs u') (h' : Moved u' bs' u'') : Moved u (bs ++ bs') u'' := by
  constructor
  case offset => rw [h'.offset, h.offset, List.length_append, Nat.add_assoc]
  case resid =>
    have := h.resid
    have := h'.resid
    rw [List.length_append]
    omega
  case iov => rw [h'.iov, h.iov, List.drop_drop, List.length_append]
  case rw => rw [h'.rw, h.rw]
  case moved => rw [h'.moved, h.moved, List.append_assoc]
  case out =>
    intro hw
    rw [List.length_append, List.take_add, ← h.out hw, ← h.iov, ← h'.out (h.rw.trans hw)]
  case copies => exact fun c hc => h.copies (h'.copies hc)

theorem Moved.fits (h : Moved u bs u') (hfit : u.Fits) : u'.Fits := by
  have := h.resid
  have hlen := congrArg List.length h.iov
  rw [List.length_drop] at hlen
  unfold Fits at *
  omega

/-- One copy out of the first iovec. -/
theorem moved_advance {size : Nat} (hfit : u.Fits) (hptr : size ≤ ptr.length)
    (hres : size ≤ u.uio_resid) (hiov : size ≤ (u.uio_iov.headD []).length) :
    Moved u (u.copied ptr size) (u.advance ptr size) := by
  have hlen : (u.copied ptr size).length = size := by
    unfold copied
    split
    · rw [List.length_take, Nat.min_eq_left hptr]
    · rw [List.length_take, Nat.min_eq_left hiov]
  have hflat : u.uio_iov.flatten = u.uio_iov.headD [] ++ u.uio_iov.tail.flatten := by
    cases u.uio_iov with
    | nil => rfl
    | cons a l => rfl
  constructor
  case offset => rw [hlen, advance]
  case resid =>
    have := hfit.2
    rw [hlen]
    change sizeSub u.uio_resid size + size = u.uio_resid
    unfold sizeSub
    omega
  case iov => rw [hlen, advance, hflat, List.flatten_cons, List.drop_append_of_le_length hiov]
  case rw => rfl
  case moved => rfl
  case out =>
    intro hw
    rw [hlen, hflat, List.take_append_of_le_length hiov, copied, if_neg (by rw [hw]; decide)]
  case copies => exact fun c hc => List.mem_of_mem_tail hc

/-- The whole buffer `ptr` was moved, and `buf` is in it now. -/
def MovedAll (u : Uio) (ptr buf : List UInt8) (u' : Uio) : Prop :=
  Moved u buf u' ∧ buf.length = ptr.length ∧ (u.uio_rw = .UIO_READ → buf = ptr)

/-- A copy failed when a part of `n` bytes was moved. -/
def MovedPart (u : Uio) (n : Nat) (e : Errno) (u' : Uio) : Prop :=
  e = .EFAULT ∧ false ∈ u.copies ∧ ∃ bs, Moved u bs u' ∧ bs.length ≤ n

/-- What the loop does after some bytes were moved is also done after all of them. -/
theorem Moved.movedAll {size : Nat} {buf : List UInt8} (hptr : size ≤ ptr.length)
    (h : Moved u (u.copied ptr size) u') (hlen : (u.copied ptr size).length = size)
    (h' : MovedAll u' (ptr.drop size) buf u'') :
    MovedAll u ptr (u.copied ptr size ++ buf) u'' := by
  obtain ⟨hm, hbuf, hread⟩ := h'
  refine ⟨h.trans hm, ?_, fun hr => ?_⟩
  · rw [List.length_append, hlen, hbuf, List.length_drop]
    omega
  · rw [hread (h.rw.trans hr), copied, if_pos hr, List.take_append_drop]

theorem Moved.movedPart {n : Nat} {e : Errno} (h : Moved u bs u')
    (h' : MovedPart u' (n - bs.length) e u'') (hn : bs.length ≤ n) : MovedPart u n e u'' := by
  obtain ⟨he, hfalse, bs', hm, hle⟩ := h'
  refine ⟨he, h.copies hfalse, bs ++ bs', h.trans hm, ?_⟩
  rw [List.length_append]
  omega

/-- `uiomove` moves the whole buffer, or fails in the middle when a copy does. -/
theorem wp_uiomoveLoop {k : Nat} (hk : u.uio_iov.length + ptr.length < k) (hfit : u.Fits)
    (hptr : ptr.length ≤ u.uio_resid) :
    (uiomoveLoop k ptr).Safe (MovedAll u ptr) (MovedPart u ptr.length) u := by
  induction k generalizing u ptr with
  | zero => omega
  | succ k ih =>
    simp only [uiomoveLoop, wp_bind, wp_read, wp_ite, wp_pure, wp_modify, wp_check, wp_fail]
    refine ⟨fun hend => ?_, fun hgo => ?_⟩
    · -- nothing left to move
      obtain rfl : ptr = [] := by
        rcases hend with h | h
        · exact h
        · exact List.length_eq_zero_iff.1 (by omega)
      exact ⟨Moved.refl u, rfl, fun _ => rfl⟩
    have hne : 0 < ptr.length := List.length_pos_iff.2 fun e => hgo (.inl e)
    refine ⟨fun hzero => ?_, fun hpos => ⟨fun _ => ?_, fun _ => ?_⟩⟩
    · -- the first iovec is used up, and there is another one
      obtain ⟨iovs, hiov⟩ : ∃ iovs, u.uio_iov = [] :: iovs := by
        have hflat := hfit.1
        cases hu : u.uio_iov with
        | nil =>
          rw [hu, List.flatten_nil, List.length_nil] at hflat
          omega
        | cons a l =>
          rw [hu, List.headD_cons] at hzero
          exact ⟨l, by rw [List.length_eq_zero_iff.1 (by omega : a.length = 0)]⟩
      have hfit' : Fits { u with uio_iov := u.uio_iov.tail } := by
        have := hfit
        simpa only [Fits, hiov, List.flatten_cons, List.nil_append, List.tail_cons] using this
      refine ⟨fun _ => ?_, fun hnil => hnil fun e => ?_⟩
      · have hlen : u.uio_iov.tail.length + ptr.length < k := by
          rw [hiov, List.length_cons] at hk
          rw [hiov, List.tail_cons]
          omega
        have hstep : Moved u [] { u with uio_iov := u.uio_iov.tail } := by
          constructor <;> simp [hiov]
        refine (ih hlen hfit' hptr).imp₂ (fun buf u' h => ?_) fun e u' h => ?_
        · exact ⟨hstep.trans h.1, h.2⟩
        · exact hstep.movedPart h (Nat.zero_le _)
      · have := hfit'.1
        simp only [e, List.flatten_nil, List.length_nil] at this
        omega
    · -- a copy
      generalize hsize : min (u.uio_iov.headD []).length ptr.length = size at *
      have hle : size ≤ ptr.length := by omega
      have hstep := moved_advance hfit hle (by omega : size ≤ u.uio_resid) (by omega)
      have hlen : (u.copied ptr size).length = size := by
        have := hstep.offset
        simp only [advance] at this
        omega
      have hk' : (u.advance ptr size).uio_iov.length + (ptr.drop size).length < k := by
        have hiov : u.uio_iov ≠ [] := by
          intro e
          rw [e, List.headD_nil, List.length_nil] at hsize
          omega
        have := List.length_pos_iff.2 hiov
        simp only [advance, List.length_cons, List.length_tail, List.length_drop]
        omega
      have hptr' : (ptr.drop size).length ≤ (u.advance ptr size).uio_resid := by
        have := hstep.resid
        rw [List.length_drop]
        omega
      refine (ih hk' (hstep.fits hfit) hptr').imp₂ (fun buf u' h => ?_) fun e u' h => ?_
      · exact hstep.movedAll hle hlen h
      · refine hstep.movedPart ?_ (by omega)
        rw [hlen, ← List.length_drop]
        exact h
    · next hfail =>
      have hmem : false ∈ u.copies := by
        cases hc : u.copies with
        | nil => simp [hc] at hfail
        | cons c cs =>
          rw [hc, List.headD_cons, Bool.not_eq_true] at hfail
          simp [hfail]
      refine ⟨rfl, hmem, [], ?_, Nat.zero_le _⟩
      constructor
      case copies => exact fun c hc => List.mem_of_mem_tail hc
      all_goals simp

theorem wp_uiomove (ptr : List UInt8) (hfit : u.Fits) (hptr : ptr.length ≤ u.uio_resid) :
    (uiomove ptr).Safe (MovedAll u ptr) (MovedPart u ptr.length) u :=
  wp_uiomoveLoop (Nat.lt_succ_self _) hfit hptr

theorem wp_uiomovezerosLoop {k n : Nat} (hk : n < k) (hfit : u.Fits) (hn : n ≤ u.uio_resid)
    (hr : u.uio_rw = .UIO_READ) :
    (uiomovezerosLoop k n).Safe (fun _ u' => Moved u (List.replicate n 0) u') (MovedPart u n)
      u := by
  induction k generalizing u n with
  | zero => omega
  | succ k ih =>
    simp only [uiomovezerosLoop, wp_bind, wp_ite, wp_pure]
    refine ⟨fun hzero => ?_, fun hpos => ?_⟩
    · rw [hzero]
      exact Moved.refl u
    generalize hamt : min 16 n = amt
    have hlen : (List.replicate amt (0 : UInt8)).length = amt := List.length_replicate
    refine (wp_uiomove (List.replicate amt 0) hfit (by omega)).imp₂ (fun buf u' h => ?_)
      fun e u' h => ?_
    · obtain ⟨hm, -, hbuf⟩ := h
      rw [hbuf hr] at hm
      have hres := hm.resid
      rw [hlen] at hres
      refine (ih (by omega) (hm.fits hfit) (by omega) (hm.rw.trans hr)).imp₂ (fun _ u'' h => ?_)
        fun e u'' h => ?_
      · have := hm.trans h
        rwa [List.replicate_append_replicate, show amt + (n - amt) = n by omega] at this
      · exact hm.movedPart (hlen.symm ▸ h) (by omega)
    · obtain ⟨he, hc, bs, hm, hle⟩ := h
      exact ⟨he, hc, bs, hm, by omega⟩

theorem wp_uiomovezeros {n : Nat} (hfit : u.Fits) (hn : n ≤ u.uio_resid)
    (hr : u.uio_rw = .UIO_READ) :
    (uiomovezeros n).Safe (fun _ u' => Moved u (List.replicate n 0) u') (MovedPart u n) u := by
  simp only [uiomovezeros, wp_bind, wp_read, wp_check]
  exact ⟨fun _ => wp_uiomovezerosLoop (Nat.lt_succ_self n) hfit hn hr, fun h => h hr⟩

end Uio

end DemandPaging
