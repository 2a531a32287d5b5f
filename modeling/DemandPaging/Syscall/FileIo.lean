import DemandPaging.Syscall.UserPointers

set_option autoImplicit false

/-! # What `read` and `write` report

Three layers take part in a `read` or `write` of an open file: `VOP_READ` and `VOP_WRITE` return an
error number or 0, `file_read` and `file_write` return a number of bytes, and `syscall` takes a
negative value for an error (`file_syscalls.c`, `syscall.c`). An error number is positive, and
`file_read` and `file_write` pass it on as it is.

The vnode operations of the source are of three kinds. Files and most devices move their data with
`uiomove`. `null:` swallows what is written without looking at it. A semaphore of `semfs` moves the
offset and the count, and no data. -/

namespace DemandPaging.Syscall

open Caller (UioRw syscallEnd)

/-! ## Vnode operations -/

/-- `struct uio`, as far as it is reported back: with the number of bytes that were copied between
    the file and the buffer. -/
structure Transfer where
  uio_offset : Nat
  uio_resid : UInt32
  moved : Nat
deriving DecidableEq, Repr

/-- A call of `uiomove` for `n` bytes. `copied` tells whether `copyin` or `copyout` succeeds, and
    `reg` is what `emu_doread` stores in `uio_offset` afterwards: the register of the device. -/
structure Move where
  n : UInt32
  copied : Bool
  reg : Option UInt32
deriving DecidableEq, Repr

/-- `uiomove`. -/
def Transfer.uiomove (t : Transfer) (m : Move) : Transfer × Option Errno :=
  if m.n = 0 ∨ t.uio_resid = 0 then (t, none)
  else
    let size := min t.uio_resid m.n
    if m.copied then
      (⟨t.uio_offset + size.toNat, t.uio_resid - size, t.moved + size.toNat⟩, none)
    else (t, some .EFAULT)

/-- What a vnode does for `VOP_READ` or `VOP_WRITE`. -/
inductive Vop
  /-- Calls of `uiomove` until one fails, and the result if none does. -/
  | uiomoves (moves : List Move) (result : Option Errno)
  /-- `nullio`. -/
  | null
  /-- `semfs_read` and `semfs_write`, with the count of the semaphore. -/
  | sem (sems_count : UInt32)

def runMoves (result : Option Errno) : List Move → Transfer → Transfer × Option Errno
  | [], t => (t, result)
  | m :: moves, t =>
    match t.uiomove m with
    | (t, some e) => (t, some e)
    | (t, none) =>
      runMoves result moves
        (match m.reg with
        | none => t
        | some offset => { t with uio_offset := offset.toNat })

/-- A call that comes back: `semfs_read` sleeps until it has consumed all it was asked for. -/
def Vop.run (rw : UioRw) (t : Transfer) : Vop → Transfer × Option Errno
  | .uiomoves moves result => runMoves result moves t
  | .null => (if rw = .UIO_WRITE then { t with uio_resid := 0 } else t, none)
  | .sem sems_count =>
    if t.uio_resid = 0 then (t, none)
    else if rw = .UIO_WRITE ∧ sems_count + t.uio_resid < sems_count then (t, some .EFBIG)
    else ({ t with uio_offset := t.uio_offset + t.uio_resid.toNat, uio_resid := 0 }, none)

/-! ## `file_read` and `file_write` -/

/-- The table of open files after a call, what the call returns and how many bytes it has moved. -/
structure IoResult where
  files : Nat → Openfile
  retval : UInt32
  moved : Nat

/-- The `uio` that `file_read` and `file_write` fill in. -/
def startTransfer (of : Openfile) (size : UInt32) : Transfer := ⟨of.offset, size, 0⟩

variable (rw : UioRw) (fileTable : Nat → Option Nat) (files : Nat → Openfile) (vop : Nat → Vop)
  (fd : Int32) (size : UInt32)

/-- `file_read` and `file_write` behind the look-up: entry `i` has the vnode `vn`. -/
def vnodeIo (i vn : Nat) : IoResult :=
  match (vop vn).run rw (startTransfer (files i) size) with
  | (t, some e) => ⟨files, e.number, t.moved⟩
  | (t, none) =>
    ⟨Function.update files i { files i with offset := t.uio_offset }, size - t.uio_resid, t.moved⟩

/-- `file_read` and `file_write`. The test lets `OPEN_MAX` through, one behind the table. -/
def fileIo : Except Crash IoResult :=
  if fd < 0 ∨ fd.toInt > OPEN_MAX then .ok ⟨files, -1, 0⟩
  else if fd.toInt = OPEN_MAX then .error .outOfBounds
  else
    match fileTable fd.toInt.toNat with
    | none => .ok ⟨files, -1, 0⟩
    | some i =>
      match (files i).vn with
      | none => .ok ⟨files, -1, 0⟩
      | some vn => .ok (vnodeIo rw files vop size i vn)

/-- The descriptors that `sys_read` and `sys_write` take for the console. -/
def ConsoleFd : UioRw → Int32 → Prop
  | .UIO_READ, fd => fd = 0
  | .UIO_WRITE, fd => fd = 1 ∨ fd = 2

instance : (rw : UioRw) → (fd : Int32) → Decidable (ConsoleFd rw fd)
  | .UIO_READ, fd => inferInstanceAs (Decidable (fd = 0))
  | .UIO_WRITE, fd => inferInstanceAs (Decidable (fd = 1 ∨ fd = 2))

/-- `sys_read` and `sys_write`, where the console does what it does. -/
def sysIo (console : Except Crash IoResult) : Except Crash IoResult :=
  if ConsoleFd rw fd then console else fileIo rw fileTable files vop fd size

/-! ## The convention -/

/-- The open file behind a descriptor, and its vnode. -/
def Leads (i vn : Nat) : Prop :=
  0 ≤ fd.toInt ∧ fd.toInt < OPEN_MAX ∧ fileTable fd.toInt.toNat = some i ∧ (files i).vn = some vn

/-- What `syscall` reports about the call: `n` bytes were moved and the offset is behind them, or
    there was an error; and an error of the vnode operation is one. -/
structure Reports (console : Except Crash IoResult) : Prop where
  inside : ∃ out, sysIo rw fileTable files vop fd size console = .ok out
  success : ∀ out n, sysIo rw fileTable files vop fd size console = .ok out →
    syscallEnd out.retval = (n, false) → n.toNat ≤ size.toNat ∧ out.moved = n.toNat ∧
      ∃ i vn, Leads fileTable files fd i vn ∧
        out.files = Function.update files i { files i with offset := (files i).offset + n.toNat }
  failure : ∀ out i vn e, sysIo rw fileTable files vop fd size console = .ok out →
    Leads fileTable files fd i vn → ((vop vn).run rw (startTransfer (files i) size)).2 = some e →
      (syscallEnd out.retval).2 = true ∧ out.files = files

/-- The operation moves data through `uiomove` and leaves the offset behind them, as far as the
    device tells the truth about it; or it has nothing to do. -/
def Vop.Serves (t : Transfer) : Vop → Prop
  | .uiomoves moves result =>
    (runMoves result moves t).1.uio_offset = t.uio_offset + (runMoves result moves t).1.moved
  | .null => rw = .UIO_READ ∨ t.uio_resid = 0
  | .sem _ => t.uio_resid = 0

/-- The operation on entry `i` returns 0, and serves the call or gets to a count that `syscall`
    takes for an error. -/
def Conforms (i vn : Nat) : Prop :=
  ((vop vn).run rw (startTransfer (files i) size)).2 = none ∧
    ((vop vn).Serves rw (startTransfer (files i) size) ∨
      2 ^ 31 ≤ (size - ((vop vn).run rw (startTransfer (files i) size)).1.uio_resid).toNat)

/-! ## What the operations do -/

variable {rw fileTable files vop fd size} {t t' : Transfer} {i vn : Nat} {out : IoResult}
  {console : Except Crash IoResult}

theorem uiomove_resid (t : Transfer) (m : Move) :
    (t.uiomove m).1.uio_resid.toNat + (t.uiomove m).1.moved = t.uio_resid.toNat + t.moved := by
  unfold Transfer.uiomove
  split
  · rfl
  · dsimp only
    split
    · have hle : min t.uio_resid m.n ≤ t.uio_resid := by
        rw [show min t.uio_resid m.n = if t.uio_resid ≤ m.n then t.uio_resid else m.n from rfl]
        split
        · exact UInt32.le_refl _
        · next hgt => exact UInt32.le_of_lt (UInt32.not_le.1 hgt)
      have hsub := UInt32.toNat_sub_of_le _ _ hle
      have hnat := UInt32.le_iff_toNat_le.1 hle
      dsimp only
      omega
    · rfl

/-- What is left and what was moved add up to what was asked for. -/
theorem runMoves_resid (result : Option Errno) (moves : List Move) (t : Transfer) :
    (runMoves result moves t).1.uio_resid.toNat + (runMoves result moves t).1.moved =
      t.uio_resid.toNat + t.moved := by
  induction moves generalizing t with
  | nil => rfl
  | cons m moves ih =>
    have hmove := uiomove_resid t m
    rw [runMoves]
    split
    · next heq =>
      rw [heq] at hmove
      exact hmove
    · next t' heq =>
      rw [heq] at hmove
      rw [ih]
      split
      · exact hmove
      · exact hmove

/-- Without a register in between, the offset is behind what was moved. -/
theorem runMoves_offset (result : Option Errno) (moves : List Move)
    (hreg : ∀ m ∈ moves, m.reg = none) (t : Transfer) :
    (runMoves result moves t).1.uio_offset + t.moved =
      t.uio_offset + (runMoves result moves t).1.moved := by
  induction moves generalizing t with
  | nil => rfl
  | cons m moves ih =>
    have hmove : (t.uiomove m).1.uio_offset + t.moved = t.uio_offset + (t.uiomove m).1.moved := by
      unfold Transfer.uiomove
      split
      · rfl
      · dsimp only
        split
        · dsimp only
          omega
        · rfl
    rw [runMoves]
    split
    · next heq =>
      rw [heq] at hmove
      exact hmove
    · next t' heq =>
      rw [heq] at hmove
      rw [hreg m (List.mem_cons_self ..)]
      have hrest := ih (fun m hm => hreg m (List.mem_cons_of_mem _ hm)) t'
      dsimp only at hmove hrest ⊢
      omega

/-- So every file that moves its data with `uiomove` alone serves its calls. -/
theorem serves_uiomoves {moves : List Move} (hreg : ∀ m ∈ moves, m.reg = none)
    (result : Option Errno) (of : Openfile) (size : UInt32) :
    (Vop.uiomoves moves result).Serves rw (startTransfer of size) := by
  have hoffset := runMoves_offset result moves hreg (startTransfer of size)
  exact hoffset

theorem toNat_eq_zero_iff {x : UInt32} : 0 = x.toNat ↔ x = 0 := by
  rw [eq_comm, ← UInt32.toNat_inj]
  rfl

/-- A semaphore takes all it is given and moves nothing. -/
theorem run_sem {sems_count : UInt32} (hne : t.uio_resid ≠ 0)
    (hret : (Vop.run rw t (.sem sems_count)).2 = none) :
    (Vop.run rw t (.sem sems_count)).1.moved = t.moved ∧
      (Vop.run rw t (.sem sems_count)).1.uio_resid = 0 := by
  rw [Vop.run, if_neg hne] at hret ⊢
  split at hret
  · cases hret
  · next hroom =>
    rw [if_neg hroom]
    exact ⟨rfl, rfl⟩

/-- No operation leaves more than it was asked for. -/
theorem run_resid_le (rw : UioRw) (op : Vop) (of : Openfile) (size : UInt32) :
    (op.run rw (startTransfer of size)).1.uio_resid ≤ size := by
  cases op with
  | uiomoves moves result =>
    have hbalance := runMoves_resid result moves (startTransfer of size)
    rw [UInt32.le_iff_toNat_le]
    simp only [startTransfer, Vop.run] at hbalance ⊢
    omega
  | null =>
    rw [Vop.run]
    split
    · exact UInt32.zero_le
    · exact UInt32.le_refl _
  | sem sems_count =>
    rw [Vop.run]
    split
    · exact UInt32.le_refl _
    · split
      · exact UInt32.le_refl _
      · exact UInt32.zero_le

/-- An operation that returns 0 serves the call exactly if it has moved the bytes that it counts
    and has left the offset behind them. -/
theorem serves_iff {op : Vop} {of : Openfile}
    (hret : (op.run rw (startTransfer of size)).2 = none) :
    op.Serves rw (startTransfer of size) ↔
      (op.run rw (startTransfer of size)).1.moved =
          (size - (op.run rw (startTransfer of size)).1.uio_resid).toNat ∧
        (op.run rw (startTransfer of size)).1.uio_offset =
          of.offset + (size - (op.run rw (startTransfer of size)).1.uio_resid).toNat := by
  cases op with
  | uiomoves moves result =>
    have hbalance := runMoves_resid result moves (startTransfer of size)
    have hcount : (runMoves result moves (startTransfer of size)).1.moved =
        (size - (runMoves result moves (startTransfer of size)).1.uio_resid).toNat := by
      have hsub := UInt32.toNat_sub_of_le _ _ (run_resid_le rw (.uiomoves moves result) of size)
      simp only [startTransfer, Vop.run] at hbalance hsub ⊢
      omega
    rw [Vop.run, ← hcount]
    exact ⟨fun h => ⟨rfl, h⟩, fun h => h.2⟩
  | null =>
    cases rw with
    | UIO_READ => simp [Vop.Serves, Vop.run, startTransfer]
    | UIO_WRITE =>
      simp only [Vop.Serves, Vop.run, startTransfer, if_true, UInt32.sub_zero,
        toNat_eq_zero_iff, reduceCtorEq, false_or]
      constructor
      · rintro rfl
        exact ⟨rfl, rfl⟩
      · exact fun h => h.1
  | sem sems_count =>
    by_cases hzero : size = 0
    · subst hzero
      simp [Vop.Serves, Vop.run, startTransfer]
    · obtain ⟨hmoved, hresid⟩ := run_sem hzero hret
      rw [hmoved, hresid, UInt32.sub_zero, startTransfer, toNat_eq_zero_iff]
      exact ⟨fun h => absurd h hzero, fun h => absurd h.1 hzero⟩

/-! ## What is reported -/

theorem syscallEnd_count {r : UInt32} (h : r.toNat < 2 ^ 31) : syscallEnd r = (r, false) := by
  unfold syscallEnd
  rw [if_neg]
  rw [toInt32_neg_iff]
  omega

theorem syscallEnd_error {r : UInt32} (h : 2 ^ 31 ≤ r.toNat) :
    syscallEnd r = (Errno.ENOSYS.number, true) := by
  unfold syscallEnd
  rw [if_pos ((toInt32_neg_iff r).2 h)]

/-- Error numbers are small. -/
theorem number_lt (e : Errno) : e.number.toNat < 2 ^ 31 := by
  cases e <;> decide

theorem fileIo_outside (h : fd.toInt = OPEN_MAX) :
    fileIo rw fileTable files vop fd size = .error .outOfBounds := by
  have hnonneg : ¬ fd < 0 := by
    rw [Int32.lt_iff_toInt_lt, h]
    decide
  unfold fileIo
  rw [if_neg (by rw [h]; simp [hnonneg]), if_pos h]

theorem fileIo_leads (h : Leads fileTable files fd i vn) :
    fileIo rw fileTable files vop fd size = .ok (vnodeIo rw files vop size i vn) := by
  obtain ⟨hpos, hlt, hi, hvn⟩ := h
  have hnonneg : ¬ fd < 0 := by
    rw [Int32.lt_iff_toInt_lt]
    exact Int.not_lt.2 hpos
  unfold fileIo
  rw [if_neg (by simp only [hnonneg, false_or]; omega), if_neg (by omega), hi]
  dsimp only
  rw [hvn]

/-- A descriptor that does not lead to a file is turned down. -/
theorem fileIo_closed (hmax : fd.toInt ≠ OPEN_MAX) (h : ∀ i vn, ¬ Leads fileTable files fd i vn) :
    fileIo rw fileTable files vop fd size = .ok ⟨files, -1, 0⟩ := by
  unfold fileIo
  split
  · rfl
  · next hrange =>
    simp only [not_or] at hrange
    have hpos : 0 ≤ fd.toInt := by
      have hnonneg := hrange.1
      rw [Int32.lt_iff_toInt_lt] at hnonneg
      exact Int.not_lt.1 hnonneg
    cases hi : fileTable fd.toInt.toNat with
    | none => rfl
    | some i =>
      dsimp only
      cases hvn : (files i).vn with
      | none => rfl
      | some vn => exact absurd ⟨hpos, by omega, hi, hvn⟩ (h i vn)

theorem vnodeIo_error {e : Errno}
    (h : ((vop vn).run rw (startTransfer (files i) size)).2 = some e) :
    (vnodeIo rw files vop size i vn).retval = e.number := by
  unfold vnodeIo
  split
  · next heq =>
    rw [heq] at h
    cases h
    rfl
  · next heq =>
    rw [heq] at h
    cases h

theorem vnodeIo_ok (h : ((vop vn).run rw (startTransfer (files i) size)).2 = none) :
    vnodeIo rw files vop size i vn =
      ⟨Function.update files i { files i with
          offset := ((vop vn).run rw (startTransfer (files i) size)).1.uio_offset },
        size - ((vop vn).run rw (startTransfer (files i) size)).1.uio_resid,
        ((vop vn).run rw (startTransfer (files i) size)).1.moved⟩ := by
  unfold vnodeIo
  split
  · next heq =>
    rw [heq] at h
    cases h
  · next heq => rw [heq]

theorem sysIo_leads (vop : Nat → Vop) (size : UInt32) (console : Except Crash IoResult)
    (hfd : ¬ ConsoleFd rw fd) (h : Leads fileTable files fd i vn) :
    sysIo rw fileTable files vop fd size console = .ok (vnodeIo rw files vop size i vn) := by
  rw [sysIo, if_neg hfd, fileIo_leads h]

theorem Leads.unique {i' vn' : Nat} (h : Leads fileTable files fd i vn)
    (h' : Leads fileTable files fd i' vn') : i' = i ∧ vn' = vn := by
  obtain ⟨-, -, hi, hvn⟩ := h
  obtain ⟨-, -, hi', hvn'⟩ := h'
  rw [hi] at hi'
  obtain rfl : i = i' := Option.some.inj hi'
  rw [hvn] at hvn'
  exact ⟨rfl, (Option.some.inj hvn').symm⟩

/-- The report about a file whose operation conforms. -/
theorem Conforms.reports (hfd : ¬ ConsoleFd rw fd) (hleads : Leads fileTable files fd i vn)
    (h : Conforms rw files vop size i vn) : Reports rw fileTable files vop fd size console := by
  obtain ⟨hret, hserves⟩ := h
  have hio := sysIo_leads vop size console hfd hleads
  refine ⟨⟨_, hio⟩, fun out n hout hend => ?_, fun out i' vn' e _ hleads' herr => ?_⟩
  · rw [hio, vnodeIo_ok hret] at hout
    cases hout
    dsimp only at hend ⊢
    have hlt : (size - ((vop vn).run rw (startTransfer (files i) size)).1.uio_resid).toNat
        < 2 ^ 31 := by
      by_contra hge
      rw [syscallEnd_error (Nat.not_lt.1 hge)] at hend
      cases hend
    rw [syscallEnd_count hlt] at hend
    cases hend
    obtain ⟨hmoved, hoffset⟩ := (serves_iff hret).1 (hserves.resolve_right (Nat.not_le.2 hlt))
    have hle := UInt32.toNat_sub_of_le _ _ (run_resid_le rw (vop vn) (files i) size)
    exact ⟨by omega, hmoved, i, vn, hleads, by rw [hoffset]⟩
  · obtain ⟨rfl, rfl⟩ := hleads.unique hleads'
    rw [hret] at herr
    cases herr

/-- The report about a descriptor without a file is an error. -/
theorem reports_closed (hfd : ¬ ConsoleFd rw fd) (hmax : fd.toInt ≠ OPEN_MAX)
    (h : ∀ i vn, ¬ Leads fileTable files fd i vn) :
    Reports rw fileTable files vop fd size console := by
  have hio : sysIo rw fileTable files vop fd size console = .ok ⟨files, -1, 0⟩ := by
    rw [sysIo, if_neg hfd, fileIo_closed hmax h]
  refine ⟨⟨_, hio⟩, fun out n hout hend => ?_, fun out i vn e _ hleads => absurd hleads (h i vn)⟩
  rw [hio] at hout
  cases hout
  have hneg : syscallEnd (-1) = (Errno.ENOSYS.number, true) := by decide
  rw [hneg] at hend
  cases hend

/-- The error number of an operation is taken for a count. -/
theorem Reports.conforms (hfd : ¬ ConsoleFd rw fd) (hleads : Leads fileTable files fd i vn)
    (h : Reports rw fileTable files vop fd size console) : Conforms rw files vop size i vn := by
  have hio := sysIo_leads vop size console hfd hleads
  have hret : ((vop vn).run rw (startTransfer (files i) size)).2 = none := by
    cases herr : ((vop vn).run rw (startTransfer (files i) size)).2 with
    | none => rfl
    | some e =>
      obtain ⟨hreported, -⟩ := h.failure _ _ _ _ hio hleads herr
      rw [vnodeIo_error herr, syscallEnd_count (number_lt e)] at hreported
      cases hreported
  refine ⟨hret, ?_⟩
  by_cases hlt : (size - ((vop vn).run rw (startTransfer (files i) size)).1.uio_resid).toNat
      < 2 ^ 31
  · left
    rw [vnodeIo_ok hret] at hio
    obtain ⟨-, hmoved, i', vn', hleads', hfiles⟩ := h.success _ _ hio (syscallEnd_count hlt)
    obtain ⟨rfl, rfl⟩ := hleads.unique hleads'
    dsimp only at hfiles
    have hentry := congrFun hfiles i'
    rw [Function.update_self, Function.update_self] at hentry
    exact (serves_iff hret).2 ⟨hmoved, congrArg Openfile.offset hentry⟩
  · exact .inr (Nat.not_lt.1 hlt)

/-- `read` and `write` of a descriptor other than the console's keep the convention exactly if the
    descriptor is not `OPEN_MAX` and the operation of an open file behind it returns 0, with its
    data moved through `uiomove`, or with a count that does not fit into an `int`. -/
theorem reports_iff (hfd : ¬ ConsoleFd rw fd) :
    Reports rw fileTable files vop fd size console ↔
      fd.toInt ≠ OPEN_MAX ∧
        ∀ i vn, Leads fileTable files fd i vn → Conforms rw files vop size i vn := by
  constructor
  · intro h
    refine ⟨fun hmax => ?_, fun i vn hleads => h.conforms hfd hleads⟩
    obtain ⟨out, hout⟩ := h.inside
    rw [sysIo, if_neg hfd, fileIo_outside hmax] at hout
    cases hout
  · rintro ⟨hmax, h⟩
    by_cases hopen : ∃ i vn, Leads fileTable files fd i vn
    · obtain ⟨i, vn, hleads⟩ := hopen
      exact (h i vn hleads).reports hfd hleads
    · exact reports_closed hfd hmax fun i vn hleads => hopen ⟨i, vn, hleads⟩

/-- A table of open files with one file in it: descriptor 3 leads to it, and the file is open at
    offset 40. -/
def oneFile : (Nat → Option Nat) × (Nat → Openfile) :=
  (fun fd => if fd = 3 then some 0 else none,
    fun i => if i = 0 then ⟨some 7, 40, 1⟩ else ⟨none, 0, 0⟩)

theorem oneFile_leads : Leads oneFile.1 oneFile.2 3 0 7 := ⟨by decide, by decide, rfl, rfl⟩

/-- 100 bytes are asked for, the file has 60 left. -/
theorem short_read_reported :
    Reports .UIO_READ oneFile.1 oneFile.2 (fun _ => .uiomoves [⟨60, true, none⟩] none) 3 100
      (.error .outOfBounds) := by
  refine (reports_iff (by decide)).2 ⟨by decide, fun i vn hleads => ?_⟩
  obtain ⟨rfl, rfl⟩ := oneFile_leads.unique hleads
  exact ⟨by decide, .inl (serves_uiomoves (by simp) none _ _)⟩

/-- `uiomove` fails because the buffer is not mapped, and the caller is told that `EFAULT` many
    bytes were read; and descriptor `OPEN_MAX` is looked up behind the table. -/
theorem failed_read_succeeds :
    (∃ out, sysIo .UIO_READ oneFile.1 oneFile.2 (fun _ => .uiomoves [⟨60, false, none⟩] none) 3 100
        (.error .outOfBounds) = .ok out ∧ out.moved = 0 ∧
          syscallEnd out.retval = (Errno.EFAULT.number, false)) ∧
      sysIo .UIO_READ oneFile.1 oneFile.2 (fun _ => .null) 128 100 (.ok ⟨oneFile.2, 0, 0⟩) =
        .error .outOfBounds ∧
      ¬ Reports .UIO_READ oneFile.1 oneFile.2 (fun _ => .uiomoves [⟨60, false, none⟩] none) 3 100
        (.error .outOfBounds) ∧
      ¬ Reports .UIO_READ oneFile.1 oneFile.2 (fun _ => .null) 128 100
        (.ok ⟨oneFile.2, 0, 0⟩) := by
  refine ⟨⟨_, rfl, by decide, by decide⟩, rfl, fun h => ?_, fun h => ?_⟩
  · exact absurd (h.failure _ 0 7 .EFAULT rfl oneFile_leads rfl).1 (by decide)
  · obtain ⟨out, hout⟩ := h.inside
    cases hout

end DemandPaging.Syscall
