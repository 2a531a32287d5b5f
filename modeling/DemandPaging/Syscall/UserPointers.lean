import DemandPaging.Syscall

set_option autoImplicit false

/-! # Pointers into the kernel

A call keeps away from the kernel's memory if every address it uses is below `USERSPACETOP`, and if
it reports an error whenever the block or the string it is given is not. `copycheck` guards the
first half for open files; the console, the path of `sys_open` and the status of `sys_waitpid` are
used as they come. The second half fails for open files as well: `file_read` and `file_write` return
the number of the error, and `syscall` takes any number that is not negative for a success. -/

namespace DemandPaging.Syscall

/-- Not all of the block is below `USERSPACETOP`; it may wrap around. -/
def BlockCrosses (p : VAddr) (n : Nat) : Prop := ∃ i < n, USERSPACETOP.toNat ≤ p.toNat + i

/-- The string does not end below `USERSPACETOP`. -/
def StringCrosses (byte : VAddr → UInt8) (p : VAddr) : Prop :=
  ∀ a, p ≤ a → a < USERSPACETOP → byte a ≠ 0

/-- What the call is given reaches the kernel. -/
def Crosses (curproc : Process) (tf : Trapframe) : Prop :=
  if tf.tf_v0 = SYS_open then StringCrosses curproc.byte tf.tf_a0
  else if tf.tf_v0 = SYS_write ∨ tf.tf_v0 = SYS_read then BlockCrosses tf.tf_a1 tf.tf_a2.toNat
  else if tf.tf_v0 = SYS_waitpid then tf.tf_a1 ≠ 0 ∧ BlockCrosses tf.tf_a1 4
  else False

/-- Whatever the rest of the kernel does, the call uses no address of the kernel, and it reports an
    error when it is given one. -/
def KernelSafe (curproc : Process) (tf : Trapframe) : Prop :=
  ∀ w, (syscall w curproc tf).All (· < USERSPACETOP) ∧
    (Crosses curproc tf → ∃ v0, (syscall w curproc tf).result = some (v0, true))

/-- There is no open file behind the descriptor. -/
def NoFile (fileTable : Int32 → Bool) (fd : Int32) : Prop :=
  fd < 0 ∨ OPEN_MAX < fd.toInt ∨ fileTable fd = false

/-- The descriptors that `sys_write` and `sys_read` handle themselves. -/
def Console (tf : Trapframe) : Prop :=
  if tf.tf_v0 = SYS_write then tf.tf_a0.toInt32 = 1 ∨ tf.tf_a0.toInt32 = 2 else tf.tf_a0.toInt32 = 0

/-- The call is refused before it looks at the pointer: an access mode that does not exist, a size
    that is negative as an `int`, a descriptor without a file. -/
def RefusedFirst (curproc : Process) (tf : Trapframe) : Prop :=
  if tf.tf_v0 = SYS_open then tf.tf_a1 &&& World.O_ACCMODE = 3
  else if tf.tf_v0 = SYS_write ∨ tf.tf_v0 = SYS_read then
    Console tf ∧ 2 ^ 31 ≤ tf.tf_a2.toNat ∨
      ¬ Console tf ∧ NoFile curproc.fileTable tf.tf_a0.toInt32
  else False

variable {w : World} {curproc : Process} {tf : Trapframe} {P : VAddr → Prop} {p a : VAddr} {n : Nat}

/-! ## Blocks -/

theorem block_below (h : ¬ BlockCrosses p n) : ∀ a ∈ block p n, a < USERSPACETOP := by
  intro a ha
  obtain ⟨i, hi, rfl⟩ := List.mem_map.1 ha
  have hi' := List.mem_range.1 hi
  have hlt : p.toNat + i < USERSPACETOP.toNat := by
    by_contra hge
    exact h ⟨i, hi', Nat.le_of_not_lt hge⟩
  have htop : USERSPACETOP.toNat = 0x80000000 := by decide
  rw [UInt32.lt_iff_toNat_lt, UInt32.toNat_add, UInt32.toNat_ofNat']
  omega

theorem BlockCrosses.mono {m : Nat} (h : BlockCrosses p m) (hle : m ≤ n) : BlockCrosses p n := by
  obtain ⟨i, hi, htop⟩ := h
  exact ⟨i, by omega, htop⟩

/-- `copycheck` lets only blocks of user memory through. -/
theorem copycheck_below {addr : VAddr} {len : UInt32} (h : Caller.copycheck addr len = true) :
    ¬ BlockCrosses addr len.toNat := by
  unfold Caller.copycheck at h
  simp only [Bool.and_eq_true, decide_eq_true_eq] at h
  obtain ⟨⟨hwrap, hbot⟩, htop⟩ := h
  rintro ⟨i, hi, hge⟩
  have hsize : USERSPACETOP.toNat = 0x80000000 := by decide
  have hone : (1 : UInt32).toNat = 1 := rfl
  rw [UInt32.le_iff_toNat_le, UInt32.toNat_sub, UInt32.toNat_add, hone] at hwrap
  rw [UInt32.lt_iff_toNat_lt] at hbot
  rw [UInt32.lt_iff_toNat_lt, UInt32.toNat_sub, UInt32.toNat_add, hone] at htop
  have := len.toNat_lt
  omega

/-! ## What the accesses leave -/

theorem deref_all (ha : P a) : (w.deref a).All P := by
  intro e he
  rwa [List.mem_singleton.1 he]

theorem of_deref_all (h : (w.deref a).All P) : P a := h a (List.mem_singleton.2 rfl)

theorem derefAll_all {l : List VAddr} (h : ∀ a ∈ l, P a) : (w.derefAll l).All P := by
  induction l with
  | nil => exact .pure ()
  | cons a l ih =>
    refine Traced.all_bind_iff.2 ⟨deref_all (h a (List.mem_cons_self ..)), fun _ _ => ?_⟩
    exact ih fun b hb => h b (List.mem_cons_of_mem _ hb)

theorem memcpy_all {l : List VAddr} (h : ∀ a ∈ l, P a) : (w.memcpy l).All P := by
  induction l with
  | nil => exact .pure true
  | cons a l ih =>
    have ha : ∀ r, (⟨[a], r⟩ : Call Bool).All P := fun r e he =>
      List.mem_singleton.1 he ▸ h a (List.mem_cons_self ..)
    unfold World.memcpy
    cases w.access a with
    | through =>
      refine Traced.all_bind_iff.2
        ⟨?_, fun _ _ => ih fun b hb => h b (List.mem_cons_of_mem _ hb)⟩
      exact fun e he => List.mem_singleton.1 he ▸ h a (List.mem_cons_self ..)
    | fault => exact ha _
    | gone => exact ha _

/-- `copyin` and `copyout` stay in user memory, whatever they are given. -/
theorem copyUser_all (addr : VAddr) (len : UInt32) :
    (w.copyUser addr len).All (· < USERSPACETOP) := by
  unfold World.copyUser
  split
  · next hcheck =>
    exact Traced.all_bind_iff.2
      ⟨memcpy_all (block_below (copycheck_below hcheck)), fun _ _ => .pure _⟩
  · exact .pure _

theorem vopIo_all (ns : List UInt32) (base : VAddr) (resid : UInt32) :
    (w.vopIo ns base resid).All (· < USERSPACETOP) := by
  induction ns generalizing base resid with
  | nil =>
    unfold World.vopIo
    split <;> exact .pure _
  | cons n ns ih =>
    unfold World.vopIo
    split
    · exact ih base resid
    · refine Traced.all_bind_iff.2 ⟨copyUser_all _ _, fun r _ => ?_⟩
      cases r with
      | some e => exact .pure _
      | none => exact ih _ _

/-! ## Strings -/

variable {byte : VAddr → UInt8} {test : UInt8 → Bool}

theorem lt_of_ne_nul (hpa : p ≤ a) (hp : byte p ≠ 0) (ha : byte a = 0) : p < a := by
  rcases UInt32.lt_or_eq_of_le hpa with hlt | rfl
  · exact hlt
  · exact absurd ha hp

theorem succ_toNat (h : p < a) : (p + 1).toNat = p.toNat + 1 := by
  have hone : (1 : UInt32).toNat = 1 := rfl
  have := a.toNat_lt
  rw [UInt32.lt_iff_toNat_lt] at h
  rw [UInt32.toNat_add, hone]
  omega

theorem succ_le (h : p < a) : p + 1 ≤ a := by
  rw [UInt32.le_iff_toNat_le, succ_toNat h]
  exact UInt32.lt_iff_toNat_lt.1 h

/-- A scan that stops at the end of the string, at the latest, stays in front of it. -/
theorem scan_below (test : UInt8 → Bool) (hstop : test 0 = true) (htop : a < USERSPACETOP)
    (ha : byte a = 0) (fuel : Nat) (hpa : p ≤ a) :
    (w.scan byte test fuel p).All (· < USERSPACETOP) ∧
      ∀ r, (w.scan byte test fuel p).result = some r → p ≤ r ∧ r ≤ a := by
  induction fuel generalizing p with
  | zero => exact ⟨.halt, fun r hr => by cases hr⟩
  | succ fuel ih =>
    have hp : (w.deref p).All (· < USERSPACETOP) := deref_all (UInt32.lt_of_le_of_lt hpa htop)
    unfold World.scan
    by_cases htest : test (byte p) = true
    · simp only [htest, if_true]
      refine ⟨Traced.all_bind_iff.2 ⟨hp, fun _ _ => .pure p⟩, fun r hr => ?_⟩
      obtain ⟨-, -, hr⟩ := Traced.bind_result_eq_some.1 hr
      cases hr
      exact ⟨UInt32.le_refl p, hpa⟩
    · have hne : byte p ≠ 0 := fun h0 => htest (by rw [h0]; exact hstop)
      have hlt := lt_of_ne_nul hpa hne ha
      obtain ⟨hall, hres⟩ := ih (succ_le hlt)
      simp only [htest]
      refine ⟨Traced.all_bind_iff.2 ⟨hp, fun _ _ => hall⟩, fun r hr => ?_⟩
      obtain ⟨-, -, hr⟩ := Traced.bind_result_eq_some.1 hr
      obtain ⟨hle, hra⟩ := hres r hr
      refine ⟨?_, hra⟩
      rw [UInt32.le_iff_toNat_le, succ_toNat hlt] at hle
      rw [UInt32.le_iff_toNat_le]
      omega

/-- A scan that stays in user memory ends there, in front of where it started. -/
theorem scan_ends {fuel : Nat} {r : VAddr} (hall : (w.scan byte test fuel p).All (· < USERSPACETOP))
    (hr : (w.scan byte test fuel p).result = some r) :
    p ≤ r ∧ r < USERSPACETOP ∧ test (byte r) = true := by
  induction fuel generalizing p with
  | zero => cases hr
  | succ fuel ih =>
    unfold World.scan at hall hr
    obtain ⟨hderef, hrest⟩ := Traced.all_bind_iff.1 hall
    obtain ⟨u, hu, hr⟩ := Traced.bind_result_eq_some.1 hr
    have hrest := hrest u hu
    have hp : p < USERSPACETOP := of_deref_all (P := (· < USERSPACETOP)) hderef
    by_cases htest : test (byte p) = true
    · simp only [htest, if_true] at hr
      cases hr
      exact ⟨UInt32.le_refl _, hp, htest⟩
    · simp only [htest] at hr hrest
      obtain ⟨hle, hend⟩ := ih hrest hr
      refine ⟨?_, hend⟩
      rw [UInt32.le_iff_toNat_le, succ_toNat hp] at hle
      rw [UInt32.le_iff_toNat_le]
      omega

/-- The bytes behind `p` up to the end of the string, once `p` is not the end. -/
theorem scan_behind (test : UInt8 → Bool) (hslash : test 0 = true) (htop : a < USERSPACETOP)
    (ha : byte a = 0) (hpa : p ≤ a) (hne : byte p ≠ 0) (fuel : Nat) :
    (w.scan byte test fuel (p + 1)).All (· < USERSPACETOP) ∧
      ∀ r, (w.scan byte test fuel (p + 1)).result = some r → p ≤ r ∧ r ≤ a := by
  have hlt := lt_of_ne_nul hpa hne ha
  obtain ⟨hall, hres⟩ := scan_below (w := w) test hslash htop ha fuel (succ_le hlt)
  refine ⟨hall, fun r hr => ?_⟩
  obtain ⟨hle, hra⟩ := hres r hr
  refine ⟨UInt32.le_trans ?_ hle, hra⟩
  rw [UInt32.le_iff_toNat_le, succ_toNat hlt]
  omega

variable {path sub stop : VAddr}

theorem startvn_below (htop : a < USERSPACETOP) (ha : byte a = 0) (hpa : path ≤ a)
    (hfirst : byte path ≠ 0) (hsa : stop ≤ a) :
    (w.startvn byte path stop).All (· < USERSPACETOP) ∧
      ∀ sub, (w.startvn byte path stop).result = some (.ok sub) → sub ≤ a := by
  unfold World.startvn
  split
  · next hcolon =>
    have hne : byte stop ≠ 0 := by
      rw [hcolon.1]
      decide
    obtain ⟨hscan, hsub⟩ :=
      scan_behind (w := w) (· != World.SLASH) rfl htop ha hsa hne (2 ^ 32)
    refine ⟨Traced.all_bind_iff.2 ⟨deref_all (UInt32.lt_of_le_of_lt hsa htop), fun _ _ =>
      Traced.all_bind_iff.2 ⟨hscan, fun _ _ => .pure _⟩⟩, fun sub hr => ?_⟩
    obtain ⟨-, -, hr⟩ := Traced.bind_result_eq_some.1 hr
    obtain ⟨r, hr, hres⟩ := Traced.bind_result_eq_some.1 hr
    cases hroot : w.vfs_getroot with
    | some e => rw [hroot] at hres; cases hres
    | none =>
      rw [hroot] at hres
      cases hres
      exact (hsub _ hr).2
  · split
    · refine ⟨.pure _, fun sub hr => ?_⟩
      cases hdir : w.vfs_getcurdir with
      | some e => rw [hdir] at hr; cases hr
      | none =>
        rw [hdir] at hr
        cases hr
        exact hpa
    · split
      · exact ⟨.halt, fun sub hr => by cases hr⟩
      · exact ⟨.pure _, fun sub hr => by cases hr⟩
      · obtain ⟨hscan, hsub⟩ :=
          scan_behind (w := w) (· != World.SLASH) rfl htop ha hpa hfirst (2 ^ 32)
        refine ⟨Traced.all_bind_iff.2 ⟨hscan, fun _ _ => .pure _⟩, fun sub hr => ?_⟩
        obtain ⟨r, hr, hres⟩ := Traced.bind_result_eq_some.1 hr
        cases hres
        exact (hsub _ hr).2

theorem getdevice_below (htop : a < USERSPACETOP) (ha : byte a = 0) (hpa : path ≤ a) :
    (w.getdevice byte path).All (· < USERSPACETOP) ∧
      ∀ sub, (w.getdevice byte path).result = some (.ok sub) → sub ≤ a := by
  have hpath : (w.deref path).All (· < USERSPACETOP) := deref_all (UInt32.lt_of_le_of_lt hpa htop)
  unfold World.getdevice
  by_cases hempty : byte path = 0
  · simp only [hempty, if_true]
    refine ⟨Traced.all_bind_iff.2 ⟨hpath, fun _ _ => .pure _⟩, fun sub hr => ?_⟩
    obtain ⟨-, -, hr⟩ := Traced.bind_result_eq_some.1 hr
    cases hr
  · simp only [hempty, if_false]
    obtain ⟨hscan, hstop⟩ := scan_below (w := w)
      (fun b => b == 0 || b == World.COLON || b == World.SLASH) rfl htop ha (2 ^ 32) hpa
    have hstart : ∀ stop, (w.scan byte _ (2 ^ 32) path).result = some stop → _ := fun stop hr =>
      startvn_below (w := w) htop ha hpa hempty (hstop stop hr).2
    refine ⟨Traced.all_bind_iff.2 ⟨hpath, fun _ _ =>
      Traced.all_bind_iff.2 ⟨hscan, fun stop hr => (hstart stop hr).1⟩⟩, fun sub hr => ?_⟩
    obtain ⟨-, -, hr⟩ := Traced.bind_result_eq_some.1 hr
    obtain ⟨stop, hscanned, hr⟩ := Traced.bind_result_eq_some.1 hr
    exact (hstart stop hscanned).2 sub hr

/-- The look-up of a string in user memory stays in the string. -/
theorem vfsOpen_below (htop : a < USERSPACETOP) (ha : byte a = 0) (hpa : path ≤ a)
    (openflags : UInt32) : (w.vfsOpen byte path openflags).All (· < USERSPACETOP) := by
  obtain ⟨hdevice, hsub⟩ := getdevice_below (w := w) htop ha hpa
  unfold World.vfsOpen
  split
  · exact .pure _
  · refine Traced.all_bind_iff.2 ⟨hdevice, fun r hr => ?_⟩
    cases r with
    | error e => exact .pure _
    | ok sub =>
      obtain ⟨hscan, -⟩ := scan_below (w := w) (· == 0) rfl htop ha (2 ^ 32) (hsub sub hr)
      refine Traced.all_bind_iff.2 ⟨hscan, fun nul _ => ?_⟩
      split <;> exact .pure _

/-- A kernel in which every access gets through and everything succeeds at once. -/
def obliging : World where
  access _ := .through
  getch _ := 0
  uiomoves := []
  vop := none
  vfs_getcurdir := none
  vfs_getroot := none
  bootfs_vnode := true
  vn_fs := true
  fsop_getroot := none
  vop_lookup := none
  descriptor := .ok 3
  proc_wait := some 0
  other := none

theorem obliging_rootVnode (b : UInt8) : obliging.rootVnode b = some none := by
  unfold World.rootVnode
  split <;> rfl

theorem obliging_startvn {r : Except Errno VAddr} (hpath : path < USERSPACETOP) (hps : path ≤ stop)
    (hall : (obliging.startvn byte path stop).All (· < USERSPACETOP))
    (hr : (obliging.startvn byte path stop).result = some r) : ∃ sub, r = .ok sub ∧ path ≤ sub := by
  have hbehind : ∀ {q s : VAddr}, q < USERSPACETOP → q + 1 ≤ s → q ≤ s := by
    intro q s hq hle
    rw [UInt32.le_iff_toNat_le, succ_toNat hq] at hle
    rw [UInt32.le_iff_toNat_le]
    omega
  unfold World.startvn at hall hr
  split at hr
  · next hcolon =>
    rw [if_pos hcolon] at hall
    obtain ⟨hderef, hrest⟩ := Traced.all_bind_iff.1 hall
    obtain ⟨u, hu, hr⟩ := Traced.bind_result_eq_some.1 hr
    obtain ⟨hscan, -⟩ := Traced.all_bind_iff.1 (hrest u hu)
    obtain ⟨sub, hsub, hr⟩ := Traced.bind_result_eq_some.1 hr
    cases hr
    have hstop : stop < USERSPACETOP := of_deref_all (P := (· < USERSPACETOP)) hderef
    exact ⟨sub, rfl, UInt32.le_trans hps (hbehind hstop (scan_ends hscan hsub).1)⟩
  · next hcolon =>
    rw [if_neg hcolon] at hall
    split at hr
    · cases hr
      exact ⟨path, rfl, UInt32.le_refl path⟩
    · next hstop =>
      rw [if_neg hstop] at hall
      rw [obliging_rootVnode] at hall hr
      obtain ⟨hscan, -⟩ := Traced.all_bind_iff.1 hall
      obtain ⟨sub, hsub, hr⟩ := Traced.bind_result_eq_some.1 hr
      cases hr
      exact ⟨sub, rfl, hbehind hpath (scan_ends hscan hsub).1⟩

theorem obliging_getdevice {r : Except Errno VAddr}
    (hall : (obliging.getdevice byte path).All (· < USERSPACETOP))
    (hr : (obliging.getdevice byte path).result = some r) :
    path < USERSPACETOP ∧ (byte path = 0 ∨ ∃ sub, r = .ok sub ∧ path ≤ sub) := by
  unfold World.getdevice at hall hr
  obtain ⟨hderef, hrest⟩ := Traced.all_bind_iff.1 hall
  obtain ⟨u, hu, hr⟩ := Traced.bind_result_eq_some.1 hr
  have hpath : path < USERSPACETOP := of_deref_all (P := (· < USERSPACETOP)) hderef
  refine ⟨hpath, ?_⟩
  by_cases hempty : byte path = 0
  · exact .inl hempty
  · have hrest := hrest u hu
    rw [if_neg hempty] at hrest hr
    obtain ⟨hscan, hrest⟩ := Traced.all_bind_iff.1 hrest
    obtain ⟨stop, hstop, hr⟩ := Traced.bind_result_eq_some.1 hr
    exact .inr (obliging_startvn hpath (scan_ends hscan hstop).1 (hrest stop hstop) hr)

/-- When everything succeeds, the look-up comes to the end of the string. -/
theorem obliging_vfsOpen {openflags : UInt32} {r : Option Errno}
    (hmode : ¬ openflags &&& World.O_ACCMODE = 3)
    (hall : (obliging.vfsOpen byte path openflags).All (· < USERSPACETOP))
    (hr : (obliging.vfsOpen byte path openflags).result = some r) :
    ¬ StringCrosses byte path := by
  unfold World.vfsOpen at hall hr
  rw [if_neg hmode] at hall hr
  obtain ⟨hdevice, hrest⟩ := Traced.all_bind_iff.1 hall
  obtain ⟨dev, hdev, hr⟩ := Traced.bind_result_eq_some.1 hr
  intro hcross
  obtain ⟨hpath, hempty | ⟨sub, rfl, hle⟩⟩ := obliging_getdevice hdevice hdev
  · exact hcross path (UInt32.le_refl path) hpath hempty
  · obtain ⟨hscan, -⟩ := Traced.all_bind_iff.1 (hrest _ hdev)
    obtain ⟨nul, hnul, -⟩ := Traced.bind_result_eq_some.1 hr
    obtain ⟨hsub, htop, hend⟩ := scan_ends hscan hnul
    exact hcross nul (UInt32.le_trans hle hsub) htop (by simpa using hend)

/-! ## The calls one by one -/

/-- The call uses no address of the kernel, and returns a negative number when it is given one. -/
def Guarded (crosses : Prop) (call : World → Call UInt32) : Prop :=
  ∀ w, (call w).All (· < USERSPACETOP) ∧
    (crosses → ∃ r, (call w).result = some r ∧ r.toInt32 < 0)

variable {crosses : Prop} {fileTable : Int32 → Bool} {fd : Int32} {buf_ptr : VAddr} {size : UInt32}

theorem toInt32_toInt (x : UInt32) :
    x.toInt32.toInt = if x.toNat < 2 ^ 31 then (x.toNat : Int) else x.toNat - 2 ^ 32 := by
  have hx : x.toInt32.toInt = x.toBitVec.toInt := rfl
  rw [hx, BitVec.toInt_eq_toNat_cond]
  have hnat : x.toBitVec.toNat = x.toNat := rfl
  rw [hnat]
  split <;> split <;> omega

theorem toInt32_neg_iff (x : UInt32) : x.toInt32 < 0 ↔ 2 ^ 31 ≤ x.toNat := by
  have hzero : (0 : Int32).toInt = 0 := rfl
  have := x.toNat_lt
  rw [Int32.lt_iff_toInt_lt, hzero, toInt32_toInt]
  split <;> omega

theorem intBound_eq (size : UInt32) :
    World.intBound size = if size.toNat < 2 ^ 31 then size.toNat else 0 := by
  have := size.toNat_lt
  unfold World.intBound
  rw [toInt32_toInt]
  split <;> omega

theorem fileIo_noFile (h : NoFile fileTable fd) :
    w.fileIo fileTable fd buf_ptr size = pure (-1) := if_pos h

theorem fileIo_file (h : ¬ NoFile fileTable fd) : w.fileIo fileTable fd buf_ptr size = (do
    let result ← w.vopIo w.uiomoves buf_ptr size
    return Caller.retval (result.map (size - ·))) := if_neg h

theorem fileIo_guarded_iff :
    Guarded crosses (·.fileIo fileTable fd buf_ptr size) ↔ ¬ crosses ∨ NoFile fileTable fd := by
  constructor
  · intro h
    by_contra hno
    push Not at hno
    obtain ⟨r, hr, hneg⟩ := (h obliging).2 hno.1
    -- a file that has nothing to move
    have hzero : (obliging.fileIo fileTable fd buf_ptr size).result = some (size - size) := by
      rw [fileIo_file hno.2]
      rfl
    cases hr.symm.trans hzero
    rw [UInt32.sub_self] at hneg
    exact absurd hneg (by decide)
  · intro h w
    by_cases hfile : NoFile fileTable fd
    · simp only [fileIo_noFile hfile]
      exact ⟨.pure _, fun _ => ⟨-1, rfl, by decide⟩⟩
    · simp only [fileIo_file hfile]
      refine ⟨Traced.all_bind_iff.2 ⟨vopIo_all _ _ _, fun _ _ => .pure _⟩, fun hc => ?_⟩
      exact absurd hc (h.resolve_right hfile)

/-- A loop over the characters of a block that comes back with a count or with `size`. -/
theorem console_guarded_iff {call : World → Call UInt32}
    (hall : ∀ w, (∀ a ∈ block buf_ptr (World.intBound size), a < USERSPACETOP) →
      (call w).All (· < USERSPACETOP))
    (hcount : ∀ w r, (call w).result = some r → r = size ∨ r.toNat < World.intBound size)
    (hnone : World.intBound size = 0 → ∀ w, call w = pure size) :
    Guarded (BlockCrosses buf_ptr size.toNat) call ↔
      ¬ BlockCrosses buf_ptr size.toNat ∨ 2 ^ 31 ≤ size.toNat := by
  have hbound := intBound_eq size
  constructor
  · intro h
    by_contra hno
    push Not at hno
    obtain ⟨r, hr, hneg⟩ := (h obliging).2 hno.1
    rw [toInt32_neg_iff] at hneg
    rcases hcount _ r hr with rfl | hlt
    · omega
    · rw [hbound] at hlt
      split at hlt <;> omega
  · intro h w
    by_cases hbig : 2 ^ 31 ≤ size.toNat
    · rw [hnone (by rw [hbound, if_neg (by omega)]) w]
      exact ⟨.pure _, fun _ => ⟨size, rfl, (toInt32_neg_iff size).2 hbig⟩⟩
    · have hno := h.resolve_right hbig
      refine ⟨hall w (block_below fun hc => hno (hc.mono ?_)), fun hc => absurd hc hno⟩
      rw [hbound, if_pos (by omega)]

theorem sysWrite_console_guarded_iff (hfd : ¬ (fd ≠ 1 ∧ fd ≠ 2)) :
    Guarded (BlockCrosses buf_ptr size.toNat) (·.sysWrite fileTable fd buf_ptr size) ↔
      ¬ BlockCrosses buf_ptr size.toNat ∨ 2 ^ 31 ≤ size.toNat := by
  have heq : ∀ w : World, w.sysWrite fileTable fd buf_ptr size = (do
      w.derefAll (block buf_ptr (World.intBound size))
      return size) := fun w => if_neg hfd
  simp only [heq]
  refine console_guarded_iff (fun w hbelow => ?_) (fun w r hr => ?_) fun hzero w => ?_
  · exact Traced.all_bind_iff.2 ⟨derefAll_all hbelow, fun _ _ => .pure _⟩
  · obtain ⟨-, -, hr⟩ := Traced.bind_result_eq_some.1 hr
    cases hr
    exact .inl rfl
  · rw [hzero]
    rfl

theorem readLoop_all (left i : Nat) (h : ∀ j, i ≤ j → j < i + left → P (p + UInt32.ofNat j)) :
    (w.readLoop p size left i).All P := by
  induction left generalizing i with
  | zero => exact .pure _
  | succ left ih =>
    refine Traced.all_bind_iff.2 ⟨deref_all (h i (Nat.le_refl i) (by omega)), fun _ _ => ?_⟩
    split
    · exact .pure _
    · exact ih (i + 1) fun j h1 h2 => h j (by omega) (by omega)

theorem readLoop_result {r : UInt32} (left i : Nat) (hlt : i + left < 2 ^ 32)
    (hr : (w.readLoop p size left i).result = some r) : r = size ∨ r.toNat < i + left := by
  induction left generalizing i with
  | zero =>
    cases hr
    exact .inl rfl
  | succ left ih =>
    obtain ⟨-, -, hr⟩ := Traced.bind_result_eq_some.1 hr
    split at hr
    · cases hr
      refine .inr ?_
      rw [UInt32.toNat_ofNat', Nat.mod_eq_of_lt (by omega)]
      omega
    · exact (ih (i + 1) (by omega) hr).imp id fun h => by omega

theorem sysRead_console_guarded_iff (hfd : ¬ fd ≠ 0) :
    Guarded (BlockCrosses buf_ptr size.toNat) (·.sysRead fileTable fd buf_ptr size) ↔
      ¬ BlockCrosses buf_ptr size.toNat ∨ 2 ^ 31 ≤ size.toNat := by
  have heq : ∀ w : World, w.sysRead fileTable fd buf_ptr size =
      w.readLoop buf_ptr size (World.intBound size) 0 := fun w => if_neg hfd
  have hbound := intBound_eq size
  simp only [heq]
  refine console_guarded_iff (fun w hbelow => ?_) (fun w r hr => ?_) fun hzero w => ?_
  · refine readLoop_all _ 0 fun j _ hj => hbelow _ (List.mem_map.2 ⟨j, ?_, rfl⟩)
    exact List.mem_range.2 (by omega)
  · have hlt : 0 + World.intBound size < 2 ^ 32 := by
      rw [hbound]
      split <;> omega
    have := readLoop_result _ 0 hlt hr
    rwa [Nat.zero_add] at this
  · rw [hzero]
    rfl

theorem sysWaitpid_guarded_iff {pid : Int32} {statusp : VAddr} :
    Guarded (statusp ≠ 0 ∧ BlockCrosses statusp 4) (·.sysWaitpid pid statusp) ↔
      ¬ (statusp ≠ 0 ∧ BlockCrosses statusp 4) := by
  constructor
  · intro h hcross
    obtain ⟨r, hr, hneg⟩ := (h obliging).2 hcross
    -- it does not come back with anything but the process id
    unfold World.sysWaitpid at hr
    split at hr
    · cases hr
    · next hpid =>
      obtain ⟨-, -, hr⟩ := Traced.bind_result_eq_some.1 hr
      cases hr
      exact hpid (.inl (by simpa using hneg))
  · intro hno w
    refine ⟨?_, fun hc => absurd hc hno⟩
    show (w.sysWaitpid pid statusp).All _
    unfold World.sysWaitpid
    split
    · exact .halt
    · split
      · exact .halt
      · refine Traced.all_bind_iff.2 ⟨derefAll_all ?_, fun _ _ => .pure _⟩
        split
        · next hne => exact block_below fun hc => hno ⟨hne, hc⟩
        · exact fun a ha => by cases ha

/-- `syscall` turns negative numbers, and only those, into errors. -/
theorem syscallEnd_error_iff (r : UInt32) :
    (∃ v0, Caller.syscallEnd r = (v0, true)) ↔ r.toInt32 < 0 := by
  unfold Caller.syscallEnd
  split
  · next h => exact ⟨fun _ => h, fun _ => ⟨_, rfl⟩⟩
  · next h => exact ⟨fun ⟨v0, hv⟩ => (by cases hv), fun hneg => absurd hneg h⟩

theorem kernelSafe_iff_guarded {call : World → Call UInt32}
    (hcall : ∀ w, syscall w curproc tf = call w >>= fun r => pure (Caller.syscallEnd r)) :
    KernelSafe curproc tf ↔ Guarded (Crosses curproc tf) call := by
  refine forall_congr' fun w => and_congr ?_ (imp_congr_right fun _ => ?_)
  · rw [hcall, Traced.all_bind_iff]
    exact ⟨fun h => h.1, fun h => ⟨h, fun _ _ => .pure _⟩⟩
  · rw [hcall]
    constructor
    · rintro ⟨v0, hv⟩
      obtain ⟨r, hr, hend⟩ := Traced.bind_result_eq_some.1 hv
      exact ⟨r, hr, (syscallEnd_error_iff r).1 ⟨v0, Option.some.inj hend⟩⟩
    · rintro ⟨r, hr, hneg⟩
      obtain ⟨v0, hv⟩ := (syscallEnd_error_iff r).2 hneg
      exact ⟨v0, Traced.bind_result_eq_some.2 ⟨r, hr, congrArg some hv⟩⟩

theorem open_safe_iff (hcall : tf.tf_v0 = SYS_open) : KernelSafe curproc tf ↔
    ¬ StringCrosses curproc.byte tf.tf_a0 ∨ tf.tf_a1 &&& World.O_ACCMODE = 3 := by
  have hcross : Crosses curproc tf = StringCrosses curproc.byte tf.tf_a0 := if_pos hcall
  have heq : ∀ w : World, syscall w curproc tf = w.sysOpen curproc.byte tf.tf_a0 tf.tf_a1 >>= _ :=
    fun w => if_pos hcall
  unfold KernelSafe
  rw [hcross]
  simp only [heq]
  constructor
  · intro h
    by_contra hno
    push Not at hno
    obtain ⟨hall, herr⟩ := h obliging
    obtain ⟨v0, hres⟩ := herr hno.1
    obtain ⟨hopen, -⟩ := Traced.all_bind_iff.1 hall
    obtain ⟨r, hr, -⟩ := Traced.bind_result_eq_some.1 hres
    obtain ⟨hvfs, -⟩ := Traced.all_bind_iff.1 hopen
    obtain ⟨result, hresult, -⟩ := Traced.bind_result_eq_some.1 hr
    exact obliging_vfsOpen hno.2 hvfs hresult hno.1
  · intro h w
    by_cases hmode : tf.tf_a1 &&& World.O_ACCMODE = 3
    · have hrefused : w.sysOpen curproc.byte tf.tf_a0 tf.tf_a1 = pure (.error .ENOENT) := by
        unfold World.sysOpen World.vfsOpen
        rw [if_pos hmode]
        rfl
      rw [hrefused]
      exact ⟨.pure _, fun _ => ⟨_, rfl⟩⟩
    · have hno := h.resolve_right hmode
      refine ⟨?_, fun hc => absurd hc hno⟩
      unfold StringCrosses at hno
      push Not at hno
      obtain ⟨a, hpa, htop, ha⟩ := hno
      refine Traced.all_bind_iff.2 ⟨Traced.all_bind_iff.2 ⟨vfsOpen_below htop ha hpa _, ?_⟩, ?_⟩
      · rintro (_ | e) - <;> exact .pure _
      · rintro (e | fd) - <;> exact .pure _

theorem sysWrite_guarded_iff :
    Guarded (BlockCrosses buf_ptr size.toNat) (·.sysWrite fileTable fd buf_ptr size) ↔
      ¬ BlockCrosses buf_ptr size.toNat ∨ ((fd = 1 ∨ fd = 2) ∧ 2 ^ 31 ≤ size.toNat ∨
        ¬ (fd = 1 ∨ fd = 2) ∧ NoFile fileTable fd) := by
  by_cases hfd : fd ≠ 1 ∧ fd ≠ 2
  · have hfile : ∀ w : World, w.sysWrite fileTable fd buf_ptr size =
        w.fileIo fileTable fd buf_ptr size := fun w => if_pos hfd
    simp only [hfile, fileIo_guarded_iff]
    tauto
  · rw [sysWrite_console_guarded_iff hfd]
    tauto

theorem sysRead_guarded_iff :
    Guarded (BlockCrosses buf_ptr size.toNat) (·.sysRead fileTable fd buf_ptr size) ↔
      ¬ BlockCrosses buf_ptr size.toNat ∨ (fd = 0 ∧ 2 ^ 31 ≤ size.toNat ∨
        ¬ fd = 0 ∧ NoFile fileTable fd) := by
  by_cases hfd : fd ≠ 0
  · have hfile : ∀ w : World, w.sysRead fileTable fd buf_ptr size =
        w.fileIo fileTable fd buf_ptr size := fun w => if_pos hfd
    simp only [hfile, fileIo_guarded_iff]
    tauto
  · rw [sysRead_console_guarded_iff hfd]
    tauto

/-! ## All calls -/

/-- A call keeps away from the kernel's memory and reports pointers into it exactly if what it is
    given stays below `USERSPACETOP`, or if it is refused before it looks at the pointer. -/
theorem kernelSafe_iff (curproc : Process) (tf : Trapframe) :
    KernelSafe curproc tf ↔ ¬ Crosses curproc tf ∨ RefusedFirst curproc tf := by
  by_cases hopen : tf.tf_v0 = SYS_open
  · have hcross : Crosses curproc tf = StringCrosses curproc.byte tf.tf_a0 := if_pos hopen
    have hrefused : RefusedFirst curproc tf = (tf.tf_a1 &&& World.O_ACCMODE = 3) := if_pos hopen
    rw [hcross, hrefused]
    exact open_safe_iff hopen
  by_cases hwrite : tf.tf_v0 = SYS_write
  · have heq : ∀ w : World, syscall w curproc tf =
        w.sysWrite curproc.fileTable tf.tf_a0.toInt32 tf.tf_a1 tf.tf_a2 >>= fun r =>
          pure (Caller.syscallEnd r) := fun w => by rw [syscall, if_neg hopen, if_pos hwrite]
    have hcross : Crosses curproc tf = BlockCrosses tf.tf_a1 tf.tf_a2.toNat := by
      rw [Crosses, if_neg hopen, if_pos (.inl hwrite)]
    rw [kernelSafe_iff_guarded heq, hcross, RefusedFirst, if_neg hopen, if_pos (.inl hwrite),
      Console, if_pos hwrite]
    exact sysWrite_guarded_iff
  by_cases hread : tf.tf_v0 = SYS_read
  · have heq : ∀ w : World, syscall w curproc tf =
        w.sysRead curproc.fileTable tf.tf_a0.toInt32 tf.tf_a1 tf.tf_a2 >>= fun r =>
          pure (Caller.syscallEnd r) := fun w => by
      rw [syscall, if_neg hopen, if_neg hwrite, if_pos hread]
    have hcross : Crosses curproc tf = BlockCrosses tf.tf_a1 tf.tf_a2.toNat := by
      rw [Crosses, if_neg hopen, if_pos (.inr hread)]
    rw [kernelSafe_iff_guarded heq, hcross, RefusedFirst, if_neg hopen, if_pos (.inr hread),
      Console, if_neg hwrite]
    exact sysRead_guarded_iff
  have hio : ¬ (tf.tf_v0 = SYS_write ∨ tf.tf_v0 = SYS_read) := fun h => h.elim hwrite hread
  have hrefused : RefusedFirst curproc tf = False := by rw [RefusedFirst, if_neg hopen, if_neg hio]
  by_cases hwait : tf.tf_v0 = SYS_waitpid
  · have heq : ∀ w : World, syscall w curproc tf =
        w.sysWaitpid tf.tf_a0.toInt32 tf.tf_a1 >>= fun r => pure (Caller.syscallEnd r) := by
      intro w
      rw [syscall, if_neg hopen, if_neg hwrite, if_neg hread, if_pos hwait]
    have hcross : Crosses curproc tf = (tf.tf_a1 ≠ 0 ∧ BlockCrosses tf.tf_a1 4) := by
      rw [Crosses, if_neg hopen, if_neg hio, if_pos hwait]
    rw [kernelSafe_iff_guarded heq, hcross, hrefused, or_false]
    exact sysWaitpid_guarded_iff
  · have heq : ∀ w : World, syscall w curproc tf = ⟨[], w.other⟩ := fun w => by
      rw [syscall, if_neg hopen, if_neg hwrite, if_neg hread, if_neg hwait]
    have hcross : ¬ Crosses curproc tf := by
      rw [Crosses, if_neg hopen, if_neg hio, if_neg hwait]
      exact not_false
    refine iff_of_true (fun w => ⟨?_, fun hc => absurd hc hcross⟩) (.inl hcross)
    rw [heq]
    exact fun a ha => by cases ha

/-- A process with the exception handlers behind its memory, and one open file. -/
def smallProcess : Process where
  byte a := if a < USERSPACETOP then 0 else 0x3c
  fileTable fd := fd == 3

/-- `write(1, 0x80000000, 4)` prints four bytes of the kernel and reports success; so does
    `write(3, 0x80000000, 4)`, which is refused by `copycheck` but returns the number of
    `EFAULT`. -/
theorem write_kernel_bytes :
    syscall obliging smallProcess ⟨SYS_write, 1, 0x80000000, 4⟩ =
        ⟨[0x80000000, 0x80000001, 0x80000002, 0x80000003], some (4, false)⟩ ∧
      ¬ KernelSafe smallProcess ⟨SYS_write, 1, 0x80000000, 4⟩ ∧
      syscall { obliging with uiomoves := [4] } smallProcess ⟨SYS_write, 3, 0x80000000, 4⟩ =
        ⟨[], some (6, false)⟩ ∧
      ¬ KernelSafe smallProcess ⟨SYS_write, 3, 0x80000000, 4⟩ := by
  have hcross : Crosses smallProcess ⟨SYS_write, 3, 0x80000000, 4⟩ := ⟨0, by decide, by decide⟩
  have hconsole : syscall obliging smallProcess ⟨SYS_write, 1, 0x80000000, 4⟩ =
      ⟨[0x80000000, 0x80000001, 0x80000002, 0x80000003], some (4, false)⟩ := by decide
  have hfile : syscall { obliging with uiomoves := [4] } smallProcess
      ⟨SYS_write, 3, 0x80000000, 4⟩ = ⟨[], some (6, false)⟩ := by decide
  refine ⟨hconsole, fun h => ?_, hfile, fun h => ?_⟩
  · have hall := (h obliging).1
    rw [hconsole] at hall
    exact absurd (hall _ (List.mem_cons_self ..)) (by decide)
  · obtain ⟨v0, hv⟩ := (h { obliging with uiomoves := [4] }).2 hcross
    rw [hfile] at hv
    cases hv

end DemandPaging.Syscall
