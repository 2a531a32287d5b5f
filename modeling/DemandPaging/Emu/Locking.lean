import DemandPaging.Coremap.Extents
import DemandPaging.Cpu.Coherence
import DemandPaging.Emu.Copies
import DemandPaging.Fault.ElfImage

set_option autoImplicit false

/-! # The lock of the driver during a call

The driver copies while it owns `e_lock`, and a fault inside the copy can come back to the driver or
end the thread. So a call gets along with the lock only as far as its buffer needs nothing from the
disk when it is copied (`noSelfWait_iff`), and a read comes back from it only if no page of its
buffer is read-only besides (`returnsUnlocked_iff`). -/

namespace DemandPaging

namespace Caller

variable {cl : Caller} {rw : UioRw} {replies : Nat → Reply} {buf_ptr : VAddr} {size : UInt32}
  {offset : Nat} {s : IoState}

/-! ## The specifications -/

/-- The owner of the lock on which a call sleeps. -/
def sleepsOn {α : Type} : Except Halt α → Option Nat
  | .error (.blocked s) => s.e_lock
  | _ => none

/-- The owner of the lock when the thread of a call exits. -/
def exitsWith {α : Type} : Except Halt α → Option Nat
  | .error (.exited s) => s.e_lock
  | _ => none

/-- The call does not wait for the lock that its own thread holds. -/
def NoSelfWait (cl : Caller) (rw : UioRw) (replies : Nat → Reply) (buf_ptr : VAddr) (size : UInt32)
    (offset : Nat) (s : IoState) : Prop :=
  sleepsOn (cl.fileIo rw replies buf_ptr size offset s) ≠ some cl.curthread

/-- The accesses of a call. -/
def accesses (rw : UioRw) (replies : Nat → Reply) (buf_ptr : VAddr) (size : UInt32) (offset : Nat) :
    List (Option VAddr) :=
  plan rw replies (size.toNat + 1) 0 ⟨buf_ptr, size, offset⟩

/-- The copies of a call. -/
def copiesOf (cl : Caller) (rw : UioRw) (replies : Nat → Reply) (buf_ptr : VAddr) (size : UInt32)
    (offset : Nat) (s : IoState) : List Copy :=
  cl.copies rw replies (size.toNat + 1) 0 ⟨buf_ptr, size, offset⟩ s

/-- None of the pages is read-only. -/
def AllWritable (as : AddrSpace) (vs : List VAddr) : Prop := ∀ v ∈ vs, ¬ ReadOnly as v

instance (as : AddrSpace) (vs : List VAddr) : Decidable (AllWritable as vs) :=
  List.decidableBAll _ _

/-- One of the accesses is outside the segments, or to a segment that may not be written. -/
def BadBuffer (as : AddrSpace) (l : List (Option VAddr)) : Prop :=
  ∃ a ∈ l, ∀ v, a = some v → as.locate v = none ∨ ReadOnly as v

/-- A read comes back, without the lock, and says so if the buffer is bad. -/
def ReturnsUnlocked (cl : Caller) (replies : Nat → Reply) (buf_ptr : VAddr) (size : UInt32)
    (offset : Nat) (s : IoState) : Prop :=
  ∃ s' offset' result, cl.fileRead replies buf_ptr size offset s = .ok (s', offset', result) ∧
    s'.e_lock ≠ some cl.curthread ∧
    (BadBuffer s.as (accesses .UIO_READ replies buf_ptr size offset) → result = .error .EFAULT)

/-! ## The calls -/

theorem fate_dies_iff {as : AddrSpace} {l : List (Option VAddr)} :
    fate as true l = .dies ↔ ∃ v ∈ reached as true l, ReadOnly as v := by
  induction l with
  | nil => simp [fate, reached]
  | cons a l ih =>
    cases a with
    | none => simp [fate, reached]
    | some v =>
      by_cases hloc : as.locate v = none
      · simp [fate, reached, hloc]
      · by_cases hro : ReadOnly as v
        · simp [fate, reached, hloc, hro]
        · simp [fate, reached, hloc, hro, ih]

theorem not_badBuffer_of_through {as : AddrSpace} {l : List (Option VAddr)}
    (h : fate as true l = .through) : ¬ BadBuffer as l := by
  induction l with
  | nil =>
    rintro ⟨a, ha, -⟩
    cases ha
  | cons a l ih =>
    cases a with
    | none => cases h
    | some v =>
      simp only [fate, true_and] at h
      split_ifs at h with hloc hro
      rintro ⟨b, hb, hbad⟩
      rcases List.mem_cons.1 hb with rfl | htail
      · exact (hbad v rfl).elim hloc hro
      · exact ih h ⟨b, htail, hbad⟩

theorem copies_spec (hothers : cl.Others replies) (h : cl.MemOk s) (hfree : s.e_lock = none) :
    Looped cl rw (cl.copiesOf rw replies buf_ptr size offset s) s.as
      (accesses rw replies buf_ptr size offset)
      (cl.emufsLoop rw replies (size.toNat + 1) 0 ⟨buf_ptr, size, offset⟩ s) :=
  emufsLoop_spec hothers h hfree (Nat.lt_succ_self _)

/-- A call that does not come back is one whose loop does not. -/
theorem fileIo_halts {halt : Halt}
    (h : cl.emufsLoop rw replies (size.toNat + 1) 0 ⟨buf_ptr, size, offset⟩ s = .error halt) :
    cl.fileIo rw replies buf_ptr size offset s = .error halt := by
  simp only [fileIo, h]
  rfl

theorem fileIo_returns {t : IoState} {u : Uio} {result : Option Errno}
    (h : cl.emufsLoop rw replies (size.toNat + 1) 0 ⟨buf_ptr, size, offset⟩ s =
      .ok (t, u, result)) :
    ∃ offset' r, cl.fileIo rw replies buf_ptr size offset s = .ok (t, offset', r) ∧
      (result = some .EFAULT → r = .error .EFAULT) := by
  simp only [fileIo, h]
  cases result with
  | none => exact ⟨_, _, rfl, fun herr => by cases herr⟩
  | some e =>
    refine ⟨_, _, rfl, ?_⟩
    rintro ⟨⟩
    rfl

/-! ## Where calls start -/

/-- In every orderly run the memory of the current process is in order when it makes a call. What
    the run does not tell is asked for: some user page is in memory, and the segments are those of a
    program. -/
theorem orderly_memOk {k₀ k : Cpu} {as : AddrSpace} (h₀ : k₀.Initial)
    (hrun : Reaches OrderlyStep k₀ k) (hcur : k.curproc = some cl.p_pid)
    (hproc : k.sys.procs cl.p_pid = some ⟨some as, .user⟩) {f : Nat} (hf : k.sys.vm.cm.IsUser f)
    (hchecked : as.checked.isOk = true) {vnode : Nat} (hbacked : as.Backed vnode) :
    cl.MemOk ⟨none, k.sys.vm, as⟩ := by
  have hinv : CpuInv k := hrun.invariant (fun _ _ _ h hs => CpuInv.step h hs.2 hs.1) h₀.cpuInv
  obtain ⟨q, hpaging, -, -⟩ := hinv.flat
  obtain ⟨hpid, as', has, hbinary⟩ := hpaging.live _ _ hproc
  obtain rfl : as = as' := Option.some.inj has
  have hq : q ≠ [] := fun hnil => hpaging.table.rep.queue_eq_nil.1 hnil f hf
  refine ⟨hpid, ⟨q, hq, hpaging.table⟩, hbinary, hchecked, ?_, hinv.tlb.ok.reuse, fun i hi => ?_⟩
  · intro v c hloc hstack
    obtain ⟨offset, hsource⟩ := hbacked.elfSource_ok hloc hstack
    exact ⟨_, hsource⟩
  · rcases hinv.active _ hcur (by rw [hproc]; exact Option.some_ne_none _) with hlast | hnone
    · have hentry := hinv.tlb.owned as .user (hlast ▸ hproc) i hi
      rw [hlast] at hentry
      obtain ⟨c, hloc, hrights⟩ := hentry.rights
      exact ⟨c, _, hloc, hentry.maps, hrights⟩
    · exact absurd hi (hnone i)

/-! ## A small process -/

/-- Process 2, and a device that delivers four bytes. -/
def reader : Caller := ⟨1, 2, fun _ => smallElf 4⟩

/-- While the reader waits, another process runs, and the TLB is flushed for it and for the reader
    again. -/
def fourBytes : Nat → Reply := fun _ => ⟨none, 4, 4, fun vm => { vm with tlb := Tlb.boot }⟩

theorem fourBytes_others : reader.Others fourBytes := by
  intro i s h
  refine ⟨h.pid, h.table, h.binary, h.checked, h.source, Tlb.boot_ok.reuse, fun k hk => ?_⟩
  exact absurd hk (Tlb.boot_live k)

/-- The small executable has been started, and the page of its code is in memory. -/
def codeLoaded (vm : Vm) : IoState :=
  ⟨none, (okOr (vm, 0) (allocuserpage vm 2 codePage.fa)).1, (smallSpace 4).setLoaded codePage⟩

theorem MemOk.started {file : List UInt8} {vnode : Nat} {vm : Vm} {as : AddrSpace} {v : VAddr}
    {c : FaultCtx} {q : List Nat} (hpid : 0 < cl.p_pid) (hq : q ≠ []) (hinv : TableInv vm.cm q)
    (htlb : vm.tlb = Tlb.boot) (hrun : runprogram file vnode = .ok as)
    (hchecked : as.checked.isOk = true) (hloc : as.locate v = some c) :
    cl.MemOk ⟨none, vm, as.setLoaded c⟩ := by
  have hunloaded : as.unloaded = as := runprogram_unloaded hrun
  have hbinary : as.Binary := hunloaded ▸ unloaded_binary as
  have hbacked : as.Backed vnode := runprogram_backed (hunloaded.symm ▸ hrun)
  refine ⟨hpid, ⟨q, hq, hinv⟩, hbinary.setLoaded hloc, ?_, ?_, ?_, ?_⟩
  · exact (checked_setLoaded c).trans hchecked
  · intro w d hd hstack
    obtain ⟨off, hoff⟩ := hbacked.elfSource_ok ((locate_setLoaded c w).symm.trans hd)
      ((stackseg_setLoaded c d).symm.trans hstack)
    exact ⟨_, (elfSource_setLoaded c w).trans hoff⟩
  · show vm.tlb.tlbinvalidatedindex < NUM_TLB
    rw [htlb]
    exact Tlb.boot_ok.reuse
  · intro i hi
    have hboot : Tlb.boot.Live i := htlb ▸ hi
    exact absurd hboot (Tlb.boot_live i)

theorem codeLoaded_memOk : reader.MemOk (codeLoaded fourFrames) := by
  have hstep : CoreStep fourFrames (.allocuserpage 2 0x400000) (codeLoaded fourFrames).vm :=
    ⟨by decide, rfl, 28 * 4096, rfl⟩
  obtain ⟨vm₀, hboot, hrun⟩ := fourFrames_reachable
  obtain ⟨q, hinv⟩ := CoreReachable.tableInv ⟨vm₀, hboot, hrun.tail hstep⟩
  have hq : q ≠ [] := fun hnil => hinv.rep.queue_eq_nil.1 hnil 28 (by decide)
  obtain ⟨hok, -, hchecked, hloc, -, -⟩ := smallSpace_spec 4 (.inr rfl)
  exact .started (by decide) hq hinv rfl (smallSpace_runs hok) hchecked hloc

/-! ## The lock and the buffer -/

/-- A call gets along with the lock exactly if at each of its copies none of the pages it comes to
    has to be read while there are free frames, and the free frames are enough. The full swap file
    is the one other way out: the kernel stops before it comes to the lock. -/
theorem noSelfWait_iff (h : cl.MemOk s) (hfree : s.e_lock = none) (hothers : cl.Others replies) :
    NoSelfWait cl rw replies buf_ptr size offset s ↔
      ∀ c ∈ cl.copiesOf rw replies buf_ptr size offset s, cl.NoRead c.state (c.pages rw) ∧
        (cl.Fits c.state (c.pages rw) ∨ c.state.vm.swap.Full) := by
  have hspec : Looped cl rw (cl.copiesOf rw replies buf_ptr size offset s) s.as
    (accesses rw replies buf_ptr size offset) _ := copies_spec hothers h hfree
  unfold NoSelfWait
  cases hspec with
  | back t u result hwarm _ _ heq _ =>
    obtain ⟨offset', r, hio, -⟩ := fileIo_returns heq
    exact iff_of_true (by simp [hio, sleepsOn]) fun c hc => ⟨(hwarm c hc).1, .inl (hwarm c hc).2⟩
  | dies t hwarm _ heq =>
    exact iff_of_true (by simp [fileIo_halts heq, sleepsOn]) fun c hc =>
      ⟨(hwarm c hc).1, .inl (hwarm c hc).2⟩
  | blocked t hcold heq hown =>
    obtain ⟨c, hc, hcold⟩ := hcold
    exact iff_of_false (by simp [fileIo_halts heq, sleepsOn, hown]) fun hall => hcold (hall c hc)
  | crashed e hread _ heq => exact iff_of_true (by simp [fileIo_halts heq, sleepsOn]) hread

/-- A write from the code, which is in memory, and a read into two pages of the stack, for which
    there are frames. -/
theorem codeLoaded_noSelfWait :
    NoSelfWait reader .UIO_WRITE fourBytes 0x400000 4 0 (codeLoaded fourFrames) ∧
      NoSelfWait reader .UIO_READ fourBytes 0x7fffeffe 4 0 (codeLoaded fourFrames) := by
  have hwrite : ∀ c ∈ reader.copiesOf .UIO_WRITE fourBytes 0x400000 4 0 (codeLoaded fourFrames),
      reader.NoRead c.state (c.pages .UIO_WRITE) ∧ reader.Fits c.state (c.pages .UIO_WRITE) := by
    decide +kernel
  have hread : ∀ c ∈ reader.copiesOf .UIO_READ fourBytes 0x7fffeffe 4 0 (codeLoaded fourFrames),
      reader.NoRead c.state (c.pages .UIO_READ) ∧ reader.Fits c.state (c.pages .UIO_READ) := by
    decide +kernel
  exact ⟨(noSelfWait_iff codeLoaded_memOk rfl fourBytes_others).2 fun c hc =>
      (hwrite c hc).imp_right .inl,
    (noSelfWait_iff codeLoaded_memOk rfl fourBytes_others).2 fun c hc =>
      (hread c hc).imp_right .inl⟩

/-- While the reader waits, process 3 takes the last three frames. -/
def framesTaken : Nat → Reply := fun _ => ⟨none, 4, 4,
  [0x7fffd000, 0x7fffe000, 0x7ffff000].foldl fun vm v => (okOr (vm, 0) (allocuserpage vm 3 v)).1⟩

/-- A write from the data segment, which has not been touched yet; a read into a new stack page when
    the code is in the only frame; and one for which there were frames when it began. -/
theorem cold_buffer_selfWait :
    ¬ NoSelfWait reader .UIO_WRITE fourBytes 0x500000 4 0 (codeLoaded fourFrames) ∧
      ¬ NoSelfWait reader .UIO_READ fourBytes 0x7ffff000 4 0 (codeLoaded oneFrame) ∧
      ¬ NoSelfWait reader .UIO_READ framesTaken 0x7ffff000 4 0 (codeLoaded fourFrames) := by
  have hread : sleepsOn (reader.fileIo .UIO_WRITE fourBytes 0x500000 4 0
      (codeLoaded fourFrames)) = some reader.curthread := by decide +kernel
  have hvictim : sleepsOn (reader.fileIo .UIO_READ fourBytes 0x7ffff000 4 0
      (codeLoaded oneFrame)) = some reader.curthread := by decide +kernel
  have htaken : sleepsOn (reader.fileIo .UIO_READ framesTaken 0x7ffff000 4 0
      (codeLoaded fourFrames)) = some reader.curthread := by decide +kernel
  exact ⟨fun hno => hno hread, fun hno => hno hvictim, fun hno => hno htaken⟩

/-- A read comes back exactly if none of its copies needs anything from the disk or comes to a
    read-only page. -/
theorem returnsUnlocked_iff (h : cl.MemOk s) (hfree : s.e_lock = none)
    (hothers : cl.Others replies) :
    ReturnsUnlocked cl replies buf_ptr size offset s ↔
      ∀ c ∈ cl.copiesOf .UIO_READ replies buf_ptr size offset s,
        cl.NoRead c.state (c.pages .UIO_READ) ∧ cl.Fits c.state (c.pages .UIO_READ) ∧
          AllWritable c.state.as (c.pages .UIO_READ) := by
  have hspec : Looped cl .UIO_READ (cl.copiesOf .UIO_READ replies buf_ptr size offset s) s.as
    (accesses .UIO_READ replies buf_ptr size offset) _ := copies_spec hothers h hfree
  have hgone : ∀ {halt}, cl.emufsLoop .UIO_READ replies (size.toNat + 1) 0
      ⟨buf_ptr, size, offset⟩ s = .error halt →
      ¬ ReturnsUnlocked cl replies buf_ptr size offset s := by
    rintro halt hloop ⟨s', offset', result, hback, -⟩
    rw [fileRead, fileIo_halts hloop] at hback
    cases hback
  have hro : ∀ c : Copy, AllWritable c.state.as (c.pages .UIO_READ) ↔
      fate c.state.as true c.accesses ≠ .dies := by
    intro c
    rw [Ne, fate_dies_iff]
    push Not
    rfl
  simp only [hro]
  cases hspec with
  | back t u result hwarm hlives hfate heq hunlocked =>
    obtain ⟨offset', r, hio, hfault⟩ := fileIo_returns heq
    refine iff_of_true ⟨t, offset', r, hio, by simp [hunlocked], fun hbad => ?_⟩ fun c hc =>
      ⟨(hwarm c hc).1, (hwarm c hc).2, hlives c hc⟩
    exact hfault (hfate.resolve_left fun hthrough => not_badBuffer_of_through hthrough hbad)
  | dies t _ hdies heq =>
    obtain ⟨c, hc, hdies⟩ := hdies
    exact iff_of_false (hgone heq) fun hall => (hall c hc).2.2 hdies
  | blocked t hcold heq _ =>
    obtain ⟨c, hc, hcold⟩ := hcold
    exact iff_of_false (hgone heq) fun hall => hcold ⟨(hall c hc).1, .inl (hall c hc).2.1⟩
  | crashed e _ hfits heq =>
    obtain ⟨c, hc, hfits⟩ := hfits
    exact iff_of_false (hgone heq) fun hall => hfits (hall c hc).2.1

/-- A read into the stack, and one that is refused outside the segments. -/
theorem codeLoaded_returns :
    ReturnsUnlocked reader fourBytes 0x7ffff000 4 0 (codeLoaded fourFrames) ∧
      ReturnsUnlocked reader fourBytes 0x600000 4 0 (codeLoaded fourFrames) :=
  ⟨(returnsUnlocked_iff codeLoaded_memOk rfl fourBytes_others).2 (by decide +kernel),
    (returnsUnlocked_iff codeLoaded_memOk rfl fourBytes_others).2 (by decide +kernel)⟩

/-- A read into the code: the thread exits as the owner of the lock. -/
theorem readOnly_buffer_exits :
    exitsWith (reader.fileRead fourBytes 0x400000 4 0 (codeLoaded fourFrames)) =
        some reader.curthread ∧
      ¬ ReturnsUnlocked reader fourBytes 0x400000 4 0 (codeLoaded fourFrames) := by
  have hexits : exitsWith (reader.fileRead fourBytes 0x400000 4 0 (codeLoaded fourFrames)) =
      some reader.curthread := by decide +kernel
  refine ⟨hexits, ?_⟩
  rintro ⟨s', offset', result, hback, -⟩
  rw [hback] at hexits
  cases hexits

end Caller

end DemandPaging
