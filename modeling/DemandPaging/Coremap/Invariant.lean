import DemandPaging.Coremap
import DemandPaging.PageTable.FreeFrames
import Mathlib.Algebra.Group.Nat.Defs

set_option autoImplicit false

/-! # What the coremap operations do to the page table

`TableInv cm q` is the page-table invariant of a running kernel: the representation invariant with
FIFO queue `q`, the extent layout, and the facts about boot that later steps rely on (the table is
active, frame 0 belongs to the kernel, frame numbers fit in 32-bit addresses). Each operation of
`coremap.c` gets one lemma that says what it does to the owners of the frames and to the queue. -/

namespace DemandPaging

open Function (update update_self update_of_ne update_idem)

/-- The invariant of the page table after boot. -/
structure TableInv (cm : Coremap) (q : List Nat) : Prop where
  rep : Rep cm q
  extents : cm.Extents
  isAct : cm.isAct = true
  zero : (cm.own 0).1 = 0
  ptsize_pos : 0 < cm.ptsize
  ptsize_le : cm.ptsize ≤ 2 ^ 20

variable {cm : Coremap} {q : List Nat} {pid : Int} {v : VAddr}

theorem TableInv.freeFrame_ne_zero {i : Nat} (h : TableInv cm q) (hf : cm.FreeFrame i) : i ≠ 0 := by
  rintro rfl
  exact absurd (hf.pid_eq h.extents) (by rw [h.zero]; decide)

theorem TableInv.user_ne_zero {i : Nat} (h : TableInv cm q) (hu : cm.IsUser i) : i ≠ 0 := by
  rintro rfl
  have := hu.2
  rw [h.zero] at this
  exact absurd this (by decide)

/-- The boot facts survive every update away from frame 0. -/
theorem TableInv.of_update {cm' : Coremap} {q' : List Nat} {i : Nat} {x : Int × VAddr × Nat}
    (h : TableInv cm q) (hrep : Rep cm' q') (hext : cm'.Extents) (hs : SameShape cm cm')
    (hown : cm'.own = update cm.own i x) (hi : i ≠ 0) : TableInv cm' q' where
  rep := hrep
  extents := hext
  isAct := hs.isAct.trans h.isAct
  zero := by rw [hown, update_of_ne (Ne.symm hi)]; exact h.zero
  ptsize_pos := by rw [hs.ptsize]; exact h.ptsize_pos
  ptsize_le := by rw [hs.ptsize]; exact h.ptsize_le

/-! ## Boot -/

/-- A loop of `ptinit` on a table without user pages sets a range of entries and links nothing. -/
theorem initLoop_spec (pid : Int) (n : Nat) (hp : ¬ 0 < pid) (left : Nat) :
    ∀ (i : Nat) (cm : Coremap), i + left ≤ cm.ptsize →
      ∃ cm', initLoop pid n left i cm = .ok cm' ∧ SameShape cm cm' ∧
        cm'.hashedpt = cm.hashedpt ∧ cm'.firstvictim = cm.firstvictim ∧
        cm'.lastallocateduser = cm.lastallocateduser ∧
        (∀ j, j < i ∨ i + left ≤ j → cm'.own j = cm.own j) ∧
        ∀ j, i ≤ j → j < i + left → (cm'.own j).1 = pid ∧ (cm'.own j).2.2 = n := by
  induction left with
  | zero =>
    intro i cm _
    exact ⟨cm, rfl, SameShape.refl cm, rfl, rfl, rfl, fun _ _ => rfl, fun j h1 h2 => by omega⟩
  | succ left ih =>
    intro i cm hle
    set e : PtPage := ⟨pid, PADDR_TO_KVADDR (i * PAGE_SIZE), n, none, none⟩ with he
    have hset : cm.setptentry i n pid (PADDR_TO_KVADDR (i * PAGE_SIZE)) =
        .ok (cm.setEntry i e) := by
      simp only [Coremap.setptentry, if_neg (show ¬ cm.ptsize ≤ i by omega), if_neg hp, he]
    obtain ⟨cm', hrun, hs, hh, hf, hl, hout, hin⟩ :=
      ih (i + 1) (cm.setEntry i e) (by show i + 1 + left ≤ cm.ptsize; omega)
    have hown : (cm.setEntry i e).own = update cm.own i (pid, e.vaddr, n) :=
      own_setEntry cm i e
    refine ⟨cm', by rw [initLoop, hset]; exact hrun, (setEntry_sameShape ..).trans hs, hh, hf, hl,
      fun j hj => ?_, fun j h1 h2 => ?_⟩
    · rw [hout j (by omega), hown, update_of_ne (by omega)]
    · by_cases hji : j = i
      · subst hji
        rw [hout j (by omega), hown, update_self]
        exact ⟨rfl, rfl⟩
      · exact hin j (by omega) (by omega)

/-- A loop of `ptinit` that does not write past the table stays inside it. -/
theorem initLoop_le {pid : Int} {n : Nat} (hp : ¬ 0 < pid) (left : Nat) :
    ∀ {i : Nat} {cm cm' : Coremap}, initLoop pid n left i cm = .ok cm' → 0 < left →
      i + left ≤ cm.ptsize := by
  induction left with
  | zero => intro i cm cm' _ h; omega
  | succ left ih =>
    intro i cm cm' h _
    rw [initLoop] at h
    by_cases hi : cm.ptsize ≤ i
    · simp [Coremap.setptentry, hi] at h
    · simp only [Coremap.setptentry, if_neg hi, if_neg hp] at h
      rcases Nat.eq_zero_or_pos left with rfl | hpos
      · omega
      · have hle : i + 1 + left ≤ cm.ptsize := @ih (i + 1) (cm.setEntry i _) cm' h hpos
        omega

/-- After `ptinit` the frames below the first free one are one-page kernel allocations, the others
    are free, and no user page exists. -/
theorem ptinit_spec {cm cm' : Coremap} {ramsize firstpaddr : UInt32}
    (hinit : ptinit cm ramsize firstpaddr = .ok cm') (hv : cm.firstvictim = none)
    (hl : cm.lastallocateduser = none) (hsize : 32 ≤ ramsize.toNat / PAGE_SIZE)
    (hpos : 0 < firstpaddr.toNat / PAGE_SIZE) :
    TableInv cm' [] ∧ cm'.ptsize = ramsize.toNat / PAGE_SIZE ∧
      (∀ i < firstpaddr.toNat / PAGE_SIZE, (cm'.own i).1 = 0 ∧ (cm'.own i).2.2 = 1) ∧
      ∀ i, firstpaddr.toNat / PAGE_SIZE ≤ i → i < cm'.ptsize → (cm'.own i).1 = -1 := by
  have hmax : ramsize.toNat / PAGE_SIZE ≤ 2 ^ 20 := by
    have := ramsize.toNat_lt
    unfold PAGE_SIZE
    omega
  unfold ptinit at hinit
  set ptsize := ramsize.toNat / PAGE_SIZE
  set firstfree := firstpaddr.toNat / PAGE_SIZE
  set cm₀ : Coremap := { cm with
    ptsize := ptsize, hashedptsize := ptsize / 32, hashedpt := fun _ => none } with hcm₀
  have hle : firstfree ≤ ptsize := by
    dsimp only at hinit
    cases hrun : initLoop 0 1 firstfree 0 cm₀ with
    | error e => rw [hrun] at hinit; simp at hinit
    | ok cm₁ =>
      have : 0 + firstfree ≤ cm₀.ptsize := initLoop_le (by decide) firstfree hrun hpos
      simpa using this
  obtain ⟨cm₁, hrun₁, hs₁, hh₁, hf₁, hl₁, hout₁, hin₁⟩ :=
    initLoop_spec 0 1 (by decide) firstfree 0 cm₀ (by show 0 + firstfree ≤ ptsize; omega)
  have hsz₁ : cm₁.ptsize = ptsize := hs₁.ptsize
  obtain ⟨cm₂, hrun₂, hs₂, hh₂, hf₂, hl₂, hout₂, hin₂⟩ :=
    initLoop_spec (-1) 0 (by decide) (ptsize - firstfree) firstfree cm₁ (by omega)
  have hker : ∀ i < firstfree, (cm₂.own i).1 = 0 ∧ (cm₂.own i).2.2 = 1 := by
    intro i hi
    rw [hout₂ i (.inl hi)]
    exact hin₁ i (by omega) (by omega)
  have hfree : ∀ i, firstfree ≤ i → i < ptsize → (cm₂.own i).1 = -1 :=
    fun i h1 h2 => (hin₂ i h1 (by omega)).1
  have hnone : ∀ i, ¬ (i < ptsize ∧ 0 < (cm₂.own i).1) := by
    rintro i ⟨hlt, hpos'⟩
    rcases Nat.lt_or_ge i firstfree with hi | hi
    · rw [(hker i hi).1] at hpos'; exact absurd hpos' (by decide)
    · rw [hfree i hi hlt] at hpos'; exact absurd hpos' (by decide)
  obtain rfl : { cm₂ with isAct := true } = cm' := by
    dsimp only at hinit
    rw [hrun₁] at hinit
    dsimp only at hinit
    rw [hrun₂] at hinit
    exact Except.ok.inj hinit
  set cm' : Coremap := { cm₂ with isAct := true } with hcm'
  have hsz : cm'.ptsize = ptsize := hs₂.ptsize.trans hsz₁
  have huser : ∀ i, ¬ cm'.IsUser i := fun i hu => hnone i ⟨hsz ▸ hu.1, hu.2⟩
  have hhash : cm'.hashedpt = fun _ => none := hh₂.trans hh₁
  refine ⟨⟨⟨?_, ⟨?_, ?_⟩, ?_, ?_, ?_⟩, ⟨?_, ?_, ?_, ?_⟩, rfl, ?_, ?_, ?_⟩, hsz, hker,
    fun i h1 h2 => hfree i h1 (hsz ▸ h2)⟩
  · have : cm'.hashedptsize = ptsize / 32 := hs₂.hashedptsize.trans hs₁.hashedptsize
    omega
  · exact hf₂.trans (hf₁.trans hv)
  · exact hl₂.trans (hl₁.trans hl)
  · exact fun i => ⟨fun h => absurd h (by simp), fun h => absurd h (huser i)⟩
  · intro b _
    refine ⟨[], by rw [hhash]; rfl, fun i => ⟨fun h => absurd h (by simp), fun h => ?_⟩⟩
    exact absurd h.1 (huser i)
  · exact fun i j hi => absurd hi (huser i)
  · intro i hi
    rcases Nat.lt_or_ge i firstfree with h | h
    · exact .inr (.inl (hker i h).1)
    · exact .inl (hfree i h (hsz ▸ hi))
  · intro h hh hz
    rcases Nat.lt_or_ge h firstfree with hlt | hge
    · have := (hker h hlt).2
      show 0 < (cm₂.own h).2.2 ∧ h + (cm₂.own h).2.2 ≤ cm'.ptsize
      omega
    · have := hfree h hge (hsz ▸ hh)
      exact absurd (this.symm.trans hz) (by decide)
  · intro h j hh hz hhj hj
    rcases Nat.lt_or_ge h firstfree with hlt | hge
    · have hone := (hker h hlt).2
      have hj' : j < h + (cm₂.own h).2.2 := hj
      omega
    · exact absurd ((hfree h hge (hsz ▸ hh)).symm.trans hz) (by decide)
  · exact fun i hu => absurd hu (huser i)
  · exact (hker 0 hpos).1
  · omega
  · omega

/-! ## User pages -/

theorem TableInv.getpageaddr_maps {f : Nat} (h : TableInv cm q) (hm : cm.Maps pid v f) :
    cm.getpageaddr pid v = .ok (f * PAGE_SIZE) := h.rep.getpageaddr_maps hm

/-- `pageaddr` answers `0` exactly for the pages that are not resident. -/
theorem TableInv.getpageaddr_eq_zero (h : TableInv cm q) :
    cm.getpageaddr pid v = .ok 0 ↔ ∀ f, ¬ cm.Maps pid v f := by
  refine ⟨fun h0 f hm => ?_, fun hno => h.rep.getpageaddr_absent hno⟩
  have hf := h.user_ne_zero hm.1
  have heq : f * PAGE_SIZE = 0 := by
    have := (h.getpageaddr_maps hm).symm.trans h0
    simpa using this
  rcases Nat.mul_eq_zero.1 heq with h0 | h0
  · exact hf h0
  · exact absurd h0 (by decide)

/-- The first frame of the queue is the next victim, and a page is in it. -/
theorem TableInv.head_victim {f : Nat} {q' : List Nat} (h : TableInv cm (f :: q')) :
    cm.firstvictim = some f ∧ cm.Maps (cm.pt f).pid (cm.pt f).vaddr f := by
  have hu : cm.IsUser f := (h.rep.mem_queue f).1 (List.mem_cons_self ..)
  exact ⟨h.rep.firstvictim_eq, hu, rfl, rfl⟩

/-- `setptentry` for a user page in a free frame. -/
theorem TableInv.install {i : Nat} (h : TableInv cm q) (hf : cm.FreeFrame i) (hp : 0 < pid)
    (hfresh : ∀ g, ¬ cm.Maps pid v g) :
    ∃ cm', cm.setptentry i 1 pid v = .ok cm' ∧ TableInv cm' (q ++ [i]) ∧
      cm'.own = update cm.own i (pid, v, 1) ∧ SameShape cm cm' := by
  obtain ⟨cm', hset, hrep, hown, hs⟩ := h.rep.setptentry_user hf.1 hf.2.1 hp hfresh
  refine ⟨cm', hset, ?_, hown, hs⟩
  exact h.of_update hrep (h.extents.update_user hf hp hown hs.ptsize) hs hown
    (h.freeFrame_ne_zero hf)

/-- `freeuser` of a resident page. -/
theorem TableInv.evict {f : Nat} (h : TableInv cm q) (hm : cm.Maps pid v f) :
    ∃ cm', cm.freeuser pid v = .ok (cm', 0) ∧ TableInv cm' (q.erase f) ∧
      cm'.own = update cm.own f (-1, v, 0) ∧ SameShape cm cm' ∧ cm'.FreeFrame f := by
  obtain ⟨cm', hfree, hrep, hown, hs⟩ := h.rep.freeuser_maps hm
  refine ⟨cm', hfree, ?_, hown, hs, freeFrame_of_freed h.extents hm.1 hown hs.ptsize⟩
  exact h.of_update hrep (h.extents.update_free hown hs.ptsize) hs hown (h.user_ne_zero hm.1)

/-- The four ways `allocuserpage` starts: a free frame, nothing to evict, an eviction, and a full
    swap file. -/
inductive AllocStarts (vm : Vm) (q : List Nat) (pid : Int) (v : VAddr) : Prop
  | free (i : Nat) (cm' : Coremap) (hi : vm.cm.FreeFrame i)
      (heq : allocuserpageStart vm pid v = .ok (.done { vm with cm := cm' } (i * PAGE_SIZE)))
      (hinv : TableInv cm' (q ++ [i]))
      (hown : cm'.own = update vm.cm.own i (pid, v, 1)) (hs : SameShape vm.cm cm')
      (hleast : ∀ k < i, ¬ vm.cm.FreeFrame k)
  | exhausted (hno : ∀ k, ¬ vm.cm.FreeFrame k) (hq : q = [])
      (heq : allocuserpageStart vm pid v = .ok (.done vm 0))
  | evict (f : Nat) (q' : List Nat) (p : Int) (w : VAddr) (sw : Swapfile) (slot : Nat)
      (hno : ∀ k, ¬ vm.cm.FreeFrame k) (hq : q = f :: q') (hm : vm.cm.Maps p w f)
      (hclaim : vm.swap.claimSlot p w = some (sw, slot))
      (heq : allocuserpageStart vm pid v = .ok (.evicting { vm with swap := sw }
        { ind := f, pid := p, vaddr := w, readfrom := f * PAGE_SIZE, slot := slot }))
  | swapFull (f : Nat) (q' : List Nat) (p : Int) (w : VAddr)
      (hno : ∀ k, ¬ vm.cm.FreeFrame k) (hq : q = f :: q') (hm : vm.cm.Maps p w f)
      (hclaim : vm.swap.claimSlot p w = none)
      (heq : allocuserpageStart vm pid v = .error (.panic swapFullMsg))

theorem allocuserpageStart_spec {vm : Vm} (h : TableInv vm.cm q) (hp : 0 < pid)
    (hfresh : ∀ g, ¬ vm.cm.Maps pid v g) : AllocStarts vm q pid v := by
  have hact : ¬ vm.cm.isAct = false := by rw [h.isAct]; decide
  rcases getfreeframes_spec h.extents (n := 1) (by decide) with ⟨i, hi, hrun, hleast⟩ | ⟨hi, hno⟩
  · have hfree := runFree_one.1 hrun
    obtain ⟨cm', hset, hinv, hown, hs⟩ := h.install hfree hp hfresh
    refine .free i cm' hfree ?_ hinv hown hs (fun k hk hf => hleast k hk (runFree_one.2 hf))
    have hne : ¬ (i : Int) = -1 := by omega
    rw [allocuserpageStart, if_neg hact]
    simp only [hi, if_neg hne, Int.toNat_natCast, hset]
  · have hno' : ∀ k, ¬ vm.cm.FreeFrame k := fun k hf => hno k (runFree_one.2 hf)
    cases q with
    | nil =>
      refine .exhausted hno' rfl ?_
      have hfv : vm.cm.firstvictim = none := h.rep.firstvictim_eq
      rw [allocuserpageStart, if_neg hact]
      simp only [hi, if_true, hfv]
    | cons f q' =>
      obtain ⟨hfv, hm⟩ := h.head_victim
      have hga := h.getpageaddr_maps hm
      cases hc : vm.swap.claimSlot (vm.cm.pt f).pid (vm.cm.pt f).vaddr with
      | none =>
        refine .swapFull f q' _ _ hno' rfl hm hc ?_
        rw [allocuserpageStart, if_neg hact]
        simp only [hi, if_true, hfv, hga, hc]
      | some r =>
        refine .evict f q' _ _ r.1 r.2 hno' rfl hm hc ?_
        rw [allocuserpageStart, if_neg hact]
        simp only [hi, if_true, hfv, hga, hc]

/-- The second half of `allocuserpage`, when the queue still starts with the frame it remembered:
    the old page leaves the frame and the new one enters it. -/
theorem allocuserpageFinish_spec {vm : Vm} {f : Nat} {q' : List Nat} (h : TableInv vm.cm (f :: q'))
    (hp : 0 < pid) (hfresh : ∀ g, ¬ vm.cm.Maps pid v g) :
    ∃ cm', allocuserpageFinish vm pid v f = .ok ({ vm with
          cm := cm'
          tlb := vm.tlb.vmtlbInvalidatepage (vm.cm.pt f).vaddr
          counter := vmstatincr vm.counter .SWAPWRITE }, f * PAGE_SIZE) ∧
      TableInv cm' (q' ++ [f]) ∧ cm'.own = update vm.cm.own f (pid, v, 1) ∧
      SameShape vm.cm cm' := by
  obtain ⟨hfv, hm⟩ := h.head_victim
  obtain ⟨cm₁, hfree, hinv₁, hown₁, hs₁, hff⟩ := h.evict hm
  rw [List.erase_cons_head] at hinv₁
  have hfresh₁ : ∀ g, ¬ cm₁.Maps pid v g := by
    intro g hg
    rcases (maps_of_own_update hown₁ hs₁.ptsize pid v g).1 hg with ⟨-, hg⟩ | ⟨-, -, hpos, -⟩
    · exact hfresh g hg
    · exact absurd hpos (by simp)
  obtain ⟨cm₂, hset, hinv₂, hown₂, hs₂⟩ := hinv₁.install hff hp hfresh₁
  refine ⟨cm₂, ?_, hinv₂, ?_, hs₁.trans hs₂⟩
  · unfold allocuserpageFinish Vm.incr
    simp only [hfv, hfree, hset]
  · rw [hown₂, hown₁, update_idem]

/-- The four ways `allocuserpage` ends when it runs without interruption. -/
inductive Allocates (vm : Vm) (q : List Nat) (pid : Int) (v : VAddr) : Prop
  | free (i : Nat) (cm' : Coremap) (hi : vm.cm.FreeFrame i)
      (heq : allocuserpage vm pid v = .ok ({ vm with cm := cm' }, i * PAGE_SIZE))
      (hinv : TableInv cm' (q ++ [i]))
      (hown : cm'.own = update vm.cm.own i (pid, v, 1)) (hs : SameShape vm.cm cm')
      (hleast : ∀ k < i, ¬ vm.cm.FreeFrame k)
  | exhausted (hno : ∀ k, ¬ vm.cm.FreeFrame k) (hq : q = [])
      (heq : allocuserpage vm pid v = .ok (vm, 0))
  | evict (f : Nat) (q' : List Nat) (p : Int) (w : VAddr) (sw : Swapfile) (slot : Nat)
      (cm' : Coremap) (hno : ∀ k, ¬ vm.cm.FreeFrame k) (hq : q = f :: q') (hm : vm.cm.Maps p w f)
      (hclaim : vm.swap.claimSlot p w = some (sw, slot))
      (heq : allocuserpage vm pid v = .ok ({ vm with
          cm := cm'
          swap := sw.writeSlot slot (vm.ram f)
          tlb := vm.tlb.vmtlbInvalidatepage w
          counter := vmstatincr vm.counter .SWAPWRITE }, f * PAGE_SIZE))
      (hinv : TableInv cm' (q' ++ [f]))
      (hown : cm'.own = update vm.cm.own f (pid, v, 1)) (hs : SameShape vm.cm cm')
  | swapFull (f : Nat) (q' : List Nat) (p : Int) (w : VAddr)
      (hno : ∀ k, ¬ vm.cm.FreeFrame k) (hq : q = f :: q') (hm : vm.cm.Maps p w f)
      (hclaim : vm.swap.claimSlot p w = none)
      (heq : allocuserpage vm pid v = .error (.panic swapFullMsg))

theorem allocuserpage_spec {vm : Vm} (h : TableInv vm.cm q) (hp : 0 < pid)
    (hfresh : ∀ g, ¬ vm.cm.Maps pid v g) : Allocates vm q pid v := by
  cases allocuserpageStart_spec h hp hfresh with
  | free i cm' hi heq hinv hown hs hleast =>
    exact .free i cm' hi (by rw [allocuserpage, heq]) hinv hown hs hleast
  | exhausted hno hq heq => exact .exhausted hno hq (by rw [allocuserpage, heq])
  | swapFull f q' p w hno hq hm hclaim heq =>
    exact .swapFull f q' p w hno hq hm hclaim (by rw [allocuserpage, heq])
  | evict f q' p w sw slot hno hq hm hclaim heq =>
    subst hq
    -- nothing runs between the two halves, so the queue still starts with `f`
    have hmid : TableInv
        (evictWrite { vm with swap := sw } ⟨f, p, w, f * PAGE_SIZE, slot⟩).cm (f :: q') := h
    obtain ⟨cm', hfin, hinv, hown, hs⟩ := allocuserpageFinish_spec hmid hp hfresh
    refine .evict f q' p w sw slot cm' hno rfl hm hclaim ?_ hinv hown hs
    have hframe : f * PAGE_SIZE / PAGE_SIZE = f := Nat.mul_div_cancel f (by decide)
    have hw : (vm.cm.pt f).vaddr = w := hm.2.2
    rw [allocuserpage, heq]
    simp only [hfin]
    simp only [evictWrite, Vm.frame, hframe, hw]

/-- Freeing the resident page of one frame of the loop's process. -/
theorem TableInv.freeuser_at {i : Nat} (h : TableInv cm q) (hi : cm.IsUser i) :
    ∃ cm', cm.freeuser (cm.pt i).pid (cm.pt i).vaddr = .ok (cm', 0) ∧ TableInv cm' (q.erase i) ∧
      cm'.own = update cm.own i (-1, (cm.own i).2.1, 0) ∧ SameShape cm cm' := by
  have hm : cm.Maps (cm.pt i).pid (cm.pt i).vaddr i := ⟨hi, rfl, rfl⟩
  obtain ⟨cm', hfree, hinv, hown, hs, -⟩ := h.evict hm
  exact ⟨cm', hfree, hinv, hown, hs⟩

/-- The loop of `removeptentries` from `i` on: the queue loses exactly the frames of `pid` in the
    scanned range, in place, and these frames become free. -/
theorem removeLoop_spec {pid : Int} (hp : 0 < pid) (left : Nat) :
    ∀ {i : Nat} {cm : Coremap} {q : List Nat}, TableInv cm q → i + left ≤ cm.ptsize →
      ∃ cm', removeLoop pid left i cm = .ok cm' ∧
        TableInv cm' (q.filter (fun j => !decide (i ≤ j ∧ j < i + left ∧ (cm.own j).1 = pid))) ∧
        SameShape cm cm' ∧
        ∀ j, cm'.own j = if i ≤ j ∧ j < i + left ∧ (cm.own j).1 = pid
          then (-1, (cm.own j).2.1, 0) else cm.own j := by
  induction left with
  | zero =>
    intro i cm q h _
    refine ⟨cm, rfl, ?_, SameShape.refl cm, fun j => by rw [if_neg (by omega)]⟩
    rw [List.filter_eq_self.2 (fun j _ => by simp; omega)]
    exact h
  | succ left ih =>
    intro i cm q h hle
    by_cases hi : (cm.pt i).pid = pid
    · have hu : cm.IsUser i := ⟨by omega, by show 0 < (cm.pt i).pid; omega⟩
      obtain ⟨cm₁, hfree, hinv₁, hown₁, hs₁⟩ := h.freeuser_at hu
      obtain ⟨cm₂, hrun, hinv₂, hs₂, hown₂⟩ :=
        ih (i := i + 1) hinv₁ (by rw [hs₁.ptsize]; omega)
      have hpid₁ : ∀ j, j ≠ i → cm₁.own j = cm.own j := fun j hj => by
        rw [hown₁, update_of_ne hj]
      refine ⟨cm₂, ?_, ?_, hs₁.trans hs₂, fun j => ?_⟩
      · rw [removeLoop, if_pos hi, ← hi, hfree, hi]
        exact hrun
      · -- the head of the range is erased first, the rest is filtered by the rest of the loop
        rw [h.rep.queue_nodup.erase_eq_filter, List.filter_filter] at hinv₂
        convert hinv₂ using 1
        apply List.filter_congr
        intro j _
        by_cases hj : j = i
        · subst hj
          have : (cm.own j).1 = pid := hi
          simp [this]
        · rw [hpid₁ j hj]
          have hiff : (i ≤ j ∧ j < i + (left + 1) ∧ (cm.own j).1 = pid) ↔
              (i + 1 ≤ j ∧ j < i + 1 + left ∧ (cm.own j).1 = pid) := by
            constructor
            · rintro ⟨h1, h2, h3⟩; exact ⟨by omega, by omega, h3⟩
            · rintro ⟨h1, h2, h3⟩; exact ⟨by omega, by omega, h3⟩
          simp [hiff, hj]
      · rw [hown₂ j]
        by_cases hj : j = i
        · subst hj
          rw [if_neg (by omega), if_pos ⟨le_rfl, by omega, hi⟩, hown₁, update_self]
        · rw [hpid₁ j hj]
          by_cases hc : i ≤ j ∧ j < i + (left + 1) ∧ (cm.own j).1 = pid
          · rw [if_pos hc, if_pos ⟨by omega, by omega, hc.2.2⟩]
          · rw [if_neg hc, if_neg (fun hc' => hc ⟨by omega, by omega, hc'.2.2⟩)]
    · obtain ⟨cm₂, hrun, hinv₂, hs₂, hown₂⟩ := ih (i := i + 1) h (by omega)
      have hcond : ∀ j, (i + 1 ≤ j ∧ j < i + 1 + left ∧ (cm.own j).1 = pid) ↔
          (i ≤ j ∧ j < i + (left + 1) ∧ (cm.own j).1 = pid) := by
        intro j
        constructor
        · rintro ⟨h1, h2, h3⟩; exact ⟨by omega, by omega, h3⟩
        · rintro ⟨h1, h2, h3⟩
          have hji : j ≠ i := fun he => hi (he ▸ h3)
          exact ⟨by omega, by omega, h3⟩
      refine ⟨cm₂, by rw [removeLoop, if_neg hi]; exact hrun, ?_, hs₂, fun j => ?_⟩
      · simpa only [hcond] using hinv₂
      · rw [hown₂ j]
        simp only [hcond]

/-- `removeptentries`: exactly the pages of `pid` leave the table. -/
theorem removeptentries_spec {vm : Vm} (h : TableInv vm.cm q) (hp : 0 < pid) :
    ∃ cm', removeptentries vm pid = .ok { vm with cm := cm' } ∧
      TableInv cm' (q.filter (fun j => !decide ((vm.cm.own j).1 = pid))) ∧
      SameShape vm.cm cm' ∧
      ∀ j < vm.cm.ptsize, cm'.own j = if (vm.cm.own j).1 = pid
        then (-1, (vm.cm.own j).2.1, 0) else vm.cm.own j := by
  obtain ⟨cm', hrun, hinv, hs, hown⟩ := removeLoop_spec hp vm.cm.ptsize (i := 0) h (by omega)
  refine ⟨cm', ?_, ?_, hs, fun j hj => ?_⟩
  · rw [removeptentries, if_neg (by rw [h.isAct]; decide), hrun]
  · convert hinv using 1
    apply List.filter_congr
    intro j hj
    have hlt := h.rep.queue_lt j hj
    simp [hlt]
  · rw [hown j]
    simp [hj]

/-- Residency after `removeptentries`. -/
theorem maps_removeptentries {cm' : Coremap} (hs : SameShape cm cm')
    (hown : ∀ j < cm.ptsize, cm'.own j = if (cm.own j).1 = pid
      then (-1, (cm.own j).2.1, 0) else cm.own j) (p : Int) (w : VAddr) (f : Nat) :
    cm'.Maps p w f ↔ cm.Maps p w f ∧ p ≠ pid := by
  unfold Coremap.Maps Coremap.IsUser
  rw [hs.ptsize]
  by_cases hf : f < cm.ptsize
  · rw [hown f hf]
    by_cases hc : (cm.own f).1 = pid
    · rw [if_pos hc]
      constructor
      · rintro ⟨⟨-, hpos⟩, -⟩; exact absurd hpos (by simp)
      · rintro ⟨⟨-, rfl, -⟩, hne⟩; exact absurd hc hne
    · rw [if_neg hc]
      refine ⟨fun hm => ⟨hm, fun hpp => hc (hm.2.1.trans hpp)⟩, fun hm => hm.1⟩
  · simp [hf]

/-- `removeptentries` for a pid that no user page can have is a no-op. -/
theorem removeptentries_nonpos {vm : Vm} (h : TableInv vm.cm q) (hp : ¬ 0 < pid) :
    removeptentries vm pid = .ok vm := by
  have hloop : ∀ left i, removeLoop pid left i vm.cm = .ok vm.cm := by
    intro left
    induction left with
    | zero => intro i; rfl
    | succ left ih =>
      intro i
      rw [removeLoop]
      split
      · rw [h.rep.freeuser_absent (fun g hm => hp hm.pid_pos)]
        exact ih (i + 1)
      · exact ih (i + 1)
  rw [removeptentries, if_neg (by rw [h.isAct]; decide), hloop]

/-! ## Kernel pages -/

/-- A kernel allocation that finds a free run: the least one, recorded in its head entry. -/
theorem getfreeppages_found {vm : Vm} {n : Nat} (h : TableInv vm.cm q) (hn : 0 < n)
    (hrun : ∃ k, vm.cm.RunFree k n) :
    ∃ i e, vm.cm.RunFree i n ∧ (∀ k < i, ¬ vm.cm.RunFree k n) ∧
      e = PtPage.mk 0 (PADDR_TO_KVADDR (i * PAGE_SIZE)) n none none ∧
      getfreeppages vm n = ⟨{ vm with cm := vm.cm.setEntry i e },
        [.acquire, .release, .acquire, .update, .release], .ok (i * PAGE_SIZE)⟩ ∧
      TableInv (vm.cm.setEntry i e) q := by
  rcases getfreeframes_spec h.extents hn with ⟨i, hi, hfree, hleast⟩ | ⟨-, hno⟩
  · have hfi := hfree i le_rfl (by omega)
    have hlt : i < 2 ^ 20 := lt_of_lt_of_le hfi.1 h.ptsize_le
    have hidx : (UInt32.ofInt (i : Int)).toNat = i := by
      have hmod : ((i : Int) % 2 ^ 32).toNat = i := by omega
      rw [UInt32.ofInt, hmod]
      exact UInt32.toNat_ofNat_of_lt' (by show i < 4294967296; omega)
    have hz : ¬ 0 < (0 : Int) := by decide
    obtain ⟨hset, hrep⟩ :=
      h.rep.setptentry_other (n := n) (v := PADDR_TO_KVADDR (i * PAGE_SIZE)) hfi.1 hfi.2.1 hz
    refine ⟨i, _, hfree, hleast, rfl, ?_, ?_⟩
    · have hne : ¬ (i : Int) = -1 := by omega
      rw [getfreeppages, if_neg (by rw [h.isAct]; decide)]
      simp only [hi, if_neg hne, getfreeppagesEnd, hidx, hset, if_true]
      rfl
    · exact h.of_update hrep (h.extents.update_kernel hn hfree (own_setEntry ..) rfl)
        (setEntry_sameShape ..) (own_setEntry ..) (h.freeFrame_ne_zero hfi)
  · obtain ⟨k, hk⟩ := hrun
    exact absurd hk (hno k)

/-- `free_kpages` of a kernel allocation other than the exception handlers' frame. -/
theorem freeKpages_spec {vm : Vm} {i : Nat} (h : TableInv vm.cm q) (hi : i < vm.cm.ptsize)
    (hz : (vm.cm.own i).1 = 0) (h0 : i ≠ 0) :
    ∃ cm', freeKpages vm (PADDR_TO_KVADDR (i * PAGE_SIZE)) = .ok { vm with cm := cm' } ∧
      TableInv cm' q ∧ SameShape vm.cm cm' ∧
      cm'.own = update vm.cm.own i (-1, (vm.cm.own i).2.1, 0) := by
  have hfree : ¬ vm.cm.IsUser i := fun hu => by
    have := hu.2
    omega
  obtain ⟨cm', hset, hrep, hown, hs⟩ := h.rep.freekernel_spec hi hfree
  have hlt : i < 2 ^ 20 := lt_of_lt_of_le hi h.ptsize_le
  have hidx : ((PADDR_TO_KVADDR (i * PAGE_SIZE) - USERSPACETOP) / UInt32.ofNat PAGE_SIZE).toNat
      = i := by
    have h1 : PADDR_TO_KVADDR (i * PAGE_SIZE) - USERSPACETOP = UInt32.ofNat (i * PAGE_SIZE) := by
      rw [PADDR_TO_KVADDR]
      exact UInt32.add_sub_cancel ..
    rw [h1, UInt32.toNat_div]
    have h2 : (UInt32.ofNat (i * PAGE_SIZE)).toNat = i * PAGE_SIZE :=
      UInt32.toNat_ofNat_of_lt' (by show i * 4096 < 4294967296; omega)
    rw [h2]
    exact Nat.mul_div_cancel i (by decide)
  refine ⟨cm', ?_, ?_, hs, hown⟩
  · rw [freeKpages, if_neg (by rw [h.isAct]; decide)]
    simp only [hidx, hset]
  · exact h.of_update hrep (h.extents.update_free hown hs.ptsize) hs hown h0

end DemandPaging
