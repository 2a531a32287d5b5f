import DemandPaging.Coremap.Runs

set_option autoImplicit false

/-! # Kernel extents over whole runs

A kernel allocation of `n` frames is written down in one entry only. `ExtentsApart` says what the
rest of the kernel takes for granted all the same: no two holders share a frame. An allocation keeps
its extent until it is freed, whatever else happens in between, and freeing it gives back its frames
and no others. -/

namespace DemandPaging

open Function (update update_self update_of_ne)

/-- The extents of the kernel allocations and the frames of the user pages lie inside the table and
    do not overlap, and the entries behind the head of an extent are marked free. -/
structure ExtentsApart (cm : Coremap) : Prop where
  inside : ∀ h j, cm.ExtentOf h j → j < cm.ptsize
  kernel : ∀ h h' j, cm.ExtentOf h j → cm.ExtentOf h' j → h = h'
  user : ∀ h f, cm.IsUser f → ¬ cm.ExtentOf h f
  single : ∀ f, cm.IsUser f → (cm.pt f).numpages = 1
  head : ∀ h < cm.ptsize, (cm.pt h).pid = 0 → cm.ExtentOf h h
  tail : ∀ h j, cm.ExtentOf h j → j ≠ h → (cm.pt j).pid = -1

/-- Frames `i` to `i + n - 1` become available, and no others. -/
def Frees (cm cm' : Coremap) (i n : Nat) : Prop :=
  (∀ j, i ≤ j → j < i + n → ¬ cm.FreeFrame j) ∧
    ∀ j, cm'.FreeFrame j ↔ cm.FreeFrame j ∨ (i ≤ j ∧ j < i + n)

/-- A call that does not free the kernel allocation at `i`. -/
def SparingStep (i : Nat) (vm : Vm) (op : CoreOp) (vm' : Vm) : Prop :=
  CoreStep vm op vm' ∧ op ≠ .freeKpages i

variable {cm cm' : Coremap} {vm vm' : Vm} {q q' : List Nat} {op : CoreOp} {i n : Nat}

theorem Coremap.Extents.apart (he : cm.Extents) : ExtentsApart cm := by
  have hlt : ∀ h h' j, cm.ExtentOf h j → cm.ExtentOf h' j → ¬ h < h' := by
    intro h h' j hx hx' hlt
    have htail := he.tail h h' hx.1 hx.2.1 hlt (lt_of_le_of_lt hx'.2.2.1 hx.2.2.2)
    rw [hx'.2.1] at htail
    cases htail
  constructor
  · intro h j hx
    exact lt_of_lt_of_le hx.2.2.2 (he.head h hx.1 hx.2.1).2
  · intro h h' j hx hx'
    have h1 := hlt h h' j hx hx'
    have h2 := hlt h' h j hx' hx
    omega
  · exact fun h f hu => he.not_extentOf_user hu
  · exact fun f hu => he.user f hu
  · intro h hh hz
    exact ⟨hh, hz, le_rfl, Nat.lt_add_of_pos_right (he.head h hh hz).1⟩
  · intro h j hx hne
    have hlt : h < j := lt_of_le_of_ne hx.2.2.1 (Ne.symm hne)
    exact he.tail h j hx.1 hx.2.1 hlt hx.2.2.2

/-- An allocation keeps its entry until it is freed. -/
theorem CoreEffect.keeps_head (he : cm.Extents) (hi : i < cm.ptsize) (hz : (cm.own i).1 = 0)
    (heff : CoreEffect cm q op cm' q') (hq : ∀ f ∈ q, cm.IsUser f) (hop : op ≠ .freeKpages i) :
    cm'.own i = cm.own i := by
  have huser : ∀ f, cm.IsUser f → i ≠ f := by
    rintro f hu rfl
    have := hu.2
    omega
  have hfree : ∀ f, cm.FreeFrame f → i ≠ f := by
    rintro f hf rfl
    have := hf.pid_eq he
    omega
  cases heff with
  | install _ _ hf _ hown => rw [hown, update_of_ne (hfree _ hf)]
  | starve => rfl
  | replace _ _ _ hq' hown =>
    have hu := hq _ (hq' ▸ List.mem_cons_self ..)
    rw [hown, update_of_ne (huser _ hu)]
  | release hm hown => rw [hown, update_of_ne (huser _ hm.1)]
  | absent => rfl
  | remove hp hown =>
    rw [hown i hi, if_neg]
    omega
  | removeNobody => rfl
  | kalloc hn hrun hown =>
    have hne := hfree _ (hrun _ le_rfl (by omega))
    rw [hown, update_of_ne hne]
  | kfree _ hown =>
    rename_i j _
    have hne : i ≠ j := by
      rintro rfl
      exact hop rfl
    rw [hown, update_of_ne hne]

/-- Freeing a kernel allocation frees its extent. -/
theorem frees_of_own_update {v : VAddr} (he : cm.Extents) (hi : i < cm.ptsize)
    (hz : (cm.own i).1 = 0) (hown : cm'.own = update cm.own i (-1, v, 0))
    (hsz : cm'.ptsize = cm.ptsize) : Frees cm cm' i (cm.own i).2.2 := by
  have hmine : ∀ j, i ≤ j → j < i + (cm.own i).2.2 → cm.ExtentOf i j :=
    fun j h1 h2 => ⟨hi, hz, h1, h2⟩
  have hgone : ∀ j, ¬ cm'.ExtentOf i j := by
    intro j hx
    have := hx.2.1
    rw [hown, update_self] at this
    cases this
  have huser : ∀ j, cm'.IsUser j ↔ cm.IsUser j := by
    intro j
    rw [isUser_of_own_update hown hsz]
    constructor
    · rintro (⟨-, hu⟩ | ⟨-, -, hpos⟩)
      · exact hu
      · exact absurd hpos (by simp)
    · intro hu
      refine .inl ⟨?_, hu⟩
      rintro rfl
      have := hu.2
      omega
  refine ⟨fun j h1 h2 hf => hf.2.2 ⟨i, hmine j h1 h2⟩, fun j => ?_⟩
  constructor
  · rintro ⟨hj, hnu, hnx⟩
    by_cases hx : cm.InExtent j
    · obtain ⟨h, hx⟩ := hx
      by_cases hhi : h = i
      · subst hhi
        exact .inr ⟨hx.2.2.1, hx.2.2.2⟩
      · exact absurd ⟨h, (extentOf_of_own_update hown hsz hhi j).2 hx⟩ hnx
    · exact .inl ⟨hsz ▸ hj, fun hu => hnu ((huser j).2 hu), hx⟩
  · intro hor
    have hx' : ∀ h, cm'.ExtentOf h j → h ≠ i ∧ cm.ExtentOf h j := by
      intro h hx
      have hne : h ≠ i := by
        rintro rfl
        exact hgone j hx
      exact ⟨hne, (extentOf_of_own_update hown hsz hne j).1 hx⟩
    rcases hor with hf | ⟨h1, h2⟩
    · refine ⟨hsz.symm ▸ hf.1, fun hu => hf.2.1 ((huser j).1 hu), ?_⟩
      rintro ⟨h, hx⟩
      exact hf.2.2 ⟨h, (hx' h hx).2⟩
    · have hx := hmine j h1 h2
      refine ⟨hsz.symm ▸ he.apart.inside i j hx, fun hu => ?_, ?_⟩
      · exact he.apart.user i j ((huser j).1 hu) hx
      · rintro ⟨h, hh⟩
        obtain ⟨hne, hold⟩ := hx' h hh
        exact hne (he.apart.kernel h i j hold hx)

/-! ## From the allocation to its release -/

/-- The allocation headed by `i` has `n` frames. -/
def Coremap.Heads (cm : Coremap) (i n : Nat) : Prop :=
  i < cm.ptsize ∧ (cm.own i).1 = 0 ∧ (cm.own i).2.2 = n

theorem getfreeppages_heads (h : TableInv vm.cm q) (hstep : CoreStep vm (.getfreeppages n) vm')
    (hres : (getfreeppages vm n).result = .ok (i * PAGE_SIZE)) : vm'.cm.Heads i n := by
  obtain ⟨hfound, rfl⟩ := hstep
  have hn : 0 < n := by
    rcases Nat.eq_zero_or_pos n with rfl | hn
    · exact absurd (getfreeframes_zero vm.cm) hfound
    · exact hn
  rcases getfreeframes_spec h.extents hn with ⟨k, -, hrun, -⟩ | ⟨hno, -⟩
  · obtain ⟨k, e, hrun, -, rfl, heq, -⟩ := getfreeppages_found h hn ⟨k, hrun⟩
    rw [heq] at hres ⊢
    obtain rfl : k = i := Nat.eq_of_mul_eq_mul_right PAGE_SIZE_pos (Except.ok.inj hres)
    refine ⟨(hrun k le_rfl (by omega)).1, ?_, ?_⟩ <;> rw [own_setEntry, update_self]
  · exact absurd hno hfound

theorem sparingStep_heads (vm : Vm) (op : CoreOp) (vm' : Vm)
    (h : (∃ q, TableInv vm.cm q) ∧ vm.cm.Heads i n) (hstep : SparingStep i vm op vm') :
    (∃ q, TableInv vm'.cm q) ∧ vm'.cm.Heads i n := by
  obtain ⟨⟨q, hinv⟩, hi, hz, hlen⟩ := h
  obtain ⟨q', hinv', hs, heff⟩ := coreStep_effect hinv hstep.1
  have hq : ∀ f ∈ q, vm.cm.IsUser f := fun f hf => (hinv.rep.mem_queue f).1 hf
  have hown := heff.keeps_head hinv.extents hi hz hq hstep.2
  exact ⟨⟨q', hinv'⟩, hs.ptsize ▸ hi, hown.symm ▸ hz, hown.symm ▸ hlen⟩

/-- Over every run from boot, kernel extents and user frames do not overlap, and an allocation gives
    back its own frames, whenever it is freed. -/
theorem kernel_extents_apart (h : CoreReachable vm) : ExtentsApart vm.cm ∧
    ∀ n i vm₁ vm₂ vm₃, CoreStep vm (.getfreeppages n) vm₁ →
      (getfreeppages vm n).result = .ok (i * PAGE_SIZE) → Reaches (SparingStep i) vm₁ vm₂ →
      CoreStep vm₂ (.freeKpages i) vm₃ → Frees vm₂.cm vm₃.cm i n := by
  obtain ⟨q, hinv⟩ := h.tableInv
  refine ⟨hinv.extents.apart, fun n i vm₁ vm₂ vm₃ halloc hres hrun hfree => ?_⟩
  have hheads := getfreeppages_heads hinv halloc hres
  obtain ⟨⟨q₂, hinv₂⟩, hi, hz, hlen⟩ := hrun.invariant sparingStep_heads
    ⟨coreStep_inv vm _ vm₁ ⟨q, hinv⟩ halloc, hheads⟩
  obtain ⟨q₃, -, hs, heff⟩ := coreStep_effect hinv₂ hfree
  cases heff with
  | kfree _ hown => exact hlen ▸ frees_of_own_update hinv₂.extents hi hz hown hs.ptsize

/-- Thirty-two frames, of which the kernel leaves four free. -/
def fourFrames : Vm :=
  { blank with cm := okOr blank.cm (ptinit blank.cm (32 * 4096) (28 * 4096)) }

theorem fourFrames_reachable : CoreReachable fourFrames :=
  ⟨fourFrames, ⟨blank.cm, 32 * 4096, 28 * 4096, rfl, rfl, by decide, by decide, rfl⟩, .refl⟩

/-- Two frames are given to the kernel. -/
def kernelTwo : Vm := (getfreeppages fourFrames 2).vm

/-- The next one is given to a process. -/
def kernelTwoUser : Vm := (okOr (kernelTwo, 0) (allocuserpage kernelTwo 2 0x400000)).1

/-- The kernel gives its two frames back. -/
def kernelTwoFreed : Vm :=
  okOr kernelTwoUser (freeKpages kernelTwoUser (PADDR_TO_KVADDR (28 * PAGE_SIZE)))

theorem kernelTwo_extents : ExtentsApart fourFrames.cm ∧
    CoreStep kernelTwoUser (.freeKpages 28) kernelTwoFreed ∧
    Frees kernelTwoUser.cm kernelTwoFreed.cm 28 2 := by
  have halloc : CoreStep fourFrames (.getfreeppages 2) kernelTwo := ⟨by decide +kernel, rfl⟩
  have huser : SparingStep 28 kernelTwo (.allocuserpage 2 0x400000) kernelTwoUser :=
    ⟨⟨by decide, rfl, 30 * 4096, rfl⟩, by simp⟩
  have hfree : CoreStep kernelTwoUser (.freeKpages 28) kernelTwoFreed :=
    ⟨by decide, by decide +kernel, by decide +kernel, rfl⟩
  have hres : (getfreeppages fourFrames 2).result = .ok (28 * PAGE_SIZE) := rfl
  obtain ⟨hapart, hfrees⟩ := kernel_extents_apart fourFrames_reachable
  exact ⟨hapart, hfree, hfrees 2 28 _ _ _ halloc hres (.single huser) hfree⟩

end DemandPaging
