import DemandPaging.PageTable.Invariant

set_option autoImplicit false

/-! # Kernel extents and the first-fit scan

A kernel allocation of `n` frames marks only its head; the other `n - 1` entries keep `pid = -1`
and look free. What protects them is that the scan of `getfreeframes` jumps over the extent of
every head it meets. `Extents` states the layout that makes this work (the tail of an extent holds
no other entry), and `scanFrames_spec` is the scan's specification on such a layout: the least
start of a run of truly free frames, or nothing when there is no such run. Its loop invariant is
that the outer index is never strictly inside an extent. -/

namespace DemandPaging

namespace Coremap

variable (cm : Coremap)

/-- Frame `j` lies in the extent of the kernel allocation headed by `h`. -/
def ExtentOf (h j : Nat) : Prop :=
  h < cm.ptsize ∧ (cm.own h).1 = 0 ∧ h ≤ j ∧ j < h + (cm.own h).2.2

/-- Frame `j` is held by the kernel. -/
def InExtent (j : Nat) : Prop := ∃ h, cm.ExtentOf h j

/-- Frame `j` is held by nobody. -/
def FreeFrame (j : Nat) : Prop := j < cm.ptsize ∧ ¬ cm.IsUser j ∧ ¬ cm.InExtent j

/-- `n` free frames start at `i`. -/
def RunFree (i n : Nat) : Prop := ∀ j, i ≤ j → j < i + n → cm.FreeFrame j

/-- The layout of the table: kernel extents lie inside it, with only `pid = -1` entries behind
    their heads, and a user page is one frame. -/
structure Extents : Prop where
  range : ∀ i < cm.ptsize, (cm.own i).1 = -1 ∨ (cm.own i).1 = 0 ∨ 0 < (cm.own i).1
  head : ∀ h < cm.ptsize, (cm.own h).1 = 0 → 0 < (cm.own h).2.2 ∧ h + (cm.own h).2.2 ≤ cm.ptsize
  tail : ∀ h j, h < cm.ptsize → (cm.own h).1 = 0 → h < j → j < h + (cm.own h).2.2 →
    (cm.own j).1 = -1
  user : ∀ i, cm.IsUser i → (cm.own i).2.2 = 1

/-- No extent starts before `i` and reaches over it. -/
def Outside (i : Nat) : Prop := ∀ h < i, ¬ cm.ExtentOf h i

end Coremap

variable {cm cm' : Coremap}

theorem Coremap.FreeFrame.pid_eq {i : Nat} (he : cm.Extents) (h : cm.FreeFrame i) :
    (cm.own i).1 = -1 := by
  rcases he.range i h.1 with hp | hp | hp
  · exact hp
  · exact absurd ⟨i, h.1, hp, le_rfl, Nat.lt_add_of_pos_right (he.head i h.1 hp).1⟩ h.2.2
  · exact absurd ⟨h.1, hp⟩ h.2.1

/-- A user page never lies in a kernel allocation. -/
theorem Coremap.Extents.not_extentOf_user {h k : Nat} (he : cm.Extents) (hu : cm.IsUser k) :
    ¬ cm.ExtentOf h k := by
  intro hx
  have hpos := hu.2
  rcases Nat.eq_or_lt_of_le hx.2.2.1 with heq | hlt
  · have := hx.2.1
    rw [heq] at this
    omega
  · have := he.tail h k hx.1 hx.2.1 hlt hx.2.2.2
    omega

/-! ## The scan -/

/-- The inner loop succeeds exactly when the whole run is marked `-1` and ends inside the table. -/
theorem freeRun_iff {pt : Nat → PtPage} {n i : Nat} (left : Nat) :
    ∀ {j : Nat}, i ≤ j → j < i + n →
      (freeRun pt n i left j = true ↔
        (∀ k, j ≤ k → k < i + n → (pt k).pid = -1) ∧ i + n ≤ j + left) := by
  induction left with
  | zero =>
    intro j _ hj
    simp only [freeRun, Bool.false_eq_true, false_iff, not_and]
    omega
  | succ left ih =>
    intro j hij hj
    rw [freeRun]
    by_cases hp : (pt j).pid = -1
    · rw [if_neg (not_not.2 hp)]
      by_cases hlen : j - i + 1 = n
      · rw [if_pos hlen]
        refine iff_of_true rfl ⟨fun k hjk hk => ?_, by omega⟩
        obtain rfl : k = j := by omega
        exact hp
      · rw [if_neg hlen, ih (by omega) (by omega)]
        constructor
        · rintro ⟨hall, hle⟩
          refine ⟨fun k hjk hk => ?_, by omega⟩
          rcases Nat.eq_or_lt_of_le hjk with rfl | hlt
          · exact hp
          · exact hall k hlt hk
        · rintro ⟨hall, hle⟩
          exact ⟨fun k hjk hk => hall k (by omega) hk, by omega⟩
    · rw [if_pos hp]
      exact iff_of_false (by simp) (fun h => hp (h.1 j le_rfl hj))

/-- From an index outside all extents, a run of `-1` entries is a run of free frames: an extent
    that met the run would have its head in it, or reach over its start. -/
theorem runFree_of_marked {i n : Nat} (hout : cm.Outside i) (hle : i + n ≤ cm.ptsize)
    (hp : ∀ k, i ≤ k → k < i + n → (cm.own k).1 = -1) : cm.RunFree i n := by
  intro j hij hj
  refine ⟨by omega, fun hu => ?_, ?_⟩
  · have := hp j hij hj
    have hpos := hu.2
    omega
  · rintro ⟨h, hh⟩
    obtain ⟨hlt, hz, hhj, hjn⟩ := hh
    by_cases hhi : h < i
    · exact hout h hhi ⟨hlt, hz, by omega, by omega⟩
    · have := hp h (by omega) (by omega)
      omega

theorem marked_of_runFree {i n : Nat} (he : cm.Extents) (hn : 0 < n) (h : cm.RunFree i n) :
    i + n ≤ cm.ptsize ∧ ∀ k, i ≤ k → k < i + n → (cm.own k).1 = -1 := by
  refine ⟨?_, fun k hik hk => (h k hik hk).pid_eq he⟩
  have := (h (i + n - 1) (by omega) (by omega)).1
  omega

/-- The scan from an index outside all extents finds the least run from there on. -/
theorem scanFrames_spec {n : Nat} (he : cm.Extents) (hn : 0 < n) (fuel : Nat) :
    ∀ {i : Nat}, cm.Outside i → cm.ptsize ≤ i + fuel →
      (∃ r, scanFrames cm.pt cm.ptsize n fuel i = some r ∧ cm.RunFree r n ∧
        ∀ k, i ≤ k → k < r → ¬ cm.RunFree k n) ∨
      (scanFrames cm.pt cm.ptsize n fuel i = none ∧ ∀ k, i ≤ k → ¬ cm.RunFree k n) := by
  -- beyond the table no frame is free
  have hpast : ∀ k, cm.ptsize ≤ k → ¬ cm.RunFree k n := fun k hk hr =>
    absurd (hr k le_rfl (by omega)).1 (by omega)
  induction fuel with
  | zero =>
    intro i _ hfuel
    exact .inr ⟨rfl, fun k hk => hpast k (by omega)⟩
  | succ fuel ih =>
    intro i hout hfuel
    -- going on from `m > i` is fine once no run starts in between
    have hgo : ∀ m, i < m → cm.Outside m → (∀ k, i ≤ k → k < m → ¬ cm.RunFree k n) →
        scanFrames cm.pt cm.ptsize n (fuel + 1) i = scanFrames cm.pt cm.ptsize n fuel m →
        (∃ r, scanFrames cm.pt cm.ptsize n (fuel + 1) i = some r ∧ cm.RunFree r n ∧
          ∀ k, i ≤ k → k < r → ¬ cm.RunFree k n) ∨
        (scanFrames cm.pt cm.ptsize n (fuel + 1) i = none ∧
          ∀ k, i ≤ k → ¬ cm.RunFree k n) := by
      intro m him hm hno heq
      rw [heq]
      rcases ih hm (by omega) with ⟨r, hr, hrun, hleast⟩ | ⟨hnone, hall⟩
      · refine .inl ⟨r, hr, hrun, fun k hik hkr => ?_⟩
        by_cases hkm : k < m
        · exact hno k hik hkm
        · exact hleast k (by omega) hkr
      · refine .inr ⟨hnone, fun k hik => ?_⟩
        by_cases hkm : k < m
        · exact hno k hik hkm
        · exact hall k (by omega)
    by_cases hi : cm.ptsize ≤ i
    · exact .inr ⟨by simp [scanFrames, hi], fun k hk => hpast k (by omega)⟩
    have hilt : i < cm.ptsize := Nat.not_le.1 hi
    by_cases hp : (cm.pt i).pid = -1
    · by_cases hrun : freeRun cm.pt n i (cm.ptsize - i) i = true
      · obtain ⟨hall, hle⟩ := (freeRun_iff _ le_rfl (by omega)).1 hrun
        refine .inl ⟨i, by simp [scanFrames, hi, hp, hrun],
          runFree_of_marked hout (by omega) hall, fun k hik hki => absurd hik (by omega)⟩
      · -- the run at `i` is too short, and `i + 1` is outside all extents like `i` was
        refine hgo (i + 1) (by omega) ?_ ?_ (by simp [scanFrames, hi, hp, hrun])
        · rintro h hh ⟨hlt, hz, -, hjn⟩
          rcases Nat.lt_or_ge h i with hhi | hhi
          · exact hout h hhi ⟨hlt, hz, by omega, by omega⟩
          · obtain rfl : h = i := by omega
            exact absurd (hp.symm.trans hz) (by decide)
        · intro k hik hki hr
          obtain rfl : k = i := by omega
          obtain ⟨hle, hmk⟩ := marked_of_runFree he hn hr
          exact hrun ((freeRun_iff _ le_rfl (by omega)).2 ⟨hmk, by omega⟩)
    · rcases he.range i hilt with hm1 | hz | hpos
      · exact absurd hm1 hp
      · -- a kernel head: the scan jumps behind its extent
        obtain ⟨hnp, hle⟩ := he.head i hilt hz
        have hnp' : 0 < (cm.pt i).numpages := hnp
        refine hgo (i + (cm.own i).2.2) (by omega) ?_ ?_ ?_
        · rintro h hh ⟨hlt, hz', -, hjn⟩
          rcases Nat.lt_trichotomy h i with hhi | rfl | hhi
          · exact hout h hhi ⟨hlt, hz', by omega, by omega⟩
          · omega
          · exact absurd ((he.tail i h hilt hz hhi hh).symm.trans hz') (by decide)
        · intro k hik hki hr
          exact (hr k le_rfl (by omega)).2.2 ⟨i, hilt, hz, hik, hki⟩
        · rw [scanFrames, if_neg hi, if_neg hp, if_pos hnp']
          congr 1
          simp only [Coremap.own]
          omega
      · -- a user page: one frame
        have hone : (cm.pt i).numpages = 1 := he.user i ⟨hilt, hpos⟩
        refine hgo (i + 1) (by omega) ?_ ?_ ?_
        · rintro h hh ⟨hlt, hz, -, hjn⟩
          rcases Nat.lt_or_ge h i with hhi | hhi
          · exact hout h hhi ⟨hlt, hz, by omega, by omega⟩
          · obtain rfl : h = i := by omega
            omega
        · intro k hik hki hr
          obtain rfl : k = i := by omega
          exact (hr k le_rfl (by omega)).2.1 ⟨hilt, hpos⟩
        · rw [scanFrames, if_neg hi, if_neg hp, if_pos (by omega), hone, Nat.add_sub_cancel]

/-- First fit: the least start of a run of free frames, `-1` exactly when there is none. -/
theorem getfreeframes_spec {n : Nat} (he : cm.Extents) (hn : 0 < n) :
    (∃ i : Nat, getfreeframes cm.pt cm.ptsize n = i ∧ cm.RunFree i n ∧
      ∀ k < i, ¬ cm.RunFree k n) ∨
    (getfreeframes cm.pt cm.ptsize n = -1 ∧ ∀ k, ¬ cm.RunFree k n) := by
  have hout : cm.Outside 0 := fun h hh => absurd hh (by omega)
  rcases scanFrames_spec he hn cm.ptsize hout (by omega) with ⟨r, hr, hrun, hleast⟩ | ⟨hno, hall⟩
  · exact .inl ⟨r, by simp [getfreeframes, hr], hrun, fun k hk => hleast k (by omega) hk⟩
  · exact .inr ⟨by simp [getfreeframes, hno], fun k => hall k (by omega)⟩

/-! ### Tables whose frames have one holder

`Extents` describes a table entry by entry. The same layout seen from the frames: no two kernel
allocations share one, and no user page lies in one. That the entries behind a head are marked
`-1` follows, because any other mark would make a second holder. -/

/-- Every entry is of one of the three kinds, the `numpages` frames of a kernel allocation exist, a
    user page is one frame, and no frame has two holders. -/
structure Coremap.OneHolder (cm : Coremap) : Prop where
  kind : ∀ i < cm.ptsize, (cm.pt i).pid = -1 ∨ (cm.pt i).pid = 0 ∨ 0 < (cm.pt i).pid
  covers : ∀ h < cm.ptsize, (cm.pt h).pid = 0 →
    0 < (cm.pt h).numpages ∧ h + (cm.pt h).numpages ≤ cm.ptsize
  single : ∀ i < cm.ptsize, 0 < (cm.pt i).pid → (cm.pt i).numpages = 1
  kernel : ∀ h < cm.ptsize, ∀ h' < cm.ptsize, ∀ j < cm.ptsize,
    cm.ExtentOf h j → cm.ExtentOf h' j → h = h'
  user : ∀ h < cm.ptsize, ∀ i < cm.ptsize, cm.IsUser i → ¬ cm.ExtentOf h i

instance (cm : Coremap) (h j : Nat) : Decidable (cm.ExtentOf h j) :=
  inferInstanceAs (Decidable (_ ∧ _))

theorem Coremap.OneHolder.extents (h : cm.OneHolder) : cm.Extents where
  range := h.kind
  head := h.covers
  user := fun i hu => h.single i hu.1 hu.2
  tail := by
    intro k j hk hz hkj hj
    obtain ⟨-, hle⟩ := h.covers k hk hz
    have hjlt : j < cm.ptsize := lt_of_lt_of_le hj hle
    have hin : cm.ExtentOf k j := ⟨hk, hz, hkj.le, hj⟩
    rcases h.kind j hjlt with hfree | hhead | huser
    · exact hfree
    · have hself : cm.ExtentOf j j :=
        ⟨hjlt, hhead, le_rfl, Nat.lt_add_of_pos_right (h.covers j hjlt hhead).1⟩
      exact absurd (h.kernel k hk j hjlt j hjlt hin hself) hkj.ne
    · exact absurd hin (h.user k hk j hjlt ⟨hjlt, huser⟩)

/-- First fit: `getfreeframes` returns the least start of a run of frames that exist and have no
    holder, and `-1` exactly when there is no such run. -/
theorem getfreeframes_firstFit {n : Nat} (h : cm.OneHolder) (hn : 1 ≤ n) :
    (∀ i : Nat, getfreeframes cm.pt cm.ptsize n = i ↔
      cm.RunFree i n ∧ ∀ k < i, ¬ cm.RunFree k n) ∧
    (getfreeframes cm.pt cm.ptsize n = -1 ↔ ¬ ∃ i, cm.RunFree i n) := by
  rcases getfreeframes_spec h.extents hn with ⟨r, hr, hrun, hleast⟩ | ⟨hr, hno⟩
  · refine ⟨fun i => ⟨fun hi => ?_, fun hi => ?_⟩, ?_⟩
    · obtain rfl : r = i := by omega
      exact ⟨hrun, hleast⟩
    · -- two least starts are equal
      rcases Nat.lt_trichotomy i r with hlt | rfl | hlt
      · exact absurd hi.1 (hleast i hlt)
      · exact hr
      · exact absurd hrun (hi.2 r hlt)
    · exact iff_of_false (by omega) (not_not.2 ⟨r, hrun⟩)
  · refine ⟨fun i => ⟨fun hi => ?_, fun hi => ?_⟩, ?_⟩
    · omega
    · exact absurd hi.1 (hno i)
    · exact iff_of_true hr (fun ⟨i, hi⟩ => hno i hi)

/-- Seven frames: a kernel allocation of three, whose last two look free, a user page, two free
    frames, and a kernel page at the end. -/
def gappedTable : Coremap where
  pt := fun i => [⟨0, 0x80000000, 3, none, none⟩, ⟨-1, 0, 0, none, none⟩, ⟨-1, 0, 0, none, none⟩,
    ⟨2, 0x400000, 1, none, none⟩, ⟨-1, 0, 0, none, none⟩, ⟨-1, 0, 0, none, none⟩].getD i
    ⟨0, 0x80006000, 1, none, none⟩
  ptsize := 7
  hashedpt := fun _ => some 3
  hashedptsize := 1
  firstvictim := some 3
  lastallocateduser := some 3
  isAct := true

theorem gappedTable_firstFit : gappedTable.OneHolder ∧
    getfreeframes gappedTable.pt gappedTable.ptsize 2 = 4 ∧ gappedTable.RunFree 4 2 ∧
    ¬ ∃ i, gappedTable.RunFree i 3 := by
  have h : gappedTable.OneHolder :=
    ⟨by decide, by decide, by decide, by decide, by decide⟩
  have hfit : getfreeframes gappedTable.pt gappedTable.ptsize 2 = (4 : Nat) := by decide
  exact ⟨h, hfit, (((getfreeframes_firstFit h (by decide)).1 4).1 hfit).1,
    (getfreeframes_firstFit h (by decide)).2.1 (by decide)⟩

/-- A run of no frames is never found: the inner loop counts from 1. -/
theorem getfreeframes_zero (cm : Coremap) : getfreeframes cm.pt cm.ptsize 0 = -1 := by
  have hrun : ∀ left i j, freeRun cm.pt 0 i left j = false := by
    intro left
    induction left with
    | zero => intro i j; rfl
    | succ left ih => intro i j; simp [freeRun, ih]
  have hscan : ∀ fuel i, scanFrames cm.pt cm.ptsize 0 fuel i = none := by
    intro fuel
    induction fuel with
    | zero => intro i; rfl
    | succ fuel ih => intro i; simp [scanFrames, hrun, ih]
  rw [getfreeframes, hscan]

theorem runFree_one {i : Nat} : cm.RunFree i 1 ↔ cm.FreeFrame i := by
  refine ⟨fun h => h i le_rfl (by omega), fun h j hij hj => ?_⟩
  obtain rfl : j = i := by omega
  exact h

/-! ## The layout under the three kinds of update -/

/-- The extents of unchanged heads are unchanged. -/
theorem extentOf_of_own_update {i : Nat} {x : Int × VAddr × Nat}
    (hown : cm'.own = Function.update cm.own i x) (hsz : cm'.ptsize = cm.ptsize) {h : Nat}
    (hne : h ≠ i) (j : Nat) : cm'.ExtentOf h j ↔ cm.ExtentOf h j := by
  unfold Coremap.ExtentOf
  rw [hown, hsz, Function.update_of_ne hne]

/-- One entry changes. The layout stays as it should be if the new entry is of one of the three
    kinds, is not put inside an extent (unless it is a free one), and heads an extent only where
    there is room for it. -/
theorem Coremap.Extents.update {i : Nat} {x : Int × VAddr × Nat} (he : cm.Extents)
    (hrange : x.1 = -1 ∨ x.1 = 0 ∨ 0 < x.1) (hout : x.1 = -1 ∨ cm.Outside i)
    (hhead : x.1 = 0 → 0 < x.2.2 ∧ i + x.2.2 ≤ cm.ptsize ∧
      ∀ j, i < j → j < i + x.2.2 → (cm.own j).1 = -1)
    (huser : 0 < x.1 → x.2.2 = 1)
    (hown : cm'.own = Function.update cm.own i x) (hsz : cm'.ptsize = cm.ptsize) :
    cm'.Extents := by
  constructor
  · intro k hk
    rw [hown]
    by_cases hki : k = i
    · rw [hki, Function.update_self]
      exact hrange
    · rw [Function.update_of_ne hki]
      exact he.range k (hsz ▸ hk)
  · intro h hh hz
    rw [hown] at hz ⊢
    by_cases hhi : h = i
    · rw [hhi, Function.update_self] at hz ⊢
      rw [hsz]
      exact ⟨(hhead hz).1, (hhead hz).2.1⟩
    · rw [Function.update_of_ne hhi] at hz ⊢
      rw [hsz]
      exact he.head h (hsz ▸ hh) hz
  · intro h j hh hz hhj hj
    rw [hown] at hz hj ⊢
    by_cases hhi : h = i
    · subst hhi
      rw [Function.update_self] at hz hj
      rw [Function.update_of_ne (by omega)]
      exact (hhead hz).2.2 j hhj hj
    · rw [Function.update_of_ne hhi] at hz hj
      by_cases hji : j = i
      · subst hji
        rw [Function.update_self]
        exact hout.resolve_right fun hno => hno h hhj ⟨hsz ▸ hh, hz, by omega, hj⟩
      · rw [Function.update_of_ne hji]
        exact he.tail h j (hsz ▸ hh) hz hhj hj
  · intro k hk
    rcases (isUser_of_own_update hown hsz k).1 hk with ⟨hki, hu⟩ | ⟨rfl, -, hpos⟩
    · rw [hown, Function.update_of_ne hki]
      exact he.user k hu
    · rw [hown, Function.update_self]
      exact huser hpos

theorem Coremap.FreeFrame.outside {i : Nat} (hf : cm.FreeFrame i) : cm.Outside i :=
  fun h _ hext => hf.2.2 ⟨h, hext⟩

/-- A user page put into a free frame. -/
theorem Coremap.Extents.update_user {i : Nat} {pid : Int} {v : VAddr} (he : cm.Extents)
    (hf : cm.FreeFrame i) (hp : 0 < pid)
    (hown : cm'.own = Function.update cm.own i (pid, v, 1)) (hsz : cm'.ptsize = cm.ptsize) :
    cm'.Extents := by
  refine he.update (.inr (.inr hp)) (.inr hf.outside) (fun hzero => ?_) (fun _ => rfl) hown hsz
  exact absurd hzero (by simpa using hp.ne')

/-- A kernel allocation in a free run. -/
theorem Coremap.Extents.update_kernel {i n : Nat} {v : VAddr} (he : cm.Extents) (hn : 0 < n)
    (hf : cm.RunFree i n)
    (hown : cm'.own = Function.update cm.own i (0, v, n)) (hsz : cm'.ptsize = cm.ptsize) :
    cm'.Extents := by
  obtain ⟨hle, hmk⟩ := marked_of_runFree he hn hf
  have hfree : cm.FreeFrame i := hf i le_rfl (by omega)
  refine he.update (.inr (.inl rfl)) (.inr hfree.outside) (fun _ => ⟨hn, hle, ?_⟩) (fun hpos => ?_)
    hown hsz
  · exact fun j hij hj => hmk j (by omega) hj
  · exact absurd hpos (by simp)

/-- Freeing any entry. -/
theorem Coremap.Extents.update_free {i : Nat} {v : VAddr} (he : cm.Extents)
    (hown : cm'.own = Function.update cm.own i (-1, v, 0)) (hsz : cm'.ptsize = cm.ptsize) :
    cm'.Extents := by
  refine he.update (.inl rfl) (.inl rfl) (fun hzero => ?_) (fun hpos => ?_) hown hsz
  · exact absurd hzero (by simp)
  · exact absurd hpos (by simp)

/-- A frame whose user page was just taken away is free. -/
theorem freeFrame_of_freed {i : Nat} {v : VAddr} (he : cm.Extents) (hu : cm.IsUser i)
    (hown : cm'.own = Function.update cm.own i (-1, v, 0)) (hsz : cm'.ptsize = cm.ptsize) :
    cm'.FreeFrame i := by
  refine ⟨hsz ▸ hu.1, fun hu' => ?_, ?_⟩
  · rcases (isUser_of_own_update hown hsz i).1 hu' with ⟨hne, -⟩ | ⟨-, -, hpos⟩
    · exact hne rfl
    · exact absurd hpos (by simp)
  · rintro ⟨h, hh⟩
    by_cases hhi : h = i
    · subst hhi
      have := hh.2.1
      rw [hown] at this
      simp at this
    · obtain ⟨hlt, hz, hle, hlt'⟩ := (extentOf_of_own_update hown hsz hhi i).1 hh
      have hpos := hu.2
      rcases Nat.eq_or_lt_of_le hle with rfl | hlt''
      · omega
      · have := he.tail h i hlt hz hlt'' hlt'
        omega

end DemandPaging
