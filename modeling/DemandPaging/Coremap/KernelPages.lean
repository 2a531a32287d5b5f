import DemandPaging.Coremap.Runs

set_option autoImplicit false

/-! # Kernel allocations

What a kernel allocation owes its caller (`KallocSound`) and when `getfreeppages` delivers it. The
path without a free run evicts one page after it has given up the lock, keeps the index `-1` of the
failed search and writes the entry with that index. -/

namespace DemandPaging

/-- The lock is taken when free, released when held, and held at every update of the table. -/
def lockDiscipline : Bool → List PtEvent → Bool
  | held, [] => !held
  | held, .acquire :: es => !held && lockDiscipline true es
  | held, .release :: es => held && lockDiscipline false es
  | held, .update :: es => held && lockDiscipline held es
  | held, .swapout _ _ :: es => lockDiscipline held es

/-- A kernel allocation fails (it returns 0 or panics), or it hands out a run of frames that nobody
    holds, records it in the head entry and touches no other entry but those of pages it has
    written to swap. `isptactive` accounts for the first two events; after them the lock is
    released once. -/
def KallocSound (vm : Vm) (n : Nat) : Prop :=
  let r := getfreeppages vm n
  lockDiscipline false r.events = true ∧ (r.events.drop 2).count .release = 1 ∧
    ((∃ msg, r.result = .error (.panic msg)) ∨ r.result = .ok 0 ∨
      ∃ ind, r.result = .ok (ind * PAGE_SIZE) ∧
        allocKpages vm n = .ok (PADDR_TO_KVADDR (ind * PAGE_SIZE)) ∧
        ind + n ≤ vm.cm.ptsize ∧
        (∀ j, ind ≤ j → j < ind + n → ¬ vm.cm.InExtent j ∧ ¬ r.vm.cm.IsUser j) ∧
        r.vm.cm.own ind = (0, PADDR_TO_KVADDR (ind * PAGE_SIZE), n) ∧
        ∀ j, j ≠ ind → r.vm.cm.pt j = vm.cm.pt j ∨
          (vm.cm.IsUser j ∧ ¬ r.vm.cm.IsUser j ∧
            .swapout (vm.cm.pt j).pid (vm.cm.pt j).vaddr ∈ r.events))

variable {vm : Vm} {q : List Nat} {n : Nat}

/-- With a free run the allocation is sound. -/
theorem kallocSound_of_run (h : TableInv vm.cm q) (hn : 0 < n) (hrun : ∃ k, vm.cm.RunFree k n) :
    KallocSound vm n := by
  obtain ⟨i, e, hfree, -, rfl, heq, hinv⟩ := getfreeppages_found h hn hrun
  have hi := hfree i le_rfl (by omega)
  have hne : i * PAGE_SIZE ≠ 0 := Nat.mul_ne_zero (h.freeFrame_ne_zero hi) (by decide)
  have hlast := hfree (i + n - 1) (by omega) (by omega)
  have hbound : i + n - 1 < vm.cm.ptsize := hlast.1
  unfold KallocSound
  rw [heq]
  refine ⟨rfl, rfl, .inr (.inr ⟨i, rfl, ?_, by omega, ?_, ?_, ?_⟩)⟩
  · rw [allocKpages, heq]
    simp only [if_neg hne]
  · intro j h1 h2
    refine ⟨(hfree j h1 h2).2.2, fun hu => ?_⟩
    rcases (isUser_of_own_update (own_setEntry ..) rfl j).1 hu with ⟨-, hu⟩ | ⟨-, -, hpos⟩
    · exact (hfree j h1 h2).2.1 hu
    · exact absurd hpos (by simp)
  · simp
  · intro j hj
    exact .inl (Function.update_of_ne hj _ _)

/-- When its search fails, `getfreeppages` panics if it finds no victim or no swap slot, and
    otherwise leaves the table at the index of the failed search. -/
theorem getfreeppages_not_found (h : TableInv vm.cm q)
    (hind : getfreeframes vm.cm.pt vm.cm.ptsize n = -1) :
    (q = [] ∧ getfreeppages vm n =
        ⟨vm, [.acquire, .release, .acquire, .release], .error (.panic noSpaceMsg)⟩) ∨
      (q ≠ [] ∧ (∀ k < SWAPPAGES, (vm.swap.swappagesmap k).pid ≠ -1) ∧ getfreeppages vm n =
        ⟨vm, [.acquire, .release, .acquire, .release], .error (.panic swapFullMsg)⟩) ∨
      (q ≠ [] ∧ (∃ k < SWAPPAGES, (vm.swap.swappagesmap k).pid = -1) ∧
        (getfreeppages vm n).result = .error .outOfBounds) := by
  have hact : ¬ vm.cm.isAct = false := by rw [h.isAct]; decide
  cases q with
  | nil =>
    have hfv : vm.cm.firstvictim = none := h.rep.firstvictim_eq
    refine .inl ⟨rfl, ?_⟩
    rw [getfreeppages, if_neg hact]
    simp only [hind, if_true, hfv]
    rfl
  | cons f q' =>
    obtain ⟨hfv, hm⟩ := h.head_victim
    have hga := h.getpageaddr_maps hm
    cases hc : vm.swap.claimSlot (vm.cm.pt f).pid (vm.cm.pt f).vaddr with
    | none =>
      refine .inr (.inl ⟨by simp, claimSlot_eq_none.1 hc, ?_⟩)
      rw [getfreeppages, if_neg hact]
      simp only [hind, if_true, hfv, hga, hc]
      rfl
    | some r =>
      have hslot : ∃ k < SWAPPAGES, (vm.swap.swappagesmap k).pid = -1 := by
        by_contra hfull
        push Not at hfull
        rw [claimSlot_eq_none.2 hfull] at hc
        cases hc
      refine .inr (.inr ⟨by simp, hslot, ?_⟩)
      obtain ⟨cm', hfree, -, -, hs, -⟩ := h.evict hm
      -- `(unsigned) -1` is past the end of any table
      have hout : cm'.ptsize ≤ (UInt32.ofInt (-1)).toNat := by
        have hlast : (UInt32.ofInt (-1)).toNat = 2 ^ 32 - 1 := by decide
        have := h.ptsize_le
        rw [hs.ptsize, hlast]
        omega
      rw [getfreeppages, if_neg hact]
      simp only [hind, if_true, hfv, hga, hc, Vm.incr, hfree, getfreeppagesEnd,
        Coremap.setptentry, if_pos hout]

/-- The search fails when there is no free run. -/
theorem getfreeframes_no_run (h : TableInv vm.cm q) (hn : 0 < n)
    (hno : ∀ k, ¬ vm.cm.RunFree k n) : getfreeframes vm.cm.pt vm.cm.ptsize n = -1 := by
  rcases getfreeframes_spec h.extents hn with ⟨i, -, hrun, -⟩ | ⟨hind, -⟩
  · exact absurd hrun (hno i)
  · exact hind

theorem not_kallocSound (heq : (getfreeppages vm n).result = .error .outOfBounds) :
    ¬ KallocSound vm n := by
  rintro ⟨-, -, ⟨msg, hp⟩ | hz | ⟨ind, hok, -⟩⟩
  · rw [heq] at hp; cases hp
  · rw [heq] at hz; cases hz
  · rw [heq] at hok; cases hok

/-- When exactly a kernel allocation is sound: there is a free run, or the kernel panics because
    there is no page to evict or no swap slot left for it. -/
theorem getfreeppages_sound_iff (h : CoreReachable vm) (hn : 0 < n) :
    KallocSound vm n ↔ (∃ k, vm.cm.RunFree k n) ∨ (∀ i, ¬ vm.cm.IsUser i) ∨
      ∀ k < SWAPPAGES, (vm.swap.swappagesmap k).pid ≠ -1 := by
  obtain ⟨q, hinv⟩ := h.tableInv
  by_cases hrun : ∃ k, vm.cm.RunFree k n
  · exact ⟨fun _ => .inl hrun, fun _ => kallocSound_of_run hinv hn hrun⟩
  have hno : ∀ k, ¬ vm.cm.RunFree k n := fun k hk => hrun ⟨k, hk⟩
  rcases getfreeppages_not_found hinv (getfreeframes_no_run hinv hn hno) with
    ⟨hq, heq⟩ | ⟨-, hfull, heq⟩ | ⟨hq, hslot, heq⟩
  · refine ⟨fun _ => .inr (.inl (hinv.rep.queue_eq_nil.1 hq)), fun _ => ?_⟩
    unfold KallocSound
    rw [heq]
    exact ⟨rfl, rfl, .inl ⟨_, rfl⟩⟩
  · refine ⟨fun _ => .inr (.inr hfull), fun _ => ?_⟩
    unfold KallocSound
    rw [heq]
    exact ⟨rfl, rfl, .inl ⟨_, rfl⟩⟩
  · refine ⟨fun hs => absurd hs (not_kallocSound heq), ?_⟩
    rintro (hr | hu | hfull)
    · exact absurd hr hrun
    · exact absurd (hinv.rep.queue_eq_nil.2 hu) hq
    · obtain ⟨k, hk, hfree⟩ := hslot
      exact absurd hfree (hfull k hk)

/-- One free frame: a kernel allocation of one page succeeds, one of two pages panics. -/
theorem oneFrame_kallocSound : KallocSound oneFrame 1 ∧ KallocSound oneFrame 2 := by
  have hreach : CoreReachable oneFrame := ⟨oneFrame, oneFrame_boots, .refl⟩
  obtain ⟨q, hinv⟩ := hreach.tableInv
  refine ⟨(getfreeppages_sound_iff hreach (by decide)).2 (.inl ⟨31, ?_⟩),
    (getfreeppages_sound_iff hreach (by decide)).2 (.inr (.inl ?_))⟩
  · rcases getfreeframes_spec hinv.extents Nat.zero_lt_one with ⟨i, hi, hrun, -⟩ | ⟨hnone, -⟩
    · have h31 : getfreeframes oneFrame.cm.pt oneFrame.cm.ptsize 1 = 31 := rfl
      have : i = 31 := by omega
      exact this ▸ hrun
    · exact absurd hnone (by decide)
  · intro i hu
    have hlt : i < 32 := hu.1
    have hnot : ∀ j < 32, ¬ oneFrame.cm.IsUser j := by decide
    exact hnot i hlt hu

/-- All frames taken, the last one by a user page: the kernel allocation evicts it and writes
    past the table. -/
theorem oneFrameUsed_not_kallocSound :
    CoreReachable oneFrameUsed ∧ ¬ KallocSound oneFrameUsed 1 := by
  refine ⟨oneFrameUsed_reachable, ?_⟩
  obtain ⟨q, hinv⟩ := oneFrameUsed_reachable.tableInv
  have hnone : getfreeframes oneFrameUsed.cm.pt oneFrameUsed.cm.ptsize 1 = -1 := rfl
  rcases getfreeppages_not_found hinv hnone with ⟨hq, -⟩ | ⟨-, hfull, -⟩ | ⟨-, -, heq⟩
  · exact absurd (by decide) (hinv.rep.queue_eq_nil.1 hq 31)
  · exact absurd rfl (hfull 0 (by decide))
  · exact not_kallocSound heq

end DemandPaging
