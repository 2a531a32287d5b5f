import DemandPaging.Machine.Memory

set_option autoImplicit false

/-! # The frame a fault installs

`allocuserpage` puts a page into the queue of victims before its contents arrive, and `vm_fault`
keeps the physical address across the disk read. This file proves when the address is still right
at the call of `vmtlb_write`, and gives a run where it is not: while one process waits for its
executable, another one evicts the half-loaded page and takes its frame. -/

namespace DemandPaging

/-- The bytes that page `v` of `p` must have once it is loaded: the ones it has in `s`, or the ones
    of its first load. -/
def FullyLoaded (s : Sys) (p : Int) (v : VAddr) (page : Page) : Prop :=
  (∀ old, Has s p v old → page = old) ∧
  ((∀ old, ¬ Has s p v old) →
    ∃ as pc, s.procs p = some ⟨some as, pc⟩ ∧ FirstImage s.files as v page)

/-- The fault that ends between `s` and `s'` with the TLB write `t` installs a frame that belongs to
    its page and holds its contents. -/
def OwnsFrame (s s' : Sys) (t : TlbWrite) : Prop :=
  ∃ f, t.paddr = f * PAGE_SIZE ∧ s'.vm.cm.Maps t.pid t.vaddr f ∧
    FullyLoaded s t.pid t.vaddr (s'.vm.ram f)

/-- No page that is being loaded is being written to the swap file. -/
def LoadsKept (s : Sys) : Prop :=
  ∀ pid proc ev, s.procs pid = some proc → proc.pc.eviction = some ev →
    ¬ Busy s.procs ev.pid ev.vaddr

/-- Steps under all three conditions. -/
def GrantedStep (s : Sys) (a : Action) (s' : Sys) : Prop :=
  Step s a s' ∧ Calm s a ∧ Unraced s a ∧ Granted s a

variable {s s' : Sys} {q q' : List Nat} {w : Option TlbWrite} {a : Action}

/-! ## One action -/

/-- The invariant of runs under all three conditions. -/
def FlatInv (s : Sys) : Prop := ∃ q, s.Inv q ∧ Copied s ∧ MemInv s

theorem exec_moves_granted (h : s.Inv q) (hc : Calm s a) (hu : Unraced s a) (hg : Granted s a)
    (hexec : s.exec a = .ok (s', w)) : ∃ q', Moves False s q s' q' w := by
  obtain ⟨q', hm⟩ := exec_moves h hc hu hexec
  rw [eq_false (not_not.2 hg)] at hm
  exact ⟨q', hm⟩

theorem Moves.memInv (h : s.Inv q) (hc : Copied s) (hmem : MemInv s)
    (hm : Moves False s q s' q' w) : MemInv s' := by
  cases hm with
  | other h₁ => exact h₁.memInv h hmem
  | one h₁ => exact h₁.memInv h hc hmem
  | two s₁ q₁ h₁ h₂ _ _ _ => exact h₂.memInv (h₁.inv h) (h₁.copied h hc) (h₁.memInv h hc hmem)

/-- A fault that is not over has not touched the address space. -/
theorem FaultMove.as_eq {starved : Prop} {p : Int} {proc : Proc}
    (hm : FaultMove starved s q s' q' none) (hproc : s'.procs p = some proc) :
    ∃ pc, s.procs p = some ⟨proc.as, pc⟩ := by
  have hput : ∀ {vm : Vm} {pid : Int} {as : AddrSpace} {pc pc' : Pc},
      s.procs pid = some ⟨some as, pc⟩ → (s.put vm pid as pc').procs p = some proc →
      ∃ pc, s.procs p = some ⟨proc.as, pc⟩ := by
    intro vm pid as pc pc' hp hproc
    rcases update_cases hproc with ⟨rfl, rfl⟩ | ⟨-, hold⟩
    · exact ⟨pc, hp⟩
    · exact ⟨proc.pc, hold⟩
  cases hm with
  | evictBegin hp | grantFree hp | grantNone hp | evictEnd hp | loadSwap hp | loadElf hp
  | ioEvict hp | ioElf hp => exact hput hp hproc

theorem FaultMove.files_eq {starved : Prop} (hm : FaultMove starved s q s' q' w) :
    s'.files = s.files := by
  cases hm <;> rfl

/-- The last move of a fault. -/
theorem FaultMove.ownsFrame {t : TlbWrite} (h : s.Inv q) (hc : Copied s) (hmem : MemInv s)
    (hm : FaultMove False s q s' q' (some t)) : OwnsFrame s s' t := by
  obtain ⟨f, hpaddr, hf, hnb⟩ := hm.installs h hmem
  have hhas : Has s' t.pid t.vaddr (s'.vm.ram f) := has_of_maps hf hnb
  refine ⟨f, hpaddr, hf, ?_⟩
  rcases hm.memory h hc hmem with hsame | ⟨t', ht, hfirst⟩
  · have hold := (hsame _ _ _).1 hhas
    exact ⟨fun old hh => hold.unique h hh, fun hno => absurd hold (hno _)⟩
  · cases ht
    obtain ⟨as, pc, hp, himage⟩ := hfirst.image
    exact ⟨fun old hh => absurd hh (hfirst.fresh old), fun _ => ⟨as, pc, hp, himage f hf⟩⟩

theorem Moves.ownsFrame {t : TlbWrite} (h : s.Inv q) (hc : Copied s) (hmem : MemInv s)
    (hm : Moves False s q s' q' (some t)) : OwnsFrame s s' t := by
  cases hm with
  | one h₁ => exact h₁.ownsFrame h hc hmem
  | two s₁ q₁ h₁ h₂ _ _ _ =>
    obtain ⟨f, hpaddr, hf, hold, hfirst⟩ :=
      h₂.ownsFrame (h₁.inv h) (h₁.copied h hc) (h₁.memInv h hc hmem)
    -- the first of the two moves writes no TLB entry, so it changes no bytes
    have hsame : SameMemory s s₁ := by
      rcases h₁.memory h hc hmem with hsame | ⟨t', ht, -⟩
      · exact hsame
      · cases ht
    refine ⟨f, hpaddr, hf, fun old hh => hold old ((hsame _ _ _).2 hh), fun hno => ?_⟩
    obtain ⟨as, pc, hp, himage⟩ := hfirst fun old hh => hno old ((hsame _ _ _).1 hh)
    obtain ⟨pc₀, hp₀⟩ := h₁.as_eq hp
    exact ⟨as, pc₀, hp₀, h₁.files_eq ▸ himage⟩

/-! ## Runs -/

theorem Sys.Initial.flatInv (h : s.Initial) : FlatInv s := by
  have habsent : ∀ {p proc}, s.procs p ≠ some proc := by
    intro p proc hp
    rw [h.2.2] at hp
    cases hp
  refine ⟨[], h.inv, h.evictInv.2, ?_, ?_⟩
  · intro p as pc hp
    exact absurd hp habsent
  · intro p v _ hl
    obtain ⟨as, pc, hp, -⟩ := hl
    exact absurd hp habsent

theorem FlatInv.step (h : FlatInv s) (hs : GrantedStep s a s') : FlatInv s' := by
  obtain ⟨q, hinv, hcop, hmem⟩ := h
  obtain ⟨⟨w, hexec⟩, hc, hu, hg⟩ := hs
  obtain ⟨q', hm⟩ := exec_moves_granted hinv hc hu hg hexec
  exact ⟨q', hm.inv hinv, hm.copied hinv hcop, hm.memInv hinv hcop hmem⟩

theorem FlatInv.loadsKept (h : FlatInv s) : LoadsKept s := by
  obtain ⟨q, hinv, -⟩ := h
  exact hinv.not_busy

/-- If evictions are calm, stores do not race with them and every fault gets a frame, then every TLB
    write installs a frame that belongs to the page and holds its contents, and no page is evicted
    while it is being loaded. -/
theorem granted_fault_ownsFrame {s₀ : Sys} (h₀ : s₀.Initial) (hrun : Reaches GrantedStep s₀ s) :
    LoadsKept s ∧ ∀ a s' t, Calm s a → Unraced s a → Granted s a →
      s.exec a = .ok (s', some t) → OwnsFrame s s' t := by
  have hflat : FlatInv s := hrun.invariant (fun s a s' h hs => h.step hs) h₀.flatInv
  refine ⟨hflat.loadsKept, fun a s' t hc hu hg hexec => ?_⟩
  obtain ⟨q, hinv, hcop, hmem⟩ := hflat
  obtain ⟨q', hm⟩ := exec_moves_granted hinv hc hu hg hexec
  exact hm.ownsFrame hinv hcop hmem

/-! ## Runs on the small system -/

/-- Nothing is evicted, refused a frame, stored to or reaped. -/
def Sys.nextEasy (s : Sys) (a : Action) : Option Sys :=
  match a, s.faultPoint a with
  | .reap _, _ => none
  | .store _ _ _, _ => none
  | _, some (.evicting _ _) => none
  | _, some (.granted _ 0) => none
  | a, _ => s.next a

theorem nextEasy_granted (h : s.nextEasy a = some s') : GrantedStep s a s' := by
  unfold Sys.nextEasy at h
  split at h
  · cases h
  · cases h
  · cases h
  · cases h
  · next hreap hstore hevict hnone =>
    refine ⟨next_exec h, ⟨?_, ?_, ?_⟩, ?_, fun vm hvm => hnone vm hvm⟩
    · exact fun vm ev hev => absurd hev (hevict vm ev)
    · exact fun vm ev hev => absurd hev (hevict vm ev)
    · exact fun p hp => absurd hp (hreap p)
    · exact fun p addr b hs => absurd hs (hstore p addr b)

/-- While process 2 waits for a page of its executable, process 3 takes the other frame. -/
def firstRead : List Action :=
  [.newProc 2 smallLayout, .newProc 3 smallLayout, .fault 2 .VM_FAULT_READ 0x400000,
    .fault 3 .VM_FAULT_WRITE 0x7ffff000, .io 2]

/-- The action ends a fault. -/
def Sys.writesTlb (s : Sys) (a : Action) : Bool :=
  match s.exec a with
  | .ok (_, some _) => true
  | _ => false

theorem exec_of_writesTlb (h : s.writesTlb a = true) : ∃ s' t, s.exec a = .ok (s', some t) := by
  unfold Sys.writesTlb at h
  split at h
  · next s' t heq => exact ⟨s', t, heq⟩
  · cases h

theorem granted_fault_ownsFrame_small :
    ∃ s s' t, Reaches GrantedStep smallSys s ∧ s.vm.cm.Maps 3 0x7ffff000 31 ∧
      s.exec (.resume 2) = .ok (s', some t) ∧ LoadsKept s ∧ OwnsFrame s s' t := by
  have hstep : ∀ (s s' : Sys) a, a ∈ firstRead → s.nextEasy a = some s' → GrantedStep s a s' :=
    fun _ _ _ _ hn => nextEasy_granted hn
  obtain ⟨s, hreach, hcheck⟩ := exists_reaches_of_replay (s := smallSys) hstep
    (p := fun s => decide (s.vm.cm.Maps 3 0x7ffff000 31) && s.writesTlb (.resume 2))
    (by decide +kernel)
  simp only [Bool.and_eq_true, decide_eq_true_eq] at hcheck
  obtain ⟨s', t, hexec⟩ := exec_of_writesTlb hcheck.2
  obtain ⟨hkept, howns⟩ := granted_fault_ownsFrame smallSys_initial hreach
  refine ⟨s, s', t, hreach, hcheck.1, hexec, hkept, howns (.resume 2) s' t ?_ ?_ ?_ hexec⟩
  · exact calm_of_no_fault rfl fun p hp => by cases hp
  · exact unraced_of_not_store fun hs => by obtain ⟨p, addr, b, hs⟩ := hs; cases hs
  · exact fun vm hvm => by cases hvm

/-- While process 2 waits for its executable, process 3 takes the other frame and then evicts the
    page that process 2 is loading. -/
def evictHalfLoaded : List Action :=
  [.newProc 2 smallLayout, .newProc 3 smallLayout, .fault 2 .VM_FAULT_READ 0x400000,
    .fault 3 .VM_FAULT_WRITE 0x7ffff000, .fault 3 .VM_FAULT_WRITE 0x7fffe000]

/-- Then process 3 gets the frame, and only now the executable is read. -/
def readTooLate : List Action := evictHalfLoaded ++ [.io 3, .resume 3, .io 2]

/-- Process `pid` evicts a page that its owner is loading. -/
def Sys.evictsLoading (s : Sys) (pid : Int) : Bool :=
  match s.procs pid with
  | some ⟨_, .evicting _ ev _⟩ => match s.procs ev.pid with
    | some proc => match proc.pc.loading with
      | some (c, _) => c.fa == ev.vaddr
      | none => false
    | none => false
  | _ => false

theorem not_loadsKept {pid : Int} (h : s.evictsLoading pid = true) : ¬ LoadsKept s := by
  intro hkept
  unfold Sys.evictsLoading at h
  split at h
  · next as c ev b hp =>
    split at h
    · next proc hproc =>
      split at h
      · next c' r hl =>
        exact hkept pid _ ev hp rfl ⟨proc, hproc, c', r, hl, eq_of_beq h⟩
      · cases h
    · cases h
  · cases h

/-- The action writes a TLB entry for a frame that is not the page's. -/
def Sys.installsOther (s : Sys) (a : Action) : Bool :=
  match s.exec a with
  | .ok (s', some t) => !decide (s'.vm.cm.Maps t.pid t.vaddr (t.paddr / PAGE_SIZE))
  | _ => false

theorem not_ownsFrame (h : s.installsOther a = true) :
    ∃ s' t, s.exec a = .ok (s', some t) ∧ ¬ OwnsFrame s s' t := by
  unfold Sys.installsOther at h
  split at h
  · next s' t heq =>
    refine ⟨s', t, heq, ?_⟩
    intro howns
    obtain ⟨f, hpaddr, hf, -⟩ := howns
    rw [hpaddr, Nat.mul_div_cancel f (by decide)] at h
    simp [hf] at h
  · cases h

theorem half_loaded_page_evicted :
    ∃ s₀ s₁ s₂ s₃ t, s₀.Initial ∧ Reaches Step s₀ s₁ ∧ ¬ LoadsKept s₁ ∧ Reaches Step s₀ s₂ ∧
      s₂.exec (.resume 2) = .ok (s₃, some t) ∧ ¬ OwnsFrame s₂ s₃ t := by
  have hstep : ∀ (as : List Action) (s s' : Sys) a, a ∈ as → s.next a = some s' → Step s a s' :=
    fun _ _ _ _ _ hn => next_exec hn
  obtain ⟨s₁, h₁, hloading⟩ := exists_reaches_of_replay (s := smallSys) (hstep evictHalfLoaded)
    (p := fun s => s.evictsLoading 3) (by decide +kernel)
  obtain ⟨s₂, h₂, hother⟩ := exists_reaches_of_replay (s := smallSys) (hstep readTooLate)
    (p := fun s => s.installsOther (.resume 2)) (by decide +kernel)
  obtain ⟨s₃, t, hexec, hnot⟩ := not_ownsFrame hother
  exact ⟨smallSys, s₁, s₂, s₃, t, smallSys_initial, h₁, not_loadsKept hloading, h₂, hexec, hnot⟩

end DemandPaging
