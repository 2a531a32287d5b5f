import DemandPaging.Machine.Quiet

set_option autoImplicit false

/-! # Evictions that sleep

`allocuserpage` gives up the page-table lock while the victim's bytes go to disk and reads
`firstvictim` again afterwards. This file proves when that is harmless: if evictions do not overlap
with each other or with a fault of the victim's owner, and the owner is not reaped meanwhile
(`Calm`), the page freed is the page written, and nothing is lost; with stores, if none hits the
page between the copy and the removal (`Unraced`). Two short runs show what happens otherwise. -/

namespace DemandPaging

/-! ## What an eviction has to guarantee -/

/-- The moment the evictor wakes up: the entry it is about to free is the page it wrote to its slot,
    and once freed the frame belongs to nobody. -/
def EvictionSafe (s : Sys) : Prop :=
  ∀ pid as c ev, s.procs pid = some ⟨as, .evicting c ev true⟩ →
    s.vm.cm.firstvictim = some ev.ind ∧
    (s.vm.cm.pt ev.ind).pid = ev.pid ∧ (s.vm.cm.pt ev.ind).vaddr = ev.vaddr ∧
    s.vm.swap.Holds ev.pid ev.vaddr ev.slot ∧ s.vm.swap.readSlot ev.slot = s.vm.ram ev.ind ∧
    ∃ cm', s.vm.cm.freeuser ev.pid ev.vaddr = .ok (cm', 0) ∧ cm'.FreeFrame ev.ind

/-- No page occupies two swap slots. -/
def SlotsUnique (s : Sys) : Prop :=
  ∀ p v k k', s.vm.swap.Holds p v k → s.vm.swap.Holds p v k' → k = k'

/-- A resident page stays resident, or its bytes are in a swap slot, or its owner is gone. -/
def PagesKept (s s' : Sys) : Prop :=
  ∀ p v f, s.vm.cm.Maps p v f → s'.procs p ≠ none →
    (∃ g, s'.vm.cm.Maps p v g) ∨
    ∃ k, s'.vm.swap.Holds p v k ∧ s'.vm.swap.readSlot k = s.vm.ram f

/-- The action is a store in user mode. -/
def Action.IsStore (a : Action) : Prop := ∃ p addr b, a = .store p addr b

/-- Faults, exits and reaping, without stores. -/
def StoreFreeStep (s : Sys) (a : Action) (s' : Sys) : Prop := Step s a s' ∧ ¬ a.IsStore

/-- The same, under the condition on evictions. -/
def CalmStep (s : Sys) (a : Action) (s' : Sys) : Prop :=
  Step s a s' ∧ ¬ a.IsStore ∧ Calm s a

/-- Faults and stores, under the conditions on evictions and on stores. -/
def UnracedStep (s : Sys) (a : Action) (s' : Sys) : Prop :=
  Step s a s' ∧ Calm s a ∧ Unraced s a

/-! ## The bytes of the page under eviction -/

/-- Once the victim is copied, slot and frame agree. -/
def Copied (s : Sys) : Prop :=
  ∀ pid as c ev, s.procs pid = some ⟨as, .evicting c ev true⟩ →
    s.vm.swap.readSlot ev.slot = s.vm.ram ev.ind

variable {starved : Prop} {s s' : Sys} {q q' : List Nat} {w : Option TlbWrite}

/-- The frame at the target of a load is no user frame but that of the page being loaded. -/
theorem Target.frame {cm : Coremap} {p : Int} {v : VAddr} {r g : Nat} (h : Target cm p v r)
    (ht : TableInv cm q) (hu : cm.IsUser g) (hg : g = r / PAGE_SIZE) : cm.Maps p v g := by
  rcases h with rfl | ⟨f, rfl, hm⟩
  · exact absurd hg (ht.user_ne_zero hu)
  · rw [Nat.mul_div_cancel f (by decide)] at hg
    exact hg ▸ hm

/-- A load writes to no page that is being evicted. -/
theorem PagingInv.victim_ne_target (h : s.Inv q) {pid pid' : Int} {proc proc' : Proc}
    {c : FaultCtx} {r : Nat} {ev : Eviction} (hp : s.procs pid = some proc)
    (hl : proc.pc.loading = some (c, r)) (ht : Target s.vm.cm pid c.fa r)
    (hp' : s.procs pid' = some proc') (he : proc'.pc.eviction = some ev) :
    ev.ind ≠ r / PAGE_SIZE := by
  intro heq
  obtain ⟨_, _, _, -, -, -, -, hm, -⟩ := h.eviction_ok hp' he
  have hm' := ht.frame h.table hm.1 heq
  have hpid : ev.pid = pid := hm.2.1.symm.trans hm'.2.1
  have hv : ev.vaddr = c.fa := hm.2.2.symm.trans hm'.2.2
  exact h.not_busy pid' proc' ev hp' he (hpid ▸ ⟨proc, hp, c, r, hl, hv.symm⟩)

/-- A step of one process keeps what the sleeping evictor of another one has copied. -/
theorem Copied.put (hc : Copied s) {vm' : Vm} {pid : Int} {as' : AddrSpace} {pc' : Pc}
    (hpc : pc'.eviction = none)
    (hkeep : ∀ pid' proc ev, s.procs pid' = some proc → proc.pc.eviction = some ev →
      vm'.ram ev.ind = s.vm.ram ev.ind ∧ vm'.swap.readSlot ev.slot = s.vm.swap.readSlot ev.slot) :
    Copied (s.put vm' pid as' pc') := by
  intro pid' as c ev hproc
  rcases update_cases hproc with ⟨-, heq⟩ | ⟨-, hold⟩
  · cases heq
    cases hpc
  · obtain ⟨hram, hslot⟩ := hkeep pid' _ ev hold rfl
    show vm'.swap.readSlot ev.slot = vm'.ram ev.ind
    rw [hram, hslot]
    exact hc pid' as c ev hold

/-- A load that writes its target keeps what evictions have copied. -/
theorem Copied.put_target (hc : Copied s) (h : s.Inv q) {vm' : Vm} {pid : Int} {proc : Proc}
    {as' : AddrSpace} {c : FaultCtx} {r : Nat} {page : Page} {pc' : Pc}
    (hp : s.procs pid = some proc) (hl : proc.pc.loading = some (c, r))
    (ht : Target s.vm.cm pid c.fa r)
    (hram : vm'.ram = Function.update s.vm.ram (r / PAGE_SIZE) page)
    (hfile : vm'.swap.swapfile = s.vm.swap.swapfile) (hpc : pc'.eviction = none) :
    Copied (s.put vm' pid as' pc') := by
  refine hc.put hpc fun pid' proc' ev hp' he => ⟨?_, ?_⟩
  · rw [hram, Function.update_of_ne (h.victim_ne_target hp hl ht hp' he)]
  · unfold Swapfile.readSlot
    rw [hfile]

theorem FaultMove.copied (h : s.Inv q) (hc : Copied s) (hm : FaultMove starved s q s' q' w) :
    Copied s' := by
  cases hm with
  | hit | grantFree | grantNone | evictEnd | loadMissing | loadSwap | loadElf | elfEnd =>
    exact hc.put rfl fun _ _ _ _ _ => ⟨rfl, rfl⟩
  | evictBegin _ _ _ _ _ _ _ halone _ =>
    intro pid' as c ev hproc
    rcases update_cases hproc with ⟨-, heq⟩ | ⟨-, hold⟩
    · cases heq
    · exact absurd (halone pid' _ hold) (by simp [Pc.eviction])
  | @loadZero pid as c r counter hp _ _ =>
    exact hc.put_target h hp rfl (h.pc_ok pid as _ hp).2 rfl rfl rfl
  | @ioEvict pid as c ev hp =>
    -- the only sleeping eviction copies its victim now
    obtain ⟨-, -, -, -, hread, -⟩ := h.pc_ok pid as _ hp
    intro pid' as' c' ev' hproc
    have hframe : ev.ind * PAGE_SIZE / PAGE_SIZE = ev.ind := Nat.mul_div_cancel _ (by decide)
    rcases update_cases hproc with ⟨-, heq⟩ | ⟨hne, hold⟩
    · cases heq
      show (s.vm.swap.writeSlot ev.slot (s.vm.frame ev.readfrom)).readSlot ev.slot = _
      rw [readSlot_writeSlot, if_pos rfl, hread, Vm.frame, hframe]
      rfl
    · exact absurd (h.evict_unique pid' pid _ _ hold hp (by simp [Pc.eviction])
        (by simp [Pc.eviction])) hne
  | @ioElf pid as c r vnode offset hp | @swapEnd pid as c r slot counter hp =>
    exact hc.put_target h hp rfl (h.pc_ok pid as _ hp).2.1 rfl rfl rfl

theorem OtherMove.copied (h : s.Inv q) (hc : Copied s) (hm : OtherMove s q s' q') : Copied s' := by
  cases hm with
  | stay => exact hc
  | exit hp =>
    intro pid' as c ev hproc
    rcases update_cases hproc with ⟨-, heq⟩ | ⟨-, hold⟩
    · cases heq
    · exact hc pid' as c ev hold
  | @store pid as v f page hp hm hrace =>
    intro pid' as' c ev hproc
    obtain ⟨_, _, _, -, -, -, -, hme, -⟩ := h.eviction_ok hproc rfl
    have hne : ev.ind ≠ f := by
      intro heq
      rw [heq] at hme
      exact hrace pid' as' c ev hproc
        ⟨hme.2.1.symm.trans hm.2.1, hme.2.2.symm.trans hm.2.2⟩
    show s.vm.swap.readSlot ev.slot = Function.update s.vm.ram f page ev.ind
    rw [Function.update_of_ne hne]
    exact hc pid' as' c ev hproc
  | @reap pid as cm' q' hp hkept ht hmaps hhead =>
    intro pid' as' c ev hproc
    exact hc pid' as' c ev (update_none_cases hproc).2
  | newProc hp hpos =>
    intro pid' as' c ev hproc
    rcases update_cases hproc with ⟨-, heq⟩ | ⟨-, hold⟩
    · cases heq
    · exact hc pid' as' c ev hold
  | @kernel cm' ram' ht hmaps hram =>
    intro pid' as' c ev hproc
    obtain ⟨_, _, _, -, -, -, -, hme, -⟩ := h.eviction_ok hproc rfl
    show s.vm.swap.readSlot ev.slot = ram' ev.ind
    rw [hram ev.ind hme.1]
    exact hc pid' as' c ev hproc

/-! ## Pages leave the table only through their slot -/

theorem FaultMove.pagesKept (h : s.Inv q) (hc : Copied s) (hm : FaultMove starved s q s' q' w) :
    PagesKept s s' := by
  intro p v f hres halive
  cases hm with
  | hit | evictBegin | grantNone | loadMissing | loadSwap | loadElf | loadZero | ioEvict | ioElf
  | swapEnd | elfEnd => exact .inl ⟨f, hres⟩
  | @grantFree pid as c i cm' counter hp _ _ _ hi _ hown hs =>
    refine .inl ⟨f,
      (maps_update_user hown hs.ptsize hi.1 (h.pid_pos hp) p v f).2 (.inl ⟨?_, hres⟩)⟩
    intro heq
    exact hi.2.1 (heq ▸ hres.1)
  | @evictEnd pid as c ev cm' q' counter hp _ _ hown hs =>
    obtain ⟨-, -, -, hm, -, hk⟩ := h.pc_ok pid as _ hp
    by_cases hf : f = ev.ind
    · rw [hf] at hres ⊢
      obtain ⟨rfl, rfl⟩ : p = ev.pid ∧ v = ev.vaddr :=
        ⟨hres.2.1.symm.trans hm.2.1, hres.2.2.symm.trans hm.2.2⟩
      exact .inr ⟨ev.slot, hk, hc pid _ c ev hp⟩
    · exact .inl ⟨f, (maps_update_user hown hs.ptsize hm.1.1 (h.pid_pos hp) p v f).2
        (.inl ⟨hf, hres⟩)⟩

theorem OtherMove.pagesKept (hm : OtherMove s q s' q') : PagesKept s s' := by
  intro p v f hres halive
  cases hm with
  | stay | exit | store | newProc => exact .inl ⟨f, hres⟩
  | @reap pid as cm' q' hp hkept ht hmaps hhead =>
    refine .inl ⟨f, (hmaps p v f).2 ⟨hres, ?_⟩⟩
    intro hpp
    exact halive (hpp ▸ Function.update_self ..)
  | kernel _ hmaps _ => exact .inl ⟨f, (hmaps p v f).2 hres⟩

theorem Moves.copied (h : s.Inv q) (hc : Copied s) (hm : Moves starved s q s' q' w) :
    Copied s' := by
  cases hm with
  | other h₁ => exact h₁.copied h hc
  | one h₁ => exact h₁.copied h hc
  | two s₁ q₁ h₁ h₂ _ _ _ => exact h₂.copied (h₁.inv h) (h₁.copied h hc)

theorem Moves.pagesKept (h : s.Inv q) (hc : Copied s) (hm : Moves starved s q s' q' w) :
    PagesKept s s' := by
  cases hm with
  | other h₁ => exact h₁.pagesKept
  | one h₁ => exact h₁.pagesKept h hc
  | two s₁ q₁ h₁ h₂ hcm hswap hprocs =>
    intro p v f hres halive
    rw [hcm, hswap]
    exact h₁.pagesKept h hc p v f hres (hprocs p halive)

/-! ## Runs -/

/-- The invariant of a run under both conditions. -/
def EvictInv (s : Sys) : Prop := (∃ q, s.Inv q) ∧ Copied s

theorem Sys.Initial.inv (h : s.Initial) : s.Inv [] := by
  obtain ⟨hboot, ⟨sw, hswap⟩, hnone⟩ := h
  have habsent : ∀ {p proc}, s.procs p ≠ some proc := by
    intro p proc hp
    rw [hnone] at hp
    cases hp
  have hempty : ∀ {p v k}, ¬ s.vm.swap.Holds p v k := by
    intro p v k hk
    rw [hswap] at hk
    exact swapinit_holds sw p v k hk
  have ht := hboot.tableInv
  refine ⟨ht, hswap ▸ swapinit_bounded sw, ?_, ?_, ?_, ?_, ?_, ?_, ?_, ?_⟩
  · intro p v k k' hk
    exact absurd hk hempty
  · intro p proc hp
    exact absurd hp habsent
  · intro p v f hm
    exact absurd ((ht.rep.mem_queue f).2 hm.1) (by simp)
  · intro p v k hk
    exact absurd hk hempty
  · intro p v f k _ hk
    exact absurd hk hempty
  · intro p as pc hp
    exact absurd hp habsent
  · intro pid proc ev hp
    exact absurd hp habsent
  · intro p p' proc proc' hp
    exact absurd hp habsent

theorem Sys.Initial.evictInv (h : s.Initial) : EvictInv s := by
  refine ⟨⟨[], h.inv⟩, ?_⟩
  intro pid as c ev hp
  rw [h.2.2] at hp
  cases hp

theorem unraced_of_not_store {a : Action} (h : ¬ a.IsStore) : Unraced s a :=
  fun p addr b ha => absurd ⟨p, addr, b, ha⟩ h

theorem EvictInv.step {a : Action} (h : EvictInv s) (hc : Calm s a) (hu : Unraced s a)
    (hstep : Step s a s') : EvictInv s' ∧ PagesKept s s' := by
  obtain ⟨⟨q, hinv⟩, hcop⟩ := h
  obtain ⟨w, hexec⟩ := hstep
  obtain ⟨q', hm⟩ := exec_moves hinv hc hu hexec
  exact ⟨⟨⟨q', hm.inv hinv⟩, hm.copied hinv hcop⟩, hm.pagesKept hinv hcop⟩

theorem EvictInv.evictionSafe (h : EvictInv s) : EvictionSafe s := by
  obtain ⟨⟨q, hinv⟩, hcop⟩ := h
  intro pid as c ev hp
  obtain ⟨_, _, _, -, -, -, hhead, hm, -, hk⟩ := hinv.eviction_ok hp rfl
  obtain ⟨cm', hfree, -, -, -, hff⟩ := hinv.table.evict hm
  exact ⟨hinv.table.rep.firstvictim_eq.trans hhead, hm.2.1, hm.2.2, hk, hcop pid as c ev hp, cm',
    hfree, hff⟩

theorem EvictInv.slotsUnique (h : EvictInv s) : SlotsUnique s := by
  obtain ⟨⟨q, hinv⟩, -⟩ := h
  exact hinv.slot_unique

/-- Without stores, calm evictions survive every interleaving: the page freed is the page written,
    no page occupies two slots, and no page leaves the table without its bytes in a slot. -/
theorem calm_eviction_survives {s₀ : Sys} (h₀ : s₀.Initial) (hrun : Reaches CalmStep s₀ s) :
    EvictionSafe s ∧ SlotsUnique s ∧ ∀ a s', CalmStep s a s' → PagesKept s s' := by
  have hinv : EvictInv s := by
    refine hrun.invariant (fun s a s' h hs => ?_) h₀.evictInv
    exact (h.step hs.2.2 (unraced_of_not_store hs.2.1) hs.1).1
  refine ⟨hinv.evictionSafe, hinv.slotsUnique, fun a s' hs => ?_⟩
  exact (hinv.step hs.2.2 (unraced_of_not_store hs.2.1) hs.1).2

/-- With stores that do not race with the copy, the slot of a page that leaves the table holds the
    bytes of its frame at that moment. -/
theorem unraced_store_kept {s₀ : Sys} {a : Action} (h₀ : s₀.Initial)
    (hrun : Reaches UnracedStep s₀ s) (hstep : UnracedStep s a s') : PagesKept s s' := by
  have hinv : EvictInv s := by
    refine hrun.invariant (fun s a s' h hs => ?_) h₀.evictInv
    exact (h.step hs.2.1 hs.2.2 hs.1).1
  exact (hinv.step hstep.2.1 hstep.2.2 hstep.1).2

/-! ## Runs on the small system -/

/-- Process `pid` is about to free another entry than the one it wrote out. -/
def Sys.freesOther (s : Sys) (pid : Int) : Bool :=
  match s.procs pid with
  | some ⟨_, .evicting _ ev true⟩ => s.vm.cm.firstvictim != some ev.ind
  | _ => false

theorem not_evictionSafe {pid : Int} (h : s.freesOther pid = true) : ¬ EvictionSafe s := by
  intro hsafe
  unfold Sys.freesOther at h
  split at h
  · next as c ev hp =>
    rw [(hsafe pid as c ev hp).1] at h
    simp at h
  · cases h

/-- The action takes page `v` of `p` out of frame `f` and no slot has its first byte. -/
def Sys.losesPage (s : Sys) (a : Action) (p : Int) (v : VAddr) (f : Nat) : Bool :=
  match s.next a with
  | some s' =>
    decide (s.vm.cm.Maps p v f) && (s'.procs p).isSome &&
    (List.range s'.vm.cm.ptsize).all (fun g => !decide (s'.vm.cm.Maps p v g)) &&
    (List.range SWAPPAGES).all (fun k => !decide (s'.vm.swap.Holds p v k) ||
      s'.vm.swap.readSlot k ⟨0, PAGE_SIZE_pos⟩ != s.vm.ram f ⟨0, PAGE_SIZE_pos⟩)
  | none => false

theorem not_pagesKept {a : Action} {p : Int} {v : VAddr} {f : Nat}
    (h : s.losesPage a p v f = true) : ∃ s', Step s a s' ∧ ¬ PagesKept s s' := by
  unfold Sys.losesPage at h
  split at h
  · next s' hn =>
    simp only [Bool.and_eq_true, decide_eq_true_eq, List.all_eq_true, List.mem_range,
      Bool.not_eq_eq_eq_not, Bool.not_true, decide_eq_false_iff_not, Bool.or_eq_true,
      bne_iff_ne] at h
    obtain ⟨⟨⟨hm, halive⟩, hgone⟩, hslots⟩ := h
    refine ⟨s', next_exec hn, fun hkept => ?_⟩
    rcases hkept p v f hm (Option.isSome_iff_ne_none.1 halive) with ⟨g, hg⟩ | ⟨k, hk, hread⟩
    · exact hgone g hg.1.1 hg
    · rcases hslots k hk.1 with hno | hne
      · exact hno hk
      · exact hne (congrFun hread _)
  · cases h

/-- Two processes evict the same page: both claim a slot for it, and the second one to wake up
    frees the page behind it, which nobody has written out. -/
def overlappingEvictions : List Action :=
  fillFrames ++ [.fault 3 .VM_FAULT_WRITE 0x7ffff000, .fault 4 .VM_FAULT_WRITE 0x7ffff000,
    .io 3, .resume 3, .io 4]

theorem overlapping_evictions_lose_page :
    ∃ s₀ s, s₀.Initial ∧ Reaches StoreFreeStep s₀ s ∧ ¬ EvictionSafe s ∧ ¬ SlotsUnique s ∧
      ∃ a s', StoreFreeStep s a s' ∧ ¬ PagesKept s s' := by
  have hstep : ∀ (s s' : Sys) a, a ∈ overlappingEvictions → s.next a = some s' →
      StoreFreeStep s a s' := by
    intro s s' a ha hn
    refine ⟨next_exec hn, ?_⟩
    rintro ⟨p, addr, b, rfl⟩
    simp [overlappingEvictions, fillFrames] at ha
  obtain ⟨s, hreach, hcheck⟩ := exists_reaches_of_replay (s := smallSys) hstep
    (p := fun s => s.freesOther 4 && decide (s.vm.swap.Holds 2 0x7ffff000 0) &&
      decide (s.vm.swap.Holds 2 0x7ffff000 1) && s.losesPage (.resume 4) 2 0x7fffe000 31)
    (by decide +kernel)
  simp only [Bool.and_eq_true, decide_eq_true_eq] at hcheck
  obtain ⟨⟨⟨hother, hk0⟩, hk1⟩, hlost⟩ := hcheck
  obtain ⟨s', hs', hnot⟩ := not_pagesKept hlost
  refine ⟨smallSys, s, smallSys_initial, hreach, not_evictionSafe hother, ?_, .resume 4, s',
    ⟨hs', ?_⟩, hnot⟩
  · intro hunique
    exact absurd (hunique _ _ _ _ hk0 hk1) (by decide)
  · rintro ⟨p, addr, b, h⟩
    cases h

/-- A store that falls between the copy and the removal. -/
def racingStore : List Action :=
  fillFrames ++ [.fault 3 .VM_FAULT_WRITE 0x7ffff000, .io 3, .store 2 0x7ffff000 7]

theorem racing_store_lost :
    ∃ s₀ s, s₀.Initial ∧ Reaches Step s₀ s ∧ ∃ s', Step s (.resume 3) s' ∧ ¬ PagesKept s s' := by
  have hstep : ∀ (s s' : Sys) a, a ∈ racingStore → s.next a = some s' → Step s a s' :=
    fun _ _ _ _ hn => next_exec hn
  obtain ⟨s, hreach, hlost⟩ := exists_reaches_of_replay (s := smallSys) hstep
    (p := fun s => s.losesPage (.resume 3) 2 0x7ffff000 30) (by decide +kernel)
  obtain ⟨s', hs', hnot⟩ := not_pagesKept hlost
  exact ⟨smallSys, s, smallSys_initial, hreach, s', hs', hnot⟩

theorem calm_of_no_fault {a : Action} (h : s.faultPoint a = none) (hr : ∀ p, a ≠ .reap p) :
    Calm s a where
  alone _ _ hev := by rw [h] at hev; cases hev
  loaded _ _ hev := by rw [h] at hev; cases hev
  kept p ha := absurd ha (hr p)

/-- An eviction that starts in a quiet state, up to its copy. -/
theorem quiet_evict {t t₁ t₂ : Sys} {pid : Int} {faulttype : FaultType} {addr : VAddr}
    (hq : t.Quiet) (h₁ : t.next (.fault pid faulttype addr) = some t₁)
    (h₂ : t₁.next (.io pid) = some t₂) :
    CalmStep t (.fault pid faulttype addr) t₁ ∧ CalmStep t₁ (.io pid) t₂ := by
  refine ⟨⟨next_exec h₁, ?_, hq.calm _⟩, ⟨next_exec h₂, ?_, calm_of_no_fault rfl ?_⟩⟩
  · rintro ⟨p, addr, b, h⟩
    cases h
  · rintro ⟨p, addr, b, h⟩
    cases h
  · rintro p ⟨⟩

theorem CalmStep.unraced {a : Action} (h : CalmStep s a s') : UnracedStep s a s' :=
  ⟨h.1, h.2.2, unraced_of_not_store h.2.1⟩

/-- The process has copied its victim, whose first byte is `b`, and is about to wake up. -/
def Sys.copiedVictim (s : Sys) (pid : Int) (b : UInt8) : Bool :=
  match s.procs pid with
  | some ⟨_, .evicting _ ev true⟩ => s.vm.ram ev.ind ⟨0, PAGE_SIZE_pos⟩ == b
  | _ => false

/-- Process 3 can evict such a page. -/
def Sys.evicts (b : UInt8) (s : Sys) : Bool :=
  match s.next (.fault 3 .VM_FAULT_WRITE 0x7ffff000) with
  | some s₁ => match s₁.next (.io 3) with
    | some s₂ => s₂.copiedVictim 3 b && (s₂.next (.resume 3)).isSome
    | none => false
  | none => false

/-- Behind a run in which nobody goes to sleep, process 3 evicts a page up to the copy. -/
theorem small_eviction {R : Sys → Action → Sys → Prop} {b : UInt8} {acts : List Action}
    (hstep : ∀ (s s' : Sys) a, s.Quiet → a ∈ acts → Step s a s' → R s a s')
    (hevicts : (replay Sys.nextAwake smallSys acts).map (Sys.evicts b) = some true) :
    ∃ t t₁ t₂, Reaches R smallSys t ∧
      CalmStep t (.fault 3 .VM_FAULT_WRITE 0x7ffff000) t₁ ∧ CalmStep t₁ (.io 3) t₂ ∧
      t₂.copiedVictim 3 b = true ∧ ∃ t₃, t₂.next (.resume 3) = some t₃ := by
  have hquiet : ∀ (s s' : Sys) a, s.Quiet → a ∈ acts → s.nextAwake a = some s' →
      R s a s' ∧ s'.Quiet := by
    intro s s' a hq ha hn
    obtain ⟨hs, hq'⟩ := hq.nextAwake hn
    exact ⟨hstep s s' a hq ha hs, hq'⟩
  obtain ⟨t, hreach, hq, hcheck⟩ := reaches_of_replay hquiet smallSys_quiet hevicts
  unfold Sys.evicts at hcheck
  split at hcheck
  · next t₁ h₁ =>
    split at hcheck
    · next t₂ h₂ =>
      simp only [Bool.and_eq_true] at hcheck
      obtain ⟨hs₁, hs₂⟩ := quiet_evict hq h₁ h₂
      exact ⟨t, t₁, t₂, hreach, hs₁, hs₂, hcheck.1, Option.isSome_iff_exists.1 hcheck.2⟩
    · cases hcheck
  · cases hcheck

theorem calm_eviction_survives_small :
    ∃ s, Reaches CalmStep smallSys s ∧ s.copiedVictim 3 0 = true ∧ EvictionSafe s ∧
      SlotsUnique s := by
  have hstep : ∀ (s s' : Sys) a, s.Quiet → a ∈ fillFrames → Step s a s' → CalmStep s a s' := by
    refine fun s s' a hq ha hs => ⟨hs, ?_, hq.calm a⟩
    rintro ⟨p, addr, b, rfl⟩
    simp [fillFrames] at ha
  obtain ⟨t, t₁, t₂, hreach, hs₁, hs₂, hcop, -⟩ := small_eviction (b := 0) hstep (by decide +kernel)
  have hrun : Reaches CalmStep smallSys t₂ := .tail (.tail hreach hs₁) hs₂
  obtain ⟨hsafe, hunique, -⟩ := calm_eviction_survives smallSys_initial hrun
  exact ⟨t₂, hrun, hcop, hsafe, hunique⟩

/-- The page written out is one that its owner has stored to. -/
theorem unraced_store_kept_small :
    ∃ s s', Reaches UnracedStep smallSys s ∧ s.copiedVictim 3 7 = true ∧
      UnracedStep s (.resume 3) s' ∧ PagesKept s s' := by
  have hstep : ∀ (s s' : Sys) a, s.Quiet → a ∈ fillFrames ++ [.store 2 0x7ffff000 7] →
      Step s a s' → UnracedStep s a s' :=
    fun s s' a hq _ hs => ⟨hs, hq.calm a, hq.unraced a⟩
  obtain ⟨t, t₁, t₂, hreach, hs₁, hs₂, hcop, t₃, h₃⟩ :=
    small_eviction (b := 7) hstep (by decide +kernel)
  have hrun : Reaches UnracedStep smallSys t₂ := .tail (.tail hreach hs₁.unraced) hs₂.unraced
  have hs₃ : UnracedStep t₂ (.resume 3) t₃ := by
    refine ⟨next_exec h₃, calm_of_no_fault rfl ?_, unraced_of_not_store ?_⟩
    · rintro p ⟨⟩
    · rintro ⟨p, addr, b, h⟩
      cases h
  exact ⟨t₂, t₃, hrun, hcop, hs₃, unraced_store_kept smallSys_initial hrun hs₃⟩

end DemandPaging
