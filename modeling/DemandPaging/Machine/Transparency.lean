import DemandPaging.Machine.Installs

set_option autoImplicit false

/-! # Demand paging is transparent

The machine with calls of `vm_fault` that run to completion: an action is a whole call, a store, or
one of the other events. A whole call is a sequence of the elementary moves, of which only the last
can give bytes to a page that had none. Hence a page that comes back has the bytes it had when it
was last resident, however often it, its frame and its slot changed hands in between. -/

namespace DemandPaging

/-! ## The sequential machine -/

namespace Sys

/-- A call of `vm_fault` by a process in user mode. -/
def seqFault (s : Sys) (pid : Int) (faulttype : FaultType) (faultaddress : VAddr) :
    Except Crash Sys :=
  match s.procs pid with
  | some ⟨as, .user⟩ =>
    match vmFault s.files s.vm pid as faulttype faultaddress with
    | .error e => .error e
    | .ok (vm, as, .exited) =>
      .ok { s with vm := vm, procs := Function.update s.procs pid (some ⟨as, .zombie⟩) }
    | .ok (vm, as, .returned _) =>
      .ok { s with vm := vm, procs := Function.update s.procs pid (some ⟨as, .user⟩) }
  | _ => .ok s

/-- Nobody sleeps here, so there is nothing to resume. -/
def seqExec (s : Sys) : Action → Except Crash Sys
  | .fault pid faulttype faultaddress => s.seqFault pid faulttype faultaddress
  | .io _ => .ok s
  | .resume _ => .ok s
  | a => (s.exec a).map (·.1)

end Sys

/-- One event of the sequential machine. The swap file is not full, or the step would crash, and
    `allocuserpage` does not return 0. -/
def SeqStep (s : Sys) (a : Action) (s' : Sys) : Prop := s.seqExec a = .ok s' ∧ Granted s a

variable {s s' : Sys} {q q' : List Nat} {a : Action} {pid : Int} {as as' : AddrSpace} {c : FaultCtx}

/-! ## A call as a sequence of moves -/

/-- No page becomes resident but page `v` of process `pid`. -/
def OnlyAdds (pid : Int) (v : VAddr) (s s' : Sys) : Prop :=
  ∀ p w g, s'.vm.cm.Maps p w g → s.vm.cm.Maps p w g ∨ (p = pid ∧ w = v)

/-- A move inside a call that is not its last. -/
def InnerMove (pid : Int) (v : VAddr) (x : Sys × List Nat) (_ : Unit) (y : Sys × List Nat) :
    Prop :=
  FaultMove False x.1 x.2 y.1 y.2 none ∧ OnlyAdds pid v x.1 y.1

/-- The moves of one call, the last of which writes the TLB entry. -/
def CallMoves (pid : Int) (v : VAddr) (s : Sys) (q : List Nat) (s' : Sys) (q' : List Nat) : Prop :=
  ∃ s₁ q₁ r, Reaches (InnerMove pid v) (s, q) (s₁, q₁) ∧
    FaultMove False s₁ q₁ s' q' (some ⟨pid, v, r⟩)

theorem CallMoves.head {s₁ : Sys} {q₁ : List Nat} {v : VAddr}
    (h : FaultMove False s q s₁ q₁ none) (hadds : OnlyAdds pid v s s₁)
    (hrest : CallMoves pid v s₁ q₁ s' q') : CallMoves pid v s q s' q' := by
  obtain ⟨s₂, q₂, r, hreach, hlast⟩ := hrest
  have hstep : InnerMove pid v (s, q) () (s₁, q₁) := ⟨h, hadds⟩
  exact ⟨s₂, q₂, r, .head hstep hreach, hlast⟩

theorem CallMoves.last {v : VAddr} {r : Nat} (h : FaultMove False s q s' q' (some ⟨pid, v, r⟩)) :
    CallMoves pid v s q s' q' := ⟨s, q, r, .refl, h⟩

theorem swapRead_moves {r slot : Nat} (hp : s.procs pid = some ⟨some as, .swapRead c r slot⟩) :
    CallMoves pid c.fa s q (s.put (faultEnd (swapoutpageEnd s.vm r slot) pid as c r) pid as .user) q :=
  .last (.swapEnd hp)

theorem elfCopied_moves {r vnode offset : Nat}
    (hp : s.procs pid = some ⟨some as, .elfRead c r vnode offset true⟩) :
    CallMoves pid c.fa s q (s.put (faultEnd (elfCounters s.vm) pid (as.setLoaded c) c r) pid
      (as.setLoaded c) .user) q :=
  .last (.elfEnd hp)

theorem elfRead_moves {r vnode offset : Nat}
    (hp : s.procs pid = some ⟨some as, .elfRead c r vnode offset false⟩) :
    CallMoves pid c.fa s q (s.put (faultEnd (elfCounters (readfromelfto s.vm (s.files vnode) r
      offset)) pid (as.setLoaded c) c r) pid (as.setLoaded c) .user) q := by
  have hrest := elfCopied_moves (q := q) (procs_put s
    (readfromelfto s.vm (s.files vnode) r offset) pid as (.elfRead c r vnode offset true))
  rw [put_put] at hrest
  exact .head (.ioElf hp) (fun _ _ _ => .inl) hrest

theorem loadPage_moves {r : Nat} {vm' : Vm} (h : s.Inv q)
    (hp : s.procs pid = some ⟨some as, .granted c r⟩)
    (hload : loadPage s.files s.vm pid as c r = .ok (vm', as')) :
    CallMoves pid c.fa s q (s.put vm' pid as' .user) q := by
  unfold loadPage at hload
  cases loadBegin_spec (h.binary hp) c r with
  | missing counter hflag hslot heq =>
    rw [heq] at hload
    cases hload
    exact .last (.loadMissing hp hflag hslot)
  | swap slot hflag hslot heq =>
    rw [heq] at hload
    cases hload
    have hrest := swapRead_moves (q := q) (procs_put s s.vm pid as (.swapRead c r slot))
    rw [put_put] at hrest
    exact .head (.loadSwap hp hflag hslot) (fun _ _ _ => .inl) hrest
  | elf vnode offset hflag hstack hsrc heq =>
    rw [heq] at hload
    cases hload
    have hrest := elfRead_moves (q := q)
      (procs_put s s.vm pid as (.elfRead c r vnode offset false))
    rw [put_put] at hrest
    exact .head (.loadElf hp hflag hstack hsrc) (fun _ _ _ => .inl) hrest
  | elfCrash e _ _ _ heq =>
    rw [heq] at hload
    cases hload
  | zero counter hflag hstack heq =>
    rw [heq] at hload
    cases hload
    exact .last (.loadZero hp hflag hstack)

/-- A call that has been granted a frame for its page loads it. -/
theorem granted_moves {vm vm' : Vm} {r i : Nat} {q₁ : List Nat} (h : s.Inv q)
    (h₁ : FaultMove False s q (s.put vm pid as (.granted c r)) q₁ none)
    (hown : vm.cm.own = Function.update s.vm.cm.own i (pid, c.fa, 1))
    (hs : SameShape s.vm.cm vm.cm) (hi : i < s.vm.cm.ptsize) (hpos : 0 < pid)
    (hload : loadPage s.files vm pid as c r = .ok (vm', as')) :
    CallMoves pid c.fa s q (s.put vm' pid as' .user) q₁ := by
  have hrest := loadPage_moves (h₁.inv h) (procs_put ..) hload
  rw [put_put] at hrest
  refine .head h₁ (fun p w g hm => ?_) hrest
  exact ((maps_update_user hown hs.ptsize hi hpos p w g).1 hm).imp And.right And.right

/-- The victim has been written out. -/
theorem evicted_moves {ev : Eviction} {vm₁ vm' : Vm} {r : Nat} (h : s.Inv q)
    (hp : s.procs pid = some ⟨some as, .evicting c ev true⟩)
    (hfin : allocuserpageFinish s.vm pid c.fa ev.ind = .ok (vm₁, r))
    (hload : loadPage s.files vm₁ pid as c r = .ok (vm', as')) :
    ∃ q', CallMoves pid c.fa s q (s.put vm' pid as' .user) q' := by
  obtain ⟨-, hfresh, hhead, hm, -, -⟩ := h.pc_ok pid as _ hp
  obtain ⟨q', rfl⟩ := List.head?_eq_some_iff.1 hhead
  obtain ⟨cm', heq, hinv, hown, hs⟩ := allocuserpageFinish_spec h.table (h.pid_pos hp) hfresh
  rw [hfin] at heq
  cases heq
  have hv : (s.vm.cm.pt ev.ind).vaddr = ev.vaddr := hm.2.2
  rw [hv] at hload
  exact ⟨_, granted_moves h (.evictEnd hp rfl hinv hown hs) hown hs hm.1.1 (h.pid_pos hp) hload⟩

theorem evicting_moves {ev : Eviction} {vm₁ vm' : Vm} {r : Nat} (h : s.Inv q)
    (hp : s.procs pid = some ⟨some as, .evicting c ev false⟩)
    (hfin : allocuserpageFinish (evictWrite s.vm ev) pid c.fa ev.ind = .ok (vm₁, r))
    (hload : loadPage s.files vm₁ pid as c r = .ok (vm', as')) :
    ∃ q', CallMoves pid c.fa s q (s.put vm' pid as' .user) q' := by
  have h₁ : FaultMove False s q (s.put (evictWrite s.vm ev) pid as (.evicting c ev true)) q none :=
    .ioEvict hp
  obtain ⟨q', hrest⟩ := evicted_moves (h₁.inv h) (procs_put ..) hfin hload
  rw [put_put] at hrest
  exact ⟨q', .head h₁ (fun _ _ _ => .inl) hrest⟩

/-- A whole call of `vm_fault` on a page, when nobody sleeps. -/
theorem faultPage_moves {vm' : Vm} (h : s.Inv q) (hq : s.Quiet)
    (hp : s.procs pid = some ⟨some as, .user⟩) (hloc : as.locate c.fa = some c)
    (hpage : pageOf c.fa = c.fa)
    (hgranted : ∀ vm, faultBegin s.vm pid c.fa ≠ .ok (.granted vm 0))
    (hfault : faultPage s.files s.vm pid as c = .ok (vm', as')) :
    ∃ q', CallMoves pid c.fa s q (s.put vm' pid as' .user) q' := by
  unfold faultPage at hfault
  cases faultBegin_spec h.table (h.pid_pos hp) with
  | hit f counter hm heq =>
    rw [heq] at hfault
    cases hfault
    exact ⟨q, .last (.hit hp hloc hpage hm)⟩
  | free i cm' counter hfresh hi heq hinv hown hs _ =>
    rw [heq] at hfault
    exact ⟨_, granted_moves h (.grantFree hp hloc hpage hfresh hi hinv hown hs) hown hs hi.1
      (h.pid_pos hp) hfault⟩
  | exhausted counter _ _ _ heq => exact absurd heq (hgranted _)
  | evict f q' p w sw slot counter hfresh _ hq' hm hclaim heq =>
    simp only [heq] at hfault
    split at hfault
    · cases hfault
    · next vm₁ r hfin =>
      have h₁ : FaultMove False s q (s.put { s.vm with swap := sw, counter := counter } pid as
          (.evicting c ⟨f, p, w, f * PAGE_SIZE, slot⟩ false)) q none :=
        .evictBegin hp hloc hpage hfresh (by rw [hq']; rfl) hm hclaim
          (fun p proc hp => Pc.eviction_of_awake (hq p proc hp)) hq.not_busy
      obtain ⟨q₁, hrest⟩ := evicting_moves (h₁.inv h) (procs_put ..) hfin hfault
      rw [put_put] at hrest
      exact ⟨q₁, .head h₁ (fun _ _ _ => .inl) hrest⟩
  | swapFull f q' p w _ _ _ _ _ heq =>
    rw [heq] at hfault
    cases hfault

/-! ## The bytes across one step -/

/-- Pages keep their bytes, except that some that had none are now in a frame. -/
def Brings (s s' : Sys) : Prop :=
  ∀ p v, (∀ page, Has s' p v page ↔ Has s p v page) ∨
    ((∀ page, ¬ Has s p v page) ∧ ∃ f, s'.vm.cm.Maps p v f)

theorem SameMemory.brings (h : SameMemory s s') : Brings s s' := fun p v => .inl (h p v)

/-- A page that had bytes keeps them. -/
theorem Brings.keeps {p : Int} {v : VAddr} {page : Page} (h : Brings s s') (hh : Has s p v page) :
    Has s' p v page := by
  rcases h p v with hsame | ⟨hno, -⟩
  · exact (hsame page).2 hh
  · exact absurd hh (hno page)

theorem FaultMove.brings {t : TlbWrite} (h : s.Inv q) (hc : Copied s) (hmem : MemInv s)
    (hm : FaultMove False s q s' q' (some t)) : Brings s s' := by
  rcases hm.memory h hc hmem with hsame | ⟨t', ht, hfirst⟩
  · exact hsame.brings
  · cases ht
    intro p v
    by_cases heq : p = t.pid ∧ v = t.vaddr
    · obtain ⟨rfl, rfl⟩ := heq
      obtain ⟨f, -, hf, -⟩ := hm.installs h hmem
      exact .inr ⟨hfirst.fresh, f, hf⟩
    · exact .inl (hfirst.others p v heq)

/-- The TLB entry that ends a call. -/
theorem FaultMove.writes {starved : Prop} {t : TlbWrite}
    (hm : FaultMove starved s q s' q' (some t)) : s'.vm.cm = s.vm.cm ∧
      ∃ priv counter, s'.vm.tlb =
        (s.vm.tlb.vmtlbWrite t.pid t.vaddr t.paddr priv counter).1 := by
  cases hm with
  | hit | loadMissing | loadZero | swapEnd | elfEnd => exact ⟨rfl, _, _, rfl⟩

/-- A call for page `v` of process `pid` makes at most this page resident, and ends with a
    `vmtlb_write` of the frame that the page table has for it. -/
def Installs (pid : Int) (v : VAddr) (s s' : Sys) : Prop :=
  OnlyAdds pid v s s' ∧ ∃ f, s'.vm.cm.Maps pid v f ∧ ∃ tlb priv counter,
    s'.vm.tlb = (Tlb.vmtlbWrite tlb pid v (f * PAGE_SIZE) priv counter).1

theorem CallMoves.flatInv {v : VAddr} (h : s.Inv q) (hc : Copied s) (hmem : MemInv s)
    (hm : CallMoves pid v s q s' q') : FlatInv s' ∧ Brings s s' ∧ Installs pid v s s' := by
  obtain ⟨s₁, q₁, r, hreach, hlast⟩ := hm
  -- up to the last move, no bytes change
  obtain ⟨h₁, hc₁, hmem₁, hsame, hadds⟩ := hreach.invariant
    (P := fun x => x.1.Inv x.2 ∧ Copied x.1 ∧ MemInv x.1 ∧ SameMemory s x.1 ∧ OnlyAdds pid v s x.1)
    (fun x _ y hx hxy => by
      obtain ⟨h, hc, hmem, hsame, hadds⟩ := hx
      obtain ⟨hmove, hnew⟩ := hxy
      refine ⟨hmove.inv h, hmove.copied h hc, hmove.memInv h hc hmem, fun p v page => ?_,
        fun p w g hg => (hnew p w g hg).elim (hadds p w g) .inr⟩
      rcases hmove.memory h hc hmem with hs | ⟨t, ht, -⟩
      · exact (hs p v page).trans (hsame p v page)
      · cases ht)
    ⟨h, hc, hmem, fun _ _ _ => Iff.rfl, fun _ _ _ => .inl⟩
  obtain ⟨hcm, priv, counter, htlb⟩ := hlast.writes
  obtain ⟨f, rfl, hf, -⟩ := hlast.installs h₁ hmem₁
  refine ⟨⟨q', hlast.inv h₁, hlast.copied h₁ hc₁, hlast.memInv h₁ hc₁ hmem₁⟩, fun p v => ?_,
    fun p w g hg => hadds p w g (hcm ▸ hg), f, hf, _, priv, counter, htlb⟩
  have hold : ∀ page, Has s₁ p v page ↔ Has s p v page := hsame p v
  rcases hlast.brings h₁ hc₁ hmem₁ p v with hs | ⟨hno, hf⟩
  · exact .inl fun page => (hs page).trans (hold page)
  · exact .inr ⟨fun page hh => hno page ((hold page).2 hh), hf⟩

/-- The invariant of the sequential machine. -/
def SeqInv (s : Sys) : Prop := FlatInv s ∧ s.Quiet

theorem Sys.Quiet.update {vm : Vm} {proc : Proc} (h : s.Quiet) (hpc : proc.pc.asleep = false) :
    ({ s with vm := vm, procs := Function.update s.procs pid (some proc) } : Sys).Quiet := by
  intro p proc' hp
  rcases update_cases hp with ⟨-, rfl⟩ | ⟨-, hold⟩
  · exact hpc
  · exact h p proc' hold

theorem faultPoint_page {t : FaultType} {addr : VAddr} (hp : s.procs pid = some ⟨some as, .user⟩)
    (hentry : faultEntry (some as) t addr = .ok (.page as c)) :
    s.faultPoint (.fault pid t addr) = (faultBegin s.vm pid c.fa).toOption := by
  simp only [Sys.faultPoint, hp, hentry]

/-- A whole call of `vm_fault`. -/
theorem seqFault_spec {t : FaultType} {addr : VAddr} (h : SeqInv s)
    (hg : Granted s (.fault pid t addr)) (hfault : s.seqFault pid t addr = .ok s') :
    SeqInv s' ∧ Brings s s' ∧ (s'.vm.cm = s.vm.cm ∨ ∃ v, Installs pid v s s') := by
  obtain ⟨⟨q, hinv, hcop, hmem⟩, hquiet⟩ := h
  have hstay : SeqInv s ∧ Brings s s ∧ (s.vm.cm = s.vm.cm ∨ ∃ v, Installs pid v s s) :=
    ⟨⟨⟨q, hinv, hcop, hmem⟩, hquiet⟩, fun p v => .inl fun _ => Iff.rfl, .inl rfl⟩
  unfold Sys.seqFault at hfault
  split at hfault
  · next as hp =>
    obtain ⟨-, as₀, rfl, -⟩ := hinv.live pid _ hp
    unfold vmFault at hfault
    cases hentry : faultEntry (some as₀) t addr with
    | error e =>
      rw [hentry] at hfault
      cases hfault
    | ok entry =>
      rw [hentry] at hfault
      cases entry with
      | exits =>
        cases hfault
        have hmove : OtherMove s q _ q := .exit hp
        exact ⟨⟨⟨q, hmove.inv hinv, hmove.copied hinv hcop, hmove.memInv hinv hmem⟩,
          hquiet.update rfl⟩, (sameMemory_exit hp).brings, .inl rfl⟩
      | returns e =>
        cases hfault
        rw [Function.update_eq_self_iff.2 hp.symm]
        exact hstay
      | page as₁ c =>
        obtain ⟨heq, hloc, hpage, -⟩ := faultEntry_page hentry
        cases heq
        have hgranted : ∀ vm, faultBegin s.vm pid c.fa ≠ .ok (.granted vm 0) := by
          intro vm hvm
          refine hg vm ?_
          rw [faultPoint_page hp hentry, hvm]
          rfl
        cases hpg : faultPage s.files s.vm pid as₀ c with
        | error e =>
          simp only [hpg] at hfault
          cases hfault
        | ok r =>
          simp only [hpg] at hfault
          cases hfault
          obtain ⟨q', hmoves⟩ := faultPage_moves hinv hquiet hp hloc hpage hgranted hpg
          obtain ⟨hflat, hbrings, hinst⟩ := hmoves.flatInv hinv hcop hmem
          exact ⟨⟨hflat, hquiet.update rfl⟩, hbrings, .inr ⟨c.fa, hinst⟩⟩
  · cases hfault
    exact hstay

/-- A page keeps its bytes, or it is in a frame, or its owner is gone. -/
def Tracks (s s' : Sys) : Prop :=
  ∀ p v, (∀ page, Has s' p v page ↔ Has s p v page) ∨ (∃ f, s'.vm.cm.Maps p v f) ∨
    s'.procs p = none

theorem Brings.tracks (h : Brings s s') : Tracks s s' := by
  intro p v
  rcases h p v with hsame | ⟨-, hf⟩
  · exact .inl hsame
  · exact .inr (.inl hf)

theorem OtherMove.quiet (h : s.Quiet) (hm : OtherMove s q s' q') : s'.Quiet := by
  cases hm with
  | stay => exact h
  | exit => exact h.update rfl
  | store => exact h
  | reap => exact fun p proc hp => h p proc (update_none_cases hp).2
  | newProc => exact h.update rfl
  | kernel => exact h

theorem OtherMove.tracks (h : s.Inv q) (hm : OtherMove s q s' q') : Tracks s s' := by
  intro p v
  rcases hm.memory h p v with hsame | ⟨f, hf, -⟩ | hgone
  · exact .inl hsame
  · exact .inr (.inl ⟨f, hf⟩)
  · exact .inr (.inr hgone)

/-- Outside faults the sequential machine is the machine. -/
theorem exec_of_seqExec (hout : a.inFault = false) (h : s.seqExec a = .ok s') :
    ∃ w, s.exec a = .ok (s', w) := by
  have heq : s.seqExec a = (s.exec a).map (·.1) := by cases a <;> first | rfl | cases hout
  rw [heq] at h
  cases hr : s.exec a with
  | error e => rw [hr] at h; cases h
  | ok r =>
    rw [hr] at h
    cases h
    exact ⟨r.2, rfl⟩

theorem SeqStep.inv (h : SeqInv s) (hstep : SeqStep s a s') : SeqInv s' ∧ Tracks s s' := by
  obtain ⟨hexec, hg⟩ := hstep
  have hstay : SeqInv s ∧ Tracks s s := ⟨h, fun p v => .inl fun _ => Iff.rfl⟩
  cases hin : a.inFault with
  | false =>
    obtain ⟨⟨q, hinv, hcop, hmem⟩, hquiet⟩ := h
    obtain ⟨w, hr⟩ := exec_of_seqExec hin hexec
    obtain ⟨-, q', hm⟩ := exec_otherMove hinv (hquiet.calm a) (hquiet.unraced a) hin hr
    exact ⟨⟨⟨q', hm.inv hinv, hm.copied hinv hcop, hm.memInv hinv hmem⟩, hm.quiet hquiet⟩,
      hm.tracks hinv⟩
  | true =>
    cases a with
    | fault pid t addr =>
      obtain ⟨hinv', hbrings, -⟩ := seqFault_spec h hg hexec
      exact ⟨hinv', hbrings.tracks⟩
    | io pid | resume pid =>
      cases hexec
      exact hstay
    | _ => cases hin

/-! ## Runs -/

theorem SeqInv.has_unique {p : Int} {v : VAddr} {page page' : Page} (h : SeqInv s)
    (h₁ : Has s p v page) (h₂ : Has s p v page') : page = page' := by
  obtain ⟨⟨q, hinv, -⟩, -⟩ := h
  exact h₁.unique hinv h₂

theorem SeqInv.has_frame {p : Int} {v : VAddr} {f : Nat} (h : SeqInv s)
    (hm : s.vm.cm.Maps p v f) : Has s p v (s.vm.ram f) :=
  has_of_maps hm h.2.not_busy

theorem SeqInv.live {p : Int} {v : VAddr} {page : Page} (h : SeqInv s) (hh : Has s p v page) :
    s.procs p ≠ none := by
  obtain ⟨⟨q, hinv, -⟩, -⟩ := h
  exact hh.live hinv

theorem Sys.Initial.seqInv (h : s.Initial) : SeqInv s := by
  refine ⟨h.flatInv, fun p proc hp => ?_⟩
  rw [h.2.2] at hp
  cases hp

/-- Transparency. In every run of the sequential machine, a fault that makes a page resident again
    after its first load installs the bytes that the page had when it was last resident: they are in
    the page's frame, and this frame is the one that `vmtlb_write` gets. -/
theorem vmFault_transparent {σ : Nat → Sys} {lab : Nat → Action} {n : Nat} (h₀ : (σ 0).Initial)
    (hrun : IsRun SeqStep σ lab n) {t : FaultType} {addr v : VAddr} {f : Nat} (hv : pageOf v = v)
    (hstep : SeqStep (σ n) (.fault pid t addr) s') (hloaded : Loaded (σ n).procs pid v)
    (hm : s'.vm.cm.Maps pid v f) :
    ∃ m, m ≤ n ∧ ∃ g, (σ m).vm.cm.Maps pid v g ∧ s'.vm.ram f = (σ m).vm.ram g ∧
      (∀ j, m < j → j ≤ n → ∀ g, ¬ (σ j).vm.cm.Maps pid v g) ∧
      ((∀ g, ¬ (σ n).vm.cm.Maps pid v g) → ∃ tlb priv counter,
        s'.vm.tlb = (Tlb.vmtlbWrite tlb pid v (f * PAGE_SIZE) priv counter).1) := by
  have hinv : ∀ i, i ≤ n → SeqInv (σ i) := fun i hi =>
    (hrun.reaches i hi).invariant (fun s a s' h hs => (SeqStep.inv h hs).1) h₀.seqInv
  obtain ⟨⟨q, -, -, hmem⟩, -⟩ := hinv n le_rfl
  obtain ⟨old, hold⟩ := hmem.backed pid v hv hloaded
  obtain ⟨hinv', hbrings, hcall⟩ := seqFault_spec (hinv n le_rfl) hstep.2 hstep.1
  have hnew : s'.vm.ram f = old := hinv'.has_unique (hinv'.has_frame hm) (hbrings.keeps hold)
  -- back to the last state in which the page was resident
  obtain ⟨m, hmn, ⟨g, hg⟩, hhas, hno⟩ := hrun.exists_last (Q := fun s => Has s pid v old)
    (R := fun s => ∃ g, s.vm.cm.Maps pid v g)
    (by
      intro i hi hs hnres hhas
      rcases (SeqStep.inv (hinv i (by omega)) hs).2 pid v with hsame | hres | hgone
      · exact (hsame old).1 hhas
      · exact absurd hres hnres
      · exact absurd hgone ((hinv (i + 1) (by omega)).live hhas))
    (fun hhas => absurd (h₀.2.2 pid) (h₀.seqInv.live hhas)) hold
  refine ⟨m, hmn, g, hg, ?_, fun j h1 h2 g hg => hno j h1 h2 ⟨g, hg⟩, fun hfresh => ?_⟩
  · rw [hnew]
    exact (hinv m hmn).has_unique hhas ((hinv m hmn).has_frame hg)
  · rcases hcall with hcm | ⟨w, hadds, f', hf', tlb, priv, counter, htlb⟩
    · exact absurd (hcm ▸ hm) (hfresh f)
    · obtain ⟨-, rfl⟩ := (hadds pid v f hm).resolve_left (hfresh f)
      obtain ⟨⟨q', hpaging, -⟩, -⟩ := hinv'
      obtain rfl := hpaging.table.rep.maps_unique hm hf'
      exact ⟨tlb, priv, counter, htlb⟩

/-! ## A run on the small system -/

def Sys.seqNext (s : Sys) (a : Action) : Option Sys :=
  match s.faultPoint a with
  | some (.granted _ 0) => none
  | _ => (s.seqExec a).toOption

theorem seqNext_step (h : s.seqNext a = some s') : SeqStep s a s' := by
  unfold Sys.seqNext at h
  split at h
  · cases h
  · next hnone => exact ⟨eq_ok_of_toOption h, fun vm hvm => hnone vm hvm⟩

/-- The load flag of page `v` is set. -/
def Sys.flagSet (s : Sys) (p : Int) (v : VAddr) : Bool :=
  match s.procs p with
  | some ⟨some as, _⟩ => match as.locate v with
    | some c => as.flag c == 1
    | none => false
  | _ => false

theorem loaded_of_flagSet {p : Int} {v : VAddr} (h : s.flagSet p v = true) :
    Loaded s.procs p v := by
  unfold Sys.flagSet at h
  split at h
  · next as pc hp =>
    split at h
    · next c hc => exact ⟨as, pc, hp, c, hc, eq_of_beq h⟩
    · cases h
  · cases h

/-- Process 2 stores to a page and then uses more pages than there are frames. -/
def swapOut : Nat → Action
  | 0 => .newProc 2 smallLayout
  | 1 => .fault 2 .VM_FAULT_WRITE 0x7ffff000
  | 2 => .store 2 0x7ffff000 7
  | 3 => .fault 2 .VM_FAULT_WRITE 0x7fffe000
  | 4 => .fault 2 .VM_FAULT_WRITE 0x7fffd000
  | _ => .fault 2 .VM_FAULT_READ 0x7ffff000

/-- The page is not resident after five steps, and the sixth one brings its bytes back. -/
theorem vmFault_transparent_small :
    ∃ s' f m g, IsRun SeqStep (trace Sys.seqNext swapOut smallSys) swapOut 5 ∧
      (∀ g < 32, ¬ (trace Sys.seqNext swapOut smallSys 5).vm.cm.Maps 2 0x7ffff000 g) ∧
      SeqStep (trace Sys.seqNext swapOut smallSys 5) (swapOut 5) s' ∧ m ≤ 5 ∧
      (trace Sys.seqNext swapOut smallSys m).vm.cm.Maps 2 0x7ffff000 g ∧
      s'.vm.cm.Maps 2 0x7ffff000 f ∧
      s'.vm.ram f = (trace Sys.seqNext swapOut smallSys m).vm.ram g ∧
      ∃ tlb priv counter,
        s'.vm.tlb = (Tlb.vmtlbWrite tlb 2 0x7ffff000 (f * PAGE_SIZE) priv counter).1 := by
  have hrun : IsRun SeqStep (trace Sys.seqNext swapOut smallSys) swapOut 5 :=
    isRun_trace (fun s l s' => seqNext_step) (by decide +kernel)
  have hlast : ((trace Sys.seqNext swapOut smallSys 5).seqNext (swapOut 5)).map
      (fun s => decide (s.vm.cm.Maps 2 0x7ffff000 31)) = some true := by decide +kernel
  cases hs : (trace Sys.seqNext swapOut smallSys 5).seqNext (swapOut 5) with
  | none => rw [hs] at hlast; cases hlast
  | some s' =>
    rw [hs] at hlast
    have hm : s'.vm.cm.Maps 2 0x7ffff000 31 := by simpa using hlast
    obtain ⟨m, hm5, g, hg, hbytes, -, htlb⟩ := vmFault_transparent smallSys_initial hrun
      (by decide) (seqNext_step hs) (loaded_of_flagSet (by decide +kernel)) hm
    have hout : ∀ g < 32, ¬ (trace Sys.seqNext swapOut smallSys 5).vm.cm.Maps 2 0x7ffff000 g := by
      decide +kernel
    have hsize : (trace Sys.seqNext swapOut smallSys 5).vm.cm.ptsize = 32 := by decide +kernel
    exact ⟨s', 31, m, g, hrun, hout, seqNext_step hs, hm5, hg, hm, hbytes,
      htlb fun g hg => hout g (hsize ▸ hg.1.1) hg⟩

end DemandPaging
