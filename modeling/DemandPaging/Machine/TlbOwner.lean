import DemandPaging.Machine.Transparency
import DemandPaging.Tlb.Entries

set_option autoImplicit false

/-! # Whose entries are in the TLB

Entries carry no address-space identifier; what they mean rests on `lastpid`. The invariant
`TlbInv` says that they belong to the process `lastpid` names, as long as there is one, and that a
page being loaded has no entry yet. It holds at the level of the elementary moves: an eviction takes
a page out of the table and its entry out of the TLB, whoever evicts, and a TLB write needs the
process that writes to be the one the TLB serves (`Active`). What that takes from the CPU is the
subject of `DemandPaging.Cpu.Coherence`. -/

namespace DemandPaging

/-! ## Layouts -/

/-- Marking pages as loaded keeps the segments and their permissions. -/
theorem writable_setLoaded (as : AddrSpace) (c : FaultCtx) (seg : SegId) :
    (as.setLoaded c).writable seg = as.writable seg := by
  obtain ⟨o1, o2, ost⟩ := as
  obtain ⟨fa, cseg, ind⟩ := c
  cases cseg with
  | seg1 => cases o1 <;> cases seg <;> rfl
  | seg2 => cases o2 <;> cases seg <;> rfl
  | segstack => cases ost <;> cases seg <;> rfl

/-- The same segments with the same permissions. -/
def SameLayout (as as' : AddrSpace) : Prop :=
  (∀ v, as'.locate v = as.locate v) ∧ ∀ seg, as'.writable seg = as.writable seg

theorem SameLayout.refl (as : AddrSpace) : SameLayout as as := ⟨fun _ => rfl, fun _ => rfl⟩

theorem SameLayout.trans {as as' as'' : AddrSpace} (h : SameLayout as as')
    (h' : SameLayout as' as'') : SameLayout as as'' :=
  ⟨fun v => (h'.1 v).trans (h.1 v), fun seg => (h'.2 seg).trans (h.2 seg)⟩

theorem sameLayout_setLoaded (as : AddrSpace) (c : FaultCtx) : SameLayout as (as.setLoaded c) :=
  ⟨fun v => locate_setLoaded c v, writable_setLoaded as c⟩

/-! ## The invariant -/

/-- The entry maps a page of `p` to its frame, writable where the segment is. -/
structure EntryOk (cm : Coremap) (as : AddrSpace) (p : Int) (e : TlbEntry) : Prop where
  maps : cm.Maps p e.page e.frame
  rights : ∃ c, as.locate e.page = some c ∧ e.dirty = as.writable c.seg

/-- The entries belong to the process `lastpid`, if there still is one. -/
structure TlbInv (s : Sys) : Prop where
  ok : s.vm.tlb.Ok
  owned : ∀ as pc, s.procs s.vm.tlb.lastpid = some ⟨some as, pc⟩ → ∀ i, s.vm.tlb.Live i →
    EntryOk s.vm.cm as s.vm.tlb.lastpid (s.vm.tlb.entry i)
  loading : ∀ proc c r, s.procs s.vm.tlb.lastpid = some proc → proc.pc.loading = some (c, r) →
    ∀ i, s.vm.tlb.Live i → (s.vm.tlb.entry i).page ≠ c.fa

/-- The TLB serves `p`: its entries are those of `p`, or there are none. -/
def Active (s : Sys) (p : Int) : Prop := s.vm.tlb.lastpid = p ∨ ∀ i, ¬ s.vm.tlb.Live i

variable {s s' : Sys} {q q' : List Nat} {w : Option TlbWrite} {pid p : Int} {as as' : AddrSpace}
  {pc pc' : Pc} {c : FaultCtx} {a : Action}

theorem EntryOk.mono {cm cm' : Coremap} {e : TlbEntry} (h : EntryOk cm as p e)
    (hlay : SameLayout as as') (hmaps : cm'.Maps p e.page e.frame) : EntryOk cm' as' p e where
  maps := hmaps
  rights := by
    obtain ⟨c, hloc, hw⟩ := h.rights
    exact ⟨c, by rw [hlay.1]; exact hloc, by rw [hlay.2]; exact hw⟩

/-- A change that leaves the TLB alone: the owner keeps its pages and its layout, and loads no page
    that has an entry. -/
theorem TlbInv.congr (ht : TlbInv s) (htlb : s'.vm.tlb = s.vm.tlb)
    (hproc : ∀ as' pc', s'.procs s.vm.tlb.lastpid = some ⟨some as', pc'⟩ →
      ∃ as pc, s.procs s.vm.tlb.lastpid = some ⟨some as, pc⟩ ∧ SameLayout as as')
    (hmaps : ∀ v f, s'.procs s.vm.tlb.lastpid ≠ none → s.vm.cm.Maps s.vm.tlb.lastpid v f →
      s'.vm.cm.Maps s.vm.tlb.lastpid v f)
    (hload : ∀ proc c r, s'.procs s.vm.tlb.lastpid = some proc → proc.pc.loading = some (c, r) →
      ∀ i, s.vm.tlb.Live i → (s.vm.tlb.entry i).page ≠ c.fa) : TlbInv s' := by
  refine ⟨htlb ▸ ht.ok, ?_, ?_⟩
  · rw [htlb]
    intro as' pc' hp' i hi
    obtain ⟨as, pc, hp, hlay⟩ := hproc as' pc' hp'
    have hentry := ht.owned as pc hp i hi
    refine hentry.mono hlay (hmaps _ _ ?_ hentry.maps)
    rw [hp']
    exact Option.some_ne_none _
  · rw [htlb]
    exact hload

/-- A process moves on without a change to the TLB. -/
theorem TlbInv.put {vm' : Vm} (ht : TlbInv s) (hp : s.procs pid = some ⟨some as, pc⟩)
    (htlb : vm'.tlb = s.vm.tlb)
    (hmaps : ∀ p v f, s.vm.cm.Maps p v f → vm'.cm.Maps p v f)
    (hload : ∀ c r, pc'.loading = some (c, r) → s.vm.tlb.lastpid = pid →
      ∀ i, s.vm.tlb.Live i → (s.vm.tlb.entry i).page ≠ c.fa) :
    TlbInv (s.put vm' pid as pc') := by
  refine ht.congr htlb (fun as' pc₁ hp' => ?_) (fun v f _ hm => hmaps _ v f hm) ?_
  · rcases update_cases hp' with ⟨heq, hnew⟩ | ⟨-, hold⟩
    · cases hnew
      exact ⟨as, pc, heq ▸ hp, .refl as⟩
    · exact ⟨as', pc₁, hold, .refl as'⟩
  · intro proc c r hp' hl
    rcases update_cases hp' with ⟨heq, rfl⟩ | ⟨-, hold⟩
    · exact hload c r hl heq
    · exact ht.loading proc c r hold hl

/-- The TLB write at the end of a fault. -/
theorem TlbInv.write {vm' : Vm} {f : Nat} (h : s.Inv q) (ht : TlbInv s)
    (hp : s.procs pid = some ⟨some as, pc⟩) (hcm : vm'.cm = s.vm.cm) (htlb : vm'.tlb = s.vm.tlb)
    (hm : s.vm.cm.Maps pid c.fa f) (hloc : as.locate c.fa = some c) (hlay : SameLayout as as')
    (hpage : pageOf c.fa = c.fa) (huser : c.fa < USERSPACETOP) (hact : Active s pid)
    (hmiss : ∀ i, s.vm.tlb.Live i → (s.vm.tlb.entry i).page ≠ c.fa) :
    TlbInv (s.put (faultEnd vm' pid as' c (f * PAGE_SIZE)) pid as' .user) := by
  have hfa : c.fa &&& TLBHI_VPAGE = c.fa := hpage
  have hf : f < 2 ^ 20 := lt_of_lt_of_le hm.1.1 h.table.ptsize_le
  obtain ⟨hok, hlast, hlive⟩ := ht.ok.write pid (f * PAGE_SIZE) (as'.writable c.seg) vm'.counter
    (hfa.symm ▸ hmiss) (hfa.symm ▸ huser)
  have hentry : ∀ i, (s.vm.tlb.vmtlbWrite pid c.fa (f * PAGE_SIZE) (as'.writable c.seg)
      vm'.counter).1.Live i → EntryOk vm'.cm as' pid ((s.vm.tlb.vmtlbWrite pid c.fa (f * PAGE_SIZE)
        (as'.writable c.seg) vm'.counter).1.entry i) := by
    intro i hi
    rcases hlive i hi with ⟨hold, heq⟩ | heq
    · rw [heq]
      rcases hact with hlp | hnone
      · have hold := ht.owned as pc (hlp ▸ hp) i hold
        rw [hlp] at hold
        exact hold.mono hlay (hcm ▸ hold.maps)
      · exact absurd hold (hnone i)
    · rw [heq, hfa]
      refine ⟨?_, c, ?_, ?_⟩
      · rw [TlbEntry.page, hfa, frame_entryLo _ hf, hcm]
        exact hm
      · rw [TlbEntry.page, hfa, hlay.1]
        exact hloc
      · rw [dirty_entryLo]
  rw [← htlb] at hok hlast hentry
  have hlast' : (s.put (faultEnd vm' pid as' c (f * PAGE_SIZE)) pid as' .user).vm.tlb.lastpid =
      pid := hlast
  refine ⟨hok, fun as₁ pc₁ hp₁ i hi => ?_, fun proc c₁ r hp₁ hl => ?_⟩
  · rw [hlast', procs_put] at hp₁
    cases hp₁
    rw [hlast']
    exact hentry i hi
  · rw [hlast', procs_put] at hp₁
    cases hp₁
    cases hl

theorem TlbEntry.page_mask (e : TlbEntry) : e.page &&& TLBHI_VPAGE = e.page := by
  rw [TlbEntry.page, UInt32.and_assoc, UInt32.and_self]

/-- No page that is not resident has an entry of its owner. -/
theorem TlbInv.no_entry (ht : TlbInv s) (hp : s.procs pid = some ⟨some as, pc⟩)
    (hfresh : ∀ g, ¬ s.vm.cm.Maps pid c.fa g) (hlast : s.vm.tlb.lastpid = pid) (i : Nat)
    (hi : s.vm.tlb.Live i) : (s.vm.tlb.entry i).page ≠ c.fa := by
  intro heq
  have hm := (ht.owned as pc (hlast ▸ hp) i hi).maps
  rw [heq, hlast] at hm
  exact hfresh _ hm

/-- The end of an eviction takes the victim's entry along, whoever it belongs to. -/
theorem TlbInv.evictEnd {ev : Eviction} {cm' : Coremap} {counter : Counters} {r : Nat} (h : s.Inv q)
    (ht : TlbInv s) (hp : s.procs pid = some ⟨some as, .evicting c ev true⟩)
    (hown : cm'.own = Function.update s.vm.cm.own ev.ind (pid, c.fa, 1))
    (hs : SameShape s.vm.cm cm') :
    TlbInv (s.put { s.vm with
        cm := cm'
        tlb := s.vm.tlb.vmtlbInvalidatepage ev.vaddr
        counter := counter } pid as (.granted c r)) := by
  obtain ⟨-, hfresh, -, hm, -, -⟩ := h.pc_ok pid as _ hp
  obtain ⟨hok, hlast, hlive⟩ := Tlb.vmtlbInvalidatepage_spec ht.ok ev.vaddr
  have hlast' : (s.put { s.vm with
      cm := cm'
      tlb := s.vm.tlb.vmtlbInvalidatepage ev.vaddr
      counter := counter } pid as (.granted c r)).vm.tlb.lastpid = s.vm.tlb.lastpid := hlast
  refine ⟨hok, fun as₁ pc₁ hp₁ i hi => ?_, fun proc c₁ r₁ hp₁ hl i hi => ?_⟩
  · rw [hlast'] at hp₁ ⊢
    obtain ⟨hold, heq, hne⟩ := hlive i hi
    obtain ⟨pc₀, hp₀⟩ : ∃ pc₀, s.procs s.vm.tlb.lastpid = some ⟨some as₁, pc₀⟩ := by
      rcases update_cases hp₁ with ⟨hpp, hnew⟩ | ⟨-, hold⟩
      · cases hnew
        exact ⟨_, hpp ▸ hp⟩
      · exact ⟨pc₁, hold⟩
    have hentry := ht.owned as₁ pc₀ hp₀ i hold
    show EntryOk cm' as₁ _ ((s.vm.tlb.vmtlbInvalidatepage ev.vaddr).entry i)
    rw [heq]
    refine hentry.mono (.refl as₁) ?_
    refine (maps_update_user hown hs.ptsize hm.1.1 (h.pid_pos hp) _ _ _).2 (.inl ⟨?_, hentry.maps⟩)
    -- an entry for the victim's frame would be the victim's entry, which is gone
    intro hframe
    have hmi := hentry.maps
    rw [hframe] at hmi
    have hv : (s.vm.tlb.entry i).page = ev.vaddr := hmi.2.2.symm.trans hm.2.2
    exact hne (by rw [← hv, TlbEntry.page_mask])
  · rw [hlast'] at hp₁
    obtain ⟨hold, heq, -⟩ := hlive i hi
    show ((s.vm.tlb.vmtlbInvalidatepage ev.vaddr).entry i).page ≠ c₁.fa
    rw [heq]
    rcases update_cases hp₁ with ⟨hpp, rfl⟩ | ⟨-, hold'⟩
    · cases hl
      exact ht.no_entry hp hfresh hpp i hold
    · exact ht.loading proc c₁ r₁ hold' hl i hold

/-- What a TLB write needs: the TLB serves its process, the page is a user page, and if the process
    came straight from user mode, there was no entry for it. -/
structure WriteOk (s : Sys) (t : TlbWrite) : Prop where
  active : Active s t.pid
  user : t.vaddr < USERSPACETOP
  miss : ∀ as, s.procs t.pid = some ⟨as, .user⟩ →
    ∀ i, s.vm.tlb.Live i → (s.vm.tlb.entry i).page ≠ t.vaddr

/-- A process at the end of a load has no entry for the page. -/
theorem TlbInv.miss_of_loading {r : Nat} (ht : TlbInv s) (hp : s.procs pid = some ⟨some as, pc⟩)
    (hl : pc.loading = some (c, r)) (hact : Active s pid) (i : Nat) (hi : s.vm.tlb.Live i) :
    (s.vm.tlb.entry i).page ≠ c.fa := by
  rcases hact with hlast | hnone
  · exact ht.loading _ c r (hlast ▸ hp) hl i hi
  · exact absurd hi (hnone i)

theorem FaultMove.tlbInv (h : s.Inv q) (hmem : MemInv s) (ht : TlbInv s)
    (hm : FaultMove False s q s' q' w) (hw : ∀ t, w = some t → WriteOk s t) : TlbInv s' := by
  cases hm with
  | hit hp hloc hpage hm =>
    obtain ⟨hact, huser, hmiss⟩ := hw _ rfl
    exact ht.write h hp rfl rfl hm hloc (.refl _) hpage huser hact (hmiss _ hp)
  | evictBegin hp | ioEvict hp => exact ht.put hp rfl (fun _ _ _ hm => hm) fun c r hl => by cases hl
  | @grantFree pid as c i cm' counter hp _ _ hfresh hi _ hown hs =>
    refine ht.put hp rfl (fun p v f hm => ?_) fun c₁ r hl hlast => ?_
    · refine (maps_update_user hown hs.ptsize hi.1 (h.pid_pos hp) p v f).2 (.inl ⟨?_, hm⟩)
      intro hfi
      exact hi.2.1 (hfi ▸ hm.1)
    · cases hl
      exact ht.no_entry hp hfresh hlast
  | grantNone _ _ _ _ hnone => exact absurd hnone id
  | evictEnd hp _ _ hown hs => exact ht.evictEnd h hp hown hs
  | loadMissing hp hflag hslot =>
    obtain ⟨k, hk⟩ := hmem.slot_of_flag h hp hflag
    exact absurd hk (findSlot_none hslot k)
  | loadSwap hp _ _ | loadElf hp _ _ _ | ioElf hp =>
    refine ht.put hp rfl (fun _ _ _ hm => hm) fun c₁ r₁ hl hlast => ?_
    cases hl
    exact ht.loading _ _ _ (hlast ▸ hp) rfl
  | @loadZero pid as c r counter hp _ _ =>
    obtain ⟨hact, huser, -⟩ := hw _ rfl
    obtain ⟨hloc, htarget⟩ := h.pc_ok pid as _ hp
    obtain ⟨hpage, hr⟩ := hmem.loads pid as _ hp
    obtain ⟨f, rfl, hf⟩ := htarget.resolve_left hr
    exact ht.write h hp rfl rfl hf hloc (sameLayout_setLoaded as c) hpage huser hact
      (ht.miss_of_loading hp rfl hact)
  | @swapEnd pid as c r slot counter hp =>
    obtain ⟨hact, huser, -⟩ := hw _ rfl
    obtain ⟨hloc, htarget, -⟩ := h.pc_ok pid as _ hp
    obtain ⟨hpage, hr⟩ := hmem.loads pid as _ hp
    obtain ⟨f, rfl, hf⟩ := htarget.resolve_left hr
    exact ht.write h hp rfl rfl hf hloc (.refl as) hpage huser hact
      (ht.miss_of_loading hp rfl hact)
  | @elfEnd pid as c r vnode offset counter hp =>
    obtain ⟨hact, huser, -⟩ := hw _ rfl
    obtain ⟨hloc, htarget, -⟩ := h.pc_ok pid as _ hp
    obtain ⟨hpage, hr, -⟩ := hmem.loads pid as _ hp
    obtain ⟨f, rfl, hf⟩ := htarget.resolve_left hr
    exact ht.write h hp rfl rfl hf hloc (sameLayout_setLoaded as c) hpage huser hact
      (ht.miss_of_loading hp rfl hact)

/-! ## One action of the paging system -/

/-- A move inside a fault keeps `lastpid`, adds no entry and sends nobody to user mode. -/
theorem FaultMove.inner {starved : Prop} (ht : s.vm.tlb.Ok)
    (hm : FaultMove starved s q s' q' none) :
    s'.vm.tlb.lastpid = s.vm.tlb.lastpid ∧
    (∀ i, s'.vm.tlb.Live i → s.vm.tlb.Live i ∧ s'.vm.tlb.entry i = s.vm.tlb.entry i) ∧
    ∀ p as, s'.procs p = some ⟨as, .user⟩ → s.procs p = some ⟨as, .user⟩ := by
  have huser : ∀ {vm : Vm} {pid : Int} {as : AddrSpace} {pc : Pc}, pc ≠ .user →
      ∀ p as₁, (s.put vm pid as pc).procs p = some ⟨as₁, .user⟩ →
        s.procs p = some ⟨as₁, .user⟩ := by
    intro vm pid as pc hne p as₁ hp
    rcases update_cases hp with ⟨-, heq⟩ | ⟨-, hold⟩
    · cases heq
      exact absurd rfl hne
    · exact hold
  cases hm with
  | evictBegin | grantFree | grantNone | loadSwap | loadElf | ioEvict | ioElf =>
    exact ⟨rfl, fun i hi => ⟨hi, rfl⟩, huser (by simp)⟩
  | @evictEnd pid as c ev cm' q' counter _ _ _ _ _ =>
    obtain ⟨-, hlast, hlive⟩ := Tlb.vmtlbInvalidatepage_spec ht ev.vaddr
    exact ⟨hlast, fun i hi => ⟨(hlive i hi).1, (hlive i hi).2.1⟩, huser (by simp)⟩

theorem FaultMove.active {starved : Prop} (ht : s.vm.tlb.Ok)
    (hm : FaultMove starved s q s' q' none) (h : Active s p) : Active s' p := by
  obtain ⟨hlast, hlive, -⟩ := hm.inner ht
  rcases h with hp | hnone
  · exact .inl (hlast.trans hp)
  · exact .inr fun i hi => hnone i (hlive i hi).1

/-- The end of a fault makes its process the one the TLB serves. -/
theorem FaultMove.lastpid {starved : Prop} {t : TlbWrite} (ht : s.vm.tlb.Ok)
    (hm : FaultMove starved s q s' q' (some t)) : s'.vm.tlb.lastpid = t.pid := by
  have hwrite : ∀ {vm : Vm} {pid : Int} {as : AddrSpace} {c : FaultCtx} {r : Nat},
      vm.tlb = s.vm.tlb → (faultEnd vm pid as c r).tlb.lastpid = pid := by
    intro vm pid as c r htlb
    have hreuse := ht.reuse
    rw [← htlb] at hreuse
    obtain ⟨k, -, -, hlast, -⟩ :=
      Tlb.vmtlbWrite_spec hreuse pid c.fa r (as.writable c.seg) vm.counter
    exact hlast
  cases hm with
  | hit | loadMissing | loadZero | swapEnd | elfEnd => exact hwrite rfl

theorem OtherMove.tlbInv (ht : TlbInv s) (hm : OtherMove s q s' q')
    (hnew : ∀ p, s.procs p = none → s'.procs p ≠ none → p ≠ s.vm.tlb.lastpid) : TlbInv s' := by
  cases hm with
  | stay => exact ht
  | @exit pid as hp =>
    have hdead : TlbInv (s.put s.vm pid as .zombie) :=
      ht.put hp rfl (fun _ _ _ hm => hm) fun c r hl => by cases hl
    exact hdead
  | store =>
    exact ht.congr rfl (fun as pc hp => ⟨as, pc, hp, .refl as⟩) (fun _ _ _ hm => hm) ht.loading
  | @reap pid as cm' q' hp _ _ hmaps _ =>
    refine ht.congr rfl (fun as₁ pc₁ hp₁ => ⟨as₁, pc₁, (update_none_cases hp₁).2, .refl as₁⟩)
      (fun v f halive hm => (hmaps _ v f).2 ⟨hm, ?_⟩)
      fun proc c r hp₁ => ht.loading proc c r (update_none_cases hp₁).2
    intro hpp
    exact halive (hpp ▸ Function.update_self ..)
  | @newProc pid layout hp hpos =>
    have hold : ∀ {proc}, Function.update s.procs pid (some ⟨some layout.unloaded, .user⟩)
        s.vm.tlb.lastpid = some proc → s.procs s.vm.tlb.lastpid = some proc := by
      intro proc hp₁
      rcases update_cases hp₁ with ⟨hpp, -⟩ | ⟨-, hold⟩
      · refine absurd hpp.symm (hnew pid hp ?_)
        simp
      · exact hold
    exact ht.congr rfl (fun as pc hp₁ => ⟨as, pc, hold hp₁, .refl as⟩) (fun _ _ _ hm => hm)
      fun proc c r hp₁ => ht.loading proc c r (hold hp₁)
  | kernel _ hmaps _ =>
    exact ht.congr rfl (fun as pc hp => ⟨as, pc, hp, .refl as⟩)
      (fun v f _ hm => (hmaps _ v f).2 hm) ht.loading

theorem OtherMove.tlb_eq (hm : OtherMove s q s' q') : s'.vm.tlb = s.vm.tlb := by
  cases hm <;> rfl

theorem Moves.tlbInv (h : s.Inv q) (hc : Copied s) (hmem : MemInv s) (ht : TlbInv s)
    (hm : Moves False s q s' q' w) (hw : ∀ t, w = some t → WriteOk s t)
    (hnew : ∀ p, s.procs p = none → s'.procs p ≠ none → p ≠ s.vm.tlb.lastpid) : TlbInv s' := by
  cases hm with
  | other h₁ => exact h₁.tlbInv ht hnew
  | one h₁ => exact h₁.tlbInv h hmem ht hw
  | two s₁ q₁ h₁ h₂ _ _ _ =>
    have ht₁ := h₁.tlbInv h hmem ht fun t heq => by cases heq
    refine h₂.tlbInv (h₁.inv h) (h₁.memInv h hc hmem) ht₁ fun t heq => ?_
    obtain ⟨hact, huser, hmiss⟩ := hw t heq
    obtain ⟨-, hlive, hback⟩ := h₁.inner ht.ok
    refine ⟨h₁.active ht.ok hact, huser, fun as hp i hi => ?_⟩
    obtain ⟨hold, hentry⟩ := hlive i hi
    rw [hentry]
    exact hmiss as (hback _ as hp) i hold

/-- After an action the TLB serves the process it served before, or the one that wrote an entry. -/
theorem Moves.active (h : s.Inv q) (hmem : MemInv s) (ht : TlbInv s)
    (hm : Moves False s q s' q' w) :
    (w = none → s'.vm.tlb.lastpid = s.vm.tlb.lastpid ∧ ∀ p, Active s p → Active s' p) ∧
      ∀ t, w = some t → s'.vm.tlb.lastpid = t.pid := by
  cases hm with
  | other h₁ =>
    refine ⟨fun _ => ⟨by rw [h₁.tlb_eq], fun p hp => ?_⟩, fun t ht => by cases ht⟩
    unfold Active
    rw [h₁.tlb_eq]
    exact hp
  | one h₁ =>
    refine ⟨?_, ?_⟩
    · rintro rfl
      exact ⟨(h₁.inner ht.ok).1, fun p hp => h₁.active ht.ok hp⟩
    · rintro t rfl
      exact h₁.lastpid ht.ok
  | two s₁ q₁ h₁ h₂ _ _ _ =>
    have ht₁ := h₁.tlbInv h hmem ht fun t heq => by cases heq
    refine ⟨?_, ?_⟩
    · rintro rfl
      exact ⟨(h₂.inner ht₁.ok).1.trans (h₁.inner ht.ok).1,
        fun p hp => h₂.active ht₁.ok (h₁.active ht.ok hp)⟩
    · rintro t rfl
      exact h₂.lastpid ht₁.ok

/-! ## Faults are about user pages -/

theorem pageOf_lt {addr : VAddr} (h : addr < USERSPACETOP) : pageOf addr < USERSPACETOP := by
  rw [UInt32.lt_iff_toNat_lt] at h ⊢
  rw [pageOf, UInt32.toNat_and]
  exact lt_of_le_of_lt Nat.and_le_left h

/-- Everybody inside `vm_fault` is there for a user page. -/
def UserFaults (s : Sys) : Prop :=
  ∀ p proc c, s.procs p = some proc → proc.pc.ctx = some c → c.fa < USERSPACETOP

/-- After a part of `vm_fault`, the process is still at page `v` or has written its entry. -/
def AtPage (s' : Sys) (pid : Int) (v : VAddr) (w : Option TlbWrite) : Prop :=
  (∀ proc c, s'.procs pid = some proc → proc.pc.ctx = some c → c.fa = v) ∧
    ∀ t, w = some t → t.pid = pid ∧ t.vaddr = v

theorem FaultOutcome.atPage {t : Tlb} (h : FaultOutcome s t pid c s' w) : AtPage s' pid c.fa w := by
  cases h with
  | ends =>
    refine ⟨fun proc c' hp hc' => ?_, fun t ht => by cases ht; exact ⟨rfl, rfl⟩⟩
    rw [procs_put] at hp
    cases hp
    cases hc'
  | sleeps _ hctx =>
    refine ⟨fun proc c' hp hc' => ?_, fun t ht => by cases ht⟩
    rw [procs_put] at hp
    cases hp
    rw [hctx] at hc'
    cases hc'
    rfl

theorem execExit_ctx {proc : Proc} (hp : (s.execExit pid).procs p = some proc)
    (hc : proc.pc.ctx = some c) : s.procs p = some proc := by
  unfold Sys.execExit at hp
  split at hp
  · rcases update_cases hp with ⟨-, rfl⟩ | ⟨-, hold⟩
    · cases hc
    · exact hold
  · exact hp

theorem execNewProc_ctx {layout : AddrSpace} {proc : Proc}
    (hp : (s.execNewProc pid layout).procs p = some proc) (hc : proc.pc.ctx = some c) :
    s.procs p = some proc := by
  unfold Sys.execNewProc at hp
  split at hp
  · rcases update_cases hp with ⟨-, rfl⟩ | ⟨-, hold⟩
    · cases hc
    · exact hold
  · exact hp

theorem execIo_ctx {proc : Proc} (hp : (s.execIo pid).procs p = some proc)
    (hc : proc.pc.ctx = some c) :
    ∃ proc₀, s.procs p = some proc₀ ∧ proc₀.pc.ctx = some c := by
  unfold Sys.execIo at hp
  split at hp
  · next as c₀ ev hold =>
    rcases update_cases hp with ⟨rfl, rfl⟩ | ⟨-, hold⟩
    · exact ⟨_, hold, hc⟩
    · exact ⟨proc, hold, hc⟩
  · next as c₀ r vnode offset hold =>
    rcases update_cases hp with ⟨rfl, rfl⟩ | ⟨-, hold⟩
    · exact ⟨_, hold, hc⟩
    · exact ⟨proc, hold, hc⟩
  · exact ⟨proc, hp, hc⟩

/-- Whoever is inside `vm_fault` after an action was there before for the same page, or the action
    is its fault. -/
theorem exec_ctx {proc : Proc} (hexec : s.exec a = .ok (s', w)) (hp : s'.procs p = some proc)
    (hc : proc.pc.ctx = some c) :
    (∃ proc₀ c₀, s.procs p = some proc₀ ∧ proc₀.pc.ctx = some c₀ ∧ c₀.fa = c.fa) ∨
      ∃ as ty addr, s.procs p = some ⟨as, .user⟩ ∧ a = .fault p ty addr ∧
        ty ≠ .VM_FAULT_READONLY ∧ c.fa = pageOf addr := by
  by_cases hact : a.actor = some p
  · cases a with
    | fault pid ty addr =>
      cases hact
      rcases exec_fault_outcome hexec with ⟨-, rfl | rfl⟩ | ⟨as, c₀, hold, hty, hfa, hout⟩
      · exact .inl ⟨proc, c, hp, hc, rfl⟩
      · exact .inl ⟨proc, c, execExit_ctx hp hc, hc, rfl⟩
      · exact .inr ⟨as, ty, addr, hold, rfl, hty, (hout.atPage.1 proc c hp hc).trans hfa⟩
    | io pid =>
      cases hexec
      obtain ⟨proc₀, hp₀, hc₀⟩ := execIo_ctx hp hc
      exact .inl ⟨proc₀, c, hp₀, hc₀, rfl⟩
    | resume pid =>
      cases hact
      rcases execResume_outcome hexec with ⟨rfl, -⟩ | ⟨proc₀, c₀, hp₀, hc₀, hout⟩
      · exact .inl ⟨proc, c, hp, hc, rfl⟩
      · exact .inl ⟨proc₀, c₀, hp₀, hc₀, (hout.atPage.1 proc c hp hc).symm⟩
    | store pid addr b =>
      cases hexec
      have hprocs : (s.execStore pid addr b).procs = s.procs := by
        unfold Sys.execStore
        split
        · split <;> rfl
        · rfl
      exact .inl ⟨proc, c, hprocs ▸ hp, hc, rfl⟩
    | exit pid =>
      cases hexec
      exact .inl ⟨proc, c, execExit_ctx hp hc, hc, rfl⟩
    | reap pid =>
      refine .inl ⟨proc, c, ?_, hc, rfl⟩
      simp only [Sys.exec, Sys.execReap] at hexec
      split at hexec
      · split at hexec
        · cases hexec
        · cases hexec
          exact (update_none_cases hp).2
      · cases hexec
        exact hp
    | newProc pid layout =>
      cases hexec
      exact .inl ⟨proc, c, execNewProc_ctx hp hc, hc, rfl⟩
    | _ => cases hact
  · rw [exec_onlyMoves hexec p hact] at hp
    exact .inl ⟨proc, c, hp, hc, rfl⟩

/-- A TLB write is made by a fault in user mode for the page of its address, or by a process that
    wakes up for the page it is at. -/
theorem exec_write {t : TlbWrite} (hexec : s.exec a = .ok (s', some t)) :
    (∃ as ty addr, s.procs t.pid = some ⟨as, .user⟩ ∧ a = .fault t.pid ty addr ∧
      ty ≠ .VM_FAULT_READONLY ∧ t.vaddr = pageOf addr) ∨
    ∃ proc c, s.procs t.pid = some proc ∧ a = .resume t.pid ∧ proc.pc.ctx = some c ∧
      t.vaddr = c.fa := by
  cases a with
  | fault pid ty addr =>
    rcases exec_fault_outcome hexec with ⟨hw, -⟩ | ⟨as, c, hp, hty, hfa, hout⟩
    · cases hw
    · obtain ⟨rfl, hva⟩ := hout.atPage.2 t rfl
      exact .inl ⟨as, ty, addr, hp, rfl, hty, hva.trans hfa⟩
  | resume pid =>
    rcases execResume_outcome hexec with ⟨-, hw, -⟩ | ⟨proc, c, hp, hctx, hout⟩
    · cases hw
    · obtain ⟨rfl, hva⟩ := hout.atPage.2 t rfl
      exact .inr ⟨proc, c, hp, rfl, hctx, hva⟩
  | reap pid =>
    simp only [Sys.exec] at hexec
    cases hr : s.execReap pid with
    | error e => rw [hr] at hexec; cases hexec
    | ok r => rw [hr] at hexec; cases hexec
  | kfree i =>
    simp only [Sys.exec] at hexec
    cases hr : s.execKfree i with
    | error e => rw [hr] at hexec; cases hexec
    | ok r => rw [hr] at hexec; cases hexec
  | kalloc n =>
    simp only [Sys.exec] at hexec
    split at hexec <;> cases hexec
  | _ => cases hexec

/-- Faults are only ever about pages with a property that the pages of new faults have. -/
theorem exec_faultsAt {P : VAddr → Prop}
    (h : ∀ p proc c, s.procs p = some proc → proc.pc.ctx = some c → P c.fa)
    (hfault : ∀ p t addr, a = .fault p t addr → P (pageOf addr))
    (hexec : s.exec a = .ok (s', w)) {proc : Proc} (hp : s'.procs p = some proc)
    (hc : proc.pc.ctx = some c) : P c.fa := by
  rcases exec_ctx hexec hp hc with ⟨proc₀, c₀, hp₀, hc₀, heq⟩ | ⟨as, ty, addr, -, rfl, -, heq⟩
  · exact heq ▸ h p proc₀ c₀ hp₀ hc₀
  · exact heq ▸ hfault p ty addr rfl

theorem exec_userFaults (h : UserFaults s)
    (hfault : ∀ p t addr, a = .fault p t addr → addr < USERSPACETOP)
    (hexec : s.exec a = .ok (s', w)) : UserFaults s' :=
  fun _ _ _ hp hc => exec_faultsAt (P := (· < USERSPACETOP)) h
    (fun p t addr heq => pageOf_lt (hfault p t addr heq)) hexec hp hc

/-- So are the TLB writes. -/
theorem exec_writesAt {P : VAddr → Prop} {t : TlbWrite}
    (h : ∀ p proc c, s.procs p = some proc → proc.pc.ctx = some c → P c.fa)
    (hfault : ∀ p t addr, a = .fault p t addr → P (pageOf addr))
    (hexec : s.exec a = .ok (s', some t)) : P t.vaddr := by
  rcases exec_write hexec with ⟨as, ty, addr, -, rfl, -, heq⟩ | ⟨proc, c, hp, -, hc, heq⟩
  · exact heq ▸ hfault _ ty addr rfl
  · exact heq ▸ h _ proc c hp hc

/-- An action about nobody, or about a process that does not exist, creates none. -/
theorem exec_absent (hnone : s.procs p = none) (hne : ∀ layout, a ≠ .newProc p layout)
    (hexec : s.exec a = .ok (s', w)) : s'.procs p = none := by
  by_cases hact : a.actor = some p
  · have hstay : s' = s := by
      cases a with
      | newProc pid layout =>
        cases hact
        exact absurd rfl (hne layout)
      | fault pid t addr => cases hact; simp_all [Sys.exec]
      | io pid => cases hact; simp_all [Sys.exec, Sys.execIo]
      | resume pid => cases hact; simp_all [Sys.exec, Sys.execResume]
      | store pid addr b => cases hact; simp_all [Sys.exec, Sys.execStore]
      | exit pid => cases hact; simp_all [Sys.exec, Sys.execExit]
      | reap pid => cases hact; simp_all [Sys.exec, Sys.execReap, Except.map]
      | _ => cases hact
    rw [hstay]
    exact hnone
  · rw [exec_onlyMoves hexec p hact]
    exact hnone

theorem execExit_ne_none (hne : s.procs pid ≠ none) : (s.execExit pid).procs pid ≠ none := by
  unfold Sys.execExit
  split
  · simp
  · exact hne

/-- A process disappears only by being reaped. -/
theorem exec_reaped (hne : s.procs p ≠ none) (hexec : s.exec a = .ok (s', w))
    (hgone : s'.procs p = none) : a = .reap p := by
  by_contra hreap
  refine absurd hgone ?_
  by_cases hact : a.actor = some p
  · cases a with
    | fault pid t addr =>
      cases hact
      rcases exec_fault_outcome hexec with ⟨-, rfl | rfl⟩ | ⟨as, c, -, -, -, hout⟩
      · exact hne
      · exact execExit_ne_none hne
      · exact hout.ne_none
    | io pid =>
      cases hact
      cases hexec
      show (s.execIo p).procs p ≠ none
      unfold Sys.execIo
      split
      · rw [procs_put]
        exact Option.some_ne_none _
      · rw [procs_put]
        exact Option.some_ne_none _
      · exact hne
    | resume pid =>
      cases hact
      rcases execResume_outcome hexec with ⟨rfl, -⟩ | ⟨proc, c, -, -, hout⟩
      · exact hne
      · exact hout.ne_none
    | store pid addr b =>
      cases hact
      cases hexec
      show (s.execStore p addr b).procs p ≠ none
      unfold Sys.execStore
      split
      · split <;> exact hne
      · exact hne
    | exit pid =>
      cases hact
      cases hexec
      exact execExit_ne_none hne
    | reap pid =>
      cases hact
      exact absurd rfl hreap
    | newProc pid layout =>
      cases hact
      cases hexec
      show (s.execNewProc p layout).procs p ≠ none
      unfold Sys.execNewProc
      split
      · simp
      · exact hne
    | _ => cases hact
  · rw [exec_onlyMoves hexec p hact]
    exact hne

/-- Processes come from nowhere but `newProc`, in the sequential machine as well. -/
theorem seqExec_absent (hnone : s.procs p = none)
    (hne : ∀ layout, a ≠ .newProc p layout) (hexec : s.seqExec a = .ok s') : s'.procs p = none := by
  cases hin : a.inFault with
  | false =>
    obtain ⟨w, hr⟩ := exec_of_seqExec hin hexec
    exact exec_absent hnone hne hr
  | true =>
    cases a with
    | fault pid t addr =>
      simp only [Sys.seqExec, Sys.seqFault] at hexec
      split at hexec
      · next as hp =>
        have hpid : p ≠ pid := by
          rintro rfl
          rw [hnone] at hp
          cases hp
        have hother : ∀ proc, Function.update s.procs pid (some proc) p = none :=
          fun proc => (Function.update_of_ne hpid _ _).trans hnone
        split at hexec
        · cases hexec
        · cases hexec
          exact hother _
        · cases hexec
          exact hother _
      · cases hexec
        exact hnone
    | io pid => cases hexec; exact hnone
    | resume pid => cases hexec; exact hnone
    | _ => cases hin

end DemandPaging
