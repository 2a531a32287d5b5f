import DemandPaging.Machine.Eviction

set_option autoImplicit false

/-! # The memory a process sees

`Has s p v page` says which bytes page `v` of process `p` has, wherever they are: in its frame, or
in its swap slot while it is not resident or still being loaded. This is the flat memory of the
abstract machine. `MemInv` says that every page that was loaded once has bytes, and the lemmas of
this file show that a move inside `vm_fault` changes the bytes of no page, except that the end of a
first load gives bytes to a page that had none. -/

namespace DemandPaging

open Function (update update_self update_of_ne)

/-- The bytes of a page. -/
def Has (s : Sys) (p : Int) (v : VAddr) (page : Page) : Prop :=
  (∃ f, s.vm.cm.Maps p v f ∧ ¬ Busy s.procs p v ∧ page = s.vm.ram f) ∨
  (((∀ f, ¬ s.vm.cm.Maps p v f) ∨ Busy s.procs p v) ∧
    ∃ k, s.vm.swap.Holds p v k ∧ page = s.vm.swap.readSlot k)

/-- All pages have the same bytes in two states. -/
def SameMemory (s s' : Sys) : Prop := ∀ p v page, Has s' p v page ↔ Has s p v page

/-- What the first load of page `v` leaves in its frame: zeros on the stack, and elsewhere the bytes
    of the executable, as far as the file reaches. -/
def FirstImage (files : Nat → List UInt8) (as : AddrSpace) (v : VAddr) (page : Page) : Prop :=
  ∃ c, as.locate v = some c ∧
    ((as.stackseg c = true ∧ page = fun _ => 0) ∨
      (as.stackseg c = false ∧ ∃ vnode offset, elfSource as v = .ok (vnode, offset) ∧
        ∀ (o : Fin PAGE_SIZE) b, (files vnode)[offset + o.val]? = some b → page o = b))

/-- What a load in progress may rely on: the page and its source, and after the read the bytes. -/
def LoadOk (files : Nat → List UInt8) (cm : Coremap) (ram : Nat → Page) (p : Int)
    (as : AddrSpace) : Pc → Prop
  | .user => True
  | .zombie => True
  | .evicting c _ _ => pageOf c.fa = c.fa
  | .granted c r => pageOf c.fa = c.fa ∧ r ≠ 0
  | .swapRead c r _ => pageOf c.fa = c.fa ∧ r ≠ 0
  | .elfRead c r vnode offset copied => pageOf c.fa = c.fa ∧ r ≠ 0 ∧
      as.stackseg c = false ∧ elfSource as c.fa = .ok (vnode, offset) ∧
      (copied = true → ∀ f, cm.Maps p c.fa f → ∀ (o : Fin PAGE_SIZE) b,
        (files vnode)[offset + o.val]? = some b → ram f o = b)

/-- Loads in progress are on their way, and every page that was loaded once has bytes. -/
structure MemInv (s : Sys) : Prop where
  loads : ∀ p as pc, s.procs p = some ⟨some as, pc⟩ →
    LoadOk s.files s.vm.cm s.vm.ram p as pc
  backed : ∀ p v, pageOf v = v → Loaded s.procs p v → ∃ page, Has s p v page

variable {s s' : Sys} {q q' : List Nat} {w : Option TlbWrite} {pid p : Int} {v : VAddr}
  {as as' : AddrSpace} {pc pc' : Pc} {c : FaultCtx}

/-! ## Bytes are a function of the page -/

theorem Has.unique {page page' : Page} (h : s.Inv q) (h₁ : Has s p v page)
    (h₂ : Has s p v page') : page = page' := by
  rcases h₁ with ⟨f, hm, hnb, rfl⟩ | ⟨hno, k, hk, rfl⟩
  · rcases h₂ with ⟨g, hg, -, rfl⟩ | ⟨hno, -⟩
    · rw [h.table.rep.maps_unique hm hg]
    · rcases hno with hno | hb
      · exact absurd hm (hno f)
      · exact absurd hb hnb
  · rcases h₂ with ⟨g, hg, hnb, -⟩ | ⟨-, k', hk', rfl⟩
    · rcases hno with hno | hb
      · exact absurd hg (hno g)
      · exact absurd hb hnb
    · rw [h.slot_unique p v k k' hk hk']

theorem has_of_maps {f : Nat} (hm : s.vm.cm.Maps p v f) (hnb : ¬ Busy s.procs p v) :
    Has s p v (s.vm.ram f) := .inl ⟨f, hm, hnb, rfl⟩

/-- A page that has bytes belongs to a live process. -/
theorem Has.live {page : Page} (h : s.Inv q) (hh : Has s p v page) : s.procs p ≠ none := by
  have hloaded : Loaded s.procs p v ∨ Busy s.procs p v := by
    rcases hh with ⟨f, hm, -, -⟩ | ⟨-, k, hk, -⟩
    · exact h.res_loaded p v f hm
    · exact .inl (h.key_loaded p v k hk)
  rcases hloaded with ⟨as, pc, hp, -⟩ | ⟨proc, hp, -⟩
  · rw [hp]; exact Option.some_ne_none _
  · rw [hp]; exact Option.some_ne_none _

/-- The bytes of a page stay the same if its frame does while it is resident and loaded, and its
    slots do otherwise. -/
theorem has_congr (hmaps : ∀ f, s'.vm.cm.Maps p v f ↔ s.vm.cm.Maps p v f)
    (hbusy : Busy s'.procs p v ↔ Busy s.procs p v)
    (hram : ∀ f, s.vm.cm.Maps p v f → ¬ Busy s.procs p v → s'.vm.ram f = s.vm.ram f)
    (hslots : (∀ f, ¬ s.vm.cm.Maps p v f) ∨ Busy s.procs p v → ∀ k,
      (s'.vm.swap.Holds p v k ↔ s.vm.swap.Holds p v k) ∧
      (s.vm.swap.Holds p v k → s'.vm.swap.readSlot k = s.vm.swap.readSlot k)) (page : Page) :
    Has s' p v page ↔ Has s p v page := by
  unfold Has
  simp only [hmaps, hbusy]
  constructor
  · rintro (⟨f, hm, hnb, rfl⟩ | ⟨hno, k, hk, rfl⟩)
    · exact .inl ⟨f, hm, hnb, hram f hm hnb⟩
    · obtain ⟨hiff, hread⟩ := hslots hno k
      exact .inr ⟨hno, k, hiff.1 hk, hread (hiff.1 hk)⟩
  · rintro (⟨f, hm, hnb, rfl⟩ | ⟨hno, k, hk, rfl⟩)
    · exact .inl ⟨f, hm, hnb, (hram f hm hnb).symm⟩
    · obtain ⟨hiff, hread⟩ := hslots hno k
      exact .inr ⟨hno, k, hiff.2 hk, (hread hk).symm⟩

/-- Nothing but counters, the TLB and positions changes. -/
theorem sameMemory_of_busy {vm' : Vm} {procs' : Int → Option Proc} (hcm : vm'.cm = s.vm.cm)
    (hswap : vm'.swap = s.vm.swap) (hram : vm'.ram = s.vm.ram)
    (hbusy : ∀ p v, Busy procs' p v ↔ Busy s.procs p v) :
    SameMemory s { s with vm := vm', procs := procs' } := by
  intro p v page
  refine has_congr (fun f => by rw [hcm]) (hbusy p v) (fun f _ _ => by rw [hram])
    (fun _ k => ?_) page
  rw [hswap]
  exact ⟨Iff.rfl, fun _ => rfl⟩

/-- A page whose bytes are in its slot before and after. -/
theorem has_congr_slots (hs : (∀ f, ¬ s.vm.cm.Maps p v f) ∨ Busy s.procs p v)
    (hs' : (∀ f, ¬ s'.vm.cm.Maps p v f) ∨ Busy s'.procs p v)
    (hslots : ∀ k, (s'.vm.swap.Holds p v k ↔ s.vm.swap.Holds p v k) ∧
      (s.vm.swap.Holds p v k → s'.vm.swap.readSlot k = s.vm.swap.readSlot k)) (page : Page) :
    Has s' p v page ↔ Has s p v page := by
  have hnot : ∀ {t : Sys}, ((∀ f, ¬ t.vm.cm.Maps p v f) ∨ Busy t.procs p v) →
      ∀ {f}, t.vm.cm.Maps p v f → ¬ Busy t.procs p v → False := by
    intro t ht f hm hnb
    rcases ht with hno | hb
    · exact hno f hm
    · exact hnb hb
  constructor
  · rintro (⟨f, hm, hnb, -⟩ | ⟨-, k, hk, rfl⟩)
    · exact absurd (hnot hs' hm hnb) id
    · exact .inr ⟨hs, k, (hslots k).1.1 hk, (hslots k).2 ((hslots k).1.1 hk)⟩
  · rintro (⟨f, hm, hnb, -⟩ | ⟨-, k, hk, rfl⟩)
    · exact absurd (hnot hs hm hnb) id
    · exact .inr ⟨hs', k, (hslots k).1.2 hk, ((hslots k).2 hk).symm⟩

/-- Whether the process at hand is loading a page is up to its position. -/
theorem busy_iff {proc : Proc} (hp : s.procs pid = some proc) :
    Busy s.procs pid v ↔ proc.pc.Loads v := by
  constructor
  · rintro ⟨proc', hp', hl⟩
    rw [hp] at hp'
    cases hp'
    exact hl
  · exact fun hl => ⟨proc, hp, hl⟩

/-- A process that is back in user mode loads nothing. -/
theorem busy_update_user {procs : Int → Option Proc} :
    Busy (update procs pid (some ⟨some as, .user⟩)) p v ↔ p ≠ pid ∧ Busy procs p v := by
  rw [busy_update]
  simp [Pc.not_loads_user]

theorem not_busy_user {as : Option AddrSpace} (hp : s.procs pid = some ⟨as, .user⟩) :
    ¬ Busy s.procs pid v :=
  fun hb => Pc.not_loads_user ((busy_iff hp).1 hb)

/-! ## Moves inside `vm_fault` -/

theorem sameMemory_evictBegin {w : VAddr} {f slot : Nat} {sw : Swapfile} {counter : Counters}
    (hp : s.procs pid = some ⟨some as, .user⟩) (hm : s.vm.cm.Maps p w f)
    (hclaim : s.vm.swap.claimSlot p w = some (sw, slot))
    (hidle : ¬ Busy s.procs p w) :
    SameMemory s (s.put { s.vm with swap := sw, counter := counter } pid as
      (.evicting c ⟨f, p, w, f * PAGE_SIZE, slot⟩ false)) := by
  obtain ⟨-, -, hiff, hfile⟩ := claimSlot_spec hclaim hm.pid_pos
  intro p' v' page
  refine has_congr ?_
    (busy_update_same hp fun v => iff_of_false Pc.not_loads_evicting Pc.not_loads_user)
    ?_ (fun hno k => ⟨?_, fun _ => ?_⟩) page
  · exact fun _ => Iff.rfl
  · exact fun _ _ _ => rfl
  · show sw.Holds p' v' k ↔ _
    rw [hiff]
    refine ⟨fun hk => hk.resolve_right ?_, .inl⟩
    -- the page that gets a slot is resident and not being loaded
    rintro ⟨-, rfl, rfl⟩
    exact hno.elim (fun hno => hno f hm) hidle
  · show sw.readSlot k = _
    unfold Swapfile.readSlot
    rw [hfile]

/-- A frame is granted: the page goes from not resident to being loaded. -/
theorem has_grant {cm' : Coremap} {i r : Nat} {t : Tlb} {counter : Counters}
    (hp : s.procs pid = some ⟨some as, pc⟩) (hnl : ∀ v, ¬ pc.Loads v)
    (hfresh : ∀ g, ¬ s.vm.cm.Maps pid c.fa g)
    (hmaps : ∀ p w g, cm'.Maps p w g ↔
      (g ≠ i ∧ s.vm.cm.Maps p w g) ∨ (g = i ∧ p = pid ∧ w = c.fa))
    (hother : ¬ s.vm.cm.Maps p v i) (page : Page) :
    Has (s.put { s.vm with cm := cm', tlb := t, counter := counter } pid as (.granted c r)) p v page
      ↔ Has s p v page := by
  have hloads : ∀ v, (Pc.granted c r).Loads v ↔ c.fa = v := fun v => Pc.loads_of_loading rfl
  by_cases hmine : p = pid ∧ c.fa = v
  · obtain ⟨rfl, rfl⟩ := hmine
    refine has_congr_slots (.inl hfresh) (.inr ?_) ?_ page
    · exact busy_update.2 (.inl ⟨rfl, (hloads _).2 rfl⟩)
    · exact fun k => ⟨Iff.rfl, fun _ => rfl⟩
  · refine has_congr (fun g => (hmaps p v g).trans ?_) ?_ ?_ ?_ page
    · constructor
      · rintro (⟨-, hg⟩ | ⟨-, rfl, rfl⟩)
        · exact hg
        · exact absurd ⟨rfl, rfl⟩ hmine
      · intro hg
        refine .inl ⟨?_, hg⟩
        rintro rfl
        exact hother hg
    · refine busy_update.trans ?_
      by_cases hpp : p = pid
      · subst hpp
        rw [busy_iff hp, hloads]
        exact iff_of_false (by simpa using hmine) (hnl v)
      · simp [hpp]
    · exact fun _ _ _ => rfl
    · exact fun _ k => ⟨Iff.rfl, fun _ => rfl⟩

theorem sameMemory_grantFree {cm' : Coremap} {i : Nat} {counter : Counters} (h : s.Inv q)
    (hp : s.procs pid = some ⟨some as, .user⟩) (hfresh : ∀ g, ¬ s.vm.cm.Maps pid c.fa g)
    (hi : s.vm.cm.FreeFrame i) (hown : cm'.own = update s.vm.cm.own i (pid, c.fa, 1))
    (hs : SameShape s.vm.cm cm') :
    SameMemory s (s.put { s.vm with cm := cm', counter := counter } pid as
      (.granted c (i * PAGE_SIZE))) := by
  intro p v page
  exact has_grant hp (fun _ => Pc.not_loads_user) hfresh
    (maps_update_user hown hs.ptsize hi.1 (h.pid_pos hp)) (fun hm => hi.2.1 hm.1) page

/-- The end of an eviction: the victim's bytes are in its slot from now on. -/
theorem sameMemory_evictEnd {ev : Eviction} {cm' : Coremap} {counter : Counters} (h : s.Inv q)
    (hc : Copied s) (hp : s.procs pid = some ⟨some as, .evicting c ev true⟩)
    (hown : cm'.own = update s.vm.cm.own ev.ind (pid, c.fa, 1))
    (hs : SameShape s.vm.cm cm') :
    SameMemory s (s.put { s.vm with
        cm := cm'
        tlb := s.vm.tlb.vmtlbInvalidatepage ev.vaddr
        counter := counter } pid as (.granted c (ev.ind * PAGE_SIZE))) := by
  obtain ⟨-, hfresh, -, hm, -, hk⟩ := h.pc_ok pid as _ hp
  have hmaps := maps_update_user hown hs.ptsize hm.1.1 (h.pid_pos hp)
  have hnb : ¬ Busy s.procs ev.pid ev.vaddr := h.not_busy pid _ ev hp rfl
  intro p v page
  by_cases hvictim : s.vm.cm.Maps p v ev.ind
  · obtain ⟨rfl, rfl⟩ : p = ev.pid ∧ v = ev.vaddr :=
      ⟨hvictim.2.1.symm.trans hm.2.1, hvictim.2.2.symm.trans hm.2.2⟩
    have hbytes := hc pid _ c ev hp
    have hgone : ∀ g, ¬ cm'.Maps ev.pid ev.vaddr g := by
      intro g hg
      rcases (hmaps _ _ g).1 hg with ⟨hne, hg⟩ | ⟨-, h1, h2⟩
      · exact hne (h.table.rep.maps_unique hg hm)
      · exact hfresh ev.ind (h1 ▸ h2 ▸ hm)
    constructor
    · rintro (⟨g, hg, -, -⟩ | ⟨-, k, hk', rfl⟩)
      · exact absurd hg (hgone g)
      · refine .inl ⟨ev.ind, hm, hnb, ?_⟩
        rw [h.slot_unique _ _ _ _ hk' hk]
        exact hbytes
    · rintro (⟨g, hg, -, rfl⟩ | ⟨hno, -⟩)
      · refine .inr ⟨.inl hgone, ev.slot, hk, ?_⟩
        rw [h.table.rep.maps_unique hg hm]
        exact hbytes.symm
      · rcases hno with hno | hb
        · exact absurd hm (hno ev.ind)
        · exact absurd hb hnb
  · exact has_grant hp (fun _ => Pc.not_loads_evicting) hfresh hmaps hvictim page

/-- A load that goes on: the page stays busy, and at most its own frame is written. -/
theorem sameMemory_loading {vm' : Vm} {r r' : Nat} (hp : s.procs pid = some ⟨some as, pc⟩)
    (hl : pc.loading = some (c, r)) (hl' : pc'.loading = some (c, r')) (hcm : vm'.cm = s.vm.cm)
    (hswap : vm'.swap = s.vm.swap)
    (hram : ∀ f, s.vm.cm.IsUser f → ¬ s.vm.cm.Maps pid c.fa f → vm'.ram f = s.vm.ram f) :
    SameMemory s (s.put vm' pid as pc') := by
  intro p v page
  refine has_congr (fun f => ?_) (busy_update_same hp fun v => ?_) (fun f hm hnb => ?_)
    (fun _ k => ?_) page
  · show vm'.cm.Maps p v f ↔ _
    rw [hcm]
  · rw [Pc.loads_of_loading hl, Pc.loads_of_loading hl']
  · refine hram f hm.1 fun hm' => hnb ?_
    obtain ⟨rfl, rfl⟩ : p = pid ∧ v = c.fa :=
      ⟨hm.2.1.symm.trans hm'.2.1, hm.2.2.symm.trans hm'.2.2⟩
    exact (busy_iff hp).2 ((Pc.loads_of_loading hl).2 rfl)
  · show (vm'.swap.Holds p v k ↔ _) ∧ (_ → vm'.swap.readSlot k = _)
    rw [hswap]
    exact ⟨Iff.rfl, fun _ => rfl⟩

theorem sameMemory_ioEvict {ev : Eviction} (h : s.Inv q)
    (hp : s.procs pid = some ⟨some as, .evicting c ev false⟩) :
    SameMemory s (s.put (evictWrite s.vm ev) pid as (.evicting c ev true)) := by
  obtain ⟨-, -, -, hm, -, hk⟩ := h.pc_ok pid as _ hp
  have hnb : ¬ Busy s.procs ev.pid ev.vaddr := h.not_busy pid _ ev hp rfl
  intro p v page
  refine has_congr ?_ ?_ ?_ (fun hno k => ⟨?_, fun hk' => ?_⟩) page
  · exact fun _ => Iff.rfl
  · exact busy_update_same hp fun v => iff_of_false Pc.not_loads_evicting Pc.not_loads_evicting
  · exact fun _ _ _ => rfl
  · exact holds_writeSlot ..
  · show (s.vm.swap.writeSlot ev.slot _).readSlot k = _
    rw [readSlot_writeSlot, if_neg]
    -- only the victim has this slot, and its bytes are still in its frame
    intro heq
    obtain ⟨rfl, rfl⟩ := Swapfile.Holds.key_eq hk' (heq ▸ hk)
    rcases hno with hno | hb
    · exact hno ev.ind hm
    · exact hnb hb

/-- The end of a read from swap: the bytes move from the slot to the frame. -/
theorem sameMemory_swapEnd {f slot : Nat} {t : Tlb} {counter : Counters} (h : s.Inv q)
    (hp : s.procs pid = some ⟨some as, .swapRead c (f * PAGE_SIZE) slot⟩)
    (hm : s.vm.cm.Maps pid c.fa f) :
    SameMemory s (s.put { s.vm with
        swap := s.vm.swap.releaseSlot slot
        ram := update s.vm.ram f (s.vm.swap.readSlot slot)
        tlb := t
        counter := counter } pid as .user) := by
  obtain ⟨-, -, hk⟩ := h.pc_ok pid as _ hp
  have hloads : ∀ v, (Pc.swapRead c (f * PAGE_SIZE) slot).Loads v ↔ c.fa = v :=
    fun v => Pc.loads_of_loading rfl
  intro p v page
  by_cases hmine : p = pid ∧ c.fa = v
  · obtain ⟨rfl, rfl⟩ := hmine
    have hb : Busy s.procs p c.fa := (busy_iff hp).2 ((hloads _).2 rfl)
    have hidle : ¬ Busy (update s.procs p (some ⟨some as, .user⟩)) p c.fa :=
      fun hb' => (busy_update_user.1 hb').1 rfl
    constructor
    · rintro (⟨g, hg, -, rfl⟩ | ⟨hno, -⟩)
      · refine .inr ⟨.inr hb, slot, hk, ?_⟩
        rw [h.table.rep.maps_unique hg hm]
        exact update_self f _ s.vm.ram
      · rcases hno with hno | hb'
        · exact absurd hm (hno f)
        · exact absurd hb' hidle
    · rintro (⟨g, -, hnb, -⟩ | ⟨-, k, hk', rfl⟩)
      · exact absurd hb hnb
      · refine .inl ⟨f, hm, hidle, ?_⟩
        rw [h.slot_unique _ _ _ _ hk' hk]
        exact (update_self f _ s.vm.ram).symm
  · refine has_congr ?_ (busy_update_user.trans ?_) (fun g hg _ => ?_) (fun _ k => ⟨?_, ?_⟩) page
    · exact fun _ => Iff.rfl
    · refine ⟨fun hb => hb.2, fun hb => ⟨fun hpp => hmine ?_, hb⟩⟩
      subst hpp
      exact ⟨rfl, (hloads v).1 ((busy_iff hp).1 hb)⟩
    · show update s.vm.ram f _ g = s.vm.ram g
      refine update_of_ne (fun hgf => hmine ?_) _ _
      rw [hgf] at hg
      exact ⟨hg.2.1.symm.trans hm.2.1, hm.2.2.symm.trans hg.2.2⟩
    · show (s.vm.swap.releaseSlot slot).Holds p v k ↔ _
      rw [holds_releaseSlot]
      refine ⟨fun hk' => hk'.1, fun hk' => ⟨hk', fun heq => hmine ?_⟩⟩
      obtain ⟨rfl, rfl⟩ := Swapfile.Holds.key_eq hk' (heq ▸ hk)
      exact ⟨rfl, rfl⟩
    · exact fun _ => rfl

/-- The page of a TLB write had no bytes before and has those of its first load now; no other page
    changes. -/
structure FirstLoad (s s' : Sys) (t : TlbWrite) : Prop where
  fresh : ∀ page, ¬ Has s t.pid t.vaddr page
  others : ∀ p v, ¬ (p = t.pid ∧ v = t.vaddr) → ∀ page, Has s' p v page ↔ Has s p v page
  image : ∃ as pc, s.procs t.pid = some ⟨some as, pc⟩ ∧
    ∀ f, s'.vm.cm.Maps t.pid t.vaddr f → FirstImage s.files as t.vaddr (s'.vm.ram f)

theorem firstLoad_of_put {vm' : Vm} {r : Nat} (hp : s.procs pid = some ⟨some as, pc⟩)
    (hl : pc.loading = some (c, r)) (hno : ∀ k, ¬ s.vm.swap.Holds pid c.fa k)
    (hcm : vm'.cm = s.vm.cm) (hswap : vm'.swap = s.vm.swap)
    (hram : ∀ f, s.vm.cm.IsUser f → ¬ s.vm.cm.Maps pid c.fa f → vm'.ram f = s.vm.ram f)
    (himage : ∀ f, s.vm.cm.Maps pid c.fa f → FirstImage s.files as c.fa (vm'.ram f)) :
    FirstLoad s (s.put vm' pid as' .user) ⟨pid, c.fa, r⟩ where
  fresh page := by
    rintro (⟨f, -, hnb, -⟩ | ⟨-, k, hk, -⟩)
    · exact hnb ((busy_iff hp).2 ((Pc.loads_of_loading hl).2 rfl))
    · exact hno k hk
  others p v hne page := by
    refine has_congr (fun f => ?_) (busy_update_user.trans ?_) (fun f hm _ => ?_)
      (fun _ k => ?_) page
    · show vm'.cm.Maps p v f ↔ _
      rw [hcm]
    · refine ⟨fun hb => hb.2, fun hb => ⟨fun hpp => hne ?_, hb⟩⟩
      subst hpp
      exact ⟨rfl, ((Pc.loads_of_loading hl).1 ((busy_iff hp).1 hb)).symm⟩
    · refine hram f hm.1 fun hm' => hne ?_
      exact ⟨hm.2.1.symm.trans hm'.2.1, hm.2.2.symm.trans hm'.2.2⟩
    · show (vm'.swap.Holds p v k ↔ _) ∧ (_ → vm'.swap.readSlot k = _)
      rw [hswap]
      exact ⟨Iff.rfl, fun _ => rfl⟩
  image := by
    refine ⟨as, pc, hp, fun f hm => himage f ?_⟩
    rw [← hcm]
    exact hm

/-- A load with a frame writes only to that frame. -/
theorem Target.update_ram {r : Nat} {page : Page} (h : Target s.vm.cm pid c.fa r)
    (ht : TableInv s.vm.cm q) (f : Nat) (hu : s.vm.cm.IsUser f)
    (hne : ¬ s.vm.cm.Maps pid c.fa f) :
    update s.vm.ram (r / PAGE_SIZE) page f = s.vm.ram f :=
  update_of_ne (fun heq => hne (h.frame ht hu heq)) _ _

/-- A page that was loaded once and is being loaded again has a slot. -/
theorem MemInv.slot_of_flag {r : Nat} (hmem : MemInv s) (h : s.Inv q)
    (hp : s.procs pid = some ⟨some as, .granted c r⟩) (hflag : as.flag c = 1) :
    ∃ k, s.vm.swap.Holds pid c.fa k := by
  obtain ⟨hloc, -⟩ := h.pc_ok pid as _ hp
  have hpage : pageOf c.fa = c.fa := (hmem.loads pid as _ hp).1
  obtain ⟨page, hhas⟩ := hmem.backed pid c.fa hpage ⟨as, _, hp, (loadedAt_iff hloc).2 hflag⟩
  rcases hhas with ⟨f, -, hnb, -⟩ | ⟨-, k, hk, -⟩
  · exact absurd ((busy_iff hp).2 ((Pc.loads_of_loading rfl).2 rfl)) hnb
  · exact ⟨k, hk⟩

/-- A move inside `vm_fault` changes no bytes, unless it is the end of a first load. -/
theorem FaultMove.memory (h : s.Inv q) (hc : Copied s) (hmem : MemInv s)
    (hm : FaultMove False s q s' q' w) :
    SameMemory s s' ∨ ∃ t, w = some t ∧ FirstLoad s s' t := by
  cases hm with
  | hit hp _ _ _ =>
    exact .inl (sameMemory_of_busy rfl rfl rfl fun p v => busy_update_same hp fun _ => Iff.rfl)
  | evictBegin hp _ _ _ _ hm hclaim _ hidle =>
    exact .inl (sameMemory_evictBegin hp hm hclaim hidle)
  | grantFree hp _ _ hfresh hi _ hown hs => exact .inl (sameMemory_grantFree h hp hfresh hi hown hs)
  | grantNone _ _ _ _ hnone => exact absurd hnone id
  | evictEnd hp _ _ hown hs => exact .inl (sameMemory_evictEnd h hc hp hown hs)
  | loadMissing hp hflag hslot =>
    obtain ⟨k, hk⟩ := hmem.slot_of_flag h hp hflag
    exact absurd hk (findSlot_none hslot k)
  | loadSwap hp _ _ | loadElf hp _ _ _ =>
    exact .inl (sameMemory_loading hp rfl rfl rfl rfl fun _ _ _ => rfl)
  | @loadZero pid as c r counter hp hflag hstack =>
    obtain ⟨hloc, ht⟩ := h.pc_ok pid as _ hp
    refine .inr ⟨_, rfl, firstLoad_of_put hp rfl (h.no_slot_of_flag hp hloc hflag) rfl rfl
      (ht.update_ram h.table) (fun f hm => ⟨c, hloc, .inl ⟨hstack, ?_⟩⟩)⟩
    obtain ⟨g, rfl, hg⟩ := ht.resolve_left (hmem.loads pid as _ hp).2
    show update s.vm.ram (g * PAGE_SIZE / PAGE_SIZE) _ f = _
    rw [Nat.mul_div_cancel g (by decide), h.table.rep.maps_unique hm hg, update_self]
  | ioEvict hp => exact .inl (sameMemory_ioEvict h hp)
  | @ioElf pid as c r vnode offset hp =>
    obtain ⟨-, ht, -⟩ := h.pc_ok pid as _ hp
    exact .inl (sameMemory_loading hp rfl rfl rfl rfl (ht.update_ram h.table))
  | @swapEnd pid as c r slot counter hp =>
    obtain ⟨-, ht, -⟩ := h.pc_ok pid as _ hp
    obtain ⟨f, rfl, hf⟩ := ht.resolve_left (hmem.loads pid as _ hp).2
    left
    rw [Nat.mul_div_cancel f (by decide)]
    exact sameMemory_swapEnd h hp hf
  | @elfEnd pid as c r vnode offset counter hp =>
    obtain ⟨hloc, -, hno⟩ := h.pc_ok pid as _ hp
    obtain ⟨-, -, hstack, hsrc, hread⟩ := hmem.loads pid as _ hp
    exact .inr ⟨_, rfl, firstLoad_of_put hp rfl hno rfl rfl (fun _ _ _ => rfl)
      fun f hm => ⟨c, hloc, .inr ⟨hstack, vnode, offset, hsrc, hread rfl f hm⟩⟩⟩

/-- The frame that a TLB write names holds the page, and nobody is loading it. -/
theorem FaultMove.installs {t : TlbWrite} (h : s.Inv q) (hmem : MemInv s)
    (hm : FaultMove False s q s' q' (some t)) :
    ∃ f, t.paddr = f * PAGE_SIZE ∧ s'.vm.cm.Maps t.pid t.vaddr f ∧
      ¬ Busy s'.procs t.pid t.vaddr := by
  have hidle : ∀ {pid : Int} {as : AddrSpace} {v : VAddr},
      ¬ Busy (update s.procs pid (some ⟨some as, .user⟩)) pid v :=
    fun hb => (busy_update_user.1 hb).1 rfl
  cases hm with
  | hit _ _ _ hm => exact ⟨_, rfl, hm, hidle⟩
  | @loadMissing pid as c r counter hp _ _ | @loadZero pid as c r counter hp _ _ =>
    obtain ⟨f, rfl, hf⟩ := (h.pc_ok pid as _ hp).2.resolve_left (hmem.loads pid as _ hp).2
    exact ⟨f, rfl, hf, hidle⟩
  | @swapEnd pid as c r slot counter hp =>
    obtain ⟨f, rfl, hf⟩ := (h.pc_ok pid as _ hp).2.1.resolve_left (hmem.loads pid as _ hp).2
    exact ⟨f, rfl, hf, hidle⟩
  | @elfEnd pid as c r vnode offset counter hp =>
    obtain ⟨f, rfl, hf⟩ := (h.pc_ok pid as _ hp).2.1.resolve_left (hmem.loads pid as _ hp).2.1
    exact ⟨f, rfl, hf, hidle⟩

/-! ## The invariant of the bytes -/

/-- A load in progress goes on if the page keeps its frame and the frame its bytes. -/
theorem LoadOk.transport {files : Nat → List UInt8} {cm cm' : Coremap} {ram ram' : Nat → Page}
    (h : LoadOk files cm ram p as pc)
    (hkeep : ∀ c r f, pc.loading = some (c, r) → cm'.Maps p c.fa f →
      cm.Maps p c.fa f ∧ ram' f = ram f) : LoadOk files cm' ram' p as pc := by
  cases pc with
  | user => trivial
  | zombie => trivial
  | evicting c ev b => exact h
  | granted c r => exact h
  | swapRead c r slot => exact h
  | elfRead c r vnode offset copied =>
    obtain ⟨hpage, hr, hstack, hsrc, hread⟩ := h
    refine ⟨hpage, hr, hstack, hsrc, fun hb f hm o b hfile => ?_⟩
    obtain ⟨hm', hram⟩ := hkeep c r f rfl hm
    rw [hram]
    exact hread hb f hm' o b hfile

/-- A step of one process disturbs no load of another. -/
theorem MemInv.loads_put {vm' : Vm} (hmem : MemInv s)
    (hnew : LoadOk s.files vm'.cm vm'.ram pid as' pc')
    (hkeep : ∀ p v f, p ≠ pid → vm'.cm.Maps p v f →
      s.vm.cm.Maps p v f ∧ vm'.ram f = s.vm.ram f) :
    ∀ p as pc, (s.put vm' pid as' pc').procs p = some ⟨some as, pc⟩ →
      LoadOk s.files vm'.cm vm'.ram p as pc := by
  intro p as pc hproc
  rcases update_cases hproc with ⟨rfl, heq⟩ | ⟨hne, hold⟩
  · cases heq
    exact hnew
  · exact (hmem.loads p as pc hold).transport fun c r f _ hm => hkeep p c.fa f hne hm

/-- A load writes to no frame of another process. -/
theorem Target.keeps_others {r : Nat} {page : Page} (h : Target s.vm.cm pid c.fa r)
    (ht : TableInv s.vm.cm q) (p : Int) (v : VAddr) (f : Nat) (hp : p ≠ pid)
    (hm : s.vm.cm.Maps p v f) :
    s.vm.cm.Maps p v f ∧ update s.vm.ram (r / PAGE_SIZE) page f = s.vm.ram f :=
  ⟨hm, h.update_ram ht f hm.1 fun hm' => hp (hm.2.1.symm.trans hm'.2.1)⟩

/-- A frame granted to one process is not a frame of another. -/
theorem maps_of_grant {cm cm' : Coremap} {x v : VAddr} {i f : Nat}
    (hown : cm'.own = update cm.own i (pid, x, 1)) (hs : SameShape cm cm')
    (hi : i < cm.ptsize) (hpos : 0 < pid) (hp : p ≠ pid) (hm : cm'.Maps p v f) : cm.Maps p v f := by
  rcases (maps_update_user hown hs.ptsize hi hpos p v f).1 hm with ⟨-, hm⟩ | ⟨-, hpp, -⟩
  · exact hm
  · exact absurd hpp hp

theorem FaultMove.loads (h : s.Inv q) (hmem : MemInv s) (hm : FaultMove False s q s' q' w) :
    ∀ p as pc, s'.procs p = some ⟨some as, pc⟩ → LoadOk s'.files s'.vm.cm s'.vm.ram p as pc := by
  cases hm with
  | hit | loadMissing | elfEnd => exact hmem.loads_put trivial fun _ _ _ _ hm => ⟨hm, rfl⟩
  | evictBegin hp _ hpage => exact hmem.loads_put hpage fun _ _ _ _ hm => ⟨hm, rfl⟩
  | @grantFree pid as c i cm' counter hp _ hpage _ hi _ hown hs =>
    have hne : i ≠ 0 := h.table.freeFrame_ne_zero hi
    exact hmem.loads_put ⟨hpage, Nat.mul_ne_zero hne (by decide)⟩
      fun p v f hpp hm => ⟨maps_of_grant hown hs hi.1 (h.pid_pos hp) hpp hm, rfl⟩
  | grantNone _ _ _ _ hnone => exact absurd hnone id
  | @evictEnd pid as c ev cm' q' counter hp _ _ hown hs =>
    obtain ⟨-, -, -, hvictim, -⟩ := h.pc_ok pid as _ hp
    have hne : ev.ind ≠ 0 := h.table.user_ne_zero hvictim.1
    exact hmem.loads_put ⟨hmem.loads pid as _ hp, Nat.mul_ne_zero hne (by decide)⟩
      fun p v f hpp hm => ⟨maps_of_grant hown hs hvictim.1.1 (h.pid_pos hp) hpp hm, rfl⟩
  | @loadSwap pid as c r slot hp _ _ | @ioEvict pid as c ev hp =>
    have hok := hmem.loads pid as _ hp
    exact hmem.loads_put hok fun _ _ _ _ hm => ⟨hm, rfl⟩
  | @loadElf pid as c r vnode offset hp _ hstack hsrc =>
    obtain ⟨hpage, hr⟩ := hmem.loads pid as _ hp
    exact hmem.loads_put ⟨hpage, hr, hstack, hsrc, fun hb => by cases hb⟩
      fun _ _ _ _ hm => ⟨hm, rfl⟩
  | @loadZero pid as c r counter hp _ _ =>
    obtain ⟨-, ht⟩ := h.pc_ok pid as _ hp
    exact hmem.loads_put trivial (ht.keeps_others h.table)
  | @ioElf pid as c r vnode offset hp =>
    obtain ⟨-, ht, -⟩ := h.pc_ok pid as _ hp
    obtain ⟨hpage, hr, hstack, hsrc, -⟩ := hmem.loads pid as _ hp
    refine hmem.loads_put ⟨hpage, hr, hstack, hsrc, fun _ f hm o b hfile => ?_⟩
      (ht.keeps_others h.table)
    obtain ⟨g, rfl, hg⟩ := ht.resolve_left hr
    show update s.vm.ram (g * PAGE_SIZE / PAGE_SIZE) _ f o = b
    rw [Nat.mul_div_cancel g (by decide), h.table.rep.maps_unique hm hg, update_self,
      readInto, hfile]
  | @swapEnd pid as c r slot counter hp =>
    obtain ⟨-, ht, -⟩ := h.pc_ok pid as _ hp
    exact hmem.loads_put trivial (ht.keeps_others h.table)

theorem loaded_update_same {procs : Int → Option Proc} (hp : procs pid = some ⟨some as, pc⟩) :
    Loaded (update procs pid (some ⟨some as, pc'⟩)) p v ↔ Loaded procs p v := by
  rw [loaded_update]
  by_cases hpp : p = pid
  · subst hpp
    unfold Loaded
    simp [hp]
  · simp [hpp]

/-- Only the page of a TLB write can become loaded. -/
theorem FaultMove.loaded (h : s.Inv q) (hmem : MemInv s) (hm : FaultMove False s q s' q' w)
    (hv : pageOf v = v) (hl : Loaded s'.procs p v) :
    Loaded s.procs p v ∨ ∃ t, w = some t ∧ t.pid = p ∧ t.vaddr = v := by
  have hmarked : ∀ {pid as pc c r}, s.procs pid = some ⟨some as, pc⟩ →
      as.locate c.fa = some c → pageOf c.fa = c.fa →
      Loaded (update s.procs pid (some ⟨some (as.setLoaded c), .user⟩)) p v →
      Loaded s.procs p v ∨
        ∃ t, some (TlbWrite.mk pid c.fa r) = some t ∧ t.pid = p ∧ t.vaddr = v := by
    intro pid as pc c r hp hloc hpage hl
    rcases loaded_update.1 hl with ⟨rfl, hat⟩ | ⟨-, hold⟩
    · rcases loadedAt_of_setLoaded hat hloc hpage hv with hat | rfl
      · exact .inl ⟨as, pc, hp, hat⟩
      · exact .inr ⟨_, rfl, rfl, rfl⟩
    · exact .inl hold
  cases hm with
  | hit hp | evictBegin hp | grantFree hp | grantNone hp | evictEnd hp | loadMissing hp
  | loadSwap hp | loadElf hp | ioEvict hp | ioElf hp | swapEnd hp =>
    exact .inl ((loaded_update_same hp).1 hl)
  | @loadZero pid as c r counter hp _ _ | @elfEnd pid as c r vnode offset counter hp =>
    exact hmarked hp (h.pc_ok pid as _ hp).1 (hmem.loads pid as _ hp).1 hl

theorem FaultMove.memInv (h : s.Inv q) (hc : Copied s) (hmem : MemInv s)
    (hm : FaultMove False s q s' q' w) : MemInv s' where
  loads := hm.loads h hmem
  backed p v hv hl := by
    have hwritten : ∀ t, w = some t → t.pid = p → t.vaddr = v → ∃ page, Has s' p v page := by
      rintro t rfl rfl rfl
      obtain ⟨f, -, hf, hnb⟩ := hm.installs h hmem
      exact ⟨_, has_of_maps hf hnb⟩
    rcases hm.loaded h hmem hv hl with hl | ⟨t, ht, h1, h2⟩
    · obtain ⟨page, hhas⟩ := hmem.backed p v hv hl
      rcases hm.memory h hc hmem with hsame | ⟨t, ht, hfirst⟩
      · exact ⟨page, (hsame p v page).2 hhas⟩
      · by_cases heq : p = t.pid ∧ v = t.vaddr
        · exact hwritten t ht heq.1.symm heq.2.symm
        · exact ⟨page, (hfirst.others p v heq page).2 hhas⟩
    · exact hwritten t ht h1 h2

/-! ## Moves outside `vm_fault` -/

theorem sameMemory_exit (hp : s.procs pid = some ⟨some as, .user⟩) :
    SameMemory s { s with procs := update s.procs pid (some ⟨some as, .zombie⟩) } := by
  refine sameMemory_of_busy rfl rfl rfl fun p v => ?_
  refine busy_update_same hp fun v => iff_of_false ?_ Pc.not_loads_user
  rintro ⟨c, r, hl, -⟩
  cases hl

/-- A page keeps its bytes, or it is in its frame, or its owner is gone. -/
theorem OtherMove.memory (h : s.Inv q) (hm : OtherMove s q s' q') (p : Int) (v : VAddr) :
    (∀ page, Has s' p v page ↔ Has s p v page) ∨
    (∃ f, s'.vm.cm.Maps p v f ∧ ¬ Busy s'.procs p v) ∨ s'.procs p = none := by
  cases hm with
  | stay => exact .inl fun _ => Iff.rfl
  | exit hp => exact .inl (sameMemory_exit hp p v)
  | @store pid as w f page₀ hp hm _ =>
    by_cases hstored : s.vm.cm.Maps p v f
    · refine .inr (.inl ⟨f, hstored, ?_⟩)
      obtain rfl : p = pid := hstored.2.1.symm.trans hm.2.1
      exact not_busy_user hp
    · refine .inl fun page => has_congr ?_ ?_ (fun g hg _ => ?_) ?_ page
      · exact fun _ => Iff.rfl
      · exact Iff.rfl
      · have hgf : g ≠ f := fun hgf => hstored (hgf ▸ hg)
        exact update_of_ne hgf _ s.vm.ram
      · exact fun _ k => ⟨Iff.rfl, fun _ => rfl⟩
  | @reap pid as cm' q' hp _ _ hmaps _ =>
    by_cases hpp : p = pid
    · exact .inr (.inr (hpp ▸ update_self ..))
    · refine .inl fun page => has_congr (fun f => ?_) ?_ ?_ (fun _ k => ⟨?_, ?_⟩) page
      · exact (hmaps p v f).trans (and_iff_left hpp)
      · unfold Busy
        show (∃ proc, update s.procs pid none p = some proc ∧ _) ↔ _
        rw [update_of_ne hpp]
      · exact fun _ _ _ => rfl
      · exact (holds_removeswapentries h.bounded p v k).trans (and_iff_left hpp)
      · exact fun _ => rfl
  | @newProc pid layout hp hpos =>
    refine .inl fun page => sameMemory_of_busy rfl rfl rfl (fun p v => ?_) p v page
    refine busy_update_user.trans ⟨fun hb => hb.2, fun hb => ⟨?_, hb⟩⟩
    rintro rfl
    obtain ⟨proc, hproc, -⟩ := hb
    rw [hp] at hproc
    cases hproc
  | @kernel cm' ram' ht hmaps hram =>
    refine .inl fun page => has_congr (hmaps p v) ?_ (fun f hm _ => hram f hm.1) ?_ page
    · exact Iff.rfl
    · exact fun _ k => ⟨Iff.rfl, fun _ => rfl⟩

theorem OtherMove.loads (hmem : MemInv s) (hm : OtherMove s q s' q') :
    ∀ p as pc, s'.procs p = some ⟨some as, pc⟩ → LoadOk s'.files s'.vm.cm s'.vm.ram p as pc := by
  intro p as pc hproc
  cases hm with
  | stay => exact hmem.loads p as pc hproc
  | exit hp | newProc hp hpos =>
    rcases update_cases hproc with ⟨-, heq⟩ | ⟨-, hold⟩
    · cases heq
      trivial
    · exact hmem.loads p as pc hold
  | @store pid as₀ w f page hp hm _ =>
    refine (hmem.loads p as pc hproc).transport fun c r g hl hg => ⟨hg, ?_⟩
    -- the owner of a page being loaded is not in user mode
    refine update_of_ne ?_ _ _
    rintro rfl
    obtain rfl : p = pid := hg.2.1.symm.trans hm.2.1
    rw [hp] at hproc
    cases hproc
    cases hl
  | @reap pid as₀ cm' q' hp _ _ hmaps _ =>
    obtain ⟨-, hold⟩ := update_none_cases hproc
    exact (hmem.loads p as pc hold).transport fun c r f _ hm => ⟨((hmaps _ _ _).1 hm).1, rfl⟩
  | @kernel cm' ram' ht hmaps hram =>
    refine (hmem.loads p as pc hproc).transport fun c r f _ hm => ?_
    have hm' := (hmaps _ _ _).1 hm
    exact ⟨hm', hram f hm'.1⟩

theorem OtherMove.loaded (hm : OtherMove s q s' q') (hl : Loaded s'.procs p v) :
    Loaded s.procs p v ∧ s'.procs p ≠ none := by
  have halive : s'.procs p ≠ none := by
    obtain ⟨as, pc, hproc, -⟩ := hl
    rw [hproc]
    exact Option.some_ne_none _
  refine ⟨?_, halive⟩
  cases hm with
  | stay => exact hl
  | exit hp => exact (loaded_update_same hp).1 hl
  | store => exact hl
  | @reap pid as cm' q' hp _ _ _ _ =>
    obtain ⟨as₀, pc₀, hproc, hat⟩ := hl
    obtain ⟨-, hold⟩ := update_none_cases hproc
    exact ⟨as₀, pc₀, hold, hat⟩
  | @newProc pid layout hp hpos =>
    rcases loaded_update.1 hl with ⟨-, c, hloc, hflag⟩ | ⟨-, hold⟩
    · rw [unloaded_flag] at hflag
      exact absurd hflag (by decide)
    · exact hold
  | kernel => exact hl

theorem OtherMove.memInv (h : s.Inv q) (hmem : MemInv s) (hm : OtherMove s q s' q') :
    MemInv s' where
  loads := hm.loads hmem
  backed p v hv hl := by
    obtain ⟨hold, halive⟩ := hm.loaded hl
    obtain ⟨page, hhas⟩ := hmem.backed p v hv hold
    rcases hm.memory h p v with hsame | ⟨f, hf, hnb⟩ | hgone
    · exact ⟨page, (hsame page).2 hhas⟩
    · exact ⟨_, has_of_maps hf hnb⟩
    · exact absurd hgone halive

end DemandPaging
