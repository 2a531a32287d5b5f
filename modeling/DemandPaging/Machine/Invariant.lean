import DemandPaging.Fault.Flags
import DemandPaging.Machine

set_option autoImplicit false

/-! # The invariant of interleaved faults

`PagingInv cm swap procs q` relates the page table (with FIFO queue `q`), the swap map and the
positions of the processes. Its core is who may hold a page: a resident page that also has a swap
slot is being evicted or being loaded, a page that is being evicted sits at the head of the queue
and is not being loaded, and only one eviction is asleep.

The section on moves proves that it survives each of the few things a process does to the memory
system: change position, claim a slot, receive a frame, release a slot, disappear. The bytes play
no role here; they are the subject of `DemandPaging.Machine.Memory`. -/

namespace DemandPaging

open Function (update update_self update_of_ne)

/-! ## The views of a process -/

/-- The process is loading page `v`. -/
def Pc.Loads (pc : Pc) (v : VAddr) : Prop := ∃ c r, pc.loading = some (c, r) ∧ c.fa = v

/-- Page `v` of process `p` has been loaded once. -/
def Loaded (procs : Int → Option Proc) (p : Int) (v : VAddr) : Prop :=
  ∃ as pc, procs p = some ⟨some as, pc⟩ ∧ as.LoadedAt v

/-- Page `v` of process `p` is being loaded. -/
def Busy (procs : Int → Option Proc) (p : Int) (v : VAddr) : Prop :=
  ∃ proc, procs p = some proc ∧ proc.pc.Loads v

/-- Page `v` of process `p` is the victim of an eviction that is asleep. -/
def UnderEviction (procs : Int → Option Proc) (p : Int) (v : VAddr) : Prop :=
  ∃ pid proc ev, procs pid = some proc ∧ proc.pc.eviction = some ev ∧ ev.pid = p ∧ ev.vaddr = v

/-- A load goes to the frame of its page, or to address 0 if there was no frame. -/
def Target (cm : Coremap) (p : Int) (v : VAddr) (r : Nat) : Prop :=
  r = 0 ∨ ∃ f, r = f * PAGE_SIZE ∧ cm.Maps p v f

/-- What a process may rely on while it is asleep. -/
def PcOk (cm : Coremap) (swap : Swapfile) (q : List Nat) (p : Int) (as : AddrSpace) : Pc → Prop
  | .user => True
  | .zombie => True
  | .evicting c ev _ =>
    as.locate c.fa = some c ∧ (∀ g, ¬ cm.Maps p c.fa g) ∧ q.head? = some ev.ind ∧
      cm.Maps ev.pid ev.vaddr ev.ind ∧ ev.readfrom = ev.ind * PAGE_SIZE ∧
      swap.Holds ev.pid ev.vaddr ev.slot
  | .granted c r => as.locate c.fa = some c ∧ Target cm p c.fa r
  | .swapRead c r slot =>
    as.locate c.fa = some c ∧ Target cm p c.fa r ∧ swap.Holds p c.fa slot
  | .elfRead c r _ _ _ =>
    as.locate c.fa = some c ∧ Target cm p c.fa r ∧ ∀ k, ¬ swap.Holds p c.fa k

/-- The invariant. -/
structure PagingInv (cm : Coremap) (swap : Swapfile) (procs : Int → Option Proc) (q : List Nat) :
    Prop where
  table : TableInv cm q
  bounded : swap.Bounded
  slot_unique : ∀ p v k k', swap.Holds p v k → swap.Holds p v k' → k = k'
  live : ∀ p proc, procs p = some proc → 0 < p ∧ ∃ as, proc.as = some as ∧ as.Binary
  res_loaded : ∀ p v f, cm.Maps p v f → Loaded procs p v ∨ Busy procs p v
  key_loaded : ∀ p v k, swap.Holds p v k → Loaded procs p v
  res_key : ∀ p v f k, cm.Maps p v f → swap.Holds p v k →
    UnderEviction procs p v ∨ Busy procs p v
  pc_ok : ∀ p as pc, procs p = some ⟨some as, pc⟩ → PcOk cm swap q p as pc
  not_busy : ∀ pid proc ev, procs pid = some proc → proc.pc.eviction = some ev →
    ¬ Busy procs ev.pid ev.vaddr
  evict_unique : ∀ pid pid' proc proc', procs pid = some proc → procs pid' = some proc' →
    proc.pc.eviction ≠ none → proc'.pc.eviction ≠ none → pid = pid'

variable {cm cm' : Coremap} {swap swap' : Swapfile} {procs : Int → Option Proc} {q q' : List Nat}
  {pid p : Int} {v : VAddr} {as as' : AddrSpace} {pc pc' : Pc}

/-! ## Views of an updated process table -/

theorem loaded_update : Loaded (update procs pid (some ⟨some as', pc'⟩)) p v ↔
    (p = pid ∧ as'.LoadedAt v) ∨ (p ≠ pid ∧ Loaded procs p v) := by
  unfold Loaded
  by_cases hp : p = pid
  · subst hp
    simp
  · simp [hp]

theorem busy_update : Busy (update procs pid (some ⟨some as', pc'⟩)) p v ↔
    (p = pid ∧ pc'.Loads v) ∨ (p ≠ pid ∧ Busy procs p v) := by
  unfold Busy
  by_cases hp : p = pid
  · subst hp
    simp
  · simp [hp]

/-- An eviction in an updated table is the new one or an old one of another process. -/
theorem underEviction_update :
    UnderEviction (update procs pid (some ⟨some as', pc'⟩)) p v ↔
      (∃ ev, pc'.eviction = some ev ∧ ev.pid = p ∧ ev.vaddr = v) ∨
      ∃ pid' proc ev, pid' ≠ pid ∧ procs pid' = some proc ∧ proc.pc.eviction = some ev ∧
        ev.pid = p ∧ ev.vaddr = v := by
  constructor
  · rintro ⟨pid', proc, ev, hproc, hev, h1, h2⟩
    by_cases hp : pid' = pid
    · subst hp
      rw [update_self] at hproc
      obtain rfl := Option.some.inj hproc
      exact .inl ⟨ev, hev, h1, h2⟩
    · rw [update_of_ne hp] at hproc
      exact .inr ⟨pid', proc, ev, hp, hproc, hev, h1, h2⟩
  · rintro (⟨ev, hev, h1, h2⟩ | ⟨pid', proc, ev, hp, hproc, hev, h1, h2⟩)
    · exact ⟨pid, _, ev, update_self .., hev, h1, h2⟩
    · exact ⟨pid', proc, ev, by rw [update_of_ne hp]; exact hproc, hev, h1, h2⟩

theorem Pc.not_loads_user : ¬ Pc.user.Loads v := by
  rintro ⟨c, r, h, -⟩
  cases h

theorem Pc.not_loads_evicting {c : FaultCtx} {ev : Eviction} {b : Bool} :
    ¬ (Pc.evicting c ev b).Loads v := by
  rintro ⟨c, r, h, -⟩
  cases h

theorem Pc.loads_of_loading {c : FaultCtx} {r : Nat} (h : pc.loading = some (c, r)) :
    pc.Loads v ↔ c.fa = v := by
  unfold Pc.Loads
  rw [h]
  constructor
  · rintro ⟨c', r', heq, hv⟩
    obtain ⟨rfl, rfl⟩ := Prod.mk.inj (Option.some.inj heq)
    exact hv
  · intro hv
    exact ⟨c, r, rfl, hv⟩

/-- A process that loads or evicts is inside `vm_fault`. -/
theorem Pc.asleep_of_loads (h : pc.Loads v) : pc.asleep = true := by
  obtain ⟨c, r, h, -⟩ := h
  cases pc <;> first | rfl | cases h

/-! ## Frame lemmas -/

/-- What a sleeping process relies on survives a change that keeps the frame it loads to, the
    victim it writes out, and the slots of its own pages. -/
theorem PcOk.transport (h : PcOk cm swap q p as pc)
    (hload : ∀ c r f, pc.loading = some (c, r) → cm.Maps p c.fa f → cm'.Maps p c.fa f)
    (hvictim : ∀ c ev b, pc = .evicting c ev b → (∀ g, ¬ cm'.Maps p c.fa g) ∧
      q'.head? = some ev.ind ∧ cm'.Maps ev.pid ev.vaddr ev.ind ∧
      swap'.Holds ev.pid ev.vaddr ev.slot)
    (hslot : ∀ c r, pc.loading = some (c, r) →
      ∀ k, swap'.Holds p c.fa k ↔ swap.Holds p c.fa k) :
    PcOk cm' swap' q' p as pc := by
  have target : ∀ c r, pc.loading = some (c, r) → Target cm p c.fa r → Target cm' p c.fa r := by
    rintro c r hl (h0 | ⟨f, hf, hm⟩)
    · exact .inl h0
    · exact .inr ⟨f, hf, hload c r f hl hm⟩
  cases pc with
  | user => trivial
  | zombie => trivial
  | evicting c ev b =>
    obtain ⟨h1, h2, h3, h4⟩ := hvictim c ev b rfl
    exact ⟨h.1, h1, h2, h3, h.2.2.2.2.1, h4⟩
  | granted c r => exact ⟨h.1, target c r rfl h.2⟩
  | swapRead c r slot => exact ⟨h.1, target c r rfl h.2.1, (hslot c r rfl slot).2 h.2.2⟩
  | elfRead c r vnode offset b =>
    exact ⟨h.1, target c r rfl h.2.1, fun k hk => h.2.2 k ((hslot c r rfl k).1 hk)⟩

/-- The invariant does not look at bytes of the swap file. -/
theorem PagingInv.congr_swap (h : PagingInv cm swap procs q) (hb : swap'.Bounded)
    (heq : ∀ p v k, swap'.Holds p v k ↔ swap.Holds p v k) : PagingInv cm swap' procs q where
  table := h.table
  bounded := hb
  slot_unique p v k k' h1 h2 := h.slot_unique p v k k' ((heq ..).1 h1) ((heq ..).1 h2)
  live := h.live
  res_loaded := h.res_loaded
  key_loaded p v k hk := h.key_loaded p v k ((heq ..).1 hk)
  res_key p v f k hm hk := h.res_key p v f k hm ((heq ..).1 hk)
  pc_ok p as pc hp := (h.pc_ok p as pc hp).transport (fun _ _ _ _ hm => hm)
    (fun c ev b he => by
      subst he
      obtain ⟨-, h1, h2, h3, -, h4⟩ := h.pc_ok p as _ hp
      exact ⟨h1, h2, h3, (heq ..).2 h4⟩)
    (fun c r _ k => heq ..)
  not_busy := h.not_busy
  evict_unique := h.evict_unique

/-- Nor at anything in the page table but the resident pages and the queue. -/
theorem PagingInv.congr_table (h : PagingInv cm swap procs q) (ht : TableInv cm' q)
    (heq : ∀ p v f, cm'.Maps p v f ↔ cm.Maps p v f) : PagingInv cm' swap procs q where
  table := ht
  bounded := h.bounded
  slot_unique := h.slot_unique
  live := h.live
  res_loaded p v f hm := h.res_loaded p v f ((heq ..).1 hm)
  key_loaded := h.key_loaded
  res_key p v f k hm hk := h.res_key p v f k ((heq ..).1 hm) hk
  pc_ok p as pc hp := (h.pc_ok p as pc hp).transport (fun _ _ _ _ hm => (heq ..).2 hm)
    (fun c ev b he => by
      subst he
      obtain ⟨-, h1, h2, h3, -, h4⟩ := h.pc_ok p as _ hp
      exact ⟨fun g hg => h1 g ((heq ..).1 hg), h2, (heq ..).2 h3, h4⟩)
    (fun _ _ _ _ => Iff.rfl)
  not_busy := h.not_busy
  evict_unique := h.evict_unique

/-! ## Moves -/

/-- Looking up a process in an updated table. -/
theorem update_cases {procs : Int → Option Proc} {proc proc' : Proc}
    (h : update procs pid (some proc') p = some proc) :
    (p = pid ∧ proc = proc') ∨ (p ≠ pid ∧ procs p = some proc) := by
  by_cases hp : p = pid
  · subst hp
    rw [update_self] at h
    exact .inl ⟨rfl, (Option.some.inj h).symm⟩
  · rw [update_of_ne hp] at h
    exact .inr ⟨hp, h⟩

theorem update_none_cases {procs : Int → Option Proc} {proc : Proc}
    (h : update procs pid none p = some proc) : p ≠ pid ∧ procs p = some proc := by
  by_cases hp : p = pid
  · subst hp
    rw [update_self] at h
    cases h
  · rw [update_of_ne hp] at h
    exact ⟨hp, h⟩

theorem PagingInv.pid_pos (h : PagingInv cm swap procs q) {proc : Proc}
    (hp : procs pid = some proc) : 0 < pid := (h.live pid proc hp).1

theorem PagingInv.binary (h : PagingInv cm swap procs q) (hp : procs pid = some ⟨some as, pc⟩) :
    as.Binary := by
  obtain ⟨-, as₀, has, hb⟩ := h.live pid _ hp
  cases has
  exact hb

theorem PagingInv.live_update (h : PagingInv cm swap procs q) {proc : Proc}
    (hp : procs pid = some proc) (hbin : as'.Binary) :
    ∀ p proc, update procs pid (some ⟨some as', pc'⟩) p = some proc →
      0 < p ∧ ∃ as, proc.as = some as ∧ as.Binary := by
  intro p proc hproc
  rcases update_cases hproc with ⟨rfl, rfl⟩ | ⟨-, hproc⟩
  · exact ⟨h.pid_pos hp, as', rfl, hbin⟩
  · exact h.live p _ hproc

/-- No new eviction: still at most one is asleep. -/
theorem PagingInv.evict_unique_update (h : PagingInv cm swap procs q) (hno : pc'.eviction = none) :
    ∀ p₁ p₂ proc₁ proc₂, update procs pid (some ⟨some as', pc'⟩) p₁ = some proc₁ →
      update procs pid (some ⟨some as', pc'⟩) p₂ = some proc₂ →
      proc₁.pc.eviction ≠ none → proc₂.pc.eviction ≠ none → p₁ = p₂ := by
  intro p₁ p₂ proc₁ proc₂ h₁ h₂ e₁ e₂
  rcases update_cases h₁ with ⟨-, rfl⟩ | ⟨-, h₁⟩
  · exact absurd hno e₁
  · rcases update_cases h₂ with ⟨-, rfl⟩ | ⟨-, h₂⟩
    · exact absurd hno e₂
    · exact h.evict_unique p₁ p₂ _ _ h₁ h₂ e₁ e₂

/-- Load flags are never cleared while a process lives. -/
theorem Loaded.grow (hl : Loaded procs p v) (hp : procs pid = some ⟨some as, pc⟩)
    (hgrow : ∀ v, as.LoadedAt v → as'.LoadedAt v) :
    Loaded (update procs pid (some ⟨some as', pc'⟩)) p v := by
  rw [loaded_update]
  by_cases hpp : p = pid
  · subst hpp
    obtain ⟨as₀, pc₀, heq, hl⟩ := hl
    rw [hp] at heq
    cases heq
    exact .inl ⟨rfl, hgrow v hl⟩
  · exact .inr ⟨hpp, hl⟩

/-- Changing position without beginning or ending a load. -/
theorem busy_update_same (hp : procs pid = some ⟨some as, pc⟩)
    (hsame : ∀ v, pc'.Loads v ↔ pc.Loads v) :
    Busy (update procs pid (some ⟨some as', pc'⟩)) p v ↔ Busy procs p v := by
  rw [busy_update]
  by_cases hpp : p = pid
  · subst hpp
    simp [Busy, hp, hsame]
  · simp [hpp]

/-- A sleeping eviction and what it may rely on. -/
theorem PagingInv.eviction_ok (h : PagingInv cm swap procs q) {proc : Proc} {ev : Eviction}
    (hproc : procs pid = some proc) (he : proc.pc.eviction = some ev) :
    ∃ as c b, proc = ⟨some as, .evicting c ev b⟩ ∧ PcOk cm swap q pid as (.evicting c ev b) := by
  obtain ⟨-, as, has, -⟩ := h.live pid proc hproc
  obtain ⟨as₀, pc⟩ := proc
  cases has
  cases pc with
  | evicting c ev' b =>
    cases he
    exact ⟨as, c, b, rfl, h.pc_ok pid as _ hproc⟩
  | _ => cases he

/-- A process changes its position, and perhaps sets load flags, without touching the page table
    or the swap map. A load it finishes has set the flag of its page and left no slot behind; a
    load it begins is of a page that is not resident. -/
theorem PagingInv.move (h : PagingInv cm swap procs q) (hp : procs pid = some ⟨some as, pc⟩)
    (hbin : as'.Binary) (hgrow : ∀ v, as.LoadedAt v → as'.LoadedAt v)
    (hok : PcOk cm swap q pid as' pc')
    (hev : pc'.eviction = pc.eviction)
    (hbegin : ∀ v, pc'.Loads v → pc.Loads v ∨ ∀ g, ¬ cm.Maps pid v g)
    (hend : ∀ v, pc.Loads v → ¬ pc'.Loads v → as'.LoadedAt v ∧ ∀ k, ¬ swap.Holds pid v k) :
    PagingInv cm swap (update procs pid (some ⟨some as', pc'⟩)) q where
  table := h.table
  bounded := h.bounded
  slot_unique := h.slot_unique
  live := h.live_update hp hbin
  res_loaded p v f hm := by
    rcases h.res_loaded p v f hm with hl | ⟨proc, heq, hl⟩
    · exact .inl (hl.grow hp hgrow)
    · rw [loaded_update, busy_update]
      by_cases hpp : p = pid
      · subst hpp
        rw [hp] at heq
        cases heq
        by_cases hl' : pc'.Loads v
        · exact .inr (.inl ⟨rfl, hl'⟩)
        · exact .inl (.inl ⟨rfl, (hend v hl hl').1⟩)
      · exact .inr (.inr ⟨hpp, proc, heq, hl⟩)
  key_loaded p v k hk := (h.key_loaded p v k hk).grow hp hgrow
  res_key p v f k hm hk := by
    rw [underEviction_update, busy_update]
    rcases h.res_key p v f k hm hk with ⟨pid', proc, ev, heq, he, h1, h2⟩ | ⟨proc, heq, hl⟩
    · by_cases hpp : pid' = pid
      · subst hpp
        rw [hp] at heq
        cases heq
        exact .inl (.inl ⟨ev, hev.trans he, h1, h2⟩)
      · exact .inl (.inr ⟨pid', proc, ev, hpp, heq, he, h1, h2⟩)
    · by_cases hpp : p = pid
      · subst hpp
        rw [hp] at heq
        cases heq
        by_cases hl' : pc'.Loads v
        · exact .inr (.inl ⟨rfl, hl'⟩)
        · exact absurd hk ((hend v hl hl').2 k)
      · exact .inr (.inr ⟨hpp, proc, heq, hl⟩)
  pc_ok p as₀ pc₀ hproc := by
    rcases update_cases hproc with ⟨rfl, heq⟩ | ⟨-, hproc⟩
    · cases heq
      exact hok
    · exact h.pc_ok p as₀ pc₀ hproc
  not_busy pid' proc ev hproc he := by
    rw [busy_update]
    -- the victim is resident, so a load that begins is of another page
    have hold : ∃ proc', procs pid' = some proc' ∧ proc'.pc.eviction = some ev := by
      rcases update_cases hproc with ⟨rfl, rfl⟩ | ⟨-, hproc⟩
      · exact ⟨_, hp, hev ▸ he⟩
      · exact ⟨proc, hproc, he⟩
    obtain ⟨proc', hproc', he'⟩ := hold
    have hnb := h.not_busy pid' proc' ev hproc' he'
    rintro (⟨hpid, hl⟩ | ⟨-, hb⟩)
    · rcases hbegin ev.vaddr hl with hl' | hno
      · exact hnb ⟨_, hpid ▸ hp, hl'⟩
      · obtain ⟨as₁, c, b, -, -, -, -, hm, -⟩ := h.eviction_ok hproc' he'
        exact hno ev.ind (hpid ▸ hm)
    · exact hnb hb
  evict_unique p₁ p₂ proc₁ proc₂ h₁ h₂ e₁ e₂ := by
    have hold : ∀ {p' proc'}, update procs pid (some ⟨some as', pc'⟩) p' = some proc' →
        proc'.pc.eviction ≠ none →
          ∃ proc'', procs p' = some proc'' ∧ proc''.pc.eviction ≠ none := by
      intro p' proc' hproc he
      rcases update_cases hproc with ⟨rfl, rfl⟩ | ⟨-, hproc⟩
      · exact ⟨_, hp, hev ▸ he⟩
      · exact ⟨proc', hproc, he⟩
    obtain ⟨q₁, hq₁, he₁⟩ := hold h₁ e₁
    obtain ⟨q₂, hq₂, he₂⟩ := hold h₂ e₂
    exact h.evict_unique p₁ p₂ q₁ q₂ hq₁ hq₂ he₁ he₂

/-- An eviction begins: the head of the queue gets a slot. -/
theorem PagingInv.claim {c : FaultCtx} {f slot : Nat} {w : VAddr} (h : PagingInv cm swap procs q)
    (hp : procs pid = some ⟨some as, .user⟩) (hloc : as.locate c.fa = some c)
    (hfresh : ∀ g, ¬ cm.Maps pid c.fa g) (hhead : q.head? = some f) (hm : cm.Maps p w f)
    (hclaim : swap.claimSlot p w = some (swap', slot))
    (halone : ∀ pid proc, procs pid = some proc → proc.pc.eviction = none)
    (hnb : ¬ Busy procs p w) :
    PagingInv cm swap' (update procs pid
      (some ⟨some as, .evicting c ⟨f, p, w, f * PAGE_SIZE, slot⟩ false⟩)) q := by
  have hpos : 0 < p := hm.pid_pos
  obtain ⟨hlt, hfree, hiff, -⟩ := claimSlot_spec hclaim hpos
  have hnokey : ∀ k, ¬ swap.Holds p w k := by
    intro k hk
    rcases h.res_key p w f k hm hk with ⟨pid', proc, ev, hproc, he, -⟩ | hb
    · rw [halone pid' proc hproc] at he
      cases he
    · exact hnb hb
  have hbusy : ∀ {p' v}, Busy (update procs pid (some ⟨some as,
      .evicting c ⟨f, p, w, f * PAGE_SIZE, slot⟩ false⟩)) p' v ↔ Busy procs p' v :=
    busy_update_same hp fun v => iff_of_false Pc.not_loads_evicting Pc.not_loads_user
  refine ⟨h.table, claimSlot_bounded hclaim hpos h.bounded, ?_, h.live_update hp (h.binary hp), ?_,
    ?_, ?_, ?_, ?_, ?_⟩
  · intro p' v k k' h1 h2
    rcases (hiff p' v k).1 h1 with h1 | ⟨rfl, rfl, rfl⟩ <;>
      rcases (hiff _ _ k').1 h2 with h2 | ⟨rfl, h2, h3⟩
    · exact h.slot_unique p' v k k' h1 h2
    · subst h2 h3
      exact absurd h1 (hnokey k)
    · exact absurd h2 (hnokey k')
    · rfl
  · intro p' v g hm'
    exact (h.res_loaded p' v g hm').imp (·.grow hp fun _ => id) hbusy.2
  · intro p' v k hk
    rcases (hiff p' v k).1 hk with hk | ⟨-, rfl, rfl⟩
    · exact (h.key_loaded p' v k hk).grow hp fun _ => id
    · exact ((h.res_loaded p' v f hm).resolve_right hnb).grow hp fun _ => id
  · intro p' v g k hm' hk
    rcases (hiff p' v k).1 hk with hk | ⟨-, rfl, rfl⟩
    · rcases h.res_key p' v g k hm' hk with ⟨pid', proc, ev, hproc, he, -⟩ | hb
      · rw [halone pid' proc hproc] at he
        cases he
      · exact .inr (hbusy.2 hb)
    · exact .inl (underEviction_update.2 (.inl ⟨_, rfl, rfl, rfl⟩))
  · intro p' as₀ pc₀ hproc
    rcases update_cases hproc with ⟨rfl, heq⟩ | ⟨-, hold⟩
    · cases heq
      exact ⟨hloc, hfresh, hhead, hm, rfl, (hiff p w slot).2 (.inr ⟨rfl, rfl, rfl⟩)⟩
    · refine (h.pc_ok p' as₀ pc₀ hold).transport (fun _ _ _ _ hm => hm) ?_ ?_
      · rintro c' ev b rfl
        exact absurd (halone p' _ hold) (by simp [Pc.eviction])
      · intro c' r hl k
        rw [hiff]
        refine ⟨fun hk => hk.resolve_right ?_, .inl⟩
        rintro ⟨-, rfl, hw⟩
        exact hnb ⟨_, hold, c', r, hl, hw⟩
  · intro pid' proc ev hproc he
    rw [hbusy]
    rcases update_cases hproc with ⟨-, rfl⟩ | ⟨-, hproc⟩
    · cases he
      exact hnb
    · rw [halone pid' proc hproc] at he
      cases he
  · intro p₁ p₂ proc₁ proc₂ h₁ h₂ e₁ e₂
    rcases update_cases h₁ with ⟨rfl, -⟩ | ⟨-, h₁⟩
    · rcases update_cases h₂ with ⟨rfl, -⟩ | ⟨-, h₂⟩
      · rfl
      · exact absurd (halone p₂ _ h₂) e₂
    · exact absurd (halone p₁ _ h₁) e₁

/-- Frame `i` is granted to a page that is not resident. What was in `i` before leaves the table:
    nothing (the frame was free) or the page the process itself was evicting. -/
theorem PagingInv.grant {c : FaultCtx} {i : Nat} (h : PagingInv cm swap procs q)
    (hp : procs pid = some ⟨some as, pc⟩) (hnl : ∀ v, ¬ pc.Loads v)
    (hloc : as.locate c.fa = some c) (hfresh : ∀ g, ¬ cm.Maps pid c.fa g)
    (ht : TableInv cm' q')
    (hmaps : ∀ p w g, cm'.Maps p w g ↔ (g ≠ i ∧ cm.Maps p w g) ∨ (g = i ∧ p = pid ∧ w = c.fa))
    (hold : ∀ p w, cm.Maps p w i → ¬ Busy procs p w)
    (hown : ∀ ev, pc.eviction = some ev → ev.ind = i)
    (hothers : ∀ pid' proc ev, pid' ≠ pid → procs pid' = some proc →
      proc.pc.eviction = some ev → ev.ind ≠ i ∧ q'.head? = some ev.ind) :
    PagingInv cm' swap
      (update procs pid (some ⟨some as, .granted c (i * PAGE_SIZE)⟩)) q' := by
  have hnew : cm'.Maps pid c.fa i := (hmaps pid c.fa i).2 (.inr ⟨rfl, rfl, rfl⟩)
  have hloads : ∀ v, (Pc.granted c (i * PAGE_SIZE)).Loads v ↔ c.fa = v :=
    fun v => Pc.loads_of_loading rfl
  have hbusy : ∀ {p v}, Busy procs p v → p ≠ pid := by
    rintro p v ⟨proc, hproc, hl⟩ rfl
    rw [hp] at hproc
    cases hproc
    exact hnl v hl
  refine ⟨ht, h.bounded, h.slot_unique, h.live_update hp (h.binary hp), ?_, ?_, ?_, ?_, ?_, ?_⟩
  · intro p v g hm
    rcases (hmaps p v g).1 hm with ⟨-, hm⟩ | ⟨-, rfl, rfl⟩
    · rcases h.res_loaded p v g hm with hl | hb
      · exact .inl (hl.grow hp fun _ => id)
      · exact .inr (busy_update.2 (.inr ⟨hbusy hb, hb⟩))
    · exact .inr (busy_update.2 (.inl ⟨rfl, (hloads _).2 rfl⟩))
  · intro p v k hk
    exact (h.key_loaded p v k hk).grow hp fun _ => id
  · intro p v g k hm hk
    rw [underEviction_update, busy_update]
    rcases (hmaps p v g).1 hm with ⟨hg, hm⟩ | ⟨-, rfl, rfl⟩
    · rcases h.res_key p v g k hm hk with ⟨pid', proc, ev, hproc, he, rfl, rfl⟩ | hb
      · by_cases hpp : pid' = pid
        · -- the victim of `pid` itself was in frame `i`
          subst hpp
          obtain ⟨_, _, _, -, -, -, -, hmi, -⟩ := h.eviction_ok hproc he
          rw [hp] at hproc
          cases hproc
          rw [hown ev he] at hmi
          exact absurd (h.table.rep.maps_unique hm hmi) hg
        · exact .inl (.inr ⟨pid', proc, ev, hpp, hproc, he, rfl, rfl⟩)
      · exact .inr (.inr ⟨hbusy hb, hb⟩)
    · exact .inr (.inl ⟨rfl, (hloads _).2 rfl⟩)
  · intro p as₀ pc₀ hproc
    rcases update_cases hproc with ⟨rfl, heq⟩ | ⟨hpp, hproc'⟩
    · cases heq
      exact ⟨hloc, .inr ⟨i, rfl, hnew⟩⟩
    · refine (h.pc_ok p as₀ pc₀ hproc').transport ?_ ?_ (fun _ _ _ _ => Iff.rfl)
      · intro c' r f hl hm
        refine (hmaps p c'.fa f).2 (.inl ⟨?_, hm⟩)
        rintro rfl
        exact hold p c'.fa hm ⟨_, hproc', c', r, hl, rfl⟩
      · rintro c' ev b rfl
        obtain ⟨-, hno, -, hm, -, hk⟩ := h.pc_ok p as₀ _ hproc'
        obtain ⟨hne, hhead⟩ := hothers p _ ev hpp hproc' rfl
        refine ⟨fun g hg => ?_, hhead, (hmaps ..).2 (.inl ⟨hne, hm⟩), hk⟩
        rcases (hmaps p c'.fa g).1 hg with ⟨-, hg⟩ | ⟨-, hpid, -⟩
        · exact hno g hg
        · exact hpp hpid
  · intro pid' proc ev hproc he
    rcases update_cases hproc with ⟨-, rfl⟩ | ⟨-, hproc'⟩
    · cases he
    · obtain ⟨_, _, _, -, -, -, -, hm, -⟩ := h.eviction_ok hproc' he
      rw [busy_update]
      rintro (⟨hpid, hl⟩ | ⟨-, hb⟩)
      · rw [hloads] at hl
        exact hfresh ev.ind (by rw [hl, ← hpid]; exact hm)
      · exact h.not_busy pid' proc ev hproc' he hb
  · exact h.evict_unique_update rfl

/-- A free frame is granted. -/
theorem PagingInv.grantFree {c : FaultCtx} {i : Nat} (h : PagingInv cm swap procs q)
    (hp : procs pid = some ⟨some as, .user⟩) (hloc : as.locate c.fa = some c)
    (hfresh : ∀ g, ¬ cm.Maps pid c.fa g) (hi : cm.FreeFrame i) (ht : TableInv cm' (q ++ [i]))
    (hown : cm'.own = update cm.own i (pid, c.fa, 1)) (hs : SameShape cm cm') :
    PagingInv cm' swap
      (update procs pid (some ⟨some as, .granted c (i * PAGE_SIZE)⟩)) (q ++ [i]) := by
  have hmaps := maps_update_user hown hs.ptsize hi.1 (h.pid_pos hp)
  refine h.grant hp (fun _ => Pc.not_loads_user) hloc hfresh ht hmaps ?_ ?_ ?_
  · intro p w hm
    exact absurd hm.1 hi.2.1
  · intro ev he
    cases he
  · intro pid' proc ev _ hproc he
    obtain ⟨_, _, _, -, -, -, hhead, hm, -⟩ := h.eviction_ok hproc he
    refine ⟨fun heq => hi.2.1 (heq ▸ hm.1), ?_⟩
    rw [List.head?_append, hhead]
    rfl

/-- The frame of the victim is granted when its eviction ends. -/
theorem PagingInv.grantEvicted {c : FaultCtx} {ev : Eviction} {b : Bool}
    (h : PagingInv cm swap procs q) (hp : procs pid = some ⟨some as, .evicting c ev b⟩)
    (ht : TableInv cm' q') (hown : cm'.own = update cm.own ev.ind (pid, c.fa, 1))
    (hs : SameShape cm cm') :
    PagingInv cm' swap
      (update procs pid (some ⟨some as, .granted c (ev.ind * PAGE_SIZE)⟩)) q' := by
  obtain ⟨hloc, hfresh, -, hm, -, -⟩ := h.pc_ok pid as _ hp
  have hmaps := maps_update_user hown hs.ptsize hm.1.1 (h.pid_pos hp)
  refine h.grant hp (fun _ => Pc.not_loads_evicting) hloc hfresh ht hmaps ?_ ?_ ?_
  · intro p w hmi
    obtain ⟨rfl, rfl⟩ : p = ev.pid ∧ w = ev.vaddr :=
      ⟨hmi.2.1.symm.trans hm.2.1, hmi.2.2.symm.trans hm.2.2⟩
    exact h.not_busy pid _ ev hp rfl
  · intro ev' he
    cases he
    rfl
  · intro pid' proc ev' hpp hproc he
    exact absurd
      (h.evict_unique pid' pid _ _ hproc hp (by rw [he]; simp) (by simp [Pc.eviction])) hpp

/-- The same slot cannot hold two pages. -/
theorem Swapfile.Holds.key_eq {p' : Int} {v' : VAddr} {k : Nat} (h : swap.Holds p v k)
    (h' : swap.Holds p' v' k) : p = p' ∧ v = v' :=
  ⟨h.2.2.1.symm.trans h'.2.2.1, h.2.2.2.symm.trans h'.2.2.2⟩

/-- A swap-in ends: its slot is released. -/
theorem PagingInv.release {c : FaultCtx} {r slot : Nat} (h : PagingInv cm swap procs q)
    (hp : procs pid = some ⟨some as, .swapRead c r slot⟩) :
    PagingInv cm (swap.releaseSlot slot)
      (update procs pid (some ⟨some as, .user⟩)) q := by
  obtain ⟨hloc, -, hk⟩ := h.pc_ok pid as _ hp
  have hiff := holds_releaseSlot swap slot
  have hloads : ∀ v, (Pc.swapRead c r slot).Loads v ↔ c.fa = v := fun v => Pc.loads_of_loading rfl
  have hmine : ∀ {p v}, Busy procs p v → ¬ (p = pid ∧ c.fa = v) → p ≠ pid := by
    rintro p v ⟨proc, hproc, hl⟩ hne rfl
    rw [hp] at hproc
    cases hproc
    exact hne ⟨rfl, (hloads v).1 hl⟩
  refine ⟨h.table, h.bounded.releaseSlot slot, ?_, h.live_update hp (h.binary hp), ?_, ?_, ?_, ?_,
    ?_, ?_⟩
  · intro p v k k' h1 h2
    exact h.slot_unique p v k k' ((hiff ..).1 h1).1 ((hiff ..).1 h2).1
  · intro p v f hm
    rcases h.res_loaded p v f hm with hl | hb
    · exact .inl (hl.grow hp fun _ => id)
    · by_cases hmy : p = pid ∧ c.fa = v
      · obtain ⟨rfl, rfl⟩ := hmy
        exact .inl ((h.key_loaded _ _ _ hk).grow hp fun _ => id)
      · exact .inr (busy_update.2 (.inr ⟨hmine hb hmy, hb⟩))
  · intro p v k hk'
    exact (h.key_loaded p v k ((hiff ..).1 hk').1).grow hp fun _ => id
  · intro p v f k hm hk'
    obtain ⟨hk₁, hne⟩ := (hiff ..).1 hk'
    rw [underEviction_update, busy_update]
    rcases h.res_key p v f k hm hk₁ with ⟨pid', proc, ev, hproc, he, h1, h2⟩ | hb
    · by_cases hpp : pid' = pid
      · subst hpp
        rw [hp] at hproc
        cases hproc
        cases he
      · exact .inl (.inr ⟨pid', proc, ev, hpp, hproc, he, h1, h2⟩)
    · by_cases hmy : p = pid ∧ c.fa = v
      · obtain ⟨rfl, rfl⟩ := hmy
        exact absurd (h.slot_unique _ _ _ _ hk₁ hk) hne
      · exact .inr (.inr ⟨hmine hb hmy, hb⟩)
  · intro p as₀ pc₀ hproc
    rcases update_cases hproc with ⟨-, heq⟩ | ⟨hpp, hproc'⟩
    · cases heq
      trivial
    · refine (h.pc_ok p as₀ pc₀ hproc').transport (fun _ _ _ _ hm => hm) ?_ ?_
      · rintro c' ev b rfl
        obtain ⟨-, hno, hhead, hm, -, hk'⟩ := h.pc_ok p as₀ _ hproc'
        refine ⟨hno, hhead, hm, (hiff ..).2 ⟨hk', ?_⟩⟩
        -- the victim's slot is another one: the victim is not being loaded
        intro heq
        rw [heq] at hk'
        obtain ⟨h1, h2⟩ := hk'.key_eq hk
        exact h.not_busy p _ ev hproc' rfl (h1 ▸ ⟨_, hp, (hloads _).2 h2.symm⟩)
      · intro c' r' _ k
        rw [hiff]
        refine ⟨And.left, fun hk' => ⟨hk', ?_⟩⟩
        rintro rfl
        exact hpp (hk'.key_eq hk).1
  · intro pid' proc ev hproc he
    rcases update_cases hproc with ⟨-, rfl⟩ | ⟨-, hproc'⟩
    · cases he
    · rw [busy_update]
      rintro (⟨-, hl⟩ | ⟨-, hb⟩)
      · exact Pc.not_loads_user hl
      · exact h.not_busy pid' proc ev hproc' he hb
  · exact h.evict_unique_update rfl

/-- A dead process is reaped while none of its pages is being evicted. -/
theorem PagingInv.reap (h : PagingInv cm swap procs q) (hp : procs pid = some ⟨some as, .zombie⟩)
    (hkept : ∀ pid' proc ev, procs pid' = some proc → proc.pc.eviction = some ev → ev.pid ≠ pid)
    (ht : TableInv cm' q') (hb : swap'.Bounded)
    (hmaps : ∀ p v f, cm'.Maps p v f ↔ cm.Maps p v f ∧ p ≠ pid)
    (hkeys : ∀ p v k, swap'.Holds p v k ↔ swap.Holds p v k ∧ p ≠ pid)
    (hhead : ∀ f, q.head? = some f → (cm.own f).1 ≠ pid → q'.head? = some f) :
    PagingInv cm' swap' (update procs pid none) q' := by
  have hkeep : ∀ {p proc}, p ≠ pid → procs p = some proc →
      update procs pid none p = some proc := by
    intro p proc hpp hproc
    rw [update_of_ne hpp]
    exact hproc
  have hloaded : ∀ {p v}, p ≠ pid → Loaded procs p v →
      Loaded (update procs pid none) p v := by
    rintro p v hpp ⟨as₀, pc₀, hproc, hl⟩
    exact ⟨as₀, pc₀, hkeep hpp hproc, hl⟩
  have hbusy : ∀ {p v}, p ≠ pid → Busy procs p v → Busy (update procs pid none) p v := by
    rintro p v hpp ⟨proc, hproc, hl⟩
    exact ⟨proc, hkeep hpp hproc, hl⟩
  refine ⟨ht, hb, ?_, ?_, ?_, ?_, ?_, ?_, ?_, ?_⟩
  · intro p v k k' h1 h2
    exact h.slot_unique p v k k' ((hkeys ..).1 h1).1 ((hkeys ..).1 h2).1
  · intro p proc hproc
    exact h.live p proc (update_none_cases hproc).2
  · intro p v f hm
    obtain ⟨hm, hpp⟩ := (hmaps ..).1 hm
    exact (h.res_loaded p v f hm).imp (hloaded hpp) (hbusy hpp)
  · intro p v k hk
    obtain ⟨hk, hpp⟩ := (hkeys ..).1 hk
    exact hloaded hpp (h.key_loaded p v k hk)
  · intro p v f k hm hk
    obtain ⟨hm, hpp⟩ := (hmaps ..).1 hm
    rcases h.res_key p v f k hm ((hkeys ..).1 hk).1 with ⟨pid', proc, ev, hproc, he, h1, h2⟩ | hb
    · have hpp' : pid' ≠ pid := by
        rintro rfl
        rw [hp] at hproc
        cases hproc
        cases he
      exact .inl ⟨pid', proc, ev, hkeep hpp' hproc, he, h1, h2⟩
    · exact .inr (hbusy hpp hb)
  · intro p as₀ pc₀ hproc
    obtain ⟨hpp, hproc⟩ := update_none_cases hproc
    refine (h.pc_ok p as₀ pc₀ hproc).transport (fun c r f _ hm => (hmaps ..).2 ⟨hm, hpp⟩) ?_ ?_
    · rintro c ev b rfl
      obtain ⟨-, hno, hh, hm, -, hk⟩ := h.pc_ok p as₀ _ hproc
      have hne : ev.pid ≠ pid := hkept p _ ev hproc rfl
      refine ⟨fun g hg => hno g ((hmaps ..).1 hg).1, hhead _ hh ?_, (hmaps ..).2 ⟨hm, hne⟩,
        (hkeys ..).2 ⟨hk, hne⟩⟩
      rw [hm.2.1]
      exact hne
    · intro c r _ k
      rw [hkeys]
      exact ⟨And.left, fun hk => ⟨hk, hpp⟩⟩
  · rintro pid' proc ev hproc he ⟨proc', hproc', hl⟩
    exact h.not_busy pid' proc ev (update_none_cases hproc).2 he
      ⟨proc', (update_none_cases hproc').2, hl⟩
  · intro p₁ p₂ proc₁ proc₂ h₁ h₂ e₁ e₂
    exact h.evict_unique p₁ p₂ _ _ (update_none_cases h₁).2 (update_none_cases h₂).2 e₁ e₂

/-- A process is created under a pid that is not in use. -/
theorem PagingInv.newProc (h : PagingInv cm swap procs q) (hp : procs pid = none) (hpos : 0 < pid)
    (hbin : as.Binary) :
    PagingInv cm swap (update procs pid (some ⟨some as, .user⟩)) q := by
  have hne : ∀ {p proc}, procs p = some proc → p ≠ pid := by
    rintro p proc hproc rfl
    rw [hp] at hproc
    cases hproc
  have hkeep : ∀ {p proc}, procs p = some proc →
      update procs pid (some ⟨some as, .user⟩) p = some proc := by
    intro p proc hproc
    rw [update_of_ne (hne hproc)]
    exact hproc
  have hloaded : ∀ {p v}, Loaded procs p v →
      Loaded (update procs pid (some ⟨some as, .user⟩)) p v := by
    rintro p v ⟨as₀, pc₀, hproc, hl⟩
    exact ⟨as₀, pc₀, hkeep hproc, hl⟩
  have hbusy : ∀ {p v}, Busy procs p v →
      Busy (update procs pid (some ⟨some as, .user⟩)) p v := by
    rintro p v ⟨proc, hproc, hl⟩
    exact ⟨proc, hkeep hproc, hl⟩
  refine ⟨h.table, h.bounded, h.slot_unique, ?_, ?_, ?_, ?_, ?_, ?_, ?_⟩
  · intro p proc hproc
    rcases update_cases hproc with ⟨rfl, rfl⟩ | ⟨-, hproc⟩
    · exact ⟨hpos, as, rfl, hbin⟩
    · exact h.live p proc hproc
  · intro p v f hm
    exact (h.res_loaded p v f hm).imp hloaded hbusy
  · intro p v k hk
    exact hloaded (h.key_loaded p v k hk)
  · intro p v f k hm hk
    rcases h.res_key p v f k hm hk with ⟨pid', proc, ev, hproc, he, h1, h2⟩ | hb
    · exact .inl ⟨pid', proc, ev, hkeep hproc, he, h1, h2⟩
    · exact .inr (hbusy hb)
  · intro p as₀ pc₀ hproc
    rcases update_cases hproc with ⟨-, heq⟩ | ⟨-, hproc⟩
    · cases heq
      trivial
    · exact h.pc_ok p as₀ pc₀ hproc
  · intro pid' proc ev hproc he
    rcases update_cases hproc with ⟨-, rfl⟩ | ⟨-, hproc⟩
    · cases he
    · rw [busy_update]
      rintro (⟨-, hl⟩ | ⟨-, hb⟩)
      · exact Pc.not_loads_user hl
      · exact h.not_busy pid' proc ev hproc he hb
  · exact h.evict_unique_update rfl

end DemandPaging
