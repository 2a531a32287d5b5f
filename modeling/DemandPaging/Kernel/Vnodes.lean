import DemandPaging.Kernel.Effects
import DemandPaging.Lib.Count
import DemandPaging.Fault.ElfImage

set_option autoImplicit false

/-! # References to the executable

`runprogram` leaves the executable open, for the faults to come, and `as_destroy` closes it. So each
address space should own one reference. That is so as long as no address space is copied and no load
fails half-way: `as_copy` hands out the vnode without taking a reference, and a `load_elf` that
fails is followed by a `vfs_close` although the segments defined so far still point to the vnode. -/

namespace DemandPaging

open Function (update update_self update_of_ne update_apply)

/-! ## Who uses a vnode -/

/-- A segment of the address space points to vnode `v`. -/
def AddrSpace.Uses (as : AddrSpace) (v : Nat) : Prop :=
  as.seg1.bind Segment.elfdata = some v ∨ as.seg2.bind Segment.elfdata = some v ∨
    as.segstack.bind Segment.elfdata = some v

instance (as : AddrSpace) (v : Nat) : Decidable (as.Uses v) := inferInstanceAs (Decidable (_ ∨ _))

namespace Kernel

/-- Process `p` has an address space that points to vnode `v`. -/
def Uses (k : Kernel) (v p : Nat) : Prop :=
  ((k.procs p).bind ProcStruct.p_addrspace).any (fun as => decide (as.Uses v)) = true

instance (k : Kernel) (v p : Nat) : Decidable (k.Uses v p) := inferInstanceAs (Decidable (_ = _))

/-- The number of live address spaces that point to vnode `v`. -/
def users (k : Kernel) (v : Nat) : Nat := ((Finset.range (MAX_PROC + 1)).filter (k.Uses v)).card

end Kernel

/-- Operations that keep the references in balance. No address space is copied, and an executable is
    loaded (with at least one segment) or refused before its first segment. Files are not opened by
    hand. -/
def Balanced : KernelOp → Prop
  | .runprogram _ (some e) => e.space = true →
      (Loadable e.file e.env ∧ loadHeaders e.file ≠ []) ∨ FailsEarly e.file e.env
  | .sysFork _ point => point = .procCreate ∨ point = .asCopy
  | .sysOpen _ _ => False
  | .sysClose _ _ => False
  | _ => True

def BalancedStep (k : Kernel) (op : KernelOp) (k' : Kernel) : Prop :=
  KernelStep k op k' ∧ Balanced op

variable {k k' : Kernel} {op : KernelOp} {p v : Nat} {pr : ProcStruct} {as : AddrSpace}

theorem Kernel.uses_some (hp : k.procs p = some pr) (has : pr.p_addrspace = some as) :
    k.Uses v p ↔ as.Uses v := by
  simp [Kernel.Uses, hp, has]

theorem Kernel.not_uses_none (h : (k.procs p).bind ProcStruct.p_addrspace = none) :
    ¬ k.Uses v p := by
  simp [Kernel.Uses, h]

/-- Only the address spaces matter. -/
theorem Kernel.uses_congr (h : (k'.procs p).bind ProcStruct.p_addrspace =
    (k.procs p).bind ProcStruct.p_addrspace) : k'.Uses v p ↔ k.Uses v p := by
  simp [Kernel.Uses, h]

theorem users_congr (h : ∀ p, (k'.procs p).bind ProcStruct.p_addrspace =
    (k.procs p).bind ProcStruct.p_addrspace) : k'.users v = k.users v := by
  unfold Kernel.users
  congr 1
  exact Finset.filter_congr fun p _ => Kernel.uses_congr (h p)

/-- Two kernels that differ in the address space of one process. -/
theorem users_change (hle : p ≤ MAX_PROC) (h : ∀ i, i ≠ p → k'.procs i = k.procs i) :
    k'.users v + (if k.Uses v p then 1 else 0) = k.users v + if k'.Uses v p then 1 else 0 := by
  refine card_filter_change (k.Uses v) (k'.Uses v) (Finset.mem_range.2 (by omega)) fun i _ hi => ?_
  exact Kernel.uses_congr (by rw [h i hi])

/-! ## The segments of one file -/

/-- All segments come from the file of the first one. -/
def AddrSpace.OneFile (as : AddrSpace) : Prop :=
  ∀ v, as.Uses v → as.seg1.bind Segment.elfdata = some v

theorem filled_uses {vnode : Nat} {phs : List Phdr} :
    (filled (phs.map (·.segment vnode))).Uses v ↔ phs ≠ [] ∧ vnode = v := by
  rcases phs with _ | ⟨ph, _ | ⟨ph', phs⟩⟩ <;>
    simp [AddrSpace.Uses, filled, Phdr.segment, segdef]

theorem filled_oneFile {vnode : Nat} {phs : List Phdr} :
    (filled (phs.map (·.segment vnode))).OneFile := by
  intro v hv
  obtain ⟨hne, rfl⟩ := filled_uses.1 hv
  obtain ⟨ph, rest, rfl⟩ := List.exists_cons_of_ne_nil hne
  simp [filled, Phdr.segment, segdef]

/-- The stack has no file. -/
theorem asDefineStack_uses (h : as.segstack = none) : (asDefineStack as).1.Uses v ↔ as.Uses v := by
  simp [AddrSpace.Uses, asDefineStack, segdef, h]

/-! ## One step -/

/-- Every address space owns one reference to its executable, and there are no others. -/
structure VnodeInv (k : Kernel) : Prop where
  slots : SlotInv k
  oneFile : ∀ p pr as, k.procs p = some pr → pr.p_addrspace = some as → as.OneFile
  count : ∀ v, k.vnodes v = k.users v

theorem bind_eq_some {p : Nat} : (k.procs p).bind ProcStruct.p_addrspace = some as ↔
    ∃ pr, k.procs p = some pr ∧ pr.p_addrspace = some as := Option.bind_eq_some_iff

/-- Nothing happens to address spaces and vnodes. -/
theorem VnodeInv.congr (h : VnodeInv k) (hslots : SlotInv k') (hvnodes : k'.vnodes = k.vnodes)
    (hspace : ∀ p, (k'.procs p).bind ProcStruct.p_addrspace =
      (k.procs p).bind ProcStruct.p_addrspace) : VnodeInv k' where
  slots := hslots
  oneFile := by
    intro p pr as hp has
    have hold := (hspace p).symm.trans (bind_eq_some.2 ⟨pr, hp, has⟩)
    obtain ⟨pr₀, hp₀, has₀⟩ := bind_eq_some.1 hold
    exact h.oneFile p pr₀ as hp₀ has₀
  count := fun v => by rw [hvnodes, h.count v, users_congr hspace]

/-- The structure of a process changes, but not its address space. -/
theorem space_update {procs : Nat → Option ProcStruct} {pr' : ProcStruct} (hp : procs p = some pr)
    (h : pr'.p_addrspace = pr.p_addrspace) (i : Nat) :
    (update procs p (some pr') i).bind ProcStruct.p_addrspace =
      (procs i).bind ProcStruct.p_addrspace := by
  by_cases hi : i = p
  · rw [hi, update_self, hp]
    exact h
  · rw [update_of_ne hi]

/-- A process gets an address space, with a reference if it has segments. -/
theorem VnodeInv.give {pr' : ProcStruct} (h : VnodeInv k) (hslots : SlotInv k')
    (hp : k.procs p = some pr) (hnone : pr.p_addrspace = none)
    (hprocs : k'.procs = update k.procs p (some pr'))
    (has : pr'.p_addrspace = some as) (hone : as.OneFile)
    (hvnodes : ∀ v, k'.vnodes v = k.vnodes v + if as.Uses v then 1 else 0) : VnodeInv k' where
  slots := hslots
  oneFile := by
    intro i pr₁ as₁ hi has₁
    rw [hprocs] at hi
    by_cases hip : i = p
    · rw [hip, update_self] at hi
      obtain rfl := Option.some.inj hi
      obtain rfl := Option.some.inj (has.symm.trans has₁)
      exact hone
    · rw [update_of_ne hip] at hi
      exact h.oneFile i pr₁ as₁ hi has₁
  count := by
    intro v
    have hpr' : k'.procs p = some pr' := by rw [hprocs, update_self]
    have hbefore : ¬ k.Uses v p := Kernel.not_uses_none (by rw [hp]; exact hnone)
    have hafter : k'.Uses v p ↔ as.Uses v := Kernel.uses_some hpr' has
    have hchange : k'.users v + (if k.Uses v p then 1 else 0) =
        k.users v + if k'.Uses v p then 1 else 0 :=
      users_change (h.slots.range p pr hp).2 fun i hi => by rw [hprocs, update_of_ne hi]
    rw [if_neg hbefore] at hchange
    simp only [hafter] at hchange
    rw [hvnodes, h.count]
    omega

/-- `as_destroy` gives back the reference of an address space. -/
theorem asDestroy_count {vnodes vnodes' : Nat → Nat} (hone : as.OneFile)
    (h : Kernel.asDestroy as vnodes = .ok vnodes') (v : Nat) :
    vnodes' v + (if as.Uses v then 1 else 0) = vnodes v := by
  unfold Kernel.asDestroy at h
  cases hs1 : as.seg1 with
  | none => simp [hs1] at h
  | some s1 =>
    cases hs2 : as.seg2 with
    | none => simp [hs1, hs2] at h
    | some s2 =>
      cases hst : as.segstack with
      | none => simp [hs1, hs2, hst] at h
      | some st =>
        have huses : as.Uses v ↔ s1.elfdata = some v := by
          constructor
          · intro hu
            simpa [hs1] using hone v hu
          · intro he
            exact .inl (by simpa [hs1] using he)
        simp only [huses]
        simp only [hs1, hs2, hst] at h
        cases he : s1.elfdata with
        | none =>
          simp only [he, Except.ok.injEq] at h
          simp [h]
        | some w =>
          simp only [he, vfsClose_eq_ok] at h
          obtain ⟨hpos, rfl⟩ := h
          by_cases hw : w = v
          · subst hw
            rw [if_pos rfl, update_self]
            omega
          · have hvw : v ≠ w := fun heq => hw heq.symm
            rw [if_neg (by simpa using hw), update_of_ne hvw]
            rfl

/-- A process is destroyed, and its reference with it. -/
theorem VnodeInv.remove {vnodes : Nat → Nat} (h : VnodeInv k) (hslots : SlotInv k')
    (hp : k.procs p = some pr)
    (hdestroy : pr.p_addrspace.elim (.ok k.vnodes) (Kernel.asDestroy · k.vnodes) = .ok vnodes)
    (hvnodes : k'.vnodes = vnodes) (hprocs : k'.procs = update k.procs p none) :
    VnodeInv k' where
  slots := hslots
  oneFile := by
    intro i pr₁ as₁ hi has₁
    rw [hprocs] at hi
    by_cases hip : i = p
    · rw [hip, update_self] at hi
      cases hi
    · rw [update_of_ne hip] at hi
      exact h.oneFile i pr₁ as₁ hi has₁
  count := by
    intro v
    have hafter : ¬ k'.Uses v p :=
      Kernel.not_uses_none (by rw [hprocs, update_self]; rfl)
    have hchange : k'.users v + (if k.Uses v p then 1 else 0) =
        k.users v + if k'.Uses v p then 1 else 0 :=
      users_change (h.slots.range p pr hp).2 fun i hi => by rw [hprocs, update_of_ne hi]
    rw [if_neg hafter] at hchange
    have hcount := h.count v
    cases has : pr.p_addrspace with
    | none =>
      have hbefore : ¬ k.Uses v p := Kernel.not_uses_none (by rw [hp]; exact has)
      rw [if_neg hbefore] at hchange
      rw [has] at hdestroy
      rw [hvnodes, ← Except.ok.inj hdestroy]
      omega
    | some as =>
      rw [has] at hdestroy
      have hback := asDestroy_count (h.oneFile p pr as hp has) hdestroy v
      simp only [Kernel.uses_some hp has] at hchange
      rw [hvnodes]
      omega

theorem filled_eq_nil {vnode : Nat} {phs : List Phdr}
    (h : (filled (phs.map (·.segment vnode))).seg1 = none) : phs = [] := by
  cases phs with
  | nil => rfl
  | cons ph phs => simp [filled] at h

/-- A load that is refused early takes no reference and leaves none. -/
theorem refused_uses {vnode : Nat} {file : List UInt8} {env : LoadEnv} {err : Errno}
    (hload : loadElfLeaves file vnode env asCreate = (as, .error err))
    (hbal : (Loadable file env ∧ loadHeaders file ≠ []) ∨ FailsEarly file env) : ¬ as.Uses v := by
  rcases hbal with ⟨hok, -⟩ | hearly
  · obtain ⟨entry, hentry⟩ := hok.ok vnode
    rw [hload] at hentry
    cases hentry
  · obtain ⟨hseg, -⟩ := hearly.refused vnode
    obtain ⟨phs, hphs⟩ := loadElfLeaves_filled file vnode env
    rw [hload] at hseg hphs
    simp only at hseg hphs
    subst hphs
    rw [filled_uses, filled_eq_nil hseg]
    simp

/-- A load that succeeds makes the address space a user of its file. -/
theorem loaded_uses {vnode : Nat} {file : List UInt8} {env : LoadEnv} {entry : VAddr}
    (hload : loadElfLeaves file vnode env asCreate = (as, .ok entry))
    (hbal : (Loadable file env ∧ loadHeaders file ≠ []) ∨ FailsEarly file env) :
    as = filled ((loadHeaders file).map (·.segment vnode)) ∧ loadHeaders file ≠ [] := by
  rcases hbal with ⟨-, hne⟩ | hearly
  · have hok := loadElfLeaves_ok (by rw [hload])
    rw [hload] at hok
    exact ⟨(loadElf_segments hok).1, hne⟩
  · obtain ⟨-, e, he⟩ := hearly.refused vnode
    rw [hload] at he
    cases he

theorem VnodeInv.load {e : Kernel.Exe} {entry : VAddr} (h : VnodeInv k) (hslots : SlotInv k')
    (hp : k.procs p = some pr) (hnone : pr.p_addrspace = none)
    (hload : loadElfLeaves e.file e.vnode e.env asCreate = (as, .ok entry))
    (hbal : (Loadable e.file e.env ∧ loadHeaders e.file ≠ []) ∨ FailsEarly e.file e.env)
    (hk' : k' = { k.setProc p { pr with p_addrspace := some (asDefineStack as).1 } with
      vnodes := vfsOpen k.vnodes e.vnode }) : VnodeInv k' := by
  subst hk'
  obtain ⟨rfl, hne⟩ := loaded_uses hload hbal
  have huses : ∀ v,
      (asDefineStack (filled ((loadHeaders e.file).map (·.segment e.vnode)))).1.Uses v ↔
        e.vnode = v := by
    intro v
    rw [asDefineStack_uses rfl, filled_uses]
    exact and_iff_right hne
  refine h.give hslots hp hnone rfl rfl ?_ ?_
  · intro v hv
    exact filled_oneFile v ((asDefineStack_uses rfl).1 hv)
  · intro v
    simp only [huses, vfsOpen, update_apply]
    by_cases hv : v = e.vnode
    · simp [hv]
    · simp [hv, Ne.symm hv]

theorem balancedStep_inv (k : Kernel) (op : KernelOp) (k' : Kernel) (h : VnodeInv k)
    (hstep : BalancedStep k op k') : VnodeInv k' := by
  have heff := kernelStep_effect h.slots hstep.1
  have hslots := heff.slotInv h.slots
  have hbal := hstep.2
  cases heff with
  | same => exact h
  | scrap _ | waits _ _ => exact h.congr hslots rfl fun _ => rfl
  | @launch newp _ hnew _ =>
    refine h.congr hslots rfl fun i => ?_
    by_cases hi : i = newp
    · simp [hi, hnew.unused, Kernel.freshProc]
    · simp only [update_of_ne hi]
  | noSpace hp _ | exits hp _ | sleeps _ hp _ _ | takes _ hp _ _ =>
    exact h.congr hslots rfl (space_update hp rfl)
  | @loadFails p pr e as err hp hnone hspace hload =>
    have hunused : ∀ v, ¬ as.Uses v := fun v => refused_uses hload (hbal hspace)
    exact h.give hslots hp hnone rfl rfl (fun v hv => absurd hv (hunused v))
      fun v => by rw [if_neg (hunused v)]; rfl
  | loads hp hnone hspace hload => exact h.load hslots hp hnone hload (hbal hspace) rfl
  | opens _ _ _ | openFails _ _ _ | closes _ _ _ _ _ => exact hbal.elim
  | forks _ _ _ _ _ => rcases hbal with hpoint | hpoint <;> cases hpoint
  | forkFails _ hpoint _ _ _ _ =>
    rcases hpoint with rfl | rfl <;> rcases hbal with hpoint | hpoint <;> cases hpoint
  | reaps _ hp _ hdestroy _ _ _ => exact h.remove hslots hp hdestroy rfl rfl

theorem boot_vnodeInv : VnodeInv Kernel.boot where
  slots := boot_slotInv
  oneFile := by
    intro p pr as hp has
    by_cases hpk : p = KPROC
    · subst hpk
      obtain rfl := Option.some.inj hp
      cases has
    · simp [Kernel.boot, update_of_ne hpk] at hp
  count := by
    intro v
    have hnone : ∀ p, ¬ Kernel.boot.Uses v p := by
      intro p
      by_cases hpk : p = KPROC
      · simp [Kernel.Uses, Kernel.boot, hpk]
      · simp [Kernel.Uses, Kernel.boot, update_of_ne hpk]
    rw [Kernel.users, Finset.filter_false_of_mem fun p _ => hnone p]
    rfl

/-! ## Every run -/

theorem elfSource_uses {fa : VAddr} {src : Nat × Nat} (h : elfSource as fa = .ok src) :
    as.Uses src.1 := by
  unfold elfSource at h
  split at h
  · next s1 s2 st hs1 hs2 hst =>
    split at h
    · cases h
    · next s hs =>
      split at h
      · cases h
      · next vnode he =>
        obtain rfl := Except.ok.inj h
        have hseg : s = s1 ∨ s = s2 ∨ s = st := by
          unfold elfSegment at hs
          split_ifs at hs <;> simp_all
        rcases hseg with rfl | rfl | rfl
        · exact .inl (by rw [hs1]; exact he)
        · exact .inr (.inl (by rw [hs2]; exact he))
        · exact .inr (.inr (by rw [hst]; exact he))
  · cases h

theorem elfSource_not_freed {fa : VAddr} : elfSource as fa ≠ .error .useAfterFree := by
  intro h
  unfold elfSource at h
  split at h
  · split at h
    · cases h
    · split at h <;> cases h
  · cases h

/-- The reads of a fault find their vnode in memory. -/
theorem VnodeInv.read (h : VnodeInv k) (p : Nat) (fa : VAddr) :
    ¬ KernelStops k (.readfromelfto p fa) .useAfterFree := by
  rintro ⟨⟨-, huser⟩, hx⟩
  obtain ⟨pr, hp, hsome⟩ := (Option.any_eq_true _ _).1 huser
  obtain ⟨as, has⟩ := Option.isSome_iff_exists.1 hsome
  have hproc : k.proc p = .ok pr := Kernel.proc_eq_ok.2 hp
  simp only [Kernel.exec, Kernel.readfromelfto, hproc, bind, Except.bind, has] at hx
  cases hsrc : elfSource as fa with
  | error e =>
    rw [hsrc] at hx
    obtain rfl := Except.error.inj hx
    exact elfSource_not_freed hsrc
  | ok src =>
    simp only [hsrc] at hx
    have huse : k.Uses src.1 p := (Kernel.uses_some hp has).2 (elfSource_uses hsrc)
    have hle : p ≤ MAX_PROC := (h.slots.range p pr hp).2
    have hpos : 0 < k.users src.1 :=
      Finset.card_pos.2 ⟨p, Finset.mem_filter.2 ⟨Finset.mem_range.2 (by omega), huse⟩⟩
    rw [← h.count] at hpos
    rw [if_neg (by omega)] at hx
    cases hx

/-- In every run that keeps the references in balance, a vnode has one reference for each address
    space that points to it and no other, and no fault reads a vnode that is gone. -/
theorem balanced_vnodes_held (h : Reaches BalancedStep Kernel.boot k) :
    (∀ v, k.vnodes v = k.users v) ∧
      ∀ p fa, ¬ KernelStops k (.readfromelfto p fa) .useAfterFree := by
  have hinv := h.invariant balancedStep_inv boot_vnodeInv
  exact ⟨hinv.count, hinv.read⟩

/-- The small executable, as file 7. -/
def smallExe : Kernel.Exe := ⟨7, smallElf 4, true, ⟨3, 2⟩⟩

/-- The menu starts a program, which runs and ends; the process is still there. -/
def startAndExit : List KernelOp :=
  [.commonProg .done, .runprogram 2 (some smallExe), .readfromelfto 2 0x400000, .sysExit 2 0]

theorem smallExe_loadable :
    Loadable smallExe.file smallExe.env ∧ loadHeaders smallExe.file ≠ [] := by
  have hheaders := (smallSpace_spec 4 (.inr rfl)).2.1
  have hload : loadHeaders smallExe.file = [codeHeader 4, dataHeader] := hheaders
  refine ⟨⟨_, rfl, by decide +kernel, by decide +kernel, ?_, ?_, ?_⟩, ?_⟩
  · intro i hi
    obtain rfl | rfl : i = 0 ∨ i = 1 := by
      have : i < 2 := hi
      omega
    · exact .inr ⟨codeHeader 4, by decide +kernel, rfl⟩
    · exact .inr ⟨dataHeader, by decide +kernel, rfl⟩
  · rw [hload]; decide
  · rw [hload]; decide
  · rw [hload]; simp

theorem startAndExit_held : ∃ k, Reaches BalancedStep Kernel.boot k ∧ k.vnodes 7 = 1 ∧
    (∀ v, k.vnodes v = k.users v) ∧
      ∀ p fa, ¬ KernelStops k (.readfromelfto p fa) .useAfterFree := by
  have hbal : ∀ op ∈ startAndExit, Balanced op := by
    intro op hop
    simp only [startAndExit, List.mem_cons, List.not_mem_nil, or_false] at hop
    rcases hop with rfl | rfl | rfl | rfl
    · trivial
    · exact fun _ => .inl smallExe_loadable
    · trivial
    · trivial
  have hstep : ∀ k k' op, op ∈ startAndExit → Kernel.next k op = some k' → BalancedStep k op k' :=
    fun k k' op hop hnext => ⟨Kernel.next_step hnext, hbal op hop⟩
  have hreplay : (replay Kernel.next Kernel.boot startAndExit).map (fun k => k.vnodes 7 == 1) =
      some true := by decide +kernel
  obtain ⟨k, hreach, hone⟩ := exists_reaches_of_replay hstep hreplay
  exact ⟨k, hreach, by simpa using hone, balanced_vnodes_held hreach⟩

/-- The program forks, the child ends and is reaped, and the program goes on. -/
def forkAndReap : List KernelOp :=
  [.commonProg .done, .runprogram 2 (some smallExe), .sysFork 2 .done, .sysExit 3 0,
    .sysWaitpid 2 3, .semP 2, .procWait 2]

/-- The child takes the reference of its parent along. -/
theorem forked_vnode_reclaimed : ∃ k, Reaches KernelStep Kernel.boot k ∧ k.vnodes 7 = 0 ∧
    k.users 7 = 1 ∧ KernelStops k (.readfromelfto 2 0x500000) .useAfterFree := by
  have hreplay : (replay Kernel.next Kernel.boot forkAndReap).map (fun k =>
      k.vnodes 7 == 0 && (k.users 7 == 1 &&
        k.stops (.readfromelfto 2 0x500000) == some .useAfterFree)) = some true := by
    decide +kernel
  obtain ⟨k, hreach, hk⟩ := Kernel.reaches_of_replay hreplay
  simp only [Bool.and_eq_true, beq_iff_eq] at hk
  exact ⟨k, hreach, hk.1, hk.2.1, Kernel.stops_iff.1 hk.2.2⟩

end DemandPaging
