import DemandPaging.Fault.ElfImage
import DemandPaging.Fault.Regions
import DemandPaging.Kernel

set_option autoImplicit false

/-! # Running and tearing down what `load_elf` accepts

`vm_fault` asserts that an address space has three segments and that none is empty, and `as_destroy`
reads through all three. `load_elf` accepts a file with one segment or with none, it accepts
segments without a page, and a load that fails leaves an address space without a stack. Only for
files with two segments of at least one page does everything fit. -/

namespace DemandPaging

/-- The address space of a process whose program has been loaded, or not: `as_define_stack` comes
    after a load that succeeds. -/
def startSpace (file : List UInt8) (vnode : Nat) (env : LoadEnv) : AddrSpace :=
  match loadElfLeaves file vnode env asCreate with
  | (as, .ok _) => (asDefineStack as).1
  | (as, .error _) => as

/-- A call of `vm_fault`, in any state of the machine. -/
structure FaultCall where
  files : Nat → List UInt8
  vm : Vm
  pid : Int
  faulttype : FaultType
  faultaddress : VAddr

/-- The call returns and leaves the process this address space. -/
def FaultStep (as : AddrSpace) (call : FaultCall) (as' : AddrSpace) : Prop :=
  ∃ vm' r, vmFault call.files call.vm call.pid (some as) call.faulttype call.faultaddress
    = .ok (vm', some as', r)

/-- No fault, now or later, fails one of the assertions on the segments. -/
def NeverAsserts (as : AddrSpace) : Prop :=
  ∀ as', Reaches FaultStep as as' → ∀ ty addr, faultEntry (some as') ty addr ≠ .error .kassert

/-- Now and later, `as_destroy` reads through no missing segment. -/
def CanBeDestroyed (as : AddrSpace) : Prop :=
  ∀ as', Reaches FaultStep as as' → ∀ vnodes, Kernel.asDestroy as' vnodes ≠ .error .nullDeref

/-- What is accepted can be run, and what is left in any case can be torn down. -/
def RunsAndEnds (file : List UInt8) (vnode : Nat) (env : LoadEnv) : Prop :=
  ((∃ entry, (loadElfLeaves file vnode env asCreate).2 = .ok entry) →
    NeverAsserts (startSpace file vnode env)) ∧ CanBeDestroyed (startSpace file vnode env)

/-- The size of the region, as far as 32 bits go, is not 0, and can be rounded up to whole pages. -/
def Phdr.hasPage (ph : Phdr) : Prop :=
  ph.p_memsz + (ph.p_vaddr &&& ~~~PAGE_FRAME) ≠ 0 ∧
    ph.p_memsz + (ph.p_vaddr &&& ~~~PAGE_FRAME) ≤ 0xfffff000

instance (ph : Phdr) : Decidable ph.hasPage := inferInstanceAs (Decidable (_ ∧ _))

variable {file : List UInt8} {vnode : Nat} {eh : Ehdr} {env : LoadEnv} {as as' : AddrSpace}

/-! ## Faults keep the segments -/

/-- The assertions depend on the layout only, which no fault changes. -/
theorem reaches_checked (h : Reaches FaultStep as as') (hok : as.checked.isOk) :
    as'.checked.isOk := by
  refine h.invariant (P := fun as => as.checked.isOk) (fun as call as' hok hstep => ?_) hok
  obtain ⟨vm', r, hrun⟩ := hstep
  rcases vmFault_space hrun with rfl | ⟨c, -, rfl⟩
  · exact hok
  · rw [checked_setLoaded]
    exact hok

theorem faultEntry_kassert (h : ¬ as.checked.isOk) (addr : VAddr) :
    faultEntry (some as) .VM_FAULT_READ addr = .error .kassert := by
  rw [faultEntry_access (.inl rfl)]
  cases hc : as.checked with
  | ok segs =>
    rw [hc] at h
    exact absurd rfl h
  | error e =>
    unfold AddrSpace.checked at hc
    split at hc
    · split_ifs at hc
      cases hc
      rfl
    · cases hc
      rfl

theorem faultEntry_ne_kassert_iff (as : AddrSpace) :
    (∀ ty addr, faultEntry (some as) ty addr ≠ .error .kassert) ↔ as.checked.isOk := by
  constructor
  · intro h
    by_contra hno
    exact h .VM_FAULT_READ 0 (faultEntry_kassert hno 0)
  · intro hok ty addr
    cases hc : as.checked with
    | error e => rw [hc] at hok; cases hok
    | ok segs =>
      have haccess : ∀ ty, ty = .VM_FAULT_READ ∨ ty = .VM_FAULT_WRITE →
          faultEntry (some as) ty addr ≠ .error .kassert := by
        intro ty hty h
        rw [faultEntry_access hty, hc] at h
        cases hl : as.locate (pageOf addr) with
        | none => simp [hl] at h
        | some c => simp [hl] at h
      cases ty with
      | VM_FAULT_READ => exact haccess _ (.inl rfl)
      | VM_FAULT_WRITE => exact haccess _ (.inr rfl)
      | VM_FAULT_READONLY => intro h; cases h
      | other n => intro h; cases h

theorem asDestroy_nullDeref_iff (vnodes : Nat → Nat) :
    Kernel.asDestroy as vnodes = .error .nullDeref ↔
      as.seg1 = none ∨ as.seg2 = none ∨ as.segstack = none := by
  obtain ⟨o1, o2, ost⟩ := as
  cases o1 with
  | none => simp [Kernel.asDestroy]
  | some s1 =>
    cases o2 with
    | none => simp [Kernel.asDestroy]
    | some s2 =>
      cases ost with
      | none => simp [Kernel.asDestroy]
      | some st =>
        cases hv : s1.elfdata with
        | none => simp [Kernel.asDestroy, hv]
        | some v =>
          by_cases hpos : vnodes v > 0
          · simp [Kernel.asDestroy, hv, vfsClose, kassert, hpos, bind, Except.bind, pure,
              Except.pure]
          · simp [Kernel.asDestroy, hv, vfsClose, kassert, hpos, bind, Except.bind]

theorem checked_segments (hok : as.checked.isOk) :
    ¬ (as.seg1 = none ∨ as.seg2 = none ∨ as.segstack = none) := by
  obtain ⟨o1, o2, ost⟩ := as
  rintro (h | h | h)
  all_goals
    cases h
    simp [AddrSpace.checked, Except.isOk, Except.toBool] at hok

/-! ## Loads that succeed -/

theorem loadLoopLeaves_known {left i : Nat}
    (h : (loadLoopLeaves file vnode eh left i env as).2 = .ok ()) :
    left ≤ env.reads ∧ (∀ j, i ≤ j → j < i + left → eh.skips file j ∨ eh.loads file j) ∧
      (loadHeadersFrom file eh left i).length ≤ env.segments := by
  induction left generalizing i env as with
  | zero => exact ⟨Nat.zero_le _, fun j h1 h2 => by omega, Nat.zero_le _⟩
  | succ left ih =>
    have hcons : eh.skips file i ∨ eh.loads file i →
        (∀ j, i + 1 ≤ j → j < i + 1 + left → eh.skips file j ∨ eh.loads file j) →
        ∀ j, i ≤ j → j < i + (left + 1) → eh.skips file j ∨ eh.loads file j := by
      intro hi hrest j h1 h2
      rcases Nat.eq_or_lt_of_le h1 with rfl | hlt
      · exact hi
      · exact hrest j hlt (by omega)
    simp only [loadLoopLeaves] at h
    split at h
    · cases h
    · next hreads =>
      cases hread : readPhdr file (eh.phdrOffset i) with
      | none => simp [hread] at h
      | some ph =>
        simp only [hread] at h
        rw [loadHeadersFrom, hread]
        by_cases hskip : ph.skipped
        · simp only [hskip, if_true] at h
          obtain ⟨hr, hknown, hmem⟩ := ih h
          have hne : ph.p_type ≠ PT_LOAD := fun hl => not_skipped_of_load hl hskip
          refine ⟨?_, hcons (.inl ⟨ph, hread, hskip⟩) hknown, ?_⟩
          · simp only at hr
            omega
          · simpa only [hne, if_false] using hmem
        · simp only [hskip, if_false] at h
          by_cases hload : ph.p_type = PT_LOAD
          · simp only [hload, if_true] at h
            cases hdef : definePhdr vnode ph as with
            | error e => simp [hdef] at h
            | ok as₁ =>
              simp only [hdef] at h
              split at h
              · cases h
              · obtain ⟨hr, hknown, hmem⟩ := ih h
                simp only at hr hmem
                refine ⟨by omega, hcons (.inr ⟨ph, hread, hload⟩) hknown, ?_⟩
                simp only [hload, if_true, List.length_cons]
                omega
          · simp [hload] at h

/-- Only good files are loaded. -/
theorem loadable_of_ok {entry : VAddr}
    (h : (loadElfLeaves file vnode env asCreate).2 = .ok entry) : Loadable file env := by
  have htwo := (loadElf_segments (loadElfLeaves_ok h)).2
  unfold loadElfLeaves at h
  split at h
  · cases h
  · next hreads =>
    cases hread : readEhdr file with
    | none => simp [hread] at h
    | some eh =>
      simp only [hread] at h
      split at h
      · next hacc =>
        simp only at h
        cases hres : (loadLoopLeaves file vnode eh eh.e_phnum.toNat 0
            { env with reads := env.reads - 1 } asCreate).2 with
        | error e => simp [hres, Except.map] at h
        | ok u =>
          obtain ⟨hr, hknown, hmem⟩ := loadLoopLeaves_known hres
          simp only at hr hmem
          refine ⟨eh, hread, hacc, by omega,
            fun j hj => hknown j (Nat.zero_le j) (by omega), htwo, ?_⟩
          rw [loadHeaders, hread]
          exact hmem
      · cases h

theorem startSpace_ok (h : Loadable file env) :
    (∃ entry, (loadElfLeaves file vnode env asCreate).2 = .ok entry) ∧ startSpace file vnode env
      = (asDefineStack (filled ((loadHeaders file).map (·.segment vnode)))).1 := by
  obtain ⟨entry, hok⟩ := h.ok vnode
  have hsegs := (loadElf_segments (loadElfLeaves_ok hok)).1
  refine ⟨⟨entry, hok⟩, ?_⟩
  unfold startSpace
  split
  · next as e heq =>
    rw [heq] at hsegs
    simp only at hsegs
    rw [hsegs]
  · next as e heq =>
    rw [heq] at hok
    cases hok

/-- After a load that fails there is no stack. -/
theorem startSpace_failed (h : ¬ Loadable file env) :
    (startSpace file vnode env).segstack = none := by
  obtain ⟨phs, hphs⟩ := loadElfLeaves_filled file vnode env
  unfold startSpace
  split
  · next as e heq => exact absurd (loadable_of_ok (by rw [heq])) h
  · next as e heq =>
    rw [heq] at hphs
    simp only at hphs
    rw [hphs]
    rfl

/-! ## Files that fit -/

theorem numpages_ne_zero_iff (ph : Phdr) (vnode : Nat) :
    (ph.segment vnode).numpages ≠ 0 ↔ ph.hasPage := by
  have hpages := regionPages_toNat ph.p_vaddr ph.p_memsz
  have hsz : (ph.p_memsz + (ph.p_vaddr &&& ~~~PAGE_FRAME)).toNat
      = (ph.p_memsz.toNat + ph.p_vaddr.toNat % 4096) % 2 ^ 32 := by
    rw [UInt32.toNat_add, offset_toNat]
  have hlimit : (0xfffff000 : UInt32).toNat = 0xfffff000 := rfl
  have hzero : (0 : UInt32).toNat = 0 := rfl
  show regionPages ph.p_vaddr ph.p_memsz ≠ 0 ↔ _
  rw [Phdr.hasPage, Ne, Ne, ← UInt32.toNat_inj, ← UInt32.toNat_inj, UInt32.le_iff_toNat_le, hsz,
    hpages, hlimit, hzero]
  omega

/-- What is accepted can be run and everything can be torn down, exactly for files that load and
    have two segments with at least one page each. -/
theorem runsAndEnds_iff (file : List UInt8) (vnode : Nat) (env : LoadEnv) :
    RunsAndEnds file vnode env ↔
      Loadable file env ∧ (loadHeaders file).length = 2 ∧ ∀ ph ∈ loadHeaders file, ph.hasPage := by
  constructor
  · rintro ⟨hruns, hends⟩
    have hnone := fun hmissing =>
      hends _ .refl (fun _ => 0) ((asDestroy_nullDeref_iff _).2 hmissing)
    have hload : Loadable file env := by
      by_contra hno
      exact hnone (.inr (.inr (startSpace_failed hno)))
    obtain ⟨hok, hspace⟩ : _ ∧ startSpace file vnode env = _ := startSpace_ok hload
    have hchecked := (faultEntry_ne_kassert_iff _).1 (hruns hok _ .refl)
    rw [hspace] at hnone hchecked
    match hheaders : loadHeaders file with
    | [] => exact absurd (.inl (by rw [hheaders]; rfl)) hnone
    | [ph] => exact absurd (.inr (.inl (by rw [hheaders]; rfl))) hnone
    | [p1, p2] =>
      rw [hheaders] at hchecked
      obtain ⟨h1, h2⟩ := checked_program.1 hchecked
      refine ⟨hload, rfl, fun ph hph => ?_⟩
      rcases List.mem_pair.1 hph with rfl | rfl
      · exact (numpages_ne_zero_iff _ vnode).1 h1
      · exact (numpages_ne_zero_iff _ vnode).1 h2
    | p1 :: p2 :: p3 :: rest =>
      obtain ⟨-, -, -, -, -, htwo, -⟩ := hload
      simp [hheaders] at htwo
  · rintro ⟨hload, hlen, hpages⟩
    obtain ⟨p1, p2, hheaders⟩ := List.length_eq_two.1 hlen
    obtain ⟨-, hspace⟩ : _ ∧ startSpace file vnode env = _ := startSpace_ok hload
    have hpage : ∀ ph, ph ∈ loadHeaders file → (ph.segment vnode).numpages ≠ 0 :=
      fun ph hph => (numpages_ne_zero_iff ph vnode).2 (hpages ph hph)
    have hchecked : (startSpace file vnode env).checked.isOk := by
      rw [hspace, hheaders]
      exact checked_program.2 ⟨hpage p1 (by simp [hheaders]), hpage p2 (by simp [hheaders])⟩
    refine ⟨fun _ as' hr => (faultEntry_ne_kassert_iff as').2 (reaches_checked hr hchecked), ?_⟩
    intro as' hr vnodes hnull
    exact checked_segments (reaches_checked hr hchecked) ((asDestroy_nullDeref_iff vnodes).1 hnull)

/-- The small executable without its data segment. -/
def codeOnlyElf : List UInt8 :=
  ELFMAG ++ List.replicate 9 0 ++ [0, 2, 0, 8] ++ word 1 ++ word 0x400000 ++ word 52 ++ word 0 ++
    word 0 ++ [0, 52, 0, 32, 0, 1, 0, 0, 0, 0, 0, 0] ++
    (word 1 ++ word 84 ++ word 0x400000 ++ word 0x400000 ++ word 4 ++ word 4 ++ word 5 ++
      word 4096) ++
    [1, 2, 3, 4]

/-- An executable with one segment is accepted and its first fetch is a failed assertion; a file
    that is not an executable is refused, and tearing down its address space reads through a null
    pointer. -/
theorem codeOnly_asserts :
    (loadElfLeaves codeOnlyElf 0 ⟨9, 9⟩ asCreate).2 = .ok 0x400000 ∧
      faultEntry (some (startSpace codeOnlyElf 0 ⟨9, 9⟩)) .VM_FAULT_READ 0x400000
        = .error .kassert ∧
      ¬ RunsAndEnds codeOnlyElf 0 ⟨9, 9⟩ ∧
      (loadElfLeaves [] 0 ⟨9, 9⟩ asCreate).2 = .error .ENOEXEC ∧
      Kernel.asDestroy (startSpace [] 0 ⟨9, 9⟩) (fun _ => 0) = .error .nullDeref ∧
      ¬ RunsAndEnds [] 0 ⟨9, 9⟩ := by
  have hload : (loadElfLeaves codeOnlyElf 0 ⟨9, 9⟩ asCreate).2 = .ok 0x400000 := by decide +kernel
  have hassert : faultEntry (some (startSpace codeOnlyElf 0 ⟨9, 9⟩)) .VM_FAULT_READ 0x400000
      = .error .kassert := faultEntry_kassert (by decide +kernel) _
  have hnull : Kernel.asDestroy (startSpace [] 0 ⟨9, 9⟩) (fun _ => 0) = .error .nullDeref := rfl
  exact ⟨hload, hassert, fun h => h.1 ⟨_, hload⟩ _ .refl _ _ hassert, rfl, hnull,
    fun h => h.2 _ .refl _ hnull⟩

end DemandPaging
