import DemandPaging.LoadElf

set_option autoImplicit false

/-! # What a failing load leaves behind

`load_elf` works on the address space of the process, so a load that fails half-way leaves the
segments it has defined. `loadElfLeaves` returns that address space next to the result. Besides a
bad file, the device can report an error and the heap can be exhausted: `LoadEnv` counts the reads
and the allocations that succeed before that. -/

namespace DemandPaging

/-- What a load meets: the number of reads that succeed, and of segments the heap has room for. -/
structure LoadEnv where
  reads : Nat
  segments : Nat

/-- The types of program headers that `load_elf` skips. -/
def Phdr.skipped (ph : Phdr) : Prop :=
  ph.p_type = PT_NULL ∨ ph.p_type = PT_PHDR ∨ ph.p_type = PT_MIPS_REGINFO

instance (ph : Phdr) : Decidable ph.skipped := inferInstanceAs (Decidable (_ ∨ _))

/-- The loop over the program headers, with the address space at its end. -/
def loadLoopLeaves (file : List UInt8) (vnode : Nat) (eh : Ehdr) :
    Nat → Nat → LoadEnv → AddrSpace → AddrSpace × Except Errno Unit
  | 0, _, _, as => (as, .ok ())
  | left + 1, i, env, as =>
    if env.reads = 0 then (as, .error Errno.EIO)
    else
      match readPhdr file (eh.phdrOffset i) with
      | none => (as, .error .ENOEXEC)
      | some ph =>
        if ph.skipped then
          loadLoopLeaves file vnode eh left (i + 1) { env with reads := env.reads - 1 } as
        else if ph.p_type = PT_LOAD then
          match definePhdr vnode ph as with
          | .error e => (as, .error e)
          | .ok as' =>
            -- a segment that cannot be allocated leaves its pointer NULL
            if env.segments = 0 then (as, .error .ENOMEM)
            else
              loadLoopLeaves file vnode eh left (i + 1)
                ⟨env.reads - 1, env.segments - 1⟩ as'
        else (as, .error .ENOEXEC)

/-- `load_elf`: the address space it leaves, and its result. -/
def loadElfLeaves (file : List UInt8) (vnode : Nat) (env : LoadEnv) (as : AddrSpace) :
    AddrSpace × Except Errno VAddr :=
  if env.reads = 0 then (as, .error Errno.EIO)
  else
    match readEhdr file with
    | none => (as, .error .ENOEXEC)
    | some eh =>
      if eh.accepted then
        let (as, result) := loadLoopLeaves file vnode eh eh.e_phnum.toNat 0
          { env with reads := env.reads - 1 } as
        (as, result.map fun _ => eh.e_entry)
      else (as, .error .ENOEXEC)

variable {file : List UInt8} {vnode : Nat} {eh : Ehdr} {env : LoadEnv} {as as' : AddrSpace}

/-! ## Loads that succeed -/

theorem loadLoopLeaves_ok {left i : Nat}
    (h : (loadLoopLeaves file vnode eh left i env as).2 = .ok ()) :
    loadLoop file vnode eh left i as = .ok (loadLoopLeaves file vnode eh left i env as).1 := by
  induction left generalizing i env as with
  | zero => rfl
  | succ left ih =>
    simp only [loadLoopLeaves] at h ⊢
    simp only [loadLoop]
    split at h
    · cases h
    · next hreads =>
      rw [if_neg hreads]
      cases hread : readPhdr file (eh.phdrOffset i) with
      | none => simp [hread] at h
      | some ph =>
        simp only [hread] at h ⊢
        by_cases hskip : ph.skipped
        · simp only [hskip, if_true] at h ⊢
          exact (if_pos hskip).trans (ih h)
        · simp only [hskip, if_false] at h ⊢
          rw [if_neg (show ¬ (_ ∨ _ ∨ _) from hskip)]
          by_cases hload : ph.p_type = PT_LOAD
          · simp only [hload, if_true] at h ⊢
            cases hdef : definePhdr vnode ph as with
            | error e => simp [hdef] at h
            | ok as₁ =>
              simp only [hdef] at h ⊢
              split at h
              · cases h
              · next hseg =>
                rw [if_neg hseg]
                exact ih h
          · simp [hload] at h

/-- A load that succeeds is the one of `loadElf`. -/
theorem loadElfLeaves_ok {entry : VAddr} (h : (loadElfLeaves file vnode env as).2 = .ok entry) :
    loadElf file vnode as = .ok ((loadElfLeaves file vnode env as).1, entry) := by
  simp only [loadElfLeaves] at h ⊢
  split at h
  · cases h
  · next hreads =>
    rw [if_neg hreads]
    cases hread : readEhdr file with
    | none => simp [hread] at h
    | some eh =>
      simp only [hread] at h ⊢
      split at h
      · next hacc =>
        rw [if_pos hacc]
        simp only at h ⊢
        cases hres : (loadLoopLeaves file vnode eh eh.e_phnum.toNat 0
            { env with reads := env.reads - 1 } as).2 with
        | error e => simp [hres, Except.map] at h
        | ok u =>
          obtain rfl : eh.e_entry = entry := by simpa [hres, Except.map] using h
          simp [loadElf, hread, hacc, loadLoopLeaves_ok hres]
      · cases h

/-! ## The segments a load leaves -/

theorem asCreate_filled : asCreate = filled [] := rfl

theorem loadLoopLeaves_filled {left i : Nat} {segs : List Segment} (hlen : segs.length ≤ 2) :
    ∃ phs : List Phdr, (loadLoopLeaves file vnode eh left i env (filled segs)).1 =
      filled (segs ++ phs.map (·.segment vnode)) := by
  have hstay : ∃ phs : List Phdr, filled segs = filled (segs ++ phs.map (·.segment vnode)) :=
    ⟨[], by simp⟩
  induction left generalizing i env segs with
  | zero => exact hstay
  | succ left ih =>
    simp only [loadLoopLeaves]
    split
    · exact hstay
    · cases hread : readPhdr file (eh.phdrOffset i) with
      | none => exact hstay
      | some ph =>
        simp only
        split
        · exact ih hlen hstay
        · split
          · cases hdef : definePhdr vnode ph (filled segs) with
            | error e => exact hstay
            | ok as₁ =>
              simp only
              split
              · exact hstay
              · obtain ⟨rfl, hlen'⟩ := definePhdr_filled hlen hdef
                obtain ⟨phs, hphs⟩ := ih hlen' ⟨[], by simp⟩
                exact ⟨ph :: phs, by simpa using hphs⟩
          · exact hstay

/-- Whether it succeeds or not, a load leaves segments of its own file only. -/
theorem loadElfLeaves_filled (file : List UInt8) (vnode : Nat) (env : LoadEnv) : ∃ phs : List Phdr,
    (loadElfLeaves file vnode env asCreate).1 = filled (phs.map (·.segment vnode)) := by
  have hstay : ∃ phs : List Phdr, asCreate = filled (phs.map (·.segment vnode)) := ⟨[], rfl⟩
  unfold loadElfLeaves
  split
  · exact hstay
  · split
    · exact hstay
    · split
      · obtain ⟨phs, hphs⟩ := loadLoopLeaves_filled (show [].length ≤ 2 by simp)
        exact ⟨phs, by simpa [asCreate_filled] using hphs⟩
      · exact hstay

/-! ## Good files, and loads that fail before the first segment -/

/-- Program header `i` can be read and is skipped. -/
def Ehdr.skips (eh : Ehdr) (file : List UInt8) (i : Nat) : Prop :=
  ∃ ph, readPhdr file (eh.phdrOffset i) = some ph ∧ ph.skipped

/-- Program header `i` can be read and is that of a segment. -/
def Ehdr.loads (eh : Ehdr) (file : List UInt8) (i : Nat) : Prop :=
  ∃ ph, readPhdr file (eh.phdrOffset i) = some ph ∧ ph.p_type = PT_LOAD

/-- Nothing is wrong with the file, and neither the device nor the heap gives up. -/
def Loadable (file : List UInt8) (env : LoadEnv) : Prop :=
  ∃ eh, readEhdr file = some eh ∧ eh.accepted = true ∧ eh.e_phnum.toNat < env.reads ∧
    (∀ i < eh.e_phnum.toNat, eh.skips file i ∨ eh.loads file i) ∧
    (loadHeaders file).length ≤ 2 ∧ (loadHeaders file).length ≤ env.segments

/-- The first thing wrong comes before the first segment. -/
def FailsEarly (file : List UInt8) (env : LoadEnv) : Prop :=
  ∀ eh, readEhdr file = some eh → eh.accepted = true → 0 < env.reads →
    ∃ i < eh.e_phnum.toNat, (∀ j < i, eh.skips file j) ∧
      (env.reads ≤ i + 1 ∨ (¬ eh.skips file i ∧ ¬ eh.loads file i) ∨
        eh.loads file i ∧ env.segments = 0)

theorem not_skipped_of_load {ph : Phdr} (h : ph.p_type = PT_LOAD) : ¬ ph.skipped := by
  unfold Phdr.skipped
  rw [h]
  decide

/-- One program header that is skipped. -/
theorem loadLoopLeaves_skip {left i : Nat} (hreads : 0 < env.reads) (hskip : eh.skips file i) :
    loadLoopLeaves file vnode eh (left + 1) i env as =
      loadLoopLeaves file vnode eh left (i + 1) { env with reads := env.reads - 1 } as := by
  obtain ⟨ph, hread, hs⟩ := hskip
  rw [loadLoopLeaves, if_neg (by omega)]
  simp only [hread, hs, if_true]

theorem definePhdr_room {ph : Phdr} {segs : List Segment} (h : segs.length < 2) :
    definePhdr vnode ph (filled segs) = .ok (filled (segs ++ [ph.segment vnode])) := by
  match segs, h with
  | [], _ => rfl
  | [_], _ => rfl

theorem loadLoopLeaves_loadable {left i : Nat} {segs : List Segment} (hreads : left ≤ env.reads)
    (hknown : ∀ j, i ≤ j → j < i + left → eh.skips file j ∨ eh.loads file j)
    (htwo : segs.length + (loadHeadersFrom file eh left i).length ≤ 2)
    (hmem : (loadHeadersFrom file eh left i).length ≤ env.segments) :
    (loadLoopLeaves file vnode eh left i env (filled segs)).2 = .ok () := by
  induction left generalizing i env segs with
  | zero => rfl
  | succ left ih =>
    have hnext : ∀ j, i + 1 ≤ j → j < i + 1 + left → eh.skips file j ∨ eh.loads file j :=
      fun j h1 h2 => hknown j (by omega) (by omega)
    rcases hknown i (Nat.le_refl i) (by omega) with hskip | ⟨ph, hread, hload⟩
    · rw [loadLoopLeaves_skip (by omega) hskip]
      obtain ⟨ph, hread, hs⟩ := hskip
      have hne : ph.p_type ≠ PT_LOAD := fun hl => not_skipped_of_load hl hs
      rw [loadHeadersFrom, hread] at htwo hmem
      simp only [hne, if_false] at htwo hmem
      exact ih (by simp only; omega) hnext htwo hmem
    · rw [loadHeadersFrom, hread] at htwo hmem
      simp only [hload, if_true, List.length_cons] at htwo hmem
      rw [loadLoopLeaves, if_neg (by omega), hread]
      simp only [not_skipped_of_load hload, if_false, hload, if_true,
        definePhdr_room (show segs.length < 2 by omega)]
      rw [if_neg (by omega)]
      refine ih (by simp only; omega) hnext ?_ (by simp only; omega)
      simp only [List.length_append, List.length_singleton]
      omega

theorem Loadable.ok (h : Loadable file env) (vnode : Nat) :
    ∃ entry, (loadElfLeaves file vnode env asCreate).2 = .ok entry := by
  obtain ⟨eh, hread, hacc, hreads, hknown, htwo, hmem⟩ := h
  have hheaders : loadHeaders file = loadHeadersFrom file eh eh.e_phnum.toNat 0 := by
    rw [loadHeaders, hread]
  rw [hheaders] at htwo hmem
  have hloop : (loadLoopLeaves file vnode eh eh.e_phnum.toNat 0
      { env with reads := env.reads - 1 } (filled [])).2 = .ok () := by
    refine loadLoopLeaves_loadable (by simp only; omega) (fun j _ hj => hknown j (by omega)) ?_ hmem
    simpa using htwo
  refine ⟨eh.e_entry, ?_⟩
  rw [loadElfLeaves, if_neg (by omega), hread, asCreate_filled]
  simp only [hacc, if_true, hloop]
  rfl

/-- What is left of a load that fails early. -/
def Refused {α : Type} (r : AddrSpace × Except Errno α) : Prop :=
  r.1.seg1 = none ∧ ∃ e, r.2 = .error e

/-- A header stops the loop before anything is defined. -/
theorem loadLoopLeaves_stop {left i k : Nat} (hk : k < left)
    (hskip : ∀ j, i ≤ j → j < i + k → eh.skips file j)
    (hstop : env.reads ≤ k ∨ (¬ eh.skips file (i + k) ∧ ¬ eh.loads file (i + k)) ∨
      eh.loads file (i + k) ∧ env.segments = 0) (hfree : as.seg1 = none) :
    Refused (loadLoopLeaves file vnode eh left i env as) := by
  have hrefused : ∀ e, Refused (as, (.error e : Except Errno Unit)) := fun e => ⟨hfree, e, rfl⟩
  induction k generalizing left i env with
  | zero =>
    obtain ⟨left, rfl⟩ : ∃ n, left = n + 1 := ⟨left - 1, by omega⟩
    simp only [Nat.add_zero] at hstop
    simp only [loadLoopLeaves]
    split
    · exact hrefused _
    · cases hread : readPhdr file (eh.phdrOffset i) with
      | none => exact hrefused _
      | some ph =>
        simp only
        split
        · next hs =>
          rcases hstop with h0 | ⟨hno, -⟩ | ⟨⟨ph', hread', hload⟩, -⟩
          · omega
          · exact absurd ⟨ph, hread, hs⟩ hno
          · obtain rfl : ph = ph' := Option.some.inj (hread.symm.trans hread')
            exact absurd hs (not_skipped_of_load hload)
        · split
          · next hload =>
            rcases hstop with h0 | ⟨-, hno⟩ | ⟨-, hseg⟩
            · omega
            · exact absurd ⟨ph, hread, hload⟩ hno
            · simp only [hseg, if_true]
              split <;> exact hrefused _
          · exact hrefused _
  | succ k ih =>
    obtain ⟨left, rfl⟩ : ∃ n, left = n + 1 := ⟨left - 1, by omega⟩
    by_cases hreads : env.reads = 0
    · rw [loadLoopLeaves, if_pos hreads]
      exact hrefused _
    · rw [loadLoopLeaves_skip (by omega) (hskip i (Nat.le_refl i) (by omega))]
      have heq : i + 1 + k = i + (k + 1) := by omega
      refine ih (by omega) (fun j h1 h2 => hskip j (by omega) (by omega)) ?_
      rw [heq]
      rcases hstop with h0 | hrest
      · exact .inl (by simp only; omega)
      · exact .inr hrest

/-- A load that fails early leaves no segment. -/
theorem FailsEarly.refused (h : FailsEarly file env) (vnode : Nat) :
    Refused (loadElfLeaves file vnode env asCreate) := by
  have hrefused : ∀ e, Refused (asCreate, (.error e : Except Errno VAddr)) := fun e => ⟨rfl, e, rfl⟩
  unfold loadElfLeaves
  split
  · exact hrefused _
  · next hreads =>
    cases hread : readEhdr file with
    | none => exact hrefused _
    | some eh =>
      simp only
      split
      · next hacc =>
        obtain ⟨k, hk, hskip, hstop⟩ := h eh hread hacc (by omega)
        have hloop : Refused (loadLoopLeaves file vnode eh eh.e_phnum.toNat 0
            { env with reads := env.reads - 1 } asCreate) := by
          refine loadLoopLeaves_stop hk (fun j _ hj => hskip j (by omega)) ?_ rfl
          rw [Nat.zero_add]
          rcases hstop with h0 | hrest
          · exact .inl (by simp only; omega)
          · exact .inr hrest
        obtain ⟨hseg, e, he⟩ := hloop
        exact ⟨hseg, e, by simp only [he]; rfl⟩
      · exact hrefused _

end DemandPaging
