import DemandPaging.Tlb
import Mathlib.Data.Nat.Bitwise

set_option autoImplicit false

/-! # What the TLB maps

The fields of an entry, and what the three operations of `vm_tlb.c` do to the set of valid ones: a
write puts one entry into one slot, a flush leaves none, and invalidating a page removes the entry
of that page, if no two valid entries share a page. -/

namespace DemandPaging

namespace TlbEntry

variable (e : TlbEntry)

def valid : Bool := e.lo &&& TLBLO_VALID != 0

def dirty : Bool := e.lo &&& TLBLO_DIRTY != 0

/-- The virtual page. -/
def page : VAddr := e.hi &&& TLBHI_VPAGE

/-- The frame. -/
def frame : Nat := (e.lo &&& TLBLO_PPAGE).toNat / PAGE_SIZE

end TlbEntry

/-! ## The fields of a written entry -/

/-- A mask on a word made of a masked part and flags. -/
theorem and_flags (x m a k : UInt32) :
    ((x &&& m) ||| a) &&& k = (x &&& (m &&& k)) ||| (a &&& k) := by
  apply UInt32.toBitVec_inj.1
  simp only [UInt32.toBitVec_and, UInt32.toBitVec_or]
  rw [BitVec.and_or_distrib_right, BitVec.and_assoc]

/-- The low word is the page frame with flags. -/
theorem entryLo_eq (paddr : Nat) (writePriv : Bool) :
    Tlb.entryLo paddr writePriv =
      (UInt32.ofNat paddr &&& TLBLO_PPAGE) ||| (if writePriv then 0x700 else 0x300) := by
  cases writePriv with
  | false =>
    simp only [Tlb.entryLo, UInt32.or_assoc]
    rfl
  | true =>
    simp only [Tlb.entryLo, if_true, UInt32.or_assoc]
    rfl

theorem valid_entryLo (hi : UInt32) (paddr : Nat) (writePriv : Bool) :
    (TlbEntry.mk hi (Tlb.entryLo paddr writePriv)).valid = true := by
  have hmask : TLBLO_PPAGE &&& TLBLO_VALID = 0 := by decide
  unfold TlbEntry.valid
  simp only [entryLo_eq, and_flags, hmask, UInt32.and_zero, UInt32.zero_or]
  cases writePriv <;> decide

theorem dirty_entryLo (hi : UInt32) (paddr : Nat) (writePriv : Bool) :
    (TlbEntry.mk hi (Tlb.entryLo paddr writePriv)).dirty = writePriv := by
  have hmask : TLBLO_PPAGE &&& TLBLO_DIRTY = 0 := by decide
  unfold TlbEntry.dirty
  simp only [entryLo_eq, and_flags, hmask, UInt32.and_zero, UInt32.zero_or]
  cases writePriv <;> decide

/-- Multiples of the page size lose nothing to the mask. -/
theorem ofNat_page_mask {f : Nat} (hf : f < 2 ^ 20) :
    (UInt32.ofNat (f * PAGE_SIZE) &&& TLBLO_PPAGE).toNat = f * PAGE_SIZE := by
  have hlt : f * PAGE_SIZE < 2 ^ 32 := by unfold PAGE_SIZE; omega
  have hmask : TLBLO_PPAGE.toNat = (2 ^ 20 - 1) <<< 12 := by decide
  have hshift : f * PAGE_SIZE = f <<< 12 := by rw [Nat.shiftLeft_eq]; rfl
  rw [UInt32.toNat_and, UInt32.toNat_ofNat_of_lt' hlt, hmask, hshift, ← Nat.shiftLeft_and_distrib,
    Nat.and_two_pow_sub_one_eq_mod, Nat.mod_eq_of_lt hf]

theorem frame_entryLo (hi : UInt32) {f : Nat} (hf : f < 2 ^ 20) (writePriv : Bool) :
    (TlbEntry.mk hi (Tlb.entryLo (f * PAGE_SIZE) writePriv)).frame = f := by
  have hmask : TLBLO_PPAGE &&& TLBLO_PPAGE = TLBLO_PPAGE := UInt32.and_self
  have hflags : (if writePriv then 0x700 else 0x300 : UInt32) &&& TLBLO_PPAGE = 0 := by
    cases writePriv <;> decide
  unfold TlbEntry.frame
  simp only [entryLo_eq, and_flags, hmask, hflags, UInt32.or_zero, ofNat_page_mask hf]
  exact Nat.mul_div_cancel f (by decide)

theorem valid_invalid (i : Nat) : (TlbEntry.invalid i).valid = false := by
  unfold TlbEntry.valid TlbEntry.invalid TLBLO_INVALID
  simp

/-- Invalid slots name pages that no user address has. -/
theorem page_invalid_ge {i : Nat} (hi : i < NUM_TLB) :
    USERSPACETOP ≤ (TlbEntry.invalid i).page := by
  have hall : ∀ j : Fin 64, USERSPACETOP ≤ (TlbEntry.invalid j.val).page := by decide +kernel
  exact hall ⟨i, hi⟩

/-! ## Valid entries -/

namespace Tlb

variable {t : Tlb} {i j : Nat}

/-- Slot `i` holds a valid entry. -/
def Live (t : Tlb) (i : Nat) : Prop := i < NUM_TLB ∧ (t.entry i).valid = true

/-- No two valid entries share a page, all of them are for user pages, and the slot to reuse
    exists. -/
structure Ok (t : Tlb) : Prop where
  reuse : t.tlbinvalidatedindex < NUM_TLB
  unique : ∀ i j, t.Live i → t.Live j → (t.entry i).page = (t.entry j).page → i = j
  user : ∀ i, t.Live i → (t.entry i).page < USERSPACETOP
  parked : ∀ i < NUM_TLB, (t.entry i).valid = false → USERSPACETOP ≤ (t.entry i).page

/-- The slot that the next write takes. -/
def nextSlot (t : Tlb) : Nat :=
  if 0 ≤ t.tlbinvalidatedindex then t.tlbinvalidatedindex.toNat else t.tlbindex.toNat % NUM_TLB

theorem nextSlot_lt (h : t.tlbinvalidatedindex < NUM_TLB) : t.nextSlot < NUM_TLB := by
  unfold nextSlot
  split
  · omega
  · exact Nat.mod_lt _ (by decide)

theorem vmtlbWrite_entry (t : Tlb) (pid : Int) (addr : VAddr) (paddr : Nat) (writePriv : Bool)
    (c : Counters) : (t.vmtlbWrite pid addr paddr writePriv c).1.entry =
      Function.update t.entry t.nextSlot ⟨addr &&& TLBHI_VPAGE, entryLo paddr writePriv⟩ := by
  unfold vmtlbWrite nextSlot
  by_cases hinv : 0 ≤ t.tlbinvalidatedindex
  · simp only [if_pos hinv]
    rfl
  · by_cases hfree : t.tlbindex.toNat < NUM_TLB
    · simp only [if_neg hinv, if_pos hfree, Nat.mod_eq_of_lt hfree]
      rfl
    · simp only [if_neg hinv, if_neg hfree]
      rfl

theorem vmtlbWrite_shared (h : t.tlbinvalidatedindex < NUM_TLB) (pid : Int) (addr : VAddr)
    (paddr : Nat) (writePriv : Bool) (c : Counters) :
    (t.vmtlbWrite pid addr paddr writePriv c).1.lastpid = pid ∧
      (t.vmtlbWrite pid addr paddr writePriv c).1.tlbinvalidatedindex < NUM_TLB := by
  unfold vmtlbWrite
  by_cases hinv : 0 ≤ t.tlbinvalidatedindex
  · simp only [if_pos hinv]
    exact ⟨rfl, by decide⟩
  · by_cases hfree : t.tlbindex.toNat < NUM_TLB
    · simp only [if_neg hinv, if_pos hfree]
      exact ⟨rfl, h⟩
    · simp only [if_neg hinv, if_neg hfree]
      exact ⟨rfl, h⟩

/-- The slots after a write. -/
theorem vmtlbWrite_spec (h : t.tlbinvalidatedindex < NUM_TLB) (pid : Int) (addr : VAddr)
    (paddr : Nat) (writePriv : Bool) (c : Counters) :
    ∃ k < NUM_TLB, (t.vmtlbWrite pid addr paddr writePriv c).1.entry =
        Function.update t.entry k ⟨addr &&& TLBHI_VPAGE, entryLo paddr writePriv⟩ ∧
      (t.vmtlbWrite pid addr paddr writePriv c).1.lastpid = pid ∧
      (t.vmtlbWrite pid addr paddr writePriv c).1.tlbinvalidatedindex < NUM_TLB :=
  ⟨t.nextSlot, nextSlot_lt h, t.vmtlbWrite_entry pid addr paddr writePriv c,
    vmtlbWrite_shared h pid addr paddr writePriv c⟩

/-- A flush leaves no valid entry. -/
theorem vmtlbInvalidate_ne (pid : Int) (c : Counters) (h : pid ≠ t.lastpid) :
    (t.vmtlbInvalidate pid c).1.Ok ∧ (∀ i, ¬ (t.vmtlbInvalidate pid c).1.Live i) ∧
      (t.vmtlbInvalidate pid c).1.lastpid = 0 := by
  have hslot : ∀ i < NUM_TLB, (t.vmtlbInvalidate pid c).1.entry i = TlbEntry.invalid i := by
    intro i hi
    simp [vmtlbInvalidate, h, hi]
  have hno : ∀ i, ¬ (t.vmtlbInvalidate pid c).1.Live i := by
    intro i hi
    have hv := hi.2
    rw [hslot i hi.1, valid_invalid] at hv
    cases hv
  refine ⟨⟨?_, ?_, ?_, ?_⟩, hno, ?_⟩
  · simp [vmtlbInvalidate, h, NUM_TLB]
  · exact fun i j hi => absurd hi (hno i)
  · exact fun i hi => absurd hi (hno i)
  · intro i hi _
    rw [hslot i hi]
    exact page_invalid_ge hi
  · simp [vmtlbInvalidate, h]

/-- Invalidating a slot. -/
theorem Ok.park {t' : Tlb} (h : t.Ok) {k : Nat} (hk : k < NUM_TLB)
    (hentry : t'.entry = Function.update t.entry k (TlbEntry.invalid k))
    (hreuse : t'.tlbinvalidatedindex < NUM_TLB) :
    t'.Ok ∧ ∀ i, t'.Live i → i ≠ k ∧ t.Live i ∧ t'.entry i = t.entry i := by
  have hself : t'.entry k = TlbEntry.invalid k := by rw [hentry, Function.update_self]
  have hother : ∀ i, i ≠ k → t'.entry i = t.entry i := by
    intro i hi
    rw [hentry, Function.update_of_ne hi]
  have hlive : ∀ i, t'.Live i → i ≠ k ∧ t.Live i := by
    intro i hi
    have hv := hi.2
    have hne : i ≠ k := by
      rintro rfl
      rw [hself, valid_invalid] at hv
      cases hv
    rw [hother i hne] at hv
    exact ⟨hne, hi.1, hv⟩
  refine ⟨⟨hreuse, ?_, ?_, ?_⟩, fun i hi => ?_⟩
  · intro i j hi hj heq
    obtain ⟨hni, hi⟩ := hlive i hi
    obtain ⟨hnj, hj⟩ := hlive j hj
    rw [hother i hni, hother j hnj] at heq
    exact h.unique i j hi hj heq
  · intro i hi
    obtain ⟨hni, hi⟩ := hlive i hi
    rw [hother i hni]
    exact h.user i hi
  · intro i hi hv
    by_cases hik : i = k
    · rw [hik, hself]
      exact page_invalid_ge hk
    · rw [hother i hik] at hv ⊢
      exact h.parked i hi hv
  · obtain ⟨hni, hold⟩ := hlive i hi
    exact ⟨hni, hold, hother i hni⟩

/-- Invalidating a page removes its entry and keeps the others. -/
theorem vmtlbInvalidatepage_spec (h : t.Ok) (addr : VAddr) :
    (t.vmtlbInvalidatepage addr).Ok ∧ (t.vmtlbInvalidatepage addr).lastpid = t.lastpid ∧
      ∀ i, (t.vmtlbInvalidatepage addr).Live i →
        t.Live i ∧ (t.vmtlbInvalidatepage addr).entry i = t.entry i ∧
          (t.entry i).page ≠ addr &&& TLBHI_VPAGE := by
  unfold vmtlbInvalidatepage
  cases hprobe : t.tlbProbe (addr &&& TLBHI_VPAGE) with
  | none =>
    have hno := search_eq_none.1 hprobe
    refine ⟨h, rfl, fun i hi => ⟨hi, rfl, fun heq => ?_⟩⟩
    have := hno i hi.1
    simp only [beq_eq_false_iff_ne] at this
    refine this ?_
    rw [UInt32.and_assoc, UInt32.and_self]
    exact heq
  | some k =>
    obtain ⟨hk, hp, -⟩ := search_some hprobe
    have hpage : (t.entry k).page = addr &&& TLBHI_VPAGE := by
      simpa [TlbEntry.page, UInt32.and_assoc] using hp
    obtain ⟨hok, hlive⟩ := @Ok.park t { t.tlbWrite (TLBHI_INVALID k) TLBLO_INVALID k with
      tlbinvalidatedindex := k } h k hk rfl (Int.ofNat_lt.2 hk)
    refine ⟨hok, rfl, fun i hi => ?_⟩
    obtain ⟨hne, hold, heq⟩ := hlive i hi
    refine ⟨hold, heq, fun hi' => ?_⟩
    -- the probe found the only entry of the page, or a slot that was invalid
    cases hv : (t.entry k).valid with
    | true => exact hne (h.unique i k hold ⟨hk, hv⟩ (hi'.trans hpage.symm))
    | false =>
      have huser := h.user i hold
      rw [hi', ← hpage] at huser
      exact absurd (h.parked k hk hv) (UInt32.not_le.2 huser)

/-- Writing the entry of a page that has none. -/
theorem Ok.write (h : t.Ok) (pid : Int) {addr : VAddr} (paddr : Nat) (writePriv : Bool)
    (c : Counters) (hno : ∀ i, t.Live i → (t.entry i).page ≠ addr &&& TLBHI_VPAGE)
    (huser : addr &&& TLBHI_VPAGE < USERSPACETOP) :
    (t.vmtlbWrite pid addr paddr writePriv c).1.Ok ∧
      (t.vmtlbWrite pid addr paddr writePriv c).1.lastpid = pid ∧
      ∀ i, (t.vmtlbWrite pid addr paddr writePriv c).1.Live i →
        (t.Live i ∧ (t.vmtlbWrite pid addr paddr writePriv c).1.entry i = t.entry i) ∨
        (t.vmtlbWrite pid addr paddr writePriv c).1.entry i =
          ⟨addr &&& TLBHI_VPAGE, entryLo paddr writePriv⟩ := by
  obtain ⟨k, hk, hentry, hlast, hreuse⟩ := vmtlbWrite_spec h.reuse pid addr paddr writePriv c
  generalize (t.vmtlbWrite pid addr paddr writePriv c).1 = t' at hentry hlast hreuse ⊢
  have hself : t'.entry k = ⟨addr &&& TLBHI_VPAGE, entryLo paddr writePriv⟩ := by
    rw [hentry, Function.update_self]
  have hother : ∀ i, i ≠ k → t'.entry i = t.entry i := by
    intro i hi
    rw [hentry, Function.update_of_ne hi]
  have hpage : (t'.entry k).page = addr &&& TLBHI_VPAGE := by
    rw [hself, TlbEntry.page, UInt32.and_assoc, UInt32.and_self]
  have hold : ∀ i, i ≠ k → t'.Live i → t.Live i := by
    intro i hi hl
    have hv := hl.2
    rw [hother i hi] at hv
    exact ⟨hl.1, hv⟩
  refine ⟨⟨hreuse, ?_, ?_, ?_⟩, hlast, ?_⟩
  · intro i j hi hj heq
    by_cases hik : i = k
    · by_cases hjk : j = k
      · rw [hik, hjk]
      · rw [hik, hpage, hother j hjk] at heq
        exact absurd heq.symm (hno j (hold j hjk hj))
    · by_cases hjk : j = k
      · rw [hjk, hpage, hother i hik] at heq
        exact absurd heq (hno i (hold i hik hi))
      · rw [hother i hik, hother j hjk] at heq
        exact h.unique i j (hold i hik hi) (hold j hjk hj) heq
  · intro i hi
    by_cases hik : i = k
    · rw [hik, hpage]
      exact huser
    · rw [hother i hik]
      exact h.user i (hold i hik hi)
  · intro i hi hv
    by_cases hik : i = k
    · rw [hik, hself, valid_entryLo] at hv
      cases hv
    · rw [hother i hik] at hv ⊢
      exact h.parked i hi hv
  · intro i hi
    by_cases hik : i = k
    · exact .inr (hik ▸ hself)
    · exact .inl ⟨hold i hik hi, hother i hik⟩

theorem boot_live (i : Nat) : ¬ boot.Live i := by
  intro h
  have hv : (TlbEntry.reset i).valid = true := h.2
  simp [TlbEntry.valid, TlbEntry.reset] at hv

theorem boot_ok : boot.Ok where
  reuse := by decide
  unique i j hi := absurd hi (boot_live i)
  user i hi := absurd hi (boot_live i)
  parked i hi _ := by
    have hall : ∀ j : Fin 64, USERSPACETOP ≤ (TlbEntry.reset j.val).page := by decide +kernel
    exact hall ⟨i, hi⟩

/-- The hardware lookup of a user page: the valid entry of that page. -/
def lookup (t : Tlb) (v : VAddr) : Option TlbEntry :=
  (search (fun i => (t.entry i).valid && (t.entry i).page == v) NUM_TLB).map t.entry

theorem lookup_none {v : VAddr} (h : t.lookup v = none) (hi : t.Live i) :
    (t.entry i).page ≠ v := by
  have hno := search_eq_none.1 (Option.map_eq_none_iff.1 h) i hi.1
  rw [hi.2] at hno
  simpa using hno

end Tlb

end DemandPaging
