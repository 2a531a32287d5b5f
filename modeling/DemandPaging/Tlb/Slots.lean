import DemandPaging.Lib.Run
import DemandPaging.Tlb.Entries

set_option autoImplicit false

/-! # Which slot a write takes

`vm_tlb.c` chooses slots with a counter that only grows (`tlbindex`), the slot that was invalidated
last (`tlbinvalidatedindex`) and a flush that resets both. In runs that start with an empty TLB,
that invalidate at most one page between two writes and write only pages without an entry, two facts
hold the scheme together. Either the slots below the counter are in use and the others are not, or
all slots are; and in both cases the slot to be reused is the only exception. The second alternative
outlives the counter's return to 0 after 2^32 writes, because 64 divides 2^32.

The addresses are those of user pages: `vm_fault` writes the page it was called for, and evictions
invalidate the page of their victim. -/

namespace DemandPaging

open Function (update update_self update_of_ne)

/-- A call of one of the three functions. -/
inductive TlbOp
  | write (pid : Int) (addr : VAddr) (paddr : Nat) (writePriv : Bool)
  | invalidatepage (addr : VAddr)
  | invalidate (pid : Int)

/-- The slot in which a valid entry of `t` has been overwritten in `t'`. -/
def Tlb.overwritten (t t' : Tlb) : Option Nat :=
  search (fun i => (t.entry i).valid && decide (t'.entry i ≠ t.entry i)) NUM_TLB

/-- The TLB in a run of calls. The last two fields are a record that no call reads: whether
    `vmtlb_invalidatepage` has been called since the last write, and in which slots writes have
    replaced a valid entry since the TLB was last empty, oldest first. -/
structure TlbRun where
  tlb : Tlb
  counter : Counters
  invalidated : Bool
  replaced : List Nat

namespace TlbRun

/-- An empty TLB, as `tlb_reset` leaves it. -/
def boot (counter : Counters) : TlbRun := ⟨Tlb.boot, counter, false, []⟩

variable (r : TlbRun)

def exec : TlbOp → TlbRun
  | .write pid addr paddr writePriv =>
    let w := r.tlb.vmtlbWrite pid addr paddr writePriv r.counter
    { tlb := w.1, counter := w.2, invalidated := false
      replaced := r.replaced ++ (r.tlb.overwritten w.1).toList }
  | .invalidatepage addr =>
    { r with tlb := r.tlb.vmtlbInvalidatepage addr, invalidated := true }
  | .invalidate pid =>
    let w := r.tlb.vmtlbInvalidate pid r.counter
    { r with
      tlb := w.1, counter := w.2
      replaced := if pid = r.tlb.lastpid then r.replaced else [] }

/-- A write is for a user page that no entry matches, and one page at most is invalidated between
    two writes. -/
def Enabled : TlbOp → Prop
  | .write _ addr _ _ => addr < USERSPACETOP ∧ r.tlb.tlbProbe (addr &&& TLBHI_VPAGE) = none
  | .invalidatepage addr => addr < USERSPACETOP ∧ r.invalidated = false
  | .invalidate _ => True

instance : (op : TlbOp) → Decidable (r.Enabled op)
  | .write _ addr _ _ =>
    inferInstanceAs (Decidable (addr < USERSPACETOP ∧ r.tlb.tlbProbe _ = none))
  | .invalidatepage addr =>
    inferInstanceAs (Decidable (addr < USERSPACETOP ∧ r.invalidated = false))
  | .invalidate _ => inferInstanceAs (Decidable True)

end TlbRun

/-- One call. -/
def TlbStep (r : TlbRun) (op : TlbOp) (r' : TlbRun) : Prop := r.Enabled op ∧ r.exec op = r'

/-- What the scheme is for. -/
structure SlotDiscipline (r : TlbRun) : Prop where
  /-- No two slots have the same page field, be they valid or not. -/
  distinct : ∀ i < NUM_TLB, ∀ j < NUM_TLB, (r.tlb.entry i).page = (r.tlb.entry j).page → i = j
  /-- A write overwrites a valid entry only if there is no other kind. -/
  last_resort : ∀ pid addr paddr writePriv, ∀ i < NUM_TLB, (r.tlb.entry i).valid = true →
    (r.tlb.vmtlbWrite pid addr paddr writePriv r.counter).1.entry i ≠ r.tlb.entry i →
    ∀ j < NUM_TLB, (r.tlb.entry j).valid = true
  /-- The replacements go through the slots in a circle. -/
  round_robin : r.replaced = (List.range r.replaced.length).map (· % NUM_TLB)

variable {t t' : Tlb} {r r' : TlbRun} {i j n : Nat} {addr : VAddr}

/-! ## The page fields -/

theorem page_lt_of_user (h : addr < USERSPACETOP) : addr &&& TLBHI_VPAGE < USERSPACETOP := by
  rw [UInt32.lt_iff_toNat_lt] at h ⊢
  rw [UInt32.toNat_and]
  exact lt_of_le_of_lt Nat.and_le_left h

/-- A slot that is not valid is as `TLBHI_INVALID` or `tlb_reset` leaves it. -/
def Tlb.Parked (t : Tlb) : Prop :=
  ∀ i < NUM_TLB, (t.entry i).valid = false →
    t.entry i = TlbEntry.invalid i ∨ t.entry i = TlbEntry.reset i

/-- The pages of such slots differ. -/
theorem Tlb.Parked.page (h : t.Parked) (hi : i < NUM_TLB) (hv : (t.entry i).valid = false) :
    (t.entry i).page.toNat = (0x80000 + i) * 4096 ∨
      (t.entry i).page.toNat = (0x81000 + i) * 4096 := by
  have hall : ∀ a : Fin 64, (TlbEntry.invalid a.val).page.toNat = (0x80000 + a.val) * 4096 ∧
      (TlbEntry.reset a.val).page.toNat = (0x81000 + a.val) * 4096 := by decide +kernel
  rcases h i hi hv with heq | heq
  · rw [heq]
    exact .inl (hall ⟨i, hi⟩).1
  · rw [heq]
    exact .inr (hall ⟨i, hi⟩).2

theorem Tlb.Ok.page_inj (h : t.Ok) (hp : t.Parked) (hi : i < NUM_TLB) (hj : j < NUM_TLB)
    (heq : (t.entry i).page = (t.entry j).page) : i = j := by
  cases hvi : (t.entry i).valid with
  | true =>
    cases hvj : (t.entry j).valid with
    | true => exact h.unique i j ⟨hi, hvi⟩ ⟨hj, hvj⟩ heq
    | false =>
      have huser := h.user i ⟨hi, hvi⟩
      rw [heq] at huser
      exact absurd (h.parked j hj hvj) (UInt32.not_le.2 huser)
  | false =>
    cases hvj : (t.entry j).valid with
    | true =>
      have huser := h.user j ⟨hj, hvj⟩
      rw [← heq] at huser
      exact absurd (h.parked i hi hvi) (UInt32.not_le.2 huser)
    | false =>
      have hpi := hp.page hi hvi
      have hpj := hp.page hj hvj
      change _ < 64 at hi hj
      rw [heq] at hpi
      omega

/-! ## The slots in use -/

/-- The first `n` slots are in use, but for the one to be reused, which is among them. -/
structure Tlb.Filled (t : Tlb) (n : Nat) : Prop where
  used : ∀ i < NUM_TLB, (t.entry i).valid = true ↔ i < n ∧ (i : Int) ≠ t.tlbinvalidatedindex
  below : t.tlbinvalidatedindex < n
  least : -1 ≤ t.tlbinvalidatedindex

/-- The state of the scheme: still filling the slots, or going round in them. -/
inductive Phase (t : Tlb) (replaced : List Nat) : Prop
  | filling (hlt : t.tlbindex.toNat < NUM_TLB) (hused : t.Filled t.tlbindex.toNat)
      (hnone : replaced = [])
  | full (hused : t.Filled NUM_TLB)
      (hindex : t.tlbindex.toNat % NUM_TLB = replaced.length % NUM_TLB)

/-- The invariant of the runs. -/
structure TlbSlotInv (r : TlbRun) : Prop where
  ok : r.tlb.Ok
  parked : r.tlb.Parked
  phase : Phase r.tlb r.replaced
  waiting : r.invalidated = false → r.tlb.tlbinvalidatedindex = -1
  order : r.replaced = (List.range r.replaced.length).map (· % NUM_TLB)

theorem Phase.filled {replaced : List Nat} (h : Phase t replaced) :
    ∃ n ≤ NUM_TLB, t.Filled n := by
  cases h with
  | filling hlt hused hnone => exact ⟨_, hlt.le, hused⟩
  | full hused hindex => exact ⟨_, le_rfl, hused⟩

/-- The three variables after a write. -/
theorem vmtlbWrite_vars (t : Tlb) (pid : Int) (addr : VAddr) (paddr : Nat) (writePriv : Bool)
    (c : Counters) (h : -1 ≤ t.tlbinvalidatedindex) :
    (t.vmtlbWrite pid addr paddr writePriv c).1.tlbinvalidatedindex = -1 ∧
      (t.vmtlbWrite pid addr paddr writePriv c).1.tlbindex =
        if 0 ≤ t.tlbinvalidatedindex then t.tlbindex else t.tlbindex + 1 := by
  unfold Tlb.vmtlbWrite
  by_cases hinv : 0 ≤ t.tlbinvalidatedindex
  · simp only [if_pos hinv]
    exact ⟨trivial, rfl⟩
  · have hnone : t.tlbinvalidatedindex = -1 := by omega
    by_cases hfree : t.tlbindex.toNat < NUM_TLB
    · simp only [if_neg hinv, if_pos hfree]
      exact ⟨hnone, trivial⟩
    · simp only [if_neg hinv, if_neg hfree]
      exact ⟨hnone, trivial⟩

/-- The counter modulo 64 does not notice that it wraps. -/
theorem tlbindex_succ_mod (x : UInt32) : (x + 1).toNat % NUM_TLB = (x.toNat + 1) % NUM_TLB := by
  rw [UInt32.toNat_add]
  have hone : (1 : UInt32).toNat = 1 := rfl
  rw [hone]
  unfold NUM_TLB
  omega

/-- A valid entry in slot `k`, and the slot to be reused is used up. -/
theorem Tlb.Filled.write {k m : Nat} {e : TlbEntry} (h : t.Filled n) (he : e.valid = true)
    (hentry : t'.entry = update t.entry k e) (hinv : t'.tlbinvalidatedindex = -1)
    (hm : ∀ i < NUM_TLB, i < m ↔ i = k ∨ (i < n ∧ (i : Int) ≠ t.tlbinvalidatedindex)) :
    t'.Filled m where
  used := by
    intro i hi
    rw [hentry, hinv]
    by_cases hik : i = k
    · subst hik
      rw [update_self]
      exact iff_of_true he ⟨(hm i hi).2 (.inl rfl), by omega⟩
    · rw [update_of_ne hik, h.used i hi, hm i hi]
      constructor
      · exact fun hi' => ⟨.inr hi', by omega⟩
      · exact fun hi' => hi'.1.resolve_left hik
  below := by omega
  least := by omega

/-- With nothing to be reused, the next write goes to the slot of the counter. -/
theorem nextSlot_of_none (h : t.tlbinvalidatedindex = -1) :
    t.nextSlot = t.tlbindex.toNat % NUM_TLB := by
  unfold Tlb.nextSlot
  rw [if_neg (by omega)]

/-- The only slot that a write can overwrite is the next one. -/
theorem overwritten_write (h : t.Ok) {e : TlbEntry}
    (hentry : t'.entry = update t.entry t.nextSlot e)
    (hne : ∀ i < NUM_TLB, t.entry i ≠ e) :
    t.overwritten t' =
      if (t.entry t.nextSlot).valid = true then some t.nextSlot else none := by
  have hk := Tlb.nextSlot_lt h.reuse
  have hself : t'.entry t.nextSlot = e := by rw [hentry, update_self]
  have hother : ∀ i, i ≠ t.nextSlot → t'.entry i = t.entry i := by
    intro i hi
    rw [hentry, update_of_ne hi]
  cases ho : t.overwritten t' with
  | none =>
    have hno := search_eq_none.1 ho t.nextSlot hk
    rw [hself] at hno
    have hdiff : e ≠ t.entry t.nextSlot := (hne _ hk).symm
    simp only [hdiff, ne_eq, not_false_eq_true, decide_true, Bool.and_true] at hno
    rw [if_neg (by rw [hno]; decide)]
  | some i =>
    obtain ⟨-, hp, -⟩ := search_some ho
    simp only [Bool.and_eq_true, decide_eq_true_eq] at hp
    have hi : i = t.nextSlot := by
      by_contra hi
      exact hp.2 (hother i hi)
    rw [← hi, if_pos hp.1]

/-! ## Steps -/

/-- Nothing to be reused: the next slot is the first free one, or the next in turn. -/
theorem Phase.write_next {replaced : List Nat} {e : TlbEntry} (h : Phase t replaced)
    (he : e.valid = true) (hentry : t'.entry = update t.entry t.nextSlot e)
    (hnone : t.tlbinvalidatedindex = -1) (hinv : t'.tlbinvalidatedindex = -1)
    (hindex : t'.tlbindex = t.tlbindex + 1) :
    ((t.entry t.nextSlot).valid = false ∧ Phase t' replaced) ∨
      ((t.entry t.nextSlot).valid = true ∧ t.nextSlot = replaced.length % NUM_TLB ∧
        Phase t' (replaced ++ [t.nextSlot])) := by
  have hslot := nextSlot_of_none hnone
  cases h with
  | filling hlt hused hempty =>
    rw [Nat.mod_eq_of_lt hlt] at hslot
    have hfree : (t.entry t.nextSlot).valid = false := by
      rw [Bool.eq_false_iff, hslot, Ne, hused.used _ hlt]
      omega
    have hfill : t'.Filled (t.tlbindex.toNat + 1) := by
      refine hused.write he hentry hinv fun i hi => ?_
      rw [hslot, hnone]
      omega
    refine .inl ⟨hfree, ?_⟩
    have hnat : t'.tlbindex.toNat = t.tlbindex.toNat + 1 := by
      rw [hindex, UInt32.toNat_add]
      have hone : (1 : UInt32).toNat = 1 := rfl
      have hbound : t.tlbindex.toNat < 64 := hlt
      omega
    by_cases hmore : t.tlbindex.toNat + 1 < NUM_TLB
    · exact .filling (hnat ▸ hmore) (hnat ▸ hfill) hempty
    · -- the last free slot is taken: from now on writes go round
      have hall : t.tlbindex.toNat + 1 = NUM_TLB := by omega
      refine .full (hall ▸ hfill) ?_
      rw [hnat, hall, hempty]
      rfl
  | full hused hmod =>
    rw [hmod] at hslot
    have hklt : t.nextSlot < NUM_TLB := by
      rw [hslot]
      exact Nat.mod_lt _ (by decide)
    refine .inr ⟨(hused.used _ hklt).2 ⟨hklt, by omega⟩, hslot, .full ?_ ?_⟩
    · refine hused.write he hentry hinv fun i hi => ?_
      rw [hnone]
      omega
    · rw [hindex, tlbindex_succ_mod, List.length_append, List.length_singleton, Nat.add_mod, hmod,
        ← Nat.add_mod]

/-- The slot that was invalidated last is reused. -/
theorem Phase.write_reused {replaced : List Nat} {e : TlbEntry} (h : Phase t replaced)
    (he : e.valid = true) (hentry : t'.entry = update t.entry t.nextSlot e)
    (hsome : 0 ≤ t.tlbinvalidatedindex) (hinv : t'.tlbinvalidatedindex = -1)
    (hindex : t'.tlbindex = t.tlbindex) :
    (t.entry t.nextSlot).valid = false ∧ Phase t' replaced := by
  have hslot : (t.nextSlot : Int) = t.tlbinvalidatedindex := by
    unfold Tlb.nextSlot
    rw [if_pos hsome, Int.toNat_of_nonneg hsome]
  have hstep : ∀ n ≤ NUM_TLB, t.Filled n →
      (t.entry t.nextSlot).valid = false ∧ t'.Filled n := by
    intro n hn hused
    have hbelow := hused.below
    refine ⟨?_, hused.write he hentry hinv fun i hi => ?_⟩
    · rw [Bool.eq_false_iff, Ne, hused.used _ (by omega)]
      omega
    · omega
  cases h with
  | filling hlt hused hempty =>
    obtain ⟨hfree, hfill⟩ := hstep _ hlt.le hused
    exact ⟨hfree, .filling (hindex ▸ hlt) (hindex ▸ hfill) hempty⟩
  | full hused hmod =>
    obtain ⟨hfree, hfill⟩ := hstep _ le_rfl hused
    exact ⟨hfree, .full hfill (hindex ▸ hmod)⟩

theorem Tlb.Parked.update_valid {k : Nat} {e : TlbEntry} (h : t.Parked) (he : e.valid = true)
    (hentry : t'.entry = update t.entry k e) : t'.Parked := by
  intro i hi hv
  by_cases hik : i = k
  · rw [hentry, hik, update_self, he] at hv
    cases hv
  · rw [hentry, update_of_ne hik] at hv ⊢
    exact h i hi hv

/-- A page that the probe does not find has no entry. -/
theorem page_ne_of_probe (h : t.tlbProbe (addr &&& TLBHI_VPAGE) = none) (hi : i < NUM_TLB) :
    (t.entry i).page ≠ addr &&& TLBHI_VPAGE := by
  have hno := search_eq_none.1 h i hi
  simp only [beq_eq_false_iff_ne] at hno
  rwa [UInt32.and_assoc, UInt32.and_self] at hno

theorem order_append {l : List Nat} (h : l = (List.range l.length).map (· % NUM_TLB)) :
    l ++ [l.length % NUM_TLB] =
      (List.range (l ++ [l.length % NUM_TLB]).length).map (· % NUM_TLB) := by
  rw [List.length_append, List.length_singleton, List.range_succ, List.map_append, ← h]
  rfl

theorem TlbSlotInv.write {pid : Int} {paddr : Nat} {writePriv : Bool} (h : TlbSlotInv r)
    (huser : addr < USERSPACETOP) (hmiss : r.tlb.tlbProbe (addr &&& TLBHI_VPAGE) = none) :
    TlbSlotInv (r.exec (.write pid addr paddr writePriv)) := by
  have hentry := r.tlb.vmtlbWrite_entry pid addr paddr writePriv r.counter
  obtain ⟨hok, -, -⟩ := h.ok.write pid paddr writePriv r.counter
    (fun i hi => page_ne_of_probe hmiss hi.1) (page_lt_of_user huser)
  have hvalid := valid_entryLo (addr &&& TLBHI_VPAGE) paddr writePriv
  obtain ⟨n, -, hfilled⟩ := h.phase.filled
  obtain ⟨hinv, hindex⟩ :=
    vmtlbWrite_vars r.tlb pid addr paddr writePriv r.counter hfilled.least
  have hover := overwritten_write h.ok hentry fun i hi heq => by
    refine page_ne_of_probe hmiss hi ?_
    rw [heq, TlbEntry.page, UInt32.and_assoc, UInt32.and_self]
  have hpark := h.parked.update_valid hvalid hentry
  simp only [TlbRun.exec, hover]
  generalize (r.tlb.vmtlbWrite pid addr paddr writePriv r.counter) = w at *
  by_cases hsome : 0 ≤ r.tlb.tlbinvalidatedindex
  · rw [if_pos hsome] at hindex
    obtain ⟨hfree, hphase⟩ := h.phase.write_reused hvalid hentry hsome hinv hindex
    simp only [hfree, Bool.false_eq_true, if_false, Option.toList_none, List.append_nil]
    exact ⟨hok, hpark, hphase, fun _ => hinv, h.order⟩
  · rw [if_neg hsome] at hindex
    have hnone : r.tlb.tlbinvalidatedindex = -1 := by
      have := hfilled.least
      omega
    rcases h.phase.write_next hvalid hentry hnone hinv hindex with
      ⟨hfree, hphase⟩ | ⟨hused, hslot, hphase⟩
    · simp only [hfree, Bool.false_eq_true, if_false, Option.toList_none, List.append_nil]
      exact ⟨hok, hpark, hphase, fun _ => hinv, h.order⟩
    · simp only [hused, if_true, Option.toList_some]
      refine ⟨hok, hpark, hphase, fun _ => hinv, ?_⟩
      rw [hslot]
      exact order_append h.order

/-- A slot in use is invalidated. -/
theorem Tlb.Filled.park {k : Nat} (h : t.Filled n) (hk : k < n)
    (hnone : t.tlbinvalidatedindex = -1)
    (hentry : t'.entry = update t.entry k (TlbEntry.invalid k))
    (hinv : t'.tlbinvalidatedindex = k) : t'.Filled n where
  used := by
    intro i hi
    rw [hentry, hinv]
    by_cases hik : i = k
    · subst hik
      rw [update_self, valid_invalid]
      exact iff_of_false (by decide) fun hh => hh.2 rfl
    · rw [update_of_ne hik, h.used i hi, hnone]
      omega
  below := by omega
  least := by omega

theorem TlbSlotInv.invalidatepage (h : TlbSlotInv r) (huser : addr < USERSPACETOP)
    (hwait : r.invalidated = false) : TlbSlotInv (r.exec (.invalidatepage addr)) := by
  have hnone := h.waiting hwait
  obtain ⟨hok, -, -⟩ := Tlb.vmtlbInvalidatepage_spec h.ok addr
  simp only [TlbRun.exec]
  unfold Tlb.vmtlbInvalidatepage at hok ⊢
  cases hprobe : r.tlb.tlbProbe (addr &&& TLBHI_VPAGE) with
  | none => exact ⟨h.ok, h.parked, h.phase, fun hf => (by cases hf), h.order⟩
  | some k =>
    rw [hprobe] at hok
    obtain ⟨hk, hp, -⟩ := search_some hprobe
    have hpage : (r.tlb.entry k).page = addr &&& TLBHI_VPAGE := by
      simpa [TlbEntry.page, UInt32.and_assoc] using hp
    -- the slot found is in use: an invalid one has a page outside user space
    have hvalid : (r.tlb.entry k).valid = true := by
      by_contra hv
      have hge := h.ok.parked k hk (Bool.eq_false_iff.2 hv)
      rw [hpage] at hge
      exact UInt32.not_le.2 (page_lt_of_user huser) hge
    have hpark : ∀ n, r.tlb.Filled n → Tlb.Filled
        { r.tlb.tlbWrite (TLBHI_INVALID k) TLBLO_INVALID k with tlbinvalidatedindex := k } n :=
      fun n hused => hused.park ((hused.used k hk).1 hvalid).1 hnone rfl rfl
    refine ⟨hok, ?_, ?_, fun hf => (by cases hf), h.order⟩
    · intro i hi hv
      by_cases hik : i = k
      · subst hik
        exact .inl (update_self ..)
      · have hsame : (update r.tlb.entry k
            ⟨TLBHI_INVALID k, TLBLO_INVALID⟩) i = r.tlb.entry i := update_of_ne hik _ _
        have hv' : (r.tlb.entry i).valid = false := hsame ▸ hv
        exact (h.parked i hi hv').imp hsame.trans hsame.trans
    · cases h.phase with
      | filling hlt hused hempty => exact .filling hlt (hpark _ hused) hempty
      | full hused hmod => exact .full (hpark _ hused) hmod

theorem TlbSlotInv.invalidate (h : TlbSlotInv r) (pid : Int) :
    TlbSlotInv (r.exec (.invalidate pid)) := by
  simp only [TlbRun.exec]
  by_cases hpid : pid = r.tlb.lastpid
  · simp only [Tlb.vmtlbInvalidate, if_pos hpid]
    exact ⟨h.ok, h.parked, h.phase, h.waiting, h.order⟩
  · obtain ⟨hok, hno, -⟩ := Tlb.vmtlbInvalidate_ne (t := r.tlb) pid r.counter hpid
    have hslot : ∀ i < NUM_TLB,
        (r.tlb.vmtlbInvalidate pid r.counter).1.entry i = TlbEntry.invalid i := by
      intro i hi
      simp [Tlb.vmtlbInvalidate, hpid, hi]
    have hvars : (r.tlb.vmtlbInvalidate pid r.counter).1.tlbinvalidatedindex = -1 ∧
        (r.tlb.vmtlbInvalidate pid r.counter).1.tlbindex = 0 := by
      simp [Tlb.vmtlbInvalidate, hpid]
    simp only [if_neg hpid]
    generalize r.tlb.vmtlbInvalidate pid r.counter = w at *
    refine ⟨hok, fun i hi _ => .inl (hslot i hi), .filling ?_ ⟨fun i hi => ?_, ?_, ?_⟩ rfl,
      fun _ => hvars.1, rfl⟩
    · rw [hvars.2]
      decide
    · rw [hslot i hi, valid_invalid, hvars.2]
      exact iff_of_false (by decide) fun hh => Nat.not_lt_zero i hh.1
    · rw [hvars.1, hvars.2]
      decide
    · exact Int.le_of_eq hvars.1.symm

theorem TlbStep.inv {op : TlbOp} (h : TlbSlotInv r) (hstep : TlbStep r op r') : TlbSlotInv r' := by
  obtain ⟨hen, rfl⟩ := hstep
  cases op with
  | write pid addr paddr writePriv => exact h.write hen.1 hen.2
  | invalidatepage addr => exact h.invalidatepage hen.1 hen.2
  | invalidate pid => exact h.invalidate pid

theorem slotInv_boot (counter : Counters) : TlbSlotInv (TlbRun.boot counter) where
  ok := Tlb.boot_ok
  parked := fun _ _ _ => .inr rfl
  phase := by
    have hindex : Tlb.boot.tlbindex.toNat < NUM_TLB := by decide
    have hbelow : Tlb.boot.tlbinvalidatedindex < Tlb.boot.tlbindex.toNat := by decide
    have hleast : -1 ≤ Tlb.boot.tlbinvalidatedindex := by decide
    refine .filling hindex ⟨fun i hi => ?_, hbelow, hleast⟩ rfl
    exact iff_of_false (fun hv => Tlb.boot_live i ⟨hi, hv⟩) fun hh => Nat.not_lt_zero i hh.1
  waiting := fun _ => rfl
  order := rfl

theorem TlbSlotInv.discipline (h : TlbSlotInv r) : SlotDiscipline r where
  distinct := fun i hi j hj heq => h.ok.page_inj h.parked hi hj heq
  round_robin := h.order
  last_resort := by
    intro pid addr paddr writePriv i hi hv hne j hj
    rw [Tlb.vmtlbWrite_entry] at hne
    have hik : i = r.tlb.nextSlot := by
      by_contra hik
      exact hne (update_of_ne hik _ _)
    subst hik
    have hidle : r.tlb.tlbinvalidatedindex = -1 := by
      obtain ⟨n, -, hfilled⟩ := h.phase.filled
      have hleast := hfilled.least
      have hnot := ((hfilled.used _ hi).1 hv).2
      unfold Tlb.nextSlot at hnot
      by_contra hsome
      rw [if_pos (by omega)] at hnot
      omega
    cases h.phase with
    | filling hlt hused hnone =>
      rw [nextSlot_of_none hidle, Nat.mod_eq_of_lt hlt] at hv
      have := ((hused.used _ hlt).1 hv).1
      omega
    | full hused hmod => exact (hused.used j hj).2 ⟨hj, by omega⟩

/-- In every state of every run no two slots share a page field, a write overwrites a valid entry
    only if all entries are valid, and the replacements visit the slots in turn, from slot 0 on
    after the TLB was last empty. -/
theorem slots_disciplined {counter : Counters} (hrun : Reaches TlbStep (TlbRun.boot counter) r) :
    SlotDiscipline r :=
  (hrun.invariant (fun _ _ _ h hs => TlbStep.inv h hs) (slotInv_boot counter)).discipline

/-- A call that may come next, for runs that are written down. -/
def TlbRun.next (r : TlbRun) (op : TlbOp) : Option TlbRun :=
  if r.Enabled op then some (r.exec op) else none

theorem TlbRun.next_step {op : TlbOp} (h : r.next op = some r') : TlbStep r op r' := by
  unfold TlbRun.next at h
  split at h
  · next he => exact ⟨he, Option.some.inj h⟩
  · cases h

/-- Process 2 touches one page after the other. -/
def touches (first count : Nat) : List TlbOp :=
  (List.range count).map fun i => .write 2 (UInt32.ofNat ((first + i) * PAGE_SIZE)) 0x30000 true

/-- Sixty-four pages fill the TLB, the place of an evicted one is taken by the next page, and the
    two pages after that replace the entries in slots 0 and 1. -/
theorem slots_disciplined_small : ∃ r, Reaches TlbStep (TlbRun.boot fun _ => 0) r ∧
    r.replaced = [0, 1] ∧ SlotDiscipline r := by
  have hstep : ∀ r r' op, op ∈ touches 1 64 ++ .invalidatepage 0x5000 :: touches 65 3 →
      r.next op = some r' → TlbStep r op r' := fun _ _ _ _ hn => TlbRun.next_step hn
  obtain ⟨r, hreach, hcheck⟩ := exists_reaches_of_replay (s := TlbRun.boot fun _ => 0) hstep
    (p := fun r => decide (r.replaced = [0, 1])) (by decide +kernel)
  exact ⟨r, hreach, of_decide_eq_true hcheck, slots_disciplined hreach⟩

end DemandPaging
