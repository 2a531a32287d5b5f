import DemandPaging.Coremap.Runs
import DemandPaging.Fault.Regions

set_option autoImplicit false

/-! # Memory before the page table (`ram.c`)

From boot to `ptinit` the kernel takes pages off the bottom of the free memory and never gives them
back. `ptinit` then takes over what is left: `ram_getfirstfree` tells where that begins, and closes
the old allocator by setting both its bounds to 0.

All sums are sums of 32 bits. A request whose size does not fit is not recognised as one: the sum
in the test of `ram_stealmem` wraps around, and so does the new value of `firstpaddr`. -/

namespace DemandPaging

/-- `MIPS_KSEG0`. -/
def MIPS_KSEG0 : UInt32 := 0x80000000

/-- What `start.S` stores in `firstfree`: the next page behind the end of the kernel and the boot
    string of `len` characters, with one page more for the first stack. -/
def startFirstfree (end_ len : UInt32) : UInt32 :=
  ((end_ + len + 1 + 4095) &&& 0xfffff000) + 4096

/-- The variables of `ram.c`. -/
structure Ram where
  firstpaddr : UInt32
  lastpaddr : UInt32
deriving DecidableEq, Repr

def ramBootstrap (mainbus_ramsize firstfree : UInt32) : Ram where
  firstpaddr := firstfree - MIPS_KSEG0
  lastpaddr := if mainbus_ramsize > 512 * 1024 * 1024 then 512 * 1024 * 1024 else mainbus_ramsize

/-- A call of `ram_stealmem`: its argument, `firstpaddr` before the call, and its result. -/
structure Steal where
  npages : UInt32
  old : UInt32
  paddr : UInt32
deriving DecidableEq, Repr

namespace Ram

variable (r : Ram)

def ramStealmem (npages : UInt32) : UInt32 × Ram :=
  let size := npages * PAGE_SIZE32
  if r.firstpaddr + size > r.lastpaddr then (0, r)
  else (r.firstpaddr, { r with firstpaddr := r.firstpaddr + size })

def ramGetsize : UInt32 := r.lastpaddr

def ramGetfirstfree : UInt32 × Ram := (r.firstpaddr, { firstpaddr := 0, lastpaddr := 0 })

/-- Calls of `ram_stealmem` in a row. -/
def steals (r : Ram) : List UInt32 → List Steal × Ram
  | [] => ([], r)
  | npages :: calls =>
    let (paddr, r') := r.ramStealmem npages
    let (log, r'') := steals r' calls
    (⟨npages, r.firstpaddr, paddr⟩ :: log, r'')

/-- `ptinit`, behind the calls `before`. Its two calls of `kmalloc` are the calls `own`, and return
    memory if `found`; the memory of the heap comes from `ram_stealmem`, so somebody must have got
    some. `none` is the result `ENOMEM`. -/
def handover (before own : List UInt32) (found : Bool) (cm : Coremap) :
    List Steal × Except Crash (Option Coremap × Ram) :=
  let (log, r) := r.steals before
  let ramsize := r.ramGetsize
  let (log', r) := r.steals own
  if found ∧ ∃ s ∈ log ++ log', s.paddr ≠ 0 then
    let (firstfree, r) := r.ramGetfirstfree
    (log ++ log', (ptinit cm ramsize firstfree).map fun cm => (some cm, r))
  else (log ++ log', .ok (none, r))

end Ram

/-! ## The property -/

namespace Steal

variable (s t : Steal)

/-- The size of the range, computed without wraparound. -/
def bytes : Nat := s.npages.toNat * PAGE_SIZE

/-- The range lies in the memory that was free before the call. -/
def Inside (lastpaddr : UInt32) : Prop :=
  s.old.toNat ≤ s.paddr.toNat ∧ s.paddr.toNat + s.bytes ≤ lastpaddr.toNat

def Has (x : Nat) : Prop := s.paddr.toNat ≤ x ∧ x < s.paddr.toNat + s.bytes

/-- No address is in both ranges. -/
def Apart : Prop := ∀ x, ¬ (s.Has x ∧ t.Has x)

end Steal

/-- The frames below `firstfree` belong to the kernel, one page each, and the others are free. -/
def MarksBelow (cm : Coremap) (ramsize firstfree : UInt32) : Prop :=
  cm.ptsize = ramsize.toNat / PAGE_SIZE ∧ ∀ i < cm.ptsize,
    if i * PAGE_SIZE < firstfree.toNat then (cm.pt i).pid = 0 ∧ (cm.pt i).numpages = 1
    else (cm.pt i).pid = -1

/-- Memory is handed out once, and what is left goes to the page table. -/
structure HandedOver (r : Ram) (before own : List UInt32) (found : Bool) (cm : Coremap) : Prop where
  inside : ∀ s ∈ (r.handover before own found cm).1, s.paddr ≠ 0 → s.Inside r.lastpaddr
  apart : (r.handover before own found cm).1.Pairwise fun s t =>
    s.paddr ≠ 0 → t.paddr ≠ 0 → s.Apart t
  returns : ∃ o, (r.handover before own found cm).2 = .ok o
  marks : ∀ cm' r', (r.handover before own found cm).2 = .ok (some cm', r') →
    MarksBelow cm' r.lastpaddr (r.steals (before ++ own)).2.firstpaddr
  closed : ∀ cm' r', (r.handover before own found cm).2 = .ok (some cm', r') →
    ∀ npages, 1 ≤ npages → (r'.ramStealmem npages).1 = 0

namespace Ram

/-- The request is refused, or its sum does not wrap around. (With nothing in use, the result is
    the 0 that means failure.) -/
def Exact (r : Ram) (npages : UInt32) : Prop :=
  r.firstpaddr = 0 ∨ r.lastpaddr < r.firstpaddr + npages * PAGE_SIZE32 ∨
    r.firstpaddr.toNat + npages.toNat * PAGE_SIZE < 2 ^ 32

instance (r : Ram) (npages : UInt32) : Decidable (r.Exact npages) :=
  inferInstanceAs (Decidable (_ ∨ _ ∨ _))

/-- All requests are, each in the state it meets. -/
def AllExact : Ram → List UInt32 → Prop
  | _, [] => True
  | r, npages :: calls => r.Exact npages ∧ (r.ramStealmem npages).2.AllExact calls

end Ram

/-! ## One call -/

variable {r r' : Ram} {npages : UInt32}

theorem size_toNat (npages : UInt32) :
    (npages * PAGE_SIZE32).toNat = npages.toNat * PAGE_SIZE % 2 ^ 32 := by
  rw [UInt32.toNat_mul]
  rfl

theorem ramStealmem_lastpaddr : (r.ramStealmem npages).2.lastpaddr = r.lastpaddr := by
  unfold Ram.ramStealmem
  dsimp only
  split <;> rfl

/-- A call is refused, grants the pages from `firstpaddr` on, or answers 0. -/
theorem Ram.Exact.cases (h : r.Exact npages) :
    r.ramStealmem npages = (0, r) ∨
      (r.firstpaddr = 0 ∧ (r.ramStealmem npages).1 = 0) ∨
      (r.ramStealmem npages = (r.firstpaddr, ⟨r.firstpaddr + npages * PAGE_SIZE32, r.lastpaddr⟩) ∧
        (r.firstpaddr + npages * PAGE_SIZE32).toNat =
          r.firstpaddr.toNat + npages.toNat * PAGE_SIZE ∧
        r.firstpaddr.toNat + npages.toNat * PAGE_SIZE ≤ r.lastpaddr.toNat) := by
  unfold Ram.ramStealmem
  dsimp only
  by_cases hbig : r.firstpaddr + npages * PAGE_SIZE32 > r.lastpaddr
  · rw [if_pos hbig]
    exact .inl rfl
  · rw [if_neg hbig]
    rcases h with hzero | hrefused | hexact
    · exact .inr (.inl ⟨hzero, hzero⟩)
    · exact absurd hrefused hbig
    · have hsum : (r.firstpaddr + npages * PAGE_SIZE32).toNat =
          r.firstpaddr.toNat + npages.toNat * PAGE_SIZE := by
        rw [UInt32.toNat_add, size_toNat]
        omega
      refine .inr (.inr ⟨rfl, hsum, ?_⟩)
      rw [← hsum]
      exact UInt32.le_iff_toNat_le.1 (UInt32.not_lt.1 hbig)

/-- A call that is not exact grants a range that leaves the memory. -/
theorem not_inside_of_not_exact (h : ¬ r.Exact npages) :
    (r.ramStealmem npages).1 ≠ 0 ∧
      ¬ Steal.Inside ⟨npages, r.firstpaddr, (r.ramStealmem npages).1⟩ r.lastpaddr := by
  unfold Ram.Exact at h
  simp only [not_or] at h
  obtain ⟨hne, hfits, hwrap⟩ := h
  have hres : (r.ramStealmem npages).1 = r.firstpaddr := by
    unfold Ram.ramStealmem
    dsimp only
    rw [if_neg hfits]
  rw [hres]
  refine ⟨hne, fun hin => ?_⟩
  have hle : r.firstpaddr.toNat + npages.toNat * PAGE_SIZE ≤ r.lastpaddr.toNat := hin.2
  have := r.lastpaddr.toNat_lt
  omega

/-! ## Calls in a row -/

theorem steals_append (r : Ram) (calls calls' : List UInt32) :
    (r.steals (calls ++ calls')).1 = (r.steals calls).1 ++ ((r.steals calls).2.steals calls').1 ∧
      (r.steals (calls ++ calls')).2 = ((r.steals calls).2.steals calls').2 := by
  induction calls generalizing r with
  | nil => exact ⟨rfl, rfl⟩
  | cons npages calls ih =>
    obtain ⟨hlog, hram⟩ := ih (r.ramStealmem npages).2
    simp only [List.cons_append, Ram.steals, hlog, hram]
    exact ⟨trivial, trivial⟩

theorem steals_lastpaddr (r : Ram) (calls : List UInt32) :
    (r.steals calls).2.lastpaddr = r.lastpaddr := by
  induction calls generalizing r with
  | nil => rfl
  | cons npages calls ih =>
    simp only [Ram.steals]
    rw [ih, ramStealmem_lastpaddr]

/-- Requests are for whole pages. -/
theorem steals_aligned (h : r.firstpaddr.toNat % PAGE_SIZE = 0) (calls : List UInt32) :
    (r.steals calls).2.firstpaddr.toNat % PAGE_SIZE = 0 := by
  induction calls generalizing r with
  | nil => exact h
  | cons npages calls ih =>
    simp only [Ram.steals]
    refine ih ?_
    unfold Ram.ramStealmem
    dsimp only
    split
    · exact h
    · simp only [UInt32.toNat_add, size_toNat, PAGE_SIZE] at *
      omega

/-- The ranges that are granted follow each other, between the old and the new `firstpaddr`. -/
structure Stolen (r : Ram) (log : List Steal) (r' : Ram) : Prop where
  le : r.firstpaddr.toNat ≤ r'.firstpaddr.toNat
  keeps : r.firstpaddr ≤ r.lastpaddr → r'.firstpaddr ≤ r.lastpaddr
  inside : ∀ s ∈ log, s.paddr ≠ 0 → s.Inside r.lastpaddr
  lower : ∀ s ∈ log, s.paddr ≠ 0 → r.firstpaddr.toNat ≤ s.paddr.toNat
  apart : log.Pairwise fun s t => s.paddr ≠ 0 → t.paddr ≠ 0 → s.Apart t
  fits : (∃ s ∈ log, s.paddr ≠ 0) → r'.firstpaddr ≤ r.lastpaddr

/-- One call more, at the front. -/
theorem Stolen.cons {r₁ : Ram} {s : Steal} {log : List Steal} (h : Stolen r₁ log r')
    (hlast : r₁.lastpaddr = r.lastpaddr) (hle : r.firstpaddr.toNat ≤ r₁.firstpaddr.toNat)
    (hkeeps : r.firstpaddr ≤ r.lastpaddr → r₁.firstpaddr ≤ r.lastpaddr)
    (hs : s.paddr ≠ 0 → s.Inside r.lastpaddr ∧ r.firstpaddr.toNat ≤ s.paddr.toNat ∧
      s.paddr.toNat + s.bytes ≤ r₁.firstpaddr.toNat ∧ r₁.firstpaddr ≤ r.lastpaddr) :
    Stolen r (s :: log) r' where
  le := Nat.le_trans hle h.le
  keeps hfit := hlast ▸ h.keeps (hlast.symm ▸ hkeeps hfit)
  inside t ht := by
    rcases List.mem_cons.1 ht with rfl | ht
    · exact fun hne => (hs hne).1
    · exact fun hne => hlast ▸ h.inside t ht hne
  lower t ht := by
    rcases List.mem_cons.1 ht with rfl | ht
    · exact fun hne => (hs hne).2.1
    · exact fun hne => Nat.le_trans hle (h.lower t ht hne)
  apart := by
    refine List.pairwise_cons.2 ⟨fun t ht hsne htne x hx => ?_, h.apart⟩
    have hupper := (hs hsne).2.2.1
    have hlower := h.lower t ht htne
    obtain ⟨⟨-, hlt⟩, ⟨hge, -⟩⟩ := hx
    omega
  fits := by
    rintro ⟨t, ht, hne⟩
    rcases List.mem_cons.1 ht with rfl | ht
    · exact hlast ▸ h.keeps (hlast.symm ▸ (hs hne).2.2.2)
    · exact hlast ▸ h.fits ⟨t, ht, hne⟩

/-- The test of `ram_stealmem` keeps `firstpaddr` below the end of memory in any case. -/
theorem ramStealmem_keeps (h : r.firstpaddr ≤ r.lastpaddr) :
    (r.ramStealmem npages).2.firstpaddr ≤ r.lastpaddr := by
  unfold Ram.ramStealmem
  dsimp only
  split
  · exact h
  · next hfits => exact UInt32.not_lt.1 hfits

theorem stolen_of_allExact {calls : List UInt32} (h : r.AllExact calls) :
    Stolen r (r.steals calls).1 (r.steals calls).2 := by
  induction calls generalizing r with
  | nil =>
    have hno : ∀ s : Steal, s ∉ (r.steals []).1 := fun s hs => by cases hs
    exact ⟨Nat.le_refl _, id, fun s hs => absurd hs (hno s), fun s hs => absurd hs (hno s), .nil,
      fun ⟨s, hs, _⟩ => absurd hs (hno s)⟩
  | cons npages calls ih =>
    obtain ⟨hexact, hcalls⟩ := h
    simp only [Ram.steals]
    refine (ih hcalls).cons ramStealmem_lastpaddr ?_ ramStealmem_keeps ?_
    · rcases hexact.cases with hres | ⟨hzero, -⟩ | ⟨hres, hsum, -⟩
      · rw [hres]
      · rw [hzero]
        exact Nat.zero_le _
      · rw [hres, hsum]
        exact Nat.le_add_right _ _
    · intro hne
      rcases hexact.cases with hres | ⟨-, hres⟩ | ⟨hres, hsum, hle⟩
      · exact absurd (congrArg Prod.fst hres) hne
      · exact absurd hres hne
      · simp only [hres, Steal.Inside, Steal.bytes]
        exact ⟨⟨Nat.le_refl _, hle⟩, Nat.le_refl _, Nat.le_of_eq hsum.symm,
          UInt32.le_iff_toNat_le.2 (hsum ▸ hle)⟩

theorem allExact_of_inside {calls : List UInt32}
    (h : ∀ s ∈ (r.steals calls).1, s.paddr ≠ 0 → s.Inside r.lastpaddr) : r.AllExact calls := by
  induction calls generalizing r with
  | nil => trivial
  | cons npages calls ih =>
    simp only [Ram.steals, List.mem_cons, forall_eq_or_imp] at h
    obtain ⟨hfirst, hrest⟩ := h
    refine ⟨?_, ih fun s hs => ?_⟩
    · by_contra hexact
      obtain ⟨hne, hout⟩ := not_inside_of_not_exact hexact
      exact hout (hfirst hne)
    · rw [ramStealmem_lastpaddr]
      exact hrest s hs

/-! ## The handover -/

theorem handover_log (r : Ram) (before own : List UInt32) (found : Bool) (cm : Coremap) :
    (r.handover before own found cm).1 = (r.steals (before ++ own)).1 := by
  rw [(steals_append r before own).1]
  unfold Ram.handover
  dsimp only
  split <;> rfl

/-- `ptinit` with the first free frame inside the table. -/
theorem ptinit_marks (cm : Coremap) {ramsize firstfree : UInt32}
    (haligned : firstfree.toNat % PAGE_SIZE = 0) (hle : firstfree ≤ ramsize) :
    ∃ cm', ptinit cm ramsize firstfree = .ok cm' ∧ MarksBelow cm' ramsize firstfree := by
  have hle' : firstfree.toNat / PAGE_SIZE ≤ ramsize.toNat / PAGE_SIZE :=
    Nat.div_le_div_right (UInt32.le_iff_toNat_le.1 hle)
  unfold ptinit
  dsimp only
  obtain ⟨cm₁, hrun₁, hs₁, -, -, -, -, hin₁⟩ :=
    initLoop_spec 0 1 (by decide) (firstfree.toNat / PAGE_SIZE) 0
      { cm with
        ptsize := ramsize.toNat / PAGE_SIZE
        hashedptsize := ramsize.toNat / PAGE_SIZE / 32
        hashedpt := fun _ => none } (by show 0 + _ ≤ ramsize.toNat / PAGE_SIZE; omega)
  have hsize₁ : cm₁.ptsize = ramsize.toNat / PAGE_SIZE := hs₁.ptsize
  obtain ⟨cm₂, hrun₂, hs₂, -, -, -, hout₂, hin₂⟩ :=
    initLoop_spec (-1) 0 (by decide) (ramsize.toNat / PAGE_SIZE - firstfree.toNat / PAGE_SIZE)
      (firstfree.toNat / PAGE_SIZE) cm₁ (by omega)
  rw [hrun₁]
  dsimp only
  rw [hrun₂]
  refine ⟨_, rfl, hs₂.ptsize.trans hsize₁, fun i hi => ?_⟩
  have hi' : i < ramsize.toNat / PAGE_SIZE := by
    rw [← hsize₁, ← hs₂.ptsize]
    exact hi
  split
  · next hbelow =>
    have hlt : i < firstfree.toNat / PAGE_SIZE := by
      unfold PAGE_SIZE at *
      omega
    have hown : cm₂.own i = cm₁.own i := hout₂ i (.inl hlt)
    have hmark := hin₁ i (by omega) (by omega)
    rw [← hown] at hmark
    exact hmark
  · next habove =>
    have hge : firstfree.toNat / PAGE_SIZE ≤ i := by
      unfold PAGE_SIZE at *
      omega
    exact (hin₂ i hge (by omega)).1

/-- With both bounds at 0 every request is answered with 0. -/
theorem closed_ramStealmem (npages : UInt32) :
    (Ram.ramStealmem ⟨0, 0⟩ npages).1 = 0 := by
  unfold Ram.ramStealmem
  dsimp only
  split <;> rfl

theorem handover_cases (r : Ram) (before own : List UInt32) (found : Bool) (cm : Coremap) :
    (∃ r', (r.handover before own found cm).2 = .ok (none, r')) ∨
      ((∃ s ∈ (r.steals (before ++ own)).1, s.paddr ≠ 0) ∧
        (r.handover before own found cm).2 =
          (ptinit cm r.lastpaddr (r.steals (before ++ own)).2.firstpaddr).map
            fun cm => (some cm, ⟨0, 0⟩)) := by
  rw [(steals_append r before own).1, (steals_append r before own).2]
  unfold Ram.handover Ram.ramGetsize Ram.ramGetfirstfree
  dsimp only
  rw [steals_lastpaddr]
  split
  · next hfound => exact .inr ⟨hfound.2, rfl⟩
  · exact .inl ⟨_, rfl⟩

theorem startFirstfree_aligned (end_ len : UInt32) :
    (startFirstfree end_ len - MIPS_KSEG0).toNat % PAGE_SIZE = 0 := by
  have hpage := pageOf_toNat (end_ + len + 1 + 4095)
  have hkseg : MIPS_KSEG0.toNat = 0x80000000 := rfl
  have hstack : (4096 : UInt32).toNat = 4096 := rfl
  unfold startFirstfree
  change (pageOf (end_ + len + 1 + 4095) + 4096 - MIPS_KSEG0).toNat % PAGE_SIZE = 0
  rw [UInt32.toNat_sub, UInt32.toNat_add, hpage, hkseg, hstack]
  unfold PAGE_SIZE
  omega

/-- Memory is handed over as it should be exactly if no request wraps around without being
    refused. -/
theorem handover_iff (ramsize end_ len : UInt32) (before own : List UInt32) (found : Bool)
    (cm : Coremap) :
    HandedOver (ramBootstrap ramsize (startFirstfree end_ len)) before own found cm ↔
      (ramBootstrap ramsize (startFirstfree end_ len)).AllExact (before ++ own) := by
  set r := ramBootstrap ramsize (startFirstfree end_ len) with hr
  have haligned : r.firstpaddr.toNat % PAGE_SIZE = 0 := startFirstfree_aligned end_ len
  constructor
  · intro h
    refine allExact_of_inside ?_
    rw [← handover_log r before own found cm]
    exact h.inside
  · intro h
    have hstolen := stolen_of_allExact h
    have hresult : (∃ r', (r.handover before own found cm).2 = .ok (none, r')) ∨
        ∃ cm', (r.handover before own found cm).2 = .ok (some cm', ⟨0, 0⟩) ∧
          MarksBelow cm' r.lastpaddr (r.steals (before ++ own)).2.firstpaddr := by
      rcases handover_cases r before own found cm with hnone | ⟨hgrant, hres⟩
      · exact .inl hnone
      · obtain ⟨cm', hinit, hmark⟩ :=
          ptinit_marks cm (steals_aligned haligned (before ++ own)) (hstolen.fits hgrant)
        rw [hinit] at hres
        exact .inr ⟨cm', hres, hmark⟩
    refine ⟨?_, ?_, ?_, fun cm₁ r₁ hok => ?_, fun cm₁ r₁ hok npages _ => ?_⟩
    · rw [handover_log]
      exact hstolen.inside
    · rw [handover_log]
      exact hstolen.apart
    · rcases hresult with ⟨r', hres⟩ | ⟨cm', hres, -⟩
      · exact ⟨_, hres⟩
      · exact ⟨_, hres⟩
    · rcases hresult with ⟨r', hres⟩ | ⟨cm', hres, hmark⟩
      · rw [hres] at hok
        cases hok
      · rw [hres] at hok
        cases hok
        exact hmark
    · rcases hresult with ⟨r', hres⟩ | ⟨cm', hres, -⟩
      · rw [hres] at hok
        cases hok
      · rw [hres] at hok
        cases hok
        exact closed_ramStealmem npages

/-- In a machine with 512K, a request for 2^20 - 1 pages is granted and moves `firstpaddr` down by
    one page. The next two pages are the first stack and, once more, the start of the first
    range. -/
theorem oversized_request_granted :
    ramBootstrap 0x80000 (startFirstfree 0x80030000 0) = ⟨0x32000, 0x80000⟩ ∧
      (Ram.steals ⟨0x32000, 0x80000⟩ [0xfffff, 1, 1]).1 = [⟨0xfffff, 0x32000, 0x32000⟩,
        ⟨1, 0x31000, 0x31000⟩, ⟨1, 0x32000, 0x32000⟩] ∧
      ¬ HandedOver ⟨0x32000, 0x80000⟩ [0xfffff, 1, 1] [] true blank.cm := by
  have hlog : (Ram.steals ⟨0x32000, 0x80000⟩ [0xfffff, 1, 1]).1 = [⟨0xfffff, 0x32000, 0x32000⟩,
      ⟨1, 0x31000, 0x31000⟩, ⟨1, 0x32000, 0x32000⟩] := by decide
  refine ⟨by decide, hlog, fun h => ?_⟩
  have hinside := h.inside
  rw [handover_log, List.append_nil, hlog] at hinside
  have hfirst := hinside _ (List.mem_cons_self ..) (by decide)
  exact absurd hfirst.2 (by decide)

end DemandPaging
