import DemandPaging.Basic
import DemandPaging.Lib.Search

set_option autoImplicit false

/-! # The swap file (`swapfile.c`)

`swappagesmap` names the page each 4096-byte slot of the file holds; the file itself is a byte
array. `swapinpage` and `swapoutpage` sleep in the file system between their two halves, so each
half is a definition of its own: claiming a slot and writing it, finding a slot and, after the
read, releasing it. -/

namespace DemandPaging

/-- `SWAPFILESIZE/PAGE_SIZE`, with `SWAPFILESIZE` nine megabytes. -/
def SWAPPAGES : Nat := 9 * 1024 * 1024 / PAGE_SIZE

/-- `struct swappage`. -/
structure SwapPage where
  pid : Int
  addr : VAddr
deriving DecidableEq, Repr

/-- The map of the slots, its high-water mark and the bytes of the file. -/
structure Swapfile where
  swappagesmap : Nat → SwapPage
  maxindswappedpage : Nat
  swapfile : Nat → UInt8

namespace Swapfile

variable (sw : Swapfile)

/-- `swapinit`: every slot is free. -/
def swapinit : Swapfile :=
  { sw with swappagesmap := fun _ => { pid := -1, addr := 0 } }

/-- The first half of `swapinpage`: claim the first free slot for the page. -/
def claimSlot (pid : Int) (addr : VAddr) : Option (Swapfile × Nat) :=
  match search (fun i => (sw.swappagesmap i).pid == -1) SWAPPAGES with
  | none => none
  | some i =>
    some ({ sw with
        swappagesmap := Function.update sw.swappagesmap i { pid := pid, addr := addr },
        maxindswappedpage := if sw.maxindswappedpage ≤ i then i else sw.maxindswappedpage }, i)

/-- `VOP_WRITE` of one page at the offset of a slot. -/
def writeSlot (slot : Nat) (page : Page) : Swapfile :=
  { sw with swapfile := fun o =>
      if h : slot * PAGE_SIZE ≤ o ∧ o < slot * PAGE_SIZE + PAGE_SIZE
      then page ⟨o - slot * PAGE_SIZE, by omega⟩ else sw.swapfile o }

/-- What `VOP_READ` delivers from a slot. -/
def readSlot (slot : Nat) : Page := fun o => sw.swapfile (slot * PAGE_SIZE + o.val)

/-- The first half of `swapoutpage`: the slot that holds the page. -/
def findSlot (pid : Int) (addr : VAddr) : Option Nat :=
  search (fun i => (sw.swappagesmap i).pid == pid && (sw.swappagesmap i).addr == addr) SWAPPAGES

/-- The last assignments of `swapoutpage`. -/
def releaseSlot (slot : Nat) : Swapfile :=
  { sw with swappagesmap := Function.update sw.swappagesmap slot { pid := -1, addr := 0 } }

/-- `removeswapentries`: the loop's rounds are independent of each other, and it stops at the
    high-water mark. -/
def removeswapentries (pid : Int) : Swapfile :=
  { sw with swappagesmap := fun i =>
      if i ≤ sw.maxindswappedpage ∧ (sw.swappagesmap i).pid = pid then { pid := -1, addr := 0 }
      else sw.swappagesmap i }

/-! ## Slots and their contents -/

/-- Slot `k` holds page `v` of process `pid`. -/
def Holds (pid : Int) (v : VAddr) (k : Nat) : Prop :=
  k < SWAPPAGES ∧ 0 < pid ∧ (sw.swappagesmap k).pid = pid ∧ (sw.swappagesmap k).addr = v

/-- A slot is free or belongs to a process, and lies below the high-water mark if it is taken. -/
structure Bounded : Prop where
  range : ∀ k < SWAPPAGES, (sw.swappagesmap k).pid = -1 ∨ 0 < (sw.swappagesmap k).pid
  high : ∀ k < SWAPPAGES, (sw.swappagesmap k).pid ≠ -1 → k ≤ sw.maxindswappedpage

end Swapfile

variable {sw : Swapfile} {pid : Int} {v : VAddr}

instance (sw : Swapfile) (pid : Int) (v : VAddr) (k : Nat) : Decidable (sw.Holds pid v k) :=
  inferInstanceAs (Decidable (_ ∧ _))

theorem swapinit_bounded (sw : Swapfile) : sw.swapinit.Bounded :=
  ⟨fun _ _ => .inl rfl, fun _ _ h => absurd rfl h⟩

theorem swapinit_holds (sw : Swapfile) (pid : Int) (v : VAddr) (k : Nat) :
    ¬ sw.swapinit.Holds pid v k := by
  rintro ⟨-, hpos, hpid, -⟩
  have hpid' : (-1 : Int) = pid := hpid
  omega

/-- Reading back what was written, and nothing else of the file changes slot-wise. -/
theorem readSlot_writeSlot (sw : Swapfile) (k j : Nat) (page : Page) :
    (sw.writeSlot k page).readSlot j = if j = k then page else sw.readSlot j := by
  funext o
  have ho := o.isLt
  by_cases hjk : j = k
  · subst hjk
    simp only [Swapfile.readSlot, Swapfile.writeSlot, if_true]
    rw [dif_pos ⟨by omega, by omega⟩]
    congr 1
    exact Fin.ext (by simp)
  · simp only [Swapfile.readSlot, Swapfile.writeSlot, if_neg hjk]
    rw [dif_neg]
    unfold PAGE_SIZE at *
    omega

theorem holds_writeSlot (sw : Swapfile) (j : Nat) (page : Page) (k : Nat) :
    (sw.writeSlot j page).Holds pid v k ↔ sw.Holds pid v k := Iff.rfl

theorem Swapfile.Bounded.writeSlot (h : sw.Bounded) (j : Nat) (page : Page) :
    (sw.writeSlot j page).Bounded := ⟨h.range, h.high⟩

/-- `claimSlot` takes a slot nobody holds and keeps the file. -/
theorem claimSlot_spec {sw' : Swapfile} {k : Nat} (h : sw.claimSlot pid v = some (sw', k))
    (hpos : 0 < pid) :
    k < SWAPPAGES ∧ (∀ p w, ¬ sw.Holds p w k) ∧ (∀ p w j, sw'.Holds p w j ↔
      sw.Holds p w j ∨ (j = k ∧ p = pid ∧ w = v)) ∧ sw'.swapfile = sw.swapfile := by
  unfold Swapfile.claimSlot at h
  cases hs : search (fun i => (sw.swappagesmap i).pid == -1) SWAPPAGES with
  | none => rw [hs] at h; simp at h
  | some i =>
    rw [hs] at h
    simp only [Option.some.injEq, Prod.mk.injEq] at h
    obtain ⟨rfl, rfl⟩ := h
    obtain ⟨hlt, hfree, -⟩ := search_some hs
    have hfree' : (sw.swappagesmap i).pid = -1 := by simpa using hfree
    have hnone : ∀ p w, ¬ sw.Holds p w i := by
      rintro p w ⟨-, hp, hpid, -⟩
      omega
    refine ⟨hlt, hnone, fun p w j => ?_, rfl⟩
    by_cases hj : j = i
    · subst hj
      simp only [Swapfile.Holds, Function.update_self, true_and]
      constructor
      · rintro ⟨-, -, rfl, rfl⟩; exact .inr ⟨rfl, rfl⟩
      · rintro (⟨-, hp, hpid, -⟩ | ⟨rfl, rfl⟩)
        · omega
        · exact ⟨hlt, hpos, rfl, rfl⟩
    · simp [Swapfile.Holds, hj]

theorem claimSlot_bounded {sw' : Swapfile} {k : Nat} (h : sw.claimSlot pid v = some (sw', k))
    (hpos : 0 < pid) (hb : sw.Bounded) : sw'.Bounded := by
  unfold Swapfile.claimSlot at h
  cases hs : search (fun i => (sw.swappagesmap i).pid == -1) SWAPPAGES with
  | none => rw [hs] at h; simp at h
  | some i =>
    rw [hs] at h
    simp only [Option.some.injEq, Prod.mk.injEq] at h
    obtain ⟨rfl, rfl⟩ := h
    constructor
    · intro j hj
      by_cases hji : j = i
      · subst hji; simp [hpos]
      · simpa [hji] using hb.range j hj
    · intro j hj hne
      by_cases hji : j = i
      · subst hji
        show j ≤ if sw.maxindswappedpage ≤ j then j else sw.maxindswappedpage
        split <;> omega
      · have := hb.high j hj (by simpa [hji] using hne)
        show j ≤ if sw.maxindswappedpage ≤ i then i else sw.maxindswappedpage
        split <;> omega

/-- Claiming fails only when every slot is taken. -/
theorem claimSlot_eq_none : sw.claimSlot pid v = none ↔
    ∀ k < SWAPPAGES, (sw.swappagesmap k).pid ≠ -1 := by
  unfold Swapfile.claimSlot
  cases hs : search (fun i => (sw.swappagesmap i).pid == -1) SWAPPAGES with
  | none => simpa using search_eq_none.1 hs
  | some i =>
    obtain ⟨hlt, hfree, -⟩ := search_some hs
    simp only [reduceCtorEq, false_iff, not_forall]
    exact ⟨i, hlt, by simpa using hfree⟩

theorem findSlot_some {k : Nat} (h : sw.findSlot pid v = some k) (hpos : 0 < pid) :
    sw.Holds pid v k := by
  obtain ⟨hlt, hp, -⟩ := search_some h
  simp only [Bool.and_eq_true, beq_iff_eq] at hp
  exact ⟨hlt, hpos, hp.1, hp.2⟩

theorem findSlot_none (h : sw.findSlot pid v = none) (k : Nat) : ¬ sw.Holds pid v k := by
  rintro ⟨hlt, -, h1, h2⟩
  have := search_eq_none.1 h k hlt
  simp [h1, h2] at this

theorem holds_releaseSlot (sw : Swapfile) (k : Nat) (p : Int) (w : VAddr) (j : Nat) :
    (sw.releaseSlot k).Holds p w j ↔ sw.Holds p w j ∧ j ≠ k := by
  by_cases hj : j = k
  · subst hj
    simp only [Swapfile.Holds, Swapfile.releaseSlot, Function.update_self, ne_eq, not_true,
      and_false, iff_false, not_and]
    omega
  · simp [Swapfile.Holds, Swapfile.releaseSlot, hj]

theorem Swapfile.Bounded.releaseSlot (h : sw.Bounded) (k : Nat) : (sw.releaseSlot k).Bounded := by
  constructor
  · intro j hj
    by_cases hjk : j = k
    · subst hjk; simp [Swapfile.releaseSlot]
    · simpa [Swapfile.releaseSlot, hjk] using h.range j hj
  · intro j hj hne
    by_cases hjk : j = k
    · subst hjk; simp [Swapfile.releaseSlot] at hne
    · exact h.high j hj (by simpa [Swapfile.releaseSlot, hjk] using hne)

/-- The high-water mark is what makes the loop of `removeswapentries` reach every slot. -/
theorem holds_removeswapentries (h : sw.Bounded) (p : Int) (w : VAddr) (j : Nat) :
    (sw.removeswapentries pid).Holds p w j ↔ sw.Holds p w j ∧ p ≠ pid := by
  simp only [Swapfile.Holds, Swapfile.removeswapentries]
  split
  · next hc =>
    simp only [hc.2]
    constructor
    · rintro ⟨-, hp, hpid, -⟩; omega
    · rintro ⟨⟨-, -, rfl, -⟩, hne⟩; exact absurd rfl hne
  · next hc =>
    refine ⟨fun hh => ⟨hh, fun hpp => hc ⟨?_, hh.2.2.1.trans hpp⟩⟩, fun hh => hh.1⟩
    exact h.high j hh.1 (by have := hh.2.1; have := hh.2.2.1; omega)

theorem Swapfile.Bounded.removeswapentries (h : sw.Bounded) (p : Int) :
    (sw.removeswapentries p).Bounded := by
  constructor
  · intro j hj
    simp only [Swapfile.removeswapentries]
    split
    · exact .inl rfl
    · exact h.range j hj
  · intro j hj hne
    simp only [Swapfile.removeswapentries] at hne
    split at hne
    · exact absurd rfl hne
    · exact h.high j hj hne

end DemandPaging
