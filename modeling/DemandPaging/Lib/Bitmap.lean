import DemandPaging.Lib.Count
import DemandPaging.Lib.Search
import Mathlib.Data.Finset.Range

set_option autoImplicit false

/-! # Bitmaps that are searched word by word

A bitmap is a function `bits : Nat → Bool`, kept in words of `w` bits. The search for a clear bit
skips the words that are full and then looks at the bits of one word, so it finds the least clear
bit. `countSet` is the number of bits set below a bound. -/

namespace DemandPaging

variable {bits : Nat → Bool} {w n i j k : Nat}

/-- All bits of the word `i` are set. -/
def wordFull (bits : Nat → Bool) (w i : Nat) : Bool := (List.range w).all fun j => bits (i * w + j)

/-- The first of `n` words that is not full. -/
def firstWord (bits : Nat → Bool) (w n : Nat) : Option Nat :=
  search (fun i => !wordFull bits w i) n

/-- The first clear bit of the word `i`. -/
def firstBit (bits : Nat → Bool) (w i : Nat) : Option Nat := search (fun j => !bits (i * w + j)) w

/-- The number of bits set below `n`. -/
def countSet (bits : Nat → Bool) (n : Nat) : Nat :=
  ((Finset.range n).filter fun k => bits k = true).card

theorem wordFull_eq_true : wordFull bits w i = true ↔ ∀ j < w, bits (i * w + j) = true := by
  simp [wordFull]

/-- A word that is not full has a clear bit. -/
theorem exists_firstBit (h : wordFull bits w i = false) : ∃ j, firstBit bits w i = some j := by
  cases hb : firstBit bits w i with
  | some j => exact ⟨j, rfl⟩
  | none =>
    have hall := search_eq_none.1 hb
    have : wordFull bits w i = true := wordFull_eq_true.2 fun j hj => by simpa using hall j hj
    rw [h] at this
    cases this

/-- The index of a bit splits into its word and its place in the word. -/
theorem bit_split (hw : 0 < w) (k : Nat) : k / w * w + k % w = k ∧ k % w < w :=
  ⟨Nat.div_add_mod' k w, Nat.mod_lt k hw⟩

/-- When every word is full, so is the bitmap. -/
theorem all_set_of_firstWord (hw : 0 < w) (h : firstWord bits w n = none) :
    ∀ k < n * w, bits k = true := by
  intro k hk
  obtain ⟨hsplit, hmod⟩ := bit_split hw k
  have hdiv : k / w < n := (Nat.div_lt_iff_lt_mul hw).2 hk
  have hfull := search_eq_none.1 h (k / w) hdiv
  rw [← hsplit]
  exact wordFull_eq_true.1 (by simpa using hfull) (k % w) hmod

theorem firstWord_not_full (h : firstWord bits w n = some i) : wordFull bits w i = false := by
  simpa using (search_some h).2.1

/-- The search finds the least clear bit. -/
theorem first_clear (hw : 0 < w) (hi : firstWord bits w n = some i)
    (hj : firstBit bits w i = some j) :
    i * w + j < n * w ∧ bits (i * w + j) = false ∧ ∀ k < i * w + j, bits k = true := by
  obtain ⟨hin, -, himin⟩ := search_some hi
  obtain ⟨hjw, hclear, hjmin⟩ := search_some hj
  have hbound : i * w + w ≤ n * w := by
    have := Nat.mul_le_mul_right w (show i + 1 ≤ n from hin)
    rwa [Nat.succ_mul] at this
  refine ⟨by omega, by simpa using hclear, fun k hk => ?_⟩
  obtain ⟨hsplit, hmod⟩ := bit_split hw k
  have hle : k / w ≤ i := by
    rw [Nat.div_le_iff_le_mul_add_pred hw, Nat.mul_comm]
    omega
  rcases Nat.lt_or_eq_of_le hle with hlt | heq
  · rw [← hsplit]
    exact wordFull_eq_true.1 (by simpa using himin (k / w) hlt) (k % w) hmod
  · have hkj : k % w < j := by
      rw [heq] at hsplit
      omega
    rw [← hsplit, heq]
    simpa using hjmin (k % w) hkj

/-! ## Counting -/

theorem countSet_update_true (hk : k < n) (h : bits k = false) :
    countSet (Function.update bits k true) n = countSet bits n + 1 := by
  have := card_filter_change (fun k => bits k = true)
    (fun l => Function.update bits k true l = true) (Finset.mem_range.2 hk)
    (fun b _ hb => by rw [Function.update_of_ne hb])
  simpa [countSet, h] using this

theorem countSet_update_false (hk : k < n) (h : bits k = true) :
    countSet (Function.update bits k false) n + 1 = countSet bits n := by
  have := card_filter_change (fun k => bits k = true)
    (fun l => Function.update bits k false l = true) (Finset.mem_range.2 hk)
    (fun b _ hb => by rw [Function.update_of_ne hb])
  simpa [countSet, h] using this

theorem countSet_pos (hk : k < n) (h : bits k = true) : 0 < countSet bits n :=
  Finset.card_pos.2 ⟨k, Finset.mem_filter.2 ⟨Finset.mem_range.2 hk, h⟩⟩

theorem countSet_eq_of_all (h : ∀ k < n, bits k = true) : countSet bits n = n := by
  rw [countSet, Finset.filter_true_of_mem fun k hk => h k (Finset.mem_range.1 hk),
    Finset.card_range]

theorem all_set_of_countSet_eq (h : countSet bits n = n) : ∀ k < n, bits k = true := by
  intro k hk
  have hall := Finset.filter_card_eq (h.trans (Finset.card_range n).symm)
  exact hall k (Finset.mem_range.2 hk)

end DemandPaging
