set_option autoImplicit false

/-! # Linear search over an index range

The C idiom `for (i = 0; i < n; i++) if (p(i)) { ind = i; break; }`, with its two outcomes: the
least index that satisfies the test, or no index at all. -/

namespace DemandPaging

/-- Search `left` indices from `i` on. -/
def searchFrom (p : Nat → Bool) : Nat → Nat → Option Nat
  | 0, _ => none
  | left + 1, i => if p i then some i else searchFrom p left (i + 1)

/-- The least `i < n` with `p i`. -/
def search (p : Nat → Bool) (n : Nat) : Option Nat := searchFrom p n 0

variable {p : Nat → Bool}

theorem searchFrom_some {left i k : Nat} (h : searchFrom p left i = some k) :
    i ≤ k ∧ k < i + left ∧ p k = true ∧ ∀ j, i ≤ j → j < k → p j = false := by
  induction left generalizing i with
  | zero => simp [searchFrom] at h
  | succ left ih =>
    rw [searchFrom] at h
    by_cases hp : p i = true
    · rw [if_pos hp] at h
      obtain rfl : i = k := by simpa using h
      exact ⟨Nat.le_refl i, by omega, hp, fun j h1 h2 => absurd h1 (by omega)⟩
    · rw [if_neg hp] at h
      obtain ⟨h1, h2, h3, h4⟩ := ih h
      refine ⟨by omega, by omega, h3, fun j hij hjk => ?_⟩
      rcases Nat.eq_or_lt_of_le hij with rfl | hlt
      · exact Bool.eq_false_iff.2 hp
      · exact h4 j hlt hjk

theorem searchFrom_none {left i : Nat} (h : searchFrom p left i = none) :
    ∀ j, i ≤ j → j < i + left → p j = false := by
  induction left generalizing i with
  | zero => intro j h1 h2; omega
  | succ left ih =>
    rw [searchFrom] at h
    by_cases hp : p i = true
    · rw [if_pos hp] at h; simp at h
    · rw [if_neg hp] at h
      intro j hij hj
      rcases Nat.eq_or_lt_of_le hij with rfl | hlt
      · exact Bool.eq_false_iff.2 hp
      · exact ih h j hlt (by omega)

theorem search_some {n k : Nat} (h : search p n = some k) :
    k < n ∧ p k = true ∧ ∀ j < k, p j = false := by
  obtain ⟨-, hlt, hp, hmin⟩ := searchFrom_some h
  exact ⟨by omega, hp, fun j hj => hmin j (by omega) hj⟩

theorem search_eq_none {n : Nat} : search p n = none ↔ ∀ j < n, p j = false := by
  constructor
  · exact fun h j hj => searchFrom_none h j (by omega) (by omega)
  · intro h
    cases hs : search p n with
    | none => rfl
    | some k =>
      obtain ⟨hlt, hp, -⟩ := search_some hs
      exact absurd (h k hlt) (by simp [hp])

end DemandPaging
