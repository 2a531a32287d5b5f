import Mathlib.Data.Finset.Card

set_option autoImplicit false

/-! # Counting the members with a property

How the number of members of a finite set with a property changes when the property changes at one
member only. -/

namespace DemandPaging

variable {α : Type} [DecidableEq α] {s : Finset α} {a : α}

theorem card_filter_eq (p : α → Prop) [DecidablePred p] (ha : a ∈ s) :
    (s.filter p).card = ((s.erase a).filter p).card + if p a then 1 else 0 := by
  have hsplit : s = insert a (s.erase a) := (Finset.insert_erase ha).symm
  have hnot : a ∉ (s.erase a).filter p := fun h => Finset.notMem_erase a s (Finset.mem_filter.1 h).1
  rw [hsplit, Finset.filter_insert, ← hsplit]
  split
  · rw [Finset.card_insert_of_notMem hnot]
  · rfl

/-- Only the member where the property changes makes a difference. -/
theorem card_filter_change (p p' : α → Prop) [DecidablePred p] [DecidablePred p'] (ha : a ∈ s)
    (h : ∀ b ∈ s, b ≠ a → (p' b ↔ p b)) :
    (s.filter p').card + (if p a then 1 else 0) = (s.filter p).card + if p' a then 1 else 0 := by
  have hrest : (s.erase a).filter p' = (s.erase a).filter p := by
    refine Finset.filter_congr fun b hb => ?_
    exact h b (Finset.mem_of_mem_erase hb) (Finset.ne_of_mem_erase hb)
  rw [card_filter_eq p ha, card_filter_eq p' ha, hrest]
  omega

end DemandPaging
