import Mathlib.Data.List.Chain
import Mathlib.Data.List.Nodup
import Mathlib.Logic.Function.Basic

set_option autoImplicit false

/-! # Doubly linked lists between bookends

Nodes of a type `α` with two link fields, read as functions `next prev : α → Option α`. A list is
the sequence of its nodes, the two bookends included, where neighbours point at each other. The file
gives the effect of putting a node between two neighbours and of taking one out. -/

namespace DemandPaging

open Function

variable {α : Type} {next prev next' prev' : α → Option α} {a b x : α} {l l₁ l₂ : List α}

/-- Two nodes that point at each other. -/
def Neighbours (next prev : α → Option α) (a b : α) : Prop :=
  next a = some b ∧ prev b = some a

/-- Each node of `l` and the one behind it point at each other. -/
def DLinked (next prev : α → Option α) (l : List α) : Prop := l.IsChain (Neighbours next prev)

/-- Only the links inside the list matter. -/
theorem DLinked.congr (h : DLinked next prev l) (hn : ∀ c ∈ l.dropLast, next' c = next c)
    (hp : ∀ c ∈ l.tail, prev' c = prev c) : DLinked next' prev' l := by
  induction l with
  | nil => exact .nil
  | cons c l ih =>
    cases l with
    | nil => exact .singleton c
    | cons d l =>
      obtain ⟨hcd, hrest⟩ := List.isChain_cons_cons.1 h
      refine List.isChain_cons_cons.2 ⟨⟨?_, ?_⟩, ih hrest (fun e he => ?_) fun e he => ?_⟩
      · rw [hn c (by simp), hcd.1]
      · rw [hp d (by simp), hcd.2]
      · exact hn e (by simp [he])
      · exact hp e (by simp only [List.tail_cons] at he ⊢; exact List.mem_cons_of_mem _ he)

/-- A list without the changed nodes is not affected. -/
theorem DLinked.frame {s : List α} (h : DLinked next prev l) (hl : ∀ c ∈ l, c ∉ s)
    (hn : ∀ c ∉ s, next' c = next c) (hp : ∀ c ∉ s, prev' c = prev c) :
    DLinked next' prev' l :=
  h.congr (fun c hc => hn c (hl c (l.dropLast_subset hc)))
    fun c hc => hp c (hl c (List.mem_of_mem_tail hc))

/-- Neighbours in the middle of a list. -/
theorem DLinked.neighbours (l₁ : List α) (h : DLinked next prev (l₁ ++ a :: b :: l₂)) :
    next a = some b ∧ prev b = some a :=
  (List.isChain_append_cons_cons.1 h).2.1

/-- With the links between two neighbours changed, the parts on both sides stay as they are. -/
theorem DLinked.parts (next' prev' : α → Option α)
    (h : DLinked next prev (l₁ ++ a :: l ++ b :: l₂)) (hnd : (l₁ ++ a :: l ++ b :: l₂).Nodup)
    (hn : ∀ c, c ∉ a :: l → next' c = next c) (hp : ∀ c, c ∉ b :: l → prev' c = prev c) :
    DLinked next' prev' (l₁ ++ [a]) ∧ DLinked next' prev' (b :: l₂) := by
  have hleft : DLinked next prev (l₁ ++ [a]) := by
    rw [List.append_assoc, List.cons_append] at h
    exact (List.isChain_split.1 h).1
  have hright : DLinked next prev (b :: l₂) := List.IsChain.right_of_append h
  simp only [List.append_assoc, List.cons_append, List.nodup_append, List.nodup_cons,
    List.mem_append, List.mem_cons] at hnd
  refine ⟨hleft.congr (fun c hc => hn c ?_) fun c hc => hp c ?_,
    hright.congr (fun c hc => hn c ?_) fun c hc => hp c ?_⟩
  · rw [List.dropLast_concat] at hc
    simp only [List.mem_cons, not_or]
    exact ⟨fun e => hnd.2.2 c hc a (.inl rfl) e, fun e => hnd.2.2 c hc c (.inr (.inl e)) rfl⟩
  · have hc := List.mem_of_mem_tail hc
    simp only [List.mem_append, List.mem_cons, List.not_mem_nil, or_false] at hc ⊢
    grind
  · have hc := List.dropLast_subset _ hc
    simp only [List.mem_cons] at hc ⊢
    grind
  · simp only [List.tail_cons, List.mem_cons] at hc ⊢
    grind

/-- A new node between two neighbours. -/
theorem DLinked.insert [DecidableEq α] (h : DLinked next prev (l₁ ++ a :: b :: l₂))
    (hnd : (l₁ ++ a :: b :: l₂).Nodup) (hx : x ∉ l₁ ++ a :: b :: l₂) :
    DLinked (update (update next x (some b)) a (some x))
      (update (update prev x (some a)) b (some x)) (l₁ ++ a :: x :: b :: l₂) := by
  have hxa : x ≠ a := by
    rintro rfl
    simp at hx
  have hxb : x ≠ b := by
    rintro rfl
    simp at hx
  have hold : DLinked (update next x (some b)) (update prev x (some a))
      (l₁ ++ a :: b :: l₂) :=
    h.frame (s := [x]) (fun c hc => by rw [List.mem_singleton]; rintro rfl; exact hx hc)
      (fun c hc => update_of_ne (by simpa using hc) ..)
      fun c hc => update_of_ne (by simpa using hc) ..
  obtain ⟨hleft, hright⟩ := DLinked.parts (l := [])
    (update (update next x (some b)) a (some x))
    (update (update prev x (some a)) b (some x))
    (by simpa using hold) (by simpa using hnd)
    (fun c hc => update_of_ne (by simpa using hc) ..)
    fun c hc => update_of_ne (by simpa using hc) ..
  refine List.isChain_append_cons_cons.2 ⟨hleft, ⟨?_, ?_⟩, List.isChain_cons_cons.2
    ⟨⟨?_, ?_⟩, hright⟩⟩
  · rw [update_self]
  · rw [update_of_ne hxb, update_self]
  · rw [update_of_ne hxa, update_self]
  · rw [update_self]

/-- A node taken out. -/
theorem DLinked.remove [DecidableEq α] (h : DLinked next prev (l₁ ++ a :: x :: b :: l₂))
    (hnd : (l₁ ++ a :: x :: b :: l₂).Nodup) :
    DLinked (update (update next a (some b)) x none)
      (update (update prev b (some a)) x none) (l₁ ++ a :: b :: l₂) := by
  have hxa : a ≠ x := by
    rintro rfl
    simp [List.nodup_append] at hnd
  have hxb : b ≠ x := by
    rintro rfl
    simp [List.nodup_append] at hnd
  obtain ⟨hleft, hright⟩ := DLinked.parts (l := [x])
    (update (update next a (some b)) x none)
    (update (update prev b (some a)) x none)
    (by simpa using h) (by simpa using hnd)
    (fun c hc => by
      simp only [List.mem_cons, List.not_mem_nil, or_false, not_or] at hc
      rw [update_of_ne hc.2, update_of_ne hc.1])
    fun c hc => by
      simp only [List.mem_cons, List.not_mem_nil, or_false, not_or] at hc
      rw [update_of_ne hc.2, update_of_ne hc.1]
  refine List.isChain_append_cons_cons.2 ⟨hleft, ⟨?_, ?_⟩, hright⟩
  · rw [update_of_ne hxa, update_self]
  · rw [update_of_ne hxb, update_self]

end DemandPaging
