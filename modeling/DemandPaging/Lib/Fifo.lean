import Mathlib.Data.List.Basic

set_option autoImplicit false

/-! # Queues that elements leave early

A queue in the order of arrival. The oldest element is evicted when a new one needs its place, and
elements may be taken out of the middle at any time. `QueueOp.apply` is the effect of an operation
on the list of elements. To speak about the order of arrival over a whole run, `QueueOp.next` does
the same to a list of elements that carry the number of the operation that brought them in. -/

namespace DemandPaging

variable {α : Type}

/-- An element newly arrives, arrives in the place of the oldest, or all elements with a property
    leave. -/
inductive QueueOp (α : Type)
  | insert (a : α)
  | replace (a : α)
  | remove (p : α → Bool)
  | idle

/-- The effect on the elements, oldest first. -/
def QueueOp.apply (op : QueueOp α) (l : List α) : List α :=
  match op with
  | .insert a => l ++ [a]
  | .replace a => l.tail ++ [a]
  | .remove p => l.filter fun a => !p a
  | .idle => l

/-- An element and the number of the operation that brought it in. -/
structure Stamped (α : Type) where
  val : α
  born : Nat

/-- Operation number `now`, with the arriving element stamped. -/
def QueueOp.next (op : QueueOp α) (now : Nat) (l : List (Stamped α)) : List (Stamped α) :=
  match op with
  | .insert a => l ++ [⟨a, now⟩]
  | .replace a => l.tail ++ [⟨a, now⟩]
  | .remove p => l.filter fun e => !p e.val
  | .idle => l

/-- The element that is evicted. -/
def QueueOp.evicts (op : QueueOp α) (l : List (Stamped α)) : Option (Stamped α) :=
  match op with
  | .replace _ => l.head?
  | _ => none

/-- The queue after `n` operations, from the empty queue. -/
def queueRun (ops : Nat → QueueOp α) : Nat → List (Stamped α)
  | 0 => []
  | n + 1 => (ops n).next n (queueRun ops n)

variable {l : List (Stamped α)} {now b : Nat}

/-- Stamps do not change what the operations do. -/
theorem map_val_next (op : QueueOp α) (now : Nat) (l : List (Stamped α)) :
    (op.next now l).map Stamped.val = op.apply (l.map Stamped.val) := by
  cases op with
  | insert a | replace a => simp [QueueOp.next, QueueOp.apply]
  | remove p => simp [QueueOp.next, QueueOp.apply, List.filter_map, Function.comp_def]
  | idle => rfl

/-! ## Order of arrival -/

/-- Oldest first, and nothing from the future. -/
structure Aged (now : Nat) (l : List (Stamped α)) : Prop where
  sorted : l.Pairwise fun e e' => e.born < e'.born
  past : ∀ e ∈ l, e.born < now

theorem Aged.append (h : Aged now l) (a : α) : Aged (now + 1) (l ++ [⟨a, now⟩]) where
  sorted := by
    rw [List.pairwise_append]
    refine ⟨h.sorted, List.pairwise_singleton .., fun e he e' he' => ?_⟩
    obtain rfl := List.mem_singleton.1 he'
    exact h.past e he
  past := by
    intro e he
    rcases List.mem_append.1 he with he | he
    · exact Nat.lt_succ_of_lt (h.past e he)
    · obtain rfl := List.mem_singleton.1 he
      exact Nat.lt_succ_self now

theorem Aged.sublist {l' : List (Stamped α)} (h : Aged now l) (hs : l'.Sublist l) : Aged now l' :=
  ⟨h.sorted.sublist hs, fun e he => h.past e (hs.subset he)⟩

theorem Aged.later (h : Aged now l) : Aged (now + 1) l :=
  ⟨h.sorted, fun e he => Nat.lt_succ_of_lt (h.past e he)⟩

theorem Aged.next (h : Aged now l) (op : QueueOp α) : Aged (now + 1) (op.next now l) := by
  cases op with
  | insert a => exact h.append a
  | replace a => exact (h.sublist (List.tail_sublist l)).append a
  | remove p => exact (h.sublist List.filter_sublist).later
  | idle => exact h.later

theorem queueRun_aged (ops : Nat → QueueOp α) (n : Nat) : Aged n (queueRun ops n) := by
  induction n with
  | zero => exact ⟨.nil, by simp [queueRun]⟩
  | succ n ih => exact ih.next (ops n)

theorem mem_next {op : QueueOp α} {e : Stamped α} (h : e ∈ op.next now l) :
    e ∈ l ∨ e.born = now ∧ (op = .insert e.val ∨ op = .replace e.val) := by
  cases op with
  | insert a =>
    rcases List.mem_append.1 h with h | h
    · exact .inl h
    · obtain rfl := List.mem_singleton.1 h
      exact .inr ⟨rfl, .inl rfl⟩
  | replace a =>
    rcases List.mem_append.1 h with h | h
    · exact .inl (List.mem_of_mem_tail h)
    · obtain rfl := List.mem_singleton.1 h
      exact .inr ⟨rfl, .inr rfl⟩
  | remove p => exact .inl (List.mem_of_mem_filter h)
  | idle => exact .inl h

/-- An element's stamp names the operation that brought it in. -/
theorem queueRun_born {ops : Nat → QueueOp α} {n : Nat} {e : Stamped α} (h : e ∈ queueRun ops n) :
    ops e.born = .insert e.val ∨ ops e.born = .replace e.val := by
  induction n with
  | zero => cases h
  | succ n ih =>
    rcases mem_next h with h | ⟨hb, hop⟩
    · exact ih h
    · exact hb ▸ hop

/-- Nothing older than what is there arrives. -/
theorem next_young (op : QueueOp α) (h : ∀ e ∈ l, b < e.born) (hb : b < now) :
    ∀ e ∈ op.next now l, b < e.born := by
  intro e he
  rcases mem_next he with he | ⟨hnow, -⟩
  · exact h e he
  · exact hnow ▸ hb

/-- What stays behind an evicted element is younger. -/
theorem evicts_young {op : QueueOp α} {e : Stamped α} (h : Aged now l)
    (he : op.evicts l = some e) : e.born < now ∧ ∀ e' ∈ op.next now l, e.born < e'.born := by
  cases op with
  | replace a =>
    obtain ⟨t, rfl⟩ : ∃ t, l = e :: t := List.head?_eq_some_iff.1 he
    have hpast := h.past e (List.mem_cons_self ..)
    refine ⟨hpast, fun e' he' => ?_⟩
    rcases List.mem_append.1 he' with he' | he'
    · exact List.rel_of_pairwise_cons h.sorted he'
    · exact List.mem_singleton.1 he' ▸ hpast
  | insert a => cases he
  | remove p => cases he
  | idle => cases he

/-- Elements are evicted in the order in which they arrived. -/
theorem evicts_in_order {ops : Nat → QueueOp α} {i j : Nat} {e e' : Stamped α} (hij : i < j)
    (he : (ops i).evicts (queueRun ops i) = some e)
    (he' : (ops j).evicts (queueRun ops j) = some e') : e.born < e'.born := by
  have hyoung : ∀ k, ∀ x ∈ queueRun ops (i + 1 + k), e.born < x.born := by
    intro k
    obtain ⟨hlt, hnext⟩ := evicts_young (queueRun_aged ops i) he
    induction k with
    | zero => exact hnext
    | succ k ih =>
      have hb : e.born < i + 1 + k := by omega
      exact next_young (ops (i + 1 + k)) ih hb
  have hmem : e' ∈ queueRun ops j := by
    cases hop : ops j with
    | replace a => rw [hop] at he'; exact List.mem_of_mem_head? he'
    | insert a | remove p | idle => rw [hop] at he'; cases he'
  have hj : i + 1 + (j - (i + 1)) = j := by omega
  exact hyoung (j - (i + 1)) e' (hj.symm ▸ hmem)

end DemandPaging
