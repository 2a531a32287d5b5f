import Mathlib.Data.List.Basic
import Mathlib.Data.List.Nodup
import Mathlib.Logic.Function.Basic

set_option autoImplicit false

/-! # Intrusive singly linked lists

A node type `α`, a link field read as a function `next : α → Option α`, and a head pointer.
`Linked next s l` says that following the links from `s` visits exactly the nodes of `l`, in this
order, and then meets the null link. All structure lives in `next`, so one node can sit on several
such lists at once, one per link field.

The file gives the three loops C code runs over such a list (find a node and its predecessor, find
the last node, find the node before a matching one) as fuel-bounded walks that report a missing
null or a null dereference, with one specification each, and the effect of the three updates:
append at the tail, drop the head, unlink behind a predecessor. -/

namespace DemandPaging

open Function (update update_self update_of_ne)

variable {α : Type} {next : α → Option α}

/-! ## The list predicate -/

/-- Following `next` from `s` visits exactly `l` and ends at null. -/
def Linked (next : α → Option α) : Option α → List α → Prop
  | s, [] => s = none
  | s, a :: l => s = some a ∧ Linked next (next a) l

@[simp] theorem linked_nil {s : Option α} : Linked next s [] ↔ s = none := Iff.rfl

@[simp] theorem linked_cons {s : Option α} {a : α} {l : List α} :
    Linked next s (a :: l) ↔ s = some a ∧ Linked next (next a) l := Iff.rfl

theorem Linked.head_eq {s : Option α} {l : List α} (h : Linked next s l) : s = l.head? := by
  cases l with
  | nil => simpa using h
  | cons a l => simpa using h.1

/-- The head pointer determines the list. -/
theorem Linked.unique {s : Option α} {l l' : List α} (h : Linked next s l)
    (h' : Linked next s l') : l = l' := by
  induction l generalizing s l' with
  | nil =>
    cases l' with
    | nil => rfl
    | cons b l' => exact absurd (h.symm.trans h'.1) (by simp)
  | cons a l ih =>
    cases l' with
    | nil => exact absurd (h'.symm.trans h.1) (by simp)
    | cons b l' =>
      obtain rfl : a = b := Option.some.inj (h.1.symm.trans h'.1)
      rw [ih h.2 h'.2]

/-- A node splits its list: what stands behind it is the list its own link starts. -/
theorem Linked.split {s : Option α} {l₁ l₂ : List α} {a : α}
    (h : Linked next s (l₁ ++ a :: l₂)) : Linked next (some a) (a :: l₂) := by
  induction l₁ generalizing s with
  | nil => exact ⟨rfl, h.2⟩
  | cons b l₁ ih => exact ih h.2

/-- A finite list visits no node twice: a repeated node would start the same list again. -/
theorem Linked.nodup {s : Option α} {l : List α} (h : Linked next s l) : l.Nodup := by
  induction l generalizing s with
  | nil => exact List.nodup_nil
  | cons a l ih =>
    refine List.nodup_cons.2 ⟨fun hmem => ?_, ih h.2⟩
    obtain ⟨l₁, l₂, rfl⟩ := List.append_of_mem hmem
    have hrep : Linked next (some a) (a :: l₂) := h.2.split
    have hall : Linked next (some a) (a :: (l₁ ++ a :: l₂)) := ⟨rfl, h.2⟩
    have hlen := congrArg List.length (hall.unique hrep)
    simp only [List.length_cons, List.length_append] at hlen
    omega

/-- Only the links of the listed nodes matter. -/
theorem Linked.congr {next' : α → Option α} {s : Option α} {l : List α} (h : Linked next s l)
    (heq : ∀ a ∈ l, next' a = next a) : Linked next' s l := by
  induction l generalizing s with
  | nil => exact h
  | cons a l ih =>
    refine ⟨h.1, ?_⟩
    rw [heq a (List.mem_cons_self ..)]
    exact ih h.2 (fun b hb => heq b (List.mem_cons_of_mem _ hb))

/-! ## Updates -/

section Updates

variable [DecidableEq α]

/-- Writing the link of a node outside the list does not touch the list. -/
theorem Linked.update_of_notMem {s : Option α} {l : List α} {a : α} {x : Option α}
    (h : Linked next s l) (ha : a ∉ l) : Linked (update next a x) s l :=
  h.congr (fun b hb => update_of_ne (fun he : b = a => ha (he ▸ hb)) x next)

/-- Appending: the new node gets a null link and the old last node points to it. -/
theorem Linked.snoc {s : Option α} {l : List α} {a b : α} (h : Linked next s l)
    (ha : a ∉ l) (hnull : next a = none) (hb : l.getLast? = some b) :
    Linked (update next b (some a)) s (l ++ [a]) := by
  induction l generalizing s with
  | nil => simp at hb
  | cons c l ih =>
    have hac : a ≠ c := fun he => ha (he ▸ List.mem_cons_self ..)
    have hal : a ∉ l := fun hm => ha (List.mem_cons_of_mem _ hm)
    refine ⟨h.1, ?_⟩
    cases l with
    | nil =>
      obtain rfl : c = b := by simpa using hb
      simpa [hac] using hnull
    | cons d l =>
      have hb' : (d :: l).getLast? = some b := by simpa using hb
      have hcb : c ≠ b := fun he =>
        (List.nodup_cons.1 h.nodup).1 (he ▸ List.mem_of_getLast? hb')
      rw [update_of_ne hcb]
      exact ih h.2 hal hb'

omit [DecidableEq α] in
/-- Appending to the empty list makes the new node the head. -/
theorem linked_singleton {a : α} (hnull : next a = none) : Linked next (some a) [a] :=
  ⟨rfl, hnull⟩

/-- Unlinking the node `c` behind its predecessor `b`. -/
theorem Linked.unlink {s : Option α} {l₁ l₂ : List α} {b c : α}
    (h : Linked next s (l₁ ++ b :: c :: l₂)) :
    Linked (update next b (next c)) s (l₁ ++ b :: l₂) := by
  induction l₁ generalizing s with
  | nil =>
    have hb : b ∉ l₂ := fun hm =>
      (List.nodup_cons.1 h.nodup).1 (List.mem_cons_of_mem _ hm)
    refine ⟨h.1, ?_⟩
    rw [update_self]
    exact h.2.2.update_of_notMem hb
  | cons d l₁ ih =>
    have hd : d ≠ b := fun he =>
      (List.nodup_cons.1 h.nodup).1 (he ▸ by simp)
    refine ⟨h.1, ?_⟩
    rw [update_of_ne hd]
    exact ih h.2

end Updates

/-! ## Walks -/

/-- How a walk over links can go wrong: it never meets null, or it reads through null. -/
inductive WalkFault
  | endless
  | null
deriving DecidableEq, Repr

/-- `for (n = s; n; n = n->next) if (p(n)) …` keeping the previous node in `prec`: the first
    matching node together with its predecessor. -/
def walkFind (next : α → Option α) (p : α → Bool) :
    Nat → Option α → Option α → Except WalkFault (Option (α × Option α))
  | _, none, _ => .ok none
  | 0, some _, _ => .error .endless
  | fuel + 1, some n, prec =>
    if p n then .ok (some (n, prec)) else walkFind next p fuel (next n) (some n)

/-- `for (n = a; n; n = n->next) if (n->next == NULL) …`: the last node. -/
def walkLast (next : α → Option α) : Nat → α → Except WalkFault α
  | 0, _ => .error .endless
  | fuel + 1, a =>
    match next a with
    | none => .ok a
    | some b => walkLast next fuel b

/-- `for (n = a; n; n = n->next) if (p(n->next)) …`: the node before the first match behind the
    head. `n->next` is read through without a null test. -/
def walkPrec (next : α → Option α) (p : α → Bool) : Nat → α → Except WalkFault α
  | 0, _ => .error .endless
  | fuel + 1, a =>
    match next a with
    | none => .error .null
    | some b => if p b then .ok a else walkPrec next p fuel b

theorem walkFind_none {p : α → Bool} {l : List α} :
    ∀ {fuel : Nat} {s prec : Option α}, Linked next s l → l.length ≤ fuel →
      (∀ a ∈ l, p a = false) → walkFind next p fuel s prec = .ok none := by
  induction l with
  | nil =>
    intro fuel s prec h _ _
    obtain rfl : s = none := h
    cases fuel <;> rfl
  | cons a l ih =>
    intro fuel s prec h hlen hp
    obtain ⟨rfl, htl⟩ := h
    cases fuel with
    | zero => simp at hlen
    | succ fuel =>
      rw [walkFind, hp a (List.mem_cons_self ..)]
      exact ih htl (by simpa using hlen) (fun b hb => hp b (List.mem_cons_of_mem _ hb))

/-- The walk stops at the first match and hands back the node before it. -/
theorem walkFind_some {p : α → Bool} {l₁ l₂ : List α} {c : α} :
    ∀ {fuel : Nat} {s prec : Option α}, Linked next s (l₁ ++ c :: l₂) → l₁.length < fuel →
      (∀ a ∈ l₁, p a = false) → p c = true →
      walkFind next p fuel s prec = .ok (some (c, l₁.getLast?.or prec)) := by
  induction l₁ with
  | nil =>
    intro fuel s prec h hlen _ hc
    obtain ⟨rfl, -⟩ := h
    cases fuel with
    | zero => simp at hlen
    | succ fuel => simp [walkFind, hc]
  | cons a l₁ ih =>
    intro fuel s prec h hlen hp hc
    obtain ⟨rfl, htl⟩ := h
    cases fuel with
    | zero => simp at hlen
    | succ fuel =>
      rw [walkFind, hp a (List.mem_cons_self ..)]
      have hrest : walkFind next p fuel (next a) (some a)
          = .ok (some (c, l₁.getLast?.or (some a))) :=
        ih htl (by simpa using hlen) (fun b hb => hp b (List.mem_cons_of_mem _ hb)) hc
      rw [if_neg (by simp), hrest]
      cases l₁ <;> simp [List.getLast?_cons]

theorem walkLast_eq {l : List α} :
    ∀ {fuel : Nat} {a b : α}, Linked next (some a) l → l.length ≤ fuel →
      l.getLast? = some b → walkLast next fuel a = .ok b := by
  induction l with
  | nil => intro fuel a b _ _ hb; simp at hb
  | cons c l ih =>
    intro fuel a b h hlen hb
    obtain rfl : a = c := Option.some.inj h.1
    cases fuel with
    | zero => simp at hlen
    | succ fuel =>
      rw [walkLast]
      cases l with
      | nil =>
        obtain rfl : a = b := by simpa using hb
        rw [show next a = none from h.2]
      | cons d l =>
        rw [h.2.1]
        exact ih ⟨rfl, h.2.2⟩ (by simpa using hlen) (by simpa using hb)

/-- The predecessor walk never reads through null when a match stands behind the head. -/
theorem walkPrec_eq {p : α → Bool} {l₁ l₂ : List α} {b c : α} :
    ∀ {fuel : Nat} {a : α}, Linked next (some a) (l₁ ++ b :: c :: l₂) → l₁.length < fuel →
      (∀ x ∈ (l₁ ++ [b]).tail, p x = false) → p c = true →
      walkPrec next p fuel a = .ok b := by
  induction l₁ with
  | nil =>
    intro fuel a h hlen _ hc
    obtain rfl : a = b := Option.some.inj h.1
    cases fuel with
    | zero => simp at hlen
    | succ fuel => rw [walkPrec, h.2.1]; simp [hc]
  | cons d l₁ ih =>
    intro fuel a h hlen hp hc
    obtain rfl : a = d := Option.some.inj h.1
    cases fuel with
    | zero => simp at hlen
    | succ fuel =>
      -- the next node is the head of what is left, and it does not match
      obtain ⟨e, l', hl'⟩ : ∃ e l', l₁ ++ b :: c :: l₂ = e :: l' ∧ p e = false := by
        cases l₁ with
        | nil => exact ⟨b, _, rfl, hp b (by simp)⟩
        | cons e l₁ => exact ⟨e, _, rfl, hp e (by simp)⟩
      have htl : Linked next (next a) (e :: l') := hl'.1 ▸ h.2
      rw [walkPrec, htl.1]
      simp only [hl'.2, Bool.false_eq_true, if_false]
      refine ih ?_ (by simpa using hlen) (fun x hx => hp x ?_) hc
      · rw [hl'.1]; exact ⟨rfl, htl.2⟩
      · have := List.mem_of_mem_tail hx
        simpa using this

/-- Unlinking a node wherever it stands, with a loop `for (guy = &base; *guy; guy = &(*guy)->next)`:
    the head and the links that are left. -/
def removeNode [DecidableEq α] (next : α → Option α) (fuel : Nat) (base : Option α) (a : α) :
    Except WalkFault (Option α × (α → Option α)) :=
  match walkFind next (fun b => b == a) fuel base none with
  | .error e => .error e
  | .ok none => .ok (base, next)
  | .ok (some (_, none)) => .ok (next a, next)
  | .ok (some (_, some b)) => .ok (base, update next b (next a))

theorem removeNode_eq [DecidableEq α] {l : List α} {fuel : Nat} {base : Option α} {a : α}
    (h : Linked next base l) (hlen : l.length ≤ fuel) (ha : a ∈ l) :
    ∃ base' next', removeNode next fuel base a = .ok (base', next') ∧
      Linked next' base' (l.erase a) ∧ ∀ b, b ∉ l → next' b = next b := by
  obtain ⟨l₁, l₂, rfl, ha₁⟩ := List.eq_append_cons_of_mem ha
  have hl₁ : ∀ b ∈ l₁, (b == a) = false := fun b hb =>
    beq_false_of_ne fun he => ha₁ (he ▸ hb)
  have hfind : walkFind next (fun b => b == a) fuel base none
      = .ok (some (a, l₁.getLast?.or none)) :=
    walkFind_some h (Nat.lt_of_lt_of_le (by simp) hlen) hl₁ (by simp)
  rw [removeNode, hfind, List.erase_append_right _ ha₁, List.erase_cons_head]
  cases hlast : l₁.getLast? with
  | none =>
    obtain rfl : l₁ = [] := by simpa using hlast
    exact ⟨next a, next, rfl, h.2, fun _ _ => rfl⟩
  | some b =>
    obtain ⟨l₀, rfl⟩ : ∃ l₀, l₁ = l₀ ++ [b] := by
      obtain ⟨l₀, hl₀⟩ := List.getLast?_eq_some_iff.1 hlast
      exact ⟨l₀, hl₀⟩
    refine ⟨base, _, rfl, ?_, fun c hc => update_of_ne ?_ _ _⟩
    · have hmid : Linked next base (l₀ ++ b :: a :: l₂) := by simpa using h
      simpa using hmid.unlink
    · rintro rfl
      exact hc (by simp)

end DemandPaging
