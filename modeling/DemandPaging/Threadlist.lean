import DemandPaging.Basic
import DemandPaging.Lib.DList

set_option autoImplicit false

/-! # Thread lists

`kern/thread/threadlist.c`. A list is doubly linked, with two bookends that belong to it, and a
thread has one list node, so that it is on one list at a time. The links of all lists are kept in
one structure: `ι` names the lists and `τ` the threads. From `threadlist_insertafternode` on the
functions have their names without the first word.

`Holds` says which threads each list holds. Each operation of the file is shown to change that as a
list operation does, without following a null pointer. -/

namespace DemandPaging

open Function

/-- A `struct threadlistnode`: a bookend of a list, or the node inside a thread. -/
inductive Listnode (ι τ : Type)
  | tl_head (l : ι)
  | tl_tail (l : ι)
  | t_listnode (t : τ)
deriving DecidableEq

/-- The thread of a node; NULL in the bookends. -/
def Listnode.tln_self {ι τ : Type} : Listnode ι τ → Option τ
  | t_listnode t => some t
  | _ => none

/-- All thread lists. -/
structure Threadlists (ι τ : Type) where
  tln_prev : Listnode ι τ → Option (Listnode ι τ)
  tln_next : Listnode ι τ → Option (Listnode ι τ)
  tl_count : ι → UInt32

/-- Following a pointer. -/
def deref {α : Type} : Option α → Except Crash α
  | some a => .ok a
  | none => .error .nullDeref

namespace Threadlists

open Listnode

variable {ι τ : Type}

/-! ## The operations -/

section Operations

variable [DecidableEq ι] [DecidableEq τ] (s : Threadlists ι τ)

def setNext (n : Listnode ι τ) (p : Option (Listnode ι τ)) : Threadlists ι τ :=
  { s with tln_next := update s.tln_next n p }

def setPrev (n : Listnode ι τ) (p : Option (Listnode ι τ)) : Threadlists ι τ :=
  { s with tln_prev := update s.tln_prev n p }

def setCount (l : ι) (n : UInt32) : Threadlists ι τ :=
  { s with tl_count := update s.tl_count l n }

def threadlistInit (l : ι) : Threadlists ι τ :=
  ((((s.setNext (tl_head l) (some (tl_tail l))).setPrev (tl_head l) none).setNext
    (tl_tail l) none).setPrev (tl_tail l) (some (tl_head l))).setCount l 0

def threadlistIsempty (l : ι) : Bool := s.tl_count l = 0

def threadlistCleanup (l : ι) : Except Crash Unit := do
  kassert (s.threadlistIsempty l)
  kassert (s.tl_count l = 0)

def insertafternode (onlist : Listnode ι τ) (t : τ) : Except Crash (Threadlists ι τ) := do
  let addee := t_listnode t
  let s := s.setPrev addee (some onlist)
  let s := s.setNext addee (s.tln_next onlist)
  let prev ← deref (s.tln_prev addee)
  let s := s.setNext prev (some addee)
  let next ← deref (s.tln_next addee)
  return s.setPrev next (some addee)

def insertbeforenode (t : τ) (onlist : Listnode ι τ) : Except Crash (Threadlists ι τ) := do
  let addee := t_listnode t
  let s := s.setPrev addee (s.tln_prev onlist)
  let s := s.setNext addee (some onlist)
  let prev ← deref (s.tln_prev addee)
  let s := s.setNext prev (some addee)
  let next ← deref (s.tln_next addee)
  return s.setPrev next (some addee)

def removenode (tln : Listnode ι τ) : Except Crash (Threadlists ι τ) := do
  let prev ← deref (s.tln_prev tln)
  let s := s.setNext prev (s.tln_next tln)
  let next ← deref (s.tln_next tln)
  let s := s.setPrev next (s.tln_prev tln)
  let s := s.setPrev tln none
  return s.setNext tln none

def addhead (l : ι) (t : τ) : Except Crash (Threadlists ι τ) := do
  let s ← s.insertafternode (tl_head l) t
  return s.setCount l (s.tl_count l + 1)

def addtail (l : ι) (t : τ) : Except Crash (Threadlists ι τ) := do
  let s ← s.insertbeforenode t (tl_tail l)
  return s.setCount l (s.tl_count l + 1)

def remhead (l : ι) : Except Crash (Option τ × Threadlists ι τ) := do
  let tln ← deref (s.tln_next (tl_head l))
  if s.tln_next tln = none then return (none, s)
  else
    let s ← s.removenode tln
    return (tln.tln_self, s.setCount l (s.tl_count l - 1))

def remtail (l : ι) : Except Crash (Option τ × Threadlists ι τ) := do
  let tln ← deref (s.tln_prev (tl_tail l))
  if s.tln_prev tln = none then return (none, s)
  else
    let s ← s.removenode tln
    return (tln.tln_self, s.setCount l (s.tl_count l - 1))

def insertafter (l : ι) (onlist addee : τ) : Except Crash (Threadlists ι τ) := do
  let s ← s.insertafternode (t_listnode onlist) addee
  return s.setCount l (s.tl_count l + 1)

def insertbefore (l : ι) (addee onlist : τ) : Except Crash (Threadlists ι τ) := do
  let s ← s.insertbeforenode addee (t_listnode onlist)
  return s.setCount l (s.tl_count l + 1)

def remove (l : ι) (t : τ) : Except Crash (Threadlists ι τ) := do
  let s ← s.removenode (t_listnode t)
  return s.setCount l (s.tl_count l - 1)

end Operations

/-! ## What the links hold -/

/-- The nodes of a list, with its bookends. -/
def nodes (l : ι) (ts : List τ) : List (Listnode ι τ) :=
  tl_head l :: ts.map t_listnode ++ [tl_tail l]

/-- The initialised lists `live` hold the threads `lists`, each thread on one list at most, and a
    thread on no list has null links. -/
structure Holds (s : Threadlists ι τ) (live : Set ι) (lists : ι → List τ) : Prop where
  linked : ∀ l ∈ live, DLinked s.tln_next s.tln_prev (nodes l (lists l))
  first : ∀ l ∈ live, s.tln_prev (tl_head l) = none
  last : ∀ l ∈ live, s.tln_next (tl_tail l) = none
  count : ∀ l ∈ live, s.tl_count l = UInt32.ofNat (lists l).length
  nodup : ∀ l, (lists l).Nodup
  apart : ∀ l l' t, t ∈ lists l → t ∈ lists l' → l = l'
  off : ∀ t, (∀ l, t ∉ lists l) →
    s.tln_next (t_listnode t) = none ∧ s.tln_prev (t_listnode t) = none

variable {s : Threadlists ι τ} {live : Set ι} {lists : ι → List τ} {l : ι} {t : τ}
  {ts P Q : List τ} {a b x : Listnode ι τ} {l₁ l₂ : List (Listnode ι τ)}

theorem mem_nodes : x ∈ nodes l ts ↔ x = tl_head l ∨ x = tl_tail l ∨
    ∃ t ∈ ts, x = t_listnode t := by
  simp only [nodes, List.cons_append, List.mem_cons, List.mem_append, List.mem_map,
    List.not_mem_nil, or_false, eq_comm (b := x)]
  exact or_congr_right or_comm

theorem listnode_mem_nodes : t_listnode t ∈ nodes l ts ↔ t ∈ ts := by
  simp [mem_nodes]

theorem nodup_nodes (h : ts.Nodup) : (nodes l ts).Nodup := by
  have hinj : Injective (t_listnode : τ → Listnode ι τ) := fun _ _ e => by cases e; rfl
  simp [nodes, List.nodup_append, h.map hinj]

/-- The nodes of two lists without a common thread are different. -/
theorem notMem_nodes {l' : ι} {us : List τ} (hne : l' ≠ l) (hapart : ∀ t ∈ us, t ∈ ts → l' = l)
    (hx : x ∈ nodes l' us) : x ∉ nodes l ts := by
  rw [mem_nodes] at hx ⊢
  rcases hx with rfl | rfl | ⟨t, ht, rfl⟩
  · simpa using hne
  · simpa using hne
  · simpa using fun hts => hne (hapart t ht hts)

/-- Fewer lists. -/
theorem Holds.mono {live' : Set ι} (h : s.Holds live lists) (hsub : live' ⊆ live) :
    s.Holds live' lists :=
  { h with
    linked := fun l hl => h.linked l (hsub hl)
    first := fun l hl => h.first l (hsub hl)
    last := fun l hl => h.last l (hsub hl)
    count := fun l hl => h.count l (hsub hl) }

/-- The nodes of a list, seen from between two of them. -/
theorem nodes_split (hfront : tl_head l :: P.map t_listnode = l₁ ++ [a])
    (hback : Q.map t_listnode ++ [tl_tail l] = b :: l₂) (us : List τ) :
    nodes l (P ++ us ++ Q) = l₁ ++ a :: us.map t_listnode ++ b :: l₂ := by
  have : nodes l (P ++ us ++ Q)
      = (tl_head l :: P.map t_listnode) ++ us.map t_listnode ++
        (Q.map t_listnode ++ [tl_tail l]) := by
    simp [nodes]
  rw [this, hfront, hback]
  simp

theorem exists_front (P : List τ) :
    ∃ l₁ a, (tl_head l :: P.map t_listnode : List (Listnode ι τ)) = l₁ ++ [a] :=
  ⟨_, _, (List.dropLast_append_getLast (List.cons_ne_nil _ _)).symm⟩

theorem exists_back (Q : List τ) :
    ∃ b l₂, (Q.map t_listnode ++ [tl_tail l] : List (Listnode ι τ)) = b :: l₂ :=
  List.exists_cons_of_ne_nil (by simp)

theorem front_ne_tail (hfront : tl_head l :: P.map t_listnode = l₁ ++ [a]) : a ≠ tl_tail l := by
  have hmem : a ∈ tl_head l :: P.map t_listnode := hfront ▸ by simp
  rintro rfl
  simp at hmem

theorem back_ne_head (hback : Q.map t_listnode ++ [tl_tail l] = b :: l₂) : b ≠ tl_head l := by
  have hmem : b ∈ Q.map t_listnode ++ [tl_tail l] := hback ▸ List.mem_cons_self
  rintro rfl
  simp at hmem

theorem front_ne (hfront : tl_head l :: P.map t_listnode = l₁ ++ [a]) (ht : t ∉ P) :
    t_listnode t ≠ a := by
  have hmem : a ∈ tl_head l :: P.map t_listnode := hfront ▸ by simp
  rintro rfl
  simp [ht] at hmem

theorem front_nil : tl_head l :: ([] : List τ).map t_listnode = [] ++ [tl_head l] := rfl

theorem front_concat : tl_head l :: (P ++ [t]).map t_listnode
    = (tl_head l :: P.map t_listnode) ++ [t_listnode t] := by
  simp

/-- The links between two neighbours of a list. -/
theorem Holds.between (h : s.Holds live lists) (hl : l ∈ live) (hsplit : lists l = P ++ Q)
    (hfront : tl_head l :: P.map t_listnode = l₁ ++ [a])
    (hback : Q.map t_listnode ++ [tl_tail l] = b :: l₂) :
    s.tln_next a = some b ∧ s.tln_prev b = some a := by
  have hnodes : nodes l (lists l) = l₁ ++ a :: b :: l₂ := by
    simpa [hsplit] using nodes_split hfront hback []
  exact (hnodes ▸ h.linked l hl).neighbours l₁

/-! ## The links of one operation -/

variable [DecidableEq ι] [DecidableEq τ]

/-- The node of `t` between `a` and `b`. -/
def linkBetween (s : Threadlists ι τ) (a b : Listnode ι τ) (t : τ) : Threadlists ι τ :=
  { s with
    tln_next := update (update s.tln_next (t_listnode t) (some b)) a (some (t_listnode t))
    tln_prev := update (update s.tln_prev (t_listnode t) (some a)) b (some (t_listnode t)) }

theorem insertafternode_eq (h : s.tln_next a = some b) (hne : t_listnode t ≠ a) :
    s.insertafternode a t = .ok (s.linkBetween a b t) := by
  simp only [insertafternode, setPrev, setNext, h, update_self, deref, ok_bind, update_of_ne hne]
  rfl

theorem insertbeforenode_eq (h : s.tln_prev b = some a) (hne : t_listnode t ≠ a) :
    s.insertbeforenode t b = .ok (s.linkBetween a b t) := by
  simp only [insertbeforenode, setPrev, setNext, h, update_self, deref, ok_bind, update_of_ne hne]
  rfl

theorem removenode_eq (ha : s.tln_prev x = some a) (hb : s.tln_next x = some b) (hne : x ≠ a) :
    s.removenode x = .ok { s with
      tln_next := update (update s.tln_next a (some b)) x none,
      tln_prev := update (update s.tln_prev b (some a)) x none } := by
  simp only [removenode, setPrev, setNext, ha, hb, deref, ok_bind, update_of_ne hne]
  rfl

/-- One list is given other contents, or is made, and links change at its nodes only. -/
theorem Holds.relink (h : s.Holds live lists) {next' prev' : Listnode ι τ → Option (Listnode ι τ)}
    (hlink : DLinked next' prev' (nodes l ts)) (hfirst : prev' (tl_head l) = none)
    (hlast : next' (tl_tail l) = none) (hnd : ts.Nodup)
    (hnew : ∀ t ∈ ts, t ∉ lists l → ∀ l', t ∉ lists l')
    (hframe : ∀ c, c ∉ nodes l (lists l) → c ∉ nodes l ts →
      next' c = s.tln_next c ∧ prev' c = s.tln_prev c)
    (hoff : ∀ t ∈ lists l, t ∉ ts → next' (t_listnode t) = none ∧ prev' (t_listnode t) = none) :
    Holds ⟨prev', next', update s.tl_count l (UInt32.ofNat ts.length)⟩ (live ∪ {l})
      (update lists l ts) := by
  have hcases : ∀ {R : ι → Prop}, R l → (∀ l' ∈ live, l' ≠ l → R l') →
      ∀ l' ∈ live ∪ {l}, R l' := by
    intro R hself hrest l' hl'
    by_cases hne : l' = l
    · exact hne ▸ hself
    · exact hrest l' (hl'.resolve_right hne) hne
  -- a thread of the new contents is on no other list
  have hother : ∀ {l' t}, l' ≠ l → t ∈ lists l' → t ∉ ts := by
    intro l' t hne ht hts
    by_cases hold : t ∈ lists l
    · exact hne (h.apart _ _ _ ht hold)
    · exact hnew t hts hold l' ht
  have hkeep : ∀ {l'}, l' ≠ l → ∀ c ∈ nodes l' (lists l'),
      next' c = s.tln_next c ∧ prev' c = s.tln_prev c := by
    intro l' hne c hc
    exact hframe c (notMem_nodes hne (fun t => h.apart _ _ t) hc)
      (notMem_nodes hne (fun t ht hts => absurd hts (hother hne ht)) hc)
  constructor
  case linked =>
    refine hcases (by rwa [update_self]) fun l' hl' hne => ?_
    rw [update_of_ne hne]
    exact (h.linked l' hl').congr (fun c hc => (hkeep hne c (List.dropLast_subset _ hc)).1)
      fun c hc => (hkeep hne c (List.mem_of_mem_tail hc)).2
  case first =>
    exact hcases hfirst fun l' hl' hne =>
      (hkeep hne _ (mem_nodes.2 (.inl rfl))).2.trans (h.first l' hl')
  case last =>
    exact hcases hlast fun l' hl' hne =>
      (hkeep hne _ (mem_nodes.2 (.inr (.inl rfl)))).1.trans (h.last l' hl')
  case count =>
    refine hcases (by simp only [update_self]) fun l' hl' hne => ?_
    simp only [update_of_ne hne]
    exact h.count l' hl'
  case nodup =>
    exact (forall_update_iff lists fun _ us => us.Nodup).2 ⟨hnd, fun l' _ => h.nodup l'⟩
  case apart =>
    intro l₁ l₂ t h₁ h₂
    rw [update_apply] at h₁ h₂
    split_ifs at h₁ h₂ with he₁ he₂ he₂
    · rw [he₁, he₂]
    · exact absurd h₁ (hother he₂ h₂)
    · exact absurd h₂ (hother he₁ h₁)
    · exact h.apart _ _ _ h₁ h₂
  case off =>
    intro t ht
    have hts : t ∉ ts := by simpa using ht l
    by_cases hold : t ∈ lists l
    · exact hoff t hold hts
    · obtain ⟨hnext, hprev⟩ :=
        hframe _ (listnode_mem_nodes.not.2 hold) (listnode_mem_nodes.not.2 hts)
      simp only [hnext, hprev]
      refine h.off t fun l' hl' => ?_
      by_cases hne : l' = l
      · exact hold (hne ▸ hl')
      · exact ht l' (by rwa [update_of_ne hne])

section

variable (h : s.Holds live lists) (hl : l ∈ live)
include h hl

/-- A new node between two neighbours of a list. -/
theorem Holds.insertNode (hsplit : lists l = P ++ Q)
    (hfront : tl_head l :: P.map t_listnode = l₁ ++ [a])
    (hback : Q.map t_listnode ++ [tl_tail l] = b :: l₂) (ht : ∀ l, t ∉ lists l) :
    ((s.linkBetween a b t).setCount l (s.tl_count l + 1)).Holds live
      (update lists l (P ++ t :: Q)) := by
  have hold : nodes l (lists l) = l₁ ++ a :: b :: l₂ := by
    simpa [hsplit] using nodes_split hfront hback []
  have hnew : nodes l (P ++ t :: Q) = l₁ ++ a :: t_listnode t :: b :: l₂ := by
    simpa using nodes_split hfront hback [t]
  have hx : t_listnode t ∉ nodes l (lists l) := listnode_mem_nodes.not.2 (ht l)
  have hnd := nodup_nodes (l := l) (h.nodup l)
  have hcount : s.tl_count l + 1 = UInt32.ofNat (P ++ t :: Q).length := by
    rw [h.count l hl, hsplit]
    simp [← Nat.add_assoc, UInt32.ofNat_add]
  have hb := back_ne_head hback
  have ha := front_ne_tail hfront
  simp only [linkBetween, setCount, hcount]
  refine (h.relink ?_ ?_ ?_ ?_ ?_ ?_ ?_).mono fun _ => .inl
  · rw [hnew]
    rw [hold] at hx hnd
    exact DLinked.insert (hold ▸ h.linked l hl) hnd hx
  · rw [update_of_ne hb.symm, update_of_ne (by simp), h.first l hl]
  · rw [update_of_ne ha.symm, update_of_ne (by simp), h.last l hl]
  · have hall := h.nodup l
    have htl := ht l
    rw [hsplit] at hall htl
    exact List.nodup_middle.2 (List.nodup_cons.2 ⟨htl, hall⟩)
  · intro t' ht' hnot
    obtain rfl : t' = t := by grind
    exact ht
  · intro c hc hc'
    rw [hnew] at hc'
    simp only [List.mem_append, List.mem_cons, not_or] at hc'
    exact ⟨by rw [update_of_ne hc'.2.1, update_of_ne hc'.2.2.1],
      by rw [update_of_ne hc'.2.2.2.1, update_of_ne hc'.2.2.1]⟩
  · grind

theorem Holds.insertafternode (hsplit : lists l = P ++ Q)
    (hfront : tl_head l :: P.map t_listnode = l₁ ++ [a]) (ht : ∀ l, t ∉ lists l) :
    ∃ s', s.insertafternode a t = .ok s' ∧
      (s'.setCount l (s'.tl_count l + 1)).Holds live (update lists l (P ++ t :: Q)) := by
  obtain ⟨b, l₂, hback⟩ := exists_back (l := l) Q
  obtain ⟨hnext, -⟩ := h.between hl hsplit hfront hback
  have hne := front_ne hfront fun hP => ht l (hsplit ▸ List.mem_append_left Q hP)
  exact ⟨_, insertafternode_eq hnext hne, h.insertNode hl hsplit hfront hback ht⟩

theorem Holds.insertbeforenode (hsplit : lists l = P ++ Q)
    (hback : Q.map t_listnode ++ [tl_tail l] = b :: l₂) (ht : ∀ l, t ∉ lists l) :
    ∃ s', s.insertbeforenode t b = .ok s' ∧
      (s'.setCount l (s'.tl_count l + 1)).Holds live (update lists l (P ++ t :: Q)) := by
  obtain ⟨l₁, a, hfront⟩ := exists_front (l := l) P
  obtain ⟨-, hprev⟩ := h.between hl hsplit hfront hback
  have hne := front_ne hfront fun hP => ht l (hsplit ▸ List.mem_append_left Q hP)
  exact ⟨_, insertbeforenode_eq hprev hne, h.insertNode hl hsplit hfront hback ht⟩

/-- A thread taken out of a list. -/
theorem Holds.removenode (hsplit : lists l = P ++ t :: Q) :
    ∃ s', s.removenode (t_listnode t) = .ok s' ∧
      (s'.setCount l (s'.tl_count l - 1)).Holds live (update lists l (P ++ Q)) := by
  obtain ⟨l₁, a, hfront⟩ := exists_front (l := l) P
  obtain ⟨b, l₂, hback⟩ := exists_back (l := l) Q
  have hold : nodes l (lists l) = l₁ ++ a :: t_listnode t :: b :: l₂ := by
    simpa [hsplit] using nodes_split hfront hback [t]
  have hnew : nodes l (P ++ Q) = l₁ ++ a :: b :: l₂ := by
    simpa using nodes_split hfront hback []
  have hlink := h.linked l hl
  have hnd := nodup_nodes (l := l) (h.nodup l)
  rw [hold] at hlink hnd
  have hnext := (h.between hl (by simpa using hsplit) front_concat hback).1
  have hxa : t_listnode t ≠ a := by
    rintro rfl
    simp [List.nodup_append] at hnd
  have hcount : s.tl_count l - 1 = UInt32.ofNat (P ++ Q).length := by
    rw [h.count l hl, hsplit]
    simp [← Nat.add_assoc, UInt32.ofNat_add]
  have hb := back_ne_head hback
  have ha := front_ne_tail hfront
  refine ⟨_, removenode_eq (hlink.neighbours _).2 hnext hxa, ?_⟩
  simp only [setCount, hcount]
  refine (h.relink ?_ ?_ ?_ ?_ ?_ ?_ ?_).mono fun _ => .inl
  · rw [hnew]
    exact hlink.remove hnd
  · rw [update_of_ne (by simp), update_of_ne hb.symm, h.first l hl]
  · rw [update_of_ne (by simp), update_of_ne ha.symm, h.last l hl]
  · have hall := h.nodup l
    rw [hsplit] at hall
    exact (List.nodup_cons.1 (List.nodup_middle.1 hall)).2
  · grind
  · intro c hc hc'
    rw [hold] at hc
    simp only [List.mem_append, List.mem_cons, not_or] at hc
    exact ⟨by rw [update_of_ne hc.2.2.1, update_of_ne hc.2.1],
      by rw [update_of_ne hc.2.2.1, update_of_ne hc.2.2.2.1]⟩
  · intro t' hmem hnot
    obtain rfl : t' = t := by grind
    rw [update_self, update_self]
    exact ⟨rfl, rfl⟩

end

/-! ## The operations as list operations -/

/-- Memory before any list is initialised, with no thread on a list. -/
def blank : Threadlists ι τ := ⟨fun _ => none, fun _ => none, fun _ => 0⟩

omit [DecidableEq ι] [DecidableEq τ] in
theorem holds_blank : (blank : Threadlists ι τ).Holds ∅ fun _ => [] where
  linked := fun _ hl => hl.elim
  first := fun _ hl => hl.elim
  last := fun _ hl => hl.elim
  count := fun _ hl => hl.elim
  nodup := fun _ => List.nodup_nil
  apart := fun _ _ _ ht => nomatch ht
  off := fun _ _ => ⟨rfl, rfl⟩

/-- `threadlist_init` makes an empty list of whatever was there. -/
theorem Holds.threadlistInit (h : s.Holds live lists) (hnil : lists l = []) :
    (s.threadlistInit l).Holds (live ∪ {l}) lists := by
  have hrelink : (s.threadlistInit l).Holds (live ∪ {l}) (update lists l []) := by
    refine h.relink ?_ ?_ ?_ List.nodup_nil (fun _ ht => nomatch ht) (fun c _ hc => ?_)
      fun t ht => ?_
    · exact List.isChain_pair.2 (by simp [Neighbours, setNext, setPrev])
    · simp [setNext, setPrev]
    · simp [setNext, setPrev]
    · rw [mem_nodes, not_or, not_or] at hc
      simp only [setNext, setPrev, update_of_ne hc.1, update_of_ne hc.2.1, and_self]
    · rw [hnil] at ht
      cases ht
  rwa [← hnil, update_eq_self] at hrelink

omit [DecidableEq ι] [DecidableEq τ] in
/-- `threadlist_isempty`, for a list short enough to be counted. -/
theorem Holds.threadlistIsempty (h : s.Holds live lists) (hl : l ∈ live)
    (hlen : (lists l).length < UInt32.size) : s.threadlistIsempty l = true ↔ lists l = [] := by
  rw [Threadlists.threadlistIsempty, decide_eq_true_iff, h.count l hl, ← UInt32.toNat_inj,
    UInt32.toNat_ofNat_of_lt' hlen]
  exact List.length_eq_zero_iff

section

variable (h : s.Holds live lists) (hl : l ∈ live)
include h hl

theorem Holds.addhead (ht : ∀ l, t ∉ lists l) :
    ∃ s', s.addhead l t = .ok s' ∧ s'.Holds live (update lists l (t :: lists l)) := by
  obtain ⟨s', heq, hs'⟩ := h.insertafternode hl rfl front_nil ht
  exact ⟨_, by rw [Threadlists.addhead, heq, ok_bind]; rfl, hs'⟩

theorem Holds.addtail (ht : ∀ l, t ∉ lists l) :
    ∃ s', s.addtail l t = .ok s' ∧ s'.Holds live (update lists l (lists l ++ [t])) := by
  obtain ⟨s', heq, hs'⟩ := h.insertbeforenode (Q := []) hl (List.append_nil _).symm rfl ht
  exact ⟨_, by rw [Threadlists.addtail, heq, ok_bind]; rfl, hs'⟩

theorem Holds.insertafter {u : τ} (hsplit : lists l = P ++ u :: Q) (ht : ∀ l, t ∉ lists l) :
    ∃ s', s.insertafter l u t = .ok s' ∧
      s'.Holds live (update lists l (P ++ u :: t :: Q)) := by
  obtain ⟨s', heq, hs'⟩ := h.insertafternode (Q := Q) hl (by simpa using hsplit) front_concat ht
  rw [List.append_assoc, List.singleton_append] at hs'
  exact ⟨_, by rw [Threadlists.insertafter, heq, ok_bind]; rfl, hs'⟩

theorem Holds.insertbefore {u : τ} (hsplit : lists l = P ++ u :: Q) (ht : ∀ l, t ∉ lists l) :
    ∃ s', s.insertbefore l t u = .ok s' ∧
      s'.Holds live (update lists l (P ++ t :: u :: Q)) := by
  obtain ⟨s', heq, hs'⟩ := h.insertbeforenode (b := t_listnode u) hl hsplit rfl ht
  exact ⟨_, by rw [Threadlists.insertbefore, heq, ok_bind]; rfl, hs'⟩

theorem Holds.remove (hsplit : lists l = P ++ t :: Q) :
    ∃ s', s.remove l t = .ok s' ∧ s'.Holds live (update lists l (P ++ Q)) := by
  obtain ⟨s', heq, hs'⟩ := h.removenode hl hsplit
  exact ⟨_, by rw [Threadlists.remove, heq, ok_bind]; rfl, hs'⟩

theorem Holds.remhead_nil (hnil : lists l = []) : s.remhead l = .ok (none, s) := by
  have hnext := (h.between (Q := []) hl hnil front_nil rfl).1
  simp only [remhead, hnext, deref, ok_bind, h.last l hl, if_true]
  rfl

theorem Holds.remhead_cons (hcons : lists l = t :: ts) :
    ∃ s', s.remhead l = .ok (some t, s') ∧ s'.Holds live (update lists l ts) := by
  obtain ⟨s', heq, hs'⟩ := h.removenode (P := []) hl hcons
  obtain ⟨b, l₂, hback⟩ := exists_back (l := l) ts
  have hfirst := (h.between hl hcons front_nil rfl).1
  have hsecond := (h.between hl hcons (front_concat (P := [])) hback).1
  refine ⟨_, ?_, hs'⟩
  simp only [remhead, hfirst, deref, ok_bind, hsecond, reduceCtorEq, if_false, heq]
  rfl

theorem Holds.remtail_concat (hconcat : lists l = ts ++ [t]) :
    ∃ s', s.remtail l = .ok (some t, s') ∧ s'.Holds live (update lists l ts) := by
  obtain ⟨s', heq, hs'⟩ := h.removenode (Q := []) hl hconcat
  obtain ⟨l₁, a, hfront⟩ := exists_front (l := l) ts
  have hlast := (h.between (Q := []) hl (by simpa using hconcat) front_concat rfl).2
  have hsecond := (h.between (Q := [t]) hl hconcat hfront rfl).2
  rw [List.append_nil] at hs'
  refine ⟨_, ?_, hs'⟩
  simp only [remtail, hlast, deref, ok_bind, hsecond, reduceCtorEq, if_false, heq]
  rfl

end

end Threadlists

end DemandPaging
