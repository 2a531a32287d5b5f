import Mathlib.Data.Set.Insert
import Mathlib.Logic.Function.Basic

set_option autoImplicit false

/-! # A heap whose allocator may fail

A heap holds blocks of any type. Each request for a block is answered by a pattern, which is
indexed by the number of the request: it is refused, or it gets an address that was never in use
before, with whatever the memory holds. -/

namespace DemandPaging

open Function (update update_self update_of_ne update_eq_self)

/-- Blocks at addresses. The addresses from `next` on were never in use, and `calls` counts the
    requests. -/
structure Heap (B : Type) where
  block : Nat → Option B
  next : Nat
  calls : Nat
  fresh : ∀ p, next ≤ p → block p = none

namespace Heap

variable {B G : Type}

/-- A request that is refused. -/
def refuse (h : Heap B) : Heap B := { h with calls := h.calls + 1 }

/-- A request that is granted. -/
def alloc (h : Heap B) (b : B) : Heap B where
  block := update h.block h.next (some b)
  next := h.next + 1
  calls := h.calls + 1
  fresh p hp := by
    rw [update_of_ne (by omega)]
    exact h.fresh p (by omega)

/-- The next request, where `content` makes a block of what the pattern delivers. -/
def malloc (pattern : Nat → Option G) (content : G → B) (h : Heap B) : Option Nat × Heap B :=
  match pattern h.calls with
  | none => (none, h.refuse)
  | some g => (some h.next, h.alloc (content g))

/-- Replace the block at an address; where there is none, nothing happens. -/
def write (h : Heap B) (p : Nat) (b : B) : Heap B :=
  { h with
    block := update h.block p ((h.block p).map fun _ => b)
    fresh := fun q hq => by
      by_cases hqp : q = p
      · rw [hqp, update_self, ← hqp, h.fresh q hq]
        rfl
      · rw [update_of_ne hqp]
        exact h.fresh q hq }

/-- The blocks outside `S` stay what they are. -/
def Keeps (S : Set Nat) (h h' : Heap B) : Prop :=
  ∀ p b, p ∉ S → h.block p = some b → h'.block p = some b

variable {h h' h'' : Heap B} {S T : Set Nat} {p q : Nat} {b c : B}
  {pattern : Nat → Option G} {content : G → B}

theorem malloc_refused (hp : pattern h.calls = none) :
    h.malloc pattern content = (none, h.refuse) := by
  rw [malloc, hp]

theorem malloc_granted {g : G} (hp : pattern h.calls = some g) :
    h.malloc pattern content = (some h.next, h.alloc (content g)) := by
  rw [malloc, hp]

theorem alloc_block : (h.alloc b).block = update h.block h.next (some b) := rfl

theorem write_block :
    (h.write p b).block = update h.block p ((h.block p).map fun _ => b) := rfl

theorem alloc_block_next : (h.alloc b).block h.next = some b := update_self ..

theorem ne_next (hp : h.block p = some b) : p ≠ h.next := by
  rintro rfl
  rw [h.fresh _ (Nat.le_refl _)] at hp
  cases hp

theorem write_block_self (hp : h.block p = some c) : (h.write p b).block p = some b := by
  rw [write_block, update_self, hp]
  rfl

theorem write_block_ne (hne : q ≠ p) : (h.write p b).block q = h.block q :=
  update_of_ne hne ..

/-- Writing what is there changes nothing. -/
theorem write_block_eq (hp : h.block p = some b) : (h.write p b).block = h.block := by
  rw [write_block, hp, Option.map_some, ← hp, update_eq_self]

theorem Keeps.refl (S : Set Nat) (h : Heap B) : h.Keeps S h := fun _ _ _ hp => hp

theorem Keeps.trans (h₁ : h.Keeps S h') (h₂ : h'.Keeps S h'') : h.Keeps S h'' :=
  fun p b hS hp => h₂ p b hS (h₁ p b hS hp)

theorem Keeps.mono (hk : h.Keeps S h') (hST : S ⊆ T) : h.Keeps T h' :=
  fun p b hT hp => hk p b (fun hS => hT (hST hS)) hp

/-- A change to what was not there before is none. -/
theorem Keeps.of_fresh (hk : h.Keeps (insert p S) h') (hp : h.block p = none) : h.Keeps S h' := by
  intro q b hS hq
  refine hk q b ?_ hq
  rintro (rfl | hS')
  · rw [hp] at hq
    cases hq
  · exact hS hS'

theorem keeps_alloc : h.Keeps S (h.alloc b) := by
  intro p c _ hp
  rw [alloc_block, update_of_ne (ne_next hp)]
  exact hp

theorem keeps_write : h.Keeps {p} (h.write p b) := by
  intro q c hS hq
  rw [write_block_ne hS]
  exact hq

/-- A new block is filled in, and of the old ones only `p` is written to. -/
theorem Keeps.of_alloc_write (hk : ((h.alloc b).write p c).Keeps {h.next} h') :
    h.Keeps {p} h' := by
  refine Keeps.of_fresh (p := h.next) ?_ (h.fresh _ (Nat.le_refl _))
  refine keeps_alloc.trans ((keeps_write.mono ?_).trans (hk.mono ?_))
  · exact Set.subset_insert _ _
  · exact Set.singleton_subset_iff.2 (Set.mem_insert _ _)

end Heap

/-! ## Sequences of operations that may fail -/

section

variable {S E A C : Type} {x : StateT S (Except E) A} {f : A → StateT S (Except E) C} {s s' : S}

theorem bind_run_ok {a : A} (hx : x s = .ok (a, s')) : (x >>= f) s = f a s' := by
  show (x s >>= fun r => f r.1 r.2) = _
  rw [hx]
  rfl

theorem bind_run_error {e : E} (hx : x s = .error e) : (x >>= f) s = .error e := by
  show (x s >>= fun r => f r.1 r.2) = _
  rw [hx]
  rfl

end

end DemandPaging
