set_option autoImplicit false

/-! # Computations that leave a trace

A computation leaves a list of events, and comes back with a value or does not come back at all.
Sequencing appends the traces, and nothing follows a computation that does not come back. -/

namespace DemandPaging

/-- The events of a computation, and its value if it comes back. -/
structure Traced (E A : Type) where
  events : List E
  result : Option A
deriving DecidableEq

namespace Traced

variable {E A B : Type}

/-- One event. -/
def emit (e : E) : Traced E Unit := ⟨[e], some ()⟩

/-- The computation does not come back. -/
def halt : Traced E A := ⟨[], none⟩

def bind (x : Traced E A) (f : A → Traced E B) : Traced E B :=
  match x.result with
  | none => ⟨x.events, none⟩
  | some a => ⟨x.events ++ (f a).events, (f a).result⟩

instance : Monad (Traced E) where
  pure a := ⟨[], some a⟩
  bind := bind

/-- All events satisfy `P`. -/
def All (P : E → Prop) (x : Traced E A) : Prop := ∀ e ∈ x.events, P e

variable {P : E → Prop} {x : Traced E A} {f : A → Traced E B} {a : A} {b : B} {e : E}

theorem bind_of_result (h : x.result = some a) :
    x >>= f = ⟨x.events ++ (f a).events, (f a).result⟩ := by
  show bind x f = _
  simp only [bind, h]

theorem bind_of_halt (h : x.result = none) : x >>= f = ⟨x.events, none⟩ := by
  show bind x f = _
  simp only [bind, h]

/-- A sequence comes back with what its second part comes back with. -/
theorem bind_result_eq_some : (x >>= f).result = some b ↔
    ∃ a, x.result = some a ∧ (f a).result = some b := by
  cases h : x.result with
  | none => simp [bind_of_halt h]
  | some a => simp [bind_of_result h]

theorem All.pure (a : A) : (pure a : Traced E A).All P := fun _ h => by cases h

theorem All.halt : (halt : Traced E A).All P := fun _ h => by cases h

/-- The events of a sequence are those of its first part and, if that comes back, of the second. -/
theorem all_bind_iff : (x >>= f).All P ↔ x.All P ∧ ∀ a, x.result = some a → (f a).All P := by
  cases h : x.result with
  | none => simp [bind_of_halt h, All]
  | some a => simp [bind_of_result h, All, or_imp, forall_and]

end Traced

end DemandPaging
