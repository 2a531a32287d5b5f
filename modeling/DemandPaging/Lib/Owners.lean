import Mathlib.Logic.Basic

set_option autoImplicit false

/-! # Books that are exact

Some resources `β` are marked as taken, and some roles `ρ` refer to them. The book is exact when
what is marked is referred to by exactly one role, and nothing else is referred to. A book stays
exact when a free resource is given to a role, when a role takes over that of another one, and when
some resources are given up by their roles and unmarked.

Where only some of the roles are worked on, the others can be taken together to a single one. -/

namespace DemandPaging

variable {ρ σ β : Type}

/-- What is marked is referred to exactly once, and nothing else is. -/
structure Exact (marked : β → Prop) (ref : ρ → β → Prop) : Prop where
  covered : ∀ b, marked b → ∃ r, ref r b
  marked : ∀ r b, ref r b → marked b
  unique : ∀ r r' b, ref r b → ref r' b → r = r'

namespace Exact

variable {m m' : β → Prop} {ref ref' : ρ → β → Prop}

/-- A free resource is given to a role. -/
theorem give {b : β} (r₀ : ρ) (h : Exact m ref) (hb : ¬ m b)
    (href : ∀ r c, ref' r c ↔ ref r c ∨ (r = r₀ ∧ c = b)) (hm : ∀ c, m' c ↔ m c ∨ c = b) :
    Exact m' ref' := by
  constructor
  case covered =>
    intro c hc
    rcases (hm c).1 hc with hc | rfl
    · obtain ⟨r, hr⟩ := h.covered c hc
      exact ⟨r, (href r c).2 (.inl hr)⟩
    · exact ⟨r₀, (href r₀ c).2 (.inr ⟨rfl, rfl⟩)⟩
  case marked =>
    intro r c hc
    rcases (href r c).1 hc with hc | ⟨-, rfl⟩
    · exact (hm c).2 (.inl (h.marked r c hc))
    · exact (hm c).2 (.inr rfl)
  case unique =>
    intro r r' c hr hr'
    rcases (href r c).1 hr with hr | ⟨rfl, rfl⟩
    · rcases (href r' c).1 hr' with hr' | ⟨-, rfl⟩
      · exact h.unique r r' c hr hr'
      · exact absurd (h.marked r c hr) hb
    · rcases (href r' c).1 hr' with hr' | ⟨rfl, -⟩
      · exact absurd (h.marked r' c hr') hb
      · rfl

/-- A role that has nothing takes over what another one has. -/
theorem move (r₁ r₀ : ρ) (h : Exact m ref) (hfree : ∀ c, ¬ ref r₀ c)
    (href : ∀ r c, ref' r c ↔ (ref r c ∧ r ≠ r₁) ∨ (r = r₀ ∧ ref r₁ c)) : Exact m ref' := by
  constructor
  case covered =>
    intro c hc
    obtain ⟨r, hr⟩ := h.covered c hc
    by_cases he : r = r₁
    · exact ⟨r₀, (href r₀ c).2 (.inr ⟨rfl, he ▸ hr⟩)⟩
    · exact ⟨r, (href r c).2 (.inl ⟨hr, he⟩)⟩
  case marked =>
    intro r c hc
    exact ((href r c).1 hc).elim (fun hr => h.marked r c hr.1) fun hr => h.marked r₁ c hr.2
  case unique =>
    intro r r' c hr hr'
    rcases (href r c).1 hr with hr | ⟨rfl, hr⟩
    · rcases (href r' c).1 hr' with hr' | ⟨-, hr'⟩
      · exact h.unique r r' c hr.1 hr'.1
      · exact absurd (h.unique r r₁ c hr.1 hr') hr.2
    · rcases (href r' c).1 hr' with hr' | ⟨rfl, -⟩
      · exact absurd (h.unique r' r₁ c hr'.1 hr) hr'.2
      · rfl

/-- Some resources are given up. -/
theorem drop (gone : β → Prop) (h : Exact m ref) (href : ∀ r c, ref' r c ↔ ref r c ∧ ¬ gone c)
    (hm : ∀ c, m' c ↔ m c ∧ ¬ gone c) : Exact m' ref' := by
  constructor
  case covered =>
    intro c hc
    obtain ⟨hc, hgone⟩ := (hm c).1 hc
    obtain ⟨r, hr⟩ := h.covered c hc
    exact ⟨r, (href r c).2 ⟨hr, hgone⟩⟩
  case marked =>
    intro r c hc
    obtain ⟨hr, hgone⟩ := (href r c).1 hc
    exact (hm c).2 ⟨h.marked r c hr, hgone⟩
  case unique =>
    intro r r' c hr hr'
    exact h.unique r r' c ((href r c).1 hr).1 ((href r' c).1 hr').1

theorem congr (h : Exact m ref) (href : ∀ r c, ref' r c ↔ ref r c) (hm : ∀ c, m' c ↔ m c) :
    Exact m' ref' :=
  h.drop (fun _ => False) (fun r c => by rw [href, not_false_iff, and_true])
    fun c => by rw [hm, not_false_iff, and_true]

/-! ## Some of the roles -/

/-- The references of the roles that `p` names, and of all the others together. -/
def group (p : ρ → Option σ) (ref : ρ → β → Prop) : Option σ → β → Prop := fun o b =>
  ∃ r, p r = o ∧ ref r b

theorem grouped (p : ρ → Option σ) (h : Exact m ref) : Exact m (group p ref) := by
  constructor
  case covered =>
    intro b hb
    obtain ⟨r, hr⟩ := h.covered b hb
    exact ⟨p r, r, rfl, hr⟩
  case marked =>
    rintro o b ⟨r, -, hr⟩
    exact h.marked r b hr
  case unique =>
    rintro o o' b ⟨r, rfl, hr⟩ ⟨r', rfl, hr'⟩
    rw [h.unique r r' b hr hr']

/-- The book is exact again where that of the group is and the other roles are as they were. -/
theorem ungrouped {p : ρ → Option σ} (h : Exact m ref) (h' : Exact m' (group p ref'))
    (hp : ∀ r r' s, p r = some s → p r' = some s → r = r')
    (hother : ∀ r, p r = none → ∀ b, ref' r b ↔ ref r b) : Exact m' ref' := by
  constructor
  case covered =>
    intro b hb
    obtain ⟨o, r, -, hr⟩ := h'.covered b hb
    exact ⟨r, hr⟩
  case marked =>
    intro r b hr
    exact h'.marked (p r) b ⟨r, rfl, hr⟩
  case unique =>
    intro r r' b hr hr'
    have heq := h'.unique (p r) (p r') b ⟨r, rfl, hr⟩ ⟨r', rfl, hr'⟩
    cases hpr : p r with
    | some s => exact hp r r' s hpr (heq ▸ hpr)
    | none =>
      have hpr' : p r' = none := heq ▸ hpr
      exact h.unique r r' b ((hother r hpr b).1 hr) ((hother r' hpr' b).1 hr')

end Exact

end DemandPaging
