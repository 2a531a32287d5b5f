import Mathlib.Logic.Function.Basic

set_option autoImplicit false

/-! # Slots that hold a map

Slots hold values under names. With every name in one slot at most they are a partial map from names
to values, and writing one slot changes the map at one name. -/

namespace DemandPaging

open Function

variable {κ β ν : Type} {D : κ → Option (β × ν)} {N : ν → Option β} {k : κ} {n : ν} {b : β}

/-- The values under the names are those in the slots. -/
def Naming (D : κ → Option (β × ν)) (N : ν → Option β) : Prop :=
  ∀ n b, N n = some b ↔ ∃ k, D k = some (b, n)

theorem exists_naming
    (h : ∀ k l b c n, D k = some (b, n) → D l = some (c, n) → k = l) : ∃ N, Naming D N := by
  classical
  refine ⟨fun n => if hn : ∃ b k, D k = some (b, n) then some hn.choose else none, fun n b => ?_⟩
  dsimp only
  constructor
  · split
    · next hn =>
      rintro ⟨⟩
      exact hn.choose_spec
    · rintro ⟨⟩
  · rintro ⟨k, hk⟩
    have hn : ∃ b k, D k = some (b, n) := ⟨b, k, hk⟩
    obtain ⟨l, hl⟩ := hn.choose_spec
    rw [h k l _ _ _ hk hl, hl] at hk
    rw [dif_pos hn, (Prod.mk.inj (Option.some.inj hk)).1]

theorem Naming.eq_some (h : Naming D N) (hk : D k = some (b, n)) : N n = some b := (h n b).2 ⟨k, hk⟩

theorem Naming.ne_none (h : Naming D N) (hk : D k = some (b, n)) : N n ≠ none := by
  rw [h.eq_some hk]
  exact Option.some_ne_none b

theorem Naming.eq_none (h : Naming D N) (hn : ∀ k b, D k ≠ some (b, n)) : N n = none :=
  Option.eq_none_iff_forall_ne_some.2 fun b hb => ((h n b).1 hb).elim fun k => hn k b

/-- Writing the only slot of a name. -/
theorem Naming.write [DecidableEq κ] [DecidableEq ν] (h : Naming D N)
    (honly : ∀ l b, D l = some (b, n) → l = k) (hk : ∀ b m, D k = some (b, m) → m = n)
    (v : Option β) : Naming (update D k (v.map fun b => (b, n))) (update N n v) := by
  intro m b
  by_cases hm : m = n
  · subst hm
    rw [update_self]
    constructor
    · rintro rfl
      exact ⟨k, by rw [update_self, Option.map_some]⟩
    · rintro ⟨l, hl⟩
      by_cases hlk : l = k
      · subst hlk
        rw [update_self] at hl
        obtain ⟨c, rfl, hc⟩ := Option.map_eq_some_iff.1 hl
        rw [(Prod.mk.inj hc).1]
      · rw [update_of_ne hlk] at hl
        exact absurd (honly l b hl) hlk
  · rw [update_of_ne hm, h m b]
    refine exists_congr fun l => ?_
    by_cases hlk : l = k
    · subst hlk
      rw [update_self]
      refine iff_of_false (fun hl => hm (hk b m hl)) fun hl => ?_
      obtain ⟨c, -, hc⟩ := Option.map_eq_some_iff.1 hl
      exact hm (Prod.mk.inj hc).2.symm
    · rw [update_of_ne hlk]

end DemandPaging
