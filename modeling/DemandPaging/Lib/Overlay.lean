import Mathlib.Data.List.GetD
import Mathlib.Data.List.Range

set_option autoImplicit false

/-! # Unbounded arrays

An array without an end is a function of the position. `extract` takes a stretch of it out, as a
list; `overlay` puts a list in its place. Stretches next to each other compose. -/

namespace DemandPaging

variable {α : Type}

/-- The `n` values from the position `o` on. -/
def extract (f : Nat → α) (o n : Nat) : List α := (List.range n).map fun t => f (o + t)

/-- The array with the values `l` from the position `o` on. -/
def overlay (f : Nat → α) (o : Nat) (l : List α) : Nat → α := fun p =>
  if o ≤ p then l.getD (p - o) (f p) else f p

variable {f g : Nat → α} {o n m p : Nat} {l l' : List α}

@[simp] theorem length_extract : (extract f o n).length = n := by
  simp [extract]

@[simp] theorem getElem_extract {t : Nat} (h : t < (extract f o n).length) :
    (extract f o n)[t] = f (o + t) := by
  simp [extract]

theorem extract_append : extract f o n ++ extract f (o + n) m = extract f o (n + m) := by
  simp [extract, List.range_add, Function.comp_def, Nat.add_assoc]

/-- A list is a stretch if its values are. -/
theorem eq_extract (h : ∀ t (ht : t < l.length), l[t] = f (o + t)) : l = extract f o l.length :=
  List.ext_getElem (by simp) fun t ht _ => by rw [h t ht, getElem_extract]

theorem extract_congr (h : ∀ p, o ≤ p → p < o + n → f p = g p) : extract f o n = extract g o n := by
  refine List.map_congr_left fun t ht => h _ (Nat.le_add_right ..) ?_
  have := List.mem_range.1 ht
  omega

@[simp] theorem overlay_nil : overlay f o [] = f := by
  funext p
  simp [overlay]

theorem overlay_of_mem {t : Nat} (ht : t < l.length) (hp : p = o + t) : overlay f o l p = l[t] := by
  rw [overlay, if_pos (by omega), show p - o = t by omega, List.getD_eq_getElem _ _ ht]

theorem overlay_of_not (h : p < o ∨ o + l.length ≤ p) : overlay f o l p = f p := by
  rw [overlay]
  split
  · rw [List.getD_eq_default _ _ (by omega)]
  · rfl

/-- One list after the other. -/
theorem overlay_append : overlay (overlay f o l) (o + l.length) l' = overlay f o (l ++ l') := by
  funext p
  rcases Nat.lt_or_ge p (o + l.length) with hp | hp
  · rw [overlay_of_not (.inl hp)]
    rcases Nat.lt_or_ge p o with hpo | hpo
    · rw [overlay_of_not (.inl hpo), overlay_of_not (.inl hpo)]
    · have ht : p - o < l.length := by omega
      have hlen : p - o < (l ++ l').length := by
        rw [List.length_append]
        omega
      rw [overlay_of_mem ht (by omega), overlay_of_mem hlen (by omega), List.getElem_append_left ht]
  · rcases Nat.lt_or_ge p (o + l.length + l'.length) with hp' | hp'
    · have ht : p - (o + l.length) < l'.length := by omega
      have hlen : p - o < (l ++ l').length := by
        rw [List.length_append]
        omega
      rw [overlay_of_mem ht (by omega), overlay_of_mem hlen (by omega),
        List.getElem_append_right (by omega)]
      simp only [Nat.sub_add_eq]
    · rw [overlay_of_not (.inr hp'), overlay_of_not (.inr hp), overlay_of_not]
      exact .inr (by rw [List.length_append]; omega)

/-- What was put in is taken out. -/
theorem extract_overlay : extract (overlay f o l) o l.length = l :=
  (eq_extract fun _ ht => (overlay_of_mem ht rfl).symm).symm

/-- Nothing else has changed. -/
theorem extract_overlay_of_disjoint (h : o + n ≤ m ∨ m + l.length ≤ o) :
    extract (overlay f m l) o n = extract f o n :=
  extract_congr fun p hlo hhi => overlay_of_not (by omega)

end DemandPaging
