import Mathlib.Data.List.Nodup

set_option autoImplicit false

/-! # Tables

A table is a list of items that are found by their key. With every key at most once, replacing an
item, adding one and removing one change what is found under one key and nothing else. -/

namespace DemandPaging

namespace Table

variable {α κ : Type} [DecidableEq κ] {key : α → κ} {l : List α} {k j : κ} {a : α}

/-- The first item with a key. -/
def lookup (key : α → κ) (l : List α) (k : κ) : Option α := l.find? fun a => key a = k

/-- Every item with the key replaced. -/
def replace (key : α → κ) (l : List α) (k : κ) (a : α) : List α :=
  l.map fun b => if key b = k then a else b

/-- The first item with the key taken out. -/
def remove (key : α → κ) (l : List α) (k : κ) : List α := l.eraseP fun a => key a = k

theorem lookup_cons {b : α} :
    lookup key (b :: l) k = if key b = k then some b else lookup key l k := by
  rw [lookup, List.find?_cons]
  by_cases h : key b = k
  · rw [decide_eq_true h, if_pos h]
  · rw [decide_eq_false h, if_neg h]
    rfl

theorem remove_cons {b : α} :
    remove key (b :: l) k = if key b = k then l else b :: remove key l k := by
  rw [remove, List.eraseP_cons]
  by_cases h : key b = k
  · rw [decide_eq_true h, if_pos h]
    rfl
  · rw [decide_eq_false h, if_neg h]
    rfl

theorem key_of_lookup (h : lookup key l k = some a) : key a = k := by
  have := List.find?_some h
  exact of_decide_eq_true this

theorem mem_of_lookup (h : lookup key l k = some a) : a ∈ l := List.mem_of_find?_eq_some h

theorem isSome_lookup (h : a ∈ l) : (lookup key l (key a)).isSome :=
  List.find?_isSome.2 ⟨a, h, decide_eq_true rfl⟩

theorem key_replace (ha : key a = k) (b : α) : key (if key b = k then a else b) = key b := by
  split
  · next h => rw [ha, h]
  · rfl

theorem keys_replace (ha : key a = k) : (replace key l k a).map key = l.map key := by
  rw [replace, List.map_map]
  exact List.map_congr_left fun b _ => key_replace ha b

/-- Replacing an item by itself. -/
theorem replace_lookup (hn : (l.map key).Nodup) (h : lookup key l k = some a) :
    replace key l k a = l := by
  refine (List.map_congr_left fun b hb => ?_).trans (List.map_id l)
  split
  · next hk =>
    have heq : key a = key b := (key_of_lookup h).trans hk.symm
    exact List.inj_on_of_nodup_map hn (mem_of_lookup h) hb heq
  · rfl

/-- Replacing changes what is found under the key. -/
theorem lookup_replace (ha : key a = k) : lookup key (replace key l k a) j =
    if j = k ∧ (lookup key l k).isSome then some a else lookup key l j := by
  have hcomp : ((fun b => decide (key b = j)) ∘ fun b => if key b = k then a else b)
      = fun b => decide (key b = j) := by
    funext b
    exact congrArg (fun c => decide (c = j)) (key_replace ha b)
  rw [lookup, replace, List.find?_map, hcomp]
  change (lookup key l j).map _ = _
  cases hj : lookup key l j with
  | none =>
    rw [if_neg, Option.map_none]
    rintro ⟨rfl, hl⟩
    rw [hj] at hl
    cases hl
  | some b =>
    rw [Option.map_some, key_of_lookup hj]
    by_cases hjk : j = k
    · have hl : (lookup key l k).isSome := by
        rw [← hjk, hj]
        rfl
      rw [if_pos hjk, if_pos ⟨hjk, hl⟩]
    · rw [if_neg hjk, if_neg fun hc => hjk hc.1]

/-- An item with a new key is found under it. -/
theorem lookup_append (h : lookup key l (key a) = none) :
    lookup key (l ++ [a]) j = if j = key a then some a else lookup key l j := by
  rw [lookup, List.find?_append]
  change (lookup key l j).or (lookup key [a] j) = _
  rw [lookup_cons]
  by_cases hj : j = key a
  · subst hj
    rw [if_pos rfl, if_pos rfl, h, Option.none_or]
  · rw [if_neg hj, if_neg (Ne.symm hj)]
    exact Option.or_none

theorem keys_append (hn : (l.map key).Nodup) (h : lookup key l (key a) = none) :
    ((l ++ [a]).map key).Nodup := by
  rw [List.map_append, List.map_singleton]
  refine List.nodup_append.2 ⟨hn, List.nodup_singleton _, fun k hk k' hk' heq => ?_⟩
  obtain ⟨b, hb, rfl⟩ := List.mem_map.1 hk
  have hsome : (lookup key l (key b)).isSome := isSome_lookup hb
  rw [heq, List.mem_singleton.1 hk', h] at hsome
  cases hsome

/-- What was removed is not found any more. -/
theorem lookup_remove (hn : (l.map key).Nodup) :
    lookup key (remove key l k) j = if j = k then none else lookup key l j := by
  induction l with
  | nil =>
    split
    · rfl
    · rfl
  | cons b l ih =>
    obtain ⟨hb, hn⟩ := List.nodup_cons.1 hn
    rw [remove_cons, lookup_cons]
    by_cases hk : key b = k
    · rw [if_pos hk]
      by_cases hj : j = k
      · rw [if_pos hj, lookup, List.find?_eq_none]
        intro c hc hcj
        refine hb (List.mem_map.2 ⟨c, hc, ?_⟩)
        rw [of_decide_eq_true hcj, hk, hj]
      · rw [if_neg hj, if_neg fun hc => hj (hc.symm.trans hk)]
    · rw [if_neg hk, lookup_cons, ih hn]
      by_cases hj : key b = j
      · rw [if_pos hj, if_pos hj, if_neg fun hjk => hk (hj.trans hjk)]
      · rw [if_neg hj, if_neg hj]

theorem keys_remove (hn : (l.map key).Nodup) : ((remove key l k).map key).Nodup :=
  hn.sublist (List.eraseP_sublist.map key)

end Table

end DemandPaging
