set_option autoImplicit false

/-! # Runs of labelled transition systems

Two views of a run: `Reaches step s t`, for invariants of the states a system can get into, and
`IsRun step σ lab n`, which keeps every intermediate state for properties that compare two points
of one run. A concrete run is a list of labels that `replay` executes. -/

namespace DemandPaging

variable {S L : Type} {step : S → L → S → Prop}

/-- `t` is reached from `s` by finitely many steps. -/
inductive Reaches (step : S → L → S → Prop) (s : S) : S → Prop
  | refl : Reaches step s s
  | tail {t u : S} {l : L} (h : Reaches step s t) (hs : step t l u) : Reaches step s u

theorem Reaches.single {s t : S} {l : L} (h : step s l t) : Reaches step s t :=
  .tail .refl h

theorem Reaches.head {s t u : S} {l : L} (hs : step s l t) (h : Reaches step t u) :
    Reaches step s u := by
  induction h with
  | refl => exact .single hs
  | tail _ hs' ih => exact .tail ih hs'

/-- What every step preserves holds in every state reached. -/
theorem Reaches.invariant {P : S → Prop} {s t : S} (h : Reaches step s t)
    (hstep : ∀ s l s', P s → step s l s' → P s') (h0 : P s) : P t := by
  induction h with
  | refl => exact h0
  | tail _ hs ih => exact hstep _ _ _ ih hs

/-- A system with fewer steps reaches no more states. -/
theorem Reaches.mono {step' : S → L → S → Prop} {s t : S} (h : Reaches step s t)
    (hle : ∀ s l s', step s l s' → step' s l s') : Reaches step' s t := by
  induction h with
  | refl => exact .refl
  | tail _ hs ih => exact .tail ih (hle _ _ _ hs)

/-- The first `n` transitions of `σ` follow `step`, with the labels `lab`. -/
def IsRun (step : S → L → S → Prop) (σ : Nat → S) (lab : Nat → L) (n : Nat) : Prop :=
  ∀ i < n, step (σ i) (lab i) (σ (i + 1))

theorem IsRun.reaches {σ : Nat → S} {lab : Nat → L} {n : Nat} (h : IsRun step σ lab n) :
    ∀ i, i ≤ n → Reaches step (σ 0) (σ i) := by
  intro i
  induction i with
  | zero => intro _; exact .refl
  | succ i ih => intro hi; exact .tail (ih (by omega)) (h i (by omega))

/-- Looking back along a run: if `Q` can only be lost backwards through a state with `R`, and the
    first state with `Q` has `R`, then `Q` now was already there when `R` last held. -/
theorem IsRun.exists_last {σ : Nat → S} {lab : Nat → L} {Q R : S → Prop} :
    ∀ {n : Nat}, IsRun step σ lab n →
      (∀ i < n, step (σ i) (lab i) (σ (i + 1)) → ¬ R (σ (i + 1)) → Q (σ (i + 1)) → Q (σ i)) →
      (Q (σ 0) → R (σ 0)) → Q (σ n) →
      ∃ m, m ≤ n ∧ R (σ m) ∧ Q (σ m) ∧ ∀ j, m < j → j ≤ n → ¬ R (σ j) := by
  intro n
  induction n with
  | zero =>
    intro _ _ h0 hQ
    exact ⟨0, Nat.le_refl 0, h0 hQ, hQ, fun j h1 h2 => by omega⟩
  | succ n ih =>
    intro hrun hback h0 hQ
    by_cases hR : R (σ (n + 1))
    · exact ⟨n + 1, Nat.le_refl _, hR, hQ, fun j h1 h2 => by omega⟩
    · have hQn : Q (σ n) := hback n (by omega) (hrun n (by omega)) hR hQ
      obtain ⟨m, hm, hRm, hQm, hno⟩ :=
        ih (fun i hi => hrun i (by omega)) (fun i hi => hback i (by omega)) h0 hQn
      refine ⟨m, by omega, hRm, hQm, fun j h1 h2 => ?_⟩
      by_cases hj : j = n + 1
      · rw [hj]; exact hR
      · exact hno j h1 (by omega)

/-! ## Replaying a list of labels -/

/-- Execute labels one after the other, if all of them can be executed. -/
def replay (next : S → L → Option S) : S → List L → Option S
  | s, [] => some s
  | s, l :: ls => match next s l with
    | some s' => replay next s' ls
    | none => none

/-- If every executable label is a step, as long as `P` holds, a replayed run is a run. -/
theorem replay_reaches {next : S → L → Option S} {ls : List L} {P : S → Prop} :
    ∀ {s t : S}, (∀ s s' l, P s → l ∈ ls → next s l = some s' → step s l s' ∧ P s') →
      P s → replay next s ls = some t → ∀ {r : S}, Reaches step r s → Reaches step r t ∧ P t := by
  induction ls with
  | nil =>
    intro s t _ hP h r hr
    cases h
    exact ⟨hr, hP⟩
  | cons l ls ih =>
    intro s t hstep hP h r hr
    rw [replay] at h
    cases hn : next s l with
    | none => rw [hn] at h; cases h
    | some s' =>
      rw [hn] at h
      obtain ⟨hs, hP'⟩ := hstep s s' l hP (List.mem_cons_self ..) hn
      exact ih (fun s s' l' hP hl => hstep s s' l' hP (List.mem_cons_of_mem _ hl)) hP' h
        (.tail hr hs)

/-- A replayed run ends in a state with the checked property. -/
theorem reaches_of_replay {next : S → L → Option S} {ls : List L} {s : S} {P : S → Prop}
    {p : S → Bool} (hstep : ∀ s s' l, P s → l ∈ ls → next s l = some s' → step s l s' ∧ P s')
    (hP : P s) (h : (replay next s ls).map p = some true) :
    ∃ t, Reaches step s t ∧ P t ∧ p t = true := by
  cases hr : replay next s ls with
  | none => rw [hr] at h; cases h
  | some t =>
    rw [hr] at h
    obtain ⟨hreach, hPt⟩ := replay_reaches hstep hP hr .refl
    exact ⟨t, hreach, hPt, Option.some.inj h⟩

/-- The same when nothing has to be known about the states on the way. -/
theorem exists_reaches_of_replay {next : S → L → Option S} {ls : List L} {s : S} {p : S → Bool}
    (hstep : ∀ s s' l, l ∈ ls → next s l = some s' → step s l s')
    (h : (replay next s ls).map p = some true) : ∃ t, Reaches step s t ∧ p t = true := by
  have hstep' : ∀ s s' l, True → l ∈ ls → next s l = some s' → step s l s' ∧ True :=
    fun s s' l _ hl hn => ⟨hstep s s' l hl hn, trivial⟩
  obtain ⟨t, hreach, -, ht⟩ := reaches_of_replay hstep' trivial h
  exact ⟨t, hreach, ht⟩

theorem eq_ok_of_toOption {ε : Type} {x : Except ε S} {s : S} (h : x.toOption = some s) :
    x = .ok s := by
  cases x with
  | error e => cases h
  | ok t => rw [Option.some.inj h]

/-- What is executed under a condition. -/
theorem of_ite_toOption {ε : Type} {p : Prop} [Decidable p] {x : Except ε S} {s : S}
    (h : (if p then x.toOption else none) = some s) : p ∧ x = .ok s := by
  split at h
  · next hp => exact ⟨hp, eq_ok_of_toOption h⟩
  · cases h

/-- The states met while executing the labels `lab`; it stays where it is if it cannot go on. -/
def trace (next : S → L → Option S) (lab : Nat → L) (s : S) : Nat → S
  | 0 => s
  | n + 1 => (next (trace next lab s n) (lab n)).getD (trace next lab s n)

theorem isRun_trace {next : S → L → Option S} {lab : Nat → L} {s : S} {n : Nat}
    (hstep : ∀ s l s', next s l = some s' → step s l s')
    (h : ∀ i < n, (next (trace next lab s i) (lab i)).isSome) :
    IsRun step (trace next lab s) lab n := by
  intro i hi
  obtain ⟨s', hs'⟩ := Option.isSome_iff_exists.1 (h i hi)
  have heq : trace next lab s (i + 1) = s' := by rw [trace, hs']; rfl
  rw [heq]
  exact hstep _ _ _ hs'

end DemandPaging
