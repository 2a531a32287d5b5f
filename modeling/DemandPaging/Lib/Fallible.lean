import Mathlib.Logic.Basic

set_option autoImplicit false

/-! # Code that crashes, fails or returns

`Fallible κ ε σ α` is code over a state `σ`. It may crash with a `κ`, and then there is nothing left
to look at. Otherwise it returns a value or fails with an error `ε`, and leaves a state in both
cases. `Wp m Q E C s` is the weakest precondition for three postconditions: `Q` where the code
returns, `E` where it fails, and `C` where it crashes. With `C` false it is total correctness, with
`C` true it is partial correctness. -/

namespace DemandPaging

variable {κ ε σ τ α β : Type}

/-- Code over a state `σ` that crashes, fails or returns. -/
def Fallible (κ ε σ α : Type) : Type := σ → Except κ (Except ε α × σ)

namespace Fallible

/-! ## The code -/

instance : Monad (Fallible κ ε σ) where
  pure a := fun s => .ok (.ok a, s)
  bind m f := fun s =>
    match m s with
    | .error c => .error c
    | .ok (.error e, s') => .ok (.error e, s')
    | .ok (.ok a, s') => f a s'

def read : Fallible κ ε σ σ := fun s => .ok (.ok s, s)

def modify (f : σ → σ) : Fallible κ ε σ Unit := fun s => .ok (.ok (), f s)

def fail (e : ε) : Fallible κ ε σ α := fun s => .ok (.error e, s)

def crash (c : κ) : Fallible κ ε σ α := fun _ => .error c

/-- Go on if `p` holds. -/
def check (p : Prop) [Decidable p] (c : κ) : Fallible κ ε σ Unit :=
  if p then pure () else crash c

/-- The outcome as a value, for the code that looks at it. -/
def attempt (m : Fallible κ ε σ α) : Fallible κ ε σ (Except ε α) := fun s =>
  match m s with
  | .error c => .error c
  | .ok (r, s') => .ok (.ok r, s')

/-- Return or fail as an outcome says. -/
def resume : Except ε α → Fallible κ ε σ α
  | .ok a => pure a
  | .error e => fail e

/-- Code for one part of the state. -/
def zoom (get : σ → τ) (put : τ → σ → σ) (m : Fallible κ ε τ α) : Fallible κ ε σ α := fun s =>
  match m (get s) with
  | .error c => .error c
  | .ok (r, t) => .ok (r, put t s)

/-! ## Pre- and postconditions -/

/-- The weakest precondition. -/
def Wp (m : Fallible κ ε σ α) (Q : α → σ → Prop) (E : ε → σ → Prop) (C : κ → Prop) (s : σ) : Prop :=
  match m s with
  | .error c => C c
  | .ok (.error e, s') => E e s'
  | .ok (.ok a, s') => Q a s'

/-- The code does not crash. -/
abbrev Safe (m : Fallible κ ε σ α) (Q : α → σ → Prop) (E : ε → σ → Prop) (s : σ) : Prop :=
  m.Wp Q E (fun _ => False) s

/-- The code returns. -/
abbrev Total (m : Fallible κ ε σ α) (Q : α → σ → Prop) (s : σ) : Prop :=
  m.Safe Q (fun _ _ => False) s

/-- The code returns or fails, with `P` in both cases. -/
abbrev Ends (m : Fallible κ ε σ α) (P : σ → Prop) (s : σ) : Prop :=
  m.Safe (fun _ => P) (fun _ => P) s

variable {m : Fallible κ ε σ α} {f : α → Fallible κ ε σ β} {Q Q' : α → σ → Prop}
  {E E' : ε → σ → Prop} {C C' : κ → Prop} {s s' : σ}

@[simp] theorem wp_pure {a : α} : Wp (pure a) Q E C s ↔ Q a s := Iff.rfl

@[simp] theorem wp_bind {R : β → σ → Prop} :
    Wp (m >>= f) R E C s ↔ Wp m (fun a s' => Wp (f a) R E C s') E C s := by
  change (match (match m s with
    | .error c => .error c
    | .ok (.error e, s') => .ok (.error e, s')
    | .ok (.ok a, s') => f a s' : Except κ (Except ε β × σ)) with
    | .error c => C c
    | .ok (.error e, s') => E e s'
    | .ok (.ok a, s') => R a s') ↔ _
  unfold Wp
  rcases m s with c | ⟨e | a, s'⟩ <;> rfl

@[simp] theorem wp_read {R : σ → σ → Prop} : Wp read R E C s ↔ R s s := Iff.rfl

@[simp] theorem wp_modify {g : σ → σ} {R : Unit → σ → Prop} :
    Wp (modify g) R E C s ↔ R () (g s) := Iff.rfl

@[simp] theorem wp_fail {e : ε} : Wp (fail e : Fallible κ ε σ α) Q E C s ↔ E e s := Iff.rfl

@[simp] theorem wp_crash {c : κ} : Wp (crash c : Fallible κ ε σ α) Q E C s ↔ C c := Iff.rfl

/-- Where a crash is ruled out, a check has to hold; otherwise it may be assumed. -/
theorem wp_check {p : Prop} [Decidable p] {c : κ} {R : Unit → σ → Prop} :
    Wp (check p c) R E C s ↔ (p → R () s) ∧ (¬ p → C c) := by
  unfold check
  split <;> simp [*]

@[simp] theorem wp_attempt {R : Except ε α → σ → Prop} :
    Wp (attempt m) R E C s ↔ Wp m (fun a => R (.ok a)) (fun e => R (.error e)) C s := by
  unfold Wp attempt
  rcases m s with c | ⟨e | a, s'⟩ <;> rfl

@[simp] theorem wp_resume_ok {a : α} : Wp (resume (.ok a)) Q E C s ↔ Q a s := Iff.rfl

@[simp] theorem wp_resume_error {e : ε} : Wp (resume (.error e)) Q E C s ↔ E e s := Iff.rfl

@[simp] theorem wp_zoom {get : σ → τ} {put : τ → σ → σ} {m : Fallible κ ε τ α} :
    Wp (zoom get put m) Q E C s ↔
      Wp m (fun a t => Q a (put t s)) (fun e t => E e (put t s)) C (get s) := by
  unfold Wp zoom
  rcases m (get s) with c | ⟨e | a, t⟩ <;> rfl

theorem wp_ite {p : Prop} [Decidable p] {m' : Fallible κ ε σ α} :
    Wp (if p then m else m') Q E C s ↔ (p → Wp m Q E C s) ∧ (¬ p → Wp m' Q E C s) := by
  split <;> simp [*]

/-- Weaker postconditions. -/
theorem Wp.mono (h : Wp m Q E C s) (hQ : ∀ a s', Q a s' → Q' a s') (hE : ∀ e s', E e s' → E' e s')
    (hC : ∀ c, C c → C' c) : Wp m Q' E' C' s := by
  unfold Wp at *
  revert h
  rcases m s with c | ⟨e | a, s'⟩
  · exact hC c
  · exact hE e s'
  · exact hQ a s'

/-- Weaker postconditions where the code does not crash. -/
theorem Wp.imp₂ (h : Wp m Q E C s) (hQ : ∀ a s', Q a s' → Q' a s')
    (hE : ∀ e s', E e s' → E' e s') : Wp m Q' E' C s :=
  h.mono hQ hE fun _ hc => hc

/-- A weaker postcondition where the code returns. -/
theorem Wp.imp (h : Wp m Q E C s) (hQ : ∀ a s', Q a s' → Q' a s') : Wp m Q' E C s :=
  h.imp₂ hQ fun _ _ he => he

/-- Code that does not fail. -/
theorem Wp.noFail (h : Wp m Q (fun _ _ => False) C s) : Wp m Q E C s :=
  h.imp₂ (fun _ _ hq => hq) fun _ _ he => he.elim

/-- What always holds holds afterwards. -/
theorem Wp.of_forall (hQ : ∀ a s', Q a s') (hE : ∀ e s', E e s') (hC : ∀ c, C c) :
    Wp m Q E C s := by
  unfold Wp
  rcases m s with c | ⟨e | a, s'⟩
  · exact hC c
  · exact hE e s'
  · exact hQ a s'

/-- One possible outcome is the outcome. -/
theorem Wp.eq_ok {a : α} (h : m.Total (fun b t => b = a ∧ t = s') s) : m s = .ok (.ok a, s') := by
  unfold Total Safe Wp at h
  revert h
  rcases m s with c | ⟨e | b, t⟩
  · exact False.elim
  · exact False.elim
  · rintro ⟨rfl, rfl⟩
    rfl

theorem bind_of_ok {a : α} (hm : m s = .ok (.ok a, s')) : (m >>= f) s = f a s' := by
  change (match m s with
    | .error c => .error c
    | .ok (.error e, s') => .ok (.error e, s')
    | .ok (.ok a, s') => f a s' : Except κ (Except ε β × σ)) = _
  rw [hm]

theorem wp_of_ok {a : α} (hm : m s = .ok (.ok a, s')) : Wp m Q E C s ↔ Q a s' := by
  unfold Wp
  rw [hm]

/-- From a postcondition to a run. -/
theorem Wp.of_ok {a : α} (h : Wp m Q E C s) (hm : m s = .ok (.ok a, s')) : Q a s' :=
  (wp_of_ok hm).1 h

theorem wp_of_error {e : ε} (hm : m s = .ok (.error e, s')) : Wp m Q E C s ↔ E e s' := by
  unfold Wp
  rw [hm]

/-- Code that does not crash ends. -/
theorem Safe.exists_ok (h : m.Safe Q E s) : ∃ r s', m s = .ok (r, s') := by
  unfold Safe Wp at h
  revert h
  rcases m s with c | ⟨r, s'⟩
  · exact False.elim
  · exact fun _ => ⟨r, s', rfl⟩

/-- Code that does not fail either returns. -/
theorem Total.exists_ok (h : m.Total Q s) : ∃ a s', m s = .ok (.ok a, s') ∧ Q a s' := by
  obtain ⟨r, s', hm⟩ := Safe.exists_ok h
  cases r with
  | ok a => exact ⟨a, s', hm, h.of_ok hm⟩
  | error e => exact ((wp_of_error hm).1 h).elim

/-! ## Runs that can be computed -/

/-- The code returns or fails, with an outcome that passes a test. -/
def passes (test : Except ε α → σ → Bool) (m : Fallible κ ε σ α) (s : σ) : Bool :=
  match m s with
  | .ok (r, s') => test r s'
  | .error _ => false

theorem exists_of_passes {test : Except ε α → σ → Bool} (h : m.passes test s = true) :
    ∃ r s', m s = .ok (r, s') ∧ test r s' = true := by
  unfold passes at h
  revert h
  rcases m s with c | ⟨r, s'⟩
  · exact fun h => (by cases h)
  · exact fun h => ⟨r, s', rfl, h⟩

end Fallible

end DemandPaging
