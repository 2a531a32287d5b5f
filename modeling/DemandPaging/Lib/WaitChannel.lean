import Mathlib.Data.List.Nodup

set_option autoImplicit false

/-! # Wait channels

Threads that sleep until somebody wakes them, and threads that have been woken but have not acted
yet. Whoever wakes a thread does not hand anything over to it: a woken thread has to look again,
and may find that a third thread was faster. So what has to be shown of a channel is that enough
threads are on their way: `c.Served n` says that if anybody sleeps then `n` woken threads have yet
to look. Waking one thread pays for one more unit, a thread that looks and goes on uses one up, and
a thread falls asleep only when nothing is left. -/

namespace DemandPaging

/-- The sleepers, in the order in which they came, and the threads woken since that have not gone
    on. No thread is counted twice. -/
structure WaitChannel (τ : Type) where
  asleep : List τ
  woken : List τ
  nodup : (asleep ++ woken).Nodup
  deriving DecidableEq

namespace WaitChannel

variable {τ : Type}

/-- A new channel. -/
def empty : WaitChannel τ := ⟨[], [], List.nodup_nil⟩

/-- The first sleeper is woken, if there is one. -/
def wakeOne (c : WaitChannel τ) : WaitChannel τ :=
  match c with
  | ⟨[], woken, h⟩ => ⟨[], woken, h⟩
  | ⟨t :: asleep, woken, h⟩ => ⟨asleep, woken ++ [t], by
      have hp : (asleep ++ (woken ++ [t])).Perm (t :: asleep ++ woken) := by
        rw [← List.append_assoc]
        exact List.perm_append_singleton t (asleep ++ woken)
      exact hp.nodup_iff.2 h⟩

/-- All sleepers are woken. -/
def wakeAll (c : WaitChannel τ) : WaitChannel τ :=
  ⟨[], c.woken ++ c.asleep, by
    rw [List.nil_append]
    exact List.perm_append_comm.nodup_iff.1 c.nodup⟩

/-- The thread is on the channel or has been woken from it. -/
def Holds (c : WaitChannel τ) (t : τ) : Prop :=
  t ∈ c.asleep ∨ t ∈ c.woken

/-- If anybody sleeps, `n` woken threads have yet to look. -/
def Served (n : Nat) (c : WaitChannel τ) : Prop :=
  c.asleep ≠ [] → n ≤ c.woken.length

variable {c : WaitChannel τ} {t u : τ} {m n : Nat}

/-- No thread both sleeps and has been woken. -/
theorem not_mem_woken (h : t ∈ c.asleep) : t ∉ c.woken :=
  fun hw => (List.nodup_append.1 c.nodup).2.2 t h t hw rfl

theorem served_zero : Served 0 c := fun _ => Nat.zero_le _

/-! ## Waking -/

@[simp] theorem asleep_wakeOne (c : WaitChannel τ) : c.wakeOne.asleep = c.asleep.tail := by
  obtain ⟨_ | ⟨t, asleep⟩, woken, h⟩ := c <;> rfl

@[simp] theorem woken_wakeOne (c : WaitChannel τ) :
    c.wakeOne.woken = c.woken ++ c.asleep.take 1 := by
  obtain ⟨_ | ⟨t, asleep⟩, woken, h⟩ := c
  · exact (List.append_nil woken).symm
  · rfl

@[simp] theorem asleep_wakeAll (c : WaitChannel τ) : c.wakeAll.asleep = [] := rfl

@[simp] theorem woken_wakeAll (c : WaitChannel τ) : c.wakeAll.woken = c.woken ++ c.asleep := rfl

theorem holds_wakeOne : c.wakeOne.Holds u ↔ c.Holds u := by
  obtain ⟨_ | ⟨t, asleep⟩, woken, h⟩ := c
  · rfl
  · simp only [Holds, asleep_wakeOne, woken_wakeOne, List.tail_cons, List.mem_cons, List.mem_append,
      List.take_succ_cons, List.take_zero, List.not_mem_nil, or_false]
    tauto

theorem holds_wakeAll : c.wakeAll.Holds u ↔ c.Holds u := by
  simp only [Holds, asleep_wakeAll, woken_wakeAll, List.not_mem_nil, List.mem_append, false_or]
  exact or_comm

/-- Waking one thread pays for one more. -/
theorem Served.wakeOne (h : Served n c) : Served (n + 1) c.wakeOne := by
  intro ha
  obtain ⟨_ | ⟨t, asleep⟩, woken, hnd⟩ := c
  · exact absurd rfl ha
  · have hn : n ≤ woken.length := h (List.cons_ne_nil _ _)
    rw [woken_wakeOne, List.length_append]
    exact Nat.succ_le_succ hn

/-! ## Falling asleep and going on -/

variable [DecidableEq τ]

/-- A thread that was woken goes on. Nothing happens for one that was not. -/
def resume (c : WaitChannel τ) (t : τ) : WaitChannel τ :=
  ⟨c.asleep, c.woken.erase t,
    c.nodup.sublist ((List.Sublist.refl _).append List.erase_sublist)⟩

/-- A thread goes to sleep behind the others; it may have been woken before. -/
def sleep (c : WaitChannel τ) (t : τ) : WaitChannel τ :=
  if h : t ∈ c.asleep then c else
  ⟨c.asleep ++ [t], c.woken.erase t, by
    have hw := List.nodup_append.1 c.nodup
    have hmem : t ∉ c.asleep ++ c.woken.erase t := by
      rw [List.mem_append, not_or]
      exact ⟨h, hw.2.1.not_mem_erase⟩
    have hp : (c.asleep ++ [t] ++ c.woken.erase t).Perm (t :: (c.asleep ++ c.woken.erase t)) := by
      rw [List.append_assoc]
      exact List.perm_middle
    exact hp.nodup_iff.2 (List.nodup_cons.2 ⟨hmem, (c.resume t).nodup⟩)⟩

instance (c : WaitChannel τ) (t : τ) : Decidable (c.Holds t) :=
  inferInstanceAs (Decidable (_ ∨ _))

@[simp] theorem asleep_resume (c : WaitChannel τ) (t : τ) : (c.resume t).asleep = c.asleep := rfl

theorem mem_woken_resume : u ∈ (c.resume t).woken ↔ u ≠ t ∧ u ∈ c.woken :=
  (List.nodup_append.1 c.nodup).2.1.mem_erase_iff

theorem asleep_sleep (h : t ∉ c.asleep) : (c.sleep t).asleep = c.asleep ++ [t] := by
  rw [sleep, dif_neg h]

theorem mem_asleep_sleep : u ∈ (c.sleep t).asleep ↔ u ∈ c.asleep ∨ u = t := by
  by_cases h : t ∈ c.asleep
  · rw [sleep, dif_pos h]
    exact ⟨.inl, fun hu => hu.elim id fun hut => hut ▸ h⟩
  · rw [asleep_sleep h, List.mem_append, List.mem_singleton]

theorem woken_sleep (c : WaitChannel τ) (t : τ) : (c.sleep t).woken = (c.resume t).woken := by
  unfold sleep
  split
  next h => exact (List.erase_of_not_mem (not_mem_woken h)).symm
  next h => rfl

theorem mem_woken_sleep : u ∈ (c.sleep t).woken ↔ u ≠ t ∧ u ∈ c.woken := by
  rw [woken_sleep]
  exact mem_woken_resume

theorem holds_sleep : (c.sleep t).Holds u ↔ u = t ∨ c.Holds u := by
  simp only [Holds, mem_asleep_sleep, mem_woken_sleep]
  tauto

theorem holds_resume (h : t ∉ c.asleep) : (c.resume t).Holds u ↔ u ≠ t ∧ c.Holds u := by
  simp only [Holds, asleep_resume, mem_woken_resume]
  constructor
  · rintro (hu | hu)
    · exact ⟨fun hut => h (hut ▸ hu), .inl hu⟩
    · exact ⟨hu.1, .inr hu.2⟩
  · rintro ⟨hut, hu | hu⟩
    · exact .inl hu
    · exact .inr ⟨hut, hu⟩

/-- A thread that goes on uses up at most one. -/
theorem Served.resume (h : Served (n + 1) c) : Served n (c.resume t) := by
  intro ha
  have hn : n + 1 ≤ c.woken.length := h ha
  have hlen : (c.resume t).woken.length = if t ∈ c.woken then c.woken.length - 1
      else c.woken.length := List.length_erase
  rw [hlen]
  split <;> omega

end WaitChannel

end DemandPaging
