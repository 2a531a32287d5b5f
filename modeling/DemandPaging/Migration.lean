import DemandPaging.Threadlist
import Mathlib.Data.List.FinRange

set_option autoImplicit false

/-! # Thread migration

`thread_consider_migration` of `kern/thread/thread.c`, which the clock interrupt runs on each CPU.
It counts the threads on all run queues, one queue after the other, takes what the own queue has too
much off its tail, and hands it to the queues that are short. Each queue is locked by itself, so
between two of these locked sections the other CPUs go on putting threads on the queues. What they
put there is the field `arrivals`: one list of threads for each of the following sections. -/

namespace DemandPaging

open Function

/-- The lists of `n` CPUs: their run queues and the local list of `thread_consider_migration`. -/
inductive ListName (n : Nat)
  | c_runqueue (c : Fin n)
  | victims
deriving DecidableEq

/-- The address of a `struct thread`. -/
structure ThreadPtr where
  addr : UInt32
  ne_null : addr ≠ 0
deriving DecidableEq

/-- The CPUs and their queues, the CPU of each thread, and the interrupts sent. -/
structure Cpus (n : Nat) where
  lists : Threadlists (ListName n) ThreadPtr
  t_cpu : ThreadPtr → Fin n
  c_isidle : Fin n → Bool
  ipis : List (Fin n)
  arrivals : List (List ThreadPtr)

namespace Cpus

open ListName

variable {n : Nat}

/-! ## The code -/

section Code

variable (curcpu : Fin n) (curthread : ThreadPtr)

/-- What `thread_make_runnable`, run by another CPU, does to the queues. -/
def threadMakeRunnable (s : Cpus n) (target : ThreadPtr) : Except Crash (Cpus n) := do
  let lists ← s.lists.addtail (c_runqueue (s.t_cpu target)) target
  return { s with lists := lists }

/-- The other CPUs run while no queue is locked here. -/
def whileUnlocked (s : Cpus n) : Except Crash (Cpus n) :=
  match s.arrivals with
  | [] => .ok s
  | ts :: rest => ts.foldlM threadMakeRunnable { s with arrivals := rest }

/-- The first loop: `my_count` and `total_count`. -/
def countThreads : List (Fin n) → UInt32 → UInt32 → Cpus n → Except Crash (UInt32 × UInt32 × Cpus n)
  | [], myCount, totalCount, s => .ok (myCount, totalCount, s)
  | c :: cs, myCount, totalCount, s => do
      let s ← s.whileUnlocked
      let count := s.lists.tl_count (c_runqueue c)
      countThreads cs (if c = curcpu then count else myCount) (totalCount + count) s

/-- The second loop takes `to_send` threads off the own queue. -/
def takeVictims : Nat → Cpus n → Except Crash (Cpus n)
  | 0, s => .ok s
  | k + 1, s => do
      let (t, lists) ← s.lists.remtail (c_runqueue curcpu)
      let t ← deref t
      let lists ← lists.addhead victims t
      takeVictims k { s with lists := lists }

/-- The `while` loop of the third loop, for one queue; the number is `to_send`. -/
def fillQueue (c : Fin n) (oneShare : UInt32) : Nat → Cpus n → Except Crash (Nat × Cpus n)
  | 0, s => .ok (0, s)
  | toSend + 1, s =>
    if s.lists.tl_count (c_runqueue c) < oneShare then do
      let (t, lists) ← s.lists.remhead victims
      let t ← deref t
      if t = curthread then
        let lists ← lists.addtail victims t
        fillQueue c oneShare toSend { s with lists := lists }
      else
        let lists ← lists.addtail (c_runqueue c) t
        fillQueue c oneShare toSend
          { s with
            lists := lists
            t_cpu := update s.t_cpu t c
            ipis := if s.c_isidle c then c :: s.ipis else s.ipis }
    else .ok (toSend + 1, s)

/-- The third loop. -/
def sendOut (oneShare : UInt32) : List (Fin n) → Nat → Cpus n → Except Crash (Cpus n)
  | [], _, s => .ok s
  | c :: cs, toSend, s =>
    if toSend = 0 then .ok s
    else if c = curcpu then sendOut oneShare cs toSend s
    else do
      let s ← s.whileUnlocked
      let (toSend, s) ← fillQueue curthread c oneShare toSend s
      sendOut oneShare cs toSend s

/-- The last loop, for at most so many rounds. -/
def putBack : Nat → Cpus n → Except Crash (Cpus n)
  | 0, _ => .error .endless
  | k + 1, s => do
      match ← s.lists.remhead victims with
      | (none, lists) => .ok { s with lists := lists }
      | (some t, lists) =>
        let lists ← lists.addtail (c_runqueue curcpu) t
        putBack k { s with lists := lists }

/-- The last section, where there are leftovers. -/
def putBackLeftovers (s : Cpus n) : Except Crash (Cpus n) :=
  if s.lists.threadlistIsempty victims then .ok s
  else do
    let s ← s.whileUnlocked
    putBack curcpu ((s.lists.tl_count victims).toNat + 1) s

def threadConsiderMigration (s : Cpus n) : Except Crash (Cpus n) := do
  let (myCount, totalCount, s) ← countThreads curcpu (List.finRange n) 0 0 s
  let oneShare := (totalCount + UInt32.ofNat n - 1) / UInt32.ofNat n
  if myCount < oneShare then return s
  else
    let toSend := (myCount - oneShare).toNat
    let s := { s with lists := s.lists.threadlistInit victims }
    let s ← s.whileUnlocked
    let s ← takeVictims curcpu toSend s
    let s ← sendOut curcpu curthread oneShare (List.finRange n) toSend s
    let s ← putBackLeftovers curcpu s
    kassert (s.lists.threadlistIsempty victims)
    s.lists.threadlistCleanup victims
    return s

end Code

/-! ## What one move keeps -/

/-- The CPU that the threads of a list belong to. -/
def home (curcpu : Fin n) : ListName n → Fin n
  | c_runqueue c => c
  | victims => curcpu

/-- `lists'` is `lists` with one more thread on one list. -/
def Added (lists : ListName n → List ThreadPtr) (l : ListName n) (t : ThreadPtr)
    (lists' : ListName n → List ThreadPtr) : Prop :=
  ∀ u l', u ∈ lists' l' ↔ (u = t ∧ l' = l) ∨ u ∈ lists l'

theorem added_update (lists : ListName n → List ThreadPtr) (l : ListName n) (t : ThreadPtr)
    (P Q : List ThreadPtr) :
    Added (update lists l (P ++ Q)) l t (update lists l (P ++ t :: Q)) := by
  intro u l'
  by_cases hl : l' = l
  · simp only [hl, update_self, List.mem_append, List.mem_cons, and_true]
    tauto
  · simp only [update_of_ne hl, hl, and_false, false_or]

/-- A call: its CPU and thread, and the state and the run queues that it began with. -/
structure Call (n : Nat) where
  curcpu : Fin n
  curthread : ThreadPtr
  before : Cpus n
  queues : Fin n → List ThreadPtr

/-- In the middle of a call: which threads the lists hold, and which are yet to arrive, those of
    `ts` before the other CPUs stop. -/
structure Inv (s : Cpus n) (C : Call n) (live : Set (ListName n)) (ts : List ThreadPtr)
    (lists : ListName n → List ThreadPtr) : Prop where
  holds : s.lists.Holds live lists
  runqueue_live : ∀ c, c_runqueue c ∈ live
  home : ∀ l, ∀ t ∈ lists l, s.t_cpu t = home C.curcpu l
  pending_nodup : (ts ++ s.arrivals.flatten).Nodup
  pending_off : ∀ t ∈ ts ++ s.arrivals.flatten, ∀ l, t ∉ lists l
  queued : ∃ arrived, C.before.arrivals.flatten = arrived ++ (ts ++ s.arrivals.flatten) ∧
    ∀ t, (∃ l, t ∈ lists l) ↔ (∃ c, t ∈ C.queues c) ∨ t ∈ arrived
  curthread_stays : s.t_cpu C.curthread = C.before.t_cpu C.curthread

variable {C : Call n} {s : Cpus n} {queues : Fin n → List ThreadPtr} {live : Set (ListName n)}
  {ts P Q : List ThreadPtr} {lists lists' : ListName n → List ThreadPtr} {src dst : ListName n}
  {t : ThreadPtr}

/-- A thread taken off its list is on no list. -/
theorem Inv.off (h : s.Inv C live ts lists) (hsplit : lists src = P ++ t :: Q) :
    ∀ l, t ∉ update lists src (P ++ Q) l := by
  intro l hmem
  by_cases hl : l = src
  · rw [hl, update_self] at hmem
    have hnd := h.holds.nodup src
    rw [hsplit] at hnd
    exact (List.nodup_cons.1 (List.nodup_middle.1 hnd)).1 hmem
  · rw [update_of_ne hl] at hmem
    exact hl (h.holds.apart l src t hmem (hsplit ▸ by simp))

/-- A thread goes from one list to another, and its CPU is set accordingly. -/
theorem Inv.move (h : s.Inv C live ts lists) (hsplit : lists src = P ++ t :: Q)
    (hdst : Added (update lists src (P ++ Q)) dst t lists')
    {ls : Threadlists (ListName n) ThreadPtr} (hls : ls.Holds live lists')
    (t_cpu : ThreadPtr → Fin n) (hcpu : t_cpu t = Cpus.home C.curcpu dst)
    (hother : ∀ u, u ≠ t → t_cpu u = s.t_cpu u) (hcur : t_cpu C.curthread = s.t_cpu C.curthread)
    (ipis : List (Fin n)) :
    Inv { s with lists := ls, t_cpu := t_cpu, ipis := ipis } C live ts lists' := by
  have hsrc : Added (update lists src (P ++ Q)) src t lists := by
    have h := added_update lists src t P Q
    rwa [← hsplit, update_eq_self] at h
  have hall : ∀ u, (∃ l, u ∈ lists' l) ↔ ∃ l, u ∈ lists l := by
    intro u
    simp only [hsrc u, hdst u, exists_or, exists_and_left, exists_eq, and_true]
  refine { h with holds := hls, home := ?_, pending_off := ?_, queued := ?_, curthread_stays := ?_ }
  · intro l u hu
    rcases (hdst u l).1 hu with ⟨rfl, rfl⟩ | hmid
    · exact hcpu
    · have hne : u ≠ t := by
        rintro rfl
        exact h.off hsplit l hmid
      exact (hother u hne).trans (h.home l u ((hsrc u l).2 (.inr hmid)))
  · intro u hu l hmem
    obtain ⟨l', hl'⟩ := (hall u).1 ⟨l, hmem⟩
    exact h.pending_off u hu l' hl'
  · obtain ⟨arrived, heq, hmem⟩ := h.queued
    exact ⟨arrived, heq, fun u => (hall u).trans (hmem u)⟩
  · exact hcur.trans h.curthread_stays

theorem added_concat (lists : ListName n → List ThreadPtr) (dst : ListName n) (t : ThreadPtr) :
    Added lists dst t (update lists dst (lists dst ++ [t])) := by
  have h := added_update lists dst t (lists dst) []
  rwa [List.append_nil, update_eq_self] at h

theorem added_cons (lists : ListName n → List ThreadPtr) (dst : ListName n) (t : ThreadPtr) :
    Added lists dst t (update lists dst (t :: lists dst)) := by
  have h := added_update lists dst t [] (lists dst)
  rwa [List.nil_append, List.nil_append, update_eq_self] at h

/-- A list of threads is short enough to be counted: each thread has its own address. -/
theorem length_lt {ts : List ThreadPtr} (h : ts.Nodup) : ts.length < UInt32.size := by
  change ts.length < 2 ^ 32
  have hinj : Injective fun t : ThreadPtr => t.addr.toNat := by
    rintro ⟨a, ha⟩ ⟨b, hb⟩ e
    obtain rfl : a = b := UInt32.toNat_inj.1 e
    rfl
  have hsub : ts.map (fun t : ThreadPtr => t.addr.toNat) ⊆
      (List.range (2 ^ 32 - 1)).map (· + 1) := by
    intro k hk
    obtain ⟨t, -, rfl⟩ := List.mem_map.1 hk
    have hne : t.addr.toNat ≠ 0 := fun e => t.ne_null (UInt32.toNat_inj.1 e)
    have hlt := t.addr.toNat_lt
    exact List.mem_map.2 ⟨t.addr.toNat - 1, List.mem_range.2 (by omega), by omega⟩
  have hle := (List.subperm_of_subset (h.map hinj) hsub).length_le
  rw [List.length_map, List.length_map, List.length_range] at hle
  omega

/-! ## The other CPUs -/

/-- Another CPU puts a thread on the queue of its CPU. -/
theorem Inv.threadMakeRunnable (h : s.Inv C live (t :: ts) lists) :
    ∃ s' lists', s.threadMakeRunnable t = .ok s' ∧ s'.Inv C live ts lists' ∧
      lists' victims = lists victims ∧ ∀ l, (lists l).length ≤ (lists' l).length := by
  obtain ⟨hnot, hnd⟩ := List.nodup_cons.1 h.pending_nodup
  have hoff := h.pending_off t List.mem_cons_self
  obtain ⟨ls, heq, hls⟩ := h.holds.addtail (h.runqueue_live (s.t_cpu t)) hoff
  have hadd := added_concat lists (c_runqueue (s.t_cpu t)) t
  refine ⟨{ s with lists := ls },
    update lists (c_runqueue (s.t_cpu t)) (lists (c_runqueue (s.t_cpu t)) ++ [t]), ?_,
    { h with holds := hls, home := ?_, pending_nodup := hnd, pending_off := ?_, queued := ?_ },
    update_of_ne (by simp) .., fun l => ?_⟩
  · simp only [Cpus.threadMakeRunnable, heq, ok_bind]
    rfl
  · intro l u hu
    rcases (hadd u l).1 hu with ⟨rfl, rfl⟩ | hu
    · rfl
    · exact h.home l u hu
  · intro u hu l hmem
    rcases (hadd u l).1 hmem with ⟨rfl, -⟩ | hmem
    · exact hnot hu
    · exact h.pending_off u (List.mem_cons_of_mem t hu) l hmem
  · obtain ⟨arrived, heq, hmem⟩ := h.queued
    refine ⟨arrived ++ [t], by simpa using heq, fun u => ?_⟩
    simp only [hadd u, exists_or, exists_and_left, exists_eq, and_true, hmem u, List.mem_append,
      List.mem_singleton]
    tauto
  · by_cases hl : l = c_runqueue (s.t_cpu t)
    · rw [hl, update_self]
      simp
    · rw [update_of_ne hl]

theorem Inv.arrive (h : s.Inv C live ts lists) :
    ∃ s' lists', ts.foldlM Cpus.threadMakeRunnable s = .ok s' ∧ s'.Inv C live [] lists' ∧
      lists' victims = lists victims ∧ ∀ l, (lists l).length ≤ (lists' l).length := by
  induction ts generalizing s lists with
  | nil => exact ⟨s, lists, rfl, h, rfl, fun _ => le_rfl⟩
  | cons t ts ih =>
    obtain ⟨s₁, lists₁, heq₁, h₁, hv₁, hle₁⟩ := h.threadMakeRunnable
    obtain ⟨s₂, lists₂, heq₂, h₂, hv₂, hle₂⟩ := ih h₁
    refine ⟨s₂, lists₂, ?_, h₂, hv₂.trans hv₁, fun l => (hle₁ l).trans (hle₂ l)⟩
    rw [List.foldlM_cons, heq₁, ok_bind, heq₂]

/-- Between two locked sections the queues can only grow. -/
theorem Inv.whileUnlocked (h : s.Inv C live [] lists) :
    ∃ s' lists', s.whileUnlocked = .ok s' ∧ s'.Inv C live [] lists' ∧
      lists' victims = lists victims ∧ ∀ l, (lists l).length ≤ (lists' l).length := by
  rw [Cpus.whileUnlocked]
  cases harr : s.arrivals with
  | nil => exact ⟨s, lists, rfl, h, rfl, fun _ => le_rfl⟩
  | cons ts rest =>
    have hsame : ([] ++ s.arrivals.flatten : List ThreadPtr) = ts ++ rest.flatten := by
      rw [harr, List.flatten_cons, List.nil_append]
    have h₁ : Inv { s with arrivals := rest } C live ts lists :=
      { h with
        pending_nodup := hsame ▸ h.pending_nodup
        pending_off := hsame ▸ h.pending_off
        queued := hsame ▸ h.queued }
    exact h₁.arrive

/-! ## The loops -/

theorem Inv.countThreads (cs : List (Fin n)) (totalCount : UInt32) {myCount : UInt32}
    (h : s.Inv C live [] lists) (hmy : myCount.toNat ≤ (lists (c_runqueue C.curcpu)).length) :
    ∃ myCount' totalCount' s' lists',
      countThreads C.curcpu cs myCount totalCount s = .ok (myCount', totalCount', s') ∧
      s'.Inv C live [] lists' ∧ lists' victims = lists victims ∧
      myCount'.toNat ≤ (lists' (c_runqueue C.curcpu)).length := by
  induction cs generalizing s lists myCount totalCount with
  | nil => exact ⟨myCount, totalCount, s, lists, rfl, h, rfl, hmy⟩
  | cons c cs ih =>
    obtain ⟨s₁, lists₁, heq₁, h₁, hv₁, hle₁⟩ := h.whileUnlocked
    have hmy₁ : (if c = C.curcpu then s₁.lists.tl_count (c_runqueue c) else myCount).toNat
        ≤ (lists₁ (c_runqueue C.curcpu)).length := by
      split
      · next hc =>
        rw [hc, h₁.holds.count _ (h₁.runqueue_live C.curcpu), UInt32.toNat_ofNat']
        exact Nat.mod_le _ _
      · exact hmy.trans (hle₁ _)
    obtain ⟨my', total', s₂, lists₂, heq₂, h₂, hv₂, hmy₂⟩ :=
      ih (totalCount + s₁.lists.tl_count (c_runqueue c)) h₁ hmy₁
    refine ⟨my', total', s₂, lists₂, ?_, h₂, hv₂.trans hv₁, hmy₂⟩
    rw [Cpus.countThreads, heq₁, ok_bind]
    exact heq₂

/-- The own queue has enough threads for the victims. -/
theorem Inv.takeVictims {k : Nat} (hv : victims ∈ live) (h : s.Inv C live ts lists)
    (hk : k ≤ (lists (c_runqueue C.curcpu)).length) :
    ∃ s' lists', takeVictims C.curcpu k s = .ok s' ∧ s'.Inv C live ts lists' ∧
      (lists' victims).length = (lists victims).length + k := by
  induction k generalizing s lists with
  | zero => exact ⟨s, lists, rfl, h, rfl⟩
  | succ k ih =>
    obtain ⟨us, t, hus⟩ : ∃ us t, lists (c_runqueue C.curcpu) = us ++ [t] := by
      rcases List.eq_nil_or_concat (lists (c_runqueue C.curcpu)) with hnil | ⟨us, t, h⟩
      · rw [hnil] at hk
        simp at hk
      · exact ⟨us, t, by simpa using h⟩
    obtain ⟨ls₁, heq₁, hls₁⟩ := h.holds.remtail_concat (h.runqueue_live C.curcpu) hus
    have hoff := h.off hus
    rw [← List.append_nil us] at hls₁
    obtain ⟨ls₂, heq₂, hls₂⟩ := hls₁.addhead hv hoff
    have h₂ := h.move hus (added_cons _ victims t) hls₂ s.t_cpu
      (h.home (c_runqueue C.curcpu) t (hus ▸ by simp)) (fun _ _ => rfl) rfl s.ipis
    obtain ⟨s', lists', heq, h', hlen⟩ := ih h₂ (by
      rw [update_of_ne (by simp), update_self]
      rw [hus] at hk
      simp at hk ⊢
      omega)
    refine ⟨s', lists', ?_, h', ?_⟩
    · rw [Cpus.takeVictims, heq₁, ok_bind]
      simp only [deref, ok_bind, heq₂]
      exact heq
    · rw [hlen, update_self, update_of_ne (by simp), List.length_cons]
      omega

/-- One queue is filled. The victims are at least as many as are to be sent, also when `curthread`
    is among them: it goes to their end and is counted as sent. -/
theorem Inv.fillQueue (c : Fin n) (oneShare : UInt32) {toSend : Nat} (hv : victims ∈ live)
    (h : s.Inv C live ts lists) (hk : toSend ≤ (lists victims).length) :
    ∃ toSend' s' lists', fillQueue C.curthread c oneShare toSend s = .ok (toSend', s') ∧
      s'.Inv C live ts lists' ∧ toSend' ≤ (lists' victims).length := by
  induction toSend generalizing s lists with
  | zero => exact ⟨0, s, lists, rfl, h, Nat.zero_le _⟩
  | succ k ih =>
    rw [Cpus.fillQueue]
    split
    · obtain ⟨t, us, hus⟩ : ∃ t us, lists victims = t :: us :=
        List.exists_cons_of_length_pos (by omega)
      rw [hus, List.length_cons] at hk
      obtain ⟨ls₁, heq₁, hls₁⟩ := h.holds.remhead_cons hv hus
      have hoff := h.off (P := []) hus
      simp only [heq₁, ok_bind, deref]
      split
      · obtain ⟨ls₂, heq₂, hls₂⟩ := hls₁.addtail hv hoff
        have h₂ := h.move (P := []) hus (added_concat _ victims t) hls₂ s.t_cpu
          (h.home _ t (hus ▸ by simp)) (fun _ _ => rfl) rfl s.ipis
        rw [heq₂]
        exact ih h₂ (by
          rw [update_self, update_self]
          simp
          omega)
      · next hcur =>
        obtain ⟨ls₂, heq₂, hls₂⟩ := hls₁.addtail (h.runqueue_live c) hoff
        have h₂ := h.move (P := []) hus (added_concat _ (c_runqueue c) t) hls₂
          (update s.t_cpu t c) (update_self ..)
          (fun u hu => update_of_ne hu ..) (update_of_ne (Ne.symm hcur) ..)
          (if s.c_isidle c then c :: s.ipis else s.ipis)
        rw [heq₂]
        exact ih h₂ (by
          rw [update_of_ne (by simp), update_self, List.nil_append]
          omega)
    · exact ⟨k + 1, s, lists, rfl, h, hk⟩

theorem Inv.sendOut (oneShare : UInt32) (cs : List (Fin n)) {toSend : Nat} (hv : victims ∈ live)
    (h : s.Inv C live [] lists) (hk : toSend ≤ (lists victims).length) :
    ∃ s' lists', sendOut C.curcpu C.curthread oneShare cs toSend s = .ok s' ∧
      s'.Inv C live [] lists' := by
  induction cs generalizing s lists toSend with
  | nil => exact ⟨s, lists, rfl, h⟩
  | cons c cs ih =>
    rw [Cpus.sendOut]
    split
    · exact ⟨s, lists, rfl, h⟩
    · split
      · exact ih h hk
      · obtain ⟨s₁, lists₁, heq₁, h₁, hv₁, -⟩ := h.whileUnlocked
        obtain ⟨k₂, s₂, lists₂, heq₂, h₂, hk₂⟩ := h₁.fillQueue c oneShare hv (hv₁ ▸ hk)
        rw [heq₁, ok_bind, heq₂, ok_bind]
        exact ih h₂ hk₂

/-- What is left of the victims goes back. -/
theorem Inv.putBack {k : Nat} (hv : victims ∈ live) (h : s.Inv C live ts lists)
    (hk : (lists victims).length < k) :
    ∃ s' lists', putBack C.curcpu k s = .ok s' ∧ s'.Inv C live ts lists' ∧ lists' victims = [] := by
  induction k generalizing s lists with
  | zero => omega
  | succ k ih =>
    rw [Cpus.putBack]
    cases hus : lists victims with
    | nil =>
      refine ⟨s, lists, ?_, h, hus⟩
      rw [h.holds.remhead_nil hv hus, ok_bind]
    | cons t us =>
      rw [hus, List.length_cons] at hk
      obtain ⟨ls₁, heq₁, hls₁⟩ := h.holds.remhead_cons hv hus
      obtain ⟨ls₂, heq₂, hls₂⟩ :=
        hls₁.addtail (h.runqueue_live C.curcpu) (h.off (P := []) hus)
      have h₂ := h.move (P := []) hus (added_concat _ (c_runqueue C.curcpu) t) hls₂ s.t_cpu
        (h.home victims t (hus ▸ by simp)) (fun _ _ => rfl) rfl s.ipis
      simp only [heq₁, heq₂, ok_bind]
      exact ih h₂ (by
        rw [update_of_ne (by simp), update_self, List.nil_append]
        omega)

/-! ## The whole call -/

/-- The lists with the given run queues. -/
def runqueues (queues : Fin n → List ThreadPtr) : ListName n → List ThreadPtr
  | c_runqueue c => queues c
  | victims => []

/-- The run queues hold the threads `queues`, each thread on the queue of its CPU. -/
structure Consistent (s : Cpus n) (queues : Fin n → List ThreadPtr) : Prop where
  holds : s.lists.Holds {l | l ≠ victims} (runqueues queues)
  home : ∀ c, ∀ t ∈ queues c, s.t_cpu t = c

/-- All queued threads, queue by queue. -/
def allQueued (queues : Fin n → List ThreadPtr) : List ThreadPtr := (List.finRange n).flatMap queues

/-- What a call leaves: the queues are again consistent, and hold the threads they held and those
    that arrived, each once, on the queue of its CPU; `curthread` has kept its CPU; each queue's
    count is its length. -/
structure Balanced (s : Cpus n) (curthread : ThreadPtr) (queues : Fin n → List ThreadPtr)
    (s' : Cpus n) (queues' : Fin n → List ThreadPtr) (arrived : List ThreadPtr) : Prop where
  consistent : s'.Consistent queues'
  arrivals : s.arrivals.flatten = arrived ++ s'.arrivals.flatten
  perm : (allQueued queues').Perm (allQueued queues ++ arrived)
  once : (allQueued queues').Nodup
  on_own_queue : ∀ t ∈ allQueued queues ++ arrived, ∀ c, t ∈ queues' c ↔ c = s'.t_cpu t
  curthread_stays : s'.t_cpu curthread = s.t_cpu curthread
  count : ∀ c, (s'.lists.tl_count (c_runqueue c)).toNat = (queues' c).length

theorem mem_allQueued {u : ThreadPtr} : u ∈ allQueued queues ↔ ∃ c, u ∈ queues c := by
  simp [allQueued]

/-- Queues that hold no thread twice. -/
theorem nodup_allQueued (hnd : ∀ c, (queues c).Nodup)
    (hone : ∀ c c' t, t ∈ queues c → t ∈ queues c' → c = c') : (allQueued queues).Nodup := by
  refine List.nodup_flatMap.2 ⟨fun c _ => hnd c, (List.nodup_finRange n).imp fun hne t ht ht' => ?_⟩
  exact hne (hone _ _ t ht ht')

theorem Consistent.nodup_allQueued (h : s.Consistent queues) : (allQueued queues).Nodup :=
  Cpus.nodup_allQueued (fun c => h.holds.nodup (c_runqueue c)) fun c c' t ht ht' =>
    (h.home c t ht).symm.trans (h.home c' t ht')

/-- At the end of the call, with no victim left. -/
theorem Inv.balanced (h : s.Inv C live [] lists)
    (hfresh : (allQueued C.queues ++ C.before.arrivals.flatten).Nodup) (hv : lists victims = []) :
    ∃ queues' arrived, Balanced C.before C.curthread C.queues s queues' arrived := by
  obtain ⟨arrived, harr, hmem⟩ := h.queued
  have hlists : runqueues (fun c => lists (c_runqueue c)) = lists := by
    funext l
    cases l with
    | c_runqueue c => rfl
    | victims => exact hv.symm
  have hcons : s.Consistent fun c => lists (c_runqueue c) := by
    refine ⟨?_, fun c => h.home (c_runqueue c)⟩
    rw [hlists]
    refine h.holds.mono fun l hl => ?_
    cases l with
    | c_runqueue c => exact h.runqueue_live c
    | victims => exact absurd rfl hl
  -- the threads on the queues are the old ones and those that arrived
  have hall : ∀ t, t ∈ allQueued (fun c => lists (c_runqueue c)) ↔
      t ∈ allQueued C.queues ++ arrived := by
    intro t
    rw [List.mem_append, mem_allQueued, mem_allQueued, ← hmem t]
    refine ⟨fun ⟨c, hc⟩ => ⟨_, hc⟩, fun ⟨l, hl⟩ => ?_⟩
    cases l with
    | c_runqueue c => exact ⟨c, hl⟩
    | victims =>
      rw [hv] at hl
      cases hl
  have hnd : (allQueued C.queues ++ arrived).Nodup := by
    rw [harr, ← List.append_assoc] at hfresh
    exact hfresh.of_append_left
  refine ⟨_, arrived, hcons, harr,
    (List.perm_ext_iff_of_nodup hcons.nodup_allQueued hnd).2 hall, hcons.nodup_allQueued,
    fun t ht c => ⟨fun hc => (hcons.home c t hc).symm, ?_⟩, h.curthread_stays, fun c => ?_⟩
  · rintro rfl
    obtain ⟨c, hc⟩ := mem_allQueued.1 ((hall t).2 ht)
    rw [hcons.home c t hc]
    exact hc
  · rw [h.holds.count _ (h.runqueue_live c), UInt32.toNat_ofNat_of_lt' (length_lt (h.holds.nodup
      _))]

theorem Consistent.inv (curcpu : Fin n) (curthread : ThreadPtr) (h : s.Consistent queues)
    (hfresh : (allQueued queues ++ s.arrivals.flatten).Nodup) :
    s.Inv ⟨curcpu, curthread, s, queues⟩ {l | l ≠ victims} [] (runqueues queues) := by
  obtain ⟨-, hnd, hoff⟩ := List.nodup_append.1 hfresh
  constructor
  case holds => exact h.holds
  case runqueue_live => exact fun c => by simp
  case home =>
    intro l t ht
    cases l with
    | c_runqueue c => exact h.home c t ht
    | victims => cases ht
  case pending_nodup => exact hnd
  case pending_off =>
    intro t ht l hl
    cases l with
    | c_runqueue c => exact hoff t (mem_allQueued.2 ⟨c, hl⟩) t ht rfl
    | victims => cases hl
  case queued =>
    refine ⟨[], rfl, fun t => ?_⟩
    simp only [List.not_mem_nil, or_false]
    refine ⟨fun ⟨l, hl⟩ => ?_, fun ⟨c, hc⟩ => ⟨c_runqueue c, hc⟩⟩
    cases l with
    | c_runqueue c => exact ⟨c, hl⟩
    | victims => cases hl
  case curthread_stays => rfl

/-- The last section leaves no victim. -/
theorem Inv.putBackLeftovers (hv : victims ∈ live) (h : s.Inv C live [] lists) :
    ∃ s' lists', putBackLeftovers C.curcpu s = .ok s' ∧ s'.Inv C live [] lists' ∧
      lists' victims = [] := by
  have hempty := h.holds.threadlistIsempty hv (length_lt (h.holds.nodup victims))
  by_cases hnil : lists victims = []
  · exact ⟨s, lists, if_pos (hempty.2 hnil), h, hnil⟩
  · obtain ⟨s₁, lists₁, heq₁, h₁, -, -⟩ := h.whileUnlocked
    have hk : (lists₁ victims).length < (s₁.lists.tl_count victims).toNat + 1 := by
      rw [h₁.holds.count victims hv, UInt32.toNat_ofNat_of_lt' (length_lt (h₁.holds.nodup victims))]
      exact Nat.lt_succ_self _
    rw [Cpus.putBackLeftovers, if_neg (fun e => hnil (hempty.1 e)), heq₁, ok_bind]
    exact h₁.putBack hv hk

/-- **Migration.** From any consistent queues, whatever threads the other CPUs make runnable in the
    meantime, `thread_consider_migration` returns, without following a null pointer or failing an
    assertion, and neither loses nor doubles a thread. -/
theorem threadConsiderMigration_balanced (s : Cpus n) (curcpu : Fin n) (curthread : ThreadPtr)
    (queues : Fin n → List ThreadPtr) (h : s.Consistent queues)
    (hfresh : (allQueued queues ++ s.arrivals.flatten).Nodup) :
    ∃ s' queues' arrived, s.threadConsiderMigration curcpu curthread = .ok s' ∧
      Balanced s curthread queues s' queues' arrived := by
  have hzero : (0 : UInt32).toNat ≤ (runqueues queues (c_runqueue curcpu)).length := Nat.zero_le _
  obtain ⟨myCount, totalCount, s₁, lists₁, heq₁, h₁, hv₁, hmy₁⟩ :=
    (h.inv curcpu curthread hfresh).countThreads (List.finRange n) 0 hzero
  simp only [threadConsiderMigration, heq₁, ok_bind]
  generalize (totalCount + UInt32.ofNat n - 1) / UInt32.ofNat n = oneShare
  split
  · -- not more than its share
    obtain ⟨queues', arrived, hbal⟩ := h₁.balanced hfresh hv₁
    exact ⟨s₁, queues', arrived, rfl, hbal⟩
  · next hshare =>
    have hv : victims ∈ ({l | l ≠ victims} ∪ {victims} : Set (ListName n)) := .inr rfl
    have h₂ : Inv { s₁ with lists := s₁.lists.threadlistInit victims } _
        ({l | l ≠ victims} ∪ {victims}) [] lists₁ :=
      { h₁ with
        holds := h₁.holds.threadlistInit hv₁
        runqueue_live := fun c => .inl (h₁.runqueue_live c) }
    obtain ⟨s₃, lists₃, heq₃, h₃, hv₃, hle₃⟩ := h₂.whileUnlocked
    have hk : (myCount - oneShare).toNat ≤ (lists₃ (c_runqueue curcpu)).length := by
      rw [UInt32.toNat_sub_of_le _ _ (UInt32.not_lt.1 hshare)]
      exact (Nat.sub_le _ _).trans (hmy₁.trans (hle₃ _))
    obtain ⟨s₄, lists₄, heq₄, h₄, hlen₄⟩ := h₃.takeVictims hv hk
    obtain ⟨s₅, lists₅, heq₅, h₅⟩ :=
      h₄.sendOut oneShare (List.finRange n) hv (hlen₄ ▸ Nat.le_add_left _ _)
    obtain ⟨s₆, lists₆, heq₆, h₆, hv₆⟩ := h₅.putBackLeftovers hv
    have hempty : s₆.lists.threadlistIsempty victims = true :=
      (h₆.holds.threadlistIsempty hv (length_lt (h₆.holds.nodup victims))).2 hv₆
    obtain ⟨queues', arrived, hbal⟩ := h₆.balanced hfresh hv₆
    refine ⟨s₆, queues', arrived, ?_, hbal⟩
    have hzero : s₆.lists.tl_count victims = 0 := of_decide_eq_true hempty
    simp only [heq₃, heq₄, heq₅, heq₆, ok_bind, kassert_of hempty, Threadlists.threadlistCleanup,
      kassert_of hzero]
    rfl

/-- Three threads, two of them on the queue of the first of two CPUs. -/
def thread₁ : ThreadPtr := ⟨0x80001000, by decide⟩

def thread₂ : ThreadPtr := ⟨0x80002000, by decide⟩

def thread₃ : ThreadPtr := ⟨0x80003000, by decide⟩

def twoQueues (c : Fin 2) : List ThreadPtr := if c.val = 0 then [thread₁, thread₂] else []

/-- The third thread comes to the queue of `c` when the threads have been counted. -/
def twoCpus (c c' : Fin 2) : Except Crash (Cpus 2) := do
  let lists := (Threadlists.blank.threadlistInit (c_runqueue c)).threadlistInit (c_runqueue c')
  let lists ← lists.addtail (c_runqueue c) thread₁
  let lists ← lists.addtail (c_runqueue c) thread₂
  return ⟨lists, fun _ => c, fun _ => true, [], [[], [], [thread₃]]⟩

theorem twoCpus_consistent : ∃ s, twoCpus 0 1 = .ok s ∧ s.Consistent twoQueues ∧
    s.arrivals = [[], [], [thread₃]] := by
  have h₁ : (Threadlists.blank : Threadlists (ListName 2) ThreadPtr).Holds ∅ fun _ => [] :=
    Threadlists.holds_blank
  have h₂ := (h₁.threadlistInit (l := c_runqueue 0) rfl).threadlistInit (l := c_runqueue 1) rfl
  obtain ⟨ls₃, heq₃, h₃⟩ := h₂.addtail (l := c_runqueue 0) (t := thread₁) (by simp) (by simp)
  obtain ⟨ls₄, heq₄, h₄⟩ := h₃.addtail (l := c_runqueue 0) (t := thread₂) (by simp) (by
    intro l
    by_cases hl : l = c_runqueue 0
    · rw [hl, update_self]
      decide
    · rw [update_of_ne hl]
      decide)
  have hlists : update (update (fun _ => []) (c_runqueue 0) ([] ++ [thread₁]))
      (c_runqueue 0) (update (fun _ : ListName 2 => []) (c_runqueue 0) ([] ++ [thread₁])
        (c_runqueue 0) ++ [thread₂]) = runqueues twoQueues := by
    funext l
    rcases l with c | _
    · obtain rfl | rfl : c = 0 ∨ c = 1 := by omega
      · rfl
      · rfl
    · rfl
  rw [hlists] at h₄
  refine ⟨⟨ls₄, fun _ => 0, fun _ => true, [], [[], [], [thread₃]]⟩, ?_, ⟨?_, fun c t ht => ?_⟩, rfl⟩
  · simp only [twoCpus, heq₃, heq₄, ok_bind]
    rfl
  · refine h₄.mono fun l hl => ?_
    rcases l with c | _
    · obtain rfl | rfl : c = 0 ∨ c = 1 := by omega
      · exact .inl (.inr rfl)
      · exact .inr rfl
    · exact absurd rfl hl
  · obtain rfl | rfl : c = 0 ∨ c = 1 := by omega
    · rfl
    · cases ht

/-- `curthread` and another thread are on one of two queues when they are counted; the thread that
    comes then is the one that goes to the other CPU. -/
theorem twoQueues_balanced : ∃ s : Cpus 2, s.Consistent twoQueues ∧ s.t_cpu thread₃ = 0 ∧
    ∃ s' queues' arrived, s.threadConsiderMigration 0 thread₁ = .ok s' ∧
      Balanced s thread₁ twoQueues s' queues' arrived ∧ s'.t_cpu thread₃ = 1 := by
  obtain ⟨s, hs, hcons, harr⟩ := twoCpus_consistent
  have hnd : (allQueued twoQueues ++ s.arrivals.flatten).Nodup := by
    rw [harr]
    decide
  obtain ⟨s', queues', arrived, heq, hbal⟩ :=
    threadConsiderMigration_balanced s 0 thread₁ twoQueues hcons hnd
  have hmoved : ((twoCpus 0 1).bind fun s => s.threadConsiderMigration 0 thread₁).toOption.map
      (·.t_cpu thread₃) = some 1 := by
    decide +kernel
  have hstays : (twoCpus 0 1).toOption.map (·.t_cpu thread₃) = some 0 := by decide +kernel
  rw [hs] at hmoved hstays
  rw [Except.bind, heq] at hmoved
  exact ⟨s, hcons, Option.some.inj hstays, s', queues', arrived, heq, hbal, Option.some.inj hmoved⟩

end Cpus

end DemandPaging
