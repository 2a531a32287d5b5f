import DemandPaging.Coremap.Runs
import DemandPaging.Lib.Fifo

set_option autoImplicit false

/-! # The page table as a queue of pages

To a process manager the page table is a list of resident pages, the oldest first: a new page joins
at the end, the first one leaves when memory is full, and pages of a dying process leave from
anywhere. `queueOp` reads off which of this a call does, by the tests the call itself makes. The
hash chains and the FIFO pointers then refine the list over every run from boot. -/

namespace DemandPaging

/-- A resident page and its frame. -/
structure UserPage where
  pid : Int
  vaddr : VAddr
  frame : Nat
deriving DecidableEq, Repr

/-- What a call does to the queue. -/
def queueOp (vm : Vm) : CoreOp → QueueOp UserPage
  | .allocuserpage pid v =>
    let index := getfreeframes vm.cm.pt vm.cm.ptsize 1
    if index = -1 then
      match vm.cm.firstvictim with
      -- every frame belongs to the kernel
      | none => .idle
      -- the new page takes the victim's frame
      | some victim => .replace ⟨pid, v, victim⟩
    else .insert ⟨pid, v, index.toNat⟩
  | .freeuserpage pid v => .remove fun e => e.pid == pid && e.vaddr == v
  | .removeptentries pid => if 0 < pid then .remove fun e => e.pid == pid else .idle
  | .getfreeppages _ => .idle
  | .freeKpages _ => .idle

/-- The call finds no free frame and evicts page `e`. -/
def Evicted (vm : Vm) (op : CoreOp) (e : UserPage) : Prop :=
  (∃ pid v, op = .allocuserpage pid v) ∧ getfreeframes vm.cm.pt vm.cm.ptsize 1 = -1 ∧
    vm.cm.firstvictim = some e.frame ∧ (vm.cm.pt e.frame).pid = e.pid ∧
    (vm.cm.pt e.frame).vaddr = e.vaddr

/-- The page table shows the pages `l`, in this order. -/
structure Shows (cm : Coremap) (l : List UserPage) : Prop where
  linked : Linked cm.fifoOf cm.firstvictim (l.map UserPage.frame)
  owner : ∀ e ∈ l, (cm.pt e.frame).pid = e.pid ∧ (cm.pt e.frame).vaddr = e.vaddr
  nonzero : ∀ e ∈ l, e.frame ≠ 0
  lookup : ∀ pid v f, f ≠ 0 → (cm.getpageaddr pid v = .ok (f * PAGE_SIZE) ↔ ⟨pid, v, f⟩ ∈ l)
  missing : ∀ pid v, cm.getpageaddr pid v = .ok 0 ↔ ∀ f, ⟨pid, v, f⟩ ∉ l

variable {cm cm' : Coremap} {vm vm' : Vm} {q q' : List Nat} {op : CoreOp} {pid : Int} {v : VAddr}
  {f : Nat}

/-! ## The pages of a queue of frames -/

/-- The page in frame `f`. -/
def Coremap.userPage (cm : Coremap) (f : Nat) : UserPage := ⟨(cm.own f).1, (cm.own f).2.1, f⟩

theorem TableInv.mem_pages (h : TableInv cm q) :
    (⟨pid, v, f⟩ : UserPage) ∈ q.map cm.userPage ↔ cm.Maps pid v f := by
  rw [List.mem_map]
  constructor
  · rintro ⟨g, hg, heq⟩
    obtain ⟨rfl, rfl, rfl⟩ : (cm.own g).1 = pid ∧ (cm.own g).2.1 = v ∧ g = f := by
      simpa [Coremap.userPage] using heq
    exact ⟨(h.rep.mem_queue g).1 hg, rfl, rfl⟩
  · rintro ⟨hu, rfl, rfl⟩
    exact ⟨f, (h.rep.mem_queue f).2 hu, rfl⟩

theorem TableInv.shows (h : TableInv cm q) : Shows cm (q.map cm.userPage) where
  linked := by
    have hid : UserPage.frame ∘ cm.userPage = id := rfl
    rw [List.map_map, hid, List.map_id]
    exact h.rep.queued.1
  owner := by
    intro e he
    obtain ⟨f, -, rfl⟩ := List.mem_map.1 he
    exact ⟨rfl, rfl⟩
  nonzero := by
    intro e he
    obtain ⟨f, hf, rfl⟩ := List.mem_map.1 he
    exact h.user_ne_zero ((h.rep.mem_queue f).1 hf)
  lookup := by
    intro pid v f hf
    rw [h.mem_pages]
    constructor
    · intro hget
      by_cases hm : ∃ g, cm.Maps pid v g
      · obtain ⟨g, hg⟩ := hm
        have heq := Except.ok.inj ((h.getpageaddr_maps hg).symm.trans hget)
        exact Nat.eq_of_mul_eq_mul_right PAGE_SIZE_pos heq ▸ hg
      · have hzero := h.rep.getpageaddr_absent fun g hg => hm ⟨g, hg⟩
        have heq : 0 = f * PAGE_SIZE := Except.ok.inj (hzero.symm.trans hget)
        have hpos := Nat.mul_pos (Nat.pos_of_ne_zero hf) PAGE_SIZE_pos
        omega
    · exact h.getpageaddr_maps
  missing := by
    intro pid v
    simp only [h.mem_pages]
    exact h.getpageaddr_eq_zero

/-! ## One call -/

theorem map_userPage_congr {l : List Nat} (h : ∀ f ∈ l, cm'.own f = cm.own f) :
    l.map cm'.userPage = l.map cm.userPage :=
  List.map_congr_left fun f hf => by simp only [Coremap.userPage, h f hf]

theorem map_userPage_update {l : List Nat} {i : Nat} {x : Int × VAddr × Nat}
    (hown : cm'.own = Function.update cm.own i x) (hi : i ∉ l) :
    l.map cm'.userPage = l.map cm.userPage := by
  refine map_userPage_congr fun f hf => ?_
  have hne : f ≠ i := fun heq => hi (heq ▸ hf)
  rw [hown, Function.update_of_ne hne]

theorem userPage_update {i n : Nat} (hown : cm'.own = Function.update cm.own i (pid, v, n)) :
    cm'.userPage i = ⟨pid, v, i⟩ := by
  rw [Coremap.userPage, hown, Function.update_self]

theorem getfreeframes_one_eq (h : TableInv cm q) (hf : cm.FreeFrame f)
    (hleast : ∀ k < f, ¬ cm.FreeFrame k) : getfreeframes cm.pt cm.ptsize 1 = f := by
  rcases getfreeframes_spec h.extents Nat.zero_lt_one with ⟨i, hi, hrun, hmin⟩ | ⟨-, hno⟩
  · have hif : ¬ i < f := fun hlt => hleast i hlt (runFree_one.1 hrun)
    have hfi : ¬ f < i := fun hlt => hmin f hlt (runFree_one.2 hf)
    obtain rfl : i = f := by omega
    exact hi
  · exact absurd (runFree_one.2 hf) (hno f)

theorem getfreeframes_one_none (h : TableInv cm q) (hno : ∀ k, ¬ cm.FreeFrame k) :
    getfreeframes cm.pt cm.ptsize 1 = -1 := by
  rcases getfreeframes_spec h.extents Nat.zero_lt_one with ⟨i, -, hrun, -⟩ | ⟨hnone, -⟩
  · exact absurd (runFree_one.1 hrun) (hno i)
  · exact hnone

/-- Taking one page out of the queue of frames takes it out of the list of pages. -/
theorem TableInv.filter_key (h : TableInv cm q) (hm : cm.Maps pid v f) :
    (q.map cm.userPage).filter (fun e => !(e.pid == pid && e.vaddr == v)) =
      (q.erase f).map cm.userPage := by
  rw [List.filter_map, h.rep.queue_nodup.erase_eq_filter]
  congr 1
  refine List.filter_congr fun g hg => ?_
  have hkey : ((cm.own g).1 = pid ∧ (cm.own g).2.1 = v) ↔ g = f := by
    constructor
    · rintro ⟨hp, hv⟩
      exact h.rep.inj g f ((h.rep.mem_queue g).1 hg) hm.1 (hp.trans hm.2.1.symm)
        (hv.trans hm.2.2.symm)
    · rintro rfl
      exact hm.2
  rw [Bool.eq_iff_iff]
  simp [Coremap.userPage, ← hkey, imp_iff_not_or]

/-- Every call has the effect on the list of pages that `queueOp` reads off. -/
theorem CoreEffect.pages (h : TableInv vm.cm q) (heff : CoreEffect vm.cm q op cm' q') :
    q'.map cm'.userPage = (queueOp vm op).apply (q.map vm.cm.userPage) := by
  have hqueue : ∀ i, ¬ vm.cm.IsUser i → i ∉ q := fun i hi hq => hi ((h.rep.mem_queue i).1 hq)
  cases heff with
  | @install pid v i _ hp hfresh hi hleast hown =>
    have hidx := getfreeframes_one_eq h hi hleast
    have hop : queueOp vm (.allocuserpage pid v) = .insert ⟨pid, v, i⟩ := by
      simp [queueOp, hidx]
    rw [hop, List.map_append, map_userPage_update hown (hqueue i hi.2.1), List.map_singleton,
      userPage_update hown]
    rfl
  | starve hno hq =>
    have hfirst := h.rep.firstvictim_eq
    subst hq
    simp [queueOp, getfreeframes_one_none h hno, hfirst, QueueOp.apply]
  | @replace pid v f t _ hp hfresh hno hq hown =>
    subst hq
    have hop : queueOp vm (.allocuserpage pid v) = .replace ⟨pid, v, f⟩ := by
      simp [queueOp, getfreeframes_one_none h hno, h.rep.firstvictim_eq]
    have hft : f ∉ t := (List.nodup_cons.1 h.rep.queue_nodup).1
    rw [hop, List.map_append, map_userPage_update hown hft, List.map_singleton,
      userPage_update hown]
    rfl
  | @release pid v f _ hm hown =>
    have hout : f ∉ q.erase f := h.rep.queue_nodup.not_mem_erase
    rw [map_userPage_update hown hout, ← h.filter_key hm]
    rfl
  | @absent pid v hfresh =>
    refine (List.filter_eq_self.2 fun e he => ?_).symm
    obtain ⟨g, hg, rfl⟩ := List.mem_map.1 he
    have hno := hfresh g
    have hu := (h.rep.mem_queue g).1 hg
    simp only [Bool.not_eq_true', Bool.and_eq_false_imp, beq_iff_eq, beq_eq_false_iff_ne]
    exact fun hp hv => hno ⟨hu, hp, hv⟩
  | @remove pid _ hp hown =>
    have hkept : ∀ f ∈ q.filter fun j => !decide ((vm.cm.own j).1 = pid),
        cm'.own f = vm.cm.own f := by
      intro f hf
      obtain ⟨hfq, hne⟩ := List.mem_filter.1 hf
      rw [hown f ((h.rep.mem_queue f).1 hfq).1, if_neg (by simpa using hne)]
    rw [map_userPage_congr hkept, queueOp, if_pos hp, QueueOp.apply, List.filter_map]
    rfl
  | removeNobody hp =>
    rw [queueOp, if_neg hp]
    rfl
  | kalloc hn hrun hown =>
    exact map_userPage_update hown (hqueue _ (hrun _ le_rfl (by omega)).2.1)
  | kfree hz hown =>
    refine map_userPage_update hown (hqueue _ fun hu => ?_)
    have := hu.2
    omega

/-! ## Whole runs -/

/-- The operations of a run, on the queue. -/
def queueOps (σ : Nat → Vm) (lab : Nat → CoreOp) (i : Nat) : QueueOp UserPage :=
  queueOp (σ i) (lab i)

/-- What the list of pages says about a run of the page table: it is what the table shows in every
    state, the evicted pages are the heads of the list, and they leave in the order of the calls
    that brought them in. -/
structure RefinesQueue (σ : Nat → Vm) (lab : Nat → CoreOp) (n : Nat) : Prop where
  shows : ∀ i ≤ n, Shows (σ i).cm ((queueRun (queueOps σ lab) i).map Stamped.val)
  evicts : ∀ i < n, ∀ e, Evicted (σ i) (lab i) e ↔
    ∃ b, (queueOps σ lab i).evicts (queueRun (queueOps σ lab) i) = some ⟨e, b⟩
  born : ∀ i ≤ n, ∀ s ∈ queueRun (queueOps σ lab) i, s.born < i ∧
    lab s.born = .allocuserpage s.val.pid s.val.vaddr
  order : ∀ i j s s', i < j → j < n →
    (queueOps σ lab i).evicts (queueRun (queueOps σ lab) i) = some s →
    (queueOps σ lab j).evicts (queueRun (queueOps σ lab) j) = some s' → s.born < s'.born

variable {σ : Nat → Vm} {lab : Nat → CoreOp} {n : Nat}

/-- The list of pages and the page table, side by side. -/
theorem run_pages (hboot : Boots (σ 0)) (hrun : IsRun CoreStep σ lab n) :
    ∀ i ≤ n, ∃ q, TableInv (σ i).cm q ∧
      (queueRun (queueOps σ lab) i).map Stamped.val = q.map (σ i).cm.userPage := by
  intro i
  induction i with
  | zero => exact fun _ => ⟨[], hboot.tableInv, rfl⟩
  | succ i ih =>
    intro hi
    obtain ⟨q, hinv, hpages⟩ := ih (by omega)
    obtain ⟨q', hinv', -, heff⟩ := coreStep_effect hinv (hrun i hi)
    refine ⟨q', hinv', ?_⟩
    rw [heff.pages hinv, queueRun, map_val_next, hpages]
    rfl

/-- Only allocations bring pages in. -/
theorem queueOp_arrival {e : UserPage}
    (h : queueOp vm op = .insert e ∨ queueOp vm op = .replace e) :
    op = .allocuserpage e.pid e.vaddr := by
  cases op with
  | allocuserpage pid v =>
    simp only [queueOp] at h
    split at h
    · split at h
      · simp at h
      · obtain rfl : _ = e := by simpa using h
        rfl
    · obtain rfl : _ = e := by simpa using h
      rfl
  | freeuserpage pid v | getfreeppages n | freeKpages i => simp [queueOp] at h
  | removeptentries pid =>
    simp only [queueOp] at h
    split at h <;> simp at h

/-- An eviction by the code's own tests replaces in the list. -/
theorem queueOp_replace {e : UserPage} :
    queueOp vm op = .replace e ↔ op = .allocuserpage e.pid e.vaddr ∧
      getfreeframes vm.cm.pt vm.cm.ptsize 1 = -1 ∧ vm.cm.firstvictim = some e.frame := by
  constructor
  · intro h
    obtain rfl := queueOp_arrival (.inr h)
    simp only [queueOp] at h
    split at h
    · rename_i hfull
      split at h
      · cases h
      · rename_i victim hv
        have hframe : victim = e.frame := congrArg UserPage.frame (QueueOp.replace.inj h)
        exact ⟨rfl, hfull, hframe ▸ hv⟩
    · cases h
  · rintro ⟨rfl, hfull, hv⟩
    simp [queueOp, hfull, hv]

theorem evicted_iff (h : TableInv vm.cm q) {l : List (Stamped UserPage)}
    (hl : l.map Stamped.val = q.map vm.cm.userPage) (e : UserPage) :
    Evicted vm op e ↔ ∃ b, (queueOp vm op).evicts l = some ⟨e, b⟩ := by
  have hhead : (l.map Stamped.val).head? = vm.cm.firstvictim.map vm.cm.userPage := by
    rw [hl, List.head?_map, h.rep.firstvictim_eq]
  constructor
  · rintro ⟨⟨pid, v, rfl⟩, hfull, hv, hp, hw⟩
    have hop : queueOp vm (.allocuserpage pid v) = .replace ⟨pid, v, e.frame⟩ :=
      queueOp_replace.2 ⟨rfl, hfull, hv⟩
    have he : vm.cm.userPage e.frame = e := by
      rw [Coremap.userPage, Coremap.own, hp, hw]
    rw [hv, Option.map_some, he, List.head?_map, Option.map_eq_some_iff] at hhead
    obtain ⟨s, hs, rfl⟩ := hhead
    exact ⟨s.born, by rw [hop]; exact hs⟩
  · rintro ⟨b, hb⟩
    cases hop : queueOp vm op with
    | replace a =>
      obtain ⟨rfl, hfull, hv⟩ := queueOp_replace.1 hop
      have hs : l.head? = some ⟨e, b⟩ := by rw [hop] at hb; exact hb
      rw [List.head?_map, hs, hv] at hhead
      obtain rfl : e = vm.cm.userPage a.frame := Option.some.inj hhead
      exact ⟨⟨_, _, rfl⟩, hfull, hv, rfl, rfl⟩
    | insert a | remove p | idle => rw [hop] at hb; cases hb

/-- Lookup and replacement refine the list of pages, over every run from boot. -/
theorem coreRun_refinesQueue (hboot : Boots (σ 0)) (hrun : IsRun CoreStep σ lab n) :
    RefinesQueue σ lab n where
  shows := by
    intro i hi
    obtain ⟨q, hinv, hpages⟩ := run_pages hboot hrun i hi
    exact hpages ▸ hinv.shows
  evicts := by
    intro i hi e
    obtain ⟨q, hinv, hpages⟩ := run_pages hboot hrun i (Nat.le_of_lt hi)
    exact evicted_iff hinv hpages e
  born := by
    intro i _ s hs
    exact ⟨(queueRun_aged _ i).past s hs, queueOp_arrival (queueRun_born hs)⟩
  order := fun i j s s' hij _ hs hs' => evicts_in_order hij hs hs'

/-- A second page on the machine with one free frame. -/
def oneFrameReused : Vm :=
  (okOr (oneFrameUsed, 0) (allocuserpage oneFrameUsed 2 0x401000)).1

def reuseStates (i : Nat) : Vm :=
  if i = 0 then oneFrame else if i = 1 then oneFrameUsed else oneFrameReused

def reuseCalls (i : Nat) : CoreOp :=
  if i = 0 then .allocuserpage 2 0x400000 else .allocuserpage 2 0x401000

/-- The second page evicts the first. -/
theorem reuse_refinesQueue : RefinesQueue reuseStates reuseCalls 2 ∧
    Evicted oneFrameUsed (.allocuserpage 2 0x401000) ⟨2, 0x400000, 31⟩ := by
  have hfirst : CoreStep oneFrame (.allocuserpage 2 0x400000) oneFrameUsed :=
    ⟨by decide, rfl, 31 * 4096, rfl⟩
  have hsecond : CoreStep oneFrameUsed (.allocuserpage 2 0x401000) oneFrameReused :=
    ⟨by decide, by decide +kernel, exists_okOr (by decide +kernel)⟩
  have hrun : IsRun CoreStep reuseStates reuseCalls 2 := by
    intro i hi
    obtain rfl | rfl : i = 0 ∨ i = 1 := by omega
    · exact hfirst
    · exact hsecond
  exact ⟨coreRun_refinesQueue oneFrame_boots hrun, ⟨_, _, rfl⟩, by decide, rfl, rfl, rfl⟩

end DemandPaging
