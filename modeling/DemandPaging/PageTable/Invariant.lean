import Mathlib.Data.Finset.Card
import DemandPaging.PageTable

set_option autoImplicit false

/-! # The representation invariant of the page table

`Rep cm q` ties the two intrusive structures to the entries: the FIFO list starting at
`firstvictim` is `q`, the chain of every bucket holds exactly the user entries that hash there, and
no two user entries have the same key. Everything a caller may want to know about who owns a frame
is in `own`; the link fields only matter through `Rep`.

`setptentry` and `freeuser` get one specification each: what they do to `own` and to `q`. They are
assembled from the specifications of the four list edits (`hashInsert`, `fifoInsert`, `hashRemove`,
`fifoUnlink` with `fixLast`), each of which touches only one of the two structures
(`HashFrame`, `FifoFrame`). -/

namespace DemandPaging

open Function (update update_self update_of_ne update_eq_self)

namespace Coremap

variable (cm : Coremap)

/-! ## Ownership of frames -/

/-- Owner, page and extent recorded for a frame: an entry without its links. -/
def own (i : Nat) : Int × VAddr × Nat := ((cm.pt i).pid, (cm.pt i).vaddr, (cm.pt i).numpages)

/-- Frame `i` holds a user page. -/
def IsUser (i : Nat) : Prop := i < cm.ptsize ∧ 0 < (cm.own i).1

/-- Page `v` of process `pid` is resident in frame `f`. -/
def Maps (pid : Int) (v : VAddr) (f : Nat) : Prop :=
  cm.IsUser f ∧ (cm.own f).1 = pid ∧ (cm.own f).2.1 = v

def bucketOf (i : Nat) : Nat := cm.bucket (cm.own i).1 (cm.own i).2.1

instance (i : Nat) : Decidable (cm.IsUser i) := inferInstanceAs (Decidable (_ ∧ _))

instance (pid : Int) (v : VAddr) (f : Nat) : Decidable (cm.Maps pid v f) :=
  inferInstanceAs (Decidable (_ ∧ _))

/-- The chains hold exactly the entries of `S`, each in its own bucket. -/
def Chained (S : Nat → Prop) : Prop :=
  ∀ b < cm.hashedptsize, ∃ l, Linked cm.nextOf (cm.hashedpt b) l ∧
    ∀ i, i ∈ l ↔ S i ∧ cm.bucketOf i = b

/-- The FIFO list and its two end pointers. -/
def Queued (q : List Nat) : Prop :=
  Linked cm.fifoOf cm.firstvictim q ∧ cm.lastallocateduser = q.getLast?

end Coremap

/-- The representation invariant of the page table, `q` being the FIFO queue. -/
structure Rep (cm : Coremap) (q : List Nat) : Prop where
  hashed_pos : 0 < cm.hashedptsize
  queued : cm.Queued q
  mem_queue : ∀ i, i ∈ q ↔ cm.IsUser i
  chained : cm.Chained cm.IsUser
  inj : ∀ i j, cm.IsUser i → cm.IsUser j → (cm.own i).1 = (cm.own j).1 →
    (cm.own i).2.1 = (cm.own j).2.1 → i = j

/-- Nothing changed but the hash table and the `next` links. -/
structure HashFrame (cm cm' : Coremap) : Prop where
  own : cm'.own = cm.own
  fifoOf : cm'.fifoOf = cm.fifoOf
  firstvictim : cm'.firstvictim = cm.firstvictim
  lastallocateduser : cm'.lastallocateduser = cm.lastallocateduser
  ptsize : cm'.ptsize = cm.ptsize
  hashedptsize : cm'.hashedptsize = cm.hashedptsize
  isAct : cm'.isAct = cm.isAct

/-- Nothing changed but the FIFO list. -/
structure FifoFrame (cm cm' : Coremap) : Prop where
  own : cm'.own = cm.own
  nextOf : cm'.nextOf = cm.nextOf
  hashedpt : cm'.hashedpt = cm.hashedpt
  ptsize : cm'.ptsize = cm.ptsize
  hashedptsize : cm'.hashedptsize = cm.hashedptsize
  isAct : cm'.isAct = cm.isAct

/-- The sizes and the boot flag, which no operation changes. -/
structure SameShape (cm cm' : Coremap) : Prop where
  ptsize : cm'.ptsize = cm.ptsize
  hashedptsize : cm'.hashedptsize = cm.hashedptsize
  isAct : cm'.isAct = cm.isAct

theorem SameShape.refl (cm : Coremap) : SameShape cm cm := ⟨rfl, rfl, rfl⟩

theorem SameShape.trans {a b c : Coremap} (h : SameShape a b) (h' : SameShape b c) :
    SameShape a c :=
  ⟨h'.ptsize.trans h.ptsize, h'.hashedptsize.trans h.hashedptsize, h'.isAct.trans h.isAct⟩

theorem HashFrame.sameShape {a b : Coremap} (h : HashFrame a b) : SameShape a b :=
  ⟨h.ptsize, h.hashedptsize, h.isAct⟩

theorem FifoFrame.sameShape {a b : Coremap} (h : FifoFrame a b) : SameShape a b :=
  ⟨h.ptsize, h.hashedptsize, h.isAct⟩

theorem FifoFrame.trans {a b c : Coremap} (h : FifoFrame a b) (h' : FifoFrame b c) :
    FifoFrame a c :=
  ⟨h'.own.trans h.own, h'.nextOf.trans h.nextOf, h'.hashedpt.trans h.hashedpt,
    h'.ptsize.trans h.ptsize, h'.hashedptsize.trans h.hashedptsize, h'.isAct.trans h.isAct⟩

/-! ## The single-word writes on the views -/

section Writes

variable (cm : Coremap) (i : Nat)

@[simp] theorem own_setEntry (e : PtPage) :
    (cm.setEntry i e).own = update cm.own i (e.pid, e.vaddr, e.numpages) := by
  funext j
  by_cases hj : j = i
  · subst hj; simp [Coremap.own, Coremap.setEntry]
  · simp [Coremap.own, Coremap.setEntry, hj]

@[simp] theorem nextOf_setEntry (e : PtPage) :
    (cm.setEntry i e).nextOf = update cm.nextOf i e.next := by
  funext j
  by_cases hj : j = i
  · subst hj; simp [Coremap.nextOf, Coremap.setEntry]
  · simp [Coremap.nextOf, Coremap.setEntry, hj]

@[simp] theorem fifoOf_setEntry (e : PtPage) :
    (cm.setEntry i e).fifoOf = update cm.fifoOf i e.fifonext := by
  funext j
  by_cases hj : j = i
  · subst hj; simp [Coremap.fifoOf, Coremap.setEntry]
  · simp [Coremap.fifoOf, Coremap.setEntry, hj]

theorem own_setNext (x : Option Nat) : (cm.setNext i x).own = cm.own := by
  rw [Coremap.setNext, own_setEntry]
  exact update_eq_self i cm.own

theorem nextOf_setNext (x : Option Nat) :
    (cm.setNext i x).nextOf = update cm.nextOf i x := by
  rw [Coremap.setNext, nextOf_setEntry]

theorem fifoOf_setNext (x : Option Nat) : (cm.setNext i x).fifoOf = cm.fifoOf := by
  rw [Coremap.setNext, fifoOf_setEntry]
  exact update_eq_self i cm.fifoOf

theorem own_setFifonext (x : Option Nat) : (cm.setFifonext i x).own = cm.own := by
  rw [Coremap.setFifonext, own_setEntry]
  exact update_eq_self i cm.own

theorem nextOf_setFifonext (x : Option Nat) : (cm.setFifonext i x).nextOf = cm.nextOf := by
  rw [Coremap.setFifonext, nextOf_setEntry]
  exact update_eq_self i cm.nextOf

theorem fifoOf_setFifonext (x : Option Nat) :
    (cm.setFifonext i x).fifoOf = update cm.fifoOf i x := by
  rw [Coremap.setFifonext, fifoOf_setEntry]

@[simp] theorem nextOf_sethashedptentry (pid : Int) (v : VAddr) (x : Option Nat) :
    (cm.sethashedptentry pid v x).nextOf = cm.nextOf := rfl

@[simp] theorem hashedpt_sethashedptentry (pid : Int) (v : VAddr) (x : Option Nat) :
    (cm.sethashedptentry pid v x).hashedpt
      = update cm.hashedpt (cm.bucket pid v) x := rfl

theorem setNext_frame (x : Option Nat) : HashFrame cm (cm.setNext i x) :=
  ⟨own_setNext cm i x, fifoOf_setNext cm i x, rfl, rfl, rfl, rfl, rfl⟩

theorem setFifonext_frame (x : Option Nat) : FifoFrame cm (cm.setFifonext i x) :=
  ⟨own_setFifonext cm i x, nextOf_setFifonext cm i x, rfl, rfl, rfl, rfl⟩

theorem sethashedptentry_frame (pid : Int) (v : VAddr) (x : Option Nat) :
    HashFrame cm (cm.sethashedptentry pid v x) :=
  ⟨rfl, rfl, rfl, rfl, rfl, rfl, rfl⟩

end Writes

section Frames

variable {cm cm' : Coremap}

theorem bucket_eq_of_shape (h : cm'.hashedptsize = cm.hashedptsize) : cm'.bucket = cm.bucket := by
  funext pid v
  simp only [Coremap.bucket, h]

theorem bucketOf_eq (h : cm'.own = cm.own) (h' : cm'.hashedptsize = cm.hashedptsize) :
    cm'.bucketOf = cm.bucketOf := by
  funext i
  simp only [Coremap.bucketOf, h, bucket_eq_of_shape h']

theorem bucket_lt (hpos : 0 < cm.hashedptsize) (pid : Int) (v : VAddr) :
    cm.bucket pid v < cm.hashedptsize :=
  Nat.mod_lt _ hpos

/-- The chains do not depend on the FIFO list. -/
theorem FifoFrame.chained (h : FifoFrame cm cm') {S : Nat → Prop} (hc : cm.Chained S) :
    cm'.Chained S := by
  intro b hb
  rw [h.nextOf, h.hashedpt, bucketOf_eq h.own h.hashedptsize]
  exact hc b (h.hashedptsize ▸ hb)

/-- The FIFO list does not depend on the chains. -/
theorem HashFrame.queued (h : HashFrame cm cm') {q : List Nat} (hq : cm.Queued q) :
    cm'.Queued q := by
  unfold Coremap.Queued
  rw [h.fifoOf, h.firstvictim, h.lastallocateduser]
  exact hq

/-- A list of distinct table indices fits in the walks' fuel. -/
theorem length_le_ptsize {l : List Nat} (hnd : l.Nodup) (hlt : ∀ i ∈ l, i < cm.ptsize) :
    l.length ≤ cm.ptsize := by
  have hsub : l.toFinset ⊆ Finset.range cm.ptsize := by
    intro i hi
    exact Finset.mem_range.2 (hlt i (List.mem_toFinset.1 hi))
  have hcard := Finset.card_le_card hsub
  rwa [List.toFinset_card_of_nodup hnd, Finset.card_range] at hcard

end Frames

/-! ## Edits of one hash chain -/

section Chains

variable {cm cm' : Coremap} {S S' : Nat → Prop} {pid : Int} {v : VAddr} {node : Nat}

/-- An edit of one bucket: the other chains are kept if their nodes keep their links, and
    membership may only change for entries of the edited bucket. -/
theorem Coremap.Chained.edit (hc : cm.Chained S) (hf : HashFrame cm cm') {b : Nat}
    (hb : ∃ l, Linked cm'.nextOf (cm'.hashedpt b) l ∧ ∀ i, i ∈ l ↔ S' i ∧ cm.bucketOf i = b)
    (hkeep : ∀ b' l, b' ≠ b → Linked cm.nextOf (cm.hashedpt b') l →
      (∀ i ∈ l, cm.bucketOf i = b') → Linked cm'.nextOf (cm'.hashedpt b') l)
    (hS : ∀ i, cm.bucketOf i ≠ b → (S' i ↔ S i)) : cm'.Chained S' := by
  intro b' hb'
  rw [bucketOf_eq hf.own hf.hashedptsize]
  by_cases heq : b' = b
  · rw [heq]; exact hb
  · obtain ⟨l, hl, hmem⟩ := hc b' (hf.hashedptsize ▸ hb')
    refine ⟨l, hkeep b' l heq hl (fun i hi => ((hmem i).1 hi).2), fun i => ?_⟩
    rw [hmem i]
    constructor
    · rintro ⟨hi, rfl⟩; exact ⟨(hS i heq).2 hi, rfl⟩
    · rintro ⟨hi, rfl⟩; exact ⟨(hS i heq).1 hi, rfl⟩

/-- `hashInsert` appends the node to its chain and touches nothing else. -/
theorem hashInsert_spec (hpos : 0 < cm.hashedptsize) (hc : cm.Chained S)
    (hlt : ∀ i, S i → i < cm.ptsize) (hn : ¬ S node) (hnull : cm.nextOf node = none)
    (hbk : cm.bucketOf node = cm.bucket pid v) :
    ∃ cm', cm.hashInsert pid v node = .ok cm' ∧ HashFrame cm cm' ∧
      cm'.Chained (fun i => S i ∨ i = node) := by
  obtain ⟨l, hl, hmem⟩ := hc _ (bucket_lt hpos pid v)
  have hout : ∀ i, cm.bucketOf i ≠ cm.bucket pid v → ((S i ∨ i = node) ↔ S i) := by
    intro i hi
    exact or_iff_left (fun he => hi (he ▸ hbk))
  have hnl : node ∉ l := fun hm => hn ((hmem node).1 hm).1
  rcases List.eq_nil_or_concat l with rfl | ⟨l₀, last, rfl⟩
  · -- empty bucket: the node becomes the head of the chain
    have hhead : cm.gethashedentry pid v = none := hl
    refine ⟨cm.sethashedptentry pid v (some node), ?_, sethashedptentry_frame .., ?_⟩
    · simp only [Coremap.hashInsert, hhead]
    refine hc.edit (sethashedptentry_frame ..) ⟨[node], ?_, fun i => ?_⟩ ?_ hout
    · simpa using hnull
    · have hno : ¬ (S i ∧ cm.bucketOf i = cm.bucket pid v) :=
        fun h => by simpa using (hmem i).2 h
      constructor
      · intro hi
        obtain rfl : i = node := by simpa using hi
        exact ⟨.inr rfl, hbk⟩
      · rintro ⟨hi | rfl, hb⟩
        · exact absurd ⟨hi, hb⟩ hno
        · exact List.mem_singleton.2 rfl
    · intro b' l' hb' hl' _
      simpa [hb'] using hl'
  · -- otherwise the last node of the chain gets the link
    rw [List.concat_eq_append] at hl hmem hnl
    have hlast : (l₀ ++ [last]).getLast? = some last := by simp
    obtain ⟨n, hhead⟩ : ∃ n, cm.gethashedentry pid v = some n := by
      cases hh : cm.gethashedentry pid v with
      | none => exact absurd (hl.head_eq.symm.trans hh) (by cases l₀ <;> simp)
      | some n => exact ⟨n, rfl⟩
    have hl' : Linked cm.nextOf (some n) (l₀ ++ [last]) := hhead ▸ hl
    have hlen : (l₀ ++ [last]).length ≤ cm.ptsize :=
      length_le_ptsize hl.nodup (fun i hi => hlt i ((hmem i).1 hi).1)
    have hwalk := walkLast_eq hl' hlen hlast
    have hlastb : cm.bucketOf last = cm.bucket pid v := ((hmem last).1 (by simp)).2
    refine ⟨cm.setNext last (some node), ?_, setNext_frame .., ?_⟩
    · simp only [Coremap.hashInsert, hhead, hwalk, liftWalk]
    refine hc.edit (setNext_frame ..) ⟨l₀ ++ [last] ++ [node], ?_, fun i => ?_⟩ ?_ hout
    · rw [nextOf_setNext]
      exact hl.snoc hnl hnull hlast
    · rw [List.mem_append, hmem i, List.mem_singleton]
      constructor
      · rintro (⟨hi, hb⟩ | rfl)
        · exact ⟨.inl hi, hb⟩
        · exact ⟨.inr rfl, hbk⟩
      · rintro ⟨hi | rfl, hb⟩
        · exact .inl ⟨hi, hb⟩
        · exact .inr rfl
    · intro b' l' hb' hl' hbl'
      rw [nextOf_setNext]
      exact hl'.update_of_notMem (fun hm => hb' ((hbl' last hm).symm.trans hlastb))

/-- Looking up a key that no chained entry has. -/
theorem walkFind_chain_none (hpos : 0 < cm.hashedptsize) (hc : cm.Chained S)
    (hlt : ∀ i, S i → i < cm.ptsize) (hno : ∀ i, S i → cm.isKey pid v i = false) :
    walkFind cm.nextOf (cm.isKey pid v) cm.ptsize (cm.gethashedentry pid v) none = .ok none := by
  obtain ⟨l, hl, hmem⟩ := hc _ (bucket_lt hpos pid v)
  exact walkFind_none hl (length_le_ptsize hl.nodup (fun i hi => hlt i ((hmem i).1 hi).1))
    (fun i hi => hno i ((hmem i).1 hi).1)

/-- Looking up the key of `node`, the only chained entry that has it: the walk finds it, and
    unlinking it behind the predecessor the walk hands back removes exactly it. -/
theorem hashRemove_spec (hpos : 0 < cm.hashedptsize) (hc : cm.Chained S)
    (hlt : ∀ i, S i → i < cm.ptsize) (hn : S node)
    (hkey : ∀ i, S i → (cm.isKey pid v i = true ↔ i = node))
    (hbk : cm.bucketOf node = cm.bucket pid v) :
    ∃ prec, walkFind cm.nextOf (cm.isKey pid v) cm.ptsize (cm.gethashedentry pid v) none
        = .ok (some (node, prec)) ∧
      HashFrame cm (cm.hashRemove pid v node prec) ∧
      (cm.hashRemove pid v node prec).Chained (fun i => S i ∧ i ≠ node) := by
  obtain ⟨l, hl, hmem⟩ := hc _ (bucket_lt hpos pid v)
  obtain ⟨l₁, l₂, rfl⟩ := List.append_of_mem ((hmem node).2 ⟨hn, hbk⟩)
  have hnd : (l₁ ++ node :: l₂).Nodup := hl.nodup
  have hnot : ∀ i ∈ l₁, cm.isKey pid v i = false := by
    intro i hi
    have hne : i ≠ node := fun he =>
      (List.nodup_append.1 hnd).2.2 i hi node (by simp) he
    have hSi := ((hmem i).1 (by simp [hi])).1
    exact Bool.eq_false_iff.2 (fun hk => hne ((hkey i hSi).1 hk))
  have hlen : l₁.length < cm.ptsize := by
    have := length_le_ptsize hnd (fun i hi => hlt i ((hmem i).1 hi).1)
    simp only [List.length_append, List.length_cons] at this
    omega
  have hwalk : walkFind cm.nextOf (cm.isKey pid v) cm.ptsize (cm.gethashedentry pid v) none
      = .ok (some (node, l₁.getLast?.or none)) :=
    walkFind_some hl hlen hnot ((hkey node hn).2 rfl)
  have hout : ∀ i, cm.bucketOf i ≠ cm.bucket pid v → ((S i ∧ i ≠ node) ↔ S i) :=
    fun i hi => and_iff_left (fun he => hi (he ▸ hbk))
  have hmem' : ∀ i, i ∈ l₁ ++ l₂ ↔ (S i ∧ i ≠ node) ∧ cm.bucketOf i = cm.bucket pid v := by
    intro i
    have hnl : node ∉ l₁ ++ l₂ := fun hm =>
      (List.nodup_cons.1 ((List.perm_middle.nodup_iff).1 hnd)).1 hm
    have hm := hmem i
    simp only [List.mem_append, List.mem_cons] at hm hnl ⊢
    constructor
    · intro hi
      have hne : i ≠ node := fun he => hnl (he ▸ hi)
      have hS := hm.1 (hi.elim .inl (fun h => .inr (.inr h)))
      exact ⟨⟨hS.1, hne⟩, hS.2⟩
    · rintro ⟨⟨hi, hne⟩, hb⟩
      rcases hm.2 ⟨hi, hb⟩ with h | h | h
      · exact .inl h
      · exact absurd h hne
      · exact .inr h
  rcases List.eq_nil_or_concat l₁ with rfl | ⟨l₀, p, rfl⟩
  · -- the node heads its chain: the bucket takes its link
    have hhead : cm.gethashedentry pid v = some node := hl.1
    have heq : cm.hashRemove pid v node none
        = cm.sethashedptentry pid v (cm.pt node).next := by
      simp only [Coremap.hashRemove, hhead, if_true]
    refine ⟨none, by simpa using hwalk, heq ▸ sethashedptentry_frame .., ?_⟩
    rw [heq]
    refine hc.edit (sethashedptentry_frame ..) ⟨l₂, ?_, by simpa using hmem'⟩ ?_ hout
    · rw [nextOf_sethashedptentry, hashedpt_sethashedptentry, update_self]
      exact hl.2
    · intro b' l' hb' hl' _
      simpa [hb'] using hl'
  · -- the predecessor takes its link, the bucket keeps its head
    rw [List.concat_eq_append, List.append_assoc, List.singleton_append] at hl hnd hmem
    have hpb : cm.bucketOf p = cm.bucket pid v := ((hmem p).1 (by simp)).2
    have hhead : cm.gethashedentry pid v ≠ some node := by
      intro hh
      have hhd : (l₀ ++ p :: node :: l₂).head? = some node := hl.head_eq.symm.trans hh
      cases l₀ with
      | nil =>
        obtain rfl : p = node := by simpa using hhd
        simp at hnd
      | cons d l₀ =>
        obtain rfl : d = node := by simpa using hhd
        simp at hnd
    have heq : cm.hashRemove pid v node (some p) = cm.setNext p (cm.pt node).next := by
      simp only [Coremap.hashRemove, if_neg hhead]
    refine ⟨some p, by simpa using hwalk, heq ▸ setNext_frame .., ?_⟩
    rw [heq]
    refine hc.edit (setNext_frame ..) ⟨l₀ ++ p :: l₂, ?_, by simpa using hmem'⟩ ?_ hout
    · rw [nextOf_setNext]
      exact hl.unlink
    · intro b' l' hb' hl' hbl'
      rw [nextOf_setNext]
      exact hl'.update_of_notMem (fun hm => hb' ((hbl' p hm).symm.trans hpb))

end Chains

/-! ## Edits of the FIFO list -/

section Fifo

variable {cm : Coremap} {q : List Nat} {pid : Int} {v : VAddr} {node : Nat}

/-- `fifoInsert` appends the node to the queue and touches nothing else. -/
theorem fifoInsert_spec (hq : cm.Queued q) (hn : node ∉ q) (hnull : cm.fifoOf node = none) :
    FifoFrame cm (cm.fifoInsert node) ∧ (cm.fifoInsert node).Queued (q ++ [node]) := by
  obtain ⟨hl, hlast⟩ := hq
  rcases List.eq_nil_or_concat q with rfl | ⟨q₀, b, rfl⟩
  · have hfv : cm.firstvictim = none := hl
    have heq : cm.fifoInsert node
        = { cm with firstvictim := some node, lastallocateduser := some node } := by
      simp [Coremap.fifoInsert, show cm.lastallocateduser = none by simpa using hlast, hfv]
    rw [heq]
    exact ⟨⟨rfl, rfl, rfl, rfl, rfl, rfl⟩, linked_singleton hnull, rfl⟩
  · rw [List.concat_eq_append] at hl hlast hn ⊢
    have hb : (q₀ ++ [b]).getLast? = some b := by simp
    have hfv : cm.firstvictim ≠ none := by
      intro hnone
      have := hl.head_eq.symm.trans hnone
      cases q₀ <;> simp at this
    have heq : cm.fifoInsert node
        = { cm.setFifonext b (some node) with lastallocateduser := some node } := by
      have hfv' : (cm.setFifonext b (some node)).firstvictim ≠ none := hfv
      simp only [Coremap.fifoInsert, hlast.trans hb, if_neg hfv']
    rw [heq]
    refine ⟨⟨own_setFifonext .., nextOf_setFifonext .., rfl, rfl, rfl, rfl⟩, ?_, by simp⟩
    have hsnoc := hl.snoc hn hnull hb
    rwa [← fifoOf_setFifonext cm b (some node)] at hsnoc

/-- `fifoUnlink` takes the only entry with this key off the list, and reads through no null. -/
theorem fifoUnlink_spec (hl : Linked cm.fifoOf cm.firstvictim q)
    (hlt : ∀ i ∈ q, i < cm.ptsize) (hn : node ∈ q)
    (hkey : ∀ i ∈ q, (cm.isKey pid v i = true ↔ i = node)) :
    ∃ cm', cm.fifoUnlink pid v node = .ok cm' ∧ FifoFrame cm cm' ∧
      Linked cm'.fifoOf cm'.firstvictim (q.erase node) ∧
      cm'.lastallocateduser = cm.lastallocateduser := by
  obtain ⟨l₁, l₂, rfl⟩ := List.append_of_mem hn
  have hnd := hl.nodup
  have hn₁ : node ∉ l₁ := fun hm => (List.nodup_append.1 hnd).2.2 node hm node (by simp) rfl
  rw [List.erase_append_right _ hn₁, List.erase_cons_head]
  rcases List.eq_nil_or_concat l₁ with rfl | ⟨l₀, b, rfl⟩
  · -- the victim itself: the queue starts at its link
    have hfv : cm.firstvictim = some node := hl.1
    refine ⟨{ cm with firstvictim := (cm.pt node).fifonext }, ?_,
      ⟨rfl, rfl, rfl, rfl, rfl, rfl⟩, hl.2, rfl⟩
    simp [Coremap.fifoUnlink, hfv]
  · rw [List.concat_eq_append, List.append_assoc, List.singleton_append] at *
    obtain ⟨a, hfv⟩ : ∃ a, cm.firstvictim = some a := by
      cases hh : cm.firstvictim with
      | none => exact absurd (hl.head_eq.symm.trans hh) (by cases l₀ <;> simp)
      | some a => exact ⟨a, rfl⟩
    have hane : cm.firstvictim ≠ some node := by
      intro hh
      have hhd : (l₀ ++ b :: node :: l₂).head? = some node := hl.head_eq.symm.trans hh
      cases l₀ with
      | nil => exact hn₁ (by simpa using hhd.symm)
      | cons d l₀ => exact hn₁ (by simp at hhd; simp [hhd])
    have hbf : cm.fifoOf b = some node := hl.split.2.1
    have hlen : l₀.length < cm.ptsize := by
      have := length_le_ptsize hnd hlt
      simp only [List.length_append, List.length_cons] at this
      omega
    have hwalk : walkPrec cm.fifoOf (cm.isKey pid v) cm.ptsize a = .ok b := by
      refine walkPrec_eq (hfv ▸ hl) hlen (fun x hx => ?_) ((hkey node hn).2 rfl)
      have hx' : x ∈ l₀ ++ [b] := List.mem_of_mem_tail hx
      have hxq : x ∈ l₀ ++ b :: node :: l₂ := by
        rcases List.mem_append.1 hx' with h | h
        · exact List.mem_append_left _ h
        · exact List.mem_append_right _ (by simpa using .inl (List.mem_singleton.1 h))
      exact Bool.eq_false_iff.2 (fun hk => hn₁ ((hkey x hxq).1 hk ▸ hx'))
    refine ⟨cm.setFifonext b (cm.fifoOf node), ?_, setFifonext_frame .., ?_, rfl⟩
    · rw [Coremap.fifoUnlink, if_pos hane, hfv]
      simp only [hwalk, liftWalk, hbf, Option.bind_some]
    · rw [fifoOf_setFifonext]
      exact hl.unlink

/-- The last element survives the removal of any other one. -/
theorem getLast?_erase_of_ne {l : List Nat} {a : Nat} (h : l.getLast? ≠ some a) :
    (l.erase a).getLast? = l.getLast? := by
  rcases List.eq_nil_or_concat l with rfl | ⟨l₀, b, rfl⟩
  · rfl
  · rw [List.concat_eq_append] at h ⊢
    have hb : b ≠ a := fun he => h (by simp [he])
    by_cases ha : a ∈ l₀
    · rw [List.erase_append_left _ ha]; simp
    · rw [List.erase_append_right _ ha, List.erase_cons_tail (by simpa using hb)]; simp

/-- `fixLast` restores the pointer to the last element of the queue. -/
theorem fixLast_spec (hl : Linked cm.fifoOf cm.firstvictim (q.erase node))
    (hlt : ∀ i ∈ q, i < cm.ptsize) (hlast : cm.lastallocateduser = q.getLast?) :
    ∃ cm', cm.fixLast node = .ok cm' ∧ FifoFrame cm cm' ∧ cm'.Queued (q.erase node) := by
  by_cases hnode : cm.lastallocateduser = some node
  · rcases List.eq_nil_or_concat (q.erase node) with hnil | ⟨q₀, b, hq⟩
    · have hfv : cm.firstvictim = none := by simpa [hnil] using hl.head_eq
      refine ⟨{ cm with lastallocateduser := none }, ?_, ⟨rfl, rfl, rfl, rfl, rfl, rfl⟩, hl, ?_⟩
      · simp [Coremap.fixLast, hnode, hfv]
      · simp [hnil]
    · rw [List.concat_eq_append] at hq
      obtain ⟨a, hfv⟩ : ∃ a, cm.firstvictim = some a := by
        cases hh : cm.firstvictim with
        | none =>
          have := hl.head_eq.symm.trans hh
          rw [hq] at this
          cases q₀ <;> simp at this
        | some a => exact ⟨a, rfl⟩
      have hlen : (q.erase node).length ≤ cm.ptsize :=
        length_le_ptsize hl.nodup (fun i hi => hlt i (List.mem_of_mem_erase hi))
      have hb : (q.erase node).getLast? = some b := by simp [hq]
      have hwalk := walkLast_eq (hfv ▸ hl) hlen hb
      refine ⟨{ cm with lastallocateduser := some b }, ?_, ⟨rfl, rfl, rfl, rfl, rfl, rfl⟩, hl,
        hb.symm⟩
      simp only [Coremap.fixLast, if_pos hnode, hfv, hwalk, liftWalk]
  · refine ⟨cm, by simp only [Coremap.fixLast, if_neg hnode], ⟨rfl, rfl, rfl, rfl, rfl, rfl⟩, hl,
      ?_⟩
    rw [getLast?_erase_of_ne (hlast ▸ hnode), hlast]

end Fifo

/-! ## Writing an entry that is on no list -/

section Entry

variable {cm : Coremap} {q : List Nat} {i : Nat} {e : PtPage}

theorem setEntry_sameShape (cm : Coremap) (i : Nat) (e : PtPage) :
    SameShape cm (cm.setEntry i e) := ⟨rfl, rfl, rfl⟩

theorem Coremap.Chained.setEntry {S : Nat → Prop} (hc : cm.Chained S) (hi : ¬ S i) :
    (cm.setEntry i e).Chained S := by
  intro b hb
  obtain ⟨l, hl, hmem⟩ := hc b hb
  have hil : i ∉ l := fun hm => hi ((hmem i).1 hm).1
  refine ⟨l, ?_, fun j => ?_⟩
  · rw [nextOf_setEntry]
    exact hl.update_of_notMem hil
  · rw [hmem j]
    refine and_congr_right (fun hj => ?_)
    have hji : j ≠ i := fun he => hi (he ▸ hj)
    have hbk : (cm.setEntry i e).bucketOf j = cm.bucketOf j := by
      simp only [Coremap.bucketOf, own_setEntry, update_of_ne hji]
      rfl
    rw [hbk]

theorem Coremap.Queued.setEntry (hq : cm.Queued q) (hi : i ∉ q) :
    (cm.setEntry i e).Queued q := by
  refine ⟨?_, hq.2⟩
  rw [fifoOf_setEntry]
  exact hq.1.update_of_notMem hi

/-- Ownership after one entry is rewritten. -/
theorem isUser_of_own_update {cm cm' : Coremap} {x : Int × VAddr × Nat}
    (hown : cm'.own = update cm.own i x) (hsz : cm'.ptsize = cm.ptsize) (j : Nat) :
    cm'.IsUser j ↔ (j ≠ i ∧ cm.IsUser j) ∨ (j = i ∧ i < cm.ptsize ∧ 0 < x.1) := by
  unfold Coremap.IsUser
  rw [hown, hsz]
  by_cases hj : j = i
  · subst hj; simp
  · simp [hj]

theorem maps_of_own_update {cm cm' : Coremap} {x : Int × VAddr × Nat}
    (hown : cm'.own = update cm.own i x) (hsz : cm'.ptsize = cm.ptsize)
    (pid : Int) (v : VAddr) (f : Nat) :
    cm'.Maps pid v f ↔ (f ≠ i ∧ cm.Maps pid v f) ∨
      (f = i ∧ i < cm.ptsize ∧ 0 < x.1 ∧ x.1 = pid ∧ x.2.1 = v) := by
  unfold Coremap.Maps
  rw [isUser_of_own_update hown hsz, hown]
  by_cases hf : f = i
  · subst hf; simp [and_assoc]
  · simp [hf]

/-- An entry that is given to a user page. -/
theorem maps_update_user {cm cm' : Coremap} {pid : Int} {v : VAddr} {n : Nat}
    (hown : cm'.own = update cm.own i (pid, v, n)) (hsize : cm'.ptsize = cm.ptsize)
    (hi : i < cm.ptsize) (hpos : 0 < pid) (p : Int) (w : VAddr) (g : Nat) :
    cm'.Maps p w g ↔ (g ≠ i ∧ cm.Maps p w g) ∨ (g = i ∧ p = pid ∧ w = v) := by
  rw [maps_of_own_update hown hsize]
  constructor
  · rintro (⟨hg, hm⟩ | ⟨hg, -, -, h1, h2⟩)
    · exact .inl ⟨hg, hm⟩
    · exact .inr ⟨hg, h1.symm, h2.symm⟩
  · rintro (⟨hg, hm⟩ | ⟨rfl, rfl, rfl⟩)
    · exact .inl ⟨hg, hm⟩
    · exact .inr ⟨rfl, hi, hpos, rfl, rfl⟩

end Entry

/-! ## The operations of `pt.c` -/

section Operations

variable {cm : Coremap} {q : List Nat} {pid : Int} {v : VAddr} {f : Nat}

theorem Coremap.Maps.pid_pos (h : cm.Maps pid v f) : 0 < pid := h.2.1 ▸ h.1.2

theorem Rep.maps_unique {g : Nat} (h : Rep cm q) (hf : cm.Maps pid v f) (hg : cm.Maps pid v g) :
    f = g :=
  h.inj f g hf.1 hg.1 (hf.2.1.trans hg.2.1.symm) (hf.2.2.trans hg.2.2.symm)

theorem Rep.queue_lt (h : Rep cm q) : ∀ i ∈ q, i < cm.ptsize :=
  fun i hi => ((h.mem_queue i).1 hi).1

theorem Rep.queue_nodup (h : Rep cm q) : q.Nodup := h.queued.1.nodup

theorem Rep.firstvictim_eq (h : Rep cm q) : cm.firstvictim = q.head? := h.queued.1.head_eq

/-- On user entries the key test recognises exactly the page. -/
theorem isKey_iff_maps {i : Nat} (hi : cm.IsUser i) :
    cm.isKey pid v i = true ↔ cm.Maps pid v i := by
  simp [Coremap.isKey, Coremap.Maps, Coremap.own, hi]

theorem bucketOf_of_maps (h : cm.Maps pid v f) : cm.bucketOf f = cm.bucket pid v := by
  rw [Coremap.bucketOf, h.2.1, h.2.2]

/-- `setptentry` of a user page in a frame that holds none: the page goes to the end of the
    queue. -/
theorem Rep.setptentry_user {i n : Nat} (h : Rep cm q) (hi : i < cm.ptsize)
    (hfree : ¬ cm.IsUser i) (hp : 0 < pid) (hfresh : ∀ g, ¬ cm.Maps pid v g) :
    ∃ cm', cm.setptentry i n pid v = .ok cm' ∧ Rep cm' (q ++ [i]) ∧
      cm'.own = update cm.own i (pid, v, n) ∧ SameShape cm cm' := by
  set e : PtPage :=
    { pid := pid, vaddr := v, numpages := n, fifonext := none, next := none } with he
  have hiq : i ∉ q := fun hm => hfree ((h.mem_queue i).1 hm)
  have hown0 : (cm.setEntry i e).own = update cm.own i (pid, v, n) := own_setEntry cm i e
  have hbk : (cm.setEntry i e).bucketOf i = (cm.setEntry i e).bucket pid v := by
    simp [Coremap.bucketOf, hown0]
  have hch₀ : (cm.setEntry i e).Chained cm.IsUser := h.chained.setEntry hfree
  have hpos₀ : 0 < (cm.setEntry i e).hashedptsize := h.hashed_pos
  obtain ⟨cm₁, hins, hfr₁, hch₁⟩ :=
    hashInsert_spec hpos₀ hch₀ (fun j hj => hj.1) hfree (by simp [he]) hbk
  have hnull : cm₁.fifoOf i = none := by rw [hfr₁.fifoOf]; simp [he]
  obtain ⟨hfr₂, hqd₂⟩ := fifoInsert_spec (hfr₁.queued (h.queued.setEntry hiq)) hiq hnull
  have hown : (cm₁.fifoInsert i).own = update cm.own i (pid, v, n) := by
    rw [hfr₂.own, hfr₁.own, hown0]
  have hshape : SameShape cm (cm₁.fifoInsert i) :=
    (setEntry_sameShape cm i e).trans (hfr₁.sameShape.trans hfr₂.sameShape)
  have huser : ∀ j, (cm₁.fifoInsert i).IsUser j ↔ cm.IsUser j ∨ j = i := by
    intro j
    rw [isUser_of_own_update hown hshape.ptsize]
    constructor
    · rintro (⟨-, hj⟩ | ⟨hj, -⟩)
      · exact .inl hj
      · exact .inr hj
    · rintro (hj | rfl)
      · exact .inl ⟨fun he => hfree (he ▸ hj), hj⟩
      · exact .inr ⟨rfl, hi, hp⟩
  refine ⟨cm₁.fifoInsert i, ?_, ⟨?_, hqd₂, ?_, ?_, ?_⟩, hown, hshape⟩
  · simp only [Coremap.setptentry, if_neg (Nat.not_le.2 hi), if_pos hp]
    rw [hins]
  · rw [hshape.hashedptsize]; exact h.hashed_pos
  · intro j
    rw [huser j, List.mem_append, List.mem_singleton, h.mem_queue j]
  · have hch₂ := hfr₂.chained hch₁
    rwa [show (cm₁.fifoInsert i).IsUser = fun j => cm.IsUser j ∨ j = i from
      funext (fun j => propext (huser j))]
  · -- two user entries with one key: at most one of them is the new one, and its key is fresh
    intro j k hj hk h1 h2
    have hold : ∀ j, cm.IsUser j → (cm₁.fifoInsert i).own j = cm.own j := by
      intro j hj
      rw [hown, update_of_ne (fun hji : j = i => hfree (hji ▸ hj))]
    have hnew : (cm₁.fifoInsert i).own i = (pid, v, n) := by rw [hown, update_self]
    rcases (huser j).1 hj with hj' | rfl
    · rcases (huser k).1 hk with hk' | rfl
      · rw [hold j hj', hold k hk'] at h1 h2
        exact h.inj j k hj' hk' h1 h2
      · rw [hold j hj', hnew] at h1 h2
        exact absurd ⟨hj', h1, h2⟩ (hfresh j)
    · rcases (huser k).1 hk with hk' | rfl
      · rw [hold k hk', hnew] at h1 h2
        exact absurd ⟨hk', h1.symm, h2.symm⟩ (hfresh k)
      · rfl

/-- Rewriting an entry that is no user entry into another such entry keeps both lists. -/
theorem Rep.setEntry_other {i : Nat} {e : PtPage} (h : Rep cm q) (hfree : ¬ cm.IsUser i)
    (hp : ¬ 0 < e.pid) : Rep (cm.setEntry i e) q := by
  have huser : ∀ j, (cm.setEntry i e).IsUser j ↔ cm.IsUser j := by
    intro j
    rw [isUser_of_own_update (own_setEntry cm i e) rfl]
    constructor
    · rintro (⟨-, hj⟩ | ⟨-, -, hpos⟩)
      · exact hj
      · exact absurd hpos hp
    · exact fun hj => .inl ⟨fun he => hfree (he ▸ hj), hj⟩
  have hold : ∀ j, cm.IsUser j → (cm.setEntry i e).own j = cm.own j := by
    intro j hj
    rw [own_setEntry, update_of_ne (fun hji : j = i => hfree (hji ▸ hj))]
  refine ⟨h.hashed_pos, h.queued.setEntry (fun hm => hfree ((h.mem_queue i).1 hm)), ?_, ?_, ?_⟩
  · exact fun j => (h.mem_queue j).trans (huser j).symm
  · rw [show (cm.setEntry i e).IsUser = cm.IsUser from funext (fun j => propext (huser j))]
    exact h.chained.setEntry hfree
  · intro j k hj hk h1 h2
    have hj' := (huser j).1 hj
    have hk' := (huser k).1 hk
    rw [hold j hj', hold k hk'] at h1 h2
    exact h.inj j k hj' hk' h1 h2

/-- `setptentry` of a kernel or free entry writes that entry and nothing else. -/
theorem Rep.setptentry_other {i n : Nat} (h : Rep cm q) (hi : i < cm.ptsize)
    (hfree : ¬ cm.IsUser i) (hp : ¬ 0 < pid) :
    cm.setptentry i n pid v = .ok (cm.setEntry i ⟨pid, v, n, none, none⟩) ∧
      Rep (cm.setEntry i ⟨pid, v, n, none, none⟩) q := by
  refine ⟨?_, h.setEntry_other hfree hp⟩
  simp only [Coremap.setptentry, if_neg (Nat.not_le.2 hi), if_neg hp]

/-- `freekernel` of an entry that is no user entry. -/
theorem Rep.freekernel_spec {i : Nat} (h : Rep cm q) (hi : i < cm.ptsize)
    (hfree : ¬ cm.IsUser i) :
    ∃ cm', cm.freekernel i = .ok cm' ∧ Rep cm' q ∧
      cm'.own = update cm.own i (-1, (cm.own i).2.1, 0) ∧ SameShape cm cm' := by
  refine ⟨cm.clearEntry i, ?_, h.setEntry_other hfree (by simp), own_setEntry ..,
    setEntry_sameShape ..⟩
  simp only [Coremap.freekernel, if_neg (Nat.not_le.2 hi)]

/-- The lookup of a page that is not resident. -/
theorem Rep.walkFind_absent (h : Rep cm q) (hno : ∀ g, ¬ cm.Maps pid v g) :
    walkFind cm.nextOf (cm.isKey pid v) cm.ptsize (cm.gethashedentry pid v) none = .ok none :=
  walkFind_chain_none h.hashed_pos h.chained (fun _ hi => hi.1)
    (fun i hi => Bool.eq_false_iff.2 (fun hk => hno i ((isKey_iff_maps hi).1 hk)))

/-- The lookup of a resident page, and the chains without it. -/
theorem Rep.walkFind_maps (h : Rep cm q) (hm : cm.Maps pid v f) :
    (∀ i, cm.IsUser i → (cm.isKey pid v i = true ↔ i = f)) ∧
    ∃ prec, walkFind cm.nextOf (cm.isKey pid v) cm.ptsize (cm.gethashedentry pid v) none
        = .ok (some (f, prec)) ∧
      HashFrame cm (cm.hashRemove pid v f prec) ∧
      (cm.hashRemove pid v f prec).Chained (fun i => cm.IsUser i ∧ i ≠ f) := by
  have hkey : ∀ i, cm.IsUser i → (cm.isKey pid v i = true ↔ i = f) := by
    intro i hi
    rw [isKey_iff_maps hi]
    exact ⟨fun hmi => h.maps_unique hmi hm, fun he => he ▸ hm⟩
  exact ⟨hkey, hashRemove_spec h.hashed_pos h.chained (fun _ hi => hi.1) hm.1 hkey
    (bucketOf_of_maps hm)⟩

/-- `freeuser` of a page that is not resident changes nothing. -/
theorem Rep.freeuser_absent (h : Rep cm q) (hno : ∀ g, ¬ cm.Maps pid v g) :
    cm.freeuser pid v = .ok (cm, -1) := by
  simp only [Coremap.freeuser, h.walkFind_absent hno, liftWalk]

/-- `freeuser` of a resident page: its frame becomes free and leaves both lists. -/
theorem Rep.freeuser_maps (h : Rep cm q) (hm : cm.Maps pid v f) :
    ∃ cm', cm.freeuser pid v = .ok (cm', 0) ∧ Rep cm' (q.erase f) ∧
      cm'.own = update cm.own f (-1, v, 0) ∧ SameShape cm cm' := by
  obtain ⟨hkey, prec, hwalk, hfr₁, hch₁⟩ := h.walkFind_maps hm
  set cm₁ := cm.hashRemove pid v f prec with hcm₁
  have hq₁ := hfr₁.queued h.queued
  have hlt : ∀ i ∈ q, i < cm₁.ptsize := by rw [hfr₁.ptsize]; exact h.queue_lt
  have hkey₁ : ∀ i ∈ q, (cm₁.isKey pid v i = true ↔ i = f) := by
    intro i hi
    have hsame : cm₁.isKey pid v i = cm.isKey pid v i := by
      have h1 := congrFun hfr₁.own i
      simp only [Coremap.own, Prod.mk.injEq] at h1
      simp only [Coremap.isKey, h1.1, h1.2.1]
    rw [hsame]
    exact hkey i ((h.mem_queue i).1 hi)
  obtain ⟨cm₂, hun, hfr₂, hl₂, hlast₂⟩ :=
    fifoUnlink_spec hq₁.1 hlt ((h.mem_queue f).2 hm.1) hkey₁
  obtain ⟨cm₃, hfix, hfr₃, hq₃⟩ := fixLast_spec hl₂ (by rw [hfr₂.ptsize]; exact hlt)
    (hlast₂.trans hq₁.2)
  have hfr := hfr₂.trans hfr₃
  have hown₃ : cm₃.own = cm.own := hfr.own.trans hfr₁.own
  have hshape : SameShape cm (cm₃.clearEntry f) :=
    hfr₁.sameShape.trans (hfr.sameShape.trans (setEntry_sameShape ..))
  have hown : (cm₃.clearEntry f).own = update cm.own f (-1, v, 0) := by
    rw [Coremap.clearEntry, own_setEntry, hown₃]
    have hv : (cm₃.pt f).vaddr = v := by
      have := congrFun hown₃ f
      simp only [Coremap.own, Prod.mk.injEq] at this
      exact this.2.1.trans hm.2.2
    simp only [hv]
  have huser : ∀ j, (cm₃.clearEntry f).IsUser j ↔ cm.IsUser j ∧ j ≠ f := by
    intro j
    rw [isUser_of_own_update hown hshape.ptsize]
    simp [and_comm]
  have hfq : f ∉ q.erase f := h.queue_nodup.not_mem_erase
  refine ⟨cm₃.clearEntry f, ?_, ⟨?_, hq₃.setEntry hfq, ?_, ?_, ?_⟩, hown, hshape⟩
  · simp only [Coremap.freeuser, hwalk, liftWalk]
    rw [← hcm₁, hun]
    simp only [hfix]
  · rw [hshape.hashedptsize]; exact h.hashed_pos
  · intro j
    rw [huser j, h.queue_nodup.mem_erase_iff, h.mem_queue j, and_comm]
  · rw [show (cm₃.clearEntry f).IsUser = fun j => cm.IsUser j ∧ j ≠ f from
      funext (fun j => propext (huser j))]
    exact (hfr.chained hch₁).setEntry (fun hc => hc.2 rfl)
  · intro j k hj hk h1 h2
    obtain ⟨hj', hjf⟩ := (huser j).1 hj
    obtain ⟨hk', hkf⟩ := (huser k).1 hk
    rw [hown, update_of_ne hjf, update_of_ne hkf] at h1 h2
    exact h.inj j k hj' hk' h1 h2

/-- `getpageaddr` of a resident page. -/
theorem Rep.getpageaddr_maps (h : Rep cm q) (hm : cm.Maps pid v f) :
    cm.getpageaddr pid v = .ok (f * PAGE_SIZE) := by
  obtain ⟨-, prec, hwalk, -, -⟩ := h.walkFind_maps hm
  simp only [Coremap.getpageaddr, hwalk, liftWalk]

/-- `getpageaddr` of a page that is not resident. -/
theorem Rep.getpageaddr_absent (h : Rep cm q) (hno : ∀ g, ¬ cm.Maps pid v g) :
    cm.getpageaddr pid v = .ok 0 := by
  simp only [Coremap.getpageaddr, h.walkFind_absent hno, liftWalk]

end Operations

end DemandPaging
