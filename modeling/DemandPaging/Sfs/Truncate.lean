import DemandPaging.Sfs.BlockMap

set_option autoImplicit false

/-! # Truncation

What `sfs_itrunc` does when it returns 0. The blocks that it frees are listed, so that both when it
stops with a failed assertion and what it leaves can be read off the list. -/

namespace DemandPaging

open Function Fallible

/-! ## Freeing a list of blocks -/

namespace Volume

variable {vol : Volume} {L : List Nat}

/-- The volume with the marks of a list of blocks taken away. -/
def free (vol : Volume) (L : List Nat) : Volume :=
  { vol with
    sfs_freemap.v := fun b => vol.sfs_freemap.v b && decide (b ∉ L)
    sfs_freemapdirty := vol.sfs_freemapdirty || !L.isEmpty }

/-- The blocks can be freed one after the other. -/
def Freeable (vol : Volume) (L : List Nat) : Prop :=
  L.Nodup ∧ ∀ b ∈ L, b < vol.sfs_freemap.nbits ∧ vol.Marked b

theorem free_nil : vol.free [] = vol := by
  simp [free]

theorem free_free (L L' : List Nat) : (vol.free L).free L' = vol.free (L ++ L') := by
  cases L with
  | nil => rw [free_nil, List.nil_append]
  | cons b L => simp [free, Bool.and_assoc]

theorem setMark_false (b : Nat) : vol.setMark b false = vol.free [b] := by
  have hv : update vol.sfs_freemap.v b false
      = fun c => vol.sfs_freemap.v c && decide (c ∉ [b]) := by
    funext c
    by_cases hc : c = b
    · simp [hc]
    · simp [hc]
  simp [free, setMark, hv]

theorem marked_free {b : Nat} : (vol.free L).Marked b ↔ vol.Marked b ∧ b ∉ L := by
  change (vol.sfs_freemap.v b && decide (b ∉ L)) = true ↔ _
  rw [Bool.and_eq_true, decide_eq_true_iff]
  rfl

theorem marked_setMark_false {b c : Nat} :
    (vol.setMark c false).Marked b ↔ vol.Marked b ∧ b ≠ c := by
  rw [setMark_false, marked_free, List.mem_singleton]

theorem freeable_append {L' : List Nat} (h : vol.Freeable (L ++ L')) :
    vol.Freeable L ∧ (vol.free L).Freeable L' := by
  obtain ⟨hnd, hall⟩ := h
  obtain ⟨hL, hL', hdisj⟩ := List.nodup_append.1 hnd
  refine ⟨⟨hL, fun b hb => hall b (by simp [hb])⟩, hL', fun b hb => ?_⟩
  obtain ⟨hlt, hm⟩ := hall b (by simp [hb])
  exact ⟨hlt, marked_free.2 ⟨hm, fun hbL => hdisj b hbL b hb rfl⟩⟩

/-- `sfs_bfree` of a block, and then the rest of the list. -/
theorem wp_sfsBfree_cons {block : UInt32} {Q : Unit → Volume → Prop} {E : Errno → Volume → Prop}
    (h : Q () (vol.free [block.toNat])) (L : List Nat) :
    (sfsBfree block).Wp Q E (fun _ => ¬ vol.Freeable (block.toNat :: L)) vol := by
  rw [← setMark_false] at h
  refine wp_sfsBfree.2 ⟨fun _ => ⟨fun _ => h, fun hm hf => ?_⟩, fun hlt hf => ?_⟩
  · exact hm (hf.2 _ (by simp)).2
  · exact hlt (hf.2 _ (by simp)).1

end Volume

/-! ## Clearing the entries of an array

Both loops of `sfs_itrunc` go through an array of block numbers. Where an entry is past the limit
and not 0, its block is freed and the entry cleared. -/

section Cut

variable {n : Nat} (past : Fin n → Bool)

/-- The array after a loop over the entries `is`. -/
def cutArray (is : List (Fin n)) (a : Fin n → UInt32) : Fin n → UInt32 := fun i =>
  if i ∈ is ∧ past i = true then 0 else a i

/-- The blocks that the loop frees, in order. -/
def cutBlocks (is : List (Fin n)) (a : Fin n → UInt32) : List Nat :=
  (is.filter fun i => past i && a i != 0).map fun i => (a i).toNat

variable {past} {i : Fin n} {is : List (Fin n)} {a : Fin n → UInt32}

theorem cutArray_nil : cutArray past [] a = a := by
  funext k
  simp [cutArray]

theorem cutArray_cons_of_not (h : ¬ (past i = true ∧ a i ≠ 0)) :
    cutArray past (i :: is) a = cutArray past is a := by
  funext k
  grind [cutArray]

theorem cutArray_cons (h : past i = true) :
    cutArray past (i :: is) a = cutArray past is (update a i 0) := by
  funext k
  grind [cutArray, update_apply]

theorem cutArray_of_notMem (hi : i ∉ is) : cutArray past is a i = a i := if_neg fun e => hi e.1

theorem cutBlocks_cons_of_not (h : ¬ (past i = true ∧ a i ≠ 0)) :
    cutBlocks past (i :: is) a = cutBlocks past is a := by
  rw [cutBlocks, List.filter_cons_of_neg (by simpa using h), cutBlocks]

theorem cutBlocks_cons (h : past i = true ∧ a i ≠ 0) (hi : i ∉ is) :
    cutBlocks past (i :: is) a = (a i).toNat :: cutBlocks past is (update a i 0) := by
  have hrest : cutBlocks past is (update a i 0) = cutBlocks past is a := by
    have hne : ∀ k ∈ is, k ≠ i := fun k hk e => hi (e ▸ hk)
    have hfilter : (is.filter fun k => past k && update a i 0 k != 0)
        = is.filter fun k => past k && a k != 0 :=
      List.filter_congr fun k hk => by rw [update_of_ne (hne k hk)]
    rw [cutBlocks, cutBlocks, hfilter]
    refine List.map_congr_left fun k hk => ?_
    rw [update_of_ne (hne k (List.mem_of_mem_filter hk))]
  rw [hrest, cutBlocks, List.filter_cons_of_pos (by simpa using h), List.map_cons, cutBlocks]

theorem mem_cutBlocks {b : Nat} :
    b ∈ cutBlocks past is a ↔ ∃ i ∈ is, past i = true ∧ a i ≠ 0 ∧ (a i).toNat = b := by
  simp only [cutBlocks, List.mem_map, List.mem_filter, Bool.and_eq_true, bne_iff_ne, ne_eq]
  constructor
  · rintro ⟨i, ⟨hi, hp, hz⟩, rfl⟩
    exact ⟨i, hi, hp, hz, rfl⟩
  · rintro ⟨i, hi, hp, hz, rfl⟩
    exact ⟨i, ⟨hi, hp, hz⟩, rfl⟩

end Cut

namespace Inode

variable {x x' : Inode} {bl : UInt32} {F : Nat → Prop}

/-! ## The two loops -/

/-- The direct blocks past the limit. -/
def pastDirect (bl : UInt32) (i : Fin SFS_NDIRECT) : Bool := bl.toNat ≤ i.val

/-- The entries that the loop over the indirect block takes to be past the limit. -/
def pastEntry (bl : UInt32) (j : Fin SFS_DBPERIDB) : Bool := bl.toNat < SFS_NDIRECT + j.val

/-- The direct blocks that are freed. -/
def doomedDirect (x : Inode) (bl : UInt32) (is : List (Fin SFS_NDIRECT)) : List Nat :=
  cutBlocks (pastDirect bl) is x.sv.sv_i.sfi_direct

/-- The inode after the loop over the direct blocks `is`. -/
def cutDirect (bl : UInt32) (is : List (Fin SFS_NDIRECT)) (x : Inode) : Inode :=
  { vol := x.vol.free (x.doomedDirect bl is)
    sv := { x.sv with
      sv_i.sfi_direct := cutArray (pastDirect bl) is x.sv.sv_i.sfi_direct
      sv_dirty := x.sv.sv_dirty || !(x.doomedDirect bl is).isEmpty } }

/-- The inode after one round that frees a block. -/
def cutOne (i : Fin SFS_NDIRECT) (x : Inode) : Inode :=
  setDirect i 0 { x with vol := x.vol.free [(x.sv.sv_i.sfi_direct i).toNat] }

theorem doomedDirect_cons {i : Fin SFS_NDIRECT} {is : List (Fin SFS_NDIRECT)}
    (h : pastDirect bl i = true ∧ x.sv.sv_i.sfi_direct i ≠ 0) (hi : i ∉ is) :
    x.doomedDirect bl (i :: is)
      = (x.sv.sv_i.sfi_direct i).toNat :: (cutOne i x).doomedDirect bl is :=
  cutBlocks_cons h hi

theorem cutDirect_cutOne {i : Fin SFS_NDIRECT} {is : List (Fin SFS_NDIRECT)}
    (h : pastDirect bl i = true ∧ x.sv.sv_i.sfi_direct i ≠ 0) (hi : i ∉ is) :
    cutDirect bl is (cutOne i x) = cutDirect bl (i :: is) x := by
  have hvol : (cutOne i x).vol.free ((cutOne i x).doomedDirect bl is)
      = x.vol.free (x.doomedDirect bl (i :: is)) := by
    rw [doomedDirect_cons h hi]
    exact Volume.free_free ..
  simp only [cutDirect, hvol, cutArray_cons h.1, doomedDirect_cons h hi]
  simp [cutOne, setDirect]

theorem wp_truncDirect (is : List (Fin SFS_NDIRECT)) (hnd : is.Nodup) :
    (truncDirect bl is).Wp (fun _ x' => x' = cutDirect bl is x) (fun _ _ => False)
      (fun _ => ¬ x.vol.Freeable (x.doomedDirect bl is)) x := by
  induction is generalizing x with
  | nil =>
    refine wp_pure.2 ?_
    simp [cutDirect, doomedDirect, cutBlocks, cutArray_nil, Volume.free_nil]
  | cons i is ih =>
    obtain ⟨hi, hnd⟩ := List.nodup_cons.1 hnd
    simp only [truncDirect, wp_bind, wp_read]
    split
    · next hpast =>
      have hpast : pastDirect bl i = true ∧ x.sv.sv_i.sfi_direct i ≠ 0 := by
        simpa [pastDirect] using hpast
      rw [doomedDirect_cons hpast hi, ← cutDirect_cutOne hpast hi]
      simp only [onVol, wp_bind, wp_zoom, wp_modify]
      refine Volume.wp_sfsBfree_cons ?_ _
      exact (ih hnd).mono (fun _ _ h => h) (fun _ _ h => h)
        fun _ hnot hfree => hnot (Volume.freeable_append (L := [_]) hfree).2
    · next hpast =>
      have hpast : ¬ (pastDirect bl i = true ∧ x.sv.sv_i.sfi_direct i ≠ 0) := by
        simpa [pastDirect] using hpast
      have hL : x.doomedDirect bl (i :: is) = x.doomedDirect bl is :=
        cutBlocks_cons_of_not hpast
      have hcut : cutDirect bl (i :: is) x = cutDirect bl is x := by
        simp only [cutDirect, hL, cutArray_cons_of_not hpast]
      rw [hL, hcut]
      exact ih hnd

/-- What the loop over the entries `js` returns: the entries, whether one of them is left, and
    whether one was cleared. -/
def cutEntries (bl : UInt32) (js : List (Fin SFS_DBPERIDB)) (idbuf : Fin SFS_DBPERIDB → UInt32)
    (hasnonzero iddirty : Bool) : (Fin SFS_DBPERIDB → UInt32) × Bool × Bool :=
  (cutArray (pastEntry bl) js idbuf,
    hasnonzero || js.any fun j => cutArray (pastEntry bl) js idbuf j ≠ 0,
    iddirty || !(cutBlocks (pastEntry bl) js idbuf).isEmpty)

theorem wp_truncEntries {vol : Volume} (js : List (Fin SFS_DBPERIDB)) (hnd : js.Nodup)
    (idbuf : Fin SFS_DBPERIDB → UInt32) (hasnonzero iddirty : Bool) :
    (truncEntries bl js idbuf hasnonzero iddirty).Wp
      (fun r vol' => vol' = vol.free (cutBlocks (pastEntry bl) js idbuf) ∧
        r = cutEntries bl js idbuf hasnonzero iddirty)
      (fun _ _ => False) (fun _ => ¬ vol.Freeable (cutBlocks (pastEntry bl) js idbuf)) vol := by
  induction js generalizing vol idbuf hasnonzero iddirty with
  | nil =>
    refine wp_pure.2 ⟨?_, ?_⟩
    · simp [cutBlocks, Volume.free_nil]
    · simp [cutEntries, cutBlocks, cutArray_nil]
  | cons j js ih =>
    obtain ⟨hj, hnd⟩ := List.nodup_cons.1 hnd
    rw [truncEntries]
    split
    · next hpast =>
      have hpast : pastEntry bl j = true ∧ idbuf j ≠ 0 := by simpa [pastEntry] using hpast
      have hres : cutEntries bl (j :: js) idbuf hasnonzero iddirty
          = cutEntries bl js (update idbuf j 0) hasnonzero true := by
        simp [cutEntries, cutArray_cons hpast.1, cutBlocks_cons hpast hj, cutArray_of_notMem hj]
      rw [hres, cutBlocks_cons hpast hj, wp_bind]
      refine Volume.wp_sfsBfree_cons ?_ _
      rw [← List.singleton_append, ← Volume.free_free]
      exact (ih hnd _ _ _).mono (fun _ _ h => h) (fun _ _ h => h)
        fun _ hnot hfree => hnot (Volume.freeable_append (L := [_]) hfree).2
    · next hpast =>
      have hpast : ¬ (pastEntry bl j = true ∧ idbuf j ≠ 0) := by simpa [pastEntry] using hpast
      have hres : cutEntries bl (j :: js) idbuf hasnonzero iddirty
          = cutEntries bl js idbuf (hasnonzero || idbuf j ≠ 0) iddirty := by
        simp [cutEntries, cutArray_cons_of_not hpast, cutBlocks_cons_of_not hpast,
          cutArray_of_notMem hj, Bool.or_assoc]
      rw [hres, cutBlocks_cons_of_not hpast]
      exact ih hnd _ _ _

/-! ## The indirect block -/

/-- The entries of the indirect block, after the loop. -/
def entriesLeft (x : Inode) (bl : UInt32) : Fin SFS_DBPERIDB → UInt32 :=
  cutArray (pastEntry bl) (List.finRange SFS_DBPERIDB)
    (x.vol.sectors x.sv.sv_i.sfi_indirect.toNat).words

/-- The blocks that the loop over the entries frees. -/
def doomedEntries (x : Inode) (bl : UInt32) : List Nat :=
  cutBlocks (pastEntry bl) (List.finRange SFS_DBPERIDB)
    (x.vol.sectors x.sv.sv_i.sfi_indirect.toNat).words

/-- Whether the indirect block is looked at. -/
def LooksAtIndirect (x : Inode) (bl : UInt32) : Prop :=
  bl.toNat < SFS_NDIRECT + SFS_DBPERIDB - 1 ∧ x.sv.sv_i.sfi_indirect ≠ 0

instance (x : Inode) (bl : UInt32) : Decidable (x.LooksAtIndirect bl) :=
  inferInstanceAs (Decidable (_ ∧ _))

/-- Whether an entry is left. -/
def hasEntry (x : Inode) (bl : UInt32) : Bool :=
  (List.finRange SFS_DBPERIDB).any fun j => x.entriesLeft bl j ≠ 0

theorem hasEntry_eq_true : x.hasEntry bl = true ↔ ∃ j, x.entriesLeft bl j ≠ 0 := by
  simp only [hasEntry, List.any_eq_true, List.mem_finRange, true_and, decide_eq_true_eq]

/-- What is freed together with the indirect block. -/
def doomedIndirect (x : Inode) (bl : UInt32) : List Nat :=
  if x.LooksAtIndirect bl then
    if x.hasEntry bl then x.doomedEntries bl
    else x.doomedEntries bl ++ [x.sv.sv_i.sfi_indirect.toNat]
  else []

/-- The inode after the indirect block was treated. -/
def cutIndirect (bl : UInt32) (x : Inode) : Inode :=
  if x.LooksAtIndirect bl then
    if x.hasEntry bl then
      if x.doomedEntries bl = [] then x
      else
        { x with
          vol := (x.vol.free (x.doomedEntries bl)).write x.sv.sv_i.sfi_indirect.toNat
            (Block.ofWords (x.entriesLeft bl)) }
    else setIndirect 0 { x with vol := x.vol.free (x.doomedIndirect bl) }
  else x

/-- The loop over all entries, as it is called. -/
theorem cutEntries_all :
    cutEntries bl (List.finRange SFS_DBPERIDB) (x.vol.sectors x.sv.sv_i.sfi_indirect.toNat).words
      false false = (x.entriesLeft bl, x.hasEntry bl, !(x.doomedEntries bl).isEmpty) := by
  rw [cutEntries, hasEntry, Bool.false_or, Bool.false_or]
  rfl

theorem wp_truncIndirect (hq : x.vol.faults = []) :
    (truncIndirect bl).Wp (fun _ x' => x' = cutIndirect bl x) (fun _ _ => False)
      (fun _ => x.vol.d_blocks ≤ x.sv.sv_i.sfi_indirect.toNat ∨
        ¬ x.vol.Freeable (x.doomedIndirect bl)) x := by
  simp only [truncIndirect, wp_bind, wp_read]
  split
  · next hlook =>
    have hlook : x.LooksAtIndirect bl := hlook
    have hfree : x.vol.Freeable (x.doomedIndirect bl) → x.vol.Freeable (x.doomedEntries bl) := by
      rw [doomedIndirect, if_pos hlook]
      split
      · exact id
      · exact fun h => (Volume.freeable_append h).1
    simp only [onVol, wp_bind, wp_zoom]
    refine (Volume.wp_sfsReadblock hq).mono (fun b vol₁ h => ?_) (fun _ _ h => h)
      fun _ h => .inl h
    obtain ⟨rfl, rfl⟩ := h
    refine (wp_truncEntries _ (List.nodup_finRange _) _ _ _).mono (fun r vol₂ h => ?_)
      (fun _ _ h => h.elim) fun _ h => .inr fun hF => h (hfree hF)
    obtain ⟨rfl, rfl⟩ := h
    rw [cutEntries_all, cutIndirect, if_pos hlook]
    cases hent : x.hasEntry bl with
    | false =>
      have hL : x.doomedIndirect bl
          = x.doomedEntries bl ++ [x.sv.sv_i.sfi_indirect.toNat] := by
        rw [doomedIndirect, if_pos hlook, hent, if_neg Bool.false_ne_true]
      simp only [if_true, if_neg Bool.false_ne_true, wp_bind, wp_zoom, wp_modify, hL]
      refine (Volume.wp_sfsBfree_cons ?_ []).mono (fun _ _ h => h) (fun _ _ h => h)
        fun _ h => .inr fun hF => h (Volume.freeable_append hF).2
      rw [Volume.free_free]
      rfl
    | true =>
      simp only [Bool.true_eq_false, if_false, if_true]
      by_cases hnil : x.doomedEntries bl = []
      · rw [if_pos hnil, hnil, if_neg (by simp)]
        refine wp_pure.2 ?_
        change ({ x with vol := Volume.free _ (x.doomedEntries bl) } : Inode) = x
        rw [hnil, Volume.free_nil]
      · rw [if_neg hnil, if_pos (by simpa using hnil), wp_zoom]
        have hq' : (x.vol.free (x.doomedEntries bl)).faults = [] := hq
        refine (Volume.wp_sfsWriteblock hq').mono (fun _ vol₃ h => ?_) (fun _ _ h => h)
          fun _ h => .inl h
        rw [h]
  · next hlook =>
    have hlook : ¬ x.LooksAtIndirect bl := hlook
    rw [cutIndirect, if_neg hlook]
    exact wp_pure.2 rfl

/-! ## The whole of it -/

/-- Every block that is freed, in order. -/
def doomed (x : Inode) (bl : UInt32) : List Nat :=
  x.doomedDirect bl (List.finRange SFS_NDIRECT) ++ x.doomedIndirect bl

/-- The inode after the blocks were freed. -/
def cut (bl : UInt32) (x : Inode) : Inode :=
  cutIndirect bl (cutDirect bl (List.finRange SFS_NDIRECT) x)

/-- The loop over the direct blocks does not touch the indirect one. -/
theorem doomedIndirect_cutDirect (is : List (Fin SFS_NDIRECT)) :
    (cutDirect bl is x).doomedIndirect bl = x.doomedIndirect bl :=
  rfl

/-- The inode with its new size. -/
def resize (len : Int) (x : Inode) : Inode :=
  { x with sv.sv_i.sfi_size := UInt32.ofInt len, sv.sv_dirty := true }

/-- The number of blocks that `sfs_itrunc` computes. -/
def blocklen (len : Int) : UInt32 := UInt32.ofInt ((len + SFS_BLOCKSIZE - 1).tdiv SFS_BLOCKSIZE)

theorem wp_sfsItrunc (hq : x.vol.faults = []) (len : Int) :
    (sfsItrunc len).Wp (fun _ x' => x' = resize len (cut (blocklen len) x)) (fun _ _ => False)
      (fun _ => x.vol.d_blocks ≤ x.sv.sv_i.sfi_indirect.toNat ∨
        ¬ x.vol.Freeable (x.doomed (blocklen len))) x := by
  simp only [sfsItrunc, wp_bind, wp_modify]
  refine (wp_truncDirect _ (List.nodup_finRange _)).mono (fun _ y hy => ?_) (fun _ _ h => h.elim)
    fun _ h => .inr fun hF => h (Volume.freeable_append hF).1
  subst hy
  have hq' : (cutDirect (blocklen len) (List.finRange SFS_NDIRECT) x).vol.faults = [] := hq
  refine (wp_truncIndirect hq').mono (fun _ z hz => ?_) (fun _ _ h => h) fun _ h => ?_
  · rw [hz]
    rfl
  · exact h.imp_right fun hnot hF => hnot (Volume.freeable_append hF).2

/-! ## The slots -/

/-- `sfs_itrunc` keeps a direct block or unmaps it. -/
theorem mapped_cut_direct (i : Fin SFS_NDIRECT) :
    (cut bl x).mapped i = if bl.toNat ≤ i then 0 else x.mapped i := by
  have hsv : ∀ y : Inode, (cutIndirect bl y).sv.sv_i.sfi_direct = y.sv.sv_i.sfi_direct := by
    intro y
    rw [cutIndirect]
    split_ifs <;> rfl
  rw [mapped_direct, mapped_direct, cut, hsv]
  change cutArray (pastDirect bl) _ _ i = _
  simp only [cutArray, List.mem_finRange, true_and, pastDirect, decide_eq_true_eq]

theorem entriesLeft_apply (j : Fin SFS_DBPERIDB) : x.entriesLeft bl j =
    if bl.toNat < SFS_NDIRECT + j then 0
    else (x.vol.sectors x.sv.sv_i.sfi_indirect.toNat).words j := by
  simp only [entriesLeft, cutArray, List.mem_finRange, true_and, pastEntry, decide_eq_true_eq]

/-- Where no block is freed, the entries are as they were. -/
theorem entriesLeft_of_nil (h : x.doomedEntries bl = []) :
    x.entriesLeft bl = (x.vol.sectors x.sv.sv_i.sfi_indirect.toNat).words := by
  funext j
  rw [entriesLeft_apply]
  split
  · next hpast =>
    by_contra hne
    have hmem :
        ((x.vol.sectors x.sv.sv_i.sfi_indirect.toNat).words j).toNat ∈ x.doomedEntries bl :=
      mem_cutBlocks.2 ⟨j, List.mem_finRange j, by simpa [pastEntry] using hpast, Ne.symm hne, rfl⟩
    rw [h] at hmem
    cases hmem
  · rfl

/-- Where the indirect block is looked at, its entries are cut. -/
theorem mapped_cutIndirect (h : x.LooksAtIndirect bl) (j : Fin SFS_DBPERIDB) :
    (cutIndirect bl x).mapped (SFS_NDIRECT + j) = x.entriesLeft bl j := by
  rw [cutIndirect, if_pos h]
  split
  · split
    · next hnil =>
      rw [mapped, Dinode.fileBlock_indirect h.2, entriesLeft_of_nil hnil]
    · rw [mapped, Dinode.fileBlock_indirect h.2]
      rw [Volume.sectors_write_self, Block.words_ofWords]
  · next hent =>
    rw [mapped, Dinode.fileBlock_none rfl (Nat.le_add_right ..)]
    by_contra hne
    exact hent (hasEntry_eq_true.2 ⟨j, Ne.symm hne⟩)

theorem mapped_cut_indirect (h : x.LooksAtIndirect bl) (j : Fin SFS_DBPERIDB) :
    (cut bl x).mapped (SFS_NDIRECT + j)
      = if bl.toNat < SFS_NDIRECT + j then 0 else x.mapped (SFS_NDIRECT + j) := by
  have hlook : (cutDirect bl (List.finRange SFS_NDIRECT) x).LooksAtIndirect bl := h
  rw [cut, mapped_cutIndirect hlook, entriesLeft_apply, mapped, Dinode.fileBlock_indirect h.2]
  rfl

/-- Where it is not looked at, they stay. -/
theorem mapped_cut_of_not (h : ¬ x.LooksAtIndirect bl) (j : Fin SFS_DBPERIDB) :
    (cut bl x).mapped (SFS_NDIRECT + j) = x.mapped (SFS_NDIRECT + j) := by
  have hlook : ¬ (cutDirect bl (List.finRange SFS_NDIRECT) x).LooksAtIndirect bl := h
  rw [cut, cutIndirect, if_neg hlook]
  exact Dinode.fileBlock_congr rfl (Nat.le_add_right ..)

theorem mem_doomedDirect {b : Nat} :
    b ∈ x.doomedDirect bl (List.finRange SFS_NDIRECT) ↔
      ∃ k < SFS_NDIRECT, bl.toNat ≤ k ∧ x.mapped k ≠ 0 ∧ (x.mapped k).toNat = b := by
  simp only [doomedDirect, mem_cutBlocks, List.mem_finRange, true_and, pastDirect,
    decide_eq_true_eq]
  constructor
  · rintro ⟨i, hle, hne, rfl⟩
    exact ⟨i, i.2, hle, by rwa [mapped_direct], by rw [mapped_direct]⟩
  · rintro ⟨k, hk, hle, hne, rfl⟩
    exact ⟨⟨k, hk⟩, hle, by rwa [← mapped_direct], by rw [← mapped_direct]⟩

/-- The marks that are left. -/
theorem marked_cut {b : Nat} : (cut bl x).vol.Marked b ↔ x.vol.Marked b ∧ b ∉ x.doomed bl := by
  have hind : ∀ y : Inode, (cutIndirect bl y).vol.Marked b ↔
      y.vol.Marked b ∧ b ∉ y.doomedIndirect bl := by
    intro y
    rw [cutIndirect, doomedIndirect]
    split
    · split
      · split
        · next hnil => simp [hnil]
        · exact Volume.marked_free
      · exact Volume.marked_free
    · simp
  rw [cut, hind, doomedIndirect_cutDirect, doomed, List.mem_append, not_or, ← and_assoc]
  exact and_congr_left fun _ => Volume.marked_free

theorem mem_doomedEntries (h : x.sv.sv_i.sfi_indirect ≠ 0) {b : Nat} :
    b ∈ x.doomedEntries bl ↔
      ∃ k, SFS_NDIRECT ≤ k ∧ bl.toNat < k ∧ x.mapped k ≠ 0 ∧ (x.mapped k).toNat = b := by
  simp only [doomedEntries, mem_cutBlocks, List.mem_finRange, true_and, pastEntry,
    decide_eq_true_eq, words_eq_mapped h]
  constructor
  · rintro ⟨j, hlt, hne, rfl⟩
    exact ⟨SFS_NDIRECT + j, Nat.le_add_right .., hlt, hne, rfl⟩
  · rintro ⟨k, hk, hlt, hne, rfl⟩
    rcases Dinode.fileBlock_cases k with ⟨i, rfl⟩ | ⟨j, rfl⟩ | hbehind
    · exact absurd i.2 (Nat.not_lt.2 hk)
    · exact ⟨j, hlt, hne, rfl⟩
    · exact absurd (mapped_behind hbehind) hne

/-- The slots that are cleared. -/
def IsCut (x : Inode) (bl : UInt32) : Slot → Prop
  | .data k =>
    if k.val < SFS_NDIRECT then bl.toNat ≤ k else x.LooksAtIndirect bl ∧ bl.toNat < k
  | .indirect => x.LooksAtIndirect bl ∧ x.hasEntry bl = false

theorem indirect_cut : (cut bl x).sv.sv_i.sfi_indirect =
    if x.LooksAtIndirect bl ∧ x.hasEntry bl = false then 0 else x.sv.sv_i.sfi_indirect := by
  have hlook : (cutDirect bl (List.finRange SFS_NDIRECT) x).LooksAtIndirect bl ↔
      x.LooksAtIndirect bl := Iff.rfl
  have hent : (cutDirect bl (List.finRange SFS_NDIRECT) x).hasEntry bl = x.hasEntry bl := rfl
  rw [cut, cutIndirect]
  simp only [hlook, hent]
  by_cases hl : x.LooksAtIndirect bl
  · cases x.hasEntry bl with
    | false => simp only [hl, and_self, if_true, if_false, Bool.false_eq_true, setIndirect]
    | true =>
      simp only [hl, if_true, Bool.true_eq_false, and_false, if_false]
      split <;> rfl
  · simp only [hl, false_and, if_false]
    rfl

/-- A slot is cleared or kept. -/
theorem slot_cut (s : Slot) : (x.IsCut bl s → (cut bl x).slot s = 0) ∧
    (¬ x.IsCut bl s → (cut bl x).slot s = x.slot s) := by
  cases s with
  | indirect =>
    exact ⟨fun h => indirect_cut.trans (if_pos h), fun h => indirect_cut.trans (if_neg h)⟩
  | data k =>
    obtain ⟨k, hk⟩ := k
    rw [slot, slot, IsCut]
    rcases Dinode.fileBlock_cases k with ⟨i, rfl⟩ | ⟨j, rfl⟩ | hbehind
    · rw [mapped_cut_direct, if_pos i.2]
      exact ⟨fun h => if_pos h, fun h => if_neg h⟩
    · rw [if_neg (Nat.not_lt.2 (Nat.le_add_right ..))]
      by_cases hlook : x.LooksAtIndirect bl
      · rw [mapped_cut_indirect hlook]
        exact ⟨fun h => if_pos h.2, fun h => if_neg fun hlt => h ⟨hlook, hlt⟩⟩
      · exact ⟨fun h => absurd h.1 hlook, fun _ => mapped_cut_of_not hlook j⟩
    · rw [mapped_behind hbehind, mapped_behind hbehind]
      exact ⟨fun _ => rfl, fun _ => rfl⟩

theorem isCut_direct {k : Nat} (hk : k < SFS_NDIRECT + SFS_DBPERIDB) (hlt : k < SFS_NDIRECT) :
    x.IsCut bl (.data ⟨k, hk⟩) ↔ bl.toNat ≤ k := by
  rw [IsCut, if_pos hlt]

theorem isCut_entry {k : Nat} (hk : k < SFS_NDIRECT + SFS_DBPERIDB) (hge : SFS_NDIRECT ≤ k) :
    x.IsCut bl (.data ⟨k, hk⟩) ↔ x.LooksAtIndirect bl ∧ bl.toNat < k := by
  rw [IsCut, if_neg (Nat.not_lt.2 hge)]

/-- The slots behind the direct ones. -/
def Behind : Slot → Prop
  | .data k => SFS_NDIRECT ≤ k.val
  | .indirect => True

theorem slot_of_mem_doomedIndirect {b : Nat} (h : b ∈ x.doomedIndirect bl) :
    ∃ s, Behind s ∧ x.IsCut bl s ∧ x.slot s ≠ 0 ∧ (x.slot s).toNat = b := by
  rw [doomedIndirect] at h
  split at h
  · next hlook =>
    have hentries : b ∈ x.doomedEntries bl →
        ∃ s, Behind s ∧ x.IsCut bl s ∧ x.slot s ≠ 0 ∧ (x.slot s).toNat = b := by
      rw [mem_doomedEntries hlook.2]
      rintro ⟨k, hk, hlt, hne, rfl⟩
      exact ⟨.data ⟨k, lt_of_mapped hne⟩, hk, (isCut_entry _ hk).2 ⟨hlook, hlt⟩, hne, rfl⟩
    split at h
    · exact hentries h
    · next hent =>
      rcases List.mem_append.1 h with hmem | hmem
      · exact hentries hmem
      · refine ⟨.indirect, trivial, ⟨hlook, ?_⟩, hlook.2, (List.mem_singleton.1 hmem).symm⟩
        exact Bool.not_eq_true _ ▸ hent
  · cases h

/-- The blocks that are freed are those of the slots that are cleared. -/
theorem mem_doomed {b : Nat} :
    b ∈ x.doomed bl ↔ ∃ s, x.IsCut bl s ∧ x.slot s ≠ 0 ∧ (x.slot s).toNat = b := by
  rw [doomed, List.mem_append, mem_doomedDirect]
  constructor
  · rintro (⟨k, hk, hle, hne, rfl⟩ | hmem)
    · have hlt : k < SFS_NDIRECT + SFS_DBPERIDB := Nat.lt_add_right _ hk
      exact ⟨.data ⟨k, hlt⟩, (isCut_direct hlt hk).2 hle, hne, rfl⟩
    · obtain ⟨s, -, hs⟩ := slot_of_mem_doomedIndirect hmem
      exact ⟨s, hs⟩
  · rintro ⟨s, hs, hne, rfl⟩
    cases s with
    | indirect =>
      obtain ⟨hlook, hent⟩ := hs
      refine .inr ?_
      rw [doomedIndirect, if_pos hlook, hent, if_neg Bool.false_ne_true]
      exact List.mem_append.2 (.inr (List.mem_singleton.2 rfl))
    | data k =>
      obtain ⟨k, hk⟩ := k
      rcases Nat.lt_or_ge k SFS_NDIRECT with hlt | hge
      · exact .inl ⟨k, hlt, (isCut_direct hk hlt).1 hs, hne, rfl⟩
      · obtain ⟨hlook, hlt⟩ := (isCut_entry hk hge).1 hs
        have hmem : (x.slot (.data ⟨k, hk⟩)).toNat ∈ x.doomedEntries bl :=
          (mem_doomedEntries hlook.2).2 ⟨k, hge, hlt, hne, rfl⟩
        refine .inr ?_
        rw [doomedIndirect, if_pos hlook]
        split
        · exact hmem
        · exact List.mem_append.2 (.inl hmem)

/-! ## The inode keeps its books -/

/-- On a volume whose device does not refuse, where the blocks to be freed are marked. -/
theorem sfsItrunc_eq {len : Int} (hq : x.vol.faults = [])
    (hid : x.sv.sv_i.sfi_indirect.toNat < x.vol.d_blocks)
    (hfree : x.vol.Freeable (x.doomed (blocklen len))) :
    sfsItrunc len x = .ok (.ok (), resize len (cut (blocklen len) x)) := by
  refine Wp.eq_ok ((wp_sfsItrunc hq len).mono (fun _ x' h => ⟨rfl, h⟩) (fun _ _ h => h)
    fun _ h => ?_)
  rcases h with hr | hnot
  · omega
  · exact hnot hfree

/-- A loop frees a block only once, where the entries are different blocks. -/
theorem nodup_cutBlocks {n : Nat} {past : Fin n → Bool} {a : Fin n → UInt32}
    (h : ∀ i i', a i ≠ 0 → a i' ≠ 0 → (a i).toNat = (a i').toNat → i = i') :
    (cutBlocks past (List.finRange n) a).Nodup := by
  refine List.Nodup.map_on (fun i hi i' hi' heq => ?_) ((List.nodup_finRange n).filter _)
  have hne := (List.mem_filter.1 hi).2
  have hne' := (List.mem_filter.1 hi').2
  simp only [Bool.and_eq_true, bne_iff_ne] at hne hne'
  exact h i i' hne.2 hne'.2 heq

theorem Own.nodup_doomedIndirect (h : x.Own F) (bl : UInt32) : (x.doomedIndirect bl).Nodup := by
  rw [doomedIndirect]
  split
  · next hlook =>
    have hentries : (x.doomedEntries bl).Nodup := nodup_cutBlocks fun j j' hj hj' heq => by
      rw [words_eq_mapped hlook.2] at hj hj' heq
      rw [words_eq_mapped hlook.2] at heq
      exact Fin.ext (Nat.add_left_cancel (h.mapped_inj hj' hj heq))
    split
    · exact hentries
    · refine List.nodup_append.2 ⟨hentries, List.nodup_singleton _, fun b hb c hc => ?_⟩
      obtain ⟨k, -, -, hne, rfl⟩ := (mem_doomedEntries hlook.2).1 hb
      rw [List.mem_singleton.1 hc]
      intro heq
      cases h.inj (s := .data ⟨k, lt_of_mapped hne⟩) (t := .indirect) hne hlook.2 heq
  · exact List.nodup_nil

/-- What is to be freed can be freed. -/
theorem Own.freeable_doomed (h : x.Own F) (bl : UInt32) : x.vol.Freeable (x.doomed bl) := by
  refine ⟨?_, fun b hb => ?_⟩
  · refine List.nodup_append.2 ⟨?_, h.nodup_doomedIndirect bl, fun b hb c hc => ?_⟩
    · refine nodup_cutBlocks fun i i' hi hi' heq => ?_
      rw [← mapped_direct] at hi hi' heq
      rw [← mapped_direct] at heq
      exact Fin.ext (h.mapped_inj hi' hi heq)
    · obtain ⟨k, hk, -, hne, rfl⟩ := mem_doomedDirect.1 hb
      obtain ⟨s, hbehind, -, hne', rfl⟩ := slot_of_mem_doomedIndirect hc
      intro heq
      have hslot := h.inj (s := .data ⟨k, lt_of_mapped hne⟩) hne hne' heq
      rw [← hslot] at hbehind
      exact absurd hk (Nat.not_lt.2 hbehind)
  · obtain ⟨s, -, hne, rfl⟩ := mem_doomed.1 hb
    have htaken := h.taken hne
    exact ⟨htaken.1.trans_le h.sound.nbits.1, htaken.2⟩

/-- Only the indirect block is written. -/
theorem sectors_cut {c : Nat}
    (hc : x.sv.sv_i.sfi_indirect ≠ 0 → c ≠ x.sv.sv_i.sfi_indirect.toNat) :
    (cut bl x).vol.sectors c = x.vol.sectors c := by
  rw [cut, cutIndirect]
  split
  · next hlook =>
    split
    · split
      · rfl
      · exact Volume.sectors_write_of_ne (hc hlook.2) ..
    · rfl
  · rfl

/-- The vnode keeps what is not part of its map. -/
theorem sv_cut (bl : UInt32) (x : Inode) : (cut bl x).sv.sv_ino = x.sv.sv_ino ∧
    (cut bl x).sv.vn_refcount = x.sv.vn_refcount ∧
    (cut bl x).sv.sv_i.sfi_type = x.sv.sv_i.sfi_type ∧
    (cut bl x).sv.sv_i.sfi_linkcount = x.sv.sv_i.sfi_linkcount := by
  rw [cut, cutIndirect]
  split_ifs <;> exact ⟨rfl, rfl, rfl, rfl⟩

theorem sameDisk_cut : x.vol.SameDisk (cut bl x).vol := by
  rw [cut, cutIndirect]
  split_ifs <;> exact ⟨rfl, rfl, rfl, rfl, rfl⟩

theorem Own.cut (h : x.Own F) (bl : UInt32) : (cut bl x).Own F := by
  have hdisk : x.vol.SameDisk (Inode.cut bl x).vol := sameDisk_cut
  refine ⟨h.sound.of_sameDisk hdisk fun b hge hm => ?_, h.zero, ?_⟩
  · refine marked_cut.2 ⟨hm, fun hb => ?_⟩
    obtain ⟨s, -, hne, rfl⟩ := mem_doomed.1 hb
    have := (h.taken hne).1
    omega
  · refine h.exact.drop (· ∈ x.doomed bl) (fun r c => ?_) fun c => ?_
    · cases r with
      | none =>
        refine ⟨fun hF => ⟨hF, fun hb => ?_⟩, And.left⟩
        obtain ⟨s, -, hne, rfl⟩ := mem_doomed.1 hb
        exact h.notForeign hne hF
      | some s =>
        simp only [refs]
        by_cases hs : x.IsCut bl s
        · rw [(slot_cut s).1 hs]
          refine ⟨fun hz => absurd rfl hz.1, fun hz => absurd ?_ hz.2⟩
          exact mem_doomed.2 ⟨s, hs, hz.1⟩
        · rw [(slot_cut s).2 hs]
          refine ⟨fun hz => ⟨hz, fun hb => hs ?_⟩, And.left⟩
          obtain ⟨t, ht, hne, heq⟩ := mem_doomed.1 hb
          rwa [h.inj hz.1 hne (hz.2.trans heq.symm)]
    · rw [Volume.Taken, Volume.Taken, hdisk.nblocks, marked_cut, and_assoc]

/-- `sfs_itrunc` returns 0, and leaves an inode that owns its blocks. -/
theorem Own.sfsItrunc (h : x.Own F) (len : Int) :
    sfsItrunc len x = .ok (.ok (), resize len (Inode.cut (blocklen len) x)) ∧
      Local F x (resize len (Inode.cut (blocklen len) x)) := by
  have hquiet := h.sound.quiet
  have hid : x.sv.sv_i.sfi_indirect.toNat < x.vol.d_blocks := by
    refine Nat.lt_of_lt_of_le ?_ hquiet.blocks
    by_cases hz : x.sv.sv_i.sfi_indirect = 0
    · rw [hz]
      exact (h.exact.marked none 0 h.zero).1
    · exact (h.taken (s := .indirect) hz).1
  obtain ⟨hino, hrefs, htype, hlinks⟩ := sv_cut (blocklen len) x
  refine ⟨sfsItrunc_eq hquiet.faults hid (h.freeable_doomed _), ?_⟩
  refine ⟨((h.cut _).setSize _).own, fun c hc => sectors_cut fun hne heq => ?_, sameDisk_cut, hino,
    hrefs, htype, hlinks, fun hclean => by cases hclean⟩
  exact h.notForeign (s := .indirect) hne (heq ▸ hc)

/-- Cut down to nothing, a file has no blocks. -/
theorem slot_cut_zero (s : Slot) : (Inode.cut 0 x).slot s = 0 := by
  have hlook : x.sv.sv_i.sfi_indirect ≠ 0 → x.LooksAtIndirect 0 := fun hne => ⟨by decide, hne⟩
  by_cases hs : x.IsCut 0 s
  · exact (slot_cut s).1 hs
  · rw [(slot_cut s).2 hs]
    by_contra hne
    refine hs ?_
    cases s with
    | data k =>
      obtain ⟨k, hk⟩ := k
      rcases Nat.lt_or_ge k SFS_NDIRECT with hlt | hge
      · exact (isCut_direct hk hlt).2 (Nat.zero_le _)
      · refine (isCut_entry hk hge).2 ⟨hlook (indirect_of_mapped hge hne), ?_⟩
        exact Nat.lt_of_lt_of_le (by decide) hge
    | indirect =>
      refine ⟨hlook hne, Bool.eq_false_iff.2 fun hent => ?_⟩
      obtain ⟨j, hj⟩ := hasEntry_eq_true.1 hent
      rw [entriesLeft_apply, if_pos (Nat.lt_of_lt_of_le (by decide) (Nat.le_add_right ..))] at hj
      exact hj rfl

end Inode

end DemandPaging
