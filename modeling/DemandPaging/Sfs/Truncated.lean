import DemandPaging.Sfs.Truncate

set_option autoImplicit false

/-! # What truncation leaves behind

Truncation is to free exactly the blocks past the new end, and the indirect block with its last
entry. `sfs_itrunc` does so, but for two comparisons that are one too far: the entries of the
indirect block are compared with `blocklen < baseblock + j`, and the indirect block as a whole with
`blocklen < highblock`. So the first block behind the end stays where it is one of the indirect
block, and at the last entry an indirect block without entries stays. -/

namespace DemandPaging

open Fallible

namespace Inode

variable {x x' : Inode} {bl : UInt32}

/-- A block of the file behind the direct ones and before the limit. -/
def EntryBelow (x : Inode) (B : Nat) : Prop :=
  ∃ k, SFS_NDIRECT ≤ k ∧ k < B ∧ x.mapped k ≠ 0

/-- An entry is left if there is one up to the limit. -/
theorem hasEntry_iff (h : x.sv.sv_i.sfi_indirect ≠ 0) :
    x.hasEntry bl = true ↔ x.EntryBelow (bl.toNat + 1) := by
  simp only [hasEntry_eq_true, entriesLeft_apply, words_eq_mapped h]
  constructor
  · rintro ⟨j, hne⟩
    split at hne
    · exact absurd rfl hne
    · exact ⟨SFS_NDIRECT + j, Nat.le_add_right .., by omega, hne⟩
  · rintro ⟨k, hk, hlt, hne⟩
    rcases Dinode.fileBlock_cases k with ⟨i, rfl⟩ | ⟨j, rfl⟩ | hbehind
    · exact absurd i.2 (Nat.not_lt.2 hk)
    · exact ⟨j, by rwa [if_neg (by omega)]⟩
    · exact absurd (mapped_behind hbehind) hne

/-- Something past the end would stay: the first block behind the end is one of the indirect block,
    or the end is so far behind that the indirect block is not looked at, and it is empty. -/
def LeavesBehind (x : Inode) (B : Nat) : Prop :=
  (SFS_NDIRECT ≤ B ∧ x.mapped B ≠ 0) ∨
    (SFS_NDIRECT + SFS_DBPERIDB - 1 ≤ B ∧ x.sv.sv_i.sfi_indirect ≠ 0 ∧ ¬ x.EntryBelow B)

/-- The indirect block goes with its last entry. -/
def DropsIndirect (x : Inode) (B : Nat) : Prop :=
  x.sv.sv_i.sfi_indirect ≠ 0 ∧ ¬ x.EntryBelow B

/-- The block is one of the file, past the limit. -/
def PastEnd (x : Inode) (B b : Nat) : Prop :=
  ∃ k, B ≤ k ∧ x.mapped k ≠ 0 ∧ (x.mapped k).toNat = b

/-- The number of blocks of a file of this length. -/
def blocksOf (len : Nat) : Nat := (len + (SFS_BLOCKSIZE - 1)) / SFS_BLOCKSIZE

/-- What truncation is for: exactly what is past the end of the file is freed. -/
structure Truncated (x : Inode) (len : Nat) (x' : Inode) : Prop where
  kept : ∀ k < blocksOf len, x'.mapped k = x.mapped k
  unmapped : ∀ k, blocksOf len ≤ k → x'.mapped k = 0
  freed : ∀ b, x.PastEnd (blocksOf len) b → ¬ x'.vol.Marked b
  indirect : x.sv.sv_i.sfi_indirect ≠ 0 →
    ((x'.sv.sv_i.sfi_indirect = 0 ∧ ¬ x'.vol.Marked x.sv.sv_i.sfi_indirect.toNat) ↔
      ¬ x.EntryBelow (blocksOf len))
  others : ∀ b, ¬ x.PastEnd (blocksOf len) b →
    ¬ (x.DropsIndirect (blocksOf len) ∧ b = x.sv.sv_i.sfi_indirect.toNat) →
      (x'.vol.Marked b ↔ x.vol.Marked b)
  size : x'.sv.sv_i.sfi_size.toNat = len

section Right

variable (hleft : ¬ x.LeavesBehind bl.toNat)
include hleft

theorem mapped_limit (h : SFS_NDIRECT ≤ bl.toNat) : x.mapped bl.toNat = 0 := by
  by_contra hne
  exact hleft (.inl ⟨h, hne⟩)

theorem entryBelow_succ : x.EntryBelow (bl.toNat + 1) ↔ x.EntryBelow bl.toNat := by
  constructor
  · rintro ⟨k, hk, hlt, hne⟩
    rcases Nat.lt_succ_iff_lt_or_eq.1 hlt with hlt | rfl
    · exact ⟨k, hk, hlt, hne⟩
    · exact absurd (mapped_limit hleft hk) hne
  · rintro ⟨k, hk, hlt, hne⟩
    exact ⟨k, hk, by omega, hne⟩

theorem isCut_data_iff {k : Nat} (hne : x.mapped k ≠ 0) :
    x.IsCut bl (.data ⟨k, lt_of_mapped hne⟩) ↔ bl.toNat ≤ k := by
  rcases Nat.lt_or_ge k SFS_NDIRECT with hlt | hge
  · exact isCut_direct _ hlt
  · rw [isCut_entry _ hge]
    refine ⟨fun h => h.2.le, fun hle => ?_⟩
    have hbl : bl.toNat ≠ k := by
      rintro rfl
      exact hne (mapped_limit hleft hge)
    have hk := lt_of_mapped hne
    exact ⟨⟨by omega, indirect_of_mapped hge hne⟩, by omega⟩

theorem isCut_indirect_iff (hid : x.sv.sv_i.sfi_indirect ≠ 0) :
    x.IsCut bl .indirect ↔ ¬ x.EntryBelow bl.toNat := by
  have hent := (hasEntry_iff hid).trans (entryBelow_succ hleft)
  rw [IsCut, ← Bool.not_eq_true, hent]
  refine ⟨And.right, fun hno => ⟨⟨Nat.lt_of_not_le fun hge => ?_, hid⟩, hno⟩⟩
  exact hleft (.inr ⟨hge, hid, hno⟩)

/-- The map after truncation. -/
theorem mapped_cut (k : Nat) :
    (cut bl x).mapped k = if bl.toNat ≤ k then 0 else x.mapped k := by
  rcases Nat.lt_or_ge k (SFS_NDIRECT + SFS_DBPERIDB) with hk | hbehind
  · have hslot : (cut bl x).mapped k = (cut bl x).slot (.data ⟨k, hk⟩) := rfl
    by_cases hne : x.mapped k = 0
    · rw [hne, ite_self, hslot]
      by_cases hcut : x.IsCut bl (.data ⟨k, hk⟩)
      · exact (slot_cut _).1 hcut
      · exact ((slot_cut _).2 hcut).trans hne
    · split
      · next hle => exact (slot_cut _).1 ((isCut_data_iff hleft hne).2 hle)
      · next hgt => exact (slot_cut _).2 fun hcut => hgt ((isCut_data_iff hleft hne).1 hcut)
  · rw [mapped_behind hbehind, mapped_behind hbehind, ite_self]

/-- The blocks that are freed. -/
theorem mem_doomed_iff {b : Nat} : b ∈ x.doomed bl ↔
    x.PastEnd bl.toNat b ∨ (x.DropsIndirect bl.toNat ∧ b = x.sv.sv_i.sfi_indirect.toNat) := by
  rw [mem_doomed]
  constructor
  · rintro ⟨s, hcut, hne, rfl⟩
    cases s with
    | data k => exact .inl ⟨k, (isCut_data_iff hleft hne).1 hcut, hne, rfl⟩
    | indirect => exact .inr ⟨⟨hne, (isCut_indirect_iff hleft hne).1 hcut⟩, rfl⟩
  · rintro (⟨k, hle, hne, rfl⟩ | ⟨⟨hid, hno⟩, rfl⟩)
    · exact ⟨_, (isCut_data_iff hleft hne).2 hle, hne, rfl⟩
    · exact ⟨.indirect, (isCut_indirect_iff hleft hid).2 hno, hid, rfl⟩

theorem indirect_cut_iff (hid : x.sv.sv_i.sfi_indirect ≠ 0) :
    (cut bl x).sv.sv_i.sfi_indirect = 0 ↔ ¬ x.EntryBelow bl.toNat := by
  rw [← isCut_indirect_iff hleft hid]
  refine ⟨fun hz => ?_, (slot_cut _).1⟩
  by_contra hcut
  exact hid (((slot_cut _).2 hcut).symm.trans hz)

end Right

/-- What stays of the inode when something is left behind. -/
theorem not_cut_of_leavesBehind (h : x.LeavesBehind bl.toNat) :
    (cut bl x).mapped bl.toNat ≠ 0 ∨
      (x.DropsIndirect bl.toNat ∧ (cut bl x).sv.sv_i.sfi_indirect ≠ 0) := by
  rcases h with ⟨hge, hne⟩ | ⟨hge, hid, hno⟩
  · refine .inl ?_
    rcases Dinode.fileBlock_cases bl.toNat with ⟨i, hi⟩ | ⟨j, hj⟩ | hbehind
    · exact absurd i.2 (Nat.not_lt.2 (hi ▸ hge))
    · by_cases hlook : x.LooksAtIndirect bl
      · rw [hj, mapped_cut_indirect hlook, if_neg (by omega), ← hj]
        exact hne
      · rw [hj, mapped_cut_of_not hlook, ← hj]
        exact hne
    · exact absurd (mapped_behind hbehind) hne
  · have hlook : ¬ (cutDirect bl (List.finRange SFS_NDIRECT) x).LooksAtIndirect bl :=
      fun h => absurd h.1 (Nat.not_lt.2 hge)
    refine .inr ⟨⟨hid, hno⟩, ?_⟩
    rw [cut, cutIndirect, if_neg hlook]
    exact hid

theorem toNat_ofInt {n : Int} (h0 : 0 ≤ n) (h : n < 2 ^ 32) : (UInt32.ofInt n).toNat = n.toNat := by
  simp only [UInt32.ofInt, UInt32.toNat_ofNat']
  omega

/-- The number of blocks, for the lengths that a file can have. -/
theorem blocklen_toNat {len : Int} (h0 : 0 ≤ len) (h : len ≤ 73216) :
    (blocklen len).toNat = blocksOf len.toNat := by
  have hdiv : (len + 512 - 1).tdiv 512 = (len + 512 - 1) / 512 :=
    Int.tdiv_eq_ediv_of_nonneg (by omega)
  change (UInt32.ofInt ((len + 512 - 1).tdiv 512)).toNat = (len.toNat + 511) / 512
  rw [hdiv, toNat_ofInt (by omega) (by omega)]
  omega

/-- `sfs_itrunc` frees exactly what is past the end, unless the first block behind the end is one of
    the indirect block, or the indirect block is empty and the end at the last of its entries. -/
theorem sfsItrunc_truncated_iff {len : Int} (hq : x.vol.faults = []) (h0 : 0 ≤ len)
    (hmax : len ≤ ((SFS_NDIRECT + SFS_DBPERIDB) * SFS_BLOCKSIZE : Nat))
    (hrun : sfsItrunc len x = .ok (.ok (), x')) :
    x.Truncated len.toNat x' ↔ ¬ x.LeavesBehind (blocksOf len.toNat) := by
  have hmax : len ≤ 73216 := hmax
  have hB := blocklen_toNat h0 hmax
  obtain rfl := (wp_sfsItrunc hq len).of_ok hrun
  have hmapped : ∀ k, (resize len (cut (blocklen len) x)).mapped k =
      (cut (blocklen len) x).mapped k := fun _ => rfl
  have hmarked : ∀ b, (resize len (cut (blocklen len) x)).vol.Marked b ↔
      x.vol.Marked b ∧ b ∉ x.doomed (blocklen len) := fun _ => marked_cut
  have hindirect : (resize len (cut (blocklen len) x)).sv.sv_i.sfi_indirect =
      (cut (blocklen len) x).sv.sv_i.sfi_indirect := rfl
  rw [← hB]
  constructor
  · intro h hleft
    have hunmapped := h.unmapped
    have hind := h.indirect
    rw [← hB] at hunmapped hind
    rcases not_cut_of_leavesBehind hleft with hne | ⟨⟨hid, hno⟩, hne⟩
    · exact hne (by rw [← hmapped, hunmapped _ (Nat.le_refl _)])
    · exact hne (by rw [← hindirect, ((hind hid).2 hno).1])
  · intro hleft
    have hcut := mapped_cut hleft
    have hdoomed := fun b => mem_doomed_iff hleft (b := b)
    constructor
    · intro k hk
      rw [hmapped, hcut, if_neg (by omega)]
    · intro k hk
      rw [hmapped, hcut, if_pos (by omega)]
    · intro b hb hm
      exact ((hmarked b).1 hm).2 ((hdoomed b).2 (.inl (hB ▸ hb)))
    · intro hid
      rw [hindirect, indirect_cut_iff hleft hid, ← hB]
      refine ⟨And.left, fun hno => ⟨hno, fun hm => ?_⟩⟩
      exact ((hmarked _).1 hm).2 ((hdoomed _).2 (.inr ⟨⟨hid, hno⟩, rfl⟩))
    · intro b hpast hdrop
      rw [← hB] at hpast hdrop
      rw [hmarked]
      exact and_iff_left fun hb => ((hdoomed b).1 hb).elim hpast hdrop
    · exact toNat_ofInt h0 (by omega)

/-- A file of sixteen blocks, the last of which is the first entry of its indirect block. -/
def sixteen : Inode where
  vol :=
    { sb_volname := "vol"
      sb_nblocks := 64
      sfs_freemap := ⟨4096, fun b => b < 21 || 64 ≤ b⟩
      sfs_freemapdirty := false
      sectors := fun b =>
        if b = 4 then Block.ofWords fun j => if j.val = 0 then 20 else 0 else Block.zeros
      d_blocks := 64
      faults := [] }
  sv :=
    { sv_ino := 3
      sv_i :=
        { sfi_size := 8192
          sfi_type := SFS_TYPE_FILE
          sfi_linkcount := 1
          sfi_direct := fun i => UInt32.ofNat (5 + i)
          sfi_indirect := 4
          sfi_waste := fun _ => 0 }
      sv_dirty := false
      vn_refcount := 1 }

/-- Cut down to fourteen blocks, the file gives back the two blocks and its indirect block. -/
theorem sixteen_truncated : ∃ x', sfsItrunc 7168 sixteen = .ok (.ok (), x') ∧
    sixteen.Truncated 7168 x' := by
  have hcheck : (sfsItrunc 7168).passes (fun r _ => r.isOk) sixteen = true := by
    decide +kernel
  obtain ⟨e | u, x', hrun, hok⟩ := exists_of_passes hcheck
  · cases hok
  · refine ⟨x', hrun, (sfsItrunc_truncated_iff rfl (by decide) (by decide) hrun).2 ?_⟩
    rintro (⟨h, -⟩ | ⟨h, -⟩)
    · exact absurd h (by decide)
    · exact absurd h (by decide)

/-- Cut down to fifteen blocks, the file keeps the sixteenth. -/
theorem sixteen_leavesBehind : ∃ x', sfsItrunc 7680 sixteen = .ok (.ok (), x') ∧
    ¬ sixteen.Truncated 7680 x' := by
  have hcheck : (sfsItrunc 7680).passes (fun r x' => r.isOk && x'.mapped SFS_NDIRECT != 0)
      sixteen = true := by
    decide +kernel
  obtain ⟨e | u, x', hrun, htest⟩ := exists_of_passes hcheck
  · cases htest
  · refine ⟨x', hrun, fun h => ?_⟩
    rw [h.unmapped SFS_NDIRECT (by decide)] at htest
    cases htest

end Inode

end DemandPaging
