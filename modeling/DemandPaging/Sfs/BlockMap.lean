import DemandPaging.Lib.Owners
import DemandPaging.Sfs.Device

set_option autoImplicit false

/-! # The blocks of an inode

What `sfs_balloc` and `sfs_bmap` do. An inode holds the blocks that its slots name: those of the
data and the indirect block. Together with the blocks of everybody else these are the blocks that
are marked in the freemap, each once (`Own`).

`sfs_bmap` at most attaches fresh blocks to empty slots, and these blocks are zero. So the inode
`Grows`: it owns its blocks again, reads as before, and nothing of the others has changed. -/

namespace DemandPaging

open Fallible

/-! ## The map of an inode -/

namespace Dinode

/-- The disk block of a block of the file, or 0. -/
def fileBlock (sectors : Nat → Block) (d : Dinode) (k : Nat) : UInt32 :=
  if k < SFS_NDIRECT then d.sfi_direct (Fin.ofNat SFS_NDIRECT k)
  else if k < SFS_NDIRECT + SFS_DBPERIDB ∧ d.sfi_indirect ≠ 0 then
    (sectors d.sfi_indirect.toNat).words (Fin.ofNat SFS_DBPERIDB (k - SFS_NDIRECT))
  else 0

variable {sectors : Nat → Block} {d : Dinode} {k : Nat}

theorem fileBlock_direct (i : Fin SFS_NDIRECT) : d.fileBlock sectors i = d.sfi_direct i := by
  rw [fileBlock, if_pos i.2, Fin.ofNat_val_eq_self]

theorem fileBlock_indirect (h : d.sfi_indirect ≠ 0) (j : Fin SFS_DBPERIDB) :
    d.fileBlock sectors (SFS_NDIRECT + j) = (sectors d.sfi_indirect.toNat).words j := by
  rw [fileBlock, if_neg (Nat.not_lt.2 (Nat.le_add_right ..)), if_pos ⟨Nat.add_lt_add_left j.2 _, h⟩,
    Nat.add_sub_cancel_left, Fin.ofNat_val_eq_self]

theorem fileBlock_none (h : d.sfi_indirect = 0) (hk : SFS_NDIRECT ≤ k) :
    d.fileBlock sectors k = 0 := by
  rw [fileBlock, if_neg (Nat.not_lt.2 hk), if_neg fun e => e.2 h]

/-- The blocks behind the direct ones depend on the indirect block only. -/
theorem fileBlock_congr {d' : Dinode} (h : d'.sfi_indirect = d.sfi_indirect)
    (hk : SFS_NDIRECT ≤ k) :
    d'.fileBlock sectors k = d.fileBlock sectors k := by
  simp only [fileBlock, if_neg (Nat.not_lt.2 hk), h]

/-- A block of a file is a direct one, an entry of the indirect block or behind both. -/
theorem fileBlock_cases (k : Nat) :
    (∃ i : Fin SFS_NDIRECT, k = i) ∨ (∃ j : Fin SFS_DBPERIDB, k = SFS_NDIRECT + j) ∨
      SFS_NDIRECT + SFS_DBPERIDB ≤ k := by
  rcases Nat.lt_or_ge k SFS_NDIRECT with h | h
  · exact .inl ⟨⟨k, h⟩, rfl⟩
  · rcases Nat.lt_or_ge k (SFS_NDIRECT + SFS_DBPERIDB) with h' | h'
    · exact .inr (.inl ⟨⟨k - SFS_NDIRECT, by omega⟩, by simp only; omega⟩)
    · exact .inr (.inr h')

end Dinode

namespace Inode

variable {x x' x'' : Inode} {k : Nat} {b : UInt32}

/-- The disk block of a block of the file, or 0. -/
def mapped (x : Inode) (k : Nat) : UInt32 := x.sv.sv_i.fileBlock x.vol.sectors k

theorem mapped_direct (i : Fin SFS_NDIRECT) : x.mapped i = x.sv.sv_i.sfi_direct i :=
  Dinode.fileBlock_direct i

theorem mapped_behind (hk : SFS_NDIRECT + SFS_DBPERIDB ≤ k) : x.mapped k = 0 := by
  rw [mapped, Dinode.fileBlock, if_neg (by omega), if_neg (by omega)]

theorem lt_of_mapped (hz : x.mapped k ≠ 0) : k < SFS_NDIRECT + SFS_DBPERIDB :=
  Nat.lt_of_not_le fun hge => hz (mapped_behind hge)

/-- An entry is one of an indirect block. -/
theorem indirect_of_mapped (hk : SFS_NDIRECT ≤ k) (h : x.mapped k ≠ 0) :
    x.sv.sv_i.sfi_indirect ≠ 0 :=
  fun hid => h (Dinode.fileBlock_none hid hk)

theorem words_eq_mapped (h : x.sv.sv_i.sfi_indirect ≠ 0) (j : Fin SFS_DBPERIDB) :
    (x.vol.sectors x.sv.sv_i.sfi_indirect.toNat).words j = x.mapped (SFS_NDIRECT + j) :=
  (Dinode.fileBlock_indirect h j).symm

theorem mapped_entry {id : UInt32} (h : x.sv.sv_i.sfi_indirect = id) (hz : id ≠ 0)
    (j : Fin SFS_DBPERIDB) : x.mapped (SFS_NDIRECT + j) = (x.vol.sectors id.toNat).words j := by
  subst h
  exact Dinode.fileBlock_indirect hz j

theorem mapped_none (h : x.sv.sv_i.sfi_indirect = 0) (hk : SFS_NDIRECT ≤ k) : x.mapped k = 0 :=
  Dinode.fileBlock_none h hk

/-- The map depends on the vnode and on the indirect block. -/
theorem mapped_congr (hd : x'.sv.sv_i.sfi_direct = x.sv.sv_i.sfi_direct)
    (hi : x'.sv.sv_i.sfi_indirect = x.sv.sv_i.sfi_indirect)
    (hs : x.sv.sv_i.sfi_indirect ≠ 0 → x'.vol.sectors x.sv.sv_i.sfi_indirect.toNat
      = x.vol.sectors x.sv.sv_i.sfi_indirect.toNat) (k : Nat) : x'.mapped k = x.mapped k := by
  rw [mapped, mapped, Dinode.fileBlock, Dinode.fileBlock, hd, hi]
  by_cases hz : x.sv.sv_i.sfi_indirect = 0
  · simp only [hz, ne_eq, not_true_eq_false, and_false, if_false]
  · rw [hs hz]

/-- A block of the file as it is read: a block that is not there is zero. -/
def fileData (x : Inode) (k : Nat) : Block :=
  if x.mapped k = 0 then Block.zeros else x.vol.sectors (x.mapped k).toNat

end Inode

/-! ## A fresh block -/

namespace Volume

variable {vol vol' : Volume} {b : UInt32}

/-- A volume as it is mounted, of any size: the device has all its blocks and no fault, and the
    freemap has a bit for every block, in whole bytes, and the bits behind are set. -/
structure Regular (vol : Volume) : Prop where
  quiet : vol.Quiet
  nbits : vol.sb_nblocks.toNat ≤ vol.sfs_freemap.nbits ∧ vol.sfs_freemap.nbits % 8 = 0
  tail : ∀ b, vol.sb_nblocks.toNat ≤ b → b < vol.sfs_freemap.nbits → vol.Marked b

/-- A volume of at most 4G. -/
structure Sound (vol : Volume) : Prop extends Regular vol where
  small : vol.sb_nblocks.toNat * SFS_BLOCKSIZE ≤ 2 ^ 32

/-- A block of the volume that is marked. -/
def Taken (vol : Volume) (b : Nat) : Prop := b < vol.sb_nblocks.toNat ∧ vol.Marked b

/-- A block of the volume that is not marked. -/
def Fresh (vol : Volume) (b : UInt32) : Prop :=
  b.toNat < vol.sb_nblocks.toNat ∧ ¬ vol.Marked b.toNat

/-- At most `n` blocks of the volume are free. -/
def Tight (vol : Volume) (n : Nat) : Prop :=
  ∀ l : List UInt32, l.Nodup → (∀ b ∈ l, vol.Fresh b) → l.length ≤ n

/-- The volume with a fresh block, zeroed. -/
def alloc (vol : Volume) (b : UInt32) : Volume :=
  (vol.setMark b.toNat true).write b.toNat Block.zeros

/-- The volume is the same but for its blocks and their marks. -/
structure SameDisk (vol vol' : Volume) : Prop where
  volname : vol'.sb_volname = vol.sb_volname
  nblocks : vol'.sb_nblocks = vol.sb_nblocks
  nbits : vol'.sfs_freemap.nbits = vol.sfs_freemap.nbits
  d_blocks : vol'.d_blocks = vol.d_blocks
  faults : vol'.faults = vol.faults

theorem SameDisk.refl (vol : Volume) : SameDisk vol vol := ⟨rfl, rfl, rfl, rfl, rfl⟩

theorem SameDisk.trans {vol'' : Volume} (h : SameDisk vol vol') (h' : SameDisk vol' vol'') :
    SameDisk vol vol'' :=
  ⟨h'.volname.trans h.volname, h'.nblocks.trans h.nblocks, h'.nbits.trans h.nbits,
    h'.d_blocks.trans h.d_blocks, h'.faults.trans h.faults⟩

/-- A volume stays sound as long as the bits behind the blocks are set. -/
theorem Sound.of_sameDisk (h : vol.Sound) (hs : vol.SameDisk vol')
    (htail : ∀ b, vol.sb_nblocks.toNat ≤ b → vol.Marked b → vol'.Marked b) : vol'.Sound := by
  refine ⟨⟨⟨hs.faults.trans h.quiet.faults, ?_⟩, ?_, fun b hge hlt => ?_⟩, hs.nblocks ▸ h.small⟩
  · rw [hs.nblocks, hs.d_blocks]
    exact h.quiet.blocks
  · rw [hs.nblocks, hs.nbits]
    exact h.nbits
  · rw [hs.nblocks] at hge
    rw [hs.nbits] at hlt
    exact htail b hge (h.tail b hge hlt)

theorem marked_setMark_true {c d : Nat} : (vol.setMark c true).Marked d ↔ vol.Marked d ∨ d = c := by
  change Function.update vol.sfs_freemap.v c true d = true ↔ _
  by_cases h : d = c
  · simp [h]
  · simp only [Function.update_of_ne h, h, or_false]
    rfl

theorem marked_alloc {d : Nat} : (vol.alloc b).Marked d ↔ vol.Marked d ∨ d = b.toNat :=
  marked_setMark_true

theorem sectors_alloc_of_ne {c : Nat} (h : c ≠ b.toNat) : (vol.alloc b).sectors c = vol.sectors c :=
  sectors_write_of_ne h ..

theorem Tight.mono {m n : Nat} (h : vol.Tight m) (hle : m ≤ n) : vol.Tight n :=
  fun l hl hfresh => (h l hl hfresh).trans hle

/-- One more block was free before one was taken. -/
theorem Tight.of_alloc {n : Nat} (h : (vol.alloc b).Tight n) : vol.Tight (n + 1) := by
  intro l hl hfresh
  refine (Nat.sub_le_iff_le_add.1 (List.le_length_erase (a := b))).trans
    (Nat.succ_le_succ (h (l.erase b) (hl.erase b) fun c hc => ?_))
  obtain ⟨hne, hmem⟩ := hl.mem_erase_iff.1 hc
  refine ⟨(hfresh c hmem).1, fun hm => ?_⟩
  exact (marked_alloc.1 hm).elim (hfresh c hmem).2 fun heq => hne (UInt32.toNat_inj.1 heq)

/-- `sfs_balloc` gives a fresh block, or there is none. -/
theorem wp_sfsBalloc (h : vol.Sound) :
    sfsBalloc.Safe (fun b vol' => vol.Fresh b ∧ vol' = vol.alloc b)
      (fun e vol' => (e = .ENOSPC ∧ vol.Tight 0) ∧ vol' = vol) vol := by
  obtain ⟨hlarge, hbytes⟩ := h.nbits
  have hwords : (vol.sfs_freemap.nbits + 7) / 8 * 8 = vol.sfs_freemap.nbits := by omega
  simp only [sfsBalloc, bitmapAlloc, wp_bind, wp_read]
  cases hw : firstWord vol.sfs_freemap.v 8 ((vol.sfs_freemap.nbits + 7) / 8) with
  | none =>
    refine wp_fail.2 ⟨⟨rfl, fun l _ hfresh => ?_⟩, rfl⟩
    cases l with
    | nil => exact Nat.le_refl 0
    | cons b l =>
      obtain ⟨hlt, hclear⟩ := hfresh b List.mem_cons_self
      exact absurd (all_set_of_firstWord (by decide) hw _ (by omega)) hclear
  | some ix =>
    obtain ⟨offset, hbit⟩ := exists_firstBit (firstWord_not_full hw)
    obtain ⟨hlt, hclear, -⟩ := first_clear (by decide) hw hbit
    rw [hwords] at hlt
    have hnb : ix * 8 + offset < vol.sb_nblocks.toNat := by
      by_contra hge
      have := h.tail _ (Nat.not_lt.1 hge) hlt
      rw [Marked, hclear] at this
      cases this
    have hnat : (UInt32.ofNat (ix * 8 + offset)).toNat = ix * 8 + offset := by
      rw [UInt32.toNat_ofNat']
      exact Nat.mod_eq_of_lt (hnb.trans vol.sb_nblocks.toNat_lt)
    simp only [hbit, wp_bind, wp_modify, wp_check, wp_pure, wp_ite, wp_crash, wp_attempt]
    refine ⟨fun _ => ⟨fun hbig => ?_, fun _ => ?_⟩, fun hno => hno hlt⟩
    · have := UInt32.le_iff_toNat_le.1 hbig
      rw [hnat] at this
      omega
    · have hq : Quiet (vol.setMark (ix * 8 + offset) true) := ⟨h.quiet.faults, h.quiet.blocks⟩
      have hrun : sfsClearblock (UInt32.ofNat (ix * 8 + offset)) _ = _ :=
        hq.sfsWriteblock (UInt32.lt_iff_toNat_lt.2 (by rw [hnat]; exact hnb))
      refine (wp_of_ok hrun).2 ⟨⟨by rw [hnat]; exact hnb, ?_⟩, ?_⟩
      · rw [Marked, hnat, hclear]
        exact Bool.false_ne_true
      · rw [alloc, hnat]

/-- `sfs_bused` says whether the block is marked. -/
theorem sfsBused_eq (h : b.toNat < vol.sb_nblocks.toNat) :
    sfsBused b vol = .ok (.ok (vol.sfs_freemap.v b.toNat), vol) := by
  have hnot : ¬ vol.sb_nblocks ≤ b := by
    rw [UInt32.le_iff_toNat_le]
    omega
  refine Wp.eq_ok ?_
  simp only [sfsBused, wp_bind, wp_read, if_neg hnot]
  exact ⟨rfl, rfl⟩

end Volume

/-! ## Slots -/

/-- Where an inode refers to a block. -/
inductive Slot
  | data (k : Fin (SFS_NDIRECT + SFS_DBPERIDB))
  | indirect
  deriving DecidableEq

namespace Inode

variable {x x' x'' : Inode} {k : Nat} {b : UInt32} {F : Nat → Prop}

/-- The block of a slot, or 0. -/
def slot (x : Inode) : Slot → UInt32
  | .data k => x.mapped k
  | .indirect => x.sv.sv_i.sfi_indirect

/-- The references to the blocks of the volume: those of the inode, and those of everybody else. -/
def refs (F : Nat → Prop) (x : Inode) : Option Slot → Nat → Prop
  | none => F
  | some s => fun b => x.slot s ≠ 0 ∧ (x.slot s).toNat = b

/-- The inode owns the blocks of its slots, and `F` are the blocks of everybody else. -/
structure Own (F : Nat → Prop) (x : Inode) : Prop where
  sound : x.vol.Sound
  zero : F 0
  exact : Exact x.vol.Taken (x.refs F)

theorem Own.taken (h : x.Own F) {s : Slot} (hs : x.slot s ≠ 0) : x.vol.Taken (x.slot s).toNat :=
  h.exact.marked (some s) _ ⟨hs, rfl⟩

theorem Own.notForeign (h : x.Own F) {s : Slot} (hs : x.slot s ≠ 0) : ¬ F (x.slot s).toNat := by
  intro hF
  cases h.exact.unique (some s) none _ ⟨hs, rfl⟩ hF

theorem Own.inj (h : x.Own F) {s t : Slot} (hs : x.slot s ≠ 0) (ht : x.slot t ≠ 0)
    (heq : (x.slot s).toNat = (x.slot t).toNat) : s = t :=
  Option.some.inj (h.exact.unique (some s) (some t) _ ⟨hs, heq⟩ ⟨ht, rfl⟩)

theorem Own.mapped_inj (h : x.Own F) {l : Nat} (hk : x.mapped k ≠ 0) (hl : x.mapped l ≠ 0)
    (heq : (x.mapped l).toNat = (x.mapped k).toNat) : l = k := by
  have hslot := h.inj (s := .data ⟨l, lt_of_mapped hl⟩) (t := .data ⟨k, lt_of_mapped hk⟩) hl hk heq
  exact Fin.val_eq_of_eq (Slot.data.inj hslot)

theorem Own.fresh_ne_zero (h : x.Own F) (hb : x.vol.Fresh b) : b ≠ 0 := by
  rintro rfl
  exact hb.2 (h.exact.marked none 0 h.zero).2

theorem Own.fresh_ne_slot (h : x.Own F) (hb : x.vol.Fresh b) {s : Slot} (hs : x.slot s ≠ 0) :
    (x.slot s).toNat ≠ b.toNat := by
  intro heq
  exact hb.2 (heq ▸ (h.taken hs).2)

theorem Own.fresh_notForeign (h : x.Own F) (hb : x.vol.Fresh b) : ¬ F b.toNat :=
  fun hF => hb.2 (h.exact.marked none _ hF).2

/-! ## Attaching a fresh block -/

/-- A fresh block as the block `k` of the file. -/
def attachData (k : Nat) (b : UInt32) (x : Inode) : Inode :=
  if k < SFS_NDIRECT then
    setDirect (Fin.ofNat SFS_NDIRECT k) b { x with vol := x.vol.alloc b }
  else
    { x with
      vol := (x.vol.alloc b).write x.sv.sv_i.sfi_indirect.toNat (Block.ofWords
        (Function.update (x.vol.sectors x.sv.sv_i.sfi_indirect.toNat).words
          (Fin.ofNat SFS_DBPERIDB (k - SFS_NDIRECT)) b)) }

/-- A fresh block as the indirect block. -/
def attachIndirect (b : UInt32) (x : Inode) : Inode :=
  setIndirect b { x with vol := x.vol.alloc b }

theorem attachData_direct (i : Fin SFS_NDIRECT) :
    attachData i b x = setDirect i b { x with vol := x.vol.alloc b } := by
  rw [attachData, if_pos i.2, Fin.ofNat_val_eq_self]

theorem attachData_entry (j : Fin SFS_DBPERIDB) :
    attachData (SFS_NDIRECT + j) b x =
      { x with
        vol := (x.vol.alloc b).write x.sv.sv_i.sfi_indirect.toNat (Block.ofWords
          (Function.update (x.vol.sectors x.sv.sv_i.sfi_indirect.toNat).words j b)) } := by
  rw [attachData, if_neg (Nat.not_lt.2 (Nat.le_add_right ..)), Nat.add_sub_cancel_left,
    Fin.ofNat_val_eq_self]

/-- The new block is in its place, and all others as before. -/
theorem mapped_attachData (hk : k < SFS_NDIRECT + SFS_DBPERIDB)
    (hid : SFS_NDIRECT ≤ k → x.sv.sv_i.sfi_indirect ≠ 0)
    (hb : x.sv.sv_i.sfi_indirect ≠ 0 → x.sv.sv_i.sfi_indirect.toNat ≠ b.toNat) (l : Nat) :
    (attachData k b x).mapped l = if l = k then b else x.mapped l := by
  rcases Dinode.fileBlock_cases l with ⟨i', rfl⟩ | ⟨j', rfl⟩ | hbehind
  · rcases Dinode.fileBlock_cases k with ⟨i, rfl⟩ | ⟨j, rfl⟩ | hk'
    · rw [mapped_direct, mapped_direct, attachData_direct]
      change Function.update x.sv.sv_i.sfi_direct i b i' = _
      simp only [Function.update_apply, Fin.val_inj]
    · rw [if_neg (by omega), mapped_direct, mapped_direct, attachData_entry]
    · omega
  · rcases Dinode.fileBlock_cases k with ⟨i, rfl⟩ | ⟨j, rfl⟩ | hk'
    · have hsame : (attachData i b x).sv.sv_i.sfi_indirect = x.sv.sv_i.sfi_indirect := by
        rw [attachData_direct]
        rfl
      have hsec : (attachData i b x).vol = x.vol.alloc b := by
        rw [attachData_direct]
        rfl
      rw [if_neg (by omega)]
      by_cases hz : x.sv.sv_i.sfi_indirect = 0
      · rw [mapped_none hz (Nat.le_add_right ..),
          mapped_none (hsame.trans hz) (Nat.le_add_right ..)]
      · rw [mapped_entry rfl hz, mapped_entry hsame hz, hsec, Volume.sectors_alloc_of_ne (hb hz)]
    · have hz := hid (Nat.le_add_right ..)
      have hsame : (attachData (SFS_NDIRECT + j) b x).sv.sv_i.sfi_indirect
          = x.sv.sv_i.sfi_indirect := by
        rw [attachData_entry]
      rw [mapped_entry rfl hz, mapped_entry hsame hz, attachData_entry, Volume.sectors_write_self,
        Block.words_ofWords, Function.update_apply]
      simp only [Nat.add_left_cancel_iff, Fin.val_inj]
    · omega
  · rw [mapped_behind hbehind, mapped_behind hbehind, if_neg (by omega)]

theorem words_zeros (j : Fin SFS_DBPERIDB) : Block.zeros.words j = 0 := by
  change wordOf (fun _ => 0) = 0
  decide

theorem mapped_attachIndirect (hid : x.sv.sv_i.sfi_indirect = 0) (hb : b ≠ 0) (l : Nat) :
    (attachIndirect b x).mapped l = x.mapped l := by
  rcases Dinode.fileBlock_cases l with ⟨i', rfl⟩ | ⟨j', rfl⟩ | hbehind
  · rw [mapped_direct, mapped_direct]
    rfl
  · have hsec : (attachIndirect b x).vol.sectors b.toNat = Block.zeros :=
      Volume.sectors_write_self ..
    have hnew : (attachIndirect b x).sv.sv_i.sfi_indirect = b := rfl
    rw [mapped_none hid (Nat.le_add_right ..), mapped_entry hnew hb, hsec, words_zeros]
  · rw [mapped_behind hbehind, mapped_behind hbehind]

/-- What an operation on the inode leaves alone: everybody else's blocks, and of the vnode all but
    the map and the size. A vnode that is not dirty has not changed. -/
structure Local (F : Nat → Prop) (x x' : Inode) : Prop where
  own : x'.Own F
  sectors : ∀ c, F c → x'.vol.sectors c = x.vol.sectors c
  disk : x.vol.SameDisk x'.vol
  ino : x'.sv.sv_ino = x.sv.sv_ino
  refcount : x'.sv.vn_refcount = x.sv.vn_refcount
  type : x'.sv.sv_i.sfi_type = x.sv.sv_i.sfi_type
  linkcount : x'.sv.sv_i.sfi_linkcount = x.sv.sv_i.sfi_linkcount
  clean : x'.sv.sv_dirty = false → x'.sv = x.sv

theorem Local.refl (h : x.Own F) : Local F x x :=
  ⟨h, fun _ _ => rfl, .refl _, rfl, rfl, rfl, rfl, fun _ => rfl⟩

theorem Local.trans (h : Local F x x') (h' : Local F x' x'') : Local F x x'' where
  own := h'.own
  sectors := fun c hc => (h'.sectors c hc).trans (h.sectors c hc)
  disk := h.disk.trans h'.disk
  ino := h'.ino.trans h.ino
  refcount := h'.refcount.trans h.refcount
  type := h'.type.trans h.type
  linkcount := h'.linkcount.trans h.linkcount
  clean := fun hc => by
    have hsv := h'.clean hc
    exact hsv.trans (h.clean (hsv ▸ hc))

/-- The inode got fresh blocks at most, and reads as before. -/
structure Grows (F : Nat → Prop) (x x' : Inode) : Prop extends Local F x x' where
  size : x'.sv.sv_i.sfi_size = x.sv.sv_i.sfi_size
  data : ∀ k, x'.fileData k = x.fileData k

theorem Grows.refl (h : x.Own F) : Grows F x x := ⟨.refl h, rfl, fun _ => rfl⟩

theorem Grows.trans (h : Grows F x x') (h' : Grows F x' x'') : Grows F x x'' :=
  ⟨h.toLocal.trans h'.toLocal, h'.size.trans h.size, fun k => (h'.data k).trans (h.data k)⟩

/-- The marks with a fresh block. -/
theorem taken_alloc {vol vol' : Volume} (hb : vol.Fresh b) (hd : vol.SameDisk vol')
    (hm : ∀ c, vol'.Marked c ↔ vol.Marked c ∨ c = b.toNat) (c : Nat) :
    vol'.Taken c ↔ vol.Taken c ∨ c = b.toNat := by
  rw [Volume.Taken, Volume.Taken, hd.nblocks, hm]
  constructor
  · rintro ⟨hlt, hm | rfl⟩
    · exact .inl ⟨hlt, hm⟩
    · exact .inr rfl
  · rintro (⟨hlt, hm⟩ | rfl)
    · exact ⟨hlt, .inl hm⟩
    · exact ⟨hb.1, .inr rfl⟩

/-- A fresh block in an empty slot: the inode owns its blocks again. -/
theorem Own.give (s₀ : Slot) (h : x.Own F) (hb : x.vol.Fresh b) (hs : x.slot s₀ = 0)
    (hslot : ∀ s, x'.slot s = if s = s₀ then b else x.slot s) (hd : x.vol.SameDisk x'.vol)
    (hm : ∀ c, x'.vol.Marked c ↔ x.vol.Marked c ∨ c = b.toNat) : x'.Own F := by
  refine ⟨h.sound.of_sameDisk hd fun c _ hc => (hm c).2 (.inl hc), h.zero, ?_⟩
  refine h.exact.give (some s₀) (fun ht => hb.2 ht.2) (fun r c => ?_)
    (taken_alloc hb hd hm)
  cases r with
  | none => simp [refs]
  | some s =>
    simp only [refs, hslot, Option.some.injEq]
    by_cases heq : s = s₀
    · subst heq
      simp only [if_true, hs, ne_eq, not_true_eq_false, false_and, true_and, false_or]
      exact ⟨fun hc => hc.2.symm, fun hc => ⟨h.fresh_ne_zero hb, hc.symm⟩⟩
    · simp only [heq, if_false, false_and, or_false]

theorem sectors_attachData {c : Nat} (hc : c ≠ b.toNat)
    (hid : SFS_NDIRECT ≤ k → c ≠ x.sv.sv_i.sfi_indirect.toNat) :
    (attachData k b x).vol.sectors c = x.vol.sectors c := by
  rw [attachData]
  split
  · exact Volume.sectors_alloc_of_ne hc
  · next hk =>
    have hwrite := Volume.sectors_write_of_ne (hid (Nat.not_lt.1 hk)) (x.vol.alloc b)
    exact (hwrite _).trans (Volume.sectors_alloc_of_ne hc)

theorem sectors_attachData_self (hid : SFS_NDIRECT ≤ k → b.toNat ≠ x.sv.sv_i.sfi_indirect.toNat) :
    (attachData k b x).vol.sectors b.toNat = Block.zeros := by
  rw [attachData]
  split
  · exact Volume.sectors_write_self ..
  · next hk =>
    have hwrite := Volume.sectors_write_of_ne (hid (Nat.not_lt.1 hk)) (x.vol.alloc b)
    exact (hwrite _).trans (Volume.sectors_write_self ..)

/-- A fresh block as a block of the file. -/
theorem Own.attachData (h : x.Own F) (hb : x.vol.Fresh b) (hk : k < SFS_NDIRECT + SFS_DBPERIDB)
    (hid : SFS_NDIRECT ≤ k → x.sv.sv_i.sfi_indirect ≠ 0) (hz : x.mapped k = 0) :
    Grows F x (attachData k b x) ∧ (attachData k b x).mapped k = b := by
  have hne : x.sv.sv_i.sfi_indirect ≠ 0 → x.sv.sv_i.sfi_indirect.toNat ≠ b.toNat :=
    fun hi => h.fresh_ne_slot hb (s := .indirect) hi
  have hmap := mapped_attachData hk hid hne
  have hslot : ∀ s, (Inode.attachData k b x).slot s =
      if s = .data ⟨k, hk⟩ then b else x.slot s := by
    intro s
    cases s with
    | data l =>
      refine (hmap l).trans ?_
      simp only [Slot.data.injEq, Fin.ext_iff]
      rfl
    | indirect =>
      rw [if_neg (by simp), Inode.attachData]
      split <;> rfl
  have hdisk : x.vol.SameDisk (Inode.attachData k b x).vol := by
    rw [Inode.attachData]
    split <;> exact ⟨rfl, rfl, rfl, rfl, rfl⟩
  have hmarked : ∀ c, (Inode.attachData k b x).vol.Marked c ↔ x.vol.Marked c ∨ c = b.toNat := by
    intro c
    rw [Inode.attachData]
    split <;> exact Volume.marked_alloc
  have hown := h.give (.data ⟨k, hk⟩) hb hz hslot hdisk hmarked
  refine ⟨?_, by rw [hmap, if_pos rfl]⟩
  constructor
  case toLocal =>
    constructor
    case own => exact hown
    case sectors =>
      intro c hc
      refine sectors_attachData ?_ fun hge heq => ?_
      · rintro rfl
        exact h.fresh_notForeign hb hc
      · exact h.notForeign (s := .indirect) (hid hge) (heq ▸ hc)
    case disk => exact hdisk
    all_goals
      rw [Inode.attachData]
      split <;> first | rfl | exact fun hc => by cases hc | exact fun _ => rfl
  case size =>
    rw [Inode.attachData]
    split <;> rfl
  case data =>
    intro l
    rw [fileData, fileData, hmap]
    by_cases hl : l = k
    · subst hl
      rw [if_pos rfl, if_pos hz, if_neg (h.fresh_ne_zero hb), sectors_attachData_self]
      exact fun hge heq => hne (hid hge) heq.symm
    · rw [if_neg hl]
      split
      · rfl
      · next hml =>
        have hlt := lt_of_mapped hml
        refine sectors_attachData (h.fresh_ne_slot hb (s := .data ⟨l, hlt⟩) hml) fun hge heq => ?_
        cases h.inj (s := .data ⟨l, hlt⟩) (t := .indirect) hml (hid hge) heq

/-- A fresh block as the indirect block. -/
theorem Own.attachIndirect (h : x.Own F) (hb : x.vol.Fresh b) (hz : x.sv.sv_i.sfi_indirect = 0) :
    Grows F x (attachIndirect b x) := by
  have hne := h.fresh_ne_zero hb
  have hmap := mapped_attachIndirect hz hne
  have hslot : ∀ s, (Inode.attachIndirect b x).slot s = if s = .indirect then b else x.slot s := by
    intro s
    cases s with
    | data l => exact (hmap l).trans (if_neg (by simp)).symm
    | indirect => rfl
  have hdisk : x.vol.SameDisk (Inode.attachIndirect b x).vol := ⟨rfl, rfl, rfl, rfl, rfl⟩
  have hown := h.give .indirect hb hz hslot hdisk fun _ => Volume.marked_alloc
  refine ⟨⟨hown, fun c hc => ?_, hdisk, rfl, rfl, rfl, rfl, fun hc => by cases hc⟩, rfl,
    fun l => ?_⟩
  · refine Volume.sectors_alloc_of_ne ?_
    rintro rfl
    exact h.fresh_notForeign hb hc
  · rw [fileData, fileData, hmap]
    split
    · rfl
    · next hml =>
      have hlt := lt_of_mapped hml
      exact Volume.sectors_alloc_of_ne (h.fresh_ne_slot hb (s := .data ⟨l, hlt⟩) hml)

/-- The inode with another size. -/
def setSize (size : UInt32) (x : Inode) : Inode :=
  { x with sv.sv_i.sfi_size := size, sv.sv_dirty := true }

/-- The size is none of the map. -/
theorem Own.setSize (h : x.Own F) (size : UInt32) : Local F x (setSize size x) where
  own := ⟨h.sound, h.zero, h.exact.congr (fun r _ => by cases r <;> rfl) fun _ => Iff.rfl⟩
  sectors := fun _ _ => rfl
  disk := .refl _
  ino := rfl
  refcount := rfl
  type := rfl
  linkcount := rfl
  clean := fun hc => by cases hc

/-! ## `sfs_bmap` -/

/-- A block that is handed back is in use. -/
theorem handBack_eq {fb : UInt32} (h : b ≠ 0 → x.vol.Taken b.toNat) :
    handBack b fb x = .ok (.ok b, x) := by
  refine Wp.eq_ok ?_
  simp only [handBack, wp_bind, wp_read]
  split
  · next hb =>
    obtain ⟨hlt, hm⟩ := h hb
    have hm : x.vol.sfs_freemap.v b.toNat = true := hm
    simp only [onVol, wp_bind, wp_zoom, wp_of_ok (Volume.sfsBused_eq hlt), hm, not_true_eq_false,
      if_false]
    exact ⟨rfl, rfl⟩
  · exact ⟨rfl, rfl⟩

theorem Own.mapped_taken (h : x.Own F) (hz : x.mapped k ≠ 0) : x.vol.Taken (x.mapped k).toNat :=
  h.taken (s := .data ⟨k, lt_of_mapped hz⟩) hz

/-- What `sfs_bmap` hands back for the block `k` of the file, and how it leaves the inode. -/
structure Maps (F : Nat → Prop) (x : Inode) (k : Nat) (doalloc : Bool) (b : UInt32) (x' : Inode) :
    Prop where
  grows : Grows F x x'
  block : b = x'.mapped k
  alloc : doalloc = true → b ≠ 0
  same : doalloc = false → x' = x

/-- Why `sfs_bmap` fails: the block is behind those that a file can have, or the volume is full. -/
def Lacks (x : Inode) (k : Nat) (e : Errno) : Prop :=
  e = .EFBIG ∧ SFS_NDIRECT + SFS_DBPERIDB ≤ k ∨ e = .ENOSPC ∧ x.vol.Tight 1

/-- How `sfs_bmap` fails: only for a block that is not there and would have to be. -/
structure MapFails (F : Nat → Prop) (x : Inode) (k : Nat) (doalloc : Bool) (e : Errno)
    (x' : Inode) : Prop where
  grows : Grows F x x'
  missing : x.mapped k = 0
  same : doalloc = false → x' = x
  reason : x.Lacks k e
  full : e = .ENOSPC → doalloc = true ∧ x'.vol.Tight 0

theorem MapFails.needed {doalloc : Bool} {e : Errno} {x' : Inode}
    (h : MapFails F x k doalloc e x') (hk : k < SFS_NDIRECT + SFS_DBPERIDB) : doalloc = true := by
  rcases h.reason with ⟨-, hge⟩ | ⟨he, -⟩
  · exact absurd hk (Nat.not_lt.2 hge)
  · exact (h.full he).1

/-- The end of `sfs_bmap` after a block was attached. -/
theorem Grows.wp_handBack {y : Inode} {fb : UInt32} (h : Grows F x y) (hmap : y.mapped k = b)
    (hb : b ≠ 0) :
    (handBack b fb).Safe (Maps F x k true) (MapFails F x k true) y := by
  have htaken := h.own.mapped_taken (hmap.symm ▸ hb)
  rw [hmap] at htaken
  refine (wp_of_ok (handBack_eq fun _ => htaken)).2 ⟨h, hmap.symm, fun _ => hb, ?_⟩
  exact fun hf => by cases hf

theorem Own.wp_bmapDirect (h : x.Own F) {fb : UInt32} (i : Fin SFS_NDIRECT) (hi : fb.toNat = i)
    (doalloc : Bool) :
    (bmapDirect fb doalloc).Safe (Maps F x i doalloc) (MapFails F x i doalloc) x := by
  have hfin : Fin.ofNat SFS_NDIRECT fb.toNat = i := by
    rw [hi]
    exact Fin.ofNat_val_eq_self i
  have hlt : i.val < SFS_NDIRECT + SFS_DBPERIDB := Nat.lt_add_right _ i.2
  simp only [bmapDirect, wp_bind, wp_read, hfin, ← mapped_direct]
  split
  · next hnew =>
    obtain ⟨hz, rfl⟩ := hnew
    simp only [onVol, wp_bind, wp_zoom, wp_modify]
    refine (Volume.wp_sfsBalloc h.sound).imp₂ (fun b vol hb => ?_) fun _ vol he => ?_
    · obtain ⟨hfresh, rfl⟩ := hb
      obtain ⟨hgrow, hmap⟩ :=
        h.attachData hfresh hlt (fun hge => absurd i.2 (Nat.not_lt.2 hge)) hz
      rw [attachData_direct] at hgrow hmap
      exact hgrow.wp_handBack hmap (h.fresh_ne_zero hfresh)
    · obtain ⟨⟨rfl, htight⟩, rfl⟩ := he
      exact ⟨.refl h, hz, fun _ => rfl, .inr ⟨rfl, htight.mono (Nat.zero_le 1)⟩,
        fun _ => ⟨rfl, htight⟩⟩
  · next hold =>
    refine (wp_of_ok (handBack_eq h.mapped_taken)).2 ⟨.refl h, rfl, fun hdo hz => ?_,
      fun _ => rfl⟩
    exact hold ⟨hz, hdo⟩

/-- The indirect block is there, and its entries are known. -/
structure Loads (F : Nat → Prop) (x : Inode) (r : UInt32 × (Fin SFS_DBPERIDB → UInt32))
    (y : Inode) :
    Prop where
  grows : Grows F x y
  present : y.sv.sv_i.sfi_indirect ≠ 0
  block : r.1 = y.sv.sv_i.sfi_indirect
  entries : r.2 = (y.vol.sectors y.sv.sv_i.sfi_indirect.toNat).words
  same : x.sv.sv_i.sfi_indirect ≠ 0 → y = x
  tight : y.vol.Tight 0 → x.vol.Tight 1

theorem Own.wp_loadIndirect (h : x.Own F) :
    loadIndirect.Safe (Loads F x)
      (fun e y => (e = .ENOSPC ∧ x.vol.Tight 0) ∧ x.sv.sv_i.sfi_indirect = 0 ∧ y = x) x := by
  simp only [loadIndirect, wp_bind, wp_read]
  split
  · next hz =>
    simp only [onVol, wp_bind, wp_zoom, wp_modify, wp_pure]
    refine (Volume.wp_sfsBalloc h.sound).imp₂ (fun b vol hb => ?_) fun _ vol he => ?_
    · obtain ⟨hfresh, rfl⟩ := hb
      refine ⟨h.attachIndirect hfresh hz, h.fresh_ne_zero hfresh, rfl, ?_,
        fun hne => absurd hz hne, Volume.Tight.of_alloc⟩
      funext j
      change 0 = ((x.vol.alloc b).sectors b.toNat).words j
      rw [Volume.alloc, Volume.sectors_write_self, words_zeros]
    · exact ⟨he.1, hz, by rw [he.2]⟩
  · next hne =>
    have hlt := (h.taken (s := .indirect) hne).1
    have hread := h.sound.quiet.sfsReadblock (UInt32.lt_iff_toNat_lt.2 hlt)
    simp only [onVol, wp_bind, wp_zoom, wp_pure]
    exact (wp_of_ok hread).2
      ⟨.refl h, hne, rfl, rfl, fun _ => rfl, fun ht => ht.mono (Nat.zero_le 1)⟩

theorem Own.wp_bmapIndirect (h : x.Own F) {fb : UInt32} (j : Fin SFS_DBPERIDB) (hj : fb.toNat = j)
    (doalloc : Bool) :
    (bmapIndirect fb doalloc).Safe (Maps F x (SFS_NDIRECT + j) doalloc)
      (MapFails F x (SFS_NDIRECT + j) doalloc) x := by
  have hjlt : j.val < 128 := j.2
  have hnum : ¬ SFS_NINDIRECT ≤ fb.toNat / SFS_DBPERIDB := by
    change ¬ 1 ≤ fb.toNat / 128
    omega
  have hoff : Fin.ofNat SFS_DBPERIDB (fb.toNat % SFS_DBPERIDB) = j := by
    rw [hj, Nat.mod_eq_of_lt j.2]
    exact Fin.ofNat_val_eq_self j
  have hlt : SFS_NDIRECT + j.val < SFS_NDIRECT + SFS_DBPERIDB := Nat.add_lt_add_left j.2 _
  simp only [bmapIndirect, wp_bind, wp_read, if_neg hnum, hoff]
  split
  · next hnone =>
    refine wp_pure.2 ⟨.refl h, ?_, fun hdo => ?_, fun _ => rfl⟩
    · rw [mapped_none hnone.1 (Nat.le_add_right ..)]
    · rw [hnone.2] at hdo
      cases hdo
  · next hsome =>
    have hdo : doalloc = false → x.sv.sv_i.sfi_indirect ≠ 0 := fun hd hz => hsome ⟨hz, hd⟩
    simp only [wp_bind]
    refine h.wp_loadIndirect.imp₂ (fun r y hr => ?_) fun _ y he => ?_
    · obtain ⟨idblock, idbuf⟩ := r
      obtain ⟨hgrow, hid, rfl, rfl, hsame, htight⟩ := hr
      have hown := hgrow.own
      simp only [words_eq_mapped hid]
      split
      · next hnew =>
        obtain ⟨hz, rfl⟩ := hnew
        simp only [onVol, wp_bind, wp_zoom]
        refine (Volume.wp_sfsBalloc hown.sound).imp₂ (fun b vol hb => ?_) fun _ vol he => ?_
        · obtain ⟨hfresh, rfl⟩ := hb
          obtain ⟨hgrow', hmap⟩ := hown.attachData hfresh hlt (fun _ => hid) hz
          rw [attachData_entry] at hgrow' hmap
          have hq : (y.vol.alloc b).Quiet := ⟨hown.sound.quiet.faults, hown.sound.quiet.blocks⟩
          have hidlt := UInt32.lt_iff_toNat_lt.2 (hown.taken (s := .indirect) hid).1
          refine (wp_of_ok (hq.sfsWriteblock hidlt)).2 ?_
          exact (hgrow.trans hgrow').wp_handBack hmap (hown.fresh_ne_zero hfresh)
        · obtain ⟨⟨rfl, hfull⟩, rfl⟩ := he
          refine ⟨hgrow, ?_, fun hf => (by cases hf), .inr ⟨rfl, htight hfull⟩,
            fun _ => ⟨rfl, hfull⟩⟩
          by_contra hne
          have hxy := hsame (indirect_of_mapped (Nat.le_add_right ..) hne)
          exact hne (hxy ▸ hz)
      · next hold =>
        refine (wp_of_ok (handBack_eq hown.mapped_taken)).2 ⟨hgrow, rfl, ?_, ?_⟩
        · exact fun hd hz => hold ⟨hz, hd⟩
        · exact fun hd => hsame (hdo hd)
    · obtain ⟨⟨rfl, hfull⟩, hz, rfl⟩ := he
      refine ⟨.refl h, mapped_none hz (Nat.le_add_right ..), fun _ => rfl,
        .inr ⟨rfl, hfull.mono (Nat.zero_le 1)⟩, fun _ => ⟨?_, hfull⟩⟩
      exact Bool.of_not_eq_false fun hd => hdo hd hz

/-- Whether a block is behind those of the indirect block. -/
theorem nindirect_le_iff {fb : UInt32} (h : ¬ fb.toNat < SFS_NDIRECT) :
    SFS_NINDIRECT ≤ (fb - UInt32.ofNat SFS_NDIRECT).toNat / SFS_DBPERIDB ↔
      SFS_NDIRECT + SFS_DBPERIDB ≤ fb.toNat := by
  rw [UInt32.toNat_sub_of_le _ _ (UInt32.le_iff_toNat_le.2 (Nat.not_lt.1 h))]
  change 1 ≤ (fb.toNat - 15) / 128 ↔ 143 ≤ fb.toNat
  omega

/-- A file has no blocks behind those of the indirect block. -/
theorem sfsBmap_efbig {fb : UInt32} (h : SFS_NDIRECT + SFS_DBPERIDB ≤ fb.toNat) (doalloc : Bool) :
    sfsBmap fb doalloc x = .ok (.error .EFBIG, x) := by
  have hge : ¬ fb.toNat < SFS_NDIRECT := by omega
  rw [sfsBmap, if_neg hge]
  simp only [bmapIndirect, if_pos ((nindirect_le_iff hge).2 h)]
  rfl

/-- `sfs_bmap` hands back the block of the file, and gives the inode fresh blocks at most. -/
theorem Own.wp_sfsBmap (h : x.Own F) (fb : UInt32) (doalloc : Bool) :
    (sfsBmap fb doalloc).Safe
      (fun b x' => fb.toNat < SFS_NDIRECT + SFS_DBPERIDB ∧ Maps F x fb.toNat doalloc b x')
      (MapFails F x fb.toNat doalloc) x := by
  rcases Dinode.fileBlock_cases fb.toNat with ⟨i, hi⟩ | ⟨j, hj⟩ | hbig
  · rw [sfsBmap, if_pos (hi ▸ i.2), hi]
    exact (h.wp_bmapDirect i hi doalloc).imp fun _ _ hm => ⟨Nat.lt_add_right _ i.2, hm⟩
  · have hge : UInt32.ofNat SFS_NDIRECT ≤ fb := by
      rw [UInt32.le_iff_toNat_le, hj]
      exact Nat.le_add_right ..
    have hsub : (fb - UInt32.ofNat SFS_NDIRECT).toNat = j := by
      rw [UInt32.toNat_sub_of_le _ _ hge, hj]
      exact Nat.add_sub_cancel_left ..
    rw [sfsBmap, if_neg (by omega), hj]
    exact (h.wp_bmapIndirect j hsub doalloc).imp fun _ _ hm => ⟨Nat.add_lt_add_left j.2 _, hm⟩
  · exact (wp_of_error (sfsBmap_efbig hbig doalloc)).2 ⟨.refl h, mapped_behind hbig, fun _ => rfl,
      .inl ⟨rfl, hbig⟩, fun he => (by cases he)⟩

end Inode

end DemandPaging
