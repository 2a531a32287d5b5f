import DemandPaging.Sfs.BlockMap
import DemandPaging.Sfs.FileIo

set_option autoImplicit false

/-! # The two paths to a block

A part of a block goes through `sfs_readblock` and `sfs_writeblock`, whose `SFSUIO` computes the
offset on the device in 64 bits. A whole block goes through `sfs_blockio`, which computes it in the
32 bits of a `daddr_t`. Both also put the number of the block of the file into 32 bits.

So the two paths meet at the same sector where the block number is below `2 ^ 23`, and the block of
the file is the right one where it has not lost bits, or where `sfs_bmap` refuses it anyway. -/

namespace DemandPaging

open Caller (UioRw)
open Fallible

namespace Uio

/-- The `uio` of a whole block for the device. -/
def toDevice (u : Uio) (offset : Nat) : Uio :=
  { u with uio_offset := offset, uio_resid := SFS_BLOCKSIZE }

/-- The `uio` with its own position and amount again, moved on. -/
def ofDevice (u v : Uio) (offset : Nat) : Uio :=
  { v with
    uio_offset := v.uio_offset - offset + u.uio_offset
    uio_resid := v.uio_resid + u.uio_resid - SFS_BLOCKSIZE }

variable {u v : Uio} {offset : Nat} {bs : List UInt8}

/-- What the device moved was moved. -/
theorem Moved.ofDevice (h : Moved (u.toDevice offset) bs v) (hres : SFS_BLOCKSIZE ≤ u.uio_resid) :
    Moved u bs (u.ofDevice v offset) := by
  have hoff : v.uio_offset = offset + bs.length := h.offset
  have hresid : v.uio_resid + bs.length = SFS_BLOCKSIZE := h.resid
  constructor
  case offset =>
    change v.uio_offset - offset + u.uio_offset = _
    omega
  case resid =>
    change v.uio_resid + u.uio_resid - SFS_BLOCKSIZE + bs.length = _
    omega
  case iov => exact h.iov
  case rw => exact h.rw
  case moved => exact h.moved
  case out => exact h.out
  case copies => exact h.copies

end Uio

/-! ## Looking up a block changes nothing -/

namespace Inode

variable {x : Inode} {fb : UInt32}

theorem wp_handBack (b : UInt32) :
    (handBack b fb).Wp (fun _ x' => x' = x) (fun _ _ => False) (fun _ => True) x := by
  simp only [handBack, wp_bind, wp_read]
  split
  · simp only [onVol, Volume.sfsBused, wp_bind, wp_zoom, wp_read, wp_ite, wp_crash, wp_pure]
    simp
  · exact rfl

/-- A reader leaves the volume alone. It fails only where no file has a block. -/
theorem wp_sfsBmap_read (hq : x.vol.faults = []) :
    (sfsBmap fb false).Wp (fun _ x' => x' = x)
      (fun _ _ => SFS_NDIRECT + SFS_DBPERIDB ≤ fb.toNat) (fun _ => True) x := by
  rw [sfsBmap]
  split
  · simp only [bmapDirect, wp_bind, wp_read, Bool.false_eq_true, and_false, if_false]
    exact (wp_handBack _).noFail
  · next hge =>
    simp only [bmapIndirect, loadIndirect, wp_bind, wp_read, wp_ite, wp_fail, wp_pure]
    refine ⟨fun hnum => (nindirect_le_iff hge).1 hnum,
      fun _ => ⟨fun _ => trivial, fun hid => ⟨?_, fun _ => ?_⟩⟩⟩
    · exact fun hz => absurd ⟨hz, trivial⟩ hid
    · simp only [onVol, wp_zoom]
      refine (Volume.wp_sfsReadblock hq).mono (fun b vol h => ?_) (fun _ _ h => h.elim)
        fun _ _ => trivial
      obtain ⟨-, rfl⟩ := h
      exact ⟨fun hd => (by cases hd.2), fun _ => (wp_handBack _).noFail⟩

end Inode

namespace SfsIo

variable {x y x' : SfsIo} {b : UInt32}

/-! ## A whole block -/

/-- The sector that `sfs_blockio` addresses. -/
theorem diskoff_div (b : UInt32) : diskoff b / SFS_BLOCKSIZE = b.toNat % 2 ^ 23 := by
  change (b * UInt32.ofNat 512).toNat / 512 = _
  rw [UInt32.toNat_mul]
  change b.toNat * 512 % 2 ^ 32 / 512 = _
  omega

theorem diskoff_mod (b : UInt32) : diskoff b % SFS_BLOCKSIZE = 0 := by
  change (b * UInt32.ofNat 512).toNat % 512 = _
  rw [UInt32.toNat_mul]
  change b.toNat * 512 % 2 ^ 32 % 512 = _
  omega

/-- The block was transferred, from or to this sector. -/
def Transferred (x : SfsIo) (sector : Nat) (x' : SfsIo) : Prop :=
  ∃ bs, x.uio.MovedAll (x.vol.sectors sector).toList bs x'.uio ∧ x'.sv = x.sv ∧
    x'.vol = if x.uio.uio_rw = .UIO_WRITE then x.vol.write sector (Block.ofList bs) else x.vol

/-- The transfer of a whole block. -/
theorem wp_blockTransfer (hq : x.vol.faults = []) (hb : b ≠ 0) (hfit : x.uio.Fits) :
    (blockTransfer b).Wp (fun _ x' => x.Transferred (b.toNat % 2 ^ 23) x')
      (fun e x' => (e = .EFAULT ∧ false ∈ x.uio.copies) ∧ x'.vol = x.vol ∧ x'.sv = x.sv)
      (fun _ => x.uio.uio_resid < SFS_BLOCKSIZE ∨ x.vol.d_blocks ≤ b.toNat % 2 ^ 23) x := by
  have hsec : (⟨x.vol, x.uio.toDevice (diskoff b)⟩ : Request).sector = b.toNat % 2 ^ 23 :=
    diskoff_div b
  simp only [blockTransfer, wp_bind, wp_read, if_neg hb, wp_check, wp_modify, wp_attempt, onRequest,
    wp_zoom]
  refine ⟨fun hres => ?_, fun h => .inl (Nat.not_le.1 h)⟩
  have hfor : (⟨x.vol, x.uio.toDevice (diskoff b)⟩ : Request).ForSector :=
    ⟨hq, ⟨hres.trans hfit.1, (by decide : SFS_BLOCKSIZE < 2 ^ 32)⟩, diskoff_mod b, rfl⟩
  refine (Request.wp_sfsRwblock hfor).mono (fun _ r h => ?_) (fun _ r h => ?_) fun _ h => ?_
  · obtain ⟨bs, ⟨hm, hlen, hread⟩, hvol⟩ := h
    rw [hsec] at hlen hread hvol
    exact ⟨bs, ⟨hm.ofDevice hres, hlen, hread⟩, rfl, hvol⟩
  · exact ⟨⟨h.1, h.2.1⟩, h.2.2.1, rfl⟩
  · rw [hsec] at h
    exact .inr h

/-! ## The two paths meet -/

/-- Looking up the block leaves the request alone. -/
theorem uio_mapBlock (h : mapBlock x = .ok (.ok b, y)) : y.uio = x.uio := by
  have hwp : mapBlock.Wp (fun _ y => y.uio = x.uio) (fun _ _ => True) (fun _ => True) x := by
    simp only [mapBlock, onInode, wp_bind, wp_read, wp_zoom]
    exact .of_forall (fun _ _ => trivial) (fun _ _ => trivial) fun _ => trivial
  exact hwp.of_ok h

/-- A reader looks up a block. -/
theorem vol_mapBlock_read (hq : x.vol.faults = []) (hr : x.uio.uio_rw = .UIO_READ)
    (h : mapBlock x = .ok (.ok b, y)) : y.vol = x.vol := by
  have hwp : mapBlock.Wp (fun _ y => y.vol = x.vol) (fun _ _ => True) (fun _ => True) x := by
    simp only [mapBlock, onInode, wp_bind, wp_read, wp_zoom, hr]
    refine (Inode.wp_sfsBmap_read hq).imp₂ (fun _ z hz => ?_) fun _ _ _ => trivial
    rw [hz]
  exact hwp.of_ok h

/-- A whole block, when its number is known. -/
theorem transferred_of_sfsBlockio (hmap : mapBlock x = .ok (.ok b, y)) (hq : y.vol.faults = [])
    (hb : b ≠ 0) (hfit : x.uio.Fits) (hrun : sfsBlockio x = .ok (.ok (), x')) :
    y.Transferred (b.toNat % 2 ^ 23) x' := by
  have hfit' : y.uio.Fits := (uio_mapBlock hmap).symm ▸ hfit
  have hrest : blockTransfer b y = .ok (.ok (), x') := (bind_of_ok hmap).symm.trans hrun
  exact (wp_blockTransfer hq hb hfit').of_ok hrest

/-- What a reader of the code expects of a block number and a position in a file: the two paths have
    the same offset on the device, the block of the file is the one of the position or there is no
    such block, and what one path writes the other reads, where the disk refuses nothing. -/
structure SameSector (b : UInt32) (offset : Nat) : Prop where
  address : ∀ data rw, diskoff b = (Volume.sfsUio data b rw).uio_offset
  quotient : ∀ x : SfsIo, x.uio.uio_offset = offset →
    (fileblock x.uio).toNat = offset / SFS_BLOCKSIZE ∨
      ∃ y, mapBlock x = .ok (.error .EFBIG, y)
  whole_part : ∀ x y x' data vol, b ≠ 0 → x.uio.Fits → x.uio.uio_rw = .UIO_WRITE →
    mapBlock x = .ok (.ok b, y) → y.vol.faults = [] → sfsBlockio x = .ok (.ok (), x') →
    Volume.sfsReadblock b x'.vol = .ok (.ok data, vol) →
    data.toList = x.uio.uio_iov.flatten.take SFS_BLOCKSIZE
  part_whole : ∀ x y x' data vol, b ≠ 0 → x.uio.Fits → x.uio.uio_rw = .UIO_READ →
    vol.faults = [] → Volume.sfsWriteblock b data vol = .ok (.ok (), x.vol) →
    mapBlock x = .ok (.ok b, y) → sfsBlockio x = .ok (.ok (), x') →
    x'.uio.moved = x.uio.moved ++ data.toList

theorem fileblock_toNat (u : Uio) :
    (fileblock u).toNat = u.uio_offset / SFS_BLOCKSIZE % 2 ^ 32 := by
  rw [fileblock, UInt32.toNat_ofNat']

/-- A block that no file has is refused. -/
theorem mapBlock_efbig (h : SFS_NDIRECT + SFS_DBPERIDB ≤ (fileblock x.uio).toNat) :
    mapBlock x = .ok (.error .EFBIG, x) := by
  have hrun : mapBlock x = onInode (Inode.sfsBmap (fileblock x.uio) _) x := rfl
  rw [hrun, onInode, Fallible.zoom, Inode.sfsBmap_efbig h]

/-- A request to write at a position, for a file without blocks on a full volume. -/
def writeAt (offset : Nat) : SfsIo where
  vol :=
    { sb_volname := "vol"
      sb_nblocks := 8
      sfs_freemap := ⟨8, fun _ => true⟩
      sfs_freemapdirty := false
      sectors := fun _ => Block.zeros
      d_blocks := 8
      faults := [] }
  sv :=
    { sv_ino := 3
      sv_i := ⟨0, SFS_TYPE_FILE, 1, fun _ => 0, 0, fun _ => 0⟩
      sv_dirty := false
      vn_refcount := 1 }
  uio := ⟨[[1]], offset, 1, .UIO_WRITE, [], []⟩

/-- Any other block that the writer comes to is looked for in vain, not refused. -/
theorem le_of_mapBlock_writeAt {offset : Nat}
    (h : mapBlock (writeAt offset) = .ok (.error .EFBIG, y)) :
    SFS_NDIRECT + SFS_DBPERIDB ≤ (fileblock (writeAt offset).uio).toNat := by
  have hfull : Volume.sfsBalloc.Wp (fun _ _ => False) (fun e _ => e = .ENOSPC) (fun _ => False)
      (writeAt offset).vol := by
    have hnone : firstWord (fun _ => true) 8 1 = none := by decide
    simp only [Volume.sfsBalloc, Volume.bitmapAlloc, wp_bind, wp_read, writeAt, hnone, wp_fail]
  have hnone : (writeAt offset).sv.sv_i.sfi_indirect = 0 := rfl
  have hwp : mapBlock.Wp (fun _ _ => True) (fun e _ => e = .EFBIG → SFS_NDIRECT + SFS_DBPERIDB ≤
      (fileblock (writeAt offset).uio).toNat) (fun _ => True) (writeAt offset) := by
    simp only [mapBlock, onInode, wp_bind, wp_read, wp_zoom, Inode.sfsBmap]
    split
    · simp only [Inode.bmapDirect, Inode.onVol, wp_bind, wp_read, wp_ite, wp_zoom]
      refine ⟨fun _ => hfull.mono (fun _ _ => False.elim) (fun e _ he hbig => ?_)
        fun _ => False.elim, fun hno => absurd ⟨rfl, rfl⟩ hno⟩
      rw [he] at hbig
      cases hbig
    · next hge =>
      simp only [Inode.bmapIndirect, Inode.loadIndirect, Inode.onVol, wp_bind, wp_read, wp_ite,
        wp_zoom, wp_fail]
      refine ⟨fun hnum _ => (Inode.nindirect_le_iff hge).1 hnum, fun _ => ⟨fun hz => ?_, fun _ =>
        ⟨fun _ => hfull.mono (fun _ _ => False.elim) (fun e _ he hbig => ?_) fun _ => False.elim,
          fun hno => ?_⟩⟩⟩
      · cases hz.2
      · rw [he] at hbig
        cases hbig
      · contradiction
  exact (wp_of_error h).1 hwp rfl

/-- The two paths go to the same sector for the block numbers below `2 ^ 23`, and the block of the
    file is right for the positions below `2 ^ 41` and for those where what is left of the block
    number is refused. -/
theorem sameSector_iff (b : UInt32) (offset : Nat) :
    SameSector b offset ↔
      b.toNat < 2 ^ 23 ∧ (offset / SFS_BLOCKSIZE < 2 ^ 32 ∨
        SFS_NDIRECT + SFS_DBPERIDB ≤ offset / SFS_BLOCKSIZE % 2 ^ 32) := by
  constructor
  · intro h
    constructor
    · have haddr : diskoff b = b.toNat * SFS_BLOCKSIZE := h.address Block.zeros .UIO_READ
      have hdiv := diskoff_div b
      rw [haddr, Nat.mul_div_cancel _ (by decide)] at hdiv
      omega
    · by_contra hnot
      obtain ⟨hbig, hlow⟩ := not_or.1 hnot
      have hfb := fileblock_toNat (writeAt offset).uio
      change _ = offset / SFS_BLOCKSIZE % 2 ^ 32 at hfb
      rcases h.quotient (writeAt offset) rfl with heq | ⟨y, hefbig⟩
      · omega
      · have := le_of_mapBlock_writeAt hefbig
        omega
  · rintro ⟨hsmall, hoff⟩
    have hmod : b.toNat % 2 ^ 23 = b.toNat := Nat.mod_eq_of_lt hsmall
    constructor
    case address =>
      intro data rw
      have hdiv := diskoff_div b
      have hrem := diskoff_mod b
      change diskoff b = b.toNat * SFS_BLOCKSIZE
      rw [hmod] at hdiv
      rw [← hdiv, Nat.div_mul_cancel (Nat.dvd_of_mod_eq_zero hrem)]
    case quotient =>
      intro x hx
      have hfb := fileblock_toNat x.uio
      rw [hx] at hfb
      rcases hoff with hlt | hge
      · exact .inl (hfb.trans (Nat.mod_eq_of_lt hlt))
      · exact .inr ⟨x, mapBlock_efbig (by omega)⟩
    case whole_part =>
      intro x y x' data vol hb hfit hw hmap hq hrun hread
      have huio := uio_mapBlock hmap
      obtain ⟨bs, ⟨hm, hlen, -⟩, -, hvol⟩ := transferred_of_sfsBlockio hmap hq hb hfit hrun
      rw [Block.length_toList] at hlen
      rw [huio, if_pos hw, hmod] at hvol
      have hdata := ((Volume.wp_sfsReadblock (by rw [hvol]; exact hq)).of_ok hread).1
      rw [hvol, Volume.sectors_write_self] at hdata
      have hout := hm.out (by rw [huio, hw])
      rw [hlen, huio] at hout
      rw [hdata, Block.toList_ofList hlen, hout]
    case part_whole =>
      intro x y x' data vol hb hfit hr hq hwrite hmap hrun
      have huio := uio_mapBlock hmap
      have hvol := (Volume.wp_sfsWriteblock hq).of_ok hwrite
      have hvol' := vol_mapBlock_read (by rw [hvol]; exact hq) hr hmap
      obtain ⟨bs, ⟨hm, -, hread⟩, -, -⟩ :=
        transferred_of_sfsBlockio hmap (by rw [hvol', hvol]; exact hq) hb hfit hrun
      have hsec : y.vol.sectors b.toNat = data := by
        rw [hvol', hvol]
        exact Volume.sectors_write_self vol ..
      have hbs := hread (by rw [huio, hr])
      rw [hmod, hsec] at hbs
      rw [hm.moved, huio, hbs]

/-- The block `2 ^ 23` is at 4G, but a whole block is written to the superblock; and who writes at
    the position `2 ^ 41` comes to the beginning of the file. -/
theorem not_sameSector : ¬ SameSector 8388608 0 ∧ ¬ SameSector 5 2199023255552 := by
  constructor
  · intro h
    exact absurd (h.address Block.zeros .UIO_READ) (by decide)
  · intro h
    rcases h.quotient (writeAt 2199023255552) rfl with heq | ⟨y, hefbig⟩
    · exact absurd heq (by decide)
    · exact absurd (le_of_mapBlock_writeAt hefbig) (by decide)

end SfsIo

end DemandPaging
