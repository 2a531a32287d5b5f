import DemandPaging.Lib.Overlay
import DemandPaging.Sfs.Addresses

set_option autoImplicit false

/-! # What files read and write

A file is read as an array of bytes without an end: a block that is not there is zero.
`sfs_partialio`, `sfs_blockio` and `sfs_io` take bytes out of this array or put bytes into it, at
the position of the `uio`, and leave the blocks of everybody else alone.

The position is cut to 32 bits of block number, so the bytes are those of the position as long as
this is below `2 ^ 41`. -/

namespace DemandPaging

open Caller (UioRw)
open Fallible

namespace Block

theorem getElem_toList (d : Block) {t : Nat} (h : t < d.toList.length) :
    d.toList[t] = d (Fin.ofNat SFS_BLOCKSIZE t) := by
  have hlt : t < SFS_BLOCKSIZE := by rwa [length_toList] at h
  have hval : (Fin.ofNat SFS_BLOCKSIZE t).val = t := Nat.mod_eq_of_lt hlt
  have hself := congrFun (ofList_toList d) (Fin.ofNat SFS_BLOCKSIZE t)
  rw [ofList, hval, List.getD_eq_getElem _ _ h] at hself
  exact hself

theorem splice_apply (d : Block) {skip : Nat} {part : List UInt8}
    (h : skip + part.length ≤ SFS_BLOCKSIZE) (i : Fin SFS_BLOCKSIZE) :
    d.splice skip part i = overlay (fun t => d (Fin.ofNat SFS_BLOCKSIZE t)) skip part i := by
  have hi := i.2
  have hfin : Fin.ofNat SFS_BLOCKSIZE i.val = i := Fin.ofNat_val_eq_self i
  have htake : (d.toList.take skip).length = skip := by
    rw [List.length_take, length_toList]
    omega
  have hlen :
      i.val < (d.toList.take skip ++ part ++ d.toList.drop (skip + part.length)).length := by
    rw [List.length_append, List.length_append, htake, List.length_drop, length_toList]
    omega
  have hfront : (d.toList.take skip ++ part).length = skip + part.length := by
    rw [List.length_append, htake]
  rw [splice, ofList, List.getD_eq_getElem _ _ hlen]
  rcases Nat.lt_or_ge i.val skip with hlo | hlo
  · rw [overlay_of_not (.inl hlo), hfin, List.getElem_append_left (by omega),
      List.getElem_append_left (by omega), List.getElem_take, getElem_toList, hfin]
  · rcases Nat.lt_or_ge i.val (skip + part.length) with hhi | hhi
    · have ht : i.val - skip < part.length := by omega
      rw [overlay_of_mem ht (by omega), List.getElem_append_left (by omega),
        List.getElem_append_right (by omega)]
      simp only [htake]
    · rw [overlay_of_not (.inr hhi), hfin, List.getElem_append_right (by omega), List.getElem_drop,
        getElem_toList]
      simp only [hfront]
      rw [show skip + part.length + (i.val - (skip + part.length)) = i.val by omega, hfin]

theorem toList_zeros : zeros.toList = List.replicate SFS_BLOCKSIZE 0 := by
  refine List.ext_getElem (by rw [length_toList, List.length_replicate]) fun t ht _ => ?_
  rw [getElem_toList, List.getElem_replicate]
  rfl

theorem splice_nil (d : Block) {skip : Nat} (h : skip ≤ SFS_BLOCKSIZE) : d.splice skip [] = d := by
  funext i
  rw [splice_apply d (by rwa [List.length_nil]), overlay_nil, Fin.ofNat_val_eq_self]

/-- A whole block replaced. -/
theorem splice_all (d : Block) {bs : List UInt8} (h : bs.length = SFS_BLOCKSIZE) :
    d.splice 0 bs = ofList bs := by
  rw [splice, List.take_zero, List.nil_append, Nat.zero_add, h,
    List.drop_of_length_le (by rw [length_toList]), List.append_nil]

end Block

namespace Inode

variable {x x' : Inode} {F : Nat → Prop} {k : Nat}

/-! ## Bytes -/

/-- A byte of the file. -/
def byte (x : Inode) (p : Nat) : UInt8 := x.fileData (p / SFS_BLOCKSIZE) (Fin.ofNat SFS_BLOCKSIZE p)

theorem byte_congr (h : ∀ k, x'.fileData k = x.fileData k) : x'.byte = x.byte := by
  funext p
  rw [byte, byte, h]

/-- A file without blocks has nothing but zeros. -/
theorem byte_of_slots (h : ∀ s, x.slot s = 0) : x.byte = fun _ => 0 := by
  funext p
  have hno : x.mapped (p / SFS_BLOCKSIZE) = 0 := by
    by_contra hz
    exact hz (h (.data ⟨_, lt_of_mapped hz⟩))
  rw [byte, fileData, if_pos hno]
  rfl

/-- A stretch of bytes inside a block. -/
theorem extract_byte {o n : Nat} (h : o % SFS_BLOCKSIZE + n ≤ SFS_BLOCKSIZE) :
    extract x.byte o n
      = ((x.fileData (o / SFS_BLOCKSIZE)).toList.drop (o % SFS_BLOCKSIZE)).take n := by
  have hpos : 0 < SFS_BLOCKSIZE := by decide
  refine List.ext_getElem ?_ fun t ht ht' => ?_
  · rw [length_extract, List.length_take, List.length_drop, Block.length_toList]
    omega
  · rw [length_extract] at ht
    have hdiv : (o + t) / SFS_BLOCKSIZE = o / SFS_BLOCKSIZE := by
      change (o + t) / 512 = o / 512
      change o % 512 + n ≤ 512 at h
      omega
    rw [getElem_extract, List.getElem_take, List.getElem_drop, Block.getElem_toList, byte, hdiv]
    congr 1
    refine Fin.ext ?_
    change (o + t) % 512 = (o % 512 + t) % 512
    omega

/-- Some bytes of a block replaced. -/
theorem byte_splice {o : Nat} {part : List UInt8}
    (h : o % SFS_BLOCKSIZE + part.length ≤ SFS_BLOCKSIZE)
    (hdata : ∀ l, x'.fileData l =
      if l = o / SFS_BLOCKSIZE then (x.fileData (o / SFS_BLOCKSIZE)).splice (o % SFS_BLOCKSIZE) part
      else x.fileData l) : x'.byte = overlay x.byte o part := by
  change o % 512 + part.length ≤ 512 at h
  funext p
  rw [byte, hdata]
  by_cases hblock : p / SFS_BLOCKSIZE = o / SFS_BLOCKSIZE
  · rw [if_pos hblock, ← hblock, Block.splice_apply _ h]
    change p / 512 = o / 512 at hblock
    change overlay _ (o % 512) part (p % 512) = _
    rcases Nat.lt_or_ge p o with hlo | hlo
    · rw [overlay_of_not (.inl (by omega)), overlay_of_not (.inl hlo), byte]
      congr 1
      exact Fin.ext (Nat.mod_mod ..)
    · rcases Nat.lt_or_ge p (o + part.length) with hhi | hhi
      · have ht : p - o < part.length := by omega
        rw [overlay_of_mem ht (by omega), overlay_of_mem ht (by omega)]
      · rw [overlay_of_not (.inr (by omega)), overlay_of_not (.inr hhi), byte]
        congr 1
        exact Fin.ext (Nat.mod_mod ..)
  · change p / 512 ≠ o / 512 at hblock
    rw [if_neg hblock, overlay_of_not (by omega), byte]

/-! ## Writing a block of the file -/

/-- The inode with one of its blocks overwritten. -/
def writeData (k : Nat) (d : Block) (x : Inode) : Inode :=
  { x with vol := x.vol.write (x.mapped k).toNat d }

/-- The block is none of the map, so the map stays. -/
theorem Own.mapped_writeData (h : x.Own F) (hz : x.mapped k ≠ 0) (d : Block) (l : Nat) :
    (writeData k d x).mapped l = x.mapped l := by
  have hne : x.sv.sv_i.sfi_indirect ≠ 0 → x.sv.sv_i.sfi_indirect.toNat ≠ (x.mapped k).toNat := by
    intro hid heq
    cases h.inj (s := .indirect) (t := .data ⟨k, lt_of_mapped hz⟩) hid hz heq
  exact mapped_congr (by rfl) (by rfl) (fun hid => Volume.sectors_write_of_ne (hne hid) ..) l

theorem Own.writeData (h : x.Own F) (hz : x.mapped k ≠ 0) (d : Block) :
    Local F x (writeData k d x) ∧
      ∀ l, (writeData k d x).fileData l = if l = k then d else x.fileData l := by
  have hmap := h.mapped_writeData hz d
  have hslot : ∀ s, (Inode.writeData k d x).slot s = x.slot s := by
    intro s
    cases s with
    | data l => exact hmap l
    | indirect => rfl
  have hnot : ¬ F (x.mapped k).toNat := h.notForeign (s := .data ⟨k, lt_of_mapped hz⟩) hz
  refine ⟨⟨⟨?_, h.zero, ?_⟩, fun c hc => ?_, ⟨rfl, rfl, rfl, rfl, rfl⟩, rfl, rfl, rfl, rfl,
    fun _ => rfl⟩, fun l => ?_⟩
  · exact h.sound.of_sameDisk ⟨rfl, rfl, rfl, rfl, rfl⟩ fun _ _ hm => hm
  · refine h.exact.congr (fun r c => ?_) fun _ => Iff.rfl
    cases r with
    | none => exact Iff.rfl
    | some s => simp only [refs, hslot]
  · refine Volume.sectors_write_of_ne ?_ ..
    rintro rfl
    exact hnot hc
  · rw [fileData, fileData, hmap]
    by_cases hl : l = k
    · subst hl
      rw [if_neg hz, if_pos rfl]
      exact Volume.sectors_write_self ..
    · rw [if_neg hl]
      split
      · rfl
      · next hml => exact Volume.sectors_write_of_ne (fun heq => hl (h.mapped_inj hz hml heq)) ..

end Inode

/-! ## A part of a transfer -/

namespace SfsIo

variable {x x' x'' : SfsIo} {F : Nat → Prop} {bs bs' : List UInt8}

/-- The volume and the vnode. -/
def inode (x : SfsIo) : Inode := ⟨x.vol, x.sv⟩

/-- The bytes `bs` were moved between the file, at the position of the `uio`, and the buffers of the
    `uio`. -/
structure Did (F : Nat → Prop) (x : SfsIo) (bs : List UInt8) (x' : SfsIo) : Prop where
  frame : Inode.Local F x.inode x'.inode
  size : x'.sv.sv_i.sfi_size = x.sv.sv_i.sfi_size
  moved : x.uio.Moved bs x'.uio
  read : x.uio.uio_rw = .UIO_READ → x'.inode = x.inode ∧
    (x.uio.uio_offset + bs.length ≤ 2 ^ 41 →
      bs = extract x.inode.byte x.uio.uio_offset bs.length)
  write : x.uio.uio_rw = .UIO_WRITE → x.uio.uio_offset + bs.length ≤ 2 ^ 41 →
    x'.inode.byte = overlay x.inode.byte x.uio.uio_offset bs
  bound : bs ≠ [] → x.uio.uio_offset + bs.length ≤ 2 ^ 41 →
    x.uio.uio_offset + bs.length ≤ (SFS_NDIRECT + SFS_DBPERIDB) * SFS_BLOCKSIZE

theorem Did.refl (h : x.inode.Own F) : Did F x [] x where
  frame := .refl h
  size := rfl
  moved := .refl _
  read := fun _ => ⟨rfl, fun _ => rfl⟩
  write := fun _ _ => overlay_nil.symm
  bound := fun hne => absurd rfl hne

theorem Did.trans (h : Did F x bs x') (h' : Did F x' bs' x'') : Did F x (bs ++ bs') x'' := by
  have hoff := h.moved.offset
  have hrw := h.moved.rw
  have hlen : (bs ++ bs').length = bs.length + bs'.length := List.length_append
  constructor
  case frame => exact h.frame.trans h'.frame
  case size => exact h'.size.trans h.size
  case moved => exact h.moved.trans h'.moved
  case read =>
    intro hr
    obtain ⟨hsame, hbs⟩ := h.read hr
    obtain ⟨hsame', hbs'⟩ := h'.read (hrw.trans hr)
    refine ⟨hsame'.trans hsame, fun hsmall => ?_⟩
    rw [hlen] at hsmall
    have hbs := hbs (by omega)
    have hbs' := hbs' (by omega)
    rw [hsame, hoff] at hbs'
    rw [hlen, ← extract_append, ← hbs, ← hbs']
  case write =>
    intro hw hsmall
    rw [hlen] at hsmall
    rw [h'.write (hrw.trans hw) (by omega), h.write hw (by omega), hoff, overlay_append]
  case bound =>
    intro hne hsmall
    rw [hlen] at hsmall ⊢
    by_cases hnil : bs' = []
    · subst hnil
      have hne : bs ≠ [] := fun e => hne (by rw [e, List.nil_append])
      exact h.bound hne (by omega)
    · have := h'.bound hnil (by omega)
      omega

/-- What is done inside one block. -/
theorem did_of_block {y : Inode} {k : Nat} (hgrow : Inode.Grows F x.inode y)
    (hk : k < SFS_NDIRECT + SFS_DBPERIDB) (hkoff : k = x.uio.uio_offset / SFS_BLOCKSIZE % 2 ^ 32)
    (hlen : x.uio.uio_offset % SFS_BLOCKSIZE + bs.length ≤ SFS_BLOCKSIZE)
    (hm : x.uio.Moved bs x'.uio)
    (hread : x.uio.uio_rw = .UIO_READ → y = x.inode ∧ x'.inode = y ∧
      bs = ((y.fileData k).toList.drop (x.uio.uio_offset % SFS_BLOCKSIZE)).take bs.length)
    (hwrite : x.uio.uio_rw = .UIO_WRITE → y.mapped k ≠ 0 ∧
      x'.inode = y.writeData k ((y.fileData k).splice (x.uio.uio_offset % SFS_BLOCKSIZE) bs)) :
    Did F x bs x' := by
  have hlen' : x.uio.uio_offset % 512 + bs.length ≤ 512 := hlen
  -- a position that is not cut
  have hexact : bs ≠ [] → x.uio.uio_offset + bs.length ≤ 2 ^ 41 →
      k = x.uio.uio_offset / SFS_BLOCKSIZE := by
    intro hne hsmall
    have hpos := List.length_pos_iff.2 hne
    rw [hkoff]
    change x.uio.uio_offset / 512 % 2 ^ 32 = x.uio.uio_offset / 512
    omega
  have hbound : bs ≠ [] → x.uio.uio_offset + bs.length ≤ 2 ^ 41 →
      x.uio.uio_offset + bs.length ≤ (SFS_NDIRECT + SFS_DBPERIDB) * SFS_BLOCKSIZE := by
    intro hne hsmall
    have hk : k < 143 := hk
    have hk' : k = x.uio.uio_offset / 512 := hexact hne hsmall
    change _ ≤ 73216
    omega
  cases hrw : x.uio.uio_rw with
  | UIO_READ =>
    obtain ⟨rfl, hx', hbs⟩ := hread hrw
    refine ⟨hx' ▸ hgrow.toLocal, ?_, hm, fun _ => ⟨hx', fun hsmall => ?_⟩, fun hw => ?_, hbound⟩
    · exact congrArg (fun y : Inode => y.sv.sv_i.sfi_size) hx'
    · by_cases hne : bs = []
      · rw [hne]
        rfl
      · rw [Inode.extract_byte hlen, ← hexact hne hsmall]
        exact hbs
    · rw [hrw] at hw
      cases hw
  | UIO_WRITE =>
    obtain ⟨hz, hx'⟩ := hwrite hrw
    obtain ⟨hlocal, hdata⟩ := hgrow.own.writeData hz
      ((y.fileData k).splice (x.uio.uio_offset % SFS_BLOCKSIZE) bs)
    refine ⟨hx' ▸ hgrow.toLocal.trans hlocal, ?_, hm, fun hr => ?_, fun _ hsmall => ?_, hbound⟩
    · exact (congrArg (fun y : Inode => y.sv.sv_i.sfi_size) hx').trans hgrow.size
    · rw [hrw] at hr
      cases hr
    · rw [hx', ← Inode.byte_congr hgrow.data]
      by_cases hne : bs = []
      · subst hne
        rw [overlay_nil]
        refine Inode.byte_congr fun l => (hdata l).trans (ite_eq_right_iff.2 fun hl => ?_)
        rw [hl, Block.splice_nil _ (Nat.mod_lt _ (by decide)).le]
      · exact Inode.byte_splice hlen (hexact hne hsmall ▸ hdata)

/-- A number of bytes was moved. -/
def DidAll (F : Nat → Prop) (x : SfsIo) (n : Nat) (x' : SfsIo) : Prop :=
  ∃ bs, bs.length = n ∧ Did F x bs x'

theorem DidAll.trans {n n' : Nat} (h : DidAll F x n x') (h' : DidAll F x' n' x'') :
    DidAll F x (n + n') x'' := by
  obtain ⟨bs, rfl, hd⟩ := h
  obtain ⟨bs', rfl, hd'⟩ := h'
  exact ⟨bs ++ bs', List.length_append, hd.trans hd'⟩

theorem DidAll.fits {n : Nat} (h : DidAll F x n x') (hfit : x.uio.Fits) : x'.uio.Fits := by
  obtain ⟨_, -, hd⟩ := h
  exact hd.moved.fits hfit

theorem DidAll.offset {n : Nat} (h : DidAll F x n x') :
    x'.uio.uio_offset = x.uio.uio_offset + n ∧ x'.uio.uio_resid + n = x.uio.uio_resid := by
  obtain ⟨_, rfl, hd⟩ := h
  exact ⟨hd.moved.offset, hd.moved.resid⟩

theorem DidAll.frame {n : Nat} (h : DidAll F x n x') : Inode.Local F x.inode x'.inode := by
  obtain ⟨_, -, hd⟩ := h
  exact hd.frame

/-- Why a transfer fails: an address of the caller is bad, the bytes are behind those that a file
    can have, or there is a block to be written and the volume is full. -/
def Stuck (u : Uio) (e : Errno) (vol' : Volume) : Prop :=
  e = .EFAULT ∧ false ∈ u.copies ∨
    e = .EFBIG ∧ (SFS_NDIRECT + SFS_DBPERIDB) * SFS_BLOCKSIZE ≤ u.uio_offset + u.uio_resid ∨
    e = .ENOSPC ∧ u.uio_rw = .UIO_WRITE ∧ vol'.Tight 0

/-- A transfer that fails has worked on this file alone. -/
structure Failed (F : Nat → Prop) (x : SfsIo) (e : Errno) (x' : SfsIo) : Prop where
  frame : Inode.Local F x.inode x'.inode
  reason : Stuck x.uio e x'.vol

theorem DidAll.failed {n : Nat} {e : Errno} (h : DidAll F x n x') (h' : Failed F x' e x'') :
    Failed F x e x'' := by
  obtain ⟨hoff, hres⟩ := h.offset
  obtain ⟨bs, -, hd⟩ := h
  refine ⟨hd.frame.trans h'.frame, h'.reason.imp (And.imp_right (hd.moved.copies ·))
    (.imp (And.imp_right fun hbig => ?_) (And.imp_right (And.imp_left hd.moved.rw.symm.trans)))⟩
  omega

/-- The code moves `n` bytes, or it fails. -/
def Moves (F : Nat → Prop) (x : SfsIo) (m : SfsM SfsIo Unit) (n : Nat) : Prop :=
  m.Safe (fun _ => DidAll F x n) (Failed F x) x

theorem Moves.nil (h : x.inode.Own F) : Moves F x (pure ()) 0 := by
  rw [Moves]
  exact wp_pure.2 ⟨[], rfl, .refl h⟩

theorem Moves.seq {m m' : SfsM SfsIo Unit} {n n' : Nat} (h : Moves F x m n)
    (h' : ∀ x', DidAll F x n x' → Moves F x' m' n') : Moves F x (do m; m') (n + n') :=
  wp_bind.2 (h.imp fun _ x' hd => (h' x' hd).imp₂ (fun _ _ => hd.trans) fun _ _ => hd.failed)

/-- Looking up the block of the position. -/
theorem wp_mapBlock (h : x.inode.Own F) :
    mapBlock.Safe
      (fun b y => y.uio = x.uio ∧ (fileblock x.uio).toNat < SFS_NDIRECT + SFS_DBPERIDB ∧
        Inode.Maps F x.inode (fileblock x.uio).toNat (x.uio.uio_rw = .UIO_WRITE) b y.inode)
      (Failed F x) x := by
  simp only [mapBlock, onInode, wp_bind, wp_read, wp_zoom]
  refine (h.wp_sfsBmap _ _).imp₂ (fun b y hm => ⟨trivial, hm⟩) fun e y he => ⟨he.grows.toLocal, ?_⟩
  rcases he.reason with ⟨rfl, hbig⟩ | ⟨rfl, -⟩
  · have hle : (fileblock x.uio).toNat ≤ x.uio.uio_offset / SFS_BLOCKSIZE :=
      (fileblock_toNat _).trans_le (Nat.mod_le ..)
    change _ ≤ _ / 512 at hle
    change 143 ≤ _ at hbig
    refine .inr (.inl ⟨rfl, ?_⟩)
    change 143 * 512 ≤ _
    omega
  · exact .inr (.inr ⟨rfl, of_decide_eq_true (he.full rfl).1, (he.full rfl).2⟩)

theorem eq_read {rw : UioRw} (h : rw ≠ .UIO_WRITE) : rw = .UIO_READ := by
  cases rw with
  | UIO_READ => rfl
  | UIO_WRITE => exact absurd rfl h

/-- The buffer holds the block of the file. -/
theorem wp_loadPart {b : UInt32} {k : Nat} (h : x.inode.Own F) (hb : b = x.inode.mapped k)
    (hw : x.uio.uio_rw = .UIO_WRITE → b ≠ 0) :
    (loadPart b).Total (fun d y => d = x.inode.fileData k ∧ y = x) x := by
  subst hb
  simp only [loadPart, wp_bind, wp_read]
  split
  · next hz =>
    have hr := eq_read fun hrw => hw hrw hz
    simp only [wp_bind, wp_check, wp_pure]
    exact ⟨fun _ => ⟨(if_pos hz).symm, trivial⟩, fun hno => hno hr⟩
  · next hz =>
    have hlt := UInt32.lt_iff_toNat_lt.2 (h.mapped_taken hz).1
    simp only [onVol, wp_zoom]
    exact (wp_of_ok (h.sound.quiet.sfsReadblock hlt)).2 ⟨(if_neg hz).symm, rfl⟩

section

variable (h : x.inode.Own F) (hfit : x.uio.Fits)
include h hfit

theorem wp_sfsPartialio {len : Nat}
    (hlen : x.uio.uio_offset % SFS_BLOCKSIZE + len ≤ SFS_BLOCKSIZE) (hres : len ≤ x.uio.uio_resid) :
    Moves F x (sfsPartialio (x.uio.uio_offset % SFS_BLOCKSIZE) len) len := by
  simp only [Moves, sfsPartialio, wp_bind, wp_check]
  refine ⟨fun _ => ?_, fun hno => hno hlen⟩
  refine (wp_mapBlock h).imp fun b y hb => ?_
  obtain ⟨huio, hk, hmaps⟩ := hb
  have hgrow := hmaps.grows
  have hne : y.uio.uio_rw = .UIO_WRITE → b ≠ 0 := fun hw => hmaps.alloc (by rw [← huio, hw]; decide)
  refine (wp_loadPart hgrow.own hmaps.block hne).noFail.imp fun d z hz => ?_
  obtain ⟨rfl, rfl⟩ := hz
  have hptr : ((((z.inode.fileData (fileblock x.uio).toNat).toList.drop
      (x.uio.uio_offset % SFS_BLOCKSIZE)).take len).length) = len := by
    rw [List.length_take, List.length_drop, Block.length_toList]
    omega
  simp only [movePart, onUio, wp_bind, wp_read, wp_zoom, huio]
  refine (Uio.wp_uiomove _ hfit (hptr.le.trans hres)).imp₂ (fun part u hm => ?_) fun _ u he => ?_
  · obtain ⟨hmoved, hplen, hread⟩ := hm
    rw [hptr] at hplen
    have hlen' : x.uio.uio_offset % SFS_BLOCKSIZE + part.length ≤ SFS_BLOCKSIZE := hplen ▸ hlen
    split
    · next hw =>
      have hz : z.inode.mapped (fileblock x.uio).toNat ≠ 0 := hmaps.block ▸ hne (huio ▸ hw)
      have hlt : b < z.vol.sb_nblocks :=
        UInt32.lt_iff_toNat_lt.2 (hmaps.block ▸ (hgrow.own.mapped_taken hz).1)
      simp only [onVol, wp_zoom]
      refine (wp_of_ok (hgrow.own.sound.quiet.sfsWriteblock hlt)).2 ⟨part, hplen, ?_⟩
      refine did_of_block hgrow hk (fileblock_toNat _) hlen' hmoved (fun hr => ?_)
        fun _ => ⟨hz, ?_⟩
      · rw [hw] at hr
        cases hr
      · rw [hmaps.block, Block.splice, hplen]
        rfl
    · next hw =>
      refine wp_pure.2 ⟨part, hplen, ?_⟩
      refine did_of_block hgrow hk (fileblock_toNat _) hlen' hmoved (fun hr => ⟨?_, rfl, ?_⟩)
        fun hw' => absurd hw' hw
      · exact hmaps.same (by rw [hr]; decide)
      · rw [hplen]
        exact hread hr
  · exact ⟨hgrow.toLocal, .inl ⟨he.1, he.2.1⟩⟩

theorem wp_sfsBlockio (hal : x.uio.uio_offset % SFS_BLOCKSIZE = 0)
    (hres : SFS_BLOCKSIZE ≤ x.uio.uio_resid) : Moves F x sfsBlockio SFS_BLOCKSIZE := by
  simp only [Moves, sfsBlockio, wp_bind]
  refine (wp_mapBlock h).imp fun b y hb => ?_
  obtain ⟨huio, hk, hmaps⟩ := hb
  have hgrow := hmaps.grows
  have hne : y.uio.uio_rw = .UIO_WRITE → b ≠ 0 := fun hw => hmaps.alloc (by rw [← huio, hw]; decide)
  have hfit' : y.uio.Fits := huio.symm ▸ hfit
  have hlen : ∀ {bs : List UInt8}, bs.length = SFS_BLOCKSIZE →
      x.uio.uio_offset % SFS_BLOCKSIZE + bs.length ≤ SFS_BLOCKSIZE := by
    intro bs hbs
    rw [hal, hbs, Nat.zero_add]
  by_cases hz : b = 0
  · have hr := eq_read fun hrw => hne hrw hz
    have hdata : y.inode.fileData (fileblock x.uio).toNat = Block.zeros :=
      if_pos (hmaps.block ▸ hz)
    simp only [blockTransfer, wp_bind, wp_read, if_pos hz, wp_check, onUio, wp_zoom]
    refine ⟨fun _ => ?_, fun hno => hno hr⟩
    refine (Uio.wp_uiomovezeros hfit' (huio ▸ hres) hr).imp₂ (fun _ u hm => ?_)
      fun _ _ he => ⟨hgrow.toLocal, .inl (huio ▸ ⟨he.1, he.2.1⟩)⟩
    rw [huio] at hm
    refine ⟨_, List.length_replicate, did_of_block hgrow hk (fileblock_toNat _)
      (hlen List.length_replicate) hm (fun hr' => ⟨?_, rfl, ?_⟩) fun hw => ?_⟩
    · exact hmaps.same (by rw [hr']; decide)
    · rw [hdata, Block.toList_zeros, hal, List.drop_zero, List.length_replicate,
        List.take_replicate, Nat.min_self]
    · rw [← huio, hr] at hw
      cases hw
  · have hzk : y.inode.mapped (fileblock x.uio).toNat ≠ 0 := hmaps.block ▸ hz
    have hdata : y.inode.fileData (fileblock x.uio).toNat = y.vol.sectors b.toNat := by
      rw [Inode.fileData, if_neg hzk, ← hmaps.block]
      rfl
    have hlt : b.toNat < y.vol.sb_nblocks.toNat := hmaps.block ▸ (hgrow.own.mapped_taken hzk).1
    have hsmall : y.vol.sb_nblocks.toNat * 512 ≤ 2 ^ 32 := hgrow.own.sound.small
    have hmod : b.toNat % 2 ^ 23 = b.toNat := Nat.mod_eq_of_lt (by omega)
    have hquiet : y.vol.Quiet := hgrow.own.sound.quiet
    refine (wp_blockTransfer hquiet.faults hz hfit').mono (fun _ x' ht => ?_) (fun _ x' hr => ?_)
      fun _ hc => ?_
    · obtain ⟨bs, ⟨hm, hbs, hread⟩, hsv, hvol⟩ := ht
      rw [Block.length_toList] at hbs
      rw [hmod] at hread hvol
      rw [huio] at hm hread hvol
      refine ⟨bs, hbs, did_of_block hgrow hk (fileblock_toNat _) (hlen hbs) hm
        (fun hr' => ⟨?_, ?_, ?_⟩) fun hw => ⟨hzk, ?_⟩⟩
      · exact hmaps.same (by rw [hr']; decide)
      · rw [if_neg (by rw [hr']; decide)] at hvol
        rw [inode, hvol, hsv]
        rfl
      · rw [hdata, hal, List.drop_zero, hbs, List.take_of_length_le (by rw [Block.length_toList])]
        exact hread hr'
      · rw [if_pos hw] at hvol
        rw [inode, hvol, hsv, hal, Block.splice_all _ hbs, hmaps.block]
        rfl
    · have hsame : x'.inode = y.inode := by
        rw [inode, hr.2.1, hr.2.2]
        rfl
      exact ⟨hsame ▸ hgrow.toLocal, .inl (huio ▸ hr.1)⟩
    · rcases hc with hshort | hrange
      · rw [huio] at hshort
        omega
      · have := hquiet.blocks
        omega

/-! ## The whole transfer -/

theorem wp_sfsBlocks (n : Nat) (hal : x.uio.uio_offset % SFS_BLOCKSIZE = 0)
    (hres : n * SFS_BLOCKSIZE ≤ x.uio.uio_resid) :
    Moves F x (sfsBlocks n) (n * SFS_BLOCKSIZE) := by
  induction n generalizing x with
  | zero => exact (Nat.zero_mul SFS_BLOCKSIZE).symm ▸ Moves.nil h
  | succ n ih =>
    have hmul : (n + 1) * SFS_BLOCKSIZE = SFS_BLOCKSIZE + n * SFS_BLOCKSIZE := by
      rw [Nat.add_mul, Nat.one_mul, Nat.add_comm]
    rw [hmul] at hres ⊢
    refine (wp_sfsBlockio h hfit hal (by omega)).seq fun x' hd => ?_
    obtain ⟨hoff, hres'⟩ := hd.offset
    refine ih hd.frame.own (hd.fits hfit) ?_ (by omega)
    rw [hoff, Nat.add_mod_right, hal]

theorem wp_sfsHead :
    sfsHead.Safe
      (fun _ x' => ∃ n, n ≤ x.uio.uio_resid ∧ DidAll F x n x' ∧
        (n < x.uio.uio_resid → x'.uio.uio_offset % SFS_BLOCKSIZE = 0))
      (Failed F x) x := by
  have hlt : x.uio.uio_offset % SFS_BLOCKSIZE < SFS_BLOCKSIZE := Nat.mod_lt _ (by decide)
  simp only [sfsHead, wp_bind, wp_read]
  split
  · next hne =>
    refine (wp_sfsPartialio h hfit (by omega) (Nat.min_le_right ..)).imp fun _ x' hd => ?_
    refine ⟨_, Nat.min_le_right .., hd, fun hmore => ?_⟩
    rw [hd.offset.1]
    change (x.uio.uio_offset + min (512 - x.uio.uio_offset % 512) x.uio.uio_resid) % 512 = 0
    change min (512 - x.uio.uio_offset % 512) x.uio.uio_resid < _ at hmore
    omega
  · next hal =>
    refine wp_pure.2 ⟨0, Nat.zero_le _, ⟨[], rfl, .refl h⟩, fun _ => ?_⟩
    exact not_not.1 hal

theorem wp_sfsLast (hal : x.uio.uio_offset % SFS_BLOCKSIZE = 0)
    (hres : x.uio.uio_resid < SFS_BLOCKSIZE) : Moves F x sfsLast x.uio.uio_resid := by
  simp only [Moves, sfsLast, wp_bind, wp_read, wp_check]
  refine ⟨fun _ => ?_, fun hno => hno hres⟩
  split
  · have hlen : x.uio.uio_offset % SFS_BLOCKSIZE + x.uio.uio_resid ≤ SFS_BLOCKSIZE := by omega
    have hpart := wp_sfsPartialio h hfit hlen (Nat.le_refl _)
    rwa [hal] at hpart
  · next hzero =>
    rw [Nat.eq_zero_of_not_pos hzero]
    exact Moves.nil h

theorem wp_sfsAligned (hal : 0 < x.uio.uio_resid → x.uio.uio_offset % SFS_BLOCKSIZE = 0) :
    Moves F x sfsAligned x.uio.uio_resid := by
  simp only [Moves, sfsAligned, wp_bind, wp_read]
  split
  · next hzero =>
    rw [hzero]
    exact Moves.nil h
  · next hpos =>
    have hal := hal (Nat.pos_of_ne_zero hpos)
    have hdiv := Nat.div_add_mod' x.uio.uio_resid SFS_BLOCKSIZE
    have hmod : x.uio.uio_resid % SFS_BLOCKSIZE < SFS_BLOCKSIZE := Nat.mod_lt _ (by decide)
    have hboth : Moves F x (do sfsBlocks (x.uio.uio_resid / SFS_BLOCKSIZE); sfsLast)
        (x.uio.uio_resid / SFS_BLOCKSIZE * SFS_BLOCKSIZE + x.uio.uio_resid % SFS_BLOCKSIZE) := by
      refine (wp_sfsBlocks h hfit _ hal (by omega)).seq fun x' hd => ?_
      obtain ⟨hoff, hres⟩ := hd.offset
      rw [show x.uio.uio_resid % SFS_BLOCKSIZE = x'.uio.uio_resid by omega]
      refine wp_sfsLast hd.frame.own (hd.fits hfit) ?_ (by omega)
      rw [hoff, Nat.add_mul_mod_self_right, hal]
    rw [hdiv] at hboth
    rw [wp_bind, wp_check]
    exact ⟨fun _ => hboth, fun hno => hno hal⟩

/-- The transfer moves everything. -/
theorem wp_sfsTransfer :
    Moves F x sfsTransfer x.uio.uio_resid := by
  simp only [Moves, sfsTransfer, wp_bind]
  refine (wp_sfsHead h hfit).imp fun _ x' hd => ?_
  obtain ⟨n, hn, hd, hal⟩ := hd
  obtain ⟨-, hres⟩ := hd.offset
  refine (wp_sfsAligned hd.frame.own (hd.fits hfit) fun hpos => hal (by omega)).imp₂
    (fun _ x'' hd' => ?_) fun _ _ => hd.failed
  have := hd.trans hd'
  rwa [show n + x'.uio.uio_resid = x.uio.uio_resid by omega] at this

end

/-! ## `sfs_io` -/

/-- What `sfs_io` did when it returned 0. A reader gets the bytes up to the end of the file, a
    writer puts in all of its bytes, and the file is then as long as is needed. -/
structure Done (F : Nat → Prop) (x : SfsIo) (bs : List UInt8) (x' : SfsIo) : Prop where
  frame : Inode.Local F x.inode x'.inode
  moved : x.uio.Moved bs x'.uio
  read : x.uio.uio_rw = .UIO_READ → x'.inode = x.inode ∧
    bs = extract x.inode.byte x.uio.uio_offset
      (min x.uio.uio_resid (x.sv.sv_i.sfi_size.toNat - x.uio.uio_offset))
  length : x.uio.uio_rw = .UIO_WRITE → bs.length = x.uio.uio_resid
  write : x.uio.uio_rw = .UIO_WRITE → x.uio.uio_offset + x.uio.uio_resid ≤ 2 ^ 41 →
    x'.inode.byte = overlay x.inode.byte x.uio.uio_offset bs
  size : x.uio.uio_rw = .UIO_WRITE → x.uio.uio_offset + x.uio.uio_resid ≤ 2 ^ 41 →
    x'.sv.sv_i.sfi_size.toNat = if x.uio.uio_resid = 0 then x.sv.sv_i.sfi_size.toNat
      else max x.sv.sv_i.sfi_size.toNat (x.uio.uio_offset + x.uio.uio_resid)

/-- The end of `sfs_io` changes the size at most. -/
theorem inode_finish {origresid extraresid : Nat} : (finish origresid extraresid x).inode =
    if x.uio.uio_resid ≠ origresid ∧ x.uio.uio_rw = .UIO_WRITE ∧
        x.sv.sv_i.sfi_size.toNat < x.uio.uio_offset then
      x.inode.setSize (UInt32.ofNat x.uio.uio_offset)
    else x.inode := by
  unfold finish
  split <;> rfl

theorem local_finish {origresid extraresid : Nat} (h : Inode.Local F x.inode x'.inode) :
    Inode.Local F x.inode (finish origresid extraresid x').inode := by
  rw [inode_finish]
  split
  · exact h.trans (h.own.setSize _)
  · exact h

/-- The request that is carried out: what is behind the end of the file is left out. -/
def clip (x : SfsIo) (extraresid : Nat) : SfsIo :=
  { x with uio.uio_resid := x.uio.uio_resid - extraresid }

/-- What was left out is given back. -/
theorem moved_finish {origresid extraresid : Nat} (hle : extraresid ≤ x.uio.uio_resid)
    (h : (x.clip extraresid).uio.Moved bs x'.uio) :
    x.uio.Moved bs (finish origresid extraresid x').uio := by
  have hres : x'.uio.uio_resid + bs.length = x.uio.uio_resid - extraresid := h.resid
  refine ⟨h.offset, ?_, h.iov, h.rw, h.moved, h.out, h.copies⟩
  change x'.uio.uio_resid + extraresid + bs.length = x.uio.uio_resid
  omega

/-- Reading from behind the end. -/
theorem done_eof (h : x.inode.Own F) (hr : x.uio.uio_rw = .UIO_READ)
    (hsize : x.sv.sv_i.sfi_size.toNat ≤ x.uio.uio_offset) : Done F x [] x := by
  refine ⟨.refl h, .refl _, fun _ => ⟨rfl, ?_⟩, fun hw => ?_, fun hw => ?_, fun hw => ?_⟩
  · rw [Nat.sub_eq_zero_of_le hsize, Nat.min_zero]
    rfl
  all_goals
    rw [hr] at hw
    cases hw

/-- A reader. -/
theorem done_read {extraresid : Nat} (hr : x.uio.uio_rw = .UIO_READ)
    (hsize : x.uio.uio_offset < x.sv.sv_i.sfi_size.toNat)
    (hextra : extraresid = x.uio.uio_offset + x.uio.uio_resid - x.sv.sv_i.sfi_size.toNat)
    (hlen : bs.length = x.uio.uio_resid - extraresid) (hd : Did F (x.clip extraresid) bs x') :
    Done F x bs (finish x.uio.uio_resid extraresid x') := by
  have hlt := x.sv.sv_i.sfi_size.toNat_lt
  have hmin : min x.uio.uio_resid (x.sv.sv_i.sfi_size.toNat - x.uio.uio_offset) = bs.length := by
    omega
  obtain ⟨hsame, hbs⟩ := hd.read hr
  have hinode : (finish x.uio.uio_resid extraresid x').inode = x.inode := by
    have hrw : x'.uio.uio_rw = .UIO_READ := hd.moved.rw.trans hr
    rw [inode_finish, if_neg (by rw [hrw]; simp), hsame]
    rfl
  have hframe : Inode.Local F x.inode (finish x.uio.uio_resid extraresid x').inode := by
    rw [hinode]
    exact .refl (hsame ▸ hd.frame.own)
  refine ⟨hframe, moved_finish (by omega) hd.moved, fun _ => ⟨hinode, ?_⟩,
    fun hw => ?_, fun hw => ?_, fun hw => ?_⟩
  · rw [hmin]
    exact hbs (by change x.uio.uio_offset + bs.length ≤ _; omega)
  all_goals
    rw [hr] at hw
    cases hw

/-- A writer. -/
theorem done_write (hw : x.uio.uio_rw = .UIO_WRITE) (hlen : bs.length = x.uio.uio_resid)
    (hd : Did F x bs x') : Done F x bs (finish x.uio.uio_resid 0 x') := by
  have hrw : x'.uio.uio_rw = .UIO_WRITE := hd.moved.rw.trans hw
  have hres := hd.moved.resid
  have hoff := hd.moved.offset
  have hbyte : (finish x.uio.uio_resid 0 x').inode.byte = x'.inode.byte := by
    rw [inode_finish]
    split <;> rfl
  refine ⟨local_finish hd.frame, moved_finish (Nat.zero_le _) hd.moved, fun hr => ?_, fun _ => hlen,
    fun _ hsmall => ?_, fun _ hsmall => ?_⟩
  · rw [hw] at hr
    cases hr
  · rw [hbyte]
    exact hd.write hw (hlen ▸ hsmall)
  · change (finish x.uio.uio_resid 0 x').inode.sv.sv_i.sfi_size.toNat = _
    have hsize : x'.inode.sv.sv_i.sfi_size.toNat = x.sv.sv_i.sfi_size.toNat :=
      congrArg UInt32.toNat hd.size
    rw [inode_finish, hd.size]
    by_cases hzero : x.uio.uio_resid = 0
    · rw [if_pos hzero, if_neg (by omega), hsize]
    · have hne : bs ≠ [] := fun e => hzero (by rw [← hlen, e, List.length_nil])
      have hmax : x.uio.uio_offset + bs.length ≤ 73216 := hd.bound hne (hlen ▸ hsmall)
      rw [if_neg hzero]
      split
      · next hgrow =>
        change (UInt32.ofNat x'.uio.uio_offset).toNat = _
        rw [UInt32.toNat_ofNat', Nat.mod_eq_of_lt (by omega)]
        omega
      · next hkeep =>
        have := Nat.not_lt.1 fun hlt => hkeep ⟨by omega, hrw, hlt⟩
        rw [hsize]
        omega

theorem wp_sfsIo (h : x.inode.Own F) (hfit : x.uio.Fits) :
    sfsIo.Safe (fun _ x' => ∃ bs, Done F x bs x') (Failed F x) x := by
  simp only [sfsIo, wp_bind, wp_read]
  split
  · next heof => exact wp_pure.2 ⟨[], done_eof h heof.1 heof.2⟩
  · next hgo =>
    generalize hextra : (if x.uio.uio_rw = .UIO_READ then
      x.uio.uio_offset + x.uio.uio_resid - x.sv.sv_i.sfi_size.toNat else 0) = extraresid
    have hle : extraresid = 0 ∨ extraresid < x.uio.uio_resid := by
      split at hextra
      · next hr =>
        have := Nat.not_le.1 fun hge => hgo ⟨hr, hge⟩
        omega
      · exact .inl hextra.symm
    have hfit' : (x.clip extraresid).uio.Fits :=
      ⟨(Nat.sub_le ..).trans hfit.1, (Nat.sub_le ..).trans_lt hfit.2⟩
    simp only [wp_bind, wp_check, wp_modify, wp_attempt]
    refine ⟨fun _ => ?_, fun hno => hno hle⟩
    refine (wp_sfsTransfer (x := x.clip extraresid) h hfit').imp₂ (fun _ y hd => ?_)
      fun _ y he => ?_
    · simp only [wp_resume_ok]
      obtain ⟨bs, hlen, hd⟩ := hd
      refine ⟨bs, ?_⟩
      cases hrw : x.uio.uio_rw with
      | UIO_READ =>
        rw [if_pos hrw] at hextra
        exact done_read hrw (Nat.not_le.1 fun hge => hgo ⟨hrw, hge⟩) hextra.symm hlen hd
      | UIO_WRITE =>
        rw [if_neg (by rw [hrw]; decide)] at hextra
        subst hextra
        exact done_write hrw hlen hd
    · simp only [wp_resume_error]
      refine ⟨local_finish he.frame, he.reason.imp_right (.imp_left (And.imp_right fun hbig => ?_))⟩
      exact hbig.trans (Nat.add_le_add_left (Nat.sub_le ..) _)

end SfsIo

end DemandPaging
