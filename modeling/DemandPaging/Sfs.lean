import DemandPaging.Lib.Bitmap
import DemandPaging.Lib.Words
import DemandPaging.Uio

set_option autoImplicit false

/-! # The simple file system: blocks

The lower half of `kern/fs/sfs`: the device as an array of sectors (`sfs_io.c`), the map of the free
blocks (`sfs_balloc.c` with `kern/lib/bitmap.c`) and the map from the blocks of a file to the blocks
of the disk (`sfs_bmap.c`).

A block is its 512 bytes, whatever it holds. An inode is one block; a file has fifteen direct
blocks, and the numbers of 128 further ones in its indirect block.

`faults` holds the answers of the disk to the coming operations, and without any they are done. An
operation that is answered with an error is not done; but `lhd_io` has moved the bytes of a write by
then, so that `sfs_rwblock` tries again with nothing left to write, and returns 0. -/

namespace DemandPaging

open Caller (UioRw)

/-! ## The format -/

abbrev SFS_BLOCKSIZE : Nat := 512

abbrev SFS_NDIRECT : Nat := 15

abbrev SFS_NINDIRECT : Nat := 1

abbrev SFS_DBPERIDB : Nat := 128

instance : NeZero SFS_NDIRECT := ⟨by decide⟩

instance : NeZero SFS_DBPERIDB := ⟨by decide⟩

/-- The contents of a block. -/
abbrev Block := Fin SFS_BLOCKSIZE → UInt8

namespace Block

def toList (b : Block) : List UInt8 := List.ofFn b

def ofList (l : List UInt8) : Block := fun i => l.getD i 0

/-- A block of zeros. -/
def zeros : Block := fun _ => 0

/-- The block with some bytes overwritten, as `memcpy` does it in a buffer. -/
def splice (d : Block) (skip : Nat) (part : List UInt8) : Block :=
  ofList (d.toList.take skip ++ part ++ d.toList.drop (skip + part.length))

/-- A block as an array of words, as the indirect blocks are. -/
def words (b : Block) : Fin SFS_DBPERIDB → UInt32 := arrayWords b

def ofWords (ws : Fin SFS_DBPERIDB → UInt32) : Block := arrayBytes ws

@[simp] theorem words_ofWords (ws : Fin SFS_DBPERIDB → UInt32) : (ofWords ws).words = ws :=
  arrayWords_arrayBytes ws

@[simp] theorem length_toList (b : Block) : b.toList.length = SFS_BLOCKSIZE := List.length_ofFn

@[simp] theorem ofList_toList (b : Block) : ofList b.toList = b := by
  funext i
  rw [ofList, List.getD_eq_getElem _ _ (by rw [length_toList]; exact i.2)]
  exact List.getElem_ofFn _

theorem toList_ofList {l : List UInt8} (h : l.length = SFS_BLOCKSIZE) : (ofList l).toList = l := by
  refine List.ext_getElem (by rw [length_toList, h]) fun i hi hl => ?_
  exact (List.getElem_ofFn _).trans (List.getD_eq_getElem _ _ hl)

-- no proof should look into the 512 bytes
attribute [irreducible] toList

end Block

def SFS_TYPE_INVAL : UInt16 := 0

def SFS_TYPE_FILE : UInt16 := 1

def SFS_TYPE_DIR : UInt16 := 2

/-- `struct sfs_dinode`. -/
@[ext] structure Dinode where
  sfi_size : UInt32
  sfi_type : UInt16
  sfi_linkcount : UInt16
  sfi_direct : Fin SFS_NDIRECT → UInt32
  sfi_indirect : UInt32
  sfi_waste : Fin 110 → UInt32

namespace Dinode

/-- An inode in memory, as the block it is. -/
def toBlock (d : Dinode) : Block := Block.ofWords fun i =>
  if i.val = 0 then d.sfi_size
  else if i.val = 1 then
    UInt32.ofNat (d.sfi_type.toNat * 2 ^ 16 + d.sfi_linkcount.toNat)
  else if i.val < 17 then d.sfi_direct (Fin.ofNat SFS_NDIRECT (i.val - 2))
  else if i.val = 17 then d.sfi_indirect
  else d.sfi_waste (Fin.ofNat 110 (i.val - 18))

/-- A block read as an inode. -/
def ofBlock (b : Block) : Dinode where
  sfi_size := b.words 0
  sfi_type := UInt16.ofNat ((b.words 1).toNat / 2 ^ 16)
  sfi_linkcount := UInt16.ofNat (b.words 1).toNat
  sfi_direct := fun i => b.words (Fin.ofNat SFS_DBPERIDB (i + 2))
  sfi_indirect := b.words 17
  sfi_waste := fun i => b.words (Fin.ofNat SFS_DBPERIDB (i + 18))

/-- What is written as an inode is read back. -/
@[simp] theorem ofBlock_toBlock (d : Dinode) : ofBlock d.toBlock = d := by
  have htype := d.sfi_type.toNat_lt
  have hlink := d.sfi_linkcount.toNat_lt
  have hword : (UInt32.ofNat (d.sfi_type.toNat * 2 ^ 16 + d.sfi_linkcount.toNat)).toNat
      = d.sfi_type.toNat * 2 ^ 16 + d.sfi_linkcount.toNat :=
    UInt32.toNat_ofNat_of_lt' (by change _ < 2 ^ 32; omega)
  ext1
  · simp [ofBlock, toBlock]
  · apply UInt16.toNat_inj.1
    simp only [ofBlock, toBlock, Block.words_ofWords, Fin.val_one, one_ne_zero, if_false, if_true,
      hword, UInt16.toNat_ofNat']
    omega
  · apply UInt16.toNat_inj.1
    simp only [ofBlock, toBlock, Block.words_ofWords, Fin.val_one, one_ne_zero, if_false, if_true,
      hword, UInt16.toNat_ofNat']
    omega
  · funext i
    have hlt : i.val < 15 := i.2
    have hval : (Fin.ofNat SFS_DBPERIDB (i.val + 2)).val = i.val + 2 :=
      Nat.mod_eq_of_lt (by change _ < 128; omega)
    have hidx : Fin.ofNat SFS_NDIRECT (i.val + 2 - 2) = i := by
      rw [Nat.add_sub_cancel]
      exact Fin.ofNat_val_eq_self i
    simp only [ofBlock, toBlock, Block.words_ofWords, hval, hidx]
    rw [if_neg (by omega), if_neg (by omega), if_pos (by omega)]
  · simp only [ofBlock, toBlock, Block.words_ofWords]
    rfl
  · funext i
    have hlt := i.2
    have hval : (Fin.ofNat SFS_DBPERIDB (i.val + 18)).val = i.val + 18 :=
      Nat.mod_eq_of_lt (by change _ < 128; omega)
    have hidx : Fin.ofNat 110 (i.val + 18 - 18) = i := by
      rw [Nat.add_sub_cancel]
      exact Fin.ofNat_val_eq_self i
    simp only [ofBlock, toBlock, Block.words_ofWords, hval, hidx]
    rw [if_neg (by omega), if_neg (by omega), if_neg (by omega), if_neg (by omega)]

end Dinode

/-- `struct sfs_vnode`, with the reference count of its vnode. -/
structure SfsVnode where
  sv_ino : UInt32
  sv_i : Dinode
  sv_dirty : Bool
  vn_refcount : Nat

/-- `struct bitmap`; the bit `i` is the bit `i % 8` of the byte `i / 8`. -/
structure Bitmap where
  nbits : Nat
  v : Nat → Bool

/-- `struct sfs_fs` without its vnodes, and the device. -/
structure Volume where
  sb_volname : String
  sb_nblocks : UInt32
  sfs_freemap : Bitmap
  sfs_freemapdirty : Bool
  sectors : Nat → Block
  d_blocks : Nat
  faults : List (Option Errno)

/-- Code of the file system. -/
abbrev SfsM (σ α : Type) := Fallible Crash Errno σ α

/-! ## The device -/

/-- A request to the device: the volume and the `uio` of the request. -/
structure Request where
  vol : Volume
  uio : Uio

namespace Request

/-- The disk answers. -/
def answer : SfsM Request Unit := do
  let r ← .read
  .modify fun r => { r with vol.faults := r.vol.faults.tail }
  match r.vol.faults.headD none with
  | some e => .fail e
  | none => return ()

/-- `uiomove` of the buffer on the card. -/
def moveBuf (buf : Block) : SfsM Request (List UInt8) :=
  .zoom uio (fun u r => { r with uio := u }) (Uio.uiomove buf.toList)

/-- One round of the loop of `lhd_io`. -/
def lhdSector : SfsM Request Unit := do
  let r ← .read
  let sector := r.uio.uio_offset / SFS_BLOCKSIZE
  match r.uio.uio_rw with
  | .UIO_WRITE =>
    let buf ← moveBuf (r.vol.sectors sector)
    answer
    .modify fun r =>
      { r with vol.sectors := Function.update r.vol.sectors sector (Block.ofList buf) }
  | .UIO_READ =>
    answer
    let _ ← moveBuf (r.vol.sectors sector)

def lhdSectors : Nat → SfsM Request Unit
  | 0 => return ()
  | len + 1 => do
      lhdSector
      lhdSectors len

/-- `DEVOP_IO`, which is `lhd_io`. -/
def devopIo : SfsM Request Unit := do
  let r ← .read
  let len := r.uio.uio_resid / SFS_BLOCKSIZE
  if r.uio.uio_offset % SFS_BLOCKSIZE ≠ 0 ∨ r.uio.uio_resid % SFS_BLOCKSIZE ≠ 0 ∨
      r.vol.d_blocks < r.uio.uio_offset / SFS_BLOCKSIZE + len then
    .fail .EINVAL
  else lhdSectors len

/-- One round of `sfs_rwblock`; `again` is what an I/O error leads to. -/
def rwblockRound (again : SfsM Request Unit) : SfsM Request Unit := do
  let r ← .read
  match ← .attempt devopIo with
  | .ok () => return ()
  | .error e =>
    if e = .EINVAL then
      .crash (.panic ("sfs: " ++ r.vol.sb_volname ++ ": DEVOP_IO returned EINVAL\n"))
    else if e = Errno.EIO then again
    else .fail e

/-- `sfs_rwblock`, when an I/O error is tried again so often. -/
def rwblockTries : Nat → SfsM Request Unit
  | 0 => rwblockRound (.fail Errno.EIO)
  | tries + 1 => rwblockRound (rwblockTries tries)

def sfsRwblock : SfsM Request Unit := rwblockTries 10

end Request

namespace Volume

/-- `SFSUIO`: the `uio` for a block in a kernel buffer. -/
def sfsUio (data : Block) (block : UInt32) (rw : UioRw) : Uio where
  uio_iov := [data.toList]
  uio_offset := block.toNat * SFS_BLOCKSIZE
  uio_resid := SFS_BLOCKSIZE
  uio_rw := rw
  copies := []
  moved := []

/-- A request with a `uio` of its own, which is given back. -/
def request (u : Uio) : SfsM Volume Uio := fun vol =>
  match Request.sfsRwblock ⟨vol, u⟩ with
  | .error c => .error c
  | .ok (.error e, r) => .ok (.error e, r.vol)
  | .ok (.ok (), r) => .ok (.ok r.uio, r.vol)

/-- `sfs_readblock`; the block is what was moved into the buffer. -/
def sfsReadblock (block : UInt32) : SfsM Volume Block := do
  let u ← request (sfsUio Block.zeros block .UIO_READ)
  return Block.ofList u.moved

def sfsWriteblock (block : UInt32) (data : Block) : SfsM Volume Unit := do
  let _ ← request (sfsUio data block .UIO_WRITE)

/-! ## The free blocks -/

def sfsClearblock (block : UInt32) : SfsM Volume Unit := sfsWriteblock block Block.zeros

/-- `bitmap_alloc` of the freemap. -/
def bitmapAlloc : SfsM Volume UInt32 := do
  let vol ← .read
  let b := vol.sfs_freemap
  match firstWord b.v 8 ((b.nbits + 7) / 8) with
  | none => .fail .ENOSPC
  | some ix =>
    match firstBit b.v 8 ix with
    | none => .crash .kassert
    | some offset =>
      let index := ix * 8 + offset
      .modify fun vol => { vol with sfs_freemap.v := Function.update b.v index true }
      .check (index < b.nbits) .kassert
      return UInt32.ofNat index

/-- `bitmap_unmark` of the freemap. -/
def bitmapUnmark (index : UInt32) : SfsM Volume Unit := do
  let vol ← .read
  .check (index.toNat < vol.sfs_freemap.nbits) .kassert
  .check (vol.sfs_freemap.v index.toNat = true) .kassert
  .modify fun vol =>
    { vol with sfs_freemap.v := Function.update vol.sfs_freemap.v index.toNat false }

def sfsBalloc : SfsM Volume UInt32 := do
  let diskblock ← bitmapAlloc
  .modify fun vol => { vol with sfs_freemapdirty := true }
  let vol ← .read
  if vol.sb_nblocks ≤ diskblock then
    .crash (.panic s!"sfs: {vol.sb_volname}: balloc: invalid block {diskblock}\n")
  else
    let result ← .attempt (sfsClearblock diskblock)
    match result with
    | .error e =>
      bitmapUnmark diskblock
      .fail e
    | .ok () => return diskblock

def sfsBfree (diskblock : UInt32) : SfsM Volume Unit := do
  bitmapUnmark diskblock
  .modify fun vol => { vol with sfs_freemapdirty := true }

def sfsBused (diskblock : UInt32) : SfsM Volume Bool := do
  let vol ← .read
  if vol.sb_nblocks ≤ diskblock then
    .crash (.panic
      s!"sfs: {vol.sb_volname}: sfs_bused called on out of range block {diskblock}\n")
  else return vol.sfs_freemap.v diskblock.toNat

end Volume

/-! ## The blocks of a file -/

/-- A volume and the vnode that is worked on. -/
structure Inode where
  vol : Volume
  sv : SfsVnode

namespace Inode

/-- Code for the volume. -/
def onVol {α : Type} (m : SfsM Volume α) : SfsM Inode α :=
  .zoom vol (fun vol x => { x with vol := vol }) m

/-- `sv->sv_i.sfi_direct[i] = block`, with the inode marked dirty. -/
def setDirect (i : Fin SFS_NDIRECT) (block : UInt32) (x : Inode) : Inode :=
  { x with
    sv.sv_i.sfi_direct := Function.update x.sv.sv_i.sfi_direct i block
    sv.sv_dirty := true }

/-- `sv->sv_i.sfi_indirect = block`, with the inode marked dirty. -/
def setIndirect (block : UInt32) (x : Inode) : Inode :=
  { x with sv.sv_i.sfi_indirect := block, sv.sv_dirty := true }

/-- The end of `sfs_bmap`: a block that is handed back must be in use. -/
def handBack (block fileblock : UInt32) : SfsM Inode UInt32 := do
  let x ← .read
  if block ≠ 0 then
    if ¬ (← onVol (Volume.sfsBused block)) then
      .crash (.panic (s!"sfs: {x.vol.sb_volname}: Data block {block} " ++
        s!"(block {fileblock} of file {x.sv.sv_ino}) marked free\n"))
  return block

/-- The part of `sfs_bmap` for the direct blocks. -/
def bmapDirect (fileblock : UInt32) (doalloc : Bool) : SfsM Inode UInt32 := do
  let x ← .read
  let i := Fin.ofNat SFS_NDIRECT fileblock.toNat
  let block := x.sv.sv_i.sfi_direct i
  if block = 0 ∧ doalloc then
    let block ← onVol Volume.sfsBalloc
    .modify (setDirect i block)
    handBack block fileblock
  else handBack block fileblock

/-- The indirect block and its entries, where there is one or one may be allocated. -/
def loadIndirect : SfsM Inode (UInt32 × (Fin SFS_DBPERIDB → UInt32)) := do
  let x ← .read
  let idblock := x.sv.sv_i.sfi_indirect
  if idblock = 0 then
    let idblock ← onVol Volume.sfsBalloc
    .modify (setIndirect idblock)
    return (idblock, fun _ => 0)
  else
    let b ← onVol (Volume.sfsReadblock idblock)
    return (idblock, b.words)

/-- The part of `sfs_bmap` for the blocks behind the direct ones, numbered from 0. -/
def bmapIndirect (fileblock : UInt32) (doalloc : Bool) : SfsM Inode UInt32 := do
  let idnum := fileblock.toNat / SFS_DBPERIDB
  let idoff := Fin.ofNat SFS_DBPERIDB (fileblock.toNat % SFS_DBPERIDB)
  let x ← .read
  if SFS_NINDIRECT ≤ idnum then .fail .EFBIG
  else if x.sv.sv_i.sfi_indirect = 0 ∧ doalloc = false then return 0
  else
    let (idblock, idbuf) ← loadIndirect
    let block := idbuf idoff
    if block = 0 ∧ doalloc then
      let block ← onVol Volume.sfsBalloc
      onVol (Volume.sfsWriteblock idblock (Block.ofWords (Function.update idbuf idoff block)))
      handBack block fileblock
    else handBack block fileblock

def sfsBmap (fileblock : UInt32) (doalloc : Bool) : SfsM Inode UInt32 :=
  if fileblock.toNat < SFS_NDIRECT then bmapDirect fileblock doalloc
  else bmapIndirect (fileblock - UInt32.ofNat SFS_NDIRECT) doalloc

/-! ## Truncation -/

/-- The loop of `sfs_itrunc` over the direct blocks. -/
def truncDirect (blocklen : UInt32) : List (Fin SFS_NDIRECT) → SfsM Inode Unit
  | [] => return ()
  | i :: is => do
      let x ← .read
      let block := x.sv.sv_i.sfi_direct i
      if blocklen.toNat ≤ i.val ∧ block ≠ 0 then
        onVol (Volume.sfsBfree block)
        .modify (setDirect i 0)
      truncDirect blocklen is

/-- The loop of `sfs_itrunc` over the entries of the indirect block, with `idbuf`, `hasnonzero` and
    `iddirty`. -/
def truncEntries (blocklen : UInt32) : List (Fin SFS_DBPERIDB) → (Fin SFS_DBPERIDB → UInt32) →
    Bool → Bool → SfsM Volume ((Fin SFS_DBPERIDB → UInt32) × Bool × Bool)
  | [], idbuf, hasnonzero, iddirty => return (idbuf, hasnonzero, iddirty)
  | j :: js, idbuf, hasnonzero, iddirty => do
      if blocklen.toNat < SFS_NDIRECT + j.val ∧ idbuf j ≠ 0 then
        Volume.sfsBfree (idbuf j)
        truncEntries blocklen js (Function.update idbuf j 0) hasnonzero true
      else truncEntries blocklen js idbuf (hasnonzero || idbuf j ≠ 0) iddirty

/-- The part of `sfs_itrunc` for the indirect block. -/
def truncIndirect (blocklen : UInt32) : SfsM Inode Unit := do
  let x ← .read
  let idblock := x.sv.sv_i.sfi_indirect
  let highblock := SFS_NDIRECT + SFS_DBPERIDB - 1
  if blocklen.toNat < highblock ∧ idblock ≠ 0 then
    let b ← onVol (Volume.sfsReadblock idblock)
    let (idbuf, hasnonzero, iddirty) ←
      onVol (truncEntries blocklen (List.finRange SFS_DBPERIDB) b.words false false)
    if hasnonzero = false then
      onVol (Volume.sfsBfree idblock)
      .modify (setIndirect 0)
    else if iddirty then onVol (Volume.sfsWriteblock idblock (Block.ofWords idbuf))

def sfsItrunc (len : Int) : SfsM Inode Unit := do
  let blocklen := UInt32.ofInt ((len + SFS_BLOCKSIZE - 1).tdiv SFS_BLOCKSIZE)
  truncDirect blocklen (List.finRange SFS_NDIRECT)
  truncIndirect blocklen
  .modify fun x => { x with sv.sv_i.sfi_size := UInt32.ofInt len, sv.sv_dirty := true }

end Inode

end DemandPaging
