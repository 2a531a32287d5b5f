import DemandPaging.Sfs

set_option autoImplicit false

/-! # The simple file system: reading and writing files

`sfs_partialio`, `sfs_blockio` and `sfs_io` of `kern/fs/sfs/sfs_io.c`. A request is cut at the block
boundaries. A part of a block goes through a buffer of the file system; a whole block is transferred
between the device and the `uio` directly, with the offset of the `uio` set to that on the device
for the time of the transfer. -/

namespace DemandPaging

/-- A volume, the vnode of a file and the `uio` of a request. -/
structure SfsIo where
  vol : Volume
  sv : SfsVnode
  uio : Uio

namespace SfsIo

variable {α : Type}

/-- Code for the volume and the vnode. -/
def onInode (m : SfsM Inode α) : SfsM SfsIo α :=
  .zoom (fun x => ⟨x.vol, x.sv⟩) (fun t x => { x with vol := t.vol, sv := t.sv }) m

/-- Code for the volume and the `uio`. -/
def onRequest (m : SfsM Request α) : SfsM SfsIo α :=
  .zoom (fun x => ⟨x.vol, x.uio⟩) (fun t x => { x with vol := t.vol, uio := t.uio }) m

/-- Code for the volume. -/
def onVol (m : SfsM Volume α) : SfsM SfsIo α := .zoom vol (fun vol x => { x with vol := vol }) m

/-- Code for the `uio`. -/
def onUio (m : SfsM Uio α) : SfsM SfsIo α := .zoom uio (fun u x => { x with uio := u }) m

/-- The block of the file in which the request goes on. -/
def fileblock (u : Uio) : UInt32 := UInt32.ofNat (u.uio_offset / SFS_BLOCKSIZE)

/-- The first lines of `sfs_partialio` and `sfs_blockio`: the disk block, which is allocated if and
    only if we are writing. -/
def mapBlock : SfsM SfsIo UInt32 := do
  let x ← .read
  onInode (Inode.sfsBmap (fileblock x.uio) (x.uio.uio_rw = .UIO_WRITE))

/-- The block in the buffer of `sfs_partialio`. -/
def loadPart (diskblock : UInt32) : SfsM SfsIo Block := do
  let x ← .read
  if diskblock = 0 then
    .check (x.uio.uio_rw = .UIO_READ) .kassert
    return Block.zeros
  else onVol (Volume.sfsReadblock diskblock)

/-- The rest of `sfs_partialio`, with the block in the buffer. -/
def movePart (diskblock : UInt32) (iobuf : Block) (skipstart len : Nat) : SfsM SfsIo Unit := do
  let x ← .read
  let buf := iobuf.toList
  let part ← onUio (Uio.uiomove ((buf.drop skipstart).take len))
  if x.uio.uio_rw = .UIO_WRITE then
    onVol (Volume.sfsWriteblock diskblock
      (Block.ofList (buf.take skipstart ++ part ++ buf.drop (skipstart + len))))

def sfsPartialio (skipstart len : Nat) : SfsM SfsIo Unit := do
  .check (skipstart + len ≤ SFS_BLOCKSIZE) .kassert
  let diskblock ← mapBlock
  let iobuf ← loadPart diskblock
  movePart diskblock iobuf skipstart len

/-- The offset on the device that `sfs_blockio` computes, in 32 bits. -/
def diskoff (diskblock : UInt32) : Nat := (diskblock * UInt32.ofNat SFS_BLOCKSIZE).toNat

/-- The rest of `sfs_blockio`, when the disk block is known. -/
def blockTransfer (diskblock : UInt32) : SfsM SfsIo Unit := do
  let x ← .read
  if diskblock = 0 then
    .check (x.uio.uio_rw = .UIO_READ) .kassert
    onUio (Uio.uiomovezeros SFS_BLOCKSIZE)
  else
    let saveoff := x.uio.uio_offset
    let saveres := x.uio.uio_resid
    .check (SFS_BLOCKSIZE ≤ saveres) .kassert
    .modify fun x =>
      { x with uio.uio_offset := diskoff diskblock, uio.uio_resid := SFS_BLOCKSIZE }
    let result ← .attempt (onRequest Request.sfsRwblock)
    .modify fun x =>
      { x with
        uio.uio_offset := x.uio.uio_offset - diskoff diskblock + saveoff
        uio.uio_resid := x.uio.uio_resid + saveres - SFS_BLOCKSIZE }
    .resume result

def sfsBlockio : SfsM SfsIo Unit := do
  let diskblock ← mapBlock
  blockTransfer diskblock

/-- The loop of `sfs_io` over the whole blocks. -/
def sfsBlocks : Nat → SfsM SfsIo Unit
  | 0 => return ()
  | nblocks + 1 => do
      sfsBlockio
      sfsBlocks nblocks

/-- The part of `sfs_io` for a leading partial block. -/
def sfsHead : SfsM SfsIo Unit := do
  let x ← .read
  let blkoff := x.uio.uio_offset % SFS_BLOCKSIZE
  if blkoff ≠ 0 then sfsPartialio blkoff (min (SFS_BLOCKSIZE - blkoff) x.uio.uio_resid)

/-- The part of `sfs_io` for a partial block at the end. -/
def sfsLast : SfsM SfsIo Unit := do
  let x ← .read
  .check (x.uio.uio_resid < SFS_BLOCKSIZE) .kassert
  if 0 < x.uio.uio_resid then sfsPartialio 0 x.uio.uio_resid

/-- The part of `sfs_io` behind the leading block. -/
def sfsAligned : SfsM SfsIo Unit := do
  let x ← .read
  if x.uio.uio_resid = 0 then return ()
  else
    .check (x.uio.uio_offset % SFS_BLOCKSIZE = 0) .kassert
    sfsBlocks (x.uio.uio_resid / SFS_BLOCKSIZE)
    sfsLast

/-- The part of `sfs_io` that transfers. -/
def sfsTransfer : SfsM SfsIo Unit := do
  sfsHead
  sfsAligned

/-- The end of `sfs_io`: the file length, where something was written, and what could not be read
    because of the end of the file. -/
def finish (origresid extraresid : Nat) (x : SfsIo) : SfsIo :=
  let sv :=
    if x.uio.uio_resid ≠ origresid ∧ x.uio.uio_rw = .UIO_WRITE ∧
        x.sv.sv_i.sfi_size.toNat < x.uio.uio_offset then
      { x.sv with sv_i.sfi_size := UInt32.ofNat x.uio.uio_offset, sv_dirty := true }
    else x.sv
  { x with sv := sv, uio.uio_resid := x.uio.uio_resid + extraresid }

def sfsIo : SfsM SfsIo Unit := do
  let x ← .read
  let origresid := x.uio.uio_resid
  let size := x.sv.sv_i.sfi_size.toNat
  let endpos := x.uio.uio_offset + x.uio.uio_resid
  if x.uio.uio_rw = .UIO_READ ∧ size ≤ x.uio.uio_offset then return ()
  else
    let extraresid := if x.uio.uio_rw = .UIO_READ then endpos - size else 0
    .check (extraresid = 0 ∨ extraresid < x.uio.uio_resid) .kassert
    .modify fun x => { x with uio.uio_resid := x.uio.uio_resid - extraresid }
    let result ← .attempt sfsTransfer
    .modify (finish origresid extraresid)
    .resume result

end SfsIo

end DemandPaging
