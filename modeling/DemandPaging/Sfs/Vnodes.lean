import DemandPaging.Lib.Table
import DemandPaging.Sfs.Dir
import DemandPaging.Sfs.FileIo

set_option autoImplicit false

/-! # The simple file system: vnodes and calls

`kern/fs/sfs/sfs_inode.c`, `kern/fs/sfs/sfs_vnops.c`, `sfs_lookonce` of `kern/fs/sfs/sfs_dir.c` and
the reference counts of `kern/vfs/vnode.c`. The vnodes in memory are in a table, and a pointer to
one is the number of its inode; a pointer to a vnode that is no longer in the table is a dangling
one.

Every call holds `vfs_biglock` from its start to its end, so the calls are steps. `vnode_decref`
decides without the lock that a vnode is to be reclaimed, so that `sfs_reclaim` is a call as well:
others may have come in between. -/

namespace DemandPaging

open Caller (UioRw)

/-- `struct sfs_fs`, and the answers of `kmalloc` to the coming requests. Without any they
    succeed. -/
structure SfsFs where
  vol : Volume
  sfs_vnodes : List SfsVnode
  memory : List Bool

namespace Name

/-- The name in a message. -/
def text (name : Name) : String := String.ofList (name.chars.map fun c => Char.ofNat c.toNat)

end Name

/-! ## One vnode -/

namespace Inode

def sfsSyncInode : SfsM Inode Unit := do
  let x ← .read
  if x.sv.sv_dirty then
    onVol (Volume.sfsWriteblock x.sv.sv_ino x.sv.sv_i.toBlock)
    .modify fun x => { x with sv.sv_dirty := false }

/-- `sfi_linkcount++`, with the inode marked dirty. -/
def addLink (x : Inode) : Inode :=
  { x with sv.sv_i.sfi_linkcount := x.sv.sv_i.sfi_linkcount + 1, sv.sv_dirty := true }

/-- `sfi_linkcount--`, with the inode marked dirty. -/
def dropLink : SfsM Inode Unit := do
  let x ← .read
  .check (0 < x.sv.sv_i.sfi_linkcount) .kassert
  .modify fun x =>
    { x with sv.sv_i.sfi_linkcount := x.sv.sv_i.sfi_linkcount - 1, sv.sv_dirty := true }

def setRefcount (n : Nat) (x : Inode) : Inode := { x with sv.vn_refcount := n }

/-- `sfs_io` for a `uio`, which is given back. -/
def sfsIo (uio : Uio) : SfsM Inode Uio := fun x =>
  match SfsIo.sfsIo ⟨x.vol, x.sv, uio⟩ with
  | .error c => .error c
  | .ok (.error e, y) => .ok (.error e, ⟨y.vol, y.sv⟩)
  | .ok (.ok (), y) => .ok (.ok y.uio, ⟨y.vol, y.sv⟩)

end Inode

/-! ## The table -/

namespace SfsFs

variable {α : Type}

/-- The vnode of an inode. -/
def vnode? (fs : SfsFs) (ino : UInt32) : Option SfsVnode :=
  Table.lookup SfsVnode.sv_ino fs.sfs_vnodes ino

/-- The file system with another volume and another vnode for an inode. -/
def put (ino : UInt32) (x : Inode) (fs : SfsFs) : SfsFs :=
  { fs with
    vol := x.vol
    sfs_vnodes := Table.replace SfsVnode.sv_ino fs.sfs_vnodes ino x.sv }

/-- Code for the volume. -/
def onVol (m : SfsM Volume α) : SfsM SfsFs α := .zoom vol (fun vol fs => { fs with vol := vol }) m

/-- The vnode behind a pointer. -/
def deref (ino : UInt32) : SfsM SfsFs SfsVnode := do
  let fs ← .read
  match fs.vnode? ino with
  | none => .crash .useAfterFree
  | some sv => return sv

/-- Code for a vnode. -/
def onVnode (ino : UInt32) (m : SfsM Inode α) : SfsM SfsFs α := do
  let sv ← deref ino
  .zoom (fun fs => ⟨fs.vol, sv⟩) (put ino) m

/-- A request to `kmalloc`. -/
def kmalloc : SfsM SfsFs Unit := do
  let fs ← .read
  .modify fun fs => { fs with memory := fs.memory.tail }
  if fs.memory.headD true then return () else .fail .ENOMEM

/-- `vnodearray_add`, which may have to make the array larger. -/
def vnodearrayAdd (sv : SfsVnode) : SfsM SfsFs Unit := do
  kmalloc
  .modify fun fs => { fs with sfs_vnodes := fs.sfs_vnodes ++ [sv] }

def vnodeIncref (ino : UInt32) : SfsM SfsFs Unit :=
  onVnode ino (.modify fun x => x.setRefcount (x.sv.vn_refcount + 1))

/-! ## Loading and reclaiming -/

/-- The loop of `sfs_loadvnode` over the table. -/
def searchVnodes (ino : UInt32) : List SfsVnode → SfsM SfsFs Bool
  | [] => return false
  | sv :: svs => do
      let fs ← .read
      if ¬ (← onVol (Volume.sfsBused sv.sv_ino)) then
        .crash (.panic
          s!"sfs: {fs.vol.sb_volname}: Found inode {sv.sv_ino} in unallocated block\n")
      else if sv.sv_ino = ino then return true
      else searchVnodes ino svs

/-- A vnode as `sfs_loadvnode` and `vnode_init` set it up. -/
def loaded (ino : UInt32) (forcetype : UInt16) (d : Dinode) : SfsVnode where
  sv_ino := ino
  sv_i := if forcetype ≠ SFS_TYPE_INVAL then { d with sfi_type := forcetype } else d
  sv_dirty := forcetype ≠ SFS_TYPE_INVAL
  vn_refcount := 1

/-- The part of `sfs_loadvnode` for an inode that is not in memory. -/
def loadInode (ino : UInt32) (forcetype : UInt16) : SfsM SfsFs Unit := do
  let fs ← .read
  kmalloc
  if ¬ (← onVol (Volume.sfsBused ino)) then
    .crash (.panic
      s!"sfs: {fs.vol.sb_volname}: Tried to load inode {ino} from unallocated block\n")
  else
    let b ← onVol (Volume.sfsReadblock ino)
    .check (forcetype ≠ SFS_TYPE_INVAL → (Dinode.ofBlock b).sfi_type = SFS_TYPE_INVAL) .kassert
    let sv := loaded ino forcetype (Dinode.ofBlock b)
    if sv.sv_i.sfi_type = SFS_TYPE_FILE ∨ sv.sv_i.sfi_type = SFS_TYPE_DIR then vnodearrayAdd sv
    else
      .crash (.panic (s!"sfs: {fs.vol.sb_volname}: loadvnode: Invalid inode type " ++
        s!"(inode {ino}, type {sv.sv_i.sfi_type})\n"))

def sfsLoadvnode (ino : UInt32) (forcetype : UInt16) : SfsM SfsFs Unit := do
  let fs ← .read
  if ← searchVnodes ino fs.sfs_vnodes then
    .check (forcetype = SFS_TYPE_INVAL) .kassert
    vnodeIncref ino
  else loadInode ino forcetype

def sfsMakeobj (type : UInt16) : SfsM SfsFs UInt32 := do
  let ino ← onVol Volume.sfsBalloc
  match ← .attempt (sfsLoadvnode ino type) with
  | .ok () => return ino
  | .error e =>
    onVol (Volume.sfsBfree ino)
    .fail e

/-- The end of `sfs_reclaim`: the inode is discarded if it has no links, and the vnode is removed
    from the table. -/
def removeVnode (ino : UInt32) : SfsM SfsFs Unit := do
  let sv ← deref ino
  if sv.sv_i.sfi_linkcount = 0 then
    onVol (Volume.sfsBfree ino)
  let fs ← .read
  if fs.vnode? ino = none then
    .crash (.panic s!"sfs: {fs.vol.sb_volname}: reclaim vnode {ino} not in vnode pool\n")
  else
    .modify fun fs => { fs with sfs_vnodes := Table.remove SfsVnode.sv_ino fs.sfs_vnodes ino }

def sfsReclaim (ino : UInt32) : SfsM SfsFs Unit := do
  let sv ← deref ino
  if sv.vn_refcount ≠ 1 then
    .check (1 < sv.vn_refcount) .kassert
    onVnode ino (.modify (Inode.setRefcount (sv.vn_refcount - 1)))
    .fail .EBUSY
  else
    if sv.sv_i.sfi_linkcount = 0 then
      onVnode ino (Inode.sfsItrunc 0)
    onVnode ino Inode.sfsSyncInode
    removeVnode ino

/-- `vnode_decref`. What `VOP_RECLAIM` returns is at most printed. -/
def vnodeDecref (ino : UInt32) : SfsM SfsFs Unit := do
  let sv ← deref ino
  .check (0 < sv.vn_refcount) .kassert
  if 1 < sv.vn_refcount then
    onVnode ino (.modify (Inode.setRefcount (sv.vn_refcount - 1)))
  else
    let _ ← .attempt (sfsReclaim ino)

/-! ## The calls -/

/-- A call of a function that only directories have; for a file, `ENOTDIR`. -/
def dirOp (v : UInt32) (m : SfsM SfsFs α) : SfsM SfsFs α := do
  let sv ← deref v
  if sv.sv_i.sfi_type = SFS_TYPE_DIR then m else .fail .ENOTDIR

/-- A call of a function that only files have; for a directory, `EISDIR`. -/
def fileOp (v : UInt32) (m : SfsM SfsFs α) : SfsM SfsFs α := do
  let sv ← deref v
  if sv.sv_i.sfi_type = SFS_TYPE_FILE then m else .fail .EISDIR

def sfsGetroot : SfsM SfsFs UInt32 := do
  sfsLoadvnode SFS_ROOTDIR_INO SFS_TYPE_INVAL
  let sv ← deref SFS_ROOTDIR_INO
  if sv.sv_i.sfi_type ≠ SFS_TYPE_DIR then .fail .EINVAL else return SFS_ROOTDIR_INO

def sfsLookonce (dir : UInt32) (name : Name) : SfsM SfsFs (UInt32 × Nat) := do
  let (found, _) ← onVnode dir (Inode.sfsDirFindname name)
  match found with
  | none => .fail .ENOENT
  | some (ino, slot) =>
    sfsLoadvnode ino SFS_TYPE_INVAL
    let sv ← deref ino
    if sv.sv_i.sfi_linkcount = 0 then
      let fs ← .read
      .crash (.panic (s!"sfs: {fs.vol.sb_volname}: name {name.text} (inode {ino}) " ++
        s!"in dir {dir} has linkcount 0\n"))
    else return (ino, slot)

def sfsLookup (v : UInt32) (path : Name) : SfsM SfsFs UInt32 := dirOp v do
  let (final, _) ← sfsLookonce v path
  return final

def sfsCreat (v : UInt32) (name : Name) (excl : Bool) : SfsM SfsFs UInt32 := dirOp v do
  let (found, _) ← onVnode v (Inode.sfsDirFindname name)
  match found with
  | some (ino, _) =>
    if excl then .fail .EEXIST
    else
      sfsLoadvnode ino SFS_TYPE_INVAL
      return ino
  | none =>
    let newguy ← sfsMakeobj SFS_TYPE_FILE
    match ← .attempt (onVnode v (Inode.sfsDirLink name newguy)) with
    | .error e =>
      vnodeDecref newguy
      .fail e
    | .ok _ =>
      onVnode newguy (.modify Inode.addLink)
      return newguy

def sfsLink (dir : UInt32) (name : Name) (file : UInt32) : SfsM SfsFs Unit := dirOp dir do
  let f ← deref file
  if f.sv_i.sfi_type = SFS_TYPE_DIR then .fail .EINVAL
  else
    let _ ← onVnode dir (Inode.sfsDirLink name file)
    onVnode file (.modify Inode.addLink)

def sfsRemove (dir : UInt32) (name : Name) : SfsM SfsFs Unit := dirOp dir do
  let (victim, slot) ← sfsLookonce dir name
  match ← .attempt (onVnode dir (Inode.sfsDirUnlink slot)) with
  | .ok () =>
    onVnode victim Inode.dropLink
    vnodeDecref victim
  | .error e =>
    vnodeDecref victim
    .fail e

/-- The error recovery of `sfs_rename`, when the old slot could not be unlinked. -/
def renameUndo (dir g1 : UInt32) (slot2 : Nat) (e : Errno) : SfsM SfsFs Unit := do
  match ← .attempt (onVnode dir (Inode.sfsDirUnlink slot2)) with
  | .error _ =>
    let fs ← .read
    .crash (.panic s!"sfs: {fs.vol.sb_volname}: rename: Cannot recover\n")
  | .ok () =>
    onVnode g1 (.modify fun x =>
      { x with sv.sv_i.sfi_linkcount := x.sv.sv_i.sfi_linkcount - 1 })
    vnodeDecref g1
    .fail e

def sfsRename (d1 : UInt32) (n1 : Name) (d2 : UInt32) (n2 : Name) : SfsM SfsFs Unit := dirOp d1 do
  .check (d1 = d2) .kassert
  .check (d1 = SFS_ROOTDIR_INO) .kassert
  let (g1, slot1) ← sfsLookonce d1 n1
  let sv ← deref g1
  .check (sv.sv_i.sfi_type = SFS_TYPE_FILE) .kassert
  match ← .attempt (onVnode d1 (Inode.sfsDirLink n2 g1)) with
  | .error e =>
    vnodeDecref g1
    .fail e
  | .ok slot2 =>
    onVnode g1 (.modify Inode.addLink)
    match ← .attempt (onVnode d1 (Inode.sfsDirUnlink slot1)) with
    | .error e => renameUndo d1 g1 slot2 e
    | .ok () =>
      onVnode g1 Inode.dropLink
      vnodeDecref g1

def sfsRead (v : UInt32) (uio : Uio) : SfsM SfsFs Uio := fileOp v do
  .check (uio.uio_rw = .UIO_READ) .kassert
  onVnode v (Inode.sfsIo uio)

def sfsWrite (v : UInt32) (uio : Uio) : SfsM SfsFs Uio := fileOp v do
  .check (uio.uio_rw = .UIO_WRITE) .kassert
  onVnode v (Inode.sfsIo uio)

def sfsTruncate (v : UInt32) (len : Int) : SfsM SfsFs Unit :=
  fileOp v (onVnode v (Inode.sfsItrunc len))

def sfsFsync (v : UInt32) : SfsM SfsFs Unit := onVnode v Inode.sfsSyncInode

end SfsFs

/-- What the rest of the kernel asks of the file system. -/
inductive FsCall
  | getroot
  | lookup (v : UInt32) (path : Name)
  | creat (v : UInt32) (name : Name) (excl : Bool)
  | link (dir : UInt32) (name : Name) (file : UInt32)
  | remove (dir : UInt32) (name : Name)
  | rename (d1 : UInt32) (n1 : Name) (d2 : UInt32) (n2 : Name)
  | io (v : UInt32) (uio : Uio)
  | truncate (v : UInt32) (len : Int)
  | fsync (v : UInt32)
  | incref (v : UInt32)
  | decref (v : UInt32)
  | reclaim (v : UInt32)

namespace FsCall

/-- The code of a call, and the vnode that it hands back, if it does. -/
def run : FsCall → SfsM SfsFs (Option UInt32)
  | getroot => do return some (← SfsFs.sfsGetroot)
  | lookup v path => do return some (← SfsFs.sfsLookup v path)
  | creat v name excl => do return some (← SfsFs.sfsCreat v name excl)
  | link dir name file => do SfsFs.sfsLink dir name file; return none
  | remove dir name => do SfsFs.sfsRemove dir name; return none
  | rename d1 n1 d2 n2 => do SfsFs.sfsRename d1 n1 d2 n2; return none
  | io v uio => do
    match uio.uio_rw with
    | .UIO_READ => let _ ← SfsFs.sfsRead v uio
    | .UIO_WRITE => let _ ← SfsFs.sfsWrite v uio
    return none
  | truncate v len => do SfsFs.sfsTruncate v len; return none
  | fsync v => do SfsFs.sfsFsync v; return none
  | incref v => do SfsFs.vnodeIncref v; return none
  | decref v => do SfsFs.vnodeDecref v; return none
  | reclaim v => do SfsFs.sfsReclaim v; return none

end FsCall

end DemandPaging
