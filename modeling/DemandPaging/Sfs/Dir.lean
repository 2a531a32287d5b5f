import DemandPaging.Sfs

set_option autoImplicit false

/-! # The simple file system: the directory

`kern/fs/sfs/sfs_dir.c`, and `sfs_metaio` of `kern/fs/sfs/sfs_io.c`. A volume has one directory,
which is a file of entries of 64 bytes: the number of an inode and a name. An entry with the inode
number 0 is free.

Names are strings of C, as the list of their bytes without the 0 at the end. -/

namespace DemandPaging

open Caller (UioRw)

abbrev SFS_NAMELEN : Nat := 60

def SFS_NOINO : UInt32 := 0

def SFS_ROOTDIR_INO : UInt32 := 1

/-- A string of C. -/
structure Name where
  chars : List UInt8
  nonzero : 0 ∉ chars
deriving DecidableEq

/-- `struct sfs_direntry`. -/
@[ext] structure Direntry where
  sfd_ino : UInt32
  sfd_name : Fin SFS_NAMELEN → UInt8

namespace Direntry

/-- `sizeof(struct sfs_direntry)`. -/
abbrev size : Nat := 64

def toBytes (sd : Direntry) : List UInt8 :=
  List.ofFn (wordBytes sd.sfd_ino) ++ List.ofFn sd.sfd_name

def ofBytes (l : List UInt8) : Direntry where
  sfd_ino := wordOf fun i => l.getD i 0
  sfd_name := fun i => l.getD (4 + i) 0

/-- The name as `strcmp` sees it, with the last byte set to 0. -/
def chars (sd : Direntry) : List UInt8 :=
  ((List.ofFn sd.sfd_name).take (SFS_NAMELEN - 1)).takeWhile (· ≠ 0)

/-- The entry that `sfs_dir_link` sets up: `bzero`, the inode number and `strcpy`. -/
def make (ino : UInt32) (name : Name) : Direntry where
  sfd_ino := ino
  sfd_name := fun i => name.chars.getD i 0

/-- The entry that `sfs_dir_unlink` sets up. -/
def none : Direntry := ⟨SFS_NOINO, fun _ => 0⟩

end Direntry

namespace Inode

/-- The end of `sfs_metaio`: the size of the vnode, if something was written behind it. -/
def extend (endpos : Nat) (x : Inode) : Inode :=
  if x.sv.sv_i.sfi_size.toNat < endpos then
    { x with sv.sv_i.sfi_size := UInt32.ofNat endpos, sv.sv_dirty := true }
  else x

/-- `sfs_metaio`. It gives back what is in the buffer `data` then. -/
def sfsMetaio (actualpos : Nat) (data : List UInt8) (rw : UioRw) : SfsM Inode (List UInt8) := do
  let vnblock := UInt32.ofNat (actualpos / SFS_BLOCKSIZE)
  let blockoffset := actualpos % SFS_BLOCKSIZE
  let diskblock ← sfsBmap vnblock (rw = .UIO_WRITE)
  if diskblock = 0 then
    .check (rw = .UIO_READ) .kassert
    return List.replicate data.length 0
  else
    let metaiobuf ← onVol (Volume.sfsReadblock diskblock)
    if rw = .UIO_READ then return (metaiobuf.toList.drop blockoffset).take data.length
    else
      onVol (Volume.sfsWriteblock diskblock (metaiobuf.splice blockoffset data))
      .modify (extend (actualpos + data.length))
      return data

def sfsReaddir (slot : Nat) : SfsM Inode Direntry := do
  let bytes ← sfsMetaio (slot * Direntry.size) (List.replicate Direntry.size 0) .UIO_READ
  return Direntry.ofBytes bytes

def sfsWritedir (slot : Nat) (sd : Direntry) : SfsM Inode Unit := do
  let _ ← sfsMetaio (slot * Direntry.size) sd.toBytes .UIO_WRITE

def sfsDirNentries : SfsM Inode Nat := do
  let x ← .read
  .check (x.sv.sv_i.sfi_type = SFS_TYPE_DIR) .kassert
  let size := x.sv.sv_i.sfi_size
  if size.toNat % Direntry.size ≠ 0 then
    .crash (.panic s!"sfs: {x.vol.sb_volname}: directory {x.sv.sv_ino}: Invalid size {size}\n")
  else return size.toNat / Direntry.size

/-- The loop of `sfs_dir_findname` over the slots from `i` on, with what was found so far: the inode
    number and the slot of the name, and an empty slot. -/
def findnameLoop (name : Name) : Nat → Nat → Option (UInt32 × Nat) → Option Nat →
    SfsM Inode (Option (UInt32 × Nat) × Option Nat)
  | 0, _, found, emptyslot => return (found, emptyslot)
  | left + 1, i, found, emptyslot => do
      let tsd ← sfsReaddir i
      if tsd.sfd_ino = SFS_NOINO then findnameLoop name left (i + 1) found (some i)
      else if tsd.chars = name.chars then
        .check (found = none) .kassert
        findnameLoop name left (i + 1) (some (tsd.sfd_ino, i)) emptyslot
      else findnameLoop name left (i + 1) found emptyslot

/-- `sfs_dir_findname`. Where it finds nothing it returns `ENOENT`, which not all callers take for
    an error. -/
def sfsDirFindname (name : Name) : SfsM Inode (Option (UInt32 × Nat) × Option Nat) := do
  let nentries ← sfsDirNentries
  findnameLoop name nentries 0 none none

/-- `sfs_dir_link`. It gives back the slot. -/
def sfsDirLink (name : Name) (ino : UInt32) : SfsM Inode Nat := do
  let (found, emptyslot) ← sfsDirFindname name
  if found ≠ none then .fail .EEXIST
  else if SFS_NAMELEN < name.chars.length + 1 then .fail .ENAMETOOLONG
  else
    match emptyslot with
    | some slot =>
      sfsWritedir slot (Direntry.make ino name)
      return slot
    | none =>
      let slot ← sfsDirNentries
      sfsWritedir slot (Direntry.make ino name)
      return slot

def sfsDirUnlink (slot : Nat) : SfsM Inode Unit := sfsWritedir slot Direntry.none

end Inode

end DemandPaging
