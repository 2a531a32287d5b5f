import DemandPaging.Lib.Naming
import DemandPaging.Sfs.Reclaim

set_option autoImplicit false

/-! # The calls keep a volume consistent

Each call is put together from steps that keep the volume consistent, and from the writing of an
entry followed by the counting of the link. In between one link is still owed. A call that fails has
a reason, and leaves the names as they were. -/

namespace DemandPaging

open Caller (UioRw)
open Fallible
open Function (update)

/-- A map from names to inodes. -/
abbrev Names := List UInt8 → Option UInt32

/-- What a call that returned has done to the names, and the vnode that it hands back. -/
def FsCall.Does (N : Names) (r : Option UInt32) : FsCall → Names → Prop
  | getroot, N' => r = some SFS_ROOTDIR_INO ∧ N' = N
  | lookup _ path, N' => r ≠ none ∧ N path.chars = r ∧ N' = N
  | creat _ name excl, N' => r ≠ none ∧ ((excl = false ∧ N name.chars = r ∧ N' = N) ∨
      (∀ n, N n ≠ r) ∧ N name.chars = none ∧ N' = update N name.chars r)
  | link _ name file, N' => N name.chars = none ∧ N' = update N name.chars (some file)
  | remove _ name, N' => N name.chars ≠ none ∧ N' = update N name.chars none
  | rename _ n1 _ n2, N' => N n1.chars ≠ none ∧ N n2.chars = none ∧
      N' = update (update N n2.chars (N n1.chars)) n1.chars none
  | _, N' => N' = N

/-- A name is not found, or there is no memory for its vnode. -/
def SfsFs.Missing (fs : SfsFs) (N : Names) (name : Name) (e : Errno) : Prop :=
  e = .ENOENT ∧ N name.chars = none ∨ fs.NoMemory e

/-- A name is not put in: it is there, or there is no room for it, with `n` free blocks at most. -/
def SfsFs.Rejects (fs : SfsFs) (N : Names) (n : Nat) (name : Name) (e : Errno) : Prop :=
  e = .EEXIST ∧ N name.chars ≠ none ∨
    N name.chars = none ∧ Inode.NoRoom fs.dirEntry fs.vol n name e

/-- Why a call fails. -/
def FsCall.Refused (fs : SfsFs) (N : Names) (e : Errno) (fs' : SfsFs) : FsCall → Prop
  | getroot => fs.NoMemory e
  | lookup v path => e = .ENOTDIR ∧ v ≠ SFS_ROOTDIR_INO ∨ fs.Missing N path e
  | creat v name excl => e = .ENOTDIR ∧ v ≠ SFS_ROOTDIR_INO ∨ fs.NoMemory e ∨
      e = .EEXIST ∧ excl = true ∧ N name.chars ≠ none ∨
      N name.chars = none ∧ Inode.NoRoom fs.dirEntry fs.vol 2 name e
  | link dir name file => e = .ENOTDIR ∧ dir ≠ SFS_ROOTDIR_INO ∨
      e = .EINVAL ∧ file = SFS_ROOTDIR_INO ∨ fs.Rejects N 1 name e
  | remove dir name => e = .ENOTDIR ∧ dir ≠ SFS_ROOTDIR_INO ∨ fs.Missing N name e
  | rename d1 n1 _ n2 => e = .ENOTDIR ∧ d1 ≠ SFS_ROOTDIR_INO ∨ fs.Missing N n1 e ∨
      N n1.chars ≠ none ∧ fs.Rejects N 1 n2 e
  | io v uio => e = .EISDIR ∧ v = SFS_ROOTDIR_INO ∨ SfsIo.Stuck uio e fs'.vol
  | truncate v _ => e = .EISDIR ∧ v = SFS_ROOTDIR_INO
  | reclaim v => e = .EBUSY ∧ (fs.inode v).sv.vn_refcount ≠ 1
  | fsync _ => False
  | incref _ => False
  | decref _ => False

/-- What a call leaves in the files, whether it returns or fails: the file that it works on may have
    changed, and a file that is new is empty. -/
def FsCall.Leaves (fs : SfsFs) : FsCall → UInt32 → SfsFs.File → Prop
  | io v _, i, d => i = v ∨ (fs.Live i ∧ fs.file i = d)
  | truncate v _, i, d => i = v ∨ (fs.Live i ∧ fs.file i = d)
  | creat _ _ _, i, d => (fs.Live i ∧ fs.file i = d) ∨ (¬ fs.Live i ∧ d = (fun _ => 0, 0))
  | _, i, d => fs.Live i ∧ fs.file i = d

namespace Inode

variable {x : Inode} {F : Nat → Prop}

/-- The inode with another link count. -/
def setLinkcount (n : UInt16) (x : Inode) : Inode :=
  { x with sv.sv_i.sfi_linkcount := n, sv.sv_dirty := true }

/-- The link count is none of the map. -/
theorem Own.setLinkcount (h : x.Own F) (n : UInt16) : Frame F x (setLinkcount n x) where
  own := ⟨h.sound, h.zero, h.exact.congr (fun r _ => by cases r <;> rfl) fun _ => Iff.rfl⟩
  sectors := fun _ _ => rfl
  disk := .refl _
  ino := rfl
  type := rfl
  clean := nofun

theorem wp_sfsIo {uio : Uio} {Q : Uio → Inode → Prop} {E : Errno → Inode → Prop}
    {C : Crash → Prop} :
    (Inode.sfsIo uio).Wp Q E C x ↔
      SfsIo.sfsIo.Wp (fun _ y => Q y.uio y.inode) (fun e y => E e y.inode) C
        ⟨x.vol, x.sv, uio⟩ := by
  unfold Wp Inode.sfsIo
  rcases SfsIo.sfsIo ⟨x.vol, x.sv, uio⟩ with c | ⟨e | a, y⟩ <;> rfl

end Inode

namespace SfsFs

variable {fs fs' : SfsFs} {i v f : UInt32} {name : Name} {slot : Nat} {n : List UInt8}
  {D : Entries} {K : Known} {N N' : Names} {call : FsCall} {α : Type} {Q : α → SfsFs → Prop}
  {E : Errno → SfsFs → Prop}

/-! ## Links -/

/-- One link of an inode is to be counted. -/
abbrev owes (f : UInt32) (n : Int) : UInt32 → Int := Pi.single f n

theorem links_le (fs : SfsFs) (i : UInt32) : fs.links i ≤ Inode.dirSlots :=
  (Finset.card_filter_le ..).trans_eq (Finset.card_range _)

/-- The link count of a file is set to what the entries say. -/
theorem HoldsAt.setLinkcount {n : Int} (h : HoldsAt (owes f n) D K fs) (hl : fs.Loaded f)
    (hf : f ≠ SFS_ROOTDIR_INO) {c : UInt16}
    (hc : (c.toNat : Int) = (fs.inode f).sv.sv_i.sfi_linkcount.toNat + n) :
    HoldsAt 0 D K (fs.put f ((fs.inode f).setLinkcount c)) := by
  refine h.putFile hl hf ((h.own hl.live).setLinkcount c) ?_ ?_ (fun j hj => ?_)
    (h.data f hl.live hf)
  · exact h.refcount_pos hl
  · rw [Pi.zero_apply, owes, Pi.single_eq_same, add_zero]
    exact hc
  · rw [Pi.zero_apply, owes, Pi.single_eq_of_ne hj]

theorem loaded_setLinkcount {c : UInt16} :
    (fs.put f ((fs.inode f).setLinkcount c)).Loaded i ↔ fs.Loaded i :=
  loaded_put sv_ino_inode

/-- The count after a new entry. -/
theorem HoldsAt.addLink (h : HoldsAt (owes f 1) D K fs) (hl : fs.Loaded f)
    (hf : f ≠ SFS_ROOTDIR_INO) : HoldsAt 0 D K (fs.put f (fs.inode f).addLink) := by
  have hlinks := h.links f hl.live hf
  have hle := fs.links_le f
  change fs.links f ≤ 1144 at hle
  rw [owes, Pi.single_eq_same] at hlinks
  refine h.setLinkcount hl hf ?_
  rw [UInt16.toNat_add, Nat.mod_eq_of_lt]
  · rfl
  · change _ + 1 < 2 ^ 16
    omega

/-- The count after an entry was erased. -/
theorem HoldsAt.wp_dropLink (h : HoldsAt (owes f (-1)) D K fs) (hl : fs.Loaded f)
    (hf : f ≠ SFS_ROOTDIR_INO) :
    (onVnode f Inode.dropLink).Total (fun _ fs' => HoldsAt 0 D K fs' ∧ fs'.Loaded f) fs := by
  have hlinks := h.links f hl.live hf
  rw [owes, Pi.single_eq_same] at hlinks
  have hpos : 0 < (fs.inode f).sv.sv_i.sfi_linkcount := by
    rw [UInt16.lt_iff_toNat_lt]
    change 0 < _
    omega
  refine (wp_onVnode hl).2 ?_
  simp only [Inode.dropLink, wp_bind, wp_read, wp_check, wp_modify]
  refine ⟨fun _ => ⟨h.setLinkcount hl hf ?_, loaded_setLinkcount.2 hl⟩, fun hno => hno hpos⟩
  have hone : (1 : UInt16) ≤ (fs.inode f).sv.sv_i.sfi_linkcount := by
    rw [UInt16.le_iff_toNat_le]
    change 1 ≤ _
    omega
  rw [UInt16.toNat_sub_of_le _ _ hone]
  change ((_ - 1 : Nat) : Int) = _
  omega

/-- What `sfs_dir_link` does to the file system. -/
structure Linked (D : Entries) (K : Known) (fs : SfsFs) (name : Name) (f : UInt32)
    (slot : Nat) (fs' : SfsFs) : Prop
    extends Kept (owes f 1) (update D slot (some (f, name.chars))) K fs fs' where
  free : D slot = none
  absent : ∀ l j, D l ≠ some (j, name.chars)

/-- The map has got the name. -/
theorem Linked.naming (h : Linked D K fs name f slot fs') (hN : Naming D N) :
    Naming (update D slot (some (f, name.chars))) (update N name.chars (some f)) := by
  refine hN.write (fun l j hl => absurd hl (h.absent l j)) (fun j m hm => ?_) (some f)
  rw [h.free] at hm
  cases hm

/-- What `sfs_lookonce` hands back: a vnode, and the slot of its name. -/
structure Found (D : Entries) (K : Known) (fs : SfsFs) (name : Name)
    (r : UInt32 × Nat) (fs' : SfsFs) : Prop extends Kept 0 D K fs fs' where
  vnode : fs'.Loaded r.1
  vol : fs'.vol = fs.vol
  file : r.1 ≠ SFS_ROOTDIR_INO
  slot : D r.2 = some (r.1, name.chars)

/-- The volume is consistent, and its names are these. -/
def Named (N : Names) (K : Known) (fs : SfsFs) : Prop :=
  ∃ D, HoldsAt 0 D K fs ∧ Naming D N

/-- The volume is consistent after a call, the names are those that the call leads to, and a vnode
    that it hands back is in memory. -/
def After (N : Names) (K : Known) (call : FsCall) (r : Option UInt32) (fs' : SfsFs) : Prop :=
  ∃ N', call.Does N r N' ∧ Named N' K fs' ∧ ∀ v ∈ r, fs'.Loaded v

theorem Named.after (h : Named N' K fs') (hd : call.Does N none N') : After N K call none fs' :=
  ⟨N', hd, h, fun _ hv => by cases hv⟩

theorem Named.after_some (h : Named N' K fs') (hl : fs'.Loaded i) (hd : call.Does N (some i) N') :
    After N K call (some i) fs' :=
  ⟨N', hd, h, fun _ hv => by cases hv; exact hl⟩

/-- A call has failed for a reason, and the volume is consistent, with the same entries. -/
def Failed (N : Names) (D : Entries) (K : Known) (fs : SfsFs) (call : FsCall) (e : Errno)
    (fs' : SfsFs) : Prop :=
  HoldsAt 0 D K fs' ∧ call.Refused fs N e fs'

/-! ## Which vnode is a directory -/

/-- A directory in memory is the root directory. -/
theorem Holds.eq_root (h : Holds 0 fs) (hl : fs.Loaded v)
    (hd : (fs.inode v).sv.sv_i.sfi_type = SFS_TYPE_DIR) : v = SFS_ROOTDIR_INO := by
  by_contra hne
  have hfile := h.files v hl.live hne
  rw [hd] at hfile
  exact absurd hfile (by decide)

section

variable (h : HoldsAt 0 D K fs)
include h

theorem HoldsAt.wp_dirOp (hl : fs.Loaded v) {m : SfsM SfsFs α}
    (hE : v ≠ SFS_ROOTDIR_INO → E .ENOTDIR fs) (hm : v = SFS_ROOTDIR_INO → m.Safe Q E fs) :
    (dirOp v m).Safe Q E fs := by
  simp only [dirOp, wp_bind, wp_deref hl]
  split
  · next hd => exact hm (h.eq_root hl hd)
  · next hd => exact hE fun hv => hd (hv ▸ h.root.type)

theorem HoldsAt.wp_fileOp (hl : fs.Loaded v) {m : SfsM SfsFs α}
    (hE : v = SFS_ROOTDIR_INO → E .EISDIR fs) (hm : v ≠ SFS_ROOTDIR_INO → m.Safe Q E fs) :
    (fileOp v m).Safe Q E fs := by
  simp only [fileOp, wp_bind, wp_deref hl]
  split
  · next hf =>
    refine hm ?_
    rintro rfl
    rw [h.root.type] at hf
    exact absurd hf (by decide)
  · next hf => exact hE (not_not.1 fun hne => hf (h.files v hl.live hne))

/-! ## Files -/

section

variable (hl : fs.Loaded v) (hK : ∀ d, K v d)
include hl hK

/-- `sfs_read` and `sfs_write`. -/
theorem HoldsAt.wp_fileIo {uio : Uio} (hfit : uio.Fits) {rw : UioRw} (hrw : uio.uio_rw = rw) :
    (fileOp v (do .check (uio.uio_rw = rw) .kassert; onVnode v (Inode.sfsIo uio))).Safe
      (fun _ => HoldsAt 0 D K) (Failed N D K fs (.io v uio)) fs := by
  refine h.wp_fileOp hl (fun hv => ⟨h, .inl ⟨rfl, hv⟩⟩) fun hv => ?_
  simp only [wp_bind, wp_check]
  refine ⟨fun _ => (wp_onVnode hl).2 (Inode.wp_sfsIo.2 ?_), fun hno => hno hrw⟩
  refine (SfsIo.wp_sfsIo (x := ⟨fs.vol, (fs.inode v).sv, uio⟩) (h.own hl.live) hfit).imp₂
    (fun _ y hy => ?_) fun _ y hy => ⟨h.putLocal hl hv hy.frame (hK _), .inr hy.reason⟩
  obtain ⟨bs, hdone⟩ := hy
  exact h.putLocal hl hv hdone.frame (hK _)

theorem HoldsAt.wp_sfsTruncate (len : Int) :
    (sfsTruncate v len).Safe (fun _ => HoldsAt 0 D K) (Failed N D K fs (.truncate v len)) fs := by
  refine h.wp_fileOp hl (fun hv => ⟨h, rfl, hv⟩) fun hv => ?_
  obtain ⟨hrun, hlocal⟩ := (h.own hl.live).sfsItrunc len
  exact (wp_onVnode hl).2 ((wp_of_ok hrun).2 (h.putLocal hl hv hlocal (hK _)))

end

/-! ## The directory -/

theorem HoldsAt.named (hN : Naming D N) : Named N K fs := ⟨D, h, hN⟩

theorem HoldsAt.wp_sfsGetroot :
    sfsGetroot.Safe
      (fun r fs' => r = SFS_ROOTDIR_INO ∧ HoldsAt 0 D K fs' ∧ fs'.Loaded SFS_ROOTDIR_INO)
      (Failed N D K fs .getroot) fs := by
  simp only [sfsGetroot, wp_bind]
  refine (h.wp_sfsLoadvnode live_root).imp₂ (fun _ fs' hload => ?_)
    fun _ _ he => he.imp_left Kept.toHoldsAt
  obtain ⟨hkept, hl, -⟩ := hload
  rw [wp_deref hl, if_neg (not_not.2 hkept.root.type)]
  exact ⟨rfl, hkept.toHoldsAt, hl⟩

/-- A name leads to an inode that counts and is a file. -/
theorem HoldsAt.live_of_entry (hslot : D slot = some (i, n)) :
    fs.Live i ∧ i ≠ SFS_ROOTDIR_INO := by
  have hnamed : fs.NamedBy i slot := by rw [NamedBy, h.entry, hslot, Option.map_some]
  refine ⟨.inr (.inr ⟨slot, hnamed⟩), ?_⟩
  rintro rfl
  exact h.rootUnnamed slot hnamed

section

variable (hroot : fs.Loaded SFS_ROOTDIR_INO)
include hroot

theorem HoldsAt.wp_sfsDirLink (hN : Naming D N) (hl : fs.Loaded f) (hf : f ≠ SFS_ROOTDIR_INO)
    (name : Name) :
    (onVnode SFS_ROOTDIR_INO (Inode.sfsDirLink name f)).Safe (Linked D K fs name f)
      (fun e fs' => Kept 0 D K fs fs' ∧ fs.Rejects N 1 name e) fs := by
  obtain rfl := h.entry
  have hown := h.own hroot.live
  have hne : f ≠ SFS_NOINO := h.ino_ne_zero hl.live
  refine (wp_onVnode hroot).2 ((hown.wp_sfsDirLink h.root h.names name hne).imp₂
    (fun slot x hx => ?_) fun _ x hx => ?_)
  · have hfree : fs.dirEntry slot = none := hx.free
    have hslot : x.dirEntry slot = some (f, name.chars) := by
      rw [hx.entry, Function.update_self]
    have hnot : ∀ j, ¬ fs.NamedBy j slot := by
      intro j hj
      rw [NamedBy, hfree] at hj
      cases hj
    refine ⟨h.putRoot hroot hx.frame hx.isDir (hx.isDir.lt_dirSlots hslot) hx.entry ?_ ?_ ?_,
      hfree, hx.absent⟩
    · rintro j n hjn
      cases hjn
      exact ⟨hl, hf, hx.absent⟩
    · exact fun j hj => absurd hj (hnot j)
    · intro j
      rw [if_neg (hnot j), owes, Pi.zero_apply, Pi.single_apply]
      simp only [Option.map_some, Option.some.injEq, eq_comm (a := f), add_zero, zero_add]
  · refine ⟨h.putSameDir hroot hx.toSameDir, hx.reason.imp (fun hthere => ?_) fun hroom => ?_⟩
    · obtain ⟨he, k, j, hk⟩ := hthere
      exact ⟨he, hN.ne_none hk⟩
    · exact ⟨hN.eq_none hroom.1, hroom.2⟩

/-- `sfs_dir_unlink` of an entry whose inode is in memory. -/
theorem HoldsAt.wp_sfsDirUnlink (hl : fs.Loaded f) (hslot : D slot = some (f, n)) :
    (onVnode SFS_ROOTDIR_INO (Inode.sfsDirUnlink slot)).Total
      (fun _ => Kept (owes f (-1)) (update D slot none) K fs) fs := by
  obtain rfl := h.entry
  have hown := h.own hroot.live
  have hnamed : ∀ j, fs.NamedBy j slot ↔ j = f := by
    intro j
    rw [NamedBy, hslot, Option.map_some, Option.some.injEq]
    exact eq_comm
  refine (wp_onVnode hroot).2 ((hown.wp_sfsDirUnlink h.root hslot).imp fun _ x hx => ?_)
  obtain ⟨hframe, hdir, hentry⟩ := hx
  refine h.putRoot hroot hframe hdir (h.root.lt_dirSlots hslot) hentry
    (fun _ _ hn => by cases hn) ?_ ?_
  · intro j hj
    rw [(hnamed j).1 hj]
    exact hl
  · intro j
    rw [owes, Pi.zero_apply, Pi.single_apply]
    simp only [hnamed, Option.map_none, reduceCtorEq, if_false, add_zero]
    split_ifs <;> rfl

/-- `sfs_dir_findname` leaves the file system as it is. -/
theorem HoldsAt.wp_sfsDirFindname (name : Name) :
    (onVnode SFS_ROOTDIR_INO (Inode.sfsDirFindname name)).Total
      (fun r fs' => (∀ j k, r.1 = some (j, k) → D k = some (j, name.chars)) ∧
        (r.1 = none → ∀ k j, D k ≠ some (j, name.chars)) ∧ fs' = fs) fs := by
  obtain rfl := h.entry
  have hown := h.own hroot.live
  have hput := put_inode h.toCoherent hroot
  refine (wp_onVnode hroot).2 ((hown.wp_sfsDirFindname h.root h.names name).imp fun r x hx => ?_)
  obtain ⟨hfind, rfl⟩ := hx
  exact ⟨hfind.present, hfind.absent, hput⟩

variable (hN : Naming D N)
include hN

theorem HoldsAt.wp_sfsLookonce (name : Name) :
    (sfsLookonce SFS_ROOTDIR_INO name).Safe (Found D K fs name)
      (fun e fs' => HoldsAt 0 D K fs' ∧ fs.Missing N name e) fs := by
  simp only [sfsLookonce, wp_bind]
  refine (h.wp_sfsDirFindname hroot name).noFail.imp fun r fs' hr => ?_
  obtain ⟨found, emptyslot⟩ := r
  obtain ⟨hfind, hno, rfl⟩ := hr
  cases hfound : found with
  | none => exact wp_fail.2 ⟨h, .inl ⟨rfl, hN.eq_none (hno hfound)⟩⟩
  | some p =>
    obtain ⟨i, slot⟩ := p
    have hent := hfind i slot hfound
    obtain ⟨hlive, hne⟩ := h.live_of_entry hent
    simp only [wp_bind]
    refine (h.wp_sfsLoadvnode hlive).imp₂ (fun _ fs₁ hload => ?_)
      fun _ _ he => ⟨he.1.toHoldsAt, .inr he.2⟩
    obtain ⟨hkept, hl, hvol⟩ := hload
    have hlinks : (fs₁.inode i).sv.sv_i.sfi_linkcount ≠ 0 := by
      intro hzero
      refine hkept.unnamed hl.live hne hzero slot ?_
      rw [NamedBy, hkept.entry, hent, Option.map_some]
    rw [wp_deref hl, if_neg hlinks]
    exact ⟨hkept, hl, hvol, hne, hent⟩

/-- A name for a file in memory. -/
theorem HoldsAt.wp_linkNew (hl : fs.Loaded f) (hf : f ≠ SFS_ROOTDIR_INO) (name : Name) :
    (onVnode SFS_ROOTDIR_INO (Inode.sfsDirLink name f)).Safe
      (fun _ fs' => (onVnode f (.modify Inode.addLink)).Total
        (fun _ fs' => N name.chars = none ∧ Named (update N name.chars (some f)) K fs' ∧
          fs'.Loaded f) fs')
      (fun e fs' => Kept 0 D K fs fs' ∧ fs.Rejects N 1 name e) fs := by
  refine (h.wp_sfsDirLink hroot hN hl hf name).imp fun slot fs' hlink => ?_
  have hl' := hlink.loaded f hl
  exact (wp_onVnode hl').2 ⟨hN.eq_none hlink.absent,
    (hlink.addLink hl' hf).named (hlink.naming hN), loaded_setLinkcount.2 hl'⟩

/-- Erasing an entry, counting it, and dropping the reference of the search. -/
theorem HoldsAt.wp_unlink (hl : fs.Loaded f) (hf : f ≠ SFS_ROOTDIR_INO)
    (hslot : D slot = some (f, n)) {Q : Unit → SfsFs → Prop}
    (hQ : ∀ fs', Named (update N n none) K fs' → Q () fs') :
    (onVnode SFS_ROOTDIR_INO (Inode.sfsDirUnlink slot)).Total
      (fun _ fs' => (onVnode f Inode.dropLink).Safe (fun _ fs' => (vnodeDecref f).Safe Q E fs') E
        fs') fs := by
  have hnaming : Naming (update D slot none) (update N n none) := by
    obtain rfl := h.entry
    refine hN.write (fun l j hl => h.names _ _ _ _ n hl hslot) (fun j m hm => ?_) none
    rw [hslot] at hm
    exact (Prod.mk.inj (Option.some.inj hm)).2.symm
  refine (h.wp_sfsDirUnlink hroot hl hslot).imp fun _ fs' hun => ?_
  refine (hun.wp_dropLink (hun.loaded f hl) hf).noFail.imp fun _ fs₂ hdrop => ?_
  exact (hdrop.1.wp_vnodeDecref hdrop.2).noFail.imp fun _ fs₃ hdec => hQ fs₃ (hdec.named hnaming)

end

/-! ## The names -/

variable (hN : Naming D N)
include hN

theorem HoldsAt.wp_sfsLookup (hl : fs.Loaded v) (path : Name) :
    (sfsLookup v path).Safe (fun r => After N K (.lookup v path) (some r))
      (Failed N D K fs (.lookup v path)) fs := by
  refine h.wp_dirOp hl (fun hv => ⟨h, .inl ⟨rfl, hv⟩⟩) ?_
  rintro rfl
  simp only [wp_bind, wp_pure]
  refine (h.wp_sfsLookonce hl hN path).imp₂ (fun _ _ hr => ?_) fun _ _ he => ⟨he.1, .inr he.2⟩
  exact (hr.named hN).after_some hr.vnode ⟨Option.some_ne_none _, hN.eq_some hr.slot, rfl⟩

theorem HoldsAt.wp_sfsCreat (hl : fs.Loaded v) (hK : ∀ b, ¬ fs.Live b → K b (fun _ => 0, 0))
    (name : Name) (excl : Bool) :
    (sfsCreat v name excl).Safe (fun r => After N K (.creat v name excl) (some r))
      (Failed N D K fs (.creat v name excl)) fs := by
  refine h.wp_dirOp hl (fun hv => ⟨h, .inl ⟨rfl, hv⟩⟩) ?_
  rintro rfl
  simp only [wp_bind]
  refine (h.wp_sfsDirFindname hl name).noFail.imp fun r fs' hr => ?_
  obtain ⟨found, emptyslot⟩ := r
  obtain ⟨hfind, hno, rfl⟩ := hr
  cases hfound : found with
  | some p =>
    obtain ⟨i, slot⟩ := p
    have hslot := hfind i slot hfound
    simp only [wp_ite, wp_bind, wp_pure, wp_fail]
    refine ⟨fun hexcl => ⟨h, .inr (.inr (.inl ⟨rfl, hexcl, hN.ne_none hslot⟩))⟩, fun hexcl => ?_⟩
    refine (h.wp_sfsLoadvnode (h.live_of_entry hslot).1).imp₂ (fun _ _ hq => ?_)
      fun _ _ he => ⟨he.1.toHoldsAt, .inr (.inl he.2)⟩
    exact (hq.1.named hN).after_some hq.2.1 ⟨Option.some_ne_none _,
      .inl ⟨Bool.not_eq_true _ ▸ hexcl, hN.eq_some hslot, rfl⟩⟩
  | none =>
    have hnone := hN.eq_none (hno hfound)
    simp only [wp_bind, wp_attempt]
    refine h.wp_sfsMakeobj.imp₂ (fun b fs₁ hborn => ?_) fun _ _ he =>
      ⟨he.1, .inr (he.2.imp_right fun hfull => .inr ⟨hnone, .inr (.inl ?_)⟩)⟩
    case refine_2 => exact ⟨hfull.1, hfull.2.mono (Nat.zero_le 2)⟩
    obtain ⟨hfresh, m, rfl⟩ := hborn
    have hdead := h.not_live_of_fresh hfresh
    have hkept := (h.born hfresh (hK b hdead)).memory m
    have hb : b ≠ SFS_ROOTDIR_INO := fun hb => hdead (hb ▸ live_root)
    have hlb : SfsFs.Loaded { fs'.born b with memory := m } b :=
      (loaded_born h.toCoherent hfresh).2 (.inr rfl)
    refine (hkept.wp_linkNew (hkept.loaded _ hl) hN hlb hb name).imp₂ (fun _ fs₂ hq => ?_)
      fun _ fs₂ he => ?_
    · simp only [wp_pure]
      refine hq.noFail.imp fun _ _ hq => hq.2.1.after_some hq.2.2
        ⟨Option.some_ne_none _, .inr ⟨fun n hn => ?_, hq.1, rfl⟩⟩
      obtain ⟨k, hk⟩ := (hN n b).1 hn
      exact hdead (h.live_of_entry hk).1
    · simp only [wp_fail]
      obtain ⟨he, hwhy⟩ := he
      refine (he.wp_vnodeDecref (he.loaded b hlb)).noFail.imp fun _ _ hdec => ⟨hdec, .inr (.inr ?_)⟩
      rcases hwhy with ⟨-, hthere⟩ | ⟨-, hroom⟩
      · exact absurd hnone hthere
      · refine .inr ⟨hnone, hroom.imp_right (.imp (And.imp_right Volume.Tight.of_alloc) ?_)⟩
        rw [hkept.entry, h.entry]
        exact id

theorem HoldsAt.wp_sfsLink (hl : fs.Loaded v) (hf : fs.Loaded f) (name : Name) :
    (sfsLink v name f).Safe (fun _ => After N K (.link v name f) none)
      (Failed N D K fs (.link v name f)) fs := by
  refine h.wp_dirOp hl (fun hv => ⟨h, .inl ⟨rfl, hv⟩⟩) ?_
  rintro rfl
  simp only [wp_bind, wp_deref hf]
  split
  · next hdir => exact ⟨h, .inr (.inl ⟨rfl, h.eq_root hf hdir⟩)⟩
  · next hfile =>
    have hne : f ≠ SFS_ROOTDIR_INO := by
      rintro rfl
      exact hfile h.root.type
    simp only [wp_bind]
    exact (h.wp_linkNew hl hN hf hne name).imp₂
      (fun _ _ hq => hq.noFail.imp fun _ _ hq => hq.2.1.after ⟨hq.1, rfl⟩)
      fun _ _ he => ⟨he.1.toHoldsAt, .inr (.inr he.2)⟩

theorem HoldsAt.wp_sfsRemove (hl : fs.Loaded v) (name : Name) :
    (sfsRemove v name).Safe (fun _ => After N K (.remove v name) none)
      (Failed N D K fs (.remove v name)) fs := by
  refine h.wp_dirOp hl (fun hv => ⟨h, .inl ⟨rfl, hv⟩⟩) ?_
  rintro rfl
  simp only [wp_bind, wp_attempt]
  refine (h.wp_sfsLookonce hl hN name).imp₂ (fun r fs₁ hr => ?_) fun _ _ he => ⟨he.1, .inr he.2⟩
  refine (hr.wp_unlink (hr.loaded _ hl) hN hr.vnode hr.file hr.slot fun _ h' => ?_).noFail
  exact h'.after ⟨hN.ne_none hr.slot, rfl⟩

theorem HoldsAt.wp_sfsRename (hl : fs.Loaded v) {d : UInt32}
    (hd : fs.Loaded d) (hdir : (fs.inode d).sv.sv_i.sfi_type = SFS_TYPE_DIR) (n1 n2 : Name) :
    (sfsRename v n1 d n2).Safe (fun _ => After N K (.rename v n1 d n2) none)
      (Failed N D K fs (.rename v n1 d n2)) fs := by
  refine h.wp_dirOp hl (fun hv => ⟨h, .inl ⟨rfl, hv⟩⟩) ?_
  rintro rfl
  obtain rfl := h.eq_root hd hdir
  simp only [wp_bind, wp_check]
  refine ⟨fun _ => ⟨fun _ => ?_, fun hno => hno trivial⟩, fun hno => hno trivial⟩
  refine (h.wp_sfsLookonce hl hN n1).imp₂ (fun r fs₁ hr => ?_)
    fun _ _ he => ⟨he.1, .inr (.inl he.2)⟩
  obtain ⟨g1, slot1⟩ := r
  obtain ⟨hkept, hg, hvol, hne, hent⟩ := hr
  have hroot := hkept.loaded _ hl
  have hfile := hkept.files g1 hg.live hne
  simp only [wp_bind, wp_deref hg, wp_attempt]
  refine ⟨fun _ => ?_, fun hno => hno hfile⟩
  refine (hkept.wp_sfsDirLink hroot hN hg hne n2).imp₂ (fun slot2 fs₂ hlink => ?_)
    fun _ fs₂ he => ?_
  · have hg₂ := hlink.loaded g1 hg
    refine (wp_onVnode hg₂).2 ?_
    have hslots : slot1 ≠ slot2 := by
      rintro rfl
      have hfree := hlink.free
      rw [hent] at hfree
      cases hfree
    have hent₂ : update D slot2 (some (g1, n2.chars)) slot1 = some (g1, n1.chars) :=
      (Function.update_of_ne hslots ..).trans hent
    refine ((hlink.addLink hg₂ hne).wp_unlink (loaded_setLinkcount.2 (hlink.loaded _ hroot))
      (hlink.naming hN) (loaded_setLinkcount.2 hg₂) hne hent₂
      fun fs₃ h₃ => ?_).noFail
    refine h₃.after ⟨hN.ne_none hent, hN.eq_none hlink.absent, ?_⟩
    rw [hN.eq_some hent]
  · simp only [wp_fail]
    obtain ⟨he, hwhy⟩ := he
    rw [Rejects, hvol, hkept.entry, ← h.entry] at hwhy
    exact (he.wp_vnodeDecref (he.loaded g1 hg)).noFail.imp fun _ _ hdec =>
      ⟨hdec, .inr (.inr ⟨hN.ne_none hent, hwhy⟩)⟩

end

end SfsFs

namespace FsCall

variable {fs : SfsFs}

/-- What a call may rely on: its caller has references to the vnodes, buffers that are large enough,
    and for `sfs_rename` a second directory. -/
def Valid (fs : SfsFs) : FsCall → Prop
  | getroot => True
  | lookup v _ => fs.Loaded v
  | creat v _ _ => fs.Loaded v
  | link dir _ file => fs.Loaded dir ∧ fs.Loaded file
  | remove dir _ => fs.Loaded dir
  | rename d1 _ d2 _ =>
    fs.Loaded d1 ∧ fs.Loaded d2 ∧ (fs.inode d2).sv.sv_i.sfi_type = SFS_TYPE_DIR
  | io v uio => fs.Loaded v ∧ uio.Fits
  | truncate v _ => fs.Loaded v
  | fsync v => fs.Loaded v
  | incref v => fs.Loaded v
  | decref v => fs.Loaded v
  | reclaim v => fs.Loaded v

instance (fs : SfsFs) (call : FsCall) : Decidable (call.Valid fs) := by
  cases call <;> dsimp only [Valid, SfsFs.Loaded, Uio.Fits] <;> infer_instance

theorem leaves_self {call : FsCall} {i : UInt32} (hi : fs.Live i) :
    call.Leaves fs i (fs.file i) := by
  cases call with
  | io v uio => exact .inr ⟨hi, rfl⟩
  | truncate v len => exact .inr ⟨hi, rfl⟩
  | creat v name excl => exact .inl ⟨hi, rfl⟩
  | _ => exact ⟨hi, rfl⟩

/-- Every call returns, the volume is consistent again, and a call that failed has left the names as
    they were. -/
theorem wp_run (h : SfsFs.Holds 0 fs) {N : Names} (hN : Naming fs.dirEntry N) {call : FsCall}
    (hv : call.Valid fs) : call.run.Safe (SfsFs.After N (call.Leaves fs) call)
      (SfsFs.Failed N fs.dirEntry (call.Leaves fs) fs call) fs := by
  have h : SfsFs.HoldsAt 0 _ (call.Leaves fs) fs := ⟨h, rfl, fun i hi _ => leaves_self hi⟩
  have hsame : ∀ fs', SfsFs.HoldsAt 0 fs.dirEntry (call.Leaves fs) fs' → call.Does N none N →
      SfsFs.After N (call.Leaves fs) call none fs' := fun fs' h' => (h'.named hN).after
  cases call <;> simp only [run, wp_bind, wp_pure]
  case getroot =>
    refine h.wp_sfsGetroot.imp fun r fs' hr => ?_
    obtain ⟨rfl, h', hl⟩ := hr
    exact (h'.named hN).after_some hl ⟨rfl, rfl⟩
  case lookup v path => exact h.wp_sfsLookup hN hv path
  case creat v name excl => exact h.wp_sfsCreat hN hv (fun _ hb => .inr ⟨hb, rfl⟩) name excl
  case link dir name file => exact h.wp_sfsLink hN hv.1 hv.2 name
  case remove dir name => exact h.wp_sfsRemove hN hv name
  case rename d1 n1 d2 n2 => exact h.wp_sfsRename hN hv.1 hv.2.1 hv.2.2 n1 n2
  case io v uio =>
    cases hrw : uio.uio_rw <;> simp only [wp_bind, wp_pure] <;>
      exact (h.wp_fileIo hv.1 (fun _ => .inl rfl) hv.2 hrw).imp fun _ fs' h' => hsame fs' h' rfl
  case truncate v len =>
    exact (h.wp_sfsTruncate hv (fun _ => .inl rfl) len).imp fun _ fs' h' => hsame fs' h' rfl
  case fsync v =>
    exact (h.wp_sfsSyncInode hv).noFail.imp fun _ fs' hq => hsame fs' hq.toHoldsAt rfl
  case incref v => exact (h.wp_vnodeIncref hv).noFail.imp fun _ fs' h' => hsame fs' h' rfl
  case decref v => exact (h.wp_vnodeDecref hv).noFail.imp fun _ fs' h' => hsame fs' h' rfl
  case reclaim v => exact (h.wp_sfsReclaim hv).imp fun _ fs' h' => hsame fs' h' rfl

end FsCall

end DemandPaging
