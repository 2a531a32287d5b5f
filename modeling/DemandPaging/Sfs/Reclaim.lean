import DemandPaging.Sfs.Consistency

set_option autoImplicit false

/-! # Vnodes that come and go

Loading an inode, counting its references and writing it back change nothing of what the inodes look
like, so a consistent volume stays consistent. A new file takes a free block for its inode, which
nobody refers to. An inode without links and references has lost its blocks before its own is given
back. -/

namespace DemandPaging

open Fallible

namespace Inode

/-- The inode after `sfs_sync_inode`. -/
def synced (x : Inode) : Inode :=
  if x.sv.sv_dirty then
    ⟨x.vol.write x.sv.sv_ino.toNat x.sv.sv_i.toBlock, { x.sv with sv_dirty := false }⟩
  else x

theorem sfsSyncInode_eq {x : Inode} (hq : x.vol.Quiet)
    (hlt : x.sv.sv_ino.toNat < x.vol.sb_nblocks.toNat) :
    sfsSyncInode x = .ok (.ok (), x.synced) := by
  refine Wp.eq_ok ?_
  simp only [sfsSyncInode, wp_bind, wp_read, synced]
  split
  · simp only [onVol, wp_bind, wp_zoom, wp_modify]
    exact (wp_of_ok (hq.sfsWriteblock (UInt32.lt_iff_toNat_lt.2 hlt))).2 ⟨trivial, rfl⟩
  · exact ⟨trivial, rfl⟩

end Inode

namespace SfsFs

variable {fs fs' : SfsFs} {i j : UInt32} {x : Inode} {sv : SfsVnode} {owed : UInt32 → Int}
  {D : Entries} {K K' : Known} {α : Type}

/-! ## Pointers -/

theorem wp_deref (hl : fs.Loaded i) {Q : SfsVnode → SfsFs → Prop} {E : Errno → SfsFs → Prop}
    {C : Crash → Prop} : (deref i).Wp Q E C fs ↔ Q (fs.inode i).sv fs := by
  simp only [deref, wp_bind, wp_read, hl.vnode, wp_pure]

theorem wp_onVnode (hl : fs.Loaded i) {m : SfsM Inode α} {Q : α → SfsFs → Prop}
    {E : Errno → SfsFs → Prop} {C : Crash → Prop} :
    (onVnode i m).Wp Q E C fs ↔
      m.Wp (fun a x => Q a (fs.put i x)) (fun e x => E e (fs.put i x)) C (fs.inode i) := by
  rw [onVnode, wp_bind, wp_deref hl, wp_zoom]
  rfl

theorem put_inode (h : Coherent owed fs) (hl : fs.Loaded i) : fs.put i (fs.inode i) = fs := by
  have hself := Table.replace_lookup h.table hl.vnode
  rw [put, hself]
  rfl

/-! ## What looks the same stays consistent -/

theorem sameView_of_vnode (hv : fs'.vnode? j = fs.vnode? j)
    (hdisk : ¬ fs.Loaded j → fs'.vol.sectors j.toNat = fs.vol.sectors j.toNat)
    (hslots : ∀ s, (fs.inode j).slot s ≠ 0 →
      fs'.vol.sectors ((fs.inode j).slot s).toNat = fs.vol.sectors ((fs.inode j).slot s).toNat) :
    Inode.SameView (fs.inode j) (fs'.inode j) := by
  refine Inode.sameView_of_sectors ?_ hslots
  by_cases hl : fs.Loaded j
  · have hsv := hl.vnode
    rw [inode_of_vnode (hv.trans hsv)]
  · have hl' : ¬ fs'.Loaded j := by
      rw [Loaded, hv]
      exact hl
    rw [inode_of_not hl, inode_of_not hl']
    exact congrArg Dinode.ofBlock (hdisk hl)

/-- A vnode has a reference, and it is dirty or the disk has its inode. -/
def Backed (fs : SfsFs) (i : UInt32) (sv : SfsVnode) : Prop :=
  0 < sv.vn_refcount ∧
    (sv.sv_dirty = false → Dinode.ofBlock (fs.vol.sectors i.toNat) = sv.sv_i)

theorem Coherent.backed (h : Coherent owed fs) (hi : fs.vnode? i = some sv) : fs.Backed i sv :=
  ⟨h.refcount i sv hi, h.clean i sv hi⟩

theorem Backed.congr (h : fs.Backed i sv)
    (hsec : fs'.vol.sectors i.toNat = fs.vol.sectors i.toNat) : fs'.Backed i sv := by
  rwa [Backed, hsec]

/-- A step that leaves the directory alone. -/
theorem HoldsAt.of_root (h : HoldsAt owed D K fs) (hsound : fs'.vol.Sound)
    (htable : (fs'.sfs_vnodes.map SfsVnode.sv_ino).Nodup)
    (hbacked : ∀ i sv, fs'.vnode? i = some sv → fs'.Backed i sv)
    (hroot : Inode.SameView (fs.inode SFS_ROOTDIR_INO) (fs'.inode SFS_ROOTDIR_INO))
    (hfiles : ∀ i, fs'.Live i → i ≠ SFS_ROOTDIR_INO →
      (fs'.inode i).sv.sv_i.sfi_type = SFS_TYPE_FILE ∧
        ((fs'.inode i).sv.sv_i.sfi_linkcount.toNat : Int) + owed i = fs.links i ∧
        K' i (fs'.file i))
    (hexact : Exact fs'.vol.Taken fs'.Ref) : HoldsAt owed D K' fs' := by
  have hdir := dirEntry_eq_of_sameView hroot
  refine ⟨⟨?_, hsound⟩, hdir.trans h.entry, fun i hi hne => (hfiles i hi hne).2.2⟩
  constructor
  case table => exact htable
  case refcount => exact fun i sv hi => (hbacked i sv hi).1
  case clean => exact fun i sv hi => (hbacked i sv hi).2
  case root => exact hroot.isDir h.root
  case rootLinks =>
    rw [hroot.dinode]
    exact h.rootLinks
  case rootUnnamed =>
    intro k
    rw [NamedBy, hdir]
    exact h.rootUnnamed k
  case names => exact hroot.distinctNames h.names
  case files => exact fun i hi hne => (hfiles i hi hne).1
  case links =>
    intro i hi hne
    rw [links_congr hdir]
    exact (hfiles i hi hne).2.1
  case exact => exact hexact

/-- A step after which the inodes look the same. -/
theorem HoldsAt.of_sameView (h : HoldsAt owed D K fs) (hdisk : fs.vol.SameDisk fs'.vol)
    (hmarks : ∀ b, fs'.vol.Marked b ↔ fs.vol.Marked b)
    (htable : (fs'.sfs_vnodes.map SfsVnode.sv_ino).Nodup)
    (hbacked : ∀ i sv, fs'.vnode? i = some sv → fs'.Backed i sv)
    (hview : ∀ i, fs.Live i → Inode.SameView (fs.inode i) (fs'.inode i))
    (hlive : ∀ i, fs'.Live i ↔ fs.Live i) : HoldsAt owed D K fs' := by
  refine h.of_root (h.sound.of_sameDisk hdisk fun b _ hb => (hmarks b).2 hb) htable hbacked
    (hview _ live_root) (fun i hi hne => ?_) (h.exact.congr (fun r b => ?_) fun b => ?_)
  · have hi := (hlive i).1 hi
    rw [(hview i hi).dinode]
    exact ⟨h.files i hi hne, h.links i hi hne, h.data_of_sameView hi hne (hview i hi)⟩
  · cases r with
    | super => exact Iff.rfl
    | freemap j => simp only [Ref, hdisk.nblocks]
    | inode j => simp only [Ref, hlive]
    | slot j s =>
      simp only [Ref, hlive]
      refine and_congr_right fun hj => ?_
      rw [(hview j hj).slot]
  · rw [Volume.Taken, Volume.Taken, hdisk.nblocks, hmarks]

/-- A step that may change the table, but neither the inodes in memory nor the directory. -/
theorem live_of_sameView
    (hroot : Inode.SameView (fs.inode SFS_ROOTDIR_INO) (fs'.inode SFS_ROOTDIR_INO))
    (hl : ∀ i, fs'.Loaded i ↔ fs.Loaded i) (i : UInt32) : fs'.Live i ↔ fs.Live i :=
  live_congr (dirEntry_eq_of_sameView hroot) (fun j hj => ((hl j).1 hj).live)
    (fun j hj => ((hl j).2 hj).live) i

theorem HoldsAt.mono (h : HoldsAt owed D K fs) (hK : ∀ i d, K i d → K' i d) :
    HoldsAt owed D K' fs :=
  ⟨h.toHolds, h.entry, fun i hi hne => hK i _ (h.data i hi hne)⟩

theorem HoldsAt.kept (h : HoldsAt owed D K fs) : Kept owed D K fs fs := ⟨h, fun _ hj => hj⟩

/-- The block of an inode is none of a slot. -/
theorem Coherent.slot_ne_ino (h : Coherent owed fs) (hi : fs.Live i) (hj : fs.Live j) {s : Slot}
    (hs : (fs.inode j).slot s ≠ 0) : ((fs.inode j).slot s).toNat ≠ i.toNat := by
  intro heq
  cases h.exact.unique (.slot j s) (.inode i) _ ⟨hj, hs, rfl⟩ ⟨hi, heq⟩

theorem toNat_ne (h : j ≠ i) : j.toNat ≠ i.toNat := fun heq => h (UInt32.toNat_inj.1 heq)

/-- A vnode was replaced by one that looks the same, and at most the block of its inode written. -/
theorem HoldsAt.putView (h : HoldsAt owed D K fs) (hl : fs.Loaded i) (hino : x.sv.sv_ino = i)
    (hdisk : fs.vol.SameDisk x.vol) (hmarks : ∀ b, x.vol.Marked b ↔ fs.vol.Marked b)
    (hsec : ∀ b, b ≠ i.toNat → x.vol.sectors b = fs.vol.sectors b)
    (hd : x.sv.sv_i = (fs.inode i).sv.sv_i) (hx : (fs.put i x).Backed i x.sv) :
    Kept owed D K fs (fs.put i x) ∧
      Inode.SameView (fs.inode i) ((fs.put i x).inode i) := by
  have hself := inode_put_self hino hl
  have hslots : ∀ j, fs.Live j → ∀ s, (fs.inode j).slot s ≠ 0 →
      (fs.put i x).vol.sectors ((fs.inode j).slot s).toNat
        = fs.vol.sectors ((fs.inode j).slot s).toNat :=
    fun j hj s hs => hsec _ (h.slot_ne_ino hl.live hj hs)
  have hview : ∀ j, fs.Live j → Inode.SameView (fs.inode j) ((fs.put i x).inode j) := by
    intro j hj
    by_cases hji : j = i
    · subst hji
      refine Inode.sameView_of_sectors ?_ (hslots j hj)
      rw [hself, hd]
    · exact sameView_of_vnode (vnode_put_of_ne hino hji) (fun _ => hsec _ (toNat_ne hji))
        (hslots j hj)
  have hloaded : ∀ j, (fs.put i x).Loaded j ↔ fs.Loaded j := fun j => loaded_put hino
  refine ⟨⟨h.of_sameView hdisk hmarks ?_ (fun j sv hj => ?_) hview
    (live_of_sameView (hview _ live_root) hloaded), fun j hj => (hloaded j).2 hj⟩,
    hview i hl.live⟩
  · have hkeys : (fs.put i x).sfs_vnodes.map SfsVnode.sv_ino = _ := Table.keys_replace hino
    rw [hkeys]
    exact h.table
  · rcases vnode_put_cases hino hl hj with ⟨rfl, rfl⟩ | ⟨hji, hj⟩
    · exact hx
    · exact (h.backed hj).congr (hsec _ (toNat_ne hji))

/-! ## References -/

theorem HoldsAt.setRefcount (h : HoldsAt owed D K fs) (hl : fs.Loaded i) {n : Nat} (hn : 0 < n) :
    Kept owed D K fs (fs.put i ((fs.inode i).setRefcount n)) :=
  (h.putView (x := (fs.inode i).setRefcount n) hl sv_ino_inode (.refl _) (fun _ => Iff.rfl)
    (fun _ _ => rfl) rfl ⟨hn, (h.backed hl.vnode).2⟩).1

/-! ## Writing back -/

/-- What is known of an inode that was written back. -/
structure Synced (owed : UInt32 → Int) (D : Entries) (K : Known) (i : UInt32)
    (fs fs' : SfsFs) : Prop extends Kept owed D K fs fs' where
  view : Inode.SameView (fs.inode i) (fs'.inode i)
  saved : (fs'.inode i).sv.sv_dirty = false

theorem HoldsAt.synced (h : HoldsAt owed D K fs) (hl : fs.Loaded i) :
    Synced owed D K i fs (fs.put i (fs.inode i).synced) := by
  by_cases hdirty : (fs.inode i).sv.sv_dirty = true
  · have hsync : (fs.inode i).synced = ⟨fs.vol.write i.toNat (fs.inode i).sv.sv_i.toBlock,
        { (fs.inode i).sv with sv_dirty := false }⟩ := by
      rw [Inode.synced, if_pos hdirty, sv_ino_inode]
      rfl
    have hino : (fs.inode i).synced.sv.sv_ino = i := by
      rw [hsync]
      exact sv_ino_inode
    have hbacked : (fs.put i (fs.inode i).synced).Backed i (fs.inode i).synced.sv := by
      rw [SfsFs.put, hsync]
      refine ⟨h.refcount_pos hl, fun _ => ?_⟩
      change Dinode.ofBlock ((fs.vol.write i.toNat _).sectors i.toNat) = _
      rw [Volume.sectors_write_self, Dinode.ofBlock_toBlock]
    obtain ⟨hkept, hview⟩ := h.putView hl hino
      (by rw [hsync]; exact ⟨rfl, rfl, rfl, rfl, rfl⟩) (by rw [hsync]; exact fun _ => Iff.rfl)
      (by rw [hsync]; exact fun b hb => Volume.sectors_write_of_ne hb ..) (by rw [hsync]) hbacked
    refine ⟨hkept, hview, ?_⟩
    rw [inode_put_self hino hl, hsync]
  · have hsync : (fs.inode i).synced = fs.inode i := by rw [Inode.synced, if_neg hdirty]
    rw [hsync, put_inode h.toCoherent hl]
    exact ⟨h.kept, Inode.sameView_of_sectors rfl fun _ _ => rfl,
      Bool.not_eq_true _ ▸ hdirty⟩

/-- `sfs_sync_inode` of a vnode. -/
theorem HoldsAt.wp_sfsSyncInode (h : HoldsAt owed D K fs) (hl : fs.Loaded i) :
    (onVnode i Inode.sfsSyncInode).Total (fun _ => Synced owed D K i fs) fs := by
  have hlt : (fs.inode i).sv.sv_ino.toNat < fs.vol.sb_nblocks.toNat := by
    rw [sv_ino_inode]
    exact (h.inode_taken hl.live).1
  refine (wp_onVnode hl).2 ((wp_of_ok (Inode.sfsSyncInode_eq h.sound.quiet hlt)).2 ?_)
  exact h.synced hl

/-! ## Loading -/

theorem wp_kmalloc {Q : Unit → SfsFs → Prop} {E : Errno → SfsFs → Prop} {C : Crash → Prop}
    (hQ : Q () { fs with memory := fs.memory.tail })
    (hE : false ∈ fs.memory → E .ENOMEM { fs with memory := fs.memory.tail }) :
    kmalloc.Wp Q E C fs := by
  simp only [kmalloc, wp_bind, wp_read, wp_modify]
  split
  · exact hQ
  · next hno =>
    refine hE ?_
    cases hm : fs.memory with
    | nil => simp [hm] at hno
    | cons b m =>
      rw [hm, List.headD_cons, Bool.not_eq_true] at hno
      rw [hno]
      exact List.mem_cons_self

/-- `kmalloc` is going to refuse a request. -/
def NoMemory (fs : SfsFs) (e : Errno) : Prop := e = .ENOMEM ∧ false ∈ fs.memory

/-- The search finds the vnode if it is there, as all vnodes are in blocks in use. -/
theorem searchVnodes_eq {l : List SfsVnode} (h : ∀ sv ∈ l, fs.vol.Taken sv.sv_ino.toNat) :
    searchVnodes i l fs = .ok (.ok (Table.lookup SfsVnode.sv_ino l i).isSome, fs) := by
  induction l with
  | nil => rfl
  | cons sv l ih =>
    obtain ⟨hlt, hm⟩ := h sv List.mem_cons_self
    have hm : fs.vol.sfs_freemap.v sv.sv_ino.toNat = true := hm
    have ih := ih fun sv' hsv' => h sv' (List.mem_cons_of_mem _ hsv')
    refine Wp.eq_ok ?_
    simp only [searchVnodes, onVol, wp_bind, wp_read, wp_zoom, wp_of_ok (Volume.sfsBused_eq hlt),
      hm, not_true_eq_false, if_false, Table.lookup_cons]
    split
    · exact ⟨rfl, rfl⟩
    · exact (wp_of_ok ih).2 ⟨rfl, rfl⟩

/-- The file system with one more vnode. -/
def enter (sv : SfsVnode) (fs : SfsFs) : SfsFs := { fs with sfs_vnodes := fs.sfs_vnodes ++ [sv] }

theorem vnode_enter (h : ¬ fs.Loaded sv.sv_ino) :
    (fs.enter sv).vnode? j = if j = sv.sv_ino then some sv else fs.vnode? j :=
  Table.lookup_append (Option.not_isSome_iff_eq_none.1 h)

theorem vnode_enter_cases {sv' : SfsVnode} (h : ¬ fs.Loaded sv.sv_ino)
    (hj : (fs.enter sv).vnode? j = some sv') :
    (j = sv.sv_ino ∧ sv' = sv) ∨ (j ≠ sv.sv_ino ∧ fs.vnode? j = some sv') := by
  rw [vnode_enter h] at hj
  split at hj
  · next hji => exact .inl ⟨hji, (Option.some.inj hj).symm⟩
  · next hji => exact .inr ⟨hji, hj⟩

theorem loaded_enter (h : ¬ fs.Loaded sv.sv_ino) :
    (fs.enter sv).Loaded j ↔ fs.Loaded j ∨ j = sv.sv_ino := by
  rw [Loaded, vnode_enter h]
  split
  · next hj => exact ⟨fun _ => .inr hj, fun _ => rfl⟩
  · next hj => exact ⟨.inl, fun hc => hc.resolve_right hj⟩

/-- The part of `sfs_loadvnode` for an inode that is not in memory. -/
theorem wp_loadInode {forcetype : UInt16} (hq : fs.vol.Quiet) (ht : fs.vol.Taken i.toNat)
    (hnew : forcetype ≠ SFS_TYPE_INVAL →
      (Dinode.ofBlock (fs.vol.sectors i.toNat)).sfi_type = SFS_TYPE_INVAL)
    (htype : (loaded i forcetype (Dinode.ofBlock (fs.vol.sectors i.toNat))).sv_i.sfi_type
        = SFS_TYPE_FILE ∨
      (loaded i forcetype (Dinode.ofBlock (fs.vol.sectors i.toNat))).sv_i.sfi_type = SFS_TYPE_DIR) :
    (loadInode i forcetype).Safe
      (fun _ fs' => ∃ m, fs' = { fs.enter (loaded i forcetype
        (Dinode.ofBlock (fs.vol.sectors i.toNat))) with memory := m })
      (fun e fs' => fs.NoMemory e ∧ ∃ m, fs' = { fs with memory := m }) fs := by
  obtain ⟨hlt, hm⟩ := ht
  have hm : fs.vol.sfs_freemap.v i.toNat = true := hm
  have hread := hq.sfsReadblock (UInt32.lt_iff_toNat_lt.2 hlt)
  simp only [loadInode, vnodearrayAdd, wp_bind, wp_read]
  refine wp_kmalloc ?_ fun hm => ⟨⟨rfl, hm⟩, _, rfl⟩
  simp only [onVol, wp_zoom]
  refine (wp_of_ok (Volume.sfsBused_eq hlt)).2 ?_
  rw [if_neg (by rw [hm]; decide)]
  simp only [wp_bind, wp_zoom, wp_check]
  refine (wp_of_ok hread).2 ⟨fun _ => ?_, fun hno => hno hnew⟩
  rw [if_pos htype]
  simp only [wp_bind, wp_modify]
  exact wp_kmalloc ⟨_, rfl⟩ fun hm => ⟨⟨rfl, List.mem_of_mem_tail hm⟩, _, rfl⟩

/-- An inode that counts is loaded. -/
theorem HoldsAt.enter (h : HoldsAt owed D K fs) (hi : fs.Live i) (hnot : ¬ fs.Loaded i) :
    Kept owed D K fs
      (fs.enter (loaded i SFS_TYPE_INVAL (Dinode.ofBlock (fs.vol.sectors i.toNat)))) := by
  have hsv : loaded i SFS_TYPE_INVAL (Dinode.ofBlock (fs.vol.sectors i.toNat)) =
      ⟨i, Dinode.ofBlock (fs.vol.sectors i.toNat), false, 1⟩ := rfl
  generalize loaded i SFS_TYPE_INVAL (Dinode.ofBlock (fs.vol.sectors i.toNat)) = sv at hsv ⊢
  have hino : sv.sv_ino = i := by rw [hsv]
  have hnot' : ¬ fs.Loaded sv.sv_ino := hino ▸ hnot
  have hview : ∀ j, Inode.SameView (fs.inode j) ((fs.enter sv).inode j) := by
    intro j
    by_cases hj : j = i
    · subst hj
      have hv : (fs.enter sv).vnode? j = some sv := (vnode_enter hnot').trans (if_pos hino.symm)
      rw [inode_of_not hnot, inode_of_vnode hv, hsv]
      exact Inode.sameView_of_sectors rfl fun _ _ => rfl
    · have hv : (fs.enter sv).vnode? j = fs.vnode? j :=
        (vnode_enter hnot').trans (if_neg fun hc => hj (hc.trans hino))
      exact sameView_of_vnode hv (fun _ => rfl) fun _ _ => rfl
  have hlive := live_congr (dirEntry_eq_of_sameView (hview _))
    (fun j hj => ((loaded_enter hnot').1 hj).elim Loaded.live fun hc => (hc.trans hino) ▸ hi)
    fun j hj => ((loaded_enter hnot').2 (.inl hj)).live
  refine ⟨h.of_sameView (.refl _) (fun _ => Iff.rfl) ?_ (fun j sv' hj => ?_)
    (fun j _ => hview j) hlive, fun j hj => (loaded_enter hnot').2 (.inl hj)⟩
  · exact Table.keys_append h.table (Option.not_isSome_iff_eq_none.1 hnot')
  · rcases vnode_enter_cases hnot' hj with ⟨rfl, rfl⟩ | ⟨-, hj⟩
    · rw [hino, hsv]
      exact ⟨Nat.one_pos, fun _ => rfl⟩
    · exact h.backed hj

/-- The answers of `kmalloc` are none of the volume. -/
theorem Kept.memory (h : Kept owed D K fs fs') (m : List Bool) :
    Kept owed D K fs { fs' with memory := m } :=
  ⟨⟨⟨⟨h.table, h.refcount, h.clean, h.root, h.rootLinks, h.rootUnnamed, h.names, h.files, h.links,
    h.exact⟩, h.sound⟩, h.entry, h.data⟩, h.loaded⟩

/-- The vnodes are in blocks in use. -/
theorem Coherent.vnode_taken (h : Coherent owed fs) :
    ∀ sv ∈ fs.sfs_vnodes, fs.vol.Taken sv.sv_ino.toNat :=
  fun _ hsv => h.inode_taken (loaded_of_mem hsv).live

/-- `sfs_loadvnode` of an inode that counts. -/
theorem HoldsAt.wp_sfsLoadvnode (h : HoldsAt owed D K fs) (hi : fs.Live i) :
    (sfsLoadvnode i SFS_TYPE_INVAL).Safe
      (fun _ fs' => Kept owed D K fs fs' ∧ fs'.Loaded i ∧ fs'.vol = fs.vol)
      (fun e fs' => Kept owed D K fs fs' ∧ fs.NoMemory e) fs := by
  simp only [sfsLoadvnode, wp_bind, wp_read]
  refine (wp_of_ok (searchVnodes_eq h.vnode_taken)).2 ?_
  split
  · next hfound =>
    have hl : fs.Loaded i := hfound
    simp only [wp_bind, wp_check, vnodeIncref]
    refine ⟨fun _ => (wp_onVnode hl).2 ?_, fun hno => hno trivial⟩
    have hkept := h.setRefcount hl (Nat.succ_pos (fs.inode i).sv.vn_refcount)
    exact ⟨hkept, hkept.loaded i hl, rfl⟩
  · next hnone =>
    have hnot : ¬ fs.Loaded i := hnone
    have htype : (Dinode.ofBlock (fs.vol.sectors i.toNat)).sfi_type = SFS_TYPE_FILE ∨
        (Dinode.ofBlock (fs.vol.sectors i.toNat)).sfi_type = SFS_TYPE_DIR := by
      have hinode := inode_of_not hnot
      by_cases hroot : i = SFS_ROOTDIR_INO
      · have hdir := h.root.type
        rw [← hroot, hinode] at hdir
        exact .inr hdir
      · have hfile := h.files i hi hroot
        rw [hinode] at hfile
        exact .inl hfile
    refine (wp_loadInode h.sound.quiet (h.inode_taken hi) (fun hc => absurd rfl hc) htype).imp₂
      (fun _ fs' hfs => ?_) fun _ fs' hfs => ?_
    · obtain ⟨m, rfl⟩ := hfs
      exact ⟨(h.enter hi hnot).memory m, (loaded_enter hnot).2 (.inr rfl), rfl⟩
    · obtain ⟨hmem, m, rfl⟩ := hfs
      exact ⟨h.kept.memory m, hmem⟩

/-! ## New files -/

/-- The vnode of a new file. -/
def newFile (b : UInt32) : SfsVnode := loaded b SFS_TYPE_FILE (Dinode.ofBlock Block.zeros)

/-- The file system with a new file, in a free block. -/
def born (b : UInt32) (fs : SfsFs) : SfsFs := { fs with vol := fs.vol.alloc b }.enter (newFile b)

/-- An inode with at most one data block. -/
theorem slot_of_single {x : Inode} {d : UInt32} (hid : x.sv.sv_i.sfi_indirect = 0)
    (hdirect : ∀ l : Fin SFS_NDIRECT, x.sv.sv_i.sfi_direct l = if l.val = 0 then d else 0)
    (s : Slot) : x.slot s = if s = .data 0 then d else 0 := by
  cases s with
  | indirect => rw [if_neg nofun, Inode.slot, hid]
  | data k =>
    simp only [Inode.slot, Slot.data.injEq]
    rcases Dinode.fileBlock_cases k.val with ⟨l, hl⟩ | ⟨l, hl⟩ | hbehind
    · rw [hl, Inode.mapped_direct, hdirect, ← hl]
      simp only [Fin.ext_iff]
      rfl
    · have hne : k ≠ 0 := fun h0 => by
        rw [h0] at hl
        exact absurd hl.symm (by change 15 + l.val ≠ 0; omega)
      rw [if_neg hne, hl]
      exact Inode.mapped_none hid (Nat.le_add_right ..)
    · exact absurd k.2 (Nat.not_lt.2 hbehind)

theorem slot_newFile {vol : Volume} {b : UInt32} (s : Slot) :
    (⟨vol, newFile b⟩ : Inode).slot s = 0 := by
  have hid : (newFile b).sv_i.sfi_indirect = 0 := Inode.words_zeros 17
  have hdirect : ∀ l, (newFile b).sv_i.sfi_direct l = if l.val = 0 then 0 else 0 := fun l =>
    (Inode.words_zeros _).trans (ite_self 0).symm
  exact (slot_of_single (x := ⟨vol, newFile b⟩) hid hdirect s).trans (ite_self 0)

theorem linkcount_newFile (b : UInt32) : (newFile b).sv_i.sfi_linkcount = 0 := by
  change UInt16.ofNat (Block.zeros.words 1).toNat = 0
  rw [Inode.words_zeros]
  rfl

theorem size_newFile (b : UInt32) : (newFile b).sv_i.sfi_size = 0 := Inode.words_zeros 0

variable {b : UInt32}

/-- Nothing refers to a fresh block. -/
theorem Coherent.not_live_of_fresh (h : Coherent owed fs) (hb : fs.vol.Fresh b) : ¬ fs.Live b :=
  fun hl => hb.2 (h.inode_taken hl).2

theorem Coherent.ref_ne_fresh (h : Coherent owed fs) (hb : fs.vol.Fresh b) {r : Role} {c : Nat}
    (hr : fs.Ref r c) : c ≠ b.toNat := by
  rintro rfl
  exact hb.2 (h.exact.marked r _ hr).2

/-- Blocks that nobody refers to make no difference to an inode. -/
theorem Coherent.sameView_of_fresh (h : Coherent owed fs) (hb : fs.vol.Fresh b) (hj : fs.Live j)
    (hv : fs'.vnode? j = fs.vnode? j)
    (hsec : ∀ c, c ≠ b.toNat → fs'.vol.sectors c = fs.vol.sectors c) :
    Inode.SameView (fs.inode j) (fs'.inode j) :=
  sameView_of_vnode hv
    (fun _ => hsec _ (h.ref_ne_fresh hb (r := .inode j) ⟨hj, rfl⟩))
    fun s hs => hsec _ (h.ref_ne_fresh hb (r := .slot j s) ⟨hj, hs, rfl⟩)

theorem loaded_born (h : Coherent owed fs) (hb : fs.vol.Fresh b) :
    (fs.born b).Loaded j ↔ fs.Loaded j ∨ j = b :=
  loaded_enter fun hl => h.not_live_of_fresh hb (Loaded.live hl)

theorem HoldsAt.born (h : HoldsAt 0 D K fs) (hb : fs.vol.Fresh b) (hK : K b (fun _ => 0, 0)) :
    Kept 0 D K fs (fs.born b) := by
  have hdead := h.not_live_of_fresh hb
  have hnot : ¬ ({ fs with vol := fs.vol.alloc b } : SfsFs).Loaded (newFile b).sv_ino :=
    fun hl => hdead (Loaded.live hl)
  have hloaded : ∀ j, (fs.born b).Loaded j ↔ fs.Loaded j ∨ j = b :=
    fun j => loaded_born h.toCoherent hb
  have hvnode : ∀ j, (fs.born b).vnode? j = if j = b then some (newFile b) else fs.vnode? j :=
    fun j => vnode_enter hnot
  have hself : (fs.born b).inode b = ⟨fs.vol.alloc b, newFile b⟩ :=
    inode_of_vnode ((hvnode b).trans (if_pos rfl))
  have hsec : ∀ c, c ≠ b.toNat → (fs.born b).vol.sectors c = fs.vol.sectors c :=
    fun c hc => Volume.sectors_alloc_of_ne hc
  have hview : ∀ j, fs.Live j → Inode.SameView (fs.inode j) ((fs.born b).inode j) := by
    intro j hj
    refine h.sameView_of_fresh hb hj ((hvnode j).trans (if_neg ?_)) hsec
    rintro rfl
    exact hdead hj
  have hdir : (fs.born b).dirEntry = fs.dirEntry := dirEntry_eq_of_sameView (hview _ live_root)
  have hlive : ∀ j, (fs.born b).Live j ↔ fs.Live j ∨ j = b := by
    intro j
    rw [live_iff hdir, hloaded, Live]
    tauto
  have hdisk : fs.vol.SameDisk (fs.born b).vol := ⟨rfl, rfl, rfl, rfl, rfl⟩
  have hmarks : ∀ c, (fs.born b).vol.Marked c ↔ fs.vol.Marked c ∨ c = b.toNat :=
    fun _ => Volume.marked_alloc
  refine ⟨h.of_root (h.sound.of_sameDisk hdisk fun c _ hc => (hmarks c).2 (.inl hc)) ?_
    (fun j sv hj => ?_) (hview _ live_root) (fun j hj hne => ?_) ?_,
    fun j hj => (hloaded j).2 (.inl hj)⟩
  · exact Table.keys_append h.table (Option.not_isSome_iff_eq_none.1 hnot)
  · rcases vnode_enter_cases hnot hj with ⟨-, rfl⟩ | ⟨hjb, hj⟩
    · exact ⟨Nat.one_pos, fun hc => by cases hc⟩
    · exact (h.backed hj).congr (hsec _ (toNat_ne hjb))
  · rcases (hlive j).1 hj with hj | rfl
    · rw [(hview j hj).dinode]
      exact ⟨h.files j hj hne, h.links j hj hne, h.data_of_sameView hj hne (hview j hj)⟩
    · have hzero : fs.links j = 0 := by
        refine Finset.card_eq_zero.2 (Finset.filter_eq_empty_iff.2 fun k _ hk => ?_)
        exact hdead (.inr (.inr ⟨k, hk⟩))
      rw [file, hself, hzero, linkcount_newFile, Inode.byte_of_slots slot_newFile, size_newFile]
      exact ⟨rfl, rfl, hK⟩
  · refine h.exact.give (.inode b) (fun ht => hb.2 ht.2) (fun r c => ?_)
      (Inode.taken_alloc hb hdisk hmarks)
    cases r with
    | super => simp [Ref]
    | freemap l => simp [Ref, hdisk.nblocks]
    | inode j =>
      simp only [Ref, hlive, Role.inode.injEq, or_and_right]
      exact or_congr_right (and_congr_right fun hj => by rw [hj])
    | slot j s =>
      simp only [Ref, hlive, reduceCtorEq, false_and, or_false]
      constructor
      · rintro ⟨hj | rfl, hs, hc⟩
        · rw [(hview j hj).slot] at hs hc
          exact ⟨hj, hs, hc⟩
        · rw [hself] at hs
          exact absurd (slot_newFile s) hs
      · rintro ⟨hj, hs, hc⟩
        rw [(hview j hj).slot]
        exact ⟨.inl hj, hs, hc⟩

/-- The block of a file that could not be loaded is free again. -/
theorem HoldsAt.unborn (h : HoldsAt owed D K fs) (hb : fs.vol.Fresh b) :
    Kept owed D K fs { fs with vol := (fs.vol.alloc b).setMark b.toNat false } := by
  have hsec : ∀ c, c ≠ b.toNat →
      ((fs.vol.alloc b).setMark b.toNat false).sectors c = fs.vol.sectors c :=
    fun c hc => Volume.sectors_alloc_of_ne hc
  have hmarks : ∀ c, ((fs.vol.alloc b).setMark b.toNat false).Marked c ↔ fs.vol.Marked c := by
    intro c
    rw [Volume.marked_setMark_false, Volume.marked_alloc]
    refine ⟨fun hm => hm.1.resolve_right hm.2, fun hm => ⟨.inl hm, ?_⟩⟩
    rintro rfl
    exact hb.2 hm
  have hview : ∀ j, fs.Live j → Inode.SameView (fs.inode j)
      (inode { fs with vol := (fs.vol.alloc b).setMark b.toNat false } j) :=
    fun j hj => h.sameView_of_fresh hb hj rfl hsec
  refine ⟨h.of_sameView ⟨rfl, rfl, rfl, rfl, rfl⟩ hmarks h.table (fun j sv hj => ?_)
    hview (live_of_sameView (hview _ live_root) fun _ => Iff.rfl), fun _ hj => hj⟩
  have hl : fs.Live j := Loaded.live (Option.isSome_iff_exists.2 ⟨sv, hj⟩)
  exact (h.backed hj).congr (hsec _ (h.ref_ne_fresh hb (r := .inode j) ⟨hl, rfl⟩))

/-- What `sfs_makeobj` has done: a new file is there. -/
def Born (fs : SfsFs) (b : UInt32) (fs' : SfsFs) : Prop :=
  fs.vol.Fresh b ∧ ∃ m, fs' = { fs.born b with memory := m }

theorem HoldsAt.wp_sfsMakeobj (h : HoldsAt 0 D K fs) :
    (sfsMakeobj SFS_TYPE_FILE).Safe (Born fs)
      (fun e fs' => HoldsAt 0 D K fs' ∧ (fs.NoMemory e ∨ e = .ENOSPC ∧ fs.vol.Tight 0)) fs := by
  simp only [sfsMakeobj, onVol, wp_bind, wp_zoom, wp_attempt]
  refine (Volume.wp_sfsBalloc h.sound).imp₂ (fun b vol hb => ?_) fun _ vol he => ?_
  · obtain ⟨hfresh, rfl⟩ := hb
    have hmarks : ∀ c, (fs.vol.alloc b).Marked c ↔ fs.vol.Marked c ∨ c = b.toNat :=
      fun _ => Volume.marked_alloc
    have htaken : ∀ sv ∈ fs.sfs_vnodes, (fs.vol.alloc b).Taken sv.sv_ino.toNat := by
      intro sv hsv
      obtain ⟨hlt, hm⟩ := h.vnode_taken sv hsv
      exact ⟨hlt, (hmarks _).2 (.inl hm)⟩
    have hnot : (Table.lookup SfsVnode.sv_ino fs.sfs_vnodes b).isSome = false :=
      Bool.eq_false_iff.2 fun hl => h.not_live_of_fresh hfresh (Loaded.live hl)
    have hzeros : (fs.vol.alloc b).sectors b.toNat = Block.zeros := Volume.sectors_write_self ..
    have hq : (fs.vol.alloc b).Quiet := ⟨h.sound.quiet.faults, h.sound.quiet.blocks⟩
    have hinval : (Dinode.ofBlock Block.zeros).sfi_type = SFS_TYPE_INVAL := by
      change UInt16.ofNat ((Block.zeros.words 1).toNat / 2 ^ 16) = _
      rw [Inode.words_zeros]
      rfl
    simp only [sfsLoadvnode, wp_bind, wp_read]
    have hsearch : searchVnodes b fs.sfs_vnodes { fs with vol := fs.vol.alloc b } = _ :=
      searchVnodes_eq htaken
    refine (wp_of_ok hsearch).2 ?_
    rw [hnot, if_neg Bool.false_ne_true]
    have hload : (loadInode b SFS_TYPE_FILE).Wp _ _ _ { fs with vol := fs.vol.alloc b } :=
      wp_loadInode hq ⟨hfresh.1, (hmarks _).2 (.inr rfl)⟩ (fun _ => by rw [hzeros, hinval])
        (.inl rfl)
    refine hload.imp₂ (fun _ fs' hfs => ?_) fun _ fs' hfs => ?_
    · obtain ⟨m, rfl⟩ := hfs
      refine ⟨hfresh, m, ?_⟩
      rw [hzeros]
      rfl
    · obtain ⟨hmem, m, rfl⟩ := hfs
      simp only [Volume.wp_sfsBfree, wp_fail]
      have hbits : b.toNat < fs.vol.sfs_freemap.nbits :=
        Nat.lt_of_lt_of_le hfresh.1 h.sound.nbits.1
      refine ⟨fun _ => ⟨fun _ => ?_, fun hno => hno ((hmarks _).2 (.inr rfl))⟩,
        fun hno => hno hbits⟩
      exact ⟨((h.unborn hfresh).memory m).toHoldsAt, .inl hmem⟩
  · obtain ⟨hfull, rfl⟩ := he
    exact ⟨h, .inr hfull⟩

/-! ## Removing a vnode -/

/-- The file system without the vnode of an inode. -/
def forget (i : UInt32) (fs : SfsFs) : SfsFs :=
  { fs with sfs_vnodes := Table.remove SfsVnode.sv_ino fs.sfs_vnodes i }

theorem vnode_forget (h : (fs.sfs_vnodes.map SfsVnode.sv_ino).Nodup) :
    (fs.forget i).vnode? j = if j = i then none else fs.vnode? j :=
  Table.lookup_remove h

theorem vnode_of_forget (h : (fs.sfs_vnodes.map SfsVnode.sv_ino).Nodup)
    (hj : (fs.forget i).vnode? j = some sv) :
    j ≠ i ∧ fs.vnode? j = some sv := by
  rw [vnode_forget h] at hj
  split at hj
  · cases hj
  · next hji => exact ⟨hji, hj⟩

theorem loaded_forget (h : (fs.sfs_vnodes.map SfsVnode.sv_ino).Nodup) :
    (fs.forget i).Loaded j ↔ j ≠ i ∧ fs.Loaded j := by
  rw [Loaded, vnode_forget h]
  split
  · next hj => exact ⟨fun hc => (by cases hc), fun hc => absurd hj hc.1⟩
  · next hj => exact ⟨fun hl => ⟨hj, hl⟩, fun hc => hc.2⟩

/-- An inode that is on the disk as it is in memory, and that counts without its vnode. -/
theorem HoldsAt.forget (h : HoldsAt owed D K fs) (hl : fs.Loaded i)
    (hclean : (fs.inode i).sv.sv_dirty = false)
    (hi : i = SFS_ROOTDIR_INO ∨ ∃ k, fs.NamedBy i k) :
    HoldsAt owed D K (fs.forget i) := by
  have hview : ∀ j, Inode.SameView (fs.inode j) ((fs.forget i).inode j) := by
    intro j
    by_cases hj : j = i
    · subst hj
      have hnot : ¬ (fs.forget j).Loaded j := fun hc => ((loaded_forget h.table).1 hc).1 rfl
      refine Inode.sameView_of_sectors ?_ fun _ _ => rfl
      rw [inode_of_not hnot]
      exact h.clean j _ hl.vnode hclean
    · exact sameView_of_vnode ((vnode_forget h.table).trans (if_neg hj)) (fun _ => rfl)
        fun _ _ => rfl
  have hdir : (fs.forget i).dirEntry = fs.dirEntry := dirEntry_eq_of_sameView (hview _)
  have hlive := live_congr hdir
    (fun j hj => ((loaded_forget h.table).1 hj).2.live) fun j hj => by
      by_cases hji : j = i
      · subst hji
        refine hi.imp id fun hk => .inr ?_
        obtain ⟨k, hk⟩ := hk
        exact ⟨k, by rw [NamedBy, hdir]; exact hk⟩
      · exact ((loaded_forget h.table).2 ⟨hji, hj⟩).live
  exact h.of_sameView (.refl _) (fun _ => Iff.rfl) (Table.keys_remove h.table)
    (fun j sv hj => h.backed (vnode_of_forget h.table hj).2) (fun j _ => hview j) hlive

/-- The file system without an inode. -/
def erase (i : UInt32) (fs : SfsFs) : SfsFs :=
  { fs with vol := fs.vol.setMark i.toNat false }.forget i

/-- An inode without blocks and names is discarded. -/
theorem HoldsAt.erase (h : HoldsAt owed D K fs) (hl : fs.Loaded i) (hi : i ≠ SFS_ROOTDIR_INO)
    (hslots : ∀ s, (fs.inode i).slot s = 0) (hnamed : ∀ k, ¬ fs.NamedBy i k)
    (hK : ∀ j d, j ≠ i → K j d → K' j d) : HoldsAt owed D K' (fs.erase i) := by
  have hlive_i := hl.live
  have hvnode : ∀ j, (fs.erase i).vnode? j = if j = i then none else fs.vnode? j :=
    fun j => vnode_forget h.table
  have hloaded : ∀ j, (fs.erase i).Loaded j ↔ j ≠ i ∧ fs.Loaded j := fun j => loaded_forget h.table
  have hview : ∀ j, j ≠ i → Inode.SameView (fs.inode j) ((fs.erase i).inode j) :=
    fun j hj => sameView_of_vnode ((hvnode j).trans (if_neg hj)) (fun _ => rfl) fun _ _ => rfl
  have hroot := hview _ hi.symm
  have hdir : (fs.erase i).dirEntry = fs.dirEntry := dirEntry_eq_of_sameView hroot
  have hlive : ∀ j, (fs.erase i).Live j ↔ fs.Live j ∧ j ≠ i := by
    intro j
    rw [live_iff hdir, hloaded, Live]
    by_cases hji : j = i
    · simp [hji, hi, hnamed]
    · simp [hji]
  -- every role but that of the inode has another block
  have hother : ∀ r c, fs.Ref r c → r ≠ .inode i → c ≠ i.toNat := by
    rintro r c hr hne rfl
    exact hne (h.exact.unique r (.inode i) _ hr ⟨hlive_i, rfl⟩)
  have hlt := (h.inode_taken hlive_i).1
  have hmarks : ∀ c, (fs.erase i).vol.Marked c ↔ fs.vol.Marked c ∧ c ≠ i.toNat :=
    fun _ => Volume.marked_setMark_false
  refine h.of_root (h.sound.of_sameDisk ⟨rfl, rfl, rfl, rfl, rfl⟩ fun c hge hc => ?_)
    (Table.keys_remove h.table) (fun j sv hj => h.backed (vnode_of_forget h.table hj).2) hroot
    (fun j hj hne => ?_) (h.exact.drop (· = i.toNat) (fun r c => ?_) fun c => ?_)
  · exact (hmarks c).2 ⟨hc, by omega⟩
  · obtain ⟨hj, hji⟩ := (hlive j).1 hj
    rw [(hview j hji).dinode]
    exact ⟨h.files j hj hne, h.links j hj hne,
      hK j _ hji (h.data_of_sameView hj hne (hview j hji))⟩
  · cases r with
    | super => exact ⟨fun hc => ⟨hc, hother .super c hc (by simp)⟩, And.left⟩
    | freemap l => exact ⟨fun hc => ⟨hc, hother (.freemap l) c hc (by simp)⟩, And.left⟩
    | inode j =>
      simp only [Ref, hlive]
      rw [and_right_comm]
      refine and_congr_right fun hjc => ?_
      rw [hjc.2, ne_eq, UInt32.toNat_inj]
    | slot j s =>
      simp only [Ref, hlive]
      constructor
      · rintro ⟨⟨hj, hji⟩, hs, hc⟩
        rw [(hview j hji).slot] at hs hc
        exact ⟨⟨hj, hs, hc⟩, hother (.slot j s) c ⟨hj, hs, hc⟩ (by simp)⟩
      · rintro ⟨⟨hj, hs, hc⟩, -⟩
        have hji : j ≠ i := by
          rintro rfl
          exact hs (hslots s)
        rw [(hview j hji).slot]
        exact ⟨⟨hj, hji⟩, hs, hc⟩
  · rw [Volume.Taken, Volume.Taken, hmarks]
    exact and_assoc.symm

/-- A file without links has no name. -/
theorem Holds.unnamed (h : Holds 0 fs) (hl : fs.Live i) (hi : i ≠ SFS_ROOTDIR_INO)
    (hzero : (fs.inode i).sv.sv_i.sfi_linkcount = 0) (k : Nat) : ¬ fs.NamedBy i k := by
  intro hk
  have hlinks := h.links i hl hi
  obtain ⟨⟨j, n⟩, hent, -⟩ := Option.map_eq_some_iff.1 hk
  have hmem : k ∈ (Finset.range Inode.dirSlots).filter (fs.NamedBy i) :=
    Finset.mem_filter.2 ⟨Finset.mem_range.2 (h.root.lt_dirSlots hent), hk⟩
  have hpos : 0 < fs.links i := Finset.card_pos.2 ⟨k, hmem⟩
  rw [hzero, Pi.zero_apply, add_zero] at hlinks
  exact hpos.ne (Int.ofNat_inj.1 hlinks)

/-- A file with links has a name. -/
theorem Holds.named (h : Holds 0 fs) (hl : fs.Live i) (hi : i ≠ SFS_ROOTDIR_INO)
    (hne : (fs.inode i).sv.sv_i.sfi_linkcount ≠ 0) : ∃ k, fs.NamedBy i k := by
  have hlinks := h.links i hl hi
  have hpos : (fs.inode i).sv.sv_i.sfi_linkcount.toNat ≠ 0 :=
    fun hz => hne (UInt16.toNat_inj.1 hz)
  have hcard : 0 < fs.links i := by
    rw [Pi.zero_apply, add_zero] at hlinks
    omega
  obtain ⟨k, hk⟩ := Finset.card_pos.1 hcard
  exact ⟨k, (Finset.mem_filter.1 hk).2⟩

/-- The end of `sfs_reclaim`. -/
theorem HoldsAt.wp_removeVnode (h : HoldsAt 0 D K fs) (hl : fs.Loaded i)
    (hclean : (fs.inode i).sv.sv_dirty = false)
    (hempty : (fs.inode i).sv.sv_i.sfi_linkcount = 0 → ∀ s, (fs.inode i).slot s = 0)
    (hK : ∀ j d, K j d → ((fs.inode i).sv.sv_i.sfi_linkcount = 0 ∧ j = i) ∨ K' j d) :
    (removeVnode i).Total (fun _ => HoldsAt 0 D K') fs := by
  have hi := hl.live
  have hsome : fs.vnode? i ≠ none := by
    rw [hl.vnode]
    exact nofun
  simp only [removeVnode, wp_bind, wp_deref hl]
  split
  · next hzero =>
    have hroot : i ≠ SFS_ROOTDIR_INO := by
      rintro rfl
      exact h.rootLinks hzero
    obtain ⟨hlt, hm⟩ := h.inode_taken hi
    have hbits : i.toNat < fs.vol.sfs_freemap.nbits := Nat.lt_of_lt_of_le hlt h.sound.nbits.1
    have hsome' : SfsFs.vnode? { fs with vol := fs.vol.setMark i.toNat false } i ≠ none := hsome
    simp only [wp_bind, onVol, wp_zoom, Volume.wp_sfsBfree, wp_read, if_neg hsome', wp_modify]
    refine ⟨fun _ => ⟨fun _ => ?_, fun hno => hno hm⟩, fun hno => hno hbits⟩
    exact h.erase hl hroot (hempty hzero) (h.unnamed hi hroot hzero) fun j d hji hd =>
      (hK j d hd).resolve_left fun hc => hji hc.2
  · next hne =>
    simp only [wp_bind, wp_read, if_neg hsome, wp_modify]
    have h := h.mono fun j d hd => (hK j d hd).resolve_left fun hc => hne hc.1
    refine h.forget hl hclean ?_
    by_cases hroot : i = SFS_ROOTDIR_INO
    · exact .inl hroot
    · exact .inr (h.named hi hroot hne)

/-! ## Dropping references -/

section

variable (h : HoldsAt 0 D K fs) (hl : fs.Loaded i)
include h hl

/-- The part of `sfs_reclaim` after the blocks were given back. -/
theorem HoldsAt.wp_syncAndRemove
    (hempty : (fs.inode i).sv.sv_i.sfi_linkcount = 0 → ∀ s, (fs.inode i).slot s = 0)
    (hK : ∀ j d, K j d → ((fs.inode i).sv.sv_i.sfi_linkcount = 0 ∧ j = i) ∨ K' j d) :
    (onVnode i Inode.sfsSyncInode).Total
      (fun _ fs' => (removeVnode i).Total (fun _ => HoldsAt 0 D K') fs') fs := by
  refine (h.wp_sfsSyncInode hl).imp fun _ fs' hs => ?_
  rw [← hs.view.dinode] at hempty hK
  refine hs.toHoldsAt.wp_removeVnode (hs.loaded i hl) hs.saved (fun hzero s => ?_) hK
  rw [hs.view.slot]
  exact hempty hzero s

theorem HoldsAt.wp_sfsReclaim :
    (sfsReclaim i).Safe (fun _ => HoldsAt 0 D K)
      (fun e fs' => HoldsAt 0 D K fs' ∧ e = .EBUSY ∧ (fs.inode i).sv.vn_refcount ≠ 1) fs := by
  have hpos : 0 < (fs.inode i).sv.vn_refcount := h.refcount_pos hl
  simp only [sfsReclaim, wp_bind, wp_deref hl]
  split
  · next hne =>
    simp only [wp_bind, wp_check, wp_fail]
    refine ⟨fun hone => (wp_onVnode hl).2 ?_, fun hno => hno (by omega)⟩
    exact ⟨(h.setRefcount hl (by omega)).toHoldsAt, trivial, hne⟩
  · split
    · next hzero =>
      have hroot : i ≠ SFS_ROOTDIR_INO := by
        rintro rfl
        exact h.rootLinks hzero
      obtain ⟨hrun, hlocal⟩ := (h.own hl.live).sfsItrunc 0
      have hx := hlocal.ino.trans sv_ino_inode
      simp only [wp_bind]
      refine (wp_onVnode hl).2 ((wp_of_ok hrun).2 ?_)
      have h := (h.mono fun _ _ => .inr).putLocal (K := fun j d => j = i ∨ K j d) hl hroot
        hlocal (.inl rfl)
      refine (h.wp_syncAndRemove ((loaded_put hx).2 hl) ?_
        fun j d hd => hd.imp_left fun hj => ?_).noFail.imp fun _ _ => Wp.noFail
      · rw [inode_put_self hx hl]
        exact fun _ => Inode.slot_cut_zero
      · rw [inode_put_self hx hl]
        exact ⟨hlocal.linkcount.trans hzero, hj⟩
    · next hne =>
      simp only [wp_bind]
      exact (h.wp_syncAndRemove hl (fun hzero => absurd hzero hne)
        fun _ _ => .inr).noFail.imp fun _ _ => Wp.noFail

theorem HoldsAt.wp_vnodeDecref :
    (vnodeDecref i).Total (fun _ => HoldsAt 0 D K) fs := by
  have hpos : 0 < (fs.inode i).sv.vn_refcount := h.refcount_pos hl
  simp only [vnodeDecref, wp_bind, wp_deref hl, wp_check]
  refine ⟨fun _ => ?_, fun hno => hno hpos⟩
  split
  · next hone => exact (wp_onVnode hl).2 (h.setRefcount hl (by omega)).toHoldsAt
  · simp only [wp_bind, wp_attempt, wp_pure]
    exact (h.wp_sfsReclaim hl).imp₂ (fun _ _ hq => hq) fun _ _ he => he.1

theorem HoldsAt.wp_vnodeIncref :
    (vnodeIncref i).Total (fun _ => HoldsAt 0 D K) fs :=
  (wp_onVnode hl).2 (h.setRefcount hl (Nat.succ_pos _)).toHoldsAt

end

end SfsFs

end DemandPaging
