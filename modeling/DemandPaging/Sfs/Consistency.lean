import DemandPaging.Lib.Count
import DemandPaging.Sfs.Entries
import DemandPaging.Sfs.Truncate
import DemandPaging.Sfs.Vnodes

set_option autoImplicit false

/-! # The consistency of a volume

A block of the volume has at most one role: it is the superblock, a block of the freemap, an inode,
or the block of a slot of an inode. The inodes that count are those that a name leads to, those in
memory, and the root directory. On a consistent volume the blocks with a role are those that are
marked, and the link count of a file is the number of its names.

Work on one inode that stays `Local` keeps all this, since the blocks of the others are none of its
own. -/

namespace DemandPaging

open Function

/-! ## Inodes that look the same -/

namespace Inode

variable {x y z : Inode} {F : Nat → Prop}

/-- The inode, its blocks and what is in them are the same. -/
structure SameView (x y : Inode) : Prop where
  dinode : y.sv.sv_i = x.sv.sv_i
  slot : ∀ s, y.slot s = x.slot s
  data : ∀ k, y.fileData k = x.fileData k

/-- The same inode looks the same where the sectors of its blocks are. -/
theorem sameView_of_sectors (hd : y.sv.sv_i = x.sv.sv_i)
    (hs : ∀ s, x.slot s ≠ 0 → y.vol.sectors (x.slot s).toNat = x.vol.sectors (x.slot s).toNat) :
    SameView x y := by
  have hmap := mapped_congr (by rw [hd]) (by rw [hd]) (hs .indirect)
  refine ⟨hd, fun s => ?_, fun k => ?_⟩
  · cases s with
    | data k => exact hmap k
    | indirect => exact congrArg Dinode.sfi_indirect hd
  · rw [fileData, fileData, hmap]
    split
    · rfl
    · next hz => exact hs (.data ⟨k, lt_of_mapped hz⟩) hz

theorem SameView.byte (h : SameView x y) : y.byte = x.byte := byte_congr h.data

theorem SameView.dirEntry (h : SameView x y) : y.dirEntry = x.dirEntry :=
  dirEntry_congr h.byte (congrArg Dinode.sfi_size h.dinode)

theorem SameView.isDir (h : SameView x y) (hd : x.IsDir) : y.IsDir := by
  constructor
  case type => rw [h.dinode, hd.type]
  case aligned => rw [h.dinode, hd.aligned]
  case bound =>
    rw [h.dinode]
    exact hd.bound

theorem SameView.distinctNames (h : SameView x y) (hd : x.DistinctNames) : y.DistinctNames := by
  rw [DistinctNames, h.dirEntry]
  exact hd

/-- What work on an inode leaves alone: the blocks of everybody else, and the number and the type of
    the inode. A vnode that is not dirty was not dirty before, and its inode is as it was. -/
structure Frame (F : Nat → Prop) (x x' : Inode) : Prop where
  own : x'.Own F
  sectors : ∀ c, F c → x'.vol.sectors c = x.vol.sectors c
  disk : x.vol.SameDisk x'.vol
  ino : x'.sv.sv_ino = x.sv.sv_ino
  type : x'.sv.sv_i.sfi_type = x.sv.sv_i.sfi_type
  clean : x'.sv.sv_dirty = false → x.sv.sv_dirty = false ∧ x'.sv.sv_i = x.sv.sv_i

theorem Local.toFrame (h : Local F x y) : Frame F x y where
  own := h.own
  sectors := h.sectors
  disk := h.disk
  ino := h.ino
  type := h.type
  clean := fun hc => by
    have hsv := h.clean hc
    exact ⟨hsv ▸ hc, congrArg SfsVnode.sv_i hsv⟩

end Inode

namespace SfsFs

variable {fs fs' : SfsFs} {i j : UInt32} {x : Inode} {sv : SfsVnode}

/-! ## The table -/

/-- The inode is in memory. -/
def Loaded (fs : SfsFs) (i : UInt32) : Prop := (fs.vnode? i).isSome

/-- The inode as the file system sees it: its vnode, or what is on the disk. -/
def inode (fs : SfsFs) (i : UInt32) : Inode where
  vol := fs.vol
  sv := (fs.vnode? i).getD ⟨i, Dinode.ofBlock (fs.vol.sectors i.toNat), false, 0⟩

theorem inode_of_vnode (h : fs.vnode? i = some sv) : fs.inode i = ⟨fs.vol, sv⟩ := by
  rw [inode, h, Option.getD_some]

theorem Loaded.vnode (h : fs.Loaded i) : fs.vnode? i = some (fs.inode i).sv := by
  obtain ⟨sv, hsv⟩ := Option.isSome_iff_exists.1 h
  rw [hsv, inode_of_vnode hsv]

theorem inode_of_not (h : ¬ fs.Loaded i) :
    fs.inode i = ⟨fs.vol, ⟨i, Dinode.ofBlock (fs.vol.sectors i.toNat), false, 0⟩⟩ := by
  rw [inode, Option.not_isSome_iff_eq_none.1 h, Option.getD_none]

theorem ino_of_vnode (h : fs.vnode? i = some sv) : sv.sv_ino = i := Table.key_of_lookup h

@[simp] theorem sv_ino_inode : (fs.inode i).sv.sv_ino = i := by
  by_cases h : fs.Loaded i
  · exact ino_of_vnode h.vnode
  · rw [inode_of_not h]

theorem loaded_of_mem (h : sv ∈ fs.sfs_vnodes) : fs.Loaded sv.sv_ino := Table.isSome_lookup h

section

variable (hx : x.sv.sv_ino = i)
include hx

theorem vnode_put_self (hl : fs.Loaded i) :
    (fs.put i x).vnode? i = some x.sv :=
  (Table.lookup_replace hx).trans (if_pos ⟨rfl, hl⟩)

theorem vnode_put_of_ne (hj : j ≠ i) :
    (fs.put i x).vnode? j = fs.vnode? j :=
  (Table.lookup_replace hx).trans (if_neg fun hc => hj hc.1)

/-- A vnode of the new table is the new one or an old one. -/
theorem vnode_put_cases (hl : fs.Loaded i) (hj : (fs.put i x).vnode? j = some sv) :
    (j = i ∧ sv = x.sv) ∨ (j ≠ i ∧ fs.vnode? j = some sv) := by
  by_cases hji : j = i
  · subst hji
    rw [vnode_put_self hx hl] at hj
    exact .inl ⟨rfl, (Option.some.inj hj).symm⟩
  · exact .inr ⟨hji, vnode_put_of_ne hx hji ▸ hj⟩

theorem loaded_put : (fs.put i x).Loaded j ↔ fs.Loaded j := by
  by_cases hj : j = i
  · subst hj
    by_cases hl : fs.Loaded j
    · rw [Loaded, vnode_put_self hx hl]
      exact ⟨fun _ => hl, fun _ => rfl⟩
    · have hnone : (fs.put j x).vnode? j = fs.vnode? j :=
        (Table.lookup_replace hx).trans (if_neg fun hc => hl hc.2)
      rw [Loaded, hnone]
      rfl
  · rw [Loaded, vnode_put_of_ne hx hj]
    rfl

theorem inode_put_self (hl : fs.Loaded i) : (fs.put i x).inode i = x :=
  inode_of_vnode (vnode_put_self hx hl)

theorem sv_put_of_ne (hj : j ≠ i) (hl : fs.Loaded j) :
    ((fs.put i x).inode j).sv = (fs.inode j).sv := by
  have hsv := hl.vnode
  rw [inode_of_vnode ((vnode_put_of_ne hx hj).trans hsv)]

end

/-! ## Roles -/

/-- What is in a slot of the directory. -/
def dirEntry (fs : SfsFs) (k : Nat) : Option (UInt32 × List UInt8) :=
  (fs.inode SFS_ROOTDIR_INO).dirEntry k

/-- The slot names the inode. -/
def NamedBy (fs : SfsFs) (i : UInt32) (k : Nat) : Prop := (fs.dirEntry k).map Prod.fst = some i

instance (i : UInt32) : DecidablePred (fs.NamedBy i) := fun _ => inferInstanceAs (Decidable (_ = _))

/-- How many entries name the inode. -/
def links (fs : SfsFs) (i : UInt32) : Nat :=
  ((Finset.range Inode.dirSlots).filter (fs.NamedBy i)).card

/-- The inodes that count: the root directory, those in memory, and those that have a name. -/
def Live (fs : SfsFs) (i : UInt32) : Prop :=
  i = SFS_ROOTDIR_INO ∨ fs.Loaded i ∨ ∃ k, fs.NamedBy i k

/-- What a block can be for. -/
inductive Role
  | super
  | freemap (j : Nat)
  | inode (i : UInt32)
  | slot (i : UInt32) (s : Slot)

/-- `SFS_FREEMAPBLOCKS`. -/
def freemapBlocks (nblocks : UInt32) : Nat := (nblocks.toNat + 4095) / 4096

/-- The block that has a role. -/
def Ref (fs : SfsFs) : Role → Nat → Prop
  | .super => fun b => b = 0
  | .freemap j => fun b => j < freemapBlocks fs.vol.sb_nblocks ∧ b = 2 + j
  | .inode i => fun b => fs.Live i ∧ b = i.toNat
  | .slot i s => fun b => fs.Live i ∧ (fs.inode i).slot s ≠ 0 ∧ ((fs.inode i).slot s).toNat = b

/-- The vnodes, the directory and the blocks fit together, but for the links that are still to be
    counted. -/
structure Coherent (owed : UInt32 → Int) (fs : SfsFs) : Prop where
  table : (fs.sfs_vnodes.map SfsVnode.sv_ino).Nodup
  refcount : ∀ i sv, fs.vnode? i = some sv → 0 < sv.vn_refcount
  clean : ∀ i sv, fs.vnode? i = some sv → sv.sv_dirty = false →
    Dinode.ofBlock (fs.vol.sectors i.toNat) = sv.sv_i
  root : (fs.inode SFS_ROOTDIR_INO).IsDir
  rootLinks : (fs.inode SFS_ROOTDIR_INO).sv.sv_i.sfi_linkcount ≠ 0
  rootUnnamed : ∀ k, ¬ fs.NamedBy SFS_ROOTDIR_INO k
  names : (fs.inode SFS_ROOTDIR_INO).DistinctNames
  files : ∀ i, fs.Live i → i ≠ SFS_ROOTDIR_INO → (fs.inode i).sv.sv_i.sfi_type = SFS_TYPE_FILE
  links : ∀ i, fs.Live i → i ≠ SFS_ROOTDIR_INO →
    ((fs.inode i).sv.sv_i.sfi_linkcount.toNat : Int) + owed i = fs.links i
  exact : Exact fs.vol.Taken fs.Ref

/-- The same on a volume where all block addresses fit. -/
structure Holds (owed : UInt32 → Int) (fs : SfsFs) : Prop extends Coherent owed fs where
  sound : fs.vol.Sound

/-- The slots of a directory. -/
abbrev Entries := Nat → Option (UInt32 × List UInt8)

/-- The bytes of a file and its length. -/
abbrev File := (Nat → UInt8) × UInt32

/-- What is known of each file. -/
abbrev Known := UInt32 → File → Prop

def file (fs : SfsFs) (i : UInt32) : File := ((fs.inode i).byte, (fs.inode i).sv.sv_i.sfi_size)

/-- The same, with the entries of the directory and what is in the files. -/
structure HoldsAt (owed : UInt32 → Int) (D : Entries) (K : Known) (fs : SfsFs) :
    Prop extends Holds owed fs where
  entry : fs.dirEntry = D
  data : ∀ i, fs.Live i → i ≠ SFS_ROOTDIR_INO → K i (fs.file i)

/-- What later parts of a call rely on: also the vnodes that they have pointers to are there. -/
structure Kept (owed : UInt32 → Int) (D : Entries) (K : Known) (fs fs' : SfsFs) :
    Prop extends HoldsAt owed D K fs' where
  loaded : ∀ j, fs.Loaded j → fs'.Loaded j

variable {owed owed' : UInt32 → Int} {D : Entries} {K : Known}

theorem Holds.anyFiles (h : Holds owed fs) : HoldsAt owed fs.dirEntry (fun _ _ => True) fs :=
  ⟨h, rfl, fun _ _ _ => trivial⟩

theorem HoldsAt.data_of_sameView (h : HoldsAt owed D K fs) (hi : fs.Live i)
    (hne : i ≠ SFS_ROOTDIR_INO) (hv : Inode.SameView (fs.inode i) (fs'.inode i)) :
    K i (fs'.file i) := by
  rw [file, hv.byte, hv.dinode]
  exact h.data i hi hne

theorem Loaded.live (h : fs.Loaded i) : fs.Live i := .inr (.inl h)

theorem live_root : fs.Live SFS_ROOTDIR_INO := .inl rfl

theorem Coherent.inode_taken (h : Coherent owed fs) (hl : fs.Live i) : fs.vol.Taken i.toNat :=
  h.exact.marked (.inode i) _ ⟨hl, rfl⟩

theorem Coherent.refcount_pos (h : Coherent owed fs) (hl : fs.Loaded i) :
    0 < (fs.inode i).sv.vn_refcount :=
  h.refcount i _ hl.vnode

/-- An inode that counts is none of the free entries. -/
theorem Coherent.ino_ne_zero (h : Coherent owed fs) (hl : fs.Live i) : i ≠ SFS_NOINO := by
  rintro rfl
  cases h.exact.unique (.inode SFS_NOINO) .super 0 ⟨hl, rfl⟩ rfl

/-! ## One inode -/

/-- The roles that the slots of an inode are. -/
def ownSlot (i : UInt32) : Role → Option Slot
  | .slot j s => if j = i then some s else none
  | _ => none

/-- The blocks that are not in a slot of the inode. -/
def others (fs : SfsFs) (i : UInt32) : Nat → Prop := Exact.group (ownSlot i) fs.Ref none

theorem ownSlot_self (s : Slot) : ownSlot i (.slot i s) = some s := if_pos rfl

theorem ownSlot_of_ne (h : j ≠ i) (s : Slot) : ownSlot i (.slot j s) = none := if_neg h

theorem eq_of_ownSlot {r : Role} {s : Slot} (h : ownSlot i r = some s) : r = .slot i s := by
  cases r with
  | slot j t =>
    rw [ownSlot] at h
    split at h
    · next hj =>
      cases h
      rw [hj]
    · cases h
  | super => cases h
  | freemap _ => cases h
  | inode _ => cases h

theorem Holds.own (h : Holds owed fs) (hl : fs.Live i) : (fs.inode i).Own (fs.others i) where
  sound := h.sound
  zero := ⟨.super, rfl, rfl⟩
  exact := by
    refine (h.exact.grouped (ownSlot i)).congr (fun o b => ?_) fun _ => Iff.rfl
    cases o with
    | none => exact Iff.rfl
    | some s =>
      constructor
      · exact fun hb => ⟨.slot i s, ownSlot_self s, hl, hb⟩
      · rintro ⟨r, hr, href⟩
        rw [eq_of_ownSlot hr] at href
        exact href.2

/-- The blocks of the other inodes are among the others. -/
theorem others_of_ref {r : Role} {b : Nat} (hr : ownSlot i r = none) (hb : fs.Ref r b) :
    fs.others i b :=
  ⟨r, hr, hb⟩

section

variable (h : Holds owed fs) (hl : fs.Loaded i) (hf : Inode.Frame (fs.others i) (fs.inode i) x)

include hf

/-- Work on one inode leaves the other ones as they are. -/
theorem sameView_put (hj : fs.Live j) (hne : j ≠ i) :
    Inode.SameView (fs.inode j) ((fs.put i x).inode j) := by
  have hx : x.sv.sv_ino = i := hf.ino.trans sv_ino_inode
  refine Inode.sameView_of_sectors ?_ fun s hs => ?_
  · by_cases hl : fs.Loaded j
    · rw [sv_put_of_ne hx hne hl]
    · have hl' : ¬ (fs.put i x).Loaded j := fun hc => hl ((loaded_put hx).1 hc)
      rw [inode_of_not hl, inode_of_not hl']
      exact congrArg Dinode.ofBlock (hf.sectors _ (others_of_ref (r := .inode j) rfl ⟨hj, rfl⟩))
  · exact hf.sectors _ (others_of_ref (ownSlot_of_ne hne s) ⟨hj, hs, rfl⟩)

/-- The roles but for the slots of the inode that was worked on. -/
theorem ref_put (hlive : ∀ j, (fs.put i x).Live j ↔ fs.Live j) {r : Role}
    (hr : ownSlot i r = none) (b : Nat) : (fs.put i x).Ref r b ↔ fs.Ref r b := by
  cases r with
  | super => exact Iff.rfl
  | freemap j =>
    have hblocks : (fs.put i x).vol.sb_nblocks = fs.vol.sb_nblocks := hf.disk.nblocks
    simp only [Ref, hblocks]
  | inode j => simp only [Ref, hlive]
  | slot j s =>
    have hne : j ≠ i := by
      rintro rfl
      rw [ownSlot_self] at hr
      cases hr
    simp only [Ref, hlive]
    refine and_congr_right fun hj => ?_
    rw [(sameView_put hf hj hne).slot]

include h hl

theorem exact_put (hlive : ∀ j, (fs.put i x).Live j ↔ fs.Live j) :
    Exact (fs.put i x).vol.Taken (fs.put i x).Ref := by
  have hx : x.sv.sv_ino = i := hf.ino.trans sv_ino_inode
  have hgroup : Exact x.vol.Taken (Exact.group (ownSlot i) (fs.put i x).Ref) := by
    refine hf.own.exact.congr (fun o b => ?_) fun _ => Iff.rfl
    cases o with
    | none => exact exists_congr fun r => and_congr_right fun hr => ref_put hf hlive hr b
    | some s =>
      constructor
      · rintro ⟨r, hr, href⟩
        rw [eq_of_ownSlot hr] at href
        rw [← inode_put_self hx hl]
        exact href.2
      · intro hb
        rw [← inode_put_self hx hl] at hb
        exact ⟨.slot i s, ownSlot_self s, (hlive i).2 hl.live, hb⟩
  refine h.exact.ungrouped hgroup (fun r r' s hr hr' => ?_) fun r hr b => ref_put hf hlive hr b
  rw [eq_of_ownSlot hr, eq_of_ownSlot hr']

theorem clean_put (hj : (fs.put i x).vnode? j = some sv) (hd : sv.sv_dirty = false) :
    Dinode.ofBlock ((fs.put i x).vol.sectors j.toNat) = sv.sv_i := by
  have hx : x.sv.sv_ino = i := hf.ino.trans sv_ino_inode
  have hlj : fs.Loaded j := (loaded_put hx).1 (by rw [Loaded, hj]; rfl)
  have hsec : x.vol.sectors j.toNat = fs.vol.sectors j.toNat :=
    hf.sectors _ (others_of_ref (r := .inode j) rfl ⟨hlj.live, rfl⟩)
  change Dinode.ofBlock (x.vol.sectors j.toNat) = _
  rw [hsec]
  rcases vnode_put_cases hx hl hj with ⟨rfl, rfl⟩ | ⟨-, hj⟩
  · obtain ⟨hclean, hsame⟩ := hf.clean hd
    rw [hsame]
    exact h.clean j _ hl.vnode hclean
  · exact h.clean j sv hj hd

/-- Work on an inode in memory. What is left to show is about the directory and the links. -/
theorem Holds.put (href : 0 < x.sv.vn_refcount) (hlive : ∀ j, (fs.put i x).Live j ↔ fs.Live j)
    (hroot : ((fs.put i x).inode SFS_ROOTDIR_INO).IsDir)
    (hrootLinks : ((fs.put i x).inode SFS_ROOTDIR_INO).sv.sv_i.sfi_linkcount ≠ 0)
    (hunnamed : ∀ k, ¬ (fs.put i x).NamedBy SFS_ROOTDIR_INO k)
    (hnames : ((fs.put i x).inode SFS_ROOTDIR_INO).DistinctNames)
    (hlinks : ∀ j, fs.Live j → j ≠ SFS_ROOTDIR_INO →
      (((fs.put i x).inode j).sv.sv_i.sfi_linkcount.toNat : Int) + owed' j = (fs.put i x).links j) :
    Holds owed' (fs.put i x) := by
  have hx : x.sv.sv_ino = i := hf.ino.trans sv_ino_inode
  constructor
  case toCoherent =>
    constructor
    case table =>
      have hkeys : (fs.put i x).sfs_vnodes.map SfsVnode.sv_ino = _ := Table.keys_replace hx
      rw [hkeys]
      exact h.table
    case refcount =>
      intro j sv hj
      rcases vnode_put_cases hx hl hj with ⟨-, rfl⟩ | ⟨-, hj⟩
      · exact href
      · exact h.refcount j sv hj
    case clean => exact fun j sv => clean_put h hl hf
    case root => exact hroot
    case rootLinks => exact hrootLinks
    case rootUnnamed => exact hunnamed
    case names => exact hnames
    case files =>
      intro j hj hne
      rw [hlive] at hj
      by_cases hji : j = i
      · subst hji
        rw [inode_put_self hx hl, hf.type]
        exact h.files j hj hne
      · rw [(sameView_put hf hj hji).dinode]
        exact h.files j hj hne
    case links => exact fun j hj => hlinks j ((hlive j).1 hj)
    case exact => exact exact_put h hl hf hlive
  case sound => exact hf.own.sound

end

/-! ## Files -/

/-- Who counts, where the directory has not changed. -/
theorem live_iff (hdir : fs'.dirEntry = fs.dirEntry) :
    fs'.Live i ↔ i = SFS_ROOTDIR_INO ∨ fs'.Loaded i ∨ ∃ k, fs.NamedBy i k := by
  simp only [Live, NamedBy, hdir]

theorem live_congr (hdir : fs'.dirEntry = fs.dirEntry) (hl : ∀ i, fs'.Loaded i → fs.Live i)
    (hl' : ∀ i, fs.Loaded i → fs'.Live i) (i : UInt32) : fs'.Live i ↔ fs.Live i := by
  have hl := hl i
  have hl' := hl' i
  rw [live_iff hdir] at hl' ⊢
  rw [Live] at hl ⊢
  tauto

theorem links_congr (hdir : fs'.dirEntry = fs.dirEntry) (i : UInt32) :
    fs'.links i = fs.links i := by
  rw [links, links]
  refine congrArg Finset.card (Finset.filter_congr fun k _ => ?_)
  rw [NamedBy, NamedBy, hdir]

theorem dirEntry_eq_of_sameView
    (h : Inode.SameView (fs.inode SFS_ROOTDIR_INO) (fs'.inode SFS_ROOTDIR_INO)) :
    fs'.dirEntry = fs.dirEntry :=
  h.dirEntry

/-- The files after work on one inode. -/
theorem HoldsAt.data_put (h : HoldsAt owed D K fs) (hl : fs.Loaded i)
    (hf : Inode.Frame (fs.others i) (fs.inode i) x)
    (hlive : ∀ j, (fs.put i x).Live j ↔ fs.Live j)
    (hK : i ≠ SFS_ROOTDIR_INO → K i (x.byte, x.sv.sv_i.sfi_size)) (j : UInt32)
    (hj : (fs.put i x).Live j) (hne : j ≠ SFS_ROOTDIR_INO) : K j ((fs.put i x).file j) := by
  have hj := (hlive j).1 hj
  by_cases hji : j = i
  · subst hji
    rw [file, inode_put_self (hf.ino.trans sv_ino_inode) hl]
    exact hK hne
  · exact h.data_of_sameView hj hne (sameView_put hf hj hji)

/-- Work on a file in memory. -/
theorem HoldsAt.putFile (h : HoldsAt owed D K fs) (hl : fs.Loaded i) (hi : i ≠ SFS_ROOTDIR_INO)
    (hf : Inode.Frame (fs.others i) (fs.inode i) x) (href : 0 < x.sv.vn_refcount)
    (hlink : (x.sv.sv_i.sfi_linkcount.toNat : Int) + owed' i =
      (fs.inode i).sv.sv_i.sfi_linkcount.toNat + owed i)
    (howed : ∀ j, j ≠ i → owed' j = owed j) (hK : K i (x.byte, x.sv.sv_i.sfi_size)) :
    HoldsAt owed' D K (fs.put i x) := by
  have hx : x.sv.sv_ino = i := hf.ino.trans sv_ino_inode
  have hview := sameView_put hf live_root hi.symm
  have hdir := dirEntry_eq_of_sameView hview
  have hlive := live_congr hdir (fun j hj => ((loaded_put hx).1 hj).live)
    fun j hj => ((loaded_put hx).2 hj).live
  refine ⟨h.put hl hf href hlive (hview.isDir h.root) ?_ (fun k => ?_)
    (hview.distinctNames h.names) fun j hj hne => ?_, hdir.trans h.entry,
    h.data_put hl hf hlive fun _ => hK⟩
  · rw [hview.dinode]
    exact h.rootLinks
  · rw [NamedBy, hdir]
    exact h.rootUnnamed k
  · rw [links_congr hdir]
    by_cases hji : j = i
    · subst hji
      rw [inode_put_self hx hl, hlink]
      exact h.links j hj hne
    · rw [(sameView_put hf hj hji).dinode, howed j hji]
      exact h.links j hj hne

/-- Work on the blocks of a file. -/
theorem HoldsAt.putLocal (h : HoldsAt owed D K fs) (hl : fs.Loaded i) (hi : i ≠ SFS_ROOTDIR_INO)
    (hf : Inode.Local (fs.others i) (fs.inode i) x) (hK : K i (x.byte, x.sv.sv_i.sfi_size)) :
    HoldsAt owed D K (fs.put i x) := by
  refine h.putFile hl hi hf.toFrame ?_ ?_ (fun _ _ => rfl) hK
  · rw [hf.refcount]
    exact h.refcount_pos hl
  · rw [hf.linkcount]

/-! ## The directory -/

/-- The entries after one slot has changed. -/
theorem links_update {k : Nat} {e : Option (UInt32 × List UInt8)} (hk : k < Inode.dirSlots)
    (hdir : fs'.dirEntry = update fs.dirEntry k e) (i : UInt32) :
    fs'.links i + (if fs.NamedBy i k then 1 else 0) =
      fs.links i + if e.map Prod.fst = some i then 1 else 0 := by
  have hself : fs'.NamedBy i k ↔ e.map Prod.fst = some i := by
    rw [NamedBy, hdir, update_self]
  have hchange := card_filter_change (a := k) (fs.NamedBy i) (fs'.NamedBy i)
    (Finset.mem_range.2 hk) fun l _ hl => by rw [NamedBy, NamedBy, hdir, update_of_ne hl]
  simp only [hself] at hchange
  exact hchange

/-- A slot of the directory was written, where both what it held and what it holds are in memory. -/
theorem HoldsAt.putRoot (h : HoldsAt owed D K fs) (hl : fs.Loaded SFS_ROOTDIR_INO) {k : Nat}
    {e : Option (UInt32 × List UInt8)}
    (hf : Inode.Local (fs.others SFS_ROOTDIR_INO) (fs.inode SFS_ROOTDIR_INO) x) (hd : x.IsDir)
    (hk : k < Inode.dirSlots) (hdir : x.dirEntry = update D k e)
    (hnew : ∀ j n, e = some (j, n) →
      fs.Loaded j ∧ j ≠ SFS_ROOTDIR_INO ∧ ∀ l j', D l ≠ some (j', n))
    (hold : ∀ j, fs.NamedBy j k → fs.Loaded j)
    (howed : ∀ j, owed' j + (if fs.NamedBy j k then 1 else 0) =
      owed j + if e.map Prod.fst = some j then 1 else 0) :
    Kept owed' (update D k e) K fs (fs.put SFS_ROOTDIR_INO x) := by
  obtain ⟨h, rfl, hdata⟩ := h
  have hx : x.sv.sv_ino = SFS_ROOTDIR_INO := hf.ino.trans sv_ino_inode
  have hself := inode_put_self hx hl
  have hdir' : (fs.put SFS_ROOTDIR_INO x).dirEntry = update fs.dirEntry k e := by
    rw [← hdir]
    funext l
    rw [dirEntry, hself]
  have hnamed : ∀ j l, l ≠ k →
      ((fs.put SFS_ROOTDIR_INO x).NamedBy j l ↔ fs.NamedBy j l) := by
    intro j l hlk
    rw [NamedBy, NamedBy, hdir', update_of_ne hlk]
  have hnamed' : ∀ j, (fs.put SFS_ROOTDIR_INO x).NamedBy j k → ∃ n, e = some (j, n) := by
    intro j hj
    rw [NamedBy, hdir', update_self] at hj
    obtain ⟨⟨j', n⟩, rfl, rfl⟩ := Option.map_eq_some_iff.1 hj
    exact ⟨n, rfl⟩
  have hlive : ∀ j, (fs.put SFS_ROOTDIR_INO x).Live j ↔ fs.Live j := by
    intro j
    constructor
    · rintro (hj | hj | ⟨l, hj⟩)
      · exact .inl hj
      · exact ((loaded_put hx).1 hj).live
      · by_cases hlk : l = k
        · subst hlk
          obtain ⟨n, hn⟩ := hnamed' j hj
          exact (hnew j n hn).1.live
        · exact .inr (.inr ⟨l, (hnamed j l hlk).1 hj⟩)
    · rintro (hj | hj | ⟨l, hj⟩)
      · exact .inl hj
      · exact ((loaded_put hx).2 hj).live
      · by_cases hlk : l = k
        · subst hlk
          exact ((loaded_put hx).2 (hold j hj)).live
        · exact .inr (.inr ⟨l, (hnamed j l hlk).2 hj⟩)
  refine ⟨⟨h.put hl hf.toFrame ?_ hlive ?_ ?_ (fun l hn => ?_) ?_ fun j hj hne => ?_, hdir',
    HoldsAt.data_put ⟨h, rfl, hdata⟩ hl hf.toFrame hlive fun hc => absurd rfl hc⟩,
    fun _ => (loaded_put hx).2⟩
  · rw [hf.refcount]
    exact h.refcount_pos hl
  · rw [hself]
    exact hd
  · rw [hself, hf.linkcount]
    exact h.rootLinks
  · by_cases hlk : l = k
    · subst hlk
      obtain ⟨n, hn⟩ := hnamed' _ hn
      exact (hnew _ n hn).2.1 rfl
    · exact h.rootUnnamed l ((hnamed _ l hlk).1 hn)
  · rw [hself]
    intro l l' j j' n hl hl'
    rw [hdir] at hl hl'
    by_cases hlk : l = k
    · subst hlk
      rw [update_self] at hl
      by_contra hne
      rw [update_of_ne (Ne.symm hne)] at hl'
      exact (hnew j n hl).2.2 l' j' hl'
    · rw [update_of_ne hlk] at hl
      by_cases hlk' : l' = k
      · subst hlk'
        rw [update_self] at hl'
        exact absurd hl ((hnew j' n hl').2.2 l j)
      · rw [update_of_ne hlk'] at hl'
        exact h.names l l' j j' n hl hl'
  · have hupd := links_update hk hdir' j
    have hjlinks := h.links j hj hne
    have hjowed := howed j
    rw [(sameView_put hf.toFrame hj hne).dinode]
    split_ifs at hupd hjowed <;> omega

/-- The directory has got more blocks at most. -/
theorem HoldsAt.putSameDir (h : HoldsAt owed D K fs) (hl : fs.Loaded SFS_ROOTDIR_INO)
    (hf : Inode.SameDir (fs.others SFS_ROOTDIR_INO) (fs.inode SFS_ROOTDIR_INO) x) :
    Kept owed D K fs (fs.put SFS_ROOTDIR_INO x) := by
  have hx : x.sv.sv_ino = SFS_ROOTDIR_INO := hf.frame.ino.trans sv_ino_inode
  have hself := inode_put_self hx hl
  have hdir : (fs.put SFS_ROOTDIR_INO x).dirEntry = fs.dirEntry := by
    funext l
    rw [dirEntry, hself, hf.entry]
    rfl
  have hlive := live_congr hdir (fun j hj => ((loaded_put hx).1 hj).live)
    fun j hj => ((loaded_put hx).2 hj).live
  refine ⟨⟨h.put hl hf.frame.toFrame ?_ hlive ?_ ?_ (fun l => ?_) ?_ fun j hj hne => ?_,
    hdir.trans h.entry, h.data_put hl hf.frame.toFrame hlive fun hc => absurd rfl hc⟩,
    fun _ => (loaded_put hx).2⟩
  · rw [hf.frame.refcount]
    exact h.refcount_pos hl
  · rw [hself]
    exact hf.isDir
  · rw [hself, hf.frame.linkcount]
    exact h.rootLinks
  · rw [NamedBy, hdir]
    exact h.rootUnnamed l
  · rw [hself, Inode.DistinctNames, hf.entry]
    exact h.names
  · rw [links_congr hdir, (sameView_put hf.frame.toFrame hj hne).dinode]
    exact h.links j hj hne

end SfsFs

end DemandPaging
