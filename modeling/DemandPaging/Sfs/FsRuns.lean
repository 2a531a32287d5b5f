import DemandPaging.Lib.Run
import DemandPaging.Sfs.Calls

set_option autoImplicit false

/-! # Runs of the file system

From a consistent volume, calls in any order lead to consistent volumes only, and every call
returns. This needs a volume of at most 4G: `sfs_blockio` computes the address of a block in 32
bits, so that on a larger one the data of a file can go to a block of somebody else. -/

namespace DemandPaging

open Fallible (exists_of_passes)

namespace SfsFs

variable {fs fs' : SfsFs} {i : UInt32}

/-- The volume is consistent, together with the vnodes in memory. -/
structure Consistent (fs : SfsFs) : Prop extends Coherent 0 fs where
  regular : fs.vol.Regular

/-- The blocks that are marked have one role each, and nothing else has; the link count of a file is
    the number of entries that name it; and no two entries have the same name. -/
structure Accounted (fs : SfsFs) : Prop where
  blocks : Exact fs.vol.Taken fs.Ref
  links : ∀ i, fs.Live i → i ≠ SFS_ROOTDIR_INO →
    (fs.inode i).sv.sv_i.sfi_linkcount.toNat = fs.links i
  names : (fs.inode SFS_ROOTDIR_INO).DistinctNames

theorem Holds.accounted (h : Holds 0 fs) : fs.Accounted where
  blocks := h.exact
  links := fun i hi hne => by
    have hlinks := h.links i hi hne
    rw [Pi.zero_apply, add_zero] at hlinks
    exact Int.ofNat_inj.1 hlinks
  names := h.names

/-- A call by somebody who may make it, to its end. -/
def FsStep (fs : SfsFs) (call : FsCall) (fs' : SfsFs) : Prop :=
  call.Valid fs ∧ ∃ r, call.run fs = .ok (r, fs')

/-- What a call has done to the names, and what it hands back: one that failed had a reason to, and
    has left the names as they were. -/
def Outcome (fs : SfsFs) (N : Names) (call : FsCall) (fs' : SfsFs) :
    Except Errno (Option UInt32) → Names → Prop
  | .ok r, N' => call.Does N r N' ∧ ∀ v ∈ r, fs'.Loaded v
  | .error e, N' => call.Refused fs N e fs' ∧ N' = N

variable {N : Names} {call : FsCall}

theorem Holds.outcome (h : Holds 0 fs) (hN : Naming fs.dirEntry N) (hv : call.Valid fs)
    {r : Except Errno (Option UInt32)} (hrun : call.run fs = .ok (r, fs')) :
    ∃ N', Outcome fs N call fs' r N' ∧ Named N' (call.Leaves fs) fs' := by
  have hwp := FsCall.wp_run h hN hv
  cases r with
  | ok r =>
    obtain ⟨N', hdoes, h', hl⟩ := hwp.of_ok hrun
    exact ⟨N', ⟨hdoes, hl⟩, h'⟩
  | error e =>
    obtain ⟨h', hwhy⟩ := (Fallible.wp_of_error hrun).1 hwp
    exact ⟨N, ⟨hwhy, rfl⟩, h'.named hN⟩

/-- What a call leaves is consistent, with the files as they were but for its own. -/
theorem Holds.leaves (h : Holds 0 fs) (hs : FsStep fs call fs') :
    ∃ D, HoldsAt 0 D (call.Leaves fs) fs' := by
  obtain ⟨hv, r, hrun⟩ := hs
  obtain ⟨N, hN⟩ := exists_naming h.names
  obtain ⟨-, -, D, h', -⟩ := h.outcome hN hv hrun
  exact ⟨D, h'⟩

theorem Holds.step (h : Holds 0 fs) (hs : FsStep fs call fs') : Holds 0 fs' := by
  obtain ⟨D, h'⟩ := h.leaves hs
  exact h'.toHolds

theorem Holds.reaches (h : Holds 0 fs) (hr : Reaches FsStep fs fs') : Holds 0 fs' :=
  hr.invariant (fun _ _ _ => Holds.step) h

/-- A call that may be made returns. -/
theorem Holds.returns (h : Holds 0 fs) (hv : call.Valid fs) :
    ∃ r fs', call.run fs = .ok (r, fs') := by
  obtain ⟨N, hN⟩ := exists_naming h.names
  exact (FsCall.wp_run h hN hv).exists_ok

/-- On a volume of at most 4G every run of calls keeps the accounts, and every call returns. -/
theorem runs_accounted (h : fs.Consistent)
    (hsmall : fs.vol.sb_nblocks.toNat * SFS_BLOCKSIZE ≤ 2 ^ 32) (hr : Reaches FsStep fs fs') :
    fs'.Accounted ∧ ∀ call : FsCall, call.Valid fs' → ∃ r fs'', call.run fs' = .ok (r, fs'') := by
  have hholds : Holds 0 fs' := Holds.reaches ⟨h.toCoherent, h.regular, hsmall⟩ hr
  exact ⟨hholds.accounted, fun _ => hholds.returns⟩

/-- What a restart finds: the disk, and no inode in memory. -/
def crashed (fs : SfsFs) : SfsFs := { fs with sfs_vnodes := [] }

section

variable (h : fs.Consistent) (hsmall : fs.vol.sb_nblocks.toNat * SFS_BLOCKSIZE ≤ 2 ^ 32)
  (hr : Reaches FsStep fs fs')
include h hsmall hr

theorem holds_of_reaches : Holds 0 fs' := Holds.reaches ⟨h.toCoherent, h.regular, hsmall⟩ hr

/-- In every state `sfs_fsync` of an inode in memory succeeds. The disk alone then shows the inode
    as it was, with its blocks and what is in them. -/
theorem fsync_durable (hl : fs'.Loaded i) :
    ∃ fs'', (FsCall.fsync i).run fs' = .ok (.ok none, fs'') ∧
      Inode.SameView (fs'.inode i) (fs''.crashed.inode i) := by
  have hholds := (holds_of_reaches h hsmall hr).anyFiles
  obtain ⟨_, fs'', hrun, hs⟩ := (hholds.wp_sfsSyncInode hl).exists_ok
  refine ⟨fs'', Fallible.bind_of_ok hrun, ?_⟩
  -- the inode was written, so the disk has it
  have hdisk : Inode.SameView (fs''.inode i) (fs''.crashed.inode i) :=
    Inode.sameView_of_sectors (hs.clean i _ (hs.loaded i hl).vnode hs.saved)
      fun _ _ => rfl
  exact ⟨hdisk.dinode.trans hs.view.dinode, fun s => (hdisk.slot s).trans (hs.view.slot s),
    fun k => (hdisk.data k).trans (hs.view.data k)⟩

/-- In every state a call, whether it returns or fails, leaves all files as they were, in memory or
    only on the disk, but for the one that it writes or truncates. A file that is new is empty. -/
theorem runs_files {fs'' : SfsFs} (hs : FsStep fs' call fs'') (hi : fs''.Live i)
    (hne : i ≠ SFS_ROOTDIR_INO) : call.Leaves fs' i (fs''.file i) := by
  obtain ⟨D, h'⟩ := (holds_of_reaches h hsmall hr).leaves hs
  exact h'.data i hi hne

/-- In every state the directory is a map from names to inodes. A call that succeeds does to it what
    the call is for, and the vnode that it hands back is the one of the name. A call that fails has
    a reason, and leaves the map as it is. -/
theorem runs_named : ∃ N, Naming fs'.dirEntry N ∧ ∀ call : FsCall, call.Valid fs' →
      ∃ r fs'' N', call.run fs' = .ok (r, fs'') ∧ Outcome fs' N call fs'' r N' ∧
        Naming fs''.dirEntry N' := by
  have hholds := holds_of_reaches h hsmall hr
  obtain ⟨N, hN⟩ := exists_naming hholds.names
  refine ⟨N, hN, fun call hv => ?_⟩
  obtain ⟨r, fs'', hrun⟩ := hholds.returns hv
  obtain ⟨N', hout, D, h', hN'⟩ := hholds.outcome hN hv hrun
  exact ⟨r, fs'', N', hrun, hout, h'.entry.symm ▸ hN'⟩

end

/-! ## Volumes with one open file -/

/-- The root directory of an empty volume. -/
def emptyRoot : Dinode := ⟨0, SFS_TYPE_DIR, 1, fun _ => 0, 0, fun _ => 0⟩

/-- The first block behind the freemap. -/
def firstFree (nblocks : UInt32) : Nat := 2 + freemapBlocks nblocks

/-- An open file that has no name any more, with the data block `d` if that is not 0. Its inode is
    in the first block behind the freemap. -/
def orphan (nblocks d : UInt32) : SfsVnode where
  sv_ino := UInt32.ofNat (firstFree nblocks)
  sv_i := ⟨0, SFS_TYPE_FILE, 0, fun l => if l.val = 0 then d else 0, 0, fun _ => 0⟩
  sv_dirty := true
  vn_refcount := 1

/-- A volume without names, and the open file on it. -/
def withOrphan (nblocks d : UInt32) : SfsFs where
  vol :=
    { sb_volname := "vol"
      sb_nblocks := nblocks
      sfs_freemap :=
        ⟨freemapBlocks nblocks * 4096,
          fun b => b ≤ firstFree nblocks ∨ b = d.toNat ∨ nblocks.toNat ≤ b⟩
      sfs_freemapdirty := false
      sectors := fun b => if b = 1 then emptyRoot.toBlock else Block.zeros
      d_blocks := nblocks.toNat
      faults := [] }
  sfs_vnodes := [orphan nblocks d]
  memory := []

variable {nblocks d : UInt32}

theorem firstFree_lt : firstFree nblocks < 2 ^ 32 := by
  have := nblocks.toNat_lt
  change 2 + (nblocks.toNat + 4095) / 4096 < _
  omega

theorem toNat_orphan : (orphan nblocks d).sv_ino.toNat = firstFree nblocks :=
  UInt32.toNat_ofNat_of_lt' firstFree_lt

theorem orphan_ne_root : (orphan nblocks d).sv_ino ≠ SFS_ROOTDIR_INO := by
  intro heq
  have hnat := congrArg UInt32.toNat heq
  rw [toNat_orphan] at hnat
  change 2 + freemapBlocks nblocks = 1 at hnat
  omega

theorem vnode_withOrphan : (withOrphan nblocks d).vnode? i =
    if (orphan nblocks d).sv_ino = i then some (orphan nblocks d) else none :=
  Table.lookup_cons

theorem inode_orphan : (withOrphan nblocks d).inode (orphan nblocks d).sv_ino =
    ⟨(withOrphan nblocks d).vol, orphan nblocks d⟩ :=
  inode_of_vnode (vnode_withOrphan.trans (if_pos rfl))

theorem loaded_withOrphan : (withOrphan nblocks d).Loaded i ↔ i = (orphan nblocks d).sv_ino := by
  rw [Loaded, vnode_withOrphan]
  split
  · next h => exact ⟨fun _ => h.symm, fun _ => rfl⟩
  · next h => exact ⟨fun hc => (by cases hc), fun hi => absurd hi.symm h⟩

theorem inode_root_withOrphan :
    ((withOrphan nblocks d).inode SFS_ROOTDIR_INO).sv.sv_i = emptyRoot := by
  rw [inode_of_not fun hl => orphan_ne_root (loaded_withOrphan.1 hl).symm]
  exact Dinode.ofBlock_toBlock emptyRoot

theorem dirEntry_withOrphan (k : Nat) : (withOrphan nblocks d).dirEntry k = none := by
  rw [dirEntry, Inode.dirEntry, inode_root_withOrphan, if_neg]
  rintro ⟨hle, -⟩
  change (k + 1) * 64 ≤ 0 at hle
  omega

theorem not_namedBy_withOrphan (k : Nat) : ¬ (withOrphan nblocks d).NamedBy i k := by
  rw [NamedBy, dirEntry_withOrphan]
  rintro ⟨⟩

theorem live_withOrphan : (withOrphan nblocks d).Live i ↔
    i = SFS_ROOTDIR_INO ∨ i = (orphan nblocks d).sv_ino := by
  rw [Live, loaded_withOrphan]
  exact or_congr_right ⟨fun h => h.resolve_right fun hk => hk.elim not_namedBy_withOrphan, .inl⟩

theorem slot_root_withOrphan (s : Slot) :
    ((withOrphan nblocks d).inode SFS_ROOTDIR_INO).slot s = 0 := by
  rw [slot_of_single (d := 0) (by rw [inode_root_withOrphan]; rfl) fun l => ?_]
  · exact ite_self 0
  · rw [inode_root_withOrphan]
    exact (ite_self 0).symm

theorem slot_orphan (s : Slot) :
    ((withOrphan nblocks d).inode (orphan nblocks d).sv_ino).slot s =
      if s = .data 0 then d else 0 := by
  rw [inode_orphan]
  exact slot_of_single rfl (fun _ => rfl) s

/-- The blocks of the volume, by role. -/
theorem ref_withOrphan (r : Role) (b : Nat) : (withOrphan nblocks d).Ref r b ↔
    (r = .super ∧ b = 0) ∨ (∃ j < freemapBlocks nblocks, r = .freemap j ∧ b = 2 + j) ∨
      (r = .inode SFS_ROOTDIR_INO ∧ b = 1) ∨
      (r = .inode (orphan nblocks d).sv_ino ∧ b = firstFree nblocks) ∨
      (r = .slot (orphan nblocks d).sv_ino (.data 0) ∧ d ≠ 0 ∧ b = d.toNat) := by
  cases r with
  | super => simp [Ref]
  | freemap j =>
    simp only [Ref, reduceCtorEq, false_and, false_or, or_false, Role.freemap.injEq]
    constructor
    · rintro ⟨hj, hb⟩
      exact ⟨j, hj, rfl, hb⟩
    · rintro ⟨j', hj, rfl, hb⟩
      exact ⟨hj, hb⟩
  | inode i =>
    simp only [Ref, live_withOrphan, reduceCtorEq, false_and, and_false, exists_false, false_or,
      or_false, Role.inode.injEq, or_and_right]
    refine or_congr (and_congr_right ?_) (and_congr_right ?_)
    · rintro rfl
      exact Iff.rfl
    · rintro rfl
      rw [toNat_orphan]
  | slot i s =>
    simp only [Ref, live_withOrphan, reduceCtorEq, false_and, and_false, exists_false, false_or,
      Role.slot.injEq]
    constructor
    · rintro ⟨rfl | rfl, hs, hb⟩
      · exact absurd (slot_root_withOrphan s) hs
      · rw [slot_orphan] at hs hb
        split at hs
        · next h0 =>
          rw [if_pos h0] at hb
          exact ⟨⟨rfl, h0⟩, hs, hb.symm⟩
        · exact absurd rfl hs
    · rintro ⟨⟨rfl, rfl⟩, hd, rfl⟩
      rw [slot_orphan, if_pos rfl]
      exact ⟨.inr rfl, hd, rfl⟩

theorem marked_withOrphan (b : Nat) : (withOrphan nblocks d).vol.Marked b ↔
    b ≤ firstFree nblocks ∨ b = d.toNat ∨ nblocks.toNat ≤ b :=
  decide_eq_true_iff

section

variable (hroom : firstFree nblocks < nblocks.toNat)
  (hd : d ≠ 0 → firstFree nblocks < d.toNat ∧ d.toNat < nblocks.toNat)
include hroom hd

/-- Its blocks have one role each, if the inode and the data block are on it and apart. -/
theorem exact_withOrphan : Exact (withOrphan nblocks d).vol.Taken (withOrphan nblocks d).Ref := by
  have hfree : firstFree nblocks = 2 + freemapBlocks nblocks := rfl
  constructor
  case covered =>
    rintro b ⟨hlt, hm⟩
    simp only [ref_withOrphan]
    have hlt : b < nblocks.toNat := hlt
    have hm := (marked_withOrphan b).1 hm
    by_cases h0 : b = 0
    · exact ⟨.super, .inl ⟨rfl, h0⟩⟩
    by_cases h1 : b = 1
    · exact ⟨_, .inr (.inr (.inl ⟨rfl, h1⟩))⟩
    by_cases hmap : b < firstFree nblocks
    · exact ⟨_, .inr (.inl ⟨b - 2, by omega, rfl, by omega⟩)⟩
    by_cases hino : b = firstFree nblocks
    · exact ⟨_, .inr (.inr (.inr (.inl ⟨rfl, hino⟩)))⟩
    · have hbd : b = d.toNat := by omega
      refine ⟨_, .inr (.inr (.inr (.inr ⟨rfl, ?_, hbd⟩)))⟩
      rintro rfl
      exact h0 hbd
  case marked =>
    intro r b hr
    rw [ref_withOrphan] at hr
    suffices hb : b < nblocks.toNat ∧ (b ≤ firstFree nblocks ∨ b = d.toNat) from
      ⟨hb.1, (marked_withOrphan b).2 (hb.2.imp id .inl)⟩
    rcases hr with ⟨-, rfl⟩ | ⟨j, hj, -, rfl⟩ | ⟨-, rfl⟩ | ⟨-, rfl⟩ | ⟨-, hne, rfl⟩
    · omega
    · omega
    · omega
    · omega
    · exact ⟨(hd hne).2, .inr rfl⟩
  case unique =>
    intro r r' b hr hr'
    rw [ref_withOrphan] at hr hr'
    rcases hr with ⟨rfl, hb⟩ | ⟨j, hj, rfl, hb⟩ | ⟨rfl, hb⟩ | ⟨rfl, hb⟩ | ⟨rfl, hne, hb⟩ <;>
    rcases hr' with ⟨rfl, hb'⟩ | ⟨j', hj', rfl, hb'⟩ | ⟨rfl, hb'⟩ | ⟨rfl, hb'⟩ |
      ⟨rfl, hne', hb'⟩ <;>
    first
      | rfl
      | omega
      | (rw [show j = j' by omega])
      | (have hlt := hd ‹_›; omega)

theorem coherent_withOrphan : (withOrphan nblocks d).Coherent 0 := by
  have hlive : ∀ i, (withOrphan nblocks d).Live i → i ≠ SFS_ROOTDIR_INO →
      (withOrphan nblocks d).inode i = ⟨(withOrphan nblocks d).vol, orphan nblocks d⟩ := by
    intro i hi hne
    rw [(live_withOrphan.1 hi).resolve_left hne, inode_orphan]
  constructor
  case table => exact List.nodup_singleton _
  case refcount =>
    intro i sv hi
    rw [vnode_withOrphan] at hi
    split at hi
    · cases hi
      exact Nat.one_pos
    · cases hi
  case clean =>
    intro i sv hi hc
    rw [vnode_withOrphan] at hi
    split at hi
    · cases hi
      cases hc
    · cases hi
  case root =>
    refine ⟨?_, ?_, ?_⟩ <;> rw [inode_root_withOrphan]
    · rfl
    · rfl
    · exact Nat.zero_le _
  case rootLinks =>
    rw [inode_root_withOrphan]
    decide
  case rootUnnamed => exact not_namedBy_withOrphan
  case names =>
    intro k k' j j' n hk
    have hnone : (withOrphan nblocks d).dirEntry k = none := dirEntry_withOrphan k
    rw [dirEntry, hk] at hnone
    cases hnone
  case files =>
    intro i hi hne
    rw [hlive i hi hne]
    rfl
  case links =>
    intro i hi hne
    have hzero : (withOrphan nblocks d).links i = 0 :=
      Finset.card_eq_zero.2 (Finset.filter_eq_empty_iff.2 fun k _ => not_namedBy_withOrphan k)
    rw [hlive i hi hne, hzero]
    rfl
  case exact => exact exact_withOrphan hroom hd

theorem consistent_withOrphan : (withOrphan nblocks d).Consistent := by
  refine ⟨coherent_withOrphan hroom hd, ⟨rfl, Nat.le_refl _⟩, ⟨?_, ?_⟩,
    fun b hge _ => (marked_withOrphan b).2 (.inr (.inr hge))⟩
  · change nblocks.toNat ≤ (nblocks.toNat + 4095) / 4096 * 4096
    omega
  · change (nblocks.toNat + 4095) / 4096 * 4096 % 8 = 0
    omega

end

/-! ## Runs on small and on large volumes -/

/-- A request to write a block of ones to the beginning of a file. -/
def ones : Uio where
  uio_iov := [List.replicate SFS_BLOCKSIZE 255]
  uio_offset := 0
  uio_resid := SFS_BLOCKSIZE
  uio_rw := .UIO_WRITE
  copies := []
  moved := []

theorem fits_ones : ones.Fits := ⟨by simp [ones], by decide⟩

/-- The holder of the open file may write it. -/
theorem valid_ones :
    (FsCall.io (orphan nblocks d).sv_ino ones).Valid (withOrphan nblocks d) :=
  ⟨loaded_withOrphan.2 rfl, fits_ones⟩

/-- A volume of 8K. -/
theorem consistent_small : (withOrphan 16 0).Consistent :=
  consistent_withOrphan (by decide) fun h => absurd rfl h

/-- The state behind a call that may be made. -/
def next (fs : SfsFs) (call : FsCall) : Option SfsFs :=
  if call.Valid fs then ((call.run fs).map Prod.snd).toOption else none

theorem next_step (hn : fs.next call = some fs') : FsStep fs call fs' := by
  obtain ⟨hv, hrun⟩ := of_ite_toOption hn
  refine ⟨hv, ?_⟩
  cases hcall : call.run fs with
  | error e =>
    rw [hcall] at hrun
    cases hrun
  | ok r =>
    rw [hcall] at hrun
    cases hrun
    exact ⟨r.1, rfl⟩

/-- The root directory is opened, and a file with the name `a` made and written beside the open
    one. -/
def twoFiles : List FsCall :=
  [.getroot, .creat SFS_ROOTDIR_INO ⟨[97], by decide⟩ true, .io 4 ones]

theorem reaches_twoFiles {p : SfsFs → Bool}
    (h : (replay next (withOrphan 16 0) twoFiles).map p = some true) :
    ∃ fs, Reaches FsStep (withOrphan 16 0) fs ∧ p fs = true :=
  exists_reaches_of_replay (fun _ _ _ _ hn => next_step hn) h

/-- Both files are in use, and the second has a block. -/
theorem small_runs_accounted :
    (withOrphan 16 0).Consistent ∧ (withOrphan 16 0).vol.sb_nblocks.toNat * SFS_BLOCKSIZE ≤ 2 ^ 32 ∧
      ∃ fs', Reaches FsStep (withOrphan 16 0) fs' ∧ (fs'.inode 4).slot (.data 0) = 6 ∧
        fs'.Accounted ∧
        ∀ call : FsCall, call.Valid fs' → ∃ r fs'', call.run fs' = .ok (r, fs'') := by
  obtain ⟨fs', hr, hslot⟩ := reaches_twoFiles (p := fun fs => (fs.inode 4).slot (.data 0) == 6)
    (by decide +kernel)
  exact ⟨consistent_small, by decide, fs', hr, beq_iff_eq.1 hslot,
    runs_accounted consistent_small (by decide) hr⟩

/-- The open file, which is on the disk only then. -/
theorem orphan_durable : ∃ fs', (FsCall.fsync (orphan 16 0).sv_ino).run (withOrphan 16 0)
      = .ok (.ok none, fs') ∧
    (fs'.crashed.inode (orphan 16 0).sv_ino).sv.sv_i = (orphan 16 0).sv_i := by
  obtain ⟨fs', hrun, hview⟩ :=
    fsync_durable consistent_small (by decide) .refl (loaded_withOrphan.2 rfl)
  rw [inode_orphan] at hview
  exact ⟨fs', hrun, hview.dinode⟩

/-- One file is written, and the other one keeps its block of ones. -/
theorem orphan_runs_files : ∃ fs fs', Reaches FsStep (withOrphan 16 0) fs ∧
    ((fs.file 4).1 0 = 255 ∧ (fs.file 4).2 = 512) ∧
    FsStep fs (.io (orphan 16 0).sv_ino ones) fs' ∧ fs.file 4 = fs'.file 4 := by
  obtain ⟨fs, hr, hcheck⟩ := reaches_twoFiles
    (p := fun fs => decide ((fs.file 4).1 0 = 255 ∧ (fs.file 4).2 = 512) &&
      (fs.next (.io (orphan 16 0).sv_ino ones)).any fun fs' => (fs'.vnode? 4).isSome)
    (by decide +kernel)
  simp only [Bool.and_eq_true, decide_eq_true_eq, Option.any_eq_true] at hcheck
  obtain ⟨hdata, fs', hn, hl⟩ := hcheck
  have hs := next_step hn
  have hleaves := runs_files consistent_small (by decide) hr hs (Loaded.live hl) (by decide)
  exact ⟨fs, fs', hr, hdata, hs, (hleaves.resolve_left (by decide)).2⟩

/-- The open file gets the name `a`. -/
def linkA : FsCall := .link SFS_ROOTDIR_INO ⟨[97], by decide⟩ (orphan 16 0).sv_ino

/-- A search for this name. -/
def lookupA : FsCall := .lookup SFS_ROOTDIR_INO ⟨[97], by decide⟩

/-- The root directory is opened, the open file gets a name in it, which leads to the file. -/
theorem linkA_runs_named : ∃ fs₁ fs₂ fs₃ N, FsStep (withOrphan 16 0) .getroot fs₁ ∧
    FsStep fs₁ linkA fs₂ ∧ Naming fs₂.dirEntry N ∧ N [97] = some (orphan 16 0).sv_ino ∧
    lookupA.run fs₂ = .ok (.ok (N [97]), fs₃) := by
  have hcheck : ((withOrphan 16 0).next .getroot).any (fun fs₁ => (fs₁.next linkA).any fun fs₂ =>
      (fs₂.vnode? SFS_ROOTDIR_INO).isSome && lookupA.run.passes
        (fun r _ => r.toOption = some (some (orphan 16 0).sv_ino)) fs₂) = true := by
    decide +kernel
  simp only [Option.any_eq_true, Bool.and_eq_true] at hcheck
  obtain ⟨fs₁, hn₁, fs₂, hn₂, hroot, hlookup⟩ := hcheck
  obtain ⟨r₃, fs₃, hrun₃, hr⟩ := exists_of_passes hlookup
  have hopen := next_step hn₁
  have hname := next_step hn₂
  obtain ⟨N, hN, hcalls⟩ := runs_named consistent_small (by decide) (.tail (.single hopen) hname)
  obtain ⟨r, fs', N', hcall, hout, -⟩ := hcalls lookupA hroot
  rw [hrun₃] at hcall
  cases hcall
  cases r₃ with
  | error e => cases of_decide_eq_true hr
  | ok v =>
    have hv : N [97] = v := hout.1.2.1
    rw [← hv] at hrun₃ hr
    exact ⟨fs₁, fs₂, fs₃, N, hopen, hname, hN, Option.some.inj (of_decide_eq_true hr), hrun₃⟩

/-- The volume has two blocks more than 4G, and the open file has the last of them. Writing this
    block writes block 1, the inode of the root directory, which then has a block outside the
    volume. -/
theorem large_not_accounted :
    (withOrphan 8388610 8388609).Consistent ∧
      ∃ fs', Reaches FsStep (withOrphan 8388610 8388609) fs' ∧ ¬ fs'.Accounted := by
  refine ⟨consistent_withOrphan (by decide) fun _ => by decide, ?_⟩
  have hcheck : (FsCall.io (orphan 8388610 8388609).sv_ino ones).run.passes
      (fun _ fs' => decide ((fs'.inode SFS_ROOTDIR_INO).slot (.data 0) ≠ 0 ∧
        fs'.vol.sb_nblocks ≤ (fs'.inode SFS_ROOTDIR_INO).slot (.data 0)))
      (withOrphan 8388610 8388609) = true := by
    decide +kernel
  obtain ⟨r, fs', hrun, htest⟩ := exists_of_passes hcheck
  obtain ⟨hne, hle⟩ := of_decide_eq_true htest
  refine ⟨fs', .single (l := .io (orphan 8388610 8388609).sv_ino ones) ⟨valid_ones, r, hrun⟩,
    fun hacc => ?_⟩
  have htaken := hacc.blocks.marked (.slot SFS_ROOTDIR_INO (.data 0)) _ ⟨.inl rfl, hne, rfl⟩
  exact absurd htaken.1 (Nat.not_lt.2 (UInt32.le_iff_toNat_le.1 hle))

end SfsFs

end DemandPaging
