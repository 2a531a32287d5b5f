import DemandPaging.Sfs.Contents
import DemandPaging.Sfs.Dir

set_option autoImplicit false

/-! # The entries of the directory

What the functions of `sfs_dir.c` do, in terms of the entries: `dirEntry` is a map from slots to the
inode number and the name there, and linking and unlinking change it in one place. -/

namespace DemandPaging

open Caller (UioRw)
open Fallible

namespace Direntry

variable {sd : Direntry} {ino : UInt32} {name : Name}

theorem length_toBytes : sd.toBytes.length = size := by
  rw [toBytes, List.length_append, List.length_ofFn, List.length_ofFn]
  rfl

@[simp] theorem ofBytes_toBytes (sd : Direntry) : ofBytes sd.toBytes = sd := by
  ext1
  · have hbytes : (fun i : Fin 4 => sd.toBytes.getD i 0) = wordBytes sd.sfd_ino := by
      funext i
      have hlt : i.val < (List.ofFn (wordBytes sd.sfd_ino)).length := by
        rw [List.length_ofFn]
        exact i.2
      rw [toBytes, List.getD_append _ _ _ _ hlt, List.getD_eq_getElem _ _ hlt, List.getElem_ofFn]
    rw [ofBytes, hbytes, wordOf_wordBytes]
  · funext i
    have hlt : i.val < (List.ofFn sd.sfd_name).length := by
      rw [List.length_ofFn]
      exact i.2
    change sd.toBytes.getD (4 + i) 0 = _
    rw [toBytes, List.getD_append_right _ _ _ _ (by rw [List.length_ofFn]; omega), List.length_ofFn,
      Nat.add_sub_cancel_left, List.getD_eq_getElem _ _ hlt, List.getElem_ofFn]

/-- The name of a new entry is read back. -/
theorem chars_make (h : name.chars.length < SFS_NAMELEN) : (make ino name).chars = name.chars := by
  have h : name.chars.length < 60 := h
  have htake : (List.ofFn (make ino name).sfd_name).take (SFS_NAMELEN - 1)
      = name.chars ++ List.replicate (59 - name.chars.length) 0 := by
    refine List.ext_getElem ?_ fun t ht ht' => ?_
    · rw [List.length_take, List.length_ofFn, List.length_append, List.length_replicate]
      change min 59 60 = _
      omega
    · rw [List.getElem_take, List.getElem_ofFn, List.getElem_append]
      change name.chars.getD t 0 = _
      split
      · next hlt => exact List.getD_eq_getElem _ _ hlt
      · next hge =>
        rw [List.getElem_replicate]
        exact List.getD_eq_default _ _ (Nat.not_lt.1 hge)
  have hall : ∀ c ∈ name.chars, (decide (c ≠ 0)) = true := by
    intro c hc
    refine decide_eq_true ?_
    rintro rfl
    exact name.nonzero hc
  rw [chars, htake, List.takeWhile_append_of_pos hall]
  cases 59 - name.chars.length with
  | zero => simp
  | succ n => simp [List.replicate_succ]

theorem ino_zeros : (ofBytes (List.replicate size 0)).sfd_ino = SFS_NOINO := by decide

end Direntry

namespace Inode

variable {x x' : Inode} {F : Nat → Prop} {k : Nat} {name : Name} {ino : UInt32}

/-! ## Reading and writing -/

theorem extend_eq (endpos : Nat) : extend endpos x =
    if x.sv.sv_i.sfi_size.toNat < endpos then x.setSize (UInt32.ofNat endpos) else x := rfl

theorem blockNumber_toNat {o : Nat} (h : o < 2 ^ 41) :
    (UInt32.ofNat (o / SFS_BLOCKSIZE)).toNat = o / SFS_BLOCKSIZE := by
  rw [UInt32.toNat_ofNat']
  exact Nat.mod_eq_of_lt (by change o / 512 < 2 ^ 32; omega)

theorem Own.sfsReadblock_mapped (h : x.Own F) (hz : x.mapped k ≠ 0) :
    Volume.sfsReadblock (x.mapped k) x.vol = .ok (.ok (x.fileData k), x.vol) := by
  rw [fileData, if_neg hz]
  exact h.sound.quiet.sfsReadblock (UInt32.lt_iff_toNat_lt.2 (h.mapped_taken hz).1)

/-- `sfs_metaio` reads the bytes of the file. -/
theorem Own.wp_sfsMetaio_read (h : x.Own F) {o : Nat} {data : List UInt8}
    (ho : o / SFS_BLOCKSIZE < SFS_NDIRECT + SFS_DBPERIDB)
    (hin : o % SFS_BLOCKSIZE + data.length ≤ SFS_BLOCKSIZE) :
    (sfsMetaio o data .UIO_READ).Total (fun bs x' => bs = extract x.byte o data.length ∧ x' = x)
      x := by
  have hnum : (UInt32.ofNat (o / SFS_BLOCKSIZE)).toNat = o / SFS_BLOCKSIZE := by
    refine blockNumber_toNat ?_
    change o / 512 < 143 at ho
    omega
  simp only [sfsMetaio, wp_bind]
  refine (h.wp_sfsBmap _ _).imp₂ (fun b y hb => ?_) fun _ y he => ?_
  case refine_2 => exact absurd (he.needed (by rw [hnum]; exact ho)) (by decide)
  obtain ⟨-, hmaps⟩ := hb
  obtain rfl := hmaps.same rfl
  have hblock := hmaps.block
  rw [hnum] at hblock
  split
  · next hz =>
    simp only [wp_bind, wp_check, wp_pure]
    refine ⟨fun _ => ⟨?_, trivial⟩, fun hno => hno trivial⟩
    rw [extract_byte hin, fileData, if_pos (hblock ▸ hz), Block.toList_zeros, List.drop_replicate,
      List.take_replicate, Nat.min_eq_left (by omega)]
  · next hz =>
    subst hblock
    simp only [wp_bind, onVol, wp_zoom]
    refine (wp_of_ok (h.sfsReadblock_mapped hz)).2 ?_
    exact ⟨(extract_byte hin).symm, rfl⟩

/-- What `sfs_metaio` has done when it has written. -/
structure Wrote (F : Nat → Prop) (x : Inode) (o : Nat) (data : List UInt8) (x' : Inode) : Prop where
  frame : Local F x x'
  byte : x'.byte = overlay x.byte o data
  size : x'.sv.sv_i.sfi_size.toNat = max x.sv.sv_i.sfi_size.toNat (o + data.length)
  block : o / SFS_BLOCKSIZE < SFS_NDIRECT + SFS_DBPERIDB

/-- The end of `sfs_metaio`: the block is written, and the size is set. -/
theorem Grows.wrote {y : Inode} {o : Nat} {data : List UInt8} (hgrow : Grows F x y)
    (hin : o % SFS_BLOCKSIZE + data.length ≤ SFS_BLOCKSIZE)
    (hblock : o / SFS_BLOCKSIZE < SFS_NDIRECT + SFS_DBPERIDB)
    (hz : y.mapped (o / SFS_BLOCKSIZE) ≠ 0) :
    Wrote F x o data (extend (o + data.length) (y.writeData (o / SFS_BLOCKSIZE)
      ((y.fileData (o / SFS_BLOCKSIZE)).splice (o % SFS_BLOCKSIZE) data))) := by
  obtain ⟨hlocal, hdata⟩ := hgrow.own.writeData hz
    ((y.fileData (o / SFS_BLOCKSIZE)).splice (o % SFS_BLOCKSIZE) data)
  generalize hw : y.writeData (o / SFS_BLOCKSIZE) _ = w at hlocal hdata ⊢
  have hsize : w.sv.sv_i.sfi_size = x.sv.sv_i.sfi_size := by
    rw [← hw]
    exact hgrow.size
  have hbyte : w.byte = overlay x.byte o data := by
    rw [← byte_congr hgrow.data]
    exact byte_splice hin hdata
  change o / 512 < 143 at hblock
  change o % 512 + data.length ≤ 512 at hin
  have hsmall : (UInt32.ofNat (o + data.length)).toNat = o + data.length :=
    UInt32.toNat_ofNat_of_lt' (by change _ < 2 ^ 32; omega)
  rw [extend_eq]
  split
  · next hlt =>
    rw [hsize] at hlt
    refine ⟨(hgrow.toLocal.trans hlocal).trans (hlocal.own.setSize _), hbyte, ?_, hblock⟩
    change (UInt32.ofNat (o + data.length)).toNat = _
    rw [hsmall]
    omega
  · next hge =>
    rw [hsize] at hge
    refine ⟨hgrow.toLocal.trans hlocal, hbyte, ?_, hblock⟩
    rw [hsize]
    omega

/-- `sfs_metaio` writes bytes of the file. -/
theorem Own.wp_sfsMetaio_write (h : x.Own F) {o : Nat} {data : List UInt8} (ho : o < 2 ^ 41)
    (hin : o % SFS_BLOCKSIZE + data.length ≤ SFS_BLOCKSIZE) :
    (sfsMetaio o data .UIO_WRITE).Safe (fun _ => Wrote F x o data)
      (MapFails F x (o / SFS_BLOCKSIZE) true) x := by
  simp only [sfsMetaio, wp_bind]
  have hbmap := h.wp_sfsBmap (UInt32.ofNat (o / SFS_BLOCKSIZE)) true
  rw [blockNumber_toNat ho] at hbmap
  refine hbmap.imp fun b y hb => ?_
  obtain ⟨hk, hgrow, rfl, hne, -⟩ := hb
  have hz : y.mapped (o / SFS_BLOCKSIZE) ≠ 0 := hne rfl
  have hown := hgrow.own
  have hwrite : Volume.sfsWriteblock (y.mapped (o / SFS_BLOCKSIZE))
      ((y.fileData (o / SFS_BLOCKSIZE)).splice (o % SFS_BLOCKSIZE) data) y.vol = _ :=
    hown.sound.quiet.sfsWriteblock (UInt32.lt_iff_toNat_lt.2 (hown.mapped_taken hz).1)
  rw [if_neg hz]
  simp only [wp_bind, onVol, wp_zoom]
  refine (wp_of_ok (hown.sfsReadblock_mapped hz)).2 ?_
  rw [if_neg (by decide)]
  simp only [wp_bind, wp_zoom, wp_modify, wp_pure]
  exact (wp_of_ok hwrite).2 (hgrow.wrote hin hk hz)

/-! ## The slots of a directory -/

/-- The slots that a directory can have. -/
abbrev dirSlots : Nat := (SFS_NDIRECT + SFS_DBPERIDB) * SFS_BLOCKSIZE / Direntry.size

/-- A directory has whole entries only, and not more than fit. -/
structure IsDir (x : Inode) : Prop where
  type : x.sv.sv_i.sfi_type = SFS_TYPE_DIR
  aligned : x.sv.sv_i.sfi_size.toNat % Direntry.size = 0
  bound : x.sv.sv_i.sfi_size.toNat ≤ dirSlots * Direntry.size

/-- What is in a slot. -/
def entry (x : Inode) (k : Nat) : Direntry :=
  Direntry.ofBytes (extract x.byte (k * Direntry.size) Direntry.size)

/-- The inode number and the name in a slot, if the slot is there and in use. -/
def dirEntry (x : Inode) (k : Nat) : Option (UInt32 × List UInt8) :=
  if (k + 1) * Direntry.size ≤ x.sv.sv_i.sfi_size.toNat ∧ (x.entry k).sfd_ino ≠ SFS_NOINO then
    some ((x.entry k).sfd_ino, (x.entry k).chars)
  else none

/-- No two entries have the same name. -/
def DistinctNames (x : Inode) : Prop :=
  ∀ k k' i i' n, x.dirEntry k = some (i, n) → x.dirEntry k' = some (i', n) → k = k'

theorem dirEntry_congr (hbyte : x'.byte = x.byte)
    (hsize : x'.sv.sv_i.sfi_size = x.sv.sv_i.sfi_size) : x'.dirEntry = x.dirEntry := by
  funext k
  have hentry : x'.entry k = x.entry k := by rw [entry, entry, hbyte]
  rw [dirEntry, dirEntry, hentry, hsize]

theorem lt_of_dirEntry {e : UInt32 × List UInt8} (h : x.dirEntry k = some e) :
    (k + 1) * Direntry.size ≤ x.sv.sv_i.sfi_size.toNat := by
  rw [dirEntry] at h
  split at h
  · next hc => exact hc.1
  · cases h

theorem ino_of_dirEntry {e : UInt32 × List UInt8} (h : x.dirEntry k = some e) :
    (x.entry k).sfd_ino ≠ SFS_NOINO := by
  rw [dirEntry] at h
  split at h
  · next hc => exact hc.2
  · cases h

theorem IsDir.lt_dirSlots (h : x.IsDir) {e : UInt32 × List UInt8} (hk : x.dirEntry k = some e) :
    k < dirSlots := by
  have hle := lt_of_dirEntry hk
  have hbound := h.bound
  change (k + 1) * 64 ≤ _ at hle
  change _ ≤ 1144 * 64 at hbound
  change k < 1144
  omega

theorem slot_in_block (k : Nat) :
    k * Direntry.size % SFS_BLOCKSIZE + Direntry.size ≤ SFS_BLOCKSIZE := by
  change k * 64 % 512 + 64 ≤ 512
  omega

theorem slot_lt {size : UInt32} (h : k * Direntry.size ≤ size.toNat) :
    k * Direntry.size < 2 ^ 41 := by
  have := size.toNat_lt
  omega

theorem Own.wp_sfsReaddir (h : x.Own F) (hk : k < dirSlots) :
    (sfsReaddir k).Total (fun sd x' => sd = x.entry k ∧ x' = x) x := by
  have hlen : (List.replicate Direntry.size (0 : UInt8)).length = Direntry.size :=
    List.length_replicate
  have hblock : k * Direntry.size / SFS_BLOCKSIZE < SFS_NDIRECT + SFS_DBPERIDB := by
    change k < 1144 at hk
    change k * 64 / 512 < 143
    omega
  have hread := h.wp_sfsMetaio_read hblock (by rw [hlen]; exact slot_in_block k)
  simp only [sfsReaddir, wp_bind, wp_pure]
  refine hread.imp fun bs y hb => ?_
  obtain ⟨rfl, rfl⟩ := hb
  rw [hlen]
  exact ⟨rfl, rfl⟩

/-- A slot in use is in a block that is there. -/
theorem mapped_of_entry (h : (x.entry k).sfd_ino ≠ SFS_NOINO) :
    x.mapped (k * Direntry.size / SFS_BLOCKSIZE) ≠ 0 := by
  intro hz
  have hin := slot_in_block k
  refine h ?_
  rw [entry, extract_byte hin, fileData, if_pos hz, Block.toList_zeros, List.drop_replicate,
    List.take_replicate, Nat.min_eq_left (by omega)]
  exact Direntry.ino_zeros

/-- What a slot holds after an entry was written there. -/
def stored (sd : Direntry) : Option (UInt32 × List UInt8) :=
  if sd.sfd_ino ≠ SFS_NOINO then some (sd.sfd_ino, sd.chars) else none

/-- An entry was written to a slot. -/
structure Stored (F : Nat → Prop) (x : Inode) (slot : Nat) (sd : Direntry) (x' : Inode) : Prop where
  frame : Local F x x'
  isDir : x'.IsDir
  entry : x'.dirEntry = Function.update x.dirEntry slot (stored sd)

/-- The directory is as it was, though it may have more blocks. -/
structure SameDir (F : Nat → Prop) (x x' : Inode) : Prop where
  frame : Local F x x'
  isDir : x'.IsDir
  entry : x'.dirEntry = x.dirEntry

theorem SameDir.refl (h : x.Own F) (hd : x.IsDir) : SameDir F x x := ⟨.refl h, hd, rfl⟩

theorem Grows.sameDir (h : Grows F x x') (hd : x.IsDir) : SameDir F x x' where
  frame := h.toLocal
  isDir := by
    constructor
    case type => rw [h.type, hd.type]
    case aligned => rw [h.size, hd.aligned]
    case bound =>
      rw [h.size]
      exact hd.bound
  entry := dirEntry_congr (byte_congr h.data) h.size

theorem Wrote.stored {sd : Direntry} (hd : x.IsDir)
    (hk : k * Direntry.size ≤ x.sv.sv_i.sfi_size.toNat)
    (h : Wrote F x (k * Direntry.size) sd.toBytes x') : Stored F x k sd x' := by
  have hsize := h.size
  have hblock := h.block
  have hal := hd.aligned
  have hbound := hd.bound
  rw [Direntry.length_toBytes] at hsize
  change k * 64 / 512 < 143 at hblock
  change _ % 64 = 0 at hal
  change _ ≤ 1144 * 64 at hbound
  change k * 64 ≤ _ at hk
  change _ = max _ (k * 64 + 64) at hsize
  constructor
  case frame => exact h.frame
  case isDir =>
    constructor
    case type => rw [h.frame.type, hd.type]
    case aligned =>
      change _ % 64 = 0
      omega
    case bound =>
      change _ ≤ 1144 * 64
      omega
  case entry =>
    funext l
    by_cases hl : l = k
    · subst hl
      have hlen : Direntry.size = sd.toBytes.length := Direntry.length_toBytes.symm
      have hentry : x'.entry l = sd := by
        rw [Inode.entry, h.byte]
        conv_lhs => rw [hlen, extract_overlay, Direntry.ofBytes_toBytes]
      have hin : (l + 1) * Direntry.size ≤ x'.sv.sv_i.sfi_size.toNat := by
        change (l + 1) * 64 ≤ _
        omega
      simp only [Function.update_self, dirEntry, hentry, hin, true_and, Inode.stored]
    · have hentry : x'.entry l = x.entry l := by
        rw [Inode.entry, h.byte, extract_overlay_of_disjoint, Inode.entry]
        rw [Direntry.length_toBytes]
        change l * 64 + 64 ≤ k * 64 ∨ k * 64 + 64 ≤ l * 64
        omega
      have hin : (l + 1) * Direntry.size ≤ x'.sv.sv_i.sfi_size.toNat ↔
          (l + 1) * Direntry.size ≤ x.sv.sv_i.sfi_size.toNat := by
        change (l + 1) * 64 ≤ _ ↔ (l + 1) * 64 ≤ _
        omega
      simp only [Function.update_of_ne hl, dirEntry, hentry, hin]

/-- `sfs_writedir`, for a slot that is there or the next one. -/
theorem Own.wp_sfsWritedir (h : x.Own F) (hd : x.IsDir) (sd : Direntry)
    (hk : k * Direntry.size ≤ x.sv.sv_i.sfi_size.toNat) :
    (sfsWritedir k sd).Safe (fun _ => Stored F x k sd)
      (fun e x' => SameDir F x x' ∧ (x.entry k).sfd_ino = SFS_NOINO ∧
        x.Lacks (k * Direntry.size / SFS_BLOCKSIZE) e) x := by
  have hlen : sd.toBytes.length = Direntry.size := Direntry.length_toBytes
  have hwrite := h.wp_sfsMetaio_write (slot_lt hk) (by rw [hlen]; exact slot_in_block k)
  simp only [sfsWritedir, wp_bind, wp_pure]
  refine hwrite.imp₂ (fun _ y hw => hw.stored hd hk) fun _ y he =>
    ⟨he.grows.sameDir hd, ?_, he.reason⟩
  by_contra hne
  exact mapped_of_entry hne he.missing

/-! ## Searching, linking and unlinking -/

theorem IsDir.sfsDirNentries (h : x.IsDir) :
    sfsDirNentries x = .ok (.ok (x.sv.sv_i.sfi_size.toNat / Direntry.size), x) := by
  refine Wp.eq_ok ?_
  simp only [Inode.sfsDirNentries, wp_bind, wp_read, wp_check]
  refine ⟨fun _ => ?_, fun hno => hno h.type⟩
  rw [if_neg (not_not.2 h.aligned)]
  exact ⟨rfl, rfl⟩

/-- What the search has found in the slots below `i`. -/
structure Seen (x : Inode) (name : Name) (i : Nat) (found : Option (UInt32 × Nat))
    (emptyslot : Option Nat) : Prop where
  absent : found = none → ∀ k < i, ∀ j, x.dirEntry k ≠ some (j, name.chars)
  present : ∀ j k, found = some (j, k) → k < i ∧ x.dirEntry k = some (j, name.chars)
  empty : ∀ k, emptyslot = some k → k < i ∧ x.dirEntry k = none
  full : emptyslot = none → ∀ k < i, x.dirEntry k ≠ none

theorem dirEntry_of_entry (hin : (k + 1) * Direntry.size ≤ x.sv.sv_i.sfi_size.toNat) :
    x.dirEntry k = stored (x.entry k) := by
  simp only [dirEntry, hin, true_and, stored]

theorem Own.wp_findnameLoop (h : x.Own F) (hd : x.IsDir) (hn : x.DistinctNames) (left i : Nat)
    (found : Option (UInt32 × Nat)) (emptyslot : Option Nat)
    (hleft : (i + left) * Direntry.size = x.sv.sv_i.sfi_size.toNat)
    (hseen : x.Seen name i found emptyslot) :
    (findnameLoop name left i found emptyslot).Total
      (fun r x' => x.Seen name (x.sv.sv_i.sfi_size.toNat / Direntry.size) r.1 r.2 ∧ x' = x)
      x := by
  induction left generalizing i found emptyslot with
  | zero =>
    have hi : i = x.sv.sv_i.sfi_size.toNat / Direntry.size := by
      rw [← hleft]
      change i = (i + 0) * 64 / 64
      omega
    exact wp_pure.2 ⟨hi ▸ hseen, rfl⟩
  | succ left ih =>
    have hleft' : (i + 1 + left) * Direntry.size = x.sv.sv_i.sfi_size.toNat := by
      rw [← hleft, Nat.add_assoc, Nat.add_comm 1]
    have hin : (i + 1) * Direntry.size ≤ x.sv.sv_i.sfi_size.toNat := by
      change (i + 1) * 64 ≤ _
      change (i + 1 + left) * 64 = _ at hleft'
      omega
    have hi : i < dirSlots := by
      have hbound := hd.bound
      change _ ≤ 1144 * 64 at hbound
      change (i + 1) * 64 ≤ _ at hin
      change i < 1144
      omega
    have hentry := dirEntry_of_entry hin
    simp only [findnameLoop, wp_bind]
    refine (h.wp_sfsReaddir hi).imp fun sd y hb => ?_
    obtain ⟨rfl, rfl⟩ := hb
    split
    · next hfree =>
      rw [stored, if_neg (not_not.2 hfree)] at hentry
      refine ih _ _ _ hleft' ⟨fun hf k hk j => ?_, fun j k hf => ?_, fun k hk => ?_,
        fun hno => (by cases hno)⟩
      · rcases Nat.lt_succ_iff_lt_or_eq.1 hk with hk | rfl
        · exact hseen.absent hf k hk j
        · rw [hentry]
          rintro ⟨⟩
      · exact ⟨Nat.lt_succ_of_lt (hseen.present j k hf).1, (hseen.present j k hf).2⟩
      · cases hk
        exact ⟨Nat.lt_succ_self _, hentry⟩
    · next hused =>
      rw [stored, if_pos hused] at hentry
      have hempty : ∀ k, emptyslot = some k → k < i + 1 ∧ y.dirEntry k = none :=
        fun k hk => ⟨Nat.lt_succ_of_lt (hseen.empty k hk).1, (hseen.empty k hk).2⟩
      have hfull : emptyslot = none → ∀ k < i + 1, y.dirEntry k ≠ none := by
        intro hno k hk
        rcases Nat.lt_succ_iff_lt_or_eq.1 hk with hk | rfl
        · exact hseen.full hno k hk
        · simp [hentry]
      split
      · next hname =>
        rw [hname] at hentry
        simp only [wp_bind, wp_check]
        refine ⟨fun _ => ih _ _ _ hleft'
          ⟨fun hf => (by cases hf), fun j k hf => ?_, hempty, hfull⟩, fun hsome => ?_⟩
        · cases hf
          exact ⟨Nat.lt_succ_self _, hentry⟩
        · obtain ⟨⟨j, k⟩, hf⟩ := Option.ne_none_iff_exists'.1 hsome
          obtain ⟨hk, hold⟩ := hseen.present j k hf
          have := hn k i _ _ _ hold hentry
          omega
      · next hname =>
        refine ih _ _ _ hleft' ⟨fun hf k hk j => ?_, fun j k hf => ?_, hempty, hfull⟩
        · rcases Nat.lt_succ_iff_lt_or_eq.1 hk with hk | rfl
          · exact hseen.absent hf k hk j
          · rw [hentry]
            exact fun heq => hname (Prod.mk.inj (Option.some.inj heq)).2
        · exact ⟨Nat.lt_succ_of_lt (hseen.present j k hf).1, (hseen.present j k hf).2⟩

/-- What `sfs_dir_findname` says: where the name is, and a slot that is free. -/
structure Lookup (x : Inode) (name : Name) (found : Option (UInt32 × Nat))
    (emptyslot : Option Nat) : Prop where
  absent : found = none → ∀ k j, x.dirEntry k ≠ some (j, name.chars)
  present : ∀ j k, found = some (j, k) → x.dirEntry k = some (j, name.chars)
  empty : ∀ k, emptyslot = some k →
    (k + 1) * Direntry.size ≤ x.sv.sv_i.sfi_size.toNat ∧ x.dirEntry k = none
  full : emptyslot = none → ∀ k, (k + 1) * Direntry.size ≤ x.sv.sv_i.sfi_size.toNat →
    x.dirEntry k ≠ none

theorem Own.wp_sfsDirFindname (h : x.Own F) (hd : x.IsDir) (hn : x.DistinctNames) (name : Name) :
    (sfsDirFindname name).Total (fun r x' => x.Lookup name r.1 r.2 ∧ x' = x) x := by
  have hal : x.sv.sv_i.sfi_size.toNat % 64 = 0 := hd.aligned
  simp only [sfsDirFindname, wp_bind]
  refine (wp_of_ok hd.sfsDirNentries).2 ?_
  refine (h.wp_findnameLoop hd hn _ 0 none none ?_ ⟨fun _ k hk => absurd hk (Nat.not_lt_zero k),
    fun _ _ hf => (by cases hf), fun _ hk => (by cases hk),
    fun _ k hk => absurd hk (Nat.not_lt_zero k)⟩).imp fun r y hb => ?_
  · change (0 + _ / 64) * 64 = _
    omega
  · obtain ⟨hseen, rfl⟩ := hb
    refine ⟨⟨fun hf k j hk => ?_, fun j k hf => (hseen.present j k hf).2, fun k hk => ?_,
      fun hno k hle => hseen.full hno k ?_⟩, rfl⟩
    · have hle := lt_of_dirEntry hk
      change (k + 1) * 64 ≤ _ at hle
      refine hseen.absent hf k ?_ j hk
      change k < _ / 64
      omega
    · obtain ⟨hlt, hfree⟩ := hseen.empty k hk
      refine ⟨?_, hfree⟩
      change k < _ / 64 at hlt
      change (k + 1) * 64 ≤ _
      omega
    · change (k + 1) * 64 ≤ _ at hle
      change k < _ / 64
      omega

/-- `sfs_dir_link` has put the name into a free slot. -/
structure Linked (F : Nat → Prop) (x : Inode) (name : Name) (ino : UInt32) (slot : Nat)
    (x' : Inode) : Prop where
  frame : Local F x x'
  isDir : x'.IsDir
  absent : ∀ k j, x.dirEntry k ≠ some (j, name.chars)
  free : x.dirEntry slot = none
  entry : x'.dirEntry = Function.update x.dirEntry slot (some (ino, name.chars))

/-- Why a directory with the entries `D` does not take a new name, on a volume that has `n` free
    blocks at most. -/
def NoRoom (D : Nat → Option (UInt32 × List UInt8)) (vol : Volume) (n : Nat) (name : Name)
    (e : Errno) : Prop :=
  e = .ENAMETOOLONG ∧ SFS_NAMELEN ≤ name.chars.length ∨ e = .ENOSPC ∧ vol.Tight n ∨
    e = .EFBIG ∧ ∀ k < dirSlots, D k ≠ none

/-- `sfs_dir_link` has left the directory as it was: the name is there, or there is no room. -/
structure Unlinked (F : Nat → Prop) (x : Inode) (name : Name) (e : Errno) (x' : Inode) : Prop
    extends SameDir F x x' where
  reason : (e = .EEXIST ∧ ∃ k j, x.dirEntry k = some (j, name.chars)) ∨
    (∀ k j, x.dirEntry k ≠ some (j, name.chars)) ∧ NoRoom x.dirEntry x.vol 1 name e

theorem Own.wp_sfsDirLink (h : x.Own F) (hd : x.IsDir) (hn : x.DistinctNames) (name : Name)
    (hino : ino ≠ SFS_NOINO) :
    (sfsDirLink name ino).Safe (Linked F x name ino) (Unlinked F x name) x := by
  have hsame : SameDir F x x := .refl h hd
  simp only [sfsDirLink, wp_bind]
  refine (h.wp_sfsDirFindname hd hn name).noFail.imp fun r y hb => ?_
  obtain ⟨found, emptyslot⟩ := r
  obtain ⟨hfind, rfl⟩ := hb
  simp only [wp_ite, wp_fail]
  refine ⟨fun hsome => ⟨hsame, .inl ⟨rfl, ?_⟩⟩, fun hnone => ?_⟩
  · obtain ⟨⟨j, k⟩, hfound⟩ := Option.ne_none_iff_exists'.1 hsome
    exact ⟨k, j, hfind.present j k hfound⟩
  have habsent := hfind.absent (not_not.1 hnone)
  refine ⟨fun hlong => ⟨hsame, .inr ⟨habsent, .inl ⟨rfl, Nat.le_of_lt_succ hlong⟩⟩⟩, fun hlen => ?_⟩
  have hstored : stored (Direntry.make ino name) = some (ino, name.chars) := by
    have hmake : (Direntry.make ino name).sfd_ino ≠ SFS_NOINO := hino
    rw [stored, if_pos hmake, Direntry.chars_make (by omega)]
    rfl
  have hwrite : ∀ slot, slot * Direntry.size ≤ y.sv.sv_i.sfi_size.toNat → y.dirEntry slot = none →
      (dirSlots ≤ slot → ∀ k < dirSlots, y.dirEntry k ≠ none) →
      (sfsWritedir slot (Direntry.make ino name)).Safe (fun _ => Linked F y name ino slot)
        (Unlinked F y name) y := by
    intro slot hle hfree hfull
    refine (h.wp_sfsWritedir hd _ hle).imp₂ (fun _ y' hs => ?_) fun _ y' he => ?_
    · exact ⟨hs.frame, hs.isDir, habsent, hfree, by rw [hs.entry, hstored]⟩
    · refine ⟨he.1, .inr ⟨habsent, .inr ?_⟩⟩
      rcases he.2.2 with ⟨rfl, hbig⟩ | hfull
      · refine .inr ⟨rfl, hfull ?_⟩
        change 143 ≤ slot * 64 / 512 at hbig
        change 1144 ≤ slot
        omega
      · exact .inl hfull
  cases hempty : emptyslot with
  | some slot =>
    obtain ⟨hle, hfree⟩ := hfind.empty slot hempty
    have hbound := hd.bound
    change (slot + 1) * 64 ≤ _ at hle
    change _ ≤ 1144 * 64 at hbound
    simp only [wp_bind, wp_pure]
    refine hwrite slot ?_ hfree fun hge => ?_
    · change slot * 64 ≤ _
      omega
    · change 1144 ≤ slot at hge
      omega
  | none =>
    have hal : y.sv.sv_i.sfi_size.toNat % 64 = 0 := hd.aligned
    simp only [wp_bind, wp_pure]
    refine (wp_of_ok hd.sfsDirNentries).2 (hwrite _ ?_ ?_ fun hge k hk => ?_)
    · exact Nat.div_mul_le_self ..
    · rw [dirEntry, if_neg]
      rintro ⟨hle, -⟩
      change (_ / 64 + 1) * 64 ≤ _ at hle
      omega
    · refine hfind.full hempty k ?_
      change 1144 ≤ _ / 64 at hge
      change k < 1144 at hk
      change (k + 1) * 64 ≤ _
      omega

/-- `sfs_dir_unlink` empties a slot in use. -/
theorem Own.wp_sfsDirUnlink (h : x.Own F) (hd : x.IsDir) {e : UInt32 × List UInt8}
    (hk : x.dirEntry k = some e) :
    (sfsDirUnlink k).Total
      (fun _ x' => Local F x x' ∧ x'.IsDir ∧ x'.dirEntry = Function.update x.dirEntry k none)
      x := by
  have hle : (k + 1) * 64 ≤ x.sv.sv_i.sfi_size.toNat := lt_of_dirEntry hk
  have hslot : k * Direntry.size ≤ x.sv.sv_i.sfi_size.toNat := by
    change k * 64 ≤ _
    omega
  refine (h.wp_sfsWritedir hd _ hslot).imp₂ (fun _ x' hs => ⟨hs.frame, hs.isDir, hs.entry⟩)
    fun _ _ he => ino_of_dirEntry hk he.2.1

end Inode

end DemandPaging
