import DemandPaging.Sfs.FsRuns

set_option autoImplicit false

/-! # Files are arrays of bytes

Seen from outside, a file is an array of bytes and a length. A reader gets the byte that was written
last at a position, or 0 where nothing was written, and a writer changes the stretch that it writes
and no other file.

The writes are kept in a list, the newest first, which only the statements look at. A run starts
with files that are new, and positions in a file are arbitrary. Those that one gets to from the
beginning of a file by reading and writing are never behind its end. -/

namespace DemandPaging

open Caller (UioRw)
open Fallible

/-- A write that was carried out. -/
structure Written where
  file : UInt32
  offset : Nat
  bytes : List UInt8

/-- The byte that a write has for a position of a file. -/
def Written.at? (w : Written) (v : UInt32) (p : Nat) : Option UInt8 :=
  if w.file = v ∧ w.offset ≤ p then w.bytes[p - w.offset]? else none

/-- The byte that was written last at a position, or 0. -/
def lastByte (log : List Written) (v : UInt32) (p : Nat) : UInt8 :=
  (log.findSome? fun w => w.at? v p).getD 0

/-- One more write, as the array of the file sees it. -/
theorem lastByte_cons (w : Written) (log : List Written) (v : UInt32) :
    lastByte (w :: log) v =
      if v = w.file then overlay (lastByte log v) w.offset w.bytes else lastByte log v := by
  funext p
  rw [lastByte, List.findSome?_cons, Written.at?]
  by_cases hv : v = w.file
  · by_cases hp : w.offset ≤ p
    · rw [if_pos ⟨hv.symm, hp⟩, if_pos hv, overlay, if_pos hp, List.getD_eq_getElem?_getD]
      cases w.bytes[p - w.offset]? with
      | none => rfl
      | some b => rfl
    · rw [if_neg fun hc => hp hc.2, if_pos hv, overlay, if_neg hp]
      rfl
  · rw [if_neg fun hc => hv hc.1.symm, if_neg hv]
    rfl

namespace SfsFs

variable {fs fs' : SfsFs} {files : UInt32 → Prop} {v : UInt32} {uio uio' : Uio}

/-- The bytes of a file. -/
def contents (fs : SfsFs) (v : UInt32) : Nat → UInt8 := (fs.inode v).byte

/-- The length of a file. -/
def size (fs : SfsFs) (v : UInt32) : Nat := (fs.inode v).sv.sv_i.sfi_size.toNat

/-- An open file that has nothing in it yet. -/
structure NewFile (fs : SfsFs) (v : UInt32) : Prop where
  loaded : fs.Loaded v
  file : (fs.inode v).sv.sv_i.sfi_type = SFS_TYPE_FILE
  empty : (fs.inode v).sv.sv_i.sfi_size = 0
  blocks : ∀ s, (fs.inode v).slot s = 0

theorem NewFile.contents (h : fs.NewFile v) : fs.contents v = fun _ => 0 :=
  Inode.byte_of_slots h.blocks

/-! ## One transfer -/

/-- What a successful `sfs_io` did to the files. -/
structure Transfer (fs : SfsFs) (v : UInt32) (uio uio' : Uio) (fs' : SfsFs) : Prop where
  holds : Holds 0 fs'
  loaded : ∀ f, fs.Loaded f → fs'.Loaded f
  others : ∀ f, fs.Loaded f → f ≠ v → fs'.contents f = fs.contents f ∧ fs'.size f = fs.size f
  read : uio.uio_rw = .UIO_READ → fs' = fs ∧
    uio.Moved (extract (fs.contents v) uio.uio_offset
      (min uio.uio_resid (fs.size v - uio.uio_offset))) uio'
  write : uio.uio_rw = .UIO_WRITE →
    uio.Moved (uio.uio_iov.flatten.take uio.uio_resid) uio' ∧
      fs'.contents v =
        overlay (fs.contents v) uio.uio_offset (uio.uio_iov.flatten.take uio.uio_resid) ∧
      fs'.size v = if uio.uio_resid = 0 then fs.size v
        else max (fs.size v) (uio.uio_offset + uio.uio_resid)

theorem Holds.transfer (h : Holds 0 fs) (hl : fs.Loaded v) (hv : v ≠ SFS_ROOTDIR_INO)
    (hfit : uio.Fits) (hoff : uio.uio_offset + uio.uio_resid ≤ 2 ^ 41)
    (hrun : onVnode v (Inode.sfsIo uio) fs = .ok (.ok uio', fs')) : Transfer fs v uio uio' fs' := by
  have hwp : (onVnode v (Inode.sfsIo uio)).Safe
    (fun uio' fs' => ∃ y bs, SfsIo.Done (fs.others v) ⟨fs.vol, (fs.inode v).sv, uio⟩ bs y ∧
        uio' = y.uio ∧ fs' = fs.put v y.inode) (fun _ _ => True) fs := by
    refine (wp_onVnode hl).2 (Inode.wp_sfsIo.2 ?_)
    refine (SfsIo.wp_sfsIo (x := ⟨fs.vol, (fs.inode v).sv, uio⟩) (h.own hl.live)
      hfit).imp₂ (fun _ y hy => ?_) fun _ _ _ => trivial
    obtain ⟨bs, hdone⟩ := hy
    exact ⟨y, bs, hdone, rfl, rfl⟩
  obtain ⟨y, bs, hdone, rfl, rfl⟩ := hwp.of_ok hrun
  have hframe : Inode.Local (fs.others v) (fs.inode v) y.inode := hdone.frame
  have hino : y.inode.sv.sv_ino = v := hframe.ino.trans sv_ino_inode
  have hself := inode_put_self hino hl
  constructor
  case holds => exact (h.anyFiles.putLocal hl hv hframe trivial).toHolds
  case loaded => exact fun f hf => (loaded_put hino).2 hf
  case others =>
    intro f hf hne
    have hview := sameView_put hframe.toFrame hf.live hne
    exact ⟨hview.byte, congrArg (fun d : Dinode => d.sfi_size.toNat) hview.dinode⟩
  case read =>
    intro hr
    obtain ⟨hsame, hbs⟩ := hdone.read hr
    have hsame : y.inode = fs.inode v := hsame
    refine ⟨?_, hbs ▸ hdone.moved⟩
    rw [hsame, put_inode h.toCoherent hl]
  case write =>
    intro hw
    have hbs : bs = uio.uio_iov.flatten.take uio.uio_resid := by
      rw [← hdone.length hw]
      exact hdone.moved.out hw
    subst hbs
    refine ⟨hdone.moved, ?_, ?_⟩
    · rw [contents, hself]
      exact hdone.write hw hoff
    · rw [size, hself]
      exact hdone.size hw hoff

/-! ## Runs -/

/-- A state of a run: the files, the writes, and the positions that one gets to from the beginning
    of a file by transfers. -/
structure FileRun where
  fs : SfsFs
  log : List Written
  reached : UInt32 → Nat → Prop

/-- A run begins without writes, at the beginning of the files. -/
def FileRun.start (fs : SfsFs) : FileRun := ⟨fs, [], fun _ p => p = 0⟩

/-- A successful `sfs_io`, at a position whose block number is not cut. -/
structure IoStep (files : UInt32 → Prop) (t : FileRun) (req : UInt32 × Uio) (t' : FileRun) :
    Prop where
  file : files req.1
  fits : req.2.Fits
  offset : req.2.uio_offset + req.2.uio_resid ≤ 2 ^ 41
  log : t'.log = if req.2.uio_rw = .UIO_WRITE then
    ⟨req.1, req.2.uio_offset, req.2.uio_iov.flatten.take req.2.uio_resid⟩ :: t.log else t.log
  run : ∃ uio', onVnode req.1 (Inode.sfsIo req.2) t.fs = .ok (.ok uio', t'.fs) ∧
    ∀ f p, t'.reached f p →
      t.reached f p ∨ (f = req.1 ∧ p = uio'.uio_offset ∧ t.reached f req.2.uio_offset)

/-- What holds after every step. -/
structure Refines (files : UInt32 → Prop) (t : FileRun) : Prop where
  holds : Holds 0 t.fs
  loaded : ∀ f, files f → t.fs.Loaded f ∧ f ≠ SFS_ROOTDIR_INO
  contents : ∀ f, files f → t.fs.contents f = lastByte t.log f
  reached : ∀ f p, files f → t.reached f p → p ≤ t.fs.size f

variable {t t' : FileRun} {req : UInt32 × Uio}

theorem Refines.transfer (h : Refines files t) (hv : files v) (hfit : uio.Fits)
    (hoff : uio.uio_offset + uio.uio_resid ≤ 2 ^ 41)
    (hrun : onVnode v (Inode.sfsIo uio) t.fs = .ok (.ok uio', fs')) :
    Transfer t.fs v uio uio' fs' :=
  h.holds.transfer (h.loaded v hv).1 (h.loaded v hv).2 hfit hoff hrun

theorem Transfer.size_le (h : Transfer fs v uio uio' fs') {f : UInt32} (hf : fs.Loaded f) :
    fs.size f ≤ fs'.size f := by
  by_cases hne : f = v
  · subst hne
    cases hrw : uio.uio_rw with
    | UIO_READ => rw [(h.read hrw).1]
    | UIO_WRITE =>
      rw [(h.write hrw).2.2]
      split
      · exact Nat.le_refl _
      · exact Nat.le_max_left ..
  · exact (h.others f hf hne).2.ge

/-- A transfer from a position in the file leads to a position in the file. -/
theorem Transfer.offset_le (h : Transfer fs v uio uio' fs') (hfit : uio.Fits)
    (hle : uio.uio_offset ≤ fs.size v) : uio'.uio_offset ≤ fs'.size v := by
  cases hrw : uio.uio_rw with
  | UIO_READ =>
    obtain ⟨rfl, hm⟩ := h.read hrw
    rw [hm.offset, length_extract]
    omega
  | UIO_WRITE =>
    obtain ⟨hm, -, hsize⟩ := h.write hrw
    rw [hm.offset, hsize, List.length_take, Nat.min_eq_left hfit.1]
    split
    · omega
    · exact Nat.le_max_right ..

theorem Refines.step (h : Refines files t) (hs : IoStep files t req t') : Refines files t' := by
  obtain ⟨v, uio⟩ := req
  obtain ⟨uio', hrun, hreached⟩ := hs.run
  have htr := h.transfer hs.file hs.fits hs.offset hrun
  constructor
  case holds => exact htr.holds
  case loaded => exact fun f hf => ⟨htr.loaded f (h.loaded f hf).1, (h.loaded f hf).2⟩
  case contents =>
    intro f hf
    rw [hs.log]
    cases hrw : uio.uio_rw with
    | UIO_READ =>
      rw [if_neg nofun, (htr.read hrw).1]
      exact h.contents f hf
    | UIO_WRITE =>
      rw [if_pos rfl, lastByte_cons]
      by_cases hfv : f = v
      · subst hfv
        rw [if_pos rfl, ← h.contents f hf]
        exact (htr.write hrw).2.1
      · rw [if_neg hfv, (htr.others f (h.loaded f hf).1 hfv).1]
        exact h.contents f hf
  case reached =>
    intro f p hf hp
    rcases hreached f p hp with hold | ⟨rfl, rfl, hfrom⟩
    · exact (h.reached f p hf hold).trans (htr.size_le (h.loaded f hf).1)
    · exact htr.offset_le hs.fits (h.reached f _ hf hfrom)

theorem refines_start (h : Holds 0 fs) (hnew : ∀ f, files f → fs.NewFile f) :
    Refines files (.start fs) where
  holds := h
  loaded := fun f hf => by
    refine ⟨(hnew f hf).loaded, ?_⟩
    rintro rfl
    exact absurd ((hnew _ hf).file.symm.trans h.root.type) (by decide)
  contents := fun f hf => (hnew f hf).contents
  reached := fun f p _ hp => hp.trans_le (Nat.zero_le _)

/-- Reads and writes of files that were new: a read gives the bytes written last up to the end of
    the file, a write changes its own stretch of its own file, and the length and the
    `uio` follow. -/
theorem io_refines (h : fs.Consistent) (hsmall : fs.vol.sb_nblocks.toNat * SFS_BLOCKSIZE ≤ 2 ^ 32)
    (hnew : ∀ f, files f → fs.NewFile f) (hr : Reaches (IoStep files) (.start fs) t)
    (hv : files v) (hfit : uio.Fits) (hoff : uio.uio_offset + uio.uio_resid ≤ 2 ^ 41)
    (hrun : onVnode v (Inode.sfsIo uio) t.fs = .ok (.ok uio', fs')) :
    (uio.uio_rw = .UIO_READ → fs' = t.fs ∧
      uio.Moved (extract (lastByte t.log v) uio.uio_offset
        (min uio.uio_resid (t.fs.size v - uio.uio_offset))) uio') ∧
    (uio.uio_rw = .UIO_WRITE →
      uio.Moved (uio.uio_iov.flatten.take uio.uio_resid) uio' ∧
        (∀ f, files f → fs'.contents f = if f = v then
          overlay (t.fs.contents v) uio.uio_offset (uio.uio_iov.flatten.take uio.uio_resid)
          else t.fs.contents f) ∧
        (∀ f, files f → f ≠ v → fs'.size f = t.fs.size f) ∧
        (0 < uio.uio_resid ∨ t.reached v uio.uio_offset →
          fs'.size v = max (t.fs.size v) (uio.uio_offset + uio.uio_resid))) := by
  have hinv : Refines files t :=
    hr.invariant (fun _ _ _ => Refines.step)
      (refines_start ⟨h.toCoherent, h.regular, hsmall⟩ hnew)
  have htr := hinv.transfer hv hfit hoff hrun
  refine ⟨fun hread => ?_, fun hw => ?_⟩
  · rw [← hinv.contents v hv]
    exact htr.read hread
  · obtain ⟨hm, hbytes, hsize⟩ := htr.write hw
    refine ⟨hm, fun f hf => ?_, fun f hf hne => (htr.others f (hinv.loaded f hf).1 hne).2,
      fun hpos => ?_⟩
    · split
      · next hfv =>
        rw [hfv]
        exact hbytes
      · next hfv => exact (htr.others f (hinv.loaded f hf).1 hfv).1
    · rw [hsize]
      split
      · next hzero =>
        have hle := hinv.reached v _ hv (hpos.resolve_left (by omega))
        omega
      · rfl

theorem newFile_orphan {nblocks : UInt32} :
    (withOrphan nblocks 0).NewFile (orphan nblocks 0).sv_ino := by
  refine ⟨loaded_withOrphan.2 rfl, ?_, ?_, fun s => ?_⟩
  · rw [inode_orphan]
    rfl
  · rw [inode_orphan]
    rfl
  · rw [slot_orphan, ite_self]

/-- A request to read the first bytes of a file. -/
def firstFour : Uio where
  uio_iov := [[0, 0, 0, 0]]
  uio_offset := 0
  uio_resid := 4
  uio_rw := .UIO_READ
  copies := []
  moved := []

/-- A new file on a volume of 8K is written, and its first bytes are read back. -/
theorem first_write_refines :
    ∃ t uio' fs', Reaches (IoStep (· = (orphan 16 0).sv_ino)) (.start (withOrphan 16 0)) t ∧
      onVnode (orphan 16 0).sv_ino (Inode.sfsIo firstFour) t.fs = .ok (.ok uio', fs') ∧
      fs' = t.fs ∧ firstFour.Moved [255, 255, 255, 255] uio' := by
  have hcheck : (onVnode (orphan 16 0).sv_ino (Inode.sfsIo ones)).passes
      (fun r fs => r.isOk && (fs.size (orphan 16 0).sv_ino == 512 &&
        (onVnode (orphan 16 0).sv_ino (Inode.sfsIo firstFour)).passes (fun r _ => r.isOk) fs))
      (withOrphan 16 0) = true := by
    decide +kernel
  obtain ⟨e | uio, fs, hrun, htest⟩ := exists_of_passes hcheck
  · cases htest
  obtain ⟨-, htest⟩ := Bool.and_eq_true_iff.1 htest
  obtain ⟨hsize, hread⟩ := Bool.and_eq_true_iff.1 htest
  obtain ⟨e | uio', fs', hrun', htest'⟩ := exists_of_passes hread
  · cases htest'
  have hstep : IoStep (· = (orphan 16 0).sv_ino) (.start (withOrphan 16 0))
      ((orphan 16 0).sv_ino, ones) ⟨fs, [⟨_, 0, _⟩], fun _ p => p = 0⟩ :=
    ⟨rfl, fits_ones, by decide, rfl, uio, hrun, fun _ _ h => .inl h⟩
  have hnew : ∀ f, f = (orphan 16 0).sv_ino → (withOrphan 16 0).NewFile f :=
    fun f hf => hf ▸ newFile_orphan
  obtain ⟨hsame, hmoved⟩ := (io_refines consistent_small (by decide) hnew (.single hstep) rfl
    ⟨by decide, by decide⟩ (by decide) hrun').1 rfl
  rw [show fs.size _ = 512 from beq_iff_eq.1 hsize] at hmoved
  exact ⟨_, uio', fs', .single hstep, hrun', hsame, hmoved⟩

end SfsFs

end DemandPaging
