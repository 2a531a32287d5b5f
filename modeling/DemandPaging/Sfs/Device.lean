import DemandPaging.Sfs

set_option autoImplicit false

/-! # The device and the free blocks

What a request to the device does, with its retries, and what `sfs_readblock`, `sfs_writeblock` and
the functions on the freemap come to. A device without faults is the array of its sectors. -/

namespace DemandPaging

open Caller (UioRw)
open Fallible

namespace Volume

/-- The volume with one sector overwritten. -/
def write (vol : Volume) (sector : Nat) (b : Block) : Volume :=
  { vol with sectors := Function.update vol.sectors sector b }

@[simp] theorem sectors_write_self (vol : Volume) (sector : Nat) (b : Block) :
    (vol.write sector b).sectors sector = b :=
  Function.update_self ..

theorem sectors_write_of_ne {sector sector' : Nat} (h : sector' ≠ sector) (vol : Volume)
    (b : Block) :
    (vol.write sector b).sectors sector' = vol.sectors sector' :=
  Function.update_of_ne h ..

end Volume

/-! ## One request -/

namespace Request

variable {r : Request}

/-- The sector of a request. -/
def sector (r : Request) : Nat := r.uio.uio_offset / SFS_BLOCKSIZE

/-- A request for one whole sector, to a device that does not refuse. -/
structure ForSector (r : Request) : Prop where
  quiet : r.vol.faults = []
  fits : r.uio.Fits
  aligned : r.uio.uio_offset % SFS_BLOCKSIZE = 0
  resid : r.uio.uio_resid = SFS_BLOCKSIZE

/-- The sector was transferred. -/
def Transferred (r r' : Request) : Prop :=
  ∃ bs, r.uio.MovedAll (r.vol.sectors r.sector).toList bs r'.uio ∧
    r'.vol = if r.uio.uio_rw = .UIO_WRITE then r.vol.write r.sector (Block.ofList bs) else r.vol

/-- A copy failed: the volume has not changed. -/
def Refused (r r' : Request) : Prop :=
  false ∈ r.uio.copies ∧ r'.vol = r.vol ∧ ∃ bs, r.uio.Moved bs r'.uio ∧ bs.length ≤ SFS_BLOCKSIZE

theorem answer_quiet (h : r.vol.faults = []) : answer r = .ok (.ok (), r) := by
  obtain ⟨⟨_, _, _, _, _, _, faults⟩, u⟩ := r
  obtain rfl : faults = [] := h
  rfl

theorem wp_lhdSector (h : r.ForSector) :
    lhdSector.Safe (fun _ => Transferred r) (fun e r' => e = .EFAULT ∧ Refused r r') r := by
  have hlen : (r.vol.sectors r.sector).toList.length ≤ r.uio.uio_resid := by
    rw [Block.length_toList, h.resid]
  have hmove : (moveBuf (r.vol.sectors r.sector)).Safe
      (fun bs r' => r'.vol = r.vol ∧ r.uio.MovedAll (r.vol.sectors r.sector).toList bs r'.uio)
      (fun e r' => e = .EFAULT ∧ Refused r r') r := by
    refine wp_zoom.2 ((Uio.wp_uiomove _ h.fits hlen).imp₂ (fun bs u hm => ⟨rfl, hm⟩) ?_)
    rintro e u ⟨he, hc, bs, hbs, hle⟩
    rw [Block.length_toList] at hle
    exact ⟨he, hc, rfl, bs, hbs, hle⟩
  simp only [lhdSector, wp_bind, wp_read]
  cases hrw : r.uio.uio_rw with
  | UIO_WRITE =>
    simp only [wp_bind]
    refine hmove.imp fun bs r' hm => ?_
    obtain ⟨hvol, hm⟩ := hm
    refine (wp_of_ok (answer_quiet (hvol ▸ h.quiet))).2 ⟨bs, hm, ?_⟩
    rw [if_pos hrw, ← hvol]
    rfl
  | UIO_READ =>
    simp only [wp_bind]
    refine (wp_of_ok (answer_quiet h.quiet)).2 (hmove.imp fun bs r' hm => ?_)
    exact ⟨bs, hm.2, hm.1.trans (if_neg (by rw [hrw]; decide)).symm⟩

/-- `sfs_rwblock` transfers the sector, or leaves the volume as it is. -/
theorem wp_sfsRwblock (h : r.ForSector) :
    sfsRwblock.Wp (fun _ => Transferred r) (fun e r' => e = .EFAULT ∧ Refused r r')
      (fun _ => r.vol.d_blocks ≤ r.sector) r := by
  have hone : r.uio.uio_resid / SFS_BLOCKSIZE = 1 := by
    rw [h.resid]
    rfl
  change (rwblockRound (rwblockTries 9)).Wp _ _ _ r
  simp only [rwblockRound, devopIo, wp_bind, wp_read, wp_attempt, wp_ite, wp_fail, hone]
  refine ⟨fun hwrong => ⟨fun _ => ?_, fun hne => absurd trivial hne⟩, fun _ => ?_⟩
  · rcases hwrong with ha | hr | hb
    · exact absurd h.aligned ha
    · exact absurd (h.resid ▸ Nat.mod_self _) hr
    · exact Nat.lt_succ_iff.1 hb
  · simp only [lhdSectors, wp_bind]
    refine (wp_lhdSector h).mono (fun _ r' ht => ht) (fun e r' he => ?_) fun _ hc => hc.elim
    obtain ⟨rfl, href⟩ := he
    exact ⟨fun he => (by cases he), fun _ => ⟨fun he => (by cases he), fun _ => ⟨rfl, href⟩⟩⟩

end Request

/-! ## Blocks in kernel buffers -/

namespace Volume

variable {vol vol' : Volume} {block : UInt32} {data : Block} {rw : UioRw}

/-- The request of a kernel buffer. -/
def kernelRequest (vol : Volume) (block : UInt32) (data : Block) (rw : UioRw) : Request :=
  ⟨vol, sfsUio data block rw⟩

theorem forSector_kernelRequest (hq : vol.faults = []) :
    (kernelRequest vol block data rw).ForSector where
  quiet := hq
  fits := by
    change SFS_BLOCKSIZE ≤ [data.toList].flatten.length ∧ SFS_BLOCKSIZE < 2 ^ 32
    rw [List.flatten_cons, List.flatten_nil, List.append_nil, Block.length_toList]
    decide
  aligned := Nat.mul_mod_left ..
  resid := rfl

@[simp] theorem sector_kernelRequest : (kernelRequest vol block data rw).sector = block.toNat :=
  Nat.mul_div_left _ (by decide)

/-- The bytes of the request as they end up: those of the sector, or those of the buffer. -/
theorem kernelRequest_moved {bs : List UInt8} {u : Uio}
    (h : (sfsUio data block rw).MovedAll (vol.sectors block.toNat).toList bs u) :
    bs = if rw = .UIO_WRITE then data.toList else (vol.sectors block.toNat).toList := by
  obtain ⟨hm, hlen, hread⟩ := h
  rw [Block.length_toList] at hlen
  cases rw with
  | UIO_READ => exact hread rfl
  | UIO_WRITE =>
    have hout := hm.out rfl
    rw [hlen] at hout
    rw [if_pos rfl, hout]
    change ([data.toList].flatten).take SFS_BLOCKSIZE = _
    rw [List.flatten_cons, List.flatten_nil, List.append_nil]
    exact List.take_of_length_le (by rw [Block.length_toList])

theorem wp_request {u : Uio} {Q : Uio → Volume → Prop} {E : Errno → Volume → Prop}
    {C : Crash → Prop} :
    (request u).Wp Q E C vol ↔
      Request.sfsRwblock.Wp (fun _ r => Q r.uio r.vol) (fun e r => E e r.vol) C ⟨vol, u⟩ := by
  unfold Wp request
  rcases Request.sfsRwblock ⟨vol, u⟩ with c | ⟨e | a, r⟩ <;> rfl

/-- The request of a kernel buffer, whose copies cannot fail. -/
theorem wp_request_sfsUio (hq : vol.faults = []) :
    (request (sfsUio data block rw)).Wp
      (fun u vol' =>
        u.moved = (if rw = .UIO_WRITE then data.toList else (vol.sectors block.toNat).toList) ∧
        vol' = if rw = .UIO_WRITE then vol.write block.toNat data else vol)
      (fun _ _ => False) (fun _ => vol.d_blocks ≤ block.toNat) vol := by
  have hsec : (⟨vol, sfsUio data block rw⟩ : Request).sector = block.toNat := sector_kernelRequest
  refine wp_request.2 ((Request.wp_sfsRwblock (forSector_kernelRequest hq)).mono
    (fun _ r' h => ?_) (fun _ r' h => ?_) fun _ h => ?_)
  · obtain ⟨bs, hm, hvol⟩ := h
    simp only [kernelRequest, hsec] at hm hvol
    have hbs := kernelRequest_moved hm
    refine ⟨by rw [hm.1.moved, hbs]; rfl, ?_⟩
    rw [hvol, hbs]
    cases rw with
    | UIO_READ => rfl
    | UIO_WRITE =>
      rw [if_pos rfl, if_pos rfl, Block.ofList_toList]
      exact if_pos rfl
  · cases h.2.1
  · rwa [kernelRequest, hsec] at h

/-- `sfs_readblock` reads the sector. -/
theorem wp_sfsReadblock (hq : vol.faults = []) :
    (sfsReadblock block).Wp (fun b vol' => b = vol.sectors block.toNat ∧ vol' = vol)
      (fun _ _ => False) (fun _ => vol.d_blocks ≤ block.toNat) vol := by
  refine wp_bind.2 ((wp_request_sfsUio hq).imp fun u vol' h => ?_)
  obtain ⟨hmoved, rfl⟩ := h
  refine ⟨?_, rfl⟩
  rw [hmoved]
  exact Block.ofList_toList _

/-- `sfs_writeblock` writes the sector. -/
theorem wp_sfsWriteblock (hq : vol.faults = []) :
    (sfsWriteblock block data).Wp (fun _ vol' => vol' = vol.write block.toNat data)
      (fun _ _ => False) (fun _ => vol.d_blocks ≤ block.toNat) vol :=
  wp_bind.2 ((wp_request_sfsUio hq).imp fun _ _ h => h.2)

/-- A device that has no faults and all blocks of the volume. -/
structure Quiet (vol : Volume) : Prop where
  faults : vol.faults = []
  blocks : vol.sb_nblocks.toNat ≤ vol.d_blocks

theorem Quiet.lt (h : vol.Quiet) (hb : block < vol.sb_nblocks) :
    ¬ vol.d_blocks ≤ block.toNat :=
  Nat.not_le.2 (Nat.lt_of_lt_of_le (UInt32.lt_iff_toNat_lt.1 hb) h.blocks)

theorem Quiet.sfsReadblock (h : vol.Quiet) (hb : block < vol.sb_nblocks) :
    sfsReadblock block vol = .ok (.ok (vol.sectors block.toNat), vol) :=
  Wp.eq_ok ((wp_sfsReadblock h.faults).mono (fun _ _ hr => hr) (fun _ _ hf => hf) fun _ => h.lt hb)

theorem Quiet.sfsWriteblock (h : vol.Quiet) (hb : block < vol.sb_nblocks) :
    sfsWriteblock block data vol = .ok (.ok (), vol.write block.toNat data) :=
  Wp.eq_ok ((wp_sfsWriteblock h.faults).mono (fun _ _ hw => ⟨rfl, hw⟩) (fun _ _ hf => hf)
    fun _ => h.lt hb)

/-! ## The freemap -/

/-- The block is marked in the freemap. -/
def Marked (vol : Volume) (b : Nat) : Prop := vol.sfs_freemap.v b = true

/-- The volume with one mark changed. -/
def setMark (vol : Volume) (b : Nat) (m : Bool) : Volume :=
  { vol with
    sfs_freemap.v := Function.update vol.sfs_freemap.v b m
    sfs_freemapdirty := true }

/-- `sfs_bfree`: the block was marked, and is no longer. -/
theorem wp_sfsBfree {Q : Unit → Volume → Prop} {E : Errno → Volume → Prop} {C : Crash → Prop} :
    (sfsBfree block).Wp Q E C vol ↔
      (block.toNat < vol.sfs_freemap.nbits → (vol.Marked block.toNat →
        Q () (vol.setMark block.toNat false)) ∧ (¬ vol.Marked block.toNat → C .kassert)) ∧
      (¬ block.toNat < vol.sfs_freemap.nbits → C .kassert) := by
  simp only [sfsBfree, bitmapUnmark, wp_bind, wp_read, wp_check, wp_modify]
  rfl

end Volume

end DemandPaging
