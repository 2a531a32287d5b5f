import DemandPaging.Emu.Access

set_option autoImplicit false

/-! # The copies of one call

A call of `read` or `write` copies block after block, and each copy goes over the pages of its
block. What becomes of a copy depends on the memory in which it begins (`touch_spec`): it gets
through, or it ends at a page outside the segments, or the thread dies at a read-only page, or it
comes to the lock that it owns, or the swap file is full. `copies` lists the copies that a call
comes to, each with the memory it finds, and they decide about the call (`emufsLoop_spec`). -/

namespace DemandPaging

namespace Caller

/-! ## A series of accesses -/

variable (cl : Caller)

/-- A series of accesses. A block that `copycheck` refuses is an access to no page. -/
def touch (write : Bool) : List (Option VAddr) → IoState → Except Halt (IoState × Bool)
  | [], s => .ok (s, true)
  | none :: _, s => .ok (s, false)
  | some v :: l, s => do
      let (s, through) ← cl.access write v 3 s
      if through then touch write l s else return (s, false)

/-- The accesses of one copy. -/
def copyPages (addr : VAddr) (len : UInt32) : List (Option VAddr) :=
  if copycheck addr len then (pagesOf addr len).map some else [none]

/-- How a series of accesses ends if no page has to be read or written. -/
inductive Fate
  | through
  | refused
  | dies
deriving DecidableEq, Repr

/-- The fate of a series of accesses, from the segments. -/
def fate (as : AddrSpace) (write : Bool) : List (Option VAddr) → Fate
  | [] => .through
  | none :: _ => .refused
  | some v :: l =>
    if as.locate v = none then .refused
    else if write = true ∧ ReadOnly as v then .dies
    else fate as write l

/-- The pages that a series of accesses comes to. -/
def reached (as : AddrSpace) (write : Bool) : List (Option VAddr) → List VAddr
  | [] => []
  | none :: _ => []
  | some v :: l =>
    if as.locate v = none then []
    else if write = true ∧ ReadOnly as v then [v]
    else v :: reached as write l

/-- The pages that are not in memory, in the order in which they are needed. -/
def missing (s : IoState) (vs : List VAddr) : List VAddr :=
  (vs.filter fun v => cl.Missing s v).eraseDups

/-- No page for which there is a free frame has to be read. -/
def NoRead (s : IoState) (vs : List VAddr) : Prop :=
  ∀ v ∈ (cl.missing s vs).take s.vm.cm.freeFrames, ¬ cl.NeedsDisk s v

/-- There are free frames for all pages. -/
def Fits (s : IoState) (vs : List VAddr) : Prop :=
  (cl.missing s vs).length ≤ s.vm.cm.freeFrames

instance (s : IoState) (vs : List VAddr) : Decidable (cl.NoRead s vs) := List.decidableBAll _ _

instance (s : IoState) (vs : List VAddr) : Decidable (cl.Fits s vs) :=
  inferInstanceAs (Decidable (_ ≤ _))

variable {cl} {write : Bool} {s s' : IoState} {v : VAddr} {vs : List VAddr}
  {l l' : List (Option VAddr)}

theorem memcpy_eq : cl.memcpy write vs s = cl.touch write (vs.map some) s := by
  induction vs generalizing s with
  | nil => rfl
  | cons v vs ih =>
    simp only [memcpy, List.map_cons, touch]
    cases hacc : cl.access write v 3 s with
    | error h => rfl
    | ok r =>
      obtain ⟨s', through⟩ := r
      cases through with
      | false => rfl
      | true => exact ih

theorem copyUser_eq {addr : VAddr} {len : UInt32} : cl.copyUser write addr len s =
    (cl.touch write (copyPages addr len) s).map fun r =>
      (r.1, if r.2 then none else some .EFAULT) := by
  unfold copyUser copyPages
  split_ifs with hcheck
  · rw [memcpy_eq]
    cases cl.touch write ((pagesOf addr len).map some) s <;> rfl
  · rfl

/-- Only the segments count for where a series ends. -/
theorem fate_congr {as as' : AddrSpace} (h : SameLayout as as') :
    fate as' write l = fate as write l := by
  induction l with
  | nil => rfl
  | cons a l ih =>
    cases a with
    | none => rfl
    | some v => simp only [fate, h.1, readOnly_congr h, ih]

theorem reached_congr {as as' : AddrSpace} (h : SameLayout as as') :
    reached as' write l = reached as write l := by
  induction l with
  | nil => rfl
  | cons a l ih =>
    cases a with
    | none => rfl
    | some v => simp only [reached, h.1, readOnly_congr h, ih]

theorem mem_of_reached {as : AddrSpace} (h : v ∈ reached as write l) : some v ∈ l := by
  induction l with
  | nil => cases h
  | cons a l ih =>
    cases a with
    | none => cases h
    | some w =>
      unfold reached at h
      split_ifs at h
      · cases h
      · rw [List.mem_singleton.1 h]
        exact List.mem_cons_self
      · rcases List.mem_cons.1 h with rfl | htail
        · exact List.mem_cons_self
        · exact List.mem_cons_of_mem _ (ih htail)

/-! ## Missing pages -/

theorem missing_cons (vs : List VAddr) (hmiss : cl.Missing s v) :
    ∃ rest, cl.missing s (v :: vs) = v :: rest := by
  simp [missing, hmiss, List.eraseDups_cons]

/-- One page less is missing when it has been entered. -/
theorem Entered.missing_cons (h : cl.Entered s s' v) : cl.missing s (v :: vs) =
    if cl.Missing s v then v :: cl.missing s' vs else cl.missing s' vs := by
  have hrest : ∀ u, decide (cl.Missing s' u) = (decide (cl.Missing s u) && !u == v) := by
    intro u
    by_cases hu : cl.Missing s u <;> by_cases huv : u = v <;> simp [h.missing, hu, huv]
  split_ifs with hmiss
  · simp only [Caller.missing, hmiss, decide_true, List.filter_cons_of_pos, List.eraseDups_cons,
      List.filter_filter, hrest, Bool.and_comm]
  · have hsame : ∀ u, cl.Missing s' u ↔ cl.Missing s u := by
      intro u
      rw [h.missing u, and_iff_left_iff_imp]
      rintro hu rfl
      exact hmiss hu
    simp only [Caller.missing, hmiss, decide_false, Bool.false_eq_true, not_false_eq_true,
      List.filter_cons_of_neg, hsame]

theorem mem_missing {u : VAddr} (h : u ∈ cl.missing s vs) : u ∈ vs ∧ cl.Missing s u := by
  simpa [missing] using h

theorem Entered.fits (h : cl.Entered s s' v) : cl.Fits s (v :: vs) ↔ cl.Fits s' vs := by
  have hfree := h.free
  unfold Fits
  rw [h.missing_cons]
  split_ifs at hfree ⊢ with hmiss
  · rw [List.length_cons]
    omega
  · omega

theorem Entered.noRead (h : cl.Entered s s' v) (hready : cl.Ready s v)
    (hpages : ∀ u ∈ vs, pageOf u = u) : cl.NoRead s (v :: vs) ↔ cl.NoRead s' vs := by
  have hdisk : ∀ u ∈ cl.missing s' vs, cl.NeedsDisk s' u ↔ cl.NeedsDisk s u := by
    intro u hu
    obtain ⟨huv, hgone⟩ := mem_missing hu
    exact h.disk u (hpages u huv) ((h.missing u).1 hgone).2
  have hrest : (∀ u ∈ (cl.missing s' vs).take s'.vm.cm.freeFrames, ¬ cl.NeedsDisk s u) ↔
      cl.NoRead s' vs :=
    forall₂_congr fun u hu => not_congr (hdisk u (List.mem_of_mem_take hu)).symm
  have hfree := h.free
  unfold NoRead
  rw [h.missing_cons]
  split_ifs at hfree ⊢ with hmiss
  · rw [← hfree, List.take_succ_cons, List.forall_mem_cons, hrest]
    exact and_iff_right (hready hmiss).1
  · rw [← hfree, Nat.add_zero]
    exact hrest

/-- The first page decides if it is not to be had. -/
theorem Blocks.not_spared (h : cl.Blocks s v) :
    ¬ (cl.NoRead s (v :: vs) ∧ (cl.Fits s (v :: vs) ∨ s.vm.swap.Full)) := by
  obtain ⟨hmiss, hread, hroom⟩ := h
  obtain ⟨rest, heq⟩ := missing_cons vs hmiss
  rintro ⟨hno, hfits⟩
  unfold NoRead at hno
  unfold Fits at hfits
  rw [heq] at hno hfits
  rcases Nat.eq_zero_or_pos s.vm.cm.freeFrames with hzero | hpos
  · rcases hfits with hle | hfull
    · rw [hzero] at hle
      cases hle
    · exact hroom hzero hfull
  · refine hno v ?_ (hread hpos)
    rw [← Nat.sub_add_cancel hpos, List.take_succ_cons]
    exact List.mem_cons_self

theorem Panics.noRead (h : cl.Panics s v) : cl.NoRead s (v :: vs) := by
  intro u hu
  rw [h.2.1, List.take_zero] at hu
  cases hu

theorem Panics.not_fits (h : cl.Panics s v) : ¬ cl.Fits s (v :: vs) := by
  obtain ⟨rest, heq⟩ := missing_cons vs h.1
  unfold Fits
  rw [heq, h.2.1]
  exact Nat.not_succ_le_zero _

theorem Ready.single (h : cl.Ready s v) : cl.NoRead s [v] ∧ cl.Fits s [v] := by
  unfold NoRead Fits
  by_cases hmiss : cl.Missing s v
  · obtain ⟨hread, hpos⟩ := h hmiss
    have heq : cl.missing s [v] = [v] := by simp [missing, hmiss, List.eraseDups_cons]
    rw [heq]
    refine ⟨fun u hu => ?_, hpos⟩
    rw [List.mem_singleton.1 (List.mem_of_mem_take hu)]
    exact hread
  · have heq : cl.missing s [v] = [] := by simp [missing, hmiss]
    simp [heq]

/-! ## What becomes of a series -/

/-- What becomes of a series of accesses while `e_lock` is taken, from the state before it. -/
inductive Touched (cl : Caller) (write : Bool) (l : List (Option VAddr)) (s : IoState) : Prop
  | back (s' : IoState) (through : Bool)
      (hwarm : cl.NoRead s (reached s.as write l) ∧ cl.Fits s (reached s.as write l))
      (hfate : fate s.as write l = if through then .through else .refused)
      (heq : cl.touch write l s = .ok (s', through)) (hlock : s'.e_lock = s.e_lock)
      (hok : cl.MemOk s') (hlayout : SameLayout s.as s'.as)
  | dies (s' : IoState)
      (hwarm : cl.NoRead s (reached s.as write l) ∧ cl.Fits s (reached s.as write l))
      (hfate : fate s.as write l = .dies) (heq : cl.touch write l s = .error (.exited s'))
      (hlock : s'.e_lock = s.e_lock)
  | blocked (s' : IoState)
      (hcold : ¬ (cl.NoRead s (reached s.as write l) ∧
        (cl.Fits s (reached s.as write l) ∨ s.vm.swap.Full)))
      (heq : cl.touch write l s = .error (.blocked s')) (hlock : s'.e_lock = s.e_lock)
  | crashed (e : Crash) (hread : cl.NoRead s (reached s.as write l))
      (hfits : ¬ cl.Fits s (reached s.as write l)) (hfull : s.vm.swap.Full)
      (heq : cl.touch write l s = .error (.crashed e))

/-- The page in front has got through. -/
theorem Touched.cons (hacc : cl.access write v 3 s = .ok (s', true)) (hent : cl.Entered s s' v)
    (hready : cl.Ready s v) (hin : s.as.locate v ≠ none)
    (hmay : ¬ (write = true ∧ ReadOnly s.as v)) (hpages : ∀ u, some u ∈ l → pageOf u = u)
    (h : Touched cl write l s') : Touched cl write (some v :: l) s := by
  have hreach : reached s.as write (some v :: l) = v :: reached s'.as write l := by
    rw [reached_congr hent.layout]
    simp only [reached, if_neg hin, if_neg hmay]
  have hend : fate s.as write (some v :: l) = fate s'.as write l := by
    rw [fate_congr hent.layout]
    simp only [fate, if_neg hin, if_neg hmay]
  have htouch : cl.touch write (some v :: l) s = cl.touch write l s' := by
    simp only [touch, hacc, bind, Except.bind, if_true]
  have hread : cl.NoRead s (reached s.as write (some v :: l)) ↔
      cl.NoRead s' (reached s'.as write l) := by
    rw [hreach]
    exact hent.noRead hready fun u hu => hpages u (mem_of_reached hu)
  have hfits : cl.Fits s (reached s.as write (some v :: l)) ↔
      cl.Fits s' (reached s'.as write l) := by
    rw [hreach]
    exact hent.fits
  cases h with
  | back s'' through hwarm hfate heq hlock hok hlayout =>
    exact .back s'' through (by rwa [hread, hfits]) (hend.trans hfate) (htouch.trans heq)
      (hlock.trans hent.lock) hok (hent.layout.trans hlayout)
  | dies s'' hwarm hfate heq hlock =>
    exact .dies s'' (by rwa [hread, hfits]) (hend.trans hfate) (htouch.trans heq)
      (hlock.trans hent.lock)
  | blocked s'' hcold heq hlock =>
    exact .blocked s'' (by rwa [hread, hfits, ← hent.swap]) (htouch.trans heq)
      (hlock.trans hent.lock)
  | crashed e hno hover hfull heq =>
    exact .crashed e (hread.2 hno) (mt hfits.1 hover) (hent.swap ▸ hfull) (htouch.trans heq)

/-- When a series is over the thread still owns the lock. -/
theorem Touched.owned {through : Bool} (h : Touched cl write l s)
    (hback : cl.touch write l s = .ok (s', through)) : s'.e_lock = s.e_lock := by
  cases h with
  | back s'' through' _ _ heq hlock _ _ =>
    rw [heq] at hback
    cases hback
    exact hlock
  | dies s'' _ _ heq _ | blocked s'' _ heq _ | crashed e _ _ _ heq =>
    rw [heq] at hback
    cases hback

theorem touch_spec (h : cl.MemOk s) (hlock : s.e_lock ≠ none)
    (hpages : ∀ u, some u ∈ l → pageOf u = u) : Touched cl write l s := by
  induction l generalizing s with
  | nil => exact .back s true (by simp [reached, NoRead, Fits, missing]) rfl rfl rfl h (.refl _)
  | cons a l ih =>
    cases a with
    | none =>
      exact .back s false (by simp [reached, NoRead, Fits, missing]) rfl rfl rfl h (.refl _)
    | some v =>
      -- the page in front is part of what is reached unless it is in no segment
      have hreach : s.as.locate v ≠ none →
          ∃ vs, reached s.as write (some v :: l) = v :: vs := by
        intro hin
        simp only [reached, if_neg hin]
        split
        · exact ⟨[], rfl⟩
        · exact ⟨_, rfl⟩
      cases access_spec write h hlock (hpages v List.mem_cons_self) with
      | refused hout heq =>
        have hnone : reached s.as write (some v :: l) = [] := by simp [reached, hout]
        refine .back s false ?_ (by simp [fate, hout])
          (by simp [touch, heq, bind, Except.bind, pure, Except.pure]) rfl h (.refl _)
        simp [hnone, NoRead, Fits, missing]
      | through s' hin hready hmay heq hent =>
        have hrest : ∀ u, some u ∈ l → pageOf u = u :=
          fun u hu => hpages u (List.mem_cons_of_mem _ hu)
        exact .cons heq hent hready hin hmay hrest (ih hent.ok (hent.lock ▸ hlock) hrest)
      | dies s' hin hready hro heq hkept =>
        have hone : reached s.as write (some v :: l) = [v] := by
          simp only [reached, if_neg hin, if_pos hro]
        refine .dies s' (hone ▸ hready.single) ?_ ?_ hkept
        · simp only [fate, if_neg hin, if_pos hro]
        · simp only [touch, heq, bind, Except.bind]
      | blocked s' hin hwhy heq hkept =>
        obtain ⟨vs, hvs⟩ := hreach hin
        refine .blocked s' (hvs ▸ hwhy.not_spared) ?_ hkept
        simp only [touch, heq, bind, Except.bind]
      | crashed e hin hwhy heq =>
        obtain ⟨vs, hvs⟩ := hreach hin
        refine .crashed e (hvs ▸ hwhy.noRead) (hvs ▸ hwhy.not_fits) hwhy.2.2 ?_
        simp only [touch, heq, bind, Except.bind]

/-! ## The whole call -/

/-- Reading a file stores to the buffer. -/
def UioRw.stores : UioRw → Bool
  | .UIO_READ => true
  | .UIO_WRITE => false

/-- The number of bytes that the next operation of the driver moves, if it gets that far. -/
def amount (rw : UioRw) (reply : Reply) (u : Uio) : UInt32 :=
  min u.uio_resid (match rw with
    | .UIO_READ => reply.iolen
    | .UIO_WRITE => if u.uio_resid > EMU_MAXIO then EMU_MAXIO else u.uio_resid)

/-- The accesses of the next operation, and what is left behind it if the call goes on. -/
def round (rw : UioRw) (reply : Reply) (u : Uio) : List (Option VAddr) × Option Uio :=
  if u.uio_offset > 0xffffffff then ([], none)
  else
    let size := amount rw reply u
    match rw with
    | .UIO_READ =>
      if reply.waitdone ≠ none ∨ size = 0 then ([], none)
      else (copyPages u.iov_ubase size,
        some { u.advance size with uio_offset := reply.offset.toNat })
    | .UIO_WRITE =>
      (copyPages u.iov_ubase size, if reply.waitdone = none then some (u.advance size) else none)

/-- The accesses of a whole call, if all of them get through. -/
def plan (rw : UioRw) (replies : Nat → Reply) : Nat → Nat → Uio → List (Option VAddr)
  | 0, _, _ => []
  | fuel + 1, i, u =>
    if u.uio_resid = 0 then []
    else
      let r := round rw (replies i) u
      r.1 ++ match r.2 with
        | none => []
        | some u' => plan rw replies fuel (i + 1) u'

theorem uiomove_eq {rw : UioRw} {n : UInt32} {u : Uio} (hn : n ≠ 0) (hu : u.uio_resid ≠ 0) :
    cl.uiomove rw n u s =
      (cl.touch rw.stores (copyPages u.iov_ubase (min u.uio_resid n)) s).map fun r =>
        if r.2 then (r.1, u.advance (min u.uio_resid n), none) else (r.1, u, some .EFAULT) := by
  unfold uiomove
  rw [if_neg (by simp [hn, hu])]
  cases rw with
  | UIO_READ =>
    simp only [copyout, copyUser_eq, UioRw.stores]
    cases cl.touch true (copyPages u.iov_ubase (min u.uio_resid n)) s with
    | error h => rfl
    | ok r => obtain ⟨s', _ | _⟩ := r <;> rfl
  | UIO_WRITE =>
    simp only [copyin, copyUser_eq, UioRw.stores]
    cases cl.touch false (copyPages u.iov_ubase (min u.uio_resid n)) s with
    | error h => rfl
    | ok r => obtain ⟨s', _ | _⟩ := r <;> rfl

/-- The state in which an operation copies: its thread owns the lock, and a read has waited for the
    device before. -/
def copyState (cl : Caller) (rw : UioRw) (reply : Reply) (s : IoState) : IoState :=
  let s := { s with e_lock := some cl.curthread }
  match rw with
  | .UIO_READ => reply.sleep s
  | .UIO_WRITE => s

/-- How one operation goes on from its accesses; `next` is what is left of the call. -/
inductive Operates (reply : Reply) (u : Uio) (next : Option Uio) :
    Except Halt (IoState × Bool) → Except Halt (IoState × Uio × Option Errno) → Prop
  | halts (h : Halt) : Operates reply u next (.error h) (.error h)
  | refused (s t : IoState) (u' : Uio) (hfree : t.e_lock = none) :
      Operates reply u next (.ok (s, false)) (.ok (t, u', some .EFAULT))
  | ends (s t : IoState) (u' : Uio) (result : Option Errno) (hfree : t.e_lock = none)
      (hnext : next = none) (hend : result ≠ none ∨ u'.uio_resid = u.uio_resid) :
      Operates reply u next (.ok (s, true)) (.ok (t, u', result))
  | goesOn (s t : IoState) (u' : Uio) (hfree : t.e_lock = none) (has : t.as = s.as)
      (hvm : t.vm = s.vm ∨ t.vm = reply.others s.vm) (hnext : next = some u')
      (hless : u'.uio_resid.toNat < u.uio_resid.toNat) :
      Operates reply u next (.ok (s, true)) (.ok (t, u', none))

section Operation

variable {rw : UioRw} {reply : Reply} {u : Uio}

theorem lockAcquire_free (hfree : s.e_lock = none) :
    cl.lockAcquire s = .ok { s with e_lock := some cl.curthread } := by
  simp [lockAcquire, hfree]

theorem lockRelease_own (hown : s.e_lock = some cl.curthread) :
    cl.lockRelease s = { s with e_lock := none } := by
  simp [lockRelease, hown]

/-- What a copy of `size` bytes leaves. -/
theorem advance_less {size : UInt32} (hle : size ≤ u.uio_resid) (hne : size ≠ 0) :
    (u.advance size).uio_resid.toNat < u.uio_resid.toNat := by
  have hpos : 0 < size.toNat := Nat.pos_of_ne_zero fun h => hne (UInt32.toNat_inj.1 h)
  have hnat : size.toNat ≤ u.uio_resid.toNat := UInt32.le_iff_toNat_le.1 hle
  show (u.uio_resid - size).toNat < _
  rw [UInt32.toNat_sub_of_le _ _ hle]
  omega

theorem min_resid_le (n : UInt32) : min u.uio_resid n ≤ u.uio_resid := by
  show (if u.uio_resid ≤ n then u.uio_resid else n) ≤ u.uio_resid
  split
  · exact UInt32.le_refl _
  · exact UInt32.le_of_lt (UInt32.not_le.1 ‹_›)

theorem min_resid_eq_zero (hu : u.uio_resid ≠ 0) {n : UInt32} : min u.uio_resid n = 0 ↔ n = 0 := by
  show (if u.uio_resid ≤ n then u.uio_resid else n) = 0 ↔ n = 0
  split
  · refine ⟨fun h => absurd h hu, ?_⟩
    rintro rfl
    exact UInt32.le_zero_iff.1 ‹_›
  · exact Iff.rfl

theorem emuRead_operates (hfree : s.e_lock = none) (hu : u.uio_resid ≠ 0)
    (hown : ∀ s' through, cl.touch true (round .UIO_READ reply u).1
        (cl.copyState .UIO_READ reply s) = .ok (s', through) → s'.e_lock = some cl.curthread) :
    Operates reply u (round .UIO_READ reply u).2
      (cl.touch true (round .UIO_READ reply u).1 (cl.copyState .UIO_READ reply s))
      (cl.emuRead reply u s) := by
  have hrelease : (cl.lockRelease (cl.copyState .UIO_READ reply s)).e_lock = none := by
    rw [lockRelease_own rfl]
  have hamount : amount .UIO_READ reply u = min u.uio_resid reply.iolen := rfl
  have hsleep : reply.sleep { s with e_lock := some cl.curthread } =
      cl.copyState .UIO_READ reply s := rfl
  unfold emuRead
  by_cases hoff : u.uio_offset > 0xffffffff
  · rw [if_pos hoff, round, if_pos hoff]
    exact .ends _ _ u none hfree rfl (.inr rfl)
  rw [if_neg hoff, lockAcquire_free hfree]
  simp only [bind, Except.bind, hsleep]
  cases hwait : reply.waitdone with
  | some e =>
    have hround : round .UIO_READ reply u = ([], none) := by
      simp [round, hoff, hwait]
    rw [hround]
    exact .ends _ _ u (some e) hrelease rfl (.inl (by simp))
  | none =>
    by_cases hlen : reply.iolen = 0
    · have hround : round .UIO_READ reply u = ([], none) := by
        simp [round, hoff, hwait, hamount, min_resid_eq_zero hu, hlen]
      have hmove : cl.uiomove .UIO_READ reply.iolen u (cl.copyState .UIO_READ reply s) =
          .ok (cl.copyState .UIO_READ reply s, u, none) := by
        simp [uiomove, hlen]
      rw [hround, hmove]
      exact .ends _ _ _ none hrelease rfl (.inr rfl)
    · have hround : round .UIO_READ reply u =
          (copyPages u.iov_ubase (min u.uio_resid reply.iolen),
            some { u.advance (min u.uio_resid reply.iolen) with
              uio_offset := reply.offset.toNat }) := by
        simp [round, hoff, hwait, hamount, min_resid_eq_zero hu, hlen]
      rw [hround] at hown ⊢
      rw [uiomove_eq hlen hu]
      simp only [UioRw.stores]
      cases htouch : cl.touch true (copyPages u.iov_ubase (min u.uio_resid reply.iolen))
          (cl.copyState .UIO_READ reply s) with
      | error h => exact .halts h
      | ok r =>
        obtain ⟨s', through⟩ := r
        have hrel := lockRelease_own (hown s' through htouch)
        cases through with
        | false =>
          simp only [Except.map, Bool.false_eq_true, if_false, hrel]
          exact .refused s' _ _ rfl
        | true =>
          simp only [Except.map, if_true, hrel]
          exact .goesOn s' _ _ rfl rfl (.inl rfl) rfl
            (advance_less (min_resid_le _) (mt (min_resid_eq_zero hu).1 hlen))

theorem emuWrite_operates (hfree : s.e_lock = none) (hu : u.uio_resid ≠ 0)
    (hown : ∀ s' through, cl.touch false (round .UIO_WRITE reply u).1
        (cl.copyState .UIO_WRITE reply s) = .ok (s', through) → s'.e_lock = some cl.curthread) :
    Operates reply u (round .UIO_WRITE reply u).2
      (cl.touch false (round .UIO_WRITE reply u).1 (cl.copyState .UIO_WRITE reply s))
      (cl.emuWrite reply (if u.uio_resid > EMU_MAXIO then EMU_MAXIO else u.uio_resid) u s) := by
  generalize hlen : (if u.uio_resid > EMU_MAXIO then EMU_MAXIO else u.uio_resid) = len
  have hne : len ≠ 0 := by
    rw [← hlen]
    split
    · decide
    · exact hu
  unfold emuWrite
  by_cases hoff : u.uio_offset > 0xffffffff
  · rw [if_pos hoff, round, if_pos hoff]
    exact .ends _ _ u (some .EFBIG) hfree rfl (.inl (by simp))
  have hround : round .UIO_WRITE reply u = (copyPages u.iov_ubase (min u.uio_resid len),
      if reply.waitdone = none then some (u.advance (min u.uio_resid len)) else none) := by
    simp [round, hoff, amount, hlen]
  rw [hround] at hown ⊢
  rw [if_neg hoff, lockAcquire_free hfree]
  simp only [bind, Except.bind]
  rw [uiomove_eq hne hu]
  simp only [UioRw.stores]
  show Operates reply u _ (cl.touch false _ { s with e_lock := some cl.curthread }) _
  cases htouch : cl.touch false (copyPages u.iov_ubase (min u.uio_resid len))
      { s with e_lock := some cl.curthread } with
  | error h => exact .halts h
  | ok r =>
    obtain ⟨s', through⟩ := r
    have hlock := hown s' through htouch
    cases through with
    | false =>
      simp only [Except.map, Bool.false_eq_true, if_false, lockRelease_own hlock]
      exact .refused s' _ _ rfl
    | true =>
      have hrel := lockRelease_own (s := reply.sleep s') hlock
      simp only [Except.map, if_true, hrel]
      cases hwait : reply.waitdone with
      | some e => exact .ends s' _ _ (some e) rfl (if_neg (by simp)) (.inl (by simp))
      | none =>
        exact .goesOn s' _ _ rfl rfl (.inr rfl) (if_pos rfl)
          (advance_less (min_resid_le _) (mt (min_resid_eq_zero hu).1 hne))

theorem emuOp_operates (hfree : s.e_lock = none) (hu : u.uio_resid ≠ 0)
    (hown : ∀ s' through, cl.touch rw.stores (round rw reply u).1 (cl.copyState rw reply s) =
      .ok (s', through) → s'.e_lock = some cl.curthread) :
    Operates reply u (round rw reply u).2
      (cl.touch rw.stores (round rw reply u).1 (cl.copyState rw reply s))
      (cl.emuOp rw reply (if u.uio_resid > EMU_MAXIO then EMU_MAXIO else u.uio_resid) u s) := by
  cases rw with
  | UIO_READ => exact emuRead_operates hfree hu hown
  | UIO_WRITE => exact emuWrite_operates hfree hu hown

end Operation

theorem copyPages_page {addr : VAddr} {len : UInt32} (h : some v ∈ copyPages addr len) :
    pageOf v = v := by
  unfold copyPages at h
  split_ifs at h
  · simp only [pagesOf, List.map_map, List.mem_map, Function.comp_apply, Option.some.injEq] at h
    obtain ⟨i, -, rfl⟩ := h
    exact pageOf_pageOf _
  · simp at h

theorem round_page {rw : UioRw} {reply : Reply} {u : Uio} (h : some v ∈ (round rw reply u).1) :
    pageOf v = v := by
  by_cases hoff : u.uio_offset > 0xffffffff
  · rw [round, if_pos hoff] at h
    cases h
  · rw [round, if_neg hoff] at h
    cases rw with
    | UIO_READ =>
      simp only at h
      split_ifs at h
      · cases h
      · exact copyPages_page h
    | UIO_WRITE => exact copyPages_page h

/-! ## The copies that a call comes to -/

/-- A copy of a call: the state it begins in, and its accesses. -/
structure Copy where
  state : IoState
  accesses : List (Option VAddr)

/-- The pages that the copy comes to. -/
def Copy.pages (rw : UioRw) (c : Copy) : List VAddr := reached c.state.as rw.stores c.accesses

/-- The copies of a call, as far as it gets. -/
def copies (cl : Caller) (rw : UioRw) (replies : Nat → Reply) :
    Nat → Nat → Uio → IoState → List Copy
  | 0, _, _, _ => []
  | fuel + 1, i, u, s =>
    if u.uio_resid = 0 then []
    else
      let amt := if u.uio_resid > EMU_MAXIO then EMU_MAXIO else u.uio_resid
      ⟨cl.copyState rw (replies i) s, (round rw (replies i) u).1⟩ ::
        match cl.emuOp rw (replies i) amt u s with
        | .ok (s', u', none) =>
          if u'.uio_resid = u.uio_resid then [] else copies cl rw replies fuel (i + 1) u' s'
        | _ => []

/-- The other threads leave the memory of the process in order. -/
def Others (cl : Caller) (replies : Nat → Reply) : Prop :=
  ∀ i s, cl.MemOk s → cl.MemOk ((replies i).sleep s)

/-- What becomes of a call, from its copies `cs` and from the accesses `l` it would make if all got
    through. -/
inductive Looped (cl : Caller) (rw : UioRw) (cs : List Copy) (as : AddrSpace)
    (l : List (Option VAddr)) (done : Except Halt (IoState × Uio × Option Errno)) : Prop
  | back (t : IoState) (u : Uio) (result : Option Errno)
      (hwarm : ∀ c ∈ cs, cl.NoRead c.state (c.pages rw) ∧ cl.Fits c.state (c.pages rw))
      (hlives : ∀ c ∈ cs, fate c.state.as rw.stores c.accesses ≠ .dies)
      (hfate : fate as rw.stores l = .through ∨ result = some .EFAULT)
      (heq : done = .ok (t, u, result)) (hfree : t.e_lock = none)
  | dies (t : IoState)
      (hwarm : ∀ c ∈ cs, cl.NoRead c.state (c.pages rw) ∧ cl.Fits c.state (c.pages rw))
      (hdies : ∃ c ∈ cs, fate c.state.as rw.stores c.accesses = .dies)
      (heq : done = .error (.exited t))
  | blocked (t : IoState)
      (hcold : ∃ c ∈ cs, ¬ (cl.NoRead c.state (c.pages rw) ∧
        (cl.Fits c.state (c.pages rw) ∨ c.state.vm.swap.Full)))
      (heq : done = .error (.blocked t)) (hown : t.e_lock = some cl.curthread)
  | crashed (e : Crash)
      (hread : ∀ c ∈ cs, cl.NoRead c.state (c.pages rw) ∧
        (cl.Fits c.state (c.pages rw) ∨ c.state.vm.swap.Full))
      (hfits : ∃ c ∈ cs, ¬ cl.Fits c.state (c.pages rw)) (heq : done = .error (.crashed e))

section Call

variable {rw : UioRw} {replies : Nat → Reply} {cs : List Copy} {c : Copy} {as : AddrSpace}
  {done : Except Halt (IoState × Uio × Option Errno)}

theorem fate_append (h : fate as write l = .through) :
    fate as write (l ++ l') = fate as write l' := by
  induction l with
  | nil => rfl
  | cons a l ih =>
    cases a with
    | none => cases h
    | some v =>
      simp only [List.cons_append, fate] at h ⊢
      split_ifs at h ⊢
      exact ih h

/-- A copy that gets through goes in front of the others. -/
theorem Looped.cons (hwarm : cl.NoRead c.state (c.pages rw) ∧ cl.Fits c.state (c.pages rw))
    (hfate : fate c.state.as rw.stores c.accesses = .through) (hlayout : SameLayout c.state.as as)
    (h : Looped cl rw cs as l done) :
    Looped cl rw (c :: cs) c.state.as (c.accesses ++ l) done := by
  have hend : fate c.state.as rw.stores (c.accesses ++ l) = fate as rw.stores l :=
    (fate_append hfate).trans (fate_congr hlayout).symm
  cases h with
  | back t u result hrest hlives hgood heq hfree =>
    refine .back t u result (List.forall_mem_cons.2 ⟨hwarm, hrest⟩)
      (List.forall_mem_cons.2 ⟨by simp [hfate], hlives⟩) (by rwa [hend]) heq hfree
  | dies t hrest hdies heq =>
    exact .dies t (List.forall_mem_cons.2 ⟨hwarm, hrest⟩) (List.exists_mem_cons_of_exists hdies) heq
  | blocked t hcold heq hown =>
    exact .blocked t (List.exists_mem_cons_of_exists hcold) heq hown
  | crashed e hread hfits heq =>
    exact .crashed e (List.forall_mem_cons.2 ⟨⟨hwarm.1, .inl hwarm.2⟩, hread⟩)
      (List.exists_mem_cons_of_exists hfits) heq

theorem MemOk.withLock (h : cl.MemOk s) (owner : Option Nat) :
    cl.MemOk { s with e_lock := owner } :=
  ⟨h.pid, h.table, h.binary, h.checked, h.source, h.reuse, h.entries⟩

theorem Others.copyState {i : Nat} (hothers : cl.Others replies) (h : cl.MemOk s) :
    cl.MemOk (cl.copyState rw (replies i) s) := by
  cases rw with
  | UIO_READ => exact hothers i _ (h.withLock _)
  | UIO_WRITE => exact h.withLock _

theorem copyState_lock (reply : Reply) :
    (cl.copyState rw reply s).e_lock = some cl.curthread := by
  cases rw <;> rfl

theorem copyState_as (reply : Reply) : (cl.copyState rw reply s).as = s.as := by
  cases rw <;> rfl

theorem Others.next {i : Nat} (hothers : cl.Others replies) {t : IoState} (h : cl.MemOk s)
    (has : t.as = s.as) (hvm : t.vm = s.vm ∨ t.vm = (replies i).others s.vm) : cl.MemOk t := by
  obtain ⟨owner, vm, as⟩ := t
  obtain rfl : as = s.as := has
  rcases hvm with rfl | rfl
  · exact h.withLock owner
  · exact (hothers i s h).withLock owner

/-- The copies of a call decide what becomes of it. -/
theorem emufsLoop_spec {fuel i : Nat} {u : Uio} (hothers : cl.Others replies) (h : cl.MemOk s)
    (hfree : s.e_lock = none) (hfuel : u.uio_resid.toNat < fuel) :
    Looped cl rw (cl.copies rw replies fuel i u s) s.as (plan rw replies fuel i u)
      (cl.emufsLoop rw replies fuel i u s) := by
  induction fuel generalizing i u s with
  | zero => cases hfuel
  | succ fuel ih =>
    by_cases hu : u.uio_resid = 0
    · simp only [plan, emufsLoop, copies, if_pos hu]
      exact .back s u none (by simp) (by simp) (.inl rfl) rfl hfree
    have hspec : Touched cl rw.stores (round rw (replies i) u).1
        (cl.copyState rw (replies i) s) :=
      touch_spec (hothers.copyState h) (by simp [copyState_lock]) fun v hv => round_page hv
    have hop := emuOp_operates hfree hu fun s' through hback =>
      (hspec.owned hback).trans (copyState_lock _)
    simp only [plan, emufsLoop, copies, if_neg hu]
    revert hop
    generalize cl.emuOp rw (replies i)
      (if u.uio_resid > EMU_MAXIO then EMU_MAXIO else u.uio_resid) u s = op
    intro hop
    have has : (cl.copyState rw (replies i) s).as = s.as := copyState_as _
    rw [← has]
    cases hspec with
    | back s' through hwarm hfate heq hlock hok hlayout =>
      rw [heq] at hop
      cases hop with
      | refused _ t u' hfree' =>
        refine .back t u' _ (List.forall_mem_singleton.2 hwarm) ?_ (.inr rfl) rfl hfree'
        simp [hfate]
      | ends _ t u' result hfree' hnext hend =>
        have hdone : Looped cl rw [⟨cl.copyState rw (replies i) s, (round rw (replies i) u).1⟩]
            (cl.copyState rw (replies i) s).as ((round rw (replies i) u).1 ++ [])
            (.ok (t, u', result)) :=
          .cons hwarm hfate (.refl _)
            (.back t u' result (by simp) (by simp) (.inl rfl) rfl hfree')
        rw [hnext]
        cases result with
        | some e => exact hdone
        | none =>
          have hsame : u'.uio_resid = u.uio_resid := hend.resolve_left (by simp)
          simp only [bind, Except.bind, if_pos hsame]
          exact hdone
      | goesOn _ t u' hfree' has hvm hnext hless =>
        have hother : u'.uio_resid ≠ u.uio_resid := by
          intro hsame
          rw [hsame] at hless
          exact Nat.lt_irrefl _ hless
        rw [hnext]
        simp only [bind, Except.bind, if_neg hother]
        refine .cons hwarm hfate ?_ (ih (hothers.next hok has hvm) hfree'
          (Nat.lt_of_lt_of_le hless (Nat.le_of_lt_succ hfuel)))
        rw [has]
        exact hlayout
    | dies s' hwarm hfate heq hlock =>
      rw [heq] at hop
      cases hop with
      | halts =>
        exact .dies s' (List.forall_mem_singleton.2 hwarm) ⟨_, List.mem_cons_self, hfate⟩ rfl
    | blocked s' hcold heq hlock =>
      rw [heq] at hop
      cases hop with
      | halts =>
        exact .blocked s' ⟨_, List.mem_cons_self, hcold⟩ rfl
          (hlock.trans (copyState_lock _))
    | crashed e hread hfits hfull heq =>
      rw [heq] at hop
      cases hop with
      | halts =>
        exact .crashed e (List.forall_mem_singleton.2 ⟨hread, .inr hfull⟩)
          ⟨_, List.mem_cons_self, hfits⟩ rfl

end Call

end Caller

end DemandPaging
