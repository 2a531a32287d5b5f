import DemandPaging.Fault.Contents
import DemandPaging.LoadElf

set_option autoImplicit false

/-! # First loads and the image of the executable

What a program header says about the bytes of its segment, and when the first fault on a page of
the segment puts them there. `readfromelfto` reads a whole page: it does not know `p_filesz`, and
nothing clears the frame. So the bytes behind `p_filesz` are whatever follows in the file, and
behind the end of the file whatever the frame held. -/

namespace DemandPaging

/-! ## The image -/

namespace Phdr

variable (ph : Phdr) (file : List UInt8)

/-- Address `a` belongs to the segment. -/
def Covers (a : Nat) : Prop :=
  ph.p_vaddr.toNat ≤ a ∧ a < ph.p_vaddr.toNat + ph.p_memsz.toNat

instance (a : Nat) : Decidable (ph.Covers a) := inferInstanceAs (Decidable (_ ∧ _))

/-- The byte at distance `d` from the start of the segment: the file's up to `p_filesz`, and zero
    from there on. There is none if the file ends before. -/
def imageByte (d : Nat) : Option UInt8 :=
  if d < ph.p_filesz.toNat then file[ph.p_offset.toNat + d]? else some 0

/-- The part of the segment that lies in page `v` has its bytes. -/
def Image (v : VAddr) (page : Page) : Prop :=
  ∀ o : Fin PAGE_SIZE, ph.Covers (v.toNat + o.val) →
    ∀ b, ph.imageByte file (v.toNat + o.val - ph.p_vaddr.toNat) = some b → page o = b

end Phdr

/-! ## A process and its executable -/

/-- `runprogram` as far as the address space goes. -/
def runprogram (file : List UInt8) (vnode : Nat) : Except Errno AddrSpace :=
  match loadElf file vnode asCreate with
  | .error e => .error e
  | .ok (as, _) => .ok (asDefineStack as).1

/-- Process `pid` runs executable `vnode`, and page `v` of the segment of `ph` is about to be
    touched for the first time. -/
structure FirstTouch (files : Nat → List UInt8) (vm : Vm) (pid : Int) (as : AddrSpace) (vnode : Nat)
    (ph : Phdr) (v : VAddr) : Prop where
  pid_pos : 0 < pid
  program : runprogram (files vnode) vnode = .ok as.unloaded
  binary : as.Binary
  aligned : ∀ ph ∈ loadHeaders (files vnode), pageOf ph.p_vaddr = ph.p_vaddr
  header : ph ∈ loadHeaders (files vnode)
  page : pageOf v = v
  inside : ∃ o : Fin PAGE_SIZE, ph.Covers (v.toNat + o.val)
  untouched : ¬ as.LoadedAt v
  fresh : ∀ f, ¬ vm.cm.Maps pid v f

/-- The fault returns 0 and leaves the page in a frame with the bytes of the image. -/
def LoadsImage (files : Nat → List UInt8) (vm : Vm) (pid : Int) (as : AddrSpace) (vnode : Nat)
    (ph : Phdr) (ty : FaultType) (addr : VAddr) : Prop :=
  ∃ page, FaultGives files vm pid as ty addr page ∧ ph.Image (files vnode) (pageOf addr) page

namespace Phdr

variable (ph src : Phdr) (file : List UInt8) (v : VAddr) (old : Page)

/-- `vm_fault` finds `v` in the pages of the segment. Their end is computed in 32 bits. -/
def Holds : Prop :=
  ph.p_vaddr ≤ v ∧ v < ph.p_vaddr + regionPages ph.p_vaddr ph.p_memsz * PAGE_SIZE32

instance : Decidable (ph.Holds v) := inferInstanceAs (Decidable (_ ∧ _))

/-- The page that lies in the file where the header places it, and behind the end of the file the
    old bytes of a frame. -/
def pageBytes : Page := fun o =>
  (file[ph.p_offset.toNat + (v.toNat + o.val - ph.p_vaddr.toNat)]?).getD (old o)

/-- The bytes of page `v` behind `p_filesz` happen to be zero. -/
def BssClear : Prop :=
  ∀ o : Fin PAGE_SIZE, ph.Covers (v.toNat + o.val) →
    ph.p_filesz.toNat ≤ v.toNat + o.val - ph.p_vaddr.toNat →
      (file[ph.p_offset.toNat + (v.toNat + o.val - ph.p_vaddr.toNat)]?).getD (old o) = 0

end Phdr

/-- The header whose place in the file counts for page `v`: the first one as far as the end of its
    pages, that address included. -/
def sourceHeader (h1 h2 : Phdr) (v : VAddr) : Phdr :=
  if h1.p_vaddr ≤ v ∧ v ≤ h1.p_vaddr + regionPages h1.p_vaddr h1.p_memsz * PAGE_SIZE32 then h1
  else h2

/-- There are two program headers, both with pages, and a frame can be had. If the page is read at
    the place of its own segment, its bytes behind `p_filesz` are zero there. At the place of the
    other one, which touches or overlaps it, all its bytes have to be there by chance. And a page
    that is taken for one of the stack, because the end of the segment wraps, has to be all zero. -/
def ImageReady (file : List UInt8) (vm : Vm) (ph : Phdr) (v : VAddr) : Prop :=
  ∃ h1 h2 f, loadHeaders file = [h1, h2] ∧ regionPages h1.p_vaddr h1.p_memsz ≠ 0 ∧
    regionPages h2.p_vaddr h2.p_memsz ≠ 0 ∧ vm.Obtains f ∧
    if h1.Holds v ∨ h2.Holds v then
      sourceHeader h1 h2 v = ph ∧ ph.BssClear file v (vm.ram f) ∨
        sourceHeader h1 h2 v ≠ ph ∧
          ph.Image file v ((sourceHeader h1 h2 v).pageBytes file v (vm.ram f))
    else stackbase ≤ v ∧ v < USERSTACK ∧ ph.Image file v fun _ => 0

variable {files : Nat → List UInt8} {vm : Vm} {q : List Nat} {pid : Int} {as : AddrSpace}
  {vnode : Nat} {ph : Phdr} {v : VAddr} {c : FaultCtx}

/-! ## The segments of a running program -/

theorem runprogram_ok {file : List UInt8} {as₀ : AddrSpace}
    (h : runprogram file vnode = .ok as₀) :
    as₀ = (asDefineStack (filled ((loadHeaders file).map (·.segment vnode)))).1 := by
  unfold runprogram at h
  cases hload : loadElf file vnode asCreate with
  | error e => simp [hload] at h
  | ok r =>
    simp only [hload, Except.ok.injEq] at h
    obtain ⟨as₁, entry⟩ := r
    rw [← h, (loadElf_segments hload).1]

theorem runprogram_unloaded {file : List UInt8} (h : runprogram file vnode = .ok as) :
    as.unloaded = as := by
  rw [runprogram_ok h]
  simp only [AddrSpace.unloaded, asDefineStack, filled, List.getElem?_map, Option.map_map]
  rfl

theorem runprogram_backed {file : List UInt8} (h : runprogram file vnode = .ok as.unloaded) :
    as.Backed vnode := by
  have heq := runprogram_ok h
  have hseg : ∀ {s : Segment} {k : Nat},
      some (segcopy s) = ((loadHeaders file).map (·.segment vnode))[k]? →
        s.elfdata = some vnode := by
    intro s k hs
    obtain ⟨ph, -, hph⟩ := List.mem_map.1 (List.mem_of_getElem? hs.symm)
    exact (congrArg Segment.elfdata hph).symm
  constructor
  · intro s hs
    rcases hs with hs | hs
    · have h1 := congrArg AddrSpace.seg1 heq
      simp only [AddrSpace.unloaded, hs, Option.map_some] at h1
      exact hseg h1
    · have h2 := congrArg AddrSpace.seg2 heq
      simp only [AddrSpace.unloaded, hs, Option.map_some] at h2
      exact hseg h2
  · intro s hs
    have h3 := congrArg AddrSpace.segstack heq
    simp only [AddrSpace.unloaded, hs, Option.map_some] at h3
    exact congrArg Segment.stackseg (Option.some.inj h3)

theorem checked_program {s1 s2 : Segment} :
    (asDefineStack (filled [s1, s2])).1.checked.isOk ↔ s1.numpages ≠ 0 ∧ s2.numpages ≠ 0 := by
  have heq : (asDefineStack (filled [s1, s2])).1.checked =
      if s1.numpages ≠ 0 ∧ s2.numpages ≠ 0 ∧ STACKPAGES ≠ 0 then
        .ok (s1, s2, segdef stackbase STACKPAGES 0 none true RDFLAG WRFLAG 0)
      else .error .kassert := rfl
  by_cases h : s1.numpages ≠ 0 ∧ s2.numpages ≠ 0
  · rw [heq, if_pos ⟨h.1, h.2, by decide⟩]
    exact ⟨fun _ => h, fun _ => rfl⟩
  · rw [heq, if_neg fun hall => h ⟨hall.1, hall.2.1⟩]
    exact ⟨fun hok => (by cases hok), fun hall => absurd hall h⟩

/-- The assertions of `vm_fault` are about the headers of the executable. -/
theorem checked_iff {file : List UInt8} (h : runprogram file vnode = .ok as.unloaded) :
    as.checked.isOk ↔ ∃ h1 h2, loadHeaders file = [h1, h2] ∧
      regionPages h1.p_vaddr h1.p_memsz ≠ 0 ∧ regionPages h2.p_vaddr h2.p_memsz ≠ 0 := by
  have htwo : (loadHeaders file).length ≤ 2 := by
    unfold runprogram at h
    cases hload : loadElf file vnode asCreate with
    | error e => simp [hload] at h
    | ok r => exact (loadElf_segments hload).2
  rw [← checked_unloaded, runprogram_ok h]
  match hheaders : loadHeaders file with
  | [] => exact ⟨fun hok => (by cases hok), fun hexists => (by simp at hexists)⟩
  | [p1] => exact ⟨fun hok => (by cases hok), fun hexists => (by simp at hexists)⟩
  | [p1, p2] =>
    refine checked_program.trans ⟨fun hne => ⟨p1, p2, rfl, hne⟩, ?_⟩
    rintro ⟨h1, h2, heq, hne⟩
    cases heq
    exact hne
  | p1 :: p2 :: p3 :: rest => simp [hheaders] at htwo

/-- A program header and the segment that a running process has for it. -/
structure Phdr.Defines (ph : Phdr) (vnode : Nat) (s : Segment) : Prop where
  startaddr : s.startaddr = ph.p_vaddr
  numpages : s.numpages = regionPages ph.p_vaddr ph.p_memsz
  elfoffset : s.elfoffset = ph.p_offset.toNat
  elfdata : s.elfdata = some vnode
  stackseg : s.stackseg = false

theorem Phdr.defines_of_segcopy {s : Segment} (h : segcopy s = ph.segment vnode)
    (hpage : pageOf ph.p_vaddr = ph.p_vaddr) : ph.Defines vnode s where
  startaddr := (congrArg Segment.startaddr h).trans hpage
  numpages := congrArg Segment.numpages h
  elfoffset := congrArg Segment.elfoffset h
  elfdata := congrArg Segment.elfdata h
  stackseg := congrArg Segment.stackseg h

theorem runprogram_segments {file : List UInt8} {h1 h2 : Phdr}
    (h : runprogram file vnode = .ok as.unloaded) (hheaders : loadHeaders file = [h1, h2])
    (haligned : ∀ ph ∈ loadHeaders file, pageOf ph.p_vaddr = ph.p_vaddr) :
    ∃ t1 t2 tt, as = ⟨some t1, some t2, some tt⟩ ∧ h1.Defines vnode t1 ∧ h2.Defines vnode t2 ∧
      tt.stackseg = true := by
  have heq := runprogram_ok h
  rw [hheaders] at heq haligned
  obtain ⟨o1, o2, ot⟩ := as
  obtain ⟨t1, rfl, ht1⟩ := Option.map_eq_some_iff.1 (congrArg AddrSpace.seg1 heq)
  obtain ⟨t2, rfl, ht2⟩ := Option.map_eq_some_iff.1 (congrArg AddrSpace.seg2 heq)
  obtain ⟨tt, rfl, htt⟩ := Option.map_eq_some_iff.1 (congrArg AddrSpace.segstack heq)
  exact ⟨t1, t2, tt, rfl, Phdr.defines_of_segcopy ht1 (haligned h1 (by simp)),
    Phdr.defines_of_segcopy ht2 (haligned h2 (by simp)), congrArg Segment.stackseg htt⟩

/-! ## The page a first load makes -/

theorem Phdr.Defines.readInto_eq {s : Segment} (h : ph.Defines vnode s) (hv : ph.p_vaddr ≤ v)
    (file : List UInt8) (old : Page) :
    readInto file (s.fileOffset v) old = ph.pageBytes file v old := by
  funext o
  have hle := UInt32.le_iff_toNat_le.1 hv
  have hoff : s.fileOffset v + o.val =
      ph.p_offset.toNat + (v.toNat + o.val - ph.p_vaddr.toNat) := by
    unfold Segment.fileOffset
    rw [h.startaddr, h.elfoffset, UInt32.toNat_sub_of_le _ _ hv]
    omega
  unfold readInto Phdr.pageBytes
  rw [hoff]
  cases file[ph.p_offset.toNat + (v.toNat + o.val - ph.p_vaddr.toNat)]? <;> rfl

/-- The page that the headers give: one of the file, a stack page or none. -/
def headerPage (file : List UInt8) (h1 h2 : Phdr) (v : VAddr) (old : Page) : Option Page :=
  if h1.Holds v ∨ h2.Holds v then some ((sourceHeader h1 h2 v).pageBytes file v old)
  else if stackbase ≤ v ∧ v < USERSTACK then some fun _ => 0
  else none

section Segments

variable {h1 h2 : Phdr} {t1 t2 tt : Segment}

theorem elfSource_program (hd1 : h1.Defines vnode t1) (hd2 : h2.Defines vnode t2)
    (hv : h1.Holds v ∨ h2.Holds v) (tt : Segment) :
    ∃ offset, elfSource ⟨some t1, some t2, some tt⟩ v = .ok (vnode, offset) ∧
      ∀ file old, readInto file offset old = (sourceHeader h1 h2 v).pageBytes file v old := by
  unfold elfSource elfSegment sourceHeader
  simp only [hd1.startaddr, hd1.numpages, hd2.startaddr, hd2.numpages, UInt32.add_comm (_ * _)]
  split_ifs with hreach1 hreach2 hreach3
  · exact ⟨_, by simp only [hd1.elfdata], hd1.readInto_eq hreach1.1⟩
  · exact ⟨_, by simp only [hd2.elfdata], hd2.readInto_eq hreach2.1⟩
  -- the exclusive range of a segment is part of its inclusive one
  all_goals
    rcases hv with hv | hv
    · exact absurd ⟨hv.1, UInt32.le_of_lt hv.2⟩ hreach1
    · exact absurd ⟨hv.1, UInt32.le_of_lt hv.2⟩ hreach2

theorem locate_firstPage (hd1 : h1.Defines vnode t1) (hd2 : h2.Defines vnode t2)
    (hstack : tt.stackseg = true) (old : Page) :
    (AddrSpace.locate ⟨some t1, some t2, some tt⟩ v).map
        (fun c => firstPage files ⟨some t1, some t2, some tt⟩ c old) =
      (headerPage (files vnode) h1 h2 v old).map .ok := by
  have hselect : selectSegment t1 t2 v =
      if h1.Holds v then some (.seg1, ((v - h1.p_vaddr) / PAGE_SIZE32).toNat)
      else if h2.Holds v then some (.seg2, ((v - h2.p_vaddr) / PAGE_SIZE32).toNat)
      else if stackbase ≤ v ∧ v < USERSTACK then
        some (.segstack, ((v - stackbase) / PAGE_SIZE32).toNat)
      else none := by
    unfold selectSegment Segment.top Phdr.Holds
    rw [hd1.startaddr, hd1.numpages, hd2.startaddr, hd2.numpages]
    rfl
  have hfile : ∀ {seg : SegId} (ind : Nat), seg ≠ .segstack → h1.Holds v ∨ h2.Holds v →
      firstPage files ⟨some t1, some t2, some tt⟩ ⟨v, seg, ind⟩ old =
        .ok ((sourceHeader h1 h2 v).pageBytes (files vnode) v old) := by
    intro seg ind hseg hv
    have hprogram : AddrSpace.stackseg ⟨some t1, some t2, some tt⟩ ⟨v, seg, ind⟩ = false := by
      cases seg with
      | seg1 => exact hd1.stackseg
      | seg2 => exact hd2.stackseg
      | segstack => exact absurd rfl hseg
    obtain ⟨offset, hsrc, hread⟩ := elfSource_program hd1 hd2 hv tt
    simp only [firstPage, hprogram, Bool.false_eq_true, if_false, hsrc, hread]
  unfold AddrSpace.locate headerPage
  simp only [hselect]
  by_cases hv1 : h1.Holds v
  · simp only [hv1, true_or, if_true, Option.map_some]
    exact congrArg some (hfile _ (by decide) (.inl hv1))
  by_cases hv2 : h2.Holds v
  · simp only [hv1, hv2, or_true, if_true, if_false, Option.map_some]
    exact congrArg some (hfile _ (by decide) (.inr hv2))
  simp only [hv1, hv2, or_self, if_false]
  split
  · simp only [Option.map_some, firstPage, AddrSpace.stackseg, AddrSpace.seg, hstack, if_true]
  · rfl

end Segments

/-! ## When a first load is right -/

/-- At its own place in the file, all that can be wrong with a page are the bytes behind
    `p_filesz`. -/
theorem image_pageBytes_iff {file : List UInt8} {old : Page} :
    ph.Image file v (ph.pageBytes file v old) ↔ ph.BssClear file v old := by
  refine forall_congr' fun o => imp_congr_right fun _ => ?_
  unfold Phdr.imageByte Phdr.pageBytes
  split
  · next hlt => simp +contextual [Nat.not_le.2 hlt]
  · next hge => simp [Nat.le_of_not_lt hge, eq_comm]

theorem headerPage_image_iff {file : List UInt8} {h1 h2 : Phdr} {old : Page} :
    (∃ page, headerPage file h1 h2 v old = some page ∧ ph.Image file v page) ↔
      if h1.Holds v ∨ h2.Holds v then
        sourceHeader h1 h2 v = ph ∧ ph.BssClear file v old ∨
          sourceHeader h1 h2 v ≠ ph ∧ ph.Image file v ((sourceHeader h1 h2 v).pageBytes file v old)
      else stackbase ≤ v ∧ v < USERSTACK ∧ ph.Image file v fun _ => 0 := by
  unfold headerPage
  split
  · by_cases hown : sourceHeader h1 h2 v = ph
    · simp [hown, image_pageBytes_iff]
    · simp [hown]
  · split
    · next hstack => simp [hstack]
    · next hstack => simpa using fun hlow hhigh => absurd ⟨hlow, hhigh⟩ hstack

section FirstTouch

variable {ty : FaultType} {addr : VAddr}

/-- A fault on an untouched page gives what the headers say. -/
theorem FirstTouch.faultGives_iff (h : TableInv vm.cm q)
    (ht : FirstTouch files vm pid as vnode ph (pageOf addr))
    (hty : ty = .VM_FAULT_READ ∨ ty = .VM_FAULT_WRITE) {page : Page} :
    FaultGives files vm pid as ty addr page ↔ ∃ h1 h2 f, loadHeaders (files vnode) = [h1, h2] ∧
      regionPages h1.p_vaddr h1.p_memsz ≠ 0 ∧ regionPages h2.p_vaddr h2.p_memsz ≠ 0 ∧
      vm.Obtains f ∧ headerPage (files vnode) h1 h2 (pageOf addr) (vm.ram f) = some page := by
  rw [DemandPaging.faultGives_iff h ht.pid_pos ht.binary ht.fresh hty, checked_iff ht.program]
  have hfirst : ∀ {c old}, as.locate (pageOf addr) = some c →
      loadedPage files vm.swap pid as c old = firstPage files as c old := by
    intro c old hloc
    exact if_neg fun hf => ht.untouched ((loadedAt_iff hloc).2 hf)
  have hpage : ∀ {h1 h2 : Phdr} {old : Page}, loadHeaders (files vnode) = [h1, h2] →
      ((∃ c, as.locate (pageOf addr) = some c ∧ firstPage files as c old = .ok page) ↔
        headerPage (files vnode) h1 h2 (pageOf addr) old = some page) := by
    intro h1 h2 old hheaders
    obtain ⟨t1, t2, tt, rfl, hd1, hd2, hstack⟩ :=
      runprogram_segments ht.program hheaders ht.aligned
    rw [← Option.map_eq_some_iff, locate_firstPage hd1 hd2 hstack]
    simp
  constructor
  · rintro ⟨⟨h1, h2, hheaders, hp1, hp2⟩, c, f, hloc, hobt, hload⟩
    rw [hfirst hloc] at hload
    exact ⟨h1, h2, f, hheaders, hp1, hp2, hobt, (hpage hheaders).1 ⟨c, hloc, hload⟩⟩
  · rintro ⟨h1, h2, f, hheaders, hp1, hp2, hobt, hload⟩
    obtain ⟨c, hloc, hload⟩ := (hpage hheaders).2 hload
    exact ⟨⟨h1, h2, hheaders, hp1, hp2⟩, c, f, hloc, hobt, (hfirst hloc).trans hload⟩

/-- A first fault leaves the image of the executable in its frame exactly if headers, file and old
    frame are such that a read of a whole page at the place of a header gives it. -/
theorem firstFault_image_iff (h : TableInv vm.cm q)
    (ht : FirstTouch files vm pid as vnode ph (pageOf addr))
    (hty : ty = .VM_FAULT_READ ∨ ty = .VM_FAULT_WRITE) :
    LoadsImage files vm pid as vnode ph ty addr ↔
      ImageReady (files vnode) vm ph (pageOf addr) := by
  unfold LoadsImage ImageReady
  simp only [ht.faultGives_iff h hty, ← headerPage_image_iff]
  constructor
  · rintro ⟨page, ⟨h1, h2, f, hheaders, hp1, hp2, hobt, hpage⟩, himage⟩
    exact ⟨h1, h2, f, hheaders, hp1, hp2, hobt, page, hpage, himage⟩
  · rintro ⟨h1, h2, f, hheaders, hp1, hp2, hobt, page, hpage, himage⟩
    exact ⟨page, ⟨h1, h2, f, hheaders, hp1, hp2, hobt, hpage⟩, himage⟩

end FirstTouch

/-! ## Two small executables -/

/-- Four bytes, the most significant one first. -/
def word (n : UInt32) : List UInt8 :=
  [(n >>> 24).toUInt8, (n >>> 16).toUInt8, (n >>> 8).toUInt8, n.toUInt8]

/-- Two segments of four bytes each, both at the end of the file. The header of the first says how
    many of its bytes are in the file. -/
def smallElf (filesz : UInt32) : List UInt8 :=
  ELFMAG ++ List.replicate 9 0 ++ [0, 2, 0, 8] ++ word 1 ++ word 0x400000 ++ word 52 ++ word 0 ++
    word 0 ++ [0, 52, 0, 32, 0, 2, 0, 0, 0, 0, 0, 0] ++
    (word 1 ++ word 116 ++ word 0x400000 ++ word 0x400000 ++ word filesz ++ word 4 ++ word 5 ++
      word 4096) ++
    (word 1 ++ word 116 ++ word 0x500000 ++ word 0x500000 ++ word 4 ++ word 4 ++ word 6 ++
      word 4096) ++
    [1, 2, 3, 4]

def codeHeader (filesz : UInt32) : Phdr := ⟨1, 116, 0x400000, filesz, 4, 5⟩

def dataHeader : Phdr := ⟨1, 116, 0x500000, 4, 4, 6⟩

/-- The page of the code segment. -/
def codePage : FaultCtx := ⟨0x400000, .seg1, 0⟩

/-- The address space of a process that starts the small executable. -/
def smallSpace (filesz : UInt32) : AddrSpace :=
  match runprogram (smallElf filesz) 0 with
  | .ok as => as
  | .error _ => asCreate

theorem smallSpace_runs {filesz : UInt32} (hok : (runprogram (smallElf filesz) 0).isOk) :
    runprogram (smallElf filesz) 0 = .ok (smallSpace filesz) := by
  unfold smallSpace
  cases hrun : runprogram (smallElf filesz) 0 with
  | error e => simp [hrun, Except.isOk, Except.toBool] at hok
  | ok as => rfl

theorem smallSpace_flag {filesz : UInt32} (hok : (runprogram (smallElf filesz) 0).isOk)
    (c : FaultCtx) : (smallSpace filesz).flag c = 0 := by
  rw [← runprogram_unloaded (smallSpace_runs hok), unloaded_flag]

theorem oneFrame_fresh (pid : Int) (v : VAddr) (f : Nat) : ¬ oneFrame.cm.Maps pid v f := by
  intro hf
  have hmem := (oneFrame_boots.tableInv.rep.mem_queue f).2 hf.1
  cases hmem

theorem smallSpace_firstTouch {filesz : UInt32} (hok : (runprogram (smallElf filesz) 0).isOk)
    (hhead : loadHeaders (smallElf filesz) = [codeHeader filesz, dataHeader]) :
    FirstTouch (fun _ => smallElf filesz) oneFrame 2 (smallSpace filesz) 0 (codeHeader filesz)
      (pageOf 0x400000) := by
  have hrun := smallSpace_runs hok
  refine
    { pid_pos := by decide
      program := by rw [runprogram_unloaded hrun]; exact hrun
      binary := fun c => .inl (smallSpace_flag hok c)
      aligned := ?_
      header := by rw [hhead]; exact List.mem_cons_self ..
      page := by decide
      inside := ⟨⟨0, PAGE_SIZE_pos⟩, ?_⟩
      untouched := ?_
      fresh := oneFrame_fresh 2 _ }
  · intro ph hph
    rw [hhead] at hph
    have hpage : ph.p_vaddr = 0x400000 ∨ ph.p_vaddr = 0x500000 := by
      rcases List.mem_pair.1 hph with rfl | rfl
      · exact .inl rfl
      · exact .inr rfl
    rcases hpage with hp | hp <;> rw [hp] <;> decide
  · show (0x400000 : UInt32).toNat ≤ (pageOf 0x400000).toNat + 0 ∧
      (pageOf 0x400000).toNat + 0 < (0x400000 : UInt32).toNat + (4 : UInt32).toNat
    decide
  · rintro ⟨c, -, hc⟩
    rw [smallSpace_flag hok] at hc
    cases hc

/-- What the loader and the handler compute for the code page. -/
theorem smallSpace_spec (filesz : UInt32) (hsize : filesz = 2 ∨ filesz = 4) :
    (runprogram (smallElf filesz) 0).isOk ∧
    loadHeaders (smallElf filesz) = [codeHeader filesz, dataHeader] ∧
    (smallSpace filesz).checked.isOk ∧
    (smallSpace filesz).locate (pageOf 0x400000) = some codePage ∧
    (smallSpace filesz).stackseg codePage = false ∧
    elfSource (smallSpace filesz) codePage.fa = .ok (0, (codeHeader filesz).p_offset.toNat +
      ((pageOf 0x400000).toNat - (codeHeader filesz).p_vaddr.toNat)) := by
  rcases hsize with rfl | rfl <;> decide +kernel

/-- The code page is read at the place of its own segment. -/
theorem codePage_source (filesz : UInt32) :
    (codeHeader filesz).Holds (pageOf 0x400000) ∧
      sourceHeader (codeHeader filesz) dataHeader (pageOf 0x400000) = codeHeader filesz := by
  have hholds : (0x400000 : UInt32) ≤ pageOf 0x400000 ∧
      pageOf 0x400000 < 0x400000 + regionPages 0x400000 4 * PAGE_SIZE32 := by decide
  exact ⟨hholds, if_pos ⟨hholds.1, UInt32.le_of_lt hholds.2⟩⟩

/-- All four bytes of the code are in the file, and the page gets them. -/
theorem firstFault_image_small :
    LoadsImage (fun _ => smallElf 4) oneFrame 2 (smallSpace 4) 0 (codeHeader 4) .VM_FAULT_READ
      0x400000 := by
  obtain ⟨hruns, hhead, -⟩ := smallSpace_spec 4 (.inr rfl)
  obtain ⟨hholds, hsource⟩ := codePage_source 4
  have hclear : (codeHeader 4).BssClear (smallElf 4) (pageOf 0x400000) (oneFrame.ram 31) := by
    intro o hcov hbss
    have hend : (pageOf 0x400000).toNat + o.val < 0x400000 + 4 := hcov.2
    have hbss' : 4 ≤ (pageOf 0x400000).toNat + o.val - 0x400000 := hbss
    omega
  have hready : ImageReady (smallElf 4) oneFrame (codeHeader 4) (pageOf 0x400000) := by
    refine ⟨codeHeader 4, dataHeader, 31, hhead, by decide, by decide,
      obtains_of_getfreeframes oneFrame_boots.tableInv rfl, ?_⟩
    rw [if_pos (.inl hholds)]
    exact .inl ⟨hsource, hclear⟩
  exact (firstFault_image_iff oneFrame_boots.tableInv (smallSpace_firstTouch hruns hhead)
    (.inl rfl)).2 hready

/-- Only two of the four bytes of the code are in the file, and the other two are not zero after the
    first load: the page has the next two bytes of the file there. -/
theorem bss_not_cleared : Boots oneFrame ∧
    FirstTouch (fun _ => smallElf 2) oneFrame 2 (smallSpace 2) 0 (codeHeader 2) (pageOf 0x400000) ∧
    ¬ LoadsImage (fun _ => smallElf 2) oneFrame 2 (smallSpace 2) 0 (codeHeader 2) .VM_FAULT_READ
      0x400000 := by
  obtain ⟨hruns, hhead, -⟩ := smallSpace_spec 2 (.inl rfl)
  obtain ⟨hholds, hsource⟩ := codePage_source 2
  have htouch := smallSpace_firstTouch hruns hhead
  refine ⟨oneFrame_boots, htouch, ?_⟩
  rintro ⟨page, hgives, himage⟩
  obtain ⟨h1, h2, f, hhead', -, -, -, hpage⟩ :=
    (htouch.faultGives_iff oneFrame_boots.tableInv (.inl rfl)).1 hgives
  cases hhead.symm.trans hhead'
  have hbytes := headerPage_image_iff.1 ⟨page, hpage, himage⟩
  rw [if_pos (.inl hholds)] at hbytes
  obtain ⟨-, hclear⟩ := hbytes.resolve_right fun hother => hother.1 hsource
  have hzero := hclear ⟨2, by decide⟩ (by decide) (by decide)
  have hfile : (smallElf 2)[(codeHeader 2).p_offset.toNat +
      ((pageOf 0x400000).toNat + 2 - (codeHeader 2).p_vaddr.toNat)]? = some 3 := by decide +kernel
  rw [hfile] at hzero
  have hthree : (3 : UInt8) = 0 := hzero
  exact absurd hthree (by decide)

end DemandPaging
