import DemandPaging.AddrSpace
import Mathlib.Tactic.SplitIfs

set_option autoImplicit false

/-! # Loading an executable (`loadelf.c`, `elf.h`)

`load_elf` reads the header of the file and its program headers, and defines a region for every
`PT_LOAD` header; no byte of a segment is read here. Headers are read as they lie in the file, which
is the byte order of the machine (big endian). A read that ends early is reported as `ENOEXEC`.
`p_filesz` is a field of every program header that `load_elf` reads and passes to nobody. -/

namespace DemandPaging

/-! ## Headers -/

/-- A `uint16_t` at offset `o`. -/
def be16 (file : List UInt8) (o : Nat) : UInt16 :=
  (file.getD o 0).toUInt16 <<< 8 ||| (file.getD (o + 1) 0).toUInt16

/-- A `uint32_t` at offset `o`. -/
def be32 (file : List UInt8) (o : Nat) : UInt32 :=
  (be16 file o).toUInt32 <<< 16 ||| (be16 file (o + 2)).toUInt32

/-- `Elf32_Ehdr`, the fields that are looked at. -/
structure Ehdr where
  e_ident : List UInt8
  e_type : UInt16
  e_machine : UInt16
  e_version : UInt32
  e_entry : UInt32
  e_phoff : UInt32
  e_phentsize : UInt16
  e_phnum : UInt16

/-- `Elf32_Phdr`, without the two fields that are to be ignored. -/
structure Phdr where
  p_type : UInt32
  p_offset : UInt32
  p_vaddr : UInt32
  p_filesz : UInt32
  p_memsz : UInt32
  p_flags : UInt32
deriving DecidableEq, Repr

/-- `sizeof(Elf32_Ehdr)`. -/
def EHDR_SIZE : Nat := 52

/-- `sizeof(Elf32_Phdr)`. -/
def PHDR_SIZE : Nat := 32

/-- The read of the executable header, `none` if it is short. -/
def readEhdr (file : List UInt8) : Option Ehdr :=
  if EHDR_SIZE ≤ file.length then
    some
      { e_ident := file.take 16
        e_type := be16 file 16
        e_machine := be16 file 18
        e_version := be32 file 20
        e_entry := be32 file 24
        e_phoff := be32 file 28
        e_phentsize := be16 file 42
        e_phnum := be16 file 44 }
  else none

/-- The read of a program header, `none` if it is short. -/
def readPhdr (file : List UInt8) (offset : Nat) : Option Phdr :=
  if offset + PHDR_SIZE ≤ file.length then
    some
      { p_type := be32 file offset
        p_offset := be32 file (offset + 4)
        p_vaddr := be32 file (offset + 8)
        p_filesz := be32 file (offset + 16)
        p_memsz := be32 file (offset + 20)
        p_flags := be32 file (offset + 24) }
  else none

/-- `e_ident` of a 32-bit big-endian file of version 1, as far as it is checked. -/
def ELFMAG : List UInt8 := [0x7f, 0x45, 0x4c, 0x46, 1, 2, 1]

def EV_CURRENT : UInt32 := 1

def ET_EXEC : UInt16 := 2

def EM_MIPS : UInt16 := 8

/-- The check of the executable header. -/
def Ehdr.accepted (eh : Ehdr) : Bool :=
  eh.e_ident.take 7 == ELFMAG && eh.e_version == EV_CURRENT && eh.e_type == ET_EXEC &&
    eh.e_machine == EM_MIPS

def PT_NULL : UInt32 := 0

def PT_LOAD : UInt32 := 1

def PT_PHDR : UInt32 := 6

def PT_MIPS_REGINFO : UInt32 := 0x70000000

/-- Where program header `i` starts: 32-bit arithmetic, widened to an `off_t` afterwards. -/
def Ehdr.phdrOffset (eh : Ehdr) (i : Nat) : Nat :=
  (eh.e_phoff + UInt32.ofNat i * eh.e_phentsize.toUInt32).toNat

/-! ## `load_elf` -/

/-- The call of `as_define_region` for a program header: `PF_R`, `PF_W` and `PF_X` are the three
    flags, and `p_filesz` is not among the arguments. -/
def definePhdr (vnode : Nat) (ph : Phdr) (as : AddrSpace) : Except Errno AddrSpace :=
  asDefineRegion as ph.p_vaddr ph.p_memsz ph.p_offset.toNat vnode (ph.p_flags &&& RDFLAG)
    (ph.p_flags &&& WRFLAG) (ph.p_flags &&& EXFLAG)

/-- The loop over the program headers: `left` of them from `i` on. -/
def loadLoop (file : List UInt8) (vnode : Nat) (eh : Ehdr) :
    Nat → Nat → AddrSpace → Except Errno AddrSpace
  | 0, _, as => .ok as
  | left + 1, i, as =>
    match readPhdr file (eh.phdrOffset i) with
    | none => .error .ENOEXEC
    | some ph =>
      if ph.p_type = PT_NULL ∨ ph.p_type = PT_PHDR ∨ ph.p_type = PT_MIPS_REGINFO then
        loadLoop file vnode eh left (i + 1) as
      else if ph.p_type = PT_LOAD then
        match definePhdr vnode ph as with
        | .error e => .error e
        | .ok as => loadLoop file vnode eh left (i + 1) as
      else .error .ENOEXEC

/-- `load_elf` for the address space of the caller: that address space and the entry point.
    `as_prepare_load` does nothing. -/
def loadElf (file : List UInt8) (vnode : Nat) (as : AddrSpace) :
    Except Errno (AddrSpace × VAddr) :=
  match readEhdr file with
  | none => .error .ENOEXEC
  | some eh =>
    if eh.accepted then
      match loadLoop file vnode eh eh.e_phnum.toNat 0 as with
      | .error e => .error e
      | .ok as => .ok (as, eh.e_entry)
    else .error .ENOEXEC

/-! ## The segments of an accepted file -/

/-- The `PT_LOAD` headers among `left` of them from `i` on. -/
def loadHeadersFrom (file : List UInt8) (eh : Ehdr) : Nat → Nat → List Phdr
  | 0, _ => []
  | left + 1, i =>
    match readPhdr file (eh.phdrOffset i) with
    | none => []
    | some ph =>
      if ph.p_type = PT_LOAD then ph :: loadHeadersFrom file eh left (i + 1)
      else loadHeadersFrom file eh left (i + 1)

/-- The `PT_LOAD` headers of a file. -/
def loadHeaders (file : List UInt8) : List Phdr :=
  match readEhdr file with
  | none => []
  | some eh => loadHeadersFrom file eh eh.e_phnum.toNat 0

/-- The segment that is defined for a header. -/
def Phdr.segment (ph : Phdr) (vnode : Nat) : Segment :=
  segdef (ph.p_vaddr &&& PAGE_FRAME) (regionPages ph.p_vaddr ph.p_memsz) ph.p_offset.toNat
    (some vnode) false (ph.p_flags &&& RDFLAG) (ph.p_flags &&& WRFLAG) (ph.p_flags &&& EXFLAG)

/-- An address space whose program segments are those of a list, and without a stack. -/
def filled (segs : List Segment) : AddrSpace :=
  { seg1 := segs[0]?, seg2 := segs[1]?, segstack := none }

variable {file : List UInt8} {vnode : Nat} {eh : Ehdr} {segs : List Segment} {as' : AddrSpace}

theorem definePhdr_filled {ph : Phdr} (hlen : segs.length ≤ 2)
    (h : definePhdr vnode ph (filled segs) = .ok as') :
    as' = filled (segs ++ [ph.segment vnode]) ∧ (segs ++ [ph.segment vnode]).length ≤ 2 := by
  match segs, hlen with
  | [], _ =>
    cases h
    exact ⟨rfl, by simp⟩
  | [_], _ =>
    cases h
    exact ⟨rfl, by simp⟩
  | [_, _], _ => cases h

/-- The loop appends the segments of the headers it meets, and there is room for two. -/
theorem loadLoop_filled (left : Nat) : ∀ (i : Nat) (segs : List Segment), segs.length ≤ 2 →
    loadLoop file vnode eh left i (filled segs) = .ok as' →
    as' = filled (segs ++ (loadHeadersFrom file eh left i).map (·.segment vnode)) ∧
      (segs ++ (loadHeadersFrom file eh left i).map (·.segment vnode)).length ≤ 2 := by
  induction left with
  | zero =>
    intro i segs hlen h
    cases h
    simpa [loadHeadersFrom] using hlen
  | succ left ih =>
    intro i segs hlen h
    simp only [loadLoop] at h
    cases hread : readPhdr file (eh.phdrOffset i) with
    | none => simp [hread] at h
    | some ph =>
      simp only [hread] at h
      split_ifs at h with hskip hload
      · have hne : ph.p_type ≠ PT_LOAD := by
          rcases hskip with heq | heq | heq <;> rw [heq] <;> decide
        simpa [loadHeadersFrom, hread, hne] using ih (i + 1) segs hlen h
      · cases hdef : definePhdr vnode ph (filled segs) with
        | error e => simp [hdef] at h
        | ok as₁ =>
          obtain ⟨rfl, hlen'⟩ := definePhdr_filled hlen hdef
          simp only [hdef] at h
          simpa [loadHeadersFrom, hread, hload] using ih (i + 1) _ hlen' h

/-- An accepted file has at most two `PT_LOAD` headers, and its segments are theirs. -/
theorem loadElf_segments {entry : VAddr}
    (h : loadElf file vnode asCreate = .ok (as', entry)) :
    as' = filled ((loadHeaders file).map (·.segment vnode)) ∧ (loadHeaders file).length ≤ 2 := by
  unfold loadElf at h
  cases hread : readEhdr file with
  | none => simp [hread] at h
  | some eh =>
    simp only [hread] at h
    split_ifs at h
    cases hloop : loadLoop file vnode eh eh.e_phnum.toNat 0 asCreate with
    | error e => simp [hloop] at h
    | ok as₁ =>
      simp only [hloop, Except.ok.injEq, Prod.mk.injEq] at h
      obtain ⟨rfl, -⟩ := h
      have hfill := loadLoop_filled eh.e_phnum.toNat 0 [] (by simp) hloop
      simpa [loadHeaders, hread] using hfill

end DemandPaging
