import DemandPaging.Fault.ElfImage

set_option autoImplicit false

/-! # What a previous owner left in a frame

Two runs of one fault, on states that differ in the bytes of frames the process does not own. The
handler never looks at those bytes, so both runs map the same frame; whether its bytes are the same
afterwards is up to the load. A read from swap and the zeroing of a stack page overwrite the whole
frame, but a read from the executable that reaches the end of the file does not. -/

namespace DemandPaging

/-! ## Two runs -/

/-- The bytes of the frame that a fault maps, if it maps one. -/
def mappedBytes (files : Nat → List UInt8) (vm : Vm) (pid : Int) (as : AddrSpace) (ty : FaultType)
    (addr : VAddr) : Option Page :=
  match vmFault files vm pid (some as) ty addr, faultPaddr vm pid (pageOf addr) with
  | .ok (vm', some _, .returned none), .ok paddr => some (vm'.frame paddr)
  | _, _ => none

/-- Nothing differs but the bytes of free frames and of frames of other processes. -/
def AgreeFor (pid : Int) (vm vm' : Vm) : Prop :=
  vm' = { vm with ram := vm'.ram } ∧
    ∀ f, ¬ vm.cm.FreeFrame f → (∀ p v, vm.cm.Maps p v f → p = pid) → vm'.ram f = vm.ram f

/-- What the process gets to see does not depend on those bytes. -/
def NoResidue (files : Nat → List UInt8) (vm : Vm) (pid : Int) (as : AddrSpace) (ty : FaultType)
    (addr : VAddr) : Prop :=
  ∀ vm', AgreeFor pid vm vm' →
    mappedBytes files vm' pid as ty addr = mappedBytes files vm pid as ty addr

/-- The load leaves bytes of the frame as they were: the page is marked as loaded and has no slot,
    or the executable ends before the page does. -/
def KeepsOld (files : Nat → List UInt8) (sw : Swapfile) (pid : Int) (as : AddrSpace)
    (c : FaultCtx) : Prop :=
  (as.flag c = 1 ∧ sw.findSlot pid c.fa = none) ∨
  (as.flag c ≠ 1 ∧ as.stackseg c = false ∧ ∃ vnode offset,
    elfSource as c.fa = .ok (vnode, offset) ∧ (files vnode).length < offset + PAGE_SIZE)

/-- The page gets a frame that is free or another process's, and its load does not overwrite it. -/
def Leaks (files : Nat → List UInt8) (vm : Vm) (pid : Int) (as : AddrSpace) (v : VAddr) : Prop :=
  as.checked.isOk ∧ ∃ c f, as.locate v = some c ∧ (∀ g, ¬ vm.cm.Maps pid v g) ∧ vm.Obtains f ∧
    (vm.cm.FreeFrame f ∨ ∃ p w, vm.cm.Maps p w f ∧ p ≠ pid) ∧ KeepsOld files vm.swap pid as c

variable {files : Nat → List UInt8} {vm : Vm} {q : List Nat} {pid : Int} {as : AddrSpace}
  {c : FaultCtx} {sw : Swapfile} {v : VAddr} {ty : FaultType} {addr : VAddr}

/-! ## The load and the old bytes -/

theorem readInto_congr {file : List UInt8} {offset : Nat}
    (hlong : offset + PAGE_SIZE ≤ file.length) (old old' : Page) :
    readInto file offset old = readInto file offset old' := by
  funext o
  have hlt : offset + o.val < file.length := by have := o.isLt; omega
  simp only [readInto, List.getElem?_eq_getElem hlt]

/-- A load that overwrites its frame does not depend on what was there. -/
theorem loadedPage_congr (hk : ¬ KeepsOld files sw pid as c) (old old' : Page) :
    loadedPage files sw pid as c old = loadedPage files sw pid as c old' := by
  unfold loadedPage
  split
  · next hflag =>
    cases hslot : sw.findSlot pid c.fa with
    | none => exact absurd (.inl ⟨hflag, hslot⟩) hk
    | some slot => rfl
  · next hflag =>
    unfold firstPage
    split
    · rfl
    · next hstack =>
      cases hsrc : elfSource as c.fa with
      | error e => rfl
      | ok src =>
        obtain ⟨vnode, offset⟩ := src
        have hlong : offset + PAGE_SIZE ≤ (files vnode).length := by
          by_contra hshort
          exact hk (.inr ⟨hflag, by simpa using hstack, vnode, offset, hsrc, by omega⟩)
        exact congrArg Except.ok (readInto_congr hlong old old')

/-- One that does not leaves some byte as it was. -/
theorem loadedPage_keeps (hk : KeepsOld files sw pid as c) :
    ∃ o : Fin PAGE_SIZE, ∀ old, ∃ page, loadedPage files sw pid as c old = .ok page ∧
      page o = old o := by
  rcases hk with ⟨hflag, hslot⟩ | ⟨hflag, hstack, vnode, offset, hsrc, hshort⟩
  · exact ⟨⟨0, PAGE_SIZE_pos⟩, fun old => ⟨old, by simp [loadedPage, hflag, hslot], rfl⟩⟩
  · refine ⟨⟨PAGE_SIZE - 1, by decide⟩, fun old => ⟨readInto (files vnode) offset old, ?_, ?_⟩⟩
    · simp [loadedPage, firstPage, hflag, hstack, hsrc]
    · have hnone : (files vnode)[offset + (PAGE_SIZE - 1)]? = none :=
        List.getElem?_eq_none (by omega)
      simp only [readInto, hnone]

/-! ## The bytes a fault maps -/

/-- The address that a call of `allocuserpage` returns. -/
def AllocPoint.paddr : AllocPoint → Nat
  | .done _ paddr => paddr
  | .evicting _ ev => ev.ind * PAGE_SIZE

theorem allocuserpageStart_ram (vm : Vm) (ram : Nat → Page) (pid : Int) (fa : VAddr) :
    (allocuserpageStart { vm with ram := ram } pid fa).map AllocPoint.paddr
      = (allocuserpageStart vm pid fa).map AllocPoint.paddr := by
  unfold allocuserpageStart
  dsimp only
  split_ifs with hact hind
  · rfl
  · cases vm.cm.firstvictim with
    | none => rfl
    | some f =>
      cases hread : vm.cm.getpageaddr (vm.cm.pt f).pid (vm.cm.pt f).vaddr with
      | error e => simp only [hread]
      | ok r =>
        cases hclaim : vm.swap.claimSlot (vm.cm.pt f).pid (vm.cm.pt f).vaddr with
        | none => simp only [hread, hclaim]
        | some claimed =>
          simp only [hread, hclaim]
          rfl
  · cases vm.cm.setptentry (getfreeframes vm.cm.pt vm.cm.ptsize 1).toNat 1 pid fa with
    | error e => rfl
    | ok cm => rfl

theorem faultPaddr_eq (vm : Vm) (pid : Int) (fa : VAddr) :
    faultPaddr vm pid fa = match pageaddr (vm.incr .TLBFAULT) pid fa with
      | .error e => .error e
      | .ok paddr =>
        if paddr = 0 then (allocuserpageStart (vm.incr .TLBFAULT) pid fa).map AllocPoint.paddr
        else .ok paddr := by
  unfold faultPaddr faultBegin
  dsimp only
  cases pageaddr (vm.incr .TLBFAULT) pid fa with
  | error e => rfl
  | ok paddr =>
    dsimp only
    split_ifs
    · rcases allocuserpageStart (vm.incr .TLBFAULT) pid fa with e | ⟨_, _⟩ | ⟨_, _⟩ <;> rfl
    · rfl

/-- The mapped address does not depend on the bytes of any frame. -/
theorem faultPaddr_ram (vm : Vm) (ram : Nat → Page) (pid : Int) (fa : VAddr) :
    faultPaddr { vm with ram := ram } pid fa = faultPaddr vm pid fa := by
  have hstart := allocuserpageStart_ram (vm.incr .TLBFAULT) ram pid fa
  rw [faultPaddr_eq, faultPaddr_eq, ← hstart]
  rfl

/-- A fault that does not find its page maps nothing. -/
theorem mappedBytes_none (hty : ty = .VM_FAULT_READ ∨ ty = .VM_FAULT_WRITE)
    (hno : ¬ (as.checked.isOk ∧ ∃ c, as.locate (pageOf addr) = some c)) :
    mappedBytes files vm pid as ty addr = none := by
  unfold mappedBytes
  split
  · next heq _ =>
    obtain ⟨c, hok, hloc, -⟩ := (vmFault_returned_iff hty).1 heq
    exact absurd ⟨hok, c, hloc⟩ hno
  · rfl

/-- The bytes are those of the resident page, or those the load leaves. -/
theorem mappedBytes_eq (files : Nat → List UInt8) (h : TableInv vm.cm q) (hp : 0 < pid)
    (hbin : as.Binary) (hty : ty = .VM_FAULT_READ ∨ ty = .VM_FAULT_WRITE) (hok : as.checked.isOk)
    (hloc : as.locate (pageOf addr) = some c) :
    (∃ f, vm.cm.Maps pid (pageOf addr) f ∧ mappedBytes files vm pid as ty addr = some (vm.ram f)) ∨
    ((∀ g, ¬ vm.cm.Maps pid (pageOf addr) g) ∧
      mappedBytes files vm pid as ty addr = match faultPaddr vm pid (pageOf addr) with
        | .error _ => none
        | .ok paddr => (loadedPage files vm.swap pid as c (vm.frame paddr)).toOption) := by
  have hdiv : ∀ f, f * PAGE_SIZE / PAGE_SIZE = f := fun f => Nat.mul_div_cancel f (by decide)
  have hfa : c.fa = pageOf addr := (locate_some hloc).1
  have hreturns : ∀ {vm' as'}, faultPage files vm pid as c = .ok (vm', as') →
      vmFault files vm pid (some as) ty addr = .ok (vm', some as', .returned none) :=
    fun heq => (vmFault_returned_iff hty).2 ⟨c, hok, hloc, heq⟩
  have hcontents : FaultContents files vm pid as c := faultPage_contents h hp hbin
  rw [← hfa]
  cases hcontents with
  | hit f vm' hm haddr heq hcm hram =>
    refine .inl ⟨f, hm, ?_⟩
    simp only [mappedBytes, hreturns heq, ← hfa, haddr, Vm.frame, hdiv, hram]
  | loaded f page vm' as' hfresh hobt hpage haddr heq hm hram =>
    refine .inr ⟨hfresh, ?_⟩
    simp only [mappedBytes, hreturns heq, ← hfa, haddr, Vm.frame, hdiv, hram, hpage,
      Function.update_self]
    rfl
  | unplaced page vm' as' hfresh hno hpage haddr heq hcm hram =>
    refine .inr ⟨hfresh, ?_⟩
    simp only [mappedBytes, hreturns heq, ← hfa, haddr, Vm.frame, Nat.zero_div, hram, hpage,
      Function.update_self]
    rfl
  | swapFull hfresh hno haddr heq =>
    refine .inr ⟨hfresh, ?_⟩
    simp only [mappedBytes, ← hfa, haddr]
    split
    · next heq' => cases heq'
    · rfl
  | crash old e hfresh _ hpage heq =>
    have hnone : mappedBytes files vm pid as ty addr = none := by
      unfold mappedBytes
      split
      · next hret _ =>
        obtain ⟨c', -, hloc', hfault⟩ := (vmFault_returned_iff hty).1 hret
        cases hloc.symm.trans hloc'
        cases heq.symm.trans hfault
      · rfl
    refine .inr ⟨hfresh, ?_⟩
    rw [hnone]
    cases faultPaddr vm pid c.fa with
    | error _ => rfl
    | ok paddr => simp only [loadedPage_error hpage]; rfl

theorem mappedBytes_obtained {f : Nat} {page : Page} (h : TableInv vm.cm q) (hp : 0 < pid)
    (hbin : as.Binary) (hty : ty = .VM_FAULT_READ ∨ ty = .VM_FAULT_WRITE) (hok : as.checked.isOk)
    (hloc : as.locate (pageOf addr) = some c) (hfresh : ∀ g, ¬ vm.cm.Maps pid (pageOf addr) g)
    (hobt : vm.Obtains f) (hpage : loadedPage files vm.swap pid as c (vm.ram f) = .ok page) :
    mappedBytes files vm pid as ty addr = some page := by
  rcases mappedBytes_eq files h hp hbin hty hok hloc with ⟨g, hg, -⟩ | ⟨-, heq⟩
  · exact absurd hg (hfresh g)
  · rcases faultPaddr_spec h hp hfresh with ⟨g, hg, haddr⟩ | ⟨hno, -⟩
    · obtain rfl := hobt.unique hg
      have hdiv : f * PAGE_SIZE / PAGE_SIZE = f := Nat.mul_div_cancel f (by decide)
      simp only [heq, haddr, Vm.frame, hdiv, hpage]
      rfl
    · exact absurd hobt (hno f)

/-! ## When nothing is left behind -/

section Agree

variable {vm' : Vm}

theorem AgreeFor.own_frame {f : Nat} (ha : AgreeFor pid vm vm') (hm : vm.cm.Maps pid v f) :
    vm'.ram f = vm.ram f :=
  ha.2 f (fun hfree => hfree.2.1 hm.1) fun _ _ hw => hw.2.1.symm.trans hm.2.1

theorem AgreeFor.frame_zero (ha : AgreeFor pid vm vm') (h : TableInv vm.cm q) :
    vm'.ram 0 = vm.ram 0 :=
  ha.2 0 (fun hfree => h.freeFrame_ne_zero hfree rfl) fun _ _ hw =>
    absurd rfl (h.user_ne_zero hw.1)

/-- The load of a fault that does not leak is the same in both runs. -/
theorem AgreeFor.loadedPage_eq {paddr : Nat} (ha : AgreeFor pid vm vm') (h : TableInv vm.cm q)
    (hp : 0 < pid) (hok : as.checked.isOk) (hloc : as.locate v = some c)
    (hfresh : ∀ g, ¬ vm.cm.Maps pid v g) (hno : ¬ Leaks files vm pid as v)
    (haddr : faultPaddr vm pid v = .ok paddr) :
    loadedPage files vm.swap pid as c (vm'.frame paddr)
      = loadedPage files vm.swap pid as c (vm.frame paddr) := by
  by_cases hk : KeepsOld files vm.swap pid as c
  · -- then the frame is the process's own, or frame 0
    have hsame : vm'.ram (paddr / PAGE_SIZE) = vm.ram (paddr / PAGE_SIZE) := by
      rcases faultPaddr_spec h hp hfresh with ⟨f, hobt, hf⟩ | ⟨-, hzero | ⟨e, herr⟩⟩
      · cases haddr.symm.trans hf
        rw [Nat.mul_div_cancel f (by decide)]
        refine ha.2 f (fun hfree => ?_) (fun p w hw => ?_)
        · exact hno ⟨hok, c, f, hloc, hfresh, hobt, .inl hfree, hk⟩
        · by_contra hne
          exact hno ⟨hok, c, f, hloc, hfresh, hobt, .inr ⟨p, w, hw, hne⟩, hk⟩
      · cases haddr.symm.trans hzero
        exact ha.frame_zero h
      · cases haddr.symm.trans herr
    unfold Vm.frame
    rw [hsame]
  · exact loadedPage_congr hk _ _

theorem noResidue_of_not_leaks (h : TableInv vm.cm q) (hp : 0 < pid) (hbin : as.Binary)
    (hty : ty = .VM_FAULT_READ ∨ ty = .VM_FAULT_WRITE)
    (hno : ¬ Leaks files vm pid as (pageOf addr)) : NoResidue files vm pid as ty addr := by
  intro vm' ha
  by_cases hfound : as.checked.isOk ∧ ∃ c, as.locate (pageOf addr) = some c
  · obtain ⟨hok, c, hloc⟩ := hfound
    have hcm : vm'.cm = vm.cm := by rw [ha.1]
    have hswap : vm'.swap = vm.swap := by rw [ha.1]
    have haddr : faultPaddr vm' pid (pageOf addr) = faultPaddr vm pid (pageOf addr) := by
      rw [ha.1, faultPaddr_ram]
    have hbytes := mappedBytes_eq files h hp hbin hty hok hloc
    have hbytes' := mappedBytes_eq files (hcm ▸ h : TableInv vm'.cm q) hp hbin hty hok hloc
    rw [hcm, hswap, haddr] at hbytes'
    rcases hbytes with ⟨f, hm, heq⟩ | ⟨hfresh, heq⟩
    · rcases hbytes' with ⟨g, hg, heq'⟩ | ⟨hfresh, -⟩
      · obtain rfl := h.rep.maps_unique hm hg
        rw [heq, heq', ha.own_frame hm]
      · exact absurd hm (hfresh f)
    · rcases hbytes' with ⟨g, hg, -⟩ | ⟨-, heq'⟩
      · exact absurd hg (hfresh g)
      · rw [heq, heq']
        cases hpaddr : faultPaddr vm pid (pageOf addr) with
        | error e => rfl
        | ok paddr =>
          exact congrArg Except.toOption (ha.loadedPage_eq h hp hok hloc hfresh hno hpaddr)
  · rw [mappedBytes_none hty hfound, mappedBytes_none hty hfound]

/-- A fault that leaks shows a byte that is not the process's own. -/
theorem Leaks.residue (h : TableInv vm.cm q) (hp : 0 < pid) (hbin : as.Binary)
    (hty : ty = .VM_FAULT_READ ∨ ty = .VM_FAULT_WRITE)
    (hleak : Leaks files vm pid as (pageOf addr)) : ¬ NoResidue files vm pid as ty addr := by
  obtain ⟨hok, c, f, hloc, hfresh, hobt, howner, hk⟩ := hleak
  obtain ⟨o, ho⟩ := loadedPage_keeps hk
  let vm' : Vm := { vm with ram := Function.update vm.ram f fun o => vm.ram f o + 1 }
  have hram : vm'.ram f = fun o => vm.ram f o + 1 := Function.update_self ..
  have ha : AgreeFor pid vm vm' := by
    refine ⟨rfl, fun g hfree hpid => Function.update_of_ne ?_ ..⟩
    rintro rfl
    rcases howner with hf | ⟨p, w, hm, hne⟩
    · exact hfree hf
    · exact hne (hpid p w hm)
  intro hsame
  obtain ⟨page, hpage, hbyte⟩ := ho (vm.ram f)
  obtain ⟨page', hpage', hbyte'⟩ := ho (vm'.ram f)
  have hone : mappedBytes files vm pid as ty addr = some page :=
    mappedBytes_obtained h hp hbin hty hok hloc hfresh hobt hpage
  have htwo : mappedBytes files vm' pid as ty addr = some page' :=
    mappedBytes_obtained h hp hbin hty hok hloc hfresh hobt hpage'
  have hbytes : some page' = some page := htwo.symm.trans ((hsame vm' ha).trans hone)
  obtain rfl := Option.some.inj hbytes
  rw [hbyte, hram] at hbyte'
  have hnat := congrArg UInt8.toNat hbyte'
  simp only [UInt8.toNat_add, UInt8.toNat_one] at hnat
  have hlt := (vm.ram f o).toNat_lt
  omega

end Agree

/-- What the process sees does not depend on the previous owner of the frame exactly if its page is
    resident, or cannot get a frame, or gets one of its own, or is loaded in full. -/
theorem noResidue_iff (h : TableInv vm.cm q) (hp : 0 < pid) (hbin : as.Binary)
    (hty : ty = .VM_FAULT_READ ∨ ty = .VM_FAULT_WRITE) :
    NoResidue files vm pid as ty addr ↔ ¬ Leaks files vm pid as (pageOf addr) :=
  ⟨fun hsame hleak => hleak.residue h hp hbin hty hsame, noResidue_of_not_leaks h hp hbin hty⟩

/-- A page of the stack is cleared when it is first touched. -/
theorem noResidue_stack :
    NoResidue (fun _ => smallElf 4) oneFrame 2 (smallSpace 4) .VM_FAULT_WRITE 0x7ffff000 := by
  have hruns := (smallSpace_spec 4 (.inr rfl)).1
  refine (noResidue_iff oneFrame_boots.tableInv (by decide)
    (fun c => .inl (smallSpace_flag hruns c)) (.inr rfl)).2 ?_
  rintro ⟨-, c, f, hloc, -, -, -, hk⟩
  have hc : (smallSpace 4).locate (pageOf 0x7ffff000) = some ⟨0x7ffff000, .segstack, 17⟩ := by
    decide +kernel
  obtain rfl : ⟨0x7ffff000, .segstack, 17⟩ = c := Option.some.inj (hc.symm.trans hloc)
  have hstack : (smallSpace 4).stackseg ⟨0x7ffff000, .segstack, 17⟩ = true := by decide +kernel
  rcases hk with ⟨hflag, -⟩ | ⟨-, hnot, -⟩
  · rw [smallSpace_flag hruns] at hflag
    cases hflag
  · rw [hstack] at hnot
    cases hnot

/-- The executable has four bytes of code, and the rest of the page shows what was in the frame. -/
theorem residue_behind_code : Boots oneFrame ∧
    ¬ NoResidue (fun _ => smallElf 4) oneFrame 2 (smallSpace 4) .VM_FAULT_READ 0x400000 := by
  obtain ⟨hruns, -, hok, hloc, hstack, hsrc⟩ := smallSpace_spec 4 (.inr rfl)
  have hobt : oneFrame.Obtains 31 := obtains_of_getfreeframes oneFrame_boots.tableInv rfl
  have hfree : oneFrame.cm.FreeFrame 31 := by
    rcases hobt with ⟨hfree, -⟩ | ⟨-, hfv, -⟩
    · exact hfree
    · exact absurd hfv (by decide)
  have hkeeps : KeepsOld (fun _ => smallElf 4) oneFrame.swap 2 (smallSpace 4) codePage := by
    refine .inr ⟨?_, hstack, _, _, hsrc, by decide +kernel⟩
    rw [smallSpace_flag hruns]
    decide
  refine ⟨oneFrame_boots, Leaks.residue oneFrame_boots.tableInv (by decide)
    (fun c => .inl (smallSpace_flag hruns c)) (.inl rfl) ?_⟩
  exact ⟨hok, codePage, 31, hloc, oneFrame_fresh 2 _, hobt, .inl hfree, hkeeps⟩

end DemandPaging
