import DemandPaging.Machine.Moves
import DemandPaging.Machine.Outcome

set_option autoImplicit false

/-! # Quiet states

An action moves only the process it is about. In particular, a system in which nobody is asleep
stays so until somebody goes to sleep, and every action is calm there. Concrete runs are replayed
on a small system with two frames for user pages. -/

namespace DemandPaging

variable {s s' : Sys} {w : Option TlbWrite}

/-! ## The process an action is about -/

/-- The process an action is about. -/
def Action.actor : Action → Option Int
  | .fault pid _ _ => some pid
  | .io pid => some pid
  | .resume pid => some pid
  | .store pid _ _ => some pid
  | .exit pid => some pid
  | .reap pid => some pid
  | .newProc pid _ => some pid
  | .kalloc _ => none
  | .kfree _ => none
  | .kstore _ _ _ => none

/-- `s'` differs from `s` in at most the process `pid`. -/
def OnlyMoves (pid : Int) (s s' : Sys) : Prop := ∀ p, p ≠ pid → s'.procs p = s.procs p

theorem onlyMoves_put (s : Sys) (vm : Vm) (pid : Int) (as : AddrSpace) (pc : Pc) :
    OnlyMoves pid s (s.put vm pid as pc) :=
  fun _ hp => Function.update_of_ne hp _ _

theorem FaultOutcome.onlyMoves {t : Tlb} {pid : Int} {c : FaultCtx}
    (h : FaultOutcome s t pid c s' w) : OnlyMoves pid s s' := by
  cases h with
  | ends => exact onlyMoves_put _ _ _ _ _
  | sleeps => exact onlyMoves_put _ _ _ _ _

theorem onlyMoves_execExit (s : Sys) (pid : Int) : OnlyMoves pid s (s.execExit pid) := by
  intro p hp
  unfold Sys.execExit
  split
  · exact Function.update_of_ne hp _ _
  · rfl

theorem exec_onlyMoves {a : Action} (h : s.exec a = .ok (s', w)) (p : Int)
    (hp : a.actor ≠ some p) : s'.procs p = s.procs p := by
  have hne : ∀ {pid : Int}, a.actor = some pid → p ≠ pid :=
    fun ha hpp => hp (hpp ▸ ha)
  cases a with
  | fault pid t addr =>
    rcases exec_fault_outcome h with ⟨-, rfl | rfl⟩ | ⟨as, c, -, -, -, hout⟩
    · rfl
    · exact onlyMoves_execExit s pid p (hne rfl)
    · exact hout.onlyMoves p (hne rfl)
  | io pid =>
    cases h
    show (s.execIo pid).procs p = s.procs p
    unfold Sys.execIo
    split
    · exact onlyMoves_put s _ pid _ _ p (hne rfl)
    · exact onlyMoves_put s _ pid _ _ p (hne rfl)
    · rfl
  | resume pid =>
    rcases execResume_outcome h with ⟨rfl, -⟩ | ⟨proc, c, -, -, hout⟩
    · rfl
    · exact hout.onlyMoves p (hne rfl)
  | store pid addr b =>
    cases h
    show (s.execStore pid addr b).procs p = s.procs p
    unfold Sys.execStore
    split
    · split <;> rfl
    · rfl
  | exit pid =>
    cases h
    exact onlyMoves_execExit s pid p (hne rfl)
  | reap pid =>
    simp only [Sys.exec, Sys.execReap] at h
    split at h
    · split at h
      · cases h
      · cases h
        exact Function.update_of_ne (hne rfl) _ _
    · cases h
      rfl
  | newProc pid layout =>
    cases h
    show (s.execNewProc pid layout).procs p = s.procs p
    unfold Sys.execNewProc
    split
    · exact Function.update_of_ne (hne rfl) _ _
    · rfl
  | kalloc n =>
    simp only [Sys.exec] at h
    split at h <;> (cases h; rfl)
  | kfree i =>
    simp only [Sys.exec, Sys.execKfree] at h
    split at h
    · split at h
      · cases h
      · cases h
        rfl
    · cases h
      rfl
  | kstore i k page =>
    cases h
    show (s.execKstore i k page).procs p = s.procs p
    unfold Sys.execKstore
    split <;> rfl

/-! ## Quiet states -/

/-- Nobody is inside `vm_fault`. -/
def Sys.Quiet (s : Sys) : Prop := ∀ p proc, s.procs p = some proc → proc.pc.asleep = false

theorem Pc.eviction_of_awake {pc : Pc} (h : pc.asleep = false) : pc.eviction = none := by
  cases pc <;> first | rfl | cases h

theorem Sys.Quiet.not_busy {p : Int} {v : VAddr} (h : s.Quiet) : ¬ Busy s.procs p v := by
  intro hb
  obtain ⟨proc, hp, hl⟩ := hb
  exact absurd (Pc.asleep_of_loads hl) (by rw [h p proc hp]; decide)

theorem Sys.Quiet.calm (h : s.Quiet) (a : Action) : Calm s a where
  alone _ _ _ p proc hp := Pc.eviction_of_awake (h p proc hp)
  loaded _ _ _ proc hp c r hl hw := h.not_busy ⟨proc, hp, c, r, hl, hw⟩
  kept p _ pid proc ev hp he := by
    rw [Pc.eviction_of_awake (h pid proc hp)] at he
    cases he

theorem Sys.Quiet.unraced (h : s.Quiet) (a : Action) : Unraced s a := by
  intro p addr b _ pid as c ev hp
  exact absurd (h pid _ hp) (by simp [Pc.asleep])

/-- The process an action was about is awake. -/
def Sys.actorAwake (s : Sys) (a : Action) : Bool :=
  match a.actor with
  | some pid => match s.procs pid with
    | some proc => !proc.pc.asleep
    | none => true
  | none => true

theorem Sys.Quiet.step {a : Action} (h : s.Quiet) (hexec : s.exec a = .ok (s', w))
    (hawake : s'.actorAwake a = true) : s'.Quiet := by
  intro p proc hp
  by_cases ha : a.actor = some p
  · simpa [Sys.actorAwake, ha, hp] using hawake
  · rw [exec_onlyMoves hexec p ha] at hp
    exact h p proc hp

/-! ## Replaying actions -/

/-- The state after an action that does not crash. -/
def Sys.next (s : Sys) (a : Action) : Option Sys :=
  match s.exec a with
  | .ok r => some r.1
  | .error _ => none

/-- The same for an action that leaves its process awake. -/
def Sys.nextAwake (s : Sys) (a : Action) : Option Sys :=
  match s.next a with
  | some s' => if s'.actorAwake a then some s' else none
  | none => none

theorem next_exec {a : Action} (h : s.next a = some s') : ∃ w, s.exec a = .ok (s', w) := by
  unfold Sys.next at h
  split at h
  · next r hr =>
    cases h
    exact ⟨r.2, hr⟩
  · cases h

theorem Sys.Quiet.nextAwake {a : Action} (h : s.Quiet) (hn : s.nextAwake a = some s') :
    Step s a s' ∧ s'.Quiet := by
  unfold Sys.nextAwake at hn
  split at hn
  · next s₁ hs₁ =>
    split at hn
    · next hawake =>
      cases hn
      obtain ⟨w, hexec⟩ := next_exec hs₁
      exact ⟨⟨w, hexec⟩, h.step hexec hawake⟩
    · cases hn
  · cases hn

/-- A machine with 32 frames, 30 of them in use by the kernel. -/
def twoFrames : Vm :=
  { blank with cm := okOr blank.cm (ptinit blank.cm (32 * 4096) (30 * 4096)) }

/-- One page of code, one page of data, and the stack. -/
def smallLayout : AddrSpace where
  seg1 := some (segdef 0x400000 1 0 (some 0) false RDFLAG 0 EXFLAG)
  seg2 := some (segdef 0x500000 1 4096 (some 0) false RDFLAG WRFLAG 0)
  segstack := some (segdef stackbase STACKPAGES 0 none true RDFLAG WRFLAG 0)

def smallSys : Sys where
  vm := twoFrames
  files := fun _ => []
  procs := fun _ => none

theorem smallSys_initial : smallSys.Initial :=
  ⟨⟨blank.cm, 32 * 4096, 30 * 4096, rfl, rfl, by decide, by decide, rfl⟩, ⟨_, rfl⟩, fun _ => rfl⟩

theorem smallSys_quiet : smallSys.Quiet := fun _ _ h => by cases h

/-- Process 2 fills both frames with stack pages; processes 3 and 4 have no page yet. -/
def fillFrames : List Action :=
  [.newProc 2 smallLayout, .fault 2 .VM_FAULT_WRITE 0x7ffff000, .fault 2 .VM_FAULT_WRITE 0x7fffe000,
    .newProc 3 smallLayout, .newProc 4 smallLayout]

end DemandPaging
