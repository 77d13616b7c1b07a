import Sp18.Kernel.Outcome

/-!
# The stack and the page of a process that gets the CPU

When the CPU goes to a process, `tss.esp0` has to be the top of its kernel stack, where its next
system call starts, and `page_directory[32]` its own frame. A program that starts and a process that
the scheduler takes up get both from their pid. A parent that goes on after its child has ended gets
the first from the field `kernel_stack` of its PCB, which `do_execute` has set to the top of its
stack but in which the scheduler saves `esp` when it interrupts the process. A parent that has been
interrupted since it was started therefore goes on with `tss.esp0` inside its stack
(`handover_exact`).
-/

set_option autoImplicit false
set_option relaxedAutoImplicit false

namespace Sp18.Kernel

open Foundation

namespace Machine

/-- The CPU works for a process with the top of its own kernel stack and its own page. -/
def OnOwnStack (s : Machine) : Prop := ∃ pid,
  s.current = pcbAddr pid ∧ s.tssEsp0 = stackTop pid ∧ s.pageDirectory32 = userPage pid

/-- A process that an event hands the CPU to works on its own stack and page. -/
def HandsOver (s : Machine) (event : KernelEvent) : Prop :=
  s.Launches event ∨ s.EndsChild event ∨ s.Resumes event → (s.step event).OnOwnStack

/-- The first shell has just been started. -/
structure FirstShell (s : Machine) : Prop where
  used : ∀ pid, s.pidArr pid = true ↔ pid = 0
  pid : (s.pcbs (pcbAddr 0)).pid = 0
  kernelStack : (s.pcbs (pcbAddr 0)).kernelStack = stackTop 0
  active : ∀ t : Fin 3, s.activePid t = t
  current : s.current = pcbAddr 0

/-- What is known of the processes that have been started so far, whether they have ended or not. -/
structure Known (s : Machine) (started : ℕ → Prop) : Prop where
  first : started 0
  used : ∀ pid, s.pidArr pid = true → started pid
  pid : ∀ pid, started pid → (s.pcbs (pcbAddr pid)).pid = pid
  waiting : ∀ pid, started pid → thirdShell < pid → ∃ parent, started parent ∧
    (s.pcbs (pcbAddr pid)).parent = pcbAddr parent ∧ (s.execFrames pid).caller = pcbAddr parent
  active : ∀ t : Fin 3, started (s.activePid t) ∨ s.activePid t = t
  current : ∃ pid, started pid ∧ s.current = pcbAddr pid

variable {s : Machine} {started : ℕ → Prop}

theorem FirstShell.known (h : s.FirstShell) : s.Known fun pid ↦ pid = 0 where
  first := rfl
  used pid hused := (h.used pid).mp hused
  pid := by
    rintro pid rfl
    exact h.pid
  waiting := by
    rintro pid rfl hchild
    exact absurd hchild (by decide)
  active t := Or.inr (h.active t)
  current := ⟨0, rfl, h.current⟩

theorem Known.prepared (h : s.Known started) {s' : Machine} (hs' : Prepared s s') :
    s'.Known started where
  first := h.first
  used pid hused := h.used pid (hs'.pidArr pid hused)
  pid pid hpid := ((hs'.pcb_eq _).1).trans (h.pid pid hpid)
  waiting pid hpid hchild := by
    obtain ⟨parent, hparent, hlink, hcaller⟩ := h.waiting pid hpid hchild
    refine ⟨parent, hparent, ?_, ?_⟩
    · rw [(hs'.pcb_eq _).2.2, hlink]
    · rw [hs'.execFrames, hcaller]
  active t := by
    rw [hs'.activePid_eq]
    exact h.active t
  current := by
    rw [hs'.current]
    exact h.current

/-- The program that is started is known from then on. -/
theorem Known.startProgram (h : s.Known started) (pid : ℕ) (args : ℕ → UInt8) (tmp : Pcb) :
    (s.startProgram pid args tmp).Known fun pid' ↦ started pid' ∨ pid' = pid := by
  obtain ⟨pcb, t, hpid, -, -, hchild, -, hstart⟩ := s.startProgram_cases pid args tmp
  obtain ⟨caller, hcaller, hcurrent⟩ := h.current
  rw [hstart]
  refine ⟨Or.inl h.first, fun pid' hused ↦ ?_, fun pid' hpid' ↦ ?_, fun pid' hpid' hchild' ↦ ?_,
    fun t' ↦ ?_, ⟨pid, Or.inr rfl, rfl⟩⟩
  · by_cases hsame : pid' = pid
    · exact Or.inr hsame
    · exact Or.inl (h.used pid' (by simpa [hsame] using hused))
  · by_cases hsame : pid' = pid
    · simp [hsame, hpid]
    · simpa [hsame] using h.pid pid' (hpid'.resolve_right hsame)
  · by_cases hsame : pid' = pid
    · -- the new process waits for nobody; the running one waits for it
      subst hsame
      exact ⟨caller, Or.inl hcaller, by simp [(hchild hchild').1, hcurrent], by simp [hcurrent]⟩
    · obtain ⟨parent, hparent, hlink, hcall⟩ :=
        h.waiting pid' (hpid'.resolve_right hsame) hchild'
      exact ⟨parent, Or.inl hparent, by simpa [hsame] using hlink, by simpa [hsame] using hcall⟩
  · change (started ((s.setActivePid t pid).activePid t') ∨ (s.setActivePid t pid).activePid t' =
      pid) ∨ (s.setActivePid t pid).activePid t' = t'
    rw [activePid_setActivePid]
    by_cases hsame : t' = t
    · exact Or.inl (Or.inr (by simp [hsame]))
    · simpa [hsame] using (h.active t').imp_left Or.inl

/-- The parent of a child that ends, and the process that waits for it, are the same. -/
theorem Known.parent (h : s.Known started) (hchild : thirdShell < s.running.pid) :
    ∃ parent, started parent ∧ s.running.parent = pcbAddr parent ∧
      (s.execFrames s.running.pid).caller = pcbAddr parent ∧
      (s.pcbs s.running.parent).pid = parent := by
  obtain ⟨pid, hpid, hcurrent⟩ := h.current
  have hrunning : s.running.pid = pid := by rw [running, hcurrent, h.pid pid hpid]
  rw [hrunning] at hchild
  obtain ⟨parent, hparent, hlink, hcaller⟩ := h.waiting pid hpid hchild
  have hlink' : s.running.parent = pcbAddr parent := by rw [running, hcurrent, hlink]
  refine ⟨parent, hparent, hlink', by rw [hrunning, hcaller], ?_⟩
  rw [hlink', h.pid parent hparent]

theorem Known.endChild (h : s.Known started) (hchild : thirdShell < s.running.pid) :
    s.endChild.Known started := by
  obtain ⟨parent, hparent, -, hcaller, hpid⟩ := h.parent hchild
  refine ⟨h.first, h.used, h.pid, h.waiting, fun t ↦ ?_, ⟨parent, hparent, hcaller⟩⟩
  have hactive : s.endChild.activePid = Function.update s.activePid s.running.onTerm parent := by
    have hkept := s.restoreParent.activePid_setVidMapFlag s.running.onTerm false
    have hrestored : s.restoreParent.activePid = Function.update s.activePid s.running.onTerm
        (s.pcbs s.running.parent).pid := s.activePid_setActivePid _ _
    rw [← hpid, ← hrestored, ← hkept]
    rfl
  rw [hactive]
  by_cases ht : t = s.running.onTerm
  · subst ht
    exact Or.inl (by simpa using hparent)
  · simpa [ht] using h.active t

theorem Known.resumeTask (h : s.Known started) (hsecond : s.pidArr 1 = true)
    (hthird : s.pidArr 2 = true) (hcur : ∃ t, s.curPid = s.activePid t) :
    s.resumeTask.Known started := by
  rw [resumeTask_eq]
  refine ⟨h.first, h.used, h.pid, h.waiting, h.active, ⟨s.curPid, ?_, rfl⟩⟩
  obtain ⟨t, hcur⟩ := hcur
  rw [hcur]
  rcases h.active t with hstarted | hshell
  · exact hstarted
  · rw [hshell]
    match t with
    | 0 => exact h.first
    | 1 => exact h.used 1 hsecond
    | 2 => exact h.used 2 hthird

/-- The event is a timer interrupt. -/
def IsTick : KernelEvent → Prop
  | .tick _ _ _ => True
  | _ => False

/-- A timer interrupt saves a stack pointer inside the stack of the running process, and no other
event changes a saved stack pointer before the CPU changes hands. -/
theorem kernelStack_prepare (event : KernelEvent) (a : ℤ) :
    (¬ (IsTick event ∧ a = s.current) →
        ((s.prepare event).pcbs a).kernelStack = (s.pcbs a).kernelStack) ∧
      (IsTick event ∧ a = s.current → ∃ esp : Fin 8192,
        ((s.prepare event).pcbs a).kernelStack = s.current + (esp : ℕ)) := by
  have hhalt : ∀ s : Machine, (s.closeAll.releasePid.pcbs a).kernelStack =
      (s.pcbs a).kernelStack := by
    intro s
    obtain ⟨fdArr, hclosed⟩ := s.closeAll_eq
    rw [hclosed]
    by_cases ha : a = s.current
    · subst ha
      simp [releasePid, setPcb, running]
    · simp [releasePid, setPcb, ha]
  cases event with
  | halt status tmp => exact ⟨fun _ ↦ hhalt s, fun h ↦ h.1.elim⟩
  | exception messages tmp =>
    obtain ⟨console, hwrites, -⟩ := s.writes_eq messages
    refine ⟨fun _ ↦ ?_, fun h ↦ h.1.elim⟩
    simp only [prepare, hwrites]
    exact hhalt { s with console := console, isrRet := excepRet }
  | tick esp ebp tmp =>
    refine ⟨fun h ↦ ?_, fun h ↦ ⟨esp, ?_⟩⟩
    · have ha : a ≠ s.current := fun ha ↦ h ⟨trivial, ha⟩
      simp [prepare, nextTask, setPcb, ha]
    · simp [prepare, nextTask, setPcb, h.2]
  | _ => exact ⟨fun _ ↦ rfl, fun h ↦ h.1.elim⟩

/-- What is known stays known, and a program that is started is added. -/
theorem Known.step (h : s.Known started) (event : KernelEvent) :
    (¬ s.Launches event ∧ (s.step event).Known started ∧
        (s.step event).pcbs = (s.prepare event).pcbs) ∨
      ∃ (pid : ℕ) (pcb : Pcb), s.Launches event ∧
        (s.step event).Known (fun pid' ↦ started pid' ∨ pid' = pid) ∧
        (s.step event).current = pcbAddr pid ∧ pcb.kernelStack = stackTop pid ∧
        (s.step event).pcbs = Function.update (s.prepare event).pcbs (pcbAddr pid) pcb := by
  have hprepared := s.prepared event
  have hknown := h.prepared hprepared
  cases s.outcome_step event with
  | @launch hlaunch pid hlt hfree args tmp hstep =>
    obtain ⟨pcb, t, -, -, hstack, -, -, hstart⟩ := (s.prepare event).startProgram_cases pid args tmp
    refine Or.inr ⟨pid, pcb, hlaunch, ?_, ?_, hstack, ?_⟩
    · rw [hstep]
      exact hknown.startProgram pid args tmp
    · rw [hstep, hstart]
    · rw [hstep, hstart]
  | endChild hend hstep =>
    refine Or.inl ⟨fun hlaunch ↦ absurd hend hlaunch.not_endsChild, ?_, by rw [hstep]; rfl⟩
    rw [hstep]
    refine hknown.endChild ?_
    rw [hprepared.running_eq.1]
    exact hend.child
  | resume hresume hstep =>
    refine Or.inl ⟨hresume.not_launches, ?_, by rw [hstep, resumeTask_eq]⟩
    rw [hstep]
    cases event with
    | tick esp ebp tmp =>
      exact hknown.resumeTask hresume.1 hresume.2 ⟨s.termCounter + 1, rfl⟩
    | _ => exact hresume.elim
  | stay hlaunch hend hresume hprepare console hactive hstep =>
    refine Or.inl ⟨hlaunch, ?_, by rw [hstep, hprepare]⟩
    rw [hstep]
    refine ⟨h.first, h.used, h.pid, h.waiting, fun t ↦ ?_, h.current⟩
    change started (console.tasks.activePid t) ∨ console.tasks.activePid t = t
    rw [hactive]
    exact h.active t

end Machine

/-- A machine with the notes of an observer who watches which processes are interrupted. Processes
are known by the address of their PCB. -/
structure Observed where
  machine : Machine
  preempted : ℤ → Prop

namespace Observed

/-- The observer notes the process that a timer interrupt finds on the CPU, and forgets the note
when a program is started in its place. -/
def step (o : Observed) (event : KernelEvent) : Observed where
  machine := o.machine.step event
  preempted a := (o.preempted a ∨ Machine.IsTick event ∧ a = o.machine.current) ∧
    ¬ (o.machine.Launches event ∧ a = (o.machine.step event).current)

/-- A child ends only if its parent has not been interrupted since it was started. -/
def ParentFresh (o : Observed) (event : KernelEvent) : Prop :=
  o.machine.EndsChild event → ¬ o.preempted o.machine.running.parent

/-- The observer's notes are what the fields `kernel_stack` hold. -/
def Accurate (o : Observed) : Prop := ∃ started, o.machine.Known started ∧ ∀ pid, started pid →
  (o.preempted (pcbAddr pid) ↔ (o.machine.pcbs (pcbAddr pid)).kernelStack ≠ stackTop pid)

variable {o : Observed}

theorem Accurate.step (h : o.Accurate) (event : KernelEvent) : (o.step event).Accurate := by
  obtain ⟨started, hknown, hnotes⟩ := h
  -- the interrupt leaves a stack pointer below the top of the stack
  have hprepared : ∀ pid, started pid →
      (o.preempted (pcbAddr pid) ∨ Machine.IsTick event ∧ pcbAddr pid = o.machine.current ↔
        ((o.machine.prepare event).pcbs (pcbAddr pid)).kernelStack ≠ stackTop pid) := by
    intro pid hpid
    obtain ⟨hkept, hsaved⟩ := o.machine.kernelStack_prepare event (pcbAddr pid)
    by_cases htick : Machine.IsTick event ∧ pcbAddr pid = o.machine.current
    · obtain ⟨esp, hesp⟩ := hsaved htick
      refine iff_of_true (Or.inr htick) ?_
      rw [hesp, ← htick.2]
      unfold pcbAddr eightKB
      omega
    · rw [hkept htick, ← hnotes pid hpid]
      exact or_iff_left htick
  rcases hknown.step event with
    ⟨hlaunch, hknown', hpcbs⟩ | ⟨pid, pcb, hlaunch, hknown', hcurrent, hstack, hpcbs⟩
  · refine ⟨started, hknown', fun pid hpid ↦ ?_⟩
    change (_ ∧ _) ↔ ((o.machine.step event).pcbs (pcbAddr pid)).kernelStack ≠ _
    rw [hpcbs, ← hprepared pid hpid]
    exact and_iff_left fun h ↦ hlaunch h.1
  · refine ⟨_, hknown', fun pid' hpid' ↦ ?_⟩
    change (_ ∧ ¬ (_ ∧ pcbAddr pid' = (o.machine.step event).current)) ↔
      ((o.machine.step event).pcbs (pcbAddr pid')).kernelStack ≠ _
    rw [hpcbs, hcurrent, pcbAddr_inj]
    by_cases hsame : pid' = pid
    · subst hsame
      simp [hlaunch, hstack]
    · rw [Function.update_of_ne (pcbAddr_inj.not.mpr hsame),
        ← hprepared pid' (hpid'.resolve_right hsame)]
      exact and_iff_left fun h ↦ hsame h.2

/-- One event hands the CPU over correctly exactly if it ends no child with an interrupted
parent. -/
theorem Accurate.handsOver_iff (h : o.Accurate) (event : KernelEvent) :
    o.machine.HandsOver event ↔ o.ParentFresh event := by
  obtain ⟨started, hknown, hnotes⟩ := h
  have hprepared := o.machine.prepared event
  cases o.machine.outcome_step event with
  | @launch hlaunch pid hlt hfree args tmp hstep =>
    refine iff_of_true (fun _ ↦ ?_) fun hend ↦ absurd hend hlaunch.not_endsChild
    rw [hstep]
    exact ⟨pid, rfl, rfl, rfl⟩
  | endChild hend hstep =>
    have hchild : thirdShell < (o.machine.prepare event).running.pid := by
      rw [hprepared.running_eq.1]
      exact hend.child
    obtain ⟨parent, hparent, hlink, hcaller, hpid⟩ := (hknown.prepared hprepared).parent hchild
    have hnotick : ¬ (Machine.IsTick event ∧ pcbAddr parent = o.machine.current) := by
      rintro ⟨htick, -⟩
      cases event with
      | tick esp ebp tmp => exact hend
      | _ => exact htick
    -- what `do_halt` writes to the TSS is the field of the parent
    have hesp : (o.machine.step event).tssEsp0 =
        (o.machine.pcbs (pcbAddr parent)).kernelStack := by
      rw [← (o.machine.kernelStack_prepare event (pcbAddr parent)).1 hnotick, ← hlink, hstep]
      rfl
    have hcurrent : (o.machine.step event).current = pcbAddr parent := by
      rw [hstep, ← hcaller]
      rfl
    have hpage : (o.machine.step event).pageDirectory32 = userPage parent := by
      rw [hstep]
      exact congrArg userPage hpid
    have hfield : o.ParentFresh event ↔
        (o.machine.pcbs (pcbAddr parent)).kernelStack = stackTop parent := by
      rw [ParentFresh, ← hprepared.running_eq.2.2, hlink, hnotes parent hparent]
      simp [hend]
    rw [hfield, ← hesp]
    constructor
    · intro hhands
      obtain ⟨pid, hcurrent', hesp', -⟩ := hhands (Or.inr (Or.inl hend))
      rw [hcurrent, pcbAddr_inj] at hcurrent'
      rw [hesp', hcurrent']
    · intro hesp' _
      exact ⟨parent, hcurrent, hesp', hpage⟩
  | resume hresume hstep =>
    refine iff_of_true (fun _ ↦ ?_) fun hend ↦ absurd hend hresume.not_endsChild
    rw [hstep, Machine.resumeTask_eq]
    exact ⟨_, rfl, rfl, rfl⟩
  | stay hlaunch hend hresume hprepare console hactive hstep =>
    refine iff_of_true (fun hhands ↦ ?_) fun hend' ↦ absurd hend' hend
    rcases hhands with h | h | h
    · exact absurd h hlaunch
    · exact absurd h hend
    · exact absurd h hresume

end Observed

/-- In a run from the first shell on, every event that hands the CPU to a process does so with the
top of that process's kernel stack and with its own page, exactly if no child ends whose parent has
been interrupted since it was started. -/
theorem handover_exact {s : Machine} (hs : s.FirstShell) (events : List KernelEvent) :
    EveryStep Machine.step Machine.HandsOver s events ↔
      EveryStep Observed.step Observed.ParentFresh ⟨s, fun _ ↦ False⟩ events := by
  have hstep : ∀ (s : Machine) (o : Observed) (event : KernelEvent), o.machine = s ∧ o.Accurate →
      (o.step event).machine = s.step event ∧ (o.step event).Accurate := by
    rintro _ o event ⟨rfl, hnotes⟩
    exact ⟨rfl, hnotes.step event⟩
  have hagree : ∀ (s : Machine) (o : Observed) (event : KernelEvent), o.machine = s ∧ o.Accurate →
      (s.HandsOver event ↔ o.ParentFresh event) := by
    rintro _ o event ⟨rfl, hnotes⟩
    exact hnotes.handsOver_iff event
  have hstart : (⟨s, fun _ ↦ False⟩ : Observed).Accurate := by
    refine ⟨_, hs.known, ?_⟩
    rintro pid rfl
    exact iff_of_false id (not_not.mpr hs.kernelStack)
  have hrel : (⟨s, fun _ ↦ False⟩ : Observed).machine = s ∧
      (⟨s, fun _ ↦ False⟩ : Observed).Accurate := ⟨rfl, hstart⟩
  exact everyStep_simulation hstep hagree hrel events

/-- The first shell has been started on terminal 0. -/
def firstShell : Machine := { baseShells 0 0 with pidArr := fun pid ↦ decide (pid = 0), calls := 1 }

theorem firstShell_spec : firstShell.FirstShell where
  used _ := decide_eq_true_iff
  pid := by rfl
  kernelStack := by rfl
  active _ := rfl
  current := rfl

/-- The exact condition, for a program that the first shell executes at once. -/
theorem handover_exact_firstShell :
    EveryStep Machine.step Machine.HandsOver firstShell [executeProgram, .halt 0 emptyPcb] ↔
      EveryStep Observed.step Observed.ParentFresh ⟨firstShell, fun _ ↦ False⟩
        [executeProgram, .halt 0 emptyPcb] :=
  handover_exact firstShell_spec [executeProgram, .halt 0 emptyPcb]

/-- The timer starts the other two shells and goes back to the first one, which executes a
program. -/
def interruptedShell : Machine := run Machine.step firstShell
  [.tick 8000 0 emptyPcb, .tick 8000 0 emptyPcb, .tick 8000 0 emptyPcb, executeProgram]

/-- When that program halts, the first shell goes on with `tss.esp0` inside its stack. -/
theorem handover_not_always : ¬ ∀ (s : Machine) (events : List KernelEvent), s.FirstShell →
    EveryStep Machine.step Machine.HandsOver s events := by
  intro hall
  obtain ⟨-, -, -, -, hhalt, -⟩ := hall firstShell [.tick 8000 0 emptyPcb, .tick 8000 0 emptyPcb,
    .tick 8000 0 emptyPcb, executeProgram, .halt 0 emptyPcb] firstShell_spec
  have hchild : thirdShell < interruptedShell.running.pid := by decide
  obtain ⟨pid, hcurrent, hesp, -⟩ := hhalt (Or.inr (Or.inl hchild))
  have hparent : (interruptedShell.step (.halt 0 emptyPcb)).current = pcbAddr 0 := by rfl
  have hfield : (interruptedShell.step (.halt 0 emptyPcb)).tssEsp0 = pcbAddr 0 + 8000 := by rfl
  rw [pcbAddr_inj.mp (hcurrent.symm.trans hparent)] at hesp
  exact absurd (hesp.symm.trans hfield) (by decide)

end Sp18.Kernel
