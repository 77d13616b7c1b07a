import Sp18.Kernel.ContextSwitch

/-!
# The outcomes of an event

An event ends in one of four ways (`outcome_step`): a program starts on the CPU, a child ends and
the process that waits for it goes on, the scheduler goes on with the active process of the next
terminal, or the running process keeps the CPU. The first three are preceded by the part of the
event that concerns the running process only (`prepare`): its files are closed and its pid becomes
free, or its registers are saved. What a property of all runs needs to know about an event is said
here once.
-/

set_option autoImplicit false
set_option relaxedAutoImplicit false

namespace Sp18.Kernel

namespace Machine

/-- The event starts a program: one that the running process executes, a shell in place of a base
shell that ends, or the shell of a terminal that has none. -/
def Launches (s : Machine) : KernelEvent → Prop
  | .execute isExe _ _ => isExe = true ∧ ∃ pid < maxRunningProcesses, s.pidArr pid = false
  | .halt _ _ => s.running.pid ≤ thirdShell
  | .exception _ _ => s.running.pid ≤ thirdShell
  | .tick _ _ _ => s.pidArr 1 = false ∨ s.pidArr 2 = false
  | _ => False

/-- The event ends the running process, a child. -/
def EndsChild (s : Machine) : KernelEvent → Prop
  | .halt _ _ => thirdShell < s.running.pid
  | .exception _ _ => thirdShell < s.running.pid
  | _ => False

/-- The event is a timer interrupt with all shells started. -/
def Resumes (s : Machine) : KernelEvent → Prop
  | .tick _ _ _ => s.pidArr 1 = true ∧ s.pidArr 2 = true
  | _ => False

instance (s : Machine) (event : KernelEvent) : Decidable (s.Launches event) :=
  match event with
  | .execute isExe _ _ => inferInstanceAs
      (Decidable (isExe = true ∧ ∃ pid < maxRunningProcesses, s.pidArr pid = false))
  | .halt _ _ => inferInstanceAs (Decidable (s.running.pid ≤ thirdShell))
  | .exception _ _ => inferInstanceAs (Decidable (s.running.pid ≤ thirdShell))
  | .tick _ _ _ => inferInstanceAs (Decidable (s.pidArr 1 = false ∨ s.pidArr 2 = false))
  | .switchTerminal _ => instDecidableFalse
  | .vidmap _ => instDecidableFalse

instance (s : Machine) (event : KernelEvent) : Decidable (s.Resumes event) :=
  match event with
  | .execute _ _ _ => instDecidableFalse
  | .halt _ _ => instDecidableFalse
  | .exception _ _ => instDecidableFalse
  | .tick _ _ _ => inferInstanceAs (Decidable (s.pidArr 1 = true ∧ s.pidArr 2 = true))
  | .switchTerminal _ => instDecidableFalse
  | .vidmap _ => instDecidableFalse

/-- The part of an event before the CPU changes hands. -/
def prepare (s : Machine) : KernelEvent → Machine
  | .halt _ _ => s.closeAll.releasePid
  | .exception messages _ =>
    { messages.foldl Machine.write s with isrRet := excepRet }.closeAll.releasePid
  | .tick esp ebp _ => s.nextTask (s.current + (esp : ℕ)) ebp
  | _ => s

/-- The part of `do_halt` that ends a child, but for the value that it hands to the call. -/
def endChild (s : Machine) : Machine :=
  { s.restoreParent.setVidMapFlag s.running.onTerm false with
    current := (s.execFrames s.running.pid).caller }

/-- How an event ends in the state `s'`. -/
inductive Outcome (s : Machine) (event : KernelEvent) (s' : Machine) : Prop
  | launch (h : s.Launches event) {pid : ℕ} (hlt : pid < maxRunningProcesses)
      (hfree : (s.prepare event).pidArr pid = false) (args : ℕ → UInt8) (tmp : Pcb)
      (hstep : s' = (s.prepare event).startProgram pid args tmp)
  | endChild (h : s.EndsChild event) (hstep : s' = (s.prepare event).endChild)
  | resume (h : s.Resumes event) (hstep : s' = (s.prepare event).resumeTask)
  | stay (hlaunch : ¬ s.Launches event) (hend : ¬ s.EndsChild event) (hresume : ¬ s.Resumes event)
      (hprepare : s.prepare event = s) (console : Console)
      (hactive : console.tasks.activePid = s.console.tasks.activePid)
      (hstep : s' = { s with console := console })

theorem Launches.not_endsChild {s : Machine} {event : KernelEvent} (h : s.Launches event) :
    ¬ s.EndsChild event := by
  intro hend
  cases event with
  | halt status tmp => exact absurd hend (Nat.not_lt.mpr h)
  | exception messages tmp => exact absurd hend (Nat.not_lt.mpr h)
  | _ => exact hend

theorem Resumes.not_launches {s : Machine} {event : KernelEvent} (h : s.Resumes event) :
    ¬ s.Launches event := by
  intro hlaunch
  cases event with
  | tick esp ebp tmp =>
    rcases hlaunch with hsecond | hthird
    · simp [h.1] at hsecond
    · simp [h.2] at hthird
  | _ => exact h

theorem Resumes.not_endsChild {s : Machine} {event : KernelEvent} (h : s.Resumes event) :
    ¬ s.EndsChild event := by
  cases event with
  | tick esp ebp tmp => exact id
  | _ => exact h.elim

theorem EndsChild.child {s : Machine} {event : KernelEvent} (h : s.EndsChild event) :
    thirdShell < s.running.pid := by
  cases event with
  | halt status tmp => exact h
  | exception messages tmp => exact h
  | _ => exact h.elim

variable (s : Machine)

/-- What `prepare` leaves alone: all but the console's text, `isr_ret`, and the files, the saved
registers and the pid of the running process. -/
structure Prepared (s s' : Machine) : Prop where
  pcbs : ∃ pcb : Pcb, s'.pcbs = Function.update s.pcbs s.current pcb ∧
    pcb.pid = s.running.pid ∧ pcb.onTerm = s.running.onTerm ∧ pcb.parent = s.running.parent
  current : s'.current = s.current
  execFrames : s'.execFrames = s.execFrames
  calls : s'.calls = s.calls
  tasks : s'.console.tasks = s.console.tasks
  pidArr : ∀ pid, s'.pidArr pid = true → s.pidArr pid = true

namespace Prepared

variable {s} {s' : Machine}

/-- No process gets another pid, terminal or parent. -/
theorem pcb_eq (h : Prepared s s') (a : ℤ) : (s'.pcbs a).pid = (s.pcbs a).pid ∧
    (s'.pcbs a).onTerm = (s.pcbs a).onTerm ∧ (s'.pcbs a).parent = (s.pcbs a).parent := by
  obtain ⟨pcb, hpcbs, hpid, hterm, hparent⟩ := h.pcbs
  rw [hpcbs]
  by_cases ha : a = s.current
  · subst ha
    simpa using ⟨hpid, hterm, hparent⟩
  · simp [ha]

theorem running_eq (h : Prepared s s') : s'.running.pid = s.running.pid ∧
    s'.running.onTerm = s.running.onTerm ∧ s'.running.parent = s.running.parent := by
  rw [running, h.current]
  exact h.pcb_eq s.current

theorem activePid_eq (h : Prepared s s') : s'.activePid = s.activePid :=
  congrArg Console.TaskView.activePid h.tasks

end Prepared

theorem prepared_halt : Prepared s s.closeAll.releasePid := by
  obtain ⟨fdArr, hclosed⟩ := s.closeAll_eq
  rw [hclosed]
  refine ⟨⟨_, rfl, rfl, rfl, rfl⟩, rfl, rfl, rfl, rfl, fun pid hused ↦ ?_⟩
  have hreleased : Function.update s.pidArr s.running.pid false pid = true := by
    simpa [releasePid, running, setPcb] using hused
  by_cases hsame : pid = s.running.pid
  · simp [hsame] at hreleased
  · simpa [hsame] using hreleased

theorem prepared (event : KernelEvent) : Prepared s (s.prepare event) := by
  have hself : ∃ pcb : Pcb, s.pcbs = Function.update s.pcbs s.current pcb ∧
      pcb.pid = s.running.pid ∧ pcb.onTerm = s.running.onTerm ∧ pcb.parent = s.running.parent :=
    ⟨s.running, (Function.update_eq_self _ _).symm, rfl, rfl, rfl⟩
  cases event with
  | halt status tmp => exact s.prepared_halt
  | exception messages tmp =>
    obtain ⟨console, hwrites, htasks⟩ := s.writes_eq messages
    have h := prepared_halt { s with console := console, isrRet := excepRet }
    simp only [prepare, hwrites]
    exact ⟨h.pcbs, h.current, h.execFrames, h.calls, h.tasks.trans htasks, h.pidArr⟩
  | tick esp ebp tmp => exact ⟨⟨_, rfl, rfl, rfl, rfl⟩, rfl, rfl, rfl, rfl, fun _ h ↦ h⟩
  | _ => exact ⟨hself, rfl, rfl, rfl, rfl, fun _ h ↦ h⟩

theorem outcome_doHalt (status : UInt8) (tmp : Pcb) :
    (∃ pid < maxRunningProcesses, s.running.pid ≤ thirdShell ∧
      s.closeAll.releasePid.pidArr pid = false ∧
      (s.doHalt status tmp).1 = s.closeAll.releasePid.startProgram pid (fun _ ↦ 0) tmp) ∨
    thirdShell < s.running.pid ∧ (s.doHalt status tmp).1 = s.closeAll.releasePid.endChild := by
  rcases lt_or_ge thirdShell s.running.pid with hchild | hshell
  · refine Or.inr ⟨hchild, ?_⟩
    obtain ⟨fdArr, hrunning⟩ := s.running_releasePid
    rw [doHalt_child s hchild, endChild, hrunning]
    rfl
  · obtain ⟨pid, hlt, hfree, -, hstart⟩ := s.doHalt_restart hshell status tmp
    exact Or.inl ⟨pid, hlt, hshell, hfree, by rw [hstart]⟩

/-- Every event ends in one of the four ways. -/
theorem outcome_step (event : KernelEvent) : s.Outcome event (s.step event) := by
  cases event with
  | execute isExe args tmp =>
    rcases s.doExecute_cases isExe args tmp with
      ⟨console, value, htasks, hall, hreturn⟩ | ⟨hexe, pid, hlt, hfree, -, hstart⟩
    · refine .stay ?_ id id rfl console (by rw [htasks]) (congrArg Prod.fst hreturn)
      rintro ⟨hexe, pid, hlt, hfree⟩
      rw [hall hexe pid hlt] at hfree
      cases hfree
    · exact .launch ⟨hexe, pid, hlt, hfree⟩ hlt hfree args tmp (congrArg Prod.fst hstart)
  | halt status tmp =>
    rcases s.outcome_doHalt status tmp with ⟨pid, hlt, hshell, hfree, hstep⟩ | ⟨hchild, hstep⟩
    · exact .launch hshell hlt hfree _ tmp hstep
    · exact .endChild hchild hstep
  | exception messages tmp =>
    have hpid : { messages.foldl Machine.write s with isrRet := excepRet }.running.pid =
        s.running.pid := by
      obtain ⟨console, hwrites, -⟩ := s.writes_eq messages
      rw [hwrites]
      rfl
    rcases { messages.foldl Machine.write s with isrRet := excepRet }.outcome_doHalt 0 tmp with
      ⟨pid, hlt, hshell, hfree, hstep⟩ | ⟨hchild, hstep⟩
    · rw [hpid] at hshell
      exact .launch hshell hlt hfree _ tmp hstep
    · rw [hpid] at hchild
      exact .endChild hchild hstep
  | tick esp ebp tmp =>
    by_cases hmissing : s.pidArr 1 = false ∨ s.pidArr 2 = false
    · obtain ⟨pid, hlt, hfree, -, hstart⟩ :=
        s.schedule_start hmissing (s.current + (esp : ℕ)) ebp tmp
      exact .launch hmissing hlt hfree _ tmp hstart
    · obtain ⟨hsecond, hthird⟩ := not_or.mp hmissing
      rw [Bool.not_eq_false] at hsecond hthird
      exact .resume ⟨hsecond, hthird⟩ (s.schedule_resume hsecond hthird _ ebp tmp)
  | switchTerminal termDest =>
    have htasks := s.console.tasks_switchTerminal s.current termDest
    exact .stay id id id rfl _ (by rw [htasks]) rfl
  | vidmap screenStart =>
    by_cases hscreen : screenStart < 134217728 ∨ screenStart > 138412032
    · refine .stay id id id rfl s.console rfl ?_
      simp only [step, doVidmap, if_pos hscreen]
    · refine .stay id id id rfl { (s.setVidMapFlag s.running.onTerm true).console with
        userVidmemPageTable0 := videoMemory + 7 } (s.activePid_setVidMapFlag _ true) ?_
      simp only [step, doVidmap, if_neg hscreen]
      rfl

/-- What starting a program does to the PCBs and to the active processes. -/
theorem startProgram_cases (pid : ℕ) (args : ℕ → UInt8) (tmp : Pcb) :
    ∃ (pcb : Pcb) (t : Fin 3), pcb.pid = pid ∧ pcb.onTerm = t ∧ pcb.kernelStack = stackTop pid ∧
      (thirdShell < pid → pcb.parent = s.current ∧ t = s.console.currTerminal) ∧
      (pid ≤ thirdShell → (t : ℕ) = pid) ∧
      s.startProgram pid args tmp = { s.setActivePid t pid with
        pcbs := Function.update s.pcbs (pcbAddr pid) pcb
        pidArr := Function.update s.pidArr pid true
        pageDirectory32 := userPage pid
        tssEsp0 := stackTop pid
        isrRet := 0
        execFrames := Function.update s.execFrames pid ⟨s.current, s.calls⟩
        calls := s.calls + 1
        current := pcbAddr pid } := by
  rcases lt_or_ge thirdShell pid with hchild | hshell
  · obtain ⟨pcb, hpid, hterm, hparent, hstack, hstart⟩ := s.startProgram_child hchild args tmp
    exact ⟨pcb, s.console.currTerminal, hpid, hterm, hstack, fun _ ↦ ⟨hparent, rfl⟩,
      fun hshell ↦ absurd hchild (Nat.not_lt.mpr hshell), hstart⟩
  · obtain ⟨t, rfl⟩ : ∃ t : Fin 3, pid = t := ⟨⟨pid, by unfold thirdShell at hshell; omega⟩, rfl⟩
    obtain ⟨pcb, hpid, hterm, -, hstack, hstart⟩ := s.startProgram_shell t args tmp
    exact ⟨pcb, t, hpid, hterm, hstack, fun hchild ↦ absurd hchild (Nat.not_lt.mpr hshell),
      fun _ ↦ rfl, hstart⟩

/-- What the last part of `schedule` does. -/
theorem resumeTask_eq : s.resumeTask = { s with
    console := { s.console with
      userVidmemPageTable0 :=
        if s.vidMapFlag s.running.onTerm = true then s.vidmemEntry s.running.onTerm
        else s.console.userVidmemPageTable0 }
    pageDirectory32 := userPage s.curPid
    tssEsp0 := stackTop s.curPid
    current := pcbAddr s.curPid } := by
  by_cases hflag : s.vidMapFlag s.running.onTerm = true
  · rw [if_pos hflag]
    simp only [resumeTask]
    rw [if_pos (by exact hflag)]
    rfl
  · rw [if_neg hflag]
    simp only [resumeTask]
    rw [if_neg (by exact hflag)]

@[simp] theorem isrRet_startProgram (pid : ℕ) (args : ℕ → UInt8) (tmp : Pcb) :
    (s.startProgram pid args tmp).isrRet = 0 := rfl

@[simp] theorem isrRet_resumeTask : s.resumeTask.isrRet = s.isrRet := by
  rw [resumeTask_eq]

@[simp] theorem execFrames_resumeTask : s.resumeTask.execFrames = s.execFrames := by
  rw [resumeTask_eq]

end Machine

end Sp18.Kernel
