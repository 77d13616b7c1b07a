import Mathlib
import Sp18.Kernel.FileDescriptors
import Sp18.Foundation.StepSystem

/-!
# Execute, halt and schedule

The system calls and interrupt handlers that hand the CPU from one process to another: `do_execute`,
`do_halt`, the exception handlers, `schedule` and, since they write the same variables,
`switch_terminal` and `do_vidmap`. An event is one of them, called by or interrupting the running
process, and runs with interrupts disabled.

`context_setup` leaves `do_execute` in the middle: the call goes on when the program that it has
started halts, on the stack that the context-switch code has kept for it. `do_halt` therefore gives
back, beside the new state, which call of `do_execute` returns and with what value.

What the stacks hold is not part of the state, and they are taken to have room for the calls on
them. A process that `schedule` takes up goes on as if its saved stack pointer led to the call of
`schedule` that has interrupted it; where the process has run since, so that other calls stand
there, this is not so, and the module `SavedContexts` keeps account of that.

The other system calls are no events: they are taken to store to the memory of their caller only.
`do_read` and `do_getargs` check no more of the address that they are given than that it is not
null, and a program that passes the address of a PCB or of a page table to them leaves the model.

What the file system and the uninitialised memory contribute to an event is an argument of it:
whether the command names an executable, the argument string, and the memory in which `do_execute`
builds the new PCB.
-/

set_option autoImplicit false
set_option relaxedAutoImplicit false

namespace Sp18.Kernel

open Foundation

/-- A call of `do_execute` that returns because the program it has started has ended. -/
structure Returned where
  child : ℕ
  call : ℕ
  value : ℤ
  deriving DecidableEq

/-- The number of bytes from a PCB to the top of its stack, for the numerals of `esp`. -/
instance neZero_stack : NeZero 8192 := ⟨by decide⟩

/-- What the kernel reacts to: the calls of `execute`, `halt` and `vidmap`, an exception, the timer
interrupt and the keys that switch the terminal. `tmp` is the memory of the local variable `tmp_pcb`
of `do_execute`, where the event may start a program. A timer interrupt finds the stack pointer
`esp` bytes above the PCB, in the 8 KB that `get_pcb` derives the PCB from. -/
inductive KernelEvent where
  | execute (isExe : Bool) (args : ℕ → UInt8) (tmp : Pcb)
  | halt (status : UInt8) (tmp : Pcb)
  | exception (messages : List String) (tmp : Pcb)
  | tick (esp : Fin 8192) (ebp : ℤ) (tmp : Pcb)
  | switchTerminal (termDest : Fin 3)
  | vidmap (screenStart : ℤ)

/-- The search loop of `do_execute` for a free pid, from `i` on. -/
def findPid (pidArr : ℕ → Bool) (i : ℕ) : ℕ → ℕ
  | 0 => maxRunningProcesses
  | remaining + 1 => if pidArr i = false then i else findPid pidArr (i + 1) remaining

/-- The calls of `close` in `do_halt`. -/
def closeFiles (pcb : Pcb) : ℕ → Pcb
  | 0 => pcb
  | fd + 1 => (doClose fd (closeFiles pcb fd)).2

/-- The PCB that `do_execute` builds from uninitialised memory, but for `parent` and `on_term`. -/
def newPcb (pid : ℕ) (args : ℕ → UInt8) (tmp : Pcb) : Pcb :=
  { initPcb pid tmp with
    buffCopyArg := fun i ↦ strncpy (fun k ↦ tmp.buffCopyArg k.toNat) args (strlen args) i
    kernelStack := stackTop pid }

namespace Machine

/-- The part of `do_execute` that starts a program as process `pid`. -/
def startProgram (s : Machine) (pid : ℕ) (args : ℕ → UInt8) (tmp : Pcb) : Machine :=
  let parent := s.current
  let task := newPcb pid args tmp
  let s := { s with pidArr := Function.update s.pidArr pid true }
  let s :=
    if hchild : pid > thirdShell then
      (s.setActivePid s.console.currTerminal pid).setPcb (pcbAddr pid)
        { task with parent := parent, onTerm := s.console.currTerminal }
    else
      let t : Fin 3 := ⟨pid, by unfold thirdShell at hchild; omega⟩
      (s.setActivePid t pid).setPcb (pcbAddr pid) { task with onTerm := t }
  { s with
    pageDirectory32 := userPage pid
    tssEsp0 := stackTop pid
    isrRet := 0
    execFrames := Function.update s.execFrames pid ⟨parent, s.calls⟩
    calls := s.calls + 1
    current := pcbAddr pid }

/-- `do_execute`: the new state, and the return value of a call that has started no program. -/
def doExecute (s : Machine) (isExe : Bool) (args : ℕ → UInt8) (tmp : Pcb) :
    Machine × Option ℤ :=
  if !isExe then (s, some (-1))
  else
    let pid := findPid s.pidArr 0 maxRunningProcesses
    if pid ≥ maxRunningProcesses then (s.write "Too many processes!\n", some 0)
    else (s.startProgram pid args tmp, none)

/-- The jump to `exec_return` at the end of `do_halt`: the call of `do_execute` that has started
process `pid` goes on with `eax` and returns it, or the exception value if `isr_ret` says so. -/
def execReturn (s : Machine) (pid : ℕ) (eax : ℤ) : Machine × Option Returned :=
  ({ s with current := (s.execFrames pid).caller },
    some ⟨pid, (s.execFrames pid).call, if s.isrRet = excepRet then s.isrRet else eax⟩)

/-- The first part of `do_halt`: the files of the running process are closed. -/
def closeAll (s : Machine) : Machine := s.setPcb s.current (closeFiles s.running 8)

/-- The second part: the pid of the running process becomes free. -/
def releasePid (s : Machine) : Machine :=
  { s with pidArr := Function.update s.pidArr s.running.pid false }

/-- The part of `do_halt` that gives the terminal and the user page back to the parent. -/
def restoreParent (s : Machine) : Machine :=
  let cur := s.running
  let parent := s.pcbs cur.parent
  { s.setActivePid cur.onTerm parent.pid with
    tssEsp0 := parent.kernelStack
    pageDirectory32 := userPage parent.pid }

/-- `do_halt`. A shell of a terminal is started again, and the call that has done so does not
return. -/
def doHalt (s : Machine) (status : UInt8) (tmp : Pcb) : Machine × Option Returned :=
  let s := s.closeAll.releasePid
  let cur := s.running
  if cur.pid > thirdShell then
    (s.restoreParent.setVidMapFlag cur.onTerm false).execReturn cur.pid status.toNat
  else
    let (s, returned) := s.doExecute true (fun _ ↦ 0) tmp
    if returned.isNone then (s, none)
    else (s.setVidMapFlag cur.onTerm false).execReturn cur.pid status.toNat

/-- An exception handler: it prints its messages, notes the exception and halts. -/
def doException (s : Machine) (messages : List String) (tmp : Pcb) : Machine × Option Returned :=
  { messages.foldl Machine.write s with isrRet := excepRet }.doHalt 0 tmp

/-- The page-table entry that `schedule` writes for the task it leaves. -/
def vidmemEntry (s : Machine) (t : Fin 3) : ℤ :=
  if t ≠ s.console.currTerminal then videoMemory + ((t : ℕ) + 1) * fourKB + 7 else videoMemory + 7

/-- The first part of `schedule`: the running process is interrupted with the given `esp` and `ebp`,
and the next terminal has its turn. -/
def nextTask (s : Machine) (esp ebp : ℤ) : Machine :=
  let s := s.setPcb s.current { s.running with kernelStack := esp, kernelBase := ebp }
  let s := { s with termCounter := s.termCounter + 1 }
  { s with curPid := s.activePid s.termCounter }

/-- The last part of `schedule`: the CPU goes to process `cur_pid`, whose `kernel_stack` and
`kernel_base` are loaded into `esp` and `ebp`. The video page of the user is set for the task that
is left. -/
def resumeTask (s : Machine) : Machine :=
  let onTerm := s.running.onTerm
  let s := { s with pageDirectory32 := userPage s.curPid }
  let s := if s.vidMapFlag onTerm = true then
      { s with console := { s.console with userVidmemPageTable0 := s.vidmemEntry onTerm } }
    else s
  { s with tssEsp0 := stackTop s.curPid, current := pcbAddr s.curPid }

/-- `schedule`. A shell that it has started runs at once, and the call does not go on. -/
def schedule (s : Machine) (esp ebp : ℤ) (tmp : Pcb) : Machine :=
  let s := s.nextTask esp ebp
  if s.pidArr 1 = false ∨ s.pidArr 2 = false then
    let (s, returned) := s.doExecute true (fun _ ↦ 0) tmp
    if returned.isNone then s else s.resumeTask
  else s.resumeTask

/-- `switch_terminal` -/
def switchTerminal (s : Machine) (termDest : Fin 3) : Machine :=
  { s with console := s.console.switchTerminal s.current termDest }

/-- `do_vidmap`: the return value and the new state. The four bytes of the address of the mapped
page go to `screen_start`, which may reach behind the page of the user: then the store faults, and
instead of a return the next event is an exception. -/
def doVidmap (s : Machine) (screenStart : ℤ) : Option ℤ × Machine :=
  if screenStart < 134217728 ∨ screenStart > 138412032 then (some (-1), s)
  else
    let s := s.setVidMapFlag s.running.onTerm true
    let s := { s with console := { s.console with userVidmemPageTable0 := videoMemory + 7 } }
    (if screenStart + 4 ≤ 138412032 then some 0 else none, s)

/-- The state after an event. -/
def step (s : Machine) : KernelEvent → Machine
  | .execute isExe args tmp => (s.doExecute isExe args tmp).1
  | .halt status tmp => (s.doHalt status tmp).1
  | .exception messages tmp => (s.doException messages tmp).1
  | .tick esp ebp tmp => s.schedule (s.current + (esp : ℕ)) ebp tmp
  | .switchTerminal termDest => s.switchTerminal termDest
  | .vidmap screenStart => (s.doVidmap screenStart).2

/-- The call of `do_execute` that returns at an event. -/
def returned (s : Machine) : KernelEvent → Option Returned
  | .halt status tmp => (s.doHalt status tmp).2
  | .exception messages tmp => (s.doException messages tmp).2
  | _ => none

/-! ### What the parts of an event do -/

/-- The messages of an exception handler. -/
theorem writes_eq (s : Machine) (messages : List String) :
    ∃ console : Console, messages.foldl Machine.write s = { s with console := console } ∧
      console.tasks = s.console.tasks := by
  induction messages generalizing s with
  | nil => exact ⟨s.console, rfl, rfl⟩
  | cons msg rest ih =>
    obtain ⟨console, hwrites, htasks⟩ := ih (s.write msg)
    refine ⟨console, hwrites, htasks.trans ?_⟩
    exact s.console.tasks_terminalWrite s.current s.running.onTerm 1 _ _

/-- Closing the files changes nothing but `fd_arr`. -/
theorem closeFiles_eq (pcb : Pcb) {count : ℕ} (hcount : count ≤ 8) :
    ∃ fdArr, closeFiles pcb count = { pcb with fdArr := fdArr } := by
  induction count with
  | zero => exact ⟨pcb.fdArr, rfl⟩
  | succ fd ih =>
    obtain ⟨fdArr, hclosed⟩ := ih (by omega)
    rw [closeFiles, hclosed, doClose]
    split_ifs
    · exact ⟨fdArr, rfl⟩
    · exact ⟨fdArr, rfl⟩
    · rw [Pcb.setFileObject, if_neg (by omega)]
      exact ⟨_, rfl⟩

/-- The search for a free pid finds none, or the lowest one. -/
theorem findPid_cases (pidArr : ℕ → Bool) (i remaining : ℕ) :
    (findPid pidArr i remaining = maxRunningProcesses ∧
        ∀ pid, i ≤ pid → pid < i + remaining → pidArr pid = true) ∨
      pidArr (findPid pidArr i remaining) = false ∧ findPid pidArr i remaining < i + remaining ∧
        ∀ pid, i ≤ pid → pid < findPid pidArr i remaining → pidArr pid = true := by
  induction remaining generalizing i with
  | zero => exact Or.inl ⟨rfl, fun pid hlow hhigh ↦ by omega⟩
  | succ remaining ih =>
    rw [findPid]
    split_ifs with hfree
    · exact Or.inr ⟨hfree, by omega, fun pid hlow hhigh ↦ by omega⟩
    · have hused : ∀ pid, i ≤ pid → pid < i + 1 → pidArr pid = true := by
        intro pid hlow hhigh
        obtain rfl : pid = i := by omega
        simpa using hfree
      rcases ih (i + 1) with ⟨hfull, hall⟩ | ⟨hfree', hhigh, hbelow⟩
      · refine Or.inl ⟨hfull, fun pid hlow hlt ↦ ?_⟩
        rcases lt_or_ge pid (i + 1) with hpid | hpid
        · exact hused pid hlow hpid
        · exact hall pid hpid (by omega)
      · refine Or.inr ⟨hfree', by omega, fun pid hlow hlt ↦ ?_⟩
        rcases lt_or_ge pid (i + 1) with hpid | hpid
        · exact hused pid hlow hpid
        · exact hbelow pid hpid hlt

/-- A call of `do_execute` either returns at once and leaves all but the console's text alone, or
starts a program with the lowest free pid. -/
theorem doExecute_cases (s : Machine) (isExe : Bool) (args : ℕ → UInt8) (tmp : Pcb) :
    (∃ (console : Console) (value : ℤ), console.tasks = s.console.tasks ∧
        (isExe = true → ∀ pid < maxRunningProcesses, s.pidArr pid = true) ∧
        s.doExecute isExe args tmp = ({ s with console := console }, some value)) ∨
      isExe = true ∧ ∃ pid < maxRunningProcesses, s.pidArr pid = false ∧
        (∀ pid' < pid, s.pidArr pid' = true) ∧
        s.doExecute isExe args tmp = (s.startProgram pid args tmp, none) := by
  cases isExe with
  | false => exact Or.inl ⟨s.console, -1, rfl, fun h ↦ absurd h (by decide), rfl⟩
  | true =>
    rcases findPid_cases s.pidArr 0 maxRunningProcesses with ⟨hfull, hall⟩ | ⟨hfree, hlt, hbelow⟩
    · refine Or.inl ⟨(s.write "Too many processes!\n").console, 0, ?_,
        fun _ pid hpid ↦ hall pid (Nat.zero_le pid) (by omega), ?_⟩
      · exact s.console.tasks_terminalWrite s.current s.running.onTerm 1 _ _
      · simp only [doExecute, Bool.not_true, Bool.false_eq_true, if_false, hfull, ge_iff_le,
          le_refl, if_true]
        rfl
    · have hroom : ¬ (findPid s.pidArr 0 maxRunningProcesses ≥ maxRunningProcesses) := by omega
      refine Or.inr ⟨rfl, findPid s.pidArr 0 maxRunningProcesses, by omega, hfree,
        fun pid hpid ↦ hbelow pid (Nat.zero_le pid) hpid, ?_⟩
      simp only [doExecute, Bool.not_true, Bool.false_eq_true, if_false, if_neg hroom]

/-- `do_execute` of the shell starts a program when a pid is free. -/
theorem doExecute_free (s : Machine) (hfree : ∃ pid < maxRunningProcesses, s.pidArr pid = false)
    (args : ℕ → UInt8) (tmp : Pcb) :
    ∃ pid < maxRunningProcesses, s.pidArr pid = false ∧ (∀ pid' < pid, s.pidArr pid' = true) ∧
      s.doExecute true args tmp = (s.startProgram pid args tmp, none) := by
  obtain ⟨pid, hlt, hpid⟩ := hfree
  rcases s.doExecute_cases true args tmp with ⟨_, _, -, hall, -⟩ | ⟨-, pid', hrest⟩
  · rw [hall rfl pid hlt] at hpid
    cases hpid
  · exact ⟨pid', hrest⟩

/-- Closing the files of the running process changes nothing but its `fd_arr`. -/
theorem closeAll_eq (s : Machine) : ∃ fdArr,
    s.closeAll = s.setPcb s.current { s.running with fdArr := fdArr } := by
  obtain ⟨fdArr, hclosed⟩ := closeFiles_eq s.running (le_refl 8)
  exact ⟨fdArr, by rw [closeAll, hclosed]⟩

/-- The PCB of the running process, but for its open files, is the same when its files are closed
and its pid is free. -/
theorem running_releasePid (s : Machine) : ∃ fdArr,
    s.closeAll.releasePid.running = { s.running with fdArr := fdArr } := by
  obtain ⟨fdArr, hclosed⟩ := s.closeAll_eq
  refine ⟨fdArr, ?_⟩
  rw [hclosed]
  simp [releasePid, running, setPcb]

/-- `do_halt` of a process that is no base shell. -/
theorem doHalt_child (s : Machine) (hchild : thirdShell < s.running.pid) (status : UInt8)
    (tmp : Pcb) :
    s.doHalt status tmp =
      (s.closeAll.releasePid.restoreParent.setVidMapFlag s.running.onTerm false).execReturn
        s.running.pid status.toNat := by
  obtain ⟨fdArr, hrunning⟩ := s.running_releasePid
  simp only [doHalt, hrunning, gt_iff_lt]
  rw [if_pos hchild]

/-- `do_halt` of a base shell starts a shell in its place. -/
theorem doHalt_restart (s : Machine) (hshell : s.running.pid ≤ thirdShell) (status : UInt8)
    (tmp : Pcb) : ∃ pid < maxRunningProcesses, s.closeAll.releasePid.pidArr pid = false ∧
      (∀ pid' < pid, s.closeAll.releasePid.pidArr pid' = true) ∧
      s.doHalt status tmp = (s.closeAll.releasePid.startProgram pid (fun _ ↦ 0) tmp, none) := by
  obtain ⟨fdArr, hrunning⟩ := s.running_releasePid
  have hreleased : s.closeAll.releasePid.pidArr s.running.pid = false := by
    obtain ⟨fdArr', hclosed⟩ := s.closeAll_eq
    rw [hclosed]
    simp [releasePid, running, setPcb]
  have hlt : s.running.pid < maxRunningProcesses := by
    unfold thirdShell at hshell
    unfold maxRunningProcesses
    omega
  obtain ⟨pid, hlt', hfree, hbelow, hstart⟩ :=
    s.closeAll.releasePid.doExecute_free ⟨s.running.pid, hlt, hreleased⟩ (fun _ ↦ 0) tmp
  refine ⟨pid, hlt', hfree, hbelow, ?_⟩
  simp only [doHalt, hrunning]
  rw [if_neg (Nat.not_lt.mpr hshell), hstart]
  rfl

/-- `do_halt` of a base shell starts it again when the pids below its own are in use. -/
theorem doHalt_shell (s : Machine) {t : Fin 3} (hshell : s.running.pid = t)
    (hbelow : ∀ pid < (t : ℕ), s.pidArr pid = true) (status : UInt8) (tmp : Pcb) :
    s.doHalt status tmp = (s.closeAll.releasePid.startProgram t (fun _ ↦ 0) tmp, none) := by
  have hpidArr : s.closeAll.releasePid.pidArr = Function.update s.pidArr t false := by
    obtain ⟨fdArr, hclosed⟩ := s.closeAll_eq
    rw [hclosed, ← hshell]
    simp [releasePid, running, setPcb]
  obtain ⟨pid, -, hfree, hbelow', h⟩ := s.doHalt_restart (by unfold thirdShell; omega) status tmp
  rw [hpidArr] at hfree hbelow'
  obtain rfl : pid = t := by
    rcases lt_trichotomy pid t with hlt | heq | hlt
    · simp [hlt.ne, hbelow pid hlt] at hfree
    · exact heq
    · simpa using hbelow' t hlt
  exact h

/-- `schedule` with a shell that has not been started starts one. -/
theorem schedule_start (s : Machine) (hmissing : s.pidArr 1 = false ∨ s.pidArr 2 = false)
    (esp ebp : ℤ) (tmp : Pcb) : ∃ pid < maxRunningProcesses, s.pidArr pid = false ∧
      (∀ pid' < pid, s.pidArr pid' = true) ∧
      s.schedule esp ebp tmp = (s.nextTask esp ebp).startProgram pid (fun _ ↦ 0) tmp := by
  have hfree : ∃ pid < maxRunningProcesses, (s.nextTask esp ebp).pidArr pid = false := by
    rcases hmissing with hsecond | hthird
    · exact ⟨1, by decide, hsecond⟩
    · exact ⟨2, by decide, hthird⟩
  obtain ⟨pid, hlt, hpid, hbelow, hstart⟩ :=
    (s.nextTask esp ebp).doExecute_free hfree (fun _ ↦ 0) tmp
  have hmissing' : (s.nextTask esp ebp).pidArr 1 = false ∨
      (s.nextTask esp ebp).pidArr 2 = false := hmissing
  refine ⟨pid, hlt, hpid, hbelow, ?_⟩
  simp only [schedule, if_pos hmissing', hstart]
  rfl

/-- `schedule` with all shells started. -/
theorem schedule_resume (s : Machine) (hsecond : s.pidArr 1 = true) (hthird : s.pidArr 2 = true)
    (esp ebp : ℤ) (tmp : Pcb) : s.schedule esp ebp tmp = (s.nextTask esp ebp).resumeTask := by
  have hstarted : ¬ ((s.nextTask esp ebp).pidArr 1 = false ∨
      (s.nextTask esp ebp).pidArr 2 = false) := by
    change ¬ (s.pidArr 1 = false ∨ s.pidArr 2 = false)
    simp [hsecond, hthird]
  simp only [schedule, if_neg hstarted]

@[simp] theorem activePid_setActivePid (s : Machine) (t : Fin 3) (pid : ℕ) :
    (s.setActivePid t pid).activePid = Function.update s.activePid t pid := by
  funext t'
  by_cases ht : t' = t <;> simp [activePid, setActivePid, Console.setTerminal, ht]

@[simp] theorem activePid_setVidMapFlag (s : Machine) (t : Fin 3) (flag : Bool) :
    (s.setVidMapFlag t flag).activePid = s.activePid := by
  funext t'
  by_cases ht : t' = t <;> simp [activePid, setVidMapFlag, Console.setTerminal, ht]

/-- A program that is started as a child: its PCB is new, its terminal is the displayed one, its
parent is the running process, and the CPU is its own. -/
theorem startProgram_child (s : Machine) {pid : ℕ} (hchild : thirdShell < pid)
    (args : ℕ → UInt8) (tmp : Pcb) :
    ∃ pcb : Pcb, pcb.pid = pid ∧ pcb.onTerm = s.console.currTerminal ∧ pcb.parent = s.current ∧
      pcb.kernelStack = stackTop pid ∧
      s.startProgram pid args tmp = { s.setActivePid s.console.currTerminal pid with
        pcbs := Function.update s.pcbs (pcbAddr pid) pcb
        pidArr := Function.update s.pidArr pid true
        pageDirectory32 := userPage pid
        tssEsp0 := stackTop pid
        isrRet := 0
        execFrames := Function.update s.execFrames pid ⟨s.current, s.calls⟩
        calls := s.calls + 1
        current := pcbAddr pid } := by
  simp only [startProgram]
  rw [dif_pos hchild]
  exact ⟨_, rfl, rfl, rfl, rfl, rfl⟩

/-- A base shell that is started: its terminal is its own. -/
theorem startProgram_shell (s : Machine) (t : Fin 3) (args : ℕ → UInt8) (tmp : Pcb) :
    ∃ pcb : Pcb, pcb.pid = t ∧ pcb.onTerm = t ∧ pcb.parent = tmp.parent ∧
      pcb.kernelStack = stackTop t ∧
      s.startProgram t args tmp = { s.setActivePid t t with
        pcbs := Function.update s.pcbs (pcbAddr t) pcb
        pidArr := Function.update s.pidArr t true
        pageDirectory32 := userPage t
        tssEsp0 := stackTop t
        isrRet := 0
        execFrames := Function.update s.execFrames t ⟨s.current, s.calls⟩
        calls := s.calls + 1
        current := pcbAddr t } := by
  have hshell : ¬ (t : ℕ) > thirdShell := by
    unfold thirdShell
    omega
  simp only [startProgram]
  rw [dif_neg hshell]
  exact ⟨{ newPcb t args tmp with onTerm := t }, rfl, rfl, rfl, rfl, rfl⟩

end Machine

/-- The memory of a PCB before it is written. -/
def emptyPcb : Pcb := ⟨0, 0, fun _ ↦ ⟨.other 0, 0, 0, 0⟩, 0, 0, 0, fun _ ↦ 0⟩

/-- The three base shells run on their terminals: terminal `shown` is displayed, and the CPU works
for the shell of terminal `cpu`. -/
def baseShells (shown cpu : Fin 3) : Machine where
  console := { clearedConsole with
    terminals := fun t ↦ { clearedConsole.terminals t with activePid := t }
    currTerminal := shown }
  pcbs a :=
    let pid := ((pcbAddr 0 - a) / eightKB).toNat
    { emptyPcb with pid := pid, onTerm := Fin.ofNat 3 pid, kernelStack := stackTop pid }
  pidArr pid := decide (pid ≤ thirdShell)
  current := pcbAddr cpu
  tssEsp0 := stackTop cpu
  pageDirectory32 := userPage cpu
  isrRet := 0
  curPid := cpu
  termCounter := cpu
  execFrames _ := ⟨pcbAddr 0, 0⟩
  calls := 3

/-- What a base shell executes, with arguments and memory of no interest. -/
def executeProgram : KernelEvent := .execute true (fun _ ↦ 0) emptyPcb

end Sp18.Kernel
