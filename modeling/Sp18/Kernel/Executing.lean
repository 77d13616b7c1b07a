import Sp18.Kernel.Loading
import Sp18.Kernel.Outcome
import Sp18.Kernel.Parsing

/-!
# Starting a program and its arguments

`do_execute` from the command line on, and `do_getargs`, by which the program asks for its
arguments.

`do_execute` fails in two ways. For a name that stands for no executable it returns -1. With all
pids in use it prints a message and returns 0, which is also what a program returns that has run
and halted with 0. Both keep the processes as they are (`doExecute_keepsProcesses`); the value is
right exactly if the call has not searched for a free pid in vain (`doExecuteCommand_exact`).

`do_getargs` compares the signed size of the buffer with the unsigned length of the arguments, and
it forgets the zero behind them. It takes a buffer that is one byte too short, and one of a negative
size (`doGetargs_exact`).
-/

set_option autoImplicit false
set_option relaxedAutoImplicit false

namespace Sp18.Kernel

open Foundation

/-- The first part of `do_execute`, which parses the command and looks for its file, and the rest of
it. `cmd` and `args`, and `myDentry` and `buffer` of `isExe`, are uninitialised local variables. -/
def Machine.doExecuteCommand (s : Machine) (img : Image) (command : ℕ → UInt8)
    (cmd args : ℤ → UInt8) (myDentry : Dentry) (buffer : ℤ → UInt8) (tmp : Pcb) :
    Machine × Option ℤ :=
  let (cmd, args) := parseArgs command cmd args
  s.doExecute (isExe img (fun i ↦ cmd i) myDentry buffer ≠ 0) (fun i ↦ args i) tmp

/-- `do_getargs`. A buffer of `none` is `NULL`. -/
def doGetargs (buf : Option (ℤ → UInt8)) (nbytes : ℤ) (pcb : Pcb) : ℤ × Option (ℤ → UInt8) :=
  let arguments := pcb.buffCopyArg
  if nbytes = 0 ∨ arguments 0 = 0 ∨ buf.isNone then (-1, buf)
  else if u32 nbytes < strlen arguments then (-1, buf)
  else (0, buf.map fun buf ↦ strcpy buf arguments)

/-- A pid is not in use. -/
def Machine.PidFree (s : Machine) : Prop := ∃ pid < maxRunningProcesses, s.pidArr pid = false

/-- The processes and the terminals that they are active on are as before. -/
structure KeepsProcesses (s s' : Machine) : Prop where
  pidArr : s'.pidArr = s.pidArr
  pcbs : s'.pcbs = s.pcbs
  pageDirectory : s'.pageDirectory32 = s.pageDirectory32
  tss : s'.tssEsp0 = s.tssEsp0
  activePid : s'.activePid = s.activePid

/-- What `do_execute` has to do: it starts a program if there is an executable and a pid for it, and
then the lowest free pid is used; otherwise it returns -1 and keeps the processes. -/
structure ExecutesOrFails (s : Machine) (executable : Prop) (result : Machine × Option ℤ) :
    Prop where
  starts_iff : result.2 = none ↔ executable ∧ s.PidFree
  started : result.2 = none → ∃ pid < maxRunningProcesses, s.pidArr pid = false ∧
    (∀ pid' < pid, s.pidArr pid' = true) ∧ result.1.pidArr = Function.update s.pidArr pid true
  failed : ∀ value, result.2 = some value → value = -1 ∧ KeepsProcesses s result.1

/-- What `do_getargs` has to do with the arguments `text` and a buffer of `nbytes` bytes: it returns
0 if there are arguments and they fit with the zero behind them, and then the buffer holds them;
otherwise it returns -1 and leaves the buffer alone. -/
structure GetsArguments (text : List UInt8) (nbytes : ℤ) (buf buf' : ℤ → UInt8) (value : ℤ) :
    Prop where
  zero_iff : value = 0 ↔ text ≠ [] ∧ text.length + 1 ≤ nbytes
  copied : value = 0 → HoldsString (fun i : ℕ ↦ buf' i) text
  refused : value ≠ 0 → value = -1 ∧ buf' = buf
  within : ∀ k, k < 0 ∨ nbytes ≤ k → buf' k = buf k

/-! ### Starting a program -/

section Execute

variable {s : Machine}

/-- Without a free pid `do_execute` prints a message. -/
theorem Machine.doExecute_full (hfull : ¬ s.PidFree) (args : ℕ → UInt8) (tmp : Pcb) :
    s.doExecute true args tmp = (s.write "Too many processes!\n", some 0) := by
  have hnone : findPid s.pidArr 0 maxRunningProcesses = maxRunningProcesses := by
    rcases findPid_cases s.pidArr 0 maxRunningProcesses with ⟨hnone, -⟩ | ⟨hfree, hlt, -⟩
    · exact hnone
    · exact absurd ⟨_, by omega, hfree⟩ hfull
  simp only [doExecute, Bool.not_true, Bool.false_eq_true, if_false, hnone, ge_iff_le, le_refl,
    if_true]

theorem Machine.write_keepsProcesses (s : Machine) (msg : String) :
    KeepsProcesses s (s.write msg) := by
  refine ⟨rfl, rfl, rfl, rfl, funext fun t ↦ ?_⟩
  exact congrArg (fun tasks : Console.TaskView ↦ tasks.activePid t)
    (s.console.tasks_terminalWrite s.current s.running.onTerm 1 _ _)

/-- A call that starts no program keeps the processes, whatever it returns. -/
theorem Machine.doExecute_keepsProcesses {executable : Bool} {args : ℕ → UInt8} {tmp : Pcb}
    {s' : Machine} {value : ℤ} (h : s.doExecute executable args tmp = (s', some value)) :
    KeepsProcesses s s' := by
  cases executable with
  | false =>
    obtain ⟨rfl, -⟩ := Prod.mk.inj h
    exact ⟨rfl, rfl, rfl, rfl, rfl⟩
  | true =>
    by_cases hfree : s.PidFree
    · obtain ⟨pid, -, -, -, hstart⟩ := s.doExecute_free hfree args tmp
      rw [hstart] at h
      cases h
    · rw [doExecute_full hfree] at h
      obtain ⟨rfl, -⟩ := Prod.mk.inj h
      exact s.write_keepsProcesses _

/-- `do_execute` with a free pid. -/
theorem Machine.doExecute_free_executes (hfree : s.PidFree) (args : ℕ → UInt8) (tmp : Pcb) :
    ExecutesOrFails s True (s.doExecute true args tmp) := by
  obtain ⟨pid, hlt, hpid, hlowest, hstart⟩ := s.doExecute_free hfree args tmp
  rw [hstart]
  refine ⟨iff_of_true rfl ⟨trivial, hfree⟩, fun _ ↦ ⟨pid, hlt, hpid, hlowest, ?_⟩,
    fun value hvalue ↦ by cases hvalue⟩
  obtain ⟨pcb, t, -, -, -, -, -, hs⟩ := s.startProgram_cases pid args tmp
  rw [hs]

/-- `do_execute` without a free pid: the value is wrong. -/
theorem Machine.doExecute_full_wrong (hfull : ¬ s.PidFree) (args : ℕ → UInt8) (tmp : Pcb)
    (executable : Prop) : ¬ ExecutesOrFails s executable (s.doExecute true args tmp) := by
  intro h
  rw [doExecute_full hfull] at h
  have hvalue := (h.failed 0 rfl).1
  norm_num at hvalue

/-- `do_execute` does what it has to do if and only if the command is no executable or a pid is
free. -/
theorem Machine.doExecuteCommand_exact (s : Machine) (img : Image) (command : ℕ → UInt8)
    (cmd args : ℤ → UInt8) (myDentry : Dentry) (buffer : ℤ → UInt8) (tmp : Pcb) :
    ExecutesOrFails s
        (isExe img (fun i ↦ (parseArgs command cmd args).1 i) myDentry buffer ≠ 0)
        (s.doExecuteCommand img command cmd args myDentry buffer tmp) ↔
      isExe img (fun i ↦ (parseArgs command cmd args).1 i) myDentry buffer = 0 ∨ s.PidFree := by
  simp only [doExecuteCommand]
  by_cases hexe : isExe img (fun i ↦ (parseArgs command cmd args).1 i) myDentry buffer = 0
  · rw [decide_eq_false (not_not_intro hexe)]
    have hfails : s.doExecute false (fun i ↦ (parseArgs command cmd args).2 i) tmp =
      (s, some (-1)) := rfl
    refine iff_of_true ⟨iff_of_false (by simp [hfails]) fun h ↦ h.1 hexe,
      fun hstarted ↦ by simp [hfails] at hstarted, fun value hvalue ↦ ?_⟩ (Or.inl hexe)
    obtain rfl : -1 = value := Option.some_inj.mp hvalue
    exact ⟨rfl, doExecute_keepsProcesses hfails⟩
  · rw [decide_eq_true hexe]
    by_cases hfree : s.PidFree
    · obtain ⟨hstarts, hstarted, hfailed⟩ :=
        doExecute_free_executes hfree (fun i ↦ (parseArgs command cmd args).2 i) tmp
      rw [true_and] at hstarts
      exact iff_of_true ⟨hstarts.trans (and_iff_right hexe).symm, hstarted, hfailed⟩ (Or.inr hfree)
    · exact iff_of_false (doExecute_full_wrong hfree _ tmp _) (not_or.mpr ⟨hexe, hfree⟩)

/-- A disk with one executable, whose name is `a`. -/
def exeImage : Image := fileImage ⟨4, fun _ ↦ 0⟩ 1 fun k ↦ magic k.toNat

theorem exeImage_isExe : isExe exeImage
      (fun i ↦ (parseArgs (lineMemory [97]) (fun _ ↦ 0) fun _ ↦ 0).1 i) fileDentry (fun _ ↦ 0) =
    1 := by
  decide +kernel

/-- The three shells run and three other programs. -/
def fullMachine : Machine := { baseShells 0 0 with pidArr := fun pid ↦ decide (pid < 6) }

/-- With all pids in use the call returns 0. -/
theorem Machine.doExecuteCommand_not_always : ¬ ExecutesOrFails fullMachine
    (isExe exeImage (fun i ↦ (parseArgs (lineMemory [97]) (fun _ ↦ 0) fun _ ↦ 0).1 i) fileDentry
      (fun _ ↦ 0) ≠ 0)
    (fullMachine.doExecuteCommand exeImage (lineMemory [97]) (fun _ ↦ 0) (fun _ ↦ 0) fileDentry
      (fun _ ↦ 0) emptyPcb) := by
  have hfull : ¬ fullMachine.PidFree := by
    rintro ⟨pid, hlt, hpid⟩
    unfold maxRunningProcesses at hlt
    simp [fullMachine, hlt] at hpid
  simp only [doExecuteCommand, exeImage_isExe]
  exact doExecute_full_wrong hfull _ emptyPcb _

end Execute

/-! ### Reading the arguments -/

section Getargs

variable {pcb : Pcb} {text : List UInt8} {nbytes : ℤ}

/-- `do_getargs` with a buffer: the arguments are copied if there are any and their length is no
larger than the size of the buffer, taken as an unsigned integer. -/
theorem doGetargs_cases (h : HoldsString pcb.buffCopyArg text) (hlength : text.length < 2 ^ 31)
    (nbytes : ℤ) (buf : ℤ → UInt8) :
    (nbytes ≠ 0 ∧ text ≠ [] ∧ (text.length : ℤ) ≤ u32 nbytes ∧
        doGetargs (some buf) nbytes pcb = (0, some (storeString buf text))) ∨
      (nbytes = 0 ∨ text = [] ∨ u32 nbytes < text.length) ∧
        doGetargs (some buf) nbytes pcb = (-1, some buf) := by
  have hstrlen : strlen pcb.buffCopyArg = text.length := by
    rw [strlen_of_holdsString h]
    omega
  have hempty : pcb.buffCopyArg 0 = 0 ↔ text = [] := by
    cases text with
    | nil => exact iff_of_true h.terminated rfl
    | cons c rest =>
      refine iff_of_false ?_ (List.cons_ne_nil c rest)
      rw [h.char 0 (Nat.succ_pos _)]
      exact h.nonzero c List.mem_cons_self
  simp only [doGetargs, hstrlen, hempty, Option.isNone_some, Bool.false_eq_true, or_false,
    Option.map_some]
  split_ifs with hnone hsmall
  · exact Or.inr ⟨by tauto, rfl⟩
  · exact Or.inr ⟨Or.inr (Or.inr hsmall), rfl⟩
  · obtain ⟨hbytes, htext⟩ := not_or.mp hnone
    rw [strcpy_eq h (by omega)]
    exact Or.inl ⟨hbytes, htext, not_lt.mp hsmall, rfl⟩

/-- `do_getargs` does what it has to do, whatever the buffer held before, if and only if there are
no arguments or the size of the buffer is neither negative nor exactly their length. -/
theorem doGetargs_exact (h : HoldsString pcb.buffCopyArg text) (hlength : text.length < 2 ^ 31)
    (hlow : -2 ^ 31 ≤ nbytes) (hhigh : nbytes < 2 ^ 31) (buf : ℤ → UInt8) :
    ∃ value buf', doGetargs (some buf) nbytes pcb = (value, some buf') ∧
      (GetsArguments text nbytes buf buf' value ↔
        text = [] ∨ 0 ≤ nbytes ∧ nbytes ≠ text.length) := by
  rcases doGetargs_cases h hlength nbytes buf with
    ⟨hbytes, htext, hfits, hcopied⟩ | ⟨hrefused, hcall⟩
  · refine ⟨0, storeString buf text, hcopied, ?_⟩
    rw [or_iff_right htext]
    constructor
    · intro hgets
      have hroom := (hgets.zero_iff.mp rfl).2
      omega
    · rintro ⟨hnonneg, hne⟩
      rw [u32_of_range hnonneg (by omega)] at hfits
      refine ⟨iff_of_true rfl ⟨htext, by omega⟩,
        fun _ ↦ storeString_holdsString buf h.nonzero, fun hvalue ↦ absurd rfl hvalue,
        fun k hk ↦ storeString_outside (by omega)⟩
  · refine ⟨-1, buf, hcall, ?_⟩
    have hsmall : text = [] ∨ 0 ≤ nbytes ∧ nbytes < text.length := by
      rcases hrefused with rfl | hnil | hless
      · rcases List.eq_nil_or_concat text with hnil | ⟨rest, c, rfl⟩
        · exact Or.inl hnil
        · exact Or.inr ⟨le_rfl, by simp⟩
      · exact Or.inl hnil
      · unfold u32 at hless
        exact Or.inr (by omega)
    refine iff_of_true ⟨iff_of_false (by norm_num) fun hroom ↦ ?_,
      fun hvalue ↦ by norm_num at hvalue, fun _ ↦ ⟨rfl, rfl⟩, fun _ _ ↦ rfl⟩
      (hsmall.imp_right fun hless ↦ ⟨hless.1, by omega⟩)
    rcases hsmall with hnil | hless
    · exact hroom.1 hnil
    · omega

/-- The PCB of a program with the argument `ab`. -/
def argsPcb : Pcb := { emptyPcb with buffCopyArg := lineMemory [97, 98] }

theorem argsPcb_holdsString : HoldsString argsPcb.buffCopyArg [97, 98] :=
  lineMemory_holdsString (by simp)

/-- The exact condition, for a buffer that has room for the zero. -/
theorem doGetargs_exact_argsPcb :
    ∃ value buf', doGetargs (some fun _ ↦ 1) 3 argsPcb = (value, some buf') ∧
      (GetsArguments [97, 98] 3 (fun _ ↦ 1) buf' value ↔
        ([97, 98] : List UInt8) = [] ∨ 0 ≤ (3 : ℤ) ∧ (3 : ℤ) ≠ ([97, 98] : List UInt8).length) :=
  doGetargs_exact argsPcb_holdsString (by norm_num) (by norm_num) (by norm_num) fun _ ↦ 1

/-- A buffer of two bytes is taken for the argument `ab`, and the zero is stored behind it. -/
theorem doGetargs_not_always :
    ¬ ∃ value buf', doGetargs (some fun _ ↦ 1) 2 argsPcb = (value, some buf') ∧
      GetsArguments [97, 98] 2 (fun _ ↦ 1) buf' value := by
  rintro ⟨value, buf', hcall, hgets⟩
  rcases doGetargs_cases argsPcb_holdsString (by norm_num) 2 fun _ ↦ 1 with
    ⟨-, -, -, hcopied⟩ | ⟨hrefused, -⟩
  · rw [hcopied] at hcall
    obtain ⟨rfl, -⟩ := Prod.mk.inj hcall
    have hroom := (hgets.zero_iff.mp rfl).2
    exact absurd hroom (by decide)
  · exact absurd hrefused (by decide)

end Getargs

end Sp18.Kernel
