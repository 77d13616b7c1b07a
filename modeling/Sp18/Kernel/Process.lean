import Sp18.Kernel.Terminal

/-!
# Processes

`process.h`, `init_pcb` and the process part of the machine: the table of used pids, the PCBs, and
what a change of process writes to the TSS and to the page directory.

The kernel stack of process `pid` ends at `stackTop pid`, and its PCB stands at the other end of
the same 8 KB. `get_pcb` clears the low 13 bits of the stack pointer, so that the running process
is the one on whose stack the CPU works. PCBs are kept by their address, since this is how
`parent` and `get_pcb` refer to them.
-/

set_option autoImplicit false
set_option relaxedAutoImplicit false

namespace Sp18.Kernel

open Foundation

/-- `MAX_OPEN_FILES` -/
def maxOpenFiles : ℤ := 8

/-- `MAX_RUNNING_PROCESSES` -/
def maxRunningProcesses : ℕ := 6

/-- `USED` -/
def used : ℤ := 1

/-- `NOT_USED` -/
def notUsed : ℤ := 0

/-- `THIRD_SHELL` -/
def thirdShell : ℕ := 2

/-- `EIGHT_MB` -/
def eightMB : ℤ := 8388608

/-- `EIGHT_KB` -/
def eightKB : ℤ := 8192

/-- `FOUR_MB` -/
def fourMB : ℤ := 4194304

/-- `FIRST_USER` -/
def firstUser : ℤ := 8388608

/-- `EXCEP_RET` -/
def excepRet : ℤ := 256

/-- The values of the pointer `fops`: one of the four operation tables, or another address. -/
inductive Fops where
  | terminal
  | dir
  | file
  | rtc
  | other (address : ℤ)
  deriving DecidableEq

/-- `file_t` -/
structure FileObject where
  fops : Fops
  inodeNum : ℤ
  fpos : ℤ
  flags : ℤ

/-- `pcb_t`. The array `fd_arr` has eight elements; `parent` is the address of a PCB. -/
structure Pcb where
  pid : ℕ
  onTerm : Fin 3
  fdArr : ℕ → FileObject
  kernelStack : ℤ
  kernelBase : ℤ
  parent : ℤ
  buffCopyArg : ℕ → UInt8

/-- The top of the kernel stack of a process. -/
def stackTop (pid : ℕ) : ℤ := eightMB - pid * eightKB

/-- The address of the PCB of a process. -/
def pcbAddr (pid : ℕ) : ℤ := stackTop pid - eightKB

/-- The page-directory entry of a process: its 4 MB frame with the attributes `0x87`. -/
def userPage (pid : ℕ) : ℤ := firstUser + pid * fourMB + 135

theorem pcbAddr_injective : Function.Injective pcbAddr := by
  intro pid pid' h
  unfold pcbAddr stackTop eightMB eightKB at h
  omega

@[simp] theorem pcbAddr_inj {pid pid' : ℕ} : pcbAddr pid = pcbAddr pid' ↔ pid = pid' :=
  pcbAddr_injective.eq_iff

/-- `init_pcb`, on a PCB whose memory has not been written before. -/
def initPcb (pid : ℕ) (pcb : Pcb) : Pcb :=
  { pcb with
    pid := pid
    fdArr := fun fd ↦
      if fd < 2 then { pcb.fdArr fd with flags := used, fpos := 0, fops := .terminal }
      else if fd < 8 then { pcb.fdArr fd with flags := notUsed, fpos := 0 }
      else pcb.fdArr fd }

/-- The first two descriptors of a new process are the terminal. -/
theorem initPcb_terminal (pid : ℕ) (pcb : Pcb) {fd : ℕ} (hfd : fd < 2) :
    (initPcb pid pcb).fdArr fd =
      { pcb.fdArr fd with flags := used, fpos := 0, fops := .terminal } := by
  simp only [initPcb]
  rw [if_pos hfd]

/-- The other descriptors of a new process are free. -/
theorem initPcb_free (pid : ℕ) (pcb : Pcb) {fd : ℕ} (hlow : ¬ fd < 2) (hfd : fd < 8) :
    (initPcb pid pcb).fdArr fd = { pcb.fdArr fd with flags := notUsed, fpos := 0 } := by
  simp only [initPcb]
  rw [if_neg hlow, if_pos hfd]

/-- What the context-switch code keeps for a process in `kernel_stack` and `kernel_base`: the stack
on which the `do_execute` call that started it waits, as the address of the PCB on that stack, and
which call this is. -/
structure ExecFrame where
  caller : ℤ
  call : ℕ
  deriving DecidableEq

/-- The kernel's state between two events. `current` is what `get_pcb` returns, and `calls` counts
the calls of `do_execute` that have started a program. -/
structure Machine where
  console : Console
  pcbs : ℤ → Pcb
  pidArr : ℕ → Bool
  current : ℤ
  tssEsp0 : ℤ
  pageDirectory32 : ℤ
  isrRet : ℤ
  curPid : ℕ
  termCounter : Fin 3
  execFrames : ℕ → ExecFrame
  calls : ℕ

namespace Machine

/-- The PCB of the running process. -/
def running (s : Machine) : Pcb := s.pcbs s.current

/-- `terminals[t].active_pid` -/
def activePid (s : Machine) (t : Fin 3) : ℕ := (s.console.terminals t).activePid

/-- `terminals[t].vid_map_flag` -/
def vidMapFlag (s : Machine) (t : Fin 3) : Bool := (s.console.terminals t).vidMapFlag

/-- Stores to the PCB at an address. -/
def setPcb (s : Machine) (address : ℤ) (pcb : Pcb) : Machine :=
  { s with pcbs := Function.update s.pcbs address pcb }

/-- Assignment to `terminals[t].active_pid`. -/
def setActivePid (s : Machine) (t : Fin 3) (pid : ℕ) : Machine :=
  { s with console :=
      s.console.setTerminal t { s.console.terminals t with activePid := pid } }

/-- Assignment to `terminals[t].vid_map_flag`. -/
def setVidMapFlag (s : Machine) (t : Fin 3) (flag : Bool) : Machine :=
  { s with console :=
      s.console.setTerminal t { s.console.terminals t with vidMapFlag := flag } }

/-- `terminal_write` of a string by the running process. -/
def write (s : Machine) (msg : String) : Machine :=
  let bytes : ℤ → UInt8 := fun i ↦ ((msg.toList.map fun c ↦ c.toNat.toUInt8)[i.toNat]?).getD 0
  { s with console :=
      (s.console.terminalWrite s.current s.running.onTerm 1 bytes msg.length).2 }

end Machine

end Sp18.Kernel
