import Sp18.Kernel.FileReading
import Sp18.Kernel.Writing
import Sp18.Kernel.Executing
import Sp18.Kernel.Listing

/-!
# The system calls of a program

The programs of `syscalls` are modelled on the calls that they make and the functions of
`ece391support.c`. A `Task` is what the calls work on: the PCB of the program and the console. A
program runs on its own, so that nothing else writes to its terminal between two calls.

What a call finds in the uninitialised local variables of the kernel may be different each time, and
is drawn from a list. No program reads from a terminal or writes to the RTC; such a call has no
value. `printed` is the task after bytes have been printed, in as many calls as it may be: `write`
and `ece391_fdputs` print (`write_eq`, `ece391Fdputs_eq`).
-/

set_option autoImplicit false
set_option relaxedAutoImplicit false

namespace Sp18.UserPrograms

open Foundation Kernel

/-- The uninitialised local variables that a call of the kernel works with. -/
structure Locals where
  openDentry : Dentry
  openDentry' : Dentry
  tmp : ℤ → UInt8

/-- A program that runs, with the address of its PCB, and the console. -/
structure Task where
  self : ℤ
  pcb : Pcb
  console : Console
  locals : ℕ → Locals

/-- The characters of a string literal. -/
def bytesOf (s : String) : List UInt8 := s.toList.map fun c ↦ c.toNat.toUInt8

/-- A string literal in memory. -/
def literal (s : String) (i : ℕ) : UInt8 := (bytesOf s).getD i 0

namespace Task

variable (img : Image) (task : Task)

/-- The task after a call that has used the local variables. -/
def called (pcb : Pcb) : Task := { task with pcb := pcb, locals := fun i ↦ task.locals (i + 1) }

/-- `read`. `RTC_read` returns 0 and leaves the buffer alone. -/
def read (fd : ℤ) (buf : ℤ → UInt8) (nbytes : ℤ) : Option (ℤ × (ℤ → UInt8) × Task) :=
  if (task.pcb.fileObject fd).fops = .terminal then none
  else
    (doRead img fd (some buf) nbytes (task.locals 0).tmp ⟨0, buf⟩ task.pcb).map
      fun (value, buf', pcb) ↦ (value, buf'.getD buf, task.called pcb)

/-- `write`. A call that is refused does not get to the terminal. -/
def write (fd : ℤ) (buf : ℤ → UInt8) (nbytes : ℤ) : Option (ℤ × Task) :=
  if (task.pcb.fileObject fd).fops = .rtc then none
  else
    let (value, console) := task.console.terminalWrite task.self task.pcb.onTerm fd buf nbytes
    (doWrite fd (some buf) nbytes ⟨value, buf⟩ task.pcb).map fun result ↦
      (result, if result = -1 then task else { task with console := console })

/-- `open` -/
def openFile (filename : ℕ → UInt8) : ℤ × Task :=
  let (value, pcb) := doOpen img filename (task.locals 0).openDentry (task.locals 0).openDentry'
    task.pcb
  (value, task.called pcb)

/-- `close` -/
def close (fd : ℤ) : Option (ℤ × Task) :=
  let (value, pcb) := doClose fd task.pcb
  value.map fun value ↦ (value, { task with pcb := pcb })

/-- `getargs` -/
def getargs (buf : ℤ → UInt8) (nbytes : ℤ) : ℤ × (ℤ → UInt8) :=
  let (value, buf') := doGetargs (some buf) nbytes task.pcb
  (value, buf'.getD buf)

end Task

/-! ### The support functions -/

/-- `ece391_strlen` -/
def ece391Strlen (s : ℕ → UInt8) : ℕ := strlenLoop s 0 4294967295

/-- The loop of `ece391_strcpy` inside one memory. -/
def ece391Strcpy (memory : ℤ → UInt8) (dst src : ℤ) : ℕ → ℤ → UInt8
  | 0 => memory
  | remaining + 1 =>
    let memory := Function.update memory dst (memory src)
    if memory dst ≠ 0 then ece391Strcpy memory (dst + 1) (src + 1) remaining else memory

/-- The loop of `ece391_strncmp` from position `i` on, with `remaining` positions to compare. -/
def ece391StrncmpLoop (s1 s2 : ℕ → UInt8) (i : ℕ) : ℕ → ℤ
  | 0 => 0
  | remaining + 1 =>
    if s1 i = s2 i then
      if s1 i = 0 then 0 else ece391StrncmpLoop s1 s2 (i + 1) remaining
    else (s1 i).toNat - (s2 i).toNat

/-- `ece391_strncmp` -/
def ece391Strncmp (s1 s2 : ℕ → UInt8) (n : ℕ) : ℤ := ece391StrncmpLoop s1 s2 0 n

/-- `ece391_fdputs` -/
def ece391Fdputs (task : Task) (fd : ℤ) (s : ℕ → UInt8) : Option Task :=
  (task.write fd (fun k ↦ s k.toNat) (i32 (ece391Strlen s))).map Prod.snd

/-! ### Printing -/

namespace Task

variable {task : Task}

/-- The task after some bytes have been printed. -/
def printed (task : Task) (bytes : List UInt8) : Task :=
  if bytes = [] then task
  else { task with console := task.console.written task.self task.pcb.onTerm bytes }

@[simp] theorem printed_nil (task : Task) : task.printed [] = task := rfl

theorem printed_of_ne (task : Task) {bytes : List UInt8} (h : bytes ≠ []) : task.printed bytes =
    { task with console := task.console.written task.self task.pcb.onTerm bytes } :=
  if_neg h

@[simp] theorem printed_pcb (task : Task) (bytes : List UInt8) :
    (task.printed bytes).pcb = task.pcb := by
  rw [printed]
  split_ifs <;> rfl

/-- What is printed in two steps can be printed in one. -/
@[simp] theorem printed_append (task : Task) (bytes bytes' : List UInt8) :
    (task.printed bytes).printed bytes' = task.printed (bytes ++ bytes') := by
  by_cases hfirst : bytes = []
  · rw [hfirst, printed_nil, List.nil_append]
  · by_cases hsecond : bytes' = []
    · rw [hsecond, printed_nil, List.append_nil]
    · rw [printed_of_ne task hfirst, printed_of_ne _ hsecond,
        printed_of_ne task (List.append_ne_nil_of_left_ne_nil hfirst bytes')]
      dsimp only
      rw [Console.written_append]

/-- From the one task to the other the program has printed these bytes. -/
structure Prints (task : Task) (bytes : List UInt8) (task' : Task) : Prop where
  self : task'.self = task.self
  onTerm : task'.pcb.onTerm = task.pcb.onTerm
  console : task'.console = (task.printed bytes).console

theorem prints_printed (task : Task) (bytes : List UInt8) :
    task.Prints bytes (task.printed bytes) := by
  refine ⟨?_, by rw [printed_pcb], rfl⟩
  rw [printed]
  split_ifs <;> rfl

theorem Prints.trans {task' task'' : Task} {bytes bytes' : List UInt8}
    (h : task.Prints bytes task') (h' : task'.Prints bytes' task'') :
    task.Prints (bytes ++ bytes') task'' where
  self := h'.self.trans h.self
  onTerm := h'.onTerm.trans h.onTerm
  console := by
    have hsame : (task'.printed bytes').console =
        ((task.printed bytes).printed bytes').console := by
      rw [printed, printed]
      split_ifs with hempty
      · exact h.console
      · dsimp only
        rw [h.console, h.self, h.onTerm, (prints_printed task bytes).self, printed_pcb]
    rw [h'.console, hsame, printed_append]

/-- A step that prints nothing first. -/
theorem Prints.after {task' task'' : Task} {bytes : List UInt8} (h : task.Prints [] task')
    (h' : task'.Prints bytes task'') : task.Prints bytes task'' :=
  h.trans h'

/-- A call that leaves the terminal of the PCB alone prints nothing. -/
theorem prints_called (task : Task) {pcb : Pcb} (hterm : pcb.onTerm = task.pcb.onTerm) :
    task.Prints [] (task.called pcb) :=
  ⟨rfl, hterm, rfl⟩

variable (h : task.pcb.WellFormed)

include h in
theorem stdout_eq : (task.pcb.fileObject 1).flags = used ∧
    (task.pcb.fileObject 1).fops = .terminal :=
  h.standard 1 (by norm_num)

include h in
/-- `write` to the standard output prints the bytes. -/
theorem write_eq (buf : ℤ → UInt8) {nbytes : ℤ} (hbytes : 0 < nbytes) :
    task.write 1 buf nbytes = some (nbytes, task.printed (valuesAt buf 0 nbytes.toNat)) := by
  obtain ⟨hflags, hfops⟩ := stdout_eq h
  have hopen : ¬ ((1 : ℤ) < 0 ∨ 1 > maxOpenFiles ∨ (some buf).isNone ∨ nbytes = 0 ∨
      (task.pcb.fileObject 1).flags = notUsed) := by
    rintro (hlow | hhigh | hnone | hzero | hfree)
    · omega
    · unfold maxOpenFiles at hhigh
      omega
    · cases hnone
    · omega
    · exact absurd (hflags.symm.trans hfree) (by decide)
  have hcall : doWrite 1 (some buf) nbytes ⟨nbytes, buf⟩ task.pcb = some nbytes := by
    rw [doWrite, if_neg hopen, hfops]
  have hne : valuesAt buf 0 nbytes.toNat ≠ [] := by
    rw [← List.length_pos_iff, length_valuesAt]
    omega
  rw [write, if_neg (by rw [hfops]; decide), Console.terminalWrite_eq _ _ hbytes]
  simp only [hcall, Option.map_some]
  rw [if_neg (by omega), printed_of_ne task hne]

include h in
/-- `write` of no bytes is refused. -/
theorem write_nothing (buf : ℤ → UInt8) : task.write 1 buf 0 = some (-1, task) := by
  obtain ⟨-, hfops⟩ := stdout_eq h
  rw [write, if_neg (by rw [hfops]; decide)]
  simp only [doWrite, or_true, true_or, if_true, Option.map_some]

end Task

theorem ece391Strlen_eq {s : ℕ → UInt8} {text : List UInt8} (h : HoldsString s text) :
    ece391Strlen s = min text.length 4294967295 := by
  rw [ece391Strlen, strlenLoop_eq, h.stringAt, List.length_take, Nat.zero_add, Nat.min_comm]

theorem literal_holdsString {s : String} (h : ∀ c ∈ bytesOf s, c ≠ 0) :
    HoldsString (literal s) (bytesOf s) :=
  HoldsString.getD_zero h

theorem valuesAt_of_holdsString {s : ℕ → UInt8} {text : List UInt8} (h : HoldsString s text) :
    valuesAt (fun k ↦ s k.toNat) 0 text.length = text := by
  refine List.ext_getElem (length_valuesAt _ _ _) fun i hi hi' ↦ ?_
  simp only [valuesAt, List.getElem_map, List.getElem_range, zero_add, Int.toNat_natCast]
  exact h.char i hi'

/-- `ece391_fdputs` prints the string. -/
theorem ece391Fdputs_eq {task : Task} (hpcb : task.pcb.WellFormed) {s : ℕ → UInt8}
    {text : List UInt8} (h : HoldsString s text) (hlength : text.length < 2 ^ 31) :
    ece391Fdputs task 1 s = some (task.printed text) := by
  have hstrlen : i32 (ece391Strlen s : ℤ) = text.length := by
    rw [ece391Strlen_eq h, min_eq_left (by omega)]
    exact i32_of_range (by omega) (by omega)
  rw [ece391Fdputs, hstrlen]
  by_cases hempty : text = []
  · rw [hempty, List.length_nil, Nat.cast_zero, Task.write_nothing hpcb]
    rfl
  · have hpos := List.length_pos_iff.mpr hempty
    rw [Task.write_eq hpcb _ (by omega), Int.toNat_natCast, valuesAt_of_holdsString h]
    rfl

/-- A message is printed. -/
theorem ece391Fdputs_literal {task : Task} (hpcb : task.pcb.WellFormed) {s : String}
    (h : ∀ c ∈ bytesOf s, c ≠ 0) (hlength : (bytesOf s).length < 2 ^ 31) :
    ece391Fdputs task 1 (literal s) = some (task.printed (bytesOf s)) :=
  ece391Fdputs_eq hpcb (literal_holdsString h) hlength

end Sp18.UserPrograms
