import Sp18.Kernel.Filesys
import Sp18.Kernel.Process

/-!
# File descriptors

`do_open`, `do_close`, `do_read` and `do_write` with the file operations of `filesys.c` and the
part of the RTC operations that touches the PCB. A call works on the PCB of the running process.

The operations of the terminal and the reads and writes of the RTC do not look at the PCB; what
they return and leave in the caller's buffer is an argument, the `DeviceAnswer`. An index of 8
passes the range checks and reaches the fields behind `fd_arr`, whose words then stand for the
fields of a file object; its `fops` is no operation table, and a call through it has no value.
-/

set_option autoImplicit false
set_option relaxedAutoImplicit false

namespace Sp18.Kernel

open Foundation

/-- What a device operation returns and leaves in the buffer. -/
structure DeviceAnswer where
  value : ℤ
  buffer : ℤ → UInt8

/-- The word of four bytes at an array index, little-endian. -/
def wordAt (bytes : ℕ → UInt8) (i : ℕ) : ℤ :=
  i32 ((bytes i).toNat + (bytes (i + 1)).toNat * 256 + (bytes (i + 2)).toNat * 65536 +
    (bytes (i + 3)).toNat * 16777216)

/-- `fd_arr[fd]`, for the indices that the range checks let through. -/
def Pcb.fileObject (pcb : Pcb) (fd : ℤ) : FileObject :=
  if fd = 8 then
    { fops := .other pcb.kernelStack
      inodeNum := pcb.kernelBase
      fpos := pcb.parent
      flags := wordAt pcb.buffCopyArg 0 }
  else pcb.fdArr fd.toNat

/-- Stores to `fd_arr[fd]`. Behind the array no store goes to `fops`. -/
def Pcb.setFileObject (pcb : Pcb) (fd : ℤ) (object : FileObject) : Pcb :=
  if fd = 8 then
    { pcb with
      kernelBase := object.inodeNum
      parent := object.fpos
      buffCopyArg := fun i ↦ if i < 4 then UInt8.ofNat ((u32 object.flags).toNat / 256 ^ i)
        else pcb.buffCopyArg i }
  else { pcb with fdArr := Function.update pcb.fdArr fd.toNat object }

/-! ### File operations -/

/-- `file_open` -/
def fileOpen (img : Image) (filename : ℕ → UInt8) (fd : ℤ) (openDentry : Dentry) (pcb : Pcb) :
    ℤ × Pcb :=
  let (found, openDentry) := readDentryByName img filename openDentry
  if found = -1 then (-1, pcb)
  else
    (0, pcb.setFileObject fd { pcb.fileObject fd with
      inodeNum := openDentry.inodeNum.toInt, fpos := 0, flags := used })

/-- `dir_open` -/
def dirOpen (img : Image) (filename : ℕ → UInt8) (fd : ℤ) (openDentry : Dentry) (pcb : Pcb) :
    ℤ × Pcb :=
  let (found, _) := readDentryByName img filename openDentry
  if found = -1 then (-1, pcb)
  else (0, pcb.setFileObject fd { pcb.fileObject fd with inodeNum := 0, flags := used })

/-- `RTC_open`, on the PCB. -/
def rtcOpen (fd : ℤ) (pcb : Pcb) : ℤ × Pcb :=
  (0, pcb.setFileObject fd { pcb.fileObject fd with inodeNum := 0 })

/-- `file_read`: the return value, the memory around the buffer and the PCB. -/
def fileRead (img : Image) (fd : ℤ) (buf : ℤ → UInt8) (nbytes : ℤ) (pcb : Pcb) :
    ℤ × (ℤ → UInt8) × Pcb :=
  let object := pcb.fileObject fd
  let fLength := u32 (img.inodes (u32 object.inodeNum).toNat).length.toInt
  if u32 object.fpos ≥ fLength then (0, buf, pcb)
  else
    let readUntil := if fLength < u32 nbytes then i32 fLength else nbytes
    let (bytesRead, buf) := readData img (UInt32.ofNat (u32 object.inodeNum).toNat)
      (UInt32.ofNat (u32 object.fpos).toNat) buf (UInt32.ofNat (u32 readUntil).toNat)
    (bytesRead, buf,
      pcb.setFileObject fd { object with fpos := i32 (object.fpos + bytesRead) })

/-- The number of bytes that `strncpy` copies: up to the terminating zero, at most `n`. -/
def copySize (src : ℕ → UInt8) (i : ℕ) : ℕ → ℕ
  | 0 => i
  | remaining + 1 => if src i ≠ 0 then copySize src (i + 1) remaining else i

/-- `strncpy`. Behind the bytes that it copies it stores zeros up to index `n` itself. -/
def strncpy (dest : ℤ → UInt8) (src : ℕ → UInt8) (n : ℤ) : ℤ → UInt8 :=
  fun k ↦
    if 0 ≤ k ∧ k ≤ u32 n then
      if k < copySize src 0 (u32 n).toNat then src k.toNat else 0
    else dest k

/-- `dir_read`. `tmp` is its array of 33 bytes. -/
def dirRead (img : Image) (fd : ℤ) (buf : ℤ → UInt8) (nbytes : ℤ) (tmp : ℤ → UInt8) (pcb : Pcb) :
    ℤ × (ℤ → UInt8) × Pcb :=
  if fd < 0 ∨ fd ≥ maxOpenFiles then (-1, buf, pcb)
  else
    let object := pcb.fileObject fd
    if object.flags = notUsed then (-1, buf, pcb)
    else if object.fpos ≥ img.dirCount.toInt then (0, buf, pcb)
    else
      let buf := strncpy buf (img.dentries object.fpos.toNat).nameBytes nbytes
      let pcb := pcb.setFileObject fd { object with fpos := i32 (object.fpos + 1) }
      let tmp := Function.update (strncpy tmp (fun i ↦ buf i) (filenameLen + 1)) filenameLen 0
      (strlen fun i ↦ tmp i, buf, pcb)

/-! ### System calls -/

/-- The search loop of `do_open` for a slot that is not in use, from `x` on. It leaves `fd` at 0
when there is none. -/
def findSlot (pcb : Pcb) (x : ℕ) : ℕ → ℕ
  | 0 => 0
  | remaining + 1 =>
    if (pcb.fileObject x).flags = notUsed then x else findSlot pcb (x + 1) remaining

/-- `do_open`. `openDentry` and `openDentry'` are the uninitialised local variables of `do_open`
and of the open operation. -/
def doOpen (img : Image) (filename : ℕ → UInt8) (openDentry openDentry' : Dentry) (pcb : Pcb) :
    ℤ × Pcb :=
  let (found, openDentry) := readDentryByName img filename openDentry
  if found = -1 then (-1, pcb)
  else
    let fd := findSlot pcb 2 6
    if fd = 0 then (-1, pcb)
    else
      let opened (fops : Fops) := pcb.setFileObject fd { pcb.fileObject fd with
        fops := fops, flags := used }
      if openDentry.filetype.toInt = dirFile then
        (fd, (dirOpen img filename fd openDentry' (opened .dir)).2)
      else if openDentry.filetype.toInt = regFile then
        (fd, (fileOpen img filename fd openDentry' (opened .file)).2)
      else if openDentry.filetype.toInt = rtcFile then (fd, (rtcOpen fd (opened .rtc)).2)
      else (fd, pcb)

/-- The return value of the close operation. All close operations return 0. -/
def Fops.close : Fops → Option ℤ
  | .terminal => some 0
  | .dir => some 0
  | .file => some 0
  | .rtc => some 0
  | .other _ => none

/-- `do_close` -/
def doClose (fd : ℤ) (pcb : Pcb) : Option ℤ × Pcb :=
  if fd < 2 ∨ fd > maxOpenFiles then (some (-1), pcb)
  else if (pcb.fileObject fd).flags = notUsed then (some (-1), pcb)
  else
    let pcb := pcb.setFileObject fd { pcb.fileObject fd with
      flags := notUsed, fpos := 0, inodeNum := 0 }
    ((pcb.fileObject fd).fops.close, pcb)

/-- `do_read`. A buffer of `none` is `NULL`. -/
def doRead (img : Image) (fd : ℤ) (buf : Option (ℤ → UInt8)) (nbytes : ℤ) (tmp : ℤ → UInt8)
    (answer : DeviceAnswer) (pcb : Pcb) : Option (ℤ × Option (ℤ → UInt8) × Pcb) :=
  if fd < 0 ∨ fd > maxOpenFiles ∨ nbytes = 0 ∨ (pcb.fileObject fd).flags = notUsed then
    some (-1, buf, pcb)
  else
    match buf with
    | none => some (-1, none, pcb)
    | some buf =>
      match (pcb.fileObject fd).fops with
      | .terminal => some (answer.value, some answer.buffer, pcb)
      | .rtc => some (answer.value, some answer.buffer, pcb)
      | .dir =>
        let (value, buf, pcb) := dirRead img fd buf nbytes tmp pcb
        some (value, some buf, pcb)
      | .file =>
        let (value, buf, pcb) := fileRead img fd buf nbytes pcb
        some (value, some buf, pcb)
      | .other _ => none

/-- `do_write`. A directory and a regular file cannot be written. -/
def doWrite (fd : ℤ) (buf : Option (ℤ → UInt8)) (nbytes : ℤ) (answer : DeviceAnswer) (pcb : Pcb) :
    Option ℤ :=
  if fd < 0 ∨ fd > maxOpenFiles ∨ buf.isNone ∨ nbytes = 0 ∨
      (pcb.fileObject fd).flags = notUsed then some (-1)
  else
    match (pcb.fileObject fd).fops with
    | .terminal => some answer.value
    | .rtc => some answer.value
    | .dir => some (-1)
    | .file => some (-1)
    | .other _ => none

end Sp18.Kernel
