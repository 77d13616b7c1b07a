import Sp18.Foundation.CInt
import Sp18.Foundation.ByteMemory
import Mathlib.Data.UInt

/-!
# The read-only file system

`filesys.h` and the access functions of `filesys.c`. An image is what `fs_init` leaves behind: the
three counts of the boot block, the directory entries, the inodes, and the bytes from the first
data block on. The tables are functions of an unbounded index, because the code indexes them with
pointers: past the end of a table stands whatever memory follows it.

`readData` is `read_data` with its loop. The loop is run with fuel and `readDataLoop_isSome` shows
that it always ends by itself, for every image and every argument, so that the value `readData`
takes when the fuel runs out is never used. `readDataLoop_round` is one round of it without the
conversions between signed and unsigned integers.
-/

set_option autoImplicit false
set_option relaxedAutoImplicit false

namespace Sp18.Kernel

open Foundation

/-- `BLOCK_SIZE` -/
def blockSize : ℤ := 4096

/-- `MAX_FILE_SIZE` -/
def maxFileSize : ℤ := 36164

/-- `FILENAME_LEN` -/
def filenameLen : ℕ := 32

/-- `RTC_FILE` -/
def rtcFile : ℤ := 0

/-- `DIR_FILE` -/
def dirFile : ℤ := 1

/-- `REG_FILE` -/
def regFile : ℤ := 2

/-- `dentry_t`. The bytes from index 32 of `filename` on are not part of the name; `reserved` holds
the last 24 bytes of the entry and the memory after it. -/
structure Dentry where
  filename : ℕ → UInt8
  filetype : Int32
  inodeNum : Int32
  reserved : ℕ → UInt8

/-- `inode_t`. The array `data_block_num` has 1023 elements. -/
structure Inode where
  length : Int32
  dataBlockNum : ℕ → Int32

/-- The file system as `fs_init` finds it. `dataBlocks` is addressed relative to the first data
block. -/
structure Image where
  dirCount : Int32
  inodeCount : Int32
  dataCount : Int32
  dentries : ℕ → Dentry
  inodes : ℕ → Inode
  dataBlocks : ℤ → UInt8

/-! ### Names -/

/-- The loop of `strlen` from position `len` on. The length is an unsigned 32-bit integer. -/
def strlenLoop (s : ℕ → UInt8) (len : ℕ) : ℕ → ℕ
  | 0 => len
  | fuel + 1 => if s len ≠ 0 then strlenLoop s (len + 1) fuel else len

/-- `strlen` -/
def strlen (s : ℕ → UInt8) : ℕ := strlenLoop s 0 4294967295

/-- A character as the signed integer `int8_t` holds. -/
def char (c : UInt8) : ℤ := i8 c.toNat

/-- The loop of `strncmp` from position `i` on, with `remaining` positions to compare. -/
def strncmpLoop (s1 s2 : ℕ → UInt8) (i : ℕ) : ℕ → ℤ
  | 0 => 0
  | remaining + 1 =>
    if s1 i ≠ s2 i ∨ s1 i = 0 then char (s1 i) - char (s2 i)
    else strncmpLoop s1 s2 (i + 1) remaining

/-- `strncmp` -/
def strncmp (s1 s2 : ℕ → UInt8) (n : ℤ) : ℤ := strncmpLoop s1 s2 0 n.toNat

/-- The bytes at the address of an entry's `filename`, the fields behind it included: `strlen` runs
into them when a name fills all 32 bytes. -/
def Dentry.nameBytes (entry : Dentry) (i : ℕ) : UInt8 :=
  if i < 32 then entry.filename i
  else if i < 36 then UInt8.ofNat (entry.filetype.toUInt32.toNat / 256 ^ (i - 32))
  else if i < 40 then UInt8.ofNat (entry.inodeNum.toUInt32.toNat / 256 ^ (i - 36))
  else entry.reserved (i - 40)

/-- The number of bytes `read_dentry_by_name` compares, an `int8_t` cut off at 32. -/
def compareSize (fname : ℕ → UInt8) (entry : Dentry) : ℤ :=
  let byteSize := i8 (if strlen entry.nameBytes > strlen fname then strlen entry.nameBytes
    else strlen fname)
  if byteSize > 32 then 32 else byteSize

/-- `read_dentry_by_index`: the return value and the entry the caller passed. -/
def readDentryByIndex (img : Image) (index : UInt32) (dentry : Dentry) : ℤ × Dentry :=
  if (index.toNat : ℤ) > u32 img.dirCount.toInt then (-1, dentry)
  else
    let found := img.dentries index.toNat
    (0, { dentry with
      filename := found.filename, filetype := found.filetype, inodeNum := found.inodeNum })

/-- The search loop of `read_dentry_by_name` from entry `idx` on, `remaining` entries before
`dir_count`. -/
def findName (img : Image) (fname : ℕ → UInt8) (idx : ℕ) : ℕ → Option ℕ
  | 0 => none
  | remaining + 1 =>
    let entry := img.dentries idx
    if strncmp fname entry.nameBytes (u32 (compareSize fname entry)) = 0 then some idx
    else findName img fname (idx + 1) remaining

/-- `read_dentry_by_name` -/
def readDentryByName (img : Image) (fname : ℕ → UInt8) (dentry : Dentry) : ℤ × Dentry :=
  if strlen fname > filenameLen then (-1, dentry)
  else
    match findName img fname 0 (u32 img.dirCount.toInt).toNat with
    | some idx => readDentryByIndex img (UInt32.ofNat idx) dentry
    | none => (-1, dentry)

/-! ### Data -/

/-- The copy loop of `read_data`. `memory` is addressed relative to the caller's buffer, and
`buffer` is how far the pointer has moved; `copyData` is relative to the first data block. -/
def readDataLoop (img : Image) (node : Inode) (length : ℤ) :
    ℕ → (ℤ → UInt8) → (buffer idx dataIdx copyData copyLength bytesCopied : ℤ) →
    Option (ℤ × (ℤ → UInt8))
  | 0, _, _, _, _, _, _, _ => none
  | fuel + 1, memory, buffer, idx, dataIdx, copyData, copyLength, bytesCopied =>
    if u32 idx < length then
      if buffer > maxFileSize then some (i32 length, memory)
      else
        let memory := memcpy memory buffer img.dataBlocks copyData (u32 copyLength)
        let buffer := buffer + copyLength
        let bytesCopied := i32 (bytesCopied + copyLength)
        let idx := i32 (idx + copyLength)
        if (node.dataBlockNum dataIdx.toNat).toInt > img.dataCount.toInt then some (-1, memory)
        else
          let dataIdx := dataIdx + 1
          let copyData := (node.dataBlockNum dataIdx.toNat).toInt * blockSize
          -- `length - bytes_copied` is unsigned
          let copyLength := if u32 (length - bytesCopied) > blockSize then blockSize
            else i32 (u32 (length - bytesCopied))
          let copyLength := if copyLength > blockSize then blockSize else copyLength
          readDataLoop img node length fuel memory buffer idx dataIdx copyData copyLength
            bytesCopied
    else some (i32 length, memory)

/-- The length `read_data` works with: the request, cut off at the end of the file. -/
def readLength (node : Inode) (offset length : UInt32) : ℤ :=
  let fileLength := u32 node.length.toInt
  if u32 (length.toNat + offset.toNat) > fileLength then u32 (fileLength - offset.toNat)
  else length.toNat

/-- The size of the first copy of `read_data`. The subtraction is unsigned and its result is read
as an `int`; the two conditional expressions that follow compare it once as an unsigned and once as
a signed integer. -/
def firstCopyLength (offset : UInt32) (length : ℤ) : ℤ :=
  let copyLength := i32 (u32 (blockSize - offset.toNat))
  let copyLength := if u32 copyLength > length then i32 length else copyLength
  if copyLength ≤ 0 then i32 length else copyLength

/-- `read_data`: the return value and the memory around the caller's buffer. -/
def readData (img : Image) (inode offset : UInt32) (buffer : ℤ → UInt8) (length : UInt32) :
    ℤ × (ℤ → UInt8) :=
  let dataIdx : ℤ := offset.toNat / blockSize
  if (inode.toNat : ℤ) ≥ u32 img.inodeCount.toInt then (-1, buffer)
  else
    let node := img.inodes inode.toNat
    if (offset.toNat : ℤ) ≥ u32 node.length.toInt then (-1, buffer)
    else
      let length := readLength node offset length
      if (node.dataBlockNum dataIdx.toNat).toInt > img.dataCount.toInt then (-1, buffer)
      else
        let copyData := (node.dataBlockNum dataIdx.toNat).toInt * blockSize +
          offset.toNat % blockSize
        let copyLength := firstCopyLength offset length
        (readDataLoop img node length (length.toNat + 1) buffer 0 0 dataIdx copyData copyLength
          0).getD (-1, buffer)

/-- The copy loop ends by itself: each round copies at least one byte and none past `length`. -/
theorem readDataLoop_isSome (img : Image) (node : Inode) {length : ℤ} (hlength : length < 2 ^ 32)
    (fuel : ℕ) (memory : ℤ → UInt8) (buffer idx dataIdx copyData copyLength bytesCopied : ℤ)
    (hidx : u32 idx ≤ length) (hcopied : u32 bytesCopied = u32 idx)
    (hcopy : u32 idx < length → 0 < u32 copyLength ∧ u32 idx + u32 copyLength ≤ length)
    (hfuel : length - u32 idx < fuel) :
    (readDataLoop img node length fuel memory buffer idx dataIdx copyData copyLength
      bytesCopied).isSome := by
  induction fuel generalizing memory buffer idx dataIdx copyData copyLength bytesCopied with
  | zero => omega
  | succ fuel ih =>
    rw [readDataLoop]
    split_ifs with hmore hcut hblock
    · rfl
    · rfl
    · obtain ⟨hpos, hend⟩ := hcopy hmore
      have hidx' : u32 (i32 (idx + copyLength)) = u32 idx + u32 copyLength := by
        rw [u32_i32_add, u32_of_range (by unfold u32; omega) (by omega)]
      have hcopied' : u32 (i32 (bytesCopied + copyLength)) = u32 idx + u32 copyLength := by
        rw [u32_i32_add, hcopied, ← u32_i32_add, hidx']
      have hleft : u32 (length - i32 (bytesCopied + copyLength)) =
          length - (u32 idx + u32 copyLength) := by
        rw [← hcopied']
        unfold u32 at *
        omega
      refine ih _ _ _ _ _ _ _ (by omega) (by omega) (fun hnext ↦ ?_) (by push_cast at hfuel; omega)
      rw [hleft, hidx']
      rw [hidx'] at hnext
      have hnonneg := u32_nonneg idx
      unfold blockSize i32 u32 at *
      split_ifs <;> omega
    · rfl

section Rounds

variable {img : Image} {node : Inode} {length c : ℤ}

/-- A round of the copy loop, for a length and positions that are no less as an `int`: the next
round gets what is left, and no more than a block. -/
theorem readDataLoop_round (hlength : length < 2 ^ 31) (hc : 0 ≤ c) (hmore : c < length)
    {copyLength : ℤ} (hpos : 0 < copyLength) (hend : c + copyLength ≤ length) (fuel : ℕ)
    (memory : ℤ → UInt8) (dataIdx copyData : ℤ) :
    readDataLoop img node length (fuel + 1) memory c c dataIdx copyData copyLength c =
      if c > maxFileSize then some (length, memory)
      else if (node.dataBlockNum dataIdx.toNat).toInt > img.dataCount.toInt then
        some (-1, memcpy memory c img.dataBlocks copyData copyLength)
      else
        readDataLoop img node length fuel (memcpy memory c img.dataBlocks copyData copyLength)
          (c + copyLength) (c + copyLength) (dataIdx + 1)
          ((node.dataBlockNum (dataIdx + 1).toNat).toInt * blockSize)
          (min blockSize (length - (c + copyLength))) (c + copyLength) := by
  have hcount : i32 length = length := i32_of_range (by omega) hlength
  have hidx : u32 c = c := u32_of_range hc (by omega)
  have hsize : u32 copyLength = copyLength := u32_of_range hpos.le (by omega)
  have hnext : i32 (c + copyLength) = c + copyLength := i32_of_range (by omega) (by omega)
  have hleft : u32 (length - (c + copyLength)) = length - (c + copyLength) :=
    u32_of_range (by omega) (by omega)
  have hleft' : i32 (length - (c + copyLength)) = length - (c + copyLength) :=
    i32_of_range (by omega) (by omega)
  have hsmall : (if (if length - (c + copyLength) > blockSize then blockSize
        else length - (c + copyLength)) > blockSize then blockSize
      else if length - (c + copyLength) > blockSize then blockSize
        else length - (c + copyLength)) = min blockSize (length - (c + copyLength)) := by
    split_ifs <;> omega
  rw [readDataLoop, hidx, hcount, if_pos hmore, hsize, hnext]
  simp only [hleft, hleft', hsmall]

/-- The copy loop ends with its length as the value. -/
theorem readDataLoop_done (hlength : length < 2 ^ 31) (hnonneg : 0 ≤ length) (fuel : ℕ)
    (memory : ℤ → UInt8) (dataIdx copyData copyLength : ℤ) :
    readDataLoop img node length (fuel + 1) memory length length dataIdx copyData copyLength
      length = some (length, memory) := by
  rw [readDataLoop, u32_of_range hnonneg (by omega), if_neg (lt_irrefl _),
    i32_of_range (by omega) hlength]

end Rounds

end Sp18.Kernel
