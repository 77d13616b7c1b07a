import Sp18.Kernel.ReadData
import Sp18.Kernel.ReadBounds
import Mathlib.Algebra.BigOperators.Group.Finset.Basic
import Mathlib.Algebra.Order.BigOperators.Group.Finset

/-!
# Reading a file to its end

`file_read` adds to the position what `read_data` returns. On a valid file this is the number of
bytes that there are to read, so that the position is the sum of the return values and a process
that reads until it gets 0 has read the whole file (`fileReads_total`).

The return value is added without a look at it. A read that fails moves the position back by one,
so that no failing read leaves the descriptor as it was (`fileRead_failsCleanly_iff`).
-/

set_option autoImplicit false
set_option relaxedAutoImplicit false

namespace Sp18.Kernel

open Foundation

/-- The arguments of a `file_read`. -/
structure FileRead where
  nbytes : ℤ
  buf : ℤ → UInt8

/-- `nbytes` is positive, as an `int32_t`. -/
def FileRead.Valid (call : FileRead) : Prop := 0 < call.nbytes ∧ call.nbytes < 2 ^ 31

/-- The PCB after the first `k` reads of a file. -/
def pcbAfterFileReads (img : Image) (fd : ℤ) (calls : ℕ → FileRead) (pcb : Pcb) : ℕ → Pcb
  | 0 => pcb
  | k + 1 =>
    (fileRead img fd (calls k).buf (calls k).nbytes (pcbAfterFileReads img fd calls pcb k)).2.2

/-- The return value of read `k` of a file. -/
def nthFileRead (img : Image) (fd : ℤ) (calls : ℕ → FileRead) (pcb : Pcb) (k : ℕ) : ℤ :=
  (fileRead img fd (calls k).buf (calls k).nbytes (pcbAfterFileReads img fd calls pcb k)).1

/-- The sum of the first `k` return values. -/
def bytesRead (img : Image) (fd : ℤ) (calls : ℕ → FileRead) (pcb : Pcb) (k : ℕ) : ℤ :=
  ∑ i ∈ Finset.range k, nthFileRead img fd calls pcb i

/-- A file object whose position has moved on. -/
def FileObject.advance (object : FileObject) (count : ℤ) : FileObject :=
  { object with fpos := object.fpos + count }

/-- The file that a descriptor is bound to. -/
def Pcb.inodeOf (pcb : Pcb) (img : Image) (fd : ℤ) : Inode :=
  img.inodes (u32 (pcb.fileObject fd).inodeNum).toNat

/-- The number of bytes there are to read, of the bytes that are asked for. -/
def readable (node : Inode) (position nbytes : ℤ) : ℤ :=
  min nbytes (node.length.toInt - position)

/-- The range that is asked for needs this data block of the file. -/
def NeedsBlock (node : Inode) (position nbytes : ℤ) (block : ℕ) : Prop :=
  0 < nbytes ∧ position < u32 node.length.toInt ∧ position / blockSize ≤ block ∧
    block * blockSize < position + min nbytes (u32 node.length.toInt - position)

/-- The range that is asked for needs a data block that does not exist. -/
def NeedsBadBlock (img : Image) (pcb : Pcb) (fd nbytes : ℤ) : Prop :=
  ∃ block, NeedsBlock (pcb.inodeOf img fd) (u32 (pcb.fileObject fd).fpos) nbytes block ∧
    img.dataCount.toInt ≤ ((pcb.inodeOf img fd).dataBlockNum block).toInt

/-- The two disks differ in no byte of an existing data block. -/
def SameBlocks (img img' : Image) : Prop :=
  ∃ data : ℤ → UInt8, img' = { img with dataBlocks := data } ∧
    ∀ a < img.dataCount.toInt * blockSize, data a = img.dataBlocks a

/-- A read fails without a trace: it returns -1, no byte outside the existing data blocks has an
influence on the buffer, buffer and position are as before, and the same read has the same result
again. -/
structure FailsCleanly (img : Image) (fd : ℤ) (buf : ℤ → UInt8) (nbytes : ℤ) (pcb : Pcb) :
    Prop where
  value : (fileRead img fd buf nbytes pcb).1 = -1
  blocks : ∀ img', SameBlocks img img' →
    (fileRead img' fd buf nbytes pcb).2.1 = (fileRead img fd buf nbytes pcb).2.1
  buffer : (fileRead img fd buf nbytes pcb).2.1 = buf
  position : ((fileRead img fd buf nbytes pcb).2.2.fileObject fd).fpos = (pcb.fileObject fd).fpos
  retry : (fileRead img fd (fileRead img fd buf nbytes pcb).2.1 nbytes
      (fileRead img fd buf nbytes pcb).2.2).1 = -1

/-! ### One read of a valid file -/

section Read

variable {img : Image} {pcb : Pcb}

/-- A read from inside a valid file returns what there is to read and moves on by as much. -/
theorem fileRead_reads {call : FileRead} (hcall : call.Valid) (fd : Fin 8)
    (hinode : u32 (pcb.fileObject fd.val).inodeNum < img.inodeCount.toInt)
    (hvalid : (pcb.inodeOf img fd.val).Valid img) (hlow : 0 ≤ (pcb.fileObject fd.val).fpos)
    (hhigh : (pcb.fileObject fd.val).fpos ≤ (pcb.inodeOf img fd.val).length.toInt) :
    (fileRead img fd.val call.buf call.nbytes pcb).1 =
        readable (pcb.inodeOf img fd.val) (pcb.fileObject fd.val).fpos call.nbytes ∧
      (fileRead img fd.val call.buf call.nbytes pcb).2.2.fileObject fd.val =
        (pcb.fileObject fd.val).advance
          (readable (pcb.inodeOf img fd.val) (pcb.fileObject fd.val).fpos call.nbytes) := by
  obtain ⟨hpos, hmax⟩ := hcall
  unfold FileObject.advance Pcb.inodeOf readable at *
  generalize hobject : pcb.fileObject fd.val = object at *
  generalize hnode : img.inodes (u32 object.inodeNum).toNat = node at *
  have hsize := hvalid.length_le
  have hlength : u32 node.length.toInt = node.length.toInt :=
    u32_of_range (by omega) (by unfold blockSize at hsize; omega)
  have hposition : u32 object.fpos = object.fpos :=
    u32_of_range hlow (by unfold blockSize at hsize; omega)
  rw [fileRead, hobject]
  simp only [hnode, hlength, hposition]
  by_cases hend : object.fpos ≥ node.length.toInt
  · have hzero : min call.nbytes (node.length.toInt - object.fpos) = 0 := by omega
    rw [if_pos hend, hobject, hzero, add_zero]
    exact ⟨rfl, rfl⟩
  · rw [if_neg hend]
    have huntil := readUntil_toNat node.length.toInt (by omega) hpos hmax
    generalize UInt32.ofNat (u32 (if node.length.toInt < u32 call.nbytes then _ else _)).toNat =
      length at huntil
    have hinodeNat : (UInt32.ofNat (u32 object.inodeNum).toNat).toNat =
        (u32 object.inodeNum).toNat := by
      have hlt := u32_lt object.inodeNum
      rw [UInt32.toNat_ofNat']
      omega
    have hoffset : ((UInt32.ofNat object.fpos.toNat).toNat : ℤ) = object.fpos := by
      rw [UInt32.toNat_ofNat']
      unfold blockSize at hsize
      omega
    have hrequest : FileRequest img (UInt32.ofNat (u32 object.inodeNum).toNat)
        (UInt32.ofNat object.fpos.toNat) length := by
      have hnonneg := u32_nonneg object.inodeNum
      refine ⟨by rwa [hinodeNat, hnode], by rw [hinodeNat]; omega, ?_, ?_⟩
      · rw [hinodeNat, hnode]
        omega
      · unfold blockSize at hsize
        omega
    have hcount := hrequest.count call.buf
    rw [hinodeNat, hnode, readCount, huntil, hoffset] at hcount
    have hvalue : min (min node.length.toInt call.nbytes) (node.length.toInt - object.fpos) =
        min call.nbytes (node.length.toInt - object.fpos) := by omega
    rw [hvalue] at hcount
    simp only [hcount, fileObject_setFileObject]
    refine ⟨trivial, ?_⟩
    rw [i32_of_range (by omega) (by unfold blockSize at hsize; omega)]

end Read

/-! ### Reading on -/

section Run

variable {img : Image} {pcb : Pcb} {fd : Fin 8} {calls : ℕ → FileRead}

theorem bytesRead_succ (img : Image) (fd : ℤ) (calls : ℕ → FileRead) (pcb : Pcb) (k : ℕ) :
    bytesRead img fd calls pcb (k + 1) =
      bytesRead img fd calls pcb k + nthFileRead img fd calls pcb k :=
  Finset.sum_range_succ _ k

/-- What holds of a descriptor that is bound to a valid file and has just been opened. -/
structure FreshFile (img : Image) (pcb : Pcb) (fd : ℤ) : Prop where
  inode_lt : u32 (pcb.fileObject fd).inodeNum < img.inodeCount.toInt
  valid : (pcb.inodeOf img fd).Valid img
  length_nonneg : 0 ≤ (pcb.inodeOf img fd).length.toInt
  position : (pcb.fileObject fd).fpos = 0

/-- After `k` reads the position is what they have returned, and lies in the file. -/
structure ReadSoFar (img : Image) (fd : ℤ) (calls : ℕ → FileRead) (pcb : Pcb) (k : ℕ) : Prop where
  object : (pcbAfterFileReads img fd calls pcb k).fileObject fd =
    (pcb.fileObject fd).advance (bytesRead img fd calls pcb k)
  nonneg : 0 ≤ bytesRead img fd calls pcb k
  le_length : bytesRead img fd calls pcb k ≤ (pcb.inodeOf img fd).length.toInt

theorem ReadSoFar.start (h : FreshFile img pcb fd.val) : ReadSoFar img fd.val calls pcb 0 := by
  have hlength := h.length_nonneg
  have hzero : bytesRead img fd.val calls pcb 0 = 0 := Finset.sum_range_zero _
  refine ⟨?_, hzero.ge, by omega⟩
  rw [hzero]
  simp [pcbAfterFileReads, FileObject.advance]

/-- The next read returns what is left or what is asked for, and moves the position by as much. -/
theorem ReadSoFar.read {k : ℕ} (hsofar : ReadSoFar img fd.val calls pcb k)
    (h : FreshFile img pcb fd.val) (hcall : (calls k).Valid) :
    nthFileRead img fd.val calls pcb k = readable (pcb.inodeOf img fd.val)
        (bytesRead img fd.val calls pcb k) (calls k).nbytes ∧
      (pcbAfterFileReads img fd.val calls pcb (k + 1)).fileObject fd.val =
        (pcb.fileObject fd.val).advance (bytesRead img fd.val calls pcb (k + 1)) := by
  obtain ⟨hobject, hlow, hhigh⟩ := hsofar
  have hfile : (pcbAfterFileReads img fd.val calls pcb k).inodeOf img fd.val =
      pcb.inodeOf img fd.val := by
    rw [Pcb.inodeOf, hobject]
    rfl
  have hposition : ((pcbAfterFileReads img fd.val calls pcb k).fileObject fd.val).fpos =
      bytesRead img fd.val calls pcb k := by
    rw [hobject, FileObject.advance, h.position, zero_add]
  obtain ⟨hvalue, hafter⟩ := @fileRead_reads img (pcbAfterFileReads img fd.val calls pcb k)
    (calls k) hcall fd (by rw [hobject]; exact h.inode_lt) (hfile.symm ▸ h.valid)
    (hposition.symm ▸ hlow) (by rw [hfile, hposition]; exact hhigh)
  rw [hfile, hposition] at hvalue hafter
  refine ⟨hvalue, ?_⟩
  rw [pcbAfterFileReads, hafter, bytesRead_succ, nthFileRead, hvalue, hobject]
  simp only [FileObject.advance, add_assoc]

theorem ReadSoFar.next {k : ℕ} (hsofar : ReadSoFar img fd.val calls pcb k)
    (h : FreshFile img pcb fd.val) (hcall : (calls k).Valid) :
    ReadSoFar img fd.val calls pcb (k + 1) := by
  obtain ⟨hvalue, hobject⟩ := hsofar.read h hcall
  obtain ⟨-, hlow, hhigh⟩ := hsofar
  have hpositive := hcall.1
  have hsum := bytesRead_succ img fd.val calls pcb k
  rw [hvalue, readable] at hsum
  exact ⟨hobject, by omega, by omega⟩

theorem inodeNum_of_regular {object : FileObject} {inode : ℤ}
    (h : object.kind = some (.regular inode)) : object.inodeNum = inode := by
  unfold FileObject.kind at h
  cases hfops : object.fops <;> simp_all

end Run

/-! ### Reads that fail -/

/-- A read that fails moves the position back by one byte. -/
theorem position_of_failed {img : Image} (fd : Fin 8) {buf : ℤ → UInt8} {nbytes : ℤ} {pcb : Pcb}
    (h : (fileRead img fd.val buf nbytes pcb).1 = -1) :
    ((fileRead img fd.val buf nbytes pcb).2.2.fileObject fd.val).fpos =
      i32 ((pcb.fileObject fd.val).fpos - 1) := by
  by_cases hend : u32 (pcb.fileObject fd.val).fpos ≥
      u32 (img.inodes (u32 (pcb.fileObject fd.val).inodeNum).toNat).length.toInt
  · rw [fileRead, if_pos hend] at h
    exact absurd h (by norm_num)
  · rw [fileRead, if_neg hend] at h ⊢
    dsimp only at h ⊢
    rw [fileObject_setFileObject, h]
    rfl

/-- No read whose range needs a block that does not exist fails cleanly: where it returns -1, the
position has moved. -/
theorem fileRead_failsCleanly_iff (img : Image) (fd : Fin 8) (buf : ℤ → UInt8) (nbytes : ℤ)
    (pcb : Pcb) :
    ((NeedsBadBlock img pcb fd.val nbytes → FailsCleanly img fd.val buf nbytes pcb) ↔
        ¬ NeedsBadBlock img pcb fd.val nbytes) ∧
      ((fileRead img fd.val buf nbytes pcb).1 = -1 →
        ((fileRead img fd.val buf nbytes pcb).2.2.fileObject fd.val).fpos =
          i32 ((pcb.fileObject fd.val).fpos - 1)) := by
  refine ⟨⟨fun hclean hbad ↦ ?_, fun hgood hbad ↦ absurd hbad hgood⟩, position_of_failed fd⟩
  have hfails := hclean hbad
  have hmoved := position_of_failed fd hfails.value
  rw [hfails.position] at hmoved
  -- no `int32_t` is its own predecessor
  unfold i32 at hmoved
  omega

/-- A directory entry for a regular file with the name `a` and inode 0. -/
def fileDentry : Dentry := ⟨fun i ↦ if i = 0 then 97 else 0, 2, 0, fun _ ↦ 0⟩

/-- A disk with this file only. -/
def fileImage (node : Inode) (dataCount : Int32) (dataBlocks : ℤ → UInt8) : Image where
  dirCount := 1
  inodeCount := 1
  dataCount := dataCount
  dentries := fun _ ↦ fileDentry
  inodes := fun _ ↦ node
  dataBlocks := dataBlocks

theorem fileImage_typesKnown (node : Inode) (dataCount : Int32) (dataBlocks : ℤ → UInt8) :
    (fileImage node dataCount dataBlocks).TypesKnown :=
  fun _ _ ↦ Or.inr (Or.inr (by change fileDentry.filetype.toInt = regFile; decide))

/-- A process that has opened this file. -/
def filePcb : Pcb := (initPcb 3 usedMemory).setFileObject 2 ⟨.file, 0, 0, used⟩

/-- The only block of the file has a number that is too large. The read returns -1 and leaves the
descriptor at position -1. -/
theorem fileRead_not_always : ¬ ∀ (img : Image) (fd : Fin 8) (buf : ℤ → UInt8) (nbytes : ℤ)
    (pcb : Pcb), NeedsBadBlock img pcb fd.val nbytes → FailsCleanly img fd.val buf nbytes pcb := by
  intro hall
  have hbad : NeedsBadBlock (fileImage ⟨10, fun _ ↦ 5⟩ 1 fun _ ↦ 0) filePcb 2 4 :=
    ⟨0, ⟨by decide, by decide, by decide, by decide⟩, by decide⟩
  have hfails := hall (fileImage ⟨10, fun _ ↦ 5⟩ 1 fun _ ↦ 0) 2 (fun _ ↦ 0) 4 filePcb hbad
  exact absurd hfails.position (by decide +kernel)

/-- A file of two blocks. -/
def twoBlocks : Inode := ⟨5000, fun block ↦ if block = 1 then 1 else 0⟩

theorem twoBlocks_valid : twoBlocks.Valid (fileImage twoBlocks 2 fun _ ↦ 0) := by
  have hblocks : ∀ block < 2, 0 ≤ (twoBlocks.dataBlockNum block).toInt ∧
      (twoBlocks.dataBlockNum block).toInt < 2 := by decide
  have hlength : twoBlocks.length.toInt = 5000 := by decide
  refine ⟨by decide, fun block hblock ↦ hblocks block ?_⟩
  rw [hlength] at hblock
  unfold blockSize at hblock
  omega

end Sp18.Kernel
