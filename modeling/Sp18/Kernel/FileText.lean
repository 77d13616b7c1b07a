import Sp18.Kernel.FileReading
import Sp18.Kernel.Listing

/-!
# The text of a file

What a name stands for, and what `read_data` and `file_read` get from a valid file: the bytes that
follow the position, as far as the request goes and the file has bytes left (`readData_text`,
`fileRead_text`). This needs one of two things of a request that starts behind the first block of
the file: it stays inside a block (`readsOn_aligned`), or the blocks of the file stand one after the
other on the disk (`readsOn_consecutive`).
-/

set_option autoImplicit false
set_option relaxedAutoImplicit false

namespace Sp18.Kernel

open Foundation

/-- The bytes of a file. -/
def fileText (img : Image) (node : Inode) : List UInt8 :=
  valuesAt (fileByte img node) 0 node.length.toInt.toNat

/-- The blocks of a file from its second one on stand one after the other on the disk. -/
def Consecutive (node : Inode) : Prop :=
  ∀ block : ℕ, 1 ≤ block → ((block : ℤ) + 1) * blockSize < node.length.toInt →
    (node.dataBlockNum (block + 1)).toInt = (node.dataBlockNum block).toInt + 1

/-- The bytes of the disk behind a position of a file are the next `count` bytes of the file, where
`read_data` relies on it. -/
def ReadsOn (img : Image) (node : Inode) (position count : ℤ) : Prop :=
  blockSize ≤ position → ∀ k, 0 ≤ k → k < count →
    followingByte img node position k = fileByte img node (position + k)

/-- The disk has a valid file with this inode. -/
structure HasFile (img : Image) (inode : ℤ) : Prop where
  inode_lt : u32 inode < img.inodeCount.toInt
  valid : (img.inodes (u32 inode).toNat).Valid img
  length_nonneg : 0 ≤ (img.inodes (u32 inode).toNat).length.toInt

/-! ### Layouts -/

section Layout

variable {img : Image} {node : Inode} {position count : ℤ}

/-- A request that stays inside a block. -/
theorem readsOn_aligned (hblock : position % blockSize + count ≤ blockSize) :
    ReadsOn img node position count := by
  intro _ k hlow hhigh
  have hquotient : (position + k) / blockSize = position / blockSize := by
    unfold blockSize at *
    omega
  have hrest : (position + k) % blockSize = position % blockSize + k := by
    unfold blockSize at *
    omega
  rw [followingByte, fileByte, hquotient, hrest, add_assoc]

theorem Consecutive.add (h : Consecutive node) {block : ℕ} (hblock : 1 ≤ block) (j : ℕ)
    (hlength : ((block : ℤ) + j) * blockSize < node.length.toInt) :
    (node.dataBlockNum (block + j)).toInt = (node.dataBlockNum block).toInt + j := by
  induction j with
  | zero => rw [Nat.add_zero, Nat.cast_zero, add_zero]
  | succ j ih =>
    push_cast at hlength ⊢
    have hless : ((block : ℤ) + j) * blockSize < node.length.toInt := by
      unfold blockSize at *
      omega
    have hnext := h (block + j) (by omega) (by push_cast; rw [add_assoc]; exact hlength)
    rw [← Nat.add_assoc, hnext, ih hless]
    ring

/-- A request of a file whose blocks follow each other. -/
theorem readsOn_consecutive (h : Consecutive node)
    (hend : position + count ≤ node.length.toInt) : ReadsOn img node position count := by
  intro hlater k hlow hhigh
  obtain ⟨block, hblock⟩ : ∃ block : ℕ, position / blockSize = block :=
    ⟨(position / blockSize).toNat, by unfold blockSize at *; omega⟩
  obtain ⟨j, hj⟩ : ∃ j : ℕ, (position + k) / blockSize = block + j :=
    ⟨((position + k) / blockSize - block).toNat, by unfold blockSize at *; omega⟩
  have hsecond : 1 ≤ block := by
    unfold blockSize at *
    omega
  have hnumber := h.add hsecond j (by unfold blockSize at *; omega)
  rw [followingByte, fileByte, hblock, hj]
  have hnat : ((block : ℤ) + j).toNat = block + j := by omega
  rw [hnat, hnumber, Int.toNat_natCast]
  congr 1
  unfold blockSize at *
  omega

end Layout

/-! ### One read -/

theorem length_fileText (img : Image) (node : Inode) :
    (fileText img node).length = node.length.toInt.toNat :=
  length_valuesAt _ _ _

theorem getElem_fileText (img : Image) (node : Inode) {i : ℕ} (h : i < (fileText img node).length) :
    (fileText img node)[i] = fileByte img node i := by
  simp only [fileText, valuesAt, List.getElem_map, List.getElem_range, zero_add]

section Read

variable {img : Image} {pcb : Pcb}

/-- `read_data` stores the bytes of the file into the buffer. -/
theorem readData_text {inode offset length : UInt32} (h : FileRequest img inode offset length)
    (buffer : ℤ → UInt8) (hlength : (length.toNat : ℤ) ≤ maxFileSize)
    (hreads : ReadsOn img (img.inodes inode.toNat) offset.toNat
      (readCount (img.inodes inode.toNat) offset length)) :
    readData img inode offset buffer length = (readCount (img.inodes inode.toNat) offset length,
      storeList buffer 0 (((fileText img (img.inodes inode.toNat)).drop offset.toNat).take
        length.toNat)) := by
  have hstop := readStop_spec offset.toNat
  have hfile : ReadsFile img inode offset buffer length := by
    rw [readsFile_iff h]
    refine ⟨fun _ k hlow hhigh ↦ ?_, fun hlater ↦ hreads hlater⟩
    unfold readCount at hhigh
    omega
  have hoffset := h.offset_lt
  have hcount := hfile.count
  have hbytes := hfile.bytes
  have hrest := hfile.rest
  generalize hnode : img.inodes inode.toNat = node at *
  have htake : ((((fileText img node).drop offset.toNat).take length.toNat).length : ℤ) =
      readCount node offset length := by
    rw [List.length_take, List.length_drop, length_fileText, readCount]
    omega
  refine Prod.ext hcount (funext fun k ↦ ?_)
  by_cases hin : 0 ≤ k ∧ k < readCount node offset length
  · obtain ⟨i, rfl⟩ := Int.eq_ofNat_of_zero_le hin.1
    have hi : i < (((fileText img node).drop offset.toNat).take length.toNat).length := by omega
    have hstored := @storeList_apply _ buffer 0 _ i hi
    rw [zero_add] at hstored
    rw [hbytes i hin.1 hin.2]
    dsimp only
    rw [hstored, List.getElem_take, List.getElem_drop, getElem_fileText]
    push_cast
    rfl
  · rw [hrest k (by omega)]
    exact (storeList_outside (by omega)).symm

/-- `file_read` stores the bytes that follow the position, and moves on. -/
theorem fileRead_text {fd : Fin 8} {inode position nbytes : ℤ} (hfile : HasFile img inode)
    (hinode : (pcb.fileObject fd.val).inodeNum = inode)
    (hposition : (pcb.fileObject fd.val).fpos = position) (hlow : 0 ≤ position)
    (hhigh : position ≤ (img.inodes (u32 inode).toNat).length.toInt) (hpos : 0 < nbytes)
    (hmax : nbytes ≤ maxFileSize)
    (hreads : ReadsOn img (img.inodes (u32 inode).toNat) position
      (readable (img.inodes (u32 inode).toNat) position nbytes)) (buf : ℤ → UInt8) :
    fileRead img fd.val buf nbytes pcb = (readable (img.inodes (u32 inode).toNat) position nbytes,
      storeList buf 0 (((fileText img (img.inodes (u32 inode).toNat)).drop position.toNat).take
        nbytes.toNat),
      pcb.setFileObject fd.val ((pcb.fileObject fd.val).advance
        (readable (img.inodes (u32 inode).toNat) position nbytes))) := by
  have hsmall : maxFileSize < 2 ^ 31 := by decide
  obtain ⟨hinodeLt, hvalid, hnonneg⟩ := hfile
  generalize hnode : img.inodes (u32 inode).toNat = node at *
  have hsize := hvalid.length_le
  have hlength : u32 node.length.toInt = node.length.toInt :=
    u32_of_range (by omega) (by unfold blockSize at hsize; omega)
  have hunsigned : u32 position = position :=
    u32_of_range hlow (by unfold blockSize at hsize; omega)
  rw [fileRead]
  simp only [hinode, hposition, hnode, hlength, hunsigned]
  by_cases hend : position ≥ node.length.toInt
  · have hzero : readable node position nbytes = 0 := by
      unfold readable
      omega
    have hnothing : ((fileText img node).drop position.toNat).take nbytes.toNat = [] := by
      rw [List.drop_eq_nil_of_le (by rw [length_fileText]; omega), List.take_nil]
    have hsame : (pcb.fileObject fd.val).advance 0 = pcb.fileObject fd.val := by
      rw [FileObject.advance, add_zero]
    have hunchanged : pcb.setFileObject fd.val (pcb.fileObject fd.val) = pcb := by
      rw [setFileObject_of_lt _ fd.isLt, fileObject_of_lt _ fd.isLt, Function.update_eq_self]
    rw [if_pos hend, hzero, hnothing, hsame, hunchanged]
    rfl
  · rw [if_neg hend]
    have huntil := readUntil_toNat node.length.toInt (by omega) hpos (by omega)
    generalize UInt32.ofNat (u32 (if node.length.toInt < u32 nbytes then _ else _)).toNat =
      length at huntil
    have hinodeNat : (UInt32.ofNat (u32 inode).toNat).toNat = (u32 inode).toNat := by
      have hlt := u32_lt inode
      rw [UInt32.toNat_ofNat']
      omega
    have hoffset : (UInt32.ofNat position.toNat).toNat = position.toNat := by
      rw [UInt32.toNat_ofNat']
      unfold blockSize at hsize
      omega
    have hrequest : FileRequest img (UInt32.ofNat (u32 inode).toNat)
        (UInt32.ofNat position.toNat) length := by
      have hunsignedInode := u32_nonneg inode
      refine ⟨by rwa [hinodeNat, hnode], by rw [hinodeNat]; omega, ?_, ?_⟩
      · rw [hinodeNat, hnode, hoffset]
        omega
      · rw [hoffset]
        unfold blockSize at hsize
        omega
    have hcount : readCount node (UInt32.ofNat position.toNat) length =
        readable node position nbytes := by
      rw [readCount, huntil, hoffset, readable]
      omega
    have htext := readData_text hrequest buf (by omega) (by
      rw [hinodeNat, hnode, hcount, hoffset, Int.toNat_of_nonneg hlow]
      exact hreads)
    rw [hinodeNat, hnode, hcount, hoffset] at htext
    -- the request has been cut off at the length of the file already
    have hcut : ((fileText img node).drop position.toNat).take length.toNat =
        ((fileText img node).drop position.toNat).take nbytes.toNat := by
      rw [List.take_eq_take_iff, List.length_drop, length_fileText]
      omega
    have hnext : i32 (position + readable node position nbytes) =
        position + readable node position nbytes := by
      unfold readable
      exact i32_of_range (by omega) (by unfold blockSize at hsize; omega)
    simp only [htext, hcut, hnext, FileObject.advance, hposition, hinode]

end Read

/-! ### Names -/

section Lookup

variable {img : Image}

/-- What a name stands for is decided by the first entry with it. -/
theorem lookup_of_firstNamed (htypes : img.TypesKnown) {filename : ℕ → UInt8} {name : List UInt8}
    (hname : HoldsString filename name) {idx : ℕ} (hfirst : img.FirstNamed name idx) :
    img.lookup filename = (img.dentries idx).kind := by
  simp only [Image.lookup, readDentryByName_of_firstNamed htypes.namesEnd hname hfirst]
  rfl

/-- No entry has the name. -/
theorem lookup_of_unknown (htypes : img.TypesKnown) {filename : ℕ → UInt8} {name : List UInt8}
    (hname : HoldsString filename name)
    (hunknown : ∀ idx : ℕ, (idx : ℤ) < u32 img.dirCount.toInt → (img.dentries idx).name ≠ name) :
    img.lookup filename = none := by
  rcases readDentryByName_found_or_unknown htypes.namesEnd hname with
    ⟨found, hfound, -⟩ | ⟨-, hread⟩
  · exact absurd hfound.name_eq (hunknown found hfound.index_lt)
  · simp only [Image.lookup, hread, if_true]

end Lookup

end Sp18.Kernel
