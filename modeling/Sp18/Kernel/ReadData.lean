import Sp18.Kernel.Filesys

/-!
# What `read_data` reads

The bytes of a file are the bytes of its data blocks in the order of the inode's block list
(`fileByte`), whatever numbers the blocks have. `read_data` walks that list correctly as long as
the request starts in the file's first block: each round of the copy loop ends at a block boundary
or at the end of the request (`readDataLoop_value`), until the loop gives up at `readStop` bytes,
the first block boundary past `MAX_FILE_SIZE`.

A request that starts in a later block is copied by one `memcpy`: the remaining room
`BLOCK_SIZE - offset` of the first block is not positive there, and both conditional expressions
that correct it put the whole length in its place. Such a request is read from consecutive memory,
whatever the block list says (`readData_of_later`).
-/

set_option autoImplicit false
set_option relaxedAutoImplicit false

namespace Sp18.Kernel

open Foundation

/-- Every data block that a file uses exists, and no file is longer than its block list. -/
def Image.ValidFiles (img : Image) : Prop :=
  ∀ inode : ℕ, (inode : ℤ) < img.inodeCount.toInt →
    (img.inodes inode).length.toInt ≤ 1023 * blockSize ∧
      ∀ block : ℕ, (block : ℤ) * blockSize < (img.inodes inode).length.toInt →
        0 ≤ ((img.inodes inode).dataBlockNum block).toInt ∧
          ((img.inodes inode).dataBlockNum block).toInt < img.dataCount.toInt

/-- The data blocks that one file uses exist, and it is no longer than its block list. -/
structure Inode.Valid (node : Inode) (img : Image) : Prop where
  length_le : node.length.toInt ≤ 1023 * blockSize
  block : ∀ block : ℕ, (block : ℤ) * blockSize < node.length.toInt →
    0 ≤ (node.dataBlockNum block).toInt ∧ (node.dataBlockNum block).toInt < img.dataCount.toInt

/-- Byte `i` of a file. -/
def fileByte (img : Image) (node : Inode) (i : ℤ) : UInt8 :=
  img.dataBlocks ((node.dataBlockNum (i / blockSize).toNat).toInt * blockSize + i % blockSize)

/-- Byte `k` of the memory that starts at the byte of offset `offset` in its data block. -/
def followingByte (img : Image) (node : Inode) (offset k : ℤ) : UInt8 :=
  img.dataBlocks ((node.dataBlockNum (offset / blockSize).toNat).toInt * blockSize +
    offset % blockSize + k)

/-- The number of bytes a read is asked for and the file has. -/
def readCount (node : Inode) (offset length : UInt32) : ℤ :=
  min length.toNat (node.length.toInt - offset.toNat)

/-- The number of bytes after which the copy loop gives up, for a read that starts at `offset` in
the first block: the first block boundary past `MAX_FILE_SIZE`. -/
def readStop (offset : ℤ) : ℤ :=
  blockSize - offset + blockSize * ((maxFileSize - (blockSize - offset)) / blockSize + 1)

theorem readCount_le (node : Inode) (offset length : UInt32) :
    offset.toNat + readCount node offset length ≤ node.length.toInt := by
  unfold readCount
  omega

/-- The read does what its caller expects: it returns the number of bytes there are to read, puts
the bytes of the file into the buffer, and changes nothing outside it. -/
structure ReadsFile (img : Image) (inode offset : UInt32) (buffer : ℤ → UInt8)
    (length : UInt32) : Prop where
  count : (readData img inode offset buffer length).1 =
    readCount (img.inodes inode.toNat) offset length
  bytes : ∀ k, 0 ≤ k → k < readCount (img.inodes inode.toNat) offset length →
    (readData img inode offset buffer length).2 k =
      fileByte img (img.inodes inode.toNat) (offset.toNat + k)
  rest : ∀ k, k < 0 ∨ readCount (img.inodes inode.toNat) offset length ≤ k →
    (readData img inode offset buffer length).2 k = buffer k

theorem readStop_spec (offset : ℤ) : (offset + readStop offset) % blockSize = 0 ∧
    maxFileSize < readStop offset ∧ readStop offset ≤ maxFileSize + blockSize := by
  unfold readStop blockSize maxFileSize
  omega

section Loop

variable {img : Image} {node : Inode} {offset n : ℤ} {buffer : ℤ → UInt8}

/-- The buffer once the first `c` bytes of the request have been copied. -/
def copiedBytes (img : Image) (node : Inode) (offset : ℤ) (buffer : ℤ → UInt8) (c : ℤ) :
    ℤ → UInt8 :=
  fun k ↦ if 0 ≤ k ∧ k < c then fileByte img node (offset + k) else buffer k

/-- One round of the loop copies up to the next block boundary. -/
theorem memcpy_copiedBytes {c size : ℤ} (hc : 0 ≤ c) (hsize : 0 ≤ size)
    (hblock : size ≤ blockSize - (offset + c) % blockSize) :
    memcpy (copiedBytes img node offset buffer c) c img.dataBlocks
        ((node.dataBlockNum ((offset + c) / blockSize).toNat).toInt * blockSize +
          (offset + c) % blockSize) size =
      copiedBytes img node offset buffer (c + size) := by
  funext k
  unfold copiedBytes
  by_cases hk : c ≤ k ∧ k < c + size
  · rw [memcpy_inside _ _ hk.1 hk.2, if_pos (by omega), fileByte]
    -- the byte lies in the block the round copies from
    have hquot : (offset + k) / blockSize = (offset + c) / blockSize := by
      unfold blockSize at *
      omega
    have hrem : (offset + k) % blockSize = (offset + c) % blockSize + (k - c) := by
      unfold blockSize at *
      omega
    rw [hquot, hrem, add_assoc]
  · rw [memcpy_outside _ _ (by omega)]
    by_cases hlow : 0 ≤ k ∧ k < c
    · rw [if_pos hlow, if_pos (by omega)]
    · rw [if_neg hlow, if_neg (by omega)]

/-- The loop invariant of a read that starts in the first block. After `c` bytes the loop stands
at the start of the request, at its end or at a block boundary; where there is more to copy, the
next copy goes to the next block boundary. -/
theorem readDataLoop_value (hoffset : 0 ≤ offset) (hn : n < 2 ^ 31)
    (hvalid : ∀ block : ℕ, (block : ℤ) * blockSize < offset + n →
      (node.dataBlockNum block).toInt ≤ img.dataCount.toInt)
    (fuel : ℕ) (c dataIdx copyData copyLength : ℤ) (hc : 0 ≤ c) (hcn : c ≤ n)
    (hstop : c ≤ readStop offset)
    (hboundary : c = 0 ∨ c = n ∨ (offset + c) % blockSize = 0)
    (hmore : c < n → dataIdx = (offset + c) / blockSize ∧
      copyData = (node.dataBlockNum ((offset + c) / blockSize).toNat).toInt * blockSize +
        (offset + c) % blockSize ∧
      copyLength = min (blockSize - (offset + c) % blockSize) (n - c))
    (hfuel : n - c < fuel) :
    readDataLoop img node n fuel (copiedBytes img node offset buffer c) c c dataIdx copyData
        copyLength c =
      some (n, copiedBytes img node offset buffer (min n (readStop offset))) := by
  induction fuel generalizing c dataIdx copyData copyLength with
  | zero => omega
  | succ fuel ih =>
    obtain ⟨hstopBoundary, hstopLow, hstopHigh⟩ := readStop_spec offset
    by_cases hcmore : c < n
    · obtain ⟨hdata, hcopy, hlen⟩ := hmore hcmore
      have hblockPos : 0 < blockSize - (offset + c) % blockSize := by
        unfold blockSize
        omega
      have hlenPos : 0 < copyLength := by omega
      rw [readDataLoop_round hn hc hcmore hlenPos (by omega)]
      split_ifs with hcut hblock
      · -- past `MAX_FILE_SIZE`: the loop gives up, and it stands at `readStop`
        have hc_eq : c = readStop offset := by
          unfold blockSize maxFileSize at *
          omega
        rw [hc_eq, min_eq_right (by omega)]
      · -- the block just copied was valid
        have hbad := hvalid dataIdx.toNat (by unfold blockSize at *; omega)
        omega
      · have hend : c + copyLength = n ∨ (offset + (c + copyLength)) % blockSize = 0 := by
          unfold blockSize at *
          omega
        rw [hcopy, memcpy_copiedBytes hc hlenPos.le (by omega)]
        refine ih _ _ _ _ (by omega) (by omega) ?_ (Or.inr hend) (fun hagain ↦ ?_)
          (by push_cast at hfuel; omega)
        · unfold blockSize maxFileSize at *
          omega
        · -- there is more to copy, so the round has reached a block boundary
          have haligned : (offset + (c + copyLength)) % blockSize = 0 := by omega
          have hnextIdx : dataIdx + 1 = (offset + (c + copyLength)) / blockSize := by
            unfold blockSize at *
            omega
          exact ⟨hnextIdx, by rw [hnextIdx, haligned, add_zero], by rw [haligned, sub_zero]⟩
    · obtain rfl : c = n := by omega
      rw [readDataLoop_done hn hc, min_eq_left (by omega)]

end Loop

/-- The two comparisons leave the room of the first block where it is positive. -/
theorem firstCopyLength_of_first {offset : UInt32} {n : ℤ}
    (hfirst : (offset.toNat : ℤ) < blockSize) (hnonneg : 0 ≤ n) (hn : n < 2 ^ 31) :
    firstCopyLength offset n = min (blockSize - offset.toNat) n := by
  have hroom : u32 (blockSize - offset.toNat) = blockSize - offset.toNat :=
    u32_of_range (by omega) (by unfold blockSize at *; omega)
  unfold firstCopyLength
  rw [hroom]
  unfold i32 u32 blockSize at *
  dsimp only
  split_ifs <;> omega

/-- They put the whole length in its place where the offset lies past the first block. -/
theorem firstCopyLength_of_later {offset : UInt32} {n : ℤ}
    (hlater : blockSize ≤ (offset.toNat : ℤ)) (hoffset : offset.toNat < 2 ^ 31)
    (hnonneg : 0 ≤ n) (hn : n < 2 ^ 31) : firstCopyLength offset n = n := by
  have hroom : i32 (u32 (blockSize - offset.toNat)) = blockSize - offset.toNat := by
    unfold i32 u32 blockSize at *
    omega
  unfold firstCopyLength
  rw [hroom, i32_of_range (by omega) (by omega)]
  unfold u32 blockSize at *
  dsimp only
  split_ifs <;> omega

/-- A request as the callers of `read_data` make it on a valid image: an existing inode, an offset
inside the file, and an end that does not wrap. -/
structure ReadRequest (img : Image) (inode offset length : UInt32) : Prop where
  valid : img.ValidFiles
  inode_lt : (inode.toNat : ℤ) < img.inodeCount.toInt
  offset_lt : (offset.toNat : ℤ) < (img.inodes inode.toNat).length.toInt
  noWrap : offset.toNat + length.toNat < 2 ^ 32

/-- The same request where only the file that is read need be valid. -/
structure FileRequest (img : Image) (inode offset length : UInt32) : Prop where
  valid : (img.inodes inode.toNat).Valid img
  inode_lt : (inode.toNat : ℤ) < img.inodeCount.toInt
  offset_lt : (offset.toNat : ℤ) < (img.inodes inode.toNat).length.toInt
  noWrap : offset.toNat + length.toNat < 2 ^ 32

theorem ReadRequest.fileRequest {img : Image} {inode offset length : UInt32}
    (h : ReadRequest img inode offset length) : FileRequest img inode offset length where
  valid := ⟨(h.valid inode.toNat h.inode_lt).1, (h.valid inode.toNat h.inode_lt).2⟩
  inode_lt := h.inode_lt
  offset_lt := h.offset_lt
  noWrap := h.noWrap

namespace FileRequest

variable {img : Image} {inode offset length : UInt32}

theorem fileLength_le (h : FileRequest img inode offset length) :
    (img.inodes inode.toNat).length.toInt ≤ 1023 * blockSize :=
  h.valid.length_le

theorem block_le (h : FileRequest img inode offset length) (block : ℕ)
    (hblock : (block : ℤ) * blockSize < (img.inodes inode.toNat).length.toInt) :
    ((img.inodes inode.toNat).dataBlockNum block).toInt ≤ img.dataCount.toInt :=
  (h.valid.block block hblock).2.le

theorem readCount_nonneg (h : FileRequest img inode offset length) :
    0 ≤ readCount (img.inodes inode.toNat) offset length := by
  have hoffset := h.offset_lt
  unfold readCount
  omega

theorem readLength_eq (h : FileRequest img inode offset length) :
    readLength (img.inodes inode.toNat) offset length =
      readCount (img.inodes inode.toNat) offset length := by
  have hoffset := h.offset_lt
  have hsize := h.fileLength_le
  have hwrap := h.noWrap
  unfold readLength readCount u32 blockSize at *
  dsimp only
  split_ifs <;> omega

/-- All the checks of `read_data` pass, and the result is that of the copy loop. -/
theorem readData_eq (h : FileRequest img inode offset length) (buffer : ℤ → UInt8) :
    readData img inode offset buffer length =
      (readDataLoop img (img.inodes inode.toNat) (readCount (img.inodes inode.toNat) offset length)
        ((readCount (img.inodes inode.toNat) offset length).toNat + 1) buffer 0 0
        (offset.toNat / blockSize)
        (((img.inodes inode.toNat).dataBlockNum (offset.toNat / blockSize : ℤ).toNat).toInt *
          blockSize + offset.toNat % blockSize)
        (firstCopyLength offset (readCount (img.inodes inode.toNat) offset length)) 0).getD
          (-1, buffer) := by
  have hinode := h.inode_lt
  have hoffset := h.offset_lt
  have hinodeCount : u32 img.inodeCount.toInt = img.inodeCount.toInt :=
    u32_of_range (by omega) (by have := img.inodeCount.toInt_lt; omega)
  have hlength : u32 (img.inodes inode.toNat).length.toInt =
      (img.inodes inode.toNat).length.toInt :=
    u32_of_range (by omega) (by have := (img.inodes inode.toNat).length.toInt_lt; omega)
  have hblock := h.block_le (offset.toNat / blockSize : ℤ).toNat (by
    unfold blockSize
    omega)
  rw [readData, if_neg (by omega), if_neg (by omega), h.readLength_eq, if_neg (by omega)]

/-- A read that starts in the first block reads the file up to `readStop`. -/
theorem readData_of_first (h : FileRequest img inode offset length) (buffer : ℤ → UInt8)
    (hfirst : (offset.toNat : ℤ) < blockSize) :
    readData img inode offset buffer length =
      (readCount (img.inodes inode.toNat) offset length,
        copiedBytes img (img.inodes inode.toNat) offset.toNat buffer
          (min (readCount (img.inodes inode.toNat) offset length) (readStop offset.toNat))) := by
  have hcount := h.readCount_nonneg
  have hend := readCount_le (img.inodes inode.toNat) offset length
  have hsize := h.fileLength_le
  have hstop := readStop_spec offset.toNat
  have hstart : buffer = copiedBytes img (img.inodes inode.toNat) offset.toNat buffer 0 := by
    funext k
    rw [copiedBytes, if_neg (by omega)]
  rw [h.readData_eq, hstart, readDataLoop_value (by omega) (by unfold blockSize at hsize; omega)
    (fun block hblock ↦ h.block_le block (by omega)) _ _ _ _ _ le_rfl hcount
    (by unfold maxFileSize at hstop; omega) (Or.inl rfl) (fun _ ↦ ?_) (by omega),
    Option.getD_some, ← hstart]
  refine ⟨by rw [add_zero], by rw [add_zero], ?_⟩
  rw [firstCopyLength_of_first hfirst hcount (by unfold blockSize at hsize; omega)]
  unfold blockSize at *
  omega

/-- A read that starts in a later block is one copy of consecutive memory. -/
theorem readData_of_later (h : FileRequest img inode offset length) (buffer : ℤ → UInt8)
    (hlater : blockSize ≤ (offset.toNat : ℤ)) :
    readData img inode offset buffer length =
      (readCount (img.inodes inode.toNat) offset length,
        fun k ↦ if 0 ≤ k ∧ k < readCount (img.inodes inode.toNat) offset length then
          followingByte img (img.inodes inode.toNat) offset.toNat k else buffer k) := by
  have hcount := h.readCount_nonneg
  have hend := readCount_le (img.inodes inode.toNat) offset length
  have hsize := h.fileLength_le
  have hoffset := h.offset_lt
  have hblock := h.block_le (offset.toNat / blockSize : ℤ).toNat (by
    unfold blockSize
    omega)
  rw [h.readData_eq]
  generalize hn : readCount (img.inodes inode.toNat) offset length = n at *
  have hcopy : firstCopyLength offset n = n :=
    firstCopyLength_of_later hlater (by unfold blockSize at hsize; omega) hcount
      (by unfold blockSize at hsize; omega)
  have hint : n < 2 ^ 31 := by
    unfold blockSize at hsize
    omega
  by_cases hempty : n = 0
  · subst hempty
    rw [readDataLoop_done hint le_rfl, Option.getD_some]
    congr 1
    funext k
    rw [if_neg (by omega)]
  · obtain ⟨fuel, hfuel⟩ : ∃ fuel, n.toNat = fuel + 1 := ⟨n.toNat - 1, by omega⟩
    -- the first round copies everything, the second finds nothing to do
    rw [hcopy, readDataLoop_round hint le_rfl (by omega) (by omega) (by omega),
      if_neg (by unfold maxFileSize; omega), if_neg (by omega), hfuel, zero_add,
      readDataLoop_done hint hcount, Option.getD_some]
    congr 1
    funext k
    unfold memcpy followingByte
    simp only [zero_add, sub_zero]

end FileRequest

/-- The bytes the request is answered with are the right ones: in the first block those that the
buffer already holds from `readStop` on, in a later block the memory that follows the first byte. -/
structure BytesAgree (img : Image) (node : Inode) (offset length : UInt32)
    (buffer : ℤ → UInt8) : Prop where
  first : (offset.toNat : ℤ) < blockSize → ∀ k, readStop offset.toNat ≤ k →
    k < readCount node offset length → buffer k = fileByte img node (offset.toNat + k)
  later : blockSize ≤ (offset.toNat : ℤ) → ∀ k, 0 ≤ k → k < readCount node offset length →
    followingByte img node offset.toNat k = fileByte img node (offset.toNat + k)

/-- The layouts that `read_data` reads correctly whatever the blocks hold: a request that starts
in the file's first block and ends before `readStop`, or one that starts in a later block and whose
blocks stand one after the other on the disk. -/
structure LayoutFits (node : Inode) (offset length : UInt32) : Prop where
  first : (offset.toNat : ℤ) < blockSize → readCount node offset length ≤ readStop offset.toNat
  later : blockSize ≤ (offset.toNat : ℤ) → ∀ block : ℕ, offset.toNat / blockSize ≤ (block : ℤ) →
    block * blockSize < offset.toNat + readCount node offset length →
    (node.dataBlockNum block).toInt =
      (node.dataBlockNum (offset.toNat / blockSize : ℤ).toNat).toInt +
        (block - offset.toNat / blockSize)

section Exact

variable {img : Image} {inode offset length : UInt32}

theorem readsFile_of_first (h : FileRequest img inode offset length) (buffer : ℤ → UInt8)
    (hfirst : (offset.toNat : ℤ) < blockSize) :
    ReadsFile img inode offset buffer length ↔
      ∀ k, readStop offset.toNat ≤ k → k < readCount (img.inodes inode.toNat) offset length →
        buffer k = fileByte img (img.inodes inode.toNat) (offset.toNat + k) := by
  have hvalue := h.readData_of_first buffer hfirst
  have hstop := readStop_spec offset.toNat
  constructor
  · intro hreads k hlow hhigh
    have hbyte := hreads.bytes k (by unfold maxFileSize at hstop; omega) hhigh
    rw [hvalue] at hbyte
    -- the loop has given up before byte `k`
    exact (if_neg (by omega)).symm.trans hbyte
  · intro hbytes
    refine ⟨by rw [hvalue], fun k hlow hhigh ↦ ?_, fun k hk ↦ ?_⟩
    · rw [hvalue]
      change copiedBytes _ _ _ _ _ k = _
      unfold copiedBytes
      split_ifs with hin
      · rfl
      · exact hbytes k (by omega) hhigh
    · rw [hvalue]
      exact if_neg (by omega)

theorem readsFile_of_later (h : FileRequest img inode offset length) (buffer : ℤ → UInt8)
    (hlater : blockSize ≤ (offset.toNat : ℤ)) :
    ReadsFile img inode offset buffer length ↔
      ∀ k, 0 ≤ k → k < readCount (img.inodes inode.toNat) offset length →
        followingByte img (img.inodes inode.toNat) offset.toNat k =
          fileByte img (img.inodes inode.toNat) (offset.toNat + k) := by
  have hvalue := h.readData_of_later buffer hlater
  constructor
  · intro hreads k hlow hhigh
    have hbyte := hreads.bytes k hlow hhigh
    rw [hvalue] at hbyte
    exact (if_pos ⟨hlow, hhigh⟩).symm.trans hbyte
  · intro hbytes
    refine ⟨by rw [hvalue], fun k hlow hhigh ↦ ?_, fun k hk ↦ ?_⟩
    · rw [hvalue]
      exact (if_pos ⟨hlow, hhigh⟩).trans (hbytes k hlow hhigh)
    · rw [hvalue]
      exact if_neg (by omega)

/-- A request on a valid file is answered with the number of bytes there are to read. -/
theorem FileRequest.count (h : FileRequest img inode offset length) (buffer : ℤ → UInt8) :
    (readData img inode offset buffer length).1 =
      readCount (img.inodes inode.toNat) offset length := by
  by_cases hfirst : (offset.toNat : ℤ) < blockSize
  · rw [h.readData_of_first buffer hfirst]
  · rw [h.readData_of_later buffer (not_lt.mp hfirst)]

/-- The same request on a disk with other contents. -/
theorem ReadRequest.withData (h : ReadRequest img inode offset length) (data : ℤ → UInt8) :
    ReadRequest { img with dataBlocks := data } inode offset length :=
  ⟨h.valid, h.inode_lt, h.offset_lt, h.noWrap⟩

theorem readsFile_iff (h : FileRequest img inode offset length) (buffer : ℤ → UInt8) :
    ReadsFile img inode offset buffer length ↔
      BytesAgree img (img.inodes inode.toNat) offset length buffer := by
  by_cases hfirst : (offset.toNat : ℤ) < blockSize
  · rw [readsFile_of_first h buffer hfirst]
    exact ⟨fun hbytes ↦ ⟨fun _ ↦ hbytes, fun hlater ↦ absurd hfirst hlater.not_gt⟩,
      fun hagree ↦ hagree.first hfirst⟩
  · have hlater := not_lt.mp hfirst
    rw [readsFile_of_later h buffer hlater]
    exact ⟨fun hbytes ↦ ⟨fun hfirst' ↦ absurd hfirst' hfirst, fun _ ↦ hbytes⟩,
      fun hagree ↦ hagree.later hlater⟩

/-- A layout that fits puts every requested byte where the read takes it from. -/
theorem LayoutFits.bytesAgree {node : Inode} (h : LayoutFits node offset length)
    (img : Image) (buffer : ℤ → UInt8) : BytesAgree img node offset length buffer := by
  refine ⟨fun hfirst k hlow hhigh ↦ ?_, fun hlater k hlow hhigh ↦ ?_⟩
  · have hshort := h.first hfirst
    omega
  · have hblock := h.later hlater ((offset.toNat + k) / blockSize).toNat
      (by unfold blockSize; omega) (by unfold blockSize; omega)
    have haddress : (node.dataBlockNum (offset.toNat / blockSize : ℤ).toNat).toInt * blockSize +
        offset.toNat % blockSize + k =
          (node.dataBlockNum ((offset.toNat + k) / blockSize).toNat).toInt * blockSize +
            (offset.toNat + k) % blockSize := by
      rw [hblock]
      unfold blockSize at *
      omega
    rw [followingByte, fileByte, haddress]

/-- A layout that does not fit shows on some disk contents: with every byte of the disk different
from the buffer in the first block, with one marked byte in a later one. -/
theorem layoutFits_of_forall {node : Inode}
    (h : ∀ data buffer : ℤ → UInt8,
      BytesAgree { img with dataBlocks := data } node offset length buffer) :
    LayoutFits node offset length := by
  refine ⟨fun hfirst ↦ ?_, fun hlater block hlow hhigh ↦ ?_⟩
  · by_contra hlong
    have hbyte : (0 : UInt8) = 1 := (h (fun _ ↦ 1) fun _ ↦ 0).first hfirst _ le_rfl
      (not_le.mp hlong)
    exact absurd hbyte (by decide)
  · by_cases hsame : (block : ℤ) = offset.toNat / blockSize
    · rw [← hsame, Int.toNat_natCast]
      omega
    · -- mark the byte that the read takes for the first byte of the block
      let marked := (node.dataBlockNum (offset.toNat / blockSize : ℤ).toNat).toInt * blockSize +
        offset.toNat % blockSize + (block * blockSize - offset.toNat)
      have hbyte := (h (fun a ↦ if a = marked then 1 else 0) fun _ ↦ 0).later hlater
        (block * blockSize - offset.toNat) (by unfold blockSize at *; omega) (by omega)
      rw [followingByte, fileByte] at hbyte
      dsimp only at hbyte
      rw [if_pos rfl, add_sub_cancel, Int.mul_ediv_cancel _ (by decide), Int.toNat_natCast,
        Int.mul_emod_left, add_zero] at hbyte
      have haddress : (node.dataBlockNum block).toInt * blockSize = marked := by
        by_contra hne
        rw [if_neg hne] at hbyte
        exact absurd hbyte (by decide)
      unfold marked blockSize at *
      omega

/-- `read_data` reads the file exactly where the bytes it takes are the right ones; it does so
whatever the disk and the buffer hold exactly when the layout fits the request. -/
theorem readData_exact (h : ReadRequest img inode offset length) (buffer : ℤ → UInt8) :
    (ReadsFile img inode offset buffer length ↔
        BytesAgree img (img.inodes inode.toNat) offset length buffer) ∧
      ((∀ data buffer : ℤ → UInt8,
          ReadsFile { img with dataBlocks := data } inode offset buffer length) ↔
        LayoutFits (img.inodes inode.toNat) offset length) := by
  refine ⟨readsFile_iff h.fileRequest buffer, fun hall ↦ ?_, fun hfits data buffer ↦ ?_⟩
  · exact layoutFits_of_forall fun data buffer ↦
      (readsFile_iff (h.withData data).fileRequest buffer).mp (hall data buffer)
  · exact (readsFile_iff (h.withData data).fileRequest buffer).mpr (hfits.bytesAgree _ buffer)

end Exact

/-- A file of three blocks, which stand on the disk in the order 0, 2, 1. -/
def scatteredInode : Inode :=
  ⟨12288, fun block ↦ if block = 1 then 2 else if block = 2 then 1 else 0⟩

/-- A disk with that file. Its only byte that is not 0 is the first one of block 1. -/
def scatteredImage : Image where
  dirCount := 0
  inodeCount := 1
  dataCount := 3
  dentries := fun _ ↦ ⟨fun _ ↦ 0, 0, 0, fun _ ↦ 0⟩
  inodes := fun _ ↦ scatteredInode
  dataBlocks := fun a ↦ if a = 4096 then 1 else 0

theorem scatteredImage_request : ReadRequest scatteredImage 0 4096 8192 := by
  have hblocks : ∀ block < 3, 0 ≤ (scatteredInode.dataBlockNum block).toInt ∧
      (scatteredInode.dataBlockNum block).toInt < 3 := by decide
  have hlength : scatteredInode.length.toInt = 12288 := by decide
  refine ⟨fun inode _ ↦ ⟨?_, fun block hblock ↦ hblocks block ?_⟩, by decide, by decide, by decide⟩
  · change scatteredInode.length.toInt ≤ _
    rw [hlength]
    decide
  · change (block : ℤ) * blockSize < scatteredInode.length.toInt at hblock
    rw [hlength] at hblock
    unfold blockSize at hblock
    omega

/-- The exact condition, for the last two blocks of that file. -/
theorem readData_exact_scattered :
    (ReadsFile scatteredImage 0 4096 (fun _ ↦ 0) 8192 ↔
        BytesAgree scatteredImage (scatteredImage.inodes 0) 4096 8192 fun _ ↦ 0) ∧
      ((∀ data buffer : ℤ → UInt8,
          ReadsFile { scatteredImage with dataBlocks := data } 0 4096 buffer 8192) ↔
        LayoutFits (scatteredImage.inodes 0) 4096 8192) :=
  readData_exact scatteredImage_request fun _ ↦ 0

/-- Byte 4096 of the read is byte 8192 of the file, the first of block 1. The read takes it from
behind the last data block. -/
theorem readData_not_always : ¬ ∀ (img : Image) (inode offset length : UInt32)
    (buffer : ℤ → UInt8), ReadRequest img inode offset length →
      ReadsFile img inode offset buffer length := by
  intro hall
  have hreads := hall scatteredImage 0 4096 8192 (fun _ ↦ 0) scatteredImage_request
  have hbyte := hreads.bytes 4096 (by decide) (by decide)
  rw [scatteredImage_request.fileRequest.readData_of_later _ (by decide)] at hbyte
  exact absurd hbyte (by decide)

end Sp18.Kernel
