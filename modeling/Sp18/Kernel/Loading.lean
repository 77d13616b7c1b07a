import Sp18.Kernel.Names
import Sp18.Kernel.FileReading
import Mathlib.Tactic.IntervalCases

/-!
# Executables

`isExe` and `program_load`. Both call `read_data` on a local array or on the user page without a
look at what it returns.

`isExe` compares the four bytes of its array with the magic number of an executable. A read that
fails or finds fewer than four bytes leaves the rest of the array as it was on the stack, and the
stack decides (`isExe_exact`). `program_load` copies the file to `IMAGE_ADDR` by one read from the
start of the file, which gives up after nine blocks (`programLoad_exact`).
-/

set_option autoImplicit false
set_option relaxedAutoImplicit false

namespace Sp18.Kernel

open Foundation

/-- `METADATA_SIZE` -/
def metadataSize : UInt32 := 30

/-- `isExe`. `myDentry` and `buffer` are its uninitialised local variables. -/
def isExe (img : Image) (filename : ℕ → UInt8) (myDentry : Dentry) (buffer : ℤ → UInt8) : ℤ :=
  let (found, myDentry) := readDentryByName img filename myDentry
  if found = -1 then 0
  else
    let (_, buffer) := readData img myDentry.inodeNum.toUInt32 0 buffer 4
    if buffer 0 = 0x7F ∧ buffer 1 = 0x45 ∧ buffer 2 = 0x4C ∧ buffer 3 = 0x46 then 1 else 0

/-- The entry point as `program_load` puts it together from four bytes. -/
def storedEntry (a b c d : UInt8) : UInt32 :=
  a.toUInt32 <<< 24 ||| b.toUInt32 <<< 16 ||| c.toUInt32 <<< 8 ||| d.toUInt32

/-- The conversion of the entry point to the other byte order. -/
def convertEntry (entry : UInt32) : UInt32 :=
  entry >>> 24 ||| (entry <<< 8 &&& (0x00ff0000 : UInt32)) |||
    (entry >>> 8 &&& (0x0000ff00 : UInt32)) ||| entry <<< 24

/-- `program_load`: the return value and the memory from `IMAGE_ADDR` on. `myDentry` and `buffer`
are its uninitialised local variables. -/
def programLoad (img : Image) (filename : ℕ → UInt8) (myDentry : Dentry)
    (buffer user : ℤ → UInt8) : UInt32 × (ℤ → UInt8) :=
  let (found, myDentry) := readDentryByName img filename myDentry
  if found = -1 then (0xFFFFFFFF, user)
  else
    let size := (img.inodes myDentry.inodeNum.toUInt32.toNat).length
    let (_, buffer) := readData img myDentry.inodeNum.toUInt32 0 buffer metadataSize
    let (_, user) := readData img myDentry.inodeNum.toUInt32 0 user size.toUInt32
    let entry := storedEntry (buffer 24) (buffer 25) (buffer 26) (buffer 27)
    (convertEntry entry, user)

/-- The first four bytes of an executable. -/
def magic (i : ℕ) : UInt8 := [0x7F, 0x45, 0x4C, 0x46].getD i 0

/-- The name stands for this entry. -/
def Image.Resolves (img : Image) (filename : ℕ → UInt8) (entry : Dentry) : Prop :=
  ∀ dentry, readDentryByName img filename dentry = (0, dentry.copyOf entry)

/-- The file has at least four bytes, and they are the magic number. -/
structure Image.HasMagic (img : Image) (inode : UInt32) : Prop where
  inode_lt : (inode.toNat : ℤ) < u32 img.inodeCount.toInt
  length_ge : 4 ≤ u32 (img.inodes inode.toNat).length.toInt
  block : 0 ≤ ((img.inodes inode.toNat).dataBlockNum 0).toInt ∧
    ((img.inodes inode.toNat).dataBlockNum 0).toInt < img.dataCount.toInt
  bytes : ∀ i < 4, fileByte img (img.inodes inode.toNat) (i : ℕ) = magic i

/-- `isExe` tells from the file system alone whether the name stands for an executable. -/
structure JudgesFile (img : Image) (filename : ℕ → UInt8) : Prop where
  value_iff : ∀ myDentry buffer, isExe img filename myDentry buffer = 1 ↔
    ∃ entry, img.Resolves filename entry ∧ img.HasMagic entry.inodeNum.toUInt32
  same : ∀ myDentry myDentry' buffer buffer',
    isExe img filename myDentry buffer = isExe img filename myDentry' buffer'

/-- The files that `isExe` judges by what they hold. The file exists, is not empty, and its first
block passes the check of `read_data`; where the bytes that are read begin like the magic number,
there are four of them, in a block that exists. -/
structure Image.MagicReadable (img : Image) (inode : UInt32) : Prop where
  inode_lt : (inode.toNat : ℤ) < u32 img.inodeCount.toInt
  nonempty : 0 < u32 (img.inodes inode.toNat).length.toInt
  block_le : ((img.inodes inode.toNat).dataBlockNum 0).toInt ≤ img.dataCount.toInt
  complete : (∀ i < 4, ((i : ℕ) : ℤ) < u32 (img.inodes inode.toNat).length.toInt →
      fileByte img (img.inodes inode.toNat) i = magic i) →
    4 ≤ u32 (img.inodes inode.toNat).length.toInt ∧
      0 ≤ ((img.inodes inode.toNat).dataBlockNum 0).toInt ∧
      ((img.inodes inode.toNat).dataBlockNum 0).toInt < img.dataCount.toInt

/-- The program is in memory from `IMAGE_ADDR` on, and its entry point, the little-endian number in
bytes 24 to 27, is returned. -/
structure LoadsProgram (img : Image) (node : Inode) (result : UInt32 × (ℤ → UInt8)) : Prop where
  memory : ∀ k, 0 ≤ k → k < node.length.toInt → result.2 k = fileByte img node k
  entry : result.1.toNat = (fileByte img node 24).toNat + (fileByte img node 25).toNat * 256 +
    (fileByte img node 26).toNat * 65536 + (fileByte img node 27).toNat * 16777216

/-! ### Byte order -/

section ByteOrder

/-- The two conversions of `program_load` put four bytes in the opposite order. -/
theorem reverse_bytes (a b c d : BitVec 8) {entry : BitVec 32}
    (hentry : entry = a.setWidth 32 <<< 24 ||| b.setWidth 32 <<< 16 ||| c.setWidth 32 <<< 8 |||
      d.setWidth 32) :
    (entry >>> 24 ||| (entry <<< 8 &&& 0x00ff0000#32) ||| (entry >>> 8 &&& 0x0000ff00#32) |||
      entry <<< 24) = d ++ c ++ b ++ a := by
  refine BitVec.eq_of_getLsbD_eq fun i hi ↦ ?_
  simp only [hentry, BitVec.getLsbD_or, BitVec.getLsbD_and, BitVec.getLsbD_shiftLeft,
    BitVec.getLsbD_ushiftRight, BitVec.getLsbD_setWidth, BitVec.getLsbD_append]
  interval_cases i <;> simp

/-- The value of four bytes, the lowest one last. -/
theorem toNat_append_bytes (a b c d : BitVec 8) : (d ++ c ++ b ++ a).toNat =
    a.toNat + b.toNat * 256 + c.toNat * 65536 + d.toNat * 16777216 := by
  have ha := a.isLt
  have hb := b.isLt
  have hc := c.isLt
  rw [BitVec.toNat_append, BitVec.toNat_append, BitVec.toNat_append,
    ← Nat.shiftLeft_add_eq_or_of_lt hc, ← Nat.shiftLeft_add_eq_or_of_lt hb,
    ← Nat.shiftLeft_add_eq_or_of_lt ha]
  simp only [Nat.shiftLeft_eq]
  omega

/-- The entry point is the little-endian value of its four bytes. -/
theorem toNat_convertEntry (a b c d : UInt8) : (convertEntry (storedEntry a b c d)).toNat =
    a.toNat + b.toNat * 256 + c.toNat * 65536 + d.toNat * 16777216 := by
  have hvalue := toNat_append_bytes a.toBitVec b.toBitVec c.toBitVec d.toBitVec
  rw [← reverse_bytes a.toBitVec b.toBitVec c.toBitVec d.toBitVec rfl] at hvalue
  exact hvalue

end ByteOrder

/-! ### Reads from the start of a file -/

section Start

variable {img : Image} {inode length : UInt32}

/-- A read from the start of the file passes the checks before its first copy. -/
structure Image.StartReadable (img : Image) (inode : UInt32) : Prop where
  inode_lt : (inode.toNat : ℤ) < u32 img.inodeCount.toInt
  nonempty : 0 < u32 (img.inodes inode.toNat).length.toInt
  block_le : ((img.inodes inode.toNat).dataBlockNum 0).toInt ≤ img.dataCount.toInt

theorem toNat_toUInt32 (n : Int32) : (n.toUInt32.toNat : ℤ) = u32 n.toInt := by
  have hvalue : n.toInt = if 2 * n.toUInt32.toNat < 2 ^ 32 then (n.toUInt32.toNat : ℤ)
      else (n.toUInt32.toNat : ℤ) - (2 ^ 32 : ℕ) := BitVec.toInt_eq_toNat_cond n.toBitVec
  have hlt := n.toUInt32.toNat_lt
  unfold u32
  split_ifs at hvalue <;> omega

/-- A read of no more than one block needs the first block only. It copies what the file has. -/
theorem readData_firstBlock (h : img.StartReadable inode) (hlength : length.toNat ≤ 4096)
    (buffer : ℤ → UInt8) :
    (readData img inode 0 buffer length).2 = copiedBytes img (img.inodes inode.toNat) 0 buffer
      (min (length.toNat : ℤ) (u32 (img.inodes inode.toNat).length.toInt)) := by
  obtain ⟨hinode, hfile, hblock⟩ := h
  generalize hnode : img.inodes inode.toNat = node at *
  have hfileMax := u32_lt node.length.toInt
  have hzero : ((0 : UInt32).toNat : ℤ) = 0 := rfl
  have hcount : readLength node 0 length = min (length.toNat : ℤ) (u32 node.length.toInt) := by
    unfold readLength
    dsimp only
    rw [hzero, add_zero, sub_zero, u32_of_range (by omega) (by omega),
      u32_of_range (by omega) hfileMax]
    split_ifs <;> omega
  generalize hn : min (length.toNat : ℤ) (u32 node.length.toInt) = n at *
  have hnonneg : 0 ≤ n := by omega
  have hsmall : n ≤ blockSize := by
    unfold blockSize
    omega
  have hstop := readStop_spec 0
  have hstart : buffer = copiedBytes img node 0 buffer 0 := by
    funext k
    rw [copiedBytes, if_neg (by omega)]
  have hfirst : firstCopyLength 0 n = min blockSize n :=
    firstCopyLength_of_first (by decide) hnonneg (by unfold blockSize at hsmall; omega)
  have hloop : readDataLoop img node n (n.toNat + 1) (copiedBytes img node 0 buffer 0) 0 0 0
      ((node.dataBlockNum 0).toInt * blockSize) (firstCopyLength 0 n) 0 =
        some (n, copiedBytes img node 0 buffer (min n (readStop 0))) := by
    refine readDataLoop_value le_rfl (by unfold blockSize at hsmall; omega) (fun block hb ↦ ?_) _
      0 0 _ _ le_rfl hnonneg (by unfold maxFileSize at hstop; omega) (Or.inl rfl)
      (fun _ ↦ ⟨rfl, by simp, ?_⟩) (by omega)
    · obtain rfl : block = 0 := by
        unfold blockSize at *
        omega
      exact hblock
    · rw [hfirst, add_zero, Int.zero_emod, sub_zero, sub_zero]
  have hcopied : min n (readStop 0) = n := by
    unfold maxFileSize blockSize at *
    omega
  rw [hcopied, ← hstart] at hloop
  rw [readData, if_neg (by omega)]
  simp only [hnode]
  rw [if_neg (by omega), hcount, if_neg (by simpa using hblock)]
  have hindex : ((0 : UInt32).toNat : ℤ) / blockSize = 0 := rfl
  have hoffset : ((0 : UInt32).toNat : ℤ) % blockSize = 0 := rfl
  rw [hindex, hoffset, add_zero, Int.toNat_zero, hloop]
  rfl

/-- A read of a file that does not exist, is empty or has a first block out of range copies
nothing. -/
theorem readData_start_fails (h : ¬ img.StartReadable inode) (buffer : ℤ → UInt8)
    (length : UInt32) : readData img inode 0 buffer length = (-1, buffer) := by
  have hzero : ((0 : UInt32).toNat : ℤ) = 0 := rfl
  have hindex : ((0 : UInt32).toNat : ℤ) / blockSize = 0 := rfl
  rw [readData]
  by_cases hinode : (inode.toNat : ℤ) ≥ u32 img.inodeCount.toInt
  · rw [if_pos hinode]
  · rw [if_neg hinode]
    dsimp only
    by_cases hempty : ((0 : UInt32).toNat : ℤ) ≥ u32 (img.inodes inode.toNat).length.toInt
    · rw [if_pos hempty]
    · rw [if_neg hempty, hindex, Int.toNat_zero, if_pos (not_le.mp fun hblock ↦
        h ⟨not_le.mp hinode, by omega, hblock⟩)]

end Start

/-! ### Recognising an executable -/

section Executable

variable {img : Image} {filename : ℕ → UInt8} {entry : Dentry}

theorem eq_magic_iff (buffer : ℤ → UInt8) :
    (buffer 0 = 0x7F ∧ buffer 1 = 0x45 ∧ buffer 2 = 0x4C ∧ buffer 3 = 0x46) ↔
      ∀ i < 4, buffer ((i : ℕ) : ℤ) = magic i := by
  constructor
  · rintro ⟨h0, h1, h2, h3⟩ i hi
    interval_cases i
    · exact h0
    · exact h1
    · exact h2
    · exact h3
  · intro h
    exact ⟨h 0 (by norm_num), h 1 (by norm_num), h 2 (by norm_num), h 3 (by norm_num)⟩

theorem isExe_eq_zero_or_one (img : Image) (filename : ℕ → UInt8) (myDentry : Dentry)
    (buffer : ℤ → UInt8) :
    isExe img filename myDentry buffer = 0 ∨ isExe img filename myDentry buffer = 1 := by
  simp only [isExe]
  split_ifs <;> simp

/-- The answer for a name that is found is about the four bytes of the array. -/
theorem isExe_eq_one_iff (h : img.Resolves filename entry) (myDentry : Dentry)
    (buffer : ℤ → UInt8) : isExe img filename myDentry buffer = 1 ↔
      ∀ i < 4, (readData img entry.inodeNum.toUInt32 0 buffer 4).2 ((i : ℕ) : ℤ) = magic i := by
  rw [← eq_magic_iff]
  simp [isExe, h myDentry, Dentry.copyOf]

/-- Two entries that a name stands for have the same inode. -/
theorem Image.Resolves.inodeNum_eq {entry' : Dentry} (h : img.Resolves filename entry)
    (h' : img.Resolves filename entry') : entry'.inodeNum = entry.inodeNum := by
  have hsame := (h' dotDentry).symm.trans (h dotDentry)
  exact congrArg (fun found : ℤ × Dentry ↦ found.2.inodeNum) hsame

/-- A name stands for an entry, or `isExe` says no. -/
theorem resolves_or_unknown (img : Image) (filename : ℕ → UInt8) :
    (∃ entry, img.Resolves filename entry) ∨ (¬ ∃ entry, img.Resolves filename entry) ∧
      ∀ myDentry buffer, isExe img filename myDentry buffer = 0 := by
  rcases readDentryByName_cases img filename with hnone | ⟨idx, -, hfound⟩
  · refine Or.inr ⟨fun ⟨entry, hentry⟩ ↦ ?_, fun myDentry buffer ↦ ?_⟩
    · have hvalue : (-1 : ℤ) = 0 :=
        congrArg Prod.fst ((hnone dotDentry).symm.trans (hentry dotDentry))
      omega
    · simp [isExe, hnone]
  · exact Or.inl ⟨img.dentries idx, hfound⟩

/-- An array that holds the magic number before the call, and one that does not. -/
theorem exists_buffers : ∃ buffer buffer' : ℤ → UInt8, (∀ i < 4, buffer ((i : ℕ) : ℤ) = magic i) ∧
    ∀ i < 4, buffer' ((i : ℕ) : ℤ) ≠ magic i := by
  refine ⟨fun k ↦ magic k.toNat, fun _ ↦ 0, fun i _ ↦ rfl, fun i hi ↦ ?_⟩
  interval_cases i <;> decide

/-- The array after a read that passes its checks: the bytes of the file, and what has been on the
stack where the file ends. -/
theorem readData_magic {inode : UInt32} (h : img.StartReadable inode) (buffer : ℤ → UInt8) {i : ℕ}
    (hi : i < 4) :
    (readData img inode 0 buffer 4).2 (i : ℤ) =
      if (i : ℤ) < u32 (img.inodes inode.toNat).length.toInt then
        fileByte img (img.inodes inode.toNat) i else buffer i := by
  have hfour : ((4 : UInt32).toNat : ℤ) = 4 := rfl
  rw [readData_firstBlock h (by decide), copiedBytes, hfour, zero_add]
  split_ifs with hcopied hlt hlt
  · rfl
  · omega
  · omega
  · rfl

/-- Where the read fails, the stack decides. -/
theorem not_judges_of_fails (h : img.Resolves filename entry)
    (hfails : ∀ buffer : ℤ → UInt8, ∃ i < 4,
      (readData img entry.inodeNum.toUInt32 0 buffer 4).2 ((i : ℕ) : ℤ) = buffer i)
    (hheld : ∀ buffer : ℤ → UInt8, (∀ i < 4, buffer ((i : ℕ) : ℤ) = magic i) → ∀ i < 4,
      (readData img entry.inodeNum.toUInt32 0 buffer 4).2 ((i : ℕ) : ℤ) = magic i) :
    ¬ JudgesFile img filename := by
  intro hjudges
  obtain ⟨held, other, hmagic, hother⟩ := exists_buffers
  have hyes := (isExe_eq_one_iff h dotDentry held).mpr (hheld held hmagic)
  rw [hjudges.same dotDentry dotDentry held other] at hyes
  obtain ⟨i, hi, hkept⟩ := hfails other
  exact hother i hi (hkept.symm.trans ((isExe_eq_one_iff h dotDentry other).mp hyes i hi))

/-- Where the answer is the same for every stack, it is judged by what it should say. -/
theorem judges_iff_of_constant (h : img.Resolves filename entry) {answer : Prop}
    (hanswer : ∀ myDentry buffer, isExe img filename myDentry buffer = 1 ↔ answer) :
    JudgesFile img filename ↔ (answer ↔ img.HasMagic entry.inodeNum.toUInt32) := by
  have hexists : (∃ entry, img.Resolves filename entry ∧
      img.HasMagic entry.inodeNum.toUInt32) ↔ img.HasMagic entry.inodeNum.toUInt32 := by
    constructor
    · rintro ⟨entry', hentry', hmagic⟩
      rwa [h.inodeNum_eq hentry'] at hmagic
    · exact fun hmagic ↦ ⟨entry, h, hmagic⟩
  constructor
  · intro hjudges
    rw [← hexists, ← hjudges.value_iff dotDentry fun _ ↦ 0, hanswer]
  · refine fun hiff ↦ ⟨fun myDentry buffer ↦ by rw [hanswer, hexists, hiff],
      fun myDentry myDentry' buffer buffer' ↦ ?_⟩
    have hone := hanswer myDentry buffer
    have hone' := hanswer myDentry' buffer'
    rcases isExe_eq_zero_or_one img filename myDentry buffer with hvalue | hvalue <;>
      rcases isExe_eq_zero_or_one img filename myDentry' buffer' with hvalue' | hvalue' <;>
      simp_all

/-- Where the read fails before its first copy, the stack decides. -/
theorem not_judges_of_unreadable (h : img.Resolves filename entry)
    (hstart : ¬ img.StartReadable entry.inodeNum.toUInt32) : ¬ JudgesFile img filename := by
  refine not_judges_of_fails h (fun buffer ↦ ⟨0, by norm_num, ?_⟩) fun buffer hheld ↦ ?_
  · rw [readData_start_fails hstart]
  · rw [readData_start_fails hstart]
    exact hheld

/-- Where the file is a proper prefix of the magic number, the stack decides. -/
theorem not_judges_of_shortMagic (h : img.Resolves filename entry)
    (hstart : img.StartReadable entry.inodeNum.toUInt32)
    (hshort : ¬ 4 ≤ u32 (img.inodes entry.inodeNum.toUInt32.toNat).length.toInt)
    (hbegins : ∀ i < 4,
      ((i : ℕ) : ℤ) < u32 (img.inodes entry.inodeNum.toUInt32.toNat).length.toInt →
      fileByte img (img.inodes entry.inodeNum.toUInt32.toNat) i = magic i) :
    ¬ JudgesFile img filename := by
  refine not_judges_of_fails h (fun buffer ↦ ⟨3, by norm_num, ?_⟩) fun buffer hheld i hi ↦ ?_
  · -- byte 3 is not read
    rw [readData_magic hstart buffer (by norm_num : 3 < 4), if_neg (by push_cast; omega)]
  · rw [readData_magic hstart buffer hi]
    split_ifs with hin
    · exact hbegins i hi hin
    · exact hheld i hi

/-- Where the magic number is read, the block that it is read from has to exist. -/
theorem judges_iff_of_wholeMagic (h : img.Resolves filename entry)
    (hstart : img.StartReadable entry.inodeNum.toUInt32)
    (hlength : 4 ≤ u32 (img.inodes entry.inodeNum.toUInt32.toNat).length.toInt)
    (hmagic : ∀ i < 4,
      fileByte img (img.inodes entry.inodeNum.toUInt32.toNat) ((i : ℕ) : ℤ) = magic i) :
    JudgesFile img filename ↔ img.MagicReadable entry.inodeNum.toUInt32 := by
  have hyes : ∀ myDentry buffer, isExe img filename myDentry buffer = 1 ↔ True := by
    intro myDentry buffer
    refine iff_of_true ((isExe_eq_one_iff h myDentry buffer).mpr fun i hi ↦ ?_) trivial
    rw [readData_magic hstart buffer hi, if_pos (by omega)]
    exact hmagic i hi
  rw [judges_iff_of_constant h hyes, true_iff]
  constructor
  · exact fun hhas ↦
      ⟨hstart.inode_lt, hstart.nonempty, hstart.block_le, fun _ ↦ ⟨hlength, hhas.block⟩⟩
  · intro hreadable
    have hblock := (hreadable.complete fun i hi _ ↦ hmagic i hi).2
    exact ⟨hstart.inode_lt, hlength, hblock, hmagic⟩

/-- A byte that is read and wrong settles the answer. -/
theorem judges_of_wrongByte (h : img.Resolves filename entry)
    (hstart : img.StartReadable entry.inodeNum.toUInt32) {i : ℕ} (hi : i < 4)
    (hin : (i : ℤ) < u32 (img.inodes entry.inodeNum.toUInt32.toNat).length.toInt)
    (hne : fileByte img (img.inodes entry.inodeNum.toUInt32.toNat) i ≠ magic i) :
    JudgesFile img filename := by
  have hno : ∀ myDentry buffer, isExe img filename myDentry buffer = 1 ↔ False := by
    intro myDentry buffer
    refine iff_of_false (fun hyes ↦ ?_) not_false
    have hbyte := (isExe_eq_one_iff h myDentry buffer).mp hyes i hi
    rw [readData_magic hstart buffer hi, if_pos hin] at hbyte
    exact hne hbyte
  rw [judges_iff_of_constant h hno, false_iff]
  exact fun hhas ↦ hne (hhas.bytes i hi)

/-- The exact condition for a name that stands for an entry. -/
theorem judgesFile_iff_of_resolves (h : img.Resolves filename entry) :
    JudgesFile img filename ↔ img.MagicReadable entry.inodeNum.toUInt32 := by
  by_cases hstart : img.StartReadable entry.inodeNum.toUInt32
  · by_cases hbegins : ∀ i < 4,
        ((i : ℕ) : ℤ) < u32 (img.inodes entry.inodeNum.toUInt32.toNat).length.toInt →
        fileByte img (img.inodes entry.inodeNum.toUInt32.toNat) i = magic i
    · by_cases hlength : 4 ≤ u32 (img.inodes entry.inodeNum.toUInt32.toNat).length.toInt
      · exact judges_iff_of_wholeMagic h hstart hlength fun i hi ↦ hbegins i hi (by omega)
      · exact iff_of_false (not_judges_of_shortMagic h hstart hlength hbegins)
          fun hreadable ↦ hlength (hreadable.complete hbegins).1
    · obtain ⟨i, hwrong⟩ := not_forall.mp hbegins
      simp only [Classical.not_imp] at hwrong
      obtain ⟨hi, hin, hne⟩ := hwrong
      exact iff_of_true (judges_of_wrongByte h hstart hi hin hne)
        ⟨hstart.inode_lt, hstart.nonempty, hstart.block_le, fun hall ↦ absurd hall hbegins⟩
  · exact iff_of_false (not_judges_of_unreadable h hstart)
      fun hreadable ↦ hstart ⟨hreadable.inode_lt, hreadable.nonempty, hreadable.block_le⟩

/-- `isExe` judges a name by the file system exactly if the name stands for no entry or for a file
whose bytes it can read as far as they matter. -/
theorem isExe_exact (img : Image) (filename : ℕ → UInt8) : JudgesFile img filename ↔
    ∀ entry, img.Resolves filename entry → img.MagicReadable entry.inodeNum.toUInt32 := by
  rcases resolves_or_unknown img filename with ⟨entry, hentry⟩ | ⟨hnone, hzero⟩
  · rw [judgesFile_iff_of_resolves hentry]
    constructor
    · intro hreadable entry' hentry'
      rwa [hentry.inodeNum_eq hentry']
    · exact fun hall ↦ hall entry hentry
  · refine iff_of_true ⟨fun myDentry buffer ↦ ?_, fun myDentry myDentry' buffer buffer' ↦ ?_⟩
      fun entry hentry ↦ absurd ⟨entry, hentry⟩ hnone
    · rw [hzero]
      exact iff_of_false (by norm_num) fun ⟨entry, hentry, _⟩ ↦ hnone ⟨entry, hentry⟩
    · rw [hzero, hzero]

end Executable

/-! ### Loading a program -/

section Program

variable {img : Image} {filename : ℕ → UInt8} {entry : Dentry}

/-- `program_load` reads the file that the name stands for twice. -/
theorem programLoad_eq (h : img.Resolves filename entry) (myDentry : Dentry)
    (buffer user : ℤ → UInt8) : programLoad img filename myDentry buffer user =
      (convertEntry (storedEntry
        ((readData img entry.inodeNum.toUInt32 0 buffer metadataSize).2 24)
        ((readData img entry.inodeNum.toUInt32 0 buffer metadataSize).2 25)
        ((readData img entry.inodeNum.toUInt32 0 buffer metadataSize).2 26)
        ((readData img entry.inodeNum.toUInt32 0 buffer metadataSize).2 27)),
      (readData img entry.inodeNum.toUInt32 0 user
        (img.inodes entry.inodeNum.toUInt32.toNat).length.toUInt32).2) := by
  have hfound : ¬ (0 : ℤ) = -1 := by norm_num
  simp only [programLoad, h myDentry, if_neg hfound, Dentry.copyOf]

/-- The length of a valid file, as the code computes with it. -/
theorem Inode.Valid.length_unsigned {node : Inode} (hvalid : node.Valid img)
    (hlength : 0 ≤ node.length.toInt) : u32 node.length.toInt = node.length.toInt := by
  have hsize := hvalid.length_le
  exact u32_of_range hlength (by unfold blockSize at hsize; omega)

/-- The first read of `program_load` fetches the meta-data. -/
theorem readData_metadata {inode : UInt32} (hinode : (inode.toNat : ℤ) < img.inodeCount.toInt)
    (hvalid : (img.inodes inode.toNat).Valid img)
    (hlength : 30 ≤ (img.inodes inode.toNat).length.toInt) (buffer : ℤ → UInt8) {k : ℤ}
    (hlow : 0 ≤ k) (hhigh : k < 30) :
    (readData img inode 0 buffer metadataSize).2 k = fileByte img (img.inodes inode.toNat) k := by
  have hbytes : (metadataSize.toNat : ℤ) = 30 := rfl
  have hunsigned := hvalid.length_unsigned (by omega)
  have hcount : u32 img.inodeCount.toInt = img.inodeCount.toInt := by
    have hmax := img.inodeCount.toInt_lt
    exact u32_of_range (by omega) (by omega)
  have hblock := (hvalid.block 0 (by push_cast; omega)).2.le
  rw [readData_firstBlock ⟨by omega, by omega, hblock⟩ (by decide), copiedBytes, hbytes,
    if_pos (by omega), zero_add]

/-- The second read of `program_load` fetches the file up to the end of its ninth block. -/
theorem readData_program {inode : UInt32} (hinode : (inode.toNat : ℤ) < img.inodeCount.toInt)
    (hvalid : (img.inodes inode.toNat).Valid img)
    (hlength : 0 < (img.inodes inode.toNat).length.toInt) (user : ℤ → UInt8) :
    (readData img inode 0 user (img.inodes inode.toNat).length.toUInt32).2 =
      copiedBytes img (img.inodes inode.toNat) 0 user
        (min (img.inodes inode.toNat).length.toInt (9 * blockSize)) := by
  have hzero : ((0 : UInt32).toNat : ℤ) = 0 := rfl
  have hunsigned := hvalid.length_unsigned hlength.le
  have hlengthNat := toNat_toUInt32 (img.inodes inode.toNat).length
  have hrequest : FileRequest img inode 0 (img.inodes inode.toNat).length.toUInt32 := by
    have hsize := hvalid.length_le
    have hstart : (0 : UInt32).toNat = 0 := rfl
    refine ⟨hvalid, hinode, by omega, ?_⟩
    unfold blockSize at hsize
    omega
  have hasked : readCount (img.inodes inode.toNat) 0 (img.inodes inode.toNat).length.toUInt32 =
      (img.inodes inode.toNat).length.toInt := by
    unfold readCount
    omega
  have hstop : readStop 0 = 9 * blockSize := by decide
  have hread := hrequest.readData_of_first user (by rw [hzero]; decide)
  rw [hasked, hzero, hstop] at hread
  rw [hread]

/-- What `program_load` returns and leaves in memory for a valid file: the entry point, and as much
of the file as one read copies. -/
theorem programLoad_of_resolves (h : img.Resolves filename entry)
    (hinode : (entry.inodeNum.toUInt32.toNat : ℤ) < img.inodeCount.toInt)
    (hvalid : (img.inodes entry.inodeNum.toUInt32.toNat).Valid img)
    (hlength : 30 ≤ (img.inodes entry.inodeNum.toUInt32.toNat).length.toInt) (myDentry : Dentry)
    (buffer user : ℤ → UInt8) :
    ∃ entryPoint, programLoad img filename myDentry buffer user = (entryPoint,
        copiedBytes img (img.inodes entry.inodeNum.toUInt32.toNat) 0 user
          (min (img.inodes entry.inodeNum.toUInt32.toNat).length.toInt (9 * blockSize))) ∧
      entryPoint.toNat =
        (fileByte img (img.inodes entry.inodeNum.toUInt32.toNat) 24).toNat +
        (fileByte img (img.inodes entry.inodeNum.toUInt32.toNat) 25).toNat * 256 +
        (fileByte img (img.inodes entry.inodeNum.toUInt32.toNat) 26).toNat * 65536 +
        (fileByte img (img.inodes entry.inodeNum.toUInt32.toNat) 27).toNat * 16777216 := by
  have hmeta := fun k : ℤ ↦ readData_metadata hinode hvalid hlength buffer (k := k)
  rw [programLoad_eq h, readData_program hinode hvalid (by omega)]
  refine ⟨_, rfl, ?_⟩
  rw [toNat_convertEntry, hmeta 24 (by norm_num) (by norm_num),
    hmeta 25 (by norm_num) (by norm_num), hmeta 26 (by norm_num) (by norm_num),
    hmeta 27 (by norm_num) (by norm_num)]

/-- `program_load` of a valid file loads the program exactly if what one read leaves out is in
memory already; it does so whatever the memory holds exactly for programs of up to nine blocks. -/
theorem programLoad_exact (htypes : img.TypesKnown) {name : List UInt8}
    (hname : HoldsString filename name) {idx : ℕ} (hfirst : img.FirstNamed name idx)
    (hinode : ((img.dentries idx).inodeNum.toUInt32.toNat : ℤ) < img.inodeCount.toInt)
    (hvalid : (img.inodes (img.dentries idx).inodeNum.toUInt32.toNat).Valid img)
    (hlength : 30 ≤ (img.inodes (img.dentries idx).inodeNum.toUInt32.toNat).length.toInt)
    (myDentry : Dentry) (buffer user : ℤ → UInt8) :
    (LoadsProgram img (img.inodes (img.dentries idx).inodeNum.toUInt32.toNat)
          (programLoad img filename myDentry buffer user) ↔
        ∀ k, 9 * blockSize ≤ k →
          k < (img.inodes (img.dentries idx).inodeNum.toUInt32.toNat).length.toInt →
          user k = fileByte img (img.inodes (img.dentries idx).inodeNum.toUInt32.toNat) k) ∧
      ((∀ user, LoadsProgram img (img.inodes (img.dentries idx).inodeNum.toUInt32.toNat)
          (programLoad img filename myDentry buffer user)) ↔
        (img.inodes (img.dentries idx).inodeNum.toUInt32.toNat).length.toInt ≤ 9 * blockSize) := by
  have hresolves : img.Resolves filename (img.dentries idx) :=
    readDentryByName_of_firstNamed htypes.namesEnd hname hfirst
  have hload := programLoad_of_resolves hresolves hinode hvalid hlength myDentry buffer
  generalize img.inodes (img.dentries idx).inodeNum.toUInt32.toNat = node at *
  have hiff : ∀ user, LoadsProgram img node (programLoad img filename myDentry buffer user) ↔
      ∀ k, 9 * blockSize ≤ k → k < node.length.toInt → user k = fileByte img node k := by
    intro user
    obtain ⟨entryPoint, hresult, hentry⟩ := hload user
    rw [hresult]
    constructor
    · intro hloads k hlow hhigh
      have hbyte := hloads.memory k (by unfold blockSize at hlow; omega) hhigh
      -- the read has given up before byte `k`
      exact (if_neg (by omega)).symm.trans hbyte
    · refine fun hrest ↦ ⟨fun k hlow hhigh ↦ ?_, hentry⟩
      dsimp only
      rw [copiedBytes, zero_add]
      split_ifs with hcopied
      · rfl
      · exact hrest k (by omega) hhigh
  refine ⟨hiff user, fun hall ↦ ?_, fun hshort user ↦ (hiff user).mpr fun k hlow hhigh ↦ by omega⟩
  by_contra hlong
  -- memory that differs from the file everywhere
  have hsame := (hiff fun k ↦ fileByte img node k + 1).mp (hall _) (9 * blockSize) le_rfl
    (not_le.mp hlong)
  exact absurd hsame (by simp)

end Program

theorem fileDentry_holdsString : HoldsString fileDentry.filename [97] where
  char i hi := by
    obtain rfl : i = 0 := Nat.lt_one_iff.mp hi
    rfl
  nonzero c hc := by
    rw [List.mem_singleton.mp hc]
    decide
  terminated := by decide

theorem fileImage_firstNamed (node : Inode) (dataCount : Int32) (dataBlocks : ℤ → UInt8) :
    (fileImage node dataCount dataBlocks).FirstNamed [97] 0 where
  index_lt := (by decide : (0 : ℤ) < 1)
  name_eq := (by decide : fileDentry.name = [97])
  first i hi := absurd hi (Nat.not_lt_zero i)

theorem fileImage_resolves (node : Inode) (dataCount : Int32) (dataBlocks : ℤ → UInt8) :
    (fileImage node dataCount dataBlocks).Resolves fileDentry.filename fileDentry :=
  readDentryByName_of_firstNamed (fileImage_typesKnown _ _ _).namesEnd fileDentry_holdsString
    (fileImage_firstNamed _ _ _)

/-- An empty file is taken for an executable if the stack holds the magic number. -/
theorem isExe_not_always : ¬ ∀ (img : Image) (filename : ℕ → UInt8), JudgesFile img filename := by
  intro hall
  have hjudges := hall (fileImage ⟨0, fun _ ↦ 0⟩ 1 fun _ ↦ 0) fileDentry.filename
  have hreadable := (judgesFile_iff_of_resolves (fileImage_resolves _ _ _)).mp hjudges
  exact absurd hreadable.nonempty (by decide)

/-- A file of ten blocks, which stand on the disk in their order. -/
def tenBlocks : Inode := ⟨40960, fun block ↦ Int32.ofNat block⟩

/-- A disk with this file, all of whose bytes are 1. -/
def tenBlocksImage : Image := fileImage tenBlocks 10 fun _ ↦ 1

theorem tenBlocks_valid : tenBlocks.Valid tenBlocksImage := by
  have hblocks : ∀ block < 10, 0 ≤ (tenBlocks.dataBlockNum block).toInt ∧
      (tenBlocks.dataBlockNum block).toInt < 10 := by decide
  have hlength : tenBlocks.length.toInt = 40960 := by decide
  refine ⟨by decide, fun block hblock ↦ hblocks block ?_⟩
  rw [hlength] at hblock
  unfold blockSize at hblock
  omega

/-- The exact condition, for the file of ten blocks and a page that holds zeros. -/
theorem programLoad_exact_tenBlocks :
    (LoadsProgram tenBlocksImage tenBlocks
          (programLoad tenBlocksImage fileDentry.filename fileDentry (fun _ ↦ 0) fun _ ↦ 0) ↔
        ∀ k, 9 * blockSize ≤ k → k < tenBlocks.length.toInt →
          0 = fileByte tenBlocksImage tenBlocks k) ∧
      ((∀ user, LoadsProgram tenBlocksImage tenBlocks
          (programLoad tenBlocksImage fileDentry.filename fileDentry (fun _ ↦ 0) user)) ↔
        tenBlocks.length.toInt ≤ 9 * blockSize) :=
  programLoad_exact (fileImage_typesKnown _ _ _) fileDentry_holdsString
    (fileImage_firstNamed _ _ _) (by decide) tenBlocks_valid (by decide) fileDentry
    (fun _ ↦ 0) fun _ ↦ 0

/-- The tenth block of a program is not loaded. -/
theorem programLoad_not_always : ¬ ∀ (img : Image) (filename : ℕ → UInt8) (name : List UInt8)
    (idx : ℕ) (myDentry : Dentry) (buffer user : ℤ → UInt8), img.TypesKnown →
      HoldsString filename name → img.FirstNamed name idx →
      ((img.dentries idx).inodeNum.toUInt32.toNat : ℤ) < img.inodeCount.toInt →
      (img.inodes (img.dentries idx).inodeNum.toUInt32.toNat).Valid img →
      30 ≤ (img.inodes (img.dentries idx).inodeNum.toUInt32.toNat).length.toInt →
      LoadsProgram img (img.inodes (img.dentries idx).inodeNum.toUInt32.toNat)
        (programLoad img filename myDentry buffer user) := by
  intro hall
  have hloads := hall tenBlocksImage fileDentry.filename [97] 0 fileDentry (fun _ ↦ 0) (fun _ ↦ 0)
    (fileImage_typesKnown _ _ _) fileDentry_holdsString (fileImage_firstNamed _ _ _) (by decide)
    tenBlocks_valid (by decide)
  have hresolves : tenBlocksImage.Resolves fileDentry.filename fileDentry :=
    fileImage_resolves _ _ _
  obtain ⟨entryPoint, hresult, -⟩ := programLoad_of_resolves hresolves (by decide)
    tenBlocks_valid (by decide) fileDentry (fun _ ↦ 0) fun _ ↦ 0
  have hbyte := hloads.memory 36864 (by decide) (by decide)
  rw [hresult] at hbyte
  -- the page still holds 0 where the file holds 1
  have hzero : (0 : UInt8) = 1 := hbyte
  exact absurd hzero (by decide)

end Sp18.Kernel
