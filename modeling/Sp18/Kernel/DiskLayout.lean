import Sp18.Kernel.FileText
import Sp18.Foundation.Records

/-!
# The format of the disk

`fs_init` checks nothing: it copies three numbers out of the boot block, and from then on the
structures of `filesys.h` are read through pointers into the module that the boot loader put into
memory. `fsInit` is what they reach.

A `Volume` says what a disk is for: a directory, the contents of the files, and the order in which
the data blocks stand on the disk. `Volume.encode` writes it down in the format. A kernel that
starts on a memory with these bytes finds the volume again (`fsInit_holds`): the names in their
order, what each one stands for, and every byte of every file, wherever its blocks are.
-/

set_option autoImplicit false
set_option relaxedAutoImplicit false

namespace Sp18.Kernel

open Foundation

/-! ### What `fs_init` reads -/

/-- `STATS_SIZE` -/
def statsSize : ℤ := 64

/-- `INODE_OFFSET` -/
def inodeOffset : ℤ := 4

/-- `DATA_OFFSET` -/
def dataOffset : ℤ := 8

/-- A 32-bit integer in memory. -/
def dwordAt (memory : ℤ → UInt8) (a : ℤ) : Int32 :=
  Int32.ofNat (ofLittleEndian (valuesAt memory a 4))

/-- The `dentry_t` at an address. -/
def dentryAt (memory : ℤ → UInt8) (a : ℤ) : Dentry where
  filename := fun i ↦ memory (a + i)
  filetype := dwordAt memory (a + 32)
  inodeNum := dwordAt memory (a + 36)
  reserved := fun i ↦ memory (a + 40 + i)

/-- The `inode_t` at an address. -/
def inodeAt (memory : ℤ → UInt8) (a : ℤ) : Inode where
  length := dwordAt memory a
  dataBlockNum := fun block ↦ dwordAt memory (a + 4 + block * 4)

/-- The memory relative to `boot_addr`; an address has 32 bits. -/
def fromBoot (memory : BitVec 32 → UInt8) (boot : BitVec 32) (a : ℤ) : UInt8 :=
  memory (boot + BitVec.ofInt 32 a)

/-- `fs_init`, with what stands behind the pointers `dentries` and `inodes` and behind the address
at which `read_data` expects the data blocks. -/
def fsInit (memory : BitVec 32 → UInt8) (boot : BitVec 32) : Image where
  dirCount := dwordAt (fromBoot memory boot) 0
  inodeCount := dwordAt (fromBoot memory boot) inodeOffset
  dataCount := dwordAt (fromBoot memory boot) dataOffset
  dentries := fun i ↦ dentryAt (fromBoot memory boot) (statsSize + i * 64)
  inodes := fun i ↦ inodeAt (fromBoot memory boot) (blockSize + i * 4096)
  dataBlocks := fun a ↦ fromBoot memory boot
    ((dwordAt (fromBoot memory boot) inodeOffset).toInt * blockSize + blockSize + a)

/-! ### Volumes -/

/-- What an entry of the directory stands for; the number is that of an inode. -/
inductive EntryKind where
  | rtc
  | directory
  | regular (inode : ℕ)
  deriving DecidableEq

/-- An entry of the directory. -/
structure VolumeEntry where
  name : List UInt8
  kind : EntryKind
  deriving DecidableEq

/-- What a disk holds. File `i` belongs to inode `i`, and block `b` of it is the data block that
`blocks` has at the position of `(i, b)`. -/
structure Volume where
  entries : List VolumeEntry
  files : List (List UInt8)
  blocks : List (ℕ × ℕ)
  entries_le : entries.length ≤ 63
  files_lt : files.length < 2 ^ 31
  blocks_lt : blocks.length < 2 ^ 31
  name_fits : ∀ entry ∈ entries, entry.name.length ≤ 32 ∧ ∀ c ∈ entry.name, c ≠ 0
  inode_lt : ∀ entry ∈ entries, ∀ inode, entry.kind = .regular inode → inode < files.length
  file_le : ∀ file ∈ files, file.length ≤ 1023 * 4096
  placed : ∀ inode (h : inode < files.length), ∀ block, block * 4096 < files[inode].length →
    (inode, block) ∈ blocks

/-- The type of an entry. -/
def EntryKind.filetype : EntryKind → ℕ
  | .rtc => 0
  | .directory => 1
  | .regular _ => 2

/-- The inode of an entry. It is 0 for those that have none. -/
def EntryKind.inode : EntryKind → ℕ
  | .regular inode => inode
  | _ => 0

/-- The kind of file that a descriptor is bound to. -/
def EntryKind.fileKind : EntryKind → FileKind
  | .rtc => .rtc
  | .directory => .directory
  | .regular inode => .regular inode

/-- A directory entry of 64 bytes. -/
def VolumeEntry.encode (entry : VolumeEntry) : List UInt8 :=
  entry.name.rightpad 32 0 ++ littleEndian 4 entry.kind.filetype ++
    littleEndian 4 entry.kind.inode ++ List.replicate 24 0

namespace Volume

/-- The content of a file. -/
def file (v : Volume) (inode : ℕ) : List UInt8 := v.files.getD inode []

/-- The 4096 bytes of an inode: the length of the file and the numbers of its blocks. -/
def encodeInode (v : Volume) (inode : ℕ) : List UInt8 :=
  littleEndian 4 (v.file inode).length ++
    (List.range 1023).flatMap fun block ↦ littleEndian 4 (v.blocks.idxOf (inode, block))

/-- The 4096 bytes of a data block. -/
def encodeBlock (v : Volume) (place : ℕ × ℕ) : List UInt8 :=
  (((v.file place.1).drop (place.2 * 4096)).take 4096).rightpad 4096 0

/-- The disk: the boot block, the inodes and the data blocks. -/
def encode (v : Volume) : List UInt8 :=
  (littleEndian 4 v.entries.length ++ littleEndian 4 v.files.length ++
      littleEndian 4 v.blocks.length ++ List.replicate 52 0) ++
    (v.entries.flatMap VolumeEntry.encode).rightpad 4032 0 ++
    (List.range v.files.length).flatMap v.encodeInode ++ v.blocks.flatMap v.encodeBlock

/-- What a name stands for. -/
def kindOf (v : Volume) (name : List UInt8) : Option FileKind :=
  (v.entries.find? (·.name = name)).map fun entry ↦ entry.kind.fileKind

end Volume

/-- The kernel finds this volume on the disk. -/
structure Image.HoldsVolume (img : Image) (v : Volume) : Prop where
  dirCount : img.dirCount.toInt = v.entries.length
  inodeCount : img.inodeCount.toInt = v.files.length
  name : ∀ i (h : i < v.entries.length), (img.dentries i).name = v.entries[i].name
  filetype : ∀ i (h : i < v.entries.length),
    (img.dentries i).filetype.toInt = v.entries[i].kind.filetype
  inode : ∀ i (h : i < v.entries.length),
    (img.dentries i).inodeNum.toInt = v.entries[i].kind.inode
  valid : ∀ inode < v.files.length, (img.inodes inode).Valid img
  length : ∀ inode < v.files.length, (img.inodes inode).length.toInt = (v.file inode).length
  byte : ∀ inode < v.files.length, ∀ k (h : k < (v.file inode).length),
    fileByte img (img.inodes inode) k = (v.file inode)[k]

/-! ### Reading the format -/

section Decode

variable {memory : ℤ → UInt8} {a : ℤ}

theorem dwordAt_of_stored {value : ℕ} (h : Stored memory a (littleEndian 4 value))
    (hvalue : value < 2 ^ 31) : (dwordAt memory a).toInt = value := by
  rw [Stored, length_littleEndian] at h
  rw [dwordAt, h, ofLittleEndian_littleEndian, Nat.mod_eq_of_lt (by omega),
    Int32.toInt_ofNat_of_lt hvalue]

/-- A name that fills its 32 bytes has no zero behind it. -/
theorem name_of_rightpad {entry : Dentry} {name : List UInt8} (hlength : name.length ≤ 32)
    (hnonzero : ∀ c ∈ name, c ≠ 0) (h : ∀ i < 32, entry.filename i = name.getD i 0) :
    entry.name = name := by
  have hsame : stringAt entry.filename 0 filenameLen = stringAt (name.getD · 0) 0 filenameLen :=
    stringAt_congr fun i _ hi ↦ h i (by unfold filenameLen at hi; omega)
  rw [Dentry.name, hsame, (HoldsString.getD_zero hnonzero).stringAt,
    List.take_of_length_le (by unfold filenameLen; omega)]

theorem length_encode_entry {entry : VolumeEntry} (hlength : entry.name.length ≤ 32) :
    entry.encode.length = 64 := by
  simp only [VolumeEntry.encode, List.length_append, List.length_rightpad, length_littleEndian,
    List.length_replicate]
  omega

/-- An entry is read as it was written. -/
theorem dentryAt_of_stored {entry : VolumeEntry} (hlength : entry.name.length ≤ 32)
    (hnonzero : ∀ c ∈ entry.name, c ≠ 0) (hinode : entry.kind.inode < 2 ^ 31)
    (h : Stored memory a entry.encode) :
    (dentryAt memory a).name = entry.name ∧
      (dentryAt memory a).filetype.toInt = entry.kind.filetype ∧
      (dentryAt memory a).inodeNum.toInt = entry.kind.inode := by
  have hsize : (entry.name.rightpad 32 0).length = 32 := by
    rw [List.length_rightpad]
    omega
  rw [VolumeEntry.encode, stored_append, stored_append, stored_append] at h
  simp only [List.length_append, hsize, length_littleEndian] at h
  obtain ⟨⟨⟨hname, hfiletype⟩, hnumber⟩, -⟩ := h
  have hknown : entry.kind.filetype < 2 ^ 31 := by
    cases entry.kind <;> simp only [EntryKind.filetype] <;> norm_num
  exact ⟨name_of_rightpad hlength hnonzero fun i hi ↦ Stored.rightpad hname hi,
    dwordAt_of_stored hfiletype hknown, dwordAt_of_stored hnumber hinode⟩

end Decode

/-! ### The parts of a volume -/

namespace Volume

variable {v : Volume} {memory : ℤ → UInt8}

theorem length_entries (v : Volume) :
    (v.entries.flatMap VolumeEntry.encode).length = v.entries.length * 64 :=
  length_flatMap_of_size fun entry hentry ↦ length_encode_entry (v.name_fits entry hentry).1

theorem length_encodeInode (v : Volume) (inode : ℕ) : (v.encodeInode inode).length = 4096 := by
  rw [encodeInode, List.length_append, length_littleEndian,
    length_flatMap_of_size fun block _ ↦ length_littleEndian 4 _, List.length_range]

theorem length_encodeBlock (v : Volume) (place : ℕ × ℕ) : (v.encodeBlock place).length = 4096 := by
  rw [encodeBlock, List.length_rightpad, List.length_take]
  omega

theorem file_eq {inode : ℕ} (h : inode < v.files.length) : v.file inode = v.files[inode] :=
  List.getD_eq_getElem _ _ h

theorem placed_file (v : Volume) {inode block : ℕ} (h : inode < v.files.length)
    (hblock : block * 4096 < (v.file inode).length) : (inode, block) ∈ v.blocks := by
  rw [file_eq h] at hblock
  exact v.placed inode h block hblock

theorem length_file_le (v : Volume) (inode : ℕ) : (v.file inode).length ≤ 1023 * 4096 := by
  by_cases h : inode < v.files.length
  · rw [file_eq h]
    exact v.file_le _ (List.getElem_mem h)
  · rw [file, List.getD_eq_default _ _ (not_lt.mp h)]
    exact Nat.zero_le _

theorem inode_bound (v : Volume) {entry : VolumeEntry} (h : entry ∈ v.entries) :
    entry.kind.inode < 2 ^ 31 := by
  have hlt := v.inode_lt entry h
  cases hkind : entry.kind with
  | regular inode => exact (hlt inode hkind).trans v.files_lt
  | rtc => exact Nat.two_pow_pos 31
  | directory => exact Nat.two_pow_pos 31

/-- The parts of a disk, and where each of them starts. -/
structure Parts (v : Volume) (memory : ℤ → UInt8) : Prop where
  dirCount : Stored memory 0 (littleEndian 4 v.entries.length)
  inodeCount : Stored memory 4 (littleEndian 4 v.files.length)
  dataCount : Stored memory 8 (littleEndian 4 v.blocks.length)
  entries : Stored memory 64 (v.entries.flatMap VolumeEntry.encode)
  inodes : Stored memory 4096 ((List.range v.files.length).flatMap v.encodeInode)
  blocks : Stored memory (4096 + v.files.length * 4096) (v.blocks.flatMap v.encodeBlock)

theorem parts (h : Stored memory 0 v.encode) : v.Parts memory := by
  have hentries := v.entries_le
  have htable : ((v.entries.flatMap VolumeEntry.encode).rightpad 4032 0).length = 4032 := by
    rw [List.length_rightpad, length_entries]
    omega
  have hnodes : ((List.range v.files.length).flatMap v.encodeInode).length =
      v.files.length * 4096 := by
    rw [length_flatMap_of_size fun inode _ ↦ v.length_encodeInode inode, List.length_range]
  rw [encode, stored_append, stored_append, stored_append, stored_append, stored_append,
    stored_append] at h
  simp only [List.length_append, htable, hnodes, length_littleEndian, List.length_replicate,
    Nat.cast_add, Nat.cast_mul, Nat.cast_ofNat] at h
  obtain ⟨⟨⟨⟨⟨⟨hdir, hinode⟩, hdata⟩, -⟩, hentry⟩, hinodes⟩, hblocks⟩ := h
  rw [List.rightpad, stored_append] at hentry
  norm_num at hinode hdata hentry hinodes hblocks
  exact ⟨hdir, hinode, hdata, hentry.1, hinodes, add_comm (4096 : ℤ) _ ▸ hblocks⟩

/-- An inode is read as it was written. -/
theorem inodeAt_of_stored {a : ℤ} {inode : ℕ} (h : Stored memory a (v.encodeInode inode)) :
    (inodeAt memory a).length.toInt = (v.file inode).length ∧
      ∀ block < 1023, ((inodeAt memory a).dataBlockNum block).toInt =
        v.blocks.idxOf (inode, block) := by
  have hlength := v.length_file_le inode
  rw [encodeInode, stored_append, length_littleEndian] at h
  refine ⟨dwordAt_of_stored h.1 (by omega), fun block hblock ↦ ?_⟩
  have hlt : block < (List.range 1023).length := by rwa [List.length_range]
  have hnumber := h.2.record (fun block _ ↦ length_littleEndian 4 _) hlt
  rw [List.getElem_range] at hnumber
  have hfound := List.idxOf_le_length (a := (inode, block)) (l := v.blocks)
  exact dwordAt_of_stored hnumber (hfound.trans_lt v.blocks_lt)

/-- A byte of a file is read where it was written. -/
theorem byte_of_stored {a : ℤ} {inode block i : ℕ}
    (h : Stored memory a (v.encodeBlock (inode, block))) (hi : i < 4096)
    (hlength : block * 4096 + i < (v.file inode).length) :
    memory (a + i) = (v.file inode)[block * 4096 + i] := by
  have htake : i < (((v.file inode).drop (block * 4096)).take 4096).length := by
    rw [List.length_take, List.length_drop]
    omega
  rw [encodeBlock] at h
  rw [h.rightpad hi, List.getD_eq_getElem _ _ htake, List.getElem_take, List.getElem_drop]

end Volume

/-! ### Starting on a volume -/

section Init

variable {v : Volume} {memory : BitVec 32 → UInt8} {boot : BitVec 32}

theorem fsInit_inodeCount (h : Stored (fromBoot memory boot) 0 v.encode) :
    (fsInit memory boot).inodeCount.toInt = v.files.length :=
  dwordAt_of_stored (Volume.parts h).inodeCount v.files_lt

theorem fsInit_dataCount (h : Stored (fromBoot memory boot) 0 v.encode) :
    (fsInit memory boot).dataCount.toInt = v.blocks.length :=
  dwordAt_of_stored (Volume.parts h).dataCount v.blocks_lt

theorem fsInit_entry (h : Stored (fromBoot memory boot) 0 v.encode) {i : ℕ}
    (hi : i < v.entries.length) : ((fsInit memory boot).dentries i).name = v.entries[i].name ∧
      ((fsInit memory boot).dentries i).filetype.toInt = v.entries[i].kind.filetype ∧
      ((fsInit memory boot).dentries i).inodeNum.toInt = v.entries[i].kind.inode := by
  have hmem : v.entries[i] ∈ v.entries := List.getElem_mem hi
  have hstored := (Volume.parts h).entries.record
    (fun entry hentry ↦ length_encode_entry (v.name_fits entry hentry).1) hi
  exact dentryAt_of_stored (v.name_fits _ hmem).1 (v.name_fits _ hmem).2 (v.inode_bound hmem)
    hstored

theorem fsInit_inode (h : Stored (fromBoot memory boot) 0 v.encode) {inode : ℕ}
    (hlt : inode < v.files.length) :
    ((fsInit memory boot).inodes inode).length.toInt = (v.file inode).length ∧
      ∀ block < 1023, (((fsInit memory boot).inodes inode).dataBlockNum block).toInt =
        v.blocks.idxOf (inode, block) := by
  have hrange : inode < (List.range v.files.length).length := by rwa [List.length_range]
  have hstored := (Volume.parts h).inodes.record (fun inode _ ↦ v.length_encodeInode inode) hrange
  rw [List.getElem_range] at hstored
  exact Volume.inodeAt_of_stored hstored

/-- A data block is where `read_data` looks for it. -/
theorem fsInit_block (h : Stored (fromBoot memory boot) 0 v.encode) {place : ℕ × ℕ}
    (hplaced : place ∈ v.blocks) : Stored (fsInit memory boot).dataBlocks
      (v.blocks.idxOf place * blockSize) (v.encodeBlock place) := by
  have hstored := (Volume.parts h).blocks.record (fun place _ ↦ v.length_encodeBlock place)
    (List.idxOf_lt_length_iff.mpr hplaced)
  rw [List.getElem_idxOf] at hstored
  have hdata : (fsInit memory boot).dataBlocks = fun a ↦ fromBoot memory boot
      ((fsInit memory boot).inodeCount.toInt * blockSize + blockSize + a) := rfl
  rw [hdata, fsInit_inodeCount h, add_comm _ blockSize]
  exact stored_shift.mpr hstored

/-- The kernel finds on the disk what was written to it. -/
theorem fsInit_holds (h : Stored (fromBoot memory boot) 0 v.encode) :
    (fsInit memory boot).HoldsVolume v where
  dirCount := dwordAt_of_stored (Volume.parts h).dirCount (by have := v.entries_le; omega)
  inodeCount := fsInit_inodeCount h
  name i hi := (fsInit_entry h hi).1
  filetype i hi := (fsInit_entry h hi).2.1
  inode i hi := (fsInit_entry h hi).2.2
  valid inode hlt := by
    obtain ⟨hlength, hnumber⟩ := fsInit_inode h hlt
    have hsize := v.length_file_le inode
    refine ⟨by unfold blockSize; omega, fun block hused ↦ ?_⟩
    unfold blockSize at hused
    have hplaced := v.placed_file hlt (by omega : block * 4096 < (v.file inode).length)
    have hfound := List.idxOf_lt_length_iff.mpr hplaced
    rw [fsInit_dataCount h, hnumber block (by omega)]
    omega
  length inode hlt := (fsInit_inode h hlt).1
  byte inode hlt k hk := by
    have hsize := v.length_file_le inode
    have hdiv : k / 4096 * 4096 + k % 4096 = k := Nat.div_add_mod' k 4096
    have hplaced := v.placed_file hlt (by omega : k / 4096 * 4096 < (v.file inode).length)
    have hstored := Volume.byte_of_stored (fsInit_block h hplaced) (Nat.mod_lt k (by norm_num))
      (by rwa [hdiv])
    simp only [hdiv] at hstored
    have hquotient : ((k : ℤ) / blockSize).toNat = k / 4096 := by
      unfold blockSize
      omega
    rw [← hstored, fileByte, hquotient, (fsInit_inode h hlt).2 _ (by omega)]
    rfl

end Init

/-! ### Using a volume -/

namespace Image.HoldsVolume

variable {img : Image} {v : Volume}

theorem dirCount_eq (h : img.HoldsVolume v) : u32 img.dirCount.toInt = v.entries.length := by
  have hcount := v.entries_le
  rw [h.dirCount]
  exact u32_of_range (by omega) (by omega)

theorem typesKnown (h : img.HoldsVolume v) : img.TypesKnown := by
  intro i hi
  rw [h.dirCount_eq] at hi
  rw [h.filetype i (by omega)]
  cases v.entries[i].kind with
  | rtc => exact Or.inl rfl
  | directory => exact Or.inr (Or.inl rfl)
  | regular inode => exact Or.inr (Or.inr rfl)

theorem kind (h : img.HoldsVolume v) {i : ℕ} (hi : i < v.entries.length) :
    (img.dentries i).kind = some v.entries[i].kind.fileKind := by
  rw [Dentry.kind, h.filetype i hi, h.inode i hi]
  cases v.entries[i].kind <;> rfl

/-- A name stands for what the first entry with it stands for. -/
theorem lookup (h : img.HoldsVolume v) {fname : ℕ → UInt8} {name : List UInt8}
    (hname : HoldsString fname name) : img.lookup fname = v.kindOf name := by
  cases hfind : v.entries.find? (·.name = name) with
  | none =>
    rw [Volume.kindOf, hfind, Option.map_none]
    refine lookup_of_unknown h.typesKnown hname fun idx hidx heq ↦ ?_
    rw [h.dirCount_eq, Nat.cast_lt] at hidx
    have hother := List.find?_eq_none.mp hfind _ (List.getElem_mem hidx)
    rw [h.name idx hidx] at heq
    exact hother (decide_eq_true heq)
  | some entry =>
    obtain ⟨hsame, idx, hidx, rfl, hbefore⟩ := List.find?_eq_some_iff_getElem.mp hfind
    have hfirst : img.FirstNamed name idx := by
      refine ⟨by rwa [h.dirCount_eq, Nat.cast_lt], ?_, fun i hi heq ↦ ?_⟩
      · rw [h.name idx hidx]
        exact of_decide_eq_true hsame
      · rw [h.name i (hi.trans hidx)] at heq
        have hdiffers := hbefore i hi
        rw [decide_eq_true heq] at hdiffers
        exact absurd hdiffers (by decide)
    rw [Volume.kindOf, hfind, lookup_of_firstNamed h.typesKnown hname hfirst, h.kind hidx,
      Option.map_some]

theorem fileText (h : img.HoldsVolume v) {inode : ℕ} (hlt : inode < v.files.length) :
    fileText img (img.inodes inode) = v.file inode := by
  have hlength := h.length inode hlt
  refine List.ext_getElem (by rw [length_fileText, hlength, Int.toNat_natCast]) fun k hk hk' ↦ ?_
  rw [getElem_fileText, h.byte inode hlt k hk']

/-- A read from inside a file. -/
theorem request (h : img.HoldsVolume v) {inode offset length : UInt32}
    (hlt : inode.toNat < v.files.length) (hoffset : offset.toNat < (v.file inode.toNat).length)
    (hlength : (length.toNat : ℤ) ≤ maxFileSize) : FileRequest img inode offset length := by
  have hsize := v.length_file_le inode.toNat
  have hnode := h.length inode.toNat hlt
  refine ⟨h.valid inode.toNat hlt, by rw [h.inodeCount]; exact_mod_cast hlt, by omega, ?_⟩
  unfold maxFileSize at hlength
  omega

/-- A read from behind the last inode or from behind the end of a file. -/
theorem readData_out (h : img.HoldsVolume v) {inode offset length : UInt32} {buffer : ℤ → UInt8}
    (hout : v.files.length ≤ inode.toNat ∨ (v.file inode.toNat).length ≤ offset.toNat) :
    readData img inode offset buffer length = (-1, buffer) := by
  have hfiles := v.files_lt
  have hcount : u32 img.inodeCount.toInt = v.files.length := by
    rw [h.inodeCount]
    exact u32_of_range (by omega) (by omega)
  rw [readData, hcount]
  by_cases hlt : inode.toNat < v.files.length
  · have hsize := v.length_file_le inode.toNat
    have hlength : u32 (img.inodes inode.toNat).length.toInt = (v.file inode.toNat).length := by
      rw [h.length _ hlt]
      exact u32_of_range (by omega) (by omega)
    rw [if_neg (by omega)]
    dsimp only
    rw [hlength, if_pos (by omega)]
  · rw [if_pos (by omega)]

end Image.HoldsVolume

/-- A kernel that starts on a disk in the format finds what was written to it, wherever the data
blocks are: the names in their order, what each name stands for, and the bytes of each file. -/
theorem fsInit_reads (v : Volume) {memory : BitVec 32 → UInt8} {boot : BitVec 32}
    (h : Stored (fromBoot memory boot) 0 v.encode) :
    (fsInit memory boot).dirCount.toInt = v.entries.length ∧
      (∀ i (hi : i < v.entries.length),
        ((fsInit memory boot).dentries i).name = v.entries[i].name) ∧
      (∀ name fname, HoldsString fname name →
        (fsInit memory boot).lookup fname = v.kindOf name) ∧
      (∀ inode offset length buffer, v.files.length ≤ inode.toNat ∨
          (v.file inode.toNat).length ≤ offset.toNat →
        readData (fsInit memory boot) inode offset buffer length = (-1, buffer)) ∧
      ∀ inode offset length : UInt32, ∀ buffer, inode.toNat < v.files.length →
        offset.toNat < (v.file inode.toNat).length → (length.toNat : ℤ) ≤ maxFileSize →
        (offset.toNat : ℤ) < blockSize ∨ offset.toNat % blockSize + length.toNat ≤ blockSize →
        readData (fsInit memory boot) inode offset buffer length =
          ((min length.toNat ((v.file inode.toNat).length - offset.toNat) : ℤ),
            storeList buffer 0 (((v.file inode.toNat).drop offset.toNat).take length.toNat)) := by
  have hholds := fsInit_holds h
  refine ⟨hholds.dirCount, hholds.name, fun name fname hname ↦ hholds.lookup hname,
    fun inode offset length buffer hout ↦ ?_,
    fun inode offset length buffer hlt hoffset hlength hplace ↦ ?_⟩
  · exact hholds.readData_out hout
  · have hnode := hholds.length inode.toNat hlt
    have hrequest := hholds.request hlt hoffset hlength
    have hreads : ReadsOn (fsInit memory boot) ((fsInit memory boot).inodes inode.toNat)
        offset.toNat (readCount ((fsInit memory boot).inodes inode.toNat) offset length) := by
      rcases hplace with hfirst | hinside
      · exact fun hlater ↦ absurd hfirst hlater.not_gt
      · refine readsOn_aligned ?_
        unfold readCount
        omega
    rw [readData_text hrequest buffer hlength hreads, hholds.fileText hlt, readCount, hnode]

/-! ### A disk -/

theorem Volume.length_encode (v : Volume) :
    v.encode.length = 4096 * (1 + v.files.length + v.blocks.length) := by
  have hcount := v.entries_le
  simp only [encode, List.length_append, List.length_rightpad, length_littleEndian,
    List.length_replicate, v.length_entries,
    length_flatMap_of_size fun inode _ ↦ v.length_encodeInode inode,
    length_flatMap_of_size fun place _ ↦ v.length_encodeBlock place, List.length_range]
  omega

/-- A memory that has the disk at address 0. -/
def Volume.inMemory (v : Volume) (a : BitVec 32) : UInt8 := v.encode.getD a.toNat 0

theorem Volume.stored_inMemory {v : Volume} (h : v.files.length + v.blocks.length < 2 ^ 20) :
    Stored (fromBoot v.inMemory 0) 0 v.encode := by
  refine stored_of_apply fun i hi ↦ ?_
  have hlength := v.length_encode
  have haddress : (0 + BitVec.ofInt 32 (0 + i)).toNat = i := by
    rw [zero_add, zero_add, BitVec.ofInt_natCast, BitVec.toNat_ofNat]
    omega
  rw [fromBoot, Volume.inMemory, haddress, List.getD_eq_getElem _ _ hi]

/-- The directory and a file `a` of 4097 bytes. Its second block stands in front of the first. -/
def swappedVolume : Volume where
  entries := [⟨[46], .directory⟩, ⟨[97], .regular 0⟩]
  files := [List.replicate 4096 104 ++ [105]]
  blocks := [(0, 1), (0, 0)]
  entries_le := by decide
  files_lt := by decide
  blocks_lt := by decide
  name_fits := by decide +kernel
  inode_lt := by
    intro entry hmem inode hkind
    rw [List.mem_pair] at hmem
    rcases hmem with rfl | rfl <;> cases hkind
    exact Nat.one_pos
  file_le := by
    intro file hmem
    rw [List.mem_singleton.mp hmem, List.length_append, List.length_replicate,
      List.length_singleton]
    norm_num
  placed := by
    intro inode hlt block hblock
    obtain rfl : inode = 0 := Nat.lt_one_iff.mp hlt
    simp only [List.getElem_cons_zero, List.length_append, List.length_replicate,
      List.length_singleton] at hblock
    obtain rfl | rfl : block = 0 ∨ block = 1 := by omega
    · decide
    · decide

/-- The last byte of file `a`. -/
theorem fsInit_reads_swapped :
    (fsInit swappedVolume.inMemory 0).lookup (fun i ↦ if i = 0 then 97 else 0) =
        some (.regular 0) ∧
      readData (fsInit swappedVolume.inMemory 0) 0 4096 (fun _ ↦ 0) 10 =
        (1, Function.update (fun _ ↦ 0) 0 105) := by
  obtain ⟨-, -, hlookup, -, hread⟩ := fsInit_reads swappedVolume
    (Volume.stored_inMemory (by decide : swappedVolume.files.length +
      swappedVolume.blocks.length < 2 ^ 20))
  have hfile : swappedVolume.file 0 = List.replicate 4096 104 ++ [105] := rfl
  have hlength : (swappedVolume.file 0).length = 4097 := by
    rw [hfile, List.length_append, List.length_replicate, List.length_singleton]
  refine ⟨hlookup [97] _ ⟨?_, by decide +kernel, rfl⟩, ?_⟩
  · intro i hi
    obtain rfl : i = 0 := Nat.lt_one_iff.mp hi
    rfl
  · have hlast := hread 0 4096 10 (fun _ ↦ 0) Nat.one_pos
      (by change 4096 < (swappedVolume.file 0).length; omega) (by decide) (Or.inr (by decide))
    have hzero : (0 : UInt32).toNat = 0 := rfl
    have hoffset : (4096 : UInt32).toNat = 4096 := rfl
    rw [hzero, hoffset, hlength, hfile, List.drop_left' List.length_replicate] at hlast
    exact hlast

end Sp18.Kernel
