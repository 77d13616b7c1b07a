import Sp18.Kernel.DescriptorTable
import Sp18.Kernel.Strings
import Sp18.Kernel.TerminalRead

/-!
# What a read may touch

`do_read` on the three kinds of descriptors, with the memory around the caller's buffer and around
the array `tmp` of `dir_read`. A regular file is copied within the buffer whatever the image holds.
`strncpy` stores a zero at index `n`, so that `dir_read` writes one byte behind the buffer and one
behind `tmp`. `terminal_read` takes its return value from `term_buf_index`, which makes it one too
large when just so many bytes are asked for (`doRead_stays_iff`).
-/

set_option autoImplicit false
set_option relaxedAutoImplicit false

namespace Sp18.Kernel

open Foundation

/-- What `terminal_read` returns and leaves in the buffer when it leaves its loops in state `s`. -/
def terminalAnswer (s : Input) (reader fd : ℤ) (buf : ℤ → UInt8) (nbytes : ℤ) : DeviceAnswer :=
  if fd ≠ 0 ∨ nbytes < 0 then ⟨-1, buf⟩
  else if nbytes = 0 then ⟨0, buf⟩
  else
    let result := (s.completeRead reader nbytes).2
    ⟨result.value, fun k ↦ if 0 ≤ k ∧ k < result.bytes.length then result.bytes.getD k.toNat 0
      else buf k⟩

/-- The memory around `tmp` after `dir_read`. -/
def dirReadTmp (img : Image) (fd : ℤ) (buf : ℤ → UInt8) (nbytes : ℤ) (tmp : ℤ → UInt8)
    (pcb : Pcb) : ℤ → UInt8 :=
  if fd < 0 ∨ fd ≥ maxOpenFiles then tmp
  else
    let object := pcb.fileObject fd
    if object.flags = notUsed then tmp
    else if object.fpos ≥ img.dirCount.toInt then tmp
    else
      let buf := strncpy buf (img.dentries object.fpos.toNat).nameBytes nbytes
      Function.update (strncpy tmp (fun i ↦ buf i) (filenameLen + 1)) filenameLen 0

/-- The memory around `tmp` after `do_read`. Only `dir_read` has this array. -/
def doReadTmp (img : Image) (fd : ℤ) (buf : ℤ → UInt8) (nbytes : ℤ) (tmp : ℤ → UInt8) (pcb : Pcb) :
    ℤ → UInt8 :=
  if (pcb.fileObject fd).fops = .dir then dirReadTmp img fd buf nbytes tmp pcb else tmp

/-- A read stores within the buffer and within the 33 bytes of `tmp`, and returns no more than it
was asked for. -/
structure ReadStays (nbytes : ℤ) (buf buf' tmp tmp' : ℤ → UInt8) (value : ℤ) : Prop where
  buffer : ∀ k, k < 0 ∨ nbytes ≤ k → buf' k = buf k
  tmp : ∀ k, k < 0 ∨ (filenameLen : ℤ) + 1 ≤ k → tmp' k = tmp k
  value : value ≤ nbytes

/-- A descriptor that is open on a terminal, a regular file or a directory. -/
structure OpenDescriptor (pcb : Pcb) (fd : ℤ) : Prop where
  fd_nonneg : 0 ≤ fd
  fd_lt : fd < maxOpenFiles
  used : (pcb.fileObject fd).flags ≠ notUsed
  kind : (pcb.fileObject fd).fops ∈ [Fops.terminal, .file, .dir]

/-- The reads that stay where they should. The terminal must not have just as many characters
pending as are asked for, and an entry of a directory must be followed by a zero already, behind the
buffer and behind `tmp`. -/
def ReadFits (img : Image) (s : Input) (fd : ℤ) (buf : ℤ → UInt8) (nbytes : ℤ) (tmp : ℤ → UInt8)
    (pcb : Pcb) : Prop :=
  match (pcb.fileObject fd).fops with
  | .terminal => fd = 0 → (s.console.terminals (s.onTerm s.console.curTask)).termBufIndex ≠ nbytes
  | .dir => img.dirCount.toInt ≤ (pcb.fileObject fd).fpos ∨
      buf nbytes = 0 ∧ tmp (filenameLen + 1) = 0
  | _ => True

/-! ### Regular files -/

section Files

variable {img : Image} {node : Inode} {length : ℤ}

/-- The copy loop stores within the first `length` bytes: each round ends there, and leaves room for
the next. -/
theorem readDataLoop_stays (hlength : length < 2 ^ 31) (fuel : ℕ) (memory : ℤ → UInt8)
    (c dataIdx copyData copyLength : ℤ) (hc : 0 ≤ c) (hle : c ≤ length)
    (hcopy : c < length → 0 < copyLength ∧ c + copyLength ≤ length) {value : ℤ}
    {memory' : ℤ → UInt8} (h : readDataLoop img node length fuel memory c c dataIdx copyData
      copyLength c = some (value, memory')) :
    (value = -1 ∨ value = length) ∧ ∀ k, k < 0 ∨ length ≤ k → memory' k = memory k := by
  induction fuel generalizing memory c dataIdx copyData copyLength with
  | zero => exact absurd h (by simp [readDataLoop])
  | succ fuel ih =>
    have hsame : ∀ {v : ℤ} {m m' : ℤ → UInt8},
        some (v, m) = some (value, m') → v = value ∧ m = m' :=
      fun heq ↦ Prod.mk.inj (Option.some_inj.mp heq)
    by_cases hmore : c < length
    · obtain ⟨hpos, hend⟩ := hcopy hmore
      have hkeep : ∀ k, k < 0 ∨ length ≤ k →
          memcpy memory c img.dataBlocks copyData copyLength k = memory k :=
        fun k hk ↦ memcpy_outside _ _ (by omega)
      rw [readDataLoop_round hlength hc hmore hpos hend] at h
      split_ifs at h with hcut hblock
      · obtain ⟨rfl, rfl⟩ := hsame h
        exact ⟨Or.inr rfl, fun _ _ ↦ rfl⟩
      · obtain ⟨rfl, rfl⟩ := hsame h
        exact ⟨Or.inl rfl, hkeep⟩
      · obtain ⟨hvalue, hrest⟩ := ih _ _ _ _ _ (by omega) hend (fun hagain ↦ by
          unfold blockSize
          omega) h
        exact ⟨hvalue, fun k hk ↦ (hrest k hk).trans (hkeep k hk)⟩
    · obtain rfl : c = length := by omega
      rw [readDataLoop_done hlength hc] at h
      obtain ⟨rfl, rfl⟩ := hsame h
      exact ⟨Or.inr rfl, fun _ _ ↦ rfl⟩

/-- The first round copies something, and no more than there is to copy. -/
theorem firstCopyLength_bounds (offset : UInt32) {n : ℤ} (hn : 0 < n) (hn' : n < 2 ^ 31) :
    0 < firstCopyLength offset n ∧ firstCopyLength offset n ≤ n := by
  have hcount : i32 n = n := i32_of_range (by omega) hn'
  have hroom : u32 (i32 (u32 (blockSize - offset.toNat))) = u32 (blockSize - offset.toNat) := by
    unfold u32 i32
    omega
  simp only [firstCopyLength, hcount, hroom]
  unfold i32 u32 blockSize
  split_ifs <;> omega

theorem readLength_bounds (node : Inode) {offset : UInt32} (length : UInt32)
    (hoffset : (offset.toNat : ℤ) < u32 node.length.toInt) :
    0 ≤ readLength node offset length ∧ readLength node offset length ≤ length.toNat := by
  have hlength := length.toNat_lt
  have hfile := u32_lt node.length.toInt
  rw [readLength]
  unfold u32 at *
  split_ifs <;> omega

/-- `read_data` stores within the bytes that it is asked for. -/
theorem readData_stays (img : Image) (inode offset : UInt32) (buffer : ℤ → UInt8) {length : UInt32}
    (hlength : length.toNat < 2 ^ 31) :
    (readData img inode offset buffer length).1 ≤ length.toNat ∧ ∀ k, k < 0 ∨
      (length.toNat : ℤ) ≤ k → (readData img inode offset buffer length).2 k = buffer k := by
  simp only [readData]
  split_ifs with hinode hoffset hblock
  · exact ⟨by simp only; omega, fun _ _ ↦ rfl⟩
  · exact ⟨by simp only; omega, fun _ _ ↦ rfl⟩
  · exact ⟨by simp only; omega, fun _ _ ↦ rfl⟩
  · obtain ⟨hlow, hhigh⟩ := readLength_bounds (img.inodes inode.toNat) length
      (not_le.mp hoffset)
    cases hloop : readDataLoop img (img.inodes inode.toNat)
        (readLength (img.inodes inode.toNat) offset length)
        ((readLength (img.inodes inode.toNat) offset length).toNat + 1) buffer 0 0
        (offset.toNat / blockSize)
        (((img.inodes inode.toNat).dataBlockNum ((offset.toNat : ℤ) / blockSize).toNat).toInt *
          blockSize + offset.toNat % blockSize)
        (firstCopyLength offset (readLength (img.inodes inode.toNat) offset length)) 0 with
    | none =>
      simp only [Option.getD_none]
      exact ⟨by omega, fun _ _ ↦ trivial⟩
    | some result =>
      obtain ⟨hvalue, hkeep⟩ := readDataLoop_stays (by omega) _ _ 0 _ _ _ le_rfl hlow
        (fun hmore ↦ by
          have hfirst := firstCopyLength_bounds offset hmore (by omega)
          rwa [zero_add]) hloop
      simp only [Option.getD_some]
      exact ⟨by omega, fun k hk ↦ hkeep k (by omega)⟩

/-- The length that `file_read` passes on: the request, cut off at the length of the file. -/
theorem readUntil_toNat (fLength : ℤ) {nbytes : ℤ} (hfile : 0 ≤ fLength) (hbytes : 0 < nbytes)
    (hbytes' : nbytes < 2 ^ 31) :
    ((UInt32.ofNat (u32 (if fLength < u32 nbytes then i32 fLength else nbytes)).toNat).toNat : ℤ) =
      min fLength nbytes := by
  have hrequest : u32 nbytes = nbytes := u32_of_range hbytes.le (by omega)
  have huntil : (if fLength < nbytes then i32 fLength else nbytes) = min fLength nbytes := by
    split_ifs with hcut
    · rw [i32_of_range (by omega) (by omega), min_eq_left hcut.le]
    · rw [min_eq_right (by omega)]
  rw [hrequest, huntil, u32_of_range (by omega) (by omega), UInt32.toNat_ofNat_of_lt' (by
    change (min fLength nbytes).toNat < 2 ^ 32
    omega)]
  omega

/-- `file_read` stores within the buffer, for every image and every state of the descriptor. -/
theorem fileRead_stays (img : Image) (fd : ℤ) (buf : ℤ → UInt8) {nbytes : ℤ} (hbytes : 0 < nbytes)
    (hbytes' : nbytes < 2 ^ 31) (pcb : Pcb) :
    (fileRead img fd buf nbytes pcb).1 ≤ nbytes ∧
      ∀ k, k < 0 ∨ nbytes ≤ k → (fileRead img fd buf nbytes pcb).2.1 k = buf k := by
  rw [fileRead]
  by_cases hend : u32 (pcb.fileObject fd).fpos ≥
      u32 (img.inodes (u32 (pcb.fileObject fd).inodeNum).toNat).length.toInt
  · rw [if_pos hend]
    exact ⟨hbytes.le, fun _ _ ↦ rfl⟩
  · rw [if_neg hend]
    dsimp only
    have huntil := readUntil_toNat
      (u32 (img.inodes (u32 (pcb.fileObject fd).inodeNum).toNat).length.toInt) (u32_nonneg _)
      hbytes hbytes'
    generalize UInt32.ofNat (u32 (if u32 (img.inodes
      (u32 (pcb.fileObject fd).inodeNum).toNat).length.toInt < u32 nbytes then _ else _)).toNat =
        length at huntil
    have hsmall : length.toNat < 2 ^ 31 := by omega
    obtain ⟨hvalue, hkeep⟩ := readData_stays img
      (UInt32.ofNat (u32 (pcb.fileObject fd).inodeNum).toNat)
      (UInt32.ofNat (u32 (pcb.fileObject fd).fpos).toNat) buf hsmall
    exact ⟨by omega, fun k hk ↦ hkeep k (by omega)⟩

end Files

/-! ### Directories -/

section Directories

variable (img : Image) (buf tmp : ℤ → UInt8) {fd nbytes : ℤ} {pcb : Pcb}

/-- At the end of the directory nothing is stored. -/
theorem dirRead_at_end (nbytes : ℤ) (hopen : OpenDescriptor pcb fd)
    (hend : img.dirCount.toInt ≤ (pcb.fileObject fd).fpos) :
    dirRead img fd buf nbytes tmp pcb = (0, buf, pcb) ∧
      dirReadTmp img fd buf nbytes tmp pcb = tmp := by
  have hlow := hopen.fd_nonneg
  have hhigh := hopen.fd_lt
  simp only [dirRead, dirReadTmp]
  rw [if_neg (by omega), if_neg hopen.used, if_pos hend, if_neg (by omega), if_neg hopen.used,
    if_pos hend]
  exact ⟨rfl, rfl⟩

/-- Before it the name goes into the buffer, from there into `tmp`, and its length is returned. -/
theorem dirRead_entry (nbytes : ℤ) (hopen : OpenDescriptor pcb fd)
    (hentry : ¬ img.dirCount.toInt ≤ (pcb.fileObject fd).fpos) :
    (dirRead img fd buf nbytes tmp pcb).2.1 =
        strncpy buf (img.dentries (pcb.fileObject fd).fpos.toNat).nameBytes nbytes ∧
      dirReadTmp img fd buf nbytes tmp pcb = Function.update (strncpy tmp
        (fun i ↦ (dirRead img fd buf nbytes tmp pcb).2.1 i) (filenameLen + 1)) filenameLen 0 ∧
      (dirRead img fd buf nbytes tmp pcb).1 =
        strlen fun i ↦ dirReadTmp img fd buf nbytes tmp pcb i := by
  have hlow := hopen.fd_nonneg
  have hhigh := hopen.fd_lt
  simp only [dirRead, dirReadTmp]
  rw [if_neg (by omega), if_neg hopen.used, if_neg hentry, if_neg (by omega), if_neg hopen.used,
    if_neg hentry]
  exact ⟨rfl, rfl, rfl⟩

/-- The name that `dir_read` returns the length of is no longer than the buffer: there is a zero
behind the buffer now, and one at the end of `tmp`. -/
theorem dirRead_value_le (hbytes : 0 < nbytes) (hbytes' : nbytes < 2 ^ 31)
    (hopen : OpenDescriptor pcb fd) : (dirRead img fd buf nbytes tmp pcb).1 ≤ nbytes := by
  by_cases hend : img.dirCount.toInt ≤ (pcb.fileObject fd).fpos
  · rw [(dirRead_at_end img buf tmp nbytes hopen hend).1]
    exact hbytes.le
  obtain ⟨hbuf, htmp, hvalue⟩ := dirRead_entry img buf tmp nbytes hopen hend
  rw [hvalue, htmp]
  by_cases hlong : (filenameLen : ℤ) ≤ nbytes
  · refine le_trans (Int.ofNat_le.mpr (strlen_le ?_)) hlong
    exact Function.update_self _ _ _
  · have hzero : (dirRead img fd buf nbytes tmp pcb).2.1 (nbytes.toNat : ℕ) = 0 := by
      rw [hbuf, Int.toNat_of_nonneg hbytes.le]
      exact strncpy_last _ _ hbytes.le (by omega)
    refine le_trans (Int.ofNat_le.mpr (strlen_le ?_)) (Int.toNat_of_nonneg hbytes.le).le
    have hne : ((nbytes.toNat : ℕ) : ℤ) ≠ filenameLen := by omega
    rw [Function.update_of_ne hne]
    exact strncpy_zero _ _ hzero (by omega) (by unfold filenameLen; omega)

/-- `dir_read` stays within the buffer and `tmp` exactly if it stores nothing or both are followed
by a zero. -/
theorem dirRead_stays_iff (hbytes : 0 < nbytes) (hbytes' : nbytes < 2 ^ 31)
    (hopen : OpenDescriptor pcb fd) :
    ReadStays nbytes buf (dirRead img fd buf nbytes tmp pcb).2.1 tmp
        (dirReadTmp img fd buf nbytes tmp pcb) (dirRead img fd buf nbytes tmp pcb).1 ↔
      img.dirCount.toInt ≤ (pcb.fileObject fd).fpos ∨
        buf nbytes = 0 ∧ tmp (filenameLen + 1) = 0 := by
  have hvalue := dirRead_value_le img buf tmp hbytes hbytes' hopen
  by_cases hend : img.dirCount.toInt ≤ (pcb.fileObject fd).fpos
  · obtain ⟨hread, htmp⟩ := dirRead_at_end img buf tmp nbytes hopen hend
    refine iff_of_true ⟨?_, ?_, hvalue⟩ (Or.inl hend)
    · rw [hread]
      exact fun _ _ ↦ rfl
    · rw [htmp]
      exact fun _ _ ↦ rfl
  · obtain ⟨hbuf, htmp, -⟩ := dirRead_entry img buf tmp nbytes hopen hend
    rw [or_iff_right hend, ← strncpy_outside_iff buf
      (img.dentries (pcb.fileObject fd).fpos.toNat).nameBytes hbytes.le (by omega),
      ← strncpy_outside_iff tmp (fun i ↦ (dirRead img fd buf nbytes tmp pcb).2.1 i)
        (n := filenameLen + 1) (by omega) (by unfold filenameLen; omega), ← hbuf]
    -- the zero that is stored at index 32 lies within `tmp`
    have hinside : ∀ k, k < 0 ∨ (filenameLen : ℤ) + 1 ≤ k →
        dirReadTmp img fd buf nbytes tmp pcb k = strncpy tmp
          (fun i ↦ (dirRead img fd buf nbytes tmp pcb).2.1 i) (filenameLen + 1) k := fun k hk ↦ by
      rw [htmp, Function.update_of_ne (by omega)]
    exact ⟨fun h ↦ ⟨h.buffer, fun k hk ↦ (hinside k hk).symm.trans (h.tmp k hk)⟩,
      fun h ↦ ⟨h.1, fun k hk ↦ (hinside k hk).trans (h.2 k hk), hvalue⟩⟩

end Directories

/-! ### The terminal -/

theorem length_copied (s : Input) (t : Fin 3) (nbytes : ℤ) :
    (s.copied t nbytes).length = (min nbytes bufferSize).toNat := by
  simp [Input.copied]

/-- `terminal_read` copies no more than it is asked for. What it returns is one more than
`term_buf_index`, unless that is larger than the request. -/
theorem terminalAnswer_stays_iff (s : Input) (reader fd : ℤ) (buf tmp : ℤ → UInt8) {nbytes : ℤ}
    (hbytes : 0 < nbytes) :
    ReadStays nbytes buf (terminalAnswer s reader fd buf nbytes).buffer tmp tmp
        (terminalAnswer s reader fd buf nbytes).value ↔
      (fd = 0 → (s.console.terminals (s.onTerm s.console.curTask)).termBufIndex ≠ nbytes) := by
  rw [terminalAnswer]
  by_cases hfd : fd = 0
  · rw [if_neg (by omega), if_neg (by omega)]
    have hcopied : ((s.completeRead reader nbytes).2.bytes.length : ℤ) = min nbytes bufferSize := by
      simp only [Input.completeRead, length_copied]
      unfold bufferSize
      omega
    have hvalue : (s.completeRead reader nbytes).2.value ≤ nbytes ↔
        (s.console.terminals (s.onTerm s.console.curTask)).termBufIndex ≠ nbytes := by
      simp only [Input.completeRead]
      split_ifs <;> omega
    dsimp only
    rw [← hvalue]
    exact ⟨fun h _ ↦ h.value, fun h ↦ ⟨fun k hk ↦ if_neg (by omega), fun _ _ ↦ rfl, h hfd⟩⟩
  · rw [if_pos (Or.inl hfd)]
    exact iff_of_true ⟨fun _ _ ↦ rfl, fun _ _ ↦ rfl, by dsimp only; omega⟩ fun h ↦ absurd h hfd

/-! ### The system call -/

/-- A read through an open descriptor stays within the buffer and within what it was asked for
exactly if `ReadFits` holds: always on a regular file, but not on a directory and on the
terminal. -/
theorem doRead_stays_iff (img : Image) (s : Input) (reader : ℤ) {fd nbytes : ℤ}
    (buf tmp : ℤ → UInt8) {pcb : Pcb} (hbytes : 0 < nbytes) (hbytes' : nbytes < 2 ^ 31)
    (hopen : OpenDescriptor pcb fd) :
    ∃ value buf' pcb', doRead img fd (some buf) nbytes tmp
        (terminalAnswer s reader fd buf nbytes) pcb = some (value, some buf', pcb') ∧
      (ReadStays nbytes buf buf' tmp (doReadTmp img fd buf nbytes tmp pcb) value ↔
        ReadFits img s fd buf nbytes tmp pcb) := by
  have hlow := hopen.fd_nonneg
  have hhigh := hopen.fd_lt
  have hused := hopen.used
  have hkind := hopen.kind
  have hcheck : ¬ (fd < 0 ∨ fd > maxOpenFiles ∨ nbytes = 0 ∨
      (pcb.fileObject fd).flags = notUsed) := by
    rintro (h | h | h | h)
    · omega
    · omega
    · omega
    · exact hused h
  rw [doRead, if_neg hcheck, doReadTmp, ReadFits]
  dsimp only
  cases hfops : (pcb.fileObject fd).fops with
  | terminal =>
    rw [if_neg (by simp)]
    exact ⟨_, _, _, rfl, terminalAnswer_stays_iff s reader fd buf tmp hbytes⟩
  | file =>
    obtain ⟨hvalue, hkeep⟩ := fileRead_stays img fd buf hbytes hbytes' pcb
    rw [if_neg (by simp)]
    exact ⟨_, _, _, rfl, iff_of_true ⟨hkeep, fun _ _ ↦ rfl, hvalue⟩ trivial⟩
  | dir =>
    rw [if_pos rfl]
    exact ⟨_, _, _, rfl, dirRead_stays_iff img buf tmp hbytes hbytes' hopen⟩
  | rtc =>
    rw [hfops] at hkind
    simp at hkind
  | other address =>
    rw [hfops] at hkind
    simp at hkind

/-- A process that has opened the directory. -/
def directoryPcb : Pcb := (initPcb 3 usedMemory).setFileObject 2 ⟨.dir, 0, 0, used⟩

theorem directoryPcb_open : OpenDescriptor directoryPcb 2 :=
  ⟨by decide, by decide, by decide, by decide⟩

/-- The exact condition, for the directory and a buffer that holds zeros. -/
theorem doRead_stays_iff_directory :
    ∃ value buf' pcb', doRead dotImage 2 (some fun _ ↦ 0) 32 (fun _ ↦ 0)
        (terminalAnswer quietInput (pcbAddr 0) 2 (fun _ ↦ 0) 32) directoryPcb =
          some (value, some buf', pcb') ∧
      (ReadStays 32 (fun _ ↦ 0) buf' (fun _ ↦ 0)
          (doReadTmp dotImage 2 (fun _ ↦ 0) 32 (fun _ ↦ 0) directoryPcb) value ↔
        ReadFits dotImage quietInput 2 (fun _ ↦ 0) 32 (fun _ ↦ 0) directoryPcb) :=
  doRead_stays_iff dotImage quietInput (pcbAddr 0) (fun _ ↦ 0) (fun _ ↦ 0) (by decide) (by decide)
    directoryPcb_open

/-- One byte is asked for, and a zero is stored behind it. -/
theorem doRead_not_always : ¬ ∀ (img : Image) (s : Input) (reader fd nbytes : ℤ)
    (buf tmp : ℤ → UInt8) (pcb : Pcb), 0 < nbytes → nbytes < 2 ^ 31 → OpenDescriptor pcb fd →
      ∀ value buf' pcb', doRead img fd (some buf) nbytes tmp
          (terminalAnswer s reader fd buf nbytes) pcb = some (value, some buf', pcb') →
        ReadStays nbytes buf buf' tmp (doReadTmp img fd buf nbytes tmp pcb) value := by
  intro hall
  have hread := hall dotImage quietInput (pcbAddr 0) 2 1 (fun _ ↦ 65) (fun _ ↦ 0) directoryPcb
    (by decide) (by decide) directoryPcb_open _ _ _ rfl
  exact absurd (hread.buffer 1 (Or.inr le_rfl)) (by decide)

end Sp18.Kernel
