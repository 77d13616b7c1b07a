import Sp18.Kernel.FileText
import Sp18.UserPrograms.Calls

/-!
# Reading a file and the directory

What `read` gets from a file that has been opened: the bytes that follow its position
(`Task.read_text`). What it gets from the directory is the name of one entry after the other
(`Task.read_name`). A name is opened if the directory has it, with the lowest free descriptor
(`Task.openFile_eq`).
-/

set_option autoImplicit false
set_option relaxedAutoImplicit false

namespace Sp18.UserPrograms

open Foundation Kernel

theorem fops_of_regular {object : FileObject} {inode : ℤ}
    (h : object.kind = some (.regular inode)) : object.fops = .file := by
  unfold FileObject.kind at h
  cases hfops : object.fops <;> rw [hfops] at h <;> cases h

theorem fops_of_directory {object : FileObject} (h : object.kind = some .directory) :
    object.fops = .dir := by
  unfold FileObject.kind at h
  cases hfops : object.fops <;> rw [hfops] at h <;> cases h

namespace Task

variable {img : Image} {task : Task} {fd : Fin 8} {kind : FileKind} {position : ℤ}

/-- The descriptor is open and stands at a position. -/
structure Opened (task : Task) (fd : Fin 8) (kind : FileKind) (position : ℤ) : Prop where
  wellFormed : task.pcb.WellFormed
  flags : (task.pcb.fileObject fd.val).flags = used
  kind : (task.pcb.fileObject fd.val).kind = some kind
  position : (task.pcb.fileObject fd.val).fpos = position

/-- The task after a read has moved the position. -/
def moved (task : Task) (fd : Fin 8) (position : ℤ) : Task :=
  task.called (task.pcb.setFileObject fd.val
    { task.pcb.fileObject fd.val with fpos := position })

theorem Opened.moved (h : task.Opened fd kind position) (hkind : kind ≠ .terminal) (position' : ℤ) :
    (task.moved fd position').Opened fd kind position' := by
  have hkind' : ({ task.pcb.fileObject fd.val with fpos := position' } : FileObject).kind =
      some kind := h.kind
  refine ⟨h.wellFormed.setFileObject fd (fun hfree ↦ ?_) (fun _ ↦ ⟨kind, hkind'⟩)
    fun hstandard ↦ ?_, ?_, ?_, ?_⟩
  · exact absurd (h.flags.symm.trans hfree) (by decide)
  · have hterminal := (h.wellFormed.standard fd.val hstandard).2
    rw [← fileObject_of_lt _ fd.isLt] at hterminal
    have hkindOf := h.kind
    rw [FileObject.kind, hterminal] at hkindOf
    exact absurd (Option.some.inj hkindOf).symm hkind
  all_goals rw [Task.moved, called, fileObject_setFileObject]
  · exact h.flags
  · exact hkind'

theorem prints_moved (task : Task) (fd : Fin 8) (position' : ℤ) :
    task.Prints [] (task.moved fd position') := by
  refine task.prints_called ?_
  rw [setFileObject_of_lt _ fd.isLt]

theorem Opened.printed (h : task.Opened fd kind position) (bytes : List UInt8) :
    (task.printed bytes).Opened fd kind position := by
  have hpcb := printed_pcb task bytes
  exact ⟨hpcb.symm ▸ h.wellFormed, hpcb.symm ▸ h.flags, hpcb.symm ▸ h.kind, hpcb.symm ▸ h.position⟩

/-- A read leaves the other descriptors alone. -/
theorem fileObject_moved (task : Task) {fd fd' : Fin 8} (hne : fd' ≠ fd) (position' : ℤ) :
    (task.moved fd position').pcb.fileObject fd'.val = task.pcb.fileObject fd'.val := by
  rw [moved, called, setFileObject_of_lt _ fd.isLt, fileObject_of_lt _ fd'.isLt,
    fileObject_of_lt _ fd'.isLt]
  exact Function.update_of_ne (fun heq ↦ hne (Fin.ext heq)) _ _

/-- `do_read` does not refuse the call. -/
theorem Opened.accepted (h : task.Opened fd kind position) {nbytes : ℤ} (hbytes : 0 < nbytes) :
    ¬ ((fd.val : ℤ) < 0 ∨ (fd.val : ℤ) > maxOpenFiles ∨ nbytes = 0 ∨
      (task.pcb.fileObject fd.val).flags = notUsed) := by
  have hlt := fd.isLt
  rintro (hneg | hlarge | hzero | hfree)
  · omega
  · unfold maxOpenFiles at hlarge
    omega
  · omega
  · exact absurd (h.flags.symm.trans hfree) (by decide)

/-- `read` of a file gets the bytes that follow the position. -/
theorem read_text {inode nbytes : ℤ} (hfile : HasFile img inode)
    (h : task.Opened fd (.regular inode) position) (hlow : 0 ≤ position)
    (hhigh : position ≤ (img.inodes (u32 inode).toNat).length.toInt) (hpos : 0 < nbytes)
    (hmax : nbytes ≤ maxFileSize)
    (hreads : ReadsOn img (img.inodes (u32 inode).toNat) position
      (readable (img.inodes (u32 inode).toNat) position nbytes)) (buf : ℤ → UInt8) :
    task.read img fd.val buf nbytes =
      some (readable (img.inodes (u32 inode).toNat) position nbytes,
        storeList buf 0 (((fileText img (img.inodes (u32 inode).toNat)).drop position.toNat).take
          nbytes.toNat),
        task.moved fd (position + readable (img.inodes (u32 inode).toNat) position nbytes)) := by
  have hfops : (task.pcb.fileObject fd.val).fops = .file := fops_of_regular h.kind
  have hread := @fileRead_text img task.pcb fd inode position nbytes hfile
    (inodeNum_of_regular h.kind) h.position hlow hhigh hpos hmax hreads buf
  rw [read, if_neg (by rw [hfops]; decide), doRead, if_neg (h.accepted hpos)]
  dsimp only
  rw [hfops]
  simp only [hread, Option.map_some, Option.getD_some, FileObject.advance, h.position]
  rfl

/-- `read` of the directory gets the name of the entry at the position, as far as there is room for
it. -/
theorem read_name {nbytes : ℤ} (h : task.Opened fd .directory position) (hlow : 0 ≤ position)
    (hentry : position < img.dirCount.toInt) (hpos : 0 < nbytes) (hmax : nbytes < 2 ^ 31)
    (buf : ℤ → UInt8) :
    ∃ value buf', task.read img fd.val buf nbytes =
        some (value, buf', task.moved fd (position + 1)) ∧
      AnswersName (img.dentries position.toNat).name nbytes (value, buf') := by
  have hfops : (task.pcb.fileObject fd.val).fops = .dir := fops_of_directory h.kind
  have hlt := fd.isLt
  have hused : (task.pcb.fileObject fd.val).flags ≠ notUsed := by
    rw [h.flags]
    decide
  have hposition := h.position
  have hcount := img.dirCount.toInt_lt
  obtain ⟨value, buf', hread, hanswer⟩ := @dirRead_lists img fd.val task.pcb
    ⟨nbytes, buf, (task.locals 0).tmp⟩ (by omega) (by omega) hused ⟨hpos, hmax⟩
    (by rw [hposition]; exact hentry)
  rw [hposition, i32_of_range (by omega) (by omega)] at hread
  rw [hposition] at hanswer
  refine ⟨value, buf', ?_, hanswer⟩
  rw [read, if_neg (by rw [hfops]; decide), doRead, if_neg (h.accepted hpos)]
  dsimp only at hread ⊢
  rw [hfops]
  simp only [hread, Option.map_some, Option.getD_some]
  rfl

/-- `read` at the end of the directory. -/
theorem read_ended {nbytes : ℤ} (h : task.Opened fd .directory position)
    (hend : img.dirCount.toInt ≤ position) (hpos : 0 < nbytes) (buf : ℤ → UInt8) :
    task.read img fd.val buf nbytes = some (0, buf, task.called task.pcb) := by
  have hfops : (task.pcb.fileObject fd.val).fops = .dir := fops_of_directory h.kind
  have hlt := fd.isLt
  have hused : (task.pcb.fileObject fd.val).flags ≠ notUsed := by
    rw [h.flags]
    decide
  have hread := @dirRead_ended img fd.val task.pcb ⟨nbytes, buf, (task.locals 0).tmp⟩
    (by omega) (by omega) hused (by rw [h.position]; exact hend)
  rw [read, if_neg (by rw [hfops]; decide), doRead, if_neg (h.accepted hpos)]
  dsimp only at hread ⊢
  rw [hfops]
  simp only [hread, Option.map_some, Option.getD_some]

end Task

/-! ### Opening -/

/-- A program that starts: no file is open, and its arguments are a string. -/
structure Task.Started (task : Task) (text : List UInt8) : Prop where
  wellFormed : task.pcb.WellFormed
  table : task.pcb.table = initialTable
  arguments : HoldsString task.pcb.buffCopyArg text
  length_lt : text.length < 128

section Open

variable {img : Image}

namespace Task

variable {task : Task}

/-- `open` with a free descriptor takes the lowest one. -/
theorem openFile_eq (hwell : task.pcb.WellFormed) (htypes : img.TypesKnown) {filename : ℕ → UInt8}
    {kind : FileKind} (hlookup : img.lookup filename = some kind) {fd : Fin 8} (hlow : 2 ≤ fd.val)
    (hfree : task.pcb.table fd = none)
    (hlowest : ∀ fd' : Fin 8, 2 ≤ fd'.val → fd' < fd → task.pcb.table fd' ≠ none) :
    ∃ task', task.openFile img filename = ((fd.val : ℤ), task') ∧ task'.Opened fd kind 0 ∧
      task.Prints [] task' ∧
      ∀ fd' ≠ fd, task'.pcb.fileObject fd'.val = task.pcb.fileObject fd'.val := by
  have hslot : findSlot task.pcb 2 6 = fd.val := by
    rcases findSlot_table hwell with ⟨-, hfull⟩ | ⟨fd', hfd', hlow', hfree', hlowest'⟩
    · exact absurd hfree (hfull fd hlow)
    · rw [hfd']
      rcases lt_trichotomy fd' fd with hlt | rfl | hgt
      · exact absurd hfree' (hlowest fd' hlow' hlt)
      · rfl
      · exact absurd hfree (hlowest' fd hlow hgt)
  obtain ⟨object, hflags, hkind, hposition, hopen⟩ := doOpen_slot hwell htypes hlookup hlow hslot
    hfree (task.locals 0).openDentry (task.locals 0).openDentry'
  refine ⟨task.called (task.pcb.setFileObject fd.val object), ?_, ⟨?_, ?_, ?_, ?_⟩,
    task.prints_called ?_, fun fd' hne ↦ ?_⟩
  · rw [openFile, hopen]
  · exact hwell.setFileObject fd (fun _ ↦ hposition) (fun _ ↦ ⟨kind, hkind⟩) fun hstandard ↦ by
      omega
  · rw [called, fileObject_setFileObject, hflags]
  · rw [called, fileObject_setFileObject, hkind]
  · rw [called, fileObject_setFileObject, hposition]
  · rw [setFileObject_of_lt _ fd.isLt]
  · rw [called, setFileObject_of_lt _ fd.isLt, fileObject_of_lt _ fd'.isLt,
      fileObject_of_lt _ fd'.isLt]
    exact Function.update_of_ne (fun heq ↦ hne (Fin.ext heq)) _ _

/-- The first file of a program is opened as descriptor 2. -/
theorem Started.openFile_eq {text : List UInt8} (h : task.Started text)
    (htypes : img.TypesKnown) {filename : ℕ → UInt8} {kind : FileKind}
    (hlookup : img.lookup filename = some kind) :
    ∃ task', task.openFile img filename = (2, task') ∧ task'.Opened 2 kind 0 ∧
      task.Prints [] task' ∧
      ∀ fd' : Fin 8, fd' ≠ 2 → task'.pcb.fileObject fd'.val = task.pcb.fileObject fd'.val := by
  refine Task.openFile_eq h.wellFormed htypes hlookup (by decide : 2 ≤ (2 : Fin 8).val) ?_ ?_
  · rw [h.table]
    rfl
  · intro fd' hlow hlt
    exact absurd hlt (not_lt.mpr hlow)

/-- `open` of a name that stands for nothing. -/
theorem openFile_unknown (htypes : img.TypesKnown) {filename : ℕ → UInt8}
    (hlookup : img.lookup filename = none) :
    task.openFile img filename = (-1, task.called task.pcb) := by
  rcases lookup_cases htypes filename with ⟨-, hunknown⟩ | ⟨kind, hkind, -⟩
  · have hfound := hunknown (task.locals 0).openDentry
    rcases hread : readDentryByName img filename (task.locals 0).openDentry with ⟨found, entry⟩
    rw [hread] at hfound
    simp only at hfound
    simp [openFile, doOpen, hread, hfound]
  · rw [hkind] at hlookup
    cases hlookup

/-- `close` makes the descriptor free again. -/
theorem close_eq {fd : Fin 8} {kind : FileKind} {position : ℤ} (h : task.Opened fd kind position)
    (hlow : 2 ≤ fd.val) :
    ∃ task', task.close fd.val = some (0, task') ∧ task'.pcb.WellFormed ∧
      task'.pcb.table fd = none ∧ task.Prints [] task' ∧
      ∀ fd' ≠ fd, task'.pcb.fileObject fd'.val = task.pcb.fileObject fd'.val := by
  have hlt := fd.isLt
  have hopen : ¬ (task.pcb.fileObject fd.val).flags = notUsed := by
    rw [h.flags]
    decide
  have hrange : ¬ ((fd.val : ℤ) < 2 ∨ (fd.val : ℤ) > maxOpenFiles) := by
    unfold maxOpenFiles
    omega
  have hvalue : (task.pcb.fileObject fd.val).fops.close = some 0 := by
    have hkind := h.kind
    unfold FileObject.kind at hkind
    cases hfops : (task.pcb.fileObject fd.val).fops <;> rw [hfops] at hkind <;> first
      | rfl
      | cases hkind
  have hclosed : (task.pcb.setFileObject fd.val { task.pcb.fileObject fd.val with
      flags := notUsed, fpos := 0, inodeNum := 0 }).WellFormed :=
    h.wellFormed.setFileObject fd (fun _ ↦ rfl) (fun hused ↦ absurd rfl hused)
      fun hstandard ↦ by omega
  refine ⟨{ task with pcb := task.pcb.setFileObject fd.val { task.pcb.fileObject fd.val with
    flags := notUsed, fpos := 0, inodeNum := 0 } }, ?_, hclosed, ?_, ⟨rfl, ?_, rfl⟩,
    fun fd' hne ↦ ?_⟩
  · rw [close, doClose, if_neg hrange, if_neg hopen]
    simp only [fileObject_setFileObject, hvalue, Option.map_some]
  · rw [hclosed.table_eq_none_iff, fileObject_setFileObject]
  · rw [setFileObject_of_lt _ fd.isLt]
  · rw [setFileObject_of_lt _ fd.isLt, fileObject_of_lt _ fd'.isLt, fileObject_of_lt _ fd'.isLt]
    exact Function.update_of_ne (fun heq ↦ hne (Fin.ext heq)) _ _

/-- `getargs` of a program with arguments. -/
theorem getargs_eq {text : List UInt8} (h : task.Started text) (hne : text ≠ [])
    (buf : ℤ → UInt8) : task.getargs buf 1024 = (0, storeString buf text) := by
  have hlength := h.length_lt
  rcases doGetargs_cases h.arguments (by omega) 1024 buf with
    ⟨-, -, -, hcall⟩ | ⟨hzero | hnil | hsmall, -⟩
  · rw [getargs, hcall]
    rfl
  · norm_num at hzero
  · exact absurd hnil hne
  · have hroom : u32 1024 = 1024 := rfl
    omega

/-- `getargs` of a program without arguments. -/
theorem getargs_nothing (h : task.Started []) (buf : ℤ → UInt8) :
    task.getargs buf 1024 = (-1, buf) := by
  rcases doGetargs_cases h.arguments (by simp) 1024 buf with ⟨-, hne, -, -⟩ | ⟨-, hcall⟩
  · exact absurd rfl hne
  · rw [getargs, hcall]
    rfl

end Task

end Open

/-- A program that has been started with these arguments. -/
def startedTask (text : List UInt8) : Task where
  self := pcbAddr 3
  pcb := { initPcb 3 usedMemory with buffCopyArg := lineMemory text }
  console := clearedConsole
  locals := fun _ ↦ ⟨fileDentry, fileDentry, fun _ ↦ 0⟩

theorem startedTask_started {text : List UInt8} (h : ∀ c ∈ text, c ≠ 0)
    (hlength : text.length < 128) : (startedTask text).Started text where
  wellFormed :=
    ⟨(wellFormed_initPcb 3 usedMemory).free_position, (wellFormed_initPcb 3 usedMemory).open_kind,
      (wellFormed_initPcb 3 usedMemory).standard⟩
  table := table_initPcb 3 usedMemory
  arguments := lineMemory_holdsString h
  length_lt := hlength

end Sp18.UserPrograms
