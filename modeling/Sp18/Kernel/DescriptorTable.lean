import Sp18.Kernel.FileDescriptors
import Sp18.Foundation.StepSystem
import Mathlib.Data.Fin.Basic

/-!
# The descriptor table

What the eight file descriptors of a process are for, without file objects and flags: a
`DescriptorTable` says which descriptors are open, on what kind of file and at which position.
`TableStep` gives each call its meaning: open takes the lowest free descriptor from 2 on and puts
it at position 0, close frees a descriptor but never 0 and 1, a read moves its own position at
most, and a write moves nothing.

`fd_arr` refines the table (`descriptors_refine`). Only `file_open` sets the position itself; a
directory or RTC file that is opened takes the position that is already in the slot. This is
position 0 because a slot that is not in use always holds it (`Pcb.WellFormed`), which `init_pcb`
establishes and `do_close` restores.
-/

set_option autoImplicit false
set_option relaxedAutoImplicit false

namespace Sp18.Kernel

open Foundation

/-! ### The table and its calls -/

/-- What a descriptor is bound to: the operations of a type of file, and the inode of a regular
file. -/
inductive FileKind where
  | terminal
  | directory
  | regular (inode : ℤ)
  | rtc
  deriving DecidableEq

/-- An open descriptor. -/
structure OpenFile where
  kind : FileKind
  position : ℤ
  deriving DecidableEq

/-- The descriptors of a process. -/
abbrev DescriptorTable := Fin 8 → Option OpenFile

/-- Only the terminal is open, for input on descriptor 0 and for output on descriptor 1. -/
def initialTable : DescriptorTable := fun fd ↦ if fd.val < 2 then some ⟨.terminal, 0⟩ else none

/-- A call as the table sees it. -/
inductive TableCall where
  | open (entry : Option FileKind)
  | close (fd : Fin 8)
  | read (fd : Fin 8)
  | write (fd : Fin 8)

/-- `TableStep table call value table'`: the call may return the value and leave the table
`table'`. The entry of an open call is what its name stands for, if anything. -/
inductive TableStep (table : DescriptorTable) : TableCall → ℤ → DescriptorTable → Prop
  | openUnknown : TableStep table (.open none) (-1) table
  | openFull (kind : FileKind) (hfull : ∀ fd : Fin 8, 2 ≤ fd.val → table fd ≠ none) :
      TableStep table (.open (some kind)) (-1) table
  | opened (kind : FileKind) (fd : Fin 8) (hlow : 2 ≤ fd.val) (hfree : table fd = none)
      (hlowest : ∀ fd' : Fin 8, 2 ≤ fd'.val → fd' < fd → table fd' ≠ none) :
      TableStep table (.open (some kind)) fd.val (Function.update table fd (some ⟨kind, 0⟩))
  | closeFails (fd : Fin 8) (h : fd.val < 2 ∨ table fd = none) :
      TableStep table (.close fd) (-1) table
  | closed (fd : Fin 8) (hlow : 2 ≤ fd.val) (hopen : table fd ≠ none) :
      TableStep table (.close fd) 0 (Function.update table fd none)
  | readClosed (fd : Fin 8) (h : table fd = none) : TableStep table (.read fd) (-1) table
  | read (fd : Fin 8) (file : OpenFile) (hopen : table fd = some file) (value position : ℤ) :
      TableStep table (.read fd) value
        (Function.update table fd (some { file with position := position }))
  | writeClosed (fd : Fin 8) (h : table fd = none) : TableStep table (.write fd) (-1) table
  | write (fd : Fin 8) (file : OpenFile) (hopen : table fd = some file) (value : ℤ) :
      TableStep table (.write fd) value table

/-! ### The calls of a process -/

/-- A system call with its arguments, with the uninitialised memory it works on and with what a
device answers to it. -/
inductive DescriptorCall where
  | open (filename : ℕ → UInt8) (openDentry openDentry' : Dentry)
  | close (fd : Fin 8)
  | read (fd : Fin 8) (buf : Option (ℤ → UInt8)) (nbytes : ℤ) (tmp : ℤ → UInt8)
      (answer : DeviceAnswer)
  | write (fd : Fin 8) (buf : Option (ℤ → UInt8)) (nbytes : ℤ) (answer : DeviceAnswer)

/-- The return value of a call and the PCB after it, if the call returns. -/
def descriptorCall (img : Image) (pcb : Pcb) : DescriptorCall → Option (ℤ × Pcb)
  | .open filename openDentry openDentry' => some (doOpen img filename openDentry openDentry' pcb)
  | .close fd => (doClose fd.val pcb).1.map fun value ↦ (value, (doClose fd.val pcb).2)
  | .read fd buf nbytes tmp answer =>
    (doRead img fd.val buf nbytes tmp answer pcb).map fun (value, _, pcb) ↦ (value, pcb)
  | .write fd buf nbytes answer =>
    (doWrite fd.val buf nbytes answer pcb).map fun value ↦ (value, pcb)

/-- The PCB after a call. -/
def descriptorStep (img : Image) (pcb : Pcb) (call : DescriptorCall) : Pcb :=
  (descriptorCall img pcb call).elim pcb (·.2)

/-- The kind of file that a directory entry stands for. -/
def Dentry.kind (entry : Dentry) : Option FileKind :=
  if entry.filetype.toInt = dirFile then some .directory
  else if entry.filetype.toInt = regFile then some (.regular entry.inodeNum.toInt)
  else if entry.filetype.toInt = rtcFile then some .rtc
  else none

/-- The kind of file that a name stands for, if `read_dentry_by_name` finds it. -/
def Image.lookup (img : Image) (filename : ℕ → UInt8) : Option FileKind :=
  let (found, entry) := readDentryByName img filename ⟨fun _ ↦ 0, 0, 0, fun _ ↦ 0⟩
  if found = -1 then none else entry.kind

/-- A call as the table sees it. -/
def DescriptorCall.abstract (img : Image) : DescriptorCall → TableCall
  | .open filename _ _ => .open (img.lookup filename)
  | .close fd => .close fd
  | .read fd _ _ _ _ => .read fd
  | .write fd _ _ _ => .write fd

/-- The kind of file that a file object is bound to. -/
def FileObject.kind (object : FileObject) : Option FileKind :=
  match object.fops with
  | .terminal => some .terminal
  | .dir => some .directory
  | .file => some (.regular object.inodeNum)
  | .rtc => some .rtc
  | .other _ => none

/-- The table entry that a file object stands for. -/
def FileObject.entry (object : FileObject) : Option OpenFile :=
  if object.flags = notUsed then none else object.kind.map fun kind ↦ ⟨kind, object.fpos⟩

/-- The table that `fd_arr` stands for. -/
def Pcb.table (pcb : Pcb) : DescriptorTable := fun fd ↦ (pcb.fdArr fd.val).entry

/-- What holds of `fd_arr` between two calls: a free slot is at position 0, and a slot in use has
one of the operation tables, which is that of the terminal for slots 0 and 1. -/
structure Pcb.WellFormed (pcb : Pcb) : Prop where
  free_position : ∀ fd < 8, (pcb.fdArr fd).flags = notUsed → (pcb.fdArr fd).fpos = 0
  open_kind : ∀ fd < 8, (pcb.fdArr fd).flags ≠ notUsed → ∃ kind, (pcb.fdArr fd).kind = some kind
  standard : ∀ fd < 2, (pcb.fdArr fd).flags = used ∧ (pcb.fdArr fd).fops = .terminal

/-- Every directory entry has one of the three types. -/
def Image.TypesKnown (img : Image) : Prop :=
  ∀ i : ℕ, (i : ℤ) < u32 img.dirCount.toInt → (img.dentries i).filetype.toInt = rtcFile ∨
    (img.dentries i).filetype.toInt = dirFile ∨ (img.dentries i).filetype.toInt = regFile

/-! ### Looking up a name -/

section Lookup

variable {img : Image} {filename : ℕ → UInt8}

theorem findName_lt {img : Image} {fname : ℕ → UInt8} {idx remaining found : ℕ}
    (h : findName img fname idx remaining = some found) : found < idx + remaining := by
  induction remaining generalizing idx with
  | zero => simp [findName] at h
  | succ remaining ih =>
    rw [findName] at h
    split_ifs at h with hmatch
    · obtain rfl := Option.some.inj h
      omega
    · have hfound := ih h
      omega

/-- `read_dentry_by_name` either fails or copies name, type and inode of one directory entry. -/
theorem readDentryByName_cases (img : Image) (filename : ℕ → UInt8) :
    (∀ dentry, readDentryByName img filename dentry = (-1, dentry)) ∨
      ∃ idx : ℕ, (idx : ℤ) < u32 img.dirCount.toInt ∧ ∀ dentry,
        readDentryByName img filename dentry = (0, { dentry with
          filename := (img.dentries idx).filename
          filetype := (img.dentries idx).filetype
          inodeNum := (img.dentries idx).inodeNum }) := by
  by_cases hlong : strlen filename > filenameLen
  · exact Or.inl fun dentry ↦ by rw [readDentryByName, if_pos hlong]
  · cases hfind : findName img filename 0 (u32 img.dirCount.toInt).toNat with
    | none => exact Or.inl fun dentry ↦ by rw [readDentryByName, if_neg hlong, hfind]
    | some idx =>
      have hlt := findName_lt hfind
      have hcount := u32_lt img.dirCount.toInt
      have hidx : (UInt32.ofNat idx).toNat = idx := by
        rw [UInt32.toNat_ofNat']
        omega
      refine Or.inr ⟨idx, by omega, fun dentry ↦ ?_⟩
      rw [readDentryByName, if_neg hlong, hfind]
      dsimp only
      rw [readDentryByIndex, hidx, if_neg (by omega)]

/-- A lookup fails for every uninitialised entry it is called with, or succeeds for every one with
an entry of the same kind. -/
theorem lookup_cases (htypes : img.TypesKnown) (filename : ℕ → UInt8) :
    (img.lookup filename = none ∧
        ∀ dentry, (readDentryByName img filename dentry).1 = -1) ∨
      ∃ kind, img.lookup filename = some kind ∧
        ∀ dentry, (readDentryByName img filename dentry).1 = 0 ∧
          (readDentryByName img filename dentry).2.kind = some kind := by
  rcases readDentryByName_cases img filename with hnone | ⟨idx, hidx, hfound⟩
  · refine Or.inl ⟨?_, fun dentry ↦ by rw [hnone]⟩
    simp [Image.lookup, hnone]
  · have hkind : ∃ kind, (img.dentries idx).kind = some kind := by
      rcases htypes idx hidx with htype | htype | htype
      · exact ⟨.rtc, by simp [Dentry.kind, htype, rtcFile, dirFile, regFile]⟩
      · exact ⟨.directory, by simp [Dentry.kind, htype]⟩
      · exact ⟨.regular _, by simp [Dentry.kind, htype, dirFile, regFile]; rfl⟩
    obtain ⟨kind, hkind⟩ := hkind
    refine Or.inr ⟨kind, ?_, fun dentry ↦ ⟨by rw [hfound], ?_⟩⟩
    · simp only [Image.lookup, hfound]
      exact hkind
    · rw [hfound]
      exact hkind

end Lookup

theorem inodeNum_of_kind {entry : Dentry} {inode : ℤ}
    (h : entry.kind = some (.regular inode)) : entry.inodeNum.toInt = inode := by
  unfold Dentry.kind at h
  split_ifs at h <;> simp_all

/-! ### File objects and table entries -/

section Slots

variable {pcb : Pcb}

theorem fileObject_of_lt (pcb : Pcb) {fd : ℕ} (hfd : fd < 8) :
    pcb.fileObject fd = pcb.fdArr fd := by
  rw [Pcb.fileObject, if_neg (by omega), Int.toNat_natCast]

theorem setFileObject_of_lt (pcb : Pcb) {fd : ℕ} (hfd : fd < 8) (object : FileObject) :
    pcb.setFileObject fd object = { pcb with fdArr := Function.update pcb.fdArr fd object } := by
  rw [Pcb.setFileObject, if_neg (by omega), Int.toNat_natCast]

@[simp] theorem fileObject_setFileObject (pcb : Pcb) (fd : Fin 8) (object : FileObject) :
    (pcb.setFileObject fd.val object).fileObject fd.val = object := by
  simp [setFileObject_of_lt _ fd.isLt, fileObject_of_lt _ fd.isLt]

@[simp] theorem setFileObject_setFileObject (pcb : Pcb) (fd : Fin 8) (first second : FileObject) :
    (pcb.setFileObject fd.val first).setFileObject fd.val second =
      pcb.setFileObject fd.val second := by
  simp only [setFileObject_of_lt _ fd.isLt, Function.update_idem]

theorem table_setFileObject (pcb : Pcb) (fd : Fin 8) (object : FileObject) :
    (pcb.setFileObject fd.val object).table = Function.update pcb.table fd object.entry := by
  funext fd'
  rw [setFileObject_of_lt _ fd.isLt]
  by_cases hsame : fd' = fd
  · simp [hsame, Pcb.table]
  · have hval : fd'.val ≠ fd.val := fun h ↦ hsame (Fin.ext h)
    simp [hsame, hval, Pcb.table]

/-- A slot of a well-formed PCB is free in the table if it is not in use. -/
theorem Pcb.WellFormed.table_eq_none_iff (h : pcb.WellFormed) (fd : Fin 8) :
    pcb.table fd = none ↔ (pcb.fileObject fd.val).flags = notUsed := by
  rw [fileObject_of_lt _ fd.isLt, Pcb.table, FileObject.entry]
  split_ifs with hflags
  · exact iff_of_true rfl hflags
  · obtain ⟨kind, hkind⟩ := h.open_kind fd.val fd.isLt hflags
    simp [hkind, hflags]

/-- Exchanging one file object keeps the PCB well formed. -/
theorem Pcb.WellFormed.setFileObject (h : pcb.WellFormed) (fd : Fin 8) {object : FileObject}
    (hfree : object.flags = notUsed → object.fpos = 0)
    (hkind : object.flags ≠ notUsed → ∃ kind, object.kind = some kind)
    (hstandard : fd.val < 2 → object.flags = used ∧ object.fops = .terminal) :
    (pcb.setFileObject fd.val object).WellFormed := by
  rw [setFileObject_of_lt _ fd.isLt]
  refine ⟨fun fd' hfd' ↦ ?_, fun fd' hfd' ↦ ?_, fun fd' hfd' ↦ ?_⟩ <;>
    by_cases hsame : fd' = fd.val
  · simpa [hsame] using hfree
  · simpa [hsame] using h.free_position fd' hfd'
  · simpa [hsame] using hkind
  · simpa [hsame] using h.open_kind fd' hfd'
  · subst hsame
    simpa using hstandard hfd'
  · simpa [hsame] using h.standard fd' hfd'

theorem wellFormed_initPcb (pid : ℕ) (pcb : Pcb) : (initPcb pid pcb).WellFormed := by
  refine ⟨fun fd hfd hflags ↦ ?_, fun fd hfd hflags ↦ ?_, fun fd hfd ↦ ?_⟩
  · by_cases hlow : fd < 2
    · rw [initPcb_terminal pid pcb hlow]
    · rw [initPcb_free pid pcb hlow hfd]
  · by_cases hlow : fd < 2
    · refine ⟨.terminal, ?_⟩
      rw [initPcb_terminal pid pcb hlow]
      rfl
    · rw [initPcb_free pid pcb hlow hfd] at hflags
      exact absurd rfl hflags
  · rw [initPcb_terminal pid pcb hfd]
    exact ⟨rfl, rfl⟩

theorem table_initPcb (pid : ℕ) (pcb : Pcb) : (initPcb pid pcb).table = initialTable := by
  funext fd
  simp only [Pcb.table, initialTable]
  by_cases hlow : fd.val < 2
  · rw [initPcb_terminal pid pcb hlow, if_pos hlow]
    rfl
  · rw [initPcb_free pid pcb hlow fd.isLt, if_neg hlow]
    rfl

end Slots

/-! ### The calls refine the table -/

section Refinement

variable {img : Image} {pcb : Pcb}

/-- The search of `do_open` from slot `x` on. -/
theorem findSlot_cases (pcb : Pcb) {x : ℕ} (hx : 0 < x) (remaining : ℕ) :
    (findSlot pcb x remaining = 0 ∧
        ∀ y : ℕ, x ≤ y → y < x + remaining → (pcb.fileObject y).flags ≠ notUsed) ∨
      ∃ fd : ℕ, findSlot pcb x remaining = fd ∧ x ≤ fd ∧ fd < x + remaining ∧
        (pcb.fileObject fd).flags = notUsed ∧
        ∀ y : ℕ, x ≤ y → y < fd → (pcb.fileObject y).flags ≠ notUsed := by
  induction remaining generalizing x with
  | zero => exact Or.inl ⟨rfl, fun y hlow hhigh ↦ by omega⟩
  | succ remaining ih =>
    rw [findSlot]
    split_ifs with hfree
    · exact Or.inr ⟨x, rfl, le_rfl, by omega, hfree, fun y hlow hhigh ↦ by omega⟩
    · have hfrom : ∀ y : ℕ, x ≤ y → y = x ∨ x + 1 ≤ y := fun y hlow ↦ by omega
      rcases ih (by omega : 0 < x + 1) with ⟨hzero, hfull⟩ | ⟨fd, hfd, hlow, hhigh, hslot, hlowest⟩
      · refine Or.inl ⟨hzero, fun y hy hy' ↦ ?_⟩
        rcases hfrom y hy with rfl | hnext
        · exact hfree
        · exact hfull y hnext (by omega)
      · refine Or.inr ⟨fd, hfd, by omega, by omega, hslot, fun y hy hy' ↦ ?_⟩
        rcases hfrom y hy with rfl | hnext
        · exact hfree
        · exact hlowest y hnext hy'

/-- The slot that `do_open` takes: none if the table is full, else the lowest free descriptor. -/
theorem findSlot_table (h : pcb.WellFormed) :
    (findSlot pcb 2 6 = 0 ∧ ∀ fd : Fin 8, 2 ≤ fd.val → pcb.table fd ≠ none) ∨
      ∃ fd : Fin 8, findSlot pcb 2 6 = fd.val ∧ 2 ≤ fd.val ∧ pcb.table fd = none ∧
        ∀ fd' : Fin 8, 2 ≤ fd'.val → fd' < fd → pcb.table fd' ≠ none := by
  rcases findSlot_cases pcb (by norm_num : 0 < 2) 6 with
    ⟨hzero, hfull⟩ | ⟨fd, hfd, hlow, hhigh, hslot, hlowest⟩
  · refine Or.inl ⟨hzero, fun fd hlow ↦ ?_⟩
    rw [ne_eq, h.table_eq_none_iff]
    exact hfull fd.val hlow fd.isLt
  · refine Or.inr ⟨⟨fd, hhigh⟩, hfd, hlow, (h.table_eq_none_iff _).mpr hslot,
      fun fd' hlow' hlt ↦ ?_⟩
    rw [ne_eq, h.table_eq_none_iff]
    exact hlowest fd'.val hlow' hlt

/-- The file object that `do_open` leaves in the slot it has found: bound to the entry's type, at
position 0 since a free slot is there already. -/
theorem doOpen_slot (h : pcb.WellFormed) (htypes : img.TypesKnown) {filename : ℕ → UInt8}
    {kind : FileKind} (hlookup : img.lookup filename = some kind) {fd : Fin 8} (hlow : 2 ≤ fd.val)
    (hslot : findSlot pcb 2 6 = fd.val) (hfree : pcb.table fd = none)
    (openDentry openDentry' : Dentry) :
    ∃ object : FileObject, object.flags = used ∧ object.kind = some kind ∧ object.fpos = 0 ∧
      doOpen img filename openDentry openDentry' pcb =
        ((fd.val : ℤ), pcb.setFileObject fd.val object) := by
  have hposition : (pcb.fileObject fd.val).fpos = 0 := by
    rw [h.table_eq_none_iff, fileObject_of_lt _ fd.isLt] at hfree
    rw [fileObject_of_lt _ fd.isLt]
    exact h.free_position fd.val fd.isLt hfree
  have hreads : ∀ dentry, (readDentryByName img filename dentry).1 = 0 ∧
      (readDentryByName img filename dentry).2.kind = some kind := by
    rcases lookup_cases htypes filename with ⟨hnone, -⟩ | ⟨kind', hkind', hreads⟩
    · rw [hnone] at hlookup
      cases hlookup
    · rw [hkind'] at hlookup
      cases hlookup
      exact hreads
  obtain ⟨hfound, hentry⟩ := hreads openDentry
  obtain ⟨hfound', hentry'⟩ := hreads openDentry'
  rw [doOpen]
  rcases hread : readDentryByName img filename openDentry with ⟨found, entry⟩
  rcases hread' : readDentryByName img filename openDentry' with ⟨found', entry'⟩
  rw [hread] at hfound hentry
  rw [hread'] at hfound' hentry'
  simp only at hfound hentry hfound' hentry'
  subst hfound hfound'
  have hsome : fd.val ≠ 0 := by omega
  have hunfound : ¬ (0 : ℤ) = -1 := by decide
  simp only [hslot, hsome, hunfound, if_false, dirOpen, fileOpen, rtcOpen, hread']
  rw [Dentry.kind] at hentry
  split_ifs at hentry with hdir hreg hrtc <;> cases hentry
  · rw [if_pos hdir]
    exact ⟨{ pcb.fileObject fd.val with fops := .dir, inodeNum := 0, flags := used },
      rfl, rfl, hposition, by simp⟩
  · rw [if_neg hdir, if_pos hreg]
    exact ⟨{ fops := .file, inodeNum := entry'.inodeNum.toInt, fpos := 0, flags := used },
      rfl, by simp [FileObject.kind, inodeNum_of_kind hentry'], rfl, by simp⟩
  · rw [if_neg hdir, if_neg hreg, if_pos hrtc]
    exact ⟨{ pcb.fileObject fd.val with fops := .rtc, inodeNum := 0, flags := used },
      rfl, rfl, hposition, by simp⟩

theorem tableStep_open (h : pcb.WellFormed) (htypes : img.TypesKnown) (filename : ℕ → UInt8)
    (openDentry openDentry' : Dentry) :
    TableStep pcb.table (.open (img.lookup filename))
        (doOpen img filename openDentry openDentry' pcb).1
        (doOpen img filename openDentry openDentry' pcb).2.table ∧
      (doOpen img filename openDentry openDentry' pcb).2.WellFormed := by
  rcases lookup_cases htypes filename with ⟨hnone, hunknown⟩ | ⟨kind, hkind, hreads⟩
  · have hfail : doOpen img filename openDentry openDentry' pcb = (-1, pcb) := by
      have hfound := hunknown openDentry
      rcases hread : readDentryByName img filename openDentry with ⟨found, entry⟩
      rw [hread] at hfound
      simp only at hfound
      simp [doOpen, hread, hfound]
    rw [hfail, hnone]
    exact ⟨.openUnknown, h⟩
  · rw [hkind]
    rcases findSlot_table h with ⟨hzero, hfull⟩ | ⟨fd, hslot, hlow, hfree, hlowest⟩
    · have hfail : doOpen img filename openDentry openDentry' pcb = (-1, pcb) := by
        rw [doOpen]
        simp [hzero]
      rw [hfail]
      exact ⟨.openFull kind hfull, h⟩
    · obtain ⟨object, hflags, hobject, hposition, hopen⟩ :=
        doOpen_slot h htypes hkind hlow hslot hfree openDentry openDentry'
      have hentry : object.entry = some ⟨kind, 0⟩ := by
        simp [FileObject.entry, hflags, hobject, hposition, used, notUsed]
      rw [hopen]
      dsimp only
      rw [table_setFileObject, hentry]
      exact ⟨.opened kind fd hlow hfree hlowest,
        h.setFileObject fd (fun _ ↦ hposition) (fun _ ↦ ⟨kind, hobject⟩) fun hfd ↦ by omega⟩

/-- An open that succeeds leaves a descriptor at position 0. -/
theorem doOpen_fresh (h : pcb.WellFormed) (htypes : img.TypesKnown) {filename : ℕ → UInt8}
    {kind : FileKind} (hlookup : img.lookup filename = some kind) {openDentry openDentry' : Dentry}
    {value : ℤ} {opened : Pcb}
    (hopen : doOpen img filename openDentry openDentry' pcb = (value, opened))
    (hvalue : value ≠ -1) :
    ∃ fd : Fin 8, value = fd.val ∧ (opened.fileObject fd.val).flags = used ∧
      (opened.fileObject fd.val).kind = some kind ∧ (opened.fileObject fd.val).fpos = 0 := by
  rcases findSlot_table h with ⟨hzero, -⟩ | ⟨fd, hslot, hlow, hfree, -⟩
  · rw [doOpen] at hopen
    simp [hzero] at hopen
    exact absurd hopen.1.symm hvalue
  · obtain ⟨object, hflags, hobject, hposition, hopened⟩ :=
      doOpen_slot h htypes hlookup hlow hslot hfree openDentry openDentry'
    obtain ⟨rfl, rfl⟩ := Prod.mk.inj (hopen.symm.trans hopened)
    exact ⟨fd, rfl, by simp [hflags], by simp [hobject], by simp [hposition]⟩

theorem tableStep_close (h : pcb.WellFormed) (fd : Fin 8) :
    ∃ value, (doClose fd.val pcb).1 = some value ∧
      TableStep pcb.table (.close fd) value (doClose fd.val pcb).2.table ∧
      (doClose fd.val pcb).2.WellFormed := by
  have hmax : ¬ (fd.val : ℤ) > maxOpenFiles := by
    have hlt := fd.isLt
    unfold maxOpenFiles
    omega
  rcases lt_or_ge fd.val 2 with hlow | hhigh
  · rw [doClose, if_pos (by omega)]
    exact ⟨-1, rfl, .closeFails fd (Or.inl hlow), h⟩
  · by_cases hflags : (pcb.fileObject fd.val).flags = notUsed
    · rw [doClose, if_neg (by omega), if_pos hflags]
      exact ⟨-1, rfl, .closeFails fd (Or.inr ((h.table_eq_none_iff fd).mpr hflags)), h⟩
    · have hopen : pcb.table fd ≠ none := by
        rwa [ne_eq, h.table_eq_none_iff]
      obtain ⟨kind, hkind⟩ : ∃ kind, (pcb.fileObject fd.val).kind = some kind := by
        rw [fileObject_of_lt _ fd.isLt] at hflags ⊢
        exact h.open_kind fd.val fd.isLt hflags
      have hvalue : (pcb.fileObject fd.val).fops.close = some 0 := by
        unfold FileObject.kind at hkind
        cases hfops : (pcb.fileObject fd.val).fops <;> simp_all [Fops.close]
      rw [doClose, if_neg (by omega), if_neg hflags]
      simp only [fileObject_setFileObject, hvalue, table_setFileObject]
      exact ⟨0, rfl, .closed fd hhigh hopen,
        h.setFileObject fd (fun _ ↦ rfl) (fun hused ↦ absurd rfl hused) fun hfd ↦ by omega⟩

/-- The file that an open slot of a well-formed PCB stands for. -/
theorem Pcb.WellFormed.table_eq_some (h : pcb.WellFormed) (fd : Fin 8)
    (hflags : (pcb.fileObject fd.val).flags ≠ notUsed) :
    ∃ kind, (pcb.fileObject fd.val).kind = some kind ∧
      pcb.table fd = some ⟨kind, (pcb.fileObject fd.val).fpos⟩ := by
  rw [fileObject_of_lt _ fd.isLt] at hflags ⊢
  obtain ⟨kind, hkind⟩ := h.open_kind fd.val fd.isLt hflags
  exact ⟨kind, hkind, by simp [Pcb.table, FileObject.entry, hflags, hkind]⟩

/-- A read of an open descriptor that leaves the PCB alone. -/
theorem tableStep_read_same (h : pcb.WellFormed) (fd : Fin 8)
    (hflags : (pcb.fileObject fd.val).flags ≠ notUsed) (value : ℤ) :
    TableStep pcb.table (.read fd) value pcb.table := by
  obtain ⟨kind, -, htable⟩ := h.table_eq_some fd hflags
  have hstep := TableStep.read fd _ htable value (pcb.fileObject fd.val).fpos
  rwa [← htable, Function.update_eq_self] at hstep

/-- A read of an open descriptor that moves its position. -/
theorem tableStep_read_move (h : pcb.WellFormed) (fd : Fin 8)
    (hflags : (pcb.fileObject fd.val).flags ≠ notUsed) (value position : ℤ) :
    TableStep pcb.table (.read fd) value (pcb.setFileObject fd.val
        { pcb.fileObject fd.val with fpos := position }).table ∧
      (pcb.setFileObject fd.val { pcb.fileObject fd.val with fpos := position }).WellFormed := by
  obtain ⟨kind, hkind, htable⟩ := h.table_eq_some fd hflags
  have hentry : ({ pcb.fileObject fd.val with fpos := position } : FileObject).entry =
      some ⟨kind, position⟩ := by
    have hkind' : ({ pcb.fileObject fd.val with fpos := position } : FileObject).kind =
        some kind := hkind
    simp [FileObject.entry, hflags, hkind']
  refine ⟨?_, h.setFileObject fd (fun hfree ↦ absurd hfree hflags) (fun _ ↦ ⟨kind, hkind⟩) ?_⟩
  · rw [table_setFileObject, hentry]
    exact .read fd _ htable value position
  · rw [fileObject_of_lt _ fd.isLt]
    exact fun hlow ↦ h.standard fd.val hlow

theorem tableStep_fileRead (h : pcb.WellFormed) (fd : Fin 8)
    (hflags : (pcb.fileObject fd.val).flags ≠ notUsed) (buf : ℤ → UInt8) (nbytes : ℤ) :
    TableStep pcb.table (.read fd) (fileRead img fd.val buf nbytes pcb).1
        (fileRead img fd.val buf nbytes pcb).2.2.table ∧
      (fileRead img fd.val buf nbytes pcb).2.2.WellFormed := by
  simp only [fileRead]
  split_ifs
  · exact ⟨tableStep_read_same h fd hflags _, h⟩
  · exact tableStep_read_move h fd hflags _ _
  · exact tableStep_read_move h fd hflags _ _

theorem tableStep_dirRead (h : pcb.WellFormed) (fd : Fin 8)
    (hflags : (pcb.fileObject fd.val).flags ≠ notUsed) (buf : ℤ → UInt8) (nbytes : ℤ)
    (tmp : ℤ → UInt8) :
    TableStep pcb.table (.read fd) (dirRead img fd.val buf nbytes tmp pcb).1
        (dirRead img fd.val buf nbytes tmp pcb).2.2.table ∧
      (dirRead img fd.val buf nbytes tmp pcb).2.2.WellFormed := by
  have hrange : ¬ ((fd.val : ℤ) < 0 ∨ (fd.val : ℤ) ≥ maxOpenFiles) := by
    have hlt := fd.isLt
    unfold maxOpenFiles
    omega
  rw [dirRead, if_neg hrange]
  simp only [if_neg hflags]
  split_ifs
  · exact ⟨tableStep_read_same h fd hflags _, h⟩
  · exact tableStep_read_move h fd hflags _ _

theorem tableStep_read (img : Image) (h : pcb.WellFormed) (fd : Fin 8)
    (buf : Option (ℤ → UInt8)) (nbytes : ℤ) (tmp : ℤ → UInt8) (answer : DeviceAnswer) :
    ∃ value buf' pcb', doRead img fd.val buf nbytes tmp answer pcb = some (value, buf', pcb') ∧
      TableStep pcb.table (.read fd) value pcb'.table ∧ pcb'.WellFormed := by
  have hrange : ¬ ((fd.val : ℤ) < 0) ∧ ¬ ((fd.val : ℤ) > maxOpenFiles) := by
    have hlt := fd.isLt
    unfold maxOpenFiles
    omega
  by_cases hflags : (pcb.fileObject fd.val).flags = notUsed
  · unfold doRead
    rw [if_pos (Or.inr (Or.inr (Or.inr hflags)))]
    exact ⟨-1, buf, pcb, rfl, .readClosed fd ((h.table_eq_none_iff fd).mpr hflags), h⟩
  by_cases hzero : nbytes = 0
  · unfold doRead
    rw [if_pos (Or.inr (Or.inr (Or.inl hzero)))]
    exact ⟨-1, buf, pcb, rfl, tableStep_read_same h fd hflags _, h⟩
  have hpass : ¬ ((fd.val : ℤ) < 0 ∨ (fd.val : ℤ) > maxOpenFiles ∨ nbytes = 0 ∨
      (pcb.fileObject fd.val).flags = notUsed) := by
    tauto
  unfold doRead
  rw [if_neg hpass]
  cases buf with
  | none => exact ⟨-1, none, pcb, rfl, tableStep_read_same h fd hflags _, h⟩
  | some buf =>
    obtain ⟨kind, hkind, -⟩ := h.table_eq_some fd hflags
    cases hfops : (pcb.fileObject fd.val).fops with
    | terminal => exact ⟨_, _, _, rfl, tableStep_read_same h fd hflags _, h⟩
    | rtc => exact ⟨_, _, _, rfl, tableStep_read_same h fd hflags _, h⟩
    | dir => exact ⟨_, _, _, rfl, tableStep_dirRead h fd hflags buf nbytes tmp⟩
    | file => exact ⟨_, _, _, rfl, tableStep_fileRead h fd hflags buf nbytes⟩
    | other address =>
      rw [FileObject.kind, hfops] at hkind
      cases hkind

theorem tableStep_write (h : pcb.WellFormed) (fd : Fin 8) (buf : Option (ℤ → UInt8)) (nbytes : ℤ)
    (answer : DeviceAnswer) :
    ∃ value, doWrite fd.val buf nbytes answer pcb = some value ∧
      TableStep pcb.table (.write fd) value pcb.table := by
  by_cases hflags : (pcb.fileObject fd.val).flags = notUsed
  · rw [doWrite, if_pos (by tauto)]
    exact ⟨-1, rfl, .writeClosed fd ((h.table_eq_none_iff fd).mpr hflags)⟩
  · obtain ⟨kind, hkind, htable⟩ := h.table_eq_some fd hflags
    have hvalue : ∃ value, doWrite fd.val buf nbytes answer pcb = some value := by
      rw [doWrite]
      split_ifs
      · exact ⟨_, rfl⟩
      · cases hfops : (pcb.fileObject fd.val).fops with
        | other address =>
          rw [FileObject.kind, hfops] at hkind
          cases hkind
        | _ => exact ⟨_, rfl⟩
    obtain ⟨value, hvalue⟩ := hvalue
    exact ⟨value, hvalue, .write fd _ htable value⟩

/-- Every call on a well-formed PCB returns, does what the table prescribes, and leaves a
well-formed PCB. -/
theorem tableStep_descriptorCall (htypes : img.TypesKnown) (h : pcb.WellFormed)
    (call : DescriptorCall) :
    ∃ value, descriptorCall img pcb call = some (value, descriptorStep img pcb call) ∧
      TableStep pcb.table (call.abstract img) value (descriptorStep img pcb call).table ∧
      (descriptorStep img pcb call).WellFormed := by
  cases call with
  | «open» filename openDentry openDentry' =>
    exact ⟨_, rfl, tableStep_open h htypes filename openDentry openDentry'⟩
  | close fd =>
    obtain ⟨value, hvalue, hstep⟩ := tableStep_close h fd
    have hcall : descriptorCall img pcb (.close fd) = some (value, (doClose fd.val pcb).2) := by
      simp [descriptorCall, hvalue]
    rw [descriptorStep, hcall]
    exact ⟨value, rfl, hstep⟩
  | read fd buf nbytes tmp answer =>
    obtain ⟨value, buf', pcb', hread, hstep⟩ := tableStep_read img h fd buf nbytes tmp answer
    have hcall : descriptorCall img pcb (.read fd buf nbytes tmp answer) = some (value, pcb') := by
      simp [descriptorCall, hread]
    rw [descriptorStep, hcall]
    exact ⟨value, rfl, hstep⟩
  | write fd buf nbytes answer =>
    obtain ⟨value, hvalue, hstep⟩ := tableStep_write h fd buf nbytes answer
    have hcall : descriptorCall img pcb (.write fd buf nbytes answer) = some (value, pcb) := by
      simp [descriptorCall, hvalue]
    rw [descriptorStep, hcall]
    exact ⟨value, rfl, hstep, h⟩

/-- The PCB stays well formed over any calls. -/
theorem wellFormed_run (htypes : img.TypesKnown) (pid : ℕ) (memory : Pcb)
    (calls : List DescriptorCall) :
    (run (descriptorStep img) (initPcb pid memory) calls).WellFormed := by
  refine (everyState_of_invariant (fun pcb call h ↦ ?_) (wellFormed_initPcb pid memory) calls).last
  obtain ⟨value, -, -, hafter⟩ := tableStep_descriptorCall htypes h call
  exact hafter

/-- Descriptors 0 and 1 are open on the terminal. -/
def StandardOpen (table : DescriptorTable) : Prop :=
  ∀ fd : Fin 8, fd.val < 2 → ∃ position, table fd = some ⟨.terminal, position⟩

theorem Pcb.WellFormed.standardOpen (h : pcb.WellFormed) : StandardOpen pcb.table := by
  intro fd hlow
  obtain ⟨hflags, hfops⟩ := h.standard fd.val hlow
  refine ⟨(pcb.fdArr fd.val).fpos, ?_⟩
  simp [Pcb.table, FileObject.entry, FileObject.kind, hflags, hfops, used, notUsed]

/-- From the PCB that `init_pcb` builds in any memory, every sequence of calls simulates the
table: it starts as `initialTable`, each call returns and is a step of the table, and the terminal
stays open on descriptors 0 and 1. -/
theorem descriptors_refine (htypes : img.TypesKnown) (pid : ℕ) (memory : Pcb)
    (calls : List DescriptorCall) :
    (initPcb pid memory).table = initialTable ∧
      EveryStep (descriptorStep img) (fun pcb call ↦
          ∃ value, descriptorCall img pcb call = some (value, descriptorStep img pcb call) ∧
            TableStep pcb.table (call.abstract img) value (descriptorStep img pcb call).table)
        (initPcb pid memory) calls ∧
      EveryState (descriptorStep img) (fun pcb ↦ StandardOpen pcb.table)
        (initPcb pid memory) calls := by
  have hkeep : ∀ (pcb : Pcb) (call : DescriptorCall), pcb.WellFormed →
      (descriptorStep img pcb call).WellFormed := by
    intro pcb call h
    obtain ⟨value, -, -, hafter⟩ := tableStep_descriptorCall htypes h call
    exact hafter
  refine ⟨table_initPcb pid memory, ?_, ?_⟩
  · refine everyStep_of_invariant hkeep (fun pcb call h ↦ ?_) (wellFormed_initPcb pid memory) calls
    obtain ⟨value, hcall, hstep, -⟩ := tableStep_descriptorCall htypes h call
    exact ⟨value, hcall, hstep⟩
  · exact (everyState_of_invariant hkeep (wellFormed_initPcb pid memory) calls).mono
      fun pcb h ↦ h.standardOpen

end Refinement

/-- The entry of the directory itself, which is called `.`. -/
def dotDentry : Dentry := ⟨fun i ↦ if i = 0 then 46 else 0, 1, 0, fun _ ↦ 0⟩

/-- A disk with no file but the directory. -/
def dotImage : Image where
  dirCount := 1
  inodeCount := 0
  dataCount := 0
  dentries := fun _ ↦ dotDentry
  inodes := fun _ ↦ ⟨0, fun _ ↦ 0⟩
  dataBlocks := fun _ ↦ 0

theorem dotImage_typesKnown : dotImage.TypesKnown :=
  fun _ _ ↦ Or.inr (Or.inl (by change dotDentry.filetype.toInt = dirFile; decide))

/-- A PCB in memory that has been used before. -/
def usedMemory : Pcb where
  pid := 5
  onTerm := 1
  fdArr := fun fd ↦ ⟨.other fd, fd, 17, used⟩
  kernelStack := 0
  kernelBase := 0
  parent := 0
  buffCopyArg := fun _ ↦ 65

/-- The simulation, for a process that opens the directory, closes it twice and tries to close its
standard input. -/
theorem descriptors_refine_dot :
    (initPcb 3 usedMemory).table = initialTable ∧
      EveryStep (descriptorStep dotImage) (fun pcb call ↦
          ∃ value, descriptorCall dotImage pcb call =
              some (value, descriptorStep dotImage pcb call) ∧
            TableStep pcb.table (call.abstract dotImage) value
              (descriptorStep dotImage pcb call).table)
        (initPcb 3 usedMemory)
        [.open dotDentry.filename dotDentry dotDentry, .close 2, .close 2, .close 0] ∧
      EveryState (descriptorStep dotImage) (fun pcb ↦ StandardOpen pcb.table)
        (initPcb 3 usedMemory)
        [.open dotDentry.filename dotDentry dotDentry, .close 2, .close 2, .close 0] :=
  descriptors_refine dotImage_typesKnown 3 usedMemory _

end Sp18.Kernel
