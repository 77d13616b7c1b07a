import Sp18.UserPrograms.GrepFile

/-!
# `grep` on the directory

`main` of `ece391grep.c` reads the directory entry by entry and calls `do_one_file` for each name
that does not start with a dot. The directory stays open as descriptor 2, and each file is opened as
descriptor 3 and closed again. What `grep` prints is what it prints for each entry, in the order of
the directory (`grep_searches`).
-/

set_option autoImplicit false
set_option relaxedAutoImplicit false

namespace Sp18.UserPrograms

open Foundation Kernel

/-- The loop of `grep`. The array `data` of `do_one_file` is not initialised, and `stack` says what
it holds at each entry. -/
def grepLoop (img : Image) (search : ℕ → UInt8) (fd : ℤ) (fileFuel : ℕ) :
    ℕ → Task → (ℤ → UInt8) → (ℕ → ℤ → UInt8) → Option (ℤ × Task)
  | 0, _, _, _ => none
  | fuel + 1, task, buf, stack =>
    match task.read img fd buf 32 with
    | none => none
    | some (cnt, buf, task) =>
      if 0 = cnt then some (0, task)
      else if -1 = cnt then
        (ece391Fdputs task 1 (literal "directory entry read failed\n")).map fun task ↦ (3, task)
      else if '.'.toUInt8 = buf 0 then
        grepLoop img search fd fileFuel fuel task buf fun i ↦ stack (i + 1)
      else
        let buf := Function.update buf cnt 0
        match doOneFile img search (fun i ↦ buf i) fileFuel task (stack 0) with
        | none => none
        | some (value, task) =>
          if 0 ≠ value then some (3, task)
          else grepLoop img search fd fileFuel fuel task buf fun i ↦ stack (i + 1)

/-- `main` of `ece391grep.c`. The arrays `search` and `buf` are not initialised. -/
def grep (img : Image) (fuel : ℕ) (task : Task) (search buf : ℤ → UInt8)
    (stack : ℕ → ℤ → UInt8) : Option (ℤ × Task) :=
  let (value, search) := task.getargs search 1024
  if 0 ≠ value then
    (ece391Fdputs task 1 (literal "could not read argument\n")).map fun task ↦ (3, task)
  else
    let (fd, task) := task.openFile img (literal ".")
    if -1 = fd then
      (ece391Fdputs task 1 (literal "directory open failed\n")).map fun task ↦ (2, task)
    else grepLoop img (fun i ↦ search i) fd fuel fuel task buf stack

/-- A name stands for the RTC, or for a file whose blocks from the second one on follow each other.
-/
def Searchable (img : Image) (name : List UInt8) : Prop :=
  ∃ idx, img.FirstNamed name idx ∧ ((img.dentries idx).kind = some .rtc ∨
    ∃ inode, (img.dentries idx).kind = some (.regular inode) ∧ HasFile img inode ∧
      Consecutive (img.inodes (u32 inode).toNat))

/-- What is printed for an entry of the directory: nothing if its name starts with a dot or stands
for the RTC. If it stands for a file without a zero, the lines in which the string occurs, where one
that does not fit into the buffer is taken for several. -/
structure EntryOutput (img : Image) (word : List UInt8) (k : ℕ) (out : List UInt8) : Prop where
  hidden : (img.dentries k).name.head? = some '.'.toUInt8 → out = []
  rtc : ∀ idx, img.FirstNamed (img.dentries k).name idx → (img.dentries idx).kind = some .rtc →
    out = []
  regular : ∀ idx inode, (img.dentries k).name.head? ≠ some '.'.toUInt8 →
    img.FirstNamed (img.dentries k).name idx → (img.dentries idx).kind = some (.regular inode) →
    (∀ c ∈ fileText img (img.inodes (u32 inode).toNat), c ≠ 0) →
    out = grepped (img.dentries k).name word (fileText img (img.inodes (u32 inode).toNat)) ∧
      ((∀ line ∈ (fileText img (img.inodes (u32 inode).toNat)).splitOn newlineChar,
          line.length ≤ 1024) →
        out = matchingLines word (shownLine (img.dentries k).name word)
          ((fileText img (img.inodes (u32 inode).toNat)).splitOn newlineChar))

section Entry

variable {img : Image} {s : ℕ → UInt8} {word : List UInt8} {task : Task}

/-- The name that has been read, with the zero behind it. -/
theorem holdsString_of_answersName {k : ℕ} {cnt : ℤ} {buf : ℤ → UInt8}
    (h : AnswersName (img.dentries k).name 32 (cnt, buf)) :
    cnt = (img.dentries k).name.length ∧
      HoldsString (fun i : ℕ ↦ Function.update buf cnt 0 i) (img.dentries k).name := by
  have hle := length_name_le (img.dentries k)
  have hvalue : cnt = (img.dentries k).name.length := by
    have hmin := h.value
    dsimp only at hmin
    omega
  refine ⟨hvalue, ⟨fun i hi ↦ ?_, fun c hc ↦ ne_zero_of_mem_stringAt hc, ?_⟩⟩
  · rw [Function.update_of_ne (by omega)]
    exact h.bytes i hi (by omega)
  · rw [hvalue, Function.update_self]

/-- While the directory is open as descriptor 2 and descriptor 3 is free, a file is opened as 3. -/
theorem takesNext_three {k : ℤ} (h : task.Opened 2 .directory k) (hfree : task.pcb.table 3 = none) :
    TakesNext task 3 where
  wellFormed := h.wellFormed
  low := by decide
  free := hfree
  lowest fd' hlow hlt := by
    obtain rfl : fd' = 2 := by
      have hval := Fin.lt_def.mp hlt
      exact Fin.ext (by change fd'.val < 3 at hval; change fd'.val = 2; omega)
    rw [ne_eq, h.wellFormed.table_eq_none_iff, h.flags]
    decide

/-- The descriptor of the directory, after a file has been searched. -/
theorem DoneWith.opened {task' : Task} {out : List UInt8} {k : ℤ}
    (hdone : DoneWith task 3 out task') (h : task.Opened 2 .directory k) :
    task'.Opened 2 .directory k := by
  have hsame := hdone.other 2 (by decide)
  exact ⟨hdone.wellFormed, hsame ▸ h.flags, hsame ▸ h.kind, hsame ▸ h.position⟩

/-- `do_one_file` for an entry whose name does not start with a dot. -/
theorem doOneFile_entry (htypes : img.TypesKnown) (hword : HoldsString s word) (hne : word ≠ [])
    (hlength : word.length < 2 ^ 31) {k : ℕ} (hsearchable : Searchable img (img.dentries k).name)
    (hvisible : (img.dentries k).name.head? ≠ some '.'.toUInt8) {fname : ℕ → UInt8}
    (hname : HoldsString fname (img.dentries k).name) (hnext : TakesNext task 3) {fuel : ℕ}
    (hfuel : 2 ^ 31 ≤ fuel) {data : ℤ → UInt8} (hbehind : newlineChar ≠ data 1024) :
    ∃ out task', doOneFile img s fname fuel task data = some (0, task') ∧
      DoneWith task 3 out task' ∧ EntryOutput img word k out := by
  have hshort := length_name_le (img.dentries k)
  have hg : Greps s fname word (img.dentries k).name :=
    ⟨hword, hname, hne, hlength, by omega⟩
  obtain ⟨idx, hfirst, hkind⟩ := hsearchable
  have hlookup := lookup_of_firstNamed htypes hname hfirst
  rcases hkind with hkind | ⟨inode, hkind, hfile, hconsecutive⟩
  · rw [hkind] at hlookup
    obtain ⟨out, task', hdone, hleft, rfl⟩ := doOneFile_rtc hg hnext htypes hlookup
      (by omega : 0 < fuel) data
    refine ⟨[], task', hdone, hleft, fun _ ↦ rfl, fun _ _ _ ↦ rfl,
      fun idx' inode' _ hfirst' hkind' ↦ ?_⟩
    rw [hfirst'.unique hfirst, hkind] at hkind'
    cases hkind'
  · rw [hkind] at hlookup
    have hless := (img.inodes (u32 inode).toNat).length.toInt_lt
    obtain ⟨out, task', hdone, hleft, hout⟩ := doOneFile_prints hg hnext htypes hlookup hfile rfl
      hconsecutive (by omega : _ < (fuel : ℤ)) data
    refine ⟨out, task', hdone, hleft, fun hhidden ↦ absurd hhidden hvisible,
      fun idx' hfirst' hkind' ↦ ?_, fun idx' inode' _ hfirst' hkind' htext ↦ ?_⟩
    · rw [hfirst'.unique hfirst, hkind] at hkind'
      cases hkind'
    · rw [hfirst'.unique hfirst, hkind] at hkind'
      obtain rfl : inode = inode' := FileKind.regular.inj (Option.some.inj hkind')
      have hprinted := hout htext hbehind
      exact ⟨hprinted, fun hfits ↦ hprinted.trans (grepped_eq_lines hne hfits)⟩

end Entry

section Loop

variable {img : Image} {s : ℕ → UInt8} {word : List UInt8}

/-- From entry `k` on, the loop prints what is to be printed for one entry after the other. -/
theorem grepLoop_prints (htypes : img.TypesKnown) (hword : HoldsString s word) (hne : word ≠ [])
    (hlength : word.length < 2 ^ 31)
    (hnames : ∀ k : ℕ, (k : ℤ) < img.dirCount.toInt → (img.dentries k).name ≠ [])
    (hsearchable : ∀ k : ℕ, (k : ℤ) < img.dirCount.toInt →
      (img.dentries k).name.head? ≠ some '.'.toUInt8 → Searchable img (img.dentries k).name)
    {fileFuel : ℕ} (hfileFuel : 2 ^ 31 ≤ fileFuel) {count fuel : ℕ} (hfuel : count < fuel) {k : ℕ}
    (hcount : (k : ℤ) + count = img.dirCount.toInt) {task : Task}
    (h : task.Opened 2 .directory k) (hfree : task.pcb.table 3 = none) (buf : ℤ → UInt8)
    {stack : ℕ → ℤ → UInt8} (hstack : ∀ i, newlineChar ≠ stack i 1024) :
    ∃ outs task', List.Forall₂ (EntryOutput img word) (List.range' k count) outs ∧
      grepLoop img s 2 fileFuel fuel task buf stack = some (0, task') ∧
      task.Prints outs.flatten task' := by
  induction fuel generalizing k count task buf stack with
  | zero => omega
  | succ fuel ih =>
    rw [grepLoop]
    cases count with
    | zero =>
      have hend : img.dirCount.toInt ≤ (k : ℤ) := by omega
      have hread := Task.read_ended h hend (by norm_num : (0 : ℤ) < 32) buf
      change task.read img 2 buf 32 = _ at hread
      rw [hread]
      exact ⟨[], _, List.Forall₂.nil, rfl, task.prints_called rfl⟩
    | succ count =>
      have hentry : (k : ℤ) < img.dirCount.toInt := by omega
      obtain ⟨cnt, buf', hread, hanswer⟩ := Task.read_name h (Int.natCast_nonneg k) hentry
        (by norm_num : (0 : ℤ) < 32) (by norm_num) buf
      change task.read img 2 buf 32 = _ at hread
      rw [Int.toNat_natCast] at hanswer
      obtain ⟨hcnt, hname⟩ := holdsString_of_answersName hanswer
      have hpos := List.length_pos_iff.mpr (hnames k hentry)
      have hfirst : (img.dentries k).name.head? = some (buf' 0) := by
        have hbyte := hanswer.bytes 0 hpos (by norm_num)
        rw [List.head?_eq_getElem?, List.getElem?_eq_getElem hpos, ← hbyte]
        rfl
      have hmoved := Task.prints_moved task 2 ((k : ℤ) + 1)
      have hopened := h.moved (by simp) ((k : ℤ) + 1)
      have hfree' : (task.moved 2 ((k : ℤ) + 1)).pcb.table 3 = none := by
        rw [hopened.wellFormed.table_eq_none_iff, Task.fileObject_moved task (by decide),
          ← h.wellFormed.table_eq_none_iff]
        exact hfree
      have hrest : ((k + 1 : ℕ) : ℤ) + count = img.dirCount.toInt := by
        push_cast
        omega
      rw [hread, List.range'_succ]
      dsimp only
      rw [if_neg (by omega), if_neg (by omega)]
      by_cases hhidden : '.'.toUInt8 = buf' 0
      · obtain ⟨outs, task', houts, hloop, hprints⟩ := ih (by omega) hrest hopened hfree' buf'
          fun i ↦ hstack (i + 1)
        rw [if_pos hhidden]
        refine ⟨[] :: outs, task', List.Forall₂.cons ⟨fun _ ↦ rfl, fun _ _ _ ↦ rfl,
          fun _ _ hvisible ↦ ?_⟩ houts, hloop, hmoved.after hprints⟩
        exact absurd (hfirst.trans (congrArg some hhidden.symm)) hvisible
      · have hvisible : (img.dentries k).name.head? ≠ some '.'.toUInt8 := by
          rw [hfirst]
          exact fun hdot ↦ hhidden (Option.some.inj hdot).symm
        obtain ⟨out, next, hdone, hleft, hout⟩ := doOneFile_entry htypes hword hne hlength
          (hsearchable k hentry hvisible) hvisible hname (takesNext_three hopened hfree') hfileFuel
          (hstack 0)
        obtain ⟨outs, task', houts, hloop, hprints⟩ := ih (by omega) hrest
          (hleft.opened hopened) hleft.free (Function.update buf' cnt 0) fun i ↦ hstack (i + 1)
        rw [if_neg hhidden, hdone]
        exact ⟨out :: outs, task', List.Forall₂.cons hout houts, hloop,
          hmoved.after (hleft.prints.trans hprints)⟩

end Loop

section Grep

variable {img : Image} {task : Task} {word : List UInt8}

/-- `grep` returns 0 and prints, for one entry of the directory after the other, the lines in which
the string occurs. -/
theorem grep_searches (htypes : img.TypesKnown) (h : task.Started word) (hne : word ≠ [])
    (hcount : 0 ≤ img.dirCount.toInt) {idx : ℕ} (hfirst : img.FirstNamed (bytesOf ".") idx)
    (hdot : (img.dentries idx).kind = some .directory)
    (hnames : ∀ k : ℕ, (k : ℤ) < img.dirCount.toInt → (img.dentries k).name ≠ [])
    (hsearchable : ∀ k : ℕ, (k : ℤ) < img.dirCount.toInt →
      (img.dentries k).name.head? ≠ some '.'.toUInt8 → Searchable img (img.dentries k).name)
    {fuel : ℕ} (hfuel : 2 ^ 31 ≤ fuel) (search buf : ℤ → UInt8) {stack : ℕ → ℤ → UInt8}
    (hstack : ∀ i, newlineChar ≠ stack i 1024) :
    ∃ outs task', List.Forall₂ (EntryOutput img word) (List.range img.dirCount.toInt.toNat) outs ∧
      grep img fuel task search buf stack = some (0, task') ∧ task.Prints outs.flatten task' := by
  have hlength := h.length_lt
  have hmax := img.dirCount.toInt_lt
  have hstring : HoldsString (literal ".") (bytesOf ".") :=
    literal_holdsString (by decide +kernel)
  have hword : HoldsString (fun i : ℕ ↦ storeString search word i) word :=
    storeString_holdsString search h.arguments.nonzero
  have hlookup := (lookup_of_firstNamed htypes hstring hfirst).trans hdot
  obtain ⟨opened, hopen, hopened, hprints, hother⟩ := h.openFile_eq htypes hlookup
  have hfree : opened.pcb.table 3 = none := by
    have hnone : task.pcb.table 3 = none := by
      rw [h.table]
      rfl
    rw [hopened.wellFormed.table_eq_none_iff, hother 3 (by decide),
      ← h.wellFormed.table_eq_none_iff]
    exact hnone
  have hall : ((0 : ℕ) : ℤ) + img.dirCount.toInt.toNat = img.dirCount.toInt := by omega
  obtain ⟨outs, task', houts, hloop, hprints'⟩ := grepLoop_prints htypes hword hne (by omega) hnames
    hsearchable hfuel (by omega : img.dirCount.toInt.toNat < fuel) hall hopened hfree buf hstack
  refine ⟨outs, task', ?_, ?_, hprints.after hprints'⟩
  · rw [List.range_eq_range']
    exact houts
  · rw [grep, Task.getargs_eq h hne]
    simp only [ne_eq, not_true, if_false, hopen]
    exact hloop

end Grep

/-- A disk with the directory and a file of two blocks, which consists of lines of 49 characters. -/
def linesDisk : Image :=
  { fileImage twoBlocks 2 fun k ↦ if k % 50 = 49 then newlineChar else 98 with
    dirCount := 2
    dentries := fun idx ↦ if idx = 0 then dotDentry else fileDentry }

theorem linesDisk_entry {k : ℕ} (h : (k : ℤ) < linesDisk.dirCount.toInt) : k = 0 ∨ k = 1 := by
  have hcount : linesDisk.dirCount.toInt = 2 := by decide
  omega

theorem linesDisk_searchable : Searchable linesDisk (linesDisk.dentries 1).name := by
  refine ⟨1, ⟨by decide, rfl, fun i hi ↦ ?_⟩, Or.inr ⟨0, by decide +kernel,
    ⟨by decide, ⟨twoBlocks_valid.length_le, twoBlocks_valid.block⟩, by decide⟩,
    fun block hblock hlength ↦ ?_⟩⟩
  · obtain rfl : i = 0 := by omega
    decide +kernel
  · have hsize : (linesDisk.inodes (u32 0).toNat).length.toInt = 5000 := by decide
    rw [hsize] at hlength
    unfold blockSize at hlength
    omega

/-- `grep b` on this disk. -/
theorem grep_searches_lines :
    ∃ outs task', List.Forall₂ (EntryOutput linesDisk [98]) (List.range 2) outs ∧
      grep linesDisk (2 ^ 31) (startedTask [98]) (fun _ ↦ 0) (fun _ ↦ 0) (fun _ _ ↦ 0) =
        some (0, task') ∧ (startedTask [98]).Prints outs.flatten task' := by
  have htypes : linesDisk.TypesKnown := by
    intro idx hidx
    rcases linesDisk_entry hidx with rfl | rfl <;> decide +kernel
  have hfirst : linesDisk.FirstNamed (bytesOf ".") 0 :=
    ⟨by decide, by decide +kernel, fun i hi ↦ absurd hi (Nat.not_lt_zero i)⟩
  have hdot : (linesDisk.dentries 0).kind = some .directory := by decide +kernel
  refine grep_searches htypes (startedTask_started (by simp) (by decide)) (by simp) (by decide)
    hfirst hdot (fun k hk ↦ ?_) (fun k hk hvisible ↦ ?_) le_rfl _ _ fun _ ↦ by decide
  · rcases linesDisk_entry hk with rfl | rfl <;> decide +kernel
  · rcases linesDisk_entry hk with rfl | rfl
    · exact absurd (by decide +kernel) hvisible
    · exact linesDisk_searchable

end Sp18.UserPrograms
