import Sp18.UserPrograms.Reading

/-!
# `cat`

`ece391cat.c` reads the file that its argument names and writes what it has read. It reads 1024
bytes at a time, so that no request crosses the end of a block: `cat` prints every valid file in
full, whatever blocks it stands in, also files that `read_data` reads wrongly in larger requests
(`cat_prints`).
-/

set_option autoImplicit false
set_option relaxedAutoImplicit false

namespace Sp18.UserPrograms

open Foundation Kernel

/-- The loop of `cat`: the return value of the program, if the loop ends. -/
def catLoop (img : Image) (fd : ℤ) : ℕ → Task → (ℤ → UInt8) → Option (ℤ × Task)
  | 0, _, _ => none
  | fuel + 1, task, buf =>
    match task.read img fd buf 1024 with
    | none => none
    | some (cnt, buf, task) =>
      if cnt = 0 then some (0, task)
      else if cnt = -1 then
        (ece391Fdputs task 1 (literal "file read failed\n")).map fun task ↦ (3, task)
      else
        match task.write 1 buf cnt with
        | none => none
        | some (written, task) =>
          if written = -1 then some (3, task) else catLoop img fd fuel task buf

/-- `main` of `ece391cat.c`. The array `buf` is not initialised. -/
def cat (img : Image) (fuel : ℕ) (task : Task) (buf : ℤ → UInt8) : Option (ℤ × Task) :=
  let (value, buf) := task.getargs buf 1024
  if 0 ≠ value then
    (ece391Fdputs task 1 (literal "could not read arguments\n")).map fun task ↦ (3, task)
  else
    let (fd, task) := task.openFile img fun i ↦ buf i
    if -1 = fd then
      (ece391Fdputs task 1 (literal "file not found\n")).map fun task ↦ (2, task)
    else catLoop img fd fuel task buf

section Loop

variable {img : Image} {inode : ℤ} {fd : Fin 8}

/-- From a position on a boundary of 1024 bytes, or at the end, the loop prints the rest of the
file. -/
theorem catLoop_prints (hfile : HasFile img inode) {position : ℤ} (hlow : 0 ≤ position)
    (hhigh : position ≤ (img.inodes (u32 inode).toNat).length.toInt)
    (haligned : position % 1024 = 0 ∨ position = (img.inodes (u32 inode).toNat).length.toInt)
    {fuel : ℕ} (hfuel : (img.inodes (u32 inode).toNat).length.toInt - position < fuel) {task : Task}
    (h : task.Opened fd (.regular inode) position) (buf : ℤ → UInt8) :
    ∃ task', catLoop img fd.val fuel task buf = some (0, task') ∧
      task.Prints ((fileText img (img.inodes (u32 inode).toNat)).drop position.toNat) task' := by
  generalize hnode : img.inodes (u32 inode).toNat = node at *
  induction fuel generalizing position task buf with
  | zero => omega
  | succ fuel ih =>
    have hlength := length_fileText img node
    have hread := Task.read_text hfile h hlow (hnode.symm ▸ hhigh) (by norm_num : (0 : ℤ) < 1024)
      (by decide) (readsOn_aligned (by unfold readable blockSize; rw [hnode]; omega)) buf
    rw [hnode] at hread
    generalize hcount : readable node position 1024 = count at hread
    rw [readable] at hcount
    rw [catLoop, hread]
    dsimp only
    have hmoved := Task.prints_moved task fd (position + count)
    by_cases hend : count = 0
    · rw [if_pos hend, List.drop_eq_nil_of_le (by omega)]
      exact ⟨_, rfl, hmoved⟩
    · have hopened := h.moved (by simp) (position + count)
      have hcut : ((fileText img node).drop position.toNat).take (1024 : ℤ).toNat =
          ((fileText img node).drop position.toNat).take count.toNat := by
        rw [List.take_eq_take_iff, List.length_drop, hlength]
        omega
      have hnext : (position + count).toNat = position.toNat + count.toNat := by omega
      rw [hcut, if_neg hend, if_neg (by omega)]
      have hsplit := List.take_append_drop count.toNat ((fileText img node).drop position.toNat)
      have hchunk : (((fileText img node).drop position.toNat).take count.toNat).length =
          count.toNat := by
        rw [List.length_take, List.length_drop, hlength]
        omega
      rw [List.drop_drop, ← hnext] at hsplit
      generalize ((fileText img node).drop position.toNat).take count.toNat = chunk at *
      rw [Task.write_eq hopened.wellFormed _ (by omega), ← hchunk, valuesAt_storeList]
      dsimp only
      rw [if_neg (by omega)]
      obtain ⟨task', hloop, hprints⟩ := ih (by omega) (hopened.printed chunk)
        (storeList buf 0 chunk) (by omega) (by omega) (by omega)
      refine ⟨task', hloop, ?_⟩
      rw [← hsplit]
      exact (hmoved.after (Task.prints_printed _ chunk)).trans hprints

end Loop

section Cat

variable {img : Image} {task : Task} {name : List UInt8}

/-- `cat` of a valid file prints the file and returns 0; of a name that nothing has it returns 2,
and without an argument 3. -/
theorem cat_prints (htypes : img.TypesKnown) (h : task.Started name) (buf : ℤ → UInt8) :
    (∀ idx inode, name ≠ [] → img.FirstNamed name idx →
        (img.dentries idx).kind = some (.regular inode) → HasFile img inode → ∀ fuel : ℕ,
        (fileText img (img.inodes (u32 inode).toNat)).length < fuel →
        ∃ task', cat img fuel task buf = some (0, task') ∧
          task.Prints (fileText img (img.inodes (u32 inode).toNat)) task') ∧
      (name ≠ [] →
        (∀ idx : ℕ, (idx : ℤ) < u32 img.dirCount.toInt → (img.dentries idx).name ≠ name) →
        ∀ fuel, ∃ task', cat img fuel task buf = some (2, task') ∧
          task.Prints (bytesOf "file not found\n") task') ∧
      (name = [] → ∀ fuel, ∃ task', cat img fuel task buf = some (3, task') ∧
        task.Prints (bytesOf "could not read arguments\n") task') := by
  have hstring : HoldsString (fun i : ℕ ↦ storeString buf name i) name :=
    storeString_holdsString buf h.arguments.nonzero
  refine ⟨fun idx inode hne hfirst hkind hfile fuel hfuel ↦ ?_, fun hne hunknown fuel ↦ ?_,
    fun hempty fuel ↦ ?_⟩
  · have hlookup := (lookup_of_firstNamed htypes hstring hfirst).trans hkind
    obtain ⟨task', hopen, hopened, hprints, -⟩ := h.openFile_eq htypes hlookup
    obtain ⟨task'', hloop, hprints'⟩ := catLoop_prints hfile le_rfl hfile.length_nonneg
      (Or.inl rfl) (by rw [length_fileText] at hfuel; omega : _ < (fuel : ℤ)) hopened
      (storeString buf name)
    refine ⟨task'', ?_, hprints.trans hprints'⟩
    rw [cat, Task.getargs_eq h hne]
    simp only [ne_eq, not_true, if_false, hopen]
    exact hloop
  · have hlookup := lookup_of_unknown htypes hstring hunknown
    refine ⟨(task.called task.pcb).printed (bytesOf "file not found\n"), ?_,
      (task.prints_called rfl).after (Task.prints_printed _ _)⟩
    rw [cat, Task.getargs_eq h hne]
    simp only [ne_eq, not_true, if_false, Task.openFile_unknown htypes hlookup, if_true]
    have hwell : (task.called task.pcb).pcb.WellFormed := h.wellFormed
    rw [ece391Fdputs_literal hwell (by decide +kernel) (by decide +kernel)]
    rfl
  · subst hempty
    refine ⟨task.printed (bytesOf "could not read arguments\n"), ?_, Task.prints_printed _ _⟩
    rw [cat, Task.getargs_nothing h]
    simp only [ne_eq]
    rw [if_pos (by decide), ece391Fdputs_literal h.wellFormed (by decide +kernel)
      (by decide +kernel)]
    rfl

end Cat

/-- A disk with a file whose blocks stand in the order 0, 2, 1. -/
def scatteredDisk : Image := fileImage scatteredInode 3 fun a ↦ if a = 4096 then 1 else 0

theorem scatteredDisk_hasFile : HasFile scatteredDisk 0 := by
  have hblocks : ∀ block < 3, 0 ≤ (scatteredInode.dataBlockNum block).toInt ∧
      (scatteredInode.dataBlockNum block).toInt < 3 := by decide
  have hlength : scatteredInode.length.toInt = 12288 := by decide
  refine ⟨by decide, ⟨?_, fun block hblock ↦ hblocks block ?_⟩, ?_⟩
  · change scatteredInode.length.toInt ≤ _
    rw [hlength]
    decide
  · change (block : ℤ) * blockSize < scatteredInode.length.toInt at hblock
    rw [hlength] at hblock
    unfold blockSize at hblock
    omega
  · change 0 ≤ scatteredInode.length.toInt
    rw [hlength]
    decide

/-- `cat` of that file. -/
theorem cat_prints_scattered :
    ∃ task', cat scatteredDisk 12289 (startedTask [97]) (fun _ ↦ 0) = some (0, task') ∧
      (startedTask [97]).Prints (fileText scatteredDisk scatteredInode) task' := by
  have hnode : scatteredDisk.inodes (u32 0).toNat = scatteredInode := rfl
  have hlength : (fileText scatteredDisk (scatteredDisk.inodes (u32 0).toNat)).length < 12289 := by
    rw [length_fileText, hnode]
    decide
  have hfirst : scatteredDisk.FirstNamed [97] 0 :=
    ⟨by decide, by decide +kernel, fun i hi ↦ absurd hi (Nat.not_lt_zero i)⟩
  have htypes : scatteredDisk.TypesKnown := fileImage_typesKnown _ _ _
  have hkind : (scatteredDisk.dentries 0).kind = some (.regular 0) := by decide +kernel
  have hstarted : (startedTask [97]).Started [97] := startedTask_started (by simp) (by decide)
  have hprints := (cat_prints htypes hstarted fun _ ↦ 0).1 0 0 (by decide) hfirst hkind
    scatteredDisk_hasFile 12289 hlength
  rwa [hnode] at hprints

end Sp18.UserPrograms
