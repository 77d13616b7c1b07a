import Sp18.UserPrograms.Reading

/-!
# `ls`

`ece391ls.c` reads the directory entry by entry and writes each name with a newline behind it, which
it puts where `dir_read` has put the zero. A read that returns 0 is the end for it: it lists the
names in their order, up to the first empty one (`ls_lists`).
-/

set_option autoImplicit false
set_option relaxedAutoImplicit false

namespace Sp18.UserPrograms

open Foundation Kernel

/-- The loop of `ls`: the return value of the program, if the loop ends. -/
def lsLoop (img : Image) (fd : ℤ) : ℕ → Task → (ℤ → UInt8) → Option (ℤ × Task)
  | 0, _, _ => none
  | fuel + 1, task, buf =>
    match task.read img fd buf 32 with
    | none => none
    | some (cnt, buf, task) =>
      if cnt = 0 then some (0, task)
      else if cnt = -1 then
        (ece391Fdputs task 1 (literal "directory entry read failed\n")).map fun task ↦ (3, task)
      else
        let buf := Function.update buf cnt newlineChar
        match task.write 1 buf (cnt + 1) with
        | none => none
        | some (written, task) =>
          if written = -1 then some (3, task) else lsLoop img fd fuel task buf

/-- `main` of `ece391ls.c`. The array `buf` is not initialised. -/
def ls (img : Image) (fuel : ℕ) (task : Task) (buf : ℤ → UInt8) : Option (ℤ × Task) :=
  let (fd, task) := task.openFile img (literal ".")
  if -1 = fd then
    (ece391Fdputs task 1 (literal "directory open failed\n")).map fun task ↦ (2, task)
  else lsLoop img fd fuel task buf

/-- The names of the directory from entry `k` on. -/
def namesFrom (img : Image) (k count : ℕ) : List (List UInt8) :=
  (List.range' k count).map fun i ↦ (img.dentries i).name

/-- What `ls` shows of a list of names. -/
def listing (names : List (List UInt8)) : List UInt8 :=
  (names.takeWhile (· ≠ [])).flatMap (· ++ [newlineChar])

theorem namesFrom_succ (img : Image) (k count : ℕ) :
    namesFrom img k (count + 1) = (img.dentries k).name :: namesFrom img (k + 1) count := by
  rw [namesFrom, List.range'_succ, List.map_cons]
  rfl

theorem listing_cons {name : List UInt8} (h : name ≠ []) (names : List (List UInt8)) :
    listing (name :: names) = name ++ [newlineChar] ++ listing names := by
  rw [listing, List.takeWhile_cons_of_pos (p := fun x ↦ decide (x ≠ [])) (decide_eq_true h),
    List.flatMap_cons]
  rfl

theorem listing_empty (names : List (List UInt8)) : listing ([] :: names) = [] := by
  rw [listing, List.takeWhile_cons_of_neg (by simp), List.flatMap_nil]

section Loop

variable {img : Image} {fd : Fin 8}

/-- A name that has been read, with the newline behind it. -/
theorem valuesAt_of_answersName {name : List UInt8} {cnt : ℤ} {buf : ℤ → UInt8}
    (h : AnswersName name 32 (cnt, buf)) (hlength : name.length ≤ 32) :
    cnt = name.length ∧
      valuesAt (Function.update buf cnt newlineChar) 0 (name.length + 1) =
        name ++ [newlineChar] := by
  have hvalue : cnt = name.length := by
    have hmin := h.value
    dsimp only at hmin
    omega
  rw [hvalue, valuesAt_update]
  refine ⟨rfl, congrArg (· ++ [newlineChar]) ?_⟩
  refine List.ext_getElem (length_valuesAt _ _ _) fun i hi hi' ↦ ?_
  simp only [valuesAt, List.getElem_map, List.getElem_range, zero_add]
  exact h.bytes i hi' (by omega)

/-- From entry `k` on the loop lists the rest of the directory. -/
theorem lsLoop_lists {count fuel : ℕ} (hfuel : count < fuel) {k : ℕ}
    (hcount : (k : ℤ) + count = img.dirCount.toInt) {task : Task}
    (h : task.Opened fd .directory k) (buf : ℤ → UInt8) :
    ∃ task', lsLoop img fd.val fuel task buf = some (0, task') ∧
      task.Prints (listing (namesFrom img k count)) task' := by
  induction fuel generalizing k count task buf with
  | zero => omega
  | succ fuel ih =>
    rw [lsLoop]
    cases count with
    | zero =>
      rw [Task.read_ended h (by omega) (by norm_num) buf]
      exact ⟨_, rfl, task.prints_called rfl⟩
    | succ count =>
      have hentry : (k : ℤ) < img.dirCount.toInt := by omega
      obtain ⟨cnt, buf', hread, hanswer⟩ := Task.read_name h (Int.natCast_nonneg k) hentry
        (by norm_num : (0 : ℤ) < 32) (by norm_num) buf
      rw [Int.toNat_natCast] at hanswer
      obtain ⟨rfl, hname⟩ := valuesAt_of_answersName hanswer (length_name_le _)
      have hmoved := Task.prints_moved task fd ((k : ℤ) + 1)
      rw [hread, namesFrom_succ]
      dsimp only
      generalize (img.dentries k).name = name at *
      by_cases hempty : name = []
      · rw [hempty, listing_empty, if_pos (by simp)]
        exact ⟨_, rfl, hmoved⟩
      · have hpos := List.length_pos_iff.mpr hempty
        have hopened := h.moved (by simp) ((k : ℤ) + 1)
        have hnat : ((name.length : ℤ) + 1).toNat = name.length + 1 := by omega
        rw [if_neg (by omega), if_neg (by omega), Task.write_eq hopened.wellFormed _ (by omega),
          hnat, hname, listing_cons hempty]
        dsimp only
        rw [if_neg (by omega)]
        have hrest : ((k + 1 : ℕ) : ℤ) + count = img.dirCount.toInt := by
          push_cast
          omega
        obtain ⟨task', hloop, hprints⟩ := ih (by omega) hrest
          (hopened.printed (name ++ [newlineChar])) (Function.update buf' name.length newlineChar)
        exact ⟨task', hloop, (hmoved.after (Task.prints_printed _ _)).trans hprints⟩

end Loop

section Ls

variable {img : Image} {task : Task}

/-- `ls` lists the names of the directory in their order, up to the first empty one, and returns 0;
if there is no directory on the disk it returns 2. -/
theorem ls_lists (htypes : img.TypesKnown) {text : List UInt8} (h : task.Started text)
    (buf : ℤ → UInt8) :
    (∀ idx, img.FirstNamed (bytesOf ".") idx → (img.dentries idx).kind = some .directory →
        ∀ fuel, img.dirCount.toInt < (fuel : ℕ) → 0 ≤ img.dirCount.toInt →
        ∃ task', ls img fuel task buf = some (0, task') ∧
          task.Prints (listing (namesFrom img 0 img.dirCount.toInt.toNat)) task') ∧
      ((∀ idx : ℕ, (idx : ℤ) < u32 img.dirCount.toInt → (img.dentries idx).name ≠ bytesOf ".") →
        ∀ fuel, ∃ task', ls img fuel task buf = some (2, task') ∧
          task.Prints (bytesOf "directory open failed\n") task') := by
  have hstring : HoldsString (literal ".") (bytesOf ".") :=
    literal_holdsString (by decide +kernel)
  refine ⟨fun idx hfirst hkind fuel hfuel hcount ↦ ?_, fun hunknown fuel ↦ ?_⟩
  · have hlookup := (lookup_of_firstNamed htypes hstring hfirst).trans hkind
    obtain ⟨task', hopen, hopened, hprints, -⟩ := h.openFile_eq htypes hlookup
    have hall : ((0 : ℕ) : ℤ) + img.dirCount.toInt.toNat = img.dirCount.toInt := by omega
    obtain ⟨task'', hloop, hprints'⟩ :=
      lsLoop_lists (by omega : img.dirCount.toInt.toNat < fuel) hall hopened buf
    refine ⟨task'', ?_, hprints.after hprints'⟩
    rw [ls, hopen]
    exact hloop
  · have hlookup := lookup_of_unknown htypes hstring hunknown
    have hwell : (task.called task.pcb).pcb.WellFormed := h.wellFormed
    refine ⟨(task.called task.pcb).printed (bytesOf "directory open failed\n"), ?_,
      (task.prints_called rfl).after (Task.prints_printed _ _)⟩
    rw [ls, Task.openFile_unknown htypes hlookup]
    simp only [if_true]
    rw [ece391Fdputs_literal hwell (by decide +kernel) (by decide +kernel)]
    rfl

end Ls

/-- `ls` on a disk with three names, the last of which takes up all 32 bytes. -/
theorem ls_lists_names :
    ∃ task', ls namesImage 4 (startedTask []) (fun _ ↦ 0) = some (0, task') ∧
      (startedTask []).Prints (listing (namesFrom namesImage 0 3)) task' := by
  have hfirst : namesImage.FirstNamed (bytesOf ".") 0 :=
    ⟨by decide, by decide +kernel, fun i hi ↦ absurd hi (Nat.not_lt_zero i)⟩
  have hkind : (namesImage.dentries 0).kind = some .directory := by decide +kernel
  have hstarted : (startedTask []).Started [] := startedTask_started (by simp) (by decide)
  exact (ls_lists namesImage_typesKnown hstarted fun _ ↦ 0).1 0 hfirst hkind 4 (by decide)
    (by decide)

end Sp18.UserPrograms
