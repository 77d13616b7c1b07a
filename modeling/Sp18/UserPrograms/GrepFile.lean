import Sp18.UserPrograms.Grep

/-!
# `grep` on a file

The inner loop of `do_one_file` takes the lines out of the buffer and leaves the beginning of a line
that is not complete (`lineLoop_takes`). A buffer that is not full holds the end of the file, so
that with each round of the outer loop the lines that have been printed and those of what is left
are the lines of the file (`fileLoop_prints`). A line that does not fit into the buffer is taken for
several.

The string functions see a text up to its first zero. Of a file without a zero, `do_one_file` prints
exactly the lines in which the string occurs (`doOneFile_prints`).
-/

set_option autoImplicit false
set_option relaxedAutoImplicit false

namespace Sp18.UserPrograms

open Foundation Kernel

/-- What a line contributes to the output. -/
def found (name word line : List UInt8) : List UInt8 :=
  if word <:+: line then shownLine name word line else []

/-- What is printed of a text that is read through a buffer of 1024 bytes. -/
def grepped (name word text : List UInt8) : List UInt8 :=
  matchingLines word (shownLine name word) (cutLines newlineChar 1024 text)

section Grepped

variable {name word : List UInt8}

theorem found_nil (hne : word ≠ []) : found name word [] = [] := by
  have hnot : ¬ word <:+: [] := by
    rw [List.infix_nil]
    exact hne
  exact if_neg hnot

theorem grepped_nil : grepped name word [] = [] := by
  rw [grepped, cutLines_nil]
  rfl

theorem grepped_line {line more : List UInt8} (hline : newlineChar ∉ line)
    (hlength : line.length < 1024) :
    grepped name word (line ++ newlineChar :: more) = found name word line ++
      grepped name word more := by
  rw [grepped, cutLines_line hline hlength, matchingLines_cons]
  rfl

theorem grepped_full {line more : List UInt8} (hline : newlineChar ∉ line)
    (hlength : line.length = 1024) :
    grepped name word (line ++ more) = found name word line ++ grepped name word more := by
  rw [grepped, cutLines_full hline hlength (by norm_num), matchingLines_cons]
  rfl

theorem grepped_last (hne : word ≠ []) {line : List UInt8} (hline : newlineChar ∉ line)
    (hlength : line.length ≤ 1024) : grepped name word line = found name word line := by
  by_cases hempty : line = []
  · rw [hempty, grepped_nil, found_nil hne]
  · rw [grepped, cutLines_last hline hlength hempty, matchingLines_cons]
    exact List.append_nil _

/-- Of a text whose lines fit into the buffer, the lines in which the string occurs are printed. -/
theorem grepped_eq_lines (hne : word ≠ []) {text : List UInt8}
    (hfits : ∀ line ∈ text.splitOn newlineChar, line.length ≤ 1024) :
    grepped name word text = matchingLines word (shownLine name word) (text.splitOn newlineChar) :=
  matchingLines_cutLines hne hfits (by norm_num)

end Grepped

/-- The copy of a string to a lower address of the same memory. -/
theorem ece391Strcpy_eq {memory : ℤ → UInt8} {dst src : ℤ} {text : List UInt8} {n : ℕ}
    (h : HoldsString (fun i ↦ memory (src + i)) text) (hn : text.length < n) (hlt : dst < src) :
    ece391Strcpy memory dst src n = storeList memory dst (text ++ [0]) := by
  induction text generalizing memory dst src n with
  | nil =>
    obtain ⟨n, rfl⟩ := Nat.exists_eq_add_of_lt hn
    have hzero : memory src = 0 := by simpa using h.terminated
    rw [ece391Strcpy, hzero]
    simp only [Function.update_self, ne_eq, not_true, if_false]
    rfl
  | cons c text ih =>
    obtain ⟨n, rfl⟩ := Nat.exists_eq_add_of_lt hn
    have hc : memory src = c := by simpa using h.char 0 (Nat.succ_pos _)
    have hne : c ≠ 0 := h.nonzero c List.mem_cons_self
    have hrest : HoldsString (fun i ↦ Function.update memory dst c (src + 1 + i)) text := by
      have hdrop := h.drop (Nat.succ_le_succ (Nat.zero_le text.length) : 1 ≤ (c :: text).length)
      have hsame : (fun i : ℕ ↦ Function.update memory dst c (src + 1 + i)) =
          fun i : ℕ ↦ memory (src + ((1 + i : ℕ) : ℤ)) := by
        funext i
        rw [Function.update_of_ne (by omega)]
        congr 1
        push_cast
        ring
      rw [hsame]
      exact hdrop
    rw [ece391Strcpy, hc]
    simp only [Function.update_self, ne_eq, hne, not_false_eq_true, if_true]
    rw [ih hrest (by rw [List.length_cons]; omega) (by omega)]
    rfl

section Lines

variable {s fname : ℕ → UInt8} {name word : List UInt8} {cnt : ℤ} {data : ℤ → UInt8} {p : ℕ}
  {tail : List UInt8} {task : Task}

/-- The string that is looked for and the name of the file. -/
structure Greps (s fname : ℕ → UInt8) (word name : List UInt8) : Prop where
  word_held : HoldsString s word
  name_held : HoldsString fname name
  word_ne_nil : word ≠ []
  word_length : word.length < 2 ^ 31
  name_length : name.length < 2 ^ 31

/-- The bytes of a line, once the zero has been put behind it. -/
theorem lineAt_update (hdata : valuesAt data p tail.length = tail) {line : List UInt8}
    (hstarts : line <+: tail) : LineAt (Function.update data (p + line.length) 0) p line where
  byte i hi := by
    have hle := hstarts.length_le
    rw [Function.update_of_ne (by omega), hstarts.getElem hi]
    exact apply_of_valuesAt hdata _
  terminated := Function.update_self _ _ _

/-- One round of the inner loop, in which a line is searched or the beginning of one is moved. -/
theorem lineLoop_round (hg : Greps s fname word name) (hpcb : task.pcb.WellFormed)
    (hdata : valuesAt data p tail.length = tail) (hlength : tail.length < 2 ^ 31)
    {line : List UInt8} (hline : (tail.takeWhile fun c ↦ c ≠ newlineChar) = line) (fuel : ℕ) :
    lineLoop s fname cnt (p + tail.length) (fuel + 1) task data p =
      if newlineChar ≠ data (p + line.length) ∧ 0 ≠ cnt ∧ (p : ℤ) ≠ 0 then
        some (task, ece391Strcpy (Function.update data (p + line.length) 0) 0 p 4294967296,
          (tail.length : ℤ))
      else if (p : ℤ) + line.length + 1 ≥ p + tail.length then
        some (task.printed (found name word line), Function.update data (p + line.length) 0, 0)
      else
        lineLoop s fname cnt (p + tail.length) fuel (task.printed (found name word line))
          (Function.update data (p + line.length) 0) (p + line.length + 1) := by
  have hstarts : line <+: tail := hline ▸ List.takeWhile_prefix _
  have hsearch := @searchLoop_eq (Function.update data (p + line.length) 0) p s fname name word line
    task hpcb (lineAt_update hdata hstarts) hg.word_held hg.name_held hg.word_ne_nil hg.word_length
    hg.name_length (hstarts.length_le.trans_lt hlength) 0 line.length (Nat.zero_add _)
  rw [Nat.cast_zero, add_zero, List.drop_zero] at hsearch
  rw [← found] at hsearch
  have hrest : ((p : ℤ) + tail.length - p).toNat = tail.length := by omega
  have hcount : ((p : ℤ) + line.length - p).toNat = line.length := by omega
  rw [lineLoop, hrest, lineEndLoop_eq hdata, hline, hcount]
  dsimp only
  rw [hsearch]
  split_ifs
  · congr 3
    omega
  · rfl
  · rfl

/-- One round of the inner loop. It searches a complete line, moves the beginning of one, or
searches what is left as a line. -/
theorem lineLoop_cases (hg : Greps s fname word name) (hpcb : task.pcb.WellFormed)
    (hdata : valuesAt data p tail.length = tail) (hlength : tail.length < 2 ^ 31) (fuel : ℕ) :
    (∃ line more, tail = line ++ newlineChar :: more ∧ newlineChar ∉ line ∧
        valuesAt (Function.update data (p + line.length) 0) (p + line.length + 1) more.length =
          more ∧
        lineLoop s fname cnt (p + tail.length) (fuel + 1) task data p =
          if more = [] then
            some (task.printed (found name word line),
              Function.update data (p + line.length) 0, 0)
          else
            lineLoop s fname cnt (p + tail.length) fuel (task.printed (found name word line))
              (Function.update data (p + line.length) 0) (p + line.length + 1)) ∨
      newlineChar ∉ tail ∧ lineLoop s fname cnt (p + tail.length) (fuel + 1) task data p =
        if newlineChar ≠ data (p + tail.length) ∧ 0 ≠ cnt ∧ (p : ℤ) ≠ 0 then
          some (task, ece391Strcpy (Function.update data (p + tail.length) 0) 0 p 4294967296,
            (tail.length : ℤ))
        else
          some (task.printed (found name word tail), Function.update data (p + tail.length) 0,
            0) := by
  by_cases hmem : newlineChar ∈ tail
  · obtain ⟨line, more, rfl, hline⟩ := List.eq_append_cons_of_mem hmem
    have htake : ((line ++ newlineChar :: more).takeWhile fun c ↦ c ≠ newlineChar) = line := by
      rw [List.takeWhile_append_of_pos (fun c hc ↦ decide_eq_true (ne_of_mem_of_not_mem hc hline)),
        List.takeWhile_cons_of_neg (by simp), List.append_nil]
    have hend : data (p + line.length) = newlineChar := by
      rw [apply_of_valuesAt hdata (by simp), List.getElem_append_right le_rfl]
      simp
    refine Or.inl ⟨line, more, rfl, hline, ?_, ?_⟩
    · refine List.ext_getElem (length_valuesAt _ _ _) fun i hi hi' ↦ ?_
      simp only [valuesAt, List.getElem_map, List.getElem_range]
      have haddress : (p : ℤ) + line.length + 1 + i = p + ((line.length + (i + 1) : ℕ) : ℤ) := by
        push_cast
        ring
      rw [Function.update_of_ne (by omega), haddress,
        apply_of_valuesAt hdata (by rw [List.length_append, List.length_cons]; omega),
        List.getElem_append_right (by omega)]
      simp only [Nat.add_sub_cancel_left, List.getElem_cons_succ]
    · rw [lineLoop_round hg hpcb hdata hlength htake, if_neg (by rw [hend]; simp)]
      refine if_congr ?_ rfl rfl
      rw [← List.length_eq_zero_iff, List.length_append, List.length_cons]
      push_cast
      omega
  · have htake : (tail.takeWhile fun c ↦ c ≠ newlineChar) = tail := takeWhile_of_notMem hmem
    refine Or.inr ⟨hmem, ?_⟩
    rw [lineLoop_round hg hpcb hdata hlength htake]
    exact if_congr Iff.rfl rfl (if_pos (by omega))

/-- What the inner loop leaves of a buffer is good for the next round: the byte behind the buffer is
no newline, and the lines printed and those of what is left are the lines of the whole. -/
structure Leaves (name word : List UInt8) (tail rest out : List UInt8) (data' : ℤ → UInt8)
    (n : ℕ) : Prop where
  behind : newlineChar ≠ data' 1024
  nonzero : ∀ c ∈ valuesAt data' 0 n, c ≠ 0
  lines : out ++ grepped name word (valuesAt data' 0 n ++ rest) = grepped name word (tail ++ rest)

theorem update_zero_ne (h : newlineChar ≠ data 1024) (a : ℤ) :
    newlineChar ≠ Function.update data a 0 1024 := by
  rw [Function.update_apply]
  split_ifs
  · decide
  · exact h

/-- The beginning of a line is moved to the start of the buffer. -/
theorem leaves_moved (hdata : valuesAt data p tail.length = tail) (hp : p ≠ 0)
    (hroom : p + tail.length ≤ 1024) (hzero : ∀ c ∈ tail, c ≠ 0) (hbehind : newlineChar ≠ data 1024)
    (rest : List UInt8) :
    Leaves name word tail rest []
      (ece391Strcpy (Function.update data (p + tail.length) 0) 0 p 4294967296) tail.length := by
  have hline := (lineAt_update hdata (List.prefix_refl tail)).holdsString
  have hall : (tail.takeWhile fun c ↦ c ≠ 0) = tail := by
    rw [List.takeWhile_eq_self_iff]
    exact fun c hc ↦ decide_eq_true (hzero c hc)
  rw [hall] at hline
  have hmoved := ece391Strcpy_eq hline (by omega : tail.length < 4294967296)
    (by omega : (0 : ℤ) < p)
  have hread : valuesAt (storeList (Function.update data (p + tail.length) 0) 0 (tail ++ [0])) 0
      tail.length = tail := by
    have hstored := valuesAt_storeList (Function.update data (p + tail.length) 0) 0 (tail ++ [0])
    rw [← take_valuesAt _ _ (by simp : tail.length ≤ (tail ++ [(0 : UInt8)]).length), hstored,
      List.take_left]
  rw [hmoved]
  refine ⟨?_, hread.symm ▸ hzero, by rw [hread, List.nil_append]⟩
  rw [storeList_outside (by rw [List.length_append, List.length_singleton]; omega)]
  exact update_zero_ne hbehind _

/-- The inner loop ends, with less than a full buffer left. Of a text without a zero, in a buffer
that is full or holds the end of the text, it leaves what it has to. -/
theorem lineLoop_takes (hg : Greps s fname word name) {fuel : ℕ} (hpcb : task.pcb.WellFormed)
    (hdata : valuesAt data p tail.length = tail) (hroom : p + tail.length ≤ 1024)
    (hfuel : tail.length < fuel) :
    ∃ out data' n, lineLoop s fname cnt (p + tail.length) fuel task data p =
        some (task.printed out, data', ((n : ℕ) : ℤ)) ∧ n < 1024 ∧ (0 = cnt → n = 0) ∧
      ∀ rest, (∀ c ∈ tail, c ≠ 0) → newlineChar ≠ data 1024 → (p + tail.length = 1024 ∨ rest = []) →
        (0 = cnt → rest = []) → Leaves name word tail rest out data' n := by
  induction fuel generalizing p tail data task with
  | zero => omega
  | succ fuel ih =>
    rcases @lineLoop_cases s fname name word cnt data p tail task hg hpcb hdata (by omega) fuel with
      ⟨line, more, rfl, hline, hmore, hround⟩ | ⟨hlast, hround⟩
    · rw [List.length_append, List.length_cons] at hroom hfuel
      have hlength : line.length < 1024 := by omega
      have hwhole : ∀ rest, grepped name word (line ++ newlineChar :: more ++ rest) =
          found name word line ++ grepped name word (more ++ rest) := by
        intro rest
        rw [List.append_assoc, List.cons_append, grepped_line hline hlength]
      rw [hround]
      by_cases hempty : more = []
      · subst hempty
        rw [if_pos rfl]
        refine ⟨_, _, 0, rfl, by norm_num, fun _ ↦ rfl, fun rest _ hbehind _ _ ↦
          ⟨update_zero_ne hbehind _, by simp, ?_⟩⟩
        rw [hwhole, valuesAt_zero]
      · rw [if_neg hempty]
        have hstart : (p : ℤ) + line.length + 1 = ((p + line.length + 1 : ℕ) : ℤ) := by
          push_cast
          ring
        have hend : (p : ℤ) + (line ++ newlineChar :: more).length =
            ((p + line.length + 1 : ℕ) : ℤ) + more.length := by
          rw [List.length_append, List.length_cons]
          push_cast
          ring
        have hwell : (task.printed (found name word line)).pcb.WellFormed := by
          rw [Task.printed_pcb]
          exact hpcb
        rw [hstart] at hmore
        rw [hstart, hend]
        obtain ⟨out, data', n, hloop, hn, hzero, hleaves⟩ :=
          ih hwell hmore (by omega) (by omega)
        refine ⟨found name word line ++ out, data', n, ?_, hn, hzero,
          fun rest hnonzero hbehind hfull hcnt ↦ ?_⟩
        · rw [hloop, Task.printed_append]
        · obtain ⟨hbehind', hnonzero', hlines⟩ := hleaves rest
            (fun c hc ↦ hnonzero c (by simp [hc])) (update_zero_ne hbehind _)
            (hfull.imp_left fun h ↦ by rw [List.length_append, List.length_cons] at h; omega) hcnt
          exact ⟨hbehind', hnonzero', by rw [List.append_assoc, hlines, hwhole]⟩
    · rw [hround]
      split_ifs with hmove
      · obtain ⟨-, hcnt, hp⟩ := hmove
        have hp' : p ≠ 0 := fun h ↦ hp (by rw [h]; rfl)
        refine ⟨[], _, tail.length, rfl, by omega, fun h ↦ absurd h hcnt,
          fun rest hnonzero hbehind _ _ ↦ leaves_moved hdata hp' hroom hnonzero hbehind rest⟩
      · refine ⟨_, _, 0, rfl, by norm_num, fun _ ↦ rfl, fun rest _ hbehind hfull hcnt ↦
          ⟨update_zero_ne hbehind _, by simp, ?_⟩⟩
        rw [valuesAt_zero, List.nil_append]
        by_cases hrest : rest = []
        · rw [hrest, List.append_nil, grepped_nil, List.append_nil,
            grepped_last hg.word_ne_nil hlast (by omega)]
        · -- the buffer is full, and the line starts with it
          have hend := hfull.resolve_right hrest
          have hp : p = 0 := by
            by_contra hne
            refine hmove ⟨?_, fun h ↦ hrest (hcnt h), by exact_mod_cast hne⟩
            have haddress : (p : ℤ) + tail.length = 1024 := by omega
            rw [haddress]
            exact hbehind
          rw [grepped_full hlast (by omega)]

end Lines

/-! ### A file -/

section File

variable {img : Image} {s fname : ℕ → UInt8} {name word : List UInt8} {task : Task} {fd : Fin 8}
  {inode : ℤ}

/-- The bytes of the buffer after a read behind what is left in it. -/
theorem valuesAt_readBehind (data : ℤ → UInt8) (n : ℕ) (chunk : List UInt8) :
    valuesAt (fun k ↦ storeList (fun k ↦ data (n + k)) 0 chunk (k - n)) 0 (n + chunk.length) =
      valuesAt data 0 n ++ chunk := by
  rw [storeList_shift, valuesAt_append, zero_add, valuesAt_storeList]
  refine congrArg (· ++ chunk) (valuesAt_congr fun i hi ↦ ?_)
  exact storeList_outside (by omega)

/-- One round of the outer loop: what is read goes behind what is left, and the lines are taken. -/
theorem fileLoop_round (hg : Greps s fname word name) (hfile : HasFile img inode) {node : Inode}
    (hnode : img.inodes (u32 inode).toNat = node) (hconsecutive : Consecutive node) {position : ℤ}
    (hlow : 0 ≤ position) (hhigh : position ≤ node.length.toInt) {n : ℕ} (hn : n < 1024)
    (h : task.Opened fd (.regular inode) position) (data : ℤ → UInt8) {count : ℤ}
    (hcount : readable node position (1024 - n) = count) (fuel : ℕ) :
    ∃ out data' n', fileLoop img s fname fd.val (fuel + 1) task data n =
        (if 0 = count then some (0, (task.moved fd (position + count)).printed out)
        else fileLoop img s fname fd.val fuel ((task.moved fd (position + count)).printed out) data'
          ((n' : ℕ) : ℤ)) ∧ n' < 1024 ∧ (0 = count → n' = 0) ∧
      ((∀ c ∈ valuesAt data 0 n ++ (fileText img node).drop position.toNat, c ≠ 0) →
        newlineChar ≠ data 1024 →
        Leaves name word (valuesAt data 0 n ++ ((fileText img node).drop position.toNat).take
          count.toNat) ((fileText img node).drop (position + count).toNat) out data' n') := by
  have hlength := length_fileText img node
  have hend : position + count ≤ node.length.toInt := by
    unfold readable at hcount
    omega
  have hread := Task.read_text hfile h hlow (hnode.symm ▸ hhigh) (by omega : (0 : ℤ) < 1024 - n)
    (by unfold maxFileSize; omega)
    (hnode.symm ▸ readsOn_consecutive hconsecutive (hcount.symm ▸ hend)) fun k ↦ data (n + k)
  rw [hnode, hcount] at hread
  rw [readable] at hcount
  have hcut : ((fileText img node).drop position.toNat).take (1024 - n : ℤ).toNat =
      ((fileText img node).drop position.toNat).take count.toNat := by
    rw [List.take_eq_take_iff, List.length_drop, hlength]
    omega
  have hchunk : (((fileText img node).drop position.toNat).take count.toNat).length =
      count.toNat := by
    rw [List.length_take, List.length_drop, hlength]
    omega
  have hmem : ∀ c ∈ ((fileText img node).drop position.toNat).take count.toNat,
      c ∈ (fileText img node).drop position.toNat := fun c hc ↦ List.mem_of_mem_take hc
  rw [hcut] at hread
  generalize ((fileText img node).drop position.toNat).take count.toNat = chunk at *
  have hbuffer := valuesAt_readBehind data n chunk
  have htail : (valuesAt data 0 n ++ chunk).length = n + chunk.length := by
    rw [List.length_append, length_valuesAt]
  have hlast : (n : ℤ) + count = ((0 : ℕ) : ℤ) + (valuesAt data 0 n ++ chunk).length := by
    rw [htail, hchunk]
    push_cast
    omega
  have hwell := (h.moved (by simp) (position + count)).wellFormed
  obtain ⟨out, data', n', hloop, hn', hzero, hleaves⟩ := @lineLoop_takes s fname name word count
    (fun k ↦ storeList (fun k ↦ data (n + k)) 0 chunk (k - n)) 0 (valuesAt data 0 n ++ chunk)
    (task.moved fd (position + count)) hg ((n + count : ℤ).toNat + 1) hwell
    (by rw [htail]; exact hbuffer) (by rw [htail, hchunk]; omega) (by rw [htail, hchunk]; omega)
  refine ⟨out, data', n', ?_, hn', hzero, fun hnonzero hbehind ↦ hleaves _ (fun c hc ↦ ?_) ?_ ?_ ?_⟩
  · rw [fileLoop, hread]
    dsimp only
    rw [if_neg (by omega), hlast]
    rw [hlast, Nat.cast_zero] at hloop
    rw [Nat.cast_zero, hloop]
  · rcases List.mem_append.mp hc with hc | hc
    · exact hnonzero c (List.mem_append_left _ hc)
    · exact hnonzero c (List.mem_append_right _ (hmem c hc))
  · have hbehind' := congrFun (storeList_shift data n chunk) 1024
    rw [hbehind', storeList_outside (by omega)]
    exact hbehind
  · -- a buffer that is not full holds the end of the file
    rw [htail, hchunk, List.drop_eq_nil_iff, hlength]
    omega
  · intro hnothing
    rw [List.drop_eq_nil_iff, hlength]
    omega

/-- The outer loop ends, and has printed what is to be printed of what was left in the buffer and
the rest of the file. -/
theorem fileLoop_prints (hg : Greps s fname word name) (hfile : HasFile img inode) {node : Inode}
    (hnode : img.inodes (u32 inode).toNat = node) (hconsecutive : Consecutive node) {position : ℤ}
    (hlow : 0 ≤ position) (hhigh : position ≤ node.length.toInt) {fuel : ℕ}
    (hfuel : node.length.toInt - position < fuel) {n : ℕ} (hn : n < 1024)
    (h : task.Opened fd (.regular inode) position) (data : ℤ → UInt8) :
    ∃ out task' position', fileLoop img s fname fd.val fuel task data n = some (0, task') ∧
      task.Prints out task' ∧ task'.Opened fd (.regular inode) position' ∧
      (∀ fd' ≠ fd, task'.pcb.fileObject fd'.val = task.pcb.fileObject fd'.val) ∧
      ((∀ c ∈ valuesAt data 0 n ++ (fileText img node).drop position.toNat, c ≠ 0) →
        newlineChar ≠ data 1024 → out = grepped name word (valuesAt data 0 n ++
          (fileText img node).drop position.toNat)) := by
  induction fuel generalizing position n task data with
  | zero => omega
  | succ fuel ih =>
    obtain ⟨out, data', n', hround, hn', hzero, hleaves⟩ :=
      fileLoop_round hg hfile hnode hconsecutive hlow hhigh hn h data rfl fuel
    generalize hcount : readable node position (1024 - n) = count at *
    rw [readable] at hcount
    have hprinted := (Task.prints_moved task fd (position + count)).after
      (Task.prints_printed _ out)
    have hopened := (h.moved (by simp) (position + count)).printed out
    have hother : ∀ fd' ≠ fd, ((task.moved fd (position + count)).printed out).pcb.fileObject
        fd'.val = task.pcb.fileObject fd'.val := by
      intro fd' hne
      rw [Task.printed_pcb, Task.fileObject_moved task hne]
    have hsplit : ((fileText img node).drop position.toNat).take count.toNat ++
        (fileText img node).drop (position + count).toNat =
          (fileText img node).drop position.toNat := by
      have hnext : (position + count).toNat = position.toNat + count.toNat := by omega
      rw [hnext, ← List.drop_drop, List.take_append_drop]
    rw [hround]
    by_cases hend : 0 = count
    · rw [if_pos hend]
      refine ⟨out, _, _, rfl, hprinted, hopened, hother, fun hnonzero hbehind ↦ ?_⟩
      have hlines := (hleaves hnonzero hbehind).lines
      have hnothing : (fileText img node).drop (position + count).toNat = [] := by
        rw [List.drop_eq_nil_iff, length_fileText]
        omega
      rw [hzero hend, valuesAt_zero, List.append_assoc, hsplit, hnothing, List.append_nil,
        grepped_nil, List.append_nil] at hlines
      exact hlines
    · rw [if_neg hend]
      obtain ⟨out', task', position', hloop, hprints, hopened', hother', hexact⟩ :=
        ih (by omega) (by omega) (by omega) hn' hopened data'
      refine ⟨out ++ out', task', position', hloop, hprinted.trans hprints, hopened',
        fun fd' hne ↦ (hother' fd' hne).trans (hother fd' hne), fun hnonzero hbehind ↦ ?_⟩
      obtain ⟨hbehind', hnonzero', hlines⟩ := hleaves hnonzero hbehind
      rw [List.append_assoc, hsplit] at hlines
      rw [hexact (fun c hc ↦ ?_) hbehind', hlines]
      rcases List.mem_append.mp hc with hc | hc
      · exact hnonzero' c hc
      · refine hnonzero c (List.mem_append_right _ ?_)
        rw [← hsplit]
        exact List.mem_append_right _ hc

/-- What `do_one_file` leaves: it returns 0 and the descriptor is free again. -/
structure DoneWith (task : Task) (fd : Fin 8) (out : List UInt8) (task' : Task) : Prop where
  prints : task.Prints out task'
  wellFormed : task'.pcb.WellFormed
  free : task'.pcb.table fd = none
  other : ∀ fd' ≠ fd, task'.pcb.fileObject fd'.val = task.pcb.fileObject fd'.val

/-- `open` takes this descriptor. -/
structure TakesNext (task : Task) (fd : Fin 8) : Prop where
  wellFormed : task.pcb.WellFormed
  low : 2 ≤ fd.val
  free : task.pcb.table fd = none
  lowest : ∀ fd' : Fin 8, 2 ≤ fd'.val → fd' < fd → task.pcb.table fd' ≠ none

/-- `do_one_file`, once its loop is known to end. -/
theorem doOneFile_of_loop (hnext : TakesNext task fd) (htypes : img.TypesKnown) {kind : FileKind}
    (hlookup : img.lookup fname = some kind) {fuel : ℕ} {data : ℤ → UInt8} {P : List UInt8 → Prop}
    (hloop : ∀ task : Task, task.Opened fd kind 0 → ∃ out task' position',
      fileLoop img s fname fd.val fuel task data 0 = some (0, task') ∧ task.Prints out task' ∧
        task'.Opened fd kind position' ∧
        (∀ fd' ≠ fd, task'.pcb.fileObject fd'.val = task.pcb.fileObject fd'.val) ∧ P out) :
    ∃ out task', doOneFile img s fname fuel task data = some (0, task') ∧
      DoneWith task fd out task' ∧ P out := by
  obtain ⟨opened, hopen, hopened, hprints, hother⟩ := Task.openFile_eq hnext.wellFormed htypes
    hlookup hnext.low hnext.free hnext.lowest
  obtain ⟨out, read, position, hread, hprints', hopened', hother', hout⟩ := hloop opened hopened
  obtain ⟨closed, hclose, hwell, hfree, hprints'', hother''⟩ := Task.close_eq hopened' hnext.low
  refine ⟨out, closed, ?_, ⟨?_, hwell, hfree, fun fd' hne ↦ ?_⟩, hout⟩
  · rw [doOneFile, hopen]
    dsimp only
    rw [if_neg (by omega), hread]
    dsimp only
    rw [if_neg (by norm_num), hclose]
    rfl
  · have hall := hprints.after (hprints'.trans hprints'')
    rwa [List.append_nil] at hall
  · rw [hother'' fd' hne, hother' fd' hne, hother fd' hne]

/-- Of a file without a zero, `do_one_file` prints the lines in which the string occurs. -/
theorem doOneFile_prints (hg : Greps s fname word name) (hnext : TakesNext task fd)
    (htypes : img.TypesKnown) (hlookup : img.lookup fname = some (.regular inode))
    (hfile : HasFile img inode) {node : Inode} (hnode : img.inodes (u32 inode).toNat = node)
    (hconsecutive : Consecutive node) {fuel : ℕ} (hfuel : node.length.toInt < fuel)
    (data : ℤ → UInt8) :
    ∃ out task', doOneFile img s fname fuel task data = some (0, task') ∧
      DoneWith task fd out task' ∧
      ((∀ c ∈ fileText img node, c ≠ 0) → newlineChar ≠ data 1024 →
        out = grepped name word (fileText img node)) := by
  refine doOneFile_of_loop hnext htypes hlookup fun opened hopened ↦ ?_
  obtain ⟨out, task', position', hloop, hprints, hopened', hother, hexact⟩ :=
    fileLoop_prints hg hfile hnode hconsecutive le_rfl (hnode ▸ hfile.length_nonneg) (n := 0)
      (by omega : node.length.toInt - 0 < fuel) (by norm_num) hopened data
  refine ⟨out, task', position', hloop, hprints, hopened', hother, ?_⟩
  simpa using hexact

/-- The RTC has no text. -/
theorem doOneFile_rtc (hg : Greps s fname word name) (hnext : TakesNext task fd)
    (htypes : img.TypesKnown) (hlookup : img.lookup fname = some .rtc) {fuel : ℕ} (hfuel : 0 < fuel)
    (data : ℤ → UInt8) :
    ∃ out task', doOneFile img s fname fuel task data = some (0, task') ∧
      DoneWith task fd out task' ∧ out = [] := by
  refine doOneFile_of_loop hnext htypes hlookup fun opened hopened ↦ ?_
  obtain ⟨fuel, rfl⟩ := Nat.exists_eq_add_of_lt hfuel
  have hfops : (opened.pcb.fileObject fd.val).fops = .rtc := by
    have hkind := hopened.kind
    unfold FileObject.kind at hkind
    cases hfops : (opened.pcb.fileObject fd.val).fops <;> rw [hfops] at hkind <;> first
      | rfl
      | cases hkind
  have hread : opened.read img fd.val (fun k ↦ data (0 + k)) (1024 - 0) =
      some (0, fun k ↦ data (0 + k), opened.called opened.pcb) := by
    rw [Task.read, if_neg (by rw [hfops]; decide), doRead,
      if_neg (hopened.accepted (by norm_num : (0 : ℤ) < 1024 - 0))]
    dsimp only
    rw [hfops]
    rfl
  have hround := @lineLoop_round s fname name word 0 (fun k ↦ data (0 + (k - 0))) 0 []
    (opened.called opened.pcb) hg hopened.wellFormed rfl (by norm_num) [] rfl 0
  rw [if_neg (by simp), if_pos (by simp), found_nil hg.word_ne_nil, Task.printed_nil] at hround
  refine ⟨[], opened.called opened.pcb, 0, ?_, opened.prints_called rfl,
    ⟨hopened.wellFormed, hopened.flags, hopened.kind, hopened.position⟩, fun _ _ ↦ rfl, rfl⟩
  rw [Nat.zero_add, fileLoop, hread]
  dsimp only
  rw [if_neg (by norm_num)]
  simp only [Nat.cast_zero, List.length_nil, add_zero, Nat.zero_add] at hround
  simp only [add_zero, Int.toNat_zero, Nat.zero_add, hround, if_true]

end File

end Sp18.UserPrograms
