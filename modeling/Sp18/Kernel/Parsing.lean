import Sp18.Foundation.Words
import Sp18.Kernel.Strings
import Sp18.Kernel.Terminal

/-!
# Command lines

`parse_args` splits a command line into a command and its arguments. The command is what stands
before the first space (`wordEnd_eq`), and the loop behind it keeps every character that is no space
(`gatherArgs_eq`), although it is meant to strip leading spaces only. So `parse_args` stores two
strings, however long the line is (`parseArgs_eq`).

A line that starts with a space has an empty command, and spaces between the arguments are lost: the
words of the line can be recovered only where there are no such spaces (`parseArgs_exact`). The two
arrays and the array of the PCB have 128 bytes, and no store is checked
(`parseArgs_within_exact`).
-/

set_option autoImplicit false
set_option relaxedAutoImplicit false

namespace Sp18.Kernel

open Foundation

/-- The loop of `parse_args` for the end of the command, from `argStart` on. -/
def wordEnd (str : ℕ → UInt8) (argStart : ℕ) : ℕ → ℕ
  | 0 => argStart
  | remaining + 1 =>
    if str argStart ≠ spaceChar then wordEnd str (argStart + 1) remaining else argStart

/-- The loop of `parse_args` that stores the arguments, from position `i` on. -/
def gatherArgs (str : ℕ → UInt8) (args : ℤ → UInt8) (count i : ℕ) : ℕ → (ℤ → UInt8) × ℕ
  | 0 => (args, count)
  | fuel + 1 =>
    if str i = 0 then (args, count)
    -- the second operand is the constant `'\0'`
    else if str i ≠ spaceChar ∨ (0 : UInt8) ≠ 0 then
      gatherArgs str (Function.update args count (str i)) (count + 1) (i + 1) fuel
    else gatherArgs str args count (i + 1) fuel

/-- `parse_args`: the memory around the arrays `cmd` and `args`. -/
def parseArgs (str : ℕ → UInt8) (cmd args : ℤ → UInt8) : (ℤ → UInt8) × (ℤ → UInt8) :=
  let cmd := memcpy cmd 0 (fun _ ↦ 0) 0 bufferSize
  let args := memcpy args 0 (fun _ ↦ 0) 0 bufferSize
  let argStart := wordEnd str 0 (strlen str)
  let cmd := Function.update (strncpy cmd str argStart) argStart 0
  let (args, count) := gatherArgs (fun i ↦ str (argStart + i)) args 0 0 4294967295
  (cmd, Function.update args count 0)

/-- A command line in memory. Its positions are 32-bit integers. -/
structure CommandString (str : ℕ → UInt8) (line : List UInt8) : Prop where
  holds : HoldsString str line
  fits : line.length < 2 ^ 32

/-- The arrays hold the first word and what follows it, without the spaces in front of them. So the
words of the line can be recovered from them. -/
structure SplitsLine (line : List UInt8) (cmd args : ℤ → UInt8) : Prop where
  cmd_holds : HoldsString (fun i : ℕ ↦ cmd i) (firstWord spaceChar line)
  args_holds : HoldsString (fun i : ℕ ↦ args i) (afterWord spaceChar line)
  words_eq : words spaceChar (stringAt (fun i : ℕ ↦ cmd i) 0 128 ++ spaceChar ::
    stringAt (fun i : ℕ ↦ args i) 0 128) = words spaceChar line

/-- All stores go into an array of `bufferSize` bytes: whatever was in memory before, it is still
there outside the array. -/
def StoresWithin (stores : (ℤ → UInt8) → ℤ → UInt8) : Prop :=
  ∀ memory k, k < 0 ∨ bufferSize ≤ k → stores memory k = memory k

/-- The array of `bufferSize` bytes holds a string. -/
def Terminated (memory : ℤ → UInt8) : Prop := ∃ k : ℕ, (k : ℤ) < bufferSize ∧ memory k = 0

/-- `parse_args` stays inside of the arrays `cmd` and `args` and leaves a string in both, and the
copy of `args` to the PCB stays inside of `buffCopyArg`. -/
structure ParsesWithin (str : ℕ → UInt8) : Prop where
  cmd_within : ∀ args, StoresWithin fun cmd ↦ (parseArgs str cmd args).1
  args_within : ∀ cmd, StoresWithin fun args ↦ (parseArgs str cmd args).2
  cmd_terminated : ∀ cmd args, Terminated (parseArgs str cmd args).1
  args_terminated : ∀ cmd args, Terminated (parseArgs str cmd args).2
  pcb_within : ∀ cmd args, StoresWithin fun buffCopyArg ↦
    strncpy buffCopyArg (fun i ↦ (parseArgs str cmd args).2 i)
      (strlen fun i ↦ (parseArgs str cmd args).2 i)

/-- What `parse_args` takes for the command. -/
def parsedCmd (line : List UInt8) : List UInt8 := line.takeWhile (· ≠ spaceChar)

/-- What `parse_args` takes for the arguments. -/
def parsedArgs (line : List UInt8) : List UInt8 :=
  (line.dropWhile (· ≠ spaceChar)).filter (· ≠ spaceChar)

/-! ### What the loops compute -/

section Loops

variable {str : ℕ → UInt8} {line : List UInt8}

theorem wordEnd_eq {l : List UInt8} (h : HoldsString str l) {i n : ℕ} (hn : i + n = l.length) :
    wordEnd str i n = i + ((l.drop i).takeWhile (· ≠ spaceChar)).length := by
  induction n generalizing i with
  | zero => rw [wordEnd, List.drop_eq_nil_of_le (by omega)]; rfl
  | succ n ih =>
    have hi : i < l.length := by omega
    rw [wordEnd, List.drop_eq_getElem_cons hi, h.char i hi]
    by_cases hspace : l[i] = spaceChar
    · rw [if_neg (not_not_intro hspace), List.takeWhile_cons_of_neg (by simpa using hspace)]
      rfl
    · rw [if_pos hspace, List.takeWhile_cons_of_pos (by simpa using hspace), ih (by omega),
        List.length_cons]
      omega

/-- The loop stores the characters that are no spaces. -/
theorem gatherArgs_eq (str : ℕ → UInt8) (args : ℤ → UInt8) (count i n : ℕ) :
    gatherArgs str args count i n =
      (storeList args count ((stringAt str i n).filter (· ≠ spaceChar)),
        count + ((stringAt str i n).filter (· ≠ spaceChar)).length) := by
  induction n generalizing args count i with
  | zero => rfl
  | succ n ih =>
    rw [gatherArgs]
    by_cases hzero : str i = 0
    · rw [if_pos hzero, stringAt_of_zero hzero]
      rfl
    · rw [if_neg hzero, stringAt_of_ne_zero hzero]
      by_cases hspace : str i = spaceChar
      · rw [if_neg (by simpa using hspace), ih, List.filter_cons_of_neg (by simpa using hspace)]
      · rw [if_pos (Or.inl hspace), ih, List.filter_cons_of_pos (by simpa using hspace), storeList,
          List.length_cons]
        push_cast
        rw [Nat.add_right_comm, Nat.add_assoc]

/-- `parse_args` stores two strings over the zeros of the two arrays. -/
theorem parseArgs_eq (h : CommandString str line) (cmd args : ℤ → UInt8) :
    parseArgs str cmd args =
      (storeString (memcpy cmd 0 (fun _ ↦ 0) 0 bufferSize) (parsedCmd line),
        storeString (memcpy args 0 (fun _ ↦ 0) 0 bufferSize) (parsedArgs line)) := by
  obtain ⟨hholds, hfits⟩ := h
  have hstrlen : strlen str = line.length := by
    rw [strlen_of_holdsString hholds]
    omega
  have hend : wordEnd str 0 (strlen str) = (parsedCmd line).length := by
    rw [hstrlen, wordEnd_eq hholds (zero_add _), zero_add, List.drop_zero, parsedCmd]
  have hsplit : parsedCmd line ++ line.dropWhile (· ≠ spaceChar) = line :=
    List.takeWhile_append_dropWhile
  have hle : (parsedCmd line).length ≤ line.length := (List.takeWhile_prefix _).length_le
  have htake : line.take (parsedCmd line).length = parsedCmd line :=
    (congrArg (List.take _) hsplit.symm).trans List.take_left
  have hdrop : line.drop (parsedCmd line).length = line.dropWhile (· ≠ spaceChar) :=
    (congrArg (List.drop _) hsplit.symm).trans List.drop_left
  have hcmd : strncpy (memcpy cmd 0 (fun _ ↦ 0) 0 bufferSize) str (parsedCmd line).length =
      storeString (memcpy cmd 0 (fun _ ↦ 0) 0 bufferSize) (parsedCmd line) := by
    rw [strncpy_eq hholds hle (by omega), htake]
  have hrest : stringAt (fun i ↦ str ((parsedCmd line).length + i)) 0 4294967295 =
      line.dropWhile (· ≠ spaceChar) := by
    rw [(hholds.drop hle).stringAt, List.take_of_length_le (by rw [List.length_drop]; omega), hdrop]
  simp only [parseArgs, hend, hcmd, gatherArgs_eq, hrest, zero_add]
  rw [storeString_eq _ (parsedArgs line)]
  refine Prod.ext ?_ rfl
  have hlast := storeString_last (memcpy cmd 0 (fun _ ↦ 0) 0 bufferSize) (parsedCmd line)
  rw [Function.update_eq_self_iff, hlast]

theorem mem_of_mem_parsedArgs {c : UInt8} (h : c ∈ parsedArgs line) : c ∈ line :=
  (List.dropWhile_suffix _).subset (List.mem_of_mem_filter h)

theorem length_parsedCmd_le (line : List UInt8) : (parsedCmd line).length ≤ line.length :=
  (List.takeWhile_prefix _).length_le

theorem length_parsedArgs_le (line : List UInt8) : (parsedArgs line).length ≤ line.length :=
  (List.length_filter_le _ _).trans (List.dropWhile_suffix _).length_le

theorem parseArgs_cmd_holds (h : CommandString str line) (cmd args : ℤ → UInt8) :
    HoldsString (fun i : ℕ ↦ (parseArgs str cmd args).1 i) (parsedCmd line) := by
  rw [parseArgs_eq h]
  exact storeString_holdsString _ fun c hc ↦
    h.holds.nonzero c ((List.takeWhile_prefix _).subset hc)

theorem parseArgs_args_holds (h : CommandString str line) (cmd args : ℤ → UInt8) :
    HoldsString (fun i : ℕ ↦ (parseArgs str cmd args).2 i) (parsedArgs line) := by
  rw [parseArgs_eq h]
  exact storeString_holdsString _ fun c hc ↦ h.holds.nonzero c (mem_of_mem_parsedArgs hc)

end Loops

/-! ### Lines that are split -/

section Splitting

variable {str : ℕ → UInt8} {line cmdName argText : List UInt8} {cmd args : ℤ → UInt8}

/-- Two short strings split the line if they are its first word and the text behind it. -/
theorem splitsLine_iff (hword : ∃ c ∈ line, c ≠ spaceChar)
    (hcmd : HoldsString (fun i : ℕ ↦ cmd i) cmdName) (hcmdLength : cmdName.length < 128)
    (hargs : HoldsString (fun i : ℕ ↦ args i) argText) (hargsLength : argText.length < 128) :
    SplitsLine line cmd args ↔
      cmdName = firstWord spaceChar line ∧ argText = afterWord spaceChar line := by
  constructor
  · intro h
    exact ⟨hcmd.unique h.cmd_holds, hargs.unique h.args_holds⟩
  · rintro ⟨rfl, rfl⟩
    refine ⟨hcmd, hargs, ?_⟩
    rw [hcmd.stringAt, hargs.stringAt, List.take_of_length_le (by omega),
      List.take_of_length_le (by omega), words_firstWord_append hword]

/-- The arguments are kept as they are if there is no space between them. -/
theorem parsedArgs_eq_afterWord_iff (hhead : line.head? ≠ some spaceChar) :
    parsedArgs line = afterWord spaceChar line ↔ spaceChar ∉ afterWord spaceChar line := by
  rw [afterWord_of_head hhead]
  exact filter_eq_dropWhile_iff spaceChar _

/-- `parse_args` splits a line that fits into its arrays if and only if the line does not start with
a space and there is no space in the text behind its first word and the spaces that follow it. -/
theorem parseArgs_exact (hline : HoldsString str line) (hlength : line.length < 128)
    (hword : ∃ c ∈ line, c ≠ spaceChar) (cmd args : ℤ → UInt8) :
    SplitsLine line (parseArgs str cmd args).1 (parseArgs str cmd args).2 ↔
      line.head? ≠ some spaceChar ∧ spaceChar ∉ afterWord spaceChar line := by
  have h : CommandString str line := ⟨hline, by omega⟩
  have hcmdLength := length_parsedCmd_le line
  have hargsLength := length_parsedArgs_le line
  rw [splitsLine_iff hword (parseArgs_cmd_holds h cmd args) (by omega)
    (parseArgs_args_holds h cmd args) (by omega), parsedCmd, takeWhile_eq_firstWord_iff hword]
  exact and_congr_right parsedArgs_eq_afterWord_iff

/-- The memory that holds a line, with zeros behind it. -/
def lineMemory (line : List UInt8) (i : ℕ) : UInt8 := line.getD i 0

theorem lineMemory_holdsString (h : ∀ c ∈ line, c ≠ 0) : HoldsString (lineMemory line) line where
  char _ hi := List.getD_eq_getElem line 0 hi
  nonzero := h
  terminated := List.getD_eq_default line 0 le_rfl

/-- `cat a b` -/
def catLine : List UInt8 := [99, 97, 116, 32, 97, 32, 98]

theorem parseArgs_exact_catLine : SplitsLine [99, 97, 116, 32, 97]
      (parseArgs (lineMemory [99, 97, 116, 32, 97]) (fun _ ↦ 0) fun _ ↦ 0).1
      (parseArgs (lineMemory [99, 97, 116, 32, 97]) (fun _ ↦ 0) fun _ ↦ 0).2 ↔
    ([99, 97, 116, 32, 97] : List UInt8).head? ≠ some spaceChar ∧
      spaceChar ∉ afterWord spaceChar [99, 97, 116, 32, 97] :=
  parseArgs_exact (lineMemory_holdsString (by simp)) (by decide) ⟨99, by decide, by decide⟩ _ _

/-- The space between two arguments is lost: those of `cat a b` become one. -/
theorem parseArgs_not_always : ¬ SplitsLine catLine
    (parseArgs (lineMemory catLine) (fun _ ↦ 0) fun _ ↦ 0).1
    (parseArgs (lineMemory catLine) (fun _ ↦ 0) fun _ ↦ 0).2 := by
  have h : CommandString (lineMemory catLine) catLine :=
    ⟨lineMemory_holdsString (by simp [catLine]), by norm_num [catLine]⟩
  intro hsplits
  have hargs := (parseArgs_args_holds h (fun _ ↦ 0) fun _ ↦ 0).unique hsplits.args_holds
  exact absurd hargs (by decide)

end Splitting

/-! ### Stores outside of the arrays -/

section Bounds

variable {str : ℕ → UInt8} {line : List UInt8}

/-- The stores of a string stay inside of an array if the string and its zero fit into it. -/
theorem storesWithin_storeString_iff {before : (ℤ → UInt8) → ℤ → UInt8}
    (hbefore : StoresWithin before) (name : List UInt8) :
    StoresWithin (fun memory ↦ storeString (before memory) name) ↔ name.length ≤ 127 := by
  have hsize : bufferSize = 128 := rfl
  constructor
  · intro h
    by_contra hlong
    have hend := h (fun _ ↦ 1) name.length (Or.inr (by omega))
    dsimp only at hend
    rw [storeString_last] at hend
    exact absurd hend (by decide)
  · intro hshort memory k hk
    exact (storeString_outside (by omega)).trans (hbefore memory k hk)

theorem storesWithin_memset : StoresWithin fun memory ↦ memcpy memory 0 (fun _ ↦ 0) 0 bufferSize :=
  fun memory _ hk ↦ memcpy_outside memory (fun _ ↦ 0) (by omega)

theorem terminated_of_holdsString {memory : ℤ → UInt8} {name : List UInt8}
    (h : HoldsString (fun i : ℕ ↦ memory i) name) (hlength : name.length ≤ 127) :
    Terminated memory :=
  ⟨name.length, by unfold bufferSize; omega, h.terminated⟩

/-- The copy of the arguments to the PCB. -/
theorem strncpy_parseArgs (h : CommandString str line) (cmd args buffCopyArg : ℤ → UInt8) :
    strncpy buffCopyArg (fun i ↦ (parseArgs str cmd args).2 i)
        (strlen fun i ↦ (parseArgs str cmd args).2 i) =
      storeString buffCopyArg (parsedArgs line) := by
  have hargs := parseArgs_args_holds h cmd args
  have hle := length_parsedArgs_le line
  have hfits := h.fits
  have hstrlen : strlen (fun i ↦ (parseArgs str cmd args).2 i) = (parsedArgs line).length := by
    rw [strlen_of_holdsString hargs]
    omega
  rw [hstrlen, strncpy_eq hargs le_rfl (by omega), List.take_length]

/-- `parse_args` and the copy to the PCB stay inside of their arrays if and only if there are at
most 127 characters before the first space, and at most 127 behind it that are no spaces. -/
theorem parseArgs_within_exact (h : CommandString str line) :
    ParsesWithin str ↔ (line.takeWhile (· ≠ spaceChar)).length ≤ 127 ∧
      ((line.dropWhile (· ≠ spaceChar)).filter (· ≠ spaceChar)).length ≤ 127 := by
  have hcmd : ∀ args, (StoresWithin fun cmd ↦ (parseArgs str cmd args).1) ↔
      (parsedCmd line).length ≤ 127 := by
    intro args
    simp only [parseArgs_eq h]
    exact storesWithin_storeString_iff storesWithin_memset _
  have hargs : ∀ cmd, (StoresWithin fun args ↦ (parseArgs str cmd args).2) ↔
      (parsedArgs line).length ≤ 127 := by
    intro cmd
    simp only [parseArgs_eq h]
    exact storesWithin_storeString_iff storesWithin_memset _
  constructor
  · intro hwithin
    exact ⟨(hcmd fun _ ↦ 0).mp (hwithin.cmd_within _), (hargs fun _ ↦ 0).mp (hwithin.args_within _)⟩
  · rintro ⟨hcmdLength, hargsLength⟩
    refine ⟨fun args ↦ (hcmd args).mpr hcmdLength, fun cmd ↦ (hargs cmd).mpr hargsLength,
      fun cmd args ↦ terminated_of_holdsString (parseArgs_cmd_holds h cmd args) hcmdLength,
      fun cmd args ↦ terminated_of_holdsString (parseArgs_args_holds h cmd args) hargsLength,
      fun cmd args ↦ ?_⟩
    simp only [strncpy_parseArgs h]
    exact (storesWithin_storeString_iff (fun _ _ _ ↦ rfl) _).mpr hargsLength

theorem parseArgs_within_exact_catLine : ParsesWithin (lineMemory catLine) ↔
    (catLine.takeWhile (· ≠ spaceChar)).length ≤ 127 ∧
      ((catLine.dropWhile (· ≠ spaceChar)).filter (· ≠ spaceChar)).length ≤ 127 :=
  parseArgs_within_exact ⟨lineMemory_holdsString (by simp [catLine]), by norm_num [catLine]⟩

/-- A command of 128 characters. -/
def longLine : List UInt8 := List.replicate 128 97

/-- The zero behind a command of 128 characters is stored behind the array. -/
theorem parseArgs_not_always_within : ¬ ParsesWithin (lineMemory longLine) := by
  have h : CommandString (lineMemory longLine) longLine :=
    ⟨lineMemory_holdsString fun c hc ↦ by simp [List.eq_of_mem_replicate hc],
      by simp [longLine]⟩
  intro hwithin
  have hcmd := hwithin.cmd_within (fun _ ↦ 0)
  simp only [parseArgs_eq h] at hcmd
  have hlength := (storesWithin_storeString_iff storesWithin_memset _).mp hcmd
  have hword : parsedCmd longLine = longLine := List.takeWhile_eq_self_iff.mpr
    fun c hc ↦ by simp [List.eq_of_mem_replicate hc, spaceChar]
  rw [hword, longLine, List.length_replicate] at hlength
  omega

end Bounds

end Sp18.Kernel
