import Sp18.Foundation.TextLines
import Sp18.UserPrograms.Reading

/-!
# `grep`: one line and one file

`do_one_file` of `ece391grep.c` reads a file into a buffer of 1024 bytes, of which `last` are in
use. It looks at one line of the buffer after the other (`lineLoop`), and moves what is left of the
last line to the start of the buffer before it reads on (`fileLoop`). The byte behind the buffer is
there for the zero that ends a line; while the buffer is read into, it must not be a newline.

`searchLoop` compares the first character of the string, a `char`, with a byte of the line, an
`uint8_t`: a string that starts with a character from 128 on is found nowhere. Apart from this, a
line in which the string occurs is printed, up to the first zero in it (`searchLoop_eq`).
-/

set_option autoImplicit false
set_option relaxedAutoImplicit false

namespace Sp18.UserPrograms

open Foundation Kernel

/-! ### The program -/

/-- The loop that looks for the end of a line, which takes at most `last - line_start` rounds. -/
def lineEndLoop (data : ℤ → UInt8) (last : ℤ) : ℕ → ℤ → ℤ
  | 0, lineEnd => lineEnd
  | remaining + 1, lineEnd =>
    if lineEnd < last ∧ newlineChar ≠ data lineEnd then
      lineEndLoop data last remaining (lineEnd + 1)
    else lineEnd

/-- The loop that searches a line, from position `check` on, with `remaining` positions left. -/
def searchLoop (s fname : ℕ → UInt8) (data : ℤ → UInt8) (lineStart : ℤ) :
    ℕ → ℤ → Task → Option Task
  | 0, _, task => some task
  | remaining + 1, check, task =>
    if char (s 0) = (data check).toNat ∧
        0 = ece391Strncmp (fun i ↦ data (check + i)) s (ece391Strlen s) then
      (ece391Fdputs task 1 fname).bind fun task ↦
        (ece391Fdputs task 1 (literal ":")).bind fun task ↦
          (ece391Fdputs task 1 fun i ↦ data (lineStart + i)).bind fun task ↦
            ece391Fdputs task 1 (literal "\n")
    else searchLoop s fname data lineStart remaining (check + 1) task

/-- The inner loop of `do_one_file`: the task, the buffer and `last` when it ends. -/
def lineLoop (s fname : ℕ → UInt8) (cnt last : ℤ) :
    ℕ → Task → (ℤ → UInt8) → ℤ → Option (Task × (ℤ → UInt8) × ℤ)
  | 0, _, _, _ => none
  | fuel + 1, task, data, lineStart =>
    let lineEnd := lineEndLoop data last (last - lineStart).toNat lineStart
    let cut := Function.update data lineEnd 0
    if newlineChar ≠ data lineEnd ∧ 0 ≠ cnt ∧ lineStart ≠ 0 then
      some (task, ece391Strcpy cut 0 lineStart 4294967296, last - lineStart)
    else
      match searchLoop s fname cut lineStart (lineEnd - lineStart).toNat lineStart task with
      | none => none
      | some task =>
        let lineStart := lineEnd + 1
        if lineStart ≥ last then some (task, cut, 0)
        else lineLoop s fname cnt last fuel task cut lineStart

/-- The outer loop of `do_one_file`: -1 if a read fails. -/
def fileLoop (img : Image) (s fname : ℕ → UInt8) (fd : ℤ) :
    ℕ → Task → (ℤ → UInt8) → ℤ → Option (ℤ × Task)
  | 0, _, _, _ => none
  | fuel + 1, task, data, last =>
    match task.read img fd (fun k ↦ data (last + k)) (1024 - last) with
    | none => none
    | some (cnt, buf, task) =>
      let data := fun k ↦ buf (k - last)
      if -1 = cnt then
        (ece391Fdputs task 1 (literal "file read failed\n")).map fun task ↦ (-1, task)
      else
        let last := last + cnt
        match lineLoop s fname cnt last (last.toNat + 1) task data 0 with
        | none => none
        | some (task, data, last) =>
          if 0 = cnt then some (0, task) else fileLoop img s fname fd fuel task data last

/-- `do_one_file`. The array `data` is not initialised. -/
def doOneFile (img : Image) (s fname : ℕ → UInt8) (fuel : ℕ) (task : Task) (data : ℤ → UInt8) :
    Option (ℤ × Task) :=
  let (fd, task) := task.openFile img fname
  if -1 = fd then
    (ece391Fdputs task 1 (literal "file open failed\n")).map fun task ↦ (-1, task)
  else
    match fileLoop img s fname fd fuel task data 0 with
    | none => none
    | some (value, task) =>
      if value = -1 then some (-1, task)
      else
        match task.close fd with
        | none => none
        | some (closed, task) =>
          if -1 = closed then
            (ece391Fdputs task 1 (literal "file close failed\n")).map fun task ↦ (-1, task)
          else some (0, task)

/-! ### A line -/

/-- What is printed of a line in which the string occurs. -/
def shownLine (name word line : List UInt8) : List UInt8 :=
  if (word.headD 0).toNat < 128 then
    name ++ bytesOf ":" ++ line.takeWhile (· ≠ 0) ++ bytesOf "\n"
  else []

/-- The bytes of a line stand in the buffer, with a zero behind them. -/
structure LineAt (data : ℤ → UInt8) (lineStart : ℤ) (text : List UInt8) : Prop where
  byte : ∀ i (h : i < text.length), data (lineStart + i) = text[i]
  terminated : data (lineStart + text.length) = 0

section Line

variable {data : ℤ → UInt8} {lineStart : ℤ} {s fname : ℕ → UInt8} {name word text : List UInt8}

theorem lineEndLoop_eq {tail : List UInt8} (h : valuesAt data lineStart tail.length = tail) :
    lineEndLoop data (lineStart + tail.length) tail.length lineStart =
      lineStart + (tail.takeWhile fun c ↦ c ≠ newlineChar).length := by
  induction tail generalizing lineStart with
  | nil => rw [List.takeWhile_nil, List.length_nil, Nat.cast_zero, add_zero]; rfl
  | cons c tail ih =>
    rw [List.length_cons, valuesAt_cons] at h
    obtain ⟨hc, htail⟩ := List.cons.inj h
    rw [List.length_cons, lineEndLoop, hc]
    by_cases hend : c = newlineChar
    · rw [if_neg (by simp [hend]), List.takeWhile_cons_of_neg (by simp [hend]), List.length_nil,
        Nat.cast_zero, add_zero]
    · have hlast : lineStart + ((tail.length + 1 : ℕ) : ℤ) = lineStart + 1 + tail.length := by
        push_cast
        ring
      rw [if_pos ⟨by push_cast; omega, Ne.symm hend⟩, hlast, ih htail,
        List.takeWhile_cons_of_pos (by simpa using hend), List.length_cons]
      push_cast
      ring

/-- `ece391_strncmp` with a string of the length that is compared. -/
theorem ece391StrncmpLoop_eq_zero_iff (s1 : ℕ → UInt8) (hword : HoldsString s word) {i n : ℕ}
    (hn : i + n = word.length) :
    ece391StrncmpLoop s1 s i n = 0 ↔ ∀ k (h : k < word.length), i ≤ k → s1 k = word[k] := by
  induction n generalizing i with
  | zero => exact iff_of_true rfl fun k hk hik ↦ by omega
  | succ n ih =>
    have hi : i < word.length := by omega
    have hne : word[i] ≠ 0 := hword.nonzero _ (List.getElem_mem hi)
    rw [ece391StrncmpLoop, hword.char i hi]
    by_cases hsame : s1 i = word[i]
    · rw [if_pos hsame, hsame, if_neg hne, ih (by omega)]
      refine ⟨fun hrest k hk hik ↦ ?_, fun hall k hk hik ↦ hall k hk (by omega)⟩
      rcases hik.lt_or_eq with hlt | rfl
      · exact hrest k hk hlt
      · exact hsame
    · rw [if_neg hsame]
      refine iff_of_false (fun hzero ↦ hsame ?_) fun hall ↦ hsame (hall i hi le_rfl)
      rw [← UInt8.toNat_inj]
      omega

/-- The string stands at a position of the line. -/
theorem ece391Strncmp_eq_zero_iff (hline : LineAt data lineStart text)
    (hword : HoldsString s word) (hlength : word.length < 2 ^ 31) {j : ℕ} (hj : j ≤ text.length) :
    0 = ece391Strncmp (fun i ↦ data (lineStart + j + i)) s (ece391Strlen s) ↔
      word <+: text.drop j := by
  have hstrlen : ece391Strlen s = word.length := by
    rw [ece391Strlen_eq hword, min_eq_left (by omega)]
  rw [eq_comm, ece391Strncmp, hstrlen, ece391StrncmpLoop_eq_zero_iff _ hword (Nat.zero_add _)]
  have hshift : ∀ k : ℕ, lineStart + j + k = lineStart + ((j + k : ℕ) : ℤ) := by
    intro k
    push_cast
    ring
  rw [List.prefix_iff_getElem?]
  constructor
  · intro hall k hk
    have hinside : j + k < text.length := by
      by_contra hbehind
      -- the word would go on behind the zero
      have hzero := hall (text.length - j) (by omega) (Nat.zero_le _)
      rw [hshift, Nat.add_sub_cancel' hj, hline.terminated] at hzero
      exact hword.nonzero _ (List.getElem_mem (by omega)) hzero.symm
    rw [List.getElem?_drop, List.getElem?_eq_getElem hinside, ← hline.byte _ hinside, ← hshift,
      hall k hk (Nat.zero_le k)]
  · intro hstarts k hk _
    have hk' := hstarts k hk
    rw [List.getElem?_drop] at hk'
    obtain ⟨hinside, hbyte⟩ := List.getElem?_eq_some_iff.mp hk'
    rw [hshift, hline.byte _ hinside, hbyte]

/-- A `char` and an `uint8_t` with the same bits are equal below 128 only. -/
theorem char_eq_toNat_iff (c : UInt8) : char c = c.toNat ↔ c.toNat < 128 := by
  have hlt := c.toNat_lt
  rw [char, i8]
  omega

/-- The test of the loop, at a position of the line. -/
theorem searchTest_iff (hline : LineAt data lineStart text) (hword : HoldsString s word)
    (hlength : word.length < 2 ^ 31) (hne : word ≠ []) {j : ℕ} (hj : j < text.length) :
    (char (s 0) = (data (lineStart + j)).toNat ∧
        0 = ece391Strncmp (fun i ↦ data (lineStart + j + i)) s (ece391Strlen s)) ↔
      (word.headD 0).toNat < 128 ∧ word <+: text.drop j := by
  rw [ece391Strncmp_eq_zero_iff hline hword hlength hj.le]
  refine and_congr_left fun hstarts ↦ ?_
  obtain ⟨c, rest, rfl⟩ := List.exists_cons_of_ne_nil hne
  have hfirst : s 0 = c := hword.char 0 (Nat.succ_pos _)
  have hbyte : data (lineStart + j) = c := by
    rw [hline.byte j hj]
    rw [List.drop_eq_getElem_cons hj, List.cons_prefix_cons] at hstarts
    exact hstarts.1.symm
  rw [hfirst, hbyte, char_eq_toNat_iff, List.headD_cons]

/-- The text of a line up to its first zero is a string in the buffer. -/
theorem LineAt.holdsString (h : LineAt data lineStart text) :
    HoldsString (fun i ↦ data (lineStart + i)) (text.takeWhile (· ≠ 0)) := by
  have hstarts : (text.takeWhile fun c ↦ c ≠ 0) <+: text := List.takeWhile_prefix _
  refine ⟨fun i hi ↦ ?_, fun c hc ↦ ?_, ?_⟩
  · rw [hstarts.getElem hi]
    exact h.byte i _
  · exact of_decide_eq_true (List.mem_takeWhile_imp (p := fun c : UInt8 ↦ decide (c ≠ 0)) hc)
  · have hsplit := List.takeWhile_append_dropWhile (p := fun c : UInt8 ↦ decide (c ≠ 0)) (l := text)
    rcases dropWhile_ne_eq_nil_or_cons 0 text with hnil | ⟨rest, hcons⟩
    · rw [hnil, List.append_nil] at hsplit
      rw [hsplit]
      exact h.terminated
    · -- the line goes on behind the zero
      rw [hcons] at hsplit
      generalize (text.takeWhile fun c ↦ decide (c ≠ 0)) = front at *
      subst hsplit
      rw [h.byte front.length (by simp), List.getElem_append_right le_rfl]
      simp

section Search

variable {task : Task} (hpcb : task.pcb.WellFormed) (hline : LineAt data lineStart text)
  (hword : HoldsString s word) (hname : HoldsString fname name) (hne : word ≠ [])
  (hwordLength : word.length < 2 ^ 31) (hnameLength : name.length < 2 ^ 31)
  (htextLength : text.length < 2 ^ 31)

include hpcb hline hname hnameLength htextLength in
/-- The four calls that print a line. -/
theorem showLine_eq :
    ((ece391Fdputs task 1 fname).bind fun task ↦
      (ece391Fdputs task 1 (literal ":")).bind fun task ↦
        (ece391Fdputs task 1 fun i ↦ data (lineStart + i)).bind fun task ↦
          ece391Fdputs task 1 (literal "\n")) =
      some (task.printed
        (name ++ bytesOf ":" ++ text.takeWhile (· ≠ 0) ++ bytesOf "\n")) := by
  have hshort : (text.takeWhile fun c ↦ c ≠ 0).length < 2 ^ 31 :=
    (List.takeWhile_prefix _).length_le.trans_lt htextLength
  have hwell : ∀ bytes, (task.printed bytes).pcb.WellFormed := fun bytes ↦ by
    rw [Task.printed_pcb]
    exact hpcb
  rw [ece391Fdputs_eq hpcb hname hnameLength, Option.bind_some,
    ece391Fdputs_literal (hwell _) (by decide +kernel) (by decide +kernel), Option.bind_some,
    Task.printed_append, ece391Fdputs_eq (hwell _) hline.holdsString hshort, Option.bind_some,
    Task.printed_append, ece391Fdputs_literal (hwell _) (by decide +kernel) (by decide +kernel),
    Task.printed_append]

include hpcb hline hword hname hne hwordLength hnameLength htextLength in
/-- From a position of the line on, the loop prints the line if the string occurs in the rest. -/
theorem searchLoop_eq {j remaining : ℕ} (hj : j + remaining = text.length) :
    searchLoop s fname data lineStart remaining (lineStart + j) task =
      some (task.printed (if word <:+: text.drop j then shownLine name word text else [])) := by
  induction remaining generalizing j with
  | zero =>
    have hnot : ¬ word <:+: text.drop j := by
      rw [List.drop_eq_nil_of_le (by omega), List.infix_nil]
      exact hne
    rw [if_neg hnot]
    rfl
  | succ remaining ih =>
    have hlt : j < text.length := by omega
    have hnext := ih (by omega : j + 1 + remaining = text.length)
    have htest := searchTest_iff hline hword hwordLength hne hlt
    have hoccurs : word <:+: text.drop j ↔ word <+: text.drop j ∨ word <:+: text.drop (j + 1) := by
      rw [List.drop_eq_getElem_cons hlt, List.infix_cons_iff]
    rw [searchLoop]
    by_cases hfound : (word.headD 0).toNat < 128 ∧ word <+: text.drop j
    · rw [if_pos (htest.mpr hfound), showLine_eq hpcb hline hname hnameLength htextLength,
        if_pos (hoccurs.mpr (Or.inl hfound.2)), shownLine, if_pos hfound.1]
    · have haddress : lineStart + j + 1 = lineStart + ((j + 1 : ℕ) : ℤ) := by
        push_cast
        ring
      rw [if_neg (fun h ↦ hfound (htest.mp h)), haddress, hnext]
      by_cases hascii : (word.headD 0).toNat < 128
      · have hstarts : ¬ word <+: text.drop j := fun h ↦ hfound ⟨hascii, h⟩
        simp only [hoccurs, hstarts, false_or]
      · rw [shownLine, if_neg hascii, ite_self, ite_self]

end Search

end Line

end Sp18.UserPrograms
