import Mathlib.Data.List.Infix
import Mathlib.Data.List.TakeWhile

/-!
# Lines of a text

A program that reads a text through a buffer of `size` characters looks at one line after the other,
and at a line that does not fit into the buffer in pieces. `cutLines` are these lines and pieces.
Where every line fits, they are the lines of the text, up to empty ones (`filter_cutLines`).

`matchingLines` is what such a program prints: something for each line in which a word occurs. Empty
lines do not matter for it (`matchingLines_filter`), so that it is the same for the lines of the
text as for those the program looks at (`matchingLines_cutLines`).
-/

set_option autoImplicit false
set_option relaxedAutoImplicit false

namespace Sp18.Foundation

variable {Char : Type*} [DecidableEq Char] {newline : Char} {size : ℕ}

/-- The lines of a text, one that is longer than `size` cut into pieces. -/
def cutLines (newline : Char) (size : ℕ) (text : List Char) : List (List Char) :=
  if _h : text = [] ∨ size = 0 then []
  else
    let line := (text.take size).takeWhile (· ≠ newline)
    line :: cutLines newline size
      (text.drop (if line.length < size then line.length + 1 else size))
termination_by text.length
decreasing_by
  have hpos := List.length_pos_iff.mpr (not_or.mp _h).1
  rw [List.length_drop]
  split_ifs <;> omega

/-- Something is printed for each of the lines in which the word occurs. -/
def matchingLines (word : List Char) (shown : List Char → List Char)
    (lines : List (List Char)) : List Char :=
  lines.flatMap fun line ↦ if word <:+: line then shown line else []

@[simp] theorem cutLines_nil (newline : Char) (size : ℕ) : cutLines newline size [] = [] := by
  rw [cutLines, dif_pos (Or.inl rfl)]

theorem takeWhile_take_of_notMem {line rest : List Char} (hline : newline ∉ line)
    (hlength : line.length < size) :
    ((line ++ newline :: rest).take size).takeWhile (fun c ↦ c ≠ newline) = line := by
  obtain ⟨room, hroom⟩ := Nat.exists_eq_add_of_lt hlength
  rw [List.take_append, List.take_of_length_le hlength.le, hroom,
    Nat.add_assoc, Nat.add_sub_cancel_left, List.take_succ_cons]
  have hall : ∀ c ∈ line, decide (c ≠ newline) = true := by
    intro c hc
    exact decide_eq_true (ne_of_mem_of_not_mem hc hline)
  rw [List.takeWhile_append_of_pos hall, List.takeWhile_cons_of_neg (by simp), List.append_nil]

/-- A line that ends within the buffer. -/
theorem cutLines_line {line rest : List Char} (hline : newline ∉ line)
    (hlength : line.length < size) :
    cutLines newline size (line ++ newline :: rest) = line :: cutLines newline size rest := by
  rw [cutLines, dif_neg (not_or.mpr ⟨by simp, by omega⟩)]
  simp only [takeWhile_take_of_notMem hline hlength, if_pos hlength]
  rw [← List.drop_drop, List.drop_left, List.drop_one, List.tail_cons]

theorem takeWhile_of_notMem {line : List Char} (hline : newline ∉ line) :
    line.takeWhile (fun c ↦ c ≠ newline) = line := by
  rw [List.takeWhile_eq_self_iff]
  exact fun c hc ↦ decide_eq_true (ne_of_mem_of_not_mem hc hline)

/-- A piece that fills the buffer. -/
theorem cutLines_full {line rest : List Char} (hline : newline ∉ line)
    (hlength : line.length = size) (hsize : 0 < size) :
    cutLines newline size (line ++ rest) = line :: cutLines newline size rest := by
  have hne : line ++ rest ≠ [] := by
    intro hnil
    rw [(List.append_eq_nil_iff.mp hnil).1] at hlength
    simp only [List.length_nil] at hlength
    omega
  rw [cutLines, dif_neg (not_or.mpr ⟨hne, by omega⟩)]
  simp only [← hlength, List.take_left, takeWhile_of_notMem hline, lt_irrefl, if_false,
    List.drop_left]

/-- A last line without an end. -/
theorem cutLines_last {line : List Char} (hline : newline ∉ line) (hlength : line.length ≤ size)
    (hne : line ≠ []) : cutLines newline size line = [line] := by
  have hpos := List.length_pos_iff.mpr hne
  rw [cutLines, dif_neg (not_or.mpr ⟨hne, by omega⟩)]
  simp only [List.take_of_length_le hlength, takeWhile_of_notMem hline]
  rw [List.drop_eq_nil_of_le (by split_ifs <;> omega), cutLines_nil]

/-- Where the lines of a text fit into the buffer, they are what it is cut into, up to empty
lines. -/
theorem filter_cutLines {text : List Char}
    (hfits : ∀ line ∈ text.splitOn newline, line.length ≤ size) (hsize : 0 < size) :
    (cutLines newline size text).filter (· ≠ []) = (text.splitOn newline).filter (· ≠ []) := by
  induction hn : text.length using Nat.strong_induction_on generalizing text with
  | _ n ih =>
    subst hn
    by_cases hmem : newline ∈ text
    · obtain ⟨line, rest, rfl, hline⟩ := List.eq_append_cons_of_mem hmem
      rw [List.splitOn_append_cons_self_of_not_mem hline] at hfits ⊢
      have hlength := hfits line List.mem_cons_self
      have hrest := fun l hl ↦ hfits l (List.mem_cons_of_mem _ hl)
      have hless : rest.length < (line ++ newline :: rest).length := by
        rw [List.length_append, List.length_cons]
        omega
      rcases hlength.lt_or_eq with hlt | heq
      · rw [cutLines_line hline hlt, List.filter_cons, List.filter_cons,
          ih rest.length hless hrest rfl]
      · -- the end of a line of `size` characters is taken for an empty line
        have hempty : cutLines newline size (newline :: rest) = [] :: cutLines newline size rest :=
          cutLines_line (List.not_mem_nil) (by simpa using hsize)
        rw [cutLines_full hline heq hsize, hempty, List.filter_cons, List.filter_cons,
          List.filter_cons, ih rest.length hless hrest rfl]
        simp
    · rw [List.splitOn_eq_singleton hmem] at hfits ⊢
      rcases List.eq_nil_or_concat' text with rfl | ⟨front, c, htext⟩
      · simp
      · rw [cutLines_last hmem (hfits text List.mem_cons_self) (by simp [htext])]

section Matching

variable {word : List Char} {shown : List Char → List Char}

theorem matchingLines_cons (line : List Char) (lines : List (List Char)) :
    matchingLines word shown (line :: lines) =
      (if word <:+: line then shown line else []) ++ matchingLines word shown lines :=
  List.flatMap_cons

/-- A word that is not empty does not occur in an empty line. -/
theorem matchingLines_filter (hword : word ≠ []) (lines : List (List Char)) :
    matchingLines word shown (lines.filter (· ≠ [])) = matchingLines word shown lines := by
  induction lines with
  | nil => rfl
  | cons line lines ih =>
    by_cases hline : line = []
    · have hnot : ¬ word <:+: line := by
        rw [hline, List.infix_nil]
        exact hword
      rw [List.filter_cons_of_neg (by simp [hline]), ih, matchingLines_cons, if_neg hnot,
        List.nil_append]
    · rw [List.filter_cons_of_pos (by simp [hline]), matchingLines_cons, matchingLines_cons, ih]

/-- Where the lines of a text fit into the buffer, something is printed for each line of the text.
-/
theorem matchingLines_cutLines (hword : word ≠ []) {text : List Char}
    (hfits : ∀ line ∈ text.splitOn newline, line.length ≤ size) (hsize : 0 < size) :
    matchingLines word shown (cutLines newline size text) =
      matchingLines word shown (text.splitOn newline) := by
  rw [← matchingLines_filter hword, filter_cutLines hfits hsize, matchingLines_filter hword]

end Matching

end Sp18.Foundation
