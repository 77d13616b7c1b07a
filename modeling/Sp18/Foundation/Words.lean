import Mathlib.Data.List.TakeWhile

/-!
# The words of a line

A line is a list of characters, and one of them separates its words. `words sep l` are the words,
however many separators stand before, between and behind them. `firstWord sep l` is the first one,
and `afterWord sep l` is the rest of the line from the second word on.

The line can be put together again from these two parts, as far as its words go
(`words_firstWord_append`). A list has lost its words when its separators are dropped:
`filter_eq_dropWhile_iff` says when nothing is lost.
-/

set_option autoImplicit false
set_option relaxedAutoImplicit false

namespace Sp18.Foundation

variable {α : Type*} [DecidableEq α] (sep : α)

/-- The words of a line. -/
def words (l : List α) : List (List α) := (l.splitOn sep).filter (· ≠ [])

/-- The first word of a line. -/
def firstWord (l : List α) : List α := (l.dropWhile (· = sep)).takeWhile (· ≠ sep)

/-- What follows the first word, from the next word on. -/
def afterWord (l : List α) : List α :=
  ((l.dropWhile (· = sep)).dropWhile (· ≠ sep)).dropWhile (· = sep)

variable {sep} {l w : List α}

/-! ### Words -/

@[simp] theorem words_nil : words sep [] = [] := rfl

theorem words_append_cons (l l' : List α) :
    words sep (l ++ sep :: l') = words sep l ++ words sep l' := by
  rw [words, List.splitOn_append_cons_self, List.filter_append]
  rfl

/-- A separator at the start of a line does not change its words. -/
@[simp] theorem words_cons_self (l : List α) : words sep (sep :: l) = words sep l :=
  words_append_cons [] l

theorem words_dropWhile (l : List α) : words sep (l.dropWhile (· = sep)) = words sep l := by
  induction l with
  | nil => rfl
  | cons c l ih =>
    by_cases hc : c = sep
    · subst hc
      rw [List.dropWhile_cons_of_pos (by simp), ih, words_cons_self]
    · rw [List.dropWhile_cons_of_neg (by simpa using hc)]

/-- A list without separators is one word. -/
theorem words_of_notMem (hw : w ≠ []) (hsep : sep ∉ w) : words sep w = [w] := by
  rw [words, List.splitOn_eq_singleton hsep]
  simp [hw]

/-! ### The first word and the rest -/

theorem notMem_takeWhile_ne (sep : α) (l : List α) : sep ∉ l.takeWhile (· ≠ sep) := by
  intro hmem
  simpa using List.mem_takeWhile_imp hmem

theorem notMem_firstWord (sep : α) (l : List α) : sep ∉ firstWord sep l :=
  notMem_takeWhile_ne sep _

/-- A line with another character than the separator has a first word. -/
theorem firstWord_ne_nil (h : ∃ c ∈ l, c ≠ sep) : firstWord sep l ≠ [] := by
  obtain ⟨c, hc, hne⟩ := h
  induction l with
  | nil => cases hc
  | cons d l ih =>
    by_cases hd : d = sep
    · have hrest : c ∈ l := (List.mem_cons.mp hc).resolve_left fun hcd ↦ hne (hcd.trans hd)
      rw [firstWord, List.dropWhile_cons_of_pos (by simpa using hd)]
      exact ih hrest
    · rw [firstWord, List.dropWhile_cons_of_neg (by simpa using hd),
        List.takeWhile_cons_of_pos (by simpa using hd)]
      exact List.cons_ne_nil _ _

/-- What follows the first word starts with a separator, unless the line ends there. -/
theorem dropWhile_ne_eq_nil_or_cons (sep : α) (l : List α) :
    l.dropWhile (· ≠ sep) = [] ∨ ∃ l', l.dropWhile (· ≠ sep) = sep :: l' := by
  cases hdrop : l.dropWhile (· ≠ sep) with
  | nil => exact Or.inl rfl
  | cons c l' =>
    have hne : l.dropWhile (· ≠ sep) ≠ [] := by
      rw [hdrop]
      exact List.cons_ne_nil c l'
    have hhead := List.head_dropWhile_not (fun x : α ↦ decide (x ≠ sep)) hne
    simp only [hdrop, List.head_cons] at hhead
    exact Or.inr ⟨l', by simpa using hhead⟩

/-- The first word and the words of the rest are the words of the line. -/
theorem words_eq_cons (h : ∃ c ∈ l, c ≠ sep) :
    words sep l = firstWord sep l :: words sep (afterWord sep l) := by
  have hword := words_of_notMem (firstWord_ne_nil h) (notMem_firstWord sep l)
  have hline : firstWord sep l ++ (l.dropWhile (· = sep)).dropWhile (· ≠ sep) =
      l.dropWhile (· = sep) := List.takeWhile_append_dropWhile
  rw [← words_dropWhile l, ← hline, afterWord, words_dropWhile]
  rcases dropWhile_ne_eq_nil_or_cons sep (l.dropWhile (· = sep)) with hnil | ⟨l', hcons⟩
  · rw [hnil, List.append_nil, hword, words_nil]
  · rw [hcons, words_append_cons, hword, words_cons_self]
    rfl

/-- The words of a line can be recovered from the first word and the rest. -/
theorem words_firstWord_append (h : ∃ c ∈ l, c ≠ sep) :
    words sep (firstWord sep l ++ sep :: afterWord sep l) = words sep l := by
  rw [words_append_cons, words_of_notMem (firstWord_ne_nil h) (notMem_firstWord sep l),
    words_eq_cons h]
  rfl

/-! ### Scanning a line from its start -/

/-- The characters up to the first separator are the first word if the line starts with it. -/
theorem takeWhile_eq_firstWord_iff (h : ∃ c ∈ l, c ≠ sep) :
    l.takeWhile (· ≠ sep) = firstWord sep l ↔ l.head? ≠ some sep := by
  cases l with
  | nil => exact absurd rfl (firstWord_ne_nil h)
  | cons c l =>
    by_cases hc : c = sep
    · rw [List.takeWhile_cons_of_neg (by simpa using hc)]
      exact iff_of_false (firstWord_ne_nil h).symm (by simpa using hc)
    · rw [firstWord, List.dropWhile_cons_of_neg (by simpa using hc)]
      exact iff_of_true rfl (by simpa using hc)

/-- The rest of a line that starts with its first word. -/
theorem afterWord_of_head (h : l.head? ≠ some sep) :
    afterWord sep l = (l.dropWhile (· ≠ sep)).dropWhile (· = sep) := by
  cases l with
  | nil => rfl
  | cons c l =>
    have hc : ¬ c = sep := by simpa using h
    rw [afterWord, List.dropWhile_cons_of_neg (by simpa using hc)]

theorem filter_dropWhile (sep : α) (l : List α) :
    (l.dropWhile (· = sep)).filter (· ≠ sep) = l.filter (· ≠ sep) := by
  induction l with
  | nil => rfl
  | cons c l ih =>
    by_cases hc : c = sep
    · rw [List.dropWhile_cons_of_pos (by simpa using hc), ih,
        List.filter_cons_of_neg (by simpa using hc)]
    · rw [List.dropWhile_cons_of_neg (by simpa using hc)]

/-- Dropping all separators of a line is no more than dropping the first ones if there are no
others. -/
theorem filter_eq_dropWhile_iff (sep : α) (l : List α) :
    l.filter (· ≠ sep) = l.dropWhile (· = sep) ↔ sep ∉ l.dropWhile (· = sep) := by
  rw [← filter_dropWhile, List.filter_eq_self]
  constructor
  · intro h hmem
    simpa using h sep hmem
  · intro hnot c hc
    simpa using fun heq : c = sep ↦ hnot (heq ▸ hc)

end Sp18.Foundation
