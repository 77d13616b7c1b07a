import Mathlib.Data.List.Basic
import Mathlib.Data.List.GetD
import Mathlib.Data.List.TakeWhile
import Mathlib.Order.Lattice

/-!
# Strings that end at a zero

`stringAt s i n` is the string at position `i` of a memory, cut off after `n` characters: what a
loop sees that stops at a zero and counts to `n`. A memory `HoldsString` a list of characters if it
spells the list and a zero behind it.

A shorter limit cuts the string off (`stringAt_take`), and a string is what a memory holds, as far
as the limit goes (`HoldsString.stringAt`).
-/

set_option autoImplicit false
set_option relaxedAutoImplicit false

namespace Sp18.Foundation

variable {Char : Type*} [Zero Char] [DecidableEq Char]

/-- The characters from position `i` up to a zero, at most `n` of them. -/
def stringAt (s : ℕ → Char) (i : ℕ) : ℕ → List Char
  | 0 => []
  | n + 1 => if s i = 0 then [] else s i :: stringAt s (i + 1) n

/-- The memory holds these characters and a zero behind them. -/
structure HoldsString (s : ℕ → Char) (name : List Char) : Prop where
  char : ∀ i (h : i < name.length), s i = name[i]
  nonzero : ∀ c ∈ name, c ≠ 0
  terminated : s name.length = 0

variable {s s' : ℕ → Char} {i n : ℕ}

@[simp] theorem stringAt_zero (s : ℕ → Char) (i : ℕ) : stringAt s i 0 = [] := rfl

theorem stringAt_of_zero (h : s i = 0) (n : ℕ) : stringAt s i n = [] := by
  cases n with
  | zero => rfl
  | succ n => rw [stringAt, if_pos h]

theorem stringAt_of_ne_zero (h : s i ≠ 0) (n : ℕ) :
    stringAt s i (n + 1) = s i :: stringAt s (i + 1) n := by
  rw [stringAt, if_neg h]

theorem length_stringAt_le (s : ℕ → Char) (i n : ℕ) : (stringAt s i n).length ≤ n := by
  induction n generalizing i with
  | zero => exact le_rfl
  | succ n ih =>
    by_cases h : s i = 0
    · rw [stringAt_of_zero h]
      exact Nat.zero_le _
    · rw [stringAt_of_ne_zero h, List.length_cons]
      exact Nat.succ_le_succ (ih (i + 1))

theorem ne_zero_of_mem_stringAt {c : Char} (h : c ∈ stringAt s i n) : c ≠ 0 := by
  induction n generalizing i with
  | zero => cases h
  | succ n ih =>
    by_cases hzero : s i = 0
    · rw [stringAt_of_zero hzero] at h
      cases h
    · rw [stringAt_of_ne_zero hzero, List.mem_cons] at h
      rcases h with rfl | h
      · exact hzero
      · exact ih h

theorem getElem_stringAt {k : ℕ} (h : k < (stringAt s i n).length) :
    (stringAt s i n)[k] = s (i + k) := by
  induction n generalizing i k with
  | zero => exact absurd h (Nat.not_lt_zero k)
  | succ n ih =>
    by_cases hzero : s i = 0
    · simp only [stringAt_of_zero hzero, List.length_nil, Nat.not_lt_zero] at h
    · simp only [stringAt_of_ne_zero hzero] at h ⊢
      cases k with
      | zero => rfl
      | succ k =>
        rw [List.length_cons] at h
        rw [List.getElem_cons_succ, ih (Nat.lt_of_succ_lt_succ h), Nat.add_right_comm,
          Nat.add_assoc]

/-- A string that is shorter than its limit ends at a zero. -/
theorem stringAt_terminated (h : (stringAt s i n).length < n) :
    s (i + (stringAt s i n).length) = 0 := by
  induction n generalizing i with
  | zero => exact absurd h (Nat.not_lt_zero _)
  | succ n ih =>
    by_cases hzero : s i = 0
    · rw [stringAt_of_zero hzero]
      exact hzero
    · rw [stringAt_of_ne_zero hzero, List.length_cons] at h ⊢
      have hrest := ih (Nat.lt_of_succ_lt_succ h)
      rwa [Nat.add_right_comm, Nat.add_assoc] at hrest

/-- A string ends at a zero at the latest. -/
theorem add_length_stringAt_le {k : ℕ} (hzero : s k = 0) (hle : i ≤ k) (n : ℕ) :
    i + (stringAt s i n).length ≤ k := by
  by_contra hlong
  have hlt : k - i < (stringAt s i n).length := by omega
  have hchar : (stringAt s i n)[k - i] = 0 := by
    rw [getElem_stringAt hlt, Nat.add_sub_cancel' hle, hzero]
  exact ne_zero_of_mem_stringAt (List.getElem_mem hlt) hchar

/-- A shorter limit cuts the string off. -/
theorem stringAt_take {m : ℕ} (h : m ≤ n) : stringAt s i m = (stringAt s i n).take m := by
  induction m generalizing i n with
  | zero => rfl
  | succ m ih =>
    obtain ⟨n, rfl⟩ := Nat.exists_eq_add_of_le' (Nat.lt_of_lt_of_le m.succ_pos h)
    by_cases hzero : s i = 0
    · rw [stringAt_of_zero hzero, stringAt_of_zero hzero, List.take_nil]
    · rw [stringAt_of_ne_zero hzero, stringAt_of_ne_zero hzero, List.take_succ_cons,
        ih (Nat.le_of_succ_le_succ h)]

/-- Two memories that agree up to the limit spell the same string. -/
theorem stringAt_congr (h : ∀ k, i ≤ k → k < i + n → s k = s' k) :
    stringAt s i n = stringAt s' i n := by
  induction n generalizing i with
  | zero => rfl
  | succ n ih =>
    rw [stringAt, stringAt, h i le_rfl (by omega), ih fun k hlow hhigh ↦ h k (by omega) (by omega)]

namespace HoldsString

variable {name : List Char}

/-- What a memory holds is the string at its start. -/
theorem stringAt (h : HoldsString s name) (n : ℕ) : stringAt s 0 n = name.take n := by
  have hfrom : ∀ k ≤ name.length, ∀ n, Foundation.stringAt s k n = (name.drop k).take n := by
    intro k hk n
    induction n generalizing k with
    | zero => rw [stringAt_zero, List.take_zero]
    | succ n ih =>
      rcases hk.lt_or_eq with hlt | rfl
      · have hne : s k ≠ 0 := by
          rw [h.char k hlt]
          exact h.nonzero _ (List.getElem_mem hlt)
        rw [stringAt_of_ne_zero hne, ih (k + 1) hlt, h.char k hlt,
          List.drop_eq_getElem_cons hlt, List.take_succ_cons]
      · rw [stringAt_of_zero h.terminated, List.drop_length, List.take_nil]
  rw [hfrom 0 (Nat.zero_le _), List.drop_zero]

/-- A memory holds the string at its start if a zero follows within the limit. -/
theorem of_length_lt (h : (Foundation.stringAt s 0 n).length < n) :
    HoldsString s (Foundation.stringAt s 0 n) where
  char i hi := by rw [getElem_stringAt hi, Nat.zero_add]
  nonzero _ hc := ne_zero_of_mem_stringAt hc
  terminated := by
    have hend := stringAt_terminated h
    rwa [Nat.zero_add] at hend

/-- A memory holds one string only. -/
theorem unique {name' : List Char} (h : HoldsString s name) (h' : HoldsString s name') :
    name = name' := by
  have htake := h.stringAt (max name.length name'.length)
  rw [h'.stringAt, List.take_of_length_le (le_max_left _ _),
    List.take_of_length_le (le_max_right _ _)] at htake
  exact htake.symm

omit [DecidableEq Char] in
/-- What a memory holds from a later position on. -/
theorem drop (h : HoldsString s name) {k : ℕ} (hk : k ≤ name.length) :
    HoldsString (fun i ↦ s (k + i)) (name.drop k) where
  char i hi := by
    rw [List.length_drop] at hi
    rw [h.char (k + i) (by omega), List.getElem_drop]
  nonzero c hc := h.nonzero c (List.mem_of_mem_drop hc)
  terminated := by rw [List.length_drop, Nat.add_sub_cancel' hk, h.terminated]

omit [DecidableEq Char] in
/-- A list without a zero is held by the memory that has zeros behind it. -/
theorem getD_zero (h : ∀ c ∈ name, c ≠ 0) : HoldsString (fun i ↦ name.getD i 0) name where
  char _ hi := List.getD_eq_getElem name 0 hi
  nonzero := h
  terminated := List.getD_eq_default name 0 le_rfl

omit [DecidableEq Char] in
/-- Every list without a zero is held by some memory. -/
theorem exists_memory (h : ∀ c ∈ name, c ≠ 0) : ∃ s : ℕ → Char, HoldsString s name :=
  ⟨fun i ↦ name.getD i 0, getD_zero h⟩

omit [DecidableEq Char] in
/-- A zero stored into a string cuts it off. -/
theorem update_zero (h : HoldsString s name) (k : ℕ) :
    HoldsString (Function.update s k 0) (name.take k) where
  char i hi := by
    rw [List.length_take] at hi
    rw [Function.update_of_ne (by omega), h.char i (by omega), List.getElem_take]
  nonzero c hc := h.nonzero c (List.mem_of_mem_take hc)
  terminated := by
    rw [List.length_take]
    by_cases hk : k ≤ name.length
    · rw [min_eq_left hk, Function.update_self]
    · rw [min_eq_right (by omega), Function.update_of_ne (by omega), h.terminated]

end HoldsString

end Sp18.Foundation
