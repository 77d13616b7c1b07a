import Mathlib.Data.Nat.Digits.Lemmas

/-!
# Numerals

A numeral of a radix is a list of digits, the most significant one first. It has no leading zeros:
only the numeral of zero begins with a zero, and it is nothing else (`IsNumeral`). Each number has
one numeral, which is `numeral`: it is a numeral (`isNumeral_numeral`) of the number
(`readDigits_numeral`), and the only one (`IsNumeral.eq_numeral`). A number below the `k`-th power
of the radix has at most `k` digits (`length_numeral_le`).
-/

set_option autoImplicit false
set_option relaxedAutoImplicit false

namespace Sp18.Foundation

/-- The number that a list of digits spells, the most significant digit first. -/
def readDigits (radix : ℕ) (digits : List ℕ) : ℕ :=
  digits.foldl (fun value digit ↦ value * radix + digit) 0

/-- A list of digits without leading zeros. -/
structure IsNumeral (radix : ℕ) (digits : List ℕ) : Prop where
  nonempty : digits ≠ []
  digit : ∀ d ∈ digits, d < radix
  noLeadingZero : digits.head? = some 0 → digits = [0]

/-- The numeral of a number. -/
def numeral (radix n : ℕ) : List ℕ := if n = 0 then [0] else (Nat.digits radix n).reverse

variable {radix n : ℕ} {digits : List ℕ}

@[simp] theorem numeral_zero (radix : ℕ) : numeral radix 0 = [0] := rfl

theorem numeral_of_ne_zero (hn : n ≠ 0) : numeral radix n = (Nat.digits radix n).reverse :=
  if_neg hn

theorem readDigits_singleton (radix digit : ℕ) : readDigits radix [digit] = digit := by
  rw [readDigits, List.foldl_cons, List.foldl_nil, Nat.zero_mul, Nat.zero_add]

theorem readDigits_reverse (radix : ℕ) (digits : List ℕ) :
    readDigits radix digits.reverse = Nat.ofDigits radix digits := by
  rw [readDigits, List.foldl_reverse, Nat.ofDigits_eq_foldr]
  congr 1
  funext digit value
  rw [Nat.cast_id, Nat.mul_comm, Nat.add_comm]

/-- Reading the numeral of a number back gives the number. -/
theorem readDigits_numeral (radix n : ℕ) : readDigits radix (numeral radix n) = n := by
  by_cases hn : n = 0
  · rw [hn, numeral_zero, readDigits_singleton]
  · rw [numeral_of_ne_zero hn, readDigits_reverse, Nat.ofDigits_digits]

theorem isNumeral_numeral (hradix : 1 < radix) (n : ℕ) : IsNumeral radix (numeral radix n) := by
  by_cases hn : n = 0
  · subst hn
    refine ⟨List.cons_ne_nil _ _, fun d hd ↦ ?_, fun _ ↦ rfl⟩
    rw [numeral_zero, List.mem_singleton] at hd
    omega
  · have hne : Nat.digits radix n ≠ [] := Nat.digits_ne_nil_iff_ne_zero.mpr hn
    rw [numeral_of_ne_zero hn]
    refine ⟨List.reverse_ne_nil_iff.mpr hne, fun d hd ↦ ?_, fun hzero ↦ ?_⟩
    · exact Nat.digits_lt_base hradix (List.mem_reverse.mp hd)
    · rw [List.head?_reverse, List.getLast?_eq_getLast_of_ne_nil hne, Option.some_inj] at hzero
      exact absurd hzero (Nat.getLast_digit_ne_zero radix hn)

/-- A number has no numeral but its own. -/
theorem IsNumeral.eq_numeral (hradix : 1 < radix) (h : IsNumeral radix digits) :
    digits = numeral radix (readDigits radix digits) := by
  by_cases hzero : digits.head? = some 0
  · rw [h.noLeadingZero hzero, readDigits_singleton, numeral_zero]
  · have hdigits : Nat.digits radix (readDigits radix digits) = digits.reverse := by
      have hlast : ∀ hne : digits.reverse ≠ [], digits.reverse.getLast hne ≠ 0 := by
        intro hne hlast
        rw [List.getLast_reverse] at hlast
        exact hzero (List.head?_eq_some_head (List.reverse_ne_nil_iff.mp hne) ▸ hlast ▸ rfl)
      have hsmall : ∀ d ∈ digits.reverse, d < radix := fun d hd ↦
        h.digit d (List.mem_reverse.mp hd)
      rw [← Nat.digits_ofDigits radix hradix digits.reverse hsmall hlast, ← readDigits_reverse,
        List.reverse_reverse]
    have hne : readDigits radix digits ≠ 0 := by
      rw [← Nat.digits_ne_nil_iff_ne_zero (b := radix), hdigits]
      exact List.reverse_ne_nil_iff.mpr h.nonempty
    rw [numeral_of_ne_zero hne, hdigits, List.reverse_reverse]

theorem length_numeral_le {k : ℕ} (hradix : 1 < radix) (hk : 0 < k) (hn : n < radix ^ k) :
    (numeral radix n).length ≤ k := by
  by_cases hzero : n = 0
  · subst hzero
    exact hk
  · rw [numeral_of_ne_zero hzero, List.length_reverse]
    exact (Nat.digits_length_le_iff hradix n).mpr hn

end Sp18.Foundation
