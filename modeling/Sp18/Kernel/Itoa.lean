import Sp18.Foundation.Checked
import Sp18.Foundation.Numeral
import Sp18.Kernel.Strings

/-!
# Numbers as strings

`itoa` and `strrev` of `lib.c`. The loop of `itoa` stores the digits of a number from the lowest
place value to the highest, and `strrev` turns them round. What is left in the buffer is the numeral
of the number and a zero, and nothing else has changed (`itoa_eq`).

The numeral is `numeralText`. That it is one is a statement about its characters alone: a text
`Spells` a number if its digits are a numeral of it, and no other text does (`spells_iff`).
-/

set_option autoImplicit false
set_option relaxedAutoImplicit false

namespace Sp18.Kernel.Lib

open Foundation

/-- `lookup`. The terminating zero of the literal is an element of the array. -/
def lookup : List UInt8 :=
  ['0', '1', '2', '3', '4', '5', '6', '7', '8', '9', 'A', 'B', 'C', 'D', 'E', 'F', 'G', 'H', 'I',
    'J', 'K', 'L', 'M', 'N', 'O', 'P', 'Q', 'R', 'S', 'T', 'U', 'V', 'W', 'X', 'Y', 'Z'].map
      Char.toUInt8 ++ [0]

/-- The loop of `strrev`, between the indices `beg` and `last`. -/
def strrevLoop (s : ℤ) : ℕ → ℤ → ℤ → (ℤ → UInt8) → Except Stop (ℤ → UInt8)
  | 0, _, _, _ => .error .noFuel
  | fuel + 1, beg, last, memory =>
    if beg < last then
      let tmp := memory (s + last)
      let memory := Function.update memory (s + last) (memory (s + beg))
      let memory := Function.update memory (s + beg) tmp
      strrevLoop s fuel (beg + 1) (last - 1) memory
    else .ok memory

/-- `strrev`. It returns its argument, and the memory after it. -/
def strrev (s : ℤ) (memory : ℤ → UInt8) (fuel : ℕ) : Except Stop (ℤ → UInt8) :=
  strrevLoop s fuel 0 (i32 (u32 (strlen (fun i : ℕ ↦ memory (s + i)) - 1))) memory

/-- The loop of `itoa`: the address behind the digits, and the memory. A radix of zero, by which the
processor does not divide, is not modelled. -/
def itoaLoop (radix : BitVec 32) :
    ℕ → BitVec 32 → ℤ → (ℤ → UInt8) → Except Stop (ℤ × (ℤ → UInt8))
  | 0, _, _, _ => .error .noFuel
  | fuel + 1, newval, newbuf, memory =>
    if 0 < newval then
      match lookup[(newval % radix).toNat]? with
      | none => .error .outside
      | some digit =>
        itoaLoop radix fuel (newval / radix) (newbuf + 1) (Function.update memory newbuf digit)
    else .ok (newbuf, memory)

/-- `itoa`. It returns its buffer, and the memory after it. -/
def itoa (value : BitVec 32) (buf : ℤ) (radix : BitVec 32) (memory : ℤ → UInt8) (fuel : ℕ) :
    Except Stop (ℤ → UInt8) :=
  if value = 0 then
    let memory := Function.update memory buf '0'.toUInt8
    .ok (Function.update memory (buf + 1) 0)
  else do
    let (newbuf, memory) ← itoaLoop radix fuel value buf memory
    let memory := Function.update memory newbuf 0
    strrev buf memory fuel

/-! ### Texts of numbers -/

/-- The character of a digit. -/
def digitChar (d : ℕ) : UInt8 := lookup.getD d 0

/-- The digit that a character stands for, or 36 if it does not stand for one. -/
def digitOf (c : UInt8) : ℕ :=
  if 48 ≤ c.toNat ∧ c.toNat ≤ 57 then c.toNat - 48
  else if 65 ≤ c.toNat ∧ c.toNat ≤ 90 then c.toNat - 55
  else 36

/-- The characters are a numeral of `n` without leading zeros. -/
structure Spells (radix : ℕ) (text : List UInt8) (n : ℕ) : Prop where
  numeral : IsNumeral radix (text.map digitOf)
  value : readDigits radix (text.map digitOf) = n

/-- The numeral of `n` over the digits `0` to `9` and `A` to `Z`. -/
def numeralText (radix n : ℕ) : List UInt8 := (numeral radix n).map digitChar

theorem getElem?_lookup {d : ℕ} (hd : d < 36) : lookup[d]? = some (digitChar d) := by
  have hlength : lookup.length = 37 := rfl
  rw [digitChar, List.getD_eq_getElem _ _ (by omega), List.getElem?_eq_getElem]

theorem digitChar_ne_zero {d : ℕ} (hd : d < 36) : digitChar d ≠ 0 := by
  have hall : ∀ d < 36, digitChar d ≠ 0 := by decide
  exact hall d hd

theorem digitOf_digitChar {d : ℕ} (hd : d < 36) : digitOf (digitChar d) = d := by
  have hall : ∀ d < 36, digitOf (digitChar d) = d := by decide
  exact hall d hd

theorem digitChar_digitOf {c : UInt8} (hc : digitOf c < 36) : digitChar (digitOf c) = c := by
  unfold digitOf at hc ⊢
  have hdecimal : ∀ n, 48 ≤ n → n ≤ 57 → digitChar (n - 48) = UInt8.ofNat n := by
    intro n hlow hhigh
    interval_cases n <;> rfl
  have hletter : ∀ n, 65 ≤ n → n ≤ 90 → digitChar (n - 55) = UInt8.ofNat n := by
    intro n hlow hhigh
    interval_cases n <;> rfl
  split at hc
  · next h => rw [if_pos h, hdecimal _ h.1 h.2, UInt8.ofNat_toNat]
  · next h =>
    split at hc
    · next h' => rw [if_neg h, if_pos h', hletter _ h'.1 h'.2, UInt8.ofNat_toNat]
    · exact absurd hc (lt_irrefl 36)

section Texts

variable {radix n : ℕ} (hradix : 1 < radix) (hsmall : radix ≤ 36)
include hradix hsmall

/-- A text spells a number exactly if it is its numeral. -/
theorem spells_iff (text : List UInt8) : Spells radix text n ↔ text = numeralText radix n := by
  constructor
  · rintro ⟨hnumeral, rfl⟩
    have hback : (text.map digitOf).map digitChar = text := by
      have hchar : ∀ c ∈ text, (digitChar ∘ digitOf) c = id c := fun c hc ↦
        digitChar_digitOf ((hnumeral.digit _ (List.mem_map_of_mem hc)).trans_le hsmall)
      rw [List.map_map, List.map_congr_left hchar, List.map_id]
    rw [numeralText, ← hnumeral.eq_numeral hradix, hback]
  · rintro rfl
    have hback : (numeralText radix n).map digitOf = numeral radix n := by
      have hdigit : ∀ d ∈ numeral radix n, (digitOf ∘ digitChar) d = id d := fun d hd ↦
        digitOf_digitChar (((isNumeral_numeral hradix n).digit d hd).trans_le hsmall)
      rw [numeralText, List.map_map, List.map_congr_left hdigit, List.map_id]
    exact ⟨hback ▸ isNumeral_numeral hradix n, hback ▸ readDigits_numeral radix n⟩

theorem ne_zero_of_mem_numeralText {c : UInt8} (hc : c ∈ numeralText radix n) : c ≠ 0 := by
  obtain ⟨d, hd, rfl⟩ := List.mem_map.mp hc
  exact digitChar_ne_zero (((isNumeral_numeral hradix n).digit d hd).trans_le hsmall)

end Texts

theorem length_numeralText (radix n : ℕ) :
    (numeralText radix n).length = (numeral radix n).length :=
  List.length_map _

/-! ### The loops -/

/-- The loop of `strrev` reverses what is between its indices. -/
theorem strrevLoop_eq (s : ℤ) {fuel : ℕ} (hpos : 0 < fuel) {beg last : ℤ}
    (hfuel : last - beg < fuel) (memory : ℤ → UInt8) :
    strrevLoop s fuel beg last memory = .ok (reversed memory (s + beg) (s + last)) := by
  induction fuel generalizing beg last memory with
  | zero => exact absurd hpos (lt_irrefl 0)
  | succ fuel ih =>
    rw [strrevLoop]
    by_cases hmore : beg < last
    · rw [if_pos hmore, ih (by omega) (by omega), ← reversed_swap memory (by omega)]
      congr 2
      · ring
      · ring
    · rw [if_neg hmore, reversed_of_le memory (by omega)]

/-- `strrev` reverses a string in its place. -/
theorem strrev_eq (s : ℤ) {name : List UInt8} (hname : ∀ c ∈ name, c ≠ 0) (memory : ℤ → UInt8)
    {fuel : ℕ} (hfuel : name.length < fuel) (hlength : name.length < 2 ^ 31) :
    strrev s (storeList memory s (name ++ [0])) fuel =
      .ok (storeList memory s (name.reverse ++ [0])) := by
  have hstrlen : strlen (fun i : ℕ ↦ storeList memory s (name ++ [0]) (s + i)) = name.length := by
    rw [strlen_of_holdsString (storeList_holdsString memory s hname), min_eq_right (by omega)]
  have hlast : i32 (u32 ((name.length : ℤ) - 1)) = name.length - 1 := by
    unfold i32 u32
    omega
  rw [strrev, hstrlen, hlast, strrevLoop_eq s (by omega) (by omega), add_zero, ← add_sub_assoc,
    reversed_storeList]

/-- The loop of `itoa` stores the digits from the lowest place value on. -/
theorem itoaLoop_eq {radix : BitVec 32} (hradix : 1 < radix.toNat) (hsmall : radix.toNat ≤ 36)
    {fuel : ℕ} {newval : BitVec 32} (hfuel : (Nat.digits radix.toNat newval.toNat).length < fuel)
    (newbuf : ℤ) (memory : ℤ → UInt8) :
    itoaLoop radix fuel newval newbuf memory =
      .ok (newbuf + (Nat.digits radix.toNat newval.toNat).length,
        storeList memory newbuf ((Nat.digits radix.toNat newval.toNat).map digitChar)) := by
  induction fuel generalizing newval newbuf memory with
  | zero => exact absurd hfuel (Nat.not_lt_zero _)
  | succ fuel ih =>
    rw [itoaLoop]
    by_cases hmore : 0 < newval
    · have hpos : 0 < newval.toNat := BitVec.lt_def.mp hmore
      have hdigits := Nat.digits_def' hradix hpos
      have hdigit : newval.toNat % radix.toNat < 36 :=
        (Nat.mod_lt _ (by omega)).trans_le hsmall
      rw [← BitVec.toNat_udiv] at hdigits
      rw [hdigits, List.length_cons] at hfuel
      rw [if_pos hmore, BitVec.toNat_umod, getElem?_lookup hdigit, hdigits, List.map_cons,
        List.length_cons, storeList]
      simp only
      rw [ih (by omega)]
      push_cast
      rw [add_assoc, add_comm (1 : ℤ)]
    · have hzero : newval = 0 := by
        apply BitVec.eq_of_toNat_eq
        exact Nat.eq_zero_of_not_pos fun hpos ↦ hmore (BitVec.lt_def.mpr hpos)
      rw [if_neg hmore, hzero]
      simp [storeList]

/-- `itoa` leaves the numeral of its argument in the buffer. -/
theorem itoa_eq (value : BitVec 32) (buf : ℤ) {radix : BitVec 32} (hradix : 1 < radix.toNat)
    (hsmall : radix.toNat ≤ 36) (memory : ℤ → UInt8) {fuel : ℕ} (hfuel : 32 < fuel) :
    itoa value buf radix memory fuel =
      .ok (storeList memory buf (numeralText radix.toNat value.toNat ++ [0])) := by
  rw [itoa]
  by_cases hzero : value = 0
  · subst hzero
    rfl
  · have hvalue : value.toNat ≠ 0 := fun h ↦ hzero (BitVec.eq_of_toNat_eq h)
    have hlength : (Nat.digits radix.toNat value.toNat).length ≤ 32 := by
      have hle := length_numeral_le hradix (by omega) (value.isLt.trans_le
        (Nat.pow_le_pow_left hradix 32))
      rwa [numeral_of_ne_zero hvalue, List.length_reverse] at hle
    have hchars : ∀ c ∈ (Nat.digits radix.toNat value.toNat).map digitChar, c ≠ 0 := by
      intro c hc
      refine ne_zero_of_mem_numeralText hradix hsmall (n := value.toNat) ?_
      rw [numeralText, numeral_of_ne_zero hvalue, List.map_reverse]
      exact List.mem_reverse.mpr hc
    rw [if_neg hzero, itoaLoop_eq hradix hsmall (by omega), ok_bind]
    simp only
    rw [← List.length_map digitChar, ← storeList_concat, strrev_eq buf hchars, numeralText,
      numeral_of_ne_zero hvalue, List.map_reverse]
    · rw [List.length_map]
      omega
    · rw [List.length_map]
      omega

end Sp18.Kernel.Lib
