import Sp18.Foundation.ByteMemory
import Sp18.Foundation.CString
import Sp18.Kernel.FileDescriptors

/-!
# The string functions

`strlen`, `strncmp`, `strncpy` and `strcpy` in terms of the strings that they see. `strlen` and the
copying loops stop at the end of a string, and `strncmp` compares two strings up to its limit.
`strncpy` stores a zero at index `n`: it leaves a string in any case, and one byte behind its `n`
bytes is lost.

`storeString` are the stores of a string and of the zero behind it. That is what `strcpy` stores of
a string, and `strncpy` of one that is no shorter than `n` (`strcpy_eq`, `strncpy_eq`).
-/

set_option autoImplicit false
set_option relaxedAutoImplicit false

namespace Sp18.Kernel

open Foundation

/-- The copying loop of `strcpy` from position `i` on. Its positions are 32-bit integers. -/
def strcpyLoop (dest : ℤ → UInt8) (src : ℕ → UInt8) (i : ℕ) : ℕ → (ℤ → UInt8) × ℕ
  | 0 => (dest, i)
  | fuel + 1 =>
    if src i ≠ 0 then strcpyLoop (Function.update dest i (src i)) src (i + 1) fuel else (dest, i)

/-- `strcpy` -/
def strcpy (dest : ℤ → UInt8) (src : ℕ → UInt8) : ℤ → UInt8 :=
  let (dest, i) := strcpyLoop dest src 0 4294967295
  Function.update dest i 0

/-- The stores of a string and of the zero behind it. -/
def storeString (memory : ℤ → UInt8) (name : List UInt8) : ℤ → UInt8 :=
  storeList memory 0 (name ++ [0])

/-! ### Lengths -/

section Lengths

variable {s : ℕ → UInt8} {name : List UInt8}

theorem strlenLoop_eq (s : ℕ → UInt8) (i n : ℕ) :
    strlenLoop s i n = i + (stringAt s i n).length := by
  induction n generalizing i with
  | zero => rfl
  | succ n ih =>
    by_cases hzero : s i = 0
    · rw [strlenLoop, if_neg (not_not_intro hzero), stringAt_of_zero hzero]
      rfl
    · rw [strlenLoop, if_pos hzero, stringAt_of_ne_zero hzero, ih, List.length_cons]
      omega

theorem strlen_eq (s : ℕ → UInt8) : strlen s = (stringAt s 0 4294967295).length := by
  rw [strlen, strlenLoop_eq, zero_add]

/-- The length of a string. Its positions are unsigned 32-bit integers. -/
theorem strlen_of_holdsString (h : HoldsString s name) :
    strlen s = min 4294967295 name.length := by
  rw [strlen_eq, h.stringAt, List.length_take]

/-- A string ends at a zero at the latest. -/
theorem strlen_le {k : ℕ} (hzero : s k = 0) : strlen s ≤ k := by
  rw [strlen_eq, ← zero_add (stringAt s 0 4294967295).length]
  exact add_length_stringAt_le hzero (Nat.zero_le k) _

end Lengths

/-! ### Comparisons -/

theorem char_sub_eq_zero_iff (a b : UInt8) : char a - char b = 0 ↔ a = b := by
  have ha := a.toNat_lt
  have hb := b.toNat_lt
  rw [← UInt8.toNat_inj]
  unfold char i8
  omega

/-- `strncmp` compares the strings that the limit leaves. -/
theorem strncmpLoop_eq_zero_iff (s1 s2 : ℕ → UInt8) (i n : ℕ) :
    strncmpLoop s1 s2 i n = 0 ↔ stringAt s1 i n = stringAt s2 i n := by
  induction n generalizing i with
  | zero => exact iff_of_true rfl rfl
  | succ n ih =>
    rw [strncmpLoop]
    by_cases hstop : s1 i ≠ s2 i ∨ s1 i = 0
    · rw [if_pos hstop, char_sub_eq_zero_iff]
      by_cases hzero : s1 i = 0
      · rw [stringAt_of_zero hzero, hzero]
        by_cases hzero' : s2 i = 0
        · rw [stringAt_of_zero hzero', hzero']
          exact iff_of_true rfl rfl
        · rw [stringAt_of_ne_zero hzero']
          exact iff_of_false (Ne.symm hzero') (by simp)
      · have hne := hstop.resolve_right hzero
        rw [stringAt_of_ne_zero hzero]
        refine iff_of_false hne fun heq ↦ ?_
        by_cases hzero' : s2 i = 0
        · rw [stringAt_of_zero hzero'] at heq
          cases heq
        · rw [stringAt_of_ne_zero hzero'] at heq
          exact hne (List.cons.inj heq).1
    · obtain ⟨hsame, hne⟩ := not_or.mp hstop
      have hsame := not_not.mp hsame
      have hne' : s2 i ≠ 0 := hsame ▸ hne
      rw [if_neg hstop, ih, stringAt_of_ne_zero hne, stringAt_of_ne_zero hne', hsame]
      exact ⟨fun h ↦ by rw [h], fun h ↦ (List.cons.inj h).2⟩

/-! ### Copies -/

section Copies

variable {n : ℤ}

theorem copySize_eq (src : ℕ → UInt8) (i n : ℕ) :
    copySize src i n = i + (stringAt src i n).length := by
  induction n generalizing i with
  | zero => rfl
  | succ n ih =>
    by_cases hzero : src i = 0
    · rw [copySize, if_neg (not_not_intro hzero), stringAt_of_zero hzero]
      rfl
    · rw [copySize, if_pos hzero, stringAt_of_ne_zero hzero, ih, List.length_cons]
      omega

/-- `strncpy` leaves a string, with the zero behind the `n` bytes if need be. -/
theorem strncpy_holdsString (dest : ℤ → UInt8) (src : ℕ → UInt8) (hn : 0 ≤ n) (hn' : n < 2 ^ 32) :
    HoldsString (fun i : ℕ ↦ strncpy dest src n i) (stringAt src 0 n.toNat) where
  char i hi := by
    have hle := length_stringAt_le src 0 n.toNat
    rw [strncpy, u32_of_range hn hn', if_pos (by omega), copySize_eq, zero_add,
      if_pos (by omega), getElem_stringAt hi, zero_add, Int.toNat_natCast]
  nonzero _ hc := ne_zero_of_mem_stringAt hc
  terminated := by
    have hle := length_stringAt_le src 0 n.toNat
    rw [strncpy, u32_of_range hn hn', if_pos (by omega), copySize_eq, zero_add, if_neg (by omega)]

variable (dest : ℤ → UInt8) (src : ℕ → UInt8)

/-- The byte behind the ones that are copied becomes zero. -/
theorem strncpy_last (hn : 0 ≤ n) (hn' : n < 2 ^ 32) : strncpy dest src n n = 0 := by
  have hle := length_stringAt_le src 0 n.toNat
  rw [strncpy, u32_of_range hn hn', if_pos ⟨hn, le_rfl⟩, copySize_eq, if_neg (by omega)]

/-- A zero of the source is copied, or overwritten by the padding. -/
theorem strncpy_zero {k : ℕ} (hzero : src k = 0) (hk : k ≤ n) (hn' : n < 2 ^ 32) :
    strncpy dest src n k = 0 := by
  have hle := add_length_stringAt_le hzero (Nat.zero_le k) n.toNat
  rw [strncpy, u32_of_range (by omega) hn', if_pos ⟨by omega, hk⟩, copySize_eq, if_neg (by omega)]

/-- `strncpy` keeps the memory outside its `n` bytes exactly if there is a zero behind them
already. -/
theorem strncpy_outside_iff (hn : 0 ≤ n) (hn' : n < 2 ^ 32) :
    (∀ k, k < 0 ∨ n ≤ k → strncpy dest src n k = dest k) ↔ dest n = 0 := by
  have hlast := strncpy_last dest src hn hn'
  constructor
  · intro hkeep
    rw [← hkeep n (Or.inr le_rfl), hlast]
  · intro hzero k hk
    by_cases hkn : k = n
    · rw [hkn, hlast, hzero]
    · rw [strncpy, u32_of_range hn hn', if_neg (by omega)]

end Copies

/-! ### Stored strings -/

section StoredStrings

variable {name : List UInt8} {memory : ℤ → UInt8} {k : ℤ}

theorem storeString_eq (memory : ℤ → UInt8) (name : List UInt8) :
    storeString memory name = Function.update (storeList memory 0 name) name.length 0 := by
  rw [storeString, storeList_concat, zero_add]

theorem storeString_outside (h : k < 0 ∨ name.length < k) : storeString memory name k = memory k :=
  storeList_outside (by simp only [List.length_append, List.length_singleton]; omega)

theorem storeString_char {i : ℕ} (hi : i < name.length) : storeString memory name i = name[i] := by
  rw [storeString_eq, Function.update_of_ne (by omega), ← zero_add (i : ℤ), storeList_apply hi]

theorem storeString_last (memory : ℤ → UInt8) (name : List UInt8) :
    storeString memory name name.length = 0 := by
  rw [storeString_eq, Function.update_self]

/-- Stored characters and a zero behind them are a string. -/
theorem storeList_holdsString (memory : ℤ → UInt8) (a : ℤ) (hname : ∀ c ∈ name, c ≠ 0) :
    HoldsString (fun i : ℕ ↦ storeList memory a (name ++ [0]) (a + i)) name where
  char i hi := by
    rw [storeList_concat, Function.update_of_ne (by omega), storeList_apply hi]
  nonzero := hname
  terminated := by rw [storeList_concat, Function.update_self]

theorem storeString_holdsString (memory : ℤ → UInt8) (hname : ∀ c ∈ name, c ≠ 0) :
    HoldsString (fun i : ℕ ↦ storeString memory name i) name := by
  simpa only [storeString, zero_add] using storeList_holdsString memory 0 hname

/-- A copy of the first `n` characters of a string. -/
theorem strncpy_eq {src : ℕ → UInt8} (h : HoldsString src name) {n : ℕ} (hn : n ≤ name.length)
    (hn' : n < 2 ^ 32) (dest : ℤ → UInt8) :
    strncpy dest src n = storeString dest (name.take n) := by
  have hlength : (name.take n).length = n := by rw [List.length_take, min_eq_left hn]
  have hsize : copySize src 0 n = n := by rw [copySize_eq, h.stringAt, hlength, zero_add]
  have hend := storeString_last dest (name.take n)
  rw [hlength] at hend
  funext k
  rw [strncpy, u32_of_range (by omega) (by omega), Int.toNat_natCast, hsize]
  by_cases hin : 0 ≤ k ∧ k ≤ n
  · obtain ⟨i, rfl⟩ := Int.eq_ofNat_of_zero_le hin.1
    rw [if_pos hin]
    by_cases hlast : i = n
    · rw [if_neg (by omega), hlast, hend]
    · rw [if_pos (by omega), storeString_char (by omega), List.getElem_take, Int.toNat_natCast,
        h.char i (by omega)]
  · rw [if_neg hin, storeString_outside (by omega)]

theorem strcpyLoop_eq (dest : ℤ → UInt8) (src : ℕ → UInt8) (i n : ℕ) :
    strcpyLoop dest src i n =
      (storeList dest i (stringAt src i n), i + (stringAt src i n).length) := by
  induction n generalizing dest i with
  | zero => rfl
  | succ n ih =>
    by_cases hzero : src i = 0
    · rw [strcpyLoop, if_neg (not_not_intro hzero), stringAt_of_zero hzero]
      rfl
    · rw [strcpyLoop, if_pos hzero, stringAt_of_ne_zero hzero, ih, storeList, List.length_cons]
      push_cast
      rw [Nat.add_right_comm, Nat.add_assoc]

/-- A copy of a string. -/
theorem strcpy_eq {src : ℕ → UInt8} (h : HoldsString src name) (hlength : name.length < 2 ^ 32)
    (dest : ℤ → UInt8) : strcpy dest src = storeString dest name := by
  have hstring : stringAt src 0 4294967295 = name := by
    rw [h.stringAt, List.take_of_length_le (by omega)]
  rw [strcpy, strcpyLoop_eq, hstring, storeString_eq, zero_add]
  rfl

end StoredStrings

end Sp18.Kernel
