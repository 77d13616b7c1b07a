import Mathlib.Data.Set.Insert
import Mathlib.Logic.Function.Basic
import Mathlib.Tactic.Ring

/-!
# Memory as a function from addresses to bytes

The memory operations that C code is made of, and what they leave at each address: `memcpy` from
one memory into another, `writeSeq`, the stores of a loop in the order in which it makes them, and
the two byte loops `copyUp` and `copyDown` that move data inside one memory. `valuesAt` is the list
of the values that a loop reads one after the other.

A store sequence whose addresses do not repeat leaves each value where it was stored
(`writeSeq_apply`) and everything else alone (`writeSeq_of_ne`). Moving data inside one memory is
right when the loop runs away from the overlap: upwards towards lower addresses (`copyUp_apply`),
downwards towards higher ones (`copyDown_apply`).

A loop that swaps the outermost values of a region and goes on inside reverses the region, which
`reversed` is at once (`reversed_swap`).

A loop whose rounds all store the same value may store to an address more than once: it `Paints` the
regions of its rounds (`Paints.foldl`).
-/

set_option autoImplicit false
set_option relaxedAutoImplicit false

namespace Sp18.Foundation

variable {Address Value : Type*}

/-- `memcpy`: `count` values from address `src` of `source` on, to address `dst` on. -/
def memcpy (memory : ℤ → Value) (dst : ℤ) (source : ℤ → Value) (src : ℤ) (count : ℤ) :
    ℤ → Value :=
  fun a ↦ if dst ≤ a ∧ a < dst + count then source (src + (a - dst)) else memory a

/-- The first `count` stores of a loop whose `i`-th iteration stores `value i` at `address i`. -/
def writeSeq [DecidableEq Address] (address : ℕ → Address) (value : ℕ → Value)
    (memory : Address → Value) : ℕ → Address → Value
  | 0 => memory
  | count + 1 => Function.update (writeSeq address value memory count) (address count) (value count)

/-- The stores of two nested loops: the `i`-th store of the `j`-th row stores `value j i` at
`address j i`. -/
def writeRows [DecidableEq Address] (address : ℕ → ℕ → Address) (value : ℕ → ℕ → Value)
    (memory : Address → Value) (columns : ℕ) : ℕ → Address → Value
  | 0 => memory
  | rows + 1 =>
    writeSeq (address rows) (value rows) (writeRows address value memory columns rows) columns

/-- The loop `for (i = 0; i < count; i++) dst[i] = src[i]` inside one memory. -/
def copyUp (dst src : ℤ) (memory : ℤ → Value) : ℕ → ℤ → Value
  | 0 => memory
  | count + 1 =>
    let before := copyUp dst src memory count
    Function.update before (dst + count) (before (src + count))

/-- The loop `for (i = count; i-- > 0; ) dst[i] = src[i]` inside one memory. -/
def copyDown (dst src : ℤ) : ℕ → (ℤ → Value) → ℤ → Value
  | 0, memory => memory
  | count + 1, memory =>
    copyDown dst src count (Function.update memory (dst + count) (memory (src + count)))

/-- The stores of the values of a list to the addresses from `a` on. -/
def storeList (memory : ℤ → Value) (a : ℤ) : List Value → ℤ → Value
  | [] => memory
  | value :: rest => storeList (Function.update memory a value) (a + 1) rest

/-- The memory with the values from `low` to `high` in the opposite order. -/
def reversed (memory : ℤ → Value) (low high : ℤ) : ℤ → Value :=
  fun a ↦ if low ≤ a ∧ a ≤ high then memory (low + high - a) else memory a

/-- A step that stores one value everywhere in a region, and nothing anywhere else. -/
structure Paints (step : (Address → Value) → Address → Value) (region : Set Address)
    (value : Value) : Prop where
  inside : ∀ memory, ∀ a ∈ region, step memory a = value
  outside : ∀ memory, ∀ a ∉ region, step memory a = memory a

/-- The `count` values from an address on. -/
def valuesAt (memory : ℤ → Value) (a : ℤ) (count : ℕ) : List Value :=
  (List.range count).map fun i : ℕ ↦ memory (a + i)

theorem memcpy_inside (memory : ℤ → Value) {dst : ℤ} (source : ℤ → Value) {src count a : ℤ}
    (hlow : dst ≤ a) (hhigh : a < dst + count) :
    memcpy memory dst source src count a = source (src + (a - dst)) :=
  if_pos ⟨hlow, hhigh⟩

theorem memcpy_outside (memory : ℤ → Value) {dst : ℤ} (source : ℤ → Value) {src count a : ℤ}
    (h : a < dst ∨ dst + count ≤ a) : memcpy memory dst source src count a = memory a :=
  if_neg (by omega)

/-- A copy overwrites an earlier one to the same place. -/
theorem memcpy_again (memory : ℤ → Value) (dst : ℤ) (source source' : ℤ → Value)
    (src src' count : ℤ) : memcpy (memcpy memory dst source' src' count) dst source src count =
      memcpy memory dst source src count := by
  funext a
  unfold memcpy
  split_ifs <;> rfl

/-- A copy overwrites whatever else differs only where it copies to. -/
theorem memcpy_congr {memory memory' : ℤ → Value} {dst count : ℤ}
    (h : ∀ a, a < dst ∨ dst + count ≤ a → memory' a = memory a) (source : ℤ → Value) (src : ℤ) :
    memcpy memory' dst source src count = memcpy memory dst source src count := by
  funext a
  unfold memcpy
  split_ifs with hin
  · rfl
  · exact h a (by omega)

section Values

variable {memory memory' : ℤ → Value} {a a' : ℤ} {count : ℕ}

@[simp] theorem valuesAt_zero (memory : ℤ → Value) (a : ℤ) : valuesAt memory a 0 = [] := rfl

theorem length_valuesAt (memory : ℤ → Value) (a : ℤ) (count : ℕ) :
    (valuesAt memory a count).length = count := by
  simp [valuesAt]

theorem valuesAt_cons (memory : ℤ → Value) (a : ℤ) (count : ℕ) :
    valuesAt memory a (count + 1) = memory a :: valuesAt memory (a + 1) count := by
  simp only [valuesAt, List.range_succ_eq_map, List.map_cons, List.map_map]
  congr 1
  · rw [Nat.cast_zero, add_zero]
  · refine List.map_congr_left fun i _ ↦ ?_
    simp only [Function.comp_apply]
    congr 1
    push_cast
    ring

theorem valuesAt_concat (memory : ℤ → Value) (a : ℤ) (count : ℕ) :
    valuesAt memory a (count + 1) = valuesAt memory a count ++ [memory (a + count)] := by
  simp only [valuesAt, List.range_succ, List.map_append, List.map_cons, List.map_nil]

theorem valuesAt_append (memory : ℤ → Value) (a : ℤ) (count count' : ℕ) :
    valuesAt memory a (count + count') =
      valuesAt memory a count ++ valuesAt memory (a + count) count' := by
  induction count' with
  | zero => rw [Nat.add_zero, valuesAt_zero, List.append_nil]
  | succ count' ih =>
    rw [← Nat.add_assoc, valuesAt_concat, ih, valuesAt_concat, List.append_assoc]
    push_cast
    rw [add_assoc]

theorem take_valuesAt (memory : ℤ → Value) (a : ℤ) {k count : ℕ} (hk : k ≤ count) :
    (valuesAt memory a count).take k = valuesAt memory a k := by
  rw [valuesAt, ← List.map_take, List.take_range, Nat.min_eq_left hk, valuesAt]

theorem dropLast_valuesAt (memory : ℤ → Value) (a : ℤ) (count : ℕ) :
    (valuesAt memory a count).dropLast = valuesAt memory a (count - 1) := by
  cases count with
  | zero => rfl
  | succ count => rw [valuesAt_concat, List.dropLast_concat, Nat.add_sub_cancel]

theorem valuesAt_congr (h : ∀ i < count, memory (a + (i : ℕ)) = memory' (a' + (i : ℕ))) :
    valuesAt memory a count = valuesAt memory' a' count :=
  List.map_congr_left fun i hi ↦ h i (List.mem_range.mp hi)

/-- What is read is what stands at the addresses. -/
theorem apply_of_valuesAt {l : List Value} (h : valuesAt memory a l.length = l) {i : ℕ}
    (hi : i < l.length) : memory (a + i) = l[i] := by
  have hget : (valuesAt memory a l.length)[i]? = l[i]? := congrArg (·[i]?) h
  rw [valuesAt, List.getElem?_map, List.getElem?_range hi, List.getElem?_eq_getElem hi] at hget
  exact Option.some.inj hget

/-- The value stored behind the ones that are read is the last of them from then on. -/
theorem valuesAt_update (memory : ℤ → Value) (count : ℕ) (value : Value) :
    valuesAt (Function.update memory count value) 0 (count + 1) =
      valuesAt memory 0 count ++ [value] := by
  rw [valuesAt_concat, zero_add, Function.update_self]
  congr 1
  exact valuesAt_congr fun i hi ↦ Function.update_of_ne (by omega) _ _

end Values

section Stores

variable [DecidableEq Address] {address : ℕ → Address} {value : ℕ → Value}
  {memory : Address → Value}

theorem writeSeq_succ (count : ℕ) : writeSeq address value memory (count + 1) =
    Function.update (writeSeq address value memory count) (address count) (value count) := rfl

/-- An address no store goes to keeps its value. -/
theorem writeSeq_of_ne {count : ℕ} {a : Address} (h : ∀ i < count, address i ≠ a) :
    writeSeq address value memory count a = memory a := by
  induction count with
  | zero => rfl
  | succ count ih =>
    rw [writeSeq_succ, Function.update_of_ne (h count (by omega)).symm,
      ih fun i hi ↦ h i (by omega)]

/-- A store that no later store of the sequence overwrites is what the address holds. -/
theorem writeSeq_apply {count i : ℕ} (hi : i < count)
    (hlater : ∀ j < count, i < j → address j ≠ address i) :
    writeSeq address value memory count (address i) = value i := by
  induction count with
  | zero => omega
  | succ count ih =>
    rw [writeSeq_succ]
    by_cases hlast : i = count
    · rw [hlast, Function.update_self]
    · have hne := hlater count (by omega) (by omega)
      rw [Function.update_of_ne hne.symm]
      exact ih (by omega) fun j hj ↦ hlater j (by omega)

variable {address : ℕ → ℕ → Address} {value : ℕ → ℕ → Value} {columns rows : ℕ}

theorem writeRows_of_ne {a : Address} (h : ∀ j < rows, ∀ i < columns, address j i ≠ a) :
    writeRows address value memory columns rows a = memory a := by
  induction rows with
  | zero => rfl
  | succ rows ih =>
    rw [writeRows, writeSeq_of_ne fun i hi ↦ h rows (by omega) i hi]
    exact ih fun j hj i hi ↦ h j (by omega) i hi

/-- When no two stores of the nested loops go to one address, each value is where it was stored. -/
theorem writeRows_apply (hinj : ∀ j < rows, ∀ i < columns, ∀ j' < rows, ∀ i' < columns,
      address j i = address j' i' → j = j' ∧ i = i') {j i : ℕ} (hj : j < rows) (hi : i < columns) :
    writeRows address value memory columns rows (address j i) = value j i := by
  induction rows with
  | zero => omega
  | succ rows ih =>
    rw [writeRows]
    by_cases hlast : j = rows
    · subst hlast
      refine writeSeq_apply hi fun i' hi' hlt heq ↦ ?_
      have hsame := (hinj j hj i' hi' j hj i hi heq).2
      omega
    · rw [writeSeq_of_ne]
      · exact ih (fun j hj i hi j' hj' i' hi' ↦ hinj j (by omega) i hi j' (by omega) i' hi')
          (by omega)
      · intro i' hi' heq
        have hsame := (hinj rows (by omega) i' hi' j hj i hi heq).1
        omega

end Stores

section Painting

variable {step : (Address → Value) → Address → Value} {region : Set Address} {value : Value}

theorem Paints.update [DecidableEq Address] (a : Address) (value : Value) :
    Paints (fun memory ↦ Function.update memory a value) {a} value where
  inside memory a' ha := by
    rw [Set.mem_singleton_iff.mp ha, Function.update_self]
  outside memory a' ha := Function.update_of_ne ha value memory

theorem Paints.ite (h : Paints step region value) (p : Prop) [Decidable p] :
    Paints (fun memory ↦ if p then step memory else memory) {a | p ∧ a ∈ region} value where
  inside memory a ha := by
    rw [if_pos ha.1, h.inside memory a ha.2]
  outside memory a ha := by
    split_ifs with hp
    · exact h.outside memory a fun hmem ↦ ha ⟨hp, hmem⟩
    · rfl

/-- A loop paints what its rounds paint. -/
theorem Paints.foldl {Index : Type*} {step : (Address → Value) → Index → Address → Value}
    {region : Index → Set Address} {l : List Index}
    (h : ∀ i ∈ l, Paints (fun memory ↦ step memory i) (region i) value) :
    Paints (fun memory ↦ l.foldl step memory) {a | ∃ i ∈ l, a ∈ region i} value := by
  induction l with
  | nil =>
    refine ⟨fun memory a ha ↦ ?_, fun memory a _ ↦ rfl⟩
    obtain ⟨i, hi, -⟩ := ha
    cases hi
  | cons i l ih =>
    have hfirst := h i List.mem_cons_self
    have hrest := ih fun j hj ↦ h j (List.mem_cons_of_mem i hj)
    constructor
    · intro memory a ha
      by_cases hlater : ∃ j ∈ l, a ∈ region j
      · exact hrest.inside (step memory i) a hlater
      · -- the last round that stores there is the first one
        obtain ⟨j, hj, hmem⟩ := ha
        rcases List.mem_cons.mp hj with rfl | hj
        · exact (hrest.outside (step memory j) a hlater).trans (hfirst.inside memory a hmem)
        · exact absurd ⟨j, hj, hmem⟩ hlater
    · intro memory a ha
      have hlater : ¬∃ j ∈ l, a ∈ region j := by
        rintro ⟨j, hj, hmem⟩
        exact ha ⟨j, List.mem_cons_of_mem i hj, hmem⟩
      have hnow : a ∉ region i := fun hmem ↦ ha ⟨i, List.mem_cons_self, hmem⟩
      exact (hrest.outside (step memory i) a hlater).trans (hfirst.outside memory a hnow)

end Painting

section Lists

variable {memory : ℤ → Value} {a k : ℤ} {l : List Value}

theorem storeList_outside (h : k < a ∨ a + l.length ≤ k) : storeList memory a l k = memory k := by
  induction l generalizing memory a with
  | nil => rfl
  | cons value l ih =>
    rw [List.length_cons] at h
    push_cast at h
    rw [storeList, ih (by omega), Function.update_of_ne (by omega)]

theorem storeList_apply {i : ℕ} (hi : i < l.length) : storeList memory a l (a + i) = l[i] := by
  induction l generalizing memory a i with
  | nil => exact absurd hi (Nat.not_lt_zero i)
  | cons value l ih =>
    rw [storeList]
    cases i with
    | zero => rw [storeList_outside (by omega), Nat.cast_zero, add_zero, Function.update_self]; rfl
    | succ i =>
      have haddress : a + ((i + 1 : ℕ) : ℤ) = a + 1 + i := by
        push_cast
        ring
      rw [haddress, ih (Nat.lt_of_succ_lt_succ hi)]
      rfl

/-- The values that have been stored are read back. -/
theorem valuesAt_storeList (memory : ℤ → Value) (a : ℤ) (l : List Value) :
    valuesAt (storeList memory a l) a l.length = l := by
  refine List.ext_getElem (length_valuesAt _ _ _) fun i hi hi' ↦ ?_
  simp only [valuesAt, List.getElem_map, List.getElem_range]
  exact storeList_apply hi'

/-- Stores relative to an address. -/
theorem storeList_shift (memory : ℤ → Value) (a : ℤ) (l : List Value) :
    (fun k ↦ storeList (fun k ↦ memory (a + k)) 0 l (k - a)) = storeList memory a l := by
  funext k
  by_cases hin : a ≤ k ∧ k < a + l.length
  · obtain ⟨i, hi⟩ := Int.eq_ofNat_of_zero_le (by omega : 0 ≤ k - a)
    have hk : k = a + i := by omega
    have hlt : i < l.length := by omega
    rw [hi, ← zero_add (i : ℤ), storeList_apply hlt, hk, storeList_apply hlt]
  · rw [storeList_outside (by omega), storeList_outside (by omega), add_sub_cancel]

theorem storeList_append (memory : ℤ → Value) (a : ℤ) (l l' : List Value) :
    storeList memory a (l ++ l') = storeList (storeList memory a l) (a + l.length) l' := by
  induction l generalizing memory a with
  | nil => rw [List.nil_append, List.length_nil, Nat.cast_zero, add_zero]; rfl
  | cons value l ih =>
    rw [List.cons_append, storeList, ih, storeList, List.length_cons]
    congr 1
    push_cast
    ring

/-- The value that is stored last. -/
theorem storeList_concat (memory : ℤ → Value) (a : ℤ) (l : List Value) (value : Value) :
    storeList memory a (l ++ [value]) =
      Function.update (storeList memory a l) (a + l.length) value :=
  storeList_append memory a l [value]

theorem update_storeList (memory : ℤ → Value) {b : ℤ} (l : List Value) (h : a < b) (value : Value) :
    Function.update (storeList memory b l) a value =
      storeList (Function.update memory a value) b l := by
  induction l generalizing memory b with
  | nil => rfl
  | cons value' l ih =>
    rw [storeList, storeList, ih (Function.update memory b value') (by omega),
      Function.update_comm (by omega)]

/-- Stores to regions that are apart can be made in any order. -/
theorem storeList_comm (memory : ℤ → Value) {a b : ℤ} {l : List Value} (h : a + l.length ≤ b)
    (l' : List Value) :
    storeList (storeList memory b l') a l = storeList (storeList memory a l) b l' := by
  induction l generalizing memory a with
  | nil => rfl
  | cons value l ih =>
    rw [List.length_cons] at h
    push_cast at h
    rw [storeList, storeList, update_storeList memory l' (by omega), ih _ (by omega)]

theorem reversed_of_le (memory : ℤ → Value) {low high : ℤ} (h : high ≤ low) :
    reversed memory low high = memory := by
  funext k
  by_cases hk : low ≤ k ∧ k ≤ high
  · rw [reversed, if_pos hk, show low + high - k = k by omega]
  · rw [reversed, if_neg hk]

/-- A region is reversed when its ends have been swapped and what is between them is reversed. -/
theorem reversed_swap (memory : ℤ → Value) {low high : ℤ} (h : low < high) :
    reversed (Function.update (Function.update memory high (memory low)) low (memory high))
      (low + 1) (high - 1) = reversed memory low high := by
  funext k
  rw [reversed, reversed]
  by_cases hlow : k = low
  · rw [if_neg (by omega), if_pos (by omega), hlow, Function.update_self, add_sub_cancel_left]
  · by_cases hhigh : k = high
    · rw [if_neg (by omega), if_pos (by omega), hhigh, Function.update_of_ne (by omega),
        Function.update_self, add_sub_cancel_right]
    · by_cases hin : low ≤ k ∧ k ≤ high
      · rw [if_pos (by omega), if_pos hin, Function.update_of_ne (by omega),
          Function.update_of_ne (by omega)]
        congr 1
        ring
      · rw [if_neg (by omega), if_neg hin, Function.update_of_ne hlow, Function.update_of_ne hhigh]

theorem reversed_storeList (memory : ℤ → Value) (a : ℤ) (l l' : List Value) :
    reversed (storeList memory a (l ++ l')) a (a + l.length - 1) =
      storeList memory a (l.reverse ++ l') := by
  funext k
  rw [reversed, storeList_append, storeList_append, List.length_reverse]
  by_cases hin : a ≤ k ∧ k ≤ a + l.length - 1
  · obtain ⟨i, rfl⟩ : ∃ i : ℕ, k = a + i := ⟨(k - a).toNat, by omega⟩
    have hi : i < l.reverse.length := by rw [List.length_reverse]; omega
    have hi' : l.length - 1 - i < l.length := by omega
    have hmirror : a + (a + l.length - 1) - (a + i) = a + ((l.length - 1 - i : ℕ) : ℤ) := by omega
    rw [if_pos hin, hmirror, storeList_outside (Or.inl (by omega)), storeList_apply hi',
      storeList_outside (Or.inl (by omega)), storeList_apply hi, List.getElem_reverse]
  · rw [if_neg hin]
    by_cases hlow : k < a
    · rw [storeList_outside (Or.inl (by omega)), storeList_outside (Or.inl hlow),
        storeList_outside (Or.inl (by omega)), storeList_outside (Or.inl hlow)]
    · obtain ⟨i, rfl⟩ : ∃ i : ℕ, k = a + l.length + i := ⟨(k - (a + l.length)).toNat, by omega⟩
      by_cases hi : i < l'.length
      · rw [storeList_apply hi, storeList_apply hi]
      · rw [storeList_outside (Or.inr (by omega)), storeList_outside (Or.inr (by omega)),
          storeList_outside (Or.inr (by omega)), storeList_outside
            (Or.inr (by rw [List.length_reverse]; omega))]

end Lists

theorem copyUp_outside {dst src : ℤ} {memory : ℤ → Value} {count : ℕ} {a : ℤ}
    (h : a < dst ∨ dst + count ≤ a) : copyUp dst src memory count a = memory a := by
  induction count with
  | zero => rfl
  | succ count ih =>
    have hne : a ≠ dst + count := by push_cast at h; omega
    change Function.update (copyUp dst src memory count) (dst + count) _ a = _
    rw [Function.update_of_ne hne]
    exact ih (by push_cast at h; omega)

/-- The upward loop moves data to lower addresses without reading what it has overwritten. -/
theorem copyUp_apply {dst src : ℤ} (hle : dst ≤ src) {memory : ℤ → Value} {count i : ℕ}
    (hi : i < count) : copyUp dst src memory count (dst + i) = memory (src + i) := by
  induction count with
  | zero => omega
  | succ count ih =>
    change Function.update (copyUp dst src memory count) (dst + count) _ (dst + i) = _
    by_cases hlast : i = count
    · rw [hlast, Function.update_self]
      -- the source byte of the last iteration lies at or above everything stored so far
      exact copyUp_outside (Or.inr (by omega))
    · rw [Function.update_of_ne (by omega)]
      exact ih (by omega)

theorem copyDown_outside {dst src : ℤ} {memory : ℤ → Value} {count : ℕ} {a : ℤ}
    (h : a < dst ∨ dst + count ≤ a) : copyDown dst src count memory a = memory a := by
  induction count generalizing memory with
  | zero => rfl
  | succ count ih =>
    have hne : a ≠ dst + count := by push_cast at h; omega
    rw [copyDown, ih (by push_cast at h; omega), Function.update_of_ne hne]

/-- The downward loop moves data to higher addresses without reading what it has overwritten. -/
theorem copyDown_apply {dst src : ℤ} (hle : src ≤ dst) {memory : ℤ → Value} {count i : ℕ}
    (hi : i < count) : copyDown dst src count memory (dst + i) = memory (src + i) := by
  induction count generalizing memory with
  | zero => omega
  | succ count ih =>
    rw [copyDown]
    by_cases hlast : i = count
    · rw [hlast, copyDown_outside (Or.inr (by omega)), Function.update_self]
    · -- the bytes still to be read lie below everything stored so far
      rw [ih (by omega), Function.update_of_ne (by omega)]

end Sp18.Foundation
