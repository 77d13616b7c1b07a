import Sp18.Foundation.ByteMemory
import Mathlib.Data.List.GetD
import Mathlib.Data.UInt

/-!
# Records in memory

Numbers as little-endian bytes, and tables of records of one size. A list is `Stored` at an address
if the memory reads as the list from there on.

A list that is put together from parts is stored if each part is stored behind the one before
(`stored_append`), so that record `i` of a table is found `i` records behind its start
(`Stored.record`). What is read of a stored number is the number (`ofLittleEndian_littleEndian`).
-/

set_option autoImplicit false
set_option relaxedAutoImplicit false

namespace Sp18.Foundation

/-! ### Numbers -/

/-- The `count` low bytes of a number, the lowest first. -/
def littleEndian (count value : ℕ) : List UInt8 :=
  match count with
  | 0 => []
  | count + 1 => UInt8.ofNat value :: littleEndian count (value / 256)

/-- The number that the bytes stand for, the lowest first. -/
def ofLittleEndian : List UInt8 → ℕ
  | [] => 0
  | byte :: rest => byte.toNat + 256 * ofLittleEndian rest

@[simp] theorem length_littleEndian (count value : ℕ) :
    (littleEndian count value).length = count := by
  induction count generalizing value with
  | zero => rfl
  | succ count ih => rw [littleEndian, List.length_cons, ih]

theorem ofLittleEndian_littleEndian (count value : ℕ) :
    ofLittleEndian (littleEndian count value) = value % 256 ^ count := by
  induction count generalizing value with
  | zero => rw [pow_zero, Nat.mod_one, littleEndian, ofLittleEndian]
  | succ count ih =>
    have hlow : (UInt8.ofNat value).toNat = value % 256 := UInt8.toNat_ofNat'
    rw [littleEndian, ofLittleEndian, ih, hlow, Nat.pow_succ', Nat.mod_mul]

/-! ### Lists in memory -/

section Stored

variable {Value : Type*} {memory : ℤ → Value} {a : ℤ}

/-- The memory holds the values of the list from the address on. -/
def Stored (memory : ℤ → Value) (a : ℤ) (values : List Value) : Prop :=
  valuesAt memory a values.length = values

theorem stored_append (values values' : List Value) : Stored memory a (values ++ values') ↔
    Stored memory a values ∧ Stored memory (a + values.length) values' := by
  unfold Stored
  rw [List.length_append, valuesAt_append]
  refine ⟨fun h ↦ List.append_inj h (length_valuesAt _ _ _), fun ⟨hvalues, hvalues'⟩ ↦ ?_⟩
  rw [hvalues, hvalues']

/-- An address relative to another one. -/
theorem stored_shift {b : ℤ} {values : List Value} :
    Stored (fun i ↦ memory (b + i)) a values ↔ Stored memory (b + a) values := by
  unfold Stored valuesAt
  simp only [add_assoc]

theorem Stored.apply {values : List Value} (h : Stored memory a values) {i : ℕ}
    (hi : i < values.length) : memory (a + i) = values[i] :=
  apply_of_valuesAt h hi

theorem stored_of_apply {values : List Value}
    (h : ∀ i (hi : i < values.length), memory (a + i) = values[i]) : Stored memory a values := by
  refine List.ext_getElem (length_valuesAt _ _ _) fun i hi hi' ↦ ?_
  simp only [valuesAt, List.getElem_map, List.getElem_range, h i hi']

/-- A list that is filled up to a size reads as the list, and as the filling behind it. -/
theorem Stored.rightpad {values : List Value} {size : ℕ} {filling : Value}
    (h : Stored memory a (values.rightpad size filling)) {i : ℕ} (hi : i < size) :
    memory (a + i) = values.getD i filling := by
  have hlt : i < (values.rightpad size filling).length := by
    rw [List.length_rightpad]
    omega
  rw [h.apply hlt]
  by_cases hin : i < values.length
  · rw [List.getD_eq_getElem _ _ hin]
    simp only [List.rightpad, List.getElem_append_left hin]
  · rw [List.getD_eq_default _ _ (by omega)]
    simp only [List.rightpad, List.getElem_append_right (not_lt.mp hin), List.getElem_replicate]

variable {Record : Type*} {encode : Record → List Value} {size : ℕ} {records : List Record}

theorem length_flatMap_of_size (hsize : ∀ record ∈ records, (encode record).length = size) :
    (records.flatMap encode).length = records.length * size := by
  induction records with
  | nil => rw [List.flatMap_nil, List.length_nil, List.length_nil, Nat.zero_mul]
  | cons record records ih =>
    rw [List.flatMap_cons, List.length_append, hsize record List.mem_cons_self,
      ih fun other hother ↦ hsize other (List.mem_cons_of_mem _ hother), List.length_cons]
    ring

/-- Each record of a table stands behind those before it. -/
theorem Stored.record (h : Stored memory a (records.flatMap encode))
    (hsize : ∀ record ∈ records, (encode record).length = size) {i : ℕ} (hi : i < records.length) :
    Stored memory (a + i * size) (encode records[i]) := by
  induction records generalizing a i with
  | nil => exact absurd hi (Nat.not_lt_zero i)
  | cons record records ih =>
    rw [List.flatMap_cons, stored_append, hsize record List.mem_cons_self] at h
    cases i with
    | zero => simpa using h.1
    | succ i =>
      have hrest := ih h.2 (fun other hother ↦ hsize other (List.mem_cons_of_mem _ hother))
        (Nat.lt_of_succ_lt_succ hi)
      have haddress : a + (i + 1 : ℕ) * size = a + size + i * size := by
        push_cast
        ring
      rwa [haddress]

end Stored

end Sp18.Foundation
