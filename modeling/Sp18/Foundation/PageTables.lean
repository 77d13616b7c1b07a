import Mathlib.Data.BitVec

/-!
# Page tables of a 32-bit processor

Paging in two levels, with pages of 4 KB and of 4 MB. An entry of the page directory maps 4 MB, as
one page or through a page table of 1024 entries. The lower bits of an entry say whether it is
present and who may use it; the upper ones are where the page or the table is.

Physical memory is taken by words. A table begins at a page of its own (`Aligned`), so that the
entries of different tables are different words (`entryAddr_inj`).
-/

set_option autoImplicit false
set_option relaxedAutoImplicit false

namespace Sp18.Foundation

/-- The words of physical memory, by their addresses. -/
abbrev PhysicalWords : Type := BitVec 32 → BitVec 32

/-- Who makes an access: the supervisor may use all pages that are present. -/
inductive Privilege where
  | user
  | supervisor
  deriving DecidableEq

/-- A table begins at a page. -/
def Aligned (table : BitVec 32) : Prop := table.toNat % 4096 = 0

/-- Where an entry of a table is. -/
def entryAddr (table : BitVec 32) (i : ℕ) : BitVec 32 := table + BitVec.ofNat 32 (4 * i)

/-- An entry permits an access. The supervisor may write to pages that are for reading only. -/
def Grants (entry : BitVec 32) (privilege : Privilege) (write : Bool) : Prop :=
  entry.getLsbD 0 = true ∧
    (privilege = .user → entry.getLsbD 2 = true ∧ (write = true → entry.getLsbD 1 = true))

instance (entry : BitVec 32) (privilege : Privilege) (write : Bool) :
    Decidable (Grants entry privilege write) :=
  inferInstanceAs (Decidable (_ ∧ (_ → _ ∧ (_ → _))))

/-- The entry of the directory for an address. -/
def directoryIndex (a : BitVec 32) : ℕ := a.toNat / 4194304

/-- The entry of the page table for an address. -/
def tableIndex (a : BitVec 32) : ℕ := a.toNat / 4096 % 1024

/-- An entry without its lowest bits. -/
def entryBase (entry : BitVec 32) (bits : ℕ) : BitVec 32 := (entry >>> bits) <<< bits

/-- The place of an address in a page. -/
def pageOffset (a : BitVec 32) (bits : ℕ) : BitVec 32 := BitVec.ofNat 32 (a.toNat % 2 ^ bits)

/-- The physical address of an access, unless it is a page fault. `directory` is the page that the
register for the page directory holds, and bit 7 of its entries says that a page has 4 MB. -/
def translate (m : PhysicalWords) (directory : BitVec 32) (privilege : Privilege) (write : Bool)
    (a : BitVec 32) : Option (BitVec 32) :=
  let pde := m (entryAddr directory (directoryIndex a))
  if Grants pde privilege write then
    if pde.getLsbD 7 = true then some (entryBase pde 22 + pageOffset a 22)
    else
      let pte := m (entryAddr (entryBase pde 12) (tableIndex a))
      if Grants pte privilege write then some (entryBase pte 12 + pageOffset a 12) else none
  else none

variable {m : PhysicalWords} {directory table table' a : BitVec 32} {privilege : Privilege}
  {write : Bool} {i j : ℕ}

theorem toNat_entryAddr (h : Aligned table) (hi : i < 1024) :
    (entryAddr table i).toNat = table.toNat + 4 * i := by
  have hlt := table.isLt
  rw [Aligned] at h
  rw [entryAddr, BitVec.toNat_add, BitVec.toNat_ofNat]
  omega

/-- The entries of different tables are different words. -/
theorem entryAddr_inj (h : Aligned table) (h' : Aligned table') (hi : i < 1024) (hj : j < 1024) :
    entryAddr table i = entryAddr table' j ↔ table = table' ∧ i = j := by
  constructor
  · intro heq
    have hnat := congrArg BitVec.toNat heq
    rw [toNat_entryAddr h hi, toNat_entryAddr h' hj] at hnat
    rw [Aligned] at h h'
    exact ⟨BitVec.eq_of_toNat_eq (by omega), by omega⟩
  · rintro ⟨rfl, rfl⟩
    rfl

theorem directoryIndex_lt (a : BitVec 32) : directoryIndex a < 1024 := by
  have hlt := a.isLt
  rw [directoryIndex]
  omega

theorem tableIndex_lt (a : BitVec 32) : tableIndex a < 1024 := Nat.mod_lt _ (by decide)

theorem toNat_entryBase (entry : BitVec 32) (bits : ℕ) :
    (entryBase entry bits).toNat = entry.toNat / 2 ^ bits * 2 ^ bits := by
  have hlt : entry.toNat / 2 ^ bits * 2 ^ bits < 2 ^ 32 :=
    (Nat.div_mul_le_self _ _).trans_lt entry.isLt
  rw [entryBase, BitVec.toNat_shiftLeft, BitVec.toNat_ushiftRight, Nat.shiftRight_eq_div_pow,
    Nat.shiftLeft_eq, Nat.mod_eq_of_lt hlt]

theorem toNat_pageOffset {bits : ℕ} (h : bits < 32) :
    (pageOffset a bits).toNat = a.toNat % 2 ^ bits := by
  rw [pageOffset, BitVec.toNat_ofNat]
  refine Nat.mod_eq_of_lt ((Nat.mod_lt _ (Nat.two_pow_pos bits)).trans ?_)
  exact Nat.pow_lt_pow_right (by decide) h

/-- A flag of an entry with the address of a table. -/
theorem getLsbD_add (h : Aligned table) {flags bit : ℕ} (hflags : flags < 256) (hbit : bit < 8) :
    (table + BitVec.ofNat 32 flags).getLsbD bit = flags.testBit bit := by
  have hlt := table.isLt
  rw [Aligned] at h
  have hsum : (table + BitVec.ofNat 32 flags).toNat = table.toNat + flags := by
    rw [BitVec.toNat_add, BitVec.toNat_ofNat]
    omega
  have hmod : (table.toNat + flags) % 2 ^ 8 = flags := by omega
  have hbits := Nat.testBit_mod_two_pow (table.toNat + flags) 8 bit
  rw [hmod, decide_eq_true hbit, Bool.true_and] at hbits
  rw [BitVec.getLsbD, hsum, hbits]

/-- The flags of an entry do not show in the address of its table. -/
theorem entryBase_add (h : Aligned table) {flags : ℕ} (hflags : flags < 4096) :
    entryBase (table + BitVec.ofNat 32 flags) 12 = table := by
  have hlt := table.isLt
  rw [Aligned] at h
  apply BitVec.eq_of_toNat_eq
  rw [toNat_entryBase, BitVec.toNat_add, BitVec.toNat_ofNat]
  omega

/-- Without a present entry there is no access. -/
theorem not_grants_zero (privilege : Privilege) (write : Bool) : ¬Grants 0 privilege write :=
  fun h ↦ Bool.false_ne_true h.1

theorem translate_of_not_grants
    (h : ¬Grants (m (entryAddr directory (directoryIndex a))) privilege write) :
    translate m directory privilege write a = none := if_neg h

/-- An access to a page of 4 MB. -/
theorem translate_large (h : Grants (m (entryAddr directory (directoryIndex a))) privilege write)
    (hlarge : (m (entryAddr directory (directoryIndex a))).getLsbD 7 = true) :
    translate m directory privilege write a =
      some (entryBase (m (entryAddr directory (directoryIndex a))) 22 + pageOffset a 22) := by
  rw [translate, if_pos h, if_pos hlarge]

/-- An access through a page table. -/
theorem translate_small (h : Grants (m (entryAddr directory (directoryIndex a))) privilege write)
    (hlarge : (m (entryAddr directory (directoryIndex a))).getLsbD 7 = false) :
    translate m directory privilege write a =
      let pte := m (entryAddr (entryBase (m (entryAddr directory (directoryIndex a))) 12)
        (tableIndex a))
      if Grants pte privilege write then some (entryBase pte 12 + pageOffset a 12) else none := by
  have hlarge : ¬(m (entryAddr directory (directoryIndex a))).getLsbD 7 = true := by
    rw [hlarge]
    exact Bool.false_ne_true
  rw [translate, if_pos h, if_neg hlarge]

/-! ### Storing to a table -/

/-- The same value is stored to a number of entries, from the first one on. -/
def storeEntries (m : PhysicalWords) (table : BitVec 32) (first count : ℕ) (value : BitVec 32) :
    PhysicalWords :=
  (List.range' first count).foldl (fun m i ↦ Function.update m (entryAddr table i) value) m

theorem storeEntries_of_forall {first count : ℕ} {value : BitVec 32}
    (h : ∀ i, first ≤ i → i < first + count → a ≠ entryAddr table i) :
    storeEntries m table first count value a = m a := by
  induction count generalizing m first with
  | zero => rfl
  | succ count ih =>
    rw [storeEntries, List.range'_succ, List.foldl_cons]
    refine (ih fun i hfirst hi ↦ h i (by omega) (by omega)).trans ?_
    exact Function.update_of_ne (h first (le_refl _) (by omega)) _ _

/-- The entries hold the value. -/
theorem storeEntries_entry (h : Aligned table) {first count : ℕ} {value : BitVec 32}
    (hfirst : first ≤ i) (hi : i < first + count) (hcount : first + count ≤ 1024) :
    storeEntries m table first count value (entryAddr table i) = value := by
  induction count generalizing m first with
  | zero => omega
  | succ count ih =>
    rw [storeEntries, List.range'_succ, List.foldl_cons]
    by_cases heq : i = first
    · subst heq
      refine (storeEntries_of_forall fun j hj hlt hsame ↦ ?_).trans (Function.update_self _ _ _)
      have hindex := ((entryAddr_inj h h (by omega) (by omega)).mp hsame).2
      omega
    · exact ih (by omega) (by omega) (by omega)

/-- The entries of other tables are as before. -/
theorem storeEntries_of_ne (h : Aligned table) (h' : Aligned table') (hne : table' ≠ table)
    {first count : ℕ} {value : BitVec 32} (hcount : first + count ≤ 1024) (hi : i < 1024) :
    storeEntries m table first count value (entryAddr table' i) = m (entryAddr table' i) := by
  refine storeEntries_of_forall fun j _ hj heq ↦ ?_
  exact hne ((entryAddr_inj h' h hi (by omega)).mp heq).1

end Sp18.Foundation
