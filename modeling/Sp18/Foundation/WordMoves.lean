import Mathlib.Data.BitVec
import Mathlib.Logic.Function.Basic
import Mathlib.Logic.Function.Iterate
import Mathlib.Tactic.IntervalCases

/-!
# Moving bytes in words

A memory of bytes with addresses of a fixed width. `fillBytes` and `copyBytes` are the plain loops
that store one byte after the other, and `storeDword` and `loadDword` take four bytes at a time, the
lowest first.

A loop that takes blocks does what a loop over single units does, as long as a block is what that
many units are (`iterate_block`). A block that is filled is one for equal bytes
(`storeDword_repeated`), and a block that is copied is one if it does not overlap with its source
(`storeDword_loadDword`).
-/

set_option autoImplicit false
set_option relaxedAutoImplicit false

namespace Sp18.Foundation

/-! ### Blocks and units -/

/-- A block is so many units wherever there is room for them, and units use up the room. -/
theorem iterate_block {State : Type*} {unit block : State → State} {size : ℕ}
    {room : ℕ → State → Prop} (hunit : ∀ n s, room (n + 1) s → room n (unit s))
    (hblock : ∀ n s, room (n + size) s → block s = unit^[size] s) (q r : ℕ) {s : State}
    (h : room (size * q + r) s) : block^[q] s = unit^[size * q] s ∧ room r (unit^[size * q] s) := by
  have hunits : ∀ k n s, room (n + k) s → room n (unit^[k] s) := by
    intro k
    induction k with
    | zero => exact fun n s h ↦ h
    | succ k ih => exact fun n s h ↦ ih n (unit s) (hunit (n + k) s h)
  refine ⟨?_, hunits _ _ _ (Nat.add_comm _ _ ▸ h)⟩
  induction q generalizing s with
  | zero => rfl
  | succ q ih =>
    have hfirst : room (size * q + r + size) s := by
      rw [Nat.mul_succ, Nat.add_right_comm] at h
      exact h
    rw [Function.iterate_succ_apply, hblock _ s hfirst, ih (hunits size _ s hfirst), Nat.mul_succ,
      Function.iterate_add_apply]

section Regions

variable {w : ℕ}

/-- The `n` addresses from `start` on, beyond the last one from zero on. -/
def InRegion (start : BitVec w) (n : ℕ) (a : BitVec w) : Prop := (a - start).toNat < n

instance (start : BitVec w) (n : ℕ) (a : BitVec w) : Decidable (InRegion start n a) :=
  inferInstanceAs (Decidable ((a - start).toNat < n))

variable {start a : BitVec w} {n : ℕ}

theorem toNat_sub_eq_iff (hn : n < 2 ^ w) :
    (a - start).toNat = n ↔ a = start + BitVec.ofNat w n := by
  constructor
  · rintro rfl
    rw [BitVec.ofNat_toNat, BitVec.setWidth_eq, BitVec.add_comm, BitVec.sub_add_cancel]
  · rintro rfl
    rw [BitVec.add_comm, BitVec.add_sub_cancel, BitVec.toNat_ofNat, Nat.mod_eq_of_lt hn]

theorem inRegion_succ (hn : n < 2 ^ w) :
    InRegion start (n + 1) a ↔ InRegion start n a ∨ a = start + BitVec.ofNat w n := by
  rw [InRegion, InRegion, ← toNat_sub_eq_iff hn, Nat.lt_succ_iff_lt_or_eq]

/-- A region that does not wrap around. -/
theorem inRegion_iff_of_le (h : start.toNat + n ≤ 2 ^ w) :
    InRegion start n a ↔ start.toNat ≤ a.toNat ∧ a.toNat < start.toNat + n := by
  have ha := a.isLt
  have hstart := start.isLt
  rw [InRegion, BitVec.toNat_sub]
  rcases Nat.lt_or_ge a.toNat start.toNat with hlt | hge
  · rw [Nat.mod_eq_of_lt (by omega)]
    omega
  · have hsum : 2 ^ w - start.toNat + a.toNat = a.toNat - start.toNat + 2 ^ w := by omega
    rw [hsum, Nat.add_mod_right, Nat.mod_eq_of_lt (by omega)]
    omega

end Regions

/-! ### The plain loops -/

/-- A memory of bytes. -/
abbrev Bytes (w : ℕ) : Type := BitVec w → BitVec 8

section Loops

variable {w : ℕ}

/-- The loop `for (i = 0; i < n; i++) s[i] = value`. -/
def fillBytes (m : Bytes w) (s : BitVec w) (value : BitVec 8) : ℕ → Bytes w
  | 0 => m
  | i + 1 => Function.update (fillBytes m s value i) (s + BitVec.ofNat w i) value

/-- The loop `for (i = 0; i < n; i++) dest[i] = src[i]`. -/
def copyBytes (m : Bytes w) (dest src : BitVec w) : ℕ → Bytes w
  | 0 => m
  | i + 1 => Function.update (copyBytes m dest src i) (dest + BitVec.ofNat w i)
      (copyBytes m dest src i (src + BitVec.ofNat w i))

theorem add_ofNat_succ (a : BitVec w) (n : ℕ) :
    a + BitVec.ofNat w n + 1 = a + BitVec.ofNat w (n + 1) := by
  rw [BitVec.add_assoc, ← BitVec.ofNat_add_ofNat]
  rfl

/-- Two regions of so many addresses have none in common. -/
def Apart (start start' : BitVec w) (n : ℕ) : Prop :=
  ∀ i < n, ∀ j < n, start + BitVec.ofNat w i ≠ start' + BitVec.ofNat w j

/-- Regions that do not wrap around are apart if one ends where the other starts, or before. -/
theorem apart_of_le {start start' : BitVec w} {n : ℕ} (hend : start.toNat + n ≤ 2 ^ w)
    (hend' : start'.toNat + n ≤ 2 ^ w)
    (hdisjoint : start'.toNat + n ≤ start.toNat ∨ start.toNat + n ≤ start'.toNat) :
    Apart start start' n := by
  intro i hi j hj heq
  have htoNat : ∀ (a : BitVec w) (k : ℕ), a.toNat + n ≤ 2 ^ w → k < n →
      (a + BitVec.ofNat w k).toNat = a.toNat + k := by
    intro a k ha hk
    have hmod : k % 2 ^ w = k := Nat.mod_eq_of_lt (by omega)
    rw [BitVec.toNat_add, BitVec.toNat_ofNat, hmod, Nat.mod_eq_of_lt (by omega)]
  have hnat := congrArg BitVec.toNat heq
  rw [htoNat start i hend hi, htoNat start' j hend' hj] at hnat
  omega

variable (m : Bytes w) {s dest src : BitVec w} {n : ℕ}

theorem fillBytes_apply (value : BitVec 8) (hn : n ≤ 2 ^ w) (a : BitVec w) :
    fillBytes m s value n a = if InRegion s n a then value else m a := by
  induction n with
  | zero => exact (if_neg (Nat.not_lt_zero _)).symm
  | succ n ih =>
    rw [fillBytes, Function.update_apply, ih (Nat.le_of_succ_le hn)]
    simp only [inRegion_succ hn]
    split_ifs <;> tauto

/-- The loop does not change the source. -/
theorem copyBytes_source (hapart : Apart src dest n) {k j : ℕ} (hk : k ≤ n) (hj : j < n) :
    copyBytes m dest src k (src + BitVec.ofNat w j) = m (src + BitVec.ofNat w j) := by
  induction k with
  | zero => rfl
  | succ k ih => rw [copyBytes, Function.update_of_ne (hapart j hj k hk), ih (Nat.le_of_succ_le hk)]

/-- A copy takes the bytes that have been in the source before it. -/
theorem copyBytes_apply (hn : n ≤ 2 ^ w) (hapart : Apart src dest n) (a : BitVec w) :
    copyBytes m dest src n a = if InRegion dest n a then m (src + (a - dest)) else m a := by
  have hprefix : ∀ k ≤ n, ∀ a,
      copyBytes m dest src k a = if InRegion dest k a then m (src + (a - dest)) else m a := by
    intro k hk
    induction k with
    | zero => exact fun a ↦ (if_neg (Nat.not_lt_zero _)).symm
    | succ k ih =>
      intro a
      rw [copyBytes, Function.update_apply, copyBytes_source m hapart (Nat.le_of_succ_le hk) hk,
        ih (Nat.le_of_succ_le hk)]
      simp only [inRegion_succ (Nat.lt_of_lt_of_le hk hn)]
      by_cases ha : a = dest + BitVec.ofNat w k
      · have hoffset : a - dest = BitVec.ofNat w k := by
          rw [ha, BitVec.add_comm, BitVec.add_sub_cancel]
        rw [if_pos ha, if_pos (Or.inr ha), hoffset]
      · rw [if_neg ha]
        simp only [ha, or_false]
  exact hprefix n le_rfl a

end Loops

/-! ### Doublewords -/

/-- The doubleword of four bytes, the highest first. -/
def dword (b3 b2 b1 b0 : BitVec 8) : BitVec 32 :=
  b3.setWidth 32 <<< 24 ||| b2.setWidth 32 <<< 16 ||| b1.setWidth 32 <<< 8 ||| b0.setWidth 32

/-- The doubleword at an address. -/
def loadDword (m : Bytes 32) (a : BitVec 32) : BitVec 32 :=
  dword (m (a + 3)) (m (a + 2)) (m (a + 1)) (m a)

/-- A doubleword is stored. -/
def storeDword (m : Bytes 32) (a value : BitVec 32) : Bytes 32 :=
  Function.update (Function.update (Function.update (Function.update m
    a (value.extractLsb' 0 8)) (a + 1) (value.extractLsb' 8 8)) (a + 2) (value.extractLsb' 16 8))
    (a + 3) (value.extractLsb' 24 8)

/-- A doubleword gives its bytes back. -/
theorem extractLsb'_dword (b3 b2 b1 b0 : BitVec 8) :
    (dword b3 b2 b1 b0).extractLsb' 0 8 = b0 ∧ (dword b3 b2 b1 b0).extractLsb' 8 8 = b1 ∧
      (dword b3 b2 b1 b0).extractLsb' 16 8 = b2 ∧ (dword b3 b2 b1 b0).extractLsb' 24 8 = b3 := by
  refine ⟨?_, ?_, ?_, ?_⟩
  all_goals
    ext i hi
    simp only [dword, BitVec.getElem_extractLsb', BitVec.getLsbD_or, BitVec.getLsbD_shiftLeft,
      BitVec.getLsbD_setWidth]
    interval_cases i <;> simp

theorem setWidth_dword (b3 b2 b1 b0 : BitVec 8) : (dword b3 b2 b1 b0).setWidth 8 = b0 := by
  rw [BitVec.setWidth_eq_extractLsb' (by decide)]
  exact (extractLsb'_dword b3 b2 b1 b0).1

variable (m : Bytes 32)

theorem storeDword_dword (a : BitVec 32) (b3 b2 b1 b0 : BitVec 8) :
    storeDword m a (dword b3 b2 b1 b0) =
      Function.update (Function.update (Function.update (Function.update m
        a b0) (a + 1) b1) (a + 2) b2) (a + 3) b3 := by
  obtain ⟨h0, h1, h2, h3⟩ := extractLsb'_dword b3 b2 b1 b0
  rw [storeDword, h0, h1, h2, h3]

/-- A doubleword of equal bytes fills four bytes. -/
theorem storeDword_repeated (a : BitVec 32) (b : BitVec 8) :
    storeDword m a (dword b b b b) = fillBytes m a b 4 := by
  rw [storeDword_dword]
  simp only [fillBytes]
  rw [BitVec.add_zero]
  rfl

/-- A doubleword that does not overlap with its source is a copy of four bytes. -/
theorem storeDword_loadDword {dest src : BitVec 32} (hapart : Apart src dest 4) :
    storeDword m dest (loadDword m src) = copyBytes m dest src 4 := by
  have hsource : ∀ k < 4, copyBytes m dest src k (src + BitVec.ofNat 32 k) =
      m (src + BitVec.ofNat 32 k) := fun k hk ↦ copyBytes_source m hapart hk.le hk
  have hfirst : src + BitVec.ofNat 32 0 = src := BitVec.add_zero src
  rw [loadDword, storeDword_dword, copyBytes, hsource 3 (by decide), copyBytes,
    hsource 2 (by decide), copyBytes, hsource 1 (by decide), copyBytes, hsource 0 (by decide),
    hfirst, BitVec.add_zero]
  rfl

end Sp18.Foundation
