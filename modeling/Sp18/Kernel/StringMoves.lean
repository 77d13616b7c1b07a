import Sp18.Foundation.ByteMemory
import Sp18.Foundation.WordMoves

/-!
# Filling and copying memory

`memset` and `memcpy` of `lib.c`. Both store single bytes up to an aligned address, then doublewords
with a string instruction, and single bytes again for the rest (`moveLoop`). A doubleword is what
four single bytes are, so that the routines do what the plain loops over bytes do
(`moveLoop_eq`, `memset_eq`, `memcpy_eq`). Where addresses are integers, `memcpy` is the copy that
stands for it there (`memcpy_integerView`).
-/

set_option autoImplicit false
set_option relaxedAutoImplicit false

namespace Sp18.Kernel.Lib

open Foundation

section Loops

variable {State : Type*} (byteStep dwordStep : State → State) (edi : State → BitVec 32)

/-- The loop from `.memset_bottom` or `.memcpy_bottom` on. -/
def bottomLoop : ℕ → BitVec 32 → State → Option State
  | 0, _, _ => none
  | fuel + 1, edx, s => if edx = 0 then some s else bottomLoop fuel (edx - 1) (byteStep s)

/-- The code from `.memset_aligned` or `.memcpy_aligned` on. `%es` is set to `%ds`, and `rep` counts
`%ecx` down to zero. -/
def alignedMoves (fuel : ℕ) (ecx : BitVec 32) (s : State) : Option State :=
  let edx := ecx
  let ecx := ecx >>> 2
  let edx := edx &&& 3
  bottomLoop byteStep fuel edx (dwordStep^[ecx.toNat] s)

/-- The loop from `.memset_top` or `.memcpy_top` on. -/
def moveLoop : ℕ → BitVec 32 → State → Option State
  | 0, _, _ => none
  | fuel + 1, ecx, s =>
    if ecx = 0 then some s
    else if edi s &&& 3 = 0 then alignedMoves byteStep dwordStep (fuel + 1) ecx s
    else moveLoop fuel (ecx - 1) (byteStep s)

variable {byteStep dwordStep}

theorem toNat_sub_one {n : BitVec 32} (h : n ≠ 0) : (n - 1).toNat + 1 = n.toNat := by
  have hpos : n.toNat ≠ 0 := fun hzero ↦ h (BitVec.eq_of_toNat_eq hzero)
  have hone : (1 : BitVec 32).toNat = 1 := rfl
  have hlt := n.isLt
  rw [BitVec.toNat_sub, hone]
  omega

theorem bottomLoop_eq {fuel : ℕ} {edx : BitVec 32} (hfuel : edx.toNat < fuel) (s : State) :
    bottomLoop byteStep fuel edx s = some (byteStep^[edx.toNat] s) := by
  induction fuel generalizing edx s with
  | zero => exact absurd hfuel (Nat.not_lt_zero _)
  | succ fuel ih =>
    rw [bottomLoop]
    split_ifs with hzero
    · rw [hzero]
      rfl
    · have hnext := toNat_sub_one hzero
      rw [ih (by omega), ← hnext, Function.iterate_succ_apply]

/-- The doublewords and the rest make the count. -/
theorem quotient_add_rest (ecx : BitVec 32) :
    4 * (ecx >>> 2).toNat + (ecx &&& 3).toNat = ecx.toNat := by
  have hthree : (3 : BitVec 32).toNat = 2 ^ 2 - 1 := rfl
  rw [BitVec.toNat_ushiftRight, BitVec.toNat_and, hthree, Nat.and_two_pow_sub_one_eq_mod,
    Nat.shiftRight_eq_div_pow]
  omega

/-- Where a doubleword is what four bytes are, the three loops do what one loop over bytes does. -/
theorem moveLoop_eq (edi : State → BitVec 32) (room : ℕ → State → Prop)
    (hbyte : ∀ n s, room (n + 1) s → room n (byteStep s))
    (hdword : ∀ n s, room (n + 4) s → dwordStep s = byteStep^[4] s) {fuel : ℕ} {ecx : BitVec 32}
    (hfuel : ecx.toNat < fuel) {s : State} (h : room ecx.toNat s) :
    moveLoop byteStep dwordStep edi fuel ecx s = some (byteStep^[ecx.toNat] s) := by
  induction fuel generalizing ecx s with
  | zero => exact absurd hfuel (Nat.not_lt_zero _)
  | succ fuel ih =>
    rw [moveLoop]
    split_ifs with hzero haligned
    · rw [hzero]
      rfl
    · have hsum := quotient_add_rest ecx
      rw [← hsum] at h
      have hblocks := (iterate_block hbyte hdword _ _ h).1
      rw [alignedMoves, hblocks, bottomLoop_eq (by omega), ← Function.iterate_add_apply,
        Nat.add_comm, hsum]
    · have hnext := toNat_sub_one hzero
      rw [← hnext] at h
      rw [ih (by omega) (hbyte _ _ h), ← hnext, Function.iterate_succ_apply]

end Loops

section Memset

/-- What `memset` works on. -/
structure Filling where
  memory : Bytes 32
  edi : BitVec 32

/-- `movb %al, (%edi)` and `addl $1, %edi`. -/
def Filling.storeByte (eax : BitVec 32) (s : Filling) : Filling :=
  { memory := Function.update s.memory s.edi (eax.setWidth 8), edi := s.edi + 1 }

/-- `stosl` -/
def Filling.stosl (eax : BitVec 32) (s : Filling) : Filling :=
  { memory := storeDword s.memory s.edi eax, edi := s.edi + 4 }

/-- `memset`: the memory after it and the return value. -/
def memset (m : Bytes 32) (s c n : BitVec 32) (fuel : ℕ) : Option (Bytes 32 × BitVec 32) :=
  let c := c &&& 0xFF
  let eax := c <<< 24 ||| c <<< 16 ||| c <<< 8 ||| c
  (moveLoop (Filling.storeByte eax) (Filling.stosl eax) Filling.edi fuel n ⟨m, s⟩).map
    fun after ↦ (after.memory, s)

/-- The four bytes in `%eax` are the low byte of `c`. -/
theorem eax_eq (c : BitVec 32) :
    (c &&& 0xFF) <<< 24 ||| (c &&& 0xFF) <<< 16 ||| (c &&& 0xFF) <<< 8 ||| (c &&& 0xFF) =
      dword (c.setWidth 8) (c.setWidth 8) (c.setWidth 8) (c.setWidth 8) := by
  have hbyte : c &&& 0xFF = (c.setWidth 8).setWidth 32 := by
    have hmask : (0xFF : BitVec 32).toNat = 2 ^ 8 - 1 := rfl
    apply BitVec.eq_of_toNat_eq
    rw [BitVec.toNat_and, hmask, Nat.and_two_pow_sub_one_eq_mod, BitVec.toNat_setWidth,
      BitVec.toNat_setWidth]
    omega
  rw [hbyte]
  rfl

/-- The plain loop. -/
theorem iterate_storeByte (eax : BitVec 32) (m : Bytes 32) (s : BitVec 32) (n : ℕ) :
    (Filling.storeByte eax)^[n] ⟨m, s⟩ =
      ⟨fillBytes m s (eax.setWidth 8) n, s + BitVec.ofNat 32 n⟩ := by
  induction n with
  | zero =>
    rw [Function.iterate_zero_apply, BitVec.add_zero]
    rfl
  | succ n ih =>
    rw [Function.iterate_succ_apply', ih, Filling.storeByte, add_ofNat_succ]
    rfl

/-- A doubleword of equal bytes is four bytes. -/
theorem stosl_eq (b : BitVec 8) (s : Filling) :
    s.stosl (dword b b b b) = (Filling.storeByte (dword b b b b))^[4] s := by
  have hloop := iterate_storeByte (dword b b b b) s.memory s.edi 4
  rw [setWidth_dword] at hloop
  rw [Filling.stosl, storeDword_repeated]
  exact hloop.symm

/-- `memset` does what the plain loop does. -/
theorem memset_eq (m : Bytes 32) (s c n : BitVec 32) {fuel : ℕ} (hfuel : n.toNat < fuel) :
    memset m s c n fuel = some (fillBytes m s (c.setWidth 8) n.toNat, s) := by
  have hloop := moveLoop_eq Filling.edi (fun _ _ ↦ True) (fun _ _ _ ↦ trivial)
    (fun _ s _ ↦ stosl_eq (c.setWidth 8) s) hfuel (s := ⟨m, s⟩) trivial
  rw [iterate_storeByte, setWidth_dword] at hloop
  rw [memset, eax_eq, hloop]
  rfl

end Memset

section Memcpy

/-- What `memcpy` works on. -/
structure Copying where
  memory : Bytes 32
  edi : BitVec 32
  esi : BitVec 32

/-- `movb (%esi), %al` and `movb %al, (%edi)`, and 1 added to both addresses. -/
def Copying.moveByte (s : Copying) : Copying :=
  { memory := Function.update s.memory s.edi (s.memory s.esi)
    edi := s.edi + 1
    esi := s.esi + 1 }

/-- `movsl` -/
def Copying.movsl (s : Copying) : Copying :=
  { memory := storeDword s.memory s.edi (loadDword s.memory s.esi)
    edi := s.edi + 4
    esi := s.esi + 4 }

/-- `memcpy`: the memory after it and the return value. -/
def memcpy (m : Bytes 32) (dest src n : BitVec 32) (fuel : ℕ) : Option (Bytes 32 × BitVec 32) :=
  (moveLoop Copying.moveByte Copying.movsl Copying.edi fuel n ⟨m, dest, src⟩).map
    fun after ↦ (after.memory, dest)

/-- The plain loop. -/
theorem iterate_moveByte (m : Bytes 32) (dest src : BitVec 32) (n : ℕ) :
    Copying.moveByte^[n] ⟨m, dest, src⟩ =
      ⟨copyBytes m dest src n, dest + BitVec.ofNat 32 n, src + BitVec.ofNat 32 n⟩ := by
  induction n with
  | zero =>
    rw [Function.iterate_zero_apply, BitVec.add_zero, BitVec.add_zero]
    rfl
  | succ n ih =>
    rw [Function.iterate_succ_apply', ih, Copying.moveByte, add_ofNat_succ, add_ofNat_succ]
    rfl

/-- There are `n` more bytes to copy, and they do not overlap with where they are copied to. -/
def Copying.Room (n : ℕ) (s : Copying) : Prop := Apart s.esi s.edi n

theorem Copying.Room.moveByte {n : ℕ} {s : Copying} (h : s.Room (n + 1)) : s.moveByte.Room n := by
  intro i hi j hj heq
  refine h (i + 1) (Nat.succ_lt_succ hi) (j + 1) (Nat.succ_lt_succ hj) ?_
  have hnext : ∀ (a : BitVec 32) (k : ℕ),
      a + 1 + BitVec.ofNat 32 k = a + BitVec.ofNat 32 (k + 1) := by
    intro a k
    rw [← add_ofNat_succ, BitVec.add_assoc, BitVec.add_assoc, BitVec.add_comm 1]
  rw [← hnext, ← hnext]
  exact heq

theorem movsl_eq {n : ℕ} {s : Copying} (h : s.Room (n + 4)) :
    s.movsl = Copying.moveByte^[4] s := by
  have hapart : Apart s.esi s.edi 4 := fun i hi j hj ↦ h i (by omega) j (by omega)
  rw [Copying.movsl, storeDword_loadDword s.memory hapart]
  exact (iterate_moveByte s.memory s.edi s.esi 4).symm

/-- `memcpy` does what the plain loop does. -/
theorem memcpy_eq (m : Bytes 32) {dest src n : BitVec 32} (hapart : Apart src dest n.toNat)
    {fuel : ℕ} (hfuel : n.toNat < fuel) :
    memcpy m dest src n fuel = some (copyBytes m dest src n.toNat, dest) := by
  have hloop := moveLoop_eq Copying.edi Copying.Room
    (fun _ _ h ↦ h.moveByte) (fun _ _ h ↦ movsl_eq h) hfuel (s := ⟨m, dest, src⟩) hapart
  rw [iterate_moveByte] at hloop
  rw [memcpy, hloop]
  rfl

end Memcpy

/-- A memory with integers for its addresses. -/
def integerView (m : Bytes 32) (a : ℤ) : BitVec 8 := m (BitVec.ofInt 32 a)

/-- With integers for addresses, `memcpy` is the copy from memory to memory. -/
theorem memcpy_integerView (m : Bytes 32) {dest src n : BitVec 32}
    (hdest : dest.toNat + n.toNat ≤ 2 ^ 32) (hapart : Apart src dest n.toNat) {fuel : ℕ}
    (hfuel : n.toNat < fuel) :
    ∃ m', memcpy m dest src n fuel = some (m', dest) ∧ ∀ a : ℤ, 0 ≤ a → a < 2 ^ 32 →
      integerView m' a =
        Foundation.memcpy (integerView m) dest.toNat (integerView m) src.toNat n.toNat a := by
  refine ⟨_, memcpy_eq m hapart hfuel, fun a ha ha' ↦ ?_⟩
  have htoNat : (BitVec.ofInt 32 a).toNat = a.toNat := by
    rw [BitVec.toNat_ofInt]
    omega
  rw [integerView, copyBytes_apply m n.isLt.le hapart, Foundation.memcpy]
  simp only [inRegion_iff_of_le hdest, htoNat]
  refine if_congr (by omega) ?_ rfl
  rw [integerView]
  congr 1
  apply BitVec.eq_of_toNat_eq
  simp only [BitVec.toNat_add, BitVec.toNat_sub, htoNat, BitVec.toNat_ofInt]
  omega

/-- For all alignments and lengths, both routines end and do what the plain loops do, in regions
that do not wrap around and do not overlap: the bytes of the destination get the low byte of `c` or
those of the source, and no other byte changes. -/
theorem memset_memcpy_bytewise (m : Bytes 32) {dest n : BitVec 32}
    (hdest : dest.toNat + n.toNat ≤ 2 ^ 32) :
    (∀ c, ∃ m', (∃ fuel₀, ∀ fuel ≥ fuel₀, memset m dest c n fuel = some (m', dest)) ∧
        m' = fillBytes m dest (c.setWidth 8) n.toNat ∧
        ∀ a, m' a = if dest.toNat ≤ a.toNat ∧ a.toNat < dest.toNat + n.toNat then c.setWidth 8
          else m a) ∧
      ∀ src, src.toNat + n.toNat ≤ 2 ^ 32 →
        dest.toNat + n.toNat ≤ src.toNat ∨ src.toNat + n.toNat ≤ dest.toNat →
        ∃ m', (∃ fuel₀, ∀ fuel ≥ fuel₀, memcpy m dest src n fuel = some (m', dest)) ∧
          m' = copyBytes m dest src n.toNat ∧
          ∀ a, m' a = if dest.toNat ≤ a.toNat ∧ a.toNat < dest.toNat + n.toNat then
            m (src + (a - dest)) else m a := by
  have hn : n.toNat ≤ 2 ^ 32 := n.isLt.le
  constructor
  · intro c
    refine ⟨_, ⟨n.toNat + 1, fun fuel hfuel ↦ memset_eq m dest c n hfuel⟩, rfl, fun a ↦ ?_⟩
    rw [fillBytes_apply m _ hn]
    simp only [inRegion_iff_of_le hdest]
  · intro src hsrc hdisjoint
    have hapart := apart_of_le hsrc hdest hdisjoint
    refine ⟨_, ⟨n.toNat + 1, fun fuel hfuel ↦ memcpy_eq m hapart hfuel⟩, rfl, fun a ↦ ?_⟩
    rw [copyBytes_apply m hn hapart]
    simp only [inRegion_iff_of_le hdest]

/-- Seven bytes from 0x2002 to 0x1001: three up to the aligned address, and a doubleword. -/
theorem memcpy_bytewise_seven :
    ∃ m', (∃ fuel₀, ∀ fuel ≥ fuel₀, memcpy (fun a ↦ if a = 0x2008 then 5 else 0) 0x1001 0x2002 7
        fuel = some (m', 0x1001)) ∧ m' 0x1007 = 5 ∧ m' 0x1008 = 0 := by
  have hdest : (0x1001 : BitVec 32).toNat + (7 : BitVec 32).toNat ≤ 2 ^ 32 := by decide
  obtain ⟨m', hcopy, -, hbytes⟩ :=
    (memset_memcpy_bytewise (fun a ↦ if a = 0x2008 then 5 else 0) hdest).2 0x2002 (by decide)
      (Or.inl (by decide))
  exact ⟨m', hcopy, hbytes 0x1007, hbytes 0x1008⟩

end Sp18.Kernel.Lib
