import Mathlib.Tactic.NormNum
import Mathlib.Tactic.Ring

/-!
# C integers as integers with explicit wrap-around

A C integer is an integer, and a conversion to a type reduces it into the range of the type:
`u8`, `u16` and `u32` to the unsigned types, `i8` and `i32` to the signed ones (two's complement).
A comparison of a signed with an unsigned operand is a comparison of `u32` values.
-/

set_option autoImplicit false
set_option relaxedAutoImplicit false

namespace Sp18.Foundation

/-- Conversion to an unsigned 8-bit integer. -/
def u8 (x : ℤ) : ℤ := x % 256

/-- Conversion to an unsigned 16-bit integer. -/
def u16 (x : ℤ) : ℤ := x % 65536

/-- Conversion to an unsigned 32-bit integer. -/
def u32 (x : ℤ) : ℤ := x % 4294967296

/-- Conversion to a signed 8-bit integer. -/
def i8 (x : ℤ) : ℤ := (x + 128) % 256 - 128

/-- Conversion to a signed 32-bit integer. -/
def i32 (x : ℤ) : ℤ := (x + 2147483648) % 4294967296 - 2147483648

theorem u16_of_range {x : ℤ} (hlow : 0 ≤ x) (hhigh : x < 65536) : u16 x = x :=
  Int.emod_eq_of_lt hlow hhigh

theorem u32_of_range {x : ℤ} (hlow : 0 ≤ x) (hhigh : x < 4294967296) : u32 x = x :=
  Int.emod_eq_of_lt hlow hhigh

theorem i32_of_range {x : ℤ} (hlow : -2147483648 ≤ x) (hhigh : x < 2147483648) : i32 x = x := by
  unfold i32
  omega

theorem u32_nonneg (x : ℤ) : 0 ≤ u32 x := by
  unfold u32
  omega

theorem u32_lt (x : ℤ) : u32 x < 4294967296 := by
  unfold u32
  omega

/-- Wrapping a sum modulo `2^32` only depends on the wrapped operands. -/
theorem u32_i32_add (x y : ℤ) : u32 (i32 (x + y)) = u32 (u32 x + u32 y) := by
  unfold u32 i32
  omega

/-- What is wrapped again in the end need not be wrapped on the way. -/
theorem i32_add_of_i32 (x y : ℤ) : i32 (i32 x + y) = i32 (x + y) := by
  unfold i32
  omega

theorem i32_sub_of_i32 (x y : ℤ) : i32 (i32 x - i32 y) = i32 (x - y) := by
  unfold i32
  omega

end Sp18.Foundation
