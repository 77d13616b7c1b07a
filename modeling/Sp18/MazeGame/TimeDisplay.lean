import Sp18.MazeGame.KeyboardThread
import Sp18.TuxController.Ioctl
import Mathlib.Tactic.IntervalCases

/-!
# The time on the controller

`time_display` of `mazegame.c`, which computes the argument of TUX_SET_LED from the seconds that
have elapsed. It writes minutes and seconds as two decimal digits each. The seconds of the current
minute it gets by taking 96 for each minute from the digits of all seconds, which is six digits of
16. But it multiplies the digits of the minutes, so that from ten minutes on it takes away 576 too
much for each ten of them (`seconds_eq`), and the word is negative (`showsTime_exact`).

A word with the right fields makes `tuxctl_set_led` show the time with one decimal point
(`buffy_of_fields`).
-/

set_option autoImplicit false
set_option relaxedAutoImplicit false

namespace Sp18.MazeGame

open Foundation TuxController

/-- `time_display`: the argument of the TUX_SET_LED ioctl. -/
def timeDisplay (t : ℤ) : BitVec 32 :=
  let seconds := i32 (i32 (t.tdiv 10 * 16) + t.tmod 10)
  let minutes := t.tdiv 60
  let minutes := i32 (i32 (minutes.tdiv 10 * 16) + minutes.tmod 10)
  let seconds := i32 (seconds - i32 (minutes * backquote))
  BitVec.ofInt 32 seconds ||| BitVec.ofInt 32 minutes <<< 8 ||| 0x040F0000

/-- Two decimal digits of a number, as half bytes. -/
def twoDigits (n : ℤ) : ℤ := n / 10 * 16 + n % 10

/-- The segments of a digit. -/
def segments (digit : ℕ) : UInt8 := disp.get (Fin.ofNat 16 digit)

/-- The word shows the time: the seconds of the minute in its low byte, the minutes in the next one
as long as two digits are enough for them, and all LEDs on with one decimal point. -/
structure ShowsTime (t : ℤ) : Prop where
  seconds : ((timeDisplay t).toNat % 256 : ℤ) = twoDigits (t % 60)
  minutes : t / 60 < 100 → ((timeDisplay t).toNat / 256 % 256 : ℤ) = twoDigits (t / 60)
  upper : (timeDisplay t).toNat / 65536 = 0x040F
  leds : t / 60 < 100 → buffy (timeDisplay t) =
    [mtcpLedSet, 0xFF, segments (t % 60 % 10).toNat, segments (t % 60 / 10).toNat,
      segments (t / 60 % 10).toNat + 0x10, segments (t / 60 / 10).toNat]

/-! ### The fields of the word -/

section Fields

variable {arg : BitVec 32} {idx : ℕ}

theorem shift_and_one_eq_one_iff (arg : BitVec 32) (n : ℕ) :
    (arg >>> n) &&& 1 = 1 ↔ arg.toNat / 2 ^ n % 2 = 1 := by
  have hone : (1 : BitVec 32).toNat = 1 := rfl
  rw [← BitVec.toNat_inj, BitVec.toNat_and, BitVec.toNat_ushiftRight, hone, Nat.and_one_is_mod,
    Nat.shiftRight_eq_div_pow]

/-- The upper half of the word switches all LEDs on, with the decimal point of the third one. -/
theorem ledByte_of_upper (hupper : arg.toNat / 65536 = 0x040F) (hidx : idx < 4) :
    ledByte arg idx =
      segments (arg.toNat / 2 ^ (idx * 4)) + if idx = 2 then 0x10 else 0 := by
  have hsegments : disp.get ((arg >>> (idx * 4)).truncate 4).toFin =
      segments (arg.toNat / 2 ^ (idx * 4)) := by
    refine congrArg disp.get (Fin.ext ?_)
    rw [BitVec.val_toFin, BitVec.truncate_eq_setWidth, BitVec.toNat_setWidth,
      BitVec.toNat_ushiftRight, Nat.shiftRight_eq_div_pow]
    rfl
  have hbit : ∀ n, arg.toNat / 2 ^ (n + 16) % 2 = 0x040F / 2 ^ n % 2 := by
    intro n
    rw [Nat.add_comm, Nat.pow_add, ← Nat.div_div_eq_div_mul, ← hupper]
  have hon : (arg >>> (idx + 16)) &&& 1 = 1 := by
    rw [shift_and_one_eq_one_iff, hbit]
    interval_cases idx <;> rfl
  have hpoint : (arg >>> (idx + 24)) &&& 1 = 1 ↔ idx = 2 := by
    rw [shift_and_one_eq_one_iff, hbit (idx + 8)]
    interval_cases idx <;> decide
  unfold ledByte
  simp only [hsegments, hon, hpoint, and_true, ne_eq, not_true_eq_false, if_false]
  split_ifs
  · rfl
  · exact (UInt8.add_zero _).symm

/-- A word with these fields makes the driver show the digits, with one decimal point. -/
theorem buffy_of_fields {seconds minutes : ℕ} (hseconds : seconds < 256) (hminutes : minutes < 256)
    (harg : arg.toNat = 0x040F * 65536 + minutes * 256 + seconds) : buffy arg =
      [mtcpLedSet, 0xFF, segments (seconds % 16), segments (seconds / 16),
        segments (minutes % 16) + 0x10, segments (minutes / 16)] := by
  have hupper : arg.toNat / 65536 = 0x040F := by omega
  have hdigit : ∀ m n : ℕ, m % 16 = n % 16 → segments m = segments n := by
    intro m n hsame
    exact congrArg disp.get (Fin.ext hsame)
  unfold buffy
  rw [ledByte_of_upper hupper (by decide), ledByte_of_upper hupper (by decide),
    ledByte_of_upper hupper (by decide), ledByte_of_upper hupper (by decide),
    hdigit (arg.toNat / 2 ^ (0 * 4)) (seconds % 16) (by omega),
    hdigit (arg.toNat / 2 ^ (1 * 4)) (seconds / 16) (by omega),
    hdigit (arg.toNat / 2 ^ (2 * 4)) (minutes % 16) (by omega),
    hdigit (arg.toNat / 2 ^ (3 * 4)) (minutes / 16) (by omega)]
  have hthree : ¬(3 = 2) := by decide
  simp only [OfNat.zero_ne_ofNat, OfNat.one_ne_ofNat, hthree, if_false, if_true, UInt8.add_zero]

end Fields

/-! ### The digits that are computed -/

variable {t : ℤ}

theorem minutes_eq (hlow : 0 ≤ t) (hhigh : t < 2147483648) :
    i32 (i32 ((t.tdiv 60).tdiv 10 * 16) + (t.tdiv 60).tmod 10) = twoDigits (t / 60) := by
  rw [Int.tdiv_eq_ediv_of_nonneg hlow, Int.tdiv_eq_ediv_of_nonneg (by omega),
    Int.tmod_eq_emod_of_nonneg (by omega), i32_add_of_i32]
  exact i32_of_range (by omega) (by omega)

/-- Two digits are the two halves of a byte. -/
theorem toNat_twoDigits {n : ℤ} (hlow : 0 ≤ n) (hhigh : n < 100) :
    ((twoDigits n).toNat : ℤ) = twoDigits n ∧ (twoDigits n).toNat < 256 ∧
      (twoDigits n).toNat % 16 = (n % 10).toNat ∧ (twoDigits n).toNat / 16 = (n / 10).toNat := by
  unfold twoDigits
  omega

/-- For each ten minutes, 576 too much is taken away. -/
theorem seconds_eq (hlow : 0 ≤ t) (hhigh : t < 2147483648) :
    i32 (i32 (i32 (t.tdiv 10 * 16) + t.tmod 10) - i32 (twoDigits (t / 60) * backquote)) =
      twoDigits (t % 60) - t / 600 * 576 := by
  have hexact : t / 10 * 16 + t % 10 - twoDigits (t / 60) * backquote =
      twoDigits (t % 60) - t / 600 * 576 := by
    unfold twoDigits backquote
    omega
  rw [Int.tdiv_eq_ediv_of_nonneg hlow, Int.tmod_eq_emod_of_nonneg hlow, i32_add_of_i32,
    i32_sub_of_i32, hexact]
  unfold twoDigits
  exact i32_of_range (by omega) (by omega)

theorem timeDisplay_eq (hlow : 0 ≤ t) (hhigh : t < 2147483648) : timeDisplay t =
    BitVec.ofInt 32 (twoDigits (t % 60) - t / 600 * 576) |||
      BitVec.ofInt 32 (twoDigits (t / 60)) <<< 8 ||| 0x040F0000 := by
  simp only [timeDisplay, minutes_eq hlow hhigh, seconds_eq hlow hhigh]

/-- Two fields of a byte each and the upper half do not overlap. -/
theorem toNat_fields {seconds minutes : ℕ} (hseconds : seconds < 256) (hminutes : minutes < 256) :
    (BitVec.ofNat 32 seconds ||| BitVec.ofNat 32 minutes <<< 8 ||| 0x040F0000#32).toNat =
      0x040F * 65536 + minutes * 256 + seconds := by
  have hword : (BitVec.ofNat 32 minutes <<< 8).toNat = minutes <<< 8 := by
    rw [BitVec.toNat_shiftLeft, BitVec.toNat_ofNat, Nat.shiftLeft_eq, Nat.shiftLeft_eq]
    omega
  have hlow : seconds ||| minutes <<< 8 = minutes * 256 + seconds := by
    rw [Nat.or_comm, ← Nat.shiftLeft_add_eq_or_of_lt (show seconds < 2 ^ 8 from hseconds),
      Nat.shiftLeft_eq]
  have hhigh : minutes * 256 + seconds ||| 0x040F0000 = 0x040F0000 + (minutes * 256 + seconds) := by
    rw [Nat.or_comm]
    exact (Nat.shiftLeft_add_eq_or_of_lt
      (show minutes * 256 + seconds < 2 ^ 16 by omega) 0x040F).symm
  rw [BitVec.toNat_or, BitVec.toNat_or, hword, BitVec.toNat_ofNat, Nat.mod_eq_of_lt (by omega),
    hlow]
  exact hhigh.trans (by omega)

/-- In the first ten minutes the fields are the digits of the time. -/
theorem timeDisplay_early (hlow : 0 ≤ t) (hearly : t < 600) : (timeDisplay t).toNat =
    0x040F * 65536 + (twoDigits (t / 60)).toNat * 256 + (twoDigits (t % 60)).toNat := by
  have hnone : t / 600 * 576 = 0 := by omega
  obtain ⟨hminutes, hminutesLt, -⟩ := @toNat_twoDigits (t / 60) (by omega) (by omega)
  obtain ⟨hseconds, hsecondsLt, -⟩ := @toNat_twoDigits (t % 60) (by omega) (by omega)
  rw [timeDisplay_eq hlow (by omega), hnone, sub_zero, ← hminutes, ← hseconds, BitVec.ofInt_natCast,
    BitVec.ofInt_natCast, Int.toNat_natCast, Int.toNat_natCast]
  exact toNat_fields hsecondsLt hminutesLt

/-- From ten minutes on the word is negative. -/
theorem timeDisplay_late (hlate : 600 ≤ t) (hhigh : t < 2147483648) :
    2147483648 ≤ (timeDisplay t).toNat := by
  have hnegative : twoDigits (t % 60) - t / 600 * 576 < 0 := by
    unfold twoDigits
    omega
  have hrange : -2147483648 ≤ twoDigits (t % 60) - t / 600 * 576 := by
    unfold twoDigits
    omega
  have hmsb : (BitVec.ofInt 32 (twoDigits (t % 60) - t / 600 * 576)).msb = true := by
    rw [BitVec.msb_eq_decide, decide_eq_true_iff, BitVec.toNat_ofInt]
    omega
  rw [timeDisplay_eq (by omega) hhigh]
  have hword : (BitVec.ofInt 32 (twoDigits (t % 60) - t / 600 * 576) |||
      BitVec.ofInt 32 (twoDigits (t / 60)) <<< 8 ||| 0x040F0000).msb = true := by
    rw [BitVec.msb_or, BitVec.msb_or, hmsb, Bool.true_or, Bool.true_or]
  rwa [BitVec.msb_eq_decide, decide_eq_true_iff] at hword

/-- The time is shown right in the first ten minutes, and never afterwards. -/
theorem showsTime_exact (hlow : 0 ≤ t) (hhigh : t < 2 ^ 31) : ShowsTime t ↔ t < 600 := by
  constructor
  · intro hshows
    by_contra hlate
    have hword := timeDisplay_late (not_lt.mp hlate) hhigh
    have hupper := hshows.upper
    omega
  · intro hearly
    have hword := timeDisplay_early hlow hearly
    obtain ⟨hminutes, hminutesLt, hminutesOnes, hminutesTens⟩ :=
      @toNat_twoDigits (t / 60) (by omega) (by omega)
    obtain ⟨hseconds, hsecondsLt, hsecondsOnes, hsecondsTens⟩ :=
      @toNat_twoDigits (t % 60) (by omega) (by omega)
    refine ⟨?_, fun _ ↦ ?_, ?_, fun _ ↦ ?_⟩
    · rw [← hseconds]
      omega
    · rw [← hminutes]
      omega
    · omega
    · rw [buffy_of_fields hsecondsLt hminutesLt hword, hsecondsOnes, hsecondsTens, hminutesOnes,
        hminutesTens]

/-- The last second that is shown right. -/
theorem showsTime_exact_599 : ShowsTime 599 :=
  (showsTime_exact (by decide) (by norm_num)).mpr (by decide)

/-- At ten minutes the word is negative. -/
theorem showsTime_not_always : ¬ShowsTime 600 := by
  intro hshows
  exact absurd hshows.upper (by decide)

end Sp18.MazeGame
