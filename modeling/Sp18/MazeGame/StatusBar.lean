import Sp18.Foundation.Numeral
import Sp18.MazeGame.ShowScreen
import Sp18.MazeGame.Text

/-!
# The status bar

`show_status` prints the level, the fruits that are left and the time into a string, has
`text_to_image` draw it, and copies the four planes of the bar to the start of the video memory
(`showStatus_planes`). There the VGA displays them below the window: from the scan line that the
line compare register holds on, it starts again at address 0 (`Video.displayed`).

Whatever the level, the number of fruits and the time are, the string has none of the characters
that are drawn wrong, and it fits on the bar as long as the numbers are not too large
(`statusText_shown`).
-/

set_option autoImplicit false
set_option relaxedAutoImplicit false

namespace Sp18.MazeGame

open Foundation

/-- `SEC_PER_MIN` -/
def secPerMin : ℤ := 60

/-- The bytes of a string literal. -/
def chars (s : String) : List UInt8 := s.toList.map fun c ↦ c.toNat.toUInt8

/-- What `%d` prints. -/
def decimal (n : ℤ) : List UInt8 :=
  (if n < 0 then chars "-" else []) ++
    (numeral 10 n.natAbs).map fun digit ↦ UInt8.ofNat (48 + digit)

/-- What `%02d` prints: a number with a single character gets a zero in front of it. -/
def paddedDecimal (n : ℤ) : List UInt8 :=
  if (decimal n).length < 2 then chars "0" ++ decimal n else decimal n

/-- The string that `show_status` prints. -/
def statusText (level fruit time : ℤ) : List UInt8 :=
  let seconds := time.tmod secPerMin
  let minutes := time.tdiv secPerMin
  chars "Level " ++ decimal level ++ chars "   " ++ decimal fruit ++
    (if fruit = 1 then chars " Fruit   " else chars " Fruits   ") ++
    paddedDecimal minutes ++ chars ":" ++ paddedDecimal seconds

/-! ### The video memory -/

namespace Video

/-- `copy_status` from `buffer` -/
def copyStatus (v : Video) (buffer : ℤ → UInt8) (img : ℤ) (scrAddr : ℕ) : Video :=
  { v with planes := fun plane ↦
      if v.writeMask.testBit plane then memcpy (v.planes plane) scrAddr buffer img 1440
      else v.planes plane }

/-- The loop of `show_status` over the planes. -/
def statusPlanes (v : Video) (buffer : ℤ → UInt8) : ℕ → Video
  | 0 => v
  | i + 1 =>
    ((v.statusPlanes buffer i).setWriteMask (1 <<< (i + 8))).copyStatus buffer (i * 1440) 0x0000

/-- `show_status`: the video memory and `buffer`. -/
def showStatus (v : Video) (buffer : ℤ → UInt8) (level fruit time color : ℤ) :
    Video × (ℤ → UInt8) :=
  let string := statusText level fruit time
  let buffer := textToImage (fun i ↦ string.getD i 0) color buffer
  (v.statusPlanes buffer 4, buffer)

/-- The scan line in the ten bits of the line compare register. -/
def lineCompare (v : Video) : ℕ :=
  v.crtc 0x18 + 256 * (v.crtc 0x07 / 16 % 2) + 512 * (v.crtc 0x09 / 64 % 2)

/-- The first row of pixels behind this scan line. The maximum scan line register holds one less
than the number of scan lines of a row. -/
def splitRow (v : Video) : ℕ := (v.lineCompare + 1) / (v.crtc 0x09 % 32 + 1)

/-- The number of bytes of a row in each plane, which the offset register counts in words. -/
def rowBytes (v : Video) : ℕ := 2 * v.crtc 0x13

/-- The pixel in a column and a row of the display. -/
def displayed (v : Video) (c row : ℕ) : UInt8 :=
  v.planes (c % 4)
    (if row < v.splitRow then (v.startAddress + v.rowBytes * row + c / 4 : ℕ)
    else (v.rowBytes * (row - v.splitRow) + c / 4 : ℕ))

/-- The registers divide the display into the window and the status bar. -/
structure Divided (v : Video) : Prop where
  splitRow : v.splitRow = 182
  rowBytes : v.rowBytes = 80

variable {v : Video} {buffer : ℤ → UInt8}

theorem modeX_divided : Video.modeX.Divided := ⟨rfl, rfl⟩

/-- `show_screen` sets the two registers of the start address only. -/
theorem Divided.of_crtc {v' : Video} (h : v.Divided)
    (hcrtc : ∀ i, i ≠ 0x0C → i ≠ 0x0D → v'.crtc i = v.crtc i) : v'.Divided := by
  constructor
  · rw [Video.splitRow, lineCompare, hcrtc _ (by decide) (by decide),
      hcrtc _ (by decide) (by decide), hcrtc _ (by decide) (by decide)]
    exact h.splitRow
  · rw [Video.rowBytes, hcrtc _ (by decide) (by decide)]
    exact h.rowBytes

/-- A pixel of the window. -/
theorem Divided.displayed_window (h : v.Divided) (c : ℕ) {r : ℕ} (hr : r < 182) :
    v.displayed c r = v.planes (c % 4) (v.startAddress + 80 * (r : ℤ) + (c / 4 : ℕ)) := by
  rw [displayed, h.splitRow, h.rowBytes, if_pos hr]
  push_cast
  rfl

/-- A pixel of the status bar. -/
theorem Divided.displayed_bar (h : v.Divided) (c r : ℕ) :
    v.displayed c (182 + r) = v.planes (c % 4) (80 * (r : ℤ) + (c / 4 : ℕ)) := by
  rw [displayed, h.splitRow, h.rowBytes, if_neg (by omega), Nat.add_sub_cancel_left]
  push_cast
  rfl

/-- What the first iterations of the loop of `show_status` have done. -/
theorem statusPlanes_eq (v : Video) (buffer : ℤ → UInt8) {count : ℕ} (hcount : count ≤ 4) :
    (v.statusPlanes buffer count).targetImg = v.targetImg ∧
      (v.statusPlanes buffer count).crtc = v.crtc ∧
      ∀ plane, (v.statusPlanes buffer count).planes plane =
        if plane < count then memcpy (v.planes plane) 0 buffer (plane * 1440) 1440
        else v.planes plane := by
  induction count with
  | zero => exact ⟨rfl, rfl, fun plane ↦ (if_neg (Nat.not_lt_zero plane)).symm⟩
  | succ i ih =>
    obtain ⟨htarget, hcrtc, hplanes⟩ := ih (by omega)
    refine ⟨htarget, hcrtc, fun plane ↦ ?_⟩
    simp only [statusPlanes, copyStatus, setWriteMask, hplanes,
      Screen.writeMask_testBit (by omega : i < 4), decide_eq_true_eq]
    by_cases hplane : i = plane
    · rw [if_pos hplane, if_neg (by omega), if_pos (by omega), hplane]
      rfl
    · rw [if_neg hplane]
      split_ifs <;> first | rfl | omega

/-- The bar on the display is the bar in `buffer`. -/
theorem statusPlanes_bar (h : v.Divided) {c r : ℕ} (hc : c < 320) (hr : r < 18) :
    (v.statusPlanes buffer 4).displayed c (182 + r) = buffer (barAddr c r) := by
  obtain ⟨-, hcrtc, hplanes⟩ := statusPlanes_eq v buffer le_rfl
  have hdivided : (v.statusPlanes buffer 4).Divided := h.of_crtc fun i _ _ ↦ congrFun hcrtc i
  rw [hdivided.displayed_bar, hplanes, if_pos (Nat.mod_lt c (by norm_num)),
    memcpy_inside _ _ (by omega) (by omega), barAddr]
  refine congrArg buffer ?_
  omega

/-- The window stays as it is. -/
theorem statusPlanes_window (h : v.Divided) (hstart : 1440 ≤ v.startAddress) (c : ℕ) {r : ℕ}
    (hr : r < 182) : (v.statusPlanes buffer 4).displayed c r = v.displayed c r := by
  obtain ⟨-, hcrtc, hplanes⟩ := statusPlanes_eq v buffer le_rfl
  have hdivided : (v.statusPlanes buffer 4).Divided := h.of_crtc fun i _ _ ↦ congrFun hcrtc i
  have hsame : (v.statusPlanes buffer 4).startAddress = v.startAddress := by
    rw [startAddress, hcrtc]
    rfl
  rw [hdivided.displayed_window c hr, h.displayed_window c hr, hsame, hplanes]
  split_ifs
  · exact memcpy_outside _ _ (by omega)
  · rfl

end Video

/-! ### The text -/

/-- A character that `text_to_image` draws right. -/
def Drawable (c : UInt8) : Prop := c ≠ 0 ∧ c.toNat < 128 ∧ c.toNat ∉ [7, 9, 35, 93, 95]

instance (c : UInt8) : Decidable (Drawable c) := inferInstanceAs (Decidable (_ ∧ _ ∧ _))

section Decimal

variable {n : ℤ}

theorem decimal_drawable (n : ℤ) : ∀ c ∈ decimal n, Drawable c := by
  intro c hc
  rcases List.mem_append.mp hc with hsign | hdigit
  · split_ifs at hsign
    · obtain rfl := List.mem_singleton.mp hsign
      decide
    · cases hsign
  · obtain ⟨digit, hmem, rfl⟩ := List.mem_map.mp hdigit
    have hlt : digit < 10 := (isNumeral_numeral (by norm_num) n.natAbs).digit digit hmem
    interval_cases digit <;> decide

theorem paddedDecimal_drawable (n : ℤ) : ∀ c ∈ paddedDecimal n, Drawable c := by
  unfold paddedDecimal
  split_ifs
  · intro c hc
    rcases List.mem_append.mp hc with hzero | hc
    · obtain rfl := List.mem_singleton.mp hzero
      decide
    · exact decimal_drawable n c hc
  · exact decimal_drawable n

theorem length_decimal_le {k : ℕ} (hk : 0 < k) (hlow : 0 ≤ n) (hhigh : n < 10 ^ k) :
    (decimal n).length ≤ k := by
  rw [decimal, if_neg (by omega), List.nil_append, List.length_map]
  exact length_numeral_le (by norm_num) hk (by zify; rwa [abs_of_nonneg hlow])

theorem length_paddedDecimal_le {k : ℕ} (hk : 2 ≤ k) (hlow : 0 ≤ n) (hhigh : n < 10 ^ k) :
    (paddedDecimal n).length ≤ k := by
  have hlength := length_decimal_le (by omega) hlow hhigh
  have hzero : (chars "0").length = 1 := rfl
  unfold paddedDecimal
  split_ifs
  · rw [List.length_append]
    omega
  · exact hlength

end Decimal

section Status

variable {level fruit time : ℤ}

theorem statusText_drawable (level fruit time : ℤ) :
    ∀ c ∈ statusText level fruit time, Drawable c := by
  have hwords : ∀ words ∈ ["Level ", "   ", " Fruit   ", " Fruits   ", ":"],
      ∀ c ∈ chars words, Drawable c := by decide +kernel
  have hlabel : ∀ c ∈ if fruit = 1 then chars " Fruit   " else chars " Fruits   ", Drawable c := by
    split_ifs
    · exact hwords _ (by simp)
    · exact hwords _ (by simp)
  intro c hc
  simp only [statusText, List.mem_append] at hc
  rcases hc with (((((((hc | hc) | hc) | hc) | hc) | hc) | hc) | hc)
  · exact hwords "Level " (by simp) c hc
  · exact decimal_drawable _ c hc
  · exact hwords "   " (by simp) c hc
  · exact decimal_drawable _ c hc
  · exact hlabel c hc
  · exact paddedDecimal_drawable _ c hc
  · exact hwords ":" (by simp) c hc
  · exact paddedDecimal_drawable _ c hc

/-- The text of a level, a number of fruits and a time that the game can have. -/
theorem length_statusText_le (hlevel : 0 ≤ level) (hlevel' : level < 100) (hfruit : 0 ≤ fruit)
    (hfruit' : fruit < 10000) (htime : 0 ≤ time) (htime' : time < 2 ^ 31) :
    (statusText level fruit time).length ≤ 40 := by
  have hminutes : time.tdiv 60 = time / 60 := Int.tdiv_eq_ediv_of_nonneg htime
  have hseconds : time.tmod 60 = time % 60 := Int.tmod_eq_emod_of_nonneg htime
  have hlabel : (if fruit = 1 then chars " Fruit   " else chars " Fruits   ").length ≤ 10 := by
    split_ifs <;> decide
  have hwords : (chars "Level ").length = 6 ∧ (chars "   ").length = 3 ∧ (chars ":").length = 1 :=
    ⟨rfl, rfl, rfl⟩
  have hlevel₂ : (decimal level).length ≤ 2 := length_decimal_le (by norm_num) hlevel (by omega)
  have hfruit₄ : (decimal fruit).length ≤ 4 := length_decimal_le (by norm_num) hfruit (by omega)
  have hminutes₉ : (paddedDecimal (time / 60)).length ≤ 9 :=
    length_paddedDecimal_le (by norm_num) (by omega) (by omega)
  have hseconds₂ : (paddedDecimal (time % 60)).length ≤ 2 :=
    length_paddedDecimal_le le_rfl (by omega) (by omega)
  simp only [statusText, secPerMin, hminutes, hseconds, List.length_append]
  omega

/-- The bar shows the text. -/
theorem statusText_shown (hlevel : 0 ≤ level) (hlevel' : level < 100) (hfruit : 0 ≤ fruit)
    (hfruit' : fruit < 10000) (htime : 0 ≤ time) (htime' : time < 2 ^ 31) (buffer : ℤ → UInt8)
    {color : ℤ} (hcolor : 0 ≤ color) (hcolor' : color < 2147483648) :
    BarShows (textToImage (fun i ↦ (statusText level fruit time).getD i 0) color buffer)
      (statusText level fruit time) color := by
  have hdrawable := statusText_drawable level fruit time
  rw [barShows_iff (HoldsString.getD_zero fun c hc ↦ (hdrawable c hc).1)
    (length_statusText_le hlevel hlevel' hfruit hfruit' htime htime')
    (fun c hc ↦ (hdrawable c hc).2.1) hcolor hcolor']
  intro c hc
  obtain ⟨-, hcode, hempty⟩ := hdrawable c hc
  exact (nextLine_eq_zero_iff c.toNat hcode).mpr hempty

end Status

end Sp18.MazeGame
