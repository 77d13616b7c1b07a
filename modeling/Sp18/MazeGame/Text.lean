import Sp18.Foundation.CInt
import Sp18.Foundation.CString
import Sp18.Foundation.Checked
import Sp18.MazeGame.Maze
import Mathlib.Tactic.IntervalCases

/-!
# Text on the status bar

`text_to_image` of `text.c`, which draws a string into the image of the status bar: 18 lines of 320
pixels in four planes, plane 0 first. Up to 40 characters fit into a line of the bar, and nothing is
stored outside of the image for them (`textToImageChecked_lines`).

The loop over the lines of a character runs one too far. It draws 17 lines, and what it takes for
the last one is the first line of the next character of the font. The picture is right exactly when
that line is empty for each character of the string (`showsText_exact`). That is so for letters and
digits, but not for `'#'`, `']'` and `'_'` (`nextLine_eq_zero_iff`).
-/

set_option autoImplicit false
set_option relaxedAutoImplicit false

namespace Sp18.MazeGame

open Foundation

/-- `FONT_WIDTH` -/
def fontWidth : ℕ := 8

/-- `FONT_HEIGHT` -/
def fontHeight : ℕ := 16

/-- The characters of `font_data`. The 16 bytes of each are one number, with the first line in
front. -/
def glyphs : List ℕ :=
  [0x00000000000000000000000000000000, 0x00007E81A58181BD9981817E00000000,
  0x00007EFFDBFFFFC3E7FFFF7E00000000, 0x000000006CFEFEFEFE7C381000000000,
  0x0000000010387CFE7C38100000000000, 0x000000183C3CE7E7E718183C00000000,
  0x000000183C7EFFFF7E18183C00000000, 0x000000000000183C3C18000000000000,
  0xFFFFFFFFFFFFE7C3C3E7FFFFFFFFFFFF, 0x00000000003C664242663C0000000000,
  0xFFFFFFFFFFC399BDBD99C3FFFFFFFFFF, 0x00001E0E1A3278CCCCCCCC7800000000,
  0x00003C666666663C187E181800000000, 0x00003F333F3030303070F0E000000000,
  0x00007F637F6363636367E7E6C0000000, 0x0000001818DB3CE73CDB181800000000,
  0x0080C0E0F0F8FEF8F0E0C08000000000, 0x0002060E1E3EFE3E1E0E060200000000,
  0x0000183C7E1818187E3C180000000000, 0x00006666666666666600666600000000,
  0x00007FDBDBDB7B1B1B1B1B1B00000000, 0x007CC660386CC6C66C380CC67C000000,
  0x0000000000000000FEFEFEFE00000000, 0x0000183C7E1818187E3C187E00000000,
  0x0000183C7E1818181818181800000000, 0x0000181818181818187E3C1800000000,
  0x0000000000180CFE0C18000000000000, 0x00000000003060FE6030000000000000,
  0x000000000000C0C0C0FE000000000000, 0x0000000000286CFE6C28000000000000,
  0x000000001038387C7CFEFE0000000000, 0x00000000FEFE7C7C3838100000000000,
  0x00000000000000000000000000000000, 0x0000183C3C3C18181800181800000000,
  0x00666666240000000000000000000000, 0x0000006C6CFE6C6C6CFE6C6C00000000,
  0x18187CC6C2C07C060686C67C18180000, 0x00000000C2C60C183060C68600000000,
  0x0000386C6C3876DCCCCCCC7600000000, 0x00303030600000000000000000000000,
  0x00000C18303030303030180C00000000, 0x000030180C0C0C0C0C0C183000000000,
  0x0000000000663CFF3C66000000000000, 0x000000000018187E1818000000000000,
  0x00000000000000000018181830000000, 0x00000000000000FE0000000000000000,
  0x00000000000000000000181800000000, 0x0000000002060C183060C08000000000,
  0x0000386CC6C6C6C6C6C66C3800000000, 0x00001838781818181818187E00000000,
  0x00007CC6060C183060C0C6FE00000000, 0x00007CC606063C060606C67C00000000,
  0x00000C1C3C6CCCFE0C0C0C1E00000000, 0x0000FEC0C0C0FC060606C67C00000000,
  0x00003860C0C0FCC6C6C6C67C00000000, 0x0000FEC606060C183030303000000000,
  0x00007CC6C6C67CC6C6C6C67C00000000, 0x00007CC6C6C67E0606060C7800000000,
  0x00000000181800000018180000000000, 0x00000000181800000018183000000000,
  0x000000060C18306030180C0600000000, 0x00000000007E00007E00000000000000,
  0x0000006030180C060C18306000000000, 0x00007CC6C60C18181800181800000000,
  0x0000007CC6C6DEDEDEDCC07C00000000, 0x000010386CC6C6FEC6C6C6C600000000,
  0x0000FC6666667C66666666FC00000000, 0x00003C66C2C0C0C0C0C2663C00000000,
  0x0000F86C6666666666666CF800000000, 0x0000FE6662687868606266FE00000000,
  0x0000FE6662687868606060F000000000, 0x00003C66C2C0C0DEC6C6663A00000000,
  0x0000C6C6C6C6FEC6C6C6C6C600000000, 0x00003C18181818181818183C00000000,
  0x00001E0C0C0C0C0CCCCCCC7800000000, 0x0000E666666C78786C6666E600000000,
  0x0000F06060606060606266FE00000000, 0x0000C6EEFEFED6C6C6C6C6C600000000,
  0x0000C6E6F6FEDECEC6C6C6C600000000, 0x00007CC6C6C6C6C6C6C6C67C00000000,
  0x0000FC6666667C60606060F000000000, 0x00007CC6C6C6C6C6C6D6DE7C0C0E0000,
  0x0000FC6666667C6C666666E600000000, 0x00007CC6C660380C06C6C67C00000000,
  0x00007E7E5A1818181818183C00000000, 0x0000C6C6C6C6C6C6C6C6C67C00000000,
  0x0000C6C6C6C6C6C6C66C381000000000, 0x0000C6C6C6C6D6D6D6FEEE6C00000000,
  0x0000C6C66C7C38387C6CC6C600000000, 0x0000666666663C181818183C00000000,
  0x0000FEC6860C183060C2C6FE00000000, 0x00003C30303030303030303C00000000,
  0x00000080C0E070381C0E060200000000, 0x00003C0C0C0C0C0C0C0C0C3C00000000,
  0x10386CC6000000000000000000000000, 0x00000000000000000000000000FF0000,
  0x30301800000000000000000000000000, 0x0000000000780C7CCCCCCC7600000000,
  0x0000E06060786C666666667C00000000, 0x00000000007CC6C0C0C0C67C00000000,
  0x00001C0C0C3C6CCCCCCCCC7600000000, 0x00000000007CC6FEC0C0C67C00000000,
  0x0000386C6460F060606060F000000000, 0x000000000076CCCCCCCCCC7C0CCC7800,
  0x0000E060606C7666666666E600000000, 0x00001818003818181818183C00000000,
  0x00000606000E06060606060666663C00, 0x0000E06060666C78786C66E600000000,
  0x00003818181818181818183C00000000, 0x0000000000ECFED6D6D6D6C600000000,
  0x0000000000DC66666666666600000000, 0x00000000007CC6C6C6C6C67C00000000,
  0x0000000000DC66666666667C6060F000, 0x000000000076CCCCCCCCCC7C0C0C1E00,
  0x0000000000DC7666606060F000000000, 0x00000000007CC660380CC67C00000000,
  0x0000103030FC30303030361C00000000, 0x0000000000CCCCCCCCCCCC7600000000,
  0x000000000066666666663C1800000000, 0x0000000000C6C6D6D6D6FE6C00000000,
  0x0000000000C66C3838386CC600000000, 0x0000000000C6C6C6C6C6C67E060CF800,
  0x0000000000FECC183060C6FE00000000, 0x00000E18181870181818180E00000000,
  0x00001818181800181818181800000000, 0x0000701818180E181818187000000000,
  0x000076DC000000000000000000000000, 0x0000000010386CC6C6C6FE0000000000,
  0x00003C66C2C0C0C0C2663C0C067C0000, 0x0000CC0000CCCCCCCCCCCC7600000000,
  0x000C1830007CC6FEC0C0C67C00000000, 0x0010386C00780C7CCCCCCC7600000000,
  0x0000CC0000780C7CCCCCCC7600000000, 0x0060301800780C7CCCCCCC7600000000,
  0x00386C3800780C7CCCCCCC7600000000, 0x000000003C666060663C0C063C000000,
  0x0010386C007CC6FEC0C0C67C00000000, 0x0000C600007CC6FEC0C0C67C00000000,
  0x00603018007CC6FEC0C0C67C00000000, 0x00006600003818181818183C00000000,
  0x00183C66003818181818183C00000000, 0x00603018003818181818183C00000000,
  0x00C60010386CC6C6FEC6C6C600000000, 0x386C3800386CC6C6FEC6C6C600000000,
  0x18306000FE66607C606066FE00000000, 0x0000000000CC76367ED8D86E00000000,
  0x00003E6CCCCCFECCCCCCCCCE00000000, 0x0010386C007CC6C6C6C6C67C00000000,
  0x0000C600007CC6C6C6C6C67C00000000, 0x00603018007CC6C6C6C6C67C00000000,
  0x003078CC00CCCCCCCCCCCC7600000000, 0x0060301800CCCCCCCCCCCC7600000000,
  0x0000C60000C6C6C6C6C6C67E060C7800, 0x00C6007CC6C6C6C6C6C6C67C00000000,
  0x00C600C6C6C6C6C6C6C6C67C00000000, 0x0018183C66606060663C181800000000,
  0x00386C6460F060606060E6FC00000000, 0x000066663C187E187E18181800000000,
  0x00F8CCCCF8C4CCDECCCCCCC600000000, 0x000E1B1818187E1818181818D8700000,
  0x0018306000780C7CCCCCCC7600000000, 0x000C1830003818181818183C00000000,
  0x00183060007CC6C6C6C6C67C00000000, 0x0018306000CCCCCCCCCCCC7600000000,
  0x000076DC00DC66666666666600000000, 0x76DC00C6E6F6FEDECEC6C6C600000000,
  0x003C6C6C3E007E000000000000000000, 0x00386C6C38007C000000000000000000,
  0x0000303000303060C0C6C67C00000000, 0x000000000000FEC0C0C0C00000000000,
  0x000000000000FE060606060000000000, 0x00C0C0C2C6CC183060DC860C183E0000,
  0x00C0C0C2C6CC183066CE9E3E06060000, 0x00001818001818183C3C3C1800000000,
  0x0000000000366CD86C36000000000000, 0x0000000000D86C366CD8000000000000,
  0x11441144114411441144114411441144, 0x55AA55AA55AA55AA55AA55AA55AA55AA,
  0xDD77DD77DD77DD77DD77DD77DD77DD77, 0x18181818181818181818181818181818,
  0x18181818181818F81818181818181818, 0x1818181818F818F81818181818181818,
  0x36363636363636F63636363636363636, 0x00000000000000FE3636363636363636,
  0x0000000000F818F81818181818181818, 0x3636363636F606F63636363636363636,
  0x36363636363636363636363636363636, 0x0000000000FE06F63636363636363636,
  0x3636363636F606FE0000000000000000, 0x36363636363636FE0000000000000000,
  0x1818181818F818F80000000000000000, 0x00000000000000F81818181818181818,
  0x181818181818181F0000000000000000, 0x18181818181818FF0000000000000000,
  0x00000000000000FF1818181818181818, 0x181818181818181F1818181818181818,
  0x00000000000000FF0000000000000000, 0x18181818181818FF1818181818181818,
  0x18181818181F181F1818181818181818, 0x36363636363636373636363636363636,
  0x363636363637303F0000000000000000, 0x00000000003F30373636363636363636,
  0x3636363636F700FF0000000000000000, 0x0000000000FF00F73636363636363636,
  0x36363636363730373636363636363636, 0x0000000000FF00FF0000000000000000,
  0x3636363636F700F73636363636363636, 0x1818181818FF00FF0000000000000000,
  0x36363636363636FF0000000000000000, 0x0000000000FF00FF1818181818181818,
  0x00000000000000FF3636363636363636, 0x363636363636363F0000000000000000,
  0x18181818181F181F0000000000000000, 0x00000000001F181F1818181818181818,
  0x000000000000003F3636363636363636, 0x36363636363636FF3636363636363636,
  0x1818181818FF18FF1818181818181818, 0x18181818181818F80000000000000000,
  0x000000000000001F1818181818181818, 0xFFFFFFFFFFFFFFFFFFFFFFFFFFFFFFFF,
  0x00000000000000FFFFFFFFFFFFFFFFFF, 0xF0F0F0F0F0F0F0F0F0F0F0F0F0F0F0F0,
  0x0F0F0F0F0F0F0F0F0F0F0F0F0F0F0F0F, 0xFFFFFFFFFFFFFF000000000000000000,
  0x000000000076DCD8D8D8DC7600000000, 0x000078CCCCCCD8CCC6C6C6CC00000000,
  0x0000FEC6C6C0C0C0C0C0C0C000000000, 0x00000000FE6C6C6C6C6C6C6C00000000,
  0x000000FEC66030183060C6FE00000000, 0x00000000007ED8D8D8D8D87000000000,
  0x0000000066666666667C6060C0000000, 0x0000000076DC18181818181800000000,
  0x0000007E183C6666663C187E00000000, 0x000000386CC6C6FEC6C66C3800000000,
  0x0000386CC6C6C66C6C6C6CEE00000000, 0x00001E30180C3E666666663C00000000,
  0x00000000007EDBDBDB7E000000000000, 0x00000003067EDBDBF37E60C000000000,
  0x00001C3060607C606060301C00000000, 0x0000007CC6C6C6C6C6C6C6C600000000,
  0x00000000FE0000FE0000FE0000000000, 0x0000000018187E18180000FF00000000,
  0x00000030180C060C1830007E00000000, 0x0000000C18306030180C007E00000000,
  0x00000E1B1B1818181818181818181818, 0x1818181818181818D8D8D87000000000,
  0x000000001818007E0018180000000000, 0x000000000076DC0076DC000000000000,
  0x00386C6C380000000000000000000000, 0x00000000000000181800000000000000,
  0x00000000000000001800000000000000, 0x000F0C0C0C0C0CEC6C6C3C1C00000000,
  0x00D86C6C6C6C6C000000000000000000, 0x0070D83060C8F8000000000000000000,
  0x000000007C7C7C7C7C7C7C0000000000, 0x00000000000000000000000000000000]

/-- The bytes of `font_data`, one character after the other. -/
def fontData (a : ℤ) : UInt8 :=
  UInt8.ofNat (glyphs.getD (a / 16).toNat 0 >>> (8 * (15 - a % 16).toNat))

/-- `strlen` of the C library -/
def strlen (string : ℕ → UInt8) : ℕ := (stringAt string 0 4294967295).length

/-- `color` of `text_to_image`, as it is stored. -/
def textColor (h : ℤ) : UInt8 := UInt8.ofNat (u8 (h.tmod 10 + 1)).toNat

/-- `buffer_color` of `text_to_image`, as it is stored. -/
def bufferColor (h : ℤ) : UInt8 := UInt8.ofNat (u8 ((i32 (h + 5)).tmod 10 + 1)).toNat

/-- `index` of `text_to_image` -/
def textIndex (stringLength i j k : ℕ) : ℤ :=
  let startingIndex := (320 - (stringLength : ℤ) * 8).tdiv 2
  startingIndex.tdiv 4 + j * 80 + i * 2 + ((k % 4 * 1440 : ℕ) : ℤ) + ((k / 4 : ℕ) : ℤ)

/-- The byte of the font for a line of a character. Characters are signed. -/
def fontLine (c : UInt8) (line : ℕ) : UInt8 := fontData (i8 c.toNat * 16 + line)

/-- The loop of `text_to_image` over the bits of a line. -/
def drawLine (stringLength : ℕ) (color : UInt8) (i j : ℕ) (line : UInt8) (buffer : ℤ → UInt8) :
    ℤ → UInt8 :=
  (List.range fontWidth).foldl (fun buffer k ↦
    if line.toNat &&& 0x80 >>> k ≠ 0 then
      Function.update buffer (textIndex stringLength i j k) color
    else buffer) buffer

/-- The loop of `text_to_image` over the lines of a character. -/
def drawChar (stringLength : ℕ) (color : UInt8) (i : ℕ) (c : UInt8) (buffer : ℤ → UInt8) :
    ℤ → UInt8 :=
  (List.range' 1 (fontHeight + 1)).foldl
    (fun buffer j ↦ drawLine stringLength color i j (fontLine c (j - 1)) buffer) buffer

/-- `text_to_image` -/
def textToImage (string : ℕ → UInt8) (h : ℤ) (buffer : ℤ → UInt8) : ℤ → UInt8 :=
  let stringLength := strlen string
  (List.range stringLength).foldl
    (fun buffer i ↦ drawChar stringLength (textColor h) i (string i) buffer)
    (writeSeq (fun i ↦ (i : ℤ)) (fun _ ↦ bufferColor h) buffer 5760)

/-! ### The accesses -/

/-- An index of `buffer`. -/
def InBuffer (index : ℤ) : Prop := 0 ≤ index ∧ index < 5760

instance : DecidablePred InBuffer := fun _ ↦ inferInstanceAs (Decidable (_ ∧ _))

/-- `drawLine`, which reads a line only if the character has that many, and stores only inside. -/
def drawLineChecked (lines stringLength : ℕ) (color : UInt8) (i j : ℕ) (c : UInt8)
    (buffer : ℤ → UInt8) : Except Stop (ℤ → UInt8) :=
  (List.range fontWidth).foldlM (fun buffer k ↦ do
    let line ← check (j - 1 < lines) (fontLine c (j - 1))
    if line.toNat &&& 0x80 >>> k ≠ 0 then
      check (InBuffer (textIndex stringLength i j k))
        (Function.update buffer (textIndex stringLength i j k) color)
    else return buffer) buffer

/-- `textToImage` with checks -/
def textToImageChecked (lines : ℕ) (string : ℕ → UInt8) (h : ℤ) (buffer : ℤ → UInt8) :
    Except Stop (ℤ → UInt8) :=
  let stringLength := strlen string
  (List.range stringLength).foldlM (fun buffer i ↦
    (List.range' 1 (fontHeight + 1)).foldlM (fun buffer j ↦
      drawLineChecked lines stringLength (textColor h) i j (string i) buffer) buffer)
    (writeSeq (fun i ↦ (i : ℤ)) (fun _ ↦ bufferColor h) buffer 5760)

/-! ### The picture -/

/-- The address of a pixel of the status bar. -/
def barAddr (px py : ℕ) : ℤ := ((px % 4 * 1440 + 80 * py + px / 4 : ℕ) : ℤ)

/-- The pixel belongs to the text, of whose characters so many lines are drawn. -/
def TextPixel (lines : ℕ) (text : List UInt8) (px py : ℕ) : Prop :=
  ∃ i, ∃ hi : i < text.length, ∃ j < lines, ∃ k < fontWidth,
    px = 4 * (40 - text.length) + 8 * i + k ∧ py = 1 + j ∧
      (fontData (16 * text[i].toNat + j)).toNat.testBit (7 - k) = true

/-- The bar shows the text in one colour on a background of another one. -/
structure BarShows (bar : ℤ → UInt8) (text : List UInt8) (h : ℤ) : Prop where
  written : ∀ px py, TextPixel fontHeight text px py → bar (barAddr px py) = textColor h
  background : ∀ px < 320, ∀ py < 18, ¬TextPixel fontHeight text px py →
    bar (barAddr px py) = bufferColor h
  distinct : textColor h ≠ bufferColor h

/-- The bar shows the text, and for that only the lines of its characters are read and nothing is
stored outside. -/
structure ShowsText (string : ℕ → UInt8) (text : List UInt8) (h : ℤ) (buffer : ℤ → UInt8) :
    Prop where
  picture : BarShows (textToImage string h buffer) text h
  accesses : textToImageChecked fontHeight string h buffer = .ok (textToImage string h buffer)

section Coordinates

variable {stringLength i j k px py px' py' : ℕ}

theorem and_two_pow_ne_zero_iff (n i : ℕ) : n &&& 2 ^ i ≠ 0 ↔ n.testBit i = true := by
  constructor
  · intro hne
    obtain ⟨m, hm⟩ := Nat.exists_testBit_of_ne_zero hne
    rw [Nat.testBit_and, Nat.testBit_two_pow, Bool.and_eq_true, decide_eq_true_iff] at hm
    rw [hm.2]
    exact hm.1
  · intro hbit hzero
    have hset : (n &&& 2 ^ i).testBit i = true := by
      rw [Nat.testBit_and, hbit, Nat.testBit_two_pow_self, Bool.and_self]
    rw [hzero, Nat.zero_testBit] at hset
    cases hset

/-- The mask of the loop picks out the bits from the left to the right. -/
theorem and_shiftRight_ne_zero_iff (n : ℕ) (hk : k < fontWidth) :
    n &&& 0x80 >>> k ≠ 0 ↔ n.testBit (7 - k) = true := by
  unfold fontWidth at hk
  have hmask : 0x80 >>> k = 2 ^ (7 - k) := by
    interval_cases k <;> rfl
  rw [hmask, and_two_pow_ne_zero_iff]

theorem textIndex_eq (hlength : stringLength ≤ 40) :
    textIndex stringLength i j k = barAddr (4 * (40 - stringLength) + 8 * i + k) j := by
  have hstart : ((320 - (stringLength : ℤ) * 8).tdiv 2).tdiv 4 = 40 - stringLength := by
    have hhalf : (320 - (stringLength : ℤ) * 8).tdiv 2 = 160 - stringLength * 4 := by
      rw [Int.tdiv_eq_ediv_of_nonneg (by omega)]
      omega
    rw [hhalf, Int.tdiv_eq_ediv_of_nonneg (by omega)]
    omega
  simp only [textIndex, barAddr, hstart]
  omega

theorem barAddr_inj (hpx : px < 320) (hpx' : px' < 320) (hpy : py < 18) (hpy' : py' < 18)
    (h : barAddr px py = barAddr px' py') : px = px' ∧ py = py' := by
  have hdigits : ∀ b m n m' n' : ℕ, n < b → n' < b → b * m + n = b * m' + n' → m = m' ∧ n = n' := by
    intro b m n m' n' hn hn' hsame
    have hm := congrArg (· / b) hsame
    have hrest := congrArg (· % b) hsame
    simp only [Nat.mul_add_div (Nat.zero_lt_of_lt hn), Nat.mul_add_mod, Nat.div_eq_of_lt hn,
      Nat.div_eq_of_lt hn', Nat.mod_eq_of_lt hn, Nat.mod_eq_of_lt hn', add_zero] at hm hrest
    exact ⟨hm, hrest⟩
  unfold barAddr at h
  obtain ⟨hplane, hoffset⟩ := hdigits 1440 (px % 4) (80 * py + px / 4) (px' % 4)
    (80 * py' + px' / 4) (by omega) (by omega) (by omega)
  obtain ⟨hline, hcolumn⟩ := hdigits 80 py (px / 4) py' (px' / 4) (by omega) (by omega) hoffset
  omega

theorem inBuffer_barAddr (hpx : px < 320) (hpy : py < 18) : InBuffer (barAddr px py) := by
  unfold InBuffer barAddr
  omega

end Coordinates

theorem textColor_ne_bufferColor {h : ℤ} (hlow : 0 ≤ h) (hhigh : h < 2147483648) :
    textColor h ≠ bufferColor h := by
  have htext : u8 (h.tmod 10 + 1) = h % 10 + 1 := by
    rw [Int.tmod_eq_emod_of_nonneg hlow]
    exact Int.emod_eq_of_lt (by omega) (by omega)
  have hdistinct : u8 (h.tmod 10 + 1) ≠ u8 ((i32 (h + 5)).tmod 10 + 1) := by
    by_cases hwrap : h + 5 < 2147483648
    · rw [htext, i32_of_range (by omega) hwrap, Int.tmod_eq_emod_of_nonneg (by omega)]
      unfold u8
      omega
    · -- the sum overflows, and the remainder is negative
      have hneg : i32 (h + 5) = -(4294967296 - 5 - h) := by
        unfold i32
        omega
      rw [htext, hneg, Int.neg_tmod, Int.tmod_eq_emod_of_nonneg (by omega)]
      unfold u8
      omega
  intro hsame
  have hnat := congrArg UInt8.toNat hsame
  unfold textColor bufferColor at hnat
  rw [UInt8.toNat_ofNat', UInt8.toNat_ofNat'] at hnat
  unfold u8 at hdistinct hnat
  omega

section Painted

variable {string : ℕ → UInt8} {text : List UInt8} {h : ℤ} {buffer : ℤ → UInt8}

/-- What the loops store to. -/
def textRegion (string : ℕ → UInt8) : Set ℤ :=
  {a | ∃ i ∈ List.range (strlen string), ∃ j ∈ List.range' 1 (fontHeight + 1),
    ∃ k ∈ List.range fontWidth, (fontLine (string i) (j - 1)).toNat &&& 0x80 >>> k ≠ 0 ∧
      a ∈ ({textIndex (strlen string) i j k} : Set ℤ)}

theorem textToImage_paints (string : ℕ → UInt8) (color : UInt8) :
    Paints (fun buffer ↦ (List.range (strlen string)).foldl
      (fun buffer i ↦ drawChar (strlen string) color i (string i) buffer) buffer)
      (textRegion string) color :=
  Paints.foldl fun i _ ↦ Paints.foldl fun j _ ↦ Paints.foldl fun k _ ↦
    (Paints.update (textIndex (strlen string) i j k) color).ite _

theorem char_eq {c : UInt8} (hc : c.toNat < 128) (line : ℕ) :
    fontLine c line = fontData (16 * c.toNat + line) := by
  have hchar : i8 c.toNat = c.toNat := by
    unfold i8
    omega
  rw [fontLine, hchar, mul_comm]

theorem strlen_eq (hstring : HoldsString string text) (hlength : text.length ≤ 40) :
    strlen string = text.length := by
  rw [strlen, hstring.stringAt, List.length_take]
  omega

/-- The loops draw one line more of each character than it has. -/
theorem mem_textRegion_iff (hstring : HoldsString string text) (hlength : text.length ≤ 40)
    (hcodes : ∀ c ∈ text, c.toNat < 128) {px py : ℕ} (hpx : px < 320) (hpy : py < 18) :
    barAddr px py ∈ textRegion string ↔ TextPixel (fontHeight + 1) text px py := by
  simp only [textRegion, TextPixel, strlen_eq hstring hlength, Set.mem_ofPred_eq,
    Set.mem_singleton_iff, List.mem_range, List.mem_range'_1]
  constructor
  · rintro ⟨i, hi, j, hj, k, hk, hbit, haddr⟩
    rw [textIndex_eq hlength] at haddr
    unfold fontHeight fontWidth at *
    obtain ⟨hx, hy⟩ := barAddr_inj hpx (by omega) hpy (by omega) haddr
    refine ⟨i, hi, j - 1, by omega, k, hk, hx, by omega, ?_⟩
    rw [and_shiftRight_ne_zero_iff _ hk, hstring.char i hi,
      char_eq (hcodes _ (List.getElem_mem hi))] at hbit
    exact hbit
  · rintro ⟨i, hi, j, hj, k, hk, rfl, rfl, hbit⟩
    refine ⟨i, hi, 1 + j, by omega, k, hk, ?_, (textIndex_eq hlength).symm⟩
    rw [and_shiftRight_ne_zero_iff _ hk, hstring.char i hi,
      char_eq (hcodes _ (List.getElem_mem hi)), Nat.add_sub_cancel_left]
    exact hbit

theorem fill_apply {a : ℤ} (ha : InBuffer a) (value : UInt8) (buffer : ℤ → UInt8) :
    writeSeq (fun i ↦ (i : ℤ)) (fun _ ↦ value) buffer 5760 a = value := by
  obtain ⟨n, rfl⟩ := Int.eq_ofNat_of_zero_le ha.1
  exact writeSeq_apply (i := n) (by have := ha.2; omega) fun j _ hlt ↦ by omega

/-- What the bar shows, with one line more of each character. -/
theorem textToImage_pixel (hstring : HoldsString string text) (hlength : text.length ≤ 40)
    (hcodes : ∀ c ∈ text, c.toNat < 128) {px py : ℕ} (hpx : px < 320) (hpy : py < 18) :
    (TextPixel (fontHeight + 1) text px py →
      textToImage string h buffer (barAddr px py) = textColor h) ∧
    (¬TextPixel (fontHeight + 1) text px py →
      textToImage string h buffer (barAddr px py) = bufferColor h) := by
  have hpaints := textToImage_paints string (textColor h)
  rw [← mem_textRegion_iff hstring hlength hcodes hpx hpy]
  constructor
  · intro hin
    exact hpaints.inside _ _ hin
  · intro hout
    exact (hpaints.outside _ _ hout).trans (fill_apply (inBuffer_barAddr hpx hpy) _ _)

/-- The characters of a text lie on the bar. -/
theorem TextPixel.bounds {lines px py : ℕ} (h : TextPixel lines text px py)
    (hlength : text.length ≤ 40) : px < 320 ∧ py < 1 + lines := by
  obtain ⟨i, hi, j, hj, k, hk, rfl, rfl, -⟩ := h
  unfold fontWidth at hk
  omega

theorem TextPixel.mono {lines lines' px py : ℕ} (hle : lines ≤ lines')
    (h : TextPixel lines text px py) : TextPixel lines' text px py := by
  obtain ⟨i, hi, j, hj, k, hk, hx, hy, hbit⟩ := h
  exact ⟨i, hi, j, hj.trans_le hle, k, hk, hx, hy, hbit⟩

/-- A line that is not empty has a bit. -/
theorem exists_testBit {line : UInt8} (h : line ≠ 0) :
    ∃ k < fontWidth, line.toNat.testBit (7 - k) = true := by
  have hne : line.toNat ≠ 0 := fun hzero ↦ h (UInt8.toNat_inj.mp hzero)
  obtain ⟨m, hm⟩ := Nat.exists_testBit_of_ne_zero hne
  have hm8 : m < 8 := by
    by_contra hlarge
    have hsmall : line.toNat < 2 ^ m :=
      line.toNat_lt.trans_le (Nat.pow_le_pow_right (by decide) (not_lt.mp hlarge))
    rw [Nat.testBit_lt_two_pow hsmall] at hm
    cases hm
  refine ⟨7 - m, by unfold fontWidth; omega, ?_⟩
  rwa [Nat.sub_sub_self (Nat.le_of_lt_succ hm8)]

/-- Where the line behind each character is empty, no pixel of it is drawn. -/
theorem textPixel_of_nextLine (hempty : ∀ c ∈ text, fontData (16 * c.toNat + fontHeight) = 0)
    {px py : ℕ} (h : TextPixel (fontHeight + 1) text px py) : TextPixel fontHeight text px py := by
  obtain ⟨i, hi, j, hj, k, hk, hx, hy, hbit⟩ := h
  refine ⟨i, hi, j, ?_, k, hk, hx, hy, hbit⟩
  rcases Nat.lt_succ_iff_lt_or_eq.mp hj with hlt | rfl
  · exact hlt
  · rw [hempty _ (List.getElem_mem hi), UInt8.toNat_zero, Nat.zero_testBit] at hbit
    cases hbit

/-- Where the line behind a character is not empty, a pixel is drawn below the text. -/
theorem exists_textPixel_below {c : UInt8} (hc : c ∈ text)
    (hline : fontData (16 * c.toNat + fontHeight) ≠ 0) :
    ∃ px, TextPixel (fontHeight + 1) text px (1 + fontHeight) := by
  obtain ⟨i, hi, rfl⟩ := List.mem_iff_getElem.mp hc
  obtain ⟨k, hk, hbit⟩ := exists_testBit hline
  exact ⟨_, i, hi, fontHeight, Nat.lt_succ_self _, k, hk, rfl, rfl, hbit⟩

/-- The bar shows the text exactly if the line behind each of its characters is empty. -/
theorem barShows_iff (hstring : HoldsString string text) (hlength : text.length ≤ 40)
    (hcodes : ∀ c ∈ text, c.toNat < 128) (hlow : 0 ≤ h) (hhigh : h < 2147483648) :
    BarShows (textToImage string h buffer) text h ↔
      ∀ c ∈ text, fontData (16 * c.toNat + fontHeight) = 0 := by
  have hpixel {px py : ℕ} (hpx : px < 320) (hpy : py < 18) :=
    @textToImage_pixel string text h buffer hstring hlength hcodes px py hpx hpy
  have hcolors := textColor_ne_bufferColor hlow hhigh
  constructor
  · intro hshows c hc
    by_contra hline
    obtain ⟨px, hdrawn⟩ := exists_textPixel_below hc hline
    obtain ⟨hpx, hpy⟩ := hdrawn.bounds hlength
    have hnot : ¬TextPixel fontHeight text px (1 + fontHeight) := fun htext ↦
      absurd (htext.bounds hlength).2 (lt_irrefl _)
    exact hcolors (((hpixel hpx hpy).1 hdrawn).symm.trans (hshows.background px hpx _ hpy hnot))
  · intro hempty
    refine ⟨fun px py htext ↦ ?_, fun px hpx py hpy hnot ↦ ?_, hcolors⟩
    · have hdrawn : TextPixel (fontHeight + 1) text px py := htext.mono (Nat.le_succ _)
      obtain ⟨hpx, hpy⟩ := hdrawn.bounds hlength
      exact (hpixel hpx hpy).1 hdrawn
    · exact (hpixel hpx hpy).2 fun hdrawn ↦ hnot (textPixel_of_nextLine hempty hdrawn)

/-- The characters whose next one in the font begins with a line that is not empty. -/
theorem nextLine_eq_zero_iff :
    ∀ n < 128, fontData (16 * (n : ℕ) + fontHeight) = 0 ↔ n ∉ [7, 9, 35, 93, 95] := by
  decide +kernel

/-! ### What is read and stored -/

theorem drawLineChecked_eq {lines stringLength i j : ℕ} (hline : j - 1 < lines)
    (hin : ∀ k < fontWidth, InBuffer (textIndex stringLength i j k)) (color c : UInt8) :
    drawLineChecked lines stringLength color i j c buffer =
      .ok (drawLine stringLength color i j (fontLine c (j - 1)) buffer) := by
  refine foldlM_eq_ok (fun _ ↦ True) (fun _ _ _ _ ↦ trivial) (fun buffer k hk _ ↦ ?_) trivial
  rw [check_of hline, ok_bind]
  split_ifs
  · exact check_of (hin k (List.mem_range.mp hk)) _
  · rfl

/-- With one line more for each character, all that is accessed is there. -/
theorem textToImageChecked_lines (hlength : strlen string ≤ 40) :
    textToImageChecked (fontHeight + 1) string h buffer = .ok (textToImage string h buffer) := by
  refine foldlM_eq_ok (fun _ ↦ True) (fun _ _ _ _ ↦ trivial) (fun buffer i hi _ ↦ ?_) trivial
  refine foldlM_eq_ok (fun _ ↦ True) (fun _ _ _ _ ↦ trivial) (fun buffer j hj _ ↦ ?_) trivial
  rw [List.mem_range] at hi
  rw [List.mem_range'_1] at hj
  unfold fontHeight at hj
  refine drawLineChecked_eq (by unfold fontHeight; omega) (fun k hk ↦ ?_) _ _
  unfold fontWidth at hk
  rw [textIndex_eq hlength]
  exact inBuffer_barAddr (by omega) (by omega)

/-- The lines of the characters are not enough for a string that is not empty. -/
theorem strlen_eq_zero_of_checked {buffer' : ℤ → UInt8}
    (hchecked : textToImageChecked fontHeight string h buffer = .ok buffer') :
    strlen string = 0 := by
  by_contra hlength
  obtain ⟨before, after, hchar⟩ := foldlM_ok_of_mem hchecked
    (List.mem_range.mpr (Nat.pos_of_ne_zero hlength))
  obtain ⟨before, after, hline⟩ := foldlM_ok_of_mem hchar
    (b := fontHeight + 1) (List.mem_range'_1.mpr (by omega))
  obtain ⟨before, after, hbit⟩ := foldlM_ok_of_mem hline
    (b := 0) (List.mem_range.mpr (by decide))
  rw [check, if_neg (by omega)] at hbit
  cases hbit

/-- Only for the empty string is everything right. The picture alone is right as long as the
string has none of five characters, and nothing is stored outside in any case. -/
theorem showsText_exact (hstring : HoldsString string text) (hlength : text.length ≤ 40)
    (hcodes : ∀ c ∈ text, c.toNat < 128) (hlow : 0 ≤ h) (hhigh : h < 2 ^ 31) :
    (ShowsText string text h buffer ↔ text = []) ∧
      (BarShows (textToImage string h buffer) text h ↔
        ∀ c ∈ text, c.toNat ∉ [7, 9, 35, 93, 95]) ∧
      textToImageChecked (fontHeight + 1) string h buffer = .ok (textToImage string h buffer) := by
  have hpicture : BarShows (textToImage string h buffer) text h ↔
      ∀ c ∈ text, c.toNat ∉ [7, 9, 35, 93, 95] := by
    rw [barShows_iff hstring hlength hcodes hlow hhigh]
    exact forall₂_congr fun c hc ↦ nextLine_eq_zero_iff c.toNat (hcodes c hc)
  have hstrlen := strlen_eq hstring hlength
  refine ⟨⟨fun hshows ↦ ?_, fun hempty ↦ ⟨hpicture.mpr ?_, ?_⟩⟩, hpicture,
    textToImageChecked_lines (hstrlen.trans_le hlength)⟩
  · rw [← List.length_eq_zero_iff, ← hstrlen]
    exact strlen_eq_zero_of_checked hshows.accesses
  · rw [hempty]
    exact fun c hc ↦ absurd hc List.not_mem_nil
  · rw [hempty, List.length_nil] at hstrlen
    simp only [textToImageChecked, textToImage, hstrlen, List.range_zero, List.foldlM_nil,
      List.foldl_nil]
    rfl

end Painted

/-- The text `"Level"`. -/
theorem showsText_exact_level :
    BarShows (textToImage (fun i ↦ [76, 101, 118, 101, 108].getD i 0) 1 fun _ ↦ 0)
      [76, 101, 118, 101, 108] 1 :=
  (showsText_exact (HoldsString.getD_zero (by decide +kernel)) (by decide) (by decide +kernel)
    (by decide) (by norm_num)).2.1.mpr (by decide +kernel)

/-- The text `"#"` is not shown right. -/
theorem showsText_not_always :
    ¬ShowsText (fun i ↦ [35].getD i 0) [35] 1 fun _ ↦ 0 := by
  intro hshows
  have hempty := (barShows_iff (HoldsString.getD_zero (by decide +kernel)) (by decide)
    (by decide +kernel) (by decide) (by decide)).mp hshows.picture 35 List.mem_cons_self
  exact (nextLine_eq_zero_iff 35 (by decide)).mp hempty (by decide)

end Sp18.MazeGame
