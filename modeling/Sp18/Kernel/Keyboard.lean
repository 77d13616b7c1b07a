import Sp18.Kernel.Terminal

/-!
# The keyboard

`keyboard.c`: the scancode table, the flags of the modifier keys and `keyboard_handler`. A scancode
is read into a `char`, so that the codes of releases are negative. The calls to the interrupt
controller are left out.
-/

set_option autoImplicit false
set_option relaxedAutoImplicit false

namespace Sp18.Kernel

open Foundation

/-- `CAPSLOCK_PRESS` -/
def capslockPress : ℤ := 0x3A

/-- `LEFT_SHIFT_PRESS` -/
def leftShiftPress : ℤ := 0x2A

/-- `LEFT_SHIFT_RELEASE` -/
def leftShiftRelease : ℤ := -86

/-- `RIGHT_SHIFT_PRESS` -/
def rightShiftPress : ℤ := 0x36

/-- `RIGHT_SHIFT_RELEASE` -/
def rightShiftRelease : ℤ := -74

/-- `BACKSPACE_PRESS` -/
def backspacePress : ℤ := 0x0E

/-- `LEFT_CONTROL_PRESS` -/
def leftControlPress : ℤ := 0x1D

/-- `LEFT_CONTROL_RELEASE` -/
def leftControlRelease : ℤ := -99

/-- `RIGHT_ALT_PRESS` -/
def rightAltPress : ℤ := 0x38

/-- `RIGHT_ALT_RELEASE` -/
def rightAltRelease : ℤ := -72

/-- `ENTER_PRESSED` -/
def enterPressed : ℤ := 0x1C

/-- `SPACE_PRESSED` -/
def spacePressed : ℤ := 0x39

/-- `F1_PRESS` -/
def f1Press : ℤ := 0x3B

/-- `F2_PRESS` -/
def f2Press : ℤ := 0x3C

/-- `F3_PRESS` -/
def f3Press : ℤ := 0x3D

/-- `L_PRESS` -/
def lPress : ℤ := 0x26

/-- The entries of the two rows of `scancode` that are not 0 for lack of an initializer. -/
def scancodeRow : Bool → List UInt8
  | false =>
    [0, 27, 49, 50, 51, 52, 53, 54, 55, 56,
      57, 48, 45, 61, 8, 9, 113, 119, 101, 114,
      116, 121, 117, 105, 111, 112, 91, 93, 10, 0,
      97, 115, 100, 102, 103, 104, 106, 107, 108, 59,
      39, 96, 0, 92, 122, 120, 99, 118, 98, 110,
      109, 44, 46, 47, 0]
  | true =>
    [0, 27, 33, 64, 35, 36, 37, 94, 38, 42,
      40, 41, 95, 43, 8, 9, 81, 87, 69, 82,
      84, 89, 85, 73, 79, 80, 123, 125, 10, 0,
      65, 83, 68, 70, 71, 72, 74, 75, 76, 58,
      34, 126, 0, 124, 90, 88, 67, 86, 66, 78,
      77, 60, 62, 63, 0]

/-- `scancode[row][c]` -/
def scancode (row : Bool) (c : ℤ) : UInt8 := (scancodeRow row).getD c.toNat 0

/-- The codes that the last two branches of `keyboard_handler` leave out. -/
def leftOut (c : ℤ) : Prop :=
  c ∈ [capslockPress, leftShiftPress, rightShiftPress, leftControlPress, rightAltPress,
    enterPressed, f1Press, f2Press, f3Press]

instance (c : ℤ) : Decidable (leftOut c) := inferInstanceAs (Decidable (c ∈ _))

/-- The terminals and the flags of the keyboard driver. -/
structure Keyboard where
  console : Console
  capsFlag : Bool
  shiftLFlag : Bool
  shiftRFlag : Bool
  ctrlFlag : Bool
  altFlag : Bool

namespace Keyboard

/-- The `switch` of `keyboard_handler`. -/
def setFlags (k : Keyboard) (c : ℤ) : Keyboard :=
  if c = capslockPress then { k with capsFlag := !k.capsFlag }
  else if c = leftShiftPress then { k with shiftLFlag := !k.shiftLFlag }
  else if c = leftShiftRelease then { k with shiftLFlag := !k.shiftLFlag }
  else if c = rightShiftPress then { k with shiftRFlag := !k.shiftRFlag }
  else if c = rightShiftRelease then { k with shiftRFlag := !k.shiftRFlag }
  else if c = leftControlPress then { k with ctrlFlag := !k.ctrlFlag }
  else if c = leftControlRelease then { k with ctrlFlag := !k.ctrlFlag }
  else if c = rightAltPress then { k with altFlag := true }
  else if c = rightAltRelease then { k with altFlag := false }
  else if c = enterPressed then { k with console := { k.console with enterFlag := true } }
  else k

/-- The flags that select the upper row of the table. -/
def upperFlag (k : Keyboard) : Bool := k.capsFlag || k.shiftLFlag || k.shiftRFlag

/-- The branches of `keyboard_handler` for the code `c`, called while the process whose PCB is at
`self` runs: what becomes of the terminals. -/
def handle (k : Keyboard) (self c : ℤ) : Console :=
  let s := k.console
  if c = enterPressed then s.terminalNewline self
  else if c = lPress ∧ k.ctrlFlag then s.terminalClear
  else if c = backspacePress then s.cursorBackspace
  else if c = spacePressed then s.terminalPutc spaceChar false
  else if c = f1Press ∧ k.altFlag then s.switchTerminal self 0
  else if c = f2Press ∧ k.altFlag then s.switchTerminal self 1
  else if c = f3Press ∧ k.altFlag then s.switchTerminal self 2
  else if c ≥ 0 ∧ (¬ k.upperFlag ∧ ¬ s.enterFlag ∧ ¬ k.altFlag) ∧ ¬ leftOut c then
    s.terminalPutc (scancode false c) false
  else if c ≥ 0 ∧ k.upperFlag ∧ ¬ leftOut c then s.terminalPutc (scancode true c) false
  else s

/-- What holds in every branch of the `switch` holds after it. -/
theorem setFlags_cases {P : Keyboard → Prop} {k : Keyboard} {c : ℤ} (hsame : P k)
    (hcaps : P { k with capsFlag := !k.capsFlag })
    (hleft : P { k with shiftLFlag := !k.shiftLFlag })
    (hright : P { k with shiftRFlag := !k.shiftRFlag })
    (hctrl : c = leftControlPress ∨ c = leftControlRelease → P { k with ctrlFlag := !k.ctrlFlag })
    (halt : c = rightAltPress → P { k with altFlag := true })
    (halt' : c = rightAltRelease → P { k with altFlag := false })
    (henter : c = enterPressed → P { k with console := { k.console with enterFlag := true } }) :
    P (k.setFlags c) := by
  refine iteInduction (fun _ ↦ hcaps) fun _ ↦ ?_
  refine iteInduction (fun _ ↦ hleft) fun _ ↦ iteInduction (fun _ ↦ hleft) fun _ ↦ ?_
  refine iteInduction (fun _ ↦ hright) fun _ ↦ iteInduction (fun _ ↦ hright) fun _ ↦ ?_
  refine iteInduction (fun h ↦ hctrl (Or.inl h)) fun _ ↦ ?_
  refine iteInduction (fun h ↦ hctrl (Or.inr h)) fun _ ↦ ?_
  exact iteInduction halt fun _ ↦ iteInduction halt' fun _ ↦ iteInduction henter fun _ ↦ hsame

/-- `keyboard_handler` for the byte that the keyboard sends. -/
def keyboardHandler (k : Keyboard) (self : ℤ) (data : UInt8) : Keyboard :=
  let c := i8 data.toNat
  let k := k.setFlags c
  { k with console := k.handle self c }

end Keyboard

end Sp18.Kernel
