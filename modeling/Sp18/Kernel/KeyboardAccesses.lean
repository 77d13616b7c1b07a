import Sp18.Foundation.Checked
import Sp18.Kernel.Keyboard

/-!
# The video accesses of the keyboard handler

`terminal_putc`, `cursor_backspace` and `keyboard_handler` once more, with a check at the store of a
character. It is the one access of the handler to the video page whose address depends on the
cursor: the loops of `scroll_up_curr` and `terminal_clear` and the copies of `switch_terminal` run
over the cells of the screen.

The page at `video_mem` has 4 KB, and the pages before and behind it are not present. A store
outside of it is a page fault: the handler does not go on, and the exception handler ends the
process that it has interrupted (`Stop.outside`). Whether a key gets to such a store is said by the
terminal and the flags before it (`keyboardHandlerChecked_eq`).
-/

set_option autoImplicit false
set_option relaxedAutoImplicit false

namespace Sp18.Kernel

open Foundation

/-- The two bytes of a cell are on the page at `video_mem`. -/
def OnVideoPage (cell : ℤ) : Prop := 0 ≤ 2 * cell ∧ 2 * cell + 1 < fourKB

instance (cell : ℤ) : Decidable (OnVideoPage cell) := inferInstanceAs (Decidable (_ ∧ _))

namespace Console

/-! ### The functions with a check -/

/-- `putcDisplayed` with a check -/
def putcDisplayedChecked (s : Console) (c : UInt8) (d : Bool) : Except Stop Console := do
  let t := s.displayed
  let s ←
    if c = newlineChar ∨ c = returnChar then pure s
    else
      let cell := numCols * t.termScreenY + t.termScreenX
      check (OnVideoPage cell) (s.setVideoMem (putCell s.videoMem cell c))
  return s.setDisplayed (t.advance c d)

/-- `terminal_putc` with a check -/
def terminalPutcChecked (s : Console) (c : UInt8) (d : Bool) : Except Stop Console := do
  let s ←
    if s.displayed.termBufIndex < bufferSize - 1 ∧ s.displayed.termIndex < 2000 then do
      let s ← s.putcDisplayedChecked c d
      pure s.updateTerminal
    else pure s
  return if s.displayed.termIndex ≥ 2000 then s.scrollUpCurr else s

/-- `cursor_backspace` with a check -/
def cursorBackspaceChecked (s : Console) : Except Stop Console :=
  let t := s.displayed
  if t.termIndex % 80 = 0 ∧ t.termIndex ≠ 0 then do
    let s ← (s.setDisplayed { t with
      termIndex := u16 (t.termIndex - 1)
      termScreenY := t.termScreenY - 1
      termScreenX := numCols - 1 }).terminalPutcChecked 0 true
    return (s.setDisplayed { s.displayed with
      termScreenX := numCols - 1
      termBufIndex := u16 (s.displayed.termBufIndex - 1) }).updateTerminal
  else if t.termBufIndex > 0 ∧ t.termBufIndex < bufferSize - 1 ∧ t.termIndex ≠ 0 then do
    let s ← (s.setDisplayed { t with
      termScreenX := t.termScreenX - 1 }).terminalPutcChecked 0 true
    return (s.setDisplayed { s.displayed with
      termScreenX := s.displayed.termScreenX - 1
      termIndex := u16 (s.displayed.termIndex - 1)
      termBufIndex := u16 (s.displayed.termBufIndex - 1) }).updateTerminal
  else if t.termBufIndex = bufferSize - 1 then do
    let s ← (s.setDisplayed { t with
      termScreenX := t.termScreenX - 1
      termIndex := u16 (t.termIndex - 1)
      termBufIndex := u16 (t.termBufIndex - 1) }).terminalPutcChecked 0 true
    return (s.setDisplayed { s.displayed with
      termScreenX := s.displayed.termScreenX - 1 }).updateTerminal
  else return s

end Console

namespace Keyboard

/-- `handle` with a check -/
def handleChecked (k : Keyboard) (self c : ℤ) : Except Stop Console :=
  let s := k.console
  if c = enterPressed then return s.terminalNewline self
  else if c = lPress ∧ k.ctrlFlag then return s.terminalClear
  else if c = backspacePress then s.cursorBackspaceChecked
  else if c = spacePressed then s.terminalPutcChecked spaceChar false
  else if c = f1Press ∧ k.altFlag then return s.switchTerminal self 0
  else if c = f2Press ∧ k.altFlag then return s.switchTerminal self 1
  else if c = f3Press ∧ k.altFlag then return s.switchTerminal self 2
  else if c ≥ 0 ∧ (¬ k.upperFlag ∧ ¬ s.enterFlag ∧ ¬ k.altFlag) ∧ ¬ leftOut c then
    s.terminalPutcChecked (scancode false c) false
  else if c ≥ 0 ∧ k.upperFlag ∧ ¬ leftOut c then s.terminalPutcChecked (scancode true c) false
  else return s

/-- `keyboard_handler` with a check -/
def keyboardHandlerChecked (k : Keyboard) (self : ℤ) (data : UInt8) : Except Stop Keyboard := do
  let c := i8 data.toNat
  let k := k.setFlags c
  let console ← k.handleChecked self c
  return { k with console := console }

end Keyboard

/-! ### Where the check succeeds -/

namespace Terminal

/-- `terminal_putc` stores `c` to the video page, if it stores it at all. -/
def PutcOnPage (t : Terminal) (c : UInt8) : Prop :=
  t.termBufIndex < bufferSize - 1 ∧ t.termIndex < 2000 ∧ ¬ (c = newlineChar ∨ c = returnChar) →
    OnVideoPage (numCols * t.termScreenY + t.termScreenX)

instance (t : Terminal) (c : UInt8) : Decidable (t.PutcOnPage c) :=
  inferInstanceAs (Decidable (_ → _))

/-- `cursor_backspace` stores to the video page, if it stores at all. -/
def BackspaceOnPage (t : Terminal) : Prop :=
  if t.termIndex % 80 = 0 ∧ t.termIndex ≠ 0 then
    PutcOnPage { t with
      termIndex := u16 (t.termIndex - 1)
      termScreenY := t.termScreenY - 1
      termScreenX := numCols - 1 } 0
  else if t.termBufIndex > 0 ∧ t.termBufIndex < bufferSize - 1 ∧ t.termIndex ≠ 0 then
    PutcOnPage { t with termScreenX := t.termScreenX - 1 } 0
  else if t.termBufIndex = bufferSize - 1 then
    PutcOnPage { t with
      termScreenX := t.termScreenX - 1
      termIndex := u16 (t.termIndex - 1)
      termBufIndex := u16 (t.termBufIndex - 1) } 0
  else True

instance (t : Terminal) : Decidable t.BackspaceOnPage :=
  inferInstanceAs (Decidable (ite _ _ _))

end Terminal

/-- The key stores to the video page, if it stores at all. -/
def Keyboard.StoresOnPage (k : Keyboard) (c : ℤ) : Prop :=
  if c = backspacePress then k.console.displayed.BackspaceOnPage
  else if c = spacePressed then k.console.displayed.PutcOnPage spaceChar
  else if c ≥ 0 ∧ (¬ k.upperFlag ∧ ¬ k.console.enterFlag ∧ ¬ k.altFlag) ∧ ¬ leftOut c then
    c = lPress ∧ k.ctrlFlag ∨ k.console.displayed.PutcOnPage (scancode false c)
  else if c ≥ 0 ∧ k.upperFlag ∧ ¬ leftOut c then
    c = lPress ∧ k.ctrlFlag ∨ k.console.displayed.PutcOnPage (scancode true c)
  else True

instance (k : Keyboard) (c : ℤ) : Decidable (k.StoresOnPage c) :=
  inferInstanceAs (Decidable (ite _ _ _))

section Checks

variable (s : Console)

theorem putcDisplayedChecked_eq (c : UInt8) (d : Bool)
    (hroom : s.displayed.termBufIndex < bufferSize - 1 ∧ s.displayed.termIndex < 2000) :
    s.putcDisplayedChecked c d = check (s.displayed.PutcOnPage c) (s.putcDisplayed c d) := by
  rw [Console.putcDisplayedChecked, Console.putcDisplayed]
  by_cases hline : c = newlineChar ∨ c = returnChar
  · have hpage : s.displayed.PutcOnPage c := fun h ↦ absurd hline h.2.2
    rw [if_pos hline, if_pos hline, check_of hpage]
    rfl
  · have hpage : s.displayed.PutcOnPage c ↔ OnVideoPage
        (numCols * s.displayed.termScreenY + s.displayed.termScreenX) :=
      ⟨fun h ↦ h ⟨hroom.1, hroom.2, hline⟩, fun h _ ↦ h⟩
    rw [if_neg hline, if_neg hline, check_congr hpage]
    exact check_bind _ fun s' ↦ Console.setDisplayed s' (s.displayed.advance c d)

theorem terminalPutcChecked_eq (c : UInt8) (d : Bool) : s.terminalPutcChecked c d =
    check (s.displayed.PutcOnPage c) (s.terminalPutc c d) := by
  rw [Console.terminalPutcChecked, Console.terminalPutc]
  by_cases hroom : s.displayed.termBufIndex < bufferSize - 1 ∧ s.displayed.termIndex < 2000
  · rw [if_pos hroom, if_pos hroom, putcDisplayedChecked_eq s c d hroom]
    by_cases hpage : s.displayed.PutcOnPage c
    · rw [check_of hpage, check_of hpage]
      rfl
    · rw [check, check, if_neg hpage, if_neg hpage]
      rfl
  · have hpage : s.displayed.PutcOnPage c := fun h ↦ absurd ⟨h.1, h.2.1⟩ hroom
    rw [if_neg hroom, if_neg hroom, check_of hpage]
    rfl

theorem cursorBackspaceChecked_eq : s.cursorBackspaceChecked =
    check s.displayed.BackspaceOnPage s.cursorBackspace := by
  simp only [Console.cursorBackspaceChecked, Console.cursorBackspace, Terminal.BackspaceOnPage,
    terminalPutcChecked_eq, Console.displayed_setDisplayed]
  split_ifs
  · exact check_bind _ _
  · exact check_bind _ _
  · exact check_bind _ _
  · exact (check_of trivial _).symm

end Checks

namespace Keyboard

theorem handleChecked_eq (k : Keyboard) (self c : ℤ) :
    k.handleChecked self c = check (k.StoresOnPage c) (k.handle self c) := by
  -- the keys that the last two branches leave out, and `l` with Ctrl, store no character
  have hquiet : c ≠ backspacePress → c ≠ spacePressed →
      leftOut c ∨ c = lPress ∧ k.ctrlFlag = true → k.StoresOnPage c := by
    intro hback hspace hout
    rw [StoresOnPage, if_neg hback, if_neg hspace]
    split_ifs with hlower hupper
    · exact Or.inl (hout.resolve_left hlower.2.2)
    · exact Or.inl (hout.resolve_left hupper.2.2)
  have hkey : ∀ {code : ℤ}, c = code → code ≠ backspacePress → code ≠ spacePressed →
      leftOut code → k.StoresOnPage c := by
    rintro code rfl hback hspace hout
    exact hquiet hback hspace (Or.inl hout)
  simp only [handleChecked, handle]
  split_ifs with henter hclear hback hspace hfirst hsecond hthird hlower hupper
  · exact (check_of (hkey henter (by decide) (by decide) (by decide)) _).symm
  · obtain ⟨rfl, hctrl⟩ := hclear
    exact (check_of (hquiet (by decide) (by decide) (Or.inr ⟨rfl, hctrl⟩)) _).symm
  · rw [cursorBackspaceChecked_eq]
    exact check_congr (by rw [StoresOnPage, if_pos hback]) _
  · rw [terminalPutcChecked_eq]
    exact check_congr (by rw [StoresOnPage, if_neg hback, if_pos hspace]) _
  · exact (check_of (hkey hfirst.1 (by decide) (by decide) (by decide)) _).symm
  · exact (check_of (hkey hsecond.1 (by decide) (by decide) (by decide)) _).symm
  · exact (check_of (hkey hthird.1 (by decide) (by decide) (by decide)) _).symm
  · rw [terminalPutcChecked_eq]
    refine check_congr ?_ _
    rw [StoresOnPage, if_neg hback, if_neg hspace, if_pos hlower, or_iff_right hclear]
  · rw [terminalPutcChecked_eq]
    refine check_congr ?_ _
    rw [StoresOnPage, if_neg hback, if_neg hspace, if_neg hlower, if_pos hupper,
      or_iff_right hclear]
  · refine (check_of ?_ _).symm
    rw [StoresOnPage, if_neg hback, if_neg hspace, if_neg hlower, if_neg hupper]
    trivial

/-- The handler goes on after its store exactly if that is to the video page. -/
theorem keyboardHandlerChecked_eq (k : Keyboard) (self : ℤ) (data : UInt8) :
    k.keyboardHandlerChecked self data =
      check ((k.setFlags (i8 data.toNat)).StoresOnPage (i8 data.toNat))
        (k.keyboardHandler self data) := by
  rw [keyboardHandlerChecked, handleChecked_eq]
  exact check_bind _ _

end Keyboard

end Sp18.Kernel
