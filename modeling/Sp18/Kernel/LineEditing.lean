import Sp18.Kernel.Terminal
import Sp18.Foundation.StepSystem

/-!
# Line editing on the displayed terminal

The keyboard handler edits the displayed terminal with four functions. Their counters belong
together: the cursor is on the screen, the index is the cursor's cell, and the number of pending
characters fits the buffer (`Terminal.Consistent`).

Printing, a new line and clearing the screen keep this. Backspace keeps it exactly where
`Terminal.BackspaceFits` holds. At the start of a row it takes a character out of the buffer
whether or not there is one, so that an empty buffer becomes one of 65535 characters. With a full
buffer it moves the cursor before it calls `terminal_putc`, whose test for the start of a row then
looks at the wrong column: at column 1 it steps to the next row and back to column -1, and at the
first cell of the screen it steps to the left of it.
-/

set_option autoImplicit false
set_option relaxedAutoImplicit false

namespace Sp18.Kernel

open Foundation

/-- The cursor is on the screen, the index is its cell, and the pending characters fit. -/
structure Terminal.Consistent (t : Terminal) : Prop where
  x_nonneg : 0 ≤ t.termScreenX
  x_lt : t.termScreenX < 80
  y_nonneg : 0 ≤ t.termScreenY
  y_lt : t.termScreenY < 25
  index_eq : t.termIndex = 80 * t.termScreenY + t.termScreenX
  buf_nonneg : 0 ≤ t.termBufIndex
  buf_le : t.termBufIndex ≤ 127

/-- A terminal as `terminal_clear` leaves it. The pending characters stay. -/
structure Terminal.Cleared (t : Terminal) : Prop where
  x_eq : t.termScreenX = 0
  y_eq : t.termScreenY = 0
  index_eq : t.termIndex = 0
  buf_nonneg : 0 ≤ t.termBufIndex
  buf_le : t.termBufIndex ≤ 127

/-- The states in which `cursor_backspace` keeps the counters together. -/
structure Terminal.BackspaceFits (t : Terminal) : Prop where
  notEmpty : t.termScreenX = 0 → 0 < t.termScreenY → 0 < t.termBufIndex
  notFull : t.termBufIndex = 127 → t.termScreenX ≠ 1 ∧ (t.termScreenX = 0 → 0 < t.termScreenY)

/-- What the keyboard handler does with a key on the displayed terminal. A printable key is any
character but the two that end a line; Enter carries the address of the running PCB. -/
inductive KeyEvent where
  | printable (c : UInt8) (hnewline : c ≠ newlineChar) (hreturn : c ≠ returnChar)
  | backspace
  | enter (self : ℤ)
  | controlL

/-- The function that handles the key. -/
def handleKey (s : Console) : KeyEvent → Console
  | .printable c _ _ => s.terminalPutc c false
  | .backspace => s.cursorBackspace
  | .enter self => s.terminalNewline self
  | .controlL => s.terminalClear

/-- The key meets the condition for keeping the counters together. -/
def KeyFits (s : Console) : KeyEvent → Prop
  | .backspace => s.displayed.BackspaceFits
  | _ => True

theorem Terminal.Cleared.consistent {t : Terminal} (h : t.Cleared) : t.Consistent where
  x_nonneg := h.x_eq.ge
  x_lt := by rw [h.x_eq]; decide
  y_nonneg := h.y_eq.ge
  y_lt := by rw [h.y_eq]; decide
  index_eq := by rw [h.x_eq, h.y_eq, h.index_eq]; rfl
  buf_nonneg := h.buf_nonneg
  buf_le := h.buf_le

theorem Terminal.Consistent.termIndex_lt {t : Terminal} (h : t.Consistent) :
    t.termIndex < 2000 := by
  obtain ⟨hx, hx', hy, hy', hindex, -, -⟩ := h
  omega

/-- Scrolling puts the cursor to the start of the last row. -/
theorem consistent_scrolled (t : Terminal) (hbuf : 0 ≤ t.termBufIndex)
    (hbuf' : t.termBufIndex ≤ 127) :
    ({ t with termIndex := 1920, termScreenX := 0, termScreenY := 24 } : Terminal).Consistent :=
  ⟨le_rfl, by norm_num, by norm_num, by norm_num, by norm_num, hbuf, hbuf'⟩

/-- What `terminal_putc` does to the displayed terminal. -/
def Terminal.putc (t : Terminal) (c : UInt8) (d : Bool) : Terminal :=
  let t := if t.termBufIndex < bufferSize - 1 ∧ t.termIndex < 2000 then t.advance c d else t
  if t.termIndex ≥ 2000 then { t with termIndex := 1920, termScreenX := 0, termScreenY := 24 }
  else t

/-- What `cursor_backspace` does to the displayed terminal. -/
def Terminal.backspace (t : Terminal) : Terminal :=
  if t.termIndex % 80 = 0 ∧ t.termIndex ≠ 0 then
    let t := Terminal.putc { t with
      termIndex := u16 (t.termIndex - 1)
      termScreenY := t.termScreenY - 1
      termScreenX := numCols - 1 } 0 true
    { t with termScreenX := numCols - 1, termBufIndex := u16 (t.termBufIndex - 1) }
  else if t.termBufIndex > 0 ∧ t.termBufIndex < bufferSize - 1 ∧ t.termIndex ≠ 0 then
    let t := Terminal.putc { t with termScreenX := t.termScreenX - 1 } 0 true
    { t with
      termScreenX := t.termScreenX - 1
      termIndex := u16 (t.termIndex - 1)
      termBufIndex := u16 (t.termBufIndex - 1) }
  else if t.termBufIndex = bufferSize - 1 then
    let t := Terminal.putc { t with
      termScreenX := t.termScreenX - 1
      termIndex := u16 (t.termIndex - 1)
      termBufIndex := u16 (t.termBufIndex - 1) } 0 true
    { t with termScreenX := t.termScreenX - 1 }
  else t

section Counters

variable (s : Console)

@[simp] theorem displayed_updateTerminal : s.updateTerminal.displayed = s.displayed := rfl

@[simp] theorem displayed_scrollUpCurr : s.scrollUpCurr.displayed =
    { s.displayed with termIndex := 1920, termScreenX := 0, termScreenY := 24 } := by
  simp [Console.scrollUpCurr]

@[simp] theorem displayed_putcDisplayed (c : UInt8) (d : Bool) :
    (s.putcDisplayed c d).displayed = s.displayed.advance c d := by
  simp [Console.putcDisplayed]

@[simp] theorem displayed_terminalClear : s.terminalClear.displayed =
    { s.displayed with termIndex := 0, termScreenX := 0, termScreenY := 0 } := by
  simp only [Console.terminalClear, Console.displayed_setDisplayed]
  rfl

@[simp] theorem displayed_markEnter (self : ℤ) : (s.markEnter self).displayed = s.displayed := rfl

theorem displayed_terminalNewline_of_lt (self : ℤ) (h : s.displayed.termIndex < 1920) :
    (s.terminalNewline self).displayed =
      { s.displayed.endLine with
        termScreenX := 0
        termScreenY := s.displayed.termScreenY + 1
        termIndex := u16 ((s.displayed.termScreenY + 1) * numCols + 0) } := by
  have hroom : ¬ (s.displayed.endLine.termIndex ≥ 1920) := not_le.mpr h
  simp only [Console.terminalNewline, Console.displayed_setDisplayed, displayed_markEnter,
    if_neg hroom, displayed_updateTerminal]
  rfl

theorem displayed_terminalNewline_of_ge (self : ℤ) (h : 1920 ≤ s.displayed.termIndex) :
    (s.terminalNewline self).displayed =
      { s.displayed.endLine with termIndex := 1920, termScreenX := 0, termScreenY := 24 } := by
  have hlast : s.displayed.endLine.termIndex ≥ 1920 := h
  simp only [Console.terminalNewline, Console.displayed_setDisplayed, displayed_markEnter,
    if_pos hlast, displayed_scrollUpCurr]

@[simp] theorem displayed_terminalPutc (c : UInt8) (d : Bool) :
    (s.terminalPutc c d).displayed = s.displayed.putc c d := by
  simp only [Console.terminalPutc, Terminal.putc]
  split_ifs <;> simp_all

theorem displayed_cursorBackspace : s.cursorBackspace.displayed = s.displayed.backspace := by
  simp only [Console.cursorBackspace, Terminal.backspace]
  split_ifs <;> simp

end Counters

/-- The column behind the last one is the first. -/
theorem nextColumn {x : ℤ} (hx : -1 ≤ x) : (x + 1).tmod numCols = (x + 1) % 80 :=
  Int.tmod_eq_emod_of_nonneg (by omega)

/-- What is added to the row on account of the next column is zero. -/
theorem sameRow (x : ℤ) {y : ℤ} (hy : 0 ≤ y) (hy' : y < 25) :
    (y + ((x + 1) % 80).tdiv numCols).tmod numRows = y := by
  have hquot : ((x + 1) % 80).tdiv numCols = 0 :=
    Int.tdiv_eq_zero_of_lt (by omega) (by unfold numCols; omega)
  rw [hquot, add_zero]
  exact Int.tmod_eq_of_lt hy (by unfold numRows; omega)

/-- A printable character moves the cursor to the next cell. -/
theorem Terminal.Consistent.advance {t : Terminal} (h : t.Consistent) {c : UInt8}
    (hnewline : c ≠ newlineChar) (hreturn : c ≠ returnChar) (hroom : t.termBufIndex < 127) :
    (t.advance c false).termIndex = t.termIndex + 1 ∧
      (t.advance c false).termBufIndex = t.termBufIndex + 1 ∧
      (t.advance c false).termIndex =
        80 * (t.advance c false).termScreenY + (t.advance c false).termScreenX ∧
      0 ≤ (t.advance c false).termScreenX ∧ (t.advance c false).termScreenX < 80 ∧
      0 ≤ (t.advance c false).termScreenY := by
  obtain ⟨hx, hx', hy, hy', hindex, hbuf, hbuf'⟩ := h
  have hnextIndex : u16 (t.termIndex + 1) = t.termIndex + 1 :=
    u16_of_range (by omega) (by omega)
  have hnextBuf : u16 (t.termBufIndex + 1) = t.termBufIndex + 1 :=
    u16_of_range (by omega) (by omega)
  have hchar : ¬ (c = newlineChar ∨ c = returnChar) := not_or.mpr ⟨hnewline, hreturn⟩
  simp only [Terminal.advance, Bool.false_eq_true, if_false, hchar, hnextIndex, hnextBuf]
  split_ifs with hrow
  · -- the last column: the next row begins
    dsimp only
    omega
  · have hcolumn : -1 ≤ t.termScreenX := by omega
    simp only [nextColumn hcolumn, sameRow t.termScreenX hy (by omega), true_and]
    omega

/-- The call of `terminal_putc` with the delete flag, from coordinates that `cursor_backspace` has
already moved: it leaves the counters, and puts the cursor one column to the right or, where the
index is that of the start of a row, to the start of the next one. -/
theorem advance_delete (t : Terminal) (hx : -1 ≤ t.termScreenX)
    (hy : 0 ≤ t.termScreenY) (hy' : t.termScreenY < 25) :
    (t.advance 0 true).termIndex = t.termIndex ∧
      (t.advance 0 true).termBufIndex = t.termBufIndex ∧
      (t.termIndex % 80 = 0 → (t.advance 0 true).termScreenX = 0 ∧
        (t.advance 0 true).termScreenY = t.termScreenY + 1) ∧
      (t.termIndex % 80 ≠ 0 → (t.advance 0 true).termScreenX = (t.termScreenX + 1) % 80 ∧
        (t.advance 0 true).termScreenY = t.termScreenY) := by
  have hchar : ¬ ((0 : UInt8) = newlineChar ∨ (0 : UInt8) = returnChar) := by decide
  simp only [Terminal.advance, if_true, hchar, if_false]
  split_ifs with hrow
  · exact ⟨rfl, rfl, fun _ ↦ ⟨rfl, rfl⟩, fun hrow' ↦ absurd hrow hrow'⟩
  · refine ⟨rfl, rfl, fun hrow' ↦ absurd hrow' hrow, fun _ ↦ ⟨nextColumn hx, ?_⟩⟩
    simp only [nextColumn hx, sameRow t.termScreenX hy hy']

/-- A terminal with room moves on by one cell, and scrolls where that leaves the screen. -/
theorem putc_of_room (t : Terminal) (c : UInt8) (d : Bool) (hroom : t.termBufIndex < 127)
    (hindex : t.termIndex < 2000) : t.putc c d =
      if 2000 ≤ (t.advance c d).termIndex then
        { t.advance c d with termIndex := 1920, termScreenX := 0, termScreenY := 24 }
      else t.advance c d := by
  have hfits : t.termBufIndex < bufferSize - 1 ∧ t.termIndex < 2000 := by
    unfold bufferSize
    omega
  simp only [Terminal.putc, if_pos hfits, ge_iff_le]

/-- A terminal without room for a character stays as it is. -/
theorem putc_of_full (t : Terminal) (c : UInt8) (d : Bool) (hfull : 127 ≤ t.termBufIndex)
    (hindex : t.termIndex < 2000) : t.putc c d = t := by
  have hroom : ¬ (t.termBufIndex < bufferSize - 1 ∧ t.termIndex < 2000) := by
    unfold bufferSize
    omega
  simp only [Terminal.putc, if_neg hroom]
  rw [if_neg (by omega)]

/-- The nested call of `terminal_putc` in `cursor_backspace`, with room in the buffer. -/
theorem putc_delete (t : Terminal) (hroom : t.termBufIndex < 127) (hindex : t.termIndex < 2000) :
    t.putc 0 true = t.advance 0 true := by
  have hsame : (t.advance 0 true).termIndex = t.termIndex := by
    simp only [Terminal.advance]
    split_ifs <;> rfl
  rw [putc_of_room t 0 true hroom hindex, if_neg (by omega)]

section Backspace

variable {t : Terminal}

/-- Backspace at the start of a row: back to the last column of the row above, with one pending
character less. -/
theorem consistent_backspace_start (h : t.Consistent) (hx : t.termScreenX = 0)
    (hy : 0 < t.termScreenY) : t.backspace.Consistent ↔ 0 < t.termBufIndex := by
  obtain ⟨-, -, -, hy', hindex, hbuf, hbuf'⟩ := h
  have hprev : u16 (t.termIndex - 1) = t.termIndex - 1 := u16_of_range (by omega) (by omega)
  let back : Terminal := { t with
    termIndex := u16 (t.termIndex - 1)
    termScreenY := t.termScreenY - 1
    termScreenX := numCols - 1 }
  have hputc : (back.putc 0 true).termIndex = t.termIndex - 1 ∧
      (back.putc 0 true).termBufIndex = t.termBufIndex ∧
      (back.putc 0 true).termScreenY = t.termScreenY - 1 := by
    rcases lt_or_ge t.termBufIndex 127 with hroom | hfull
    · obtain ⟨hindex', hbuf'', -, hcol⟩ := advance_delete back (by simp [back, numCols])
        (by simp only [back]; omega) (by simp only [back]; omega)
      rw [putc_delete back hroom (by simp only [back]; omega)]
      simp only [back, hprev] at hindex' hbuf'' hcol ⊢
      exact ⟨hindex', hbuf'', (hcol (by omega)).2⟩
    · rw [putc_of_full back 0 true hfull (by simp only [back]; omega)]
      exact ⟨hprev, rfl, rfl⟩
  obtain ⟨hindex', hbuf'', hrow⟩ := hputc
  have hback : t.backspace = { back.putc 0 true with
      termScreenX := numCols - 1
      termBufIndex := u16 ((back.putc 0 true).termBufIndex - 1) } := by
    rw [Terminal.backspace, if_pos (by omega)]
  rw [hback]
  constructor
  · intro hafter
    have hwrap := hafter.buf_le
    simp only [hbuf'', u16] at hwrap
    omega
  · intro hpos
    have hless : u16 (t.termBufIndex - 1) = t.termBufIndex - 1 :=
      u16_of_range (by omega) (by omega)
    refine ⟨?_, ?_, ?_, ?_, ?_, ?_, ?_⟩ <;>
      simp only [hindex', hbuf'', hrow, hless, numCols] <;> omega

/-- Backspace inside a row, with pending characters and room for more: one column back. -/
theorem consistent_backspace_inside (h : t.Consistent) (hx : 0 < t.termScreenX)
    (hbuf : 0 < t.termBufIndex) (hroom : t.termBufIndex < 127) : t.backspace.Consistent := by
  obtain ⟨-, hx', hy, hy', hindex, -, -⟩ := h
  let back : Terminal := { t with termScreenX := t.termScreenX - 1 }
  obtain ⟨hindex', hbuf', -, hcol⟩ := advance_delete back (by simp only [back]; omega)
    hy hy'
  simp only [back] at hindex' hbuf' hcol
  obtain ⟨hcol, hrow⟩ := hcol (by omega)
  have hback : t.backspace = { back.advance 0 true with
      termScreenX := (back.advance 0 true).termScreenX - 1
      termIndex := u16 ((back.advance 0 true).termIndex - 1)
      termBufIndex := u16 ((back.advance 0 true).termBufIndex - 1) } := by
    rw [Terminal.backspace, if_neg (by omega), if_pos (by unfold bufferSize; omega),
      ← putc_delete back hroom (by simp only [back]; omega)]
  rw [hback]
  have hprev : u16 (t.termIndex - 1) = t.termIndex - 1 := u16_of_range (by omega) (by omega)
  have hless : u16 (t.termBufIndex - 1) = t.termBufIndex - 1 := u16_of_range (by omega) (by omega)
  refine ⟨?_, ?_, ?_, ?_, ?_, ?_, ?_⟩ <;>
    simp only [back, hindex', hbuf', hcol, hrow, hprev, hless] <;> omega

/-- Backspace with a full buffer, away from the start of a row: the index has moved before the
nested call, so that the cursor leaves the screen from column 1 and from the first cell. -/
theorem consistent_backspace_full (h : t.Consistent)
    (hx : 0 < t.termScreenX ∨ t.termScreenY = 0) (hfull : t.termBufIndex = 127) :
    t.backspace.Consistent ↔ 1 < t.termScreenX := by
  obtain ⟨hx0, hx', hy, hy', hindex, -, -⟩ := h
  let back : Terminal := { t with
    termScreenX := t.termScreenX - 1
    termIndex := u16 (t.termIndex - 1)
    termBufIndex := u16 (t.termBufIndex - 1) }
  have hback : t.backspace = { back.putc 0 true with
      termScreenX := (back.putc 0 true).termScreenX - 1 } := by
    rw [Terminal.backspace, if_neg (by omega), if_neg (by unfold bufferSize; omega),
      if_pos (by unfold bufferSize; omega)]
  have hless : u16 (t.termBufIndex - 1) = 126 := by
    rw [hfull]
    rfl
  rw [hback]
  rcases hx0.lt_or_eq with hpos | hzero
  · have hprev : u16 (t.termIndex - 1) = t.termIndex - 1 := u16_of_range (by omega) (by omega)
    obtain ⟨hindex', hbuf', hstart, hcol⟩ := advance_delete back (by simp only [back]; omega)
      hy hy'
    rw [putc_delete back (by simp only [back]; omega) (by simp only [back]; omega)]
    simp only [back, hprev, hless] at hindex' hbuf' hstart hcol ⊢
    rcases eq_or_ne ((t.termIndex - 1) % 80) 0 with hrow | hrow
    · -- column 1: the nested call moves on to the next row
      obtain ⟨hnext, -⟩ := hstart hrow
      refine iff_of_false (fun hafter ↦ ?_) (by omega)
      have hneg := hafter.x_nonneg
      simp only [hnext] at hneg
      omega
    · obtain ⟨hnext, hsame⟩ := hcol hrow
      refine iff_of_true ⟨?_, ?_, ?_, ?_, ?_, ?_, ?_⟩ (by omega) <;>
        simp only [hindex', hbuf', hnext, hsame] <;> omega
  · -- the first cell: the index wraps and the nested call scrolls
    have hwrap : back.termIndex = 65535 := by
      simp only [back]
      rw [show t.termIndex - 1 = -1 by omega]
      rfl
    have hscroll : (back.putc 0 true).termScreenX = 0 := by
      have hfar : ¬ (back.termBufIndex < bufferSize - 1 ∧ back.termIndex < 2000) := by omega
      simp only [Terminal.putc, if_neg hfar]
      rw [if_pos (by omega)]
    refine iff_of_false (fun hafter ↦ ?_) (by omega)
    have hneg := hafter.x_nonneg
    simp only [hscroll] at hneg
    omega

/-- Backspace at the first cell, with room in the buffer, does nothing. -/
theorem backspace_first (h : t.Consistent) (hx : t.termScreenX = 0) (hy : t.termScreenY = 0)
    (hroom : t.termBufIndex < 127) : t.backspace = t := by
  have hindex := h.index_eq
  rw [Terminal.backspace, if_neg (by omega), if_neg (by omega),
    if_neg (by unfold bufferSize; omega)]

/-- Backspace keeps the counters together exactly in the states that fit it. -/
theorem consistent_backspace_iff (h : t.Consistent) :
    t.backspace.Consistent ↔ t.BackspaceFits := by
  have hx := h.x_nonneg
  have hy := h.y_nonneg
  have hbuf := h.buf_nonneg
  have hbuf' := h.buf_le
  rcases hx.eq_or_lt with hx0 | hpos
  · rcases hy.eq_or_lt with hy0 | hrow
    · rcases lt_or_ge t.termBufIndex 127 with hroom | hfull
      · rw [backspace_first h hx0.symm hy0.symm hroom]
        exact iff_of_true h ⟨fun _ _ ↦ by omega, fun _ ↦ by omega⟩
      · rw [consistent_backspace_full h (Or.inr hy0.symm) (by omega)]
        refine iff_of_false (by omega) fun hfits ↦ ?_
        have hcell := (hfits.notFull (by omega)).2 hx0.symm
        omega
    · rw [consistent_backspace_start h hx0.symm hrow]
      exact ⟨fun hpos ↦ ⟨fun _ _ ↦ hpos, fun _ ↦ by omega⟩,
        fun hfits ↦ hfits.notEmpty hx0.symm hrow⟩
  · rcases lt_or_ge t.termBufIndex 127 with hroom | hfull
    · refine iff_of_true ?_ ⟨fun _ ↦ by omega, fun _ ↦ by omega⟩
      rcases hbuf.eq_or_lt with hempty | hpending
      · -- nothing is pending: no branch is taken
        have hindex := h.index_eq
        rw [Terminal.backspace, if_neg (by have := h.x_lt; omega), if_neg (by omega),
          if_neg (by unfold bufferSize; omega)]
        exact h
      · exact consistent_backspace_inside h hpos hpending hroom
    · rw [consistent_backspace_full h (Or.inl hpos) (by omega)]
      refine ⟨fun hcol ↦ ⟨fun _ ↦ by omega, fun _ ↦ by omega⟩, fun hfits ↦ ?_⟩
      have hcol := (hfits.notFull (by omega)).1
      omega

end Backspace

section Keys

variable {s : Console}

theorem consistent_terminalPutc (h : s.displayed.Consistent) {c : UInt8}
    (hnewline : c ≠ newlineChar) (hreturn : c ≠ returnChar) :
    (s.terminalPutc c false).displayed.Consistent := by
  have hindex := h.termIndex_lt
  rcases lt_or_ge s.displayed.termBufIndex 127 with hroom | hfull
  · obtain ⟨hindex', hbuf, hcell, hcol, hcol', hrow⟩ := h.advance hnewline hreturn hroom
    have hpending := h.buf_nonneg
    rw [displayed_terminalPutc, putc_of_room _ c false hroom hindex]
    split_ifs with hscroll
    · exact consistent_scrolled _ (by omega) (by omega)
    · exact ⟨hcol, hcol', hrow, by omega, hcell, by omega, by omega⟩
  · rw [displayed_terminalPutc, putc_of_full _ c false hfull hindex]
    exact h

theorem consistent_terminalNewline (h : s.displayed.Consistent) (self : ℤ) :
    (s.terminalNewline self).displayed.Consistent := by
  obtain ⟨hx, hx', hy, hy', hindex, hbuf, hbuf'⟩ := h
  rcases lt_or_ge s.displayed.termIndex 1920 with hroom | hlast
  · rw [displayed_terminalNewline_of_lt s self hroom]
    have hnext : u16 ((s.displayed.termScreenY + 1) * numCols + 0) =
        80 * (s.displayed.termScreenY + 1) := by
      unfold u16 numCols
      omega
    refine ⟨le_rfl, by norm_num, ?_, ?_, by simpa using hnext, hbuf, hbuf'⟩
    · dsimp only
      omega
    · dsimp only
      omega
  · rw [displayed_terminalNewline_of_ge s self hlast]
    exact consistent_scrolled _ hbuf hbuf'

theorem consistent_terminalClear (h : s.displayed.Consistent) :
    s.terminalClear.displayed.Consistent := by
  rw [displayed_terminalClear]
  exact ⟨le_rfl, by norm_num, le_rfl, by norm_num, by norm_num, h.buf_nonneg, h.buf_le⟩

/-- One key keeps the counters together exactly if it meets its condition. -/
theorem consistent_handleKey_iff (h : s.displayed.Consistent) (key : KeyEvent) :
    (handleKey s key).displayed.Consistent ↔ KeyFits s key := by
  cases key with
  | printable c hnewline hreturn =>
    exact iff_of_true (consistent_terminalPutc h hnewline hreturn) trivial
  | backspace =>
    change s.cursorBackspace.displayed.Consistent ↔ s.displayed.BackspaceFits
    rw [displayed_cursorBackspace]
    exact consistent_backspace_iff h
  | enter self => exact iff_of_true (consistent_terminalNewline h self) trivial
  | controlL => exact iff_of_true (consistent_terminalClear h) trivial

/-- The counters of the displayed terminal stay together in all states of a run exactly if every
Backspace of the run is pressed in a state that fits it. -/
theorem lineEditing_exact (hs : s.displayed.Cleared) (keys : List KeyEvent) :
    EveryState handleKey (fun s ↦ s.displayed.Consistent) s keys ↔
      EveryStep handleKey KeyFits s keys :=
  everyState_iff_everyStep (fun _ key h ↦ consistent_handleKey_iff h key) hs.consistent

end Keys

theorem clearedConsole_cleared : clearedConsole.displayed.Cleared :=
  ⟨rfl, rfl, rfl, le_rfl, by decide⟩

/-- The exact condition, for Enter and Backspace on a cleared terminal. -/
theorem lineEditing_exact_enter_backspace :
    EveryState handleKey (fun s ↦ s.displayed.Consistent) clearedConsole
        [.enter 0, .backspace] ↔
      EveryStep handleKey KeyFits clearedConsole [.enter 0, .backspace] :=
  lineEditing_exact clearedConsole_cleared [.enter 0, .backspace]

/-- Enter leaves no pending character and the cursor at the start of a row; the Backspace that
follows makes `term_buf_index` 65535. -/
theorem lineEditing_not_always : ¬ ∀ (s : Console) (keys : List KeyEvent),
    s.displayed.Cleared →
      EveryState handleKey (fun s ↦ s.displayed.Consistent) s keys := by
  intro hall
  have hlast := (hall clearedConsole [.enter 0, .backspace] clearedConsole_cleared).last.buf_le
  have hindex : (run handleKey clearedConsole
      [.enter 0, .backspace]).displayed.termBufIndex = 65535 := by
    rfl
  omega

end Sp18.Kernel
