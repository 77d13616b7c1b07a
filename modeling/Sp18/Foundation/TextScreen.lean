import Mathlib.Algebra.Order.Ring.Int

/-!
# A screen of text

A screen of `rows` times `cols` cells with a cursor, as a terminal shows it. The cursor may stand
behind the last column: the next cell to be stored then goes to the row below, so that a full row
does not move the cursor down by itself. Below the last row the screen scrolls.

Where the cursor goes depends on what is written but not on what the cells hold (`SameCursor`), and
while the screen has not scrolled the last row is the one of the start (`newLine_lastRow`,
`write_lastRow`).
-/

set_option autoImplicit false
set_option relaxedAutoImplicit false

namespace Sp18.Foundation

/-- The cells of a screen and its cursor. -/
structure TextScreen (Cell : Type*) where
  cell : ℤ → ℤ → Cell
  row : ℤ
  col : ℤ

namespace TextScreen

variable {Cell : Type*} (rows cols : ℤ) (blank : Cell)

/-- Every row moves up by one, and the last one is blank. -/
def scroll (t : TextScreen Cell) : TextScreen Cell :=
  { t with cell := fun r c ↦ if r = rows - 1 then blank else t.cell (r + 1) c }

/-- The cursor goes to the start of the next row. -/
def newLine (t : TextScreen Cell) : TextScreen Cell :=
  if t.row = rows - 1 then { t.scroll rows blank with col := 0 }
  else { t with row := t.row + 1, col := 0 }

/-- A cell is stored at the cursor. -/
def store (t : TextScreen Cell) (a : Cell) : TextScreen Cell :=
  { t with cell := fun r c ↦ if r = t.row ∧ c = t.col then a else t.cell r c, col := t.col + 1 }

/-- A cell is stored at the cursor, or in the next row when the row of the cursor is full. -/
def write (t : TextScreen Cell) (a : Cell) : TextScreen Cell :=
  if t.col = cols then (t.newLine rows blank).store a else t.store a

variable {rows cols blank} {t t' : TextScreen Cell} {a : Cell}

theorem newLine_last (h : t.row = rows - 1) :
    t.newLine rows blank = { t.scroll rows blank with col := 0 } :=
  if_pos h

theorem newLine_above (h : t.row ≠ rows - 1) :
    t.newLine rows blank = { t with row := t.row + 1, col := 0 } :=
  if_neg h

theorem write_pending (h : t.col = cols) :
    t.write rows cols blank a = (t.newLine rows blank).store a :=
  if_pos h

theorem write_inside (h : t.col ≠ cols) : t.write rows cols blank a = t.store a := if_neg h

@[simp] theorem store_row : (t.store a).row = t.row := rfl

@[simp] theorem store_col : (t.store a).col = t.col + 1 := rfl

theorem newLine_row :
    (t.newLine rows blank).row = if t.row = rows - 1 then t.row else t.row + 1 := by
  rw [newLine]
  split_ifs <;> rfl

@[simp] theorem newLine_col : (t.newLine rows blank).col = 0 := by
  rw [newLine]
  split_ifs <;> rfl

/-! ### The cursor -/

/-- The cursor is on the screen, or behind the last column of a row. -/
structure CursorIn (rows cols : ℤ) (t : TextScreen Cell) : Prop where
  row_nonneg : 0 ≤ t.row
  row_lt : t.row < rows
  col_nonneg : 0 ≤ t.col
  col_le : t.col ≤ cols

theorem CursorIn.newLine (h : t.CursorIn rows cols) :
    (t.newLine rows blank).CursorIn rows cols := by
  obtain ⟨hlow, hhigh, hcol, hcols⟩ := h
  constructor <;> simp only [newLine_row, newLine_col] <;> omega

theorem CursorIn.write (hcols : 0 < cols) (h : t.CursorIn rows cols) :
    (t.write rows cols blank a).CursorIn rows cols := by
  by_cases hfull : t.col = cols
  · rw [write_pending hfull]
    have hnext : (t.newLine rows blank).CursorIn rows cols := h.newLine
    refine ⟨hnext.row_nonneg, hnext.row_lt, ?_, ?_⟩ <;> rw [store_col, newLine_col] <;> omega
  · rw [write_inside hfull]
    obtain ⟨hlow, hhigh, hcol, hcol'⟩ := h
    refine ⟨hlow, hhigh, ?_, ?_⟩ <;> rw [store_col] <;> omega

/-- The two screens have the same cursor. -/
def SameCursor (t t' : TextScreen Cell) : Prop := t.row = t'.row ∧ t.col = t'.col

theorem SameCursor.newLine (h : t.SameCursor t') :
    (t.newLine rows blank).SameCursor (t'.newLine rows blank) := by
  by_cases hlast : t.row = rows - 1
  · rw [newLine_last hlast, newLine_last (h.1 ▸ hlast)]
    exact ⟨h.1, rfl⟩
  · rw [newLine_above hlast, newLine_above (h.1 ▸ hlast)]
    exact ⟨congrArg (· + 1) h.1, rfl⟩

theorem SameCursor.store (h : t.SameCursor t') : (t.store a).SameCursor (t'.store a) :=
  ⟨h.1, congrArg (· + 1) h.2⟩

theorem SameCursor.write (h : t.SameCursor t') :
    (t.write rows cols blank a).SameCursor (t'.write rows cols blank a) := by
  by_cases hfull : t.col = cols
  · rw [write_pending hfull, write_pending (h.2 ▸ hfull)]
    exact h.newLine.store
  · rw [write_inside hfull, write_inside (h.2 ▸ hfull)]
    exact h.store

/-! ### The cells -/

/-- The cell comes before the cursor. -/
def Before (t : TextScreen Cell) (r c : ℤ) : Prop := r < t.row ∨ r = t.row ∧ c < t.col

theorem store_keeps {r c : ℤ} (h : t.Before r c) : (t.store a).cell r c = t.cell r c := by
  simp only [store]
  rcases h with habove | ⟨hrow, hleft⟩
  · exact if_neg (fun hcell ↦ absurd hcell.1 habove.ne)
  · exact if_neg (fun hcell ↦ absurd hcell.2 hleft.ne)

/-- The start of the next row comes after the cells before the cursor, which are where they were or
have moved up by one row. -/
theorem newLine_keeps {r c : ℤ} (h : t.Before r c) :
    ∃ r', (r' = r ∨ r' = r - 1) ∧ (t.newLine rows blank).Before r' c ∧
      (t.newLine rows blank).cell r' c = t.cell r c := by
  have hrow : r ≤ t.row := by
    rcases h with habove | ⟨hrow, -⟩ <;> omega
  by_cases hlast : t.row = rows - 1
  · rw [newLine_last hlast]
    refine ⟨r - 1, Or.inr rfl, Or.inl (by simp only [scroll]; omega), ?_⟩
    simp only [scroll]
    rw [if_neg (by omega), sub_add_cancel]
  · rw [newLine_above hlast]
    exact ⟨r, Or.inl rfl, Or.inl (by simp only; omega), rfl⟩

theorem write_keeps {r c : ℤ} (h : t.Before r c) :
    ∃ r', (r' = r ∨ r' = r - 1) ∧ (t.write rows cols blank a).cell r' c = t.cell r c := by
  by_cases hfull : t.col = cols
  · obtain ⟨r', hr', hbefore, hcell⟩ := newLine_keeps h
    rw [write_pending hfull]
    exact ⟨r', hr', (store_keeps hbefore).trans hcell⟩
  · rw [write_inside hfull]
    exact ⟨r, Or.inl rfl, store_keeps h⟩

/-- A screen whose cursor is above the last row after a step has not scrolled in that step. -/
theorem newLine_lastRow (h : (t.newLine rows blank).row < rows - 1) :
    t.row < rows - 1 ∧ (t.newLine rows blank).cell (rows - 1) = t.cell (rows - 1) := by
  have habove : t.row < rows - 1 := by
    rw [newLine_row] at h
    split_ifs at h <;> omega
  rw [newLine_above habove.ne]
  exact ⟨habove, rfl⟩

theorem store_lastRow (h : t.row < rows - 1) :
    (t.store a).cell (rows - 1) = t.cell (rows - 1) := by
  funext c
  rw [store]
  exact if_neg (by omega)

theorem write_lastRow (h : (t.write rows cols blank a).row < rows - 1) :
    t.row < rows - 1 ∧ (t.write rows cols blank a).cell (rows - 1) = t.cell (rows - 1) := by
  by_cases hfull : t.col = cols
  · rw [write_pending hfull] at h ⊢
    have hnext : (t.newLine rows blank).row < rows - 1 := h
    obtain ⟨habove, hcells⟩ := newLine_lastRow hnext
    exact ⟨habove, (store_lastRow hnext).trans hcells⟩
  · rw [write_inside hfull] at h ⊢
    exact ⟨h, store_lastRow h⟩

end TextScreen

end Sp18.Foundation
