import Sp18.Kernel.Terminal

/-!
# Terminal output

`terminal_puts` works on the bytes of the video page and on the cursor of one terminal. A `Display`
holds just these, and `Display.put` says what one character does to it; everything else that the
loop stores follows from the display (`putsChar_eq`).
-/

set_option autoImplicit false
set_option relaxedAutoImplicit false

namespace Sp18.Kernel

open Foundation

/-! ### Cells

A store to a cell leaves the other cells, and whatever else the memory holds, alone. -/

namespace Console

theorem putCell_outside (bytes : ℤ → UInt8) {cell a : ℤ} (c : UInt8)
    (h : a < 2 * cell ∨ 2 * cell + 2 ≤ a) : putCell bytes cell c a = bytes a := by
  rw [putCell, Function.update_of_ne (by omega), Function.update_of_ne (by omega)]

theorem putCell_char (bytes : ℤ → UInt8) (cell i : ℤ) (c : UInt8) :
    putCell bytes cell c (2 * i) = if i = cell then c else bytes (2 * i) := by
  rw [putCell, Function.update_of_ne (by omega)]
  split_ifs with hsame
  · rw [hsame, Function.update_self]
  · rw [Function.update_of_ne (by omega)]

theorem blankCells_outside (bytes : ℤ → UInt8) {cell a : ℤ} {count : ℕ}
    (h : a < 2 * cell ∨ 2 * (cell + count) ≤ a) : blankCells bytes cell count a = bytes a := by
  induction count with
  | zero => rfl
  | succ count ih =>
    push_cast at h
    rw [blankCells, putCell_outside _ _ (by omega), ih (by omega)]

theorem blankCells_char (bytes : ℤ → UInt8) (cell i : ℤ) (count : ℕ) :
    blankCells bytes cell count (2 * i) =
      if cell ≤ i ∧ i < cell + count then spaceChar else bytes (2 * i) := by
  induction count with
  | zero => rw [blankCells, if_neg (by omega)]
  | succ count ih =>
    rw [blankCells, putCell_char, ih]
    push_cast
    split_ifs <;> first | rfl | omega

theorem moveRows_outside (bytes : ℤ → UInt8) {a : ℤ} {count : ℕ} (h : a < 0 ∨ 2 * count ≤ a) :
    moveRows bytes count a = bytes a := by
  induction count with
  | zero => rfl
  | succ count ih =>
    push_cast at h
    rw [moveRows, putCell_outside _ _ (by omega), ih (by omega)]

/-- The loop reads a row below the ones that it has stored. -/
theorem moveRows_char (bytes : ℤ → UInt8) (i : ℤ) (count : ℕ) : moveRows bytes count (2 * i) =
    if 0 ≤ i ∧ i < count then bytes (2 * (i + numCols)) else bytes (2 * i) := by
  induction count generalizing i with
  | zero => rw [moveRows, if_neg (by omega)]
  | succ count ih =>
    have hread : moveRows bytes count (2 * (count + numCols)) = bytes (2 * (count + numCols)) :=
      moveRows_outside bytes (by unfold numCols; omega)
    rw [moveRows, putCell_char, hread, ih]
    push_cast
    split_ifs with hlast hin hin <;> first | rfl | omega | rw [hlast]

/-- What the two loops of `scroll_up` leave in a cell. -/
theorem scrolled_char (bytes : ℤ → UInt8) {r c : ℤ} (hr0 : 0 ≤ r) (hr : r < numRows) (hc0 : 0 ≤ c)
    (hc : c < numCols) :
    blankCells (moveRows bytes 1920) 1920 80 (2 * (numCols * r + c)) =
      if r = numRows - 1 then spaceChar else bytes (2 * (numCols * (r + 1) + c)) := by
  have hnext : numCols * r + c + numCols = numCols * (r + 1) + c := by ring
  rw [blankCells_char, moveRows_char, hnext]
  unfold numCols numRows at *
  split_ifs <;> first | rfl | omega

end Console

/-- What `terminal_puts` looks at: the bytes of a video page and the cursor of a terminal. -/
structure Display where
  bytes : ℤ → UInt8
  x : ℤ
  y : ℤ

namespace Display

open Console

/-- To the start of the next row. Below the last row the screen scrolls. -/
def newline (d : Display) : Display :=
  if u16 ((d.y + 1) * numCols + 0) ≥ 2000 then
    { bytes := blankCells (moveRows d.bytes 1920) 1920 80, x := 0, y := 24 }
  else { d with x := 0, y := d.y + 1 }

/-- The character is stored at the cursor. -/
def store (d : Display) (c : UInt8) : Display :=
  { d with bytes := putCell d.bytes (numCols * d.y + d.x) c }

/-- One round of the loop of `terminal_puts`. -/
def put (d : Display) (c : UInt8) : Display :=
  if c = 0 then d
  else if c = newlineChar ∨ c = returnChar ∨ d.x = 80 then
    if d.x ≠ 80 then d.newline
    else if c ≠ newlineChar then
      let d := d.newline.store c
      { d with x := d.x + 1, y := (d.y + (d.x + 1).tdiv numCols).tmod numRows }
    else d.newline
  else
    let d := d.store c
    { d with
      x := d.x + 1
      y := if d.y = numRows - 1 then d.y else (d.y + (d.x + 1).tdiv numCols).tmod numRows }

variable {d : Display} {c : UInt8}

theorem put_lineEnd (hend : c = newlineChar ∨ c = returnChar) (hx : d.x ≠ 80) :
    d.put c = d.newline := by
  have hc : c ≠ 0 := by
    rcases hend with rfl | rfl <;> decide
  rw [put, if_neg hc, if_pos (by tauto), if_pos hx]

theorem put_newline_pending (hx : d.x = 80) : d.put newlineChar = d.newline := by
  rw [put, if_neg (by decide), if_pos (by tauto), if_neg (by simpa using hx), if_neg (by simp)]

theorem put_pending (hx : d.x = 80) (hc : c ≠ 0) (hchar : c ≠ newlineChar) :
    d.put c = { d.newline.store c with
      x := d.newline.x + 1
      y := (d.newline.y + (d.newline.x + 1).tdiv numCols).tmod numRows } := by
  rw [put, if_neg hc, if_pos (by tauto), if_neg (by simpa using hx), if_pos hchar]
  rfl

theorem put_inside (hx : d.x ≠ 80) (hc : c ≠ 0) (hend : ¬ (c = newlineChar ∨ c = returnChar)) :
    d.put c = { d.store c with
      x := d.x + 1
      y := if d.y = numRows - 1 then d.y else (d.y + (d.x + 1).tdiv numCols).tmod numRows } := by
  rw [put, if_neg hc, if_neg (by tauto)]
  rfl

/-! ### The display stays within the page -/

/-- The cursor is on the screen, or behind the last column of a row. -/
structure OnScreen (d : Display) : Prop where
  x_nonneg : 0 ≤ d.x
  x_le : d.x ≤ 80
  y_nonneg : 0 ≤ d.y
  y_le : d.y ≤ 24

/-- The row that follows from the column: the next one when the row is full. -/
theorem row_eq {x y : ℤ} (hx0 : 0 ≤ x) (hx : x ≤ 80) (hy0 : 0 ≤ y) (hy : y ≤ 24)
    (hlast : x = 80 → y ≠ 24) :
    (y + x.tdiv numCols).tmod numRows = if x = 80 then y + 1 else y := by
  rw [Int.tdiv_eq_ediv_of_nonneg hx0, Int.tmod_eq_emod_of_nonneg] <;> unfold numCols
  · unfold numRows
    split_ifs with hfull
    · have := hlast hfull
      omega
    · omega
  · omega

/-- Below row 24 the screen scrolls. -/
theorem newline_eq (h : d.OnScreen) : d.newline = if d.y = 24 then
    { bytes := blankCells (moveRows d.bytes 1920) 1920 80, x := 0, y := 24 }
    else { d with x := 0, y := d.y + 1 } := by
  obtain ⟨-, -, hlow, hhigh⟩ := h
  have hindex : u16 ((d.y + 1) * numCols + 0) = (d.y + 1) * 80 := by
    rw [u16_of_range] <;> unfold numCols <;> omega
  rw [newline, hindex]
  split_ifs <;> first | rfl | omega

theorem newline_x (d : Display) : d.newline.x = 0 := by
  rw [newline]
  split_ifs <;> rfl

theorem OnScreen.newline (h : d.OnScreen) : d.newline.OnScreen := by
  rw [newline_eq h]
  obtain ⟨-, -, hlow, hhigh⟩ := h
  split_ifs with hlast
  · constructor <;> norm_num
  · constructor <;> simp only <;> omega

/-- Behind a full row a character goes to the start of the next row. -/
theorem OnScreen.put_pending (h : d.OnScreen) (hx : d.x = 80) (hc : c ≠ 0)
    (hchar : c ≠ newlineChar) : d.put c = { d.newline.store c with x := 1 } := by
  obtain ⟨-, -, hlow, hhigh⟩ := h.newline
  rw [Display.put_pending hx hc hchar, newline_x,
    row_eq (by omega) (by omega) hlow hhigh (by omega), if_neg (by omega)]
  rfl

/-- A character that fills a row other than the last also moves the cursor down. -/
theorem OnScreen.put_inside (h : d.OnScreen) (hx : d.x ≠ 80) (hc : c ≠ 0)
    (hend : ¬ (c = newlineChar ∨ c = returnChar)) : d.put c = { d.store c with
      x := d.x + 1, y := if d.x = 79 ∧ d.y ≠ 24 then d.y + 1 else d.y } := by
  obtain ⟨hx0, hx80, hlow, hhigh⟩ := h
  have hnum : numRows - 1 = 24 := rfl
  have hrow : (if d.y = numRows - 1 then d.y else (d.y + (d.x + 1).tdiv numCols).tmod numRows) =
      if d.x = 79 ∧ d.y ≠ 24 then d.y + 1 else d.y := by
    rw [hnum]
    by_cases hlast : d.y = 24
    · rw [if_pos hlast, if_neg (by tauto)]
    · rw [if_neg hlast, row_eq (by omega) (by omega) hlow hhigh (by omega)]
      split_ifs <;> omega
  rw [Display.put_inside hx hc hend, hrow]

theorem OnScreen.put (h : d.OnScreen) (c : UInt8) : (d.put c).OnScreen := by
  have hnext := h.newline
  by_cases hc : c = 0
  · rwa [Display.put, if_pos hc]
  by_cases hx : d.x = 80
  · by_cases hchar : c = newlineChar
    · rwa [hchar, put_newline_pending hx]
    · rw [h.put_pending hx hc hchar]
      exact ⟨by norm_num, by norm_num, hnext.y_nonneg, hnext.y_le⟩
  · by_cases hend : c = newlineChar ∨ c = returnChar
    · rwa [put_lineEnd hend hx]
    · rw [h.put_inside hx hc hend]
      obtain ⟨hx0, hx80, hlow, hhigh⟩ := h
      constructor <;> simp only <;> omega

/-- The part of the page that is displayed holds every store. -/
theorem newline_outside (h : d.OnScreen) {a : ℤ} (ha : a < 0 ∨ 4000 ≤ a) :
    d.newline.bytes a = d.bytes a := by
  rw [newline_eq h]
  split_ifs
  · exact (blankCells_outside _ (by omega)).trans (moveRows_outside _ (by omega))
  · rfl

theorem put_outside (h : d.OnScreen) (c : UInt8) {a : ℤ} (ha : a < 0 ∨ 4000 ≤ a) :
    (d.put c).bytes a = d.bytes a := by
  have hnewline := newline_outside h ha
  by_cases hc : c = 0
  · rw [put, if_pos hc]
  by_cases hx : d.x = 80
  · by_cases hchar : c = newlineChar
    · rw [hchar, put_newline_pending hx, hnewline]
    · rw [h.put_pending hx hc hchar, ← hnewline]
      obtain ⟨-, -, hlow, hhigh⟩ := h.newline
      exact putCell_outside _ c (by rw [newline_x]; unfold numCols; omega)
  · by_cases hend : c = newlineChar ∨ c = returnChar
    · rw [put_lineEnd hend hx, hnewline]
    · rw [h.put_inside hx hc hend]
      obtain ⟨hx0, hx80, hlow, hhigh⟩ := h
      exact putCell_outside _ c (by unfold numCols; omega)

end Display

namespace Console

variable (s : Console) (self : ℤ) (t : Fin 3)

/-- The display of a terminal whose page is the one at `video_mem`. -/
def display : Display := ⟨s.videoMem, (s.terminals t).termScreenX, (s.terminals t).termScreenY⟩

/-- The state after a round that has changed the display of a terminal to `d`. -/
def setDisplay (d : Display) : Console :=
  let s := (s.setVideoMem d.bytes).setTerminal t { s.terminals t with
    termScreenX := d.x, termScreenY := d.y, termIndex := u16 (d.y * numCols + d.x) }
  if t = s.currTerminal then s.updateTerminal else s

variable {s self t}

/-! ### The parts of the state that a display determines -/

@[simp] theorem setDisplay_curTask (d : Display) : (s.setDisplay t d).curTask = s.curTask := by
  simp only [setDisplay]
  split_ifs <;> rfl

@[simp] theorem setDisplay_currTerminal (d : Display) :
    (s.setDisplay t d).currTerminal = s.currTerminal := by
  simp only [setDisplay]
  split_ifs <;> rfl

@[simp] theorem setDisplay_firstPageTable184 (d : Display) :
    (s.setDisplay t d).firstPageTable184 = s.firstPageTable184 := by
  simp only [setDisplay]
  split_ifs <;> rfl

theorem setDisplay_terminals (d : Display) : (s.setDisplay t d).terminals =
    Function.update s.terminals t { s.terminals t with
      termScreenX := d.x, termScreenY := d.y, termIndex := u16 (d.y * numCols + d.x) } := by
  simp only [setDisplay]
  split_ifs <;> rfl

theorem setDisplay_videoPages (d : Display) : (s.setDisplay t d).videoPages =
    Function.update s.videoPages s.videoPage d.bytes := by
  simp only [setDisplay]
  split_ifs <;> rfl

@[simp] theorem display_setDisplay (d : Display) : (s.setDisplay t d).display t = d := by
  simp [display, videoMem, videoPage, setDisplay_terminals, setDisplay_videoPages]

@[simp] theorem setDisplay_keyboardBuf (d : Display) (t' : Fin 3) :
    ((s.setDisplay t d).terminals t').keyboardBuf = (s.terminals t').keyboardBuf := by
  rw [setDisplay_terminals]
  by_cases hsame : t' = t
  · rw [hsame, Function.update_self]
  · rw [Function.update_of_ne hsame]

/-! ### One character -/

/-- The two states differ at most in what `setDisplay` overwrites. -/
def SameBehind (t : Fin 3) (s s' : Console) : Prop := ∀ d, s'.setDisplay t d = s.setDisplay t d

theorem SameBehind.trans {s' s'' : Console} (h : SameBehind t s s') (h' : SameBehind t s' s'') :
    SameBehind t s s'' :=
  fun d ↦ (h' d).trans (h d)

theorem sameBehind_setVideoMem (s : Console) (t : Fin 3) (bytes : ℤ → UInt8) :
    SameBehind t s (s.setVideoMem bytes) := by
  intro d
  simp only [setDisplay, setVideoMem, videoPage, Function.update_idem]
  rfl

theorem sameBehind_putsStore (s : Console) (t : Fin 3) (c : UInt8) :
    SameBehind t s (s.putsStore t c) :=
  sameBehind_setVideoMem s t _

theorem sameBehind_setTerminal (s : Console) (t : Fin 3) (x y index : ℤ) :
    SameBehind t s (s.setTerminal t { s.terminals t with
      termScreenX := x, termScreenY := y, termIndex := index }) := by
  intro d
  simp only [setDisplay, setTerminal, setVideoMem, Function.update_self, Function.update_idem]
  rfl

/-- The globals of the displayed terminal are stored again. -/
theorem updateTerminal_again (s : Console) (terminals : Fin 3 → Terminal)
    (videoPages : ℤ → ℤ → UInt8) :
    ({ s.updateTerminal with terminals := terminals, videoPages := videoPages } :
        Console).updateTerminal =
      ({ s with terminals := terminals, videoPages := videoPages } : Console).updateTerminal := by
  simp only [updateTerminal, displayed, memcpy_again]

theorem sameBehind_updateTerminal (hshown : t = s.currTerminal) :
    SameBehind t s s.updateTerminal := by
  intro d
  simp only [setDisplay]
  rw [if_pos (by exact hshown), if_pos (by exact hshown)]
  exact updateTerminal_again s _ _

theorem sameBehind_scrollUp (hself : s.curTask = self) : SameBehind t s (s.scrollUp self t) := by
  subst hself
  have hmoved : SameBehind t s ((s.setVideoMem
      (blankCells (moveRows s.videoMem 1920) 1920 80)).setTerminal t { s.terminals t with
        termScreenX := 0, termScreenY := 24, termIndex := 1920 }) :=
    (sameBehind_setVideoMem s t _).trans (sameBehind_setTerminal _ t 0 24 1920)
  simp only [scrollUp]
  split_ifs with hshown
  · exact hmoved.trans (sameBehind_updateTerminal hshown)
  · exact hmoved

theorem sameBehind_putsNewline (hself : s.curTask = self) :
    SameBehind t s (s.putsNewline self t) := by
  have hmoved := sameBehind_setTerminal s t 0 ((s.terminals t).termScreenY + 1)
    (u16 (((s.terminals t).termScreenY + 1) * numCols + 0))
  simp only [putsNewline]
  split_ifs
  · exact hmoved.trans (sameBehind_scrollUp hself)
  · exact hmoved

/-! ### The display after the parts of a round -/

theorem display_scrollUp (s : Console) (self : ℤ) (t : Fin 3) : (s.scrollUp self t).display t =
    { bytes := blankCells (moveRows s.videoMem 1920) 1920 80, x := 0, y := 24 } := by
  simp only [scrollUp]
  split_ifs <;> simp [display, setTerminal, setVideoMem, videoMem, videoPage, updateTerminal]

theorem display_putsNewline (s : Console) (self : ℤ) (t : Fin 3) :
    (s.putsNewline self t).display t = (s.display t).newline := by
  simp only [putsNewline, Display.newline]
  split_ifs with hbelow hrow hrow
  · rw [display_scrollUp]
    rfl
  · simp [setTerminal, display] at hbelow hrow
    omega
  · simp [setTerminal, display] at hbelow hrow
    omega
  · simp [display, setTerminal, videoMem, videoPage]

theorem display_putsStore (s : Console) (t : Fin 3) (c : UInt8) :
    (s.putsStore t c).display t = (s.display t).store c := by
  simp [putsStore, display, Display.store, setVideoMem, videoMem, videoPage]

theorem display_setTerminal (s : Console) (t : Fin 3) (x y : ℤ) :
    (s.setTerminal t { s.terminals t with termScreenX := x, termScreenY := y }).display t =
      { s.display t with x := x, y := y } := by
  simp [display, setTerminal, videoMem, videoPage]

theorem putsIndex_eq (s : Console) (t : Fin 3) :
    s.putsIndex t = s.setDisplay t (s.display t) := by
  simp only [putsIndex, setDisplay, display, setVideoMem, videoMem, Function.update_eq_self]

/-- A round with a character that is not skipped changes the display and what follows from it. -/
theorem putsChar_eq (hself : s.curTask = self) {c : UInt8} (hc : c ≠ 0) :
    s.putsChar self t c = s.setDisplay t ((s.display t).put c) := by
  -- a state behind which nothing has changed, and which has the display of the round
  have hround : ∀ s' : Console, SameBehind t s s' → s'.display t = (s.display t).put c →
      s'.putsIndex t = s.setDisplay t ((s.display t).put c) := by
    intro s' hsame hdisplay
    rw [putsIndex_eq, hsame, hdisplay]
  have hnewline := sameBehind_putsNewline (t := t) hself
  have hnext := display_putsNewline s self t
  rw [putsChar, if_neg hc]
  by_cases hcol : (s.terminals t).termScreenX = 80
  · by_cases hchar : c = newlineChar
    · rw [if_pos (by tauto), if_neg (by simpa using hcol), if_neg (by simpa using hchar)]
      refine hround _ hnewline ?_
      rw [hnext, hchar, Display.put_newline_pending hcol]
    · rw [if_pos (by tauto), if_neg (by simpa using hcol), if_pos hchar]
      have hstore := hnewline.trans (sameBehind_putsStore _ t c)
      refine hround _ (hstore.trans (sameBehind_setTerminal _ t _ _ _)) ?_
      rw [display_setTerminal, Display.put_pending hcol hc hchar, display_putsStore, ← hnext]
      rfl
  · by_cases hend : c = newlineChar ∨ c = returnChar
    · rw [if_pos (by tauto), if_pos hcol]
      refine hround _ hnewline ?_
      rw [hnext, Display.put_lineEnd hend hcol]
    · rw [if_neg (by tauto)]
      have hstore := sameBehind_putsStore s t c
      refine hround _ (hstore.trans (sameBehind_setTerminal _ t _ _ _)) ?_
      rw [display_setTerminal, Display.put_inside hcol hc hend, display_putsStore]
      rfl

end Console

end Sp18.Kernel
