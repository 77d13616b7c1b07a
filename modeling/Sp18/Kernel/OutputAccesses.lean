import Sp18.Foundation.Checked
import Sp18.Kernel.Writing

/-!
# The video accesses of the output

`terminal_puts` and `scroll_up` once more, with a check at each access of the video page: the cell
that is loaded from or stored to is one of the `NUM_COLS * NUM_ROWS` cells of the screen.

The loops of `scroll_up` stay within the screen by themselves. The store at the cursor does so
because a cursor behind the last column is moved to the next row first, and a cursor in the last row
has scrolled the screen. So the checks of a round succeed as long as the cursor is on the screen or
behind the last column of a row (`putsCharChecked_eq`), and a round keeps it there.
-/

set_option autoImplicit false
set_option relaxedAutoImplicit false

namespace Sp18.Kernel

open Foundation

/-- One of the cells of the screen. -/
def OnPage (cell : ℤ) : Prop := 0 ≤ cell ∧ cell < numCols * numRows

instance (cell : ℤ) : Decidable (OnPage cell) := inferInstanceAs (Decidable (_ ∧ _))

namespace Console

/-! ### The functions of `terminal.c` with checks -/

/-- `putCell` with a check -/
def putCellChecked (bytes : ℤ → UInt8) (cell : ℤ) (c : UInt8) : Except Stop (ℤ → UInt8) :=
  check (OnPage cell) (putCell bytes cell c)

/-- `blankCells` with checks -/
def blankCellsChecked (bytes : ℤ → UInt8) (cell : ℤ) : ℕ → Except Stop (ℤ → UInt8)
  | 0 => return bytes
  | count + 1 => do
    let bytes ← blankCellsChecked bytes cell count
    putCellChecked bytes (cell + count) spaceChar

/-- `moveRows` with checks -/
def moveRowsChecked (bytes : ℤ → UInt8) : ℕ → Except Stop (ℤ → UInt8)
  | 0 => return bytes
  | i + 1 => do
    let bytes ← moveRowsChecked bytes i
    let f ← check (OnPage (i + numCols)) (bytes (2 * (i + numCols)))
    putCellChecked bytes i f

section Writing

variable (self : ℤ) (t : Fin 3)

/-- `scroll_up` with checks -/
def scrollUpChecked (s : Console) : Except Stop Console := do
  let s := { s with curTask := self }
  let bytes ← moveRowsChecked s.videoMem 1920
  let bytes ← blankCellsChecked bytes 1920 80
  let s := s.setVideoMem bytes
  let s := s.setTerminal t { s.terminals t with
    termIndex := 1920, termScreenX := 0, termScreenY := 24 }
  return if t = s.currTerminal then s.updateTerminal else s

/-- `putsNewline` with checks -/
def putsNewlineChecked (s : Console) : Except Stop Console :=
  let y := (s.terminals t).termScreenY + 1
  let s := s.setTerminal t { s.terminals t with
    termScreenY := y, termScreenX := 0, termIndex := u16 (y * numCols + 0) }
  if (s.terminals t).termIndex ≥ 2000 then s.scrollUpChecked self t else return s

/-- `putsStore` with a check -/
def putsStoreChecked (s : Console) (c : UInt8) : Except Stop Console := do
  let bytes ← putCellChecked s.videoMem
    (numCols * (s.terminals t).termScreenY + (s.terminals t).termScreenX) c
  return s.setVideoMem bytes

/-- `putsChar` with checks -/
def putsCharChecked (s : Console) (c : UInt8) : Except Stop Console :=
  if c = 0 then return s
  else do
    let s ←
      if c = newlineChar ∨ c = returnChar ∨ (s.terminals t).termScreenX = 80 then
        if (s.terminals t).termScreenX ≠ 80 then s.putsNewlineChecked self t
        else if c ≠ newlineChar then do
          let s ← s.putsNewlineChecked self t
          let s ← s.putsStoreChecked t c
          let x := (s.terminals t).termScreenX + 1
          pure <| s.setTerminal t { s.terminals t with
            termScreenX := x
            termScreenY := ((s.terminals t).termScreenY + x.tdiv numCols).tmod numRows }
        else s.putsNewlineChecked self t
      else do
        let s ← s.putsStoreChecked t c
        let x := (s.terminals t).termScreenX + 1
        let y := (s.terminals t).termScreenY
        pure <| s.setTerminal t { s.terminals t with
          termScreenX := x
          termScreenY := if y = numRows - 1 then y else (y + x.tdiv numCols).tmod numRows }
    return s.putsIndex t

/-- `putsLoop` with checks -/
def putsLoopChecked (s : Console) (i : ℤ) : ℕ → Except Stop Console
  | 0 => return s
  | remaining + 1 => do
    let s ← s.putsCharChecked self t ((s.terminals t).keyboardBuf i)
    putsLoopChecked s (i + 1) remaining

/-- `terminal_puts` with checks -/
def terminalPutsChecked (s : Console) (nbytes : ℤ) : Except Stop Console :=
  putsLoopChecked self t { s with curTask := self } 0 nbytes.toNat

end Writing

/-! ### The checks succeed -/

section Success

variable {s : Console} {self : ℤ} {t : Fin 3}

theorem putCellChecked_of (bytes : ℤ → UInt8) {cell : ℤ} (hlow : 0 ≤ cell) (hhigh : cell < 2000)
    (c : UInt8) : putCellChecked bytes cell c = .ok (putCell bytes cell c) :=
  check_of ⟨hlow, hhigh⟩ _

theorem blankCellsChecked_eq (bytes : ℤ → UInt8) {cell : ℤ} (hlow : 0 ≤ cell) {count : ℕ}
    (hhigh : cell + count ≤ 2000) :
    blankCellsChecked bytes cell count = .ok (blankCells bytes cell count) := by
  induction count with
  | zero => rfl
  | succ count ih =>
    push_cast at hhigh
    rw [blankCellsChecked, ih (by omega), ok_bind, putCellChecked_of _ (by omega) (by omega)]
    rfl

theorem moveRowsChecked_eq (bytes : ℤ → UInt8) {count : ℕ} (hcount : count ≤ 1920) :
    moveRowsChecked bytes count = .ok (moveRows bytes count) := by
  induction count with
  | zero => rfl
  | succ i ih =>
    have hbelow : OnPage (i + numCols) := by
      unfold OnPage numCols numRows
      omega
    rw [moveRowsChecked, ih (by omega), ok_bind, check_of hbelow, ok_bind,
      putCellChecked_of _ (by omega) (by omega)]
    rfl

/-- `scroll_up` stores to the screen only. -/
theorem scrollUpChecked_eq (s : Console) (self : ℤ) (t : Fin 3) :
    s.scrollUpChecked self t = .ok (s.scrollUp self t) := by
  rw [scrollUpChecked, moveRowsChecked_eq _ le_rfl, ok_bind,
    blankCellsChecked_eq _ (by norm_num) (by norm_num), ok_bind]
  rfl

theorem putsNewlineChecked_eq (s : Console) (self : ℤ) (t : Fin 3) :
    s.putsNewlineChecked self t = .ok (s.putsNewline self t) := by
  simp only [putsNewlineChecked, putsNewline, scrollUpChecked_eq]
  split_ifs <;> rfl

/-- The store at a cursor that is not behind the last column. -/
theorem putsStoreChecked_eq (h : (s.display t).OnScreen) (hx : (s.terminals t).termScreenX ≠ 80)
    (c : UInt8) : s.putsStoreChecked t c = .ok (s.putsStore t c) := by
  obtain ⟨hx0, hx80, hy0, hy24⟩ := h
  simp only [display] at hx0 hx80 hy0 hy24
  rw [putsStoreChecked, putCellChecked_of _ (by unfold numCols; omega) (by unfold numCols; omega),
    ok_bind]
  rfl

/-- A round stores to the screen only. -/
theorem putsCharChecked_eq (h : (s.display t).OnScreen) (self : ℤ) (c : UInt8) :
    s.putsCharChecked self t c = .ok (s.putsChar self t c) := by
  rw [putsCharChecked, putsChar]
  split_ifs with hzero hline hcol hchar
  · rfl
  · rw [putsNewlineChecked_eq]
    rfl
  · -- the store comes after the cursor has moved to the start of the next row
    have hnext : ((s.putsNewline self t).display t).OnScreen := by
      rw [display_putsNewline]
      exact h.newline
    have hstart : ((s.putsNewline self t).terminals t).termScreenX ≠ 80 := by
      have hx := congrArg Display.x (display_putsNewline s self t)
      rw [Display.newline_x] at hx
      simp only [display] at hx
      omega
    rw [putsNewlineChecked_eq, ok_bind, putsStoreChecked_eq hnext hstart]
    rfl
  · rw [putsNewlineChecked_eq]
    rfl
  · rw [putsStoreChecked_eq h (by tauto)]
    rfl

/-- A round keeps the cursor on the screen or behind the last column of a row. -/
theorem onScreen_putsChar (hself : s.curTask = self) (h : (s.display t).OnScreen) (c : UInt8) :
    ((s.putsChar self t c).display t).OnScreen := by
  by_cases hc : c = 0
  · rwa [putsChar, if_pos hc]
  · rw [putsChar_eq hself hc, display_setDisplay]
    exact h.put c

theorem onScreen_putsLoop (hself : s.curTask = self) (h : (s.display t).OnScreen) (i : ℤ)
    (count : ℕ) : ((s.putsLoop self t i count).display t).OnScreen := by
  induction count generalizing s i with
  | zero => exact h
  | succ count ih => exact ih (putsChar_curTask hself _) (onScreen_putsChar hself h _) (i + 1)

theorem putsLoopChecked_eq (hself : s.curTask = self) (h : (s.display t).OnScreen) (i : ℤ)
    (count : ℕ) : s.putsLoopChecked self t i count = .ok (s.putsLoop self t i count) := by
  induction count generalizing s i with
  | zero => rfl
  | succ count ih =>
    rw [putsLoopChecked, putsCharChecked_eq h, ok_bind]
    exact ih (putsChar_curTask hself _) (onScreen_putsChar hself h _) (i + 1)

/-- The rounds of the loop come one after the other. -/
theorem putsLoop_add (s : Console) (self : ℤ) (t : Fin 3) (i : ℤ) (count rest : ℕ) :
    s.putsLoop self t i (count + rest) =
      (s.putsLoop self t i count).putsLoop self t (i + count) rest := by
  induction count generalizing s i with
  | zero => rw [Nat.zero_add, Nat.cast_zero, add_zero]; rfl
  | succ count ih =>
    rw [Nat.add_right_comm, putsLoop, ih, putsLoop]
    push_cast
    rw [add_assoc, add_comm (1 : ℤ)]

/-- From a cursor that is on the screen or behind the last column of a row, `terminal_puts` makes
all its accesses to the screen, and after each byte the cursor is there again. -/
theorem terminalPuts_accesses (h : (s.display t).OnScreen) (self nbytes : ℤ) :
    s.terminalPutsChecked self t nbytes = .ok (s.terminalPuts self t nbytes) ∧
      ∀ count rest : ℕ, count + rest = nbytes.toNat → ∃ s' : Console,
        s' = putsLoop self t { s with curTask := self } 0 count ∧ (s'.display t).OnScreen ∧
          s.terminalPuts self t nbytes = putsLoop self t s' count rest := by
  have hdisplay : (({ s with curTask := self } : Console).display t).OnScreen := h
  refine ⟨putsLoopChecked_eq rfl hdisplay 0 nbytes.toNat, fun count rest hcount ↦
    ⟨_, rfl, onScreen_putsLoop rfl hdisplay 0 count, ?_⟩⟩
  rw [terminalPuts, ← hcount, putsLoop_add, zero_add]

/-- The bounds for a full buffer, on an empty screen. -/
theorem terminalPuts_accesses_cleared :
    clearedConsole.terminalPutsChecked 0 0 128 = .ok (clearedConsole.terminalPuts 0 0 128) ∧
      ∀ count rest : ℕ, count + rest = (128 : ℤ).toNat → ∃ s' : Console,
        s' = putsLoop 0 0 { clearedConsole with curTask := 0 } 0 count ∧
          (s'.display 0).OnScreen ∧
          clearedConsole.terminalPuts 0 0 128 = putsLoop 0 0 s' count rest :=
  terminalPuts_accesses ⟨by decide, by decide, by decide, by decide⟩ 0 128

end Success

end Console

end Sp18.Kernel
