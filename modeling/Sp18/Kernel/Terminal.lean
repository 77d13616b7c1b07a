import Sp18.Foundation.CInt
import Sp18.Foundation.ByteMemory
import Mathlib.Data.UInt

/-!
# The terminals

`terminal.h` and `terminal.c` but for `terminal_read`: the three terminals, the globals that hold
the displayed one, the functions that the keyboard handler calls on it, and `terminal_write`.
Characters are stored through the virtual page `184` of `first_page_table`, which `switch_terminal`
and `terminal_write` point at the display or at the backing page of a terminal.

The counters of a terminal are `uint16_t` and wrap; its coordinates are plain integers. A
`keyboard_buf` has 128 bytes, and what stands at the other indices of `keyboardBuf` is the memory
around it. `update_cursor` writes to the cursor ports only, which nothing reads, and is left out.
-/

set_option autoImplicit false
set_option relaxedAutoImplicit false

namespace Sp18.Kernel

open Foundation

/-- The number of terminals, for the numerals of their indices. -/
instance neZero_three : NeZero 3 := ⟨by decide⟩

/-- `NUM_COLS` -/
def numCols : ℤ := 80

/-- `NUM_ROWS` -/
def numRows : ℤ := 25

/-- `ATTRIB` -/
def attrib : UInt8 := 7

/-- `BUFFER_SIZE` -/
def bufferSize : ℤ := 128

/-- `VIDEO_MEMORY` -/
def videoMemory : ℤ := 753664

/-- `FOUR_KB` -/
def fourKB : ℤ := 4096

/-- `'\n'` -/
def newlineChar : UInt8 := 10

/-- `'\r'` -/
def returnChar : UInt8 := 13

/-- `' '` -/
def spaceChar : UInt8 := 32

/-- `terminal_t` -/
structure Terminal where
  termIndex : ℤ
  keyboardBuf : ℤ → UInt8
  termBufIndex : ℤ
  termScreenX : ℤ
  termScreenY : ℤ
  activePid : ℕ
  vidMapFlag : Bool

/-- What `terminal_putc` does to a terminal with room in its buffer and on its screen. The delete
flag `d` leaves the two counters alone. -/
def Terminal.advance (t : Terminal) (c : UInt8) (d : Bool) : Terminal :=
  let t := { t with keyboardBuf := Function.update t.keyboardBuf t.termBufIndex c }
  let t := if d then t else
    { t with termIndex := u16 (t.termIndex + 1), termBufIndex := u16 (t.termBufIndex + 1) }
  if c = newlineChar ∨ c = returnChar then
    { t with termScreenY := t.termScreenY + 1, termScreenX := 0 }
  else if t.termIndex % 80 = 0 then
    { t with termScreenY := t.termScreenY + 1, termScreenX := 0 }
  else
    let x := (t.termScreenX + 1).tmod numCols
    { t with termScreenX := x, termScreenY := (t.termScreenY + x.tdiv numCols).tmod numRows }

/-- `terminal_newline` stores the end of the line behind the pending characters. -/
def Terminal.endLine (t : Terminal) : Terminal :=
  { t with keyboardBuf := Function.update t.keyboardBuf t.termBufIndex newlineChar }

/-- The globals of the terminal driver, the two page-table entries that it writes, and the video
pages by their physical address. `curTask` is the address of a PCB. -/
structure Console where
  terminals : Fin 3 → Terminal
  currTerminal : Fin 3
  curTask : ℤ
  index : ℤ
  bufIndex : ℤ
  screenX : ℤ
  screenY : ℤ
  terminalBuffer : ℤ → UInt8
  termVidBuf : ℤ → UInt8
  videoPages : ℤ → ℤ → UInt8
  firstPageTable184 : ℤ
  userVidmemPageTable0 : ℤ
  enterFlag : Bool
  enterFlag2 : Bool
  enterFlag3 : Bool
  terminalReading : Bool

namespace Console

/-- `terminals[curr_terminal]` -/
def displayed (s : Console) : Terminal := s.terminals s.currTerminal

/-- Assignment to `terminals[t]`. -/
def setTerminal (s : Console) (t : Fin 3) (terminal : Terminal) : Console :=
  { s with terminals := Function.update s.terminals t terminal }

/-- Assignment to `terminals[curr_terminal]`. -/
def setDisplayed (s : Console) (terminal : Terminal) : Console :=
  s.setTerminal s.currTerminal terminal

/-- The physical page that `video_mem` stands for. -/
def videoPage (s : Console) : ℤ := s.firstPageTable184 - s.firstPageTable184 % fourKB

/-- The bytes at `video_mem`. -/
def videoMem (s : Console) : ℤ → UInt8 := s.videoPages s.videoPage

/-- Stores to the bytes at `video_mem`. Only the 4 KB of the page are present: a store outside of it
is a page fault, for which the modules `KeyboardAccesses` and `OutputAccesses` check. -/
def setVideoMem (s : Console) (bytes : ℤ → UInt8) : Console :=
  { s with videoPages := Function.update s.videoPages s.videoPage bytes }

@[simp] theorem displayed_setDisplayed (s : Console) (terminal : Terminal) :
    (s.setDisplayed terminal).displayed = terminal := by
  simp [displayed, setDisplayed, setTerminal]

@[simp] theorem displayed_setVideoMem (s : Console) (bytes : ℤ → UInt8) :
    (s.setVideoMem bytes).displayed = s.displayed := rfl

/-- The stores of one character cell: the character and its attribute. -/
def putCell (bytes : ℤ → UInt8) (cell : ℤ) (c : UInt8) : ℤ → UInt8 :=
  Function.update (Function.update bytes (2 * cell) c) (2 * cell + 1) attrib

/-- A loop that stores blanks to `count` cells from `cell` on. -/
def blankCells (bytes : ℤ → UInt8) (cell : ℤ) : ℕ → ℤ → UInt8
  | 0 => bytes
  | count + 1 => putCell (blankCells bytes cell count) (cell + count) spaceChar

/-- The loop of `scroll_up` and `scroll_up_curr` that moves every row up by one. Its `i`-th
iteration stores cell `i + 80` to cell `i`. -/
def moveRows (bytes : ℤ → UInt8) : ℕ → ℤ → UInt8
  | 0 => bytes
  | i + 1 => putCell (moveRows bytes i) i (moveRows bytes i (2 * (i + numCols)))

/-- `clear` of `lib.c` -/
def clear (s : Console) : Console := s.setVideoMem (blankCells s.videoMem 0 2000)

/-- `update_terminal` -/
def updateTerminal (s : Console) : Console :=
  { s with
    terminalBuffer := memcpy s.terminalBuffer 0 s.displayed.keyboardBuf 0 bufferSize
    bufIndex := s.displayed.termBufIndex
    screenX := s.displayed.termScreenX
    screenY := s.displayed.termScreenY
    index := s.displayed.termIndex }

/-- `scroll_up_curr` -/
def scrollUpCurr (s : Console) : Console :=
  let s := s.setVideoMem (blankCells (moveRows s.videoMem 1920) 1920 80)
  (s.setDisplayed { s.displayed with
    termIndex := 1920, termScreenX := 0, termScreenY := 24 }).updateTerminal

/-- The first part of `terminal_putc`, for a terminal with room in its buffer and on its screen. The
character is stored at the old coordinates. -/
def putcDisplayed (s : Console) (c : UInt8) (d : Bool) : Console :=
  let t := s.displayed
  let s := if c = newlineChar ∨ c = returnChar then s else
    s.setVideoMem (putCell s.videoMem (numCols * t.termScreenY + t.termScreenX) c)
  s.setDisplayed (t.advance c d)

/-- `terminal_putc` -/
def terminalPutc (s : Console) (c : UInt8) (d : Bool) : Console :=
  let s :=
    if s.displayed.termBufIndex < bufferSize - 1 ∧ s.displayed.termIndex < 2000 then
      (s.putcDisplayed c d).updateTerminal
    else s
  if s.displayed.termIndex ≥ 2000 then s.scrollUpCurr else s

/-- The first part of `terminal_newline`, called while the process whose PCB is at `self` runs: the
flag of the displayed terminal is set, the other two are cleared. -/
def markEnter (s : Console) (self : ℤ) : Console :=
  { s with
    curTask := self
    enterFlag := s.currTerminal = 0
    enterFlag2 := s.currTerminal = 1
    enterFlag3 := s.currTerminal = 2 }

/-- `terminal_newline` -/
def terminalNewline (s : Console) (self : ℤ) : Console :=
  let s := s.markEnter self
  let s := s.setDisplayed s.displayed.endLine
  if s.displayed.termIndex ≥ 1920 then s.scrollUpCurr
  else
    let y := s.displayed.termScreenY + 1
    (s.setDisplayed { s.displayed with
      termScreenX := 0, termScreenY := y, termIndex := u16 (y * numCols + 0) }).updateTerminal

/-- `terminal_clear` -/
def terminalClear (s : Console) : Console :=
  let s := { s.clear with index := 0, screenX := 0, screenY := 0 }
  s.setDisplayed { s.displayed with termIndex := 0, termScreenX := 0, termScreenY := 0 }

/-- `cursor_backspace` -/
def cursorBackspace (s : Console) : Console :=
  let t := s.displayed
  if t.termIndex % 80 = 0 ∧ t.termIndex ≠ 0 then
    let s := (s.setDisplayed { t with
      termIndex := u16 (t.termIndex - 1)
      termScreenY := t.termScreenY - 1
      termScreenX := numCols - 1 }).terminalPutc 0 true
    (s.setDisplayed { s.displayed with
      termScreenX := numCols - 1
      termBufIndex := u16 (s.displayed.termBufIndex - 1) }).updateTerminal
  else if t.termBufIndex > 0 ∧ t.termBufIndex < bufferSize - 1 ∧ t.termIndex ≠ 0 then
    let s := (s.setDisplayed { t with termScreenX := t.termScreenX - 1 }).terminalPutc 0 true
    (s.setDisplayed { s.displayed with
      termScreenX := s.displayed.termScreenX - 1
      termIndex := u16 (s.displayed.termIndex - 1)
      termBufIndex := u16 (s.displayed.termBufIndex - 1) }).updateTerminal
  else if t.termBufIndex = bufferSize - 1 then
    let s := (s.setDisplayed { t with
      termScreenX := t.termScreenX - 1
      termIndex := u16 (t.termIndex - 1)
      termBufIndex := u16 (t.termBufIndex - 1) }).terminalPutc 0 true
    (s.setDisplayed { s.displayed with
      termScreenX := s.displayed.termScreenX - 1 }).updateTerminal
  else s

/-- `switch_terminal`, called while the process whose PCB is at `self` runs. -/
def switchTerminal (s : Console) (self : ℤ) (termDest : Fin 3) : Console :=
  let s := { s with curTask := self }
  -- the screen goes to the backing page of the displayed terminal
  let s := { s with
    termVidBuf := memcpy s.termVidBuf 0 s.videoMem 0 4000
    firstPageTable184 := videoMemory + ((s.currTerminal : ℕ) + 1) * fourKB + 3 }
  let s := s.setVideoMem (memcpy s.videoMem 0 s.termVidBuf 0 4000)
  let t := s.displayed
  let s := s.setDisplayed { t with
    keyboardBuf := memcpy t.keyboardBuf 0 s.terminalBuffer 0 bufferSize
    termIndex := s.index
    termBufIndex := s.bufIndex
    termScreenX := s.screenX
    termScreenY := s.screenY }
  let s := { s with
    userVidmemPageTable0 :=
      if (s.terminals termDest).vidMapFlag = false then
        if s.displayed.vidMapFlag = true then videoMemory + ((s.currTerminal : ℕ) + 1) * fourKB + 7
        else s.userVidmemPageTable0
      else videoMemory + 7 }
  -- the backing page of the new terminal goes to the screen
  let s := { s with firstPageTable184 := videoMemory + ((termDest : ℕ) + 1) * fourKB + 3 }
  let s := { s with
    termVidBuf := memcpy s.termVidBuf 0 s.videoMem 0 4000
    firstPageTable184 := videoMemory + 3 }
  let s := s.setVideoMem (memcpy s.videoMem 0 s.termVidBuf 0 4000)
  let t := s.terminals termDest
  { s with
    terminalBuffer := memcpy s.terminalBuffer 0 t.keyboardBuf 0 bufferSize
    index := t.termIndex
    bufIndex := t.termBufIndex
    screenX := t.termScreenX
    screenY := t.termScreenY
    currTerminal := termDest }

/-! ### Writing

The process that writes runs on terminal `t` with its PCB at `self`. Its characters go through the
`keyboard_buf` of its terminal. -/

section Writing

variable (self : ℤ) (t : Fin 3)

/-- `clear_buffer` -/
def clearBuffer (s : Console) : Console :=
  { s.setTerminal t { s.terminals t with
      termBufIndex := 0
      keyboardBuf := memcpy (s.terminals t).keyboardBuf 0 (fun _ ↦ 0) 0 bufferSize } with
    curTask := self
    bufIndex := 0
    terminalBuffer := memcpy s.terminalBuffer 0 (fun _ ↦ 0) 0 bufferSize }

/-- `scroll_up` -/
def scrollUp (s : Console) : Console :=
  let s := { s with curTask := self }
  let s := s.setVideoMem (blankCells (moveRows s.videoMem 1920) 1920 80)
  let s := s.setTerminal t { s.terminals t with
    termIndex := 1920, termScreenX := 0, termScreenY := 24 }
  if t = s.currTerminal then s.updateTerminal else s

/-- The step of `terminal_puts` to the start of the next row. -/
def putsNewline (s : Console) : Console :=
  let y := (s.terminals t).termScreenY + 1
  let s := s.setTerminal t { s.terminals t with
    termScreenY := y, termScreenX := 0, termIndex := u16 (y * numCols + 0) }
  if (s.terminals t).termIndex ≥ 2000 then s.scrollUp self t else s

/-- The store of `terminal_puts` at the cursor. -/
def putsStore (s : Console) (c : UInt8) : Console :=
  s.setVideoMem (putCell s.videoMem
    (numCols * (s.terminals t).termScreenY + (s.terminals t).termScreenX) c)

/-- The end of the loop body of `terminal_puts`: the index follows the cursor. -/
def putsIndex (s : Console) : Console :=
  let s := s.setTerminal t { s.terminals t with
    termIndex := u16 ((s.terminals t).termScreenY * numCols + (s.terminals t).termScreenX) }
  if t = s.currTerminal then s.updateTerminal else s

/-- The body of `terminal_puts` for the character `c`. -/
def putsChar (s : Console) (c : UInt8) : Console :=
  if c = 0 then s
  else
    let s :=
      if c = newlineChar ∨ c = returnChar ∨ (s.terminals t).termScreenX = 80 then
        if (s.terminals t).termScreenX ≠ 80 then s.putsNewline self t
        else if c ≠ newlineChar then
          let s := (s.putsNewline self t).putsStore t c
          let x := (s.terminals t).termScreenX + 1
          s.setTerminal t { s.terminals t with
            termScreenX := x
            termScreenY := ((s.terminals t).termScreenY + x.tdiv numCols).tmod numRows }
        else s.putsNewline self t
      else
        let s := s.putsStore t c
        let x := (s.terminals t).termScreenX + 1
        let y := (s.terminals t).termScreenY
        s.setTerminal t { s.terminals t with
          termScreenX := x
          termScreenY := if y = numRows - 1 then y else (y + x.tdiv numCols).tmod numRows }
    s.putsIndex t

/-- The loop of `terminal_puts` from position `i` on, with `remaining` positions to print. -/
def putsLoop (s : Console) (i : ℤ) : ℕ → Console
  | 0 => s
  | remaining + 1 => putsLoop (s.putsChar self t ((s.terminals t).keyboardBuf i)) (i + 1) remaining

/-- `terminal_puts` -/
def terminalPuts (s : Console) (nbytes : ℤ) : Console :=
  putsLoop self t { s with curTask := self } 0 nbytes.toNat

/-- The loop of `terminal_write` for more than one buffer: byte `i`, `remaining` bytes before the
end, `j` bytes in the buffer and `y` full buffers printed. A full buffer is printed before the
byte is stored. -/
def writeLoop (buf : ℤ → UInt8) (s : Console) (i j y : ℤ) : ℕ → Console × ℤ
  | 0 => (s, y)
  | remaining + 1 =>
    let (s, j, y) := if j < bufferSize then (s, j, y)
      else (s.terminalPuts self t bufferSize, 0, y + 1)
    let s := s.setTerminal t { s.terminals t with
      keyboardBuf := Function.update (s.terminals t).keyboardBuf j (buf i) }
    writeLoop buf s (i + 1) (j + 1) y remaining

/-- The part of `terminal_write` between the two calls of `clear_buffer`. -/
def writeBytes (s : Console) (buf : ℤ → UInt8) (nbytes : ℤ) : Console :=
  if nbytes ≤ bufferSize then
    let s := s.setTerminal t { s.terminals t with
      keyboardBuf := memcpy (s.terminals t).keyboardBuf 0 buf 0 nbytes
      termBufIndex := nbytes }
    s.terminalPuts self t (s.terminals t).termBufIndex
  else
    let (s, y) := s.writeLoop self t buf 0 0 0 nbytes.toNat
    s.terminalPuts self t (nbytes - y * bufferSize)

/-- `terminal_write` with a buffer that is not `NULL`: the return value and the new state. -/
def terminalWrite (s : Console) (fd : ℤ) (buf : ℤ → UInt8) (nbytes : ℤ) : ℤ × Console :=
  if fd ≠ 1 ∨ nbytes < 0 then (-1, s)
  else if nbytes = 0 then (0, s)
  else
    let s := { s with curTask := self }
    let s := if t ≠ s.currTerminal then
        { s with firstPageTable184 := videoMemory + ((t : ℕ) + 1) * fourKB + 3 }
      else s
    let s := ((s.clearBuffer self t).writeBytes self t buf nbytes).clearBuffer self t
    let s := if t ≠ s.currTerminal then { s with firstPageTable184 := videoMemory + 3 } else s
    (nbytes, s)

end Writing

/-! ### What writing leaves alone -/

/-- What the rest of the kernel reads of the terminals. -/
structure TaskView where
  activePid : Fin 3 → ℕ
  vidMapFlag : Fin 3 → Bool
  currTerminal : Fin 3
  userVidmem : ℤ

/-- The part of the state that the rest of the kernel reads. -/
def tasks (s : Console) : TaskView where
  activePid t := (s.terminals t).activePid
  vidMapFlag t := (s.terminals t).vidMapFlag
  currTerminal := s.currTerminal
  userVidmem := s.userVidmemPageTable0

section Tasks

variable (s : Console) (self : ℤ) (t : Fin 3)

theorem tasks_setTerminal {terminal : Terminal}
    (hactive : terminal.activePid = (s.terminals t).activePid)
    (hflag : terminal.vidMapFlag = (s.terminals t).vidMapFlag) :
    (s.setTerminal t terminal).tasks = s.tasks := by
  have hterminals : ∀ t', ((s.setTerminal t terminal).terminals t').activePid =
      (s.terminals t').activePid ∧ ((s.setTerminal t terminal).terminals t').vidMapFlag =
        (s.terminals t').vidMapFlag := by
    intro t'
    by_cases hsame : t' = t
    · subst hsame
      simp [setTerminal, hactive, hflag]
    · simp [setTerminal, hsame]
  simp only [tasks, TaskView.mk.injEq]
  exact ⟨funext fun t' ↦ (hterminals t').1, funext fun t' ↦ (hterminals t').2, rfl, rfl⟩

@[simp] theorem tasks_setVideoMem (bytes : ℤ → UInt8) : (s.setVideoMem bytes).tasks = s.tasks := rfl

@[simp] theorem tasks_updateTerminal : s.updateTerminal.tasks = s.tasks := rfl

@[simp] theorem tasks_clearBuffer : (s.clearBuffer self t).tasks = s.tasks :=
  s.tasks_setTerminal t rfl rfl

@[simp] theorem tasks_scrollUp : (s.scrollUp self t).tasks = s.tasks := by
  simp only [scrollUp]
  split_ifs <;> exact tasks_setTerminal _ t rfl rfl

@[simp] theorem tasks_putsNewline : (s.putsNewline self t).tasks = s.tasks := by
  simp only [putsNewline]
  split_ifs
  · rw [tasks_scrollUp]
    exact tasks_setTerminal _ t rfl rfl
  · exact tasks_setTerminal _ t rfl rfl

@[simp] theorem tasks_putsStore (c : UInt8) : (s.putsStore t c).tasks = s.tasks := rfl

@[simp] theorem tasks_putsIndex : (s.putsIndex t).tasks = s.tasks := by
  simp only [putsIndex]
  split_ifs <;> exact tasks_setTerminal _ t rfl rfl

@[simp] theorem tasks_putsChar (c : UInt8) : (s.putsChar self t c).tasks = s.tasks := by
  simp only [putsChar]
  split_ifs <;> simp [tasks_setTerminal]

@[simp] theorem tasks_putsLoop (i : ℤ) (remaining : ℕ) :
    (s.putsLoop self t i remaining).tasks = s.tasks := by
  induction remaining generalizing s i with
  | zero => rfl
  | succ remaining ih => rw [putsLoop, ih, tasks_putsChar]

@[simp] theorem tasks_terminalPuts (nbytes : ℤ) :
    (s.terminalPuts self t nbytes).tasks = s.tasks :=
  tasks_putsLoop _ self t 0 nbytes.toNat

theorem tasks_writeLoop (buf : ℤ → UInt8) (i j y : ℤ) (remaining : ℕ) :
    (s.writeLoop self t buf i j y remaining).1.tasks = s.tasks := by
  induction remaining generalizing s i j y with
  | zero => rfl
  | succ remaining ih =>
    rw [writeLoop]
    split_ifs
    · rw [ih]
      exact tasks_setTerminal _ t rfl rfl
    · rw [ih, ← tasks_terminalPuts s self t bufferSize]
      generalize s.terminalPuts self t bufferSize = s'
      exact tasks_setTerminal s' t rfl rfl

theorem tasks_writeBytes (buf : ℤ → UInt8) (nbytes : ℤ) :
    (s.writeBytes self t buf nbytes).tasks = s.tasks := by
  simp only [writeBytes]
  split_ifs
  · rw [tasks_terminalPuts]
    exact tasks_setTerminal _ t rfl rfl
  · rw [tasks_terminalPuts]
    exact tasks_writeLoop s self t buf 0 0 0 _

/-- `terminal_write` leaves what the rest of the kernel reads alone. -/
theorem tasks_terminalWrite (fd : ℤ) (buf : ℤ → UInt8) (nbytes : ℤ) :
    (s.terminalWrite self t fd buf nbytes).2.tasks = s.tasks := by
  have hinner : ∀ s' : Console, (((s'.clearBuffer self t).writeBytes self t buf nbytes).clearBuffer
      self t).tasks = s'.tasks := by
    intro s'
    rw [tasks_clearBuffer, tasks_writeBytes, tasks_clearBuffer]
  simp only [terminalWrite]
  split_ifs
  · rfl
  · rfl
  all_goals exact hinner _

/-- `switch_terminal` displays the new terminal. It points the user's video page at the display if
the new terminal uses it, and else to the backing page of the old terminal if that one does. -/
theorem tasks_switchTerminal (termDest : Fin 3) :
    (s.switchTerminal self termDest).tasks = { s.tasks with
      currTerminal := termDest
      userVidmem :=
        if s.tasks.vidMapFlag termDest = false then
          if s.tasks.vidMapFlag s.currTerminal = true then
            videoMemory + ((s.currTerminal : ℕ) + 1) * fourKB + 7
          else s.tasks.userVidmem
        else videoMemory + 7 } := by
  -- the store to the terminal that is left keeps the flag and the active process
  have hterminals : ∀ t', ((s.switchTerminal self termDest).terminals t').activePid =
      (s.terminals t').activePid ∧ ((s.switchTerminal self termDest).terminals t').vidMapFlag =
        (s.terminals t').vidMapFlag := by
    intro t'
    by_cases hsame : t' = s.currTerminal
    · subst hsame
      simp [switchTerminal, setDisplayed, setTerminal, setVideoMem, displayed]
    · simp [switchTerminal, setDisplayed, setTerminal, setVideoMem, displayed, hsame]
  have hdest : ∀ terminal : Terminal, terminal.vidMapFlag = s.displayed.vidMapFlag →
      (Function.update s.terminals s.currTerminal terminal termDest).vidMapFlag =
        (s.terminals termDest).vidMapFlag := by
    intro terminal hflag
    by_cases hsame : termDest = s.currTerminal
    · subst hsame
      simp [hflag, displayed]
    · simp [hsame]
  simp only [tasks, TaskView.mk.injEq]
  refine ⟨funext fun t' ↦ (hterminals t').1, funext fun t' ↦ (hterminals t').2, rfl, ?_⟩
  simp only [switchTerminal, setDisplayed, setTerminal, setVideoMem, displayed,
    Function.update_self]
  rw [hdest _ (by rfl)]
  rfl

end Tasks

end Console

/-- A console after `terminal_clear`, with nothing pending on any terminal. -/
def clearedConsole : Console where
  terminals := fun _ ↦ ⟨0, fun _ ↦ 0, 0, 0, 0, 0, false⟩
  currTerminal := 0
  curTask := 0
  index := 0
  bufIndex := 0
  screenX := 0
  screenY := 0
  terminalBuffer := fun _ ↦ 0
  termVidBuf := fun _ ↦ 0
  videoPages := fun _ _ ↦ 0
  firstPageTable184 := videoMemory + 3
  userVidmemPageTable0 := 0
  enterFlag := false
  enterFlag2 := false
  enterFlag3 := false
  terminalReading := false

end Sp18.Kernel
