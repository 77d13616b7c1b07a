import Sp18.Kernel.KeyboardAccesses
import Sp18.Kernel.LineEditing

/-!
# The line that is typed

What the keyboard handler makes of a sequence of keys, compared with a plain line editor: a key with
a character appends it, from the upper row while Caps Lock is on or a shift key is held, as long as
there is room, and Backspace removes the last one.

The handler toggles the flags of the shift keys, so that a repeated press counts as a release. It
ignores keys of the lower row after an Enter on the first terminal that nobody has read, or while
the flag of Alt is set, appends a zero for keys without a character, and clears the screen for `l`
while the flag of Ctrl is set. Backspace looks at the column before it looks at the buffer. Nor does
the handler return from every key: where Backspace has taken the cursor off the screen, the next
store may be outside of the video page. `typedLine_exact` says at which keys the two part; where the
counters of the terminal belong together, as they do unless Backspace parts them, all stores are on
the screen (`typedLine_of_consistent`).
-/

set_option autoImplicit false
set_option relaxedAutoImplicit false

namespace Sp18.Kernel

open Foundation

/-- The pending line. -/
def Terminal.pending (t : Terminal) : List UInt8 := valuesAt t.keyboardBuf 0 t.termBufIndex.toNat

/-- The character of a key. That of the space bar is not in the table. -/
def keyChar (upper : Bool) (c : ℤ) : UInt8 :=
  if c = spacePressed then spaceChar else scancode upper c

/-- A line editor with the state of Caps Lock and of the two shift keys. -/
structure LineEditor where
  line : List UInt8
  caps : Bool
  heldLeft : Bool
  heldRight : Bool

/-- Keys type the characters of the upper row. -/
def LineEditor.upper (e : LineEditor) : Bool := e.caps || e.heldLeft || e.heldRight

/-- What the line editor does for a scancode. -/
def LineEditor.press (e : LineEditor) (c : ℤ) : LineEditor :=
  if c = capslockPress then { e with caps := !e.caps }
  else if c = leftShiftPress then { e with heldLeft := true }
  else if c = leftShiftRelease then { e with heldLeft := false }
  else if c = rightShiftPress then { e with heldRight := true }
  else if c = rightShiftRelease then { e with heldRight := false }
  else if c = backspacePress then { e with line := e.line.dropLast }
  else if c ≥ 0 ∧ keyChar e.upper c ≠ 0 ∧ e.line.length < 127 then
    { e with line := e.line ++ [keyChar e.upper c] }
  else e

/-- A byte from the keyboard that belongs to no Ctrl, Alt or Enter key, and, while the flag of Alt
is as given, does not switch to another terminal. `self` is the process that it interrupts. -/
structure PlainKey (altFlag : Bool) where
  self : ℤ
  data : UInt8
  plain : i8 data.toNat ∉
    [leftControlPress, leftControlRelease, rightAltPress, rightAltRelease, enterPressed]
  stays : altFlag = true → i8 data.toNat ∉ [f1Press, f2Press, f3Press]

/-- The scancode of the key. -/
def PlainKey.code {altFlag : Bool} (key : PlainKey altFlag) : ℤ := i8 key.data.toNat

/-- The keyboard with the line editor beside it. -/
structure Typing where
  keyboard : Keyboard
  editor : LineEditor

namespace Typing

/-- The terminal on which the keys are typed. -/
def terminal (n : Typing) : Terminal := n.keyboard.console.displayed

def step {altFlag : Bool} (n : Typing) (key : PlainKey altFlag) : Typing where
  keyboard := n.keyboard.keyboardHandler key.self key.data
  editor := n.editor.press key.code

/-- The pending line is that of the editor. -/
def SameLine (n : Typing) : Prop := n.terminal.pending = n.editor.line

/-- The states in which Backspace removes the last pending character, if there is one. -/
def BackspaceDrops (t : Terminal) : Prop :=
  (t.termIndex % 80 = 0 → t.termIndex ≠ 0 → 0 < t.termBufIndex) ∧
    (t.termIndex = 0 → t.termBufIndex = 0 ∨ t.termBufIndex = 127)

/-- The key does to the pending line what the editor does with it. Releases, and the keys that the
handler leaves out, always do. -/
def KeySuits (n : Typing) (c : ℤ) : Prop :=
  if c < 0 ∨ leftOut c then True
  else if c = backspacePress then BackspaceDrops n.terminal
  else if n.terminal.termBufIndex = 127 then True
  else if c = spacePressed then n.terminal.termIndex < 2000
  else if scancode false c = 0 then
    -- a key without a character must not get to `terminal_putc`
    n.terminal.termIndex = 2000 ∨ ¬ n.keyboard.upperFlag ∧
      (n.keyboard.console.enterFlag ∨ n.keyboard.altFlag)
  else
    -- a key with a character must get there with the right one
    n.terminal.termIndex < 2000 ∧ ¬ (c = lPress ∧ n.keyboard.ctrlFlag) ∧
      (n.keyboard.upperFlag ∨ ¬ n.keyboard.console.enterFlag ∧ ¬ n.keyboard.altFlag) ∧
      (n.keyboard.upperFlag = n.editor.upper ∨ scancode false c = scancode true c)

/-- The cell to which the key stores, if it stores at all, is on the video page. Backspace stores to
the cell before the cursor: at the start of a row, as long as there is room in the buffer, to the
last cell of the row above. -/
def KeyReaches (n : Typing) (c : ℤ) : Prop :=
  if c < 0 ∨ leftOut c then True
  else if c = backspacePress then
    (n.terminal.termIndex % 80 = 0 → n.terminal.termIndex ≠ 0 → n.terminal.termBufIndex < 127 →
      OnVideoPage (80 * (n.terminal.termScreenY - 1) + 79)) ∧
    (n.terminal.termIndex % 80 ≠ 0 → 0 < n.terminal.termBufIndex →
      OnVideoPage (80 * n.terminal.termScreenY + (n.terminal.termScreenX - 1)))
  else
    keyChar false c ≠ 0 → n.terminal.termBufIndex < 127 →
      OnVideoPage (80 * n.terminal.termScreenY + n.terminal.termScreenX)

/-- The handler returns from the key. -/
def Returns {altFlag : Bool} (n : Typing) (key : PlainKey altFlag) : Prop :=
  n.keyboard.keyboardHandlerChecked key.self key.data = .ok (n.step key).keyboard

end Typing

/-! ### The pending line of a terminal -/

/-- The index of a terminal is on its screen or one behind it, and the pending characters fit. -/
structure Terminal.InBounds (t : Terminal) : Prop where
  index_nonneg : 0 ≤ t.termIndex
  index_le : t.termIndex ≤ 2000
  buf_nonneg : 0 ≤ t.termBufIndex
  buf_le : t.termBufIndex ≤ 127

namespace Terminal

variable {t : Terminal}

@[simp] theorem advance_keyboardBuf (t : Terminal) (c : UInt8) (d : Bool) :
    (t.advance c d).keyboardBuf = Function.update t.keyboardBuf t.termBufIndex c := by
  simp only [advance]
  split_ifs <;> rfl

@[simp] theorem advance_termBufIndex (t : Terminal) (c : UInt8) (d : Bool) :
    (t.advance c d).termBufIndex = if d then t.termBufIndex else u16 (t.termBufIndex + 1) := by
  simp only [advance]
  split_ifs <;> rfl

@[simp] theorem advance_termIndex (t : Terminal) (c : UInt8) (d : Bool) :
    (t.advance c d).termIndex = if d then t.termIndex else u16 (t.termIndex + 1) := by
  simp only [advance]
  split_ifs <;> rfl

theorem length_pending (h : t.InBounds) : (t.pending.length : ℤ) = t.termBufIndex := by
  rw [pending, length_valuesAt, Int.toNat_of_nonneg h.buf_nonneg]

theorem pending_advance (h : t.InBounds) (c : UInt8) :
    (t.advance c false).pending = t.pending ++ [c] := by
  obtain ⟨-, -, hbuf, hbuf'⟩ := h
  obtain ⟨count, hcount⟩ := Int.eq_ofNat_of_zero_le hbuf
  have hnext : (u16 (t.termBufIndex + 1)).toNat = count + 1 := by
    rw [u16_of_range] <;> omega
  rw [pending, advance_keyboardBuf, advance_termBufIndex, if_neg Bool.false_ne_true, hnext, hcount,
    valuesAt_update, pending, hcount, Int.toNat_natCast]

/-- A character that finds room is the last one of the line. -/
theorem pending_putc_room (h : t.InBounds) (hroom : t.termBufIndex < 127)
    (hindex : t.termIndex < 2000) (c : UInt8) :
    (t.putc c false).pending = t.pending ++ [c] ∧ (t.putc c false).InBounds := by
  have hadvance := pending_advance h c
  obtain ⟨hindex0, -, hbuf, hbuf'⟩ := h
  have hnextBuf : (t.advance c false).termBufIndex = t.termBufIndex + 1 := by
    rw [advance_termBufIndex, if_neg Bool.false_ne_true, u16_of_range] <;> omega
  have hnextIndex : (t.advance c false).termIndex = t.termIndex + 1 := by
    rw [advance_termIndex, if_neg Bool.false_ne_true, u16_of_range] <;> omega
  rw [putc_of_room t c false hroom hindex]
  split_ifs
  · exact ⟨hadvance, by constructor <;> simp only [hnextBuf] <;> omega⟩
  · exact ⟨hadvance, by constructor <;> omega⟩

/-- Without room a character is dropped. -/
theorem pending_putc_full (h : t.InBounds) (hfull : t.termBufIndex = 127 ∨ t.termIndex = 2000)
    (c : UInt8) : (t.putc c false).pending = t.pending ∧ (t.putc c false).InBounds := by
  have hroom : ¬ (t.termBufIndex < bufferSize - 1 ∧ t.termIndex < 2000) := by
    unfold bufferSize
    omega
  obtain ⟨hindex0, -, hbuf, hbuf'⟩ := h
  simp only [putc, if_neg hroom]
  split_ifs
  · exact ⟨rfl, by constructor <;> simp only <;> omega⟩
  · exact ⟨rfl, by constructor <;> omega⟩

/-- The nested call of `terminal_putc` in `cursor_backspace` stores behind the pending characters
only. -/
theorem putc_delete_fields (t : Terminal) : (t.putc 0 true).termBufIndex = t.termBufIndex ∧
    (t.putc 0 true).termIndex = (if 2000 ≤ t.termIndex then 1920 else t.termIndex) ∧
    ∀ i < t.termBufIndex, (t.putc 0 true).keyboardBuf i = t.keyboardBuf i := by
  have hstore : ∀ i < t.termBufIndex,
      Function.update t.keyboardBuf t.termBufIndex 0 i = t.keyboardBuf i :=
    fun i hi ↦ Function.update_of_ne hi.ne _ _
  simp only [putc]
  split_ifs <;> simp_all

/-- Backspace at the start of a row below the first. -/
theorem backspace_start (h : t.InBounds) (hstart : t.termIndex % 80 = 0 ∧ t.termIndex ≠ 0) :
    (∀ i < t.termBufIndex - 1, t.backspace.keyboardBuf i = t.keyboardBuf i) ∧
      t.backspace.termBufIndex = u16 (t.termBufIndex - 1) ∧
      t.backspace.termIndex = t.termIndex - 1 := by
  obtain ⟨hindex0, hindex, -, -⟩ := h
  have hprev : u16 (t.termIndex - 1) = t.termIndex - 1 := u16_of_range (by omega) (by omega)
  obtain ⟨hsameBuf, hsameIndex, hkeep⟩ := putc_delete_fields { t with
    termIndex := t.termIndex - 1
    termScreenY := t.termScreenY - 1
    termScreenX := numCols - 1 }
  rw [if_neg (by simp only; omega)] at hsameIndex
  rw [backspace, if_pos hstart, hprev]
  exact ⟨fun i hi ↦ hkeep i (by simp only; omega),
    congrArg (fun count ↦ u16 (count - 1)) hsameBuf, hsameIndex⟩

/-- Backspace inside a row, with some characters pending. -/
theorem backspace_inside (h : t.InBounds) (hstart : ¬ (t.termIndex % 80 = 0 ∧ t.termIndex ≠ 0))
    (hinside : t.termBufIndex > 0 ∧ t.termBufIndex < bufferSize - 1 ∧ t.termIndex ≠ 0) :
    (∀ i < t.termBufIndex - 1, t.backspace.keyboardBuf i = t.keyboardBuf i) ∧
      t.backspace.termBufIndex = t.termBufIndex - 1 ∧
      t.backspace.termIndex = t.termIndex - 1 := by
  obtain ⟨hindex0, hindex, hbuf, hbuf'⟩ := h
  have hprev : u16 (t.termIndex - 1) = t.termIndex - 1 := u16_of_range (by omega) (by omega)
  have hprevBuf : u16 (t.termBufIndex - 1) = t.termBufIndex - 1 :=
    u16_of_range (by omega) (by omega)
  obtain ⟨hsameBuf, hsameIndex, hkeep⟩ :=
    putc_delete_fields { t with termScreenX := t.termScreenX - 1 }
  rw [if_neg (by simp only; omega)] at hsameIndex
  rw [backspace, if_neg hstart, if_pos hinside]
  refine ⟨fun i hi ↦ hkeep i (by simp only; omega), ?_, ?_⟩
  · exact (congrArg (fun count ↦ u16 (count - 1)) hsameBuf).trans hprevBuf
  · exact (congrArg (fun index ↦ u16 (index - 1)) hsameIndex).trans hprev

/-- Backspace with a full buffer, also at the first cell of the screen. -/
theorem backspace_full (h : t.InBounds) (hstart : ¬ (t.termIndex % 80 = 0 ∧ t.termIndex ≠ 0))
    (hfull : t.termBufIndex = 127) :
    (∀ i < t.termBufIndex - 1, t.backspace.keyboardBuf i = t.keyboardBuf i) ∧
      t.backspace.termBufIndex = 126 ∧
      t.backspace.termIndex = (if t.termIndex = 0 then 1920 else t.termIndex - 1) := by
  obtain ⟨hindex0, hindex, -, -⟩ := h
  have hprevBuf : u16 (t.termBufIndex - 1) = 126 := by
    rw [hfull]
    rfl
  have hroom : bufferSize - 1 = 127 := rfl
  obtain ⟨hsameBuf, hsameIndex, hkeep⟩ := putc_delete_fields { t with
    termScreenX := t.termScreenX - 1
    termIndex := u16 (t.termIndex - 1)
    termBufIndex := u16 (t.termBufIndex - 1) }
  rw [backspace, if_neg hstart, if_neg (by omega), if_pos (by omega)]
  refine ⟨fun i hi ↦ hkeep i (by simp only; omega), hsameBuf.trans hprevBuf, hsameIndex.trans ?_⟩
  by_cases hzero : t.termIndex = 0
  · rw [hzero]
    rfl
  · have hprev : u16 (t.termIndex - 1) = t.termIndex - 1 := u16_of_range (by omega) (by omega)
    simp only [hprev]
    rw [if_neg (by omega), if_neg hzero]

/-- What Backspace does to the counters and to the characters that stay. -/
theorem backspace_cases (h : t.InBounds) :
    (∀ i < t.termBufIndex - 1, t.backspace.keyboardBuf i = t.keyboardBuf i) ∧
      ((t.termIndex % 80 = 0 ∧ t.termIndex ≠ 0) ∧
          t.backspace.termBufIndex = u16 (t.termBufIndex - 1) ∧
          t.backspace.termIndex = t.termIndex - 1 ∨
        (t.termIndex % 80 ≠ 0 ∧ 0 < t.termBufIndex ∧ t.termBufIndex < 127) ∧
          t.backspace.termBufIndex = t.termBufIndex - 1 ∧
          t.backspace.termIndex = t.termIndex - 1 ∨
        (¬ (t.termIndex % 80 = 0 ∧ t.termIndex ≠ 0) ∧ t.termBufIndex = 127) ∧
          t.backspace.termBufIndex = 126 ∧
          t.backspace.termIndex = (if t.termIndex = 0 then 1920 else t.termIndex - 1) ∨
        ((t.termIndex = 0 ∧ t.termBufIndex ≠ 127) ∨ t.termIndex % 80 ≠ 0 ∧ t.termBufIndex = 0) ∧
          t.backspace = t) := by
  have hroom : bufferSize - 1 = 127 := rfl
  by_cases hstart : t.termIndex % 80 = 0 ∧ t.termIndex ≠ 0
  · obtain ⟨hkeep, hnext⟩ := backspace_start h hstart
    exact ⟨hkeep, Or.inl ⟨hstart, hnext⟩⟩
  by_cases hinside : t.termBufIndex > 0 ∧ t.termBufIndex < bufferSize - 1 ∧ t.termIndex ≠ 0
  · obtain ⟨hkeep, hnext⟩ := backspace_inside h hstart hinside
    exact ⟨hkeep, Or.inr (Or.inl ⟨by omega, hnext⟩)⟩
  by_cases hfull : t.termBufIndex = 127
  · obtain ⟨hkeep, hnext⟩ := backspace_full h hstart hfull
    exact ⟨hkeep, Or.inr (Or.inr (Or.inl ⟨⟨hstart, hfull⟩, hnext⟩))⟩
  · have hbuf := h.buf_nonneg
    have hbuf' := h.buf_le
    have hsame : t.backspace = t := by
      rw [backspace, if_neg hstart, if_neg hinside, if_neg (by omega)]
    exact ⟨fun i _ ↦ by rw [hsame], Or.inr (Or.inr (Or.inr ⟨by omega, hsame⟩))⟩

/-- Backspace removes the last pending character in the states that fit it, and only there. -/
theorem pending_backspace_iff (h : t.InBounds) :
    t.backspace.pending = t.pending.dropLast ↔ Typing.BackspaceDrops t := by
  obtain ⟨hkeep, hcases⟩ := backspace_cases h
  obtain ⟨hindex0, hindex, hbuf, hbuf'⟩ := h
  have hlength : t.backspace.pending = t.pending.dropLast ↔
      t.backspace.termBufIndex.toNat = t.termBufIndex.toNat - 1 := by
    rw [pending, pending, dropLast_valuesAt]
    constructor
    · intro hsame
      simpa only [length_valuesAt] using congrArg List.length hsame
    · intro hcount
      rw [hcount]
      exact valuesAt_congr fun i hi ↦ hkeep _ (by omega)
  rw [hlength, Typing.BackspaceDrops]
  rcases hcases with ⟨hstart, hnext, -⟩ | ⟨hinside, hnext, -⟩ | ⟨hfull, hnext, -⟩ | ⟨hsame, hnext⟩
  · rw [hnext]
    unfold u16
    omega
  · rw [hnext]
    omega
  · rw [hnext]
    omega
  · rw [hnext]
    omega

theorem inBounds_backspace (h : t.InBounds) (hdrops : Typing.BackspaceDrops t) :
    t.backspace.InBounds := by
  obtain ⟨-, hcases⟩ := backspace_cases h
  have hbounds := h
  obtain ⟨hindex0, hindex, hbuf, hbuf'⟩ := h
  obtain ⟨hrow, hfirst⟩ := hdrops
  rcases hcases with ⟨hstart, hnext, hnext'⟩ | ⟨hinside, hnext, hnext'⟩ | ⟨hfull, hnext, hnext'⟩ |
    ⟨-, hnext⟩
  · have hprev : u16 (t.termBufIndex - 1) = t.termBufIndex - 1 :=
      u16_of_range (by omega) (by omega)
    constructor <;> omega
  · constructor <;> omega
  · split_ifs at hnext' <;> constructor <;> omega
  · rwa [hnext]

/-- The cell that Backspace blanks. -/
theorem backspaceOnPage_iff (h : t.InBounds) : t.BackspaceOnPage ↔
    (t.termIndex % 80 = 0 → t.termIndex ≠ 0 → t.termBufIndex < 127 →
      OnVideoPage (80 * (t.termScreenY - 1) + 79)) ∧
    (t.termIndex % 80 ≠ 0 → 0 < t.termBufIndex →
      OnVideoPage (80 * t.termScreenY + (t.termScreenX - 1))) := by
  obtain ⟨hindex0, hindex, hbuf, hbuf'⟩ := h
  have hroom : bufferSize - 1 = 127 := rfl
  have hblank : ¬ ((0 : UInt8) = newlineChar ∨ (0 : UInt8) = returnChar) := by decide
  have hcols : numCols = 80 := rfl
  have hprev : t.termIndex ≠ 0 → u16 (t.termIndex - 1) = t.termIndex - 1 :=
    fun hne ↦ u16_of_range (by omega) (by omega)
  simp only [BackspaceOnPage, PutcOnPage, hblank, not_false_eq_true, and_true, hroom, hcols]
  split_ifs with hstart hinside hfull
  · rw [hprev hstart.2]
    exact ⟨fun h ↦ ⟨fun _ _ hbuf ↦ h ⟨hbuf, by omega⟩, fun hne ↦ absurd hstart.1 hne⟩,
      fun h hbuf ↦ h.1 hstart.1 hstart.2 hbuf.1⟩
  · exact ⟨fun h ↦ ⟨fun hrow hne ↦ absurd ⟨hrow, hne⟩ hstart, fun _ _ ↦ h ⟨hinside.2.1, by omega⟩⟩,
      fun h _ ↦ h.2 (by omega) hinside.1⟩
  · by_cases hzero : t.termIndex = 0
    · -- the index wraps, and nothing is stored
      have hwrap : u16 (t.termIndex - 1) = 65535 := by
        rw [hzero]
        rfl
      rw [hwrap]
      exact iff_of_true (fun h ↦ absurd h.2 (by norm_num))
        ⟨fun _ hne ↦ absurd hzero hne, fun hne ↦ absurd hzero (by omega)⟩
    · have hless : u16 (t.termBufIndex - 1) = 126 := by
        rw [hfull]
        rfl
      rw [hless, hprev hzero]
      refine ⟨fun h ↦ ⟨fun hrow hne ↦ absurd ⟨hrow, hne⟩ hstart, fun _ _ ↦ ?_⟩,
        fun h _ ↦ h.2 (by omega) (by omega)⟩
      exact h ⟨by norm_num, by omega⟩
  · exact iff_of_true trivial ⟨fun hrow hne ↦ absurd ⟨hrow, hne⟩ hstart, fun hrow hpending ↦
      absurd ⟨hpending, by omega, by omega⟩ hinside⟩

end Terminal

/-! ### One key -/

/-- Behind the initializers of the table there are zeros. -/
theorem scancode_beyond (row : Bool) {c : ℤ} (hbeyond : 55 ≤ c.toNat) : scancode row c = 0 := by
  have hlength : (scancodeRow row).length ≤ c.toNat := by
    cases row <;> exact hbeyond
  rw [scancode, List.getD_eq_getElem?_getD, List.getElem?_eq_none hlength, Option.getD_none]

/-- The keys without a character are the same in both rows. -/
theorem scancode_eq_zero_iff (row row' : Bool) (c : ℤ) :
    scancode row c = 0 ↔ scancode row' c = 0 := by
  have hrows : scancode false c = 0 ↔ scancode true c = 0 := by
    rcases lt_or_ge c.toNat 55 with hinside | hbeyond
    · have hall : ∀ n < 55, (scancodeRow false).getD n 0 = 0 ↔ (scancodeRow true).getD n 0 = 0 := by
        decide
      exact hall c.toNat hinside
    · rw [scancode_beyond false hbeyond, scancode_beyond true hbeyond]
  cases row <;> cases row'
  · exact Iff.rfl
  · exact hrows
  · exact hrows.symm
  · exact Iff.rfl

namespace Keyboard

variable {k : Keyboard} {self c : ℤ}

/-- The character that a key sends to `terminal_putc`. -/
def stored (k : Keyboard) (c : ℤ) : Option UInt8 :=
  if c = lPress ∧ k.ctrlFlag then none
  else if c = spacePressed then some spaceChar
  else if ¬ k.upperFlag ∧ ¬ k.console.enterFlag ∧ ¬ k.altFlag then some (scancode false c)
  else if k.upperFlag then some (scancode true c)
  else none

/-- The flags that no plain key changes. -/
theorem setFlags_plain (hplain : c ∉
      [leftControlPress, leftControlRelease, rightAltPress, rightAltRelease, enterPressed]) :
    (k.setFlags c).console = k.console ∧ (k.setFlags c).altFlag = k.altFlag := by
  have hnot : ∀ code ∈ [leftControlPress, leftControlRelease, rightAltPress, rightAltRelease,
      enterPressed], c ≠ code := fun code hcode h ↦ hplain (h ▸ hcode)
  refine setFlags_cases (P := fun k' ↦ k'.console = k.console ∧ k'.altFlag = k.altFlag) ⟨rfl, rfl⟩
    ⟨rfl, rfl⟩ ⟨rfl, rfl⟩ ⟨rfl, rfl⟩ (fun _ ↦ ⟨rfl, rfl⟩) ?_ ?_ ?_
  · exact fun h ↦ absurd h (hnot _ (by simp))
  · exact fun h ↦ absurd h (hnot _ (by simp))
  · exact fun h ↦ absurd h (hnot _ (by simp))

/-- A release, or a key that the handler leaves out. -/
theorem handle_quiet (hplain : c ∉
      [leftControlPress, leftControlRelease, rightAltPress, rightAltRelease, enterPressed])
    (hstays : k.altFlag = true → c ∉ [f1Press, f2Press, f3Press]) (hquiet : c < 0 ∨ leftOut c) :
    k.handle self c = k.console := by
  have henter : c ≠ enterPressed := fun h ↦ hplain (by simp [h])
  have hcodes : c ≠ lPress ∧ c ≠ backspacePress ∧ c ≠ spacePressed := by
    refine ⟨?_, ?_, ?_⟩ <;> rintro rfl <;> exact absurd hquiet (by decide)
  have hswitch : ∀ code ∈ [f1Press, f2Press, f3Press], ¬ (c = code ∧ k.altFlag = true) :=
    fun code hcode hboth ↦ hstays hboth.2 (hboth.1 ▸ hcode)
  simp only [handle]
  rw [if_neg henter, if_neg (fun h ↦ hcodes.1 h.1), if_neg hcodes.2.1, if_neg hcodes.2.2,
    if_neg (hswitch f1Press (by simp)), if_neg (hswitch f2Press (by simp)),
    if_neg (hswitch f3Press (by simp)), if_neg (fun h ↦ ?_), if_neg (fun h ↦ ?_)]
  · exact hquiet.elim (fun hneg ↦ absurd h.1 (by omega)) h.2.2
  · exact hquiet.elim (fun hneg ↦ absurd h.1 (by omega)) h.2.2

/-- A key that has a character is none of those that have none. -/
theorem nonneg_and_ne_of_other (hother : ¬ (c < 0 ∨ leftOut c)) :
    0 ≤ c ∧ ∀ code : ℤ, code < 0 ∨ leftOut code → c ≠ code := by
  refine ⟨?_, fun code h hsame ↦ hother (hsame ▸ h)⟩
  by_contra hneg
  exact hother (Or.inl (by omega))

/-- A key that is none of these leaves the flags. -/
theorem setFlags_other (hplain : c ∉
      [leftControlPress, leftControlRelease, rightAltPress, rightAltRelease, enterPressed])
    (hother : ¬ (c < 0 ∨ leftOut c)) : k.setFlags c = k := by
  obtain ⟨-, hnames⟩ := nonneg_and_ne_of_other hother
  simp only [List.mem_cons, List.not_mem_nil, or_false, not_or] at hplain
  obtain ⟨hcontrol, hcontrol', halt, halt', henter⟩ := hplain
  rw [setFlags, if_neg (hnames _ (by decide)), if_neg (hnames _ (by decide)),
    if_neg (hnames _ (by decide)), if_neg (hnames _ (by decide)), if_neg (hnames _ (by decide)),
    if_neg hcontrol, if_neg hcontrol', if_neg halt, if_neg halt', if_neg henter]

/-- What the handler does with such a key other than Backspace. -/
theorem handle_other (hother : ¬ (c < 0 ∨ leftOut c)) (hback : c ≠ backspacePress) :
    k.handle self c = match k.stored c with
      | some a => k.console.terminalPutc a false
      | none => if c = lPress ∧ k.ctrlFlag then k.console.terminalClear else k.console := by
  obtain ⟨hnonneg, hnames⟩ := nonneg_and_ne_of_other hother
  have hout : ¬ leftOut c := fun h ↦ hother (Or.inr h)
  have hswitch : ∀ code : ℤ, leftOut code → ¬ (c = code ∧ k.altFlag = true) :=
    fun code h hboth ↦ hnames code (Or.inr h) hboth.1
  simp only [handle, stored, if_neg (hnames enterPressed (by decide)), if_neg hback,
    if_neg (hswitch f1Press (by decide)), if_neg (hswitch f2Press (by decide)),
    if_neg (hswitch f3Press (by decide)), hnonneg, hout, not_false_eq_true, true_and, and_true]
  split_ifs <;> rfl

/-- A release, or a key that the handler leaves out, stores nothing. -/
theorem storesOnPage_quiet (hquiet : c < 0 ∨ leftOut c) : k.StoresOnPage c := by
  have hcodes : c ≠ backspacePress ∧ c ≠ spacePressed := by
    refine ⟨?_, ?_⟩ <;> rintro rfl <;> exact absurd hquiet (by decide)
  have hno : ¬ (0 ≤ c ∧ ¬ leftOut c) := fun h ↦ hquiet.elim (fun hneg ↦ by omega) h.2
  rw [StoresOnPage, if_neg hcodes.1, if_neg hcodes.2, if_neg fun h ↦ hno ⟨h.1, h.2.2⟩,
    if_neg fun h ↦ hno ⟨h.1, h.2.2⟩]
  trivial

/-- Another key than Backspace stores the character that it sends to `terminal_putc`. -/
theorem storesOnPage_other (hother : ¬ (c < 0 ∨ leftOut c)) (hback : c ≠ backspacePress) :
    k.StoresOnPage c ↔ ∀ a ∈ k.stored c, k.console.displayed.PutcOnPage a := by
  obtain ⟨hnonneg, -⟩ := nonneg_and_ne_of_other hother
  have hout : ¬ leftOut c := fun h ↦ hother (Or.inr h)
  have hletter : c = lPress → c ≠ spacePressed := by
    rintro rfl
    decide
  simp only [StoresOnPage, stored, if_neg hback, hnonneg, hout, not_false_eq_true, true_and,
    and_true]
  split_ifs <;> simp_all

/-- No key but Enter sends the end of a line. -/
theorem stored_not_line (hother : ¬ (c < 0 ∨ leftOut c)) {a : UInt8} (ha : a ∈ k.stored c) :
    ¬ (a = newlineChar ∨ a = returnChar) := by
  obtain ⟨hnonneg, hnames⟩ := nonneg_and_ne_of_other hother
  have hrow : ∀ row, ¬ (scancode row c = newlineChar ∨ scancode row c = returnChar) := by
    intro row hline
    have hall : ∀ row, ∀ n < 55, (scancodeRow row).getD n 0 = newlineChar ∨
        (scancodeRow row).getD n 0 = returnChar → n = 28 := by decide
    have hlow : c.toNat < 55 := by
      by_contra hhigh
      rw [scancode_beyond row (by omega)] at hline
      exact absurd hline (by decide)
    have henter : c ≠ 28 := hnames enterPressed (by decide)
    have := hall row c.toNat hlow hline
    omega
  rw [stored, Option.mem_def] at ha
  split_ifs at ha
  · rw [← Option.some.inj ha]
    decide
  · rw [← Option.some.inj ha]
    exact hrow false
  · rw [← Option.some.inj ha]
    exact hrow true

end Keyboard

namespace LineEditor

variable {e : LineEditor} {c : ℤ}

theorem press_quiet (henter : c ≠ enterPressed) (hquiet : c < 0 ∨ leftOut c) :
    (e.press c).line = e.line := by
  have hback : c ≠ backspacePress := by
    rintro rfl
    exact absurd hquiet (by decide)
  have hchar : ¬ (c ≥ 0 ∧ keyChar e.upper c ≠ 0 ∧ e.line.length < 127) := by
    rintro ⟨hnonneg, hchar, -⟩
    have hout := hquiet.resolve_left (by omega)
    have hnone : ∀ row, ∀ code ∈ [capslockPress, leftShiftPress, rightShiftPress, leftControlPress,
        rightAltPress, f1Press, f2Press, f3Press], keyChar row code = 0 := by
      decide
    refine hchar (hnone _ c ?_)
    simp only [leftOut, List.mem_cons, List.not_mem_nil, or_false] at hout ⊢
    tauto
  simp only [press, if_neg hback, if_neg hchar]
  split_ifs <;> rfl

theorem press_other (hother : ¬ (c < 0 ∨ leftOut c)) (hback : c ≠ backspacePress) :
    (e.press c).line = if keyChar e.upper c ≠ 0 ∧ e.line.length < 127 then
      e.line ++ [keyChar e.upper c] else e.line := by
  obtain ⟨hnonneg, hnames⟩ := Keyboard.nonneg_and_ne_of_other hother
  simp only [press, if_neg (hnames capslockPress (by decide)),
    if_neg (hnames leftShiftPress (by decide)), if_neg (hnames leftShiftRelease (by decide)),
    if_neg (hnames rightShiftPress (by decide)), if_neg (hnames rightShiftRelease (by decide)),
    if_neg hback, hnonneg, true_and]
  split_ifs <;> rfl

end LineEditor

namespace Typing

variable {altFlag : Bool} {n : Typing}

/-- The states that the keys lead through while they suit. -/
structure Fine (altFlag : Bool) (n : Typing) : Prop where
  sameLine : n.SameLine
  bounds : n.terminal.InBounds
  alt : n.keyboard.altFlag = altFlag

/-- What becomes of the pending line for a key with a code of its own. -/
theorem pending_handle_other {k : Keyboard} (self : ℤ) {c : ℤ} (h : k.console.displayed.InBounds)
    (hother : ¬ (c < 0 ∨ leftOut c)) (hback : c ≠ backspacePress) :
    (k.handle self c).displayed.InBounds ∧ (k.handle self c).displayed.pending =
      k.console.displayed.pending ++
        if k.console.displayed.termBufIndex < 127 ∧ k.console.displayed.termIndex < 2000 then
          (k.stored c).toList
        else [] := by
  rw [Keyboard.handle_other hother hback]
  cases hstored : k.stored c with
  | none =>
    simp only [Option.toList_none, ite_self, List.append_nil]
    split_ifs
    · rw [displayed_terminalClear]
      exact ⟨⟨le_rfl, by norm_num, h.buf_nonneg, h.buf_le⟩, rfl⟩
    · exact ⟨h, rfl⟩
  | some a =>
    simp only [displayed_terminalPutc, Option.toList_some]
    split_ifs with hroom
    · exact (Terminal.pending_putc_room h hroom.1 hroom.2 a).symm
    · have hfull : k.console.displayed.termBufIndex = 127 ∨
          k.console.displayed.termIndex = 2000 := by
        have := h.buf_le
        have := h.index_le
        omega
      rw [List.append_nil]
      exact (Terminal.pending_putc_full h hfull a).symm

/-- With room for a character the key suits if and only if it sends the character of the editor to
`terminal_putc`. -/
theorem keySuits_iff_stored {c : ℤ} (hother : ¬ (c < 0 ∨ leftOut c)) (hback : c ≠ backspacePress)
    (hroom : n.terminal.termBufIndex ≠ 127) (hindex : n.terminal.termIndex < 2000) :
    n.KeySuits c ↔ n.keyboard.stored c =
      if keyChar n.editor.upper c = 0 then none else some (keyChar n.editor.upper c) := by
  rw [KeySuits, if_neg hother, if_neg hback, if_neg hroom]
  by_cases hspace : c = spacePressed
  · have hletter : ¬ (c = lPress ∧ n.keyboard.ctrlFlag = true) := by
      rintro ⟨rfl, -⟩
      exact absurd hspace (by decide)
    rw [if_pos hspace, Keyboard.stored, if_neg hletter, if_pos hspace, keyChar, if_pos hspace,
      if_neg (by decide)]
    exact iff_of_true hindex rfl
  · rw [if_neg hspace, keyChar, if_neg hspace, Keyboard.stored, if_neg hspace]
    by_cases hzero : scancode false c = 0
    · -- no character: nothing may be sent
      have hletter : ¬ (c = lPress ∧ n.keyboard.ctrlFlag = true) := by
        rintro ⟨rfl, -⟩
        exact absurd hzero (by decide)
      have hindex' : n.terminal.termIndex ≠ 2000 := by omega
      rw [if_pos hzero, if_neg hletter, if_pos ((scancode_eq_zero_iff false _ c).mp hzero)]
      cases n.keyboard.upperFlag <;> cases n.keyboard.console.enterFlag <;>
        cases n.keyboard.altFlag <;> simp [hindex']
    · have hchar : scancode n.editor.upper c ≠ 0 := fun h ↦
        hzero ((scancode_eq_zero_iff _ false c).mp h)
      rw [if_neg hzero, if_neg hchar]
      by_cases hletter : c = lPress ∧ n.keyboard.ctrlFlag = true
      · rw [if_pos hletter]
        simp [hletter]
      · rw [if_neg hletter]
        have hsame : scancode true c = scancode false c ↔ scancode false c = scancode true c :=
          eq_comm
        cases n.keyboard.upperFlag <;> cases n.keyboard.console.enterFlag <;>
          cases n.keyboard.altFlag <;> cases n.editor.upper <;> simp [hindex, hletter, hsame]

/-- Behind the last cell of the screen a character is dropped. -/
theorem keySuits_iff_offscreen {c : ℤ} (hother : ¬ (c < 0 ∨ leftOut c)) (hback : c ≠ backspacePress)
    (hroom : n.terminal.termBufIndex ≠ 127) (hindex : n.terminal.termIndex = 2000) :
    n.KeySuits c ↔ keyChar n.editor.upper c = 0 := by
  rw [KeySuits, if_neg hother, if_neg hback, if_neg hroom, hindex, keyChar]
  by_cases hspace : c = spacePressed
  · rw [if_pos hspace, if_pos hspace]
    decide
  · have hrow := scancode_eq_zero_iff n.editor.upper false c
    rw [if_neg hspace, if_neg hspace]
    by_cases hzero : scancode false c = 0
    · rw [if_pos hzero]
      exact iff_of_true (Or.inl rfl) (hrow.mpr hzero)
    · rw [if_neg hzero]
      exact iff_of_false (fun h ↦ absurd h.1 (lt_irrefl _)) (mt hrow.mp hzero)

/-- A release, a modifier or a function key leaves the line as it is, and so does the editor. -/
theorem step_quiet (h : n.Fine altFlag) {key : PlainKey altFlag}
    (hquiet : key.code < 0 ∨ leftOut key.code) :
    (n.step key).terminal = n.terminal ∧ (n.step key).editor.line = n.editor.line := by
  obtain ⟨hconsole, halt⟩ := Keyboard.setFlags_plain (k := n.keyboard) key.plain
  have henter : key.code ≠ enterPressed := fun h ↦ key.plain (by
    rw [← PlainKey.code, h]
    simp)
  have hhandle : (n.step key).keyboard.console = n.keyboard.console := by
    refine (Keyboard.handle_quiet (k := n.keyboard.setFlags key.code) key.plain ?_ hquiet).trans
      hconsole
    exact fun hset ↦ key.stays (h.alt ▸ halt ▸ hset)
  exact ⟨by rw [terminal, hhandle, terminal], LineEditor.press_quiet henter hquiet⟩

/-- The other keys change no flags. -/
theorem step_terminal {key : PlainKey altFlag} (hloud : ¬ (key.code < 0 ∨ leftOut key.code)) :
    (n.step key).terminal = (n.keyboard.handle key.self key.code).displayed := by
  have hflags : n.keyboard.setFlags key.code = n.keyboard := Keyboard.setFlags_other key.plain hloud
  change ((n.keyboard.setFlags key.code).handle key.self key.code).displayed = _
  rw [hflags]

theorem step_backspace {key : PlainKey altFlag} (hback : key.code = backspacePress) :
    (n.step key).terminal = n.terminal.backspace := by
  have hloud : ¬ (key.code < 0 ∨ leftOut key.code) := by
    rw [hback]
    decide
  rw [step_terminal hloud, hback]
  exact displayed_cursorBackspace n.keyboard.console

/-- A key with a code of its own appends what the editor appends exactly if it suits. -/
theorem sameLine_other_iff (h : n.Fine altFlag) {key : PlainKey altFlag}
    (hloud : ¬ (key.code < 0 ∨ leftOut key.code)) (hback : key.code ≠ backspacePress) :
    ((n.step key).SameLine ↔ n.KeySuits key.code) ∧ (n.step key).terminal.InBounds := by
  obtain ⟨hline, hbounds, -⟩ := h
  obtain ⟨hnext, hpending⟩ := pending_handle_other key.self hbounds hloud hback
  have hpress : (n.step key).editor.line = _ := LineEditor.press_other hloud hback
  have hlength : (n.editor.line.length : ℤ) = n.terminal.termBufIndex := by
    rw [← hline, Terminal.length_pending hbounds]
  rw [← step_terminal hloud] at hnext hpending
  refine ⟨?_, hnext⟩
  rw [SameLine, hpending, hpress]
  change n.terminal.pending ++ (if n.terminal.termBufIndex < 127 ∧ n.terminal.termIndex < 2000
    then _ else _) = _ ↔ _
  rw [hline]
  by_cases hfull : n.terminal.termBufIndex = 127
  · rw [if_neg (by omega), if_neg (by omega), List.append_nil, KeySuits, if_neg hloud,
      if_neg hback, if_pos hfull]
    exact iff_of_true rfl trivial
  · have hroom : n.editor.line.length < 127 := by
      have := hbounds.buf_le
      omega
    simp only [hroom, and_true]
    by_cases hindex : n.terminal.termIndex < 2000
    · rw [if_pos ⟨by omega, hindex⟩, keySuits_iff_stored hloud hback hfull hindex]
      cases n.keyboard.stored key.code <;> split_ifs <;> simp_all
    · rw [if_neg (fun h ↦ hindex h.2), List.append_nil,
        keySuits_iff_offscreen hloud hback hfull (by have := hbounds.index_le; omega)]
      split_ifs <;> simp_all

/-- A key does to the pending line what the editor does with it exactly if it suits. -/
theorem sameLine_step_iff (h : n.Fine altFlag) (key : PlainKey altFlag) :
    ((n.step key).SameLine ↔ n.KeySuits key.code) ∧
      (n.KeySuits key.code → (n.step key).terminal.InBounds) := by
  by_cases hquiet : key.code < 0 ∨ leftOut key.code
  · obtain ⟨hterminal, hpress⟩ := step_quiet h hquiet
    rw [SameLine, hterminal, hpress, KeySuits, if_pos hquiet]
    exact ⟨iff_of_true h.sameLine trivial, fun _ ↦ h.bounds⟩
  by_cases hback : key.code = backspacePress
  · have hpress : (n.step key).editor.line = n.editor.line.dropLast := by
      rw [step, hback]
      rfl
    rw [SameLine, step_backspace hback, hpress, ← h.sameLine, KeySuits, if_neg hquiet, if_pos hback]
    exact ⟨Terminal.pending_backspace_iff h.bounds, Terminal.inBounds_backspace h.bounds⟩
  · obtain ⟨hiff, hnext⟩ := sameLine_other_iff h hquiet hback
    exact ⟨hiff, fun _ ↦ hnext⟩

theorem altFlag_step (n : Typing) (key : PlainKey altFlag) :
    (n.step key).keyboard.altFlag = n.keyboard.altFlag :=
  (Keyboard.setFlags_plain (k := n.keyboard) key.plain).2

theorem Fine.step (h : n.Fine altFlag) {key : PlainKey altFlag} (hsuits : n.KeySuits key.code) :
    (n.step key).Fine altFlag := by
  obtain ⟨hiff, hnext⟩ := sameLine_step_iff h key
  exact ⟨hiff.mpr hsuits, hnext hsuits, (n.altFlag_step key).trans h.alt⟩

/-! ### The stores of one key -/

/-- The keys that suit store what the editor appends. -/
theorem storesOnPage_other_iff (h : n.terminal.InBounds) {c : ℤ} (hother : ¬ (c < 0 ∨ leftOut c))
    (hback : c ≠ backspacePress) (hsuits : n.KeySuits c) :
    n.keyboard.StoresOnPage c ↔ n.KeyReaches c := by
  rw [Keyboard.storesOnPage_other hother hback, KeyReaches, if_neg hother, if_neg hback]
  have hbuf := h.buf_le
  have hchar : keyChar n.editor.upper c = 0 ↔ keyChar false c = 0 := by
    rw [keyChar, keyChar]
    split_ifs
    · exact Iff.rfl
    · exact scancode_eq_zero_iff _ _ c
  by_cases hfull : n.terminal.termBufIndex = 127
  · refine iff_of_true (fun a _ hroom ↦ ?_) fun _ hroom ↦ by omega
    exact absurd (hfull ▸ hroom.1 : (127 : ℤ) < bufferSize - 1) (by decide)
  · have hroom : n.terminal.termBufIndex < bufferSize - 1 := by
      unfold bufferSize
      omega
    by_cases hindex : n.terminal.termIndex < 2000
    · have hstored := (keySuits_iff_stored hother hback hfull hindex).mp hsuits
      by_cases hzero : keyChar n.editor.upper c = 0
      · rw [hstored, if_pos hzero]
        exact iff_of_true (fun _ ha ↦ by cases ha) fun hne ↦ absurd (hchar.mp hzero) hne
      · rw [if_neg hzero] at hstored
        have hline := Keyboard.stored_not_line hother hstored
        constructor
        · exact fun hpage _ _ ↦ hpage _ hstored ⟨hroom, hindex, hline⟩
        · exact fun hpage _ _ _ ↦ hpage (mt hchar.mpr hzero) (by omega)
    · -- behind the last cell nothing is stored
      have hzero := (keySuits_iff_offscreen hother hback hfull
        (by have := h.index_le; omega)).mp hsuits
      exact iff_of_true (fun _ _ hroom' ↦ absurd hroom'.2.1 hindex)
        fun hne ↦ absurd (hchar.mp hzero) hne

theorem returns_iff_storesOnPage (n : Typing) (key : PlainKey altFlag) :
    n.Returns key ↔ (n.keyboard.setFlags key.code).StoresOnPage key.code := by
  rw [Returns, Keyboard.keyboardHandlerChecked_eq]
  exact check_eq_ok_iff _

/-- The handler returns from a key that suits exactly if its store is to the video page. -/
theorem returns_iff (h : n.Fine altFlag) {key : PlainKey altFlag} (hsuits : n.KeySuits key.code) :
    n.Returns key ↔ n.KeyReaches key.code := by
  rw [returns_iff_storesOnPage]
  by_cases hquiet : key.code < 0 ∨ leftOut key.code
  · rw [KeyReaches, if_pos hquiet]
    exact iff_of_true (Keyboard.storesOnPage_quiet hquiet) trivial
  have hflags : n.keyboard.setFlags key.code = n.keyboard :=
    Keyboard.setFlags_other key.plain hquiet
  rw [hflags]
  by_cases hback : key.code = backspacePress
  · rw [Keyboard.StoresOnPage, if_pos hback, KeyReaches, if_neg hquiet, if_pos hback]
    exact Terminal.backspaceOnPage_iff h.bounds
  · exact storesOnPage_other_iff h.bounds hquiet hback hsuits

/-- On a terminal whose counters belong together, all stores are to the screen. -/
theorem keyReaches_of_consistent (h : n.terminal.Consistent) (c : ℤ) : n.KeyReaches c := by
  obtain ⟨hx, hx', hy, hy', hindex, -, -⟩ := h
  unfold KeyReaches OnVideoPage fourKB
  split_ifs
  · exact ⟨fun _ _ _ ↦ by omega, fun _ _ ↦ by omega⟩
  · exact fun _ _ ↦ by omega

/-- All keys but Backspace keep the counters together, and so does Backspace where it fits. -/
theorem consistent_step (h : n.Fine altFlag) (hconsistent : n.terminal.Consistent)
    {key : PlainKey altFlag} (hfits : key.code = backspacePress → n.terminal.BackspaceFits) :
    (n.step key).terminal.Consistent := by
  by_cases hquiet : key.code < 0 ∨ leftOut key.code
  · rwa [(step_quiet h hquiet).1]
  by_cases hback : key.code = backspacePress
  · rw [step_backspace hback]
    exact (consistent_backspace_iff hconsistent).mpr (hfits hback)
  · rw [step_terminal hquiet, Keyboard.handle_other hquiet hback]
    cases hstored : n.keyboard.stored key.code with
    | none =>
      dsimp only
      split_ifs
      · exact consistent_terminalClear hconsistent
      · exact hconsistent
    | some a =>
      obtain ⟨hnewline, hreturn⟩ := not_or.mp (Keyboard.stored_not_line hquiet hstored)
      exact consistent_terminalPutc hconsistent hnewline hreturn

end Typing

section Runs

variable (k : Keyboard) (caps heldLeft heldRight : Bool)

/-- A keyboard in any state, and an editor that starts with the pending line. -/
def Typing.start : Typing := ⟨k, ⟨k.console.displayed.pending, caps, heldLeft, heldRight⟩⟩

variable {k caps heldLeft heldRight} {keys : List (PlainKey k.altFlag)}

theorem fine_start (hbounds : k.console.displayed.InBounds) :
    (Typing.start k caps heldLeft heldRight).Fine k.altFlag := ⟨rfl, hbounds, rfl⟩

/-- The keys that suit lead through fine states. -/
theorem fine_run (hbounds : k.console.displayed.InBounds)
    (hsuits : EveryStep Typing.step (fun n key ↦ n.KeySuits key.code)
      (Typing.start k caps heldLeft heldRight) keys) :
    EveryState Typing.step (Typing.Fine k.altFlag) (Typing.start k caps heldLeft heldRight) keys :=
  everyState_of_everyStep (fun _ _ h hsuits ↦ h.step hsuits) (fine_start hbounds) hsuits

/-- The line is that of the editor after all keys exactly if all keys suit. -/
theorem sameLine_run_iff (hbounds : k.console.displayed.InBounds) :
    EveryState Typing.step Typing.SameLine (Typing.start k caps heldLeft heldRight) keys ↔
      EveryStep Typing.step (fun n key ↦ n.KeySuits key.code)
        (Typing.start k caps heldLeft heldRight) keys := by
  have hbreak : ∀ (n : Typing) (key : PlainKey k.altFlag), n.Fine k.altFlag →
      (n.step key).SameLine → n.KeySuits key.code :=
    fun _ key h ↦ (Typing.sameLine_step_iff h key).1.mp
  exact everyState_iff_everyStep_of_inv (fun _ h ↦ h.sameLine) (fun _ _ h hsuits ↦ h.step hsuits)
    hbreak (fine_start hbounds)

end Runs

/-- From a keyboard in any state on, and for an editor that starts with the pending line, the
handler returns from all keys and the line is that of the editor after each of them, exactly if
every key suits the state in which it comes and stores to the video page if it stores at all. -/
theorem typedLine_exact (k : Keyboard) (hbounds : k.console.displayed.InBounds)
    (caps heldLeft heldRight : Bool) (keys : List (PlainKey k.altFlag)) :
    EveryStep Typing.step Typing.Returns (Typing.start k caps heldLeft heldRight) keys ∧
        EveryState Typing.step Typing.SameLine (Typing.start k caps heldLeft heldRight) keys ↔
      EveryStep Typing.step (fun n key ↦ n.KeyReaches key.code ∧ n.KeySuits key.code)
        (Typing.start k caps heldLeft heldRight) keys := by
  rw [sameLine_run_iff hbounds, everyStep_and]
  refine and_congr_left fun hsuits ↦ ?_
  have hagree : ∀ (n : Typing) (key : PlainKey k.altFlag), n.Fine k.altFlag →
      (n.Returns key ∧ n.KeySuits key.code ↔ n.KeyReaches key.code ∧ n.KeySuits key.code) :=
    fun _ _ h ↦ and_congr_left fun hsuits ↦ Typing.returns_iff h hsuits
  have hboth := (fine_run hbounds hsuits).everyStep_congr hagree
  rw [everyStep_and, everyStep_and] at hboth
  exact ⟨fun hreturns ↦ (hboth.mp ⟨hreturns, hsuits⟩).1, fun hpage ↦ (hboth.mpr ⟨hpage, hsuits⟩).1⟩

/-- On a terminal whose counters belong together at first, it is enough that all keys suit and that
Backspace keeps the counters together. -/
theorem typedLine_of_consistent {k : Keyboard} (hconsistent : k.console.displayed.Consistent)
    {caps heldLeft heldRight : Bool} {keys : List (PlainKey k.altFlag)}
    (hgood : EveryStep Typing.step (fun n key ↦ n.KeySuits key.code ∧
        (key.code = backspacePress → n.terminal.BackspaceFits))
      (Typing.start k caps heldLeft heldRight) keys) :
    EveryStep Typing.step Typing.Returns (Typing.start k caps heldLeft heldRight) keys ∧
      EveryState Typing.step Typing.SameLine (Typing.start k caps heldLeft heldRight) keys := by
  have hbounds : k.console.displayed.InBounds := by
    obtain ⟨hx, hx', hy, hy', hindex, hbuf, hbuf'⟩ := hconsistent
    constructor <;> omega
  have hkeep : ∀ (n : Typing) (key : PlainKey k.altFlag),
      n.Fine k.altFlag ∧ n.terminal.Consistent → n.KeySuits key.code ∧
        (key.code = backspacePress → n.terminal.BackspaceFits) →
      (n.step key).Fine k.altFlag ∧ (n.step key).terminal.Consistent :=
    fun _ _ h hgood ↦ ⟨h.1.step hgood.1, Typing.consistent_step h.1 h.2 hgood.2⟩
  have hstates := everyState_of_everyStep hkeep ⟨fine_start hbounds, hconsistent⟩ hgood
  have hagree : ∀ (n : Typing) (key : PlainKey k.altFlag),
      n.Fine k.altFlag ∧ n.terminal.Consistent → (n.KeySuits key.code ∧
        (key.code = backspacePress → n.terminal.BackspaceFits) ↔
      n.Returns key ∧ n.KeySuits key.code ∧
        (key.code = backspacePress → n.terminal.BackspaceFits)) := by
    intro n key h
    refine (and_iff_right_of_imp fun hgood ↦ ?_).symm
    exact (Typing.returns_iff h.1 hgood.1).mpr (Typing.keyReaches_of_consistent h.2 key.code)
  have hall := (hstates.everyStep_congr hagree).mp hgood
  rw [everyStep_and, everyStep_and] at hall
  exact ⟨hall.1, (sameLine_run_iff hbounds).mpr hall.2.1⟩

/-- Nothing is typed yet, and no flag is set. -/
def quietKeyboard : Keyboard := ⟨clearedConsole, false, false, false, false, false⟩

/-- The left shift key, as it is pressed and as it repeats. -/
def leftShiftKey : PlainKey false := ⟨0, 0x2A, by decide, by decide⟩

/-- The key of the letter `a`. -/
def letterKey : PlainKey false := ⟨0, 0x1E, by decide, by decide⟩

theorem clearedConsole_inBounds : clearedConsole.displayed.InBounds := by
  constructor <;> decide

/-- The exact condition, for a letter with the shift key. -/
theorem typedLine_exact_shift :
    EveryStep Typing.step Typing.Returns (Typing.start quietKeyboard false false false)
          [leftShiftKey, letterKey] ∧
        EveryState Typing.step Typing.SameLine (Typing.start quietKeyboard false false false)
          [leftShiftKey, letterKey] ↔
      EveryStep Typing.step (fun n key ↦ n.KeyReaches key.code ∧ n.KeySuits key.code)
        (Typing.start quietKeyboard false false false) [leftShiftKey, letterKey] :=
  typedLine_exact quietKeyboard clearedConsole_inBounds false false false [leftShiftKey, letterKey]

/-- The shift key repeats while it is held: the letter comes from the lower row. -/
theorem typedLine_not_always : ¬ ∀ (k : Keyboard) (caps heldLeft heldRight : Bool)
    (keys : List (PlainKey k.altFlag)), k.console.displayed.InBounds →
      EveryStep Typing.step Typing.Returns (Typing.start k caps heldLeft heldRight) keys ∧
        EveryState Typing.step Typing.SameLine (Typing.start k caps heldLeft heldRight) keys := by
  intro hall
  obtain ⟨-, hlines⟩ := hall quietKeyboard false false false
    [leftShiftKey, leftShiftKey, letterKey] clearedConsole_inBounds
  have hlast : (run Typing.step _ _).terminal.pending = _ := hlines.last
  exact absurd hlast (by decide)

/-- The Backspace key. -/
def backspaceKey : PlainKey false := ⟨0, 0x0E, by decide, by decide⟩

/-- The buffer is full, and the cursor is in column 1 of the last row. -/
def fullKeyboard : Keyboard :=
  { quietKeyboard with
    console := clearedConsole.setDisplayed
      { clearedConsole.displayed with
        termIndex := 1921
        termBufIndex := 127
        termScreenX := 1
        termScreenY := 24 } }

/-- Backspace takes the cursor to column -1 behind the last row, from where a letter takes it to the
first cell; the next Backspace stores to the bytes before the video page. -/
theorem typedLine_faults : ¬ EveryStep Typing.step Typing.Returns
    (Typing.start fullKeyboard false false false) [backspaceKey, letterKey, backspaceKey] := by
  rintro ⟨-, -, hlast, -⟩
  exact absurd ((Typing.returns_iff_storesOnPage _ _).mp hlast) (by decide)

end Sp18.Kernel
