import Sp18.Kernel.TerminalRead
import Sp18.Kernel.TypedLine
import Sp18.Kernel.Writing

/-!
# Reading the lines that are typed

A process on the displayed terminal reads and writes, and each of its reads waits while a line is
typed. `terminal_read` copies the line out of the buffer and leaves it there: only `terminal_write`
clears the buffer. A read therefore delivers its line exactly if nothing is pending when it begins,
and if the cursor is not behind the last cell of the screen, where the first character would be
dropped (`lineReading_exact`).
-/

set_option autoImplicit false
set_option relaxedAutoImplicit false

namespace Sp18.Kernel

open Foundation

/-- A line of at most 126 printable characters. -/
structure TypedText where
  bytes : List UInt8
  length_le : bytes.length ≤ 126
  printable : ∀ c ∈ bytes, 32 ≤ c ∧ c ≤ 126

theorem typedText_plain (line : TypedText) :
    ∀ c ∈ line.bytes, c ≠ newlineChar ∧ c ≠ returnChar := by
  intro c hc
  obtain ⟨hlow, -⟩ := line.printable c hc
  constructor <;> rintro rfl <;> exact absurd hlow (by decide)

/-- What the process does: it writes, or it reads with room for a full buffer while a line and Enter
are typed. `self` is the process that Enter interrupts. -/
inductive LineEvent where
  | write (fd : ℤ) (buf : ℤ → UInt8) (nbytes : ℤ)
  | readLine (self : ℤ) (line : TypedText) (nbytes : ℤ) (hroom : 128 ≤ nbytes)

/-- The characters are typed one after the other. -/
def Console.typeLine (s : Console) (line : List UInt8) : Console :=
  line.foldl (fun s c ↦ s.terminalPutc c false) s

namespace Input

/-- `terminal_write` by the process at `reader`. -/
def write (s : Input) (reader fd : ℤ) (buf : ℤ → UInt8) (nbytes : ℤ) : Input :=
  { s with console := (s.console.terminalWrite reader (s.onTerm reader) fd buf nbytes).2 }

/-- A call of `terminal_read` that begins before the line is typed and polls after Enter. No other
process that waits in `terminal_read` is taken to poll in between: the three flags belong to all
terminals, and the first process that finds one of them set takes the line. -/
def readLine (s : Input) (reader self : ℤ) (line : List UInt8) (nbytes : ℤ) :
    Input × Option ReadResult :=
  let s := s.beginRead reader 0 nbytes
  let s := { s with console := s.console.typeLine line }
  (s.enter self).pollPass reader

/-- The state after the process at `reader` has done something. -/
def lineStep (reader : ℤ) (s : Input) : LineEvent → Input
  | .write fd buf nbytes => s.write reader fd buf nbytes
  | .readLine self line nbytes _ => (s.readLine reader self line.bytes nbytes).1

/-- The read returns the length of the line with its newline, and delivers just these characters. -/
def DeliversLine (reader : ℤ) (s : Input) : LineEvent → Prop
  | .write _ _ _ => True
  | .readLine self line nbytes _ =>
    ∃ result, (s.readLine reader self line.bytes nbytes).2 = some result ∧
      result.value = line.bytes.length + 1 ∧
      result.bytes.take (line.bytes.length + 1) = line.bytes ++ [newlineChar]

/-- Nothing is pending when the read begins, and there is a cell for the first character. -/
def ReadSuits (s : Input) : LineEvent → Prop
  | .write _ _ _ => True
  | .readLine _ line _ _ => s.console.displayed.termBufIndex = 0 ∧
      (line.bytes = [] ∨ s.console.displayed.termIndex < 2000)

end Input

/-! ### Typing a line -/

/-- The states that typing, reading and writing lead through. The cursor may wait behind a row, and
behind the last row only when nothing is pending. -/
structure Terminal.Ready (t : Terminal) : Prop extends t.InBounds where
  x_nonneg : 0 ≤ t.termScreenX
  x_le : t.termScreenX ≤ 80
  y_nonneg : 0 ≤ t.termScreenY
  y_le : t.termScreenY ≤ 24
  row_le : 80 * t.termScreenY ≤ t.termIndex
  behind : t.termIndex = 2000 → t.termBufIndex = 0

namespace Terminal

variable {t : Terminal}

/-- The characters are typed one after the other. -/
def typed (t : Terminal) (line : List UInt8) : Terminal := line.foldl (fun t c ↦ t.putc c false) t

/-- After a character the cursor is in front of a cell of the screen. -/
theorem termIndex_putc_lt (t : Terminal) (c : UInt8) : (t.putc c false).termIndex < 2000 := by
  simp only [putc]
  split_ifs with hroom hbelow hbelow
  · norm_num
  · omega
  · norm_num
  · omega

/-- The coordinates after a printable character. -/
theorem advance_cursor (h : t.Ready) (hindex : t.termIndex < 2000) {c : UInt8}
    (hnewline : c ≠ newlineChar) (hreturn : c ≠ returnChar) :
    0 ≤ (t.advance c false).termScreenX ∧ (t.advance c false).termScreenX ≤ 80 ∧
      0 ≤ (t.advance c false).termScreenY ∧
      80 * (t.advance c false).termScreenY ≤ (t.advance c false).termIndex := by
  obtain ⟨⟨hindex0, -, -, -⟩, hx0, hx, hy0, hy, hrow, -⟩ := h
  have hnext : u16 (t.termIndex + 1) = t.termIndex + 1 := u16_of_range (by omega) (by omega)
  have hend : ¬ (c = newlineChar ∨ c = returnChar) := not_or.mpr ⟨hnewline, hreturn⟩
  simp only [advance, Bool.false_eq_true, if_false, if_neg hend, hnext]
  split_ifs with hstart
  · dsimp only
    omega
  · have hcolumn : -1 ≤ t.termScreenX := by omega
    simp only [nextColumn hcolumn, sameRow t.termScreenX hy0 (by omega)]
    omega

theorem ready_putc (h : t.Ready) {c : UInt8} (hnewline : c ≠ newlineChar)
    (hreturn : c ≠ returnChar) :
    (t.putc c false).Ready := by
  have hlt := termIndex_putc_lt t c
  by_cases hroom : t.termBufIndex < 127 ∧ t.termIndex < 2000
  · obtain ⟨-, hbounds⟩ := pending_putc_room h.toInBounds hroom.1 hroom.2 c
    obtain ⟨hx0, hx, hy0, hrow⟩ := advance_cursor h hroom.2 hnewline hreturn
    rw [putc_of_room t c false hroom.1 hroom.2] at hbounds hlt ⊢
    split_ifs at hbounds hlt ⊢
    · refine ⟨hbounds, ?_, ?_, ?_, ?_, ?_, ?_⟩ <;> norm_num
    · exact ⟨hbounds, hx0, hx, hy0, by omega, hrow, fun hbehind ↦ absurd hbehind hlt.ne⟩
  · have hfull : t.termBufIndex = 127 ∨ t.termIndex = 2000 := by
      have := h.buf_le
      have := h.index_le
      omega
    obtain ⟨-, hbounds⟩ := pending_putc_full h.toInBounds hfull c
    have hput : ¬ (t.termBufIndex < bufferSize - 1 ∧ t.termIndex < 2000) := hroom
    simp only [putc, if_neg hput] at hbounds hlt ⊢
    split_ifs at hbounds hlt ⊢
    · refine ⟨hbounds, ?_, ?_, ?_, ?_, ?_, ?_⟩ <;> norm_num
    · exact h

theorem termBufIndex_putc (h : t.InBounds) (hindex : t.termIndex < 2000) (c : UInt8) :
    (t.putc c false).InBounds ∧ (t.putc c false).termBufIndex = min 127 (t.termBufIndex + 1) := by
  have hle := h.buf_le
  by_cases hroom : t.termBufIndex < 127
  · obtain ⟨hpending, hbounds⟩ := pending_putc_room h hroom hindex c
    refine ⟨hbounds, ?_⟩
    rw [← length_pending hbounds, hpending, List.length_append, Nat.cast_add, length_pending h,
      List.length_singleton, Nat.cast_one]
    omega
  · obtain ⟨hpending, hbounds⟩ := pending_putc_full h (Or.inl (by omega)) c
    refine ⟨hbounds, ?_⟩
    rw [← length_pending hbounds, hpending, length_pending h]
    omega

/-- How many characters are pending after a line that starts in front of a cell of the screen. -/
theorem termBufIndex_typed (h : t.InBounds) (hindex : t.termIndex < 2000) (line : List UInt8) :
    (t.typed line).termBufIndex = min 127 (t.termBufIndex + line.length) := by
  induction line generalizing t with
  | nil =>
    have := h.buf_le
    simp only [typed, List.foldl_nil, List.length_nil]
    omega
  | cons c line ih =>
    obtain ⟨hbounds, hnext⟩ := termBufIndex_putc h hindex c
    have hrest := ih hbounds (termIndex_putc_lt t c)
    rw [typed, List.foldl_cons, ← typed, hrest, hnext, List.length_cons]
    push_cast
    omega

/-- A line for which there is room is pending once it is typed. -/
theorem pending_typed (h : t.InBounds) (hindex : t.termIndex < 2000) {line : List UInt8}
    (hroom : t.termBufIndex + line.length ≤ 127) : (t.typed line).pending = t.pending ++ line := by
  induction line generalizing t with
  | nil => rw [typed, List.foldl_nil, List.append_nil]
  | cons c line ih =>
    rw [List.length_cons] at hroom
    push_cast at hroom
    obtain ⟨hpending, -⟩ := pending_putc_room h (by omega) hindex c
    obtain ⟨hbounds, hnext⟩ := termBufIndex_putc h hindex c
    rw [typed, List.foldl_cons, ← typed, ih hbounds (termIndex_putc_lt t c) (by omega), hpending,
      List.append_assoc, List.singleton_append]

/-- A line that is typed while nothing is pending. -/
theorem pending_typed_start (h : t.InBounds) (hstart : t.termBufIndex = 0) {line : List UInt8}
    (hcell : line = [] ∨ t.termIndex < 2000) (hlength : line.length ≤ 127) :
    (t.typed line).pending = line := by
  have hnone : t.pending = [] := by rw [pending, hstart, Int.toNat_zero, valuesAt_zero]
  rcases hcell with rfl | hindex
  · exact hnone
  · rw [pending_typed h hindex (by omega), hnone, List.nil_append]

theorem ready_typed (h : t.Ready) {line : List UInt8}
    (hline : ∀ c ∈ line, c ≠ newlineChar ∧ c ≠ returnChar) : (t.typed line).Ready := by
  induction line generalizing t with
  | nil => exact h
  | cons c line ih =>
    obtain ⟨hnewline, hreturn⟩ := hline c (List.mem_cons_self)
    exact ih (ready_putc h hnewline hreturn) fun c' hc' ↦ hline c' (List.mem_cons_of_mem c hc')

/-- The pending characters are those of the line exactly if nothing was pending before it and its
first character had a cell. -/
theorem typed_iff (h : t.Ready) {line : List UInt8} (hlength : line.length ≤ 126) :
    (t.typed line).termBufIndex = line.length ↔
      t.termBufIndex = 0 ∧ (line = [] ∨ t.termIndex < 2000) := by
  have hbuf := h.buf_nonneg
  by_cases hindex : t.termIndex < 2000
  · rw [termBufIndex_typed h.toInBounds hindex line]
    simp only [hindex, or_true, and_true]
    omega
  · have hbehind : t.termIndex = 2000 := by
      have := h.index_le
      omega
    have hzero := h.behind hbehind
    cases line with
    | nil => simp [typed, hzero]
    | cons c line =>
      -- the first character is dropped
      obtain ⟨hpending, hbounds⟩ := pending_putc_full h.toInBounds (Or.inr hbehind) c
      have hnext : (t.putc c false).termBufIndex = 0 := by
        rw [← length_pending hbounds, hpending, length_pending h.toInBounds, hzero]
      rw [typed, List.foldl_cons, ← typed,
        termBufIndex_typed hbounds (termIndex_putc_lt t c) line, hnext]
      simp only [List.length_cons, reduceCtorEq, hindex, or_self, and_false, iff_false]
      push_cast
      omega

end Terminal

/-! ### A call of `terminal_read` -/

section Reading

variable {s : Console} {self : ℤ}

theorem displayed_typeLine (s : Console) (line : List UInt8) :
    (s.typeLine line).displayed = s.displayed.typed line := by
  induction line generalizing s with
  | nil => rfl
  | cons c line ih => rw [Console.typeLine, List.foldl_cons, ← Console.typeLine, ih,
      displayed_terminalPutc, Terminal.typed, Terminal.typed, List.foldl_cons]

/-- Typing keeps the displayed terminal and the flags. -/
theorem typeLine_keeps (s : Input) (line : List UInt8) :
    (s.console.typeLine line).currTerminal = s.console.currTerminal ∧
      (({ s with console := s.console.typeLine line } : Input).anyFlag ↔ s.anyFlag) := by
  induction line generalizing s with
  | nil => exact ⟨rfl, Iff.rfl⟩
  | cons c line ih =>
    have hputc : (s.console.terminalPutc c false).currTerminal = s.console.currTerminal ∧
        (({ s with console := s.console.terminalPutc c false } : Input).anyFlag ↔ s.anyFlag) := by
      simp only [Console.terminalPutc, Console.putcDisplayed]
      split_ifs <;> exact ⟨rfl, Iff.rfl⟩
    obtain ⟨hcurr, hflag⟩ := ih { s with console := s.console.terminalPutc c false }
    exact ⟨hcurr.trans hputc.1, hflag.trans hputc.2⟩

/-- Enter stores the newline behind the pending characters. -/
theorem displayed_terminalNewline (h : s.displayed.Ready) (self : ℤ) :
    (s.terminalNewline self).displayed.Ready ∧
      (s.terminalNewline self).displayed.termBufIndex = s.displayed.termBufIndex ∧
      (s.terminalNewline self).displayed.keyboardBuf = s.displayed.endLine.keyboardBuf := by
  obtain ⟨⟨hindex0, hindex, hbuf, hbuf'⟩, hx0, hx, hy0, hy, hrow, hbehind⟩ := h
  by_cases hlast : 1920 ≤ s.displayed.termIndex
  · rw [displayed_terminalNewline_of_ge s self hlast]
    refine ⟨⟨⟨?_, ?_, hbuf, hbuf'⟩, ?_, ?_, ?_, ?_, ?_, ?_⟩, rfl, rfl⟩ <;> norm_num
  · have hnext : u16 ((s.displayed.termScreenY + 1) * numCols + 0) =
        (s.displayed.termScreenY + 1) * 80 := by
      rw [u16_of_range] <;> unfold numCols <;> omega
    rw [displayed_terminalNewline_of_lt s self (by omega), hnext]
    refine ⟨⟨⟨?_, ?_, hbuf, hbuf'⟩, ?_, ?_, ?_, ?_, ?_, ?_⟩, rfl, rfl⟩ <;> simp only <;> omega

/-- A write leaves the cursor on the screen or behind a row, and nothing pending. -/
theorem ready_written {t : Fin 3} (h : (s.terminals t).Ready) (self : ℤ) (bytes : List UInt8) :
    ((s.written self t bytes).terminals t).Ready := by
  have hstring : (((s.openPage self t).putString self t bytes).display t).OnScreen ∧
      0 ≤ (((s.openPage self t).putString self t bytes).terminals t).termIndex ∧
      (((s.openPage self t).putString self t bytes).terminals t).termIndex ≤ 2000 ∧
      80 * (((s.openPage self t).putString self t bytes).terminals t).termScreenY ≤
        (((s.openPage self t).putString self t bytes).terminals t).termIndex := by
    refine Console.putString_invariant (P := fun s' ↦ (s'.display t).OnScreen ∧
      0 ≤ (s'.terminals t).termIndex ∧ (s'.terminals t).termIndex ≤ 2000 ∧
      80 * (s'.terminals t).termScreenY ≤ (s'.terminals t).termIndex) ?_
      (Console.openPage_curTask s) ?_ bytes
    · rintro s' c ⟨hscreen, -⟩
      have hput := hscreen.put c
      obtain ⟨hx0, hx, hy0, hy⟩ := hput
      rw [Console.display_setDisplay, Console.setDisplay_terminals, Function.update_self]
      have hindex : u16 (((s'.display t).put c).y * numCols + ((s'.display t).put c).x) =
          ((s'.display t).put c).y * 80 + ((s'.display t).put c).x := by
        rw [u16_of_range] <;> unfold numCols <;> omega
      simp only [hindex]
      exact ⟨⟨hx0, hx, hy0, hy⟩, by omega, by omega, by omega⟩
    · have hterminals : (s.openPage self t).terminals = s.terminals := by
        simp only [Console.openPage]
        split_ifs <;> rfl
      rw [hterminals]
      refine ⟨⟨?_, ?_, ?_, ?_⟩, h.index_nonneg, h.index_le, h.row_le⟩ <;>
        simp only [Console.display, hterminals]
      · exact h.x_nonneg
      · exact h.x_le
      · exact h.y_nonneg
      · exact h.y_le
  rw [Console.written, Console.closePage_terminals, Console.clearBuffer]
  generalize (s.openPage self t).putString self t bytes = s' at hstring
  obtain ⟨⟨hx0, hx, hy0, hy⟩, hindex0, hindex, hrow⟩ := hstring
  simp only [Console.setTerminal, Function.update_self]
  exact ⟨⟨hindex0, hindex, le_rfl, by norm_num⟩, hx0, hx, hy0, hy, hrow, fun _ ↦ rfl⟩

/-- A write keeps the displayed terminal and the flags. -/
theorem written_keeps (s : Input) (t : Fin 3) (self : ℤ) (bytes : List UInt8) :
    (s.console.written self t bytes).currTerminal = s.console.currTerminal ∧
      (({ s with console := s.console.written self t bytes } : Input).anyFlag ↔ s.anyFlag) := by
  have hopen : (s.console.openPage self t).currTerminal = s.console.currTerminal ∧
      (({ s with console := s.console.openPage self t } : Input).anyFlag ↔ s.anyFlag) := by
    simp only [Console.openPage]
    split_ifs <;> exact ⟨rfl, Iff.rfl⟩
  have hstring := Console.putString_invariant (P := fun console ↦
    console.currTerminal = s.console.currTerminal ∧
      (({ s with console := console } : Input).anyFlag ↔ s.anyFlag)) (t := t) (fun s' c h ↦ by
        simp only [Console.setDisplay]
        split_ifs <;> exact h) (s.console.openPage_curTask) hopen bytes
  simp only [Console.written, Console.closePage]
  split_ifs <;> exact hstring

end Reading

namespace Input

variable {s : Input} {reader self : ℤ}

/-- The process at `reader` is on the displayed terminal, and no Enter is outstanding. -/
structure ReadyFor (reader : ℤ) (s : Input) : Prop where
  onTerm : s.onTerm reader = s.console.currTerminal
  noFlag : ¬ s.anyFlag
  terminal : s.console.displayed.Ready

/-- A polling pass after an Enter on the terminal of the reader, which is displayed. -/
theorem pollPass_own {blocked : Blocked} (hreading : s.reading reader = some blocked)
    (hflag : s.anyFlag) (hown : s.onTerm reader = s.console.currTerminal) :
    (s.pollPass reader).2 = some ⟨s.console.currTerminal,
        s.copied s.console.currTerminal blocked.nbytes,
        if blocked.nbytes < s.console.displayed.termBufIndex then blocked.nbytes
        else s.console.displayed.termBufIndex + 1⟩ ∧
      (s.pollPass reader).1.onTerm = s.onTerm ∧ ¬ (s.pollPass reader).1.anyFlag ∧
      (s.pollPass reader).1.console.currTerminal = s.console.currTerminal ∧
      (s.pollPass reader).1.console.terminals = s.console.terminals := by
  have hdisplayed := (s.taskDisplayed_innerLoop reader).mpr (Or.inl hown)
  obtain ⟨task, hloop⟩ := s.innerLoop_eq reader
  have htask : s.onTerm task = s.console.currTerminal := by
    rw [hloop] at hdisplayed
    exact hdisplayed
  simp only [pollPass, hreading]
  rw [if_neg fun hwait ↦ hwait.2 hflag, if_neg (not_not.mpr hdisplayed),
    if_neg (not_not.mpr ((s.anyFlag_innerLoop reader).mpr hflag)), hloop]
  refine ⟨?_, rfl, ?_, rfl, rfl⟩
  · simp only [completeRead, htask]
    rfl
  · simp [completeRead, anyFlag]

/-- The state while the line is typed: the read waits. -/
def typing (s : Input) (reader : ℤ) (line : List UInt8) (nbytes : ℤ) : Input :=
  let s := s.beginRead reader 0 nbytes
  { s with console := s.console.typeLine line }

theorem beginRead_eq (s : Input) (reader : ℤ) {nbytes : ℤ} (hbytes : 0 < nbytes) :
    s.beginRead reader 0 nbytes = { s with
      console := { s.console with curTask := reader, terminalReading := true }
      reading := Function.update s.reading reader (some ⟨nbytes, false⟩) } := by
  rw [beginRead, if_neg (by omega), if_neg (by omega)]

theorem typing_reading (s : Input) (reader : ℤ) (line : List UInt8) {nbytes : ℤ}
    (hbytes : 0 < nbytes) :
    (s.typing reader line nbytes).reading reader = some ⟨nbytes, false⟩ := by
  rw [typing, beginRead_eq s reader hbytes]
  exact Function.update_self _ _ _

theorem typing_currTerminal (s : Input) (reader : ℤ) (line : List UInt8) {nbytes : ℤ}
    (hbytes : 0 < nbytes) :
    (s.typing reader line nbytes).console.currTerminal = s.console.currTerminal := by
  refine (typeLine_keeps (s.beginRead reader 0 nbytes) line).1.trans ?_
  rw [beginRead_eq s reader hbytes]

theorem typing_onTerm (h : s.ReadyFor reader) (line : List UInt8) {nbytes : ℤ}
    (hbytes : 0 < nbytes) : (s.typing reader line nbytes).onTerm reader =
      (s.typing reader line nbytes).console.currTerminal := by
  rw [typing_currTerminal s reader line hbytes, ← h.onTerm, typing, beginRead_eq s reader hbytes]

theorem typing_displayed (s : Input) (reader : ℤ) (line : List UInt8) {nbytes : ℤ}
    (hbytes : 0 < nbytes) : (s.typing reader line nbytes).console.displayed =
      s.console.displayed.typed line := by
  rw [typing, beginRead_eq s reader hbytes]
  exact displayed_typeLine _ line

/-- Until Enter is pressed the read goes on waiting. -/
theorem typing_waits (h : s.ReadyFor reader) (line : List UInt8) {nbytes : ℤ}
    (hbytes : 0 < nbytes) :
    (s.typing reader line nbytes).pollPass reader = (s.typing reader line nbytes, none) := by
  have hflag : ¬ (s.typing reader line nbytes).anyFlag := by
    intro hset
    have hbegin := (typeLine_keeps (s.beginRead reader 0 nbytes) line).2.mp hset
    rw [beginRead_eq s reader hbytes] at hbegin
    exact h.noFlag hbegin
  simp only [pollPass, typing_reading s reader line hbytes]
  rw [if_pos ⟨trivial, hflag⟩]

theorem enter_displayed (h : s.console.displayed.Ready) (self : ℤ) :
    (s.enter self).console.displayed.Ready ∧
      (s.enter self).console.displayed.termBufIndex = s.console.displayed.termBufIndex ∧
      (s.enter self).console.displayed.keyboardBuf = s.console.displayed.endLine.keyboardBuf ∧
      (s.enter self).console.currTerminal = s.console.currTerminal := by
  obtain ⟨hready, hcount, hbuffer⟩ :=
    displayed_terminalNewline (s := { s.console with enterFlag := true }) h self
  refine ⟨hready, hcount, hbuffer, ?_⟩
  simp only [enter, Console.terminalNewline]
  split_ifs <;> rfl

/-- A read with room for a full buffer copies all of it. -/
theorem copied_full (s : Input) {nbytes : ℤ} (hroom : 128 ≤ nbytes) :
    s.copied s.console.currTerminal nbytes = valuesAt s.console.displayed.keyboardBuf 0 128 := by
  have hcount : (min nbytes bufferSize).toNat = 128 := by
    unfold bufferSize
    omega
  rw [copied, hcount, valuesAt]
  simp only [zero_add]
  rfl

/-- What a read delivers, and the state that it leaves. -/
theorem readLine_eq (h : s.ReadyFor reader) (self : ℤ) {line : List UInt8}
    (hline : ∀ c ∈ line, c ≠ newlineChar ∧ c ≠ returnChar) {nbytes : ℤ} (hroom : 128 ≤ nbytes) :
    (s.readLine reader self line nbytes).2 = some ⟨s.console.currTerminal,
        valuesAt (s.console.displayed.typed line).endLine.keyboardBuf 0 128,
        (s.console.displayed.typed line).termBufIndex + 1⟩ ∧
      (s.readLine reader self line nbytes).1.ReadyFor reader := by
  have hbytes : 0 < nbytes := by omega
  have hdisplayed := typing_displayed s reader line hbytes
  have hcurr := typing_currTerminal s reader line hbytes
  have hown := typing_onTerm h line hbytes
  have hreading := typing_reading s reader line hbytes
  have hcall : s.readLine reader self line nbytes =
      ((s.typing reader line nbytes).enter self).pollPass reader := rfl
  rw [hcall]
  generalize s.typing reader line nbytes = waiting at hdisplayed hcurr hown hreading ⊢
  -- Enter stores the newline and sets a flag, and the read completes
  obtain ⟨hnext, hcount, hbuffer, hsame⟩ :=
    enter_displayed (s := waiting) (hdisplayed ▸ Terminal.ready_typed h.terminal hline) self
  obtain ⟨hresult, honTerm, hflag, hcurr', hterminals⟩ :=
    pollPass_own (s := waiting.enter self) hreading (waiting.anyFlag_enter self)
      (hown.trans hsame.symm)
  have hlater : ((waiting.enter self).pollPass reader).1.console.displayed =
      (waiting.enter self).console.displayed := by
    rw [Console.displayed, hcurr', hterminals, Console.displayed]
  refine ⟨?_, ⟨?_, hflag, ?_⟩⟩
  · have hle := hnext.buf_le
    rw [hresult, copied_full _ hroom, if_neg (by simp only; omega), hbuffer, hcount, hdisplayed,
      hsame, hcurr]
  · rw [honTerm, hcurr', hsame]
    exact hown
  · rw [hlater]
    exact hnext

/-- A read delivers its line exactly if it suits. -/
theorem deliversLine_iff (h : s.ReadyFor reader) (event : LineEvent) :
    s.DeliversLine reader event ↔ s.ReadSuits event := by
  cases event with
  | write fd buf nbytes => exact Iff.rfl
  | readLine self line nbytes hroom =>
    obtain ⟨hresult, -⟩ := readLine_eq h self (typedText_plain line) hroom
    have hiff := Terminal.typed_iff h.terminal line.length_le
    constructor
    · rintro ⟨result, hsome, hvalue, -⟩
      rw [hresult, Option.some_inj] at hsome
      rw [← hsome] at hvalue
      exact hiff.mp (by simpa using hvalue)
    · intro hsuits
      have hcount := hiff.mpr hsuits
      refine ⟨_, hresult, by rw [hcount], ?_⟩
      have hlength := line.length_le
      have hpending := Terminal.pending_typed_start h.terminal.toInBounds hsuits.1 hsuits.2
        (by omega)
      rw [Terminal.pending, hcount, Int.toNat_natCast] at hpending
      rw [take_valuesAt _ _ (by omega), Terminal.endLine, hcount, valuesAt_update, hpending]

/-- Whatever the process does, it is ready to read. -/
theorem readyFor_lineStep (h : s.ReadyFor reader) (event : LineEvent) :
    (s.lineStep reader event).ReadyFor reader := by
  cases event with
  | write fd buf nbytes =>
    by_cases hcall : fd = 1 ∧ 0 < nbytes
    · obtain ⟨rfl, hbytes⟩ := hcall
      have hwrite : s.write reader 1 buf nbytes = { s with
          console :=
            s.console.written reader (s.onTerm reader) (valuesAt buf 0 nbytes.toNat) } := by
        rw [write, s.console.terminalWrite_eq buf hbytes]
      obtain ⟨hcurr, hflag⟩ :=
        written_keeps s (s.onTerm reader) reader (valuesAt buf 0 nbytes.toNat)
      have hterminal := ready_written (s := s.console) (t := s.onTerm reader)
        (by rw [h.onTerm]; exact h.terminal) reader (valuesAt buf 0 nbytes.toNat)
      rw [lineStep, hwrite]
      refine ⟨h.onTerm.trans hcurr.symm, fun hset ↦ h.noFlag (hflag.mp hset), ?_⟩
      rw [Console.displayed, hcurr, ← h.onTerm]
      exact hterminal
    · have hidle : s.write reader fd buf nbytes = s := by
        rw [write, s.console.terminalWrite_idle reader (s.onTerm reader) buf hcall]
      rw [lineStep, hidle]
      exact h
  | readLine self line nbytes hroom =>
    exact (readLine_eq h self (typedText_plain line) hroom).2

end Input

/-- All reads deliver their lines exactly if each begins with nothing pending, and with a cell of
the screen for the first character. -/
theorem lineReading_exact {s : Input} {reader : ℤ} (h : s.ReadyFor reader)
    (events : List LineEvent) :
    EveryStep (Input.lineStep reader) (Input.DeliversLine reader) s events ↔
      EveryStep (Input.lineStep reader) Input.ReadSuits s events := by
  have hstep : ∀ (s : Input) (event : LineEvent), s.ReadyFor reader →
      (s.lineStep reader event).ReadyFor reader :=
    fun _ event h ↦ Input.readyFor_lineStep h event
  have hready := everyState_of_invariant hstep h events
  exact hready.everyStep_congr fun _ event h ↦ Input.deliversLine_iff h event

/-- The line of one letter. -/
def letterLine : TypedText := ⟨[97], by decide, List.forall_mem_singleton.mpr (by decide)⟩

theorem quietInput_readyFor : quietInput.ReadyFor (pcbAddr 0) := by
  refine ⟨by decide, by decide, ⟨⟨?_, ?_, ?_, ?_⟩, ?_, ?_, ?_, ?_, ?_, ?_⟩⟩ <;> decide

/-- The exact condition, for a line that is read, a write and another line. -/
theorem lineReading_exact_write :
    EveryStep (Input.lineStep (pcbAddr 0)) (Input.DeliversLine (pcbAddr 0)) quietInput
        [.readLine 0 letterLine 128 (Int.le_refl _), .write 1 (fun _ ↦ 62) 1,
          .readLine 0 letterLine 128 (Int.le_refl _)] ↔
      EveryStep (Input.lineStep (pcbAddr 0)) Input.ReadSuits quietInput
        [.readLine 0 letterLine 128 (Int.le_refl _), .write 1 (fun _ ↦ 62) 1,
          .readLine 0 letterLine 128 (Int.le_refl _)] :=
  lineReading_exact quietInput_readyFor [.readLine 0 letterLine 128 (Int.le_refl _),
    .write 1 (fun _ ↦ 62) 1, .readLine 0 letterLine 128 (Int.le_refl _)]

/-- Two lines that are read without a write between them: the second read delivers the first line
again. -/
theorem lineReading_not_always : ¬ ∀ (s : Input) (reader : ℤ) (events : List LineEvent),
    s.ReadyFor reader →
      EveryStep (Input.lineStep reader) (Input.DeliversLine reader) s events := by
  intro hall
  obtain ⟨-, ⟨result, hresult, hvalue, -⟩, -⟩ := hall quietInput (pcbAddr 0)
    [.readLine 0 letterLine 128 le_rfl, .readLine 0 letterLine 128 le_rfl] quietInput_readyFor
  have hread : ((quietInput.lineStep (pcbAddr 0) (.readLine 0 letterLine 128 le_rfl)).readLine
      (pcbAddr 0) 0 letterLine.bytes 128).2.map ReadResult.value = some 3 := by
    decide
  rw [hresult, Option.map_some, hvalue] at hread
  exact absurd hread (by decide)

end Sp18.Kernel
