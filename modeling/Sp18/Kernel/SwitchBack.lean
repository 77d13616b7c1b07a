import Sp18.Kernel.Keyboard
import Sp18.Kernel.Writing
import Sp18.Foundation.StepSystem

/-!
# Switching to another terminal and back

The displayed terminal is held twice: in `terminals` and in the globals of the driver.
`switch_terminal` saves the globals over the struct, so that a switch to another terminal and back
restores the displayed terminal if and only if the two copies agree (`switchesBack_iff`).

What the keyboard does keeps them in agreement, and so does a write to the displayed terminal. A
write to another terminal clears the pending line in the globals only. The law therefore holds in
all states of a run exactly if processes write to other terminals only while the displayed one has
nothing pending (`switchBack_exact`).
-/

set_option autoImplicit false
set_option relaxedAutoImplicit false

namespace Sp18.Kernel

open Foundation

namespace Console

/-- One round of the last loop of `init_terminals`. -/
def initBacking (s : Console) (t : Fin 3) : Console :=
  let s := { s with firstPageTable184 := videoMemory + ((t : ℕ) + 1) * fourKB + 3 }
  s.clear.setTerminal t { s.terminals t with
    termIndex := 0
    keyboardBuf := memcpy (s.terminals t).keyboardBuf 0 (fun _ ↦ 0) 0 bufferSize
    termBufIndex := 0
    termScreenX := 0
    termScreenY := 0
    vidMapFlag := false }

/-- `init_terminals` -/
def initTerminals (s : Console) : Console :=
  let s := { s with currTerminal := 0 }
  let s := { s with
    termVidBuf := memcpy s.termVidBuf 0 s.videoMem 0 4000
    firstPageTable184 := videoMemory + ((s.currTerminal : ℕ) + 1) * fourKB + 3 }
  let s := s.setVideoMem (memcpy s.videoMem 0 s.termVidBuf 0 4000)
  let s := { s with firstPageTable184 := videoMemory + 3 }
  let t := s.displayed
  let s := s.setDisplayed { t with
    termIndex := s.index
    keyboardBuf := memcpy t.keyboardBuf 0 s.terminalBuffer 0 bufferSize
    termBufIndex := s.bufIndex
    termScreenX := s.screenX
    termScreenY := s.screenY
    vidMapFlag := false }
  let s := (s.initBacking 1).initBacking 2
  { s with firstPageTable184 := videoMemory + 3 }

end Console

/-- The cursor and the pending line of a terminal. -/
structure SameInput (t t' : Terminal) : Prop where
  x : t'.termScreenX = t.termScreenX
  y : t'.termScreenY = t.termScreenY
  index : t'.termIndex = t.termIndex
  bufIndex : t'.termBufIndex = t.termBufIndex
  buffer : ∀ i, 0 ≤ i → i < bufferSize → t'.keyboardBuf i = t.keyboardBuf i

/-- The same terminal is displayed, and the screens, the cursors and the pending lines of all
terminals are the same. -/
structure SameTerminals (s s' : Console) : Prop where
  currTerminal : s'.currTerminal = s.currTerminal
  screen : ∀ t a, 0 ≤ a → a < 4000 → (s'.screen t).bytes a = (s.screen t).bytes a
  input : ∀ t, SameInput (s.terminals t) (s'.terminals t)

/-- A switch to a terminal and back restores everything. -/
def SwitchesBack (s : Console) : Prop :=
  ∀ (self self' : ℤ) (t : Fin 3),
    SameTerminals s ((s.switchTerminal self t).switchTerminal self' s.currTerminal)

/-- A key, or a call of `terminal_write` by the process whose PCB is at `self` and which runs on
terminal `t`. -/
inductive ConsoleEvent where
  | key (self : ℤ) (data : UInt8)
  | write (self : ℤ) (t : Fin 3) (fd : ℤ) (buf : ℤ → UInt8) (nbytes : ℤ)

/-- The state after an event. -/
def consoleStep (k : Keyboard) : ConsoleEvent → Keyboard
  | .key self data => k.keyboardHandler self data
  | .write self t fd buf nbytes =>
    { k with console := (k.console.terminalWrite self t fd buf nbytes).2 }

/-- Nothing is pending, and the buffer is clear. -/
def Terminal.NothingPending (t : Terminal) : Prop :=
  t.termBufIndex = 0 ∧ ∀ i, 0 ≤ i → i < bufferSize → t.keyboardBuf i = 0

/-- A process prints on a terminal that is not displayed only while the displayed one has nothing
pending. -/
def WriteSuits (k : Keyboard) : ConsoleEvent → Prop
  | .key _ _ => True
  | .write _ t fd _ nbytes => fd = 1 → 0 < nbytes → t ≠ k.console.currTerminal →
      k.console.displayed.NothingPending

/-! ### The two copies -/

/-- The globals hold the cursor of the displayed terminal, and the display is mapped. -/
structure CursorSynced (s : Console) : Prop where
  videoPage : s.videoPage = videoMemory
  index : s.index = s.displayed.termIndex
  x : s.screenX = s.displayed.termScreenX
  y : s.screenY = s.displayed.termScreenY

/-- The globals hold the pending line of the displayed terminal. -/
structure LineSynced (s : Console) : Prop where
  bufIndex : s.bufIndex = s.displayed.termBufIndex
  buffer : ∀ i, 0 ≤ i → i < bufferSize → s.terminalBuffer i = s.displayed.keyboardBuf i

section Switching

variable {s : Console} {self : ℤ} {t t' : Fin 3}

/-- The displayed terminal as `switch_terminal` saves it. -/
def Console.saved (s : Console) : Terminal := { s.displayed with
  keyboardBuf := memcpy s.displayed.keyboardBuf 0 s.terminalBuffer 0 bufferSize
  termIndex := s.index
  termBufIndex := s.bufIndex
  termScreenX := s.screenX
  termScreenY := s.screenY }

theorem switchTerminal_terminals (s : Console) (self : ℤ) (t : Fin 3) :
    (s.switchTerminal self t).terminals = Function.update s.terminals s.currTerminal s.saved := rfl

theorem switchTerminal_currTerminal (s : Console) (self : ℤ) (t : Fin 3) :
    (s.switchTerminal self t).currTerminal = t := rfl

theorem cursorSynced_switchTerminal (s : Console) (self : ℤ) (t : Fin 3) :
    CursorSynced (s.switchTerminal self t) where
  videoPage := rfl
  index := rfl
  x := rfl
  y := rfl

theorem switchTerminal_terminalBuffer (s : Console) (self : ℤ) (t : Fin 3) :
    (s.switchTerminal self t).terminalBuffer = memcpy s.terminalBuffer 0
      (s.switchTerminal self t).displayed.keyboardBuf 0 bufferSize := rfl

/-- A copy from the start of a buffer to the start of another one. -/
theorem memcpy_start (memory source : ℤ → UInt8) {i : ℤ} (hlow : 0 ≤ i) (hhigh : i < bufferSize) :
    memcpy memory 0 source 0 bufferSize i = source i := by
  rw [memcpy_inside _ _ hlow (by omega), zero_add, sub_zero]

theorem lineSynced_switchTerminal (s : Console) (self : ℤ) (t : Fin 3) :
    LineSynced (s.switchTerminal self t) where
  bufIndex := rfl
  buffer i hlow hhigh := by rw [switchTerminal_terminalBuffer, memcpy_start _ _ hlow hhigh]

theorem sameInput_saved_iff (hcursor : CursorSynced s) :
    SameInput s.displayed s.saved ↔ LineSynced s := by
  have hbuffer : ∀ i, 0 ≤ i → i < bufferSize → s.saved.keyboardBuf i = s.terminalBuffer i :=
    fun i hlow hhigh ↦ memcpy_start _ _ hlow hhigh
  constructor
  · intro h
    exact ⟨h.bufIndex, fun i hlow hhigh ↦
      (hbuffer i hlow hhigh).symm.trans (h.buffer i hlow hhigh)⟩
  · intro h
    exact ⟨hcursor.x, hcursor.y, hcursor.index, h.bufIndex, fun i hlow hhigh ↦
      (hbuffer i hlow hhigh).trans (h.buffer i hlow hhigh)⟩

/-- The video pages once `switch_terminal` has saved the display. -/
def Console.savedPages (s : Console) : ℤ → ℤ → UInt8 :=
  Function.update s.videoPages (Console.backingPage s.currTerminal)
    (memcpy (s.videoPages (Console.backingPage s.currTerminal)) 0
      (memcpy s.termVidBuf 0 (s.videoPages videoMemory) 0 4000) 0 4000)

theorem switchTerminal_videoPages (hpage : s.videoPage = videoMemory) (self : ℤ) (t : Fin 3) :
    (s.switchTerminal self t).videoPages = Function.update s.savedPages videoMemory
      (memcpy (s.savedPages videoMemory) 0
        (memcpy (memcpy s.termVidBuf 0 (s.videoPages videoMemory) 0 4000) 0
          (s.savedPages (Console.backingPage t)) 0 4000) 0 4000) := by
  have hbacking : ∀ t : Fin 3, videoMemory + ((t : ℕ) + 1) * fourKB + 3 -
      (videoMemory + ((t : ℕ) + 1) * fourKB + 3) % fourKB = Console.backingPage t := by
    intro t
    simp only [Console.backingPage, videoMemory, fourKB]
    omega
  have hdisplay : videoMemory + 3 - (videoMemory + 3) % fourKB = videoMemory := rfl
  simp only [Console.videoPage] at hpage
  simp only [Console.switchTerminal, Console.savedPages, Console.setDisplayed, Console.setTerminal,
    Console.setVideoMem, Console.videoMem, Console.videoPage, hpage, hbacking, hdisplay]

/-- A switch keeps the screens of all terminals. -/
theorem screen_switchTerminal (hpage : s.videoPage = videoMemory) (self : ℤ) (t t' : Fin 3) {a : ℤ}
    (hlow : 0 ≤ a) (hhigh : a < 4000) :
    ((s.switchTerminal self t).screen t').bytes a = (s.screen t').bytes a := by
  have hcopy : ∀ memory source : ℤ → UInt8, memcpy memory 0 source 0 4000 a = source a := by
    intro memory source
    rw [memcpy_inside _ _ hlow (by omega), zero_add, sub_zero]
  -- what the backing pages hold once the display is saved
  have hsaved : ∀ t', s.savedPages (Console.backingPage t') a = (s.screen t').bytes a := by
    intro t'
    simp only [Console.savedPages, Console.screen]
    by_cases hshown : t' = s.currTerminal
    · rw [s.logicalPage_shown hshown, hshown, Function.update_self, hcopy, hcopy]
    · rw [s.logicalPage_hidden hshown,
        Function.update_of_ne fun h ↦ hshown (Console.backingPage_inj h)]
  rw [← hsaved t', Console.screen, switchTerminal_videoPages hpage]
  dsimp only
  by_cases hdest : t' = t
  · rw [Console.logicalPage_shown _ hdest, Function.update_self, hcopy, hcopy, hdest]
  · rw [Console.logicalPage_hidden _ hdest, Function.update_of_ne (Console.backingPage_ne t')]

theorem SameInput.refl (t : Terminal) : SameInput t t := ⟨rfl, rfl, rfl, rfl, fun _ _ _ ↦ rfl⟩

theorem SameInput.symm {t t' : Terminal} (h : SameInput t t') : SameInput t' t where
  x := h.x.symm
  y := h.y.symm
  index := h.index.symm
  bufIndex := h.bufIndex.symm
  buffer i hlow hhigh := (h.buffer i hlow hhigh).symm

theorem SameInput.trans {t t' t'' : Terminal} (h : SameInput t t') (h' : SameInput t' t'') :
    SameInput t t'' where
  x := h'.x.trans h.x
  y := h'.y.trans h.y
  index := h'.index.trans h.index
  bufIndex := h'.bufIndex.trans h.bufIndex
  buffer i hlow hhigh := (h'.buffer i hlow hhigh).trans (h.buffer i hlow hhigh)

/-- Where the two copies agree, a switch keeps what is held of each terminal. -/
theorem sameInput_switchTerminal (hcursor : CursorSynced s) (hline : LineSynced s) (self : ℤ)
    (t t' : Fin 3) : SameInput (s.terminals t') ((s.switchTerminal self t).terminals t') := by
  rw [switchTerminal_terminals]
  by_cases hsame : t' = s.currTerminal
  · rw [hsame, Function.update_self]
    exact (sameInput_saved_iff hcursor).mpr hline
  · rw [Function.update_of_ne hsame]
    exact SameInput.refl _

/-- A switch and the switch back restore everything exactly if the globals hold the pending line of
the displayed terminal. -/
theorem switchesBack_iff (hcursor : CursorSynced s) : SwitchesBack s ↔ LineSynced s := by
  constructor
  · -- it is enough to switch to the displayed terminal itself
    intro h
    have hinput := (h 0 0 s.currTerminal).input s.currTerminal
    rw [switchTerminal_terminals, switchTerminal_currTerminal, Function.update_self] at hinput
    have hagain := (sameInput_saved_iff (cursorSynced_switchTerminal s 0 s.currTerminal)).mpr
      (lineSynced_switchTerminal s 0 s.currTerminal)
    rw [Console.displayed, switchTerminal_terminals, switchTerminal_currTerminal,
      Function.update_self] at hagain
    exact (sameInput_saved_iff hcursor).mp (hinput.trans hagain.symm)
  · intro hline self self' t
    refine ⟨rfl, fun t' a hlow hhigh ↦ ?_, fun t' ↦ ?_⟩
    · exact (screen_switchTerminal rfl self' s.currTerminal t' hlow hhigh).trans
        (screen_switchTerminal hcursor.videoPage self t t' hlow hhigh)
    · exact (sameInput_switchTerminal hcursor hline self t t').trans
        (sameInput_switchTerminal (cursorSynced_switchTerminal s self t)
          (lineSynced_switchTerminal s self t) self' s.currTerminal t')

end Switching

/-! ### Keys -/

section Keys

variable {s : Console}

theorem cursorSynced_updateTerminal (hpage : s.videoPage = videoMemory) :
    CursorSynced s.updateTerminal :=
  ⟨hpage, rfl, rfl, rfl⟩

theorem lineSynced_updateTerminal (s : Console) : LineSynced s.updateTerminal :=
  ⟨rfl, fun _ hlow hhigh ↦ memcpy_start _ _ hlow hhigh⟩

/-- Both copies agree. -/
def Synced (s : Console) : Prop := CursorSynced s ∧ LineSynced s

theorem synced_updateTerminal (hpage : s.videoPage = videoMemory) : Synced s.updateTerminal :=
  ⟨cursorSynced_updateTerminal hpage, lineSynced_updateTerminal s⟩

theorem synced_scrollUpCurr (hpage : s.videoPage = videoMemory) : Synced s.scrollUpCurr :=
  synced_updateTerminal hpage

theorem videoPage_terminalPutc (s : Console) (c : UInt8) (d : Bool) :
    (s.terminalPutc c d).videoPage = s.videoPage := by
  simp only [Console.terminalPutc, Console.putcDisplayed]
  split_ifs <;> rfl

theorem synced_terminalPutc (h : Synced s) (c : UInt8) (d : Bool) :
    Synced (s.terminalPutc c d) := by
  have hpage := h.1.videoPage
  have hput : (s.putcDisplayed c d).videoPage = videoMemory := by
    simp only [Console.putcDisplayed]
    split_ifs <;> exact hpage
  simp only [Console.terminalPutc]
  split_ifs
  · exact synced_scrollUpCurr hput
  · exact synced_updateTerminal hput
  · exact synced_scrollUpCurr hpage
  · exact h

theorem synced_terminalNewline (hpage : s.videoPage = videoMemory) (self : ℤ) :
    Synced (s.terminalNewline self) := by
  simp only [Console.terminalNewline]
  split_ifs
  · exact synced_scrollUpCurr hpage
  · exact synced_updateTerminal hpage

theorem synced_terminalClear (h : Synced s) : Synced s.terminalClear := by
  obtain ⟨⟨hpage, -, -, -⟩, hbuf, hbuffer⟩ := h
  have hdisplayed : s.terminalClear.displayed =
      { s.displayed with termIndex := 0, termScreenX := 0, termScreenY := 0 } := by
    simp only [Console.terminalClear, Console.displayed_setDisplayed]
    rfl
  refine ⟨⟨hpage, ?_, ?_, ?_⟩, ?_, ?_⟩ <;> rw [hdisplayed]
  · rfl
  · rfl
  · rfl
  · exact hbuf
  · exact hbuffer

theorem synced_cursorBackspace (h : Synced s) : Synced s.cursorBackspace := by
  have hpage := h.1.videoPage
  have hput : ∀ t : Terminal, ((s.setDisplayed t).terminalPutc 0 true).videoPage = videoMemory :=
    fun t ↦ (videoPage_terminalPutc _ 0 true).trans hpage
  simp only [Console.cursorBackspace]
  split_ifs
  · exact synced_updateTerminal (hput _)
  · exact synced_updateTerminal (hput _)
  · exact synced_updateTerminal (hput _)
  · exact h

theorem synced_switchTerminal (s : Console) (self : ℤ) (t : Fin 3) :
    Synced (s.switchTerminal self t) :=
  ⟨cursorSynced_switchTerminal s self t, lineSynced_switchTerminal s self t⟩

theorem synced_setFlags {k : Keyboard} (h : Synced k.console) (c : ℤ) :
    Synced (k.setFlags c).console := by
  have henter : Synced { k.console with enterFlag := true } := by
    obtain ⟨⟨hpage, hindex, hx, hy⟩, hbuf, hbuffer⟩ := h
    exact ⟨⟨hpage, hindex, hx, hy⟩, hbuf, hbuffer⟩
  exact Keyboard.setFlags_cases (P := fun k ↦ Synced k.console) h h h h (fun _ ↦ h) (fun _ ↦ h)
    (fun _ ↦ h) fun _ ↦ henter

theorem synced_handle {k : Keyboard} (h : Synced k.console) (self c : ℤ) :
    Synced (k.handle self c) := by
  have hbranch : ∀ {p : Prop} [Decidable p] {s₁ s₂ : Console}, Synced s₁ → Synced s₂ →
      Synced (if p then s₁ else s₂) :=
    fun h₁ h₂ ↦ iteInduction (fun _ ↦ h₁) (fun _ ↦ h₂)
  refine hbranch (synced_terminalNewline h.1.videoPage self) ?_
  refine hbranch (synced_terminalClear h) ?_
  refine hbranch (synced_cursorBackspace h) ?_
  refine hbranch (synced_terminalPutc h _ _) ?_
  refine hbranch (synced_switchTerminal _ self 0) ?_
  refine hbranch (synced_switchTerminal _ self 1) ?_
  refine hbranch (synced_switchTerminal _ self 2) ?_
  exact hbranch (synced_terminalPutc h _ _) (hbranch (synced_terminalPutc h _ _) h)

/-- After each key both copies agree if they did before. -/
theorem synced_keyboardHandler {k : Keyboard} (h : Synced k.console) (self : ℤ) (data : UInt8) :
    Synced (k.keyboardHandler self data).console :=
  synced_handle (synced_setFlags h (i8 data.toNat)) self (i8 data.toNat)

end Keys

/-! ### Writes -/

section Writes

variable {s : Console}

theorem clearBuffer_displayed (s : Console) (self : ℤ) (t : Fin 3) :
    (s.clearBuffer self t).displayed.termIndex = s.displayed.termIndex ∧
      (s.clearBuffer self t).displayed.termScreenX = s.displayed.termScreenX ∧
      (s.clearBuffer self t).displayed.termScreenY = s.displayed.termScreenY := by
  simp only [Console.clearBuffer, Console.setTerminal, Console.displayed]
  by_cases hshown : s.currTerminal = t
  · simp only [hshown, Function.update_self, and_self]
  · simp only [Function.update_of_ne hshown, and_self]

theorem cursorSynced_clearBuffer (h : CursorSynced s) (self : ℤ) (t : Fin 3) :
    CursorSynced (s.clearBuffer self t) := by
  obtain ⟨hindex, hx, hy⟩ := clearBuffer_displayed s self t
  exact ⟨h.videoPage, h.index.trans hindex.symm, h.x.trans hx.symm, h.y.trans hy.symm⟩

/-- The buffer of the globals is clear after `clear_buffer`. -/
theorem clearBuffer_line (s : Console) (self : ℤ) (t : Fin 3) :
    (s.clearBuffer self t).bufIndex = 0 ∧
      ∀ i, 0 ≤ i → i < bufferSize → (s.clearBuffer self t).terminalBuffer i = 0 :=
  ⟨rfl, fun _ hlow hhigh ↦ memcpy_start s.terminalBuffer (fun _ ↦ 0) hlow hhigh⟩

theorem lineSynced_iff_nothingPending (hbuf : s.bufIndex = 0)
    (hbuffer : ∀ i, 0 ≤ i → i < bufferSize → s.terminalBuffer i = 0) :
    LineSynced s ↔ s.displayed.NothingPending := by
  constructor
  · intro h
    exact ⟨h.bufIndex.symm.trans hbuf, fun i hlow hhigh ↦
      (h.buffer i hlow hhigh).symm.trans (hbuffer i hlow hhigh)⟩
  · rintro ⟨hindex, hclear⟩
    exact ⟨hbuf.trans hindex.symm, fun i hlow hhigh ↦
      (hbuffer i hlow hhigh).trans (hclear i hlow hhigh).symm⟩

/-- A write to the displayed terminal makes both copies agree. -/
theorem synced_written_shown (h : CursorSynced s) (self : ℤ) (bytes : List UInt8) :
    Synced (s.written self s.currTerminal bytes) := by
  have hstring :
      CursorSynced ((s.openPage self s.currTerminal).putString self s.currTerminal bytes) ∧
      s.currTerminal =
        ((s.openPage self s.currTerminal).putString self s.currTerminal bytes).currTerminal := by
    refine Console.putString_invariant
      (P := fun s' ↦ CursorSynced s' ∧ s.currTerminal = s'.currTerminal) ?_
      (Console.openPage_curTask s) ?_ bytes
    · rintro s' c ⟨hcursor, hshown⟩
      refine ⟨?_, hshown.trans (Console.setDisplay_currTerminal _).symm⟩
      rw [Console.setDisplay, if_pos (by exact hshown)]
      exact cursorSynced_updateTerminal hcursor.videoPage
    · rw [s.openPage_shown self rfl]
      exact ⟨⟨h.videoPage, h.index, h.x, h.y⟩, rfl⟩
  obtain ⟨hcursor, hshown⟩ := hstring
  rw [Console.written, Console.closePage_shown _ (by exact hshown)]
  generalize (s.openPage self s.currTerminal).putString self s.currTerminal bytes = s' at *
  obtain ⟨hbuf, hbuffer⟩ := clearBuffer_line s' self s.currTerminal
  refine ⟨cursorSynced_clearBuffer hcursor self _,
    (lineSynced_iff_nothingPending hbuf hbuffer).mpr ?_⟩
  have hdisplayed : (s'.clearBuffer self s.currTerminal).displayed =
      { s'.displayed with
        termBufIndex := 0
        keyboardBuf := memcpy s'.displayed.keyboardBuf 0 (fun _ ↦ 0) 0 bufferSize } := by
    simp only [Console.clearBuffer, Console.setTerminal, Console.displayed, hshown,
      Function.update_self]
  rw [hdisplayed]
  exact ⟨rfl, fun i hlow hhigh ↦ memcpy_start s'.displayed.keyboardBuf (fun _ ↦ 0) hlow hhigh⟩

/-- The second state has the displayed terminal of the first and its cursor in the globals. -/
structure SameDisplayed (s s' : Console) : Prop where
  currTerminal : s'.currTerminal = s.currTerminal
  displayed : s'.displayed = s.displayed
  index : s'.index = s.index
  x : s'.screenX = s.screenX
  y : s'.screenY = s.screenY

/-- A write to another terminal keeps the cursor, and leaves the displayed terminal alone. -/
theorem written_hidden (hcursor : CursorSynced s) (self : ℤ) {t : Fin 3}
    (hhidden : t ≠ s.currTerminal) (bytes : List UInt8) :
    CursorSynced (s.written self t bytes) ∧ (s.written self t bytes).displayed = s.displayed ∧
      (s.written self t bytes).bufIndex = 0 ∧
      ∀ i, 0 ≤ i → i < bufferSize → (s.written self t bytes).terminalBuffer i = 0 := by
  have hstring : SameDisplayed s ((s.openPage self t).putString self t bytes) := by
    refine Console.putString_invariant (P := SameDisplayed s) ?_ (Console.openPage_curTask s) ?_
      bytes
    · rintro s' c ⟨hcurr, hdisplayed, hindex, hx, hy⟩
      have hhidden' : t ≠ s'.currTerminal := hcurr ▸ hhidden
      rw [Console.setDisplay, if_neg (by exact hhidden')]
      refine ⟨hcurr, ?_, hindex, hx, hy⟩
      rw [← hdisplayed]
      exact Function.update_of_ne hhidden'.symm _ _
    · rw [s.openPage_hidden self hhidden]
      exact ⟨rfl, rfl, rfl, rfl, rfl⟩
  rw [Console.written]
  generalize (s.openPage self t).putString self t bytes = s' at *
  obtain ⟨hcurr, hdisplayed, hindex, hx, hy⟩ := hstring
  have hhidden' : t ≠ (s'.clearBuffer self t).currTerminal := hcurr ▸ hhidden
  have hsame : ((s'.clearBuffer self t).closePage t).displayed = s.displayed := by
    rw [Console.closePage_hidden _ hhidden', ← hdisplayed]
    exact Function.update_of_ne hhidden'.symm _ _
  refine ⟨⟨?_, ?_, ?_, ?_⟩, hsame, ?_, ?_⟩
  · rw [Console.closePage_hidden _ hhidden']
    rfl
  · rw [hsame, Console.closePage_hidden _ hhidden', ← hcursor.index, ← hindex]
    rfl
  · rw [hsame, Console.closePage_hidden _ hhidden', ← hcursor.x, ← hx]
    rfl
  · rw [hsame, Console.closePage_hidden _ hhidden', ← hcursor.y, ← hy]
    rfl
  · rw [Console.closePage_hidden _ hhidden']
    exact (clearBuffer_line s' self t).1
  · rw [Console.closePage_hidden _ hhidden']
    exact (clearBuffer_line s' self t).2

end Writes

/-! ### Runs -/

theorem synced_initTerminals (s : Console) : Synced s.initTerminals := by
  have hbuffer : s.initTerminals.displayed.keyboardBuf =
      memcpy (s.terminals 0).keyboardBuf 0 s.terminalBuffer 0 bufferSize := rfl
  refine ⟨⟨rfl, rfl, rfl, rfl⟩, rfl, fun i hlow hhigh ↦ ?_⟩
  rw [hbuffer, memcpy_start _ _ hlow hhigh]
  rfl

theorem videoPage_handle {k : Keyboard} (h : k.console.videoPage = videoMemory) (self c : ℤ) :
    (k.handle self c).videoPage = videoMemory := by
  have hput : ∀ c d, (k.console.terminalPutc c d).videoPage = videoMemory :=
    fun c d ↦ (videoPage_terminalPutc k.console c d).trans h
  have hback : k.console.cursorBackspace.videoPage = videoMemory := by
    simp only [Console.cursorBackspace]
    split_ifs <;> first | exact (videoPage_terminalPutc _ 0 true).trans h | exact h
  have hbranch : ∀ {p : Prop} [Decidable p] {s₁ s₂ : Console}, s₁.videoPage = videoMemory →
      s₂.videoPage = videoMemory → (if p then s₁ else s₂).videoPage = videoMemory := by
    intro p _ s₁ s₂ h₁ h₂
    split_ifs
    · exact h₁
    · exact h₂
  refine hbranch (synced_terminalNewline h self).1.videoPage (hbranch h (hbranch hback ?_))
  refine hbranch (hput _ _) (hbranch rfl (hbranch rfl (hbranch rfl ?_)))
  exact hbranch (hput _ _) (hbranch (hput _ _) h)

theorem videoPage_setFlags {k : Keyboard} (h : k.console.videoPage = videoMemory) (c : ℤ) :
    (k.setFlags c).console.videoPage = videoMemory :=
  Keyboard.setFlags_cases (P := fun k ↦ k.console.videoPage = videoMemory) h h h h (fun _ ↦ h)
    (fun _ ↦ h) (fun _ ↦ h) fun _ ↦ h

/-- The display is mapped in every state that keys and writes lead to. -/
theorem videoPage_reachable (s : Console) (k : Keyboard) (events : List ConsoleEvent) :
    EveryState consoleStep (fun k ↦ k.console.videoPage = videoMemory)
      { k with console := s.initTerminals } events := by
  have hstep : ∀ (k : Keyboard) (event : ConsoleEvent), k.console.videoPage = videoMemory →
      (consoleStep k event).console.videoPage = videoMemory := by
    intro k event h
    cases event with
    | key self data => exact videoPage_handle (videoPage_setFlags h _) self (i8 data.toNat)
    | write self t fd buf nbytes =>
      by_cases hcall : fd = 1 ∧ 0 < nbytes
      · obtain ⟨rfl, hbytes⟩ := hcall
        change (k.console.terminalWrite self t 1 buf nbytes).2.videoPage = videoMemory
        rw [k.console.terminalWrite_eq buf hbytes]
        exact k.console.written_videoPage self t (fun _ ↦ h) _
      · change (k.console.terminalWrite self t fd buf nbytes).2.videoPage = videoMemory
        rw [k.console.terminalWrite_idle self t buf hcall]
        exact h
  exact everyState_of_invariant hstep rfl events

/-- The law holds after a step from a state in which both copies agree exactly if the step suits. -/
theorem switchesBack_step_iff {k : Keyboard} (h : Synced k.console) (event : ConsoleEvent) :
    (SwitchesBack (consoleStep k event).console ↔ WriteSuits k event) ∧
      (WriteSuits k event → Synced (consoleStep k event).console) := by
  -- a step that keeps both copies in agreement
  have hkept : Synced (consoleStep k event).console → WriteSuits k event →
      (SwitchesBack (consoleStep k event).console ↔ WriteSuits k event) ∧
        (WriteSuits k event → Synced (consoleStep k event).console) :=
    fun hnext hsuits ↦ ⟨iff_of_true ((switchesBack_iff hnext.1).mpr hnext.2) hsuits, fun _ ↦ hnext⟩
  cases event with
  | key self data => exact hkept (synced_keyboardHandler h self data) trivial
  | write self t fd buf nbytes =>
    by_cases hcall : fd = 1 ∧ 0 < nbytes
    · obtain ⟨rfl, hbytes⟩ := hcall
      have hwrite : (consoleStep k (.write self t 1 buf nbytes)).console =
          k.console.written self t (valuesAt buf 0 nbytes.toNat) :=
        congrArg Prod.snd (k.console.terminalWrite_eq buf hbytes)
      by_cases hshown : t = k.console.currTerminal
      · subst hshown
        refine hkept ?_ fun _ _ hhidden ↦ absurd rfl hhidden
        rw [hwrite]
        exact synced_written_shown h.1 self _
      · obtain ⟨hcursor, hdisplayed, hbuf, hbuffer⟩ :=
          written_hidden h.1 self hshown (valuesAt buf 0 nbytes.toNat)
        have hline := lineSynced_iff_nothingPending hbuf hbuffer
        have hsuits : WriteSuits k (.write self t 1 buf nbytes) ↔
            k.console.displayed.NothingPending :=
          ⟨fun hsuits ↦ hsuits rfl hbytes hshown, fun hclear _ _ _ ↦ hclear⟩
        rw [hwrite, hsuits, ← hdisplayed, ← hline]
        exact ⟨switchesBack_iff hcursor, fun h ↦ ⟨hcursor, h⟩⟩
    · have hidle : (consoleStep k (.write self t fd buf nbytes)).console = k.console :=
        k.console.terminalWrite_idle self t buf hcall
      refine hkept ?_ fun hfd hbytes ↦ absurd ⟨hfd, hbytes⟩ hcall
      rw [hidle]
      exact h

/-- In a run of keys and writes from the start on, a switch to a terminal and back restores
everything in every state exactly if all writes to a terminal that is not displayed come while the
displayed one has nothing pending. -/
theorem switchBack_exact (s : Console) (k : Keyboard) (events : List ConsoleEvent) :
    EveryState consoleStep (fun k ↦ SwitchesBack k.console)
        { k with console := s.initTerminals } events ↔
      EveryStep consoleStep WriteSuits { k with console := s.initTerminals } events := by
  have hlaw : ∀ k : Keyboard, Synced k.console → SwitchesBack k.console :=
    fun k h ↦ (switchesBack_iff h.1).mpr h.2
  have hkeep : ∀ (k : Keyboard) (event : ConsoleEvent), Synced k.console → WriteSuits k event →
      Synced (consoleStep k event).console :=
    fun k event h ↦ (switchesBack_step_iff h event).2
  have hbreak : ∀ (k : Keyboard) (event : ConsoleEvent), Synced k.console →
      SwitchesBack (consoleStep k event).console → WriteSuits k event :=
    fun k event h ↦ (switchesBack_step_iff h event).1.mp
  exact everyState_iff_everyStep_of_inv hlaw hkeep hbreak (synced_initTerminals s)

/-- The letter `a` is typed on the first terminal, and a process on the second one prints a letter:
the pending line is lost with a switch to the second terminal and back. -/
theorem switchBack_not_always : ¬ ∀ (s : Console) (k : Keyboard) (events : List ConsoleEvent),
    EveryState consoleStep (fun k ↦ SwitchesBack k.console)
      { k with console := s.initTerminals } events := by
  intro hall
  have hlaw := (hall clearedConsole ⟨clearedConsole, false, false, false, false, false⟩
    [.key 0 0x1E, .write 0 1 1 (fun _ ↦ 66) 1]).last
  have hbuf := ((hlaw 0 0 1).input 0).bufIndex
  exact absurd hbuf (by decide)

end Sp18.Kernel
