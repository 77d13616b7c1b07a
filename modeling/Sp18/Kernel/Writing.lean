import Sp18.Kernel.Output

/-!
# What `terminal_write` writes

`terminal_write` prints its bytes in pieces of 128 through the `keyboard_buf` of the terminal and
clears the buffer before and after. What the buffer holds while a piece is printed does not outlast
the call (`SameText`), and the pieces are printed one after the other, so that a call prints its
bytes one by one (`terminalWrite_eq`). Two calls are therefore as good as one with the bytes of both
(`terminalWrite_append`).
-/

set_option autoImplicit false
set_option relaxedAutoImplicit false

namespace Sp18.Kernel

open Foundation

namespace Console

variable (s : Console) (self : ℤ) (t : Fin 3)

/-- The rounds of `terminal_puts` for a string. -/
def putString (bytes : List UInt8) : Console := bytes.foldl (putsChar self t) s

/-- The two states differ at most in the buffers that `clear_buffer` clears. -/
def SameText (s s' : Console) : Prop := s'.clearBuffer self t = s.clearBuffer self t

variable {s self t} {s' : Console}

/-! ### The buffers do not matter -/

theorem SameText.refl (s : Console) : SameText self t s s := rfl

theorem SameText.trans {s'' : Console} (h : SameText self t s s') (h' : SameText self t s' s'') :
    SameText self t s s'' :=
  Eq.trans h' h

theorem SameText.display_eq (h : SameText self t s s') : s'.display t = s.display t := by
  have hclear : ∀ s : Console, (s.clearBuffer self t).display t = s.display t := by
    intro s
    simp [clearBuffer, setTerminal, display, videoMem, videoPage]
  rw [← hclear s', h, hclear s]

theorem sameText_clearBuffer (self : ℤ) (t : Fin 3) (s : Console) :
    SameText self t s (s.clearBuffer self t) := by
  simp only [SameText, clearBuffer, setTerminal, Function.update_self, Function.update_idem,
    memcpy_again]

theorem sameText_setBuffer (self : ℤ) (t : Fin 3) (s : Console) {buffer : ℤ → UInt8} (index : ℤ)
    (h : ∀ a, a < 0 ∨ 0 + bufferSize ≤ a → buffer a = (s.terminals t).keyboardBuf a) :
    SameText self t s (s.setTerminal t { s.terminals t with
      keyboardBuf := buffer, termBufIndex := index }) := by
  simp only [SameText, clearBuffer, setTerminal, Function.update_self, Function.update_idem,
    memcpy_congr h]

/-- What is displayed of a terminal does not depend on its buffer. -/
theorem clearBuffer_setDisplay (s : Console) (d : Display) : (s.setDisplay t d).clearBuffer self t =
    ((s.clearBuffer self t).setDisplay t d).clearBuffer self t := by
  by_cases hshown : t = s.currTerminal
  · have hdisplayed : ∀ terminals : Fin 3 → Terminal,
        terminals s.currTerminal = terminals t := fun terminals ↦ by rw [← hshown]
    rw [setDisplay, if_pos (by exact hshown), setDisplay, if_pos (by exact hshown)]
    simp only [clearBuffer, setTerminal, setVideoMem, videoPage, updateTerminal, displayed,
      hdisplayed, Function.update_self, Function.update_idem, memcpy_again]
  · rw [setDisplay, if_neg (by exact hshown), setDisplay, if_neg (by exact hshown)]
    simp only [clearBuffer, setTerminal, setVideoMem, videoPage, Function.update_self,
      Function.update_idem, memcpy_again]

theorem SameText.setDisplay (h : SameText self t s s') (d : Display) :
    SameText self t (s.setDisplay t d) (s'.setDisplay t d) := by
  rw [SameText, clearBuffer_setDisplay s', h, ← clearBuffer_setDisplay]

theorem SameText.putsChar (h : SameText self t s s') (hself : s.curTask = self)
    (hself' : s'.curTask = self) (c : UInt8) :
    SameText self t (s.putsChar self t c) (s'.putsChar self t c) := by
  by_cases hc : c = 0
  · simpa only [Console.putsChar, hc, if_true] using h
  · rw [putsChar_eq hself hc, putsChar_eq hself' hc, h.display_eq]
    exact h.setDisplay _

theorem putString_append (bytes bytes' : List UInt8) :
    s.putString self t (bytes ++ bytes') = (s.putString self t bytes).putString self t bytes' :=
  List.foldl_append

theorem putsChar_curTask (hself : s.curTask = self) (c : UInt8) :
    (s.putsChar self t c).curTask = self := by
  by_cases hc : c = 0
  · simpa only [Console.putsChar, hc, if_true] using hself
  · rw [putsChar_eq hself hc, setDisplay_curTask, hself]

/-- What every change of the display keeps is kept by a string. -/
theorem putString_invariant {P : Console → Prop}
    (hstep : ∀ s c, P s → P (s.setDisplay t ((s.display t).put c))) (hself : s.curTask = self)
    (h : P s) (bytes : List UInt8) : P (s.putString self t bytes) := by
  induction bytes generalizing s with
  | nil => exact h
  | cons c bytes ih =>
    refine ih (putsChar_curTask hself c) ?_
    by_cases hc : c = 0
    · simpa only [Console.putsChar, hc, if_true] using h
    · rw [putsChar_eq hself hc]
      exact hstep s c h

theorem putString_curTask (hself : s.curTask = self) (bytes : List UInt8) :
    (s.putString self t bytes).curTask = self :=
  putString_invariant (P := fun s' ↦ s'.curTask = self)
    (fun s _ h ↦ by rw [setDisplay_curTask, h]) hself hself bytes

theorem putString_keyboardBuf (hself : s.curTask = self) (bytes : List UInt8) (t' : Fin 3) :
    ((s.putString self t bytes).terminals t').keyboardBuf = (s.terminals t').keyboardBuf :=
  putString_invariant (P := fun s' ↦ (s'.terminals t').keyboardBuf = (s.terminals t').keyboardBuf)
    (fun s _ h ↦ by rw [setDisplay_keyboardBuf, h]) hself rfl bytes

theorem putString_currTerminal (hself : s.curTask = self) (bytes : List UInt8) :
    (s.putString self t bytes).currTerminal = s.currTerminal :=
  putString_invariant (P := fun s' ↦ s'.currTerminal = s.currTerminal)
    (fun s _ h ↦ by rw [setDisplay_currTerminal, h]) hself rfl bytes

theorem putString_firstPageTable184 (hself : s.curTask = self) (bytes : List UInt8) :
    (s.putString self t bytes).firstPageTable184 = s.firstPageTable184 :=
  putString_invariant (P := fun s' ↦ s'.firstPageTable184 = s.firstPageTable184)
    (fun s _ h ↦ by rw [setDisplay_firstPageTable184, h]) hself rfl bytes

theorem SameText.putString (h : SameText self t s s') (hself : s.curTask = self)
    (hself' : s'.curTask = self) (bytes : List UInt8) :
    SameText self t (s.putString self t bytes) (s'.putString self t bytes) := by
  induction bytes generalizing s s' with
  | nil => exact h
  | cons c bytes ih =>
    exact ih (h.putsChar hself hself' c) (putsChar_curTask hself c) (putsChar_curTask hself' c)

/-! ### The pieces -/

theorem putsLoop_eq (hself : s.curTask = self) (i : ℤ) (remaining : ℕ) :
    s.putsLoop self t i remaining =
      s.putString self t (valuesAt (s.terminals t).keyboardBuf i remaining) := by
  induction remaining generalizing s i with
  | zero => rfl
  | succ remaining ih =>
    have hbuffer := putString_keyboardBuf (t := t) hself [(s.terminals t).keyboardBuf i] t
    rw [putsLoop, ih (putsChar_curTask hself _), valuesAt_cons]
    simp only [Console.putString, List.foldl_cons, List.foldl_nil] at hbuffer ⊢
    rw [hbuffer]

theorem terminalPuts_eq (hself : s.curTask = self) (nbytes : ℤ) : s.terminalPuts self t nbytes =
    s.putString self t (valuesAt (s.terminals t).keyboardBuf 0 nbytes.toNat) := by
  have hsame : { s with curTask := self } = s := by rw [← hself]
  rw [terminalPuts, hsame, putsLoop_eq hself]

/-- The store of the loop of `terminal_write`. -/
def storeByte (t : Fin 3) (s : Console) (j : ℤ) (c : UInt8) : Console :=
  s.setTerminal t { s.terminals t with
    keyboardBuf := Function.update (s.terminals t).keyboardBuf j c }

/-- The call of `terminal_puts` after the loop of `terminal_write`. -/
def putsRest (self : ℤ) (t : Fin 3) (nbytes : ℤ) (r : Console × ℤ) : Console :=
  r.1.terminalPuts self t (nbytes - r.2 * bufferSize)

theorem writeLoop_room (buf : ℤ → UInt8) {j : ℤ} (hj : j < bufferSize) (i y : ℤ) (remaining : ℕ) :
    s.writeLoop self t buf i j y (remaining + 1) =
      (s.storeByte t j (buf i)).writeLoop self t buf (i + 1) (j + 1) y remaining := by
  rw [writeLoop, if_pos hj]
  rfl

theorem writeLoop_full (buf : ℤ → UInt8) (i y : ℤ) (remaining : ℕ) :
    s.writeLoop self t buf i bufferSize y (remaining + 1) =
      ((s.terminalPuts self t bufferSize).storeByte t 0 (buf i)).writeLoop self t buf (i + 1) 1
        (y + 1) remaining := by
  rw [writeLoop, if_neg (lt_irrefl _)]
  rfl

/-- The byte that is stored stands behind the bytes that wait in the buffer, and does not outlast
the call. -/
theorem sameText_storeByte (s : Console) {j : ℕ} (hj : (j : ℤ) < bufferSize) (c : UInt8) :
    SameText self t s (s.storeByte t j c) :=
  sameText_setBuffer self t s (s.terminals t).termBufIndex fun a ha ↦
    Function.update_of_ne (by omega) _ _

@[simp] theorem storeByte_curTask (s : Console) (j : ℤ) (c : UInt8) :
    (s.storeByte t j c).curTask = s.curTask := rfl

theorem storeByte_keyboardBuf (s : Console) (j : ℤ) (c : UInt8) :
    ((s.storeByte t j c).terminals t).keyboardBuf =
      Function.update (s.terminals t).keyboardBuf j c := by
  simp [storeByte, setTerminal]

theorem valuesAt_storeByte (s : Console) (j : ℕ) (c : UInt8) :
    valuesAt ((s.storeByte t j c).terminals t).keyboardBuf 0 (j + 1) =
      valuesAt (s.terminals t).keyboardBuf 0 j ++ [c] := by
  rw [storeByte_keyboardBuf, valuesAt_update]

/-- From byte `i` on, with `j` bytes in the buffer and `y` full buffers printed, the loop and the
call of `terminal_puts` after it print the bytes in the buffer and all that are left. -/
theorem writeLoop_eq (buf : ℤ → UInt8) (hself : s.curTask = self) {i y : ℤ} {j : ℕ}
    (hj : (j : ℤ) ≤ bufferSize) (hi : i = y * bufferSize + j) (remaining : ℕ) :
    SameText self t
      (s.putString self t
        (valuesAt (s.terminals t).keyboardBuf 0 j ++ valuesAt buf i remaining))
      (putsRest self t (i + remaining) (s.writeLoop self t buf i j y remaining)) := by
  induction remaining generalizing s i j y with
  | zero =>
    have hcount : (i + (0 : ℕ) - y * bufferSize).toNat = j := by omega
    simp only [writeLoop, putsRest, valuesAt_zero, List.append_nil]
    rw [terminalPuts_eq hself, hcount]
    exact SameText.refl _
  | succ remaining ih =>
    have hcount : i + (remaining + 1 : ℕ) = i + 1 + remaining := by push_cast; ring
    -- the bytes of the buffer and byte `i` are what the buffer holds after the store
    have hstore : ∀ {s : Console} {j : ℕ}, s.curTask = self → (j : ℤ) < bufferSize →
        SameText self t
          (s.putString self t (valuesAt (s.terminals t).keyboardBuf 0 j ++
            valuesAt buf i (remaining + 1)))
          ((s.storeByte t j (buf i)).putString self t
            (valuesAt ((s.storeByte t j (buf i)).terminals t).keyboardBuf 0 (j + 1) ++
              valuesAt buf (i + 1) remaining)) := by
      intro s j hself hj
      rw [valuesAt_storeByte, valuesAt_cons, ← List.append_cons]
      exact (sameText_storeByte s hj (buf i)).putString hself hself _
    rw [hcount]
    by_cases hroom : (j : ℤ) < bufferSize
    · rw [writeLoop_room buf hroom]
      exact (hstore hself hroom).trans
        (ih (s := s.storeByte t j (buf i)) (j := j + 1) (by rw [storeByte_curTask, hself])
          (by omega) (by omega))
    · have hfull : (j : ℤ) = bufferSize := by omega
      have hprinted : s.terminalPuts self t bufferSize =
          s.putString self t (valuesAt (s.terminals t).keyboardBuf 0 j) := by
        rw [terminalPuts_eq hself, ← hfull, Int.toNat_natCast]
      have hself' : (s.terminalPuts self t bufferSize).curTask = self := by
        rw [hprinted]
        exact putString_curTask hself _
      rw [hfull, writeLoop_full, putString_append, ← hprinted]
      have hfirst := hstore (j := 0) hself' (by decide)
      have hrest := ih (s := (s.terminalPuts self t bufferSize).storeByte t (0 : ℕ) (buf i))
        (i := i + 1) (y := y + 1) (j := 1) (by rw [storeByte_curTask, hself']) (by decide)
        (by rw [hi, hfull]; push_cast; ring)
      simp only [Nat.cast_zero, Nat.cast_one, zero_add, valuesAt_zero, List.nil_append]
        at hfirst hrest
      exact hfirst.trans hrest

theorem writeBytes_eq (buf : ℤ → UInt8) (hself : s.curTask = self) {nbytes : ℤ}
    (hbytes : 0 < nbytes) : SameText self t (s.putString self t (valuesAt buf 0 nbytes.toNat))
      (s.writeBytes self t buf nbytes) := by
  rw [writeBytes]
  split_ifs with hshort
  · have hbuffer : SameText self t s (s.setTerminal t { s.terminals t with
        keyboardBuf := memcpy (s.terminals t).keyboardBuf 0 buf 0 nbytes
        termBufIndex := nbytes }) :=
      sameText_setBuffer self t s nbytes fun a ha ↦ memcpy_outside _ _ (by omega)
    have hvalues : valuesAt (memcpy (s.terminals t).keyboardBuf 0 buf 0 nbytes) 0 nbytes.toNat =
        valuesAt buf 0 nbytes.toNat :=
      valuesAt_congr fun i hi ↦ by
        rw [memcpy_inside _ _ (by omega) (by omega)]
        congr 1
        ring
    refine (hbuffer.putString hself hself _).trans ?_
    dsimp only
    rw [terminalPuts_eq (by exact hself)]
    simp only [setTerminal, Function.update_self, hvalues]
    exact SameText.refl _
  · have hloop := writeLoop_eq (s := s) (t := t) buf hself (i := 0) (y := 0) (j := 0) (by decide)
      (by decide) nbytes.toNat
    simp only [Nat.cast_zero, valuesAt_zero, List.nil_append, zero_add,
      Int.toNat_of_nonneg hbytes.le] at hloop
    exact hloop

/-! ### A call -/

/-- The start of `terminal_write`: the page of the terminal is mapped. -/
def openPage (self : ℤ) (t : Fin 3) (s : Console) : Console :=
  let s := { s with curTask := self }
  if t ≠ s.currTerminal then
    { s with firstPageTable184 := videoMemory + ((t : ℕ) + 1) * fourKB + 3 }
  else s

/-- The end of `terminal_write`: the display is mapped again. -/
def closePage (t : Fin 3) (s : Console) : Console :=
  if t ≠ s.currTerminal then { s with firstPageTable184 := videoMemory + 3 } else s

theorem openPage_shown (s : Console) (self : ℤ) (hshown : t = s.currTerminal) :
    s.openPage self t = { s with curTask := self } :=
  if_neg (not_not.mpr hshown)

theorem openPage_hidden (s : Console) (self : ℤ) (hhidden : t ≠ s.currTerminal) :
    s.openPage self t = { s with
      curTask := self, firstPageTable184 := videoMemory + ((t : ℕ) + 1) * fourKB + 3 } :=
  if_pos hhidden

theorem closePage_shown (s : Console) (hshown : t = s.currTerminal) : s.closePage t = s :=
  if_neg (not_not.mpr hshown)

theorem closePage_hidden (s : Console) (hhidden : t ≠ s.currTerminal) :
    s.closePage t = { s with firstPageTable184 := videoMemory + 3 } :=
  if_pos hhidden

/-- What a call of `terminal_write` leaves. -/
def written (self : ℤ) (t : Fin 3) (s : Console) (bytes : List UInt8) : Console :=
  closePage t (((s.openPage self t).putString self t bytes).clearBuffer self t)

@[simp] theorem openPage_curTask (s : Console) : (s.openPage self t).curTask = self := by
  simp only [openPage]
  split_ifs <;> rfl

/-- `terminal_write` prints its bytes one after the other. -/
theorem terminalWrite_eq (s : Console) (buf : ℤ → UInt8) {nbytes : ℤ} (hbytes : 0 < nbytes) :
    s.terminalWrite self t 1 buf nbytes =
      (nbytes, s.written self t (valuesAt buf 0 nbytes.toNat)) := by
  have hself : (s.openPage self t).curTask = self := openPage_curTask s
  have hcleared := sameText_clearBuffer self t (s.openPage self t)
  have hbody := (hcleared.putString hself rfl (valuesAt buf 0 nbytes.toNat)).trans
    (writeBytes_eq (s := (s.openPage self t).clearBuffer self t) buf rfl hbytes)
  rw [terminalWrite, if_neg (by omega), if_neg (by omega), written, ← hbody]
  rfl

/-- A call that opens the page again finds it as the call before has left it. -/
theorem openPage_closePage (s : Console) {s' : Console} (hself : s'.curTask = self)
    (hcurr : s'.currTerminal = s.currTerminal)
    (hpage : s'.firstPageTable184 = (s.openPage self t).firstPageTable184) :
    (s'.closePage t).openPage self t = s' := by
  by_cases hshown : t = s.currTerminal
  · have hshown' : t = s'.currTerminal := hshown.trans hcurr.symm
    rw [s'.closePage_shown hshown', s'.openPage_shown self hshown', ← hself]
  · have hhidden' : t ≠ s'.currTerminal := hcurr ▸ hshown
    rw [s.openPage_hidden self hshown] at hpage
    rw [s'.closePage_hidden hhidden', openPage_hidden _ self (by exact hhidden'), ← hself]
    dsimp only at hpage ⊢
    rw [← hpage]

/-- Two calls are as good as one with the bytes of both. -/
theorem written_append (s : Console) (bytes bytes' : List UInt8) :
    (s.written self t bytes).written self t bytes' = s.written self t (bytes ++ bytes') := by
  have hself : (s.openPage self t).curTask = self := openPage_curTask s
  have hself' := putString_curTask (t := t) hself bytes
  have hopen : (s.written self t bytes).openPage self t =
      ((s.openPage self t).putString self t bytes).clearBuffer self t := by
    refine openPage_closePage s rfl ?_ ?_
    · refine (putString_currTerminal hself bytes).trans ?_
      simp only [openPage]
      split_ifs <;> rfl
    · exact putString_firstPageTable184 hself bytes
  have hclear := (sameText_clearBuffer self t
    ((s.openPage self t).putString self t bytes)).putString hself' rfl bytes'
  rw [written, hopen, hclear, ← putString_append]
  rfl

theorem closePage_terminals (s : Console) (t : Fin 3) :
    (s.closePage t).terminals = s.terminals := by
  simp only [closePage]
  split_ifs <;> rfl

theorem written_termBufIndex (s : Console) (bytes : List UInt8) :
    ((s.written self t bytes).terminals t).termBufIndex = 0 := by
  rw [written, closePage_terminals, clearBuffer]
  simp only [setTerminal, Function.update_self]

theorem written_keyboardBuf (s : Console) (bytes : List UInt8) {i : ℤ} (hlow : 0 ≤ i)
    (hhigh : i < bufferSize) : ((s.written self t bytes).terminals t).keyboardBuf i = 0 := by
  rw [written, closePage_terminals, clearBuffer]
  simp only [setTerminal, Function.update_self]
  exact memcpy_inside _ _ hlow (by omega)

/-- A call that prints nothing. -/
theorem terminalWrite_idle (s : Console) (self : ℤ) (t : Fin 3) {fd : ℤ} (buf : ℤ → UInt8)
    {nbytes : ℤ} (hidle : ¬ (fd = 1 ∧ 0 < nbytes)) :
    (s.terminalWrite self t fd buf nbytes).2 = s := by
  by_cases hrefused : fd ≠ 1 ∨ nbytes < 0
  · rw [terminalWrite, if_pos hrefused]
  · rw [terminalWrite, if_neg hrefused, if_pos (by omega)]

/-- Two calls leave what one call with the bytes of both leaves. The buffers are cleared, and the
return values add up. -/
theorem terminalWrite_append (s : Console) (self : ℤ) (t : Fin 3) (buf1 buf2 buf : ℤ → UInt8)
    {nbytes1 nbytes2 : ℤ} (hbytes1 : 0 < nbytes1) (hbytes2 : 0 < nbytes2)
    (hbuf : valuesAt buf 0 (nbytes1 + nbytes2).toNat =
      valuesAt buf1 0 nbytes1.toNat ++ valuesAt buf2 0 nbytes2.toNat) :
    let first := s.terminalWrite self t 1 buf1 nbytes1
    let second := first.2.terminalWrite self t 1 buf2 nbytes2
    let whole := s.terminalWrite self t 1 buf (nbytes1 + nbytes2)
    second.2 = whole.2 ∧ first.1 + second.1 = whole.1 ∧ whole.1 = nbytes1 + nbytes2 ∧
      whole.2 = s.written self t (valuesAt buf 0 (nbytes1 + nbytes2).toNat) ∧
      (whole.2.terminals t).termBufIndex = 0 ∧
      ∀ i, 0 ≤ i → i < bufferSize → (whole.2.terminals t).keyboardBuf i = 0 := by
  intro first second whole
  have hfirst : first = _ := s.terminalWrite_eq buf1 hbytes1
  have hsecond : second = _ := first.2.terminalWrite_eq buf2 hbytes2
  have hwhole : whole = _ := s.terminalWrite_eq buf (add_pos hbytes1 hbytes2)
  refine ⟨?_, ?_, ?_, ?_, ?_, ?_⟩
  · rw [hsecond, hwhole, hfirst, hbuf]
    exact written_append s _ _
  · rw [hfirst, hsecond, hwhole]
  · rw [hwhole]
  · rw [hwhole]
  · rw [hwhole]
    exact written_termBufIndex s _
  · intro i hlow hhigh
    rw [hwhole]
    exact written_keyboardBuf s _ hlow hhigh

/-- Two letters in one call and in two. -/
theorem terminalWrite_append_letters :
    let first := clearedConsole.terminalWrite 0 0 1 (fun _ ↦ 65) 1
    let second := first.2.terminalWrite 0 0 1 (fun _ ↦ 66) 1
    let whole := clearedConsole.terminalWrite 0 0 1 (fun i ↦ if i = 0 then 65 else 66) (1 + 1)
    second.2 = whole.2 ∧ first.1 + second.1 = whole.1 ∧ whole.1 = 1 + 1 ∧
      whole.2 = clearedConsole.written 0 0
        (valuesAt (fun i ↦ if i = 0 then 65 else 66) 0 (1 + 1 : ℤ).toNat) ∧
      (whole.2.terminals 0).termBufIndex = 0 ∧
      ∀ i, 0 ≤ i → i < bufferSize → (whole.2.terminals 0).keyboardBuf i = 0 :=
  terminalWrite_append clearedConsole 0 0 (fun _ ↦ 65) (fun _ ↦ 66)
    (fun i ↦ if i = 0 then 65 else 66) (by decide) (by decide) (by decide)

/-! ### The frame of a call -/

/-- The page behind the display that belongs to a terminal. -/
def backingPage (t : Fin 3) : ℤ := videoMemory + ((t : ℕ) + 1) * fourKB

/-- The page that holds the screen of a terminal: the display, or its backing page. -/
def logicalPage (s : Console) (t : Fin 3) : ℤ :=
  if t = s.currTerminal then videoMemory else backingPage t

theorem logicalPage_shown (s : Console) (hshown : t = s.currTerminal) :
    s.logicalPage t = videoMemory :=
  if_pos hshown

theorem logicalPage_hidden (s : Console) (hhidden : t ≠ s.currTerminal) :
    s.logicalPage t = backingPage t :=
  if_neg hhidden

theorem backingPage_inj {t t' : Fin 3} (h : backingPage t = backingPage t') : t = t' := by
  simp only [backingPage, fourKB] at h
  exact Fin.ext (by omega)

theorem backingPage_ne (t : Fin 3) : backingPage t ≠ videoMemory := by
  simp only [backingPage, fourKB]
  omega

/-- The screen of a terminal and its cursor. -/
def screen (s : Console) (t : Fin 3) : Display :=
  ⟨s.videoPages (s.logicalPage t), (s.terminals t).termScreenX, (s.terminals t).termScreenY⟩

/-- The second state differs from the first at most in terminal `t`, in the globals, and in the
screen at `page`. -/
structure OnlyOn (t : Fin 3) (page : ℤ) (s s' : Console) : Prop where
  currTerminal : s'.currTerminal = s.currTerminal
  terminals : ∀ t' ≠ t, s'.terminals t' = s.terminals t'
  videoPages : ∀ p a, p ≠ page ∨ a < 0 ∨ 4000 ≤ a → s'.videoPages p a = s.videoPages p a

theorem OnlyOn.refl (t : Fin 3) (page : ℤ) (s : Console) : OnlyOn t page s s :=
  ⟨rfl, fun _ _ ↦ rfl, fun _ _ _ ↦ rfl⟩

theorem OnlyOn.trans {page : ℤ} {s'' : Console} (h : OnlyOn t page s s')
    (h' : OnlyOn t page s' s'') : OnlyOn t page s s'' where
  currTerminal := h'.currTerminal.trans h.currTerminal
  terminals t' hne := (h'.terminals t' hne).trans (h.terminals t' hne)
  videoPages p a hout := (h'.videoPages p a hout).trans (h.videoPages p a hout)

/-- No two terminals share a page. -/
theorem logicalPage_ne (s : Console) {t t' : Fin 3} (hne : t' ≠ t) :
    s.logicalPage t' ≠ s.logicalPage t := by
  simp only [logicalPage]
  split_ifs with h h' h'
  · exact absurd (h.trans h'.symm) hne
  · exact (backingPage_ne t).symm
  · exact backingPage_ne t'
  · exact fun hsame ↦ hne (backingPage_inj hsame)

theorem OnlyOn.screen_eq (h : OnlyOn t (s.logicalPage t) s s') {t' : Fin 3} (hne : t' ≠ t) :
    s'.screen t' = s.screen t' := by
  have hpage : s'.logicalPage t' = s.logicalPage t' := by
    rw [logicalPage, h.currTerminal, logicalPage]
  have hbytes : s'.videoPages (s.logicalPage t') = s.videoPages (s.logicalPage t') :=
    funext fun a ↦ h.videoPages _ a (Or.inl (s.logicalPage_ne hne))
  rw [screen, hpage, hbytes, h.terminals t' hne, screen]

theorem onlyOn_setDisplay (s : Console) (t : Fin 3) {d : Display}
    (hout : ∀ a, a < 0 ∨ 4000 ≤ a → d.bytes a = (s.display t).bytes a) :
    OnlyOn t s.videoPage s (s.setDisplay t d) where
  currTerminal := setDisplay_currTerminal d
  terminals t' hne := by rw [setDisplay_terminals, Function.update_of_ne hne]
  videoPages p a h := by
    rw [setDisplay_videoPages]
    by_cases hpage : p = s.videoPage
    · rw [hpage, Function.update_self]
      exact hout a (h.resolve_left (not_not.mpr hpage))
    · rw [Function.update_of_ne hpage]

@[simp] theorem setDisplay_videoPage (d : Display) :
    (s.setDisplay t d).videoPage = s.videoPage := by
  rw [videoPage, setDisplay_firstPageTable184, videoPage]

theorem onlyOn_clearBuffer (s : Console) (self : ℤ) (t : Fin 3) (page : ℤ) :
    OnlyOn t page s (s.clearBuffer self t) where
  currTerminal := rfl
  terminals _ hne := Function.update_of_ne hne _ _
  videoPages _ _ _ := rfl

theorem onlyOn_openPage (s : Console) (self : ℤ) (t : Fin 3) (page : ℤ) :
    OnlyOn t page s (s.openPage self t) := by
  simp only [openPage]
  split_ifs <;> exact ⟨rfl, fun _ _ ↦ rfl, fun _ _ _ ↦ rfl⟩

theorem onlyOn_closePage (s : Console) (t : Fin 3) (page : ℤ) :
    OnlyOn t page s (s.closePage t) := by
  simp only [closePage]
  split_ifs <;> exact ⟨rfl, fun _ _ ↦ rfl, fun _ _ _ ↦ rfl⟩

/-- `terminal_write` opens the page that holds the screen of its terminal. -/
theorem openPage_videoPage (s : Console) (self : ℤ) (t : Fin 3)
    (hpage : t = s.currTerminal → s.videoPage = videoMemory) :
    (s.openPage self t).videoPage = s.logicalPage t := by
  by_cases hshown : t = s.currTerminal
  · rw [s.openPage_shown self hshown, s.logicalPage_shown hshown, ← hpage hshown]
    rfl
  · rw [s.openPage_hidden self hshown, s.logicalPage_hidden hshown]
    simp only [videoPage, backingPage, videoMemory, fourKB]
    omega

theorem display_openPage (s : Console) (self : ℤ) (t : Fin 3)
    (hpage : t = s.currTerminal → s.videoPage = videoMemory) :
    (s.openPage self t).display t = s.screen t := by
  rw [display, videoMem, openPage_videoPage s self t hpage]
  simp only [openPage]
  split_ifs <;> rfl

theorem display_putString (hself : s.curTask = self) (bytes : List UInt8) :
    (s.putString self t bytes).display t = bytes.foldl Display.put (s.display t) := by
  induction bytes generalizing s with
  | nil => rfl
  | cons c bytes ih =>
    have hput : (s.putsChar self t c).display t = (s.display t).put c := by
      by_cases hc : c = 0
      · simp only [Console.putsChar, Display.put, hc, if_true]
      · rw [putsChar_eq hself hc, display_setDisplay]
    refine (ih (putsChar_curTask hself c)).trans ?_
    rw [hput, List.foldl_cons]

/-- A string whose terminal has its cursor on the screen stores to that screen only. -/
theorem onlyOn_putString (hself : s.curTask = self) (hscreen : (s.display t).OnScreen)
    (bytes : List UInt8) : OnlyOn t s.videoPage s (s.putString self t bytes) := by
  have hall : OnlyOn t s.videoPage s (s.putString self t bytes) ∧
      (s.putString self t bytes).videoPage = s.videoPage ∧
      ((s.putString self t bytes).display t).OnScreen := by
    refine putString_invariant (P := fun s' ↦ OnlyOn t s.videoPage s s' ∧
      s'.videoPage = s.videoPage ∧ (s'.display t).OnScreen) ?_ hself
      ⟨OnlyOn.refl t _ s, rfl, hscreen⟩ bytes
    rintro s' c ⟨honly, hpage, hscreen⟩
    have hstep := onlyOn_setDisplay s' t fun a ha ↦ Display.put_outside hscreen c ha
    rw [hpage] at hstep
    refine ⟨honly.trans hstep, by rw [setDisplay_videoPage, hpage], ?_⟩
    rw [display_setDisplay]
    exact hscreen.put c
  exact hall.1

theorem onlyOn_written (s : Console) (self : ℤ) (t : Fin 3)
    (hpage : t = s.currTerminal → s.videoPage = videoMemory) (hscreen : (s.screen t).OnScreen)
    (bytes : List UInt8) : OnlyOn t (s.logicalPage t) s (s.written self t bytes) := by
  rw [← display_openPage s self t hpage] at hscreen
  have hstring := onlyOn_putString (openPage_curTask s) hscreen bytes
  rw [openPage_videoPage s self t hpage] at hstring
  exact (((onlyOn_openPage s self t _).trans hstring).trans (onlyOn_clearBuffer _ self t _)).trans
    (onlyOn_closePage _ t _)

/-- The display is mapped when `terminal_write` returns. -/
theorem written_videoPage (s : Console) (self : ℤ) (t : Fin 3)
    (hpage : t = s.currTerminal → s.videoPage = videoMemory) (bytes : List UInt8) :
    (s.written self t bytes).videoPage = videoMemory := by
  have hself : (s.openPage self t).curTask = self := openPage_curTask s
  generalize hs' : ((s.openPage self t).putString self t bytes).clearBuffer self t = s'
  have hcurr : s'.currTerminal = s.currTerminal := by
    rw [← hs', ← (onlyOn_openPage s self t 0).currTerminal, ← putString_currTerminal hself bytes]
    rfl
  have hmapped : s'.firstPageTable184 = (s.openPage self t).firstPageTable184 := by
    rw [← hs', ← putString_firstPageTable184 hself bytes]
    rfl
  rw [written, hs']
  by_cases hshown : t = s.currTerminal
  · rw [s.openPage_shown self hshown] at hmapped
    rw [s'.closePage_shown (hshown.trans hcurr.symm), videoPage, hmapped]
    exact hpage hshown
  · rw [s'.closePage_hidden (hcurr ▸ hshown)]
    rfl

/-- A call of `terminal_write` for a terminal whose cursor is on the screen changes the screen and
the cursor of that terminal only, within the 4000 bytes that are displayed. Afterwards the display
is mapped again. -/
theorem terminalWrite_frame (s : Console) (self : ℤ) (t : Fin 3) (hpage : s.videoPage = videoMemory)
    (hx0 : 0 ≤ (s.terminals t).termScreenX) (hx : (s.terminals t).termScreenX ≤ 80)
    (hy0 : 0 ≤ (s.terminals t).termScreenY) (hy : (s.terminals t).termScreenY ≤ 24)
    (fd : ℤ) (buf : ℤ → UInt8) (nbytes : ℤ) :
    let s' := (s.terminalWrite self t fd buf nbytes).2
    s'.videoPage = videoMemory ∧ s'.currTerminal = s.currTerminal ∧
      (∀ t' ≠ t, s'.screen t' = s.screen t' ∧ s'.terminals t' = s.terminals t') ∧
      ∀ p a, p ≠ s.logicalPage t ∨ a < 0 ∨ 4000 ≤ a → s'.videoPages p a = s.videoPages p a := by
  intro s'
  have hwrite : s'.videoPage = videoMemory ∧ OnlyOn t (s.logicalPage t) s s' := by
    by_cases hcall : fd = 1 ∧ 0 < nbytes
    · obtain ⟨rfl, hbytes⟩ := hcall
      have hs' : s' = s.written self t (valuesAt buf 0 nbytes.toNat) :=
        congrArg Prod.snd (s.terminalWrite_eq buf hbytes)
      rw [hs']
      exact ⟨written_videoPage s self t (fun _ ↦ hpage) _,
        onlyOn_written s self t (fun _ ↦ hpage) ⟨hx0, hx, hy0, hy⟩ _⟩
    · have hs' : s' = s := terminalWrite_idle s self t buf hcall
      rw [hs']
      exact ⟨hpage, OnlyOn.refl t _ s⟩
  obtain ⟨hmapped, honly⟩ := hwrite
  refine ⟨hmapped, honly.currTerminal, fun t' hne ↦ ⟨?_, honly.terminals t' hne⟩, honly.videoPages⟩
  exact honly.screen_eq hne

/-- A process on the second terminal writes while the first one is displayed. -/
theorem terminalWrite_frame_background :
    let s' := (clearedConsole.terminalWrite 0 1 1 (fun _ ↦ 65) 3).2
    s'.videoPage = videoMemory ∧ s'.currTerminal = clearedConsole.currTerminal ∧
      (∀ t' ≠ 1, s'.screen t' = clearedConsole.screen t' ∧
        s'.terminals t' = clearedConsole.terminals t') ∧
      ∀ p a, p ≠ clearedConsole.logicalPage 1 ∨ a < 0 ∨ 4000 ≤ a →
        s'.videoPages p a = clearedConsole.videoPages p a :=
  terminalWrite_frame clearedConsole 0 1 (by decide) (by decide) (by decide) (by decide)
    (by decide) 1 (fun _ ↦ 65) 3

end Console

end Sp18.Kernel
