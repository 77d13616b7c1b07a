import Sp18.Foundation.TextScreen
import Sp18.Kernel.Writing

/-!
# What `terminal_puts` renders

An 80x25 terminal is a screen of text whose cursor may wait behind the last column (`render`).
`terminal_puts` keeps such a screen, but with a second way of counting: when a character fills a
row, its own cursor moves down at once unless the row is the last one, and moves down once more
when the next character arrives. `terminal_puts` renders a string like a terminal if and only if no
character follows a full row, but for characters other than a carriage return behind a full last row
(`terminalPuts_renders_iff`).
-/

set_option autoImplicit false
set_option relaxedAutoImplicit false

namespace Sp18.Kernel

open Foundation

/-- A screen of characters. -/
abbrev CharScreen := TextScreen UInt8

/-- What a terminal does for one byte. -/
def render (t : CharScreen) (c : UInt8) : CharScreen :=
  if c = 0 then t
  else if c = newlineChar ∨ c = returnChar then t.newLine numRows spaceChar
  else t.write numRows numCols spaceChar c

/-- What a terminal has stored before its cursor stays where it is, or moves up by one row. -/
theorem render_keeps {t : CharScreen} {r c : ℤ} (hbefore : t.Before r c) (b : UInt8) :
    ∃ r', (r' = r ∨ r' = r - 1) ∧ (render t b).cell r' c = t.cell r c := by
  simp only [render]
  split_ifs
  · exact ⟨r, Or.inl rfl, rfl⟩
  · obtain ⟨r', hr', -, hcell⟩ := TextScreen.newLine_keeps hbefore
    exact ⟨r', hr', hcell⟩
  · exact TextScreen.write_keeps hbefore

/-- The terminal shows what a display does. -/
def Display.charScreen (d : Display) : CharScreen where
  cell r c := d.bytes (2 * (numCols * r + c))
  row := d.y
  col := d.x

/-- The display shows the characters of the screen, and has its cursor unless the cursor waits
behind a full row. -/
structure Display.Shows (d : Display) (t : CharScreen) : Prop where
  cell : ∀ r c, 0 ≤ r → r < numRows → 0 ≤ c → c < numCols →
    d.bytes (2 * (numCols * r + c)) = t.cell r c
  x : d.x = t.col
  y : t.col < numCols → d.y = t.row

/-- `terminal_puts` renders the bytes like a terminal whose cursor is at `(x, y)` before, whatever
its screen shows: after each of its rounds the display shows what the terminal does. -/
def Renders (bytes : List UInt8) (x y : ℤ) : Prop :=
  ∀ (s : Console) (self : ℤ) (t : Fin 3), (s.terminals t).termScreenX = x →
    (s.terminals t).termScreenY = y →
    valuesAt (s.terminals t).keyboardBuf 0 bytes.length = bytes →
    ∀ k ≤ bytes.length, ((s.terminalPuts self t k).display t).Shows
      ((bytes.take k).foldl render (s.display t).charScreen)

/-- An empty screen with the cursor at `(x, y)`. -/
def emptyScreen (x y : ℤ) : CharScreen := ⟨fun _ _ ↦ spaceChar, y, x⟩

/-- The byte does not follow a full row of the screen, except that it may follow a full last row
when it is no carriage return. -/
def FollowsWell (t : CharScreen) (c : UInt8) : Prop :=
  c ≠ 0 → t.col = numCols → t.row = numRows - 1 ∧ c ≠ returnChar

/-! ### The rounds -/

/-- The display of `terminal_puts` for a screen. Its cursor is a row too low when it waits behind a
full row, unless this is the last one. -/
structure Display.Holds (d : Display) (t : CharScreen) : Prop where
  inside : t.CursorIn numRows numCols
  cell : ∀ r c, 0 ≤ r → r < numRows → 0 ≤ c → c < numCols →
    d.bytes (2 * (numCols * r + c)) = t.cell r c
  x : d.x = t.col
  y : d.y = if t.col = numCols ∧ t.row ≠ numRows - 1 then t.row + 1 else t.row

namespace Display

variable {d : Display} {t : CharScreen} {c : UInt8}

theorem Holds.shows (h : d.Holds t) : d.Shows t where
  cell := h.cell
  x := h.x
  y hcol := by rw [h.y, if_neg (fun hfull ↦ absurd hfull.1 hcol.ne)]

theorem Holds.onScreen (h : d.Holds t) : d.OnScreen := by
  obtain ⟨hrow, hrow', hcol, hcol'⟩ := h.inside
  have hx := h.x
  have hy := h.y
  unfold numRows numCols at *
  constructor <;> omega

theorem holds_charScreen (hx0 : 0 ≤ d.x) (hx : d.x < 80) (hy0 : 0 ≤ d.y) (hy : d.y ≤ 24) :
    d.Holds d.charScreen where
  inside := ⟨hy0, by change d.y < 25; omega, hx0, hx.le⟩
  cell _ _ _ _ _ _ := rfl
  x := rfl
  y := by rw [if_neg (fun h ↦ absurd h.1 hx.ne)]; rfl

/-- Where the two cursors agree, so do the starts of the next row. -/
theorem Holds.newline (h : d.Holds t) (hy : d.y = t.row) :
    d.newline.Holds (t.newLine numRows spaceChar) := by
  have hinside : (t.newLine numRows spaceChar).CursorIn numRows numCols := h.inside.newLine
  have hcol : ∀ {t : CharScreen}, t.col = 0 → ¬ (t.col = numCols ∧ t.row ≠ numRows - 1) := by
    intro t hzero hfull
    exact absurd (hzero.symm.trans hfull.1) (by decide)
  rw [newline_eq h.onScreen]
  by_cases hlast : d.y = 24
  · have hrow : t.row = numRows - 1 := hy.symm.trans hlast
    rw [if_pos hlast]
    rw [TextScreen.newLine_last hrow] at hinside ⊢
    refine ⟨hinside, fun r c hr0 hr hc0 hc ↦ ?_, rfl, ?_⟩
    · simp only [TextScreen.scroll]
      rw [Console.scrolled_char d.bytes hr0 hr hc0 hc]
      split_ifs with hbottom
      · rfl
      · exact h.cell (r + 1) c (by omega) (by omega) hc0 hc
    · rw [if_neg (hcol rfl)]
      exact hrow.symm
  · have hrow : t.row ≠ numRows - 1 := fun hrow ↦ hlast (hy.trans hrow)
    rw [if_neg hlast]
    rw [TextScreen.newLine_above hrow] at hinside ⊢
    refine ⟨hinside, h.cell, rfl, ?_⟩
    rw [if_neg (hcol rfl)]
    exact congrArg (· + 1) hy

/-- Where the two cursors agree, a character goes to the same cell. -/
theorem Holds.store (h : d.Holds t) (hx : t.col < numCols) (hy : d.y = t.row) (c : UInt8) :
    Holds { d.store c with
      x := d.x + 1, y := if d.x = 79 ∧ d.y ≠ 24 then d.y + 1 else d.y } (t.store c) where
  inside := by
    obtain ⟨hrow, hrow', hcol, -⟩ := h.inside
    exact ⟨hrow, hrow', by rw [TextScreen.store_col]; omega, by rw [TextScreen.store_col]; omega⟩
  cell r c' hr0 hr hc0 hc := by
    have hcell := h.cell r c' hr0 hr hc0 hc
    obtain ⟨hrow, hrow', hcol, -⟩ := h.inside
    simp only [Display.store, Console.putCell_char, TextScreen.store, h.x, hy]
    unfold numCols numRows at *
    split_ifs <;> first | rfl | omega
  x := by rw [TextScreen.store_col, ← h.x]
  y := by
    rw [TextScreen.store_col, TextScreen.store_row, ← hy, ← h.x]
    unfold numCols numRows
    split_ifs <;> first | rfl | omega

/-- A round whose byte does not follow a full row badly. -/
theorem Holds.put (h : d.Holds t) (hfit : FollowsWell t c) : (d.put c).Holds (render t c) := by
  by_cases hc : c = 0
  · rwa [Display.put, if_pos hc, render, if_pos hc]
  have hscreen := h.onScreen
  rw [render, if_neg hc]
  by_cases hfull : t.col = numCols
  · obtain ⟨hrow, hreturn⟩ := hfit hc hfull
    have hx : d.x = 80 := h.x.trans hfull
    have hy : d.y = t.row := by rw [h.y, if_neg (fun hne ↦ hne.2 hrow)]
    have hnext := h.newline hy
    by_cases hchar : c = newlineChar
    · rwa [if_pos (Or.inl hchar), hchar, put_newline_pending hx]
    · rw [if_neg (by tauto), TextScreen.write_pending hfull, hscreen.put_pending hx hc hchar]
      have hzero : (t.newLine numRows spaceChar).col < numCols := by
        rw [TextScreen.newLine_col]
        decide
      have hstore := hnext.store hzero (hnext.shows.y hzero) c
      rwa [newline_x, if_neg (by omega)] at hstore
  · have hx : d.x ≠ 80 := fun hx ↦ hfull (h.x.symm.trans hx)
    have hy : d.y = t.row := by rw [h.y, if_neg (fun hne ↦ hfull hne.1)]
    by_cases hend : c = newlineChar ∨ c = returnChar
    · rw [if_pos hend, put_lineEnd hend hx]
      exact h.newline hy
    · rw [if_neg hend, TextScreen.write_inside hfull, hscreen.put_inside hx hc hend]
      exact h.store (lt_of_le_of_ne h.inside.col_le hfull) hy c

/-- A round whose byte follows a full row badly. Above the last row the cursor ends up a row too
low, or the screen scrolls where it should not, which a nonblank character of the last row gives
away. In the last row a carriage return is stored. -/
theorem Holds.not_shows_put (h : d.Holds t) (hfit : ¬ FollowsWell t c)
    (hlast : t.row < numRows - 1 → t.cell (numRows - 1) 1 ≠ spaceChar) :
    ¬ (d.put c).Shows (render t c) := by
  intro hshows
  obtain ⟨hc, hfull, hbad⟩ : c ≠ 0 ∧ t.col = numCols ∧ (t.row = numRows - 1 → c = returnChar) := by
    simp only [FollowsWell] at hfit
    push Not at hfit
    exact hfit
  have hx : d.x = 80 := h.x.trans hfull
  have hscreen := h.onScreen
  by_cases hreturn : c = returnChar
  · have hcol := hshows.x
    rw [hreturn, hscreen.put_pending hx (by decide) (by decide)] at hcol
    simp [render, returnChar, newlineChar] at hcol
  · have hrow : t.row ≠ numRows - 1 := fun hrow ↦ hreturn (hbad hrow)
    have hrow' : t.row < numRows - 1 := by
      have := h.inside.row_lt
      omega
    have hy : d.y = t.row + 1 := by rw [h.y, if_pos ⟨hfull, hrow⟩]
    have hput : (d.put c).y = d.newline.y ∧ (d.put c).bytes (2 * (numCols * (numRows - 1) + 1)) =
        d.newline.bytes (2 * (numCols * (numRows - 1) + 1)) := by
      by_cases hchar : c = newlineChar
      · rw [hchar, put_newline_pending hx]
        exact ⟨rfl, rfl⟩
      · rw [hscreen.put_pending hx hc hchar]
        refine ⟨rfl, ?_⟩
        simp only [Display.store, Console.putCell_char, newline_x]
        rw [if_neg (by unfold numCols numRows; omega)]
    have hrender : (render t c).row = t.row + 1 ∧ (render t c).col < numCols ∧
        (render t c).cell (numRows - 1) 1 = t.cell (numRows - 1) 1 := by
      rw [render, if_neg hc]
      by_cases hchar : c = newlineChar
      · rw [if_pos (Or.inl hchar), TextScreen.newLine_above hrow]
        exact ⟨rfl, by norm_num [numCols], rfl⟩
      · rw [if_neg (by tauto), TextScreen.write_pending hfull, TextScreen.newLine_above hrow]
        refine ⟨rfl, by norm_num [numCols], ?_⟩
        simp only [TextScreen.store]
        rw [if_neg (by omega)]
    have hrow'' := hshows.y hrender.2.1
    have hcell := hshows.cell (numRows - 1) 1 (by decide) (by decide) (by decide) (by decide)
    rw [hput.1, newline_eq hscreen, hrender.1] at hrow''
    rw [hput.2, newline_eq hscreen, hrender.2.2] at hcell
    by_cases hbottom : d.y = 24
    · have hblank := Console.scrolled_char d.bytes (r := numRows - 1) (c := 1) (by decide)
        (by decide) (by decide) (by decide)
      rw [if_pos rfl] at hblank
      simp only [if_pos hbottom, hblank] at hcell
      exact hlast hrow' hcell.symm
    · rw [if_neg hbottom] at hrow''
      simp only at hrow''
      omega

end Display

/-! ### A string -/

section Strings

variable {bytes : List UInt8} {d : Display} {t t' : CharScreen}

theorem render_sameCursor (h : t.SameCursor t') (c : UInt8) :
    (render t c).SameCursor (render t' c) := by
  simp only [render]
  split_ifs
  · exact h
  · exact h.newLine
  · exact h.write

theorem foldl_render_sameCursor (h : t.SameCursor t') (bytes : List UInt8) :
    (bytes.foldl render t).SameCursor (bytes.foldl render t') := by
  induction bytes generalizing t t' with
  | nil => exact h
  | cons c bytes ih => exact ih (render_sameCursor h c)

theorem FollowsWell.congr (h : t.SameCursor t') (c : UInt8) :
    FollowsWell t c ↔ FollowsWell t' c := by
  rw [FollowsWell, FollowsWell, h.1, h.2]

/-- Above the last row nothing has been stored in it. -/
theorem foldl_render_lastRow (bytes : List UInt8)
    (h : (bytes.foldl render t).row < numRows - 1) :
    t.row < numRows - 1 ∧ (bytes.foldl render t).cell (numRows - 1) = t.cell (numRows - 1) := by
  induction bytes generalizing t with
  | nil => exact ⟨h, rfl⟩
  | cons c bytes ih =>
    obtain ⟨habove, hcells⟩ := ih h
    have hstep : t.row < numRows - 1 ∧
        (render t c).cell (numRows - 1) = t.cell (numRows - 1) := by
      simp only [render] at habove ⊢
      split_ifs at habove ⊢
      · exact ⟨habove, rfl⟩
      · exact TextScreen.newLine_lastRow habove
      · exact TextScreen.write_lastRow habove
    exact ⟨hstep.1, hcells.trans hstep.2⟩

/-- The rounds whose bytes do not follow a full row badly. -/
theorem holds_take (h : d.Holds t) {k : ℕ} (hk : k ≤ bytes.length)
    (hfit : ∀ (j : ℕ) (hj : j < bytes.length), j < k →
      FollowsWell ((bytes.take j).foldl render t) bytes[j]) :
    Display.Holds ((bytes.take k).foldl Display.put d) ((bytes.take k).foldl render t) := by
  induction k with
  | zero => exact h
  | succ k ih =>
    have hbefore := ih (by omega) fun j hj hjk ↦ hfit j hj (by omega)
    rw [List.take_succ_eq_append_getElem (by omega), List.foldl_append, List.foldl_append]
    exact hbefore.put (hfit k (by omega) (by omega))

theorem display_terminalPuts (s : Console) (self : ℤ) (t : Fin 3) (nbytes : ℤ) :
    (s.terminalPuts self t nbytes).display t =
      (valuesAt (s.terminals t).keyboardBuf 0 nbytes.toNat).foldl Display.put (s.display t) := by
  have hself := Console.terminalPuts_eq (s := { s with curTask := self }) (t := t) rfl nbytes
  exact (congrArg (Console.display · t) hself).trans (Console.display_putString rfl _)

theorem display_terminalPuts_take {s : Console} (self : ℤ) {t : Fin 3}
    (hbuffer : valuesAt (s.terminals t).keyboardBuf 0 bytes.length = bytes) {k : ℕ}
    (hk : k ≤ bytes.length) : (s.terminalPuts self t k).display t =
      (bytes.take k).foldl Display.put (s.display t) := by
  have htake := take_valuesAt (s.terminals t).keyboardBuf 0 hk
  rw [hbuffer] at htake
  rw [display_terminalPuts, Int.toNat_natCast, htake]

end Strings

/-- A console that shows no blanks, with the cursor of every terminal at `(x, y)` and the bytes in
its buffer. -/
def loadedConsole (bytes : List UInt8) (x y : ℤ) : Console :=
  { clearedConsole with terminals := fun _ ↦
      ⟨0, fun i ↦ bytes.getD i.toNat 0, 0, x, y, 0, false⟩ }

theorem valuesAt_getD (bytes : List UInt8) :
    valuesAt (fun i ↦ bytes.getD i.toNat 0) 0 bytes.length = bytes := by
  refine List.ext_getElem (length_valuesAt _ _ _) fun i hi hi' ↦ ?_
  simp [valuesAt, hi']

/-- `terminal_puts` renders a string from a cursor inside a row like a terminal if and only if no
byte follows a full row badly. -/
theorem terminalPuts_renders_iff (bytes : List UInt8) {x y : ℤ} (hx0 : 0 ≤ x) (hx : x < 80)
    (hy0 : 0 ≤ y) (hy : y ≤ 24) : Renders bytes x y ↔ ∀ (k : ℕ) (hk : k < bytes.length),
      FollowsWell ((bytes.take k).foldl render (emptyScreen x y)) bytes[k] := by
  have hcursor : ∀ (d : Display) (k : ℕ), d.x = x → d.y = y →
      TextScreen.SameCursor ((bytes.take k).foldl render (emptyScreen x y))
        ((bytes.take k).foldl render d.charScreen) :=
    fun d k hdx hdy ↦ foldl_render_sameCursor ⟨hdy.symm, hdx.symm⟩ _
  constructor
  · intro hrenders k
    -- the first byte that follows a full row badly shows on the screen
    induction k using Nat.strong_induction_on with
    | _ k ih =>
      intro hk
      by_contra hbad
      let d := (loadedConsole bytes x y).display 0
      have hholds : Display.Holds ((bytes.take k).foldl Display.put d)
          ((bytes.take k).foldl render d.charScreen) :=
        holds_take (Display.holds_charScreen hx0 hx hy0 hy) hk.le fun j hj hjk ↦
          (FollowsWell.congr (hcursor d j rfl rfl) _).mp (ih j hjk hj)
      have hshows := hrenders (loadedConsole bytes x y) 0 0 rfl rfl (valuesAt_getD bytes) (k + 1) hk
      rw [display_terminalPuts_take 0 (valuesAt_getD bytes) hk, List.take_succ_eq_append_getElem hk,
        List.foldl_append, List.foldl_append] at hshows
      refine hholds.not_shows_put (fun hfit ↦ ?_) (fun habove ↦ ?_) hshows
      · exact hbad ((FollowsWell.congr (hcursor d k rfl rfl) _).mpr hfit)
      · rw [(foldl_render_lastRow _ habove).2]
        exact (by decide : (0 : UInt8) ≠ spaceChar)
  · intro hfit s self t hsx hsy hbuffer k hk
    rw [display_terminalPuts_take self hbuffer hk]
    subst hsx hsy
    refine (holds_take (Display.holds_charScreen hx0 hx hy0 hy) hk fun j hj _ ↦ ?_).shows
    exact (FollowsWell.congr (hcursor _ j rfl rfl) _).mp (hfit j hj)

/-- The two letters from the last column of the first row on. -/
theorem terminalPuts_renders_iff_letters : Renders [65, 66] 79 0 ↔
    ∀ (k : ℕ) (hk : k < [(65 : UInt8), 66].length),
      FollowsWell (([(65 : UInt8), 66].take k).foldl render (emptyScreen 79 0))
        [(65 : UInt8), 66][k] :=
  terminalPuts_renders_iff [65, 66] (by decide) (by decide) (by decide) (by decide)

/-- The second letter is stored two rows below the first one. -/
theorem terminalPuts_not_always : ¬ ∀ (bytes : List UInt8) (x y : ℤ), 0 ≤ x → x < 80 → 0 ≤ y →
    y ≤ 24 → Renders bytes x y := by
  intro hall
  have hshows := hall [65, 66] 79 0 (by decide) (by decide) (by decide) (by decide)
    (loadedConsole [65, 66] 79 0) 0 0 rfl rfl (valuesAt_getD _) 2 (by decide)
  have hrow := hshows.y (by decide)
  exact absurd hrow (by decide)

end Sp18.Kernel
