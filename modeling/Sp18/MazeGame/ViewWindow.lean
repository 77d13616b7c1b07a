import Sp18.Foundation.Checked
import Sp18.MazeGame.Modex

/-!
# The window in the build buffer

The test that `set_view_window` makes of a window, and what it has to do with the bytes of the
buffer: a window passes it exactly if all its pixels lie in the buffer (`windowFits_iff`), since the
first byte of plane 3 has the lowest and the last byte of plane 0 the highest address of a pixel.

What `set_view_window` copies lies between the first and the last byte of both windows, so that a
copy from a window in the buffer stays in the buffer (`setViewWindow_accesses`). `draw_full_block`
changes the bytes of the pixels of the block that are in the window, and no others
(`drawFullBlock_exact`). `draw_vert_line` and `draw_horiz_line` change the bytes of their line, and
refuse lines that are not in the window, except for the column behind the last one
(`drawLines_exact`).
-/

set_option autoImplicit false
set_option relaxedAutoImplicit false

namespace Sp18.MazeGame

open Foundation

/-- The address belongs to the build buffer, between its fences. -/
def InBuild (a : ℤ) : Prop := memFenceWidth ≤ a ∧ a < memFenceWidth + buildBufSize

instance : DecidablePred InBuild := fun _ ↦ inferInstanceAs (Decidable (_ ∧ _))

namespace Screen

/-- The test of `set_view_window`: the window fits within the boundaries of the build buffer. -/
def WindowFits (s : Screen) : Prop :=
  s.img3Off + s.showX / 4 + s.showY * scrollXWidth ≥ 0 ∧
    s.img3Off + 3 * scrollSize + (s.showX + scrollXDim - 1) / 4 +
      (s.showY + scrollYDim - 1) * scrollXWidth < buildBufSize

instance (s : Screen) : Decidable s.WindowFits := inferInstanceAs (Decidable (_ ∧ _))

/-- `copyWindow` with a check of each address that is loaded from or stored to -/
def copyWindowChecked (s : Screen) (oldX oldY oldOff : ℤ) : Except Stop Screen := do
  let startX := if s.showX > oldX then s.showX else oldX
  let endX := (if s.showX > oldX then oldX else s.showX) + (scrollXDim - 1)
  let startY := if s.showY > oldY then s.showY else oldY
  let endY := (if s.showY > oldY then oldY else s.showY) + (scrollYDim - 1)
  let startOff := startX / 4 + startY * scrollXWidth
  let startAddr := oldOff + memFenceWidth + startOff
  let length := (endX / 4 + endY * scrollXWidth + 1 - startOff + 3 * scrollSize).toNat
  let targetAddr := s.img3 + startOff
  let build ←
    if startAddr < targetAddr then copyDownChecked InBuild targetAddr startAddr length s.build
    else copyUpChecked InBuild targetAddr startAddr s.build length
  return { s with build := build }

/-- `set_view_window` with checks -/
def setViewWindowChecked (s : Screen) (scrX scrY : ℤ) : Except Stop Screen :=
  let moved := { s with showX := scrX, showY := scrY }
  if s.img3Off + scrX / 4 + scrY * scrollXWidth ≥ 0 ∧
      s.img3Off + 3 * scrollSize + (scrX + scrollXDim - 1) / 4 +
        (scrY + scrollYDim - 1) * scrollXWidth < buildBufSize then return moved
  else
    let repositioned :=
      { moved with img3Off := buildBaseInit - scrX / 4 - scrY * scrollXWidth }
    if scrX ≤ s.showX - scrollXDim ∨ scrX ≥ s.showX + scrollXDim ∨
        scrY ≤ s.showY - scrollYDim ∨ scrY ≥ s.showY + scrollYDim then return repositioned
    else repositioned.copyWindowChecked s.showX s.showY s.img3Off

variable {s : Screen} {scrX scrY x y : ℤ}

/-! ### The test of the window -/

theorem windowFits_eq (s : Screen) : s.WindowFits ↔ s.img3Off + s.showX / 4 + s.showY * 80 ≥ 0 ∧
    s.img3Off + 3 * 14560 + (s.showX + 320 - 1) / 4 + (s.showY + 182 - 1) * 80 < 78241 := Iff.rfl

/-- The window passes the test if and only if all its pixels lie in the build buffer. -/
theorem windowFits_iff (s : Screen) : s.WindowFits ↔ s.InBuffer := by
  have hconst : memFenceWidth = 256 ∧ buildBufSize = 78241 := ⟨rfl, rfl⟩
  rw [windowFits_eq]
  constructor
  · rintro ⟨hfirst, hlast⟩ x y hview
    rw [inView_iff] at hview
    rw [pixelAddr_eq, hconst.1, hconst.2]
    omega
  · intro h
    -- the first pixel of plane 3 and the last one of plane 0
    have hfirst := h (s.showX + (3 - s.showX % 4)) s.showY ((inView_iff s _ _).mpr (by omega))
    have hlast := h ((s.showX + 319) / 4 * 4) (s.showY + 181) ((inView_iff s _ _).mpr (by omega))
    rw [pixelAddr_eq, hconst.1, hconst.2] at hfirst hlast
    omega

/-- The window of `set_view_window` passes the test afterwards. -/
theorem setViewWindow_windowFits (s : Screen) (scrX scrY : ℤ) :
    (s.setViewWindow scrX scrY).WindowFits :=
  (windowFits_iff _).mpr (setViewWindow_inBuffer s scrX scrY)

/-! ### The accesses of `set_view_window` -/

/-- The copy from a window in the buffer to another one stays in the buffer. -/
theorem copyWindowChecked_eq {oldX oldY oldOff : ℤ} (h : s.WindowFits)
    (hold : ({ s with showX := oldX, showY := oldY, img3Off := oldOff } : Screen).WindowFits) :
    s.copyWindowChecked oldX oldY oldOff = .ok (s.copyWindow oldX oldY oldOff) := by
  rw [windowFits_eq] at h hold
  dsimp only at hold
  simp only [copyWindowChecked, copyWindow]
  generalize hstartX : (if s.showX > oldX then s.showX else oldX) = startX
  generalize hendX : (if s.showX > oldX then oldX else s.showX) + (scrollXDim - 1) = endX
  generalize hstartY : (if s.showY > oldY then s.showY else oldY) = startY
  generalize hendY : (if s.showY > oldY then oldY else s.showY) + (scrollYDim - 1) = endY
  have hconst : scrollXDim = 320 ∧ scrollYDim = 182 ∧ scrollXWidth = 80 ∧ scrollSize = 14560 ∧
    memFenceWidth = 256 := ⟨rfl, rfl, rfl, rfl, rfl⟩
  simp only [hconst, img3] at hendX hendY ⊢
  -- the data that is copied starts in both windows and ends in both
  have hstart : s.showX ≤ startX ∧ oldX ≤ startX ∧ s.showY ≤ startY ∧ oldY ≤ startY := by
    split_ifs at hstartX hstartY <;> omega
  have hend : endX ≤ s.showX + 319 ∧ endX ≤ oldX + 319 ∧ endY ≤ s.showY + 181 ∧
      endY ≤ oldY + 181 := by
    split_ifs at hendX hendY <;> omega
  have hinside : ∀ i < (endX / 4 + endY * 80 + 1 - (startX / 4 + startY * 80) + 3 * 14560).toNat,
      InBuild (s.img3Off + 256 + (startX / 4 + startY * 80) + (i : ℕ)) ∧
        InBuild (oldOff + 256 + (startX / 4 + startY * 80) + (i : ℕ)) := by
    have hbuf : buildBufSize = 78241 := rfl
    intro i hi
    unfold InBuild
    rw [hconst.2.2.2.2, hbuf]
    omega
  split_ifs with hdown
  · rw [copyDownChecked_eq _ hinside]
    rfl
  · rw [copyUpChecked_eq _ hinside]
    rfl

/-- From a window in the buffer, `set_view_window` makes all accesses of its copy inside the buffer.
The new window lies in the buffer, too, and the pixels that were in view and still are have their
values, wherever they have gone. -/
theorem setViewWindow_accesses (h : s.InBuffer) (scrX scrY : ℤ) :
    s.setViewWindowChecked scrX scrY = .ok (s.setViewWindow scrX scrY) ∧
      (s.setViewWindow scrX scrY).WindowFits ∧ (s.setViewWindow scrX scrY).InBuffer ∧
      ∀ x y, s.InView x y → (s.setViewWindow scrX scrY).InView x y →
        (s.setViewWindow scrX scrY).pixel x y = s.pixel x y := by
  refine ⟨?_, setViewWindow_windowFits s scrX scrY, setViewWindow_inBuffer s scrX scrY,
    fun x y hold hview ↦ setViewWindow_pixel hold hview⟩
  have hfits := setViewWindow_windowFits s scrX scrY
  have hold := (windowFits_iff s).mpr h
  simp only [setViewWindowChecked, setViewWindow] at hfits ⊢
  split_ifs at hfits ⊢ with hin hapart
  · rfl
  · rfl
  · exact copyWindowChecked_eq hfits hold

/-- A screen with an empty buffer and the window in the middle of it. -/
def emptyScreen : Screen := ⟨fun _ ↦ 0, buildBaseInit, 0, 0, fun _ ↦ 0⟩

theorem emptyScreen_inBuffer : emptyScreen.InBuffer :=
  (windowFits_iff _).mp (by decide)

/-- The same window in a buffer that is painted in stripes. -/
def stripedScreen : Screen := { emptyScreen with build := fun a ↦ (a % 251).toNat.toUInt8 }

/-- A move of the window out of the buffer, which is put into the middle again: the part of 307
columns and 56 rows that stays in view is copied. -/
theorem setViewWindow_accesses_striped :
    (stripedScreen.setViewWindow 13 126).img3Off = -83 ∧
      stripedScreen.setViewWindowChecked 13 126 = .ok (stripedScreen.setViewWindow 13 126) ∧
      (stripedScreen.setViewWindow 13 126).WindowFits ∧
      (stripedScreen.setViewWindow 13 126).InBuffer ∧
      ∀ x y, stripedScreen.InView x y → (stripedScreen.setViewWindow 13 126).InView x y →
        (stripedScreen.setViewWindow 13 126).pixel x y = stripedScreen.pixel x y := by
  have hbuffer : stripedScreen.InBuffer := (windowFits_iff _).mp (by decide)
  exact ⟨by decide +kernel, setViewWindow_accesses hbuffer 13 126⟩

/-! ### The bytes of a block -/

/-- `draw_full_block` stores the pixels of the block that are in the window where the window has
them, and changes no other byte; all that it changes lies in the build buffer. -/
theorem drawFullBlock_exact (h : s.InBuffer) (posX posY : ℤ) (blk : Image) :
    (∀ i j, 0 ≤ i → i < 12 → 0 ≤ j → j < 12 → s.InView (posX + i) (posY + j) →
        (s.drawFullBlock posX posY blk).build (s.pixelAddr (posX + i) (posY + j)) =
          blk (j * 12 + i)) ∧
      (∀ a, (∀ i j, 0 ≤ i → i < 12 → 0 ≤ j → j < 12 → s.InView (posX + i) (posY + j) →
          s.pixelAddr (posX + i) (posY + j) ≠ a) →
        (s.drawFullBlock posX posY blk).build a = s.build a) ∧
      (∀ a, (s.drawFullBlock posX posY blk).build a ≠ s.build a → InBuild a) ∧
      s.SameWindow (s.drawFullBlock posX posY blk) := by
  have hsame := drawFullBlock_sameWindow s posX posY blk
  refine ⟨fun i j hi0 hi1 hj0 hj1 hview ↦ ?_, fun a hne ↦ ?_, fun a hchanged ↦ ?_, hsame⟩
  · have hpixel : (s.drawFullBlock posX posY blk).pixel (posX + i) (posY + j) = _ :=
      drawFullBlock_pixel hview
    rw [pixel, hsame.pixelAddr, if_pos (by omega)] at hpixel
    rw [hpixel]
    congr 1
    ring
  · refine drawFullBlock_of_ne fun x y hview hx0 hx1 hy0 hy1 ↦ ?_
    have haddr := hne (x - posX) (y - posY) (by omega) (by omega) (by omega) (by omega)
    rw [add_sub_cancel, add_sub_cancel] at haddr
    exact haddr hview
  · by_contra hout
    refine hchanged (drawFullBlock_of_ne fun x y hview _ _ _ _ heq ↦ hout ?_)
    rw [← heq]
    exact h x y hview

/-- A block that is clipped at the right and at the bottom. -/
theorem drawFullBlock_exact_emptyScreen :
    (∀ i j, 0 ≤ i → i < 12 → 0 ≤ j → j < 12 → emptyScreen.InView (310 + i) (175 + j) →
        (emptyScreen.drawFullBlock 310 175 fun _ ↦ 1).build
          (emptyScreen.pixelAddr (310 + i) (175 + j)) = 1) ∧
      (∀ a, (∀ i j, 0 ≤ i → i < 12 → 0 ≤ j → j < 12 → emptyScreen.InView (310 + i) (175 + j) →
          emptyScreen.pixelAddr (310 + i) (175 + j) ≠ a) →
        (emptyScreen.drawFullBlock 310 175 fun _ ↦ 1).build a = emptyScreen.build a) ∧
      (∀ a, (emptyScreen.drawFullBlock 310 175 fun _ ↦ 1).build a ≠ emptyScreen.build a →
        InBuild a) ∧
      emptyScreen.SameWindow (emptyScreen.drawFullBlock 310 175 fun _ ↦ 1) :=
  drawFullBlock_exact emptyScreen_inBuffer 310 175 fun _ ↦ 1

/-! ### The bytes of a line -/

/-- What is promised of the functions that draw a line, with the state before and after a call and
the value that it returns. A line that is out of range is refused, and nothing is changed. Otherwise
the bytes of the pixels of the line hold what the callback has supplied, no other byte is changed,
and none outside of the build buffer. -/
structure DrawsLine (s s' : Screen) (returns : ℤ) (inRange : Prop) (count : ℕ) (px py : ℕ → ℤ)
    (line : ℕ → UInt8) : Prop where
  refused : ¬inRange → returns = -1 ∧ s' = s
  accepted : inRange → returns = 0
  stored : returns = 0 → ∀ i < count, s'.build (s.pixelAddr (px i) (py i)) = line i
  others : returns = 0 → ∀ a, (∀ i < count, s.pixelAddr (px i) (py i) ≠ a) → s'.build a = s.build a
  inBuild : ∀ a, s'.build a ≠ s.build a → InBuild a

/-- What is promised of `draw_vert_line`. -/
def DrawsVertLine (s : Screen) (vertLineFn : ℤ → ℤ → ℕ → UInt8) (x : ℤ) : Prop :=
  DrawsLine s (s.drawVertLine vertLineFn x) (drawVertLineReturns x) (0 ≤ x ∧ x < scrollXDim)
    scrollYDim.toNat (fun _ ↦ x + s.showX) (fun j ↦ s.showY + (j : ℕ))
    (vertLineFn (x + s.showX) s.showY)

/-- What is promised of `draw_horiz_line`. -/
def DrawsHorizLine (s : Screen) (horizLineFn : ℤ → ℤ → ℕ → UInt8) (y : ℤ) : Prop :=
  DrawsLine s (s.drawHorizLine horizLineFn y) (drawHorizLineReturns y) (0 ≤ y ∧ y < scrollYDim)
    scrollXDim.toNat (fun i ↦ s.showX + (i : ℕ)) (fun _ ↦ y + s.showY)
    (horizLineFn s.showX (y + s.showY))

section Line

variable {s' : Screen} {returns : ℤ} {inRange : Prop} {count : ℕ} {px py : ℕ → ℤ}
  {line : ℕ → UInt8}

/-- A line in the window is drawn by the stores to its pixels, one after the other. -/
theorem drawsLine_of_writeSeq (h : s.InBuffer) (hin : inRange) (hreturns : returns = 0)
    (hbuild : s'.build = writeSeq (fun i ↦ s.pixelAddr (px i) (py i)) line s.build count)
    (hline : ∀ i < count, s.InView (px i) (py i))
    (hinj : ∀ i j, px i = px j → py i = py j → i = j) :
    DrawsLine s s' returns inRange count px py line := by
  refine ⟨fun hout ↦ absurd hin hout, fun _ ↦ hreturns, fun _ i hi ↦ ?_, fun _ a hne ↦ ?_,
    fun a hchanged ↦ ?_⟩
  · rw [hbuild]
    exact writeLine_apply hline hinj hi
  · rw [hbuild]
    exact writeSeq_of_ne hne
  · by_contra hout
    rw [hbuild] at hchanged
    refine hchanged (writeSeq_of_ne fun i hi heq ↦ hout ?_)
    rw [← heq]
    exact h _ _ (hline i hi)

theorem drawsLine_of_refused (hout : ¬inRange) (hreturns : returns = -1) (hsame : s' = s) :
    DrawsLine s s' returns inRange count px py line := by
  refine ⟨fun _ ↦ ⟨hreturns, hsame⟩, fun hin ↦ absurd hin hout, fun hzero ↦ ?_, fun hzero ↦ ?_,
    fun a hchanged ↦ ?_⟩
  · omega
  · omega
  · rw [hsame] at hchanged
    exact absurd rfl hchanged

end Line

/-- The line one behind the window is drawn, too, instead of being refused. -/
theorem drawsVertLine_iff (h : s.InBuffer) (vertLineFn : ℤ → ℤ → ℕ → UInt8) (x : ℤ) :
    s.DrawsVertLine vertLineFn x ↔ x ≠ 320 := by
  have hconst : scrollXDim = 320 := rfl
  constructor
  · rintro hdraws rfl
    have hrefused := (hdraws.refused (by rw [hconst]; omega)).1
    exact absurd hrefused (by decide)
  · intro hne
    by_cases hrange : 0 ≤ x ∧ x < scrollXDim
    · refine drawsLine_of_writeSeq h hrange ?_ (drawVertLine_build hrange.1 hrange.2.le) ?_ ?_
      · rw [drawVertLineReturns, if_neg (by omega)]
      · intro j hj
        have hj' : j < 182 := hj
        rw [hconst] at hrange
        rw [inView_iff]
        omega
      · intro i j _ hsame
        omega
    · have hout : x < 0 ∨ x > scrollXDim := by omega
      refine drawsLine_of_refused hrange ?_ ?_
      · rw [drawVertLineReturns, if_pos hout]
      · rw [drawVertLine, if_pos hout]

theorem drawsHorizLine (h : s.InBuffer) (horizLineFn : ℤ → ℤ → ℕ → UInt8) (y : ℤ) :
    s.DrawsHorizLine horizLineFn y := by
  have hconst : scrollYDim = 182 := rfl
  by_cases hrange : 0 ≤ y ∧ y < scrollYDim
  · refine drawsLine_of_writeSeq h hrange ?_ (drawHorizLine_build hrange.1 hrange.2) ?_ ?_
    · rw [drawHorizLineReturns, if_neg (by omega)]
    · intro i hi
      have hi' : i < 320 := hi
      rw [hconst] at hrange
      rw [inView_iff]
      omega
    · intro i j hsame _
      omega
  · have hout : y < 0 ∨ y ≥ scrollYDim := by omega
    refine drawsLine_of_refused hrange ?_ ?_
    · rw [drawHorizLineReturns, if_pos hout]
    · rw [drawHorizLine, if_pos hout]

/-- Both functions keep what is promised of them, except that `draw_vert_line` takes the column
behind the last one of the window for one of its columns. -/
theorem drawLines_exact (h : s.InBuffer) (vertLineFn horizLineFn : ℤ → ℤ → ℕ → UInt8) (x y : ℤ) :
    s.DrawsVertLine vertLineFn x ∧ s.DrawsHorizLine horizLineFn y ↔ x ≠ 320 := by
  rw [drawsVertLine_iff h]
  exact and_iff_left (drawsHorizLine h horizLineFn y)

theorem drawLines_exact_emptyScreen : emptyScreen.DrawsVertLine (fun _ _ _ ↦ 1) 319 ∧
    emptyScreen.DrawsHorizLine (fun _ _ _ ↦ 1) 181 :=
  (drawLines_exact emptyScreen_inBuffer (fun _ _ _ ↦ 1) (fun _ _ _ ↦ 1) 319 181).mpr (by decide)

/-- Column 320 is drawn: its first pixel gets the byte of the callback, which is the pixel at the
start of the next row. -/
theorem drawVertLine_not_always : emptyScreen.InBuffer ∧
    ¬(emptyScreen.DrawsVertLine (fun _ _ _ ↦ 1) 320 ∧
      emptyScreen.DrawsHorizLine (fun _ _ _ ↦ 1) 0) ∧
    drawVertLineReturns 320 = 0 ∧
    (emptyScreen.drawVertLine (fun _ _ _ ↦ 1) 320).pixel 0 1 ≠ emptyScreen.pixel 0 1 := by
  refine ⟨emptyScreen_inBuffer, fun hdraws ↦ ?_, rfl, ?_⟩
  · exact absurd (hdraws.1.refused (by decide)).1 (by decide)
  · have hstored : (emptyScreen.drawVertLine (fun _ _ _ ↦ 1) 320).build
        (emptyScreen.pixelAddr 0 1) = 1 := by
      rw [drawVertLine_build (by decide) (by decide)]
      exact writeSeq_apply (i := 0) (by decide) fun j hj hlater ↦ by
        rw [pixelAddr_eq, pixelAddr_eq]
        omega
    rw [pixel, pixel, (drawVertLine_sameWindow emptyScreen _ 320).pixelAddr, hstored]
    decide

end Screen

end Sp18.MazeGame
