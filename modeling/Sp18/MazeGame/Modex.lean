import Sp18.MazeGame.Maze

/-!
# The build buffer

The part of `modex.c` that builds images: a logical view window on the maze, whose pixels stand in
the array `build` in four planes, plane 3 first. A pixel of the window has the address
`Screen.pixelAddr`, and no two pixels of the window share one (`pixelAddr_inj`), although the planes
of a window that does not start at a multiple of four overlap by one byte.

`set_view_window` moves the window, and the images with it when the window would leave the buffer:
what is in the old and in the new window keeps its pixel (`setViewWindow_pixel`), and the window
lies in the buffer afterwards (`setViewWindow_inBuffer`). The drawing functions change the pixels
they are asked to and no others of the window.
-/

set_option autoImplicit false
set_option relaxedAutoImplicit false

namespace Sp18.MazeGame

open Foundation

/-- `SCROLL_X_WIDTH` -/
def scrollXWidth : ℤ := scrollXDim / 4

/-- `SCROLL_SIZE` -/
def scrollSize : ℤ := scrollXWidth * scrollYDim

/-- `SCREEN_SIZE` -/
def screenSize : ℤ := scrollSize * 4 + 1

/-- `BUILD_BUF_SIZE` -/
def buildBufSize : ℤ := screenSize + 20000

/-- `BUILD_BASE_INIT` -/
def buildBaseInit : ℤ := (buildBufSize - screenSize) / 2

/-- `MEM_FENCE_WIDTH` -/
def memFenceWidth : ℤ := 256

/-- The build buffer with the logical view window, and the array `block_mask`. -/
structure Screen where
  build : ℤ → UInt8
  img3Off : ℤ
  showX : ℤ
  showY : ℤ
  blockMask : Image

namespace Screen

/-- `img3` -/
def img3 (s : Screen) : ℤ := s.img3Off + memFenceWidth

/-- The address of a pixel. -/
def pixelAddr (s : Screen) (x y : ℤ) : ℤ :=
  s.img3 + x / 4 + y * scrollXWidth + (3 - x % 4) * scrollSize

/-- The end of `set_view_window`, which copies what remains on the screen from its old location in
the build buffer to its new one. -/
def copyWindow (s : Screen) (oldX oldY oldOff : ℤ) : Screen :=
  let startX := if s.showX > oldX then s.showX else oldX
  let endX := (if s.showX > oldX then oldX else s.showX) + (scrollXDim - 1)
  let startY := if s.showY > oldY then s.showY else oldY
  let endY := (if s.showY > oldY then oldY else s.showY) + (scrollYDim - 1)
  let startOff := startX / 4 + startY * scrollXWidth
  let startAddr := oldOff + memFenceWidth + startOff
  let length := (endX / 4 + endY * scrollXWidth + 1 - startOff + 3 * scrollSize).toNat
  let targetAddr := s.img3 + startOff
  { s with
    build :=
      if startAddr < targetAddr then copyDown targetAddr startAddr length s.build
      else copyUp targetAddr startAddr s.build length }

/-- `set_view_window` -/
def setViewWindow (s : Screen) (scrX scrY : ℤ) : Screen :=
  let moved := { s with showX := scrX, showY := scrY }
  if s.img3Off + scrX / 4 + scrY * scrollXWidth ≥ 0 ∧
      s.img3Off + 3 * scrollSize + (scrX + scrollXDim - 1) / 4 +
        (scrY + scrollYDim - 1) * scrollXWidth < buildBufSize then moved
  else
    let repositioned :=
      { moved with img3Off := buildBaseInit - scrX / 4 - scrY * scrollXWidth }
    if scrX ≤ s.showX - scrollXDim ∨ scrX ≥ s.showX + scrollXDim ∨
        scrY ≤ s.showY - scrollYDim ∨ scrY ≥ s.showY + scrollYDim then repositioned
    else repositioned.copyWindow s.showX s.showY s.img3Off

/-- A block at the given coordinates is completely off-screen. -/
def offScreen (s : Screen) (posX posY : ℤ) : Bool :=
  posX + blockDim ≤ s.showX || posX ≥ s.showX + scrollXDim ||
    posY + blockDim ≤ s.showY || posY ≥ s.showY + scrollYDim

/-- What remains of a block of 12 lines when it is clipped to a window that starts at `start` and is
`dim` lines wide: how many lines are skipped, and how many are drawn. -/
def clip (start dim pos : ℤ) : ℤ × ℤ :=
  let first := if start - pos < 0 then 0 else start - pos
  let last := if start + dim - pos > blockDim then blockDim else start + dim - pos
  (first, last - first)

/-- `draw_full_block` -/
def drawFullBlock (s : Screen) (posX posY : ℤ) (blk : Image) : Screen :=
  if s.offScreen posX posY then s
  else
    let (left, columns) := clip s.showX scrollXDim posX
    let (top, rows) := clip s.showY scrollYDim posY
    { s with
      build := writeRows
        (fun dy dx ↦ s.pixelAddr (posX + left + dx) (posY + top + dy))
        (fun dy dx ↦ blk (left + top * blockDim + dy * (columns + (blockDim - columns)) + dx))
        s.build columns.toNat rows.toNat }

/-- One pixel of `mask`: the pixel goes to the background, and the player over it where the mask
is 1. -/
def maskPixel (s : Screen) (x y : ℤ) (pixel masking : UInt8) (background : ℤ) : Screen :=
  { s with
    blockMask := Function.update s.blockMask background (s.build (s.pixelAddr x y))
    build := if masking = 1 then Function.update s.build (s.pixelAddr x y) pixel else s.build }

/-- The inner loop of `mask`. -/
def maskRow (x y : ℤ) (blk masking : Image) (background : ℤ) (s : Screen) : ℕ → Screen
  | 0 => s
  | dx + 1 =>
    (maskRow x y blk masking background s dx).maskPixel (x + dx) y (blk dx)
      (masking (background + dx)) (background + dx)

/-- The loops of `mask`. -/
def maskRows (x y : ℤ) (blk masking : Image) (columns : ℤ) (s : Screen) : ℕ → Screen
  | 0 => s
  | dy + 1 =>
    let row := dy * (columns + (blockDim - columns))
    maskRow x (y + dy) (fun i ↦ blk (row + i)) masking row
      (maskRows x y blk masking columns s dy) columns.toNat

/-- `mask`, which always fills the array `block_mask` -/
def mask (s : Screen) (posX posY : ℤ) (blk masking : Image) : Screen :=
  if s.offScreen posX posY then s
  else
    let (left, columns) := clip s.showX scrollXDim posX
    let (top, rows) := clip s.showY scrollYDim posY
    maskRows (posX + left) (posY + top) (fun i ↦ blk (left + top * blockDim + i)) masking columns s
      rows.toNat

/-- `draw_vert_line`, with what `vert_line_fn` leaves in the buffer -/
def drawVertLine (s : Screen) (vertLineFn : ℤ → ℤ → ℕ → UInt8) (x : ℤ) : Screen :=
  if x < 0 ∨ x > scrollXDim then s
  else
    let buf := vertLineFn (x + s.showX) s.showY
    let addr := s.img3 + (x + s.showX) / 4 + s.showY * scrollXWidth
    let pOff := 3 - (x + s.showX) % 4
    { s with
      build := writeSeq (fun j ↦ addr + j * scrollXWidth + pOff * scrollSize) buf s.build
        scrollYDim.toNat }

/-- The value that `draw_vert_line` returns. -/
def drawVertLineReturns (x : ℤ) : ℤ := if x < 0 ∨ x > scrollXDim then -1 else 0

/-- `addr` and `p_off` in the loop of `draw_horiz_line`, after some of its iterations. -/
def horizCursor (addr pOff : ℤ) : ℕ → ℤ × ℤ
  | 0 => (addr, pOff)
  | i + 1 =>
    let (addr, pOff) := horizCursor addr pOff i
    if pOff - 1 < 0 then (addr + 1, 3) else (addr, pOff - 1)

/-- `draw_horiz_line`, with what `horiz_line_fn` leaves in the buffer -/
def drawHorizLine (s : Screen) (horizLineFn : ℤ → ℤ → ℕ → UInt8) (y : ℤ) : Screen :=
  if y < 0 ∨ y ≥ scrollYDim then s
  else
    let buf := horizLineFn s.showX (y + s.showY)
    let addr := s.img3 + s.showX / 4 + (y + s.showY) * scrollXWidth
    let cursor := horizCursor addr (3 - s.showX % 4)
    { s with
      build := writeSeq (fun i ↦ (cursor i).1 + (cursor i).2 * scrollSize) buf s.build
        scrollXDim.toNat }

/-- The value that `draw_horiz_line` returns. -/
def drawHorizLineReturns (y : ℤ) : ℤ := if y < 0 ∨ y ≥ scrollYDim then -1 else 0

/-! ### Pixels of the window -/

variable {s : Screen} {x y : ℤ}

/-- The pixel is in the logical view window. -/
def InView (s : Screen) (x y : ℤ) : Prop :=
  s.showX ≤ x ∧ x < s.showX + scrollXDim ∧ s.showY ≤ y ∧ y < s.showY + scrollYDim

/-- The pixel as it stands in the build buffer. -/
def pixel (s : Screen) (x y : ℤ) : UInt8 := s.build (s.pixelAddr x y)

theorem pixelAddr_eq (s : Screen) (x y : ℤ) :
    s.pixelAddr x y = s.img3Off + 256 + x / 4 + y * 80 + (3 - x % 4) * 14560 := rfl

theorem inView_iff (s : Screen) (x y : ℤ) : s.InView x y ↔
    s.showX ≤ x ∧ x < s.showX + 320 ∧ s.showY ≤ y ∧ y < s.showY + 182 := Iff.rfl

/-- The pixels of the window have different addresses. Those of neighbouring planes that are next to
each other are 321 columns apart. -/
theorem pixelAddr_inj {x' y' : ℤ} (h : s.InView x y) (h' : s.InView x' y')
    (heq : s.pixelAddr x y = s.pixelAddr x' y') : x = x' ∧ y = y' := by
  rw [inView_iff] at h h'
  rw [pixelAddr_eq, pixelAddr_eq] at heq
  have hplane : x % 4 = x' % 4 ∨ x % 4 = x' % 4 + 1 ∨ x' % 4 = x % 4 + 1 := by omega
  rcases hplane with hsame | hnext | hprevious
  · have hrow : y = y' := by omega
    omega
  · have hrow : y = y' + 181 := by omega
    omega
  · have hrow : y' = y + 181 := by omega
    omega

/-! ### Moving the window -/

@[simp] theorem setViewWindow_showX (s : Screen) (scrX scrY : ℤ) :
    (s.setViewWindow scrX scrY).showX = scrX := by
  simp only [setViewWindow]
  split_ifs <;> rfl

@[simp] theorem setViewWindow_showY (s : Screen) (scrX scrY : ℤ) :
    (s.setViewWindow scrX scrY).showY = scrY := by
  simp only [setViewWindow]
  split_ifs <;> rfl

/-- All pixels of the window lie in the build buffer, between its fences. -/
def InBuffer (s : Screen) : Prop :=
  ∀ x y, s.InView x y →
    memFenceWidth ≤ s.pixelAddr x y ∧ s.pixelAddr x y < memFenceWidth + buildBufSize

theorem setViewWindow_inBuffer (s : Screen) (scrX scrY : ℤ) :
    (s.setViewWindow scrX scrY).InBuffer := by
  intro x y hview
  rw [inView_iff, setViewWindow_showX, setViewWindow_showY] at hview
  have hoff : s.img3Off + scrX / 4 + scrY * 80 ≥ 0 ∧
        s.img3Off + 3 * 14560 + (scrX + 320 - 1) / 4 + (scrY + 182 - 1) * 80 < 78241 ∧
        (s.setViewWindow scrX scrY).img3Off = s.img3Off ∨
      (s.setViewWindow scrX scrY).img3Off = 10000 - scrX / 4 - scrY * 80 := by
    simp only [setViewWindow]
    split_ifs with hfits
    · exact Or.inl ⟨hfits.1, hfits.2, rfl⟩
    · exact Or.inr rfl
    · exact Or.inr rfl
  have hconst : memFenceWidth = 256 ∧ buildBufSize = 78241 := ⟨rfl, rfl⟩
  rw [pixelAddr_eq, hconst.1, hconst.2]
  rcases hoff with ⟨hlow, hhigh, heq⟩ | heq
  · rw [heq]
    omega
  · rw [heq]
    omega

/-- The copy keeps the pixels that were and are in the window, whatever the direction of the
move. -/
theorem copyWindow_pixel {oldX oldY oldOff : ℤ} (hview : s.InView x y)
    (hold : oldX ≤ x ∧ x < oldX + 320 ∧ oldY ≤ y ∧ y < oldY + 182) :
    (s.copyWindow oldX oldY oldOff).pixel x y =
      s.build (oldOff + 256 + x / 4 + y * 80 + (3 - x % 4) * 14560) := by
  rw [inView_iff] at hview
  simp only [pixel, copyWindow]
  generalize hstartX : (if s.showX > oldX then s.showX else oldX) = startX
  generalize hendX : (if s.showX > oldX then oldX else s.showX) + (scrollXDim - 1) = endX
  generalize hstartY : (if s.showY > oldY then s.showY else oldY) = startY
  generalize hendY : (if s.showY > oldY then oldY else s.showY) + (scrollYDim - 1) = endY
  have hconst : scrollXDim = 320 ∧ scrollYDim = 182 ∧ scrollXWidth = 80 ∧ scrollSize = 14560 ∧
    memFenceWidth = 256 := ⟨rfl, rfl, rfl, rfl, rfl⟩
  simp only [hconst, img3, pixelAddr_eq] at hendX hendY ⊢
  -- the position of the pixel in the data that is copied
  obtain ⟨i, hi⟩ : ∃ i : ℕ, (i : ℤ) =
      x / 4 + y * 80 + (3 - x % 4) * 14560 - (startX / 4 + startY * 80) := by
    refine (Int.eq_ofNat_of_zero_le ?_).imp fun _ h ↦ h.symm
    split_ifs at hstartX hstartY <;> omega
  have hlength : i < (endX / 4 + endY * 80 + 1 - (startX / 4 + startY * 80) + 3 * 14560).toNat := by
    split_ifs at hendX hendY <;> omega
  have hsource : oldOff + 256 + x / 4 + y * 80 + (3 - x % 4) * 14560 =
      oldOff + 256 + (startX / 4 + startY * 80) + i := by omega
  have htarget : s.img3Off + 256 + x / 4 + y * 80 + (3 - x % 4) * 14560 =
      s.img3Off + 256 + (startX / 4 + startY * 80) + i := by omega
  rw [hsource, htarget]
  split_ifs with hdown
  · exact copyDown_apply hdown.le hlength
  · exact copyUp_apply (not_lt.mp hdown) hlength

/-- Moving the window keeps the pixels that were in it and still are. -/
theorem setViewWindow_pixel {scrX scrY : ℤ} (hold : s.InView x y)
    (hview : (s.setViewWindow scrX scrY).InView x y) :
    (s.setViewWindow scrX scrY).pixel x y = s.pixel x y := by
  rw [inView_iff] at hold
  rw [inView_iff, setViewWindow_showX, setViewWindow_showY] at hview
  have hconst : scrollXDim = 320 ∧ scrollYDim = 182 := ⟨rfl, rfl⟩
  simp only [setViewWindow]
  split_ifs with hfits hapart
  · rfl
  · rw [hconst.1, hconst.2] at hapart
    omega
  · exact copyWindow_pixel hview hold

/-! ### Drawing -/

/-- The window has not moved. -/
structure SameWindow (s s' : Screen) : Prop where
  img3Off : s'.img3Off = s.img3Off
  showX : s'.showX = s.showX
  showY : s'.showY = s.showY

namespace SameWindow

variable {s' s'' : Screen}

theorem refl (s : Screen) : s.SameWindow s := ⟨rfl, rfl, rfl⟩

theorem trans (h : s.SameWindow s') (h' : s'.SameWindow s'') : s.SameWindow s'' :=
  ⟨h'.img3Off.trans h.img3Off, h'.showX.trans h.showX, h'.showY.trans h.showY⟩

theorem inView_iff (h : s.SameWindow s') (x y : ℤ) : s'.InView x y ↔ s.InView x y := by
  rw [InView, InView, h.showX, h.showY]

theorem pixelAddr (h : s.SameWindow s') (x y : ℤ) : s'.pixelAddr x y = s.pixelAddr x y := by
  rw [Screen.pixelAddr, Screen.pixelAddr, img3, img3, h.img3Off]

theorem offScreen (h : s.SameWindow s') (x y : ℤ) : s'.offScreen x y = s.offScreen x y := by
  rw [Screen.offScreen, Screen.offScreen, h.showX, h.showY]

end SameWindow

section Line

variable {px py : ℕ → ℤ} {value : ℕ → UInt8} {n : ℕ}

/-- A line of different pixels holds what is stored in them. -/
theorem writeLine_apply (hline : ∀ i < n, s.InView (px i) (py i))
    (hinj : ∀ i j, px i = px j → py i = py j → i = j) {i : ℕ} (hi : i < n) :
    writeSeq (fun i ↦ s.pixelAddr (px i) (py i)) value s.build n (s.pixelAddr (px i) (py i)) =
      value i := by
  refine writeSeq_apply hi fun j hj hlater heq ↦ ?_
  obtain ⟨hx, hy⟩ := pixelAddr_inj (hline j hj) (hline i hi) heq
  exact hlater.ne' (hinj j i hx hy)

/-- The other pixels of the window keep what they hold. -/
theorem writeLine_of_ne (hline : ∀ i < n, s.InView (px i) (py i)) (hview : s.InView x y)
    (hne : ∀ i < n, ¬(px i = x ∧ py i = y)) :
    writeSeq (fun i ↦ s.pixelAddr (px i) (py i)) value s.build n (s.pixelAddr x y) = s.pixel x y :=
  writeSeq_of_ne fun i hi heq ↦ hne i hi (pixelAddr_inj (hline i hi) hview heq)

end Line

theorem drawVertLine_sameWindow (s : Screen) (vertLineFn : ℤ → ℤ → ℕ → UInt8) (x : ℤ) :
    s.SameWindow (s.drawVertLine vertLineFn x) := by
  simp only [drawVertLine]
  split_ifs <;> exact ⟨rfl, rfl, rfl⟩

/-- The stores of `draw_vert_line` for a column of the window go to the pixels of the column. -/
theorem drawVertLine_build {vertLineFn : ℤ → ℤ → ℕ → UInt8} {col : ℤ} (hlow : 0 ≤ col)
    (hhigh : col ≤ scrollXDim) : (s.drawVertLine vertLineFn col).build =
      writeSeq (fun j ↦ s.pixelAddr (col + s.showX) (s.showY + (j : ℕ)))
        (vertLineFn (col + s.showX) s.showY) s.build 182 := by
  have haddr : ∀ j : ℕ, s.img3 + (col + s.showX) / 4 + s.showY * scrollXWidth +
      j * scrollXWidth + (3 - (col + s.showX) % 4) * scrollSize =
        s.pixelAddr (col + s.showX) (s.showY + j) := by
    intro j
    rw [pixelAddr]
    ring
  have hrange : ¬(col < 0 ∨ col > scrollXDim) := by omega
  simp only [drawVertLine]
  rw [if_neg hrange]
  simp only [haddr]
  rfl

/-- A vertical line of the window is drawn, and nothing else of it is touched. -/
theorem drawVertLine_pixel {vertLineFn : ℤ → ℤ → ℕ → UInt8} {col : ℤ} (hlow : 0 ≤ col)
    (hhigh : col < scrollXDim) (hview : s.InView x y) :
    (s.drawVertLine vertLineFn col).pixel x y =
      if x = col + s.showX then vertLineFn (col + s.showX) s.showY (y - s.showY).toNat
      else s.pixel x y := by
  rw [pixel, (drawVertLine_sameWindow s vertLineFn col).pixelAddr,
    drawVertLine_build hlow hhigh.le]
  rw [inView_iff] at hview
  have hconst : scrollXDim = 320 := rfl
  rw [hconst] at hhigh
  -- the pixels of the line are in view
  have hline : ∀ j < 182, s.InView (col + s.showX) (s.showY + (j : ℕ)) := by
    intro j hj
    rw [inView_iff]
    omega
  split_ifs with hcol
  · obtain ⟨j, hj⟩ := Int.eq_ofNat_of_zero_le (sub_nonneg.mpr hview.2.2.1)
    have hy : y = s.showY + j := by omega
    have hlt : j < 182 := by omega
    have hindex : (y - s.showY).toNat = j := by omega
    rw [hindex, hcol, hy]
    exact writeLine_apply hline (fun i j _ hsame ↦ by omega) hlt
  · exact writeLine_of_ne hline ((inView_iff s x y).mpr hview) fun _ _ hsame ↦ hcol hsame.1.symm

/-- The cursor of `draw_horiz_line` runs through the addresses of the pixels of a line. -/
theorem horizCursor_eq (base x : ℤ) (i : ℕ) :
    horizCursor (base + x / 4) (3 - x % 4) i = (base + (x + i) / 4, 3 - (x + i) % 4) := by
  induction i with
  | zero => simp [horizCursor]
  | succ i ih =>
    simp only [horizCursor, ih]
    push_cast
    split_ifs with hwrap
    · ext <;> simp only <;> omega
    · ext <;> simp only <;> omega

theorem drawHorizLine_sameWindow (s : Screen) (horizLineFn : ℤ → ℤ → ℕ → UInt8) (y : ℤ) :
    s.SameWindow (s.drawHorizLine horizLineFn y) := by
  simp only [drawHorizLine]
  split_ifs <;> exact ⟨rfl, rfl, rfl⟩

/-- The stores of `draw_horiz_line` for a row of the window go to the pixels of the row. -/
theorem drawHorizLine_build {horizLineFn : ℤ → ℤ → ℕ → UInt8} {row : ℤ} (hlow : 0 ≤ row)
    (hhigh : row < scrollYDim) : (s.drawHorizLine horizLineFn row).build =
      writeSeq (fun i ↦ s.pixelAddr (s.showX + (i : ℕ)) (row + s.showY))
        (horizLineFn s.showX (row + s.showY)) s.build 320 := by
  have haddr : ∀ i : ℕ,
      (horizCursor (s.img3 + s.showX / 4 + (row + s.showY) * scrollXWidth) (3 - s.showX % 4) i).1 +
        (horizCursor (s.img3 + s.showX / 4 + (row + s.showY) * scrollXWidth)
          (3 - s.showX % 4) i).2 * scrollSize = s.pixelAddr (s.showX + i) (row + s.showY) := by
    intro i
    have hbase : s.img3 + s.showX / 4 + (row + s.showY) * scrollXWidth =
        s.img3 + (row + s.showY) * scrollXWidth + s.showX / 4 := by ring
    rw [hbase, horizCursor_eq, pixelAddr]
    ring
  have hrange : ¬(row < 0 ∨ row ≥ scrollYDim) := by omega
  simp only [drawHorizLine]
  rw [if_neg hrange]
  simp only [haddr]
  rfl

/-- A horizontal line of the window is drawn, and nothing else of it is touched. -/
theorem drawHorizLine_pixel {horizLineFn : ℤ → ℤ → ℕ → UInt8} {row : ℤ} (hlow : 0 ≤ row)
    (hhigh : row < scrollYDim) (hview : s.InView x y) :
    (s.drawHorizLine horizLineFn row).pixel x y =
      if y = row + s.showY then horizLineFn s.showX (row + s.showY) (x - s.showX).toNat
      else s.pixel x y := by
  rw [pixel, (drawHorizLine_sameWindow s horizLineFn row).pixelAddr, drawHorizLine_build hlow hhigh]
  rw [inView_iff] at hview
  have hconst : scrollYDim = 182 := rfl
  rw [hconst] at hhigh
  have hline : ∀ i < 320, s.InView (s.showX + (i : ℕ)) (row + s.showY) := by
    intro i hi
    rw [inView_iff]
    omega
  split_ifs with hrow
  · obtain ⟨i, hi⟩ := Int.eq_ofNat_of_zero_le (sub_nonneg.mpr hview.1)
    have hx : x = s.showX + i := by omega
    have hlt : i < 320 := by omega
    have hindex : (x - s.showX).toNat = i := by omega
    rw [hindex, hrow, hx]
    exact writeLine_apply hline (fun i j hsame _ ↦ by omega) hlt
  · exact writeLine_of_ne hline ((inView_iff s x y).mpr hview) fun _ _ hsame ↦ hrow hsame.2.symm

/-- Clipping leaves the lines of the block that are in the window. -/
theorem clip_spec {start dim pos : ℤ} (hdim : 12 ≤ dim) (hleft : start < pos + 12)
    (hright : pos < start + dim) :
    0 ≤ (clip start dim pos).1 ∧ 0 < (clip start dim pos).2 ∧
      ∀ k, 0 ≤ k ∧ k < 12 ∧ start ≤ pos + k ∧ pos + k < start + dim ↔
        (clip start dim pos).1 ≤ k ∧ k < (clip start dim pos).1 + (clip start dim pos).2 := by
  have hconst : blockDim = 12 := rfl
  simp only [clip, hconst]
  split_ifs with hskip hcut
  all_goals
    refine ⟨by omega, by omega, fun k ↦ ?_⟩
    omega

theorem offScreen_eq_false_iff (s : Screen) (posX posY : ℤ) : s.offScreen posX posY = false ↔
    s.showX < posX + 12 ∧ posX < s.showX + 320 ∧ s.showY < posY + 12 ∧ posY < s.showY + 182 := by
  have hconst : blockDim = 12 ∧ scrollXDim = 320 ∧ scrollYDim = 182 := ⟨rfl, rfl, rfl⟩
  simp only [offScreen, hconst, Bool.or_eq_false_iff, decide_eq_false_iff_not]
  omega

theorem drawFullBlock_sameWindow (s : Screen) (posX posY : ℤ) (blk : Image) :
    s.SameWindow (s.drawFullBlock posX posY blk) := by
  simp only [drawFullBlock]
  split_ifs <;> exact ⟨rfl, rfl, rfl⟩

/-- How a block that is not off-screen is clipped: the rows and columns that are drawn are those in
the window. -/
theorem clip_block {posX posY : ℤ} (hon : s.offScreen posX posY = false) :
    (0 ≤ (clip s.showX scrollXDim posX).1 ∧ 0 < (clip s.showX scrollXDim posX).2 ∧
        ∀ k, 0 ≤ k ∧ k < 12 ∧ s.showX ≤ posX + k ∧ posX + k < s.showX + scrollXDim ↔
          (clip s.showX scrollXDim posX).1 ≤ k ∧
            k < (clip s.showX scrollXDim posX).1 + (clip s.showX scrollXDim posX).2) ∧
      0 ≤ (clip s.showY scrollYDim posY).1 ∧ 0 < (clip s.showY scrollYDim posY).2 ∧
        ∀ k, 0 ≤ k ∧ k < 12 ∧ s.showY ≤ posY + k ∧ posY + k < s.showY + scrollYDim ↔
          (clip s.showY scrollYDim posY).1 ≤ k ∧
            k < (clip s.showY scrollYDim posY).1 + (clip s.showY scrollYDim posY).2 := by
  have hon := (offScreen_eq_false_iff s posX posY).mp hon
  have hconst : scrollXDim = 320 ∧ scrollYDim = 182 := ⟨rfl, rfl⟩
  exact ⟨clip_spec (by decide) hon.1 (by rw [hconst.1]; exact hon.2.1),
    clip_spec (by decide) hon.2.2.1 (by rw [hconst.2]; exact hon.2.2.2)⟩

/-- Drawing a block changes the bytes of its pixels in the window only. -/
theorem drawFullBlock_of_ne {posX posY a : ℤ} {blk : Image}
    (h : ∀ x y, s.InView x y → posX ≤ x → x < posX + 12 → posY ≤ y → y < posY + 12 →
      s.pixelAddr x y ≠ a) : (s.drawFullBlock posX posY blk).build a = s.build a := by
  unfold drawFullBlock
  by_cases hoff : s.offScreen posX posY = true
  · rw [if_pos hoff]
  · obtain ⟨⟨hleft, hcolumns, hx⟩, htop, hrows, hy⟩ := clip_block (Bool.eq_false_iff.mpr hoff)
    rw [if_neg hoff]
    refine writeRows_of_ne fun j hj i hi ↦ ?_
    have hi' := (hx ((clip s.showX scrollXDim posX).1 + i)).mpr (by omega)
    have hj' := (hy ((clip s.showY scrollYDim posY).1 + j)).mpr (by omega)
    refine h _ _ ⟨by omega, by omega, by omega, by omega⟩ ?_ ?_ ?_ ?_ <;> omega

/-- The part of a block that is in the window is drawn, and nothing else of the window is
touched. -/
theorem drawFullBlock_pixel {posX posY : ℤ} {blk : Image} (hview : s.InView x y) :
    (s.drawFullBlock posX posY blk).pixel x y =
      if posX ≤ x ∧ x < posX + 12 ∧ posY ≤ y ∧ y < posY + 12 then
        blk ((y - posY) * 12 + (x - posX))
      else s.pixel x y := by
  rw [pixel, (drawFullBlock_sameWindow s posX posY blk).pixelAddr]
  split_ifs with hblock
  · have hview' := (inView_iff s x y).mp hview
    have hon := (offScreen_eq_false_iff s posX posY).mpr (by omega)
    have hconst : scrollXDim = 320 ∧ scrollYDim = 182 ∧ blockDim = 12 := ⟨rfl, rfl, rfl⟩
    obtain ⟨⟨hleft, hcolumns, hx⟩, htop, hrows, hy⟩ := clip_block hon
    unfold drawFullBlock
    rw [hon, if_neg Bool.false_ne_true]
    simp only [hconst] at hleft hcolumns hx htop hrows hy ⊢
    generalize clip s.showX 320 posX = columns at hleft hcolumns hx ⊢
    generalize clip s.showY 182 posY = rows at htop hrows hy ⊢
    -- what is drawn is in view
    have hdrawn : ∀ j < rows.2.toNat, ∀ i < columns.2.toNat,
        s.InView (posX + columns.1 + (i : ℕ)) (posY + rows.1 + (j : ℕ)) := by
      intro j hj i hi
      have hi' := (hx (columns.1 + i)).mpr (by omega)
      have hj' := (hy (rows.1 + j)).mpr (by omega)
      rw [inView_iff]
      omega
    have hi := (hx (x - posX)).mp (by omega)
    have hj := (hy (y - posY)).mp (by omega)
    obtain ⟨i, hi'⟩ := Int.eq_ofNat_of_zero_le (sub_nonneg.mpr hi.1)
    obtain ⟨j, hj'⟩ := Int.eq_ofNat_of_zero_le (sub_nonneg.mpr hj.1)
    have hxi : x = posX + columns.1 + i := by omega
    have hyj : y = posY + rows.1 + j := by omega
    have hindex : (y - posY) * 12 + (x - posX) =
        columns.1 + rows.1 * 12 + j * (columns.2 + (12 - columns.2)) + i := by
      rw [hxi, hyj]
      ring
    rw [hindex, hxi, hyj]
    refine writeRows_apply (fun j hj i hi j' hj' i' hi' heq ↦ ?_) (by omega) (by omega)
    have hsame := pixelAddr_inj (hdrawn j hj i hi) (hdrawn j' hj' i' hi') heq
    omega
  · refine drawFullBlock_of_ne fun x' y' hview' hx0 hx1 hy0 hy1 heq ↦ hblock ?_
    obtain ⟨rfl, rfl⟩ := pixelAddr_inj hview' hview heq
    exact ⟨hx0, hx1, hy0, hy1⟩

/-! ### The player -/

theorem maskRow_sameWindow (s : Screen) (x y : ℤ) (blk masking : Image) (background : ℤ) (n : ℕ) :
    s.SameWindow (maskRow x y blk masking background s n) := by
  induction n with
  | zero => exact SameWindow.refl s
  | succ n ih => exact ih.trans ⟨rfl, rfl, rfl⟩

theorem maskRows_sameWindow (s : Screen) (x y : ℤ) (blk masking : Image) (columns : ℤ) (n : ℕ) :
    s.SameWindow (maskRows x y blk masking columns s n) := by
  induction n with
  | zero => exact SameWindow.refl s
  | succ n ih => exact ih.trans (maskRow_sameWindow _ _ _ _ _ _ _)

theorem mask_sameWindow (s : Screen) (posX posY : ℤ) (blk masking : Image) :
    s.SameWindow (s.mask posX posY blk masking) := by
  simp only [mask]
  split_ifs
  · exact SameWindow.refl s
  · exact maskRows_sameWindow _ _ _ _ _ _ _

variable {blk masking : Image} {background : ℤ} {n : ℕ}

/-- The inner loop changes no byte but those of its pixels. -/
theorem maskRow_build {a : ℤ} (h : ∀ i < n, s.pixelAddr (x + (i : ℕ)) y ≠ a) :
    (maskRow x y blk masking background s n).build a = s.build a := by
  induction n with
  | zero => rfl
  | succ n ih =>
    have haddr := (maskRow_sameWindow s x y blk masking background n).pixelAddr (x + n) y
    have hne := h n (by omega)
    simp only [maskRow, maskPixel, haddr]
    split_ifs
    · rw [Function.update_of_ne hne.symm]
      exact ih fun i hi ↦ h i (by omega)
    · exact ih fun i hi ↦ h i (by omega)

theorem maskRow_blockMask_outside {b : ℤ} (h : b < background ∨ background + n ≤ b) :
    (maskRow x y blk masking background s n).blockMask b = s.blockMask b := by
  induction n with
  | zero => rfl
  | succ n ih =>
    push_cast at h
    simp only [maskRow, maskPixel]
    rw [Function.update_of_ne (by omega)]
    exact ih (by omega)

/-- No pixel that the inner loop has drawn so far shares its address with the next one. -/
theorem maskRow_build_next (hrow : ∀ i < n + 1, s.InView (x + (i : ℕ)) y) :
    (maskRow x y blk masking background s n).build (s.pixelAddr (x + n) y) = s.pixel (x + n) y := by
  refine maskRow_build fun j hj heq ↦ ?_
  have hsame := pixelAddr_inj (hrow j (by omega)) (hrow n (by omega)) heq
  omega

/-- The inner loop saves each of its pixels as it was before the loop. -/
theorem maskRow_blockMask (hrow : ∀ i < n, s.InView (x + (i : ℕ)) y) {i : ℕ} (hi : i < n) :
    (maskRow x y blk masking background s n).blockMask (background + i) = s.pixel (x + i) y := by
  induction n with
  | zero => omega
  | succ n ih =>
    have haddr := (maskRow_sameWindow s x y blk masking background n).pixelAddr (x + n) y
    simp only [maskRow, maskPixel, haddr]
    by_cases hlast : i = n
    · rw [hlast, Function.update_self]
      exact maskRow_build_next hrow
    · rw [Function.update_of_ne (by omega)]
      exact ih (fun i hi ↦ hrow i (by omega)) (by omega)

/-- The inner loop draws its pixels where the mask is 1. -/
theorem maskRow_pixel (hrow : ∀ i < n, s.InView (x + (i : ℕ)) y) {i : ℕ} (hi : i < n) :
    (maskRow x y blk masking background s n).build (s.pixelAddr (x + i) y) =
      if masking (background + i) = 1 then blk i else s.pixel (x + i) y := by
  induction n with
  | zero => omega
  | succ n ih =>
    have haddr := (maskRow_sameWindow s x y blk masking background n).pixelAddr (x + n) y
    simp only [maskRow, maskPixel, haddr]
    by_cases hlast : i = n
    · rw [hlast]
      split_ifs with hmask
      · rw [Function.update_self]
      · exact maskRow_build_next hrow
    · have hne : s.pixelAddr (x + i) y ≠ s.pixelAddr (x + n) y := by
        intro heq
        have hsame := pixelAddr_inj (hrow i (by omega)) (hrow n (by omega)) heq
        omega
      rw [← ih (fun i hi ↦ hrow i (by omega)) (by omega)]
      split_ifs
      · rw [Function.update_of_ne hne]
      · rfl

section Rows

variable {columns : ℕ}

theorem maskRows_succ (n : ℕ) : maskRows x y blk masking columns s (n + 1) =
    maskRow x (y + n) (fun i ↦ blk (n * 12 + i)) masking (n * 12)
      (maskRows x y blk masking columns s n) columns := by
  have hstride : (columns : ℤ) + (blockDim - columns) = 12 := add_sub_cancel _ _
  simp only [maskRows, hstride, Int.toNat_natCast]

theorem maskRows_build {a : ℤ}
    (h : ∀ j < n, ∀ i < columns, s.pixelAddr (x + (i : ℕ)) (y + (j : ℕ)) ≠ a) :
    (maskRows x y blk masking columns s n).build a = s.build a := by
  induction n with
  | zero => rfl
  | succ n ih =>
    have hwindow := maskRows_sameWindow s x y blk masking columns n
    rw [maskRows_succ]
    refine (maskRow_build fun i hi ↦ ?_).trans (ih fun j hj ↦ h j (by omega))
    rw [hwindow.pixelAddr]
    exact h n (by omega) i hi

theorem maskRows_blockMask_outside {b : ℤ}
    (h : ∀ j < n, b < (j : ℕ) * 12 ∨ (j : ℕ) * 12 + columns ≤ b) :
    (maskRows x y blk masking columns s n).blockMask b = s.blockMask b := by
  induction n with
  | zero => rfl
  | succ n ih =>
    rw [maskRows_succ, maskRow_blockMask_outside (h n (by omega))]
    exact ih fun j hj ↦ h j (by omega)

/-- No pixel of the rows that have been drawn so far shares its address with one of the next. -/
theorem maskRows_build_next
    (hblock : ∀ j < n + 1, ∀ i < columns, s.InView (x + (i : ℕ)) (y + (j : ℕ))) {i : ℕ}
    (hi : i < columns) : (maskRows x y blk masking columns s n).build
      (s.pixelAddr (x + i) (y + n)) = s.pixel (x + i) (y + n) := by
  refine maskRows_build fun j' hj' i' hi' heq ↦ ?_
  have hsame := pixelAddr_inj (hblock j' (by omega) i' hi') (hblock n (by omega) i hi) heq
  omega

/-- The next row is in the window. -/
theorem maskRows_inView
    (hblock : ∀ j < n + 1, ∀ i < columns, s.InView (x + (i : ℕ)) (y + (j : ℕ))) :
    ∀ i < columns, (maskRows x y blk masking columns s n).InView (x + (i : ℕ)) (y + n) :=
  fun i hi ↦ ((maskRows_sameWindow s x y blk masking columns n).inView_iff _ _).mpr
    (hblock n (by omega) i hi)

/-- The loops save each of their pixels as it was before. -/
theorem maskRows_blockMask (hcolumns : columns ≤ 12)
    (hblock : ∀ j < n, ∀ i < columns, s.InView (x + (i : ℕ)) (y + (j : ℕ))) {i j : ℕ} (hj : j < n)
    (hi : i < columns) : (maskRows x y blk masking columns s n).blockMask (j * 12 + i) =
      s.pixel (x + i) (y + j) := by
  induction n with
  | zero => omega
  | succ n ih =>
    have hwindow := maskRows_sameWindow s x y blk masking columns n
    rw [maskRows_succ]
    by_cases hlast : j = n
    · rw [hlast, maskRow_blockMask (maskRows_inView hblock) hi, pixel, hwindow.pixelAddr]
      exact maskRows_build_next hblock hi
    · rw [maskRow_blockMask_outside (by omega)]
      exact ih (fun j hj ↦ hblock j (by omega)) (by omega)

/-- The loops draw their pixels where the mask is 1. -/
theorem maskRows_pixel (hblock : ∀ j < n, ∀ i < columns, s.InView (x + (i : ℕ)) (y + (j : ℕ)))
    {i j : ℕ} (hj : j < n) (hi : i < columns) : (maskRows x y blk masking columns s n).build
      (s.pixelAddr (x + i) (y + j)) =
        if masking (j * 12 + i) = 1 then blk (j * 12 + i) else s.pixel (x + i) (y + j) := by
  induction n with
  | zero => omega
  | succ n ih =>
    have hwindow := maskRows_sameWindow s x y blk masking columns n
    rw [maskRows_succ]
    by_cases hlast : j = n
    · rw [hlast, ← hwindow.pixelAddr, maskRow_pixel (maskRows_inView hblock) hi, pixel,
        hwindow.pixelAddr, maskRows_build_next hblock hi]
    · rw [maskRow_build fun i' hi' heq ↦ ?_]
      · exact ih (fun j hj ↦ hblock j (by omega)) (by omega)
      · rw [hwindow.pixelAddr] at heq
        have hsame :=
          pixelAddr_inj (hblock n (by omega) i' hi') (hblock j (by omega) i hi) heq
        omega

end Rows

/-- A player that is not off-screen is drawn and saved by the loops over what is left of it. -/
theorem mask_of_on {posX posY : ℤ} (hon : s.offScreen posX posY = false) {columns : ℕ}
    (hcolumns : (clip s.showX scrollXDim posX).2 = columns) :
    s.mask posX posY blk masking =
      maskRows (posX + (clip s.showX scrollXDim posX).1) (posY + (clip s.showY scrollYDim posY).1)
        (fun i ↦ blk ((clip s.showX scrollXDim posX).1 + (clip s.showY scrollYDim posY).1 * 12 + i))
        masking columns s (clip s.showY scrollYDim posY).2.toNat := by
  unfold mask
  rw [hon, if_neg Bool.false_ne_true, ← hcolumns]
  rfl

/-- A player that is wholly in view leaves no trace: drawing the background that `mask` has saved
gives every pixel of the window back. -/
theorem mask_drawFullBlock_pixel {posX posY : ℤ} (hleft : s.showX ≤ posX)
    (hright : posX + 12 ≤ s.showX + 320) (htop : s.showY ≤ posY)
    (hbottom : posY + 12 ≤ s.showY + 182) (hview : s.InView x y) :
    ((s.mask posX posY blk masking).drawFullBlock posX posY
      (s.mask posX posY blk masking).blockMask).pixel x y = s.pixel x y := by
  have hwindow := mask_sameWindow s posX posY blk masking
  have hon := (offScreen_eq_false_iff s posX posY).mpr (by omega)
  have hclip : clip s.showX scrollXDim posX = (0, 12) ∧ clip s.showY scrollYDim posY = (0, 12) := by
    have hconst : scrollXDim = 320 ∧ scrollYDim = 182 ∧ blockDim = 12 := ⟨rfl, rfl, rfl⟩
    simp only [clip, hconst]
    constructor
    · split_ifs <;> ext <;> simp only <;> omega
    · split_ifs <;> ext <;> simp only <;> omega
  have hmask : s.mask posX posY blk masking =
      maskRows posX posY (fun i ↦ blk i) masking (12 : ℕ) s 12 := by
    have hcolumns : (clip s.showX scrollXDim posX).2 = (12 : ℕ) := by
      rw [hclip.1]
      rfl
    rw [mask_of_on hon hcolumns, hclip.1, hclip.2]
    simp only [add_zero, zero_add, zero_mul]
    rfl
  have hblock : ∀ j < 12, ∀ i < 12, s.InView (posX + (i : ℕ)) (posY + (j : ℕ)) := by
    intro j hj i hi
    rw [inView_iff]
    omega
  rw [drawFullBlock_pixel ((hwindow.inView_iff x y).mpr hview)]
  split_ifs with hin
  · obtain ⟨i, hi⟩ := Int.eq_ofNat_of_zero_le (show 0 ≤ x - posX by omega)
    obtain ⟨j, hj⟩ := Int.eq_ofNat_of_zero_le (show 0 ≤ y - posY by omega)
    have hx : x = posX + i := by omega
    have hy : y = posY + j := by omega
    rw [hmask, hi, hj, maskRows_blockMask le_rfl hblock (by omega) (by omega), hx, hy]
  · rw [pixel, hwindow.pixelAddr, pixel, hmask]
    refine maskRows_build fun j hj i hi heq ↦ hin ?_
    obtain ⟨rfl, rfl⟩ := pixelAddr_inj (hblock j hj i hi) hview heq
    omega

end Screen

end Sp18.MazeGame
