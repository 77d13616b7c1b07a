import Sp18.MazeGame.Motion

/-!
# What is on the screen

The picture in the build buffer is changed in small pieces: a line when the window pans, a block
when a lattice point is unveiled or a fruit is eaten, the player for the time of a frame.
`ShowsMaze` says that it is what drawing the whole window anew would give.

Two facts about the maze carry the proof. The image of a lattice point depends on its own byte, on
the walls, and for the exit on whether fruits are left (`findBlock_congr`); and the left and the
right boundary, which share their bytes, are never both in the window or near the player
(`InWindow.boundaries_apart`).
-/

set_option autoImplicit false
set_option relaxedAutoImplicit false

namespace Sp18.MazeGame

open Foundation

/-! ### Lines -/

namespace Maze

/-- The pixel of the maze at the given coordinates. -/
def pixel (blocks : ℕ → Image) (m : Maze) (x y : ℤ) : UInt8 :=
  blocks (m.findBlock (x / 12) (y / 12)) (y % 12 * 12 + x % 12)

/-- The loop fills the rest of the line with the pixels of one block after the other. -/
theorem fillLoop_apply {dim : ℕ} {pixel : ℤ → ℕ → UInt8} {buf : ℕ → UInt8} {idx sub rounds : ℕ}
    {map : ℤ} (hsub : sub < 12) (hrounds : dim ≤ idx + rounds) {i : ℕ} (hi : i < dim) :
    fillLoop dim pixel buf idx map sub rounds i =
      if i < idx then buf i
      else pixel (map + ((sub + (i - idx)) / 12 : ℕ)) ((sub + (i - idx)) % 12) := by
  induction rounds generalizing buf idx map sub with
  | zero => rw [fillLoop, if_pos (by omega)]
  | succ rounds ih =>
    rw [fillLoop]
    by_cases hmore : idx < dim
    · rw [if_pos hmore]
      obtain ⟨count, hcount⟩ : ∃ count, count = min (12 - sub) (dim - idx) := ⟨_, rfl⟩
      rw [← hcount, ih (by decide) (by omega)]
      by_cases hbefore : i < idx
      · rw [if_pos (by omega), if_pos hbefore, writeSeq_of_ne fun j _ ↦ by omega]
      · by_cases hblock : i < idx + count
        · -- the pixel lies in the block that this round copies
          obtain ⟨j, rfl⟩ := Nat.exists_eq_add_of_le (not_lt.mp hbefore)
          have hfirst : (sub + (idx + j - idx)) / 12 = 0 := by omega
          have hoffset : (sub + (idx + j - idx)) % 12 = sub + j := by omega
          rw [if_pos hblock, if_neg hbefore, hfirst, hoffset, Nat.cast_zero, add_zero]
          exact writeSeq_apply (by omega) fun j' _ hlater heq ↦ by omega
        · have hnext : (sub + (i - idx)) / 12 = (0 + (i - (idx + count))) / 12 + 1 := by omega
          have hoffset : (sub + (i - idx)) % 12 = (0 + (i - (idx + count))) % 12 := by omega
          rw [if_neg hblock, if_neg hbefore, hnext, hoffset]
          push_cast
          rw [add_assoc, add_comm (1 : ℤ)]
    · rw [if_neg hmore, if_pos (by omega)]

variable {blocks : ℕ → Image} {m : Maze} {x y : ℤ}

/-- `fill_horiz_buffer` gives a horizontal line of the maze. -/
theorem fillHorizBuffer_apply (hx : 0 ≤ x) (hy : 0 ≤ y) (buf : ℕ → UInt8) {i : ℕ} (hi : i < 320) :
    m.fillHorizBuffer blocks x y buf i = m.pixel blocks (x + i) y := by
  have hconst : scrollXDim.toNat = 320 ∧ blockDim = 12 := ⟨rfl, rfl⟩
  simp only [fillHorizBuffer, hconst, Int.tdiv_eq_ediv_of_nonneg hx,
    Int.tdiv_eq_ediv_of_nonneg hy]
  rw [fillLoop_apply (by omega) (by omega) hi, if_neg (by omega), pixel]
  have hblock : x / 12 + (((x - x / 12 * 12).toNat + (i - 0)) / 12 : ℕ) = (x + i) / 12 := by omega
  have hoffset : (y - y / 12 * 12) * 12 + (((x - x / 12 * 12).toNat + (i - 0)) % 12 : ℕ) =
      y % 12 * 12 + (x + i) % 12 := by omega
  rw [hblock, hoffset]

/-- `fill_vert_buffer` gives a vertical line of the maze. -/
theorem fillVertBuffer_apply (hx : 0 ≤ x) (hy : 0 ≤ y) (buf : ℕ → UInt8) {i : ℕ} (hi : i < 182) :
    m.fillVertBuffer blocks x y buf i = m.pixel blocks x (y + i) := by
  have hconst : scrollYDim.toNat = 182 ∧ blockDim = 12 := ⟨rfl, rfl⟩
  simp only [fillVertBuffer, hconst, Int.tdiv_eq_ediv_of_nonneg hx,
    Int.tdiv_eq_ediv_of_nonneg hy]
  rw [fillLoop_apply (by omega) (by omega) hi, if_neg (by omega), pixel]
  have hblock : y / 12 + (((y - y / 12 * 12).toNat + (i - 0)) / 12 : ℕ) = (y + i) / 12 := by omega
  have hoffset : (((y - y / 12 * 12).toNat + (i - 0)) % 12 : ℕ) * 12 + (x - x / 12 * 12) =
      (y + i) % 12 * 12 + x % 12 := by omega
  rw [hblock, hoffset]

/-- The generators of rows and of columns agree with one function of the pixels, and so with each
other where a row and a column cross. -/
theorem lines_cross (blocks : ℕ → Image) (m : Maze) {x' y' : ℤ} (hx : 0 ≤ x) (hy : 0 ≤ y)
    (hx' : 0 ≤ x') (hy' : 0 ≤ y') (buf buf' : ℕ → UInt8) :
    (∀ i < 320, m.fillHorizBuffer blocks x y buf i = m.pixel blocks (x + i) y) ∧
      (∀ j < 182, m.fillVertBuffer blocks x' y' buf' j = m.pixel blocks x' (y' + j)) ∧
      ∀ i : ℕ, i < 320 → ∀ j : ℕ, j < 182 → x + i = x' → y = y' + j →
        m.fillHorizBuffer blocks x y buf i = m.fillVertBuffer blocks x' y' buf' j := by
  have hrow : ∀ i < 320, m.fillHorizBuffer blocks x y buf i = m.pixel blocks (x + i) y :=
    fun i hi ↦ fillHorizBuffer_apply hx hy buf hi
  have hcolumn : ∀ j < 182, m.fillVertBuffer blocks x' y' buf' j = m.pixel blocks x' (y' + j) :=
    fun j hj ↦ fillVertBuffer_apply hx' hy' buf' hj
  refine ⟨hrow, hcolumn, fun i hi j hj hcrossX hcrossY ↦ ?_⟩
  rw [hrow i hi, hcolumn j hj, hcrossX, hcrossY]

/-- The row at (7, 20) and the column at (100, 3) of a maze without walls cross in (100, 20). -/
theorem lines_cross_hundred :
    fillHorizBuffer (fun number _ ↦ number.toUInt8) { unmade with xDim := 14, yDim := 8 } 7 20
        (fun _ ↦ 0) 93 =
      fillVertBuffer (fun number _ ↦ number.toUInt8) { unmade with xDim := 14, yDim := 8 } 100 3
        (fun _ ↦ 0) 17 := by
  have hrow : (0 : ℤ) ≤ 7 ∧ (0 : ℤ) ≤ 20 := by decide
  have hcolumn : (0 : ℤ) ≤ 100 ∧ (0 : ℤ) ≤ 3 := by decide
  have hcross := lines_cross (fun number _ ↦ number.toUInt8)
    { unmade with xDim := 14, yDim := 8 } hrow.1 hrow.2 hcolumn.1 hcolumn.2 (fun _ ↦ 0) fun _ ↦ 0
  exact hcross.2.2 93 (by decide) 17 (by decide) (by decide) (by decide)

end Maze

namespace Game

variable {blocks : ℕ → Image} {g : Game} {xAfter yAfter : ℤ}

/-! ### The picture -/

/-- The build buffer holds at each pixel of the window what `find_block` gives for it. -/
def ShowsMaze (blocks : ℕ → Image) (g : Game) : Prop :=
  ∀ c r : ℤ, 0 ≤ c → c < scrollXDim → 0 ≤ r → r < scrollYDim →
    g.screen.build (g.screen.pixelAddr (g.screen.showX + c) (g.screen.showY + r)) =
      blocks (g.maze.findBlock ((g.screen.showX + c) / 12) ((g.screen.showY + r) / 12))
        ((g.screen.showY + r) % 12 * 12 + (g.screen.showX + c) % 12)

/-- The build buffer is right at each pixel of the window that does not belong to a stale lattice
point. -/
def ShowsExcept (blocks : ℕ → Image) (g : Game) (stale : ℤ → ℤ → Prop) : Prop :=
  ∀ x y, g.screen.InView x y → ¬stale (x / 12) (y / 12) →
    g.screen.pixel x y = g.maze.pixel blocks x y

theorem showsMaze_iff : g.ShowsMaze blocks ↔ g.ShowsExcept blocks fun _ _ ↦ False := by
  constructor
  · intro h x y hview _
    obtain ⟨hx0, hx1, hy0, hy1⟩ := hview
    have hpixel := h (x - g.screen.showX) (y - g.screen.showY) (by omega) (by omega) (by omega)
      (by omega)
    rwa [add_sub_cancel, add_sub_cancel] at hpixel
  · intro h c r hc0 hc1 hr0 hr1
    exact h _ _ ⟨by omega, by omega, by omega, by omega⟩ not_false

/-- Drawing a lattice point makes it right. -/
theorem ShowsExcept.drawPoint {stale : ℤ → ℤ → Prop} (h : g.ShowsExcept blocks stale) (px py : ℤ) :
    (g.drawPoint blocks px py).ShowsExcept blocks fun x y ↦ stale x y ∧ ¬(x = px ∧ y = py) := by
  intro x y hview hfresh
  have hwindow := g.screen.drawFullBlock_sameWindow (px * blockDim) (py * blockDim)
    (blocks (g.maze.findBlock px py))
  have hview' := (hwindow.inView_iff x y).mp hview
  have hconst : blockDim = 12 := rfl
  rw [drawPoint_maze, Game.drawPoint, Screen.drawFullBlock_pixel hview', hconst]
  by_cases hpoint : x / 12 = px ∧ y / 12 = py
  · rw [if_pos (by omega), Maze.pixel, hpoint.1, hpoint.2]
    congr 1
    omega
  · rw [if_neg (by omega)]
    exact h x y hview' fun hstale ↦ hfresh ⟨hstale, hpoint⟩

/-- A stale point that is not in the window does not matter. -/
theorem ShowsExcept.mono {stale stale' : ℤ → ℤ → Prop} (h : g.ShowsExcept blocks stale)
    (himp : ∀ x y, g.screen.InView x y → stale (x / 12) (y / 12) → stale' (x / 12) (y / 12)) :
    g.ShowsExcept blocks stale' :=
  fun x y hview hfresh ↦ h x y hview fun hstale ↦ hfresh (himp x y hview hstale)

/-! ### Panning -/

section Panning

variable {scrX scrY : ℤ} (info : GameInfo)

/-- After the window has moved, a vertical line completes the picture. -/
theorem panVert_shows (h : g.ShowsMaze blocks) {col : ℤ} (hlow : 0 ≤ col) (hhigh : col < scrollXDim)
    (hx : 0 ≤ scrX) (hy : 0 ≤ scrY)
    (hkept : ∀ x y, (g.screen.setViewWindow scrX scrY).InView x y → x ≠ col + scrX →
      g.screen.InView x y) :
    (drawVertLine blocks { g with screen := g.screen.setViewWindow scrX scrY, info := info }
      col).ShowsMaze blocks := by
  rw [showsMaze_iff] at h ⊢
  intro x y hview _
  have hwindow := (g.screen.setViewWindow scrX scrY).drawVertLine_sameWindow
    (fun x y ↦ g.maze.fillVertBuffer blocks x y fun _ ↦ 0) col
  have hview' := (hwindow.inView_iff x y).mp hview
  rw [drawVertLine_maze, drawVertLine, Screen.drawVertLine_pixel hlow hhigh hview']
  have hrows := (Screen.inView_iff _ x y).mp hview'
  rw [Screen.setViewWindow_showX, Screen.setViewWindow_showY] at hrows ⊢
  split_ifs with hcol
  · have hrow : scrY + ((y - scrY).toNat : ℤ) = y := by omega
    rw [Maze.fillVertBuffer_apply (by omega) hy _ (by omega), hrow, hcol]
  · have hold := hkept x y hview' hcol
    rw [Screen.setViewWindow_pixel hold hview']
    exact h x y hold not_false

/-- After the window has moved, a horizontal line completes the picture. -/
theorem panHoriz_shows (h : g.ShowsMaze blocks) {row : ℤ} (hlow : 0 ≤ row)
    (hhigh : row < scrollYDim) (hx : 0 ≤ scrX) (hy : 0 ≤ scrY)
    (hkept : ∀ x y, (g.screen.setViewWindow scrX scrY).InView x y → y ≠ row + scrY →
      g.screen.InView x y) :
    (drawHorizLine blocks { g with screen := g.screen.setViewWindow scrX scrY, info := info }
      row).ShowsMaze blocks := by
  rw [showsMaze_iff] at h ⊢
  intro x y hview _
  have hwindow := (g.screen.setViewWindow scrX scrY).drawHorizLine_sameWindow
    (fun x y ↦ g.maze.fillHorizBuffer blocks x y fun _ ↦ 0) row
  have hview' := (hwindow.inView_iff x y).mp hview
  rw [drawHorizLine_maze, drawHorizLine, Screen.drawHorizLine_pixel hlow hhigh hview']
  have hcolumns := (Screen.inView_iff _ x y).mp hview'
  rw [Screen.setViewWindow_showX, Screen.setViewWindow_showY] at hcolumns ⊢
  split_ifs with hrow
  · have hcolumn : scrX + ((x - scrX).toNat : ℤ) = x := by omega
    rw [Maze.fillHorizBuffer_apply hx (by omega) _ (by omega), hcolumn, hrow]
  · have hold := hkept x y hview' hrow
    rw [Screen.setViewWindow_pixel hold hview']
    exact h x y hold not_false

end Panning

/-! ### The window and the player -/

/-- One coordinate of the window and the player: the window, which is `extent` pixels long, lies on
the maze, and the player is `PAN_BORDER` blocks away from its ends unless these are the ends of the
maze. -/
structure Framed (extent dim map pos : ℤ) : Prop where
  onMaze : 6 ≤ map ∧ map + extent ≤ 24 * dim + 6
  inside : 12 ≤ pos ∧ pos ≤ 12 * (2 * dim - 1)
  low : map + 60 ≤ pos ∨ map = 6
  high : pos ≤ map + extent - 72 ∨ map + extent = 24 * dim + 6

namespace Framed

variable {extent dim map pos : ℤ}

theorem backward (h : Framed extent dim map pos) (hextent : 144 ≤ extent) (hlegal : 12 ≤ pos - 1) :
    if pos - 1 < map + 60 ∧ map > 6 then Framed extent dim (map - 1) (pos - 1)
    else Framed extent dim map (pos - 1) := by
  obtain ⟨honMaze, hinside, hlow, hhigh⟩ := h
  split_ifs with hpan
  · exact ⟨by omega, by omega, by omega, by omega⟩
  · exact ⟨by omega, by omega, by omega, by omega⟩

theorem forward {mazeDim : ℤ} (h : Framed extent dim map pos) (hdim : mazeDim = dim)
    (hextent : 144 ≤ extent) (hlegal : pos + 1 ≤ 12 * (2 * dim - 1)) :
    if pos + 1 > map + extent - 72 ∧ map + extent < (2 * mazeDim + 1) * 12 - 6 then
      Framed extent dim (map + 1) (pos + 1)
    else Framed extent dim map (pos + 1) := by
  obtain ⟨honMaze, hinside, hlow, hhigh⟩ := h
  split_ifs with hpan
  · exact ⟨by omega, by omega, by omega, by omega⟩
  · exact ⟨by omega, by omega, by omega, by omega⟩

end Framed

/-- The window follows the player through the maze. -/
structure InWindow (g : Game) (xAfter yAfter : ℤ) : Prop where
  showX : g.screen.showX = g.info.mapX
  showY : g.screen.showY = g.info.mapY
  xDim : g.info.mazeXDim = g.maze.xDim
  yDim : g.info.mazeYDim = g.maze.yDim
  columns : Framed 320 g.maze.xDim g.info.mapX xAfter
  rows : Framed 182 g.maze.yDim g.info.mapY yAfter

/-- The window depends on the view, the position in `game_info` and the size of the maze only. -/
theorem InWindow.congr {g' : Game} (h : g.InWindow xAfter yAfter)
    (hscreen : g.screen.SameWindow g'.screen) (hinfo : g'.info = g.info)
    (hx : g'.maze.xDim = g.maze.xDim) (hy : g'.maze.yDim = g.maze.yDim) :
    g'.InWindow xAfter yAfter where
  showX := by rw [hscreen.showX, hinfo, h.showX]
  showY := by rw [hscreen.showY, hinfo, h.showY]
  xDim := by rw [hinfo, hx, h.xDim]
  yDim := by rw [hinfo, hy, h.yDim]
  columns := by
    rw [hinfo, hx]
    exact h.columns
  rows := by
    rw [hinfo, hy]
    exact h.rows

/-- The position of the player after a move stays inside the maze. -/
def LegalMove (g : Game) (dir : Dir) (xAfter yAfter : ℤ) : Prop :=
  (12 ≤ xAfter + dir.dx ∧ xAfter + dir.dx ≤ 12 * (2 * g.maze.xDim - 1)) ∧
    (12 ≤ yAfter + dir.dy ∧ yAfter + dir.dy ≤ 12 * (2 * g.maze.yDim - 1))

section Follow

variable {map pos : ℤ}

/-- The window follows the player to the left or to the right. -/
theorem panVert_follows (h : g.InWindow xAfter yAfter) (hshows : g.ShowsMaze blocks)
    (hframed : Framed 320 g.maze.xDim map pos) {col : ℤ} (hlow : 0 ≤ col) (hhigh : col < 320)
    (hkept : ∀ x, map ≤ x → x < map + 320 → x ≠ col + map →
      g.info.mapX ≤ x ∧ x < g.info.mapX + 320) :
    InWindow (drawVertLine blocks { g with
        screen := g.screen.setViewWindow map g.info.mapY
        info := { g.info with mapX := map } } col) pos yAfter ∧
      ShowsMaze blocks (drawVertLine blocks { g with
        screen := g.screen.setViewWindow map g.info.mapY
        info := { g.info with mapX := map } } col) := by
  have hmap := hframed.onMaze
  have hrow := h.rows.onMaze
  refine ⟨⟨?_, ?_, h.xDim, h.yDim, hframed, h.rows⟩, ?_⟩
  · rw [(drawVertLine_sameWindow _ _).showX, drawVertLine_info, Screen.setViewWindow_showX]
  · rw [(drawVertLine_sameWindow _ _).showY, drawVertLine_info, Screen.setViewWindow_showY]
  · refine panVert_shows _ hshows hlow hhigh (by omega) (by omega) fun x y hview hline ↦ ?_
    rw [Screen.inView_iff, Screen.setViewWindow_showX, Screen.setViewWindow_showY] at hview
    rw [Screen.inView_iff, h.showX, h.showY]
    obtain ⟨hx0, hx1⟩ := hkept x hview.1 hview.2.1 hline
    exact ⟨hx0, hx1, hview.2.2⟩

/-- The window follows the player up or down. -/
theorem panHoriz_follows (h : g.InWindow xAfter yAfter) (hshows : g.ShowsMaze blocks)
    (hframed : Framed 182 g.maze.yDim map pos) {row : ℤ} (hlow : 0 ≤ row) (hhigh : row < 182)
    (hkept : ∀ y, map ≤ y → y < map + 182 → y ≠ row + map →
      g.info.mapY ≤ y ∧ y < g.info.mapY + 182) :
    InWindow (drawHorizLine blocks { g with
        screen := g.screen.setViewWindow g.info.mapX map
        info := { g.info with mapY := map } } row) xAfter pos ∧
      ShowsMaze blocks (drawHorizLine blocks { g with
        screen := g.screen.setViewWindow g.info.mapX map
        info := { g.info with mapY := map } } row) := by
  have hmap := hframed.onMaze
  have hcolumn := h.columns.onMaze
  refine ⟨⟨?_, ?_, h.xDim, h.yDim, h.columns, hframed⟩, ?_⟩
  · rw [(drawHorizLine_sameWindow _ _).showX, drawHorizLine_info, Screen.setViewWindow_showX]
  · rw [(drawHorizLine_sameWindow _ _).showY, drawHorizLine_info, Screen.setViewWindow_showY]
  · refine panHoriz_shows _ hshows hlow hhigh (by omega) (by omega) fun x y hview hline ↦ ?_
    rw [Screen.inView_iff, Screen.setViewWindow_showX, Screen.setViewWindow_showY] at hview
    rw [Screen.inView_iff, h.showX, h.showY]
    exact ⟨hview.1, hview.2.1, hkept y hview.2.2.1 hview.2.2.2 hline⟩

end Follow

/-- A legal move keeps the player in the window, the window on the maze, and the picture right. -/
theorem movePlayer_shows (h : g.InWindow xAfter yAfter) (hshows : g.ShowsMaze blocks) {dir : Dir}
    (hlegal : g.LegalMove dir xAfter yAfter) :
    (g.movePlayer blocks dir xAfter yAfter).1.InWindow (xAfter + dir.dx) (yAfter + dir.dy) ∧
      (g.movePlayer blocks dir xAfter yAfter).1.ShowsMaze blocks := by
  obtain ⟨⟨hx0, hx1⟩, hy0, hy1⟩ := hlegal
  have hconst : panBorder = 5 ∧ blockDim = 12 ∧ showMin = 6 ∧ scrollXDim = 320 ∧
    scrollYDim = 182 := by decide
  cases dir with
  | up =>
    have hframed := h.rows.backward (by decide) hy0
    simp only [Dir.dx, Dir.dy, add_zero, ← sub_eq_add_neg] at hframed ⊢
    simp only [movePlayer, moveUp, hconst, Int.reduceMul]
    split_ifs at hframed ⊢ with hpan
    · exact panHoriz_follows h hshows hframed le_rfl (by decide) fun y _ _ _ ↦ by omega
    · exact ⟨⟨h.showX, h.showY, h.xDim, h.yDim, h.columns, hframed⟩, hshows⟩
  | right =>
    have hframed := h.columns.forward h.xDim (by decide) hx1
    simp only [Dir.dx, Dir.dy, add_zero] at hframed ⊢
    simp only [movePlayer, moveRight, hconst, Int.reduceMul, Int.reduceAdd]
    split_ifs at hframed ⊢ with hpan
    · exact panVert_follows h hshows hframed (by decide) (by decide) fun x _ _ _ ↦ by omega
    · exact ⟨⟨h.showX, h.showY, h.xDim, h.yDim, hframed, h.rows⟩, hshows⟩
  | down =>
    have hframed := h.rows.forward h.yDim (by decide) hy1
    simp only [Dir.dx, Dir.dy, add_zero] at hframed ⊢
    simp only [movePlayer, moveDown, hconst, Int.reduceMul, Int.reduceAdd]
    split_ifs at hframed ⊢ with hpan
    · exact panHoriz_follows h hshows hframed (by decide) (by decide) fun y _ _ _ ↦ by omega
    · exact ⟨⟨h.showX, h.showY, h.xDim, h.yDim, h.columns, hframed⟩, hshows⟩
  | left =>
    have hframed := h.columns.backward (by decide) hx0
    simp only [Dir.dx, Dir.dy, add_zero, ← sub_eq_add_neg] at hframed ⊢
    simp only [movePlayer, moveLeft, hconst, Int.reduceMul]
    split_ifs at hframed ⊢ with hpan
    · exact panVert_follows h hshows hframed le_rfl (by decide) fun x _ _ _ ↦ by omega
    · exact ⟨⟨h.showX, h.showY, h.xDim, h.yDim, hframed, h.rows⟩, hshows⟩
  | stop =>
    simp only [Dir.dx, Dir.dy, add_zero]
    exact ⟨h, hshows⟩

/-! ### Unveiling and eating -/

/-- The lattice points of the window lie on the maze. -/
theorem InWindow.visible (h : g.InWindow xAfter yAfter) {x y : ℤ} (hview : g.screen.InView x y) :
    0 ≤ x / 12 ∧ x / 12 ≤ 2 * g.maze.xDim := by
  have hcolumns := h.columns.onMaze
  rw [Screen.inView_iff, h.showX] at hview
  omega

/-- The left and the right boundary are never both in the window, or one of them in the window and
the other near the player. -/
theorem InWindow.boundaries_apart (h : g.InWindow xAfter yAfter) {x y : ℤ}
    (hview : g.screen.InView x y) {ux : ℤ} (hlow : xAfter / 12 - 2 ≤ ux)
    (hhigh : ux ≤ xAfter / 12 + 2) : ¬(x / 12 = 0 ∧ ux = 2 * g.maze.xDim) ∧
      ¬(x / 12 = 2 * g.maze.xDim ∧ ux = 0) := by
  obtain ⟨honMaze, hinside, hleft, hright⟩ := h.columns
  rw [Screen.inView_iff, h.showX] at hview
  omega

theorem drawPoint_inWindow (h : g.InWindow xAfter yAfter) (px py : ℤ) :
    (g.drawPoint blocks px py).InWindow xAfter yAfter :=
  h.congr (Screen.drawFullBlock_sameWindow _ _ _ _) rfl rfl rfl

/-- Unveiling a point near the player makes no other image in the window stale. -/
theorem unveiled_showsExcept (h : g.InWindow xAfter yAfter) (hshows : g.ShowsMaze blocks)
    {ux uy : ℤ} (hin : 0 ≤ ux ∧ ux ≤ 2 * g.maze.xDim) (hlow : xAfter / 12 - 2 ≤ ux)
    (hhigh : ux ≤ xAfter / 12 + 2) {value : UInt8}
    (hwall : Maze.hasBit value mazeWall = Maze.hasBit (g.maze.cell ux uy) mazeWall) :
    ShowsExcept blocks { g with maze := g.maze.setCell ux uy value }
      fun x y ↦ x = ux ∧ y = uy := by
  rw [showsMaze_iff] at hshows
  intro x y hview hfresh
  have hvisible := h.visible hview
  have hcolumns := h.columns.onMaze
  have hapart := h.boundaries_apart hview hlow hhigh
  have hne : g.maze.index (x / 12) (y / 12) ≠ g.maze.index ux uy := by
    intro heq
    have hcases := Maze.index_eq_cases hvisible hin (by omega) heq
    omega
  have hblock : (g.maze.setCell ux uy value).findBlock (x / 12) (y / 12) =
      g.maze.findBlock (x / 12) (y / 12) :=
    Maze.findBlock_congr (Maze.setCell_cell_of_ne hne value) Iff.rfl (Maze.setCell_wall hwall)
  rw [Maze.pixel, hblock]
  exact hshows x y hview not_false

theorem unveilSpace_shows (h : g.InWindow xAfter yAfter) (hshows : g.ShowsMaze blocks)
    {ux uy : ℤ} (hlow : xAfter / 12 - 2 ≤ ux) (hhigh : ux ≤ xAfter / 12 + 2) :
    (g.unveilSpace blocks ux uy).InWindow xAfter yAfter ∧
      (g.unveilSpace blocks ux uy).ShowsMaze blocks := by
  unfold unveilSpace
  split_ifs with hout hreach
  · exact ⟨h, hshows⟩
  · exact ⟨h, hshows⟩
  · have hwall : Maze.hasBit (g.maze.cell ux uy ||| mazeReach) mazeWall =
        Maze.hasBit (g.maze.cell ux uy) mazeWall :=
      (Maze.hasBit_or _ _ _).trans (Bool.or_false _)
    have hstale := unveiled_showsExcept h hshows ⟨by omega, by omega⟩ hlow hhigh hwall
    constructor
    · apply drawPoint_inWindow
      exact h.congr (Screen.SameWindow.refl _) rfl rfl rfl
    · rw [showsMaze_iff]
      apply (hstale.drawPoint ux uy).mono
      exact fun x y _ hboth ↦ hboth.2 hboth.1

/-- Without a fruit, the images of its point and, if it was the last one, of the exit are stale. -/
theorem eaten_showsExcept (h : g.InWindow xAfter yAfter) (hsound : g.maze.Sound)
    (hshows : g.ShowsMaze blocks) {px py : ℤ} (hpx : 0 < px) (hpx2 : px < 2 * g.maze.xDim)
    (hhas : Maze.hasBit (g.maze.cell px py) mazeFruit = true) {value : UInt8}
    (hwall : Maze.hasBit value mazeWall = Maze.hasBit (g.maze.cell px py) mazeWall) :
    ShowsExcept blocks
      { g with maze := { g.maze.setCell px py value with nFruits := g.maze.nFruits - 1 } }
      fun x y ↦ x = px ∧ y = py ∨
        g.maze.nFruits - 1 = 0 ∧ x = g.maze.exitX ∧ y = g.maze.exitY := by
  obtain ⟨fruits, hfruits⟩ := hsound.fruits
  have hpos : 0 < g.maze.nFruits := hfruits.nFruits_pos hhas
  rw [showsMaze_iff] at hshows
  intro x y hview hfresh
  have hvisible := h.visible hview
  have hne : g.maze.index (x / 12) (y / 12) ≠ g.maze.index px py := fun heq ↦
    hfresh (Or.inl (Maze.index_inj hpx hpx2 hvisible.1 hvisible.2 heq))
  have hexit : g.maze.nFruits - 1 = 0 ∧
        Maze.hasBit (g.maze.cell (x / 12) (y / 12)) mazeExit = true ↔
      g.maze.nFruits = 0 ∧ Maze.hasBit (g.maze.cell (x / 12) (y / 12)) mazeExit = true := by
    constructor
    · -- the exit would be stale
      rintro ⟨hlast, hbit⟩
      obtain ⟨hex0, hex1, -, -⟩ := hsound.exit_inside
      have hpoint := Maze.index_inj hex0 hex1 hvisible.1 hvisible.2 (hsound.exit _ hbit)
      exact absurd (Or.inr ⟨hlast, hpoint⟩) hfresh
    · rintro ⟨hnone, -⟩
      omega
  have hblock : Maze.findBlock { g.maze.setCell px py value with nFruits := g.maze.nFruits - 1 }
      (x / 12) (y / 12) = g.maze.findBlock (x / 12) (y / 12) :=
    Maze.findBlock_congr (Maze.setCell_cell_of_ne hne value) hexit (Maze.setCell_wall hwall)
  rw [Maze.pixel, hblock]
  exact hshows x y hview not_false

/-- Eating a fruit draws its point and, with the last fruit, the exit. -/
theorem checkForFruit_shows (h : g.InWindow xAfter yAfter) (hsound : g.maze.Sound)
    (hshows : g.ShowsMaze blocks) {px py : ℤ} (hpx : 0 < px) (hpx2 : px < 2 * g.maze.xDim) :
    (g.checkForFruit blocks px py).1.InWindow xAfter yAfter ∧
      (g.checkForFruit blocks px py).1.ShowsMaze blocks := by
  unfold checkForFruit
  by_cases hout : px < 0 ∨ px ≥ 2 * g.maze.xDim ∨ py < 0 ∨ py ≥ 2 * g.maze.yDim
  · rw [if_pos hout]
    exact ⟨h, hshows⟩
  · rw [if_neg hout]
    by_cases hfruit : Maze.fruitNumber (g.maze.cell px py) = 0
    · simp only [hfruit]
      exact ⟨h, hshows⟩
    · simp only [ne_eq, hfruit, not_false_eq_true, if_true]
      have hhas : Maze.hasBit (g.maze.cell px py) mazeFruit = true := by
        rwa [Maze.fruitNumber_eq_zero_iff, Bool.not_eq_false] at hfruit
      have hstale := eaten_showsExcept h hsound hshows hpx hpx2 hhas
        (Maze.hasBit_and_of_eq (show ~~~mazeFruit &&& mazeWall = mazeWall from rfl))
      generalize g.maze.cell px py &&& ~~~mazeFruit = value at hstale ⊢
      have hwindow : InWindow
          { g with maze := { g.maze.setCell px py value with nFruits := g.maze.nFruits - 1 } }
          xAfter yAfter := h.congr (Screen.SameWindow.refl _) rfl rfl rfl
      have hcount : (g.maze.setCell px py value).nFruits = g.maze.nFruits := rfl
      simp only [hcount]
      rw [showsMaze_iff]
      split_ifs with hlast
      · refine ⟨drawPoint_inWindow (drawPoint_inWindow hwindow _ _) _ _, ?_⟩
        apply ((hstale.drawPoint g.maze.exitX g.maze.exitY).drawPoint px py).mono
        rintro x y - ⟨⟨hpoint | ⟨-, hpoint⟩, hnotExit⟩, hnotEaten⟩
        · exact hnotEaten hpoint
        · exact hnotExit hpoint
      · refine ⟨drawPoint_inWindow hwindow _ _, ?_⟩
        apply (hstale.drawPoint px py).mono
        rintro x y - ⟨hpoint | ⟨hzero, -⟩, hnotEaten⟩
        · exact hnotEaten hpoint
        · exact hlast hzero

theorem unveilAroundPlayer_shows (h : g.InWindow xAfter yAfter) (hsound : g.maze.Sound)
    (hshows : g.ShowsMaze blocks) :
    (g.unveilAroundPlayer blocks xAfter yAfter).1.InWindow xAfter yAfter ∧
      (g.unveilAroundPlayer blocks xAfter yAfter).1.ShowsMaze blocks := by
  have hfold : ∀ (around : List (ℤ × ℤ)) (y : ℤ) (g : Game),
      (∀ point ∈ around, -2 ≤ point.1 ∧ point.1 ≤ 2) →
        g.InWindow xAfter yAfter ∧ g.ShowsMaze blocks →
          (around.foldl (fun g point ↦
              g.unveilSpace blocks (xAfter / 12 + point.1) (y + point.2)) g).InWindow
              xAfter yAfter ∧
            (around.foldl (fun g point ↦
              g.unveilSpace blocks (xAfter / 12 + point.1) (y + point.2)) g).ShowsMaze blocks := by
    intro around y
    induction around with
    | nil => exact fun g _ hg ↦ hg
    | cons point rest ih =>
      intro g hnear hg
      have hpoint := hnear point List.mem_cons_self
      exact ih _ (fun p hp ↦ hnear p (List.mem_cons_of_mem _ hp))
        (unveilSpace_shows hg.1 hg.2 (by omega) (by omega))
  have hinside := h.columns.inside
  have hx : xAfter.tdiv blockDim = xAfter / 12 := Int.tdiv_eq_ediv_of_nonneg (by omega)
  simp only [unveilAroundPlayer, hx]
  exact hfold _ _ _ (by decide) (checkForFruit_shows h hsound hshows (by omega) (by omega))

/-! ### The player -/

/-- The player is drawn and removed without a trace. -/
theorem showPlayer_shows (h : g.InWindow xAfter yAfter) (hshows : g.ShowsMaze blocks)
    (lastDir : Dir) : (g.showPlayer blocks xAfter yAfter lastDir).InWindow xAfter yAfter ∧
      (g.showPlayer blocks xAfter yAfter lastDir).ShowsMaze blocks := by
  have hmask := g.screen.mask_sameWindow xAfter yAfter (blocks (Maze.getPlayerBlock lastDir))
    (blocks (Maze.getPlayerMask lastDir))
  have hwindow := hmask.trans (Screen.drawFullBlock_sameWindow _ xAfter yAfter
    (g.screen.mask xAfter yAfter (blocks (Maze.getPlayerBlock lastDir))
      (blocks (Maze.getPlayerMask lastDir))).blockMask)
  refine ⟨h.congr hwindow rfl rfl rfl, ?_⟩
  rw [showsMaze_iff] at hshows ⊢
  intro x y hview _
  have hview' := (hwindow.inView_iff x y).mp hview
  obtain ⟨hcolumns, hcolumn, hleft, hright⟩ := h.columns
  obtain ⟨hrows, hrow, htop, hbottom⟩ := h.rows
  have hx := h.showX
  have hy := h.showY
  exact (Screen.mask_drawFullBlock_pixel (by omega) (by omega) (by omega) (by omega) hview').trans
    (hshows x y hview' not_false)

/-! ### The initial screen -/

/-- The lines that have been drawn are right. -/
theorem drawLines_shows (blocks : ℕ → Image) (g : Game) (hx : 0 ≤ g.screen.showX)
    (hy : 0 ≤ g.screen.showY) {n : ℕ} (hn : n ≤ 182) {x y : ℤ} (hview : g.screen.InView x y)
    (hdrawn : y < g.screen.showY + n) :
    (g.drawLines blocks n).screen.pixel x y = g.maze.pixel blocks x y := by
  induction n with
  | zero =>
    rw [Screen.inView_iff] at hview
    omega
  | succ n ih =>
    have hwindow := drawLines_sameWindow blocks g n
    have hrow : (n : ℤ) < scrollYDim := by
      have hconst : scrollYDim = 182 := rfl
      omega
    simp only [drawLines, drawHorizLine, drawLines_maze]
    have hview' := (hwindow.inView_iff x y).mpr hview
    rw [Screen.drawHorizLine_pixel (by omega) hrow hview', hwindow.showX, hwindow.showY]
    rw [Screen.inView_iff] at hview
    split_ifs with hline
    · have hcolumn : g.screen.showX + ((x - g.screen.showX).toNat : ℤ) = x := by omega
      rw [Maze.fillHorizBuffer_apply hx (by omega) _ (by omega), hcolumn, hline]
    · refine ih (by omega) ?_
      push_cast at hdrawn
      omega

/-- The start of a level in a maze, before it is drawn: the window is in the upper left corner. -/
def enter (g : Game) (maze : Maze) : Game where
  maze := maze
  screen := g.screen.setViewWindow showMin showMin
  info := { g.info with
    mazeXDim := maze.xDim
    mazeYDim := maze.yDim
    mapX := showMin
    mapY := showMin }

/-- What `prepare_maze_level` prepares is the start of a level in a maze that has been made. -/
theorem prepareMazeLevel_enter {g' : Game} {level : ℤ} {fuel : ℕ} {tape : Tape}
    (h : g.prepareMazeLevel blocks level fuel tape = some (0, g')) :
    ∃ maze, g.maze.makeMaze (levelInfo level).mazeXDim (levelInfo level).mazeYDim
        (levelInfo level).initialFruitCount fuel tape = some (0, maze) ∧
      g' = (enter { g with info := levelInfo level } maze).drawLines blocks scrollYDim.toNat := by
  simp only [prepareMazeLevel, Option.bind_eq_bind, Option.bind_eq_some_iff, Prod.exists] at h
  obtain ⟨ret, maze, hmaze, hlevel⟩ := h
  split_ifs at hlevel with hret
  · simp at hlevel
  · rw [not_not] at hret
    subst hret
    obtain ⟨-, hxDim, hyDim⟩ := Maze.makeMaze_sound hmaze
    simp only [Option.some.injEq, Prod.mk.injEq, true_and] at hlevel
    refine ⟨maze, hmaze, ?_⟩
    rw [← hlevel, enter, hxDim, hyDim]
    rfl

/-- The initial screen is the whole window. -/
theorem enter_shows (blocks : ℕ → Image) (g : Game) {maze : Maze} (h : maze.Sound) :
    ((g.enter maze).drawLines blocks scrollYDim.toNat).InWindow 12 12 ∧
      ((g.enter maze).drawLines blocks scrollYDim.toNat).ShowsMaze blocks := by
  have hmin : mazeMinXDim = 14 ∧ mazeMinYDim = 8 ∧ scrollYDim.toNat = 182 := by decide
  have hwide := h.wide
  have hhigh := h.high
  simp only [hmin] at hwide hhigh ⊢
  have hx : (g.enter maze).screen.showX = 6 := Screen.setViewWindow_showX _ _ _
  have hy : (g.enter maze).screen.showY = 6 := Screen.setViewWindow_showY _ _ _
  have hwindow := drawLines_sameWindow blocks (g.enter maze) 182
  have hmaze : (g.enter maze).maze = maze := rfl
  have hmap : (g.enter maze).info.mapX = 6 ∧ (g.enter maze).info.mapY = 6 := ⟨rfl, rfl⟩
  refine ⟨⟨?_, ?_, ?_, ?_, ?_, ?_⟩, ?_⟩
  · rw [hwindow.showX, drawLines_info, hx, hmap.1]
  · rw [hwindow.showY, drawLines_info, hy, hmap.2]
  · rw [drawLines_info, drawLines_maze]
    rfl
  · rw [drawLines_info, drawLines_maze]
    rfl
  · rw [drawLines_info, drawLines_maze, hmap.1, hmaze]
    exact ⟨by omega, by omega, by omega, by omega⟩
  · rw [drawLines_info, drawLines_maze, hmap.2, hmaze]
    exact ⟨by omega, by omega, by omega, by omega⟩
  · rw [showsMaze_iff]
    intro x y hview _
    have hview' := (hwindow.inView_iff x y).mp hview
    rw [drawLines_maze]
    refine drawLines_shows blocks _ (by omega) (by omega) (le_refl 182) hview' ?_
    rw [Screen.inView_iff] at hview'
    exact hview'.2.2.2

/-- A level starts with the whole window drawn. -/
theorem prepareMazeLevel_shows {g' : Game} {level : ℤ} {fuel : ℕ} {tape : Tape}
    (h : g.prepareMazeLevel blocks level fuel tape = some (0, g')) :
    g'.maze.Sound ∧ g'.InWindow 12 12 ∧ g'.ShowsMaze blocks := by
  obtain ⟨maze, hmaze, rfl⟩ := prepareMazeLevel_enter h
  have hsound := (Maze.makeMaze_sound hmaze).1
  exact ⟨by rwa [drawLines_maze], enter_shows blocks _ hsound⟩

end Game

/-! ### Runs -/

/-- The game with the position of the player. -/
structure Player where
  game : Game
  xAfter : ℤ
  yAfter : ℤ

/-- What happens to the picture: a move of the player, the unveiling around the player, and a round
in which the player is drawn, shown and removed. -/
inductive Action where
  | move (dir : Dir)
  | unveil
  | round (lastDir : Dir)

namespace Player

variable (blocks : ℕ → Image) {p : Player}

/-- The step of the player. -/
def act (p : Player) : Action → Player
  | .move dir =>
    let (game, xAfter, yAfter) := p.game.movePlayer blocks dir p.xAfter p.yAfter
    ⟨game, xAfter, yAfter⟩
  | .unveil => { p with game := (p.game.unveilAroundPlayer blocks p.xAfter p.yAfter).1 }
  | .round lastDir => { p with game := p.game.showPlayer blocks p.xAfter p.yAfter lastDir }

/-- Moves have to be legal. -/
def Legal (p : Player) : Action → Prop
  | .move dir => p.game.LegalMove dir p.xAfter p.yAfter
  | _ => True

/-- The maze is sound, the window follows the player, and the picture is right. -/
structure Pictured (p : Player) : Prop where
  sound : p.game.maze.Sound
  window : p.game.InWindow p.xAfter p.yAfter
  shows : p.game.ShowsMaze blocks

theorem act_pictured (p : Player) (action : Action) (h : p.Pictured blocks)
    (hlegal : p.Legal action) : (p.act blocks action).Pictured blocks := by
  cases action with
  | move dir =>
    obtain ⟨hmaze, hposition⟩ := p.game.movePlayer_spec blocks dir p.xAfter p.yAfter
    obtain ⟨hwindow, hshows⟩ := Game.movePlayer_shows h.window h.shows hlegal
    refine ⟨?_, ?_, hshows⟩
    · simp only [act, hmaze]
      exact h.sound
    · simpa only [act, hposition] using hwindow
  | unveil =>
    obtain ⟨hwindow, hshows⟩ := Game.unveilAroundPlayer_shows h.window h.sound h.shows
    exact ⟨(Game.unveilAroundPlayer_keepsMaze blocks _ _ _).sound h.sound, hwindow, hshows⟩
  | round lastDir =>
    obtain ⟨hwindow, hshows⟩ := Game.showPlayer_shows h.window h.shows lastDir
    exact ⟨h.sound, hwindow, hshows⟩

/-- From the start of a level on, whatever legal moves are made and wherever the player unveils the
maze or is drawn, the picture is the one that drawing the whole window anew would give. -/
theorem everyState_showsMaze {g g' : Game} {level : ℤ} {fuel : ℕ} {tape : Tape}
    (hlevel : g.prepareMazeLevel blocks level fuel tape = some (0, g')) (actions : List Action)
    (hlegal : EveryStep (act blocks) Legal ⟨g', 12, 12⟩ actions) :
    EveryState (act blocks) (fun p ↦ p.game.ShowsMaze blocks) ⟨g', 12, 12⟩ actions := by
  obtain ⟨hsound, hwindow, hshows⟩ := Game.prepareMazeLevel_shows hlevel
  have hpictured : EveryState (act blocks) (Pictured blocks) ⟨g', 12, 12⟩ actions :=
    everyState_of_everyStep (act_pictured blocks) ⟨hsound, hwindow, hshows⟩ hlegal
  exact hpictured.mono fun _ h ↦ h.shows

/-- Images of one colour each. -/
def plainBlocks : ℕ → Image := fun number _ ↦ number.toUInt8

/-- The first level can be prepared, in a maze made by a single worm. -/
theorem prepareMazeLevel_wormTape : ∃ g,
    Game.initial.prepareMazeLevel plainBlocks 1 300 Maze.wormTape = some (0, g) := by
  obtain ⟨m, hmaze⟩ := Maze.makeMaze_wormTape
  have hinfo : (levelInfo 1).mazeXDim = 14 ∧ (levelInfo 1).mazeYDim = 8 ∧
    (levelInfo 1).initialFruitCount = 1 := by decide
  have hinitial : Game.initial.maze = Maze.unmade := rfl
  simp only [Game.prepareMazeLevel, hinfo, hinitial, hmaze]
  exact ⟨_, rfl⟩

/-- A run through this level. -/
theorem everyState_showsMaze_wormTape : ∃ g,
    Game.initial.prepareMazeLevel plainBlocks 1 300 Maze.wormTape = some (0, g) ∧
      EveryState (act plainBlocks) (fun p ↦ p.game.ShowsMaze plainBlocks) ⟨g, 12, 12⟩
        [.unveil, .round .up, .move .right, .round .right] := by
  obtain ⟨g, hlevel⟩ := prepareMazeLevel_wormTape
  refine ⟨g, hlevel, everyState_showsMaze _ hlevel _ ?_⟩
  obtain ⟨hsound, hwindow, hshows⟩ := Game.prepareMazeLevel_shows hlevel
  -- the unveiling and the round keep the player at (12,12), where there is room to the right
  have hunveiled := act_pictured plainBlocks ⟨g, 12, 12⟩ .unveil ⟨hsound, hwindow, hshows⟩ trivial
  have hround := act_pictured plainBlocks _ (.round .up) hunveiled trivial
  have hcolumns := hround.window.columns.onMaze
  have hrows := hround.window.rows.inside
  refine ⟨trivial, trivial, ⟨⟨?_, ?_⟩, hrows⟩, trivial, trivial⟩
  · change (12 : ℤ) ≤ 12 + 1
    omega
  · change (12 : ℤ) + 1 ≤ _
    omega

end Player

/-! ### The thread -/

namespace Thread

variable (blocks : ℕ → Image) {t : Thread}

/-- The player is where it can be, in the window, and the picture is right. -/
structure Drawn (t : Thread) : Prop where
  safe : t.Safe
  window : t.game.InWindow t.xAfter t.yAfter
  shows : t.game.ShowsMaze blocks

/-- The moves of the thread are legal. -/
theorem move_drawn (hwindow : t.game.InWindow t.xAfter t.yAfter) (hshows : t.game.ShowsMaze blocks)
    (hafter : (t.move blocks).Safe) : (t.move blocks).Drawn blocks := by
  suffices hpicture : (t.move blocks).game.InWindow (t.move blocks).xAfter (t.move blocks).yAfter ∧
      (t.move blocks).game.ShowsMaze blocks from ⟨hafter, hpicture.1, hpicture.2⟩
  by_cases hmoves : t.dir ≠ .stop
  · obtain ⟨hmaze, -, -, hx, hy⟩ := move_spec blocks t hmoves
    have hcolumn := hafter.motion.column
    have hrow := hafter.motion.row
    rw [hmaze] at hcolumn hrow
    rw [hx] at hcolumn
    rw [hy] at hrow
    obtain ⟨hwindow', hshows'⟩ := Game.movePlayer_shows hwindow hshows ⟨hcolumn, hrow⟩
    rw [hx, hy]
    simp only [move, if_pos hmoves]
    exact ⟨hwindow', hshows'⟩
  · simp only [move, if_neg hmoves]
    exact ⟨hwindow, hshows⟩

theorem tick_drawn (h : t.Drawn blocks) (behind : Bool) : (t.tick blocks behind).Drawn blocks := by
  have hafter := tick_safe blocks h.safe behind
  obtain ⟨hgame, hx, hy⟩ := turnBack_game t
  have hwindow : t.turnBack.game.InWindow t.turnBack.xAfter t.turnBack.yAfter := by
    rw [hgame, hx, hy]
    exact h.window
  have hshows : t.turnBack.game.ShowsMaze blocks := by
    rw [hgame]
    exact h.shows
  have hsound : t.turnBack.game.maze.Sound := by
    rw [hgame]
    exact h.safe.sound
  unfold tick at hafter ⊢
  by_cases hnext : t.gotoNextLevel = true
  · rw [if_pos hnext]
    exact h
  · rw [if_neg hnext] at hafter ⊢
    by_cases hcnt : t.turnBack.moveCnt = 0
    · simp only [if_pos hcnt] at hafter ⊢
      obtain ⟨hwindow', hshows'⟩ := Game.unveilAroundPlayer_shows hwindow hsound hshows
      split_ifs at hafter ⊢
      · exact ⟨hafter, hwindow', hshows'⟩
      · refine move_drawn blocks ?_ ?_ hafter
        · obtain ⟨hgame', hx', hy'⟩ := chooseDir_game
            { t.turnBack with game := (t.turnBack.game.unveilAroundPlayer blocks t.turnBack.xAfter
              t.turnBack.yAfter).1 } behind
          rw [hgame', hx', hy']
          exact hwindow'
        · rw [(chooseDir_game _ behind).1]
          exact hshows'
    · simp only [if_neg hcnt] at hafter ⊢
      exact move_drawn blocks hwindow hshows hafter

theorem step_drawn (t : Thread) (event : Event) (h : t.Drawn blocks) :
    (t.step blocks event).Drawn blocks := by
  have hafter := step_safe blocks t event h.safe
  cases event with
  | tick behind => exact tick_drawn blocks h behind
  | turn dir => exact ⟨hafter, h.window, h.shows⟩
  | redraw =>
    obtain ⟨hwindow, hshows⟩ := Game.showPlayer_shows h.window h.shows t.lastDir
    exact ⟨hafter, hwindow, hshows⟩

/-- At the start of a level the picture shows what has been unveiled around (1,1). -/
theorem startLevel_drawn (hsound : t.game.maze.Sound) (hwindow : t.game.InWindow 12 12)
    (hshows : t.game.ShowsMaze blocks) : (t.startLevel blocks).Drawn blocks := by
  obtain ⟨hwindow', hshows'⟩ := Game.unveilAroundPlayer_shows hwindow hsound hshows
  obtain ⟨hwindow'', hshows''⟩ := Game.showPlayer_shows hwindow' hshows' .up
  exact ⟨startLevel_safe blocks hsound, hwindow'', hshows''⟩

/-- In every run of the thread through a level the picture is right between its steps. -/
theorem everyState_showsMaze_thread {g' : Game} {level : ℤ} {fuel : ℕ} {tape : Tape}
    (hlevel : t.game.prepareMazeLevel blocks level fuel tape = some (0, g')) (events : List Event) :
    EveryState (step blocks) (fun t ↦ t.game.ShowsMaze blocks)
      (startLevel blocks { t with game := g' }) events := by
  obtain ⟨hsound, hwindow, hshows⟩ := Game.prepareMazeLevel_shows hlevel
  have hdrawn := everyState_of_invariant (step_drawn blocks)
    (startLevel_drawn blocks (t := { t with game := g' }) hsound hwindow hshows) events
  exact hdrawn.mono fun _ h ↦ h.shows

end Thread

end Sp18.MazeGame
