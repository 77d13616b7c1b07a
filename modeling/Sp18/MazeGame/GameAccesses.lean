import Sp18.MazeGame.MazeAccesses
import Sp18.MazeGame.Picture

/-!
# The accesses of the game

The functions that the game calls on a maze once more, with a check of the index at each access of
`maze`, up to the step of the thread. In a maze of an accepted size the stencil of `find_block` is
in the array for each lattice point of the maze, boundaries included (`findBlockChecked_eq`). The
window shows no others, up to the last of the hidden pixels at its ends (`Visible`).

The checks succeed in every state that the thread gets to in a maze that `make_maze` has returned
(`everyState_accesses`).
-/

set_option autoImplicit false
set_option relaxedAutoImplicit false

namespace Sp18.MazeGame

open Foundation

namespace Maze

/-! ### The functions of `maze.c` with checks -/

/-- `wall` with a check -/
def wallChecked (m : Maze) (x y : ℤ) : Except Stop Bool := do
  return hasBit (← m.loadCell x y) mazeWall

/-- `find_block` with checks. The stencil is looked at for walls only. -/
def findBlockChecked (m : Maze) (x y : ℤ) : Except Stop ℕ := do
  let value ← m.loadCell x y
  let fnum := fruitNumber value
  if m.nFruits = 0 ∧ hasBit value mazeExit then return blockExit
  else if !hasBit value mazeReach then
    if fnum ≠ 0 then return blockFruitShadow else return blockShadow
  else if fnum ≠ 0 then return blockFruit1 + fnum - 1
  else if !hasBit value mazeWall then return blockEmpty
  else
    let up ← m.wallChecked x (y - 1)
    let right ← m.wallChecked (x + 1) y
    let down ← m.wallChecked x (y + 1)
    let left ← m.wallChecked (x - 1) y
    return up.toNat + 2 * right.toNat + 4 * down.toNat + 8 * left.toNat

/-- `find_open_directions` with checks -/
def findOpenDirectionsChecked (m : Maze) (x y : ℤ) (behind : Bool) : Except Stop (Dir → Bool) := do
  let up ← m.wallChecked x (y - 1)
  let right ← m.wallChecked (x + 1) y
  let down ← m.wallChecked x (y + 1)
  let left ← m.wallChecked (x - 1) y
  return fun
    | .up => !up
    | .right => !right
    | .down => !down
    | .left => !left
    | .stop => behind

/-- `check_for_win` with checks -/
def checkForWinChecked (m : Maze) (x y : ℤ) : Except Stop Bool :=
  if x < 0 ∨ x ≥ 2 * m.xDim ∨ y < 0 ∨ y ≥ 2 * m.yDim then return false
  else if m.nFruits = 0 then do return hasBit (← m.loadCell x y) mazeExit
  else return false

/-- `fillLoop` with checks: the pixels of a block are those of the image that is found for it. -/
def fillLoopChecked (dim : ℕ) (block : ℤ → Except Stop (ℕ → UInt8)) (buf : ℕ → UInt8) (idx : ℕ)
    (map : ℤ) (sub : ℕ) : ℕ → Except Stop (ℕ → UInt8)
  | 0 => return buf
  | rounds + 1 =>
    if idx < dim then do
      let count := min (12 - sub) (dim - idx)
      let pixel ← block map
      fillLoopChecked dim block (writeSeq (fun i ↦ idx + i) (fun i ↦ pixel (sub + i)) buf count)
        (idx + count) (map + 1) 0 rounds
    else return buf

section Images

variable (blocks : ℕ → Image)

/-- `fill_horiz_buffer` with checks -/
def fillHorizBufferChecked (m : Maze) (x y : ℤ) (buf : ℕ → UInt8) : Except Stop (ℕ → UInt8) :=
  let mapX := x.tdiv blockDim
  let mapY := y.tdiv blockDim
  let subX := x - mapX * blockDim
  let subY := y - mapY * blockDim
  fillLoopChecked scrollXDim.toNat
    (fun map ↦ do
      let number ← m.findBlockChecked map mapY
      return fun i ↦ blocks number (subY * blockDim + i)) buf 0 mapX subX.toNat scrollXDim.toNat

/-- `fill_vert_buffer` with checks -/
def fillVertBufferChecked (m : Maze) (x y : ℤ) (buf : ℕ → UInt8) : Except Stop (ℕ → UInt8) :=
  let mapX := x.tdiv blockDim
  let mapY := y.tdiv blockDim
  let subX := x - mapX * blockDim
  let subY := y - mapY * blockDim
  fillLoopChecked scrollYDim.toNat
    (fun map ↦ do
      let number ← m.findBlockChecked mapX map
      return fun i ↦ blocks number (i * blockDim + subX)) buf 0 mapY subY.toNat scrollYDim.toNat

end Images

end Maze

namespace Game

section Blocks

variable (blocks : ℕ → Image)

/-! ### The functions of `mazegame.c` with checks -/

/-- `draw_horiz_line` with checks -/
def drawHorizLineChecked (g : Game) (y : ℤ) : Except Stop Game :=
  if y < 0 ∨ y ≥ scrollYDim then return g
  else do
    let buf ← g.maze.fillHorizBufferChecked blocks g.screen.showX (y + g.screen.showY) fun _ ↦ 0
    return { g with screen := g.screen.drawHorizLine (fun _ _ ↦ buf) y }

/-- `draw_vert_line` with checks -/
def drawVertLineChecked (g : Game) (x : ℤ) : Except Stop Game :=
  if x < 0 ∨ x > scrollXDim then return g
  else do
    let buf ← g.maze.fillVertBufferChecked blocks (x + g.screen.showX) g.screen.showY fun _ ↦ 0
    return { g with screen := g.screen.drawVertLine (fun _ _ ↦ buf) x }

/-- `drawLines` with checks -/
def drawLinesChecked (g : Game) : ℕ → Except Stop Game
  | 0 => return g
  | i + 1 => do
    let g ← drawLinesChecked g i
    g.drawHorizLineChecked blocks i

/-- `move_up` with checks -/
def moveUpChecked (g : Game) (ypos : ℤ) : Except Stop (Game × ℤ) :=
  if ypos - 1 < g.info.mapY + blockDim * panBorder ∧ g.info.mapY > showMin then do
    let mapY := g.info.mapY - 1
    let g ← drawHorizLineChecked blocks { g with
      screen := g.screen.setViewWindow g.info.mapX mapY
      info := { g.info with mapY := mapY } } 0
    return (g, ypos - 1)
  else return (g, ypos - 1)

/-- `move_right` with checks -/
def moveRightChecked (g : Game) (xpos : ℤ) : Except Stop (Game × ℤ) :=
  if xpos + 1 > g.info.mapX + scrollXDim - blockDim * (panBorder + 1) ∧
      g.info.mapX + scrollXDim < (2 * g.info.mazeXDim + 1) * blockDim - showMin then do
    let mapX := g.info.mapX + 1
    let g ← drawVertLineChecked blocks { g with
      screen := g.screen.setViewWindow mapX g.info.mapY
      info := { g.info with mapX := mapX } } (scrollXDim - 1)
    return (g, xpos + 1)
  else return (g, xpos + 1)

/-- `move_down` with checks -/
def moveDownChecked (g : Game) (ypos : ℤ) : Except Stop (Game × ℤ) :=
  if ypos + 1 > g.info.mapY + scrollYDim - blockDim * (panBorder + 1) ∧
      g.info.mapY + scrollYDim < (2 * g.info.mazeYDim + 1) * blockDim - showMin then do
    let mapY := g.info.mapY + 1
    let g ← drawHorizLineChecked blocks { g with
      screen := g.screen.setViewWindow g.info.mapX mapY
      info := { g.info with mapY := mapY } } (scrollYDim - 1)
    return (g, ypos + 1)
  else return (g, ypos + 1)

/-- `move_left` with checks -/
def moveLeftChecked (g : Game) (xpos : ℤ) : Except Stop (Game × ℤ) :=
  if xpos - 1 < g.info.mapX + blockDim * panBorder ∧ g.info.mapX > showMin then do
    let mapX := g.info.mapX - 1
    let g ← drawVertLineChecked blocks { g with
      screen := g.screen.setViewWindow mapX g.info.mapY
      info := { g.info with mapX := mapX } } 0
    return (g, xpos - 1)
  else return (g, xpos - 1)

/-- `movePlayer` with checks -/
def movePlayerChecked (g : Game) (dir : Dir) (xAfter yAfter : ℤ) : Except Stop (Game × ℤ × ℤ) :=
  match dir with
  | .up => do
    let (g, yAfter) ← g.moveUpChecked blocks yAfter
    return (g, xAfter, yAfter)
  | .right => do
    let (g, xAfter) ← g.moveRightChecked blocks xAfter
    return (g, xAfter, yAfter)
  | .down => do
    let (g, yAfter) ← g.moveDownChecked blocks yAfter
    return (g, xAfter, yAfter)
  | .left => do
    let (g, xAfter) ← g.moveLeftChecked blocks xAfter
    return (g, xAfter, yAfter)
  | .stop => return (g, xAfter, yAfter)

/-- `drawPoint` with checks -/
def drawPointChecked (g : Game) (x y : ℤ) : Except Stop Game := do
  let number ← g.maze.findBlockChecked x y
  return { g with
    screen := g.screen.drawFullBlock (x * blockDim) (y * blockDim) (blocks number) }

/-- `unveil_space` with checks -/
def unveilSpaceChecked (g : Game) (x y : ℤ) : Except Stop Game :=
  if x < 0 ∨ x > 2 * g.maze.xDim ∨ y < 0 ∨ y > 2 * g.maze.yDim then return g
  else do
    let value ← g.maze.loadCell x y
    if Maze.hasBit value mazeReach then return g
    else
      let maze ← g.maze.modifyCell x y (· ||| mazeReach)
      drawPointChecked blocks { g with maze := maze } x y

/-- `check_for_fruit` with checks -/
def checkForFruitChecked (g : Game) (x y : ℤ) : Except Stop (Game × ℕ) :=
  if x < 0 ∨ x ≥ 2 * g.maze.xDim ∨ y < 0 ∨ y ≥ 2 * g.maze.yDim then return (g, 0)
  else do
    let fnum := Maze.fruitNumber (← g.maze.loadCell x y)
    if fnum ≠ 0 then
      let maze ← g.maze.modifyCell x y (· &&& ~~~mazeFruit)
      let g := { g with maze := { maze with nFruits := maze.nFruits - 1 } }
      let g ← if g.maze.nFruits = 0 then g.drawPointChecked blocks g.maze.exitX g.maze.exitY
        else pure g
      return (← g.drawPointChecked blocks x y, fnum)
    else return (g, fnum)

/-- `unveil_around_player` with checks -/
def unveilAroundPlayerChecked (g : Game) (xAfter yAfter : ℤ) : Except Stop (Game × Bool) := do
  let x := xAfter.tdiv blockDim
  let y := yAfter.tdiv blockDim
  let (g, _) ← g.checkForFruitChecked blocks x y
  let around := [(-1, -1), (-1, 0), (-1, 1), (0, -1), (0, 0), (0, 1), (1, -1), (1, 0), (1, 1),
    (0, -2), (2, 0), (0, 2), (-2, 0)]
  let g ← around.foldlM (fun g (i, j) ↦ g.unveilSpaceChecked blocks (x + i) (y + j)) g
  return (g, ← g.maze.checkForWinChecked x y)

end Blocks

end Game

namespace Thread

/-- `chooseDir` with checks -/
def chooseDirChecked (t : Thread) (behind : Bool) : Except Stop Thread := do
  let op ← t.game.maze.findOpenDirectionsChecked (t.xAfter.tdiv blockDim) (t.yAfter.tdiv blockDim)
    behind
  let dir := if op t.nextDir then t.nextDir else t.dir
  if dir ≠ .stop then
    if !op dir then return { t with dir := .stop }
    else return { t with dir := dir, moveCnt := blockDim }
  else return { t with dir := dir }

section Blocks

variable (blocks : ℕ → Image)

/-- `move` with checks -/
def moveChecked (t : Thread) : Except Stop Thread :=
  if t.dir ≠ .stop then do
    let (game, xAfter, yAfter) ← t.game.movePlayerChecked blocks t.dir t.xAfter t.yAfter
    return { t with
      game := game
      xAfter := xAfter
      yAfter := yAfter
      lastDir := t.dir
      moveCnt := t.moveCnt - 1
      needRedraw := true }
  else return t

/-- `tick` with checks -/
def tickChecked (t : Thread) (behind : Bool) : Except Stop Thread :=
  if t.gotoNextLevel then return t
  else
    let t := t.turnBack
    if t.moveCnt = 0 then do
      let (game, won) ← t.game.unveilAroundPlayerChecked blocks t.xAfter t.yAfter
      let t := { t with game := game }
      if won then return { t with gotoNextLevel := true }
      else
        let t ← t.chooseDirChecked behind
        t.moveChecked blocks
    else t.moveChecked blocks

/-- `startLevel` with checks -/
def startLevelChecked (t : Thread) : Except Stop Thread := do
  let (game, _) ← t.game.unveilAroundPlayerChecked blocks blockDim blockDim
  return redraw blocks
    { t with
      game := game
      xAfter := blockDim
      yAfter := blockDim
      moveCnt := 0
      lastDir := .up
      dir := .stop
      nextDir := .stop
      gotoNextLevel := false }

/-- The step of the thread with checks. Only the ticks access the maze. -/
def stepChecked (t : Thread) : Event → Except Stop Thread
  | .tick behind => t.tickChecked blocks behind
  | .turn dir => return { t with nextDir := dir }
  | .redraw => return t.redraw blocks

end Blocks

end Thread

/-! ### The stencil -/

namespace Maze

variable {m : Maze} {x y : ℤ}

/-- The lattice points of the maze and of its boundaries. -/
def OnMaze (m : Maze) (x y : ℤ) : Prop := (0 ≤ x ∧ x ≤ 2 * m.xDim) ∧ 0 ≤ y ∧ y ≤ 2 * m.yDim

theorem Inside.onMaze (hin : m.Inside x y) : m.OnMaze x y := by
  obtain ⟨hx0, hx1, hy0, hy1⟩ := hin
  exact ⟨⟨hx0.le, hx1.le⟩, hy0.le, hy1.le⟩

theorem OnMaze.inArray (hon : m.OnMaze x y) (h : Accepted m.xDim m.yDim) :
    InArray (m.index x y) := by
  obtain ⟨hx, hy⟩ := hon
  exact inArray_of_column h hx (by omega)

theorem wallChecked_of (h : InArray (m.index x y)) : m.wallChecked x y = .ok (m.wall x y) := by
  rw [wallChecked, loadCell_of h]
  rfl

/-- The four neighbours of a lattice point of the maze are in the array. -/
theorem OnMaze.stencil (hon : m.OnMaze x y) (h : Accepted m.xDim m.yDim) :
    (m.wallChecked x (y - 1) = .ok (m.wall x (y - 1)) ∧
      m.wallChecked (x + 1) y = .ok (m.wall (x + 1) y)) ∧
      m.wallChecked x (y + 1) = .ok (m.wall x (y + 1)) ∧
      m.wallChecked (x - 1) y = .ok (m.wall (x - 1) y) := by
  obtain ⟨hx, hy⟩ := hon
  refine ⟨⟨?_, ?_⟩, ?_, ?_⟩
  · exact wallChecked_of (inArray_of_column h hx (by omega))
  · exact wallChecked_of (inArray_of_row h (by omega) hy)
  · exact wallChecked_of (inArray_of_column h hx (by omega))
  · exact wallChecked_of (inArray_of_row h (by omega) hy)

theorem findBlockChecked_eq (h : Accepted m.xDim m.yDim) (hon : m.OnMaze x y) :
    m.findBlockChecked x y = .ok (m.findBlock x y) := by
  obtain ⟨⟨hup, hright⟩, hdown, hleft⟩ := hon.stencil h
  have hwall : m.wall x y = hasBit (m.cell x y) mazeWall := rfl
  rw [findBlockChecked, findBlock, loadCell_of (hon.inArray h), hup, hright, hdown, hleft, hwall]
  simp only [ok_bind]
  split_ifs <;> rfl

theorem findOpenDirectionsChecked_eq (h : Accepted m.xDim m.yDim) (hon : m.OnMaze x y)
    (behind : Bool) :
    m.findOpenDirectionsChecked x y behind = .ok (m.findOpenDirections x y behind) := by
  obtain ⟨⟨hup, hright⟩, hdown, hleft⟩ := hon.stencil h
  rw [findOpenDirectionsChecked, hup, hright, hdown, hleft]
  refine congrArg Except.ok (funext fun dir ↦ ?_)
  cases dir <;> rfl

theorem checkForWinChecked_eq (h : Accepted m.xDim m.yDim) (x y : ℤ) :
    m.checkForWinChecked x y = .ok (m.checkForWin x y) := by
  unfold checkForWinChecked checkForWin
  split_ifs with hout hdone
  · rfl
  · have hon : m.OnMaze x y := ⟨by omega, by omega⟩
    rw [loadCell_of (hon.inArray h), decide_eq_true hdone, Bool.true_and]
    rfl
  · rw [decide_eq_false hdone, Bool.false_and]
    rfl

/-! ### Lines of the window -/

/-- The loop looks at the blocks that the rest of the line touches. -/
theorem fillLoopChecked_eq {dim : ℕ} {block : ℤ → Except Stop (ℕ → UInt8)}
    {pixel : ℤ → ℕ → UInt8} {buf : ℕ → UInt8} {idx sub : ℕ} {map : ℤ} (rounds : ℕ) (hsub : sub < 12)
    (hblock : ∀ b, map ≤ b → 12 * (b - map) + idx < sub + dim → block b = .ok (pixel b)) :
    fillLoopChecked dim block buf idx map sub rounds =
      .ok (fillLoop dim pixel buf idx map sub rounds) := by
  induction rounds generalizing buf idx map sub with
  | zero => rfl
  | succ rounds ih =>
    rw [fillLoopChecked, fillLoop]
    by_cases hmore : idx < dim
    · rw [if_pos hmore, if_pos hmore, hblock map le_rfl (by omega), ok_bind]
      exact ih (by decide) fun b hle htouched ↦ hblock b (by omega) (by omega)
    · rw [if_neg hmore, if_neg hmore]
      rfl

/-- Where the view window can be: at most up to the last of the hidden pixels at the ends of the
maze. -/
structure Visible (m : Maze) (mapX mapY : ℤ) : Prop where
  columns : showMin ≤ mapX ∧ mapX + scrollXDim ≤ (2 * m.xDim + 1) * blockDim - showMin
  rows : showMin ≤ mapY ∧ mapY + scrollYDim ≤ (2 * m.yDim + 1) * blockDim - showMin

/-- The lattice points that a pixel of the window touches are on the maze. -/
theorem Visible.onMaze {mapX mapY : ℤ} (h : m.Visible mapX mapY)
    (hx : mapX ≤ x ∧ x < mapX + scrollXDim) (hy : mapY ≤ y ∧ y < mapY + scrollYDim) :
    m.OnMaze (x / blockDim) (y / blockDim) := by
  have hconst : showMin = 6 ∧ blockDim = 12 := ⟨rfl, rfl⟩
  obtain ⟨hcolumns, hrows⟩ := h
  rw [hconst.1, hconst.2] at hcolumns hrows
  rw [OnMaze, hconst.2]
  omega

theorem fillHorizBufferChecked_eq (blocks : ℕ → Image) (h : Accepted m.xDim m.yDim)
    {mapX mapY : ℤ} (hvisible : m.Visible mapX mapY) {y : ℤ}
    (hy : mapY ≤ y ∧ y < mapY + scrollYDim) (buf : ℕ → UInt8) :
    m.fillHorizBufferChecked blocks mapX y buf = .ok (m.fillHorizBuffer blocks mapX y buf) := by
  have hconst : showMin = 6 ∧ blockDim = 12 ∧ scrollXDim.toNat = 320 := ⟨rfl, rfl, rfl⟩
  obtain ⟨hcolumns, hrows⟩ := hvisible
  rw [hconst.1, hconst.2.1] at hcolumns hrows
  simp only [fillHorizBufferChecked, fillHorizBuffer, hconst,
    Int.tdiv_eq_ediv_of_nonneg (show 0 ≤ mapX by omega),
    Int.tdiv_eq_ediv_of_nonneg (show 0 ≤ y by omega)]
  refine fillLoopChecked_eq 320 (by omega) fun b hle htouched ↦ ?_
  have hdim : scrollXDim = 320 ∧ scrollYDim = 182 := ⟨rfl, rfl⟩
  have hon : m.OnMaze b (y / 12) := by
    rw [OnMaze]
    omega
  rw [findBlockChecked_eq h hon]
  rfl

theorem fillVertBufferChecked_eq (blocks : ℕ → Image) (h : Accepted m.xDim m.yDim)
    {mapX mapY : ℤ} (hvisible : m.Visible mapX mapY) {x : ℤ}
    (hx : mapX ≤ x ∧ x ≤ mapX + scrollXDim) (buf : ℕ → UInt8) :
    m.fillVertBufferChecked blocks x mapY buf = .ok (m.fillVertBuffer blocks x mapY buf) := by
  have hconst : showMin = 6 ∧ blockDim = 12 ∧ scrollYDim.toNat = 182 := ⟨rfl, rfl, rfl⟩
  obtain ⟨hcolumns, hrows⟩ := hvisible
  rw [hconst.1, hconst.2.1] at hcolumns hrows
  simp only [fillVertBufferChecked, fillVertBuffer, hconst,
    Int.tdiv_eq_ediv_of_nonneg (show 0 ≤ mapY by omega),
    Int.tdiv_eq_ediv_of_nonneg (show 0 ≤ x by omega)]
  refine fillLoopChecked_eq 182 (by omega) fun b hle htouched ↦ ?_
  have hdim : scrollXDim = 320 ∧ scrollYDim = 182 := ⟨rfl, rfl⟩
  have hon : m.OnMaze (x / 12) b := by
    rw [OnMaze]
    omega
  rw [findBlockChecked_eq h hon]
  rfl

end Maze

namespace Game

variable {blocks : ℕ → Image} {g : Game} {xAfter yAfter : ℤ}

/-- The view window of the game is where it can be. -/
def ViewVisible (g : Game) : Prop := g.maze.Visible g.screen.showX g.screen.showY

theorem drawHorizLineChecked_eq (h : Maze.Accepted g.maze.xDim g.maze.yDim)
    (hvisible : g.ViewVisible) (y : ℤ) :
    g.drawHorizLineChecked blocks y = .ok (g.drawHorizLine blocks y) := by
  unfold drawHorizLineChecked drawHorizLine Screen.drawHorizLine
  split_ifs with hout
  · rfl
  · rw [Maze.fillHorizBufferChecked_eq blocks h hvisible ⟨by omega, by omega⟩]
    rfl

/-- The test of `draw_vert_line` lets the column behind the window pass, which is still on the
maze. -/
theorem drawVertLineChecked_eq (h : Maze.Accepted g.maze.xDim g.maze.yDim)
    (hvisible : g.ViewVisible) (x : ℤ) :
    g.drawVertLineChecked blocks x = .ok (g.drawVertLine blocks x) := by
  unfold drawVertLineChecked drawVertLine Screen.drawVertLine
  split_ifs with hout
  · rfl
  · rw [Maze.fillVertBufferChecked_eq blocks h hvisible ⟨by omega, by omega⟩]
    rfl

theorem drawLinesChecked_eq (h : Maze.Accepted g.maze.xDim g.maze.yDim)
    (hvisible : g.ViewVisible) (n : ℕ) :
    g.drawLinesChecked blocks n = .ok (g.drawLines blocks n) := by
  induction n with
  | zero => rfl
  | succ n ih =>
    have hwindow := drawLines_sameWindow blocks g n
    rw [drawLinesChecked, ih, ok_bind, drawHorizLineChecked_eq]
    · rfl
    · rwa [drawLines_maze]
    · rwa [ViewVisible, drawLines_maze, hwindow.showX, hwindow.showY]

/-! ### Moves -/

theorem InWindow.visible_map (h : g.InWindow xAfter yAfter) :
    g.maze.Visible g.info.mapX g.info.mapY := by
  have hconst : showMin = 6 ∧ blockDim = 12 ∧ scrollXDim = 320 ∧ scrollYDim = 182 := by decide
  have hcolumns := h.columns.onMaze
  have hrows := h.rows.onMaze
  constructor
  · rw [hconst.1, hconst.2.1, hconst.2.2.1]
    omega
  · rw [hconst.1, hconst.2.1, hconst.2.2.2]
    omega

section Panning

variable {mapX mapY : ℤ} (info : GameInfo)

theorem panHorizChecked_eq (h : Maze.Accepted g.maze.xDim g.maze.yDim)
    (hvisible : g.maze.Visible mapX mapY) (row : ℤ) :
    drawHorizLineChecked blocks
        { g with screen := g.screen.setViewWindow mapX mapY, info := info } row =
      .ok (drawHorizLine blocks
        { g with screen := g.screen.setViewWindow mapX mapY, info := info } row) := by
  refine drawHorizLineChecked_eq (by exact h) ?_ row
  rw [ViewVisible, Screen.setViewWindow_showX, Screen.setViewWindow_showY]
  exact hvisible

theorem panVertChecked_eq (h : Maze.Accepted g.maze.xDim g.maze.yDim)
    (hvisible : g.maze.Visible mapX mapY) (col : ℤ) :
    drawVertLineChecked blocks
        { g with screen := g.screen.setViewWindow mapX mapY, info := info } col =
      .ok (drawVertLine blocks
        { g with screen := g.screen.setViewWindow mapX mapY, info := info } col) := by
  refine drawVertLineChecked_eq (by exact h) ?_ col
  rw [ViewVisible, Screen.setViewWindow_showX, Screen.setViewWindow_showY]
  exact hvisible

end Panning

/-- The window pans by one pixel unless it is at the end of the maze, so that it stays visible. -/
theorem movePlayerChecked_eq (h : Maze.Accepted g.maze.xDim g.maze.yDim)
    (hwindow : g.InWindow xAfter yAfter) (dir : Dir) (x y : ℤ) :
    g.movePlayerChecked blocks dir x y = .ok (g.movePlayer blocks dir x y) := by
  obtain ⟨hcolumns, hrows⟩ := hwindow.visible_map
  have hxDim := hwindow.xDim
  have hyDim := hwindow.yDim
  cases dir with
  | up =>
    simp only [movePlayerChecked, movePlayer, moveUpChecked, moveUp]
    split_ifs with hpan
    · rw [panHorizChecked_eq _ h ⟨hcolumns, by omega, by omega⟩]
      rfl
    · rfl
  | right =>
    simp only [movePlayerChecked, movePlayer, moveRightChecked, moveRight, hxDim]
    split_ifs with hpan
    · rw [panVertChecked_eq _ h ⟨⟨by omega, by omega⟩, hrows⟩]
      rfl
    · rfl
  | down =>
    simp only [movePlayerChecked, movePlayer, moveDownChecked, moveDown, hyDim]
    split_ifs with hpan
    · rw [panHorizChecked_eq _ h ⟨hcolumns, by omega, by omega⟩]
      rfl
    · rfl
  | left =>
    simp only [movePlayerChecked, movePlayer, moveLeftChecked, moveLeft]
    split_ifs with hpan
    · rw [panVertChecked_eq _ h ⟨⟨by omega, by omega⟩, hrows⟩]
      rfl
    · rfl
  | stop => rfl

/-! ### Unveiling and eating -/

theorem drawPointChecked_eq (h : Maze.Accepted g.maze.xDim g.maze.yDim) {x y : ℤ}
    (hon : g.maze.OnMaze x y) : g.drawPointChecked blocks x y = .ok (g.drawPoint blocks x y) := by
  rw [drawPointChecked, Maze.findBlockChecked_eq h hon]
  rfl

/-- The test of `unveil_space` keeps it on the maze. -/
theorem unveilSpaceChecked_eq (h : Maze.Accepted g.maze.xDim g.maze.yDim) (x y : ℤ) :
    g.unveilSpaceChecked blocks x y = .ok (g.unveilSpace blocks x y) := by
  unfold unveilSpaceChecked unveilSpace
  by_cases hout : x < 0 ∨ x > 2 * g.maze.xDim ∨ y < 0 ∨ y > 2 * g.maze.yDim
  · rw [if_pos hout, if_pos hout]
    rfl
  · have hon : g.maze.OnMaze x y := ⟨by omega, by omega⟩
    rw [if_neg hout, if_neg hout, Maze.loadCell_of (hon.inArray h), ok_bind]
    split_ifs with hreach
    · rfl
    · rw [Maze.modifyCell_of (hon.inArray h), ok_bind]
      exact drawPointChecked_eq (by exact h) (by exact hon)

/-- The test of `check_for_fruit` keeps it on the maze, and the exit, which it may draw, is there
too. -/
theorem checkForFruitChecked_eq (h : Maze.Accepted g.maze.xDim g.maze.yDim)
    (hexit : g.maze.OnMaze g.maze.exitX g.maze.exitY) (x y : ℤ) :
    g.checkForFruitChecked blocks x y = .ok (g.checkForFruit blocks x y) := by
  unfold checkForFruitChecked checkForFruit
  by_cases hout : x < 0 ∨ x ≥ 2 * g.maze.xDim ∨ y < 0 ∨ y ≥ 2 * g.maze.yDim
  · rw [if_pos hout, if_pos hout]
    rfl
  · have hon : g.maze.OnMaze x y := ⟨by omega, by omega⟩
    rw [if_neg hout, if_neg hout, Maze.loadCell_of (hon.inArray h), ok_bind]
    by_cases hfruit : Maze.fruitNumber (g.maze.cell x y) ≠ 0
    · simp only [if_pos hfruit, Maze.modifyCell_of (hon.inArray h), ok_bind]
      split_ifs with hlast
      · rw [drawPointChecked_eq (by exact h) (by exact hexit), ok_bind,
          drawPointChecked_eq (by exact h) (by exact hon)]
        rfl
      · change drawPointChecked blocks _ x y >>= _ = _
        rw [drawPointChecked_eq (by exact h) (by exact hon)]
        rfl
    · rw [if_neg hfruit, if_neg hfruit]
      rfl

theorem unveilAroundPlayerChecked_eq (h : Maze.Accepted g.maze.xDim g.maze.yDim)
    (hexit : g.maze.OnMaze g.maze.exitX g.maze.exitY) (xAfter yAfter : ℤ) :
    g.unveilAroundPlayerChecked blocks xAfter yAfter =
      .ok (g.unveilAroundPlayer blocks xAfter yAfter) := by
  have hsize : ∀ {g' : Game}, g.KeepsMaze g' → Maze.Accepted g'.maze.xDim g'.maze.yDim := by
    intro g' hkeep
    rw [hkeep.xDim, hkeep.yDim]
    exact h
  have hfruit : g.KeepsMaze
      (g.checkForFruit blocks (xAfter.tdiv blockDim) (yAfter.tdiv blockDim)).1 :=
    checkForFruit_keepsMaze g _ _
  rw [unveilAroundPlayerChecked]
  simp only [checkForFruitChecked_eq h hexit, ok_bind]
  rw [foldlM_eq_ok (fun g' ↦ g.KeepsMaze g')
    (fun g' point _ hkeep ↦ hkeep.trans (unveilSpace_keepsMaze g' _ _))
    (fun g' point _ hkeep ↦ unveilSpaceChecked_eq (hsize hkeep) _ _) hfruit, ok_bind]
  have hkeep := unveilAroundPlayer_keepsMaze blocks g xAfter yAfter
  rw [Maze.checkForWinChecked_eq (by exact hsize hkeep)]
  rfl

end Game

/-! ### The thread -/

namespace Thread

variable (blocks : ℕ → Image) {t : Thread}

theorem chooseDirChecked_eq (h : Maze.Accepted t.game.maze.xDim t.game.maze.yDim)
    (hsquare : t.game.maze.OpenSquare t.xAfter t.yAfter) (behind : Bool) :
    t.chooseDirChecked behind = .ok (t.chooseDir behind) := by
  have hin := hsquare.inside
  obtain ⟨hx, hy⟩ := hsquare.tdiv_eq
  simp only [chooseDirChecked, chooseDir, hx, hy]
  rw [Maze.findOpenDirectionsChecked_eq h hin.onMaze, ok_bind]
  split_ifs <;> rfl

theorem moveChecked_eq (h : Maze.Accepted t.game.maze.xDim t.game.maze.yDim)
    (hwindow : t.game.InWindow t.xAfter t.yAfter) : t.moveChecked blocks = .ok (t.move blocks) := by
  unfold moveChecked move
  split_ifs with hmoves
  · rw [Game.movePlayerChecked_eq h hwindow]
    rfl
  · rfl

/-- A tick in a square unveils around the player, looks for open directions and moves. -/
theorem tickChecked_eq (h : Maze.Accepted t.game.maze.xDim t.game.maze.yDim)
    (hdrawn : t.Drawn blocks) (behind : Bool) :
    t.tickChecked blocks behind = .ok (t.tick blocks behind) := by
  unfold tickChecked tick
  by_cases hnext : t.gotoNextLevel = true
  · rw [if_pos hnext, if_pos hnext]
    rfl
  rw [if_neg hnext, if_neg hnext]
  obtain ⟨hgame, hx, hy⟩ := turnBack_game t
  have hmotion := turnBack_motion hdrawn.safe.motion
  have hsound := hdrawn.safe.sound
  have hwindow := hdrawn.window
  have hshows := hdrawn.shows
  rw [← hgame] at h hsound hwindow hshows
  rw [← hx, ← hy] at hwindow
  generalize t.turnBack = s at *
  dsimp only
  by_cases hcnt : s.moveCnt = 0
  · have hunveiled := unveil_safe blocks ⟨hsound, hmotion⟩ hcnt s.xAfter s.yAfter
    have hwindow' := (Game.unveilAroundPlayer_shows hwindow hsound hshows).1
    have hkeep := Game.unveilAroundPlayer_keepsMaze blocks s.game s.xAfter s.yAfter
    have hsize : Maze.Accepted (s.game.unveilAroundPlayer blocks s.xAfter s.yAfter).1.maze.xDim
        (s.game.unveilAroundPlayer blocks s.xAfter s.yAfter).1.maze.yDim := by
      rw [hkeep.xDim, hkeep.yDim]
      exact h
    rw [if_pos hcnt, if_pos hcnt,
      Game.unveilAroundPlayerChecked_eq h hsound.exit_inside.onMaze, ok_bind]
    split_ifs
    · rfl
    · obtain ⟨hgame', hx', hy'⟩ := chooseDir_game
        { s with game := (s.game.unveilAroundPlayer blocks s.xAfter s.yAfter).1 } behind
      rw [chooseDirChecked_eq (by exact hsize) (hunveiled.motion.square hcnt), ok_bind]
      refine moveChecked_eq blocks ?_ ?_
      · rw [hgame']
        exact hsize
      · rw [hgame', hx', hy']
        exact hwindow'
  · rw [if_neg hcnt, if_neg hcnt]
    exact moveChecked_eq blocks h hwindow

/-! ### Runs -/

theorem move_maze (t : Thread) : (t.move blocks).game.maze = t.game.maze := by
  unfold move
  split_ifs
  · exact (Game.movePlayer_spec blocks t.game t.dir t.xAfter t.yAfter).1
  · rfl

theorem startLevelChecked_eq (h : Maze.Accepted t.game.maze.xDim t.game.maze.yDim)
    (hsound : t.game.maze.Sound) : t.startLevelChecked blocks = .ok (t.startLevel blocks) := by
  rw [startLevelChecked, Game.unveilAroundPlayerChecked_eq h hsound.exit_inside.onMaze, ok_bind,
    startLevel]
  generalize (t.game.unveilAroundPlayer blocks blockDim blockDim) = result
  rfl

theorem startLevel_keepsMaze (t : Thread) : t.game.KeepsMaze (t.startLevel blocks).game := by
  have hkeep := Game.unveilAroundPlayer_keepsMaze blocks t.game blockDim blockDim
  unfold startLevel
  generalize (t.game.unveilAroundPlayer blocks blockDim blockDim).1 = g at hkeep ⊢
  exact hkeep.trans (Game.KeepsMaze.of_maze_eq rfl)

/-- The steps of the thread leave the size of the maze. -/
theorem step_keepsMaze (t : Thread) (event : Event) :
    t.game.KeepsMaze (t.step blocks event).game := by
  cases event with
  | turn dir => exact Game.KeepsMaze.refl t.game
  | redraw => exact Game.KeepsMaze.of_maze_eq rfl
  | tick behind =>
    obtain ⟨hgame, -, -⟩ := turnBack_game t
    simp only [step, tick]
    split_ifs
    · exact Game.KeepsMaze.refl t.game
    · rw [← hgame]
      exact Game.unveilAroundPlayer_keepsMaze blocks _ _ _
    · rw [← hgame]
      refine (Game.unveilAroundPlayer_keepsMaze blocks t.turnBack.game t.turnBack.xAfter
        t.turnBack.yAfter).trans (Game.KeepsMaze.of_maze_eq ?_)
      rw [move_maze, (chooseDir_game _ behind).1]
    · rw [← hgame]
      exact Game.KeepsMaze.of_maze_eq (move_maze blocks _)

/-- In a state of the game all accesses of the maze are inside: those of its next step, and those of
any call of the functions that are called on the maze. For `find_block` these are the lattice points
that a window touches, wherever it can be. -/
structure AccessesInside (t : Thread) : Prop where
  step : ∀ event, t.stepChecked blocks event = .ok (t.step blocks event)
  findBlock : ∀ mapX mapY, t.game.maze.Visible mapX mapY → ∀ x y,
    mapX ≤ x ∧ x < mapX + scrollXDim → mapY ≤ y ∧ y < mapY + scrollYDim →
      t.game.maze.findBlockChecked (x / blockDim) (y / blockDim) =
        .ok (t.game.maze.findBlock (x / blockDim) (y / blockDim))
  horizLine : ∀ mapX mapY, t.game.maze.Visible mapX mapY → ∀ y buf,
    mapY ≤ y ∧ y < mapY + scrollYDim → t.game.maze.fillHorizBufferChecked blocks mapX y buf =
      .ok (t.game.maze.fillHorizBuffer blocks mapX y buf)
  vertLine : ∀ mapX mapY, t.game.maze.Visible mapX mapY → ∀ x buf,
    mapX ≤ x ∧ x < mapX + scrollXDim → t.game.maze.fillVertBufferChecked blocks x mapY buf =
      .ok (t.game.maze.fillVertBuffer blocks x mapY buf)
  unveilSpace : ∀ x y, t.game.unveilSpaceChecked blocks x y = .ok (t.game.unveilSpace blocks x y)
  checkForFruit : ∀ x y,
    t.game.checkForFruitChecked blocks x y = .ok (t.game.checkForFruit blocks x y)
  checkForWin : ∀ x y, t.game.maze.checkForWinChecked x y = .ok (t.game.maze.checkForWin x y)
  findOpenDirections : ∀ x y behind, t.game.maze.Inside x y →
    t.game.maze.findOpenDirectionsChecked x y behind =
      .ok (t.game.maze.findOpenDirections x y behind)

theorem stepChecked_eq (h : Maze.Accepted t.game.maze.xDim t.game.maze.yDim)
    (hdrawn : t.Drawn blocks) (event : Event) :
    t.stepChecked blocks event = .ok (t.step blocks event) := by
  cases event with
  | tick behind => exact tickChecked_eq blocks h hdrawn behind
  | turn dir => rfl
  | redraw => rfl

theorem accessesInside_of_drawn (h : Maze.Accepted t.game.maze.xDim t.game.maze.yDim)
    (hdrawn : t.Drawn blocks) : t.AccessesInside blocks where
  step := stepChecked_eq blocks h hdrawn
  findBlock _ _ hvisible _ _ hx hy := Maze.findBlockChecked_eq h (hvisible.onMaze hx hy)
  horizLine _ _ hvisible _ buf hy := Maze.fillHorizBufferChecked_eq blocks h hvisible hy buf
  vertLine _ _ hvisible _ buf hx :=
    Maze.fillVertBufferChecked_eq blocks h hvisible ⟨hx.1, hx.2.le⟩ buf
  unveilSpace := Game.unveilSpaceChecked_eq h
  checkForFruit := Game.checkForFruitChecked_eq h hdrawn.safe.sound.exit_inside.onMaze
  checkForWin := Maze.checkForWinChecked_eq h
  findOpenDirections _ _ behind hin := Maze.findOpenDirectionsChecked_eq h hin.onMaze behind

section Level

/-- A level in a maze from its start on: the initial screen, and the player at (1,1). -/
def beginLevel (t : Thread) (maze : Maze) : Thread :=
  startLevel blocks { t with game := (t.game.enter maze).drawLines blocks scrollYDim.toNat }

/-- `beginLevel` with checks -/
def beginLevelChecked (t : Thread) (maze : Maze) : Except Stop Thread := do
  let game ← (t.game.enter maze).drawLinesChecked blocks scrollYDim.toNat
  startLevelChecked blocks { t with game := game }

variable {maze : Maze}

theorem beginLevel_drawn (t : Thread) (hsound : maze.Sound) :
    (t.beginLevel blocks maze).Drawn blocks := by
  obtain ⟨hwindow, hshows⟩ := Game.enter_shows blocks t.game hsound
  have hsound' : ((t.game.enter maze).drawLines blocks scrollYDim.toNat).maze.Sound := by
    rw [Game.drawLines_maze]
    exact hsound
  exact startLevel_drawn blocks hsound' hwindow hshows

theorem beginLevelChecked_eq (t : Thread) (h : Maze.Accepted maze.xDim maze.yDim)
    (hsound : maze.Sound) :
    t.beginLevelChecked blocks maze = .ok (t.beginLevel blocks maze) := by
  have hvisible : (t.game.enter maze).ViewVisible := by
    obtain ⟨hwide, hhigh⟩ := h.bounds
    have hconst : showMin = 6 ∧ blockDim = 12 ∧ scrollXDim = 320 ∧ scrollYDim = 182 := by decide
    have hx : (t.game.enter maze).screen.showX = 6 := Screen.setViewWindow_showX _ _ _
    have hy : (t.game.enter maze).screen.showY = 6 := Screen.setViewWindow_showY _ _ _
    have hmaze : (t.game.enter maze).maze = maze := rfl
    rw [Game.ViewVisible, hx, hy, hmaze]
    constructor
    · simp only [hconst]
      omega
    · simp only [hconst]
      omega
  rw [beginLevelChecked, Game.drawLinesChecked_eq (by exact h) hvisible, ok_bind]
  refine startLevelChecked_eq blocks ?_ ?_
  · rwa [Game.drawLines_maze]
  · rw [Game.drawLines_maze]
    exact hsound

theorem beginLevel_size (t : Thread) (maze : Maze) :
    (t.beginLevel blocks maze).game.maze.xDim = maze.xDim ∧
      (t.beginLevel blocks maze).game.maze.yDim = maze.yDim := by
  have hkeep := startLevel_keepsMaze blocks
    { t with game := (t.game.enter maze).drawLines blocks scrollYDim.toNat }
  refine ⟨hkeep.xDim.trans ?_, hkeep.yDim.trans ?_⟩
  · rw [Game.drawLines_maze]
    rfl
  · rw [Game.drawLines_maze]
    rfl

end Level

/-- For every size and all draws, `make_maze` makes no access outside of the array and never queues
more than its queue can hold. In a maze that it returns, neither does the start of the level make
one, nor anything that the thread does after it. -/
theorem everyState_accesses (m : Maze) (xDim yDim startFruits : ℤ) (fuel : ℕ) (tape : Tape)
    (t : Thread) (events : List Event) :
    m.makeMazeChecked xDim yDim startFruits fuel tape =
        ofOption (m.makeMaze xDim yDim startFruits fuel tape) ∧
      ∀ m', m.makeMaze xDim yDim startFruits fuel tape = some (0, m') →
        t.beginLevelChecked blocks m' = .ok (t.beginLevel blocks m') ∧
          EveryState (step blocks) (AccessesInside blocks) (t.beginLevel blocks m') events := by
  refine ⟨m.makeMazeChecked_eq xDim yDim startFruits fuel tape, fun m' hmaze ↦ ?_⟩
  obtain ⟨hsound, hxDim, hyDim⟩ := Maze.makeMaze_sound hmaze
  have hsize : Maze.Accepted m'.xDim m'.yDim := by
    rw [hxDim, hyDim]
    exact Maze.accepted_of_makeMaze hmaze
  refine ⟨beginLevelChecked_eq blocks t hsize hsound, ?_⟩
  obtain ⟨hwide, hhigh⟩ := beginLevel_size blocks t m'
  have hstart : Maze.Accepted (t.beginLevel blocks m').game.maze.xDim
      (t.beginLevel blocks m').game.maze.yDim := by
    rw [hwide, hhigh]
    exact hsize
  have hrun : EveryState (step blocks) (fun t : Thread ↦
      Maze.Accepted t.game.maze.xDim t.game.maze.yDim ∧ t.Drawn blocks)
      (t.beginLevel blocks m') events := by
    refine everyState_of_invariant (fun s event hs ↦ ?_)
      ⟨hstart, beginLevel_drawn blocks t hsound⟩ events
    have hkeep := step_keepsMaze blocks s event
    rw [hkeep.xDim, hkeep.yDim]
    exact ⟨hs.1, step_drawn blocks s event hs.2⟩
  exact hrun.mono fun s hs ↦ accessesInside_of_drawn blocks hs.1 hs.2

/-- The maze of a single worm, and a run in it in which the player turns back on its way. -/
theorem everyState_accesses_wormTape : ∃ m,
    Maze.unmade.makeMaze 14 8 1 300 Maze.wormTape = some (0, m) ∧
      EveryState (step fun _ _ ↦ 0) (AccessesInside fun _ _ ↦ 0)
        (initial.beginLevel (fun _ _ ↦ 0) m)
        [.turn .right, .tick false, .tick false, .turn .left, .tick true, .redraw] := by
  obtain ⟨m, hmaze⟩ := Maze.makeMaze_wormTape
  exact ⟨m, hmaze, ((everyState_accesses (fun _ _ ↦ 0) Maze.unmade 14 8 1 300 Maze.wormTape
    initial _).2 m hmaze).2⟩

end Thread

end Sp18.MazeGame
