import Sp18.MazeGame.BuiltMaze
import Sp18.MazeGame.Modex

/-!
# The game

`mazegame.c`: preparing a level, the player's moves and what they pan and unveil, and `rtc_thread`.
A tick of the timer takes the value that `find_open_directions` leaves unset, the one behind the
last direction; between ticks the other threads set `next_dir`. The functions of `maze.c` that draw
are here too.

The status bar is in `StatusBar`. Left out are the colours, the LEDs of the controller and
`fruit_type`, which nothing reads.
-/

set_option autoImplicit false
set_option relaxedAutoImplicit false

namespace Sp18.MazeGame

open Foundation

/-- `PAN_BORDER` -/
def panBorder : ℤ := 5

/-- `MAX_LEVEL` -/
def maxLevel : ℤ := 10

/-- `game_info_t` -/
structure GameInfo where
  number : ℤ
  mazeXDim : ℤ
  mazeYDim : ℤ
  initialFruitCount : ℤ
  timeToFirstFruit : ℤ
  timeBetweenFruits : ℤ
  tickUsec : ℤ
  mapX : ℤ
  mapY : ℤ

/-- The maze, the build buffer and `game_info`. -/
structure Game where
  maze : Maze
  screen : Screen
  info : GameInfo

/-- The state after `set_mode_X`, before the first level. -/
def Game.initial : Game where
  maze := Maze.unmade
  screen := ⟨fun _ ↦ 0, buildBaseInit, 0, 0, fun _ ↦ 0⟩
  info := ⟨0, 0, 0, 0, 0, 0, 0, 0, 0⟩

/-- A value that is computed for a level, unless a limit is passed. -/
def atMost (value limit : ℤ) : ℤ := if value > limit then limit else value

/-- A value that is computed for a level, unless a limit is passed. -/
def atLeast (value limit : ℤ) : ℤ := if value < limit then limit else value

/-- The values that `prepare_maze_level` stores in `game_info`. -/
def levelInfo (level : ℤ) : GameInfo where
  number := level
  mazeXDim := atMost (mazeMinXDim + 2 * (level - 1)) mazeMaxXDim
  mazeYDim := atMost (mazeMinYDim + 2 * (level - 1)) mazeMaxYDim
  initialFruitCount := atMost (1 + (level - 1).tdiv 2) 6
  timeToFirstFruit := atLeast (300 - 30 * (level - 1)) 120
  timeBetweenFruits := atLeast (300 - 60 * (level - 1)) 60
  tickUsec := atLeast (20000 - 1750 * (level - 1)) 5000
  mapX := showMin
  mapY := showMin

namespace Game

section Blocks

variable (blocks : ℕ → Image)

/-- `draw_horiz_line`, with `fill_horiz_buffer` as `horiz_line_fn` -/
def drawHorizLine (g : Game) (y : ℤ) : Game :=
  { g with
    screen := g.screen.drawHorizLine (fun x y ↦ g.maze.fillHorizBuffer blocks x y fun _ ↦ 0) y }

/-- `draw_vert_line`, with `fill_vert_buffer` as `vert_line_fn` -/
def drawVertLine (g : Game) (x : ℤ) : Game :=
  { g with
    screen := g.screen.drawVertLine (fun x y ↦ g.maze.fillVertBuffer blocks x y fun _ ↦ 0) x }

/-- The loop that draws the initial screen. -/
def drawLines (g : Game) : ℕ → Game
  | 0 => g
  | i + 1 => (drawLines g i).drawHorizLine blocks i

/-- `prepare_maze_level`: the return value and the game -/
def prepareMazeLevel (g : Game) (level : ℤ) (fuel : ℕ) (tape : Tape) : Option (ℤ × Game) := do
  let info := levelInfo level
  let (ret, maze) ← g.maze.makeMaze info.mazeXDim info.mazeYDim info.initialFruitCount fuel tape
  let g := { g with maze := maze, info := info }
  if ret ≠ 0 then some (-1, g)
  else
    let g := { g with screen := g.screen.setViewWindow info.mapX info.mapY }
    some (0, drawLines blocks g scrollYDim.toNat)

/-- `move_up` -/
def moveUp (g : Game) (ypos : ℤ) : Game × ℤ :=
  if ypos - 1 < g.info.mapY + blockDim * panBorder ∧ g.info.mapY > showMin then
    let mapY := g.info.mapY - 1
    (drawHorizLine blocks { g with
      screen := g.screen.setViewWindow g.info.mapX mapY
      info := { g.info with mapY := mapY } } 0, ypos - 1)
  else (g, ypos - 1)

/-- `move_right` -/
def moveRight (g : Game) (xpos : ℤ) : Game × ℤ :=
  if xpos + 1 > g.info.mapX + scrollXDim - blockDim * (panBorder + 1) ∧
      g.info.mapX + scrollXDim < (2 * g.info.mazeXDim + 1) * blockDim - showMin then
    let mapX := g.info.mapX + 1
    (drawVertLine blocks { g with
      screen := g.screen.setViewWindow mapX g.info.mapY
      info := { g.info with mapX := mapX } } (scrollXDim - 1), xpos + 1)
  else (g, xpos + 1)

/-- `move_down` -/
def moveDown (g : Game) (ypos : ℤ) : Game × ℤ :=
  if ypos + 1 > g.info.mapY + scrollYDim - blockDim * (panBorder + 1) ∧
      g.info.mapY + scrollYDim < (2 * g.info.mazeYDim + 1) * blockDim - showMin then
    let mapY := g.info.mapY + 1
    (drawHorizLine blocks { g with
      screen := g.screen.setViewWindow g.info.mapX mapY
      info := { g.info with mapY := mapY } } (scrollYDim - 1), ypos + 1)
  else (g, ypos + 1)

/-- `move_left` -/
def moveLeft (g : Game) (xpos : ℤ) : Game × ℤ :=
  if xpos - 1 < g.info.mapX + blockDim * panBorder ∧ g.info.mapX > showMin then
    let mapX := g.info.mapX - 1
    (drawVertLine blocks { g with
      screen := g.screen.setViewWindow mapX g.info.mapY
      info := { g.info with mapX := mapX } } 0, xpos - 1)
  else (g, xpos - 1)

/-- The moves that `rtc_thread` makes in its directions: the game and the position after the move -/
def movePlayer (g : Game) (dir : Dir) (xAfter yAfter : ℤ) : Game × ℤ × ℤ :=
  match dir with
  | .up =>
    let (g, yAfter) := g.moveUp blocks yAfter
    (g, xAfter, yAfter)
  | .right =>
    let (g, xAfter) := g.moveRight blocks xAfter
    (g, xAfter, yAfter)
  | .down =>
    let (g, yAfter) := g.moveDown blocks yAfter
    (g, xAfter, yAfter)
  | .left =>
    let (g, xAfter) := g.moveLeft blocks xAfter
    (g, xAfter, yAfter)
  | .stop => (g, xAfter, yAfter)

/-- `draw_full_block` for a lattice point, with the image that `find_block` gives. -/
def drawPoint (g : Game) (x y : ℤ) : Game :=
  { g with
    screen := g.screen.drawFullBlock (x * blockDim) (y * blockDim) (blocks (g.maze.findBlock x y)) }

/-- `unveil_space` -/
def unveilSpace (g : Game) (x y : ℤ) : Game :=
  if x < 0 ∨ x > 2 * g.maze.xDim ∨ y < 0 ∨ y > 2 * g.maze.yDim then g
  else if Maze.hasBit (g.maze.cell x y) mazeReach then g
  else
    drawPoint blocks { g with maze := g.maze.setCell x y (g.maze.cell x y ||| mazeReach) } x y

/-- `check_for_fruit`: the game and the return value -/
def checkForFruit (g : Game) (x y : ℤ) : Game × ℕ :=
  if x < 0 ∨ x ≥ 2 * g.maze.xDim ∨ y < 0 ∨ y ≥ 2 * g.maze.yDim then (g, 0)
  else
    let fnum := Maze.fruitNumber (g.maze.cell x y)
    if fnum ≠ 0 then
      let maze := g.maze.setCell x y (g.maze.cell x y &&& ~~~mazeFruit)
      let g := { g with maze := { maze with nFruits := maze.nFruits - 1 } }
      let g := if g.maze.nFruits = 0 then g.drawPoint blocks g.maze.exitX g.maze.exitY else g
      (g.drawPoint blocks x y, fnum)
    else (g, fnum)

/-- `unveil_around_player`: the game and the return value -/
def unveilAroundPlayer (g : Game) (xAfter yAfter : ℤ) : Game × Bool :=
  let x := xAfter.tdiv blockDim
  let y := yAfter.tdiv blockDim
  let g := (g.checkForFruit blocks x y).1
  let around := [(-1, -1), (-1, 0), (-1, 1), (0, -1), (0, 0), (0, 1), (1, -1), (1, 0), (1, 1),
    (0, -2), (2, 0), (0, 2), (-2, 0)]
  let g := around.foldl (fun g (i, j) ↦ g.unveilSpace blocks (x + i) (y + j)) g
  (g, g.maze.checkForWin x y)

/-- The player is drawn, the screen shown, and the background of the player restored. -/
def showPlayer (g : Game) (xAfter yAfter : ℤ) (lastDir : Dir) : Game :=
  let screen := g.screen.mask xAfter yAfter (blocks (Maze.getPlayerBlock lastDir))
    (blocks (Maze.getPlayerMask lastDir))
  { g with screen := screen.drawFullBlock xAfter yAfter screen.blockMask }

end Blocks

end Game

/-- The game with the variables of `rtc_thread`. -/
structure Thread where
  game : Game
  xAfter : ℤ
  yAfter : ℤ
  lastDir : Dir
  dir : Dir
  nextDir : Dir
  moveCnt : ℤ
  gotoNextLevel : Bool
  needRedraw : Bool

/-- How the first coordinate of the player changes. -/
def Dir.dx : Dir → ℤ
  | .right => 1
  | .left => -1
  | _ => 0

/-- How the second coordinate of the player changes. -/
def Dir.dy : Dir → ℤ
  | .up => -1
  | .down => 1
  | _ => 0

/-- The state before the first level. -/
def Thread.initial : Thread where
  game := Game.initial
  xAfter := 0
  yAfter := 0
  lastDir := .up
  dir := .up
  nextDir := .up
  moveCnt := 0
  gotoNextLevel := false
  needRedraw := false

/-- One direction is backwards to the other. -/
def Dir.backwards : Dir → Dir → Bool
  | .up, .down => true
  | .down, .up => true
  | .left, .right => true
  | .right, .left => true
  | _, _ => false

namespace Thread

/-- The check at the start of a tick whether the new direction is backwards. -/
def turnBack (t : Thread) : Thread :=
  if t.nextDir ≠ t.dir then
    if t.dir.backwards t.nextDir then
      { t with
        moveCnt := if t.moveCnt > 0 then blockDim - t.moveCnt else t.moveCnt
        dir := t.nextDir }
    else t
  else t

/-- The choice of a direction in a new maze square. -/
def chooseDir (t : Thread) (behind : Bool) : Thread :=
  let op := t.game.maze.findOpenDirections (t.xAfter.tdiv blockDim) (t.yAfter.tdiv blockDim) behind
  let dir := if op t.nextDir then t.nextDir else t.dir
  if dir ≠ .stop then
    if !op dir then { t with dir := .stop } else { t with dir := dir, moveCnt := blockDim }
  else { t with dir := dir }

section Blocks

variable (blocks : ℕ → Image)

/-- The move at the end of a tick. -/
def move (t : Thread) : Thread :=
  if t.dir ≠ .stop then
    let (game, xAfter, yAfter) := t.game.movePlayer blocks t.dir t.xAfter t.yAfter
    { t with
      game := game
      xAfter := xAfter
      yAfter := yAfter
      lastDir := t.dir
      moveCnt := t.moveCnt - 1
      needRedraw := true }
  else t

/-- The body of the loop over the ticks. When the player wins the level, the loop ends. -/
def tick (t : Thread) (behind : Bool) : Thread :=
  if t.gotoNextLevel then t
  else
    let t := t.turnBack
    if t.moveCnt = 0 then
      let (game, won) := t.game.unveilAroundPlayer blocks t.xAfter t.yAfter
      let t := { t with game := game }
      if won then { t with gotoNextLevel := true } else (t.chooseDir behind).move blocks
    else t.move blocks

/-- The drawing at the start of a level and after the ticks of a period. -/
def redraw (t : Thread) : Thread :=
  { t with game := t.game.showPlayer blocks t.xAfter t.yAfter t.lastDir }

/-- The start of a level that has been prepared: the player is at (1,1) and does not move. -/
def startLevel (t : Thread) : Thread :=
  redraw blocks
    { t with
      game := (t.game.unveilAroundPlayer blocks blockDim blockDim).1
      xAfter := blockDim
      yAfter := blockDim
      moveCnt := 0
      lastDir := .up
      dir := .stop
      nextDir := .stop
      gotoNextLevel := false }

end Blocks

end Thread

/-! ### What the game does to the maze -/

namespace Game

variable {blocks : ℕ → Image} {g : Game}

@[simp] theorem drawHorizLine_maze (g : Game) (y : ℤ) :
    (g.drawHorizLine blocks y).maze = g.maze := rfl

@[simp] theorem drawVertLine_maze (g : Game) (x : ℤ) :
    (g.drawVertLine blocks x).maze = g.maze := rfl

theorem drawHorizLine_sameWindow (g : Game) (y : ℤ) :
    g.screen.SameWindow (g.drawHorizLine blocks y).screen := by
  simp only [drawHorizLine]
  exact g.screen.drawHorizLine_sameWindow _ _

theorem drawVertLine_sameWindow (g : Game) (x : ℤ) :
    g.screen.SameWindow (g.drawVertLine blocks x).screen := by
  simp only [drawVertLine]
  exact g.screen.drawVertLine_sameWindow _ _

@[simp] theorem drawHorizLine_info (g : Game) (y : ℤ) :
    (g.drawHorizLine blocks y).info = g.info := rfl

@[simp] theorem drawVertLine_info (g : Game) (x : ℤ) :
    (g.drawVertLine blocks x).info = g.info := rfl

@[simp] theorem drawPoint_maze (g : Game) (x y : ℤ) :
    (g.drawPoint blocks x y).maze = g.maze := rfl

@[simp] theorem drawLines_maze (g : Game) (n : ℕ) : (g.drawLines blocks n).maze = g.maze := by
  induction n with
  | zero => rfl
  | succ n ih => exact ih

@[simp] theorem drawLines_info (g : Game) (n : ℕ) : (g.drawLines blocks n).info = g.info := by
  induction n with
  | zero => rfl
  | succ n ih => exact ih

theorem drawLines_sameWindow (blocks : ℕ → Image) (g : Game) (n : ℕ) :
    g.screen.SameWindow (g.drawLines blocks n).screen := by
  induction n with
  | zero => exact Screen.SameWindow.refl g.screen
  | succ n ih => exact ih.trans (drawHorizLine_sameWindow _ _)

/-- A move goes one pixel in its direction and leaves the maze alone. -/
theorem movePlayer_spec (blocks : ℕ → Image) (g : Game) (dir : Dir) (xAfter yAfter : ℤ) :
    (g.movePlayer blocks dir xAfter yAfter).1.maze = g.maze ∧
      (g.movePlayer blocks dir xAfter yAfter).2 = (xAfter + dir.dx, yAfter + dir.dy) := by
  cases dir with
  | up =>
    simp only [movePlayer, moveUp, Dir.dx, Dir.dy, add_zero, ← sub_eq_add_neg]
    split_ifs <;> exact ⟨rfl, rfl⟩
  | right =>
    simp only [movePlayer, moveRight, Dir.dx, Dir.dy, add_zero]
    split_ifs <;> exact ⟨rfl, rfl⟩
  | down =>
    simp only [movePlayer, moveDown, Dir.dx, Dir.dy, add_zero]
    split_ifs <;> exact ⟨rfl, rfl⟩
  | left =>
    simp only [movePlayer, moveLeft, Dir.dx, Dir.dy, add_zero, ← sub_eq_add_neg]
    split_ifs <;> exact ⟨rfl, rfl⟩
  | stop => exact ⟨rfl, Prod.ext (add_zero xAfter).symm (add_zero yAfter).symm⟩

/-- The maze has been changed in a way that keeps it sound. -/
structure KeepsMaze (g g' : Game) : Prop where
  sound : g.maze.Sound → g'.maze.Sound
  xDim : g'.maze.xDim = g.maze.xDim
  yDim : g'.maze.yDim = g.maze.yDim

theorem KeepsMaze.refl (g : Game) : g.KeepsMaze g := ⟨id, rfl, rfl⟩

theorem KeepsMaze.of_maze_eq {g' : Game} (h : g'.maze = g.maze) : g.KeepsMaze g' := by
  refine ⟨fun hsound ↦ ?_, by rw [h], by rw [h]⟩
  rwa [h]

theorem KeepsMaze.trans {g' g'' : Game} (h : g.KeepsMaze g') (h' : g'.KeepsMaze g'') :
    g.KeepsMaze g'' :=
  ⟨h'.sound ∘ h.sound, h'.xDim.trans h.xDim, h'.yDim.trans h.yDim⟩

theorem unveilSpace_keepsMaze (g : Game) (x y : ℤ) : g.KeepsMaze (g.unveilSpace blocks x y) := by
  unfold unveilSpace
  split_ifs with hout hreach
  · exact KeepsMaze.refl g
  · exact KeepsMaze.refl g
  · refine ⟨fun h ↦ ?_, rfl, rfl⟩
    obtain ⟨fruits, hfruits⟩ := h.fruits
    have hbits : ∀ mask, Maze.hasBit mazeReach mask = false →
        Maze.hasBit (g.maze.cell x y ||| mazeReach) mask =
          Maze.hasBit (g.maze.cells (g.maze.index x y)) mask := by
      intro mask hmask
      rw [Maze.hasBit_or, hmask, Bool.or_false, Maze.cell]
    exact h.setIndex (hbits mazeWall rfl) (hbits mazeExit rfl)
      (hfruits.keep (hbits mazeFruit rfl))

theorem checkForFruit_keepsMaze (g : Game) (x y : ℤ) :
    g.KeepsMaze (g.checkForFruit blocks x y).1 := by
  unfold checkForFruit
  by_cases hout : x < 0 ∨ x ≥ 2 * g.maze.xDim ∨ y < 0 ∨ y ≥ 2 * g.maze.yDim
  · rw [if_pos hout]
    exact KeepsMaze.refl g
  · rw [if_neg hout]
    by_cases hfruit : Maze.fruitNumber (g.maze.cell x y) = 0
    · simp only [hfruit]
      exact KeepsMaze.refl g
    · have hhas : Maze.hasBit (g.maze.cell x y) mazeFruit = true := by
        rwa [Maze.fruitNumber_eq_zero_iff, Bool.not_eq_false] at hfruit
      have heaten : g.maze.Sound → Maze.Sound
          { g.maze.setCell x y (g.maze.cell x y &&& ~~~mazeFruit) with
            nFruits := g.maze.nFruits - 1 } := by
        intro h
        obtain ⟨fruits, hfruits⟩ := h.fruits
        exact h.setIndex (Maze.hasBit_and_of_eq rfl) (Maze.hasBit_and_of_eq rfl)
          (hfruits.remove hhas (Maze.hasBit_and_of_eq_zero rfl))
      simp only [ne_eq, hfruit, not_false_eq_true, if_true]
      split_ifs <;> exact ⟨heaten, rfl, rfl⟩

theorem unveilAroundPlayer_keepsMaze (blocks : ℕ → Image) (g : Game) (xAfter yAfter : ℤ) :
    g.KeepsMaze (g.unveilAroundPlayer blocks xAfter yAfter).1 := by
  have hfold : ∀ (around : List (ℤ × ℤ)) (x y : ℤ) (g : Game),
      g.KeepsMaze (around.foldl (fun g (i, j) ↦ g.unveilSpace blocks (x + i) (y + j)) g) := by
    intro around x y
    induction around with
    | nil => exact KeepsMaze.refl
    | cons point rest ih => exact fun g ↦ (unveilSpace_keepsMaze g _ _).trans (ih _)
  exact (checkForFruit_keepsMaze g _ _).trans (hfold _ _ _ _)

end Game

end Sp18.MazeGame
