import Sp18.Foundation.CInt
import Sp18.MazeGame.Picture

/-!
# The view follows the player

What the panning of the moves is for: the view stays on the maze, the player stays in the view, and
it is `PAN_BORDER` blocks away from the ends of the view that are not ends of the maze (`Follows`).
That is what `Framed` says of each coordinate, so that it holds from the start of a level on
(`everyState_follows`, `everyState_follows_thread`).

The coordinates of the view are unsigned in the source, and so the comparisons of the panning tests
are made modulo `2^32`. In every state that the moves lead to they have the same outcome as for the
integers themselves (`everyState_tests`).
-/

set_option autoImplicit false
set_option relaxedAutoImplicit false

namespace Sp18.MazeGame

open Foundation

namespace Player

/-- The view is on the maze and the player in the view, away from the ends of the view that are not
at the limits of the maze. -/
structure Follows (p : Player) : Prop where
  shownX : p.game.screen.showX = p.game.info.mapX
  shownY : p.game.screen.showY = p.game.info.mapY
  columns : showMin ≤ p.game.info.mapX ∧
    p.game.info.mapX + scrollXDim ≤ (2 * p.game.info.mazeXDim + 1) * blockDim - showMin
  rows : showMin ≤ p.game.info.mapY ∧
    p.game.info.mapY + scrollYDim ≤ (2 * p.game.info.mazeYDim + 1) * blockDim - showMin
  insideX : p.game.info.mapX ≤ p.xAfter ∧ p.xAfter + blockDim ≤ p.game.info.mapX + scrollXDim
  insideY : p.game.info.mapY ≤ p.yAfter ∧ p.yAfter + blockDim ≤ p.game.info.mapY + scrollYDim
  left : p.game.info.mapX ≠ showMin → p.game.info.mapX + panBorder * blockDim ≤ p.xAfter
  right : p.game.info.mapX + scrollXDim ≠ (2 * p.game.info.mazeXDim + 1) * blockDim - showMin →
    p.xAfter + blockDim + panBorder * blockDim ≤ p.game.info.mapX + scrollXDim
  top : p.game.info.mapY ≠ showMin → p.game.info.mapY + panBorder * blockDim ≤ p.yAfter
  bottom : p.game.info.mapY + scrollYDim ≠ (2 * p.game.info.mazeYDim + 1) * blockDim - showMin →
    p.yAfter + blockDim + panBorder * blockDim ≤ p.game.info.mapY + scrollYDim

variable {p : Player}

theorem follows_of_inWindow (h : p.game.InWindow p.xAfter p.yAfter) : p.Follows := by
  obtain ⟨hmapX, hinsideX, hleft, hright⟩ := h.columns
  obtain ⟨hmapY, hinsideY, htop, hbottom⟩ := h.rows
  have hconst : panBorder = 5 ∧ blockDim = 12 ∧ showMin = 6 ∧ scrollXDim = 320 ∧
    scrollYDim = 182 := by decide
  constructor
  · exact h.showX
  · exact h.showY
  all_goals
    simp only [hconst, h.xDim, h.yDim]
    omega

variable (blocks : ℕ → Image)

/-- From the start of a level on, the view follows the player through all legal moves. -/
theorem everyState_follows {g g' : Game} {level : ℤ} {fuel : ℕ} {tape : Tape}
    (hlevel : g.prepareMazeLevel blocks level fuel tape = some (0, g')) (actions : List Action)
    (hlegal : EveryStep (act blocks) Legal ⟨g', 12, 12⟩ actions) :
    EveryState (act blocks) Follows ⟨g', 12, 12⟩ actions := by
  obtain ⟨hsound, hwindow, hshows⟩ := Game.prepareMazeLevel_shows hlevel
  have hpictured : EveryState (act blocks) (Pictured blocks) ⟨g', 12, 12⟩ actions :=
    everyState_of_everyStep (act_pictured blocks) ⟨hsound, hwindow, hshows⟩ hlegal
  exact hpictured.mono fun _ h ↦ follows_of_inWindow h.window

theorem act_move (p : Player) (dir : Dir) :
    (p.act blocks (.move dir)).game.maze = p.game.maze ∧
      (p.act blocks (.move dir)).xAfter = p.xAfter + dir.dx ∧
      (p.act blocks (.move dir)).yAfter = p.yAfter + dir.dy := by
  obtain ⟨hmaze, hposition⟩ := p.game.movePlayer_spec blocks dir p.xAfter p.yAfter
  exact ⟨hmaze, congrArg Prod.fst hposition, congrArg Prod.snd hposition⟩

/-- `n` moves down are legal as far as they stay on the maze. -/
theorem run_down {n : ℕ} {p : Player}
    (hcolumn : 12 ≤ p.xAfter ∧ p.xAfter ≤ 12 * (2 * p.game.maze.xDim - 1)) (hrow : 12 ≤ p.yAfter)
    (hend : p.yAfter + n ≤ 12 * (2 * p.game.maze.yDim - 1)) :
    EveryStep (act blocks) Legal p (List.replicate n (.move .down)) ∧
      (run (act blocks) p (List.replicate n (.move .down))).yAfter = p.yAfter + n := by
  induction n generalizing p with
  | zero => exact ⟨trivial, (add_zero _).symm⟩
  | succ n ih =>
    obtain ⟨hmaze, hx, hy⟩ := p.act_move blocks .down
    have hdown : Dir.down.dx = 0 ∧ Dir.down.dy = 1 := ⟨rfl, rfl⟩
    rw [hdown.1, add_zero] at hx
    rw [hdown.2] at hy
    push_cast at hend
    obtain ⟨hlegal, hlast⟩ := ih (p := p.act blocks (.move .down))
      (by rw [hx, hmaze]; exact hcolumn) (by omega) (by rw [hy, hmaze]; omega)
    have hfirst : p.Legal (.move .down) := by
      change (12 ≤ p.xAfter + Dir.down.dx ∧ _) ∧ (12 ≤ p.yAfter + Dir.down.dy ∧ _)
      rw [hdown.1, hdown.2, add_zero]
      exact ⟨hcolumn, by omega, by omega⟩
    refine ⟨⟨hfirst, hlegal⟩, hlast.trans ?_⟩
    rw [hy]
    push_cast
    ring

/-- 120 moves down in the first level, which pan the view. -/
theorem everyState_follows_down : ∃ g,
    Game.initial.prepareMazeLevel plainBlocks 1 300 Maze.wormTape = some (0, g) ∧
      EveryState (act plainBlocks) Follows ⟨g, 12, 12⟩ (List.replicate 120 (.move .down)) ∧
      (run (act plainBlocks) ⟨g, 12, 12⟩ (List.replicate 120 (.move .down))).game.info.mapY ≠
        showMin := by
  obtain ⟨g, hlevel⟩ := prepareMazeLevel_wormTape
  obtain ⟨-, hwindow, -⟩ := Game.prepareMazeLevel_shows hlevel
  have hcolumns := hwindow.columns.onMaze
  have hrows := hwindow.rows.onMaze
  obtain ⟨hlegal, hlast⟩ := run_down plainBlocks (n := 120) (p := ⟨g, 12, 12⟩)
    (by dsimp only; omega) (by dsimp only; omega) (by dsimp only; omega)
  have hfollows := everyState_follows plainBlocks hlevel _ hlegal
  refine ⟨g, hlevel, hfollows, fun hmap ↦ ?_⟩
  -- a view at the top of the maze would show the player too close to its lower end
  have hbottom := hfollows.last.bottom
  rw [hmap, hlast] at hbottom
  have hconst : panBorder = 5 ∧ blockDim = 12 ∧ showMin = 6 ∧ scrollYDim = 182 := by decide
  simp only [hconst] at hbottom
  omega

end Player

/-- In every run of the thread through a level the view follows the player. -/
theorem Thread.everyState_follows_thread (blocks : ℕ → Image) {t : Thread} {g' : Game} {level : ℤ}
    {fuel : ℕ} {tape : Tape}
    (hlevel : t.game.prepareMazeLevel blocks level fuel tape = some (0, g')) (events : List Event) :
    EveryState (step blocks) (fun t ↦ Player.Follows ⟨t.game, t.xAfter, t.yAfter⟩)
      (startLevel blocks { t with game := g' }) events := by
  obtain ⟨hsound, hwindow, hshows⟩ := Game.prepareMazeLevel_shows hlevel
  have hdrawn := everyState_of_invariant (step_drawn blocks)
    (startLevel_drawn blocks (t := { t with game := g' }) hsound hwindow hshows) events
  exact hdrawn.mono fun _ h ↦ Player.follows_of_inWindow h.window

/-! ### Unsigned comparisons -/

/-- The test of `move_up` and `move_left`, whose right operand is unsigned. -/
def pansBackward (map pos : ℤ) : Prop :=
  u32 (pos - 1) < u32 (u32 map + blockDim * panBorder) ∧ u32 map > showMin

/-- The test of `move_right` and `move_down`, whose right operand is unsigned. -/
def pansForward (extent dim map pos : ℤ) : Prop :=
  u32 (pos + 1) > u32 (u32 map + extent - blockDim * (panBorder + 1)) ∧
    u32 (u32 map + extent) < u32 ((2 * dim + 1) * blockDim - showMin)

namespace Game.Framed

variable {extent dim map pos : ℤ}

theorem pansBackward_iff (h : Framed extent dim map pos) (hextent : 72 ≤ extent)
    (hdim : dim ≤ 50) : pansBackward map pos ↔ pos - 1 < map + 60 ∧ map > 6 := by
  obtain ⟨honMaze, hinside, -, -⟩ := h
  have hconst : panBorder = 5 ∧ blockDim = 12 ∧ showMin = 6 := by decide
  unfold pansBackward
  simp only [hconst]
  rw [u32_of_range (show 0 ≤ map by omega) (by omega), u32_of_range (by omega) (by omega),
    u32_of_range (by omega) (by omega)]
  omega

theorem pansForward_iff (h : Framed extent dim map pos) (hextent : 72 ≤ extent) (hdim : dim ≤ 50) :
    pansForward extent dim map pos ↔
      pos + 1 > map + extent - 72 ∧ map + extent < (2 * dim + 1) * 12 - 6 := by
  obtain ⟨honMaze, hinside, -, -⟩ := h
  have hconst : panBorder = 5 ∧ blockDim = 12 ∧ showMin = 6 := by decide
  unfold pansForward
  simp only [hconst]
  rw [u32_of_range (show 0 ≤ map by omega) (by omega), u32_of_range (by omega) (by omega),
    u32_of_range (by omega) (by omega), u32_of_range (by omega) (by omega),
    u32_of_range (by omega) (by omega)]
  omega

end Game.Framed

namespace Player

/-- The tests of the four moves come out as for the integers. -/
structure TestsExact (p : Player) : Prop where
  up : pansBackward p.game.info.mapY p.yAfter ↔
    p.yAfter - 1 < p.game.info.mapY + 60 ∧ p.game.info.mapY > 6
  right : pansForward 320 p.game.info.mazeXDim p.game.info.mapX p.xAfter ↔
    p.xAfter + 1 > p.game.info.mapX + 320 - 72 ∧
      p.game.info.mapX + 320 < (2 * p.game.info.mazeXDim + 1) * 12 - 6
  down : pansForward 182 p.game.info.mazeYDim p.game.info.mapY p.yAfter ↔
    p.yAfter + 1 > p.game.info.mapY + 182 - 72 ∧
      p.game.info.mapY + 182 < (2 * p.game.info.mazeYDim + 1) * 12 - 6
  left : pansBackward p.game.info.mapX p.xAfter ↔
    p.xAfter - 1 < p.game.info.mapX + 60 ∧ p.game.info.mapX > 6

/-- The size of the maze is accepted by `make_maze`. -/
def Sized (p : Player) : Prop := p.game.maze.xDim ≤ 50 ∧ p.game.maze.yDim ≤ 30

variable (blocks : ℕ → Image) {p : Player}

theorem act_sized (p : Player) (action : Action) (h : p.Sized) : (p.act blocks action).Sized := by
  cases action with
  | move dir =>
    have hmaze := (p.game.movePlayer_spec blocks dir p.xAfter p.yAfter).1
    simpa only [Sized, act, hmaze] using h
  | unveil =>
    have hkeep := Game.unveilAroundPlayer_keepsMaze blocks p.game p.xAfter p.yAfter
    simpa only [Sized, act, hkeep.xDim, hkeep.yDim] using h
  | round lastDir => exact h

theorem prepareMazeLevel_sized {g g' : Game} {level : ℤ} {fuel : ℕ} {tape : Tape}
    (h : g.prepareMazeLevel blocks level fuel tape = some (0, g')) : Sized ⟨g', 12, 12⟩ := by
  obtain ⟨maze, hmaze, rfl⟩ := Game.prepareMazeLevel_enter h
  obtain ⟨-, hxDim, hyDim⟩ := Maze.makeMaze_sound hmaze
  have hmax : mazeMaxXDim = 50 ∧ mazeMaxYDim = 30 := ⟨rfl, rfl⟩
  have hlimit : ∀ value limit, atMost value limit ≤ limit := by
    intro value limit
    unfold atMost
    split_ifs <;> omega
  have hx : maze.xDim ≤ 50 := hxDim.trans_le (hlimit _ _)
  have hy : maze.yDim ≤ 30 := hyDim.trans_le (hlimit _ _)
  unfold Sized
  rw [Game.drawLines_maze]
  exact ⟨hx, hy⟩

theorem testsExact_of_inWindow (h : p.game.InWindow p.xAfter p.yAfter) (hsize : p.Sized) :
    p.TestsExact := by
  have hcolumns := h.columns
  have hrows := h.rows
  rw [← h.xDim] at hcolumns
  rw [← h.yDim] at hrows
  have hwidth : p.game.info.mazeXDim ≤ 50 := h.xDim.trans_le hsize.1
  have hheight : p.game.info.mazeYDim ≤ 50 := h.yDim.trans_le (hsize.2.trans (by decide))
  exact ⟨hrows.pansBackward_iff (by decide) hheight, hcolumns.pansForward_iff (by decide) hwidth,
    hrows.pansForward_iff (by decide) hheight, hcolumns.pansBackward_iff (by decide) hwidth⟩

/-- No comparison of a panning test ever wraps around. -/
theorem everyState_tests {g g' : Game} {level : ℤ} {fuel : ℕ} {tape : Tape}
    (hlevel : g.prepareMazeLevel blocks level fuel tape = some (0, g')) (actions : List Action)
    (hlegal : EveryStep (act blocks) Legal ⟨g', 12, 12⟩ actions) :
    EveryState (act blocks) TestsExact ⟨g', 12, 12⟩ actions := by
  obtain ⟨hsound, hwindow, hshows⟩ := Game.prepareMazeLevel_shows hlevel
  have hstep : ∀ (p : Player) (action : Action), p.Pictured blocks ∧ p.Sized → p.Legal action →
      (p.act blocks action).Pictured blocks ∧ (p.act blocks action).Sized :=
    fun p action h hlegal ↦ ⟨act_pictured blocks p action h.1 hlegal, act_sized blocks p action h.2⟩
  have hall : EveryState (act blocks) (fun p ↦ p.Pictured blocks ∧ p.Sized) ⟨g', 12, 12⟩ actions :=
    everyState_of_everyStep hstep
      ⟨⟨hsound, hwindow, hshows⟩, prepareMazeLevel_sized blocks hlevel⟩ hlegal
  exact hall.mono fun _ h ↦ testsExact_of_inWindow h.1.window h.2

end Player

end Sp18.MazeGame
