import Sp18.MazeGame.Maze
import Sp18.Foundation.FuelLoop

/-!
# Making a maze

`make_maze` of `maze.c`, with `GOD_MODE` on as in the source: worms dig out the maze, walls between
its parts are knocked down until all of it can be reached, all walls inside are removed, and the
fruits and the exit are placed. The values of `random` come from a tape, and the loops that wait for
a lucky draw have fuel. `srandom` is left out.
-/

set_option autoImplicit false
set_option relaxedAutoImplicit false

namespace Sp18.MazeGame

open Foundation

namespace Maze

/-- The loop that draws `(odd, odd)` lattice points as long as the point satisfies a condition. -/
def pickPoint (m : Maze) (again : UInt8 → Bool) (fuel : ℕ) (tape : Tape) :
    Option (ℤ × ℤ × Tape) :=
  doWhile (fun s : ℤ × ℤ × Tape ↦
    let (first, tape) := s.2.2.draw
    let (second, tape) := tape.draw
    let x := (first : ℤ) % m.xDim * 2 + 1
    let y := (second : ℤ) % m.yDim * 2 + 1
    some ((x, y, tape), again (m.cell x y))) fuel (0, 0, tape)

/-! ### Marking what can be reached -/

/-- The state of the search of `mark_maze_area`: the maze, the part of the queue that has not been
explored, and `q_end`. -/
structure Search where
  maze : Maze
  queue : List ℤ
  qEnd : ℤ

/-- One of the four tests of the search: the neighbour that is `offset` away is no wall, and the
lattice point behind it has not been reached. -/
def Search.explore (s : Search) (cur offset : ℤ) : Search :=
  if !hasBit (s.maze.cells (cur + offset)) mazeWall &&
      !hasBit (s.maze.cells (cur + 2 * offset)) mazeReach then
    { maze := s.maze.setIndex (cur + 2 * offset) (s.maze.cells (cur + 2 * offset) ||| mazeReach)
      queue := s.queue ++ [cur + 2 * offset]
      qEnd := s.qEnd + 1 }
  else s

/-- The body of the search loop. -/
def Search.next (s : Search) : Option (Search × Bool) :=
  match s.queue with
  | [] => some (s, false)
  | cur :: rest =>
    let s := { s with queue := rest }
    let s := s.explore cur (-2 * s.maze.xDim)
    let s := s.explore cur 1
    let s := s.explore cur (2 * s.maze.xDim)
    some (s.explore cur (-1), true)

/-- `mark_maze_area` -/
def markMazeArea (m : Maze) (x y : ℤ) (fuel : ℕ) : Option (Maze × ℤ) :=
  let start := m.index x y
  (doWhile Search.next fuel ⟨m.setIndex start (m.cells start ||| mazeReach), [start], 1⟩).map
    fun s ↦ (s.maze, s.qEnd)

/-! ### Worms -/

/-- A worm, with the number of lattice points that are still walls. -/
structure Worm where
  maze : Maze
  tape : Tape
  x : ℤ
  y : ℤ
  prefDir : ℕ
  remaining : ℤ

/-- `turn_wt` -/
def turnWt (turn : ℕ) (isWall : Bool) : ℕ :=
  match turn, isWall with
  | 0, false => 1
  | 0, true => 84
  | 2, _ => 3
  | _, false => 1
  | _, true => 9

/-- The step of a worm in a direction. -/
def wormStep : ℕ → ℤ × ℤ
  | 0 => (0, -1)
  | 1 => (1, 0)
  | 2 => (0, 1)
  | _ => (-1, 0)

/-- What a direction adds to `total`. A direction out of the maze adds nothing. -/
def Worm.weight (w : Worm) : ℕ → ℕ
  | 0 => if w.y > 1 then
      turnWt w.prefDir (w.maze.cell w.x (w.y - 2) == mazeWall) else 0
  | 1 => if w.x < w.maze.xDim * 2 - 1 then
      turnWt ((w.prefDir + 3) % 4) (w.maze.cell (w.x + 2) w.y == mazeWall) else 0
  | 2 => if w.y < w.maze.yDim * 2 - 1 then
      turnWt ((w.prefDir + 2) % 4) (w.maze.cell w.x (w.y + 2) == mazeWall) else 0
  | _ => if w.x > 1 then
      turnWt ((w.prefDir + 1) % 4) (w.maze.cell (w.x - 2) w.y == mazeWall) else 0

/-- `wt`: the running total after a direction. -/
def Worm.wt (w : Worm) : ℕ → ℕ
  | 0 => w.weight 0
  | dir + 1 => w.wt dir + w.weight (dir + 1)

/-- The direction that a random value picks: the first one whose running total is above it. -/
def Worm.pickDir (w : Worm) (pick : ℕ) : ℕ :=
  if pick < w.wt 0 then 0
  else if pick < w.wt 1 then 1
  else if pick < w.wt 2 then 2
  else 3

/-- The move of a worm, which eats the wall between the two points and the one at the new point. -/
def Worm.move (w : Worm) (dir : ℕ) : Worm :=
  let (dx, dy) := wormStep dir
  let maze := w.maze.setCell (w.x + dx) (w.y + dy) mazeNone
  let x := w.x + 2 * dx
  let y := w.y + 2 * dy
  { w with
    maze := maze.setCell x y mazeNone
    x := x
    y := y
    prefDir := dir
    remaining := if maze.cell x y = mazeWall then w.remaining - 1 else w.remaining }

/-- The body of the loop of one worm, which ends when the worm turns around. -/
def Worm.next (w : Worm) : Option (Worm × Bool) :=
  let (value, tape) := w.tape.draw
  let dir := w.pickDir (value % w.wt 3)
  let w := { w with tape := tape }
  if (dir + 4 - w.prefDir) % 4 = 2 then some (w, false) else some (w.move dir, true)

/-- The body of the loop over the worms: a worm starts at a point that is still a wall. -/
def Worm.drop (fuel : ℕ) (w : Worm) : Option (Worm × Bool) := do
  let (x, y, tape) ← w.maze.pickPoint (fun value ↦ !hasBit value mazeWall) fuel w.tape
  let (value, tape) := tape.draw
  let w ← doWhile Worm.next fuel
    { maze := w.maze.setCell x y mazeNone
      tape := tape
      x := x
      y := y
      prefDir := value % 4
      remaining := w.remaining - 1 }
  some (w, w.remaining > 0)

/-! ### Connecting the parts -/

/-- The state of the second phase of `make_maze`. -/
structure Connect where
  maze : Maze
  tape : Tape
  x : ℤ
  y : ℤ
  remaining : ℤ
  trials : ℤ

/-- The next point of the scan, from left to right and from top to bottom. -/
def Connect.scan (c : Connect) : Connect :=
  if c.x + 2 > c.maze.xDim * 2 then
    { c with
      x := c.x + 2 - c.maze.xDim * 2
      y := if c.y + 2 > 2 * c.maze.yDim then c.y + 2 - 2 * c.maze.yDim else c.y + 2 }
  else { c with x := c.x + 2 }

/-- The wall that is knocked down next to a point which is not connected yet, if there is one: the
first of the four neighbours behind which the maze can be reached. -/
def Connect.wallToRemove (c : Connect) : Option ℤ :=
  let cur := c.maze.index c.x c.y
  if c.y > 1 ∧ hasBit (c.maze.cells (cur - 4 * c.maze.xDim)) mazeReach then
    some (cur - 2 * c.maze.xDim)
  else if c.x > 1 ∧ hasBit (c.maze.cells (cur - 2)) mazeReach then some (cur - 1)
  else if c.x < 2 * c.maze.xDim - 1 ∧ hasBit (c.maze.cells (cur + 2)) mazeReach then some (cur + 1)
  else if c.y < 2 * c.maze.yDim - 1 ∧ hasBit (c.maze.cells (cur + 4 * c.maze.xDim)) mazeReach then
    some (cur + 2 * c.maze.xDim)
  else none

/-- The end of the body of the second phase: the point is connected, if it can be. -/
def Connect.join (c : Connect) (fuel : ℕ) : Option (Connect × Bool) :=
  match c.wallToRemove with
  | none => some (c, c.remaining > 0)
  | some wall =>
    ((c.maze.setIndex wall mazeNone).markMazeArea c.x c.y fuel).map fun (maze, marked) ↦
      ({ c with maze := maze, remaining := c.remaining - marked }, c.remaining - marked > 0)

/-- The body of the loop of the second phase. -/
def Connect.next (fuel : ℕ) (c : Connect) : Option (Connect × Bool) :=
  let scanning := c.remaining < 20 ∨ c.trials + 1 > 100
  let c := if c.remaining < 20 then c else { c with trials := c.trials + 1 }
  if scanning then
    let c := c.scan
    if hasBit (c.maze.cell c.x c.y) mazeReach then some (c, c.remaining > 0) else c.join fuel
  else do
    let (x, y, tape) ← c.maze.pickPoint (fun value ↦ hasBit value mazeReach) fuel c.tape
    { c with x := x, y := y, tape := tape }.join fuel

/-! ### The whole -/

/-- A loop over a column of lattice points that changes their bytes. -/
def mapColumn (f : UInt8 → UInt8) (x : ℤ) (y : ℕ → ℤ) (m : Maze) : ℕ → Maze
  | 0 => m
  | j + 1 => (mapColumn f x y m j).setCell x (y j) (f ((mapColumn f x y m j).cell x (y j)))

/-- The nested loops over lattice points that change their bytes. -/
def mapCells (f : UInt8 → UInt8) (x y : ℕ → ℤ) (rows : ℕ) (m : Maze) : ℕ → Maze
  | 0 => m
  | i + 1 => mapColumn f (x i) y (mapCells f x y rows m i) rows

/-- The removal of the marks. -/
def clearReach (m : Maze) : Maze :=
  mapCells (fun value ↦ value &&& ~~~mazeReach) (fun i ↦ 2 * i + 1) (fun j ↦ 2 * j + 1)
    m.yDim.toNat m m.xDim.toNat

/-- The removal of all walls. -/
def clearWalls (m : Maze) : Maze :=
  mapCells (fun _ ↦ mazeNone) (fun i ↦ i + 1) (fun j ↦ j + 1)
    (2 * m.yDim - 1).toNat m (2 * m.xDim - 1).toNat

/-- `_add_a_fruit` without drawing, which is `add_a_fruit_internal`. -/
def addAFruitInternal (m : Maze) (fuel : ℕ) (tape : Tape) : Option (Maze × Tape) := do
  let (x, y, tape) ← m.pickPoint (fun value ↦ hasBit value mazeFruit) fuel tape
  let (value, tape) := tape.draw
  let fruit := (value % numFruitTypes + 1).toUInt8 * mazeFruit1
  some ({ m.setCell x y (m.cell x y ||| fruit) with nFruits := m.nFruits + 1 }, tape)

/-- The loop that adds the first fruits. -/
def addFruits (fuel : ℕ) : ℕ → Maze × Tape → Option (Maze × Tape)
  | 0, s => some s
  | count + 1, s => do addFruits fuel count (← s.1.addAFruitInternal fuel s.2)

/-- The last part of `make_maze`, which places the exit. -/
def placeExit (m : Maze) (fuel : ℕ) (tape : Tape) : Option Maze := do
  let (x, y, _) ← m.pickPoint (fun value ↦ hasBit value mazeFruit) fuel tape
  some { m.setCell x y (m.cell x y ||| mazeExit) with exitX := x, exitY := y }

/-- `make_maze`: the return value and the maze. -/
def makeMaze (m : Maze) (xDim yDim startFruits : ℤ) (fuel : ℕ) (tape : Tape) :
    Option (ℤ × Maze) :=
  if xDim < mazeMinXDim ∨ xDim > mazeMaxXDim ∨ yDim < mazeMinYDim ∨ yDim > mazeMaxYDim then
    some (-1, m)
  else do
    let m := { m with xDim := xDim, yDim := yDim, cells := fun _ ↦ mazeWall }
    let w ← doWhile (Worm.drop fuel) fuel ⟨m, tape, 0, 0, 0, xDim * yDim⟩
    let (m, marked) ← w.maze.markMazeArea 1 1 fuel
    let c ← doWhile (Connect.next fuel) fuel ⟨m, w.tape, w.x, w.y, xDim * yDim - marked, 0⟩
    let m := c.maze.clearReach.clearWalls
    let (m, tape) ← addFruits fuel startFruits.toNat ({ m with nFruits := 0 }, c.tape)
    let m ← m.placeExit fuel tape
    some (0, m)

end Maze

end Sp18.MazeGame
