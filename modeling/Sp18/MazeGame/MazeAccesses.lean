import Sp18.MazeGame.Connecting
import Sp18.Foundation.Checked

/-!
# The accesses of `make_maze`

`make_maze` and what it calls once more, with a check of the index at each access of `maze`, and of
the room that is left in the queue of `mark_maze_area`. None of the checks fails, whatever the size
and the draws are (`makeMazeChecked_eq`).

The source relies on three things for that. The columns from 0 to `2 * xDim` have a row above and
one below the maze in the array (`inArray_of_column`), and the rows of the maze an element to the
left and to the right (`inArray_of_row`). A search cannot leave the rooms, since the boundaries are
walls. And it queues each room at most once.
-/

set_option autoImplicit false
set_option relaxedAutoImplicit false

namespace Sp18.MazeGame

open Foundation

/-- `sizeof (maze)` -/
def mazeSize : ℤ := 2 * mazeMaxXDim * (2 * mazeMaxYDim + 3) + 1

namespace Maze

/-- The index of an element of `maze`. -/
def InArray (i : ℤ) : Prop := 0 ≤ i ∧ i < mazeSize

instance (i : ℤ) : Decidable (InArray i) := inferInstanceAs (Decidable (_ ∧ _))

/-- A load from `maze`. -/
def load (m : Maze) (i : ℤ) : Except Stop UInt8 := check (InArray i) (m.cells i)

/-- A change of an element of `maze`. -/
def modify (m : Maze) (i : ℤ) (f : UInt8 → UInt8) : Except Stop Maze :=
  check (InArray i) (m.setIndex i (f (m.cells i)))

/-- A load from `maze[MAZE_INDEX(x, y)]`. -/
def loadCell (m : Maze) (x y : ℤ) : Except Stop UInt8 := m.load (m.index x y)

/-- A change of `maze[MAZE_INDEX(x, y)]`. -/
def modifyCell (m : Maze) (x y : ℤ) (f : UInt8 → UInt8) : Except Stop Maze :=
  m.modify (m.index x y) f

/-! ### The functions with checks -/

/-- `pickPoint` with checks -/
def pickPointChecked (m : Maze) (again : UInt8 → Bool) (fuel : ℕ) (tape : Tape) :
    Except Stop (ℤ × ℤ × Tape) :=
  doWhileChecked (fun s : ℤ × ℤ × Tape ↦ do
    let (first, tape) := s.2.2.draw
    let (second, tape) := tape.draw
    let x := (first : ℤ) % m.xDim * 2 + 1
    let y := (second : ℤ) % m.yDim * 2 + 1
    let value ← m.loadCell x y
    return ((x, y, tape), again value)) fuel (0, 0, tape)

/-- `Search.explore` with checks. The lattice point behind the neighbour is looked at only if the
neighbour is no wall. -/
def Search.exploreChecked (s : Search) (cur offset : ℤ) : Except Stop Search := do
  let neighbour ← s.maze.load (cur + offset)
  if hasBit neighbour mazeWall then return s
  else
    let behind ← s.maze.load (cur + 2 * offset)
    if hasBit behind mazeReach then return s
    else
      let maze ← s.maze.modify (cur + 2 * offset) (· ||| mazeReach)
      -- the element of the queue that is written is `q[q_end]`
      check (0 ≤ s.qEnd ∧ s.qEnd < mazeMaxXDim * mazeMaxYDim)
        { maze := maze, queue := s.queue ++ [cur + 2 * offset], qEnd := s.qEnd + 1 }

/-- `Search.next` with checks -/
def Search.nextChecked (s : Search) : Except Stop (Search × Bool) :=
  match s.queue with
  | [] => return (s, false)
  | cur :: rest => do
    let s := { s with queue := rest }
    let s ← s.exploreChecked cur (-2 * s.maze.xDim)
    let s ← s.exploreChecked cur 1
    let s ← s.exploreChecked cur (2 * s.maze.xDim)
    let s ← s.exploreChecked cur (-1)
    return (s, true)

/-- `mark_maze_area` with checks -/
def markMazeAreaChecked (m : Maze) (x y : ℤ) (fuel : ℕ) : Except Stop (Maze × ℤ) := do
  let maze ← m.modifyCell x y (· ||| mazeReach)
  let s ← doWhileChecked Search.nextChecked fuel ⟨maze, [m.index x y], 1⟩
  return (s.maze, s.qEnd)

/-- `Worm.weight` with checks -/
def Worm.weightChecked (w : Worm) : ℕ → Except Stop ℕ
  | 0 => if w.y > 1 then do
      return turnWt w.prefDir ((← w.maze.loadCell w.x (w.y - 2)) == mazeWall) else return 0
  | 1 => if w.x < w.maze.xDim * 2 - 1 then do
      return turnWt ((w.prefDir + 3) % 4) ((← w.maze.loadCell (w.x + 2) w.y) == mazeWall)
      else return 0
  | 2 => if w.y < w.maze.yDim * 2 - 1 then do
      return turnWt ((w.prefDir + 2) % 4) ((← w.maze.loadCell w.x (w.y + 2)) == mazeWall)
      else return 0
  | _ => if w.x > 1 then do
      return turnWt ((w.prefDir + 1) % 4) ((← w.maze.loadCell (w.x - 2) w.y) == mazeWall)
      else return 0

/-- `Worm.move` with checks -/
def Worm.moveChecked (w : Worm) (dir : ℕ) : Except Stop Worm := do
  let (dx, dy) := wormStep dir
  let maze ← w.maze.modifyCell (w.x + dx) (w.y + dy) fun _ ↦ mazeNone
  let x := w.x + 2 * dx
  let y := w.y + 2 * dy
  let value ← maze.loadCell x y
  let eaten ← maze.modifyCell x y fun _ ↦ mazeNone
  return { w with
    maze := eaten
    x := x
    y := y
    prefDir := dir
    remaining := if value = mazeWall then w.remaining - 1 else w.remaining }

/-- `Worm.next` with checks. Each weight is computed once. -/
def Worm.nextChecked (w : Worm) : Except Stop (Worm × Bool) := do
  let up ← w.weightChecked 0
  let right ← w.weightChecked 1
  let down ← w.weightChecked 2
  let left ← w.weightChecked 3
  let (value, tape) := w.tape.draw
  let pick := value % (up + right + down + left)
  let dir := if pick < up then 0 else if pick < up + right then 1
    else if pick < up + right + down then 2 else 3
  let w := { w with tape := tape }
  if (dir + 4 - w.prefDir) % 4 = 2 then return (w, false) else return (← w.moveChecked dir, true)

/-- `Worm.drop` with checks -/
def Worm.dropChecked (fuel : ℕ) (w : Worm) : Except Stop (Worm × Bool) := do
  let (x, y, tape) ← w.maze.pickPointChecked (fun value ↦ !hasBit value mazeWall) fuel w.tape
  let maze ← w.maze.modifyCell x y fun _ ↦ mazeNone
  let (value, tape) := tape.draw
  let w ← doWhileChecked Worm.nextChecked fuel
    { maze := maze
      tape := tape
      x := x
      y := y
      prefDir := value % 4
      remaining := w.remaining - 1 }
  return (w, decide (w.remaining > 0))

/-- The test of a mark, which is made only if the lattice point is inside the maze. -/
def reachedChecked (m : Maze) (inside : Prop) [Decidable inside] (i : ℤ) : Except Stop Bool :=
  if inside then do return hasBit (← m.load i) mazeReach else return false

/-- `Connect.wallToRemove` with checks -/
def Connect.wallToRemoveChecked (c : Connect) : Except Stop (Option ℤ) := do
  let cur := c.maze.index c.x c.y
  if ← c.maze.reachedChecked (c.y > 1) (cur - 4 * c.maze.xDim) then
    return some (cur - 2 * c.maze.xDim)
  else if ← c.maze.reachedChecked (c.x > 1) (cur - 2) then return some (cur - 1)
  else if ← c.maze.reachedChecked (c.x < 2 * c.maze.xDim - 1) (cur + 2) then
    return some (cur + 1)
  else if ← c.maze.reachedChecked (c.y < 2 * c.maze.yDim - 1) (cur + 4 * c.maze.xDim) then
    return some (cur + 2 * c.maze.xDim)
  else return none

/-- `Connect.join` with checks -/
def Connect.joinChecked (c : Connect) (fuel : ℕ) : Except Stop (Connect × Bool) := do
  match ← c.wallToRemoveChecked with
  | none => return (c, decide (c.remaining > 0))
  | some wall =>
    let maze ← c.maze.modify wall fun _ ↦ mazeNone
    let (maze, marked) ← maze.markMazeAreaChecked c.x c.y fuel
    return ({ c with maze := maze, remaining := c.remaining - marked },
      decide (c.remaining - marked > 0))

/-- `Connect.next` with checks -/
def Connect.nextChecked (fuel : ℕ) (c : Connect) : Except Stop (Connect × Bool) :=
  let scanning := c.remaining < 20 ∨ c.trials + 1 > 100
  let c := if c.remaining < 20 then c else { c with trials := c.trials + 1 }
  if scanning then do
    let c := c.scan
    let value ← c.maze.loadCell c.x c.y
    if hasBit value mazeReach then return (c, decide (c.remaining > 0)) else c.joinChecked fuel
  else do
    let (x, y, tape) ← c.maze.pickPointChecked (fun value ↦ hasBit value mazeReach) fuel c.tape
    { c with x := x, y := y, tape := tape }.joinChecked fuel

/-- `mapColumn` with checks -/
def mapColumnChecked (f : UInt8 → UInt8) (x : ℤ) (y : ℕ → ℤ) (m : Maze) : ℕ → Except Stop Maze
  | 0 => return m
  | j + 1 => do
    let m ← mapColumnChecked f x y m j
    m.modifyCell x (y j) f

/-- `mapCells` with checks -/
def mapCellsChecked (f : UInt8 → UInt8) (x y : ℕ → ℤ) (rows : ℕ) (m : Maze) :
    ℕ → Except Stop Maze
  | 0 => return m
  | i + 1 => do
    let m ← mapCellsChecked f x y rows m i
    mapColumnChecked f (x i) y m rows

/-- `clearReach` with checks -/
def clearReachChecked (m : Maze) : Except Stop Maze :=
  mapCellsChecked (fun value ↦ value &&& ~~~mazeReach) (fun i ↦ 2 * i + 1) (fun j ↦ 2 * j + 1)
    m.yDim.toNat m m.xDim.toNat

/-- `clearWalls` with checks -/
def clearWallsChecked (m : Maze) : Except Stop Maze :=
  mapCellsChecked (fun _ ↦ mazeNone) (fun i ↦ i + 1) (fun j ↦ j + 1)
    (2 * m.yDim - 1).toNat m (2 * m.xDim - 1).toNat

/-- `add_a_fruit_internal` with checks -/
def addAFruitInternalChecked (m : Maze) (fuel : ℕ) (tape : Tape) : Except Stop (Maze × Tape) := do
  let (x, y, tape) ← m.pickPointChecked (fun value ↦ hasBit value mazeFruit) fuel tape
  let (value, tape) := tape.draw
  let fruit := (value % numFruitTypes + 1).toUInt8 * mazeFruit1
  let maze ← m.modifyCell x y (· ||| fruit)
  return ({ maze with nFruits := m.nFruits + 1 }, tape)

/-- `addFruits` with checks -/
def addFruitsChecked (fuel : ℕ) : ℕ → Maze × Tape → Except Stop (Maze × Tape)
  | 0, s => return s
  | count + 1, s => do addFruitsChecked fuel count (← s.1.addAFruitInternalChecked fuel s.2)

/-- `placeExit` with checks -/
def placeExitChecked (m : Maze) (fuel : ℕ) (tape : Tape) : Except Stop Maze := do
  let (x, y, _) ← m.pickPointChecked (fun value ↦ hasBit value mazeFruit) fuel tape
  let maze ← m.modifyCell x y (· ||| mazeExit)
  return { maze with exitX := x, exitY := y }

/-- `make_maze` with checks -/
def makeMazeChecked (m : Maze) (xDim yDim startFruits : ℤ) (fuel : ℕ) (tape : Tape) :
    Except Stop (ℤ × Maze) :=
  if xDim < mazeMinXDim ∨ xDim > mazeMaxXDim ∨ yDim < mazeMinYDim ∨ yDim > mazeMaxYDim then
    return (-1, m)
  else do
    let m := { m with xDim := xDim, yDim := yDim, cells := fun _ ↦ mazeWall }
    let w ← doWhileChecked (Worm.dropChecked fuel) fuel ⟨m, tape, 0, 0, 0, xDim * yDim⟩
    let (m, marked) ← w.maze.markMazeAreaChecked 1 1 fuel
    let c ← doWhileChecked (Connect.nextChecked fuel) fuel
      ⟨m, w.tape, w.x, w.y, xDim * yDim - marked, 0⟩
    let m ← c.maze.clearReachChecked
    let m ← m.clearWallsChecked
    let (m, tape) ← addFruitsChecked fuel startFruits.toNat ({ m with nFruits := 0 }, c.tape)
    let m ← m.placeExitChecked fuel tape
    return (0, m)

/-! ### Indices -/

variable {m : Maze} {xDim yDim x y : ℤ} {p q : ℤ × ℤ}

/-- The sizes that `make_maze` accepts. -/
structure Accepted (xDim yDim : ℤ) : Prop where
  width : mazeMinXDim ≤ xDim ∧ xDim ≤ mazeMaxXDim
  height : mazeMinYDim ≤ yDim ∧ yDim ≤ mazeMaxYDim

theorem Accepted.bounds (h : Accepted xDim yDim) :
    (14 ≤ xDim ∧ xDim ≤ 50) ∧ 8 ≤ yDim ∧ yDim ≤ 30 :=
  ⟨h.width, h.height⟩

theorem accepted_of_makeMaze {m' : Maze} {startFruits : ℤ} {fuel : ℕ} {tape : Tape}
    (h : m.makeMaze xDim yDim startFruits fuel tape = some (0, m')) : Accepted xDim yDim := by
  unfold makeMaze at h
  split_ifs at h with hsize
  · simp at h
  · exact ⟨by omega, by omega⟩

/-- In the columns of the maze there is a row above it and one below it. -/
theorem inArray_of_column (h : Accepted m.xDim m.yDim) (hx : 0 ≤ x ∧ x ≤ 2 * m.xDim)
    (hy : -1 ≤ y ∧ y ≤ 2 * m.yDim + 1) : InArray (m.index x y) := by
  obtain ⟨⟨hwidth, hwidth'⟩, -, hheight⟩ := h.bounds
  have hsize : mazeSize = 6301 := rfl
  have hlow : 0 ≤ (y + 1) * m.xDim := mul_nonneg (by omega) (by omega)
  have hhigh : (y + 1) * m.xDim ≤ 62 * 50 := mul_le_mul (by omega) hwidth' (by omega) (by omega)
  rw [InArray, index, hsize]
  omega

theorem inArray_of_eq {i : ℤ} (h : Accepted m.xDim m.yDim) (heq : i = m.index x y)
    (hx : 0 ≤ x ∧ x ≤ 2 * m.xDim) (hy : 0 ≤ y ∧ y ≤ 2 * m.yDim) : InArray i := by
  rw [heq]
  exact inArray_of_column h hx (by omega)

/-- In the rows of the maze there is an element to its left and one to its right. -/
theorem inArray_of_row (h : Accepted m.xDim m.yDim) (hx : -1 ≤ x ∧ x ≤ 2 * m.xDim + 1)
    (hy : 0 ≤ y ∧ y ≤ 2 * m.yDim) : InArray (m.index x y) := by
  obtain ⟨⟨hwidth, hwidth'⟩, -, hheight⟩ := h.bounds
  have hsize : mazeSize = 6301 := rfl
  have hlow : 1 * 14 ≤ (y + 1) * m.xDim := mul_le_mul (by omega) hwidth (by omega) (by omega)
  have hhigh : (y + 1) * m.xDim ≤ 61 * 50 := mul_le_mul (by omega) hwidth' (by omega) (by omega)
  rw [InArray, index, hsize]
  omega

theorem Inside.inArray (hin : m.Inside x y) (h : Accepted m.xDim m.yDim) :
    InArray (m.index x y) := by
  obtain ⟨hx0, hx1, hy0, hy1⟩ := hin
  exact inArray_of_column h (by omega) (by omega)

theorem Dug.accepted (h : Dug xDim yDim m) (hsize : Accepted xDim yDim) :
    Accepted m.xDim m.yDim := by
  rw [h.xDim_eq, h.yDim_eq]
  exact hsize

theorem load_of {i : ℤ} (h : InArray i) : m.load i = .ok (m.cells i) := check_of h _

theorem modify_of {i : ℤ} (h : InArray i) (f : UInt8 → UInt8) :
    m.modify i f = .ok (m.setIndex i (f (m.cells i))) :=
  check_of h _

theorem loadCell_of (h : InArray (m.index x y)) : m.loadCell x y = .ok (m.cell x y) := load_of h

theorem modifyCell_of (h : InArray (m.index x y)) (f : UInt8 → UInt8) :
    m.modifyCell x y f = .ok (m.setCell x y (f (m.cell x y))) :=
  modify_of h f

/-! ### Drawing a point -/

theorem pickPointChecked_eq (h : Accepted m.xDim m.yDim) (again : UInt8 → Bool) (fuel : ℕ)
    (tape : Tape) :
    m.pickPointChecked again fuel tape = ofOption (m.pickPoint again fuel tape) := by
  obtain ⟨⟨hwidth, -⟩, hheight, -⟩ := h.bounds
  refine doWhileChecked_eq (fun _ ↦ True) (fun _ _ _ _ ↦ trivial) (fun s _ ↦ ?_) trivial fuel
  have hin : InArray (m.index ((s.2.2.draw.1 : ℤ) % m.xDim * 2 + 1)
      ((s.2.2.draw.2.draw.1 : ℤ) % m.yDim * 2 + 1)) := by
    have hx0 := Int.emod_nonneg (s.2.2.draw.1 : ℤ) (b := m.xDim) (by omega)
    have hx1 := Int.emod_lt_of_pos (s.2.2.draw.1 : ℤ) (b := m.xDim) (by omega)
    have hy0 := Int.emod_nonneg (s.2.2.draw.2.draw.1 : ℤ) (b := m.yDim) (by omega)
    have hy1 := Int.emod_lt_of_pos (s.2.2.draw.2.draw.1 : ℤ) (b := m.yDim) (by omega)
    exact inArray_of_column h (by omega) (by omega)
  simp only [loadCell_of hin, ok_bind]
  rfl

/-! ### The search -/

/-- The queue has room for each new room. -/
theorem Search.exploreChecked_eq (h : Dug xDim yDim m) (hsize : Accepted xDim yDim) {s : Search}
    {b : BreadthFirst (ℤ × ℤ)} (hs : s.Follows m b) (hcount : b.Counted m.rooms) (hp : p ∈ m.rooms)
    {offset : ℤ} (hq : m.Behind p q offset) :
    s.exploreChecked (m.roomIndex p) offset = .ok (s.explore (m.roomIndex p) offset) := by
  have haccepted := h.accepted hsize
  have hpassage : InArray (m.passage p q) := by
    have hadj := hq.adjacent
    rw [mem_rooms] at hp
    rw [mem_neighbours4] at hadj
    exact inArray_of_column haccepted (by omega) (by omega)
  rw [exploreChecked, explore, hq.passage_eq, hq.room_eq, load_of hpassage, ok_bind, hs.walls.wall]
  by_cases hopen : hasBit (m.cells (m.passage p q)) mazeWall = true
  · rw [if_pos hopen, hopen]
    rfl
  · have hroom : q ∈ m.rooms := h.bordered.openNeighbours_rooms hp
      (mem_openNeighbours.mpr ⟨hq.adjacent, (Bool.not_eq_true _).mp hopen⟩)
    have hindex : InArray (m.roomIndex q) := (oddPoint_room hroom).1.inArray haccepted
    rw [if_neg hopen, (Bool.not_eq_true _).mp hopen, load_of hindex, ok_bind]
    by_cases hmarked : hasBit (s.maze.cells (m.roomIndex q)) mazeReach = true
    · rw [if_pos hmarked, hmarked]
      rfl
    · have hlt := hcount.count_lt hroom (mt (hs.marked_iff hroom).mpr hmarked)
      have hcard := h.card_rooms hp
      have hnonneg := hcount.count_nonneg
      obtain ⟨⟨hwidth, hwidth'⟩, hheight, hheight'⟩ := hsize.bounds
      have hrooms : xDim * yDim ≤ 50 * 30 :=
        mul_le_mul hwidth' hheight' (by omega) (by omega)
      have hqueue : mazeMaxXDim * mazeMaxYDim = 1500 := rfl
      rw [if_neg hmarked, (Bool.not_eq_true _).mp hmarked, modify_of hindex, ok_bind, check_of]
      · rfl
      · rw [hs.count, hqueue]
        omega

theorem Search.nextChecked_eq (h : Dug xDim yDim m) (hsize : Accepted xDim yDim) {s : Search}
    {b : BreadthFirst (ℤ × ℤ)} (hs : s.Follows m b) (hcount : b.Counted m.rooms) :
    s.nextChecked = ofOption s.next := by
  cases hqueue : b.queue with
  | nil =>
    have hempty : s.queue = [] := by
      rw [hs.queue, hqueue]
      rfl
    unfold nextChecked next
    rw [hempty]
    rfl
  | cons cur rest =>
    obtain ⟨hhead, hcur, hpop⟩ := hs.pop hqueue
    obtain ⟨⟨hbehindUp, hbehindRight⟩, hbehindDown, hbehindLeft⟩ := m.behind_offsets cur
    have hvisit : ∀ {b' : BreadthFirst (ℤ × ℤ)} {q : ℤ × ℤ} {offset : ℤ}, b'.Counted m.rooms →
        m.Behind cur q offset → (if !hasBit (m.cells (m.passage cur q)) mazeWall then b'.visit q
          else b').Counted m.rooms := by
      intro b' q offset hb' hq
      split_ifs with hopen
      · exact hb'.visit (h.bordered.openNeighbours_rooms hcur
          (mem_openNeighbours.mpr ⟨hq.adjacent, by simpa using hopen⟩))
      · exact hb'
    have hcountPop : BreadthFirst.Counted m.rooms { b with queue := rest } :=
      ⟨hcount.marked_subset, hcount.count_nonneg, hcount.count_le⟩
    have hup := explore_follows h.bordered hpop hcur hbehindUp
    have hcountUp := hvisit hcountPop hbehindUp
    have hright := explore_follows h.bordered hup hcur hbehindRight
    have hcountRight := hvisit hcountUp hbehindRight
    have hdown := explore_follows h.bordered hright hcur hbehindDown
    have hcountDown := hvisit hcountRight hbehindDown
    unfold nextChecked next
    rw [hhead]
    simp only [hs.walls.xDim, exploreChecked_eq h hsize hpop hcountPop hcur hbehindUp, ok_bind,
      exploreChecked_eq h hsize hup hcountUp hcur hbehindRight, hright.walls.xDim,
      exploreChecked_eq h hsize hright hcountRight hcur hbehindDown,
      exploreChecked_eq h hsize hdown hcountDown hcur hbehindLeft]
    rfl

/-- The search and its queue after a round. -/
theorem Search.next_counted (h : Dug xDim yDim m) {s s' : Search} {b : BreadthFirst (ℤ × ℤ)}
    {again : Bool} (hs : s.Follows m b) (hcount : b.Counted m.rooms)
    (hnext : s.next = some (s', again)) :
    ∃ b' : BreadthFirst (ℤ × ℤ), s'.Follows m b' ∧ b'.Counted m.rooms := by
  have hround : ∃ b' again', BreadthFirst.explore m.openNeighbours b = some (b', again') ∧
      b'.Counted m.rooms := by
    unfold BreadthFirst.explore
    cases hqueue : b.queue with
    | nil => exact ⟨b, false, rfl, hcount⟩
    | cons cur rest =>
      obtain ⟨-, hcur, -⟩ := hs.pop hqueue
      have hpop : BreadthFirst.Counted m.rooms { b with queue := rest } :=
        ⟨hcount.marked_subset, hcount.count_nonneg, hcount.count_le⟩
      exact ⟨_, true, rfl, hpop.visits fun q hq ↦ h.bordered.openNeighbours_rooms hcur hq⟩
  obtain ⟨b', again', hexplore, hcount'⟩ := hround
  obtain ⟨s'', hnext', hs'⟩ := next_follows h.bordered hs hexplore
  obtain ⟨rfl, -⟩ := Prod.mk.inj (Option.some_inj.mp (hnext.symm.trans hnext'))
  exact ⟨b', hs', hcount'⟩

theorem markMazeAreaChecked_eq (h : Dug xDim yDim m) (hsize : Accepted xDim yDim)
    (hodd : m.OddPoint x y) (fuel : ℕ) :
    m.markMazeAreaChecked x y fuel = ofOption (m.markMazeArea x y fuel) := by
  obtain ⟨hroom, hx, hy⟩ := hodd.exists_room
  have hloop := doWhileChecked_eq
    (fun s ↦ ∃ b : BreadthFirst (ℤ × ℤ), s.Follows m b ∧ b.Counted m.rooms)
    (fun s s' ⟨b, hs, hcount⟩ hnext ↦ Search.next_counted h hs hcount hnext)
    (fun s ⟨b, hs, hcount⟩ ↦ Search.nextChecked_eq h hsize hs hcount)
    ⟨_, Search.follows_start hroom,
      BreadthFirst.counted_start hroom (roomsWith_subset m mazeReach)⟩ fuel
  have hstart : m.roomIndex (x / 2, y / 2) = m.index x y := by
    rw [roomIndex, ← hx, ← hy]
  rw [hstart] at hloop
  rw [markMazeAreaChecked, markMazeArea, modifyCell, modify_of (hodd.1.inArray (h.accepted hsize)),
    ok_bind, hloop]
  cases doWhile Search.next fuel _ with
  | none => rfl
  | some s => rfl

/-! ### The worms -/

theorem Worm.weightChecked_eq {w : Worm} (hodd : w.maze.OddPoint w.x w.y)
    (h : Accepted w.maze.xDim w.maze.yDim) {dir : ℕ} (hdir : dir ≤ 3) :
    w.weightChecked dir = .ok (w.weight dir) := by
  obtain ⟨⟨hx0, hx1, hy0, hy1⟩, -⟩ := hodd
  match dir with
  | 0 | 1 | 2 | 3 =>
    simp only [weightChecked, weight]
    split_ifs
    · rw [loadCell_of (inArray_of_column h (by omega) (by omega))]
      rfl
    · rfl

theorem Worm.moveChecked_eq {w : Worm} (h : w.Digs xDim yDim) (hsize : Accepted xDim yDim)
    {dir : ℕ} (hdir : dir ≤ 3) (hpos : 0 < w.weight dir) :
    w.moveChecked dir = .ok (w.move dir) := by
  obtain ⟨hbetween, hodd⟩ := weight_inside h.odd hdir hpos
  have haccepted := h.dug.accepted hsize
  rw [moveChecked, move]
  generalize wormStep dir = way at hbetween hodd
  obtain ⟨dx, dy⟩ := way
  simp only [modifyCell_of (hbetween.inArray haccepted), ok_bind]
  have hindex := hodd.1.inArray haccepted
  rw [loadCell_of (by exact hindex), ok_bind, modifyCell_of (by exact hindex)]
  rfl

theorem Worm.nextChecked_eq {w : Worm} (h : w.Digs xDim yDim) (hsize : Accepted xDim yDim) :
    w.nextChecked = ofOption w.next := by
  have haccepted := h.dug.accepted hsize
  obtain ⟨-, hheight, -⟩ := hsize.bounds
  have hpos : 0 < w.wt 3 := wt_pos (by rw [h.dug.yDim_eq]; omega)
  obtain ⟨hdir, hweight⟩ := pickDir_weight (Nat.mod_lt w.tape.draw.1 hpos)
  have hmove := moveChecked_eq (w := { w with tape := w.tape.draw.2 }) ⟨h.dug, h.odd⟩ hsize
    hdir hweight
  rw [nextChecked, next]
  simp only [weightChecked_eq h.odd haccepted (show 0 ≤ 3 by decide),
    weightChecked_eq h.odd haccepted (show 1 ≤ 3 by decide),
    weightChecked_eq h.odd haccepted (show 2 ≤ 3 by decide),
    weightChecked_eq h.odd haccepted le_rfl, ok_bind]
  change (if (w.pickDir (w.tape.draw.1 % w.wt 3) + 4 - w.prefDir) % 4 = 2 then _ else
    moveChecked _ (w.pickDir (w.tape.draw.1 % w.wt 3)) >>= _) = _
  rw [hmove]
  split_ifs <;> rfl

theorem Worm.dropChecked_eq {w : Worm} (h : Dug xDim yDim w.maze) (hsize : Accepted xDim yDim)
    (fuel : ℕ) : w.dropChecked fuel = ofOption (w.drop fuel) := by
  have haccepted := h.accepted hsize
  obtain ⟨⟨hwidth, -⟩, hheight, -⟩ := hsize.bounds
  refine bind_eq_ofOption (pickPointChecked_eq haccepted _ fuel w.tape) fun point hpick ↦ ?_
  obtain ⟨x, y, tape⟩ := point
  obtain ⟨hodd, -⟩ := pickPoint_odd (by rw [h.xDim_eq]; omega) (by rw [h.yDim_eq]; omega) hpick
  simp only [modifyCell_of (hodd.1.inArray haccepted), ok_bind]
  refine bind_eq_ofOption (doWhileChecked_eq (Worm.Digs xDim yDim)
    (fun _ _ hw hnext ↦ next_digs (by omega) hw hnext) (fun _ hw ↦ nextChecked_eq hw hsize)
    ⟨h.setCell hodd.1, hodd⟩ fuel) fun worm _ ↦ rfl

/-! ### Connecting the rooms -/

theorem reachedChecked_eq {inside : Prop} [Decidable inside] {i : ℤ}
    (h : inside → InArray i) :
    m.reachedChecked inside i = .ok (decide (inside ∧ hasBit (m.cells i) mazeReach = true)) := by
  unfold reachedChecked
  by_cases hinside : inside
  · rw [if_pos hinside, load_of (h hinside), ok_bind]
    simp only [hinside, true_and, Bool.decide_eq_true]
    rfl
  · rw [if_neg hinside]
    simp only [hinside, false_and, decide_false]
    rfl

theorem Connect.wallToRemoveChecked_eq {c : Connect} (h : c.Digs xDim yDim)
    (hsize : Accepted xDim yDim) : c.wallToRemoveChecked = .ok c.wallToRemove := by
  obtain ⟨⟨hx0, hx1, hy0, hy1⟩, -⟩ := h.odd
  have haccepted := h.dug.accepted hsize
  have hup : c.y > 1 → InArray (c.maze.index c.x c.y - 4 * c.maze.xDim) := fun hguard ↦
    inArray_of_eq haccepted (x := c.x) (y := c.y - 2) (by rw [index, index]; ring) (by omega)
      (by omega)
  have hleft : c.x > 1 → InArray (c.maze.index c.x c.y - 2) := fun hguard ↦
    inArray_of_eq haccepted (x := c.x - 2) (y := c.y) (by rw [index, index]; ring) (by omega)
      (by omega)
  have hright : c.x < 2 * c.maze.xDim - 1 → InArray (c.maze.index c.x c.y + 2) := fun hguard ↦
    inArray_of_eq haccepted (x := c.x + 2) (y := c.y) (by rw [index, index]; ring) (by omega)
      (by omega)
  have hdown : c.y < 2 * c.maze.yDim - 1 →
      InArray (c.maze.index c.x c.y + 4 * c.maze.xDim) := fun hguard ↦
    inArray_of_eq haccepted (x := c.x) (y := c.y + 2) (by rw [index, index]; ring) (by omega)
      (by omega)
  simp only [wallToRemoveChecked, wallToRemove, reachedChecked_eq hup, reachedChecked_eq hleft,
    reachedChecked_eq hright, reachedChecked_eq hdown, ok_bind, decide_eq_true_eq]
  split_ifs <;> rfl

theorem Connect.joinChecked_eq {c : Connect} (h : c.Digs xDim yDim) (hsize : Accepted xDim yDim)
    (fuel : ℕ) : c.joinChecked fuel = ofOption (c.join fuel) := by
  rw [joinChecked, wallToRemoveChecked_eq h hsize, ok_bind, join]
  cases hwall : c.wallToRemove with
  | none => rfl
  | some wall =>
    obtain ⟨x, y, hin, rfl⟩ := wallToRemove_inside h.odd hwall
    have hdug : Dug xDim yDim (c.maze.setCell x y mazeNone) := h.dug.setCell hin
    have hmark := markMazeAreaChecked_eq hdug hsize h.odd fuel
    simp only [modify_of (hin.inArray (h.dug.accepted hsize)), ok_bind]
    change (markMazeAreaChecked (c.maze.setCell x y mazeNone) _ _ _ >>= _) = ofOption
      (Option.map _ (markMazeArea (c.maze.setCell x y mazeNone) _ _ _))
    rw [hmark]
    cases markMazeArea (c.maze.setCell x y mazeNone) c.x c.y fuel with
    | none => rfl
    | some result => rfl

theorem Connect.nextChecked_eq {c : Connect} (h : c.Digs xDim yDim) (hsize : Accepted xDim yDim)
    (fuel : ℕ) : c.nextChecked fuel = ofOption (c.next fuel) := by
  obtain ⟨⟨hwidth, -⟩, hheight, -⟩ := hsize.bounds
  have htried := h.tried
  simp only [nextChecked, next]
  generalize (if c.remaining < 20 then c else { c with trials := c.trials + 1 }) = d at htried ⊢
  have haccepted := htried.dug.accepted hsize
  by_cases hscan : c.remaining < 20 ∨ c.trials + 1 > 100
  · have hscanned := scan_digs htried
    rw [if_pos hscan, if_pos hscan,
      loadCell_of (hscanned.odd.1.inArray (hscanned.dug.accepted hsize)), ok_bind]
    split_ifs
    · rfl
    · exact joinChecked_eq hscanned hsize fuel
  · rw [if_neg hscan, if_neg hscan]
    refine bind_eq_ofOption (pickPointChecked_eq haccepted _ fuel d.tape) fun point hpick ↦ ?_
    obtain ⟨x, y, tape⟩ := point
    have hodd := (pickPoint_odd (by rw [htried.dug.xDim_eq]; omega)
      (by rw [htried.dug.yDim_eq]; omega) hpick).1
    exact joinChecked_eq (c := { d with x := x, y := y, tape := tape }) ⟨htried.dug, hodd⟩ hsize
      fuel

/-! ### The rest of `make_maze` -/

theorem mapColumn_index (f : UInt8 → UInt8) (x : ℤ) (y : ℕ → ℤ) (m : Maze) (rows : ℕ) (a b : ℤ) :
    (mapColumn f x y m rows).index a b = m.index a b := by
  induction rows with
  | zero => rfl
  | succ rows ih => exact ih

theorem mapCells_index (f : UInt8 → UInt8) (x y : ℕ → ℤ) (rows : ℕ) (m : Maze) (columns : ℕ)
    (a b : ℤ) : (mapCells f x y rows m columns).index a b = m.index a b := by
  induction columns with
  | zero => rfl
  | succ columns ih => exact (mapColumn_index f _ y _ rows a b).trans ih

theorem mapColumnChecked_eq {f : UInt8 → UInt8} {y : ℕ → ℤ} {rows : ℕ}
    (h : ∀ j < rows, InArray (m.index x (y j))) :
    mapColumnChecked f x y m rows = .ok (mapColumn f x y m rows) := by
  induction rows with
  | zero => rfl
  | succ rows ih =>
    rw [mapColumnChecked, ih fun j hj ↦ h j (by omega), ok_bind, modifyCell_of]
    · rfl
    · rw [mapColumn_index]
      exact h rows (by omega)

theorem mapCellsChecked_eq {f : UInt8 → UInt8} {x y : ℕ → ℤ} {rows columns : ℕ}
    (h : ∀ i < columns, ∀ j < rows, InArray (m.index (x i) (y j))) :
    mapCellsChecked f x y rows m columns = .ok (mapCells f x y rows m columns) := by
  induction columns with
  | zero => rfl
  | succ columns ih =>
    rw [mapCellsChecked, ih fun i hi ↦ h i (by omega), ok_bind, mapColumnChecked_eq]
    · rfl
    · intro j hj
      rw [mapCells_index]
      exact h columns (by omega) j hj

theorem clearReachChecked_eq (h : Accepted m.xDim m.yDim) :
    m.clearReachChecked = .ok m.clearReach :=
  mapCellsChecked_eq fun _ _ _ _ ↦ inArray_of_column h (by omega) (by omega)

theorem clearWallsChecked_eq (h : Accepted m.xDim m.yDim) :
    m.clearWallsChecked = .ok m.clearWalls :=
  mapCellsChecked_eq fun _ _ _ _ ↦ inArray_of_column h (by omega) (by omega)

theorem inArray_of_pickPoint (h : Accepted m.xDim m.yDim) {again : UInt8 → Bool} {fuel : ℕ}
    {tape tape' : Tape} (hpick : m.pickPoint again fuel tape = some (x, y, tape')) :
    InArray (m.index x y) := by
  obtain ⟨⟨hwidth, -⟩, hheight, -⟩ := h.bounds
  exact (pickPoint_odd (by omega) (by omega) hpick).1.1.inArray h

theorem addAFruitInternalChecked_eq (h : Accepted m.xDim m.yDim) (fuel : ℕ) (tape : Tape) :
    m.addAFruitInternalChecked fuel tape = ofOption (m.addAFruitInternal fuel tape) := by
  refine bind_eq_ofOption (pickPointChecked_eq h _ fuel tape) fun point hpick ↦ ?_
  simp only [modifyCell_of (inArray_of_pickPoint h hpick), ok_bind]
  rfl

theorem addFruitsChecked_eq (h : Accepted m.xDim m.yDim) (fuel count : ℕ) (tape : Tape) :
    addFruitsChecked fuel count (m, tape) = ofOption (addFruits fuel count (m, tape)) ∧
      ∀ m' tape', addFruits fuel count (m, tape) = some (m', tape') →
        Accepted m'.xDim m'.yDim := by
  induction count generalizing m tape with
  | zero =>
    refine ⟨rfl, fun m' tape' hadd ↦ ?_⟩
    cases hadd
    exact h
  | succ count ih =>
    have hnext : ∀ s, m.addAFruitInternal fuel tape = some s → Accepted s.1.xDim s.1.yDim := by
      intro s hadd
      simp only [addAFruitInternal, Option.bind_eq_bind, Option.bind_eq_some_iff, Prod.exists,
        Option.some.injEq] at hadd
      obtain ⟨x, y, drawn, -, rfl⟩ := hadd
      exact h
    constructor
    · exact bind_eq_ofOption (addAFruitInternalChecked_eq h fuel tape) fun s hadd ↦
        (ih (hnext s hadd) s.2).1
    · intro m' tape' hadd
      simp only [addFruits, Option.bind_eq_bind, Option.bind_eq_some_iff] at hadd
      obtain ⟨s, hfirst, hrest⟩ := hadd
      exact (ih (hnext s hfirst) s.2).2 m' tape' hrest

theorem placeExitChecked_eq (h : Accepted m.xDim m.yDim) (fuel : ℕ) (tape : Tape) :
    m.placeExitChecked fuel tape = ofOption (m.placeExit fuel tape) := by
  refine bind_eq_ofOption (pickPointChecked_eq h _ fuel tape) fun point hpick ↦ ?_
  simp only [modifyCell_of (inArray_of_pickPoint h hpick), ok_bind]
  rfl

/-- `make_maze` stays inside of `maze`, and its searches inside of their queue. -/
theorem makeMazeChecked_eq (m : Maze) (xDim yDim startFruits : ℤ) (fuel : ℕ) (tape : Tape) :
    m.makeMazeChecked xDim yDim startFruits fuel tape =
      ofOption (m.makeMaze xDim yDim startFruits fuel tape) := by
  unfold makeMazeChecked makeMaze
  by_cases hrejected : xDim < mazeMinXDim ∨ xDim > mazeMaxXDim ∨ yDim < mazeMinYDim ∨
      yDim > mazeMaxYDim
  · rw [if_pos hrejected, if_pos hrejected]
    rfl
  rw [if_neg hrejected, if_neg hrejected]
  have hsize : Accepted xDim yDim := ⟨by omega, by omega⟩
  obtain ⟨⟨hwidth, -⟩, hheight, -⟩ := hsize.bounds
  -- the worms
  refine bind_eq_ofOption (doWhileChecked_eq (fun w : Worm ↦ Dug xDim yDim w.maze)
    (fun _ _ hdug hnext ↦ (Worm.drop_digs (by omega) (by omega) hdug hnext).dug)
    (fun _ hdug ↦ Worm.dropChecked_eq hdug hsize fuel)
    (m.firstWorm_digging (by omega) (by omega) tape).dug fuel) fun w hworms ↦ ?_
  have hw : w.Digs xDim yDim := (wormPhase_spec (by omega) (by omega) hworms).digs
  -- the first search
  have hfirst : w.maze.OddPoint 1 1 :=
    oddPoint_room (hw.dug.first_mem_rooms (by omega) (by omega))
  refine bind_eq_ofOption (markMazeAreaChecked_eq hw.dug hsize hfirst fuel) fun result hmark ↦ ?_
  obtain ⟨marked, count⟩ := result
  have hmarked : Dug xDim yDim marked := markMazeArea_dug hw.dug hmark
  have hodd : marked.OddPoint w.x w.y := hw.dug.oddPoint hmarked hw.odd
  -- the second phase
  refine bind_eq_ofOption (doWhileChecked_eq (Connect.Digs xDim yDim)
    (fun _ _ hc hnext ↦ Connect.next_digs (by omega) (by omega) hc hnext)
    (fun _ hc ↦ Connect.nextChecked_eq hc hsize fuel) ⟨hmarked, hodd⟩ fuel) fun c hconnected ↦ ?_
  have hc : c.Digs xDim yDim := doWhile_invariant (Connect.Digs xDim yDim)
    (fun _ _ _ hc hnext ↦ Connect.next_digs (by omega) (by omega) hc hnext) ⟨hmarked, hodd⟩
    hconnected
  have hreach := clearReach_dug hc.dug
  rw [clearReachChecked_eq (hc.dug.accepted hsize), ok_bind,
    clearWallsChecked_eq (hreach.accepted hsize), ok_bind]
  -- the fruits and the exit
  have hfruits := addFruitsChecked_eq
    (m := { c.maze.clearReach.clearWalls with nFruits := 0 })
    ((clearWalls_dug hreach).accepted hsize) fuel startFruits.toNat c.tape
  refine bind_eq_ofOption hfruits.1 fun s hadd ↦ ?_
  exact bind_eq_ofOption (placeExitChecked_eq (hfruits.2 s.1 s.2 hadd) fuel s.2) fun _ _ ↦ rfl

end Maze

end Sp18.MazeGame
