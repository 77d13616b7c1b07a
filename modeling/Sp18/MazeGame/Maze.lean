import Sp18.Foundation.ByteMemory
import Mathlib.Data.UInt
import Mathlib.Tactic.Linarith

/-!
# The maze

The data of `maze.c` and the functions that only read it. The array has one byte for each lattice
point of the maze. Its left and right boundaries are the same: the index of `(2 * xDim, y)` is that
of `(0, y + 1)`. Block images are numbered as in `blocks.h`, and their pixels are an argument, row
after row.
-/

set_option autoImplicit false
set_option relaxedAutoImplicit false

namespace Sp18.MazeGame

open Foundation

/-- `BLOCK_X_DIM` and `BLOCK_Y_DIM` -/
def blockDim : ℤ := 12

/-- `SCROLL_X_DIM` -/
def scrollXDim : ℤ := 320

/-- `SCROLL_Y_DIM` -/
def scrollYDim : ℤ := 182

/-- `SHOW_MIN` -/
def showMin : ℤ := 6

/-- `MAZE_MIN_X_DIM` -/
def mazeMinXDim : ℤ := (scrollXDim + (blockDim - 1) + 2 * showMin) / (2 * blockDim)

/-- `MAZE_MAX_X_DIM` -/
def mazeMaxXDim : ℤ := 50

/-- `MAZE_MIN_Y_DIM` -/
def mazeMinYDim : ℤ := (scrollYDim + (blockDim - 1) + 2 * showMin) / (2 * blockDim)

/-- `MAZE_MAX_Y_DIM` -/
def mazeMaxYDim : ℤ := 30

/-- `MAZE_NONE` -/
def mazeNone : UInt8 := 0

/-- `MAZE_WALL` -/
def mazeWall : UInt8 := 1

/-- `MAZE_FRUIT_1` -/
def mazeFruit1 : UInt8 := 2

/-- `MAZE_FRUIT` -/
def mazeFruit : UInt8 := 14

/-- `MAZE_EXIT` -/
def mazeExit : UInt8 := 16

/-- `MAZE_REACH` -/
def mazeReach : UInt8 := 128

/-- `NUM_FRUIT_TYPES` -/
def numFruitTypes : ℕ := 7

/-- `BLOCK_EMPTY` -/
def blockEmpty : ℕ := 16

/-- `BLOCK_SHADOW` -/
def blockShadow : ℕ := 17

/-- `BLOCK_PLAYER_UP` -/
def blockPlayerUp : ℕ := 18

/-- `BLOCK_PLAYER_MASK_UP` -/
def blockPlayerMaskUp : ℕ := 22

/-- `BLOCK_FRUIT_1` -/
def blockFruit1 : ℕ := 26

/-- `BLOCK_FRUIT_SHADOW` -/
def blockFruitShadow : ℕ := 33

/-- `BLOCK_EXIT` -/
def blockExit : ℕ := 34

/-- `dir_t` -/
inductive Dir where
  | up
  | right
  | down
  | left
  | stop
  deriving DecidableEq

/-- The value of a direction in the enumeration. -/
def Dir.toNat : Dir → ℕ
  | .up => 0
  | .right => 1
  | .down => 2
  | .left => 3
  | .stop => 4

/-- The array `maze` and the variables of `maze.c`. -/
structure Maze where
  cells : ℤ → UInt8
  xDim : ℤ
  yDim : ℤ
  nFruits : ℤ
  exitX : ℤ
  exitY : ℤ

/-- A pointer to a block image: the byte at `i` stands at `blk[i]`. -/
abbrev Image : Type := ℤ → UInt8

namespace Maze

/-- `MAZE_INDEX` -/
def index (m : Maze) (a b : ℤ) : ℤ := a + (b + 1) * m.xDim * 2

/-- `maze[MAZE_INDEX(x, y)]` -/
def cell (m : Maze) (x y : ℤ) : UInt8 := m.cells (m.index x y)

/-- Assignment to an element of `maze`. -/
def setIndex (m : Maze) (i : ℤ) (value : UInt8) : Maze :=
  { m with cells := Function.update m.cells i value }

/-- Assignment to `maze[MAZE_INDEX(x, y)]`. -/
def setCell (m : Maze) (x y : ℤ) (value : UInt8) : Maze := m.setIndex (m.index x y) value

/-- The test of a bit of an element of `maze`. -/
def hasBit (value mask : UInt8) : Bool := value &&& mask != 0

/-- `(maze[MAZE_INDEX(x, y)] & MAZE_WALL) != 0` -/
def wall (m : Maze) (x y : ℤ) : Bool := hasBit (m.cell x y) mazeWall

/-- The number of the fruit in an element of `maze`. -/
def fruitNumber (value : UInt8) : ℕ := (value &&& mazeFruit).toNat / mazeFruit1.toNat

/-- `find_block`: the number of the image. -/
def findBlock (m : Maze) (x y : ℤ) : ℕ :=
  let fnum := fruitNumber (m.cell x y)
  if m.nFruits = 0 ∧ hasBit (m.cell x y) mazeExit then blockExit
  else if !hasBit (m.cell x y) mazeReach then
    if fnum ≠ 0 then blockFruitShadow else blockShadow
  else if fnum ≠ 0 then blockFruit1 + fnum - 1
  else if !m.wall x y then blockEmpty
  else (m.wall x (y - 1)).toNat + 2 * (m.wall (x + 1) y).toNat + 4 * (m.wall x (y + 1)).toNat +
    8 * (m.wall (x - 1) y).toNat

/-- `get_player_block`: the number of the image. -/
def getPlayerBlock (curDir : Dir) : ℕ := blockPlayerUp + curDir.toNat

/-- `get_player_mask`: the number of the image. -/
def getPlayerMask (curDir : Dir) : ℕ := blockPlayerMaskUp + curDir.toNat

/-- `find_open_directions`. The element of the array behind the last direction, which the caller
reads for `DIR_STOP`, is an argument. -/
def findOpenDirections (m : Maze) (x y : ℤ) (behind : Bool) : Dir → Bool
  | .up => !m.wall x (y - 1)
  | .right => !m.wall (x + 1) y
  | .down => !m.wall x (y + 1)
  | .left => !m.wall (x - 1) y
  | .stop => behind

/-- `check_for_win` -/
def checkForWin (m : Maze) (x y : ℤ) : Bool :=
  if x < 0 ∨ x ≥ 2 * m.xDim ∨ y < 0 ∨ y ≥ 2 * m.yDim then false
  else decide (m.nFruits = 0) && hasBit (m.cell x y) mazeExit

/-- The loop that `fill_horiz_buffer` and `fill_vert_buffer` make over the blocks of a line of `dim`
pixels, with `idx` pixels filled. The next block is number `map` of the line, and its image
starts at position `sub`; the pixels of block `b` that the line passes are `pixel b`. -/
def fillLoop (dim : ℕ) (pixel : ℤ → ℕ → UInt8) (buf : ℕ → UInt8) (idx : ℕ) (map : ℤ) (sub : ℕ) :
    ℕ → ℕ → UInt8
  | 0 => buf
  | rounds + 1 =>
    if idx < dim then
      -- the inner loop runs to the end of the block or of the line
      let count := min (12 - sub) (dim - idx)
      fillLoop dim pixel (writeSeq (fun i ↦ idx + i) (fun i ↦ pixel map (sub + i)) buf count)
        (idx + count) (map + 1) 0 rounds
    else buf

section Images

variable (blocks : ℕ → Image)

/-- `fill_horiz_buffer`, on a buffer whose memory has not been written before. -/
def fillHorizBuffer (m : Maze) (x y : ℤ) (buf : ℕ → UInt8) : ℕ → UInt8 :=
  let mapX := x.tdiv blockDim
  let mapY := y.tdiv blockDim
  let subX := x - mapX * blockDim
  let subY := y - mapY * blockDim
  fillLoop scrollXDim.toNat
    (fun map i ↦ blocks (m.findBlock map mapY) (subY * blockDim + i)) buf 0 mapX subX.toNat
    scrollXDim.toNat

/-- `fill_vert_buffer`, on a buffer whose memory has not been written before. -/
def fillVertBuffer (m : Maze) (x y : ℤ) (buf : ℕ → UInt8) : ℕ → UInt8 :=
  let mapX := x.tdiv blockDim
  let mapY := y.tdiv blockDim
  let subX := x - mapX * blockDim
  let subY := y - mapY * blockDim
  fillLoop scrollYDim.toNat
    (fun map i ↦ blocks (m.findBlock mapX map) (i * blockDim + subX)) buf 0 mapY subY.toNat
    scrollYDim.toNat

end Images

/-! ### Bits of an element -/

theorem hasBit_or (value value' mask : UInt8) :
    hasBit (value ||| value') mask = (hasBit value mask || hasBit value' mask) := by
  have hdistrib : (value ||| value') &&& mask = value &&& mask ||| value' &&& mask :=
    UInt8.toBitVec_inj.mp (by ext; simp [Bool.and_or_distrib_right])
  rw [hasBit, hasBit, hasBit, hdistrib, Bool.eq_iff_iff]
  simp [UInt8.or_eq_zero_iff, imp_iff_not_or]

/-- Bits outside of what is cleared stay. -/
theorem hasBit_and_of_eq {value kept mask : UInt8} (h : kept &&& mask = mask) :
    hasBit (value &&& kept) mask = hasBit value mask := by
  rw [hasBit, hasBit, UInt8.and_assoc, h]

theorem hasBit_and_of_eq_zero {value kept mask : UInt8} (h : kept &&& mask = 0) :
    hasBit (value &&& kept) mask = false := by
  rw [hasBit, UInt8.and_assoc, h]
  simp

theorem hasBit_mazeNone (mask : UInt8) : hasBit mazeNone mask = false := by
  simp [hasBit, mazeNone]

theorem fruitNumber_eq_zero_iff (value : UInt8) :
    fruitNumber value = 0 ↔ hasBit value mazeFruit = false := by
  have heven : ∀ value < 256, (value &&& 14) / 2 = 0 ↔ value &&& 14 = 0 := by
    decide +kernel
  have hbound : value.toNat < 256 := value.toNat_lt
  rw [fruitNumber, hasBit, bne_eq_false_iff_eq, ← UInt8.toNat_inj, UInt8.toNat_and]
  exact heven value.toNat hbound

/-! ### Elements of the array -/

@[simp] theorem setIndex_index (m : Maze) (i : ℤ) (value : UInt8) (x y : ℤ) :
    (m.setIndex i value).index x y = m.index x y := rfl

theorem setIndex_cells_self (m : Maze) (i : ℤ) (value : UInt8) :
    (m.setIndex i value).cells i = value := by
  simp only [setIndex, Function.update_self]

theorem setIndex_cells_of_ne {m : Maze} {i j : ℤ} (h : j ≠ i) (value : UInt8) :
    (m.setIndex i value).cells j = m.cells j := by
  simp only [setIndex, Function.update_of_ne h]

/-- A change of an element that keeps a bit of it keeps this bit everywhere. -/
theorem setIndex_hasBit {m : Maze} {i : ℤ} {value mask : UInt8}
    (h : hasBit value mask = hasBit (m.cells i) mask) (j : ℤ) :
    hasBit ((m.setIndex i value).cells j) mask = hasBit (m.cells j) mask := by
  by_cases hj : j = i
  · rw [hj, setIndex_cells_self, h]
  · rw [setIndex_cells_of_ne hj]

/-- Two lattice points that share an element of the array are the same, or they are on the left and
on the right boundary. -/
theorem index_eq_cases {m : Maze} {x y x' y' : ℤ} (hx : 0 ≤ x ∧ x ≤ 2 * m.xDim)
    (hx' : 0 ≤ x' ∧ x' ≤ 2 * m.xDim) (hdim : 0 < m.xDim) (h : m.index x y = m.index x' y') :
    x = x' ∧ y = y' ∨ x = 0 ∧ x' = 2 * m.xDim ∨ x = 2 * m.xDim ∧ x' = 0 := by
  have hdiff : (y' - y) * (2 * m.xDim) = x - x' := by
    rw [index, index] at h
    linarith
  have hrows : y' - y ≤ 1 ∧ -1 ≤ y' - y := by
    constructor
    · by_contra hfar
      nlinarith
    · by_contra hfar
      nlinarith
  obtain hrow | hrow | hrow : y' - y = -1 ∨ y' - y = 0 ∨ y' - y = 1 := by omega
  all_goals
    rw [hrow] at hdiff
    omega

/-- A lattice point off the left and right boundaries shares its element of the array with no
other point. -/
theorem index_inj {m : Maze} {x y x' y' : ℤ} (hx : 0 < x) (hx2 : x < 2 * m.xDim) (hx' : 0 ≤ x')
    (hx2' : x' ≤ 2 * m.xDim) (h : m.index x' y' = m.index x y) : x' = x ∧ y' = y := by
  have hcases := index_eq_cases ⟨hx', hx2'⟩ ⟨hx.le, hx2.le⟩ (by omega) h
  omega

/-- The change of an element that is not to its wall leaves all walls. -/
theorem setCell_wall {m : Maze} {x y : ℤ} {value : UInt8}
    (h : hasBit value mazeWall = hasBit (m.cell x y) mazeWall) (x' y' : ℤ) :
    (m.setCell x y value).wall x' y' = m.wall x' y' :=
  setIndex_hasBit h (m.index x' y')

theorem setCell_cell_of_ne {m : Maze} {x y x' y' : ℤ} (h : m.index x' y' ≠ m.index x y)
    (value : UInt8) : (m.setCell x y value).cell x' y' = m.cell x' y' := by
  rw [cell, cell, setCell, setIndex_index, setIndex_cells_of_ne h]

/-- The image of a lattice point depends on its byte, on the walls, and for the exit on whether
there are fruits. -/
theorem findBlock_congr {m m' : Maze} {x y : ℤ} (hcell : m'.cell x y = m.cell x y)
    (hexit : m'.nFruits = 0 ∧ hasBit (m.cell x y) mazeExit = true ↔
      m.nFruits = 0 ∧ hasBit (m.cell x y) mazeExit = true)
    (hwalls : ∀ x y, m'.wall x y = m.wall x y) : m'.findBlock x y = m.findBlock x y := by
  simp only [findBlock, hcell, hwalls, hexit]

end Maze

end Sp18.MazeGame
