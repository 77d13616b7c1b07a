import Sp18.MazeGame.MakeMaze
import Mathlib.Data.Finset.Card
import Mathlib.Data.Finset.Insert

/-!
# What `make_maze` builds

A maze is `Sound` when its boundaries are walls, no point inside is one, the fruits are counted
right, and the exit, if it is anywhere, is inside. Every maze that `make_maze` returns is sound
(`makeMaze_sound`).

The proof follows the phases. As long as the maze is dug and connected it is `Dug`: its boundaries
are walls, and there is nothing in it but walls and marks. A worm stays on the points with odd
coordinates because a direction out of the maze adds nothing to its weights (`Worm.pickDir_weight`).
-/

set_option autoImplicit false
set_option relaxedAutoImplicit false

namespace Sp18.MazeGame

open Foundation

namespace Maze

variable {m : Maze} {xDim yDim x y : ℤ}

/-- The lattice points inside the boundaries. -/
def Inside (m : Maze) (x y : ℤ) : Prop :=
  0 < x ∧ x < 2 * m.xDim ∧ 0 < y ∧ y < 2 * m.yDim

/-- The lattice points of the boundaries. -/
def OnBorder (m : Maze) (x y : ℤ) : Prop :=
  (0 ≤ x ∧ x ≤ 2 * m.xDim ∧ 0 ≤ y ∧ y ≤ 2 * m.yDim) ∧
    (x = 0 ∨ x = 2 * m.xDim ∨ y = 0 ∨ y = 2 * m.yDim)

/-- The lattice points with odd coordinates. -/
def OddPoint (m : Maze) (x y : ℤ) : Prop := m.Inside x y ∧ x % 2 = 1 ∧ y % 2 = 1

/-- No point of the boundaries shares its element of the array with a point inside. -/
theorem Inside.index_ne (hin : m.Inside x y) {x' y' : ℤ} (hborder : m.OnBorder x' y') :
    m.index x' y' ≠ m.index x y := by
  intro heq
  obtain ⟨hx0, hx1, hy0, hy1⟩ := hin
  obtain ⟨⟨hx0', hx1', -, -⟩, hedge⟩ := hborder
  obtain ⟨rfl, rfl⟩ := index_inj hx0 hx1 hx0' hx1' heq
  omega

/-! ### Digging -/

/-- A maze that is being dug. -/
structure Dug (xDim yDim : ℤ) (m : Maze) : Prop where
  xDim_eq : m.xDim = xDim
  yDim_eq : m.yDim = yDim
  border : ∀ x y, m.OnBorder x y → m.wall x y = true
  plain : ∀ i, hasBit (m.cells i) mazeFruit = false ∧ hasBit (m.cells i) mazeExit = false

namespace Dug

theorem setIndex (h : Dug xDim yDim m) {i : ℤ} {value : UInt8}
    (hplain : hasBit value mazeFruit = false ∧ hasBit value mazeExit = false)
    (hwall : ∀ x y, m.OnBorder x y → m.index x y = i → hasBit value mazeWall = true) :
    Dug xDim yDim (m.setIndex i value) where
  xDim_eq := h.xDim_eq
  yDim_eq := h.yDim_eq
  border x y hborder := by
    rw [wall, cell, setIndex_index]
    by_cases hi : m.index x y = i
    · rw [hi, setIndex_cells_self]
      exact hwall x y hborder hi
    · rw [setIndex_cells_of_ne hi]
      exact h.border x y hborder
  plain j := by
    by_cases hj : j = i
    · rw [hj, setIndex_cells_self]
      exact hplain
    · rw [setIndex_cells_of_ne hj]
      exact h.plain j

/-- Points inside can be emptied. -/
theorem setCell (h : Dug xDim yDim m) (hin : m.Inside x y) :
    Dug xDim yDim (m.setCell x y mazeNone) :=
  h.setIndex ⟨hasBit_mazeNone _, hasBit_mazeNone _⟩
    fun _ _ hborder heq ↦ absurd heq (hin.index_ne hborder)

/-- Which points have odd coordinates depends on the size only. -/
theorem oddPoint {m' : Maze} (h : Dug xDim yDim m) (h' : Dug xDim yDim m')
    (hodd : m.OddPoint x y) : m'.OddPoint x y := by
  simp only [OddPoint, Inside, h.xDim_eq, h.yDim_eq] at hodd
  simpa only [OddPoint, Inside, h'.xDim_eq, h'.yDim_eq] using hodd

/-- Any element of the array can be marked. -/
theorem mark (h : Dug xDim yDim m) (i : ℤ) :
    Dug xDim yDim (m.setIndex i (m.cells i ||| mazeReach)) := by
  have hplain := h.plain i
  refine h.setIndex ?_ ?_
  · rw [hasBit_or, hasBit_or, hplain.1, hplain.2]
    exact ⟨rfl, rfl⟩
  · intro x y hborder heq
    have hwall := h.border x y hborder
    rw [wall, cell, heq] at hwall
    rw [hasBit_or, hwall, Bool.true_or]

/-- A mark can be removed. -/
theorem unmark (h : Dug xDim yDim m) (i : ℤ) :
    Dug xDim yDim (m.setIndex i (m.cells i &&& ~~~mazeReach)) := by
  refine h.setIndex ?_ ?_
  · rw [hasBit_and_of_eq rfl, hasBit_and_of_eq rfl]
    exact h.plain i
  · intro x y hborder heq
    have hwall := h.border x y hborder
    rw [wall, cell, heq] at hwall
    rw [hasBit_and_of_eq rfl, hwall]

end Dug

/-- The points that are drawn have odd coordinates and meet the condition that ends the loop. -/
theorem pickPoint_odd (hx : 0 < m.xDim) (hy : 0 < m.yDim) {again : UInt8 → Bool} {fuel : ℕ}
    {tape tape' : Tape} (h : m.pickPoint again fuel tape = some (x, y, tape')) :
    m.OddPoint x y ∧ again (m.cell x y) = false := by
  obtain ⟨s, -, hlast⟩ := doWhile_last (fun _ ↦ True) (fun _ _ _ _ ↦ trivial) trivial h
  simp only [Tape.draw, zero_add, Option.some.injEq, Prod.mk.injEq] at hlast
  obtain ⟨⟨hxdraw, hydraw, -⟩, hagain⟩ := hlast
  have hx0 := Int.emod_nonneg (s.2.2 0) hx.ne'
  have hx1 := Int.emod_lt_of_pos (s.2.2 0) hx
  have hy0 := Int.emod_nonneg (s.2.2 1) hy.ne'
  have hy1 := Int.emod_lt_of_pos (s.2.2 1) hy
  refine ⟨⟨⟨?_, ?_, ?_, ?_⟩, ?_, ?_⟩, ?_⟩
  · omega
  · omega
  · omega
  · omega
  · omega
  · omega
  · rwa [hxdraw, hydraw] at hagain

/-! ### Marking -/

theorem Search.explore_dug {s : Search} (h : Dug xDim yDim s.maze) (cur offset : ℤ) :
    Dug xDim yDim (s.explore cur offset).maze := by
  unfold Search.explore
  split
  · exact h.mark _
  · exact h

theorem Search.next_dug {s s' : Search} {again : Bool} (h : Dug xDim yDim s.maze)
    (hnext : s.next = some (s', again)) : Dug xDim yDim s'.maze := by
  unfold Search.next at hnext
  split at hnext
  · cases hnext
    exact h
  · cases hnext
    exact explore_dug (explore_dug (explore_dug (explore_dug (by exact h) _ _) _ _) _ _) _ _

theorem markMazeArea_dug {marked : ℤ} {m' : Maze} {fuel : ℕ} (h : Dug xDim yDim m)
    (hmark : m.markMazeArea x y fuel = some (m', marked)) : Dug xDim yDim m' := by
  simp only [markMazeArea, Option.map_eq_some_iff, Prod.mk.injEq] at hmark
  obtain ⟨s, hloop, rfl, -⟩ := hmark
  exact doWhile_invariant (fun s ↦ Dug xDim yDim s.maze)
    (fun s s' again hs hnext ↦ Search.next_dug hs hnext) (h.mark _) hloop

/-! ### Worms -/

theorem turnWt_pos (turn : ℕ) (isWall : Bool) : 0 < turnWt turn isWall := by
  unfold turnWt
  split <;> decide

namespace Worm

variable {w w' : Worm}

/-- The worm is at a point with odd coordinates of a maze that is being dug. -/
structure Digs (xDim yDim : ℤ) (w : Worm) : Prop where
  dug : Dug xDim yDim w.maze
  odd : w.maze.OddPoint w.x w.y

/-- A direction that adds something to the weights leads to a point inside. -/
theorem weight_inside (hodd : w.maze.OddPoint w.x w.y) {dir : ℕ} (hdir : dir ≤ 3)
    (hpos : 0 < w.weight dir) :
    w.maze.Inside (w.x + (wormStep dir).1) (w.y + (wormStep dir).2) ∧
      w.maze.OddPoint (w.x + 2 * (wormStep dir).1) (w.y + 2 * (wormStep dir).2) := by
  obtain ⟨⟨hx0, hx1, hy0, hy1⟩, hx, hy⟩ := hodd
  have hroom : dir = 0 ∧ w.y > 1 ∨ dir = 1 ∧ w.x < w.maze.xDim * 2 - 1 ∨
      dir = 2 ∧ w.y < w.maze.yDim * 2 - 1 ∨ dir = 3 ∧ w.x > 1 := by
    by_contra hnone
    match dir with
    | 0 | 1 | 2 | 3 =>
      simp only [weight] at hpos
      rw [if_neg (by omega)] at hpos
      exact absurd hpos (by decide)
  simp only [OddPoint, Inside]
  rcases hroom with ⟨rfl, hroom⟩ | ⟨rfl, hroom⟩ | ⟨rfl, hroom⟩ | ⟨rfl, hroom⟩
  all_goals
    simp only [wormStep]
    omega

/-- In every maze that is more than one point high, a worm has a direction to go. -/
theorem wt_pos (hheight : 1 < w.maze.yDim) : 0 < w.wt 3 := by
  have hsum : w.wt 3 = w.weight 0 + w.weight 1 + w.weight 2 + w.weight 3 := rfl
  by_cases htop : w.y > 1
  · have hup : 0 < w.weight 0 := by
      rw [weight, if_pos htop]
      exact turnWt_pos _ _
    omega
  · have hdown : 0 < w.weight 2 := by
      rw [weight, if_pos (by omega)]
      exact turnWt_pos _ _
    omega

/-- The direction that is picked has a weight. -/
theorem pickDir_weight {pick : ℕ} (hpick : pick < w.wt 3) :
    w.pickDir pick ≤ 3 ∧ 0 < w.weight (w.pickDir pick) := by
  have h1 : w.wt 1 = w.wt 0 + w.weight 1 := rfl
  have h2 : w.wt 2 = w.wt 1 + w.weight 2 := rfl
  have h3 : w.wt 3 = w.wt 2 + w.weight 3 := rfl
  have h0 : w.wt 0 = w.weight 0 := rfl
  unfold pickDir
  split_ifs with hup hright hdown
  · exact ⟨by decide, by omega⟩
  · exact ⟨by decide, by omega⟩
  · exact ⟨by decide, by omega⟩
  · exact ⟨le_rfl, by omega⟩

theorem move_digs (h : w.Digs xDim yDim) {dir : ℕ} (hdir : dir ≤ 3) (hpos : 0 < w.weight dir) :
    (w.move dir).Digs xDim yDim := by
  obtain ⟨hbetween, hodd⟩ := weight_inside h.odd hdir hpos
  exact ⟨(h.dug.setCell hbetween).setCell hodd.1, hodd⟩

theorem next_digs {again : Bool} (hheight : 1 < yDim) (h : w.Digs xDim yDim)
    (hnext : w.next = some (w', again)) : w'.Digs xDim yDim := by
  have hpos : 0 < w.wt 3 := wt_pos (by rw [h.dug.yDim_eq]; exact hheight)
  obtain ⟨hdir, hweight⟩ := pickDir_weight (Nat.mod_lt w.tape.draw.1 hpos)
  simp only [next] at hnext
  split_ifs at hnext
  · cases hnext
    exact ⟨h.dug, h.odd⟩
  · cases hnext
    exact move_digs (w := { w with tape := w.tape.draw.2 }) ⟨h.dug, h.odd⟩ hdir hweight

/-- A worm that has been dropped ends on a point with odd coordinates. -/
theorem drop_digs {again : Bool} {fuel : ℕ} (hwidth : 0 < xDim) (hheight : 1 < yDim)
    (h : Dug xDim yDim w.maze) (hdrop : w.drop fuel = some (w', again)) :
    w'.Digs xDim yDim := by
  simp only [drop, Option.bind_eq_bind, Option.bind_eq_some_iff, Prod.exists, Option.some.injEq,
    Prod.mk.injEq] at hdrop
  obtain ⟨x, y, tape, hpick, worm, hloop, rfl, -⟩ := hdrop
  have hodd := (pickPoint_odd (by rw [h.xDim_eq]; exact hwidth)
    (by rw [h.yDim_eq]; omega) hpick).1
  exact doWhile_invariant (Digs xDim yDim) (fun _ _ _ hs hnext ↦ next_digs hheight hs hnext)
    ⟨h.setCell hodd.1, hodd⟩ hloop

end Worm

/-! ### Connecting -/

namespace Connect

variable {c c' : Connect}

/-- The second phase is at a point with odd coordinates of a maze that is being dug. -/
structure Digs (xDim yDim : ℤ) (c : Connect) : Prop where
  dug : Dug xDim yDim c.maze
  odd : c.maze.OddPoint c.x c.y

theorem scan_digs (h : c.Digs xDim yDim) : c.scan.Digs xDim yDim := by
  obtain ⟨⟨hx0, hx1, hy0, hy1⟩, hx, hy⟩ := h.odd
  unfold scan
  split_ifs with hright hbottom
  all_goals
    refine ⟨h.dug, ?_⟩
    simp only [OddPoint, Inside]
    omega

/-- A wall that is knocked down stands inside. -/
theorem wallToRemove_inside (hodd : c.maze.OddPoint c.x c.y) {wall : ℤ}
    (hwall : c.wallToRemove = some wall) :
    ∃ x y, c.maze.Inside x y ∧ wall = c.maze.index x y := by
  obtain ⟨⟨hx0, hx1, hy0, hy1⟩, hx, hy⟩ := hodd
  simp only [wallToRemove] at hwall
  split_ifs at hwall with hup hleft hright hdown
  · refine ⟨c.x, c.y - 1, ⟨hx0, hx1, by omega, by omega⟩, ?_⟩
    rw [← Option.some.inj hwall, index, index]
    ring
  · refine ⟨c.x - 1, c.y, ⟨by omega, by omega, hy0, hy1⟩, ?_⟩
    rw [← Option.some.inj hwall, index, index]
    ring
  · refine ⟨c.x + 1, c.y, ⟨by omega, by omega, hy0, hy1⟩, ?_⟩
    rw [← Option.some.inj hwall, index, index]
    ring
  · refine ⟨c.x, c.y + 1, ⟨hx0, hx1, by omega, by omega⟩, ?_⟩
    rw [← Option.some.inj hwall, index, index]
    ring

theorem join_digs {again : Bool} {fuel : ℕ} (h : c.Digs xDim yDim)
    (hjoin : c.join fuel = some (c', again)) : c'.Digs xDim yDim := by
  unfold join at hjoin
  split at hjoin
  · cases hjoin
    exact h
  · next wall hwall =>
    obtain ⟨x, y, hin, rfl⟩ := wallToRemove_inside h.odd hwall
    simp only [Option.map_eq_some_iff, Prod.exists, Prod.mk.injEq] at hjoin
    obtain ⟨maze, marked, hmark, rfl, -⟩ := hjoin
    have hdug := markMazeArea_dug (h.dug.setCell hin) hmark
    exact ⟨hdug, h.dug.oddPoint hdug h.odd⟩

/-- Counting the trial moves nothing. -/
theorem Digs.tried (h : c.Digs xDim yDim) :
    (if c.remaining < 20 then c else { c with trials := c.trials + 1 }).Digs xDim yDim := by
  split_ifs
  · exact h
  · exact ⟨h.dug, h.odd⟩

theorem next_digs {again : Bool} {fuel : ℕ} (hwidth : 0 < xDim) (hheight : 0 < yDim)
    (h : c.Digs xDim yDim) (hnext : c.next fuel = some (c', again)) : c'.Digs xDim yDim := by
  have htried := h.tried
  simp only [next] at hnext
  generalize (if c.remaining < 20 then c else { c with trials := c.trials + 1 }) = d at htried hnext
  split_ifs at hnext
  · cases hnext
    exact scan_digs htried
  · exact join_digs (scan_digs htried) hnext
  · simp only [Option.bind_eq_bind, Option.bind_eq_some_iff, Prod.exists] at hnext
    obtain ⟨x, y, tape, hpick, hjoin⟩ := hnext
    have hodd := (pickPoint_odd (by rw [htried.dug.xDim_eq]; exact hwidth)
      (by rw [htried.dug.yDim_eq]; exact hheight) hpick).1
    exact join_digs (c := { d with x := x, y := y, tape := tape }) ⟨htried.dug, hodd⟩ hjoin

end Connect

/-! ### Removing the marks and the walls -/

theorem mapColumn_invariant (inv : Maze → Prop) {f : UInt8 → UInt8} {y : ℕ → ℤ} {rows : ℕ}
    (hstep : ∀ m, inv m → ∀ j < rows, inv (m.setCell x (y j) (f (m.cell x (y j))))) (h : inv m) :
    inv (mapColumn f x y m rows) := by
  induction rows with
  | zero => exact h
  | succ rows ih =>
    exact hstep _ (ih fun m hm j hj ↦ hstep m hm j (by omega)) rows (by omega)

/-- The invariant rule for the nested loops. -/
theorem mapCells_invariant (inv : Maze → Prop) {f : UInt8 → UInt8} {x y : ℕ → ℤ}
    {columns rows : ℕ} (hstep : ∀ m, inv m → ∀ i < columns, ∀ j < rows,
      inv (m.setCell (x i) (y j) (f (m.cell (x i) (y j))))) (h : inv m) :
    inv (mapCells f x y rows m columns) := by
  induction columns with
  | zero => exact h
  | succ columns ih =>
    refine mapColumn_invariant inv (fun m hm j hj ↦ hstep m hm columns (by omega) j hj) ?_
    exact ih fun m hm i hi ↦ hstep m hm i (by omega)

/-- An element that holds the value keeps it when the value is stored anywhere. -/
theorem setCell_cell_of_eq {value : UInt8} (h : m.cell x y = value) (x' y' : ℤ) :
    (m.setCell x' y' value).cell x y = value := by
  rw [setCell, cell, setIndex_index]
  by_cases heq : m.index x y = m.index x' y'
  · rw [heq, setIndex_cells_self]
  · rw [setIndex_cells_of_ne heq]
    exact h

theorem mapColumn_const (value : UInt8) (m : Maze) (x : ℤ) (y : ℕ → ℤ) {j rows : ℕ}
    (hj : j < rows) : (mapColumn (fun _ ↦ value) x y m rows).cell x (y j) = value := by
  induction rows with
  | zero => omega
  | succ rows ih =>
    rw [mapColumn]
    by_cases hlast : j = rows
    · rw [hlast, setCell, cell, setIndex_index, setIndex_cells_self]
    · exact setCell_cell_of_eq (ih (by omega)) x (y rows)

/-- The nested loops leave their value at each of their points. -/
theorem mapCells_const (value : UInt8) (m : Maze) (x y : ℕ → ℤ) {i j columns rows : ℕ}
    (hi : i < columns) (hj : j < rows) :
    (mapCells (fun _ ↦ value) x y rows m columns).cell (x i) (y j) = value := by
  induction columns with
  | zero => omega
  | succ columns ih =>
    by_cases hlast : i = columns
    · rw [hlast]
      exact mapColumn_const value _ (x columns) y hj
    · exact mapColumn_invariant (fun m ↦ m.cell (x i) (y j) = value)
        (fun m hm k _ ↦ setCell_cell_of_eq hm (x columns) (y k)) (ih (by omega))

theorem clearReach_dug (h : Dug xDim yDim m) : Dug xDim yDim m.clearReach :=
  mapCells_invariant (Dug xDim yDim) (fun _ hm _ _ _ _ ↦ hm.unmark _) h

theorem clearWalls_dug (h : Dug xDim yDim m) : Dug xDim yDim m.clearWalls := by
  refine mapCells_invariant (Dug xDim yDim) (fun m' hm' i hi j hj ↦ hm'.setCell ⟨?_, ?_, ?_, ?_⟩) h
  · omega
  · rw [hm'.xDim_eq, ← h.xDim_eq]
    omega
  · omega
  · rw [hm'.yDim_eq, ← h.yDim_eq]
    omega

/-- No wall is left inside. -/
theorem clearWalls_inside (hin : m.Inside x y) : m.clearWalls.cell x y = mazeNone := by
  obtain ⟨hx0, hx1, hy0, hy1⟩ := hin
  have hcolumn : (x - 1).toNat < (2 * m.xDim - 1).toNat := by omega
  have hrow : (y - 1).toNat < (2 * m.yDim - 1).toNat := by omega
  have hcell := mapCells_const mazeNone m (fun i ↦ (i : ℤ) + 1) (fun j ↦ (j : ℤ) + 1) hcolumn hrow
  have hx : ((x - 1).toNat : ℤ) + 1 = x := by omega
  have hy : ((y - 1).toNat : ℤ) + 1 = y := by omega
  rwa [hx, hy] at hcell

/-! ### Fruits -/

/-- The fruits of the maze lie inside, at the given elements of the array, and are counted. -/
structure FruitsAt (m : Maze) (fruits : Finset ℤ) : Prop where
  mem : ∀ i, i ∈ fruits ↔ hasBit (m.cells i) mazeFruit = true
  inside : ∀ i ∈ fruits, ∃ x y, m.Inside x y ∧ i = m.index x y
  card : (fruits.card : ℤ) = m.nFruits

namespace FruitsAt

variable {fruits : Finset ℤ} {i : ℤ} {value : UInt8}

/-- A fruit is added where none was. -/
theorem add (h : m.FruitsAt fruits) (hin : m.Inside x y)
    (hfree : hasBit (m.cell x y) mazeFruit = false) (hbit : hasBit value mazeFruit = true) :
    FruitsAt { m.setCell x y value with nFruits := m.nFruits + 1 }
      (insert (m.index x y) fruits) where
  mem j := by
    rw [Finset.mem_insert, h.mem]
    by_cases hj : j = m.index x y
    · simp only [hj, true_or, true_iff]
      rwa [setCell, setIndex_cells_self]
    · rw [setCell, setIndex_cells_of_ne hj]
      simp only [hj, false_or]
  inside j hj := by
    rcases Finset.mem_insert.mp hj with rfl | hj
    · exact ⟨x, y, hin, rfl⟩
    · exact h.inside j hj
  card := by
    have hnew : m.index x y ∉ fruits := by
      rw [h.mem]
      exact (Bool.not_eq_true _).mpr hfree
    rw [Finset.card_insert_of_notMem hnew]
    push_cast
    rw [h.card]

/-- A fruit is eaten. -/
theorem remove (h : m.FruitsAt fruits) (hhas : hasBit (m.cells i) mazeFruit = true)
    (hbit : hasBit value mazeFruit = false) :
    FruitsAt { m.setIndex i value with nFruits := m.nFruits - 1 } (fruits.erase i) where
  mem j := by
    rw [Finset.mem_erase, h.mem]
    by_cases hj : j = i
    · rw [hj, setIndex_cells_self, hbit]
      simp
    · rw [setIndex_cells_of_ne hj]
      simp only [ne_eq, hj, not_false_eq_true, true_and]
  inside j hj := h.inside j (Finset.mem_of_mem_erase hj)
  card := by
    have hmem : i ∈ fruits := (h.mem i).mpr hhas
    have hcard := Finset.card_erase_add_one hmem
    rw [← h.card, ← hcard]
    push_cast
    ring

/-- Other changes of an element leave the fruits where they are. -/
theorem keep (h : m.FruitsAt fruits)
    (hbit : hasBit value mazeFruit = hasBit (m.cells i) mazeFruit) :
    FruitsAt (m.setIndex i value) fruits where
  mem j := by rw [h.mem, setIndex_hasBit hbit]
  inside := h.inside
  card := h.card

/-- Where there is a fruit, the count is positive. -/
theorem nFruits_pos (h : m.FruitsAt fruits) (hhas : hasBit (m.cells i) mazeFruit = true) :
    0 < m.nFruits := by
  have hcard : 0 < fruits.card := Finset.card_pos.mpr ⟨i, (h.mem i).mpr hhas⟩
  have hcount := h.card
  omega

end FruitsAt

/-! ### Sound mazes -/

/-- What holds of a maze from its making on. -/
structure Sound (m : Maze) : Prop where
  wide : mazeMinXDim ≤ m.xDim
  high : mazeMinYDim ≤ m.yDim
  border : ∀ x y, m.OnBorder x y → m.wall x y = true
  open_inside : ∀ x y, m.Inside x y → m.wall x y = false
  exit_inside : m.Inside m.exitX m.exitY
  exit : ∀ i, hasBit (m.cells i) mazeExit = true → i = m.index m.exitX m.exitY
  fruits : ∃ fruits, m.FruitsAt fruits

/-- A change of an element that is neither to its wall nor to its exit bit. -/
theorem Sound.setIndex {fruits : Finset ℤ} {i nFruits : ℤ} {value : UInt8} (h : m.Sound)
    (hwall : hasBit value mazeWall = hasBit (m.cells i) mazeWall)
    (hexit : hasBit value mazeExit = hasBit (m.cells i) mazeExit)
    (hfruits : FruitsAt { m.setIndex i value with nFruits := nFruits } fruits) :
    Sound { m.setIndex i value with nFruits := nFruits } := by
  constructor
  · exact h.wide
  · exact h.high
  · intro x y hborder
    exact (setIndex_hasBit hwall _).trans (h.border x y hborder)
  · intro x y hin
    exact (setIndex_hasBit hwall _).trans (h.open_inside x y hin)
  · exact h.exit_inside
  · intro j hj
    exact h.exit j ((setIndex_hasBit hexit j).symm.trans hj)
  · exact ⟨fruits, hfruits⟩

/-! ### The whole -/

/-- A maze whose fruits are being placed. -/
structure Furnished (xDim yDim : ℤ) (m : Maze) : Prop where
  xDim_eq : m.xDim = xDim
  yDim_eq : m.yDim = yDim
  border : ∀ x y, m.OnBorder x y → m.wall x y = true
  open_inside : ∀ x y, m.Inside x y → m.wall x y = false
  noExit : ∀ i, hasBit (m.cells i) mazeExit = false
  fruits : ∃ fruits, m.FruitsAt fruits

/-- The byte of a fruit has a fruit bit and no others. -/
theorem fruit_bits (value : ℕ) :
    hasBit ((value % numFruitTypes + 1).toUInt8 * mazeFruit1) mazeFruit = true ∧
      hasBit ((value % numFruitTypes + 1).toUInt8 * mazeFruit1) mazeWall = false ∧
      hasBit ((value % numFruitTypes + 1).toUInt8 * mazeFruit1) mazeExit = false := by
  have hall : ∀ fruit < numFruitTypes,
      hasBit ((fruit + 1).toUInt8 * mazeFruit1) mazeFruit = true ∧
        hasBit ((fruit + 1).toUInt8 * mazeFruit1) mazeWall = false ∧
        hasBit ((fruit + 1).toUInt8 * mazeFruit1) mazeExit = false := by decide
  exact hall (value % numFruitTypes) (Nat.mod_lt _ (by decide))

theorem addAFruitInternal_furnished {m' : Maze} {fuel : ℕ} {tape tape' : Tape}
    (hwidth : 0 < xDim) (hheight : 0 < yDim) (h : Furnished xDim yDim m)
    (hadd : m.addAFruitInternal fuel tape = some (m', tape')) : Furnished xDim yDim m' := by
  simp only [addAFruitInternal, Option.bind_eq_bind, Option.bind_eq_some_iff, Prod.exists,
    Option.some.injEq, Prod.mk.injEq] at hadd
  obtain ⟨x, y, drawn, hpick, rfl, -⟩ := hadd
  obtain ⟨hodd, hfree⟩ := pickPoint_odd (by rw [h.xDim_eq]; exact hwidth)
    (by rw [h.yDim_eq]; exact hheight) hpick
  obtain ⟨hfruit, hwall, hexit⟩ := fruit_bits drawn.draw.1
  obtain ⟨fruits, hfruits⟩ := h.fruits
  generalize (drawn.draw.1 % numFruitTypes + 1).toUInt8 * mazeFruit1 = fruit at hfruit hwall hexit
  have hsameWall : hasBit (m.cell x y ||| fruit) mazeWall = hasBit (m.cell x y) mazeWall := by
    rw [hasBit_or, hwall, Bool.or_false]
  have hsameExit : hasBit (m.cell x y ||| fruit) mazeExit = hasBit (m.cell x y) mazeExit := by
    rw [hasBit_or, hexit, Bool.or_false]
  constructor
  · exact h.xDim_eq
  · exact h.yDim_eq
  · intro x' y' hborder
    exact (setCell_wall hsameWall x' y').trans (h.border x' y' hborder)
  · intro x' y' hin
    exact (setCell_wall hsameWall x' y').trans (h.open_inside x' y' hin)
  · intro j
    exact (setIndex_hasBit hsameExit j).trans (h.noExit j)
  · exact ⟨_, hfruits.add hodd.1 hfree (by rw [hasBit_or, hfruit, Bool.or_true])⟩

theorem addFruits_furnished {m' : Maze} {fuel count : ℕ} {tape tape' : Tape} (hwidth : 0 < xDim)
    (hheight : 0 < yDim) (h : Furnished xDim yDim m)
    (hadd : addFruits fuel count (m, tape) = some (m', tape')) : Furnished xDim yDim m' := by
  induction count generalizing m tape with
  | zero =>
    cases hadd
    exact h
  | succ count ih =>
    simp only [addFruits, Option.bind_eq_bind, Option.bind_eq_some_iff, Prod.exists] at hadd
    obtain ⟨next, tape, hnext, hrest⟩ := hadd
    exact ih (addAFruitInternal_furnished hwidth hheight h hnext) hrest

theorem placeExit_sound {m' : Maze} {fuel : ℕ} {tape : Tape} (hwidth : mazeMinXDim ≤ xDim)
    (hheight : mazeMinYDim ≤ yDim) (h : Furnished xDim yDim m)
    (hplace : m.placeExit fuel tape = some m') :
    m'.Sound ∧ m'.xDim = xDim ∧ m'.yDim = yDim := by
  have hx : m.xDim = xDim := h.xDim_eq
  have hy : m.yDim = yDim := h.yDim_eq
  have hmin : 0 < mazeMinXDim ∧ 0 < mazeMinYDim := by decide
  simp only [placeExit, Option.bind_eq_bind, Option.bind_eq_some_iff, Prod.exists,
    Option.some.injEq] at hplace
  obtain ⟨x, y, drawn, hpick, rfl⟩ := hplace
  obtain ⟨hodd, -⟩ := pickPoint_odd (by omega) (by omega) hpick
  obtain ⟨fruits, hfruits⟩ := h.fruits
  have hsameWall : hasBit (m.cell x y ||| mazeExit) mazeWall = hasBit (m.cell x y) mazeWall :=
    (hasBit_or _ _ _).trans (Bool.or_false _)
  have hkeep : FruitsAt (m.setCell x y (m.cell x y ||| mazeExit)) fruits :=
    hfruits.keep ((hasBit_or _ _ _).trans (Bool.or_false _))
  refine ⟨?_, hx, hy⟩
  constructor
  · exact hwidth.trans_eq hx.symm
  · exact hheight.trans_eq hy.symm
  · intro x' y' hborder
    exact (setCell_wall hsameWall x' y').trans (h.border x' y' hborder)
  · intro x' y' hin
    exact (setCell_wall hsameWall x' y').trans (h.open_inside x' y' hin)
  · exact hodd.1
  · intro j hj
    by_contra hne
    rw [setCell, setIndex_cells_of_ne (show j ≠ m.index x y from hne), h.noExit] at hj
    cases hj
  · exact ⟨fruits, hkeep.mem, hkeep.inside, hkeep.card⟩

theorem mazeWall_bits : hasBit mazeWall mazeWall = true ∧ hasBit mazeWall mazeFruit = false ∧
    hasBit mazeWall mazeExit = false := by
  decide

/-- Without marks and walls, and before the first fruit, the maze is ready to be furnished. -/
theorem cleared_furnished (h : Dug xDim yDim m) :
    Furnished xDim yDim { m.clearReach.clearWalls with nFruits := 0 } := by
  have hreach := clearReach_dug h
  have hcleared : Dug xDim yDim m.clearReach.clearWalls := clearWalls_dug hreach
  constructor
  · exact hcleared.xDim_eq
  · exact hcleared.yDim_eq
  · exact hcleared.border
  · intro x y hin
    have hpoint : m.clearReach.Inside x y := by
      simpa only [Inside, hcleared.xDim_eq, hcleared.yDim_eq, hreach.xDim_eq, hreach.yDim_eq]
        using hin
    change hasBit (m.clearReach.clearWalls.cell x y) mazeWall = false
    rw [clearWalls_inside hpoint]
    exact hasBit_mazeNone _
  · exact fun i ↦ (hcleared.plain i).2
  · refine ⟨∅, ⟨fun i ↦ ?_, fun i hi ↦ absurd hi (Finset.notMem_empty i), rfl⟩⟩
    simp [(hcleared.plain i).1]

/-- What `make_maze` returns has been dug and connected, cleared of marks and walls, and furnished
with the fruits and the exit. -/
theorem makeMaze_phases {m' : Maze} {startFruits : ℤ} {fuel : ℕ} {tape : Tape}
    (h : m.makeMaze xDim yDim startFruits fuel tape = some (0, m')) :
    mazeMinXDim ≤ xDim ∧ mazeMinYDim ≤ yDim ∧ ∃ connected furnished tape' tape'',
      Dug xDim yDim connected ∧
        addFruits fuel startFruits.toNat
          ({ connected.clearReach.clearWalls with nFruits := 0 }, tape') =
            some (furnished, tape'') ∧
        furnished.placeExit fuel tape'' = some m' := by
  unfold makeMaze at h
  split at h
  · simp at h
  · next hsize =>
    simp only [Option.bind_eq_bind, Option.bind_eq_some_iff, Prod.exists, Option.some.injEq,
      Prod.mk.injEq, true_and] at h
    obtain ⟨w, hworms, marked, count, hmark, c, hjoined, furnished, tape', hfruits, m', hplace,
      rfl⟩ := h
    have hwidth : mazeMinXDim ≤ xDim := by omega
    have hheight : mazeMinYDim ≤ yDim := by omega
    have hmin : 0 < mazeMinXDim ∧ 1 < mazeMinYDim := by decide
    have hwalls : Dug xDim yDim { m with xDim := xDim, yDim := yDim, cells := fun _ ↦ mazeWall } :=
      ⟨rfl, rfl, fun _ _ _ ↦ mazeWall_bits.1, fun _ ↦ mazeWall_bits.2⟩
    -- the worms: the last one that was dropped is on a point with odd coordinates
    obtain ⟨last, hlast, hdrop⟩ := doWhile_last (fun w : Worm ↦ Dug xDim yDim w.maze)
      (fun _ _ hdug hbody ↦ (Worm.drop_digs (by omega) (by omega) hdug hbody).dug) hwalls hworms
    have hworm : w.Digs xDim yDim := Worm.drop_digs (by omega) (by omega) hlast hdrop
    have hmarked : Dug xDim yDim marked := markMazeArea_dug hworm.dug hmark
    -- the second phase starts where that worm has ended
    have hodd : marked.OddPoint w.x w.y := hworm.dug.oddPoint hmarked hworm.odd
    have hconnected : c.Digs xDim yDim :=
      doWhile_invariant (Connect.Digs xDim yDim)
        (fun _ _ _ hdigs hnext ↦ Connect.next_digs (by omega) (by omega) hdigs hnext)
        ⟨hmarked, hodd⟩ hjoined
    exact ⟨hwidth, hheight, c.maze, furnished, c.tape, tape', hconnected.dug, hfruits, hplace⟩

/-- Every maze that `make_maze` returns is sound and has the size that was asked for. -/
theorem makeMaze_sound {m' : Maze} {startFruits : ℤ} {fuel : ℕ} {tape : Tape}
    (h : m.makeMaze xDim yDim startFruits fuel tape = some (0, m')) :
    m'.Sound ∧ m'.xDim = xDim ∧ m'.yDim = yDim := by
  obtain ⟨hwidth, hheight, connected, furnished, tape', tape'', hdug, hfruits, hplace⟩ :=
    makeMaze_phases h
  have hmin : 0 < mazeMinXDim ∧ 0 < mazeMinYDim := by decide
  exact placeExit_sound hwidth hheight
    (addFruits_furnished (by omega) (by omega) (cleared_furnished hdug) hfruits) hplace

/-- The maze before the first call of `make_maze`. -/
def unmade : Maze where
  cells := fun _ ↦ 0
  xDim := 0
  yDim := 0
  nFruits := 0
  exitX := 0
  exitY := 0

/-- Draws with which a single worm eats its way through all of a maze of the smallest size, row by
row; a fruit and the exit follow. -/
def wormTape : Tape :=
  let toLeft := 87 :: List.replicate 12 13
  let toRight := [4, 3] ++ List.replicate 12 1 ++ [1]
  let draws := [0, 0, 1] ++ List.replicate 14 0 ++ toLeft ++ toRight ++ toLeft ++ toRight ++
    toLeft ++ toRight ++ toLeft ++ [1, 0, 0, 0, 1, 0]
  fun i ↦ draws.getD i 0

/-- With these draws `make_maze` returns. -/
theorem makeMaze_wormTape : ∃ m, unmade.makeMaze 14 8 1 300 wormTape = some (0, m) := by
  have hreturns : (unmade.makeMaze 14 8 1 300 wormTape).map Prod.fst = some 0 := by decide +kernel
  obtain ⟨⟨ret, m⟩, hmaze, hret⟩ := Option.map_eq_some_iff.mp hreturns
  exact ⟨m, by rw [hmaze, ← hret]⟩

end Maze

end Sp18.MazeGame
