import Sp18.Foundation.StepSystem
import Sp18.MazeGame.Game
import Mathlib.Data.Finset.Prod
import Mathlib.Data.Finset.Range

/-!
# Fruits and the exit

The fruits of a maze from its making on, while fruits are added and eaten and points are unveiled in
any order and at any coordinates. `Furnished` said that the fruits are counted and lie inside, while
they are being placed; here they lie on points with odd coordinates (`OddFruits`), the exit is
somewhere, and the walls are those that `make_maze` has left (`Tended`). Each function changes one
element of the array, so that one lemma says what each of them keeps (`Tended.setIndex`).

`FruitsKept` is what that means for the lattice points (`Tended.fruitsKept`).
-/

set_option autoImplicit false
set_option relaxedAutoImplicit false

namespace Sp18.MazeGame

open Foundation

namespace Game

section Blocks

variable (blocks : ℕ → Image)

/-- `_add_a_fruit`, which draws the fruit if it is asked to -/
def addAFruitTo (g : Game) (shown : Bool) (fuel : ℕ) (tape : Tape) : Option Game := do
  let (x, y, tape) ← g.maze.pickPoint (fun value ↦ Maze.hasBit value mazeFruit) fuel tape
  let fruit := (tape.draw.1 % numFruitTypes + 1).toUInt8 * mazeFruit1
  let maze := g.maze.setCell x y (g.maze.cell x y ||| fruit)
  let g := { g with maze := { maze with nFruits := maze.nFruits + 1 } }
  some (if shown then g.drawPoint blocks x y else g)

/-- `add_a_fruit`: the game and the return value -/
def addAFruit (g : Game) (fuel : ℕ) (tape : Tape) : Option (Game × ℤ) := do
  let g ← g.addAFruitTo blocks true fuel tape
  let g := if g.maze.nFruits = 1 then g.drawPoint blocks g.maze.exitX g.maze.exitY else g
  some (g, g.maze.nFruits)

end Blocks

end Game

/-- A call of one of the functions that the game makes on a maze, at any coordinates. -/
inductive MazeCall where
  | addAFruit (fuel : ℕ) (tape : Tape)
  | checkForFruit (x y : ℤ)
  | unveilSpace (x y : ℤ)

/-- The game after a call. A call of `add_a_fruit` that still waits for a lucky draw has not changed
anything yet. -/
def Game.call (blocks : ℕ → Image) (g : Game) : MazeCall → Game
  | .addAFruit fuel tape =>
    match g.addAFruit blocks fuel tape with
    | none => g
    | some (g', _) => g'
  | .checkForFruit x y => (g.checkForFruit blocks x y).1
  | .unveilSpace x y => g.unveilSpace blocks x y

namespace Maze

variable {m m' m₀ : Maze} {x y i : ℤ}

/-- The lattice points of the maze, with both the left and the right boundary. -/
def latticePoints (m : Maze) : Finset (ℤ × ℤ) :=
  (Finset.range (2 * m.xDim + 1).toNat ×ˢ Finset.range (2 * m.yDim + 1).toNat).image
    fun p ↦ ((p.1 : ℤ), (p.2 : ℤ))

theorem mem_latticePoints {p : ℤ × ℤ} : p ∈ m.latticePoints ↔
    (0 ≤ p.1 ∧ p.1 ≤ 2 * m.xDim) ∧ 0 ≤ p.2 ∧ p.2 ≤ 2 * m.yDim := by
  simp only [latticePoints, Finset.mem_image, Finset.mem_product, Finset.mem_range]
  constructor
  · rintro ⟨⟨x, y⟩, hin, rfl⟩
    simp only at hin ⊢
    omega
  · intro hin
    refine ⟨(p.1.toNat, p.2.toNat), ?_, Prod.ext ?_ ?_⟩
    · simp only
      omega
    · exact Int.toNat_of_nonneg hin.1.1
    · exact Int.toNat_of_nonneg hin.2.1

/-- What holds of the fruits and of the exit of a maze, with the maze as `make_maze` has returned
it. -/
structure FruitsKept (m₀ m : Maze) : Prop where
  count : m.nFruits =
    (m.latticePoints.filter fun p ↦ hasBit (m.cell p.1 p.2) mazeFruit = true).card
  odd : ∀ p ∈ m.latticePoints, hasBit (m.cell p.1 p.2) mazeFruit = true →
    p.1 % 2 = 1 ∧ p.2 % 2 = 1
  exit : ∃! p, p ∈ m.latticePoints ∧ hasBit (m.cell p.1 p.2) mazeExit = true
  walls : ∀ x y, m.wall x y = m₀.wall x y
  win : ∀ x y, m.checkForWin x y = true ↔
    m.nFruits = 0 ∧ (x, y) ∈ m.latticePoints ∧ hasBit (m.cell x y) mazeExit = true

/-! ### Fruits on odd points -/

/-- Fruits are on points with odd coordinates only. -/
def OddFruits (m : Maze) : Prop :=
  ∀ i, hasBit (m.cells i) mazeFruit = true → ∃ x y, m.OddPoint x y ∧ i = m.index x y

/-- A change of an element that puts no fruit where there must be none. -/
theorem OddFruits.setIndex (h : m.OddFruits) {value : UInt8}
    (hvalue : hasBit value mazeFruit = true →
      hasBit (m.cells i) mazeFruit = true ∨ ∃ x y, m.OddPoint x y ∧ i = m.index x y) :
    (m.setIndex i value).OddFruits := by
  intro j hj
  by_cases hji : j = i
  · rw [hji, setIndex_cells_self] at hj
    rw [hji]
    exact (hvalue hj).elim (h i) id
  · rw [setIndex_cells_of_ne hji] at hj
    exact h j hj

theorem addFruits_oddFruits {fuel count : ℕ} {tape tape' : Tape} (hx : 0 < m.xDim)
    (hy : 0 < m.yDim) (h : m.OddFruits)
    (hadd : addFruits fuel count (m, tape) = some (m', tape')) : m'.OddFruits := by
  induction count generalizing m tape with
  | zero =>
    cases hadd
    exact h
  | succ count ih =>
    simp only [addFruits, addAFruitInternal, Option.bind_eq_bind, Option.bind_eq_some_iff,
      Prod.exists, Option.some.injEq, Prod.mk.injEq] at hadd
    obtain ⟨next, tape₁, ⟨x, y, tape₂, hpick, rfl, -⟩, hrest⟩ := hadd
    have hodd := (pickPoint_odd hx hy hpick).1
    refine ih ?_ ?_ ?_ hrest
    · exact hx
    · exact hy
    · exact h.setIndex fun _ ↦ Or.inr ⟨x, y, hodd, rfl⟩

/-! ### What the game keeps -/

/-- A maze that the game has been played in, since it has been made. -/
structure Tended (m₀ m : Maze) : Prop where
  sound : m.Sound
  oddFruits : m.OddFruits
  exit : hasBit (m.cell m.exitX m.exitY) mazeExit = true
  walls : ∀ x y, m.wall x y = m₀.wall x y

/-- A change of an element that is neither to its wall nor to its exit bit, and puts no fruit where
there must be none. -/
theorem Tended.setIndex (h : Tended m₀ m) {value : UInt8} {nFruits : ℤ}
    (hwall : hasBit value mazeWall = hasBit (m.cells i) mazeWall)
    (hexit : hasBit value mazeExit = hasBit (m.cells i) mazeExit)
    (hfruit : hasBit value mazeFruit = true →
      hasBit (m.cells i) mazeFruit = true ∨ ∃ x y, m.OddPoint x y ∧ i = m.index x y)
    (hsound : Sound { m.setIndex i value with nFruits := nFruits }) :
    Tended m₀ { m.setIndex i value with nFruits := nFruits } where
  sound := hsound
  oddFruits := h.oddFruits.setIndex hfruit
  exit := (setIndex_hasBit hexit _).trans h.exit
  walls x y := (setIndex_hasBit hwall _).trans (h.walls x y)

/-- A maze that has just been made. -/
theorem makeMaze_tended {xDim yDim startFruits : ℤ} {fuel : ℕ} {tape : Tape}
    (h : m.makeMaze xDim yDim startFruits fuel tape = some (0, m')) : Tended m' m' := by
  obtain ⟨hwidth, hheight, connected, furnished, tape', tape'', hdug, hadd, hplace⟩ :=
    makeMaze_phases h
  have hmin : 0 < mazeMinXDim ∧ 0 < mazeMinYDim := by decide
  have hcleared := cleared_furnished hdug
  have hfurnished := addFruits_furnished (by omega) (by omega) hcleared hadd
  -- there is no fruit before the first one is added
  have hnone : OddFruits { connected.clearReach.clearWalls with nFruits := 0 } := by
    intro i hi
    have hplain := ((clearWalls_dug (clearReach_dug hdug)).plain i).1
    exact absurd hi (by rw [hplain]; exact Bool.false_ne_true)
  have hodd : furnished.OddFruits :=
    addFruits_oddFruits (by rw [hcleared.xDim_eq]; omega) (by rw [hcleared.yDim_eq]; omega)
      hnone hadd
  have hsound := (makeMaze_sound h).1
  simp only [placeExit, Option.bind_eq_bind, Option.bind_eq_some_iff, Prod.exists,
    Option.some.injEq] at hplace
  obtain ⟨x, y, drawn, -, rfl⟩ := hplace
  have hkeep : hasBit (furnished.cell x y ||| mazeExit) mazeFruit =
      hasBit (furnished.cell x y) mazeFruit := (hasBit_or _ _ _).trans (Bool.or_false _)
  refine ⟨hsound, hodd.setIndex fun hfruit ↦ Or.inl ?_, ?_, fun _ _ ↦ rfl⟩
  · rwa [hkeep] at hfruit
  · have hcell : (furnished.setCell x y (furnished.cell x y ||| mazeExit)).cells
        (furnished.index x y) = furnished.cell x y ||| mazeExit := setIndex_cells_self _ _ _
    exact (congrArg (hasBit · mazeExit) hcell).trans ((hasBit_or _ _ _).trans (Bool.or_true _))

/-! ### The lattice points -/

theorem OddPoint.mem_latticePoints (h : m.OddPoint x y) : (x, y) ∈ m.latticePoints := by
  obtain ⟨⟨hx0, hx1, hy0, hy1⟩, -, -⟩ := h
  rw [Maze.mem_latticePoints]
  omega

/-- A lattice point with a fruit is a point with odd coordinates itself. -/
theorem OddFruits.oddPoint (h : m.OddFruits) {p : ℤ × ℤ} (hp : p ∈ m.latticePoints)
    (hfruit : hasBit (m.cell p.1 p.2) mazeFruit = true) : m.OddPoint p.1 p.2 := by
  obtain ⟨x, y, hodd, hindex⟩ := h _ hfruit
  obtain ⟨⟨hx0, hx1, -, -⟩, -, -⟩ := id hodd
  rw [Maze.mem_latticePoints] at hp
  obtain ⟨hx, hy⟩ := index_inj hx0 hx1 hp.1.1 hp.1.2 hindex
  rwa [hx, hy]

/-- Each fruit is on one lattice point. -/
theorem card_fruits (hodd : m.OddFruits) {fruits : Finset ℤ} (h : m.FruitsAt fruits) :
    fruits.card =
      (m.latticePoints.filter fun p ↦ hasBit (m.cell p.1 p.2) mazeFruit = true).card := by
  symm
  apply Finset.card_bij fun p _ ↦ m.index p.1 p.2
  · intro p hp
    exact (h.mem _).mpr (Finset.mem_filter.mp hp).2
  · intro p hp q hq hindex
    obtain ⟨hpoint, hfruit⟩ := Finset.mem_filter.mp hp
    obtain ⟨hpoint', -⟩ := Finset.mem_filter.mp hq
    obtain ⟨⟨hx0, hx1, -, -⟩, -, -⟩ := hodd.oddPoint hpoint hfruit
    rw [Maze.mem_latticePoints] at hpoint'
    obtain ⟨hx, hy⟩ := index_inj hx0 hx1 hpoint'.1.1 hpoint'.1.2 hindex.symm
    exact Prod.ext hx.symm hy.symm
  · intro j hj
    have hfruit := (h.mem j).mp hj
    obtain ⟨x, y, hpoint, rfl⟩ := hodd j hfruit
    exact ⟨(x, y), Finset.mem_filter.mpr ⟨hpoint.mem_latticePoints, hfruit⟩, rfl⟩

/-- The lattice point with the exit bit is the exit. -/
theorem Tended.exit_iff (h : Tended m₀ m) {p : ℤ × ℤ} :
    (p ∈ m.latticePoints ∧ hasBit (m.cell p.1 p.2) mazeExit = true) ↔
      p = (m.exitX, m.exitY) := by
  obtain ⟨hx0, hx1, hy0, hy1⟩ := h.sound.exit_inside
  constructor
  · rintro ⟨hp, hexit⟩
    rw [Maze.mem_latticePoints] at hp
    obtain ⟨hx, hy⟩ := index_inj hx0 hx1 hp.1.1 hp.1.2 (h.sound.exit _ hexit)
    exact Prod.ext hx hy
  · rintro rfl
    refine ⟨?_, h.exit⟩
    rw [Maze.mem_latticePoints]
    omega

theorem Tended.fruitsKept (h : Tended m₀ m) : FruitsKept m₀ m := by
  obtain ⟨fruits, hfruits⟩ := h.sound.fruits
  obtain ⟨hx0, hx1, hy0, hy1⟩ := h.sound.exit_inside
  constructor
  · rw [← hfruits.card, card_fruits h.oddFruits hfruits]
  · exact fun p hp hfruit ↦ (h.oddFruits.oddPoint hp hfruit).2
  · exact ⟨(m.exitX, m.exitY), h.exit_iff.mpr rfl, fun p hp ↦ h.exit_iff.mp hp⟩
  · exact h.walls
  · intro x y
    have hexit := h.exit_iff (p := (x, y))
    unfold checkForWin
    by_cases hout : x < 0 ∨ x ≥ 2 * m.xDim ∨ y < 0 ∨ y ≥ 2 * m.yDim
    · rw [if_pos hout, hexit, Prod.mk.injEq]
      refine iff_of_false Bool.false_ne_true ?_
      rintro ⟨-, rfl, rfl⟩
      omega
    · have hpoint : (x, y) ∈ m.latticePoints := by
        rw [Maze.mem_latticePoints]
        omega
      rw [if_neg hout, Bool.and_eq_true, decide_eq_true_iff]
      simp only [hpoint, true_and]

end Maze

namespace Game

variable (blocks : ℕ → Image) {g g' : Game} {m₀ : Maze}

/-! ### The calls -/

theorem unveilSpace_tended (h : Maze.Tended m₀ g.maze) (x y : ℤ) :
    Maze.Tended m₀ (g.unveilSpace blocks x y).maze := by
  have hsound : Maze.Sound (g.unveilSpace blocks x y).maze :=
    (unveilSpace_keepsMaze g x y).sound h.sound
  unfold unveilSpace at hsound ⊢
  split_ifs at hsound ⊢
  · exact h
  · exact h
  · have hbits : ∀ mask, Maze.hasBit mazeReach mask = false →
        Maze.hasBit (g.maze.cell x y ||| mazeReach) mask = Maze.hasBit (g.maze.cell x y) mask := by
      intro mask hmask
      rw [Maze.hasBit_or, hmask, Bool.or_false]
    refine h.setIndex (hbits mazeWall rfl) (hbits mazeExit rfl) (fun hfruit ↦ Or.inl ?_) hsound
    rwa [hbits mazeFruit rfl] at hfruit

theorem checkForFruit_tended (h : Maze.Tended m₀ g.maze) (x y : ℤ) :
    Maze.Tended m₀ (g.checkForFruit blocks x y).1.maze := by
  have hsound : Maze.Sound (g.checkForFruit blocks x y).1.maze :=
    (checkForFruit_keepsMaze g x y).sound h.sound
  unfold checkForFruit at hsound ⊢
  by_cases hout : x < 0 ∨ x ≥ 2 * g.maze.xDim ∨ y < 0 ∨ y ≥ 2 * g.maze.yDim
  · rw [if_pos hout]
    exact h
  · rw [if_neg hout] at hsound ⊢
    by_cases hfruit : Maze.fruitNumber (g.maze.cell x y) = 0
    · simp only [hfruit]
      exact h
    · simp only [ne_eq, hfruit, not_false_eq_true, if_true] at hsound ⊢
      have hgone : Maze.hasBit (g.maze.cell x y &&& ~~~mazeFruit) mazeFruit = false :=
        Maze.hasBit_and_of_eq_zero rfl
      have heaten : Maze.Sound
          { g.maze.setCell x y (g.maze.cell x y &&& ~~~mazeFruit) with
            nFruits := g.maze.nFruits - 1 } → Maze.Tended m₀
          { g.maze.setCell x y (g.maze.cell x y &&& ~~~mazeFruit) with
            nFruits := g.maze.nFruits - 1 } := by
        refine h.setIndex (Maze.hasBit_and_of_eq rfl) (Maze.hasBit_and_of_eq rfl) fun hbit ↦ ?_
        rw [hgone] at hbit
        exact absurd hbit Bool.false_ne_true
      split_ifs at hsound ⊢ <;> exact heaten hsound

/-- A fruit is added to a point without one. -/
theorem addAFruitTo_tended (h : Maze.Tended m₀ g.maze) {shown : Bool} {fuel : ℕ} {tape : Tape}
    (hadd : g.addAFruitTo blocks shown fuel tape = some g') : Maze.Tended m₀ g'.maze := by
  have hmin : 0 < mazeMinXDim ∧ 0 < mazeMinYDim := by decide
  have hwide := h.sound.wide
  have hhigh := h.sound.high
  simp only [addAFruitTo, Option.bind_eq_bind, Option.bind_eq_some_iff, Prod.exists,
    Option.some.injEq] at hadd
  obtain ⟨x, y, drawn, hpick, hgame⟩ := hadd
  obtain ⟨hodd, hfree⟩ := Maze.pickPoint_odd (by omega) (by omega) hpick
  obtain ⟨hfruit, hwall, hexit⟩ := Maze.fruit_bits drawn.draw.1
  obtain ⟨fruits, hfruits⟩ := h.sound.fruits
  generalize (drawn.draw.1 % numFruitTypes + 1).toUInt8 * mazeFruit1 = fruit
    at hgame hfruit hwall hexit
  have hsameWall : Maze.hasBit (g.maze.cell x y ||| fruit) mazeWall =
      Maze.hasBit (g.maze.cell x y) mazeWall := by
    rw [Maze.hasBit_or, hwall, Bool.or_false]
  have hsameExit : Maze.hasBit (g.maze.cell x y ||| fruit) mazeExit =
      Maze.hasBit (g.maze.cell x y) mazeExit := by
    rw [Maze.hasBit_or, hexit, Bool.or_false]
  have hsound : Maze.Sound { g.maze.setCell x y (g.maze.cell x y ||| fruit) with
      nFruits := g.maze.nFruits + 1 } :=
    h.sound.setIndex hsameWall hsameExit
      (hfruits.add hodd.1 hfree (by rw [Maze.hasBit_or, hfruit, Bool.or_true]))
  have htended : Maze.Tended m₀ { g.maze.setCell x y (g.maze.cell x y ||| fruit) with
      nFruits := g.maze.nFruits + 1 } :=
    h.setIndex hsameWall hsameExit (fun _ ↦ Or.inr ⟨x, y, hodd, rfl⟩) hsound
  rw [← hgame]
  split_ifs <;> exact htended

theorem addAFruit_tended (h : Maze.Tended m₀ g.maze) {fuel : ℕ} {tape : Tape} {count : ℤ}
    (hadd : g.addAFruit blocks fuel tape = some (g', count)) :
    Maze.Tended m₀ g'.maze ∧ count = g'.maze.nFruits := by
  simp only [addAFruit, Option.bind_eq_bind, Option.bind_eq_some_iff, Option.some.injEq,
    Prod.mk.injEq] at hadd
  obtain ⟨added, hadded, hgame, hcount⟩ := hadd
  have htended := addAFruitTo_tended blocks h hadded
  rw [← hgame, ← hcount]
  split_ifs <;> exact ⟨htended, rfl⟩

theorem call_tended (g : Game) (call : MazeCall) (h : Maze.Tended m₀ g.maze) :
    Maze.Tended m₀ (g.call blocks call).maze := by
  cases call with
  | addAFruit fuel tape =>
    simp only [Game.call]
    cases hadd : g.addAFruit blocks fuel tape with
    | none => exact h
    | some result => exact (addAFruit_tended blocks h hadd).1
  | checkForFruit x y => exact checkForFruit_tended blocks h x y
  | unveilSpace x y => exact unveilSpace_tended blocks h x y

/-- Whatever calls are made in a maze that `make_maze` has returned, the fruits are counted right,
they lie on points with odd coordinates, there is one exit, the walls are as they were, and the game
is won at the exit when no fruit is left. -/
theorem everyState_fruitsKept {m m' : Maze} {xDim yDim startFruits : ℤ} {fuel : ℕ} {tape : Tape}
    (hmaze : m.makeMaze xDim yDim startFruits fuel tape = some (0, m')) (g : Game)
    (calls : List MazeCall) :
    EveryState (call blocks) (fun g ↦ Maze.FruitsKept m' g.maze) { g with maze := m' } calls := by
  have htended : Maze.Tended m' ({ g with maze := m' } : Game).maze := Maze.makeMaze_tended hmaze
  have hall := everyState_of_invariant (call_tended blocks) htended calls
  exact hall.mono fun _ h ↦ h.fruitsKept

/-- Calls at the exit, outside of the maze and on its right boundary, and one more fruit, in a maze
made by a single worm. -/
theorem everyState_fruitsKept_wormTape : ∃ m,
    Maze.unmade.makeMaze 14 8 1 300 Maze.wormTape = some (0, m) ∧
      EveryState (call fun _ _ ↦ 0) (fun g ↦ Maze.FruitsKept m g.maze)
        { Game.initial with maze := m }
        [.checkForFruit 3 1, .unveilSpace 28 4, .addAFruit 300 Maze.wormTape,
          .checkForFruit (-1) 99] := by
  obtain ⟨m, hmaze⟩ := Maze.makeMaze_wormTape
  exact ⟨m, hmaze, everyState_fruitsKept (fun _ _ ↦ 0) hmaze Game.initial _⟩

end Game

end Sp18.MazeGame
