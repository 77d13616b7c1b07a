import Sp18.MazeGame.Rooms

/-!
# The worms

While the worms dig, every element of the array is a wall or nothing, and `remaining` is the number
of rooms that are still walls. Each worm that is dropped takes at least the room it starts in, so
that the phase ends if every worm does (`wormPhase_ends`), and then all rooms are open
(`wormPhase_spec`).
-/

set_option autoImplicit false
set_option relaxedAutoImplicit false

namespace Sp18.MazeGame

open Foundation

namespace Maze

variable {m : Maze} {xDim yDim x y : ℤ} {w w' : Worm}

/-- The maze before anything is dug. -/
def filled (m : Maze) (xDim yDim : ℤ) : Maze :=
  { m with xDim := xDim, yDim := yDim, cells := fun _ ↦ mazeWall }

/-- The state before the first worm. -/
def firstWorm (m : Maze) (xDim yDim : ℤ) (tape : Tape) : Worm :=
  ⟨m.filled xDim yDim, tape, 0, 0, 0, xDim * yDim⟩

/-- The first phase of `make_maze`. -/
def wormPhase (m : Maze) (xDim yDim : ℤ) (fuel : ℕ) (tape : Tape) : Option Worm :=
  doWhile (Worm.drop fuel) fuel (m.firstWorm xDim yDim tape)

/-- An element that is a wall or nothing has no marks. -/
def Bare (m : Maze) : Prop := ∀ i, m.cells i = mazeWall ∨ m.cells i = mazeNone

theorem Bare.setIndex (h : m.Bare) (i : ℤ) : (m.setIndex i mazeNone).Bare := by
  intro j
  by_cases hj : j = i
  · rw [hj, setIndex_cells_self]
    exact Or.inr rfl
  · rw [setIndex_cells_of_ne hj]
    exact h j

theorem Bare.roomsWith_reach (h : m.Bare) : m.roomsWith mazeReach = ∅ := by
  refine Finset.filter_eq_empty_iff.mpr fun p _ ↦ ?_
  rcases h (m.roomIndex p) with hcell | hcell
  · rw [hcell]
    decide
  · rw [hcell]
    decide

/-- A lattice point inside with an even coordinate is not that of a room. -/
theorem roomIndex_ne_index (hin : m.Inside x y) (heven : x % 2 = 0 ∨ y % 2 = 0) :
    ∀ p ∈ m.rooms, m.roomIndex p ≠ m.index x y := by
  intro p hp heq
  obtain ⟨hx0, hx1, -, -⟩ := hin
  rw [mem_rooms] at hp
  obtain ⟨hx, hy⟩ := index_inj hx0 hx1 (by omega) (by omega) heq
  omega

theorem card_walled_pos (hodd : m.OddPoint x y) (hwall : hasBit (m.cell x y) mazeWall = true) :
    0 < (m.roomsWith mazeWall).card := by
  obtain ⟨hroom, hx, hy⟩ := hodd.exists_room
  refine Finset.card_pos.mpr ⟨(x / 2, y / 2), ?_⟩
  rw [mem_roomsWith, roomIndex, ← hx, ← hy]
  exact ⟨hroom, hwall⟩

/-- Emptying a room takes it from the walled ones. -/
theorem card_walled_erase (hodd : m.OddPoint x y) :
    ((m.setCell x y mazeNone).roomsWith mazeWall).card =
      (m.roomsWith mazeWall).card - if hasBit (m.cell x y) mazeWall then 1 else 0 := by
  obtain ⟨hroom, hx, hy⟩ := hodd.exists_room
  have hindex : m.index x y = m.roomIndex (x / 2, y / 2) := by
    rw [roomIndex, ← hx, ← hy]
  rw [setCell, cell, hindex, roomsWith_erase hroom (hasBit_mazeNone _)]
  by_cases hwall : hasBit (m.cells (m.roomIndex (x / 2, y / 2))) mazeWall = true
  · rw [Finset.card_erase_of_mem (mem_roomsWith.mpr ⟨hroom, hwall⟩), if_pos hwall]
  · rw [Finset.erase_eq_of_notMem fun hmem ↦ hwall (mem_roomsWith.mp hmem).2, if_neg hwall,
      Nat.sub_zero]

namespace Worm

/-- The worms have dug some rooms, and the others are counted. -/
structure Digging (xDim yDim : ℤ) (w : Worm) : Prop where
  dug : Dug xDim yDim w.maze
  bare : w.maze.Bare
  remaining_eq : w.remaining = (w.maze.roomsWith mazeWall).card

/-- The room where a worm starts is no longer counted. -/
theorem Digging.start (h : w.Digging xDim yDim) (hodd : w.maze.OddPoint x y)
    (hwall : hasBit (w.maze.cell x y) mazeWall = true) (tape : Tape) (prefDir : ℕ) :
    Digging xDim yDim
      ⟨w.maze.setCell x y mazeNone, tape, x, y, prefDir, w.remaining - 1⟩ where
  dug := h.dug.setCell hodd.1
  bare := h.bare.setIndex _
  remaining_eq := by
    have hpos := card_walled_pos hodd hwall
    have hremaining := h.remaining_eq
    dsimp only
    rw [card_walled_erase hodd, if_pos hwall]
    omega

theorem wormStep_even {dir : ℕ} (hx : x % 2 = 1) (hy : y % 2 = 1) :
    (x + (wormStep dir).1) % 2 = 0 ∨ (y + (wormStep dir).2) % 2 = 0 := by
  unfold wormStep
  split <;> (dsimp only; omega)

/-- A move counts the room it leads to if this is a wall. -/
theorem move_digging (h : w.Digging xDim yDim) (hodd : w.maze.OddPoint w.x w.y) {dir : ℕ}
    (hdir : dir ≤ 3) (hpos : 0 < w.weight dir) :
    (w.move dir).Digging xDim yDim ∧ (w.move dir).remaining ≤ w.remaining := by
  obtain ⟨hbetween, hto⟩ := weight_inside hodd hdir hpos
  have heven := roomIndex_ne_index hbetween (wormStep_even hodd.2.1 hodd.2.2)
  have hsame : (w.maze.setCell (w.x + (wormStep dir).1) (w.y + (wormStep dir).2)
      mazeNone).roomsWith mazeWall = w.maze.roomsWith mazeWall := roomsWith_setIndex_of_ne heven
  have hdug := h.dug.setCell hbetween
  have hbare : (w.maze.setCell (w.x + (wormStep dir).1) (w.y + (wormStep dir).2)
      mazeNone).Bare := h.bare.setIndex _
  have hodd' : (w.maze.setCell (w.x + (wormStep dir).1) (w.y + (wormStep dir).2)
      mazeNone).OddPoint (w.x + 2 * (wormStep dir).1) (w.y + 2 * (wormStep dir).2) := hto
  have hremaining := h.remaining_eq
  rw [← hsame] at hremaining
  simp only [move]
  generalize w.maze.setCell (w.x + (wormStep dir).1) (w.y + (wormStep dir).2) mazeNone = maze at *
  generalize w.x + 2 * (wormStep dir).1 = x' at *
  generalize w.y + 2 * (wormStep dir).2 = y' at *
  have hcard := card_walled_erase hodd'
  obtain hcell | hcell : maze.cell x' y' = mazeWall ∨ maze.cell x' y' = mazeNone :=
    hbare (maze.index x' y')
  · have hwall : hasBit (maze.cell x' y') mazeWall = true := by
      rw [hcell]
      rfl
    have hpositive := card_walled_pos hodd' hwall
    rw [if_pos hwall] at hcard
    rw [if_pos hcell]
    exact ⟨⟨hdug.setCell hodd'.1, hbare.setIndex _, by dsimp only; omega⟩, by omega⟩
  · have hnone : ¬ hasBit (maze.cell x' y') mazeWall = true := by
      rw [hcell]
      decide
    have hother : maze.cell x' y' ≠ mazeWall := by
      rw [hcell]
      decide
    rw [if_neg hnone] at hcard
    rw [if_neg hother]
    exact ⟨⟨hdug.setCell hodd'.1, hbare.setIndex _, by dsimp only; omega⟩, le_rfl⟩

/-- One round of a worm. -/
theorem next_digging {again : Bool} (hheight : 1 < yDim) (h : w.Digging xDim yDim)
    (hodd : w.maze.OddPoint w.x w.y) (hnext : w.next = some (w', again)) :
    w'.Digging xDim yDim ∧ w'.remaining ≤ w.remaining := by
  have hpos : 0 < w.wt 3 := wt_pos (by rw [h.dug.yDim_eq]; exact hheight)
  obtain ⟨hdir, hweight⟩ := pickDir_weight (Nat.mod_lt w.tape.draw.1 hpos)
  simp only [next] at hnext
  split_ifs at hnext
  · cases hnext
    exact ⟨⟨h.dug, h.bare, h.remaining_eq⟩, le_rfl⟩
  · cases hnext
    exact move_digging (w := { w with tape := w.tape.draw.2 })
      ⟨h.dug, h.bare, h.remaining_eq⟩ hodd hdir hweight

/-- A worm that is dropped takes a room at least. -/
theorem drop_digging {again : Bool} {fuel : ℕ} (hwidth : 0 < xDim) (hheight : 1 < yDim)
    (h : w.Digging xDim yDim) (hdrop : w.drop fuel = some (w', again)) :
    w'.Digging xDim yDim ∧ w'.remaining < w.remaining ∧
      again = decide (w'.remaining > 0) := by
  simp only [drop, Option.bind_eq_bind, Option.bind_eq_some_iff, Prod.exists, Option.some.injEq,
    Prod.mk.injEq] at hdrop
  obtain ⟨x, y, tape, hpick, worm, hloop, rfl, rfl⟩ := hdrop
  obtain ⟨hodd, hwall⟩ := pickPoint_odd (by rw [h.dug.xDim_eq]; exact hwidth)
    (by rw [h.dug.yDim_eq]; omega) hpick
  have hstart := h.start hodd (by simpa using hwall) tape.draw.2 (tape.draw.1 % 4)
  obtain ⟨⟨hdigging, -⟩, hless⟩ := doWhile_invariant
    (fun w' : Worm ↦ (w'.Digging xDim yDim ∧ w'.Digs xDim yDim) ∧ w'.remaining ≤ w.remaining - 1)
    (fun s s' again hs hnext ↦ by
      obtain ⟨hkeep, hle⟩ := next_digging hheight hs.1.1 hs.1.2.odd hnext
      exact ⟨⟨hkeep, next_digs hheight hs.1.2 hnext⟩, hle.trans hs.2⟩)
    ⟨⟨hstart, hstart.dug, hodd⟩, le_rfl⟩ hloop
  exact ⟨hdigging, by omega, rfl⟩

end Worm

/-! ### The phase -/

theorem pickPoint_mono {again : UInt8 → Bool} {tape : Tape} {fuel fuel' : ℕ}
    {result : ℤ × ℤ × Tape} (hle : fuel ≤ fuel') (h : m.pickPoint again fuel tape = some result) :
    m.pickPoint again fuel' tape = some result :=
  doWhile_mono (fun _ _ hnext ↦ hnext) hle h

theorem Worm.fuelMono_drop : FuelMono Worm.drop := by
  intro fuel fuel' w next hle h
  simp only [drop, Option.bind_eq_bind, Option.bind_eq_some_iff, Prod.exists] at *
  obtain ⟨x, y, tape, hpick, worm, hloop, hnext⟩ := h
  exact ⟨x, y, tape, pickPoint_mono hle hpick, worm, doWhile_mono (fun _ _ h ↦ h) hle hloop, hnext⟩

theorem firstWorm_digging (m : Maze) (hwidth : 0 < xDim) (hheight : 0 < yDim) (tape : Tape) :
    (m.firstWorm xDim yDim tape).Digging xDim yDim where
  dug := ⟨rfl, rfl, fun _ _ _ ↦ mazeWall_bits.1, fun _ ↦ mazeWall_bits.2⟩
  bare _ := Or.inl rfl
  remaining_eq := by
    have hall : (m.filled xDim yDim).roomsWith mazeWall = grid xDim yDim :=
      Finset.filter_true_of_mem fun _ _ ↦ mazeWall_bits.1
    simp only [firstWorm, hall, card_grid]
    push_cast
    rw [Int.toNat_of_nonneg hwidth.le, Int.toNat_of_nonneg hheight.le]

/-- The phase ends if each worm does: its draws give a wall, and it turns around in the end. -/
theorem wormPhase_ends (m : Maze) (hwidth : 0 < xDim) (hheight : 1 < yDim) {tape : Tape}
    (hworms : ∀ w, Relation.ReflTransGen (Iterates Worm.drop) (m.firstWorm xDim yDim tape) w →
      ∃ fuel next, w.drop fuel = some next) :
    ∃ fuel w, m.wormPhase xDim yDim fuel tape = some w := by
  refine doWhile_terminates Worm.fuelMono_drop (Worm.Digging xDim yDim)
    (fun w ↦ w.remaining.toNat) (fun w w' hw hnext ↦ ?_)
    (firstWorm_digging m hwidth (by omega) tape) fun w hreach _ ↦ hworms w hreach
  obtain ⟨fuel, hdrop⟩ := hnext
  obtain ⟨hw', hless, hagain⟩ := Worm.drop_digging hwidth hheight hw hdrop
  have hleft : w'.remaining > 0 := by simpa using hagain.symm
  exact ⟨hw', by omega⟩

/-- What the worms leave: all rooms are open, and nothing is marked. -/
structure DugOut (xDim yDim : ℤ) (w : Worm) : Prop where
  digs : w.Digs xDim yDim
  walled : w.maze.roomsWith mazeWall = ∅
  marked : w.maze.roomsWith mazeReach = ∅

theorem wormPhase_spec {fuel : ℕ} {tape : Tape} (hwidth : 0 < xDim) (hheight : 1 < yDim)
    (h : m.wormPhase xDim yDim fuel tape = some w) : DugOut xDim yDim w := by
  obtain ⟨last, hlast, hdrop⟩ := doWhile_last (Worm.Digging xDim yDim)
    (fun w w' hw hdrop ↦ (Worm.drop_digging hwidth hheight hw hdrop).1)
    (firstWorm_digging m hwidth (by omega) tape) h
  obtain ⟨hdigging, -, hagain⟩ := Worm.drop_digging hwidth hheight hlast hdrop
  have hdone : ¬ w.remaining > 0 := by simpa using hagain.symm
  have hcount := hdigging.remaining_eq
  exact ⟨Worm.drop_digs hwidth hheight hlast.dug hdrop, Finset.card_eq_zero.mp (by omega),
    hdigging.bare.roomsWith_reach⟩

end Maze

end Sp18.MazeGame
