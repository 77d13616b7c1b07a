import Sp18.MazeGame.BuiltMaze
import Sp18.Foundation.BreadthFirst
import Sp18.Foundation.Grid

/-!
# Rooms and passages

The lattice points with odd coordinates are the rooms of a maze, a grid of `xDim` by `yDim`, and
between two adjacent rooms there is one lattice point, the passage. `mark_maze_area` is a
breadth-first search over the rooms: it follows the open passages and stops at marked rooms
(`markMazeArea_spec`), in lockstep with the search on the grid (`Search.next_follows`).
-/

set_option autoImplicit false
set_option relaxedAutoImplicit false

namespace Sp18.MazeGame

open Foundation

namespace Maze

/-- The rooms, by column and row. Room `(i, j)` is the lattice point `(2 * i + 1, 2 * j + 1)`. -/
def rooms (m : Maze) : Finset (ℤ × ℤ) := grid m.xDim m.yDim

/-- The element of the array for a room. -/
def roomIndex (m : Maze) (p : ℤ × ℤ) : ℤ := m.index (2 * p.1 + 1) (2 * p.2 + 1)

/-- The element of the array between two adjacent rooms. -/
def passage (m : Maze) (p q : ℤ × ℤ) : ℤ := m.index (p.1 + q.1 + 1) (p.2 + q.2 + 1)

/-- The rooms behind the open passages of a room. -/
def openNeighbours (m : Maze) (p : ℤ × ℤ) : List (ℤ × ℤ) :=
  (neighbours4 p).filter fun q ↦ !hasBit (m.cells (m.passage p q)) mazeWall

/-- The rooms with a bit. -/
def roomsWith (m : Maze) (mask : UInt8) : Finset (ℤ × ℤ) :=
  m.rooms.filter fun p ↦ hasBit (m.cells (m.roomIndex p)) mask = true

variable {m m' : Maze} {xDim yDim : ℤ} {p q r : ℤ × ℤ} {mask value : UInt8}

theorem mem_rooms : p ∈ m.rooms ↔ (0 ≤ p.1 ∧ p.1 < m.xDim) ∧ 0 ≤ p.2 ∧ p.2 < m.yDim := mem_grid

theorem mem_roomsWith :
    p ∈ m.roomsWith mask ↔ p ∈ m.rooms ∧ hasBit (m.cells (m.roomIndex p)) mask = true :=
  Finset.mem_filter

theorem roomsWith_subset (m : Maze) (mask : UInt8) : m.roomsWith mask ⊆ m.rooms :=
  Finset.filter_subset _ _

theorem mem_openNeighbours : q ∈ m.openNeighbours p ↔
    q ∈ neighbours4 p ∧ hasBit (m.cells (m.passage p q)) mazeWall = false := by
  rw [openNeighbours, List.mem_filter, Bool.not_eq_true']

theorem passage_comm (m : Maze) (p q : ℤ × ℤ) : m.passage p q = m.passage q p := by
  rw [passage, passage, add_comm p.1, add_comm p.2]

/-! ### Rooms as lattice points -/

theorem oddPoint_room (hp : p ∈ m.rooms) : m.OddPoint (2 * p.1 + 1) (2 * p.2 + 1) := by
  rw [mem_rooms] at hp
  simp only [OddPoint, Inside]
  omega

/-- The point of a room is that of no other. -/
theorem OddPoint.exists_room {x y : ℤ} (h : m.OddPoint x y) :
    (x / 2, y / 2) ∈ m.rooms ∧ x = 2 * (x / 2) + 1 ∧ y = 2 * (y / 2) + 1 := by
  simp only [OddPoint, Inside] at h
  rw [mem_rooms]
  dsimp only
  omega

theorem roomIndex_inj (hp : p ∈ m.rooms) (hq : q ∈ m.rooms)
    (h : m.roomIndex p = m.roomIndex q) : p = q := by
  rw [mem_rooms] at hp hq
  obtain ⟨hx, hy⟩ := index_inj (m := m) (by omega) (by omega) (by omega) (by omega) h
  exact Prod.ext (by omega) (by omega)

theorem passage_inside (hp : p ∈ m.rooms) (hq : q ∈ m.rooms) :
    m.Inside (p.1 + q.1 + 1) (p.2 + q.2 + 1) := by
  rw [mem_rooms] at hp hq
  rw [Inside]
  omega

/-- A passage is no room. -/
theorem roomIndex_ne_passage (hr : r ∈ m.rooms) (hp : p ∈ m.rooms) (hq : q ∈ m.rooms)
    (hadj : q ∈ neighbours4 p) : m.roomIndex r ≠ m.passage p q := by
  intro heq
  obtain ⟨hx0, hx1, -, -⟩ := passage_inside hp hq
  rw [mem_rooms] at hr
  rw [mem_neighbours4] at hadj
  obtain ⟨hx, hy⟩ := index_inj hx0 hx1 (by omega) (by omega) heq
  omega

/-- Two adjacent rooms have a passage of their own. -/
theorem passage_inj {p' q' : ℤ × ℤ} (hp : p ∈ m.rooms) (hq : q ∈ m.rooms)
    (hadj : q ∈ neighbours4 p) (hp' : p' ∈ m.rooms) (hq' : q' ∈ m.rooms)
    (hadj' : q' ∈ neighbours4 p') (h : m.passage p' q' = m.passage p q) :
    p' = p ∧ q' = q ∨ p' = q ∧ q' = p := by
  obtain ⟨hx0, hx1, -, -⟩ := passage_inside hp hq
  obtain ⟨hx0', hx1', -, -⟩ := passage_inside hp' hq'
  obtain ⟨hx, hy⟩ := index_inj hx0 hx1 hx0'.le hx1'.le h
  rw [mem_neighbours4] at hadj hadj'
  simp only [Prod.ext_iff]
  omega

/-- The boundaries are walls. -/
def Bordered (m : Maze) : Prop := ∀ x y, m.OnBorder x y → m.wall x y = true

theorem Dug.bordered (h : Dug xDim yDim m) : m.Bordered := h.border

/-- An open passage leads to a room. -/
theorem Bordered.openNeighbours_rooms (h : m.Bordered) (hp : p ∈ m.rooms)
    (hq : q ∈ m.openNeighbours p) : q ∈ m.rooms := by
  obtain ⟨hadj, hopen⟩ := mem_openNeighbours.mp hq
  by_contra hout
  have hborder : m.OnBorder (p.1 + q.1 + 1) (p.2 + q.2 + 1) := by
    rw [mem_rooms] at hp hout
    rw [mem_neighbours4] at hadj
    rw [OnBorder]
    omega
  have hwall := h _ _ hborder
  rw [wall, cell, ← passage, hopen] at hwall
  cases hwall

theorem Dug.first_mem_rooms (h : Dug xDim yDim m) (hwidth : 0 < xDim) (hheight : 0 < yDim) :
    (0, 0) ∈ m.rooms := by
  rw [mem_rooms, h.xDim_eq, h.yDim_eq]
  exact ⟨⟨le_rfl, hwidth⟩, le_rfl, hheight⟩

theorem Dug.card_rooms (h : Dug xDim yDim m) (hp : p ∈ m.rooms) :
    (m.rooms.card : ℤ) = xDim * yDim := by
  rw [mem_rooms, h.xDim_eq, h.yDim_eq] at hp
  rw [rooms, card_grid, h.xDim_eq, h.yDim_eq]
  push_cast
  rw [Int.toNat_of_nonneg (by omega), Int.toNat_of_nonneg (by omega)]

/-! ### Changes of an element -/

/-- Mazes of the same size with the same walls. -/
structure SameWalls (m m' : Maze) : Prop where
  xDim : m'.xDim = m.xDim
  yDim : m'.yDim = m.yDim
  wall : ∀ i, hasBit (m'.cells i) mazeWall = hasBit (m.cells i) mazeWall

namespace SameWalls

theorem index (h : m.SameWalls m') (x y : ℤ) : m'.index x y = m.index x y := by
  rw [Maze.index, Maze.index, h.xDim]

theorem rooms (h : m.SameWalls m') : m'.rooms = m.rooms := by
  rw [Maze.rooms, Maze.rooms, h.xDim, h.yDim]

theorem openNeighbours (h : m.SameWalls m') (p : ℤ × ℤ) :
    m'.openNeighbours p = m.openNeighbours p := by
  simp only [Maze.openNeighbours, passage, h.index, h.wall]

end SameWalls

/-- A store to an element that belongs to no room. -/
theorem roomsWith_setIndex_of_ne {i : ℤ} (h : ∀ p ∈ m.rooms, m.roomIndex p ≠ i) :
    (m.setIndex i value).roomsWith mask = m.roomsWith mask := by
  refine Finset.filter_congr fun p hp ↦ ?_
  change hasBit ((m.setIndex i value).cells (m.roomIndex p)) mask = true ↔ _
  rw [setIndex_cells_of_ne (h p hp)]

/-- A store to the element of a room that sets the bit. -/
theorem roomsWith_insert (hp : p ∈ m.rooms) (hbit : hasBit value mask = true) :
    (m.setIndex (m.roomIndex p) value).roomsWith mask = insert p (m.roomsWith mask) := by
  ext q
  rw [Finset.mem_insert, mem_roomsWith, mem_roomsWith]
  change q ∈ m.rooms ∧ hasBit ((m.setIndex (m.roomIndex p) value).cells (m.roomIndex q)) mask = true
    ↔ _
  by_cases hpq : q = p
  · rw [hpq, setIndex_cells_self]
    exact iff_of_true ⟨hp, hbit⟩ (Or.inl rfl)
  · rw [or_iff_right hpq]
    refine and_congr_right fun hq ↦ ?_
    rw [setIndex_cells_of_ne fun heq ↦ hpq (roomIndex_inj hq hp heq)]

/-- A store to the element of a room that clears the bit. -/
theorem roomsWith_erase (hp : p ∈ m.rooms) (hbit : hasBit value mask = false) :
    (m.setIndex (m.roomIndex p) value).roomsWith mask = (m.roomsWith mask).erase p := by
  ext q
  rw [Finset.mem_erase, mem_roomsWith, mem_roomsWith]
  change q ∈ m.rooms ∧ hasBit ((m.setIndex (m.roomIndex p) value).cells (m.roomIndex q)) mask = true
    ↔ _
  by_cases hpq : q = p
  · rw [hpq, setIndex_cells_self, hbit]
    exact iff_of_false (fun h ↦ Bool.false_ne_true h.2) fun h ↦ h.1 rfl
  · rw [and_iff_right hpq]
    refine and_congr_right fun hq ↦ ?_
    rw [setIndex_cells_of_ne fun heq ↦ hpq (roomIndex_inj hq hp heq)]

theorem sameWalls_mark (m : Maze) (i : ℤ) :
    m.SameWalls (m.setIndex i (m.cells i ||| mazeReach)) := by
  have hbit : hasBit (m.cells i ||| mazeReach) mazeWall = hasBit (m.cells i) mazeWall := by
    rw [hasBit_or]
    exact Bool.or_false _
  exact ⟨rfl, rfl, setIndex_hasBit hbit⟩

theorem SameWalls.trans {m'' : Maze} (h : m.SameWalls m') (h' : m'.SameWalls m'') :
    m.SameWalls m'' :=
  ⟨h'.xDim.trans h.xDim, h'.yDim.trans h.yDim, fun i ↦ (h'.wall i).trans (h.wall i)⟩

/-! ### The search -/

/-- The search in the array stands where the search on the grid does. -/
structure Search.Follows (m : Maze) (s : Search) (b : BreadthFirst (ℤ × ℤ)) : Prop where
  walls : m.SameWalls s.maze
  marked : s.maze.roomsWith mazeReach = b.marked
  queue : s.queue = b.queue.map m.roomIndex
  queue_rooms : ∀ p ∈ b.queue, p ∈ m.rooms
  count : s.qEnd = b.count

theorem Search.Follows.marked_iff {s : Search} {b : BreadthFirst (ℤ × ℤ)} (hs : s.Follows m b)
    (hq : q ∈ m.rooms) : hasBit (s.maze.cells (m.roomIndex q)) mazeReach = true ↔ q ∈ b.marked := by
  have hindex : s.maze.roomIndex q = m.roomIndex q := hs.walls.index _ _
  rw [← hs.marked, mem_roomsWith, hs.walls.rooms, hindex]
  exact (and_iff_right hq).symm

/-- The room behind a neighbour in the array, which is the passage between the two rooms. -/
structure Behind (m : Maze) (p q : ℤ × ℤ) (offset : ℤ) : Prop where
  adjacent : q ∈ neighbours4 p
  passage_eq : m.roomIndex p + offset = m.passage p q
  room_eq : m.roomIndex p + 2 * offset = m.roomIndex q

/-- The four offsets of the search. -/
theorem behind_offsets (m : Maze) (p : ℤ × ℤ) :
    (m.Behind p (p.1, p.2 - 1) (-2 * m.xDim) ∧ m.Behind p (p.1 + 1, p.2) 1) ∧
      m.Behind p (p.1, p.2 + 1) (2 * m.xDim) ∧ m.Behind p (p.1 - 1, p.2) (-1) := by
  refine ⟨⟨⟨?_, ?_, ?_⟩, ?_, ?_, ?_⟩, ⟨?_, ?_, ?_⟩, ?_, ?_, ?_⟩
  all_goals first
    | simp only [neighbours4, List.mem_cons, true_or, or_true]
    | (simp only [roomIndex, passage, index]; ring)

theorem Search.explore_follows (h : m.Bordered) {s : Search} {b : BreadthFirst (ℤ × ℤ)}
    (hs : s.Follows m b) (hp : p ∈ m.rooms) {offset : ℤ} (hq : m.Behind p q offset) :
    (s.explore (m.roomIndex p) offset).Follows m
      (if !hasBit (m.cells (m.passage p q)) mazeWall then b.visit q else b) := by
  rw [explore, hq.passage_eq, hq.room_eq, hs.walls.wall]
  by_cases hopen : hasBit (m.cells (m.passage p q)) mazeWall = false
  · have hroom : q ∈ m.rooms :=
      h.openNeighbours_rooms hp (mem_openNeighbours.mpr ⟨hq.adjacent, hopen⟩)
    have hmarked := hs.marked_iff hroom
    rw [hopen, Bool.not_false, Bool.true_and, if_pos rfl]
    by_cases hnew : q ∈ b.marked
    · rw [hmarked.mpr hnew, BreadthFirst.visit_of_mem hnew]
      exact hs
    · rw [Bool.eq_false_iff.mpr (mt hmarked.mp hnew), BreadthFirst.visit_of_notMem hnew]
      rw [Bool.not_false, if_pos rfl]
      have hindex : s.maze.roomIndex q = m.roomIndex q := hs.walls.index _ _
      constructor
      · exact hs.walls.trans (sameWalls_mark s.maze _)
      · rw [← hindex, roomsWith_insert (hs.walls.rooms ▸ hroom), hs.marked]
        rw [hasBit_or]
        exact Bool.or_true _
      · simp only [hs.queue, List.map_append, List.map_cons, List.map_nil]
      · intro r hr
        rcases List.mem_append.mp hr with hr | hr
        · exact hs.queue_rooms r hr
        · rwa [List.mem_singleton.mp hr]
      · simp only [hs.count]
  · rw [Bool.not_eq_false] at hopen
    rw [hopen]
    exact hs

/-- The room at the head of the queue, when it has been taken out. -/
theorem Search.Follows.pop {s : Search} {b : BreadthFirst (ℤ × ℤ)} (hs : s.Follows m b)
    {cur : ℤ × ℤ} {rest : List (ℤ × ℤ)} (hqueue : b.queue = cur :: rest) :
    s.queue = m.roomIndex cur :: rest.map m.roomIndex ∧ cur ∈ m.rooms ∧
      Follows m { s with queue := rest.map m.roomIndex } { b with queue := rest } := by
  refine ⟨?_, hs.queue_rooms cur (hqueue ▸ List.mem_cons_self), hs.walls, hs.marked, rfl,
    fun p hp ↦ hs.queue_rooms p (hqueue ▸ List.mem_cons_of_mem cur hp), hs.count⟩
  rw [hs.queue, hqueue]
  rfl

/-- A round of the search in the array is a round of the search on the grid. -/
theorem Search.next_follows (h : m.Bordered) {s : Search} {b b' : BreadthFirst (ℤ × ℤ)}
    {again : Bool} (hs : s.Follows m b)
    (hnext : BreadthFirst.explore m.openNeighbours b = some (b', again)) :
    ∃ s', s.next = some (s', again) ∧ s'.Follows m b' := by
  rcases BreadthFirst.explore_cases hnext with ⟨rfl, hqueue, rfl⟩ | ⟨rfl, cur, rest, hqueue, rfl⟩
  · have hempty : s.queue = [] := by
      rw [hs.queue, hqueue]
      rfl
    refine ⟨s, ?_, hs⟩
    unfold next
    rw [hempty]
  · obtain ⟨hhead, hcur, hpop⟩ := hs.pop hqueue
    obtain ⟨⟨hbehindUp, hbehindRight⟩, hbehindDown, hbehindLeft⟩ := m.behind_offsets cur
    have hup := explore_follows h hpop hcur hbehindUp
    have hright := explore_follows h hup hcur hbehindRight
    have hdown := explore_follows h hright hcur hbehindDown
    have hleft := explore_follows h hdown hcur hbehindLeft
    have hround : Follows m
        (((((Search.mk s.maze (rest.map m.roomIndex) s.qEnd).explore (m.roomIndex cur)
          (-2 * m.xDim)).explore (m.roomIndex cur) 1).explore (m.roomIndex cur)
            (2 * m.xDim)).explore (m.roomIndex cur) (-1))
        ((m.openNeighbours cur).foldl BreadthFirst.visit { b with queue := rest }) := by
      rw [openNeighbours, List.foldl_filter]
      exact hleft
    refine ⟨_, ?_, hround⟩
    unfold next
    rw [hhead]
    simp only [hs.walls.xDim, hright.walls.xDim]

theorem Search.follows_start (hp : p ∈ m.rooms) :
    Search.Follows m ⟨m.setIndex (m.roomIndex p) (m.cells (m.roomIndex p) ||| mazeReach),
        [m.roomIndex p], 1⟩ (BreadthFirst.start (m.roomsWith mazeReach) p) where
  walls := sameWalls_mark m _
  marked := roomsWith_insert hp ((hasBit_or _ _ _).trans (Bool.or_true _))
  queue := rfl
  queue_rooms q hq := by rwa [List.mem_singleton.mp hq]
  count := rfl

/-- The marks that a search from a room leaves, and their number. -/
structure MarkedFrom (m : Maze) (p : ℤ × ℤ) (m' : Maze) (count : ℤ) : Prop where
  walls : m.SameWalls m'
  marks : BreadthFirst.Marks m.openNeighbours (m.roomsWith mazeReach) m.rooms p
    ⟨m'.roomsWith mazeReach, [], count⟩

/-- `mark_maze_area` ends and marks what can be reached from an unmarked room. -/
theorem markMazeArea_spec (h : Dug xDim yDim m) (hp : p ∈ m.rooms)
    (hnew : p ∉ m.roomsWith mazeReach) :
    ∃ fuel m' count, m.markMazeArea (2 * p.1 + 1) (2 * p.2 + 1) fuel = some (m', count) ∧
      m.MarkedFrom p m' count := by
  obtain ⟨fuel, b, hloop, hmarks⟩ := BreadthFirst.search_spec
    (fun v hv w hw ↦ h.bordered.openNeighbours_rooms hv hw) hnew hp (roomsWith_subset m mazeReach)
  obtain ⟨s, hloop', hs⟩ := doWhile_simulation (fun s b ↦ Search.Follows m s b)
    (fun s b b' again hs hnext ↦ Search.next_follows h.bordered hs hnext) (Search.follows_start hp)
    hloop
  refine ⟨fuel, s.maze, s.qEnd, ?_, hs.walls, ?_⟩
  · rw [markMazeArea, ← roomIndex, hloop']
    rfl
  · rw [hs.marked, hs.count]
    exact ⟨hmarks.before_subset, hmarks.marked_subset, hmarks.first_mem, hmarks.count_eq,
      hmarks.path, hmarks.closed⟩

theorem markMazeArea_mono {x y : ℤ} {fuel fuel' : ℕ} {result : Maze × ℤ} (hle : fuel ≤ fuel')
    (h : m.markMazeArea x y fuel = some result) : m.markMazeArea x y fuel' = some result := by
  simp only [markMazeArea, Option.map_eq_some_iff] at *
  obtain ⟨s, hloop, hresult⟩ := h
  exact ⟨s, doWhile_mono (fun _ _ hnext ↦ hnext) hle hloop, hresult⟩

/-- However much fuel it needs, the search leaves the same marks. -/
theorem markMazeArea_markedFrom {fuel : ℕ} {count : ℤ} (h : Dug xDim yDim m) (hp : p ∈ m.rooms)
    (hnew : p ∉ m.roomsWith mazeReach)
    (hmark : m.markMazeArea (2 * p.1 + 1) (2 * p.2 + 1) fuel = some (m', count)) :
    m.MarkedFrom p m' count := by
  obtain ⟨fuel', m'', count', hmark', hmarked⟩ := markMazeArea_spec h hp hnew
  have hsame := (markMazeArea_mono (le_max_left fuel fuel') hmark).symm.trans
    (markMazeArea_mono (le_max_right fuel fuel') hmark')
  obtain ⟨rfl, rfl⟩ := Prod.mk.inj (Option.some_inj.mp hsame)
  exact hmarked

end Maze

end Sp18.MazeGame
