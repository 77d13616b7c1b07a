import Sp18.MazeGame.Connecting
import Mathlib.Data.Set.Card

/-!
# What `mark_maze_area` marks

The search of `mark_maze_area` writes to elements of rooms only, and of these it sets one bit
(`Search.Touched`). Together with the search on the grid that it follows, this gives the maze after
it, element by element: the bit is set in the rooms that are connected to the start through open
passages and rooms that have not been marked before, and nothing else has changed
(`markMazeArea_exact`).
-/

set_option autoImplicit false
set_option relaxedAutoImplicit false

namespace Sp18.MazeGame

open Foundation

namespace Maze

variable {m m' : Maze} {p q : ℤ × ℤ} {x y : ℤ}

/-- An open passage leads from a room to one that is not marked. -/
def Leads (m : Maze) (p q : ℤ × ℤ) : Prop :=
  q ∈ m.openNeighbours p ∧ q ∉ m.roomsWith mazeReach

/-- A room is connected to another through open passages and rooms that are not marked. -/
def ConnectedTo (m : Maze) : ℤ × ℤ → ℤ × ℤ → Prop := Relation.ReflTransGen m.Leads

/-- What `mark_maze_area` is to do from a room. -/
structure MarksArea (m : Maze) (p : ℤ × ℤ) (m' : Maze) (count : ℤ) : Prop where
  marked : ∀ q, m.ConnectedTo p q → q ∈ m.rooms ∧ q ∉ m.roomsWith mazeReach ∧
    m'.cells (m.roomIndex q) = m.cells (m.roomIndex q) ||| mazeReach
  others : ∀ i, (∀ q, m.ConnectedTo p q → m.roomIndex q ≠ i) → m'.cells i = m.cells i
  rest : { m' with cells := m.cells } = m
  count_eq : count = {q | m.ConnectedTo p q}.ncard

theorem connectedTo_iff :
    m.ConnectedTo p q ↔
      BreadthFirst.Path (BreadthFirst.avoiding m.openNeighbours (m.roomsWith mazeReach)) p q := by
  have hstep : m.Leads =
      fun a b ↦ b ∈ BreadthFirst.avoiding m.openNeighbours (m.roomsWith mazeReach) a := by
    funext a b
    simp only [Leads, BreadthFirst.avoiding, List.mem_filter, decide_eq_true_eq]
  rw [ConnectedTo, BreadthFirst.Path, hstep]

theorem ConnectedTo.notMem (h : m.ConnectedTo p q) (hp : p ∉ m.roomsWith mazeReach) :
    q ∉ m.roomsWith mazeReach := by
  induction h with
  | refl => exact hp
  | tail _ hstep _ => exact hstep.2

theorem ConnectedTo.mem_rooms (h : m.ConnectedTo p q) (hborder : m.Bordered) (hp : p ∈ m.rooms) :
    q ∈ m.rooms := by
  induction h with
  | refl => exact hp
  | tail _ hstep ih => exact hborder.openNeighbours_rooms ih hstep.1

/-- The search has set the bit in some rooms, and has changed nothing else. -/
structure Search.Touched (m : Maze) (s : Search) : Prop where
  cells : ∀ i, s.maze.cells i = m.cells i ∨
    (∃ q ∈ m.rooms, m.roomIndex q = i) ∧ s.maze.cells i = m.cells i ||| mazeReach
  rest : { s.maze with cells := m.cells } = m

theorem or_mazeReach_or (value : UInt8) :
    value ||| mazeReach ||| mazeReach = value ||| mazeReach := by
  rw [UInt8.or_assoc, UInt8.or_self]

theorem or_mazeReach_of_hasBit {value : UInt8} (h : hasBit value mazeReach = true) :
    value ||| mazeReach = value := by
  have hset : ∀ n < 256, n &&& 128 ≠ 0 → n ||| 128 = n := by
    decide +kernel
  have hbound : value.toNat < 256 := value.toNat_lt
  rw [hasBit, bne_iff_ne, ne_eq, ← UInt8.toNat_inj, UInt8.toNat_and] at h
  rw [← UInt8.toNat_inj, UInt8.toNat_or]
  exact hset value.toNat hbound h

theorem Search.Touched.mark {s : Search} (ht : s.Touched m) (hq : q ∈ m.rooms)
    (queue : List ℤ) (qEnd : ℤ) :
    Touched m ⟨s.maze.setIndex (m.roomIndex q) (s.maze.cells (m.roomIndex q) ||| mazeReach), queue,
      qEnd⟩ := by
  refine ⟨fun i ↦ ?_, ht.rest⟩
  by_cases hi : i = m.roomIndex q
  · refine Or.inr ⟨⟨q, hq, hi.symm⟩, ?_⟩
    rw [hi, setIndex_cells_self]
    rcases ht.cells (m.roomIndex q) with hsame | ⟨-, hset⟩
    · rw [hsame]
    · rw [hset, or_mazeReach_or]
  · rw [setIndex_cells_of_ne hi]
    exact ht.cells i

theorem Search.explore_touched (h : m.Bordered) {s : Search} {b : BreadthFirst (ℤ × ℤ)}
    (hs : s.Follows m b) (ht : s.Touched m) (hp : p ∈ m.rooms) {offset : ℤ}
    (hq : m.Behind p q offset) : (s.explore (m.roomIndex p) offset).Touched m := by
  rw [explore, hq.passage_eq, hq.room_eq, hs.walls.wall]
  split_ifs with hopen
  · obtain ⟨hpassage, -⟩ := Bool.and_eq_true_iff.mp hopen
    rw [Bool.not_eq_true'] at hpassage
    have hroom : q ∈ m.rooms := h.openNeighbours_rooms hp
      (mem_openNeighbours.mpr ⟨hq.adjacent, hpassage⟩)
    exact ht.mark hroom _ _
  · exact ht

/-- A round of the search. -/
theorem Search.next_touched (h : m.Bordered) {s s' : Search} {b : BreadthFirst (ℤ × ℤ)}
    {again : Bool} (hs : s.Follows m b) (ht : s.Touched m) (hnext : s.next = some (s', again)) :
    s'.Touched m := by
  cases hqueue : b.queue with
  | nil =>
    have hempty : s.queue = [] := by
      rw [hs.queue, hqueue]
      rfl
    rw [next, hempty] at hnext
    cases hnext
    exact ht
  | cons cur rest =>
    obtain ⟨hhead, hcur, hpop⟩ := hs.pop hqueue
    obtain ⟨⟨hbehindUp, hbehindRight⟩, hbehindDown, hbehindLeft⟩ := m.behind_offsets cur
    have hup := explore_follows h hpop hcur hbehindUp
    have hright := explore_follows h hup hcur hbehindRight
    have hdown := explore_follows h hright hcur hbehindDown
    have htouchedUp := explore_touched h hpop ⟨ht.cells, ht.rest⟩ hcur hbehindUp
    have htouchedRight := explore_touched h hup htouchedUp hcur hbehindRight
    have htouchedDown := explore_touched h hright htouchedRight hcur hbehindDown
    have htouchedLeft := explore_touched h hdown htouchedDown hcur hbehindLeft
    rw [next, hhead] at hnext
    simp only [hs.walls.xDim, hright.walls.xDim] at hnext
    cases hnext
    exact htouchedLeft

theorem Search.touched_start (hp : p ∈ m.rooms) :
    Touched m ⟨m.setIndex (m.roomIndex p) (m.cells (m.roomIndex p) ||| mazeReach),
      [m.roomIndex p], 1⟩ :=
  Touched.mark (s := ⟨m, [], 0⟩) ⟨fun _ ↦ Or.inl rfl, rfl⟩ hp _ _

/-- What the bits say of the elements of the array, when the marked rooms are known. -/
theorem Search.Touched.cells_eq {s : Search} (ht : s.Touched m) (hwalls : m.SameWalls s.maze)
    (hq : q ∈ m.rooms) :
    (q ∈ s.maze.roomsWith mazeReach →
        s.maze.cells (m.roomIndex q) = m.cells (m.roomIndex q) ||| mazeReach) ∧
      (q ∉ s.maze.roomsWith mazeReach →
        s.maze.cells (m.roomIndex q) = m.cells (m.roomIndex q)) := by
  have hbit : q ∈ s.maze.roomsWith mazeReach ↔
      hasBit (s.maze.cells (m.roomIndex q)) mazeReach = true := by
    have hindex : s.maze.roomIndex q = m.roomIndex q := hwalls.index _ _
    rw [mem_roomsWith, hwalls.rooms, hindex]
    exact and_iff_right hq
  rw [hbit]
  rcases ht.cells (m.roomIndex q) with hsame | ⟨-, hset⟩
  · rw [hsame]
    exact ⟨fun hmarked ↦ (or_mazeReach_of_hasBit hmarked).symm, fun _ ↦ rfl⟩
  · rw [hset, hasBit_or]
    exact ⟨fun _ ↦ rfl, fun hnot ↦ absurd (Bool.or_true _) hnot⟩

/-- `mark_maze_area` ends, whatever the maze is inside its boundaries, and from an unmarked point it
marks what it is to mark. -/
theorem markMazeArea_exact (hborder : m.Bordered) (hodd : m.OddPoint x y)
    (hnew : hasBit (m.cell x y) mazeReach = false) :
    ∃ m' count, (∃ fuel₀, ∀ fuel ≥ fuel₀, m.markMazeArea x y fuel = some (m', count)) ∧
      m.MarksArea (x / 2, y / 2) m' count := by
  obtain ⟨hroom, hx, hy⟩ := hodd.exists_room
  have hindex : m.roomIndex (x / 2, y / 2) = m.index x y := by
    rw [roomIndex, ← hx, ← hy]
  generalize (x / 2, y / 2) = p at hroom hindex ⊢
  have hunmarked : p ∉ m.roomsWith mazeReach := by
    rw [mem_roomsWith, hindex]
    rw [cell] at hnew
    rw [hnew]
    exact fun h ↦ Bool.false_ne_true h.2
  obtain ⟨fuel, b, hloop, hcount, hmarked⟩ := BreadthFirst.search_exact
    (fun v hv w hw ↦ hborder.openNeighbours_rooms hv hw) hunmarked hroom
    (roomsWith_subset m mazeReach)
  obtain ⟨s, hloop', hs, ht⟩ := doWhile_simulation (fun s b ↦ Search.Follows m s b ∧ s.Touched m)
    (fun s b b' again hs hnext ↦ by
      obtain ⟨s', hnext', hs'⟩ := Search.next_follows hborder hs.1 hnext
      exact ⟨s', hnext', hs', Search.next_touched hborder hs.1 hs.2 hnext'⟩)
    ⟨Search.follows_start hroom, Search.touched_start hroom⟩ hloop
  simp only [← connectedTo_iff] at hmarked
  refine ⟨s.maze, s.qEnd, ⟨fuel, fun fuel' hle ↦ markMazeArea_mono hle ?_⟩, ?_, ?_, ht.rest, ?_⟩
  · rw [markMazeArea, ← hindex, hloop']
    rfl
  · intro q hq
    have hmem := hq.mem_rooms hborder hroom
    refine ⟨hmem, hq.notMem hunmarked, (ht.cells_eq hs.walls hmem).1 ?_⟩
    rw [hs.marked]
    exact (hmarked q).mpr (Or.inr hq)
  · intro i hi
    rcases ht.cells i with hsame | ⟨⟨q, hq, rfl⟩, -⟩
    · exact hsame
    have hcells := ht.cells_eq hs.walls hq
    by_cases hmem : q ∈ s.maze.roomsWith mazeReach
    · -- the room has been marked before
      have hbefore : q ∈ m.roomsWith mazeReach := by
        rw [hs.marked, hmarked] at hmem
        exact hmem.resolve_right fun hconnected ↦ hi q hconnected rfl
      exact (hcells.1 hmem).trans (or_mazeReach_of_hasBit (mem_roomsWith.mp hbefore).2)
    · exact hcells.2 hmem
  · have hset : {q | m.ConnectedTo p q} = ↑(b.marked \ m.roomsWith mazeReach) := by
      ext q
      rw [Set.mem_ofPred_eq, Finset.mem_coe, Finset.mem_sdiff, hmarked]
      refine ⟨fun hq ↦ ⟨Or.inr hq, hq.notMem hunmarked⟩, fun hq ↦ hq.1.resolve_left hq.2⟩
    have hsubset : m.roomsWith mazeReach ⊆ b.marked := fun q hq ↦ (hmarked q).mpr (Or.inl hq)
    rw [hset, Set.ncard_coe_finset, Finset.card_sdiff_of_subset hsubset,
      Nat.cast_sub (Finset.card_le_card hsubset), hs.count]
    omega

/-- A maze of walls with one open passage, between the first two rooms. -/
def onePassage : Maze := (unmade.filled 14 8).knockDown (0, 0) (1, 0)

theorem markMazeArea_exact_onePassage :
    ∃ m' count, (∃ fuel₀, ∀ fuel ≥ fuel₀, onePassage.markMazeArea 1 1 fuel = some (m', count)) ∧
      onePassage.MarksArea (0, 0) m' count := by
  have hdug : Dug 14 8 (unmade.filled 14 8) :=
    (firstWorm_digging unmade (by decide) (by decide) fun _ ↦ 0).dug
  have hbordered : onePassage.Bordered :=
    (knockDown_dug hdug (mem_rooms.mpr (by decide)) (mem_rooms.mpr (by decide))).bordered
  have hodd : onePassage.OddPoint 1 1 :=
    ⟨⟨by decide, by decide, by decide, by decide⟩, by decide, by decide⟩
  exact markMazeArea_exact hbordered hodd (by decide +kernel)

end Maze

end Sp18.MazeGame
