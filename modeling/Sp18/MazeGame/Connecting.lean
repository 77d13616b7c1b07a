import Sp18.MazeGame.Digging
import Mathlib.Order.Lattice.Nat

/-!
# Connecting the rooms

The second phase of `make_maze`. The marked rooms are those that can be reached from the first one,
and `remaining` is the number of the others (`Connect.Joining`). A room that is not marked next to
one that is can be connected: the wall between them is knocked down, and the search from the room
marks what has become reachable (`Connect.join_cases`).

As long as there are unmarked rooms, one of them is next to a marked one, since the grid of the
rooms is connected. The scan gets there within as many steps as there are rooms, and there are at
most 100 random trials before it starts, so that the phase ends if its draws do
(`connectPhase_connects`).
-/

set_option autoImplicit false
set_option relaxedAutoImplicit false

namespace Sp18.MazeGame

open Foundation

namespace Maze

variable {m m' : Maze} {xDim yDim : ℤ} {p q r : ℤ × ℤ}

/-! ### Knocking down a wall -/

/-- The wall between two rooms is knocked down. -/
def knockDown (m : Maze) (p q : ℤ × ℤ) : Maze := m.setIndex (m.passage p q) mazeNone

theorem knockDown_dug (h : Dug xDim yDim m) (hp : p ∈ m.rooms) (hq : q ∈ m.rooms) :
    Dug xDim yDim (m.knockDown p q) :=
  h.setCell (passage_inside hp hq)

theorem roomsWith_knockDown (hp : p ∈ m.rooms) (hq : q ∈ m.rooms) (hadj : q ∈ neighbours4 p)
    (mask : UInt8) : (m.knockDown p q).roomsWith mask = m.roomsWith mask :=
  roomsWith_setIndex_of_ne fun _ hr ↦ roomIndex_ne_passage hr hp hq hadj

/-- The only passage that has become open is the one between the two rooms. -/
theorem mem_openNeighbours_knockDown {s : ℤ × ℤ} : s ∈ (m.knockDown p q).openNeighbours r ↔
    s ∈ m.openNeighbours r ∨ s ∈ neighbours4 r ∧ m.passage r s = m.passage p q := by
  rw [mem_openNeighbours, mem_openNeighbours]
  change s ∈ neighbours4 r ∧
    hasBit ((m.setIndex (m.passage p q) mazeNone).cells (m.passage r s)) mazeWall = false ↔ _
  by_cases hsame : m.passage r s = m.passage p q
  · rw [hsame, setIndex_cells_self, hasBit_mazeNone]
    tauto
  · rw [setIndex_cells_of_ne hsame]
    tauto

theorem SameWalls.roomsWith_wall (h : m.SameWalls m') :
    m'.roomsWith mazeWall = m.roomsWith mazeWall := by
  rw [roomsWith, roomsWith, h.rooms]
  refine Finset.filter_congr fun p _ ↦ ?_
  rw [h.wall, roomIndex, h.index, roomIndex]

/-- A room next to a marked one is connected, and all that can be reached from it. The marked rooms
are those with a path from the first one, before and after. -/
theorem connect_marks {count : ℤ} (h : Dug xDim yDim m)
    (hpath : ∀ r ∈ m.roomsWith mazeReach, BreadthFirst.Path m.openNeighbours (0, 0) r)
    (hclosed : ∀ r ∈ m.roomsWith mazeReach, ∀ s ∈ m.openNeighbours r, s ∈ m.roomsWith mazeReach)
    (hp : p ∈ m.rooms) (hnew : p ∉ m.roomsWith mazeReach) (hq : q ∈ m.roomsWith mazeReach)
    (hadj : q ∈ neighbours4 p) (hmarked : (m.knockDown p q).MarkedFrom p m' count) :
    (∀ r ∈ m'.roomsWith mazeReach, BreadthFirst.Path m'.openNeighbours (0, 0) r) ∧
      ∀ r ∈ m'.roomsWith mazeReach, ∀ s ∈ m'.openNeighbours r, s ∈ m'.roomsWith mazeReach := by
  have hq' : q ∈ m.rooms := roomsWith_subset m _ hq
  have hneighbours : m'.openNeighbours = (m.knockDown p q).openNeighbours :=
    funext hmarked.walls.openNeighbours
  have hbefore := roomsWith_knockDown hp hq' hadj mazeReach
  obtain ⟨hsubset, -, hfirst, -, hnewPath, hnewClosed⟩ := hmarked.marks
  rw [hbefore] at hsubset hnewPath hnewClosed
  rw [hneighbours]
  have hold : ∀ r ∈ m.roomsWith mazeReach,
      BreadthFirst.Path (m.knockDown p q).openNeighbours (0, 0) r := fun r hr ↦
    Relation.ReflTransGen.mono
      (fun _ _ hstep ↦ mem_openNeighbours_knockDown.mpr (Or.inl hstep)) _ _ (hpath r hr)
  have hthrough : p ∈ (m.knockDown p q).openNeighbours q :=
    mem_openNeighbours_knockDown.mpr (Or.inr ⟨neighbours4_symm hadj, passage_comm m q p⟩)
  constructor
  · intro r hr
    by_cases hbeforeMarked : r ∈ m.roomsWith mazeReach
    · exact hold r hbeforeMarked
    · exact ((hold q hq).tail hthrough).trans (hnewPath r hr hbeforeMarked)
  · intro r hr s hs
    by_cases hbeforeMarked : r ∈ m.roomsWith mazeReach
    · rcases mem_openNeighbours_knockDown.mp hs with hs | ⟨hadj', hsame⟩
      · exact hsubset (hclosed r hbeforeMarked s hs)
      · -- the passage that has been opened leads to the room that is being connected
        have hs' : s ∈ m.rooms := (knockDown_dug h hp hq').bordered.openNeighbours_rooms
          (roomsWith_subset m _ hbeforeMarked) hs
        rcases passage_inj hp hq' hadj (roomsWith_subset m _ hbeforeMarked) hs' hadj' hsame with
          ⟨rfl, -⟩ | ⟨-, rfl⟩
        · exact absurd hbeforeMarked hnew
        · exact hfirst
    · exact hnewClosed r hr hbeforeMarked s hs

namespace Connect

variable {c c' : Connect}

/-- The room where the second phase stands. -/
def room (c : Connect) : ℤ × ℤ := (c.x / 2, c.y / 2)

/-- A room that can be connected: it is not marked, and a room next to it is. -/
def Touching (m : Maze) (p : ℤ × ℤ) : Prop :=
  p ∉ m.roomsWith mazeReach ∧ ∃ q ∈ m.roomsWith mazeReach, q ∈ neighbours4 p

/-- The invariant of the second phase. -/
structure Joining (xDim yDim : ℤ) (c : Connect) : Prop where
  digs : c.Digs xDim yDim
  walled : c.maze.roomsWith mazeWall = ∅
  remaining_eq : c.remaining = xDim * yDim - (c.maze.roomsWith mazeReach).card
  first_mem : (0, 0) ∈ c.maze.roomsWith mazeReach
  path : ∀ p ∈ c.maze.roomsWith mazeReach, BreadthFirst.Path c.maze.openNeighbours (0, 0) p
  closed : ∀ p ∈ c.maze.roomsWith mazeReach, ∀ q ∈ c.maze.openNeighbours p,
    q ∈ c.maze.roomsWith mazeReach

theorem Digs.room_eq (h : c.Digs xDim yDim) :
    c.room ∈ c.maze.rooms ∧ c.x = 2 * c.room.1 + 1 ∧ c.y = 2 * c.room.2 + 1 :=
  h.odd.exists_room

/-- The tests look at the four neighbours of the room. -/
theorem wallToRemove_eq (h : c.Digs xDim yDim) : c.wallToRemove =
    if (c.room.1, c.room.2 - 1) ∈ c.maze.roomsWith mazeReach then
      some (c.maze.passage c.room (c.room.1, c.room.2 - 1))
    else if (c.room.1 - 1, c.room.2) ∈ c.maze.roomsWith mazeReach then
      some (c.maze.passage c.room (c.room.1 - 1, c.room.2))
    else if (c.room.1 + 1, c.room.2) ∈ c.maze.roomsWith mazeReach then
      some (c.maze.passage c.room (c.room.1 + 1, c.room.2))
    else if (c.room.1, c.room.2 + 1) ∈ c.maze.roomsWith mazeReach then
      some (c.maze.passage c.room (c.room.1, c.room.2 + 1))
    else none := by
  obtain ⟨hroom, hx, hy⟩ := h.room_eq
  rw [mem_rooms] at hroom
  have hmarked : ∀ (q : ℤ × ℤ) (i : ℤ) (inside : Prop), i = c.maze.roomIndex q →
      (inside ↔ q ∈ c.maze.rooms) → (inside ∧ hasBit (c.maze.cells i) mazeReach = true ↔
        q ∈ c.maze.roomsWith mazeReach) := by
    rintro q i inside rfl hinside
    rw [mem_roomsWith, hinside]
  generalize c.room = p at *
  simp only [wallToRemove, hx, hy]
  refine if_congr (hmarked _ _ _ ?_ ?_) (congrArg some ?_) <|
    if_congr (hmarked _ _ _ ?_ ?_) (congrArg some ?_) <|
    if_congr (hmarked _ _ _ ?_ ?_) (congrArg some ?_) <|
    if_congr (hmarked _ _ _ ?_ ?_) (congrArg some ?_) rfl
  all_goals first
    | (simp only [roomIndex, passage, index]; ring)
    | (rw [mem_rooms]; dsimp only; omega)

/-- There is a wall to knock down exactly if a room next to this one is marked, and then it is the
wall towards such a room. -/
theorem wallToRemove_cases (h : c.Digs xDim yDim) :
    (c.wallToRemove = none ∧ ∀ q ∈ c.maze.roomsWith mazeReach, q ∉ neighbours4 c.room) ∨
      ∃ q ∈ c.maze.roomsWith mazeReach, q ∈ neighbours4 c.room ∧
        c.wallToRemove = some (c.maze.passage c.room q) := by
  rw [wallToRemove_eq h]
  split_ifs with hup hleft hright hdown
  · exact Or.inr ⟨_, hup, by simp [neighbours4], rfl⟩
  · exact Or.inr ⟨_, hleft, by simp [neighbours4], rfl⟩
  · exact Or.inr ⟨_, hright, by simp [neighbours4], rfl⟩
  · exact Or.inr ⟨_, hdown, by simp [neighbours4], rfl⟩
  · refine Or.inl ⟨rfl, fun q hq hadj ↦ ?_⟩
    simp only [neighbours4, List.mem_cons, List.not_mem_nil, or_false] at hadj
    rcases hadj with rfl | rfl | rfl | rfl
    · exact hup hq
    · exact hright hq
    · exact hdown hq
    · exact hleft hq

/-! ### Connecting a room -/

/-- What connecting a room does: nothing if no room next to it is marked, else there are more marked
rooms after it, and the rest of the state stays. -/
theorem join_cases {again : Bool} {fuel : ℕ} (h : c.Joining xDim yDim)
    (hnew : c.room ∉ c.maze.roomsWith mazeReach) (hjoin : c.join fuel = some (c', again)) :
    again = decide (c'.remaining > 0) ∧ c'.Joining xDim yDim ∧ c'.trials = c.trials ∧
      (c' = c ∧ ¬ Touching c.maze c.room ∨ c'.remaining < c.remaining) := by
  have hdigs := join_digs h.digs hjoin
  rcases wallToRemove_cases h.digs with ⟨hwall, hnone⟩ | ⟨q, hq, hadj, hwall⟩
  · simp only [join, hwall, Option.some.injEq, Prod.mk.injEq] at hjoin
    obtain ⟨rfl, rfl⟩ := hjoin
    exact ⟨rfl, h, rfl, Or.inl ⟨rfl, fun ⟨_, q, hq, hadj⟩ ↦ hnone q hq hadj⟩⟩
  · obtain ⟨hroom, hx, hy⟩ := h.digs.room_eq
    have hq' : q ∈ c.maze.rooms := roomsWith_subset _ _ hq
    simp only [join, hwall, Option.map_eq_some_iff, Prod.exists, Prod.mk.injEq] at hjoin
    obtain ⟨maze, marked, hmark, rfl, rfl⟩ := hjoin
    rw [hx, hy] at hmark
    have hbefore := roomsWith_knockDown hroom hq' hadj
    have hmarked := markMazeArea_markedFrom (knockDown_dug h.digs.dug hroom hq') hroom
      (by rwa [hbefore]) hmark
    obtain ⟨hpath, hclosed⟩ :=
      connect_marks h.digs.dug h.path h.closed hroom hnew hq hadj hmarked
    obtain ⟨hsubset, -, hfirst, hcount, -, -⟩ := hmarked.marks
    rw [hbefore] at hsubset hcount
    have hmore : (c.maze.roomsWith mazeReach).card < (maze.roomsWith mazeReach).card :=
      Finset.card_lt_card ((Finset.ssubset_iff_of_subset hsubset).mpr ⟨c.room, hfirst, hnew⟩)
    have hremaining := h.remaining_eq
    dsimp only at hcount
    refine ⟨rfl, ⟨hdigs, ?_, ?_, hsubset h.first_mem, hpath, hclosed⟩, rfl, Or.inr ?_⟩
    · rw [hmarked.walls.roomsWith_wall, hbefore, h.walled]
    · dsimp only
      omega
    · dsimp only
      omega

/-- Connecting a room ends. -/
theorem join_ends (h : c.Joining xDim yDim) (hnew : c.room ∉ c.maze.roomsWith mazeReach) :
    ∃ fuel next, c.join fuel = some next := by
  rcases wallToRemove_cases h.digs with ⟨hwall, -⟩ | ⟨q, hq, hadj, hwall⟩
  · exact ⟨0, _, by rw [join, hwall]⟩
  · obtain ⟨hroom, hx, hy⟩ := h.digs.room_eq
    have hq' : q ∈ c.maze.rooms := roomsWith_subset _ _ hq
    obtain ⟨fuel, maze, count, hmark, -⟩ :=
      markMazeArea_spec (knockDown_dug h.digs.dug hroom hq') hroom
        (by rwa [roomsWith_knockDown hroom hq' hadj])
    refine ⟨fuel, Option.isSome_iff_exists.mp ?_⟩
    rw [join, hwall, hx, hy]
    change (((c.maze.knockDown c.room q).markMazeArea _ _ fuel).map _).isSome = true
    rw [hmark]
    rfl

theorem join_mono {fuel fuel' : ℕ} {next : Connect × Bool} (hle : fuel ≤ fuel')
    (h : c.join fuel = some next) : c.join fuel' = some next := by
  rw [join] at *
  split at h
  · exact h
  · next wall hwall =>
    rw [Option.map_eq_some_iff] at *
    obtain ⟨marked, hmark, hnext⟩ := h
    exact ⟨marked, markMazeArea_mono hle hmark, hnext⟩

/-! ### One round -/

/-- The state with the trial counted. -/
def tried (c : Connect) : Connect :=
  if c.remaining < 20 then c else { c with trials := c.trials + 1 }

/-- The round makes a random draw. -/
def Draws (c : Connect) : Prop := ¬ (c.remaining < 20 ∨ c.trials + 1 > 100)

theorem Joining.tried (h : c.Joining xDim yDim) : c.tried.Joining xDim yDim := by
  rw [Connect.tried]
  split_ifs
  · exact h
  · exact ⟨⟨h.digs.dug, h.digs.odd⟩, h.walled, h.remaining_eq, h.first_mem, h.path, h.closed⟩

theorem tried_eq (c : Connect) : c.tried.maze = c.maze ∧ c.tried.remaining = c.remaining ∧
    c.tried.room = c.room ∧ c.tried.tape = c.tape := by
  rw [tried]
  split_ifs <;> exact ⟨rfl, rfl, rfl, rfl⟩

theorem scan_eq (h : c.Digs xDim yDim) : c.scan.maze = c.maze ∧ c.scan.remaining = c.remaining ∧
    c.scan.trials = c.trials ∧ c.scan.room = scanNext xDim yDim c.room := by
  obtain ⟨hroom, hx, hy⟩ := h.room_eq
  rw [mem_rooms] at hroom
  have hxDim := h.dug.xDim_eq
  have hyDim := h.dug.yDim_eq
  rw [scan, scanNext, hxDim, hyDim]
  -- the points of the scan are odd, so that they pass the sizes when their rooms do
  split_ifs
  all_goals first
    | omega
    | refine ⟨rfl, rfl, rfl, Prod.ext ?_ ?_⟩
  all_goals first
    | rfl
    | (dsimp only [room]; omega)

theorem Joining.scan (h : c.Joining xDim yDim) : c.scan.Joining xDim yDim := by
  obtain ⟨hmaze, hremaining, -, -⟩ := scan_eq h.digs
  have hdigs := scan_digs h.digs
  exact ⟨hdigs, by rw [hmaze, h.walled], by rw [hmaze, hremaining, h.remaining_eq],
    by rw [hmaze]; exact h.first_mem, by rw [hmaze]; exact h.path, by rw [hmaze]; exact h.closed⟩

theorem next_scan (h : ¬ c.Draws) (fuel : ℕ) : c.next fuel =
    if hasBit (c.tried.scan.maze.cell c.tried.scan.x c.tried.scan.y) mazeReach then
      some (c.tried.scan, decide (c.tried.scan.remaining > 0))
    else c.tried.scan.join fuel :=
  if_pos (not_not.mp h)

/-- The state with a point that has been drawn. -/
def drawn (c : Connect) (x y : ℤ) (tape : Tape) : Connect :=
  { c.tried with x := x, y := y, tape := tape }

theorem next_draw (h : c.Draws) (fuel : ℕ) : c.next fuel =
    (c.tried.maze.pickPoint (fun value ↦ hasBit value mazeReach) fuel c.tried.tape).bind
      fun (x, y, tape) ↦ (c.drawn x y tape).join fuel :=
  if_neg h

theorem Digs.marked_iff (h : c.Digs xDim yDim) :
    hasBit (c.maze.cell c.x c.y) mazeReach = true ↔ c.room ∈ c.maze.roomsWith mazeReach := by
  obtain ⟨hroom, hx, hy⟩ := h.room_eq
  rw [mem_roomsWith, roomIndex, ← hx, ← hy]
  exact (and_iff_right hroom).symm

theorem Joining.drawn (h : c.Joining xDim yDim) {x y : ℤ} (hodd : c.maze.OddPoint x y)
    (tape : Tape) : (c.drawn x y tape).Joining xDim yDim := by
  have htried := h.tried
  obtain ⟨hmaze, -⟩ := tried_eq c
  exact ⟨⟨htried.digs.dug, hmaze ▸ hodd⟩, htried.walled, htried.remaining_eq, htried.first_mem,
    htried.path, htried.closed⟩

/-- A point that is drawn is in a room that is not marked. -/
theorem Joining.picked (h : c.Joining xDim yDim) (hwidth : 0 < xDim) (hheight : 0 < yDim)
    {fuel : ℕ} {tape tape' : Tape} {x y : ℤ}
    (hpick : c.maze.pickPoint (fun value ↦ hasBit value mazeReach) fuel tape =
      some (x, y, tape')) :
    (c.drawn x y tape').Joining xDim yDim ∧
      (c.drawn x y tape').room ∉ (c.drawn x y tape').maze.roomsWith mazeReach := by
  obtain ⟨hmaze, -⟩ := tried_eq c
  obtain ⟨hodd, hfree⟩ := pickPoint_odd (by rw [h.digs.dug.xDim_eq]; exact hwidth)
    (by rw [h.digs.dug.yDim_eq]; exact hheight) hpick
  have hdrawn := h.drawn hodd tape'
  refine ⟨hdrawn, ?_⟩
  rw [← hdrawn.digs.marked_iff, Connect.drawn, hmaze, hfree]
  exact Bool.false_ne_true

/-- What one round does: there are more marked rooms after it, or the maze is as it was, and then
the round has made a draw or the scan has gone on over a room that cannot be connected. -/
theorem next_cases {again : Bool} {fuel : ℕ} (hwidth : 0 < xDim) (hheight : 0 < yDim)
    (h : c.Joining xDim yDim) (hnext : c.next fuel = some (c', again)) :
    again = decide (c'.remaining > 0) ∧ c'.Joining xDim yDim ∧ c'.trials = c.tried.trials ∧
      (c'.remaining < c.remaining ∨ c'.remaining = c.remaining ∧ c'.maze = c.maze ∧
        (c.Draws ∨ c'.room = scanNext xDim yDim c.room ∧
          ¬ Touching c.maze (scanNext xDim yDim c.room))) := by
  obtain ⟨hmaze, hremaining, hroom, -⟩ := tried_eq c
  by_cases hdraws : c.Draws
  · rw [next_draw hdraws, Option.bind_eq_some_iff] at hnext
    obtain ⟨⟨x, y, tape⟩, hpick, hjoin⟩ := hnext
    rw [hmaze] at hpick
    obtain ⟨hdrawn, hnew⟩ := h.picked hwidth hheight hpick
    obtain ⟨hagain, hjoining, htrials, hcases⟩ := join_cases hdrawn hnew hjoin
    refine ⟨hagain, hjoining, htrials, ?_⟩
    rcases hcases with ⟨rfl, -⟩ | hless
    · exact Or.inr ⟨hremaining, hmaze, Or.inl hdraws⟩
    · exact Or.inl (hless.trans_eq hremaining)
  · rw [next_scan hdraws] at hnext
    have hscanned := h.tried.scan
    obtain ⟨hsmaze, hsremaining, hstrials, hsroom⟩ := scan_eq h.tried.digs
    rw [hroom] at hsroom
    rw [hmaze] at hsmaze
    rw [hremaining] at hsremaining
    by_cases hmarked : hasBit (c.tried.scan.maze.cell c.tried.scan.x c.tried.scan.y) mazeReach
    · rw [if_pos hmarked] at hnext
      obtain ⟨rfl, rfl⟩ := Prod.mk.inj (Option.some_inj.mp hnext)
      have hmem := hscanned.digs.marked_iff.mp hmarked
      rw [hsmaze, hsroom] at hmem
      exact ⟨rfl, hscanned, hstrials, Or.inr ⟨hsremaining, hsmaze, Or.inr ⟨hsroom,
        fun htouching ↦ htouching.1 hmem⟩⟩⟩
    · rw [if_neg hmarked] at hnext
      have hnew := mt hscanned.digs.marked_iff.mpr hmarked
      obtain ⟨hagain, hjoining, htrials, hcases⟩ := join_cases hscanned hnew hnext
      refine ⟨hagain, hjoining, htrials.trans hstrials, ?_⟩
      rcases hcases with ⟨rfl, hnot⟩ | hless
      · rw [hsmaze, hsroom] at hnot
        exact Or.inr ⟨hsremaining, hsmaze, Or.inr ⟨hsroom, hnot⟩⟩
      · exact Or.inl (hless.trans_eq hsremaining)

/-- A round ends if its draws do. -/
theorem next_ends (h : c.Joining xDim yDim) (hwidth : 0 < xDim) (hheight : 0 < yDim)
    (hdraws : c.Draws → ∃ fuel point,
      c.maze.pickPoint (fun value ↦ hasBit value mazeReach) fuel c.tape = some point) :
    ∃ fuel next, c.next fuel = some next := by
  obtain ⟨hmaze, -, -, htape⟩ := tried_eq c
  by_cases hdraw : c.Draws
  · obtain ⟨fuel, ⟨x, y, tape⟩, hpick⟩ := hdraws hdraw
    obtain ⟨hdrawn, hnew⟩ := h.picked hwidth hheight hpick
    obtain ⟨fuel', next, hjoin⟩ := join_ends hdrawn hnew
    refine ⟨max fuel fuel', next, ?_⟩
    rw [next_draw hdraw, hmaze, htape, pickPoint_mono (le_max_left fuel fuel') hpick]
    exact join_mono (le_max_right fuel fuel') hjoin
  · have hscanned := h.tried.scan
    by_cases hmarked : hasBit (c.tried.scan.maze.cell c.tried.scan.x c.tried.scan.y) mazeReach
    · exact ⟨0, _, by rw [next_scan hdraw, if_pos hmarked]⟩
    · obtain ⟨fuel, next, hjoin⟩ :=
        join_ends hscanned (mt hscanned.digs.marked_iff.mpr hmarked)
      exact ⟨fuel, next, by rw [next_scan hdraw, if_neg hmarked, hjoin]⟩

theorem fuelMono_next : FuelMono Connect.next := by
  intro fuel fuel' c next hle h
  by_cases hdraws : c.Draws
  · rw [next_draw hdraws, Option.bind_eq_some_iff] at *
    obtain ⟨point, hpick, hjoin⟩ := h
    exact ⟨point, pickPoint_mono hle hpick, join_mono hle hjoin⟩
  · rw [next_scan hdraws] at *
    split_ifs at * with hmarked
    · exact h
    · exact join_mono hle h

/-! ### How long the phase can take -/

/-- The number of steps of the scan before it gets to a room that can be connected. -/
noncomputable def steps (m : Maze) (p : ℤ × ℤ) : ℕ :=
  sInf {k | Touching m ((scanNext m.xDim m.yDim)^[k + 1] p)}

theorem Joining.exists_unmarked (h : c.Joining xDim yDim) (hleft : 0 < c.remaining) :
    ∃ q ∈ c.maze.rooms, q ∉ c.maze.roomsWith mazeReach := by
  obtain ⟨hroom, -, -⟩ := h.digs.room_eq
  have hcard := h.digs.dug.card_rooms hroom
  have hremaining := h.remaining_eq
  exact Finset.exists_mem_notMem_of_card_lt_card (by omega)

/-- As long as there are unmarked rooms, the scan gets to one that can be connected. -/
theorem Joining.exists_touching (h : c.Joining xDim yDim) (hleft : 0 < c.remaining) :
    ∃ k : ℕ, (k : ℤ) < xDim * yDim ∧
      Touching c.maze ((scanNext c.maze.xDim c.maze.yDim)^[k + 1] c.room) := by
  have hxDim := h.digs.dug.xDim_eq
  have hyDim := h.digs.dug.yDim_eq
  obtain ⟨hroom, -, -⟩ := h.digs.room_eq
  have hsubset := roomsWith_subset c.maze mazeReach
  obtain ⟨q, hq, hnew⟩ := h.exists_unmarked hleft
  obtain ⟨a, ha, hunmarked, b, -, hb, hadj⟩ := exists_boundary
    (P := (· ∈ c.maze.roomsWith mazeReach)) (hsubset h.first_mem) h.first_mem hq hnew
  obtain ⟨k, hk, hscan⟩ := exists_scan hroom ha
  rw [hxDim, hyDim] at hk
  exact ⟨k, hk, hscan ▸ ⟨hunmarked, b, hb, hadj⟩⟩

theorem Joining.steps_lt (h : c.Joining xDim yDim) (hleft : 0 < c.remaining) :
    (steps c.maze c.room : ℤ) < xDim * yDim := by
  obtain ⟨k, hk, htouching⟩ := h.exists_touching hleft
  have hle : steps c.maze c.room ≤ k := Nat.sInf_le htouching
  omega

/-- Each step of the scan over a room that cannot be connected is one less to go. -/
theorem steps_scanNext {k : ℕ} (htouching : Touching m ((scanNext m.xDim m.yDim)^[k + 1] p))
    (hnot : ¬ Touching m (scanNext m.xDim m.yDim p)) :
    steps m (scanNext m.xDim m.yDim p) < steps m p := by
  have hmem : Touching m ((scanNext m.xDim m.yDim)^[steps m p + 1] p) :=
    Nat.sInf_mem (s := {k | Touching m ((scanNext m.xDim m.yDim)^[k + 1] p)}) ⟨k, htouching⟩
  obtain ⟨n, hn⟩ : ∃ n, steps m p = n + 1 := by
    refine Nat.exists_eq_succ_of_ne_zero fun hzero ↦ hnot ?_
    rwa [hzero] at hmem
  rw [hn] at hmem ⊢
  exact Nat.lt_succ_of_le (Nat.sInf_le hmem)

/-- An upper bound of the rounds that are left. After each trial and each room that is connected,
the scan may have to go through all rooms. -/
noncomputable def roundsLeft (c : Connect) (rooms : ℕ) : ℕ :=
  ((100 - c.trials).toNat + c.remaining.toNat) * (rooms + 1) + steps c.maze c.room

theorem tried_trials (c : Connect) :
    (c.Draws → (100 - c.tried.trials).toNat + 1 = (100 - c.trials).toNat) ∧
      (100 - c.tried.trials).toNat ≤ (100 - c.trials).toNat := by
  rw [tried, Draws]
  split_ifs with hfew
  · exact ⟨fun hdraws ↦ absurd (Or.inl hfew) hdraws, le_rfl⟩
  · dsimp only
    omega

/-- Every round leaves fewer to go. -/
theorem roundsLeft_next {fuel : ℕ} (hwidth : 0 < xDim) (hheight : 0 < yDim)
    (h : c.Joining xDim yDim) (hnext : c.next fuel = some (c', true)) :
    c'.roundsLeft (xDim * yDim).toNat < c.roundsLeft (xDim * yDim).toNat := by
  obtain ⟨hagain, hjoining, htrials, hcases⟩ := next_cases hwidth hheight h hnext
  have hleft : 0 < c'.remaining := by simpa using hagain.symm
  have hsteps := hjoining.steps_lt hleft
  have hremaining := hjoining.remaining_eq
  obtain ⟨hdrawn, hle⟩ := tried_trials c
  rw [← htrials] at hdrawn hle
  have hxDim := h.digs.dug.xDim_eq
  have hyDim := h.digs.dug.yDim_eq
  have hsteps' : steps c'.maze c'.room < (xDim * yDim).toNat := by omega
  simp only [roundsLeft]
  generalize (xDim * yDim).toNat = n at *
  generalize hturns : (100 - c.trials).toNat + c.remaining.toNat = turns at *
  generalize hturns' : (100 - c'.trials).toNat + c'.remaining.toNat = turns' at *
  have hfewerTurns : turns' < turns → turns' * (n + 1) + steps c'.maze c'.room <
      turns * (n + 1) + steps c.maze c.room := by
    intro hless
    have hmul : (turns' + 1) * (n + 1) ≤ turns * (n + 1) := Nat.mul_le_mul_right _ hless
    rw [Nat.succ_mul] at hmul
    omega
  rcases hcases with hless | ⟨heq, hmaze, hdraws | ⟨hroom, hnot⟩⟩
  · exact hfewerTurns (by omega)
  · have htrial := hdrawn hdraws
    exact hfewerTurns (by omega)
  · obtain ⟨k, -, htouching⟩ := h.exists_touching (by omega)
    have hfewer := steps_scanNext htouching (by rwa [hxDim, hyDim])
    rw [hxDim, hyDim] at hfewer
    have hmul : turns' * (n + 1) ≤ turns * (n + 1) := Nat.mul_le_mul_right _ (by omega)
    rw [hmaze, hroom]
    omega

end Connect

/-! ### The phase -/

/-- The state in which the second phase starts. -/
def connectStart (m : Maze) (xDim yDim : ℤ) (fuel : ℕ) (tape : Tape) : Option Connect :=
  (m.wormPhase xDim yDim fuel tape).bind fun w ↦
    (w.maze.markMazeArea 1 1 fuel).map fun (maze, marked) ↦
      ⟨maze, w.tape, w.x, w.y, xDim * yDim - marked, 0⟩

/-- The first two phases of `make_maze`. -/
def connectPhase (m : Maze) (xDim yDim : ℤ) (fuel : ℕ) (tape : Tape) : Option Connect :=
  (m.connectStart xDim yDim fuel tape).bind (doWhile (Connect.next fuel) fuel)

/-- `make_maze` goes on from there. -/
theorem makeMaze_eq (m : Maze) (startFruits : ℤ) (fuel : ℕ) (tape : Tape) :
    m.makeMaze xDim yDim startFruits fuel tape =
      if xDim < mazeMinXDim ∨ xDim > mazeMaxXDim ∨ yDim < mazeMinYDim ∨ yDim > mazeMaxYDim then
        some (-1, m)
      else (m.connectPhase xDim yDim fuel tape).bind fun c ↦
        (addFruits fuel startFruits.toNat
          ({ c.maze.clearReach.clearWalls with nFruits := 0 }, c.tape)).bind fun (m, tape) ↦
            (m.placeExit fuel tape).map fun m ↦ (0, m) := by
  rw [makeMaze]
  split_ifs with hsize
  · rfl
  · simp only [connectPhase, connectStart, wormPhase, firstWorm, filled, Option.bind_eq_bind,
      Option.bind_assoc, Option.map_eq_bind]
    rfl

/-- A step from an open lattice point over an open one to an open one. -/
def Moves (m : Maze) (a b : ℤ × ℤ) : Prop :=
  ∃ dir, b = (a.1 + 2 * (wormStep dir).1, a.2 + 2 * (wormStep dir).2) ∧
    m.wall (a.1 + (wormStep dir).1) (a.2 + (wormStep dir).2) = false ∧ m.wall b.1 b.2 = false

/-- What the second phase is for: the points with odd coordinates are open and can all be reached
from the first of them, and the boundaries stand. -/
structure Connected (m : Maze) : Prop where
  open_odd : ∀ x y, m.OddPoint x y → m.wall x y = false
  border : ∀ x y, m.OnBorder x y → m.wall x y = true
  path : ∀ x y, m.OddPoint x y → Relation.ReflTransGen m.Moves (1, 1) (x, y)

theorem fuelMono_connectStart (m : Maze) (xDim yDim : ℤ) :
    FuelMono (m.connectStart xDim yDim) := by
  intro fuel fuel' tape c hle h
  simp only [connectStart, Option.bind_eq_some_iff, Option.map_eq_some_iff] at *
  obtain ⟨w, hworms, marked, hmark, hc⟩ := h
  exact ⟨w, Worm.fuelMono_drop.loop fuel fuel' _ _ hle hworms, marked,
    markMazeArea_mono hle hmark, hc⟩

/-- At the start of the second phase, what can be reached from the first room is marked. -/
theorem connectStart_joining {fuel : ℕ} {tape : Tape} {c : Connect} (hwidth : 0 < xDim)
    (hheight : 1 < yDim) (h : m.connectStart xDim yDim fuel tape = some c) :
    c.Joining xDim yDim := by
  simp only [connectStart, Option.bind_eq_some_iff, Option.map_eq_some_iff, Prod.exists] at h
  obtain ⟨w, hworms, maze, count, hmark, rfl⟩ := h
  obtain ⟨hdigs, hwalled, hunmarked⟩ := wormPhase_spec hwidth hheight hworms
  have hfirst := hdigs.dug.first_mem_rooms hwidth (by omega)
  have hdug := markMazeArea_dug hdigs.dug hmark
  obtain ⟨hwalls, hmarks⟩ := markMazeArea_markedFrom hdigs.dug hfirst
    (by rw [hunmarked]; exact Finset.notMem_empty _) hmark
  obtain ⟨-, -, hmem, hcount, hpath, hclosed⟩ := hmarks
  rw [hunmarked] at hcount hpath hclosed
  rw [← funext hwalls.openNeighbours] at hpath hclosed
  constructor
  · exact ⟨hdug, hdigs.dug.oddPoint hdug hdigs.odd⟩
  · rw [hwalls.roomsWith_wall, hwalled]
  · rw [Finset.card_empty] at hcount
    dsimp only at hcount ⊢
    omega
  · exact hmem
  · exact fun p hp ↦ hpath p hp (Finset.notMem_empty p)
  · exact fun p hp ↦ hclosed p hp (Finset.notMem_empty p)

/-- An open passage between open rooms is a move. -/
theorem moves_of_openNeighbours (hq : q ∈ m.openNeighbours p)
    (hopen : m.wall (2 * q.1 + 1) (2 * q.2 + 1) = false) :
    m.Moves (2 * p.1 + 1, 2 * p.2 + 1) (2 * q.1 + 1, 2 * q.2 + 1) := by
  obtain ⟨hadj, hbetween⟩ := mem_openNeighbours.mp hq
  have hstep : ∀ dir, q.1 = p.1 + (wormStep dir).1 → q.2 = p.2 + (wormStep dir).2 →
      m.Moves (2 * p.1 + 1, 2 * p.2 + 1) (2 * q.1 + 1, 2 * q.2 + 1) := by
    intro dir hx hy
    have hx' : 2 * p.1 + 1 + (wormStep dir).1 = p.1 + q.1 + 1 := by omega
    have hy' : 2 * p.2 + 1 + (wormStep dir).2 = p.2 + q.2 + 1 := by omega
    refine ⟨dir, Prod.ext ?_ ?_, ?_, hopen⟩
    · dsimp only
      omega
    · dsimp only
      omega
    · rw [hx', hy']
      exact hbetween
  rw [mem_neighbours4] at hadj
  rcases hadj with ⟨hx, hy | hy⟩ | ⟨hy, hx | hx⟩
  · exact hstep 0 (by rw [hx]; exact (add_zero p.1).symm) hy
  · exact hstep 2 (by rw [hx]; exact (add_zero p.1).symm) hy
  · exact hstep 3 hx (by rw [hy]; exact (add_zero p.2).symm)
  · exact hstep 1 hx (by rw [hy]; exact (add_zero p.2).symm)

/-- When there is nothing left to connect, the maze is connected. -/
theorem Connect.Joining.connected {c : Connect} (h : c.Joining xDim yDim)
    (hdone : c.remaining ≤ 0) : c.maze.Connected := by
  obtain ⟨hroom, -, -⟩ := h.digs.room_eq
  have hopen : ∀ p ∈ c.maze.rooms, c.maze.wall (2 * p.1 + 1) (2 * p.2 + 1) = false := by
    intro p hp
    by_contra hwall
    have hmem := mem_roomsWith.mpr ⟨hp, (Bool.not_eq_false _).mp hwall⟩
    rw [h.walled] at hmem
    exact Finset.notMem_empty p hmem
  have hall : c.maze.roomsWith mazeReach = c.maze.rooms := by
    have hcard := h.digs.dug.card_rooms hroom
    have hremaining := h.remaining_eq
    exact Finset.eq_of_subset_of_card_le (roomsWith_subset c.maze mazeReach) (by omega)
  -- the path over the rooms, as lattice points
  have hpath : ∀ p, BreadthFirst.Path c.maze.openNeighbours (0, 0) p → p ∈ c.maze.rooms ∧
      Relation.ReflTransGen c.maze.Moves (1, 1) (2 * p.1 + 1, 2 * p.2 + 1) := by
    intro p hp
    induction hp with
    | refl =>
      refine ⟨roomsWith_subset _ _ h.first_mem, ?_⟩
      simp only [mul_zero, zero_add]
      exact Relation.ReflTransGen.refl
    | tail _ hstep ih =>
      have hnext := h.digs.dug.bordered.openNeighbours_rooms ih.1 hstep
      exact ⟨hnext, ih.2.tail (moves_of_openNeighbours hstep (hopen _ hnext))⟩
  constructor
  · intro x y hodd
    obtain ⟨hmem, hx, hy⟩ := hodd.exists_room
    have hpoint := hopen _ hmem
    dsimp only at hpoint
    rwa [← hx, ← hy] at hpoint
  · exact h.digs.dug.border
  · intro x y hodd
    obtain ⟨hmem, hx, hy⟩ := hodd.exists_room
    have hpoint := (hpath _ (h.path _ (hall ▸ hmem))).2
    dsimp only at hpoint
    rwa [← hx, ← hy] at hpoint

/-- The second phase starts if the worms end. -/
theorem connectStart_ends (m : Maze) (hwidth : 0 < xDim) (hheight : 1 < yDim) {tape : Tape}
    (hworms : ∀ w, Relation.ReflTransGen (Iterates Worm.drop) (m.firstWorm xDim yDim tape) w →
      ∃ fuel next, w.drop fuel = some next) :
    ∃ fuel c, m.connectStart xDim yDim fuel tape = some c := by
  obtain ⟨fuel, w, hw⟩ := wormPhase_ends m hwidth hheight hworms
  obtain ⟨hdigs, -, hunmarked⟩ := wormPhase_spec hwidth hheight hw
  obtain ⟨fuel', maze, count, hmark, -⟩ := markMazeArea_spec hdigs.dug
    (hdigs.dug.first_mem_rooms hwidth (by omega)) (by rw [hunmarked]; exact Finset.notMem_empty _)
  have hw' := Worm.fuelMono_drop.loop fuel _ _ _ (le_max_left fuel fuel') hw
  have hmark' := markMazeArea_mono (le_max_right fuel fuel') hmark
  refine ⟨max fuel fuel', ⟨maze, w.tape, w.x, w.y, xDim * yDim - count, 0⟩, ?_⟩
  simp only [connectStart, Option.bind_eq_some_iff, Option.map_eq_some_iff]
  exact ⟨w, hw', (maze, count), hmark', rfl⟩

/-- The second phase ends if its draws do, and then nothing is left to connect. -/
theorem Connect.Joining.loop_ends {c : Connect} (h : c.Joining xDim yDim) (hwidth : 0 < xDim)
    (hheight : 0 < yDim)
    (hdraws : ∀ c', Relation.ReflTransGen (Iterates Connect.next) c c' → c'.Draws →
      ∃ fuel point, c'.maze.pickPoint (fun value ↦ hasBit value mazeReach) fuel c'.tape =
        some point) :
    ∃ fuel last, doWhile (Connect.next fuel) fuel c = some last ∧ last.Joining xDim yDim ∧
      last.remaining ≤ 0 := by
  have hends : ∃ fuel last, doWhile (Connect.next fuel) fuel c = some last := by
    refine doWhile_terminates Connect.fuelMono_next (Connect.Joining xDim yDim)
      (fun c ↦ c.roundsLeft (xDim * yDim).toNat) (fun c c' hc hnext ↦ ?_) h
      fun c' hreach hc ↦ Connect.next_ends hc hwidth hheight (hdraws c' hreach)
    obtain ⟨fuel, hnext⟩ := hnext
    exact ⟨(Connect.next_cases hwidth hheight hc hnext).2.1,
      Connect.roundsLeft_next hwidth hheight hc hnext⟩
  obtain ⟨fuel, last, hloop⟩ := hends
  obtain ⟨before, hbefore, hend⟩ := doWhile_last (Connect.Joining xDim yDim)
    (fun c c' hc hnext ↦ (Connect.next_cases hwidth hheight hc hnext).2.1) h hloop
  obtain ⟨hagain, hlast, -⟩ := Connect.next_cases hwidth hheight hbefore hend
  have hdone : ¬ last.remaining > 0 := by simpa using hagain.symm
  exact ⟨fuel, last, hloop, hlast, not_lt.mp hdone⟩

/-- For every accepted size, and all draws for which the worms and the random trials come to an end,
the first two phases end, with all fuel that is enough for them in the same state. There the maze
is connected. -/
theorem connectPhase_connects (m : Maze) (hwidth : mazeMinXDim ≤ xDim ∧ xDim ≤ mazeMaxXDim)
    (hheight : mazeMinYDim ≤ yDim ∧ yDim ≤ mazeMaxYDim) (tape : Tape)
    (hworms : ∀ w, Relation.ReflTransGen (Iterates Worm.drop) (m.firstWorm xDim yDim tape) w →
      ∃ fuel next, w.drop fuel = some next)
    (hdraws : ∀ fuel c₀ c, m.connectStart xDim yDim fuel tape = some c₀ →
      Relation.ReflTransGen (Iterates Connect.next) c₀ c → c.Draws →
        ∃ fuel point, c.maze.pickPoint (fun value ↦ hasBit value mazeReach) fuel c.tape =
          some point) :
    ∃ c : Connect, c.maze.Connected ∧ c.maze.xDim = xDim ∧ c.maze.yDim = yDim ∧
      ∃ fuel, ∀ fuel' ≥ fuel, m.connectPhase xDim yDim fuel' tape = some c := by
  have hmin : 0 < mazeMinXDim ∧ 1 < mazeMinYDim := by decide
  have hwidth' : 0 < xDim := by omega
  have hheight' : 1 < yDim := by omega
  obtain ⟨fuel, c₀, hstart⟩ := connectStart_ends m hwidth' hheight' hworms
  obtain ⟨fuel', c, hloop, hc, hdone⟩ := (connectStart_joining hwidth' hheight' hstart).loop_ends
    hwidth' (by omega) fun c' hreach ↦ hdraws _ _ c' hstart hreach
  refine ⟨c, hc.connected hdone, hc.digs.dug.xDim_eq, hc.digs.dug.yDim_eq, max fuel fuel',
    fun enough hle ↦ ?_⟩
  have hstart' := fuelMono_connectStart m xDim yDim _ enough _ _
    ((le_max_left _ _).trans hle) hstart
  rw [connectPhase, hstart']
  exact Connect.fuelMono_next.loop fuel' enough _ _ ((le_max_right _ _).trans hle) hloop

/-- Draws with which one worm eats its way through the upper half of a maze of the smallest size and
a second one through the lower half; the point drawn then lies below the upper half. -/
def twoWormsTape : Tape :=
  let toLeft := 87 :: List.replicate 12 13
  let toRight := [4, 3] ++ List.replicate 12 1 ++ [1]
  let upper := [0, 0, 1] ++ List.replicate 14 0 ++ toLeft ++ toRight ++ toLeft ++ [1]
  let lower := [0, 4, 1] ++ List.replicate 14 1 ++ toLeft ++ toRight ++ toLeft ++ [1]
  let draws := upper ++ lower ++ [0, 4]
  fun i ↦ draws.getD i 0

/-- The two phases, with these draws: the second one finds half of the lattice points unmarked. -/
theorem connectPhase_connects_twoWorms :
    (unmade.connectStart 14 8 300 twoWormsTape).map Connect.remaining = some 56 ∧
      ∃ c : Connect, c.maze.Connected ∧ c.maze.xDim = 14 ∧ c.maze.yDim = 8 ∧
        ∃ fuel, ∀ fuel' ≥ fuel, unmade.connectPhase 14 8 fuel' twoWormsTape = some c := by
  have hrun : (unmade.connectStart 14 8 300 twoWormsTape).map (fun c ↦
      (c.remaining, (doWhile (Connect.next 300) 300 c).isSome)) = some (56, true) := by
    decide +kernel
  obtain ⟨c₁, hstart, hends⟩ := Option.map_eq_some_iff.mp hrun
  obtain ⟨hremaining, hsome⟩ := Prod.mk.inj hends
  obtain ⟨last, hloop⟩ := Option.isSome_iff_exists.mp hsome
  obtain ⟨w, hworms, -⟩ := Option.bind_eq_some_iff.mp hstart
  refine ⟨by rw [hstart, Option.map_some, hremaining], connectPhase_connects unmade (by decide)
    (by decide) twoWormsTape (fun w hreach ↦ ?_) fun fuel c₀ c hstart' hreach hdraws ↦ ?_⟩
  · obtain ⟨next, hnext⟩ := Worm.fuelMono_drop.body_of_loop hworms hreach
    exact ⟨_, next, hnext⟩
  · obtain rfl := (fuelMono_connectStart unmade 14 8).unique hstart hstart'
    obtain ⟨next, hnext⟩ := Connect.fuelMono_next.body_of_loop hloop hreach
    rw [Connect.next_draw hdraws, Option.bind_eq_some_iff] at hnext
    obtain ⟨point, hpick, -⟩ := hnext
    obtain ⟨hmaze, -, -, htape⟩ := Connect.tried_eq c
    rw [hmaze, htape] at hpick
    exact ⟨_, point, hpick⟩

end Maze

end Sp18.MazeGame
