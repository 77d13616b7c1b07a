import Sp18.MazeGame.Game
import Sp18.Foundation.StepSystem

/-!
# Where the player is

The motion of the player under any ticks of the timer and any changes of `next_dir`. `Motion` says
where the player can be: on an open square of the maze when `move_cnt` is 0, and on the way between
two of them otherwise. Turning back exchanges the two (`turnBack_motion`), a tick in a square sets
out for a neighbour that is open (`chooseDir_departs`), and every move goes one pixel on
(`move_motion`).
-/

set_option autoImplicit false
set_option relaxedAutoImplicit false

namespace Sp18.MazeGame

open Foundation

/-- The position is that of a lattice point, which is inside the maze and no wall. -/
structure Maze.OpenSquare (m : Maze) (xAfter yAfter : ℤ) : Prop where
  column : xAfter % 12 = 0
  row : yAfter % 12 = 0
  inside : m.Inside (xAfter / 12) (yAfter / 12)
  noWall : m.wall (xAfter / 12) (yAfter / 12) = false

/-- The lattice point of a square. -/
theorem Maze.OpenSquare.tdiv_eq {m : Maze} {xAfter yAfter : ℤ} (h : m.OpenSquare xAfter yAfter) :
    xAfter.tdiv blockDim = xAfter / 12 ∧ yAfter.tdiv blockDim = yAfter / 12 := by
  obtain ⟨hx, -, hy, -⟩ := h.inside
  exact ⟨Int.tdiv_eq_ediv_of_nonneg (by omega), Int.tdiv_eq_ediv_of_nonneg (by omega)⟩

namespace Thread

/-- Where the player is when `distance` pixels of its way to the next square are left. -/
structure Between (t : Thread) (distance : ℤ) : Prop where
  moves : t.dir ≠ .stop
  ahead : t.game.maze.OpenSquare (t.xAfter + distance * t.dir.dx) (t.yAfter + distance * t.dir.dy)
  behind : t.game.maze.OpenSquare (t.xAfter - (12 - distance) * t.dir.dx)
    (t.yAfter - (12 - distance) * t.dir.dy)

/-- The state of the motion between ticks. -/
structure Motion (t : Thread) : Prop where
  moveCnt : 0 ≤ t.moveCnt ∧ t.moveCnt ≤ 11
  square : t.moveCnt = 0 → t.game.maze.OpenSquare t.xAfter t.yAfter
  between : t.moveCnt ≠ 0 → t.Between t.moveCnt
  column : 12 ≤ t.xAfter ∧ t.xAfter ≤ 12 * (2 * t.game.maze.xDim - 1)
  row : 12 ≤ t.yAfter ∧ t.yAfter ≤ 12 * (2 * t.game.maze.yDim - 1)

/-- What happens to the thread: a tick of the timer, a change of `next_dir`, and the redrawing. -/
inductive Event where
  | tick (behind : Bool)
  | turn (dir : Dir)
  | redraw
  deriving DecidableEq

/-- The step of the thread. -/
def step (blocks : ℕ → Image) (t : Thread) : Event → Thread
  | .tick behind => t.tick blocks behind
  | .turn dir => { t with nextDir := dir }
  | .redraw => t.redraw blocks

variable (blocks : ℕ → Image) {t : Thread}

/-! ### Squares -/

theorem openSquare_of_inside {m : Maze} (h : m.Sound) {x y : ℤ} (hin : m.Inside x y) :
    m.OpenSquare (12 * x) (12 * y) := by
  have hx : 12 * x / 12 = x := by omega
  have hy : 12 * y / 12 = y := by omega
  refine ⟨by omega, by omega, ?_, ?_⟩
  · rwa [hx, hy]
  · rw [hx, hy]
    exact h.open_inside x y hin

/-- Squares stay open when the game changes the maze. -/
theorem openSquare_keepsMaze {g g' : Game} {xAfter yAfter : ℤ} (hkeep : g.KeepsMaze g')
    (hsound : g.maze.Sound) (h : g.maze.OpenSquare xAfter yAfter) :
    g'.maze.OpenSquare xAfter yAfter := by
  have hin : g'.maze.Inside (xAfter / 12) (yAfter / 12) := by
    rw [Maze.Inside, hkeep.xDim, hkeep.yDim]
    exact h.inside
  exact ⟨h.column, h.row, hin, (hkeep.sound hsound).open_inside _ _ hin⟩

/-- The squares that `find_open_directions` finds open are inside. -/
theorem findOpenDirections_inside {m : Maze} (h : m.Sound) {x y : ℤ} (hin : m.Inside x y)
    {behind : Bool} {dir : Dir} (hdir : dir ≠ .stop)
    (hopen : m.findOpenDirections x y behind dir = true) : m.Inside (x + dir.dx) (y + dir.dy) := by
  have hwall : m.wall (x + dir.dx) (y + dir.dy) = false := by
    cases dir with
    | stop => exact absurd rfl hdir
    | up | right | down | left =>
      simpa [Maze.findOpenDirections, Dir.dx, Dir.dy, sub_eq_add_neg] using hopen
  -- a neighbour that is not inside is on a boundary, where everything is a wall
  by_contra hout
  have hborder : m.OnBorder (x + dir.dx) (y + dir.dy) := by
    obtain ⟨hx0, hx1, hy0, hy1⟩ := hin
    simp only [Maze.Inside] at hout
    cases dir <;> simp only [Dir.dx, Dir.dy, Maze.OnBorder] at hout ⊢ <;> omega
  rw [h.border _ _ hborder] at hwall
  cases hwall

/-! ### Turning back -/

theorem turnBack_game (t : Thread) : t.turnBack.game = t.game ∧ t.turnBack.xAfter = t.xAfter ∧
    t.turnBack.yAfter = t.yAfter := by
  unfold turnBack
  split_ifs <;> exact ⟨rfl, rfl, rfl⟩

theorem backwards_spec {dir next : Dir} (h : dir.backwards next = true) :
    dir ≠ .stop ∧ next ≠ .stop ∧ next.dx = -dir.dx ∧ next.dy = -dir.dy := by
  cases dir <;> cases next <;> first | exact absurd h (by decide) | decide

/-- The square ahead and the square behind change places. -/
theorem turnBack_motion (h : t.Motion) : t.turnBack.Motion := by
  unfold turnBack
  split_ifs with hnext hback hpos
  · obtain ⟨-, hmoves, hdx, hdy⟩ := backwards_spec hback
    have hrange := h.moveCnt
    have hbetween := h.between hpos.ne'
    have hconst : blockDim = 12 := rfl
    have hleft : 12 - (12 - t.moveCnt) = t.moveCnt := by omega
    constructor
    · simp only [hconst]
      omega
    · simp only [hconst]
      omega
    · intro _
      refine ⟨hmoves, ?_, ?_⟩
      · simp only [hconst, hdx, hdy, mul_neg, ← sub_eq_add_neg]
        exact hbetween.behind
      · simp only [hconst, hdx, hdy, hleft, mul_neg, sub_neg_eq_add]
        exact hbetween.ahead
    · exact h.column
    · exact h.row
  · have hcnt : t.moveCnt = 0 := by
      have hrange := h.moveCnt
      omega
    exact ⟨h.moveCnt, h.square, fun hne ↦ absurd hcnt hne, h.column, h.row⟩
  · exact h
  · exact h

/-! ### Setting out -/

theorem chooseDir_game (t : Thread) (behind : Bool) : (t.chooseDir behind).game = t.game ∧
    (t.chooseDir behind).xAfter = t.xAfter ∧ (t.chooseDir behind).yAfter = t.yAfter := by
  simp only [chooseDir]
  generalize
    (if t.game.maze.findOpenDirections _ _ behind t.nextDir then t.nextDir else t.dir) = dir
  split_ifs <;> exact ⟨rfl, rfl, rfl⟩

/-- In an open square the player stops or sets out for an open square next to it. -/
theorem chooseDir_departs (hsound : t.game.maze.Sound)
    (hsquare : t.game.maze.OpenSquare t.xAfter t.yAfter) (behind : Bool) :
    t.chooseDir behind = { t with dir := .stop } ∨
      ∃ dir, t.chooseDir behind = { t with dir := dir, moveCnt := 12 } ∧
        Between { t with dir := dir, moveCnt := 12 } 12 := by
  have hin := hsquare.inside
  obtain ⟨hx, hy⟩ := hsquare.tdiv_eq
  simp only [chooseDir, hx, hy]
  generalize hop : t.game.maze.findOpenDirections (t.xAfter / 12) (t.yAfter / 12) behind = op
  generalize (if op t.nextDir then t.nextDir else t.dir) = dir
  split_ifs with hmoves hclosed
  · exact Or.inl rfl
  · refine Or.inr ⟨dir, rfl, hmoves, ?_, ?_⟩
    · have hopen : op dir = true := by simpa using hclosed
      rw [← hop] at hopen
      have hahead := openSquare_of_inside hsound
        (findOpenDirections_inside hsound hin hmoves hopen)
      have hcolumn := hsquare.column
      have hrow := hsquare.row
      have hxnext : t.xAfter + 12 * dir.dx = 12 * (t.xAfter / 12 + dir.dx) := by omega
      have hynext : t.yAfter + 12 * dir.dy = 12 * (t.yAfter / 12 + dir.dy) := by omega
      simpa only [hxnext, hynext] using hahead
    · simpa using hsquare
  · rw [not_ne_iff] at hmoves
    rw [hmoves]
    exact Or.inl rfl

/-! ### Moving -/

theorem move_spec (t : Thread) (hmoves : t.dir ≠ .stop) :
    (t.move blocks).game.maze = t.game.maze ∧ (t.move blocks).dir = t.dir ∧
      (t.move blocks).moveCnt = t.moveCnt - 1 ∧
      (t.move blocks).xAfter = t.xAfter + t.dir.dx ∧
      (t.move blocks).yAfter = t.yAfter + t.dir.dy := by
  obtain ⟨hmaze, hposition⟩ := Game.movePlayer_spec blocks t.game t.dir t.xAfter t.yAfter
  simp only [move, if_pos hmoves, hmaze, hposition, and_self]

/-- A move takes the player one pixel on, and to the square ahead if that was the last one. -/
theorem move_motion (hlow : 0 < t.moveCnt) (hhigh : t.moveCnt ≤ 12) (h : t.Between t.moveCnt) :
    (t.move blocks).Motion := by
  obtain ⟨hmaze, hdir, hcnt, hx, hy⟩ := move_spec blocks t h.moves
  have hxahead : (t.move blocks).xAfter + (t.move blocks).moveCnt * t.dir.dx =
      t.xAfter + t.moveCnt * t.dir.dx := by
    rw [hx, hcnt]
    ring
  have hyahead : (t.move blocks).yAfter + (t.move blocks).moveCnt * t.dir.dy =
      t.yAfter + t.moveCnt * t.dir.dy := by
    rw [hy, hcnt]
    ring
  have hxbehind : (t.move blocks).xAfter - (12 - (t.move blocks).moveCnt) * t.dir.dx =
      t.xAfter - (12 - t.moveCnt) * t.dir.dx := by
    rw [hx, hcnt]
    ring
  have hybehind : (t.move blocks).yAfter - (12 - (t.move blocks).moveCnt) * t.dir.dy =
      t.yAfter - (12 - t.moveCnt) * t.dir.dy := by
    rw [hy, hcnt]
    ring
  have hahead := h.ahead
  have hbehind := h.behind
  rw [← hxahead, ← hyahead, ← hmaze] at hahead
  rw [← hxbehind, ← hybehind, ← hmaze] at hbehind
  obtain ⟨hax0, hax1, hay0, hay1⟩ := hahead.inside
  obtain ⟨hbx0, hbx1, hby0, hby1⟩ := hbehind.inside
  have hmod := And.intro (And.intro hahead.column hahead.row) (And.intro hbehind.column hbehind.row)
  refine ⟨⟨by omega, by omega⟩, fun hzero ↦ ?_, fun _ ↦ ?_, ?_, ?_⟩
  · simpa only [hzero, zero_mul, add_zero] using hahead
  · exact ⟨by rw [hdir]; exact h.moves, by rw [hdir]; exact hahead, by rw [hdir]; exact hbehind⟩
  · cases hd : t.dir <;> simp only [hd, Dir.dx] at hax0 hax1 hbx0 hbx1 hmod <;> omega
  · cases hd : t.dir <;> simp only [hd, Dir.dy] at hay0 hay1 hby0 hby1 hmod <;> omega

/-! ### Ticks -/

/-- The maze is sound and the player is where it can be. -/
structure Safe (t : Thread) : Prop where
  sound : t.game.maze.Sound
  motion : t.Motion

/-- Whether a state is safe depends on the maze and the variables of the motion only. -/
theorem Safe.congr {t' : Thread} (h : t.Safe) (hmaze : t'.game.maze = t.game.maze)
    (hx : t'.xAfter = t.xAfter) (hy : t'.yAfter = t.yAfter) (hcnt : t'.moveCnt = t.moveCnt)
    (hdir : t.moveCnt ≠ 0 → t'.dir = t.dir) : t'.Safe := by
  have hmotion := h.motion
  refine ⟨by rw [hmaze]; exact h.sound, by rw [hcnt]; exact hmotion.moveCnt, ?_, ?_, ?_, ?_⟩
  · rw [hcnt, hmaze, hx, hy]
    exact hmotion.square
  · intro hne
    rw [hcnt] at hne ⊢
    obtain ⟨hmoves, hahead, hbehind⟩ := hmotion.between hne
    refine ⟨?_, ?_, ?_⟩
    · rwa [hdir hne]
    · rwa [hmaze, hx, hy, hdir hne]
    · rwa [hmaze, hx, hy, hdir hne]
  · rw [hx, hmaze]
    exact hmotion.column
  · rw [hy, hmaze]
    exact hmotion.row

/-- Unveiling around a player who is in a square keeps the square open. -/
theorem unveil_safe (h : t.Safe) (hcnt : t.moveCnt = 0) (xAfter yAfter : ℤ) :
    Safe { t with game := (t.game.unveilAroundPlayer blocks xAfter yAfter).1 } := by
  have hkeep := Game.unveilAroundPlayer_keepsMaze blocks t.game xAfter yAfter
  refine ⟨hkeep.sound h.sound, h.motion.moveCnt, fun _ ↦ ?_, fun hne ↦ absurd hcnt hne, ?_, ?_⟩
  · exact openSquare_keepsMaze hkeep h.sound (h.motion.square hcnt)
  · simp only [hkeep.xDim]
    exact h.motion.column
  · simp only [hkeep.yDim]
    exact h.motion.row

theorem move_safe (hsound : t.game.maze.Sound) (hlow : 0 < t.moveCnt) (hhigh : t.moveCnt ≤ 12)
    (h : t.Between t.moveCnt) : (t.move blocks).Safe := by
  refine ⟨?_, move_motion blocks hlow hhigh h⟩
  rw [(move_spec blocks t h.moves).1]
  exact hsound

/-- A tick keeps the player where it can be. -/
theorem tick_safe (h : t.Safe) (behind : Bool) : (t.tick blocks behind).Safe := by
  obtain ⟨hgame, -, -⟩ := turnBack_game t
  have hturned : t.turnBack.Safe := ⟨by rw [hgame]; exact h.sound, turnBack_motion h.motion⟩
  have hrange := hturned.motion.moveCnt
  unfold tick
  by_cases hnext : t.gotoNextLevel = true
  · rw [if_pos hnext]
    exact h
  · rw [if_neg hnext]
    by_cases hcnt : t.turnBack.moveCnt = 0
    · simp only [if_pos hcnt]
      have hunveiled := unveil_safe blocks hturned hcnt t.turnBack.xAfter
        t.turnBack.yAfter
      split_ifs
      · -- the level is won
        exact hunveiled.congr rfl rfl rfl rfl fun _ ↦ rfl
      · rcases chooseDir_departs hunveiled.sound (hunveiled.motion.square hcnt) behind with
          hstop | ⟨dir, hdeparts, hbetween⟩
        · rw [hstop]
          exact hunveiled.congr rfl rfl rfl rfl fun hne ↦ absurd hcnt hne
        · rw [hdeparts]
          exact move_safe blocks hunveiled.sound (show (0 : ℤ) < 12 by omega) le_rfl hbetween
    · simp only [if_neg hcnt]
      exact move_safe blocks hturned.sound (by omega) (by omega) (hturned.motion.between hcnt)

theorem step_safe (t : Thread) (event : Event) (h : t.Safe) : (t.step blocks event).Safe := by
  cases event with
  | tick behind => exact tick_safe blocks h behind
  | turn dir => exact h.congr rfl rfl rfl rfl fun _ ↦ rfl
  | redraw => exact h.congr rfl rfl rfl rfl fun _ ↦ rfl

/-- The player starts on the open square at (1,1). -/
theorem startLevel_safe (h : t.game.maze.Sound) : (t.startLevel blocks).Safe := by
  have hkeep := Game.unveilAroundPlayer_keepsMaze blocks t.game blockDim blockDim
  unfold startLevel
  generalize (t.game.unveilAroundPlayer blocks blockDim blockDim).1 = g at hkeep ⊢
  have hsound := hkeep.sound h
  have hmin : mazeMinXDim = 14 ∧ mazeMinYDim = 8 ∧ blockDim = 12 := by decide
  have hwide := hsound.wide
  have hhigh := hsound.high
  rw [hmin.1] at hwide
  rw [hmin.2.1] at hhigh
  refine step_safe blocks _ .redraw ⟨hsound, ?_⟩
  constructor
  · exact ⟨le_rfl, show (0 : ℤ) ≤ 11 by omega⟩
  · exact fun _ ↦ openSquare_of_inside hsound ⟨one_pos, by omega, one_pos, by omega⟩
  · exact fun hne ↦ absurd rfl hne
  · simp only [hmin]
    omega
  · simp only [hmin]
    omega

/-- Whatever the ticks and the changes of direction, the player is on an open square or on its way
from one to the next. -/
theorem everyState_motion {m m' : Maze} {xDim yDim startFruits : ℤ} {fuel : ℕ} {tape : Tape}
    (hmaze : m.makeMaze xDim yDim startFruits fuel tape = some (0, m')) (blocks : ℕ → Image)
    (t : Thread) (events : List Event) :
    EveryState (step blocks) Motion
      (startLevel blocks { t with game := { t.game with maze := m' } }) events := by
  have hsound : m'.Sound := (Maze.makeMaze_sound hmaze).1
  have hsafe := everyState_of_invariant (step_safe blocks) (startLevel_safe blocks
    (t := { t with game := { t.game with maze := m' } }) hsound) events
  exact hsafe.mono fun _ h ↦ h.motion

/-- A run in which the player turns back on its way, in a maze made by a single worm. -/
theorem everyState_motion_wormTape : ∃ m,
    Maze.unmade.makeMaze 14 8 1 300 Maze.wormTape = some (0, m) ∧
      EveryState (step fun _ _ ↦ 0) Motion
        (startLevel (fun _ _ ↦ 0) { initial with game := { Game.initial with maze := m } })
        [.turn .right, .tick false, .tick false, .turn .left, .tick true, .redraw] := by
  obtain ⟨m, hmaze⟩ := Maze.makeMaze_wormTape
  exact ⟨m, hmaze, everyState_motion hmaze (fun _ _ ↦ 0) initial _⟩

end Thread

end Sp18.MazeGame
