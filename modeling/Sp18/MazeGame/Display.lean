import Sp18.MazeGame.GameAccesses
import Sp18.MazeGame.Panning
import Sp18.MazeGame.PlayerMask
import Sp18.MazeGame.StatusBar
import Mathlib.Data.Int.Interval

/-!
# What the player sees

`rtc_thread` over all levels, with the display. A round of its loop, a `Frame`, reads how many ticks
have passed, shows the status, makes at most eight ticks, and shows the window with the player in it
if the player has ever moved.

After each frame the upper part of the display is the maze with the player on it
(`Session.Displayed`), the lower part the level, the fruits there were before the frame and the time
since the start of the level (`Session.ShowsStatus`), and while a window is drawn nothing of what is
displayed changes (`Video.DrawsUnseen`). A player who has not moved yet is not drawn again, because
nothing can have changed: in a square that has been unveiled, unveiling again does nothing
(`unveilAroundPlayer_of_settled`).

Left out are the colours of the palette and the LEDs of the controller.
-/

set_option autoImplicit false
set_option relaxedAutoImplicit false

namespace Sp18.MazeGame

open Foundation

/-- `update_rate` -/
def updateRate : ℤ := 32

namespace Thread

variable (blocks : ℕ → Image)

/-- The window with the player in it. -/
def masked (t : Thread) : Screen :=
  t.game.screen.mask t.xAfter t.yAfter (blocks (Maze.getPlayerBlock t.lastDir))
    (blocks (Maze.getPlayerMask t.lastDir))

/-- The start of a level, before the window is shown. -/
def entered (t : Thread) : Thread :=
  { t with
    game := (t.game.unveilAroundPlayer blocks blockDim blockDim).1
    xAfter := blockDim
    yAfter := blockDim
    moveCnt := 0
    lastDir := .up
    dir := .stop
    nextDir := .stop
    gotoNextLevel := false }

/-- A pixel of the maze with the player on it. -/
def picture (t : Thread) (x y : ℤ) : UInt8 :=
  let i := x - t.xAfter
  let j := y - t.yAfter
  if (0 ≤ i ∧ i < 12 ∧ 0 ≤ j ∧ j < 12) ∧
      blocks (Maze.getPlayerMask t.lastDir) (j * 12 + i) = 1 then
    blocks (Maze.getPlayerBlock t.lastDir) (j * 12 + i)
  else t.game.maze.pixel blocks x y

end Thread

/-- A round of the loop over the frames: what is read from the RTC, the changes of `next_dir` before
each tick, and the value behind the array `open` at it. -/
structure Frame where
  data : UInt32
  turns : ℕ → List Dir
  behind : ℕ → Bool

/-- The number of ticks since the last frame. -/
def Frame.ticks (f : Frame) : ℕ := f.data.toNat / 256

/-- What happens to the thread in a frame before it is redrawn. -/
def Frame.events (f : Frame) : List Thread.Event :=
  (List.range (min f.ticks 8)).flatMap fun i ↦ (f.turns i).map .turn ++ [.tick (f.behind i)]

/-- Where `rtc_thread` stands: before the first level, in the loop over the frames, behind it, or
behind the loop over the levels. -/
inductive Phase where
  | starting
  | playing
  | won
  | over
  deriving DecidableEq

/-- The thread, the display, `buffer` of `text.c`, and the variables of the time. -/
structure Session where
  thread : Thread
  video : Video
  buffer : ℤ → UInt8
  level : ℤ
  total : ℤ
  prevTime : ℤ
  tickTime : ℤ
  phase : Phase

namespace Session

/-- The state after `set_mode_X`. -/
def initial : Session where
  thread := Thread.initial
  video := Video.modeX
  buffer _ := 0
  level := 0
  total := 0
  prevTime := 0
  tickTime := 0
  phase := .starting

/-- What happens to the game: a level starts, with the draws that its maze is made of, a frame is
played, or the player quits. -/
inductive Event where
  | level (fuel : ℕ) (tape : Tape)
  | frame (f : Frame)
  | quit

section Blocks

variable (blocks : ℕ → Image)

/-- The window is shown with the player in it. -/
def redraw (s : Session) : Session :=
  { s with
    thread := s.thread.redraw blocks
    video := (s.thread.masked blocks).showScreen s.video }

/-- The start of the next level, unless the draws do not make a maze. -/
def nextLevel (s : Session) (fuel : ℕ) (tape : Tape) : Session :=
  let level := s.level + 1
  if level > maxLevel then { s with level := level, phase := .over }
  else
    match s.thread.game.prepareMazeLevel blocks level fuel tape with
    | none => s
    | some (ret, game) =>
      let s := { s with level := level, prevTime := i32 (s.prevTime + s.tickTime) }
      if ret ≠ 0 then { s with thread := { s.thread with game := game }, phase := .over }
      else
        redraw blocks
          { s with
            thread := Thread.entered blocks { s.thread with game := game }
            phase := .playing }

/-- The seconds that the status of a frame shows. -/
def seconds (s : Session) (f : Frame) : ℤ :=
  i32 (u32 (i32 (i32 (s.total + f.ticks) - s.prevTime)) / updateRate)

/-- A frame before the window is shown. -/
def played (s : Session) (f : Frame) : Session :=
  let shown := s.video.showStatus s.buffer s.level s.thread.game.maze.nFruits (s.seconds f) 1
  let total := i32 (s.total + f.ticks)
  { s with
    thread := run (Thread.step blocks) s.thread f.events
    video := shown.1
    buffer := shown.2
    total := total
    tickTime := i32 (total - s.prevTime) }

/-- A round of the loop over the frames. -/
def frame (s : Session) (f : Frame) : Session :=
  let s := s.played blocks f
  let s := if s.thread.needRedraw then redraw blocks s else s
  { s with phase := if s.thread.gotoNextLevel then .won else .playing }

/-- The step of the game. -/
def step (s : Session) : Event → Session
  | .level fuel tape =>
    if s.phase = .starting ∨ s.phase = .won then s.nextLevel blocks fuel tape else s
  | .frame f => if s.phase = .playing then s.frame blocks f else s
  | .quit => { s with phase := .over }

/-- From the start of a level on, the upper part of the display shows the maze with the player. -/
def Displayed (s : Session) : Prop :=
  s.phase = .playing ∨ s.phase = .won → ∀ c < 320, ∀ r < 182, s.video.displayed c r =
    s.thread.picture blocks (s.thread.game.screen.showX + (c : ℕ))
      (s.thread.game.screen.showY + (r : ℕ))

/-- After a frame, the lower part of the display shows the level, the fruits and the time. -/
def ShowsStatus (s : Session) : Event → Prop
  | .frame f => s.phase = .playing → ∀ c < 320, ∀ r < 18,
      let text := statusText s.level s.thread.game.maze.nFruits (s.seconds f)
      (TextPixel fontHeight text c r →
        (s.frame blocks f).video.displayed c (182 + r) = textColor 1) ∧
      (¬TextPixel fontHeight text c r →
        (s.frame blocks f).video.displayed c (182 + r) = bufferColor 1)
  | _ => True

end Blocks

end Session

/-- While `show_screen` copies the planes of a window, the display stays as it is. -/
def Video.DrawsUnseen (v : Video) : Prop :=
  ∀ (s : Screen), ∀ i ≤ 4, ∀ c < 320, ∀ row < 200,
    (s.showPlanes { v with targetImg := v.targetImg ^^^ 0x4000 } i).displayed c row =
      v.displayed c row

/-! ### Unveiling again -/

namespace Maze

/-- There is nothing to unveil at the lattice point. -/
def Unveiled (m : Maze) (x y : ℤ) : Prop :=
  (x < 0 ∨ x > 2 * m.xDim ∨ y < 0 ∨ y > 2 * m.yDim) ∨ hasBit (m.cell x y) mazeReach = true

/-- There is nothing to eat at the lattice point. -/
def Eaten (m : Maze) (x y : ℤ) : Prop :=
  (x < 0 ∨ x ≥ 2 * m.xDim ∨ y < 0 ∨ y ≥ 2 * m.yDim) ∨ hasBit (m.cell x y) mazeFruit = false

/-- More of the maze is unveiled, and no fruit has come. -/
structure Covers (m m' : Maze) : Prop where
  xDim : m'.xDim = m.xDim
  yDim : m'.yDim = m.yDim
  reach : ∀ i, hasBit (m.cells i) mazeReach = true → hasBit (m'.cells i) mazeReach = true
  fruit : ∀ i, hasBit (m.cells i) mazeFruit = false → hasBit (m'.cells i) mazeFruit = false

variable {m m' m'' : Maze} {x y : ℤ}

namespace Covers

theorem refl (m : Maze) : m.Covers m := ⟨rfl, rfl, fun _ ↦ id, fun _ ↦ id⟩

theorem trans (h : m.Covers m') (h' : m'.Covers m'') : m.Covers m'' :=
  ⟨h'.xDim.trans h.xDim, h'.yDim.trans h.yDim, fun i ↦ h'.reach i ∘ h.reach i,
    fun i ↦ h'.fruit i ∘ h.fruit i⟩

theorem index (h : m.Covers m') (x y : ℤ) : m'.index x y = m.index x y := by
  rw [Maze.index, h.xDim]
  rfl

theorem unveiled (h : m.Covers m') (hpoint : m.Unveiled x y) : m'.Unveiled x y := by
  rw [Unveiled, h.xDim, h.yDim, cell, h.index]
  exact hpoint.imp_right (h.reach _)

theorem eaten (h : m.Covers m') (hpoint : m.Eaten x y) : m'.Eaten x y := by
  rw [Eaten, h.xDim, h.yDim, cell, h.index]
  exact hpoint.imp_right (h.fruit _)

end Covers

theorem covers_setCell_or (m : Maze) (x y : ℤ) :
    m.Covers (m.setCell x y (m.cell x y ||| mazeReach)) := by
  have hfruit : hasBit (m.cell x y ||| mazeReach) mazeFruit = hasBit (m.cell x y) mazeFruit := by
    rw [hasBit_or]
    exact Bool.or_false _
  refine ⟨rfl, rfl, fun i hi ↦ ?_, fun i hi ↦ (setIndex_hasBit hfruit i).trans hi⟩
  by_cases hsame : i = m.index x y
  · rw [setCell, hsame, setIndex_cells_self, hasBit_or]
    exact Bool.or_eq_true_iff.mpr (Or.inr rfl)
  · rwa [setCell, setIndex_cells_of_ne hsame]

/-- The points that are unveiled around a lattice point. -/
def around : List (ℤ × ℤ) :=
  [(-1, -1), (-1, 0), (-1, 1), (0, -1), (0, 0), (0, 1), (1, -1), (1, 0), (1, 1),
    (0, -2), (2, 0), (0, 2), (-2, 0)]

/-- There is nothing to eat and nothing to unveil around the lattice point. -/
structure Settled (m : Maze) (x y : ℤ) : Prop where
  eaten : m.Eaten x y
  unveiled : ∀ p ∈ around, m.Unveiled (x + p.1) (y + p.2)

end Maze

namespace Game

variable {blocks : ℕ → Image} {g : Game} {x y : ℤ}

theorem unveilSpace_covers (blocks : ℕ → Image) (g : Game) (x y : ℤ) :
    g.maze.Covers (g.unveilSpace blocks x y).maze := by
  unfold unveilSpace
  split_ifs
  · exact Maze.Covers.refl _
  · exact Maze.Covers.refl _
  · exact g.maze.covers_setCell_or x y

theorem unveilSpace_unveiled (blocks : ℕ → Image) (g : Game) (x y : ℤ) :
    (g.unveilSpace blocks x y).maze.Unveiled x y := by
  unfold unveilSpace
  split_ifs with hout hreach
  · exact Or.inl hout
  · exact Or.inr hreach
  · refine Or.inr ?_
    rw [drawPoint_maze, Maze.cell, Maze.setCell, Maze.setIndex_index, Maze.setIndex_cells_self,
      Maze.hasBit_or]
    exact Bool.or_eq_true_iff.mpr (Or.inr rfl)

theorem unveilSpace_of_unveiled (h : g.maze.Unveiled x y) : g.unveilSpace blocks x y = g := by
  unfold unveilSpace
  split_ifs with hout hreach
  · rfl
  · rfl
  · exact absurd h (not_or.mpr ⟨hout, hreach⟩)

theorem checkForFruit_eaten (blocks : ℕ → Image) (g : Game) (x y : ℤ) :
    (g.checkForFruit blocks x y).1.maze.Eaten x y := by
  unfold checkForFruit
  by_cases hout : x < 0 ∨ x ≥ 2 * g.maze.xDim ∨ y < 0 ∨ y ≥ 2 * g.maze.yDim
  · rw [if_pos hout]
    exact Or.inl hout
  · rw [if_neg hout]
    by_cases hfruit : Maze.fruitNumber (g.maze.cell x y) = 0
    · simp only [hfruit]
      exact Or.inr ((Maze.fruitNumber_eq_zero_iff _).mp hfruit)
    · have hcleared : Maze.hasBit (g.maze.cell x y &&& ~~~mazeFruit) mazeFruit = false :=
        Maze.hasBit_and_of_eq_zero rfl
      simp only [ne_eq, hfruit, not_false_eq_true, if_true]
      refine Or.inr ?_
      rw [drawPoint_maze]
      split_ifs <;>
      · change Maze.hasBit ((g.maze.setCell x y _).cell x y) mazeFruit = false
        rwa [Maze.cell, Maze.setCell, Maze.setIndex_index, Maze.setIndex_cells_self]

theorem checkForFruit_of_eaten (h : g.maze.Eaten x y) : (g.checkForFruit blocks x y).1 = g := by
  unfold checkForFruit
  by_cases hout : x < 0 ∨ x ≥ 2 * g.maze.xDim ∨ y < 0 ∨ y ≥ 2 * g.maze.yDim
  · rw [if_pos hout]
  · have hfruit := (Maze.fruitNumber_eq_zero_iff _).mpr (h.resolve_left hout)
    rw [if_neg hout]
    simp only [hfruit]
    rfl

/-- The loop over some points unveils them. -/
theorem unveilAll_spec (blocks : ℕ → Image) (points : List (ℤ × ℤ)) (g : Game) (x y : ℤ) :
    g.maze.Covers (points.foldl (fun g (i, j) ↦ g.unveilSpace blocks (x + i) (y + j)) g).maze ∧
      ∀ p ∈ points, Maze.Unveiled
        (points.foldl (fun g (i, j) ↦ g.unveilSpace blocks (x + i) (y + j)) g).maze
        (x + p.1) (y + p.2) := by
  induction points generalizing g with
  | nil => exact ⟨Maze.Covers.refl _, fun p hp ↦ absurd hp List.not_mem_nil⟩
  | cons point rest ih =>
    obtain ⟨hcovers, hunveiled⟩ := ih (g.unveilSpace blocks (x + point.1) (y + point.2))
    refine ⟨(g.unveilSpace_covers blocks _ _).trans hcovers, fun p hp ↦ ?_⟩
    rcases List.mem_cons.mp hp with rfl | hp
    · exact hcovers.unveiled (g.unveilSpace_unveiled blocks _ _)
    · exact hunveiled p hp

theorem unveilAll_of_unveiled {points : List (ℤ × ℤ)}
    (h : ∀ p ∈ points, g.maze.Unveiled (x + p.1) (y + p.2)) :
    points.foldl (fun g (i, j) ↦ g.unveilSpace blocks (x + i) (y + j)) g = g := by
  induction points with
  | nil => rfl
  | cons point rest ih =>
    have hpoint := @unveilSpace_of_unveiled blocks g _ _ (h point List.mem_cons_self)
    rw [List.foldl_cons]
    dsimp only
    rw [hpoint]
    exact ih fun p hp ↦ h p (List.mem_cons_of_mem _ hp)

/-- What is around the player is unveiled. -/
theorem unveilAroundPlayer_settled (blocks : ℕ → Image) (g : Game) (xAfter yAfter : ℤ) :
    (g.unveilAroundPlayer blocks xAfter yAfter).1.maze.Settled (xAfter.tdiv blockDim)
      (yAfter.tdiv blockDim) := by
  obtain ⟨hcovers, hunveiled⟩ := unveilAll_spec blocks Maze.around
    (g.checkForFruit blocks (xAfter.tdiv blockDim) (yAfter.tdiv blockDim)).1
    (xAfter.tdiv blockDim) (yAfter.tdiv blockDim)
  exact ⟨hcovers.eaten (checkForFruit_eaten blocks g _ _), hunveiled⟩

/-- Unveiling it again does nothing. -/
theorem unveilAroundPlayer_of_settled {xAfter yAfter : ℤ}
    (h : g.maze.Settled (xAfter.tdiv blockDim) (yAfter.tdiv blockDim)) :
    (g.unveilAroundPlayer blocks xAfter yAfter).1 = g := by
  simp only [unveilAroundPlayer, checkForFruit_of_eaten h.eaten]
  exact unveilAll_of_unveiled h.unveiled

end Game

/-! ### The player who does not move -/

namespace Thread

variable (blocks : ℕ → Image) {t t' : Thread}

/-- The player stands still in a square whose surroundings are unveiled. -/
structure Still (t : Thread) : Prop where
  dir : t.dir = .stop
  moveCnt : t.moveCnt = 0
  settled : t.game.maze.Settled (t.xAfter.tdiv blockDim) (t.yAfter.tdiv blockDim)

/-- What the player sees is the same. -/
structure SamePlace (t t' : Thread) : Prop where
  game : t'.game = t.game
  xAfter : t'.xAfter = t.xAfter
  yAfter : t'.yAfter = t.yAfter
  lastDir : t'.lastDir = t.lastDir

theorem SamePlace.refl (t : Thread) : t.SamePlace t := ⟨rfl, rfl, rfl, rfl⟩

theorem SamePlace.trans {t'' : Thread} (h : t.SamePlace t') (h' : t'.SamePlace t'') :
    t.SamePlace t'' :=
  ⟨h'.game.trans h.game, h'.xAfter.trans h.xAfter, h'.yAfter.trans h.yAfter,
    h'.lastDir.trans h.lastDir⟩

theorem SamePlace.still (h : t.SamePlace t') (hstill : t.Still) (hdir : t'.dir = .stop)
    (hcnt : t'.moveCnt = 0) : t'.Still := by
  refine ⟨hdir, hcnt, ?_⟩
  rw [h.game, h.xAfter, h.yAfter]
  exact hstill.settled

/-- A move is noted. -/
theorem move_needRedraw (t : Thread) : (t.move blocks).needRedraw = false →
    t.needRedraw = false ∧ t.dir = .stop ∧ t.move blocks = t := by
  unfold move
  split_ifs with hmoves
  · intro h
    cases h
  · exact fun h ↦ ⟨h, not_not.mp hmoves, rfl⟩

theorem turnBack_needRedraw (t : Thread) : t.turnBack.needRedraw = t.needRedraw := by
  unfold turnBack
  split_ifs <;> rfl

/-- The choice of a direction sets the direction and, if it is not `DIR_STOP`, what is left of the
way. -/
theorem chooseDir_eq (t : Thread) (behind : Bool) : ∃ dir moveCnt,
    t.chooseDir behind = { t with dir := dir, moveCnt := moveCnt } ∧
      (dir = .stop → moveCnt = t.moveCnt) := by
  simp only [chooseDir]
  generalize (if t.game.maze.findOpenDirections _ _ behind t.nextDir then t.nextDir else t.dir) =
    dir
  split_ifs with hmoves
  · exact ⟨.stop, _, rfl, fun _ ↦ rfl⟩
  · exact ⟨dir, _, rfl, fun hstop ↦ absurd hstop hmoves⟩
  · exact ⟨dir, _, rfl, fun _ ↦ rfl⟩

/-- A player who stands still does not turn back. -/
theorem Still.turnBack_eq (h : t.Still) : t.turnBack = t := by
  have hnot : Dir.backwards .stop t.nextDir = false := by
    cases t.nextDir <;> rfl
  unfold turnBack
  rw [h.dir, hnot]
  simp

/-- A step of the thread after which the player still has not moved. -/
theorem step_still (event : Event) (hevent : event ≠ .redraw)
    (h : (t.step blocks event).needRedraw = false) :
    t.needRedraw = false ∧
      (t.Still → (t.step blocks event).Still ∧ t.SamePlace (t.step blocks event)) := by
  cases event with
  | redraw => exact absurd rfl hevent
  | turn dir =>
    exact ⟨h, fun hstill ↦ ⟨⟨hstill.dir, hstill.moveCnt, hstill.settled⟩, ⟨rfl, rfl, rfl, rfl⟩⟩⟩
  | tick behind =>
    change (t.tick blocks behind).needRedraw = false at h
    change _ ∧ (_ → (t.tick blocks behind).Still ∧ t.SamePlace (t.tick blocks behind))
    unfold tick at h ⊢
    by_cases hnext : t.gotoNextLevel = true
    · rw [if_pos hnext] at h ⊢
      exact ⟨h, fun hstill ↦ ⟨hstill, SamePlace.refl t⟩⟩
    · rw [if_neg hnext] at h ⊢
      by_cases hcnt : t.turnBack.moveCnt = 0
      · simp only [if_pos hcnt] at h ⊢
        generalize hunveil : t.turnBack.game.unveilAroundPlayer blocks t.turnBack.xAfter
          t.turnBack.yAfter = unveiled at h ⊢
        have hagain : t.Still → t.turnBack = t ∧ unveiled.1 = t.game := fun hstill ↦ by
          rw [← hunveil, hstill.turnBack_eq]
          exact ⟨rfl, Game.unveilAroundPlayer_of_settled hstill.settled⟩
        split_ifs at h ⊢
        · refine ⟨(turnBack_needRedraw t).symm.trans h, fun hstill ↦ ?_⟩
          obtain ⟨hback, hgame⟩ := hagain hstill
          rw [hback, hgame]
          exact ⟨⟨hstill.dir, hstill.moveCnt, hstill.settled⟩, ⟨rfl, rfl, rfl, rfl⟩⟩
        · obtain ⟨dir, moveCnt, hchosen, hleft⟩ :=
            chooseDir_eq { t.turnBack with game := unveiled.1 } behind
          obtain ⟨hredraw, hstop, hmove⟩ := move_needRedraw blocks _ h
          rw [hmove]
          rw [hchosen] at hredraw hstop ⊢
          refine ⟨(turnBack_needRedraw t).symm.trans hredraw, fun hstill ↦ ?_⟩
          obtain ⟨hback, hgame⟩ := hagain hstill
          have hsame : SamePlace t { t.turnBack with
              game := unveiled.1, dir := dir, moveCnt := moveCnt } := by
            rw [hback, hgame]
            exact ⟨rfl, rfl, rfl, rfl⟩
          exact ⟨hsame.still hstill hstop ((hleft hstop).trans hcnt), hsame⟩
      · simp only [if_neg hcnt] at h ⊢
        obtain ⟨hredraw, -, -⟩ := move_needRedraw blocks _ h
        refine ⟨(turnBack_needRedraw t).symm.trans hredraw, fun hstill ↦ ?_⟩
        rw [hstill.turnBack_eq] at hcnt
        exact absurd hstill.moveCnt hcnt

/-- What happens to the thread in a frame, as long as the player has not moved. -/
theorem run_still {events : List Event} (hevents : ∀ event ∈ events, event ≠ .redraw)
    (h : (run (step blocks) t events).needRedraw = false) :
    t.needRedraw = false ∧ (t.Still →
      (run (step blocks) t events).Still ∧ t.SamePlace (run (step blocks) t events)) := by
  induction events generalizing t with
  | nil => exact ⟨h, fun hstill ↦ ⟨hstill, SamePlace.refl t⟩⟩
  | cons event rest ih =>
    obtain ⟨hnext, hrest⟩ := ih (fun e he ↦ hevents e (List.mem_cons_of_mem _ he)) h
    obtain ⟨hfirst, hstep⟩ := step_still blocks event (hevents event List.mem_cons_self) hnext
    refine ⟨hfirst, fun hstill ↦ ?_⟩
    obtain ⟨hstill', hsame⟩ := hstep hstill
    obtain ⟨hstill'', hsame'⟩ := hrest hstill'
    exact ⟨hstill'', hsame.trans hsame'⟩

/-- At the start of a level the player stands still in an unveiled square. -/
theorem entered_still (t : Thread) : (t.entered blocks).Still :=
  ⟨rfl, rfl, Game.unveilAroundPlayer_settled blocks t.game blockDim blockDim⟩

theorem entered_game (t : Thread) :
    (t.entered blocks).game = (t.game.unveilAroundPlayer blocks blockDim blockDim).1 := by
  rw [entered]

theorem entered_keepsMaze (t : Thread) : t.game.KeepsMaze (t.entered blocks).game := by
  rw [entered_game]
  exact Game.unveilAroundPlayer_keepsMaze blocks t.game blockDim blockDim

theorem entered_shows (hsound : t.game.maze.Sound) (hwindow : t.game.InWindow 12 12)
    (hshows : t.game.ShowsMaze blocks) :
    (t.entered blocks).game.InWindow (t.entered blocks).xAfter (t.entered blocks).yAfter ∧
      (t.entered blocks).game.ShowsMaze blocks := by
  rw [entered_game]
  exact Game.unveilAroundPlayer_shows hwindow hsound hshows

/-! ### The window with the player -/

variable {blocks}

/-- The window with the player in it shows the maze with the player on it. -/
theorem masked_pixel (hwindow : t.game.InWindow t.xAfter t.yAfter)
    (hshows : t.game.ShowsMaze blocks) {x y : ℤ} (hview : t.game.screen.InView x y) :
    (t.masked blocks).pixel x y = t.picture blocks x y := by
  rw [Game.showsMaze_iff] at hshows
  have hmaze : t.game.screen.pixel x y = t.game.maze.pixel blocks x y := hshows x y hview not_false
  have hcolumns := hwindow.columns
  have hrows := hwindow.rows
  have hX := hwindow.showX
  have hY := hwindow.showY
  have hleft : t.game.screen.cutLeft t.xAfter = 0 := by
    have honMaze := hcolumns.onMaze
    have hinside := hcolumns.inside
    have hlow := hcolumns.low
    unfold Screen.cutLeft
    omega
  have htop : t.game.screen.cutTop t.yAfter = 0 := by
    have honMaze := hrows.onMaze
    have hinside := hrows.inside
    have hlow := hrows.low
    unfold Screen.cutTop
    omega
  rw [Screen.pixel, masked, (Screen.mask_sameWindow _ _ _ _ _).pixelAddr, picture]
  by_cases hin : 0 ≤ x - t.xAfter ∧ x - t.xAfter < 12 ∧ 0 ≤ y - t.yAfter ∧ y - t.yAfter < 12
  · have hx : t.xAfter + (x - t.xAfter) = x := by ring
    have hy : t.yAfter + (y - t.yAfter) = y := by ring
    have hvisible : t.game.screen.Visible t.xAfter t.yAfter (x - t.xAfter) (y - t.yAfter) := by
      refine ⟨hin, ?_⟩
      rwa [hx, hy]
    have hdrawn := @Screen.mask_pixel _ _ _ _ _ (blocks (Maze.getPlayerBlock t.lastDir))
      (blocks (Maze.getPlayerMask t.lastDir)) hvisible
    rw [hx, hy, hleft, htop, sub_zero, sub_zero, hmaze] at hdrawn
    rw [hdrawn]
    simp only [hin, and_self, true_and]
  · rw [if_neg fun h ↦ hin h.1, ← hmaze, Screen.pixel]
    refine Screen.mask_build fun i j hvisible hsame ↦ hin ?_
    obtain ⟨hblock, hview'⟩ := hvisible
    obtain ⟨hx, hy⟩ := Screen.pixelAddr_inj hview' hview hsame
    omega

end Thread

/-! ### The display -/

section Video

variable {v : Video} {s : Screen}

/-- `show_screen` sets the two registers of the start address only. -/
theorem Video.Ready.showScreen_crtc (h : v.Ready) {i : ℕ} (hhigh : i ≠ 0x0C) (hlow : i ≠ 0x0D) :
    (s.showScreen v).crtc i = v.crtc i := by
  obtain ⟨htarget, hcrtc, -⟩ :=
    s.showPlanes_eq { v with targetImg := v.targetImg ^^^ 0x4000 } le_rfl
  have hregisters : ((v.targetImg ^^^ 0x4000) &&& 0xFF00 ||| 0x0C) % 256 = 0x0C ∧
      (((v.targetImg ^^^ 0x4000) &&& 0x00FF) <<< 8 ||| 0x0D) % 256 = 0x0D := by
    rcases h.page with hpage | hpage
    · rw [hpage]
      decide
    · rw [hpage]
      decide
  simp only [Screen.showScreen, Video.outCrtc, htarget, hregisters]
  rw [Function.update_of_ne hlow, Function.update_of_ne hhigh, hcrtc]

theorem Video.Ready.showScreen_divided (h : v.Ready) (hdivided : v.Divided) :
    (s.showScreen v).Divided :=
  hdivided.of_crtc fun _ hhigh hlow ↦ h.showScreen_crtc hhigh hlow

theorem Video.Ready.targetImg_ge (h : v.Ready) : 1440 ≤ v.targetImg := by
  have hpage := h.page
  omega

/-- `show_screen` displays the window. -/
theorem Video.Ready.displayed_showScreen (h : v.Ready) (hdivided : v.Divided) {c r : ℕ}
    (hc : c < 320) (hr : r < 182) :
    (s.showScreen v).displayed c r = s.pixel (s.showX + (c : ℕ)) (s.showY + (r : ℕ)) := by
  have hshows := h.showsWindow s
  rw [(h.showScreen_divided hdivided).displayed_window c hr, hshows.shown]
  exact hshows.pixel c hc r hr

/-- `show_screen` leaves the status bar. -/
theorem Video.Ready.displayed_showScreen_bar (h : v.Ready) (hdivided : v.Divided) {c r : ℕ}
    (hc : c < 320) (hr : r < 18) :
    (s.showScreen v).displayed c (182 + r) = v.displayed c (182 + r) := by
  have hready : (s.showScreen v).Ready := h.step (.display s)
  have hpage := hready.targetImg_ge
  rw [(h.showScreen_divided hdivided).displayed_bar, hdivided.displayed_bar]
  exact (h.showsWindow s).kept _ _ (by omega)

/-- The page to which a window is copied is not displayed. -/
theorem Video.Ready.drawsUnseen (h : v.Ready) (hdivided : v.Divided) : v.DrawsUnseen := by
  intro s i hi c hc row hrow
  obtain ⟨-, hcrtc, hplanes⟩ :=
    s.showPlanes_eq { v with targetImg := v.targetImg ^^^ 0x4000 } hi
  have hdivided' : (s.showPlanes { v with targetImg := v.targetImg ^^^ 0x4000 } i).Divided :=
    hdivided.of_crtc fun i _ _ ↦ congrFun hcrtc i
  have hstart : (s.showPlanes { v with targetImg := v.targetImg ^^^ 0x4000 } i).startAddress =
      v.startAddress := by
    rw [Video.startAddress, hcrtc]
    rfl
  have hsize : copySize = 16000 := rfl
  have hshows := h.showsWindow s
  have htarget : (s.showScreen v).targetImg = v.targetImg ^^^ 0x4000 := (s.showScreen_eq h.page).1
  have hapart := hshows.apart
  rw [htarget, hsize] at hapart
  by_cases hwindow : row < 182
  · rw [hdivided'.displayed_window c hwindow, hdivided.displayed_window c hwindow, hstart, hplanes]
    dsimp only
    split_ifs
    · refine memcpy_outside _ _ ?_
      by_contra hinside
      obtain ⟨-, -, hhidden⟩ := hapart (v.startAddress + 80 * (row : ℤ) + (c / 4 : ℕ)) (by omega)
        (by omega)
      exact hhidden ⟨by omega, by omega⟩
    · rfl
  · obtain ⟨r, rfl⟩ := Nat.exists_eq_add_of_le (not_lt.mp hwindow)
    rw [hdivided'.displayed_bar, hdivided.displayed_bar, hplanes]
    dsimp only
    split_ifs
    · refine memcpy_outside _ _ ?_
      by_contra hinside
      obtain ⟨hbar, -, -⟩ := hapart (80 * (r : ℤ) + (c / 4 : ℕ)) (by omega) (by omega)
      omega
    · rfl

end Video

/-! ### Runs -/

namespace Session

variable (blocks : ℕ → Image) {s : Session}

/-- The player is where it can be, and the display shows what is there. -/
structure Playing (s : Session) : Prop where
  drawn : s.thread.Drawn blocks
  size : Maze.Accepted s.thread.game.maze.xDim s.thread.game.maze.yDim
  still : s.thread.needRedraw = false → s.thread.Still
  start : s.video.startAddress = s.video.targetImg
  displayed : ∀ c < 320, ∀ r < 182, s.video.displayed c r =
    s.thread.picture blocks (s.thread.game.screen.showX + (c : ℕ))
      (s.thread.game.screen.showY + (r : ℕ))

/-- What holds between the steps of the game. -/
structure Sound (s : Session) : Prop where
  ready : s.video.Ready
  divided : s.video.Divided
  level : 0 ≤ s.level ∧ (s.phase ≠ .over → s.level ≤ maxLevel)
  playing : s.phase = .playing ∨ s.phase = .won → s.Playing blocks

theorem initial_sound : initial.Sound blocks where
  ready := Video.modeX_ready
  divided := Video.modeX_divided
  level := ⟨le_rfl, fun _ ↦ by decide⟩
  playing h := by rcases h with h | h <;> cases h

section Redraw

variable {blocks}

/-- After the window has been shown with the player in it, the display is right. -/
theorem redraw_playing (hready : s.video.Ready) (hdivided : s.video.Divided)
    (hwindow : s.thread.game.InWindow s.thread.xAfter s.thread.yAfter)
    (hshows : s.thread.game.ShowsMaze blocks) (hdrawn : (s.thread.redraw blocks).Drawn blocks)
    (hsize : Maze.Accepted s.thread.game.maze.xDim s.thread.game.maze.yDim)
    (hstill : s.thread.needRedraw = false → s.thread.Still) : (s.redraw blocks).Playing blocks where
  drawn := hdrawn
  size := hsize
  still hredraw :=
    have hbefore := hstill hredraw
    ⟨hbefore.dir, hbefore.moveCnt, hbefore.settled⟩
  start := (hready.showsWindow _).shown
  displayed c hc r hr := by
    have hmask := s.thread.game.screen.mask_sameWindow s.thread.xAfter s.thread.yAfter
      (blocks (Maze.getPlayerBlock s.thread.lastDir)) (blocks (Maze.getPlayerMask s.thread.lastDir))
    have hsame : s.thread.game.screen.SameWindow (s.thread.redraw blocks).game.screen :=
      hmask.trans (Screen.drawFullBlock_sameWindow _ _ _ _)
    have hview : s.thread.game.screen.InView (s.thread.game.screen.showX + (c : ℕ))
        (s.thread.game.screen.showY + (r : ℕ)) := by
      rw [Screen.inView_iff]
      omega
    have hpixel := Thread.masked_pixel hwindow hshows hview
    have hX : (s.thread.masked blocks).showX = s.thread.game.screen.showX := hmask.showX
    have hY : (s.thread.masked blocks).showY = s.thread.game.screen.showY := hmask.showY
    change ((s.thread.masked blocks).showScreen s.video).displayed c r =
      (s.thread.redraw blocks).picture blocks ((s.thread.redraw blocks).game.screen.showX + (c : ℕ))
        ((s.thread.redraw blocks).game.screen.showY + (r : ℕ))
    rw [hready.displayed_showScreen hdivided hc hr, hX, hY, hpixel, hsame.showX, hsame.showY]
    rfl

end Redraw

/-- A level starts. -/
theorem nextLevel_sound (h : s.Sound blocks) (fuel : ℕ) (tape : Tape) :
    (s.nextLevel blocks fuel tape).Sound blocks := by
  have hlevel := h.level
  have hmax : maxLevel = 10 := rfl
  unfold nextLevel
  dsimp only
  split_ifs with hlast
  · exact ⟨h.ready, h.divided, ⟨by dsimp only; omega, fun hne ↦ absurd rfl hne⟩,
      fun hplaying ↦ by rcases hplaying with hplaying | hplaying <;> cases hplaying⟩
  · cases hprepared : s.thread.game.prepareMazeLevel blocks (s.level + 1) fuel tape with
    | none => exact h
    | some prepared =>
      obtain ⟨ret, game⟩ := prepared
      dsimp only
      split_ifs with hret
      · exact ⟨h.ready, h.divided, ⟨by dsimp only; omega, fun hne ↦ absurd rfl hne⟩,
          fun hplaying ↦ by rcases hplaying with hplaying | hplaying <;> cases hplaying⟩
      · rw [not_not] at hret
        subst hret
        obtain ⟨hsound, hwindow, hshows⟩ := Game.prepareMazeLevel_shows hprepared
        obtain ⟨maze, hmaze, hgame⟩ := Game.prepareMazeLevel_enter hprepared
        have hkeeps := Thread.entered_keepsMaze blocks { s.thread with game := game }
        obtain ⟨hwindow', hshows'⟩ := Thread.entered_shows blocks
          (t := { s.thread with game := game }) hsound hwindow hshows
        have hsize : Maze.Accepted game.maze.xDim game.maze.yDim := by
          obtain ⟨-, hxDim, hyDim⟩ := Maze.makeMaze_sound hmaze
          have henter : game.maze = maze := by
            rw [hgame, Game.drawLines_maze]
            rfl
          rw [henter, hxDim, hyDim]
          exact Maze.accepted_of_makeMaze hmaze
        refine ⟨h.ready.step (.display _), h.ready.showScreen_divided h.divided,
          ⟨by dsimp only [redraw]; omega, fun _ ↦ by dsimp only [redraw]; omega⟩, fun _ ↦ ?_⟩
        have hstill := Thread.entered_still blocks { s.thread with game := game }
        have hdrawn := Thread.startLevel_drawn blocks (t := { s.thread with game := game }) hsound
          hwindow hshows
        refine redraw_playing h.ready h.divided hwindow' hshows' hdrawn ?_ fun _ ↦ hstill
        dsimp only
        rw [hkeeps.xDim, hkeeps.yDim]
        exact hsize

section Frame

variable {blocks}

theorem played_thread (blocks : ℕ → Image) (s : Session) (f : Frame) :
    (s.played blocks f).thread = run (Thread.step blocks) s.thread f.events := by
  rw [played]

theorem played_level (blocks : ℕ → Image) (s : Session) (f : Frame) :
    (s.played blocks f).level = s.level := by
  rw [played]

theorem played_eq (blocks : ℕ → Image) (s : Session) (f : Frame) :
    (s.played blocks f).video = s.video.statusPlanes (s.played blocks f).buffer 4 ∧
      (s.played blocks f).buffer = textToImage
        (fun i ↦ (statusText s.level s.thread.game.maze.nFruits (s.seconds f)).getD i 0) 1
        s.buffer := by
  constructor
  · rw [played, Video.showStatus]
  · rw [played, Video.showStatus]

/-- The thread is where it can be after a frame. -/
theorem played_drawn (h : s.Playing blocks) (f : Frame) :
    (s.played blocks f).thread.Drawn blocks ∧
      Maze.Accepted (s.played blocks f).thread.game.maze.xDim
        (s.played blocks f).thread.game.maze.yDim := by
  have hrun : EveryState (Thread.step blocks) (fun t : Thread ↦ t.Drawn blocks ∧
      Maze.Accepted t.game.maze.xDim t.game.maze.yDim) s.thread f.events := by
    refine everyState_of_invariant (fun t event ht ↦ ⟨Thread.step_drawn blocks t event ht.1, ?_⟩)
      ⟨h.drawn, h.size⟩ f.events
    have hkeep := Thread.step_keepsMaze blocks t event
    rw [hkeep.xDim, hkeep.yDim]
    exact ht.2
  rw [played_thread]
  exact hrun.last

theorem events_ne_redraw (f : Frame) : ∀ event ∈ f.events, event ≠ .redraw := by
  rintro event hevent rfl
  obtain ⟨i, -, hevent⟩ := List.mem_flatMap.mp hevent
  rcases List.mem_append.mp hevent with hturn | htick
  · obtain ⟨dir, -, hturn⟩ := List.mem_map.mp hturn
    cases hturn
  · cases List.mem_singleton.mp htick

/-- The status is shown without touching the registers. -/
theorem played_video (h : s.Sound blocks) (f : Frame) : (s.played blocks f).video.Ready ∧
    (s.played blocks f).video.Divided ∧
    (s.played blocks f).video.startAddress = s.video.startAddress ∧
    (s.played blocks f).video.targetImg = s.video.targetImg := by
  obtain ⟨hvideo, -⟩ := played_eq blocks s f
  obtain ⟨htarget, hcrtc, -⟩ := s.video.statusPlanes_eq (s.played blocks f).buffer le_rfl
  rw [← hvideo] at htarget hcrtc
  have hstart : (s.played blocks f).video.startAddress = s.video.startAddress := by
    rw [Video.startAddress, hcrtc]
    rfl
  refine ⟨⟨?_, ?_⟩, h.divided.of_crtc fun i _ _ ↦ congrFun hcrtc i, hstart, htarget⟩
  · rw [htarget]
    exact h.ready.page
  · rw [hstart, htarget]
    exact h.ready.start

/-- A frame leaves the display right. -/
theorem frame_playing (h : s.Sound blocks) (hplaying : s.Playing blocks) (f : Frame) :
    (s.frame blocks f).video.Ready ∧ (s.frame blocks f).video.Divided ∧
      (s.frame blocks f).level = s.level ∧ (s.frame blocks f).Playing blocks := by
  obtain ⟨hdrawn, hsize⟩ := played_drawn hplaying f
  obtain ⟨hready, hdivided, hstart, htarget⟩ := played_video h f
  have hlevel := played_level blocks s f
  have hwindow : ∀ c r, r < 182 →
      (s.played blocks f).video.displayed c r = s.video.displayed c r := by
    intro c r hr
    rw [(played_eq blocks s f).1]
    exact Video.statusPlanes_window h.divided (hplaying.start.symm ▸ h.ready.targetImg_ge) c hr
  have hstill := Thread.run_still blocks (events_ne_redraw f) (t := s.thread)
  rw [← played_thread] at hstill
  rw [frame]
  generalize s.played blocks f = after at *
  dsimp only
  by_cases hredraw : after.thread.needRedraw = true
  · rw [if_pos hredraw]
    have hshown : (after.redraw blocks).Playing blocks :=
      redraw_playing hready hdivided hdrawn.window hdrawn.shows
        (Thread.step_drawn blocks after.thread .redraw hdrawn) hsize
        fun hnot ↦ absurd hredraw (by rw [hnot]; exact Bool.false_ne_true)
    exact ⟨hready.step (.display _), hready.showScreen_divided hdivided, hlevel, hshown.drawn,
      hshown.size, hshown.still, hshown.start, hshown.displayed⟩
  · rw [if_neg hredraw]
    have hnot := Bool.eq_false_iff.mpr hredraw
    obtain ⟨hbefore, hsame⟩ := hstill hnot
    obtain ⟨hstill', hplace⟩ := hsame (hplaying.still hbefore)
    refine ⟨hready, hdivided, hlevel, hdrawn, hsize, fun _ ↦ hstill',
      hstart.trans (hplaying.start.trans htarget.symm), fun c hc r hr ↦ ?_⟩
    have hdisplayed := hplaying.displayed c hc r hr
    dsimp only
    rw [hwindow c r hr, hdisplayed, Thread.picture, Thread.picture, hplace.game, hplace.xAfter,
      hplace.yAfter, hplace.lastDir]

/-- The step of the game keeps what holds between the steps. -/
theorem step_sound (s : Session) (event : Event) (h : s.Sound blocks) :
    (s.step blocks event).Sound blocks := by
  cases event with
  | level fuel tape =>
    change (if s.phase = .starting ∨ s.phase = .won then s.nextLevel blocks fuel tape else s).Sound
      blocks
    split_ifs
    · exact nextLevel_sound blocks h fuel tape
    · exact h
  | frame f =>
    change (if s.phase = .playing then s.frame blocks f else s).Sound blocks
    split_ifs with hphase
    · obtain ⟨hready, hdivided, hlevel, hplaying⟩ :=
        frame_playing h (h.playing (Or.inl hphase)) f
      have hmax := h.level.2 (by rw [hphase]; decide)
      exact ⟨hready, hdivided, ⟨hlevel ▸ h.level.1, fun _ ↦ hlevel ▸ hmax⟩, fun _ ↦ hplaying⟩
    · exact h
  | quit =>
    exact ⟨h.ready, h.divided, ⟨h.level.1, fun hne ↦ absurd rfl hne⟩,
      fun hplaying ↦ by rcases hplaying with hplaying | hplaying <;> cases hplaying⟩

/-! ### The status -/

/-- There are not more fruits than places for them. -/
theorem nFruits_lt (hplaying : s.Playing blocks) : 0 ≤ s.thread.game.maze.nFruits ∧
    s.thread.game.maze.nFruits < 10000 := by
  obtain ⟨fruits, hfruits⟩ := hplaying.drawn.safe.sound.fruits
  obtain ⟨⟨-, hwide⟩, -, hhigh⟩ := hplaying.size.bounds
  have hcount := hfruits.card
  generalize s.thread.game.maze = m at *
  have hplaces : fruits ⊆ (Finset.Icc 1 (2 * m.xDim - 1) ×ˢ Finset.Icc 1 (2 * m.yDim - 1)).image
      fun p ↦ m.index p.1 p.2 := by
    intro i hi
    obtain ⟨x, y, ⟨hx0, hx1, hy0, hy1⟩, rfl⟩ := hfruits.inside i hi
    refine Finset.mem_image.mpr ⟨(x, y), Finset.mem_product.mpr ⟨?_, ?_⟩, rfl⟩
    · exact Finset.mem_Icc.mpr ⟨hx0, by dsimp only; omega⟩
    · exact Finset.mem_Icc.mpr ⟨hy0, by dsimp only; omega⟩
  have hcard := (Finset.card_le_card hplaces).trans Finset.card_image_le
  rw [Finset.card_product, Int.card_Icc, Int.card_Icc] at hcard
  have hproduct := Nat.mul_le_mul (by omega : (2 * m.xDim - 1 + 1 - 1).toNat ≤ 99)
    (by omega : (2 * m.yDim - 1 + 1 - 1).toNat ≤ 59)
  omega

theorem seconds_range (s : Session) (f : Frame) : 0 ≤ s.seconds f ∧ s.seconds f < 2 ^ 31 := by
  have hlow := u32_nonneg (i32 (i32 (s.total + f.ticks) - s.prevTime))
  have hhigh := u32_lt (i32 (i32 (s.total + f.ticks) - s.prevTime))
  have hrate : updateRate = 32 := rfl
  rw [seconds, hrate, i32_of_range (by omega) (by omega)]
  omega

/-- After a frame the lower part of the display shows the status. -/
theorem showsStatus_of_sound (h : s.Sound blocks) (event : Event) :
    s.ShowsStatus blocks event := by
  cases event with
  | level fuel tape => trivial
  | quit => trivial
  | frame f =>
    intro hphase c hc r hr
    have hplaying := h.playing (Or.inl hphase)
    obtain ⟨hready, hdivided, -, -⟩ := played_video h f
    obtain ⟨hvideo, hbuffer⟩ := played_eq blocks s f
    have hbar : (s.frame blocks f).video.displayed c (182 + r) =
        (s.played blocks f).buffer (barAddr c r) := by
      have hbefore := @Video.statusPlanes_bar s.video (s.played blocks f).buffer h.divided c r hc hr
      rw [← hvideo] at hbefore
      rw [← hbefore, frame]
      dsimp only
      split_ifs
      · exact hready.displayed_showScreen_bar hdivided hc hr
      · rfl
    obtain ⟨hfruit, hfruit'⟩ := nFruits_lt hplaying
    obtain ⟨htime, htime'⟩ := seconds_range s f
    have hlevel := h.level.2 (by rw [hphase]; decide)
    have hmax : maxLevel = 10 := rfl
    have htwo : s.level < 100 := by omega
    have hshown := statusText_shown h.level.1 htwo hfruit hfruit' htime htime' s.buffer
      (by decide : (0 : ℤ) ≤ 1) (by decide)
    rw [← hbuffer] at hshown
    dsimp only
    rw [hbar]
    exact ⟨hshown.written c r, hshown.background c hc r hr⟩

end Frame

/-- In every run of the game through its levels, the upper part of the display shows the maze with
the player on it after each frame, the lower part the level, the fruits and the time, and nothing of
what is displayed changes while a window is drawn. -/
theorem everyState_displayed (events : List Event) :
    EveryState (step blocks) (fun s ↦ s.Displayed blocks ∧ s.video.DrawsUnseen) initial events ∧
      EveryStep (step blocks) (fun s event ↦ s.ShowsStatus blocks event) initial events := by
  have hsound : EveryState (step blocks) (Sound blocks) initial events :=
    everyState_of_invariant step_sound (initial_sound blocks) events
  constructor
  · exact hsound.mono fun s h ↦ ⟨fun hphase ↦ (h.playing hphase).displayed,
      h.ready.drawsUnseen h.divided⟩
  · exact everyStep_of_invariant step_sound (fun s event h ↦ showsStatus_of_sound h event)
      (initial_sound blocks) events

/-- The first level is played in a maze made by a single worm. -/
example : (initial.step Player.plainBlocks (.level 300 Maze.wormTape)).phase = .playing := by
  obtain ⟨g, hlevel⟩ := Player.prepareMazeLevel_wormTape
  have hgame : Thread.initial.game = Game.initial := rfl
  have hmax : maxLevel = 10 := rfl
  simp [step, nextLevel, hgame, hmax, hlevel, redraw, initial]

end Session

end Sp18.MazeGame
