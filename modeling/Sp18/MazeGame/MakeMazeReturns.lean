import Sp18.Foundation.Draws
import Sp18.MazeGame.Connecting

/-!
# `make_maze` never gets stuck

`make_maze` waits for lucky draws all the time: for points that are still walls, for worms that turn
around, for points that are not connected yet, and for points without a fruit. Whatever it has
drawn, further values of `random` lead it to its end, provided that there are fewer fruits than
rooms; else there is no place for the exit (`makeMaze_returns`).

For a worm, the draw that turns it around is given: after each move it can go back to where it has
come from. The other loops wait for a point, and there is one as long as they are not done. The
phases are put together with the rules of `CanReturn`.
-/

set_option autoImplicit false
set_option relaxedAutoImplicit false

namespace Sp18.MazeGame

open Foundation

/-- The values of `random`. -/
def randomValues : Set ℕ := {value | value ≤ 2147483647}

theorem randomValues_nonempty : randomValues.Nonempty := ⟨0, Nat.zero_le _⟩

namespace Maze

variable {m : Maze} {xDim yDim x y : ℤ} {w w' : Worm}

/-! ### Points -/

/-- A point that has been drawn, with the rest of the tape. -/
def putPoint (p : ℤ × ℤ) (tape : Tape) : ℤ × ℤ × Tape := (p.1, p.2, tape)

/-- The body of the loop of `pickPoint`. -/
def pickBody (m : Maze) (again : UInt8 → Bool) (s : ℤ × ℤ × Tape) :
    Option ((ℤ × ℤ × Tape) × Bool) :=
  let (first, tape) := s.2.2.draw
  let (second, tape) := tape.draw
  let x := (first : ℤ) % m.xDim * 2 + 1
  let y := (second : ℤ) % m.yDim * 2 + 1
  some ((x, y, tape), again (m.cell x y))

theorem pickBody_returns (m : Maze) (again : UInt8 → Bool) (p : ℤ × ℤ) (first second : ℕ) :
    Returns (putNext putPoint) (bodyFrom putPoint (fun _ ↦ m.pickBody again) p) [first, second]
      (((first : ℤ) % m.xDim * 2 + 1, (second : ℤ) % m.yDim * 2 + 1),
        again (m.cell ((first : ℤ) % m.xDim * 2 + 1) ((second : ℤ) % m.yDim * 2 + 1))) :=
  ⟨0, fun _ _ _ ↦ rfl⟩

/-- A point that meets the condition is drawn in the end, if there is one. -/
theorem pickPoint_canReturn (again : UInt8 → Bool) (hx : 0 < m.xDim) (hy : 0 < m.yDim)
    (hsmall : m.xDim ≤ 50 ∧ m.yDim ≤ 30) (hodd : m.OddPoint x y)
    (hlucky : again (m.cell x y) = false) :
    CanReturn randomValues putPoint (m.pickPoint again) fun p ↦
      m.OddPoint p.1 p.2 ∧ again (m.cell p.1 p.2) = false := by
  have hloop : CanReturn randomValues putPoint
      (loopFrom putPoint (fun _ ↦ m.pickBody again) (0, 0)) fun _ ↦ True := by
    refine .loop_of_luck (fun _ ↦ True) (fuelMono_const _) ?_ ?_ ?_ trivial
    · rintro p next - ⟨fuel, hreturns⟩
      have hnext := hreturns fuel le_rfl fun i ↦ i
      simp only [bodyFrom, putNext, putPoint, pickBody, Tape.prepend, Tape.draw,
        Option.some.injEq, Prod.mk.injEq] at hnext
      exact absurd (congrFun hnext.1.2.2 0) (by decide)
    · intro p _
      refine .draw randomValues_nonempty fun first _ ↦ .draw randomValues_nonempty fun second _ ↦ ?_
      exact .of_returns (pickBody_returns m again p first second) (by split <;> trivial)
    · intro p _
      obtain ⟨⟨hx0, hx1, hy0, hy1⟩, hxodd, hyodd⟩ := hodd
      refine ⟨[(x / 2).toNat, (y / 2).toNat], (x, y), ?_, Returns.loop_last ?_, trivial⟩
      · simp only [List.mem_cons, List.not_mem_nil, or_false, forall_eq_or_imp, forall_eq,
          randomValues, Set.mem_ofPred_eq]
        omega
      · have hxdraw : ((x / 2).toNat : ℤ) % m.xDim * 2 + 1 = x := by
          rw [Int.emod_eq_of_lt (by omega) (by omega)]
          omega
        have hydraw : ((y / 2).toNat : ℤ) % m.yDim * 2 + 1 = y := by
          rw [Int.emod_eq_of_lt (by omega) (by omega)]
          omega
        have hreturns := pickBody_returns m again p (x / 2).toNat (y / 2).toNat
        rwa [hxdraw, hydraw, hlucky] at hreturns
  refine hloop.mono fun draws p hreturns _ ↦ ?_
  obtain ⟨fuel, tape, rest, hpick⟩ := hreturns.exists_run
  exact pickPoint_odd hx hy hpick

/-! ### Worms -/

/-- The worm with the rest of the tape. -/
def Worm.on (w : Worm) (tape : Tape) : Worm := { w with tape := tape }

namespace Worm

/-- A direction with a weight can be picked. -/
theorem exists_pick {dir : ℕ} (hdir : dir ≤ 3) (hpos : 0 < w.weight dir) :
    ∃ pick < w.wt 3, w.pickDir pick = dir := by
  have h0 : w.wt 0 = w.weight 0 := rfl
  have h1 : w.wt 1 = w.wt 0 + w.weight 1 := rfl
  have h2 : w.wt 2 = w.wt 1 + w.weight 2 := rfl
  have h3 : w.wt 3 = w.wt 2 + w.weight 3 := rfl
  refine ⟨w.wt dir - w.weight dir, ?_, ?_⟩
  · match dir with
    | 0 | 1 | 2 | 3 => omega
  · unfold pickDir
    match dir with
    | 0 | 1 | 2 | 3 => split_ifs <;> omega

theorem wt_le (w : Worm) : w.wt 3 ≤ 336 := by
  have hweight : ∀ dir, w.weight dir ≤ 84 := by
    intro dir
    have hturn : ∀ turn isWall, turnWt turn isWall ≤ 84 := by
      intro turn isWall
      unfold turnWt
      split <;> decide
    unfold weight
    split <;> split_ifs <;> first | exact hturn _ _ | exact Nat.zero_le _
  have hsum : w.wt 3 = w.weight 0 + w.weight 1 + w.weight 2 + w.weight 3 := rfl
  have hall := And.intro (And.intro (hweight 0) (hweight 1)) (And.intro (hweight 2) (hweight 3))
  omega

/-- What a worm does with a draw. -/
theorem next_returns (w : Worm) (value : ℕ) :
    Returns (putNext on) (bodyFrom on (fun _ ↦ Worm.next) w) [value]
      (if (w.pickDir (value % w.wt 3) + 4 - w.prefDir) % 4 = 2 then (w, false)
        else (w.move (w.pickDir (value % w.wt 3)), true)) := by
  refine ⟨0, fun _ _ rest ↦ ?_⟩
  change (if (w.pickDir (value % w.wt 3) + 4 - w.prefDir) % 4 = 2 then some (w.on rest, false)
    else some ((w.on rest).move (w.pickDir (value % w.wt 3)), true)) = _
  split_ifs <;> rfl

/-- Where a worm has come from, it can go back to. -/
theorem move_back (h : w.Digs xDim yDim) {dir : ℕ} (hdir : dir ≤ 3) (hpos : 0 < w.weight dir) :
    0 < (w.move dir).weight ((dir + 2) % 4) := by
  obtain ⟨⟨hx0, hx1, hy0, hy1⟩, hx, hy⟩ := h.odd
  match dir with
  | 0 =>
    change 0 < if w.y + 2 * (-1) < w.maze.yDim * 2 - 1 then turnWt _ _ else 0
    rw [if_pos (by omega)]
    exact turnWt_pos _ _
  | 1 =>
    change 0 < if w.x + 2 * 1 > 1 then turnWt _ _ else 0
    rw [if_pos (by omega)]
    exact turnWt_pos _ _
  | 2 =>
    change 0 < if w.y + 2 * 1 > 1 then turnWt _ _ else 0
    rw [if_pos (by omega)]
    exact turnWt_pos _ _
  | 3 =>
    change 0 < if w.x + 2 * (-1) < w.maze.xDim * 2 - 1 then turnWt _ _ else 0
    rw [if_pos (by omega)]
    exact turnWt_pos _ _

/-- A worm that can turn around does so with some draw. -/
theorem exists_turn (hpref : w.prefDir < 4) (hback : 0 < w.weight ((w.prefDir + 2) % 4)) :
    ∃ value ∈ randomValues, Returns on (loopFrom on (fun _ ↦ Worm.next) w) [value] w := by
  obtain ⟨pick, hpick, hdir⟩ := exists_pick (by omega) hback
  have hle := w.wt_le
  refine ⟨pick, hpick.le.trans (hle.trans (by decide)), Returns.loop_last ?_⟩
  have hreturns := next_returns w pick
  rwa [Nat.mod_eq_of_lt hpick, hdir, if_pos (by omega)] at hreturns

/-- A worm turns around in the end. -/
theorem worm_canReturn (hheight : 1 < yDim) (h : w.Digs xDim yDim) (hpref : w.prefDir < 4) :
    CanReturn randomValues on (loopFrom on (fun _ ↦ Worm.next) w) fun _ ↦ True := by
  have hpicked : ∀ {w : Worm}, w.Digs xDim yDim → ∀ value,
      w.pickDir (value % w.wt 3) ≤ 3 ∧ 0 < w.weight (w.pickDir (value % w.wt 3)) :=
    fun hw value ↦
      pickDir_weight (Nat.mod_lt value (wt_pos (by rw [hw.dug.yDim_eq]; exact hheight)))
  refine .loop_of_luck (fun w ↦ w.Digs xDim yDim ∧ w.prefDir < 4) (fuelMono_const _)
    ?_ ?_ ?_ ⟨h, hpref⟩
  · rintro w next - ⟨fuel, hreturns⟩
    have hnext : (w.on fun i ↦ i).next = some (next.1.on fun i ↦ i, next.2) :=
      hreturns fuel le_rfl fun i ↦ i
    have htape : ∀ result : Worm × Bool, (w.on fun i ↦ i).next = some result →
        result.1.tape 0 = 1 := by
      intro result hresult
      simp only [Worm.next] at hresult
      split_ifs at hresult <;> cases hresult <;> rfl
    exact absurd (htape _ hnext) (by simp [on])
  · rintro w ⟨hdigs, -⟩
    refine .draw randomValues_nonempty fun value _ ↦ .of_returns (next_returns w value) ?_
    obtain ⟨hdir, hweight⟩ := hpicked hdigs value
    by_cases hends : (w.pickDir (value % w.wt 3) + 4 - w.prefDir) % 4 = 2
    · rw [if_pos hends]
      exact trivial
    · rw [if_neg hends]
      exact ⟨move_digs hdigs hdir hweight, Nat.lt_succ_of_le hdir⟩
  · rintro w ⟨hdigs, hpref⟩
    by_cases hback : 0 < w.weight ((w.prefDir + 2) % 4)
    · obtain ⟨value, hvalue, hreturns⟩ := exists_turn hpref hback
      exact ⟨[value], w, by simpa using hvalue, hreturns, trivial⟩
    · -- a first step, after which the worm can turn around
      obtain ⟨hdir, hweight⟩ := hpicked hdigs 0
      have hreturns := next_returns w 0
      generalize w.pickDir (0 % w.wt 3) = dir at hdir hweight hreturns
      have hgoes : (dir + 4 - w.prefDir) % 4 ≠ 2 := by
        intro hends
        have heq : (w.prefDir + 2) % 4 = dir := by omega
        exact hback (heq ▸ hweight)
      rw [if_neg hgoes] at hreturns
      obtain ⟨value, hvalue, hturns⟩ := exists_turn (w := w.move dir) (Nat.lt_succ_of_le hdir)
        (move_back hdigs hdir hweight)
      refine ⟨[0] ++ [value], w.move dir, ?_,
        hreturns.loop_again (fuelMono_const _) hturns, trivial⟩
      simpa [randomValues] using hvalue

/-- The worm at a point that has been drawn, with the draw for its direction. -/
def dropped (w : Worm) (p : ℤ × ℤ) (value : ℕ) : Worm where
  maze := w.maze.setCell p.1 p.2 mazeNone
  tape := w.tape
  x := p.1
  y := p.2
  prefDir := value % 4
  remaining := w.remaining - 1

/-- What follows the choice of the point where a worm is dropped. -/
def dropAt (w : Worm) (fuel : ℕ) (p : ℤ × ℤ × Tape) : Option (Worm × Bool) :=
  (loopFrom on (fun _ ↦ Worm.next) (w.dropped (p.1, p.2.1) p.2.2.draw.1) fuel p.2.2.draw.2).bind
    fun w ↦ some (w, decide (w.remaining > 0))

theorem drop_eq (w : Worm) (fuel : ℕ) (tape : Tape) : (w.on tape).drop fuel =
    (w.maze.pickPoint (fun value ↦ !hasBit value mazeWall) fuel tape).bind (w.dropAt fuel) :=
  rfl

/-- A worm can be dropped as long as there are walls, and ends. -/
theorem drop_canReturn (hwidth : 0 < xDim ∧ xDim ≤ 50) (hheight : 1 < yDim ∧ yDim ≤ 30)
    (h : w.Digging xDim yDim) (hleft : 0 < w.remaining) :
    CanReturn randomValues (putNext on) (bodyFrom on Worm.drop w) fun next ↦
      if next.2 then (next.1.Digging xDim yDim ∧ 0 < next.1.remaining) ∧
        next.1.remaining.toNat < w.remaining.toNat else True := by
  have hx := h.dug.xDim_eq
  have hy := h.dug.yDim_eq
  have hcard := h.remaining_eq
  obtain ⟨p, hp⟩ := Finset.card_pos.mp (show 0 < (w.maze.roomsWith mazeWall).card by omega)
  obtain ⟨hroom, hwall⟩ := mem_roomsWith.mp hp
  have hpick := pickPoint_canReturn (fun value ↦ !hasBit value mazeWall) (by omega)
    (by omega) (by omega) (oddPoint_room hroom) (by rw [cell, ← roomIndex, hwall]; rfl)
  have hreturns : CanReturn randomValues (putNext on) (bodyFrom on Worm.drop w) fun _ ↦ True := by
    refine (hpick.bind (g := w.dropAt) fun p hp ↦ ?_).congr fun fuel tape ↦ drop_eq w fuel tape
    refine .draw randomValues_nonempty fun value _ ↦ ?_
    have hdigs : (w.dropped p value).Digs xDim yDim := ⟨h.dug.setCell hp.1.1, hp.1⟩
    refine (worm_canReturn hheight.1 hdigs (Nat.mod_lt value (by decide))).bind fun w' _ ↦ ?_
    exact .of_returns (b := (w', decide (w'.remaining > 0))) ⟨0, fun _ _ _ ↦ rfl⟩ trivial
  refine hreturns.mono fun draws next hnext _ ↦ ?_
  obtain ⟨fuel, tape, rest, hdrop⟩ := hnext.exists_run
  obtain ⟨hdigging, hless, hagain⟩ := drop_digging (w := w.on tape) hwidth.1 hheight.1
    ⟨h.dug, h.bare, h.remaining_eq⟩ hdrop
  split_ifs with hgoes
  · have hpositive : next.1.remaining > 0 := by simpa [hgoes, on] using hagain.symm
    have hless' : next.1.remaining < w.remaining := hless
    exact ⟨⟨⟨hdigging.dug, hdigging.bare, hdigging.remaining_eq⟩, hpositive⟩, by omega⟩

end Worm

/-- The first phase never gets stuck. -/
theorem wormPhase_canReturn (m : Maze) (hwidth : 0 < xDim ∧ xDim ≤ 50)
    (hheight : 1 < yDim ∧ yDim ≤ 30) :
    CanReturn randomValues Worm.on (m.wormPhase xDim yDim) (DugOut xDim yDim) := by
  have hfirst := firstWorm_digging m hwidth.1 (show 0 < yDim by omega) fun i ↦ i
  have hreturns : CanReturn randomValues Worm.on (m.wormPhase xDim yDim) fun _ ↦ True :=
    .loop_of_measure (b := m.firstWorm xDim yDim fun i ↦ i)
      (fun w ↦ w.Digging xDim yDim ∧ 0 < w.remaining) Worm.fuelMono_drop
      (fun w ↦ w.remaining.toNat) (fun w hw ↦ Worm.drop_canReturn hwidth hheight hw.1 hw.2)
      ⟨hfirst, Int.mul_pos hwidth.1 (by omega)⟩
  refine hreturns.mono fun draws w hends _ ↦ ?_
  obtain ⟨fuel, tape, rest, hphase⟩ := hends.exists_run
  obtain ⟨hdigs, hwalled, hmarked⟩ := wormPhase_spec hwidth.1 hheight.1 hphase
  exact ⟨⟨hdigs.dug, hdigs.odd⟩, hwalled, hmarked⟩

/-! ### Connecting -/

/-- The second phase with the rest of the tape. -/
def Connect.on (c : Connect) (tape : Tape) : Connect := { c with tape := tape }

/-- The second phase always gets started. -/
theorem connectStart_canReturn (m : Maze) (hwidth : 0 < xDim ∧ xDim ≤ 50)
    (hheight : 1 < yDim ∧ yDim ≤ 30) :
    CanReturn randomValues Connect.on (m.connectStart xDim yDim) (Connect.Joining xDim yDim) := by
  have hreturns : CanReturn randomValues Connect.on (m.connectStart xDim yDim) fun _ ↦ True := by
    refine (wormPhase_canReturn m hwidth hheight).bind (g := fun fuel (w : Worm) ↦
      (w.maze.markMazeArea 1 1 fuel).map fun marking ↦
        (⟨marking.1, w.tape, w.x, w.y, xDim * yDim - marking.2, 0⟩ : Connect)) fun w hw ↦ ?_
    obtain ⟨hdigs, -, hunmarked⟩ := hw
    obtain ⟨fuel, maze, count, hmark, -⟩ := markMazeArea_spec hdigs.dug
      (hdigs.dug.first_mem_rooms hwidth.1 (by omega))
      (by rw [hunmarked]; exact Finset.notMem_empty _)
    refine .of_returns (b := ⟨maze, w.tape, w.x, w.y, xDim * yDim - count, 0⟩)
      ⟨fuel, fun enough hle rest ↦ ?_⟩ trivial
    exact Option.map_eq_some_iff.mpr ⟨(maze, count), markMazeArea_mono hle hmark, rfl⟩
  refine hreturns.mono fun draws c hstarts _ ↦ ?_
  obtain ⟨fuel, tape, rest, hstart⟩ := hstarts.exists_run
  obtain ⟨hdigs, hwalled, hremaining, hfirst, hpath, hclosed⟩ :=
    connectStart_joining hwidth.1 hheight.1 hstart
  exact ⟨⟨hdigs.dug, hdigs.odd⟩, hwalled, hremaining, hfirst, hpath, hclosed⟩

namespace Connect

variable {c : Connect}

theorem Joining.on (h : c.Joining xDim yDim) (tape : Tape) : (c.on tape).Joining xDim yDim :=
  ⟨⟨h.digs.dug, h.digs.odd⟩, h.walled, h.remaining_eq, h.first_mem, h.path, h.closed⟩

/-- Connecting a room draws nothing. -/
theorem join_on (c : Connect) (fuel : ℕ) (tape : Tape) :
    (c.on tape).join fuel = (c.join fuel).map fun next ↦ putNext on next tape := by
  have hwall : (c.on tape).wallToRemove = c.wallToRemove := rfl
  rw [join, join, hwall]
  split
  · rfl
  · rw [Option.map_map]
    rfl

theorem join_canReturn (h : c.Joining xDim yDim) (hnew : c.room ∉ c.maze.roomsWith mazeReach) :
    CanReturn randomValues (putNext on) (fun fuel tape ↦ (c.on tape).join fuel) fun _ ↦ True := by
  obtain ⟨fuel, next, hjoin⟩ := join_ends h hnew
  refine .of_returns (b := next) ⟨fuel, fun enough hle rest ↦ ?_⟩ trivial
  change (c.on rest).join enough = _
  rw [join_on, join_mono hle hjoin]
  rfl

theorem tried_on (c : Connect) (tape : Tape) : (c.on tape).tried = c.tried.on tape := by
  rw [tried, tried, apply_ite (fun c : Connect ↦ c.on tape)]
  rfl

theorem scan_on (c : Connect) (tape : Tape) : (c.on tape).scan = c.scan.on tape := by
  rw [scan, scan, apply_ite (fun c : Connect ↦ c.on tape)]
  rfl

/-- A round always ends. -/
theorem next_canReturn (hwidth : 0 < xDim ∧ xDim ≤ 50) (hheight : 0 < yDim ∧ yDim ≤ 30)
    (h : c.Joining xDim yDim) :
    CanReturn randomValues (putNext on) (bodyFrom on Connect.next c) fun _ ↦ True := by
  obtain ⟨hmaze, -, -, -⟩ := tried_eq c
  have hx := h.digs.dug.xDim_eq
  have hy := h.digs.dug.yDim_eq
  by_cases hdraws : c.Draws
  · have hleft : 0 < c.remaining := by
      unfold Draws at hdraws
      omega
    obtain ⟨q, hq, hunmarked⟩ := h.exists_unmarked hleft
    have hfree : hasBit (c.maze.cell (2 * q.1 + 1) (2 * q.2 + 1)) mazeReach = false := by
      rw [cell, ← roomIndex, ← Bool.not_eq_true]
      exact fun hmarked ↦ hunmarked (mem_roomsWith.mpr ⟨hq, hmarked⟩)
    have hpick := pickPoint_canReturn (fun value ↦ hasBit value mazeReach) (by omega)
      (by omega) (by omega) (oddPoint_room hq) hfree
    refine CanReturn.congr (hpick.bind (g := fun fuel p ↦ (c.drawn p.1 p.2.1 p.2.2).join fuel)
      fun p hp ↦ ?_) fun fuel tape ↦ ?_
    · have hdrawn := h.drawn hp.1 c.tape
      refine join_canReturn (c := c.drawn p.1 p.2 c.tape) hdrawn ?_
      rw [← hdrawn.digs.marked_iff, Connect.drawn, hmaze, hp.2]
      exact Bool.false_ne_true
    · change (c.on tape).next fuel = _
      rw [next_draw (c := c.on tape) hdraws, tried_on]
      change (c.tried.maze.pickPoint _ fuel tape).bind _ = _
      rw [hmaze]
      refine congrArg _ (funext fun p ↦ ?_)
      change ((c.on tape).drawn p.1 p.2.1 p.2.2).join fuel = _
      rw [drawn, tried_on]
      rfl
  · have hscanned := h.tried.scan
    have hnext : ∀ fuel tape, bodyFrom on Connect.next c fuel tape =
        if hasBit (c.tried.scan.maze.cell c.tried.scan.x c.tried.scan.y) mazeReach then
          some (c.tried.scan.on tape, decide (c.tried.scan.remaining > 0))
        else (c.tried.scan.on tape).join fuel := by
      intro fuel tape
      rw [bodyFrom, next_scan (c := c.on tape) hdraws, tried_on, scan_on]
      rfl
    by_cases hmarked : hasBit (c.tried.scan.maze.cell c.tried.scan.x c.tried.scan.y) mazeReach
    · refine .of_returns (b := (c.tried.scan, decide (c.tried.scan.remaining > 0)))
        ⟨0, fun fuel _ rest ↦ ?_⟩ trivial
      rw [hnext, if_pos hmarked]
      rfl
    · refine (join_canReturn hscanned (mt hscanned.digs.marked_iff.mpr hmarked)).congr
        fun fuel tape ↦ ?_
      rw [hnext, if_neg hmarked]

end Connect

/-- The first two phases never get stuck. -/
theorem connectPhase_canReturn (m : Maze) (hwidth : 0 < xDim ∧ xDim ≤ 50)
    (hheight : 1 < yDim ∧ yDim ≤ 30) :
    CanReturn randomValues Connect.on (m.connectPhase xDim yDim) fun c ↦
      Dug xDim yDim c.maze := by
  have hheight' : 0 < yDim ∧ yDim ≤ 30 := ⟨by omega, hheight.2⟩
  refine (connectStart_canReturn m hwidth hheight).bind
    (g := fun fuel ↦ doWhile (Connect.next fuel) fuel) fun c hc ↦ ?_
  refine .loop_of_measure (Connect.Joining xDim yDim) Connect.fuelMono_next
    (fun c ↦ c.roundsLeft (xDim * yDim).toNat) (fun c hc ↦ ?_) hc
  refine (Connect.next_canReturn hwidth hheight' hc).mono fun draws next hnext _ ↦ ?_
  obtain ⟨fuel, tape, rest, hround⟩ := hnext.exists_run
  have hcases := Connect.next_cases hwidth.1 hheight'.1 (hc.on tape) hround
  split_ifs with hgoes
  · have hround' : (c.on tape).next fuel = some (next.1.on rest, true) := by
      rw [← hgoes]
      exact hround
    have hless := Connect.roundsLeft_next hwidth.1 hheight'.1 (hc.on tape) hround'
    exact ⟨hcases.2.1.on next.1.tape, hless⟩
  · exact hcases.2.1.digs.dug

/-! ### Fruits and the exit -/

/-- A fruit is added to a room without one. -/
theorem addAFruitInternal_card {m' : Maze} {fuel : ℕ} {tape tape' : Tape} (hx : 0 < m.xDim)
    (hy : 0 < m.yDim) (hadd : m.addAFruitInternal fuel tape = some (m', tape')) :
    (m'.roomsWith mazeFruit).card = (m.roomsWith mazeFruit).card + 1 := by
  simp only [addAFruitInternal, Option.bind_eq_bind, Option.bind_eq_some_iff, Prod.exists,
    Option.some.injEq, Prod.mk.injEq] at hadd
  obtain ⟨x, y, drawn, hpick, rfl, -⟩ := hadd
  obtain ⟨hodd, hfree⟩ := pickPoint_odd hx hy hpick
  obtain ⟨hfruit, -, -⟩ := fruit_bits drawn.draw.1
  obtain ⟨hroom, hxodd, hyodd⟩ := hodd.exists_room
  have hindex : m.index x y = m.roomIndex (x / 2, y / 2) := by rw [roomIndex, ← hxodd, ← hyodd]
  have hnew : (x / 2, y / 2) ∉ m.roomsWith mazeFruit := by
    rw [mem_roomsWith, ← hindex]
    rintro ⟨-, hhas⟩
    exact Bool.false_ne_true (hfree.symm.trans hhas)
  have hhas : hasBit (m.cell x y ||| (drawn.draw.1 % numFruitTypes + 1).toUInt8 * mazeFruit1)
      mazeFruit = true := by rw [hasBit_or, hfruit, Bool.or_true]
  rw [← Finset.card_insert_of_notMem hnew, ← roomsWith_insert hroom hhas, ← hindex]
  rfl

theorem addFruits_card {m' : Maze} {fuel count : ℕ} {tape tape' : Tape} (hwidth : 0 < xDim)
    (hheight : 0 < yDim) (h : Furnished xDim yDim m)
    (hadd : addFruits fuel count (m, tape) = some (m', tape')) :
    (m'.roomsWith mazeFruit).card = (m.roomsWith mazeFruit).card + count := by
  induction count generalizing m tape with
  | zero =>
    cases hadd
    rfl
  | succ count ih =>
    simp only [addFruits, Option.bind_eq_bind, Option.bind_eq_some_iff, Prod.exists] at hadd
    obtain ⟨next, tape, hnext, hrest⟩ := hadd
    have hcard := addAFruitInternal_card (by rw [h.xDim_eq]; exact hwidth)
      (by rw [h.yDim_eq]; exact hheight) hnext
    rw [ih (addAFruitInternal_furnished hwidth hheight h hnext) hrest, hcard]
    omega

theorem Furnished.card_rooms (h : Furnished xDim yDim m) (hwidth : 0 < xDim) (hheight : 0 < yDim) :
    (m.rooms.card : ℤ) = xDim * yDim := by
  rw [rooms, card_grid, h.xDim_eq, h.yDim_eq]
  push_cast
  rw [Int.toNat_of_nonneg hwidth.le, Int.toNat_of_nonneg hheight.le]

/-- As long as there is a room without a fruit, such a room is drawn in the end. -/
theorem pickFree_canReturn (hwidth : 0 < xDim ∧ xDim ≤ 50) (hheight : 0 < yDim ∧ yDim ≤ 30)
    (h : Furnished xDim yDim m) (hfree : ((m.roomsWith mazeFruit).card : ℤ) < xDim * yDim) :
    CanReturn randomValues putPoint (m.pickPoint fun value ↦ hasBit value mazeFruit) fun _ ↦
      True := by
  have hx := h.xDim_eq
  have hy := h.yDim_eq
  have hcard := h.card_rooms hwidth.1 hheight.1
  obtain ⟨q, hq, hwithout⟩ := Finset.exists_mem_notMem_of_card_lt_card
    (show (m.roomsWith mazeFruit).card < m.rooms.card by omega)
  refine (pickPoint_canReturn _ (by omega) (by omega) (by omega) (oddPoint_room hq) ?_).mono
    fun _ _ _ _ ↦ trivial
  rw [cell, ← roomIndex, ← Bool.not_eq_true]
  exact fun hhas ↦ hwithout (mem_roomsWith.mpr ⟨hq, hhas⟩)

theorem addAFruitInternal_canReturn (hwidth : 0 < xDim ∧ xDim ≤ 50)
    (hheight : 0 < yDim ∧ yDim ≤ 30) (h : Furnished xDim yDim m)
    (hfree : ((m.roomsWith mazeFruit).card : ℤ) < xDim * yDim) :
    CanReturn randomValues Prod.mk m.addAFruitInternal fun m' ↦ Furnished xDim yDim m' ∧
      (m'.roomsWith mazeFruit).card = (m.roomsWith mazeFruit).card + 1 := by
  have hreturns : CanReturn randomValues Prod.mk m.addAFruitInternal fun _ ↦ True := by
    refine (pickFree_canReturn hwidth hheight h hfree).bind (g := fun _ p ↦
      let (value, tape) := p.2.2.draw
      let fruit := (value % numFruitTypes + 1).toUInt8 * mazeFruit1
      some ({ m.setCell p.1 p.2.1 (m.cell p.1 p.2.1 ||| fruit) with nFruits := m.nFruits + 1 },
        tape)) fun p _ ↦ ?_
    refine .draw randomValues_nonempty fun value _ ↦ ?_
    let fruit := (value % numFruitTypes + 1).toUInt8 * mazeFruit1
    exact .of_returns
      (b := { m.setCell p.1 p.2 (m.cell p.1 p.2 ||| fruit) with nFruits := m.nFruits + 1 })
      ⟨0, fun _ _ _ ↦ rfl⟩ trivial
  refine hreturns.mono fun draws m' hadds _ ↦ ?_
  obtain ⟨fuel, tape, rest, hadd⟩ := hadds.exists_run
  exact ⟨addAFruitInternal_furnished hwidth.1 hheight.1 h hadd,
    addAFruitInternal_card (by rw [h.xDim_eq]; exact hwidth.1) (by rw [h.yDim_eq]; exact hheight.1)
      hadd⟩

theorem addFruits_canReturn (hwidth : 0 < xDim ∧ xDim ≤ 50) (hheight : 0 < yDim ∧ yDim ≤ 30)
    (count : ℕ) (h : Furnished xDim yDim m)
    (hfree : ((m.roomsWith mazeFruit).card : ℤ) + count ≤ xDim * yDim) :
    CanReturn randomValues Prod.mk (fun fuel tape ↦ addFruits fuel count (m, tape)) fun m' ↦
      Furnished xDim yDim m' ∧
        (m'.roomsWith mazeFruit).card = (m.roomsWith mazeFruit).card + count := by
  induction count generalizing m with
  | zero => exact .of_returns (b := m) ⟨0, fun _ _ _ ↦ rfl⟩ ⟨h, rfl⟩
  | succ count ih =>
    refine (addAFruitInternal_canReturn hwidth hheight h (by omega)).bind
      (g := fun fuel s ↦ addFruits fuel count s) fun m' hm' ↦ ?_
    refine (ih hm'.1 (by omega)).mono fun _ _ _ hpost ↦ ⟨hpost.1, ?_⟩
    omega

theorem placeExit_canReturn (hwidth : 0 < xDim ∧ xDim ≤ 50) (hheight : 0 < yDim ∧ yDim ≤ 30)
    (h : Furnished xDim yDim m) (hfree : ((m.roomsWith mazeFruit).card : ℤ) < xDim * yDim) :
    CanReturn randomValues (fun m' _ ↦ m') m.placeExit fun _ ↦ True := by
  refine (pickFree_canReturn hwidth hheight h hfree).bind (g := fun _ p ↦
    some { m.setCell p.1 p.2.1 (m.cell p.1 p.2.1 ||| mazeExit) with
      exitX := p.1, exitY := p.2.1 }) fun p _ ↦ ?_
  exact .of_returns
    (b := { m.setCell p.1 p.2 (m.cell p.1 p.2 ||| mazeExit) with exitX := p.1, exitY := p.2 })
    ⟨0, fun _ _ _ ↦ rfl⟩ trivial

/-- Before the first fruit there are none. -/
theorem cleared_card (h : Dug xDim yDim m) :
    (roomsWith { m.clearReach.clearWalls with nFruits := 0 } mazeFruit).card = 0 := by
  obtain ⟨fruits, hmem, -, hcard⟩ := (cleared_furnished h).fruits
  have hnone : fruits = ∅ := Finset.card_eq_zero.mp (Int.ofNat_eq_zero.mp hcard)
  rw [Finset.card_eq_zero, Finset.eq_empty_iff_forall_notMem]
  intro p hp
  have hfruit := (hmem _).mpr (mem_roomsWith.mp hp).2
  rw [hnone] at hfruit
  exact Finset.notMem_empty _ hfruit

/-! ### The whole -/

/-- With fewer fruits than rooms, and an accepted size. -/
theorem makeMaze_canReturn (m : Maze) (hwidth : mazeMinXDim ≤ xDim ∧ xDim ≤ mazeMaxXDim)
    (hheight : mazeMinYDim ≤ yDim ∧ yDim ≤ mazeMaxYDim) {startFruits : ℤ}
    (hfruits : startFruits < xDim * yDim) :
    CanReturn randomValues (fun m' _ ↦ ((0 : ℤ), m')) (m.makeMaze xDim yDim startFruits)
      fun _ ↦ True := by
  have hsizes : 0 < mazeMinXDim ∧ 1 < mazeMinYDim ∧ mazeMaxXDim = 50 ∧ mazeMaxYDim = 30 := by decide
  have hwidth' : 0 < xDim ∧ xDim ≤ 50 := by omega
  have hheight' : 0 < yDim ∧ yDim ≤ 30 := by omega
  have hworms : 1 < yDim ∧ yDim ≤ 30 := by omega
  have hpositive : 0 < xDim * yDim := Int.mul_pos hwidth'.1 hheight'.1
  refine CanReturn.congr ?_ fun fuel tape ↦
    (makeMaze_eq m startFruits fuel tape).trans (if_neg (by omega))
  refine (connectPhase_canReturn m hwidth' hworms).bind (g := fun fuel c ↦
    (addFruits fuel startFruits.toNat
      ({ c.maze.clearReach.clearWalls with nFruits := 0 }, c.tape)).bind fun s ↦
        (s.1.placeExit fuel s.2).map fun m ↦ ((0 : ℤ), m)) fun c hdug ↦ ?_
  have hfurnished := cleared_furnished hdug
  have hnone := cleared_card hdug
  refine (addFruits_canReturn hwidth' hheight' startFruits.toNat hfurnished (by omega)).bind
    (g := fun fuel s ↦ (s.1.placeExit fuel s.2).map fun m ↦ ((0 : ℤ), m)) fun m' hm' ↦ ?_
  simp only [Option.map_eq_bind]
  refine (placeExit_canReturn hwidth' hheight' hm'.1 (by omega)).bind
    (g := fun _ m ↦ some ((0 : ℤ), m)) fun m'' _ ↦ ?_
  exact .of_returns (b := m'') ⟨0, fun _ _ _ ↦ rfl⟩ trivial

/-- With as many fruits as rooms, there is no room left for the exit. -/
theorem makeMaze_eq_none (m : Maze) (hwidth : mazeMinXDim ≤ xDim ∧ xDim ≤ mazeMaxXDim)
    (hheight : mazeMinYDim ≤ yDim ∧ yDim ≤ mazeMaxYDim) {startFruits : ℤ}
    (hfruits : xDim * yDim ≤ startFruits) (fuel : ℕ) (tape : Tape) :
    m.makeMaze xDim yDim startFruits fuel tape = none := by
  have hmin : 0 < mazeMinXDim ∧ 0 < mazeMinYDim := by decide
  have hwidth' : 0 < xDim := by omega
  have hheight' : 0 < yDim := by omega
  by_contra hsome
  obtain ⟨⟨ret, m'⟩, hmaze⟩ := Option.ne_none_iff_exists'.mp hsome
  have hret : ret = 0 := by
    rw [makeMaze_eq, if_neg (by omega)] at hmaze
    simp only [Option.bind_eq_some_iff, Option.map_eq_some_iff, Prod.mk.injEq] at hmaze
    obtain ⟨-, -, -, -, -, -, hret, -⟩ := hmaze
    exact hret.symm
  rw [hret] at hmaze
  obtain ⟨-, -, connected, furnished, tape', tape'', hdug, hadd, hplace⟩ := makeMaze_phases hmaze
  have hfurnished := addFruits_furnished hwidth' hheight' (cleared_furnished hdug) hadd
  have hcard := addFruits_card hwidth' hheight' (cleared_furnished hdug) hadd
  have hrooms := hfurnished.card_rooms hwidth' hheight'
  rw [cleared_card hdug, zero_add] at hcard
  -- all rooms have fruits
  have hall : furnished.roomsWith mazeFruit = furnished.rooms :=
    Finset.eq_of_subset_of_card_le (roomsWith_subset furnished mazeFruit) (by omega)
  simp only [placeExit, Option.bind_eq_bind, Option.bind_eq_some_iff, Prod.exists] at hplace
  obtain ⟨x, y, drawn, hpick, -⟩ := hplace
  obtain ⟨hodd, hfree⟩ := pickPoint_odd (by rw [hfurnished.xDim_eq]; exact hwidth')
    (by rw [hfurnished.yDim_eq]; exact hheight') hpick
  obtain ⟨hroom, hx, hy⟩ := hodd.exists_room
  rw [← hall, mem_roomsWith, roomIndex, ← hx, ← hy] at hroom
  exact Bool.false_ne_true (hfree.symm.trans hroom.2)

/-- For an accepted size, `make_maze` with fewer fruits than rooms never gets stuck: whatever
`random` has returned, it returns 0 after further values, and then does not depend on what
`random` would return next. With more fruits it never returns. -/
theorem makeMaze_returns (m : Maze) (hwidth : mazeMinXDim ≤ xDim ∧ xDim ≤ mazeMaxXDim)
    (hheight : mazeMinYDim ≤ yDim ∧ yDim ≤ mazeMaxYDim) (startFruits : ℤ) :
    (startFruits < xDim * yDim → ∀ drawn : List ℕ, (∀ value ∈ drawn, value ∈ randomValues) →
      ∃ more : List ℕ, (∀ value ∈ more, value ∈ randomValues) ∧ ∃ m' fuel, ∀ fuel' ≥ fuel,
        ∀ rest : Tape, m.makeMaze xDim yDim startFruits fuel' (rest.prepend (drawn ++ more)) =
          some (0, m')) ∧
      (xDim * yDim ≤ startFruits → ∀ fuel tape,
        m.makeMaze xDim yDim startFruits fuel tape = none) := by
  refine ⟨fun hfruits drawn hdrawn ↦ ?_, makeMaze_eq_none m hwidth hheight⟩
  obtain ⟨draws, m', hdraws, ⟨fuel, hreturns⟩, -, hcompare⟩ :=
    makeMaze_canReturn m hwidth hheight hfruits drawn hdrawn
  rcases hcompare with ⟨left, rfl⟩ | ⟨more, rfl⟩
  · refine ⟨[], fun _ hmem ↦ absurd hmem List.not_mem_nil, m', fuel, fun fuel' hle rest ↦ ?_⟩
    rw [List.append_nil, Tape.prepend_append]
    exact hreturns fuel' hle (rest.prepend left)
  · exact ⟨more, fun value hmem ↦ hdraws value (List.mem_append_right _ hmem), m', fuel, hreturns⟩

/-- The smallest maze, after two draws; and with a fruit for each room. -/
theorem makeMaze_returns_smallest :
    (∃ more : List ℕ, (∀ value ∈ more, value ∈ randomValues) ∧ ∃ m' fuel, ∀ fuel' ≥ fuel,
      ∀ rest : Tape, unmade.makeMaze 14 8 1 fuel' (rest.prepend ([3, 5] ++ more)) =
        some (0, m')) ∧
      ∀ fuel tape, unmade.makeMaze 14 8 112 fuel tape = none :=
  ⟨(makeMaze_returns unmade (by decide) (by decide) 1).1 (by decide) [3, 5]
      (by simp [randomValues]),
    (makeMaze_returns unmade (by decide) (by decide) 112).2 (by decide)⟩

end Maze

end Sp18.MazeGame
