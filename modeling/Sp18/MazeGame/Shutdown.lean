import Sp18.MazeGame.Atomicity
import Sp18.MazeGame.MakeMazeReturns
import Mathlib.Tactic.IntervalCases

/-!
# The end of the threads

`main` joins the three threads. `keyboard_thread` ends when the player quits or has won,
`rtc_thread` when the levels are over or the player has quit, and wakes `tux_thread` as the last
thing it does for it. It does so without `con_mtx`, and sets `winner` only afterwards. The last
signal is lost on a `tux_thread` that has looked at the flags but does not wait yet, or that looks
at `winner` again before it is set.

These are the only ways to hang: `tux_thread` is `Stranded` in exactly those states from which the
threads cannot all come to their end (`canFinish_iff`). From any other state the threads are led to
their end one after the other, those that hold a mutex first, and each step of this makes
`stepsLeft` smaller. A level that is being prepared is finished first, with draws that make a maze
(`prepareMazeLevel_ends`).
-/

set_option autoImplicit false
set_option relaxedAutoImplicit false

namespace Sp18.MazeGame

open Foundation

/-- `rtc_thread` has sent its last signal. -/
def RtcPoint.signalledLast : RtcPoint → Bool
  | .testQuit | .win | .ended => true
  | _ => false

namespace Threads

/-- `main` can go on. -/
def Finished (s : Threads) : Prop := s.rtc = .ended ∧ s.keyboard = .ended ∧ s.tux = .ended

/-- The last signal has been sent, and `tux_thread` waits or is bound to wait. -/
def Stranded (s : Threads) : Prop :=
  s.rtc.signalledLast = true ∧
    (s.tux = .wait ∨ s.tux = .waiting false ∨
      s.tux = .testWinnerAgain ∧ s.winner = false ∧
        (s.rtc = .ended ∨ s.rtc = .testQuit ∧ s.quitFlag = true))

/-- What the ends of the threads and the mutexes have to do with the variables. -/
structure Ready (s : Threads) : Prop where
  locked : s.Locked
  keyboard : s.keyboard = .ended → s.quitFlag = true ∨ s.winner = true
  rtc : s.rtc = .ended → s.quitFlag = true ∨ s.winner = true
  winner : s.winner = true → s.rtc = .ended
  level : 1 ≤ s.level ∧ (s.rtc = .start → s.level ≤ maxLevel)

/-! ### What holds in every run -/

section Invariants

variable (blocks : ℕ → Image) {s : Threads}

/-- What `rtc_thread` does to the flags. -/
theorem rtcStep_flags (s : Threads) (input : RtcInput) :
    (s.rtcStep blocks input).quitFlag = s.quitFlag ∧
      ((s.rtcStep blocks input).winner = s.winner ∧
          ((s.rtcStep blocks input).rtc = .ended → s.rtc = .ended ∨ s.quitFlag = true) ∧
          (s.rtc = .ended → (s.rtcStep blocks input).rtc = .ended) ∨
        (s.rtcStep blocks input).winner = true ∧ (s.rtcStep blocks input).rtc = .ended) := by
  unfold rtcStep
  cases hrtc : s.rtc with
  | win => exact ⟨rfl, Or.inr ⟨rfl, rfl⟩⟩
  | testQuit =>
    refine ⟨rfl, Or.inl ⟨rfl, fun hended ↦ Or.inr ?_, nofun⟩⟩
    dsimp only at hended
    split_ifs at hended with hquit
    simpa using hquit
  | ended => exact ⟨rfl, Or.inl ⟨rfl, fun _ ↦ Or.inl rfl, fun _ ↦ hrtc⟩⟩
  | signal | lastSignal =>
    dsimp only
    rw [signalled_eq]
    exact ⟨rfl, Or.inl ⟨rfl, nofun, nofun⟩⟩
  | start =>
    dsimp only [startLevel]
    split
    · exact ⟨rfl, Or.inl ⟨rfl, fun h ↦ RtcPoint.noConfusion (hrtc.symm.trans h), nofun⟩⟩
    · split_ifs <;> exact ⟨rfl, Or.inl ⟨rfl, nofun, nofun⟩⟩
  | square =>
    dsimp only [arrive]
    split_ifs <;> exact ⟨rfl, Or.inl ⟨rfl, nofun, nofun⟩⟩
  | lockCon | lockMtx =>
    dsimp only
    split_ifs
    · exact ⟨rfl, Or.inl ⟨rfl, nofun, nofun⟩⟩
    · exact ⟨rfl, Or.inl ⟨rfl, fun h ↦ RtcPoint.noConfusion (hrtc.symm.trans h), nofun⟩⟩
  | _ =>
    dsimp only
    (try split_ifs) <;> (try split) <;> exact ⟨rfl, Or.inl ⟨rfl, nofun, nofun⟩⟩

/-- The levels go up, and each that is started is one of the game. -/
theorem rtcStep_level (h : 1 ≤ s.level ∧ (s.rtc = .start → s.level ≤ maxLevel))
    (input : RtcInput) : 1 ≤ (s.rtcStep blocks input).level ∧
      ((s.rtcStep blocks input).rtc = .start → (s.rtcStep blocks input).level ≤ maxLevel) := by
  obtain ⟨hpositive, hstart⟩ := h
  unfold rtcStep
  cases hrtc : s.rtc with
  | levels =>
    refine ⟨hpositive, fun hstarts ↦ ?_⟩
    dsimp only at hstarts
    split_ifs at hstarts with hgoes
    exact hgoes.1
  | start =>
    dsimp only [startLevel]
    split
    · exact ⟨hpositive, fun _ ↦ hstart hrtc⟩
    · split_ifs <;> exact ⟨hpositive, nofun⟩
  | frames =>
    dsimp only
    split_ifs
    · exact ⟨hpositive, nofun⟩
    · exact ⟨by dsimp only; omega, nofun⟩
  | signal | lastSignal =>
    dsimp only
    rw [signalled_eq]
    exact ⟨hpositive, nofun⟩
  | square =>
    dsimp only [arrive]
    split_ifs <;> exact ⟨hpositive, nofun⟩
  | lockCon | lockMtx =>
    dsimp only
    split_ifs
    · exact ⟨hpositive, nofun⟩
    · exact ⟨hpositive, hstart⟩
  | ended => exact ⟨hpositive, hstart⟩
  | _ =>
    dsimp only
    (try split_ifs) <;> (try split) <;> exact ⟨hpositive, nofun⟩

/-- What `keyboard_thread` does to the flags. -/
theorem keyboardStep_flags (s : Threads) (getc : Option UInt8) :
    (s.keyboardStep getc).winner = s.winner ∧
      (s.quitFlag = true → (s.keyboardStep getc).quitFlag = true) ∧
      ((s.keyboardStep getc).keyboard = .ended → s.keyboard = .ended ∨ s.winner = true ∨
        (s.keyboardStep getc).quitFlag = true) := by
  unfold keyboardStep
  cases hkeyboard : s.keyboard with
  | testWinner state =>
    refine ⟨rfl, id, fun hended ↦ Or.inr (Or.inl ?_)⟩
    dsimp only at hended
    split_ifs at hended with hwinner
    simpa using hwinner
  | read state =>
    dsimp only
    split_ifs
    · exact ⟨rfl, fun _ ↦ rfl, fun _ ↦ Or.inr (Or.inr rfl)⟩
    · exact ⟨rfl, id, nofun⟩
    · exact ⟨rfl, id, nofun⟩
    · exact ⟨rfl, id, nofun⟩
  | testFlag key state =>
    dsimp only
    split
    · split <;> exact ⟨rfl, id, nofun⟩
    · exact ⟨rfl, id, nofun⟩
  | lockMtx dir =>
    dsimp only
    split_ifs
    · exact ⟨rfl, id, nofun⟩
    · exact ⟨rfl, id, fun h ↦ KeyboardPoint.noConfusion (hkeyboard.symm.trans h)⟩
  | ended => exact ⟨rfl, id, fun _ ↦ Or.inl rfl⟩
  | _ => exact ⟨rfl, id, nofun⟩

theorem tuxStep_flags (s : Threads) :
    s.tuxStep.quitFlag = s.quitFlag ∧ s.tuxStep.winner = s.winner := by
  unfold tuxStep
  cases s.tux <;> dsimp only <;> (try split) <;> exact ⟨rfl, rfl⟩

theorem keyboardStep_level (s : Threads) (getc : Option UInt8) :
    (s.keyboardStep getc).level = s.level := by
  unfold keyboardStep
  cases s.keyboard <;> dsimp only <;> (try split_ifs) <;> (try split) <;> rfl

theorem tuxStep_level (s : Threads) : s.tuxStep.level = s.level := by
  unfold tuxStep
  cases s.tux <;> dsimp only <;> (try split) <;> rfl

theorem ready_initial : initial.Ready where
  locked := locked_initial
  keyboard := nofun
  rtc := nofun
  winner := nofun
  level := ⟨le_rfl, nofun⟩

theorem ready_step (s : Threads) (turn : Turn) (h : s.Ready) : (s.step blocks turn).Ready := by
  have hlocked := locked_step blocks s turn h.locked
  cases turn with
  | rtc input =>
    have hlevel := rtcStep_level blocks h.level input
    obtain ⟨hquit, hflags⟩ := rtcStep_flags blocks s input
    have hkeyboard := (rtcStep_others blocks s input).1
    rcases hflags with ⟨hwinner, hended, hstays⟩ | ⟨hwinner, hended⟩
    · refine ⟨hlocked, fun h' ↦ ?_, fun h' ↦ ?_, fun h' ↦ ?_, hlevel⟩
      · change (s.rtcStep blocks input).quitFlag = true ∨ (s.rtcStep blocks input).winner = true
        rw [hquit, hwinner]
        exact h.keyboard (hkeyboard.symm.trans h')
      · change (s.rtcStep blocks input).quitFlag = true ∨ (s.rtcStep blocks input).winner = true
        rw [hquit, hwinner]
        exact (hended h').elim h.rtc Or.inl
      · exact hstays (h.winner (hwinner.symm.trans h'))
    · exact ⟨hlocked, fun _ ↦ Or.inr hwinner, fun _ ↦ Or.inr hwinner, fun _ ↦ hended, hlevel⟩
  | keyboard getc =>
    obtain ⟨hwinner, hquit, hended⟩ := keyboardStep_flags s getc
    have hrtc := (keyboardStep_others s getc).1
    have hlevel := keyboardStep_level s getc
    refine ⟨hlocked, fun h' ↦ ?_, fun h' ↦ ?_, fun h' ↦ ?_, ?_⟩
    · change (s.keyboardStep getc).quitFlag = true ∨ (s.keyboardStep getc).winner = true
      rw [hwinner]
      rcases hended h' with hbefore | hwon | hquits
      · exact (h.keyboard hbefore).imp hquit id
      · exact Or.inr hwon
      · exact Or.inl hquits
    · change (s.keyboardStep getc).quitFlag = true ∨ (s.keyboardStep getc).winner = true
      rw [hwinner]
      exact (h.rtc (hrtc.symm.trans h')).imp hquit id
    · exact hrtc.trans (h.winner (hwinner.symm.trans h'))
    · rw [step, hlevel, hrtc]
      exact h.level
  | tux =>
    obtain ⟨hquit, hwinner⟩ := tuxStep_flags s
    obtain ⟨hrtc, hkeyboard⟩ := tuxStep_others s
    have hlevel := tuxStep_level s
    refine ⟨hlocked, fun h' ↦ ?_, fun h' ↦ ?_, fun h' ↦ ?_, ?_⟩
    · change s.tuxStep.quitFlag = true ∨ s.tuxStep.winner = true
      rw [hquit, hwinner]
      exact h.keyboard (hkeyboard.symm.trans h')
    · change s.tuxStep.quitFlag = true ∨ s.tuxStep.winner = true
      rw [hquit, hwinner]
      exact h.rtc (hrtc.symm.trans h')
    · exact hrtc.trans (h.winner (hwinner.symm.trans h'))
    · rw [step, hlevel, hrtc]
      exact h.level

/-! ### Stranded for good -/

/-- After the last signal `rtc_thread` leaves `tux_thread` alone. -/
theorem rtcStep_signalledLast (h : s.rtc.signalledLast = true) (input : RtcInput) :
    (s.rtcStep blocks input).rtc.signalledLast = true ∧
      (s.rtcStep blocks input).tux = s.tux := by
  unfold rtcStep
  revert h
  cases hrtc : s.rtc with
  | testQuit =>
    intro _
    dsimp only
    split_ifs <;> exact ⟨rfl, rfl⟩
  | win => exact fun _ ↦ ⟨rfl, rfl⟩
  | ended =>
    intro _
    exact ⟨by rw [hrtc]; rfl, rfl⟩
  | _ => exact fun h ↦ absurd h Bool.false_ne_true

/-- Nothing that any thread does helps a stranded `tux_thread`. -/
theorem stranded_step (s : Threads) (turn : Turn) (h : s.Stranded) :
    (s.step blocks turn).Stranded := by
  obtain ⟨hlast, htux⟩ := h
  cases turn with
  | rtc input =>
    obtain ⟨hlast', htux'⟩ := rtcStep_signalledLast blocks hlast input
    refine ⟨hlast', ?_⟩
    change (s.rtcStep blocks input).tux = _ ∨ (s.rtcStep blocks input).tux = _ ∨
      (s.rtcStep blocks input).tux = _ ∧ _
    rw [htux']
    refine htux.imp id (Or.imp id ?_)
    rintro ⟨hlooks, hwinner, hended | ⟨hrtc, hquit⟩⟩
    · have hsame : s.rtcStep blocks input = s := by rw [rtcStep, hended]
      rw [step, hsame]
      exact ⟨hlooks, hwinner, Or.inl hended⟩
    · have hends : s.rtcStep blocks input = { s with rtc := .ended } := by
        rw [rtcStep, hrtc]
        dsimp only
        rw [hquit, if_neg (by decide)]
      rw [step, hends]
      exact ⟨hlooks, hwinner, Or.inl rfl⟩
  | keyboard getc =>
    obtain ⟨hrtc, htux', -⟩ := keyboardStep_others s getc
    obtain ⟨hwinner, hquit, -⟩ := keyboardStep_flags s getc
    refine ⟨hrtc ▸ hlast, ?_⟩
    change (s.keyboardStep getc).tux = _ ∨ (s.keyboardStep getc).tux = _ ∨
      (s.keyboardStep getc).tux = _ ∧ (s.keyboardStep getc).winner = false ∧
        ((s.keyboardStep getc).rtc = _ ∨ (s.keyboardStep getc).rtc = _ ∧ _)
    rw [htux', hwinner, hrtc]
    exact htux.imp id (Or.imp id (And.imp id (And.imp id (Or.imp id (And.imp id hquit)))))
  | tux =>
    have hrtc := (tuxStep_others s).1
    refine ⟨hrtc ▸ hlast, ?_⟩
    change s.tuxStep.tux = _ ∨ s.tuxStep.tux = _ ∨ _
    rcases htux with hwait | hwaiting | ⟨hlooks, hwinner, -⟩
    · refine Or.inr (Or.inl ?_)
      rw [tuxStep, hwait]
    · refine Or.inr (Or.inl ?_)
      rw [tuxStep, hwaiting]
      dsimp only
      rw [if_neg (by simp)]
      exact hwaiting
    · refine Or.inl ?_
      rw [tuxStep, hlooks]
      dsimp only
      rw [if_pos hwinner]

end Invariants

end Threads

/-! ### Coming to the end -/

/-- How many steps `rtc_thread` is from its end, in the frame it is in. -/
def RtcPoint.rank : RtcPoint → ℕ
  | .ended => 0
  | .win => 1
  | .testQuit => 2
  | .lastSignal => 3
  | .levels => 4
  | .frames => 5
  | .redraw => 6
  | .ticks => 7
  | .move => 8
  | .unlockMtx _ | .unlockWon => 9
  | .depart _ => 10
  | .takeNext _ => 11
  | .testOpen _ => 12
  | .square => 13
  | .turnBack => 14
  | .testBackwards => 15
  | .testTurned => 16
  | .lockMtx => 17
  | .unlockCon => 18
  | .signal => 19
  | .testPressed => 20
  | .setFlag => 21
  | .setPressed => 22
  | .testButton => 23
  | .clearFlag => 24
  | .lockCon => 25
  | .start => 26

/-- How many steps `keyboard_thread` is from its end, if the player quits. -/
def KeyboardPoint.rank : KeyboardPoint → ℕ
  | .ended => 0
  | .read _ => 1
  | .testWinner _ => 2
  | .unlockMtx => 3
  | .assign _ => 4
  | .lockMtx _ => 5
  | .testFlag _ _ => 6

/-- How many steps `tux_thread` is from its end, if it finds one of the flags set. -/
def TuxPoint.rank (winner : Bool) : TuxPoint → ℕ
  | .ended => 0
  | .testWinner => if winner then 1 else 14
  | .testQuit => 2
  | .unlockMtx => 3
  | .clearPressed => 4
  | .readButton => 5
  | .lockMtx => 6
  | .unlockCon => 7
  | .waiting woken => if woken then 13 else 8
  | .wait => 9
  | .testWinnerAgain => 10
  | .testQuitAgain => 11
  | .testPressed => 12
  | .lockCon => 13

theorem TuxPoint.rank_woken_le (winner : Bool) (point : TuxPoint) :
    point.woken.rank winner ≤ point.rank winner + 5 := by
  cases point with
  | waiting woken => cases woken <;> simp [woken, rank]
  | _ => exact Nat.le_add_right _ 5

namespace Threads

/-- How many steps the threads are from their end, with room for the rounds of `tux_thread` that a
step of `rtc_thread` may cause. -/
def stepsLeft (s : Threads) : ℕ :=
  s.keyboard.rank + 20 * (s.ticksLeft * 30 + s.rtc.rank) + s.tux.rank s.winner

section Progress

variable (blocks : ℕ → Image) {s : Threads}

/-- Each level of the game can be prepared. -/
theorem levelInfo_accepted {level : ℤ} (h : 1 ≤ level) (hmax : level ≤ maxLevel) :
    (mazeMinXDim ≤ (levelInfo level).mazeXDim ∧ (levelInfo level).mazeXDim ≤ mazeMaxXDim) ∧
      (mazeMinYDim ≤ (levelInfo level).mazeYDim ∧ (levelInfo level).mazeYDim ≤ mazeMaxYDim) ∧
      (levelInfo level).initialFruitCount <
        (levelInfo level).mazeXDim * (levelInfo level).mazeYDim := by
  have hmax' : level ≤ 10 := hmax
  interval_cases level <;> decide

theorem prepareMazeLevel_ends (g : Game) {level : ℤ} (h : 1 ≤ level) (hmax : level ≤ maxLevel) :
    ∃ fuel tape, (g.prepareMazeLevel blocks level fuel tape).isSome = true := by
  obtain ⟨hwidth, hheight, hfruits⟩ := levelInfo_accepted h hmax
  obtain ⟨draws, maze, -, hreturns, -⟩ := g.maze.makeMaze_canReturn hwidth hheight hfruits [] nofun
  obtain ⟨fuel, tape, -, hmaze⟩ := hreturns.exists_run
  refine ⟨fuel, tape, ?_⟩
  rw [Game.prepareMazeLevel, hmaze]
  rfl

/-- `rtc_thread` comes closer to its end, unless it waits or goes on with the game. -/
theorem rtcStep_left {input : RtcInput} (hstart : s.rtc = .start →
      (s.thread.game.prepareMazeLevel blocks s.level input.fuel input.tape).isSome = true)
    (hended : s.rtc ≠ .ended) (hcon : s.rtc = .lockCon → s.conMtx = none)
    (hmtx : s.rtc = .lockMtx → s.mtx = none)
    (hquit : s.rtc = .levels ∨ s.rtc = .frames → s.quitFlag = true) :
    (s.rtcStep blocks input).stepsLeft < s.stepsLeft := by
  unfold rtcStep
  cases hrtc : s.rtc with
  | start =>
    have hprepared := hstart hrtc
    dsimp only [startLevel]
    split
    · rename_i hnone
      rw [hnone] at hprepared
      exact absurd hprepared Bool.false_ne_true
    · split_ifs <;> simp only [stepsLeft, hrtc, RtcPoint.rank] <;> omega
  | ended => exact absurd hrtc hended
  | levels =>
    dsimp only
    rw [hquit (Or.inl hrtc), if_neg (by simp)]
    simp only [stepsLeft, hrtc, RtcPoint.rank]
    omega
  | frames =>
    dsimp only
    rw [hquit (Or.inr hrtc), if_neg (by simp)]
    simp only [stepsLeft, hrtc, RtcPoint.rank]
    omega
  | ticks =>
    dsimp only
    split
    · simp only [stepsLeft, hrtc, RtcPoint.rank]
      omega
    · rename_i left hleft
      simp only [stepsLeft, hrtc, hleft, RtcPoint.rank]
      omega
  | lockCon =>
    dsimp only
    rw [if_pos (hcon hrtc)]
    simp only [stepsLeft, hrtc, RtcPoint.rank]
    omega
  | lockMtx =>
    dsimp only
    rw [if_pos (hmtx hrtc)]
    simp only [stepsLeft, hrtc, RtcPoint.rank]
    omega
  | signal | lastSignal =>
    have hrank := s.tux.rank_woken_le s.winner
    dsimp only
    rw [signalled_eq]
    simp only [stepsLeft, hrtc, RtcPoint.rank]
    omega
  | win =>
    have hrank : s.tux.rank true ≤ s.tux.rank s.winner := by
      cases s.tux <;> cases s.winner <;> simp [TuxPoint.rank]
    simp only [stepsLeft, hrtc, RtcPoint.rank]
    omega
  | square =>
    dsimp only [arrive]
    split_ifs <;> simp only [stepsLeft, hrtc, RtcPoint.rank] <;> omega
  | _ =>
    dsimp only
    (try split_ifs) <;> simp only [stepsLeft, hrtc, RtcPoint.rank] <;> omega

/-- `keyboard_thread` comes closer to its end, if the player quits. -/
theorem keyboardStep_left (hended : s.keyboard ≠ .ended)
    (hmtx : ∀ dir, s.keyboard = .lockMtx dir → s.mtx = none) :
    (s.keyboardStep (some 96)).stepsLeft < s.stepsLeft := by
  unfold keyboardStep
  cases hkeyboard : s.keyboard with
  | ended => exact absurd hkeyboard hended
  | lockMtx dir =>
    dsimp only
    rw [if_pos (hmtx dir hkeyboard)]
    simp only [stepsLeft, hkeyboard, KeyboardPoint.rank]
    omega
  | read state =>
    dsimp only
    rw [if_pos (by decide)]
    simp only [stepsLeft, hkeyboard, KeyboardPoint.rank]
    omega
  | testFlag key state =>
    dsimp only
    split
    · split <;> simp only [stepsLeft, hkeyboard, KeyboardPoint.rank] <;> omega
    · simp only [stepsLeft, hkeyboard, KeyboardPoint.rank]
      omega
  | testWinner state =>
    dsimp only
    split_ifs <;> simp only [stepsLeft, hkeyboard, KeyboardPoint.rank] <;> omega
  | _ =>
    simp only [stepsLeft, hkeyboard, KeyboardPoint.rank]
    omega

/-- `tux_thread` comes closer to its end, unless it waits or begins another round with no flag
set. -/
theorem tuxStep_left (hended : s.tux ≠ .ended)
    (hcon : s.tux = .lockCon ∨ s.tux = .waiting true → s.conMtx = none)
    (hwaiting : s.tux ≠ .waiting false) (hmtx : s.tux = .lockMtx → s.mtx = none)
    (hflags : s.tux = .testQuit → s.quitFlag = true ∨ s.winner = true) :
    s.tuxStep.stepsLeft < s.stepsLeft := by
  unfold tuxStep
  cases htux : s.tux with
  | ended => exact absurd htux hended
  | testQuit =>
    dsimp only
    split_ifs with hquit
    · have hwinner := (hflags htux).resolve_left (by rw [hquit]; decide)
      simp [stepsLeft, htux, TuxPoint.rank, hwinner]
    · simp only [stepsLeft, htux, TuxPoint.rank]
      omega
  | testWinner =>
    dsimp only
    split_ifs with hwinner
    · simp only [stepsLeft, htux, TuxPoint.rank, hwinner]
      simp
    · simp only [stepsLeft, htux, TuxPoint.rank]
      split_ifs <;> omega
  | lockCon =>
    dsimp only
    rw [if_pos (hcon (Or.inl htux))]
    simp only [stepsLeft, htux, TuxPoint.rank]
    omega
  | waiting woken =>
    cases woken with
    | false => exact absurd htux hwaiting
    | true =>
      dsimp only
      rw [if_pos ⟨rfl, hcon (Or.inr htux)⟩]
      simp [stepsLeft, htux, TuxPoint.rank]
  | lockMtx =>
    dsimp only
    rw [if_pos (hmtx htux)]
    simp only [stepsLeft, htux, TuxPoint.rank]
    omega
  | readButton =>
    dsimp only
    split <;> simp only [stepsLeft, htux, TuxPoint.rank] <;> omega
  | _ =>
    dsimp only
    (try split_ifs) <;> simp [stepsLeft, htux, TuxPoint.rank]

/-- The last signal does not strand a `tux_thread` that is outside of `con_mtx`. -/
theorem rtcStep_not_stranded (htux : s.tux.inConMtx = false) (hlast : s.rtc.signalledLast = false)
    (input : RtcInput) : ¬ (s.rtcStep blocks input).Stranded := by
  rintro ⟨hlast', htux'⟩
  have hcame : s.rtc = .lastSignal := by
    revert hlast hlast'
    unfold rtcStep startLevel arrive
    cases hrtc : s.rtc <;> dsimp only <;> (try split) <;> (try split) <;>
      simp [RtcPoint.signalledLast, hrtc]
  have hnext : (s.rtcStep blocks input).tux = s.tux.woken := by
    rw [rtcStep, hcame]
    exact congrArg Threads.tux (signalled_eq s)
  rw [hnext] at htux'
  have hout := s.tux.inConMtx_woken.trans htux
  have hwoken : s.tux.woken ≠ .waiting false := by
    cases s.tux <;> simp [TuxPoint.woken]
  rcases htux' with hwait | hwaiting | ⟨hlooks, -⟩
  · rw [hwait] at hout
    exact absurd hout.symm Bool.false_ne_true
  · exact hwoken hwaiting
  · rw [hlooks] at hout
    exact absurd hout.symm Bool.false_ne_true

/-- The two steps that `rtc_thread` does after the last signal. -/
theorem rtcStep_not_stranded_last (hstranded : ¬ s.Stranded)
    (hrtc : s.rtc = .testQuit ∨ s.rtc = .win) (input : RtcInput) :
    ¬ (s.rtcStep blocks input).Stranded := by
  have hlast : s.rtc.signalledLast = true := by rcases hrtc with h | h <;> rw [h] <;> rfl
  rintro ⟨-, htux⟩
  rw [(rtcStep_signalledLast blocks hlast input).2] at htux
  rcases htux with hwait | hwaiting | ⟨hlooks, hwinner, hends⟩
  · exact hstranded ⟨hlast, Or.inl hwait⟩
  · exact hstranded ⟨hlast, Or.inr (Or.inl hwaiting)⟩
  · rcases hrtc with hrtc | hrtc
    · have hquit : s.quitFlag = true := by
        revert hends
        rw [rtcStep, hrtc]
        dsimp only
        split_ifs with hquit
        · simp
        · simpa using hquit
      have hbefore : s.winner = false := by
        rw [rtcStep, hrtc] at hwinner
        exact hwinner
      exact hstranded ⟨hlast, Or.inr (Or.inr ⟨hlooks, hbefore, Or.inr ⟨hrtc, hquit⟩⟩)⟩
    · rw [rtcStep, hrtc] at hwinner
      exact Bool.false_ne_true hwinner.symm

theorem keyboardStep_not_stranded (hstranded : ¬ s.Stranded) (hrtc : s.rtc ≠ .testQuit)
    (getc : Option UInt8) : ¬ (s.keyboardStep getc).Stranded := by
  obtain ⟨hrtc', htux', -⟩ := keyboardStep_others s getc
  rintro ⟨hlast, htux⟩
  rw [hrtc', htux', (keyboardStep_flags s getc).1] at htux
  rw [hrtc'] at hlast
  refine hstranded ⟨hlast, htux.imp id (Or.imp id (And.imp id (And.imp id ?_)))⟩
  rintro (hends | ⟨htest, -⟩)
  · exact Or.inl hends
  · exact absurd htest hrtc

theorem tuxStep_not_stranded (h : s.Ready) (hstranded : ¬ s.Stranded) (htest : s.rtc ≠ .testQuit)
    (hwin : s.rtc ≠ .win) : ¬ s.tuxStep.Stranded := by
  have hrtc := (tuxStep_others s).1
  rintro ⟨hlast, htux⟩
  rw [hrtc] at hlast
  have hended : s.rtc = .ended := by
    cases hpoint : s.rtc with
    | testQuit => exact absurd hpoint htest
    | win => exact absurd hpoint hwin
    | ended => rfl
    | _ =>
      rw [hpoint] at hlast
      exact absurd hlast Bool.false_ne_true
  have hflags := h.rtc hended
  revert htux
  unfold tuxStep
  cases hpoint : s.tux with
  | testWinnerAgain =>
    dsimp only
    split_ifs with hwinner
    · exact fun _ ↦ hstranded ⟨hlast, Or.inr (Or.inr ⟨hpoint, hwinner, Or.inl hended⟩)⟩
    · simp
  | testQuitAgain =>
    dsimp only
    split_ifs with hquit
    · rw [hflags.resolve_left (by rw [hquit]; decide)]
      simp
    · simp
  | wait => exact fun _ ↦ hstranded ⟨hlast, Or.inl hpoint⟩
  | waiting woken =>
    dsimp only
    split_ifs with hwoken
    · simp
    · rintro (hwait | hwaiting | ⟨hlooks, -⟩)
      · exact TuxPoint.noConfusion (hpoint.symm.trans hwait)
      · exact hstranded ⟨hlast, Or.inr (Or.inl hwaiting)⟩
      · exact TuxPoint.noConfusion (hpoint.symm.trans hlooks)
  | ended => simp [hpoint]
  | _ =>
    dsimp only
    (try split) <;> simp [hpoint]

/-- A `tux_thread` that holds a mutex can go on. -/
theorem tuxStep_left_of_in (hin : s.tux.inConMtx = true ∨ s.tux.inMtx = true) :
    s.tuxStep.stepsLeft < s.stepsLeft := by
  have hout : ∀ point : TuxPoint, point.inConMtx = false → point.inMtx = false → s.tux ≠ point := by
    rintro point hcon hmtx rfl
    rw [hcon, hmtx] at hin
    exact hin.elim Bool.false_ne_true Bool.false_ne_true
  refine tuxStep_left (hout _ rfl rfl) ?_ (hout _ rfl rfl) (fun h ↦ absurd h (hout _ rfl rfl))
    fun h ↦ absurd h (hout _ rfl rfl)
  rintro (h | h) <;> exact absurd h (hout _ rfl rfl)

/-- An `rtc_thread` that holds a mutex, or has sent its last signal, can go on. -/
theorem rtcStep_left_of_in (hin : s.rtc.inConMtx = true ∨ s.rtc.inMtx = true ∨
    s.rtc = .testQuit ∨ s.rtc = .win) (input : RtcInput) :
    (s.rtcStep blocks input).stepsLeft < s.stepsLeft := by
  have hout : ∀ point : RtcPoint, point.inConMtx = false → point.inMtx = false →
      point ≠ .testQuit → point ≠ .win → s.rtc ≠ point := by
    rintro point hcon hmtx htest hwin rfl
    rw [hcon, hmtx] at hin
    exact hin.elim Bool.false_ne_true (Or.rec Bool.false_ne_true (Or.rec htest hwin))
  refine rtcStep_left blocks (fun h ↦ absurd h (hout _ rfl rfl nofun nofun))
    (hout _ rfl rfl nofun nofun) (fun h ↦ absurd h (hout _ rfl rfl nofun nofun))
    (fun h ↦ absurd h (hout _ rfl rfl nofun nofun)) ?_
  rintro (h | h) <;> exact absurd h (hout _ rfl rfl nofun nofun)

/-- Some thread can come closer to its end, unless `tux_thread` is stranded or all have ended. -/
theorem progress (h : s.Ready) (hstranded : ¬ s.Stranded) (hfinished : ¬ s.Finished) :
    ∃ turn, ¬ (s.step blocks turn).Stranded ∧ (s.step blocks turn).stepsLeft < s.stepsLeft := by
  have hinput : ∃ input : RtcInput, s.rtc = .start →
      (s.thread.game.prepareMazeLevel blocks s.level input.fuel input.tape).isSome = true := by
    by_cases hstart : s.rtc = .start
    · obtain ⟨fuel, tape, hends⟩ := prepareMazeLevel_ends blocks s.thread.game
        h.level.1 (h.level.2 hstart)
      exact ⟨⟨fuel, tape, 0, 0, false⟩, fun _ ↦ hends⟩
    · exact ⟨⟨0, fun i ↦ i, 0, 0, false⟩, fun h ↦ absurd h hstart⟩
  obtain ⟨input, hstart⟩ := hinput
  -- `rtc_thread` first, if it has sent its last signal
  by_cases hlast : s.rtc = .testQuit ∨ s.rtc = .win
  · exact ⟨.rtc input, rtcStep_not_stranded_last blocks hstranded hlast input,
      rtcStep_left_of_in blocks (Or.inr (Or.inr hlast)) input⟩
  obtain ⟨htest, hwin⟩ := not_or.mp hlast
  have htuxKeeps : ¬ s.tuxStep.Stranded := tuxStep_not_stranded h hstranded htest hwin
  have hkeyboardKeeps := keyboardStep_not_stranded hstranded htest (some 96)
  -- then the threads that hold a mutex
  by_cases htux : s.tux.inConMtx = true ∨ s.tux.inMtx = true
  · exact ⟨.tux, htuxKeeps, tuxStep_left_of_in htux⟩
  simp only [not_or, Bool.not_eq_true] at htux
  have hrtcKeeps (hended : s.rtc ≠ .ended) : ¬ (s.rtcStep blocks input).Stranded := by
    refine rtcStep_not_stranded blocks htux.1 ?_ input
    cases hrtc : s.rtc with
    | testQuit => exact absurd hrtc htest
    | win => exact absurd hrtc hwin
    | ended => exact absurd hrtc hended
    | _ => rfl
  by_cases hrtc : s.rtc.inConMtx = true ∨ s.rtc.inMtx = true
  · refine ⟨.rtc input, hrtcKeeps fun hended ↦ ?_,
      rtcStep_left_of_in blocks (hrtc.imp id Or.inl) input⟩
    rw [hended] at hrtc
    exact hrtc.elim Bool.false_ne_true Bool.false_ne_true
  simp only [not_or, Bool.not_eq_true] at hrtc
  by_cases hkeyboard : s.keyboard.inMtx = true
  · refine ⟨.keyboard (some 96), hkeyboardKeeps, keyboardStep_left ?_ ?_⟩
    · rintro heq
      rw [heq] at hkeyboard
      exact Bool.false_ne_true hkeyboard
    · rintro dir heq
      rw [heq] at hkeyboard
      exact absurd hkeyboard Bool.false_ne_true
  rw [Bool.not_eq_true] at hkeyboard
  have hmtx : s.mtx = none := h.locked.mtx.free fun name ↦ by
    cases name with
    | rtc => exact hrtc.2
    | keyboard => exact hkeyboard
    | tux => exact htux.2
  have hconMtx : s.conMtx = none := h.locked.conMtx.free fun name ↦ by
    cases name with
    | rtc => exact hrtc.1
    | keyboard => rfl
    | tux => exact htux.1
  -- then `keyboard_thread`, `rtc_thread` and `tux_thread`
  by_cases hkeyboardEnded : s.keyboard = .ended
  swap
  · exact ⟨.keyboard (some 96), hkeyboardKeeps, keyboardStep_left hkeyboardEnded fun _ _ ↦ hmtx⟩
  by_cases hrtcEnded : s.rtc = .ended
  swap
  · have hquit : s.quitFlag = true :=
      (h.keyboard hkeyboardEnded).resolve_right fun hwinner ↦ hrtcEnded (h.winner hwinner)
    exact ⟨.rtc input, hrtcKeeps hrtcEnded,
      rtcStep_left blocks hstart hrtcEnded (fun _ ↦ hconMtx) (fun _ ↦ hmtx) fun _ ↦ hquit⟩
  refine ⟨.tux, htuxKeeps, tuxStep_left (fun hended ↦ ?_) (fun _ ↦ hconMtx) (fun hwaiting ↦ ?_)
    (fun _ ↦ hmtx) fun _ ↦ h.rtc hrtcEnded⟩
  · exact hfinished ⟨hrtcEnded, hkeyboardEnded, hended⟩
  · exact hstranded ⟨by rw [hrtcEnded]; rfl, Or.inr (Or.inl hwaiting)⟩

end Progress

/-- In every run, the threads can all come to their end if and only if `tux_thread` is not
stranded. -/
theorem canFinish_iff (blocks : ℕ → Image) (turns : List Turn) :
    (∃ more, (run (step blocks) initial (turns ++ more)).Finished) ↔
      ¬ (run (step blocks) initial turns).Stranded := by
  have hready : (run (step blocks) initial turns).Ready :=
    (everyState_of_invariant (ready_step blocks) ready_initial turns).last
  simp only [run_append]
  constructor
  · rintro ⟨more, -, -, hended⟩ hstranded
    have hstill := (everyState_of_invariant (stranded_step blocks) hstranded more).last
    rcases hstill.2 with hwait | hwaiting | ⟨hlooks, -⟩
    · exact TuxPoint.noConfusion (hended.symm.trans hwait)
    · exact TuxPoint.noConfusion (hended.symm.trans hwaiting)
    · exact TuxPoint.noConfusion (hended.symm.trans hlooks)
  · intro hstranded
    refine exists_run_of_measure (fun s ↦ s.Ready ∧ ¬ s.Stranded) stepsLeft
      (fun s ⟨hready, hstranded⟩ hfinished ↦ ?_) ⟨hready, hstranded⟩
    obtain ⟨turn, hkeeps, hless⟩ := progress blocks hready hstranded hfinished
    exact ⟨turn, ⟨ready_step blocks s turn hready, hkeeps⟩, hless⟩

/-- The player quits at the very beginning, when `tux_thread` has looked at the flags but does not
wait yet. -/
example (blocks : ℕ → Image) (input : RtcInput) :
    (run (step blocks) initial ([.tux, .tux, .tux, .tux, .tux, .tux, .keyboard none,
      .keyboard (some 96), .rtc input, .rtc input, .rtc input, .tux])).Stranded :=
  ⟨rfl, Or.inr (Or.inl rfl)⟩

end Threads

end Sp18.MazeGame
