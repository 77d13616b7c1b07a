import Sp18.Foundation.Mutex
import Sp18.MazeGame.Picture
import Sp18.MazeGame.Threads

/-!
# Ticks happen at once

A tick reads `next_dir` up to four times, and the other threads assign to it at any time. As all of
this is done inside of `mtx`, a run of the three threads is one in which each tick happens at once:
`emits` says which steps stand for a tick, an assignment, a redrawing or the start of a level, and
`everyRun_atomic` that the thread that does just these things, one after the other, is in the same
state whenever `rtc_thread` is not in the middle of a tick.

The induction goes over the relation `Follows`. While `rtc_thread` holds `mtx`, it compares what the
tick has done so far with the state before the tick, in which nobody else changes anything. The tick
counts as done when `mtx` is unlocked; what is left then does not depend on `next_dir`.
-/

set_option autoImplicit false
set_option relaxedAutoImplicit false

namespace Sp18.MazeGame

open Foundation

/-- `rtc_thread` holds `mtx`. -/
def RtcPoint.inMtx : RtcPoint → Bool
  | .testTurned | .testBackwards | .turnBack | .square | .unlockWon => true
  | .testOpen _ | .takeNext _ | .depart _ | .unlockMtx _ => true
  | _ => false

/-- `keyboard_thread` holds `mtx`. -/
def KeyboardPoint.inMtx : KeyboardPoint → Bool
  | .assign _ | .unlockMtx => true
  | _ => false

/-- `tux_thread` holds `mtx`. -/
def TuxPoint.inMtx : TuxPoint → Bool
  | .readButton | .clearPressed | .unlockMtx => true
  | _ => false

/-- `tux_thread` after a signal. -/
def TuxPoint.woken : TuxPoint → TuxPoint
  | .waiting _ => .waiting true
  | point => point

/-- `rtc_thread` holds `con_mtx`. -/
def RtcPoint.inConMtx : RtcPoint → Bool
  | .clearFlag | .testButton | .setPressed | .setFlag | .testPressed | .signal | .unlockCon => true
  | _ => false

/-- `tux_thread` holds `con_mtx`. -/
def TuxPoint.inConMtx : TuxPoint → Bool
  | .testPressed | .testQuitAgain | .testWinnerAgain | .wait | .unlockCon => true
  | _ => false

theorem TuxPoint.inMtx_woken (point : TuxPoint) : point.woken.inMtx = point.inMtx := by
  cases point <;> rfl

theorem TuxPoint.inConMtx_woken (point : TuxPoint) : point.woken.inConMtx = point.inConMtx := by
  cases point <;> rfl

namespace Threads

/-- Which threads hold `mtx`. -/
def inMtx (s : Threads) : ThreadName → Bool
  | .rtc => s.rtc.inMtx
  | .keyboard => s.keyboard.inMtx
  | .tux => s.tux.inMtx

/-- Which threads hold `con_mtx`. -/
def inConMtx (s : Threads) : ThreadName → Bool
  | .rtc => s.rtc.inConMtx
  | .keyboard => false
  | .tux => s.tux.inConMtx

/-- The mutexes belong to the threads that hold them. -/
structure Locked (s : Threads) : Prop where
  mtx : Guarded s.mtx s.inMtx
  conMtx : Guarded s.conMtx s.inConMtx

/-! ### Mutual exclusion -/

section Locks

variable (blocks : ℕ → Image)

/-- A signal does nothing but wake `tux_thread`. -/
theorem signalled_eq (s : Threads) : s.signalled = { s with tux := s.tux.woken } := by
  unfold signalled
  cases htux : s.tux with
  | waiting woken => rfl
  | _ => exact congrArg (fun point ↦ { s with tux := point }) htux

/-- `rtc_thread` leaves the other threads where they are, but for waking one. -/
theorem rtcStep_others (s : Threads) (input : RtcInput) :
    (s.rtcStep blocks input).keyboard = s.keyboard ∧
      (s.rtcStep blocks input).tux.inMtx = s.tux.inMtx ∧
      (s.rtcStep blocks input).tux.inConMtx = s.tux.inConMtx := by
  unfold rtcStep startLevel arrive
  split <;> (try split) <;> (try split) <;>
    simp [signalled_eq, TuxPoint.inMtx_woken, TuxPoint.inConMtx_woken]

theorem rtcStep_mtx (s : Threads) (input : RtcInput) :
    MutexStep .rtc s.mtx (s.rtcStep blocks input).mtx s.rtc.inMtx
      (s.rtcStep blocks input).rtc.inMtx := by
  unfold rtcStep
  cases hrtc : s.rtc with
  | start =>
    dsimp only [startLevel]
    split
    · exact .keep rfl (by rw [hrtc])
    · split_ifs <;> exact .keep rfl rfl
  | lockMtx =>
    dsimp only
    split_ifs with hfree
    · exact .lock hfree rfl rfl
    · exact .keep rfl (by rw [hrtc])
  | square =>
    dsimp only [arrive]
    split_ifs <;> exact .keep rfl rfl
  | unlockMtx behind => exact .unlock rfl rfl rfl
  | unlockWon => exact .unlock rfl rfl rfl
  | lockCon =>
    dsimp only
    split_ifs
    · exact .keep rfl rfl
    · exact .keep rfl (by rw [hrtc])
  | signal | lastSignal =>
    dsimp only
    rw [signalled_eq]
    exact .keep rfl rfl
  | ended => exact .keep rfl (by rw [hrtc])
  | _ =>
    dsimp only
    (try split) <;> exact .keep rfl rfl

theorem rtcStep_conMtx (s : Threads) (input : RtcInput) :
    MutexStep .rtc s.conMtx (s.rtcStep blocks input).conMtx s.rtc.inConMtx
      (s.rtcStep blocks input).rtc.inConMtx := by
  unfold rtcStep
  cases hrtc : s.rtc with
  | start =>
    dsimp only [startLevel]
    split
    · exact .keep rfl (by rw [hrtc])
    · split_ifs <;> exact .keep rfl rfl
  | lockCon =>
    dsimp only
    split_ifs with hfree
    · exact .lock hfree rfl rfl
    · exact .keep rfl (by rw [hrtc])
  | square =>
    dsimp only [arrive]
    split_ifs <;> exact .keep rfl rfl
  | unlockCon => exact .unlock rfl rfl rfl
  | lockMtx =>
    dsimp only
    split_ifs
    · exact .keep rfl rfl
    · exact .keep rfl (by rw [hrtc])
  | signal | lastSignal =>
    dsimp only
    rw [signalled_eq]
    exact .keep rfl rfl
  | ended => exact .keep rfl (by rw [hrtc])
  | _ =>
    dsimp only
    (try split) <;> exact .keep rfl rfl

theorem keyboardStep_mtx (s : Threads) (getc : Option UInt8) :
    MutexStep .keyboard s.mtx (s.keyboardStep getc).mtx s.keyboard.inMtx
      (s.keyboardStep getc).keyboard.inMtx := by
  unfold keyboardStep
  cases hkeyboard : s.keyboard with
  | testWinner state =>
    dsimp only
    split_ifs <;> exact .keep rfl rfl
  | read state =>
    dsimp only
    split_ifs <;> exact .keep rfl rfl
  | testFlag key state =>
    dsimp only
    split
    · split <;> exact .keep rfl rfl
    · exact .keep rfl rfl
  | lockMtx dir =>
    dsimp only
    split_ifs with hfree
    · exact .lock hfree rfl rfl
    · exact .keep rfl (by rw [hkeyboard])
  | assign dir => exact .keep rfl rfl
  | unlockMtx => exact .unlock rfl rfl rfl
  | ended => exact .keep rfl (by rw [hkeyboard])

theorem tuxStep_mtx (s : Threads) :
    MutexStep .tux s.mtx s.tuxStep.mtx s.tux.inMtx s.tuxStep.tux.inMtx := by
  unfold tuxStep
  cases htux : s.tux with
  | lockMtx =>
    dsimp only
    split_ifs with hfree
    · exact .lock hfree rfl rfl
    · exact .keep rfl (by rw [htux])
  | unlockMtx => exact .unlock rfl rfl rfl
  | lockCon =>
    dsimp only
    split_ifs
    · exact .keep rfl rfl
    · exact .keep rfl (by rw [htux])
  | waiting woken =>
    dsimp only
    split_ifs
    · exact .keep rfl rfl
    · exact .keep rfl (by rw [htux])
  | ended => exact .keep rfl (by rw [htux])
  | _ =>
    dsimp only
    (try split) <;> exact .keep rfl rfl

theorem tuxStep_conMtx (s : Threads) :
    MutexStep .tux s.conMtx s.tuxStep.conMtx s.tux.inConMtx s.tuxStep.tux.inConMtx := by
  unfold tuxStep
  cases htux : s.tux with
  | lockCon =>
    dsimp only
    split_ifs with hfree
    · exact .lock hfree rfl rfl
    · exact .keep rfl (by rw [htux])
  | wait => exact .unlock rfl rfl rfl
  | waiting woken =>
    dsimp only
    split_ifs with hfree
    · exact .lock hfree.2 rfl rfl
    · exact .keep rfl (by rw [htux])
  | unlockCon => exact .unlock rfl rfl rfl
  | lockMtx =>
    dsimp only
    split_ifs
    · exact .keep rfl rfl
    · exact .keep rfl (by rw [htux])
  | ended => exact .keep rfl (by rw [htux])
  | _ =>
    dsimp only
    (try split) <;> exact .keep rfl rfl

theorem keyboardStep_others (s : Threads) (getc : Option UInt8) :
    (s.keyboardStep getc).rtc = s.rtc ∧ (s.keyboardStep getc).tux = s.tux ∧
      (s.keyboardStep getc).conMtx = s.conMtx := by
  unfold keyboardStep
  cases s.keyboard <;> dsimp only <;> (try split_ifs) <;> (try split) <;> exact ⟨rfl, rfl, rfl⟩

theorem tuxStep_others (s : Threads) :
    s.tuxStep.rtc = s.rtc ∧ s.tuxStep.keyboard = s.keyboard := by
  unfold tuxStep
  cases s.tux <;> dsimp only <;> (try split) <;> exact ⟨rfl, rfl⟩

theorem locked_initial : initial.Locked :=
  ⟨fun name ↦ by cases name <;> decide, fun name ↦ by cases name <;> decide⟩

/-- Every step keeps the mutexes with the threads that hold them. -/
theorem locked_step (s : Threads) (turn : Turn) (h : s.Locked) : (s.step blocks turn).Locked := by
  obtain ⟨hmtx, hcon⟩ := h
  cases turn with
  | rtc input =>
    obtain ⟨hkeyboard, htux, htux'⟩ := rtcStep_others blocks s input
    refine ⟨hmtx.step (rtcStep_mtx blocks s input) fun other hother ↦ ?_,
      hcon.step (rtcStep_conMtx blocks s input) fun other hother ↦ ?_⟩
    · cases other with
      | rtc => exact absurd rfl hother
      | keyboard => exact congrArg KeyboardPoint.inMtx hkeyboard
      | tux => exact htux
    · cases other with
      | rtc => exact absurd rfl hother
      | keyboard => rfl
      | tux => exact htux'
  | keyboard getc =>
    obtain ⟨hrtc, htux, hconMtx⟩ := keyboardStep_others s getc
    have hkeep : MutexStep .keyboard s.conMtx (s.keyboardStep getc).conMtx
        (s.inConMtx .keyboard) ((s.keyboardStep getc).inConMtx .keyboard) := .keep hconMtx rfl
    refine ⟨hmtx.step (keyboardStep_mtx s getc) fun other hother ↦ ?_,
      hcon.step hkeep fun other hother ↦ ?_⟩
    · cases other with
      | rtc => exact congrArg RtcPoint.inMtx hrtc
      | keyboard => exact absurd rfl hother
      | tux => exact congrArg TuxPoint.inMtx htux
    · cases other with
      | rtc => exact congrArg RtcPoint.inConMtx hrtc
      | keyboard => rfl
      | tux => exact congrArg TuxPoint.inConMtx htux
  | tux =>
    obtain ⟨hrtc, hkeyboard⟩ := tuxStep_others s
    refine ⟨hmtx.step (tuxStep_mtx s) fun other hother ↦ ?_,
      hcon.step (tuxStep_conMtx s) fun other hother ↦ ?_⟩
    · cases other with
      | rtc => exact congrArg RtcPoint.inMtx hrtc
      | keyboard => exact congrArg KeyboardPoint.inMtx hkeyboard
      | tux => exact absurd rfl hother
    · cases other with
      | rtc => exact congrArg RtcPoint.inConMtx hrtc
      | keyboard => rfl
      | tux => exact absurd rfl hother

end Locks

end Threads

/-! ### What the steps stand for -/

/-- What happens to a thread that does one thing after the other. -/
inductive GameEvent where
  | prepared (ret : ℤ) (game : Game)
  | event (event : Thread.Event)

/-- What happens in a level. -/
def GameEvent.inLevel : GameEvent → Option Thread.Event
  | .prepared _ _ => none
  | .event change => some change

namespace Thread

section Ticks

variable (blocks : ℕ → Image)

/-- A thread that does one thing after the other. -/
def gameStep (t : Thread) : GameEvent → Thread
  | .prepared ret game =>
    if ret ≠ 0 then { t with game := game } else startLevel blocks { t with game := game }
  | .event event => t.step blocks event

/-- The thread `a` in a tick that has begun in state `t`, after the player has come to a square. -/
structure Arrived (t a : Thread) : Prop where
  moveCnt : t.turnBack.moveCnt = 0
  won : (t.turnBack.game.unveilAroundPlayer blocks t.turnBack.xAfter t.turnBack.yAfter).2 = false
  eq : a = { t.turnBack with
    game := (t.turnBack.game.unveilAroundPlayer blocks t.turnBack.xAfter t.turnBack.yAfter).1 }

variable {blocks} {t a : Thread}

theorem turnBack_of_eq (h : t.nextDir = t.dir) : t.turnBack = t := by
  rw [turnBack, if_neg (not_not.mpr h)]

theorem turnBack_of_forwards (h : t.dir.backwards t.nextDir = false) : t.turnBack = t := by
  rw [turnBack, h]
  exact ite_self t

theorem turnBack_of_backwards (h : t.dir.backwards t.nextDir = true) : t.turnBack =
    { t with
      moveCnt := if t.moveCnt > 0 then blockDim - t.moveCnt else t.moveCnt
      dir := t.nextDir } := by
  have hne : t.nextDir ≠ t.dir := by
    intro heq
    rw [heq] at h
    revert h
    cases t.dir <;> decide
  rw [turnBack, if_pos hne, if_pos h]

theorem move_gotoNextLevel (t : Thread) : (t.move blocks).gotoNextLevel = t.gotoNextLevel := by
  unfold move
  split_ifs <;> rfl

/-- The move at the end of a tick does not look at `next_dir`. -/
theorem move_turn (t : Thread) (dir : Dir) :
    move blocks { t with nextDir := dir } = { t.move blocks with nextDir := dir } := by
  unfold move
  split_ifs <;> rfl

/-- A tick between two squares. -/
theorem tick_of_between (hrunning : t.gotoNextLevel = false) (hcnt : t.turnBack.moveCnt ≠ 0)
    (behind : Bool) : t.tick blocks behind = t.turnBack.move blocks := by
  rw [tick, hrunning, if_neg (by decide)]
  dsimp only
  rw [if_neg hcnt]

/-- A tick that wins the level. -/
theorem tick_of_won (hrunning : t.gotoNextLevel = false) (hcnt : t.turnBack.moveCnt = 0)
    (hwon :
      (t.turnBack.game.unveilAroundPlayer blocks t.turnBack.xAfter t.turnBack.yAfter).2 = true)
    (behind : Bool) : t.tick blocks behind = { t.turnBack with
      game := (t.turnBack.game.unveilAroundPlayer blocks t.turnBack.xAfter t.turnBack.yAfter).1
      gotoNextLevel := true } := by
  rw [tick, hrunning, if_neg (by decide)]
  dsimp only
  rw [if_pos hcnt, if_pos hwon]

/-- A tick that leaves a square. -/
theorem tick_of_arrived (hrunning : t.gotoNextLevel = false) (h : Arrived blocks t a)
    (behind : Bool) : t.tick blocks behind = (a.chooseDir behind).move blocks := by
  obtain ⟨hcnt, hwon, rfl⟩ := h
  rw [tick, hrunning, if_neg (by decide)]
  dsimp only
  rw [if_pos hcnt, hwon, if_neg (by decide)]

end Ticks

end Thread

/-- `rtc_thread` is in the loop over the ticks of a frame. -/
def RtcPoint.inTicks : RtcPoint → Bool
  | .ticks | .lockCon | .clearFlag | .testButton | .setPressed | .setFlag | .testPressed => true
  | .signal | .unlockCon | .lockMtx | .testTurned | .testBackwards | .turnBack | .square => true
  | .testOpen _ | .takeNext _ | .depart _ | .unlockMtx _ | .unlockWon | .move => true
  | _ => false

/-- `rtc_thread` is in the loop over the frames of a level. -/
def RtcPoint.inLevel : RtcPoint → Bool
  | .frames | .redraw => true
  | point => point.inTicks

namespace Threads

section Steps

variable (blocks : ℕ → Image)

/-- What a step stands for. A tick counts as done when `mtx` is unlocked. -/
def emits (s : Threads) : Turn → List GameEvent
  | .rtc input =>
    match s.rtc with
    | .start =>
      match s.thread.game.prepareMazeLevel blocks s.level input.fuel input.tape with
      | some (ret, game) => [.prepared ret game]
      | none => []
    | .unlockMtx behind => [.event (.tick behind)]
    | .unlockWon => [.event (.tick false)]
    | .redraw => if s.thread.needRedraw then [.event .redraw] else []
    | _ => []
  | .keyboard _ =>
    match s.keyboard with
    | .assign dir => [.event (.turn dir)]
    | _ => []
  | .tux =>
    match s.tux, buttonDir s.button with
    | .readButton, some dir => [.event (.turn dir)]
    | _, _ => []

/-- How far `rtc_thread` is with what counts as one event, of which `t` is the state before it; the
move of a tick that counts as done is still to come. -/
def DoneSoFar (s : Threads) (t : Thread) : Prop :=
  match s.rtc with
  | .turnBack => t.dir.backwards t.nextDir = true ∧ s.thread = { t with
      moveCnt := if t.moveCnt > 0 then blockDim - t.moveCnt else t.moveCnt }
  | .square => s.thread = t.turnBack
  | .testOpen _ => t.Arrived blocks s.thread
  | .takeNext behind =>
    t.Arrived blocks s.thread ∧ s.thread.openDirections behind s.thread.nextDir = true
  | .depart behind => ∃ a, t.Arrived blocks a ∧ s.thread =
      { a with dir := if a.openDirections behind a.nextDir then a.nextDir else a.dir }
  | .unlockMtx behind => t.tick blocks behind = s.thread.move blocks
  | .unlockWon => t.tick blocks false = { s.thread with gotoNextLevel := true }
  | .move => t = s.thread.move blocks
  | _ => s.thread = t

/-- The thread `t` does at once what the threads do step by step. -/
structure Follows (s : Threads) (t : Thread) : Prop where
  locked : s.Locked
  doneSoFar : s.DoneSoFar blocks t
  running : s.rtc.inTicks = true → s.thread.gotoNextLevel = false ∧ t.gotoNextLevel = false
  safe : s.rtc.inLevel = true → t.Safe

end Steps

section Runs

variable {blocks : ℕ → Image} {s : Threads} {t : Thread}

theorem rtcStep_doneSoFar (h : s.Follows blocks t) (input : RtcInput) :
    (s.rtcStep blocks input).DoneSoFar blocks
      (run (Thread.gameStep blocks) t (s.emits blocks (.rtc input))) := by
  have hdone := h.doneSoFar
  have hrunning := h.running
  unfold emits rtcStep
  unfold DoneSoFar at hdone
  cases hrtc : s.rtc with
  | start =>
    rw [hrtc] at hdone
    subst hdone
    dsimp only [startLevel]
    cases hprepared : s.thread.game.prepareMazeLevel blocks s.level input.fuel input.tape with
    | none =>
      dsimp only
      rw [DoneSoFar, hrtc]
      rfl
    | some prepared =>
      obtain ⟨ret, game⟩ := prepared
      dsimp only [run, Thread.gameStep]
      split_ifs <;> rfl
  | testTurned =>
    rw [hrtc] at hdone
    dsimp only at hdone ⊢
    subst hdone
    by_cases hturned : s.thread.nextDir = s.thread.dir
    · rw [if_neg (not_not.mpr hturned)]
      exact (Thread.turnBack_of_eq hturned).symm
    · rw [if_pos hturned]
      rfl
  | testBackwards =>
    rw [hrtc] at hdone
    dsimp only at hdone ⊢
    subst hdone
    by_cases hback : s.thread.dir.backwards s.thread.nextDir = true
    · rw [if_pos hback]
      exact ⟨hback, rfl⟩
    · rw [if_neg hback]
      exact (Thread.turnBack_of_forwards (Bool.eq_false_iff.mpr hback)).symm
  | turnBack =>
    rw [hrtc] at hdone
    obtain ⟨hback, hthread⟩ := hdone
    change { s.thread with dir := s.thread.nextDir } = t.turnBack
    rw [Thread.turnBack_of_backwards hback, hthread]
  | square =>
    rw [hrtc] at hdone hrunning
    dsimp only [arrive] at hdone ⊢
    obtain ⟨-, hgoto⟩ := hrunning rfl
    by_cases hcnt : s.thread.moveCnt = 0
    · rw [if_pos hcnt]
      rw [hdone] at hcnt ⊢
      cases hwon : (t.turnBack.game.unveilAroundPlayer blocks t.turnBack.xAfter
        t.turnBack.yAfter).2 with
      | false => exact ⟨hcnt, hwon, rfl⟩
      | true => exact Thread.tick_of_won hgoto hcnt hwon false
    · rw [if_neg hcnt]
      rw [hdone] at hcnt
      change t.tick blocks false = s.thread.move blocks
      rw [hdone, Thread.tick_of_between hgoto hcnt]
  | testOpen behind =>
    rw [hrtc] at hdone
    dsimp only at hdone ⊢
    by_cases hopen : s.thread.openDirections behind s.thread.nextDir = true
    · rw [if_pos hopen]
      exact ⟨hdone, hopen⟩
    · rw [if_neg hopen]
      refine ⟨s.thread, hdone, ?_⟩
      dsimp only
      rw [if_neg hopen]
  | takeNext behind =>
    rw [hrtc] at hdone
    obtain ⟨harrived, hopen⟩ := hdone
    refine ⟨s.thread, harrived, ?_⟩
    dsimp only
    rw [if_pos hopen]
  | depart behind =>
    rw [hrtc] at hdone hrunning
    obtain ⟨a, harrived, hthread⟩ := hdone
    obtain ⟨-, hgoto⟩ := hrunning rfl
    change t.tick blocks behind = Thread.move blocks (if s.thread.dir ≠ .stop then _ else _)
    rw [Thread.tick_of_arrived hgoto harrived, hthread]
    rfl
  | unlockMtx behind =>
    rw [hrtc] at hdone
    exact hdone
  | unlockWon | move =>
    rw [hrtc] at hdone
    exact hdone.symm
  | redraw =>
    rw [hrtc] at hdone
    dsimp only at hdone ⊢
    subst hdone
    split_ifs <;> rfl
  | signal | lastSignal =>
    rw [hrtc] at hdone
    dsimp only
    rw [signalled_eq]
    exact hdone
  | _ =>
    rw [hrtc] at hdone
    dsimp only [run] at hdone ⊢
    (try split) <;> first | exact hdone | (rw [DoneSoFar, hrtc]; exact hdone)

theorem rtcStep_safe (h : s.Follows blocks t) (input : RtcInput)
    (hlevel : (s.rtcStep blocks input).rtc.inLevel = true) :
    (run (Thread.gameStep blocks) t (s.emits blocks (.rtc input))).Safe := by
  have hdone := h.doneSoFar
  have hsafe := h.safe
  revert hlevel
  unfold emits rtcStep
  unfold DoneSoFar at hdone
  cases hrtc : s.rtc with
  | start =>
    rw [hrtc] at hdone
    subst hdone
    dsimp only [startLevel]
    cases hprepared : s.thread.game.prepareMazeLevel blocks s.level input.fuel input.tape with
    | none =>
      intro hlevel
      dsimp only at hlevel
      rw [hrtc] at hlevel
      exact absurd hlevel Bool.false_ne_true
    | some prepared =>
      obtain ⟨ret, game⟩ := prepared
      dsimp only [run, Thread.gameStep]
      by_cases hret : ret = 0
      · subst hret
        intro _
        rw [if_neg (not_not.mpr rfl)]
        exact Thread.startLevel_safe blocks (Game.prepareMazeLevel_shows hprepared).1
      · rw [if_pos hret]
        intro hlevel
        exact absurd hlevel Bool.false_ne_true
  | levels | testQuit =>
    dsimp only
    intro hlevel
    split_ifs at hlevel <;> exact absurd hlevel Bool.false_ne_true
  | lastSignal | win => exact fun hlevel ↦ absurd hlevel Bool.false_ne_true
  | ended => exact fun hlevel ↦ hsafe hlevel
  | unlockMtx behind =>
    exact fun _ ↦ Thread.step_safe blocks t (.tick behind) (hsafe (by rw [hrtc]; rfl))
  | unlockWon =>
    exact fun _ ↦ Thread.step_safe blocks t (.tick false) (hsafe (by rw [hrtc]; rfl))
  | redraw =>
    intro _
    have hbefore := hsafe (by rw [hrtc]; rfl)
    dsimp only
    split_ifs
    · exact Thread.step_safe blocks t .redraw hbefore
    · exact hbefore
  | _ => exact fun _ ↦ hsafe (by rw [hrtc]; rfl)

theorem rtcStep_running (h : s.Follows blocks t) (input : RtcInput)
    (hticks : (s.rtcStep blocks input).rtc.inTicks = true) :
    (s.rtcStep blocks input).thread.gotoNextLevel = false ∧
      (run (Thread.gameStep blocks) t (s.emits blocks (.rtc input))).gotoNextLevel = false := by
  have hdone := h.doneSoFar
  have hrunning := h.running
  revert hticks
  unfold emits rtcStep
  unfold DoneSoFar at hdone
  cases hrtc : s.rtc with
  | start =>
    dsimp only [startLevel]
    split
    · intro hticks
      rw [hrtc] at hticks
      exact absurd hticks Bool.false_ne_true
    · split_ifs <;> exact fun hticks ↦ absurd hticks Bool.false_ne_true
  | frames =>
    rw [hrtc] at hdone
    dsimp only at hdone ⊢
    subst hdone
    split_ifs with hframe
    · exact fun _ ↦ ⟨hframe.2, hframe.2⟩
    · exact fun hticks ↦ absurd hticks Bool.false_ne_true
  | levels | testQuit =>
    dsimp only
    intro hticks
    split_ifs at hticks <;> exact absurd hticks Bool.false_ne_true
  | unlockMtx behind =>
    rw [hrtc] at hdone
    obtain ⟨hthread, -⟩ := hrunning (by rw [hrtc]; rfl)
    refine fun _ ↦ ⟨hthread, ?_⟩
    change (t.tick blocks behind).gotoNextLevel = false
    rw [hdone, Thread.move_gotoNextLevel, hthread]
  | unlockWon | redraw | lastSignal | win =>
    exact fun hticks ↦ absurd hticks Bool.false_ne_true
  | ended => exact fun hticks ↦ hrunning hticks
  | move =>
    obtain ⟨hthread, hgoto⟩ := hrunning (by rw [hrtc]; rfl)
    exact fun _ ↦ ⟨(Thread.move_gotoNextLevel _).trans hthread, hgoto⟩
  | square =>
    have hbefore := hrunning (by rw [hrtc]; rfl)
    dsimp only [arrive]
    split_ifs <;> exact fun _ ↦ hbefore
  | depart behind =>
    have hbefore := hrunning (by rw [hrtc]; rfl)
    dsimp only
    split_ifs <;> exact fun _ ↦ hbefore
  | signal =>
    have hbefore := hrunning (by rw [hrtc]; rfl)
    refine fun _ ↦ ⟨?_, hbefore.2⟩
    dsimp only
    rw [signalled_eq]
    exact hbefore.1
  | testBackwards =>
    have hbefore := hrunning (by rw [hrtc]; rfl)
    dsimp only
    by_cases hback : s.thread.dir.backwards s.thread.nextDir = true
    · rw [if_pos hback]
      exact fun _ ↦ hbefore
    · rw [if_neg hback]
      exact fun _ ↦ hbefore
  | _ =>
    intro _
    have hbefore := hrunning (by rw [hrtc]; rfl)
    dsimp only
    (try split) <;> exact hbefore

/-- How far `rtc_thread` is depends on nothing that the other threads change. -/
theorem DoneSoFar.congr {s' : Threads} (h : s.DoneSoFar blocks t) (hrtc : s'.rtc = s.rtc)
    (hthread : s'.thread = s.thread) : s'.DoneSoFar blocks t := by
  unfold DoneSoFar at *
  rw [hrtc, hthread]
  exact h

/-- Outside of `mtx`, the other threads may assign to `next_dir`. -/
theorem DoneSoFar.turn {s' : Threads} (h : s.DoneSoFar blocks t) (hout : s.rtc.inMtx = false)
    (dir : Dir) (hrtc : s'.rtc = s.rtc) (hthread : s'.thread = { s.thread with nextDir := dir }) :
    s'.DoneSoFar blocks { t with nextDir := dir } := by
  unfold DoneSoFar at *
  rw [hrtc, hthread]
  revert h hout
  cases s.rtc with
  | move =>
    rintro rfl -
    exact (Thread.move_turn s.thread dir).symm
  | testTurned | testBackwards | turnBack | square | unlockWon =>
    exact fun _ hin ↦ absurd hin.symm Bool.false_ne_true
  | testOpen behind | takeNext behind | depart behind | unlockMtx behind =>
    exact fun _ hin ↦ absurd hin.symm Bool.false_ne_true
  | _ =>
    rintro rfl -
    rfl

/-- A step of another thread that leaves the variables of `rtc_thread` alone. -/
theorem Follows.keep {s' : Threads} (h : s.Follows blocks t) (hlocked : s'.Locked)
    (hrtc : s'.rtc = s.rtc) (hthread : s'.thread = s.thread) : s'.Follows blocks t where
  locked := hlocked
  doneSoFar := h.doneSoFar.congr hrtc hthread
  running hticks := by
    rw [hrtc] at hticks
    rw [hthread]
    exact h.running hticks
  safe hlevel := h.safe (hrtc ▸ hlevel)

/-- A step of another thread that assigns to `next_dir`. -/
theorem Follows.turn {s' : Threads} (h : s.Follows blocks t) (hlocked : s'.Locked)
    (hout : s.rtc.inMtx = false) (dir : Dir) (hrtc : s'.rtc = s.rtc)
    (hthread : s'.thread = { s.thread with nextDir := dir }) :
    s'.Follows blocks { t with nextDir := dir } where
  locked := hlocked
  doneSoFar := h.doneSoFar.turn hout dir hrtc hthread
  running hticks := by
    rw [hrtc] at hticks
    rw [hthread]
    exact h.running hticks
  safe hlevel := Thread.step_safe blocks t (.turn dir) (h.safe (hrtc ▸ hlevel))

/-- Only one thread holds `mtx`. -/
theorem Locked.rtc_out (h : s.Locked) {name : ThreadName} (hname : name ≠ .rtc)
    (hin : s.inMtx name = true) : s.rtc.inMtx = false := by
  cases hrtc : s.rtc.inMtx with
  | false => rfl
  | true =>
    have hboth : s.inMtx .rtc = true := hrtc
    exact absurd (h.mtx.exclusive hin hboth) hname

theorem keyboardStep_follows (h : s.Follows blocks t) (getc : Option UInt8) :
    (s.keyboardStep getc).Follows blocks
      (run (Thread.gameStep blocks) t (s.emits blocks (.keyboard getc))) := by
  have hlocked : (s.keyboardStep getc).Locked := locked_step blocks s (.keyboard getc) h.locked
  have hrtc := (keyboardStep_others s getc).1
  have hout := fun hin ↦ h.locked.rtc_out (by decide : ThreadName.keyboard ≠ .rtc) hin
  revert hlocked hrtc hout
  unfold emits keyboardStep
  dsimp only [inMtx]
  cases hkeyboard : s.keyboard with
  | assign dir =>
    intro hlocked hrtc hout
    exact h.turn hlocked (hout rfl) dir hrtc rfl
  | _ =>
    intro hlocked hrtc _
    refine h.keep hlocked hrtc ?_
    dsimp only <;> (try split_ifs) <;> (try split) <;> rfl

theorem tuxStep_follows (h : s.Follows blocks t) :
    s.tuxStep.Follows blocks (run (Thread.gameStep blocks) t (s.emits blocks .tux)) := by
  have hlocked : s.tuxStep.Locked := locked_step blocks s .tux h.locked
  have hrtc := (tuxStep_others s).1
  have hout := fun hin ↦ h.locked.rtc_out (by decide : ThreadName.tux ≠ .rtc) hin
  revert hlocked hrtc hout
  unfold emits tuxStep
  dsimp only [inMtx]
  cases htux : s.tux with
  | readButton =>
    intro hlocked hrtc hout
    cases hbutton : buttonDir s.button with
    | none =>
      rw [hbutton] at hlocked hrtc
      exact h.keep hlocked hrtc rfl
    | some dir =>
      rw [hbutton] at hlocked hrtc
      exact h.turn hlocked (hout rfl) dir hrtc rfl
  | _ =>
    intro hlocked hrtc _
    refine h.keep hlocked hrtc ?_
    dsimp only <;> (try split_ifs) <;> rfl

/-- Each step keeps up with the thread that does what it stands for. -/
theorem step_follows (s : Threads) (t : Thread) (turn : Turn) (h : s.Follows blocks t) :
    (s.step blocks turn).Follows blocks
      (run (Thread.gameStep blocks) t (s.emits blocks turn)) := by
  cases turn with
  | rtc input =>
    exact ⟨locked_step blocks s (.rtc input) h.locked, rtcStep_doneSoFar h input,
      rtcStep_running h input, rtcStep_safe h input⟩
  | keyboard getc => exact keyboardStep_follows h getc
  | tux => exact tuxStep_follows h

theorem follows_initial (blocks : ℕ → Image) : initial.Follows blocks Thread.initial where
  locked := locked_initial
  doneSoFar := rfl
  running hticks := absurd hticks Bool.false_ne_true
  safe hlevel := absurd hlevel Bool.false_ne_true

/-- Outside of a tick, what counts as done is all that has been done. -/
theorem DoneSoFar.thread_eq (h : s.DoneSoFar blocks t) (hout : s.rtc.inMtx = false)
    (hmove : s.rtc ≠ .move) : s.thread = t := by
  unfold DoneSoFar at h
  revert h hout hmove
  cases s.rtc with
  | move => exact fun _ _ hmove ↦ absurd rfl hmove
  | turnBack | square | unlockWon => exact fun _ hin ↦ absurd hin.symm Bool.false_ne_true
  | testOpen behind | takeNext behind | depart behind | unlockMtx behind =>
    exact fun _ hin ↦ absurd hin.symm Bool.false_ne_true
  | _ => exact fun hthread _ _ ↦ hthread

/-- However the three threads take turns, the ticks happen at once: whenever `rtc_thread` is not in
the middle of one, the game is as if each tick, each assignment of another thread to `next_dir`,
each redrawing and each start of a level had been done on its own, in the order of the steps that
stand for them. In a level the player is then on an open square or on the way from one to the next.
-/
theorem everyRun_atomic (turns : List Turn)
    (hout : (run (step blocks) initial turns).rtc.inMtx = false)
    (hmove : (run (step blocks) initial turns).rtc ≠ .move) :
    (run (step blocks) initial turns).thread = run (Thread.gameStep blocks) Thread.initial
        (emitted (step blocks) (emits blocks) initial turns) ∧
      ((run (step blocks) initial turns).rtc.inLevel = true →
        (run (step blocks) initial turns).thread.Motion) := by
  have hfollows := rel_run_emitted step_follows (follows_initial blocks) turns
  have hthread := hfollows.doneSoFar.thread_eq hout hmove
  exact ⟨hthread, fun hlevel ↦ hthread ▸ (hfollows.safe hlevel).motion⟩

/-- Turns of `rtc_thread`, with draws of a single worm, one tick to each frame and no button. -/
def rtcTurns (n : ℕ) : List Turn := List.replicate n (.rtc ⟨300, Maze.wormTape, 256, 0xFF, false⟩)

/-- Turns of `keyboard_thread` in which it reads an arrow key; next it locks `mtx`. -/
def arrowTurns (key : UInt8) : List Turn :=
  [none, some 27, none, some 91, none, some key, none].map .keyboard

/-- The three turns in which `keyboard_thread` locks `mtx`, assigns to `next_dir` and unlocks it. -/
def assignTurns : List Turn := List.replicate 3 (.keyboard none)

/-- The player presses the right arrow key at the start of the first level, and the left one in the
middle of the tick that follows. `keyboard_thread` waits for `mtx` in vain; it gets it before the
move of the tick. -/
def leftInTick : List Turn :=
  rtcTurns 2 ++ arrowTurns 67 ++ assignTurns ++ rtcTurns 8 ++ arrowTurns 68 ++ rtcTurns 2 ++
    [.keyboard none] ++ rtcTurns 5 ++ assignTurns ++ rtcTurns 1

/-- The tick goes to the right, as if the left arrow key had been pressed after it. -/
theorem everyRun_atomic_leftInTick :
    (emitted (step Player.plainBlocks) (emits Player.plainBlocks) initial leftInTick).filterMap
        GameEvent.inLevel = [.turn .right, .tick false, .turn .left] ∧
      (run (step Player.plainBlocks) initial leftInTick).thread =
        run (Thread.gameStep Player.plainBlocks) Thread.initial
          (emitted (step Player.plainBlocks) (emits Player.plainBlocks) initial leftInTick) ∧
      (run (step Player.plainBlocks) initial leftInTick).thread.Motion := by
  have hrun : ((run (step Player.plainBlocks) initial leftInTick).rtc,
      (emitted (step Player.plainBlocks) (emits Player.plainBlocks) initial leftInTick).filterMap
        GameEvent.inLevel) = (.ticks, [.turn .right, .tick false, .turn .left]) := by
    decide +kernel
  obtain ⟨hticks, hevents⟩ := Prod.mk.inj hrun
  obtain ⟨hthread, hmotion⟩ := everyRun_atomic leftInTick
    (by rw [hticks]; rfl) (by rw [hticks]; decide)
  exact ⟨hevents, hthread, hmotion (by rw [hticks]; rfl)⟩

end Runs

end Threads

end Sp18.MazeGame
