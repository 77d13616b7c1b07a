import Sp18.MazeGame.KeyboardThread
import Sp18.MazeGame.Motion

/-!
# The three threads

`rtc_thread`, `keyboard_thread` and `tux_thread` of `mazegame.c`, which share `next_dir`, `button`,
`pressed`, `flag`, `quit_flag` and `winner` and take turns in any order. A step of a thread is one
access to the shared variables, together with what the thread does on its own until its next access.
A thread that waits for a mutex, or for a signal, stays where it is.

`mtx` protects `next_dir`, and `con_mtx` belongs to the condition `con`, on which `tux_thread` waits
for a button. `pthread_cond_signal` wakes it if it waits; nothing else does.

The drawing of the status and of the window takes no part here, except for the player.
-/

set_option autoImplicit false
set_option relaxedAutoImplicit false

namespace Sp18.MazeGame

open Foundation

/-- The threads. -/
inductive ThreadName where
  | rtc
  | keyboard
  | tux
  deriving DecidableEq

/-- What `rtc_thread` does next. Between `lockMtx` and `unlockMtx` it holds `mtx`; `behind` is the
value that `find_open_directions` leaves unset in `open`. -/
inductive RtcPoint where
  | levels
  | start
  | frames
  | ticks
  | lockCon
  | clearFlag
  | testButton
  | setPressed
  | setFlag
  | testPressed
  | signal
  | unlockCon
  | lockMtx
  | testTurned
  | testBackwards
  | turnBack
  | square
  | testOpen (behind : Bool)
  | takeNext (behind : Bool)
  | depart (behind : Bool)
  | unlockMtx (behind : Bool)
  | unlockWon
  | move
  | redraw
  | lastSignal
  | testQuit
  | win
  | ended
  deriving DecidableEq

/-- What `keyboard_thread` does next, with its variables. -/
inductive KeyboardPoint where
  | testWinner (state : ℤ)
  | read (state : ℤ)
  | testFlag (key state : ℤ)
  | lockMtx (dir : Dir)
  | assign (dir : Dir)
  | unlockMtx
  | ended
  deriving DecidableEq

/-- What `tux_thread` does next. -/
inductive TuxPoint where
  | testQuit
  | testWinner
  | lockCon
  | testPressed
  | testQuitAgain
  | testWinnerAgain
  | wait
  | waiting (woken : Bool)
  | unlockCon
  | lockMtx
  | readButton
  | clearPressed
  | unlockMtx
  | ended
  deriving DecidableEq

/-- The shared variables, those of `rtc_thread`, and where each thread is. -/
structure Threads where
  thread : Thread
  level : ℤ
  ticksLeft : ℕ
  quitFlag : Bool
  winner : Bool
  pressed : Bool
  flag : Bool
  button : UInt8
  mtx : Option ThreadName
  conMtx : Option ThreadName
  rtc : RtcPoint
  keyboard : KeyboardPoint
  tux : TuxPoint

/-- What `rtc_thread` gets from outside: the draws for a maze, the value that it reads from the
RTC, the buttons, and the value that is left unset in `open`. -/
structure RtcInput where
  fuel : ℕ
  tape : Tape
  data : UInt32
  button : UInt8
  behind : Bool

/-- Which thread goes on, and what it gets from outside. -/
inductive Turn where
  | rtc (input : RtcInput)
  | keyboard (getc : Option UInt8)
  | tux

/-- The `switch` of `tux_thread`. -/
def buttonDir (button : UInt8) : Option Dir :=
  if button = 0xEF then some .up
  else if button = 0x7F then some .right
  else if button = 0xDF then some .left
  else if button = 0xBF then some .down
  else none

/-- The array `open`. -/
def Thread.openDirections (t : Thread) (behind : Bool) : Dir → Bool :=
  t.game.maze.findOpenDirections (t.xAfter.tdiv blockDim) (t.yAfter.tdiv blockDim) behind

namespace Threads

/-- The threads have been created. -/
def initial : Threads where
  thread := Thread.initial
  level := 1
  ticksLeft := 0
  quitFlag := false
  winner := false
  pressed := false
  flag := false
  button := 0
  mtx := none
  conMtx := none
  rtc := .levels
  keyboard := .testWinner 0
  tux := .testQuit

/-- `pthread_cond_signal` -/
def signalled (s : Threads) : Threads :=
  match s.tux with
  | .waiting _ => { s with tux := .waiting true }
  | _ => s

section Blocks

variable (blocks : ℕ → Image)

/-- The rest of the start of a level: `prepare_maze_level`, and what follows if it succeeds. Draws
that do not make a maze leave the thread in it. -/
def startLevel (s : Threads) (input : RtcInput) : Threads :=
  match s.thread.game.prepareMazeLevel blocks s.level input.fuel input.tape with
  | none => s
  | some (ret, game) =>
    let thread := { s.thread with game := game }
    if ret ≠ 0 then { s with thread := thread, rtc := .lastSignal }
    else { s with thread := thread.startLevel blocks, rtc := .frames }

/-- A tick with nothing to decide between two squares, or the arrival in a square. -/
def arrive (s : Threads) (input : RtcInput) : Threads :=
  if s.thread.moveCnt = 0 then
    let (game, won) := s.thread.game.unveilAroundPlayer blocks s.thread.xAfter s.thread.yAfter
    { s with
      thread := { s.thread with game := game }
      rtc := if won then .unlockWon else .testOpen input.behind }
  else { s with rtc := .unlockMtx false }

/-- A step of `rtc_thread`. -/
def rtcStep (s : Threads) (input : RtcInput) : Threads :=
  match s.rtc with
  | .levels =>
    { s with rtc := if s.level ≤ maxLevel ∧ s.quitFlag = false then .start else .lastSignal }
  | .start => s.startLevel blocks input
  | .frames =>
    if s.quitFlag = false ∧ s.thread.gotoNextLevel = false then
      { s with ticksLeft := min (input.data.toNat / 256) 8, rtc := .ticks }
    else { s with level := s.level + 1, rtc := .levels }
  | .ticks =>
    match s.ticksLeft with
    | 0 => { s with rtc := .redraw }
    | left + 1 => { s with ticksLeft := left, button := input.button, rtc := .lockCon }
  | .lockCon => if s.conMtx = none then { s with conMtx := some .rtc, rtc := .clearFlag } else s
  | .clearFlag => { s with flag := false, rtc := .testButton }
  | .testButton => { s with rtc := if s.button ≠ 0xFF then .setPressed else .testPressed }
  | .setPressed => { s with pressed := true, rtc := .setFlag }
  | .setFlag => { s with flag := true, rtc := .testPressed }
  | .testPressed => { s with rtc := if s.pressed then .signal else .unlockCon }
  | .signal => { s.signalled with rtc := .unlockCon }
  | .unlockCon => { s with conMtx := none, rtc := .lockMtx }
  | .lockMtx => if s.mtx = none then { s with mtx := some .rtc, rtc := .testTurned } else s
  | .testTurned =>
    { s with rtc := if s.thread.nextDir ≠ s.thread.dir then .testBackwards else .square }
  | .testBackwards =>
    if s.thread.dir.backwards s.thread.nextDir then
      { s with
        thread :=
          { s.thread with
            moveCnt :=
              if s.thread.moveCnt > 0 then blockDim - s.thread.moveCnt else s.thread.moveCnt }
        rtc := .turnBack }
    else { s with rtc := .square }
  | .turnBack => { s with thread := { s.thread with dir := s.thread.nextDir }, rtc := .square }
  | .square => s.arrive blocks input
  | .testOpen behind =>
    { s with
      rtc :=
        if s.thread.openDirections behind s.thread.nextDir then .takeNext behind
        else .depart behind }
  | .takeNext behind =>
    { s with thread := { s.thread with dir := s.thread.nextDir }, rtc := .depart behind }
  | .depart behind =>
    let thread :=
      if s.thread.dir ≠ .stop then
        if !s.thread.openDirections behind s.thread.dir then { s.thread with dir := .stop }
        else { s.thread with moveCnt := blockDim }
      else s.thread
    { s with thread := thread, rtc := .unlockMtx behind }
  | .unlockMtx _ => { s with mtx := none, rtc := .move }
  | .unlockWon =>
    { s with thread := { s.thread with gotoNextLevel := true }, mtx := none, rtc := .redraw }
  | .move => { s with thread := s.thread.move blocks, rtc := .ticks }
  | .redraw =>
    { s with
      thread := if s.thread.needRedraw then s.thread.redraw blocks else s.thread
      rtc := .frames }
  | .lastSignal => { s.signalled with rtc := .testQuit }
  | .testQuit => { s with rtc := if s.quitFlag = false then .win else .ended }
  | .win => { s with winner := true, rtc := .ended }
  | .ended => s

end Blocks

/-- A step of `keyboard_thread`. -/
def keyboardStep (s : Threads) (getc : Option UInt8) : Threads :=
  match s.keyboard with
  | .testWinner state => { s with keyboard := if s.winner = false then .read state else .ended }
  | .read state =>
    let key := Poll.key ⟨getc, 0, 0⟩
    if key = backquote then { s with quitFlag := true, keyboard := .ended }
    else if key = 27 then { s with keyboard := .testWinner 1 }
    else if key = 91 ∧ state = 1 then { s with keyboard := .testWinner 2 }
    else { s with keyboard := .testFlag key state }
  | .testFlag key state =>
    if s.flag = false then
      match if key ≥ keyUp ∧ key ≤ keyLeft ∧ state = 2 then keyDir key else none with
      | some dir => { s with keyboard := .lockMtx dir }
      | none => { s with keyboard := .testWinner 0 }
    else { s with keyboard := .testWinner state }
  | .lockMtx dir =>
    if s.mtx = none then { s with mtx := some .keyboard, keyboard := .assign dir } else s
  | .assign dir => { s with thread := { s.thread with nextDir := dir }, keyboard := .unlockMtx }
  | .unlockMtx => { s with mtx := none, keyboard := .testWinner 0 }
  | .ended => s

/-- A step of `tux_thread`. -/
def tuxStep (s : Threads) : Threads :=
  match s.tux with
  | .testQuit => { s with tux := if s.quitFlag = false then .testWinner else .ended }
  | .testWinner => { s with tux := if s.winner = false then .lockCon else .ended }
  | .lockCon => if s.conMtx = none then { s with conMtx := some .tux, tux := .testPressed } else s
  | .testPressed => { s with tux := if s.pressed then .unlockCon else .testQuitAgain }
  | .testQuitAgain => { s with tux := if s.quitFlag = false then .testWinnerAgain else .unlockCon }
  | .testWinnerAgain => { s with tux := if s.winner = false then .wait else .unlockCon }
  | .wait => { s with conMtx := none, tux := .waiting false }
  | .waiting woken =>
    if woken = true ∧ s.conMtx = none then { s with conMtx := some .tux, tux := .testPressed }
    else s
  | .unlockCon => { s with conMtx := none, tux := .lockMtx }
  | .lockMtx => if s.mtx = none then { s with mtx := some .tux, tux := .readButton } else s
  | .readButton =>
    match buttonDir s.button with
    | some dir => { s with thread := { s.thread with nextDir := dir }, tux := .clearPressed }
    | none => { s with tux := .clearPressed }
  | .clearPressed => { s with pressed := false, tux := .unlockMtx }
  | .unlockMtx => { s with mtx := none, tux := .testQuit }
  | .ended => s

/-- A step of one of the threads. -/
def step (blocks : ℕ → Image) (s : Threads) : Turn → Threads
  | .rtc input => s.rtcStep blocks input
  | .keyboard getc => s.keyboardStep getc
  | .tux => s.tuxStep

end Threads

end Sp18.MazeGame
