import Sp18.Foundation.CInt
import Sp18.Foundation.StepSystem
import Sp18.MazeGame.Maze
import Mathlib.Tactic.IntervalCases

/-!
# The keyboard thread

`keyboard_thread` of `mazegame.c`, which picks the arrow keys out of the bytes of the standard
input. An arrow key sends 27, 91 and a letter. The input does not block, so that the thread also
reads EOF where there is no byte yet, and between two rounds of its loop the other threads change
`flag`.

The state of the thread is that of the last bytes as long as it is not disturbed
(`everyState_inStep_iff`): EOF in the middle of a sequence must not come while `flag` is 0, when it
resets the state, and a byte that does not go on with the sequence must not come while `flag` is not
0, when it does not. Undisturbed, the thread assigns to `next_dir` the directions of the arrow keys
that are read (`everyState_arrows`).
-/

set_option autoImplicit false
set_option relaxedAutoImplicit false

namespace Sp18.MazeGame

open Foundation

/-- `BACKQUOTE` -/
def backquote : ℤ := 96

/-- `UP` -/
def keyUp : ℤ := 65

/-- `DOWN` -/
def keyDown : ℤ := 66

/-- `RIGHT` -/
def keyRight : ℤ := 67

/-- `LEFT` -/
def keyLeft : ℤ := 68

/-- The `switch` of `keyboard_thread`. -/
def keyDir (key : ℤ) : Option Dir :=
  if key = keyUp then some .up
  else if key = keyDown then some .down
  else if key = keyRight then some .right
  else if key = keyLeft then some .left
  else none

/-- One round of the loop of `keyboard_thread`: the state after it, and what is assigned to
`next_dir`. `none` is the way out of the loop. -/
def keyboardRound (key flag state : ℤ) : Option (ℤ × Option Dir) :=
  if key = backquote then none
  else if key = 27 then some (1, none)
  else if key = 91 ∧ state = 1 then some (2, none)
  else if flag = 0 then
    some (0, if key ≥ keyUp ∧ key ≤ keyLeft ∧ state = 2 then keyDir key else none)
  else some (state, none)

/-- What a round finds: the result of `getc`, which is a byte or EOF, and two variables of the other
threads. -/
structure Poll where
  getc : Option UInt8
  flag : ℤ
  winner : ℤ

/-- `key`, a signed character. EOF is -1. -/
def Poll.key (p : Poll) : ℤ :=
  match p.getc with
  | none => -1
  | some byte => i8 byte.toNat

/-- A byte that was read, with `flag` at that time. -/
structure Keystroke where
  byte : UInt8
  flag : ℤ

/-- The thread, with the bytes that it has read and what it has assigned to `next_dir`. -/
structure KeyboardThread where
  running : Bool
  state : ℤ
  quitFlag : ℤ
  stream : List Keystroke
  assigned : List Dir

namespace KeyboardThread

/-- The thread at its start. -/
def start : KeyboardThread := ⟨true, 0, 0, [], []⟩

/-- The next round of the thread. -/
def poll (t : KeyboardThread) (p : Poll) : KeyboardThread :=
  if t.running = true ∧ p.winner = 0 then
    let stream := t.stream ++ (p.getc.map fun byte ↦ ⟨byte, p.flag⟩).toList
    match keyboardRound p.key p.flag t.state with
    | none => { t with running := false, quitFlag := 1, stream := stream }
    | some (state, dir) =>
      { t with state := state, stream := stream, assigned := t.assigned ++ dir.toList }
  else { t with running := false }

end KeyboardThread

/-! ### Arrow keys -/

/-- The direction of the last byte of an arrow key. -/
def arrowDir (letter : UInt8) : Option Dir :=
  match letter.toNat with
  | 65 => some .up
  | 66 => some .down
  | 67 => some .right
  | 68 => some .left
  | _ => none

/-- The directions of the arrow keys among the bytes, each read to its end while `flag` is 0. -/
def arrows : List Keystroke → List Dir
  | a :: b :: c :: rest =>
    (if a.byte = 27 ∧ b.byte = 91 ∧ c.flag = 0 then (arrowDir c.byte).toList else []) ++
      arrows (b :: c :: rest)
  | _ => []

/-- How far an arrow key has come with the last bytes. -/
def arrowState (stream : List Keystroke) : ℤ :=
  match stream.reverse with
  | [] => 0
  | [a] => if a.byte = 27 then 1 else 0
  | b :: a :: _ => if b.byte = 27 then 1 else if b.byte = 91 ∧ a.byte = 27 then 2 else 0

namespace KeyboardThread

/-- The state of the thread is that of the last bytes. -/
def InStep (t : KeyboardThread) : Prop := t.running = true → t.state = arrowState t.stream

/-- In the middle of a sequence there is no EOF while `flag` is 0, and no byte while it is not 0
except for one that begins the sequence again, goes on with it or quits the game. -/
def Undisturbed (t : KeyboardThread) (p : Poll) : Prop :=
  t.running = true → p.winner = 0 → t.state ≠ 0 →
    match p.getc with
    | none => p.flag ≠ 0
    | some byte => p.flag = 0 ∨ byte = 27 ∨ byte = 96 ∨ byte = 91 ∧ t.state = 1

instance (t : KeyboardThread) : ∀ p, Decidable (t.Undisturbed p)
  | ⟨none, flag, winner⟩ =>
    inferInstanceAs (Decidable (t.running = true → winner = 0 → t.state ≠ 0 → flag ≠ 0))
  | ⟨some byte, flag, winner⟩ =>
    inferInstanceAs (Decidable (t.running = true → winner = 0 → t.state ≠ 0 →
      flag = 0 ∨ byte = 27 ∨ byte = 96 ∨ byte = 91 ∧ t.state = 1))

end KeyboardThread

section Stream

variable {a k : Keystroke} {stream : List Keystroke}

theorem arrowState_concat (stream : List Keystroke) (k : Keystroke) : arrowState (stream ++ [k]) =
    if k.byte = 27 then 1 else if k.byte = 91 ∧ arrowState stream = 1 then 2 else 0 := by
  unfold arrowState
  rw [List.reverse_concat]
  cases stream.reverse with
  | nil => simp
  | cons a rest =>
    cases rest with
    | nil => by_cases h : a.byte = 27 <;> simp [h]
    | cons b rest =>
      have hone : (if a.byte = 91 ∧ b.byte = 27 then (2 : ℤ) else 0) ≠ 1 := by
        split_ifs <;> decide
      by_cases h : a.byte = 27 <;> simp [h, hone]

/-- Only the last two bytes count. -/
theorem arrowState_cons (h : 2 ≤ stream.length) : arrowState (a :: stream) = arrowState stream := by
  unfold arrowState
  rw [List.reverse_cons]
  rw [← List.length_reverse] at h
  match stream.reverse, h with
  | b :: c :: rest, _ => rfl

/-- A byte completes an arrow key if it is the letter that the last bytes wait for. -/
theorem arrows_concat (stream : List Keystroke) (k : Keystroke) : arrows (stream ++ [k]) =
    arrows stream ++
      if arrowState stream = 2 ∧ k.flag = 0 then (arrowDir k.byte).toList else [] := by
  induction stream with
  | nil => rfl
  | cons a rest ih =>
    match rest with
    | [] =>
      have hearly : arrowState [a] ≠ 2 := by
        unfold arrowState
        simp only [List.reverse_singleton]
        split_ifs <;> decide
      rw [if_neg fun h ↦ hearly h.1]
      rfl
    | [b] =>
      have hstate : arrowState [a, b] = 2 ↔ a.byte = 27 ∧ b.byte = 91 := by
        rw [show [a, b] = [a] ++ [b] from rfl, arrowState_concat]
        unfold arrowState
        by_cases hb : b.byte = 27 <;> by_cases ha : a.byte = 27 <;> simp [ha, hb]
      simp only [hstate, and_assoc]
      exact List.append_nil _
    | b :: c :: rest =>
      rw [arrowState_cons (by simp)]
      change _ ++ arrows (b :: c :: rest ++ [k]) = _ ++ arrows (b :: c :: rest) ++ _
      rw [ih, List.append_assoc]

end Stream

/-! ### The keys -/

section Keys

variable {byte : UInt8}

/-- Keys that are characters of ASCII are told apart as bytes are. -/
theorem key_eq_iff {c : UInt8} (hc : c.toNat < 128) : i8 byte.toNat = c.toNat ↔ byte = c := by
  have hbyte := byte.toNat_lt
  rw [← UInt8.toNat_inj]
  unfold i8
  omega

theorem key_eq_backquote_iff : i8 byte.toNat = backquote ↔ byte = 96 :=
  key_eq_iff (c := 96) (by decide)

theorem key_eq_escape_iff : i8 byte.toNat = 27 ↔ byte = 27 := key_eq_iff (c := 27) (by decide)

theorem key_eq_bracket_iff : i8 byte.toNat = 91 ↔ byte = 91 := key_eq_iff (c := 91) (by decide)

theorem keyDir_eq (byte : UInt8) :
    (if i8 byte.toNat ≥ keyUp ∧ i8 byte.toNat ≤ keyLeft then keyDir (i8 byte.toNat) else none) =
      arrowDir byte := by
  have hbyte := byte.toNat_lt
  unfold arrowDir
  generalize byte.toNat = n at hbyte ⊢
  by_cases hletter : 65 ≤ n ∧ n ≤ 68
  · obtain ⟨hlow, hhigh⟩ := hletter
    interval_cases n <;> rfl
  · have hkey : ¬(i8 n ≥ keyUp ∧ i8 n ≤ keyLeft) := by
      unfold i8 keyUp keyLeft
      omega
    rw [if_neg hkey]
    split
    all_goals first
      | rfl
      | omega

/-- What a round does with a byte that does not disturb it. -/
theorem keyboardRound_byte {flag state : ℤ} (hquit : byte ≠ 96)
    (hgood : state ≠ 0 → flag = 0 ∨ byte = 27 ∨ byte = 96 ∨ byte = 91 ∧ state = 1) :
    keyboardRound (i8 byte.toNat) flag state =
      some (if byte = 27 then 1 else if byte = 91 ∧ state = 1 then 2 else 0,
        if state = 2 ∧ flag = 0 then arrowDir byte else none) := by
  rw [keyboardRound, if_neg (key_eq_backquote_iff.not.mpr hquit)]
  simp only [key_eq_escape_iff, key_eq_bracket_iff]
  by_cases h27 : byte = 27
  · subst h27
    have hnone : arrowDir 27 = none := rfl
    rw [if_pos rfl, if_pos rfl, hnone, ite_self]
  · rw [if_neg h27, if_neg h27]
    by_cases h91 : byte = 91 ∧ state = 1
    · rw [if_pos h91, if_pos h91, if_neg (by omega)]
    · rw [if_neg h91, if_neg h91]
      by_cases hflag : flag = 0
      · rw [if_pos hflag, ← keyDir_eq]
        simp only [hflag, and_true, ← and_assoc, ite_and]
        split_ifs <;> rfl
      · have hzero : state = 0 := by
          by_contra hstate
          rcases hgood hstate with h | h | h | h
          · exact hflag h
          · exact h27 h
          · exact hquit h
          · exact h91 h
        rw [if_neg hflag, hzero, if_neg (by omega)]

/-- A byte that a round passes over. -/
theorem keyboardRound_pass {flag state : ℤ} (hflag : flag ≠ 0) (hquit : byte ≠ 96)
    (hescape : byte ≠ 27) (hbracket : ¬(byte = 91 ∧ state = 1)) :
    keyboardRound (i8 byte.toNat) flag state = some (state, none) := by
  rw [keyboardRound, if_neg (key_eq_backquote_iff.not.mpr hquit)]
  simp only [key_eq_escape_iff, key_eq_bracket_iff, hescape, hbracket, hflag, if_false]

end Keys

namespace KeyboardThread

variable {t : KeyboardThread} {byte : UInt8} {flag winner : ℤ}

/-! ### Rounds -/

theorem poll_ended {p : Poll} (h : ¬(t.running = true ∧ p.winner = 0)) :
    t.poll p = { t with running := false } := if_neg h

theorem poll_eof (hrunning : t.running = true) (flag : ℤ) :
    t.poll ⟨none, flag, 0⟩ = { t with state := if flag = 0 then 0 else t.state } := by
  have hround : keyboardRound (-1) flag t.state =
      some (if flag = 0 then 0 else t.state, none) := by
    by_cases hflag : flag = 0
    · simp [keyboardRound, backquote, keyUp, hflag]
    · simp [keyboardRound, backquote, hflag]
  simp [poll, Poll.key, hrunning, hround]

theorem poll_quit (hrunning : t.running = true) (flag : ℤ) : t.poll ⟨some 96, flag, 0⟩ =
    { t with running := false, quitFlag := 1, stream := t.stream ++ [⟨96, flag⟩] } := by
  have hround : keyboardRound (i8 (96 : UInt8).toNat) flag t.state = none := rfl
  simp only [poll, Poll.key, hround, hrunning, and_self, if_true]
  rfl

theorem poll_byte (hrunning : t.running = true) {state : ℤ} {dir : Option Dir}
    (hround : keyboardRound (i8 byte.toNat) flag t.state = some (state, dir)) :
    t.poll ⟨some byte, flag, 0⟩ =
      { t with
        state := state
        stream := t.stream ++ [⟨byte, flag⟩]
        assigned := t.assigned ++ dir.toList } := by
  simp only [poll, Poll.key, hround, hrunning, and_self, if_true]
  rfl

/-- The state remains that of the last bytes exactly if the round is not disturbed. -/
theorem inStep_poll_iff (h : t.InStep) (p : Poll) : (t.poll p).InStep ↔ t.Undisturbed p := by
  by_cases hruns : t.running = true ∧ p.winner = 0
  · obtain ⟨getc, flag, winner⟩ := p
    obtain ⟨hrunning, rfl : winner = 0⟩ := hruns
    have hstate := h hrunning
    simp only [Undisturbed, hrunning, true_imp_iff]
    cases getc with
    | none =>
      rw [poll_eof hrunning, InStep, ← hstate]
      by_cases hflag : flag = 0
      · simp [hrunning, hflag, eq_comm]
      · simp [hflag]
    | some byte =>
      by_cases hquit : byte = 96
      · subst hquit
        rw [poll_quit hrunning, InStep]
        simp
      · by_cases hgood : t.state ≠ 0 → flag = 0 ∨ byte = 27 ∨ byte = 96 ∨ byte = 91 ∧ t.state = 1
        · rw [poll_byte hrunning (keyboardRound_byte hquit hgood), InStep]
          refine iff_of_true (fun _ ↦ ?_) hgood
          rw [arrowState_concat, ← hstate]
        · refine iff_of_false (fun hnext ↦ ?_) hgood
          obtain ⟨hmiddle, hbad⟩ := Classical.not_imp.mp hgood
          obtain ⟨hflag, hescape, -, hbracket⟩ := by simpa only [not_or] using hbad
          rw [poll_byte hrunning (keyboardRound_pass hflag hquit hescape hbracket), InStep,
            arrowState_concat, ← hstate, if_neg hescape, if_neg hbracket] at hnext
          exact hmiddle (hnext hrunning)
  · refine iff_of_true ?_ fun hrunning hwinner ↦ absurd ⟨hrunning, hwinner⟩ hruns
    rw [poll_ended hruns]
    exact fun hfalse ↦ absurd hfalse Bool.false_ne_true

/-- An undisturbed round assigns the direction of the arrow key that it completes, if any. -/
theorem poll_assigned {p : Poll} (h : t.InStep) (hassigned : t.assigned = arrows t.stream)
    (hgood : t.Undisturbed p) : (t.poll p).assigned = arrows (t.poll p).stream := by
  by_cases hruns : t.running = true ∧ p.winner = 0
  · obtain ⟨getc, flag, winner⟩ := p
    obtain ⟨hrunning, rfl : winner = 0⟩ := hruns
    cases getc with
    | none =>
      rw [poll_eof hrunning]
      exact hassigned
    | some byte =>
      by_cases hquit : byte = 96
      · subst hquit
        have hnone : arrowDir 96 = none := rfl
        rw [poll_quit hrunning]
        simp only [arrows_concat, hnone, Option.toList_none, ite_self, List.append_nil]
        exact hassigned
      · rw [poll_byte hrunning (keyboardRound_byte hquit (hgood hrunning rfl))]
        simp only [arrows_concat, hassigned, ← h hrunning]
        split_ifs
        · rfl
        · rfl
  · rw [poll_ended hruns]
    exact hassigned

/-- The runs in whose states the thread is in step with its bytes are the undisturbed ones. -/
theorem everyState_inStep_iff (polls : List Poll) :
    EveryState poll InStep start polls ↔ EveryStep poll Undisturbed start polls :=
  everyState_iff_everyStep (fun _ p h ↦ inStep_poll_iff h p) fun _ ↦ rfl

/-- In an undisturbed run, `next_dir` is assigned the direction of each arrow key that is read,
once and in this order, and nothing else. -/
theorem everyState_arrows {polls : List Poll} (h : EveryStep poll Undisturbed start polls) :
    EveryState poll (fun t ↦ t.assigned = arrows t.stream) start polls := by
  have hinv : EveryState poll (fun t ↦ t.InStep ∧ t.assigned = arrows t.stream) start polls :=
    everyState_of_everyStep
      (fun _ p hinv hgood ↦
        ⟨(inStep_poll_iff hinv.1 p).mpr hgood, poll_assigned hinv.1 hinv.2 hgood⟩)
      ⟨fun _ ↦ rfl, rfl⟩ h
  exact hinv.mono fun _ h ↦ h.2

/-- The right arrow key, with a poll without a byte and a button in the middle of it. -/
theorem everyState_arrows_right :
    EveryState poll (fun t ↦ t.assigned = arrows t.stream) start
      [⟨none, 0, 0⟩, ⟨some 27, 0, 0⟩, ⟨none, 1, 0⟩, ⟨some 91, 1, 0⟩, ⟨some 67, 0, 0⟩] :=
  everyState_arrows (by decide)

/-- An arrow key is lost when its bytes do not come at once. -/
theorem arrows_not_always :
    ¬EveryState poll (fun t ↦ t.assigned = arrows t.stream) start
      [⟨some 27, 0, 0⟩, ⟨none, 0, 0⟩, ⟨some 91, 0, 0⟩, ⟨some 65, 0, 0⟩] := by
  decide

/-- A letter of its own is taken for an arrow key behind a byte that came with a button. -/
example : ¬EveryState poll (fun t ↦ t.assigned = arrows t.stream) start
    [⟨some 27, 0, 0⟩, ⟨some 91, 0, 0⟩, ⟨some 32, 1, 0⟩, ⟨some 65, 0, 0⟩] := by
  decide

end KeyboardThread

end Sp18.MazeGame
