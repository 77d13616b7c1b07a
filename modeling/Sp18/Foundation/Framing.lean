import Mathlib.Data.List.Basic

/-!
# Frames of three elements in a stream

A receiver that looks for frames in a stream reads the next three elements. If they make a frame
it goes on behind them, otherwise it skips one element. `scan` gives the frames of a stream and the
elements that are left at its end, which are at most two (`length_scan_snd_le`).

A stream may be scanned in pieces: what is left of one piece is put before the next
(`scan_append`). So the frames of a stream depend on the stream only, and a longer stream has more
frames behind those of a shorter one (`scan_prefix`).
-/

set_option autoImplicit false
set_option relaxedAutoImplicit false

namespace Sp18.Foundation

variable {α Frame : Type*} (decode : α → α → α → Option Frame)

/-- The frames of a stream from left to right, and what is left at its end. -/
def scan : List α → List Frame × List α
  | a :: b :: c :: rest =>
    match decode a b c with
    | some frame => (frame :: (scan rest).1, (scan rest).2)
    | none => scan (b :: c :: rest)
  | short => ([], short)

variable {decode}

theorem scan_of_frame {a b c : α} {frame : Frame} (h : decode a b c = some frame) (rest : List α) :
    scan decode (a :: b :: c :: rest) = (frame :: (scan decode rest).1, (scan decode rest).2) := by
  rw [scan, h]

theorem scan_of_no_frame {a b c : α} (h : decode a b c = none) (rest : List α) :
    scan decode (a :: b :: c :: rest) = scan decode (b :: c :: rest) := by
  rw [scan, h]

theorem scan_short {stream : List α} (h : stream.length ≤ 2) :
    scan decode stream = ([], stream) := by
  match stream with
  | [] => rfl
  | [_] => rfl
  | [_, _] => rfl
  | _ :: _ :: _ :: _ => exact absurd h (by simp)

theorem length_scan_snd_le (stream : List α) : (scan decode stream).2.length ≤ 2 := by
  fun_induction scan decode stream with
  | case1 a b c rest frame h ih => exact ih
  | case2 a b c rest h ih => exact ih
  | case3 stream h =>
    match stream with
    | [] => exact Nat.zero_le 2
    | [_] => exact Nat.le_succ 1
    | [_, _] => exact Nat.le_refl 2
    | a :: b :: c :: rest => exact absurd rfl (h a b c rest)

/-- A stream may be scanned in pieces. -/
theorem scan_append (stream more : List α) :
    scan decode (stream ++ more) =
      ((scan decode stream).1 ++ (scan decode ((scan decode stream).2 ++ more)).1,
        (scan decode ((scan decode stream).2 ++ more)).2) := by
  fun_induction scan decode stream with
  | case1 a b c rest frame h ih =>
    rw [List.cons_append, List.cons_append, List.cons_append, scan_of_frame h, ih]
    rfl
  | case2 a b c rest h ih =>
    rw [List.cons_append, List.cons_append, List.cons_append, scan_of_no_frame h]
    exact ih
  | case3 stream h => rfl

theorem scan_append_fst (stream more : List α) :
    (scan decode (stream ++ more)).1 =
      (scan decode stream).1 ++ (scan decode ((scan decode stream).2 ++ more)).1 := by
  rw [scan_append]

theorem scan_append_snd (stream more : List α) :
    (scan decode (stream ++ more)).2 = (scan decode ((scan decode stream).2 ++ more)).2 := by
  rw [scan_append]

/-- The frames of a stream are the first frames of every longer one. -/
theorem scan_prefix {stream longer : List α} (h : stream <+: longer) :
    (scan decode stream).1 <+: (scan decode longer).1 := by
  obtain ⟨more, rfl⟩ := h
  exact ⟨_, (scan_append_fst stream more).symm⟩

end Sp18.Foundation
