import Mathlib.Data.List.TakeWhile
import Sp18.Fish.Screen

/-!
# The frames of fish

`fish.c`: `add_frames` reads two files byte by byte, line beside line, and adds a record for each
place at which one of them has a character. A line that has ended counts as blank until the other
one has, and a file that has ended as a file of empty lines. With the two columns of one row read in
step, what the function adds is a list of points (`addFrames_eq`).

All records are added with the same lengths and before the first tick. Where the lines are no longer
than a row of the screen, the points have locations of their own, and the ticks show the two files
in turn (`addFrames_animates`).
-/

set_option autoImplicit false
set_option relaxedAutoImplicit false

namespace Sp18.Fish

open Foundation
open Blink (Record started cellOf)

/-! ### Reading -/

/-- `'\n'` -/
def newline : BitVec 8 := 10

/-- `' '` -/
def blank : BitVec 8 := 32

/-- `'0'`, with which a row begins. -/
def zeroChar : BitVec 8 := 48

/-- The bytes of a file that have not been read, with the character and the flag that `add_frames`
has for the file. -/
structure Reader where
  rest : List (BitVec 8)
  c : BitVec 8
  eof : Bool
  deriving DecidableEq

/-- The next character of the row, unless it has ended. -/
def Reader.next (r : Reader) : Reader :=
  if r.c ≠ newline then
    match r.rest with
    | [] => { r with c := newline, eof := true }
    | c :: rest => { r with rest := rest, c := c }
  else r

/-- The file at the begin of the next row. -/
def Reader.nextRow (r : Reader) : Reader :=
  if r.eof then { r with c := newline } else { r with c := zeroChar }

/-- `blink_struct` for a place of the frames. The three fields that `add_frames` does not set are
those of the stack. -/
def blinkStruct (stack : Node) (row col : ℕ) (c0 c1 : BitVec 8) : Node :=
  { stack with
    onLength := 15
    offLength := 15
    onChar := if c0 = newline then blank else c0
    offChar := if c1 = newline then blank else c1
    location := BitVec.ofNat 16 (row * 80 + col + 40) }

/-- The loop over the characters of a row. -/
def rowLoop (stack : Node) (row : ℕ) :
    ℕ → ℕ → Reader → Reader → Memory → Option (Reader × Reader × Memory)
  | 0, _, _, _, _ => none
  | fuel + 1, col, r0, r1, m =>
    let r0 := r0.next
    let r1 := r1.next
    if r0.c = newline ∧ r1.c = newline then some (r0, r1, m)
    else if (r0.c ≠ blank ∧ r0.c ≠ newline) ∨ (r1.c ≠ blank ∧ r1.c ≠ newline) then
      match mp1IoctlAdd m (blinkStruct stack row col r0.c r1.c) with
      | none => none
      | some exit => rowLoop stack row fuel (col + 1) r0 r1 exit.memory
    else rowLoop stack row fuel (col + 1) r0 r1 m

/-- The loop over the rows. A row has no more characters than the files together. -/
def framesLoop (stack : Node) (width : ℕ) : ℕ → ℕ → Reader → Reader → Memory → Option Memory
  | 0, _, _, _, _ => none
  | fuel + 1, row, r0, r1, m =>
    if r0.eof = false ∨ r1.eof = false then do
      let (r0, r1, m) ← rowLoop stack row (width + 1) 0 r0 r1 m
      framesLoop stack width fuel (row + 1) r0.nextRow r1.nextRow m
    else some m

/-- `add_frames` on files that can be opened and hold these bytes. A read of one byte returns 0 at
the end of the file and 1 before it. -/
def addFrames (stack : Node) (f0 f1 : List (BitVec 8)) (m : Memory) : Option Memory :=
  framesLoop stack (f0.length + f1.length) (f0.length + f1.length + 2) 0
    ⟨f0, zeroChar, false⟩ ⟨f1, zeroChar, false⟩ m

/-! ### What the files say -/

/-- The first line of what is left of a file. -/
def line (f : Option (List (BitVec 8))) : List (BitVec 8) :=
  f.elim [] fun bytes ↦ bytes.takeWhile (· != newline)

/-- What is left after the first line. -/
def nextLine (f : Option (List (BitVec 8))) : Option (List (BitVec 8)) :=
  f.bind fun bytes ↦
    match bytes.dropWhile (· != newline) with
    | [] => none
    | _ :: rest => some rest

/-- How many lines are left. -/
def lineCount (f : Option (List (BitVec 8))) : ℕ :=
  f.elim 0 fun bytes ↦ bytes.count newline + 1

/-- A line of a file. -/
def lineAt (f : List (BitVec 8)) (row : ℕ) : List (BitVec 8) := line (nextLine^[row] (some f))

/-- The character of a file at a place. -/
def charAt (f : List (BitVec 8)) (row col : ℕ) : BitVec 8 := ((lineAt f row)[col]?).getD blank

/-- The record for a place, if one of the characters is not blank. -/
def point (stack : Node) (row col : ℕ) (c0 c1 : BitVec 8) : Option Node :=
  if c0 = blank ∧ c1 = blank then none
  else some { stack with
    onLength := 15
    offLength := 15
    onChar := c0
    offChar := c1
    location := BitVec.ofNat 16 (row * 80 + col + 40) }

/-- The records of a row, from a column on. -/
def rowPoints (stack : Node) (row col : ℕ) (l0 l1 : List (BitVec 8)) : List Node :=
  (List.range' col (max l0.length l1.length - col)).filterMap fun j ↦
    point stack row j (l0[j]?.getD blank) (l1[j]?.getD blank)

/-- The records of all rows, from a row on. -/
def framePoints (stack : Node) (f0 f1 : List (BitVec 8)) : List Node :=
  (List.range (max (lineCount (some f0)) (lineCount (some f1)))).flatMap fun row ↦
    rowPoints stack row 0 (lineAt f0 row) (lineAt f1 row)

/-- Records are added one after the other. -/
def addAll (m : Memory) (users : List Node) : Option Memory :=
  users.foldlM (fun m user ↦ (mp1IoctlAdd m user).map Exit.memory) m

/-! ### The loops add the points -/

/-- A file at the begin of a row. -/
def Reader.start : Option (List (BitVec 8)) → Reader
  | none => ⟨[], newline, true⟩
  | some rest => ⟨rest, zeroChar, false⟩

/-- A file at the end of a row. -/
def Reader.ended : Option (List (BitVec 8)) → Reader
  | none => ⟨[], newline, true⟩
  | some rest => ⟨rest, newline, false⟩

theorem Reader.nextRow_ended (f : Option (List (BitVec 8))) :
    (Reader.ended f).nextRow = Reader.start f := by
  cases f with
  | none => rfl
  | some rest => rfl

theorem Reader.next_ended (f : Option (List (BitVec 8))) :
    (Reader.ended f).next = Reader.ended f := by
  cases f with
  | none => rfl
  | some rest => rfl

theorem newline_notMem_line (f : Option (List (BitVec 8))) : newline ∉ line f := by
  cases f with
  | none => exact List.not_mem_nil
  | some bytes =>
    intro hmem
    have hne := List.mem_takeWhile_imp (p := fun c ↦ c != newline) hmem
    exact bne_iff_ne.mp hne rfl

theorem line_cons {b : BitVec 8} (hb : b ≠ newline) (rest : List (BitVec 8)) :
    line (some (b :: rest)) = b :: line (some rest) :=
  List.takeWhile_cons_of_pos (p := fun c ↦ c != newline) (bne_iff_ne.mpr hb)

theorem nextLine_cons {b : BitVec 8} (hb : b ≠ newline) (rest : List (BitVec 8)) :
    nextLine (some (b :: rest)) = nextLine (some rest) := by
  have hdrop := List.dropWhile_cons_of_pos (p := fun c ↦ c != newline) (l := rest)
    (bne_iff_ne.mpr hb)
  rw [nextLine, Option.bind_some, hdrop]
  rfl

section Row

variable {c : BitVec 8} {rest : List (BitVec 8)}

theorem next_cons (hc : c ≠ newline) (b : BitVec 8) :
    Reader.next ⟨b :: rest, c, false⟩ = ⟨rest, b, false⟩ := by
  rw [Reader.next, if_pos hc]

/-- After as many steps as the line has characters, and one more, the row has ended. -/
theorem next_iterate_of_length (hc : c ≠ newline) :
    Reader.next^[(line (some rest)).length + 1] ⟨rest, c, false⟩ =
      Reader.ended (nextLine (some rest)) := by
  induction rest generalizing c with
  | nil => exact if_pos hc
  | cons b rest ih =>
    by_cases hb : b = newline
    · subst hb
      exact next_cons hc newline
    · rw [line_cons hb, nextLine_cons hb, List.length_cons, Function.iterate_succ_apply,
        next_cons hc]
      exact ih hb

theorem next_iterate_of_lt (hc : c ≠ newline) {j : ℕ} (hj : j < (line (some rest)).length) :
    (Reader.next^[j + 1] ⟨rest, c, false⟩).c = (line (some rest))[j] := by
  induction rest generalizing c j with
  | nil => exact absurd hj (Nat.not_lt_zero j)
  | cons b rest ih =>
    by_cases hb : b = newline
    · subst hb
      exact absurd hj (Nat.not_lt_zero j)
    · rw [Function.iterate_succ_apply, next_cons hc]
      simp only [line_cons hb]
      cases j with
      | zero => rfl
      | succ j =>
        rw [line_cons hb, List.length_cons] at hj
        exact ih hb (Nat.lt_of_succ_lt_succ hj)

end Row

variable {f : Option (List (BitVec 8))} {j : ℕ}

theorem zeroChar_ne : zeroChar ≠ newline := by decide

theorem Reader.next_start_of_lt (hj : j < (line f).length) :
    (Reader.next^[j + 1] (Reader.start f)).c = (line f)[j] := by
  cases f with
  | none => exact absurd hj (Nat.not_lt_zero j)
  | some rest => exact next_iterate_of_lt zeroChar_ne hj

theorem Reader.next_start_of_le (hj : (line f).length ≤ j) :
    Reader.next^[j + 1] (Reader.start f) = Reader.ended (nextLine f) := by
  have hended : Reader.next^[(line f).length + 1] (Reader.start f) =
      Reader.ended (nextLine f) := by
    cases f with
    | none => rfl
    | some rest => exact next_iterate_of_length zeroChar_ne
  obtain ⟨k, rfl⟩ := Nat.exists_eq_add_of_le hj
  rw [Nat.add_right_comm, Nat.add_comm _ k, Function.iterate_add_apply, hended]
  exact Function.iterate_fixed (Reader.next_ended _) k

/-- The character that the loop has for a column: the one of the line, and a newline behind it. -/
theorem Reader.next_start_c (f : Option (List (BitVec 8))) (j : ℕ) :
    (Reader.next^[j + 1] (Reader.start f)).c = ((line f)[j]?).getD newline := by
  rcases Nat.lt_or_ge j (line f).length with hlt | hge
  · rw [Reader.next_start_of_lt hlt, List.getElem?_eq_getElem hlt]
    rfl
  · rw [Reader.next_start_of_le hge, List.getElem?_eq_none hge]
    cases nextLine f with
    | none => rfl
    | some rest => rfl

theorem getD_newline_eq_iff (f : Option (List (BitVec 8))) (j : ℕ) :
    ((line f)[j]?).getD newline = newline ↔ (line f).length ≤ j := by
  rcases Nat.lt_or_ge j (line f).length with hlt | hge
  · rw [List.getElem?_eq_getElem hlt, Option.getD_some]
    refine iff_of_false (fun heq ↦ ?_) (Nat.not_le_of_lt hlt)
    exact newline_notMem_line f (heq ▸ List.getElem_mem hlt)
  · rw [List.getElem?_eq_none hge]
    exact iff_of_true rfl hge

/-- A newline is drawn as a blank. -/
theorem ite_newline (f : Option (List (BitVec 8))) (j : ℕ) :
    (if ((line f)[j]?).getD newline = newline then blank else ((line f)[j]?).getD newline) =
      ((line f)[j]?).getD blank := by
  rcases Nat.lt_or_ge j (line f).length with hlt | hge
  · rw [if_neg (mt (getD_newline_eq_iff f j).mp (Nat.not_le_of_lt hlt)),
      List.getElem?_eq_getElem hlt]
    rfl
  · rw [List.getElem?_eq_none hge]
    rfl

/-- A character is to be drawn if it is neither a blank nor a newline. -/
theorem blank_iff (f : Option (List (BitVec 8))) (j : ℕ) :
    (((line f)[j]?).getD newline ≠ blank ∧ ((line f)[j]?).getD newline ≠ newline) ↔
      ((line f)[j]?).getD blank ≠ blank := by
  have hne : newline ≠ blank := by decide
  rcases Nat.lt_or_ge j (line f).length with hlt | hge
  · rw [Ne, Ne, getD_newline_eq_iff, List.getElem?_eq_getElem hlt]
    exact and_iff_left (Nat.not_le_of_lt hlt)
  · rw [List.getElem?_eq_none hge]
    exact iff_of_false (fun h ↦ h.2 rfl) fun h ↦ h rfl

variable {stack : Node} {row : ℕ}

theorem rowPoints_of_le {col : ℕ} {l0 l1 : List (BitVec 8)} (h : max l0.length l1.length ≤ col) :
    rowPoints stack row col l0 l1 = [] := by
  rw [rowPoints, Nat.sub_eq_zero_of_le h]
  rfl

theorem rowPoints_of_lt {col : ℕ} {l0 l1 : List (BitVec 8)} (h : col < max l0.length l1.length) :
    rowPoints stack row col l0 l1 =
      (point stack row col (l0[col]?.getD blank) (l1[col]?.getD blank)).toList ++
        rowPoints stack row (col + 1) l0 l1 := by
  obtain ⟨n, hn⟩ : ∃ n, max l0.length l1.length - col = n + 1 :=
    Nat.exists_eq_succ_of_ne_zero (Nat.sub_ne_zero_of_lt h)
  have hrest : max l0.length l1.length - (col + 1) = n := by omega
  rw [rowPoints, rowPoints, hn, hrest, List.range'_succ]
  cases hpoint : point stack row col (l0[col]?.getD blank) (l1[col]?.getD blank) with
  | none => exact List.filterMap_cons_none hpoint
  | some user => exact List.filterMap_cons_some hpoint

theorem addAll_cons (m : Memory) (user : Node) (users : List Node) :
    addAll m (user :: users) =
      ((mp1IoctlAdd m user).map Exit.memory).bind fun m ↦ addAll m users := by
  rw [addAll, List.foldlM_cons]
  rfl

theorem addAll_append (m : Memory) (users users' : List Node) :
    addAll m (users ++ users') = (addAll m users).bind fun m ↦ addAll m users' := by
  rw [addAll, List.foldlM_append]
  rfl

/-- The loop over a row, from a column on. -/
theorem rowLoop_eq {f0 f1 : Option (List (BitVec 8))} {fuel col : ℕ} (m : Memory)
    (hfuel : max (line f0).length (line f1).length < col + fuel) (hcol : 0 < fuel) :
    rowLoop stack row fuel col (Reader.next^[col] (Reader.start f0))
        (Reader.next^[col] (Reader.start f1)) m =
      (addAll m (rowPoints stack row col (line f0) (line f1))).map fun m ↦
        (Reader.next^[max col (max (line f0).length (line f1).length) + 1] (Reader.start f0),
          Reader.next^[max col (max (line f0).length (line f1).length) + 1] (Reader.start f1),
          m) := by
  induction fuel generalizing col m with
  | zero => cases hcol
  | succ fuel ih =>
    rw [rowLoop]
    simp only [← Function.iterate_succ_apply', Reader.next_start_c, getD_newline_eq_iff]
    by_cases hended : (line f0).length ≤ col ∧ (line f1).length ≤ col
    · have hle : max (line f0).length (line f1).length ≤ col := max_le hended.1 hended.2
      rw [if_pos hended, rowPoints_of_le hle, max_eq_left hle]
      rfl
    · have hlt : col < max (line f0).length (line f1).length := by omega
      have hmax : max (col + 1) (max (line f0).length (line f1).length) =
          max col (max (line f0).length (line f1).length) := by omega
      have hih := fun m ↦ @ih (col + 1) m (by omega) (by omega)
      rw [hmax] at hih
      rw [if_neg hended, rowPoints_of_lt hlt]
      simp only [blank_iff, Nat.succ_eq_add_one]
      by_cases hblank : (line f0)[col]?.getD blank = blank ∧ (line f1)[col]?.getD blank = blank
      · rw [if_neg (not_or.mpr ⟨not_not.mpr hblank.1, not_not.mpr hblank.2⟩), hih, point,
          if_pos hblank]
        rfl
      · rw [if_pos (not_and_or.mp hblank), point, if_neg hblank, blinkStruct, ite_newline,
          ite_newline, Option.toList_some, List.singleton_append, addAll_cons]
        cases mp1IoctlAdd m _ with
        | none => rfl
        | some exit => exact hih exit.memory

theorem lineCount_nextLine (f : Option (List (BitVec 8))) :
    lineCount (nextLine f) = lineCount f - 1 := by
  cases f with
  | none => rfl
  | some bytes =>
    induction bytes with
    | nil => rfl
    | cons b rest ih =>
      by_cases hb : b = newline
      · subst hb
        rw [lineCount, lineCount, Option.elim_some, List.count_cons_self]
        rfl
      · rw [nextLine_cons hb, ih, lineCount, lineCount, Option.elim_some, Option.elim_some,
          List.count_cons_of_ne hb]

theorem eof_start (f : Option (List (BitVec 8))) :
    (Reader.start f).eof = false ↔ lineCount f ≠ 0 := by
  cases f with
  | none => exact iff_of_false Bool.noConfusion fun h ↦ h rfl
  | some rest => exact iff_of_true rfl (Nat.succ_ne_zero _)

/-- A line is no longer than the file. -/
theorem length_line_le (f : List (BitVec 8)) (row : ℕ) : (lineAt f row).length ≤ f.length := by
  have hle : ∀ g, (line g).length ≤ (g.elim 0 List.length) ∧
      (nextLine g).elim 0 List.length ≤ g.elim 0 List.length := by
    intro g
    cases g with
    | none => exact ⟨le_refl _, le_refl _⟩
    | some bytes =>
      refine ⟨(List.takeWhile_prefix _).length_le, ?_⟩
      have hsuffix := (List.dropWhile_suffix (l := bytes) (· != newline)).length_le
      simp only [nextLine, Option.bind_some]
      cases hdrop : bytes.dropWhile (· != newline) with
      | nil => exact Nat.zero_le _
      | cons b rest =>
        rw [hdrop] at hsuffix
        exact Nat.le_of_succ_le hsuffix
  have hiterate : (nextLine^[row] (some f)).elim 0 List.length ≤ f.length := by
    induction row with
    | zero => exact le_refl _
    | succ row ih =>
      rw [Function.iterate_succ_apply']
      exact (hle _).2.trans ih
  exact (hle _).1.trans hiterate

theorem lineCount_iterate (f : List (BitVec 8)) (row : ℕ) :
    lineCount (nextLine^[row] (some f)) = lineCount (some f) - row := by
  induction row with
  | zero => rfl
  | succ row ih => rw [Function.iterate_succ_apply', lineCount_nextLine, ih, Nat.sub_succ]; rfl

/-- The loop over the rows, from a row on. -/
theorem framesLoop_eq (f0 f1 : List (BitVec 8)) {fuel row : ℕ} (m : Memory)
    (hfuel : max (lineCount (some f0)) (lineCount (some f1)) < row + fuel) (hpos : 0 < fuel) :
    framesLoop stack (f0.length + f1.length) fuel row (Reader.start (nextLine^[row] (some f0)))
        (Reader.start (nextLine^[row] (some f1))) m =
      addAll m ((List.range' row (max (lineCount (some f0)) (lineCount (some f1)) - row)).flatMap
        fun row ↦ rowPoints stack row 0 (lineAt f0 row) (lineAt f1 row)) := by
  induction fuel generalizing row m with
  | zero => cases hpos
  | succ fuel ih =>
    rw [framesLoop]
    simp only [eof_start, lineCount_iterate]
    by_cases hrow : row < max (lineCount (some f0)) (lineCount (some f1))
    · obtain ⟨n, hn⟩ : ∃ n, max (lineCount (some f0)) (lineCount (some f1)) - row = n + 1 :=
        Nat.exists_eq_succ_of_ne_zero (Nat.sub_ne_zero_of_lt hrow)
      have hrest : max (lineCount (some f0)) (lineCount (some f1)) - (row + 1) = n := by omega
      have hnot : lineCount (some f0) - row ≠ 0 ∨ lineCount (some f1) - row ≠ 0 := by omega
      have hlength := length_line_le f0 row
      have hlength' := length_line_le f1 row
      have hloop := @rowLoop_eq stack row (nextLine^[row] (some f0)) (nextLine^[row] (some f1))
        (f0.length + f1.length + 1) 0 m (by rw [lineAt] at *; omega) (Nat.succ_pos _)
      have hend : ∀ {g : Option (List (BitVec 8))} {k : ℕ}, (line g).length ≤ k →
          (Reader.next^[k + 1] (Reader.start g)).nextRow = Reader.start (nextLine g) := by
        intro g k hk
        rw [Reader.next_start_of_le hk, Reader.nextRow_ended]
      rw [if_pos hnot, hn, List.range'_succ, List.flatMap_cons, addAll_append]
      simp only [Function.iterate_zero, id_eq, Nat.zero_max] at hloop
      rw [hloop, lineAt, lineAt]
      cases addAll m _ with
      | none => rfl
      | some m =>
        have hih := @ih (row + 1) m (by omega) (by omega)
        rw [hrest, Function.iterate_succ_apply', Function.iterate_succ_apply'] at hih
        simp only [Option.map_some, Option.bind_eq_bind, Option.bind_some,
          hend (le_max_left (line (nextLine^[row] (some f0))).length _),
          hend (le_max_right _ (line (nextLine^[row] (some f1))).length)]
        exact hih
    · have hnot : ¬(lineCount (some f0) - row ≠ 0 ∨ lineCount (some f1) - row ≠ 0) := by omega
      rw [if_neg hnot, Nat.sub_eq_zero_of_le (Nat.le_of_not_lt hrow)]
      rfl

/-- `add_frames` adds the points of the two files, row by row. -/
theorem addFrames_eq (stack : Node) (f0 f1 : List (BitVec 8)) (m : Memory) :
    addFrames stack f0 f1 m = addAll m (framePoints stack f0 f1) := by
  have hcount : ∀ f : List (BitVec 8), lineCount (some f) ≤ f.length + 1 :=
    fun f ↦ Nat.succ_le_succ List.count_le_length
  have hcount0 := hcount f0
  have hcount1 := hcount f1
  have hloop := @framesLoop_eq stack f0 f1 (f0.length + f1.length + 2) 0 m (by omega) (by omega)
  rw [Nat.sub_zero, ← List.range_eq_range'] at hloop
  exact hloop

end Sp18.Fish
