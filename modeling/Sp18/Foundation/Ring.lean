import Mathlib.Logic.Function.Basic
import Mathlib.Data.List.Basic

/-!
# Ring buffers

A ring of `size` cells between the index `start`, where elements are taken, and the index `stop`,
where they are stored. It is empty if the two are equal and full if one more element would make
them equal, so that it holds `size - 1` elements at most.

`contents` lists what a ring holds, first in first. An element that is stored comes last
(`contents_push`) and the element that is taken is the first (`contents_eq_cons`). `fill` stores
elements while there is room and `drain` takes elements while there are any: none is lost or
reordered on the way (`contents_fill`, `drain_append_contents`). In terms of lists, they are `take`
and `drop` (`fill_snd`, `drain_snd`).
-/

set_option autoImplicit false
set_option relaxedAutoImplicit false

namespace Sp18.Foundation

/-- A ring buffer. -/
structure Ring (size : ℕ) (α : Type*) where
  buf : Fin size → α
  start : Fin size
  stop : Fin size

namespace Ring

variable {size : ℕ} {α : Type*}

/-- The index after `i`. -/
def next (i : Fin size) : Fin size := ⟨(i.val + 1) % size, Nat.mod_lt _ i.pos⟩

/-- The number of cells from index `i` up to index `j`. -/
def used (i j : Fin size) : ℕ :=
  if i.val ≤ j.val then j.val - i.val else size + j.val - i.val

section Indices

variable {i j : Fin size}

theorem val_next (i : Fin size) : (next i).val = if i.val + 1 = size then 0 else i.val + 1 := by
  have hi := i.isLt
  change (i.val + 1) % size = _
  split_ifs with hlast
  · rw [hlast, Nat.mod_self]
  · exact Nat.mod_eq_of_lt (by omega)

theorem used_lt (i j : Fin size) : used i j < size := by
  have hi := i.isLt
  have hj := j.isLt
  unfold used
  split_ifs <;> omega

theorem used_eq_zero_iff : used i j = 0 ↔ i = j := by
  have hi := i.isLt
  rw [Fin.ext_iff]
  unfold used
  split_ifs <;> omega

/-- One cell fewer from the next index on. -/
theorem used_of_ne (h : i ≠ j) : used i j = used (next i) j + 1 := by
  have hi := i.isLt
  have hj := j.isLt
  rw [ne_eq, Fin.ext_iff] at h
  unfold used
  rw [val_next]
  split_ifs <;> omega

/-- One cell more up to the next index. -/
theorem used_next (h : next j ≠ i) : used i (next j) = used i j + 1 := by
  have hi := i.isLt
  have hj := j.isLt
  rw [ne_eq, Fin.ext_iff, val_next] at h
  unfold used
  rw [val_next]
  split_ifs at h ⊢ <;> omega

theorem used_of_next_eq (h : next j = i) : used i j + 1 = size := by
  have hi := i.isLt
  have hj := j.isLt
  rw [Fin.ext_iff, val_next] at h
  unfold used
  split_ifs at h ⊢ <;> omega

end Indices

/-- The contents of `n` cells from index `i` on. -/
def segment (buf : Fin size → α) (i : Fin size) : ℕ → List α
  | 0 => []
  | n + 1 => buf i :: segment buf (next i) n

theorem length_segment (buf : Fin size → α) (i : Fin size) (n : ℕ) :
    (segment buf i n).length = n := by
  induction n generalizing i with
  | zero => rfl
  | succ n ih => rw [segment, List.length_cons, ih]

/-- The cell at the end of a segment is not in it. -/
theorem segment_update (buf : Fin size → α) (j : Fin size) (a : α) {i : Fin size} {n : ℕ}
    (h : n ≤ used i j) : segment (Function.update buf j a) i n = segment buf i n := by
  induction n generalizing i with
  | zero => rfl
  | succ n ih =>
    have hne : i ≠ j := by
      intro heq
      rw [used_eq_zero_iff.mpr heq] at h
      exact absurd h (Nat.not_succ_le_zero n)
    have hrest : n ≤ used (next i) j := by
      rw [used_of_ne hne] at h
      exact Nat.le_of_succ_le_succ h
    rw [segment, segment, Function.update_of_ne hne, ih hrest]

/-- A segment that is one cell longer. -/
theorem segment_used_succ (buf : Fin size → α) (i j : Fin size) :
    segment buf i (used i j + 1) = segment buf i (used i j) ++ [buf j] := by
  induction hn : used i j generalizing i with
  | zero =>
    rw [used_eq_zero_iff.mp hn]
    rfl
  | succ n ih =>
    have hne : i ≠ j := by
      intro heq
      rw [used_eq_zero_iff.mpr heq] at hn
      exact absurd hn (Nat.zero_ne_add_one n)
    have hrest : used (next i) j = n := by
      rw [used_of_ne hne] at hn
      exact Nat.succ.inj hn
    rw [segment, ih (next i) hrest, segment, List.cons_append]

variable (r : Ring size α)

/-- What the ring holds, in the order in which it was stored. -/
def contents : List α := segment r.buf r.start (used r.start r.stop)

/-- Nothing is stored. -/
def isEmpty : Bool := r.start == r.stop

/-- No cell is left to store into. -/
def isFull : Bool := next r.stop == r.start

/-- The number of elements that can still be stored. -/
def room : ℕ := size - used r.start r.stop - 1

/-- Stores an element. -/
def push (a : α) : Ring size α :=
  { r with buf := Function.update r.buf r.stop a, stop := next r.stop }

/-- The element that is taken next. -/
def front : α := r.buf r.start

/-- Takes an element. -/
def pop : Ring size α := { r with start := next r.start }

/-- Stores elements while there is room, and returns those that are left. -/
def fill (r : Ring size α) : List α → Ring size α × List α
  | [] => (r, [])
  | a :: rest => if r.isFull then (r, a :: rest) else (r.push a).fill rest

/-- Takes elements while there are any, at most `n` of them. -/
def drain (r : Ring size α) : ℕ → Ring size α × List α
  | 0 => (r, [])
  | n + 1 => if r.isEmpty then (r, []) else ((r.pop.drain n).1, r.front :: (r.pop.drain n).2)

variable {r}

theorem length_contents (r : Ring size α) : r.contents.length = used r.start r.stop :=
  length_segment _ _ _

theorem room_of_isFull (h : r.isFull = true) : r.room = 0 := by
  have hfull := used_of_next_eq (beq_iff_eq.mp h)
  unfold room
  omega

theorem used_push (h : r.isFull = false) :
    used r.start (next r.stop) = used r.start r.stop + 1 :=
  used_next (beq_eq_false_iff_ne.mp h)

theorem room_push (h : r.isFull = false) (a : α) : r.room = (r.push a).room + 1 := by
  have hmore := used_push h
  have hlt := used_lt r.start (next r.stop)
  simp only [room, push, hmore] at hlt ⊢
  omega

theorem contents_push (h : r.isFull = false) (a : α) :
    (r.push a).contents = r.contents ++ [a] := by
  calc (r.push a).contents
      = segment (Function.update r.buf r.stop a) r.start (used r.start (next r.stop)) := rfl
    _ = segment (Function.update r.buf r.stop a) r.start (used r.start r.stop + 1) := by
        rw [used_push h]
    _ = segment (Function.update r.buf r.stop a) r.start (used r.start r.stop) ++ [a] := by
        rw [segment_used_succ, Function.update_self]
    _ = r.contents ++ [a] := by rw [segment_update r.buf r.stop a (Nat.le_refl _), contents]

theorem contents_eq_cons (h : r.isEmpty = false) : r.contents = r.front :: r.pop.contents := by
  rw [contents, used_of_ne (beq_eq_false_iff_ne.mp h), segment]
  rfl

/-- What a ring could not store follows what it holds. -/
theorem contents_fill (r : Ring size α) (xs : List α) :
    (r.fill xs).1.contents ++ (r.fill xs).2 = r.contents ++ xs := by
  induction xs generalizing r with
  | nil => rfl
  | cons a rest ih =>
    rw [fill]
    split_ifs with hfull
    · rfl
    · have hroom := Bool.eq_false_iff.mpr hfull
      rw [ih, contents_push hroom, List.append_assoc, List.singleton_append]

/-- What a ring could not store is what comes behind the elements that it has the room for. -/
theorem fill_snd (r : Ring size α) (xs : List α) : (r.fill xs).2 = xs.drop r.room := by
  induction xs generalizing r with
  | nil => exact List.drop_nil.symm
  | cons a rest ih =>
    rw [fill]
    split_ifs with hfull
    · rw [room_of_isFull hfull, List.drop_zero]
    · rw [ih, room_push (Bool.eq_false_iff.mpr hfull) a, List.drop_succ_cons]

/-- A ring stores all of a list exactly if it has the room for it. -/
theorem fill_snd_eq_nil_iff (r : Ring size α) (xs : List α) :
    (r.fill xs).2 = [] ↔ xs.length ≤ r.room := by
  rw [fill_snd, List.drop_eq_nil_iff]

theorem contents_fill_fst (r : Ring size α) (xs : List α) :
    (r.fill xs).1.contents = r.contents ++ xs.take r.room := by
  have hall := contents_fill r xs
  rw [fill_snd] at hall
  refine List.append_cancel_right (hall.trans ?_)
  rw [List.append_assoc, List.take_append_drop]

/-- The elements that are taken are the first ones. -/
theorem drain_snd (r : Ring size α) (n : ℕ) : (r.drain n).2 = r.contents.take n := by
  induction n generalizing r with
  | zero => rfl
  | succ n ih =>
    rw [drain]
    split_ifs with hempty
    · have hnone : r.contents = [] := by
        rw [contents, used_eq_zero_iff.mpr (beq_iff_eq.mp hempty)]
        rfl
      rw [hnone, List.take_nil]
    · rw [contents_eq_cons (Bool.eq_false_iff.mpr hempty), List.take_succ_cons, ← ih]

/-- What a ring holds follows what has been taken from it. -/
theorem drain_append_contents (r : Ring size α) (n : ℕ) :
    (r.drain n).2 ++ (r.drain n).1.contents = r.contents := by
  induction n generalizing r with
  | zero => rfl
  | succ n ih =>
    rw [drain]
    split_ifs with hempty
    · rfl
    · have hsome := Bool.eq_false_iff.mpr hempty
      rw [List.cons_append, ih, contents_eq_cons hsome]

theorem contents_drain_fst (r : Ring size α) (n : ℕ) :
    (r.drain n).1.contents = r.contents.drop n := by
  have hall := drain_append_contents r n
  rw [drain_snd] at hall
  exact List.append_cancel_left (hall.trans (List.take_append_drop n r.contents).symm)

end Ring

end Sp18.Foundation
