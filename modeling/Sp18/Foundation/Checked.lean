import Sp18.Foundation.ByteMemory
import Sp18.Foundation.FuelLoop

/-!
# Checked accesses

A program that checks the index of each access stops with `Stop.outside` at the first one that is
not inside of its array, and with `Stop.noFuel` when one of its loops has run out of fuel. Where it
is `ofOption` of the same program without the checks, all accesses are inside, however far the
program gets with its fuel.

That is shown part by part: of two steps (`bind_eq_ofOption`), and of a loop or a fold from its body
under an invariant (`doWhileChecked_eq`, `foldlM_eq_ok`); and where a fold has succeeded, so has
each of its steps (`foldlM_ok_of_mem`). The loops that move data inside one memory check the address
that they load from and the one that they store to (`copyUpChecked_eq`, `copyDownChecked_eq`).
-/

set_option autoImplicit false
set_option relaxedAutoImplicit false

namespace Sp18.Foundation

universe u

variable {State α β : Type u}

/-- Why a checked program has stopped. -/
inductive Stop where
  | noFuel
  | outside
  deriving DecidableEq

/-- A program without checks stops for want of fuel only. -/
def ofOption : Option α → Except Stop α
  | none => .error .noFuel
  | some a => .ok a

/-- A step that is made if its check succeeds. -/
def check (p : Prop) [Decidable p] (a : α) : Except Stop α :=
  if p then .ok a else .error .outside

/-- A `do ... while` loop that runs at most `fuel` times, with a checked body. -/
def doWhileChecked (body : State → Except Stop (State × Bool)) : ℕ → State → Except Stop State
  | 0, _ => .error .noFuel
  | fuel + 1, s =>
    match body s with
    | .error stop => .error stop
    | .ok (s', true) => doWhileChecked body fuel s'
    | .ok (s', false) => .ok s'

theorem check_of {p : Prop} [Decidable p] (h : p) (a : α) : check p a = .ok a := if_pos h

theorem check_eq_ok_iff {p : Prop} [Decidable p] (a : α) : check p a = .ok a ↔ p := by
  rw [check]
  split_ifs with h
  · exact iff_of_true rfl h
  · exact iff_of_false (fun hfail ↦ by cases hfail) h

/-- Checks that succeed together make the same step. -/
theorem check_congr {p q : Prop} [Decidable p] [Decidable q] (h : p ↔ q) (a : α) :
    check p a = check q a := by
  simp only [check, h]

@[simp] theorem check_bind {p : Prop} [Decidable p] (a : α) (f : α → β) :
    (check p a >>= fun a ↦ .ok (f a)) = check p (f a) := by
  rw [check, check]
  split_ifs <;> rfl

@[simp] theorem ok_bind (a : α) (f : α → Except Stop β) : (Except.ok a >>= f) = f a := rfl

/-- Two steps after one another. -/
theorem bind_eq_ofOption {step : Except Stop α} {step' : Option α} {next : α → Except Stop β}
    {next' : α → Option β} (hstep : step = ofOption step')
    (hnext : ∀ a, step' = some a → next a = ofOption (next' a)) :
    (step >>= next) = ofOption (step' >>= next') := by
  subst hstep
  cases step' with
  | none => rfl
  | some a => exact hnext a rfl

/-- The checks of a loop succeed if those of its body do wherever an invariant holds. -/
theorem doWhileChecked_eq {body : State → Except Stop (State × Bool)}
    {body' : State → Option (State × Bool)} (inv : State → Prop)
    (hkeep : ∀ s s', inv s → body' s = some (s', true) → inv s')
    (hbody : ∀ s, inv s → body s = ofOption (body' s)) {s : State} (hs : inv s) (fuel : ℕ) :
    doWhileChecked body fuel s = ofOption (doWhile body' fuel s) := by
  induction fuel generalizing s with
  | zero => rfl
  | succ fuel ih =>
    rw [doWhileChecked, doWhile, hbody s hs]
    cases hnext : body' s with
    | none => rfl
    | some next =>
      obtain ⟨s', again⟩ := next
      cases again with
      | true => exact ih (hkeep s s' hs hnext)
      | false => rfl

/-- The checks of a fold succeed if those of its steps do wherever an invariant holds. -/
theorem foldlM_eq_ok {step : α → β → Except Stop α} {step' : α → β → α} (inv : α → Prop)
    {l : List β} (hkeep : ∀ a, ∀ b ∈ l, inv a → inv (step' a b))
    (hstep : ∀ a, ∀ b ∈ l, inv a → step a b = .ok (step' a b)) {a : α} (ha : inv a) :
    l.foldlM step a = .ok (l.foldl step' a) := by
  induction l generalizing a with
  | nil => rfl
  | cons b l ih =>
    rw [List.foldlM_cons, hstep a b List.mem_cons_self ha, ok_bind, List.foldl_cons]
    exact ih (fun a b' hb ↦ hkeep a b' (List.mem_cons_of_mem b hb))
      (fun a b' hb ↦ hstep a b' (List.mem_cons_of_mem b hb))
      (hkeep a b List.mem_cons_self ha)

/-- When the checks of a fold succeed, those of each of its steps have. -/
theorem foldlM_ok_of_mem {step : α → β → Except Stop α} {l : List β} {a a' : α}
    (h : l.foldlM step a = .ok a') {b : β} (hb : b ∈ l) : ∃ c c', step c b = .ok c' := by
  induction l generalizing a with
  | nil => cases hb
  | cons head l ih =>
    rw [List.foldlM_cons] at h
    cases hhead : step a head with
    | error stop =>
      rw [hhead] at h
      cases h
    | ok next =>
      rw [hhead, ok_bind] at h
      rcases List.mem_cons.mp hb with rfl | hrest
      · exact ⟨a, next, hhead⟩
      · exact ih h hrest

section Copies

variable {Value : Type u} (inside : ℤ → Prop) [DecidablePred inside]

/-- One round of a loop that moves data, with its two checks. -/
def moveChecked (memory : ℤ → Value) (dst src : ℤ) : Except Stop (ℤ → Value) := do
  let value ← check (inside src) (memory src)
  check (inside dst) (Function.update memory dst value)

/-- `copyUp` with checks -/
def copyUpChecked (dst src : ℤ) (memory : ℤ → Value) : ℕ → Except Stop (ℤ → Value)
  | 0 => return memory
  | count + 1 => do
    let before ← copyUpChecked dst src memory count
    moveChecked inside before (dst + count) (src + count)

/-- `copyDown` with checks -/
def copyDownChecked (dst src : ℤ) : ℕ → (ℤ → Value) → Except Stop (ℤ → Value)
  | 0, memory => return memory
  | count + 1, memory => do
    let memory ← moveChecked inside memory (dst + count) (src + count)
    copyDownChecked dst src count memory

variable {inside} {dst src : ℤ}

theorem moveChecked_of (memory : ℤ → Value) (hsrc : inside src) (hdst : inside dst) :
    moveChecked inside memory dst src = .ok (Function.update memory dst (memory src)) := by
  rw [moveChecked, check_of hsrc, ok_bind, check_of hdst]

theorem copyUpChecked_eq (memory : ℤ → Value) {count : ℕ}
    (h : ∀ i < count, inside (dst + (i : ℕ)) ∧ inside (src + (i : ℕ))) :
    copyUpChecked inside dst src memory count = .ok (copyUp dst src memory count) := by
  induction count with
  | zero => rfl
  | succ count ih =>
    obtain ⟨hdst, hsrc⟩ := h count (Nat.lt_succ_self count)
    rw [copyUpChecked, ih fun i hi ↦ h i (by omega), ok_bind, moveChecked_of _ hsrc hdst]
    rfl

theorem copyDownChecked_eq (memory : ℤ → Value) {count : ℕ}
    (h : ∀ i < count, inside (dst + (i : ℕ)) ∧ inside (src + (i : ℕ))) :
    copyDownChecked inside dst src count memory = .ok (copyDown dst src count memory) := by
  induction count generalizing memory with
  | zero => rfl
  | succ count ih =>
    obtain ⟨hdst, hsrc⟩ := h count (Nat.lt_succ_self count)
    rw [copyDownChecked, moveChecked_of _ hsrc hdst, ok_bind, ih _ fun i hi ↦ h i (by omega)]
    rfl

end Copies

end Sp18.Foundation
