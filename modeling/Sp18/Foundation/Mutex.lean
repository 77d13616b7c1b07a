import Mathlib.Logic.Basic
import Mathlib.Tactic.Tauto

/-!
# Mutexes

A mutex has an owner, and each thread is inside or outside of the code that the mutex protects. The
code is `Guarded` if the owner is the thread inside it. A step of a thread may leave the mutex
alone, take it when it is free on the way in, and free it on the way out. Such steps keep the code
guarded (`Guarded.step`), so that never two threads are inside (`Guarded.exclusive`).
-/

set_option autoImplicit false
set_option relaxedAutoImplicit false

namespace Sp18.Foundation

variable {Name : Type*} {owner owner' : Option Name} {inside inside' : Name → Bool}

/-- The mutex belongs to the thread inside. -/
def Guarded (owner : Option Name) (inside : Name → Bool) : Prop :=
  ∀ name, owner = some name ↔ inside name = true

/-- What a step of a thread does to a mutex; `isIn` and `isIn'` say whether the thread is inside
before and after it. -/
inductive MutexStep (name : Name) (owner owner' : Option Name) (isIn isIn' : Bool) : Prop where
  | keep (howner : owner' = owner) (hinside : isIn' = isIn)
  | lock (hfree : owner = none) (howner : owner' = some name) (hinside : isIn' = true)
  | unlock (hheld : isIn = true) (howner : owner' = none) (hinside : isIn' = false)

/-- A step with the mutex keeps the code guarded. -/
theorem Guarded.step {name : Name} (h : Guarded owner inside)
    (hstep : MutexStep name owner owner' (inside name) (inside' name))
    (hothers : ∀ other ≠ name, inside' other = inside other) : Guarded owner' inside' := by
  intro other
  by_cases hname : other = name
  · subst hname
    cases hstep with
    | keep howner hinside =>
      rw [howner, hinside]
      exact h other
    | lock hfree howner hinside => exact iff_of_true howner hinside
    | unlock hheld howner hinside =>
      rw [howner, hinside]
      exact iff_of_false (by simp) (by simp)
  · rw [hothers other hname, ← h other]
    cases hstep with
    | keep howner hinside => rw [howner]
    | lock hfree howner hinside =>
      rw [hfree, howner]
      exact iff_of_false (fun heq ↦ hname (Option.some.inj heq).symm) (by simp)
    | unlock hheld howner hinside =>
      rw [howner, (h name).mpr hheld]
      exact iff_of_false (by simp) fun heq ↦ hname (Option.some.inj heq).symm

/-- Never are two threads inside. -/
theorem Guarded.exclusive (h : Guarded owner inside) {name other : Name}
    (hname : inside name = true) (hother : inside other = true) : name = other := by
  have howner := (h name).mpr hname
  rw [(h other).mpr hother] at howner
  exact (Option.some.inj howner).symm

/-- The mutex is free if no thread is inside. -/
theorem Guarded.free (h : Guarded owner inside) (hnone : ∀ name, inside name = false) :
    owner = none := by
  cases howner : owner with
  | none => rfl
  | some name => exact absurd ((h name).mp howner) (by rw [hnone name]; decide)

end Sp18.Foundation
