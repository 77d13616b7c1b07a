import Mathlib.Logic.Relation
import Mathlib.Data.Nat.Init

/-!
# Loops with fuel and random draws

A loop whose end depends on random numbers need not end. `doWhile body fuel s` runs the body of a
`do ... while` loop from the state `s` on, at most `fuel` times: the body gives the next state and
whether the loop goes on, or nothing if a loop inside it has run out of fuel.

What a body keeps, the loop keeps (`doWhile_invariant`), and the state in which the loop ends is one
in which its body has ended it (`doWhile_last`). A loop whose iterations all end and decrease a
measure ends with some fuel (`doWhile_terminates`), and with more fuel it ends in the same state
(`doWhile_mono`). Random numbers are drawn from a `Tape`.
-/

set_option autoImplicit false
set_option relaxedAutoImplicit false

namespace Sp18.Foundation

variable {State : Type*}

/-- A `do ... while` loop that runs at most `fuel` times. -/
def doWhile (body : State → Option (State × Bool)) : ℕ → State → Option State
  | 0, _ => none
  | fuel + 1, s =>
    match body s with
    | none => none
    | some (s', true) => doWhile body fuel s'
    | some (s', false) => some s'

section Invariant

variable {body : State → Option (State × Bool)} (inv : State → Prop)

/-- A loop ends in a state that its body has ended it in, after iterations that keep the
invariant. -/
theorem doWhile_last (hkeep : ∀ s s', inv s → body s = some (s', true) → inv s') {fuel : ℕ}
    {s s' : State} (hs : inv s) (h : doWhile body fuel s = some s') :
    ∃ last, inv last ∧ body last = some (s', false) := by
  induction fuel generalizing s with
  | zero => cases h
  | succ fuel ih =>
    rw [doWhile] at h
    split at h
    · cases h
    · next next hbody => exact ih (hkeep s next hs hbody) h
    · next next hbody =>
      cases h
      exact ⟨s, hs, hbody⟩

/-- The invariant rule for loops. -/
theorem doWhile_invariant (hkeep : ∀ s s' again, inv s → body s = some (s', again) → inv s')
    {fuel : ℕ} {s s' : State} (hs : inv s) (h : doWhile body fuel s = some s') : inv s' := by
  obtain ⟨last, hlast, hend⟩ :=
    doWhile_last inv (fun s s' hs hbody ↦ hkeep s s' true hs hbody) hs h
  exact hkeep last s' false hlast hend

end Invariant

/-- A loop does what a simpler loop does whose body its own body simulates. -/
theorem doWhile_simulation {Abstract : Type*} {body : State → Option (State × Bool)}
    {body' : Abstract → Option (Abstract × Bool)} (sim : State → Abstract → Prop)
    (hstep : ∀ s a a' again, sim s a → body' a = some (a', again) →
      ∃ s', body s = some (s', again) ∧ sim s' a') {fuel : ℕ} {s : State} {a a' : Abstract}
    (hs : sim s a) (h : doWhile body' fuel a = some a') :
    ∃ s', doWhile body fuel s = some s' ∧ sim s' a' := by
  induction fuel generalizing s a with
  | zero => cases h
  | succ fuel ih =>
    rw [doWhile] at h
    split at h
    · cases h
    · next next hbody =>
      obtain ⟨s', hbody', hs'⟩ := hstep s a next true hs hbody
      rw [doWhile, hbody']
      exact ih hs' h
    · next next hbody =>
      cases h
      obtain ⟨s', hbody', hs'⟩ := hstep s a a' false hs hbody
      rw [doWhile, hbody']
      exact ⟨s', rfl, hs'⟩

/-- More fuel does not change the state in which a loop ends, also where its body gets more. -/
theorem doWhile_mono {body body' : State → Option (State × Bool)}
    (hbody : ∀ s next, body s = some next → body' s = some next) {fuel fuel' : ℕ}
    (hle : fuel ≤ fuel') {s s' : State} (h : doWhile body fuel s = some s') :
    doWhile body' fuel' s = some s' := by
  induction fuel generalizing s fuel' with
  | zero => cases h
  | succ fuel ih =>
    obtain ⟨more, rfl⟩ := Nat.exists_eq_add_of_le' (Nat.lt_of_lt_of_le fuel.succ_pos hle)
    rw [doWhile] at h
    split at h
    · cases h
    · next next hnext =>
      rw [doWhile, hbody s _ hnext]
      exact ih (Nat.le_of_succ_le_succ hle) h
    · next next hnext =>
      rw [doWhile, hbody s _ hnext]
      exact h

section Termination

variable (body : ℕ → State → Option (State × Bool))

/-- What a body returns with some fuel, it returns with more. -/
def FuelMono {α β : Type*} (f : ℕ → α → Option β) : Prop :=
  ∀ fuel fuel' a b, fuel ≤ fuel' → f fuel a = some b → f fuel' a = some b

/-- One iteration after which the loop goes on. -/
def Iterates (s s' : State) : Prop := ∃ fuel, body fuel s = some (s', true)

variable {body}

theorem FuelMono.loop (hmono : FuelMono body) :
    FuelMono fun fuel s ↦ doWhile (body fuel) fuel s :=
  fun fuel fuel' _ _ hle h ↦ doWhile_mono (fun a b ↦ hmono fuel fuel' a b hle) hle h

/-- A loop that has ended ends in one state only. -/
theorem FuelMono.unique {α β : Type*} {f : ℕ → α → Option β} (hmono : FuelMono f)
    {fuel fuel' : ℕ} {a : α} {b b' : β} (h : f fuel a = some b) (h' : f fuel' a = some b') :
    b = b' := by
  rcases Nat.le_total fuel fuel' with hle | hle
  · exact Option.some_inj.mp ((hmono fuel fuel' a b hle h).symm.trans h')
  · exact Option.some_inj.mp (h.symm.trans (hmono fuel' fuel a b' hle h'))

/-- All iterations of a loop that has ended have ended. -/
theorem FuelMono.body_of_loop (hmono : FuelMono body) {fuel rounds : ℕ} {s s' last : State}
    (hloop : doWhile (body fuel) rounds s = some last)
    (hreach : Relation.ReflTransGen (Iterates body) s s') : ∃ next, body fuel s' = some next := by
  induction hreach using Relation.ReflTransGen.head_induction_on generalizing rounds with
  | refl =>
    cases rounds with
    | zero => cases hloop
    | succ rounds =>
      rw [doWhile] at hloop
      split at hloop
      · cases hloop
      · next next hbody => exact ⟨_, hbody⟩
      · next next hbody => exact ⟨_, hbody⟩
  | head hiterates _ ih =>
    obtain ⟨fuel', hbody⟩ := hiterates
    cases rounds with
    | zero => cases hloop
    | succ rounds =>
      rw [doWhile] at hloop
      split at hloop
      · cases hloop
      · next next hbody' =>
        obtain ⟨rfl, -⟩ := Prod.mk.inj (hmono.unique hbody hbody')
        exact ih hloop
      · next next hbody' =>
        obtain ⟨-, hagain⟩ := Prod.mk.inj (hmono.unique hbody hbody')
        cases hagain

/-- The termination rule. Each iteration that the loop gets to ends, and if the loop goes on after
it, a measure has decreased. -/
theorem doWhile_terminates (hmono : FuelMono body) (inv : State → Prop) (measure : State → ℕ)
    (hstep : ∀ s s', inv s → Iterates body s s' → inv s' ∧ measure s' < measure s) {s : State}
    (hs : inv s)
    (hbody : ∀ s', Relation.ReflTransGen (Iterates body) s s' → inv s' →
      ∃ fuel next, body fuel s' = some next) :
    ∃ fuel s', doWhile (body fuel) fuel s = some s' := by
  induction hn : measure s using Nat.strong_induction_on generalizing s with
  | _ n ih =>
    subst hn
    obtain ⟨fuel, ⟨s', again⟩, hnext⟩ := hbody s Relation.ReflTransGen.refl hs
    cases again with
    | false =>
      refine ⟨fuel + 1, s', ?_⟩
      rw [doWhile, hmono fuel (fuel + 1) s _ (Nat.le_succ fuel) hnext]
    | true =>
      have hiterates : Iterates body s s' := ⟨fuel, hnext⟩
      obtain ⟨hs', hless⟩ := hstep s s' hs hiterates
      obtain ⟨fuel', last, hloop⟩ := ih (measure s') hless hs'
        (fun t ht ↦ hbody t (Relation.ReflTransGen.head hiterates ht)) rfl
      refine ⟨max fuel fuel' + 1, last, ?_⟩
      have hfirst : fuel ≤ max fuel fuel' + 1 := Nat.le_succ_of_le (Nat.le_max_left _ _)
      have hrest : fuel' ≤ max fuel fuel' + 1 := Nat.le_succ_of_le (Nat.le_max_right _ _)
      rw [doWhile, hmono _ _ _ _ hfirst hnext]
      exact doWhile_mono (fun a b ↦ hmono _ _ a b hrest) (Nat.le_max_right _ _) hloop

end Termination

/-- The random numbers that are still to be drawn. -/
abbrev Tape : Type := ℕ → ℕ

/-- One random number, and the rest of the tape. -/
def Tape.draw (tape : Tape) : ℕ × Tape := (tape 0, fun i ↦ tape (i + 1))

end Sp18.Foundation
