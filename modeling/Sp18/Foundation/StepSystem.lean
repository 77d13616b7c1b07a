import Mathlib.Logic.Basic
import Mathlib.Data.List.Basic

/-!
# Runs of an event-driven system

A deterministic system is a function `step` from a state and an event to the next state. A run is
a start state with a finite list of events. `EveryState` says that an invariant holds in every
state of a run, `EveryStep` that a property of the state before a step and of its event holds at
every step of it.

`everyState_of_everyStep` is the invariant rule for an invariant that needs a side condition on
the steps, and `everyState_iff_everyStep` its exact form: when one step keeps the invariant exactly
if it meets the condition, a run keeps the invariant exactly if all its steps meet it.
`EveryState.everyStep_congr` exchanges step properties that agree wherever an invariant holds.

A step of a fine system may stand for any number of steps of a coarse one, which it emits. A
relation that is kept this way holds between the ends of the two runs (`rel_run_emitted`). A system
in which some step makes a measure smaller, as long as the goal is not reached, can reach the goal
(`exists_run_of_measure`).
-/

set_option autoImplicit false
set_option relaxedAutoImplicit false

namespace Sp18.Foundation

variable {State Event : Type*} (step : State → Event → State)

/-- The state that a sequence of events leads to. -/
def run : State → List Event → State
  | s, [] => s
  | s, event :: rest => run (step s event) rest

/-- The invariant holds in every state of the run, the first and the last included. -/
def EveryState (inv : State → Prop) : State → List Event → Prop
  | s, [] => inv s
  | s, event :: rest => inv s ∧ EveryState inv (step s event) rest

/-- Every step of the run is good, as a property of the state before it and of its event. -/
def EveryStep (good : State → Event → Prop) : State → List Event → Prop
  | _, [] => True
  | s, event :: rest => good s event ∧ EveryStep good (step s event) rest

variable {step}

instance decidableEveryState (inv : State → Prop) [DecidablePred inv] (s : State)
    (events : List Event) : Decidable (EveryState step inv s events) :=
  match events with
  | [] => inferInstanceAs (Decidable (inv s))
  | event :: rest =>
    letI := decidableEveryState inv (step s event) rest
    inferInstanceAs (Decidable (inv s ∧ EveryState step inv (step s event) rest))

instance decidableEveryStep (good : State → Event → Prop) [∀ s event, Decidable (good s event)]
    (s : State) (events : List Event) : Decidable (EveryStep step good s events) :=
  match events with
  | [] => inferInstanceAs (Decidable True)
  | event :: rest =>
    letI := decidableEveryStep good (step s event) rest
    inferInstanceAs (Decidable (good s event ∧ EveryStep step good (step s event) rest))

theorem run_append (s : State) (events events' : List Event) :
    run step s (events ++ events') = run step (run step s events) events' := by
  induction events generalizing s with
  | nil => rfl
  | cons event rest ih => exact ih (step s event)

/-- The last step of a run. -/
theorem everyStep_concat {good : State → Event → Prop} {s : State} {events : List Event}
    {event : Event} : EveryStep step good s (events ++ [event]) ↔
      EveryStep step good s events ∧ good (run step s events) event := by
  induction events generalizing s with
  | nil => exact and_comm
  | cons first rest ih => exact (and_congr_right' ih).trans and_assoc.symm

theorem EveryState.first {inv : State → Prop} {s : State} {events : List Event}
    (h : EveryState step inv s events) : inv s := by
  cases events with
  | nil => exact h
  | cons event rest => exact h.1

theorem EveryState.last {inv : State → Prop} {s : State} {events : List Event}
    (h : EveryState step inv s events) : inv (run step s events) := by
  induction events generalizing s with
  | nil => exact h
  | cons event rest ih => exact ih h.2

theorem EveryState.mono {inv inv' : State → Prop} (himp : ∀ s, inv s → inv' s) {s : State}
    {events : List Event} (h : EveryState step inv s events) : EveryState step inv' s events := by
  induction events generalizing s with
  | nil => exact himp s h
  | cons event rest ih => exact ⟨himp s h.1, ih h.2⟩

theorem EveryStep.mono {good good' : State → Event → Prop}
    (himp : ∀ s event, good s event → good' s event) {s : State} {events : List Event}
    (h : EveryStep step good s events) : EveryStep step good' s events := by
  induction events generalizing s with
  | nil => trivial
  | cons event rest ih => exact ⟨himp s event h.1, ih h.2⟩

/-- Two properties of the steps hold together if each of them holds. -/
theorem everyStep_and {good good' : State → Event → Prop} {s : State} {events : List Event} :
    EveryStep step (fun s event ↦ good s event ∧ good' s event) s events ↔
      EveryStep step good s events ∧ EveryStep step good' s events := by
  induction events generalizing s with
  | nil => exact (and_iff_left trivial).symm
  | cons event rest ih => exact (and_congr_right' ih).trans and_and_and_comm

/-- The invariant rule: an invariant kept by every step that meets the condition holds in every
state of a run whose steps all meet it. -/
theorem everyState_of_everyStep {inv : State → Prop} {good : State → Event → Prop}
    (hstep : ∀ s event, inv s → good s event → inv (step s event)) {s : State}
    {events : List Event} (hs : inv s) (hgood : EveryStep step good s events) :
    EveryState step inv s events := by
  induction events generalizing s with
  | nil => exact hs
  | cons event rest ih => exact ⟨hs, ih (hstep s event hs hgood.1) hgood.2⟩

/-- The exact invariant rule: where the steps that meet the condition keep the invariant, and every
other step leaves a state in which a consequence of it fails, the runs that keep this consequence
are those whose steps all meet the condition. -/
theorem everyState_iff_everyStep_of_inv {inv conseq : State → Prop} {good : State → Event → Prop}
    (hconseq : ∀ s, inv s → conseq s) (hkeep : ∀ s event, inv s → good s event → inv (step s event))
    (hbreak : ∀ s event, inv s → conseq (step s event) → good s event) {s : State}
    {events : List Event} (hs : inv s) :
    EveryState step conseq s events ↔ EveryStep step good s events := by
  induction events generalizing s with
  | nil => exact iff_of_true (hconseq s hs) trivial
  | cons event rest ih =>
    constructor
    · rintro ⟨-, hrest⟩
      have hgood := hbreak s event hs hrest.first
      exact ⟨hgood, (ih (hkeep s event hs hgood)).mp hrest⟩
    · rintro ⟨hgood, hrest⟩
      exact ⟨hconseq s hs, (ih (hkeep s event hs hgood)).mpr hrest⟩

/-- When a step from a state of the invariant keeps it if and only if it meets the condition, the
runs that keep the invariant are those whose steps all meet it. -/
theorem everyState_iff_everyStep {inv : State → Prop} {good : State → Event → Prop}
    (hstep : ∀ s event, inv s → (inv (step s event) ↔ good s event)) {s : State}
    {events : List Event} (hs : inv s) :
    EveryState step inv s events ↔ EveryStep step good s events :=
  everyState_iff_everyStep_of_inv (fun _ h ↦ h) (fun s event h hgood ↦ (hstep s event h).mpr hgood)
    (fun s event h hnext ↦ (hstep s event h).mp hnext) hs

/-- An invariant that every step keeps holds in every state of every run. -/
theorem everyState_of_invariant {inv : State → Prop}
    (hstep : ∀ s event, inv s → inv (step s event)) {s : State} (hs : inv s)
    (events : List Event) : EveryState step inv s events := by
  induction events generalizing s with
  | nil => exact hs
  | cons event rest ih => exact ⟨hs, ih (hstep s event hs)⟩

/-- A property that every step from a state of an invariant has holds at every step of a run. -/
theorem everyStep_of_invariant {inv : State → Prop} {good : State → Event → Prop}
    (hstep : ∀ s event, inv s → inv (step s event)) (hgood : ∀ s event, inv s → good s event)
    {s : State} (hs : inv s) (events : List Event) : EveryStep step good s events := by
  induction events generalizing s with
  | nil => trivial
  | cons event rest ih => exact ⟨hgood s event hs, ih (hstep s event hs)⟩

/-- Two step properties that agree wherever an invariant holds agree on a run that keeps the
invariant. -/
theorem EveryState.everyStep_congr {inv : State → Prop} {good good' : State → Event → Prop}
    (hagree : ∀ s event, inv s → (good s event ↔ good' s event)) {s : State} {events : List Event}
    (h : EveryState step inv s events) :
    EveryStep step good s events ↔ EveryStep step good' s events := by
  induction events generalizing s with
  | nil => exact Iff.rfl
  | cons event rest ih => exact and_congr (hagree s event h.1) (ih h.2)

/-- Two step properties that agree everywhere agree on whole runs. -/
theorem everyStep_congr {good good' : State → Event → Prop}
    (hagree : ∀ s event, good s event ↔ good' s event) (s : State) (events : List Event) :
    EveryStep step good s events ↔ EveryStep step good' s events := by
  have hall : EveryState step (fun _ ↦ True) s events :=
    everyState_of_invariant (fun _ _ _ ↦ trivial) trivial events
  exact hall.everyStep_congr fun s event _ ↦ hagree s event

theorem everyStep_true (s : State) (events : List Event) :
    EveryStep step (fun _ _ ↦ True) s events := by
  induction events generalizing s with
  | nil => trivial
  | cons event rest ih => exact ⟨trivial, ih _⟩

/-- Two step properties that agree for the allowed steps from states of an invariant agree on the
runs with allowed steps, where a step that has the one property keeps the invariant. -/
theorem everyStep_congr_of_keep {inv : State → Prop} {allowed good good' : State → Event → Prop}
    (hagree : ∀ s event, inv s → allowed s event → (good s event ↔ good' s event))
    (hkeep : ∀ s event, inv s → good s event → inv (step s event)) {s : State} {events : List Event}
    (hs : inv s) (hallowed : EveryStep step allowed s events) :
    EveryStep step good s events ↔ EveryStep step good' s events := by
  induction events generalizing s with
  | nil => exact Iff.rfl
  | cons event rest ih =>
    refine (and_congr_right fun hgood ↦ ?_).trans (and_congr_left' (hagree s event hs hallowed.1))
    exact ih (hkeep s event hs hgood) hallowed.2

/-- The simulation rule: where a relation is kept by the steps of two systems, and two step
properties agree wherever it holds, they agree on whole runs of the two systems. -/
theorem everyStep_simulation {State' : Type*} {step' : State' → Event → State'}
    {rel : State → State' → Prop} {good : State → Event → Prop} {good' : State' → Event → Prop}
    (hstep : ∀ s s' event, rel s s' → rel (step s event) (step' s' event))
    (hagree : ∀ s s' event, rel s s' → (good s event ↔ good' s' event)) {s : State} {s' : State'}
    (h : rel s s') (events : List Event) :
    EveryStep step good s events ↔ EveryStep step' good' s' events := by
  induction events generalizing s s' with
  | nil => exact Iff.rfl
  | cons event rest ih => exact and_congr (hagree s s' event h) (ih (hstep s s' event h))

/-! ### Two levels -/

/-- The events of a coarser system that the steps of a run stand for. -/
def emitted {Event' : Type*} (step : State → Event → State) (emit : State → Event → List Event') :
    State → List Event → List Event'
  | _, [] => []
  | s, event :: rest => emit s event ++ emitted step emit (step s event) rest

/-- The simulation rule for two levels: a relation that each step keeps together with the steps that
it emits is kept by whole runs. -/
theorem rel_run_emitted {State' Event' : Type*} {step' : State' → Event' → State'}
    {emit : State → Event → List Event'} {rel : State → State' → Prop}
    (hstep : ∀ s s' event, rel s s' → rel (step s event) (run step' s' (emit s event))) {s : State}
    {s' : State'} (h : rel s s') (events : List Event) :
    rel (run step s events) (run step' s' (emitted step emit s events)) := by
  induction events generalizing s s' with
  | nil => exact h
  | cons event rest ih =>
    rw [emitted, run_append]
    exact ih (hstep s s' event h)

/-- The progress rule: where some step keeps the invariant and makes the measure smaller unless the
goal is reached, a run reaches the goal. -/
theorem exists_run_of_measure {goal : State → Prop} (inv : State → Prop) (measure : State → ℕ)
    (hstep : ∀ s, inv s → ¬ goal s →
      ∃ event, inv (step s event) ∧ measure (step s event) < measure s) {s : State} (hs : inv s) :
    ∃ events, goal (run step s events) := by
  induction hn : measure s using Nat.strongRecOn generalizing s with
  | ind n ih =>
    by_cases hgoal : goal s
    · exact ⟨[], hgoal⟩
    · obtain ⟨event, hinv, hless⟩ := hstep s hs hgoal
      obtain ⟨rest, hrest⟩ := ih _ (hn ▸ hless) hinv rfl
      exact ⟨event :: rest, hrest⟩

end Sp18.Foundation
