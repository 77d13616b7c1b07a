import Sp18.Foundation.StepSystem
import Mathlib.Data.List.Induction
import Mathlib.Logic.Function.Basic

/-!
# Waiting for the clock

`RTC_read` and `RTC_handler` as steps of any number of processes. A process that begins to read
clears the flag `interrupt_happening` and waits. A poll by a waiting process looks at the flag: if
it is set, the process clears it and returns. The handler sets it.

All processes share the one flag. An interrupt sets it for everyone who waits, and the first of them
to return takes it away from the others, as does a process that begins to read. A process that waits
while the flag is set has seen an interrupt (`owed_of_waiting`), so that an interrupt is lost
exactly when the flag is cleared while someone else waits (`rtcRead_exact`).
-/

set_option autoImplicit false
set_option relaxedAutoImplicit false

namespace Sp18.Kernel

open Foundation

/-- A step of a reader or an interrupt. -/
inductive RtcEvent (Proc : Type*) where
  | beginRead (p : Proc)
  | poll (p : Proc)
  | interrupt

/-- The flag of `rtc.c`, and the processes that are in the loop of `RTC_read`. -/
structure RtcState (Proc : Type*) where
  interruptHappening : Bool
  waiting : Proc → Bool

variable {Proc : Type*} [DecidableEq Proc]

/-- A step of `RTC_read` or of `RTC_handler`. A process in the loop does not begin again, and only a
process in the loop polls. -/
def rtcStep (s : RtcState Proc) : RtcEvent Proc → RtcState Proc
  | .beginRead p =>
    if s.waiting p = true then s
    else ⟨false, Function.update s.waiting p true⟩
  | .poll p =>
    if s.waiting p = true ∧ s.interruptHappening = true then
      ⟨false, Function.update s.waiting p false⟩
    else s
  | .interrupt => { s with interruptHappening := true }

/-- No one reads, and no interrupt has come. -/
def rtcStart : RtcState Proc := ⟨false, fun _ ↦ false⟩

/-- A poll by the process returns from `RTC_read`. -/
def RtcState.PollReturns (s : RtcState Proc) (p : Proc) : Prop :=
  s.waiting p = true ∧ s.interruptHappening = true

/-- An interrupt has come while the process was waiting, and it has not polled since. -/
def Owed (events : List (RtcEvent Proc)) (p : Proc) : Prop :=
  ∃ before between, events = before ++ .interrupt :: between ∧
    (run rtcStep rtcStart before).waiting p = true ∧ .poll p ∉ between

/-- Whenever an interrupt has come while a process was waiting, its next poll returns. -/
def NoInterruptMissed (events : List (RtcEvent Proc)) : Prop :=
  ∀ before between p, before ++ .interrupt :: between <+: events →
    (run rtcStep rtcStart before).waiting p = true → .poll p ∉ between →
    (run rtcStep rtcStart (before ++ .interrupt :: between)).PollReturns p

/-- The step does not clear a flag that is set while another process waits. -/
def RtcState.Spares (s : RtcState Proc) : RtcEvent Proc → Prop
  | .beginRead q =>
    s.waiting q = false → s.interruptHappening = true → ∀ p, s.waiting p = false
  | .poll q => s.PollReturns q → ∀ p, p ≠ q → s.waiting p = false
  | .interrupt => True

variable {events : List (RtcEvent Proc)} {event : RtcEvent Proc} {p : Proc}

theorem owed_concat : Owed (events ++ [event]) p ↔
    event = .interrupt ∧ (run rtcStep rtcStart events).waiting p = true ∨
      event ≠ .poll p ∧ Owed events p := by
  constructor
  · rintro ⟨before, between, hevents, hwaiting, hpoll⟩
    rcases List.eq_nil_or_concat between with rfl | ⟨between, last, rfl⟩
    · obtain ⟨rfl, hlast⟩ := List.append_inj' hevents rfl
      exact Or.inl ⟨List.singleton_inj.mp hlast, hwaiting⟩
    · rw [List.concat_eq_append, ← List.cons_append, ← List.append_assoc] at hevents
      obtain ⟨rfl, hlast⟩ := List.append_inj' hevents rfl
      obtain rfl := List.singleton_inj.mp hlast
      rw [List.concat_eq_append, List.mem_append, List.mem_singleton, not_or] at hpoll
      exact Or.inr ⟨Ne.symm hpoll.2, before, between, rfl, hwaiting, hpoll.1⟩
  · rintro (⟨rfl, hwaiting⟩ | ⟨hne, before, between, rfl, hwaiting, hpoll⟩)
    · exact ⟨events, [], rfl, hwaiting, List.not_mem_nil⟩
    · refine ⟨before, between ++ [event], by simp, hwaiting, ?_⟩
      rw [List.mem_append, List.mem_singleton, not_or]
      exact ⟨hpoll, Ne.symm hne⟩

theorem run_concat (events : List (RtcEvent Proc)) (event : RtcEvent Proc) :
    run rtcStep rtcStart (events ++ [event]) = rtcStep (run rtcStep rtcStart events) event :=
  run_append rtcStart events [event]

/-- Who waits goes on waiting until a poll of its own. -/
theorem waiting_rtcStep {s : RtcState Proc} (hwaiting : s.waiting p = true)
    (hne : event ≠ .poll p) : (rtcStep s event).waiting p = true := by
  cases event with
  | beginRead q =>
    rw [rtcStep]
    split_ifs
    · exact hwaiting
    · exact (Function.update_apply s.waiting q true p).trans (by rw [hwaiting, ite_self])
  | poll q =>
    rw [rtcStep]
    split_ifs
    · have hpq : p ≠ q := fun hpq ↦ hne (congrArg _ hpq.symm)
      exact (Function.update_of_ne hpq false s.waiting).trans hwaiting
    · exact hwaiting
  | interrupt => exact hwaiting

/-- A process that has not polled since the interrupt is still waiting. -/
theorem waiting_of_owed (h : Owed events p) : (run rtcStep rtcStart events).waiting p = true := by
  induction events using List.reverseRecOn with
  | nil =>
    obtain ⟨before, between, hevents, -⟩ := h
    simp at hevents
  | append_singleton events event ih =>
    rw [run_concat]
    rcases owed_concat.mp h with ⟨rfl, hwaiting⟩ | ⟨hne, howed⟩
    · exact hwaiting
    · exact waiting_rtcStep (ih howed) hne

/-- A process that waits while the flag is set has waited since before the interrupt: it has cleared
the flag when it began. -/
theorem owed_of_waiting (hflag : (run rtcStep rtcStart events).interruptHappening = true)
    (hwaiting : (run rtcStep rtcStart events).waiting p = true) : Owed events p := by
  induction events using List.reverseRecOn with
  | nil => cases hflag
  | append_singleton events event ih =>
    rw [run_concat] at hflag hwaiting
    rw [owed_concat]
    cases event with
    | beginRead q =>
      rw [rtcStep] at hflag hwaiting
      split_ifs at hflag hwaiting
      exact Or.inr ⟨by simp, ih hflag hwaiting⟩
    | poll q =>
      rw [rtcStep] at hflag hwaiting
      split_ifs at hflag hwaiting with hreturns
      refine Or.inr ⟨fun hpoll ↦ hreturns ?_, ih hflag hwaiting⟩
      rw [RtcEvent.poll.inj hpoll]
      exact ⟨hwaiting, hflag⟩
    | interrupt => exact Or.inl ⟨rfl, hwaiting⟩

theorem NoInterruptMissed.answered (h : NoInterruptMissed events) (howed : Owed events p) :
    (run rtcStep rtcStart events).interruptHappening = true := by
  obtain ⟨before, between, rfl, hwaiting, hpoll⟩ := howed
  exact (h before between p (List.prefix_refl _) hwaiting hpoll).2

/-- In a run with one more step the interrupts are answered that were so before, and those whose
processes are owed at the end. -/
theorem noInterruptMissed_concat : NoInterruptMissed (events ++ [event]) ↔
    NoInterruptMissed events ∧ ∀ p, Owed (events ++ [event]) p →
      (run rtcStep rtcStart (events ++ [event])).interruptHappening = true := by
  constructor
  · intro h
    exact ⟨fun before between p hstart ↦
      h before between p (hstart.trans (List.prefix_append _ _)), fun p howed ↦ h.answered howed⟩
  · rintro ⟨hbefore, hnow⟩ before between p hstart hwaiting hpoll
    rcases List.prefix_concat_iff.mp hstart with hall | hshorter
    · have howed : Owed (events ++ [event]) p := ⟨before, between, hall.symm, hwaiting, hpoll⟩
      rw [hall]
      exact ⟨waiting_of_owed howed, hnow p howed⟩
    · exact hbefore before between p hshorter hwaiting hpoll

/-- When all interrupts so far are answered, those of the next moment are exactly if the step spares
the others. -/
theorem owed_answered_iff
    (hnow : ∀ p, Owed events p → (run rtcStep rtcStart events).interruptHappening = true) :
    (∀ p, Owed (events ++ [event]) p →
        (run rtcStep rtcStart (events ++ [event])).interruptHappening = true) ↔
      (run rtcStep rtcStart events).Spares event := by
  have howedIff : ∀ p, Owed events p ↔ (run rtcStep rtcStart events).PollReturns p :=
    fun p ↦ ⟨fun h ↦ ⟨waiting_of_owed h, hnow p h⟩, fun h ↦ owed_of_waiting h.2 h.1⟩
  simp only [owed_concat, run_concat, howedIff]
  generalize run rtcStep rtcStart events = s
  cases event with
  | beginRead q =>
    rw [rtcStep]
    by_cases hwaiting : s.waiting q = true
    · rw [if_pos hwaiting]
      refine iff_of_true ?_ fun hnot ↦ absurd hwaiting (by simp [hnot])
      rintro p (⟨hevent, -⟩ | ⟨-, hreturns⟩)
      · cases hevent
      · exact hreturns.2
    · rw [if_neg hwaiting]
      constructor
      · intro h _ hflag p
        by_contra hp
        exact absurd (h p (Or.inr ⟨by simp, by simpa using hp, hflag⟩)) (by simp)
      · rintro h p (⟨hevent, -⟩ | ⟨-, hreturns⟩)
        · cases hevent
        · have hnone := h (by simpa using hwaiting) hreturns.2 p
          rw [hreturns.1] at hnone
          cases hnone
  | poll q =>
    rw [rtcStep]
    by_cases hreturns : s.waiting q = true ∧ s.interruptHappening = true
    · rw [if_pos hreturns]
      constructor
      · intro h _ p hpq
        by_contra hp
        have hne : RtcEvent.poll q ≠ .poll p := fun hpoll ↦ hpq (RtcEvent.poll.inj hpoll).symm
        exact absurd (h p (Or.inr ⟨hne, by simpa using hp, hreturns.2⟩)) (by simp)
      · rintro h p (⟨hevent, -⟩ | ⟨hne, hwaiting, -⟩)
        · cases hevent
        · have hnone := h hreturns p fun hpq ↦ hne (congrArg _ hpq.symm)
          rw [hwaiting] at hnone
          cases hnone
    · rw [if_neg hreturns]
      refine iff_of_true ?_ fun hpoll ↦ absurd hpoll hreturns
      rintro p (⟨hevent, -⟩ | ⟨-, hpoll⟩)
      · cases hevent
      · exact hpoll.2
  | interrupt => exact iff_of_true (fun _ _ ↦ rfl) trivial

/-- No interrupt is missed in a run if and only if each of its steps spares the processes that
wait. -/
theorem rtcRead_exact (events : List (RtcEvent Proc)) :
    NoInterruptMissed events ↔ EveryStep rtcStep RtcState.Spares rtcStart events := by
  induction events using List.reverseRecOn with
  | nil =>
    refine iff_of_true (fun before between p hstart ↦ ?_) trivial
    simp at hstart
  | append_singleton events event ih =>
    rw [noInterruptMissed_concat, everyStep_concat, ← ih]
    exact and_congr_right fun h ↦ owed_answered_iff fun _ ↦ h.answered

/-- The second process begins to read after the interrupt for which the first one waits, which does
not learn of it. -/
theorem rtcRead_not_always :
    ¬ NoInterruptMissed [.beginRead (0 : ℕ), .interrupt, .beginRead (1 : ℕ)] := by
  intro h
  have hreturns := h [.beginRead 0] [.beginRead 1] 0 (List.prefix_refl _) rfl (by simp)
  exact absurd hreturns.2 (by decide)

end Sp18.Kernel
