import Sp18.Kernel.Handover
import Sp18.Kernel.ProcessTree

/-!
# The contexts that `schedule` has saved

`schedule` stores `esp` and `ebp` of the process that it interrupts in the PCB, and takes the
process up again by loading them. They lead back to the call of `schedule` on the stack of the
process only as long as the process has not run since. One that has run, and has left `do_execute`
in the middle, has other calls on its stack: `schedule` then pops what stands there, and no call of
the process returns as it should.

`Contexts` is a machine with the processes whose registers have been saved and are still good
(`Contexts.saved`). Where every program is executed on the terminal that is displayed, the active
process of a terminal is the running one or one of these (`Contexts.Kept`), so that `schedule` takes
up no other. A program that is executed in the background breaks this: its parent stays the active
process of the hidden terminal while it waits in `do_execute`.
-/

set_option autoImplicit false
set_option relaxedAutoImplicit false

namespace Sp18.Kernel

open Foundation

namespace ProcessTree

variable {tree tree' : ProcessTree}

/-- The active process of another terminal is not the running one. -/
theorem Invariant.active_ne_current (h : tree.Invariant) {t : Fin 3}
    (ht : t ≠ tree.onTerm tree.current) : pcbAddr (tree.activePid t) ≠ tree.current := by
  intro hsame
  exact ht ((h.healthy.active t).terminal.symm.trans (congrArg tree.onTerm hsame))

/-- What the running process does keeps the CPU on its terminal. -/
theorem Moves.onTerm_current (h : tree.Invariant) (hmoves : tree.Moves tree') :
    tree'.onTerm tree'.current = tree.onTerm tree.current := by
  have hcurrent := h.current
  cases hmoves with
  | stay => rfl
  | startChild hchild hfree => simp [ProcessTree.startChild]
  | endChild hchild =>
    -- the process that goes on is the parent, which stands below the child in its chain
    obtain ⟨-, -, hparent, hcaller⟩ := h.parent_waits hchild
    have hterminal : tree.onTerm (tree.parent tree.current) = tree.onTerm tree.current :=
      hparent.terminal
    simp [ProcessTree.endChild, release, hcaller, hterminal]
  | restart hshell parent =>
    have hrunning : tree.current = pcbAddr _ := hcurrent.address.trans (congrArg pcbAddr hshell)
    simp [startShell, hrunning, (h.healthy.shell _).terminal]

/-- What the running process does leaves the other terminals their active processes. -/
theorem Moves.activePid_eq (h : tree.Invariant) (hmoves : tree.Moves tree') {t : Fin 3}
    (ht : t ≠ tree.onTerm tree.current) : tree'.activePid t = tree.activePid t := by
  have hkept := hmoves.onTerm_current h
  cases hmoves with
  | stay => rfl
  | startChild hchild hfree => simp [ProcessTree.startChild, ht]
  | endChild hchild => simp [ProcessTree.endChild, release, ht]
  | restart hshell parent =>
    have hterminal : t ≠ _ := fun hsame ↦ ht (hsame.trans hkept)
    simp only [startShell, Function.update_self] at hterminal
    simp [startShell, release, hterminal]

end ProcessTree

/-- A machine with the processes that `schedule` has interrupted and that have not run since, by the
address of their PCB. -/
structure Contexts where
  machine : Machine
  saved : ℤ → Prop

namespace Contexts

/-- A timer interrupt saves the registers of the running process, and they are good until the
process runs again. -/
def step (c : Contexts) (event : KernelEvent) : Contexts where
  machine := c.machine.step event
  saved a := (c.saved a ∨ Machine.IsTick event ∧ a = c.machine.current) ∧
    a ≠ (c.machine.step event).current

/-- A timer interrupt takes up a process that it has neither interrupted just now nor interrupted
before and left alone since. -/
def Derails (c : Contexts) (event : KernelEvent) : Prop :=
  c.machine.Resumes event ∧ (c.machine.step event).current ≠ c.machine.current ∧
    ¬ c.saved (c.machine.step event).current

/-- The processes of the terminals are in order, and the active ones can be taken up. -/
structure Kept (c : Contexts) : Prop where
  tree : c.machine.tree.Invariant
  saved : ∀ t : Fin 3, pcbAddr (c.machine.activePid t) ≠ c.machine.current →
    c.saved (pcbAddr (c.machine.activePid t))

variable {c : Contexts}

theorem Kept.step (h : c.Kept) {event : KernelEvent}
    (hforeground : c.machine.ExecutesInForeground event) : (c.step event).Kept := by
  have htree := Machine.invariant_step h.tree hforeground
  refine ⟨htree, fun t hother ↦ ⟨?_, hother⟩⟩
  change c.saved (pcbAddr ((c.machine.step event).tree.activePid t)) ∨ Machine.IsTick event ∧
    pcbAddr ((c.machine.step event).tree.activePid t) = c.machine.current
  by_cases htick : ∃ esp ebp tmp, event = .tick esp ebp tmp
  · obtain ⟨esp, ebp, tmp, rfl⟩ := htick
    rw [Machine.tree_tick h.tree]
    by_cases hrunning : pcbAddr (c.machine.activePid t) = c.machine.current
    · exact Or.inr ⟨trivial, hrunning⟩
    · exact Or.inl (h.saved t hrunning)
  · simp only [not_exists] at htick
    have hmoves := Machine.moves_step h.tree hforeground htick
    have ht : t ≠ c.machine.tree.onTerm c.machine.tree.current := by
      -- the active process of its terminal is the running one
      rintro rfl
      refine hother ?_
      have hrunning := htree.running
      rw [hmoves.onTerm_current h.tree] at hrunning
      exact hrunning.symm
    rw [hmoves.activePid_eq h.tree ht]
    exact Or.inl (h.saved t (h.tree.active_ne_current ht))

/-- `schedule` takes up the active process of a terminal. -/
theorem Kept.not_derails (h : c.Kept) (event : KernelEvent) : ¬ c.Derails event := by
  rintro ⟨hresume, hother, hunsaved⟩
  cases event with
  | tick esp ebp tmp =>
    have hnext : (c.machine.step (.tick esp ebp tmp)).current =
        pcbAddr (c.machine.activePid (c.machine.termCounter + 1)) :=
      congrArg ProcessTree.current (Machine.tree_tick h.tree esp ebp tmp)
    rw [hnext] at hother hunsaved
    exact hunsaved (h.saved _ hother)
  | _ => exact hresume.elim

/-- The saved contexts are only noted: the machine runs as it does without them. -/
theorem everyStep_machine_iff {good : Machine → KernelEvent → Prop} (c : Contexts)
    (events : List KernelEvent) :
    EveryStep step (fun c event ↦ good c.machine event) c events ↔
      EveryStep Machine.step good c.machine events := by
  have hstep : ∀ (c : Contexts) (s : Machine) (event : KernelEvent), c.machine = s →
      (c.step event).machine = s.step event := by
    rintro c _ event rfl
    rfl
  have hagree : ∀ (c : Contexts) (s : Machine) (event : KernelEvent), c.machine = s →
      (good c.machine event ↔ good s event) := by
    rintro c _ event rfl
    exact Iff.rfl
  exact everyStep_simulation hstep hagree rfl events

/-- From the three base shells on, all but the running one of which have been interrupted, no timer
interrupt derails while programs are executed on the terminal that is displayed. -/
theorem kept_of_foreground {s : Machine} (hs : s.ThreeShells) {events : List KernelEvent}
    (hforeground : EveryStep Machine.step Machine.ExecutesInForeground s events) :
    EveryState step Kept ⟨s, fun a ↦ a ≠ s.current⟩ events := by
  have hstart : Kept ⟨s, fun a ↦ a ≠ s.current⟩ := ⟨hs.invariant, fun _ hother ↦ hother⟩
  have hmachine : EveryStep step (fun c event ↦ c.machine.ExecutesInForeground event)
      ⟨s, fun a ↦ a ≠ s.current⟩ events :=
    (everyStep_machine_iff ⟨s, fun a ↦ a ≠ s.current⟩ events).mpr hforeground
  exact everyState_of_everyStep (fun _ _ h hgood ↦ h.step hgood) hstart hmachine

end Contexts

end Sp18.Kernel
