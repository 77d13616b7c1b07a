import Sp18.Kernel.SavedContexts

/-!
# The value of a finished program

A call of `do_execute` that has started a program returns when the program ends: with the status
that the program has passed to `halt`, or with `EXCEP_RET` if an exception handler has ended it. The
exception travels from the handler to the call through the global `isr_ret`, which only the start of
another program clears.

A call also waits in vain where `schedule` takes up its process in the middle of it
(`Contexts.Derails`), which happens to the parent of a program that is executed in the background.
While programs are executed in the foreground, the value of an exception is always right. A status
is replaced by `EXCEP_RET` where the last program before it has ended by an exception and no program
has been started since: a parent that halts after its child has died is reported as dead
(`exitStatus_exact`).
-/

set_option autoImplicit false
set_option relaxedAutoImplicit false

namespace Sp18.Kernel

open Foundation

namespace Machine

/-- The call of `do_execute` that has started the running program. -/
def callOf (s : Machine) : ℕ := (s.execFrames s.running.pid).call

/-- A child that ends makes the call that has started it return, with its status or, where an
exception handler has ended it, with the exception value. -/
def ReturnsStatus (s : Machine) : KernelEvent → Prop
  | .halt status tmp => thirdShell < s.running.pid →
      s.returned (.halt status tmp) = some ⟨s.running.pid, s.callOf, status.toNat⟩
  | .exception messages tmp => thirdShell < s.running.pid →
      s.returned (.exception messages tmp) = some ⟨s.running.pid, s.callOf, excepRet⟩
  | _ => True

/-- An exception handler ends a child. -/
def EndsByException (s : Machine) : KernelEvent → Prop
  | .exception _ _ => thirdShell < s.running.pid
  | _ => False

variable (s : Machine)

/-- `do_halt` of a child returns the status unless `isr_ret` says otherwise. -/
theorem doHalt_child_value (hchild : thirdShell < s.running.pid) (status : UInt8) (tmp : Pcb) :
    (s.doHalt status tmp).2 = some ⟨s.running.pid, s.callOf,
      if s.isrRet = excepRet then s.isrRet else status.toNat⟩ := by
  rw [doHalt_child s hchild]
  rfl

/-- A child that is ended by an exception returns the exception value. -/
theorem doException_child_value (hchild : thirdShell < s.running.pid) (messages : List String)
    (tmp : Pcb) :
    (s.doException messages tmp).2 = some ⟨s.running.pid, s.callOf, excepRet⟩ := by
  obtain ⟨console, hwrites, -⟩ := s.writes_eq messages
  rw [doException, hwrites]
  exact doHalt_child_value { s with console := console, isrRet := excepRet } hchild 0 tmp

/-- A program that starts clears `isr_ret`, an exception that ends a child sets it, and no other
event changes it. -/
theorem isrRet_step (event : KernelEvent) :
    (s.Launches event → (s.step event).isrRet = 0) ∧
      (s.EndsByException event → (s.step event).isrRet = excepRet) ∧
      (¬ s.Launches event → ¬ s.EndsByException event → (s.step event).isrRet = s.isrRet) := by
  have hends : s.EndsByException event → s.EndsChild event := by
    intro h
    cases event with
    | exception messages tmp => exact h
    | _ => exact h.elim
  cases s.outcome_step event with
  | launch h hlt hfree args tmp hstep =>
    refine ⟨fun _ ↦ by rw [hstep, isrRet_startProgram], fun h' ↦ ?_, fun h' _ ↦ absurd h h'⟩
    exact absurd (hends h') h.not_endsChild
  | endChild h hstep =>
    refine ⟨fun h' ↦ absurd h h'.not_endsChild, fun _ ↦ ?_, fun _ hnot ↦ ?_⟩
    all_goals rw [hstep]
    · cases event with
      | exception messages tmp => rfl
      | _ => contradiction
    · cases event with
      | halt status tmp => rfl
      | exception messages tmp => exact absurd h hnot
      | _ => exact h.elim
  | resume h hstep =>
    refine ⟨fun h' ↦ absurd h' h.not_launches, fun h' ↦ absurd (hends h') h.not_endsChild,
      fun _ _ ↦ ?_⟩
    rw [hstep, isrRet_resumeTask]
    cases event with
    | tick esp ebp tmp => rfl
    | _ => exact h.elim
  | stay hlaunch hend hresume hprepare console hactive hstep =>
    exact ⟨fun h' ↦ absurd h' hlaunch, fun h' ↦ absurd (hends h') hend, fun _ _ ↦ by rw [hstep]⟩

/-- The event notes its call of `do_execute` for the program that it starts, and the calls of the
other processes stay. -/
def NotesCall (s s' : Machine) : Prop := ∃ pid caller,
  s'.execFrames = Function.update s.execFrames pid ⟨caller, s.calls⟩ ∧ s'.calls = s.calls + 1 ∧
    s'.current = pcbAddr pid

theorem notesCall_startProgram (pid : ℕ) (args : ℕ → UInt8) (tmp : Pcb) :
    s.NotesCall (s.startProgram pid args tmp) := by
  refine ⟨pid, s.current, ?_, ?_, rfl⟩
  all_goals
    simp only [startProgram]
    split_ifs <;> rfl

/-- The call of `do_execute` that a process returns to is the one that has started it. -/
theorem execFrames_step (event : KernelEvent) :
    (s.step event).execFrames = s.execFrames ∨ s.NotesCall (s.step event) := by
  have hprepared := s.prepared event
  cases s.outcome_step event with
  | @launch h pid hlt hfree args tmp hstep =>
    have hnotes := (s.prepare event).notesCall_startProgram pid args tmp
    rw [NotesCall, hprepared.execFrames, hprepared.calls, ← hstep] at hnotes
    exact Or.inr hnotes
  | endChild h hstep =>
    rw [hstep]
    exact Or.inl hprepared.execFrames
  | resume h hstep =>
    rw [hstep, execFrames_resumeTask]
    exact Or.inl hprepared.execFrames
  | stay hlaunch hend hresume hprepare console hactive hstep =>
    rw [hstep]
    exact Or.inl rfl

/-- One event returns the right values exactly if it is no status of a child while `isr_ret` notes
an exception. -/
theorem returnsStatus_iff (event : KernelEvent) : s.ReturnsStatus event ↔
    ∀ status tmp, event = .halt status tmp → thirdShell < s.running.pid → s.isrRet ≠ excepRet := by
  cases event with
  | halt status tmp =>
    have hvalue : ∀ hchild : thirdShell < s.running.pid,
        s.returned (.halt status tmp) = some ⟨s.running.pid, s.callOf, status.toNat⟩ ↔
          s.isrRet ≠ excepRet := by
      intro hchild
      change (s.doHalt status tmp).2 = _ ↔ _
      rw [s.doHalt_child_value hchild status tmp]
      have hstatus : (status.toNat : ℤ) ≠ excepRet := by
        have := status.toNat_lt
        unfold excepRet
        omega
      by_cases hisr : s.isrRet = excepRet
      · simp [hisr, hstatus.symm]
      · simp [hisr]
    constructor
    · intro h status' tmp' _ hchild
      exact (hvalue hchild).mp (h hchild)
    · intro h hchild
      exact (hvalue hchild).mpr (h status tmp rfl hchild)
  | exception messages tmp =>
    refine iff_of_true (fun hchild ↦ ?_) fun _ _ h ↦ by cases h
    exact s.doException_child_value hchild messages tmp
  | _ => exact iff_of_true trivial fun _ _ h ↦ by cases h

end Machine

/-- A machine with the note of an observer who watches the programs start and end. -/
structure Watched where
  machine : Machine
  excepted : Prop

namespace Watched

/-- The observer notes an exception that ends a child until the next program starts. -/
def step (w : Watched) (event : KernelEvent) : Watched where
  machine := w.machine.step event
  excepted := w.machine.EndsByException event ∨ w.excepted ∧ ¬ w.machine.Launches event

/-- A child halts after the last exception that has ended a child only if a program has been
started since. -/
def HaltsFresh (w : Watched) : KernelEvent → Prop
  | .halt _ _ => thirdShell < w.machine.running.pid → ¬ w.excepted
  | _ => True

/-- The observer's note is what `isr_ret` holds. -/
theorem excepted_step (w : Watched) (h : w.excepted ↔ w.machine.isrRet = excepRet)
    (event : KernelEvent) :
    (w.step event).excepted ↔ (w.step event).machine.isrRet = excepRet := by
  obtain ⟨hlaunch, hexception, hkeep⟩ := w.machine.isrRet_step event
  change (_ ∨ _) ↔ (w.machine.step event).isrRet = excepRet
  by_cases hends : w.machine.EndsByException event
  · simp [hends, hexception hends]
  · by_cases hstarts : w.machine.Launches event
    · simp [hends, hstarts, hlaunch hstarts, excepRet]
    · simp [hends, hstarts, hkeep hstarts hends, h]

end Watched

/-- The calls of `do_execute` return what the programs have left: `schedule` takes up no process in
the middle of a call, and a child that ends makes the call that has started it return its value. -/
def Contexts.ReturnsStatus (c : Contexts) (event : KernelEvent) : Prop :=
  ¬ c.Derails event ∧ c.machine.ReturnsStatus event

/-- In a run from a state without a noted exception, the value of every program that ends is right
exactly if no child halts after an exception has ended another child and before a program has been
started. -/
theorem returnsStatus_run_iff {s : Machine} (hs : s.isrRet ≠ excepRet)
    (events : List KernelEvent) :
    EveryStep Machine.step Machine.ReturnsStatus s events ↔
      EveryStep Watched.step Watched.HaltsFresh ⟨s, False⟩ events := by
  have hstep : ∀ (s : Machine) (w : Watched) (event : KernelEvent),
      w.machine = s ∧ (w.excepted ↔ s.isrRet = excepRet) →
        (w.step event).machine = s.step event ∧
          ((w.step event).excepted ↔ (s.step event).isrRet = excepRet) := by
    rintro _ w event ⟨rfl, hnote⟩
    exact ⟨rfl, w.excepted_step hnote event⟩
  have hagree : ∀ (s : Machine) (w : Watched) (event : KernelEvent),
      w.machine = s ∧ (w.excepted ↔ s.isrRet = excepRet) →
        (s.ReturnsStatus event ↔ w.HaltsFresh event) := by
    rintro _ w event ⟨rfl, hnote⟩
    have hfresh : ¬ w.excepted ↔ w.machine.isrRet ≠ excepRet := not_congr hnote
    rw [w.machine.returnsStatus_iff event]
    cases event with
    | halt status tmp =>
      exact ⟨fun h hchild ↦ hfresh.mpr (h status tmp rfl hchild),
        fun h _ _ _ hchild ↦ hfresh.mp (h hchild)⟩
    | _ => exact iff_of_true (fun _ _ h ↦ by cases h) trivial
  have hstart : (⟨s, False⟩ : Watched).machine = s ∧ (False ↔ s.isrRet = excepRet) :=
    ⟨rfl, iff_of_false id hs⟩
  exact everyStep_simulation hstep hagree hstart events

/-- In a run from the three base shells without a noted exception, in which every program is
executed by a process whose terminal is displayed, all calls of `do_execute` return what the program
that they have started has left exactly if no child halts after an exception has ended another child
and before a program has been started. -/
theorem exitStatus_exact {s : Machine} (hs : s.ThreeShells) (hisr : s.isrRet ≠ excepRet)
    (events : List KernelEvent)
    (hforeground : EveryStep Machine.step Machine.ExecutesInForeground s events) :
    EveryStep Contexts.step Contexts.ReturnsStatus ⟨s, fun a ↦ a ≠ s.current⟩ events ↔
      EveryStep Watched.step Watched.HaltsFresh ⟨s, False⟩ events := by
  have hvalue : ∀ (c : Contexts) (event : KernelEvent), c.Kept →
      (c.ReturnsStatus event ↔ c.machine.ReturnsStatus event) :=
    fun _ event h ↦ and_iff_right (h.not_derails event)
  rw [(Contexts.kept_of_foreground hs hforeground).everyStep_congr hvalue,
    Contexts.everyStep_machine_iff]
  exact returnsStatus_run_iff hisr events

/-- The exact condition, for a child of the displayed shell that halts with status 3. -/
theorem exitStatus_exact_halt :
    EveryStep Contexts.step Contexts.ReturnsStatus
        ⟨baseShells 0 0, fun a ↦ a ≠ (baseShells 0 0).current⟩
        [executeProgram, .halt 3 emptyPcb] ↔
      EveryStep Watched.step Watched.HaltsFresh ⟨baseShells 0 0, False⟩
        [executeProgram, .halt 3 emptyPcb] :=
  exitStatus_exact (Machine.baseShells_threeShells 0 0) (by decide)
    [executeProgram, .halt 3 emptyPcb] ⟨fun _ ↦ rfl, fun h ↦ h.elim, trivial⟩

/-- A shell executes a program, which executes a program that dies; then the first program halts
with status 3, and the shell is told that it has died. -/
theorem exitStatus_not_always : ¬ ∀ (s : Machine) (events : List KernelEvent),
    s.ThreeShells → s.isrRet ≠ excepRet →
      EveryStep Contexts.step Contexts.ReturnsStatus ⟨s, fun a ↦ a ≠ s.current⟩ events := by
  intro hall
  obtain ⟨-, -, -, ⟨-, hstatus⟩, -⟩ := hall (baseShells 0 0)
    [executeProgram, executeProgram, .exception [] emptyPcb, .halt 3 emptyPcb]
    (Machine.baseShells_threeShells 0 0) (by decide)
  have hreturned : (run Machine.step (baseShells 0 0)
      [executeProgram, executeProgram, .exception [] emptyPcb]).returned (.halt 3 emptyPcb) =
        some ⟨3, 3, 256⟩ := by rfl
  have hvalue : (256 : ℤ) = ((3 : UInt8).toNat : ℤ) :=
    congrArg Returned.value (Option.some.inj (hreturned.symm.trans (hstatus (by decide))))
  exact absurd hvalue (by decide)

/-- The shell of terminal 1 executes a program while terminal 0 is displayed, and the third timer
interrupt takes it up in the middle of its call. -/
theorem exitStatus_background : (run Contexts.step
      ⟨baseShells 0 1, fun a ↦ a ≠ (baseShells 0 1).current⟩
      [executeProgram, .tick 8000 0 emptyPcb, .tick 8000 0 emptyPcb]).Derails
    (.tick 8000 0 emptyPcb) := by
  refine ⟨⟨by decide +kernel, by decide +kernel⟩, by decide +kernel, ?_⟩
  -- the shell has been the running process at the start, and no timer interrupt has found it since
  rintro ⟨⟨⟨hstart | ⟨hexecute, -⟩, -⟩ | ⟨-, hfirst⟩, -⟩ | ⟨-, hsecond⟩, -⟩
  · exact absurd hstart (by decide +kernel)
  · exact hexecute
  · exact absurd hfirst (by decide +kernel)
  · exact absurd hsecond (by decide +kernel)

end Sp18.Kernel
