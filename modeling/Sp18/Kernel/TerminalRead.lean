import Sp18.Kernel.Process
import Sp18.Foundation.StepSystem

/-!
# Reading from a terminal

`terminal_read` waits in two loops: the outer one until one of the three flags is set, the inner one
until the terminal of `cur_task` is displayed. All processes share the flags and `cur_task`. Enter
sets the flag of the displayed terminal and clears the other two; the reader that goes on clears all
three and copies the buffer of the displayed terminal.

A polling pass of a reader therefore completes if some Enter is outstanding, whatever terminal it
was pressed on, and the displayed terminal is that of the reader or that of the process that
`cur_task` points to. `terminalRead_exact` compares this with what a reader should wait for: an
Enter that was pressed on its own terminal and that no read on this terminal has used.
-/

set_option autoImplicit false
set_option relaxedAutoImplicit false

namespace Sp18.Kernel

open Foundation

/-- What a completed call of `terminal_read` has copied, and from the buffer of which terminal, and
what it returns. -/
structure ReadResult where
  source : Fin 3
  bytes : List UInt8
  value : ℤ

/-- Where a blocked reader polls, and how many bytes it wants. -/
structure Blocked where
  nbytes : ℤ
  inner : Bool

/-- The console with the processes that read from it. Processes are known by the address of their
PCB, and `reading` tells which of them are blocked in `terminal_read`. -/
structure Input where
  console : Console
  onTerm : ℤ → Fin 3
  reading : ℤ → Option Blocked

/-- The steps of the terminal input. `self` is the process that the keyboard interrupts. -/
inductive InputEvent where
  | enter (self : ℤ)
  | switchTerminal (self : ℤ) (termDest : Fin 3)
  | beginRead (reader : ℤ) (fd nbytes : ℤ)
  | poll (reader : ℤ)

namespace Input

/-- The condition on the flags in the two tests of `terminal_read`. -/
def anyFlag (s : Input) : Prop :=
  s.console.enterFlag = true ∨ s.console.enterFlag2 = true ∨ s.console.enterFlag3 = true

instance (s : Input) : Decidable s.anyFlag := inferInstanceAs (Decidable (_ ∨ _))

/-- The condition of the inner loop is false: the terminal of `cur_task` is displayed. -/
def taskDisplayed (s : Input) : Prop := s.onTerm s.console.curTask = s.console.currTerminal

instance (s : Input) : Decidable s.taskDisplayed := inferInstanceAs (Decidable (_ = _))

/-- `keyboard_handler` for Enter. -/
def enter (s : Input) (self : ℤ) : Input :=
  { s with console := { s.console with enterFlag := true }.terminalNewline self }

/-- `terminal_read` up to the outer loop. -/
def beginRead (s : Input) (reader fd nbytes : ℤ) : Input :=
  let s := { s with console := { s.console with curTask := reader } }
  if fd ≠ 0 ∨ nbytes < 0 then s
  else if nbytes = 0 then s
  else { s with
    console := { s.console with terminalReading := true }
    reading := Function.update s.reading reader (some ⟨nbytes, false⟩) }

/-- The inner loop: after at most one assignment it ends or goes on forever. -/
def innerLoop (s : Input) (reader : ℤ) : Input :=
  if s.taskDisplayed then s else { s with console := { s.console with curTask := reader } }

/-- The bytes that the loop of `terminal_read` copies from the buffer of a terminal. -/
def copied (s : Input) (t : Fin 3) (nbytes : ℤ) : List UInt8 :=
  (List.range (min nbytes bufferSize).toNat).map fun i ↦ (s.console.terminals t).keyboardBuf i

/-- The end of `terminal_read`, with the flags cleared and the bytes copied. -/
def completeRead (s : Input) (reader nbytes : ℤ) : Input × ReadResult :=
  let bytes := s.copied s.console.currTerminal nbytes
  let index := (s.console.terminals (s.onTerm s.console.curTask)).termBufIndex
  ({ s with
    console := { s.console with
      enterFlag := false, enterFlag2 := false, enterFlag3 := false, terminalReading := false }
    reading := Function.update s.reading reader none },
    ⟨s.console.currTerminal, bytes, if nbytes < index then nbytes else index + 1⟩)

/-- One polling pass of a blocked reader, from the loop where it stands to the next point where it
waits, or to the end of `terminal_read`. -/
def pollPass (s : Input) (reader : ℤ) : Input × Option ReadResult :=
  match s.reading reader with
  | none => (s, none)
  | some blocked =>
    if blocked.inner = false ∧ ¬ s.anyFlag then (s, none)
    else
      let s := s.innerLoop reader
      if ¬ s.taskDisplayed then
        ({ s with
          reading := Function.update s.reading reader (some { blocked with inner := true }) }, none)
      else if ¬ s.anyFlag then
        ({ s with
          console := { s.console with terminalReading := true }
          reading := Function.update s.reading reader (some { blocked with inner := false }) },
          none)
      else
        let (s, result) := s.completeRead reader blocked.nbytes
        (s, some result)

/-- The state after a step. -/
def step (s : Input) : InputEvent → Input
  | .enter self => s.enter self
  | .switchTerminal self termDest => { s with console := s.console.switchTerminal self termDest }
  | .beginRead reader fd nbytes => s.beginRead reader fd nbytes
  | .poll reader => (s.pollPass reader).1

variable (s : Input)

/-- Enter sets the flag of the displayed terminal and clears the other two. -/
theorem flags_enter (self : ℤ) :
    ((s.enter self).console.enterFlag = true ↔ s.console.currTerminal = 0) ∧
      ((s.enter self).console.enterFlag2 = true ↔ s.console.currTerminal = 1) ∧
      ((s.enter self).console.enterFlag3 = true ↔ s.console.currTerminal = 2) := by
  have hflags : ∀ console : Console, (console.terminalNewline self).enterFlag =
      (console.markEnter self).enterFlag ∧ (console.terminalNewline self).enterFlag2 =
      (console.markEnter self).enterFlag2 ∧ (console.terminalNewline self).enterFlag3 =
      (console.markEnter self).enterFlag3 := by
    intro console
    simp only [Console.terminalNewline]
    split_ifs <;> exact ⟨rfl, rfl, rfl⟩
  obtain ⟨hfirst, hsecond, hthird⟩ := hflags { s.console with enterFlag := true }
  simp only [enter, hfirst, hsecond, hthird, Console.markEnter, decide_eq_true_eq, and_self]

theorem anyFlag_enter (self : ℤ) : (s.enter self).anyFlag := by
  obtain ⟨hfirst, hsecond, hthird⟩ := s.flags_enter self
  unfold anyFlag
  rw [hfirst, hsecond, hthird]
  generalize s.console.currTerminal = t
  revert t
  decide

/-- After the inner loop the terminal of `cur_task` is displayed exactly if it was before or the
reader's own is. -/
theorem taskDisplayed_innerLoop (reader : ℤ) : (s.innerLoop reader).taskDisplayed ↔
    s.onTerm reader = s.console.currTerminal ∨ s.taskDisplayed := by
  by_cases htask : s.taskDisplayed
  · simp [innerLoop, htask]
  · rw [innerLoop, if_neg htask, or_iff_left htask]
    rfl

/-- The inner loop changes `cur_task` only. -/
theorem innerLoop_eq (reader : ℤ) : ∃ task,
    s.innerLoop reader = { s with console := { s.console with curTask := task } } := by
  by_cases htask : s.taskDisplayed
  · exact ⟨s.console.curTask, by rw [innerLoop, if_pos htask]⟩
  · exact ⟨reader, by rw [innerLoop, if_neg htask]⟩

@[simp] theorem anyFlag_innerLoop (reader : ℤ) : (s.innerLoop reader).anyFlag ↔ s.anyFlag := by
  obtain ⟨task, hloop⟩ := s.innerLoop_eq reader
  rw [hloop]
  rfl

/-- What a polling pass does: it goes on waiting with the same flags, or it completes and clears
them. -/
theorem pollPass_cases {reader : ℤ} {blocked : Blocked} (h : s.reading reader = some blocked) :
    (¬ (s.anyFlag ∧ (s.onTerm reader = s.console.currTerminal ∨ s.taskDisplayed)) ∧
        (s.pollPass reader).2 = none ∧ ((s.pollPass reader).1.anyFlag ↔ s.anyFlag)) ∨
      (s.anyFlag ∧ (s.onTerm reader = s.console.currTerminal ∨ s.taskDisplayed)) ∧
        ∃ result, (s.pollPass reader).2 = some result ∧ ¬ (s.pollPass reader).1.anyFlag ∧
          result.source = s.console.currTerminal ∧
          result.bytes = s.copied s.console.currTerminal blocked.nbytes := by
  rw [← s.taskDisplayed_innerLoop reader]
  have hkeep : ∀ inner : Bool, ({ (s.innerLoop reader) with
      reading := Function.update (s.innerLoop reader).reading reader
        (some { blocked with inner := inner }) } : Input).anyFlag ↔ s.anyFlag :=
    fun _ ↦ s.anyFlag_innerLoop reader
  simp only [pollPass, h]
  by_cases hflag : s.anyFlag
  · rw [if_neg fun hwait ↦ hwait.2 hflag]
    by_cases hdisplayed : (s.innerLoop reader).taskDisplayed
    · -- the reader leaves both loops
      rw [if_neg (not_not.mpr hdisplayed),
        if_neg (not_not.mpr ((s.anyFlag_innerLoop reader).mpr hflag))]
      refine Or.inr ⟨⟨hflag, hdisplayed⟩, _, rfl, ?_, ?_, ?_⟩
      · simp [completeRead, anyFlag]
      all_goals
        obtain ⟨task, hloop⟩ := s.innerLoop_eq reader
        rw [hloop]
        rfl
    · rw [if_pos hdisplayed]
      exact Or.inl ⟨fun h ↦ hdisplayed h.2, rfl, hkeep true⟩
  · refine Or.inl ⟨fun h ↦ hflag h.1, ?_⟩
    by_cases hinner : blocked.inner = false
    · rw [if_pos ⟨hinner, hflag⟩]
      exact ⟨rfl, Iff.rfl⟩
    · rw [if_neg fun hwait ↦ hinner hwait.1]
      by_cases hdisplayed : (s.innerLoop reader).taskDisplayed
      · rw [if_neg (not_not.mpr hdisplayed),
          if_pos fun h ↦ hflag ((s.anyFlag_innerLoop reader).mp h)]
        exact ⟨rfl, hkeep false⟩
      · rw [if_pos hdisplayed]
        exact ⟨rfl, hkeep true⟩

end Input

/-- The terminal input with the notes of an observer: on which terminals Enter has been pressed
since the last read on them has been completed, and whether it has been pressed on any terminal
since the last read on any has. -/
structure Noted where
  input : Input
  entered : Fin 3 → Prop
  outstanding : Prop

namespace Noted

def step (n : Noted) (event : InputEvent) : Noted where
  input := n.input.step event
  entered t := match event with
    | .enter _ => n.entered t ∨ t = n.input.console.currTerminal
    | .poll reader =>
      n.entered t ∧ ¬ ((n.input.pollPass reader).2.isSome ∧ t = n.input.onTerm reader)
    | _ => n.entered t
  outstanding := match event with
    | .enter _ => True
    | .poll reader => n.outstanding ∧ ¬ (n.input.pollPass reader).2.isSome
    | _ => n.outstanding

/-- A reader completes its call only after an Enter on its terminal, with the bytes of its terminal,
and it does complete it after such an Enter when it polls while its terminal is displayed. -/
def ReadsOwn (n : Noted) : InputEvent → Prop
  | .poll reader => ∀ blocked, n.input.reading reader = some blocked →
      (∀ result, (n.input.pollPass reader).2 = some result →
        n.entered (n.input.onTerm reader) ∧ result.source = n.input.onTerm reader ∧
          result.bytes = n.input.copied (n.input.onTerm reader) blocked.nbytes) ∧
      (n.entered (n.input.onTerm reader) →
        n.input.onTerm reader = n.input.console.currTerminal →
          (n.input.pollPass reader).2.isSome)
  | _ => True

/-- A reader whose terminal is displayed polls when the Enters since the last read are those on its
own terminal; another reader polls only when no Enter is outstanding or the terminal of `cur_task`
is not displayed either. -/
def PollSuits (n : Noted) : InputEvent → Prop
  | .poll reader => ∀ blocked, n.input.reading reader = some blocked →
      (n.input.onTerm reader = n.input.console.currTerminal →
        (n.outstanding ↔ n.entered (n.input.onTerm reader))) ∧
      (n.input.onTerm reader ≠ n.input.console.currTerminal →
        ¬ (n.outstanding ∧ n.input.taskDisplayed))
  | _ => True

variable {n : Noted}

/-- The observer knows whether a flag is set. -/
theorem outstanding_step (h : n.outstanding ↔ n.input.anyFlag) (event : InputEvent) :
    (n.step event).outstanding ↔ (n.step event).input.anyFlag := by
  cases event with
  | enter self => exact iff_of_true trivial (n.input.anyFlag_enter self)
  | switchTerminal self termDest => exact h
  | beginRead reader fd nbytes =>
    have hkeep : (n.input.beginRead reader fd nbytes).anyFlag ↔ n.input.anyFlag := by
      simp only [Input.beginRead]
      split_ifs <;> rfl
    exact h.trans hkeep.symm
  | poll reader =>
    change (n.outstanding ∧ ¬ (n.input.pollPass reader).2.isSome) ↔
      (n.input.pollPass reader).1.anyFlag
    rw [h]
    cases hreading : n.input.reading reader with
    | none => simp [Input.pollPass, hreading]
    | some blocked =>
      rcases n.input.pollPass_cases hreading with
        ⟨-, hresult, hkeep⟩ | ⟨-, result, hresult, hclear, -⟩
      · rw [hresult, hkeep]
        simp
      · rw [hresult]
        simp [hclear]

/-- One pass is right exactly if it suits. -/
theorem readsOwn_iff (h : n.outstanding ↔ n.input.anyFlag) (event : InputEvent) :
    n.ReadsOwn event ↔ n.PollSuits event := by
  cases event with
  | poll reader =>
    refine forall_congr' fun blocked ↦ forall_congr' fun hblocked ↦ ?_
    rw [h]
    rcases n.input.pollPass_cases hblocked with
      ⟨hwait, hresult, -⟩ | ⟨⟨hflag, hdisplayed⟩, result, hresult, -, hsource, hbytes⟩
    · rw [hresult]
      by_cases hown : n.input.onTerm reader = n.input.console.currTerminal
      · have hflag : ¬ n.input.anyFlag := fun hflag ↦ hwait ⟨hflag, Or.inl hown⟩
        simp [hown, hflag]
      · have htask : ¬ (n.input.anyFlag ∧ n.input.taskDisplayed) :=
          fun htask ↦ hwait ⟨htask.1, Or.inr htask.2⟩
        simp only [hown, htask]
        simp
    · rw [hresult]
      by_cases hown : n.input.onTerm reader = n.input.console.currTerminal
      · simp [hown, hflag, hsource, hbytes]
      · have htask := hdisplayed.resolve_left hown
        simp [hown, hflag, htask, hsource, Ne.symm hown]
  | _ => exact Iff.rfl

end Noted

/-- In a run from a state without a set flag, all readers wait for an Enter on their own terminal
and read their own bytes, and go on after such an Enter when they poll while their terminal is
displayed, exactly if every polling pass suits the Enters that are outstanding. -/
theorem terminalRead_exact {s : Input} (hs : ¬ s.anyFlag) (events : List InputEvent) :
    EveryStep Noted.step Noted.ReadsOwn ⟨s, fun _ ↦ False, False⟩ events ↔
      EveryStep Noted.step Noted.PollSuits ⟨s, fun _ ↦ False, False⟩ events := by
  have hnotes : EveryState Noted.step (fun n ↦ n.outstanding ↔ n.input.anyFlag)
      ⟨s, fun _ ↦ False, False⟩ events :=
    everyState_of_invariant (fun n event h ↦ Noted.outstanding_step h event)
      (iff_of_false id hs) events
  exact hnotes.everyStep_congr fun n event h ↦ Noted.readsOwn_iff h event

/-- Nobody reads yet, and terminal 0 is displayed. The PCBs of the processes 0, 1 and 2 belong to
the terminals of these numbers. -/
def quietInput : Input where
  console := clearedConsole
  onTerm a := Fin.ofNat 3 ((pcbAddr 0 - a) / eightKB).toNat
  reading _ := none

/-- The exact condition, for a reader on terminal 0 that waits for an Enter. -/
theorem terminalRead_exact_enter :
    EveryStep Noted.step Noted.ReadsOwn ⟨quietInput, fun _ ↦ False, False⟩
        [.beginRead (pcbAddr 0) 0 16, .enter (pcbAddr 0), .poll (pcbAddr 0)] ↔
      EveryStep Noted.step Noted.PollSuits ⟨quietInput, fun _ ↦ False, False⟩
        [.beginRead (pcbAddr 0) 0 16, .enter (pcbAddr 0), .poll (pcbAddr 0)] :=
  terminalRead_exact (by decide)
    [.beginRead (pcbAddr 0) 0 16, .enter (pcbAddr 0), .poll (pcbAddr 0)]

/-- Enter on terminal 0, then a switch to terminal 1: the reader on terminal 1 completes its
call. -/
theorem terminalRead_not_always : ¬ ∀ (s : Input) (events : List InputEvent), ¬ s.anyFlag →
    EveryStep Noted.step Noted.ReadsOwn ⟨s, fun _ ↦ False, False⟩ events := by
  intro hall
  obtain ⟨-, -, -, hpoll, -⟩ := hall quietInput [.beginRead (pcbAddr 1) 0 16, .enter (pcbAddr 1),
    .switchTerminal (pcbAddr 1) 1, .poll (pcbAddr 1)] (by decide)
  obtain ⟨hcompleted, -⟩ := hpoll ⟨16, false⟩ rfl
  have hcompletes : ((run Input.step quietInput [.beginRead (pcbAddr 1) 0 16, .enter (pcbAddr 1),
      .switchTerminal (pcbAddr 1) 1]).pollPass (pcbAddr 1)).2.isSome = true := by rfl
  obtain ⟨result, hresult⟩ := Option.isSome_iff_exists.mp hcompletes
  obtain ⟨hno | hshown, -⟩ := hcompleted result hresult
  · exact hno
  · exact absurd hshown (by decide)

end Sp18.Kernel
