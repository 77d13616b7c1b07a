import Sp18.Kernel.Outcome

/-!
# The video page of a user program

A program that has called `vidmap` writes to the screen through the one entry of
`user_vidmem_page_table`. The entry has to map the display while the program's terminal is
displayed, and else the backing page of its terminal.

Five assignments set the entry (`EntrySetter`). `do_vidmap` maps the display whatever terminal its
caller runs on. `schedule` sets the entry for the terminal of the process that it takes off the CPU,
and only if that terminal uses the page; the process that it puts on the CPU gets what it finds.
`switch_terminal` sets it for the terminal that is displayed next, or for the one that is left.

An observer who notes the last of these assignments knows what the entry holds (`Mapped.Noted`).
`vidmapEntry_exact` says in which runs every process finds the right page, by what the observer has
noted and where the process runs.
-/

set_option autoImplicit false
set_option relaxedAutoImplicit false

namespace Sp18.Kernel

open Foundation

/-- `do_vidmap` accepts the address. -/
def Accepted (screenStart : ℤ) : Prop := 134217728 ≤ screenStart ∧ screenStart ≤ 138412032

instance (screenStart : ℤ) : Decidable (Accepted screenStart) := inferInstanceAs (Decidable (_ ∧ _))

/-- The event is a call of `do_vidmap` that returns 0: the address is accepted, and the four bytes
at it are in the page of the user. -/
def MapsVideo : KernelEvent → Prop
  | .vidmap screenStart => Accepted screenStart ∧ screenStart + 4 ≤ 138412032
  | _ => False

namespace Machine

/-- The event is a call of `do_vidmap` that returns. -/
def ReturnsFromVidmap (s : Machine) : KernelEvent → Prop
  | .vidmap screenStart => (s.doVidmap screenStart).1 ≠ none
  | _ => False

/-- `user_vidmem_page_table[0]` -/
def userVidmem (s : Machine) : ℤ := s.console.userVidmemPageTable0

/-- The PCB of the process that a timer interrupt hands the CPU to. -/
def nextPcb (s : Machine) : ℤ := pcbAddr (s.activePid (s.termCounter + 1))

/-- The entry fits a process that runs on terminal `t`: it maps the display if `t` is displayed, and
else the backing page of `t`. -/
def EntryFor (s : Machine) (t : Fin 3) : Prop := s.userVidmem =
  if t = s.console.currTerminal then videoMemory + 7 else videoMemory + ((t : ℕ) + 1) * fourKB + 7

instance (s : Machine) (t : Fin 3) : Decidable (s.EntryFor t) :=
  inferInstanceAs (Decidable (s.userVidmem = _))

end Machine

/-- The assignments to `user_vidmem_page_table[0]`: that of `do_vidmap`, the two of `schedule` for a
process of the displayed terminal and for one of another terminal, and the two of `switch_terminal`
for a terminal that uses the page and is displayed next, and for one that is left. -/
inductive EntrySetter where
  | vidmap
  | scheduleShown
  | scheduleHidden (t : Fin 3)
  | switchTo
  | switchFrom (t : Fin 3)
  deriving DecidableEq

namespace EntrySetter

/-- What is assigned. -/
def entry : EntrySetter → ℤ
  | .vidmap | .scheduleShown | .switchTo => videoMemory + 7
  | .scheduleHidden t | .switchFrom t => videoMemory + ((t : ℕ) + 1) * fourKB + 7

/-- The assignment serves a process that runs on terminal `t` while terminal `shown` is displayed:
those that map the display serve the displayed terminal, and the others their own one while it is
hidden. -/
def Serves (setter : EntrySetter) (shown t : Fin 3) : Prop :=
  match setter with
  | .vidmap | .scheduleShown | .switchTo => t = shown
  | .scheduleHidden t' | .switchFrom t' => t = t' ∧ t ≠ shown

instance (setter : EntrySetter) (shown t : Fin 3) : Decidable (setter.Serves shown t) :=
  match setter with
  | .vidmap | .scheduleShown | .switchTo => inferInstanceAs (Decidable (t = shown))
  | .scheduleHidden t' | .switchFrom t' => inferInstanceAs (Decidable (t = t' ∧ t ≠ shown))

end EntrySetter

/-- A machine with what an observer of its events notes: the processes that have called `vidmap`
successfully since they were started, by the address of their PCB, and which assignment has set the
entry last. -/
structure Mapped where
  machine : Machine
  mapped : ℤ → Prop
  setter : Option EntrySetter

namespace Mapped

/-- The last assignment after an event. -/
def nextSetter (m : Mapped) : KernelEvent → Option EntrySetter
  | .vidmap screenStart => if Accepted screenStart then some .vidmap else m.setter
  | .tick esp ebp tmp =>
    let left := m.machine.running.onTerm
    if m.machine.Resumes (.tick esp ebp tmp) ∧ m.machine.vidMapFlag left = true then
      if left = m.machine.console.currTerminal then some .scheduleShown
      else some (.scheduleHidden left)
    else m.setter
  | .switchTerminal termDest =>
    let left := m.machine.console.currTerminal
    if m.machine.vidMapFlag termDest = true then some .switchTo
    else if m.machine.vidMapFlag left = true then some (.switchFrom left)
    else m.setter
  | _ => m.setter

def step (m : Mapped) (event : KernelEvent) : Mapped where
  machine := m.machine.step event
  mapped a := (m.mapped a ∨ MapsVideo event ∧ a = m.machine.current) ∧
    ¬ (m.machine.Launches event ∧ a = (m.machine.step event).current)
  setter := m.nextSetter event

/-- The running process finds the right video page, if it has called `vidmap`. -/
def EntryRight (m : Mapped) : Prop :=
  m.mapped m.machine.current → m.machine.EntryFor m.machine.running.onTerm

/-- A process that `schedule` hands the CPU to, or that returns from `do_vidmap`, finds the right
video page. -/
def EntryFits (m : Mapped) (event : KernelEvent) : Prop :=
  m.machine.Resumes event ∨ m.machine.ReturnsFromVidmap event → (m.step event).EntryRight

/-- The last assignment serves the processes of terminal `t`. -/
def SetFor (m : Mapped) (t : Fin 3) : Prop :=
  ∃ setter ∈ m.setter, setter.Serves m.machine.console.currTerminal t

/-- What the event does with the entry suits the process that goes on. A process that calls `vidmap`
runs on the displayed terminal; if the call fails, the last assignment before it serves the process.
A process that is put on the CPU runs on the terminal of the process that is taken off it, if that
terminal uses the page, and else the last assignment before serves it. -/
def EntrySuits (m : Mapped) : KernelEvent → Prop
  | .vidmap screenStart =>
    (MapsVideo (.vidmap screenStart) →
      m.machine.running.onTerm = m.machine.console.currTerminal) ∧
    (¬ Accepted screenStart → m.mapped m.machine.current → m.SetFor m.machine.running.onTerm)
  | .tick esp ebp tmp =>
    m.machine.Resumes (.tick esp ebp tmp) → m.mapped m.machine.nextPcb →
      (m.machine.vidMapFlag m.machine.running.onTerm = true →
        m.machine.running.onTerm = (m.machine.pcbs m.machine.nextPcb).onTerm) ∧
      (m.machine.vidMapFlag m.machine.running.onTerm = false →
        m.SetFor (m.machine.pcbs m.machine.nextPcb).onTerm)
  | _ => True

end Mapped

namespace Machine

variable {s : Machine}

/-- Different terminals have different pages. -/
theorem vidmemEntry_inj {t t' : Fin 3} (h : s.vidmemEntry t = s.vidmemEntry t') : t = t' := by
  unfold vidmemEntry fourKB at h
  by_cases ht : t = s.console.currTerminal <;> by_cases ht' : t' = s.console.currTerminal
  · rw [ht, ht']
  all_goals
    simp only [ht, ht', ne_eq, not_true_eq_false, not_false_eq_true, if_true, if_false] at h
    omega

theorem entryFor_iff (t : Fin 3) : s.EntryFor t ↔ s.userVidmem = s.vidmemEntry t := by
  by_cases ht : t = s.console.currTerminal
  · simp [EntryFor, vidmemEntry, ht]
  · simp [EntryFor, vidmemEntry, ht]

/-- The entry fits the terminals that the assignment serves which has set it. -/
theorem entryFor_iff_serves {setter : EntrySetter} (h : s.userVidmem = setter.entry) (t : Fin 3) :
    s.EntryFor t ↔ setter.Serves s.console.currTerminal t := by
  have hdisplay : videoMemory + 7 = (if t = s.console.currTerminal then videoMemory + 7 else
      videoMemory + ((t : ℕ) + 1) * fourKB + 7) ↔ t = s.console.currTerminal := by
    unfold fourKB
    split_ifs with ht
    · exact iff_of_true rfl ht
    · exact iff_of_false (by omega) ht
  have hbacking : ∀ t' : Fin 3, videoMemory + ((t' : ℕ) + 1) * fourKB + 7 =
      (if t = s.console.currTerminal then videoMemory + 7 else
        videoMemory + ((t : ℕ) + 1) * fourKB + 7) ↔ t = t' ∧ t ≠ s.console.currTerminal := by
    intro t'
    unfold fourKB
    split_ifs with ht
    · exact iff_of_false (by omega) fun hserves ↦ hserves.2 ht
    · exact ⟨fun hpage ↦ ⟨by omega, ht⟩, fun hserves ↦ by rw [hserves.1]⟩
  rw [EntryFor, h]
  cases setter with
  | vidmap => exact hdisplay
  | scheduleShown => exact hdisplay
  | scheduleHidden t' => exact hbacking t'
  | switchTo => exact hdisplay
  | switchFrom t' => exact hbacking t'

/-- A call of `do_vidmap` with an address that is refused. -/
theorem doVidmap_refused {screenStart : ℤ} (h : ¬ Accepted screenStart) :
    s.doVidmap screenStart = (some (-1), s) := by
  have hrefused : screenStart < 134217728 ∨ screenStart > 138412032 := by
    unfold Accepted at h
    omega
  rw [doVidmap, if_pos hrefused]

/-- A call with an address that is accepted. -/
theorem doVidmap_accepted {screenStart : ℤ} (h : Accepted screenStart) :
    s.doVidmap screenStart = (if screenStart + 4 ≤ 138412032 then some 0 else none,
      { s.setVidMapFlag s.running.onTerm true with
        console := { (s.setVidMapFlag s.running.onTerm true).console with
          userVidmemPageTable0 := videoMemory + 7 } }) := by
  have haccepted : ¬ (screenStart < 134217728 ∨ screenStart > 138412032) := by
    unfold Accepted at h
    omega
  rw [doVidmap, if_neg haccepted]

/-- What a timer interrupt with all shells started does. -/
theorem step_tick {esp : Fin 8192} {ebp : ℤ} {tmp : Pcb}
    (h : s.Resumes (.tick esp ebp tmp)) :
    (s.step (.tick esp ebp tmp)).current = s.nextPcb ∧
      (s.step (.tick esp ebp tmp)).running.onTerm = (s.pcbs s.nextPcb).onTerm ∧
      (s.step (.tick esp ebp tmp)).console.currTerminal = s.console.currTerminal ∧
      (s.step (.tick esp ebp tmp)).userVidmem =
        if s.vidMapFlag s.running.onTerm = true then s.vidmemEntry s.running.onTerm
        else s.userVidmem := by
  have hprepared := s.prepared (.tick esp ebp tmp)
  have hstep : s.step (.tick esp ebp tmp) = (s.prepare (.tick esp ebp tmp)).resumeTask :=
    s.schedule_resume h.1 h.2 _ ebp tmp
  have hterm := hprepared.running_eq.2.1
  rw [hstep, resumeTask_eq, hterm]
  exact ⟨rfl, (hprepared.pcb_eq s.nextPcb).2.1, rfl, rfl⟩

theorem userVidmem_switchTerminal (s : Machine) (termDest : Fin 3) :
    (s.step (.switchTerminal termDest)).userVidmem =
      if s.vidMapFlag termDest = true then videoMemory + 7
      else if s.vidMapFlag s.console.currTerminal = true then
        videoMemory + ((s.console.currTerminal : ℕ) + 1) * fourKB + 7
      else s.userVidmem := by
  have hswitch := congrArg Console.TaskView.userVidmem
    (s.console.tasks_switchTerminal s.current termDest)
  refine hswitch.trans ?_
  change (if s.vidMapFlag termDest = false then if s.vidMapFlag s.console.currTerminal = true then
    _ else s.userVidmem else _) = _
  cases s.vidMapFlag termDest <;> rfl

/-- The other events leave the entry alone. -/
theorem userVidmem_kept {event : KernelEvent} (hresume : ¬ s.Resumes event)
    (hvidmap : ∀ screenStart, event ≠ .vidmap screenStart)
    (hswitch : ∀ termDest, event ≠ .switchTerminal termDest) :
    (s.step event).userVidmem = s.userVidmem := by
  have hprepared : (s.prepare event).userVidmem = s.userVidmem :=
    congrArg Console.TaskView.userVidmem (s.prepared event).tasks
  cases s.outcome_step event with
  | @launch hlaunch pid hlt hfree args tmp hstep =>
    obtain ⟨pcb, t, -, -, -, -, -, hstart⟩ := (s.prepare event).startProgram_cases pid args tmp
    rw [hstep, hstart]
    exact hprepared
  | endChild hend hstep =>
    rw [hstep]
    exact hprepared
  | resume h hstep => exact absurd h hresume
  | stay hlaunch hend hno hprepare console hactive hstep =>
    cases event with
    | execute isExe args tmp =>
      rcases s.doExecute_cases isExe args tmp with
        ⟨console', value, htasks, -, hreturn⟩ | ⟨hexe, pid, hlt, hfree, -, -⟩
      · rw [step, hreturn]
        exact congrArg Console.TaskView.userVidmem htasks
      · exact absurd ⟨hexe, pid, hlt, hfree⟩ hlaunch
    | halt status tmp => exact absurd (Nat.lt_of_not_le hlaunch) hend
    | exception messages tmp => exact absurd (Nat.lt_of_not_le hlaunch) hend
    | tick esp ebp tmp =>
      refine absurd ⟨?_, ?_⟩ hresume
      · exact Bool.of_not_eq_false fun hfalse ↦ hlaunch (Or.inl hfalse)
      · exact Bool.of_not_eq_false fun hfalse ↦ hlaunch (Or.inr hfalse)
    | switchTerminal termDest => exact absurd rfl (hswitch termDest)
    | vidmap screenStart => exact absurd rfl (hvidmap screenStart)

end Machine

namespace Mapped

variable {m : Mapped}

/-! ### The last assignment -/

/-- The entry holds what the last assignment has stored, and there has been one if a process has
called `vidmap`. -/
structure Noted (m : Mapped) : Prop where
  entry : ∀ setter ∈ m.setter, m.machine.userVidmem = setter.entry
  known : ∀ a, m.mapped a → m.setter ≠ none

/-- An event sets the entry as noted, or leaves it and the note alone. -/
theorem setter_step (m : Mapped) (event : KernelEvent) :
    (m.nextSetter event = m.setter ∧
        (m.machine.step event).userVidmem = m.machine.userVidmem) ∨
      ∃ setter, m.nextSetter event = some setter ∧
        (m.machine.step event).userVidmem = setter.entry := by
  cases event with
  | vidmap screenStart =>
    rw [nextSetter, Machine.step]
    by_cases haccepted : Accepted screenStart
    · rw [if_pos haccepted, Machine.doVidmap_accepted haccepted]
      exact Or.inr ⟨_, rfl, rfl⟩
    · rw [if_neg haccepted, Machine.doVidmap_refused haccepted]
      exact Or.inl ⟨rfl, rfl⟩
  | switchTerminal termDest =>
    rw [nextSetter, Machine.userVidmem_switchTerminal]
    split_ifs
    · exact Or.inr ⟨_, rfl, rfl⟩
    · exact Or.inr ⟨_, rfl, rfl⟩
    · exact Or.inl ⟨rfl, rfl⟩
  | tick esp ebp tmp =>
    by_cases hresume : m.machine.Resumes (.tick esp ebp tmp)
    · obtain ⟨-, -, -, hentry⟩ := Machine.step_tick hresume
      rw [nextSetter, hentry]
      by_cases hflag : m.machine.vidMapFlag m.machine.running.onTerm = true
      · rw [if_pos hflag, if_pos ⟨hresume, hflag⟩, Machine.vidmemEntry]
        by_cases hshown : m.machine.running.onTerm = m.machine.console.currTerminal
        · rw [if_pos hshown, if_neg (not_not.mpr hshown)]
          exact Or.inr ⟨_, rfl, rfl⟩
        · rw [if_neg hshown, if_pos hshown]
          exact Or.inr ⟨_, rfl, rfl⟩
      · rw [if_neg hflag, if_neg fun h ↦ hflag h.2]
        exact Or.inl ⟨rfl, rfl⟩
    · refine Or.inl ⟨if_neg fun h ↦ hresume h.1, Machine.userVidmem_kept hresume ?_ ?_⟩ <;>
        exact fun _ h ↦ by cases h
  | execute isExe args tmp =>
    exact Or.inl ⟨rfl, Machine.userVidmem_kept id (fun _ h ↦ by cases h) fun _ h ↦ by cases h⟩
  | halt status tmp =>
    exact Or.inl ⟨rfl, Machine.userVidmem_kept id (fun _ h ↦ by cases h) fun _ h ↦ by cases h⟩
  | exception messages tmp =>
    exact Or.inl ⟨rfl, Machine.userVidmem_kept id (fun _ h ↦ by cases h) fun _ h ↦ by cases h⟩

theorem Noted.step (h : m.Noted) (event : KernelEvent) : (m.step event).Noted := by
  have hknown : ∀ a, (m.step event).mapped a → m.nextSetter event ≠ none := by
    rintro a ⟨hmapped, -⟩
    rcases hmapped with hmapped | ⟨hvideo, -⟩
    · rcases m.setter_step event with ⟨hsame, -⟩ | ⟨setter, hset, -⟩
      · rw [hsame]
        exact h.known a hmapped
      · rw [hset]
        exact Option.some_ne_none setter
    · cases event with
      | vidmap screenStart =>
        rw [nextSetter, if_pos hvideo.1]
        exact Option.some_ne_none _
      | _ => exact hvideo.elim
  refine ⟨fun setter hsetter ↦ ?_, hknown⟩
  rcases m.setter_step event with ⟨hsame, hentry⟩ | ⟨setter', hset, hentry⟩
  · exact hentry.trans (h.entry setter (hsame ▸ hsetter))
  · obtain rfl : setter' = setter := Option.some.inj (hset.symm.trans hsetter)
    exact hentry

/-- A process that has called `vidmap` finds the right page exactly if the last assignment serves
it. -/
theorem Noted.entryFor_iff (h : m.Noted) {a : ℤ} (hmapped : m.mapped a) (t : Fin 3) :
    m.machine.EntryFor t ↔ m.SetFor t := by
  obtain ⟨setter, hsetter⟩ := Option.ne_none_iff_exists'.mp (h.known a hmapped)
  rw [Machine.entryFor_iff_serves (h.entry setter hsetter) t]
  refine ⟨fun hserves ↦ ⟨setter, hsetter, hserves⟩, ?_⟩
  rintro ⟨setter', hsetter', hserves⟩
  obtain rfl : setter = setter' := Option.some.inj (hsetter.symm.trans hsetter')
  exact hserves

/-! ### One event -/

/-- A call of `do_vidmap` that returns 0 maps the display for its caller. -/
theorem entryRight_mapsVideo {screenStart : ℤ} (h : MapsVideo (.vidmap screenStart)) :
    (m.step (.vidmap screenStart)).EntryRight ↔
      m.machine.running.onTerm = m.machine.console.currTerminal := by
  have hstep : m.machine.step (.vidmap screenStart) =
      { m.machine.setVidMapFlag m.machine.running.onTerm true with
        console := { (m.machine.setVidMapFlag m.machine.running.onTerm true).console with
          userVidmemPageTable0 := videoMemory + 7 } } := by
    rw [Machine.step, Machine.doVidmap_accepted h.1]
  have hmapped : (m.step (.vidmap screenStart)).mapped
      (m.step (.vidmap screenStart)).machine.current := by
    refine ⟨Or.inr ⟨h, ?_⟩, fun hlaunch ↦ hlaunch.1⟩
    change (m.machine.step (.vidmap screenStart)).current = m.machine.current
    rw [hstep]
    rfl
  have hentry : (m.step (.vidmap screenStart)).machine.EntryFor
      (m.step (.vidmap screenStart)).machine.running.onTerm ↔
        m.machine.running.onTerm = m.machine.console.currTerminal := by
    change (m.machine.step (.vidmap screenStart)).EntryFor
      (m.machine.step (.vidmap screenStart)).running.onTerm ↔ _
    rw [hstep]
    exact @Machine.entryFor_iff_serves _ .vidmap rfl _
  rw [← hentry]
  exact ⟨fun hright ↦ hright hmapped, fun hright _ ↦ hright⟩

/-- A call that fails leaves everything alone. -/
theorem step_refused {screenStart : ℤ} (h : ¬ Accepted screenStart) :
    m.step (.vidmap screenStart) = m := by
  have hmachine : m.machine.step (.vidmap screenStart) = m.machine := by
    rw [Machine.step, Machine.doVidmap_refused h]
  obtain ⟨machine, mapped, setter⟩ := m
  simp only [step, mk.injEq]
  refine ⟨hmachine, funext fun a ↦ propext ?_, if_neg h⟩
  constructor
  · exact fun hmapped ↦ hmapped.1.resolve_right fun hvideo ↦ h hvideo.1.1
  · exact fun hmapped ↦ ⟨Or.inl hmapped, fun hlaunch ↦ hlaunch.1⟩

theorem entryFits_vidmap_iff (h : m.Noted) (screenStart : ℤ) :
    m.EntryFits (.vidmap screenStart) ↔ m.EntrySuits (.vidmap screenStart) := by
  have hreturns : m.EntryFits (.vidmap screenStart) ↔
      ((m.machine.doVidmap screenStart).1 ≠ none → (m.step (.vidmap screenStart)).EntryRight) :=
    ⟨fun hfits hreturn ↦ hfits (Or.inr hreturn),
      fun hright hgoes ↦ hright (hgoes.resolve_left id)⟩
  rw [hreturns, EntrySuits]
  by_cases haccepted : Accepted screenStart
  · rw [Machine.doVidmap_accepted haccepted]
    by_cases hstored : screenStart + 4 ≤ 138412032
    · rw [if_pos hstored, entryRight_mapsVideo ⟨haccepted, hstored⟩]
      exact ⟨fun hshown ↦ ⟨fun _ ↦ hshown (Option.some_ne_none 0), absurd haccepted⟩,
        fun hsuits _ ↦ hsuits.1 ⟨haccepted, hstored⟩⟩
    · -- the store faults, and the call does not return
      rw [if_neg hstored]
      exact iff_of_true (fun hreturn ↦ absurd rfl hreturn)
        ⟨fun hvideo ↦ absurd hvideo.2 hstored, absurd haccepted⟩
  · rw [Machine.doVidmap_refused haccepted, step_refused haccepted, EntryRight]
    constructor
    · exact fun hright ↦ ⟨fun hvideo ↦ absurd hvideo.1 haccepted,
        fun _ hmapped ↦ (h.entryFor_iff hmapped _).mp (hright (Option.some_ne_none _) hmapped)⟩
    · exact fun hsuits _ hmapped ↦ (h.entryFor_iff hmapped _).mpr (hsuits.2 haccepted hmapped)

/-- A timer interrupt sets the page for the process that it takes off the CPU. -/
theorem entryRight_tick_iff {esp : Fin 8192} {ebp : ℤ} {tmp : Pcb}
    (h : m.machine.Resumes (.tick esp ebp tmp)) : (m.step (.tick esp ebp tmp)).EntryRight ↔
      (m.mapped m.machine.nextPcb →
        (m.machine.vidMapFlag m.machine.running.onTerm = true →
          m.machine.running.onTerm = (m.machine.pcbs m.machine.nextPcb).onTerm) ∧
        (m.machine.vidMapFlag m.machine.running.onTerm = false →
          m.machine.EntryFor (m.machine.pcbs m.machine.nextPcb).onTerm)) := by
  obtain ⟨hcurrent, hterm, hshown, hentry⟩ := Machine.step_tick h
  have hmapped : (m.step (.tick esp ebp tmp)).mapped
      (m.step (.tick esp ebp tmp)).machine.current ↔ m.mapped m.machine.nextPcb := by
    change ((m.mapped (m.machine.step (.tick esp ebp tmp)).current ∨ _) ∧ _) ↔ _
    rw [hcurrent]
    constructor
    · rintro ⟨hmapped | hvideo, -⟩
      · exact hmapped
      · exact hvideo.1.elim
    · exact fun hmapped ↦ ⟨Or.inl hmapped, fun hlaunch ↦ h.not_launches hlaunch.1⟩
  rw [EntryRight, hmapped]
  refine forall_congr' fun _ ↦ ?_
  change (m.machine.step (.tick esp ebp tmp)).EntryFor
    (m.machine.step (.tick esp ebp tmp)).running.onTerm ↔ _
  have hpage : ∀ t, (m.machine.step (.tick esp ebp tmp)).vidmemEntry t =
      m.machine.vidmemEntry t := by
    intro t
    simp only [Machine.vidmemEntry, hshown]
  rw [Machine.entryFor_iff, Machine.entryFor_iff, hpage, hentry, hterm]
  by_cases hflag : m.machine.vidMapFlag m.machine.running.onTerm = true
  · simp only [hflag, if_true, true_imp_iff, Bool.true_eq_false, false_imp_iff, and_true]
    exact ⟨fun h ↦ Machine.vidmemEntry_inj h, fun h ↦ by rw [h]⟩
  · rw [Bool.not_eq_true] at hflag
    simp only [hflag, Bool.false_eq_true, if_false, false_imp_iff, true_imp_iff, true_and]

/-- One event gives the process that goes on the right page exactly if it suits that process. -/
theorem entryFits_iff (h : m.Noted) (event : KernelEvent) :
    m.EntryFits event ↔ m.EntrySuits event := by
  cases event with
  | vidmap screenStart => exact entryFits_vidmap_iff h screenStart
  | tick esp ebp tmp =>
    have hgoes : m.EntryFits (.tick esp ebp tmp) ↔ (m.machine.Resumes (.tick esp ebp tmp) →
        (m.step (.tick esp ebp tmp)).EntryRight) :=
      ⟨fun h hresume ↦ h (Or.inl hresume), fun h hgoes ↦ hgoes.elim h fun hno ↦ hno.elim⟩
    rw [hgoes, EntrySuits]
    refine forall_congr' fun hresume ↦ (entryRight_tick_iff hresume).trans ?_
    refine forall_congr' fun hmapped ↦ and_congr_right' (forall_congr' fun _ ↦ ?_)
    exact h.entryFor_iff hmapped _
  | _ =>
    refine iff_of_true ?_ trivial
    rintro (h | h)
    · exact h.elim
    · exact h.elim

/-- A process that has called `vidmap` keeps the page until another program takes its place. -/
theorem mapped_step (m : Mapped) {event : KernelEvent} (hlaunch : ¬ m.machine.Launches event)
    {a : ℤ} (h : m.mapped a ∨ MapsVideo event ∧ a = m.machine.current) : (m.step event).mapped a :=
  ⟨h, fun hstart ↦ hlaunch hstart.1⟩

end Mapped

/-- In a run in which no process has called `vidmap` at first, every process that has called it
finds the right video page when `schedule` hands it the CPU and when it returns from `do_vidmap`,
exactly if what every event does with the entry suits the process that goes on. -/
theorem vidmapEntry_exact (s : Machine) (events : List KernelEvent) :
    EveryStep Mapped.step Mapped.EntryFits ⟨s, fun _ ↦ False, none⟩ events ↔
      EveryStep Mapped.step Mapped.EntrySuits ⟨s, fun _ ↦ False, none⟩ events := by
  have hstart : Mapped.Noted ⟨s, fun _ ↦ False, none⟩ := by
    refine ⟨fun setter hsetter ↦ ?_, fun _ hmapped ↦ hmapped.elim⟩
    cases hsetter
  have hnoted : EveryState Mapped.step Mapped.Noted ⟨s, fun _ ↦ False, none⟩ events :=
    everyState_of_invariant (fun _ event h ↦ h.step event) hstart events
  exact hnoted.everyStep_congr fun _ event h ↦ Mapped.entryFits_iff h event

/-- No shell has called `vidmap` yet. -/
def unmappedShells : Mapped := ⟨baseShells 0 0, fun _ ↦ False, none⟩

/-- A process that has called `vidmap` keeps the page while no program is started. -/
theorem mapped_run (m : Mapped) {a : ℤ} {events : List KernelEvent} (h : m.mapped a)
    (hlaunch : EveryStep Machine.step (fun s event ↦ ¬ s.Launches event) m.machine events) :
    (run Mapped.step m events).mapped a := by
  induction events generalizing m with
  | nil => exact h
  | cons event rest ih => exact ih _ (m.mapped_step hlaunch.1 (Or.inl h)) hlaunch.2

/-- The shells of terminals 0 and 1 have called `vidmap` while their terminals were displayed,
terminal 1 is displayed, and the CPU works for the shell of terminal 2. -/
def twoMaps : List KernelEvent := [.vidmap 134217728, .switchTerminal 1, .tick 8000 0 emptyPcb,
  .vidmap 134217728, .tick 8000 0 emptyPcb]

/-- The shell of terminal 0 is then put on the CPU with the display as its page. -/
theorem vidmapEntry_not_always : ¬ ∀ (s : Machine) (events : List KernelEvent),
    EveryStep Mapped.step Mapped.EntryFits ⟨s, fun _ ↦ False, none⟩ events := by
  intro hall
  have hsteps := hall (baseShells 0 0) (twoMaps ++ [.tick 8000 0 emptyPcb])
  have hfits : (run Mapped.step unmappedShells twoMaps).EntryFits (.tick 8000 0 emptyPcb) :=
    hsteps.2.2.2.2.2.1
  have hresumes : (run Mapped.step unmappedShells twoMaps).machine.Resumes
      (.tick 8000 0 emptyPcb) := ⟨by decide +kernel, by decide +kernel⟩
  have hentry := (Mapped.entryRight_tick_iff hresumes).mp (hfits (Or.inl hresumes))
  have hnext : (run Mapped.step unmappedShells twoMaps).machine.nextPcb = pcbAddr 0 := by
    decide +kernel
  have hfirst : (unmappedShells.step (.vidmap 134217728)).mapped (pcbAddr 0) :=
    unmappedShells.mapped_step id (Or.inr ⟨⟨by decide, by decide⟩, rfl⟩)
  have hmapped : (run Mapped.step unmappedShells twoMaps).mapped (pcbAddr 0) := by
    refine mapped_run (unmappedShells.step (.vidmap 134217728)) hfirst ⟨id, ?_, id, ?_, trivial⟩
    all_goals decide +kernel
  rw [hnext] at hentry
  exact absurd ((hentry hmapped).2 (by decide +kernel)) (by decide +kernel)

end Sp18.Kernel
