import Sp18.Kernel.Paging
import Sp18.Kernel.VidmapEntry

/-!
# Programs are kept apart

In every run from the first shell on, whatever is executed, halted, interrupted, mapped or
displayed, the directory holds the page of the process on the CPU (`Confined`). A program therefore
reaches its own frame and a video page, and nothing of the kernel or of another process
(`user_memory_isolated`).

The runs are those of `KernelEvent`: the tables are written by `execute`, `halt`, `vidmap`, the
exception handlers, `schedule` and `switch_terminal` only. The kernel itself stores wherever a
program asks it to through `read` and `getargs`, which check the address for null alone; a program
that passes them the address of a page table is not kept apart by anything. Nor is one that
`schedule` takes up although it has run since `schedule` has interrupted it, as on a terminal where
a program has been executed in the background.
-/

set_option autoImplicit false
set_option relaxedAutoImplicit false

namespace Sp18.Kernel

open Foundation

/-- An entry of the page table for the user's video page: none, or one of the four video pages. -/
def VideoEntry (entry : ℤ) : Prop :=
  entry = 0 ∨ ∃ k ≤ 3, entry = videoMemory + (k : ℕ) * fourKB + 7

theorem videoEntry_display : VideoEntry (videoMemory + 7) :=
  Or.inr ⟨0, by decide, by simp⟩

theorem videoEntry_backing (t : Fin 3) : VideoEntry (videoMemory + ((t : ℕ) + 1) * fourKB + 7) :=
  Or.inr ⟨(t : ℕ) + 1, by omega, by simp⟩

namespace Machine

variable {s : Machine} {started : ℕ → Prop} {pid : ℕ}

theorem videoEntry_vidmemEntry (s : Machine) (t : Fin 3) : VideoEntry (s.vidmemEntry t) := by
  rw [vidmemEntry]
  split_ifs
  · exact videoEntry_backing t
  · exact videoEntry_display

/-- No event puts anything but a video page into the page table of the user. -/
theorem videoEntry_step (h : VideoEntry s.userVidmem) (event : KernelEvent) :
    VideoEntry (s.step event).userVidmem := by
  have hkept : ¬ s.Resumes event → (∀ screenStart, event ≠ .vidmap screenStart) →
      (∀ termDest, event ≠ .switchTerminal termDest) → VideoEntry (s.step event).userVidmem := by
    intro hresume hvidmap hswitch
    rwa [userVidmem_kept hresume hvidmap hswitch]
  cases event with
  | vidmap screenStart =>
    rw [step]
    by_cases haccepted : Accepted screenStart
    · rw [doVidmap_accepted haccepted]
      exact videoEntry_display
    · rwa [doVidmap_refused haccepted]
  | switchTerminal termDest =>
    rw [userVidmem_switchTerminal]
    split_ifs
    · exact videoEntry_display
    · exact videoEntry_backing _
    · exact h
  | tick esp ebp tmp =>
    by_cases hresume : s.Resumes (.tick esp ebp tmp)
    · rw [(step_tick hresume).2.2.2]
      split_ifs
      · exact videoEntry_vidmemEntry s _
      · exact h
    · exact hkept hresume (fun _ h ↦ by cases h) fun _ h ↦ by cases h
  | execute isExe args tmp => exact hkept id (fun _ h ↦ by cases h) fun _ h ↦ by cases h
  | halt status tmp => exact hkept id (fun _ h ↦ by cases h) fun _ h ↦ by cases h
  | exception messages tmp => exact hkept id (fun _ h ↦ by cases h) fun _ h ↦ by cases h

/-- What keeps programs apart: the processes that are known have pids for which there is room, the
directory holds the page of the running one, and the page table of the user a video page. -/
structure Confined (s : Machine) (started : ℕ → Prop) : Prop where
  known : s.Known started
  bounded : ∀ pid, started pid → pid < maxRunningProcesses
  page : ∃ pid, started pid ∧ s.current = pcbAddr pid ∧ s.pageDirectory32 = userPage pid
  video : VideoEntry s.userVidmem

theorem Confined.pagesFit (h : s.Confined started) : ∃ pid, s.PagesFit pid := by
  obtain ⟨pid, hpid, hcurrent, hpage⟩ := h.page
  exact ⟨pid, hcurrent, h.bounded pid hpid, hpage, h.video⟩

/-- An event may start one more process. -/
theorem Confined.step (h : s.Confined started) (event : KernelEvent) :
    ∃ started', (s.step event).Confined started' := by
  have hvideo := videoEntry_step h.video event
  have hprepared := s.prepared event
  have hknown := h.known.prepared hprepared
  cases s.outcome_step event with
  | @launch hlaunch pid hlt hfree args tmp hstep =>
    obtain ⟨pcb, t, -, -, -, -, -, hstart⟩ := (s.prepare event).startProgram_cases pid args tmp
    have hknown' := hknown.startProgram pid args tmp
    rw [hstep] at hvideo ⊢
    refine ⟨_, hknown', fun pid' hpid' ↦ ?_, ⟨pid, Or.inr rfl, ?_, ?_⟩, hvideo⟩
    · rcases hpid' with hpid' | rfl
      · exact h.bounded pid' hpid'
      · exact hlt
    · rw [hstart]
    · rw [hstart]
  | endChild hend hstep =>
    have hchild : thirdShell < (s.prepare event).running.pid := by
      rw [hprepared.running_eq.1]
      exact hend.child
    obtain ⟨parent, hparent, -, hcaller, hpid⟩ := hknown.parent hchild
    rw [hstep] at hvideo ⊢
    exact ⟨started, hknown.endChild hchild, h.bounded,
      ⟨parent, hparent, hcaller, congrArg userPage hpid⟩, hvideo⟩
  | resume hresume hstep =>
    cases event with
    | tick esp ebp tmp =>
      have hresumed := hknown.resumeTask hresume.1 hresume.2 ⟨s.termCounter + 1, rfl⟩
      rw [hstep] at hvideo ⊢
      obtain ⟨pid, hpid, hcurrent⟩ := hresumed.current
      refine ⟨started, hresumed, h.bounded, ⟨pid, hpid, hcurrent, ?_⟩, hvideo⟩
      rw [resumeTask_eq] at hcurrent ⊢
      exact congrArg userPage (pcbAddr_injective hcurrent)
    | _ => exact hresume.elim
  | stay hlaunch hend hresume hprepare console hactive hstep =>
    have hnext : (s.step event).Known started := by
      rcases h.known.step event with ⟨-, hnext, -⟩ | ⟨_, _, hlaunch', -⟩
      · exact hnext
      · exact absurd hlaunch' hlaunch
    refine ⟨started, hnext, h.bounded, ?_, hvideo⟩
    rw [hstep]
    exact h.page

/-- The first shell runs with its page, and no video page is mapped. -/
theorem FirstShell.confined (h : s.FirstShell) (hpages : s.PagesFit 0) :
    s.Confined fun pid ↦ pid = 0 where
  known := h.known
  bounded := by
    rintro pid rfl
    exact hpages.bounded
  page := ⟨0, rfl, hpages.running, hpages.page⟩
  video := hpages.video

end Machine

/-- What two processes both reach is video memory. -/
theorem Protected.disjoint {l : PagingLayout} {m : PhysicalWords} {s s' : Machine} {pid pid' : ℕ}
    (h : Protected l m s pid) (h' : Protected l m s' pid') (hne : pid ≠ pid') {write write' : Bool}
    {a a' p : BitVec 32} (ha : translate (s.tables l m) l.pageDirectory .user write a = some p)
    (ha' : translate (s'.tables l m) l.pageDirectory .user write' a' = some p) :
    0x000B8000 ≤ p.toNat ∧ p.toNat < 0x000BC000 := by
  by_cases hown : 0x08000000 ≤ a.toNat ∧ a.toNat < 0x08400000
  · obtain ⟨q, hq, hplace⟩ := h.own write a hown.1 hown.2
    obtain rfl := Option.some.inj (hq.symm.trans ha)
    by_cases hown' : 0x08000000 ≤ a'.toNat ∧ a'.toNat < 0x08400000
    · obtain ⟨q', hq', hplace'⟩ := h'.own write' a' hown'.1 hown'.2
      obtain rfl := Option.some.inj (hq'.symm.trans ha')
      refine absurd ?_ hne
      omega
    · obtain ⟨hlow, hhigh, k, hk, hvideo⟩ := h'.other write' a' q ha' hown'
      omega
  · obtain ⟨hlow, hhigh, k, hk, hvideo⟩ := h.other write a p ha hown
    omega

/-- From the first shell on, in every state of every run, the tables let a user reach the frame of
the process on the CPU and at most one video page; the kernel is mapped to itself. What two
processes both reach is video memory. -/
theorem user_memory_isolated {s : Machine} (hs : s.FirstShell) (hpages : s.PagesFit 0)
    (l : PagingLayout) (m : PhysicalWords) :
    (∀ events, EveryState Machine.step (fun s ↦ ∃ pid, Protected l m s pid) s events) ∧
      ∀ (events events' : List KernelEvent) (pid pid' : ℕ), pid ≠ pid' →
        (run Machine.step s events).current = pcbAddr pid →
        (run Machine.step s events').current = pcbAddr pid' →
        ∀ (write write' : Bool) (a a' p : BitVec 32),
          translate ((run Machine.step s events).tables l m) l.pageDirectory .user write a =
            some p →
          translate ((run Machine.step s events').tables l m) l.pageDirectory .user write' a' =
            some p →
          0x000B8000 ≤ p.toNat ∧ p.toNat < 0x000BC000 := by
  have hrun : ∀ events, EveryState Machine.step (fun s ↦ ∃ pid, Protected l m s pid) s events := by
    intro events
    have hconfined : EveryState Machine.step (fun s ↦ ∃ started, s.Confined started) s events := by
      refine everyState_of_invariant ?_ ⟨_, hs.confined hpages⟩ events
      rintro s event ⟨started, h⟩
      exact h.step event
    refine hconfined.mono ?_
    rintro s ⟨started, h⟩
    obtain ⟨pid, hfit⟩ := h.pagesFit
    exact ⟨pid, hfit.protected l m⟩
  refine ⟨hrun, fun events events' pid pid' hne hcurrent hcurrent' write write' a a' p ha ha' ↦ ?_⟩
  obtain ⟨q, hq⟩ := (hrun events).last
  obtain ⟨q', hq'⟩ := (hrun events').last
  obtain rfl : q = pid := pcbAddr_injective (hq.running.symm.trans hcurrent)
  obtain rfl : q' = pid' := pcbAddr_injective (hq'.running.symm.trans hcurrent')
  exact hq.disjoint hq' hne ha ha'

theorem firstShell_pagesFit : firstShell.PagesFit 0 where
  running := rfl
  bounded := by decide
  page := rfl
  video := Or.inl rfl

/-- Three tables of the kernel, one after the other. -/
def plainLayout : PagingLayout where
  pageDirectory := 0x00410000
  firstPageTable := 0x00411000
  userVidmemPageTable := 0x00412000
  pageDirectory_aligned := by rfl
  firstPageTable_aligned := by rfl
  userVidmemPageTable_aligned := by rfl
  pageDirectory_ne := ⟨by decide, by decide⟩
  firstPageTable_ne := by decide

/-- The first shell executes a program, and a timer interrupt starts the shell of terminal 1. -/
theorem firstShell_isolated :
    EveryState Machine.step (fun s ↦ ∃ pid, Protected plainLayout (fun _ ↦ 0) s pid) firstShell
      [.tick 8000 0 emptyPcb, executeProgram] :=
  (user_memory_isolated firstShell_spec firstShell_pagesFit plainLayout fun _ ↦ 0).1 _

end Sp18.Kernel
