import Sp18.Kernel.ContextSwitch
import Sp18.Foundation.ParentChain

/-!
# The processes of a terminal

The shells 0, 1 and 2 are the base shells of the three terminals. A process that executes a program
waits until it halts, so that the processes of a terminal form a chain: its active process, the
process that waits for that one, and so on down to the base shell (`Machine.TerminalsHealthy`).

`ProcessTree` is the part of the machine's state that this is about, with the four ways in which
events change it: a program starts, a program ends, a shell is started again, and the CPU goes to
another terminal's active process. A program ends correctly because its parent is the process that
called `do_execute`, and because a chain has no room for the same process twice.

The chain breaks where `do_execute` starts a program for a process whose terminal is not displayed:
the child goes to the displayed terminal, `curr_terminal`, and not to that of its parent. Runs
without such a call are healthy throughout, and no others are
(`terminals_healthy_iff`).
-/

set_option autoImplicit false
set_option relaxedAutoImplicit false

namespace Sp18.Kernel

open Foundation

/-- What the events do to the processes of the terminals. PCBs are known by their address. -/
structure ProcessTree where
  usedPid : ℕ → Bool
  pid : ℤ → ℕ
  onTerm : ℤ → Fin 3
  parent : ℤ → ℤ
  activePid : Fin 3 → ℕ
  current : ℤ
  caller : ℕ → ℤ

namespace ProcessTree

/-- The running process starts a program as process `pid` on terminal `t`. -/
def startChild (tree : ProcessTree) (pid : ℕ) (t : Fin 3) : ProcessTree where
  usedPid := Function.update tree.usedPid pid true
  pid := Function.update tree.pid (pcbAddr pid) pid
  onTerm := Function.update tree.onTerm (pcbAddr pid) t
  parent := Function.update tree.parent (pcbAddr pid) tree.current
  activePid := Function.update tree.activePid t pid
  current := pcbAddr pid
  caller := Function.update tree.caller pid tree.current

/-- The base shell of terminal `t` starts. Its parent is whatever the memory holds. -/
def startShell (tree : ProcessTree) (t : Fin 3) (parent : ℤ) : ProcessTree where
  usedPid := Function.update tree.usedPid t true
  pid := Function.update tree.pid (pcbAddr t) t
  onTerm := Function.update tree.onTerm (pcbAddr t) t
  parent := Function.update tree.parent (pcbAddr t) parent
  activePid := Function.update tree.activePid t t
  current := pcbAddr t
  caller := Function.update tree.caller t tree.current

/-- The pid of the running process becomes free. -/
def release (tree : ProcessTree) : ProcessTree :=
  { tree with usedPid := Function.update tree.usedPid (tree.pid tree.current) false }

/-- The running process ends, and the process that waits for it goes on. -/
def endChild (tree : ProcessTree) : ProcessTree :=
  { tree.release with
    activePid := Function.update tree.activePid (tree.onTerm tree.current)
      (tree.pid (tree.parent tree.current))
    current := tree.caller (tree.pid tree.current) }

/-- The CPU goes to the active process of a terminal. -/
def switchTo (tree : ProcessTree) (t : Fin 3) : ProcessTree :=
  { tree with current := pcbAddr (tree.activePid t) }

/-- What the running process can do to the tree: nothing, start a program on its own terminal, end
as a child, or end as a base shell and start again. -/
inductive Moves (tree : ProcessTree) : ProcessTree → Prop
  | stay : Moves tree tree
  | startChild {pid : ℕ} (hchild : thirdShell < pid) (hfree : tree.usedPid pid = false) :
      Moves tree (tree.startChild pid (tree.onTerm tree.current))
  | endChild (hchild : thirdShell < tree.pid tree.current) : Moves tree tree.endChild
  | restart {t : Fin 3} (hshell : tree.pid tree.current = t) (parent : ℤ) :
      Moves tree (tree.release.startShell t parent)

/-- The PCB at an address belongs to a process in use on terminal `t`. -/
structure InUseOn (tree : ProcessTree) (t : Fin 3) (a : ℤ) : Prop where
  address : a = pcbAddr (tree.pid a)
  used : tree.usedPid (tree.pid a) = true
  terminal : tree.onTerm a = t

/-- From the active process of each terminal the parents lead down to the base shell, through
processes in use on the terminal. -/
def Healthy (tree : ProcessTree) : Prop :=
  ∀ t : Fin 3, ∃ depth, ChainTo (tree.InUseOn t) tree.parent (pcbAddr t) depth
    (pcbAddr (tree.activePid t))

/-- What holds between two events: the chains, that the running process is the active process of its
terminal, and that the process that waits for another is its parent. -/
structure Invariant (tree : ProcessTree) : Prop where
  healthy : tree.Healthy
  running : tree.current = pcbAddr (tree.activePid (tree.onTerm tree.current))
  waiting : ∀ pid, thirdShell < pid → tree.usedPid pid = true →
    tree.caller pid = tree.parent (pcbAddr pid)

section Steps

variable {tree : ProcessTree}

/-- The active process of a terminal is a process in use on it. -/
theorem Healthy.active (h : tree.Healthy) (t : Fin 3) :
    tree.InUseOn t (pcbAddr (tree.activePid t)) := by
  obtain ⟨depth, hchain⟩ := h t
  exact hchain.ok_self

theorem Healthy.shell (h : tree.Healthy) (t : Fin 3) : tree.InUseOn t (pcbAddr t) := by
  obtain ⟨depth, hchain⟩ := h t
  exact hchain.ok_root

theorem InUseOn.pid_eq {t : Fin 3} {pid : ℕ} (h : tree.InUseOn t (pcbAddr pid)) :
    tree.pid (pcbAddr pid) = pid :=
  (pcbAddr_inj.mp h.address).symm

theorem InUseOn.used_pid {t : Fin 3} {pid : ℕ} (h : tree.InUseOn t (pcbAddr pid)) :
    tree.usedPid pid = true := by
  have hused := h.used
  rwa [h.pid_eq] at hused

/-- The running process is in use on its terminal. -/
theorem Invariant.current (h : tree.Invariant) :
    tree.InUseOn (tree.onTerm tree.current) tree.current := by
  have hactive := h.healthy.active (tree.onTerm tree.current)
  rwa [← h.running] at hactive

/-- A process in use has another address than a free pid. -/
theorem InUseOn.ne_free {t : Fin 3} {a : ℤ} {pid : ℕ} (h : tree.InUseOn t a)
    (hfree : tree.usedPid pid = false) : a ≠ pcbAddr pid := by
  rintro rfl
  rw [h.used_pid] at hfree
  cases hfree

theorem Invariant.startChild (h : tree.Invariant) {pid : ℕ} (hchild : thirdShell < pid)
    (hfree : tree.usedPid pid = false) :
    (tree.startChild pid (tree.onTerm tree.current)).Invariant := by
  have hkeep : ∀ (t : Fin 3) (b : ℤ), tree.InUseOn t b →
      (tree.startChild pid (tree.onTerm tree.current)).InUseOn t b ∧
        (tree.startChild pid (tree.onTerm tree.current)).parent b = tree.parent b := by
    intro t b hb
    have hne := hb.ne_free hfree
    have hpid : tree.pid b ≠ pid := by
      rintro rfl
      rw [hb.used] at hfree
      cases hfree
    refine ⟨⟨?_, ?_, ?_⟩, ?_⟩
    · simpa [ProcessTree.startChild, hne] using hb.address
    · simpa [ProcessTree.startChild, hne, hpid] using hb.used
    · simpa [ProcessTree.startChild, hne] using hb.terminal
    · simp [ProcessTree.startChild, hne]
  have hnew : (tree.startChild pid (tree.onTerm tree.current)).InUseOn
      (tree.onTerm tree.current) (pcbAddr pid) := by
    constructor <;> simp [ProcessTree.startChild]
  refine ⟨fun t ↦ ?_, ?_, fun pid' hchild' hused ↦ ?_⟩
  · obtain ⟨depth, hchain⟩ := h.healthy t
    have hchain' := hchain.congr (hkeep t)
    by_cases ht : t = tree.onTerm tree.current
    · -- the child stands on top of the chain of the running process
      subst ht
      have hne : pcbAddr pid ≠ pcbAddr (tree.onTerm tree.current : ℕ) := by
        rw [ne_eq, pcbAddr_inj]
        unfold thirdShell at hchild
        omega
      refine ⟨depth + 1, ?_⟩
      have hactive : (tree.startChild pid (tree.onTerm tree.current)).activePid
          (tree.onTerm tree.current) = pid := by simp [ProcessTree.startChild]
      have hparent : (tree.startChild pid (tree.onTerm tree.current)).parent (pcbAddr pid) =
          pcbAddr (tree.activePid (tree.onTerm tree.current)) := by
        rw [← h.running]
        simp [ProcessTree.startChild]
      rw [hactive]
      refine .step hnew hne ?_
      rwa [hparent]
    · have hactive : (tree.startChild pid (tree.onTerm tree.current)).activePid t =
          tree.activePid t := by simp [ProcessTree.startChild, ht]
      rw [hactive]
      exact ⟨depth, hchain'⟩
  · simp [ProcessTree.startChild]
  · by_cases hsame : pid' = pid
    · simp [ProcessTree.startChild, hsame]
    · have hwait := h.waiting pid' hchild' (by simpa [ProcessTree.startChild, hsame] using hused)
      simpa [ProcessTree.startChild, hsame] using hwait

/-- The parent of a child stands below it in the chain of the terminal, and waits for it. -/
theorem Invariant.parent_waits (h : tree.Invariant) (hchild : thirdShell < tree.pid tree.current) :
    ∃ depth, ChainTo (tree.InUseOn (tree.onTerm tree.current)) tree.parent
        (pcbAddr (tree.onTerm tree.current : ℕ)) (depth + 1) tree.current ∧
      tree.InUseOn (tree.onTerm tree.current) (tree.parent tree.current) ∧
      tree.caller (tree.pid tree.current) = tree.parent tree.current := by
  have hcurrent := h.current
  obtain ⟨depth, hchain⟩ := h.healthy (tree.onTerm tree.current)
  rw [← h.running] at hchain
  have hne : tree.current ≠ pcbAddr (tree.onTerm tree.current : ℕ) := by
    rw [hcurrent.address, ne_eq, pcbAddr_inj]
    unfold thirdShell at hchild
    omega
  obtain ⟨depth', rfl, hparent⟩ := hchain.of_ne_root hne
  refine ⟨depth', hchain, hparent.ok_self, ?_⟩
  rw [h.waiting _ hchild hcurrent.used, ← hcurrent.address]

theorem Invariant.endChild (h : tree.Invariant)
    (hchild : thirdShell < tree.pid tree.current) : tree.endChild.Invariant := by
  have hcurrent := h.current
  have hkeep : ∀ (t : Fin 3) (b : ℤ), b ≠ tree.current → tree.InUseOn t b →
      tree.endChild.InUseOn t b ∧ tree.endChild.parent b = tree.parent b := by
    intro t b hne hb
    have hpid : tree.pid b ≠ tree.pid tree.current := by
      intro hsame
      rw [hb.address, hcurrent.address, hsame] at hne
      exact hne rfl
    refine ⟨⟨hb.address, ?_, hb.terminal⟩, rfl⟩
    simpa [ProcessTree.endChild, release, hpid] using hb.used
  -- the chain of the terminal goes on with the parent of the process that ends
  obtain ⟨depth', hchain, hparent, hcaller⟩ := h.parent_waits hchild
  have hparent' := hchain.congr_parent (hkeep (tree.onTerm tree.current))
  have haddress := hparent.address
  have hterminal : tree.onTerm (tree.parent tree.current) = tree.onTerm tree.current :=
    hparent.terminal
  refine ⟨fun t ↦ ?_, ?_, fun pid hchild' hused ↦ ?_⟩
  · by_cases ht : t = tree.onTerm tree.current
    · subst ht
      refine ⟨depth', ?_⟩
      have hactive : pcbAddr (tree.endChild.activePid (tree.onTerm tree.current)) =
          tree.parent tree.current := by
        simp [ProcessTree.endChild, ← haddress]
      rwa [hactive]
    · obtain ⟨depth, hchain⟩ := h.healthy t
      refine ⟨depth, ?_⟩
      have hactive : tree.endChild.activePid t = tree.activePid t := by
        simp [ProcessTree.endChild, ht]
      rw [hactive]
      refine hchain.congr_of_depth fun b _ _ hb ↦ hkeep t b ?_ hb.ok_self
      rintro rfl
      exact ht hb.ok_self.terminal.symm
  · simp [ProcessTree.endChild, release, hcaller, hterminal, ← haddress]
  · have hne : pid ≠ tree.pid tree.current := by
      rintro rfl
      simp [ProcessTree.endChild, release] at hused
    exact h.waiting pid hchild' (by simpa [ProcessTree.endChild, release, hne] using hused)

/-- A base shell that ends is started again under its own pid. -/
theorem Invariant.restart (h : tree.Invariant) {t : Fin 3} (hshell : tree.pid tree.current = t)
    (parent : ℤ) : (tree.release.startShell t parent).Invariant := by
  have hcurrent : tree.current = pcbAddr t := by
    rw [h.current.address, hshell]
  have hkeep : ∀ (t' : Fin 3) (b : ℤ), t' ≠ t → tree.InUseOn t' b →
      (tree.release.startShell t parent).InUseOn t' b ∧
        (tree.release.startShell t parent).parent b = tree.parent b := by
    intro t' b ht hb
    have hne : b ≠ pcbAddr t := by
      rintro rfl
      exact ht (hb.terminal.symm.trans (h.healthy.shell t).terminal)
    have hpid : tree.pid b ≠ t := by
      intro hsame
      rw [hb.address, hsame] at hne
      exact hne rfl
    refine ⟨⟨?_, ?_, ?_⟩, ?_⟩
    · simpa [startShell, release, hne] using hb.address
    · simpa [startShell, release, hne, hpid, hshell] using hb.used
    · simpa [startShell, release, hne] using hb.terminal
    · simp [startShell, release, hne]
  refine ⟨fun t' ↦ ?_, ?_, fun pid hchild hused ↦ ?_⟩
  · by_cases ht : t' = t
    · subst ht
      refine ⟨0, ?_⟩
      have hactive : (tree.release.startShell t' parent).activePid t' = t' := by
        simp [startShell]
      rw [hactive]
      exact .root (by constructor <;> simp [startShell])
    · obtain ⟨depth, hchain⟩ := h.healthy t'
      refine ⟨depth, ?_⟩
      have hactive : (tree.release.startShell t parent).activePid t' = tree.activePid t' := by
        simp [startShell, release, ht]
      rw [hactive]
      exact hchain.congr fun b hb ↦ hkeep t' b ht hb
  · simp [startShell]
  · have hne : pid ≠ t := by
      unfold thirdShell at hchild
      omega
    have hused' : tree.usedPid pid = true := by
      simpa [startShell, release, hne, hshell] using hused
    simpa [startShell, release, hne] using h.waiting pid hchild hused'

theorem Invariant.moves (h : tree.Invariant) {tree' : ProcessTree} (hmoves : tree.Moves tree') :
    tree'.Invariant := by
  cases hmoves with
  | stay => exact h
  | startChild hchild hfree => exact h.startChild hchild hfree
  | endChild hchild => exact h.endChild hchild
  | restart hshell parent => exact h.restart hshell parent

theorem Invariant.switchTo (h : tree.Invariant) (t : Fin 3) : (tree.switchTo t).Invariant := by
  refine ⟨fun t' ↦ ?_, ?_, h.waiting⟩
  · obtain ⟨depth, hchain⟩ := h.healthy t'
    exact ⟨depth, hchain.congr fun b hb ↦ ⟨⟨hb.address, hb.used, hb.terminal⟩, rfl⟩⟩
  have hactive := (h.healthy.active t).terminal
  simp [ProcessTree.switchTo, hactive]

end Steps

end ProcessTree

/-! ### What the events do to the tree -/

namespace Machine

/-- The process tree of a machine. -/
def tree (s : Machine) : ProcessTree where
  usedPid := s.pidArr
  pid a := (s.pcbs a).pid
  onTerm a := (s.pcbs a).onTerm
  parent a := (s.pcbs a).parent
  activePid := s.activePid
  current := s.current
  caller pid := (s.execFrames pid).caller

/-- Stores to a PCB that leave the process its pid, terminal and parent leave the tree alone. -/
theorem tree_setPcb (s : Machine) {a : ℤ} {pcb : Pcb} (hpid : pcb.pid = (s.pcbs a).pid)
    (hterm : pcb.onTerm = (s.pcbs a).onTerm) (hparent : pcb.parent = (s.pcbs a).parent) :
    (s.setPcb a pcb).tree = s.tree := by
  have hsame : ∀ b, ((s.setPcb a pcb).pcbs b).pid = (s.pcbs b).pid ∧
      ((s.setPcb a pcb).pcbs b).onTerm = (s.pcbs b).onTerm ∧
      ((s.setPcb a pcb).pcbs b).parent = (s.pcbs b).parent := by
    intro b
    by_cases hb : b = a
    · subst hb
      simp [setPcb, hpid, hterm, hparent]
    · simp [setPcb, hb]
  simp only [tree, ProcessTree.mk.injEq]
  exact ⟨rfl, funext fun b ↦ (hsame b).1, funext fun b ↦ (hsame b).2.1,
    funext fun b ↦ (hsame b).2.2, rfl, rfl, rfl⟩

/-- A state that differs in the console only, and there not in the active processes. -/
theorem tree_setConsole (s : Machine) {console : Console}
    (h : console.tasks.activePid = s.console.tasks.activePid) :
    { s with console := console }.tree = s.tree := by
  simp only [tree, ProcessTree.mk.injEq, true_and, and_true]
  exact h

theorem tree_startProgram_child (s : Machine) {pid : ℕ} (hchild : thirdShell < pid)
    (args : ℕ → UInt8) (tmp : Pcb) :
    (s.startProgram pid args tmp).tree = s.tree.startChild pid s.console.currTerminal := by
  obtain ⟨pcb, hpid, hterm, hparent, -, hstart⟩ := s.startProgram_child hchild args tmp
  rw [hstart]
  simp only [tree, ProcessTree.startChild, ProcessTree.mk.injEq]
  refine ⟨trivial, ?_, ?_, ?_, ?_, trivial, ?_⟩
  · funext a
    by_cases ha : a = pcbAddr pid <;> simp [ha, hpid]
  · funext a
    by_cases ha : a = pcbAddr pid <;> simp [ha, hterm]
  · funext a
    by_cases ha : a = pcbAddr pid <;> simp [ha, hparent]
  · exact s.activePid_setActivePid _ pid
  · funext pid'
    by_cases hsame : pid' = pid <;> simp [hsame]

theorem tree_startProgram_shell (s : Machine) (t : Fin 3) (args : ℕ → UInt8) (tmp : Pcb) :
    (s.startProgram t args tmp).tree = s.tree.startShell t tmp.parent := by
  obtain ⟨pcb, hpid, hterm, hparent, -, hstart⟩ := s.startProgram_shell t args tmp
  rw [hstart]
  simp only [tree, ProcessTree.startShell, ProcessTree.mk.injEq]
  refine ⟨trivial, ?_, ?_, ?_, ?_, trivial, ?_⟩
  · funext a
    by_cases ha : a = pcbAddr t <;> simp [ha, hpid]
  · funext a
    by_cases ha : a = pcbAddr t <;> simp [ha, hterm]
  · funext a
    by_cases ha : a = pcbAddr t <;> simp [ha, hparent]
  · exact s.activePid_setActivePid _ t
  · funext pid'
    by_cases hsame : pid' = t <;> simp [hsame]

theorem tree_closeAll (s : Machine) : s.closeAll.tree = s.tree := by
  obtain ⟨fdArr, hclosed⟩ := s.closeAll_eq
  rw [hclosed]
  exact s.tree_setPcb rfl rfl rfl

theorem tree_restoreParent (s : Machine) :
    s.restoreParent.tree = { s.tree with
      activePid := Function.update s.tree.activePid (s.tree.onTerm s.tree.current)
        (s.tree.pid (s.tree.parent s.tree.current)) } := by
  simp only [restoreParent, tree, ProcessTree.mk.injEq]
  exact ⟨rfl, rfl, rfl, rfl, s.activePid_setActivePid _ _, rfl, rfl⟩

theorem tree_setVidMapFlag (s : Machine) (t : Fin 3) (flag : Bool) :
    (s.setVidMapFlag t flag).tree = s.tree := by
  simp only [tree, activePid_setVidMapFlag]
  rfl

/-- `do_halt` of a process that is no base shell ends it in the tree. -/
theorem tree_doHalt_child (s : Machine) (hchild : thirdShell < s.running.pid) (status : UInt8)
    (tmp : Pcb) : (s.doHalt status tmp).1.tree = s.tree.endChild := by
  rw [doHalt_child s hchild]
  have hrestored : (s.closeAll.releasePid.restoreParent.setVidMapFlag
      s.running.onTerm false).tree = { s.tree.release with
        activePid := Function.update s.tree.activePid (s.tree.onTerm s.tree.current)
          (s.tree.pid (s.tree.parent s.tree.current)) } := by
    rw [tree_setVidMapFlag, tree_restoreParent, ← tree_closeAll s]
    rfl
  have hcurrent : ∀ s' : Machine, (s'.execReturn s.running.pid status.toNat).1.tree =
      { s'.tree with current := s'.tree.caller s.running.pid } := fun _ ↦ rfl
  rw [hcurrent, hrestored]
  rfl

/-- `do_halt` of a base shell starts it again. -/
theorem tree_doHalt_shell (s : Machine) {t : Fin 3} (hshell : s.running.pid = t)
    (hbelow : ∀ pid < (t : ℕ), s.pidArr pid = true) (status : UInt8) (tmp : Pcb) :
    (s.doHalt status tmp).1.tree = s.tree.release.startShell t tmp.parent := by
  rw [doHalt_shell s hshell hbelow, tree_startProgram_shell]
  have hreleased : s.closeAll.releasePid.tree = s.closeAll.tree.release := rfl
  rw [hreleased, tree_closeAll]

/-- `schedule` with all shells started hands the CPU to the active process of the next terminal. -/
theorem tree_schedule (s : Machine) (hsecond : s.pidArr 1 = true) (hthird : s.pidArr 2 = true)
    (esp ebp : ℤ) (tmp : Pcb) :
    (s.schedule esp ebp tmp).tree = s.tree.switchTo (s.termCounter + 1) := by
  have hsaved : (s.setPcb s.current { s.running with kernelStack := esp, kernelBase := ebp }).tree =
      s.tree := s.tree_setPcb rfl rfl rfl
  have hnext : (s.nextTask esp ebp).tree = s.tree := hsaved
  have hresumed : ∀ s' : Machine, s'.resumeTask.tree =
      { s'.tree with current := pcbAddr s'.curPid } := by
    intro s'
    simp only [resumeTask]
    split_ifs <;> rfl
  rw [schedule_resume s hsecond hthird, hresumed, hnext]
  rfl

theorem tree_switchTerminal (s : Machine) (termDest : Fin 3) :
    (s.switchTerminal termDest).tree = s.tree := by
  have htasks := s.console.tasks_switchTerminal s.current termDest
  exact s.tree_setConsole (by rw [htasks])

theorem tree_doVidmap (s : Machine) (screenStart : ℤ) :
    (s.doVidmap screenStart).2.tree = s.tree := by
  by_cases hscreen : screenStart < 134217728 ∨ screenStart > 138412032
  · rw [doVidmap, if_pos hscreen]
  · rw [doVidmap, if_neg hscreen]
    exact s.tree_setVidMapFlag s.running.onTerm true

/-- The running process starts a program: the command names an executable, and a pid is free. -/
def StartsProgram (s : Machine) : KernelEvent → Prop
  | .execute isExe _ _ => isExe = true ∧ ∃ pid < maxRunningProcesses, s.pidArr pid = false
  | _ => False

/-- The processes of every terminal are in order. -/
def TerminalsHealthy (s : Machine) : Prop := s.tree.Healthy

/-- A program goes to the terminal of the process that executes it. -/
def ChildPlaced (s : Machine) (event : KernelEvent) : Prop :=
  s.StartsProgram event → (s.step event).running.onTerm = s.running.onTerm

/-- A program is executed by a process whose terminal is displayed. -/
def ExecutesInForeground (s : Machine) (event : KernelEvent) : Prop :=
  s.StartsProgram event → s.running.onTerm = s.console.currTerminal

/-- The three base shells, and nothing else, run on their terminals. -/
structure ThreeShells (s : Machine) : Prop where
  used : ∀ pid, s.pidArr pid = true ↔ pid ≤ thirdShell
  pid : ∀ t : Fin 3, (s.pcbs (pcbAddr t)).pid = t
  onTerm : ∀ t : Fin 3, (s.pcbs (pcbAddr t)).onTerm = t
  active : ∀ t : Fin 3, s.activePid t = t
  current : ∃ t : Fin 3, s.current = pcbAddr t

variable {s : Machine}

theorem ThreeShells.invariant (h : s.ThreeShells) : s.tree.Invariant := by
  have hshell : ∀ t : Fin 3, s.tree.InUseOn t (pcbAddr t) := by
    intro t
    have hpid : s.tree.pid (pcbAddr t) = t := h.pid t
    refine ⟨by rw [hpid], ?_, h.onTerm t⟩
    rw [hpid]
    refine (h.used t).mpr ?_
    unfold thirdShell
    omega
  refine ⟨fun t ↦ ⟨0, ?_⟩, ?_, fun pid hchild hused ↦ ?_⟩
  · have hactive : s.tree.activePid t = t := h.active t
    rw [hactive]
    exact .root (hshell t)
  · obtain ⟨t, hcurrent⟩ := h.current
    change s.current = pcbAddr (s.activePid (s.pcbs s.current).onTerm)
    rw [hcurrent, h.onTerm t, h.active t]
  · have hle := (h.used pid).mp hused
    omega

/-- With the three base shells in place, `do_execute` starts a child or leaves the tree alone. -/
theorem tree_doExecute (h : s.tree.Invariant) (isExe : Bool) (args : ℕ → UInt8) (tmp : Pcb) :
    (¬ s.StartsProgram (.execute isExe args tmp) ∧
        (s.doExecute isExe args tmp).1.tree = s.tree) ∨
      s.StartsProgram (.execute isExe args tmp) ∧ ∃ pid, thirdShell < pid ∧
        s.tree.usedPid pid = false ∧
        (s.doExecute isExe args tmp).1 = s.startProgram pid args tmp := by
  rcases s.doExecute_cases isExe args tmp with
    ⟨console, value, htasks, hall, hreturn⟩ | ⟨hexe, pid, hlt, hfree, -, hstart⟩
  · refine Or.inl ⟨?_, ?_⟩
    · rintro ⟨hexe, pid, hlt, hfree⟩
      rw [hall hexe pid hlt] at hfree
      cases hfree
    · rw [hreturn]
      exact s.tree_setConsole (by rw [htasks])
  · refine Or.inr ⟨⟨hexe, pid, hlt, hfree⟩, pid, ?_, hfree, by rw [hstart]⟩
    by_contra hshell
    unfold thirdShell at hshell
    have hused : s.pidArr pid = true := (h.healthy.shell ⟨pid, by omega⟩).used_pid
    rw [hfree] at hused
    cases hused

theorem moves_doHalt (h : s.tree.Invariant) (status : UInt8) (tmp : Pcb) :
    s.tree.Moves (s.doHalt status tmp).1.tree := by
  by_cases hchild : thirdShell < s.running.pid
  · rw [tree_doHalt_child s hchild]
    exact .endChild hchild
  · unfold thirdShell at hchild
    have hbelow : ∀ pid < s.running.pid, s.pidArr pid = true :=
      fun pid hpid ↦ (h.healthy.shell ⟨pid, by omega⟩).used_pid
    have ht : ∃ t : Fin 3, s.running.pid = t := ⟨⟨s.running.pid, by omega⟩, rfl⟩
    obtain ⟨t, ht⟩ := ht
    rw [ht] at hbelow
    rw [tree_doHalt_shell s ht hbelow]
    exact .restart ht tmp.parent

/-- What the running process does, unless it starts a program on another terminal. -/
theorem moves_step (h : s.tree.Invariant) {event : KernelEvent}
    (hforeground : s.ExecutesInForeground event)
    (htick : ∀ esp ebp tmp, event ≠ .tick esp ebp tmp) : s.tree.Moves (s.step event).tree := by
  cases event with
  | execute isExe args tmp =>
    change s.tree.Moves (s.doExecute isExe args tmp).1.tree
    rcases tree_doExecute h isExe args tmp with ⟨-, hsame⟩ | ⟨hstarts, pid, hchild, hfree, hstart⟩
    · rw [hsame]
      exact .stay
    · rw [hstart, tree_startProgram_child s hchild, ← hforeground hstarts]
      exact .startChild hchild hfree
  | halt status tmp => exact moves_doHalt h status tmp
  | exception messages tmp =>
    obtain ⟨console, hwrites, htasks⟩ := s.writes_eq messages
    have hsame : { s with console := console, isrRet := excepRet }.tree = s.tree :=
      s.tree_setConsole (by rw [htasks])
    change s.tree.Moves
      ({ messages.foldl Machine.write s with isrRet := excepRet }.doHalt 0 tmp).1.tree
    rw [hwrites, ← hsame]
    exact moves_doHalt (hsame.symm ▸ h) 0 tmp
  | tick esp ebp tmp => exact absurd rfl (htick esp ebp tmp)
  | switchTerminal termDest =>
    change s.tree.Moves (s.switchTerminal termDest).tree
    rw [tree_switchTerminal]
    exact .stay
  | vidmap screenStart =>
    change s.tree.Moves (s.doVidmap screenStart).2.tree
    rw [tree_doVidmap]
    exact .stay

/-- A timer interrupt hands the CPU to the active process of the next terminal. -/
theorem tree_tick (h : s.tree.Invariant) (esp : Fin 8192) (ebp : ℤ) (tmp : Pcb) :
    (s.step (.tick esp ebp tmp)).tree = s.tree.switchTo (s.termCounter + 1) :=
  tree_schedule s (h.healthy.shell 1).used_pid (h.healthy.shell 2).used_pid _ ebp tmp

/-- An event that starts no program on another terminal keeps the invariant. -/
theorem invariant_step (h : s.tree.Invariant) {event : KernelEvent}
    (hforeground : s.ExecutesInForeground event) : (s.step event).tree.Invariant := by
  by_cases htick : ∃ esp ebp tmp, event = .tick esp ebp tmp
  · obtain ⟨esp, ebp, tmp, rfl⟩ := htick
    rw [tree_tick h]
    exact h.switchTo _
  · simp only [not_exists] at htick
    exact h.moves (moves_step h hforeground htick)

/-- A child with which the terminals are in order has been executed in the foreground: its parent
stands below it on the displayed terminal. -/
theorem startProgram_foreground (h : s.tree.Invariant) {pid : ℕ} (hchild : thirdShell < pid)
    (hfree : s.tree.usedPid pid = false) (args : ℕ → UInt8) (tmp : Pcb)
    (hhealthy : (s.startProgram pid args tmp).TerminalsHealthy) :
    s.running.onTerm = s.console.currTerminal := by
  unfold TerminalsHealthy at hhealthy
  rw [tree_startProgram_child s hchild] at hhealthy
  obtain ⟨depth, hchain⟩ := hhealthy s.console.currTerminal
  have hactive : (s.tree.startChild pid s.console.currTerminal).activePid s.console.currTerminal =
      pid := by simp [ProcessTree.startChild]
  rw [hactive] at hchain
  -- the child is no base shell, so that its parent stands on the chain, too
  have hne : pcbAddr pid ≠ pcbAddr (s.console.currTerminal : ℕ) := by
    rw [ne_eq, pcbAddr_inj]
    unfold thirdShell at hchild
    omega
  obtain ⟨depth', -, hparent⟩ := hchain.of_ne_root hne
  have hterm := hparent.ok_self.terminal
  have haddress : (s.tree.startChild pid s.console.currTerminal).parent (pcbAddr pid) =
      s.current := by
    simp [ProcessTree.startChild, tree]
  rw [haddress] at hterm
  have hother : s.tree.current ≠ pcbAddr pid := h.current.ne_free hfree
  have hkept : (s.tree.startChild pid s.console.currTerminal).onTerm s.current =
      s.running.onTerm := Function.update_of_ne hother _ _
  rwa [hkept] at hterm

/-- The terminal on which `do_execute` starts a child is the displayed one. -/
theorem childPlaced_iff (h : s.tree.Invariant) (event : KernelEvent) :
    s.ChildPlaced event ↔ s.ExecutesInForeground event := by
  refine forall_congr' fun hstarts ↦ ?_
  cases event with
  | execute isExe args tmp =>
    rcases tree_doExecute h isExe args tmp with ⟨hnot, -⟩ | ⟨-, pid, hchild, -, hstart⟩
    · exact absurd hstarts hnot
    · have hterm : (s.step (.execute isExe args tmp)).running.onTerm =
          (s.step (.execute isExe args tmp)).tree.onTerm
            (s.step (.execute isExe args tmp)).tree.current := rfl
      have htree : (s.step (.execute isExe args tmp)).tree =
          s.tree.startChild pid s.console.currTerminal := by
        rw [← tree_startProgram_child s hchild args tmp, ← hstart]
        rfl
      rw [hterm, htree]
      simp [ProcessTree.startChild, eq_comm]
  | _ => exact hstarts.elim

/-- A step that leaves the terminals in order starts no program on another terminal. -/
theorem foreground_of_healthy (h : s.tree.Invariant) {event : KernelEvent}
    (hhealthy : (s.step event).TerminalsHealthy) : s.ExecutesInForeground event := by
  intro hstarts
  cases event with
  | execute isExe args tmp =>
    rcases tree_doExecute h isExe args tmp with ⟨hnot, -⟩ | ⟨-, pid, hchild, hfree, hstart⟩
    · exact absurd hstarts hnot
    · refine startProgram_foreground h hchild hfree args tmp ?_
      rwa [← hstart]
  | _ => exact hstarts.elim

/-- From the three base shells on, the terminals are in order and every program goes to the terminal
of the process that executes it, exactly if every program is executed by a process whose terminal
is displayed. -/
theorem terminals_healthy_iff (hs : s.ThreeShells) (events : List KernelEvent) :
    EveryState step TerminalsHealthy s events ∧ EveryStep step ChildPlaced s events ↔
      EveryStep step ExecutesInForeground s events := by
  have hhealthy : ∀ s : Machine, s.tree.Invariant → s.TerminalsHealthy := fun _ h ↦ h.healthy
  have hkeep : ∀ (s : Machine) (event : KernelEvent), s.tree.Invariant →
      s.ExecutesInForeground event → (s.step event).tree.Invariant :=
    fun _ _ h hforeground ↦ invariant_step h hforeground
  have hexact : EveryState step TerminalsHealthy s events ↔
      EveryStep step ExecutesInForeground s events :=
    everyState_iff_everyStep_of_inv hhealthy hkeep
      (fun _ _ h hhealthy ↦ foreground_of_healthy h hhealthy) hs.invariant
  constructor
  · rintro ⟨hstates, -⟩
    exact hexact.mp hstates
  · intro hforeground
    have hinvariant := everyState_of_everyStep hkeep hs.invariant hforeground
    have hagree := hinvariant.everyStep_congr fun s event h ↦ childPlaced_iff h event
    exact ⟨hexact.mpr hforeground, hagree.mpr hforeground⟩

theorem baseShells_threeShells (shown cpu : Fin 3) : (baseShells shown cpu).ThreeShells := by
  have hpid : ∀ t : Fin 3, (((pcbAddr 0 - pcbAddr t) / eightKB).toNat) = t := by
    intro t
    unfold pcbAddr stackTop eightKB
    omega
  refine ⟨fun pid ↦ decide_eq_true_iff, fun t ↦ ?_, fun t ↦ ?_, fun t ↦ rfl, ⟨cpu, rfl⟩⟩
  · simp only [baseShells, hpid]
  · simp only [baseShells, hpid]
    exact Fin.ofNat_val_eq_self t

/-- The exact condition, for a program that the shell of the displayed terminal executes. -/
theorem terminals_healthy_iff_baseShells :
    EveryState step TerminalsHealthy (baseShells 0 0) [executeProgram] ∧
        EveryStep step ChildPlaced (baseShells 0 0) [executeProgram] ↔
      EveryStep step ExecutesInForeground (baseShells 0 0) [executeProgram] :=
  terminals_healthy_iff (baseShells_threeShells 0 0) [executeProgram]

/-- The shell of terminal 1 executes a program while terminal 0 is displayed. -/
theorem terminals_not_always_healthy : ¬ ∀ (s : Machine) (events : List KernelEvent),
    s.ThreeShells →
      EveryState step TerminalsHealthy s events ∧ EveryStep step ChildPlaced s events := by
  intro hall
  obtain ⟨-, hplaced, -⟩ :=
    hall (baseShells 0 1) [executeProgram] (baseShells_threeShells 0 1)
  have hchild : ((baseShells 0 1).step executeProgram).running.onTerm = 0 := by rfl
  have hparent : (baseShells 0 1).running.onTerm = 1 := by rfl
  have hterm := hplaced ⟨rfl, 3, by decide, by decide⟩
  rw [hchild, hparent] at hterm
  exact absurd hterm (by decide)

end Machine

end Sp18.Kernel
