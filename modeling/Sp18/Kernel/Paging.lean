import Sp18.Foundation.PageTables
import Sp18.Kernel.Handover

/-!
# The page tables of the kernel

`paging.c`: the page directory with the kernel's page, the video page of the kernel and the page
table for the video page of a user. The entry of the user's program and the two video entries change
with the events of the machine, and all others stay as `paging_init` leaves them (`Machine.tables`).

Under these tables a program reaches its own 4 MB and one video page (`Protected`), as long as the
directory holds the page of the running process. Every change of an entry is followed by a flush of
the TLB, which is not part of the model.
-/

set_option autoImplicit false
set_option relaxedAutoImplicit false

namespace Sp18.Kernel

open Foundation

/-- Where the three tables are: each is aligned to a page, and they are different. -/
structure PagingLayout where
  pageDirectory : BitVec 32
  firstPageTable : BitVec 32
  userVidmemPageTable : BitVec 32
  pageDirectory_aligned : Aligned pageDirectory
  firstPageTable_aligned : Aligned firstPageTable
  userVidmemPageTable_aligned : Aligned userVidmemPageTable
  pageDirectory_ne : pageDirectory ≠ firstPageTable ∧ pageDirectory ≠ userVidmemPageTable
  firstPageTable_ne : firstPageTable ≠ userVidmemPageTable

/-- `blank_table`, and with the page directory `blank_page_directory` -/
def blankTable (m : PhysicalWords) (table : BitVec 32) : PhysicalWords :=
  storeEntries m table 0 1024 0

/-- `paging_init`. The flags of an entry are in bits that are zero in its address. -/
def pagingInit (l : PagingLayout) (m : PhysicalWords) : PhysicalWords :=
  let m := blankTable m l.pageDirectory
  let m := Function.update m (entryAddr l.pageDirectory 0) (l.firstPageTable + 3)
  let m := storeEntries m l.firstPageTable 0 1024 0
  let m := Function.update m (entryAddr l.firstPageTable 184) 0x000B8003
  let m := Function.update m (entryAddr l.pageDirectory 1) 0x00400083
  let m := storeEntries m l.pageDirectory 2 1022 0
  let m := Function.update m (entryAddr l.pageDirectory 512) (l.userVidmemPageTable + 7)
  blankTable m l.userVidmemPageTable

namespace Machine

/-- The tables of a machine: those of `paging_init`, with the three entries that the events of the
machine change. No other store of the kernel is taken to reach a table. -/
def tables (s : Machine) (l : PagingLayout) (m : PhysicalWords) : PhysicalWords :=
  let m := pagingInit l m
  let m := Function.update m (entryAddr l.pageDirectory 32) (BitVec.ofInt 32 s.pageDirectory32)
  let m := Function.update m (entryAddr l.firstPageTable 184)
    (BitVec.ofInt 32 s.console.firstPageTable184)
  Function.update m (entryAddr l.userVidmemPageTable 0)
    (BitVec.ofInt 32 s.console.userVidmemPageTable0)

variable (s : Machine) (l : PagingLayout) (m : PhysicalWords) {i : ℕ}

/-- The entries of the page directory. -/
theorem tables_pageDirectory (hi : i < 1024) : s.tables l m (entryAddr l.pageDirectory i) =
    if i = 0 then l.firstPageTable + 3
    else if i = 1 then 0x00400083
    else if i = 32 then BitVec.ofInt 32 s.pageDirectory32
    else if i = 512 then l.userVidmemPageTable + 7
    else 0 := by
  obtain ⟨hfirst, hvideo⟩ := l.pageDirectory_ne
  have hself : ∀ {j : ℕ}, j < 1024 →
      (entryAddr l.pageDirectory i = entryAddr l.pageDirectory j ↔ i = j) := by
    intro j hj
    rw [entryAddr_inj l.pageDirectory_aligned l.pageDirectory_aligned hi hj]
    exact and_iff_right rfl
  have hne : ∀ {j : ℕ}, j < 1024 → entryAddr l.pageDirectory i ≠ entryAddr l.firstPageTable j := by
    intro j hj heq
    exact hfirst ((entryAddr_inj l.pageDirectory_aligned l.firstPageTable_aligned hi hj).mp heq).1
  have hne' : ∀ {j : ℕ}, j < 1024 →
      entryAddr l.pageDirectory i ≠ entryAddr l.userVidmemPageTable j := by
    intro j hj heq
    exact hvideo
      ((entryAddr_inj l.pageDirectory_aligned l.userVidmemPageTable_aligned hi hj).mp heq).1
  have hkept : ∀ m : PhysicalWords, storeEntries m l.firstPageTable 0 1024 0
      (entryAddr l.pageDirectory i) = m (entryAddr l.pageDirectory i) := fun m ↦
    storeEntries_of_ne l.firstPageTable_aligned l.pageDirectory_aligned hfirst (le_refl _) hi
  have hkept' : ∀ m : PhysicalWords, blankTable m l.userVidmemPageTable
      (entryAddr l.pageDirectory i) = m (entryAddr l.pageDirectory i) := fun m ↦
    storeEntries_of_ne l.userVidmemPageTable_aligned l.pageDirectory_aligned hvideo (le_refl _) hi
  simp only [tables, pagingInit, Function.update_apply, hne (by decide : 184 < 1024),
    hne' (by decide : 0 < 1024), hself (by decide : 32 < 1024), hself (by decide : 512 < 1024),
    hkept', if_false]
  by_cases hlow : i < 2
  · -- the second loop begins behind these entries
    have hbelow : ∀ m : PhysicalWords, storeEntries m l.pageDirectory 2 1022 0
        (entryAddr l.pageDirectory i) = m (entryAddr l.pageDirectory i) := fun m ↦
      storeEntries_of_forall fun j hj hlt heq ↦ by
        have := (hself (by omega)).mp heq
        omega
    simp only [hbelow, Function.update_apply, hkept, hself (by decide : 1 < 1024),
      hself (by decide : 0 < 1024), hne (by decide : 184 < 1024), if_false]
    have hblank : blankTable m l.pageDirectory (entryAddr l.pageDirectory i) = 0 :=
      storeEntries_entry l.pageDirectory_aligned (Nat.zero_le _) (by omega) (le_refl _)
    rw [hblank]
    split_ifs <;> first | rfl | omega
  · have hblank : ∀ m : PhysicalWords, storeEntries m l.pageDirectory 2 1022 0
        (entryAddr l.pageDirectory i) = 0 := fun m ↦
      storeEntries_entry l.pageDirectory_aligned (by omega) (by omega) (le_refl _)
    rw [hblank]
    split_ifs <;> first | rfl | omega

/-- The entries of the page table for the user's video page. -/
theorem tables_userVidmemPageTable (hi : i < 1024) :
    s.tables l m (entryAddr l.userVidmemPageTable i) =
      if i = 0 then BitVec.ofInt 32 s.console.userVidmemPageTable0 else 0 := by
  have hself : entryAddr l.userVidmemPageTable i = entryAddr l.userVidmemPageTable 0 ↔ i = 0 := by
    rw [entryAddr_inj l.userVidmemPageTable_aligned l.userVidmemPageTable_aligned hi (by decide)]
    exact and_iff_right rfl
  have hne : ∀ {j : ℕ}, j < 1024 →
      entryAddr l.userVidmemPageTable i ≠ entryAddr l.pageDirectory j := by
    intro j hj heq
    exact l.pageDirectory_ne.2
      ((entryAddr_inj l.userVidmemPageTable_aligned l.pageDirectory_aligned hi hj).mp heq).1.symm
  have hne' : entryAddr l.userVidmemPageTable i ≠ entryAddr l.firstPageTable 184 := by
    intro heq
    exact l.firstPageTable_ne ((entryAddr_inj l.userVidmemPageTable_aligned
      l.firstPageTable_aligned hi (by decide)).mp heq).1.symm
  have hblank : ∀ m : PhysicalWords, blankTable m l.userVidmemPageTable
      (entryAddr l.userVidmemPageTable i) = 0 := fun m ↦
    storeEntries_entry l.userVidmemPageTable_aligned (Nat.zero_le _) (by omega) (le_refl _)
  simp only [tables, pagingInit, Function.update_apply, hself, hne (by decide : 32 < 1024), hne',
    hblank, if_false]

end Machine

/-- What the tables of a machine let the running process do. -/
structure Protected (l : PagingLayout) (m : PhysicalWords) (s : Machine) (pid : ℕ) : Prop where
  running : s.current = pcbAddr pid
  bounded : pid < maxRunningProcesses
  -- the program and its stack are in the frame of the process
  own : ∀ write (a : BitVec 32), 0x08000000 ≤ a.toNat → a.toNat < 0x08400000 →
    ∃ p, translate (s.tables l m) l.pageDirectory .user write a = some p ∧
      p.toNat = 0x00800000 + pid * 0x00400000 + (a.toNat - 0x08000000)
  -- a user reaches nothing else but a video page
  other : ∀ write (a p : BitVec 32),
    translate (s.tables l m) l.pageDirectory .user write a = some p →
    ¬(0x08000000 ≤ a.toNat ∧ a.toNat < 0x08400000) →
    0x80000000 ≤ a.toNat ∧ a.toNat < 0x80001000 ∧
      ∃ k ≤ 3, p.toNat = 0x000B8000 + k * 0x1000 + (a.toNat - 0x80000000)
  -- the kernel is where it has been linked to
  kernel : ∀ write (a : BitVec 32), 0x00400000 ≤ a.toNat → a.toNat < 0x00800000 →
    translate (s.tables l m) l.pageDirectory .supervisor write a = some a

/-- The page of the running process is in the directory, and a video page or none is in the page
table of the user. -/
structure Machine.PagesFit (s : Machine) (pid : ℕ) : Prop where
  running : s.current = pcbAddr pid
  bounded : pid < maxRunningProcesses
  page : s.pageDirectory32 = userPage pid
  video : s.console.userVidmemPageTable0 = 0 ∨
    ∃ k ≤ 3, s.console.userVidmemPageTable0 = videoMemory + (k : ℕ) * fourKB + 7

/-- The entry of a process. -/
theorem userPage_entry {pid : ℕ} (h : pid < maxRunningProcesses) :
    (BitVec.ofInt 32 (userPage pid)).toNat = 0x00800087 + pid * 0x00400000 := by
  rw [BitVec.toNat_ofInt]
  unfold userPage firstUser fourMB
  unfold maxRunningProcesses at h
  omega

/-- The entry of a video page. -/
theorem videoPage_entry {k : ℕ} (h : k ≤ 3) :
    (BitVec.ofInt 32 (videoMemory + k * fourKB + 7)).toNat = 0x000B8007 + k * 0x1000 := by
  rw [BitVec.toNat_ofInt]
  unfold videoMemory fourKB
  omega

theorem getLsbD_of_toNat {x : BitVec 32} {n : ℕ} (h : x.toNat = n) (bit : ℕ) :
    x.getLsbD bit = decide (n / 2 ^ bit % 2 = 1) := by
  rw [BitVec.getLsbD, h, Nat.testBit_eq_decide_div_mod_eq]

/-- A user may read and write a page with the three lowest bits set. -/
theorem grants_of_toNat {x : BitVec 32} (h : x.toNat % 8 = 7) (privilege : Privilege)
    (write : Bool) : Grants x privilege write := by
  have hbit : ∀ bit < 3, x.getLsbD bit = true := by
    intro bit hbit
    rw [getLsbD_of_toNat rfl, decide_eq_true_iff]
    interval_cases bit <;> omega
  exact ⟨hbit 0 (by decide), fun _ ↦ ⟨hbit 2 (by decide), fun _ ↦ hbit 1 (by decide)⟩⟩

section Translation

variable {s : Machine} {pid : ℕ} (l : PagingLayout) (m : PhysicalWords) (a : BitVec 32)
  (privilege : Privilege) (write : Bool)

/-- The directory entry of an address. -/
theorem Machine.PagesFit.directory (h : s.PagesFit pid) :
    s.tables l m (entryAddr l.pageDirectory (directoryIndex a)) =
      if directoryIndex a = 0 then l.firstPageTable + 3
      else if directoryIndex a = 1 then 0x00400083
      else if directoryIndex a = 32 then BitVec.ofInt 32 (userPage pid)
      else if directoryIndex a = 512 then l.userVidmemPageTable + 7
      else 0 := by
  rw [s.tables_pageDirectory l m (directoryIndex_lt a), h.page]

/-- The four megabytes of the running process. -/
theorem Machine.PagesFit.translate_own (h : s.PagesFit pid) (ha : directoryIndex a = 32) :
    ∃ p, translate (s.tables l m) l.pageDirectory privilege write a = some p ∧
      p.toNat = 0x00800000 + pid * 0x00400000 + (a.toNat - 0x08000000) := by
  have hbounded := h.bounded
  have hentry := userPage_entry hbounded
  have hdirectory := h.directory l m a
  rw [if_neg (by omega), if_neg (by omega), if_pos ha] at hdirectory
  have hgrants : Grants (s.tables l m (entryAddr l.pageDirectory (directoryIndex a))) privilege
      write := by
    rw [hdirectory]
    exact grants_of_toNat (by omega) privilege write
  have hlarge : (s.tables l m (entryAddr l.pageDirectory (directoryIndex a))).getLsbD 7 = true := by
    rw [hdirectory, getLsbD_of_toNat hentry, decide_eq_true_iff]
    omega
  refine ⟨_, translate_large hgrants hlarge, ?_⟩
  rw [hdirectory, BitVec.toNat_add, toNat_entryBase, hentry, toNat_pageOffset (by decide)]
  rw [directoryIndex] at ha
  unfold maxRunningProcesses at hbounded
  omega

/-- The page for the video memory of a user. -/
theorem Machine.PagesFit.translate_video (h : s.PagesFit pid) (ha : directoryIndex a = 512)
    {p : BitVec 32} (hp : translate (s.tables l m) l.pageDirectory privilege write a = some p) :
    tableIndex a = 0 ∧ ∃ k ≤ 3, p.toNat = 0x000B8000 + k * 0x1000 + a.toNat % 4096 := by
  have hdirectory := h.directory l m a
  rw [if_neg (by omega), if_neg (by omega), if_neg (by omega), if_pos ha] at hdirectory
  have hbit : ∀ bit < 8, (l.userVidmemPageTable + 7).getLsbD bit = Nat.testBit 7 bit :=
    fun bit hbit ↦ getLsbD_add l.userVidmemPageTable_aligned (by decide) hbit
  have hgrants : Grants (s.tables l m (entryAddr l.pageDirectory (directoryIndex a))) privilege
      write := by
    rw [hdirectory]
    exact ⟨hbit 0 (by decide), fun _ ↦ ⟨hbit 2 (by decide), fun _ ↦ hbit 1 (by decide)⟩⟩
  have hlarge : (s.tables l m (entryAddr l.pageDirectory (directoryIndex a))).getLsbD 7 =
      false := by
    rw [hdirectory]
    exact hbit 7 (by decide)
  have hbase : entryBase (l.userVidmemPageTable + 7) 12 = l.userVidmemPageTable :=
    entryBase_add l.userVidmemPageTable_aligned (by decide)
  rw [translate_small hgrants hlarge, hdirectory, hbase] at hp
  simp only [s.tables_userVidmemPageTable l m (tableIndex_lt a)] at hp
  by_cases hindex : tableIndex a = 0
  · rw [if_pos hindex] at hp
    rcases h.video with hzero | ⟨k, hk, hvideo⟩
    · have hzero : BitVec.ofInt 32 s.console.userVidmemPageTable0 = 0 := by
        rw [hzero]
        rfl
      rw [hzero, if_neg (not_grants_zero privilege write)] at hp
      cases hp
    · have hentry := videoPage_entry hk
      rw [hvideo] at hp
      rw [if_pos (grants_of_toNat (by omega) privilege write)] at hp
      obtain rfl := Option.some.inj hp
      refine ⟨hindex, k, hk, ?_⟩
      rw [BitVec.toNat_add, toNat_entryBase, hentry, toNat_pageOffset (by decide)]
      omega
  · rw [if_neg hindex, if_neg (not_grants_zero privilege write)] at hp
    cases hp

/-- The tables protect the kernel and the other processes. -/
theorem Machine.PagesFit.protected (h : s.PagesFit pid) : Protected l m s pid where
  running := h.running
  bounded := h.bounded
  own write a hlow hhigh := by
    have ha : directoryIndex a = 32 := by
      rw [directoryIndex]
      omega
    exact h.translate_own l m a .user write ha
  other write a p htranslate hother := by
    have hdirectory := h.directory l m a
    by_cases hvideo : directoryIndex a = 512
    · obtain ⟨hindex, k, hk, hp⟩ := h.translate_video l m a .user write hvideo htranslate
      rw [directoryIndex] at hvideo
      rw [tableIndex] at hindex
      exact ⟨by omega, by omega, k, hk, by omega⟩
    · have hown : directoryIndex a ≠ 32 := by
        rw [directoryIndex]
        omega
      have hnot : ¬Grants (s.tables l m (entryAddr l.pageDirectory (directoryIndex a))) .user
          write := by
        intro hgrants
        obtain ⟨hpresent, huser⟩ := hgrants
        have huser := (huser rfl).1
        rw [hdirectory] at hpresent huser
        split_ifs at hpresent huser with hzero hone
        · have hbit : (l.firstPageTable + 3).getLsbD 2 = Nat.testBit 3 2 :=
            getLsbD_add l.firstPageTable_aligned (by decide) (by decide)
          rw [hbit] at huser
          cases huser
        · exact absurd huser (by decide)
        · exact absurd hpresent (by decide)
      rw [translate_of_not_grants hnot] at htranslate
      cases htranslate
  kernel write a hlow hhigh := by
    have ha : directoryIndex a = 1 := by
      rw [directoryIndex]
      omega
    have hdirectory := h.directory l m a
    rw [if_neg (by omega), if_pos ha] at hdirectory
    have hgrants : Grants (s.tables l m (entryAddr l.pageDirectory (directoryIndex a)))
        .supervisor write := by
      rw [hdirectory]
      exact ⟨by decide, fun heq ↦ by cases heq⟩
    have hlarge : (s.tables l m (entryAddr l.pageDirectory (directoryIndex a))).getLsbD 7 =
        true := by
      rw [hdirectory]
      decide
    rw [translate_large hgrants hlarge, hdirectory]
    refine congrArg some (BitVec.eq_of_toNat_eq ?_)
    have hkernel : (0x00400083 : BitVec 32).toNat = 0x00400083 := rfl
    rw [BitVec.toNat_add, toNat_entryBase, toNat_pageOffset (by decide), hkernel]
    rw [directoryIndex] at ha
    omega

end Translation

end Sp18.Kernel
