import Sp18.Blink.Refinement

/-!
# How an addition ends

The five ways out of `mp1_ioctl_add`, one lemma each, and which of them clean up (`add_cleans_iff`).
All of them pop `%ebx`, `%esi` and `%edi`, also where the address of the node is still on the stack,
so that each register gets the value of the one before it. Where the record of the user cannot be
copied, `mp1_free` gets what `mp1_copy_from_user` has returned in place of the node, and where the
location is out of range, it is not called.
-/

set_option autoImplicit false
set_option relaxedAutoImplicit false

namespace Sp18.Blink

open Foundation

/-- The node that an addition allocates, if any. -/
def allocated (call : Call) : List (BitVec 32) :=
  if call.arg = 0 ∨ call.malloc = 0 then [] else [call.malloc]

/-- What is to hold when an addition to this list ends. -/
structure Exit.Clean (exit : Exit) (m : Memory) (xs : Records) (call : Call) : Prop where
  failed : exit.eax = -1 →
    ListAt nodeLayout exit.memory.node exit.memory.listHead xs ∧ exit.memory.vmem = m.vmem ∧
      exit.memory.freed = allocated call ++ m.freed
  worked : exit.eax = 0 →
    call.user.location ≤ 1999 ∧ call.malloc ∉ xs.map Entry.addr ∧
      ListAt nodeLayout exit.memory.node exit.memory.listHead
        (⟨call.malloc, started call.user.toRecord⟩ :: xs)
  registers : exit.ebx = call.ebx ∧ exit.esi = call.esi ∧ exit.edi = call.edi

/-- An addition ends, and cleans up. -/
def AddCleans (m : Memory) (xs : Records) (call : Call) : Prop :=
  ∃ exit, mp1IoctlAdd m call = some exit ∧ (exit.eax = 0 ∨ exit.eax = -1) ∧ exit.Clean m xs call

/-- The value that is not copied is the address of the node, and so are the registers of the
caller. -/
def Coincides (call : Call) : Prop :=
  call.notCopied = call.malloc ∧ call.ebx = call.malloc ∧ call.esi = call.malloc ∧
    call.edi = call.malloc

instance (call : Call) : Decidable (Coincides call) :=
  inferInstanceAs (Decidable (call.notCopied = call.malloc ∧ call.ebx = call.malloc ∧
    call.esi = call.malloc ∧ call.edi = call.malloc))

variable {m : Memory} {xs : Records} {call : Call}

section Exits

/-- Memory with a node that has been allocated and filled. -/
def Memory.filled (m : Memory) (call : Call) : Memory :=
  (m.malloc call.malloc).store call.malloc call.user

theorem add_no_argument (harg : call.arg = 0) :
    mp1IoctlAdd m call = some (call.entered.negone m call.user) := by
  have harg : call.entered.arg = 0 := harg
  simp only [mp1IoctlAdd, if_pos harg]
  rfl

theorem add_no_memory (harg : call.arg ≠ 0) (hmalloc : call.malloc = 0) :
    mp1IoctlAdd m call = some (call.entered.negone m call.user) := by
  have harg : ¬call.entered.arg = 0 := harg
  simp only [mp1IoctlAdd, if_neg harg, if_pos hmalloc, Memory.malloc]
  rfl

theorem add_not_copied (harg : call.arg ≠ 0) (hmalloc : call.malloc ≠ 0)
    (hcopied : call.notCopied ≠ 0) :
    mp1IoctlAdd m call = some ((call.entered.push call.malloc).negone
      ((m.filled call).free call.notCopied) call.user) := by
  have harg : ¬call.entered.arg = 0 := harg
  simp only [mp1IoctlAdd, if_neg harg, if_neg hmalloc, if_pos hcopied]
  rfl

theorem add_out_of_range (harg : call.arg ≠ 0) (hmalloc : call.malloc ≠ 0)
    (hcopied : call.notCopied = 0) (hlocation : ¬call.user.location ≤ 1999) :
    mp1IoctlAdd m call =
      some ((call.entered.push call.malloc).negone (m.filled call) call.user) := by
  have harg : ¬call.entered.arg = 0 := harg
  simp only [mp1IoctlAdd, if_neg harg, if_neg hmalloc, if_neg (not_not.mpr hcopied),
    Memory.node_store_self, Option.bind_eq_bind, Option.bind_some]
  split_ifs with hslt hlt
  · rfl
  · rfl
  · exact absurd (BitVec.not_lt.mp hlt) hlocation

theorem add_worked (harg : call.arg ≠ 0) (hmalloc : call.malloc ≠ 0) (hcopied : call.notCopied = 0)
    (hlocation : call.user.location ≤ 1999) :
    mp1IoctlAdd m call = some (call.entered.worked
      (({ (m.filled call).store call.malloc
            { call.user with
              countdown := call.user.onLength, status := 1, next := (m.filled call).listHead } with
          listHead := call.malloc }).poke call.user.location call.user.onChar) call.user) := by
  have harg : ¬call.entered.arg = 0 := harg
  have hslt : ¬call.user.location.slt 0 = true := by
    rw [slt_zero_of_le hlocation]
    exact Bool.false_ne_true
  simp only [mp1IoctlAdd, if_neg harg, if_neg hmalloc, if_neg (not_not.mpr hcopied),
    Memory.node_store_self, Option.bind_eq_bind, Option.bind_some, if_neg hslt,
    if_neg (BitVec.not_lt.mpr hlocation)]
  rfl

end Exits

section Cleaning

theorem addCleans_iff_of_eq {exit : Exit} (hexit : mp1IoctlAdd m call = some exit)
    (heax : exit.eax = 0 ∨ exit.eax = -1) : AddCleans m xs call ↔ exit.Clean m xs call := by
  constructor
  · rintro ⟨exit', hexit', -, hclean⟩
    rw [hexit] at hexit'
    cases hexit'
    exact hclean
  · exact fun hclean ↦ ⟨exit, hexit, heax, hclean⟩

theorem allocated_of_ne (harg : call.arg ≠ 0) (hmalloc : call.malloc ≠ 0) :
    allocated call = [call.malloc] := if_neg (not_or.mpr ⟨harg, hmalloc⟩)

theorem negone_ne_zero : ¬(-1 : BitVec 32) = 0 := by decide

/-- Where nothing is allocated, nothing has to be cleaned up. -/
theorem clean_of_not_allocated (h : ListAt nodeLayout m.node m.listHead xs)
    (hnone : call.arg = 0 ∨ call.malloc = 0) :
    (call.entered.negone m call.user).Clean m xs call := by
  refine ⟨fun _ ↦ ⟨h, rfl, ?_⟩, fun heax ↦ absurd heax negone_ne_zero, rfl, rfl, rfl⟩
  rw [allocated, if_pos hnone]
  rfl

theorem Memory.filled_eq (m : Memory) (hmalloc : call.malloc ≠ 0) :
    m.filled call =
      { m with
        node := Function.update m.node call.malloc (some call.user)
        live := Function.update m.live call.malloc true
        mallocs := m.mallocs + 1 } := by
  rw [filled, malloc, if_neg hmalloc]
  rfl

theorem listAt_update (h : ListAt nodeLayout m.node m.listHead xs)
    (hfresh : call.malloc ∉ xs.map Entry.addr) (node : Option Node) :
    ListAt nodeLayout (Function.update m.node call.malloc node) m.listHead xs :=
  h.update_of_notMem hfresh node

/-- Where the record is not copied, the address of the node is on the stack, and another address is
freed. -/
theorem clean_not_copied_iff (h : ListAt nodeLayout m.node m.listHead xs)
    (hfresh : call.malloc ∉ xs.map Entry.addr) (harg : call.arg ≠ 0) (hmalloc : call.malloc ≠ 0) :
    ((call.entered.push call.malloc).negone ((m.filled call).free call.notCopied) call.user).Clean
      m xs call ↔ Coincides call := by
  rw [m.filled_eq hmalloc]
  constructor
  · intro hclean
    obtain ⟨hebx, hesi, hedi⟩ := hclean.registers
    have heq : call.notCopied :: m.freed = allocated call ++ m.freed := (hclean.failed rfl).2.2
    rw [allocated_of_ne harg hmalloc] at heq
    have hebx : call.malloc = call.ebx := hebx
    have hesi : call.ebx = call.esi := hesi
    have hedi : call.esi = call.edi := hedi
    exact ⟨(List.cons.inj heq).1, hebx.symm, (hebx.trans hesi).symm,
      ((hebx.trans hesi).trans hedi).symm⟩
  · rintro ⟨hcopied, hebx, hesi, hedi⟩
    refine ⟨fun _ ↦ ⟨listAt_update h hfresh _, rfl, ?_⟩, fun heax ↦ absurd heax negone_ne_zero,
      hebx.symm, hebx.trans hesi.symm, hesi.trans hedi.symm⟩
    rw [allocated_of_ne harg hmalloc, ← hcopied]
    rfl

/-- Where the location is out of range, the node is not freed. -/
theorem not_clean_out_of_range (harg : call.arg ≠ 0) (hmalloc : call.malloc ≠ 0) :
    ¬((call.entered.push call.malloc).negone (m.filled call) call.user).Clean m xs call := by
  rw [m.filled_eq hmalloc]
  intro hclean
  have heq : m.freed = allocated call ++ m.freed := (hclean.failed rfl).2.2
  rw [allocated_of_ne harg hmalloc] at heq
  exact List.cons_ne_self _ _ heq.symm

/-- An addition cleans up exactly if nothing is allocated, or if the record is copied and has a
valid location, or by coincidence. -/
theorem add_cleans_iff (h : ListAt nodeLayout m.node m.listHead xs)
    (hfresh : call.malloc ∉ xs.map Entry.addr) :
    AddCleans m xs call ↔
      call.arg = 0 ∨ call.malloc = 0 ∨ call.notCopied = 0 ∧ call.user.location ≤ 1999 ∨
        call.notCopied ≠ 0 ∧ Coincides call := by
  by_cases harg : call.arg = 0
  · rw [addCleans_iff_of_eq (add_no_argument harg) (Or.inr rfl)]
    exact iff_of_true (clean_of_not_allocated h (Or.inl harg)) (Or.inl harg)
  by_cases hmalloc : call.malloc = 0
  · rw [addCleans_iff_of_eq (add_no_memory harg hmalloc) (Or.inr rfl)]
    exact iff_of_true (clean_of_not_allocated h (Or.inr hmalloc)) (Or.inr (Or.inl hmalloc))
  rw [or_iff_right harg, or_iff_right hmalloc]
  by_cases hcopied : call.notCopied = 0
  · rw [or_iff_left fun hnot ↦ hnot.1 hcopied, and_iff_right hcopied]
    by_cases hlocation : call.user.location ≤ 1999
    · rw [addCleans_iff_of_eq (add_worked harg hmalloc hcopied hlocation) (Or.inl rfl),
        m.filled_eq hmalloc]
      refine iff_of_true ⟨fun heax ↦ absurd heax.symm negone_ne_zero, fun _ ↦ ?_, rfl, rfl, rfl⟩
        hlocation
      refine ⟨hlocation, hfresh, rfl, hmalloc, _, Function.update_self _ _ _, rfl, ?_⟩
      change ListAt nodeLayout (Function.update (Function.update _ _ _) _ _) m.listHead xs
      rw [Function.update_idem]
      exact listAt_update h hfresh _
    · rw [addCleans_iff_of_eq (add_out_of_range harg hmalloc hcopied hlocation) (Or.inr rfl)]
      exact iff_of_false (not_clean_out_of_range harg hmalloc) hlocation
  · rw [or_iff_right fun hnot ↦ hcopied hnot.1, and_iff_right hcopied,
      addCleans_iff_of_eq (add_not_copied harg hmalloc hcopied) (Or.inr rfl)]
    exact clean_not_copied_iff h hfresh harg hmalloc

/-- A first node, at 5. -/
theorem add_cleans_first :
    AddCleans (Memory.initial fun _ ↦ 0) [] (plainCall 0xBF000000 5 0x100) :=
  (add_cleans_iff (holds_initial _).list List.not_mem_nil).mpr (by decide)

/-- An addition whose record cannot be read. -/
def unreadableCall : Call := { plainCall 0xBF000000 5 0x100 with notCopied := 16 }

/-- The node at 0x100 is not freed, but 16 is, and the caller gets the node in `%ebx`. -/
theorem add_not_always_clean :
    ¬AddCleans (Memory.initial fun _ ↦ 0) [] unreadableCall ∧
      (mp1IoctlAdd (Memory.initial fun _ ↦ 0) unreadableCall).map
        (fun exit ↦ (exit.eax, exit.memory.freed, exit.ebx)) = some (-1, [16], 0x100) := by
  have harg : unreadableCall.arg ≠ 0 := by decide
  have hmalloc : unreadableCall.malloc ≠ 0 := by decide
  have hcopied : unreadableCall.notCopied ≠ 0 := by decide
  have hlist := (holds_initial fun _ ↦ 0).list
  rw [addCleans_iff_of_eq (add_not_copied harg hmalloc hcopied) (Or.inr rfl),
    clean_not_copied_iff hlist List.not_mem_nil harg hmalloc]
  decide

end Cleaning

end Sp18.Blink
