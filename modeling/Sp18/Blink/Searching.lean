import Sp18.Blink.Mp1
import Sp18.Foundation.LinkedList

/-!
# Searching the blink list

A list of records with the addresses of their nodes, and what it means that memory holds it
(`Holds`). On such a memory `traverse` finds the first node with a location (`traverse_search`),
unless the list is empty (`traverse_nil`) or its head has the location in `%di` (`traverse_head`),
and the loop of `mp1_ioctl_remove` finds a node of the list (`removeLoop_eq`).
-/

set_option autoImplicit false
set_option relaxedAutoImplicit false

namespace Sp18.Blink

open Foundation

/-- Nodes are linked by `next`. -/
def nodeLayout : ListLayout (BitVec 32) Node Record :=
  { null := 0, next := Node.next, value := Node.toRecord }

/-- The records of a list, each with the address of its node. -/
abbrev Records : Type := List (Entry (BitVec 32) Record)

/-- The first record with this location. -/
def firstAt (xs : Records) (location : BitVec 16) : Option (Entry (BitVec 32) Record) :=
  xs.find? fun entry ↦ entry.value.location == location

/-- The address of the first record with this location, or null. -/
def addrAt (xs : Records) (location : BitVec 16) : BitVec 32 :=
  ((firstAt xs location).map Entry.addr).getD 0

/-- Memory holds the list: it is linked from `mp1_list_head`, and its nodes are those that are
allocated. -/
structure Holds (m : Memory) (xs : Records) : Prop where
  list : ListAt nodeLayout m.node m.listHead xs
  nodup : (xs.map Entry.addr).Nodup
  live : ∀ p, m.live p = true ↔ p ∈ xs.map Entry.addr
  length : xs.length ≤ m.mallocs
  zero : m.node 0 = none
  one : m.node 1 = none

variable {m : Memory} {xs : Records}

theorem listAt_nil {p : BitVec 32} (h : ListAt nodeLayout m.node p []) : p = 0 := h

theorem listAt_cons {p : BitVec 32} {entry : Entry (BitVec 32) Record} {rest : Records}
    (h : ListAt nodeLayout m.node p (entry :: rest)) :
    p = entry.addr ∧ p ≠ 0 ∧
      ∃ node, m.node p = some node ∧ node.toRecord = entry.value ∧
        ListAt nodeLayout m.node node.next rest := h

theorem Holds.ne_zero (h : Holds m xs) {entry : Entry (BitVec 32) Record} (hmem : entry ∈ xs) :
    entry.addr ≠ 0 := by
  obtain ⟨node, -, -, hnull⟩ := h.list.cell_of_mem hmem
  exact hnull

theorem Holds.ne_one (h : Holds m xs) {entry : Entry (BitVec 32) Record} (hmem : entry ∈ xs) :
    entry.addr ≠ 1 := by
  obtain ⟨node, hnode, -⟩ := h.list.cell_of_mem hmem
  intro hone
  rw [hone, h.one] at hnode
  cases hnode

theorem firstAt_some {location : BitVec 16} {entry : Entry (BitVec 32) Record}
    (h : firstAt xs location = some entry) : entry ∈ xs ∧ entry.value.location = location := by
  refine ⟨List.mem_of_find?_eq_some h, ?_⟩
  have hfound := List.find?_some h
  exact beq_iff_eq.mp hfound

theorem addrAt_of_none {location : BitVec 16} (h : firstAt xs location = none) :
    addrAt xs location = 0 := by
  rw [addrAt, h]
  rfl

theorem addrAt_of_some {location : BitVec 16} {entry : Entry (BitVec 32) Record}
    (h : firstAt xs location = some entry) : addrAt xs location = entry.addr := by
  rw [addrAt, h]
  rfl

/-- The loop of `traverse` on a list that is short enough for the fuel. -/
theorem traverseLoop_eq (location : BitVec 16) {fuel : ℕ} (ebx : BitVec 32) {ecx : BitVec 32}
    (h : ListAt nodeLayout m.node ecx xs) (hfuel : xs.length < fuel) :
    ∃ ebx', traverseLoop m location fuel ebx ecx = some (addrAt xs location, ebx') := by
  induction xs generalizing fuel ebx ecx with
  | nil =>
    obtain ⟨fuel, rfl⟩ := Nat.exists_eq_succ_of_ne_zero (Nat.ne_of_gt hfuel)
    rw [traverseLoop, if_pos (listAt_nil h)]
    exact ⟨ebx, rfl⟩
  | cons entry rest ih =>
    obtain ⟨fuel, rfl⟩ := Nat.exists_eq_succ_of_ne_zero (Nat.ne_of_gt (Nat.zero_lt_of_lt hfuel))
    obtain ⟨rfl, hnull, node, hnode, hvalue, hrest⟩ := listAt_cons h
    have hlocation : node.location = entry.value.location := congrArg Record.location hvalue
    rw [traverseLoop, if_neg hnull, hnode]
    by_cases hfound : entry.value.location = location
    · have hfirst : firstAt (entry :: rest) location = some entry :=
        List.find?_cons_of_pos (beq_iff_eq.mpr hfound)
      refine ⟨ebx, ?_⟩
      rw [addrAt_of_some hfirst]
      exact if_pos (hlocation.trans hfound)
    · have hfirst : firstAt (entry :: rest) location = firstAt rest location :=
        List.find?_cons_of_neg fun heq ↦ hfound (beq_iff_eq.mp heq)
      obtain ⟨ebx', hloop⟩ := ih entry.addr hrest (Nat.lt_of_succ_lt_succ hfuel)
      refine ⟨ebx', ?_⟩
      rw [addrAt, hfirst]
      exact (if_neg fun heq ↦ hfound (hlocation.symm.trans heq)).trans hloop

/-- The loop of `mp1_ioctl_remove` ends at a node of the list, or with null. -/
theorem removeLoop_eq (eax : BitVec 32) {edx : BitVec 32} {fuel : ℕ}
    (h : ListAt nodeLayout m.node edx xs) (hfuel : xs.length < fuel) :
    removeLoop m eax fuel edx = some (if eax ∈ xs.map Entry.addr then eax else 0) := by
  induction xs generalizing fuel edx with
  | nil =>
    obtain ⟨fuel, rfl⟩ := Nat.exists_eq_succ_of_ne_zero (Nat.ne_of_gt hfuel)
    rw [removeLoop, if_pos (listAt_nil h)]
    rfl
  | cons entry rest ih =>
    obtain ⟨fuel, rfl⟩ := Nat.exists_eq_succ_of_ne_zero (Nat.ne_of_gt (Nat.zero_lt_of_lt hfuel))
    obtain ⟨rfl, hnull, node, hnode, hvalue, hrest⟩ := listAt_cons h
    rw [removeLoop, if_neg hnull, List.map_cons]
    by_cases hfound : entry.addr = eax
    · rw [if_pos hfound, if_pos (List.mem_cons.mpr (Or.inl hfound.symm)), hfound]
    · have hmem : (eax ∈ entry.addr :: rest.map Entry.addr) = (eax ∈ rest.map Entry.addr) :=
        propext ((List.mem_cons).trans (or_iff_right fun heq ↦ hfound heq.symm))
      rw [if_neg hfound, hnode]
      simp only [hmem]
      exact ih hrest (Nat.lt_of_succ_lt_succ hfuel)

section Traverse

variable {edi top : BitVec 32}

theorem traverse_nil (h : Holds m []) : traverse m edi top = none := by
  rw [traverse, listAt_nil h.list, h.zero]

variable {first : Entry (BitVec 32) Record} {rest : Records}

/-- Where the head has the location in `%di`, the search returns 1, whatever it is to find. -/
theorem traverse_head (h : Holds m (first :: rest)) (hdi : first.value.location = low edi) :
    traverse m edi top = some (1, m.listHead) := by
  obtain ⟨haddr, hnull, node, hnode, hvalue, hrest⟩ := listAt_cons h.list
  have hlocation : node.location = low edi := (congrArg Record.location hvalue).trans hdi
  rw [traverse, hnode]
  exact if_pos hlocation

/-- Where it has not, the search finds the first node with the location on top of the stack. -/
theorem traverse_search (h : Holds m (first :: rest)) (hdi : first.value.location ≠ low edi)
    (top : BitVec 32) :
    ∃ ebx, traverse m edi top = some (addrAt (first :: rest) (low top), ebx) := by
  obtain ⟨ebx, hloop⟩ :=
    traverseLoop_eq (low top) m.listHead h.list (Nat.lt_succ_of_le h.length)
  obtain ⟨haddr, hnull, node, hnode, hvalue, hrest⟩ := listAt_cons h.list
  have hlocation : ¬node.location = low edi :=
    fun heq ↦ hdi ((congrArg Record.location hvalue).symm.trans heq)
  refine ⟨ebx, ?_⟩
  rw [traverse, hnode]
  exact (if_neg hlocation).trans hloop

end Traverse

end Sp18.Blink
