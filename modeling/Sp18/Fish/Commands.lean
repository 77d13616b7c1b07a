import Mathlib.Data.List.NodupEquivFin
import Mathlib.Data.List.Sublists
import Sp18.Blink.Blinking
import Sp18.Fish.BlinkList

/-!
# The commands of fish on a list of records

What the commands are to do with a list of records (`Request.apply`), and what it means that memory
holds it (`Holds`): its nodes are the elements of the array whose location is not 0.
-/

set_option autoImplicit false
set_option relaxedAutoImplicit false

namespace Sp18.Fish

open Foundation
open Blink (Record low started synced cellOf)

/-- Nodes are linked by `next`. -/
def nodeLayout : ListLayout (Option ℕ) Node Record :=
  { null := none, next := Node.next, value := Node.toRecord }

/-- The records of a list, each with the address of its node. -/
abbrev Entries : Type := List (Entry (Option ℕ) Record)

/-- What a pointer points to. -/
def cellAt (array : ℕ → Node) (p : Option ℕ) : Option Node := p.map array

/-- The elements linked from a pointer on hold this list. -/
def Linked (array : ℕ → Node) (p : Option ℕ) (xs : Entries) : Prop :=
  ListAt nodeLayout (cellAt array) p xs

/-- Memory holds the list: it is linked from `mp1_list_head`, its nodes are the elements of the
array that are not free, and all of its records are on the screen. -/
structure Holds (m : Memory) (xs : Entries) : Prop where
  list : Linked m.blinkArray m.listHead xs
  nodup : (xs.map Entry.addr).Nodup
  inside : ∀ i, some i ∈ xs.map Entry.addr → i < poolSize
  free : ∀ i < poolSize, (m.blinkArray i).location = 0 ↔ some i ∉ xs.map Entry.addr
  flag : ∀ entry ∈ xs, entry.value.status = 0 ∨ entry.value.status = 1
  bounded : ∀ entry ∈ xs, entry.value.location ≤ 1999

variable {m : Memory} {array : ℕ → Node} {xs : Entries} {p : Option ℕ} {i : ℕ} {node : Node}

theorem cellAt_update (array : ℕ → Node) (i : ℕ) (node : Node) :
    cellAt (Function.update array i node) =
      Function.update (cellAt array) (some i) (some node) := by
  funext p
  cases p with
  | none =>
    rw [Function.update_of_ne (Option.some_ne_none i).symm]
    rfl
  | some j =>
    by_cases hj : j = i
    · subst hj
      rw [Function.update_self, cellAt, Option.map_some, Function.update_self]
    · have hne : some j ≠ some i := fun heq ↦ hj (Option.some.inj heq)
      rw [Function.update_of_ne hne, cellAt, cellAt, Option.map_some, Option.map_some,
        Function.update_of_ne hj]

theorem linked_nil (h : Linked array p []) : p = none := h

theorem linked_cons {entry : Entry (Option ℕ) Record} {rest : Entries}
    (h : Linked array p (entry :: rest)) :
    ∃ i, p = some i ∧ entry = ⟨some i, (array i).toRecord⟩ ∧
      Linked array (array i).next rest := by
  obtain ⟨haddr, hnull, node, hnode, hvalue, hrest⟩ := h
  obtain ⟨i, rfl⟩ := Option.ne_none_iff_exists'.mp hnull
  obtain rfl : array i = node := Option.some.inj hnode
  refine ⟨i, rfl, ?_, hrest⟩
  cases entry
  cases haddr
  cases hvalue
  rfl

/-- An element outside the list may change. -/
theorem Linked.store_of_notMem (h : Linked array p xs) (hi : some i ∉ xs.map Entry.addr)
    (node : Node) : Linked (Function.update array i node) p xs := by
  rw [Linked, cellAt_update]
  exact h.update_of_notMem hi _

/-- An element of the list that keeps its link may change. -/
theorem Linked.store_value (h : Linked array p xs) (hnext : node.next = (array i).next) :
    Linked (Function.update array i node) p (setValue (some i) node.toRecord xs) := by
  rw [Linked, cellAt_update]
  exact h.update_value (c := array i) rfl hnext

/-- The elements of a list, with their records. -/
theorem Linked.entry_eq (h : Linked array p xs) {entry : Entry (Option ℕ) Record}
    (hmem : entry ∈ xs) : ∃ i, entry = ⟨some i, (array i).toRecord⟩ := by
  obtain ⟨node, hnode, hvalue, hnull⟩ := h.cell_of_mem hmem
  obtain ⟨i, hi⟩ := Option.ne_none_iff_exists'.mp hnull
  rw [hi] at hnode
  obtain rfl : array i = node := Option.some.inj hnode
  refine ⟨i, ?_⟩
  cases entry
  cases hi
  cases hvalue
  rfl

theorem Linked.mem_of_some (h : Linked array p xs) (hmem : some i ∈ xs.map Entry.addr) :
    (⟨some i, (array i).toRecord⟩ : Entry (Option ℕ) Record) ∈ xs := by
  obtain ⟨entry, hentry, haddr⟩ := List.mem_map.mp hmem
  obtain ⟨j, rfl⟩ := h.entry_eq hentry
  obtain rfl : j = i := Option.some.inj haddr
  exact hentry

/-- There is no room for more nodes than the array has elements. -/
theorem Holds.length_le (h : Holds m xs) : xs.length ≤ poolSize := by
  have hsubset : xs.map Entry.addr ⊆ (List.range poolSize).map some := by
    intro p hp
    obtain ⟨entry, hentry, rfl⟩ := List.mem_map.mp hp
    obtain ⟨i, rfl⟩ := h.list.entry_eq hentry
    exact List.mem_map_of_mem (List.mem_range.mpr (h.inside i hp))
  have hle := (List.subperm_of_subset h.nodup hsubset).length_le
  rwa [List.length_map, List.length_map, List.length_range] at hle

/-- The array is full exactly if each of its elements is a node of the list. -/
theorem Holds.malloc_eq_none_iff (h : Holds m xs) : m.malloc = none ↔ xs.length = poolSize := by
  rw [Memory.malloc, List.find?_range_eq_none]
  constructor
  · intro hfull
    have hsubset : (List.range poolSize).map some ⊆ xs.map Entry.addr := by
      intro p hp
      obtain ⟨i, hi, rfl⟩ := List.mem_map.mp hp
      by_contra hnotMem
      have hlocation := (h.free i (List.mem_range.mp hi)).mpr hnotMem
      have hnonzero := hfull i (List.mem_range.mp hi)
      rw [hlocation] at hnonzero
      cases hnonzero
    have hnodup : ((List.range poolSize).map some).Nodup :=
      List.nodup_range.map (Option.some_injective ℕ)
    have hle := (List.subperm_of_subset hnodup hsubset).length_le
    rw [List.length_map, List.length_map, List.length_range] at hle
    exact Nat.le_antisymm h.length_le hle
  · intro hlength i hi
    rw [Bool.not_eq_true', beq_eq_false_iff_ne]
    intro hlocation
    have hnotMem := (h.free i hi).mp hlocation
    have hsubset : xs.map Entry.addr ⊆ ((List.range poolSize).erase i).map some := by
      intro p hp
      obtain ⟨entry, hentry, rfl⟩ := List.mem_map.mp hp
      obtain ⟨j, rfl⟩ := h.list.entry_eq hentry
      have hj : j ≠ i := fun heq ↦ hnotMem (heq ▸ hp)
      exact List.mem_map_of_mem ((List.mem_erase_of_ne hj).mpr (List.mem_range.mpr (h.inside j hp)))
    have hle := (List.subperm_of_subset h.nodup hsubset).length_le
    rw [List.length_map, List.length_map, List.length_erase_of_mem (List.mem_range.mpr hi),
      List.length_range, hlength] at hle
    exact absurd hle (Nat.not_le_of_lt (Nat.sub_lt (Nat.zero_lt_of_lt hi) Nat.one_pos))

/-- `mp1_malloc` returns an element that is free. -/
theorem Holds.malloc_eq_some (h : Holds m xs) (hmalloc : m.malloc = some i) :
    i < poolSize ∧ some i ∉ xs.map Entry.addr := by
  rw [Memory.malloc, List.find?_range_eq_some] at hmalloc
  obtain ⟨hlocation, hi, -⟩ := hmalloc
  have hi : i < poolSize := List.mem_range.mp hi
  exact ⟨hi, (h.free i hi).mp (beq_iff_eq.mp hlocation)⟩

/-! ### What the commands are to do -/

/-- What a command is to return, the list after it, and the record that it is to copy to the user.
-/
structure Reply where
  eax : BitVec 32
  list : List Record
  found : Option Record

/-- A command returns -1 and changes nothing. -/
def refused (rs : List Record) : Reply := ⟨-1, rs, none⟩

/-- The first record with a location. -/
def recordAt (rs : List Record) (location : BitVec 16) : Option Record :=
  rs.find? fun r ↦ r.location == location

/-- The first record with a location gets the lengths, the countdown and the status of another. -/
def syncAt (location : BitVec 16) (source : Record) (rs : List Record) : List Record :=
  rs.replaceF fun r ↦ if r.location = location then some (synced r source) else none

/-- What the commands are to do with a list of records, of which there may be `poolSize`. -/
def Request.apply (rs : List Record) : Request → Reply
  | .add user =>
    if user.location ≤ 1999 ∧ rs.length < poolSize then ⟨0, started user.toRecord :: rs, none⟩
    else refused rs
  | .remove arg =>
    match recordAt rs (low arg) with
    | none => refused rs
    | some _ => ⟨0, rs.eraseP fun r ↦ r.location == low arg, none⟩
  | .find user =>
    match recordAt rs user.location with
    | none => refused rs
    | some r => ⟨0, rs, some r⟩
  | .sync arg =>
    match recordAt rs (low (arg >>> 16)), recordAt rs (low arg) with
    | some source, some _ => ⟨0, syncAt (low arg) source rs, none⟩
    | _, _ => refused rs

/-- What the commands do to the screen. A synchronization shows the character for the off phase,
whatever the status. -/
def Request.draw (rs : List Record) (vmem : BitVec 32 → BitVec 8) :
    Request → BitVec 32 → BitVec 8
  | .add user =>
    if user.location ≤ 1999 ∧ rs.length < poolSize then
      Function.update vmem (cellOf user.location) user.onChar
    else vmem
  | .sync arg =>
    match recordAt rs (low (arg >>> 16)), recordAt rs (low arg) with
    | some _, some target => Function.update vmem (cellOf target.location) target.offChar
    | _, _ => vmem
  | _ => vmem

/-- What a tick does to the screen. -/
def drawAll (rs : List Record) (vmem : BitVec 32 → BitVec 8) : BitVec 32 → BitVec 8 :=
  rs.foldl (fun vmem r ↦ r.draw vmem) vmem

/-- Memory holds a list of records. -/
def Represents (m : Memory) (rs : List Record) : Prop :=
  ∃ xs, Holds m xs ∧ xs.map Entry.value = rs

/-- The command does what it is to do. -/
def Conforms (m : Memory) (rs : List Record) (request : Request) : Prop :=
  ∃ exit, mp1Ioctl m request = some exit ∧ exit.eax = (request.apply rs).eax ∧
    exit.found.map Node.toRecord = (request.apply rs).found ∧
    exit.memory.vmem = request.draw rs m.vmem ∧
    Represents exit.memory (request.apply rs).list

/-! ### Searching -/

/-- The first element of a list with a location. -/
def entryAt (xs : Entries) (location : BitVec 16) : Option (Entry (Option ℕ) Record) :=
  xs.find? fun entry ↦ entry.value.location == location

theorem recordAt_map (xs : Entries) (location : BitVec 16) :
    recordAt (xs.map Entry.value) location = (entryAt xs location).map Entry.value := by
  rw [recordAt, List.find?_map]
  rfl

theorem entryAt_some {location : BitVec 16} {entry : Entry (Option ℕ) Record}
    (h : entryAt xs location = some entry) : entry ∈ xs ∧ entry.value.location = location := by
  refine ⟨List.mem_of_find?_eq_some h, ?_⟩
  have hfound := List.find?_some h
  exact beq_iff_eq.mp hfound

theorem findHelperLoop_eq (location : BitVec 16) {fuel : ℕ} (h : Linked m.blinkArray p xs)
    (hfuel : xs.length < fuel) :
    findHelperLoop m location fuel p = some ((entryAt xs location).bind Entry.addr) := by
  induction xs generalizing fuel p with
  | nil =>
    obtain ⟨fuel, rfl⟩ := Nat.exists_eq_succ_of_ne_zero (Nat.ne_of_gt hfuel)
    rw [linked_nil h]
    rfl
  | cons entry rest ih =>
    obtain ⟨fuel, rfl⟩ := Nat.exists_eq_succ_of_ne_zero (Nat.ne_of_gt (Nat.zero_lt_of_lt hfuel))
    obtain ⟨i, rfl, rfl, hrest⟩ := linked_cons h
    rw [findHelperLoop]
    by_cases hfound : (m.blinkArray i).location = location
    · have hfirst : entryAt (⟨some i, (m.blinkArray i).toRecord⟩ :: rest) location =
          some ⟨some i, (m.blinkArray i).toRecord⟩ :=
        List.find?_cons_of_pos (beq_iff_eq.mpr hfound)
      rw [if_pos hfound, hfirst]
      rfl
    · have hfirst : entryAt (⟨some i, (m.blinkArray i).toRecord⟩ :: rest) location =
          entryAt rest location :=
        List.find?_cons_of_neg fun heq ↦ hfound (beq_iff_eq.mp heq)
      rw [if_neg hfound, hfirst]
      exact ih hrest (Nat.lt_of_succ_lt_succ hfuel)

/-- The search ends with the first node that has the location. -/
theorem mp1FindHelper_eq (h : Holds m xs) (word : BitVec 32) :
    mp1FindHelper m word = some ((entryAt xs (low word)).bind Entry.addr) :=
  findHelperLoop_eq (low word) h.list (Nat.lt_succ_of_le h.length_le)

theorem mp1FindHelper_of_none (h : Holds m xs) {word : BitVec 32}
    (hnone : entryAt xs (low word) = none) : mp1FindHelper m word = some none := by
  rw [mp1FindHelper_eq h, hnone]
  rfl

/-- Where a record is found, it is the one of the node. -/
theorem mp1FindHelper_of_some (h : Holds m xs) {word : BitVec 32}
    {entry : Entry (Option ℕ) Record} (hsome : entryAt xs (low word) = some entry) :
    ∃ i, mp1FindHelper m word = some (some i) ∧ entry = ⟨some i, (m.blinkArray i).toRecord⟩ := by
  obtain ⟨i, rfl⟩ := h.list.entry_eq (entryAt_some hsome).1
  refine ⟨i, ?_, rfl⟩
  rw [mp1FindHelper_eq h, hsome]
  rfl

end Sp18.Fish
