import Mathlib.Logic.Function.Basic
import Mathlib.Data.List.Basic

/-!
# Linked lists in memory

A memory maps addresses to cells. `ListAt layout cell p xs` says that the cells that are linked from
address `p` on are those of the list `xs`, each an address with the value of its cell, and that the
last one links to the null address.

A memory has one list from an address at most (`ListAt.unique`). A cell outside a list may change
(`ListAt.update_of_notMem`), and a cell of a list may change its value as long as it keeps its
link (`ListAt.update_value`), while the others keep theirs (`mem_setValue`). A cell leaves the list
when the one before it links to the one behind it (`ListAt.unlink`).
-/

set_option autoImplicit false
set_option relaxedAutoImplicit false

namespace Sp18.Foundation

/-- Where the links of a list are. -/
structure ListLayout (Addr Cell Value : Type*) where
  null : Addr
  next : Cell → Addr
  value : Cell → Value

/-- An element of a list: the address of a cell and its value. -/
structure Entry (Addr Value : Type*) where
  addr : Addr
  value : Value
  deriving DecidableEq

variable {Addr Cell Value : Type*} {layout : ListLayout Addr Cell Value} {cell : Addr → Option Cell}

/-- The cells linked from `p` on make this list. -/
def ListAt (layout : ListLayout Addr Cell Value) (cell : Addr → Option Cell) :
    Addr → List (Entry Addr Value) → Prop
  | p, [] => p = layout.null
  | p, entry :: rest =>
    p = entry.addr ∧ p ≠ layout.null ∧
      ∃ c, cell p = some c ∧ layout.value c = entry.value ∧ ListAt layout cell (layout.next c) rest

theorem ListAt.unique {p : Addr} {xs ys : List (Entry Addr Value)} (hxs : ListAt layout cell p xs)
    (hys : ListAt layout cell p ys) : xs = ys := by
  induction xs generalizing p ys with
  | nil =>
    cases ys with
    | nil => rfl
    | cons entry rest => exact absurd hxs hys.2.1
  | cons entry rest ih =>
    cases ys with
    | nil => exact absurd hys hxs.2.1
    | cons entry' rest' =>
      obtain ⟨haddr, -, c, hcell, hvalue, hrest⟩ := hxs
      obtain ⟨haddr', -, c', hcell', hvalue', hrest'⟩ := hys
      obtain rfl : c = c' := Option.some.inj (hcell.symm.trans hcell')
      have hentry : entry = entry' := by
        cases entry
        cases entry'
        cases haddr
        cases haddr'
        cases hvalue
        cases hvalue'
        rfl
      rw [hentry, ih hrest hrest']

/-- Each cell of a list is in memory. -/
theorem ListAt.cell_of_mem {p : Addr} {xs : List (Entry Addr Value)} (h : ListAt layout cell p xs)
    {entry : Entry Addr Value} (hmem : entry ∈ xs) :
    ∃ c, cell entry.addr = some c ∧ layout.value c = entry.value ∧ entry.addr ≠ layout.null := by
  induction xs generalizing p with
  | nil => cases hmem
  | cons first rest ih =>
    obtain ⟨rfl, hnull, c, hcell, hvalue, hrest⟩ := h
    rcases List.mem_cons.mp hmem with rfl | hmem
    · exact ⟨c, hcell, hvalue, hnull⟩
    · exact ih hrest hmem

variable [DecidableEq Addr]

/-- A cell outside the list may change. -/
theorem ListAt.update_of_notMem {p : Addr} {xs : List (Entry Addr Value)}
    (h : ListAt layout cell p xs) {a : Addr} (ha : a ∉ xs.map Entry.addr) (c : Option Cell) :
    ListAt layout (Function.update cell a c) p xs := by
  induction xs generalizing p with
  | nil => exact h
  | cons entry rest ih =>
    obtain ⟨rfl, hnull, kept, hcell, hvalue, hrest⟩ := h
    obtain ⟨hfirst, hlater⟩ := not_or.mp (mt List.mem_cons.mpr ha)
    refine ⟨rfl, hnull, kept, ?_, hvalue, ih hrest hlater⟩
    rw [Function.update_of_ne (Ne.symm hfirst), hcell]

/-- A list with another value in the cell at an address. -/
def setValue (a : Addr) (v : Value) (xs : List (Entry Addr Value)) : List (Entry Addr Value) :=
  xs.map fun entry ↦ if entry.addr = a then ⟨a, v⟩ else entry

theorem map_addr_setValue (a : Addr) (v : Value) (xs : List (Entry Addr Value)) :
    (setValue a v xs).map Entry.addr = xs.map Entry.addr := by
  rw [setValue, List.map_map]
  refine List.map_congr_left fun entry _ ↦ ?_
  rw [Function.comp_apply]
  split_ifs with haddr
  · exact haddr.symm
  · rfl

theorem setValue_of_notMem {a : Addr} {xs : List (Entry Addr Value)} (ha : a ∉ xs.map Entry.addr)
    (v : Value) : setValue a v xs = xs := by
  refine (List.map_congr_left fun entry hmem ↦ ?_).trans (List.map_id xs)
  have hne : ¬entry.addr = a := fun heq ↦ ha (heq ▸ List.mem_map_of_mem hmem)
  exact if_neg hne

/-- The cell at the address has its new value, and the others are as they were. -/
theorem mem_setValue {a : Addr} {v : Value} {xs : List (Entry Addr Value)}
    {entry : Entry Addr Value} : entry ∈ setValue a v xs ↔
      entry ∈ xs ∧ entry.addr ≠ a ∨ entry = ⟨a, v⟩ ∧ a ∈ xs.map Entry.addr := by
  rw [setValue, List.mem_map]
  constructor
  · rintro ⟨old, hold, rfl⟩
    split_ifs with haddr
    · exact Or.inr ⟨rfl, List.mem_map.mpr ⟨old, hold, haddr⟩⟩
    · exact Or.inl ⟨hold, haddr⟩
  · rintro (⟨hmem, hne⟩ | ⟨rfl, hmem⟩)
    · exact ⟨entry, hmem, if_neg hne⟩
    · obtain ⟨old, hold, haddr⟩ := List.mem_map.mp hmem
      exact ⟨old, hold, if_pos haddr⟩

/-- A cell that keeps its link may change its value. -/
theorem ListAt.update_value {p : Addr} {xs : List (Entry Addr Value)}
    (h : ListAt layout cell p xs) {a : Addr} {c c' : Cell} (hcell : cell a = some c)
    (hnext : layout.next c' = layout.next c) :
    ListAt layout (Function.update cell a (some c')) p (setValue a (layout.value c') xs) := by
  induction xs generalizing p with
  | nil => exact h
  | cons entry rest ih =>
    obtain ⟨rfl, hnull, kept, hkept, hvalue, hrest⟩ := h
    rw [setValue, List.map_cons]
    split_ifs with haddr
    · subst haddr
      obtain rfl : kept = c := Option.some.inj (hkept.symm.trans hcell)
      refine ⟨rfl, hnull, c', Function.update_self _ _ _, rfl, ?_⟩
      rw [hnext]
      exact ih hrest
    · refine ⟨rfl, hnull, kept, ?_, hvalue, ih hrest⟩
      rw [Function.update_of_ne haddr, hkept]

/-- The cell behind `prev` leaves the list when `prev` gets its link. -/
theorem ListAt.unlink {p : Addr} {before after : List (Entry Addr Value)}
    {prev entry : Entry Addr Value}
    (h : ListAt layout cell p (before ++ prev :: entry :: after))
    (hnodup : ((before ++ prev :: entry :: after).map Entry.addr).Nodup) {c c' gone : Cell}
    (hcell : cell prev.addr = some c) (hgone : cell entry.addr = some gone)
    (hvalue : layout.value c' = layout.value c) (hnext : layout.next c' = layout.next gone) :
    ListAt layout (Function.update cell prev.addr (some c')) p (before ++ prev :: after) := by
  induction before generalizing p with
  | nil =>
    obtain ⟨rfl, hnull, kept, hkept, hkeptValue, hrest⟩ := h
    obtain rfl : kept = c := Option.some.inj (hkept.symm.trans hcell)
    obtain ⟨haddr, -, gone', hgone', -, hafter⟩ := hrest
    rw [haddr] at hgone'
    obtain rfl : gone' = gone := Option.some.inj (hgone'.symm.trans hgone)
    have hnotMem : prev.addr ∉ after.map Entry.addr :=
      fun hmem ↦ (List.nodup_cons.mp hnodup).1 (List.mem_cons_of_mem _ hmem)
    refine ⟨rfl, hnull, c', Function.update_self _ _ _, hvalue.trans hkeptValue, ?_⟩
    rw [hnext]
    exact hafter.update_of_notMem hnotMem _
  | cons first before ih =>
    obtain ⟨rfl, hnull, kept, hkept, hkeptValue, hrest⟩ := h
    obtain ⟨hnotMem, hnodup⟩ := List.nodup_cons.mp hnodup
    have hne : first.addr ≠ prev.addr := by
      intro heq
      refine hnotMem (heq ▸ List.mem_map_of_mem ?_)
      exact List.mem_append_right _ List.mem_cons_self
    refine ⟨rfl, hnull, kept, ?_, hkeptValue, ih hrest hnodup⟩
    rw [Function.update_of_ne hne, hkept]

end Sp18.Foundation
