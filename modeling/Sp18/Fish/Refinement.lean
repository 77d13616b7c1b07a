import Sp18.Foundation.StepSystem
import Sp18.Fish.Conforming

/-!
# The blink list of fish refines a list of records

Commands and ticks beside the list of records that they are to implement. All events of a run do
what they are to do exactly if no record is added at location 0 as long as there is room
(`blinkArray_refines_iff`). Memory then holds the list in every state, so that no node is lost and
none is given away twice.
-/

set_option autoImplicit false
set_option relaxedAutoImplicit false

namespace Sp18.Fish

open Foundation
open Blink (Record low started synced cellOf)

/-! ### Ticks -/

/-- The node that a visit leaves. -/
def Node.tick (node : Node) : Node := { node.toRecord.tick with next := node.next }

/-- What a tick does to an element of the list. -/
def tickEntry (entry : Entry (Option ℕ) Record) : Entry (Option ℕ) Record :=
  { entry with value := entry.value.tick }

variable {m : Memory} {xs : Entries} {p : Option ℕ} {i : ℕ}

/-- A visit changes the node and what it shows, and nothing else. -/
theorem visitNode_eq (hflag : (m.blinkArray i).status = 0 ∨ (m.blinkArray i).status = 1)
    (hbounded : (m.blinkArray i).location ≤ 1999) :
    visitNode m i =
      { m with
        blinkArray := Function.update m.blinkArray i (m.blinkArray i).tick
        vmem := (m.blinkArray i).toRecord.draw m.vmem } := by
  have hand : (m.blinkArray i).status &&& 1 = 0 ↔ (m.blinkArray i).status = 0 := by
    rcases hflag with h | h
    · rw [h]
      decide
    · rw [h]
      decide
  by_cases hdue : (m.blinkArray i).toRecord.Due
  · have hjg : ¬(0 : BitVec 16).slt ((m.blinkArray i).countdown - 1) = true := by
      rw [show (0 : BitVec 16).slt ((m.blinkArray i).countdown - 1) = false from hdue]
      exact Bool.false_ne_true
    rw [Record.draw, if_pos hdue, Record.tick_of_due hdue, Record.toggled_shown, Node.tick,
      Record.tick_of_due hdue, Record.toggled, visitNode, if_neg hjg]
    simp only [hand]
    rcases hflag with h | h
    · rw [if_pos h, if_pos h, if_pos h, h, ← offsetOf_eq hbounded]
      simp only [Memory.store, Memory.poke, Function.update_idem]
      rfl
    · have hne : ¬(m.blinkArray i).status = 0 := by
        rw [h]
        decide
      rw [if_neg hne, if_neg hne, if_neg hne, h, ← offsetOf_eq hbounded]
      simp only [Memory.store, Memory.poke, Function.update_idem]
      rfl
  · have hjg : (0 : BitVec 16).slt ((m.blinkArray i).countdown - 1) = true :=
      Bool.eq_true_of_not_eq_false hdue
    rw [Record.draw, if_neg hdue, Node.tick, Record.tick_of_not_due hdue, visitNode, if_pos hjg]
    rfl

/-- The loop on a list that is short enough for the fuel. -/
theorem taskletLoop_eq {fuel : ℕ} (h : Linked m.blinkArray p xs)
    (hnodup : (xs.map Entry.addr).Nodup)
    (hflag : ∀ entry ∈ xs, entry.value.status = 0 ∨ entry.value.status = 1)
    (hbounded : ∀ entry ∈ xs, entry.value.location ≤ 1999) (hfuel : xs.length < fuel) :
    ∃ array, taskletLoop fuel m p =
        some { m with blinkArray := array, vmem := drawAll (xs.map Entry.value) m.vmem } ∧
      Linked array p (xs.map tickEntry) ∧
      ∀ j, some j ∉ xs.map Entry.addr → array j = m.blinkArray j := by
  induction xs generalizing fuel p m with
  | nil =>
    obtain ⟨fuel, rfl⟩ := Nat.exists_eq_succ_of_ne_zero (Nat.ne_of_gt hfuel)
    obtain rfl := linked_nil h
    exact ⟨m.blinkArray, rfl, h, fun _ _ ↦ rfl⟩
  | cons entry rest ih =>
    obtain ⟨fuel, rfl⟩ := Nat.exists_eq_succ_of_ne_zero (Nat.ne_of_gt (Nat.zero_lt_of_lt hfuel))
    obtain ⟨i, rfl, rfl, hrest⟩ := linked_cons h
    obtain ⟨hnotMem, hnodup'⟩ := List.nodup_cons.mp hnodup
    have hvisit := visitNode_eq (hflag _ List.mem_cons_self) (hbounded _ List.mem_cons_self)
    have hkept : Linked (visitNode m i).blinkArray (m.blinkArray i).next rest := by
      rw [hvisit]
      exact hrest.store_of_notMem hnotMem _
    obtain ⟨array, hloop, hlist, hframe⟩ :=
      ih hkept hnodup' (fun e he ↦ hflag e (List.mem_cons_of_mem _ he))
        (fun e he ↦ hbounded e (List.mem_cons_of_mem _ he)) (Nat.lt_of_succ_lt_succ hfuel)
    have hticked : array i = (m.blinkArray i).tick := by
      rw [hframe i hnotMem, hvisit]
      exact Function.update_self _ _ _
    refine ⟨array, ?_, ?_, fun j hj ↦ ?_⟩
    · rw [taskletLoop, hloop, hvisit]
      rfl
    · refine ⟨rfl, Option.some_ne_none i, array i, rfl, ?_, ?_⟩
      · rw [hticked]
        rfl
      · rw [hticked]
        exact hlist
    · obtain ⟨hne, hj⟩ := not_or.mp (mt List.mem_cons.mpr hj)
      have hne : j ≠ i := fun heq ↦ hne (congrArg some heq)
      rw [hframe j hj, hvisit]
      exact Function.update_of_ne hne _ _

theorem Record.tick_status (r : Record) (h : r.status = 0 ∨ r.status = 1) :
    r.tick.status = 0 ∨ r.tick.status = 1 := by
  rw [Record.tick, Record.toggled]
  split_ifs
  · exact Or.inr rfl
  · exact Or.inl rfl
  · exact h

/-- A tick does to each record of the list what it is to do, and draws those that are due. -/
theorem mp1RtcTasklet_eq (h : Holds m xs) :
    ∃ m', mp1RtcTasklet m = some m' ∧ Holds m' (xs.map tickEntry) ∧
      m'.vmem = drawAll (xs.map Entry.value) m.vmem := by
  obtain ⟨array, hloop, hlist, hframe⟩ :=
    taskletLoop_eq h.list h.nodup h.flag h.bounded (Nat.lt_succ_of_le h.length_le)
  have haddr : (xs.map tickEntry).map Entry.addr = xs.map Entry.addr := by
    rw [List.map_map]
    rfl
  refine ⟨_, hloop, ⟨hlist, ?_, ?_, fun i hi ↦ ?_, ?_, ?_⟩, rfl⟩
  · rw [haddr]
    exact h.nodup
  · rw [haddr]
    exact h.inside
  · rw [haddr, ← h.free i hi]
    by_cases hmem : some i ∈ xs.map Entry.addr
    · have hticked := hlist.mem_of_some (haddr ▸ hmem)
      obtain ⟨old, hold, heq⟩ := List.mem_map.mp hticked
      obtain ⟨j, rfl⟩ := h.list.entry_eq hold
      obtain rfl : j = i := Option.some.inj (congrArg Entry.addr heq)
      have hvalue : (m.blinkArray j).toRecord.tick = (array j).toRecord :=
        congrArg Entry.value heq
      have hlocation : (array j).location = (m.blinkArray j).location :=
        (congrArg Record.location hvalue).symm.trans (Blink.Record.tick_location _)
      exact iff_of_eq (congrArg (· = 0) hlocation)
    · change (array i).location = 0 ↔ _
      rw [hframe i hmem]
  · intro entry hentry
    obtain ⟨old, hold, rfl⟩ := List.mem_map.mp hentry
    exact Record.tick_status _ (h.flag old hold)
  · intro entry hentry
    obtain ⟨old, hold, rfl⟩ := List.mem_map.mp hentry
    exact (Blink.Record.tick_location old.value).symm ▸ h.bounded old hold

/-! ### Runs -/

/-- A tick of the clock, or a command. -/
inductive Event where
  | tick
  | ioctl (request : Request)

/-- Memory beside the list of records that it is to hold. -/
structure Lockstep where
  memory : Memory
  list : List Record

namespace Lockstep

/-- Both before the first command. -/
def initial (vmem : BitVec 32 → BitVec 8) : Lockstep :=
  { memory := Memory.initial vmem, list := [] }

/-- An event on both. One that does not end leaves memory as it was. -/
def step (s : Lockstep) : Event → Lockstep
  | .tick =>
    { memory := (mp1RtcTasklet s.memory).getD s.memory
      list := s.list.map Record.tick }
  | .ioctl request =>
    { memory := ((mp1Ioctl s.memory request).map Exit.memory).getD s.memory
      list := (request.apply s.list).list }

/-- The next event does what it is to do. -/
def Conforms (s : Lockstep) : Event → Prop
  | .tick => ∃ m', mp1RtcTasklet s.memory = some m' ∧
      m'.vmem = drawAll s.list s.memory.vmem ∧ Represents m' (s.list.map Record.tick)
  | .ioctl request => Fish.Conforms s.memory s.list request

/-- The next event adds no record at location 0 for which there is room. -/
def Suits (s : Lockstep) : Event → Prop
  | .ioctl (.add user) => user.location = 0 → s.list.length = poolSize
  | _ => True

variable {s : Lockstep} {event : Event}

theorem conforms_iff (h : Represents s.memory s.list) : s.Conforms event ↔ s.Suits event := by
  obtain ⟨xs, hholds, hlist⟩ := h
  cases event with
  | tick =>
    obtain ⟨m', htasklet, hholds', hvmem⟩ := mp1RtcTasklet_eq hholds
    refine iff_of_true ⟨m', htasklet, hlist ▸ hvmem, _, hholds', ?_⟩ trivial
    rw [← hlist, List.map_map, List.map_map]
    rfl
  | ioctl request =>
    rw [Conforms, ← hlist]
    cases request with
    | add user =>
      rw [conforms_add_iff hholds, Suits, ← hlist, List.length_map]
    | remove arg => exact iff_of_true (conforms_remove hholds arg) trivial
    | find user => exact iff_of_true (conforms_find hholds user) trivial
    | sync arg => exact iff_of_true (conforms_sync hholds arg) trivial

theorem represents_step (h : s.Conforms event) :
    Represents (s.step event).memory (s.step event).list := by
  cases event with
  | tick =>
    obtain ⟨m', htasklet, -, hrepresents⟩ := h
    rw [step, htasklet]
    exact hrepresents
  | ioctl request =>
    obtain ⟨exit, hexit, -, -, -, hrepresents⟩ := h
    rw [step, hexit]
    exact hrepresents

theorem represents_initial (vmem : BitVec 32 → BitVec 8) :
    Represents (initial vmem).memory (initial vmem).list := by
  refine ⟨[], ⟨rfl, List.nodup_nil, ?_, fun i _ ↦ iff_of_true rfl List.not_mem_nil, ?_, ?_⟩, rfl⟩
  all_goals exact fun _ hmem ↦ absurd hmem List.not_mem_nil

end Lockstep

/-- From the empty list on, all events of a run do what they are to do exactly if no record is added
at location 0 while there is room for it. Memory then holds the list in every state. -/
theorem blinkArray_refines_iff (vmem : BitVec 32 → BitVec 8) (events : List Event) :
    (EveryStep Lockstep.step Lockstep.Conforms (Lockstep.initial vmem) events ↔
        EveryStep Lockstep.step Lockstep.Suits (Lockstep.initial vmem) events) ∧
      (EveryStep Lockstep.step Lockstep.Suits (Lockstep.initial vmem) events →
        EveryState Lockstep.step (fun s ↦ Represents s.memory s.list) (Lockstep.initial vmem)
          events) := by
  have hkeep : ∀ (s : Lockstep) (event : Event), Represents s.memory s.list →
      s.Conforms event → Represents (s.step event).memory (s.step event).list :=
    fun _ _ _ hconforms ↦ Lockstep.represents_step hconforms
  have hagree : ∀ (s : Lockstep) (event : Event), Represents s.memory s.list → True →
      (s.Conforms event ↔ s.Suits event) :=
    fun _ _ hrepresents _ ↦ Lockstep.conforms_iff hrepresents
  have hstart := Lockstep.represents_initial vmem
  have hiff := everyStep_congr_of_keep hagree hkeep hstart (everyStep_true _ events)
  exact ⟨hiff, fun hsuits ↦ everyState_of_everyStep hkeep hstart (hiff.mpr hsuits)⟩

end Sp18.Fish
