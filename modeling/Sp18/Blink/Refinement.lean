import Sp18.Blink.Commands
import Sp18.Foundation.StepSystem

/-!
# The blink list refines a list of records

The commands of mp1 beside the list of records that they are to implement. `Suits` is the condition
under which a command does what it is to do, in terms of the list before it and of the registers
that the caller leaves, and `conforms_iff` says so for one command. `blinkList_refines_iff` says it
for runs.
-/

set_option autoImplicit false
set_option relaxedAutoImplicit false

namespace Sp18.Blink

open Foundation

/-- When a command does what it is to do. No search may find the location in `%di` at the head of
the list, and the list may not be empty. A node that is removed has to be the head. A record that is
sought may not be there, nor one with the location in `%ax`, which is what is sought instead. -/
def Suits (xs : Records) (command : Command) (call : Call) : Prop :=
  match command with
  | .add => True
  | .remove =>
    xs ≠ [] ∧ (firstAt xs (lowLocation call) = none ∨
      headLocation xs = some (lowLocation call) ∧ headLocation xs ≠ some (low call.edi))
  | .find =>
    xs ≠ [] ∧ firstAt xs call.user.location = none ∧ headLocation xs ≠ some (low call.arg) ∧
      firstAt xs (low call.eax) = none
  | .sync => xs ≠ [] ∧ headLocation xs ≠ some (low call.edi)

instance (xs : Records) (command : Command) (call : Call) : Decidable (Suits xs command call) :=
  match command with
  | .add => inferInstanceAs (Decidable True)
  | .remove =>
    inferInstanceAs (Decidable (xs ≠ [] ∧ (firstAt xs (lowLocation call) = none ∨
      headLocation xs = some (lowLocation call) ∧ headLocation xs ≠ some (low call.edi))))
  | .find =>
    inferInstanceAs (Decidable (xs ≠ [] ∧ firstAt xs call.user.location = none ∧
      headLocation xs ≠ some (low call.arg) ∧ firstAt xs (low call.eax) = none))
  | .sync => inferInstanceAs (Decidable (xs ≠ [] ∧ headLocation xs ≠ some (low call.edi)))

/-- What the environment promises: additions as in `Addable`, and a record of the user for a
search. -/
def Allowed (m : Memory) (command : Command) (call : Call) : Prop :=
  match command with
  | .add => Addable m call
  | .find => call.arg ≠ 0
  | _ => True

variable {m : Memory} {xs : Records} {call : Call}

theorem headLocation_cons (first : Entry (BitVec 32) Record) (rest : Records) :
    headLocation (first :: rest) = some first.value.location := rfl

theorem conforms_remove_iff (h : Holds m xs) :
    Conforms m xs .remove call ↔ Suits xs .remove call := by
  cases xs with
  | nil =>
    refine iff_of_false (not_conforms_of_none ?_) fun hsuits ↦ hsuits.1 rfl
    simp only [mp1Ioctl, mp1IoctlRemove, traverse_nil h, Option.bind_eq_bind, Option.bind_none]
  | cons first rest =>
    rw [Suits, headLocation_cons, and_iff_right (List.cons_ne_nil first rest)]
    by_cases hdi : first.value.location = low call.edi
    · rw [conforms_negone_iff h ?_ (remove_head_di h hdi), spec_remove_failed_iff, hdi]
      · exact (or_iff_left fun hhead ↦ hhead.2 rfl).symm
      · rfl
    have hhead : some first.value.location ≠ some (low call.edi) :=
      fun heq ↦ hdi (Option.some.inj heq)
    rw [and_iff_left hhead, Option.some_inj]
    cases hsome : firstAt (first :: rest) (lowLocation call) with
    | none =>
      rw [conforms_negone_iff h ?_ (remove_absent h hdi hsome), spec_remove_failed_iff]
      · exact iff_of_true hsome (Or.inl rfl)
      · rfl
    | some entry =>
      rw [or_iff_right (Option.some_ne_none entry)]
      by_cases hfirst : first.value.location = lowLocation call
      · exact iff_of_true (remove_head h hdi hfirst) hfirst
      · exact iff_of_false (remove_later h hdi hfirst hsome) hfirst

theorem conforms_find_iff (h : Holds m xs) (harg : call.arg ≠ 0) :
    Conforms m xs .find call ↔ Suits xs .find call := by
  cases xs with
  | nil =>
    have harg' : ¬call.entered.arg = 0 := harg
    refine iff_of_false (not_conforms_of_none ?_) fun hsuits ↦ hsuits.1 rfl
    simp only [mp1Ioctl, mp1IoctlFind, if_neg harg', traverse_nil h, Option.bind_eq_bind,
      Option.bind_none]
  | cons first rest =>
    rw [Suits, headLocation_cons, and_iff_right (List.cons_ne_nil first rest)]
    by_cases hdi : first.value.location = low call.arg
    · refine iff_of_false (find_found harg (traverse_head h hdi) (by decide)) fun hsuits ↦ ?_
      exact hsuits.2.1 (congrArg some hdi)
    have hhead : some first.value.location ≠ some (low call.arg) :=
      fun heq ↦ hdi (Option.some.inj heq)
    rw [and_iff_right hhead]
    obtain ⟨ebx, htraverse⟩ := traverse_search h hdi call.eax
    cases hsome : firstAt (first :: rest) (low call.eax) with
    | none =>
      rw [addrAt_of_none hsome] at htraverse
      rw [find_nothing h harg htraverse]
      exact (and_iff_left rfl).symm
    | some entry =>
      rw [addrAt_of_some hsome] at htraverse
      refine iff_of_false (find_found harg htraverse (h.ne_zero (firstAt_some hsome).1)) ?_
      exact fun hsuits ↦ Option.some_ne_none entry hsuits.2

theorem conforms_sync_iff (h : Holds m xs) : Conforms m xs .sync call ↔ Suits xs .sync call := by
  cases xs with
  | nil =>
    refine iff_of_false (not_conforms_of_none ?_) fun hsuits ↦ hsuits.1 rfl
    simp only [mp1Ioctl, mp1IoctlSync, traverse_nil h, Option.bind_eq_bind, Option.bind_none]
  | cons first rest =>
    rw [Suits, headLocation_cons, and_iff_right (List.cons_ne_nil first rest)]
    by_cases hdi : first.value.location = low call.edi
    · refine iff_of_false (not_conforms_of_none (sync_head_di h hdi)) fun hsuits ↦ ?_
      exact hsuits (congrArg some hdi)
    · exact iff_of_true (sync_conforms h hdi) fun heq ↦ hdi (Option.some.inj heq)

/-- From a memory that holds a list, a command does what it is to do with the list exactly if it
suits. -/
theorem conforms_iff (h : Holds m xs) {command : Command} (hallowed : Allowed m command call) :
    Conforms m xs command call ↔ Suits xs command call := by
  cases command with
  | add => exact iff_of_true (add_meets h hallowed) trivial
  | remove => exact conforms_remove_iff h
  | find => exact conforms_find_iff h hallowed
  | sync => exact conforms_sync_iff h

/-- Memory beside the list of records that it is to hold. -/
structure Lockstep where
  memory : Memory
  list : Records

/-- Both before the first ioctl. -/
def Lockstep.initial (vmem : BitVec 32 → BitVec 8) : Lockstep :=
  { memory := Memory.initial vmem, list := [] }

/-- A command on both. A command that does not end leaves memory as it was. -/
def Lockstep.step (s : Lockstep) (event : Command × Call) : Lockstep :=
  { memory :=
      match mp1Ioctl s.memory event.1 event.2 with
      | none => s.memory
      | some exit => exit.memory
    list := (spec s.list event.1 event.2).list }

theorem holds_initial (vmem : BitVec 32 → BitVec 8) : Holds (Memory.initial vmem) [] :=
  ⟨rfl, List.nodup_nil, fun _ ↦ iff_of_false Bool.false_ne_true (List.not_mem_nil),
    Nat.zero_le _, rfl, rfl⟩

theorem holds_step {s : Lockstep} {event : Command × Call}
    (h : Conforms s.memory s.list event.1 event.2) :
    Holds (s.step event).memory (s.step event).list := by
  obtain ⟨exit, hexit, hmeets⟩ := h
  simp only [Lockstep.step, hexit]
  exact hmeets.list

/-- The environment keeps its promises. -/
def Lockstep.Allowed (s : Lockstep) (event : Command × Call) : Prop :=
  Blink.Allowed s.memory event.1 event.2

/-- The next command does what it is to do. -/
def Lockstep.Conforms (s : Lockstep) (event : Command × Call) : Prop :=
  Blink.Conforms s.memory s.list event.1 event.2

/-- The next command suits. -/
def Lockstep.Suits (s : Lockstep) (event : Command × Call) : Prop :=
  Blink.Suits s.list event.1 event.2

instance (s : Lockstep) (event : Command × Call) : Decidable (s.Suits event) :=
  inferInstanceAs (Decidable (Blink.Suits s.list event.1 event.2))

/-- As long as the environment keeps its promises, all commands of a run do what they are to do with
the list of records exactly if they all suit. Then memory holds the list in every state, and the
nodes that are linked are those that are allocated. -/
theorem blinkList_refines_iff (vmem : BitVec 32 → BitVec 8) (events : List (Command × Call))
    (hallowed : EveryStep Lockstep.step Lockstep.Allowed (Lockstep.initial vmem) events) :
    (EveryStep Lockstep.step Lockstep.Conforms (Lockstep.initial vmem) events ↔
        EveryStep Lockstep.step Lockstep.Suits (Lockstep.initial vmem) events) ∧
      (EveryStep Lockstep.step Lockstep.Suits (Lockstep.initial vmem) events →
        EveryState Lockstep.step (fun s ↦ Holds s.memory s.list) (Lockstep.initial vmem)
          events) := by
  have hkeep : ∀ (s : Lockstep) (event : Command × Call), Holds s.memory s.list →
      s.Conforms event → Holds (s.step event).memory (s.step event).list :=
    fun _ _ _ hconforms ↦ holds_step hconforms
  have hagree : ∀ (s : Lockstep) (event : Command × Call), Holds s.memory s.list →
      s.Allowed event → (s.Conforms event ↔ s.Suits event) :=
    fun _ _ hholds hallowed ↦ conforms_iff hholds hallowed
  have hstart : Holds (Lockstep.initial vmem).memory (Lockstep.initial vmem).list :=
    holds_initial vmem
  have hiff : EveryStep Lockstep.step Lockstep.Conforms (Lockstep.initial vmem) events ↔
      EveryStep Lockstep.step Lockstep.Suits (Lockstep.initial vmem) events :=
    everyStep_congr_of_keep hagree hkeep hstart hallowed
  exact ⟨hiff, fun hsuits ↦ everyState_of_everyStep hkeep hstart (hiff.mpr hsuits)⟩

/-- A call with an argument, where the caller leaves zero in all registers. -/
def plainCall (arg : BitVec 32) (location : BitVec 16) (malloc : BitVec 32) : Call :=
  { eax := 0
    ebx := 0
    esi := 0
    edi := 0
    ebp := 0
    esp := 0
    address := 0xC0100000
    arg := arg
    under := []
    user :=
      { location := location
        onChar := 0x49
        offChar := 0x4D
        onLength := 7
        offLength := 6
        countdown := 0
        status := 0
        next := 0 }
    malloc := malloc
    notCopied := 0
    edx := 0 }

/-- Blinking characters at 5 and at 7, and the removal of the one at 5. -/
def removeLater : List (Command × Call) :=
  [(.add, plainCall 0xBF000000 5 0x100), (.add, plainCall 0xBF000000 7 0x200),
    (.remove, plainCall 5 0 0)]

theorem removeLater_allowed :
    EveryStep Lockstep.step Lockstep.Allowed (Lockstep.initial fun _ ↦ 0) removeLater := by
  refine ⟨⟨by decide, by decide, rfl, rfl, by decide⟩, ⟨by decide, by decide, rfl, rfl, by decide⟩,
    trivial, trivial⟩

/-- The node at 5 is freed, and the node at 7 still links to it. -/
theorem blinkList_not_always :
    EveryStep Lockstep.step Lockstep.Allowed (Lockstep.initial fun _ ↦ 0) removeLater ∧
      ¬EveryStep Lockstep.step Lockstep.Conforms (Lockstep.initial fun _ ↦ 0) removeLater ∧
      let m := (run Lockstep.step (Lockstep.initial fun _ ↦ 0) removeLater).memory
      m.listHead = 0x200 ∧ (m.node 0x200).map Node.next = some 0x100 ∧ m.live 0x100 = false := by
  refine ⟨removeLater_allowed, ?_, by decide +kernel⟩
  rintro ⟨-, hsecond, hthird, -⟩
  have hholds := holds_step hsecond
  have hsuits := (conforms_remove_iff hholds).mp hthird
  revert hsuits
  decide +kernel

/-- Blinking characters at 5 and at 7: the one at 5 gets the values of the one at 7, a search for
one at 9 finds nothing, and the one at 7 is removed. -/
theorem blinkList_refines_removeHead :
    EveryStep Lockstep.step Lockstep.Conforms (Lockstep.initial fun _ ↦ 0)
      [(.add, plainCall 0xBF000000 5 0x100), (.add, plainCall 0xBF000000 7 0x200),
        (.sync, plainCall 0x00070005 0 0), (.find, plainCall 0xBF000000 9 0),
        (.remove, plainCall 7 0 0)] := by
  refine (blinkList_refines_iff (fun _ ↦ 0) _ ?_).1.mpr (by decide +kernel)
  refine ⟨⟨by decide, by decide, rfl, rfl, by decide⟩, ⟨by decide, by decide, rfl, rfl, by decide⟩,
    trivial, ?_, trivial, trivial⟩
  change (0xBF000000 : BitVec 32) ≠ 0
  decide

end Sp18.Blink
