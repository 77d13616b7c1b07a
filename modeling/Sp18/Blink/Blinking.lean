import Mathlib.Dynamics.PeriodicPts.Defs
import Sp18.Blink.Refinement
import Sp18.Blink.Tasklet

/-!
# How long a character blinks

The tasklet counts down in sixteen bits and compares the result as a signed number. Lengths up to
0x8000 are counted in full, and a longer one ends with the first tick. `iterate_tick_shown_iff` says
for one record when its character is on for its one length and off for its other, again and again.

`tasklet_blinks_iff` says it for runs, in which the ticks come between commands that do not concern
the node. The node keeps its place in the list and its cell of the video memory, whatever the other
nodes do (`Tracks`).
-/

set_option autoImplicit false
set_option relaxedAutoImplicit false

namespace Sp18.Blink

open Foundation

section Countdown

variable {r : Record}

theorem toNat_one : (1 : BitVec 16).toNat = 1 := rfl

theorem Record.due_iff : r.Due ↔ r.countdown.toNat ≤ 1 ∨ 0x8000 < r.countdown.toNat := by
  have hlt := r.countdown.isLt
  have hzero : (0 : BitVec 16).toInt = 0 := rfl
  rw [Due, BitVec.slt_eq_decide, decide_eq_false_iff_not, hzero, BitVec.toInt_eq_toNat_cond,
    BitVec.toNat_sub, toNat_one]
  split_ifs <;> omega

/-- The countdown goes on. -/
theorem iterate_tick_of_lt (hle : r.countdown.toNat ≤ 0x8000) {k : ℕ} (hk : k < r.countdown.toNat) :
    Record.tick^[k] r = { r with countdown := r.countdown - BitVec.ofNat 16 k } := by
  induction k with
  | zero => rw [Function.iterate_zero_apply, BitVec.sub_zero]
  | succ k ih =>
    rw [Function.iterate_succ_apply', ih (Nat.lt_of_succ_lt hk), Record.tick_of_not_due]
    · have hcountdown : r.countdown - BitVec.ofNat 16 k - 1 =
          r.countdown - BitVec.ofNat 16 (k + 1) := by
        apply BitVec.eq_of_toNat_eq
        simp only [BitVec.toNat_sub, BitVec.toNat_ofNat, toNat_one]
        omega
      simp only [hcountdown]
    · rw [Record.due_iff]
      simp only [BitVec.toNat_sub, BitVec.toNat_ofNat]
      omega

theorem iterate_tick_shown (hle : r.countdown.toNat ≤ 0x8000) {k : ℕ} (hk : k < r.countdown.toNat) :
    (Record.tick^[k] r).shown = r.shown := by
  rw [iterate_tick_of_lt hle hk]
  rfl

/-- The countdown ends. -/
theorem iterate_tick_countdown (hpos : 0 < r.countdown.toNat) (hle : r.countdown.toNat ≤ 0x8000) :
    Record.tick^[r.countdown.toNat] r = r.toggled := by
  obtain ⟨k, hk⟩ := Nat.exists_eq_succ_of_ne_zero (Nat.ne_of_gt hpos)
  rw [hk, Function.iterate_succ_apply', iterate_tick_of_lt hle (by omega), Record.tick_of_due]
  · rfl
  · rw [Record.due_iff]
    simp only [BitVec.toNat_sub, BitVec.toNat_ofNat]
    omega

end Countdown

section Law

/-- What is to be shown `t` ticks after a record has been added. -/
def lit (r : Record) (t : ℕ) : BitVec 8 :=
  if t % (r.onLength.toNat + r.offLength.toNat) < r.onLength.toNat then r.onChar else r.offChar

/-- A record whose character has just gone off. -/
def dark (r : Record) : Record := { r with countdown := r.offLength, status := 0 }

variable {r : Record}

theorem status_ne_zero : ¬(1 : BitVec 16) = 0 := by decide

theorem toggled_started (r : Record) : (started r).toggled = dark r := if_neg status_ne_zero

theorem toggled_dark (r : Record) : (dark r).toggled = started r := if_pos rfl

theorem shown_started (r : Record) : (started r).shown = r.onChar := if_neg status_ne_zero

theorem shown_dark (r : Record) : (dark r).shown = r.offChar := if_pos rfl

/-- A length that is counted in full. -/
def Counted (length : BitVec 16) : Prop := length.toNat ≤ 0x8000

instance (length : BitVec 16) : Decidable (Counted length) :=
  inferInstanceAs (Decidable (length.toNat ≤ 0x8000))

theorem iterate_tick_started (hpos : 0 < r.onLength.toNat) (hon : Counted r.onLength) :
    Record.tick^[r.onLength.toNat] (started r) = dark r := by
  rw [← toggled_started]
  exact iterate_tick_countdown (r := started r) hpos hon

theorem iterate_tick_dark (hpos : 0 < r.offLength.toNat) (hoff : Counted r.offLength) :
    Record.tick^[r.offLength.toNat] (dark r) = started r := by
  rw [← toggled_dark]
  exact iterate_tick_countdown (r := dark r) hpos hoff

/-- Where both lengths are counted in full, the record blinks as it is to. -/
theorem iterate_tick_shown_of_counted (hpos : 0 < r.onLength.toNat) (hpos' : 0 < r.offLength.toNat)
    (hon : Counted r.onLength) (hoff : Counted r.offLength) (t : ℕ) :
    (Record.tick^[t] (started r)).shown = lit r t := by
  have hperiod : Function.IsPeriodicPt Record.tick (r.onLength.toNat + r.offLength.toNat)
      (started r) := by
    rw [Function.IsPeriodicPt, Function.IsFixedPt, Nat.add_comm, Function.iterate_add_apply,
      iterate_tick_started hpos hon, iterate_tick_dark hpos' hoff]
  rw [← hperiod.iterate_mod_apply, lit]
  have hlt : t % (r.onLength.toNat + r.offLength.toNat) <
      r.onLength.toNat + r.offLength.toNat := Nat.mod_lt _ (Nat.add_pos_left hpos _)
  generalize t % (r.onLength.toNat + r.offLength.toNat) = k at hlt ⊢
  split_ifs with hk
  · rw [iterate_tick_shown (r := started r) hon hk, shown_started]
  · obtain ⟨j, rfl⟩ := Nat.exists_eq_add_of_le' (Nat.le_of_not_lt hk)
    have hj : j < (dark r).countdown.toNat := Nat.lt_of_add_lt_add_left (Nat.add_comm _ _ ▸ hlt)
    rw [Function.iterate_add_apply, iterate_tick_started hpos hon,
      iterate_tick_shown (r := dark r) hoff hj, shown_dark]

/-- The characters of a record do not change. -/
theorem iterate_tick_chars (r : Record) (t : ℕ) :
    (Record.tick^[t] r).onChar = r.onChar ∧ (Record.tick^[t] r).offChar = r.offChar := by
  induction t with
  | zero => exact ⟨rfl, rfl⟩
  | succ t ih =>
    have htick : ∀ r : Record, r.tick.onChar = r.onChar ∧ r.tick.offChar = r.offChar := by
      intro r
      rw [Record.tick, Record.toggled]
      split_ifs
      all_goals exact ⟨rfl, rfl⟩
    rw [Function.iterate_succ_apply']
    exact ⟨(htick _).1.trans ih.1, (htick _).2.trans ih.2⟩

/-- A record blinks as it is to exactly if both lengths are counted in full, or if no one can see
it. -/
theorem iterate_tick_shown_iff (hpos : 0 < r.onLength.toNat) (hpos' : 0 < r.offLength.toNat) :
    (∀ t, (Record.tick^[t] (started r)).shown = lit r t) ↔
      r.onChar = r.offChar ∨ Counted r.onLength ∧ Counted r.offLength := by
  constructor
  · intro hlaw
    by_cases hchar : r.onChar = r.offChar
    · exact Or.inl hchar
    have hon : Counted r.onLength := by
      by_contra hlong
      have hlong : 0x8000 < r.onLength.toNat := Nat.lt_of_not_le hlong
      have hdue : (started r).Due := Record.due_iff.mpr (Or.inr hlong)
      have hshown : (started r).tick.shown = lit r 1 := hlaw 1
      rw [Record.tick_of_due hdue, toggled_started, shown_dark, lit,
        Nat.mod_eq_of_lt (by omega), if_pos (by omega)] at hshown
      exact hchar hshown.symm
    refine Or.inr ⟨hon, ?_⟩
    by_contra hlong
    have hlong : 0x8000 < r.offLength.toNat := Nat.lt_of_not_le hlong
    have hdue : (dark r).Due := Record.due_iff.mpr (Or.inr hlong)
    have hshown := hlaw (r.onLength.toNat + 1)
    rw [Function.iterate_succ_apply', iterate_tick_started hpos hon, Record.tick_of_due hdue,
      toggled_dark, shown_started, lit, Nat.mod_eq_of_lt (by omega), if_neg (by omega)] at hshown
    exact hchar hshown
  · rintro (hchar | ⟨hon, hoff⟩) t
    · obtain ⟨hon, hoff⟩ := iterate_tick_chars (started r) t
      have hon : (Record.tick^[t] (started r)).onChar = r.onChar := hon
      have hoff : (Record.tick^[t] (started r)).offChar = r.offChar := hoff
      rw [Record.shown, lit, hon, hoff, hchar, ite_self, ite_self]
    · exact iterate_tick_shown_of_counted hpos hpos' hon hoff t

end Law

section Commands

/-- The location whose node a command adds, removes or synchronizes. -/
def subject (command : Command) (call : Call) : Option (BitVec 16) :=
  match command with
  | .add => some call.user.location
  | .remove => some (lowLocation call)
  | .find => none
  | .sync => some (lowLocation call)

variable {m : Memory} {xs : Records} {call : Call} {exit : Exit} {a : BitVec 32}

theorem poke_vmem_of_ne {location : BitVec 16} (cl : BitVec 8) (h : a ≠ cellOf location) :
    (m.poke location cl).vmem a = m.vmem a := Function.update_of_ne h _ _

theorem add_vmem (hexit : mp1Ioctl m .add call = some exit) (ha : a ≠ cellOf call.user.location) :
    exit.memory.vmem a = m.vmem a := by
  have hmalloc : (m.malloc call.malloc).vmem = m.vmem := by
    rw [Memory.malloc]
    split_ifs
    · rfl
    · rfl
  simp only [mp1Ioctl, mp1IoctlAdd, Memory.node_store_self, Option.bind_eq_bind,
    Option.bind_some] at hexit
  split_ifs at hexit
  all_goals
    cases hexit
    first
    | exact congrFun hmalloc a
    | exact (poke_vmem_of_ne _ ha).trans (congrFun hmalloc a)
    | rfl

theorem add_vmem_self (hexit : mp1Ioctl m .add call = some exit) (heax : exit.eax = 0) :
    exit.memory.vmem (cellOf call.user.location) = call.user.onChar := by
  have hnegone : ¬(-1 : BitVec 32) = 0 := by decide
  simp only [mp1Ioctl, mp1IoctlAdd, Memory.node_store_self, Option.bind_eq_bind,
    Option.bind_some] at hexit
  split_ifs at hexit
  all_goals
    cases hexit
    first
    | exact absurd heax hnegone
    | exact Function.update_self _ _ _

theorem remove_vmem (hexit : mp1Ioctl m .remove call = some exit) : exit.memory.vmem = m.vmem := by
  simp only [mp1Ioctl, mp1IoctlRemove, Option.bind_eq_bind] at hexit
  obtain ⟨found, -, hexit⟩ := Option.bind_eq_some_iff.mp hexit
  split_ifs at hexit with hnone hhead
  · cases hexit
    rfl
  · obtain ⟨node, -, hexit⟩ := Option.bind_eq_some_iff.mp hexit
    cases hexit
    rfl
  · obtain ⟨edx, -, hexit⟩ := Option.bind_eq_some_iff.mp hexit
    split_ifs at hexit
    · cases hexit
      rfl
    · obtain ⟨node, -, hexit⟩ := Option.bind_eq_some_iff.mp hexit
      obtain ⟨node', -, hexit⟩ := Option.bind_eq_some_iff.mp hexit
      cases hexit
      rfl

theorem find_vmem (h : Holds m xs) (hsuits : Suits xs .find call)
    (hexit : mp1Ioctl m .find call = some exit) : exit.memory.vmem = m.vmem := by
  obtain ⟨hne, -, hhead, hnone⟩ := hsuits
  obtain ⟨first, rest, rfl⟩ := List.exists_cons_of_ne_nil hne
  have hdi : first.value.location ≠ low call.entered.arg := fun heq ↦ hhead (congrArg some heq)
  obtain ⟨ebx, htraverse⟩ := traverse_search h hdi call.eax
  rw [addrAt_of_none hnone] at htraverse
  simp only [mp1Ioctl, mp1IoctlFind, htraverse, Option.bind_eq_bind, Option.bind_some,
    if_true] at hexit
  split_ifs at hexit
  · cases hexit
    rfl
  · cases hexit
    rfl

/-- A search ends at a node of the list with the location. -/
theorem entry_of_addrAt (h : Holds m xs) {location : BitVec 16} (hne : ¬addrAt xs location = 0)
    {node : Node} (hnode : m.node (addrAt xs location) = some node) :
    ∃ entry ∈ xs, entry.value.location = location ∧ node.toRecord = entry.value := by
  cases hfirst : firstAt xs location with
  | none => exact absurd (addrAt_of_none hfirst) hne
  | some entry =>
    obtain ⟨hmem, hlocation⟩ := firstAt_some hfirst
    obtain ⟨found, hfound, hvalue, -⟩ := h.list.cell_of_mem hmem
    rw [addrAt_of_some hfirst, hfound] at hnode
    obtain rfl : found = node := Option.some.inj hnode
    exact ⟨entry, hmem, hlocation, hvalue⟩

theorem sync_vmem (h : Holds m xs) (hbounded : ∀ entry ∈ xs, entry.value.location ≤ 1999)
    (hsuits : Suits xs .sync call) (hexit : mp1Ioctl m .sync call = some exit)
    (ha : lowLocation call ≤ 1999 → a ≠ cellOf (lowLocation call)) :
    exit.memory.vmem a = m.vmem a := by
  obtain ⟨hne, hhead⟩ := hsuits
  obtain ⟨first, rest, rfl⟩ := List.exists_cons_of_ne_nil hne
  have hdi : first.value.location ≠ low call.edi := fun heq ↦ hhead (congrArg some heq)
  obtain ⟨⟨ebx, hlow⟩, ⟨ebx', hhigh⟩⟩ := sync_searches h hdi
  simp only [mp1Ioctl, mp1IoctlSync, entered_eq, Stack.top_push, hlow, hhigh, Option.bind_eq_bind,
    Option.bind_some, Stack.drop_push] at hexit
  split_ifs at hexit with htarget hsource
  · cases hexit
    rfl
  · cases hexit
    rfl
  obtain ⟨source, hnode', hexit⟩ := Option.bind_eq_some_iff.mp hexit
  obtain ⟨target, hnode, hexit⟩ := Option.bind_eq_some_iff.mp hexit
  cases hexit
  obtain ⟨entry, hmem, hlocation, hvalue⟩ := entry_of_addrAt h htarget hnode
  have hle : lowLocation call ≤ 1999 := hlocation ▸ hbounded entry hmem
  have hlocation' : target.location = lowLocation call :=
    (congrArg Record.location hvalue).trans hlocation
  refine poke_vmem_of_ne (m := m.store _ _) _ ?_
  exact hlocation' ▸ ha hle

/-- A command that suits writes at most the cell of its subject. -/
theorem vmem_of_suits (h : Holds m xs) (hbounded : ∀ entry ∈ xs, entry.value.location ≤ 1999)
    {command : Command} (hallowed : Allowed m command call) (hsuits : Suits xs command call)
    (hexit : mp1Ioctl m command call = some exit)
    (ha : ∀ location ∈ subject command call, location ≤ 1999 → a ≠ cellOf location) :
    exit.memory.vmem a = m.vmem a := by
  cases command with
  | add => exact add_vmem hexit (ha _ rfl hallowed.location)
  | remove => exact congrFun (remove_vmem hexit) a
  | find => exact congrFun (find_vmem h hsuits hexit) a
  | sync => exact sync_vmem h hbounded hsuits hexit (ha _ rfl)

variable {command : Command} {location : BitVec 16}

/-- What a command does to the entries that it does not concern: nothing. -/
theorem mem_spec_list (hnodup : (xs.map Entry.addr).Nodup)
    (hother : location ∉ subject command call) {entry : Entry (BitVec 32) Record}
    (hlocation : entry.value.location = location) :
    entry ∈ (spec xs command call).list ↔ entry ∈ xs := by
  have hne : ∀ location', subject command call = some location' →
      entry.value.location ≠ location' := by
    rintro location' hsubject rfl
    exact hother (hlocation ▸ hsubject)
  cases command with
  | add =>
    refine List.mem_cons.trans (or_iff_right ?_)
    rintro rfl
    exact hne _ rfl rfl
  | remove =>
    have hkeep : ¬(entry.value.location == lowLocation call) = true :=
      fun heq ↦ hne _ rfl (beq_iff_eq.mp heq)
    rw [spec]
    split
    · exact Iff.rfl
    · exact List.mem_eraseP_of_neg hkeep
  | find =>
    rw [spec]
    split
    · exact Iff.rfl
    · exact Iff.rfl
  | sync =>
    rw [spec]
    split
    next target source htarget hsource =>
      obtain ⟨hmem, hlow⟩ := firstAt_some htarget
      have hlocation' : entry.value.location ≠ target.value.location :=
        fun heq ↦ hne _ rfl (heq.trans hlow)
      rw [mem_setValue]
      constructor
      · rintro (⟨hentry, -⟩ | ⟨rfl, -⟩)
        · exact hentry
        · exact absurd rfl hlocation'
      · intro hentry
        refine Or.inl ⟨hentry, fun haddr ↦ hlocation' ?_⟩
        rw [List.inj_on_of_nodup_map hnodup hentry hmem haddr]
    next => exact Iff.rfl

end Commands

section Drawing

theorem cellOf_injOn {location location' : BitVec 16} (h : location ≤ 1999) (h' : location' ≤ 1999)
    (heq : cellOf location = cellOf location') : location = location' := by
  have hle : location.toNat ≤ 1999 := BitVec.le_def.mp h
  have hle' : location'.toNat ≤ 1999 := BitVec.le_def.mp h'
  have htwo : (2 : BitVec 16).toNat = 2 := rfl
  have hcell := congrArg BitVec.toNat heq
  simp only [cellOf, BitVec.toNat_setWidth, BitVec.toNat_mul, htwo] at hcell
  apply BitVec.eq_of_toNat_eq
  omega

variable {xs : Records} {vmem : BitVec 32 → BitVec 8} {r : Record}

theorem Record.draw_self (h : vmem (cellOf r.location) = r.shown ∨
    vmem (cellOf r.location) = r.tick.shown) : r.draw vmem (cellOf r.location) = r.tick.shown := by
  rw [draw]
  split_ifs with hdue
  · exact Function.update_self _ _ _
  · rcases h with h | h
    · rw [h, tick_of_not_due hdue]
      rfl
    · exact h

theorem Record.draw_of_ne {location : BitVec 16} (h : cellOf location ≠ cellOf r.location) :
    r.draw vmem (cellOf location) = vmem (cellOf location) := by
  rw [draw]
  split_ifs
  · exact Function.update_of_ne h _ _
  · rfl

/-- The cell of a record after the tick has drawn the list: what the other records draw is
elsewhere. -/
theorem foldl_draw (hbounded : ∀ entry ∈ xs, entry.value.location ≤ 1999) (hr : r.location ≤ 1999)
    (honly : ∀ entry ∈ xs, entry.value.location = r.location → entry.value = r)
    (h : vmem (cellOf r.location) = r.shown ∧ (∃ entry ∈ xs, entry.value = r) ∨
      vmem (cellOf r.location) = r.tick.shown) :
    xs.foldl (fun vmem entry ↦ entry.value.draw vmem) vmem (cellOf r.location) = r.tick.shown := by
  induction xs generalizing vmem with
  | nil =>
    rcases h with ⟨-, entry, hmem, -⟩ | h
    · cases hmem
    · exact h
  | cons first rest ih =>
    rw [List.foldl_cons]
    refine ih (fun entry hmem ↦ hbounded entry (List.mem_cons_of_mem _ hmem))
      (fun entry hmem ↦ honly entry (List.mem_cons_of_mem _ hmem)) ?_
    by_cases hfirst : first.value = r
    · refine Or.inr ?_
      rw [hfirst]
      exact r.draw_self (h.imp_left And.left)
    · have hne : cellOf r.location ≠ cellOf first.value.location := by
        intro heq
        have hlocation := cellOf_injOn hr (hbounded first List.mem_cons_self) heq
        exact hfirst (honly first List.mem_cons_self hlocation.symm)
      rw [Record.draw_of_ne hne]
      refine h.imp_left fun ⟨hshown, entry, hmem, hentry⟩ ↦ ⟨hshown, entry, ?_, hentry⟩
      rcases List.mem_cons.mp hmem with rfl | hmem
      · exact absurd hentry hfirst
      · exact hmem

end Drawing

section Runs

/-- A tick of the clock, or a command. -/
inductive Event where
  | tick
  | command (command : Command) (call : Call)

/-- An event on memory and on the list of records. -/
def Lockstep.advance (s : Lockstep) : Event → Lockstep
  | .tick =>
    { memory := ((mp1RtcTasklet s.memory).map Prod.fst).getD s.memory
      list := s.list.map tickEntry }
  | .command command call => s.step (command, call)

/-- An event in which a command does what it is to do. -/
def Lockstep.Proper (s : Lockstep) : Event → Prop
  | .tick => True
  | .command command call => s.Allowed (command, call) ∧ s.Suits (command, call)

/-- An event that does not concern the node at a location, unless it is a tick. -/
def Undisturbed (location : BitVec 16) (s : Lockstep) : Event → Prop
  | .tick => True
  | .command command call =>
    s.Proper (.command command call) ∧ location ∉ subject command call

/-- The number of ticks. -/
def ticks : List Event → ℕ
  | [] => 0
  | .tick :: rest => ticks rest + 1
  | .command _ _ :: rest => ticks rest

/-- Memory holds the list, and all records are on the screen. -/
structure Lockstep.OnScreen (s : Lockstep) : Prop where
  holds : Holds s.memory s.list
  bounded : ∀ entry ∈ s.list, entry.value.location ≤ 1999

/-- The one record at a location is this one, and its character is in video memory. -/
structure Tracks (location : BitVec 16) (r : Record) (s : Lockstep) : Prop extends s.OnScreen where
  mem : ∃ entry ∈ s.list, entry.value = r
  located : r.location = location
  only : ∀ entry ∈ s.list, entry.value.location = location → entry.value = r
  shown : s.memory.vmem (cellOf location) = r.shown

variable {s : Lockstep} {call : Call} {location : BitVec 16} {r : Record}

theorem Lockstep.OnScreen.tick (h : s.OnScreen) : (s.advance .tick).OnScreen := by
  obtain ⟨m', htasklet, hholds, -⟩ := mp1RtcTasklet_eq h.holds
  refine ⟨?_, fun entry hmem ↦ ?_⟩
  · rw [advance, htasklet]
    exact hholds
  · obtain ⟨old, hold, rfl⟩ := List.mem_map.mp hmem
    exact (Record.tick_location _).symm ▸ h.bounded old hold

theorem bounded_spec {xs : Records} {m : Memory} {command : Command}
    (h : ∀ entry ∈ xs, entry.value.location ≤ 1999) (hallowed : Allowed m command call) :
    ∀ entry ∈ (spec xs command call).list, entry.value.location ≤ 1999 := by
  cases command with
  | add =>
    intro entry hmem
    rcases List.mem_cons.mp hmem with rfl | hmem
    · exact hallowed.location
    · exact h entry hmem
  | remove =>
    rw [spec]
    split
    · exact h
    · exact fun entry hmem ↦ h entry (List.mem_of_mem_eraseP hmem)
  | find =>
    rw [spec]
    split
    · exact h
    · exact h
  | sync =>
    rw [spec]
    split
    next target source htarget hsource =>
      intro entry hmem
      rcases mem_setValue.mp hmem with ⟨hmem, -⟩ | ⟨rfl, -⟩
      · exact h entry hmem
      · exact h target (firstAt_some htarget).1
    next => exact h

theorem Lockstep.OnScreen.command (h : s.OnScreen) {command : Command}
    (hproper : s.Proper (.command command call)) : (s.advance (.command command call)).OnScreen :=
  ⟨holds_step ((conforms_iff h.holds hproper.1).mpr hproper.2), bounded_spec h.bounded hproper.1⟩

/-- Every list that commands and ticks make is on the screen. -/
theorem onScreen_run (vmem : BitVec 32 → BitVec 8) (events : List Event)
    (hproper : EveryStep Lockstep.advance Lockstep.Proper (Lockstep.initial vmem) events) :
    EveryState Lockstep.advance Lockstep.OnScreen (Lockstep.initial vmem) events := by
  refine everyState_of_everyStep (fun s event h hproper ↦ ?_) ⟨holds_initial vmem, ?_⟩ hproper
  · cases event with
    | tick => exact h.tick
    | command command call => exact h.command hproper
  · exact fun entry hmem ↦ absurd hmem List.not_mem_nil

/-- A tick does to the record what it is to do. -/
theorem Tracks.tick (h : Tracks location r s) : Tracks location r.tick (s.advance .tick) := by
  obtain ⟨m', htasklet, -, hvmem⟩ := mp1RtcTasklet_eq h.holds
  obtain ⟨entry, hmem, hvalue⟩ := h.mem
  have hbounded : r.location ≤ 1999 := hvalue ▸ h.bounded entry hmem
  obtain rfl := h.located
  refine ⟨h.toOnScreen.tick, ⟨tickEntry entry, List.mem_map_of_mem hmem, ?_⟩, r.tick_location, ?_,
    ?_⟩
  · exact congrArg Record.tick hvalue
  · intro ticked hticked hlocation
    obtain ⟨old, hold, rfl⟩ := List.mem_map.mp hticked
    exact congrArg Record.tick (h.only old hold (old.value.tick_location.symm.trans hlocation))
  · have hmemory : (s.advance .tick).memory = m' := by
      rw [Lockstep.advance, htasklet]
      rfl
    rw [hmemory, hvmem]
    exact foldl_draw h.bounded hbounded h.only (Or.inl ⟨h.shown, h.mem⟩)

/-- A command that does not concern the location leaves the record as it is. -/
theorem Tracks.command (h : Tracks location r s) {command : Command}
    (hundisturbed : Undisturbed location s (.command command call)) :
    Tracks location r (s.advance (.command command call)) := by
  obtain ⟨hproper, hother⟩ := hundisturbed
  obtain ⟨entry, hmem, hvalue⟩ := h.mem
  have hlocation : entry.value.location = location := hvalue ▸ h.located
  have honScreen := h.toOnScreen.command hproper
  obtain ⟨exit, hexit, -⟩ := (conforms_iff h.holds hproper.1).mpr hproper.2
  refine ⟨honScreen, ⟨entry, ?_, hvalue⟩, h.located, ?_, ?_⟩
  · exact (mem_spec_list h.holds.nodup hother hlocation).mpr hmem
  · intro later hlater hlocation'
    exact h.only later ((mem_spec_list h.holds.nodup hother hlocation').mp hlater) hlocation'
  · have hmemory : (s.advance (.command command call)).memory = exit.memory := by
      simp only [Lockstep.advance, Lockstep.step, hexit]
    rw [hmemory, ← h.shown]
    refine vmem_of_suits h.holds h.bounded hproper.1 hproper.2 hexit fun other hsubject hle heq ↦ ?_
    have hbounded : location ≤ 1999 := hlocation ▸ h.bounded entry hmem
    rw [cellOf_injOn hbounded hle heq] at hother
    exact hother hsubject

theorem tracks_run {events : List Event} (h : Tracks location r s)
    (hundisturbed : EveryStep Lockstep.advance (Undisturbed location) s events) :
    Tracks location (Record.tick^[ticks events] r) (run Lockstep.advance s events) := by
  induction events generalizing s r with
  | nil => exact h
  | cons event rest ih =>
    cases event with
    | tick => exact ih h.tick hundisturbed.2
    | command command call => exact ih (h.command hundisturbed.1) hundisturbed.2

/-- An added node is on the screen with its first character. -/
theorem tracks_added (h : s.OnScreen) (hadd : Addable s.memory call)
    (hother : ∀ entry ∈ s.list, entry.value.location ≠ call.user.location) :
    Tracks call.user.location (started call.user.toRecord) (s.advance (.command .add call)) := by
  have hproper : s.Proper (.command .add call) := ⟨hadd, trivial⟩
  have honScreen := h.command hproper
  refine ⟨honScreen, ⟨_, List.mem_cons_self, rfl⟩, rfl, ?_, ?_⟩
  · intro entry hmem hlocation
    rcases List.mem_cons.mp hmem with rfl | hmem
    · rfl
    · exact absurd hlocation (hother entry hmem)
  · obtain ⟨exit, hexit, hmeets⟩ := add_meets h.holds hadd
    have hmemory : (s.advance (.command .add call)).memory = exit.memory := by
      simp only [Lockstep.advance, Lockstep.step, hexit]
    rw [hmemory, shown_started]
    exact add_vmem_self hexit hmeets.eax

/-- What is to hold `t` ticks after a record has been added: its location shows what it is to show,
and the next tick visits each node of the list once. -/
structure Blinks (r : Record) (t : ℕ) (s : Lockstep) : Prop where
  shown : s.memory.vmem (cellOf r.location) = lit r t
  visits : ∃ m', mp1RtcTasklet s.memory = some (m', s.list.map Entry.addr) ∧
    (s.list.map Entry.addr).Nodup ∧ Holds m' (s.list.map tickEntry)

theorem Tracks.blinks_iff {t : ℕ} (h : Tracks location (Record.tick^[t] (started r)) s)
    (hlocation : r.location = location) :
    Blinks r t s ↔ (Record.tick^[t] (started r)).shown = lit r t := by
  subst hlocation
  rw [← h.shown]
  refine ⟨Blinks.shown, fun hshown ↦ ⟨hshown, ?_⟩⟩
  obtain ⟨m', htasklet, hholds, -⟩ := mp1RtcTasklet_eq h.holds
  exact ⟨m', htasklet, h.holds.nodup, hholds⟩

theorem ticks_replicate (t : ℕ) : ticks (List.replicate t .tick) = t := by
  induction t with
  | zero => rfl
  | succ t ih => exact congrArg Nat.succ ih

theorem undisturbed_replicate (location : BitVec 16) (s : Lockstep) (t : ℕ) :
    EveryStep Lockstep.advance (Undisturbed location) s (List.replicate t .tick) := by
  induction t generalizing s with
  | zero => trivial
  | succ t ih => exact ⟨trivial, ih _⟩

/-- After a node has been added, where no other node has its location, the location shows the one
character for the one length and the other for the other in all runs of ticks, and of commands that
do not concern it, exactly if both lengths are counted in full or the characters are the same. -/
theorem tasklet_blinks_iff (h : s.OnScreen) (hadd : Addable s.memory call)
    (hother : ∀ entry ∈ s.list, entry.value.location ≠ call.user.location)
    (hon : 0 < call.user.onLength.toNat) (hoff : 0 < call.user.offLength.toNat) :
    (∀ events, EveryStep Lockstep.advance (Undisturbed call.user.location)
          (s.advance (.command .add call)) events →
        Blinks call.user.toRecord (ticks events)
          (run Lockstep.advance (s.advance (.command .add call)) events)) ↔
      call.user.onChar = call.user.offChar ∨
        Counted call.user.onLength ∧ Counted call.user.offLength := by
  have hadded := tracks_added h hadd hother
  refine Iff.trans ?_ (iterate_tick_shown_iff (r := call.user.toRecord) hon hoff)
  constructor
  · intro hblinks t
    have hundisturbed := undisturbed_replicate call.user.location (s.advance (.command .add call)) t
    have htracks := tracks_run hadded hundisturbed
    have hrun := hblinks _ hundisturbed
    rw [ticks_replicate] at htracks hrun
    exact (htracks.blinks_iff rfl).mp hrun
  · intro hlaw events hundisturbed
    exact ((tracks_run hadded hundisturbed).blinks_iff rfl).mpr (hlaw _)

/-- Two records on the screen, one that is on for 7 ticks and off for 6, after 9 ticks. -/
theorem tasklet_blinks_seven :
    Blinks (plainCall 0xBF000000 7 0x200).user.toRecord 9
      (run Lockstep.advance (run Lockstep.advance (Lockstep.initial fun _ ↦ 0)
        [.command .add (plainCall 0xBF000000 5 0x100),
          .command .add (plainCall 0xBF000000 7 0x200)]) (List.replicate 9 .tick)) := by
  have hfive : Addable (Memory.initial fun _ ↦ 0) (plainCall 0xBF000000 5 0x100) :=
    ⟨by decide, by decide, rfl, rfl, by decide⟩
  have honScreen := (onScreen_run (fun _ ↦ 0) [.command .add (plainCall 0xBF000000 5 0x100)]
    ⟨⟨hfive, trivial⟩, trivial⟩).last
  refine (@tasklet_blinks_iff _ (plainCall 0xBF000000 7 0x200) honScreen
    ⟨by decide, by decide, rfl, rfl, by decide⟩ ?_ (by decide) (by decide)).mpr
    (Or.inr ⟨by decide, by decide⟩) _ (undisturbed_replicate 7 _ 9)
  intro entry hmem
  rcases List.mem_singleton.mp hmem with rfl
  decide

/-- An addition at 5 of a character that is to be on for 0x8001 ticks. -/
def longCall : Call :=
  { plainCall 0xBF000000 5 0x100 with
    user := { (plainCall 0xBF000000 5 0x100).user with onLength := 0x8001 } }

/-- The character is off after one tick. -/
theorem tasklet_not_always :
    Addable (Memory.initial fun _ ↦ 0) longCall ∧
      ¬∀ events, EveryStep Lockstep.advance (Undisturbed 5)
          ((Lockstep.initial fun _ ↦ 0).advance (.command .add longCall)) events →
        Blinks longCall.user.toRecord (ticks events) (run Lockstep.advance
          ((Lockstep.initial fun _ ↦ 0).advance (.command .add longCall)) events) := by
  refine ⟨⟨by decide, by decide, rfl, rfl, by decide⟩, fun hblinks ↦ ?_⟩
  have hshown := (hblinks [.tick] ⟨trivial, trivial⟩).shown
  revert hshown
  decide +kernel

end Runs

end Sp18.Blink
