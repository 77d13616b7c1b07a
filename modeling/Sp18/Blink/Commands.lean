import Sp18.Blink.Searching

/-!
# The commands on a list of records

What the commands of mp1 are to do with a list of records (`spec`), and what an exit has to be to
conform to it (`Exit.Meets`, `Conforms`). From a memory that holds the list, an addition conforms
(`add_meets`). The other commands are taken case by case: a removal conforms for the head
(`remove_head`) and for a location that is not there, and leaves a freed node linked otherwise
(`remove_later`); a synchronization conforms unless the head has the location in `%di`
(`sync_conforms`, `sync_head_di`); a search that finds something never returns to its caller
(`find_found`).
-/

set_option autoImplicit false
set_option relaxedAutoImplicit false

namespace Sp18.Blink

open Foundation

/-- What a command is to return, the list after it, the record of the user, and the nodes that it is
to free. -/
structure Spec where
  eax : BitVec 32
  list : Records
  user : Record
  freed : List (BitVec 32)

/-- The record that an added node starts with. -/
def started (record : Record) : Record :=
  { record with countdown := record.onLength, status := 1 }

/-- A record with the lengths, the countdown and the status of another. -/
def synced (target source : Record) : Record :=
  { target with
    onLength := source.onLength
    offLength := source.offLength
    countdown := source.countdown
    status := source.status }

/-- A command returns -1 and changes nothing. -/
def failed (xs : Records) (call : Call) : Spec :=
  { eax := -1, list := xs, user := call.user.toRecord, freed := [] }

/-- The locations in the argument of a command. -/
def lowLocation (call : Call) : BitVec 16 := low call.arg

def highLocation (call : Call) : BitVec 16 := low (call.arg >>> 16)

/-- What the commands are to do with a list of records. -/
def spec (xs : Records) (command : Command) (call : Call) : Spec :=
  match command with
  | .add =>
    { eax := 0
      list := ⟨call.malloc, started call.user.toRecord⟩ :: xs
      user := call.user.toRecord
      freed := [] }
  | .remove =>
    match firstAt xs (lowLocation call) with
    | none => failed xs call
    | some entry =>
      { eax := 0
        list := xs.eraseP fun entry ↦ entry.value.location == lowLocation call
        user := call.user.toRecord
        freed := [entry.addr] }
  | .find =>
    match firstAt xs call.user.location with
    | none => failed xs call
    | some entry => { eax := 0, list := xs, user := entry.value, freed := [] }
  | .sync =>
    match firstAt xs (lowLocation call), firstAt xs (highLocation call) with
    | some target, some source =>
      { eax := 0
        list := setValue target.addr (synced target.value source.value) xs
        user := call.user.toRecord
        freed := [] }
    | _, _ => failed xs call

/-- The exit of a command from memory `m` is what the specification says: it returns to its caller
with this value, it has freed these nodes, and memory holds this list. -/
structure Exit.Meets (exit : Exit) (m : Memory) (call : Call) (spec : Spec) : Prop where
  address : exit.address = call.address
  words : exit.words = call.arg :: call.under
  eax : exit.eax = spec.eax
  user : exit.user.toRecord = spec.user
  freed : exit.memory.freed = spec.freed ++ m.freed
  list : Holds exit.memory spec.list

variable {m m' : Memory} {xs ys : Records} {call : Call} {s : Stack}

/-- `%ebp` points to the frame of the command. -/
def Framed (call : Call) (s : Stack) : Prop := s.ebp = call.ebp :: call.words

theorem meets_negone (hframe : Framed call s) (h : Holds m xs) :
    (s.negone m call.user).Meets m call (failed xs call) := by
  refine ⟨?_, ?_, rfl, rfl, rfl, h⟩
  · change s.ebp.getD 1 0 = _
    rw [hframe]
    rfl
  · change s.ebp.drop 2 = _
    rw [hframe]
    rfl

theorem meets_worked (hframe : Framed call s) {freed : List (BitVec 32)}
    (hfreed : m'.freed = freed ++ m.freed) (h : Holds m' ys) :
    (s.worked m' call.user).Meets m call ⟨0, ys, call.user.toRecord, freed⟩ := by
  refine ⟨?_, ?_, rfl, rfl, hfreed, h⟩
  · change s.ebp.getD 1 0 = _
    rw [hframe]
    rfl
  · change s.ebp.drop 2 = _
    rw [hframe]
    rfl

/-- A poke into video memory does not change the list. -/
theorem Holds.poke (h : Holds m xs) (location : BitVec 16) (cl : BitVec 8) :
    Holds (m.poke location cl) xs :=
  ⟨h.list, h.nodup, h.live, h.length, h.zero, h.one⟩

section Add

/-- What the environment promises for an addition: the user's record can be read and has a valid
location, and `mp1_malloc` returns an address that is not allocated. -/
structure Addable (m : Memory) (call : Call) : Prop where
  arg : call.arg ≠ 0
  malloc : call.malloc ≠ 0 ∧ call.malloc ≠ 1
  fresh : m.live call.malloc = false
  copied : call.notCopied = 0
  location : call.user.location ≤ 1999

/-- A fresh node before the list. -/
theorem Holds.cons (h : Holds m xs) {p : BitVec 32} (hp : p ≠ 0 ∧ p ≠ 1) (hfresh : m.live p = false)
    (user node : Node) (hnext : node.next = m.listHead) :
    Holds { ((m.malloc p).store p user).store p node with listHead := p }
      (⟨p, node.toRecord⟩ :: xs) := by
  have hnotMem : p ∉ xs.map Entry.addr := by
    intro hmem
    rw [(h.live p).mpr hmem] at hfresh
    cases hfresh
  have hnode : (((m.malloc p).store p user).store p node).node =
      Function.update m.node p (some node) := by
    simp only [Memory.store, Memory.malloc, if_neg hp.1, Function.update_idem]
  have hlive : (((m.malloc p).store p user).store p node).live = Function.update m.live p true := by
    simp only [Memory.store, Memory.malloc, if_neg hp.1]
  have hmallocs : (((m.malloc p).store p user).store p node).mallocs = m.mallocs + 1 := by
    simp only [Memory.store, Memory.malloc, if_neg hp.1]
  refine ⟨?_, List.nodup_cons.mpr ⟨hnotMem, h.nodup⟩, ?_, ?_, ?_, ?_⟩
  · refine ⟨rfl, hp.1, node, ?_, rfl, ?_⟩
    · rw [hnode, Function.update_self]
    · change ListAt nodeLayout _ node.next xs
      rw [hnode, hnext]
      exact h.list.update_of_notMem hnotMem _
  · intro q
    rw [hlive, List.map_cons, List.mem_cons]
    by_cases hq : q = p
    · subst hq
      exact iff_of_true (Function.update_self _ _ _) (Or.inl rfl)
    · rw [Function.update_of_ne hq, h.live q]
      exact (or_iff_right hq).symm
  · rw [hmallocs]
    exact Nat.succ_le_succ h.length
  · rw [hnode, Function.update_of_ne hp.1.symm, h.zero]
  · rw [hnode, Function.update_of_ne hp.2.symm, h.one]

theorem slt_zero_of_le {location : BitVec 16} (h : location ≤ 1999) : location.slt 0 = false := by
  have hle : location.toNat ≤ 1999 := BitVec.le_def.mp h
  have hpos : 2 * location.toNat < 2 ^ 16 := by omega
  rw [BitVec.slt_eq_decide, BitVec.toInt_eq_toNat_of_lt hpos]
  exact decide_eq_false (Int.not_lt.mpr (Int.natCast_nonneg _))

/-- An addition does what it is to do. -/
theorem add_meets (h : Holds m xs) (hadd : Addable m call) :
    ∃ exit, mp1Ioctl m .add call = some exit ∧ exit.Meets m call (spec xs .add call) := by
  have hslt : ¬call.user.location.slt 0 = true := by
    rw [slt_zero_of_le hadd.location]
    exact Bool.false_ne_true
  have hle : ¬1999 < call.user.location := BitVec.not_lt.mpr hadd.location
  have hcopied : ¬call.notCopied ≠ 0 := not_not.mpr hadd.copied
  have hhead : ((m.malloc call.malloc).store call.malloc call.user).listHead = m.listHead := by
    simp only [Memory.store, Memory.malloc, if_neg hadd.malloc.1]
  have hfreed : ((m.malloc call.malloc).store call.malloc call.user).freed = m.freed := by
    simp only [Memory.store, Memory.malloc, if_neg hadd.malloc.1]
  have harg : ¬call.entered.arg = 0 := hadd.arg
  simp only [mp1Ioctl, mp1IoctlAdd, if_neg harg, if_neg hadd.malloc.1, if_neg hcopied,
    Memory.node_store_self, Option.bind_eq_bind, Option.bind_some, if_neg hslt, if_neg hle]
  refine ⟨_, rfl, ?_⟩
  refine meets_worked ?_ hfreed (Holds.poke ?_ _ _)
  · rfl
  · exact h.cons hadd.malloc hadd.fresh call.user _ hhead

end Add

/-- The command does what it is to do. -/
def Conforms (m : Memory) (xs : Records) (command : Command) (call : Call) : Prop :=
  ∃ exit, mp1Ioctl m command call = some exit ∧ exit.Meets m call (spec xs command call)

theorem not_conforms_of_none {command : Command} (h : mp1Ioctl m command call = none) :
    ¬Conforms m xs command call := by
  rintro ⟨exit, hexit, -⟩
  rw [h] at hexit
  cases hexit

/-- A command is to return 0, or to return -1 and to change nothing. -/
theorem spec_eax (xs : Records) (command : Command) (call : Call) :
    (spec xs command call).eax = 0 ∨ spec xs command call = failed xs call := by
  cases command with
  | add => exact Or.inl rfl
  | remove =>
    rw [spec]
    split
    · exact Or.inr rfl
    · exact Or.inl rfl
  | find =>
    rw [spec]
    split
    · exact Or.inr rfl
    · exact Or.inl rfl
  | sync =>
    rw [spec]
    split
    · exact Or.inl rfl
    · exact Or.inr rfl

theorem ne_failed_of_eax {spec : Spec} (h : spec.eax = 0) : spec ≠ failed xs call := by
  intro heq
  have heax : (0 : BitVec 32) = -1 := h.symm.trans (congrArg Spec.eax heq)
  exact absurd heax (by decide)

/-- A command that returns -1 and changes nothing does what it is to do if it is to fail. -/
theorem conforms_negone_iff {command : Command} (h : Holds m xs) (hframe : Framed call s)
    (hexit : mp1Ioctl m command call = some (s.negone m call.user)) :
    Conforms m xs command call ↔ spec xs command call = failed xs call := by
  constructor
  · rintro ⟨exit, hsome, hmeets⟩
    rw [hexit] at hsome
    cases hsome
    rcases spec_eax xs command call with hzero | hfailed
    · have heax : (-1 : BitVec 32) = 0 := hmeets.eax.trans hzero
      exact absurd heax (by decide)
    · exact hfailed
  · intro hspec
    refine ⟨_, hexit, ?_⟩
    rw [hspec]
    exact meets_negone hframe h

/-- The location of the head of a list. -/
def headLocation (xs : Records) : Option (BitVec 16) :=
  xs.head?.map fun entry ↦ entry.value.location

section Remove

/-- A node that is freed while it is linked. -/
theorem not_holds_of_dangling (h : Holds m xs) {entry : Entry (BitVec 32) Record}
    (hmem : entry ∈ xs) {node node' : Node} (hnode : m.node entry.addr = some node)
    (hnext : node'.next = node.next) :
    ¬Holds ((m.store entry.addr node').free entry.addr) ys := by
  intro hys
  have hlist : ListAt nodeLayout (m.store entry.addr node').node m.listHead
      (setValue entry.addr node'.toRecord xs) :=
    h.list.update_value hnode hnext
  have hsame : ys = setValue entry.addr node'.toRecord xs := hys.list.unique hlist
  have hlinked : entry.addr ∈ ys.map Entry.addr := by
    rw [hsame, map_addr_setValue]
    exact List.mem_map_of_mem hmem
  have hlive := (hys.live entry.addr).mpr hlinked
  have hfreed : ((m.store entry.addr node').free entry.addr).live entry.addr = false :=
    Function.update_self _ _ _
  rw [hfreed] at hlive
  cases hlive

theorem spec_remove_failed_iff :
    spec xs .remove call = failed xs call ↔ firstAt xs (lowLocation call) = none := by
  rw [spec]
  split
  next hnone => exact iff_of_true rfl hnone
  next entry hsome =>
    refine iff_of_false (ne_failed_of_eax rfl) ?_
    rw [hsome]
    exact Option.some_ne_none entry

variable {first : Entry (BitVec 32) Record} {rest : Records}

/-- Where the head has the location in `%di`, nothing is removed. -/
theorem remove_head_di (h : Holds m (first :: rest)) (hdi : first.value.location = low call.edi) :
    mp1Ioctl m .remove call = some (call.entered.negone m call.user) := by
  obtain ⟨haddr, hnull, -⟩ := listAt_cons h.list
  have hone : ∀ entry ∈ first :: rest, entry.addr ≠ 1 := fun entry hmem ↦ h.ne_one hmem
  have hhead : ¬m.listHead = 1 := by
    rw [haddr]
    exact hone first List.mem_cons_self
  have hnotMem : (1 : BitVec 32) ∉ (first :: rest).map Entry.addr := by
    intro hmem
    obtain ⟨entry, hentry, heq⟩ := List.mem_map.mp hmem
    exact hone entry hentry heq
  have hzero : ¬(1 : BitVec 32) = 0 := by decide
  have hloop := removeLoop_eq 1 h.list (Nat.lt_succ_of_le h.length)
  rw [if_neg hnotMem] at hloop
  simp only [mp1Ioctl, mp1IoctlRemove, traverse_head h hdi, Option.bind_eq_bind, Option.bind_some,
    if_neg hzero, if_neg hhead, hloop, if_true]
  rfl

/-- Where there is no node with the location, nothing is removed. -/
theorem remove_absent (h : Holds m (first :: rest)) (hdi : first.value.location ≠ low call.edi)
    (hnone : firstAt (first :: rest) (lowLocation call) = none) :
    mp1Ioctl m .remove call = some (call.entered.negone m call.user) := by
  obtain ⟨ebx, htraverse⟩ := traverse_search h hdi call.entered.arg
  have hzero : addrAt (first :: rest) (low call.entered.arg) = 0 := addrAt_of_none hnone
  simp only [mp1Ioctl, mp1IoctlRemove, htraverse, Option.bind_eq_bind, Option.bind_some, hzero,
    if_true]
  rfl

theorem firstAt_head {location : BitVec 16} (h : first.value.location = location) :
    firstAt (first :: rest) location = some first :=
  List.find?_cons_of_pos (beq_iff_eq.mpr h)

theorem Holds.unlink_head (h : Holds m (first :: rest)) {node : Node}
    (hnode : m.node m.listHead = some node) :
    Holds (({ m with listHead := node.next } : Memory).free first.addr) rest := by
  obtain ⟨haddr, hnull, head, hhead, hvalue, hrest⟩ := listAt_cons h.list
  obtain rfl : head = node := Option.some.inj (hhead.symm.trans hnode)
  obtain ⟨hnotMem, hnodup⟩ := List.nodup_cons.mp h.nodup
  refine ⟨hrest, hnodup, ?_, Nat.le_of_succ_le h.length, h.zero, h.one⟩
  intro q
  change Function.update m.live first.addr false q = true ↔ _
  by_cases hq : q = first.addr
  · subst hq
    rw [Function.update_self]
    exact iff_of_false Bool.false_ne_true hnotMem
  · rw [Function.update_of_ne hq, h.live q, List.map_cons, List.mem_cons]
    exact or_iff_right hq

/-- The head is unlinked and freed. -/
theorem remove_head (h : Holds m (first :: rest)) (hdi : first.value.location ≠ low call.edi)
    (hfirst : first.value.location = lowLocation call) :
    Conforms m (first :: rest) .remove call := by
  have hsome : firstAt (first :: rest) (lowLocation call) = some first := firstAt_head hfirst
  obtain ⟨ebx, htraverse⟩ := traverse_search h hdi call.entered.arg
  have heax : addrAt (first :: rest) (low call.entered.arg) = first.addr := addrAt_of_some hsome
  have hzero : ¬first.addr = 0 := h.ne_zero List.mem_cons_self
  obtain ⟨haddr, -, node, hnode, -⟩ := listAt_cons h.list
  have hspec : spec (first :: rest) .remove call =
      { eax := 0, list := rest, user := call.user.toRecord, freed := [first.addr] } := by
    have herase : (first :: rest).eraseP (fun entry ↦ entry.value.location == lowLocation call) =
        rest := List.eraseP_cons_of_pos (beq_iff_eq.mpr hfirst)
    rw [spec, hsome]
    simp only [herase]
  rw [Conforms, hspec]
  simp only [mp1Ioctl, mp1IoctlRemove, htraverse, Option.bind_eq_bind, Option.bind_some, heax,
    if_neg hzero, if_pos haddr, hnode]
  refine ⟨_, rfl, ?_⟩
  refine meets_worked ?_ rfl (h.unlink_head hnode)
  rfl

/-- Where the node is not the head, it is freed while it is linked. -/
theorem remove_later (h : Holds m (first :: rest)) (hdi : first.value.location ≠ low call.edi)
    (hfirst : first.value.location ≠ lowLocation call) {entry : Entry (BitVec 32) Record}
    (hsome : firstAt (first :: rest) (lowLocation call) = some entry) :
    ¬Conforms m (first :: rest) .remove call := by
  obtain ⟨hmem, hlocation⟩ := firstAt_some hsome
  obtain ⟨ebx, htraverse⟩ := traverse_search h hdi call.entered.arg
  have heax : addrAt (first :: rest) (low call.entered.arg) = entry.addr := addrAt_of_some hsome
  have hzero : ¬entry.addr = 0 := h.ne_zero hmem
  have hlater : entry ∈ rest := by
    rcases List.mem_cons.mp hmem with rfl | hlater
    · exact absurd hlocation hfirst
    · exact hlater
  obtain ⟨haddr, -⟩ := listAt_cons h.list
  have hhead : ¬m.listHead = entry.addr := by
    intro heq
    have hnotMem := (List.nodup_cons.mp h.nodup).1
    rw [← haddr, heq] at hnotMem
    exact hnotMem (List.mem_map_of_mem hlater)
  have hloop := removeLoop_eq entry.addr h.list (Nat.lt_succ_of_le h.length)
  rw [if_pos (List.mem_map_of_mem hmem)] at hloop
  obtain ⟨node, hnode, -⟩ := h.list.cell_of_mem hmem
  rintro ⟨exit, hexit, hmeets⟩
  simp only [mp1Ioctl, mp1IoctlRemove, htraverse, Option.bind_eq_bind, Option.bind_some, heax,
    if_neg hzero, if_neg hhead, hloop, hnode] at hexit
  cases hexit
  have hnext : (node.overwrite node.next).next = node.next := rfl
  exact not_holds_of_dangling h hmem hnode hnext hmeets.list

end Remove

section Sync

variable {user : Node} {ebx edx esi edi ebp : BitVec 32} {words : List (BitVec 32)}

/-- Whatever `mp1_ioctl_sync` is entered with, it takes the return address from the stack and leaves
the words under it. -/
theorem sync_words {exit : Exit}
    (h : mp1IoctlSync m user ebx edx esi edi ebp words = some exit) :
    exit.words = words.drop 1 := by
  simp only [mp1IoctlSync, Option.bind_eq_bind] at h
  obtain ⟨target, -, h⟩ := Option.bind_eq_some_iff.mp h
  split_ifs at h with hlow
  · cases h
    rfl
  obtain ⟨source, -, h⟩ := Option.bind_eq_some_iff.mp h
  split_ifs at h with hhigh
  · cases h
    rfl
  obtain ⟨sourceNode, -, h⟩ := Option.bind_eq_some_iff.mp h
  obtain ⟨targetNode, -, h⟩ := Option.bind_eq_some_iff.mp h
  cases h
  rfl

theorem low_append (high low' : BitVec 16) : low (high ++ low') = low' := by
  rw [low]
  exact BitVec.setWidth_append_eq_right

/-- A node of the list gets another value. -/
theorem Holds.store (h : Holds m xs) {entry : Entry (BitVec 32) Record} (hmem : entry ∈ xs)
    {node node' : Node} (hnode : m.node entry.addr = some node) (hnext : node'.next = node.next) :
    Holds (m.store entry.addr node') (setValue entry.addr node'.toRecord xs) := by
  refine ⟨h.list.update_value hnode hnext, ?_, ?_, ?_, ?_, ?_⟩
  · rw [map_addr_setValue]
    exact h.nodup
  · rw [map_addr_setValue]
    exact h.live
  · rw [setValue, List.length_map]
    exact h.length
  · exact (Function.update_of_ne (h.ne_zero hmem).symm _ _).trans h.zero
  · exact (Function.update_of_ne (h.ne_one hmem).symm _ _).trans h.one

variable {first : Entry (BitVec 32) Record} {rest : Records}

/-- Where the head has the location in `%di`, a node is read at address 1. -/
theorem sync_head_di (h : Holds m (first :: rest)) (hdi : first.value.location = low call.edi) :
    mp1Ioctl m .sync call = none := by
  have hzero : ¬(1 : BitVec 32) = 0 := by decide
  simp only [mp1Ioctl, mp1IoctlSync, traverse_head h hdi, Option.bind_eq_bind, Option.bind_some,
    if_neg hzero, h.one, Option.bind_none]

theorem spec_sync_failed (hnone : firstAt xs (lowLocation call) = none ∨
    firstAt xs (highLocation call) = none) : spec xs .sync call = failed xs call := by
  rw [spec]
  split
  next target source hlow hhigh =>
    rcases hnone with hnone | hnone
    · rw [hnone] at hlow
      cases hlow
    · rw [hnone] at hhigh
      cases hhigh
  next => rfl

/-- The two searches of `mp1_ioctl_sync`. -/
theorem sync_searches (h : Holds m (first :: rest)) (hdi : first.value.location ≠ low call.edi) :
    (∃ ebx, traverse m call.edi (Command.sync.number.extractLsb' 16 16 ++ low call.entered.arg) =
        some (addrAt (first :: rest) (lowLocation call), ebx)) ∧
      ∃ ebx, traverse m call.edi (call.entered.arg >>> 16) =
        some (addrAt (first :: rest) (highLocation call), ebx) := by
  obtain ⟨ebx, hlow⟩ := traverse_search h hdi
    (Command.sync.number.extractLsb' 16 16 ++ low call.entered.arg)
  rw [low_append] at hlow
  exact ⟨⟨ebx, hlow⟩, traverse_search h hdi _⟩

theorem entered_eq (call : Call) :
    enter call.ebx call.esi call.edi call.ebp call.words = call.entered := rfl

theorem sync_target_absent (h : Holds m (first :: rest)) (hdi : first.value.location ≠ low call.edi)
    (hnone : firstAt (first :: rest) (lowLocation call) = none) :
    Conforms m (first :: rest) .sync call := by
  obtain ⟨⟨ebx, hlow⟩, -⟩ := sync_searches h hdi
  have hexit : mp1Ioctl m .sync call = some (call.entered.negone m call.user) := by
    simp only [mp1Ioctl, mp1IoctlSync, entered_eq, Stack.top_push, hlow, Option.bind_eq_bind,
      Option.bind_some, addrAt_of_none hnone, if_true, Stack.drop_push]
    rfl
  refine (conforms_negone_iff h ?_ hexit).mpr (spec_sync_failed (Or.inl hnone))
  rfl

variable {target source : Entry (BitVec 32) Record}

theorem sync_source_absent (h : Holds m (first :: rest)) (hdi : first.value.location ≠ low call.edi)
    (htarget : firstAt (first :: rest) (lowLocation call) = some target)
    (hnone : firstAt (first :: rest) (highLocation call) = none) :
    Conforms m (first :: rest) .sync call := by
  obtain ⟨⟨ebx, hlow⟩, ⟨ebx', hhigh⟩⟩ := sync_searches h hdi
  have hne : ¬target.addr = 0 := h.ne_zero (firstAt_some htarget).1
  have hexit : mp1Ioctl m .sync call = some
      ((((call.entered.drop 1).push (call.entered.arg >>> 16)).drop 2).negone m call.user) := by
    simp only [mp1Ioctl, mp1IoctlSync, entered_eq, Stack.top_push, hlow, hhigh,
      Option.bind_eq_bind, Option.bind_some, addrAt_of_some htarget, if_neg hne,
      addrAt_of_none hnone, if_true, Stack.drop_push]
    rfl
  refine (conforms_negone_iff h ?_ hexit).mpr (spec_sync_failed (Or.inr hnone))
  rfl

theorem sync_found (h : Holds m (first :: rest)) (hdi : first.value.location ≠ low call.edi)
    (htarget : firstAt (first :: rest) (lowLocation call) = some target)
    (hsource : firstAt (first :: rest) (highLocation call) = some source) :
    Conforms m (first :: rest) .sync call := by
  obtain ⟨⟨ebx, hlow⟩, ⟨ebx', hhigh⟩⟩ := sync_searches h hdi
  obtain ⟨hmem, -⟩ := firstAt_some htarget
  obtain ⟨hmem', -⟩ := firstAt_some hsource
  have hne : ¬target.addr = 0 := h.ne_zero hmem
  have hne' : ¬source.addr = 0 := h.ne_zero hmem'
  obtain ⟨node, hnode, hvalue, -⟩ := h.list.cell_of_mem hmem
  obtain ⟨node', hnode', hvalue', -⟩ := h.list.cell_of_mem hmem'
  have hspec : spec (first :: rest) .sync call =
      { eax := 0
        list := setValue target.addr (synced target.value source.value) (first :: rest)
        user := call.user.toRecord
        freed := [] } := by
    rw [spec, htarget, hsource]
  rw [Conforms, hspec, ← hvalue, ← hvalue']
  simp only [mp1Ioctl, mp1IoctlSync, entered_eq, Stack.top_push, hlow, hhigh, Option.bind_eq_bind,
    Option.bind_some, addrAt_of_some htarget, if_neg hne, addrAt_of_some hsource, if_neg hne',
    Stack.drop_push, hnode, hnode']
  refine ⟨_, rfl, ?_⟩
  refine meets_worked ?_ rfl (Holds.poke (h.store hmem hnode ?_) _ _)
  · rfl
  · rfl

/-- Where the head has not the location in `%di`, both searches find what they are to find. -/
theorem sync_conforms (h : Holds m (first :: rest)) (hdi : first.value.location ≠ low call.edi) :
    Conforms m (first :: rest) .sync call := by
  cases htarget : firstAt (first :: rest) (lowLocation call) with
  | none => exact sync_target_absent h hdi htarget
  | some target =>
    cases hsource : firstAt (first :: rest) (highLocation call) with
    | none => exact sync_source_absent h hdi htarget hsource
    | some source => exact sync_found h hdi htarget hsource

end Sync

section Find

variable {first : Entry (BitVec 32) Record} {rest : Records}

/-- A search that finds something is followed by the code of `mp1_ioctl_sync`, which takes the saved
`%ebx` for its return address. -/
theorem find_found {eax ebx : BitVec 32} (harg : call.arg ≠ 0)
    (htraverse : traverse m call.arg call.eax = some (eax, ebx)) (heax : eax ≠ 0) :
    ¬Conforms m xs .find call := by
  have harg' : ¬call.entered.arg = 0 := harg
  have htraverse' : traverse m call.entered.arg call.eax = some (eax, ebx) := htraverse
  have hsize : ¬(((((call.entered.push 16).push eax).push call.entered.arg).drop 2).top = 0) := by
    change ¬(16 : BitVec 32) = 0
    decide
  rintro ⟨exit, hexit, hmeets⟩
  simp only [mp1Ioctl, mp1IoctlFind, if_neg harg', htraverse', Option.bind_eq_bind,
    Option.bind_some, if_neg heax, if_neg hsize] at hexit
  have hwords : [call.esi, call.edi, call.ebp, call.address, call.arg] ++ call.under =
      call.arg :: call.under := (sync_words hexit).symm.trans hmeets.words
  have hlength := congrArg List.length hwords
  rw [List.length_append, List.length_cons] at hlength
  simp only [List.length_cons, List.length_nil] at hlength
  omega

theorem spec_find_failed_iff :
    spec xs .find call = failed xs call ↔ firstAt xs call.user.location = none := by
  rw [spec]
  split
  next hnone => exact iff_of_true rfl hnone
  next entry hsome =>
    refine iff_of_false (ne_failed_of_eax rfl) ?_
    rw [hsome]
    exact Option.some_ne_none entry

/-- A search that finds nothing ends in -1. -/
theorem find_nothing {ebx : BitVec 32} (h : Holds m xs) (harg : call.arg ≠ 0)
    (htraverse : traverse m call.arg call.eax = some (0, ebx)) :
    Conforms m xs .find call ↔ firstAt xs call.user.location = none := by
  have harg' : ¬call.entered.arg = 0 := harg
  have htraverse' : traverse m call.entered.arg call.eax = some (0, ebx) := htraverse
  have hexit : mp1Ioctl m .find call = some (call.entered.negone m call.user) := by
    simp only [mp1Ioctl, mp1IoctlFind, if_neg harg', htraverse', Option.bind_eq_bind,
      Option.bind_some, if_true]
    rfl
  rw [conforms_negone_iff h _ hexit, spec_find_failed_iff]
  rfl

end Find

end Sp18.Blink
