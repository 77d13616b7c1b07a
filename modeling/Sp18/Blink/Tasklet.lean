import Sp18.Blink.Searching

/-!
# The tasklet of mp1

`mp1.S`: `mp1_rtc_tasklet`, which is called at every tick of the real-time clock. On a memory that
holds a list it visits each node once, from the head on, and does to each record what `Record.tick`
says (`mp1RtcTasklet_eq`). Of the video memory it writes what the nodes show whose countdown has
ended (`Record.draw`).
-/

set_option autoImplicit false
set_option relaxedAutoImplicit false

namespace Sp18.Blink

open Foundation

/-- The body of the loop for the node that `%ebx` points to. -/
def visitNode (m : Memory) (ebx : BitVec 32) (node : Node) : Memory :=
  let node := { node with countdown := node.countdown - 1 }
  let m := m.store ebx node
  -- `jg` takes the countdown for a signed number
  if (0 : BitVec 16).slt node.countdown then m
  else if node.status = 0 then
    (m.poke node.location node.onChar).store ebx
      { node with countdown := node.onLength, status := 1 }
  else
    (m.poke node.location node.offChar).store ebx
      { node with countdown := node.offLength, status := 0 }

/-- The loop of `mp1_rtc_tasklet`. It returns the memory and the values that `%ebx` has taken. -/
def taskletLoop : ℕ → Memory → BitVec 32 → Option (Memory × List (BitVec 32))
  | 0, _, _ => none
  | fuel + 1, m, ebx =>
    if ebx = 0 then some (m, [])
    else
      match m.node ebx with
      | none => none
      | some node => do
        let (m, visited) ← taskletLoop fuel (visitNode m ebx node) node.next
        return (m, ebx :: visited)

/-- `mp1_rtc_tasklet`. The -1 in `%eax` on an empty list is not for its caller, to which it returns
nothing. -/
def mp1RtcTasklet (m : Memory) : Option (Memory × List (BitVec 32)) :=
  if m.listHead = 0 then some (m, []) else taskletLoop (m.mallocs + 1) m m.listHead

/-- The countdown has ended: the other character is due. -/
def Record.Due (r : Record) : Prop := (0 : BitVec 16).slt (r.countdown - 1) = false

instance (r : Record) : Decidable r.Due :=
  inferInstanceAs (Decidable ((0 : BitVec 16).slt (r.countdown - 1) = false))

/-- A record with the other character on the screen. -/
def Record.toggled (r : Record) : Record :=
  if r.status = 0 then { r with countdown := r.onLength, status := 1 }
  else { r with countdown := r.offLength, status := 0 }

/-- What a tick does to a record. -/
def Record.tick (r : Record) : Record :=
  if r.Due then r.toggled else { r with countdown := r.countdown - 1 }

/-- The character that a record shows. -/
def Record.shown (r : Record) : BitVec 8 := if r.status = 0 then r.offChar else r.onChar

/-- Where the character of a location is in video memory. -/
def cellOf (location : BitVec 16) : BitVec 32 := (location * 2).setWidth 32

/-- What a tick does to the video memory on account of a record. -/
def Record.draw (r : Record) (vmem : BitVec 32 → BitVec 8) : BitVec 32 → BitVec 8 :=
  if r.Due then Function.update vmem (cellOf r.location) r.tick.shown else vmem

/-- What a tick does to an element of the list. -/
def tickEntry (entry : Entry (BitVec 32) Record) : Entry (BitVec 32) Record :=
  { entry with value := entry.value.tick }

variable {m : Memory} {xs : Records}

theorem Record.tick_of_due {r : Record} (h : r.Due) : r.tick = r.toggled := if_pos h

theorem Record.tick_of_not_due {r : Record} (h : ¬r.Due) :
    r.tick = { r with countdown := r.countdown - 1 } := if_neg h

@[simp] theorem Record.toggled_location (r : Record) : r.toggled.location = r.location := by
  rw [toggled]
  split_ifs
  · rfl
  · rfl

@[simp] theorem Record.tick_location (r : Record) : r.tick.location = r.location := by
  rw [tick]
  split_ifs
  · exact r.toggled_location
  · rfl

@[simp] theorem Record.toggled_shown (r : Record) :
    r.toggled.shown = if r.status = 0 then r.onChar else r.offChar := by
  rw [toggled]
  split_ifs
  · rfl
  · rfl

@[simp] theorem map_addr_tickEntry (xs : Records) :
    (xs.map tickEntry).map Entry.addr = xs.map Entry.addr := by
  rw [List.map_map]
  rfl

/-- The node that a visit leaves. -/
def Node.tick (node : Node) : Node := { node.toRecord.tick with next := node.next }

/-- A visit changes the node and what it shows, and nothing else. -/
theorem visitNode_eq (m : Memory) (p : BitVec 32) (node : Node) :
    visitNode m p node =
      { m with
        node := Function.update m.node p (some node.tick)
        vmem := node.toRecord.draw m.vmem } := by
  by_cases hdue : node.toRecord.Due
  · have hjg : ¬(0 : BitVec 16).slt (node.countdown - 1) = true := by
      rw [show (0 : BitVec 16).slt (node.countdown - 1) = false from hdue]
      exact Bool.false_ne_true
    rw [Record.draw, if_pos hdue, Record.tick_of_due hdue, Record.toggled_shown, Node.tick,
      Record.tick_of_due hdue, Record.toggled, visitNode, if_neg hjg]
    split_ifs
    · simp only [Memory.store, Memory.poke, Function.update_idem, cellOf]
    · simp only [Memory.store, Memory.poke, Function.update_idem, cellOf]
  · have hjg : (0 : BitVec 16).slt (node.countdown - 1) = true := Bool.eq_true_of_not_eq_false hdue
    rw [Record.draw, if_neg hdue, Node.tick, Record.tick_of_not_due hdue, visitNode, if_pos hjg]
    rfl

/-- The loop on a list that is short enough for the fuel: it visits the nodes of the list in their
order, each of them once, and changes nothing else. -/
theorem taskletLoop_eq {fuel : ℕ} {p : BitVec 32} (h : ListAt nodeLayout m.node p xs)
    (hnodup : (xs.map Entry.addr).Nodup) (hfuel : xs.length < fuel) :
    ∃ node', taskletLoop fuel m p =
        some ({ m with
          node := node'
          vmem := xs.foldl (fun vmem entry ↦ entry.value.draw vmem) m.vmem }, xs.map Entry.addr) ∧
      ListAt nodeLayout node' p (xs.map tickEntry) ∧
      ∀ q, q ∉ xs.map Entry.addr → node' q = m.node q := by
  induction xs generalizing fuel p m with
  | nil =>
    obtain ⟨fuel, rfl⟩ := Nat.exists_eq_succ_of_ne_zero (Nat.ne_of_gt hfuel)
    refine ⟨m.node, ?_, h, fun _ _ ↦ rfl⟩
    rw [taskletLoop, if_pos (listAt_nil h)]
    rfl
  | cons entry rest ih =>
    obtain ⟨fuel, rfl⟩ := Nat.exists_eq_succ_of_ne_zero (Nat.ne_of_gt (Nat.zero_lt_of_lt hfuel))
    obtain ⟨rfl, hnull, node, hnode, hvalue, hrest⟩ := listAt_cons h
    obtain ⟨hnotMem, hnodup'⟩ := List.nodup_cons.mp hnodup
    have hkept : ListAt nodeLayout (visitNode m entry.addr node).node node.next rest := by
      rw [visitNode_eq]
      exact hrest.update_of_notMem hnotMem _
    obtain ⟨node', hloop, hlist, hframe⟩ := ih hkept hnodup' (Nat.lt_of_succ_lt_succ hfuel)
    have hticked : node' entry.addr = some node.tick := by
      rw [hframe entry.addr hnotMem, visitNode_eq]
      exact Function.update_self _ _ _
    refine ⟨node', ?_, ⟨rfl, hnull, node.tick, hticked, ?_, hlist⟩, fun q hq ↦ ?_⟩
    · rw [taskletLoop, if_neg hnull, hnode]
      simp only [hloop, Option.bind_eq_bind, Option.bind_some]
      rw [visitNode_eq, List.foldl_cons, ← hvalue]
      rfl
    · exact congrArg Record.tick hvalue
    · obtain ⟨hne, hq⟩ := not_or.mp (mt List.mem_cons.mpr hq)
      rw [hframe q hq, visitNode_eq]
      exact Function.update_of_ne hne _ _

/-- A tick visits each node once and does to the list what it is to do. -/
theorem mp1RtcTasklet_eq (h : Holds m xs) :
    ∃ m', mp1RtcTasklet m = some (m', xs.map Entry.addr) ∧ Holds m' (xs.map tickEntry) ∧
      m'.vmem = xs.foldl (fun vmem entry ↦ entry.value.draw vmem) m.vmem := by
  obtain ⟨node', hloop, hlist, hframe⟩ :=
    taskletLoop_eq h.list h.nodup (Nat.lt_succ_of_le h.length)
  have hkept : ∀ q, (∀ entry ∈ xs, entry.addr ≠ q) → node' q = m.node q := by
    refine fun q hne ↦ hframe q fun hmem ↦ ?_
    obtain ⟨entry, hentry, heq⟩ := List.mem_map.mp hmem
    exact hne entry hentry heq
  have hzero : node' 0 = none := (hkept 0 fun _ ↦ h.ne_zero).trans h.zero
  have hone : node' 1 = none := (hkept 1 fun _ ↦ h.ne_one).trans h.one
  refine ⟨{ m with
    node := node'
    vmem := xs.foldl (fun vmem entry ↦ entry.value.draw vmem) m.vmem }, ?_, ?_, rfl⟩
  · rw [mp1RtcTasklet]
    split_ifs with hhead
    · have hloop' : taskletLoop (m.mallocs + 1) m m.listHead = some (m, []) := by
        rw [taskletLoop, if_pos hhead]
      rw [← hloop', hloop]
    · exact hloop
  · refine ⟨hlist, ?_, ?_, ?_, hzero, hone⟩
    · rw [map_addr_tickEntry]
      exact h.nodup
    · rw [map_addr_tickEntry]
      exact h.live
    · rw [List.length_map]
      exact h.length

end Sp18.Blink
