import Sp18.Fish.Commands

/-!
# What each command of fish does with the list

From a memory that holds a list of records, a removal (`conforms_remove`), a search
(`conforms_find`) and a synchronization (`conforms_sync`) do what they are to do. An addition does
so unless it is at location 0 (`conforms_add_iff`): the node is then in the list, and `mp1_malloc`
takes it for a free one.
-/

set_option autoImplicit false
set_option relaxedAutoImplicit false

namespace Sp18.Fish

open Foundation
open Blink (Record low started synced cellOf)

variable {m : Memory} {xs before after : Entries} {rs : List Record} {i : ℕ} {node : Node}

theorem offsetOf_eq {location : BitVec 16} (h : location ≤ 1999) :
    offsetOf location = cellOf location := by
  have hle : location.toNat ≤ 1999 := BitVec.le_def.mp h
  have htwo : (2 : BitVec 16).toNat = 2 := rfl
  apply BitVec.eq_of_toNat_eq
  simp only [offsetOf, cellOf, BitVec.toNat_shiftLeft, BitVec.toNat_setWidth, BitVec.toNat_mul,
    htwo, Nat.shiftLeft_eq]
  omega

/-! ### Adding -/

/-- Memory with a node before the list. -/
def pushed (m : Memory) (i : ℕ) (node : Node) : Memory :=
  { m with
    listHead := some i
    blinkArray := Function.update m.blinkArray i { node with next := m.listHead } }

theorem mp1IoctlAdd_of_free {user : Node} (hlocation : ¬2000 ≤ user.location)
    (hmalloc : m.malloc = some i) :
    mp1IoctlAdd m user = some ⟨0, (pushed m i { user with
      status := 1
      countdown := user.onLength }).poke (offsetOf user.location) user.onChar, none⟩ := by
  rw [mp1IoctlAdd, if_neg hlocation, hmalloc]
  simp only [Memory.store, Memory.setLink, Memory.poke, Function.update_self, Function.update_idem,
    pushed]

/-- A command that writes to the screen leaves the list as it is. -/
theorem Holds.poke (h : Holds m xs) (eax : BitVec 32) (cl : BitVec 8) : Holds (m.poke eax cl) xs :=
  ⟨h.list, h.nodup, h.inside, h.free, h.flag, h.bounded⟩

theorem Holds.pushed (h : Holds m xs) (hi : i < poolSize) (hnotMem : some i ∉ xs.map Entry.addr)
    (hzero : node.location ≠ 0) (hbounded : node.location ≤ 1999) (hflag : node.status = 1) :
    Holds (pushed m i node) (⟨some i, node.toRecord⟩ :: xs) where
  list := by
    refine ⟨rfl, Option.some_ne_none i, { node with next := m.listHead }, ?_, rfl, ?_⟩
    · exact congrArg some (Function.update_self _ _ _)
    · exact h.list.store_of_notMem hnotMem _
  nodup := List.nodup_cons.mpr ⟨hnotMem, h.nodup⟩
  inside j hj := by
    rcases List.mem_cons.mp hj with heq | hj
    · rwa [Option.some.inj heq]
    · exact h.inside j hj
  free j hj := by
    rw [List.map_cons, List.mem_cons, not_or]
    by_cases heq : j = i
    · subst heq
      refine iff_of_false ?_ fun hnot ↦ hnot.1 rfl
      simp only [Fish.pushed, Function.update_self]
      exact hzero
    · have hne : some j ≠ some i := fun hsome ↦ heq (Option.some.inj hsome)
      simp only [Fish.pushed, Function.update_of_ne heq]
      exact (h.free j hj).trans (and_iff_right hne).symm
  flag entry hmem := by
    rcases List.mem_cons.mp hmem with rfl | hmem
    · exact Or.inr hflag
    · exact h.flag entry hmem
  bounded entry hmem := by
    rcases List.mem_cons.mp hmem with rfl | hmem
    · exact hbounded
    · exact h.bounded entry hmem

/-- A node at location 0 is in the list and counts as free. -/
theorem not_represents_pushed (hi : i < poolSize) (hzero : node.location = 0) (eax : BitVec 32)
    (cl : BitVec 8) : ¬Represents ((pushed m i node).poke eax cl) rs := by
  rintro ⟨ys, hys, -⟩
  have hfree : ((pushed m i node).blinkArray i).location = 0 := by
    simp only [pushed, Function.update_self]
    exact hzero
  have hnotMem := (hys.free i hi).mp hfree
  cases ys with
  | nil => exact Option.some_ne_none i (linked_nil hys.list)
  | cons first rest =>
    obtain ⟨j, hj, hfirst, -⟩ := linked_cons hys.list
    refine hnotMem (List.mem_cons.mpr (Or.inl ?_))
    rw [hfirst]
    exact hj

/-- An addition does what it is to do unless it is at location 0 and there is room for it. -/
theorem conforms_add_iff (h : Holds m xs) (user : Node) :
    Conforms m (xs.map Entry.value) (.add user) ↔
      (user.location = 0 → xs.length = poolSize) := by
  have hle : (2000 : BitVec 16) ≤ user.location ↔ ¬user.location ≤ 1999 := by
    bv_omega
  by_cases hlocation : (2000 : BitVec 16) ≤ user.location
  · have hadd : mp1IoctlAdd m user = some ⟨-1, m, none⟩ := by
      rw [mp1IoctlAdd, if_pos hlocation]
    refine iff_of_true ⟨⟨-1, m, none⟩, hadd, ?_⟩ ?_
    · have hnot := fun hfits : user.location ≤ 1999 ∧ (xs.map Entry.value).length < poolSize ↦
        hle.mp hlocation hfits.1
      rw [Request.apply, Request.draw, if_neg hnot, if_neg hnot]
      exact ⟨rfl, rfl, rfl, xs, h, rfl⟩
    · intro hzero
      rw [hzero] at hlocation
      exact absurd hlocation (by decide)
  have hbounded : user.location ≤ 1999 := not_not.mp (mt hle.mpr hlocation)
  cases hmalloc : m.malloc with
  | none =>
    have hfull := h.malloc_eq_none_iff.mp hmalloc
    have hadd : mp1IoctlAdd m user = some ⟨-1, m, none⟩ := by
      rw [mp1IoctlAdd, if_neg hlocation, hmalloc]
    refine iff_of_true ⟨⟨-1, m, none⟩, hadd, ?_⟩ fun _ ↦ hfull
    have hlength : (xs.map Entry.value).length = poolSize := by rw [List.length_map, hfull]
    have hnot := fun hfits : user.location ≤ 1999 ∧ (xs.map Entry.value).length < poolSize ↦
      Nat.ne_of_lt hfits.2 hlength
    rw [Request.apply, Request.draw, if_neg hnot, if_neg hnot]
    exact ⟨rfl, rfl, rfl, xs, h, rfl⟩
  | some i =>
    obtain ⟨hi, hnotMem⟩ := h.malloc_eq_some hmalloc
    have hroom : xs.length ≠ poolSize := by
      intro hfull
      rw [h.malloc_eq_none_iff.mpr hfull] at hmalloc
      cases hmalloc
    have hfits : user.location ≤ 1999 ∧ (xs.map Entry.value).length < poolSize := by
      rw [List.length_map]
      exact ⟨hbounded, lt_of_le_of_ne h.length_le hroom⟩
    have hadd := mp1IoctlAdd_of_free hlocation hmalloc
    rw [Conforms, Request.apply, Request.draw, if_pos hfits, if_pos hfits]
    constructor
    · rintro ⟨exit, hexit, -, -, -, hrepresents⟩ hzero
      cases hexit.symm.trans hadd
      refine absurd hrepresents (not_represents_pushed hi ?_ _ _)
      exact hzero
    · intro hnonzero
      rw [← offsetOf_eq hbounded]
      refine ⟨_, hadd, rfl, rfl, rfl, ⟨some i, started user.toRecord⟩ :: xs, Holds.poke ?_ _ _, rfl⟩
      exact h.pushed hi hnotMem (fun hzero ↦ hroom (hnonzero hzero)) hbounded rfl

/-! ### Removing -/

/-- The loop ends with the address of the pointer to the node. -/
theorem removeFindPrev_eq {array : ℕ → Node} {edx p : Option ℕ} {entry : Entry (Option ℕ) Record}
    (harray : m.blinkArray = array) (hlink : m.link edx = p)
    (h : Linked array p (before ++ entry :: after)) (hentry : entry.addr = some i)
    (hnodup : ((before ++ entry :: after).map Entry.addr).Nodup) {fuel : ℕ}
    (hfuel : before.length < fuel) :
    removeFindPrev m i fuel edx = some (before.getLast?.elim edx Entry.addr) := by
  subst harray
  induction before generalizing edx p fuel with
  | nil =>
    obtain ⟨fuel, rfl⟩ := Nat.exists_eq_succ_of_ne_zero (Nat.ne_of_gt hfuel)
    obtain ⟨j, hj, rfl, -⟩ := linked_cons h
    obtain rfl : j = i := Option.some.inj hentry
    rw [removeFindPrev, if_pos (hlink.trans hj)]
    rfl
  | cons first before ih =>
    obtain ⟨fuel, rfl⟩ := Nat.exists_eq_succ_of_ne_zero (Nat.ne_of_gt (Nat.zero_lt_of_lt hfuel))
    obtain ⟨j, hj, rfl, hrest⟩ := linked_cons h
    obtain ⟨hnotMem, hnodup⟩ := List.nodup_cons.mp hnodup
    have hne : some j ≠ some i := by
      intro heq
      refine hnotMem (List.mem_map.mpr ⟨entry, List.mem_append_right _ List.mem_cons_self, ?_⟩)
      exact hentry.trans heq.symm
    have hlink' : m.link edx = some j := hlink.trans hj
    have hloop : removeFindPrev m i fuel (some j) =
        some (before.getLast?.elim (some j) Entry.addr) :=
      ih rfl hnodup (Nat.lt_of_succ_lt_succ hfuel) hrest
    rw [removeFindPrev, if_neg (hlink' ▸ hne), hlink', List.getLast?_cons]
    refine hloop.trans (congrArg some ?_)
    cases before.getLast? with
    | none => rfl
    | some last => rfl

/-- Memory without a node of the list. -/
def unlinked (m : Memory) (before : Entries) (i : ℕ) : Memory :=
  (m.setLink (m.blinkArray i).next (before.getLast?.elim none Entry.addr)).free i

theorem vmem_unlinked (m : Memory) (before : Entries) (i : ℕ) :
    (unlinked m before i).vmem = m.vmem := by
  cases hprev : before.getLast?.elim none Entry.addr with
  | none =>
    rw [unlinked, hprev]
    rfl
  | some j =>
    rw [unlinked, hprev]
    rfl

theorem linked_unlinked {entry : Entry (Option ℕ) Record}
    (h : Linked m.blinkArray m.listHead (before ++ entry :: after)) (hentry : entry.addr = some i)
    (hnodup : ((before ++ entry :: after).map Entry.addr).Nodup) :
    Linked (unlinked m before i).blinkArray (unlinked m before i).listHead (before ++ after) := by
  have hnotMem : some i ∉ (before ++ after).map Entry.addr := by
    rw [List.map_append, List.map_cons, hentry] at hnodup
    rw [List.map_append]
    exact (List.nodup_middle.mp hnodup).notMem
  rcases List.eq_nil_or_concat before with rfl | ⟨front, prev, rfl⟩
  · obtain ⟨j, hj, rfl, hrest⟩ := linked_cons h
    obtain rfl : j = i := Option.some.inj hentry
    exact hrest.store_of_notMem hnotMem Node.zero
  · rw [List.concat_eq_append, List.append_assoc, List.singleton_append] at *
    obtain ⟨j, rfl⟩ := h.entry_eq (List.mem_append_right front List.mem_cons_self)
    obtain ⟨k, rfl⟩ := h.entry_eq
      (List.mem_append_right front (List.mem_cons_of_mem _ List.mem_cons_self))
    obtain rfl : k = i := Option.some.inj hentry
    have hlink : Linked (Function.update m.blinkArray j
        { m.blinkArray j with next := (m.blinkArray k).next }) m.listHead
        (front ++ ⟨some j, (m.blinkArray j).toRecord⟩ :: after) := by
      rw [Linked, cellAt_update]
      exact ListAt.unlink h hnodup (c := m.blinkArray j) rfl rfl rfl rfl
    rw [unlinked, List.getLast?_concat]
    exact hlink.store_of_notMem hnotMem Node.zero

theorem location_setLink (m : Memory) (p edx : Option ℕ) (j : ℕ) :
    ((m.setLink p edx).blinkArray j).location = (m.blinkArray j).location := by
  cases edx with
  | none => rfl
  | some i =>
    by_cases hj : j = i
    · subst hj
      simp only [Memory.setLink, Memory.store, Function.update_self]
    · simp only [Memory.setLink, Memory.store, Function.update_of_ne hj]

theorem Holds.unlinked {entry : Entry (Option ℕ) Record} (h : Holds m (before ++ entry :: after))
    (hentry : entry.addr = some i) : Holds (unlinked m before i) (before ++ after) := by
  have hperm : ((before ++ entry :: after).map Entry.addr).Perm
      (some i :: (before ++ after).map Entry.addr) := by
    rw [← hentry, ← List.map_cons]
    exact List.Perm.map _ List.perm_middle
  obtain ⟨hnotMem, hnodup⟩ := List.nodup_cons.mp (hperm.nodup_iff.mp h.nodup)
  have hsubset : ∀ e ∈ before ++ after, e ∈ before ++ entry :: after := by
    intro e he
    exact List.perm_middle.symm.subset (List.mem_cons_of_mem _ he)
  refine ⟨linked_unlinked h.list hentry h.nodup, hnodup, fun j hj ↦ ?_, fun j hj ↦ ?_,
    fun e he ↦ h.flag e (hsubset e he), fun e he ↦ h.bounded e (hsubset e he)⟩
  · exact h.inside j (hperm.symm.subset (List.mem_cons_of_mem _ hj))
  · by_cases heq : j = i
    · subst heq
      refine iff_of_true ?_ hnotMem
      simp only [Fish.unlinked, Memory.free, Memory.store, Function.update_self]
      rfl
    · have hne : some j ≠ some i := fun hsome ↦ heq (Option.some.inj hsome)
      have hmem : some j ∈ (before ++ entry :: after).map Entry.addr ↔
          some j ∈ (before ++ after).map Entry.addr := by
        rw [hperm.mem_iff, List.mem_cons]
        exact or_iff_right hne
      rw [← hmem, ← h.free j hj, Fish.unlinked, Memory.free, Memory.store]
      simp only [Function.update_of_ne heq, location_setLink]

/-- The first node with a location, between those before and those after it. -/
theorem entryAt_split {location : BitVec 16} {entry : Entry (Option ℕ) Record}
    (h : entryAt xs location = some entry) :
    ∃ before after, xs = before ++ entry :: after ∧ entry.value.location = location ∧
      ∀ e ∈ before, e.value.location ≠ location := by
  obtain ⟨hlocation, before, after, hsplit, hbefore⟩ := List.find?_eq_some_iff_append.mp h
  refine ⟨before, after, hsplit, beq_iff_eq.mp hlocation, fun e he heq ↦ ?_⟩
  have hnot := hbefore e he
  rw [heq, beq_self_eq_true] at hnot
  cases hnot

/-- A removal does what it is to do. -/
theorem conforms_remove (h : Holds m xs) (arg : BitVec 32) :
    Conforms m (xs.map Entry.value) (.remove arg) := by
  rw [Conforms, Request.apply, recordAt_map]
  cases hfirst : entryAt xs (low arg) with
  | none =>
    refine ⟨⟨-1, m, none⟩, ?_, rfl, rfl, rfl, xs, h, rfl⟩
    rw [mp1Ioctl, mp1IoctlRemove, mp1FindHelper_of_none h hfirst]
    rfl
  | some entry =>
    obtain ⟨i, hhelper, hentry⟩ := mp1FindHelper_of_some h hfirst
    obtain ⟨before, after, rfl, hlocation, hbefore⟩ := entryAt_split hfirst
    have haddr : entry.addr = some i := by rw [hentry]
    have hlength : before.length < poolSize + 1 := by
      have hle := h.length_le
      rw [List.length_append] at hle
      omega
    have hloop : removeFindPrev m i (poolSize + 1) none =
        some (before.getLast?.elim none Entry.addr) :=
      removeFindPrev_eq rfl rfl h.list haddr h.nodup hlength
    refine ⟨⟨0, unlinked m before i, none⟩, ?_, rfl, rfl, vmem_unlinked m before i,
      before ++ after, h.unlinked haddr, ?_⟩
    · rw [mp1Ioctl, mp1IoctlRemove, hhelper]
      simp only [Option.bind_eq_bind, Option.bind_some, hloop]
      rfl
    · have hskip : ∀ r ∈ before.map Entry.value, ¬(r.location == low arg) = true := by
        intro r hr heq
        obtain ⟨e, he, rfl⟩ := List.mem_map.mp hr
        exact hbefore e he (beq_iff_eq.mp heq)
      simp only [Option.map_some, List.map_append, List.map_cons]
      rw [List.eraseP_append_right _ hskip, List.eraseP_cons_of_pos
        (p := fun r : Record ↦ r.location == low arg) (beq_iff_eq.mpr hlocation)]

/-! ### Finding and synchronizing -/

/-- A search does what it is to do. -/
theorem conforms_find (h : Holds m xs) (user : Node) :
    Conforms m (xs.map Entry.value) (.find user) := by
  have hlow : low (user.location.setWidth 32) = user.location := by
    rw [low, BitVec.setWidth_setWidth_of_le _ (by decide), BitVec.setWidth_eq]
  rw [Conforms, Request.apply, recordAt_map, ← hlow]
  cases hfirst : entryAt xs (low (user.location.setWidth 32)) with
  | none =>
    refine ⟨⟨-1, m, none⟩, ?_, rfl, rfl, rfl, xs, h, rfl⟩
    rw [mp1Ioctl, mp1IoctlFind, mp1FindHelper_of_none h hfirst]
    rfl
  | some entry =>
    obtain ⟨i, hhelper, rfl⟩ := mp1FindHelper_of_some h hfirst
    refine ⟨⟨0, m, some (m.blinkArray i)⟩, ?_, rfl, rfl, rfl, xs, h, rfl⟩
    rw [mp1Ioctl, mp1IoctlFind, hhelper]
    rfl

theorem syncAt_cons_of_eq {location : BitVec 16} {r : Record} (h : r.location = location)
    (source : Record) (rs : List Record) :
    syncAt location source (r :: rs) = synced r source :: rs :=
  List.replaceF_cons_of_some _ (if_pos h)

theorem syncAt_cons_of_ne {location : BitVec 16} {r : Record} (h : r.location ≠ location)
    (source : Record) (rs : List Record) :
    syncAt location source (r :: rs) = r :: syncAt location source rs :=
  List.replaceF_cons_of_none _ (if_neg h)

/-- The first node with a location gets another value. -/
theorem map_value_setValue {location : BitVec 16} {target : Record} (source : Record)
    (hnodup : (xs.map Entry.addr).Nodup) (h : entryAt xs location = some ⟨some i, target⟩) :
    (setValue (some i) (synced target source) xs).map Entry.value =
      syncAt location source (xs.map Entry.value) := by
  induction xs with
  | nil => cases h
  | cons first rest ih =>
    obtain ⟨hnotMem, hnodup⟩ := List.nodup_cons.mp hnodup
    rw [setValue, List.map_cons, List.map_cons, List.map_cons]
    by_cases hfirst : first.value.location = location
    · have hfound : entryAt (first :: rest) location = some first :=
        List.find?_cons_of_pos (beq_iff_eq.mpr hfirst)
      obtain rfl : first = ⟨some i, target⟩ := Option.some.inj (hfound.symm.trans h)
      have hrest := setValue_of_notMem hnotMem (synced target source)
      rw [if_pos rfl, syncAt_cons_of_eq hfirst]
      exact congrArg (fun ys ↦ synced target source :: ys.map Entry.value) hrest
    · have hfound : entryAt (first :: rest) location = entryAt rest location :=
        List.find?_cons_of_neg fun heq ↦ hfirst (beq_iff_eq.mp heq)
      rw [hfound] at h
      have hne : first.addr ≠ some i :=
        fun heq ↦ hnotMem (heq ▸ List.mem_map_of_mem (entryAt_some h).1)
      rw [if_neg hne, syncAt_cons_of_ne hfirst]
      exact congrArg _ (ih hnodup h)

/-- A node of the list gets the value of a record that may stand there. -/
theorem Holds.setValue (h : Holds m xs) (hmem : some i ∈ xs.map Entry.addr)
    (hnext : node.next = (m.blinkArray i).next)
    (hlocation : node.location = (m.blinkArray i).location)
    (hflag : node.status = 0 ∨ node.status = 1) :
    Holds (m.store i node) (setValue (some i) node.toRecord xs) where
  list := h.list.store_value hnext
  nodup := by
    rw [map_addr_setValue]
    exact h.nodup
  inside := by
    rw [map_addr_setValue]
    exact h.inside
  free j hj := by
    rw [map_addr_setValue, ← h.free j hj]
    by_cases heq : j = i
    · subst heq
      simp only [Memory.store, Function.update_self, hlocation]
    · simp only [Memory.store, Function.update_of_ne heq]
  flag entry hentry := by
    rcases mem_setValue.mp hentry with ⟨hold, -⟩ | ⟨rfl, -⟩
    · exact h.flag entry hold
    · exact hflag
  bounded entry hentry := by
    rcases mem_setValue.mp hentry with ⟨hold, -⟩ | ⟨rfl, -⟩
    · exact h.bounded entry hold
    · exact hlocation ▸ h.bounded _ (h.list.mem_of_some hmem)

/-- A node with the lengths, the countdown and the status of another. -/
def syncedNode (target source : Node) : Node :=
  { target with
    onLength := source.onLength
    offLength := source.offLength
    countdown := source.countdown
    status := source.status }

/-- A byte that is 0 or 1 is never less than 0. -/
theorem cmovl_testb_one (b source target : BitVec 8) :
    cmovl (testb b 1) source target = target := by
  have hmsb : (b &&& 1).msb = false := by
    rw [BitVec.msb_and]
    exact Bool.and_false _
  rw [cmovl, testb, hmsb, if_neg (not_not.mpr rfl)]

/-- A synchronization does what it is to do. -/
theorem conforms_sync (h : Holds m xs) (arg : BitVec 32) :
    Conforms m (xs.map Entry.value) (.sync arg) := by
  have hlow : low (arg &&& 0xFFFF) = low arg := by
    have hones : (0xFFFF : BitVec 32).setWidth 16 = BitVec.allOnes 16 := rfl
    rw [low, low, BitVec.setWidth_and, hones, BitVec.and_allOnes]
  rw [Conforms, Request.apply, Request.draw, recordAt_map, recordAt_map, mp1Ioctl, mp1IoctlSync]
  cases hsource : entryAt xs (low (arg >>> 16)) with
  | none =>
    refine ⟨⟨-1, m, none⟩, ?_, rfl, rfl, rfl, xs, h, rfl⟩
    rw [mp1FindHelper_of_none h hsource]
    rfl
  | some source =>
    obtain ⟨s, hsourceHelper, rfl⟩ := mp1FindHelper_of_some h hsource
    rw [hsourceHelper]
    rw [← hlow]
    cases htarget : entryAt xs (low (arg &&& 0xFFFF)) with
    | none =>
      refine ⟨⟨-1, m, none⟩, ?_, rfl, rfl, rfl, xs, h, rfl⟩
      simp only [Option.bind_eq_bind, Option.bind_some, mp1FindHelper_of_none h htarget]
      rfl
    | some target =>
      obtain ⟨t, htargetHelper, rfl⟩ := mp1FindHelper_of_some h htarget
      simp only [Option.bind_eq_bind, Option.bind_some, htargetHelper]
      have hholds : Holds (m.store t (syncedNode (m.blinkArray t) (m.blinkArray s)))
          (setValue (some t) (syncedNode (m.blinkArray t) (m.blinkArray s)).toRecord xs) :=
        h.setValue (List.mem_map_of_mem (entryAt_some htarget).1) rfl rfl
          (h.flag _ (entryAt_some hsource).1)
      have hbounded : (m.blinkArray t).location ≤ 1999 := h.bounded _ (entryAt_some htarget).1
      refine ⟨_, rfl, rfl, rfl, ?_, _, hholds.poke _ _, map_value_setValue _ h.nodup htarget⟩
      simp only [cmovl_testb_one, offsetOf_eq hbounded]
      rfl

end Sp18.Fish
