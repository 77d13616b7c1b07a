import Sp18.Fish.Frames

/-!
# The animation of fish

`add_frames` adds its points in the order of their places, so that no two of them have the same
location as long as the lines fit into a row (`pairwise_framePoints`). All of them are in the first
phase when the ticks begin, for the same number of ticks, so that all change from the one file to
the other at the same tick, and back (`addFrames_animates`).
-/

set_option autoImplicit false
set_option relaxedAutoImplicit false

namespace Sp18.Fish

open Foundation
open Blink (Record started cellOf cellOf_injOn)

/-! ### Adding many records -/

/-- The commands that add records. -/
def additions (users : List Node) : List Event := users.map fun user ↦ .ioctl (.add user)

/-- The records that are on the screen. -/
def fitting (users : List Node) : List Node := users.filter fun user ↦ user.location ≤ 1999

/-- Records at different places may be added to a list. -/
structure Fresh (rs : List Record) (users : List Node) : Prop where
  nonzero : ∀ user ∈ users, user.location ≠ 0
  notMem : ∀ user ∈ fitting users, user.location ∉ rs.map Record.location
  nodup : ((fitting users).map fun user ↦ user.location).Nodup
  room : rs.length + (fitting users).length ≤ poolSize

variable {s : Lockstep} {user : Node} {users : List Node} {rs : List Record}

theorem fitting_cons_of_le (h : user.location ≤ 1999) :
    fitting (user :: users) = user :: fitting users :=
  List.filter_cons_of_pos (decide_eq_true h)

theorem fitting_cons_of_not_le (h : ¬user.location ≤ 1999) :
    fitting (user :: users) = fitting users :=
  List.filter_cons_of_neg (mt of_decide_eq_true h)

theorem Fresh.tail_of_not_le (h : Fresh rs (user :: users)) (hle : ¬user.location ≤ 1999) :
    Fresh rs users := by
  obtain ⟨hnonzero, hnotMem, hnodup, hroom⟩ := h
  rw [fitting_cons_of_not_le hle] at hnotMem hnodup hroom
  exact ⟨fun u hmem ↦ hnonzero u (List.mem_cons_of_mem _ hmem), hnotMem, hnodup, hroom⟩

theorem Fresh.tail_of_le (h : Fresh rs (user :: users)) (hle : user.location ≤ 1999) :
    Fresh (started user.toRecord :: rs) users := by
  obtain ⟨hnonzero, hnotMem, hnodup, hroom⟩ := h
  rw [fitting_cons_of_le hle] at hnotMem hnodup hroom
  obtain ⟨hnot, hnodup⟩ := List.nodup_cons.mp hnodup
  refine ⟨fun u hmem ↦ hnonzero u (List.mem_cons_of_mem _ hmem), fun u hmem ↦ ?_, hnodup, ?_⟩
  · rw [List.map_cons, List.mem_cons, not_or]
    refine ⟨fun heq ↦ hnot ?_, hnotMem u (List.mem_cons_of_mem _ hmem)⟩
    exact List.mem_map.mpr ⟨u, hmem, heq⟩
  · rw [List.length_cons] at *
    omega

/-- An addition for which there is room, and one that is refused. -/
theorem Lockstep.step_add (s : Lockstep) (user : Node) :
    (s.step (.ioctl (.add user))).list =
      if user.location ≤ 1999 ∧ s.list.length < poolSize then started user.toRecord :: s.list
      else s.list := by
  rw [step, Request.apply]
  split_ifs
  · rfl
  · rfl

/-- What is on the screen after the additions. -/
structure Added (s : Lockstep) (users : List Node) (s' : Lockstep) : Prop where
  onScreen : s'.OnScreen
  list : s'.list = ((fitting users).map fun user ↦ started user.toRecord).reverse ++ s.list
  vmem : ∀ a, (∀ user ∈ fitting users, a ≠ cellOf user.location) →
    s'.memory.vmem a = s.memory.vmem a

theorem addAll_of_fresh (h : s.OnScreen) (hfresh : Fresh s.list users) :
    addAll s.memory users = some (run Lockstep.step s (additions users)).memory ∧
      Added s users (run Lockstep.step s (additions users)) := by
  induction users generalizing s with
  | nil => exact ⟨rfl, h, rfl, fun _ _ ↦ rfl⟩
  | cons user users ih =>
    have hnonzero := hfresh.nonzero user List.mem_cons_self
    have hdraws : s.Draws (.ioctl (.add user)) := by
      rintro ⟨hle, -⟩
      refine ⟨hnonzero, hfresh.notMem user ?_⟩
      rw [fitting_cons_of_le hle]
      exact List.mem_cons_self
    have hsuits : s.Suits (.ioctl (.add user)) := fun hzero ↦ absurd hzero hnonzero
    have honScreen := (Lockstep.onScreen_step_iff h _).mpr hdraws
    have hvmem := Lockstep.vmem_step h.represents hsuits
    obtain ⟨exit, hexit, -⟩ := (Lockstep.conforms_iff h.represents).mpr hsuits
    have hmemory : exit.memory = (s.step (.ioctl (.add user))).memory := by
      rw [Lockstep.step, hexit]
      rfl
    have hadd : (mp1IoctlAdd s.memory user).map Exit.memory =
        some (s.step (.ioctl (.add user))).memory := by
      rw [← hmemory]
      exact congrArg (Option.map Exit.memory) hexit
    rw [addAll_cons, hadd, Option.bind_some]
    have hlist := Lockstep.step_add s user
    by_cases hle : user.location ≤ 1999
    · have hlt : s.list.length < poolSize := by
        have hroom := hfresh.room
        rw [fitting_cons_of_le hle, List.length_cons] at hroom
        omega
      rw [if_pos ⟨hle, hlt⟩] at hlist
      rw [Request.draw, if_pos ⟨hle, hlt⟩] at hvmem
      obtain ⟨hall, hadded⟩ := ih honScreen (hlist.symm ▸ hfresh.tail_of_le hle)
      refine ⟨hall, hadded.onScreen, ?_, fun a ha ↦ ?_⟩
      · rw [fitting_cons_of_le hle, List.map_cons, List.reverse_cons, List.append_assoc,
          List.singleton_append, ← hlist]
        exact hadded.list
      · rw [fitting_cons_of_le hle] at ha
        refine (hadded.vmem a fun u hmem ↦ ha u (List.mem_cons_of_mem _ hmem)).trans ?_
        rw [hvmem]
        exact Function.update_of_ne (ha user List.mem_cons_self) _ _
    · rw [if_neg fun hfits ↦ hle hfits.1] at hlist
      rw [Request.draw, if_neg fun hfits ↦ hle hfits.1] at hvmem
      obtain ⟨hall, hadded⟩ := ih honScreen (hlist.symm ▸ hfresh.tail_of_not_le hle)
      refine ⟨hall, hadded.onScreen, ?_, fun a ha ↦ ?_⟩
      · rw [fitting_cons_of_not_le hle, ← hlist]
        exact hadded.list
      · rw [fitting_cons_of_not_le hle] at ha
        exact (hadded.vmem a ha).trans (congrFun hvmem a)

/-! ### Ticks -/

/-- A number of ticks, one after the other. -/
def ticks : ℕ → Memory → Option Memory
  | 0, m => some m
  | t + 1, m => (mp1RtcTasklet m).bind (ticks t)

/-- Ticks keep the records on the screen, and draw nothing elsewhere. -/
theorem ticks_eq (h : s.OnScreen) (t : ℕ) :
    ∃ s' : Lockstep, ticks t s.memory = some s'.memory ∧ s'.OnScreen ∧
      s'.list = s.list.map Record.tick^[t] ∧
      ∀ a, (∀ r ∈ s.list, a ≠ cellOf r.location) → s'.memory.vmem a = s.memory.vmem a := by
  induction t generalizing s with
  | zero => exact ⟨s, rfl, h, (List.map_id _).symm, fun _ _ ↦ rfl⟩
  | succ t ih =>
    have hsuits : s.Suits .tick := trivial
    obtain ⟨m', htasklet, hvmem, -⟩ := (Lockstep.conforms_iff h.represents).mpr hsuits
    have hmemory : (s.step .tick).memory = m' := by
      rw [Lockstep.step, htasklet]
      rfl
    obtain ⟨s', hticks, honScreen, hlist, hkept⟩ :=
      ih ((Lockstep.onScreen_step_iff h .tick).mpr trivial)
    refine ⟨s', ?_, honScreen, ?_, fun a ha ↦ ?_⟩
    · rw [ticks, htasklet, Option.bind_some, ← hmemory]
      exact hticks
    · rw [hlist, Lockstep.step, List.map_map]
      rfl
    · have hnext : ∀ r ∈ (s.step .tick).list, a ≠ cellOf r.location := by
        intro r hmem
        obtain ⟨old, hold, rfl⟩ := List.mem_map.mp hmem
        rw [Blink.Record.tick_location]
        exact ha old hold
      rw [hkept a hnext, hmemory, hvmem]
      exact drawAll_of_ne ha

/-! ### The points of two files -/

variable {stack : Node} {f0 f1 : List (BitVec 8)}

/-- Both files fit into rows of the screen, and their locations into sixteen bits. -/
structure Fits (f0 f1 : List (BitVec 8)) : Prop where
  width : ∀ row, (lineAt f0 row).length ≤ 80 ∧ (lineAt f1 row).length ≤ 80
  height : lineCount (some f0) ≤ 800 ∧ lineCount (some f1) ≤ 800

/-- The record that `add_frames` adds for a place. -/
def frameNode (stack : Node) (f0 f1 : List (BitVec 8)) (row col : ℕ) : Node :=
  { stack with
    onLength := 15
    offLength := 15
    onChar := charAt f0 row col
    offChar := charAt f1 row col
    location := BitVec.ofNat 16 (row * 80 + col + 40) }

theorem mem_framePoints : user ∈ framePoints stack f0 f1 ↔ ∃ row col,
    row < max (lineCount (some f0)) (lineCount (some f1)) ∧
    col < max (lineAt f0 row).length (lineAt f1 row).length ∧
    ¬(charAt f0 row col = blank ∧ charAt f1 row col = blank) ∧
    frameNode stack f0 f1 row col = user := by
  simp only [framePoints, rowPoints, List.mem_flatMap, List.mem_filterMap, List.mem_range,
    List.mem_range'_1, point, charAt, frameNode, Option.ite_none_left_eq_some, Option.some.injEq,
    Nat.sub_zero, Nat.zero_le, true_and, Nat.zero_add]
  constructor
  · rintro ⟨row, hrow, col, hcol, hblank, rfl⟩
    exact ⟨row, col, hrow, hcol, hblank, rfl⟩
  · rintro ⟨row, col, hrow, hcol, hblank, rfl⟩
    exact ⟨row, hrow, col, hcol, hblank, rfl⟩

/-- The place of a point. -/
theorem Fits.place (h : Fits f0 f1) {row col : ℕ}
    (hrow : row < max (lineCount (some f0)) (lineCount (some f1)))
    (hcol : col < max (lineAt f0 row).length (lineAt f1 row).length) :
    col < 80 ∧ (frameNode stack f0 f1 row col).location.toNat = row * 80 + col + 40 := by
  have hwidth := h.width row
  have hheight := h.height
  have hcol : col < 80 := by omega
  refine ⟨hcol, ?_⟩
  rw [frameNode, BitVec.toNat_ofNat]
  exact Nat.mod_eq_of_lt (by omega)

/-- The points come in the order of their locations. -/
theorem pairwise_framePoints (h : Fits f0 f1) (stack : Node) :
    (framePoints stack f0 f1).Pairwise fun u v ↦ u.location.toNat < v.location.toNat := by
  have hmem : ∀ {row : ℕ} {u : Node}, row < max (lineCount (some f0)) (lineCount (some f1)) →
      u ∈ rowPoints stack row 0 (lineAt f0 row) (lineAt f1 row) →
      ∃ col < 80, u.location.toNat = row * 80 + col + 40 := by
    intro row u hrow hmem
    simp only [rowPoints, List.mem_filterMap, List.mem_range'_1, point,
      Option.ite_none_left_eq_some, Option.some.injEq] at hmem
    obtain ⟨col, hcol, -, rfl⟩ := hmem
    exact ⟨col, h.place hrow (by omega)⟩
  rw [framePoints, List.pairwise_flatMap]
  constructor
  · intro row hrow
    have hrow := List.mem_range.mp hrow
    rw [rowPoints, List.pairwise_filterMap]
    refine List.Pairwise.imp_of_mem ?_ List.pairwise_lt_range'
    intro i j hi hj hlt u hu v hv
    have hi := List.mem_range'_1.mp hi
    have hj := List.mem_range'_1.mp hj
    rw [point, Option.ite_none_left_eq_some, Option.some.injEq] at hu hv
    obtain ⟨-, rfl⟩ := hu
    obtain ⟨-, rfl⟩ := hv
    have hlt : (frameNode stack f0 f1 row i).location.toNat <
        (frameNode stack f0 f1 row j).location.toNat := by
      rw [(h.place hrow (by omega)).2, (h.place hrow (by omega)).2]
      omega
    exact hlt
  · refine List.Pairwise.imp_of_mem ?_ List.pairwise_lt_range
    intro i j hi hj hlt u hu v hv
    obtain ⟨col, hcol, hu⟩ := hmem (List.mem_range.mp hi) hu
    obtain ⟨col', -, hv⟩ := hmem (List.mem_range.mp hj) hv
    omega

theorem mem_fitting : user ∈ fitting users ↔ user ∈ users ∧ user.location.toNat ≤ 1999 := by
  rw [fitting, List.mem_filter, decide_eq_true_iff, BitVec.le_def]
  rfl

/-- The points may be added to the empty list. -/
theorem fresh_framePoints (h : Fits f0 f1) (stack : Node) : Fresh [] (framePoints stack f0 f1) := by
  have hpairwise : (fitting (framePoints stack f0 f1)).Pairwise
      fun u v ↦ u.location.toNat < v.location.toNat :=
    (pairwise_framePoints h stack).filter _
  have hnodup : ((fitting (framePoints stack f0 f1)).map fun u ↦ u.location.toNat).Nodup :=
    List.pairwise_map.mpr (hpairwise.imp Nat.ne_of_lt)
  refine ⟨fun user hmem hzero ↦ ?_, fun _ _ ↦ List.not_mem_nil, ?_, ?_⟩
  · obtain ⟨row, col, hrow, hcol, -, rfl⟩ := mem_framePoints.mp hmem
    have hplace := (@Fits.place stack _ _ h _ _ hrow hcol).2
    rw [hzero] at hplace
    have hzero : (0 : BitVec 16).toNat = 0 := rfl
    omega
  · exact List.pairwise_map.mpr (hpairwise.imp fun hlt heq ↦
      Nat.ne_of_lt hlt (congrArg BitVec.toNat heq))
  · have hsubset : (fitting (framePoints stack f0 f1)).map (fun u ↦ u.location.toNat) ⊆
        List.range poolSize := by
      intro n hn
      obtain ⟨u, hu, rfl⟩ := List.mem_map.mp hn
      exact List.mem_range.mpr (Nat.lt_succ_of_le (mem_fitting.mp hu).2)
    have hle := (List.subperm_of_subset hnodup hsubset).length_le
    rwa [List.length_map, List.length_range, ← Nat.zero_add (fitting _).length] at hle

/-- A place that is not blank is in one of the lines of the files. -/
theorem lt_of_charAt_ne {f : List (BitVec 8)} {row col : ℕ} (h : charAt f row col ≠ blank) :
    col < (lineAt f row).length ∧ row < lineCount (some f) := by
  have hcol : col < (lineAt f row).length := by
    by_contra hle
    rw [charAt, List.getElem?_eq_none (Nat.le_of_not_lt hle)] at h
    exact h rfl
  refine ⟨hcol, ?_⟩
  by_contra hle
  have hcount := lineCount_iterate f row
  rw [Nat.sub_eq_zero_of_le (Nat.le_of_not_lt hle)] at hcount
  cases hline : nextLine^[row] (some f) with
  | none =>
    rw [lineAt, hline] at hcol
    exact absurd hcol (Nat.not_lt_zero col)
  | some bytes =>
    rw [hline] at hcount
    exact Nat.succ_ne_zero _ hcount

/-- The cell of a place of the frames. -/
def cellAtPlace (row col : ℕ) : BitVec 32 := BitVec.ofNat 32 (2 * (row * 80 + col + 40))

/-- What a place shows: the one file for 15 ticks, and the other one for the next. -/
def animated (f0 f1 : List (BitVec 8)) (t row col : ℕ) : BitVec 8 :=
  if t % 30 < 15 then charAt f0 row col else charAt f1 row col

theorem cellOf_frameNode {row col : ℕ} (hplace : row * 80 + col + 40 < 2000) :
    cellOf (frameNode stack f0 f1 row col).location = cellAtPlace row col := by
  have htwo : (2 : BitVec 16).toNat = 2 := rfl
  apply BitVec.eq_of_toNat_eq
  simp only [cellOf, frameNode, cellAtPlace, BitVec.toNat_setWidth, BitVec.toNat_mul, htwo,
    BitVec.toNat_ofNat]
  omega

/-- The tick at which a point changes is the same for all of them. -/
theorem shown_frameNode (row col t : ℕ) :
    (Record.tick^[t] (started (frameNode stack f0 f1 row col).toRecord)).shown =
      animated f0 f1 t row col :=
  Blink.iterate_tick_shown_of_counted (r := (frameNode stack f0 f1 row col).toRecord)
    (by simp [frameNode]) (by simp [frameNode]) (by simp [Blink.Counted, frameNode])
    (by simp [Blink.Counted, frameNode]) t

theorem iterate_tick_location (r : Record) (t : ℕ) : (Record.tick^[t] r).location = r.location := by
  induction t with
  | zero => rfl
  | succ t ih => rw [Function.iterate_succ_apply', Blink.Record.tick_location, ih]

/-- After `add_frames` and any number of ticks, a place of the screen at which one of the two files
has a character shows the one file or the other, by the tick, and all other bytes are as before. -/
theorem addFrames_animates (stack : Node) (f0 f1 : List (BitVec 8)) (h : Fits f0 f1)
    (vmem : BitVec 32 → BitVec 8) (t : ℕ) :
    ∃ m m', addFrames stack f0 f1 (Memory.initial vmem) = some m ∧ ticks t m = some m' ∧
      (∀ row col, col < 80 → row * 80 + col + 40 < 2000 →
        ¬(charAt f0 row col = blank ∧ charAt f1 row col = blank) →
        m'.vmem (cellAtPlace row col) = animated f0 f1 t row col) ∧
      ∀ a, (∀ row col, col < 80 → row * 80 + col + 40 < 2000 →
        ¬(charAt f0 row col = blank ∧ charAt f1 row col = blank) → a ≠ cellAtPlace row col) →
        m'.vmem a = vmem a := by
  have hstart : (Lockstep.initial vmem).OnScreen :=
    ⟨Lockstep.represents_initial vmem, List.nodup_nil, fun _ hmem ↦ absurd hmem List.not_mem_nil⟩
  obtain ⟨hall, hadded⟩ := addAll_of_fresh hstart (fresh_framePoints h stack)
  obtain ⟨s', hticks, honScreen, hlist, hkept⟩ := ticks_eq hadded.onScreen t
  have hmem : ∀ r, r ∈ (run Lockstep.step (Lockstep.initial vmem)
      (additions (framePoints stack f0 f1))).list ↔
        ∃ user ∈ fitting (framePoints stack f0 f1), started user.toRecord = r := by
    intro r
    have hnil : (Lockstep.initial vmem).list = [] := rfl
    rw [hadded.list, hnil, List.append_nil, List.mem_reverse, List.mem_map]
  refine ⟨_, _, (addFrames_eq stack f0 f1 _).trans hall, hticks, ?_, fun a ha ↦ ?_⟩
  · intro row col hcol hplace hblank
    have hne := not_and_or.mp hblank
    have hlt : row < max (lineCount (some f0)) (lineCount (some f1)) ∧
        col < max (lineAt f0 row).length (lineAt f1 row).length := by
      rcases hne with hne | hne
      · exact ⟨lt_max_of_lt_left (lt_of_charAt_ne hne).2, lt_max_of_lt_left (lt_of_charAt_ne hne).1⟩
      · exact ⟨lt_max_of_lt_right (lt_of_charAt_ne hne).2,
          lt_max_of_lt_right (lt_of_charAt_ne hne).1⟩
    have hlocation := (@Fits.place stack _ _ h _ _ hlt.1 hlt.2).2
    have huser : frameNode stack f0 f1 row col ∈ fitting (framePoints stack f0 f1) :=
      mem_fitting.mpr ⟨mem_framePoints.mpr ⟨row, col, hlt.1, hlt.2, hblank, rfl⟩, by omega⟩
    have hshown := honScreen.shows _ (hlist ▸ List.mem_map_of_mem ((hmem _).mpr ⟨_, huser, rfl⟩))
    rw [shown_frameNode, iterate_tick_location] at hshown
    rw [← @cellOf_frameNode stack f0 f1 row col hplace]
    exact hshown
  · have hother : ∀ user ∈ fitting (framePoints stack f0 f1), a ≠ cellOf user.location := by
      intro user huser
      obtain ⟨hpoint, hle⟩ := mem_fitting.mp huser
      obtain ⟨row, col, hrow, hcol, hblank, rfl⟩ := mem_framePoints.mp hpoint
      obtain ⟨hcol, hlocation⟩ := @Fits.place stack _ _ h _ _ hrow hcol
      rw [cellOf_frameNode (by omega)]
      exact ha row col hcol (by omega) hblank
    rw [hkept a, hadded.vmem a hother]
    · rfl
    · intro r hr
      obtain ⟨user, huser, rfl⟩ := (hmem r).mp hr
      exact hother user huser

/-- Files with short contents fit. -/
theorem fits_of_length (h0 : f0.length ≤ 80) (h1 : f1.length ≤ 80) : Fits f0 f1 where
  width row := ⟨(length_line_le f0 row).trans h0, (length_line_le f1 row).trans h1⟩
  height := by
    have hcount0 : lineCount (some f0) ≤ f0.length + 1 := Nat.succ_le_succ List.count_le_length
    have hcount1 : lineCount (some f1) ≤ f1.length + 1 := Nat.succ_le_succ List.count_le_length
    exact ⟨by omega, by omega⟩

/-- Two lines of one character in the first file, and one in the second file, after 15 ticks. -/
theorem addFrames_animates_lines :
    ∃ m m', addFrames Node.zero [47, 10, 111] [92] (Memory.initial fun _ ↦ 7) = some m ∧
      ticks 15 m = some m' ∧ m'.vmem (cellAtPlace 0 0) = 92 ∧ m'.vmem (cellAtPlace 1 0) = blank ∧
      m'.vmem 0 = 7 := by
  obtain ⟨m, m', hm, hm', hshown, hother⟩ := addFrames_animates Node.zero [47, 10, 111] [92]
    (fits_of_length (by decide) (by decide)) (fun _ ↦ 7) 15
  refine ⟨m, m', hm, hm', hshown 0 0 (by decide) (by decide) (by decide),
    hshown 1 0 (by decide) (by decide) (by decide), hother 0 fun row col hcol hplace _ heq ↦ ?_⟩
  have hzero : (0 : BitVec 32).toNat = 0 := rfl
  have hcell := congrArg BitVec.toNat heq
  rw [hzero, cellAtPlace, BitVec.toNat_ofNat] at hcell
  omega

end Sp18.Fish
