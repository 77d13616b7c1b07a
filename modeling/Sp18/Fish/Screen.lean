import Sp18.Fish.Refinement

/-!
# What fish shows

Each record of the list has a cell of the screen, which is to show the character of its phase. An
addition draws it, a tick redraws the records that are due, and a synchronization draws the record
whose phase it changes. It draws the character for the off phase, as its `cmovl` does not look at
the phase (`cmovl_testb_one`). All of a run is on the screen exactly if no record is synchronized
with one that is on (`onScreen_iff_draws`).
-/

set_option autoImplicit false
set_option relaxedAutoImplicit false

namespace Sp18.Fish

open Foundation
open Blink (Record low started synced cellOf cellOf_injOn)

variable {rs : List Record} {r : Record} {vmem : BitVec 32 → BitVec 8}

/-- Each record shows its character. -/
def Shows (rs : List Record) (vmem : BitVec 32 → BitVec 8) : Prop :=
  ∀ r ∈ rs, vmem (cellOf r.location) = r.shown

/-- All records are on the screen, no two of them at the same location. -/
structure Placed (rs : List Record) : Prop where
  bounded : ∀ r ∈ rs, r.location ≤ 1999
  nodup : (rs.map Record.location).Nodup

theorem Placed.tail (h : Placed (r :: rs)) : Placed rs where
  bounded r' hmem := h.bounded r' (List.mem_cons_of_mem _ hmem)
  nodup := h.nodup.of_cons

/-- The cells of two records of the list are different. -/
theorem Placed.cellOf_ne (h : Placed (r :: rs)) {r' : Record} (hmem : r' ∈ rs) :
    cellOf r'.location ≠ cellOf r.location := by
  intro heq
  have hlocation : r'.location = r.location :=
    cellOf_injOn (h.bounded r' (List.mem_cons_of_mem _ hmem)) (h.bounded r List.mem_cons_self) heq
  exact (List.nodup_cons.mp h.nodup).1 (hlocation ▸ List.mem_map_of_mem hmem)

/-- A record of the list is the only one with its location. -/
theorem Placed.eq_of_location (h : Placed rs) {r' : Record} (hmem : r ∈ rs) (hmem' : r' ∈ rs)
    (hlocation : r.location = r'.location) : r = r' :=
  List.inj_on_of_nodup_map h.nodup hmem hmem' hlocation

theorem draw_of_ne {a : BitVec 32} (h : a ≠ cellOf r.location) : r.draw vmem a = vmem a := by
  rw [Record.draw]
  split_ifs
  · exact Function.update_of_ne h _ _
  · rfl

/-- What a tick draws is for the cells of the list. -/
theorem drawAll_of_ne {a : BitVec 32} (h : ∀ r ∈ rs, a ≠ cellOf r.location) :
    drawAll rs vmem a = vmem a := by
  induction rs generalizing vmem with
  | nil => rfl
  | cons first rest ih =>
    have hrest : drawAll rest (first.draw vmem) a = first.draw vmem a :=
      ih fun r hmem ↦ h r (List.mem_cons_of_mem _ hmem)
    exact hrest.trans (draw_of_ne (h first List.mem_cons_self))

/-- A tick leaves each record with its character. -/
theorem Shows.tick (hshows : Shows rs vmem) (hplaced : Placed rs) :
    Shows (rs.map Record.tick) (drawAll rs vmem) := by
  induction rs generalizing vmem with
  | nil => exact fun r hmem ↦ absurd hmem List.not_mem_nil
  | cons first rest ih =>
    have hfirst : first.draw vmem (cellOf first.location) = first.tick.shown :=
      Blink.Record.draw_self (Or.inl (hshows first List.mem_cons_self))
    have hrest : Shows rest (first.draw vmem) := by
      intro r hmem
      rw [draw_of_ne (hplaced.cellOf_ne hmem)]
      exact hshows r (List.mem_cons_of_mem _ hmem)
    intro r hmem
    rcases List.mem_cons.mp hmem with rfl | hmem
    · rw [Blink.Record.tick_location]
      have hkept : drawAll rest (first.draw vmem) (cellOf first.location) =
          first.draw vmem (cellOf first.location) :=
        drawAll_of_ne fun r hmem ↦ (hplaced.cellOf_ne hmem).symm
      exact hkept.trans hfirst
    · exact ih hrest hplaced.tail r hmem

theorem Placed.tick (h : Placed rs) : Placed (rs.map Record.tick) where
  bounded r hmem := by
    obtain ⟨old, hold, rfl⟩ := List.mem_map.mp hmem
    exact (Blink.Record.tick_location old).symm ▸ h.bounded old hold
  nodup := by
    have hlocation : Record.location ∘ Record.tick = Record.location :=
      funext Blink.Record.tick_location
    rw [List.map_map, hlocation]
    exact h.nodup

/-! ### Synchronizing -/

theorem synced_shown (target source : Record) :
    (synced target source).shown = target.offChar ↔
      source.status = 0 ∨ target.onChar = target.offChar := by
  rw [Record.shown]
  by_cases hstatus : source.status = 0
  · exact iff_of_true (if_pos hstatus) (Or.inl hstatus)
  · rw [or_iff_right hstatus]
    exact iff_of_eq (congrArg (· = target.offChar) (if_neg hstatus))

theorem map_location_syncAt (location : BitVec 16) (source : Record) (rs : List Record) :
    (syncAt location source rs).map Record.location = rs.map Record.location := by
  induction rs with
  | nil => rfl
  | cons first rest ih =>
    by_cases hfirst : first.location = location
    · rw [syncAt_cons_of_eq hfirst]
      rfl
    · rw [syncAt_cons_of_ne hfirst, List.map_cons, List.map_cons, ih]

/-- The records after a synchronization: the one record, and all others. -/
theorem mem_syncAt (h : Placed rs) {target : Record} (htarget : target ∈ rs) (source : Record) :
    r ∈ syncAt target.location source rs ↔
      r = synced target source ∨ r ∈ rs ∧ r ≠ target := by
  induction rs with
  | nil => cases htarget
  | cons first rest ih =>
    by_cases hfirst : first.location = target.location
    · obtain rfl : first = target := h.eq_of_location List.mem_cons_self htarget hfirst
      have hne : ∀ r ∈ rest, r ≠ first := by
        rintro r hmem rfl
        exact h.cellOf_ne hmem rfl
      rw [syncAt_cons_of_eq rfl, List.mem_cons, List.mem_cons]
      refine or_congr_right ⟨fun hmem ↦ ⟨Or.inr hmem, hne r hmem⟩, fun ⟨hmem, hr⟩ ↦ ?_⟩
      exact hmem.resolve_left hr
    · have hne : first ≠ target := fun heq ↦ hfirst (congrArg Record.location heq)
      have htarget : target ∈ rest := (List.mem_cons.mp htarget).resolve_left hne.symm
      rw [syncAt_cons_of_ne hfirst, List.mem_cons, List.mem_cons, ih h.tail htarget]
      constructor
      · rintro (rfl | hr | ⟨hmem, hr⟩)
        · exact Or.inr ⟨Or.inl rfl, hne⟩
        · exact Or.inl hr
        · exact Or.inr ⟨Or.inr hmem, hr⟩
      · rintro (hr | ⟨rfl | hmem, hr⟩)
        · exact Or.inr (Or.inl hr)
        · exact Or.inl rfl
        · exact Or.inr (Or.inr ⟨hmem, hr⟩)

/-- The character for the off phase is on the screen in the place of the record. It is the right one
if the record is off. -/
theorem shows_syncAt_iff (hshows : Shows rs vmem) (hplaced : Placed rs) {target : Record}
    (htarget : target ∈ rs) (source : Record) :
    Shows (syncAt target.location source rs)
        (Function.update vmem (cellOf target.location) target.offChar) ↔
      source.status = 0 ∨ target.onChar = target.offChar := by
  rw [← synced_shown]
  constructor
  · intro hsynced
    have htarget := hsynced _ ((mem_syncAt hplaced htarget source).mpr (Or.inl rfl))
    exact htarget.symm.trans (Function.update_self _ _ _)
  · intro hshown r hmem
    rcases (mem_syncAt hplaced htarget source).mp hmem with rfl | ⟨hmem, hr⟩
    · exact (Function.update_self _ _ _).trans hshown.symm
    · have hcell : cellOf r.location ≠ cellOf target.location := by
        intro heq
        refine hr (hplaced.eq_of_location hmem htarget ?_)
        exact cellOf_injOn (hplaced.bounded r hmem) (hplaced.bounded target htarget) heq
      rw [Function.update_of_ne hcell]
      exact hshows r hmem

/-! ### Runs -/

namespace Lockstep

/-- Memory holds the list, no two records have one location, and each shows its character. -/
structure OnScreen (s : Lockstep) : Prop where
  represents : Represents s.memory s.list
  nodup : (s.list.map Record.location).Nodup
  shows : Shows s.list s.memory.vmem

/-- The next event adds no record at location 0, none at a location that is taken, and gives no
record the phase of one that is on. -/
def Draws (s : Lockstep) : Event → Prop
  | .ioctl (.add user) => user.location ≤ 1999 ∧ s.list.length < poolSize →
      user.location ≠ 0 ∧ user.location ∉ s.list.map Record.location
  | .ioctl (.sync arg) => ∀ source target, recordAt s.list (low (arg >>> 16)) = some source →
      recordAt s.list (low arg) = some target →
      source.status = 0 ∨ target.onChar = target.offChar
  | _ => True

variable {s : Lockstep} {event : Event}

theorem bounded_of_represents (h : Represents s.memory s.list) :
    ∀ r ∈ s.list, r.location ≤ 1999 := by
  obtain ⟨xs, hholds, hlist⟩ := h
  intro r hmem
  obtain ⟨entry, hentry, rfl⟩ := List.mem_map.mp (hlist ▸ hmem)
  exact hholds.bounded entry hentry

theorem OnScreen.placed (h : s.OnScreen) : Placed s.list where
  bounded := bounded_of_represents h.represents
  nodup := h.nodup

/-- What a command leaves on the screen. -/
theorem vmem_step {request : Request} (h : Represents s.memory s.list)
    (hsuits : s.Suits (.ioctl request)) :
    (s.step (.ioctl request)).memory.vmem = request.draw s.list s.memory.vmem := by
  obtain ⟨exit, hexit, -, -, hvmem, -⟩ := (conforms_iff h).mpr hsuits
  rw [step, hexit]
  exact hvmem

theorem recordAt_some {location : BitVec 16} (h : recordAt rs location = some r) :
    r ∈ rs ∧ r.location = location := by
  refine ⟨List.mem_of_find?_eq_some h, ?_⟩
  have hfound := List.find?_some h
  exact beq_iff_eq.mp hfound

theorem onScreen_add_iff (h : s.OnScreen) (user : Node) :
    (s.step (.ioctl (.add user))).OnScreen ↔ s.Draws (.ioctl (.add user)) := by
  by_cases hfits : user.location ≤ 1999 ∧ s.list.length < poolSize
  · have hlist : (s.step (.ioctl (.add user))).list = started user.toRecord :: s.list := by
      rw [step, Request.apply, if_pos hfits]
    rw [Draws, imp_iff_right hfits]
    constructor
    · intro hnext
      have hnodup := hnext.nodup
      rw [hlist, List.map_cons] at hnodup
      refine ⟨fun hzero ↦ ?_, (List.nodup_cons.mp hnodup).1⟩
      -- at location 0 the node would be in the list and free
      obtain ⟨xs, hholds, hxs⟩ := h.represents
      have hroom : xs.length ≠ poolSize := by
        intro hfull
        rw [← hxs, List.length_map, hfull] at hfits
        exact lt_irrefl _ hfits.2
      have hnot : ¬Fish.Conforms s.memory (xs.map Entry.value) (.add user) := by
        rw [conforms_add_iff hholds]
        exact fun himp ↦ hroom (himp hzero)
      obtain ⟨i, hmalloc⟩ : ∃ i, s.memory.malloc = some i :=
        Option.ne_none_iff_exists'.mp (mt hholds.malloc_eq_none_iff.mp hroom)
      have hle : ¬(2000 : BitVec 16) ≤ user.location := by
        rw [hzero]
        decide
      have hmemory : (s.step (.ioctl (.add user))).memory = (pushed s.memory i { user with
          status := 1
          countdown := user.onLength }).poke (offsetOf user.location) user.onChar := by
        simp only [step, mp1Ioctl, mp1IoctlAdd_of_free hle hmalloc, Option.map_some,
          Option.getD_some]
      have hrepresents := hnext.represents
      rw [hmemory] at hrepresents
      obtain ⟨hi, -⟩ := hholds.malloc_eq_some hmalloc
      refine not_represents_pushed hi ?_ _ _ hrepresents
      exact hzero
    · rintro ⟨hzero, hnotMem⟩
      have hsuits : s.Suits (.ioctl (.add user)) := fun heq ↦ absurd heq hzero
      have hvmem := vmem_step h.represents hsuits
      rw [Request.draw, if_pos hfits] at hvmem
      refine ⟨represents_step ((conforms_iff h.represents).mpr hsuits), ?_, ?_⟩
      · rw [hlist, List.map_cons]
        exact List.nodup_cons.mpr ⟨hnotMem, h.nodup⟩
      · rw [hlist, hvmem]
        intro r hmem
        rcases List.mem_cons.mp hmem with rfl | hmem
        · exact (Function.update_self _ _ _).trans (Blink.shown_started user.toRecord).symm
        · have hcell : cellOf r.location ≠ cellOf user.location := by
            intro heq
            have hlocation := cellOf_injOn (h.placed.bounded r hmem) hfits.1 heq
            exact hnotMem (hlocation ▸ List.mem_map_of_mem hmem)
          rw [Function.update_of_ne hcell]
          exact h.shows r hmem
  · have hsuits : s.Suits (.ioctl (.add user)) := by
      intro hzero
      have hle : user.location ≤ 1999 := by
        rw [hzero]
        decide
      obtain ⟨xs, hholds, hxs⟩ := h.represents
      have hlength := hholds.length_le
      rw [← List.length_map (f := Entry.value), hxs] at hlength
      exact Nat.le_antisymm hlength (Nat.le_of_not_lt fun hlt ↦ hfits ⟨hle, hlt⟩)
    have hlist : (s.step (.ioctl (.add user))).list = s.list := by
      rw [step, Request.apply, if_neg hfits]
      rfl
    have hvmem := vmem_step h.represents hsuits
    rw [Request.draw, if_neg hfits] at hvmem
    refine iff_of_true ⟨represents_step ((conforms_iff h.represents).mpr hsuits), ?_, ?_⟩
      fun hnot ↦ absurd hnot hfits
    · exact hlist.symm ▸ h.nodup
    · rw [hlist, hvmem]
      exact h.shows

theorem onScreen_sync_iff (h : s.OnScreen) (arg : BitVec 32) :
    (s.step (.ioctl (.sync arg))).OnScreen ↔ s.Draws (.ioctl (.sync arg)) := by
  have hsuits : s.Suits (.ioctl (.sync arg)) := trivial
  have hvmem := vmem_step h.represents hsuits
  have hrepresents := represents_step ((conforms_iff h.represents).mpr hsuits)
  have hlist : (s.step (.ioctl (.sync arg))).list = ((Request.sync arg).apply s.list).list := rfl
  rw [Request.draw] at hvmem
  rw [Request.apply] at hlist
  have hrefused : (s.step (.ioctl (.sync arg))).list = s.list →
      (s.step (.ioctl (.sync arg))).memory.vmem = s.memory.vmem →
      (s.step (.ioctl (.sync arg))).OnScreen := by
    intro hlist hvmem
    refine ⟨hrepresents, hlist.symm ▸ h.nodup, ?_⟩
    rw [hlist, hvmem]
    exact h.shows
  cases hsource : recordAt s.list (low (arg >>> 16)) with
  | none =>
    rw [hsource] at hvmem hlist
    refine iff_of_true (hrefused hlist hvmem) fun source _ hsome ↦ ?_
    rw [hsource] at hsome
    cases hsome
  | some source =>
    cases htarget : recordAt s.list (low arg) with
    | none =>
      rw [hsource, htarget] at hvmem hlist
      refine iff_of_true (hrefused hlist hvmem) fun _ target _ hsome ↦ ?_
      rw [htarget] at hsome
      cases hsome
    | some target =>
      rw [hsource, htarget] at hvmem hlist
      obtain ⟨hmem, hlocation⟩ := recordAt_some htarget
      have hshows := shows_syncAt_iff h.shows h.placed hmem source
      have hlist : (s.step (.ioctl (.sync arg))).list =
          syncAt target.location source s.list := by
        rw [hlist, hlocation]
      have hdraws : s.Draws (.ioctl (.sync arg)) ↔
          source.status = 0 ∨ target.onChar = target.offChar := by
        constructor
        · exact fun hall ↦ hall source target hsource htarget
        · intro hor source' target' hsource' htarget'
          obtain rfl := Option.some.inj (hsource.symm.trans hsource')
          obtain rfl := Option.some.inj (htarget.symm.trans htarget')
          exact hor
      rw [hdraws, ← hshows]
      constructor
      · intro hnext
        have hnext := hnext.shows
        rwa [hlist, hvmem] at hnext
      · intro hnext
        refine ⟨hrepresents, ?_, ?_⟩
        · rw [hlist, map_location_syncAt]
          exact h.nodup
        · rwa [hlist, hvmem]

/-- An event keeps all records on the screen exactly if it draws them. -/
theorem onScreen_step_iff (h : s.OnScreen) (event : Event) :
    (s.step event).OnScreen ↔ s.Draws event := by
  cases event with
  | tick =>
    have hsuits : s.Suits .tick := trivial
    have hconforms := (conforms_iff h.represents).mpr hsuits
    have hrepresents := represents_step hconforms
    obtain ⟨m', htasklet, hvmem, -⟩ := hconforms
    refine iff_of_true ⟨hrepresents, h.placed.tick.nodup, ?_⟩ trivial
    rw [step, htasklet]
    exact hvmem.symm ▸ h.shows.tick h.placed
  | ioctl request =>
    cases request with
    | add user => exact onScreen_add_iff h user
    | sync arg => exact onScreen_sync_iff h arg
    | find user =>
      have hsuits : s.Suits (.ioctl (.find user)) := trivial
      have hlist : (s.step (.ioctl (.find user))).list = s.list := by
        rw [step, Request.apply]
        cases recordAt s.list user.location with
        | none => rfl
        | some r => rfl
      refine iff_of_true ⟨?_, hlist.symm ▸ h.nodup, ?_⟩ trivial
      · exact represents_step ((conforms_iff h.represents).mpr hsuits)
      · rw [hlist, vmem_step h.represents hsuits]
        exact h.shows
    | remove arg =>
      have hsuits : s.Suits (.ioctl (.remove arg)) := trivial
      have hsublist : (s.step (.ioctl (.remove arg))).list.Sublist s.list := by
        rw [step, Request.apply]
        cases recordAt s.list (low arg) with
        | none => exact List.Sublist.refl _
        | some r => exact List.eraseP_sublist
      refine iff_of_true ⟨?_, h.nodup.sublist (hsublist.map _), ?_⟩ trivial
      · exact represents_step ((conforms_iff h.represents).mpr hsuits)
      · rw [vmem_step h.represents hsuits]
        exact fun r hmem ↦ h.shows r (hsublist.subset hmem)

end Lockstep

/-- From the empty list on, the records of the list are at different locations and show their
characters in every state of a run exactly if each event of it draws what it is to draw. -/
theorem onScreen_iff_draws (vmem : BitVec 32 → BitVec 8) (events : List Event) :
    EveryState Lockstep.step Lockstep.OnScreen (Lockstep.initial vmem) events ↔
      EveryStep Lockstep.step Lockstep.Draws (Lockstep.initial vmem) events := by
  have hstart : (Lockstep.initial vmem).OnScreen :=
    ⟨Lockstep.represents_initial vmem, List.nodup_nil, fun _ hmem ↦ absurd hmem List.not_mem_nil⟩
  exact everyState_iff_everyStep (fun _ event h ↦ Lockstep.onScreen_step_iff h event) hstart

end Sp18.Fish
