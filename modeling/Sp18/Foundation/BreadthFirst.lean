import Mathlib.Data.Finset.Card
import Mathlib.Tactic.NormNum
import Sp18.Foundation.FuelLoop

/-!
# Breadth-first search

A search that marks what it finds and stops at what has been marked before. `neighbours` gives the
vertices that can be reached from a vertex in one step, in the order in which they are tried, and
`before` is what is marked at the start.

On a finite set of vertices that the steps do not leave, the search ends. It has marked, besides
`before`, vertices with a path from the start, all their neighbours are marked, and the count is the
number of the newly marked vertices (`search_spec`). Since it stops at what has been marked before,
the newly marked vertices are those with a path from the start on which none of these lies
(`search_exact`). No vertex is queued twice (`Counted`).
-/

set_option autoImplicit false
set_option relaxedAutoImplicit false

namespace Sp18.Foundation

/-- The state of a search: the marked vertices, the queue, and how many have been queued. -/
structure BreadthFirst (Vertex : Type*) where
  marked : Finset Vertex
  queue : List Vertex
  count : ℤ

namespace BreadthFirst

variable {Vertex : Type*} [DecidableEq Vertex] (neighbours : Vertex → List Vertex)

/-- A vertex that is not marked is marked and queued. -/
def visit (s : BreadthFirst Vertex) (v : Vertex) : BreadthFirst Vertex :=
  if v ∈ s.marked then s
  else ⟨insert v s.marked, s.queue ++ [v], s.count + 1⟩

/-- The first vertex of the queue is explored. -/
def explore (s : BreadthFirst Vertex) : Option (BreadthFirst Vertex × Bool) :=
  match s.queue with
  | [] => some (s, false)
  | cur :: rest => some ((neighbours cur).foldl visit { s with queue := rest }, true)

/-- The search starts at a vertex that has not been marked before. -/
def start (before : Finset Vertex) (v : Vertex) : BreadthFirst Vertex :=
  ⟨insert v before, [v], 1⟩

/-- There is a path from one vertex to another. -/
def Path (v w : Vertex) : Prop := Relation.ReflTransGen (fun a b ↦ b ∈ neighbours a) v w

/-- The invariant of the search. The vertices that are exempt are marked, but their neighbours may
not be. -/
structure Searching (exempt : Vertex → Prop) (before vertices : Finset Vertex) (first : Vertex)
    (s : BreadthFirst Vertex) : Prop where
  before_subset : before ⊆ s.marked
  marked_subset : s.marked ⊆ vertices
  first_mem : first ∈ s.marked
  queue_marked : ∀ v ∈ s.queue, v ∈ s.marked
  queue_new : ∀ v ∈ s.queue, v ∉ before
  count_eq : (s.marked.card : ℤ) = before.card + s.count
  path : ∀ v ∈ s.marked, v ∉ before → Path neighbours first v
  explored : ∀ v ∈ s.marked, v ∉ before → v ∉ s.queue → ¬ exempt v →
    ∀ w ∈ neighbours v, w ∈ s.marked

/-- What has been marked in a search that is over. -/
structure Marks (before vertices : Finset Vertex) (first : Vertex) (s : BreadthFirst Vertex) :
    Prop where
  before_subset : before ⊆ s.marked
  marked_subset : s.marked ⊆ vertices
  first_mem : first ∈ s.marked
  count_eq : (s.marked.card : ℤ) = before.card + s.count
  path : ∀ v ∈ s.marked, v ∉ before → Path neighbours first v
  closed : ∀ v ∈ s.marked, v ∉ before → ∀ w ∈ neighbours v, w ∈ s.marked

variable {neighbours} {exempt : Vertex → Prop} {before vertices : Finset Vertex} {first : Vertex}
  {s : BreadthFirst Vertex}

theorem visit_of_mem {v : Vertex} (h : v ∈ s.marked) : s.visit v = s := if_pos h

theorem visit_of_notMem {v : Vertex} (h : v ∉ s.marked) :
    s.visit v = ⟨insert v s.marked, s.queue ++ [v], s.count + 1⟩ :=
  if_neg h

theorem marked_visit (s : BreadthFirst Vertex) (v : Vertex) :
    (s.visit v).marked = insert v s.marked := by
  by_cases h : v ∈ s.marked
  · rw [visit_of_mem h, Finset.insert_eq_of_mem h]
  · rw [visit_of_notMem h]

/-- What one round of the search does. -/
theorem explore_cases {s' : BreadthFirst Vertex} {again : Bool}
    (h : explore neighbours s = some (s', again)) :
    (again = false ∧ s.queue = [] ∧ s' = s) ∨ (again = true ∧ ∃ cur rest, s.queue = cur :: rest ∧
      s' = (neighbours cur).foldl visit { s with queue := rest }) := by
  unfold explore at h
  split at h
  · next hqueue =>
    obtain ⟨rfl, rfl⟩ := Prod.mk.inj (Option.some_inj.mp h)
    exact Or.inl ⟨rfl, hqueue, rfl⟩
  · next cur rest hqueue =>
    obtain ⟨rfl, rfl⟩ := Prod.mk.inj (Option.some_inj.mp h)
    exact Or.inr ⟨rfl, cur, rest, hqueue, rfl⟩

/-- Marked and queued vertices are added together. -/
theorem card_visit (s : BreadthFirst Vertex) (v : Vertex) :
    (s.visit v).marked.card + s.queue.length = s.marked.card + (s.visit v).queue.length := by
  by_cases h : v ∈ s.marked
  · rw [visit_of_mem h]
  · rw [visit_of_notMem h, Finset.card_insert_of_notMem h, List.length_append,
      List.length_singleton]
    omega

theorem Searching.visit (h : Searching neighbours exempt before vertices first s) {v : Vertex}
    (hmem : v ∈ vertices) (hpath : Path neighbours first v) :
    Searching neighbours exempt before vertices first (s.visit v) := by
  by_cases hmarked : v ∈ s.marked
  · rwa [visit_of_mem hmarked]
  have hnew : v ∉ before := fun hbefore ↦ hmarked (h.before_subset hbefore)
  rw [visit_of_notMem hmarked]
  constructor
  · exact h.before_subset.trans (Finset.subset_insert v s.marked)
  · exact Finset.insert_subset hmem h.marked_subset
  · exact Finset.mem_insert_of_mem h.first_mem
  · intro w hw
    rcases List.mem_append.mp hw with hw | hw
    · exact Finset.mem_insert_of_mem (h.queue_marked w hw)
    · rw [List.mem_singleton.mp hw]
      exact Finset.mem_insert_self v s.marked
  · intro w hw
    rcases List.mem_append.mp hw with hw | hw
    · exact h.queue_new w hw
    · rwa [List.mem_singleton.mp hw]
  · have hcount := h.count_eq
    rw [Finset.card_insert_of_notMem hmarked]
    push_cast
    omega
  · intro w hw hw'
    rcases Finset.mem_insert.mp hw with rfl | hw
    · exact hpath
    · exact h.path w hw hw'
  · intro w hw hw' hqueue hexempt u hu
    have hother : w ≠ v := fun heq ↦ hqueue (List.mem_append_right _ (List.mem_singleton.mpr heq))
    have hold : w ∉ s.queue := fun hmem ↦ hqueue (List.mem_append_left _ hmem)
    exact Finset.mem_insert_of_mem
      (h.explored w (Finset.mem_of_mem_insert_of_ne hw hother) hw' hold hexempt u hu)

theorem marked_visits (s : BreadthFirst Vertex) (l : List Vertex) :
    (l.foldl visit s).marked = s.marked ∪ l.toFinset := by
  induction l generalizing s with
  | nil => simp
  | cons v l ih =>
    rw [List.foldl_cons, ih, marked_visit, List.toFinset_cons, Finset.insert_union,
      Finset.union_insert]

theorem card_visits (s : BreadthFirst Vertex) (l : List Vertex) :
    (l.foldl visit s).marked.card + s.queue.length =
      s.marked.card + (l.foldl visit s).queue.length := by
  induction l generalizing s with
  | nil => rfl
  | cons v l ih =>
    have hfirst := s.card_visit v
    have hrest := ih (s.visit v)
    rw [List.foldl_cons]
    omega

theorem Searching.visits (h : Searching neighbours exempt before vertices first s)
    {l : List Vertex} (hmem : ∀ v ∈ l, v ∈ vertices) (hpath : ∀ v ∈ l, Path neighbours first v) :
    Searching neighbours exempt before vertices first (l.foldl BreadthFirst.visit s) := by
  induction l generalizing s with
  | nil => exact h
  | cons v l ih =>
    have hfirst := h.visit (hmem v List.mem_cons_self) (hpath v List.mem_cons_self)
    exact ih hfirst (fun w hw ↦ hmem w (List.mem_cons_of_mem v hw))
      fun w hw ↦ hpath w (List.mem_cons_of_mem v hw)

/-- The vertex at the head of the queue is exempt while its neighbours are visited. -/
theorem Searching.explore (hclosed : ∀ v ∈ vertices, ∀ w ∈ neighbours v, w ∈ vertices)
    (h : Searching neighbours (fun _ ↦ False) before vertices first s) {cur : Vertex}
    {rest : List Vertex} (hqueue : s.queue = cur :: rest) :
    Searching neighbours (fun _ ↦ False) before vertices first
      ((neighbours cur).foldl BreadthFirst.visit { s with queue := rest }) := by
  have hcur : cur ∈ s.queue := hqueue ▸ List.mem_cons_self
  have hpop : Searching neighbours (· = cur) before vertices first { s with queue := rest } := by
    constructor
    · exact h.before_subset
    · exact h.marked_subset
    · exact h.first_mem
    · exact fun v hv ↦ h.queue_marked v (hqueue ▸ List.mem_cons_of_mem cur hv)
    · exact fun v hv ↦ h.queue_new v (hqueue ▸ List.mem_cons_of_mem cur hv)
    · exact h.count_eq
    · exact h.path
    · intro v hv hnew hrest hother
      have hnot : v ∉ s.queue := by
        rw [hqueue, List.mem_cons]
        exact not_or.mpr ⟨hother, hrest⟩
      exact h.explored v hv hnew hnot not_false
  have hto : Path neighbours first cur :=
    h.path cur (h.queue_marked cur hcur) (h.queue_new cur hcur)
  have hvisited := hpop.visits
    (hclosed cur (h.marked_subset (h.queue_marked cur hcur))) fun v hv ↦ hto.tail hv
  have hall : ∀ w ∈ neighbours cur,
      w ∈ ((neighbours cur).foldl BreadthFirst.visit { s with queue := rest }).marked := by
    intro w hw
    rw [marked_visits]
    exact Finset.mem_union_right _ (List.mem_toFinset.mpr hw)
  refine { hvisited with explored := fun v hv hnew hnot _ w hw ↦ ?_ }
  by_cases hv' : v = cur
  · exact hall w (hv' ▸ hw)
  · exact hvisited.explored v hv hnew hnot hv' w hw

theorem searching_start (hfirst : first ∉ before) (hmem : first ∈ vertices)
    (hbefore : before ⊆ vertices) :
    Searching neighbours (fun _ ↦ False) before vertices first (start before first) := by
  have hnew : ∀ v ∈ insert first before, v ∉ before → v = first := fun v hv hnot ↦
    (Finset.mem_insert.mp hv).resolve_right hnot
  constructor
  · exact Finset.subset_insert first before
  · exact Finset.insert_subset hmem hbefore
  · exact Finset.mem_insert_self first before
  · intro v hv
    rw [List.mem_singleton.mp hv]
    exact Finset.mem_insert_self first before
  · intro v hv
    rwa [List.mem_singleton.mp hv]
  · simp only [start, Finset.card_insert_of_notMem hfirst]
    exact Nat.cast_succ before.card
  · intro v hv hnot
    rw [hnew v hv hnot]
    exact Relation.ReflTransGen.refl
  · intro v hv hnot hqueue
    exact absurd (List.mem_singleton.mpr (hnew v hv hnot)) hqueue

/-- The search ends, and what it has marked is closed and has paths from its first vertex. -/
theorem search_spec (hclosed : ∀ v ∈ vertices, ∀ w ∈ neighbours v, w ∈ vertices)
    (hfirst : first ∉ before) (hmem : first ∈ vertices) (hbefore : before ⊆ vertices) :
    ∃ fuel s, doWhile (explore neighbours) fuel (start before first) = some s ∧
      Marks neighbours before vertices first s := by
  have hstart : Searching neighbours (fun _ ↦ False) before vertices first (start before first) :=
    searching_start hfirst hmem hbefore
  have hcard : ∀ s, Searching neighbours (fun _ ↦ False) before vertices first s →
      s.marked.card ≤ vertices.card := fun s h ↦ Finset.card_le_card h.marked_subset
  have hstep : ∀ s s', Searching neighbours (fun _ ↦ False) before vertices first s →
      Iterates (fun _ ↦ explore neighbours) s s' →
      Searching neighbours (fun _ ↦ False) before vertices first s' ∧
        vertices.card - s'.marked.card + s'.queue.length <
          vertices.card - s.marked.card + s.queue.length := by
    rintro s s' hs ⟨_, hnext⟩
    rcases explore_cases hnext with ⟨hagain, -⟩ | ⟨-, cur, rest, hqueue, rfl⟩
    · cases hagain
    · have hs' := hs.explore hclosed hqueue
      have hbalance := card_visits { s with queue := rest } (neighbours cur)
      have hlow := hcard _ hs
      have hhigh := hcard _ hs'
      refine ⟨hs', ?_⟩
      rw [hqueue, List.length_cons]
      dsimp only at hbalance
      omega
  have hbody : ∀ s, ∃ next, explore neighbours s = some next := fun s ↦ by
    unfold BreadthFirst.explore
    split
    · exact ⟨_, rfl⟩
    · exact ⟨_, rfl⟩
  have hmono : FuelMono fun _ ↦ explore neighbours := fun _ _ _ _ _ h ↦ h
  obtain ⟨fuel, s, hloop⟩ := doWhile_terminates hmono _ _ hstep hstart fun s _ _ ↦ ⟨0, hbody s⟩
  refine ⟨fuel, s, hloop, ?_⟩
  -- the loop ends with an empty queue
  obtain ⟨last, hlast, hend⟩ := doWhile_last
    (Searching neighbours (fun _ ↦ False) before vertices first)
    (fun s s' hs hnext ↦ (hstep s s' hs ⟨0, hnext⟩).1) hstart hloop
  rcases explore_cases hend with ⟨-, hqueue, rfl⟩ | ⟨hagain, -⟩
  · exact ⟨hlast.before_subset, hlast.marked_subset, hlast.first_mem, hlast.count_eq, hlast.path,
      fun v hv hnew ↦ hlast.explored v hv hnew (hqueue ▸ List.not_mem_nil) not_false⟩
  · cases hagain

/-! ### Which vertices are marked -/

/-- The neighbours that have not been marked before. -/
def avoiding (neighbours : Vertex → List Vertex) (before : Finset Vertex) (v : Vertex) :
    List Vertex :=
  (neighbours v).filter fun w ↦ w ∉ before

/-- Visits to vertices that are marked change nothing. -/
theorem visits_avoiding (h : before ⊆ s.marked) (l : List Vertex) :
    (l.filter fun w ↦ w ∉ before).foldl visit s = l.foldl visit s := by
  induction l generalizing s with
  | nil => rfl
  | cons v l ih =>
    by_cases hv : v ∈ before
    · rw [List.filter_cons_of_neg (by simpa using hv), List.foldl_cons, visit_of_mem (h hv), ih h]
    · rw [List.filter_cons_of_pos (by simpa using hv), List.foldl_cons, List.foldl_cons, ih]
      rw [marked_visit]
      exact h.trans (Finset.subset_insert v s.marked)

theorem explore_avoiding (h : before ⊆ s.marked) :
    explore (avoiding neighbours before) s = explore neighbours s := by
  unfold explore
  split
  · rfl
  · next cur rest hqueue => rw [avoiding, visits_avoiding (s := { s with queue := rest }) h]

/-- The search ends, and it has marked, besides what was marked before, exactly the vertices with a
path from the first one that avoids it. -/
theorem search_exact (hclosed : ∀ v ∈ vertices, ∀ w ∈ neighbours v, w ∈ vertices)
    (hfirst : first ∉ before) (hmem : first ∈ vertices) (hbefore : before ⊆ vertices) :
    ∃ fuel s, doWhile (explore neighbours) fuel (start before first) = some s ∧
      (s.marked.card : ℤ) = before.card + s.count ∧
      ∀ v, v ∈ s.marked ↔ v ∈ before ∨ Path (avoiding neighbours before) first v := by
  have hclosed' : ∀ v ∈ vertices, ∀ w ∈ avoiding neighbours before v, w ∈ vertices :=
    fun v hv w hw ↦ hclosed v hv w (List.mem_of_mem_filter hw)
  obtain ⟨fuel, s, hloop, hmarks⟩ := search_spec hclosed' hfirst hmem hbefore
  have hstep : ∀ t t' next again, t = t' ∧ before ⊆ t'.marked →
      explore (avoiding neighbours before) t' = some (next, again) →
      ∃ next', explore neighbours t = some (next', again) ∧
        next' = next ∧ before ⊆ next.marked := by
    rintro t _ next again ⟨rfl, hsubset⟩ hnext
    refine ⟨next, (explore_avoiding hsubset).symm.trans hnext, rfl, ?_⟩
    rcases explore_cases hnext with ⟨-, -, rfl⟩ | ⟨-, cur, rest, -, rfl⟩
    · exact hsubset
    · rw [marked_visits]
      exact hsubset.trans Finset.subset_union_left
  obtain ⟨s', hloop', rfl, -⟩ := doWhile_simulation (fun t t' ↦ t = t' ∧ before ⊆ t'.marked) hstep
    ⟨rfl, Finset.subset_insert first before⟩ hloop
  refine ⟨fuel, s', hloop', hmarks.count_eq, fun v ↦ ⟨fun hv ↦ ?_, ?_⟩⟩
  · by_cases hnew : v ∈ before
    · exact Or.inl hnew
    · exact Or.inr (hmarks.path v hv hnew)
  · rintro (hv | hpath)
    · exact hmarks.before_subset hv
    · -- the vertices of the path are new, so that their neighbours are marked
      have hnew : v ∈ s'.marked ∧ v ∉ before := by
        induction hpath with
        | refl => exact ⟨hmarks.first_mem, hfirst⟩
        | tail _ hstep ih =>
          refine ⟨hmarks.closed _ ih.1 ih.2 _ hstep, ?_⟩
          simpa using List.of_mem_filter hstep
      exact hnew.1

/-! ### The length of the queue -/

/-- What has been queued so far is marked, so that there is an end to it. -/
structure Counted (vertices : Finset Vertex) (s : BreadthFirst Vertex) : Prop where
  marked_subset : s.marked ⊆ vertices
  count_nonneg : 0 ≤ s.count
  count_le : s.count ≤ s.marked.card

theorem counted_start (hmem : first ∈ vertices) (hbefore : before ⊆ vertices) :
    (start before first).Counted vertices where
  marked_subset := Finset.insert_subset hmem hbefore
  count_nonneg := one_pos.le
  count_le := by
    have hpos : 0 < (insert first before).card := Finset.card_pos.mpr ⟨first, by simp⟩
    simp only [start]
    omega

omit [DecidableEq Vertex] in
/-- As long as a vertex is not marked, the count is less than the number of the vertices. -/
theorem Counted.count_lt (h : s.Counted vertices) {v : Vertex} (hmem : v ∈ vertices)
    (hnew : v ∉ s.marked) : s.count < vertices.card := by
  have hcard := Finset.card_lt_card
    ((Finset.ssubset_iff_of_subset h.marked_subset).mpr ⟨v, hmem, hnew⟩)
  have hle := h.count_le
  omega

theorem Counted.visit (h : s.Counted vertices) {v : Vertex} (hmem : v ∈ vertices) :
    (s.visit v).Counted vertices := by
  by_cases hmarked : v ∈ s.marked
  · rwa [visit_of_mem hmarked]
  · have hnonneg := h.count_nonneg
    have hle := h.count_le
    rw [visit_of_notMem hmarked]
    refine ⟨Finset.insert_subset hmem h.marked_subset, by dsimp only; omega, ?_⟩
    rw [Finset.card_insert_of_notMem hmarked]
    push_cast
    omega

theorem Counted.visits (h : s.Counted vertices) {l : List Vertex} (hmem : ∀ v ∈ l, v ∈ vertices) :
    (l.foldl BreadthFirst.visit s).Counted vertices := by
  induction l generalizing s with
  | nil => exact h
  | cons v l ih =>
    exact ih (h.visit (hmem v List.mem_cons_self)) fun w hw ↦ hmem w (List.mem_cons_of_mem v hw)

end BreadthFirst

end Sp18.Foundation
