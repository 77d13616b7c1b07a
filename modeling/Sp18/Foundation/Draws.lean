import Sp18.Foundation.FuelLoop
import Mathlib.Data.Set.Basic

/-!
# Programs that wait for lucky draws

A program that draws random numbers until they suit it runs for ever on some tapes, and no bound for
the number of its draws can be given. What can be asked of it is that it never gets stuck: whatever
it has drawn so far, there are further draws with which it returns. This is `CanReturn`, for draws
from a set of allowed numbers. `Returns` says that a program returns after exactly the given draws,
with any fuel that is enough; the rest of the tape is then in what it returns, at the place that
`put` says.

`CanReturn` goes through a draw (`CanReturn.draw`) and from a program to what follows it
(`CanReturn.bind`). A loop has it if a measure decreases (`CanReturn.loop_of_measure`), or if each
iteration draws something and from each state the loop can be brought to its end
(`CanReturn.loop_of_luck`).
-/

set_option autoImplicit false
set_option relaxedAutoImplicit false

namespace Sp18.Foundation

/-- The tape from which these numbers are drawn first. -/
def Tape.prepend (tape : Tape) : List ℕ → Tape
  | [] => tape
  | value :: draws => fun
    | 0 => value
    | i + 1 => tape.prepend draws i

theorem Tape.prepend_append (tape : Tape) (draws draws' : List ℕ) :
    tape.prepend (draws ++ draws') = (tape.prepend draws').prepend draws := by
  induction draws with
  | nil => rfl
  | cons value draws ih =>
    funext i
    cases i with
    | zero => rfl
    | succ i => exact congrFun ih i

variable {α β γ δ : Type*}

/-- With fuel enough, `f` returns `b` after these draws. -/
def Returns (put : β → Tape → γ) (f : ℕ → Tape → Option γ) (draws : List ℕ) (b : β) : Prop :=
  ∃ fuel, ∀ fuel' ≥ fuel, ∀ rest : Tape, f fuel' (rest.prepend draws) = some (put b rest)

/-- After these numbers have been drawn, `f` has returned or there are further draws with which it
does. -/
def CanReturnAfter (allowed : Set ℕ) (put : β → Tape → γ) (f : ℕ → Tape → Option γ)
    (post : β → Prop) (drawn : List ℕ) : Prop :=
  ∃ draws b, (∀ value ∈ draws, value ∈ allowed) ∧ Returns put f draws b ∧ post b ∧
    (draws <+: drawn ∨ drawn <+: draws)

/-- This holds whatever has been drawn. -/
def CanReturn (allowed : Set ℕ) (put : β → Tape → γ) (f : ℕ → Tape → Option γ)
    (post : β → Prop) : Prop :=
  ∀ drawn : List ℕ, (∀ value ∈ drawn, value ∈ allowed) → CanReturnAfter allowed put f post drawn

section Rules

variable {allowed : Set ℕ} {put : β → Tape → γ} {f : ℕ → Tape → Option γ} {post : β → Prop}

/-- A run in which this is returned. -/
theorem Returns.exists_run {draws : List ℕ} {b : β} (h : Returns put f draws b) :
    ∃ fuel tape rest, f fuel tape = some (put b rest) := by
  obtain ⟨fuel, hreturns⟩ := h
  exact ⟨fuel, _, _, hreturns fuel le_rfl fun i ↦ i⟩

theorem CanReturn.congr {f' : ℕ → Tape → Option γ} (h : CanReturn allowed put f post)
    (heq : ∀ fuel tape, f' fuel tape = f fuel tape) : CanReturn allowed put f' post := by
  rwa [show f' = f from funext fun fuel ↦ funext (heq fuel)]

/-- What holds of all that a program returns holds of what it can return. -/
theorem CanReturn.mono {post' : β → Prop} (h : CanReturn allowed put f post)
    (himp : ∀ draws b, Returns put f draws b → post b → post' b) :
    CanReturn allowed put f post' := by
  intro drawn hdrawn
  obtain ⟨draws, b, hallowed, hreturns, hpost, hcompare⟩ := h drawn hdrawn
  exact ⟨draws, b, hallowed, hreturns, himp draws b hreturns hpost, hcompare⟩

/-- A program that draws nothing and returns. -/
theorem CanReturn.of_returns {b : β} (h : Returns put f [] b) (hpost : post b) :
    CanReturn allowed put f post :=
  fun _ _ ↦ ⟨[], b, fun _ hmem ↦ absurd hmem List.not_mem_nil, h, hpost, Or.inl List.nil_prefix⟩

/-- A program that begins with a draw. -/
theorem CanReturn.draw (hallowed : allowed.Nonempty)
    (h : ∀ value ∈ allowed, CanReturn allowed put (fun fuel tape ↦ f fuel (tape.prepend [value]))
      post) : CanReturn allowed put f post := by
  have hcons : ∀ value ∈ allowed, ∀ drawn : List ℕ, (∀ value ∈ drawn, value ∈ allowed) →
      CanReturnAfter allowed put f post (value :: drawn) := by
    intro value hvalue drawn hdrawn
    obtain ⟨draws, b, hdraws, ⟨fuel, hreturns⟩, hpost, hcompare⟩ := h value hvalue drawn hdrawn
    refine ⟨value :: draws, b, List.forall_mem_cons.mpr ⟨hvalue, hdraws⟩,
      ⟨fuel, fun fuel' hle rest ↦ ?_⟩, hpost, ?_⟩
    · rw [← List.singleton_append, Tape.prepend_append]
      exact hreturns fuel' hle rest
    · simpa only [List.cons_prefix_cons, true_and] using hcompare
  intro drawn hdrawn
  cases drawn with
  | nil =>
    obtain ⟨value, hvalue⟩ := hallowed
    obtain ⟨draws, b, hdraws, hreturns, hpost, -⟩ :=
      hcons value hvalue [] fun _ hmem ↦ absurd hmem List.not_mem_nil
    exact ⟨draws, b, hdraws, hreturns, hpost, Or.inr List.nil_prefix⟩
  | cons value drawn =>
    rw [List.forall_mem_cons] at hdrawn
    exact hcons value hdrawn.1 drawn hdrawn.2

/-- What can be returned if, after one program has returned, either all has been returned or another
program goes on. -/
theorem CanReturnAfter.append {put' : α → Tape → δ} {f' : ℕ → Tape → Option δ} {post' : α → Prop}
    {drawn : List ℕ} (h : CanReturnAfter allowed put f post drawn)
    (hnext : ∀ draws b, Returns put f draws b → post b →
      (∃ a, Returns put' f' draws a ∧ post' a) ∨
        ∃ g, (∀ left, drawn = draws ++ left → CanReturnAfter allowed put' g post' left) ∧
          CanReturnAfter allowed put' g post' [] ∧
          ∀ draws' a, Returns put' g draws' a → Returns put' f' (draws ++ draws') a) :
    CanReturnAfter allowed put' f' post' drawn := by
  obtain ⟨draws, b, hdraws, hreturns, hpost, hcompare⟩ := h
  rcases hnext draws b hreturns hpost with ⟨a, hreturns', hpost'⟩ | ⟨g, hleft, hlucky, happend⟩
  · exact ⟨draws, a, hdraws, hreturns', hpost', hcompare⟩
  · rcases hcompare with ⟨left, rfl⟩ | hlonger
    · obtain ⟨draws', a, hdraws', hreturns', hpost', hcompare'⟩ := hleft left rfl
      exact ⟨draws ++ draws', a, List.forall_mem_append.mpr ⟨hdraws, hdraws'⟩,
        happend draws' a hreturns', hpost',
        hcompare'.imp (List.prefix_append_right_inj _).mpr (List.prefix_append_right_inj _).mpr⟩
    · obtain ⟨draws', a, hdraws', hreturns', hpost', -⟩ := hlucky
      exact ⟨draws ++ draws', a, List.forall_mem_append.mpr ⟨hdraws, hdraws'⟩,
        happend draws' a hreturns', hpost', Or.inr (hlonger.trans (List.prefix_append _ _))⟩

theorem CanReturn.append {put' : α → Tape → δ} {f' : ℕ → Tape → Option δ} {post' : α → Prop}
    (h : CanReturn allowed put f post)
    (hnext : ∀ draws b, Returns put f draws b → post b →
      (∃ a, Returns put' f' draws a ∧ post' a) ∨ ∃ g, CanReturn allowed put' g post' ∧
        ∀ draws' a, Returns put' g draws' a → Returns put' f' (draws ++ draws') a) :
    CanReturn allowed put' f' post' := by
  intro drawn hdrawn
  refine (h drawn hdrawn).append fun draws b hreturns hpost ↦ ?_
  refine (hnext draws b hreturns hpost).imp_right ?_
  rintro ⟨g, hg, happend⟩
  refine ⟨g, fun left hleft ↦ hg left fun value hmem ↦ hdrawn value ?_,
    hg [] fun _ hmem ↦ absurd hmem List.not_mem_nil, happend⟩
  rw [hleft]
  exact List.mem_append_right _ hmem

theorem Returns.bind {put' : α → Tape → δ} {g : ℕ → γ → Option δ} {draws draws' : List ℕ} {b : β}
    {a : α} (h : Returns put f draws b)
    (hnext : Returns put' (fun fuel tape ↦ g fuel (put b tape)) draws' a) :
    Returns put' (fun fuel tape ↦ (f fuel tape).bind (g fuel)) (draws ++ draws') a := by
  obtain ⟨fuel, hreturns⟩ := h
  obtain ⟨fuel', hreturns'⟩ := hnext
  refine ⟨max fuel fuel', fun enough hle rest ↦ ?_⟩
  have hbefore : fuel ≤ enough := (le_max_left fuel fuel').trans hle
  have hafter : fuel' ≤ enough := (le_max_right fuel fuel').trans hle
  dsimp only
  rw [Tape.prepend_append, hreturns enough hbefore, Option.bind_some]
  exact hreturns' enough hafter rest

/-- A program after another one. -/
theorem CanReturn.bind {put' : α → Tape → δ} {g : ℕ → γ → Option δ} {post' : α → Prop}
    (h : CanReturn allowed put f post)
    (hnext : ∀ b, post b → CanReturn allowed put' (fun fuel tape ↦ g fuel (put b tape)) post') :
    CanReturn allowed put' (fun fuel tape ↦ (f fuel tape).bind (g fuel)) post' :=
  h.append fun _ b hreturns hpost ↦
    Or.inr ⟨_, hnext b hpost, fun _ _ hreturns' ↦ hreturns.bind hreturns'⟩

end Rules

/-! ### Loops -/

section Loops

variable {allowed : Set ℕ} {put : β → Tape → γ} {body : ℕ → γ → Option (γ × Bool)}
  {post : β → Prop}

/-- The place of the tape in what a body returns. -/
def putNext (put : β → Tape → γ) (next : β × Bool) (tape : Tape) : γ × Bool :=
  (put next.1 tape, next.2)

/-- An iteration from a state on. -/
def bodyFrom (put : β → Tape → γ) (body : ℕ → γ → Option (γ × Bool)) (b : β) (fuel : ℕ)
    (tape : Tape) : Option (γ × Bool) :=
  body fuel (put b tape)

/-- The loop from a state on. -/
def loopFrom (put : β → Tape → γ) (body : ℕ → γ → Option (γ × Bool)) (b : β) (fuel : ℕ)
    (tape : Tape) : Option γ :=
  doWhile (body fuel) fuel (put b tape)

/-- A body without loops needs no fuel. -/
theorem fuelMono_const (body : γ → Option (γ × Bool)) : FuelMono fun _ ↦ body :=
  fun _ _ _ _ _ hbody ↦ hbody

theorem Returns.loop_last {b b' : β} {draws : List ℕ}
    (h : Returns (putNext put) (bodyFrom put body b) draws (b', false)) :
    Returns put (loopFrom put body b) draws b' := by
  obtain ⟨fuel, hreturns⟩ := h
  refine ⟨fuel + 1, fun enough hle rest ↦ ?_⟩
  obtain ⟨more, rfl⟩ := Nat.exists_eq_add_of_le' ((Nat.le_add_left 1 fuel).trans hle)
  have hnext : body (more + 1) (put b (rest.prepend draws)) = some (put b' rest, false) :=
    hreturns (more + 1) (by omega) rest
  rw [loopFrom, doWhile, hnext]

theorem Returns.loop_again (hmono : FuelMono body) {b b' c : β} {draws draws' : List ℕ}
    (h : Returns (putNext put) (bodyFrom put body b) draws (b', true))
    (hrest : Returns put (loopFrom put body b') draws' c) :
    Returns put (loopFrom put body b) (draws ++ draws') c := by
  obtain ⟨fuel, hreturns⟩ := h
  obtain ⟨fuel', hreturns'⟩ := hrest
  refine ⟨max fuel fuel' + 1, fun enough hle rest ↦ ?_⟩
  obtain ⟨more, rfl⟩ := Nat.exists_eq_add_of_le' ((Nat.le_add_left 1 _).trans hle)
  have hnext : body (more + 1) (put b ((rest.prepend draws').prepend draws)) =
      some (put b' (rest.prepend draws'), true) := hreturns (more + 1) (by omega) _
  have hloop : doWhile (body more) more (put b' (rest.prepend draws')) = some (put c rest) :=
    hreturns' more (by omega) rest
  rw [loopFrom, Tape.prepend_append, doWhile, hnext]
  exact doWhile_mono (fun s next ↦ hmono _ _ s next (Nat.le_succ more)) le_rfl hloop

/-- The rule for loops whose iterations decrease a measure. -/
theorem CanReturn.loop_of_measure (inv : β → Prop) (hmono : FuelMono body) (measure : β → ℕ)
    (hstep : ∀ b, inv b → CanReturn allowed (putNext put) (bodyFrom put body b)
      fun next ↦ if next.2 then inv next.1 ∧ measure next.1 < measure b else post next.1)
    {b : β} (hb : inv b) : CanReturn allowed put (loopFrom put body b) post := by
  induction hn : measure b using Nat.strong_induction_on generalizing b with
  | _ n ih =>
    subst hn
    refine (hstep b hb).append fun draws next hreturns hnext ↦ ?_
    obtain ⟨b', again⟩ := next
    cases again with
    | true =>
      obtain ⟨hb', hless⟩ := hnext
      exact Or.inr ⟨_, ih (measure b') hless hb' rfl,
        fun _ _ hrest ↦ hreturns.loop_again hmono hrest⟩
    | false => exact Or.inl ⟨b', hreturns.loop_last, hnext⟩

/-- The rule for loops that draw something in each iteration and can always be brought to their
end. -/
theorem CanReturn.loop_of_luck (inv : β → Prop) (hmono : FuelMono body)
    (hreads : ∀ b next, inv b → ¬ Returns (putNext put) (bodyFrom put body b) [] next)
    (hstep : ∀ b, inv b → CanReturn allowed (putNext put) (bodyFrom put body b)
      fun next ↦ if next.2 then inv next.1 else post next.1)
    (hluck : ∀ b, inv b → ∃ draws c, (∀ value ∈ draws, value ∈ allowed) ∧
      Returns put (loopFrom put body b) draws c ∧ post c)
    {b : β} (hb : inv b) : CanReturn allowed put (loopFrom put body b) post := by
  have hlucky : ∀ b, inv b → CanReturnAfter allowed put (loopFrom put body b) post [] := by
    intro b hb
    obtain ⟨draws, c, hdraws, hreturns, hpost⟩ := hluck b hb
    exact ⟨draws, c, hdraws, hreturns, hpost, Or.inr List.nil_prefix⟩
  intro drawn hdrawn
  -- each iteration uses up some of what has been drawn
  induction hn : drawn.length using Nat.strong_induction_on generalizing b drawn with
  | _ n ih =>
    subst hn
    refine (hstep b hb drawn hdrawn).append fun draws next hreturns hnext ↦ ?_
    obtain ⟨b', again⟩ := next
    cases again with
    | true =>
      have hb' : inv b' := hnext
      refine Or.inr ⟨_, fun left hleft ↦ ?_, hlucky b' hb',
        fun _ _ hrest ↦ hreturns.loop_again hmono hrest⟩
      subst hleft
      have hdrew : draws ≠ [] := fun hnil ↦ hreads b (b', true) hb (hnil ▸ hreturns)
      have hlength := List.length_pos_iff.mpr hdrew
      refine ih left.length ?_ hb' left (fun value hmem ↦
        hdrawn value (List.mem_append_right _ hmem)) rfl
      rw [List.length_append]
      omega
    | false => exact Or.inl ⟨b', hreturns.loop_last, hnext⟩

end Loops

end Sp18.Foundation
