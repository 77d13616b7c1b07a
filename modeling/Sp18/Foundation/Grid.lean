import Mathlib.Data.Finset.Prod
import Mathlib.Data.Int.Cast.Basic
import Mathlib.Logic.Function.Iterate
import Mathlib.Tactic.Linarith
import Mathlib.Tactic.Ring

/-!
# Rectangular grids

The points of a grid of width `w` and height `h`, which points are adjacent, and the order from left
to right and from top to bottom.

A property that is passed on between adjacent points holds everywhere if it holds anywhere
(`grid_connected`), so that a set of points that is neither empty nor the whole grid has a point
with a neighbour outside of it. Going through the grid in its order, from the last point on to the
first one, one gets to each point within as many steps as the grid has points (`exists_scan`).
-/

set_option autoImplicit false
set_option relaxedAutoImplicit false

namespace Sp18.Foundation

/-- The points of a grid. -/
def grid (w h : ℤ) : Finset (ℤ × ℤ) :=
  (Finset.range w.toNat ×ˢ Finset.range h.toNat).image fun p ↦ ((p.1 : ℤ), (p.2 : ℤ))

/-- The four neighbours of a point: above, to the right, below and to the left. -/
def neighbours4 (p : ℤ × ℤ) : List (ℤ × ℤ) :=
  [(p.1, p.2 - 1), (p.1 + 1, p.2), (p.1, p.2 + 1), (p.1 - 1, p.2)]

variable {w h : ℤ} {p q : ℤ × ℤ}

theorem mem_grid : p ∈ grid w h ↔ (0 ≤ p.1 ∧ p.1 < w) ∧ 0 ≤ p.2 ∧ p.2 < h := by
  simp only [grid, Finset.mem_image, Finset.mem_product, Finset.mem_range]
  constructor
  · rintro ⟨q, hq, rfl⟩
    dsimp only
    omega
  · intro hp
    refine ⟨(p.1.toNat, p.2.toNat), ⟨by omega, by omega⟩, Prod.ext ?_ ?_⟩
    · exact Int.toNat_of_nonneg hp.1.1
    · exact Int.toNat_of_nonneg hp.2.1

theorem card_grid (w h : ℤ) : (grid w h).card = w.toNat * h.toNat := by
  have hinj : Function.Injective fun p : ℕ × ℕ ↦ ((p.1 : ℤ), (p.2 : ℤ)) := by
    intro p q heq
    simp only [Prod.mk.injEq, Nat.cast_inj] at heq
    exact Prod.ext heq.1 heq.2
  rw [grid, Finset.card_image_of_injective _ hinj, Finset.card_product, Finset.card_range,
    Finset.card_range]

theorem mem_neighbours4 : q ∈ neighbours4 p ↔
    q.1 = p.1 ∧ (q.2 = p.2 - 1 ∨ q.2 = p.2 + 1) ∨ q.2 = p.2 ∧ (q.1 = p.1 - 1 ∨ q.1 = p.1 + 1) := by
  simp only [neighbours4, List.mem_cons, Prod.ext_iff, List.not_mem_nil, or_false]
  tauto

theorem neighbours4_symm (h : q ∈ neighbours4 p) : p ∈ neighbours4 q := by
  rw [mem_neighbours4] at *
  omega

section Connected

variable {P : ℤ × ℤ → Prop}

/-- Along a line of adjacent points, a property goes from each to each. -/
theorem line_connected {n : ℤ} {P : ℤ → Prop} {a b : ℤ} (ha : 0 ≤ a ∧ a < n) (hb : 0 ≤ b ∧ b < n)
    (hstart : P a) (hup : ∀ i, 0 ≤ i → i + 1 < n → P i → P (i + 1))
    (hdown : ∀ i, 0 < i → i < n → P i → P (i - 1)) : P b := by
  rcases le_total a b with hle | hle
  · have hall : b < n → P b := by
      induction b, hle using Int.leInduction with
      | base => exact fun _ ↦ hstart
      | succ i hi ih => exact fun hlt ↦ hup i (by omega) hlt (ih ⟨by omega, by omega⟩ (by omega))
    exact hall hb.2
  · have hall : 0 ≤ b → P b := by
      induction b, hle using Int.leInductionDown with
      | base => exact fun _ ↦ hstart
      | pred i hi ih =>
        intro hlow
        exact hdown i (by omega) (by omega) (ih ⟨by omega, by omega⟩ (by omega))
    exact hall hb.1

/-- A grid is connected. -/
theorem grid_connected (hp : p ∈ grid w h) (hstart : P p)
    (hstep : ∀ a ∈ grid w h, P a → ∀ b ∈ grid w h, b ∈ neighbours4 a → P b) (hq : q ∈ grid w h) :
    P q := by
  obtain ⟨hpx, hpy⟩ := mem_grid.mp hp
  obtain ⟨hqx, hqy⟩ := mem_grid.mp hq
  have hmove : ∀ {a b c d : ℤ}, P (a, b) → (0 ≤ a ∧ a < w) ∧ 0 ≤ b ∧ b < h →
      (0 ≤ c ∧ c < w) ∧ 0 ≤ d ∧ d < h → (c, d) ∈ neighbours4 (a, b) → P (c, d) :=
    fun ha hab hcd hadj ↦ hstep _ (mem_grid.mpr hab) ha _ (mem_grid.mpr hcd) hadj
  -- first along the row of `p`, then along the column of `q`
  have hrow : P (q.1, p.2) := by
    refine line_connected (P := fun x ↦ P (x, p.2)) hpx hqx hstart ?_ ?_
    · intro x hx hx' hPx
      exact hmove hPx (by omega) (by omega) (mem_neighbours4.mpr (by simp))
    · intro x hx hx' hPx
      exact hmove hPx (by omega) (by omega) (mem_neighbours4.mpr (by simp))
  refine line_connected (P := fun y ↦ P (q.1, y)) hpy hqy hrow ?_ ?_
  · intro y hy hy' hPy
    exact hmove hPy (by omega) (by omega) (mem_neighbours4.mpr (by simp))
  · intro y hy hy' hPy
    exact hmove hPy (by omega) (by omega) (mem_neighbours4.mpr (by simp))

/-- A set that is neither empty nor everything touches its complement. -/
theorem exists_boundary (hp : p ∈ grid w h) (hin : P p) (hq : q ∈ grid w h) (hout : ¬ P q) :
    ∃ a ∈ grid w h, ¬ P a ∧ ∃ b ∈ grid w h, P b ∧ b ∈ neighbours4 a := by
  by_contra hnone
  refine hout (grid_connected hp hin (fun a ha hPa b hb hadj ↦ ?_) hq)
  by_contra hPb
  exact hnone ⟨b, hb, hPb, a, ha, hPa, neighbours4_symm hadj⟩

end Connected

/-! ### The order of the points -/

/-- The next point of a row, or the first point of the next row, or of the first. -/
def scanNext (w h : ℤ) (p : ℤ × ℤ) : ℤ × ℤ :=
  if p.1 + 1 < w then (p.1 + 1, p.2)
  else if p.2 + 1 < h then (0, p.2 + 1)
  else (0, 0)

/-- The number of a point in the order. -/
def scanNumber (w : ℤ) (p : ℤ × ℤ) : ℤ := p.2 * w + p.1

theorem scanNext_mem (hp : p ∈ grid w h) : scanNext w h p ∈ grid w h := by
  rw [mem_grid] at *
  rw [scanNext]
  split_ifs <;> (dsimp only; omega)

theorem scanNumber_bounds (hp : p ∈ grid w h) :
    0 ≤ scanNumber w p ∧ scanNumber w p < w * h := by
  obtain ⟨⟨hx, hx'⟩, hy, hy'⟩ := mem_grid.mp hp
  rw [scanNumber]
  constructor
  · nlinarith
  · nlinarith

theorem scanNumber_inj (hp : p ∈ grid w h) (hq : q ∈ grid w h)
    (heq : scanNumber w p = scanNumber w q) : p = q := by
  obtain ⟨⟨hx, hx'⟩, -, -⟩ := mem_grid.mp hp
  obtain ⟨⟨hu, hu'⟩, -, -⟩ := mem_grid.mp hq
  rw [scanNumber, scanNumber] at heq
  have hrow : p.2 = q.2 := by
    by_contra hne
    rcases lt_or_gt_of_ne hne with hlt | hgt
    · nlinarith
    · nlinarith
  have hcol : p.1 = q.1 := by
    rw [hrow] at heq
    omega
  exact Prod.ext hcol hrow

theorem scanNumber_next (hp : p ∈ grid w h) :
    scanNumber w (scanNext w h p) = (scanNumber w p + 1) % (w * h) := by
  have hbounds := scanNumber_bounds hp
  have hbounds' := scanNumber_bounds (scanNext_mem hp)
  obtain ⟨⟨hx, hx'⟩, hy, hy'⟩ := mem_grid.mp hp
  have hwrap : scanNumber w (scanNext w h p) = scanNumber w p + 1 ∨
      scanNumber w (scanNext w h p) = 0 ∧ scanNumber w p + 1 = w * h := by
    simp only [scanNext, scanNumber]
    split_ifs with hright hbelow
    · left
      ring
    · left
      have hlast : p.1 + 1 = w := by omega
      dsimp only
      linarith
    · right
      have hlast : p.1 + 1 = w := by omega
      have hbottom : p.2 = h - 1 := by omega
      dsimp only
      constructor
      · ring
      · rw [hbottom]
        linarith
  rcases hwrap with hnext | ⟨hzero, hend⟩
  · rw [hnext, Int.emod_eq_of_lt (by omega) (by omega)]
  · rw [hzero, hend, Int.emod_self]

theorem scanNumber_iterate (hp : p ∈ grid w h) (k : ℕ) :
    (scanNext w h)^[k] p ∈ grid w h ∧
      scanNumber w ((scanNext w h)^[k] p) = (scanNumber w p + k) % (w * h) := by
  induction k with
  | zero =>
    obtain ⟨hlow, hhigh⟩ := scanNumber_bounds hp
    exact ⟨hp, by simp [Int.emod_eq_of_lt hlow hhigh]⟩
  | succ k ih =>
    rw [Function.iterate_succ_apply']
    refine ⟨scanNext_mem ih.1, ?_⟩
    rw [scanNumber_next ih.1, ih.2, Int.emod_add_emod]
    push_cast
    ring_nf

/-- Every point comes up in the order, starting anywhere. -/
theorem exists_scan (hp : p ∈ grid w h) (hq : q ∈ grid w h) :
    ∃ k : ℕ, (k : ℤ) < w * h ∧ (scanNext w h)^[k + 1] p = q := by
  obtain ⟨hlow, hhigh⟩ := scanNumber_bounds hp
  obtain ⟨hlow', hhigh'⟩ := scanNumber_bounds hq
  have hpos : 0 < w * h := by omega
  -- the number of steps, less one
  have hnonneg := Int.emod_nonneg (scanNumber w q - scanNumber w p - 1) hpos.ne'
  have hlt := Int.emod_lt_of_pos (scanNumber w q - scanNumber w p - 1) hpos
  refine ⟨((scanNumber w q - scanNumber w p - 1) % (w * h)).toNat, by omega, ?_⟩
  obtain ⟨hmem, hnumber⟩ := scanNumber_iterate hp
    (((scanNumber w q - scanNumber w p - 1) % (w * h)).toNat + 1)
  refine scanNumber_inj hmem hq (hnumber.trans ?_)
  push_cast
  rw [Int.toNat_of_nonneg hnonneg]
  have hsum : scanNumber w p + ((scanNumber w q - scanNumber w p - 1) % (w * h) + 1) =
      scanNumber w p + 1 + (scanNumber w q - scanNumber w p - 1) % (w * h) := by ring
  rw [hsum, Int.add_emod_emod]
  have hend : scanNumber w p + 1 + (scanNumber w q - scanNumber w p - 1) = scanNumber w q := by ring
  rw [hend, Int.emod_eq_of_lt hlow' hhigh']

end Sp18.Foundation
