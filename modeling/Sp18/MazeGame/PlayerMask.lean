import Sp18.MazeGame.ViewWindow

/-!
# Drawing the player and taking it away

`mask` draws the player and saves the background in `block_mask`, and `draw_full_block` puts the
background back. Both clip the block to the window. `mask` moves the pointer to the image by what is
cut off at the left and at the top, but not the pointers to the mask and to `block_mask`
(`mask_pixel`, `mask_blockMask`), while `draw_full_block` reads `block_mask` from where the visible
part starts. So the two fit together when nothing is cut off there, and otherwise only if the mask
and the background happen to look the same at both places (`mask_restore_exact`).
-/

set_option autoImplicit false
set_option relaxedAutoImplicit false

namespace Sp18.MazeGame

open Foundation

namespace Screen

/-- The pixel `(i, j)` of a block at the given coordinates is in the window. -/
def Visible (s : Screen) (posX posY i j : ℤ) : Prop :=
  (0 ≤ i ∧ i < 12 ∧ 0 ≤ j ∧ j < 12) ∧ s.InView (posX + i) (posY + j)

instance (s : Screen) (posX posY i j : ℤ) : Decidable (s.Visible posX posY i j) :=
  inferInstanceAs (Decidable ((_ ∧ _ ∧ _ ∧ _) ∧ _ ∧ _ ∧ _ ∧ _))

/-- The player is drawn where its mask is 1 and nowhere else, and its background is put back. -/
structure SavesBackground (s : Screen) (posX posY : ℤ) (blk masking : Image) : Prop where
  shown : ∀ i j, s.Visible posX posY i j →
    (s.mask posX posY blk masking).build (s.pixelAddr (posX + i) (posY + j)) =
      if masking (j * 12 + i) = 1 then blk (j * 12 + i) else s.pixel (posX + i) (posY + j)
  others : ∀ a, (∀ i j, s.Visible posX posY i j → s.pixelAddr (posX + i) (posY + j) ≠ a) →
    (s.mask posX posY blk masking).build a = s.build a
  restored : ((s.mask posX posY blk masking).drawFullBlock posX posY
    (s.mask posX posY blk masking).blockMask).build = s.build

/-- How many columns of a block are cut off at the left of the window. -/
def cutLeft (s : Screen) (posX : ℤ) : ℤ := max 0 (s.showX - posX)

/-- How many rows of a block are cut off at the top of the window. -/
def cutTop (s : Screen) (posY : ℤ) : ℤ := max 0 (s.showY - posY)

/-- What is cut off makes no difference. At each visible pixel the mask is the same as at the pixel
that lies as far to the left and above as is cut off, or the image the same as the background. And
the background is the same as at the pixel that lies as far to the right and below, or as what
`block_mask` holds before if that pixel is not visible. -/
def CutUnnoticed (s : Screen) (posX posY : ℤ) (blk masking : Image) : Prop :=
  ∀ i j, s.Visible posX posY i j →
    ((masking ((j - s.cutTop posY) * 12 + (i - s.cutLeft posX)) = 1 ↔ masking (j * 12 + i) = 1) ∨
      blk (j * 12 + i) = s.pixel (posX + i) (posY + j)) ∧
    (if s.Visible posX posY (s.cutLeft posX + i) (s.cutTop posY + j) then
        s.pixel (posX + (s.cutLeft posX + i)) (posY + (s.cutTop posY + j))
      else s.blockMask (j * 12 + i)) = s.pixel (posX + i) (posY + j)

variable {s : Screen} {posX posY i j : ℤ} {blk masking : Image}

/-! ### What is cut off -/

theorem clip_fst (start dim pos : ℤ) : (clip start dim pos).1 = max 0 (start - pos) := by
  simp only [clip]
  split_ifs <;> omega

/-- The visible pixels of a block that is not off-screen are those of the columns and rows that are
left of it. -/
theorem visible_iff (hon : s.offScreen posX posY = false) : ∃ columns rows : ℕ, columns ≤ 12 ∧
    (clip s.showX scrollXDim posX).2 = columns ∧ (clip s.showY scrollYDim posY).2 = rows ∧
      ∀ i j, s.Visible posX posY i j ↔
        (s.cutLeft posX ≤ i ∧ i < s.cutLeft posX + columns) ∧
          s.cutTop posY ≤ j ∧ j < s.cutTop posY + rows := by
  obtain ⟨⟨hleft, hcolumns, hx⟩, htop, hrows, hy⟩ := clip_block hon
  obtain ⟨columns, hc⟩ := Int.eq_ofNat_of_zero_le hcolumns.le
  obtain ⟨rows, hr⟩ := Int.eq_ofNat_of_zero_le hrows.le
  rw [clip_fst, hc] at hx
  rw [clip_fst, hr] at hy
  refine ⟨columns, rows, ?_, hc, hr, fun i j ↦ ?_⟩
  · have hlast := (hx (max 0 (s.showX - posX) + columns - 1)).mpr (by omega)
    omega
  · have hi := hx i
    have hj := hy j
    unfold Visible InView cutLeft cutTop
    omega

/-- Nothing is visible of a block that is off-screen. -/
theorem not_visible (hoff : s.offScreen posX posY = true) : ¬s.Visible posX posY i j := by
  rintro ⟨hblock, hview⟩
  rw [inView_iff] at hview
  have hon := (offScreen_eq_false_iff s posX posY).mpr (by omega)
  rw [hon] at hoff
  exact Bool.false_ne_true hoff

/-! ### What `mask` does -/

/-- The loops of `mask`, for a player that is not off-screen. -/
theorem mask_eq_maskRows (hon : s.offScreen posX posY = false) {columns rows : ℕ}
    (hcolumns : (clip s.showX scrollXDim posX).2 = columns)
    (hrows : (clip s.showY scrollYDim posY).2 = rows) : s.mask posX posY blk masking =
      maskRows (posX + s.cutLeft posX) (posY + s.cutTop posY)
        (fun i ↦ blk (s.cutLeft posX + s.cutTop posY * 12 + i)) masking columns s rows := by
  rw [mask_of_on hon hcolumns, hrows, clip_fst, clip_fst, Int.toNat_natCast]
  rfl

/-- The loops stay in the window. -/
theorem inView_of_visible {columns rows : ℕ} (hvisible : ∀ i j, s.Visible posX posY i j ↔
    (s.cutLeft posX ≤ i ∧ i < s.cutLeft posX + columns) ∧
      s.cutTop posY ≤ j ∧ j < s.cutTop posY + rows) : ∀ dy < rows, ∀ dx < columns,
    s.InView (posX + s.cutLeft posX + (dx : ℕ)) (posY + s.cutTop posY + (dy : ℕ)) := by
  intro dy hdy dx hdx
  have hview := ((hvisible (s.cutLeft posX + dx) (s.cutTop posY + dy)).mpr (by omega)).2
  rwa [← add_assoc, ← add_assoc] at hview

/-- A visible pixel is drawn by the value of the mask that lies as far to the left and above as is
cut off. -/
theorem mask_pixel (h : s.Visible posX posY i j) :
    (s.mask posX posY blk masking).build (s.pixelAddr (posX + i) (posY + j)) =
      if masking ((j - s.cutTop posY) * 12 + (i - s.cutLeft posX)) = 1 then blk (j * 12 + i)
      else s.pixel (posX + i) (posY + j) := by
  have hon : s.offScreen posX posY = false :=
    Bool.eq_false_iff.mpr fun hoff ↦ not_visible hoff h
  obtain ⟨columns, rows, -, hcolumns, hrows, hvisible⟩ := visible_iff hon
  obtain ⟨⟨hi0, hi1⟩, hj0, hj1⟩ := (hvisible i j).mp h
  obtain ⟨dx, hdx⟩ := Int.eq_ofNat_of_zero_le (sub_nonneg.mpr hi0)
  obtain ⟨dy, hdy⟩ := Int.eq_ofNat_of_zero_le (sub_nonneg.mpr hj0)
  have hx : posX + i = posX + s.cutLeft posX + dx := by omega
  have hy : posY + j = posY + s.cutTop posY + dy := by omega
  have himage : s.cutLeft posX + s.cutTop posY * 12 + (dy * 12 + dx) = j * 12 + i := by omega
  rw [mask_eq_maskRows hon hcolumns hrows, hx, hy,
    maskRows_pixel (inView_of_visible hvisible) (by omega) (by omega), himage, hdx, hdy]

/-- The other bytes of the buffer stay as they are. -/
theorem mask_build {a : ℤ}
    (h : ∀ i j, s.Visible posX posY i j → s.pixelAddr (posX + i) (posY + j) ≠ a) :
    (s.mask posX posY blk masking).build a = s.build a := by
  cases hoff : s.offScreen posX posY with
  | true => rw [mask, if_pos hoff]
  | false =>
    obtain ⟨columns, rows, -, hcolumns, hrows, hvisible⟩ := visible_iff hoff
    rw [mask_eq_maskRows hoff hcolumns hrows]
    refine maskRows_build fun dy hdy dx hdx ↦ ?_
    rw [add_assoc posX, add_assoc posY]
    exact h _ _ ((hvisible _ _).mpr (by omega))

/-- The background is saved as far to the left and above as is cut off, and the rest of
`block_mask` stays as it is. -/
theorem mask_blockMask (h : s.Visible posX posY i j) :
    (s.mask posX posY blk masking).blockMask (j * 12 + i) =
      if s.Visible posX posY (s.cutLeft posX + i) (s.cutTop posY + j) then
        s.pixel (posX + (s.cutLeft posX + i)) (posY + (s.cutTop posY + j))
      else s.blockMask (j * 12 + i) := by
  have hon : s.offScreen posX posY = false :=
    Bool.eq_false_iff.mpr fun hoff ↦ not_visible hoff h
  obtain ⟨columns, rows, htwelve, hcolumns, hrows, hvisible⟩ := visible_iff hon
  obtain ⟨hi0, hi1, hj0, hj1⟩ := h.1
  obtain ⟨dx, rfl⟩ := Int.eq_ofNat_of_zero_le hi0
  obtain ⟨dy, rfl⟩ := Int.eq_ofNat_of_zero_le hj0
  have hsaved := hvisible (s.cutLeft posX + dx) (s.cutTop posY + dy)
  rw [mask_eq_maskRows hon hcolumns hrows]
  split_ifs with hshifted
  · have hrange := hsaved.mp hshifted
    rw [maskRows_blockMask htwelve (inView_of_visible hvisible) (by omega) (by omega),
      add_assoc, add_assoc]
  · rw [hsaved] at hshifted
    exact maskRows_blockMask_outside fun dy' hdy' ↦ by omega

/-! ### The round trip -/

/-- The background is put back if `block_mask` has it at the pixels that are visible. -/
theorem restored_iff (s : Screen) (posX posY : ℤ) (blk masking : Image) :
    ((s.mask posX posY blk masking).drawFullBlock posX posY
        (s.mask posX posY blk masking).blockMask).build = s.build ↔
      ∀ i j, s.Visible posX posY i j →
        (s.mask posX posY blk masking).blockMask (j * 12 + i) = s.pixel (posX + i) (posY + j) := by
  have hwindow := mask_sameWindow s posX posY blk masking
  have hdrawn : ∀ i j, s.Visible posX posY i j →
      ((s.mask posX posY blk masking).drawFullBlock posX posY
        (s.mask posX posY blk masking).blockMask).build (s.pixelAddr (posX + i) (posY + j)) =
          (s.mask posX posY blk masking).blockMask (j * 12 + i) := by
    intro i j hvisible
    have hpixel : ((s.mask posX posY blk masking).drawFullBlock posX posY
        (s.mask posX posY blk masking).blockMask).pixel (posX + i) (posY + j) = _ :=
      drawFullBlock_pixel ((hwindow.inView_iff _ _).mpr hvisible.2)
    have hblock := hvisible.1
    rw [if_pos (by omega), add_sub_cancel_left, add_sub_cancel_left, pixel,
      (drawFullBlock_sameWindow _ _ _ _).pixelAddr, hwindow.pixelAddr] at hpixel
    exact hpixel
  constructor
  · intro hrestored i j hvisible
    rw [← hdrawn i j hvisible, hrestored, pixel]
  · intro hsaved
    funext a
    by_cases hpixel : ∃ i j, s.Visible posX posY i j ∧ s.pixelAddr (posX + i) (posY + j) = a
    · obtain ⟨i, j, hvisible, rfl⟩ := hpixel
      rw [hdrawn i j hvisible, hsaved i j hvisible, pixel]
    · have hother : ∀ i j, s.Visible posX posY i j → s.pixelAddr (posX + i) (posY + j) ≠ a :=
        fun i j hvisible heq ↦ hpixel ⟨i, j, hvisible, heq⟩
      rw [drawFullBlock_of_ne fun x y hview hx0 hx1 hy0 hy1 ↦ ?_, mask_build hother]
      have hne := hother (x - posX) (y - posY)
      rw [add_sub_cancel, add_sub_cancel] at hne
      rw [hwindow.pixelAddr]
      refine hne ⟨by omega, ?_⟩
      rw [add_sub_cancel, add_sub_cancel]
      exact (hwindow.inView_iff x y).mp hview

/-- Where nothing is cut off at the left and at the top, nothing can be noticed. -/
theorem cutUnnoticed_of_le (hleft : s.showX ≤ posX) (htop : s.showY ≤ posY) :
    s.CutUnnoticed posX posY blk masking := by
  have hcutLeft : s.cutLeft posX = 0 := max_eq_left (by omega)
  have hcutTop : s.cutTop posY = 0 := max_eq_left (by omega)
  intro i j hvisible
  rw [hcutLeft, hcutTop, sub_zero, sub_zero, zero_add, zero_add, if_pos hvisible]
  exact ⟨Or.inl Iff.rfl, rfl⟩

/-- The player is drawn and taken away as it should be exactly if it is not cut off at the left and
at the top of the window, or if this cannot be noticed. -/
theorem mask_restore_exact (s : Screen) (posX posY : ℤ) (blk masking : Image) :
    s.SavesBackground posX posY blk masking ↔
      (s.showX ≤ posX ∧ s.showY ≤ posY) ∨ s.CutUnnoticed posX posY blk masking := by
  have hunnoticed : s.SavesBackground posX posY blk masking ↔
      s.CutUnnoticed posX posY blk masking := by
    constructor
    · intro hsaves i j hvisible
      refine ⟨?_, ?_⟩
      · have hshown := hsaves.shown i j hvisible
        rw [mask_pixel hvisible] at hshown
        split_ifs at hshown with hcut hhere hhere
        · exact Or.inl (iff_of_true hcut hhere)
        · exact Or.inr hshown
        · exact Or.inr hshown.symm
        · exact Or.inl (iff_of_false hcut hhere)
      · rw [← mask_blockMask hvisible]
        exact (restored_iff s posX posY blk masking).mp hsaves.restored i j hvisible
    · intro hcut
      refine ⟨fun i j hvisible ↦ ?_, fun a hne ↦ mask_build hne,
        (restored_iff s posX posY blk masking).mpr fun i j hvisible ↦ ?_⟩
      · rw [mask_pixel hvisible]
        rcases (hcut i j hvisible).1 with hsame | himage
        · simp only [hsame]
        · rw [himage, ite_self, ite_self]
      · rw [mask_blockMask hvisible]
        exact (hcut i j hvisible).2
  rw [hunnoticed]
  refine ⟨Or.inr, fun h ↦ h.elim (fun hwhole ↦ ?_) id⟩
  exact cutUnnoticed_of_le hwhole.1 hwhole.2

/-- The player is cut off by one column at the left, on a background of ones. The last visible
column of the background is not saved, and the byte that `block_mask` holds is drawn. -/
theorem mask_restore_not_always :
    let s : Screen := ⟨fun _ ↦ 1, buildBaseInit, 1, 0, fun _ ↦ 0⟩
    s.InBuffer ∧ ¬s.SavesBackground 0 0 (fun _ ↦ 0) (fun _ ↦ 0) := by
  intro s
  refine ⟨(windowFits_iff s).mp (by decide), fun hsaves ↦ ?_⟩
  have hvisible : s.Visible 0 0 11 0 := by decide
  have hsaved := (restored_iff s 0 0 _ _).mp hsaves.restored 11 0 hvisible
  rw [mask_blockMask hvisible, if_neg (by decide)] at hsaved
  exact absurd hsaved (by decide)

end Screen

end Sp18.MazeGame
