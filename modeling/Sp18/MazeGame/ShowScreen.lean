import Sp18.Foundation.StepSystem
import Sp18.MazeGame.ViewWindow
import Mathlib.Data.Nat.Bitwise
import Mathlib.Tactic.IntervalCases

/-!
# Showing the window

`show_screen` and `copy_image`: the four planes of the window are copied from the build buffer to
the page of the video memory that is not displayed, and then the display is moved to this page. The
pages start at `0x05A0` and `0x45A0`, behind the status bar.

The planes stand in the buffer in reverse order, and those that a window with a column that is no
multiple of four shifts begin one byte later. `planeAddr_add` says that the byte of a pixel goes to
its place in its video plane (`showScreen_exact`).

`copy_image` copies the 16000 bytes of a plane of 200 rows, although the window has 182 rows only.
Near the end of the buffer, which `set_view_window` lets the window move to, the last rows that are
copied lie behind the array (`showScreen_reads_exact`).
-/

set_option autoImplicit false
set_option relaxedAutoImplicit false

namespace Sp18.MazeGame

open Foundation

/-- `MEM_FENCE_MAGIC` -/
def memFenceMagic : UInt8 := 243

/-- The size of the array `build`. -/
def buildSize : ℤ := buildBufSize + 2 * memFenceWidth

/-- The number of bytes that `copy_image` copies. -/
def copySize : ℤ := 16000

/-- `mode_X_CRTC`: the number of a register stands in the low byte, and its value in the high
byte. -/
def modeXCrtc : List ℕ :=
  [0x5F00, 0x4F01, 0x5002, 0x8203, 0x5404, 0x8005, 0xBF06, 0x1F07, 0x0008, 0x0109, 0x000A, 0x000B,
    0x000C, 0x000D, 0x000E, 0x000F, 0x9C10, 0x8E11, 0x8F12, 0x2813, 0x0014, 0x9615, 0xB916, 0xE317,
    0x6B18]

/-- The part of `set_mode_X` that prepares the build buffer. -/
def Screen.setModeX (s : Screen) : Screen :=
  { s with
    showX := 0
    showY := 0
    img3Off := buildBaseInit
    build := memcpy (memcpy s.build 0 (fun _ ↦ memFenceMagic) 0 memFenceWidth)
      (buildBufSize + memFenceWidth) (fun _ ↦ memFenceMagic) 0 memFenceWidth }

/-- The video memory by planes, the write mask of the planes, the registers of the CRT controller,
and `target_img`. -/
structure Video where
  planes : ℕ → ℤ → UInt8
  writeMask : ℕ
  crtc : ℕ → ℕ
  targetImg : ℕ

namespace Video

/-- What the rest of `set_mode_X` leaves. -/
def modeX : Video where
  planes _ _ := 0
  writeMask := 15
  crtc i := modeXCrtc.getD i 0 / 256
  targetImg := 0x05A0

/-- `SET_WRITE_MASK` -/
def setWriteMask (v : Video) (maskHiBits : ℕ) : Video :=
  { v with writeMask := maskHiBits / 256 % 16 }

/-- `OUTW` to the port `0x03D4` -/
def outCrtc (v : Video) (val : ℕ) : Video :=
  { v with crtc := Function.update v.crtc (val % 256) (val / 256 % 256) }

/-- `copy_image` from the build buffer -/
def copyImage (v : Video) (build : ℤ → UInt8) (img : ℤ) (scrAddr : ℕ) : Video :=
  { v with planes := fun plane ↦
      if v.writeMask.testBit plane then memcpy (v.planes plane) scrAddr build img copySize
      else v.planes plane }

/-- The offset in the video memory of what is displayed first. -/
def startAddress (v : Video) : ℕ := v.crtc 0x0C * 256 + v.crtc 0x0D

end Video

namespace Screen

/-- The source address of `show_screen` for video plane `i`. -/
def planeAddr (s : Screen) (i : ℕ) : ℤ :=
  let pOff := 3 - s.showX % 4
  let addr := s.img3 + s.showX / 4 + s.showY * scrollXWidth
  addr + (pOff - i + 4) % 4 * scrollSize + (if pOff < i then 1 else 0)

/-- The loop of `show_screen`. -/
def showPlanes (s : Screen) (v : Video) : ℕ → Video
  | 0 => v
  | i + 1 =>
    let v := (s.showPlanes v i).setWriteMask (1 <<< (i + 8))
    v.copyImage s.build (s.planeAddr i) v.targetImg

/-- `show_screen` -/
def showScreen (s : Screen) (v : Video) : Video :=
  let v := s.showPlanes { v with targetImg := v.targetImg ^^^ 0x4000 } 4
  let v := v.outCrtc ((v.targetImg &&& 0xFF00) ||| 0x0C)
  v.outCrtc (((v.targetImg &&& 0x00FF) <<< 8) ||| 0x0D)

end Screen

/-- A call of `show_screen`, or anything else that stores to the video memory. -/
inductive VideoEvent where
  | display (s : Screen)
  | store (planes : ℕ → ℤ → UInt8) (writeMask : ℕ)

/-- The state of the display after an event. -/
def Video.step (v : Video) : VideoEvent → Video
  | .display s => s.showScreen v
  | .store planes writeMask => { v with planes := planes, writeMask := writeMask }

/-- `show_screen` displays the window: each pixel is in its plane of the new page, the display
starts there, and nothing is copied to the old page or to the status bar. -/
structure ShowsWindow (s : Screen) (v v' : Video) : Prop where
  pixel : ∀ c < 320, ∀ r < 182, v'.planes (c % 4) (v'.targetImg + 80 * (r : ℕ) + (c / 4 : ℕ)) =
    s.pixel (s.showX + (c : ℕ)) (s.showY + (r : ℕ))
  shown : v'.startAddress = v'.targetImg
  kept : ∀ plane (a : ℤ), a < v'.targetImg ∨ v'.targetImg + copySize ≤ a →
    v'.planes plane a = v.planes plane a
  apart : ∀ a : ℤ, v'.targetImg ≤ a → a < v'.targetImg + copySize →
    1440 ≤ a ∧ a < 65536 ∧ ¬(v.startAddress ≤ a ∧ a < v.startAddress + 0x4000)

/-- The target is one of the two pages, and it is displayed, unless nothing has been shown yet. -/
structure Video.Ready (v : Video) : Prop where
  page : v.targetImg = 0x05A0 ∨ v.targetImg = 0x45A0
  start : v.startAddress = v.targetImg ∨ v.startAddress = 0 ∧ v.targetImg = 0x05A0

/-- The four plane copies of `show_screen` read bytes of the array `build` only. -/
def Screen.ReadsInside (s : Screen) : Prop :=
  ∀ i < 4, ∀ k, 0 ≤ k → k < copySize → 0 ≤ s.planeAddr i + k ∧ s.planeAddr i + k < buildSize

/-! ### The copied planes -/

/-- The two stores to the CRT controller move the display to a page. -/
theorem Video.startAddress_outCrtc (v : Video) {page : ℕ} (hpage : page = 0x05A0 ∨ page = 0x45A0) :
    ((v.outCrtc ((page &&& 0xFF00) ||| 0x0C)).outCrtc
      (((page &&& 0x00FF) <<< 8) ||| 0x0D)).startAddress = page := by
  rcases hpage with rfl | rfl
  · simp [startAddress, outCrtc]
  · simp [startAddress, outCrtc]

namespace Screen

variable {s : Screen} {v : Video}

/-- The byte of a pixel in the plane that `show_screen` copies for its column. -/
theorem planeAddr_add (s : Screen) (c r : ℕ) :
    s.planeAddr (c % 4) + (80 * (r : ℕ) + (c / 4 : ℕ)) =
      s.pixelAddr (s.showX + c) (s.showY + r) := by
  have hconst : scrollXWidth = 80 ∧ scrollSize = 14560 := ⟨rfl, rfl⟩
  simp only [planeAddr, pixelAddr, hconst]
  split_ifs <;> omega

/-- The write mask selects one plane. -/
theorem writeMask_testBit {i : ℕ} (hi : i < 4) (plane : ℕ) :
    ((1 <<< (i + 8)) / 256 % 16).testBit plane = decide (i = plane) := by
  have hmask : (1 <<< (i + 8)) / 256 % 16 = 2 ^ i := by
    interval_cases i <;> rfl
  rw [hmask, Nat.testBit_two_pow]

/-- What the first iterations of the loop of `show_screen` have done. -/
theorem showPlanes_eq (s : Screen) (v : Video) {count : ℕ} (hcount : count ≤ 4) :
    (s.showPlanes v count).targetImg = v.targetImg ∧ (s.showPlanes v count).crtc = v.crtc ∧
      ∀ plane, (s.showPlanes v count).planes plane =
        if plane < count then
          memcpy (v.planes plane) v.targetImg s.build (s.planeAddr plane) copySize
        else v.planes plane := by
  induction count with
  | zero => exact ⟨rfl, rfl, fun plane ↦ (if_neg (Nat.not_lt_zero plane)).symm⟩
  | succ i ih =>
    obtain ⟨htarget, hcrtc, hplanes⟩ := ih (by omega)
    refine ⟨htarget, hcrtc, fun plane ↦ ?_⟩
    simp only [showPlanes, Video.copyImage, Video.setWriteMask, htarget, hplanes,
      writeMask_testBit (by omega : i < 4), decide_eq_true_eq]
    by_cases hplane : i = plane
    · rw [if_pos hplane, if_neg (by omega), if_pos (by omega), hplane]
    · rw [if_neg hplane]
      split_ifs <;> first | rfl | omega

/-- What `show_screen` leaves for a target in one of the two pages. -/
theorem showScreen_eq (s : Screen) (hpage : v.targetImg = 0x05A0 ∨ v.targetImg = 0x45A0) :
    (s.showScreen v).targetImg = v.targetImg ^^^ 0x4000 ∧
      (s.showScreen v).startAddress = v.targetImg ^^^ 0x4000 ∧
      ∀ plane, (s.showScreen v).planes plane =
        if plane < 4 then memcpy (v.planes plane) (v.targetImg ^^^ 0x4000 : ℕ) s.build
          (s.planeAddr plane) copySize
        else v.planes plane := by
  obtain ⟨htarget, -, hplanes⟩ :=
    showPlanes_eq s { v with targetImg := v.targetImg ^^^ 0x4000 } (le_refl 4)
  refine ⟨htarget, ?_, hplanes⟩
  simp only [showScreen, htarget]
  rcases hpage with hpage | hpage
  · rw [hpage]
    exact Video.startAddress_outCrtc _ (Or.inr rfl)
  · rw [hpage]
    exact Video.startAddress_outCrtc _ (Or.inl rfl)

end Screen

/-! ### The displayed page -/

section Display

variable {v : Video}

theorem Video.modeX_ready : Video.modeX.Ready := ⟨Or.inl rfl, Or.inr ⟨rfl, rfl⟩⟩

theorem Video.Ready.step (h : v.Ready) (event : VideoEvent) : (v.step event).Ready := by
  cases event with
  | display s =>
    obtain ⟨htarget, hstart, -⟩ := s.showScreen_eq h.page
    refine ⟨?_, Or.inl (hstart.trans htarget.symm)⟩
    change (s.showScreen v).targetImg = _ ∨ (s.showScreen v).targetImg = _
    rw [htarget]
    rcases h.page with hpage | hpage
    · exact Or.inr (by rw [hpage]; rfl)
    · exact Or.inl (by rw [hpage]; rfl)
  | store planes writeMask => exact ⟨h.page, h.start⟩

/-- From a state in which the display is ready, `show_screen` displays the window. -/
theorem Video.Ready.showsWindow (h : v.Ready) (s : Screen) :
    ShowsWindow s v (s.showScreen v) := by
  obtain ⟨htarget, hstart, hplanes⟩ := s.showScreen_eq h.page
  have hsize : copySize = 16000 := rfl
  refine ⟨fun c hc r hr ↦ ?_, hstart.trans htarget.symm, fun plane a ha ↦ ?_, fun a hlow hhigh ↦ ?_⟩
  · rw [hplanes, if_pos (Nat.mod_lt c (by norm_num)), htarget, memcpy_inside]
    · rw [Screen.pixel, ← s.planeAddr_add c r]
      congr 1
      ring
    · omega
    · rw [hsize]
      omega
  · rw [htarget] at ha
    rw [hplanes]
    split_ifs
    · exact memcpy_outside _ _ ha
    · rfl
  · rw [htarget, hsize] at hhigh
    rw [htarget] at hlow
    have hpage := h.page
    have hbefore := h.start
    rcases hpage with hpage | hpage
    · have hnew : v.targetImg ^^^ 0x4000 = 17824 := by rw [hpage]; rfl
      rw [hnew] at hlow hhigh
      omega
    · have hnew : v.targetImg ^^^ 0x4000 = 1440 := by rw [hpage]; rfl
      rw [hnew] at hlow hhigh
      omega

/-- Whatever has been shown and stored to the video memory since `set_mode_X`, `show_screen`
displays the window, and copies nothing to the page that was displayed before or to the status bar.
-/
theorem showScreen_exact (events : List VideoEvent) (s : Screen) :
    ShowsWindow s (run Video.step Video.modeX events)
      (s.showScreen (run Video.step Video.modeX events)) := by
  have hready : EveryState Video.step Video.Ready Video.modeX events :=
    everyState_of_invariant (fun _ event h ↦ h.step event) Video.modeX_ready events
  exact hready.last.showsWindow s

end Display

/-! ### The bytes that are read -/

namespace Screen

variable {s : Screen}

/-- The offset of the window in the buffer, with the byte by which some planes are shifted. -/
def readOffset (s : Screen) : ℤ :=
  s.img3Off + s.showX / 4 + s.showY * scrollXWidth + (if s.showX % 4 = 0 then 0 else 1)

/-- The copies of a window in the buffer read bytes of the array if there are 16000 of them behind
the start of the last plane. -/
theorem readsInside_iff (h : s.WindowFits) : s.ReadsInside ↔ s.readOffset ≤ 18817 := by
  have hconst : scrollXWidth = 80 ∧ scrollSize = 14560 ∧ memFenceWidth = 256 ∧
    buildSize = 78753 ∧ copySize = 16000 := ⟨rfl, rfl, rfl, rfl, rfl⟩
  rw [windowFits_eq] at h
  simp only [ReadsInside, readOffset, planeAddr, img3, hconst]
  constructor
  · intro hreads
    -- the plane that stands last in the buffer, and its last byte
    obtain ⟨i, hi⟩ : ∃ i : ℕ, (i : ℤ) = (4 - s.showX % 4) % 4 :=
      (Int.eq_ofNat_of_zero_le (by omega)).imp fun _ h ↦ h.symm
    have hlast := (hreads i (by omega) 15999 (by norm_num) (by norm_num)).2
    split_ifs at hlast ⊢ <;> omega
  · intro hoffset i hi k hk0 hk
    split_ifs at hoffset ⊢ <;> omega

/-- A call of `set_view_window` with the coordinates of the new window. -/
def panStep (s : Screen) (window : ℤ × ℤ) : Screen := s.setViewWindow window.1 window.2

/-- If the new window fits into the buffer where it is, it starts early enough. -/
def PansEarly (s : Screen) (window : ℤ × ℤ) : Prop :=
  ({ s with showX := window.1, showY := window.2 } : Screen).WindowFits →
    ({ s with showX := window.1, showY := window.2 } : Screen).readOffset ≤ 18817

/-- A window that is moved to the middle of the buffer starts early enough. -/
theorem panStep_readOffset_iff (s : Screen) (window : ℤ × ℤ) :
    (s.panStep window).readOffset ≤ 18817 ↔ s.PansEarly window := by
  have hconst : scrollXWidth = 80 ∧ buildBaseInit = 10000 := ⟨rfl, rfl⟩
  by_cases hfits : ({ s with showX := window.1, showY := window.2 } : Screen).WindowFits
  · have hmoved : s.panStep window = { s with showX := window.1, showY := window.2 } := by
      rw [panStep, setViewWindow]
      exact if_pos hfits
    rw [hmoved]
    exact ⟨fun h _ ↦ h, fun h ↦ h hfits⟩
  · have hoff : (s.panStep window).img3Off =
        buildBaseInit - window.1 / 4 - window.2 * scrollXWidth := by
      simp only [panStep, setViewWindow]
      split_ifs with hin hapart
      · exact absurd hin hfits
      · rfl
      · rfl
    refine iff_of_true ?_ fun h ↦ absurd h hfits
    rw [readOffset, hoff, panStep, setViewWindow_showX, setViewWindow_showY, hconst.1, hconst.2]
    split_ifs <;> omega

theorem setModeX_windowFits (s : Screen) : s.setModeX.WindowFits :=
  (by decide : (0 : ℤ) ≤ 10000 ∧ 10000 + 3 * 14560 + 79 + 181 * 80 < (78241 : ℤ))

/-- In every run of window moves since `set_mode_X`, `show_screen` reads bytes of the array `build`
in all states if and only if no window stays where it is too near to the end of the buffer. -/
theorem showScreen_reads_exact (s : Screen) (windows : List (ℤ × ℤ)) :
    EveryState panStep ReadsInside s.setModeX windows ↔
      EveryStep panStep PansEarly s.setModeX windows := by
  have hstart : s.setModeX.WindowFits ∧ s.setModeX.readOffset ≤ 18817 :=
    ⟨s.setModeX_windowFits, (by decide : (10000 : ℤ) + 0 / 4 + 0 * 80 + 0 ≤ 18817)⟩
  refine everyState_iff_everyStep_of_inv
    (fun s (h : s.WindowFits ∧ s.readOffset ≤ 18817) ↦ (readsInside_iff h.1).mpr h.2)
    (fun s window _ hearly ↦ ?_) (fun s window _ hreads ↦ ?_) hstart
  · exact ⟨s.setViewWindow_windowFits _ _, (s.panStep_readOffset_iff window).mpr hearly⟩
  · exact (s.panStep_readOffset_iff window).mp
      ((readsInside_iff (s.setViewWindow_windowFits _ _)).mp hreads)

/-- The windows of a player who walks straight down from the start: one pixel after the other, to
the last but one that level 3 has. -/
def downwards : List (ℤ × ℤ) := (List.range 106).map fun i : ℕ ↦ (6, 6 + i)

theorem downwards_readOffset :
    18817 < (run panStep emptyScreen.setModeX downwards).readOffset := by
  decide +kernel

/-- After 105 rows the copies end behind the array. -/
theorem showScreen_reads_not_always :
    ¬ EveryState panStep ReadsInside emptyScreen.setModeX downwards := by
  intro h
  have hfits : EveryState panStep WindowFits emptyScreen.setModeX downwards :=
    everyState_of_invariant (fun s _ _ ↦ s.setViewWindow_windowFits _ _)
      emptyScreen.setModeX_windowFits downwards
  exact absurd ((readsInside_iff hfits.last).mp h.last) (not_le.mpr downwards_readOffset)

end Screen

end Sp18.MazeGame
