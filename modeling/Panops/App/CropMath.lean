import Mathlib.Tactic.Linarith
import Mathlib.Tactic.Positivity
import Panops.App.CaptureController

/-!
# Crops of the preview

`cropRect` and `cropRectLetterboxed` with rational coordinates.  Origin and size are
clamped before they are rounded, each on its own; what the rounding adds up to is
decided for one axis at a time.
-/

namespace Panops
namespace App
namespace CropMath

open App.Capture (CaptureRect rounded)

structure CGPoint where
  x : Rat
  y : Rat
deriving DecidableEq

structure CGSize where
  width : Rat
  height : Rat
deriving DecidableEq

/-- The size may be negative; the accessors are those of the standardized rectangle. -/
structure CGRect where
  origin : CGPoint
  size : CGSize
deriving DecidableEq

namespace CGRect

def width (r : CGRect) : Rat := |r.size.width|

def height (r : CGRect) : Rat := |r.size.height|

def minX (r : CGRect) : Rat := min r.origin.x (r.origin.x + r.size.width)

def maxX (r : CGRect) : Rat := max r.origin.x (r.origin.x + r.size.width)

def minY (r : CGRect) : Rat := min r.origin.y (r.origin.y + r.size.height)

def maxY (r : CGRect) : Rat := max r.origin.y (r.origin.y + r.size.height)

/-- `none` is the null rectangle. -/
def intersection (r s : CGRect) : Option CGRect :=
  let x := max r.minX s.minX
  let y := max r.minY s.minY
  let farX := min r.maxX s.maxX
  let farY := min r.maxY s.maxY
  if x ≤ farX ∧ y ≤ farY then some ⟨⟨x, y⟩, ⟨farX - x, farY - y⟩⟩ else none

def isEmpty (r : CGRect) : Bool := r.width = 0 || r.height = 0

end CGRect

/-- `UInt32(max(0, value.rounded()))`, which traps from `2 ^ 32` on. -/
def pixel (value : Rat) : Option UInt32 :=
  let v := max 0 (rounded value)
  if v < 2 ^ 32 then some (UInt32.ofNat v.toNat) else none

def cropRect (previewRect : CGRect) (previewSize displaySize : CGSize) : Option CaptureRect := do
  let scaleX := displaySize.width / max previewSize.width 1
  let scaleY := displaySize.height / max previewSize.height 1
  let originX := max 0 (previewRect.origin.x * scaleX)
  let originY := max 0 (previewRect.origin.y * scaleY)
  let width := min (previewRect.width * scaleX) (max 0 (displaySize.width - originX))
  let height := min (previewRect.height * scaleY) (max 0 (displaySize.height - originY))
  let x ← pixel originX
  let y ← pixel originY
  let w ← pixel width
  let h ← pixel height
  some ⟨x, y, w, h⟩

def aspectFitRect (sourceSize boxSize : CGSize) : CGRect :=
  if 0 < sourceSize.width ∧ 0 < sourceSize.height ∧ 0 < boxSize.width ∧ 0 < boxSize.height then
    let scale := min (boxSize.width / sourceSize.width) (boxSize.height / sourceSize.height)
    let w := sourceSize.width * scale
    let h := sourceSize.height * scale
    ⟨⟨(boxSize.width - w) / 2, (boxSize.height - h) / 2⟩, ⟨w, h⟩⟩
  else ⟨⟨0, 0⟩, boxSize⟩

/-- What is left of the drag in the video, from the corner of the video. -/
def rebased (previewRect videoRect : CGRect) : Option CGRect :=
  match previewRect.intersection videoRect with
  | none => none
  | some clamped =>
    if clamped.isEmpty then none
    else
      some
        ⟨⟨clamped.origin.x - videoRect.origin.x, clamped.origin.y - videoRect.origin.y⟩,
          ⟨clamped.width, clamped.height⟩⟩

def cropRectLetterboxed (previewRect : CGRect) (boxSize displaySize : CGSize) :
    Option CaptureRect :=
  let videoRect := aspectFitRect displaySize boxSize
  match rebased previewRect videoRect with
  | none => some ⟨0, 0, 0, 0⟩
  | some rect => cropRect rect videoRect.size displaySize

/-! ## Rounding on one axis -/

section Axis

variable {display : Nat} {start size : Rat}

/-- Half a point or more beyond the far edge. -/
def Past (display : Nat) (start : Rat) : Prop := display + 1 / 2 ≤ start

/-- Half way between two points of the display, and up to its far edge. -/
def HalfWay (display : Nat) (start size : Rat) : Prop :=
  ∃ n : Nat, n < display ∧ start = n + 1 / 2 ∧ display ≤ start + size

theorem rounded_of_nonneg (h : 0 ≤ start) : rounded start = ⌊start + 1 / 2⌋ := by
  rw [rounded, if_pos h]

theorem rounded_zero : rounded 0 = 0 := by
  rw [rounded_of_nonneg (le_refl 0), Int.floor_eq_iff]
  constructor <;> norm_num

theorem rounded_nonneg (h : 0 ≤ start) : 0 ≤ rounded start := by
  rw [rounded_of_nonneg h]
  exact Int.floor_nonneg.mpr (by linarith)

theorem pixel_eq_some {value : Rat} {v : UInt32} (hvalue : 0 ≤ value) (h : pixel value = some v) :
    (v.toNat : Int) = rounded value := by
  have hpos := rounded_nonneg hvalue
  rw [pixel, max_eq_right hpos] at h
  split at h
  · next hlt =>
    obtain rfl := Option.some.inj h
    rw [UInt32.toNat_ofNat', Nat.mod_eq_of_lt (by omega)]
    exact Int.toNat_of_nonneg hpos
  · cases h

/-- Below the far edge and short of it, the sum is rounded up by less than one. -/
theorem rounded_add_le (hstart : 0 ≤ start) (hsize : 0 ≤ size) (h : start + size < display) :
    rounded start + rounded size ≤ display := by
  have hfloor₁ := Int.floor_le (start + 1 / 2)
  have hfloor₂ := Int.floor_le (size + 1 / 2)
  rw [rounded_of_nonneg hstart, rounded_of_nonneg hsize]
  have hlt : ((⌊start + 1 / 2⌋ + ⌊size + 1 / 2⌋ : Int) : Rat) < ((display + 1 : Int) : Rat) := by
    push_cast
    linarith
  have hlt' := Int.cast_lt.mp hlt
  omega

/-- Up to the far edge one of the two is rounded up and the other down, unless both lie
half way. -/
theorem rounded_add_rest (hstart : 0 ≤ start) (hrest : start < display) :
    rounded start + rounded (display - start) ≤ display ↔
      ¬ ∃ n : Nat, n < display ∧ start = n + 1 / 2 := by
  have hrest' : 0 ≤ (display : Rat) - start := by linarith
  rw [rounded_of_nonneg hstart, rounded_of_nonneg hrest']
  have hshift : (display : Rat) - start + 1 / 2 = (1 / 2 - start) + (display : Int) := by
    push_cast
    ring
  rw [hshift, Int.floor_add_intCast]
  have hle := Int.floor_le (start + 1 / 2)
  have hlt := Int.lt_floor_add_one (start + 1 / 2)
  by_cases hhalf : start + 1 / 2 = (⌊start + 1 / 2⌋ : Int)
  · have hother : ⌊(1 : Rat) / 2 - start⌋ = 1 - ⌊start + 1 / 2⌋ := by
      have heq : (1 : Rat) / 2 - start = ((1 - ⌊start + 1 / 2⌋ : Int) : Rat) := by
        push_cast
        linarith
      rw [heq, Int.floor_intCast]
    have hpos : 1 ≤ ⌊start + 1 / 2⌋ := by
      have hcast : (0 : Rat) < (⌊start + 1 / 2⌋ : Int) := by linarith
      exact_mod_cast hcast
    obtain ⟨n, hn⟩ := Int.eq_ofNat_of_zero_le (Int.sub_nonneg.mpr hpos)
    have hstart' : start = n + 1 / 2 := by
      have hcast : ((⌊start + 1 / 2⌋ - 1 : Int) : Rat) = n := by exact_mod_cast congrArg Int.cast hn
      push_cast at hcast
      linarith
    rw [hother]
    constructor
    · intro hsum
      omega
    · intro hno
      refine absurd ⟨n, ?_, hstart'⟩ hno
      have hcast : (n : Rat) < display := by linarith
      exact_mod_cast hcast
  · have hother : ⌊(1 : Rat) / 2 - start⌋ = -⌊start + 1 / 2⌋ := by
      have hstrict := lt_of_le_of_ne hle (Ne.symm hhalf)
      rw [Int.floor_eq_iff]
      push_cast
      constructor <;> linarith
    rw [hother]
    constructor
    · rintro - ⟨n, -, hn⟩
      apply hhalf
      have hfloor : ⌊start + 1 / 2⌋ = n + 1 := by
        rw [Int.floor_eq_iff, hn]
        push_cast
        constructor <;> linarith
      rw [hfloor, hn]
      push_cast
      ring
    · intro _
      omega

/-- One axis of a crop. -/
theorem axis_iff (hsize : 0 ≤ size) :
    rounded (max 0 start) + rounded (min size (max 0 (display - max 0 start))) ≤ display ↔
      ¬ Past display start ∧ ¬ HalfWay display start size := by
  have hdisplay : (0 : Rat) ≤ display := Nat.cast_nonneg display
  rcases le_or_gt (0 : Rat) start with hstart | hstart
  · rw [max_eq_right hstart]
    rcases le_or_gt (display : Rat) start with hfar | hnear
    · -- nothing is left for the size
      have hrest : max 0 ((display : Rat) - start) = 0 := max_eq_left (by linarith)
      rw [hrest, min_eq_right hsize, rounded_zero, Int.add_zero, rounded_of_nonneg hstart]
      have hnot : ¬ HalfWay display start size := by
        rintro ⟨n, hn, heq, -⟩
        have hcast : (n : Rat) + 1 ≤ display := by exact_mod_cast hn
        linarith
      rw [and_iff_left hnot, Past, not_le, ← Int.lt_add_one_iff, Int.floor_lt]
      push_cast
      constructor <;> intro h <;> linarith
    · have hpast : ¬ Past display start := by
        rw [Past, not_le]
        linarith
      have hrest : max 0 ((display : Rat) - start) = display - start :=
        max_eq_right (by linarith)
      rw [hrest, and_iff_right hpast]
      rcases le_or_gt ((display : Rat) - start) size with hreach | hshort
      · rw [min_eq_right hreach, rounded_add_rest hstart hnear]
        refine not_congr ⟨?_, ?_⟩
        · rintro ⟨n, hn, heq⟩
          exact ⟨n, hn, heq, by linarith⟩
        · rintro ⟨n, hn, heq, -⟩
          exact ⟨n, hn, heq⟩
      · rw [min_eq_left (le_of_lt hshort)]
        refine iff_of_true (rounded_add_le hstart hsize (by linarith)) ?_
        rintro ⟨n, -, -, hreach⟩
        linarith
  · -- a start before the display counts as 0
    rw [max_eq_left (le_of_lt hstart), sub_zero, max_eq_right hdisplay, rounded_zero, Int.zero_add]
    refine iff_of_true ?_ ⟨?_, ?_⟩
    · have hmin : 0 ≤ min size (display : Rat) := le_min hsize hdisplay
      rw [rounded_of_nonneg hmin, ← Int.lt_add_one_iff, Int.floor_lt]
      have hle := min_le_right size (display : Rat)
      push_cast
      linarith
    · rw [Past, not_le]
      linarith
    · rintro ⟨n, -, heq, -⟩
      have hn : (0 : Rat) ≤ n := Nat.cast_nonneg n
      linarith

end Axis

/-! ## Crops -/

section Crops

variable {previewRect : CGRect} {previewSize boxSize : CGSize} {displayW displayH : Nat}
  {r : CaptureRect}

/-- The documented bound. -/
def Inside (displayW displayH : Nat) (r : CaptureRect) : Prop :=
  r.x.toNat + r.w.toNat ≤ displayW ∧ r.y.toNat + r.h.toNat ≤ displayH

/-- From the preview to the display, on one axis. -/
def scaled (display preview value : Rat) : Rat := value * (display / max preview 1)

/-- The start lies past the far edge. -/
def StartsPast (displayW displayH : Nat) (previewSize : CGSize) (rect : CGRect) : Prop :=
  Past displayW (scaled displayW previewSize.width rect.origin.x) ∨
    Past displayH (scaled displayH previewSize.height rect.origin.y)

/-- On one of the axes start and size both lie half way between two points, and the crop
reaches the far edge. -/
def Overshoots (displayW displayH : Nat) (previewSize : CGSize) (rect : CGRect) : Prop :=
  HalfWay displayW (scaled displayW previewSize.width rect.origin.x)
      (scaled displayW previewSize.width rect.width) ∨
    HalfWay displayH (scaled displayH previewSize.height rect.origin.y)
      (scaled displayH previewSize.height rect.height)

theorem cropRect_inside_iff (h : cropRect previewRect previewSize ⟨displayW, displayH⟩ = some r) :
    Inside displayW displayH r ↔
      ¬ StartsPast displayW displayH previewSize previewRect ∧
        ¬ Overshoots displayW displayH previewSize previewRect := by
  have hscale : ∀ (display : Nat) (preview : Rat), 0 ≤ (display : Rat) / max preview 1 :=
    fun display preview => div_nonneg (Nat.cast_nonneg display)
      (le_trans zero_le_one (le_max_right preview 1))
  have hwidth : 0 ≤ scaled displayW previewSize.width previewRect.width :=
    mul_nonneg (abs_nonneg _) (hscale _ _)
  have hheight : 0 ≤ scaled displayH previewSize.height previewRect.height :=
    mul_nonneg (abs_nonneg _) (hscale _ _)
  rw [cropRect] at h
  obtain ⟨x, hx, h⟩ := Option.bind_eq_some_iff.mp h
  obtain ⟨y, hy, h⟩ := Option.bind_eq_some_iff.mp h
  obtain ⟨w, hw, h⟩ := Option.bind_eq_some_iff.mp h
  obtain ⟨hh, hhh, h⟩ := Option.bind_eq_some_iff.mp h
  obtain rfl := Option.some.inj h
  have hx' : (x.toNat : Int) =
      rounded (max 0 (scaled displayW previewSize.width previewRect.origin.x)) :=
    pixel_eq_some (le_max_left _ _) hx
  have hy' : (y.toNat : Int) =
      rounded (max 0 (scaled displayH previewSize.height previewRect.origin.y)) :=
    pixel_eq_some (le_max_left _ _) hy
  have hw' : (w.toNat : Int) =
      rounded (min (scaled displayW previewSize.width previewRect.width)
        (max 0 (displayW - max 0 (scaled displayW previewSize.width previewRect.origin.x)))) :=
    pixel_eq_some (le_min hwidth (le_max_left _ _)) hw
  have hh' : (hh.toNat : Int) =
      rounded (min (scaled displayH previewSize.height previewRect.height)
        (max 0 (displayH - max 0 (scaled displayH previewSize.height previewRect.origin.y)))) :=
    pixel_eq_some (le_min hheight (le_max_left _ _)) hhh
  have haxisX := @axis_iff displayW (scaled displayW previewSize.width previewRect.origin.x) _
    hwidth
  have haxisY := @axis_iff displayH (scaled displayH previewSize.height previewRect.origin.y) _
    hheight
  rw [← hx', ← hw'] at haxisX
  rw [← hy', ← hh'] at haxisY
  rw [StartsPast, Overshoots, not_or, not_or, and_and_and_comm, ← haxisX, ← haxisY]
  show x.toNat + w.toNat ≤ displayW ∧ y.toNat + hh.toNat ≤ displayH ↔ _
  omega

/-- On each axis the part of a crop in the video starts in the video. -/
theorem not_past_of_le {display : Nat} {preview value : Rat} (h : value ≤ max 0 preview) :
    ¬ Past display (scaled display preview value) := by
  have hdisplay : (0 : Rat) ≤ display := Nat.cast_nonneg display
  have hpos : (0 : Rat) < max preview 1 := lt_of_lt_of_le zero_lt_one (le_max_right preview 1)
  have hscale : 0 ≤ (display : Rat) / max preview 1 := div_nonneg hdisplay hpos.le
  have hvalue : value ≤ max preview 1 := by
    refine le_trans h (max_le ?_ (le_max_left preview 1))
    exact hpos.le
  have hle : scaled display preview value ≤ display := by
    calc value * (display / max preview 1)
        ≤ max preview 1 * (display / max preview 1) := mul_le_mul_of_nonneg_right hvalue hscale
      _ = display := mul_div_cancel₀ (display : Rat) hpos.ne'
  rw [Past, not_le]
  linarith

theorem intersection_le {s c : CGRect} (h : previewRect.intersection s = some c) :
    c.origin.x ≤ s.maxX ∧ c.origin.y ≤ s.maxY := by
  unfold CGRect.intersection at h
  simp only at h
  split at h
  · next hmeet =>
    obtain rfl := Option.some.inj h
    exact ⟨le_trans hmeet.1 (min_le_right _ _), le_trans hmeet.2 (min_le_right _ _)⟩
  · cases h

theorem rebased_eq_some {videoRect rect : CGRect} (h : rebased previewRect videoRect = some rect) :
    ∃ clamped, previewRect.intersection videoRect = some clamped ∧
      rect.origin.x = clamped.origin.x - videoRect.origin.x ∧
      rect.origin.y = clamped.origin.y - videoRect.origin.y := by
  unfold rebased at h
  split at h
  · cases h
  · next clamped hclamped =>
    split at h
    · cases h
    · obtain rfl := Option.some.inj h
      exact ⟨clamped, hclamped, rfl, rfl⟩

theorem maxX_sub (r : CGRect) : r.maxX - r.origin.x = max 0 r.size.width := by
  have hshift := max_add_add_left r.origin.x 0 r.size.width
  rw [add_zero] at hshift
  rw [CGRect.maxX, hshift, add_sub_cancel_left]

theorem maxY_sub (r : CGRect) : r.maxY - r.origin.y = max 0 r.size.height := by
  have hshift := max_add_add_left r.origin.y 0 r.size.height
  rw [add_zero] at hshift
  rw [CGRect.maxY, hshift, add_sub_cancel_left]

theorem rebased_le {videoRect rect : CGRect} (h : rebased previewRect videoRect = some rect) :
    rect.origin.x ≤ max 0 videoRect.size.width ∧ rect.origin.y ≤ max 0 videoRect.size.height := by
  obtain ⟨clamped, hclamped, hx, hy⟩ := rebased_eq_some h
  obtain ⟨hfarX, hfarY⟩ := intersection_le hclamped
  rw [hx, hy, ← maxX_sub, ← maxY_sub]
  exact ⟨sub_le_sub_right hfarX _, sub_le_sub_right hfarY _⟩

theorem cropRectLetterboxed_none {displaySize : CGSize}
    (h : rebased previewRect (aspectFitRect displaySize boxSize) = none) :
    cropRectLetterboxed previewRect boxSize displaySize = some ⟨0, 0, 0, 0⟩ := by
  unfold cropRectLetterboxed
  simp only [h]

theorem cropRectLetterboxed_some {displaySize : CGSize} {rect : CGRect}
    (h : rebased previewRect (aspectFitRect displaySize boxSize) = some rect) :
    cropRectLetterboxed previewRect boxSize displaySize =
      cropRect rect (aspectFitRect displaySize boxSize).size displaySize := by
  unfold cropRectLetterboxed
  simp only [h]

theorem cropRectLetterboxed_inside_iff
    (h : cropRectLetterboxed previewRect boxSize ⟨displayW, displayH⟩ = some r) :
    Inside displayW displayH r ↔
      ∀ rect, rebased previewRect (aspectFitRect ⟨displayW, displayH⟩ boxSize) = some rect →
        ¬ Overshoots displayW displayH (aspectFitRect ⟨displayW, displayH⟩ boxSize).size rect := by
  cases hrect : rebased previewRect (aspectFitRect ⟨displayW, displayH⟩ boxSize) with
  | none =>
    rw [cropRectLetterboxed_none hrect] at h
    obtain rfl := Option.some.inj h
    refine iff_of_true ⟨Nat.zero_le _, Nat.zero_le _⟩ fun rect hrebased => ?_
    cases hrebased
  | some rect =>
    rw [cropRectLetterboxed_some hrect] at h
    obtain ⟨hx, hy⟩ := rebased_le hrect
    have hpast : ¬ StartsPast displayW displayH
        (aspectFitRect ⟨displayW, displayH⟩ boxSize).size rect :=
      not_or.mpr ⟨not_past_of_le hx, not_past_of_le hy⟩
    rw [cropRect_inside_iff h, and_iff_right hpast]
    constructor
    · intro hcrop rect' hsome
      obtain rfl := Option.some.inj hsome
      exact hcrop
    · exact fun hcrop => hcrop rect rfl

end Crops

/-- When a crop stays inside the display. -/
theorem crops_inside_iff (previewRect : CGRect) (previewSize boxSize : CGSize)
    (displayW displayH : Nat) :
    (∀ r, cropRect previewRect previewSize ⟨displayW, displayH⟩ = some r →
      (Inside displayW displayH r ↔
        ¬ StartsPast displayW displayH previewSize previewRect ∧
          ¬ Overshoots displayW displayH previewSize previewRect)) ∧
    (∀ r, cropRectLetterboxed previewRect boxSize ⟨displayW, displayH⟩ = some r →
      (Inside displayW displayH r ↔
        ∀ rect, rebased previewRect (aspectFitRect ⟨displayW, displayH⟩ boxSize) = some rect →
          ¬ Overshoots displayW displayH (aspectFitRect ⟨displayW, displayH⟩ boxSize).size
            rect)) :=
  ⟨fun _ h => cropRect_inside_iff h, fun _ h => cropRectLetterboxed_inside_iff h⟩

/-! ## A drag from half a point to the far edge -/

theorem pixel_of_rounded {value : Rat} {n : Nat} (h : rounded value = n) (hn : n < 2 ^ 32) :
    pixel value = some (UInt32.ofNat n) := by
  unfold pixel
  simp only [h]
  rw [max_eq_right (by omega), if_pos (by exact_mod_cast hn), Int.toNat_natCast]

theorem rounded_eq {value : Rat} {n : Nat} (hlow : (n : Rat) - 1 / 2 ≤ value) (hvalue : 0 ≤ value)
    (hhigh : value < n + 1 / 2) : rounded value = n := by
  rw [rounded_of_nonneg hvalue, Int.floor_eq_iff]
  push_cast
  constructor <;> linarith

def halfDrag : CGRect := ⟨⟨1 / 2, 0⟩, ⟨199 / 2, 100⟩⟩

theorem cropRect_halfDrag : cropRect halfDrag ⟨100, 100⟩ ⟨100, 100⟩ = some ⟨1, 0, 100, 100⟩ := by
  have hscale : (100 : Rat) / max 100 1 = 1 := by norm_num
  have hstart : max 0 ((1 : Rat) / 2) = 1 / 2 := max_eq_right (by norm_num)
  have hwidth : min |(199 : Rat) / 2| (max 0 (100 - 1 / 2)) = 199 / 2 := by
    rw [abs_of_pos (by norm_num), max_eq_right (by norm_num), min_eq_left (by norm_num)]
  have hheight : min |(100 : Rat)| (max 0 (100 - 0)) = 100 := by
    rw [abs_of_pos (by norm_num), max_eq_right (by norm_num), min_eq_left (by norm_num)]
  have hx : pixel (1 / 2) = some 1 :=
    pixel_of_rounded (n := 1) (rounded_eq (by norm_num) (by norm_num) (by norm_num)) (by omega)
  have hy : pixel 0 = some 0 := pixel_of_rounded (n := 0) rounded_zero (by omega)
  have hw : pixel (199 / 2) = some 100 :=
    pixel_of_rounded (n := 100) (rounded_eq (by norm_num) (by norm_num) (by norm_num)) (by omega)
  have hh : pixel 100 = some 100 :=
    pixel_of_rounded (n := 100) (rounded_eq (by norm_num) (by norm_num) (by norm_num)) (by omega)
  unfold cropRect
  simp only [halfDrag, CGRect.width, CGRect.height, hscale, mul_one, hstart, max_self, hwidth,
    hheight, hx, hy, hw, hh, Option.bind_eq_bind, Option.bind_some]

/-- A drag over the whole of the preview. -/
def wholeDrag : CGRect := ⟨⟨0, 0⟩, ⟨100, 100⟩⟩

theorem cropRect_wholeDrag : cropRect wholeDrag ⟨100, 100⟩ ⟨100, 100⟩ = some ⟨0, 0, 100, 100⟩ := by
  have hscale : (100 : Rat) / max 100 1 = 1 := by norm_num
  have hside : min |(100 : Rat)| (max 0 (100 - 0)) = 100 := by
    rw [abs_of_pos (by norm_num), max_eq_right (by norm_num), min_eq_left (by norm_num)]
  have hstart : pixel 0 = some 0 := pixel_of_rounded (n := 0) rounded_zero (by omega)
  have hend : pixel 100 = some 100 :=
    pixel_of_rounded (n := 100) (rounded_eq (by norm_num) (by norm_num) (by norm_num)) (by omega)
  unfold cropRect
  simp only [wholeDrag, CGRect.width, CGRect.height, hscale, mul_one, max_self, hside, hstart, hend,
    Option.bind_eq_bind, Option.bind_some]

theorem crops_inside_iff_drags :
    (Inside 100 100 ⟨1, 0, 100, 100⟩ ↔
      ¬ StartsPast 100 100 ⟨100, 100⟩ halfDrag ∧ ¬ Overshoots 100 100 ⟨100, 100⟩ halfDrag) ∧
    Inside 100 100 ⟨0, 0, 100, 100⟩ ∧
    ¬ StartsPast 100 100 ⟨100, 100⟩ wholeDrag ∧ ¬ Overshoots 100 100 ⟨100, 100⟩ wholeDrag := by
  have hinside : Inside 100 100 ⟨0, 0, 100, 100⟩ := ⟨by decide, by decide⟩
  exact ⟨(crops_inside_iff halfDrag ⟨100, 100⟩ ⟨100, 100⟩ 100 100).1 _ cropRect_halfDrag, hinside,
    ((crops_inside_iff wholeDrag ⟨100, 100⟩ ⟨100, 100⟩ 100 100).1 _ cropRect_wholeDrag).mp hinside⟩

theorem rebased_halfDrag :
    rebased halfDrag (aspectFitRect ⟨100, 100⟩ ⟨100, 100⟩) = some halfDrag := by
  have hfit : aspectFitRect ⟨100, 100⟩ ⟨100, 100⟩ = ⟨⟨0, 0⟩, ⟨100, 100⟩⟩ := by
    norm_num [aspectFitRect]
  have hmeet : halfDrag.intersection ⟨⟨0, 0⟩, ⟨100, 100⟩⟩ = some halfDrag := by
    norm_num [CGRect.intersection, halfDrag, CGRect.minX, CGRect.maxX, CGRect.minY, CGRect.maxY]
  have hnonempty : halfDrag.isEmpty = false := by
    norm_num [CGRect.isEmpty, halfDrag, CGRect.width, CGRect.height]
  unfold rebased
  simp only [hfit, hmeet, hnonempty]
  norm_num [halfDrag, CGRect.width, CGRect.height]

theorem halfDrag_outside :
    ∃ r, cropRect halfDrag ⟨100, 100⟩ ⟨(100 : Nat), (100 : Nat)⟩ = some r ∧
      cropRectLetterboxed halfDrag ⟨100, 100⟩ ⟨(100 : Nat), (100 : Nat)⟩ = some r ∧
      ¬ Inside 100 100 r := by
  have hfit : (aspectFitRect ⟨100, 100⟩ ⟨100, 100⟩).size = ⟨100, 100⟩ := by
    norm_num [aspectFitRect]
  refine ⟨⟨1, 0, 100, 100⟩, cropRect_halfDrag, ?_, fun h => ?_⟩
  · push_cast
    rw [cropRectLetterboxed_some rebased_halfDrag, hfit, cropRect_halfDrag]
  · exact absurd h.1 (by decide)

end CropMath
end App
end Panops
