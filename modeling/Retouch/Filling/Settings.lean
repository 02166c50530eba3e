import Retouch.Raster.Basic
import Retouch.Random.Keystream

/-!
# Retouch — Filling — Settings

What a user can choose about a filling, and the judgement (`Settings.check`) on an image and its
mask under these settings.  The first objection that applies is the one reported.
-/

namespace Retouch

/-- The settings of a filling. -/
structure Settings where
  /-- Half the side of the compared patches, without the centre. -/
  radius : Nat := 2
  /-- The seed of the random search; without one, every filling differs. -/
  seed : Option UInt64 := none
  /-- Whether pixels outside the holes are taken from the image at the end. -/
  keepsKnown : Bool := true
  /-- Whether `longestSide` is enforced. -/
  limitsSides : Bool := true
  /-- The longest side that is accepted. -/
  longestSide : Option Nat := some 50000
  /-- Mask samples above this value are holes. -/
  threshold : UInt8 := 127
  /-- The most repaints at one level of the pyramid. -/
  maxRepaints : Nat := 4
  /-- The most improvement passes before a repaint. -/
  maxPasses : Nat := 5
  deriving DecidableEq

namespace Settings

/-- Whether a side is longer than these settings accept. -/
def exceeds (settings : Settings) (side : Nat) : Bool :=
  settings.limitsSides && settings.longestSide.any (· < side)

/-- The first objection to filling this image under this mask. -/
def check (settings : Settings) (image mask : Raster) : Except Refusal Unit :=
  let (w, h) := (image.width, image.height)
  if mask.depth ≠ 1 then
    .error (.maskDepth mask.depth)
  else if mask.width ≠ w ∨ mask.height ≠ h then
    .error (.maskSize w h mask.width mask.height)
  else if w = 0 ∨ h = 0 then
    .error (.sides w h)
  else if settings.exceeds w ∨ settings.exceeds h then
    .error (.sides w h)
  else if settings.radius = 0 ∨ min w h ≤ settings.radius then
    .error (.radius settings.radius w h)
  else if settings.maxRepaints = 0 ∨ settings.maxPasses = 0 then
    .error .idleSchedule
  else
    .ok ()

/-- What an image and a mask without any objection are like. -/
structure Accepted (settings : Settings) (image mask : Raster) : Prop where
  mask_depth : mask.depth = 1
  mask_width : mask.width = image.width
  mask_height : mask.height = image.height
  width_pos : 0 < image.width
  height_pos : 0 < image.height
  width_allowed : settings.exceeds image.width = false
  height_allowed : settings.exceeds image.height = false
  radius_pos : 0 < settings.radius
  radius_lt : settings.radius < min image.width image.height
  repaints_pos : 0 < settings.maxRepaints
  passes_pos : 0 < settings.maxPasses

theorem check_eq_ok_iff {settings : Settings} {image mask : Raster} :
    settings.check image mask = .ok () ↔ settings.Accepted image mask := by
  simp only [check, ite_error_eq_ok_iff, not_or, ne_eq, Decidable.not_not, Bool.not_eq_true,
    and_true]
  constructor
  · rintro ⟨hdepth, ⟨hw, hh⟩, ⟨hw₀, hh₀⟩, ⟨hw₁, hh₁⟩, ⟨hr₀, hr₁⟩, hrepaints, hpasses⟩
    exact ⟨hdepth, hw, hh, Nat.pos_of_ne_zero hw₀, Nat.pos_of_ne_zero hh₀, hw₁, hh₁,
      Nat.pos_of_ne_zero hr₀, Nat.not_le.mp hr₁, Nat.pos_of_ne_zero hrepaints,
      Nat.pos_of_ne_zero hpasses⟩
  · rintro ⟨hdepth, hw, hh, hw₀, hh₀, hw₁, hh₁, hr₀, hr₁, hrepaints, hpasses⟩
    exact ⟨hdepth, ⟨hw, hh⟩, ⟨Nat.ne_of_gt hw₀, Nat.ne_of_gt hh₀⟩, ⟨hw₁, hh₁⟩,
      ⟨Nat.ne_of_gt hr₀, Nat.not_le.mpr hr₁⟩, Nat.ne_of_gt hrepaints, Nat.ne_of_gt hpasses⟩

/-- The words that a filling draws from: those of the chosen seed, or of `entropy` where none is
chosen. -/
def keystream (settings : Settings) (entropy : UInt64) : Keystream :=
  .ofSeed (settings.seed.getD entropy)

/-- How many repaints a level gets. -/
def repaintsAt (settings : Settings) (level : Nat) : Nat :=
  min (2 * level) settings.maxRepaints

/-- How many passes come before each repaint of a level. -/
def passesAt (settings : Settings) (level : Nat) : Nat :=
  min level settings.maxPasses

end Settings

end Retouch
