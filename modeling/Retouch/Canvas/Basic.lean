import Retouch.Number.Sum
import Retouch.Raster.Halve
import Retouch.Raster.Packed

/-!
# Retouch — Canvas

A canvas is an image together with a mask of the same size: a cell whose mask sample is not zero
is a *hole*, the part of the image to be filled.  The canvas keeps a flag per cell (`holes`)
beside the mask raster, so that tests are quick; every operation changes both together.
`Canvas.Consistent` says that they agree, and each operation has a lemma that it keeps them so.

A canvas is built by `pair?`, which refuses a mask of the wrong depth or size.
-/

namespace Retouch

/-- An image, its mask, and the hole flag of every mask cell. -/
structure Canvas where
  image : Raster
  mask : Raster
  holes : Array Bool
  deriving DecidableEq

namespace Canvas

/-- The hole flags of a mask. -/
def holesOf (mask : Raster) : Array Bool :=
  mask.samples.map (· ≠ 0)

/-- The canvas of an image and a mask. -/
def ofParts (image mask : Raster) : Canvas :=
  ⟨image, mask, holesOf mask⟩

/-- Number of columns. -/
def width (c : Canvas) : Nat :=
  c.image.width

/-- Number of rows. -/
def height (c : Canvas) : Nat :=
  c.image.height

/-- Number of cells. -/
def area (c : Canvas) : Nat :=
  c.image.area

/-- The channels of the image. -/
def layout (c : Canvas) : Layout :=
  c.image.layout

/-- Samples per pixel of the image. -/
def depth (c : Canvas) : Nat :=
  c.image.depth

/-- Whether cell `p` is a hole. -/
def isHole (c : Canvas) (p : Nat) : Bool :=
  c.holes.getD p false

/-- The position of column `x`, row `y`. -/
def cell (c : Canvas) (x y : Nat) : Nat :=
  y * c.width + x

/-- Whether column `x`, row `y` lies inside the canvas. -/
def contains (c : Canvas) (x y : Int) : Bool :=
  0 ≤ x && x < c.width && 0 ≤ y && y < c.height

/-- Whether column `x`, row `y` lies inside the canvas and is no hole. -/
def isOpen (c : Canvas) (x y : Int) : Bool :=
  c.contains x y && !c.isHole (c.cell x.toNat y.toNat)

/-- Number of holes. -/
def countHoles (c : Canvas) : Nat :=
  c.holes.count true

/-- Image and mask have one size, the mask has one channel, and the flags say what the mask
says. -/
structure Consistent (c : Canvas) : Prop where
  width_eq : c.mask.width = c.image.width
  height_eq : c.mask.height = c.image.height
  depth_mask : c.mask.depth = 1
  holes_eq : c.holes = holesOf c.mask

/-! ### Building -/

/-- What stands against a mask for this image. -/
def checkMask (image mask : Raster) : Except Refusal Unit :=
  if mask.depth ≠ 1 then
    .error (.maskDepth mask.depth)
  else if image.width ≠ mask.width ∨ image.height ≠ mask.height then
    .error (.maskSize image.width image.height mask.width mask.height)
  else
    .ok ()

/-- Whether the rows of a raster of this width can be walked: their length fits its word. -/
def checkRows (width depth : Nat) : Except Fault Unit :=
  Fault.overflow.unless (width * depth < Word.span64)

/-- Pairs an image with its mask. -/
def pair? (image mask : Raster) : Except Failure Canvas := do
  Failure.ofRefusal (checkMask image mask)
  Failure.ofFault (checkRows image.width image.depth)
  return ofParts image mask

/-! ### Access by column and row -/

/-- The position of `(x, y)` among the hole flags. -/
def flag? (c : Canvas) (x y : Nat) : Except Fault Nat := do
  Fault.outOfRange.unless (c.cell x y < c.holes.size)
  return c.cell x y

/-- Whether `(x, y)` is a hole. -/
def isHole? (c : Canvas) (x y : Nat) : Except Fault Bool :=
  return c.isHole (← c.flag? x y)

/-- The samples of the pixel at `(x, y)`. -/
def pixel? (c : Canvas) (x y : Nat) : Except Fault (List UInt8) :=
  c.image.pixel? x y

/-- Replaces the pixel at `(x, y)`. -/
def setPixel? (c : Canvas) (x y : Nat) (bytes : List UInt8) : Except Fault Canvas :=
  return { c with image := ← c.image.setPixel? x y bytes }

/-- Makes cell `p` a hole, or no hole. -/
def markCell (c : Canvas) (p : Nat) (hole : Bool) : Canvas :=
  { c with
    mask := c.mask.withSample p (if hole then 255 else 0)
    holes := c.holes.setIfInBounds p hole }

/-- Makes `(x, y)` a hole, or no hole. -/
def setHole? (c : Canvas) (x y : Nat) (hole : Bool) : Except Fault Canvas :=
  return c.markCell (← c.flag? x y) hole

/-! ### Whole-canvas operations -/

/-- The canvas without holes. -/
def clearHoles (c : Canvas) : Canvas :=
  { c with
    mask := c.mask.map fun _ => 0
    holes := c.holes.map fun _ => false }

/-- The canvas with another image, of the same shape. -/
def withImage (c : Canvas) (image : Raster) : Canvas :=
  { c with image }

/-- The canvas at half its size; unchanged when a side would vanish. -/
def halve (c : Canvas) : Canvas :=
  if c.image.halvable then ofParts c.image.halve c.mask.halve else c

/-- Image and mask at another size. -/
def scaleTo (c : Canvas) (scaler : Scaler) (width height : Nat) : Canvas :=
  ofParts (c.image.scaleTo scaler width height) (c.mask.scaleTo scaler width height)

/-- `scaleTo`, provided that the result can be allocated. -/
def scaleTo? (c : Canvas) (scaler : Scaler) (width height : Nat) : Except Fault Canvas := do
  Raster.checkSize width height c.layout
  Raster.checkSize width height c.mask.layout
  checkRows width c.depth
  return c.scaleTo scaler width height

/-- Image and mask at another size, scaled as packed pixels, provided that the result can be
allocated. -/
def resample? (c : Canvas) (scaler : PackedScaler) (width height : Nat) : Except Fault Canvas := do
  let image ← c.image.resample? scaler width height
  let mask ← c.mask.resample? scaler width height
  checkRows width c.depth
  return ofParts image mask

/-- Takes every pixel that is no hole in `known` from there. -/
def restore (c known : Canvas) : Canvas :=
  c.withImage <| .generate c.width c.height c.layout fun p k =>
    if known.isHole p then c.image.sample p k else known.image.sample p k

/-- `restore`, provided that the sizes agree, and that the pixels to be copied have as many
channels as the ones they replace. -/
def restore? (c known : Canvas) : Except Fault Canvas := do
  Fault.sizeMismatch.unless (c.width = known.width ∧ c.height = known.height)
  Fault.sizeMismatch.unless
    (c.depth = known.depth ∨ (List.range known.area).all known.isHole)
  return c.restore known

/-! ### Comparing pixels -/

/-- The sum of the squared differences of the channels that two pixels share. -/
def squaredDifference (c other : Canvas) (p q : Nat) : Nat :=
  Sum.below (min c.depth other.depth) fun k =>
    Byte.squaredDifference (c.image.sample p k) (other.image.sample q k)

/-- The squared difference of the pixel at `(x, y)` and the one at `(x', y')` of another canvas,
provided that it fits a 32-bit word. -/
def squaredDifference? (c : Canvas) (x y : Nat) (other : Canvas) (x' y' : Nat) :
    Except Fault Nat := do
  let p ← c.image.slot? x y
  let q ← other.image.slot? x' y'
  Fault.overflow.unless (c.squaredDifference other p q < Word.span32)
  return c.squaredDifference other p q

end Canvas

end Retouch
