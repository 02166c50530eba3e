import Retouch.Canvas.Basic
import Retouch.Raster.Loaded

/-!
# Retouch — Canvas — Copies

A canvas as it is kept in memory has everything twice: beside the image and the mask it holds a
flat copy of the samples of the image, and the hole flags.  Pixels and holes are read from the
copies, and every operation has to change both sides: a pixel is written twice, a whole buffer is
swapped and copied, and where an operation makes new rasters the copies are made anew, row by row
(`recached`).

Image and mask are loaded rasters, so both may hold samples behind the last pixel.  The rows of a
buffer reach as far as the buffer, and so do the copies: there can be pixels and flags behind the
last pixel, and operations that go along a whole buffer do not stop at it.  New rasters have
nothing there.

`Edit` lists the operations as data, and `edits?` does them one after the other.  The canvases that
the rest of the library is written with are what such a canvas shows (`LoadedCanvas.canvas`): its
rasters, and its flags.
-/

namespace Retouch

/-- An image and its mask, with a copy of the samples of the image and the flags of the mask. -/
structure LoadedCanvas where
  image : Loaded
  mask : Loaded
  pixels : Array UInt8
  holes : Array Bool
  deriving DecidableEq

namespace LoadedCanvas

/-- Number of columns. -/
def width (c : LoadedCanvas) : Nat :=
  c.image.width

/-- Number of rows. -/
def height (c : LoadedCanvas) : Nat :=
  c.image.height

/-- Samples per pixel of the image. -/
def depth (c : LoadedCanvas) : Nat :=
  c.image.depth

/-- The rasters of the canvas, with all flags. -/
def canvas (c : LoadedCanvas) : Canvas :=
  ⟨c.image.raster, c.mask.raster, c.holes⟩

/-- Number of holes, those behind the last pixel included. -/
def countHoles (c : LoadedCanvas) : Nat :=
  c.holes.count true

/-- The rows one after the other, with `f` applied to every sample. -/
def copyRows {α : Type} (f : UInt8 → α) (rows : List (List UInt8)) : Array α :=
  rows.foldl (fun copy row => copy.appendList (row.map f)) #[]

/-- The rasters with copies made of their rows. -/
def recached (image mask : Loaded) : LoadedCanvas where
  image
  mask
  pixels := copyRows id image.rows
  holes := copyRows (· ≠ 0) mask.rows

/-- Pairs an image with its mask. -/
def pair? (image mask : Loaded) : Except Failure LoadedCanvas := do
  Failure.ofRefusal (Canvas.checkMask image.raster mask.raster)
  Failure.ofFault (Canvas.checkRows image.width image.depth)
  return recached image mask

/-! ### Access by column and row -/

/-- The pixel at `(x, y)`, counted along the copy. -/
def slot? (c : LoadedCanvas) (x y : Nat) : Except Fault Nat := do
  let p := y * c.width + x
  Fault.outOfRange.unless (p < Word.span64 ∧ (p + 1) * c.depth ≤ c.pixels.size)
  return p

/-- The samples of the pixel at `(x, y)`, from the copy. -/
def pixel? (c : LoadedCanvas) (x y : Nat) : Except Fault (List UInt8) := do
  let p ← c.slot? x y
  return (List.range c.depth).map fun k => c.pixels.getD (p * c.depth + k) 0

/-- Replaces the pixel at `(x, y)`, first in the copy. -/
def setPixel? (c : LoadedCanvas) (x y : Nat) (bytes : List UInt8) : Except Fault LoadedCanvas := do
  let p ← c.slot? x y
  Fault.sizeMismatch.unless (bytes.length = c.depth)
  let pixels := Raster.overwrite c.pixels (p * c.depth) bytes
  return { c with image := ← c.image.setPixel? x y bytes, pixels }

/-- Replaces all samples by as many others, which become the copy. -/
def replacePixels? (c : LoadedCanvas) (pixels : Array UInt8) : Except Fault LoadedCanvas := do
  Fault.sizeMismatch.unless (pixels.size = c.pixels.size)
  return { c with image := ← c.image.replaceSamples? pixels, pixels }

/-- The position of `(x, y)` among the hole flags. -/
def flag? (c : LoadedCanvas) (x y : Nat) : Except Fault Nat := do
  let p := y * c.width + x
  Fault.outOfRange.unless (p < c.holes.size)
  return p

/-- Whether `(x, y)` is a hole. -/
def isHole? (c : LoadedCanvas) (x y : Nat) : Except Fault Bool := do
  let p ← c.flag? x y
  return c.holes.getD p false

/-- Makes `(x, y)` a hole, or no hole. -/
def setHole? (c : LoadedCanvas) (x y : Nat) (hole : Bool) : Except Fault LoadedCanvas := do
  let p ← c.flag? x y
  let holes := c.holes.setIfInBounds p hole
  return { c with mask := ← c.mask.setSample? p (if hole then 255 else 0), holes }

/-! ### Whole-canvas operations -/

/-- The canvas without holes. -/
def clearHoles (c : LoadedCanvas) : LoadedCanvas :=
  { c with mask := c.mask.map fun _ => 0, holes := c.holes.map fun _ => false }

/-- The canvas at half its size; unchanged when a side would vanish. -/
def halve (c : LoadedCanvas) : LoadedCanvas :=
  if c.image.raster.halvable then
    recached (.ofRaster c.image.raster.halve) (.ofRaster c.mask.raster.halve)
  else
    c

/-- Image and mask at another size, provided that they can be allocated. -/
def scaleTo? (c : LoadedCanvas) (scaler : PackedScaler) (width height : Nat) :
    Except Fault LoadedCanvas := do
  let image ← c.image.raster.resample? scaler width height
  let mask ← c.mask.raster.resample? scaler width height
  Canvas.checkRows width c.depth
  return recached (.ofRaster image) (.ofRaster mask)

/-- Takes the pixel at `(x, y)` from `known`, unless it is a hole there. -/
def restorePixel? (known : LoadedCanvas) (y : Nat) (c : LoadedCanvas) (x : Nat) :
    Except Fault LoadedCanvas := do
  if ← known.isHole? x y then
    return c
  c.setPixel? x y (← known.pixel? x y)

/-- Takes every pixel that is no hole in `known` from there, row by row. -/
def restore? (c known : LoadedCanvas) : Except Fault LoadedCanvas := do
  Fault.sizeMismatch.unless (c.width = known.width ∧ c.height = known.height)
  (List.range c.height).foldlM
    (fun c y => (List.range c.width).foldlM (restorePixel? known y) c) c

/-! ### Edits -/

/-- Something that can be done to a canvas. -/
inductive Edit where
  | setPixel (x y : Nat) (bytes : List UInt8)
  | setHole (x y : Nat) (hole : Bool)
  | clearHoles
  | replacePixels (pixels : Array UInt8)
  | halve
  | restore (known : LoadedCanvas)
  | scaleTo (scaler : PackedScaler) (width height : Nat)

/-- The canvas after an edit. -/
def edit? (c : LoadedCanvas) : Edit → Except Fault LoadedCanvas
  | .setPixel x y bytes => c.setPixel? x y bytes
  | .setHole x y hole => c.setHole? x y hole
  | .clearHoles => .ok c.clearHoles
  | .replacePixels pixels => c.replacePixels? pixels
  | .halve => .ok c.halve
  | .restore known => c.restore? known
  | .scaleTo scaler width height => c.scaleTo? scaler width height

/-- The canvas after edits, done in order. -/
def edits? (c : LoadedCanvas) (edits : List Edit) : Except Fault LoadedCanvas :=
  edits.foldlM edit? c

end LoadedCanvas

/-- The canvas as it is kept when there is nothing behind its last pixel. -/
def Canvas.loaded (c : Canvas) : LoadedCanvas :=
  ⟨.ofRaster c.image, .ofRaster c.mask, c.image.samples, c.holes⟩

end Retouch
