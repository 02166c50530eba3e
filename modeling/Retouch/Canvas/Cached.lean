import Retouch.Canvas.Loaded

/-!
# Retouch — Canvas — A second copy of the samples

A canvas together with a flat copy of the samples of its image.  This is how canvases are kept
(`LoadedCanvas`) when there is nothing behind the last pixel, and all that a repaint needs of it:
the buffer in which the outcome has been collected takes the place of the samples on both sides.
-/

namespace Retouch

/-- A canvas with a second copy of the samples of its image. -/
structure CachedCanvas extends Canvas where
  pixels : Array UInt8
  deriving DecidableEq

/-- Replaces all samples by as many others, which become the copy. -/
def CachedCanvas.replacePixels? (c : CachedCanvas) (pixels : Array UInt8) :
    Except Fault CachedCanvas := do
  Fault.sizeMismatch.unless (pixels.size = c.pixels.size)
  return { c with image := ← c.image.replaceSamples? pixels, pixels }

/-- The canvas as it is kept. -/
def CachedCanvas.loaded (c : CachedCanvas) : LoadedCanvas :=
  ⟨.ofRaster c.image, .ofRaster c.mask, c.pixels, c.holes⟩

/-- The canvas with a copy of its samples. -/
def Canvas.cached (c : Canvas) : CachedCanvas :=
  { c with pixels := c.image.samples }

end Retouch
