import Retouch.Canvas.Cached
import Retouch.Canvas.Consistent

/-!
# Retouch — Canvas — Mirrored samples

A canvas with a copy of its samples is *mirrored* when it is consistent and the copy holds the
samples of its image (`CachedCanvas.Mirrors`).  Then it is the plain canvas, copied
(`Mirrors.eq_cached`), and a new buffer that takes the place of both is again on both sides
(`replacePixels?_cached`).  This is what happens to the canvas as it is kept
(`loaded_replacePixels?`).
-/

namespace Retouch.CachedCanvas

variable {c : CachedCanvas} {d : Canvas}

@[simp]
theorem toCanvas_cached (d : Canvas) : d.cached.toCanvas = d :=
  rfl

@[simp]
theorem pixels_cached (d : Canvas) : d.cached.pixels = d.image.samples :=
  rfl

theorem loaded_cached (d : Canvas) : d.cached.loaded = d.loaded :=
  rfl

/-- A buffer takes the place of the samples of a canvas as it is kept. -/
theorem loaded_replacePixels? (c : CachedCanvas) (pixels : Array UInt8) :
    c.loaded.replacePixels? pixels = (c.replacePixels? pixels).map loaded := by
  have himage : c.loaded.image.replaceSamples? pixels =
      (c.image.replaceSamples? pixels).map .ofRaster :=
    Loaded.replaceSamples?_ofRaster c.image pixels
  rw [LoadedCanvas.replacePixels?, replacePixels?, himage]
  by_cases hcopy : pixels.size = c.pixels.size
  · rw [Fault.unless_of hcopy, Fault.unless_of (show pixels.size = c.loaded.pixels.size from hcopy)]
    cases c.image.replaceSamples? pixels <;> rfl
  · rw [Fault.unless_of_not hcopy,
      Fault.unless_of_not (show ¬ pixels.size = c.loaded.pixels.size from hcopy)]
    rfl

theorem replacePixels?_cached (d : Canvas) (pixels : Array UInt8) :
    d.cached.replacePixels? pixels =
      (d.image.replaceSamples? pixels).map fun image => (d.withImage image).cached := by
  rw [replacePixels?, pixels_cached, toCanvas_cached, Raster.replaceSamples?]
  by_cases hsize : pixels.size = d.image.samples.size
  · rw [Fault.unless_of hsize, dif_pos hsize]
    rfl
  · rw [Fault.unless_of_not hsize, dif_neg hsize]
    rfl

/-- The canvas is consistent, and its copy holds the samples of its image. -/
structure Mirrors (c : CachedCanvas) : Prop where
  consistent : c.toCanvas.Consistent
  pixels_eq : c.pixels = c.image.samples

theorem mirrors_cached (hd : d.Consistent) : d.cached.Mirrors :=
  ⟨hd, rfl⟩

theorem Mirrors.eq_cached (h : c.Mirrors) : c = c.toCanvas.cached := by
  obtain ⟨d, pixels⟩ := c
  obtain rfl : pixels = d.image.samples := h.pixels_eq
  rfl

end Retouch.CachedCanvas
