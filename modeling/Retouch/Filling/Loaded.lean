import Retouch.Canvas.Loaded
import Retouch.Filling.Run

/-!
# Retouch — Filling — Images as they are loaded

Images and masks that are filled may go on behind their last pixels.  The settings do not look
there (`Settings.check` reads sides and channels), and neither do levels and repaints: halving
makes new rasters, and a patch ends at the border.  But the flags behind the last pixel of the mask
are counted when it is asked whether a hole is left, so a run may set out because of them; and a
canvas that is not halved even once comes back with all that it has.  In the end known pixels are
put back one by one, which comes to `Canvas.restore?` (`LoadedCanvas.restore?_loaded`).
-/

namespace Retouch

/-- What filling a loaded image ends with, and what happened on the way. -/
structure LoadedOutcome where
  canvas : LoadedCanvas
  events : List Event
  phases : List Phase

/-- An outcome with nothing behind the last pixel. -/
def Outcome.loaded (outcome : Outcome) : LoadedOutcome :=
  ⟨outcome.canvas.loaded, outcome.events, outcome.phases⟩

namespace Resizing

variable {σ : Type} [WordSource σ]

/-- Fills the holes of a canvas as it is kept.  Without a second level it comes back as it is;
otherwise the outcome has new rasters. -/
def runLoaded (resize : Resizing) (settings : Settings) (start : σ) (initial : LoadedCanvas) :
    Except Fault LoadedOutcome := do
  let outcome ← resize.run settings start initial.canvas
  if (Pyramid.build initial.canvas settings.radius).coarsest = 0 then
    return ⟨initial, outcome.events, outcome.phases⟩
  return outcome.loaded

/-- Fills the pixels of a loaded image whose mask sample is above the threshold. -/
def fillLoaded? (resize : Resizing) (settings : Settings) (start : σ) (image mask : Loaded) :
    Except Failure LoadedOutcome := do
  Failure.ofRefusal (settings.check image.raster mask.raster)
  let initial ← LoadedCanvas.pair? image (mask.threshold settings.threshold)
  Failure.ofFault (resize.runLoaded settings start initial)

/-- Fills the holes of a canvas as it is kept; the result has the mask of the canvas again. -/
def fillLoadedCanvas? (resize : Resizing) (settings : Settings) (start : σ)
    (initial : LoadedCanvas) : Except Failure LoadedOutcome := do
  Failure.ofRefusal (settings.check initial.image.raster initial.mask.raster)
  let outcome ← Failure.ofFault (resize.runLoaded settings start initial)
  let canvas ← LoadedCanvas.pair? outcome.canvas.image initial.mask
  return { outcome with canvas }

end Resizing

end Retouch
