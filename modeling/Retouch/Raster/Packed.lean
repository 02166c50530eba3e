import Retouch.Raster.Planes

/-!
# Retouch — Raster — Packed pixels

Scaling as it is done on pixels whose samples lie side by side.  A packed scaler takes pixels of any
number of samples; the one in use, `PackedScaler.triangle`, takes the sample of every channel as the
same weighted mean, first along the columns and then along the rows.

A raster hands its pixels to the scaler in one of two ways (`Raster.resample?`).  In the gray
layout and the two coloured ones all channels are scaled at once, and the outcome is the new buffer
(`scalePixels?`).  In any other layout each channel is scaled by itself, as pixels of one sample,
and written into its places of the new buffer (`scalePlane?`).  Scalers count in 32-bit words, so
of all sides they get what fits such a word.
-/

namespace Retouch

/-- A way of bringing pixels, row by row, to another size. -/
structure PackedScaler where
  /-- The `width × height` pixels of `depth` samples each, at the size `width' × height'`. -/
  scale (depth width height : Nat) (samples : Array UInt8) (width' height' : Nat) : Array UInt8
  size_scale (depth width height : Nat) (samples : Array UInt8) (width' height' : Nat) :
    (scale depth width height samples width' height').size = width' * height' * depth

namespace PackedScaler

/-! ### The triangle filter -/

/-- Brings the columns of pixels from `height` to `height'`, unrounded. -/
def filterColumns (depth width height : Nat) (samples : Array UInt8) (height' : Nat) :
    Array Float32 :=
  let taps := Scaler.axis height height'
  Array.ofFn fun i : Fin (width * height' * depth) =>
    let p := i / depth
    (taps.getD (p / width) ⟨0, []⟩).apply fun y =>
      (samples.getD ((y * width + p % width) * depth + i % depth) 0).toFloat32

/-- Brings the rows of unrounded pixels from `width` to `width'` and rounds. -/
def filterRows (depth width : Nat) (samples : Array Float32) (width' height' : Nat) :
    Array UInt8 :=
  let taps := Scaler.axis width width'
  Array.ofFn fun i : Fin (width' * height' * depth) =>
    let p := i / depth
    Byte.nearest ((taps.getD (p % width') ⟨0, []⟩).apply fun x =>
      samples.getD ((p / width' * width + x) * depth + i % depth) 0.0)

/-- The triangle filter; pixels that have the wanted size already are taken as they are. -/
def triangle : PackedScaler where
  scale depth width height samples width' height' :=
    if width = width' ∧ height = height' then
      Array.ofFn fun i : Fin (width' * height' * depth) => samples.getD i 0
    else
      filterRows depth width (filterColumns depth width height samples height') width' height'
  size_scale depth width height samples width' height' := by
    split <;> simp [filterRows]

/-- The scaler of planes: pixels of one sample. -/
def planes (scaler : PackedScaler) : Scaler where
  scale := scaler.scale 1
  size_scale width height plane width' height' := by
    rw [scaler.size_scale, Nat.mul_one]

end PackedScaler

namespace Raster

/-- What a scaler gets of a side. -/
def castSide (n : Nat) : Nat :=
  n % Word.span32

/-- The `count` samples from channel `first` on of the pixel at `(x, y)`. -/
def channels? (r : Raster) (first count x y : Nat) : Except Fault (List UInt8) := do
  let bytes ← r.pixel? x y
  (List.range count).mapM fun k =>
    match bytes[first + k]? with
    | some v => .ok v
    | none => .error .outOfRange

/-- Those samples of all pixels in the first `width` columns and `height` rows. -/
def gather? (r : Raster) (first count width height : Nat) : Except Fault (Array UInt8) := do
  let pixels ← (List.range (width * height)).mapM fun p =>
    r.channels? first count (p % width) (p / width)
  return pixels.flatten.toArray

/-- `count` channels from `first` on, scaled together. -/
def scaleChannels? (r : Raster) (scaler : PackedScaler) (first count width height : Nat) :
    Except Fault (Array UInt8) := do
  let (sourceWidth, sourceHeight) := (castSide r.width, castSide r.height)
  let samples ← r.gather? first count sourceWidth sourceHeight
  return scaler.scale count sourceWidth sourceHeight samples (castSide width) (castSide height)

/-- All channels of `r`, scaled at once, in place of the samples of `out`. -/
def scalePixels? (r : Raster) (scaler : PackedScaler) (out : Raster) : Except Fault Raster := do
  out.replaceSamples? (← r.scaleChannels? scaler 0 r.depth out.width out.height)

/-- Channel `c` of `r`, scaled by itself and written into `out` pixel by pixel. -/
def scalePlane? (r : Raster) (scaler : PackedScaler) (out : Raster) (c : Nat) :
    Except Fault Raster := do
  let scaled ← r.scaleChannels? scaler c 1 out.width out.height
  (List.range scaled.size).foldlM
    (fun out p => out.setSample? (p * r.depth + c) (scaled.getD p 0)) out

/-- All channels of `r`, scaled one after the other. -/
def scalePlanes? (r : Raster) (scaler : PackedScaler) (out : Raster) : Except Fault Raster :=
  (List.range r.depth).foldlM (r.scalePlane? scaler) out

/-- The raster at the size `width × height`, provided that it can be allocated. -/
def resample? (r : Raster) (scaler : PackedScaler) (width height : Nat) : Except Fault Raster := do
  let out ← blank? width height r.layout
  if r.width = 0 ∨ r.height = 0 ∨ width = 0 ∨ height = 0 then
    return out
  if r.layout = .gray ∨ r.layout = .rgb ∨ r.layout = .rgba then
    r.scalePixels? scaler out
  else
    r.scalePlanes? scaler out

end Raster

end Retouch
