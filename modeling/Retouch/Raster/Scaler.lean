import Retouch.Number.Byte
import Retouch.Number.Single

/-!
# Retouch — Raster — Scaler

A scaler brings one plane of samples from one size to another.  The library is written for any
scaler; the one in use is `Scaler.triangle`, a separable filter in single precision.

Along one axis an output sample is a weighted mean of the input samples near its centre
(`Taps`).  The weights fall off linearly from the centre and reach zero one sample away, or one
output step away when the plane shrinks, and they are scaled to add up to one.  Columns are
filtered first and kept unrounded, then rows, and only the end is rounded.
-/

namespace Retouch

/-- A way of bringing a plane of samples, row by row, to another size. -/
structure Scaler where
  /-- The plane of `width × height` samples at the size `width' × height'`. -/
  scale (width height : Nat) (plane : Array UInt8) (width' height' : Nat) : Array UInt8
  size_scale (width height : Nat) (plane : Array UInt8) (width' height' : Nat) :
    (scale width height plane width' height').size = width' * height'

/-! ### The weights of one output sample -/

/-- Consecutive input samples, from `first` on, and the weight of each. -/
structure Taps where
  first : Nat
  weights : List Float32

namespace Taps

/-- The height of the triangle of width two at distance `v` from its centre. -/
def tent (v : Float32) : Float32 :=
  let a := v.abs
  if a < 1.0 then 1.0 - a else 0.0

/-- The taps of output sample `o` when `n` samples become `m`. -/
def compute (n m o : Nat) : Taps :=
  let ratio := Single.ofCount n / Single.ofCount m
  let reach := if ratio < 1.0 then 1.0 else ratio
  let centre := (Single.ofCount o + 0.5) * ratio
  let first := Single.floorBelow (centre - reach) n
  let stop := min (max (Single.ceil (centre + reach)) (first + 1)) n
  let heights := (List.range' first (stop - first)).map fun i =>
    tent ((Single.ofCount i - (centre - 0.5)) / reach)
  let total := heights.foldl (· + ·) 0.0
  ⟨first, heights.map (· / total)⟩

/-- The sum of `value first * w₀ + value (first + 1) * w₁ + …`, added up in this order from
`sum`. -/
def accumulate (value : Nat → Float32) (first : Nat) (sum : Float32) : List Float32 → Float32
  | [] => sum
  | w :: weights => accumulate value (first + 1) (sum + value first * w) weights

/-- The weighted mean of the values under the taps. -/
def apply (taps : Taps) (value : Nat → Float32) : Float32 :=
  accumulate value taps.first 0.0 taps.weights

end Taps

/-! ### The triangle filter -/

namespace Scaler

/-- The taps of all output samples of an axis. -/
def axis (n m : Nat) : Array Taps :=
  Array.ofFn fun o : Fin m => Taps.compute n m o

/-- Brings the columns of a plane from `height` to `height'` samples, unrounded. -/
def filterColumns (width height : Nat) (plane : Array UInt8) (height' : Nat) : Array Float32 :=
  let taps := axis height height'
  Array.ofFn fun i : Fin (width * height') =>
    (taps.getD (i / width) ⟨0, []⟩).apply fun y =>
      (plane.getD (y * width + i % width) 0).toFloat32

/-- Brings the rows of an unrounded plane from `width` to `width'` samples and rounds. -/
def filterRows (width : Nat) (plane : Array Float32) (width' height' : Nat) : Array UInt8 :=
  let taps := axis width width'
  Array.ofFn fun i : Fin (width' * height') =>
    Byte.nearest ((taps.getD (i % width') ⟨0, []⟩).apply fun x =>
      plane.getD (i / width' * width + x) 0.0)

/-- The triangle filter; a plane that has the wanted size already is taken as it is. -/
def triangle : Scaler where
  scale width height plane width' height' :=
    if width = width' ∧ height = height' then
      Array.ofFn fun i : Fin (width' * height') => plane.getD i 0
    else
      filterRows width (filterColumns width height plane height') width' height'
  size_scale width height plane width' height' := by
    split <;> simp [filterRows]

end Scaler

end Retouch
