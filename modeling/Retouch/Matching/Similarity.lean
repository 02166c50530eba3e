import Retouch.Number.Tangent

/-!
# Retouch — Matching — Similarity

How much a match counts when it votes.  Distances run from 0, a perfect match, to `maxDistance`,
which also stands for "no valid match".  The weight falls along a hyperbolic tangent from nearly
1 at distance 0 through one half at a tenth of the range to nearly 0; it is computed in double
precision and stored in single precision.
-/

namespace Retouch

/-- The largest distance of two patches. -/
def maxDistance : Nat := 65535

namespace Similarity

/-- The share of the distance range at which a match has half its weight. -/
def halfWay : Float := 0.10

/-- The steepness of the fall: it gives a perfect match the weight 0.999. -/
def steepness : Float := 34.53377389324276

/-- The weight before it is stored, for a distance in range. -/
def curve (distance : Nat) : Float :=
  let t := distance.toUInt64.toFloat / maxDistance.toUInt64.toFloat
  0.5 - 0.5 * Tangent.tanh (steepness * (t - halfWay))

/-- A fraction of 2⁵⁴ in single precision. -/
def narrow (w : Float) : Float32 :=
  (w * 18014398509481984.0).toUInt64.toFloat32 / 18014398509481984.0

/-- The voting weight of a match; distances beyond the range count as the largest one. -/
def weight (distance : Nat) : Float32 :=
  narrow (curve (min distance maxDistance))

end Similarity

end Retouch
