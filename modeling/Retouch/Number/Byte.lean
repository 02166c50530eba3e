/-!
# Retouch — Number — Byte

Between samples and fractions.  A sample is an 8-bit number; normalized, it is a single-precision
fraction of 255.  The way back rounds to the nearest sample, a half going away from zero.
-/

namespace Retouch.Byte

/-- The sample nearest to `v`, a half going up; values beyond the byte range end at its ends,
and what is not a number counts as 0. -/
def nearest (v : Float32) : UInt8 :=
  let whole := v.toUInt8
  if v - whole.toFloat32 ≥ 0.5 ∧ whole < 255 then whole + 1 else whole

/-- `v` moved into `0 … 1`; what is not a number stays as it is. -/
def clampUnit (v : Float32) : Float32 :=
  if v < 0.0 then 0.0 else if v > 1.0 then 1.0 else v

/-- The sample for the fraction `v`, clamped into the byte range. -/
def ofUnit (v : Float32) : UInt8 :=
  nearest (clampUnit v * 255.0)

/-- A sample as a fraction of 255. -/
def toUnit (b : UInt8) : Float32 :=
  b.toFloat32 / 255.0

/-- The distance between two samples, squared. -/
def squaredDifference (a b : UInt8) : Nat :=
  let d := if a ≤ b then b.toNat - a.toNat else a.toNat - b.toNat
  d * d

/-- The largest squared difference of two samples. -/
def squaredSpan : Nat := 255 * 255

theorem squaredDifference_comm (a b : UInt8) : squaredDifference a b = squaredDifference b a := by
  simp only [squaredDifference, UInt8.le_iff_toNat_le]
  by_cases h : a.toNat = b.toNat
  · simp [h]
  · rcases Nat.lt_or_gt_of_ne h with h | h <;> simp [Nat.le_of_lt h, Nat.not_le.mpr h]

theorem squaredDifference_le (a b : UInt8) : squaredDifference a b ≤ squaredSpan := by
  have ha := a.toNat_lt
  have hb := b.toNat_lt
  simp only [squaredDifference, squaredSpan]
  split <;> exact Nat.mul_le_mul (by omega) (by omega)

end Retouch.Byte
