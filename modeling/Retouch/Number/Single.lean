/-!
# Retouch — Number — Single

Counts and positions in single precision, and the way back to whole numbers.  Numbers below zero
and what is not a number become 0 on the way back.
-/

namespace Retouch.Single

/-- A count in single precision. -/
def ofCount (n : Nat) : Float32 :=
  n.toUInt64.toFloat32

/-- The largest whole number up to `v`. -/
def floor (v : Float32) : Nat :=
  v.toUInt64.toNat

/-- The least whole number from `v` on. -/
def ceil (v : Float32) : Nat :=
  let whole := v.toUInt64
  if whole.toFloat32 < v then whole.toNat + 1 else whole.toNat

/-- The largest whole number up to `v`, kept below `n`. -/
def floorBelow (v : Float32) (n : Nat) : Nat :=
  min (floor v) (n - 1)

theorem floorBelow_lt (v : Float32) {n : Nat} (hn : 0 < n) : floorBelow v n < n :=
  Nat.lt_of_le_of_lt (Nat.min_le_right _ _) (Nat.sub_lt hn Nat.one_pos)

end Retouch.Single
