import Retouch.Number.Blend
import Retouch.Raster.Basic

/-!
# Retouch — Raster — Halve

A raster at half its size: every pixel is the even mean of a block of two by two.  A last column
or row without a partner is dropped, and a raster that has no full block stays as it is.
-/

namespace Retouch.Raster

/-- The four pixels of the block at column `x` and row `y` of the halved raster, by position. -/
def block (r : Raster) (x y : Nat) : List Nat :=
  [2 * y * r.width + 2 * x, 2 * y * r.width + (2 * x + 1),
   (2 * y + 1) * r.width + 2 * x, (2 * y + 1) * r.width + (2 * x + 1)]

/-- Whether halving leaves at least one pixel on each side. -/
def halvable (r : Raster) : Bool :=
  2 ≤ r.width && 2 ≤ r.height

/-- The raster of block means. -/
def blockMeans (r : Raster) : Raster :=
  generate (r.width / 2) (r.height / 2) r.layout fun p c =>
    let values := (r.block (p % (r.width / 2)) (p / (r.width / 2))).map (r.sample · c)
    Blend.mean values Blend.quarters

/-- The raster at half its size, rounded down; unchanged when a side would vanish. -/
def halve (r : Raster) : Raster :=
  if r.halvable then r.blockMeans else r

variable {r : Raster}

theorem two_le_of_halvable (h : r.halvable = true) : 2 ≤ r.width ∧ 2 ≤ r.height := by
  simpa [halvable] using h

theorem width_halve (h : r.halvable = true) : r.halve.width = r.width / 2 := by
  rw [halve, if_pos h]
  rfl

theorem height_halve (h : r.halvable = true) : r.halve.height = r.height / 2 := by
  rw [halve, if_pos h]
  rfl

@[simp]
theorem layout_halve (r : Raster) : r.halve.layout = r.layout := by
  unfold halve
  split <;> rfl

end Retouch.Raster
