import Mathlib.Data.Rat.Cast.Order
import Mathlib.Tactic.Linarith
import Mathlib.Tactic.Positivity
import Mathlib.Tactic.Ring
import Retouch.Proofs.Canvas.Blocks

/-!
# Retouch — Canvas — How far means drift

A halving rounds to nearest with ties up, so a value is at most a quarter below the mean of its four
values and at most a half above it.  The next halving takes the mean of rounded values and rounds
again, and the errors add up: after `k` halvings a value is at most `k / 4` below the exact mean of
its block and at most `k / 2` above it (`NearMean`).  The block grows by the factor 4 each time, and
so does what was lost before (`drift_succ`).

Neither bound can be improved: `Canvas.steep` meets the upper one in its image and the lower one in
its mask.
-/

namespace Retouch

/-! ### Sums of blocks -/

namespace Raster

variable {r : Raster} {k x y c : Nat}

/-- The sum of channel `c` over the block that `(x, y)` stands for after `k` halvings. -/
def blockSum (r : Raster) (k x y c : Nat) : Nat :=
  ∑ y' ∈ stretch k y, ∑ x' ∈ stretch k x, (r.sample (y' * r.width + x') c).toNat

theorem blockSum_zero (r : Raster) (x y c : Nat) : r.blockSum 0 x y c = r.shade 0 x y c := by
  rw [blockSum, stretch_zero, stretch_zero, Finset.sum_singleton, Finset.sum_singleton]
  rfl

/-- A block falls into four of the halving before. -/
theorem blockSum_succ (r : Raster) (k x y c : Nat) : r.blockSum (k + 1) x y c =
    r.blockSum k (2 * x) (2 * y) c + r.blockSum k (2 * x + 1) (2 * y) c +
      r.blockSum k (2 * x) (2 * y + 1) c + r.blockSum k (2 * x + 1) (2 * y + 1) c := by
  rw [blockSum, sum_stretch_succ]
  simp only [blockSum, sum_stretch_succ, Finset.sum_add_distrib, Nat.add_assoc]

end Raster

/-! ### Errors that add up -/

/-- How far `k` halvings can lower a value, times the size of its block. -/
def drift (k : Nat) : Nat :=
  k * 4 ^ (k - 1)

theorem drift_succ (k : Nat) : drift (k + 1) = 4 * drift k + 4 ^ k := by
  cases k with
  | zero => rfl
  | succ k =>
    rw [drift, drift, Nat.add_sub_cancel, Nat.add_sub_cancel]
    ring

theorem four_mul_drift (k : Nat) : 4 * drift k = k * 4 ^ k := by
  cases k with
  | zero => rfl
  | succ k =>
    rw [drift, Nat.add_sub_cancel]
    ring

/-- `v` is the mean of the `4 ^ k` pixels of a block with this sum, but for the rounding of `k`
halvings. -/
structure NearMean (k sum v : Nat) : Prop where
  sum_sub_le : (sum : ℤ) - k * 4 ^ (k - 1) ≤ 4 ^ k * v
  le_sum_add : 4 ^ k * (v : ℤ) ≤ sum + 2 * k * 4 ^ (k - 1)
  mean_sub_le : (sum : ℚ) / 4 ^ k - k / 4 ≤ v
  le_mean_add : (v : ℚ) ≤ sum / 4 ^ k + k / 2

theorem nearMean_of_drift {k sum v : Nat} (hlower : sum ≤ 4 ^ k * v + drift k)
    (hupper : 4 ^ k * v ≤ sum + 2 * drift k) : NearMean k sum v := by
  have hdrift : (4 : ℚ) * (drift k : ℚ) = k * 4 ^ k := by exact_mod_cast four_mul_drift k
  have hpos : (0 : ℚ) < 4 ^ k := by positivity
  have hlower' : (sum : ℚ) ≤ 4 ^ k * v + drift k := by exact_mod_cast hlower
  have hupper' : 4 ^ k * (v : ℚ) ≤ sum + 2 * drift k := by exact_mod_cast hupper
  refine ⟨?_, ?_, ?_, ?_⟩
  · have : (sum : ℤ) ≤ 4 ^ k * v + k * 4 ^ (k - 1) := by exact_mod_cast hlower
    linarith
  · have : 4 ^ k * (v : ℤ) ≤ sum + 2 * (k * 4 ^ (k - 1)) := by exact_mod_cast hupper
    linarith
  · rw [sub_le_iff_le_add, div_le_iff₀ hpos]
    linarith
  · rw [← sub_le_iff_le_add, le_div_iff₀ hpos]
    linarith

namespace Raster

variable {r : Raster} {k x y c : Nat}

/-- The values lose no more than the drift. -/
theorem blockSum_le_shade (h : r.Shrinks k) (hx : x < (r.halved k).width)
    (hy : y < (r.halved k).height) (hc : c < r.depth) :
    r.blockSum k x y c ≤ 4 ^ k * r.shade k x y c + drift k := by
  refine shade_induction (P := fun k x y v => r.blockSum k x y c ≤ 4 ^ k * v + drift k)
    hc ?_ ?_ h hx hy
  · intro x y
    rw [blockSum_zero, Nat.pow_zero, Nat.one_mul]
    exact Nat.le_add_right _ _
  · intro k x y v₀₀ v₁₀ v₀₁ v₁₁ h₀₀ h₁₀ h₀₁ h₁₁
    have hround : v₀₀ + v₁₀ + v₀₁ + v₁₁ ≤ 4 * ((v₀₀ + v₁₀ + v₀₁ + v₁₁ + 2) / 4) + 1 := by omega
    calc
      r.blockSum (k + 1) x y c ≤ 4 ^ k * (v₀₀ + v₁₀ + v₀₁ + v₁₁) + 4 * drift k := by
        rw [blockSum_succ]
        linarith
      _ ≤ 4 ^ k * (4 * ((v₀₀ + v₁₀ + v₀₁ + v₁₁ + 2) / 4) + 1) + 4 * drift k :=
        Nat.add_le_add_right (Nat.mul_le_mul_left _ hround) _
      _ = 4 ^ (k + 1) * ((v₀₀ + v₁₀ + v₀₁ + v₁₁ + 2) / 4) + drift (k + 1) := by
        rw [drift_succ]
        ring

/-- The values gain no more than twice the drift. -/
theorem shade_le_blockSum (h : r.Shrinks k) (hx : x < (r.halved k).width)
    (hy : y < (r.halved k).height) (hc : c < r.depth) :
    4 ^ k * r.shade k x y c ≤ r.blockSum k x y c + 2 * drift k := by
  refine shade_induction (P := fun k x y v => 4 ^ k * v ≤ r.blockSum k x y c + 2 * drift k)
    hc ?_ ?_ h hx hy
  · intro x y
    rw [blockSum_zero, Nat.pow_zero, Nat.one_mul]
    exact Nat.le_add_right _ _
  · intro k x y v₀₀ v₁₀ v₀₁ v₁₁ h₀₀ h₁₀ h₀₁ h₁₁
    have hround : 4 * ((v₀₀ + v₁₀ + v₀₁ + v₁₁ + 2) / 4) ≤ v₀₀ + v₁₀ + v₀₁ + v₁₁ + 2 := by omega
    calc
      4 ^ (k + 1) * ((v₀₀ + v₁₀ + v₀₁ + v₁₁ + 2) / 4) =
          4 ^ k * (4 * ((v₀₀ + v₁₀ + v₀₁ + v₁₁ + 2) / 4)) := by rw [Nat.pow_succ, Nat.mul_assoc]
      _ ≤ 4 ^ k * (v₀₀ + v₁₀ + v₀₁ + v₁₁ + 2) := Nat.mul_le_mul_left _ hround
      _ ≤ r.blockSum (k + 1) x y c + 2 * drift (k + 1) := by
        rw [blockSum_succ, drift_succ]
        linarith

theorem nearMean_shade (h : r.Shrinks k) (hx : x < (r.halved k).width)
    (hy : y < (r.halved k).height) (hc : c < r.depth) :
    NearMean k (r.blockSum k x y c) (r.shade k x y c) :=
  nearMean_of_drift (blockSum_le_shade h hx hy hc) (shade_le_blockSum h hx hy hc)

end Raster

/-! ### Canvases -/

namespace Canvas

variable {c : Canvas} {k x y : Nat}

/-- **The drift of a pyramid is bounded.**  When every one of `k` halvings has changed the sides, a
cell stands for a block inside the canvas, and each sample of its image and of its mask is the mean
of the block but for `k / 4` below and `k / 2` above. -/
theorem Consistent.means_halved (hc : c.Consistent)
    (hsides : ∀ i < k, ¬ (c.halved (i + 1)).SameSides (c.halved i))
    (hx : x < (c.halved k).width) (hy : y < (c.halved k).height) :
    ((∀ x' ∈ stretch k x, x' < c.width) ∧ ∀ y' ∈ stretch k y, y' < c.height) ∧
    (∀ ch < c.depth, NearMean k (c.image.blockSum k x y ch)
      ((c.halved k).image.sample ((c.halved k).cell x y) ch).toNat) ∧
    ∀ ch < c.mask.depth, NearMean k (c.mask.blockSum k x y ch)
      ((c.halved k).mask.sample ((c.halved k).cell x y) ch).toNat := by
  have h := shrinks_iff.mpr hsides
  refine ⟨block_inside h hx hy, fun ch hch => ?_, fun ch hch => ?_⟩
  · rw [toNat_image_halved]
    rw [width, image_halved] at hx
    rw [height, image_halved] at hy
    exact Raster.nearMean_shade h hx hy hch
  · rw [hc.toNat_mask_halved]
    rw [← hc.width_mask_halved] at hx
    rw [← hc.height_mask_halved] at hy
    exact Raster.nearMean_shade (hc.shrinks_mask h) hx hy hch

/-- Halved twice, every mean of the image is rounded up from a half, and every mean of the mask down
from a quarter.  The last column is dropped. -/
def steep : Canvas :=
  .ofParts
    ⟨5, 4, .gray, #[1, 1, 1, 1, 9, 0, 0, 0, 0, 9, 3, 3, 3, 3, 9, 0, 0, 0, 0, 9], rfl⟩
    ⟨5, 4, .gray, #[1, 0, 1, 0, 9, 0, 0, 0, 0, 9, 1, 0, 5, 0, 9, 0, 0, 0, 0, 9], rfl⟩

/-- Both bounds are met: the mean of the image is 1 and its value 2, the mean of the mask is a half
and its value 0. -/
theorem means_halved_steep :
    (steep.Consistent ∧ (∀ i < 2, ¬ (steep.halved (i + 1)).SameSides (steep.halved i)) ∧
      0 < (steep.halved 2).width ∧ 0 < (steep.halved 2).height) ∧
    (NearMean 2 16 2 ∧ 4 ^ 2 * 2 = 16 + 2 * 2 * 4 ^ (2 - 1) ∧
      steep.image.blockSum 2 0 0 0 = 16 ∧
      ((steep.halved 2).image.sample ((steep.halved 2).cell 0 0) 0).toNat = 2) ∧
    NearMean 2 8 0 ∧ 8 - 2 * 4 ^ (2 - 1) = 4 ^ 2 * 0 ∧
      steep.mask.blockSum 2 0 0 0 = 8 ∧
      ((steep.halved 2).mask.sample ((steep.halved 2).cell 0 0) 0).toNat = 0 := by
  have hc : steep.Consistent := consistent_ofParts rfl rfl rfl
  have hsides : ∀ i < 2, ¬ (steep.halved (i + 1)).SameSides (steep.halved i) := by
    unfold SameSides
    decide +kernel
  have hw : 0 < (steep.halved 2).width := by decide +kernel
  have hh : 0 < (steep.halved 2).height := by decide +kernel
  have hsum : steep.image.blockSum 2 0 0 0 = 16 := by decide +kernel
  have hvalue : ((steep.halved 2).image.sample ((steep.halved 2).cell 0 0) 0).toNat = 2 := by
    decide +kernel
  have hsum' : steep.mask.blockSum 2 0 0 0 = 8 := by decide +kernel
  have hvalue' : ((steep.halved 2).mask.sample ((steep.halved 2).cell 0 0) 0).toNat = 0 := by
    decide +kernel
  obtain ⟨-, himage, hmask⟩ := hc.means_halved hsides hw hh
  have hnear := himage 0 (by decide)
  have hnear' := hmask 0 (by decide)
  rw [hsum, hvalue] at hnear
  rw [hsum', hvalue'] at hnear'
  exact ⟨⟨hc, hsides, hw, hh⟩, ⟨hnear, rfl, hsum, hvalue⟩, hnear', rfl, hsum', hvalue'⟩

end Canvas

end Retouch
