import Mathlib.Algebra.BigOperators.Intervals
import Retouch.Proofs.Canvas.Fading
import Retouch.Proofs.Filling.Descent

/-!
# Retouch — Canvas — The block behind a cell

After `k` halvings a column stands for `2 ^ k` columns, its *stretch*, and so does a row.  A cell
stands for a stretch of columns and one of rows, its block, and all of the block lies inside the
canvas: what halving drops, at whatever level, belongs to no block.

Holes are never invented.  A hole that is seen after `k` halvings has a hole in its block, whatever
the mask is.  With a mask of 0 and 255 no hole of a block is lost either, up to the fourth halving
(`Canvas.Consistent.holes_halved`); at the fifth a lone hole fades (`Pyramid.speck_shows`).
-/

namespace Retouch

/-! ### Stretches -/

/-- The columns that column `x` stands for after `k` halvings; and likewise the rows. -/
def stretch (k x : Nat) : Finset Nat :=
  Finset.Ico (2 ^ k * x) (2 ^ k * (x + 1))

section

variable {k x x' : Nat}

theorem mem_stretch : x' ∈ stretch k x ↔ x' / 2 ^ k = x := by
  have hpos : 0 < 2 ^ k := Nat.two_pow_pos k
  rw [stretch, Finset.mem_Ico, Nat.mul_comm _ x, Nat.mul_comm _ (x + 1),
    ← Nat.le_div_iff_mul_le hpos, ← Nat.div_lt_iff_lt_mul hpos]
  omega

theorem stretch_zero (x : Nat) : stretch 0 x = {x} := by
  ext x'
  rw [mem_stretch, Nat.pow_zero, Nat.div_one, Finset.mem_singleton]

/-- A stretch falls into two of the halving before. -/
theorem stretch_succ (k x : Nat) :
    stretch (k + 1) x = stretch k (2 * x) ∪ stretch k (2 * x + 1) := by
  ext x'
  rw [Finset.mem_union, mem_stretch, mem_stretch, mem_stretch, Nat.pow_succ,
    ← Nat.div_div_eq_div_mul]
  omega

theorem mem_stretch_left (h : x' ∈ stretch k (2 * x)) : x' ∈ stretch (k + 1) x :=
  stretch_succ k x ▸ Finset.mem_union_left _ h

theorem mem_stretch_right (h : x' ∈ stretch k (2 * x + 1)) : x' ∈ stretch (k + 1) x :=
  stretch_succ k x ▸ Finset.mem_union_right _ h

theorem disjoint_stretch (k x : Nat) : Disjoint (stretch k (2 * x)) (stretch k (2 * x + 1)) := by
  refine Finset.disjoint_left.mpr fun x' hleft hright => ?_
  rw [mem_stretch] at hleft hright
  omega

theorem sum_stretch_succ (f : Nat → Nat) (k x : Nat) : ∑ x' ∈ stretch (k + 1) x, f x' =
    ∑ x' ∈ stretch k (2 * x), f x' + ∑ x' ∈ stretch k (2 * x + 1), f x' := by
  rw [stretch_succ, Finset.sum_union (disjoint_stretch k x)]

end

/-! ### Sizes that change -/

namespace Canvas

variable {c : Canvas} {k x y : Nat}

/-- Image and mask get smaller as long as every halving changes the sides. -/
theorem shrinks_iff : c.image.Shrinks k ↔
    ∀ i < k, ¬ (c.halved (i + 1)).SameSides (c.halved i) := by
  refine forall₂_congr fun i _ => ?_
  rw [halved, sameSides_halve_iff, Bool.not_eq_false, image_halved]

/-- The block behind a cell lies inside the canvas. -/
theorem block_inside (h : c.image.Shrinks k) (hx : x < (c.halved k).width)
    (hy : y < (c.halved k).height) :
    (∀ x' ∈ stretch k x, x' < c.width) ∧ ∀ y' ∈ stretch k y, y' < c.height := by
  rw [width_halved h] at hx
  rw [height_halved h] at hy
  constructor
  · intro x' hx'
    exact Nat.lt_of_div_lt_div (mem_stretch.mp hx' ▸ hx)
  · intro y' hy'
    exact Nat.lt_of_div_lt_div (mem_stretch.mp hy' ▸ hy)

end Canvas

/-! ### Holes -/

/-- Where there is something after any number of halvings, there was something in the block. -/
theorem Raster.exists_ne_zero_of_shade {r : Raster} {k x y c : Nat} (h : r.Shrinks k)
    (hx : x < (r.halved k).width) (hy : y < (r.halved k).height) (hc : c < r.depth)
    (hshade : r.shade k x y c ≠ 0) :
    ∃ x' ∈ stretch k x, ∃ y' ∈ stretch k y, r.sample (y' * r.width + x') c ≠ 0 := by
  refine Raster.shade_induction (P := fun k x y v => v ≠ 0 → ∃ x' ∈ stretch k x,
    ∃ y' ∈ stretch k y, r.sample (y' * r.width + x') c ≠ 0) hc ?_ ?_ h hx hy hshade
  · intro x y hpixel
    refine ⟨x, ?_, y, ?_, fun hzero => hpixel (congrArg UInt8.toNat hzero)⟩
    · rw [stretch_zero, Finset.mem_singleton]
    · rw [stretch_zero, Finset.mem_singleton]
  · intro k x y v₀₀ v₁₀ v₀₁ v₁₁ h₀₀ h₁₀ h₀₁ h₁₁ hmean
    -- Four zeros have the mean zero.
    have hsome : v₀₀ ≠ 0 ∨ v₁₀ ≠ 0 ∨ v₀₁ ≠ 0 ∨ v₁₁ ≠ 0 := by omega
    rcases hsome with hv | hv | hv | hv
    · obtain ⟨x', hx', y', hy', hsample⟩ := h₀₀ hv
      exact ⟨x', mem_stretch_left hx', y', mem_stretch_left hy', hsample⟩
    · obtain ⟨x', hx', y', hy', hsample⟩ := h₁₀ hv
      exact ⟨x', mem_stretch_right hx', y', mem_stretch_left hy', hsample⟩
    · obtain ⟨x', hx', y', hy', hsample⟩ := h₀₁ hv
      exact ⟨x', mem_stretch_left hx', y', mem_stretch_right hy', hsample⟩
    · obtain ⟨x', hx', y', hy', hsample⟩ := h₁₁ hv
      exact ⟨x', mem_stretch_right hx', y', mem_stretch_right hy', hsample⟩

namespace Canvas

variable {c : Canvas} {k x y : Nat}

/-- There is a hole in the block that cell `(x, y)` stands for after `k` halvings. -/
def HoleIn (c : Canvas) (k x y : Nat) : Prop :=
  ∃ x' ∈ stretch k x, ∃ y' ∈ stretch k y, c.isHole (c.cell x' y') = true

/-- A block is open when there is no hole in it. -/
theorem openBlock_iff : c.OpenBlock k x y ↔ ¬ c.HoleIn k x y := by
  simp only [OpenBlock, HoleIn, mem_stretch, not_exists, not_and, Bool.not_eq_true]
  exact forall_congr' fun x' => forall_comm

/-- No hole is invented. -/
theorem Consistent.holeIn_of_isHole_halved (hc : c.Consistent) (h : c.image.Shrinks k)
    (hx : x < (c.halved k).width) (hy : y < (c.halved k).height)
    (hhole : (c.halved k).isHole ((c.halved k).cell x y) = true) : c.HoleIn k x y := by
  rw [← hc.width_mask_halved] at hx
  rw [← hc.height_mask_halved] at hy
  have hdepth : 0 < c.mask.depth := Nat.lt_of_lt_of_eq Nat.zero_lt_one hc.depth_mask.symm
  obtain ⟨x', hx', y', hy', hsample⟩ := Raster.exists_ne_zero_of_shade (hc.shrinks_mask h)
    hx hy hdepth (hc.isHole_halved_iff.mp hhole)
  refine ⟨x', hx', y', hy', ?_⟩
  rw [hc.isHole_eq, cell, width, ← hc.width_eq]
  exact hsample

/-- **Holes survive four halvings and are never invented.**  When every one of `k` halvings has
changed the sides, a cell stands for a block inside the canvas.  If the cell is a hole, there is a
hole in the block.  With a mask of 0 and 255, and up to the fourth halving, the cell is a hole
exactly when there is one in the block. -/
theorem Consistent.holes_halved (hc : c.Consistent)
    (hsides : ∀ i < k, ¬ (c.halved (i + 1)).SameSides (c.halved i))
    (hx : x < (c.halved k).width) (hy : y < (c.halved k).height) :
    ((∀ x' ∈ stretch k x, x' < c.width) ∧ ∀ y' ∈ stretch k y, y' < c.height) ∧
    ((c.halved k).isHole ((c.halved k).cell x y) = true → c.HoleIn k x y) ∧
    ((∀ p < c.area, c.mask.sample p 0 = 0 ∨ c.mask.sample p 0 = 255) → k ≤ 4 →
      ((c.halved k).isHole ((c.halved k).cell x y) = true ↔ c.HoleIn k x y)) := by
  have h := shrinks_iff.mpr hsides
  have hinvented := hc.holeIn_of_isHole_halved h hx hy
  refine ⟨block_inside h hx hy, hinvented, fun hmask hk => ⟨hinvented, fun hhole => ?_⟩⟩
  refine Classical.byContradiction fun hopen => ?_
  have hblock := hc.openBlock hmask hk h hx hy (Bool.eq_false_iff.mpr hopen)
  exact openBlock_iff.mp hblock hhole

end Canvas

/-- A speck of hole is seen at the fourth level, in its own cell only. -/
theorem Pyramid.holes_halved_speck :
    ((speckCanvas 33 0).Consistent ∧
      (∀ i < 4, ¬ ((speckCanvas 33 0).halved (i + 1)).SameSides ((speckCanvas 33 0).halved i)) ∧
      1 < ((speckCanvas 33 0).halved 4).width ∧ 1 < ((speckCanvas 33 0).halved 4).height ∧
      ∀ p < (speckCanvas 33 0).area,
        (speckCanvas 33 0).mask.sample p 0 = 0 ∨ (speckCanvas 33 0).mask.sample p 0 = 255) ∧
    ((speckCanvas 33 0).halved 4).isHole (((speckCanvas 33 0).halved 4).cell 0 0) = true ∧
    ¬ ((speckCanvas 33 0).halved 4).isHole (((speckCanvas 33 0).halved 4).cell 1 1) = true := by
  have hc := consistent_speckCanvas 33 0
  have hmask := extreme_speckCanvas 33 0
  have hsides : ∀ i < 4,
      ¬ ((speckCanvas 33 0).halved (i + 1)).SameSides ((speckCanvas 33 0).halved i) := by
    unfold Canvas.SameSides
    decide +kernel
  have hw : 1 < ((speckCanvas 33 0).halved 4).width := by decide +kernel
  have hh : 1 < ((speckCanvas 33 0).halved 4).height := by decide +kernel
  have hfirst : ∀ x y, x ≤ 1 → y ≤ 1 → (((speckCanvas 33 0).halved 4).isHole
      (((speckCanvas 33 0).halved 4).cell x y) = true ↔ (speckCanvas 33 0).HoleIn 4 x y) := by
    intro x y hx hy
    obtain ⟨-, -, hfour⟩ := hc.holes_halved hsides (Nat.lt_of_le_of_lt hx hw)
      (Nat.lt_of_le_of_lt hy hh)
    exact hfour hmask (Nat.le_refl 4)
  refine ⟨⟨hc, hsides, hw, hh, hmask⟩, ?_, ?_⟩
  · refine (hfirst 0 0 (by decide) (by decide)).mpr ⟨0, by decide, 0, by decide, ?_⟩
    exact (isHole_speckCanvas_iff (by decide) (by decide)).mpr ⟨rfl, rfl⟩
  · intro hhole
    obtain ⟨x', hx', y', hy', hspeck⟩ := (hfirst 1 1 (by decide) (by decide)).mp hhole
    obtain ⟨hcolumns, hrows⟩ := Canvas.block_inside (Canvas.shrinks_iff.mpr hsides) hw hh
    obtain ⟨rfl, -⟩ := (isHole_speckCanvas_iff (hcolumns x' hx') (hrows y' hy')).mp hspeck
    exact absurd hx' (by decide)

end Retouch
