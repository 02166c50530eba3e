import Mathlib.Algebra.Group.Nat.Defs
import Retouch.Canvas.Consistent
import Retouch.Filling.Pyramid

/-!
# Retouch — Canvas — Halved over and over

A raster or a canvas halved `k` times (`halved`).  While every halving makes it smaller
(`Raster.Shrinks`), its sides are the first ones divided by `2 ^ k`, rounded down, and each of its
samples is the mean of four samples of the halving before.  So a property of the pixels that the
rounded mean of four keeps is one of every halving (`Raster.shade_induction`).  Image and mask of a
canvas are halved side by side, and neither looks at the other.

The levels of a pyramid are its canvas halved 0, 1, 2, … times (`Pyramid.levels_build`), and each
level but the coarsest one had to be halved (`Pyramid.splits_halved`).
-/

namespace Retouch

/-! ### Rasters -/

namespace Raster

variable {r s : Raster} {k x y c : Nat}

/-- The raster halved `k` times. -/
def halved (r : Raster) : Nat → Raster
  | 0 => r
  | k + 1 => (r.halved k).halve

/-- Each of the first `k` halvings makes the raster smaller. -/
def Shrinks (r : Raster) (k : Nat) : Prop :=
  ∀ i < k, (r.halved i).halvable = true

theorem Shrinks.mono {j : Nat} (h : r.Shrinks k) (hj : j ≤ k) : r.Shrinks j :=
  fun i hi => h i (Nat.lt_of_lt_of_le hi hj)

theorem Shrinks.last (h : r.Shrinks (k + 1)) : (r.halved k).halvable = true :=
  h k (Nat.lt_succ_self k)

@[simp]
theorem layout_halved (r : Raster) (k : Nat) : (r.halved k).layout = r.layout := by
  induction k with
  | zero => rfl
  | succ k ih => rw [halved, layout_halve, ih]

@[simp]
theorem depth_halved (r : Raster) (k : Nat) : (r.halved k).depth = r.depth :=
  congrArg Array.size (r.layout_halved k)

theorem width_halved (h : r.Shrinks k) : (r.halved k).width = r.width / 2 ^ k := by
  induction k with
  | zero => rw [Nat.pow_zero, Nat.div_one, halved]
  | succ k ih =>
    rw [halved, width_halve h.last, ih (h.mono (Nat.le_succ k)), Nat.div_div_eq_div_mul,
      Nat.pow_succ]

theorem height_halved (h : r.Shrinks k) : (r.halved k).height = r.height / 2 ^ k := by
  induction k with
  | zero => rw [Nat.pow_zero, Nat.div_one, halved]
  | succ k ih =>
    rw [halved, height_halve h.last, ih (h.mono (Nat.le_succ k)), Nat.div_div_eq_div_mul,
      Nat.pow_succ]

/-- Whether a raster can be halved depends on its sides only. -/
theorem halvable_congr (hw : r.width = s.width) (hh : r.height = s.height) :
    r.halvable = s.halvable := by
  rw [halvable, halvable, hw, hh]

theorem SameShape.halve (h : r.SameShape s) : r.halve.SameShape s.halve := by
  have hhalvable := halvable_congr h.width_eq h.height_eq
  unfold Raster.halve
  rw [hhalvable]
  split
  · refine ⟨?_, ?_, h.layout_eq⟩
    · exact congrArg (· / 2) h.width_eq
    · exact congrArg (· / 2) h.height_eq
  · exact h

theorem SameShape.halved (h : r.SameShape s) (k : Nat) : (r.halved k).SameShape (s.halved k) := by
  induction k with
  | zero => exact h
  | succ k ih => exact ih.halve

/-- The pixels of a block lie inside the raster. -/
theorem lt_area_of_mem_block {q : Nat} (hx : x < r.width / 2)
    (hy : y < r.height / 2) (hq : q ∈ r.block x y) : q < r.area := by
  simp only [block, List.mem_cons, List.not_mem_nil, or_false] at hq
  rcases hq with rfl | rfl | rfl | rfl <;> exact cell_lt_area (by omega) (by omega)

/-- A sample of the halved raster is the mean of the samples of its block. -/
theorem sample_halve (h : r.halvable = true) (hx : x < r.halve.width) (hy : y < r.halve.height)
    (hc : c < r.depth) : r.halve.sample (y * r.halve.width + x) c =
      Blend.mean ((r.block x y).map (r.sample · c)) Blend.quarters := by
  rw [width_halve h] at hx ⊢
  rw [height_halve h] at hy
  have hp : y * (r.width / 2) + x < r.width / 2 * (r.height / 2) := by
    rw [Nat.mul_comm (r.width / 2)]
    exact index_lt hy hx
  rw [halve, if_pos h, blockMeans, sample_generate hp hc, index_mod y hx, index_div y hx]

/-- The value of channel `c` at `(x, y)` after `k` halvings. -/
def shade (r : Raster) (k x y c : Nat) : Nat :=
  ((r.halved k).sample (y * (r.halved k).width + x) c).toNat

/-- A column that is left has two columns before the last halving. -/
theorem column_lt_of_halved (h : r.Shrinks (k + 1)) (hx : x < (r.halved (k + 1)).width) :
    2 * x + 1 < (r.halved k).width := by
  have hw : (r.halved (k + 1)).width = (r.halved k).width / 2 := width_halve h.last
  omega

/-- A row that is left has two rows before the last halving. -/
theorem row_lt_of_halved (h : r.Shrinks (k + 1)) (hy : y < (r.halved (k + 1)).height) :
    2 * y + 1 < (r.halved k).height := by
  have hh : (r.halved (k + 1)).height = (r.halved k).height / 2 := height_halve h.last
  omega

/-- **One more halving**: a value is the mean of four values, rounded to nearest with ties up. -/
theorem shade_succ (h : r.Shrinks (k + 1)) (hx : x < (r.halved (k + 1)).width)
    (hy : y < (r.halved (k + 1)).height) (hc : c < r.depth) : r.shade (k + 1) x y c =
      (r.shade k (2 * x) (2 * y) c + r.shade k (2 * x + 1) (2 * y) c +
        r.shade k (2 * x) (2 * y + 1) c + r.shade k (2 * x + 1) (2 * y + 1) c + 2) / 4 := by
  have hmean := sample_halve h.last hx hy (by rwa [depth_halved])
  rw [shade, halved, hmean, block, List.map_cons, List.map_cons, List.map_cons, List.map_cons,
    List.map_nil, Blend.toNat_mean_quarters]
  rfl

/-- **Any number of halvings**: what holds of every pixel, and of the rounded mean of four values
whenever it holds of the four, holds of every value after `k` halvings. -/
theorem shade_induction {P : Nat → Nat → Nat → Nat → Prop} (hc : c < r.depth)
    (pixel : ∀ x y, P 0 x y (r.shade 0 x y c))
    (mean : ∀ k x y v₀₀ v₁₀ v₀₁ v₁₁, P k (2 * x) (2 * y) v₀₀ → P k (2 * x + 1) (2 * y) v₁₀ →
      P k (2 * x) (2 * y + 1) v₀₁ → P k (2 * x + 1) (2 * y + 1) v₁₁ →
      P (k + 1) x y ((v₀₀ + v₁₀ + v₀₁ + v₁₁ + 2) / 4))
    (h : r.Shrinks k) (hx : x < (r.halved k).width) (hy : y < (r.halved k).height) :
    P k x y (r.shade k x y c) := by
  induction k generalizing x y with
  | zero => exact pixel x y
  | succ k ih =>
    have hcolumn := column_lt_of_halved h hx
    have hrow := row_lt_of_halved h hy
    have hprevious := h.mono (Nat.le_succ k)
    rw [shade_succ h hx hy hc]
    refine mean k x y _ _ _ _ ?_ ?_ ?_ ?_
    · exact ih hprevious (Nat.lt_of_succ_lt hcolumn) (Nat.lt_of_succ_lt hrow)
    · exact ih hprevious hcolumn (Nat.lt_of_succ_lt hrow)
    · exact ih hprevious (Nat.lt_of_succ_lt hcolumn) hrow
    · exact ih hprevious hcolumn hrow

end Raster

/-! ### Canvases -/

namespace Canvas

variable {c : Canvas} {k : Nat}

/-- The canvas halved `k` times. -/
def halved (c : Canvas) : Nat → Canvas
  | 0 => c
  | k + 1 => (c.halved k).halve

theorem halved_halve (c : Canvas) (k : Nat) : c.halve.halved k = c.halved (k + 1) := by
  induction k with
  | zero => rfl
  | succ k ih => exact congrArg halve ih

@[simp]
theorem image_halve (c : Canvas) : c.halve.image = c.image.halve := by
  unfold halve Raster.halve
  split <;> rfl

theorem Consistent.mask_halve (h : c.Consistent) : c.halve.mask = c.mask.halve := by
  have hhalvable := Raster.halvable_congr h.width_eq h.height_eq
  by_cases hc : c.image.halvable = true
  · rw [Canvas.halve, if_pos hc, ofParts]
  · have hm : ¬ c.mask.halvable = true := hhalvable ▸ hc
    rw [Canvas.halve, if_neg hc, Raster.halve, if_neg hm]

theorem image_halved (c : Canvas) (k : Nat) : (c.halved k).image = c.image.halved k := by
  induction k with
  | zero => rfl
  | succ k ih => rw [halved, image_halve, ih, Raster.halved]

theorem Consistent.halved (h : c.Consistent) (k : Nat) : (c.halved k).Consistent := by
  induction k with
  | zero => exact h
  | succ k ih => exact ih.halve

theorem Consistent.mask_halved (h : c.Consistent) (k : Nat) :
    (c.halved k).mask = c.mask.halved k := by
  induction k with
  | zero => rfl
  | succ k ih => rw [Canvas.halved, (h.halved k).mask_halve, ih, Raster.halved]

theorem Consistent.width_mask_halved (h : c.Consistent) (k : Nat) :
    (c.mask.halved k).width = (c.halved k).width := by
  rw [← h.mask_halved, (h.halved k).width_eq, width]

theorem Consistent.height_mask_halved (h : c.Consistent) (k : Nat) :
    (c.mask.halved k).height = (c.halved k).height := by
  rw [← h.mask_halved, (h.halved k).height_eq, height]

/-- The mask gets smaller together with the image. -/
theorem Consistent.shrinks_mask (h : c.Consistent) (hk : c.image.Shrinks k) : c.mask.Shrinks k := by
  intro i hi
  have hi' := h.halved i
  rw [← h.mask_halved, Raster.halvable_congr hi'.width_eq hi'.height_eq, image_halved]
  exact hk i hi

theorem depth_halved (c : Canvas) (k : Nat) : (c.halved k).depth = c.depth := by
  rw [depth, image_halved, Raster.depth_halved, depth]

theorem width_halved (h : c.image.Shrinks k) : (c.halved k).width = c.width / 2 ^ k := by
  rw [width, image_halved, Raster.width_halved h, width]

theorem height_halved (h : c.image.Shrinks k) : (c.halved k).height = c.height / 2 ^ k := by
  rw [height, image_halved, Raster.height_halved h, height]

theorem toNat_image_halved (c : Canvas) (k x y ch : Nat) :
    ((c.halved k).image.sample ((c.halved k).cell x y) ch).toNat = c.image.shade k x y ch := by
  rw [Raster.shade, ← image_halved]
  rfl

theorem Consistent.toNat_mask_halved (h : c.Consistent) (k x y ch : Nat) :
    ((c.halved k).mask.sample ((c.halved k).cell x y) ch).toNat = c.mask.shade k x y ch := by
  rw [Raster.shade, ← h.mask_halved, (h.halved k).width_eq]
  rfl

/-- A cell is a hole after `k` halvings when its mask is not black there. -/
theorem Consistent.isHole_halved_iff (h : c.Consistent) {x y : Nat} :
    (c.halved k).isHole ((c.halved k).cell x y) = true ↔ c.mask.shade k x y 0 ≠ 0 := by
  rw [(h.halved k).isHole_eq, ← h.toNat_mask_halved, ne_eq, ne_eq, ← UInt8.toNat_inj]
  rfl

end Canvas

/-! ### Levels -/

namespace Pyramid

variable {radius : Nat} {c : Canvas} {k : Nat}

theorem descend_eq (radius : Nat) (c : Canvas) : descend radius c =
    (List.range (descend radius c).length).map fun k => c.halved (k + 1) := by
  fun_induction descend radius c with
  | case1 c hsplits _ ih =>
    rw [List.length_cons, List.range_succ_eq_map, List.map_cons, List.map_map]
    refine congrArg (c.halve :: ·) (ih.trans (List.map_congr_left fun k _ => ?_))
    exact c.halved_halve (k + 1)
  | case2 => rfl

/-- The levels of a pyramid are the halvings of its canvas. -/
theorem levels_build (c : Canvas) (radius : Nat) : (build c radius).levels =
    (List.range ((build c radius).coarsest + 1)).map c.halved := by
  rw [List.range_succ_eq_map, List.map_cons, List.map_map]
  exact congrArg (c :: ·) (descend_eq radius c)

/-- A level that is not the coarsest one had to be halved. -/
theorem splits_halved (h : k < (build c radius).coarsest) : splits radius (c.halved k) = true := by
  change k < (descend radius c).length at h
  fun_induction descend radius c generalizing k with
  | case1 c hsplits _ ih =>
    cases k with
    | zero => exact hsplits
    | succ k => exact c.halved_halve k ▸ ih (Nat.lt_of_succ_lt_succ h)
  | case2 => cases h

theorem shrinks_of_le (h : k ≤ (build c radius).coarsest) : c.image.Shrinks k := by
  intro i hi
  have hsplits := splits_halved (Nat.lt_of_lt_of_le hi h)
  simp only [splits, Bool.and_eq_true] at hsplits
  rw [← Canvas.image_halved]
  exact hsplits.2

theorem width_level (h : k ≤ (build c radius).coarsest) :
    (c.halved k).width = c.width / 2 ^ k :=
  Canvas.width_halved (shrinks_of_le h)

theorem height_level (h : k ≤ (build c radius).coarsest) :
    (c.halved k).height = c.height / 2 ^ k :=
  Canvas.height_halved (shrinks_of_le h)

theorem level?_build_eq_ok_iff {level : Canvas} : (build c radius).level? k = .ok level ↔
    k ≤ (build c radius).coarsest ∧ level = c.halved k := by
  rw [level?, levels_build, List.getElem?_map]
  by_cases hk : k < (build c radius).coarsest + 1
  · rw [List.getElem?_range hk]
    simp [Nat.le_of_lt_succ hk, eq_comm]
  · have hnone : (List.range ((build c radius).coarsest + 1))[k]? = none := by simp; omega
    simp [hnone]
    omega

/-- Levels that have to be halved are followed by another one. -/
theorem le_coarsest (h : ∀ i < k, splits radius (c.halved i) = true) :
    k ≤ (build c radius).coarsest := by
  change k ≤ (descend radius c).length
  induction k generalizing c with
  | zero => exact Nat.zero_le _
  | succ k ih =>
    have hfirst : splits radius c = true := h 0 (Nat.succ_pos k)
    rw [descend_of_splits hfirst, List.length_cons]
    refine Nat.succ_le_succ (ih fun i hi => ?_)
    rw [c.halved_halve]
    exact h (i + 1) (Nat.succ_lt_succ hi)

/-- The coarsest level is the first one that need not be halved. -/
theorem coarsest_eq (h : ∀ i < k, splits radius (c.halved i) = true)
    (hlast : splits radius (c.halved k) = false) : (build c radius).coarsest = k := by
  refine Nat.le_antisymm (Nat.not_lt.mp fun hlt => ?_) (le_coarsest h)
  rw [splits_halved hlt] at hlast
  cases hlast

/-- The coarsest level need not be halved any more. -/
theorem splits_coarsest (c : Canvas) (radius : Nat) :
    splits radius (c.halved (build c radius).coarsest) = false := by
  refine Bool.eq_false_iff.mpr fun hlast => ?_
  -- Otherwise there would be one more level.
  have hnext : (build c radius).coarsest + 1 ≤ (build c radius).coarsest :=
    le_coarsest fun i hi => (Nat.lt_succ_iff_lt_or_eq.mp hi).elim splits_halved fun h => h ▸ hlast
  exact Nat.not_succ_le_self _ hnext

/-- A canvas that need not be halved has a short side, no hole, or a side of length one. -/
theorem stops_of_not_splits (h : splits radius c = false) :
    c.width ≤ radius ∨ c.height ≤ radius ∨ c.countHoles = 0 ∨ c.width = 1 ∨ c.height = 1 := by
  have hside : c.image.halvable = true ↔ 2 ≤ c.width ∧ 2 ≤ c.height := by
    simp [Raster.halvable, Canvas.width, Canvas.height]
  have hnot : ¬ (radius < c.width ∧ radius < c.height ∧ 0 < c.countHoles ∧
      c.image.halvable = true) := by
    simpa [splits, and_assoc] using h
  rw [hside] at hnot
  omega

/-- Whether a canvas has to be halved depends on its sides and its holes. -/
theorem splits_of_holes_eq {c c' : Canvas} (hshape : c.image.SameShape c'.image)
    (hholes : c.holes = c'.holes) (radius : Nat) : splits radius c = splits radius c' := by
  have hhalvable := Raster.halvable_congr hshape.width_eq hshape.height_eq
  have hw : c.width = c'.width := hshape.width_eq
  have hh : c.height = c'.height := hshape.height_eq
  rw [splits, splits, hw, hh, hhalvable, Canvas.countHoles, Canvas.countHoles, hholes]

/-- What has no hole need not be halved. -/
theorem splits_of_countHoles_eq_zero {c : Canvas} (h : c.countHoles = 0) (radius : Nat) :
    splits radius c = false := by
  simp [splits, h]

/-- Pyramids in which the same levels have to be halved have as many levels. -/
theorem coarsest_congr {c c' : Canvas}
    (h : ∀ k, splits radius (c.halved k) = splits radius (c'.halved k)) :
    (build c radius).coarsest = (build c' radius).coarsest := by
  refine Nat.le_antisymm ?_ ?_
  · exact le_coarsest fun i hi => h i ▸ splits_halved hi
  · exact le_coarsest fun i hi => (h i).symm ▸ splits_halved hi

end Pyramid

end Retouch
