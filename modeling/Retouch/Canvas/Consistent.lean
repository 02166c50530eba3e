import Retouch.Canvas.Basic

/-!
# Retouch — Canvas — Consistent

Every way of making a canvas gives a consistent one (`consistent_of_pair?`), and every operation
keeps it so.  On a consistent canvas a hole is a cell whose mask sample is not zero
(`Consistent.isHole_eq`).
-/

namespace Retouch.Canvas

variable {c : Canvas}

theorem consistent_ofParts {image mask : Raster} (hw : mask.width = image.width)
    (hh : mask.height = image.height) (hd : mask.depth = 1) : (ofParts image mask).Consistent :=
  ⟨hw, hh, hd, rfl⟩

/-- A mask that is not objected to has one channel and the size of the image. -/
theorem checkMask_eq_ok_iff {image mask : Raster} :
    checkMask image mask = .ok () ↔
      mask.depth = 1 ∧ image.width = mask.width ∧ image.height = mask.height := by
  unfold checkMask
  split
  · simp_all
  · split
    · simp_all; omega
    · simp_all

/-- A pair that is accepted is consistent, and it is made of what was handed in. -/
theorem consistent_of_pair? {image mask : Raster} (h : pair? image mask = .ok c) :
    c = ofParts image mask ∧ c.Consistent := by
  obtain ⟨_, hm, h⟩ := bind_eq_ok_iff.mp h
  obtain ⟨_, _, h⟩ := bind_eq_ok_iff.mp h
  obtain ⟨hd, hw, hh⟩ := checkMask_eq_ok_iff.mp (Failure.ofRefusal_eq_ok_iff.mp hm)
  cases h
  exact ⟨rfl, consistent_ofParts hw.symm hh.symm hd⟩

/-! ### What the flags say -/

theorem Consistent.size_holes (h : c.Consistent) : c.holes.size = c.area := by
  rw [h.holes_eq, holesOf, Array.size_map, c.mask.size_samples, h.depth_mask, Nat.mul_one,
    Raster.area, h.width_eq, h.height_eq]
  rfl

/-- A hole is a cell whose mask sample is not zero. -/
theorem Consistent.isHole_eq (h : c.Consistent) (p : Nat) :
    c.isHole p = (c.mask.sample p 0 ≠ 0) := by
  have hd := h.depth_mask
  rw [isHole, h.holes_eq, holesOf, Raster.sample, hd, Nat.mul_one, Nat.add_zero]
  by_cases hp : p < c.mask.samples.size <;> simp [Array.getD, hp]

/-- A cell is open exactly when its mask sample is zero. -/
theorem Consistent.isHole_eq_false_iff (h : c.Consistent) (p : Nat) :
    c.isHole p = false ↔ c.mask.sample p 0 = 0 := by
  rw [← Bool.not_eq_true, h.isHole_eq, ne_eq, Decidable.not_not]

/-- Under a mask that was cut, a hole is a cell whose sample was above the limit. -/
theorem Consistent.isHole_threshold {image mask : Raster} {limit : UInt8}
    (h : (ofParts image (mask.threshold limit)).Consistent) (p : Nat) :
    (ofParts image (mask.threshold limit)).isHole p = (limit < mask.sample p 0) := by
  have hsample : (ofParts image (mask.threshold limit)).mask.sample p 0 =
      if limit < mask.sample p 0 then 255 else 0 := Raster.sample_threshold limit mask p 0
  rw [h.isHole_eq, hsample]
  split <;> simp [*]

/-- No hole is counted exactly when no cell is a hole. -/
theorem countHoles_eq_zero_iff : c.countHoles = 0 ↔ ∀ p, c.isHole p = false := by
  rw [countHoles, Array.count_eq_zero]
  constructor
  · intro h p
    by_cases hp : p < c.holes.size
    · have hne : c.holes[p] ≠ true := fun htrue => h (htrue ▸ Array.getElem_mem hp)
      simpa [isHole, Array.getD, hp] using hne
    · simp [isHole, Array.getD, hp]
  · intro h hmem
    obtain ⟨p, hp, htrue⟩ := Array.getElem_of_mem hmem
    have hhole := h p
    simp [isHole, Array.getD, hp, htrue] at hhole

/-- A consistent canvas has no flags past its end. -/
theorem Consistent.countHoles_eq_zero_iff (h : c.Consistent) :
    c.countHoles = 0 ↔ ∀ p < c.area, c.isHole p = false := by
  rw [Canvas.countHoles_eq_zero_iff]
  constructor
  · intro hopen p _
    exact hopen p
  · intro hopen p
    by_cases hp : p < c.area
    · exact hopen p hp
    · rw [← h.size_holes] at hp
      simp [isHole, Array.getD, hp]

/-! ### What keeps a canvas consistent -/

theorem Consistent.withImage (h : c.Consistent) {image : Raster} (hw : image.width = c.width)
    (hh : image.height = c.height) : (c.withImage image).Consistent :=
  ⟨h.width_eq.trans hw.symm, h.height_eq.trans hh.symm, h.depth_mask, h.holes_eq⟩

theorem Consistent.setPixel? (h : c.Consistent) {x y : Nat} {bytes : List UInt8} {c' : Canvas}
    (hc : c.setPixel? x y bytes = .ok c') : c'.Consistent := by
  obtain ⟨image, hi, hc⟩ := bind_eq_ok_iff.mp hc
  obtain ⟨p, _, hi⟩ := bind_eq_ok_iff.mp hi
  obtain ⟨_, _, hi⟩ := bind_eq_ok_iff.mp hi
  cases hi
  cases hc
  exact ⟨h.width_eq, h.height_eq, h.depth_mask, h.holes_eq⟩

theorem Consistent.markCell (h : c.Consistent) (p : Nat) (hole : Bool) :
    (c.markCell p hole).Consistent := by
  refine ⟨h.width_eq, h.height_eq, h.depth_mask, ?_⟩
  simp only [Canvas.markCell, holesOf, Raster.withSample, h.holes_eq]
  cases hole <;> simp [Array.map_setIfInBounds]

theorem Consistent.clearHoles (h : c.Consistent) : c.clearHoles.Consistent := by
  refine ⟨h.width_eq, h.height_eq, h.depth_mask, ?_⟩
  simp [Canvas.clearHoles, holesOf, Raster.map, h.holes_eq, Function.comp_def]

theorem Consistent.halve (h : c.Consistent) : c.halve.Consistent := by
  unfold Canvas.halve
  split
  · rename_i hc
    have hm : c.mask.halvable = true := by
      rw [Raster.halvable, h.width_eq, h.height_eq]; exact hc
    simp only [Raster.halve, hc, hm, if_true]
    refine consistent_ofParts ?_ ?_ h.depth_mask
    · simp [Raster.blockMeans, Raster.generate, h.width_eq]
    · simp [Raster.blockMeans, Raster.generate, h.height_eq]
  · exact h

theorem Consistent.scaleTo (h : c.Consistent) (scaler : Scaler) (width height : Nat) :
    (c.scaleTo scaler width height).Consistent := by
  refine consistent_ofParts (by simp) (by simp) ?_
  rw [Raster.depth, Raster.layout_scaleTo]
  exact h.depth_mask

/-- A checked scaling ends with the plain one. -/
theorem eq_scaleTo_of_scaleTo? {scaler : Scaler} {width height : Nat} {scaled : Canvas}
    (h : c.scaleTo? scaler width height = .ok scaled) : scaled = c.scaleTo scaler width height := by
  unfold scaleTo? Raster.checkSize checkRows at h
  obtain ⟨-, h⟩ := Fault.unless_bind_eq_ok_iff.mp h
  obtain ⟨-, h⟩ := Fault.unless_bind_eq_ok_iff.mp h
  obtain ⟨-, h⟩ := Fault.unless_bind_eq_ok_iff.mp h
  cases h
  rfl

theorem Consistent.restore (h : c.Consistent) (known : Canvas) : (c.restore known).Consistent :=
  h.withImage rfl rfl

end Retouch.Canvas
