import Retouch.Canvas.Consistent

/-!
# Retouch — Raster — Black planes

A scaler *keeps black* when it brings a plane of zeros to a plane of zeros (`Scaler.KeepsBlack`).  A
canvas without holes then has none at any other size (`Canvas.countHoles_scaleTo`).

The triangle filter keeps black, whatever its weights are (`Scaler.keepsBlack_triangle`): in single
precision the products of a zero are zeros and values that are not numbers, and so are the sums of
these; all of them are rounded to the sample 0.
-/

namespace Retouch

/-! ### Scalers that keep black -/

/-- A plane of zeros stays one at every size. -/
def Scaler.KeepsBlack (scaler : Scaler) : Prop :=
  ∀ width height width' height',
    scaler.scale width height (Array.replicate (width * height) 0) width' height' =
      Array.replicate (width' * height') 0

/-- The plane of a channel that is black throughout. -/
theorem Raster.plane_eq_replicate {r : Raster} {k : Nat} (h : ∀ p < r.area, r.sample p k = 0) :
    r.plane k = Array.replicate r.area 0 := by
  refine Array.ext (by simp [plane]) fun p hp _ => ?_
  have hp' : p < r.area := by simpa [plane] using hp
  simp [plane, h p hp']

/-- A black raster is black at any other size. -/
theorem Raster.scaleTo_eq_blank {scaler : Scaler} (hscaler : scaler.KeepsBlack) {r : Raster}
    (hblack : ∀ p < r.area, ∀ k < r.depth, r.sample p k = 0) (width height : Nat) :
    r.scaleTo scaler width height = blank width height r.layout := by
  unfold scaleTo
  split
  · rfl
  · refine ext_sample rfl rfl rfl fun p hp k hk => ?_
    have hp' : p < width * height := hp
    have hk' : k < r.depth := hk
    have hplane : r.plane k = Array.replicate (r.width * r.height) 0 :=
      plane_eq_replicate fun q hq => hblack q hq k hk
    rw [ofPlanes, sample_generate hp' hk', sample_blank]
    simp [hk', hp', hplane, hscaler r.width r.height width height]

/-- Without holes there are none at any other size. -/
theorem Canvas.countHoles_scaleTo {scaler : Scaler} (hscaler : scaler.KeepsBlack) {c : Canvas}
    (hc : c.Consistent) (hnone : c.countHoles = 0) (width height : Nat) :
    (c.scaleTo scaler width height).countHoles = 0 := by
  have hblack : ∀ p < c.mask.area, ∀ k < c.mask.depth, c.mask.sample p k = 0 := by
    intro p _ k hk
    obtain rfl : k = 0 := Nat.lt_one_iff.mp (hc.depth_mask ▸ hk)
    exact (hc.isHole_eq_false_iff p).mp (countHoles_eq_zero_iff.mp hnone p)
  refine countHoles_eq_zero_iff.mpr fun p => ?_
  rw [(hc.scaleTo scaler width height).isHole_eq_false_iff]
  show (c.mask.scaleTo scaler width height).sample p 0 = 0
  rw [Raster.scaleTo_eq_blank hscaler hblack, Raster.sample_blank]

/-! ### Zeros in single precision -/

namespace Single

open Float.Model (UnpackedFloat Format)

/-- A zero of either sign, or not a number. -/
inductive Nought : Float32 → Prop where
  | zero (sign : UnpackedFloat.Sign) : Nought (.ofModel (.pack (.zero sign)))
  | notANumber : Nought (.ofModel (.pack .notANumber))

theorem nought_zero : Nought 0.0 :=
  .zero .positive

theorem unpack_zero (sign : UnpackedFloat.Sign) :
    (Float32.Model.pack (.zero sign)).unpack = .zero sign := by
  cases sign <;> rfl

variable {v w : Float32}

/-- A product with a zero is a zero, or infinity keeps it from being a number. -/
theorem Nought.mul (h : Nought v) (w : Float32) : Nought (v * w) := by
  have hproduct (v : Float32) : v * w = .ofModel (.pack
      (UnpackedFloat.mul Format.binary32 v.toModel.unpack w.toModel.unpack)) := rfl
  rw [hproduct]
  cases h with
  | zero sign =>
    rw [unpack_zero]
    cases w.toModel.unpack with
    | infinity => exact .notANumber
    | notANumber => exact .notANumber
    | zero sign' => exact .zero (sign * sign')
    | finite sign' => exact .zero (sign * sign')
  | notANumber => exact .notANumber

theorem Nought.add (hv : Nought v) (hw : Nought w) : Nought (v + w) := by
  have hsum : v + w = .ofModel (.pack
      (UnpackedFloat.add Format.binary32 v.toModel.unpack w.toModel.unpack)) := rfl
  rw [hsum]
  cases hv with
  | zero sign =>
    cases hw with
    | zero sign' =>
      rw [unpack_zero, unpack_zero]
      cases sign <;> cases sign' <;> exact .zero _
    | notANumber =>
      rw [unpack_zero]
      exact .notANumber
  | notANumber => exact .notANumber

theorem Nought.nearest (h : Nought v) : Byte.nearest v = 0 := by
  cases h with
  | zero sign => cases sign <;> rfl
  | notANumber => rfl

end Single

/-! ### The triangle filter -/

open Single (Nought)

theorem Taps.nought_accumulate {value : Nat → Float32} (hvalue : ∀ i, Nought (value i))
    {sum : Float32} (hsum : Nought sum) (first : Nat) (weights : List Float32) :
    Nought (accumulate value first sum weights) := by
  induction weights generalizing first sum with
  | nil => exact hsum
  | cons w weights ih => exact ih (hsum.add ((hvalue first).mul w)) (first + 1)

/-- What holds of the values of a built array, and of the default, holds wherever it is read. -/
theorem getD_ofFn {α : Type} {n : Nat} {value : Fin n → α} {default : α} {motive : α → Prop}
    (hdefault : motive default) (hvalue : ∀ i, motive (value i)) (i : Nat) :
    motive ((Array.ofFn value).getD i default) := by
  rw [Array.getD_eq_getD_getElem?, Array.getElem?_ofFn]
  split
  · exact hvalue _
  · exact hdefault

namespace Scaler

theorem nought_filterColumns (width height height' i : Nat) : Nought
    ((filterColumns width height (Array.replicate (width * height) 0) height').getD i 0.0) := by
  have hsample (q : Nat) :
      Nought ((Array.replicate (width * height) (0 : UInt8)).getD q 0).toFloat32 := by
    have hblack : (Array.replicate (width * height) (0 : UInt8)).getD q 0 = 0 := by
      rw [Array.getD_eq_getD_getElem?, Array.getElem?_replicate]
      split <;> rfl
    rw [hblack]
    exact Single.nought_zero
  refine getD_ofFn Single.nought_zero (fun p => ?_) i
  exact Taps.nought_accumulate (fun y => hsample (y * width + p % width)) Single.nought_zero _ _

theorem filterRows_eq_replicate {width : Nat} {plane : Array Float32}
    (hplane : ∀ i, Nought (plane.getD i 0.0)) (width' height' : Nat) :
    filterRows width plane width' height' = Array.replicate (width' * height') 0 := by
  refine Array.ext (by simp [filterRows]) fun i _ _ => ?_
  simp only [filterRows, Array.getElem_ofFn, Array.getElem_replicate]
  exact (Taps.nought_accumulate (fun x => hplane _) Single.nought_zero _ _).nearest

/-- **The triangle filter keeps black.** -/
theorem keepsBlack_triangle : triangle.KeepsBlack := by
  intro width height width' height'
  show (if width = width' ∧ height = height' then _ else _) = _
  split
  · rename_i hsides
    obtain ⟨rfl, rfl⟩ := hsides
    refine Array.ext (by simp) fun i hi _ => ?_
    simp
  · exact filterRows_eq_replicate (nought_filterColumns width height height') width' height'

end Scaler

end Retouch
