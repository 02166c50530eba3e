import Retouch.Canvas.Consistent
import Retouch.Proofs.Canvas.Halving
import Retouch.Proofs.Filling.Total
import Retouch.Proofs.Voting.Hidden

/-!
# Retouch — Filling — Hidden pixels

What the holes of an image hide reaches the result through the first halving only.  Two canvases
that agree and have the same half are worked in lock step: their pyramids differ at the finest
level alone, and this level is only ever voted for, measured, and put back where it is open.
-/

namespace Retouch

/-! ### The pyramid -/

/-- Agreeing canvases are halved or not together. -/
theorem Pyramid.splits_congr {c c' : Canvas} (h : c.Agree c') (radius : Nat) :
    splits radius c = splits radius c' :=
  splits_of_holes_eq h.shape h.holes_eq radius

theorem Pyramid.descend_congr {c c' : Canvas} (h : c.Agree c') (hhalve : c.halve = c'.halve)
    (radius : Nat) : descend radius c = descend radius c' := by
  cases hsplits : splits radius c with
  | true =>
    have hsplits' : splits radius c' = true := splits_congr h radius ▸ hsplits
    rw [descend_of_splits hsplits, descend_of_splits hsplits', hhalve]
  | false =>
    have hsplits' : splits radius c' = false := splits_congr h radius ▸ hsplits
    rw [descend_of_not_splits hsplits, descend_of_not_splits hsplits']

/-! ### Images and their canvases -/

section Images

variable {settings : Settings} {image image' mask : Raster}

/-- Images of one shape are accepted or refused alike. -/
theorem Settings.check_congr (h : image.SameShape image') (mask : Raster) :
    settings.check image mask = settings.check image' mask := by
  rw [check, check, h.width_eq, h.height_eq]

/-- Images with the same half make canvases with the same half, if these are halved at all. -/
theorem Canvas.halve_ofParts_congr {radius : Nat} (hshape : image.SameShape image')
    (hhalve : image.halve = image'.halve)
    (hsplits : Pyramid.splits radius (.ofParts image mask) = true) :
    (ofParts image mask).halve = (ofParts image' mask).halve := by
  simp only [Pyramid.splits, Bool.and_eq_true] at hsplits
  have hhalvable : image.halvable = true := hsplits.2
  have hhalvable' : image'.halvable = true :=
    Raster.halvable_congr hshape.width_eq hshape.height_eq ▸ hhalvable
  show (if image.halvable then ofParts image.halve mask.halve else _) =
    if image'.halvable then ofParts image'.halve mask.halve else _
  rw [if_pos hhalvable, if_pos hhalvable', hhalve]

/-- Images that agree outside of the holes of a mask make canvases that agree. -/
theorem Canvas.agree_ofParts {limit : UInt8} (hshape : image.SameShape image')
    (hconsistent : (ofParts image (mask.threshold limit)).Consistent)
    (hopen : ∀ p < image.area, mask.sample p 0 ≤ limit →
      ∀ k < image.depth, image.sample p k = image'.sample p k) :
    (ofParts image (mask.threshold limit)).Agree (ofParts image' (mask.threshold limit)) where
  shape := hshape
  holes_eq := rfl
  sample_eq := by
    intro p hp hhole k hk
    have hhole' : ¬ limit < mask.sample p 0 := by
      rw [← hconsistent.isHole_threshold, hhole]
      exact Bool.false_ne_true
    exact hopen p hp (UInt8.not_lt.mp hhole') k hk

/-- An accepted image that is not halved has no hole. -/
theorem Settings.Accepted.isHole_eq_false {c : Canvas} (h : settings.Accepted c.image mask)
    (hsplits : Pyramid.splits settings.radius c = false) (p : Nat) : c.isHole p = false := by
  have hradius := h.radius_lt
  have hpos := h.radius_pos
  have hhalvable : c.image.halvable = true := by
    simp only [Raster.halvable, Bool.and_eq_true, decide_eq_true_eq]
    omega
  have hsides : settings.radius < c.width ∧ settings.radius < c.height := Nat.lt_min.mp hradius
  -- The sides do not stop the halving, so the number of holes does.
  simp only [Pyramid.splits, hsides, hhalvable, decide_true, Bool.true_and, Bool.and_true,
    decide_eq_false_iff_not, Nat.not_lt, Nat.le_zero] at hsplits
  exact Canvas.countHoles_eq_zero_iff.mp hsplits p

end Images

/-! ### Levels and runs -/

namespace Resizing

variable {σ : Type} [WordSource σ] (resize : Resizing) (settings : Settings)

theorem workLevel_congr {finer finer' : Canvas} (h : finer.AgreeInside finer') (level : Nat)
    (f : MatchField σ) :
    resize.workLevel settings level finer f = resize.workLevel settings level finer' f := by
  have hw : finer.width = finer'.width := h.shape.width_eq
  have hh : finer.height = finer'.height := h.shape.height_eq
  simp only [workLevel, MatchField.repaint?_congr _ _ _ h, hw, hh]

/-- The finest level is not told apart from one that agrees with it. -/
theorem climb_congr {last last' : Canvas} (h : last.AgreeInside last') (others : List Canvas)
    (f : MatchField σ) :
    resize.climb settings f (others ++ [last]) = resize.climb settings f (others ++ [last']) := by
  induction others generalizing f with
  | nil =>
    rw [List.nil_append, List.nil_append, climb_last, climb_last, workLevel_congr _ _ h]
  | cons finer others ih =>
    -- This level and the field of the next one are the same in both.
    have hrest : others ++ [last] ≠ [] := by simp
    have hrest' : others ++ [last'] ≠ [] := by simp
    have hlength : (others ++ [last]).length = (others ++ [last']).length := by simp
    rw [List.cons_append, List.cons_append, climb_next f finer hrest, climb_next f finer hrest',
      hlength]
    simp only [ih]

theorem reconstruct_congr {last last' : Canvas} (h : last.AgreeInside last') (start : σ)
    (coarsest : Canvas) (others : List Canvas) :
    resize.reconstruct settings start coarsest (others ++ [last]) =
      resize.reconstruct settings start coarsest (others ++ [last']) := by
  simp only [reconstruct, climb_congr _ _ h]

end Resizing

namespace Filling

variable {σ : Type} [WordSource σ] (scaler : Scaler) (settings : Settings)

variable (start : σ)

/-- **Runs in lock step.**  A canvas that is halved, and one that agrees with it and has the same
half, end with the same canvas. -/
theorem run_congr {initial initial' : Canvas} (h : initial.Agree initial')
    (hhalve : initial.halve = initial'.halve)
    (hsplits : Pyramid.splits settings.radius initial = true) :
    (run scaler settings start initial).map Outcome.canvas =
      (run scaler settings start initial').map Outcome.canvas := by
  have hdescend := Pyramid.descend_congr h hhalve settings.radius
  rcases List.eq_nil_or_concat (Pyramid.descend settings.radius initial) with
    hnil | ⟨between, coarsest, hlevels⟩
  · rw [Pyramid.descend_of_splits hsplits] at hnil
    cases hnil
  · -- The two lists of levels have the same ends, and only the finest level is not in them.
    rw [List.concat_eq_append] at hlevels
    rw [canvas_run_of_descend hlevels, canvas_run_of_descend (hdescend ▸ hlevels)]
    have hreconstruct (coarsest : Canvas) (others : List Canvas) :
        reconstruct scaler settings start coarsest (others ++ [initial]) =
          reconstruct scaler settings start coarsest (others ++ [initial']) :=
      Resizing.reconstruct_congr (.planes scaler) settings h.inside start coarsest others
    simp only [hreconstruct, finish, h.inside.restore?_congr]

/-- Accepted images that agree outside of the holes, with the same half, run to the same raster. -/
theorem run_image_congr {image image' mask : Raster} (haccepted : settings.Accepted image mask)
    (hshape : image.SameShape image')
    (hopen : ∀ p < image.area, mask.sample p 0 ≤ settings.threshold →
      ∀ k < image.depth, image.sample p k = image'.sample p k)
    (hhalve : image.halve = image'.halve) :
    (run scaler settings start (.ofParts image (mask.threshold settings.threshold))).map
        (·.canvas.image) =
      (run scaler settings start (.ofParts image' (mask.threshold settings.threshold))).map
        (·.canvas.image) := by
  let initial := Canvas.ofParts image (mask.threshold settings.threshold)
  let initial' := Canvas.ofParts image' (mask.threshold settings.threshold)
  have hconsistent : initial.Consistent := Canvas.consistent_ofParts haccepted.mask_width
    haccepted.mask_height haccepted.mask_depth
  have hagree : initial.Agree initial' := Canvas.agree_ofParts hshape hconsistent hopen
  cases hsplits : Pyramid.splits settings.radius initial with
  | true =>
    have hrun := run_congr scaler settings start hagree
      (Canvas.halve_ofParts_congr hshape hhalve hsplits) hsplits
    have hraster (x : Except Fault Outcome) :
        x.map (·.canvas.image) = (x.map Outcome.canvas).map Canvas.image := by cases x <;> rfl
    rw [hraster, hrun, ← hraster]
  | false =>
    -- No hole is left to hide anything, so the images are equal.
    have hnone : ∀ p, initial.isHole p = false :=
      Settings.Accepted.isHole_eq_false (c := initial) haccepted hsplits
    have himage : image = image' := by
      refine Raster.ext_sample hshape.width_eq hshape.height_eq hshape.layout_eq fun p hp => ?_
      exact hagree.sample_eq p hp (hnone p)
    rw [himage]

/-- **Holes keep their secret**, but for the first halving.  Two images of one shape that have the
same samples wherever the mask is not above the threshold, and the same half, are filled to the
same raster, or refused alike. -/
theorem fill?_image_congr {image image' mask : Raster} (hshape : image.SameShape image')
    (hopen : ∀ p < image.area, mask.sample p 0 ≤ settings.threshold →
      ∀ k < image.depth, image.sample p k = image'.sample p k)
    (hhalve : image.halve = image'.halve) :
    (fill? scaler settings start image mask).map (·.canvas.image) =
      (fill? scaler settings start image' mask).map (·.canvas.image) := by
  cases hcheck : settings.check image mask with
  | error =>
    rw [fill?, fill?, ← Settings.check_congr hshape, hcheck]
    rfl
  | ok =>
    have haccepted := Settings.check_eq_ok_iff.mp hcheck
    have haccepted' := Settings.check_eq_ok_iff.mp (Settings.check_congr hshape mask ▸ hcheck)
    rw [fill?_of_accepted haccepted, fill?_of_accepted haccepted', ← hshape.width_eq,
      ← hshape.depth_eq]
    cases Canvas.checkRows image.width image.depth with
    | error => rfl
    | ok =>
      show (Failure.ofFault _).map _ = (Failure.ofFault _).map _
      rw [Failure.map_ofFault, Failure.map_ofFault]
      exact congrArg Failure.ofFault
        (run_image_congr scaler settings start haccepted hshape hopen hhalve)

/-- An image that is black but for a faint pixel at the hole of `dotMask`. -/
def faintImage : Raster :=
  .generate 4 4 .gray fun p _ => if p = 9 then 1 else 0

theorem halve_faintImage : darkImage.halve = faintImage.halve := by
  have hmean : ∀ p < 2 * 2, ∀ c < Layout.gray.size,
      Blend.mean ((darkImage.block (p % 2) (p / 2)).map (darkImage.sample · c)) Blend.quarters =
        Blend.mean ((faintImage.block (p % 2) (p / 2)).map (faintImage.sample · c))
          Blend.quarters := by decide
  show darkImage.blockMeans = faintImage.blockMeans
  exact Raster.generate_congr hmean

/-- The faint pixel does not show. -/
theorem fill?_image_congr_dot :
    darkImage ≠ faintImage ∧ ∃ raster,
      (fill? .triangle { radius := 1 } (Keystream.ofSeed 7) darkImage dotMask).map
        (·.canvas.image) = .ok raster ∧
      (fill? .triangle { radius := 1 } (Keystream.ofSeed 7) faintImage dotMask).map
        (·.canvas.image) = .ok raster := by
  obtain ⟨outcome, hfill, -⟩ := exists_fill? .triangle (Keystream.ofSeed 7) feasible_dot
  have hshape : darkImage.SameShape faintImage := ⟨rfl, rfl, rfl⟩
  have hopen : ∀ p < darkImage.area, dotMask.sample p 0 ≤ 127 →
      ∀ k < darkImage.depth, darkImage.sample p k = faintImage.sample p k := by decide
  have hsame := fill?_image_congr .triangle { radius := 1 } (Keystream.ofSeed 7) hshape hopen
    halve_faintImage
  refine ⟨by decide, outcome.canvas.image, ?_, ?_⟩
  · rw [hfill]
    rfl
  · rw [← hsame, hfill]
    rfl

end Filling

end Retouch
