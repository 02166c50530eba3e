import Retouch.Proofs.Filling.Covered
import Retouch.Proofs.Matching.Window

/-!
# Retouch — Filling — Distances that can be computed

A distance is scaled by the most that a window can cost, and this is zero in canvases without any
channel.  Images without a channel are accepted, though: filling one divides by zero as soon as
there is a hole (`Filling.run_of_depth_eq_zero`).

With a channel nothing is divided by zero.  The scaled cost fits its word when the scaled cost of a
whole window does (`Pairing.scaled_lt_of_within`), which the settings do not ask for: where it does
not, an image without a known pixel is accepted, but cannot be filled
(`Filling.fill?_eq_overflow_of_covered`).
-/

namespace Retouch

/-! ### The full cost -/

namespace Pairing

theorem fullCost_pos_iff {p : Pairing} : 0 < p.fullCost ↔ 0 < p.target.depth := by
  have hside : 0 < p.side := Nat.succ_pos _
  have hspan : 0 < Byte.squaredSpan := by decide
  simp only [fullCost, cellSpan, Nat.mul_pos_iff_of_pos_left, hside, hspan]

/-- Between canvases of a run every scaled cost fits its word, if that of a whole window does. -/
theorem scaled_lt_of_within {initial target source : Canvas} {radius : Nat}
    (ht : target.Within initial) (hroom : maxDistance * Byte.squaredSpan * initial.depth *
      ((2 * radius + 1) * (2 * radius + 1)) < Word.span64) (x y x' y' : Int) :
    maxDistance * (Pairing.mk target source radius).cost x y x' y' < Word.span64 := by
  calc
    maxDistance * (Pairing.mk target source radius).cost x y x' y'
      ≤ maxDistance * (Pairing.mk target source radius).fullCost :=
        Nat.mul_le_mul_left _ (cost_le _ x y x' y')
    _ = maxDistance * Byte.squaredSpan * initial.depth * ((2 * radius + 1) * (2 * radius + 1)) := by
        rw [scaled_fullCost, ht.depth_eq]
    _ < Word.span64 := hroom

/-- A window costs as much as windows can where the source is covered. -/
theorem cost_of_covered {p : Pairing} (h : p.source.Covered) (x y x' y' : Int) :
    p.cost x y x' y' = p.fullCost := by
  refine cost_eq_fullCost_iff.mpr fun o _ => .inl fun hboth => ?_
  have hopen := hboth.2
  simp only [Canvas.isOpen, Canvas.contains, Bool.and_eq_true, decide_eq_true_eq,
    Bool.not_eq_true'] at hopen
  obtain ⟨⟨⟨⟨_, hx⟩, _⟩, hy⟩, hhole⟩ := hopen
  have hcell : p.source.cell (x' + o.1).toNat (y' + o.2).toNat < p.source.area :=
    Raster.cell_lt_area ((Int.toNat_lt (by omega)).mpr hx) ((Int.toNat_lt (by omega)).mpr hy)
  rw [h _ hcell] at hhole
  cases hhole

/-- When the scaled cost of a whole window does not fit its word, there is no room for all
distances, and none for any where the source is covered. -/
theorem roomy_eq_false {p : Pairing} (h : Word.span64 ≤ maxDistance * p.fullCost) :
    p.roomy = false := by
  rw [roomy, decide_eq_false (Nat.not_lt.mpr h), Bool.false_and]

theorem fits_of_covered {p : Pairing} (h : Word.span64 ≤ maxDistance * p.fullCost)
    (hsource : p.source.Covered) (x y x' y' : Int) : p.fits x y x' y' = false := by
  rw [fits, cost_of_covered hsource, decide_eq_false (Nat.not_lt.mpr h), Bool.and_false]

end Pairing

/-! ### Images without a channel -/

namespace Filling

open MatchField

variable {σ : Type} [WordSource σ] (scaler : Scaler) (settings : Settings) (start : σ)
  {initial : Canvas}

/-- Scattering a field without channels divides by zero. -/
theorem coarsestField?_of_depth_eq_zero {level : Canvas} (hlevel : level.Within initial)
    (hdepth : initial.depth = 0) :
    coarsestField? settings start level = .error .divisionByZero := by
  let f := MatchField.start ⟨level.clearHoles, level, settings.radius⟩ start
  have hframe : SameFrame f (f.forEach scatterAt) :=
    sameFrame_foldl (fun g p => sameFrame_put g p _ _) _ f
  have hsize : ¬ f.entries.size = 0 := by
    have harea : f.entries.size = level.area := Array.size_replicate
    exact harea ▸ Nat.ne_of_gt hlevel.area_pos
  have hchannels : ¬ 0 < (f.forEach scatterAt).target.depth := by
    have hzero : f.target.depth = 0 := hlevel.depth_eq.trans hdepth
    rw [hframe.target_eq, hzero]
    exact Nat.lt_irrefl 0
  have hsource : 0 < f.source.width ∧ 0 < f.source.height := ⟨hlevel.width_pos, hlevel.height_pos⟩
  show f.scatter? = _
  rw [scatter?, if_neg hsize, Fault.unless_of hsource, checkSettle, Fault.unless,
    if_neg hchannels]
  rfl

/-- Without channels, a run that has something to do divides by zero. -/
theorem run_of_depth_eq_zero (hinitial : initial.Within initial) (hdepth : initial.depth = 0)
    (hcoarsest : (Pyramid.build initial settings.radius).coarsest ≠ 0) :
    run scaler settings start initial = .error .divisionByZero := by
  obtain ⟨n, hn⟩ := Nat.exists_eq_succ_of_ne_zero hcoarsest
  rw [run_of_coarsest_eq_succ hn, reconstruct,
    coarsestField?_of_depth_eq_zero settings start (hinitial.halved (n + 1)) hdepth]
  rfl

/-- A run divides by zero exactly when it has something to do and no channel to do it on. -/
theorem run_eq_divisionByZero_iff {mask : Raster} (haccepted : settings.Accepted initial.image mask)
    (hinitial : initial.Within initial) :
    run scaler settings start initial = .error .divisionByZero ↔
      initial.depth = 0 ∧ ∃ p < initial.area, initial.isHole p = true := by
  have hopen := coarsest_eq_zero_iff settings haccepted hinitial.consistent
  constructor
  · intro hrun
    constructor
    · refine Nat.eq_zero_of_not_pos fun hdepth => ?_
      have hrunning := okUnless_run scaler settings start hinitial hdepth haccepted.repaints_pos
      exact absurd (hrunning.2 _ hrun) (by decide)
    · refine Classical.byContradiction fun hnone => ?_
      have hzero := hopen.mpr fun p hp hhole => hnone ⟨p, hp, hhole⟩
      rw [run_of_coarsest_eq_zero hzero] at hrun
      cases hrun
  · rintro ⟨hdepth, p, hp, hhole⟩
    refine run_of_depth_eq_zero scaler settings start hinitial hdepth fun hzero => ?_
    exact hopen.mp hzero p hp hhole

theorem fill?_eq_divisionByZero_iff {image mask : Raster}
    (haccepted : settings.Accepted image mask) :
    fill? scaler settings start image mask = .error (.fault .divisionByZero) ↔
      image.depth = 0 ∧ ∃ p < image.area, settings.threshold < mask.sample p 0 := by
  have hinitial := haccepted.within_threshold settings.threshold
  have hrun := run_eq_divisionByZero_iff scaler settings start haccepted hinitial
  simp only [hinitial.consistent.isHole_threshold] at hrun
  rw [fill?_of_accepted haccepted, bind_eq_error_iff]
  constructor
  · rintro (hrows | ⟨_, -, hfault⟩)
    · have hrows := (Fault.okUnless _ _).2 _ (Failure.ofFault_eq_error_iff.mp hrows)
      cases hrows
    · exact hrun.mp (Failure.ofFault_eq_error_iff.mp hfault)
  · intro h
    refine .inr ⟨(), ?_, Failure.ofFault_eq_error_iff.mpr (hrun.mpr h)⟩
    refine Failure.ofFault_eq_ok_iff.mpr (Fault.unless_of ?_)
    rw [h.1, Nat.mul_zero]
    decide

theorem fillCanvas?_eq_divisionByZero_iff (hconsistent : initial.Consistent)
    (haccepted : settings.Accepted initial.image initial.mask) :
    fillCanvas? scaler settings start initial = .error (.fault .divisionByZero) ↔
      initial.depth = 0 ∧ ∃ p < initial.area, initial.mask.sample p 0 ≠ 0 := by
  have hinitial := haccepted.within_self hconsistent
  have hrun := run_eq_divisionByZero_iff scaler settings start haccepted hinitial
  simp only [hconsistent.isHole_eq] at hrun
  rw [fillCanvas?_of_accepted haccepted, bind_eq_error_iff, Failure.ofFault_eq_error_iff, hrun]
  refine or_iff_left ?_
  rintro ⟨filled, hfilled, hpair⟩
  have hshape := sameShape_of_run hinitial (Failure.ofFault_eq_ok_iff.mp hfilled)
  have hpaired := (Canvas.okUnless_pair? haccepted hshape (.refl _)).bind
    (R := fun _ => True) (f := fun canvas => .ok { filled with canvas }) fun _ _ => .ok trivial
  cases hpaired.2 _ hpair

/-! ### Distances that do not fit -/

/-- Scattering a field over a covered source needs a distance that does not fit its word. -/
theorem coarsestField?_of_covered {level : Canvas} (hlevel : level.Within initial)
    (hcovered : level.Covered) (hdepth : 0 < initial.depth)
    (hroom : Word.span64 ≤ maxDistance * Byte.squaredSpan * initial.depth *
      ((2 * settings.radius + 1) * (2 * settings.radius + 1))) :
    coarsestField? settings start level = .error .overflow := by
  let f := MatchField.start ⟨level.clearHoles, level, settings.radius⟩ start
  have hframe : SameFrame f (f.forEach scatterAt) :=
    sameFrame_foldl (fun g p => sameFrame_put g p _ _) _ f
  have hfull : Word.span64 ≤ maxDistance * (f.forEach scatterAt).fullCost := by
    rw [hframe.toPairing_eq, Pairing.scaled_fullCost]
    exact hlevel.depth_eq ▸ hroom
  have hsource : (f.forEach scatterAt).source.Covered := hframe.source_eq ▸ hcovered
  have harea : f.entries.size = level.area := Array.size_replicate
  have hsize : (f.forEach scatterAt).entries.size ≠ 0 := by
    rw [hframe.size_eq, harea]
    exact Nat.ne_of_gt hlevel.area_pos
  -- The very first distance, at the seed of the first pixel, is too large.
  obtain ⟨n, hn⟩ := Nat.exists_eq_succ_of_ne_zero hsize
  have hfirst : (f.forEach scatterAt).holdsAlong settleAt settleFits
      (List.range (f.forEach scatterAt).entries.size) = false := by
    rw [hn, List.range_succ_eq_map, holdsAlong, settleFits, Pairing.fits_of_covered hfull hsource,
      Bool.false_and, Bool.false_and]
  have hchannels : 0 < (f.forEach scatterAt).target.depth := by
    rw [hframe.target_eq]
    exact Nat.lt_of_lt_of_eq hdepth hlevel.depth_eq.symm
  have hsides : 0 < f.source.width ∧ 0 < f.source.height := ⟨hlevel.width_pos, hlevel.height_pos⟩
  show f.scatter? = _
  rw [scatter?, if_neg (hframe.size_eq ▸ hsize), Fault.unless_of hsides, checkSettle,
    Fault.unless_of hchannels, Pairing.roomy_eq_false hfull, hfirst]
  rfl

/-- An accepted image without a known pixel cannot be filled where the scaled cost of a whole window
does not fit its word. -/
theorem fill?_eq_overflow_of_covered {image mask : Raster}
    (haccepted : settings.Accepted image mask) (hdepth : 0 < image.depth)
    (hcovered : ∀ p < image.area, settings.threshold < mask.sample p 0)
    (hroom : Word.span64 ≤ maxDistance * Byte.squaredSpan * image.depth *
      ((2 * settings.radius + 1) * (2 * settings.radius + 1))) :
    fill? scaler settings start image mask = .error (.fault .overflow) := by
  have hinitial := haccepted.within_threshold settings.threshold
  set initial := Canvas.ofParts image (mask.threshold settings.threshold)
  have hholes : initial.Covered := fun p hp => by
    rw [hinitial.consistent.isHole_threshold]
    exact hcovered p hp
  have hcoarsest : (Pyramid.build initial settings.radius).coarsest ≠ 0 := fun hzero => by
    have hopen := (coarsest_eq_zero_iff settings haccepted hinitial.consistent).mp hzero
    exact hopen 0 hinitial.area_pos (hholes 0 hinitial.area_pos)
  obtain ⟨n, hn⟩ := Nat.exists_eq_succ_of_ne_zero hcoarsest
  have hrun : run scaler settings start initial = .error .overflow := by
    rw [run_of_coarsest_eq_succ hn, reconstruct, coarsestField?_of_covered settings start
      (hinitial.halved (n + 1)) (hholes.halved hinitial.consistent (n + 1)) hdepth hroom]
    rfl
  rw [fill?_of_accepted haccepted, hrun]
  unfold Canvas.checkRows Fault.unless
  split <;> rfl

/-- **When the distances of a filling can be computed.**  Filling an image that was accepted divides
by zero exactly when the image has a hole and no channel, and so does filling a canvas.  With a
channel no window costs nothing at most, and where words have room for the scaled cost of a whole
window, they have room for every scaled cost of a target that can turn up on the way. -/
theorem fill?_measurable :
    (∀ image mask, settings.check image mask = .ok () →
      (fill? scaler settings start image mask = .error (.fault .divisionByZero) ↔
        image.depth = 0 ∧ ∃ p < image.area, settings.threshold < mask.sample p 0)) ∧
    (∀ initial : Canvas, initial.Consistent →
      settings.check initial.image initial.mask = .ok () →
      (fillCanvas? scaler settings start initial = .error (.fault .divisionByZero) ↔
        initial.depth = 0 ∧ ∃ p < initial.area, initial.mask.sample p 0 ≠ 0)) ∧
    ∀ initial target source : Canvas, target.Within initial →
      (0 < initial.depth ↔ 0 < (Pairing.mk target source settings.radius).fullCost) ∧
      (maxDistance * Byte.squaredSpan * initial.depth *
          ((2 * settings.radius + 1) * (2 * settings.radius + 1)) < Word.span64 →
        ∀ x y x' y', maxDistance * (Pairing.mk target source settings.radius).cost x y x' y' <
          Word.span64) := by
  refine ⟨?_, ?_, ?_⟩
  · intro image mask hcheck
    exact fill?_eq_divisionByZero_iff scaler settings start (Settings.check_eq_ok_iff.mp hcheck)
  · intro initial hconsistent hcheck
    exact fillCanvas?_eq_divisionByZero_iff scaler settings start hconsistent
      (Settings.check_eq_ok_iff.mp hcheck)
  · intro initial target source ht
    constructor
    · rw [Pairing.fullCost_pos_iff, ht.depth_eq]
    · exact Pairing.scaled_lt_of_within ht

/-- A black image with one hole has a channel, and small windows. -/
theorem fill?_measurable_dot :
    fill? .triangle { radius := 1 } (Keystream.ofSeed 7) darkImage dotMask ≠
      .error (.fault .divisionByZero) ∧
    let initial := Canvas.ofParts darkImage (dotMask.threshold 127)
    0 < (Pairing.mk initial initial 1).fullCost ∧
    ∀ x y x' y', maxDistance * (Pairing.mk initial initial 1).cost x y x' y' < Word.span64 := by
  obtain ⟨himages, -, hpairings⟩ :=
    fill?_measurable .triangle { radius := 1 } (Keystream.ofSeed 7)
  have hdepth : 0 < darkImage.depth := feasible_dot.depth_pos
  have haccepted := Settings.check_eq_ok_iff.mp feasible_dot.accepted
  have hinitial := haccepted.within_threshold 127
  obtain ⟨hpos, hscaled⟩ := hpairings _ _ _ hinitial
  refine ⟨fun hfault => ?_, hpos.mp hdepth, hscaled feasible_dot.distances⟩
  exact absurd ((himages darkImage dotMask feasible_dot.accepted).mp hfault).1
    (Nat.ne_of_gt hdepth)

/-- Samples of 65536 channels, in windows of a radius that 141 by 141 pixels have room for: the
scaled cost of a window takes more than 64 bits. -/
theorem fill?_wideLayout :
    let settings : Settings := { radius := 140 }
    let image := Raster.blank 141 141 (Array.replicate 65536 .color)
    let mask := Raster.ofHoles 141 141 fun _ _ => true
    settings.check image mask = .ok () ∧
      fill? .triangle settings (Keystream.ofSeed 7) image mask = .error (.fault .overflow) := by
  intro settings image mask
  have hdepth : image.depth = 65536 := Array.size_replicate
  have hcheck : settings.check image mask = .ok () := rfl
  refine ⟨hcheck, fill?_eq_overflow_of_covered .triangle settings _
    (Settings.check_eq_ok_iff.mp hcheck) (hdepth ▸ by decide) (fun p hp => ?_) (hdepth ▸ by decide)⟩
  have hsample : mask.sample p 0 = 255 := Raster.sample_generate hp Nat.one_pos
  rw [hsample]
  decide

/-- An image of four by four pixels without any channel. -/
def hollowImage : Raster :=
  .blank 4 4 #[]

/-- An image without channels is accepted, and filling its hole divides by zero. -/
theorem fill?_hollowImage :
    ({ radius := 1 } : Settings).check hollowImage dotMask = .ok () ∧
    fill? .triangle { radius := 1 } (Keystream.ofSeed 7) hollowImage dotMask =
      .error (.fault .divisionByZero) := by
  have hcheck : ({ radius := 1 } : Settings).check hollowImage dotMask = .ok () := rfl
  have hhole : ∃ p < hollowImage.area, 127 < dotMask.sample p 0 := ⟨9, by decide, by decide⟩
  refine ⟨hcheck, ?_⟩
  exact (fill?_eq_divisionByZero_iff .triangle _ _ (Settings.check_eq_ok_iff.mp hcheck)).mpr
    ⟨rfl, hhole⟩

end Filling

end Retouch
