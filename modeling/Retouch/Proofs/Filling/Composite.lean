import Retouch.Proofs.Canvas.Halving
import Retouch.Proofs.Filling.Total

/-!
# Retouch — Filling — Known pixels

Whether known pixels are kept is asked once, after the last level: neither the search nor the draws
depend on it (`reconstruct_keepsKnown`).  So a run that keeps them is a run that does not, with the
known pixels put back at its end (`run_keepsKnown`), and both ways of filling inherit this.

`Raster.Composed` says what comes of it, pixel by pixel.
-/

namespace Retouch

/-! ### Putting known pixels back -/

/-- `kept` takes its samples from `filled` at the holes and from `image` elsewhere, and without a
hole all three are the same. -/
structure Raster.Composed (isHole : Nat → Prop) (image filled kept : Raster) : Prop where
  shape_filled : filled.SameShape image
  shape_kept : kept.SameShape image
  hole_eq : ∀ p < image.area, isHole p → ∀ k < image.depth, kept.sample p k = filled.sample p k
  known_eq : ∀ p < image.area, ¬ isHole p → ∀ k < image.depth, kept.sample p k = image.sample p k
  untouched : (∀ p < image.area, ¬ isHole p) → kept = image ∧ filled = image

namespace Canvas

variable {c known : Canvas}

theorem sample_restore (h : c.image.SameShape known.image) {p k : Nat} (hp : p < known.area)
    (hk : k < known.depth) : (c.restore known).image.sample p k =
      if known.isHole p then c.image.sample p k else known.image.sample p k :=
  Raster.sample_generate (Nat.lt_of_lt_of_eq hp h.area_eq.symm)
    (Nat.lt_of_lt_of_eq hk h.depth_eq.symm)

/-- A canvas already has its own pixels. -/
theorem restore_self (c : Canvas) : c.restore c = c := by
  have himage : (c.restore c).image = c.image := by
    refine Raster.ext_sample rfl rfl rfl fun p hp k hk => ?_
    rw [sample_restore (.refl c.image) hp hk, ite_self]
  exact congrArg c.withImage himage

theorem composed_restore (hshape : c.image.SameShape known.image)
    (huntouched : (∀ p < known.area, ¬ known.isHole p = true) → c.image = known.image) :
    Raster.Composed (known.isHole · = true) known.image c.image (c.restore known).image where
  shape_filled := hshape
  shape_kept := ⟨hshape.width_eq, hshape.height_eq, hshape.layout_eq⟩
  hole_eq := by
    intro p hp hhole k hk
    rw [sample_restore hshape hp hk, if_pos hhole]
  known_eq := by
    intro p hp hhole k hk
    rw [sample_restore hshape hp hk, if_neg hhole]
  untouched := by
    intro hnone
    have hkept : known.image = (c.restore known).image := by
      refine Raster.ext_sample hshape.width_eq.symm hshape.height_eq.symm hshape.layout_eq.symm ?_
      intro p hp k hk
      rw [sample_restore hshape hp hk, if_neg (hnone p hp)]
    exact ⟨hkept.symm, huntouched hnone⟩

end Canvas

/-! ### What the choice leaves alone -/

theorem Settings.check_keepsKnown (settings : Settings) (keeps : Bool) (image mask : Raster) :
    ({ settings with keepsKnown := keeps } : Settings).check image mask =
      settings.check image mask :=
  rfl

theorem Settings.Accepted.keepsKnown {settings : Settings} {image mask : Raster}
    (h : settings.Accepted image mask) (keeps : Bool) :
    ({ settings with keepsKnown := keeps } : Settings).Accepted image mask :=
  check_eq_ok_iff.mp ((check_keepsKnown settings keeps image mask).trans (check_eq_ok_iff.mpr h))

namespace Filling

variable {σ : Type} [WordSource σ] {scaler : Scaler} {settings : Settings}

theorem climb_keepsKnown (keeps : Bool) (f : MatchField σ) (others : List Canvas) :
    climb scaler { settings with keepsKnown := keeps } f others =
      climb scaler settings f others := by
  induction others generalizing f with
  | nil => rfl
  | cons finer rest ih =>
    simp only [climb] at ih
    simp only [climb, Resizing.climb, ih]
    rfl

/-- Neither the search nor the draws depend on what is put back later. -/
theorem reconstruct_keepsKnown (keeps : Bool) (start : σ) (coarsest : Canvas)
    (others : List Canvas) :
    reconstruct scaler { settings with keepsKnown := keeps } start coarsest others =
      reconstruct scaler settings start coarsest others := by
  simp only [reconstruct, climb_keepsKnown]
  rfl

/-! ### Runs -/

/-- **Keeping the known pixels** is a composition at the end of a run. -/
theorem run_keepsKnown {start : σ} {initial : Canvas} (hinitial : initial.Within initial) :
    (run scaler { settings with keepsKnown := true } start initial).map Outcome.canvas =
      (run scaler { settings with keepsKnown := false } start initial).map
        (·.canvas.restore initial) := by
  rcases List.eq_nil_or_concat (Pyramid.descend settings.radius initial) with
    hnil | ⟨between, coarsest, hdescend⟩
  · have hrun (keeps : Bool) : run scaler { settings with keepsKnown := keeps } start initial =
        .ok ⟨initial, levelEvents (.build initial settings.radius), [.pyramid]⟩ :=
      run_of_descend_eq_nil hnil
    rw [hrun, hrun]
    exact congrArg Except.ok initial.restore_self.symm
  · rw [List.concat_eq_append] at hdescend
    obtain ⟨hcoarsest, hbetween⟩ := Pyramid.within_of_descend_eq hinitial hdescend
    have hrun (keeps : Bool) :
        (run scaler { settings with keepsKnown := keeps } start initial).map Outcome.canvas =
          reconstruct scaler settings start coarsest (between.reverse ++ [initial]) >>=
            fun outcome => finish { settings with keepsKnown := keeps } initial outcome.canvas := by
      rw [← reconstruct_keepsKnown keeps]
      exact canvas_run_of_descend hdescend
    have hrestore (x : Except Fault Outcome) : x.map (·.canvas.restore initial) =
        (x.map Outcome.canvas).map (·.restore initial) := by cases x <;> rfl
    rw [hrestore, hrun, hrun]
    cases hreconstruct :
        reconstruct scaler settings start coarsest (between.reverse ++ [initial]) with
    | error => rfl
    | ok outcome =>
      -- Equal sizes: putting the known pixels back cannot fail.
      obtain ⟨-, hshape⟩ := within_of_reconstruct hinitial hcoarsest hbetween hreconstruct
      simp only [bind, Except.bind, finish_eq_ok hshape]
      rfl

/-- Where no cell is a hole, a run leaves the canvas as it is. -/
theorem canvas_run_of_open {start : σ} {initial : Canvas} (hconsistent : initial.Consistent)
    (hopen : ∀ p < initial.area, ¬ initial.isHole p = true) {outcome : Outcome}
    (h : run scaler settings start initial = .ok outcome) : outcome.canvas = initial := by
  have hnone : initial.countHoles = 0 := by
    refine hconsistent.countHoles_eq_zero_iff.mpr fun p hp => ?_
    exact Bool.eq_false_iff.mpr (hopen p hp)
  have hsplits := Pyramid.splits_of_countHoles_eq_zero hnone settings.radius
  rw [run_of_descend_eq_nil (Pyramid.descend_of_not_splits hsplits)] at h
  cases h
  rfl

/-! ### Images and canvases -/

theorem fill?_restore (scaler : Scaler) (settings : Settings) (start : σ) (image mask : Raster) :
    (fill? scaler { settings with keepsKnown := true } start image mask).map Outcome.canvas =
      (fill? scaler { settings with keepsKnown := false } start image mask).map
        (·.canvas.restore (.ofParts image (mask.threshold settings.threshold))) := by
  cases hcheck : settings.check image mask with
  | error =>
    have hrefused (keeps : Bool) := (settings.check_keepsKnown keeps image mask).trans hcheck
    rw [fill?, fill?, hrefused, hrefused]
    rfl
  | ok =>
    have haccepted := Settings.check_eq_ok_iff.mp hcheck
    let initial := Canvas.ofParts image (mask.threshold settings.threshold)
    have hinitial : initial.Within initial := haccepted.within_threshold _
    rw [fill?_of_accepted (haccepted.keepsKnown true),
      fill?_of_accepted (haccepted.keepsKnown false)]
    cases Canvas.checkRows image.width image.depth with
    | error => rfl
    | ok =>
      show (Failure.ofFault _).map _ = (Failure.ofFault _).map _
      rw [Failure.map_ofFault, Failure.map_ofFault]
      exact congrArg Failure.ofFault (run_keepsKnown hinitial)

theorem fillCanvas?_restore (scaler : Scaler) (settings : Settings) (start : σ) {initial : Canvas}
    (hconsistent : initial.Consistent) :
    (fillCanvas? scaler { settings with keepsKnown := true } start initial).map Outcome.canvas =
      (fillCanvas? scaler { settings with keepsKnown := false } start initial).map
        (·.canvas.restore initial) := by
  cases hcheck : settings.check initial.image initial.mask with
  | error =>
    have hrefused (keeps : Bool) :=
      (settings.check_keepsKnown keeps initial.image initial.mask).trans hcheck
    rw [fillCanvas?, fillCanvas?, hrefused, hrefused]
    rfl
  | ok =>
    have haccepted := Settings.check_eq_ok_iff.mp hcheck
    have hinitial := haccepted.within_self hconsistent
    have hrun := @run_keepsKnown σ _ scaler settings start initial hinitial
    rw [fillCanvas?_of_accepted (haccepted.keepsKnown true),
      fillCanvas?_of_accepted (haccepted.keepsKnown false)]
    cases hfilled : run scaler { settings with keepsKnown := false } start initial with
    | error e =>
      rw [eq_error_of_map_eq hrun hfilled]
      rfl
    | ok filled =>
      obtain ⟨kept, hkept, hcanvas⟩ := exists_ok_of_map_eq hrun hfilled
      -- Both results are paired with the mask, and both have the shape of the image.
      have hshape := sameShape_of_run hinitial hfilled
      have hshape' := sameShape_of_run hinitial hkept
      rw [hkept]
      simp only [Failure.ofFault, bind, Except.bind]
      rw [pair?_of_accepted haccepted hshape' (.refl _),
        pair?_of_accepted haccepted hshape (.refl _), hcanvas]
      cases Canvas.checkRows initial.image.width initial.image.depth <;> rfl

/-- `keeping` ends as `filling` does: with the same failure, or with the raster of `filling`
composed with `image`. -/
structure Composes (isHole : Nat → Prop) (image : Raster)
    (filling keeping : Except Failure Outcome) : Prop where
  of_ok : ∀ filled, filling = .ok filled → ∃ kept, keeping = .ok kept ∧
    Raster.Composed isHole image filled.canvas.image kept.canvas.image
  of_error : ∀ failure, filling = .error failure → keeping = .error failure

theorem composes_of_restore {isHole : Nat → Prop} {initial : Canvas}
    {filling keeping : Except Failure Outcome}
    (hkeeping : keeping.map Outcome.canvas = filling.map (·.canvas.restore initial))
    (hfilling : ∀ filled, filling = .ok filled → Raster.Composed isHole initial.image
      filled.canvas.image (filled.canvas.restore initial).image) :
    Composes isHole initial.image filling keeping where
  of_ok := by
    intro filled hfilled
    obtain ⟨kept, hkept, hcanvas⟩ := exists_ok_of_map_eq hkeeping hfilled
    exact ⟨kept, hkept, hcanvas ▸ hfilling filled hfilled⟩
  of_error := fun _ hfailure => eq_error_of_map_eq hkeeping hfailure

/-- What a run ends with, composed with the image that it started from. -/
theorem composed_of_run {start : σ} {initial : Canvas} (hinitial : initial.Within initial)
    {outcome : Outcome} (h : run scaler settings start initial = .ok outcome) :
    Raster.Composed (initial.isHole · = true) initial.image outcome.canvas.image
      (outcome.canvas.restore initial).image :=
  Canvas.composed_restore (sameShape_of_run hinitial h) fun hopen =>
    congrArg Canvas.image (canvas_run_of_open hinitial.consistent hopen h)

/-- **Keeping the known pixels is a composition**, and nothing else.  With and without it, the same
image under the same mask is filled from the same draws to rasters that are equal wherever the mask
is above the threshold; elsewhere the one that keeps them has the pixels of the image.  Where the
mask is nowhere above the threshold, both are the image.  A canvas is filled likewise, its holes
being the cells whose mask sample is not zero, and gets its own mask back. -/
theorem fill?_keepsKnown (scaler : Scaler) (settings : Settings) (start : σ) :
    (∀ image mask : Raster,
      Composes (fun p => settings.threshold < mask.sample p 0) image
        (fill? scaler { settings with keepsKnown := false } start image mask)
        (fill? scaler { settings with keepsKnown := true } start image mask) ∧
      (settings.Feasible image mask → ∃ filled,
        fill? scaler { settings with keepsKnown := false } start image mask = .ok filled)) ∧
    ∀ initial : Canvas, initial.Consistent →
      Composes (fun p => initial.mask.sample p 0 ≠ 0) initial.image
        (fillCanvas? scaler { settings with keepsKnown := false } start initial)
        (fillCanvas? scaler { settings with keepsKnown := true } start initial) ∧
      (settings.Feasible initial.image initial.mask → ∃ filled,
        fillCanvas? scaler { settings with keepsKnown := false } start initial = .ok filled) ∧
      ∀ keeps outcome,
        fillCanvas? scaler { settings with keepsKnown := keeps } start initial = .ok outcome →
        outcome.canvas.mask = initial.mask := by
  refine ⟨fun image mask => ⟨?_, ?_⟩, fun initial hconsistent => ⟨?_, ?_, ?_⟩⟩
  · refine composes_of_restore (fill?_restore scaler settings start image mask) ?_
    intro filled hfilled
    obtain ⟨haccepted, hrun⟩ := run_of_fill? hfilled
    let initial := Canvas.ofParts image (mask.threshold settings.threshold)
    have hinitial : initial.Within initial :=
      haccepted.within (.refl image) (mask.sameShape_threshold _) rfl
    have hholes : (initial.isHole · = true) = fun p => settings.threshold < mask.sample p 0 :=
      funext fun p => hinitial.consistent.isHole_threshold p
    exact hholes ▸ composed_of_run hinitial hrun
  · intro hfeasible
    obtain ⟨filled, hfilled, -⟩ := exists_fill? scaler start (hfeasible.keepsKnown false)
    exact ⟨filled, hfilled⟩
  · refine composes_of_restore (fillCanvas?_restore scaler settings start hconsistent) ?_
    intro filled hfilled
    obtain ⟨haccepted, reached, hrun, hcanvas⟩ := run_of_fillCanvas? hfilled
    have hinitial : initial.Within initial :=
      haccepted.within (.refl _) (.refl _) hconsistent.holes_eq
    have hholes : (initial.isHole · = true) = fun p => initial.mask.sample p 0 ≠ 0 :=
      funext fun p => hconsistent.isHole_eq p
    rw [hcanvas]
    exact hholes ▸ composed_of_run hinitial hrun
  · intro hfeasible
    obtain ⟨filled, hfilled, -⟩ :=
      exists_fillCanvas? scaler start hconsistent (hfeasible.keepsKnown false)
    exact ⟨filled, hfilled⟩
  · intro keeps outcome hfill
    obtain ⟨-, filled, -, hcanvas⟩ := run_of_fillCanvas? hfill
    rw [hcanvas]
    rfl

/-- A black image with one hole, with and without its known pixels kept, in both ways. -/
theorem fill?_keepsKnown_dot :
    (∃ filled kept,
      fill? .triangle { radius := 1, keepsKnown := false } (Keystream.ofSeed 7) darkImage dotMask =
        .ok filled ∧
      fill? .triangle { radius := 1, keepsKnown := true } (Keystream.ofSeed 7) darkImage dotMask =
        .ok kept ∧
      Raster.Composed (fun p => 127 < dotMask.sample p 0) darkImage filled.canvas.image
        kept.canvas.image) ∧
    ∃ filled kept,
      fillCanvas? .triangle { radius := 1, keepsKnown := false } (Keystream.ofSeed 7)
        (.ofParts darkImage dotMask) = .ok filled ∧
      fillCanvas? .triangle { radius := 1, keepsKnown := true } (Keystream.ofSeed 7)
        (.ofParts darkImage dotMask) = .ok kept ∧
      Raster.Composed (fun p => dotMask.sample p 0 ≠ 0) darkImage filled.canvas.image
        kept.canvas.image ∧ kept.canvas.mask = dotMask := by
  obtain ⟨himages, hcanvases⟩ := fill?_keepsKnown .triangle { radius := 1 } (Keystream.ofSeed 7)
  constructor
  · obtain ⟨hcomposes, hexists⟩ := himages darkImage dotMask
    obtain ⟨filled, hfilled⟩ := hexists feasible_dot
    obtain ⟨kept, hkept, hcomposed⟩ := hcomposes.of_ok filled hfilled
    exact ⟨filled, kept, hfilled, hkept, hcomposed⟩
  · obtain ⟨hcomposes, hexists, hmask⟩ :=
      hcanvases (.ofParts darkImage dotMask) (Canvas.consistent_ofParts rfl rfl rfl)
    obtain ⟨filled, hfilled⟩ := hexists feasible_dot
    obtain ⟨kept, hkept, hcomposed⟩ := hcomposes.of_ok filled hfilled
    exact ⟨filled, kept, hfilled, hkept, hcomposed, hmask true kept hkept⟩

end Filling

end Retouch
