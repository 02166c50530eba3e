import Retouch.Proofs.Filling.Loaded

/-!
# Retouch — Filling — The plan is followed

What an observer sees of a filling is planned beforehand (`Filling.plan`), for images and masks as
they are loaded too (`Resizing.fillLoaded?_followsPlan`).  Whether there is anything to do is the
one thing that what is behind the last pixel of a mask has a say in: there may be a sample in a
complete row there that would be a hole (`Loaded.spareRows`).  Then levels and repaints are shown
of an image that has none.
-/

namespace Retouch

/-! ### Complete rows -/

namespace Loaded

variable {l : Loaded}

/-- What is behind the last pixel in complete rows. -/
def spareRows (l : Loaded) : Array UInt8 :=
  l.wholeRows.extract l.raster.samples.size l.wholeSize

/-- Complete rows are those of the raster and those behind its last pixel. -/
theorem wholeRows_eq_append (l : Loaded) : l.wholeRows = l.raster.samples ++ l.spareRows := by
  have hle := l.size_raster_le
  have hfirst : l.wholeRows.extract 0 l.raster.samples.size = l.raster.samples := by
    have hwhole : l.raster.samples.size ≤ l.wholeRows.size := l.size_wholeRows ▸ hle
    refine Array.ext ?_ fun i _ hi => ?_
    · rw [Array.size_extract, Nat.min_eq_left hwhole, Nat.sub_zero]
    have hsample := l.getD_wholeRows hi
    rw [Array.getElem_extract]
    simpa [Array.getD, hi, Nat.lt_of_lt_of_le hi hwhole] using hsample
  have hall : l.wholeRows.extract 0 l.wholeSize = l.wholeRows := by
    rw [← l.size_wholeRows, Array.extract_size]
  rw [← hfirst, spareRows, Array.extract_append_extract, Nat.zero_min, Nat.max_eq_right hle, hall]

theorem spareRows_eq (h : l.spare = #[]) : l.spareRows = #[] := by
  have hsize : l.wholeRows.size = l.raster.samples.size := by
    rw [wholeRows_eq h, samples_eq_of_spare_eq h]
  rw [← Array.size_eq_zero_iff]
  have happend := congrArg Array.size l.wholeRows_eq_append
  rw [Array.size_append] at happend
  omega

end Loaded

namespace Raster

/-- The samples of a raster with one channel are those of its cells. -/
theorem forall_mem_samples_iff {r : Raster} (hdepth : r.depth = 1) {P : UInt8 → Prop} :
    (∀ v ∈ r.samples, P v) ↔ ∀ p < r.area, P (r.sample p 0) := by
  have hsize : r.samples.size = r.area := by rw [r.size_samples, hdepth, Nat.mul_one]
  have hsample {p : Nat} (hp : p < r.samples.size) : r.sample p 0 = r.samples[p] := by
    simp [sample, hdepth, Array.getD, hp]
  constructor
  · intro h p hp
    rw [hsample (hsize ▸ hp)]
    exact h _ (Array.getElem_mem _)
  · intro h v hv
    obtain ⟨p, hp, rfl⟩ := Array.getElem_of_mem hv
    rw [← hsample hp]
    exact h p (hsize ▸ hp)

end Raster

/-! ### What an observer sees -/

namespace Resizing

open Filling

variable {σ : Type} [WordSource σ] (scaler : PackedScaler) {settings : Settings} (start : σ)

/-- What an observer of `filling` sees, for a canvas whose mask is made of `mask`, of which the
samples with `hole` mark what is to be filled. -/
structure FollowsPlan (settings : Settings) (initial : LoadedCanvas) (mask : Loaded)
    (hole : UInt8 → Prop) (filling : Except Failure LoadedOutcome) : Prop where
  /-- There is nothing to do exactly where no pixel is a hole, and neither is anything behind the
  last one. -/
  coarsest_eq_zero_iff : (Pyramid.build initial.canvas settings.radius).coarsest = 0 ↔
    (∀ p < mask.raster.area, ¬ hole (mask.raster.sample p 0)) ∧ ∀ v ∈ mask.spareRows, ¬ hole v
  /-- So the pixels alone decide this where one of them is a hole, or nothing behind them is. -/
  pixels_decide_iff :
    ((Pyramid.build initial.canvas settings.radius).coarsest = 0 ↔
      ∀ p < mask.raster.area, ¬ hole (mask.raster.sample p 0)) ↔
    (∃ p < mask.raster.area, hole (mask.raster.sample p 0)) ∨ ∀ v ∈ mask.spareRows, ¬ hole v
  scheduled : OkUnless (.fault .overflow) filling fun outcome =>
    Scheduled settings initial.canvas outcome.events outcome.phases ∧
    (∀ e ∈ outcome.events, e.Cleared) ∧
    ((Pyramid.build initial.canvas settings.radius).coarsest = 0 → outcome.canvas = initial)
  filled : settings.Feasible initial.image.raster mask.raster → ∃ outcome, filling = .ok outcome

/-- When there is nothing to do says when the pixels decide this. -/
theorem FollowsPlan.of_coarsest {initial : LoadedCanvas} {mask : Loaded} {hole : UInt8 → Prop}
    {filling : Except Failure LoadedOutcome}
    (hopen : (Pyramid.build initial.canvas settings.radius).coarsest = 0 ↔
      (∀ p < mask.raster.area, ¬ hole (mask.raster.sample p 0)) ∧ ∀ v ∈ mask.spareRows, ¬ hole v)
    (hscheduled : OkUnless (.fault .overflow) filling fun outcome =>
      Scheduled settings initial.canvas outcome.events outcome.phases ∧
      (∀ e ∈ outcome.events, e.Cleared) ∧
      ((Pyramid.build initial.canvas settings.radius).coarsest = 0 → outcome.canvas = initial))
    (hfilled : settings.Feasible initial.image.raster mask.raster →
      ∃ outcome, filling = .ok outcome) : FollowsPlan settings initial mask hole filling where
  coarsest_eq_zero_iff := hopen
  pixels_decide_iff := by
    rw [hopen, and_iff_left_iff_imp, imp_iff_not_or]
    simp
  scheduled := hscheduled
  filled := hfilled

/-- Of a mask that ends with its last pixel, the pixels always decide. -/
theorem FollowsPlan.coarsest_eq_zero_iff_of_spare_eq {initial : LoadedCanvas} {mask : Loaded}
    {hole : UInt8 → Prop} {filling : Except Failure LoadedOutcome}
    (h : FollowsPlan settings initial mask hole filling) (hspare : mask.spare = #[]) :
    (Pyramid.build initial.canvas settings.radius).coarsest = 0 ↔
      ∀ p < mask.raster.area, ¬ hole (mask.raster.sample p 0) := by
  refine h.pixels_decide_iff.mpr (.inr fun v hv => ?_)
  rw [Loaded.spareRows_eq hspare] at hv
  exact absurd hv (Array.not_mem_empty v)

/-- The complete rows of a mask are its pixels and what is behind the last of them. -/
theorem forall_mem_wholeRows_iff {mask : Loaded} (hdepth : mask.depth = 1) {P : UInt8 → Prop} :
    (∀ v ∈ mask.wholeRows, P v) ↔
      (∀ p < mask.raster.area, P (mask.raster.sample p 0)) ∧ ∀ v ∈ mask.spareRows, P v := by
  rw [mask.wholeRows_eq_append, Array.forall_mem_append, Raster.forall_mem_samples_iff hdepth]

/-- A canvas as it is kept runs as planned, unless a number on the way does not fit its word. -/
theorem okUnless_runLoaded {initial : LoadedCanvas} (hcopied : initial.Copied)
    (haccepted : settings.Accepted initial.image.raster initial.mask.raster)
    (hdepth : 0 < initial.depth) (hwidth : initial.width < Word.span32)
    (hheight : initial.height < Word.span32) (hscaler : scaler.planes.KeepsBlack) :
    OkUnless .overflow ((packed scaler).runLoaded settings start initial) fun outcome =>
      Kept settings initial outcome ∧
      Scheduled settings initial.canvas outcome.events outcome.phases ∧
      ∀ e ∈ outcome.events, e.Cleared := by
  have hcount : initial.canvas.trimmed.Countable := ⟨hwidth, hheight⟩
  have hrun := okUnless_run settings start (staysWithin_packed scaler _)
    (onlyOverflows_packed hcount scaler) (hcopied.fillable haccepted) hdepth haccepted.repaints_pos
  have hkept : ∀ outcome, (packed scaler).runLoaded settings start initial = .ok outcome →
      Kept settings initial outcome :=
    fun _ houtcome => kept_of_runLoaded (fun ho => (hrun.1 _ ho).1) houtcome
  have hseen : OkUnless .overflow ((packed scaler).runLoaded settings start initial) fun outcome =>
      Scheduled settings initial.canvas outcome.events outcome.phases ∧
      ∀ e ∈ outcome.events, e.Cleared := by
    refine hrun.bind fun o ho => ?_
    have hcleared := ho.2.2 (staysOpen_packed hcount hscaler)
    split <;> exact .ok ⟨ho.2.1, hcleared⟩
  exact ⟨fun outcome houtcome => ⟨hkept outcome houtcome, hseen.1 outcome houtcome⟩, hseen.2⟩

theorem followsPlan_fillLoaded? (hscaler : scaler.planes.KeepsBlack) (image mask : Loaded)
    (hcheck : settings.check image.raster mask.raster = .ok ()) (hdepth : 0 < image.depth)
    (hwidth : image.width < Word.span32) (hheight : image.height < Word.span32) :
    FollowsPlan settings (.recached image (mask.threshold settings.threshold)) mask
      (settings.threshold < ·) ((packed scaler).fillLoaded? settings start image mask) := by
  have haccepted := Settings.check_eq_ok_iff.mp hcheck
  have hcut : settings.Accepted image.raster (mask.threshold settings.threshold).raster :=
    haccepted.threshold settings.threshold
  have hcopied := LoadedCanvas.copied_of_accepted hcut
  have hopen := LoadedCanvas.coarsest_threshold_eq_zero_iff haccepted
  rw [forall_mem_wholeRows_iff haccepted.mask_depth] at hopen
  refine .of_coarsest hopen ?_ ?_
  · rw [fillLoaded?_of_accepted haccepted, Canvas.checkRows]
    refine (Failure.okUnless_ofFault (Fault.okUnless _ _)).bind fun _ _ => ?_
    refine Failure.okUnless_ofFault ?_
    exact (okUnless_runLoaded scaler start hcopied hcut hdepth hwidth hheight hscaler).mono
      fun _ h => ⟨h.2.1, h.2.2, h.1.canvas_eq⟩
  · intro hfeasible
    obtain ⟨outcome, hfill, -⟩ :=
      exists_fillLoaded? scaler start image mask hfeasible hwidth hheight
    exact ⟨outcome, hfill⟩

theorem followsPlan_fillLoadedCanvas? (hscaler : scaler.planes.KeepsBlack)
    {initial : LoadedCanvas} (hcopied : initial.Copied)
    (hcheck : settings.check initial.image.raster initial.mask.raster = .ok ())
    (hdepth : 0 < initial.depth) (hwidth : initial.width < Word.span32)
    (hheight : initial.height < Word.span32) :
    FollowsPlan settings initial initial.mask (· ≠ 0)
      ((packed scaler).fillLoadedCanvas? settings start initial) := by
  have haccepted := Settings.check_eq_ok_iff.mp hcheck
  have hopen := hcopied.coarsest_eq_zero_iff haccepted
  rw [forall_mem_wholeRows_iff haccepted.mask_depth] at hopen
  simp only [← not_ne_iff (b := (0 : UInt8))] at hopen
  refine .of_coarsest hopen ?_ ?_
  · rw [fillLoadedCanvas?_of_accepted haccepted]
    have hrun := okUnless_runLoaded scaler start hcopied haccepted hdepth hwidth hheight hscaler
    refine (Failure.okUnless_ofFault hrun).bind fun filled hfilled => ?_
    obtain ⟨hkept, hscheduled, hcleared⟩ := hfilled
    rw [LoadedCanvas.pair?_of_accepted haccepted hkept.shape (.refl _), Canvas.checkRows,
      bind_assoc]
    refine (Failure.okUnless_ofFault (Fault.okUnless _ _)).bind fun _ _ => ?_
    refine .ok ⟨hscheduled, hcleared, fun hzero => ?_⟩
    -- The mask that the canvas gets back is its own.
    show LoadedCanvas.recached filled.canvas.image initial.mask = initial
    rw [hkept.canvas_eq hzero, hcopied.eq_recached]
  · intro hfeasible
    obtain ⟨outcome, hfill, -⟩ :=
      exists_fillLoadedCanvas? scaler start hcopied hfeasible hwidth hheight
    exact ⟨outcome, hfill⟩

/-- **Every run follows the plan.**  Let an image with at least one channel and a mask be accepted.
Unless a number on the way does not fit its word, and never where words have room, the filling
ends, and what is seen of it is the plan: nothing but the image exactly when it has no hole and
nothing behind its last pixel is one, and otherwise all levels, each half as large as the one
before, and then the repaints from the coarsest level on, the last one of each level at the size of
the next finer one.  No target that is shown has a hole, and the phases are the building of the
pyramid and the levels in the order in which they are worked.  A canvas is filled likewise. -/
theorem fillLoaded?_followsPlan (hscaler : scaler.planes.KeepsBlack) :
    (∀ image mask : Loaded, settings.check image.raster mask.raster = .ok () → 0 < image.depth →
      image.width < Word.span32 → image.height < Word.span32 →
      FollowsPlan settings (.recached image (mask.threshold settings.threshold)) mask
        (settings.threshold < ·) ((packed scaler).fillLoaded? settings start image mask)) ∧
    ∀ initial : LoadedCanvas, initial.Copied →
      settings.check initial.image.raster initial.mask.raster = .ok () → 0 < initial.depth →
      initial.width < Word.span32 → initial.height < Word.span32 →
      FollowsPlan settings initial initial.mask (· ≠ 0)
        ((packed scaler).fillLoadedCanvas? settings start initial) :=
  ⟨followsPlan_fillLoaded? scaler start hscaler,
    fun _ hcopied hcheck => followsPlan_fillLoadedCanvas? scaler start hscaler hcopied hcheck⟩

theorem keepsBlack_planes_triangle : PackedScaler.triangle.planes.KeepsBlack :=
  PackedScaler.planes_triangle ▸ Scaler.keepsBlack_triangle

/-- What is seen while one hole in a black image of four by four pixels is filled.  It lasts for two
halvings. -/
theorem fillLoaded?_followsPlan_dot :
    PackedScaler.triangle.planes.KeepsBlack ∧ ∃ outcome,
      (packed .triangle).fillLoaded? { radius := 1 } (Keystream.ofSeed 7) (.ofRaster darkImage)
        (.ofRaster dotMask) = .ok outcome ∧
      outcome.events.map Event.sight =
        [.level 0 4 4, .level 1 2 2, .level 2 1 1, .repaint 2 1 1 1, .repaint 2 2 1 1,
          .repaint 2 3 1 1, .repaint 2 4 2 2, .repaint 1 1 2 2, .repaint 1 2 4 4] ∧
      outcome.phases.map Phase.name = ["build_pyramid", "level_2", "level_1"] ∧
      ∀ e ∈ outcome.events, e.Cleared := by
  have hsmall : (4 : Nat) < Word.span32 := by decide
  obtain ⟨himages, -⟩ := @fillLoaded?_followsPlan Keystream _ .triangle { radius := 1 }
    (Keystream.ofSeed 7) keepsBlack_planes_triangle
  have hplan := himages (.ofRaster darkImage) (.ofRaster dotMask) rfl (by decide) hsmall hsmall
  obtain ⟨outcome, hfill⟩ := hplan.filled feasible_dot
  obtain ⟨hscheduled, hcleared, -⟩ := hplan.scheduled.1 outcome hfill
  have hcoarsest : (Pyramid.build (LoadedCanvas.recached (.ofRaster darkImage)
      ((Loaded.ofRaster dotMask).threshold 127)).canvas 1).coarsest = 2 :=
    Pyramid.coarsest_eq (by decide +kernel) (by decide +kernel)
  refine ⟨keepsBlack_planes_triangle, outcome, hfill, ?_, ?_, hcleared⟩
  · rw [hscheduled.sights_eq, hcoarsest]
    decide +kernel
  · rw [hscheduled.phases_eq, hcoarsest]
    decide +kernel

/-- A mask of sixteen pixels, none of which is a hole, and of four more samples that would be
holes.  The image is halved and repainted all the same. -/
theorem fillLoaded?_behind :
    (darkPicture #[255, 255, 255, 255]).load? = .ok ⟨darkImage, #[255, 255, 255, 255]⟩ ∧
    (∀ p < darkImage.area, ¬ 127 < darkImage.sample p 0) ∧ ∃ outcome,
      (packed .triangle).fillLoaded? { radius := 1 } (Keystream.ofSeed 7) (.ofRaster darkImage)
        ⟨darkImage, #[255, 255, 255, 255]⟩ = .ok outcome ∧
      outcome.events.map Event.sight =
        [.level 0 4 4, .level 1 2 2, .repaint 1 1 2 2, .repaint 1 2 4 4] ∧
      outcome.phases.map Phase.name = ["build_pyramid", "level_1"] := by
  have hsmall : (4 : Nat) < Word.span32 := by decide
  have hplan := @followsPlan_fillLoaded? Keystream _ .triangle { radius := 1 } (Keystream.ofSeed 7)
    keepsBlack_planes_triangle (.ofRaster darkImage) ⟨darkImage, #[255, 255, 255, 255]⟩ rfl
    (by decide) hsmall hsmall
  obtain ⟨outcome, hfill⟩ := hplan.filled ⟨rfl, feasible_dot.depth_pos, feasible_dot.depth_le,
    feasible_dot.distances, feasible_dot.stored⟩
  obtain ⟨hscheduled, -⟩ := hplan.scheduled.1 outcome hfill
  have hcoarsest : (Pyramid.build (LoadedCanvas.recached (.ofRaster darkImage)
      (Loaded.threshold 127 ⟨darkImage, #[255, 255, 255, 255]⟩)).canvas 1).coarsest = 1 :=
    Pyramid.coarsest_eq (by decide +kernel) (by decide +kernel)
  refine ⟨rfl, by decide, outcome, hfill, ?_, ?_⟩
  · rw [hscheduled.sights_eq, hcoarsest]
    decide +kernel
  · rw [hscheduled.phases_eq, hcoarsest]
    decide +kernel

end Resizing

end Retouch
