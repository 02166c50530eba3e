import Retouch.Filling.Loaded
import Retouch.Proofs.Canvas.Restored
import Retouch.Proofs.Filling.Packed

/-!
# Retouch — Filling — What is behind the last pixel

Images and masks are accepted whatever they have behind their last pixels, and canvases as they are
kept can be filled: inside, their flags are those of their masks (`LoadedCanvas.Copied.fillable`).
So what is accepted is filled, with a result of the shape of the image
(`Resizing.fillLoaded?_total`).  The number of samples is another matter.  A canvas that is not
halved comes back with all of them; once it is halved, the outcome has new rasters, which end with
the last pixel (`Resizing.Kept`).

With nothing behind the last pixels, filling is what the rest of the library is about
(`Resizing.fillLoaded?_ofRaster`, `Resizing.fillLoadedCanvas?_loaded`), also when pixels are scaled
as they are packed (`Resizing.fillLoaded?_packed`).
-/

namespace Retouch

/-! ### Whole rows and their flags -/

namespace LoadedCanvas

variable {c : LoadedCanvas}

/-- No hole is counted exactly when all complete rows of the mask are black. -/
theorem Copied.countHoles_eq_zero_iff (h : c.Copied) :
    c.canvas.countHoles = 0 ↔ ∀ v ∈ c.mask.wholeRows, v = 0 := by
  show c.holes.count true = 0 ↔ _
  rw [Array.count_eq_zero, h.holes_eq]
  simp

/-- Inside, the flags of a canvas are those of its mask. -/
theorem Copied.agreeInside (h : c.Copied) : c.canvas.AgreeInside c.canvas.trimmed where
  shape := .refl _
  isHole_eq p hp := by
    have hsample := Loaded.getD_wholeRows (h.size_mask ▸ hp : p < c.mask.raster.samples.size)
    have hflag (samples : Array UInt8) : (samples.map fun v => decide (v ≠ 0)).getD p false =
        decide (samples.getD p 0 ≠ 0) := by
      by_cases hlt : p < samples.size <;> simp [Array.getD, hlt]
    show c.holes.getD p false = (Canvas.holesOf c.mask.raster).getD p false
    rw [h.holes_eq, Canvas.holesOf, hflag, hflag, hsample]
  sample_eq _ _ _ _ _ := rfl

/-- A canvas whose rasters are accepted can be filled. -/
theorem Copied.fillable (h : c.Copied) {settings : Settings}
    (haccepted : settings.Accepted c.image.raster c.mask.raster) : c.canvas.Fillable :=
  ⟨h.agreeInside, haccepted.within_ofParts⟩

end LoadedCanvas

/-! ### Runs -/

namespace Resizing

open Filling

variable {σ : Type} [WordSource σ] {resize : Resizing} {settings : Settings} {start : σ}

/-- Words that have room for a canvas have room for the whole run, whatever flags there are behind
its last pixel. -/
theorem exists_run {initial : Canvas} (hwithin : resize.StaysWithin initial.trimmed)
    (hresize : resize.Succeeds initial.trimmed) (hroom : initial.trimmed.HasRoom settings.radius)
    (hinitial : initial.Fillable) :
    ∃ outcome, resize.run settings start initial = .ok outcome ∧
      outcome.canvas.image.SameShape initial.image := by
  cases hcoarsest : (Pyramid.build initial settings.radius).coarsest with
  | zero => exact ⟨_, run_of_coarsest_eq_zero hcoarsest, .refl _⟩
  | succ n =>
    have hothers : ∀ c ∈ ((List.range n).map fun k => initial.trimmed.halved (k + 1)).reverse,
        c.Within initial.trimmed := by
      intro c hc
      obtain ⟨k, -, rfl⟩ := List.mem_map.mp (List.mem_reverse.mp hc)
      exact hinitial.within.halved (k + 1)
    obtain ⟨outcome, hreconstruct, hshape⟩ := exists_reconstruct settings hwithin hresize hroom
      hinitial.within start (hinitial.within.halved (n + 1)) hothers
    rw [reverse_halvings] at hreconstruct
    obtain ⟨canvas, hfinish, hsame⟩ := @finish_sameShape initial _ hshape settings
    rw [run_of_coarsest_eq_succ hinitial.inside hcoarsest]
    exact ⟨_, bind_eq_ok_iff.mpr ⟨outcome, hreconstruct,
      bind_eq_ok_iff.mpr ⟨canvas, hfinish, rfl⟩⟩, hsame⟩

variable {initial : LoadedCanvas}

/-- A canvas that is not halved comes back as it is kept. -/
theorem runLoaded_of_coarsest_eq_zero
    (h : (Pyramid.build initial.canvas settings.radius).coarsest = 0) :
    resize.runLoaded settings start initial =
      .ok ⟨initial, levelEvents (.build initial.canvas settings.radius), [.pyramid]⟩ := by
  rw [runLoaded, run_of_coarsest_eq_zero h]
  exact if_pos h

/-- Otherwise the outcome ends with its last pixel. -/
theorem runLoaded_of_coarsest_ne_zero
    (h : (Pyramid.build initial.canvas settings.radius).coarsest ≠ 0) :
    resize.runLoaded settings start initial =
      (resize.run settings start initial.canvas).map Outcome.loaded := by
  rw [runLoaded]
  cases resize.run settings start initial.canvas with
  | error => rfl
  | ok outcome => exact if_neg h

/-- What a run of a canvas as it is kept ends with: rasters of the shape of the image, with as many
samples as the image if it ends with its last pixel or is not halved. -/
structure Kept (settings : Settings) (initial : LoadedCanvas) (outcome : LoadedOutcome) : Prop where
  shape : outcome.canvas.image.raster.SameShape initial.image.raster
  size_eq_iff : outcome.canvas.image.samples.size = initial.image.samples.size ↔
    initial.image.spare = #[] ∨ (Pyramid.build initial.canvas settings.radius).coarsest = 0
  canvas_eq : (Pyramid.build initial.canvas settings.radius).coarsest = 0 → outcome.canvas = initial

/-- However a run ends, this is what it ends with. -/
theorem kept_of_runLoaded {outcome : LoadedOutcome}
    (hshape : ∀ {o}, resize.run settings start initial.canvas = .ok o →
      o.canvas.image.SameShape initial.image.raster)
    (h : resize.runLoaded settings start initial = .ok outcome) :
    Kept settings initial outcome := by
  by_cases hzero : (Pyramid.build initial.canvas settings.radius).coarsest = 0
  · rw [runLoaded_of_coarsest_eq_zero hzero] at h
    cases h
    exact ⟨.refl _, iff_of_true rfl (.inr hzero), fun _ => rfl⟩
  · rw [runLoaded_of_coarsest_ne_zero hzero] at h
    cases hrun : resize.run settings start initial.canvas with
    | error => simp [hrun, Except.map] at h
    | ok o =>
      rw [hrun] at h
      cases h
      refine ⟨hshape hrun, ?_, fun h => absurd h hzero⟩
      have hsize : o.canvas.image.samples.size = initial.image.raster.samples.size :=
        (hshape hrun).size_samples_eq
      show (Loaded.ofRaster o.canvas.image).samples.size = _ ↔ _
      rw [Loaded.samples_ofRaster, hsize, initial.image.size_samples, ← Array.size_eq_zero_iff]
      omega

/-- Known pixels are put back one by one, which comes to what a run does in the end. -/
theorem restore?_loaded_eq_finish (hinitial : initial.Copied) {canvas : Canvas}
    (harea : canvas.area ≤ Word.span64) :
    (if settings.keepsKnown then canvas.loaded.restore? initial else .ok canvas.loaded) =
      (finish settings initial.canvas canvas).map Canvas.loaded := by
  unfold finish
  split
  · exact LoadedCanvas.restore?_loaded hinitial harea
  · rfl

end Resizing

/-! ### Accepted images -/

theorem Settings.Accepted.threshold {settings : Settings} {image mask : Raster}
    (h : settings.Accepted image mask) (limit : UInt8) :
    settings.Accepted image (mask.threshold limit) :=
  ⟨h.mask_depth, h.mask_width, h.mask_height, h.width_pos, h.height_pos, h.width_allowed,
    h.height_allowed, h.radius_pos, h.radius_lt, h.repaints_pos, h.passes_pos⟩

/-- A mask that was cut is black where no sample was above the limit. -/
theorem Loaded.forall_mem_wholeRows_threshold {l : Loaded} {limit : UInt8} :
    (∀ v ∈ (l.threshold limit).wholeRows, v = 0) ↔ ∀ v ∈ l.wholeRows, ¬ limit < v := by
  rw [threshold, wholeRows_map]
  simp

namespace LoadedCanvas

variable {settings : Settings}

/-- Images and masks of shapes that are accepted are paired, if their rows can be walked. -/
theorem pair?_of_accepted {image mask image' mask' : Loaded}
    (h : settings.Accepted image.raster mask.raster)
    (himage : image'.raster.SameShape image.raster) (hmask : mask'.raster.SameShape mask.raster) :
    pair? image' mask' = Failure.ofFault (Canvas.checkRows image.width image.depth) >>=
      fun _ => .ok (recached image' mask') := by
  have hcheck : Canvas.checkMask image'.raster mask'.raster = .ok () := by
    refine Canvas.checkMask_eq_ok_iff.mpr ⟨?_, ?_, ?_⟩
    · rw [hmask.depth_eq, h.mask_depth]
    · rw [himage.width_eq, hmask.width_eq, h.mask_width]
    · rw [himage.height_eq, hmask.height_eq, h.mask_height]
  have hwidth : image'.width = image.width := himage.width_eq
  have hdepth : image'.depth = image.depth := himage.depth_eq
  rw [pair?, hcheck, hwidth, hdepth]
  rfl

theorem copied_of_accepted {image mask : Loaded}
    (h : settings.Accepted image.raster mask.raster) : (recached image mask).Copied :=
  copied_recached h.mask_width h.mask_height h.mask_depth

/-- A canvas with copies is its rasters with copies. -/
theorem Copied.eq_recached {c : LoadedCanvas} (h : c.Copied) : recached c.image c.mask = c := by
  have hrecached := copied_recached h.width_eq h.height_eq h.depth_mask
  rw [mk.injEq]
  exact ⟨rfl, rfl, hrecached.pixels_eq.trans h.pixels_eq.symm,
    hrecached.holes_eq.trans h.holes_eq.symm⟩

/-- An accepted canvas is halved at least once exactly when some complete row of its mask is not
black. -/
theorem Copied.coarsest_eq_zero_iff {c : LoadedCanvas} (h : c.Copied)
    (haccepted : settings.Accepted c.image.raster c.mask.raster) :
    (Pyramid.build c.canvas settings.radius).coarsest = 0 ↔ ∀ v ∈ c.mask.wholeRows, v = 0 := by
  rw [← h.countHoles_eq_zero_iff]
  exact Filling.coarsest_eq_zero_iff_countHoles settings haccepted

/-- With a mask that was cut, exactly when some sample there was above the limit. -/
theorem coarsest_threshold_eq_zero_iff {image mask : Loaded}
    (h : settings.Accepted image.raster mask.raster) :
    (Pyramid.build (recached image (mask.threshold settings.threshold)).canvas
      settings.radius).coarsest = 0 ↔ ∀ v ∈ mask.wholeRows, ¬ settings.threshold < v := by
  have hcut : settings.Accepted image.raster (mask.threshold settings.threshold).raster :=
    h.threshold settings.threshold
  exact ((copied_of_accepted hcut).coarsest_eq_zero_iff hcut).trans
    Loaded.forall_mem_wholeRows_threshold

end LoadedCanvas

namespace Resizing

open Filling

variable {σ : Type} [WordSource σ] {resize : Resizing} (scaler : PackedScaler) {settings : Settings}
  {start : σ}

/-- On what is accepted, filling is a run. -/
theorem fillLoaded?_of_accepted {image mask : Loaded}
    (h : settings.Accepted image.raster mask.raster) :
    resize.fillLoaded? settings start image mask =
      Failure.ofFault (Canvas.checkRows image.width image.depth) >>= fun _ => Failure.ofFault
        (resize.runLoaded settings start
          (.recached image (mask.threshold settings.threshold))) := by
  have hmask : (mask.threshold settings.threshold).raster.SameShape mask.raster :=
    mask.raster.sameShape_threshold _
  rw [fillLoaded?, Settings.check_eq_ok_iff.mpr h, LoadedCanvas.pair?_of_accepted h (.refl _) hmask]
  cases Canvas.checkRows image.width image.depth <;> rfl

theorem fillLoadedCanvas?_of_accepted {initial : LoadedCanvas}
    (h : settings.Accepted initial.image.raster initial.mask.raster) :
    resize.fillLoadedCanvas? settings start initial = do
      let outcome ← Failure.ofFault (resize.runLoaded settings start initial)
      let canvas ← LoadedCanvas.pair? outcome.canvas.image initial.mask
      return { outcome with canvas } := by
  rw [fillLoadedCanvas?, Settings.check_eq_ok_iff.mpr h]
  rfl

variable (start)

/-- A canvas as it is kept is filled when words have room for its image. -/
theorem exists_runLoaded {initial : LoadedCanvas} {mask : Raster} (hcopied : initial.Copied)
    (haccepted : settings.Accepted initial.image.raster initial.mask.raster)
    (h : settings.Feasible initial.image.raster mask) (hwidth : initial.width < Word.span32)
    (hheight : initial.height < Word.span32) :
    ∃ outcome, (packed scaler).runLoaded settings start initial = .ok outcome ∧
      Kept settings initial outcome := by
  have hfeasible : settings.Feasible initial.canvas.trimmed.image mask := h
  have hroom : initial.canvas.trimmed.HasRoom settings.radius := hfeasible.hasRoom
  have hfillable := hcopied.fillable haccepted
  obtain ⟨o, hrun, hshape⟩ : ∃ o, (packed scaler).run settings start initial.canvas = .ok o ∧
      o.canvas.image.SameShape initial.image.raster :=
    exists_run (staysWithin_packed scaler _) (succeeds_packed hroom ⟨hwidth, hheight⟩ scaler) hroom
      hfillable
  have hresult : ∃ outcome, (packed scaler).runLoaded settings start initial = .ok outcome := by
    by_cases hzero : (Pyramid.build initial.canvas settings.radius).coarsest = 0
    · exact ⟨_, runLoaded_of_coarsest_eq_zero hzero⟩
    · rw [runLoaded_of_coarsest_ne_zero hzero, hrun]
      exact ⟨_, rfl⟩
  obtain ⟨outcome, houtcome⟩ := hresult
  refine ⟨outcome, houtcome, kept_of_runLoaded (fun {o'} ho' => ?_) houtcome⟩
  obtain rfl : o = o' := Except.ok.inj (hrun.symm.trans ho')
  exact hshape

/-- What is accepted can be paired, once it is stored. -/
theorem pair?_of_feasible {image mask image' mask' : Loaded}
    (h : settings.Feasible image.raster mask.raster)
    (himage : image'.raster.SameShape image.raster) (hmask : mask'.raster.SameShape mask.raster) :
    LoadedCanvas.pair? image' mask' = .ok (.recached image' mask') := by
  have haccepted := Settings.check_eq_ok_iff.mp h.accepted
  have hrows : Canvas.checkRows image.width image.depth = .ok () :=
    haccepted.checkRows_eq_ok h.stored
  rw [LoadedCanvas.pair?_of_accepted haccepted himage hmask, hrows]
  rfl

theorem exists_fillLoaded? (image mask : Loaded)
    (h : settings.Feasible image.raster mask.raster) (hwidth : image.width < Word.span32)
    (hheight : image.height < Word.span32) :
    ∃ outcome, (packed scaler).fillLoaded? settings start image mask = .ok outcome ∧
      Kept settings (.recached image (mask.threshold settings.threshold)) outcome := by
  have haccepted := Settings.check_eq_ok_iff.mp h.accepted
  have hcut : settings.Accepted image.raster (mask.threshold settings.threshold).raster :=
    haccepted.threshold settings.threshold
  have hcopied := LoadedCanvas.copied_of_accepted hcut
  obtain ⟨outcome, hrun, hkept⟩ := exists_runLoaded scaler start hcopied hcut h hwidth hheight
  have hrows : Canvas.checkRows image.width image.depth = .ok () :=
    haccepted.checkRows_eq_ok h.stored
  refine ⟨outcome, ?_, hkept⟩
  rw [fillLoaded?_of_accepted haccepted, hrows, hrun]
  rfl

theorem exists_fillLoadedCanvas? {initial : LoadedCanvas} (hcopied : initial.Copied)
    (h : settings.Feasible initial.image.raster initial.mask.raster)
    (hwidth : initial.width < Word.span32) (hheight : initial.height < Word.span32) :
    ∃ outcome, (packed scaler).fillLoadedCanvas? settings start initial = .ok outcome ∧
      Kept settings initial outcome := by
  have haccepted := Settings.check_eq_ok_iff.mp h.accepted
  obtain ⟨outcome, hrun, hkept⟩ := exists_runLoaded scaler start hcopied haccepted h hwidth hheight
  -- The canvas gets its own mask back, and nothing else changes.
  refine ⟨⟨.recached outcome.canvas.image initial.mask, outcome.events, outcome.phases⟩, ?_,
    hkept.shape, hkept.size_eq_iff, fun hzero => ?_⟩
  · rw [fillLoadedCanvas?_of_accepted haccepted, hrun]
    exact bind_eq_ok_iff.mpr ⟨outcome, rfl,
      bind_eq_ok_iff.mpr ⟨_, pair?_of_feasible h hkept.shape (.refl _), rfl⟩⟩
  · show LoadedCanvas.recached outcome.canvas.image initial.mask = initial
    rw [hkept.canvas_eq hzero, hcopied.eq_recached]

/-- **What is accepted is filled.**  Within the sizes that words have room for, an accepted image
and mask can be paired, before and after the threshold, and both ways of filling end with a result,
whatever the scaler does and whatever is drawn.  The result has the sides and the channels of the
image.  It has as many samples as the image, unless the image goes on behind its last pixel and some
complete row of the mask has a hole. -/
theorem fillLoaded?_total (image mask : Loaded) (h : settings.Feasible image.raster mask.raster)
    (hwidth : image.width < Word.span32) (hheight : image.height < Word.span32) :
    (∀ image' mask' : Loaded, image'.raster.SameShape image.raster →
      mask'.raster.SameShape mask.raster → ∃ canvas, LoadedCanvas.pair? image' mask' = .ok canvas) ∧
    (∃ outcome, (packed scaler).fillLoaded? settings start image mask = .ok outcome ∧
      outcome.canvas.image.raster.SameShape image.raster ∧
      (outcome.canvas.image.samples.size = image.samples.size ↔
        image.spare = #[] ∨ ∀ v ∈ mask.wholeRows, ¬ settings.threshold < v)) ∧
    ∀ initial : LoadedCanvas, initial.Copied → initial.image = image → initial.mask = mask →
      ∃ outcome, (packed scaler).fillLoadedCanvas? settings start initial = .ok outcome ∧
        outcome.canvas.image.raster.SameShape image.raster ∧
        (outcome.canvas.image.samples.size = image.samples.size ↔
          image.spare = #[] ∨ ∀ v ∈ mask.wholeRows, v = 0) := by
  have haccepted := Settings.check_eq_ok_iff.mp h.accepted
  refine ⟨fun image' mask' himage hmask => ⟨_, pair?_of_feasible h himage hmask⟩, ?_, ?_⟩
  · obtain ⟨outcome, hfill, hkept⟩ :=
      exists_fillLoaded? scaler start image mask h hwidth hheight
    refine ⟨outcome, hfill, hkept.shape, hkept.size_eq_iff.trans (or_congr_right ?_)⟩
    exact LoadedCanvas.coarsest_threshold_eq_zero_iff haccepted
  · rintro initial hcopied rfl rfl
    obtain ⟨outcome, hfill, hkept⟩ := exists_fillLoadedCanvas? scaler start hcopied h hwidth hheight
    refine ⟨outcome, hfill, hkept.shape, hkept.size_eq_iff.trans (or_congr_right ?_)⟩
    exact hcopied.coarsest_eq_zero_iff haccepted

/-- A black picture of four by four pixels, with `spare` behind the last one. -/
def darkPicture (spare : Array UInt8) : Picture where
  width := 4
  height := 4
  model := .gray
  hasAlpha := false
  store := .bytes (.replicate 16 0 ++ spare)
  size_le := by
    show 16 ≤ (Array.replicate 16 (0 : UInt8) ++ spare).size
    simp

/-- One hole in a black image is filled, in both ways.  Four samples behind its last pixel are
lost. -/
theorem fillLoaded?_total_dot :
    Settings.Feasible { radius := 1 } darkImage dotMask ∧
    (∃ outcome, (packed .triangle).fillLoaded? { radius := 1 } (Keystream.ofSeed 7)
        (.ofRaster darkImage) (.ofRaster dotMask) = .ok outcome ∧
      outcome.canvas.image.raster.SameShape darkImage ∧ outcome.canvas.image.samples.size = 16) ∧
    ∃ outcome, (packed .triangle).fillLoadedCanvas? { radius := 1 } (Keystream.ofSeed 7)
        (.recached ⟨darkImage, #[1, 2, 3, 4]⟩ (.ofRaster dotMask)) = .ok outcome ∧
      outcome.canvas.image.raster.SameShape darkImage ∧
      outcome.canvas.image.samples.size ≠ 20 := by
  have hsmall : (4 : Nat) < Word.span32 := by decide
  obtain ⟨-, ⟨outcome, hfill, hshape, hsize⟩, -⟩ := fillLoaded?_total .triangle
    (Keystream.ofSeed 7) (.ofRaster darkImage) (.ofRaster dotMask) feasible_dot hsmall hsmall
  obtain ⟨-, -, hcanvases⟩ := fillLoaded?_total .triangle (Keystream.ofSeed 7)
    ⟨darkImage, #[1, 2, 3, 4]⟩ (.ofRaster dotMask) feasible_dot hsmall hsmall
  obtain ⟨outcome', hfill', hshape', hsize'⟩ := hcanvases
    (.recached ⟨darkImage, #[1, 2, 3, 4]⟩ (.ofRaster dotMask))
    (LoadedCanvas.copied_recached rfl rfl rfl) rfl rfl
  refine ⟨feasible_dot, ⟨outcome, hfill, hshape, hsize.mpr (.inl rfl)⟩, outcome', hfill', hshape',
    fun hkept => ?_⟩
  exact absurd (hsize'.mp hkept) (by decide +kernel)

/-- An image of sixteen pixels and twenty samples is accepted with a hole, and sixteen samples come
back. -/
theorem fillLoaded?_overlong :
    (darkPicture #[1, 2, 3, 4]).load? = .ok ⟨darkImage, #[1, 2, 3, 4]⟩ ∧
    Settings.Feasible { radius := 1 } darkImage dotMask ∧ ∃ outcome,
      (packed .triangle).fillLoaded? { radius := 1 } (Keystream.ofSeed 7)
        ⟨darkImage, #[1, 2, 3, 4]⟩ (.ofRaster dotMask) = .ok outcome ∧
      outcome.canvas.image.samples.size ≠ (⟨darkImage, #[1, 2, 3, 4]⟩ : Loaded).samples.size := by
  have hsmall : (4 : Nat) < Word.span32 := by decide
  obtain ⟨outcome, hfill, hkept⟩ := exists_fillLoaded? .triangle (Keystream.ofSeed 7)
    ⟨darkImage, #[1, 2, 3, 4]⟩ (.ofRaster dotMask) feasible_dot hsmall hsmall
  refine ⟨rfl, feasible_dot, outcome, hfill, fun hsame => ?_⟩
  have haccepted : Settings.Accepted { radius := 1 } (⟨darkImage, #[1, 2, 3, 4]⟩ : Loaded).raster
      (Loaded.ofRaster dotMask).raster := Settings.check_eq_ok_iff.mp feasible_dot.accepted
  have hsize := (hkept.size_eq_iff.mp hsame).imp_right
    (LoadedCanvas.coarsest_threshold_eq_zero_iff haccepted).mp
  exact absurd hsize (by decide +kernel)

end Resizing

/-! ### Nothing behind the last pixels -/

namespace LoadedCanvas

theorem recached_ofRaster (image mask : Raster) :
    recached (.ofRaster image) (.ofRaster mask) = (Canvas.ofParts image mask).loaded := by
  have hpixels : copyRows id (Loaded.ofRaster image).rows = image.samples := by
    rw [copyRows_rows, Array.map_id, Loaded.wholeRows_eq rfl, Loaded.samples_ofRaster]
  have hholes : copyRows (fun v => decide (v ≠ 0)) (Loaded.ofRaster mask).rows =
      Canvas.holesOf mask := by
    rw [copyRows_rows, Loaded.wholeRows_eq rfl, Loaded.samples_ofRaster, Canvas.holesOf]
  rw [mk.injEq]
  exact ⟨rfl, rfl, hpixels, hholes⟩

theorem pair?_ofRaster (image mask : Raster) :
    pair? (.ofRaster image) (.ofRaster mask) = (Canvas.pair? image mask).map Canvas.loaded := by
  have hcheck : Canvas.checkMask (Loaded.ofRaster image).raster (Loaded.ofRaster mask).raster =
      Canvas.checkMask image mask := rfl
  have hrows : Canvas.checkRows (Loaded.ofRaster image).width (Loaded.ofRaster image).depth =
      Canvas.checkRows image.width image.depth := rfl
  rw [pair?, Canvas.pair?, hcheck, hrows, recached_ofRaster]
  cases Canvas.checkMask image mask with
  | error => rfl
  | ok => cases Canvas.checkRows image.width image.depth <;> rfl

end LoadedCanvas

namespace Resizing

open Filling

variable {σ : Type} [WordSource σ] {resize : Resizing} {scaler : PackedScaler} (settings : Settings)
  (start : σ)

theorem runLoaded_loaded (c : Canvas) : resize.runLoaded settings start c.loaded =
    (resize.run settings start c).map Outcome.loaded := by
  by_cases hzero : (Pyramid.build c settings.radius).coarsest = 0
  · have hloaded : (Pyramid.build c.loaded.canvas settings.radius).coarsest = 0 := hzero
    rw [runLoaded_of_coarsest_eq_zero hloaded, run_of_coarsest_eq_zero hzero]
    rfl
  · exact runLoaded_of_coarsest_ne_zero hzero

/-- Filling an image that ends with its last pixel, plane by plane. -/
theorem fillLoaded?_ofRaster (scaler : Scaler) (image mask : Raster) :
    (planes scaler).fillLoaded? settings start (.ofRaster image) (.ofRaster mask) =
      (fill? scaler settings start image mask).map Outcome.loaded := by
  have hmask : (Loaded.ofRaster mask).threshold settings.threshold =
      .ofRaster (mask.threshold settings.threshold) := by
    rw [Loaded.threshold, Loaded.map, Loaded.ofRaster, Array.map_empty]
    rfl
  have hcheck : settings.check (Loaded.ofRaster image).raster (Loaded.ofRaster mask).raster =
      settings.check image mask := rfl
  rw [fillLoaded?, fill?, hcheck, hmask, LoadedCanvas.pair?_ofRaster]
  cases settings.check image mask with
  | error => rfl
  | ok =>
    cases Canvas.pair? image (mask.threshold settings.threshold) with
    | error => rfl
    | ok initial =>
      show Failure.ofFault (runLoaded _ settings start initial.loaded) = _
      rw [runLoaded_loaded, ← Failure.map_ofFault]
      rfl

/-- A canvas likewise. -/
theorem fillLoadedCanvas?_loaded (scaler : Scaler) (c : Canvas) :
    (planes scaler).fillLoadedCanvas? settings start c.loaded =
      (fillCanvas? scaler settings start c).map Outcome.loaded := by
  have hcheck : settings.check c.loaded.image.raster c.loaded.mask.raster =
      settings.check c.image c.mask := rfl
  rw [fillLoadedCanvas?, fillCanvas?, hcheck, runLoaded_loaded, Filling.run]
  cases settings.check c.image c.mask with
  | error => rfl
  | ok =>
    cases (planes scaler).run settings start c with
    | error => rfl
    | ok outcome =>
      show (LoadedCanvas.pair? (.ofRaster outcome.canvas.image) (.ofRaster c.mask) >>= _) =
        Except.map _ (Canvas.pair? outcome.canvas.image c.mask >>= _)
      rw [LoadedCanvas.pair?_ofRaster]
      cases Canvas.pair? outcome.canvas.image c.mask <;> rfl

/-- Scaling packed pixels channel by channel, or planes. -/
theorem runLoaded_packed (hscaler : scaler.ChannelWise) {initial : LoadedCanvas}
    (hcopied : initial.Copied)
    (haccepted : settings.Accepted initial.image.raster initial.mask.raster)
    (hwidth : initial.width < Word.span32) (hheight : initial.height < Word.span32) :
    (packed scaler).runLoaded settings start initial =
      (planes scaler.planes).runLoaded settings start initial := by
  have hrun := run_packed settings start hscaler (hcopied.fillable haccepted) ⟨hwidth, hheight⟩
  rw [runLoaded, runLoaded, hrun, Filling.run]

/-- **Packed pixels and planes are filled alike**, whatever is behind the last pixel, if sides fit
the words of scalers and the scaler looks at one channel at a time. -/
theorem fillLoaded?_packed (hscaler : scaler.ChannelWise) {image mask : Loaded}
    (hwidth : image.width < Word.span32) (hheight : image.height < Word.span32) :
    (packed scaler).fillLoaded? settings start image mask =
      (planes scaler.planes).fillLoaded? settings start image mask := by
  cases hcheck : settings.check image.raster mask.raster with
  | error => rw [fillLoaded?, fillLoaded?, hcheck]; rfl
  | ok =>
    have haccepted := Settings.check_eq_ok_iff.mp hcheck
    have hcut : settings.Accepted image.raster (mask.threshold settings.threshold).raster :=
      haccepted.threshold settings.threshold
    have hrun := runLoaded_packed settings start hscaler (LoadedCanvas.copied_of_accepted hcut) hcut
      hwidth hheight
    rw [fillLoaded?_of_accepted haccepted, fillLoaded?_of_accepted haccepted, hrun]

theorem fillLoadedCanvas?_packed (hscaler : scaler.ChannelWise) {initial : LoadedCanvas}
    (hcopied : initial.Copied) (hwidth : initial.width < Word.span32)
    (hheight : initial.height < Word.span32) :
    (packed scaler).fillLoadedCanvas? settings start initial =
      (planes scaler.planes).fillLoadedCanvas? settings start initial := by
  cases hcheck : settings.check initial.image.raster initial.mask.raster with
  | error => rw [fillLoadedCanvas?, fillLoadedCanvas?, hcheck]; rfl
  | ok =>
    have haccepted := Settings.check_eq_ok_iff.mp hcheck
    rw [fillLoadedCanvas?_of_accepted haccepted, fillLoadedCanvas?_of_accepted haccepted,
      runLoaded_packed settings start hscaler hcopied haccepted hwidth hheight]

end Resizing

end Retouch
