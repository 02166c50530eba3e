import Retouch.Proofs.Filling.Level
import Retouch.Proofs.Matching.Total

/-!
# Retouch — Filling — Accepted images are filled

Machine words have *room* for a run when they hold the number of samples of its canvas and every
distance of its patches, whatever the samples are (`Canvas.HasRoom`).  Then ready fields are
workable, and all checks on the way pass: those of a turn and of a level, and so, from the coarsest
level to the finest, those of the run (`exists_run`).

An image and a mask are *feasible* when the settings accept them and words have room for the image
(`Settings.Feasible`).  Then both ways of filling end with a result of the shape of the image.
-/

namespace Retouch

/-! ### Room -/

/-- Words have room for a run that starts from the canvas, with patches of that radius. -/
structure Canvas.HasRoom (initial : Canvas) (radius : Nat) : Prop where
  depth_pos : 0 < initial.depth
  radius_lt : radius < Word.half64
  stored : initial.area * initial.depth < Word.half64
  roomy : (Pairing.mk initial initial radius).roomy = true

namespace Canvas.HasRoom

variable {c initial : Canvas} {radius : Nat}

/-- A canvas of the run can be allocated, with as many channels as the first one or fewer. -/
theorem checkSize_eq_ok (hroom : initial.HasRoom radius) (hc : c.Within initial) {layout : Layout}
    (hlayout : layout.size ≤ initial.depth) :
    Raster.checkSize c.width c.height layout = .ok () := by
  have harea : c.width * c.height ≤ initial.area := Nat.mul_le_mul hc.width_le hc.height_le
  have hdepth : initial.area ≤ initial.area * initial.depth :=
    Nat.le_mul_of_pos_right _ hroom.depth_pos
  have hsamples := Nat.mul_le_mul harea hlayout
  have hstored := hroom.stored
  refine Fault.unless_of ⟨?_, by omega⟩
  simp only [Word.half64, Word.span64] at *
  omega

/-- The rows of a canvas of the run can be walked. -/
theorem checkRows_eq_ok (hroom : initial.HasRoom radius) (hc : c.Within initial) :
    checkRows c.width initial.depth = .ok () := by
  have harea : c.width ≤ initial.area := by
    calc
      c.width ≤ c.width * c.height := Nat.le_mul_of_pos_right _ hc.height_pos
      _ ≤ initial.area := Nat.mul_le_mul hc.width_le hc.height_le
  have hrow := Nat.mul_le_mul_right initial.depth harea
  have hstored := hroom.stored
  refine Fault.unless_of ?_
  simp only [Word.half64, Word.span64] at *
  omega

/-- A canvas of the run can be brought to the size of another. -/
theorem scaleTo?_eq_ok (hroom : initial.HasRoom radius) (hc : c.Within initial) {size : Canvas}
    (hsize : size.Within initial) (scaler : Scaler) :
    c.scaleTo? scaler size.width size.height =
      .ok (c.scaleTo scaler size.width size.height) := by
  have himage : c.layout.size ≤ initial.depth := Nat.le_of_eq hc.depth_eq
  have hmask : c.mask.layout.size ≤ initial.depth :=
    Nat.le_trans (Nat.le_of_eq hc.consistent.depth_mask) hroom.depth_pos
  rw [scaleTo?, hroom.checkSize_eq_ok hsize himage, hroom.checkSize_eq_ok hsize hmask,
    hc.depth_eq, hroom.checkRows_eq_ok hsize]
  rfl

/-- Two canvases of the run make a roomy pairing. -/
theorem roomy_of_within (hroom : initial.HasRoom radius) {target source : Canvas}
    (ht : target.Within initial) (hs : source.Within initial) :
    (Pairing.mk target source radius).roomy = true := by
  have hsame :
      (Pairing.mk target source radius).roomy = (Pairing.mk initial initial radius).roomy :=
    Pairing.roomy_congr rfl ht.depth_eq hs.depth_eq
  exact hsame.trans hroom.roomy

end Canvas.HasRoom

/-! ### Steps on ready fields -/

namespace MatchField

variable {σ : Type} {f : MatchField σ} {initial : Canvas} {radius : Nat}

theorem Ready.workable (hf : f.Ready initial radius) (hroom : initial.HasRoom radius) :
    f.Workable where
  width_pos := hf.target.width_pos
  height_pos := hf.target.height_pos
  depth_pos := hf.target.depth_eq ▸ hroom.depth_pos
  source_width_pos := hf.source.width_pos
  source_height_pos := hf.source.height_pos
  size_eq := hf.size_eq
  roomy := (congrArg (fun r => (Pairing.mk f.target f.source r).roomy) hf.radius_eq).trans
    (hroom.roomy_of_within hf.target hf.source)

theorem exists_retarget? (hroom : initial.HasRoom radius) (hf : f.Ready initial radius)
    {target : Canvas} (ht : target.Within initial) (hw : target.width = f.width)
    (hh : target.height = f.height) : ∃ g, f.retarget? target = .ok g :=
  ⟨_, retarget?_eq_ok (hf.workable hroom) hw hh (ht.depth_eq.trans hf.target.depth_eq.symm)⟩

theorem exists_repaint? (hroom : initial.HasRoom radius) (hf : f.Ready initial radius)
    {zoom : Zoom} {source target : Canvas} (hs : source.Within initial)
    (ht : target.Within initial) (hcovers : f.Covers zoom target) :
    ∃ result, f.repaint? zoom source target = .ok result :=
  ⟨_, repaint?_eq_ok (hf.radius_eq ▸ hroom.radius_lt) hcovers
    (Nat.le_of_eq (hs.depth_eq.trans ht.depth_eq.symm))⟩

/-- A ready field has an entry for every pixel of its own target. -/
theorem Ready.covers_same (hf : f.Ready initial radius) : f.Covers .same f.target := by
  have hh := hf.target.height_pos
  have hw := hf.target.width_pos
  -- The last row starts at `(height - 1) * width`.
  have hrows : f.target.height * f.target.width =
      (f.target.height - 1) * f.target.width + f.target.width := by
    rw [← Nat.succ_mul, Nat.succ_eq_add_one, Nat.sub_add_cancel hh]
  have hsize : f.entries.size = f.target.height * f.target.width :=
    hf.size_eq.trans (Nat.mul_comm _ _)
  show (f.target.height - 1) * f.target.width + f.target.width - 1 < f.entries.size
  omega

variable [WordSource σ]

theorem exists_finer? (hroom : initial.HasRoom radius) (hf : f.Ready initial radius)
    {target source : Canvas} (ht : target.Within initial) (hs : source.Within initial) :
    ∃ g, f.finer? target source = .ok g :=
  ⟨_, finer?_eq_ok (hf.workable hroom) ⟨ht.width_pos, ht.height_pos⟩ ⟨hs.width_pos, hs.height_pos⟩
    (ht.depth_eq.trans hf.target.depth_eq.symm) (hs.depth_eq.trans hf.source.depth_eq.symm)⟩

end MatchField

/-! ### Turns, levels, runs -/

namespace Filling

open MatchField

variable {σ : Type} [WordSource σ] {f : MatchField σ} {initial : Canvas} {radius : Nat}

theorem exists_turns (hroom : initial.HasRoom radius) (hf : f.Ready initial radius)
    (level passes n iteration : Nat) :
    ∃ g events, turns level passes n iteration f = .ok (g, events) := by
  -- A turn ends with a ready field again, so the next one can be taken.
  induction n generalizing f iteration with
  | zero => exact ⟨f, [], rfl⟩
  | succ n ih =>
    have himprove := improve?_eq_ok (hf.workable hroom) passes
    have himproved := hf.sameFrame (sameFrame_improve f passes)
    obtain ⟨target, hrepaint⟩ :=
      exists_repaint? hroom himproved himproved.source himproved.target himproved.covers_same
    obtain ⟨htarget, hw, hh⟩ := within_of_repaint? himproved.target hrepaint
    obtain ⟨next, hretarget⟩ := exists_retarget? hroom himproved htarget hw hh
    obtain ⟨last, events, hturns⟩ :=
      ih (ready_of_retarget? himproved htarget hretarget) (iteration + 1)
    exact ⟨last, _, bind_eq_ok_iff.mpr ⟨_, himprove, bind_eq_ok_iff.mpr ⟨target, hrepaint,
      bind_eq_ok_iff.mpr ⟨next, hretarget, bind_eq_ok_iff.mpr ⟨(last, events), hturns, rfl⟩⟩⟩⟩⟩

end Filling

namespace Resizing

open MatchField Filling

variable {σ : Type} [WordSource σ] {resize : Resizing} {f : MatchField σ} {initial : Canvas}
  {radius : Nat}

/-- Canvases of a run that starts from `initial` can be brought to the sizes of others. -/
def Succeeds (resize : Resizing) (initial : Canvas) : Prop :=
  ∀ {c size : Canvas}, c.Within initial → size.Within initial →
    ∃ scaled, resize c size.width size.height = .ok scaled

theorem succeeds_planes (hroom : initial.HasRoom radius) (scaler : Scaler) :
    (planes scaler).Succeeds initial :=
  fun hc hsize => ⟨_, hroom.scaleTo?_eq_ok hc hsize scaler⟩

variable (settings : Settings)

theorem exists_workLevel (hwithin : resize.StaysWithin initial)
    (hresize : resize.Succeeds initial) (hroom : initial.HasRoom radius)
    (hf : f.Ready initial radius) (level : Nat) {finer : Canvas} (hfiner : finer.Within initial) :
    ∃ done, resize.workLevel settings level finer f = .ok done := by
  obtain ⟨turned, events, hturns⟩ := exists_turns hroom hf level (settings.passesAt level)
    (settings.repaintsAt level - 1) 1
  have hturned := ready_of_turns hf hturns
  obtain ⟨improved, himprove⟩ : ∃ improved, turned.improve? (settings.passesAt level) =
      .ok improved := ⟨_, improve?_eq_ok (hturned.workable hroom) _⟩
  have himproved := hturned.sameFrame (sameFrame_of_improve? himprove)
  -- The last repaint has the size of the finer level, and looks up the entries at half of it.
  obtain ⟨enlarged, henlarged⟩ := hresize himproved.target hfiner
  have hcovers : improved.Covers .double enlarged :=
    ⟨himproved.target.width_pos, himproved.target.height_pos⟩
  obtain ⟨target, hrepaint⟩ := exists_repaint? hroom himproved hfiner
    (hwithin himproved.target hfiner henlarged).1 hcovers
  exact ⟨_, bind_eq_ok_iff.mpr ⟨(turned, events), hturns, bind_eq_ok_iff.mpr ⟨improved, himprove,
    bind_eq_ok_iff.mpr ⟨_, henlarged, bind_eq_ok_iff.mpr ⟨target, hrepaint, rfl⟩⟩⟩⟩⟩

theorem exists_climb (hwithin : resize.StaysWithin initial) (hresize : resize.Succeeds initial)
    (hroom : initial.HasRoom radius) (hf : f.Ready initial radius) {others : List Canvas}
    (hothers : ∀ c ∈ others, c.Within initial) {last : Canvas} (hlast : last.Within initial) :
    ∃ outcome, resize.climb settings f (others ++ [last]) = .ok outcome := by
  induction others generalizing f with
  | nil =>
    obtain ⟨done, hwork⟩ := exists_workLevel settings hwithin hresize hroom hf 1 hlast
    rw [List.nil_append, climb_last]
    exact ⟨_, bind_eq_ok_iff.mpr ⟨done, hwork, rfl⟩⟩
  | cons finer others ih =>
    obtain ⟨hfiner, hothers⟩ := List.forall_mem_cons.mp hothers
    have hrest : others ++ [last] ≠ [] := by simp
    obtain ⟨done, hwork⟩ := exists_workLevel settings hwithin hresize hroom hf
      ((others ++ [last]).length + 1) hfiner
    obtain ⟨hfield, htarget, -⟩ := ready_of_workLevel hwithin hf hfiner hwork
    obtain ⟨next, hnext⟩ := exists_finer? hroom hfield htarget hfiner
    obtain ⟨outcome, hclimb⟩ := ih (ready_of_finer? hfield htarget hfiner hnext) hothers
    rw [List.cons_append, climb_next f finer hrest]
    exact ⟨_, bind_eq_ok_iff.mpr ⟨done, hwork, bind_eq_ok_iff.mpr ⟨next, hnext,
      bind_eq_ok_iff.mpr ⟨outcome, hclimb, rfl⟩⟩⟩⟩

/-- The levels of a run are worked, from the coarsest one to the canvas itself. -/
theorem exists_reconstruct (hwithin : resize.StaysWithin initial)
    (hresize : resize.Succeeds initial) (hroom : initial.HasRoom settings.radius)
    (hinitial : initial.Within initial) (start : σ) {coarsest : Canvas}
    (hcoarsest : coarsest.Within initial) {others : List Canvas}
    (hothers : ∀ c ∈ others, c.Within initial) : ∃ outcome,
      resize.reconstruct settings start coarsest (others ++ [initial]) = .ok outcome ∧
        outcome.canvas.image.SameShape initial.image := by
  have hstart : (MatchField.start ⟨coarsest.clearHoles, coarsest, settings.radius⟩ start).Ready
      initial settings.radius := ready_start hcoarsest.clearHoles hcoarsest start
  have hscatter := scatter?_eq_ok (hstart.workable hroom)
  have hready := hstart.sameFrame (sameFrame_scatter _)
  obtain ⟨outcome, hclimb⟩ :=
    exists_climb settings hwithin hresize hroom hready hothers hinitial
  have hreconstruct : resize.reconstruct settings start coarsest (others ++ [initial]) =
      .ok outcome := bind_eq_ok_iff.mpr ⟨_, hscatter, hclimb⟩
  exact ⟨outcome, hreconstruct,
    (within_of_reconstruct hwithin hinitial hcoarsest hothers hreconstruct).2⟩

end Resizing

namespace Filling

variable {σ : Type} [WordSource σ] {initial : Canvas} (scaler : Scaler) (settings : Settings)
  (start : σ)

/-- **A run ends with a result** when words have room for it. -/
theorem exists_run (hinitial : initial.Within initial) (hroom : initial.HasRoom settings.radius) :
    ∃ outcome, run scaler settings start initial = .ok outcome := by
  rcases List.eq_nil_or_concat (Pyramid.descend settings.radius initial) with
    hnil | ⟨between, coarsest, hdescend⟩
  · exact ⟨_, run_of_descend_eq_nil hnil⟩
  · rw [List.concat_eq_append] at hdescend
    obtain ⟨hcoarsest, hbetween⟩ := Pyramid.within_of_descend_eq hinitial hdescend
    obtain ⟨outcome, hreconstruct, hshape⟩ := Resizing.exists_reconstruct settings
      (Resizing.staysWithin_planes scaler initial) (Resizing.succeeds_planes hroom scaler) hroom
      hinitial start hcoarsest hbetween
    obtain ⟨canvas, hfinish, -⟩ := finish_sameShape hshape settings
    rw [run_of_descend hdescend]
    exact ⟨_, bind_eq_ok_iff.mpr ⟨outcome, hreconstruct,
      bind_eq_ok_iff.mpr ⟨canvas, hfinish, rfl⟩⟩⟩

end Filling

/-! ### Accepted images -/

/-- The scaled cost of a whole window, factor by factor. -/
theorem Pairing.scaled_fullCost (p : Pairing) : maxDistance * p.fullCost =
    maxDistance * Byte.squaredSpan * p.target.depth *
      ((2 * p.radius + 1) * (2 * p.radius + 1)) := by
  simp only [fullCost, side, cellSpan]
  ac_rfl

/-- The settings accept the image and the mask, and machine words can hold the samples of the image
and the distances of its patches. -/
structure Settings.Feasible (settings : Settings) (image mask : Raster) : Prop where
  accepted : settings.check image mask = .ok ()
  depth_pos : 0 < image.depth
  depth_le : image.depth ≤ 65536
  distances : maxDistance * Byte.squaredSpan * image.depth *
    ((2 * settings.radius + 1) * (2 * settings.radius + 1)) < Word.span64
  /-- The samples are a buffer, and no buffer is longer than this. -/
  stored : image.samples.size < Word.half64

namespace Settings

variable {settings : Settings} {image mask : Raster}

/-- The rows of an image that was accepted can be walked, once its samples are stored. -/
theorem Accepted.checkRows_eq_ok (h : settings.Accepted image mask)
    (hstored : image.samples.size < Word.half64) :
    Canvas.checkRows image.width image.depth = .ok () := by
  have hrow : image.width * image.depth ≤ image.samples.size := by
    rw [image.size_samples]
    exact Nat.mul_le_mul_right _ (Nat.le_mul_of_pos_right _ h.height_pos)
  refine Fault.unless_of ?_
  simp only [Word.half64, Word.span64] at *
  omega

/-- A canvas of the shapes that were accepted can turn up in its own run. -/
theorem Accepted.within (h : settings.Accepted image mask) {initial : Canvas}
    (himage : initial.image.SameShape image) (hmask : initial.mask.SameShape mask)
    (hholes : initial.holes = Canvas.holesOf initial.mask) : initial.Within initial where
  consistent :=
    { width_eq := by rw [hmask.width_eq, himage.width_eq, h.mask_width]
      height_eq := by rw [hmask.height_eq, himage.height_eq, h.mask_height]
      depth_mask := by rw [hmask.depth_eq, h.mask_depth]
      holes_eq := hholes }
  layout_eq := rfl
  width_pos := Nat.lt_of_lt_of_eq h.width_pos himage.width_eq.symm
  height_pos := Nat.lt_of_lt_of_eq h.height_pos himage.height_eq.symm
  width_le := Nat.le_refl _
  height_le := Nat.le_refl _

theorem Accepted.within_self {c : Canvas} (h : settings.Accepted c.image c.mask)
    (hc : c.Consistent) : c.Within c :=
  h.within (.refl c.image) (.refl c.mask) hc.holes_eq

theorem Accepted.within_ofParts (h : settings.Accepted image mask) :
    (Canvas.ofParts image mask).Within (.ofParts image mask) :=
  h.within (.refl image) (.refl mask) rfl

theorem Accepted.within_threshold (h : settings.Accepted image mask) (limit : UInt8) :
    (Canvas.ofParts image (mask.threshold limit)).Within
      (.ofParts image (mask.threshold limit)) :=
  h.within (.refl image) (mask.sameShape_threshold limit) rfl

/-- Whether known pixels are kept does not matter. -/
theorem Feasible.keepsKnown (h : settings.Feasible image mask) (keeps : Bool) :
    ({ settings with keepsKnown := keeps } : Settings).Feasible image mask :=
  ⟨h.accepted, h.depth_pos, h.depth_le, h.distances, h.stored⟩

theorem Feasible.hasRoom {initial : Canvas} (h : settings.Feasible initial.image mask) :
    initial.HasRoom settings.radius where
  depth_pos := h.depth_pos
  radius_lt := by
    have haccepted := check_eq_ok_iff.mp h.accepted
    -- A radius that fits in the image is less than the number of its samples.
    have hwidth : settings.radius < initial.image.width :=
      Nat.lt_of_lt_of_le haccepted.radius_lt (Nat.min_le_left _ _)
    have harea : initial.image.width ≤ initial.image.area :=
      Nat.le_mul_of_pos_right _ haccepted.height_pos
    have hsamples : initial.image.area ≤ initial.image.samples.size := by
      rw [initial.image.size_samples]
      exact Nat.le_mul_of_pos_right _ h.depth_pos
    have hstored := h.stored
    omega
  stored := Nat.lt_of_le_of_lt (Nat.le_of_eq initial.image.size_samples.symm) h.stored
  roomy := by
    have hcell : Byte.squaredSpan * min initial.depth initial.depth < Word.span32 := by
      have hdepth : initial.depth ≤ 65536 := h.depth_le
      simp only [Nat.min_self, Byte.squaredSpan, Word.span32]
      omega
    simp only [Pairing.roomy, Pairing.scaled_fullCost, Bool.and_eq_true, decide_eq_true_eq]
    exact ⟨h.distances, hcell⟩

end Settings

namespace Filling

variable {σ : Type} [WordSource σ] (scaler : Scaler) {settings : Settings} (start : σ)

theorem exists_fill? {image mask : Raster} (h : settings.Feasible image mask) :
    ∃ outcome, fill? scaler settings start image mask = .ok outcome ∧
      outcome.canvas.image.SameShape image := by
  have haccepted := Settings.check_eq_ok_iff.mp h.accepted
  have hrows := haccepted.checkRows_eq_ok h.stored
  let initial := Canvas.ofParts image (mask.threshold settings.threshold)
  have hinitial : initial.Within initial := haccepted.within_threshold _
  have hroom : initial.HasRoom settings.radius := h.hasRoom
  obtain ⟨outcome, hrun⟩ := exists_run scaler settings start hinitial hroom
  refine ⟨outcome, ?_, sameShape_of_run hinitial hrun⟩
  rw [fill?_of_accepted haccepted, hrows]
  exact Failure.ofFault_eq_ok_iff.mpr hrun

theorem exists_fillCanvas? {initial : Canvas} (hconsistent : initial.Consistent)
    (h : settings.Feasible initial.image initial.mask) :
    ∃ outcome, fillCanvas? scaler settings start initial = .ok outcome ∧
      outcome.canvas.image.SameShape initial.image := by
  have haccepted := Settings.check_eq_ok_iff.mp h.accepted
  have hinitial := haccepted.within_self hconsistent
  obtain ⟨outcome, hrun⟩ := exists_run scaler settings start hinitial h.hasRoom
  have hshape := sameShape_of_run hinitial hrun
  have hpair : Canvas.pair? outcome.canvas.image initial.mask =
      .ok (.ofParts outcome.canvas.image initial.mask) := by
    rw [pair?_of_accepted haccepted hshape (.refl initial.mask),
      haccepted.checkRows_eq_ok h.stored]
    rfl
  refine ⟨{ outcome with canvas := .ofParts outcome.canvas.image initial.mask }, ?_, hshape⟩
  rw [fillCanvas?_of_accepted haccepted]
  exact bind_eq_ok_iff.mpr ⟨outcome, Failure.ofFault_eq_ok_iff.mpr hrun,
    bind_eq_ok_iff.mpr ⟨_, hpair, rfl⟩⟩

/-! ### A small filling -/

/-- A mask of four by four cells with one hole. -/
def dotMask : Raster :=
  .ofHoles 4 4 fun x y => x == 1 && y == 2

/-- A black image for that mask. -/
def darkImage : Raster :=
  .blank 4 4 .gray

theorem feasible_dot : ({ radius := 1 } : Settings).Feasible darkImage dotMask where
  accepted := rfl
  depth_pos := by decide
  depth_le := by decide
  distances := by decide
  stored := by decide

end Filling

end Retouch
