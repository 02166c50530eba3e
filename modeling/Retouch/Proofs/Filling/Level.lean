import Retouch.Canvas.Consistent
import Retouch.Proofs.Filling.Schedule
import Retouch.Proofs.Matching.Frame
import Retouch.Proofs.Voting.Samples

/-!
# Retouch — Filling — What levels keep

Every canvas that turns up in a run, be it a level, a target or the result, is consistent, has the
channels of the canvas that the run starts from, and has sides that are neither zero nor longer
than its sides (`Canvas.Within`).  A field whose canvases are like that, with an entry for every
pixel of its target, is *ready* (`MatchField.Ready`).

Turns, levels and whole runs keep this, whenever they end with a result.  A level ends with a
target of the size of the next finer one, so a run ends with a canvas of the shape it started from
(`sameShape_of_run`).
-/

namespace Retouch

/-! ### Canvases of a run -/

/-- The canvas can turn up in a run that starts from `initial`. -/
structure Canvas.Within (c initial : Canvas) : Prop where
  consistent : c.Consistent
  layout_eq : c.layout = initial.layout
  width_pos : 0 < c.width
  height_pos : 0 < c.height
  width_le : c.width ≤ initial.width
  height_le : c.height ≤ initial.height

namespace Canvas.Within

variable {c initial : Canvas}

theorem depth_eq (h : c.Within initial) : c.depth = initial.depth :=
  congrArg Array.size h.layout_eq

theorem area_pos (h : c.Within initial) : 0 < c.area :=
  Nat.mul_pos h.width_pos h.height_pos

/-- A consistent canvas with the right channels, and with the sides of a canvas of the run. -/
theorem of_sides {size : Canvas} (hsize : size.Within initial) (hc : c.Consistent)
    (hlayout : c.layout = initial.layout) (hw : c.width = size.width)
    (hh : c.height = size.height) : c.Within initial :=
  ⟨hc, hlayout, hw ▸ hsize.width_pos, hh ▸ hsize.height_pos, hw ▸ hsize.width_le,
    hh ▸ hsize.height_le⟩

theorem withImage (h : c.Within initial) {image : Raster} (himage : image.SameShape c.image) :
    (c.withImage image).Within initial :=
  of_sides h (h.consistent.withImage himage.width_eq himage.height_eq)
    (himage.layout_eq.trans h.layout_eq) himage.width_eq himage.height_eq

theorem clearHoles (h : c.Within initial) : c.clearHoles.Within initial :=
  ⟨h.consistent.clearHoles, h.layout_eq, h.width_pos, h.height_pos, h.width_le, h.height_le⟩

theorem halve (h : c.Within initial) : c.halve.Within initial := by
  by_cases hc : c.image.halvable = true
  · have hhalve : c.halve = .ofParts c.image.halve c.mask.halve := if_pos hc
    have hw : c.halve.width = c.width / 2 := by
      rw [hhalve]
      exact Raster.width_halve hc
    have hh : c.halve.height = c.height / 2 := by
      rw [hhalve]
      exact Raster.height_halve hc
    have hl : c.halve.layout = c.layout := by
      rw [hhalve]
      exact Raster.layout_halve c.image
    obtain ⟨hwidth, hheight⟩ := Raster.two_le_of_halvable hc
    refine ⟨h.consistent.halve, hl.trans h.layout_eq, ?_, ?_, ?_, ?_⟩
    · exact hw ▸ Nat.div_pos hwidth Nat.two_pos
    · exact hh ▸ Nat.div_pos hheight Nat.two_pos
    · exact hw ▸ Nat.le_trans (Nat.div_le_self _ _) h.width_le
    · exact hh ▸ Nat.le_trans (Nat.div_le_self _ _) h.height_le
  · rw [Canvas.halve, if_neg hc]
    exact h

theorem scaleTo (h : c.Within initial) {size : Canvas} (hsize : size.Within initial)
    (scaler : Scaler) : (c.scaleTo scaler size.width size.height).Within initial :=
  of_sides hsize (h.consistent.scaleTo scaler _ _)
    ((Raster.layout_scaleTo c.image scaler _ _).trans h.layout_eq)
    (Raster.width_scaleTo c.image scaler _ _) (Raster.height_scaleTo c.image scaler _ _)

end Canvas.Within

/-- Halving a canvas of a run over and over gives canvases of the run. -/
theorem Pyramid.within_of_mem_descend {radius : Nat} {c initial : Canvas}
    (h : c.Within initial) : ∀ level ∈ descend radius c, level.Within initial := by
  fun_induction descend radius c with
  | case1 c hsplits _ ih =>
    intro level hlevel
    rcases List.mem_cons.mp hlevel with rfl | hlevel
    · exact h.halve
    · exact ih h.halve level hlevel
  | case2 => exact fun level hlevel => absurd hlevel List.not_mem_nil

/-- The coarsest level of a run, and the others on the way back to the canvas itself. -/
theorem Pyramid.within_of_descend_eq {radius : Nat} {initial coarsest : Canvas}
    {between : List Canvas} (hinitial : initial.Within initial)
    (h : descend radius initial = between ++ [coarsest]) :
    coarsest.Within initial ∧ ∀ c ∈ between.reverse, c.Within initial := by
  have hlevels : ∀ c ∈ between ++ [coarsest], c.Within initial :=
    h ▸ within_of_mem_descend hinitial
  refine ⟨hlevels coarsest (by simp), fun c hc => hlevels c ?_⟩
  exact List.mem_append_left _ (List.mem_reverse.mp hc)

/-! ### Fields of a run -/

/-- The field can turn up in a run that starts from `initial`, with patches of that radius. -/
structure MatchField.Ready {σ : Type} (f : MatchField σ) (initial : Canvas) (radius : Nat) :
    Prop where
  target : f.target.Within initial
  source : f.source.Within initial
  radius_eq : f.radius = radius
  size_eq : f.entries.size = f.target.area

namespace MatchField

variable {σ : Type} {f g : MatchField σ} {initial : Canvas} {radius : Nat}

theorem Ready.sameFrame (hf : f.Ready initial radius) (h : SameFrame f g) :
    g.Ready initial radius where
  target := h.target_eq ▸ hf.target
  source := h.source_eq ▸ hf.source
  radius_eq := (congrArg Pairing.radius h.toPairing_eq).trans hf.radius_eq
  size_eq := by rw [h.size_eq, h.target_eq, hf.size_eq]

theorem ready_start {target source : Canvas} (ht : target.Within initial)
    (hs : source.Within initial) (draws : σ) :
    (start ⟨target, source, radius⟩ draws).Ready initial radius :=
  ⟨ht, hs, rfl, Array.size_replicate⟩

theorem Ready.withTarget (hf : f.Ready initial radius) {target : Canvas}
    (ht : target.Within initial) (hw : target.width = f.width) (hh : target.height = f.height) :
    ({ f with target } : MatchField σ).Ready initial radius where
  target := ht
  source := hf.source
  radius_eq := hf.radius_eq
  size_eq :=
    calc
      f.entries.size = f.width * f.height := hf.size_eq
      _ = target.width * target.height := by rw [hw, hh]

theorem Ready.seeded (hf : f.Ready initial radius) {target source : Canvas}
    (ht : target.Within initial) (hs : source.Within initial) :
    (f.seeded target source).Ready initial radius :=
  ⟨ht, hs, hf.radius_eq, Array.size_ofFn⟩

theorem ready_of_retarget? (hf : f.Ready initial radius) {target : Canvas}
    (ht : target.Within initial) (h : f.retarget? target = .ok g) : g.Ready initial radius := by
  obtain ⟨⟨hw, hh⟩, hsame⟩ := sameFrame_of_retarget? h
  exact (hf.withTarget ht hw hh).sameFrame hsame

theorem ready_of_finer? [WordSource σ] (hf : f.Ready initial radius) {target source : Canvas}
    (ht : target.Within initial) (hs : source.Within initial)
    (h : f.finer? target source = .ok g) : g.Ready initial radius :=
  (hf.seeded ht hs).sameFrame (sameFrame_of_finer? h)

/-- A repaint changes samples only. -/
theorem exists_image_of_repaint? {zoom : Zoom} {source target result : Canvas}
    (h : f.repaint? zoom source target = .ok result) :
    ∃ image, image.SameShape target.image ∧ result = target.withImage image := by
  obtain ⟨rfl, -⟩ := repaint?_eq_ok_iff.mp h
  exact ⟨(f.repaint zoom source target).image, ⟨rfl, rfl, rfl⟩, rfl⟩

theorem within_of_repaint? {zoom : Zoom} {source target result : Canvas}
    (ht : target.Within initial) (h : f.repaint? zoom source target = .ok result) :
    result.Within initial ∧ result.width = target.width ∧ result.height = target.height := by
  obtain ⟨image, himage, rfl⟩ := exists_image_of_repaint? h
  exact ⟨ht.withImage himage, himage.width_eq, himage.height_eq⟩

end MatchField

/-! ### Turns, levels, runs -/

namespace Filling

open MatchField

variable {σ : Type} [WordSource σ] {settings : Settings} {f : MatchField σ} {initial : Canvas}
  {radius : Nat}

theorem ready_of_coarsestField? {start : σ} {level : Canvas} (hlevel : level.Within initial)
    (h : coarsestField? settings start level = .ok f) : f.Ready initial settings.radius :=
  (ready_start hlevel.clearHoles hlevel start).sameFrame (sameFrame_of_scatter? h)

theorem ready_of_turns {level passes n iteration : Nat} {g : MatchField σ} {events : List Event}
    (hf : f.Ready initial radius) (h : turns level passes n iteration f = .ok (g, events)) :
    g.Ready initial radius := by
  -- Between two turns the field is ready for the same run; what it holds changes with every turn.
  induction n generalizing f iteration events with
  | zero =>
    cases h
    exact hf
  | succ n ih =>
    obtain ⟨improved, target, next, _, himprove, hrepaint, hretarget, hturns, -⟩ := turns_cases h
    have himproved := hf.sameFrame (sameFrame_of_improve? himprove)
    obtain ⟨htarget, -⟩ := within_of_repaint? himproved.target hrepaint
    exact ih (ready_of_retarget? himproved htarget hretarget) hturns

end Filling

namespace Resizing

open MatchField Filling

variable {σ : Type} [WordSource σ] {resize : Resizing} {settings : Settings} {f : MatchField σ}
  {initial : Canvas} {radius : Nat}

/-- Canvases of a run that starts from `initial` are brought to the sizes of others, and are
canvases of that run again. -/
def StaysWithin (resize : Resizing) (initial : Canvas) : Prop :=
  ∀ {c size scaled : Canvas}, c.Within initial → size.Within initial →
    resize c size.width size.height = .ok scaled →
    scaled.Within initial ∧ scaled.width = size.width ∧ scaled.height = size.height

theorem staysWithin_planes (scaler : Scaler) (initial : Canvas) :
    (planes scaler).StaysWithin initial := by
  intro c size scaled hc hsize hscaled
  obtain rfl := Canvas.eq_scaleTo_of_scaleTo? hscaled
  exact ⟨hc.scaleTo hsize scaler, Raster.width_scaleTo _ _ _ _, Raster.height_scaleTo _ _ _ _⟩

/-- A level ends with a target of the size of the next finer one. -/
theorem ready_of_workLevel (hresize : resize.StaysWithin initial) {level : Nat} {finer : Canvas}
    {done : LevelEnd σ} (hf : f.Ready initial radius) (hfiner : finer.Within initial)
    (h : resize.workLevel settings level finer f = .ok done) :
    done.field.Ready initial radius ∧ done.target.Within initial ∧
      done.target.width = finer.width ∧ done.target.height = finer.height := by
  obtain ⟨turned, _, enlarged, hturns, himprove, henlarged, hrepaint, -⟩ := workLevel_cases h
  have himproved := (ready_of_turns hf hturns).sameFrame (sameFrame_of_improve? himprove)
  obtain ⟨hwithin, hwidth, hheight⟩ := hresize himproved.target hfiner henlarged
  obtain ⟨htarget, hw, hh⟩ := within_of_repaint? hwithin hrepaint
  exact ⟨himproved, htarget, hw.trans hwidth, hh.trans hheight⟩

theorem within_of_climb (hresize : resize.StaysWithin initial) {others : List Canvas}
    {last : Canvas} {outcome : Outcome} (hf : f.Ready initial radius)
    (hothers : ∀ c ∈ others, c.Within initial) (hlast : last.Within initial)
    (h : resize.climb settings f (others ++ [last]) = .ok outcome) :
    outcome.canvas.Within initial ∧ outcome.canvas.width = last.width ∧
      outcome.canvas.height = last.height := by
  -- On the levels below the finest, for any ready field; the sides come from the last step.
  induction others generalizing f outcome with
  | nil =>
    obtain ⟨done, hwork, ⟨-, rfl⟩ | ⟨hrest, -⟩⟩ := climb_cases h
    · exact (ready_of_workLevel hresize hf hlast hwork).2
    · exact absurd rfl hrest
  | cons finer others ih =>
    obtain ⟨hfiner, hothers⟩ := List.forall_mem_cons.mp hothers
    obtain ⟨done, hwork, ⟨hnil, -⟩ | ⟨-, next, rest, hnext, hclimb, rfl⟩⟩ := climb_cases h
    · exact absurd hnil (by simp)
    · obtain ⟨hfield, htarget, -⟩ := ready_of_workLevel hresize hf hfiner hwork
      have hcanvas := ih (ready_of_finer? hfield htarget hfiner hnext) hothers hclimb
      exact hcanvas

/-- The levels that are worked on the way to the canvas itself. -/
theorem within_of_reconstruct (hresize : resize.StaysWithin initial) {start : σ}
    {coarsest : Canvas} {others : List Canvas} {outcome : Outcome}
    (hinitial : initial.Within initial) (hcoarsest : coarsest.Within initial)
    (hothers : ∀ c ∈ others, c.Within initial)
    (h : resize.reconstruct settings start coarsest (others ++ [initial]) = .ok outcome) :
    outcome.canvas.Within initial ∧ outcome.canvas.image.SameShape initial.image := by
  obtain ⟨field, hfield, h⟩ := bind_eq_ok_iff.mp h
  obtain ⟨hcanvas, hw, hh⟩ :=
    within_of_climb hresize (ready_of_coarsestField? hcoarsest hfield) hothers hinitial h
  exact ⟨hcanvas, hw, hh, hcanvas.layout_eq⟩

end Resizing

namespace Filling

variable {σ : Type} [WordSource σ] {scaler : Scaler} {settings : Settings} {f : MatchField σ}
  {initial : Canvas} {radius : Nat}

theorem ready_of_workLevel {level : Nat} {finer : Canvas} {done : LevelEnd σ}
    (hf : f.Ready initial radius) (hfiner : finer.Within initial)
    (h : workLevel scaler settings level finer f = .ok done) :
    done.field.Ready initial radius ∧ done.target.Within initial ∧
      done.target.width = finer.width ∧ done.target.height = finer.height :=
  Resizing.ready_of_workLevel (Resizing.staysWithin_planes scaler initial) hf hfiner h

theorem within_of_reconstruct {start : σ} {coarsest : Canvas} {others : List Canvas}
    {outcome : Outcome} (hinitial : initial.Within initial) (hcoarsest : coarsest.Within initial)
    (hothers : ∀ c ∈ others, c.Within initial)
    (h : reconstruct scaler settings start coarsest (others ++ [initial]) = .ok outcome) :
    outcome.canvas.Within initial ∧ outcome.canvas.image.SameShape initial.image :=
  Resizing.within_of_reconstruct (Resizing.staysWithin_planes scaler initial) hinitial hcoarsest
    hothers h

theorem finish_sameShape {canvas : Canvas} (h : canvas.image.SameShape initial.image)
    (settings : Settings) : ∃ result, finish settings initial canvas = .ok result ∧
      result.image.SameShape initial.image := by
  refine ⟨_, finish_eq_ok h settings, ?_⟩
  split
  · exact ⟨h.width_eq, h.height_eq, h.layout_eq⟩
  · exact h

/-- **A run keeps the shape of the image**, whenever it ends with a result. -/
theorem sameShape_of_run {start : σ} {outcome : Outcome} (hinitial : initial.Within initial)
    (h : run scaler settings start initial = .ok outcome) :
    outcome.canvas.image.SameShape initial.image := by
  rcases List.eq_nil_or_concat (Pyramid.descend settings.radius initial) with
    hnil | ⟨between, coarsest, hdescend⟩
  · rw [run_of_descend_eq_nil hnil] at h
    cases h
    exact .refl initial.image
  · rw [List.concat_eq_append] at hdescend
    obtain ⟨hcoarsest, hbetween⟩ := Pyramid.within_of_descend_eq hinitial hdescend
    rw [run_of_descend hdescend] at h
    obtain ⟨reconstructed, hreconstruct, h⟩ := bind_eq_ok_iff.mp h
    obtain ⟨canvas, hfinish, h⟩ := bind_eq_ok_iff.mp h
    cases h
    obtain ⟨-, hshape⟩ := within_of_reconstruct hinitial hcoarsest hbetween hreconstruct
    obtain ⟨result, hresult, hsame⟩ := finish_sameShape hshape settings
    obtain rfl : result = canvas := Except.ok.inj (hresult.symm.trans hfinish)
    exact hsame

end Filling

end Retouch
