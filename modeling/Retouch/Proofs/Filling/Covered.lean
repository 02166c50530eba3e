import Retouch.Proofs.Canvas.Fading
import Retouch.Proofs.Filling.Observed
import Retouch.Proofs.Voting.Samples

/-!
# Retouch — Filling — Canvases without a known pixel

A canvas is *covered* when every cell is a hole.  A covered canvas stays covered when it is halved
(`Canvas.Covered.halve`), so its pyramid goes down until a side is at most the radius, and all its
levels are covered.

There is nothing in a covered source to vote for: whatever the field has come to, a repaint leaves
the target as it is (`MatchField.eq_of_repaint?_covered`).  The fields of a level keep their frame
(`Filling.sameFrame_of_turns`), and one level after the other hands on the target it was given, at
the size of the next (`Filling.image_of_climb`).  At the end there is no known pixel to be put back.
So a filling is the coarsest level, scaled through the sizes of all others, whatever is drawn on the
way (`Filling.fill?_covered`).
-/

namespace Retouch

/-- The raster brought to the sizes of canvases, one after the other. -/
def Raster.scaledThrough (r : Raster) (scaler : Scaler) (sizes : List Canvas) : Raster :=
  sizes.foldl (fun r size => r.scaleTo scaler size.width size.height) r

/-! ### Covered canvases -/

/-- Every cell of the canvas is a hole. -/
def Canvas.Covered (c : Canvas) : Prop :=
  ∀ p < c.area, c.isHole p = true

/-- The even mean of four samples that are not zero is not zero. -/
theorem Blend.mean_quarters_ne_zero {a b c d : UInt8} (ha : a ≠ 0) (hb : b ≠ 0) (hc : c ≠ 0)
    (hd : d ≠ 0) : mean [a, b, c, d] quarters ≠ 0 := by
  have hpos {v : UInt8} (hv : v ≠ 0) : 0 < v.toNat :=
    Nat.pos_of_ne_zero fun hzero => hv (UInt8.toNat_inj.mp hzero)
  have ha' := hpos ha
  have hb' := hpos hb
  have hc' := hpos hc
  have hd' := hpos hd
  intro hzero
  have hmean := toNat_mean_quarters a b c d
  rw [hzero] at hmean
  simp only [UInt8.toNat_zero] at hmean
  omega

namespace Canvas.Covered

variable {c : Canvas}

/-- A covered canvas has a hole. -/
theorem countHoles_pos (h : c.Covered) (harea : 0 < c.area) : 0 < c.countHoles := by
  refine Nat.pos_of_ne_zero fun hzero => ?_
  have hopen := countHoles_eq_zero_iff.mp hzero 0
  rw [h 0 harea] at hopen
  cases hopen

/-- A covered canvas stays covered. -/
theorem halve (h : c.Covered) (hc : c.Consistent) : c.halve.Covered := by
  by_cases hhalvable : c.image.halvable = true
  · intro p hp
    obtain ⟨x, hx, y, hy, rfl⟩ := exists_cell_eq hp
    have hmask : c.mask.halvable = true :=
      (Raster.halvable_congr hc.width_eq hc.height_eq).trans hhalvable
    have hhalf := hc.halve
    have hwidth : c.halve.width = c.mask.halve.width := by
      rw [← hc.mask_halve]
      exact hhalf.width_eq.symm
    have hheight : c.halve.height = c.mask.halve.height := by
      rw [← hc.mask_halve]
      exact hhalf.height_eq.symm
    rw [hwidth] at hx
    rw [hheight] at hy
    -- The four cells of the block are holes, and so is their mean.
    have hblock : ∀ q ∈ c.mask.block x y, c.mask.sample q 0 ≠ 0 := fun q hq => by
      rw [Raster.width_halve hmask] at hx
      rw [Raster.height_halve hmask] at hy
      have hq' : q < c.area := by
        have harea : c.mask.area = c.area := congrArg₂ (· * ·) hc.width_eq hc.height_eq
        exact harea ▸ Raster.lt_area_of_mem_block hx hy hq
      exact hc.isHole_eq q ▸ h q hq'
    rw [hhalf.isHole_eq, hc.mask_halve, cell, hwidth,
      Raster.sample_halve hmask hx hy (Nat.lt_of_lt_of_eq Nat.zero_lt_one hc.depth_mask.symm)]
    simp only [Raster.block, List.forall_mem_cons, List.map_cons, List.map_nil] at hblock ⊢
    exact Blend.mean_quarters_ne_zero hblock.1 hblock.2.1 hblock.2.2.1 hblock.2.2.2.1
  · rw [Canvas.halve, if_neg hhalvable]
    exact h

theorem halved (h : c.Covered) (hc : c.Consistent) (k : Nat) : (c.halved k).Covered := by
  induction k with
  | zero => exact h
  | succ k ih => exact ih.halve (hc.halved k)

/-- Putting known pixels back changes nothing where there are none. -/
theorem image_restore {known : Canvas} (h : known.Covered) (harea : c.area = known.area) :
    (c.restore known).image = c.image := by
  refine Raster.ext_sample rfl rfl rfl fun p hp k hk => ?_
  have hp' : p < c.width * c.height := hp
  have hk' : k < c.layout.size := hk
  show (Raster.generate c.width c.height c.layout _).sample p k = _
  rw [Raster.sample_generate hp' hk', if_pos (h p (Nat.lt_of_lt_of_eq hp' harea))]

end Canvas.Covered

/-! ### Nothing to vote for -/

namespace MatchField

variable {σ : Type} {f : MatchField σ} {zoom : Zoom} {source target : Canvas}

theorem ballotAt_covered (h : source.Covered) (p : Nat) :
    f.ballotAt zoom source target p = [] := by
  refine List.eq_nil_iff_forall_not_mem.mpr fun v hv => ?_
  obtain ⟨hcell, hopen⟩ := cell_of_mem_ballot hv
  rw [h v.cell hcell] at hopen
  cases hopen

/-- A repaint from a covered source leaves the target as it is. -/
theorem eq_of_repaint?_covered (h : source.Covered) {result : Canvas}
    (hrepaint : f.repaint? zoom source target = .ok result) : result = target := by
  rw [← (repaint?_eq_ok_iff.mp hrepaint).1]
  exact repaint_eq_self fun p _ _ => ballotAt_covered h p

end MatchField

/-! ### Turns, levels, runs -/

namespace Filling

open MatchField

variable {σ : Type} [WordSource σ] {scaler : Scaler} {settings : Settings} {f : MatchField σ}

/-- Turns on a covered source change entries and draws only. -/
theorem sameFrame_of_turns {level passes n iteration : Nat} {g : MatchField σ}
    {events : List Event} (hsource : f.source.Covered)
    (h : turns level passes n iteration f = .ok (g, events)) : SameFrame f g := by
  induction n generalizing f iteration events with
  | zero =>
    cases h
    exact .refl _
  | succ n ih =>
    obtain ⟨improved, target, next, _, himprove, hrepaint, hretarget, hturns, -⟩ := turns_cases h
    have himproved := sameFrame_of_improve? himprove
    have hsource' : improved.source.Covered := himproved.source_eq ▸ hsource
    obtain rfl := eq_of_repaint?_covered hsource' hrepaint
    obtain ⟨-, hnext⟩ := sameFrame_of_retarget? hretarget
    have hnext' : SameFrame improved next := hnext
    exact (himproved.trans hnext').trans (ih (hnext'.source_eq ▸ hsource') hturns)

/-- A level of covered canvases ends with the target it began with, at the size of the next. -/
theorem target_of_workLevel {level : Nat} {finer : Canvas} {done : LevelEnd σ}
    (hsource : f.source.Covered) (hfiner : finer.Covered)
    (h : workLevel scaler settings level finer f = .ok done) :
    done.target = f.target.scaleTo scaler finer.width finer.height := by
  obtain ⟨turned, _, hturns, himprove, hrepaint, -⟩ := workLevel_cases h
  have hsame := (sameFrame_of_turns hsource hturns).trans (sameFrame_of_improve? himprove)
  rw [eq_of_repaint?_covered hfiner hrepaint, hsame.target_eq]

/-- Working covered levels is scaling the target of the coarsest one through their sizes. -/
theorem image_of_climb {others : List Canvas} {outcome : Outcome} (hsource : f.source.Covered)
    (hothers : ∀ c ∈ others, c.Covered) (h : climb scaler settings f others = .ok outcome) :
    outcome.canvas.image = f.target.image.scaledThrough scaler others := by
  induction others generalizing f outcome with
  | nil =>
    cases h
    rfl
  | cons finer rest ih =>
    obtain ⟨hfiner, hrest⟩ := List.forall_mem_cons.mp hothers
    obtain ⟨done, hwork, ⟨rfl, rfl⟩ | ⟨-, next, _, hnext, hclimb, rfl⟩⟩ := climb_cases h
    · exact congrArg Canvas.image (target_of_workLevel hsource hfiner hwork)
    · have hsame := sameFrame_of_finer? hnext
      have htarget : next.target = f.target.scaleTo scaler finer.width finer.height :=
        hsame.target_eq.trans (target_of_workLevel hsource hfiner hwork)
      have hsource' : next.source.Covered := hsame.source_eq ▸ hfiner
      rw [ih hsource' hrest hclimb, htarget]
      rfl

omit [WordSource σ] in
/-- The last part of a run from a covered canvas leaves the image as it is. -/
theorem image_of_finish {initial canvas result : Canvas} (hcovered : initial.Covered)
    (h : finish settings initial canvas = .ok result) : result.image = canvas.image := by
  unfold finish at h
  split at h
  · obtain ⟨⟨hwidth, hheight⟩, h⟩ := Fault.unless_bind_eq_ok_iff.mp h
    obtain ⟨-, h⟩ := Fault.unless_bind_eq_ok_iff.mp h
    cases h
    exact hcovered.image_restore (congrArg₂ (· * ·) hwidth hheight)
  · cases h
    rfl

/-- A covered canvas is filled with its coarsest level, scaled through the sizes of all others. -/
theorem image_of_run {start : σ} {initial : Canvas} (hinitial : initial.Within initial)
    (hcovered : initial.Covered) {outcome : Outcome}
    (h : run scaler settings start initial = .ok outcome) :
    let coarsest := (Pyramid.build initial settings.radius).coarsest
    outcome.canvas.image = (initial.halved coarsest).image.scaledThrough scaler
      ((List.range coarsest).map initial.halved).reverse := by
  intro coarsest
  have hlevel (k : Nat) : (initial.halved k).Covered := hcovered.halved hinitial.consistent k
  cases hcoarsest : coarsest with
  | zero =>
    rw [run_of_coarsest_eq_zero hcoarsest] at h
    cases h
    rfl
  | succ n =>
    rw [run_of_coarsest_eq_succ hcoarsest] at h
    obtain ⟨reconstructed, hreconstruct, h⟩ := bind_eq_ok_iff.mp h
    obtain ⟨canvas, hfinish, h⟩ := bind_eq_ok_iff.mp h
    cases h
    obtain ⟨field, hfield, hclimb⟩ := bind_eq_ok_iff.mp hreconstruct
    have hsame := sameFrame_of_scatter? hfield
    have hsource : field.source.Covered := hsame.source_eq ▸ hlevel (n + 1)
    have htarget : field.target = (initial.halved (n + 1)).clearHoles := hsame.target_eq
    have hothers : ∀ c ∈ (List.range (n + 1)).reverse.map initial.halved, c.Covered := by
      intro c hc
      obtain ⟨k, -, rfl⟩ := List.mem_map.mp hc
      exact hlevel k
    show canvas.image = _
    rw [image_of_finish hcovered hfinish, image_of_climb hsource hothers hclimb, htarget,
      List.map_reverse]
    rfl

/-! ### Images under a mask that covers them -/

/-- The filling scales the coarsest level of the pyramid up, through the sizes of all others; the
pyramid goes down until a side is at most the radius. -/
structure ScalesUp (scaler : Scaler) (settings : Settings) (initial : Canvas)
    (finer : List Canvas) (coarsest : Canvas) (filling : Except Failure Outcome) : Prop where
  levels_eq : (Pyramid.build initial settings.radius).levels = finer ++ [coarsest]
  longer : ∀ level ∈ finer, settings.radius < level.width ∧ settings.radius < level.height
  stops : coarsest.width ≤ settings.radius ∨ coarsest.height ≤ settings.radius
  filled : OkUnless (.fault .overflow) filling fun outcome =>
    outcome.canvas.image = coarsest.image.scaledThrough scaler finer.reverse

/-- The pyramid of a covered canvas stops for its sides only. -/
theorem stops_of_covered {radius : Nat} (hradius : 0 < radius) {initial : Canvas}
    (hinitial : initial.Within initial) (hcovered : initial.Covered) :
    let coarsest := initial.halved (Pyramid.build initial radius).coarsest
    coarsest.width ≤ radius ∨ coarsest.height ≤ radius := by
  intro coarsest
  have hhalved := hinitial.halved (Pyramid.build initial radius).coarsest
  have hholes : 0 < coarsest.countHoles :=
    (hcovered.halved hinitial.consistent _).countHoles_pos hhalved.area_pos
  rcases Pyramid.stops_of_not_splits (Pyramid.splits_coarsest initial radius) with
    hwidth | hheight | hnone | hone | hone
  · exact .inl hwidth
  · exact .inr hheight
  · exact absurd hnone (Nat.ne_of_gt hholes)
  · exact .inl (hone ▸ hradius)
  · exact .inr (hone ▸ hradius)

variable (scaler settings) (start : σ)

/-- A filling of an accepted image with a channel ends, unless a number does not fit its word. -/
theorem okUnless_fill? {image mask : Raster} (haccepted : settings.Accepted image mask)
    (hdepth : 0 < image.depth) :
    OkUnless (.fault .overflow) (fill? scaler settings start image mask) fun outcome =>
      run scaler settings start (.ofParts image (mask.threshold settings.threshold)) =
        .ok outcome := by
  refine OkUnless.and_post ?_ fun outcome h => (run_of_fill? h).2
  have hinitial := haccepted.within_threshold settings.threshold
  rw [fill?_of_accepted haccepted, Canvas.checkRows]
  refine (Failure.okUnless_ofFault (Fault.okUnless _ _)).bind fun _ _ => ?_
  exact Failure.okUnless_ofFault
    ((okUnless_run scaler settings start hinitial hdepth haccepted.repaints_pos).mono
      fun _ _ => trivial)

/-- **Without a known pixel, filling is scaling.**  Let an image with at least one channel be
accepted under a mask that is above the threshold everywhere.  Unless a number on the way does not
fit its word, and never where words have room, the filling ends with the image of the coarsest level
of the pyramid, scaled through the sizes of all finer levels in turn, whatever is drawn. -/
theorem fill?_covered {image mask : Raster} (hcheck : settings.check image mask = .ok ())
    (hdepth : 0 < image.depth)
    (hcovered : ∀ p < image.area, settings.threshold < mask.sample p 0) :
    (∃ finer coarsest, ScalesUp scaler settings
      (.ofParts image (mask.threshold settings.threshold)) finer coarsest
      (fill? scaler settings start image mask)) ∧
    (settings.Feasible image mask → ∃ outcome,
      fill? scaler settings start image mask = .ok outcome) := by
  have haccepted := Settings.check_eq_ok_iff.mp hcheck
  have hinitial := haccepted.within_threshold settings.threshold
  have hfill := okUnless_fill? scaler settings start haccepted hdepth
  set initial := Canvas.ofParts image (mask.threshold settings.threshold)
  have hholes : initial.Covered := fun p hp => by
    rw [hinitial.consistent.isHole_threshold]
    exact hcovered p hp
  constructor
  · refine ⟨_, _, ?_, ?_, ?_, hfill.mono fun outcome hrun => image_of_run hinitial hholes hrun⟩
    · rw [Pyramid.levels_build, List.range_succ, List.map_append, List.map_singleton]
    · intro level hlevel
      obtain ⟨k, hk, rfl⟩ := List.mem_map.mp hlevel
      have hsplits := Pyramid.splits_halved (List.mem_range.mp hk)
      simp only [Pyramid.splits, Bool.and_eq_true, decide_eq_true_eq] at hsplits
      exact hsplits.1.1
    · exact stops_of_covered haccepted.radius_pos hinitial hholes
  · intro hfeasible
    obtain ⟨outcome, houtcome, -⟩ := exists_fill? scaler start hfeasible
    exact ⟨outcome, houtcome⟩

/-- Four by four pixels of gray, each of its own shade. -/
def shadedImage : Raster :=
  .generate 4 4 .gray fun p _ => (15 * p).toUInt8

/-- The mask that leaves nothing of them. -/
def fullMask : Raster :=
  .ofHoles 4 4 fun _ _ => true

/-- The canvas that they make is halved twice. -/
theorem levels_shaded :
    let initial := Canvas.ofParts shadedImage (fullMask.threshold 127)
    (Pyramid.build initial 1).levels = [initial, initial.halved 1] ++ [initial.halved 2] := by
  intro initial
  have hcoarsest : (Pyramid.build initial 1).coarsest = 2 :=
    Pyramid.coarsest_eq (by decide +kernel) (by decide +kernel)
  rw [Pyramid.levels_build, hcoarsest]
  rfl

/-- Neither the seed nor the limits nor the choice to keep known pixels show in the result. -/
theorem fill?_covered_shaded :
    let scaled := ((shadedImage.halved 2).scaleTo .triangle 2 2).scaleTo .triangle 4 4
    (∃ outcome, fill? .triangle { radius := 1 } (Keystream.ofSeed 7) shadedImage fullMask =
      .ok outcome ∧ outcome.canvas.image = scaled) ∧
    ∃ outcome, fill? .triangle { radius := 1, keepsKnown := false, maxRepaints := 1 }
      (Keystream.ofSeed 8) shadedImage fullMask = .ok outcome ∧ outcome.canvas.image = scaled := by
  have hcovered : ∀ p < shadedImage.area, 127 < fullMask.sample p 0 := by decide +kernel
  have hscaled {finer : List Canvas} {coarsest : Canvas} (hlevels : (Pyramid.build
      (.ofParts shadedImage (fullMask.threshold 127)) 1).levels = finer ++ [coarsest]) :
      coarsest.image.scaledThrough .triangle finer.reverse =
        ((shadedImage.halved 2).scaleTo .triangle 2 2).scaleTo .triangle 4 4 := by
    obtain ⟨rfl, hcoarsest⟩ := List.append_inj' (hlevels.symm.trans levels_shaded) rfl
    obtain rfl := List.singleton_inj.mp hcoarsest
    rfl
  constructor
  · obtain ⟨⟨finer, coarsest, hscales⟩, hfilled⟩ := fill?_covered .triangle { radius := 1 }
      (Keystream.ofSeed 7) rfl (by decide) hcovered
    obtain ⟨outcome, hfill⟩ := hfilled ⟨rfl, by decide, by decide, by decide, by decide⟩
    exact ⟨outcome, hfill, (hscales.filled.1 outcome hfill).trans (hscaled hscales.levels_eq)⟩
  · obtain ⟨⟨finer, coarsest, hscales⟩, hfilled⟩ := fill?_covered .triangle
      { radius := 1, keepsKnown := false, maxRepaints := 1 } (Keystream.ofSeed 8) rfl (by decide)
      hcovered
    obtain ⟨outcome, hfill⟩ := hfilled ⟨rfl, by decide, by decide, by decide, by decide⟩
    exact ⟨outcome, hfill, (hscales.filled.1 outcome hfill).trans (hscaled hscales.levels_eq)⟩

end Filling

end Retouch
