import Retouch.Proofs.Filling.Composite
import Retouch.Proofs.Filling.Covered
import Retouch.Proofs.Raster.Range

/-!
# Retouch — Filling — Opacity

A channel that carries no colour is never voted on: a repaint leaves its samples
(`MatchField.sample_repaint_of_alpha`).  What changes them on the way is halving, scaling and the
known pixels that are put back at the end, and each of these stays in the range of the channel.  So
the targets of a level stay in the range (`Filling.spans_of_turns`, `Filling.spans_of_workLevel`),
those of all levels do (`Filling.spans_of_climb`), and the opacity of a filling lies between the
smallest and the largest opacity of the image (`Filling.fill?_opacity`).

Colours, which do follow the votes, need not stay in range and are not looked at.
-/

namespace Retouch

/-- An opacity is the channel of a pixel. -/
theorem Canvas.lt_depth_of_alpha {c : Canvas} {k : Nat} (hk : c.layout[k]? = some .alpha) :
    k < c.depth :=
  (Array.getElem?_eq_some_iff.mp hk).1

/-- Putting known pixels back stays in the range of a channel of theirs. -/
theorem Canvas.spans_restore {c known : Canvas} {k : Nat}
    (hshape : c.image.SameShape known.image) (hk : k < known.depth)
    (h : known.image.Spans c.image k) : known.image.Spans (c.restore known).image k := by
  intro p hp
  have hp' : p < c.area := hp
  rw [sample_restore hshape (Nat.lt_of_lt_of_eq hp' hshape.area_eq) hk]
  split
  · exact h p hp'
  · exact Raster.spans_sample (Nat.lt_of_lt_of_eq hp' hshape.area_eq)

namespace MatchField

variable {σ : Type} {f : MatchField σ} {zoom : Zoom} {source target result : Canvas} {k : Nat}

/-- Nothing is voted on an opacity. -/
theorem sample_repaint_of_alpha (hk : target.layout[k]? = some .alpha) {p : Nat}
    (hp : p < target.area) :
    (f.repaint zoom source target).image.sample p k = target.image.sample p k := by
  have hcolor : (target.layout.getD k .alpha).isColor = false := by
    rw [Array.getD_eq_getD_getElem?, hk]
    rfl
  exact sample_repaint_of_not_isColor hp (Canvas.lt_depth_of_alpha hk) hcolor

theorem spans_of_repaint? {r : Raster} (hk : target.layout[k]? = some .alpha)
    (htarget : r.Spans target.image k) (h : f.repaint? zoom source target = .ok result) :
    r.Spans result.image k := by
  obtain ⟨rfl, -⟩ := repaint?_eq_ok_iff.mp h
  exact htarget.congr rfl fun p hp => sample_repaint_of_alpha hk hp

end MatchField

/-! ### Turns, levels, runs -/

namespace Filling

open MatchField

variable {σ : Type} [WordSource σ] {scaler : Scaler} {settings : Settings} {f : MatchField σ}
  {initial : Canvas} {radius k : Nat}

theorem spans_of_turns {r : Raster} {level passes n iteration : Nat} {g : MatchField σ}
    {events : List Event} (hf : f.Ready initial radius) (hk : initial.layout[k]? = some .alpha)
    (htarget : r.Spans f.target.image k)
    (h : turns level passes n iteration f = .ok (g, events)) : r.Spans g.target.image k := by
  -- A turn repaints the target it finds; the field that holds it stays ready.
  induction n generalizing f iteration events with
  | zero =>
    cases h
    exact htarget
  | succ n ih =>
    obtain ⟨improved, target, next, _, himprove, hrepaint, hretarget, hturns, -⟩ := turns_cases h
    have hsame := sameFrame_of_improve? himprove
    have himproved := hf.sameFrame hsame
    obtain ⟨hwithin, -⟩ := within_of_repaint? himproved.target hrepaint
    have hrepainted : r.Spans target.image k :=
      spans_of_repaint? (himproved.target.layout_eq ▸ hk) (hsame.target_eq ▸ htarget) hrepaint
    have hnext : next.target = target := (sameFrame_of_retarget? hretarget).2.target_eq
    exact ih (ready_of_retarget? himproved hwithin hretarget) (hnext ▸ hrepainted) hturns

/-- A level hands on a target that is in range, at the size of the next. -/
theorem spans_of_workLevel (hscaler : scaler.KeepsRange) {r : Raster} {level : Nat}
    {finer : Canvas} {done : LevelEnd σ} (hf : f.Ready initial radius)
    (hfiner : finer.Within initial) (hk : initial.layout[k]? = some .alpha)
    (htarget : r.Spans f.target.image k)
    (h : workLevel scaler settings level finer f = .ok done) : r.Spans done.target.image k := by
  obtain ⟨turned, _, hturns, himprove, hrepaint, -⟩ := workLevel_cases h
  have hsame := sameFrame_of_improve? himprove
  have himproved := ((ready_of_turns hf hturns).sameFrame hsame).target
  have hkimproved : done.field.target.layout[k]? = some .alpha := himproved.layout_eq ▸ hk
  have hturned : r.Spans done.field.target.image k :=
    hsame.target_eq ▸ spans_of_turns hf hk htarget hturns
  have henlarged : r.Spans (done.field.target.scaleTo scaler finer.width finer.height).image k :=
    hturned.trans (Raster.spans_scaleTo hscaler himproved.area_pos
      (Canvas.lt_depth_of_alpha hkimproved) _ _)
  exact spans_of_repaint? ((himproved.scaleTo hfiner scaler).layout_eq ▸ hk) henlarged hrepaint

theorem spans_of_climb (hscaler : scaler.KeepsRange) {r : Raster} {others : List Canvas}
    {outcome : Outcome} (hf : f.Ready initial radius) (hothers : ∀ c ∈ others, c.Within initial)
    (hk : initial.layout[k]? = some .alpha) (htarget : r.Spans f.target.image k)
    (h : climb scaler settings f others = .ok outcome) : r.Spans outcome.canvas.image k := by
  induction others generalizing f outcome with
  | nil =>
    cases h
    exact htarget
  | cons finer rest ih =>
    obtain ⟨hfiner, hrest⟩ := List.forall_mem_cons.mp hothers
    obtain ⟨done, hwork, ⟨rfl, rfl⟩ | ⟨-, next, _, hnext, hclimb, rfl⟩⟩ := climb_cases h
    · exact spans_of_workLevel hscaler hf hfiner hk htarget hwork
    · obtain ⟨hfield, hwithin, -⟩ := ready_of_workLevel hf hfiner hwork
      have hdone : r.Spans done.target.image k :=
        spans_of_workLevel hscaler hf hfiner hk htarget hwork
      have hnext' : next.target = done.target := (sameFrame_of_finer? hnext).target_eq
      have hcanvas := ih (ready_of_finer? hfield hwithin hfiner hnext) hrest (hnext' ▸ hdone) hclimb
      exact hcanvas

omit [WordSource σ] in
/-- The last part of a run puts samples of the image itself back, or none. -/
theorem spans_of_finish {canvas result : Canvas} (hshape : result.image.SameShape initial.image)
    (hk : k < initial.depth) (hspans : initial.image.Spans canvas.image k)
    (h : finish settings initial canvas = .ok result) :
    initial.image.Spans result.image k := by
  unfold finish at h
  split at h
  · obtain ⟨-, h⟩ := Fault.unless_bind_eq_ok_iff.mp h
    obtain ⟨-, h⟩ := Fault.unless_bind_eq_ok_iff.mp h
    cases h
    exact Canvas.spans_restore ⟨hshape.width_eq, hshape.height_eq, hshape.layout_eq⟩ hk hspans
  · cases h
    exact hspans

/-- A run stays in the range of an opacity. -/
theorem spans_of_run (hscaler : scaler.KeepsRange) {start : σ} {outcome : Outcome}
    (hinitial : initial.Within initial) (hk : initial.layout[k]? = some .alpha)
    (h : run scaler settings start initial = .ok outcome) :
    initial.image.Spans outcome.canvas.image k := by
  have hdepth := Canvas.lt_depth_of_alpha hk
  cases hcoarsest : (Pyramid.build initial settings.radius).coarsest with
  | zero =>
    rw [run_of_coarsest_eq_zero hcoarsest] at h
    cases h
    exact .refl initial.image k
  | succ n =>
    have hshape := sameShape_of_run hinitial h
    rw [run_of_coarsest_eq_succ hcoarsest] at h
    obtain ⟨reconstructed, hreconstruct, h⟩ := bind_eq_ok_iff.mp h
    obtain ⟨canvas, hfinish, h⟩ := bind_eq_ok_iff.mp h
    cases h
    obtain ⟨field, hfield, hclimb⟩ := bind_eq_ok_iff.mp hreconstruct
    -- The coarsest target is a halving of the image, and the other levels are canvases of the run.
    have hready := ready_of_coarsestField? (hinitial.halved (n + 1)) hfield
    have htarget : field.target.image = initial.image.halved (n + 1) := by
      rw [(sameFrame_of_scatter? hfield).target_eq, ← Canvas.image_halved]
      rfl
    have hothers : ∀ c ∈ (List.range (n + 1)).reverse.map initial.halved, c.Within initial := by
      intro c hc
      obtain ⟨i, -, rfl⟩ := List.mem_map.mp hc
      exact hinitial.halved i
    have hclimbed : initial.image.Spans reconstructed.canvas.image k :=
      spans_of_climb hscaler hready hothers hk (htarget ▸ Raster.spans_halved hdepth (n + 1)) hclimb
    exact spans_of_finish hshape hdepth hclimbed hfinish

variable (scaler settings) (start : σ)

/-- **Opacity stays in the range of the image.**  Let an image be accepted that has a channel of
opacity, wherever in its layout, and let scaling bring no plane out of its range.  Unless a number
on the way does not fit its word, and never where words have room, the filling ends with samples of
that channel between the smallest and the largest of the image, in holes and elsewhere; an opacity
that is the same everywhere stays what it is. -/
theorem fill?_opacity (hscaler : scaler.KeepsRange) {image mask : Raster}
    (hcheck : settings.check image mask = .ok ()) {k : Nat}
    (hk : image.layout[k]? = some .alpha) :
    OkUnless (.fault .overflow) (fill? scaler settings start image mask) (fun outcome =>
      outcome.canvas.image.SameShape image ∧ image.Spans outcome.canvas.image k ∧
        ∀ v, (∀ p < image.area, image.sample p k = v) →
          ∀ p < image.area, outcome.canvas.image.sample p k = v) ∧
    (settings.Feasible image mask → ∃ outcome,
      fill? scaler settings start image mask = .ok outcome) := by
  have haccepted := Settings.check_eq_ok_iff.mp hcheck
  have hinitial := haccepted.within_threshold settings.threshold
  have hdepth : 0 < image.depth := Nat.zero_lt_of_lt (Array.getElem?_eq_some_iff.mp hk).1
  constructor
  · refine (okUnless_fill? scaler settings start haccepted hdepth).mono fun outcome hrun => ?_
    have hshape : outcome.canvas.image.SameShape image := sameShape_of_run hinitial hrun
    have hspans : image.Spans outcome.canvas.image k := spans_of_run hscaler hinitial hk hrun
    refine ⟨hshape, hspans, fun v hv p hp => hspans.sample_eq hv ?_⟩
    exact Nat.lt_of_lt_of_eq hp hshape.area_eq.symm
  · intro hfeasible
    obtain ⟨outcome, houtcome, -⟩ := exists_fill? scaler start hfeasible
    exact ⟨outcome, houtcome⟩

/-- Three by two gray pixels behind a veil; their opacity comes first. -/
def veiledImage (opacity : Nat → UInt8) : Raster :=
  .generate 3 2 #[.alpha, .color] fun p c => if c = 0 then opacity p else 40

/-- The mask of their first cell. -/
def cornerMask : Raster :=
  .ofHoles 3 2 fun x y => x == 0 && y == 0

/-- The coarsest level has one pixel, of colour 40 and without a hole.  Its opacity is 140 or 90,
and what the triangle filter makes of such a pixel it makes restrained as well.  Opacities that
differ stay between 100 and 200, and one for all stays 90. -/
theorem fill?_opacity_veiled :
    (∀ v ∈ [0, 40, 90, 140], Scaler.triangle.restrained.scale 1 1 #[v] 3 2 =
      Scaler.triangle.scale 1 1 #[v] 3 2) ∧
    (∃ outcome, fill? Scaler.triangle.restrained { radius := 1 } (Keystream.ofSeed 7)
      (veiledImage fun p => 100 + 20 * p.toUInt8) cornerMask = .ok outcome ∧
      ∀ p < 6, 100 ≤ outcome.canvas.image.sample p 0 ∧ outcome.canvas.image.sample p 0 ≤ 200) ∧
    ∃ outcome, fill? Scaler.triangle.restrained { radius := 1, keepsKnown := false }
      (Keystream.ofSeed 8) (veiledImage fun _ => 90) cornerMask = .ok outcome ∧
      ∀ p < 6, outcome.canvas.image.sample p 0 = 90 := by
  have hscaler := Scaler.keepsRange_restrained .triangle
  have hopacity (opacity : Nat → UInt8) : (veiledImage opacity).layout[0]? = some .alpha := rfl
  have hcheck (keepsKnown : Bool) (opacity : Nat → UInt8) :
      ({ radius := 1, keepsKnown } : Settings).check (veiledImage opacity) cornerMask = .ok () :=
    rfl
  refine ⟨by decide +kernel, ?_, ?_⟩
  · obtain ⟨hfill, hfilled⟩ := fill?_opacity Scaler.triangle.restrained { radius := 1 }
      (Keystream.ofSeed 7) hscaler (hcheck true fun p => 100 + 20 * p.toUInt8) (hopacity _)
    obtain ⟨outcome, houtcome⟩ := hfilled ⟨rfl, by decide, by decide, by decide, by decide⟩
    refine ⟨outcome, houtcome, fun p hp => ?_⟩
    obtain ⟨hshape, hspans, -⟩ := hfill.1 outcome houtcome
    obtain ⟨⟨a, ha, hle⟩, ⟨b, hb, hge⟩⟩ := hspans p (Nat.lt_of_lt_of_eq hp hshape.area_eq.symm)
    have hbounds : ∀ q < 6, 100 ≤ (veiledImage fun p => 100 + 20 * p.toUInt8).sample q 0 ∧
        (veiledImage fun p => 100 + 20 * p.toUInt8).sample q 0 ≤ 200 := by decide
    exact ⟨UInt8.le_trans (hbounds a ha).1 hle, UInt8.le_trans hge (hbounds b hb).2⟩
  · obtain ⟨hfill, hfilled⟩ := fill?_opacity Scaler.triangle.restrained
      { radius := 1, keepsKnown := false } (Keystream.ofSeed 8) hscaler
      (hcheck false fun _ => 90) (hopacity _)
    obtain ⟨outcome, houtcome⟩ := hfilled ⟨rfl, by decide, by decide, by decide, by decide⟩
    exact ⟨outcome, houtcome, (hfill.1 outcome houtcome).2.2 90 (by decide)⟩

end Filling

end Retouch
