import Mathlib.Logic.Basic
import Retouch.Proofs.Canvas.Halving
import Retouch.Proofs.Filling.Overflow
import Retouch.Proofs.Filling.Hidden
import Retouch.Proofs.Filling.Total
import Retouch.Proofs.Raster.Black

/-!
# Retouch — Filling — What an observer sees

The events of a run follow a plan that can be told beforehand from the sides of the canvas, the
number of halvings and the settings (`Filling.plan`): all levels from the finest on, then the
repaints of each level from the coarsest on.  The last repaint of a level has the size of the next
finer one already.

A field that starts a level with a target of the level's size, without holes, ends it with a target
of the next finer level's size, again without holes (`Filling.Worked`).  From this the plan of the
climb follows level by level (`Filling.okUnless_climb`).
-/

namespace Retouch

/-- What an observer is told: which event it is, and the size of its canvas. -/
inductive Sight where
  | level (index width height : Nat)
  | repaint (level iteration width height : Nat)
  deriving DecidableEq

namespace Event

/-- What is seen of an event. -/
def sight : Event → Sight
  | .level i canvas => .level i canvas.width canvas.height
  | .repaint l i target => .repaint l i target.width target.height

/-- A target that is shown has no hole left. -/
def Cleared : Event → Prop
  | .level _ _ => True
  | .repaint _ _ target => target.countHoles = 0

end Event

/-! ### The plan -/

namespace Filling

/-- The levels that are worked, in order: `n`, …, 2, 1. -/
def countdown : Nat → List Nat
  | 0 => []
  | n + 1 => (n + 1) :: countdown n

/-- The repaints of a level: all but the last at the size of the level. -/
def levelPlan (settings : Settings) (width height level : Nat) : List Sight :=
  let last := min (2 * level) settings.maxRepaints
  (List.range' 1 last).map fun i =>
    let k := if i < last then level else level - 1
    .repaint level i (width / 2 ^ k) (height / 2 ^ k)

/-- All that is seen of a run, for a canvas of these sides that is halved so many times. -/
def plan (settings : Settings) (width height coarsest : Nat) : List Sight :=
  ((List.range (coarsest + 1)).map fun i => .level i (width / 2 ^ i) (height / 2 ^ i)) ++
    (countdown coarsest).flatMap (levelPlan settings width height)

/-- What happened in a run went as planned. -/
structure Scheduled (settings : Settings) (initial : Canvas) (events : List Event)
    (phases : List Phase) : Prop where
  sights_eq : events.map Event.sight = plan settings initial.width initial.height
    (Pyramid.build initial settings.radius).coarsest
  phases_eq : phases.map Phase.name = "build_pyramid" ::
    (countdown (Pyramid.build initial settings.radius).coarsest).map fun level => s!"level_{level}"

end Filling

/-! ### Targets -/

theorem Canvas.countHoles_clearHoles (c : Canvas) : c.clearHoles.countHoles = 0 := by
  rw [clearHoles, countHoles, Array.count_eq_zero]
  simp

theorem Canvas.Within.halved {c initial : Canvas} (h : c.Within initial) (k : Nat) :
    (c.halved k).Within initial := by
  induction k with
  | zero => exact h
  | succ k ih => exact ih.halve

/-! ### A level -/

namespace Resizing

/-- Canvases of a run that have no hole get none at the sizes of others. -/
def StaysOpen (resize : Resizing) (initial : Canvas) : Prop :=
  ∀ {c size scaled : Canvas}, c.Within initial → size.Within initial → c.countHoles = 0 →
    resize c size.width size.height = .ok scaled → scaled.countHoles = 0

theorem staysOpen_planes {scaler : Scaler} (hscaler : scaler.KeepsBlack)
    (initial : Canvas) : (planes scaler).StaysOpen initial := by
  intro c size scaled hc _ hnone hscaled
  obtain rfl := Canvas.eq_scaleTo_of_scaleTo? hscaled
  exact Canvas.countHoles_scaleTo hscaler hc.consistent hnone _ _

end Resizing

namespace Filling

open MatchField

variable {σ : Type} [WordSource σ] {resize : Resizing} {settings : Settings} {initial : Canvas}
  {radius : Nat} {f g : MatchField σ}

/-- The field `g` carries on at the level of the field `f`: it is ready for the same run, and its
target has the same size, and no hole if that of `f` has none. -/
structure CarriesOn (initial : Canvas) (radius : Nat) (f g : MatchField σ) : Prop where
  ready : g.Ready initial radius
  width_eq : g.width = f.width
  height_eq : g.height = f.height
  cleared : f.target.countHoles = 0 → g.target.countHoles = 0

omit [WordSource σ] in
theorem CarriesOn.trans {h : MatchField σ} (hfg : CarriesOn initial radius f g)
    (hgh : CarriesOn initial radius g h) : CarriesOn initial radius f h :=
  ⟨hgh.ready, hgh.width_eq.trans hfg.width_eq, hgh.height_eq.trans hfg.height_eq,
    fun hnone => hgh.cleared (hfg.cleared hnone)⟩

omit [WordSource σ] in
theorem CarriesOn.of_sameFrame (hf : f.Ready initial radius) (h : SameFrame f g) :
    CarriesOn initial radius f g :=
  ⟨hf.sameFrame h, h.width_eq, h.height_eq, fun hnone => h.target_eq ▸ hnone⟩

omit [WordSource σ] in
theorem CarriesOn.withImage (hf : f.Ready initial radius) {image : Raster}
    (himage : image.SameShape f.target.image) :
    CarriesOn initial radius f { f with target := f.target.withImage image } where
  ready := hf.withTarget (hf.target.withImage himage) himage.width_eq himage.height_eq
  width_eq := himage.width_eq
  height_eq := himage.height_eq
  cleared := id

/-- The turns of a level show targets of its size. -/
theorem okUnless_turns (hf : f.Ready initial radius) (hdepth : 0 < initial.depth)
    (level passes n iteration : Nat) :
    OkUnless .overflow (turns level passes n iteration f) fun done =>
      CarriesOn initial radius f done.1 ∧
      done.2.map Event.sight = ((List.range' iteration n).map fun i =>
        .repaint level i f.width f.height) ∧
      (f.target.countHoles = 0 → ∀ e ∈ done.2, e.Cleared) := by
  induction n generalizing f iteration with
  | zero => exact .ok ⟨⟨hf, rfl, rfl, id⟩, rfl, fun _ _ h => absurd h List.not_mem_nil⟩
  | succ n ih =>
    refine (okUnless_improve? hf hdepth passes).bind fun improved himproved => ?_
    have hfirst := CarriesOn.of_sameFrame hf himproved
    have hready := hfirst.ready
    refine (okUnless_repaint? hready.source hready.target hready.covers_same).bind ?_
    rintro target ⟨image, himage, rfl⟩
    have htarget := hready.target.withImage himage
    refine (okUnless_retarget? hdepth htarget himage.width_eq himage.height_eq).bind ?_
    intro next hnext
    have hpainted := hfirst.trans (CarriesOn.withImage hfirst.ready himage)
    have hnext := hpainted.trans (.of_sameFrame hpainted.ready hnext)
    refine (ih hnext.ready (iteration + 1)).bind fun done hdone => ?_
    obtain ⟨hlast, hsights, hcleared⟩ := hdone
    refine .ok ⟨hnext.trans hlast, ?_, ?_⟩
    · rw [List.range'_succ, List.map_cons, List.map_cons, hsights, hnext.width_eq,
        hnext.height_eq]
      have hw : (improved.target.withImage image).width = f.width := hpainted.width_eq
      have hh : (improved.target.withImage image).height = f.height := hpainted.height_eq
      rw [Event.sight, hw, hh]
    · intro hnone
      refine List.forall_mem_cons.mpr ⟨hpainted.cleared hnone, hcleared (hnext.cleared hnone)⟩

/-- How a level ends: the field is ready for the next one, and the target has the size of the finer
level. -/
structure Worked (resize : Resizing) (settings : Settings) (initial finer : Canvas) (level : Nat)
    (f : MatchField σ) (done : LevelEnd σ) : Prop where
  field : done.field.Ready initial settings.radius
  target : done.target.Within initial
  width_eq : done.target.width = finer.width
  height_eq : done.target.height = finer.height
  sights_eq : done.events.map Event.sight =
    ((List.range' 1 (settings.repaintsAt level - 1)).map fun i =>
      .repaint level i f.width f.height) ++
    [.repaint level (settings.repaintsAt level) finer.width finer.height]
  cleared : resize.StaysOpen initial → f.target.countHoles = 0 →
    done.target.countHoles = 0 ∧ ∀ e ∈ done.events, e.Cleared

/-- A level is worked, however it is resized. -/
theorem okUnless_workLevel (hwithin : resize.StaysWithin initial)
    (hresize : resize.OnlyOverflows initial) (hf : f.Ready initial settings.radius)
    (hdepth : 0 < initial.depth) (level : Nat) {finer : Canvas} (hfiner : finer.Within initial) :
    OkUnless .overflow (resize.workLevel settings level finer f)
      (Worked resize settings initial finer level f) := by
  refine (okUnless_turns hf hdepth level _ _ 1).bind fun turned hturned => ?_
  obtain ⟨hturns, hsights, hcleared⟩ := hturned
  refine (okUnless_improve? hturns.ready hdepth _).bind fun improved himproved => ?_
  have hlast := hturns.trans (.of_sameFrame hturns.ready himproved)
  have hready := hlast.ready
  have henlarge : OkUnless .overflow (resize improved.target finer.width finer.height)
      fun enlarged => resize improved.target finer.width finer.height = .ok enlarged :=
    (hresize hready.target hfiner).and_post fun _ => id
  refine henlarge.bind fun enlarged henlarged => ?_
  obtain ⟨hwithin, hwidth, hheight⟩ := hwithin hready.target hfiner henlarged
  have hcovers : improved.Covers .double enlarged :=
    ⟨hready.target.width_pos, hready.target.height_pos⟩
  refine (okUnless_repaint? hfiner hwithin hcovers).bind ?_
  rintro target ⟨image, himage, rfl⟩
  have hw : (enlarged.withImage image).width = finer.width := himage.width_eq.trans hwidth
  have hh : (enlarged.withImage image).height = finer.height := himage.height_eq.trans hheight
  refine .ok ⟨hready, hwithin.withImage himage, hw, hh, ?_, ?_⟩
  · rw [List.map_append, hsights, List.map_singleton, Event.sight, hw, hh]
  · intro hopens hnone
    have hopen : enlarged.countHoles = 0 :=
      hopens hready.target hfiner (hlast.cleared hnone) henlarged
    refine ⟨hopen, List.forall_mem_append.mpr ⟨hcleared hnone, ?_⟩⟩
    exact List.forall_mem_singleton.mpr hopen

/-! ### From level to level -/

/-- The repaints of a level, when its target and that of the next finer level have these sides. -/
theorem levelPlan_eq {level : Nat} (hrepaints : 0 < settings.repaintsAt level)
    (width height : Nat) : levelPlan settings width height level =
      ((List.range' 1 (settings.repaintsAt level - 1)).map fun i =>
        .repaint level i (width / 2 ^ level) (height / 2 ^ level)) ++
      [.repaint level (settings.repaintsAt level) (width / 2 ^ (level - 1))
        (height / 2 ^ (level - 1))] := by
  obtain ⟨last, hlast⟩ : ∃ last, min (2 * level) settings.maxRepaints = last + 1 :=
    Nat.exists_eq_add_one.mpr hrepaints
  have hrepaint : settings.repaintsAt level = last + 1 := hlast
  rw [levelPlan, hlast, hrepaint, Nat.add_sub_cancel, List.range'_1_concat, List.map_append,
    List.map_singleton, Nat.add_comm 1 last]
  refine congrArg₂ (· ++ ·) (List.map_congr_left fun i hi => ?_) ?_
  · have hi : i < last + 1 := by
      have := (List.mem_range'_1.mp hi).2
      omega
    simp only [hi, if_true]
  · simp only [Nat.lt_irrefl, if_false]

omit [WordSource σ] in
/-- The events of a level are those of its plan. -/
theorem Worked.sights_eq_levelPlan {level : Nat} {done : LevelEnd σ}
    (h : Worked resize settings initial (initial.halved level) (level + 1) f done)
    (hrepaints : 0 < settings.maxRepaints) (hlevel : initial.image.Shrinks level)
    (hw : f.width = initial.width / 2 ^ (level + 1))
    (hh : f.height = initial.height / 2 ^ (level + 1)) : done.events.map Event.sight =
      levelPlan settings initial.width initial.height (level + 1) := by
  have hrepaintsAt : 0 < settings.repaintsAt (level + 1) :=
    Nat.lt_min.mpr ⟨Nat.mul_pos Nat.two_pos (Nat.succ_pos level), hrepaints⟩
  rw [h.sights_eq, levelPlan_eq hrepaintsAt, hw, hh, Nat.add_sub_cancel,
    Canvas.width_halved hlevel, Canvas.height_halved hlevel]

/-- How the climb from a level ends. -/
structure Climbed (resize : Resizing) (settings : Settings) (initial : Canvas) (level : Nat)
    (f : MatchField σ) (outcome : Outcome) : Prop where
  shape : outcome.canvas.image.SameShape initial.image
  sights_eq : outcome.events.map Event.sight =
    (countdown level).flatMap (levelPlan settings initial.width initial.height)
  phases_eq : outcome.phases = (countdown level).map .level
  cleared : resize.StaysOpen initial → f.target.countHoles = 0 → ∀ e ∈ outcome.events, e.Cleared

omit [WordSource σ] in
/-- From the finest level there is nothing left to climb. -/
theorem climbed_zero (himage : f.target.image.SameShape initial.image) :
    Climbed resize settings initial 0 f ⟨f.target, [], []⟩ where
  shape := himage
  sights_eq := rfl
  phases_eq := rfl
  cleared := fun _ _ _ he => absurd he List.not_mem_nil

omit [WordSource σ] in
/-- A level is worked, and the climb goes on from the target it ends with. -/
theorem Worked.climbed {level : Nat} {done : LevelEnd σ} {outcome : Outcome}
    (h : Worked resize settings initial (initial.halved level) (level + 1) f done)
    (hsights : done.events.map Event.sight =
      levelPlan settings initial.width initial.height (level + 1))
    (htarget : g.target = done.target) (hrest : Climbed resize settings initial level g outcome) :
    Climbed resize settings initial (level + 1) f
      ⟨outcome.canvas, done.events ++ outcome.events, .level (level + 1) :: outcome.phases⟩ where
  shape := hrest.shape
  sights_eq := by rw [List.map_append, hsights, hrest.sights_eq, countdown, List.flatMap_cons]
  phases_eq := by rw [hrest.phases_eq, countdown, List.map_cons]
  cleared := by
    intro hopens hnone
    obtain ⟨hdone, hevents⟩ := h.cleared hopens hnone
    exact List.forall_mem_append.mpr ⟨hevents, hrest.cleared hopens (htarget ▸ hdone)⟩

/-- The climb from a level follows the plan. -/
theorem okUnless_climb (hwithin : resize.StaysWithin initial)
    (hresize : resize.OnlyOverflows initial) (hinitial : initial.Within initial)
    (hdepth : 0 < initial.depth) (hrepaints : 0 < settings.maxRepaints) {level : Nat}
    (hlevel : initial.image.Shrinks level) (hf : f.Ready initial settings.radius)
    (hw : f.width = initial.width / 2 ^ level) (hh : f.height = initial.height / 2 ^ level) :
    OkUnless .overflow
      (resize.climb settings f ((List.range level).reverse.map initial.halved))
      (Climbed resize settings initial level f) := by
  induction level generalizing f with
  | zero =>
    rw [Nat.pow_zero, Nat.div_one] at hw hh
    exact .ok (climbed_zero ⟨hw, hh, hf.target.layout_eq⟩)
  | succ level ih =>
    have hle := hlevel.mono (Nat.le_succ level)
    have hfiner := hinitial.halved level
    have hfiner_width := Canvas.width_halved hle
    have hfiner_height := Canvas.height_halved hle
    have hwork := okUnless_workLevel hwithin hresize hf hdepth (level + 1) hfiner
    rw [List.range_succ, List.reverse_append, List.reverse_singleton, List.singleton_append,
      List.map_cons]
    cases level with
    | zero =>
      rw [List.range_zero, List.reverse_nil, List.map_nil, Resizing.climb_last]
      refine hwork.bind fun done hdone => .ok ?_
      have hsights := hdone.sights_eq_levelPlan hrepaints hle hw hh
      have hfinest : Climbed resize settings initial 0 { done.field with target := done.target }
          ⟨done.target, [], []⟩ :=
        climbed_zero ⟨hdone.width_eq, hdone.height_eq, hdone.target.layout_eq⟩
      have hclimbed := hdone.climbed hsights rfl hfinest
      rwa [List.append_nil] at hclimbed
    | succ level =>
      have hrest : (List.range (level + 1)).reverse.map initial.halved ≠ [] := by simp
      have hlength : ((List.range (level + 1)).reverse.map initial.halved).length = level + 1 := by
        simp
      rw [Resizing.climb_next f _ hrest, hlength]
      refine hwork.bind fun done hdone => ?_
      refine (okUnless_finer? hdone.field hdepth hdone.target hfiner).bind fun next hnext => ?_
      have hready := (hdone.field.seeded hdone.target hfiner).sameFrame hnext
      have hwidth : next.width = done.target.width := hnext.width_eq
      have hheight : next.height = done.target.height := hnext.height_eq
      refine (ih hle hready (by rw [hwidth, hdone.width_eq, hfiner_width])
        (by rw [hheight, hdone.height_eq, hfiner_height])).bind fun outcome houtcome => .ok ?_
      have hsights := hdone.sights_eq_levelPlan hrepaints hle hw hh
      exact hdone.climbed hsights hnext.target_eq houtcome

/-! ### The levels shown -/

/-- The levels of a pyramid, one by one. -/
theorem levelEvents_build (c : Canvas) (radius : Nat) : levelEvents (.build c radius) =
    (List.range ((Pyramid.build c radius).coarsest + 1)).map fun k => .level k (c.halved k) := by
  refine List.ext_getElem (by simp [levelEvents, Pyramid.levels_build]) fun k hk hk' => ?_
  simp [levelEvents, Pyramid.levels_build]

/-- The levels are seen with the sides of the canvas halved over and over. -/
theorem sights_levelEvents (c : Canvas) (radius : Nat) :
    (levelEvents (.build c radius)).map Event.sight =
      (List.range ((Pyramid.build c radius).coarsest + 1)).map fun i =>
        .level i (c.width / 2 ^ i) (c.height / 2 ^ i) := by
  rw [levelEvents_build, List.map_map]
  refine List.map_congr_left fun k hk => ?_
  have hlevel : k ≤ (Pyramid.build c radius).coarsest :=
    Nat.le_of_lt_succ (List.mem_range.mp hk)
  rw [Function.comp_apply, Event.sight, Pyramid.width_level hlevel, Pyramid.height_level hlevel]

omit [WordSource σ] in
theorem cleared_levelEvents (pyramid : Pyramid) : ∀ e ∈ levelEvents pyramid, e.Cleared := by
  intro e he
  obtain ⟨⟨canvas, i⟩, -, rfl⟩ := List.mem_map.mp he
  trivial

/-- The list of halvings, taken apart at its coarsest level. -/
theorem descend_eq_append {n : Nat} (h : (Pyramid.build initial radius).coarsest = n + 1) :
    Pyramid.descend radius initial =
      ((List.range n).map fun k => initial.halved (k + 1)) ++ [initial.halved (n + 1)] := by
  have hlength : (Pyramid.descend radius initial).length = n + 1 := h
  rw [Pyramid.descend_eq, hlength, List.range_succ, List.map_append, List.map_singleton]

/-- The way back from the coarsest level. -/
theorem reverse_halvings (c : Canvas) (n : Nat) :
    ((List.range n).map fun k => c.halved (k + 1)).reverse ++ [c] =
      (List.range (n + 1)).reverse.map c.halved := by
  rw [List.range_succ_eq_map, List.reverse_cons, List.map_append, List.map_singleton,
    ← List.map_reverse, ← List.map_reverse, List.map_map]
  rfl

variable (settings)

theorem okUnless_coarsestField? (start : σ) {level : Canvas} (hlevel : level.Within initial)
    (hdepth : 0 < initial.depth) :
    OkUnless .overflow (coarsestField? settings start level) fun f =>
      f.Ready initial settings.radius ∧ f.target = level.clearHoles := by
  have hstart : (MatchField.start ⟨level.clearHoles, level, settings.radius⟩ start).Ready
      initial settings.radius := ready_start hlevel.clearHoles hlevel start
  exact (okUnless_scatter? hstart hdepth).mono fun f hf => ⟨hstart.sameFrame hf, hf.target_eq⟩

end Filling

/-! ### Flags behind the last pixel -/

namespace Canvas

variable {c : Canvas}

/-- The canvas with the flags of its mask, and no others. -/
def trimmed (c : Canvas) : Canvas :=
  .ofParts c.image c.mask

theorem Consistent.trimmed_eq (h : c.Consistent) : c.trimmed = c := by
  rw [trimmed, ofParts, ← h.holes_eq]

/-- A canvas that a run can start from.  Wherever it has a pixel, its flags are those of its mask;
behind the last pixel there may be more of them. -/
structure Fillable (c : Canvas) : Prop where
  inside : c.AgreeInside c.trimmed
  within : c.trimmed.Within c.trimmed

theorem Within.fillable (h : c.Within c) : c.Fillable := by
  have htrimmed : c.trimmed = c := h.consistent.trimmed_eq
  rw [← htrimmed] at h
  exact ⟨htrimmed.symm ▸ AgreeInside.refl c, h⟩

/-- Halving looks at the rasters only. -/
theorem halved_trimmed (h : c.image.halvable = true) (k : Nat) :
    c.halved (k + 1) = c.trimmed.halved (k + 1) := by
  induction k with
  | zero =>
    have hhalve : c.halve = ofParts c.image.halve c.mask.halve := if_pos h
    have htrimmed : c.trimmed.halve = ofParts c.image.halve c.mask.halve := if_pos h
    exact hhalve.trans htrimmed.symm
  | succ k ih => exact congrArg Canvas.halve ih

end Canvas

/-! ### Runs -/

namespace Resizing

open Filling

variable {σ : Type} [WordSource σ] {resize : Resizing} {settings : Settings} {initial : Canvas}
  {start : σ}

/-- A canvas that is not halved comes back as it is. -/
theorem run_of_coarsest_eq_zero (h : (Pyramid.build initial settings.radius).coarsest = 0) :
    resize.run settings start initial =
      .ok ⟨initial, levelEvents (.build initial settings.radius), [.pyramid]⟩ :=
  run_of_descend_eq_nil (List.length_eq_zero_iff.mp h)

/-- Otherwise the halvings of its rasters are worked, from the coarsest one down to the canvas
itself.  No level is without a pixel, so flags behind the last pixel are not looked at. -/
theorem run_of_coarsest_eq_succ (hinside : initial.AgreeInside initial.trimmed) {n : Nat}
    (h : (Pyramid.build initial settings.radius).coarsest = n + 1) :
    resize.run settings start initial = do
      let outcome ← resize.reconstruct settings start (initial.trimmed.halved (n + 1))
        ((List.range (n + 1)).reverse.map initial.trimmed.halved)
      let canvas ← finish settings initial outcome.canvas
      return ⟨canvas, levelEvents (.build initial settings.radius) ++ outcome.events,
        .pyramid :: outcome.phases⟩ := by
  have hshrinks : initial.image.Shrinks (n + 1) := Pyramid.shrinks_of_le (Nat.le_of_eq h.symm)
  have hhalvable : initial.image.halvable = true := hshrinks 0 (Nat.succ_pos n)
  have hlevels : ((List.range n).map fun k => initial.halved (k + 1)) =
      (List.range n).map fun k => initial.trimmed.halved (k + 1) :=
    List.map_congr_left fun k _ => Canvas.halved_trimmed hhalvable k
  rw [run_of_descend (descend_eq_append h), hlevels, Canvas.halved_trimmed hhalvable,
    reconstruct_congr resize settings hinside, reverse_halvings]

variable (settings) (start)

theorem okUnless_run (hwithin : resize.StaysWithin initial.trimmed)
    (hresize : resize.OnlyOverflows initial.trimmed) (hinitial : initial.Fillable)
    (hdepth : 0 < initial.depth) (hrepaints : 0 < settings.maxRepaints) :
    OkUnless .overflow (resize.run settings start initial) fun outcome =>
      outcome.canvas.image.SameShape initial.image ∧
      Scheduled settings initial outcome.events outcome.phases ∧
      (resize.StaysOpen initial.trimmed → ∀ e ∈ outcome.events, e.Cleared) := by
  cases hcoarsest : (Pyramid.build initial settings.radius).coarsest with
  | zero =>
    rw [run_of_coarsest_eq_zero hcoarsest]
    refine .ok ⟨.refl _, ⟨?_, ?_⟩, fun _ => cleared_levelEvents _⟩
    · rw [sights_levelEvents, plan, hcoarsest]
      rfl
    · rw [hcoarsest]
      rfl
  | succ n =>
    have hlevel : initial.image.Shrinks (n + 1) :=
      Pyramid.shrinks_of_le (Nat.le_of_eq hcoarsest.symm)
    have hhalved := hinitial.within.halved (n + 1)
    rw [run_of_coarsest_eq_succ hinitial.inside hcoarsest, reconstruct, bind_assoc]
    refine (okUnless_coarsestField? settings start hhalved hdepth).bind ?_
    rintro field ⟨hfield, htarget⟩
    have hwidth : field.width = initial.trimmed.width / 2 ^ (n + 1) := by
      rw [MatchField.width, htarget]
      exact Canvas.width_halved (c := initial.trimmed) hlevel
    have hheight : field.height = initial.trimmed.height / 2 ^ (n + 1) := by
      rw [MatchField.height, htarget]
      exact Canvas.height_halved (c := initial.trimmed) hlevel
    have hclimb := okUnless_climb hwithin hresize hinitial.within hdepth hrepaints hlevel hfield
      hwidth hheight
    refine hclimb.bind fun outcome houtcome => ?_
    obtain ⟨canvas, hfinish, hshape⟩ := @finish_sameShape initial _ houtcome.shape settings
    rw [hfinish]
    refine .ok ⟨hshape, ⟨?_, ?_⟩, fun hopens => ?_⟩
    · rw [List.map_append, sights_levelEvents, houtcome.sights_eq, plan, hcoarsest]
      rfl
    · rw [List.map_cons, houtcome.phases_eq, List.map_map, hcoarsest]
      rfl
    · have hnone : field.target.countHoles = 0 := htarget ▸ Canvas.countHoles_clearHoles _
      exact List.forall_mem_append.mpr ⟨cleared_levelEvents _, houtcome.cleared hopens hnone⟩

end Resizing

namespace Filling

variable {σ : Type} [WordSource σ] {scaler : Scaler} {settings : Settings} {initial : Canvas}
  {start : σ}

theorem run_of_coarsest_eq_zero (h : (Pyramid.build initial settings.radius).coarsest = 0) :
    run scaler settings start initial =
      .ok ⟨initial, levelEvents (.build initial settings.radius), [.pyramid]⟩ :=
  run_of_descend_eq_nil (List.length_eq_zero_iff.mp h)

/-- The run of a canvas that is halved, with the levels as they are listed. -/
theorem run_of_coarsest_eq_succ {n : Nat}
    (h : (Pyramid.build initial settings.radius).coarsest = n + 1) :
    run scaler settings start initial = do
      let outcome ← reconstruct scaler settings start (initial.halved (n + 1))
        ((List.range (n + 1)).reverse.map initial.halved)
      let canvas ← finish settings initial outcome.canvas
      return ⟨canvas, levelEvents (.build initial settings.radius) ++ outcome.events,
        .pyramid :: outcome.phases⟩ := by
  rw [run_of_descend (descend_eq_append h), reverse_halvings]

variable (scaler settings) (start)

theorem okUnless_run (hinitial : initial.Within initial) (hdepth : 0 < initial.depth)
    (hrepaints : 0 < settings.maxRepaints) :
    OkUnless .overflow (run scaler settings start initial) fun outcome =>
      outcome.canvas.image.SameShape initial.image ∧
      Scheduled settings initial outcome.events outcome.phases ∧
      (scaler.KeepsBlack → ∀ e ∈ outcome.events, e.Cleared) := by
  have hrun := Resizing.okUnless_run settings start (Resizing.staysWithin_planes scaler _)
    (Resizing.onlyOverflows_planes scaler _) hinitial.fillable hdepth hrepaints
  exact hrun.mono fun outcome h =>
    ⟨h.1, h.2.1, fun hscaler => h.2.2 (Resizing.staysOpen_planes hscaler _)⟩

/-- An accepted canvas is halved at least once exactly when a flag is set. -/
theorem coarsest_eq_zero_iff_countHoles {mask : Raster}
    (haccepted : settings.Accepted initial.image mask) :
    (Pyramid.build initial settings.radius).coarsest = 0 ↔ initial.countHoles = 0 := by
  constructor
  · intro hzero
    refine Canvas.countHoles_eq_zero_iff.mpr fun p => ?_
    refine haccepted.isHole_eq_false (Bool.eq_false_iff.mpr fun hsplits => ?_) p
    have hfirst : 1 ≤ (Pyramid.build initial settings.radius).coarsest :=
      Pyramid.le_coarsest fun i hi => Nat.lt_one_iff.mp hi ▸ hsplits
    omega
  · intro hnone
    have hsplits := Pyramid.splits_of_countHoles_eq_zero hnone settings.radius
    exact Pyramid.coarsest_eq (fun i hi => absurd hi (Nat.not_lt_zero i)) hsplits

/-- It is halved at least once exactly when it has a hole. -/
theorem coarsest_eq_zero_iff {mask : Raster} (haccepted : settings.Accepted initial.image mask)
    (hconsistent : initial.Consistent) :
    (Pyramid.build initial settings.radius).coarsest = 0 ↔
      ∀ p < initial.area, ¬ initial.isHole p = true := by
  simp only [Bool.not_eq_true]
  rw [← hconsistent.countHoles_eq_zero_iff]
  exact coarsest_eq_zero_iff_countHoles settings haccepted

end Filling

end Retouch
