import Mathlib.Data.List.Forall2
import Retouch.Proofs.Filling.Measurable
import Retouch.Proofs.Matching.Hidden

/-!
# Retouch — Filling — Faint masks

A filling reads the mask of a level through its holes only, and the targets have masks of their own.
So two canvases with one image whose pyramids have the same holes are filled alike, even if the
samples of their masks differ (`Filling.alike_run`).

An image is filled under the mask cut at the threshold, a canvas under its mask as it is.  A mask of
0 and 255 is its own cut.  The holes of a fainter one may fade earlier, because halving rounds their
samples to zero, and then the two ways part (`Filling.fill?_faintMask`).
-/

namespace Retouch

/-! ### Canvases that differ in their masks -/

/-- The raster with all samples set to zero. -/
theorem Raster.map_zero (r : Raster) : (r.map fun _ => 0) = blank r.width r.height r.layout := by
  have hsamples : (r.samples.map fun _ => (0 : UInt8)) =
      Array.replicate (r.width * r.height * r.layout.size) 0 := by
    rw [Array.map_const', r.size_eq]
  simp only [map, blank, hsamples]

theorem Canvas.Agree.refl (c : Canvas) : c.Agree c :=
  ⟨.refl c.image, rfl, fun _ _ _ _ _ => rfl⟩

/-- One image and the same holes, under masks of one shape. -/
structure Canvas.Twins (c c' : Canvas) : Prop where
  image_eq : c.image = c'.image
  holes_eq : c.holes = c'.holes
  mask_shape : c.mask.SameShape c'.mask

namespace Canvas.Twins

variable {c c' : Canvas}

theorem agree (h : c.Twins c') : c.Agree c' where
  shape := h.image_eq ▸ .refl c.image
  holes_eq := h.holes_eq
  sample_eq := fun _ _ _ _ _ => h.image_eq ▸ rfl

/-- Without their holes they are one canvas. -/
theorem clearHoles_eq (h : c.Twins c') : c.clearHoles = c'.clearHoles := by
  rw [clearHoles, clearHoles, Raster.map_zero, Raster.map_zero, h.mask_shape.width_eq,
    h.mask_shape.height_eq, h.mask_shape.layout_eq, h.image_eq, h.holes_eq]

end Canvas.Twins

/-! ### Fields that differ in their sources -/

namespace MatchField

variable {σ : Type} {f g : MatchField σ}

/-- The fields agree, and they have the same target: at most their sources differ. -/
structure Twins (f g : MatchField σ) : Prop where
  agree : f.Agree g
  target_eq : f.target = g.target

namespace Twins

theorem repaint?_eq (h : Twins f g) {source source' : Canvas} (hs : source.Agree source')
    (zoom : Zoom) (target : Canvas) :
    f.repaint? zoom source target = g.repaint? zoom source' target := by
  rw [repaint?_congr f zoom target hs.inside]
  -- A repaint does not read the source of the field at all.
  obtain ⟨⟨t, s, r⟩, entries, draws⟩ := f
  obtain ⟨⟨t', s', r'⟩, entries', draws'⟩ := g
  obtain rfl : t = t' := h.target_eq
  obtain rfl : r = r' := h.agree.pairing.radius_eq
  obtain rfl : entries = entries' := h.agree.entries_eq
  rfl

theorem retarget? (h : Twins f g) (target : Canvas) :
    Alike Twins (f.retarget? target) (g.retarget? target) := by
  refine ((alike_retarget? h.agree (.refl target)).and_ok (fun _ => sameFrame_of_retarget?)
    (fun _ => sameFrame_of_retarget?)).mono ?_
  rintro f' g' ⟨hagree, ⟨-, hf⟩, ⟨-, hg⟩⟩
  exact ⟨hagree, hf.target_eq.trans hg.target_eq.symm⟩

variable [WordSource σ]

theorem scatter? (h : Twins f g) : Alike Twins f.scatter? g.scatter? := by
  refine ((alike_scatter? h.agree).and_ok (fun _ => sameFrame_of_scatter?)
    (fun _ => sameFrame_of_scatter?)).mono ?_
  rintro f' g' ⟨hagree, hf, hg⟩
  exact ⟨hagree, by rw [hf.target_eq, hg.target_eq, h.target_eq]⟩

theorem improve? (h : Twins f g) (n : Nat) : Alike Twins (f.improve? n) (g.improve? n) := by
  refine ((alike_improve? h.agree n).and_ok (fun _ => sameFrame_of_improve?)
    (fun _ => sameFrame_of_improve?)).mono ?_
  rintro f' g' ⟨hagree, hf, hg⟩
  exact ⟨hagree, by rw [hf.target_eq, hg.target_eq, h.target_eq]⟩

theorem finer? (h : Twins f g) {source source' : Canvas} (hs : source.Agree source')
    (target : Canvas) : Alike Twins (f.finer? target source) (g.finer? target source') := by
  refine ((alike_finer? h.agree (.refl target) hs).and_ok (fun _ => sameFrame_of_finer?)
    (fun _ => sameFrame_of_finer?)).mono ?_
  rintro f' g' ⟨hagree, hf, hg⟩
  exact ⟨hagree, hf.target_eq.trans hg.target_eq.symm⟩

end Twins

end MatchField

/-! ### Levels -/

namespace Filling

open MatchField (Twins)

variable {σ : Type} [WordSource σ] (scaler : Scaler) (settings : Settings) {f g : MatchField σ}

theorem alike_turns (h : Twins f g) (level passes n iteration : Nat) :
    Alike (fun done done' => Twins done.1 done'.1 ∧ done.2 = done'.2)
      (turns level passes n iteration f) (turns level passes n iteration g) := by
  induction n generalizing f g iteration with
  | zero => exact .ok ⟨h, rfl⟩
  | succ n ih =>
    refine (h.improve? passes).bind fun f' g' h' => ?_
    rw [h'.repaint?_eq h'.agree.pairing.source, h'.target_eq]
    refine .same _ fun target => ?_
    refine (h'.retarget? target).bind fun f' g' h' => ?_
    refine (ih h' (iteration + 1)).bind ?_
    rintro ⟨f', events⟩ ⟨g', events'⟩ ⟨htwins, hevents⟩
    obtain rfl : events = events' := hevents
    exact .ok ⟨htwins, rfl⟩

/-- A level is worked alike, and its target and its events are the same. -/
theorem alike_workLevel (h : Twins f g) {finer finer' : Canvas} (hfiner : finer.Agree finer')
    (level : Nat) :
    Alike (fun done done' => Twins done.field done'.field ∧ done.target = done'.target ∧
        done.events = done'.events)
      (workLevel scaler settings level finer f) (workLevel scaler settings level finer' g) := by
  have hw : finer.width = finer'.width := hfiner.shape.width_eq
  have hh : finer.height = finer'.height := hfiner.shape.height_eq
  refine (alike_turns h level _ _ 1).bind ?_
  rintro ⟨f', events⟩ ⟨g', events'⟩ ⟨htwins, hevents⟩
  obtain rfl : events = events' := hevents
  refine (htwins.improve? _).bind fun f' g' h' => ?_
  rw [h'.target_eq, hw, hh]
  refine .same _ fun enlarged => ?_
  rw [h'.repaint?_eq hfiner]
  exact .same _ fun target => .ok ⟨h', rfl, rfl⟩

/-- The climb over levels that agree ends with the same outcome. -/
theorem climb_eq (h : Twins f g) {others others' : List Canvas}
    (hothers : List.Forall₂ Canvas.Agree others others') :
    climb scaler settings f others = climb scaler settings g others' := by
  induction hothers generalizing f g with
  | nil => rw [climb_nil, climb_nil, h.target_eq]
  | @cons finer finer' rest rest' hfiner hrest ih =>
    cases hrest with
    | nil =>
      rw [climb_last, climb_last]
      refine Alike.eq ((alike_workLevel scaler settings h hfiner 1).bind ?_)
      rintro done done' ⟨-, htarget, hevents⟩
      rw [htarget, hevents]
      exact .ok rfl
    | cons hnext hrest =>
      have hlength := (List.Forall₂.cons hnext hrest).length_eq
      rw [climb_next f finer (List.cons_ne_nil _ _), climb_next g finer' (List.cons_ne_nil _ _),
        hlength]
      refine Alike.eq ((alike_workLevel scaler settings h hfiner _).bind ?_)
      rintro done done' ⟨hfield, htarget, hevents⟩
      rw [htarget, hevents]
      refine (hfield.finer? hfiner _).bind fun f' g' h' => ?_
      rw [ih h']
      exact .same _ fun outcome => .ok rfl

variable (start : σ)

/-- Levels that are twins start with twin fields. -/
theorem alike_coarsestField? {level level' : Canvas} (h : level.Twins level') :
    Alike Twins (coarsestField? settings start level) (coarsestField? settings start level') := by
  refine Twins.scatter? ⟨⟨⟨?_, h.agree, rfl⟩, ?_, rfl⟩, h.clearHoles_eq⟩
  · show level.clearHoles.Agree level'.clearHoles
    rw [h.clearHoles_eq]
    exact .refl _
  · show Array.replicate level.clearHoles.area _ = Array.replicate level'.clearHoles.area _
    rw [h.clearHoles_eq]

theorem reconstruct_eq {coarsest coarsest' : Canvas} (hcoarsest : coarsest.Twins coarsest')
    {others others' : List Canvas} (hothers : List.Forall₂ Canvas.Agree others others') :
    reconstruct scaler settings start coarsest others =
      reconstruct scaler settings start coarsest' others' := by
  refine Alike.eq ((alike_coarsestField? settings start hcoarsest).bind fun f g h => ?_)
  rw [climb_eq scaler settings h hothers]
  cases climb scaler settings g others' with
  | ok outcome => exact .ok rfl
  | error e => exact .error e

end Filling

/-! ### Pyramids with the same holes -/

namespace Pyramid

/-- The pyramids over the canvases have as many levels, with the same cells for holes. -/
structure SameHoles (radius : Nat) (c c' : Canvas) : Prop where
  coarsest_eq : (build c radius).coarsest = (build c' radius).coarsest
  holes_eq : ∀ k ≤ (build c radius).coarsest, (c.halved k).holes = (c'.halved k).holes

variable {radius : Nat} {c c' : Canvas}

/-- Their levels are twins, if the canvases have the same image. -/
theorem SameHoles.twins (h : SameHoles radius c c') (hc : c.Consistent) (hc' : c'.Consistent)
    (himage : c.image = c'.image) (hmask : c.mask.SameShape c'.mask) {k : Nat}
    (hk : k ≤ (build c radius).coarsest) : (c.halved k).Twins (c'.halved k) where
  image_eq := by rw [Canvas.image_halved, Canvas.image_halved, himage]
  holes_eq := h.holes_eq k hk
  mask_shape := by
    rw [hc.mask_halved, hc'.mask_halved]
    exact hmask.halved k

end Pyramid

/-! ### Runs -/

/-- What can be seen of an event without the samples of its mask. -/
def Event.glimpse : Event → Sight × Raster × Array Bool
  | .level i canvas => (.level i canvas.width canvas.height, canvas.image, canvas.holes)
  | .repaint l i target => (.repaint l i target.width target.height, target.image, target.holes)

/-- The outcomes have the same image, and what happened on the way looks the same. -/
structure Outcome.Same (o o' : Outcome) : Prop where
  image_eq : o.canvas.image = o'.canvas.image
  events_eq : o.events.map Event.glimpse = o'.events.map Event.glimpse
  phases_eq : o.phases = o'.phases

namespace Filling

variable {σ : Type} [WordSource σ] (scaler : Scaler) (settings : Settings) (start : σ)
  {c c' : Canvas}

theorem glimpse_levelEvents {radius : Nat} (h : Pyramid.SameHoles radius c c')
    (himage : c.image = c'.image) :
    (levelEvents (.build c radius)).map Event.glimpse =
      (levelEvents (.build c' radius)).map Event.glimpse := by
  rw [levelEvents_build, levelEvents_build, List.map_map, List.map_map, ← h.coarsest_eq]
  refine List.map_congr_left fun k hk => ?_
  have hholes := h.holes_eq k (Nat.le_of_lt_succ (List.mem_range.mp hk))
  simp only [Function.comp_apply, Event.glimpse, Canvas.width, Canvas.height,
    Canvas.image_halved, himage, hholes]

/-- **Runs side by side.**  Canvases with one image whose pyramids have the same holes are filled
alike, whatever the samples of their masks are. -/
theorem alike_run (hc : c.Consistent) (hc' : c'.Consistent) (himage : c.image = c'.image)
    (hmask : c.mask.SameShape c'.mask) (h : Pyramid.SameHoles settings.radius c c') :
    Alike Outcome.Same (run scaler settings start c) (run scaler settings start c') := by
  have hglimpse := glimpse_levelEvents h himage
  have htwins (k : Nat) (hk : k ≤ (Pyramid.build c settings.radius).coarsest) :=
    h.twins hc hc' himage hmask hk
  cases hcoarsest : (Pyramid.build c settings.radius).coarsest with
  | zero =>
    have hcoarsest' := h.coarsest_eq.symm.trans hcoarsest
    rw [run_of_coarsest_eq_zero hcoarsest, run_of_coarsest_eq_zero hcoarsest']
    exact .ok ⟨himage, hglimpse, rfl⟩
  | succ n =>
    have hcoarsest' := h.coarsest_eq.symm.trans hcoarsest
    have hothers : List.Forall₂ Canvas.Agree ((List.range (n + 1)).reverse.map c.halved)
        ((List.range (n + 1)).reverse.map c'.halved) := by
      refine List.forall₂_map_left_iff.mpr (List.forall₂_map_right_iff.mpr ?_)
      refine List.forall₂_same.mpr fun k hk => (htwins k ?_).agree
      have hk := List.mem_range.mp (List.mem_reverse.mp hk)
      omega
    have hfirst : c.Agree c' := (htwins 0 (Nat.zero_le _)).agree
    rw [run_of_coarsest_eq_succ hcoarsest, run_of_coarsest_eq_succ hcoarsest',
      reconstruct_eq scaler settings start (htwins (n + 1) (Nat.le_of_eq hcoarsest.symm)) hothers]
    refine .same _ fun outcome => ?_
    rw [finish, finish, hfirst.inside.restore?_congr]
    refine .same _ fun canvas => .ok ⟨rfl, ?_, rfl⟩
    rw [List.map_append, List.map_append, hglimpse]

/-! ### What the levels that are seen tell -/

/-- A run shows the levels first. -/
theorem events_of_run {outcome : Outcome} (h : run scaler settings start c = .ok outcome) :
    ∃ repaints, outcome.events = levelEvents (.build c settings.radius) ++ repaints := by
  cases hcoarsest : (Pyramid.build c settings.radius).coarsest with
  | zero =>
    rw [run_of_coarsest_eq_zero hcoarsest] at h
    cases h
    exact ⟨[], (List.append_nil _).symm⟩
  | succ n =>
    rw [run_of_coarsest_eq_succ hcoarsest] at h
    obtain ⟨reconstructed, -, h⟩ := bind_eq_ok_iff.mp h
    obtain ⟨canvas, -, h⟩ := bind_eq_ok_iff.mp h
    cases h
    exact ⟨reconstructed.events, rfl⟩

omit [WordSource σ] in
theorem length_countdown (n : Nat) : (countdown n).length = n := by
  induction n with
  | zero => rfl
  | succ n ih => rw [countdown, List.length_cons, ih]

/-- The number of phases tells the number of levels. -/
theorem length_phases_of_run {mask : Raster} (haccepted : settings.Accepted c.image mask)
    (hc : c.Within c) {outcome : Outcome} (h : run scaler settings start c = .ok outcome) :
    outcome.phases.length = (Pyramid.build c settings.radius).coarsest + 1 := by
  rcases Nat.eq_zero_or_pos c.depth with hdepth | hdepth
  · -- Without channels only a pyramid of one level is left.
    have hcoarsest : (Pyramid.build c settings.radius).coarsest = 0 := by
      refine Classical.byContradiction fun hne => ?_
      rw [run_of_depth_eq_zero scaler settings start hc hdepth hne] at h
      cases h
    rw [run_of_coarsest_eq_zero hcoarsest] at h
    cases h
    rw [hcoarsest]
    rfl
  · have hrun := okUnless_run scaler settings start hc hdepth haccepted.repaints_pos
    obtain ⟨-, hscheduled, -⟩ := hrun.1 outcome h
    have hlength := congrArg List.length hscheduled.phases_eq
    rwa [List.length_map, List.length_cons, List.length_map, length_countdown] at hlength

/-- Where two runs look the same, their levels have the same holes. -/
theorem sameHoles_of_run {mask mask' : Raster} (haccepted : settings.Accepted c.image mask)
    (haccepted' : settings.Accepted c'.image mask') (hc : c.Within c) (hc' : c'.Within c')
    {o o' : Outcome} (h : run scaler settings start c = .ok o)
    (h' : run scaler settings start c' = .ok o') (hsame : o.Same o') :
    Pyramid.SameHoles settings.radius c c' := by
  have hcoarsest : (Pyramid.build c settings.radius).coarsest =
      (Pyramid.build c' settings.radius).coarsest := by
    have hlength := congrArg List.length hsame.phases_eq
    rw [length_phases_of_run scaler settings start haccepted hc h,
      length_phases_of_run scaler settings start haccepted' hc' h'] at hlength
    exact Nat.succ.inj hlength
  refine ⟨hcoarsest, fun k hk => ?_⟩
  obtain ⟨repaints, hevents⟩ := events_of_run scaler settings start h
  obtain ⟨repaints', hevents'⟩ := events_of_run scaler settings start h'
  have hglimpses := congrArg (·[k]?) hsame.events_eq
  have hk₁ := Nat.lt_succ_of_le hk
  have hk₂ := hcoarsest ▸ hk₁
  simp only [hevents, hevents', levelEvents_build, List.map_append, List.map_map] at hglimpses
  rw [List.getElem?_append_left (by simpa using hk₁),
    List.getElem?_append_left (by simpa using hk₂)] at hglimpses
  simp only [List.getElem?_map, List.getElem?_range hk₁, List.getElem?_range hk₂, Option.map_some,
    Function.comp_apply, Option.some.injEq, Event.glimpse, Prod.mk.injEq] at hglimpses
  exact hglimpses.2.2

end Filling

/-! ### Images and their masks -/

/-- A raster of 0 and 255 is its own cut. -/
theorem Raster.threshold_eq_self {r : Raster} {limit : UInt8} (hlimit : limit < 255)
    (h : ∀ p < r.area, ∀ k < r.depth, r.sample p k = 0 ∨ r.sample p k = 255) :
    r.threshold limit = r := by
  have hzero : ¬ limit < 0 := UInt8.not_lt.mpr (UInt8.le_iff_toNat_le.mpr (Nat.zero_le _))
  refine ext_sample rfl rfl rfl fun p hp k hk => ?_
  rw [sample_threshold]
  rcases h p hp k hk with hsample | hsample <;> rw [hsample]
  · rw [if_neg hzero]
  · rw [if_pos hlimit]

theorem Pyramid.SameHoles.refl (radius : Nat) (c : Canvas) : SameHoles radius c c :=
  ⟨rfl, fun _ _ => rfl⟩

namespace Filling

variable {σ : Type} [WordSource σ] (scaler : Scaler) (settings : Settings) (start : σ)
  {image mask : Raster}

/-- A canvas is filled as its run ends, under the mask it had. -/
theorem fillCanvas?_eq_map (haccepted : settings.Accepted image mask)
    (hrows : Canvas.checkRows image.width image.depth = .ok ()) :
    (Canvas.pair? image mask >>= fun initial => fillCanvas? scaler settings start initial) =
      (Failure.ofFault (run scaler settings start (.ofParts image mask))).map fun outcome =>
        { outcome with canvas := .ofParts outcome.canvas.image mask } := by
  let initial := Canvas.ofParts image mask
  have hinitial : initial.Within initial := haccepted.within_ofParts
  have hpair {image' : Raster} (h : image'.SameShape image) :
      Canvas.pair? image' mask = .ok (.ofParts image' mask) := by
    rw [pair?_of_accepted haccepted h (.refl mask), hrows]
    rfl
  rw [hpair (.refl image)]
  show fillCanvas? scaler settings start initial = _
  rw [fillCanvas?_of_accepted haccepted]
  cases hrun : run scaler settings start initial with
  | error e => rfl
  | ok outcome =>
    have hshape : outcome.canvas.image.SameShape image := sameShape_of_run hinitial hrun
    show Canvas.pair? outcome.canvas.image mask >>= _ = _
    rw [hpair hshape]
    rfl

theorem alike_fill? (haccepted : settings.Accepted image mask)
    (h : Pyramid.SameHoles settings.radius (.ofParts image (mask.threshold settings.threshold))
      (.ofParts image mask)) :
    Alike Outcome.Same (fill? scaler settings start image mask)
      (Canvas.pair? image mask >>= fillCanvas? scaler settings start) := by
  rw [fill?_of_accepted haccepted]
  cases hrows : Canvas.checkRows image.width image.depth with
  | error e =>
    rw [pair?_of_accepted haccepted (.refl image) (.refl mask), hrows]
    exact .error _
  | ok =>
    rw [fillCanvas?_eq_map scaler settings start haccepted hrows]
    have hcut := (haccepted.within_threshold settings.threshold).consistent
    have hwhole := haccepted.within_ofParts.consistent
    have hrun := alike_run scaler settings start hcut hwhole rfl (mask.sameShape_threshold _) h
    exact hrun.ofFault.map_right fun _ _ h => ⟨h.image_eq, h.events_eq, h.phases_eq⟩

/-- Where both ways look the same, the pyramids have the same holes. -/
theorem sameHoles_of_fill? (haccepted : settings.Accepted image mask) {o o' : Outcome}
    (ho : fill? scaler settings start image mask = .ok o)
    (ho' : (Canvas.pair? image mask >>= fillCanvas? scaler settings start) = .ok o')
    (hsame : o.Same o') :
    Pyramid.SameHoles settings.radius (.ofParts image (mask.threshold settings.threshold))
      (.ofParts image mask) := by
  have hcut := haccepted.within_threshold settings.threshold
  have hwhole := haccepted.within_ofParts
  rw [fill?_of_accepted haccepted] at ho
  obtain ⟨_, hrows, hrun⟩ := bind_eq_ok_iff.mp ho
  have hrows := Failure.ofFault_eq_ok_iff.mp hrows
  rw [fillCanvas?_eq_map scaler settings start haccepted hrows] at ho'
  cases hrun' : run scaler settings start (.ofParts image mask) with
  | error e =>
    rw [hrun'] at ho'
    cases ho'
  | ok filled =>
    rw [hrun'] at ho'
    cases ho'
    exact sameHoles_of_run scaler settings start haccepted haccepted hcut hwhole
      (Failure.ofFault_eq_ok_iff.mp hrun) hrun' ⟨hsame.image_eq, hsame.events_eq, hsame.phases_eq⟩

/-- **An image under a mask, and the canvas of both.**  Let them be accepted.  The image is filled
under the mask cut at the threshold, the canvas under the mask as it is.  The two end alike, with
the same raster after the same levels, repaints and phases, if the two pyramids have as many levels
with the same holes, and they do not look the same otherwise.  The pyramids have the same holes
under a mask of 0 and 255.  At threshold 0 the two take the same cells of the image for holes, but
the faint samples of a coarser level may have been rounded to zero in one of them. -/
theorem fill?_alike (hcheck : settings.check image mask = .ok ()) :
    let cut := Canvas.ofParts image (mask.threshold settings.threshold)
    let whole := Canvas.ofParts image mask
    (Pyramid.SameHoles settings.radius cut whole →
      Alike Outcome.Same (fill? scaler settings start image mask)
        (Canvas.pair? image mask >>= fillCanvas? scaler settings start)) ∧
    (∀ o o', fill? scaler settings start image mask = .ok o →
      (Canvas.pair? image mask >>= fillCanvas? scaler settings start) = .ok o' → o.Same o' →
      Pyramid.SameHoles settings.radius cut whole) ∧
    (settings.threshold < 255 →
      (∀ p < mask.area, mask.sample p 0 = 0 ∨ mask.sample p 0 = 255) →
      Pyramid.SameHoles settings.radius cut whole) ∧
    (settings.threshold = 0 → ∀ p, cut.isHole p = whole.isHole p) := by
  have haccepted := Settings.check_eq_ok_iff.mp hcheck
  have hcut := (haccepted.within_threshold settings.threshold).consistent
  have hwhole := haccepted.within_ofParts.consistent
  refine ⟨alike_fill? scaler settings start haccepted, ?_, ?_, ?_⟩
  · intro o o' ho ho' hsame
    exact sameHoles_of_fill? scaler settings start haccepted ho ho' hsame
  · intro hlimit hextreme
    have hmask : mask.threshold settings.threshold = mask := by
      refine Raster.threshold_eq_self hlimit fun p hp k hk => ?_
      obtain rfl : k = 0 := Nat.lt_one_iff.mp (haccepted.mask_depth ▸ hk)
      exact hextreme p hp
    show Pyramid.SameHoles settings.radius (.ofParts image (mask.threshold settings.threshold)) _
    rw [hmask]
    exact .refl _ _
  · intro hzero p
    have hpos : 0 < mask.sample p 0 ↔ mask.sample p 0 ≠ 0 := by
      rw [UInt8.lt_iff_toNat_lt, ne_eq, ← UInt8.toNat_inj]
      exact Nat.pos_iff_ne_zero
    refine Bool.eq_iff_iff.mpr ?_
    rw [hcut.isHole_threshold, hwhole.isHole_eq, hzero]
    exact hpos

theorem feasible_threshold_zero (mask : Raster) (hdepth : mask.depth = 1) (hwidth : mask.width = 4)
    (hheight : mask.height = 4) :
    ({ radius := 1, threshold := 0 } : Settings).Feasible darkImage mask where
  accepted := Settings.check_eq_ok_iff.mpr
    ⟨hdepth, hwidth, hheight, by decide, by decide, rfl, rfl, by decide, by decide, by decide,
      by decide⟩
  depth_pos := feasible_dot.depth_pos
  depth_le := feasible_dot.depth_le
  distances := feasible_dot.distances
  stored := feasible_dot.stored

/-- A hole of 255 is one for both. -/
theorem fill?_alike_dot :
    ({ radius := 1, threshold := 0 } : Settings).check darkImage dotMask = .ok () ∧ ∃ o o',
      fill? .triangle { radius := 1, threshold := 0 } (Keystream.ofSeed 7) darkImage dotMask =
        .ok o ∧
      (Canvas.pair? darkImage dotMask >>=
        fillCanvas? .triangle { radius := 1, threshold := 0 } (Keystream.ofSeed 7)) = .ok o' ∧
      o.Same o' := by
  have hfeasible := feasible_threshold_zero dotMask rfl rfl rfl
  obtain ⟨hsame, -, hextreme, -⟩ := fill?_alike .triangle { radius := 1, threshold := 0 }
    (Keystream.ofSeed 7) hfeasible.accepted
  obtain ⟨o, ho, -⟩ := exists_fill? .triangle (Keystream.ofSeed 7) hfeasible
  obtain ⟨o', ho', hoo'⟩ := (hsame (hextreme (by decide) (by decide))).exists_ok ho
  exact ⟨hfeasible.accepted, o, o', ho, ho', hoo'⟩

/-- A mask with one hole, as faint as can be. -/
def faintMask : Raster :=
  .generate 4 4 .gray fun p _ => if p = 9 then 1 else 0

/-- The hole of a faint mask is halved twice when it is cut, and once as it is. -/
theorem fill?_faintMask :
    ({ radius := 1, threshold := 0 } : Settings).check darkImage faintMask = .ok () ∧ ∃ o o',
      fill? .triangle { radius := 1, threshold := 0 } (Keystream.ofSeed 7) darkImage faintMask =
        .ok o ∧
      (Canvas.pair? darkImage faintMask >>=
        fillCanvas? .triangle { radius := 1, threshold := 0 } (Keystream.ofSeed 7)) = .ok o' ∧
      o.events.map Event.sight =
        [.level 0 4 4, .level 1 2 2, .level 2 1 1, .repaint 2 1 1 1, .repaint 2 2 1 1,
          .repaint 2 3 1 1, .repaint 2 4 2 2, .repaint 1 1 2 2, .repaint 1 2 4 4] ∧
      o'.events.map Event.sight =
        [.level 0 4 4, .level 1 2 2, .repaint 1 1 2 2, .repaint 1 2 4 4] := by
  have hfeasible := feasible_threshold_zero faintMask rfl rfl rfl
  have haccepted := Settings.check_eq_ok_iff.mp hfeasible.accepted
  have hcut := haccepted.within_threshold 0
  have hwhole := haccepted.within_ofParts
  have hrows : Canvas.checkRows darkImage.width darkImage.depth = .ok () := by decide
  obtain ⟨o, ho⟩ := exists_run .triangle { radius := 1, threshold := 0 } (Keystream.ofSeed 7)
    hcut hfeasible.hasRoom
  obtain ⟨o', ho'⟩ := exists_run .triangle { radius := 1, threshold := 0 } (Keystream.ofSeed 7)
    hwhole hfeasible.hasRoom
  have hdepth : 0 < darkImage.depth := feasible_dot.depth_pos
  obtain ⟨-, hscheduled, -⟩ := (okUnless_run .triangle { radius := 1, threshold := 0 }
    (Keystream.ofSeed 7) hcut hdepth haccepted.repaints_pos).1 o ho
  obtain ⟨-, hscheduled', -⟩ := (okUnless_run .triangle { radius := 1, threshold := 0 }
    (Keystream.ofSeed 7) hwhole hdepth haccepted.repaints_pos).1 o' ho'
  have hcoarsest : (Pyramid.build (.ofParts darkImage (faintMask.threshold 0)) 1).coarsest = 2 :=
    Pyramid.coarsest_eq (by decide +kernel) (by decide +kernel)
  have hcoarsest' : (Pyramid.build (.ofParts darkImage faintMask) 1).coarsest = 1 :=
    Pyramid.coarsest_eq (by decide +kernel) (by decide +kernel)
  refine ⟨hfeasible.accepted, o, { o' with canvas := .ofParts o'.canvas.image faintMask }, ?_, ?_,
    ?_, ?_⟩
  · rw [fill?_of_accepted haccepted]
    exact bind_eq_ok_iff.mpr
      ⟨(), Failure.ofFault_eq_ok_iff.mpr hrows, Failure.ofFault_eq_ok_iff.mpr ho⟩
  · rw [fillCanvas?_eq_map .triangle _ _ haccepted hrows, ho']
    rfl
  · rw [hscheduled.sights_eq, hcoarsest]
    decide +kernel
  · rw [hscheduled'.sights_eq, hcoarsest']
    decide +kernel

end Filling

end Retouch
