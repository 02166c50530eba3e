import Retouch.Canvas.Consistent
import Retouch.Filling.Run

/-!
# Retouch — Filling — Schedule

A run in two parts.  The first (`reconstruct`) works the levels of the pyramid from the coarsest to
the canvas itself; of the settings it reads the radius and the two limits.  The second (`finish`)
puts the known pixels back, if the settings say so.  `run_of_descend` takes a run apart in this
way, and `climb_last` and `climb_next` take its first part apart level by level.  Where there is a
result, `turns_cases`, `workLevel_cases` and `climb_cases` say what has been done to get it.
-/

namespace Retouch

namespace Filling

/-- The levels of a pyramid, as a run shows them. -/
def levelEvents (pyramid : Pyramid) : List Event :=
  pyramid.levels.zipIdx.map fun (canvas, i) => .level i canvas

/-- The last part of a run: the known pixels are put back, or not. -/
def finish (settings : Settings) (initial canvas : Canvas) : Except Fault Canvas :=
  if settings.keepsKnown then canvas.restore? initial else .ok canvas

/-- Between canvases of one shape the last part has a result. -/
theorem finish_eq_ok {initial canvas : Canvas} (h : canvas.image.SameShape initial.image)
    (settings : Settings) : finish settings initial canvas =
      .ok (if settings.keepsKnown then canvas.restore initial else canvas) := by
  have hrestore : canvas.restore? initial = .ok (canvas.restore initial) := by
    rw [Canvas.restore?, Fault.unless_of ⟨h.width_eq, h.height_eq⟩,
      Fault.unless_of (.inl h.depth_eq)]
    rfl
  unfold finish
  split
  · exact hrestore
  · rfl

variable {σ : Type} [WordSource σ]

/-- One turn and the turns after it. -/
theorem turns_cases {f g : MatchField σ} {events : List Event} {level passes n iteration : Nat}
    (h : turns level passes (n + 1) iteration f = .ok (g, events)) :
    ∃ improved target next rest, f.improve? passes = .ok improved ∧
      improved.repaint? .same improved.source improved.target = .ok target ∧
      improved.retarget? target = .ok next ∧
      turns level passes n (iteration + 1) next = .ok (g, rest) ∧
      events = .repaint level iteration target :: rest := by
  obtain ⟨improved, himprove, h⟩ := bind_eq_ok_iff.mp h
  obtain ⟨target, hrepaint, h⟩ := bind_eq_ok_iff.mp h
  obtain ⟨next, hretarget, h⟩ := bind_eq_ok_iff.mp h
  obtain ⟨⟨last, rest⟩, hturns, h⟩ := bind_eq_ok_iff.mp h
  cases h
  exact ⟨improved, target, next, rest, himprove, hrepaint, hretarget, hturns, rfl⟩

end Filling

/-! ### Any way of resizing -/

namespace Resizing

open Filling

variable {σ : Type} [WordSource σ] {resize : Resizing} {settings : Settings} {f : MatchField σ}

/-- The first part of a run: from the coarsest level through the others, listed from the next
finer one to the finest. -/
def reconstruct (resize : Resizing) (settings : Settings) (start : σ) (coarsest : Canvas)
    (others : List Canvas) : Except Fault Outcome := do
  let field ← coarsestField? settings start coarsest
  resize.climb settings field others

theorem climb_last (f : MatchField σ) (finer : Canvas) :
    resize.climb settings f [finer] = do
      let done ← resize.workLevel settings 1 finer f
      return ⟨done.target, done.events, [.level 1]⟩ :=
  rfl

theorem climb_next (f : MatchField σ) (finer : Canvas) {rest : List Canvas} (h : rest ≠ []) :
    resize.climb settings f (finer :: rest) = do
      let done ← resize.workLevel settings (rest.length + 1) finer f
      let next ← done.field.finer? done.target finer
      let outcome ← resize.climb settings next rest
      return ⟨outcome.canvas, done.events ++ outcome.events,
        .level (rest.length + 1) :: outcome.phases⟩ := by
  obtain ⟨following, rest, rfl⟩ := List.exists_cons_of_ne_nil h
  rfl

/-- The turns of a level, one more search, and the repaint at the size of the next level. -/
theorem workLevel_cases {level : Nat} {finer : Canvas} {done : LevelEnd σ}
    (h : resize.workLevel settings level finer f = .ok done) :
    ∃ turned shown enlarged,
      turns level (settings.passesAt level) (settings.repaintsAt level - 1) 1 f =
        .ok (turned, shown) ∧
      turned.improve? (settings.passesAt level) = .ok done.field ∧
      resize done.field.target finer.width finer.height = .ok enlarged ∧
      done.field.repaint? .double finer enlarged = .ok done.target ∧
      done.events = shown ++ [.repaint level (settings.repaintsAt level) done.target] := by
  obtain ⟨⟨turned, shown⟩, hturns, h⟩ := bind_eq_ok_iff.mp h
  obtain ⟨improved, himprove, h⟩ := bind_eq_ok_iff.mp h
  obtain ⟨enlarged, hresize, h⟩ := bind_eq_ok_iff.mp h
  obtain ⟨target, hrepaint, h⟩ := bind_eq_ok_iff.mp h
  cases h
  exact ⟨turned, shown, enlarged, hturns, himprove, hresize, hrepaint, rfl⟩

/-- One level, which is the last one or is followed by the others. -/
theorem climb_cases {finer : Canvas} {rest : List Canvas} {outcome : Outcome}
    (h : resize.climb settings f (finer :: rest) = .ok outcome) :
    ∃ done, resize.workLevel settings (rest.length + 1) finer f = .ok done ∧
      (rest = [] ∧ outcome = ⟨done.target, done.events, [.level 1]⟩ ∨
        rest ≠ [] ∧ ∃ next others, done.field.finer? done.target finer = .ok next ∧
          resize.climb settings next rest = .ok others ∧
          outcome = ⟨others.canvas, done.events ++ others.events,
            .level (rest.length + 1) :: others.phases⟩) := by
  by_cases hlast : rest = []
  · subst hlast
    rw [climb_last] at h
    obtain ⟨done, hwork, h⟩ := bind_eq_ok_iff.mp h
    cases h
    exact ⟨done, hwork, .inl ⟨rfl, rfl⟩⟩
  · rw [climb_next f finer hlast] at h
    obtain ⟨done, hwork, h⟩ := bind_eq_ok_iff.mp h
    obtain ⟨next, hnext, h⟩ := bind_eq_ok_iff.mp h
    obtain ⟨others, hclimb, h⟩ := bind_eq_ok_iff.mp h
    cases h
    exact ⟨done, hwork, .inr ⟨hlast, next, others, hnext, hclimb, rfl⟩⟩

variable {start : σ} {initial : Canvas}

/-- A canvas that is not halved even once comes back as it is. -/
theorem run_of_descend_eq_nil (h : Pyramid.descend settings.radius initial = []) :
    resize.run settings start initial =
      .ok ⟨initial, levelEvents (.build initial settings.radius), [.pyramid]⟩ := by
  simp only [run, levelEvents, Pyramid.levels, Pyramid.build, h]
  rfl

/-- Otherwise the levels are worked, and the result is finished. -/
theorem run_of_descend {between : List Canvas} {coarsest : Canvas}
    (h : Pyramid.descend settings.radius initial = between ++ [coarsest]) :
    resize.run settings start initial = do
      let outcome ← resize.reconstruct settings start coarsest (between.reverse ++ [initial])
      let canvas ← finish settings initial outcome.canvas
      return ⟨canvas, levelEvents (.build initial settings.radius) ++ outcome.events,
        .pyramid :: outcome.phases⟩ := by
  have hlevels : (Pyramid.build initial settings.radius).levels.reverse =
      coarsest :: (between.reverse ++ [initial]) := by
    simp [Pyramid.levels, Pyramid.build, h]
  -- A run looks at the two coarsest levels first, so the list has to be opened twice.
  obtain ⟨finer, rest, hothers⟩ := List.exists_cons_of_ne_nil
    (List.append_ne_nil_of_right_ne_nil between.reverse (List.cons_ne_nil initial []))
  simp only [run, hlevels, hothers, levelEvents, finish, reconstruct, bind_assoc]
  cases settings.keepsKnown <;> rfl

end Resizing

/-! ### Scaling plane by plane -/

namespace Filling

variable {σ : Type} [WordSource σ] {scaler : Scaler} {settings : Settings} {start : σ}
  {initial : Canvas} {f : MatchField σ}

/-- The first part of a run, with a scaler of planes. -/
def reconstruct (scaler : Scaler) (settings : Settings) (start : σ) (coarsest : Canvas)
    (others : List Canvas) : Except Fault Outcome := do
  let field ← coarsestField? settings start coarsest
  climb scaler settings field others

theorem climb_nil (f : MatchField σ) : climb scaler settings f [] = .ok ⟨f.target, [], []⟩ :=
  rfl

theorem climb_last (f : MatchField σ) (finer : Canvas) :
    climb scaler settings f [finer] = do
      let done ← workLevel scaler settings 1 finer f
      return ⟨done.target, done.events, [.level 1]⟩ :=
  rfl

theorem climb_next (f : MatchField σ) (finer : Canvas) {rest : List Canvas} (h : rest ≠ []) :
    climb scaler settings f (finer :: rest) = do
      let done ← workLevel scaler settings (rest.length + 1) finer f
      let next ← done.field.finer? done.target finer
      let outcome ← climb scaler settings next rest
      return ⟨outcome.canvas, done.events ++ outcome.events,
        .level (rest.length + 1) :: outcome.phases⟩ :=
  Resizing.climb_next f finer h

theorem workLevel_cases {level : Nat} {finer : Canvas} {done : LevelEnd σ}
    (h : workLevel scaler settings level finer f = .ok done) :
    ∃ turned shown,
      turns level (settings.passesAt level) (settings.repaintsAt level - 1) 1 f =
        .ok (turned, shown) ∧
      turned.improve? (settings.passesAt level) = .ok done.field ∧
      done.field.repaint? .double finer
        (done.field.target.scaleTo scaler finer.width finer.height) = .ok done.target ∧
      done.events = shown ++ [.repaint level (settings.repaintsAt level) done.target] := by
  obtain ⟨turned, shown, enlarged, hturns, himprove, hscale, hrepaint, hevents⟩ :=
    Resizing.workLevel_cases h
  rw [Canvas.eq_scaleTo_of_scaleTo? hscale] at hrepaint
  exact ⟨turned, shown, hturns, himprove, hrepaint, hevents⟩

theorem climb_cases {finer : Canvas} {rest : List Canvas} {outcome : Outcome}
    (h : climb scaler settings f (finer :: rest) = .ok outcome) :
    ∃ done, workLevel scaler settings (rest.length + 1) finer f = .ok done ∧
      (rest = [] ∧ outcome = ⟨done.target, done.events, [.level 1]⟩ ∨
        rest ≠ [] ∧ ∃ next others, done.field.finer? done.target finer = .ok next ∧
          climb scaler settings next rest = .ok others ∧
          outcome = ⟨others.canvas, done.events ++ others.events,
            .level (rest.length + 1) :: others.phases⟩) :=
  Resizing.climb_cases h

theorem run_of_descend_eq_nil (h : Pyramid.descend settings.radius initial = []) :
    run scaler settings start initial =
      .ok ⟨initial, levelEvents (.build initial settings.radius), [.pyramid]⟩ :=
  Resizing.run_of_descend_eq_nil h

theorem run_of_descend {between : List Canvas} {coarsest : Canvas}
    (h : Pyramid.descend settings.radius initial = between ++ [coarsest]) :
    run scaler settings start initial = do
      let outcome ← reconstruct scaler settings start coarsest (between.reverse ++ [initial])
      let canvas ← finish settings initial outcome.canvas
      return ⟨canvas, levelEvents (.build initial settings.radius) ++ outcome.events,
        .pyramid :: outcome.phases⟩ :=
  Resizing.run_of_descend h

/-- What a run of levels ends with, without what happened on the way. -/
theorem canvas_run_of_descend {between : List Canvas} {coarsest : Canvas}
    (h : Pyramid.descend settings.radius initial = between ++ [coarsest]) :
    (run scaler settings start initial).map Outcome.canvas =
      reconstruct scaler settings start coarsest (between.reverse ++ [initial]) >>=
        fun outcome => finish settings initial outcome.canvas := by
  rw [run_of_descend h]
  cases reconstruct scaler settings start coarsest (between.reverse ++ [initial]) with
  | error => rfl
  | ok outcome =>
    simp only [bind, Except.bind]
    cases finish settings initial outcome.canvas <;> rfl

/-! ### From images to runs -/

/-- Images and masks of shapes that are accepted are paired, if their rows can be walked. -/
theorem pair?_of_accepted {image mask image' mask' : Raster} (h : settings.Accepted image mask)
    (himage : image'.SameShape image) (hmask : mask'.SameShape mask) :
    Canvas.pair? image' mask' = Failure.ofFault (Canvas.checkRows image.width image.depth) >>=
      fun _ => .ok (.ofParts image' mask') := by
  have hcheck : Canvas.checkMask image' mask' = .ok () := by
    refine Canvas.checkMask_eq_ok_iff.mpr ⟨?_, ?_, ?_⟩
    · rw [hmask.depth_eq, h.mask_depth]
    · rw [himage.width_eq, hmask.width_eq, h.mask_width]
    · rw [himage.height_eq, hmask.height_eq, h.mask_height]
  rw [Canvas.pair?, hcheck, himage.width_eq, himage.depth_eq]
  rfl

/-- On what is accepted, filling is a run. -/
theorem fill?_of_accepted {image mask : Raster} (h : settings.Accepted image mask) :
    fill? scaler settings start image mask =
      Failure.ofFault (Canvas.checkRows image.width image.depth) >>= fun _ => Failure.ofFault
        (run scaler settings start (.ofParts image (mask.threshold settings.threshold))) := by
  rw [fill?, Settings.check_eq_ok_iff.mpr h,
    pair?_of_accepted h (.refl image) (mask.sameShape_threshold _)]
  cases Canvas.checkRows image.width image.depth <;> rfl

theorem fillCanvas?_of_accepted (h : settings.Accepted initial.image initial.mask) :
    fillCanvas? scaler settings start initial = do
      let outcome ← Failure.ofFault (run scaler settings start initial)
      let canvas ← Canvas.pair? outcome.canvas.image initial.mask
      return { outcome with canvas } := by
  rw [fillCanvas?, Settings.check_eq_ok_iff.mpr h]
  rfl

/-- A filled image was accepted, and it is what a run ends with. -/
theorem run_of_fill? {image mask : Raster} {outcome : Outcome}
    (h : fill? scaler settings start image mask = .ok outcome) :
    settings.Accepted image mask ∧
      run scaler settings start (.ofParts image (mask.threshold settings.threshold)) =
        .ok outcome := by
  obtain ⟨_, hcheck, -⟩ := bind_eq_ok_iff.mp h
  have haccepted := Settings.check_eq_ok_iff.mp (Failure.ofRefusal_eq_ok_iff.mp hcheck)
  rw [fill?_of_accepted haccepted] at h
  obtain ⟨_, -, h⟩ := bind_eq_ok_iff.mp h
  exact ⟨haccepted, Failure.ofFault_eq_ok_iff.mp h⟩

/-- A filled canvas was accepted; it has the image that a run ends with, and its own mask. -/
theorem run_of_fillCanvas? {outcome : Outcome}
    (h : fillCanvas? scaler settings start initial = .ok outcome) :
    settings.Accepted initial.image initial.mask ∧
      ∃ filled, run scaler settings start initial = .ok filled ∧
        outcome.canvas = .ofParts filled.canvas.image initial.mask := by
  obtain ⟨_, hcheck, -⟩ := bind_eq_ok_iff.mp h
  have haccepted := Settings.check_eq_ok_iff.mp (Failure.ofRefusal_eq_ok_iff.mp hcheck)
  rw [fillCanvas?_of_accepted haccepted] at h
  obtain ⟨filled, hrun, h⟩ := bind_eq_ok_iff.mp h
  obtain ⟨canvas, hpair, h⟩ := bind_eq_ok_iff.mp h
  cases h
  obtain ⟨rfl, -⟩ := Canvas.consistent_of_pair? hpair
  exact ⟨haccepted, filled, Failure.ofFault_eq_ok_iff.mp hrun, rfl⟩

end Filling

end Retouch
