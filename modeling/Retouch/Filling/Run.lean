import Retouch.Filling.Pyramid
import Retouch.Filling.Settings
import Retouch.Matching.Checked
import Retouch.Voting.Repaint

/-!
# Retouch — Filling — Run

Fills the holes of a canvas.  A field is seeded at random at the coarsest level of the pyramid,
between the level without its holes and the level itself, and carried towards the finest level.
At every level it is improved and the target repainted in turns; the last repaint of a level
already has the size of the next finer one and becomes the target there.  Level 0 has no turns of
its own.  A canvas without holes comes back as it is.

A run is written for any way of bringing a canvas to another size (`Resizing`) and any source of
random words.  The library mostly looks at runs that scale plane by plane (`Filling.run`).  Besides
the filled canvas its `Outcome` tells what happened on the way: the levels, every repaint, and the
phases of the run.
-/

namespace Retouch

/-- Something that happened in a run. -/
inductive Event where
  /-- A level of the pyramid was built. -/
  | level (index : Nat) (canvas : Canvas)
  /-- The target of a level was repainted. -/
  | repaint (level iteration : Nat) (target : Canvas)

/-- A part of a run that takes its own time. -/
inductive Phase where
  | pyramid
  | level (index : Nat)
  deriving DecidableEq

/-- The name under which the time of a phase is recorded. -/
def Phase.name : Phase → String
  | pyramid => "build_pyramid"
  | level i => s!"level_{i}"

/-- The canvas a run ends with, and what happened on the way. -/
structure Outcome where
  canvas : Canvas
  events : List Event
  phases : List Phase

/-- Where a level ends: its field, and the target at the size of the next finer level. -/
structure LevelEnd (σ : Type) where
  field : MatchField σ
  target : Canvas
  events : List Event

/-- `n` turns of improving the field and repainting its target, the first of them numbered
`iteration`. -/
def Filling.turns {σ : Type} [WordSource σ] (level passes : Nat) : Nat → Nat → MatchField σ →
    Except Fault (MatchField σ × List Event)
  | 0, _, f => .ok (f, [])
  | n + 1, iteration, f => do
    let f ← f.improve? passes
    let target ← f.repaint? .same f.source f.target
    let f ← f.retarget? target
    let (f, events) ← turns level passes n (iteration + 1) f
    return (f, .repaint level iteration target :: events)

/-- The field of the coarsest level: from the level without its holes to the level itself,
scattered at random. -/
def Filling.coarsestField? {σ : Type} [WordSource σ] (settings : Settings) (start : σ)
    (level : Canvas) : Except Fault (MatchField σ) :=
  (MatchField.start ⟨level.clearHoles, level, settings.radius⟩ start).scatter?

/-- A way of bringing a canvas to another size. -/
def Resizing : Type :=
  Canvas → Nat → Nat → Except Fault Canvas

namespace Resizing

/-- Plane by plane. -/
def planes (scaler : Scaler) : Resizing :=
  fun c width height => c.scaleTo? scaler width height

/-- As packed pixels. -/
def packed (scaler : PackedScaler) : Resizing :=
  fun c width height => c.resample? scaler width height

variable {σ : Type} [WordSource σ]

/-- All turns of a level; the last one repaints at the size of the `finer` level. -/
def workLevel (resize : Resizing) (settings : Settings) (level : Nat) (finer : Canvas)
    (f : MatchField σ) : Except Fault (LevelEnd σ) := do
  let (repaints, passes) := (settings.repaintsAt level, settings.passesAt level)
  let (f, events) ← Filling.turns level passes (repaints - 1) 1 f
  let f ← f.improve? passes
  let enlarged ← resize f.target finer.width finer.height
  let target ← f.repaint? .double finer enlarged
  return ⟨f, target, events ++ [.repaint level repaints target]⟩

/-- Works the level of the field and all finer ones, which are listed from the next finer one to
the finest. -/
def climb (resize : Resizing) (settings : Settings) (f : MatchField σ) :
    List Canvas → Except Fault Outcome
  | [] => .ok ⟨f.target, [], []⟩
  | finer :: rest => do
    let level := rest.length + 1
    let done ← resize.workLevel settings level finer f
    if rest.isEmpty then
      return ⟨done.target, done.events, [.level level]⟩
    let next ← done.field.finer? done.target finer
    let outcome ← climb resize settings next rest
    return ⟨outcome.canvas, done.events ++ outcome.events, .level level :: outcome.phases⟩

/-- Fills the holes of a canvas. -/
def run (resize : Resizing) (settings : Settings) (start : σ) (initial : Canvas) :
    Except Fault Outcome := do
  let pyramid := Pyramid.build initial settings.radius
  let shown := pyramid.levels.zipIdx.map fun (canvas, i) => Event.level i canvas
  match pyramid.levels.reverse with
  | coarsest :: finer :: rest =>
    let field ← Filling.coarsestField? settings start coarsest
    let outcome ← resize.climb settings field (finer :: rest)
    let canvas ←
      if settings.keepsKnown then outcome.canvas.restore? initial else .ok outcome.canvas
    return ⟨canvas, shown ++ outcome.events, .pyramid :: outcome.phases⟩
  | _ => return ⟨initial, shown, [.pyramid]⟩

end Resizing

namespace Filling

variable {σ : Type} [WordSource σ]

/-- A level worked with a scaler of planes. -/
def workLevel (scaler : Scaler) (settings : Settings) (level : Nat) (finer : Canvas)
    (f : MatchField σ) : Except Fault (LevelEnd σ) :=
  (Resizing.planes scaler).workLevel settings level finer f

/-- All levels worked with a scaler of planes. -/
def climb (scaler : Scaler) (settings : Settings) (f : MatchField σ) (others : List Canvas) :
    Except Fault Outcome :=
  (Resizing.planes scaler).climb settings f others

/-- A run with a scaler of planes. -/
def run (scaler : Scaler) (settings : Settings) (start : σ) (initial : Canvas) :
    Except Fault Outcome :=
  (Resizing.planes scaler).run settings start initial

/-- Fills the cells of an image whose mask sample is above the threshold. -/
def fill? (scaler : Scaler) (settings : Settings) (start : σ) (image mask : Raster) :
    Except Failure Outcome := do
  Failure.ofRefusal (settings.check image mask)
  let initial ← Canvas.pair? image (mask.threshold settings.threshold)
  Failure.ofFault (run scaler settings start initial)

/-- Fills the holes of a canvas; the result has the mask of the canvas again. -/
def fillCanvas? (scaler : Scaler) (settings : Settings) (start : σ) (initial : Canvas) :
    Except Failure Outcome := do
  Failure.ofRefusal (settings.check initial.image initial.mask)
  let outcome ← Failure.ofFault (run scaler settings start initial)
  let canvas ← Canvas.pair? outcome.canvas.image initial.mask
  return { outcome with canvas }

end Filling

end Retouch
