import Retouch.Matching.Search

/-!
# Retouch — Matching — Checked

The operations on match fields, each provided that it has a meaning: what it looks up exists, what
it draws from is not empty, and every distance that it computes on the way fits its words.

Which distances these are depends on the draws, so the last condition is tested by going along
with the operation (`holdsAlong`): before every step, a test whose name ends in `Fits` looks at
the distances that this step is going to compute.  In a roomy pairing all distances fit, and there
is nothing to go along with.  Behind its checks an operation is the plain one.
-/

namespace Retouch

/-- Whether the distances of the offered positions that lie in the source can be computed. -/
def Pairing.offersFit (p : Pairing) (x y : Nat) (positions : List (Int × Int)) : Bool :=
  positions.all fun q => !p.source.contains q.1 q.2 || p.fits x y q.1 q.2

namespace MatchField

variable {σ : Type}

/-- Whether `test` holds at every pixel of `order`, in the field that `step` has made of the ones
before. -/
def holdsAlong (step : MatchField σ → Nat → MatchField σ) (test : MatchField σ → Nat → Bool) :
    List Nat → MatchField σ → Bool
  | [], _ => true
  | p :: order, f => test f p && holdsAlong step test order (step f p)

/-! ### A new target -/

/-- Whether the distance that `remeasureAt` computes fits. -/
def remeasureFits (f : MatchField σ) (p : Nat) : Bool :=
  f.fits (f.column p) (f.row p) (f.entry p).x (f.entry p).y

/-- `retarget`, provided that the sizes agree and the distances can be computed. -/
def retarget? (f : MatchField σ) (target : Canvas) : Except Fault (MatchField σ) := do
  Fault.sizeMismatch.unless (target.width = f.width ∧ target.height = f.height)
  let start := { f with target }
  if f.entries.size = 0 then
    return start
  Fault.divisionByZero.unless (0 < target.depth)
  Fault.overflow.unless <|
    start.roomy || start.holdsAlong remeasureAt remeasureFits (List.range start.entries.size)
  return f.retarget target

variable [WordSource σ]

/-! ### Seeds -/

/-- Whether the distances that `redraw` computes fit. -/
def redrawFits (p : Pairing) (x y : Nat) : Nat → Match → σ → Bool
  | 0, _, _ => true
  | n + 1, m, s =>
    if m.distance = maxDistance then
      let (q, s) := drawPosition p s
      p.fits x y q.1 q.2 && redrawFits p x y n ⟨q.1, q.2, p.distance x y q.1 q.2⟩ s
    else
      true

/-- Whether the distances that `settleAt` computes fit. -/
def settleFits (f : MatchField σ) (p : Nat) : Bool :=
  let (x, y) := (f.column p, f.row p)
  let m := f.entry p
  f.fits x y m.x m.y &&
    redrawFits f.toPairing x y redraws { m with distance := f.distance x y m.x m.y } f.draws

/-- Whether a field with the given seeds can be settled. -/
def checkSettle (f : MatchField σ) : Except Fault Unit := do
  Fault.divisionByZero.unless (0 < f.target.depth)
  Fault.overflow.unless <|
    f.roomy || f.holdsAlong settleAt settleFits (List.range f.entries.size)

/-- `scatter`, provided that there are positions to draw and distances can be computed. -/
def scatter? (f : MatchField σ) : Except Fault (MatchField σ) := do
  if f.entries.size = 0 then
    return f
  Fault.emptyRange.unless (0 < f.source.width ∧ 0 < f.source.height)
  (f.forEach scatterAt).checkSettle
  return f.scatter

/-- `finer`, provided that no side is empty where it matters and distances can be computed. -/
def finer? (coarse : MatchField σ) (target source : Canvas) : Except Fault (MatchField σ) := do
  Fault.overflow.unless (target.height = 0 ∨ 0 < coarse.height)
  if target.area = 0 then
    return coarse.seeded target source
  Fault.overflow.unless (0 < coarse.width ∧ 0 < source.width ∧ 0 < source.height)
  (coarse.seeded target source).checkSettle
  return coarse.finer target source

/-! ### The search -/

/-- Whether a search can be carried out: once the source has columns, it needs rows to clamp
into, and distances. -/
def checkSearch (f : MatchField σ) : Except Fault Unit := do
  if 0 < firstReach f.toPairing then
    Fault.emptyRange.unless (0 < f.source.height)
    Fault.divisionByZero.unless (0 < f.target.depth)

/-- Whether the distances that `refine` computes fit. -/
def refineFits (f : MatchField σ) (x y : Nat) (dir : Int) : Bool :=
  f.offersFit x y (f.neighbours x y dir) &&
    f.offersFit x y (probes f.toPairing (f.propagated x y dir) f.draws).1

/-- `refine`, provided that the pixel and the neighbours exist and distances can be computed. -/
def refine? (f : MatchField σ) (x y : Nat) (dir : Int) : Except Fault (MatchField σ) := do
  Fault.outOfRange.unless (y * f.width + x < f.entries.size)
  Fault.overflow.unless ((x : Int) - dir < Word.half64 ∧ (y : Int) - dir < Word.half64)
  let y₀ := (y : Int) - dir
  Fault.outOfRange.unless
    (0 ≤ y₀ ∧ y₀ < f.height → y₀.toNat * f.width + x < f.entries.size)
  f.checkSearch
  Fault.overflow.unless (f.roomy || f.refineFits x y dir)
  return f.refine x y dir

/-- Whether the distances that `forwardAt` computes fit. -/
def forwardFits (f : MatchField σ) (p : Nat) : Bool :=
  (f.entry p).distance = 0 || f.refineFits (f.column p) (f.row p) 1

/-- Whether the distances that `backwardAt` computes fit. -/
def backwardFits (f : MatchField σ) (p : Nat) : Bool :=
  f.refineFits (f.column p) (f.row p) (-1)

/-- Whether the distances of a pass fit. -/
def passFits (f : MatchField σ) : Bool :=
  let order := List.range f.entries.size
  f.holdsAlong forwardAt forwardFits order &&
    f.forward.holdsAlong backwardAt backwardFits order.reverse

/-- Whether the distances of a number of passes fit. -/
def improveFits (f : MatchField σ) : Nat → Bool
  | 0 => true
  | n + 1 => f.passFits && f.pass.improveFits n

/-- `improve`, provided that the search can be carried out where there is anything to search. -/
def improve? (f : MatchField σ) (passes : Nat) : Except Fault (MatchField σ) := do
  if passes = 0 ∨ f.entries.size = 0 then
    return f
  f.checkSearch
  Fault.overflow.unless (f.roomy || f.improveFits passes)
  return f.improve passes

end MatchField

end Retouch
