import Retouch.Matching.Pairing
import Retouch.Number.Single
import Retouch.Random.Draw

/-!
# Retouch — Matching — Field

A match field keeps, for every target pixel, the best source position known so far and the
distance found there.  It carries the source of random words that its searches draw from.

A field starts unset, is seeded (`scatter`, or `finer` from a field at a coarser size) and is then
improved in place.  Seeds that land on a patch without any valid cell are drawn again, at most
`redraws` times.  Everything a field does to its entries goes through `put`, one entry at a time.
-/

namespace Retouch

/-- The best known source position for a target pixel, and its distance. -/
structure Match where
  x : Nat
  y : Nat
  distance : Nat
  deriving DecidableEq

/-- The entry of a pixel that has no match yet. -/
def Match.unset : Match :=
  ⟨0, 0, maxDistance⟩

/-- A match for every pixel of the target, row by row. -/
structure MatchField (σ : Type) extends Pairing where
  entries : Array Match
  draws : σ

namespace MatchField

variable {σ : Type}

/-- Number of columns. -/
def width (f : MatchField σ) : Nat :=
  f.target.width

/-- Number of rows. -/
def height (f : MatchField σ) : Nat :=
  f.target.height

/-- The entry of pixel `p`. -/
def entry (f : MatchField σ) (p : Nat) : Match :=
  f.entries.getD p .unset

/-- The column of pixel `p`. -/
def column (f : MatchField σ) (p : Nat) : Nat :=
  p % f.width

/-- The row of pixel `p`. -/
def row (f : MatchField σ) (p : Nat) : Nat :=
  p / f.width

/-- The field without any match. -/
def start (pairing : Pairing) (draws : σ) : MatchField σ where
  toPairing := pairing
  entries := Array.replicate pairing.target.area .unset
  draws

/-- The field with the entry of pixel `p` replaced and the draws moved on. -/
def put (f : MatchField σ) (p : Nat) (m : Match) (draws : σ) : MatchField σ :=
  { f with entries := f.entries.setIfInBounds p m, draws }

@[simp]
theorem size_put (f : MatchField σ) (p : Nat) (m : Match) (draws : σ) :
    (f.put p m draws).entries.size = f.entries.size :=
  Array.size_setIfInBounds

/-- Putting an entry changes this entry only. -/
theorem entry_put {f : MatchField σ} {p : Nat} (hp : p < f.entries.size) (m : Match) (draws : σ)
    (q : Nat) : (f.put p m draws).entry q = if q = p then m else f.entry q := by
  simp only [entry, put, Array.getD_eq_getD_getElem?, Array.getElem?_setIfInBounds]
  by_cases h : p = q
  · subst h; simp [hp]
  · simp [h, Ne.symm h]

/-- The entry at `(x, y)`. -/
def entry? (f : MatchField σ) (x y : Nat) : Except Fault Match := do
  let p := y * f.width + x
  Fault.outOfRange.unless (p < f.entries.size)
  return f.entry p

/-- Visits all pixels row by row. -/
def forEach (f : MatchField σ) (step : MatchField σ → Nat → MatchField σ) : MatchField σ :=
  (List.range f.entries.size).foldl step f

/-! ### A new target -/

/-- Computes the distance of pixel `p` anew. -/
def remeasureAt (f : MatchField σ) (p : Nat) : MatchField σ :=
  let m := f.entry p
  f.put p { m with distance := f.distance (f.column p) (f.row p) m.x m.y } f.draws

/-- The same matches for another target of the same size, at their distances to it. -/
def retarget (f : MatchField σ) (target : Canvas) : MatchField σ :=
  { f with target }.forEach remeasureAt

/-! ### Seeds from a coarser field -/

/-- The seed of pixel `(x, y)` of a finer field: the entry of the coarse pixel covering it, with
its position brought to the size of the finer source.  Positions are divided and multiplied in
single precision and cut to whole numbers. -/
def seedFrom (coarse : MatchField σ) (target source : Canvas) (x y : Nat) : Match :=
  let xScale := Single.ofCount target.width / Single.ofCount coarse.width
  let yScale := Single.ofCount target.height / Single.ofCount coarse.height
  let m := coarse.entry
    (Single.floorBelow (Single.ofCount y / yScale) coarse.height * coarse.width +
      Single.floorBelow (Single.ofCount x / xScale) coarse.width)
  let xRatio := Single.ofCount source.width / Single.ofCount coarse.source.width
  let yRatio := Single.ofCount source.height / Single.ofCount coarse.source.height
  ⟨Single.floorBelow (Single.ofCount m.x * xRatio) source.width,
   Single.floorBelow (Single.ofCount m.y * yRatio) source.height, maxDistance⟩

/-- The seeds of a finer field, before they are settled. -/
def seeded (coarse : MatchField σ) (target source : Canvas) : MatchField σ where
  target
  source
  radius := coarse.radius
  entries := Array.ofFn fun p : Fin target.area =>
    coarse.seedFrom target source (p % target.width) (p / target.width)
  draws := coarse.draws

/-! ### Drawing seeds -/

variable [WordSource σ]

/-- How often a seed without any valid cell is drawn again. -/
def redraws : Nat := 20

/-- A source position drawn at random. -/
def drawPosition (p : Pairing) (s : σ) : (Nat × Nat) × σ :=
  let (x, s) := Draw.below p.source.width s
  let (y, s) := Draw.below p.source.height s
  ((x, y), s)

/-- Draws the match of target pixel `(x, y)` again while it has no valid cell, at most `n`
times. -/
def redraw (p : Pairing) (x y : Nat) : Nat → Match → σ → Match × σ
  | 0, m, s => (m, s)
  | n + 1, m, s =>
    if m.distance = maxDistance then
      let (q, s) := drawPosition p s
      redraw p x y n ⟨q.1, q.2, p.distance x y q.1 q.2⟩ s
    else
      (m, s)

/-- Computes the distance of the seed of pixel `p`, drawing again where it is the largest. -/
def settleAt (f : MatchField σ) (p : Nat) : MatchField σ :=
  let (x, y) := (f.column p, f.row p)
  let m := f.entry p
  let (m, s) := redraw f.toPairing x y redraws
    { m with distance := f.distance x y m.x m.y } f.draws
  f.put p m s

/-- Settles every pixel. -/
def settle (f : MatchField σ) : MatchField σ :=
  f.forEach settleAt

/-- Gives pixel `p` a position at random. -/
def scatterAt (f : MatchField σ) (p : Nat) : MatchField σ :=
  let (q, s) := drawPosition f.toPairing f.draws
  f.put p ⟨q.1, q.2, maxDistance⟩ s

/-- Gives every pixel a position at random, then settles. -/
def scatter (f : MatchField σ) : MatchField σ :=
  (f.forEach scatterAt).settle

/-- The field for a larger target and source, seeded from a coarser one. -/
def finer (coarse : MatchField σ) (target source : Canvas) : MatchField σ :=
  (coarse.seeded target source).settle

end MatchField

end Retouch
