import Retouch.Matching.Field

/-!
# Retouch — Matching — Search

How a field finds better matches.  A pixel is refined by offers, each taken only when it lies in
the source and is strictly nearer than the match so far: first the matches of two neighbours,
shifted along with the step to the pixel, then positions drawn around the best of these, at a
reach that starts at the width of the source and is halved down to one.

A pass refines all pixels row by row, those with a perfect match excepted, with the neighbours to
the left and above, and then all pixels in reverse with the neighbours to the right and below.
-/

namespace Retouch

namespace Pairing

/-- The better of the match `m` of `(x, y)` and the offered source position. -/
def offer (p : Pairing) (x y : Nat) (x' y' : Int) (m : Match) : Match :=
  if p.source.contains x' y' then
    let d := p.distance x y x' y'
    if d < m.distance then ⟨x'.toNat, y'.toNat, d⟩ else m
  else
    m

/-- An offer is declined, or it is strictly nearer. -/
theorem offer_eq_or_lt (p : Pairing) (x y : Nat) (x' y' : Int) (m : Match) :
    p.offer x y x' y' m = m ∨ (p.offer x y x' y' m).distance < m.distance := by
  unfold offer
  split
  · dsimp only
    split
    · exact Or.inr ‹_›
    · exact Or.inl rfl
  · exact Or.inl rfl

/-- The match `m` of `(x, y)` after offers of several source positions, in order. -/
def offers (p : Pairing) (x y : Nat) (m : Match) (positions : List (Int × Int)) : Match :=
  positions.foldl (fun m q => p.offer x y q.1 q.2 m) m

end Pairing

namespace MatchField

variable {σ : Type}

/-! ### Positions that are offered -/

/-- What the neighbour `dir` columns before `(x, y)` has to offer. -/
def across (f : MatchField σ) (x y : Nat) (dir : Int) : List (Int × Int) :=
  let x₀ := (x : Int) - dir
  if 0 ≤ x₀ ∧ x₀ < f.width then
    let n := f.entry (y * f.width + x₀.toNat)
    [(n.x + dir, n.y)]
  else
    []

/-- What the neighbour `dir` rows before `(x, y)` has to offer. -/
def down (f : MatchField σ) (x y : Nat) (dir : Int) : List (Int × Int) :=
  let y₀ := (y : Int) - dir
  if 0 ≤ y₀ ∧ y₀ < f.height then
    let n := f.entry (y₀.toNat * f.width + x)
    [(n.x, n.y + dir)]
  else
    []

/-- What the neighbours of `(x, y)` have to offer: the matches of two of them, shifted along. -/
def neighbours (f : MatchField σ) (x y : Nat) (dir : Int) : List (Int × Int) :=
  f.across x y dir ++ f.down x y dir

/-- The reaches of the random search: `n`, its half, and so on down to 1. -/
def reaches (n : Nat) : List Nat :=
  if h : n = 0 then [] else n :: reaches (n / 2)
termination_by n
decreasing_by omega

/-- `v` moved into `0 … n - 1`. -/
def clampBelow (v : Int) (n : Nat) : Int :=
  min (max v 0) ((n : Int) - 1)

/-- How far the random search reaches at first; a width beyond the signed range counts as no
width. -/
def firstReach (p : Pairing) : Nat :=
  (Word.signed p.source.width).toNat

variable [WordSource σ]

/-- Source positions drawn around `centre`, one for each reach. -/
def probesAt (p : Pairing) (centre : Match) : List Nat → σ → List (Int × Int) × σ
  | [], s => ([], s)
  | reach :: rest, s =>
    let (dx, s) := Draw.within reach s
    let (dy, s) := Draw.within reach s
    let (probes, s) := probesAt p centre rest s
    ((clampBelow (centre.x + dx) p.source.width,
      clampBelow (centre.y + dy) p.source.height) :: probes, s)

/-- The source positions of the random search around `centre`. -/
def probes (p : Pairing) (centre : Match) (s : σ) : List (Int × Int) × σ :=
  probesAt p centre (reaches (firstReach p)) s

/-! ### Refining a pixel -/

/-- The match of `(x, y)` after the offers of its neighbours. -/
def propagated (f : MatchField σ) (x y : Nat) (dir : Int) : Match :=
  f.offers x y (f.entry (y * f.width + x)) (f.neighbours x y dir)

/-- Refines the match of `(x, y)`; `dir` says on which side its neighbours are asked. -/
def refine (f : MatchField σ) (x y : Nat) (dir : Int) : MatchField σ :=
  let m := f.propagated x y dir
  let (probes, s) := probes f.toPairing m f.draws
  f.put (y * f.width + x) (f.offers x y m probes) s

/-! ### Passes -/

/-- Refines pixel `p` on the way forward, unless its match is perfect. -/
def forwardAt (f : MatchField σ) (p : Nat) : MatchField σ :=
  if 0 < (f.entry p).distance then f.refine (f.column p) (f.row p) 1 else f

/-- Refines pixel `p` on the way back. -/
def backwardAt (f : MatchField σ) (p : Nat) : MatchField σ :=
  f.refine (f.column p) (f.row p) (-1)

/-- The way forward over all pixels. -/
def forward (f : MatchField σ) : MatchField σ :=
  (List.range f.entries.size).foldl forwardAt f

/-- The way back over all pixels. -/
def backward (f : MatchField σ) : MatchField σ :=
  (List.range f.entries.size).reverse.foldl backwardAt f

/-- One pass: forward over all pixels, then back. -/
def pass (f : MatchField σ) : MatchField σ :=
  f.forward.backward

/-- A number of passes. -/
def improve (f : MatchField σ) : Nat → MatchField σ
  | 0 => f
  | n + 1 => f.pass.improve n

end MatchField

end Retouch
