import Retouch.Canvas.Basic
import Retouch.Matching.Similarity

/-!
# Retouch — Matching — Pairing

A pairing sets a target canvas against a source canvas and says how large the patches are that
are compared.  The patch at a position is the square window of `side × side` cells around it.

The distance of a target patch and a source patch adds up, cell by cell, the squared difference
of the pixels; a cell that lies outside its canvas or on a hole, in either of the two, costs as
much as pixels can differ at all.  The sum is scaled so that the cost of a window with nothing but
such cells becomes `maxDistance`.
-/

namespace Retouch

/-- Two canvases whose patches are compared. -/
structure Pairing where
  target : Canvas
  source : Canvas
  radius : Nat

namespace Pairing

/-- The side of a window. -/
def side (p : Pairing) : Nat :=
  2 * p.radius + 1

/-- The most that one cell can cost. -/
def cellSpan (p : Pairing) : Nat :=
  Byte.squaredSpan * p.target.depth

/-- The most that a window can cost. -/
def fullCost (p : Pairing) : Nat :=
  p.side * p.side * p.cellSpan

/-- The cost of one cell of the window: at `(x, y)` in the target and `(x', y')` in the source. -/
def cellCost (p : Pairing) (x y x' y' : Int) : Nat :=
  if p.target.isOpen x y && p.source.isOpen x' y' then
    p.target.squaredDifference p.source
      (p.target.cell x.toNat y.toNat) (p.source.cell x'.toNat y'.toNat)
  else
    p.cellSpan

/-- The offsets along one axis, from the first up to below the second, at which the windows around
`v` and `v'` lie inside axes of `n` and `n'` cells both. -/
def overlap (p : Pairing) (v v' : Int) (n n' : Nat) : Nat × Nat :=
  let r : Int := p.radius
  ((r - min v v').toNat, min p.side (min (n - v + r).toNat (n' - v' + r).toNat))

/-- The overlap of the rows of two windows. -/
def rows (p : Pairing) (y y' : Int) : Nat × Nat :=
  p.overlap y y' p.target.height p.source.height

/-- The overlap of the columns of two windows. -/
def columns (p : Pairing) (x x' : Int) : Nat × Nat :=
  p.overlap x x' p.target.width p.source.width

/-- The cost of the window around `(x, y)` in the target and `(x', y')` in the source.  Cells
outside the overlap are not visited: what they cost is known (`cost_eq`). -/
def cost (p : Pairing) (x y x' y' : Int) : Nat :=
  let r : Int := p.radius
  let (top, bottom) := p.rows y y'
  let (left, right) := p.columns x x'
  Sum.within p.side top bottom (p.side * p.cellSpan) fun i =>
    Sum.within p.side left right p.cellSpan fun j =>
      p.cellCost (x - r + j) (y - r + i) (x' - r + j) (y' - r + i)

/-- The distance of the target patch at `(x, y)` and the source patch at `(x', y')`. -/
def distance (p : Pairing) (x y x' y' : Int) : Nat :=
  min maxDistance (maxDistance * p.cost x y x' y' / p.fullCost)

/-- Distances do not exceed the largest one. -/
theorem distance_le (p : Pairing) (x y x' y' : Int) : p.distance x y x' y' ≤ maxDistance :=
  Nat.min_le_left _ _

/-! ### The cost, cell by cell -/

/-- Outside the overlap of the rows a cell costs as much as cells can. -/
theorem cellCost_of_row {p : Pairing} {y y' : Int} {i : Nat} (hi : i < p.side)
    (h : ¬ ((p.rows y y').1 ≤ i ∧ i < (p.rows y y').2)) (x x' : Int) :
    p.cellCost x (y - p.radius + i) x' (y' - p.radius + i) = p.cellSpan := by
  simp only [rows, overlap] at h
  refine if_neg fun hopen => h ?_
  simp only [Canvas.isOpen, Canvas.contains, Bool.and_eq_true, decide_eq_true_eq] at hopen
  omega

/-- Outside the overlap of the columns a cell costs as much as cells can. -/
theorem cellCost_of_column {p : Pairing} {x x' : Int} {j : Nat} (hj : j < p.side)
    (h : ¬ ((p.columns x x').1 ≤ j ∧ j < (p.columns x x').2)) (y y' : Int) :
    p.cellCost (x - p.radius + j) y (x' - p.radius + j) y' = p.cellSpan := by
  simp only [columns, overlap] at h
  refine if_neg fun hopen => h ?_
  simp only [Canvas.isOpen, Canvas.contains, Bool.and_eq_true, decide_eq_true_eq] at hopen
  omega

/-- The cost of a window is the sum over all its cells. -/
theorem cost_eq (p : Pairing) (x y x' y' : Int) :
    p.cost x y x' y' = Sum.below p.side fun i => Sum.below p.side fun j =>
      p.cellCost (x - p.radius + j) (y - p.radius + i)
        (x' - p.radius + j) (y' - p.radius + i) := by
  have hcolumns : (p.columns x x').2 ≤ p.side := Nat.min_le_left _ _
  have hrows : (p.rows y y').2 ≤ p.side := Nat.min_le_left _ _
  have hrow (i : Nat) := Sum.within_eq_below hcolumns fun j hj h =>
    cellCost_of_column hj h (y - p.radius + i) (y' - p.radius + i)
  simp only [cost, hrow]
  refine Sum.within_eq_below hrows fun i hi h => ?_
  rw [← Sum.below_const]
  exact Sum.below_congr fun j _ => cellCost_of_row hi h _ _

/-- A cell costs at most `cellSpan`. -/
theorem cellCost_le (p : Pairing) (x y x' y' : Int) : p.cellCost x y x' y' ≤ p.cellSpan := by
  unfold cellCost
  split
  · refine Nat.le_trans (Sum.below_le_below fun k _ => Byte.squaredDifference_le _ _) ?_
    rw [Sum.below_const, cellSpan, Nat.mul_comm]
    exact Nat.mul_le_mul_left _ (Nat.min_le_left _ _)
  · exact Nat.le_refl _

/-- A window costs at most `fullCost`. -/
theorem cost_le (p : Pairing) (x y x' y' : Int) : p.cost x y x' y' ≤ p.fullCost := by
  have hrow (i : Nat) := Sum.below_le_below (n := p.side) fun j _ => p.cellCost_le
    (x - p.radius + j) (y - p.radius + i) (x' - p.radius + j) (y' - p.radius + i)
  rw [cost_eq]
  refine Nat.le_trans (Sum.below_le_below fun i _ => hrow i) (Nat.le_of_eq ?_)
  rw [Sum.below_const, Sum.below_const, fullCost, Nat.mul_assoc]

/-! ### When a distance can be computed -/

/-- Whether the squared difference of one cell of the window fits its word. -/
def cellFits (p : Pairing) (x y x' y' : Int) : Bool :=
  !(p.target.isOpen x y && p.source.isOpen x' y') ||
    p.target.squaredDifference p.source
      (p.target.cell x.toNat y.toNat) (p.source.cell x'.toNat y'.toNat) < Word.span32

/-- Whether all squared differences of the window fit their word. -/
def cellsFit (p : Pairing) (x y x' y' : Int) : Bool :=
  let r : Int := p.radius
  let (top, bottom) := p.rows y y'
  let (left, right) := p.columns x x'
  (List.range' top (bottom - top)).all fun i => (List.range' left (right - left)).all fun j =>
    p.cellFits (x - r + j) (y - r + i) (x' - r + j) (y' - r + i)

/-- Whether a distance can be computed in machine words: no squared difference, no cost and no
scaled cost leaves its word. -/
def fits (p : Pairing) (x y x' y' : Int) : Bool :=
  p.fullCost < Word.span64 && p.cellsFit x y x' y' &&
    maxDistance * p.cost x y x' y' < Word.span64

/-- Whether words have room for any distance of the pairing, whatever its samples are. -/
def roomy (p : Pairing) : Bool :=
  maxDistance * p.fullCost < Word.span64 &&
    Byte.squaredSpan * min p.target.depth p.source.depth < Word.span32

/-- In a roomy pairing every distance can be computed. -/
theorem fits_of_roomy {p : Pairing} (h : p.roomy) (x y x' y' : Int) : p.fits x y x' y' := by
  simp only [roomy, Bool.and_eq_true, decide_eq_true_eq] at h
  have hcost := p.cost_le x y x' y'
  have hcells : p.cellsFit x y x' y' := by
    simp only [cellsFit, List.all_eq_true]
    intro i _ j _
    have hle : p.target.squaredDifference p.source
        (p.target.cell (x - p.radius + j).toNat (y - p.radius + i).toNat)
        (p.source.cell (x' - p.radius + j).toNat (y' - p.radius + i).toNat) ≤
        Byte.squaredSpan * min p.target.depth p.source.depth := by
      rw [Nat.mul_comm, ← Sum.below_const]
      exact Sum.below_le_below fun k _ => Byte.squaredDifference_le _ _
    simp only [cellFits, Bool.or_eq_true, decide_eq_true_eq]
    exact Or.inr (Nat.lt_of_le_of_lt hle h.2)
  simp only [fits, Bool.and_eq_true, decide_eq_true_eq]
  have hscaled := Nat.lt_of_le_of_lt (Nat.mul_le_mul_left maxDistance hcost) h.1
  have hfull := Nat.lt_of_le_of_lt (Nat.le_mul_of_pos_left p.fullCost (by decide)) h.1
  exact ⟨⟨hfull, hcells⟩, hscaled⟩

/-! ### Positions as words -/

/-- Whether the source position of every open target cell in the window fits its word. -/
def sourceFits (p : Pairing) (x y x' y' : Int) : Bool :=
  (List.range p.target.area).all fun q =>
    let (dx, dy) := ((q % p.target.width : Nat) - x, (q / p.target.width : Nat) - y)
    p.target.isHole q || p.radius < dx.natAbs || p.radius < dy.natAbs ||
      (Word.fitsSigned (x' + dx) && Word.fitsSigned (y' + dy))

/-- The distance of the patches at two positions given as 64-bit words, provided that everything
on the way fits its word.  A word in the upper half of its range is a position left of or above
the canvas. -/
def distance? (p : Pairing) (x y x' y' : Nat) : Except Fault Nat := do
  Fault.overflow.unless (p.radius < Word.half64)
  Fault.divisionByZero.unless (0 < p.target.depth)
  let (x, y) := (Word.signed x, Word.signed y)
  let (x', y') := (Word.signed x', Word.signed y')
  let r : Int := p.radius
  Fault.overflow.unless
    (Word.fitsSigned (x - r) ∧ Word.fitsSigned (x + r) ∧
      Word.fitsSigned (y - r) ∧ Word.fitsSigned (y + r))
  Fault.overflow.unless (p.sourceFits x y x' y')
  Fault.overflow.unless (p.fits x y x' y')
  return p.distance x y x' y'

end Pairing

end Retouch
