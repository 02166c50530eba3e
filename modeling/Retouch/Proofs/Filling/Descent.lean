import Retouch.Proofs.Canvas.Halving

/-!
# Retouch — Filling — The way down

A pyramid can be built without looking ahead: halve while both sides are longer than the radius and
there is a hole, and stop as well when halving has left the sides as they were.  `Pyramid.Descent`
tells this step by step.  It ends for every canvas and every radius, radius 0 and canvases of one
row included, and it ends with the levels of the pyramid and no others
(`Pyramid.descent_iff`).

`Pyramid.IsChain` says what these levels are like: each one is the half of the one before and has
other sides, those before the coarsest had a reason to be halved, and the coarsest has none or
cannot be halved any more.
-/

namespace Retouch

/-- The two canvases have the same sides. -/
def Canvas.SameSides (c c' : Canvas) : Prop :=
  c.width = c'.width ∧ c.height = c'.height

/-- Halving leaves the sides as they are exactly when a canvas cannot be halved. -/
theorem Canvas.sameSides_halve_iff (c : Canvas) :
    c.halve.SameSides c ↔ c.image.halvable = false := by
  constructor
  · intro hsame
    refine Bool.eq_false_iff.mpr fun hhalvable => ?_
    have hw : c.halve.width = c.width / 2 := by
      rw [width, image_halve, Raster.width_halve hhalvable, width]
    obtain ⟨hwidth, -⟩ := Raster.two_le_of_halvable hhalvable
    have hlt : c.width / 2 < c.width :=
      Nat.div_lt_self (Nat.lt_of_lt_of_le Nat.two_pos hwidth) Nat.one_lt_two
    exact Nat.ne_of_lt hlt (hw ▸ hsame.1)
  · intro hhalvable
    have hself : c.halve = c := by rw [halve, hhalvable, if_neg Bool.false_ne_true]
    rw [hself]
    exact ⟨rfl, rfl⟩

namespace Pyramid

variable {radius : Nat} {c : Canvas}

/-- There is a reason to halve the canvas: both sides are longer than the radius, and there is a
hole. -/
def Wants (radius : Nat) (c : Canvas) : Prop :=
  radius < c.width ∧ radius < c.height ∧ 0 < c.countHoles

/-- A canvas is split when there is a reason to, and halving changes its sides. -/
theorem splits_iff : splits radius c = true ↔ Wants radius c ∧ ¬ c.halve.SameSides c := by
  rw [Canvas.sameSides_halve_iff, Bool.not_eq_false, Wants]
  simp only [splits, Bool.and_eq_true, decide_eq_true_eq, and_assoc]

/-! ### Step by step -/

/-- From the canvas down, the levels are those of the list. -/
inductive Descent (radius : Nat) : Canvas → List Canvas → Prop where
  /-- There is no reason to halve. -/
  | done {c : Canvas} (h : ¬ Wants radius c) : Descent radius c [c]
  /-- Halving has left the sides as they were. -/
  | stuck {c : Canvas} (h : Wants radius c) (same : c.halve.SameSides c) : Descent radius c [c]
  /-- Halving has led to the next level, and it goes on from there. -/
  | more {c : Canvas} {levels : List Canvas} (h : Wants radius c)
      (other : ¬ c.halve.SameSides c) (rest : Descent radius c.halve levels) :
      Descent radius c (c :: levels)

/-- The way down ends, and its levels are those of the pyramid. -/
theorem descent_build (c : Canvas) (radius : Nat) : Descent radius c (build c radius).levels := by
  change Descent radius c (c :: descend radius c)
  fun_induction descend radius c with
  | case1 c hsplits _ ih =>
    obtain ⟨hwants, hother⟩ := splits_iff.mp hsplits
    exact .more hwants hother ih
  | case2 c hsplits =>
    by_cases hwants : Wants radius c
    · exact .stuck hwants (Classical.byContradiction fun hother =>
        hsplits (splits_iff.mpr ⟨hwants, hother⟩))
    · exact .done hwants

/-- There is one way down only. -/
theorem Descent.unique {levels levels' : List Canvas} (h : Descent radius c levels)
    (h' : Descent radius c levels') : levels = levels' := by
  induction h generalizing levels' with
  | done hdone =>
    cases h' with
    | done => rfl
    | stuck hwants => exact absurd hwants hdone
    | more hwants => exact absurd hwants hdone
  | stuck hwants hsame =>
    cases h' with
    | done hdone => exact absurd hwants hdone
    | stuck => rfl
    | more _ hother => exact absurd hsame hother
  | more hwants hother _ ih =>
    cases h' with
    | done hdone => exact absurd hwants hdone
    | stuck _ hsame => exact absurd hsame hother
    | more _ _ hrest => rw [ih hrest]

theorem descent_iff {levels : List Canvas} :
    Descent radius c levels ↔ levels = (build c radius).levels :=
  ⟨fun h => h.unique (descent_build c radius), fun h => h ▸ descent_build c radius⟩

/-! ### What the levels are like -/

/-- The levels of `p` are halvings of `c`, as long as there is a reason to halve. -/
structure IsChain (radius : Nat) (c : Canvas) (p : Pyramid) : Prop where
  /-- There is a coarsest level. -/
  size_eq : p.size = p.coarsest + 1
  finest : p.level? 0 = .ok c
  sides : ∀ i level, p.level? i = .ok level →
    level.width = c.width / 2 ^ i ∧ level.height = c.height / 2 ^ i
  goesOn : ∀ i < p.coarsest, ∃ level, p.level? i = .ok level ∧ Wants radius level ∧
    p.level? (i + 1) = .ok level.halve ∧ ¬ level.halve.SameSides level
  stops : ∃ level, p.level? p.coarsest = .ok level ∧
    (level.width ≤ radius ∨ level.height ≤ radius ∨ level.countHoles = 0 ∨
      level.width = 1 ∨ level.height = 1)

theorem size_build (c : Canvas) (radius : Nat) :
    (build c radius).size = (build c radius).coarsest + 1 :=
  List.length_cons

theorem isChain_build (c : Canvas) (radius : Nat) : IsChain radius c (build c radius) where
  size_eq := size_build c radius
  finest := level?_build_eq_ok_iff.mpr ⟨Nat.zero_le _, rfl⟩
  sides := by
    intro i level hlevel
    obtain ⟨hi, rfl⟩ := level?_build_eq_ok_iff.mp hlevel
    exact ⟨width_level hi, height_level hi⟩
  goesOn := by
    intro i hi
    obtain ⟨hwants, hother⟩ := splits_iff.mp (splits_halved hi)
    exact ⟨c.halved i, level?_build_eq_ok_iff.mpr ⟨Nat.le_of_lt hi, rfl⟩, hwants,
      level?_build_eq_ok_iff.mpr ⟨hi, rfl⟩, hother⟩
  stops := ⟨_, level?_build_eq_ok_iff.mpr ⟨Nat.le_refl _, rfl⟩,
    stops_of_not_splits (splits_coarsest c radius)⟩

/-- Where only a hole is missing as a reason to halve, there is a second level exactly when there
is a hole. -/
theorem two_le_size_iff (hradius : 0 < radius) (hwidth : radius < c.width)
    (hheight : radius < c.height) : 2 ≤ (build c radius).size ↔ 0 < c.countHoles := by
  rw [size_build]
  constructor
  · intro hsize
    obtain ⟨⟨-, -, hholes⟩, -⟩ := splits_iff.mp (splits_halved (Nat.le_of_succ_le_succ hsize))
    exact hholes
  · intro hholes
    have hhalvable : c.image.halvable = true := by
      simp only [Raster.halvable, Bool.and_eq_true, decide_eq_true_eq]
      exact ⟨Nat.lt_of_le_of_lt hradius hwidth, Nat.lt_of_le_of_lt hradius hheight⟩
    have hfirst : splits radius c = true := by
      simp only [splits, Bool.and_eq_true, decide_eq_true_eq]
      exact ⟨⟨⟨hwidth, hheight⟩, hholes⟩, hhalvable⟩
    refine Nat.succ_le_succ (le_coarsest fun i hi => ?_)
    obtain rfl := Nat.lt_one_iff.mp hi
    exact hfirst

/-- **A pyramid is the one way down.**  For every canvas and every radius, going down ends, and it
ends with the levels of the pyramid only.  They begin with the canvas, each is the half of the one
before, and each but the coarsest has both sides longer than the radius and a hole; the coarsest has
a side that is not longer than the radius, no hole, or a side of length one.  For a radius that is
not zero and shorter than both sides, there are two levels or more exactly if there is a hole. -/
theorem build_is_descent (c : Canvas) (radius : Nat) :
    (∀ levels, Descent radius c levels ↔ levels = (build c radius).levels) ∧
    IsChain radius c (build c radius) ∧
    (0 < radius → radius < c.width → radius < c.height →
      (2 ≤ (build c radius).size ↔ 0 < c.countHoles)) :=
  ⟨fun _ => descent_iff, isChain_build c radius, two_le_size_iff⟩

/-- A single hole makes a second level; a column of holes cannot be halved at all, although at
radius 0 there is always a reason to. -/
theorem build_is_descent_small :
    let dot := Canvas.ofParts (.blank 5 4 .gray) (.ofHoles 5 4 fun x y => x == 1 && y == 2)
    let column := Canvas.ofParts (.blank 1 8 .gray) (.ofHoles 1 8 fun _ _ => true)
    0 < 1 ∧ 1 < dot.width ∧ 1 < dot.height ∧ 2 ≤ (build dot 1).size ∧
    Wants 0 column ∧ (build column 0).levels = [column] := by
  intro dot column
  have hwidth : 1 < dot.width := by decide
  have hheight : 1 < dot.height := by decide
  obtain ⟨-, -, hsize⟩ := build_is_descent dot 1
  have hholes : 0 < dot.countHoles := by decide +kernel
  have hwants : Wants 0 column := ⟨by decide, by decide, by decide +kernel⟩
  obtain ⟨hcolumn, -⟩ := build_is_descent column 0
  have hstuck : column.halve.SameSides column := column.sameSides_halve_iff.mpr (by decide)
  exact ⟨Nat.one_pos, hwidth, hheight, (hsize Nat.one_pos hwidth hheight).mpr hholes, hwants,
    ((hcolumn [column]).mp (.stuck hwants hstuck)).symm⟩

end Pyramid

end Retouch
