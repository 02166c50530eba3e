import Retouch.Canvas.Basic

/-!
# Retouch — Filling — Pyramid

A pyramid holds a canvas at ever smaller sizes, each half of the one before.  Halving goes on
while both sides are longer than a given radius and there is a hole left, and it ends at a canvas
that cannot be halved.
-/

namespace Retouch

/-- A canvas and its halvings, in order. -/
structure Pyramid where
  finest : Canvas
  coarser : List Canvas

namespace Pyramid

/-- Whether a canvas still has to be halved. -/
def splits (radius : Nat) (c : Canvas) : Bool :=
  radius < c.width && radius < c.height && 0 < c.countHoles && c.image.halvable

/-- A canvas that has to be halved gets narrower. -/
theorem width_halve_lt {radius : Nat} {c : Canvas} (h : splits radius c = true) :
    c.halve.width < c.width := by
  have hc : c.image.halvable = true := by
    simp only [splits, Bool.and_eq_true] at h
    exact h.2
  have hw : 2 ≤ c.image.width := by
    simp only [Raster.halvable, Bool.and_eq_true, decide_eq_true_eq] at hc
    exact hc.1
  simp only [Canvas.halve, hc, if_true, Canvas.width, Canvas.ofParts, Raster.halve,
    Raster.blockMeans, Raster.generate]
  omega

/-- The halvings of a canvas. -/
def descend (radius : Nat) (c : Canvas) : List Canvas :=
  if h : splits radius c then
    have := width_halve_lt h
    c.halve :: descend radius c.halve
  else
    []
termination_by c.width

theorem descend_of_splits {radius : Nat} {c : Canvas} (h : splits radius c = true) :
    descend radius c = c.halve :: descend radius c.halve := by
  rw [descend, dif_pos h]

theorem descend_of_not_splits {radius : Nat} {c : Canvas} (h : splits radius c = false) :
    descend radius c = [] := by
  rw [descend, dif_neg (by simp [h])]

/-- The pyramid over a canvas. -/
def build (canvas : Canvas) (radius : Nat) : Pyramid :=
  ⟨canvas, descend radius canvas⟩

/-- All levels, the finest first. -/
def levels (p : Pyramid) : List Canvas :=
  p.finest :: p.coarser

/-- Number of levels. -/
def size (p : Pyramid) : Nat :=
  p.levels.length

/-- The index of the coarsest level. -/
def coarsest (p : Pyramid) : Nat :=
  p.coarser.length

/-- The level with the given index. -/
def level? (p : Pyramid) (i : Nat) : Except Fault Canvas :=
  match p.levels[i]? with
  | some c => .ok c
  | none => .error .outOfRange

end Pyramid

end Retouch
