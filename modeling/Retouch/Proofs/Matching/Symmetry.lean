import Mathlib.Data.List.Basic
import Retouch.Matching.Pairing

/-!
# Retouch — Matching — Swapped pairings

A pairing is *swapped* when its source is taken for the target and its target for the source.  A
cell of a window is open in both canvases or it is not, whichever of them is asked first, and two
pixels differ as much the one way as the other.  So with as many channels on either side all cells
cost the same (`cellCost_swap`), and distances are symmetric, with holes and without
(`distance_swap`).

The checks are not symmetric: the window around the target position has to fit its words as a whole,
the one around the source position only where the target is open.  `distance?_swap` says that this
is the one thing that can keep a swapped pairing from finding the distance.
-/

namespace Retouch

/-- Two pixels differ as much as they do the other way round. -/
theorem Canvas.squaredDifference_comm (c other : Canvas) (p q : Nat) :
    c.squaredDifference other p q = other.squaredDifference c q p := by
  rw [squaredDifference, squaredDifference, Nat.min_comm]
  exact Sum.below_congr fun k _ => Byte.squaredDifference_comm _ _

namespace Pairing

/-- The pairing with the canvases swapped. -/
def swap (p : Pairing) : Pairing :=
  ⟨p.source, p.target, p.radius⟩

variable {p : Pairing}

/-! ### Windows -/

theorem overlap_swap (v v' : Int) (n n' : Nat) :
    p.swap.overlap v' v n' n = p.overlap v v' n n' := by
  have hmin : min v' v = min v v' := Int.min_comm v' v
  have hlast : min (n' - v' + p.radius).toNat (n - v + p.radius).toNat =
      min (n - v + p.radius).toNat (n' - v' + p.radius).toNat := Nat.min_comm _ _
  have hside : p.swap.side = p.side := rfl
  have hradius : p.swap.radius = p.radius := rfl
  simp only [overlap, hside, hradius, hmin, hlast]

theorem rows_swap (y y' : Int) : p.swap.rows y' y = p.rows y y' :=
  overlap_swap y y' p.target.height p.source.height

theorem columns_swap (x x' : Int) : p.swap.columns x' x = p.columns x x' :=
  overlap_swap x x' p.target.width p.source.width

/-! ### Costs -/

theorem cellSpan_swap (h : p.target.depth = p.source.depth) : p.swap.cellSpan = p.cellSpan :=
  congrArg (Byte.squaredSpan * ·) h.symm

theorem fullCost_swap (h : p.target.depth = p.source.depth) : p.swap.fullCost = p.fullCost :=
  congrArg (p.side * p.side * ·) (cellSpan_swap h)

/-- A cell is open in both canvases, or it costs as much as cells can. -/
theorem cellCost_swap (h : p.target.depth = p.source.depth) (x y x' y' : Int) :
    p.swap.cellCost x' y' x y = p.cellCost x y x' y' := by
  have hopen : (p.swap.target.isOpen x' y' && p.swap.source.isOpen x y) =
      (p.target.isOpen x y && p.source.isOpen x' y') := Bool.and_comm _ _
  rw [cellCost, cellCost, hopen, cellSpan_swap h]
  split
  · exact Canvas.squaredDifference_comm _ _ _ _
  · rfl

theorem cost_swap (h : p.target.depth = p.source.depth) (x y x' y' : Int) :
    p.swap.cost x' y' x y = p.cost x y x' y' := by
  have hside : p.swap.side = p.side := rfl
  have hradius : p.swap.radius = p.radius := rfl
  simp only [cost, rows_swap, columns_swap, hside, hradius, cellSpan_swap h, cellCost_swap h]

/-- Distances are symmetric. -/
theorem distance_swap (h : p.target.depth = p.source.depth) (x y x' y' : Int) :
    p.swap.distance x' y' x y = p.distance x y x' y' := by
  rw [distance, distance, cost_swap h, fullCost_swap h]

/-! ### Checks -/

theorem cellFits_swap (x y x' y' : Int) : p.swap.cellFits x' y' x y = p.cellFits x y x' y' := by
  have hopen : (p.swap.target.isOpen x' y' && p.swap.source.isOpen x y) =
      (p.target.isOpen x y && p.source.isOpen x' y') := Bool.and_comm _ _
  rw [cellFits, cellFits, hopen, Canvas.squaredDifference_comm]
  rfl

theorem fits_swap (h : p.target.depth = p.source.depth) (x y x' y' : Int) :
    p.swap.fits x' y' x y = p.fits x y x' y' := by
  have hradius : p.swap.radius = p.radius := rfl
  simp only [fits, cellsFit, rows_swap, columns_swap, hradius, cellFits_swap, fullCost_swap h,
    cost_swap h]

/-- The window around the position fits signed words. -/
def WindowFits (p : Pairing) (x y : Nat) : Prop :=
  let (x, y) := (Word.signed x, Word.signed y)
  let r : Int := p.radius
  Word.fitsSigned (x - r) ∧ Word.fitsSigned (x + r) ∧
    Word.fitsSigned (y - r) ∧ Word.fitsSigned (y + r)

instance (p : Pairing) (x y : Nat) : Decidable (p.WindowFits x y) := by
  unfold WindowFits; infer_instance

/-- Every source position of a window that fits as a whole fits its words. -/
theorem sourceFits_of_windowFits {x' y' : Nat} (h : p.WindowFits x' y') (x y : Int) :
    p.sourceFits x y (Word.signed x') (Word.signed y') = true := by
  obtain ⟨hleft, hright, htop, hbottom⟩ := h
  simp only [Word.fitsSigned, Bool.and_eq_true, decide_eq_true_eq] at hleft hright htop hbottom
  simp only [sourceFits, List.all_eq_true, Bool.or_eq_true, Bool.and_eq_true, Word.fitsSigned,
    decide_eq_true_eq]
  intro q _
  omega

/-- **Distances are symmetric**, with holes and without.  Where a distance is found between two
canvases with as many channels, the swapped pairing finds the same distance, unless the window
around its target position does not fit its words. -/
theorem distance?_swap (hdepth : p.target.depth = p.source.depth) {x y x' y' d : Nat}
    (h : p.distance? x y x' y' = .ok d) :
    p.swap.distance? x' y' x y = if p.WindowFits x' y' then .ok d else .error .overflow := by
  obtain ⟨hradius, h⟩ := Fault.unless_bind_eq_ok_iff.mp h
  obtain ⟨hchannels, h⟩ := Fault.unless_bind_eq_ok_iff.mp h
  obtain ⟨hwindow, h⟩ := Fault.unless_bind_eq_ok_iff.mp h
  obtain ⟨-, h⟩ := Fault.unless_bind_eq_ok_iff.mp h
  obtain ⟨hfits, h⟩ := Fault.unless_bind_eq_ok_iff.mp h
  have hradius' : p.swap.radius < Word.half64 := hradius
  have hchannels' : 0 < p.swap.target.depth := hdepth ▸ hchannels
  have hsource := sourceFits_of_windowFits (p := p.swap) hwindow (Word.signed x') (Word.signed y')
  have hfits' := (fits_swap hdepth (Word.signed x) (Word.signed y) (Word.signed x')
    (Word.signed y')).trans hfits
  have hdistance := (distance_swap hdepth (Word.signed x) (Word.signed y) (Word.signed x')
    (Word.signed y')).trans (Except.ok.inj h)
  rw [distance?, Fault.unless_bind_of hradius', Fault.unless_bind_of hchannels']
  by_cases hwindow' : p.WindowFits x' y'
  · rw [if_pos hwindow', ← hdistance]
    refine (Fault.unless_bind_of hwindow' _).trans ?_
    rw [Fault.unless_bind_of hsource, Fault.unless_bind_of hfits']
    rfl
  · rw [if_neg hwindow']
    exact Fault.unless_bind_of_not hwindow' _

/-- Canvases of different sizes, each with a hole. -/
def slantedPairing : Pairing where
  target := .ofParts (.generate 3 2 .gray fun p _ => (40 * p).toUInt8)
    (.ofHoles 3 2 fun x y => x == 1 && y == 0)
  source := .ofParts (.generate 2 4 .gray fun p _ => (9 * p).toUInt8)
    (.ofHoles 2 4 fun x y => x == 0 && y == 2)
  radius := 1

/-- The distance at a corner of the one canvas and an edge of the other, both ways; and a source
position whose window leaves the words, while nothing of the target is there to ask for it. -/
theorem distance?_swap_slanted :
    slantedPairing.distance? 0 1 1 1 = .ok 51949 ∧
    slantedPairing.swap.distance? 1 1 0 1 = .ok 51949 ∧
    slantedPairing.distance? 9 9 9223372036854775807 0 = .ok 65535 ∧
    slantedPairing.swap.distance? 9223372036854775807 0 9 9 = .error .overflow := by
  have hcorner : slantedPairing.distance? 0 1 1 1 = .ok 51949 := by decide +kernel
  have hfar : slantedPairing.distance? 9 9 9223372036854775807 0 = .ok 65535 := by decide +kernel
  refine ⟨hcorner, ?_, hfar, ?_⟩
  · exact (distance?_swap rfl hcorner).trans (if_pos (by decide))
  · exact (distance?_swap rfl hfar).trans (if_neg (by decide))

end Pairing

end Retouch
