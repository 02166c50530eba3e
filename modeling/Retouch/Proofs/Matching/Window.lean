import Mathlib.Algebra.Order.BigOperators.Group.Finset
import Mathlib.Data.Finset.Prod
import Retouch.Proofs.Matching.Symmetry

/-!
# Retouch — Matching — Windows

What a window costs is a sum over its offsets (`cost_eq_sum`): each one leads to a cell of the
target and a cell of the source.  The scaled cost is cut to a whole number, and still the ends of
the range of distances are sharp.

* `distance_eq_maxDistance_iff`: the largest distance stands for windows without any cell to
  compare, or only cells that differ as much as pixels can.  One cell that costs less is enough to
  bring the distance below.
* `distance_eq_zero_of_same`: patches that are open and the same have distance 0.
* `bothOpen_of_distance_eq_zero`: up to radius 127 a window has fewer cells than there are
  distances, so that a single closed cell keeps the distance above 0.
-/

namespace Retouch

/-! ### Samples at their extremes -/

namespace Byte

/-- One sample is black and the other is white. -/
def Opposite (a b : UInt8) : Prop :=
  a = 0 ∧ b = 255 ∨ a = 255 ∧ b = 0

instance (a b : UInt8) : Decidable (Opposite a b) := by
  unfold Opposite; infer_instance

theorem squaredDifference_self (a : UInt8) : squaredDifference a a = 0 := by
  simp [squaredDifference]

/-- Samples differ as much as they can exactly when they are opposite. -/
theorem squaredDifference_eq_squaredSpan_iff {a b : UInt8} :
    squaredDifference a b = squaredSpan ↔ Opposite a b := by
  have ha := a.toNat_lt
  have hb := b.toNat_lt
  have hopposite : Opposite a b ↔
      (a.toNat = 0 ∧ b.toNat = 255) ∨ (a.toNat = 255 ∧ b.toNat = 0) := by
    simp only [Opposite, ← UInt8.toNat_inj]
    rfl
  rw [hopposite, squaredDifference, squaredSpan]
  simp only [UInt8.le_iff_toNat_le]
  rw [Nat.mul_self_inj]
  split <;> omega

end Byte

/-- The sample of channel `k` at column `x`, row `y`. -/
def Canvas.sampleAt (c : Canvas) (x y : Int) (k : Nat) : UInt8 :=
  c.image.sample (c.cell x.toNat y.toNat) k

/-- A sum over the numbers below a bound. -/
theorem Sum.below_eq_sum (n : Nat) (f : Nat → Nat) : Sum.below n f = ∑ i ∈ Finset.range n, f i := by
  induction n with
  | zero => rfl
  | succ n ih => rw [below_succ, ih, Finset.sum_range_succ]

namespace Pairing

variable {p : Pairing} {x y x' y' : Int}

/-! ### Cells -/

/-- Both cells lie inside of their canvases, and neither is a hole. -/
def BothOpen (p : Pairing) (x y x' y' : Int) : Prop :=
  p.target.isOpen x y = true ∧ p.source.isOpen x' y' = true

instance (p : Pairing) (x y x' y' : Int) : Decidable (p.BothOpen x y x' y') := by
  unfold BothOpen; infer_instance

/-- Every channel of the target pixel is black where the source pixel is white, or white where it is
black. -/
def OppositePixels (p : Pairing) (x y x' y' : Int) : Prop :=
  p.target.depth ≤ p.source.depth ∧ ∀ k < p.target.depth,
    Byte.Opposite (p.target.sampleAt x y k) (p.source.sampleAt x' y' k)

instance (p : Pairing) (x y x' y' : Int) : Decidable (p.OppositePixels x y x' y') := by
  unfold OppositePixels; infer_instance

/-- The pixels have the same samples in the channels that both canvases have. -/
def SamePixels (p : Pairing) (x y x' y' : Int) : Prop :=
  ∀ k < p.target.depth, k < p.source.depth → p.target.sampleAt x y k = p.source.sampleAt x' y' k

instance (p : Pairing) (x y x' y' : Int) : Decidable (p.SamePixels x y x' y') := by
  unfold SamePixels; infer_instance

theorem cellCost_of_not_bothOpen (h : ¬ p.BothOpen x y x' y') :
    p.cellCost x y x' y' = p.cellSpan := by
  rw [BothOpen, ← Bool.and_eq_true] at h
  rw [cellCost, if_neg h]

theorem cellCost_of_bothOpen (h : p.BothOpen x y x' y') : p.cellCost x y x' y' =
    ∑ k ∈ Finset.range (min p.target.depth p.source.depth),
      Byte.squaredDifference (p.target.sampleAt x y k) (p.source.sampleAt x' y' k) := by
  rw [BothOpen, ← Bool.and_eq_true] at h
  rw [cellCost, if_pos h, Canvas.squaredDifference, Sum.below_eq_sum]
  rfl

/-- Open cells with the same pixel cost nothing. -/
theorem cellCost_eq_zero (h : p.BothOpen x y x' y') (hsame : p.SamePixels x y x' y') :
    p.cellCost x y x' y' = 0 := by
  rw [cellCost_of_bothOpen h]
  refine Finset.sum_eq_zero fun k hk => ?_
  obtain ⟨htarget, hsource⟩ := lt_min_iff.mp (Finset.mem_range.mp hk)
  rw [hsame k htarget hsource, Byte.squaredDifference_self]

/-- Opposite pixels cost as much as cells can. -/
theorem cellCost_of_oppositePixels (h : p.BothOpen x y x' y')
    (hopposite : p.OppositePixels x y x' y') : p.cellCost x y x' y' = p.cellSpan := by
  obtain ⟨hdepth, hsamples⟩ := hopposite
  have hterm : ∀ k ∈ Finset.range p.target.depth,
      Byte.squaredDifference (p.target.sampleAt x y k) (p.source.sampleAt x' y' k) =
        Byte.squaredSpan := by
    intro k hk
    exact Byte.squaredDifference_eq_squaredSpan_iff.mpr (hsamples k (Finset.mem_range.mp hk))
  rw [cellCost_of_bothOpen h, min_eq_left hdepth, Finset.sum_const_nat hterm, Finset.card_range,
    cellSpan, Nat.mul_comm]

/-- Open cells that cost as much as cells can have opposite pixels: each channel of the target costs
at most its share, and the source has to have this channel, too. -/
theorem oppositePixels_of_cellCost (h : p.BothOpen x y x' y')
    (hcost : p.cellCost x y x' y' = p.cellSpan) : p.OppositePixels x y x' y' := by
  have hle : ∀ k ∈ Finset.range (min p.target.depth p.source.depth),
      Byte.squaredDifference (p.target.sampleAt x y k) (p.source.sampleAt x' y' k) ≤
        Byte.squaredSpan := fun k _ => Byte.squaredDifference_le _ _
  have hspans : ∑ _k ∈ Finset.range (min p.target.depth p.source.depth), Byte.squaredSpan =
      min p.target.depth p.source.depth * Byte.squaredSpan := by
    rw [Finset.sum_const_nat fun _ _ => rfl, Finset.card_range]
  rw [cellCost_of_bothOpen h, cellSpan, Nat.mul_comm] at hcost
  have hdepth : p.target.depth ≤ p.source.depth := by
    have hbound := Finset.sum_le_sum hle
    rw [hcost, hspans] at hbound
    have hmin : p.target.depth ≤ min p.target.depth p.source.depth :=
      Nat.le_of_mul_le_mul_right hbound (by decide)
    exact hmin.trans (min_le_right _ _)
  rw [min_eq_left hdepth] at hle hspans hcost
  rw [← hspans] at hcost
  refine ⟨hdepth, fun k hk => ?_⟩
  have hterm := (Finset.sum_eq_sum_iff_of_le hle).mp hcost k (Finset.mem_range.mpr hk)
  exact Byte.squaredDifference_eq_squaredSpan_iff.mp hterm

theorem cellCost_eq_cellSpan_iff : p.cellCost x y x' y' = p.cellSpan ↔
    ¬ p.BothOpen x y x' y' ∨ p.OppositePixels x y x' y' := by
  constructor
  · intro hcost
    by_cases hopen : p.BothOpen x y x' y'
    · exact .inr (oppositePixels_of_cellCost hopen hcost)
    · exact .inl hopen
  · intro h
    by_cases hopen : p.BothOpen x y x' y'
    · exact cellCost_of_oppositePixels hopen (h.resolve_left (not_not_intro hopen))
    · exact cellCost_of_not_bothOpen hopen

/-! ### Windows -/

/-- The offsets from the middle along one axis, from `-radius` to `radius`. -/
def offsets (p : Pairing) : Finset Int :=
  (Finset.range p.side).image fun i : Nat => -(p.radius : Int) + i

/-- The offsets of the cells of a window from its middle. -/
def window (p : Pairing) : Finset (Int × Int) :=
  p.offsets ×ˢ p.offsets

/-- What holds of all pairs of cells in the windows around `(x, y)` in the target and `(x', y')` in
the source. -/
def Throughout (p : Pairing) (x y x' y' : Int) (P : Int → Int → Int → Int → Prop) : Prop :=
  ∀ o ∈ p.window, P (x + o.1) (y + o.2) (x' + o.1) (y' + o.2)

instance (p : Pairing) (x y x' y' : Int) (P : Int → Int → Int → Int → Prop)
    [∀ x y x' y', Decidable (P x y x' y')] : Decidable (p.Throughout x y x' y' P) := by
  unfold Throughout; infer_instance

theorem offset_injective (p : Pairing) :
    Function.Injective fun i : Nat => -(p.radius : Int) + i :=
  fun _ _ h => Int.ofNat_inj.mp (Int.add_left_cancel h)

/-- The offsets along one axis, from first to last. -/
theorem sum_offsets (p : Pairing) (f : Int → Nat) :
    ∑ d ∈ p.offsets, f d = ∑ i ∈ Finset.range p.side, f (-p.radius + i) := by
  rw [offsets, Finset.sum_image p.offset_injective.injOn]

/-- The cost of a window is the sum of what its cells cost. -/
theorem cost_eq_sum (p : Pairing) (x y x' y' : Int) : p.cost x y x' y' =
    ∑ o ∈ p.window, p.cellCost (x + o.1) (y + o.2) (x' + o.1) (y' + o.2) := by
  have hoffset (v : Int) (i : Nat) : v - p.radius + i = v + (-p.radius + i) := by omega
  rw [window, Finset.sum_product_right, sum_offsets, cost_eq, Sum.below_eq_sum]
  refine Finset.sum_congr rfl fun i _ => ?_
  rw [sum_offsets, Sum.below_eq_sum]
  simp only [hoffset]

theorem fullCost_eq_sum (p : Pairing) : p.fullCost = ∑ _o ∈ p.window, p.cellSpan := by
  have hcard : p.window.card = p.side * p.side := by
    rw [window, Finset.card_product, offsets, Finset.card_image_of_injective _ p.offset_injective,
      Finset.card_range]
  rw [Finset.sum_const_nat fun _ _ => rfl, hcard, fullCost]

/-- The cost of a window is the largest one exactly when that of each of its cells is. -/
theorem cost_eq_fullCost_iff : p.cost x y x' y' = p.fullCost ↔ p.Throughout x y x' y'
    fun x y x' y' => ¬ p.BothOpen x y x' y' ∨ p.OppositePixels x y x' y' := by
  have hle : ∀ o ∈ p.window,
      p.cellCost (x + o.1) (y + o.2) (x' + o.1) (y' + o.2) ≤ p.cellSpan :=
    fun o _ => p.cellCost_le _ _ _ _
  rw [cost_eq_sum, fullCost_eq_sum, Finset.sum_eq_sum_iff_of_le hle]
  exact forall₂_congr fun o _ => cellCost_eq_cellSpan_iff

theorem cost_eq_zero (h : p.Throughout x y x' y' fun x y x' y' =>
    p.BothOpen x y x' y' ∧ p.SamePixels x y x' y') : p.cost x y x' y' = 0 := by
  rw [cost_eq_sum]
  exact Finset.sum_eq_zero fun o ho => cellCost_eq_zero (h o ho).1 (h o ho).2

/-- A window with a closed cell costs at least as much as this cell. -/
theorem cellSpan_le_cost {o : Int × Int} (ho : o ∈ p.window)
    (h : ¬ p.BothOpen (x + o.1) (y + o.2) (x' + o.1) (y' + o.2)) :
    p.cellSpan ≤ p.cost x y x' y' := by
  have hcell := Finset.single_le_sum
    (f := fun o : Int × Int => p.cellCost (x + o.1) (y + o.2) (x' + o.1) (y' + o.2))
    (fun _ _ => Nat.zero_le _) ho
  rw [cost_eq_sum, ← cellCost_of_not_bothOpen h]
  exact hcell

/-! ### Distances -/

theorem cellSpan_pos (h : 0 < p.target.depth) : 0 < p.cellSpan :=
  Nat.mul_pos (by decide) h

theorem fullCost_pos (h : 0 < p.target.depth) : 0 < p.fullCost :=
  Nat.mul_pos (Nat.mul_pos (Nat.succ_pos _) (Nat.succ_pos _)) (cellSpan_pos h)

/-- A distance is the largest one exactly when the cost is. -/
theorem distance_eq_maxDistance_iff (h : 0 < p.target.depth) :
    p.distance x y x' y' = maxDistance ↔ p.cost x y x' y' = p.fullCost := by
  have hle := p.cost_le x y x' y'
  rw [distance, min_eq_left_iff, Nat.le_div_iff_mul_le (fullCost_pos h)]
  constructor
  · intro hscaled
    exact le_antisymm hle (Nat.le_of_mul_le_mul_left hscaled (by decide))
  · intro hcost
    rw [hcost]

theorem distance_eq_zero_of_same (h : p.Throughout x y x' y' fun x y x' y' =>
    p.BothOpen x y x' y' ∧ p.SamePixels x y x' y') : p.distance x y x' y' = 0 := by
  rw [distance, cost_eq_zero h, Nat.mul_zero, Nat.zero_div, Nat.min_zero]

/-- Up to radius 127 a distance of 0 says that there is no closed cell. -/
theorem bothOpen_of_distance_eq_zero (h : 0 < p.target.depth) (hradius : p.radius ≤ 127)
    (hzero : p.distance x y x' y' = 0) : p.Throughout x y x' y' p.BothOpen := by
  intro o ho
  by_contra hclosed
  have hside : p.side ≤ 255 := by
    rw [side]
    omega
  have hcells : p.side * p.side ≤ maxDistance := (Nat.mul_le_mul hside hside).trans (by decide)
  -- What the closed cell costs is one part in as many as there are cells.
  have hscaled : p.fullCost ≤ maxDistance * p.cost x y x' y' :=
    Nat.mul_le_mul hcells (cellSpan_le_cost ho hclosed)
  have hpos : 0 < maxDistance * p.cost x y x' y' / p.fullCost :=
    Nat.div_pos hscaled (fullCost_pos h)
  have hdistance : 0 < p.distance x y x' y' := lt_min (by decide) hpos
  exact Nat.ne_of_gt hdistance hzero

/-! ### Distances that can be computed -/

/-- Everything on the way to the distance fits its word. -/
structure Representable (p : Pairing) (x y x' y' : Nat) : Prop where
  radius_lt : p.radius < Word.half64
  windowFits : p.WindowFits x y
  sourceFits :
    p.sourceFits (Word.signed x) (Word.signed y) (Word.signed x') (Word.signed y') = true
  fits : p.fits (Word.signed x) (Word.signed y) (Word.signed x') (Word.signed y') = true

variable {u v u' v' : Nat}

theorem Representable.distance?_eq_ok (h : p.Representable u v u' v')
    (hdepth : 0 < p.target.depth) : p.distance? u v u' v' =
      .ok (p.distance (Word.signed u) (Word.signed v) (Word.signed u') (Word.signed v')) := by
  rw [distance?, Fault.unless_bind_of h.radius_lt, Fault.unless_bind_of hdepth]
  refine (Fault.unless_bind_of h.windowFits _).trans ?_
  rw [Fault.unless_bind_of h.sourceFits, Fault.unless_bind_of h.fits]
  rfl

theorem distance?_eq_ok_iff {d : Nat} : p.distance? u v u' v' = .ok d ↔
    0 < p.target.depth ∧ p.Representable u v u' v' ∧
      p.distance (Word.signed u) (Word.signed v) (Word.signed u') (Word.signed v') = d := by
  constructor
  · intro h
    obtain ⟨hradius, h⟩ := Fault.unless_bind_eq_ok_iff.mp h
    obtain ⟨hdepth, h⟩ := Fault.unless_bind_eq_ok_iff.mp h
    obtain ⟨hwindow, h⟩ := Fault.unless_bind_eq_ok_iff.mp h
    obtain ⟨hsource, h⟩ := Fault.unless_bind_eq_ok_iff.mp h
    obtain ⟨hfits, h⟩ := Fault.unless_bind_eq_ok_iff.mp h
    exact ⟨hdepth, ⟨hradius, hwindow, hsource, hfits⟩, Except.ok.inj h⟩
  · rintro ⟨hdepth, h, rfl⟩
    exact h.distance?_eq_ok hdepth

/-- With at least one channel, only an overflow keeps a distance from being computed. -/
theorem representable_of_ne (hdepth : 0 < p.target.depth)
    (h : p.distance? u v u' v' ≠ .error .overflow) : p.Representable u v u' v' := by
  obtain ⟨hradius, h⟩ := Fault.unless_bind_ne_error_iff.mp h
  rw [Fault.unless_bind_of hdepth] at h
  obtain ⟨hwindow, h⟩ := Fault.unless_bind_ne_error_iff.mp h
  obtain ⟨hsource, h⟩ := Fault.unless_bind_ne_error_iff.mp h
  obtain ⟨hfits, -⟩ := Fault.unless_bind_ne_error_iff.mp h
  exact ⟨hradius, hwindow, hsource, hfits⟩

/-- **What the ends of the range of distances mean.**  With at least one channel, and unless some
number on the way does not fit its word, a distance is found, and it lies in the range.  It is the
largest one exactly when every pair of cells in the windows has a closed cell, or pixels that are
opposite in every channel of the target.  It is 0 when all cells are open and all pixels the same,
and up to radius 127 it is 0 only when all cells are open. -/
theorem distance?_extremes (hdepth : 0 < p.target.depth)
    (hfits : p.distance? u v u' v' ≠ .error .overflow) :
    ∃ d, p.distance? u v u' v' = .ok d ∧ d ≤ maxDistance ∧
      (d = maxDistance ↔
        p.Throughout (Word.signed u) (Word.signed v) (Word.signed u') (Word.signed v')
          fun x y x' y' => ¬ p.BothOpen x y x' y' ∨ p.OppositePixels x y x' y') ∧
      (p.Throughout (Word.signed u) (Word.signed v) (Word.signed u') (Word.signed v')
          (fun x y x' y' => p.BothOpen x y x' y' ∧ p.SamePixels x y x' y') → d = 0) ∧
      (p.radius ≤ 127 → d = 0 →
        p.Throughout (Word.signed u) (Word.signed v) (Word.signed u') (Word.signed v')
          p.BothOpen) := by
  have hresult := (representable_of_ne hdepth hfits).distance?_eq_ok hdepth
  refine ⟨_, hresult, p.distance_le _ _ _ _, ?_, distance_eq_zero_of_same, ?_⟩
  · exact (distance_eq_maxDistance_iff hdepth).trans cost_eq_fullCost_iff
  · exact bothOpen_of_distance_eq_zero hdepth

/-- A black and a white gray pixel beside a hole, compared with a white and a black one that have
further channels. -/
def starkPairing : Pairing where
  target := .ofParts ⟨3, 1, .gray, #[0, 255, 7], rfl⟩ (.ofHoles 3 1 fun x _ => x == 2)
  source := .ofParts ⟨2, 1, .rgb, #[255, 9, 9, 0, 9, 9], rfl⟩ (.blank 2 1 .gray)
  radius := 1

/-- Black pixels, compared with black pixels. -/
def plainPairing : Pairing where
  target := .ofParts (.blank 3 3 .gray) (.blank 3 3 .gray)
  source := .ofParts (.blank 3 3 .gray) (.blank 3 3 .gray)
  radius := 1

/-- Opposite pixels at the largest distance, although two pairs of cells are open; and a window of
the same pixels at distance 0, in which therefore no cell is closed. -/
theorem distance?_extremes_stark :
    (0 < starkPairing.target.depth ∧ starkPairing.distance? 0 0 0 0 ≠ .error .overflow ∧
      starkPairing.BothOpen 1 0 1 0 ∧ starkPairing.distance? 0 0 0 0 = .ok maxDistance) ∧
    0 < plainPairing.target.depth ∧ plainPairing.distance? 1 1 1 1 ≠ .error .overflow ∧
      plainPairing.distance? 1 1 1 1 = .ok 0 ∧
      plainPairing.Throughout 1 1 1 1 plainPairing.BothOpen := by
  have hstark : starkPairing.distance? 0 0 0 0 ≠ .error .overflow := by decide +kernel
  have hplain : plainPairing.distance? 1 1 1 1 ≠ .error .overflow := by decide +kernel
  have hopposite : starkPairing.Throughout 0 0 0 0 fun x y x' y' =>
      ¬ starkPairing.BothOpen x y x' y' ∨ starkPairing.OppositePixels x y x' y' := by
    decide +kernel
  have hsame : plainPairing.Throughout 1 1 1 1 fun x y x' y' =>
      plainPairing.BothOpen x y x' y' ∧ plainPairing.SamePixels x y x' y' := by
    decide +kernel
  obtain ⟨d, hd, -, hmax, -, -⟩ :=
    distance?_extremes (show 0 < starkPairing.target.depth by decide) hstark
  obtain ⟨e, he, -, -, hzero, hopen⟩ :=
    distance?_extremes (show 0 < plainPairing.target.depth by decide) hplain
  obtain rfl : d = maxDistance := hmax.mpr hopposite
  obtain rfl : e = 0 := hzero hsame
  exact ⟨⟨by decide, hstark, by decide +kernel, hd⟩, by decide, hplain, he, hopen (by decide) rfl⟩

end Pairing

end Retouch
