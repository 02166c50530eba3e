import Retouch.Proofs.Matching.Exact
import Retouch.Proofs.Matching.Seeds
import Retouch.Proofs.Number.Arithmetic
import Retouch.Voting.Repaint

/-!
# Retouch — Matching — Covering entries

A finer field takes its seeds from the entries of a coarser one.  Halving builds a coarse pixel
from two by two fine ones, and a repaint at the double size uses the entry of the coarse pixel
that covers the fine one (`MatchField.covering`).  The seeds find theirs by a division in single
precision, and where that leads depends on the sides.

* Where the finer side is twice the coarser one, the ratio is 2, nothing is rounded, and the seed
  comes from the covering entry.
* Where the finer side is odd, the ratio is larger than 2.  Dividing by it brings the even
  positions inside the axis to the cell before the one that covers them
  (`Halved.regular_iff`, `MatchField.finer?_twoTone`).

Positions in the source are doubled in both cases (`MatchField.finer?_doubles`).  All this is exact
while singles can tell the cells of odd axes apart; beyond, rounding can add one cell to the way
(`MatchField.seedAt_near`).
-/

namespace Retouch

open Single (Amount Nearest Fits ofCount floor floorBelow)

/-! ### Ratios of sides -/

/-- Halving brings an axis of `fine` cells to one of `coarse` cells; positions on it are exact in
single precision. -/
structure Halved (coarse fine : ℕ) : Prop where
  pos : 0 < coarse
  half_eq : fine / 2 = coarse
  fine_le : fine ≤ 2 ^ 24

/-- The rounded ratio of the sides. -/
structure Ratio (coarse fine : ℕ) (s : ℚ) : Prop where
  two_le : 2 ≤ s
  abs_sub_le : |coarse * s - fine| ≤ fine / 2 ^ 24
  eq_two : fine % 2 = 0 → s = 2

namespace Ratio

variable {coarse fine : ℕ} {s : ℚ}

theorem double_le (h : Ratio coarse fine s) (v : ℕ) : ((2 * v : ℕ) : ℚ) ≤ v * s := by
  push_cast
  rw [mul_comm]
  exact mul_le_mul_of_nonneg_left h.two_le (Nat.cast_nonneg v)

/-- A position on an odd axis, divided by the ratio, lies in the cell at `(x - 1) / 2` and keeps
away from the next cell. -/
theorem div_mem (h : Ratio coarse fine s) {x k : ℕ} (hfine : fine = 2 * coarse + 1)
    (hcoarse : coarse ≤ 2 ^ 11) (hk : k < coarse) (hx : x ≤ 2 * k + 2)
    (hx' : k = 0 ∨ 2 * k + 1 ≤ x) : k ≤ x / s ∧ x / s ≤ k + 1 - 1 / 2 ^ 13 := by
  have hs : 0 < s := by linarith [h.two_le]
  have hcoarse' : (coarse : ℚ) ≤ 2 ^ 11 := by exact_mod_cast hcoarse
  have hk' : (k + 1 : ℚ) ≤ coarse := by exact_mod_cast hk
  have hnonneg : (0 : ℚ) ≤ k := Nat.cast_nonneg k
  have hpos : (0 : ℚ) < coarse := by linarith
  obtain ⟨hlo, hhi⟩ := abs_le.mp h.abs_sub_le
  rw [hfine] at hlo hhi
  push_cast at hlo hhi
  constructor
  · have hcell : (k : ℚ) * s * coarse ≤ (2 * k + 1) * coarse := by
      have hmul := mul_le_mul_of_nonneg_left hhi hnonneg
      have hsmall : (k : ℚ) * (2 * coarse + 1) ≤ 2 ^ 11 * (2 ^ 12 + 1) :=
        mul_le_mul (by linarith) (by linarith) (by linarith) (by norm_num)
      linarith
    rw [le_div_iff₀ hs]
    rcases hx' with rfl | hx'
    · simp
    · have hx' : (2 * k + 1 : ℚ) ≤ x := by exact_mod_cast hx'
      exact (le_of_mul_le_mul_right hcell hpos).trans hx'
  · have hcell : (2 * (k + 1) : ℚ) * coarse ≤ (k + 1 - 1 / 2 ^ 13) * s * coarse := by
      have hmul := mul_le_mul_of_nonneg_left hlo (show (0 : ℚ) ≤ k + 1 - 1 / 2 ^ 13 by linarith)
      have hsmall : (k : ℚ) * (2 * coarse + 1) ≤ k * (2 ^ 12 + 1) :=
        mul_le_mul_of_nonneg_left (by linarith) hnonneg
      linarith
    rw [div_le_iff₀ hs]
    have hx : (x : ℚ) ≤ 2 * (k + 1) := by exact_mod_cast hx
    exact hx.trans (le_of_mul_le_mul_right hcell hpos)

/-- A position, multiplied by the ratio of an odd axis, keeps away from the cell behind the one at
its double. -/
theorem mul_le (h : Ratio coarse fine s) {v : ℕ} (hfine : fine = 2 * coarse + 1)
    (hcoarse : coarse ≤ 2 ^ 11) (hv : v < coarse) :
    v * s ≤ (2 * v : ℕ) + 1 - 1 / 2 ^ 12 := by
  have hcoarse' : (coarse : ℚ) ≤ 2 ^ 11 := by exact_mod_cast hcoarse
  have hv' : (v + 1 : ℚ) ≤ coarse := by exact_mod_cast hv
  have hnonneg : (0 : ℚ) ≤ v := Nat.cast_nonneg v
  have hhi := (abs_le.mp h.abs_sub_le).2
  rw [hfine] at hhi
  push_cast at hhi ⊢
  have hcell : (v * s : ℚ) * coarse ≤ (2 * v + 1 - 1 / 2 ^ 12) * coarse := by
    have hmul := mul_le_mul_of_nonneg_left hhi hnonneg
    have hsmall : (v : ℚ) * (2 * coarse + 1) ≤ (coarse - 1) * (2 ^ 12 + 1) :=
      mul_le_mul (by linarith) (by linarith) (by linarith) (by linarith)
    linarith
  exact le_of_mul_le_mul_right hcell (by linarith)

end Ratio

namespace Halved

variable {coarse fine : ℕ}

theorem pos_fine (h : Halved coarse fine) : 0 < fine := by
  have := h.pos
  have := h.half_eq
  omega

theorem double_lt (h : Halved coarse fine) {v : ℕ} (hv : v < coarse) : 2 * v < fine := by
  have := h.half_eq
  omega

theorem exists_ratio (h : Halved coarse fine) :
    ∃ s, Amount (ofCount fine / ofCount coarse) s ∧ Ratio coarse fine s := by
  have hpos : (0 : ℚ) < coarse := Nat.cast_pos.mpr h.pos
  have hhalf := h.half_eq
  have hle := h.fine_le
  have hsplit : (fine : ℚ) = 2 * coarse + (fine % 2 : ℕ) := by
    have : fine = 2 * coarse + fine % 2 := by omega
    exact_mod_cast this
  have hlo : 2 ≤ (fine : ℚ) / coarse := by
    rw [le_div_iff₀ hpos, hsplit]
    linarith [Nat.cast_nonneg (α := ℚ) (fine % 2)]
  have hhi : (fine : ℚ) / coarse ≤ fine := div_le_self (by positivity) (by exact_mod_cast h.pos)
  have hlarge : (fine : ℚ) ≤ 2 ^ 24 := by exact_mod_cast hle
  obtain ⟨s, hs, hnearest⟩ := (Single.amount_ofCount hle).div
    (Single.amount_ofCount (show coarse ≤ 2 ^ 24 by omega)) hpos
    ((hhi.trans hlarge).trans_lt (by norm_num [Single.limit]))
  have htwo : Fits 2 := Single.fits_natCast (by norm_num : 2 ≤ 2 ^ 24)
  have herror := hnearest.abs_sub_le_mul (le_trans (by norm_num) hlo)
  refine ⟨s, hs, hnearest.ge_of_ge htwo hlo, ?_, fun heven => ?_⟩
  · have hscaled : coarse * s - fine = coarse * (s - fine / coarse) := by field_simp
    rw [hscaled, abs_mul, abs_of_pos hpos]
    calc coarse * |s - fine / coarse| ≤ coarse * (fine / coarse / 2 ^ 24) :=
          mul_le_mul_of_nonneg_left herror hpos.le
      _ = fine / 2 ^ 24 := by field_simp
  · have hratio : (fine : ℚ) / coarse = 2 := by
      rw [hsplit, heven, Nat.cast_zero, add_zero, mul_div_assoc, div_self hpos.ne', mul_one]
    rw [hratio] at hnearest
    exact hnearest.eq_of_fits htwo

/-- A position on the fine axis, divided by the ratio, is rounded once more. -/
theorem exists_quotient (h : Halved coarse fine) {x : ℕ} (hx : x < fine) :
    ∃ s r, Ratio coarse fine s ∧ Nearest (x / s) r ∧
      Amount (ofCount x / (ofCount fine / ofCount coarse)) r := by
  obtain ⟨s, hs, hratio⟩ := h.exists_ratio
  have htwo := hratio.two_le
  have hx' : x ≤ 2 ^ 24 := hx.le.trans h.fine_le
  have hdiv : (x : ℚ) / s ≤ x := div_le_self (Nat.cast_nonneg x) (by linarith)
  have hlarge : (x : ℚ) ≤ 2 ^ 24 := by exact_mod_cast hx'
  obtain ⟨r, hr, hnearest⟩ := (Single.amount_ofCount hx').div hs (by linarith)
    ((hdiv.trans hlarge).trans_lt (by norm_num [Single.limit]))
  exact ⟨s, r, hratio, hnearest, hr⟩

/-- A position on the coarse axis, multiplied by the ratio, is rounded once more. -/
theorem exists_product (h : Halved coarse fine) {v : ℕ} (hv : v < coarse) :
    ∃ s r, Ratio coarse fine s ∧ Nearest (v * s) r ∧
      Amount (ofCount v * (ofCount fine / ofCount coarse)) r := by
  obtain ⟨s, hs, hratio⟩ := h.exists_ratio
  have htwo := hratio.two_le
  have hhalf := h.half_eq
  have hle := h.fine_le
  have hlarge : (fine : ℚ) ≤ 2 ^ 24 := by exact_mod_cast hle
  have hv' : (v : ℚ) ≤ coarse := by exact_mod_cast hv.le
  have hmul : (v : ℚ) * s ≤ coarse * s := mul_le_mul_of_nonneg_right hv' (by linarith)
  have herror := (abs_le.mp hratio.abs_sub_le).2
  have hsmall : (v : ℚ) * s ≤ 2 ^ 25 := by linarith
  obtain ⟨r, hr, hnearest⟩ := (Single.amount_ofCount (show v ≤ 2 ^ 24 by omega)).mul hs
    (hsmall.trans_lt (by norm_num [Single.limit]))
  exact ⟨s, r, hratio, hnearest, hr⟩

/-- How far the ratio can be from 2. -/
theorem mul_mul_le (h : Halved coarse fine) {s : ℚ} (hratio : Ratio coarse fine s) (j : ℕ) :
    j * s * coarse ≤ 2 * j * coarse + 2 * j := by
  have hhalf := h.half_eq
  have hlarge : (fine : ℚ) ≤ 2 ^ 24 := by exact_mod_cast h.fine_le
  have hfine : (fine : ℚ) ≤ 2 * coarse + 1 := by
    exact_mod_cast (show fine ≤ 2 * coarse + 1 by omega)
  have hscaled : (coarse : ℚ) * s ≤ 2 * coarse + 2 := by
    linarith [(abs_le.mp hratio.abs_sub_le).2]
  linarith [mul_le_mul_of_nonneg_left hscaled (Nat.cast_nonneg (α := ℚ) j)]

/-- What is looked up is the cell at `x / 2` or the one before. -/
theorem floorBelow_div_near (h : Halved coarse fine) {x : ℕ} (hx : x < fine) :
    floorBelow (ofCount x / (ofCount fine / ofCount coarse)) coarse ≤ x / 2 ∧
      x / 2 ≤ floorBelow (ofCount x / (ofCount fine / ofCount coarse)) coarse + 1 := by
  obtain ⟨s, r, hratio, hnearest, hr⟩ := h.exists_quotient hx
  have htwo := hratio.two_le
  have hhalf := h.half_eq
  have hle := h.fine_le
  have hpos : (0 : ℚ) < coarse := Nat.cast_pos.mpr h.pos
  obtain ⟨k, hk⟩ : ∃ k, x / 2 = k := ⟨_, rfl⟩
  have hx' : (x : ℚ) ≤ 2 * k + 1 := by exact_mod_cast (show x ≤ 2 * k + 1 by omega)
  have hhi : (x : ℚ) / s ≤ k + 1 - 1 / 2 ^ 1 := by
    rw [div_le_iff₀ (by linarith)]
    have := mul_le_mul_of_nonneg_left htwo (show (0 : ℚ) ≤ k + 1 - 1 / 2 ^ 1 by
      linarith [Nat.cast_nonneg (α := ℚ) k])
    linarith
  have hlo : ((k - 1 : ℕ) : ℚ) ≤ x / s := by
    rw [le_div_iff₀ (by linarith)]
    cases k with
    | zero => simp
    | succ j =>
      have hj : (j : ℚ) ≤ coarse := by exact_mod_cast (show j ≤ coarse by omega)
      have hx'' : (2 * (j + 1) : ℚ) ≤ x := by exact_mod_cast (show 2 * (j + 1) ≤ x by omega)
      have hcell : j * s * coarse ≤ (2 * (j + 1) : ℚ) * coarse := by
        linarith [h.mul_mul_le hratio j]
      exact (le_of_mul_le_mul_right hcell hpos).trans hx''
  have hlow := hnearest.ge_of_ge (Single.fits_natCast (show k - 1 ≤ 2 ^ 24 by omega)) hlo
  have hhigh := hnearest.le_of_le (Single.fits_succ_sub (by norm_num) (by omega)) hhi
  have hfloor := Single.floor_between hr (show k ≤ 2 ^ 24 by omega) hlow (by linarith)
  rw [hk, floorBelow]
  omega

/-- Positions are doubled, or brought one or two cells further. -/
theorem floorBelow_mul_near (h : Halved coarse fine) {v : ℕ} (hv : v < coarse) :
    2 * v ≤ floorBelow (ofCount v * (ofCount fine / ofCount coarse)) fine ∧
      floorBelow (ofCount v * (ofCount fine / ofCount coarse)) fine ≤ 2 * v + 2 := by
  obtain ⟨s, r, hratio, hnearest, hr⟩ := h.exists_product hv
  have hhalf := h.half_eq
  have hle := h.fine_le
  have hlo : ((2 * v : ℕ) : ℚ) ≤ v * s := hratio.double_le v
  have hv' : (v : ℚ) ≤ coarse := by exact_mod_cast hv.le
  have hpos : (0 : ℚ) < coarse := Nat.cast_pos.mpr h.pos
  have hhi : v * s ≤ ((2 * v + 2 : ℕ) : ℚ) := by
    have hcell : v * s * coarse ≤ (2 * v + 2 : ℚ) * coarse := by
      linarith [h.mul_mul_le hratio v]
    push_cast
    exact le_of_mul_le_mul_right hcell hpos
  have hlow := hnearest.ge_of_ge (Single.fits_natCast (show 2 * v ≤ 2 ^ 24 by omega)) hlo
  have hhigh := hnearest.le_of_le (Single.fits_natCast (show 2 * v + 2 ≤ 2 ^ 24 by omega)) hhi
  have hfloor := Single.floor_between hr (show 2 * v + 2 ≤ 2 ^ 24 by omega) hlow (by linarith)
  rw [floorBelow]
  omega

end Halved

/-- The sides are halved, and singles can tell the cells apart, which takes more room on odd axes,
for there the ratio is not a whole number. -/
structure Doubled (coarse fine : ℕ) : Prop extends Halved coarse fine where
  coarse_le : fine % 2 = 1 → coarse ≤ 2 ^ 11

namespace Doubled

variable {coarse fine : ℕ}

/-- The coarse cell that a fine one is brought to. -/
theorem floorBelow_div (h : Doubled coarse fine) {x : ℕ} (hx : x < fine) :
    floorBelow (ofCount x / (ofCount fine / ofCount coarse)) coarse = (x - fine % 2) / 2 := by
  obtain ⟨s, r, hratio, hnearest, hr⟩ := h.exists_quotient hx
  have hpos := h.pos
  have hhalf := h.half_eq
  have hle := h.fine_le
  have hfloor : floor (ofCount x / (ofCount fine / ofCount coarse)) = (x - fine % 2) / 2 := by
    rcases Nat.mod_two_eq_zero_or_one fine with hparity | hparity
    · -- Halves are exact.
      rw [hratio.eq_two hparity] at hnearest
      rw [hparity, Nat.sub_zero]
      have hsplit : (x : ℚ) = 2 * (x / 2 : ℕ) + (x % 2 : ℕ) := by
        exact_mod_cast (Nat.div_add_mod x 2).symm
      have hmod : ((x % 2 : ℕ) : ℚ) ≤ 1 := by
        exact_mod_cast Nat.le_of_lt_succ (Nat.mod_lt x two_pos)
      refine Single.floor_eq_of_nearest 1 hr hnearest (by norm_num) (by omega) ?_ ?_
      · linarith [Nat.cast_nonneg (α := ℚ) (x % 2)]
      · linarith
    · have hcoarse := h.coarse_le hparity
      rw [hparity]
      obtain ⟨hlo, hhi⟩ := hratio.div_mem (x := x) (k := (x - 1) / 2) (by omega) hcoarse
        (by omega) (by omega) (by omega)
      exact Single.floor_eq_of_nearest 13 hr hnearest (by norm_num) (by omega) hlo hhi
  rw [floorBelow, hfloor, Nat.min_eq_left (by omega)]

/-- Positions are doubled. -/
theorem floorBelow_mul (h : Doubled coarse fine) {v : ℕ} (hv : v < coarse) :
    floorBelow (ofCount v * (ofCount fine / ofCount coarse)) fine = 2 * v := by
  obtain ⟨s, r, hratio, hnearest, hr⟩ := h.exists_product hv
  have hhalf := h.half_eq
  have hle := h.fine_le
  have hlo := hratio.double_le v
  have hfloor : floor (ofCount v * (ofCount fine / ofCount coarse)) = 2 * v := by
    rcases Nat.mod_two_eq_zero_or_one fine with hparity | hparity
    · -- Doubles are exact.
      refine Single.floor_eq_of_nearest 0 hr hnearest (by norm_num) (by omega) hlo ?_
      rw [hratio.eq_two hparity]
      push_cast
      linarith
    · have hcoarse := h.coarse_le hparity
      exact Single.floor_eq_of_nearest 12 hr hnearest (by norm_num) (by omega) hlo
        (hratio.mul_le (by omega) hcoarse hv)
  rw [floorBelow, hfloor, Nat.min_eq_left (by omega)]

end Doubled

/-! ### The entry that is used -/

/-- The position is not one of the even ones inside an odd axis. -/
def Regular (fine x : ℕ) : Prop :=
  fine % 2 = 0 ∨ x % 2 = 1 ∨ x = 0 ∨ x + 1 = fine

/-- At regular positions, and only there, the cell found is the one that covers the position. -/
theorem Halved.regular_iff {coarse fine x : ℕ} (h : Halved coarse fine) (hx : x < fine) :
    Regular fine x ↔ (x - fine % 2) / 2 = min (x / 2) (coarse - 1) := by
  have := h.pos
  have := h.half_eq
  unfold Regular
  omega

namespace MatchField

variable {σ : Type} {coarse : MatchField σ} {target source : Canvas} {x y : ℕ}

/-- The entry of the coarse pixel that covers `(x, y)`.  Halving has built that pixel from the block
with `(x, y)`; a last column or row without a partner is covered by the last pixel. -/
def covering (f : MatchField σ) (x y : ℕ) : Match :=
  f.entry (min (y / 2) (f.height - 1) * f.width + min (x / 2) (f.width - 1))

/-- A repaint at the size of the field aims where the entry of the pixel does. -/
theorem aim_same (f : MatchField σ) (x y : ℕ) : f.aim .same x y = f.entry (f.target.cell x y) :=
  rfl

/-- A repaint at the double size aims where the covering entry does: at twice its position, moved by
the place of the pixel in its block. -/
theorem aim_double (f : MatchField σ) (x y : ℕ) : f.aim .double x y =
    ⟨2 * (f.covering x y).x + x % 2, 2 * (f.covering x y).y + y % 2, (f.covering x y).distance⟩ :=
  rfl

/-- The entry that the seed for `(x, y)` of the target comes from. -/
def sought (f : MatchField σ) (target : Canvas) (x y : ℕ) : Match :=
  f.entry ((y - target.height % 2) / 2 * f.width + (x - target.width % 2) / 2)

theorem sought_eq_covering (hw : Halved coarse.width target.width)
    (hh : Halved coarse.height target.height) (hx : x < target.width) (hy : y < target.height)
    (hx' : Regular target.width x) (hy' : Regular target.height y) :
    coarse.sought target x y = coarse.covering x y := by
  rw [sought, covering, (hw.regular_iff hx).mp hx', (hh.regular_iff hy).mp hy']

/-- Entries that are not there land as well, if there is anything to land in. -/
theorem Landed.lands {f : MatchField σ} (h : f.Landed) (hw : 0 < f.source.width)
    (hh : 0 < f.source.height) (p : ℕ) : f.toPairing.Lands (f.entry p) := by
  by_cases hp : p < f.entries.size
  · exact h p hp
  · have hunset : f.entry p = .unset := by
      rw [entry, Array.getD_eq_getD_getElem?, Array.getElem?_eq_none (Nat.not_lt.mp hp)]
      rfl
    rw [hunset]
    exact ⟨hw, hh⟩

/-- The seed of a pixel is the doubled position of the entry that is used for it. -/
theorem seedFrom_eq (hlanded : coarse.Landed) (hw : Doubled coarse.width target.width)
    (hh : Doubled coarse.height target.height) (hw' : Doubled coarse.source.width source.width)
    (hh' : Doubled coarse.source.height source.height) (hx : x < target.width)
    (hy : y < target.height) : coarse.seedFrom target source x y =
      ⟨2 * (coarse.sought target x y).x, 2 * (coarse.sought target x y).y, maxDistance⟩ := by
  have hlands := hlanded.lands hw'.pos hh'.pos
    ((y - target.height % 2) / 2 * coarse.width + (x - target.width % 2) / 2)
  simp only [seedFrom, hw.floorBelow_div hx, hh.floorBelow_div hy, hw'.floorBelow_mul hlands.1,
    hh'.floorBelow_mul hlands.2]
  rfl

theorem entry_seeded (coarse : MatchField σ) (source : Canvas) (hx : x < target.width)
    (hy : y < target.height) : (coarse.seeded target source).entry (y * target.width + x) =
      coarse.seedFrom target source x y := by
  have hp : y * target.width + x < target.area := Raster.cell_lt_area hx hy
  simp [entry, seeded, Array.getD, hp, Raster.index_mod y hx, Raster.index_div y hx]

/-- At any sides that singles count exactly, the entry used is at most one cell before the covering
one on each axis, and its position is doubled up to two cells. -/
theorem seedAt_near (hlanded : coarse.Landed) (hw : Halved coarse.width target.width)
    (hh : Halved coarse.height target.height) (hw' : Halved coarse.source.width source.width)
    (hh' : Halved coarse.source.height source.height) (hx : x < target.width)
    (hy : y < target.height) : ∃ u v, (u ≤ x / 2 ∧ x / 2 ≤ u + 1) ∧ (v ≤ y / 2 ∧ y / 2 ≤ v + 1) ∧
      let m := coarse.entry (v * coarse.width + u)
      let q := (coarse.seeded target source).seedAt (y * target.width + x)
      (2 * m.x ≤ q.1 ∧ q.1 ≤ 2 * m.x + 2) ∧ (2 * m.y ≤ q.2 ∧ q.2 ≤ 2 * m.y + 2) := by
  refine ⟨_, _, hw.floorBelow_div_near hx, hh.floorBelow_div_near hy, ?_⟩
  have hlands := hlanded.lands hw'.pos hh'.pos
  rw [seedAt, entry_seeded coarse source hx hy]
  exact ⟨hw'.floorBelow_mul_near (hlands _).1, hh'.floorBelow_mul_near (hlands _).2⟩

variable [WordSource σ]

/-- **Seeds double the entries of the coarser field.**  Seeding a finer field ends for workable
fields with as many channels.  The seed of a pixel is the doubled position of an entry that lands,
and it lies in the finer source; where it has a valid cell the pixel keeps it, at its distance.
The entry is the one that covers the pixel, on even axes everywhere, and on odd axes for the odd
positions and those at the ends.  Everywhere else it is the entry before (`sought`). -/
theorem finer?_doubles (hlanded : coarse.Landed) (hw : Doubled coarse.width target.width)
    (hh : Doubled coarse.height target.height) (hw' : Doubled coarse.source.width source.width)
    (hh' : Doubled coarse.source.height source.height) :
    (coarse.Workable → target.depth = coarse.target.depth → source.depth = coarse.source.depth →
      ∃ g, coarse.finer? target source = .ok g) ∧
    ∀ g, coarse.finer? target source = .ok g → ∀ x < target.width, ∀ y < target.height,
      let m := coarse.sought target x y
      let seed := g.toPairing.measured x y (2 * m.x, 2 * m.y)
      g.toPairing.Lands seed ∧
      (coarse.seeded target source).seedAt (y * target.width + x) = (seed.x, seed.y) ∧
      (seed.distance < maxDistance → g.entry (y * target.width + x) = seed) ∧
      (Regular target.width x → Regular target.height y → m = coarse.covering x y) := by
  refine ⟨fun hcoarse hdepth hdepth' => ⟨_, finer?_eq_ok hcoarse
    ⟨hw.pos_fine, hh.pos_fine⟩ ⟨hw'.pos_fine, hh'.pos_fine⟩ hdepth hdepth'⟩,
    fun g hg x hx y hy => ?_⟩
  obtain rfl := eq_finer_of_finer? hg
  obtain ⟨counts, hsettled⟩ := exists_settled (coarse.seeded target source)
  have hpairing : (coarse.finer target source).toPairing =
      (coarse.seeded target source).toPairing := hsettled.sameFrame.toPairing_eq
  have hsize : y * target.width + x < (coarse.seeded target source).entries.size := by
    rw [seeded, Array.size_ofFn]
    exact Raster.cell_lt_area hx hy
  have hseed : (coarse.seeded target source).seedAt (y * target.width + x) =
      (2 * (coarse.sought target x y).x, 2 * (coarse.sought target x y).y) := by
    rw [seedAt, entry_seeded coarse source hx hy, seedFrom_eq hlanded hw hh hw' hh' hx hy]
  have hcolumn : (coarse.seeded target source).column (y * target.width + x) = x :=
    Raster.index_mod y hx
  have hrow : (coarse.seeded target source).row (y * target.width + x) = y :=
    Raster.index_div y hx
  have hkept := hsettled.settledBy _ hsize
  rw [hcolumn, hrow, hseed] at hkept
  refine ⟨?_, hseed, fun hdistance => ?_, sought_eq_covering hw.toHalved hh.toHalved hx hy⟩
  · have hlands := hlanded.lands hw'.pos hh'.pos
      ((y - target.height % 2) / 2 * coarse.width + (x - target.width % 2) / 2)
    rw [hpairing]
    exact ⟨hw'.double_lt hlands.1, hh'.double_lt hlands.2⟩
  · rw [hpairing] at hdistance ⊢
    exact (hkept.keeps_seed hdistance).2

/-- A canvas without holes, dark in the left half of its columns and light in the others. -/
def twoTone (width height : ℕ) : Canvas :=
  .ofParts (.generate width height .gray fun p _ => if p % width < width / 2 then 10 else 80)
    (.blank width height .gray)

/-- A field on a two-tone canvas, scattered at random. -/
def twoToneField : MatchField Keystream :=
  start ⟨twoTone 2 1, twoTone 2 1, 1⟩ (Keystream.ofSeed 2)

theorem workable_twoToneField : twoToneField.Workable :=
  ⟨by decide, by decide, by decide, by decide, by decide, Array.size_replicate, by decide⟩

/-- The field is twice as large on either axis, with a column more. -/
theorem doubled_twoTone :
    Doubled twoToneField.scatter.width (twoTone 5 2).width ∧
      Doubled twoToneField.scatter.height (twoTone 5 2).height ∧
      Doubled twoToneField.scatter.source.width (twoTone 4 2).width ∧
      Doubled twoToneField.scatter.source.height (twoTone 4 2).height := by
  have hsame := sameFrame_of_scatter? (scatter?_eq_ok workable_twoToneField)
  rw [hsame.width_eq, hsame.height_eq, hsame.source_eq]
  refine ⟨⟨?_, by decide⟩, ⟨?_, by decide⟩, ⟨?_, by decide⟩, ⟨?_, by decide⟩⟩ <;>
    exact ⟨by decide, by decide, by decide⟩

/-- The seed for the first light pixel but one, from the entry that covers it. -/
theorem finer?_doubles_twoTone : ∃ coarse g : MatchField Keystream,
    twoToneField.scatter? = .ok coarse ∧ coarse.finer? (twoTone 5 2) (twoTone 4 2) = .ok g ∧
      g.entry 3 = g.toPairing.measured 3 0
        (2 * (coarse.covering 3 0).x, 2 * (coarse.covering 3 0).y) := by
  have hscatter := scatter?_eq_ok workable_twoToneField
  have hsame := sameFrame_of_scatter? hscatter
  have hlanded := (exact_of_scatter? workable_twoToneField.size_eq hscatter).landed
  obtain ⟨hw, hh, hw', hh'⟩ := doubled_twoTone
  obtain ⟨hfiner, hseeds⟩ := finer?_doubles hlanded hw hh hw' hh'
  obtain ⟨g, hg⟩ := hfiner (workable_twoToneField.sameFrame hsame)
    (by rw [hsame.target_eq]; rfl) (by rw [hsame.source_eq]; rfl)
  obtain ⟨-, -, hkeeps, hcovers⟩ := hseeds g hg 3 (by decide) 0 (by decide)
  have hentry := hcovers (.inr (.inl rfl)) (.inl rfl)
  refine ⟨_, g, hscatter, hg, ?_⟩
  rw [← hentry]
  refine hkeeps ?_
  rw [eq_finer_of_finer? hg]
  decide +kernel

/-- The first light pixel takes its seed from the entry of the dark pixel before, and keeps it, for
it is nearer than the largest distance; the seed from the entry that covers it is nearer still. -/
theorem finer?_twoTone : ∃ coarse g : MatchField Keystream,
    twoToneField.scatter? = .ok coarse ∧ coarse.finer? (twoTone 5 2) (twoTone 4 2) = .ok g ∧
      coarse.covering 2 0 = ⟨1, 0, 50971⟩ ∧ g.toPairing.measured 2 0 (2, 0) = ⟨2, 0, 21845⟩ ∧
      g.entry 2 = ⟨0, 0, 38603⟩ ∧ 38603 < maxDistance := by
  have hscatter := scatter?_eq_ok workable_twoToneField
  have hsame := sameFrame_of_scatter? hscatter
  have hfiner : twoToneField.scatter.finer? (twoTone 5 2) (twoTone 4 2) =
      .ok (twoToneField.scatter.finer (twoTone 5 2) (twoTone 4 2)) :=
    finer?_eq_ok (workable_twoToneField.sameFrame hsame) (by decide) (by decide)
      (by rw [hsame.target_eq]; rfl) (by rw [hsame.source_eq]; rfl)
  exact ⟨_, _, hscatter, hfiner, by decide +kernel, by decide +kernel, by decide +kernel,
    by decide⟩

end MatchField

end Retouch
