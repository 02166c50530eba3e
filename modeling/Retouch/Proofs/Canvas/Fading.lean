import Retouch.Proofs.Canvas.Halving
import Retouch.Proofs.Voting.Hidden

/-!
# Retouch — Canvas — Holes that fade

After `k` halvings a pixel stands for a block of `2 ^ k` by `2 ^ k` pixels, and its samples depend
on this block only (`Raster.sample_halved_congr`).  A block without a hole keeps the colours of
holes out at every level.

A hole of a mask that knows only 0 and 255 stays visible for four halvings: of a lone 255 there
remain 64, 16, 4 and 1 (`Raster.faded`).  So up to the fourth level an open cell stands for a block
without a hole, and two canvases that agree have pyramids whose levels agree
(`Pyramid.levels_agree`).  At the fifth halving a lone hole fades, while its colour is still mixed
in: `Pyramid.speck_shows` has two canvases that agree, and an open cell at level 5 where their
pyramids differ.
-/

namespace Retouch

/-! ### Blocks -/

namespace Raster

variable {r s : Raster} {k x y c : Nat}

/-- **A sample depends on its block**: after `k` halvings, two rasters of one shape have the same
sample at `(x, y)` if they have the same samples in the block of `2 ^ k` by `2 ^ k` pixels that
`(x, y)` stands for. -/
theorem sample_halved_congr (hshape : r.SameShape s) (h : r.Shrinks k)
    (hx : x < (r.halved k).width) (hy : y < (r.halved k).height) (hc : c < r.depth)
    (hblock : ∀ x' y', x' / 2 ^ k = x → y' / 2 ^ k = y →
      r.sample (y' * r.width + x') c = s.sample (y' * s.width + x') c) :
    (r.halved k).sample (y * (r.halved k).width + x) c =
      (s.halved k).sample (y * (s.halved k).width + x) c := by
  -- The block falls into four, one for each pixel of the halving before.
  induction k generalizing x y with
  | zero => exact hblock x y (by simp) (by simp)
  | succ k ih =>
    have hprevious := h.mono (Nat.le_succ k)
    have hshape' := hshape.halved k
    have hshapes := hshape.halved (k + 1)
    have hhalvable := h.last
    have hhalvable' : (s.halved k).halvable = true :=
      halvable_congr hshape'.width_eq hshape'.height_eq ▸ hhalvable
    have hw : (r.halved (k + 1)).width = (r.halved k).width / 2 := width_halve hhalvable
    have hh : (r.halved (k + 1)).height = (r.halved k).height / 2 := height_halve hhalvable
    have hquarter (i j : Nat) (hi : i < 2) (hj : j < 2) :
        (r.halved k).sample ((2 * y + j) * (r.halved k).width + (2 * x + i)) c =
          (s.halved k).sample ((2 * y + j) * (s.halved k).width + (2 * x + i)) c := by
      refine ih hprevious (by omega) (by omega) fun x' y' hx' hy' => hblock x' y' ?_ ?_
      · rw [Nat.pow_succ, ← Nat.div_div_eq_div_mul, hx']
        omega
      · rw [Nat.pow_succ, ← Nat.div_div_eq_div_mul, hy']
        omega
    have hmean := sample_halve hhalvable hx hy (by rwa [depth_halved])
    have hmean' := sample_halve hhalvable' (hshapes.width_eq ▸ hx) (hshapes.height_eq ▸ hy)
      (by rwa [depth_halved, ← hshape.depth_eq])
    have h₀₀ := hquarter 0 0 (by omega) (by omega)
    have h₁₀ := hquarter 1 0 (by omega) (by omega)
    have h₀₁ := hquarter 0 1 (by omega) (by omega)
    have h₁₁ := hquarter 1 1 (by omega) (by omega)
    simp only [Nat.add_zero] at h₀₀ h₁₀ h₀₁
    rw [halved, halved, hmean, hmean']
    simp only [block, List.map_cons, List.map_nil, h₀₀, h₁₀, h₀₁, h₁₁]

/-- What remains of a sample after a number of halvings, when all around it is black. -/
def faded (v : Nat) : Nat → Nat
  | 0 => v
  | k + 1 => (faded v k + 2) / 4

/-- A halved raster is nowhere darker than a single pixel of the block would make it. -/
theorem faded_le_shade (h : r.Shrinks k) (hc : c < r.depth) (hx : x < (r.halved k).width)
    (hy : y < (r.halved k).height) (x' y' : Nat) (hx' : x' / 2 ^ k = x) (hy' : y' / 2 ^ k = y) :
    faded (r.sample (y' * r.width + x') c).toNat k ≤ r.shade k x y c := by
  refine shade_induction (P := fun k x y v => ∀ x' y', x' / 2 ^ k = x → y' / 2 ^ k = y →
    faded (r.sample (y' * r.width + x') c).toNat k ≤ v) hc ?_ ?_ h hx hy x' y' hx' hy'
  · rintro x y x' y' rfl rfl
    simp [faded, shade, halved]
  · intro k x y v₀₀ v₁₀ v₀₁ v₁₁ h₀₀ h₁₀ h₀₁ h₁₁ x' y' hx' hy'
    rw [Nat.pow_succ, ← Nat.div_div_eq_div_mul] at hx' hy'
    -- One of the four values stands for the pixel.
    have hcolumn : x' / 2 ^ k = 2 * x ∨ x' / 2 ^ k = 2 * x + 1 := by omega
    have hrow : y' / 2 ^ k = 2 * y ∨ y' / 2 ^ k = 2 * y + 1 := by omega
    have hone : faded (r.sample (y' * r.width + x') c).toNat k ≤ v₀₀ + v₁₀ + v₀₁ + v₁₁ := by
      rcases hcolumn with hcolumn | hcolumn <;> rcases hrow with hrow | hrow
      · exact Nat.le_trans (h₀₀ x' y' hcolumn hrow) (by omega)
      · exact Nat.le_trans (h₀₁ x' y' hcolumn hrow) (by omega)
      · exact Nat.le_trans (h₁₀ x' y' hcolumn hrow) (by omega)
      · exact Nat.le_trans (h₁₁ x' y' hcolumn hrow) (by omega)
    rw [faded]
    omega

/-- A lone 255 takes five halvings to disappear. -/
theorem faded_pos {k : Nat} (hk : k ≤ 4) : 0 < faded 255 k := by
  have hall : ∀ k ≤ 4, 0 < faded 255 k := by decide
  exact hall k hk

end Raster

/-! ### Square rasters -/

namespace Raster

variable {n : Nat} {f : Nat → Nat → UInt8}

/-- The gray raster of `n` by `n` pixels with the value `f x y` at `(x, y)`. -/
def square (n : Nat) (f : Nat → Nat → UInt8) : Raster :=
  generate n n .gray fun p _ => f (p % n) (p / n)

/-- The values of a square raster after a number of halvings. -/
def quartered (f : Nat → Nat → UInt8) : Nat → Nat → Nat → UInt8
  | 0, x, y => f x y
  | k + 1, x, y => Blend.mean [quartered f k (2 * x) (2 * y), quartered f k (2 * x + 1) (2 * y),
      quartered f k (2 * x) (2 * y + 1), quartered f k (2 * x + 1) (2 * y + 1)] Blend.quarters

theorem sample_square {x y : Nat} (hx : x < n) (hy : y < n) :
    (square n f).sample (y * n + x) 0 = f x y := by
  rw [square, sample_generate (index_lt hy hx) Nat.zero_lt_one, index_mod y hx, index_div y hx]

theorem halvable_square (hn : 0 < n) : (square (2 * n) f).halvable = true := by
  have htwo : 2 ≤ 2 * n := Nat.le_mul_of_pos_right 2 hn
  show (decide (2 ≤ 2 * n) && decide (2 ≤ 2 * n)) = true
  simp only [htwo, decide_true, Bool.and_self]

theorem halve_square (hn : 0 < n) : (square (2 * n) f).halve = square n (quartered f 1) := by
  have hside : 2 * n / 2 = n := Nat.mul_div_cancel_left n Nat.two_pos
  rw [halve, if_pos (halvable_square hn), blockMeans]
  show generate (2 * n / 2) (2 * n / 2) .gray _ = _
  rw [hside]
  refine generate_congr fun p hp c hc => ?_
  obtain rfl : c = 0 := Nat.lt_one_iff.mp hc
  have hx : p % n < n := Nat.mod_lt p hn
  have hy : p / n < n := Nat.div_lt_of_lt_mul hp
  have hsample (i j : Nat) (hi : i < 2 * n) (hj : j < 2 * n) :
      (square (2 * n) f).sample (j * (square (2 * n) f).width + i) 0 = f i j :=
    sample_square hi hj
  show Blend.mean (((square (2 * n) f).block (p % (2 * n / 2)) (p / (2 * n / 2))).map _) _ = _
  rw [hside, block, List.map_cons, List.map_cons, List.map_cons, List.map_cons, List.map_nil,
    hsample _ _ (by omega) (by omega), hsample _ _ (by omega) (by omega),
    hsample _ _ (by omega) (by omega), hsample _ _ (by omega) (by omega)]
  rfl

theorem halved_square (hn : 0 < n) (k : Nat) :
    (square (2 ^ k * n) f).halved k = square n (quartered f k) := by
  induction k generalizing n with
  | zero => rw [Nat.pow_zero, Nat.one_mul, halved]; rfl
  | succ k ih =>
    have hdouble : 2 ^ (k + 1) * n = 2 ^ k * (2 * n) := by rw [Nat.pow_succ, Nat.mul_assoc]
    rw [hdouble, halved, ih (Nat.mul_pos Nat.two_pos hn), halve_square hn]
    rfl

end Raster

/-! ### Open blocks -/

namespace Canvas

variable {c c' : Canvas} {k x y : Nat}

/-- There is no hole in the block of `2 ^ k` by `2 ^ k` cells that cell `(x, y)` stands for after
`k` halvings. -/
def OpenBlock (c : Canvas) (k x y : Nat) : Prop :=
  ∀ x' y', x' / 2 ^ k = x → y' / 2 ^ k = y → c.isHole (c.cell x' y') = false

/-- Every position inside of a canvas is a cell. -/
theorem exists_cell_eq {p : Nat} (hp : p < c.area) :
    ∃ x < c.width, ∃ y < c.height, c.cell x y = p :=
  Raster.exists_cell_eq hp

/-- A cell of a canvas halved `k` times stands for cells of the canvas. -/
theorem cell_lt_area_of_halved (h : c.image.Shrinks k) {x' y' : Nat}
    (hx : x' / 2 ^ k < (c.halved k).width) (hy : y' / 2 ^ k < (c.halved k).height) :
    c.cell x' y' < c.area := by
  rw [width_halved h] at hx
  rw [height_halved h] at hy
  have hx' : x' < c.width := Nat.lt_of_div_lt_div hx
  have hy' : y' < c.height := Nat.lt_of_div_lt_div hy
  exact Raster.cell_lt_area hx' hy'

/-- A canvas that agrees with a consistent one, and has its mask, is consistent. -/
theorem Agree.consistent (h : c.Agree c') (hc : c.Consistent) (hmask : c.mask = c'.mask) :
    c'.Consistent where
  width_eq := by rw [← hmask, hc.width_eq, h.shape.width_eq]
  height_eq := by rw [← hmask, hc.height_eq, h.shape.height_eq]
  depth_mask := by rw [← hmask, hc.depth_mask]
  holes_eq := by rw [← hmask, ← h.holes_eq, hc.holes_eq]

/-- Canvases that agree have the same colours in every open block. -/
theorem Agree.sample_halved_eq (hagree : c.Agree c') (h : c.image.Shrinks k)
    (hx : x < (c.halved k).width) (hy : y < (c.halved k).height) (hopen : c.OpenBlock k x y)
    {ch : Nat} (hch : ch < c.depth) : (c.halved k).image.sample ((c.halved k).cell x y) ch =
      (c'.halved k).image.sample ((c'.halved k).cell x y) ch := by
  have hblock : ∀ x' y', x' / 2 ^ k = x → y' / 2 ^ k = y →
      c.image.sample (y' * c.image.width + x') ch =
        c'.image.sample (y' * c'.image.width + x') ch := by
    intro x' y' hx' hy'
    rw [← hagree.shape.width_eq]
    refine hagree.sample_eq _ ?_ (hopen x' y' hx' hy') ch hch
    exact cell_lt_area_of_halved h (hx'.symm ▸ hx) (hy'.symm ▸ hy)
  simp only [cell, width, height, image_halved] at hx hy ⊢
  exact Raster.sample_halved_congr hagree.shape h hx hy hch hblock

/-- A cell that is open after at most four halvings stands for an open block, if the mask knows
only 0 and 255. -/
theorem Consistent.openBlock (hc : c.Consistent)
    (hmask : ∀ p < c.area, c.mask.sample p 0 = 0 ∨ c.mask.sample p 0 = 255) (hk : k ≤ 4)
    (h : c.image.Shrinks k) (hx : x < (c.halved k).width) (hy : y < (c.halved k).height)
    (hopen : (c.halved k).isHole ((c.halved k).cell x y) = false) : c.OpenBlock k x y := by
  intro x' y' hx' hy'
  have hcell : c.cell x' y' < c.area := cell_lt_area_of_halved h (hx'.symm ▸ hx) (hy'.symm ▸ hy)
  rcases hmask _ hcell with hzero | hwhite
  · exact (hc.isHole_eq_false_iff _).mpr hzero
  · -- A white sample of the mask would still be visible.
    have hdepth : 0 < c.mask.depth := Nat.lt_of_lt_of_eq Nat.zero_lt_one hc.depth_mask.symm
    have hblack : c.mask.shade k x y 0 = 0 :=
      Decidable.not_not.mp (mt hc.isHole_halved_iff.mpr (Bool.eq_false_iff.mp hopen))
    rw [← hc.width_mask_halved] at hx
    rw [← hc.height_mask_halved] at hy
    have hfaded := Raster.faded_le_shade (hc.shrinks_mask h) hdepth hx hy x' y' hx' hy'
    rw [hblack, hc.width_eq] at hfaded
    change Raster.faded (c.mask.sample (c.cell x' y') 0).toNat k ≤ 0 at hfaded
    rw [hwhite] at hfaded
    exact absurd (Raster.faded_pos hk) (Nat.not_lt.mpr hfaded)

end Canvas

/-! ### A speck of hole -/

namespace Pyramid

/-- A square mask with a single hole, in its first cell. -/
def speck (x y : Nat) : UInt8 :=
  if x = 0 ∧ y = 0 then 255 else 0

/-- The colour `v` under that hole; elsewhere black, but for a quarter of faint gray. -/
def speckled (v : UInt8) (x y : Nat) : UInt8 :=
  if x = 0 ∧ y = 0 then v else if 16 ≤ x ∧ y < 16 then 1 else 0

/-- An image of `n` by `n` pixels with the colour `v` under its only hole. -/
def speckCanvas (n : Nat) (v : UInt8) : Canvas :=
  .ofParts (.square n (speckled v)) (.square n speck)

theorem consistent_speckCanvas (n : Nat) (v : UInt8) : (speckCanvas n v).Consistent :=
  Canvas.consistent_ofParts rfl rfl rfl

theorem mask_speckCanvas (n : Nat) (v : UInt8) : (speckCanvas n v).mask = .square n speck :=
  rfl

theorem sample_mask_speckCanvas {n p : Nat} {v : UInt8} (hp : p < (speckCanvas n v).area) :
    (speckCanvas n v).mask.sample p 0 = speck (p % n) (p / n) :=
  Raster.sample_generate hp Nat.zero_lt_one

theorem isHole_speckCanvas_iff {n x y : Nat} {v : UInt8} (hx : x < n) (hy : y < n) :
    (speckCanvas n v).isHole ((speckCanvas n v).cell x y) = true ↔ x = 0 ∧ y = 0 := by
  have hcell : (speckCanvas n v).cell x y = y * n + x := rfl
  have hp : y * n + x < (speckCanvas n v).area := Raster.index_lt hy hx
  rw [(consistent_speckCanvas n v).isHole_eq, hcell, sample_mask_speckCanvas hp,
    Raster.index_mod y hx, Raster.index_div y hx, speck]
  split <;> simp [*]

theorem agree_speckCanvas (n : Nat) (v w : UInt8) :
    (speckCanvas n v).Agree (speckCanvas n w) where
  shape := ⟨rfl, rfl, rfl⟩
  holes_eq := rfl
  sample_eq := by
    intro p hp hopen ch hch
    have himage (u : UInt8) :
        (speckCanvas n u).image.sample p ch = speckled u (p % n) (p / n) :=
      Raster.sample_generate hp hch
    rw [(consistent_speckCanvas n v).isHole_eq_false_iff, sample_mask_speckCanvas hp,
      speck] at hopen
    have hfirst : ¬ (p % n = 0 ∧ p / n = 0) := by
      intro h
      rw [if_pos h] at hopen
      cases hopen
    rw [himage, himage, speckled, speckled, if_neg hfirst, if_neg hfirst]

theorem extreme_speckCanvas (n : Nat) (v : UInt8) : ∀ p < (speckCanvas n v).area,
    (speckCanvas n v).mask.sample p 0 = 0 ∨ (speckCanvas n v).mask.sample p 0 = 255 := by
  intro p hp
  rw [sample_mask_speckCanvas hp, speck]
  split <;> simp

theorem halved_speckCanvas {n : Nat} (hn : 0 < n) (k : Nat) (v : UInt8) :
    (speckCanvas (2 ^ k * n) v).halved k =
      .ofParts (.square n (Raster.quartered (speckled v) k))
        (.square n (Raster.quartered speck k)) := by
  have hconsistent := consistent_speckCanvas (2 ^ k * n) v
  have himage : ((speckCanvas (2 ^ k * n) v).halved k).image =
      .square n (Raster.quartered (speckled v) k) :=
    (Canvas.image_halved _ k).trans (Raster.halved_square hn k)
  have hmask : ((speckCanvas (2 ^ k * n) v).halved k).mask =
      .square n (Raster.quartered speck k) :=
    (hconsistent.mask_halved k).trans (Raster.halved_square hn k)
  rw [← himage, ← hmask, Canvas.ofParts, ← (hconsistent.halved k).holes_eq]

/-- As long as the speck of hole is visible, there is something to halve. -/
theorem splits_speckCanvas {n k : Nat} (hk : k ≤ 4) (hn : 2 ≤ n) (v : UInt8) :
    splits 1 ((speckCanvas (2 ^ k * n) v).halved k) = true := by
  have hvisible : ∀ k ≤ 4, Raster.quartered speck k 0 0 ≠ 0 := by decide +kernel
  have hn' : 0 < n := Nat.zero_lt_of_lt hn
  let level : Canvas := .ofParts (.square n (Raster.quartered (speckled v) k))
    (.square n (Raster.quartered speck k))
  have hhole : level.isHole 0 = true := by
    have hconsistent : level.Consistent := Canvas.consistent_ofParts rfl rfl rfl
    have hsample : level.mask.sample 0 0 = Raster.quartered speck k 0 0 := by
      have := Raster.sample_square (f := Raster.quartered speck k) hn' hn'
      rwa [Nat.zero_mul] at this
    rw [hconsistent.isHole_eq, hsample]
    exact hvisible k hk
  have hcount : 0 < level.countHoles := by
    refine Nat.pos_of_ne_zero fun hzero => ?_
    rw [Canvas.countHoles_eq_zero_iff.mp hzero 0] at hhole
    cases hhole
  rw [halved_speckCanvas hn']
  have hside : 1 < n := hn
  show (decide (1 < n) && decide (1 < n) && decide (0 < level.countHoles) &&
    (decide (1 < n) && decide (1 < n))) = true
  simp only [hside, hcount, decide_true, Bool.and_self]

/-- The canvas has a fifth level. -/
theorem level?_speckCanvas {k : Nat} (hk : k ≤ 5) (v : UInt8) :
    (build (speckCanvas 32 v) 1).level? k = .ok ((speckCanvas 32 v).halved k) := by
  refine level?_build_eq_ok_iff.mpr ⟨?_, rfl⟩
  refine le_coarsest fun i hi => ?_
  have hi' : i ≤ 4 := by omega
  have hsize : 32 = 2 ^ i * 2 ^ (5 - i) := by
    rw [← Nat.pow_add, Nat.add_sub_of_le (Nat.le_of_lt (Nat.lt_of_lt_of_le hi hk))]
  rw [hsize]
  refine splits_speckCanvas hi' ?_ v
  calc
    2 = 2 ^ 1 := rfl
    _ ≤ 2 ^ (5 - i) := Nat.pow_le_pow_right Nat.two_pos (by omega)

end Pyramid

/-! ### Pyramids of canvases that agree -/

namespace Pyramid

variable {c c' : Canvas}

/-- With one mask, and images of one shape, the halvings have the same holes. -/
theorem holes_halved_eq (hc : c.Consistent) (hc' : c'.Consistent) (hmask : c.mask = c'.mask)
    (k : Nat) : (c.halved k).holes = (c'.halved k).holes := by
  rw [(hc.halved k).holes_eq, (hc'.halved k).holes_eq, hc.mask_halved, hc'.mask_halved, hmask]

theorem coarsest_eq_of_mask (hc : c.Consistent) (hc' : c'.Consistent)
    (hshape : c.image.SameShape c'.image) (hmask : c.mask = c'.mask) (radius : Nat) :
    (build c radius).coarsest = (build c' radius).coarsest := by
  refine coarsest_congr fun k => splits_of_holes_eq ?_ (holes_halved_eq hc hc' hmask k) radius
  rw [Canvas.image_halved, Canvas.image_halved]
  exact hshape.halved k

/-- **Hole colours stay out of four halvings.**  Two canvases that agree, with one mask of 0 and
255, have pyramids of the same number of levels, with the same sides, channels and holes at each.
Up to the fourth halving the levels agree as well, and at every level they have the same samples
where a cell stands for a block without a hole. -/
theorem levels_agree (hc : c.Consistent) (hagree : c.Agree c') (hmask : c.mask = c'.mask)
    (hspeck : ∀ p < c.area, c.mask.sample p 0 = 0 ∨ c.mask.sample p 0 = 255) (radius : Nat) :
    (build c radius).coarsest = (build c' radius).coarsest ∧
    ∀ k level level', (build c radius).level? k = .ok level →
      (build c' radius).level? k = .ok level' →
      level.image.SameShape level'.image ∧ level.holes = level'.holes ∧
      (k ≤ 4 → level.Agree level') ∧
      ∀ x < level.width, ∀ y < level.height, c.OpenBlock k x y → ∀ ch < level.depth,
        level.image.sample (level.cell x y) ch = level'.image.sample (level'.cell x y) ch := by
  have hc' : c'.Consistent := hagree.consistent hc hmask
  refine ⟨coarsest_eq_of_mask hc hc' hagree.shape hmask radius, ?_⟩
  intro k level level' hlevel hlevel'
  obtain ⟨hk, rfl⟩ := level?_build_eq_ok_iff.mp hlevel
  obtain ⟨-, rfl⟩ := level?_build_eq_ok_iff.mp hlevel'
  have hshrinks := shrinks_of_le hk
  have hshape : (c.halved k).image.SameShape (c'.halved k).image := by
    rw [Canvas.image_halved, Canvas.image_halved]
    exact hagree.shape.halved k
  have hholes := holes_halved_eq hc hc' hmask k
  have hblock : ∀ x < (c.halved k).width, ∀ y < (c.halved k).height, c.OpenBlock k x y →
      ∀ ch < (c.halved k).depth, (c.halved k).image.sample ((c.halved k).cell x y) ch =
        (c'.halved k).image.sample ((c'.halved k).cell x y) ch := by
    intro x hx y hy hopen ch hch
    exact hagree.sample_halved_eq hshrinks hx hy hopen (c.depth_halved k ▸ hch)
  refine ⟨hshape, hholes, fun hfour => ⟨hshape, hholes, ?_⟩, hblock⟩
  intro p hp hopen ch hch
  obtain ⟨x, hx, y, hy, rfl⟩ := Canvas.exists_cell_eq hp
  have hcell : (c'.halved k).cell x y = (c.halved k).cell x y := by
    have hw : (c'.halved k).width = (c.halved k).width := hshape.width_eq.symm
    rw [Canvas.cell, Canvas.cell, hw]
  have hsample := hblock x hx y hy (hc.openBlock hspeck hfour hshrinks hx hy hopen) ch hch
  rwa [hcell] at hsample

/-- A speck of hole hides its colour from the fourth level. -/
theorem levels_agree_speck :
    (speckCanvas 32 0).Consistent ∧ (speckCanvas 32 0).Agree (speckCanvas 32 255) ∧
    (speckCanvas 32 0).mask = (speckCanvas 32 255).mask ∧
    (∀ p < (speckCanvas 32 0).area,
      (speckCanvas 32 0).mask.sample p 0 = 0 ∨ (speckCanvas 32 0).mask.sample p 0 = 255) ∧
    ∃ level level', (build (speckCanvas 32 0) 1).level? 4 = .ok level ∧
      (build (speckCanvas 32 255) 1).level? 4 = .ok level' ∧ level.Agree level' := by
  have hconsistent := consistent_speckCanvas 32 0
  have hagree := agree_speckCanvas 32 0 255
  have hmask : (speckCanvas 32 0).mask = (speckCanvas 32 255).mask := by
    rw [mask_speckCanvas, mask_speckCanvas]
  have hspeck := extreme_speckCanvas 32 0
  have hlevel := level?_speckCanvas (show 4 ≤ 5 by decide) 0
  have hlevel' := level?_speckCanvas (show 4 ≤ 5 by decide) 255
  obtain ⟨-, hlevels⟩ := levels_agree hconsistent hagree hmask hspeck 1
  obtain ⟨-, -, hfour, -⟩ := hlevels 4 _ _ hlevel hlevel'
  exact ⟨hconsistent, hagree, hmask, hspeck, _, _, hlevel, hlevel', hfour (Nat.le_refl 4)⟩

/-- At the fifth level the speck of hole has faded, and the colour under it shows in an open
cell. -/
theorem speck_shows :
    (speckCanvas 32 0).Consistent ∧ (speckCanvas 32 0).Agree (speckCanvas 32 255) ∧
    (speckCanvas 32 0).mask = (speckCanvas 32 255).mask ∧
    (∀ p < (speckCanvas 32 0).area,
      (speckCanvas 32 0).mask.sample p 0 = 0 ∨ (speckCanvas 32 0).mask.sample p 0 = 255) ∧
    ∃ level level', (build (speckCanvas 32 0) 1).level? 5 = .ok level ∧
      (build (speckCanvas 32 255) 1).level? 5 = .ok level' ∧
      level.isHole 0 = false ∧ level'.isHole 0 = false ∧
      level.image.sample 0 0 ≠ level'.image.sample 0 0 := by
  have hlevel (v : UInt8) : (speckCanvas 32 v).halved 5 =
      .ofParts (.square 1 (Raster.quartered (speckled v) 5))
        (.square 1 (Raster.quartered speck 5)) := halved_speckCanvas Nat.one_pos 5 v
  have hmask : (speckCanvas 32 0).mask = (speckCanvas 32 255).mask := by
    rw [mask_speckCanvas, mask_speckCanvas]
  refine ⟨consistent_speckCanvas 32 0, agree_speckCanvas 32 0 255, hmask, extreme_speckCanvas 32 0,
    _, _, level?_speckCanvas (Nat.le_refl 5) 0, level?_speckCanvas (Nat.le_refl 5) 255, ?_⟩
  rw [hlevel, hlevel]
  decide +kernel

end Pyramid

end Retouch
