import Mathlib

/-!
# Retouch — Number — Rounding

A number *fits* single precision when it has a mantissa of 24 bits above the least exponent; how
large it may be is left open here (`Single.Fits`).  A result in single precision is a number that
fits and to which no other is nearer than it (`Single.Nearest`).  What the rest of the theory needs
to know of rounding follows from this alone: it does not cross numbers that fit, keeps those that
do, keeps the order, and its error is small beside the number.

Rounding works on a mantissa with two more bits (`Single.Represents`).  `roundWithAccuracy_nearest`
says that it ends with the nearest number, in the form in which it can be packed.
-/

namespace Retouch.Single

/-! ### Numbers that fit -/

/-- A number that is not below zero and has a mantissa of 24 bits. -/
def Fits (q : ℚ) : Prop :=
  ∃ (m : ℕ) (e : ℤ), m < 2 ^ 24 ∧ -149 ≤ e ∧ q = m * 2 ^ e

theorem two_zpow_pos (e : ℤ) : (0 : ℚ) < 2 ^ e :=
  zpow_pos two_pos e

/-- The mantissa may be one more than 24 bits can hold. -/
theorem fits_mul_zpow {m : ℕ} {e : ℤ} (hm : m ≤ 2 ^ 24) (he : -149 ≤ e) :
    Fits (m * 2 ^ e) := by
  rcases Nat.lt_or_eq_of_le hm with hm | rfl
  · exact ⟨m, e, hm, he, rfl⟩
  · refine ⟨2 ^ 23, e + 1, by norm_num, by omega, ?_⟩
    rw [zpow_add_one₀ two_ne_zero]
    push_cast
    ring

theorem fits_natCast {n : ℕ} (hn : n ≤ 2 ^ 24) : Fits n := by
  simpa using fits_mul_zpow hn (show (-149 : ℤ) ≤ 0 by norm_num)

theorem fits_two_pow (n : ℕ) : Fits (2 ^ n) := by
  simpa using fits_mul_zpow (m := 1) (e := n) (by norm_num) (by omega)

/-! ### The nearest number -/

/-- `r` fits, and no number that fits is nearer to `q`. -/
structure Nearest (q r : ℚ) : Prop where
  fits : Fits r
  abs_sub_le : ∀ s, Fits s → |r - q| ≤ |s - q|

namespace Nearest

variable {p q r s : ℚ}

/-- What fits below the nearest number is not nearer. -/
theorem add_le (h : Nearest q r) (hs : Fits s) (hlt : s < r) : r + s ≤ 2 * q := by
  have hsq := sq_le_sq.mpr (h.abs_sub_le s hs)
  nlinarith

/-- What fits above the nearest number is not nearer. -/
theorem le_add (h : Nearest q r) (hs : Fits s) (hlt : r < s) : 2 * q ≤ r + s := by
  have hsq := sq_le_sq.mpr (h.abs_sub_le s hs)
  nlinarith

/-- Rounding does not go up past a number that fits. -/
theorem le_of_le (h : Nearest q r) (hs : Fits s) (hq : q ≤ s) : r ≤ s := by
  by_contra! hlt
  have := h.add_le hs hlt
  linarith

/-- Rounding does not go down past a number that fits. -/
theorem ge_of_ge (h : Nearest q r) (hs : Fits s) (hq : s ≤ q) : s ≤ r := by
  by_contra! hlt
  have := h.le_add hs hlt
  linarith

/-- A number that fits stays as it is. -/
theorem eq_of_fits (h : Nearest q r) (hq : Fits q) : r = q :=
  le_antisymm (h.le_of_le hq le_rfl) (h.ge_of_ge hq le_rfl)

/-- Rounding keeps the order. -/
theorem le_of_lt (hp : Nearest p r) (hq : Nearest q s) (h : p < q) : r ≤ s := by
  by_contra! hlt
  have hr := hp.add_le hq.fits hlt
  have hs := hq.le_add hp.fits hlt
  linarith

/-- From the least normal number on, the error is small beside the number. -/
theorem abs_sub_le_mul (h : Nearest q r) (hq : 2 ^ (-126 : ℤ) ≤ q) : |r - q| ≤ q / 2 ^ 24 := by
  have hpos : 0 < q := (two_zpow_pos _).trans_le hq
  obtain ⟨n, hlo, hhi⟩ := exists_mem_Ico_zpow hpos (one_lt_two (α := ℚ))
  have hn : -126 ≤ n := by
    have hlt : (2 : ℚ) ^ (-126 : ℤ) < 2 ^ (n + 1) := hq.trans_lt hhi
    have := (zpow_lt_zpow_iff_right₀ (one_lt_two (α := ℚ))).mp hlt
    omega
  -- On the grid of `2 ^ (n - 23)`, both neighbours of `q` fit.
  have hgrid : (0 : ℚ) < 2 ^ (n - 23) := two_zpow_pos _
  have hsplit : (2 : ℚ) ^ n = 2 ^ 23 * 2 ^ (n - 23) := by
    rw [← zpow_natCast, ← zpow_add₀ two_ne_zero]
    congr 1
    omega
  have hfloor := Nat.floor_le (div_nonneg hpos.le hgrid.le)
  have hceil := Nat.lt_floor_add_one (q / 2 ^ (n - 23))
  rw [le_div_iff₀ hgrid] at hfloor
  rw [div_lt_iff₀ hgrid] at hceil
  have hbelow : (⌊q / 2 ^ (n - 23)⌋₊ : ℕ) < 2 ^ 24 := by
    rw [Nat.floor_lt (div_nonneg hpos.le hgrid.le), div_lt_iff₀ hgrid]
    rw [zpow_add_one₀ two_ne_zero, hsplit] at hhi
    push_cast
    linarith
  have hdown := fits_mul_zpow hbelow.le (show -149 ≤ n - 23 by omega)
  have hup := fits_mul_zpow hbelow (show -149 ≤ n - 23 by omega)
  have hr₀ := h.ge_of_ge hdown hfloor
  have hr₁ := h.le_of_le hup (by push_cast; exact hceil.le)
  rw [hsplit] at hlo
  rw [abs_le]
  push_cast at hup hr₁
  constructor
  · rcases hr₁.lt_or_eq with hlt | heq
    · have := h.le_add hup hlt
      linarith
    · linarith
  · rcases hr₀.lt_or_eq with hlt | heq
    · have := h.add_le hdown hlt
      linarith
    · linarith

end Nearest

/-! ### A mantissa with two more bits -/

open Float.Model (UnpackedFloat Format totalExponent)
open Float.Model.UnpackedFloat (Accuracy ExtendedMantissa)

/-- What the round bit and the sticky bit say of the number `x` that a mantissa has been cut from:
whether it has reached the middle of the step to the next mantissa, and whether it is past that, or
past the mantissa. -/
def Represents : ExtendedMantissa → ℚ → Prop
  | ⟨m, false, false⟩, x => x = m
  | ⟨m, false, true⟩, x => m < x ∧ x < m + 1 / 2
  | ⟨m, true, false⟩, x => x = m + 1 / 2
  | ⟨m, true, true⟩, x => m + 1 / 2 < x ∧ x < m + 1

theorem mantissa_ofMantissaAndAccuracy (m : ℕ) (accuracy : Accuracy) :
    (ExtendedMantissa.ofMantissaAndAccuracy m accuracy).mantissa = m := by
  obtain _ | _ | _ | _ := accuracy <;> rfl

theorem represents_exact (m : ℕ) : Represents (.ofMantissaAndAccuracy m .exact) m :=
  rfl

namespace Represents

variable {em : ExtendedMantissa} {x : ℚ}

theorem mantissa_le (h : Represents em x) : em.mantissa ≤ x := by
  obtain ⟨m, _ | _, _ | _⟩ := em <;> simp only [Represents] at h <;> linarith

theorem lt_mantissa_add_one (h : Represents em x) : x < em.mantissa + 1 := by
  obtain ⟨m, _ | _, _ | _⟩ := em <;> simp only [Represents] at h <;> linarith

/-- The rounded mantissa is one of the whole numbers nearest to `x`. -/
theorem abs_roundedMantissa_sub_le (h : Represents em x) :
    |(em.roundedMantissa : ℚ) - x| ≤ 1 / 2 := by
  obtain ⟨m, _ | _, _ | _⟩ := em <;>
    simp only [Represents, ExtendedMantissa.roundedMantissa, ExtendedMantissa.accuracy,
      Accuracy.roundToNearestEven] at h ⊢ <;> rw [abs_le]
  · constructor <;> linarith
  · constructor <;> linarith
  · -- A half goes to the even mantissa, on either side.
    rcases Nat.mod_two_eq_zero_or_one m with heven | hodd
    · rw [heven]
      constructor <;> push_cast <;> linarith
    · rw [hodd]
      constructor <;> push_cast <;> linarith
  · constructor <;> push_cast <;> linarith

theorem shiftRightOne (h : Represents em x) : Represents em.shiftRightOne (x / 2) := by
  obtain ⟨m, round, sticky⟩ := em
  obtain ⟨k, rfl | rfl⟩ := Nat.even_or_odd' m
  · have hhalf : ExtendedMantissa.shiftRightOne ⟨2 * k, round, sticky⟩ =
        ⟨k, false, round || sticky⟩ := by
      simp [ExtendedMantissa.shiftRightOne]
    rw [hhalf]
    cases round <;> cases sticky <;> simp only [Represents, Bool.or_false, Bool.or_true] at h ⊢ <;>
      push_cast at h <;> first | linarith | (constructor <;> linarith)
  · have hhalf : ExtendedMantissa.shiftRightOne ⟨2 * k + 1, round, sticky⟩ =
        ⟨k, true, round || sticky⟩ := by
      simp [ExtendedMantissa.shiftRightOne]
      omega
    rw [hhalf]
    cases round <;> cases sticky <;> simp only [Represents, Bool.or_false, Bool.or_true] at h ⊢ <;>
      push_cast at h <;> first | linarith | (constructor <;> linarith)

/-- Bits that are shifted out are remembered. -/
theorem shiftRight (h : Represents em x) (n : ℕ) : Represents (em >>> n) (x / 2 ^ n) := by
  change Represents (n.repeat ExtendedMantissa.shiftRightOne em) _
  induction n with
  | zero => simpa [Nat.repeat] using h
  | succ n ih =>
    rw [Nat.repeat, pow_succ, ← div_div]
    exact ih.shiftRightOne

end Represents

/-! ### Rounding -/

/-- The form of a number in which it can be packed: the mantissa has all its bits, or the exponent
is the least one. -/
structure Canonical (m : ℕ) (e : ℤ) : Prop where
  lt : m < 2 ^ 24
  le : -149 ≤ e
  full : 2 ^ 23 ≤ m ∨ e = -149

/-- What is unpacked is the number `q`, not below zero. -/
inductive Stands : UnpackedFloat → ℚ → Prop where
  | zero (sign : UnpackedFloat.Sign) : Stands (.zero sign) 0
  | finite {m : ℕ} {e : ℤ} (hm : 0 < m) (h : Canonical m e) :
      Stands (.finite .positive m e hm) (m * 2 ^ e)

theorem Stands.fits {u : UnpackedFloat} {q : ℚ} (h : Stands u q) : Fits q := by
  cases h with
  | zero => exact ⟨0, 0, by norm_num, by norm_num, by simp⟩
  | finite hm h => exact ⟨_, _, h.lt, h.le, rfl⟩

theorem Stands.nonneg {u : UnpackedFloat} {q : ℚ} (h : Stands u q) : 0 ≤ q := by
  cases h with
  | zero => exact le_rfl
  | finite hm h => exact mul_nonneg (Nat.cast_nonneg _) (two_zpow_pos _).le

theorem targetExponent_eq (n : ℤ) : Format.binary32.targetExponent n = max (n - 24) (-149) :=
  rfl

/-- The exponent that a mantissa asks for is so large that 24 bits hold the mantissa, and, unless it
is the least one, not larger. -/
theorem two_pow_log2_bounds {m : ℕ} {e : ℤ}
    (he : e ≤ Format.binary32.targetExponent (totalExponent m e)) {k : ℕ}
    (hk : Format.binary32.targetExponent (totalExponent m e) = e + k) :
    m + 1 ≤ 2 ^ 24 * 2 ^ k ∧ (2 ^ 23 * 2 ^ k ≤ m ∨ e + k = -149) := by
  rw [targetExponent_eq, totalExponent] at he hk
  have hhi : m + 1 ≤ 2 ^ (m.log2 + 1) := Nat.lt_log2_self
  constructor
  · rw [← pow_add]
    exact hhi.trans (Nat.pow_le_pow_right two_pos (by omega))
  · refine or_iff_not_imp_right.mpr fun hne => ?_
    have hlog : m.log2 = 23 + k := by omega
    have hm : m ≠ 0 := by
      rintro rfl
      rw [Nat.log2_zero] at hlog
      omega
    rw [← pow_add, ← hlog]
    exact Nat.log2_self_le hm

/-- A mantissa of 24 bits stays where it is. -/
theorem shiftToTargetExponent_of_lt {n : ℕ} {t : ℤ} (hn : n < 2 ^ 24) (ht : -149 ≤ t) :
    UnpackedFloat.shiftToTargetExponent Format.binary32 n t .exact = (⟨n, false, false⟩, t) := by
  have hlog : n.log2 < 24 := by
    by_cases hzero : n = 0
    · rw [hzero, Nat.log2_zero]
      norm_num
    · exact (Nat.log2_lt hzero).mpr hn
  have hshift : (Format.binary32.targetExponent (totalExponent n t) - t).toNat = 0 := by
    rw [targetExponent_eq, totalExponent]
    omega
  simp only [UnpackedFloat.shiftToTargetExponent, UnpackedFloat.shiftToExponent, hshift,
    Nat.cast_zero, add_zero]
  rfl

/-- A mantissa that has been rounded up to one bit more is halved. -/
theorem shiftToTargetExponent_two_pow {t : ℤ} (ht : -149 ≤ t) :
    UnpackedFloat.shiftToTargetExponent Format.binary32 (2 ^ 24) t .exact =
      (⟨2 ^ 23, false, false⟩, t + 1) := by
  have hshift : (Format.binary32.targetExponent (totalExponent (2 ^ 24) t) - t).toNat = 1 := by
    rw [targetExponent_eq, totalExponent, Nat.log2_two_pow]
    omega
  simp only [UnpackedFloat.shiftToTargetExponent, UnpackedFloat.shiftToExponent, hshift,
    Nat.cast_one]
  rfl

/-- On a grid so fine that no number that fits is between two of its points near `y * 2 ^ t`, the
nearest point is the nearest number. -/
theorem nearest_of_grid {y : ℚ} {t : ℤ} {n : ℕ} (hn : |(n : ℚ) - y| ≤ 1 / 2) (hy : y < 2 ^ 24)
    (ht : -149 ≤ t) (hfull : 2 ^ 23 ≤ y ∨ t = -149) : Nearest (y * 2 ^ t) (n * 2 ^ t) := by
  have hgrid := two_zpow_pos t
  have hle : n ≤ 2 ^ 24 := by
    have hlt : (n : ℚ) < (2 ^ 24 + 1 : ℕ) := by
      push_cast
      linarith [(abs_le.mp hn).2]
    exact Nat.lt_succ_iff.mp (by exact_mod_cast hlt)
  -- No other whole number is nearer to `y`.
  have hwhole (k : ℕ) : |(n : ℚ) - y| ≤ |(k : ℚ) - y| := by
    rcases lt_trichotomy k n with hk | rfl | hk
    · have hk' : (k : ℚ) + 1 ≤ n := by exact_mod_cast hk
      have := (abs_le.mp hn).2
      rw [abs_of_nonpos (show (k : ℚ) - y ≤ 0 by linarith)]
      linarith
    · exact le_rfl
    · have hk' : (n : ℚ) + 1 ≤ k := by exact_mod_cast hk
      have := (abs_le.mp hn).1
      rw [abs_of_nonneg (show 0 ≤ (k : ℚ) - y by linarith)]
      linarith
  refine ⟨fits_mul_zpow hle ht, ?_⟩
  rintro s ⟨m, e, hm, he, rfl⟩
  rw [← sub_mul, abs_mul, abs_of_pos hgrid]
  rcases le_or_gt t e with hte | het
  · -- A number with a larger exponent is on the grid.
    obtain ⟨k, rfl⟩ := Int.le.dest hte
    have hs : (m : ℚ) * 2 ^ (t + k) = (m * 2 ^ k : ℕ) * 2 ^ t := by
      rw [zpow_add₀ two_ne_zero, zpow_natCast]
      push_cast
      ring
    rw [hs, ← sub_mul, abs_mul, abs_of_pos hgrid]
    exact mul_le_mul_of_nonneg_right (hwhole _) hgrid.le
  · -- One with a smaller exponent is below all of the grid that is near.
    have hy' : 2 ^ 23 ≤ y := hfull.resolve_right (by omega)
    have hs : (m : ℚ) * 2 ^ e ≤ 2 ^ 23 * 2 ^ t := by
      have hexp : (2 : ℚ) ^ e ≤ 2 ^ (t - 1) := zpow_le_zpow_right₀ one_le_two (by omega)
      have hm' : (m : ℚ) ≤ 2 ^ 24 := by exact_mod_cast hm.le
      calc (m : ℚ) * 2 ^ e ≤ 2 ^ 24 * 2 ^ (t - 1) :=
            mul_le_mul hm' hexp (two_zpow_pos e).le (by norm_num)
        _ = 2 ^ 23 * 2 ^ t := by rw [zpow_sub_one₀ two_ne_zero]; ring
    have hfirst := hwhole (2 ^ 23)
    rw [Nat.cast_pow, Nat.cast_ofNat] at hfirst
    rw [abs_of_nonpos (show (2 : ℚ) ^ 23 - y ≤ 0 by linarith)] at hfirst
    have hmul := mul_le_mul_of_nonneg_right hfirst hgrid.le
    have hyt := mul_le_mul_of_nonneg_right hy' hgrid.le
    rw [abs_of_nonpos (show (m : ℚ) * 2 ^ e - y * 2 ^ t ≤ 0 by linarith)]
    linarith

/-- **Rounding ends with the nearest number**, provided that the mantissa is long enough. -/
theorem roundWithAccuracy_nearest {m : ℕ} {e : ℤ} {accuracy : Accuracy} {x : ℚ}
    (hx : Represents (.ofMantissaAndAccuracy m accuracy) x)
    (he : e ≤ Format.binary32.targetExponent (totalExponent m e)) :
    ∃ r, Stands (UnpackedFloat.roundWithAccuracy Format.binary32 .positive m e accuracy) r ∧
      Nearest (x * 2 ^ e) r := by
  obtain ⟨k, hk⟩ := Int.le.dest he
  obtain ⟨hlt, hfull⟩ := two_pow_log2_bounds he hk.symm
  have ht : -149 ≤ e + k := hk ▸ le_max_right _ _
  -- The first shift brings `x` to the grid of the exponent that is asked for.
  have hshifted : UnpackedFloat.shiftToTargetExponent Format.binary32 m e accuracy =
      (ExtendedMantissa.ofMantissaAndAccuracy m accuracy >>> k, e + k) := by
    simp only [UnpackedFloat.shiftToTargetExponent, UnpackedFloat.shiftToExponent, ← hk,
      add_sub_cancel_left, Int.toNat_natCast]
  have hpow : (0 : ℚ) < 2 ^ k := by positivity
  have hxlo := hx.mantissa_le
  have hxhi := hx.lt_mantissa_add_one
  rw [mantissa_ofMantissaAndAccuracy] at hxlo hxhi
  have hy : x / 2 ^ k < 2 ^ 24 := by
    rw [div_lt_iff₀ hpow]
    exact hxhi.trans_le (by exact_mod_cast hlt)
  have hyfull : 2 ^ 23 ≤ x / 2 ^ k ∨ e + k = -149 := by
    refine hfull.imp_left fun h => ?_
    rw [le_div_iff₀ hpow]
    exact le_trans (by exact_mod_cast h) hxlo
  have hq : x * 2 ^ e = x / 2 ^ k * 2 ^ (e + k) := by
    rw [zpow_add₀ two_ne_zero, zpow_natCast]
    field_simp
  have hround := (hx.shiftRight k).abs_roundedMantissa_sub_le
  generalize hn : (ExtendedMantissa.ofMantissaAndAccuracy m accuracy >>> k).roundedMantissa = n
    at hround
  have hnearest := nearest_of_grid hround hy ht hyfull
  refine ⟨n * 2 ^ (e + k), ?_, hq ▸ hnearest⟩
  have hnlo : 2 ^ 23 ≤ n ∨ e + k = -149 := by
    refine hyfull.imp_left fun h => ?_
    have hlt : (2 ^ 23 : ℕ) < (n : ℚ) + 1 := by
      push_cast
      linarith [(abs_le.mp hround).1]
    exact Nat.lt_succ_iff.mp (by exact_mod_cast hlt)
  have hnhi : n ≤ 2 ^ 24 := by
    have hlt : (n : ℚ) < (2 ^ 24 + 1 : ℕ) := by
      push_cast
      linarith [(abs_le.mp hround).2]
    exact Nat.lt_succ_iff.mp (by exact_mod_cast hlt)
  simp only [UnpackedFloat.roundWithAccuracy, hshifted, hn]
  -- The second shift is needed only when the mantissa has been rounded up to one bit more.
  rcases hnhi.lt_or_eq with hnlt | rfl
  · simp only [shiftToTargetExponent_of_lt hnlt ht]
    split
    · rename_i hzero
      simp only [hzero, Nat.cast_zero, zero_mul]
      exact .zero _
    · exact .finite _ ⟨hnlt, ht, hnlo⟩
  · simp only [shiftToTargetExponent_two_pow ht]
    rw [dif_neg (by norm_num)]
    have hvalue : ((2 ^ 24 : ℕ) : ℚ) * 2 ^ (e + k) = (2 ^ 23 : ℕ) * 2 ^ (e + k + 1) := by
      rw [zpow_add_one₀ two_ne_zero]
      push_cast
      ring
    rw [hvalue]
    exact .finite _ ⟨by norm_num, by omega, .inl le_rfl⟩

/-- Rounding a number whose mantissa may be short. -/
theorem round_nearest {m : ℕ} (hm : 0 < m) (e : ℤ) :
    ∃ r, Stands (UnpackedFloat.round Format.binary32 .positive m e) r ∧ Nearest (m * 2 ^ e) r := by
  -- The exponent is lowered by `k`, which leaves the number and what it asks for as they are.
  set k := (e - Format.binary32.targetExponent (totalExponent m e)).toNat with hk
  have hlog : (m <<< k).log2 = m.log2 + k := by
    rw [Nat.shiftLeft_eq, Nat.log2_eq_iff (by positivity), pow_add, Nat.add_right_comm, pow_add]
    exact ⟨Nat.mul_le_mul_right _ (Nat.log2_self_le hm.ne'),
      Nat.mul_lt_mul_of_pos_right Nat.lt_log2_self (by positivity)⟩
  have htotal : totalExponent (m <<< k) (e - k) = totalExponent m e := by
    rw [totalExponent, totalExponent, hlog]
    push_cast
    ring
  have hvalue : ((m <<< k : ℕ) : ℚ) * 2 ^ (e - k) = m * 2 ^ e := by
    rw [Nat.shiftLeft_eq, zpow_sub₀ two_ne_zero, zpow_natCast]
    push_cast
    field_simp
  have hround := roundWithAccuracy_nearest (represents_exact (m <<< k))
    (e := e - k) (by rw [htotal]; omega)
  rwa [hvalue] at hround

/-! ### Whole multiples -/

/-- Where numbers are so small that all of them are multiples of the least one, multiples are
exact. -/
theorem Fits.natCast_mul {q : ℚ} (hq : Fits q) {n : ℕ} (h : n * q < 2 ^ (-126 : ℤ)) :
    Fits (n * q) := by
  obtain ⟨m, e, -, he, rfl⟩ := hq
  obtain ⟨k, hk⟩ := Int.le.dest he
  have hvalue : (n * (m * 2 ^ e) : ℚ) = (n * (m * 2 ^ k) : ℕ) * 2 ^ (-149 : ℤ) := by
    rw [← hk, zpow_add₀ two_ne_zero, zpow_natCast]
    push_cast
    ring
  rw [hvalue] at h ⊢
  refine fits_mul_zpow ?_ le_rfl
  have hsplit : (2 : ℚ) ^ (-126 : ℤ) = (2 ^ 23 : ℕ) * 2 ^ (-149 : ℤ) := by norm_num
  rw [hsplit] at h
  have hlt : n * (m * 2 ^ k) < 2 ^ 23 := by
    exact_mod_cast lt_of_mul_lt_mul_right h (two_zpow_pos _).le
  exact hlt.le.trans (by norm_num)

/-- A product with a whole number is rounded by little, however small it is. -/
theorem Nearest.abs_sub_le_natCast_mul {q r : ℚ} {n : ℕ} (hq : Fits q) (h : Nearest (n * q) r) :
    |r - n * q| ≤ n * q / 2 ^ 24 := by
  rcases lt_or_ge (n * q) (2 ^ (-126 : ℤ)) with hsmall | hlarge
  · have hnonneg : 0 ≤ (n : ℚ) * q := by
      obtain ⟨m, e, -, -, rfl⟩ := hq
      have := two_zpow_pos e
      positivity
    rw [h.eq_of_fits (hq.natCast_mul hsmall), sub_self, abs_zero]
    positivity
  · exact h.abs_sub_le_mul hlarge

/-! ### Gaps -/

/-- Above `2 ^ 24` steps, the numbers that fit are two steps apart. -/
theorem Fits.gap {r : ℚ} {e : ℤ} (h : Fits r) (hlt : 2 ^ 24 * 2 ^ e < r) :
    2 ^ 24 * 2 ^ e + 2 * 2 ^ e ≤ r := by
  obtain ⟨m, f, hm, -, rfl⟩ := h
  have hstep := two_zpow_pos e
  have hef : e < f := by
    by_contra! hle
    have hexp : (2 : ℚ) ^ f ≤ 2 ^ e := zpow_le_zpow_right₀ one_le_two hle
    have hm' : (m : ℚ) ≤ 2 ^ 24 := by exact_mod_cast hm.le
    exact absurd (mul_le_mul hm' hexp (two_zpow_pos f).le (by positivity)) (not_le.mpr hlt)
  obtain ⟨k, rfl⟩ := Int.le.dest (Int.add_one_le_of_lt hef)
  have hvalue : (m : ℚ) * 2 ^ (e + 1 + k) = (m * 2 ^ k : ℕ) * (2 * 2 ^ e) := by
    rw [zpow_add₀ two_ne_zero, zpow_add_one₀ two_ne_zero, zpow_natCast]
    push_cast
    ring
  rw [hvalue] at hlt ⊢
  have hmul : 2 ^ 23 < m * 2 ^ k := by
    have hlt' : (2 ^ 23 : ℚ) * (2 * 2 ^ e) < (m * 2 ^ k : ℕ) * (2 * 2 ^ e) := by linarith
    exact_mod_cast lt_of_mul_lt_mul_right hlt' (by positivity)
  have hsucc : ((2 ^ 23 + 1 : ℕ) : ℚ) * (2 * 2 ^ e) ≤ (m * 2 ^ k : ℕ) * (2 * 2 ^ e) :=
    mul_le_mul_of_nonneg_right (by exact_mod_cast hmul) (by positivity)
  push_cast at hsucc ⊢
  linarith

/-- So less than one step is rounded away there. -/
theorem Nearest.le_of_lt_add {q r : ℚ} {e : ℤ} (h : Nearest q r) (he : -149 ≤ e)
    (hq : q < 2 ^ 24 * 2 ^ e + 2 ^ e) : r ≤ 2 ^ 24 * 2 ^ e := by
  by_contra! hlt
  have hpower : Fits (2 ^ 24 * 2 ^ e) := by exact_mod_cast fits_mul_zpow (m := 2 ^ 24) le_rfl he
  have hgap := h.fits.gap hlt
  have hnear := h.add_le hpower hlt
  linarith

end Retouch.Single
