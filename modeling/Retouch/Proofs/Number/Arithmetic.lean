import Retouch.Number.Byte
import Retouch.Number.Single
import Retouch.Proofs.Number.Rounding

/-!
# Retouch — Number — Arithmetic

Arithmetic on the singles that are numbers and not below zero (`Single.Amount`).  A sum, a product
or a quotient of two of them is the number nearest to the exact result, if that is in range
(`Single.limit`), and so is a difference that is not below zero.  Comparisons are those of the
numbers, counts of up to 24 bits are exact, and cutting to whole numbers is rounding down.  Small
numbers never add up to more than singles can hold (`exists_amount_accumulated`).

So whatever is computed in single precision can be followed in exact arithmetic, one rounding at a
time.
-/

namespace Retouch.Single

open Float.Model (UnpackedFloat Format totalExponent)
open Float.Model.UnpackedFloat (ExtendedMantissa)

/-! ### Packing -/

/-- Results below it do not overflow. -/
def limit : ℚ :=
  2 ^ 128 - 2 ^ 103

/-- What is nearest to a number below the limit can be packed. -/
theorem Nearest.lt_two_pow {q r : ℚ} (h : Nearest q r) (hq : q < limit) : r < 2 ^ 128 := by
  by_contra! hr
  have hmax : Fits ((2 ^ 24 - 1 : ℕ) * 2 ^ (104 : ℤ)) := fits_mul_zpow (by norm_num) (by norm_num)
  have hlt : ((2 ^ 24 - 1 : ℕ) : ℚ) * 2 ^ (104 : ℤ) < r := lt_of_lt_of_le (by norm_num) hr
  have := h.add_le hmax hlt
  norm_num [limit] at hq this hr
  linarith

theorem Canonical.le_of_lt {m : ℕ} {e : ℤ} (h : Canonical m e) (hq : (m : ℚ) * 2 ^ e < 2 ^ 128) :
    e ≤ 104 := by
  by_contra! hlarge
  have hm : (2 ^ 23 : ℚ) ≤ m := by exact_mod_cast h.full.resolve_right (by omega)
  have hexp : (2 : ℚ) ^ (105 : ℤ) ≤ 2 ^ e := zpow_le_zpow_right₀ one_le_two (by omega)
  have hmul := mul_le_mul hm hexp (two_zpow_pos _).le (Nat.cast_nonneg _)
  norm_num at hmul hq
  linarith

theorem exponentBias_eq : ((Format.binary32.exponentBias : ℕ) : ℤ) = 127 :=
  rfl

/-- The first bit of a full mantissa is not stored. -/
theorem unpack_packComponents_full {b m : ℕ} (hb : 0 < b) (hb' : b < 255) (hm : 2 ^ 23 ≤ m)
    (hm' : m < 2 ^ 24) :
    UnpackedFloat.unpack Format.binary32 (UnpackedFloat.packComponents Format.binary32 .positive
      (BitVec.ofNat 8 b) (BitVec.ofNat 23 m)) =
        .finite .positive m (b - (127 + 23)) (Nat.zero_lt_of_lt hm) := by
  have hbits : (BitVec.ofNat 8 b).toNat = b := by
    rw [BitVec.toNat_ofNat]
    omega
  have hnotall : BitVec.ofNat 8 b ≠ -1#_ := by
    rw [Ne, ← BitVec.toNat_inj, hbits]
    exact hb'.ne
  have hnotzero : BitVec.ofNat 8 b ≠ 0#_ := by
    rw [Ne, ← BitVec.toNat_inj, hbits]
    exact hb.ne'
  have hmantissa : (1#1 ++ BitVec.ofNat 23 m).toNat = m := by
    rw [BitVec.toNat_append, ← Nat.shiftLeft_add_eq_or_of_lt (BitVec.isLt _),
      BitVec.toNat_ofNat, BitVec.toNat_ofNat, Nat.shiftLeft_eq]
    omega
  simp only [UnpackedFloat.unpack, UnpackedFloat.unpackMantissa_packComponents,
    UnpackedFloat.unpackExponent_packComponents, UnpackedFloat.unpackSign_packComponents, hnotall,
    hnotzero, if_false, hbits, hmantissa, exponentBias_eq]
  rfl

/-- A shorter mantissa goes with the least exponent. -/
theorem unpack_packComponents_short {m : ℕ} (hm : 0 < m) (hm' : m < 2 ^ 23) :
    UnpackedFloat.unpack Format.binary32 (UnpackedFloat.packComponents Format.binary32 .positive
      0#8 (BitVec.ofNat 23 m)) = .finite .positive m (-149) hm := by
  have hbits : (BitVec.ofNat 23 m).toNat = m := by
    rw [BitVec.toNat_ofNat]
    omega
  have hnotzero : BitVec.ofNat 23 m ≠ 0#_ := by
    rw [Ne, ← BitVec.toNat_inj, hbits]
    exact hm.ne'
  have hnotall : 0#8 ≠ -1#8 := by decide
  simp only [UnpackedFloat.unpack, UnpackedFloat.unpackMantissa_packComponents,
    UnpackedFloat.unpackExponent_packComponents, UnpackedFloat.unpackSign_packComponents, hnotall,
    hnotzero, if_false, if_true, dif_neg, not_false_eq_true, hbits, exponentBias_eq]
  rfl

/-- What can be packed is unpacked again. -/
theorem Stands.unpack_pack {u : UnpackedFloat} {q : ℚ} (h : Stands u q) (hq : q < 2 ^ 128) :
    (Float32.Model.pack u).unpack = u := by
  cases h with
  | zero sign => cases sign <;> rfl
  | @finite m e hm h =>
    have he := h.le_of_lt hq
    have hle := h.le
    have hunpack : (Float32.Model.pack (.finite .positive m e hm)).unpack =
        UnpackedFloat.unpack Format.binary32
          (UnpackedFloat.pack Format.binary32 (.finite .positive m e hm)) := rfl
    have hroom : ¬ 2 ^ Format.binary32.exponentBits ≤
        (e + Format.binary32.exponentBias +
          Format.binary32.mantissaBitsWithoutImplicit).toNat + 1 := by
      simp only [exponentBias_eq]
      omega
    rw [hunpack, UnpackedFloat.pack]
    dsimp only
    rw [if_neg hroom]
    by_cases hfull : 2 ^ 23 ≤ m
    · have hlog : m.log2 + 1 = Format.binary32.mantissaBits := by
        have := (Nat.le_log2 hm.ne').mpr hfull
        have := (Nat.log2_lt hm.ne').mpr h.lt
        simp only [Format.mantissaBits]
        omega
      have hbits : (e + Format.binary32.exponentBias +
          Format.binary32.mantissaBitsWithoutImplicit).toNat = (e + 150).toNat := by
        simp only [exponentBias_eq]
        omega
      rw [if_pos hlog, hbits, unpack_packComponents_full (by omega) (by omega) hfull h.lt]
      congr 1
      omega
    · obtain rfl : e = -149 := h.full.resolve_left hfull
      have hlog : ¬ m.log2 + 1 = Format.binary32.mantissaBits := by
        have := (Nat.log2_lt hm.ne').mpr (Nat.not_le.mp hfull)
        simp only [Format.mantissaBits]
        omega
      rw [if_neg hlog]
      exact unpack_packComponents_short hm (Nat.not_le.mp hfull)

/-! ### Amounts -/

/-- The single `v` is the number `q`, which is not below zero. -/
def Amount (v : Float32) (q : ℚ) : Prop :=
  Stands v.toModel.unpack q

/-- The number that a single is; 0 where it is none. -/
def value (v : Float32) : ℚ :=
  match v.toModel.unpack with
  | .finite .positive m e _ => m * 2 ^ e
  | .finite .negative m e _ => -(m * 2 ^ e)
  | _ => 0

namespace Amount

variable {v w : Float32} {p q : ℚ}

theorem of_unpack {m : ℕ} {e : ℤ} (hm : 0 < m) (h : Canonical m e)
    (hv : v.toModel.unpack = .finite .positive m e hm) : Amount v (m * 2 ^ e) := by
  rw [Amount, hv]
  exact .finite hm h

theorem value_eq (h : Amount v q) : value v = q := by
  unfold Amount at h
  unfold value
  generalize v.toModel.unpack = u at h
  cases h <;> rfl

theorem fits (h : Amount v q) : Fits q :=
  Stands.fits h

theorem nonneg (h : Amount v q) : 0 ≤ q :=
  Stands.nonneg h

/-- A result that is rounded to the nearest number is this number, if it is in range. -/
theorem of_nearest {u : UnpackedFloat} (h : ∃ r, Stands u r ∧ Nearest q r) (hq : q < limit) :
    ∃ r, Amount (.ofModel (.pack u)) r ∧ Nearest q r := by
  obtain ⟨r, hr, hnearest⟩ := h
  refine ⟨r, ?_, hnearest⟩
  show Stands (Float32.Model.pack u).unpack r
  rwa [hr.unpack_pack (hnearest.lt_two_pow hq)]

end Amount

/-- A number that fits is the nearest to itself. -/
theorem Fits.nearest {q : ℚ} (h : Fits q) : Nearest q q :=
  ⟨h, fun s _ => by simp⟩

theorem Stands.exists_nearest {u : UnpackedFloat} {q : ℚ} (h : Stands u q) :
    ∃ r, Stands u r ∧ Nearest q r :=
  ⟨q, h, h.fits.nearest⟩

/-! ### Counts -/

/-- Rounding a whole multiple of a power of two. -/
theorem normalize_nearest (n : ℕ) (e : ℤ) : ∃ r,
    Stands (UnpackedFloat.normalize Format.binary32 n e .positive) r ∧ Nearest (n * 2 ^ e) r := by
  rcases Nat.eq_zero_or_pos n with rfl | hn
  · simp only [Nat.cast_zero, zero_mul]
    exact (Stands.zero .positive).exists_nearest
  · have hcompare : compare (n : ℤ) 0 = .gt := compare_gt_iff_gt.mpr (by exact_mod_cast hn)
    rw [UnpackedFloat.normalize, hcompare]
    exact round_nearest hn e

/-- Counts of up to 24 bits are exact. -/
theorem amount_ofNat {n : ℕ} (hn : n ≤ 2 ^ 24) : Amount (.ofModel (.ofNat n)) n := by
  have hround := normalize_nearest n 0
  rw [zpow_zero, mul_one] at hround
  have hlimit : (n : ℚ) < limit := by
    have : (n : ℚ) ≤ 2 ^ 24 := by exact_mod_cast hn
    norm_num [limit] at this ⊢
    linarith
  obtain ⟨r, hr, hnearest⟩ := Amount.of_nearest hround hlimit
  rwa [hnearest.eq_of_fits (fits_natCast hn)] at hr

theorem amount_ofCount {n : ℕ} (hn : n ≤ 2 ^ 24) : Amount (ofCount n) n := by
  have hword : n.toUInt64.toNat = n := Nat.mod_eq_of_lt (by omega)
  show Amount (.ofModel (.ofNat n.toUInt64.toNat)) n
  rw [hword]
  exact amount_ofNat hn

theorem value_ofCount {n : ℕ} (hn : n ≤ 2 ^ 24) : value (ofCount n) = n :=
  (amount_ofCount hn).value_eq

theorem amount_zero : Amount 0.0 0 :=
  Stands.zero .positive

theorem amount_byte (b : UInt8) : Amount b.toFloat32 b.toNat :=
  amount_ofNat (b.toNat_lt.le.trans (by norm_num))

/-! ### Operations -/

/-- Lowering the exponent leaves the number as it is. -/
theorem decreaseExponent_mul_zpow (m : ℕ) {e t : ℤ} (h : t ≤ e) :
    ((UnpackedFloat.decreaseExponent m e t).1 : ℚ) * 2 ^ t = m * 2 ^ e := by
  obtain ⟨k, rfl⟩ := Int.le.dest h
  simp only [UnpackedFloat.decreaseExponent, add_sub_cancel_left, Int.toNat_natCast,
    Nat.shiftLeft_eq]
  rw [zpow_add₀ two_ne_zero, zpow_natCast]
  push_cast
  ring

/-- A product of full mantissas is long enough to be rounded, and others have the least exponent. -/
theorem Canonical.le_targetExponent_mul {m n : ℕ} {e f : ℤ} (hm : 0 < m) (hn : 0 < n)
    (h : Canonical m e) (h' : Canonical n f) :
    e + f ≤ Format.binary32.targetExponent (totalExponent (m * n) (e + f)) := by
  rw [targetExponent_eq, totalExponent]
  have hpos : m * n ≠ 0 := (Nat.mul_pos hm hn).ne'
  have hlog (hfull : 2 ^ 23 ≤ m * n) : 23 ≤ (m * n).log2 := (Nat.le_log2 hpos).mpr hfull
  rcases h.full with hfull | he
  · have := hlog (hfull.trans (Nat.le_mul_of_pos_right m hn))
    omega
  · rcases h'.full with hfull | hf
    · have := hlog (hfull.trans (Nat.le_mul_of_pos_left n hm))
      omega
    · omega

/-- The whole part of a quotient and the accuracy of its remainder say what the quotient is. -/
theorem represents_div (m : ℕ) {n : ℕ} (hn : 0 < n) :
    Represents (ExtendedMantissa.ofMantissaAndAccuracy (m / n)
      (UnpackedFloat.accuracyOfFraction (m % n) n)) (m / n) := by
  have hn' : (0 : ℚ) < n := Nat.cast_pos.mpr hn
  have hsplit : (m : ℚ) = n * (m / n : ℕ) + (m % n : ℕ) := by
    exact_mod_cast (Nat.div_add_mod m n).symm
  have hlt : ((m % n : ℕ) : ℚ) < n := by exact_mod_cast Nat.mod_lt m hn
  have hquotient : (m : ℚ) / n = (m / n : ℕ) + (m % n : ℕ) / n := by
    rw [hsplit]
    field_simp
  rw [hquotient, UnpackedFloat.accuracyOfFraction]
  generalize m / n = k at *
  generalize m % n = r at *
  split
  · rename_i hr
    simp [hr, Represents, ExtendedMantissa.ofMantissaAndAccuracy]
  · rename_i hr
    have hr' : (0 : ℚ) < r := Nat.cast_pos.mpr (Nat.pos_of_ne_zero hr)
    have hpos : 0 < (r : ℚ) / n := div_pos hr' hn'
    have hone : (r : ℚ) / n < 1 := (div_lt_one hn').mpr hlt
    rcases lt_trichotomy (2 * r) n with hhalf | hhalf | hhalf
    · rw [Nat.compare_eq_lt.mpr hhalf]
      have : (r : ℚ) / n < 1 / 2 := by
        rw [div_lt_iff₀ hn']
        have : (2 * r : ℚ) < n := by exact_mod_cast hhalf
        linarith
      exact ⟨by linarith, by linarith⟩
    · rw [Nat.compare_eq_eq.mpr hhalf]
      have : (r : ℚ) / n = 1 / 2 := by
        rw [div_eq_iff hn'.ne', ← hhalf]
        push_cast
        ring
      show (k : ℚ) + r / n = k + 1 / 2
      rw [this]
    · rw [Nat.compare_eq_gt.mpr hhalf]
      have : 1 / 2 < (r : ℚ) / n := by
        rw [lt_div_iff₀ hn']
        have : (n : ℚ) < 2 * r := by exact_mod_cast hhalf
        linarith
      exact ⟨by linarith, by linarith⟩

/-- The exponent that a quotient is computed at is small enough for its mantissa to be rounded. -/
theorem le_targetExponent_div {m n : ℕ} {e f t : ℤ} {k : ℕ} (hm : 0 < m) (hn : 0 < n)
    (ht : t ≤ Format.binary32.targetExponent (totalExponent m e - totalExponent n f))
    (hk : e - f = t + k) :
    t ≤ Format.binary32.targetExponent (totalExponent ((m <<< k) / n) t) := by
  rw [targetExponent_eq, totalExponent] at ht ⊢
  by_cases hleast : t ≤ -149
  · omega
  · -- So many bits have been brought in that the quotient has all of its own.
    rw [totalExponent] at ht
    have hbits : 24 + n.log2 ≤ m.log2 + k := by omega
    have hquotient : 2 ^ 23 ≤ (m <<< k) / n := by
      rw [Nat.le_div_iff_mul_le hn, Nat.shiftLeft_eq]
      calc 2 ^ 23 * n ≤ 2 ^ 23 * 2 ^ (n.log2 + 1) := Nat.mul_le_mul_left _ Nat.lt_log2_self.le
        _ = 2 ^ (24 + n.log2) := by rw [← pow_add]; congr 1; omega
        _ ≤ 2 ^ (m.log2 + k) := Nat.pow_le_pow_right two_pos hbits
        _ = 2 ^ m.log2 * 2 ^ k := pow_add ..
        _ ≤ m * 2 ^ k := Nat.mul_le_mul_right _ (Nat.log2_self_le hm.ne')
    have := (Nat.le_log2 (by omega)).mpr hquotient
    omega

namespace Stands

variable {u u' : UnpackedFloat} {p q : ℚ}

theorem mul (hu : Stands u p) (hu' : Stands u' q) :
    ∃ r, Stands (UnpackedFloat.mul Format.binary32 u u') r ∧ Nearest (p * q) r := by
  cases hu with
  | zero sign =>
    rw [zero_mul]
    cases hu' with
    | zero sign' => exact (Stands.zero (sign * sign')).exists_nearest
    | finite hm h => exact (Stands.zero (sign * .positive)).exists_nearest
  | @finite m e hm h =>
    cases hu' with
    | zero sign =>
      rw [mul_zero]
      exact (Stands.zero (.positive * sign)).exists_nearest
    | @finite n f hn h' =>
      have hvalue : (m * 2 ^ e * (n * 2 ^ f) : ℚ) = (m * n : ℕ) * 2 ^ (e + f) := by
        rw [zpow_add₀ two_ne_zero]
        push_cast
        ring
      rw [hvalue]
      exact roundWithAccuracy_nearest (represents_exact _) (h.le_targetExponent_mul hm hn h')

theorem div (hu : Stands u p) (hu' : Stands u' q) (hq : 0 < q) :
    ∃ r, Stands (UnpackedFloat.div Format.binary32 u u') r ∧ Nearest (p / q) r := by
  cases hu' with
  | zero sign => exact absurd hq (lt_irrefl 0)
  | @finite n f hn h' =>
    cases hu with
    | zero sign =>
      rw [zero_div]
      exact (Stands.zero (sign / .positive)).exists_nearest
    | @finite m e hm h =>
      obtain ⟨t, ht⟩ : ∃ t, t = min (e - f)
        (Format.binary32.targetExponent (totalExponent m e - totalExponent n f)) := ⟨_, rfl⟩
      obtain ⟨k, hk⟩ := Int.le.dest (ht ▸ min_le_left _ _ : t ≤ e - f)
      have hshift : (e - f - t).toNat = k := by omega
      have hcore : UnpackedFloat.divCore Format.binary32 m e n f =
          ((m <<< k) / n, t, UnpackedFloat.accuracyOfFraction ((m <<< k) % n) n) := by
        rw [UnpackedFloat.divCore, ← ht, hshift]
      have hvalue : (m * 2 ^ e / (n * 2 ^ f) : ℚ) = ((m <<< k : ℕ) / n : ℚ) * 2 ^ t := by
        have hexp : (2 : ℚ) ^ e = 2 ^ k * 2 ^ t * 2 ^ f := by
          rw [← zpow_natCast, ← zpow_add₀ two_ne_zero, ← zpow_add₀ two_ne_zero]
          congr 1
          omega
        have hf := (two_zpow_pos f).ne'
        rw [hexp, Nat.shiftLeft_eq]
        push_cast
        field_simp
      have hround := roundWithAccuracy_nearest (represents_div (m <<< k) hn)
        (le_targetExponent_div hm hn (ht ▸ min_le_right _ _) hk.symm)
      rw [hvalue, UnpackedFloat.div, hcore]
      exact hround

theorem add (hu : Stands u p) (hu' : Stands u' q) :
    ∃ r, Stands (UnpackedFloat.add Format.binary32 u u') r ∧ Nearest (p + q) r := by
  cases hu with
  | zero sign =>
    rw [zero_add]
    cases hu' with
    | zero sign' =>
      cases sign <;> cases sign' <;> exact (Stands.zero _).exists_nearest
    | finite hn h' => exact (Stands.finite hn h').exists_nearest
  | @finite m e hm h =>
    cases hu' with
    | zero sign =>
      rw [add_zero]
      exact (Stands.finite hm h).exists_nearest
    | @finite n f hn h' =>
      have hsum := normalize_nearest ((UnpackedFloat.decreaseExponent m e (min e f)).1 +
        (UnpackedFloat.decreaseExponent n f (min e f)).1) (min e f)
      rwa [Nat.cast_add, Nat.cast_add, add_mul, decreaseExponent_mul_zpow m (min_le_left e f),
        decreaseExponent_mul_zpow n (min_le_right e f)] at hsum

theorem sub (hu : Stands u p) (hu' : Stands u' q) (hle : q ≤ p) :
    ∃ r, Stands (UnpackedFloat.sub Format.binary32 u u') r ∧ Nearest (p - q) r := by
  cases hu' with
  | zero sign =>
    rw [sub_zero]
    cases hu with
    | zero sign' =>
      cases sign <;> cases sign' <;> exact (Stands.zero _).exists_nearest
    | finite hm h => exact (Stands.finite hm h).exists_nearest
  | @finite n f hn h' =>
    cases hu with
    | zero sign =>
      have hpos : (0 : ℚ) < n * 2 ^ f := mul_pos (Nat.cast_pos.mpr hn) (two_zpow_pos f)
      exact absurd hle (not_le.mpr hpos)
    | @finite m e hm h =>
      have hm' := decreaseExponent_mul_zpow m (min_le_left e f)
      have hn' := decreaseExponent_mul_zpow n (min_le_right e f)
      have hmantissa : (UnpackedFloat.decreaseExponent n f (min e f)).1 ≤
          (UnpackedFloat.decreaseExponent m e (min e f)).1 := by
        rw [← hm', ← hn'] at hle
        exact_mod_cast le_of_mul_le_mul_right hle (two_zpow_pos _)
      have hdifference := normalize_nearest ((UnpackedFloat.decreaseExponent m e (min e f)).1 -
        (UnpackedFloat.decreaseExponent n f (min e f)).1) (min e f)
      rwa [Nat.cast_sub hmantissa, Nat.cast_sub hmantissa, sub_mul, hm', hn'] at hdifference

end Stands

/-- The order of two numbers in canonical form is that of their exponents first. -/
theorem Canonical.lt_of_lt {m n : ℕ} {e f : ℤ} (h : Canonical m e) (h' : Canonical n f)
    (hlt : e < f) : (m * 2 ^ e : ℚ) < n * 2 ^ f := by
  have hm : (m : ℚ) < 2 ^ 24 := by exact_mod_cast h.lt
  have hn : (2 ^ 23 : ℚ) ≤ n := by
    have := h.le
    exact_mod_cast h'.full.resolve_right (by omega)
  calc (m * 2 ^ e : ℚ) < 2 ^ 24 * 2 ^ e := mul_lt_mul_of_pos_right hm (two_zpow_pos e)
    _ = 2 ^ 23 * 2 ^ (e + 1) := by rw [zpow_add_one₀ two_ne_zero]; ring
    _ ≤ 2 ^ 23 * 2 ^ f :=
        mul_le_mul_of_nonneg_left (zpow_le_zpow_right₀ one_le_two (by omega)) (by norm_num)
    _ ≤ n * 2 ^ f := mul_le_mul_of_nonneg_right hn (two_zpow_pos f).le

/-- Singles compare as their numbers do. -/
theorem Stands.compare_eq {u u' : UnpackedFloat} {p q : ℚ} (hu : Stands u p) (hu' : Stands u' q) :
    UnpackedFloat.compare u u' = some (compare p q) := by
  cases hu with
  | zero sign =>
    cases hu' with
    | zero sign' => rw [compare_eq_iff_eq.mpr rfl]; rfl
    | @finite n f hn h' =>
      have hpos : (0 : ℚ) < n * 2 ^ f := mul_pos (Nat.cast_pos.mpr hn) (two_zpow_pos f)
      rw [compare_lt_iff_lt.mpr hpos]
      rfl
  | @finite m e hm h =>
    cases hu' with
    | zero sign =>
      have hpos : (0 : ℚ) < m * 2 ^ e := mul_pos (Nat.cast_pos.mpr hm) (two_zpow_pos e)
      rw [compare_gt_iff_gt.mpr hpos]
      rfl
    | @finite n f hn h' =>
      rw [UnpackedFloat.compare]
      rcases lt_trichotomy e f with hef | rfl | hfe
      · rw [compare_lt_iff_lt.mpr hef, compare_lt_iff_lt.mpr (h.lt_of_lt h' hef)]
        rfl
      · have hmul : compare (m * 2 ^ e : ℚ) (n * 2 ^ e) = compare m n := by
          have hcast {a b : ℕ} (hab : a < b) : (a * 2 ^ e : ℚ) < b * 2 ^ e :=
            mul_lt_mul_of_pos_right (Nat.cast_lt.mpr hab) (two_zpow_pos e)
          rcases lt_trichotomy m n with hmn | rfl | hnm
          · rw [compare_lt_iff_lt.mpr hmn, compare_lt_iff_lt.mpr (hcast hmn)]
          · rw [compare_eq_iff_eq.mpr rfl, compare_eq_iff_eq.mpr rfl]
          · rw [compare_gt_iff_gt.mpr hnm, compare_gt_iff_gt.mpr (hcast hnm)]
        rw [compare_eq_iff_eq.mpr rfl, hmul]
        rfl
      · rw [compare_gt_iff_gt.mpr hfe, compare_gt_iff_gt.mpr (h'.lt_of_lt h hfe)]
        rfl

theorem exponent_le_of_unpack {v : Float32} {sign : UnpackedFloat.Sign} {m : ℕ} {e : ℤ}
    {hm : 0 < m} (h : v.toModel.unpack = .finite sign m e hm) : e ≤ 104 := by
  rw [Float32.Model.unpack, UnpackedFloat.unpack] at h
  generalize @UnpackedFloat.unpackExponent Format.binary32 v.toModel.toBits.toBitVec = x at h
  have hx : x.toNat < 256 := x.isLt
  dsimp only at h
  split at h
  · split at h <;> cases h
  · rename_i hnotall
    have hlt : x.toNat ≠ 255 := fun hx => hnotall (BitVec.eq_of_toNat_eq hx)
    split at h
    · rename_i hzero
      split at h
      · cases h
      · cases h
        rw [exponentBias_eq, hzero]
        decide
    · cases h
      rw [exponentBias_eq]
      omega

namespace Amount

variable {v w : Float32} {p q : ℚ}

/-- What is an amount is in range. -/
theorem lt_limit (h : Amount v q) : q < limit := by
  unfold Amount at h
  generalize hu : v.toModel.unpack = u at h
  cases h with
  | zero => norm_num [limit]
  | @finite m e hm h =>
    have he := exponent_le_of_unpack hu
    have hm' : (m : ℚ) ≤ (2 ^ 24 - 1 : ℕ) := by exact_mod_cast Nat.le_sub_one_of_lt h.lt
    have hexp : (2 : ℚ) ^ e ≤ 2 ^ (104 : ℤ) := zpow_le_zpow_right₀ one_le_two he
    have hmul := mul_le_mul hm' hexp (two_zpow_pos e).le (by norm_num)
    norm_num [limit] at hmul ⊢
    linarith

theorem mul (hv : Amount v p) (hw : Amount w q) (h : p * q < limit) :
    ∃ r, Amount (v * w) r ∧ Nearest (p * q) r :=
  of_nearest (Stands.mul hv hw) h

theorem div (hv : Amount v p) (hw : Amount w q) (hq : 0 < q) (h : p / q < limit) :
    ∃ r, Amount (v / w) r ∧ Nearest (p / q) r :=
  of_nearest (Stands.div hv hw hq) h

theorem add (hv : Amount v p) (hw : Amount w q) (h : p + q < limit) :
    ∃ r, Amount (v + w) r ∧ Nearest (p + q) r :=
  of_nearest (Stands.add hv hw) h

theorem sub (hv : Amount v p) (hw : Amount w q) (hle : q ≤ p) :
    ∃ r, Amount (v - w) r ∧ Nearest (p - q) r :=
  of_nearest (Stands.sub hv hw hle) (lt_of_le_of_lt (sub_le_self p hw.nonneg) hv.lt_limit)

/-- Where nothing is added, nothing is rounded. -/
theorem add_nothing (hv : Amount v p) (hw : Amount w 0) : Amount (v + w) p := by
  obtain ⟨r, hr, hnearest⟩ := hv.add hw (by linarith [hv.lt_limit])
  rw [add_zero] at hnearest
  rwa [hnearest.eq_of_fits hv.fits] at hr

theorem nothing_add (hv : Amount v 0) (hw : Amount w q) : Amount (v + w) q := by
  obtain ⟨r, hr, hnearest⟩ := hv.add hw (by linarith [hw.lt_limit])
  rw [zero_add] at hnearest
  rwa [hnearest.eq_of_fits hw.fits] at hr

theorem lt_iff (hv : Amount v p) (hw : Amount w q) : v < w ↔ p < q := by
  have hlt : v < w ↔ UnpackedFloat.lt v.toModel.unpack w.toModel.unpack = true := by
    show decide _ = true ↔ _
    rw [decide_eq_true_iff]
    rfl
  rw [hlt, UnpackedFloat.lt, Stands.compare_eq hv hw, ← compare_lt_iff_lt]
  simp

theorem le_iff (hv : Amount v p) (hw : Amount w q) : v ≤ w ↔ p ≤ q := by
  have hle : v ≤ w ↔ UnpackedFloat.le v.toModel.unpack w.toModel.unpack = true := by
    show decide _ = true ↔ _
    rw [decide_eq_true_iff]
    rfl
  rw [hle, UnpackedFloat.le, Stands.compare_eq hv hw, ← compare_le_iff_le]
  cases compare p q <;> simp

end Amount

/-- Small amounts added up one by one stay in range, however many they are: once their sum is
`2 ^ 24` times as large as they may be, it does not grow any more. -/
theorem exists_amount_accumulated {weights : List Float32} {e : ℤ} (he : -149 ≤ e) (he' : e ≤ 103)
    (h : ∀ w ∈ weights, ∃ q < (2 : ℚ) ^ e, Amount w q) {s : Float32} {p : ℚ} (hs : Amount s p)
    (hp : p ≤ 2 ^ 24 * 2 ^ e) :
    ∃ r ≤ (2 : ℚ) ^ 24 * 2 ^ e, Amount (weights.foldl (· + ·) s) r := by
  have hrange : (2 : ℚ) ^ 24 * 2 ^ e + 2 ^ e < limit := by
    have hexp : (2 : ℚ) ^ e ≤ 2 ^ (103 : ℤ) := zpow_le_zpow_right₀ one_le_two he'
    norm_num [limit] at hexp ⊢
    linarith
  induction weights generalizing s p with
  | nil => exact ⟨p, hp, hs⟩
  | cons w weights ih =>
    obtain ⟨q, hq, hw⟩ := h w List.mem_cons_self
    obtain ⟨r, hr, hnearest⟩ := hs.add hw (by linarith)
    exact ih (fun w hw => h w (List.mem_cons_of_mem _ hw)) hr
      (hnearest.le_of_lt_add he (by linarith))

/-! ### Whole parts -/

/-- Cutting to a whole number rounds down. -/
theorem Stands.toInt_eq {u : UnpackedFloat} {q : ℚ} (h : Stands u q) (low high : ℤ) :
    u.toInt low high = (⌊q⌋₊ : ℕ) := by
  cases h with
  | zero sign => simp [UnpackedFloat.toInt]
  | @finite m e hm h =>
    -- The exponent is brought to zero, from above or from below.
    set up := (e - 0).toNat with hup
    set down := (0 - (e - up)).toNat with hdown
    have hvalue : (m * 2 ^ e : ℚ) = (m <<< up : ℕ) / 2 ^ down := by
      have hexp : (2 : ℚ) ^ e = 2 ^ up / 2 ^ down := by
        rw [← zpow_natCast, ← zpow_natCast, ← zpow_sub₀ two_ne_zero]
        congr 1
        omega
      rw [hexp, Nat.shiftLeft_eq]
      push_cast
      ring
    have hshifted := (represents_exact (m <<< up)).shiftRight down
    rw [← hvalue] at hshifted
    have hfloor : ⌊(m * 2 ^ e : ℚ)⌋₊ =
        (ExtendedMantissa.ofMantissaAndAccuracy (m <<< up) .exact >>> down).mantissa :=
      (Nat.floor_eq_iff (mul_nonneg (Nat.cast_nonneg _) (two_zpow_pos e).le)).mpr
        ⟨hshifted.mantissa_le, hshifted.lt_mantissa_add_one⟩
    rw [hfloor]
    rfl

namespace Amount

variable {v : Float32} {q : ℚ}

theorem floor_eq (h : Amount v q) (hq : q < 2 ^ 64) : floor v = ⌊q⌋₊ := by
  have hcut : floor v =
      (UInt64.ofNatClamp (v.toModel.unpack.toInt 0 (UInt64.size - 1)).toNat).toNat := rfl
  have hlt : ⌊q⌋₊ < UInt64.size := (Nat.floor_lt h.nonneg).mpr (by exact_mod_cast hq)
  rw [hcut, Stands.toInt_eq h, Int.toNat_natCast, UInt64.ofNatClamp, dif_pos hlt]
  rfl

theorem toUInt8_eq (h : Amount v q) (hq : q < 256) : v.toUInt8.toNat = ⌊q⌋₊ := by
  have hcut : v.toUInt8 = UInt8.ofNatClamp (v.toModel.unpack.toInt 0 (UInt8.size - 1)).toNat := rfl
  have hlt : ⌊q⌋₊ < UInt8.size := (Nat.floor_lt h.nonneg).mpr (by exact_mod_cast hq)
  rw [hcut, Stands.toInt_eq h, Int.toNat_natCast, UInt8.ofNatClamp, dif_pos hlt]
  rfl

end Amount

/-- The last number before a whole one, in steps of `1 / 2 ^ i`. -/
theorem fits_succ_sub {k i : ℕ} (hi : i ≤ 149) (h : (k + 1) * 2 ^ i ≤ 2 ^ 24) :
    Fits (k + 1 - 1 / 2 ^ i) := by
  have hfits := fits_mul_zpow (m := (k + 1) * 2 ^ i - 1) (e := -i) (by omega) (by omega)
  have hpos : 1 ≤ (k + 1) * 2 ^ i := Nat.mul_pos k.succ_pos (Nat.two_pow_pos i)
  rw [Nat.cast_sub hpos, zpow_neg, zpow_natCast] at hfits
  convert hfits using 1
  push_cast
  field_simp

/-- Bounds for the whole part. -/
theorem floor_between {v : Float32} {r : ℚ} {j k : ℕ} (hv : Amount v r) (hk : k ≤ 2 ^ 24)
    (hlo : j ≤ r) (hhi : r < k + 1) : j ≤ floor v ∧ floor v ≤ k := by
  have hrange : (k : ℚ) ≤ 2 ^ 24 := by exact_mod_cast hk
  rw [hv.floor_eq (by linarith)]
  exact ⟨Nat.le_floor hlo, Nat.le_of_lt_succ ((Nat.floor_lt hv.nonneg).mpr (by exact_mod_cast hhi))⟩

/-- The whole part of a rounded number is that of the exact one, if this one does not come so close
to the next whole number that it could be rounded to it. -/
theorem floor_eq_of_nearest {v : Float32} {q r : ℚ} {k : ℕ} (i : ℕ) (hv : Amount v r)
    (h : Nearest q r) (hi : i ≤ 149) (hroom : (k + 1) * 2 ^ i ≤ 2 ^ 24) (hlo : k ≤ q)
    (hhi : q ≤ k + 1 - 1 / 2 ^ i) : floor v = k := by
  have hpos : (0 : ℚ) < 1 / 2 ^ i := by positivity
  have hk : k + 1 ≤ 2 ^ 24 := (Nat.le_mul_of_pos_right _ (Nat.two_pow_pos i)).trans hroom
  have hlow : (k : ℚ) ≤ r := h.ge_of_ge (fits_natCast (Nat.le_of_succ_le hk)) hlo
  have hhigh : r ≤ k + 1 - 1 / 2 ^ i := h.le_of_le (fits_succ_sub hi hroom) hhi
  obtain ⟨hle, hge⟩ := floor_between hv (Nat.le_of_succ_le hk) hlow (by linarith)
  exact Nat.le_antisymm hge hle

/-! ### The nearest sample -/

theorem fits_half : Fits (1 / 2) := by
  simpa using fits_mul_zpow (m := 1) (e := -1) (by norm_num) (by norm_num)

theorem fits_quarter : Fits (1 / 4) := by
  have h := fits_mul_zpow (m := 1) (e := -2) (by norm_num) (by norm_num)
  norm_num at h ⊢
  exact h

theorem amount_half : Amount 0.5 (1 / 2) := by
  have h : Amount 0.5 ((8388608 : ℕ) * 2 ^ (-24 : ℤ)) :=
    .of_unpack (by decide) ⟨by norm_num, by norm_num, .inl (by norm_num)⟩ rfl
  norm_num at h ⊢
  exact h

/-- A number close to a sample is rounded to it. -/
theorem Amount.nearest_eq {v : Float32} {q : ℚ} (h : Amount v q) {b : UInt8}
    (hlo : (b.toNat : ℚ) - 1 / 2 ≤ q) (hhi : q ≤ b.toNat + 1 / 4) : Byte.nearest v = b := by
  have hb : (b.toNat : ℚ) ≤ 255 := by exact_mod_cast Nat.le_of_lt_succ b.toNat_lt
  have hcut := h.toUInt8_eq (by linarith)
  have hwhole := amount_byte v.toUInt8
  rcases lt_or_ge q b.toNat with hlt | hge
  · -- Below the sample, half a step or more has been cut.
    have hpos : 0 < b.toNat := by
      have : (0 : ℚ) < b.toNat := h.nonneg.trans_lt hlt
      exact_mod_cast this
    have hsub : ((b.toNat - 1 : ℕ) : ℚ) = b.toNat - 1 := by rw [Nat.cast_sub hpos, Nat.cast_one]
    have hfloor : ⌊q⌋₊ = b.toNat - 1 :=
      (Nat.floor_eq_iff h.nonneg).mpr ⟨by rw [hsub]; linarith, by rw [hsub]; linarith⟩
    rw [hcut, hfloor, hsub] at hwhole
    obtain ⟨r, hr, hnearest⟩ := h.sub hwhole (by linarith)
    have hup : v - v.toUInt8.toFloat32 ≥ 0.5 :=
      (amount_half.le_iff hr).mpr (hnearest.ge_of_ge fits_half (by linarith))
    have hroom : v.toUInt8 < 255 := by
      rw [UInt8.lt_iff_toNat_lt, hcut, hfloor]
      have := b.toNat_lt
      show b.toNat - 1 < 255
      omega
    rw [Byte.nearest, if_pos ⟨hup, hroom⟩]
    apply UInt8.toNat_inj.mp
    rw [UInt8.toNat_add, hcut, hfloor]
    have := b.toNat_lt
    show (b.toNat - 1 + 1) % 256 = b.toNat
    omega
  · -- From the sample on, less than half a step has been cut.
    have hfloor : ⌊q⌋₊ = b.toNat :=
      (Nat.floor_eq_iff h.nonneg).mpr ⟨hge, by linarith⟩
    rw [hcut, hfloor] at hwhole
    obtain ⟨r, hr, hnearest⟩ := h.sub hwhole hge
    have hdown : ¬ v - v.toUInt8.toFloat32 ≥ 0.5 := by
      rw [ge_iff_le, amount_half.le_iff hr, not_le]
      exact (hnearest.le_of_le fits_quarter (by linarith)).trans_lt (by norm_num)
    rw [Byte.nearest, if_neg fun hup => hdown hup.1]
    exact UInt8.toNat_inj.mp (hcut.trans hfloor)

end Retouch.Single
