import Mathlib.Algebra.BigOperators.Group.List.Basic
import Mathlib.Algebra.Order.BigOperators.Group.List
import Mathlib.Algebra.BigOperators.Ring.List
import Mathlib.Tactic.Linarith
import Mathlib.Tactic.Ring
import Retouch.Number.Blend

/-!
# Retouch — Number — Weighted means

What enters a mean are *shares*: samples and their weights (`Blend.shares`).  The rounded mean is as
near to the exact one as a whole number can be, and it is one of the samples that weigh something,
or lies between two of them (`Blend.IsMean`).

Half the weight is added before the division, and an odd weight has no whole half.  It does not
matter, since the quotient is that of the doubled sum by the doubled weight (`half_up_eq`).  So a
mean depends on the proportion of the weights only (`Blend.Proportional`).

`Blend.pixels?_rounds` puts this together for pixels, channel by channel: while the largest sum that
the weights admit fits its word there is a result, and neither the order of the pixels nor the scale
of the weights matters for it.
-/

namespace Retouch.Blend

/-! ### Quotients -/

/-- A quotient with a half going up, without halves. -/
theorem half_up_eq (a w : Nat) : (a + w / 2) / w = (2 * a + w) / (2 * w) :=
  calc
    (a + w / 2) / w = (2 * a + w) / 2 / w := congrArg (· / w) (by omega)
    _ = (2 * a + w) / (2 * w) := Nat.div_div_eq_div_mul _ _ _

/-- A common factor does not change the quotient, be the weight even or odd. -/
theorem half_up_mul (a w : Nat) {t : Nat} (ht : 0 < t) :
    (t * a + t * w / 2) / (t * w) = (a + w / 2) / w :=
  calc
    (t * a + t * w / 2) / (t * w) = t * (2 * a + w) / (t * (2 * w)) := by
      rw [half_up_eq]
      congr 1 <;> ring
    _ = (2 * a + w) / (2 * w) := Nat.mul_div_mul_left _ _ ht
    _ = (a + w / 2) / w := (half_up_eq a w).symm

/-- The quotient, taken `w` times, is at most half of `w` away. -/
theorem abs_half_up_sub_le (a : Nat) {w : Nat} (hw : 0 < w) :
    |(((a + w / 2) / w : Nat) : ℤ) * w - a| ≤ w / 2 := by
  have hdiv := Nat.div_add_mod (a + w / 2) w
  have hlt := Nat.mod_lt (a + w / 2) hw
  have hcast : (((a + w / 2) / w : Nat) : ℤ) * w = ((w * ((a + w / 2) / w) : Nat) : ℤ) := by
    push_cast
    ring
  rw [hcast, abs_le]
  omega

/-! ### Shares -/

/-- The samples of channel `c`, each with the weight of its pixel. -/
def shares (pixels : List (Array UInt8)) (weights : List Nat) (c : Nat) : List (UInt8 × Nat) :=
  (pixels.map (·.getD c 0)).zip weights

/-- The sum of the samples, each times its weight. -/
def total (shares : List (UInt8 × Nat)) : Nat :=
  (shares.map fun share => share.2 * share.1.toNat).sum

/-- The sum of the weights. -/
def weight (shares : List (UInt8 × Nat)) : Nat :=
  (shares.map (·.2)).sum

variable {l l' : List (UInt8 × Nat)} {m : Nat}

/-- A lower bound for the samples that weigh something. -/
theorem mul_weight_le_total (h : ∀ share ∈ l, share.2 ≠ 0 → m ≤ share.1.toNat) :
    m * weight l ≤ total l := by
  rw [weight, total, ← List.sum_map_mul_left]
  refine List.sum_le_sum fun share hshare => ?_
  rw [Nat.mul_comm]
  rcases Nat.eq_zero_or_pos share.2 with hzero | hpos
  · rw [hzero, Nat.zero_mul, Nat.zero_mul]
  · exact Nat.mul_le_mul_left _ (h share hshare (Nat.ne_of_gt hpos))

/-- An upper bound for the samples that weigh something. -/
theorem total_le_mul_weight (h : ∀ share ∈ l, share.2 ≠ 0 → share.1.toNat ≤ m) :
    total l ≤ m * weight l := by
  rw [weight, total, ← List.sum_map_mul_left]
  refine List.sum_le_sum fun share hshare => ?_
  rw [Nat.mul_comm m]
  rcases Nat.eq_zero_or_pos share.2 with hzero | hpos
  · rw [hzero, Nat.zero_mul, Nat.zero_mul]
  · exact Nat.mul_le_mul_left _ (h share hshare (Nat.ne_of_gt hpos))

theorem exists_of_weight_pos (h : 0 < weight l) : ∃ share ∈ l, share.2 ≠ 0 := by
  by_contra! hall
  refine Nat.ne_of_gt h (List.sum_eq_zero fun w hw => ?_)
  obtain ⟨share, hshare, rfl⟩ := List.mem_map.mp hw
  exact hall share hshare

theorem total_perm (h : l.Perm l') : total l = total l' :=
  (h.map _).sum_eq

theorem weight_perm (h : l.Perm l') : weight l = weight l' :=
  (h.map _).sum_eq

/-! ### Rounded means -/

/-- `o` is the mean of the shares, rounded: it is at most a half away from the exact mean, and it
does not leave the range of the samples that weigh something. -/
structure IsMean (shares : List (UInt8 × Nat)) (o : UInt8) : Prop where
  abs_sub_le : |(o.toNat : ℤ) * weight shares - total shares| ≤ weight shares / 2
  exists_le : ∃ share ∈ shares, share.2 ≠ 0 ∧ share.1 ≤ o
  exists_ge : ∃ share ∈ shares, share.2 ≠ 0 ∧ o ≤ share.1

/-- What is at most a half away from the mean does not leave the range. -/
theorem isMean_of_abs_sub_le {o : UInt8} (hpos : 0 < weight l)
    (h : |(o.toNat : ℤ) * weight l - total l| ≤ weight l / 2) : IsMean l o := by
  obtain ⟨hlower, hupper⟩ := abs_le.mp h
  refine ⟨h, ?_, ?_⟩
  · by_contra! hall
    have hbound : (o.toNat + 1) * weight l ≤ total l :=
      mul_weight_le_total fun share hshare hne =>
        UInt8.lt_iff_toNat_lt.mp (UInt8.not_le.mp (hall share hshare hne))
    zify at hbound
    rw [add_mul, one_mul] at hbound
    omega
  · by_contra! hall
    have hlt : ∀ share ∈ l, share.2 ≠ 0 → share.1.toNat < o.toNat := fun share hshare hne =>
      UInt8.lt_iff_toNat_lt.mp (UInt8.not_le.mp (hall share hshare hne))
    obtain ⟨share, hshare, hne⟩ := exists_of_weight_pos hpos
    have ho : 0 < o.toNat := Nat.zero_lt_of_lt (hlt share hshare hne)
    have hbound : total l ≤ (o.toNat - 1) * weight l :=
      total_le_mul_weight fun share hshare hne => Nat.le_sub_one_of_lt (hlt share hshare hne)
    zify [Nat.succ_le_of_lt ho] at hbound
    rw [sub_mul, one_mul] at hbound
    omega

variable {values : List UInt8} {weights weights' : List Nat}

theorem weightedSum_eq_total (values : List UInt8) (weights : List Nat) :
    weightedSum values weights = total (values.zip weights) := by
  induction values generalizing weights with
  | nil => rfl
  | cons v values ih =>
    cases weights with
    | nil => rfl
    | cons w weights =>
      rw [weightedSum, ih, List.zip_cons_cons, total, total, List.map_cons, List.sum_cons,
        Nat.mul_comm]

theorem weight_zip (h : values.length = weights.length) :
    weight (values.zip weights) = weights.sum := by
  rw [weight, List.map_snd_zip (Nat.le_of_eq h.symm)]

theorem divisor_eq (h : 1 ≤ weights.sum) : divisor weights = weights.sum := by
  rw [divisor, Sum.ofList_eq_foldr, ← List.sum_eq_foldr, Nat.max_eq_right h]

/-- The clamp does not act: means of samples are samples. -/
theorem toNat_mean (hlength : values.length = weights.length) (hpos : 1 ≤ weights.sum) :
    (mean values weights).toNat =
      (total (values.zip weights) + weights.sum / 2) / weights.sum := by
  have htotal : total (values.zip weights) ≤ 255 * weights.sum := by
    rw [← weight_zip hlength]
    exact total_le_mul_weight fun share _ _ => Nat.le_of_lt_succ share.1.toNat_lt
  have hle : (total (values.zip weights) + weights.sum / 2) / weights.sum ≤ 255 := by
    refine Nat.le_of_lt_succ (Nat.div_lt_of_lt_mul ?_)
    omega
  rw [mean, weightedSum_eq_total, divisor_eq hpos, Nat.min_eq_right hle, UInt8.toNat_ofNat',
    Nat.mod_eq_of_lt (Nat.lt_succ_of_le hle)]

theorem isMean_mean (hlength : values.length = weights.length) (hpos : 1 ≤ weights.sum) :
    IsMean (values.zip weights) (mean values weights) := by
  refine isMean_of_abs_sub_le (by rwa [weight_zip hlength]) ?_
  rw [weight_zip hlength, toNat_mean hlength hpos]
  exact abs_half_up_sub_le _ hpos

/-! ### Order and scale -/

/-- The shares may come in any order. -/
theorem mean_perm {values' : List UInt8} (hlength : values.length = weights.length)
    (hlength' : values'.length = weights'.length) (hpos : 1 ≤ weights.sum)
    (h : (values'.zip weights').Perm (values.zip weights)) :
    mean values' weights' = mean values weights := by
  have hweight : weights'.sum = weights.sum := by
    rw [← weight_zip hlength, ← weight_zip hlength', weight_perm h]
  refine UInt8.toNat_inj.mp ?_
  rw [toNat_mean hlength hpos, toNat_mean hlength' (hweight ▸ hpos), total_perm h, hweight]

theorem sum_scaled (t : Nat) (weights : List Nat) :
    (weights.map (t * ·)).sum = t * weights.sum := by
  rw [List.sum_map_mul_left, List.map_id']

theorem total_scaled (t : Nat) (values : List UInt8) (weights : List Nat) :
    total (values.zip (weights.map (t * ·))) = t * total (values.zip weights) := by
  rw [total, total, List.zip_map_right, List.map_map, ← List.sum_map_mul_left]
  refine congrArg List.sum (List.map_congr_left fun share _ => ?_)
  exact Nat.mul_assoc _ _ _

/-- All weights times the same have the same means. -/
theorem mean_scaled {t : Nat} (ht : 0 < t) (hlength : values.length = weights.length)
    (hpos : 1 ≤ weights.sum) : mean values (weights.map (t * ·)) = mean values weights := by
  have hpos' : 1 ≤ (weights.map (t * ·)).sum := by
    rw [sum_scaled]
    exact Nat.mul_pos ht hpos
  refine UInt8.toNat_inj.mp ?_
  rw [toNat_mean hlength hpos, toNat_mean (by rw [hlength, List.length_map]) hpos', total_scaled,
    sum_scaled, half_up_mul _ _ ht]

/-- The one list of weights is the other times a positive fraction. -/
def Proportional (weights weights' : List Nat) : Prop :=
  ∃ s t, 0 < s ∧ 0 < t ∧ weights.map (s * ·) = weights'.map (t * ·)

theorem Proportional.length_eq (h : Proportional weights weights') :
    weights.length = weights'.length := by
  obtain ⟨s, t, -, -, h⟩ := h
  simpa using congrArg List.length h

theorem Proportional.sum_pos (h : Proportional weights weights') (hpos : 1 ≤ weights'.sum) :
    1 ≤ weights.sum := by
  obtain ⟨s, t, -, ht, h⟩ := h
  have hsum : s * weights.sum = t * weights'.sum := by rw [← sum_scaled, h, sum_scaled]
  refine Nat.pos_of_ne_zero fun hzero => ?_
  rw [hzero, Nat.mul_zero] at hsum
  exact Nat.ne_of_lt (Nat.mul_pos ht hpos) hsum

theorem Proportional.mean_eq (h : Proportional weights weights')
    (hlength : values.length = weights'.length) (hpos : 1 ≤ weights'.sum) :
    mean values weights = mean values weights' := by
  have hlength' := hlength.trans h.length_eq.symm
  have hpos' := h.sum_pos hpos
  obtain ⟨s, t, hs, ht, h⟩ := h
  rw [← mean_scaled hs hlength' hpos', h, mean_scaled ht hlength hpos]

/-! ### Pixels -/

variable {pixels pixels' : List (Array UInt8)} {channels c : Nat}

theorem channel?_eq_ok (h : ∀ pixel ∈ pixels, c < pixel.size) :
    channel? pixels c = .ok (pixels.map (·.getD c 0)) :=
  mapM_eq_ok fun pixel hpixel => by simp [h pixel hpixel, Array.getD]

/-- The largest sum that the weights admit fits its word. -/
def HasRoom (weights : List Nat) : Prop :=
  255 * weights.sum + weights.sum / 2 < Word.span32

instance (weights : List Nat) : Decidable (HasRoom weights) :=
  inferInstanceAs (Decidable (_ < _))

theorem pixels?_eq_ok (hlength : pixels.length = weights.length) (hpos : 1 ≤ weights.sum)
    (hroom : HasRoom weights) (hchannels : ∀ pixel ∈ pixels, channels ≤ pixel.size) :
    pixels? pixels weights channels =
      .ok ((List.range channels).map fun c => mean (pixels.map (·.getD c 0)) weights) := by
  have hsum : Sum.ofList weights < Word.span32 := by
    rw [Sum.ofList_eq_foldr, ← List.sum_eq_foldr]
    unfold HasRoom at hroom
    omega
  rw [pixels?, Fault.unless_bind_of hlength, Fault.unless_bind_of hsum]
  refine mapM_eq_ok fun c hc => ?_
  have hlength' : (pixels.map (·.getD c 0)).length = weights.length := by
    rw [List.length_map, hlength]
  have htotal : weightedSum (pixels.map (·.getD c 0)) weights ≤ 255 * weights.sum := by
    rw [weightedSum_eq_total, ← weight_zip hlength']
    exact total_le_mul_weight fun share _ _ => Nat.le_of_lt_succ share.1.toNat_lt
  have hfits : weightedSum (pixels.map (·.getD c 0)) weights + divisor weights / 2 <
      Word.span32 := by
    rw [divisor_eq hpos]
    exact Nat.lt_of_le_of_lt (Nat.add_le_add_right htotal _) hroom
  rw [channel?_eq_ok fun pixel hpixel =>
    Nat.lt_of_lt_of_le (List.mem_range.mp hc) (hchannels pixel hpixel)]
  exact Fault.unless_bind_of hfits _

/-- **Mixing is a weighted mean, rounded to nearest.**  The result is the same for the same pixels
and weights in any other order, and for weights in the same proportion. -/
theorem pixels?_rounds (hlength : pixels.length = weights.length) (hpos : 1 ≤ weights.sum)
    (hroom : HasRoom weights) (hchannels : ∀ pixel ∈ pixels, channels ≤ pixel.size) :
    ∃ out, pixels? pixels weights channels = .ok out ∧ out.length = channels ∧
      (∀ c o, out[c]? = some o → IsMean (shares pixels weights c) o) ∧
      (∀ pixels' weights', pixels'.length = weights'.length →
        (pixels'.zip weights').Perm (pixels.zip weights) →
          pixels? pixels' weights' channels = .ok out) ∧
      ∀ weights', Proportional weights' weights → HasRoom weights' →
        pixels? pixels weights' channels = .ok out := by
  have hvalues (c : Nat) : (pixels.map (·.getD c 0)).length = weights.length := by
    rw [List.length_map, hlength]
  refine ⟨_, pixels?_eq_ok hlength hpos hroom hchannels, by simp, ?_, ?_, ?_⟩
  · intro c o ho
    rw [List.getElem?_map, Option.map_eq_some_iff] at ho
    obtain ⟨k, hk, rfl⟩ := ho
    obtain ⟨-, rfl⟩ := List.getElem?_eq_some_iff.mp hk
    rw [List.getElem_range]
    exact isMean_mean (hvalues c) hpos
  · intro pixels' weights' hlength' hperm
    have hpixels : pixels'.Perm pixels := by
      simpa only [List.map_fst_zip, hlength, hlength', Nat.le_refl] using hperm.map Prod.fst
    have hweights : weights'.Perm weights := by
      simpa only [List.map_snd_zip, hlength, hlength', Nat.le_refl] using hperm.map Prod.snd
    have hsum : weights'.sum = weights.sum := hweights.sum_eq
    rw [pixels?_eq_ok hlength' (hsum ▸ hpos) (by rwa [HasRoom, hsum]) fun pixel hpixel =>
      hchannels pixel (hpixels.mem_iff.mp hpixel)]
    refine congrArg Except.ok (List.map_congr_left fun c _ => ?_)
    refine mean_perm (hvalues c) (by rw [List.length_map, hlength']) hpos ?_
    rw [List.zip_map_left, List.zip_map_left]
    exact hperm.map _
  · intro weights' hproportional hroom'
    rw [pixels?_eq_ok (hlength.trans hproportional.length_eq.symm) (hproportional.sum_pos hpos)
      hroom' hchannels]
    refine congrArg Except.ok (List.map_congr_left fun c _ => ?_)
    exact hproportional.mean_eq (hvalues c) hpos

/-- Pixels of which the first has a channel more than the others. -/
def unevenPixels : List (Array UInt8) :=
  [#[0, 10, 255, 7], #[90, 200, 254], #[10, 31, 255]]

/-- The weights have no whole half, and the second pixel weighs nothing. -/
theorem pixels?_rounds_uneven :
    unevenPixels.length = [1, 0, 2].length ∧ 1 ≤ [1, 0, 2].sum ∧ HasRoom [1, 0, 2] ∧
    (∀ pixel ∈ unevenPixels, 3 ≤ pixel.size) ∧
    ∃ out, pixels? unevenPixels [1, 0, 2] 3 = .ok out ∧ out = [7, 24, 255] ∧
      (∀ c o, out[c]? = some o → IsMean (shares unevenPixels [1, 0, 2] c) o) ∧
      pixels? unevenPixels.reverse [2, 0, 1] 3 = .ok out ∧
      pixels? unevenPixels [5, 0, 10] 3 = .ok out := by
  have hlength : unevenPixels.length = [1, 0, 2].length := rfl
  have hchannels : ∀ pixel ∈ unevenPixels, 3 ≤ pixel.size := by decide
  obtain ⟨out, hok, -, hmean, hperm, hproportional⟩ :=
    pixels?_rounds hlength (by decide) (by decide) hchannels
  have hout : out = [7, 24, 255] := Except.ok.inj (hok.symm.trans (by decide))
  exact ⟨hlength, by decide, by decide, hchannels, out, hok, hout, hmean,
    hperm _ _ rfl (by decide), hproportional _ ⟨1, 5, by decide, by decide, by decide⟩ (by decide)⟩

end Retouch.Blend
