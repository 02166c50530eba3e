import Retouch.Proofs.Voting.Ballots

/-!
# Retouch — Voting — The votes in the middle

The walk over the values of a channel counts those that meet or cross one of its bounds, and those
between (`Ballot.middle`), each with the weight of all of its votes (`Tally.Weighed.walk_eq`).  The
outcome is their mean.  From the first of them on, the votes up to a value reach the lower bound;
at the last, the votes below a value have not passed the upper bound yet.  So where the votes up to
a value weigh as much as the lower bound exactly, it counts, and where they weigh as much as the
upper bound exactly, the next value that has votes counts too (`Tally.middleMean?_at_bounds`).

When one value holds all of the middle votes, their mean is that value, whatever the other votes
are for (`Tally.middleMean?_eq_of_middle`).  The mean is then the value times its weight, divided
by the weight, and two roundings do not bring it as far as the next sample
(`Single.nearest_div_eq`).
-/

namespace Retouch

open Single (Amount Nearest Fits value limit)

/-! ### A weighted value, divided by its weight -/

namespace Single

/-- A sample times a weight, divided by the weight, is rounded to the sample. -/
theorem nearest_div_eq {s w : Float32} {q r : ℚ} {b : UInt8} (hs : Amount s r) (hw : Amount w q)
    (hq : 0 < q) (h : Nearest (b.toNat * q) r) : Byte.nearest (s / w) = b := by
  have hb : (b.toNat : ℚ) ≤ 255 := by exact_mod_cast Nat.le_of_lt_succ b.toNat_lt
  have herror := abs_le.mp (h.abs_sub_le_natCast_mul hw.fits)
  have hlo : (b.toNat : ℚ) - 1 / 4 ≤ r / q := by
    rw [le_div_iff₀ hq]
    nlinarith
  have hhi : r / q ≤ b.toNat + 1 / 4 := by
    rw [div_le_iff₀ hq]
    nlinarith
  obtain ⟨z, hz, hnearest⟩ := hs.div hw hq (hhi.trans_lt (by norm_num [limit]; linarith))
  refine hz.nearest_eq ?_ (hnearest.le_of_le ?_ hhi)
  · rcases Nat.eq_zero_or_pos b.toNat with hzero | hpos
    · have := hz.nonneg
      rw [hzero]
      norm_num
      linarith
    · have hfits := fits_mul_zpow (m := 2 * b.toNat - 1) (e := -1) (by have := b.toNat_lt; omega)
        (by norm_num)
      rw [Nat.cast_sub (by omega)] at hfits
      refine hnearest.ge_of_ge ?_ (by linarith)
      convert hfits using 1
      push_cast
      norm_num
      ring
  · have hfits := fits_mul_zpow (m := 4 * b.toNat + 1) (e := -2) (by have := b.toNat_lt; omega)
      (by norm_num)
    convert hfits using 1
    push_cast
    norm_num
    ring

end Single

namespace Tally

/-! ### Values that count -/

/-- The sum and the weight of what has counted so far, and one more value with all of its votes. -/
def count (t : Tally) (c : Nat) (counted : Float32 × Float32) (u : ℕ) : Float32 × Float32 :=
  (counted.1 + Single.ofCount u * t.bin c u, counted.2 + t.bin c u)

/-- The mean of some values, each with the weight of all of its votes; 0 when they have none. -/
def mean (t : Tally) (c : Nat) (values : List ℕ) : UInt8 :=
  let counted := values.foldl (t.count c) (0.0, 0.0)
  if counted.2 ≤ 0.0 then 0 else Byte.nearest (counted.1 / counted.2)

/-- What has been counted. -/
structure Counts (counted : Float32 × Float32) (sum weight : ℚ) : Prop where
  sum : Amount counted.1 sum
  weight : Amount counted.2 weight

variable {t : Tally} {c : Nat} {low high : Float32}

/-- Values without weight add nothing. -/
theorem Counts.foldl_weightless {values : List ℕ}
    (hvalues : ∀ u ∈ values, u < 256 ∧ Amount (t.bin c u) 0) {counted : Float32 × Float32}
    {s w : ℚ} (h : Counts counted s w) : Counts (values.foldl (t.count c) counted) s w := by
  induction values generalizing counted with
  | nil => exact h
  | cons u values ih =>
    rw [List.forall_mem_cons] at hvalues
    obtain ⟨⟨hu, hbin⟩, hrest⟩ := hvalues
    obtain ⟨p, hp, hproduct⟩ :=
      (Single.amount_ofCount (show u ≤ 2 ^ 24 by omega)).mul hbin (by norm_num [limit])
    rw [mul_zero] at hproduct
    obtain rfl := hproduct.eq_of_fits hbin.fits
    exact ih hrest ⟨h.sum.add_nothing hp, h.weight.add_nothing hbin⟩

/-- The mean of values of which one only has any weight is that value. -/
theorem mean_eq {values : List ℕ} (hnodup : values.Nodup) {v : UInt8} (hv : v.toNat ∈ values)
    {q : ℚ} (hbin : Amount (t.bin c v.toNat) q) (hpos : 0 < q) (hlimit : v.toNat * q < limit)
    (hother : ∀ u ∈ values, u ≠ v.toNat → u < 256 ∧ Amount (t.bin c u) 0) :
    t.mean c values = v := by
  -- The value is counted between two runs of values without weight.
  obtain ⟨before, after, rfl⟩ := List.append_of_mem hv
  have hbefore : ∀ u ∈ before, u < 256 ∧ Amount (t.bin c u) 0 := fun u hu =>
    hother u (List.mem_append_left _ hu) fun heq =>
      (List.nodup_append.mp hnodup).2.2 u hu v.toNat List.mem_cons_self heq
  have hafter : ∀ u ∈ after, u < 256 ∧ Amount (t.bin c u) 0 := fun u hu =>
    hother u (List.mem_append_right _ (List.mem_cons_of_mem _ hu)) fun heq =>
      (List.nodup_cons.mp (List.nodup_append.mp hnodup).2.1).1 (heq ▸ hu)
  obtain ⟨r, hr, hnearest⟩ :=
    (Single.amount_ofCount (n := v.toNat) (by have := v.toNat_lt; omega)).mul hbin hlimit
  have hfirst : Counts (before.foldl (t.count c) (0.0, 0.0)) 0 0 :=
    .foldl_weightless hbefore ⟨Single.amount_zero, Single.amount_zero⟩
  have hcounts : Counts ((before ++ v.toNat :: after).foldl (t.count c) (0.0, 0.0)) r q := by
    rw [List.foldl_append, List.foldl_cons]
    exact .foldl_weightless hafter
      ⟨hfirst.sum.nothing_add hr, hfirst.weight.nothing_add hbin⟩
  have hvotes : ¬ ((before ++ v.toNat :: after).foldl (t.count c) (0.0, 0.0)).2 ≤ 0.0 := by
    rw [hcounts.weight.le_iff Single.amount_zero, not_le]
    exact hpos
  rw [mean, if_neg hvotes]
  exact Single.nearest_div_eq hcounts.sum hcounts.weight hpos hnearest

/-! ### The walk -/

section Walk

variable {weight : ℕ → ℚ} (h : Weighed t c weight) {l p : ℚ} (hlow : Amount low l)
  (hhigh : Amount high p)
include h hlow hhigh

/-- The walk counts the values up to which the weight reaches the lower bound, as long as the
weight below them does not pass the upper bound. -/
theorem Weighed.walk_eq (hlp : l ≤ p) {n v : ℕ} (hn : v + n ≤ 256)
    (hv : ∑ u ∈ Finset.range v, weight u ≤ p) (s w : Float32) :
    let band := t.walk c low high n v ⟨t.running c v, s, w⟩
    (band.sum, band.weight) =
      ((List.range' v n).filter fun u => l ≤ ∑ x ∈ Finset.range (u + 1), weight x ∧
        ∑ x ∈ Finset.range u, weight x ≤ p).foldl (t.count c) (s, w) := by
  induction n generalizing v s w with
  | zero => rfl
  | succ n ih =>
    have hreached := h.running (v + 1) (by omega)
    rw [walk, List.range'_succ, List.filter_cons, ← running_succ]
    simp only [hreached.lt_iff hlow, hhigh.lt_iff hreached, hv, and_true, decide_eq_true_eq]
    by_cases hbelow : ∑ x ∈ Finset.range (v + 1), weight x < l
    · rw [if_pos hbelow, if_neg hbelow.not_ge]
      exact ih (by omega) (hbelow.le.trans hlp) s w
    rw [if_neg hbelow, if_pos (not_lt.mp hbelow), List.foldl_cons]
    by_cases habove : p < ∑ x ∈ Finset.range (v + 1), weight x
    · -- The walk ends here: the weight below any further value passes the upper bound.
      have hnone : ((List.range' (v + 1) n).filter fun u =>
          decide (l ≤ ∑ x ∈ Finset.range (u + 1), weight x ∧
            ∑ x ∈ Finset.range u, weight x ≤ p)) = [] := by
        refine List.filter_eq_nil_iff.mpr fun u hu => ?_
        have hu := List.mem_range'_1.mp hu
        have hle := h.sum_le_sum hu.1 (by omega)
        simp only [decide_eq_true_eq, not_and, not_le]
        exact fun _ => habove.trans_le hle
      rw [if_pos habove, hnone]
      rfl
    · rw [if_neg habove]
      exact ih (by omega) (not_lt.mp habove) _ _

end Walk

section Mean

variable {weight : ℕ → ℚ} (h : Weighed t c weight) {total : Float32} {l p : ℚ}
  (hlow : Amount (0.4 * total) l) (hhigh : Amount (0.6 * total) p) (hlp : l ≤ p)
include h hlow hhigh hlp

/-- The outcome is the mean of the values that count. -/
theorem Weighed.middleMean_eq_mean : t.middleMean c total =
    t.mean c ((List.range 256).filter fun u => l ≤ ∑ x ∈ Finset.range (u + 1), weight x ∧
      ∑ x ∈ Finset.range u, weight x ≤ p) := by
  have hwalk := h.walk_eq hlow hhigh hlp (n := 256) (v := 0) le_rfl
    (by simpa using hhigh.nonneg) 0.0 0.0
  rw [middleMean, mean, List.range_eq_range', ← hwalk]
  rfl

/-- The outcome is the value that holds all of the middle votes. -/
theorem Weighed.middleMean_eq {v : UInt8}
    (hbelow : ∑ u ∈ Finset.range v.toNat, weight u = 0 ∨
      ∑ u ∈ Finset.range v.toNat, weight u < l)
    (hreach : l ≤ ∑ u ∈ Finset.range (v.toNat + 1), weight u)
    (habove : (∀ u, v.toNat < u → u < 256 → weight u = 0) ∨
      p < ∑ u ∈ Finset.range (v.toNat + 1), weight u)
    (hpos : 0 < weight v.toNat) (hlimit : v.toNat * weight v.toNat < limit) :
    t.middleMean c total = v := by
  have hpass : ∑ u ∈ Finset.range v.toNat, weight u ≤ p :=
    hbelow.elim (fun hzero => hzero.trans_le hhigh.nonneg) fun hsmall => hsmall.le.trans hlp
  rw [h.middleMean_eq_mean hlow hhigh hlp]
  refine mean_eq (List.nodup_range.filter _) ?_ (h.bin v.toNat v.toNat_lt) hpos hlimit
    fun u hu hne => ?_
  · rw [List.mem_filter, List.mem_range, decide_eq_true_iff]
    exact ⟨v.toNat_lt, hreach, hpass⟩
  rw [List.mem_filter, List.mem_range, decide_eq_true_iff] at hu
  obtain ⟨hu, hlower, hupper⟩ := hu
  suffices hnone : weight u = 0 from ⟨hu, hnone ▸ h.bin u hu⟩
  rcases Nat.lt_or_gt_of_ne hne with hlt | hlt
  · have hle := h.sum_le_sum (show u + 1 ≤ v.toNat from hlt) v.toNat_lt.le
    rcases hbelow with hzero | hsmall
    · have hrest := (h.running u hu.le).nonneg
      rw [Finset.sum_range_succ] at hle
      linarith [(h.bin u hu).nonneg]
    · exact absurd (hlower.trans hle) hsmall.not_ge
  · rcases habove with hzero | hlarge
    · exact hzero u hlt hu
    · exact absurd ((h.sum_le_sum (show v.toNat + 1 ≤ u from hlt) hu.le).trans hupper)
        hlarge.not_ge

end Mean

end Tally

/-! ### The bounds -/

theorem Single.amount_lower : Amount 0.4 ((13421773 : ℕ) * 2 ^ (-25 : ℤ)) :=
  .of_unpack (by decide) ⟨by norm_num, by norm_num, .inl (by norm_num)⟩ rfl

theorem Single.amount_upper : Amount 0.6 ((10066330 : ℕ) * 2 ^ (-24 : ℤ)) :=
  .of_unpack (by decide) ⟨by norm_num, by norm_num, .inl (by norm_num)⟩ rfl

/-- The bounds of the walk lie in this order, below the total. -/
theorem Single.exists_bounds {total : Float32} {q : ℚ} (h : Amount total q) (hpos : 0 < q) :
    ∃ l p, Amount (0.4 * total) l ∧ Amount (0.6 * total) p ∧ l ≤ p ∧ l ≤ q := by
  have hlimit := h.lt_limit
  have hlower : ((13421773 : ℕ) * 2 ^ (-25 : ℤ) : ℚ) * q < q := by
    norm_num
    linarith
  have hupper : ((10066330 : ℕ) * 2 ^ (-24 : ℤ) : ℚ) * q < q := by
    norm_num
    linarith
  have horder : ((13421773 : ℕ) * 2 ^ (-25 : ℤ) : ℚ) * q < (10066330 : ℕ) * 2 ^ (-24 : ℤ) * q := by
    norm_num
    linarith
  obtain ⟨l, hl, hnearest⟩ := amount_lower.mul h (hlower.trans hlimit)
  obtain ⟨p, hp, hnearest'⟩ := amount_upper.mul h (hupper.trans hlimit)
  exact ⟨l, p, hl, hp, hnearest.le_of_lt hnearest' horder, hnearest.le_of_le h.fits hlower.le⟩

namespace Ballot

variable {ballots : List Ballot} {channels c : ℕ} {total : Float32}

/-- The values that count: the votes up to them reach the lower bound, and the votes below them do
not pass the upper bound. -/
def middle (ballots : List Ballot) (c : ℕ) (total : Float32) : List ℕ :=
  (List.range 256).filter fun u =>
    value (0.4 * total) ≤ together ballots c (·.toNat ≤ u) ∧
      together ballots c (·.toNat < u) ≤ value (0.6 * total)

theorem mem_middle {u : ℕ} : u ∈ middle ballots c total ↔
    u < 256 ∧ value (0.4 * total) ≤ together ballots c (·.toNat ≤ u) ∧
      together ballots c (·.toNat < u) ≤ value (0.6 * total) := by
  rw [middle, List.mem_filter, List.mem_range, decide_eq_true_iff]

theorem toNat_mem_middle {u : UInt8} : u.toNat ∈ middle ballots c total ↔
    value (0.4 * total) ≤ together ballots c (· ≤ u) ∧
      together ballots c (· < u) ≤ value (0.6 * total) := by
  have hupto : together ballots c (·.toNat ≤ u.toNat) = together ballots c (· ≤ u) :=
    together_congr fun _ => decide_eq_decide.mpr UInt8.le_iff_toNat_le.symm
  have hbelow : together ballots c (·.toNat < u.toNat) = together ballots c (· < u) :=
    together_congr fun _ => decide_eq_decide.mpr UInt8.lt_iff_toNat_lt.symm
  rw [mem_middle, hupto, hbelow, and_iff_right u.toNat_lt]

theorem together_none : together ballots c (fun _ => false) = 0 := by
  simp [together, weights, having]

namespace AddUp

variable (h : AddUp ballots channels c total)
include h

theorem together_nonneg (wanted : UInt8 → Bool) : 0 ≤ together ballots c wanted := by
  have hbelow (n : ℕ) (hn : n ≤ 256) :
      0 ≤ together ballots c fun u => wanted u && decide (u.toNat < n) := by
    induction n with
    | zero => simpa using together_none.ge
    | succ n ih =>
      have hsplit : together ballots c (fun u => wanted u && decide (u.toNat < n + 1)) =
          together ballots c (fun u => wanted u && decide (u.toNat < n)) +
            together ballots c (fun u => wanted u && decide (u.toNat = n)) := by
        refine together_eq_add (fun u => ?_) fun u hu => ?_
        · rw [← Bool.and_or_distrib_left, ← Bool.decide_or]
          exact congrArg _ (decide_eq_decide.mpr (by omega))
        · simp only [Bool.and_eq_true, decide_eq_true_eq] at hu
          omega
      -- The votes for one value are all wanted or none of them is.
      have hvalue : 0 ≤ together ballots c fun u => wanted u && decide (u.toNat = n) := by
        have hbyte (u : UInt8) : u.toNat = n → u = UInt8.ofNat n := fun hu => by
          rw [← hu, UInt8.ofNat_toNat]
        cases hn' : wanted (UInt8.ofNat n) with
        | false =>
          refine (together_none.symm.trans (together_congr fun u => ?_)).le
          by_cases hu : u.toNat = n
          · rw [hbyte u hu, hn', Bool.false_and]
          · rw [decide_eq_false hu, Bool.and_false]
        | true =>
          refine (h.weighed.bin n hn).nonneg.trans_eq (together_congr fun u => ?_)
          by_cases hu : u.toNat = n
          · rw [hbyte u hu, hn', Bool.true_and]
          · rw [decide_eq_false hu, Bool.and_false]
      rw [hsplit]
      exact add_nonneg (ih (by omega)) hvalue
  refine (hbelow 256 le_rfl).trans_eq (together_congr fun u => ?_)
  rw [decide_eq_true u.toNat_lt, Bool.and_true]

/-- The more values, the more their votes weigh. -/
theorem together_mono {wanted wanted' : UInt8 → Bool} (himp : ∀ u, wanted u → wanted' u) :
    together ballots c wanted ≤ together ballots c wanted' := by
  have hsplit : together ballots c wanted' =
      together ballots c wanted + together ballots c (fun u => wanted' u && !wanted u) := by
    refine together_eq_add (fun u => ?_) fun u hu => ?_
    · have hu := himp u
      cases hwanted : wanted u <;> simp_all
    · cases hwanted : wanted u <;> simp [hwanted] at hu
  rw [hsplit]
  exact le_add_of_nonneg_right (h.together_nonneg _)

/-- The bounds lie in this order, below the weight of all votes. -/
theorem exists_bounds : ∃ l p, Amount (0.4 * total) l ∧ Amount (0.6 * total) p ∧ l ≤ p ∧
    l ≤ together ballots c (fun _ => true) :=
  Single.exists_bounds h.amount (h.amount.value_eq ▸ h.pos)

/-- The outcome is the mean of the values that count. -/
theorem middleMean?_eq : (Tally.ofBallots channels ballots).middleMean? c total =
    .ok ((Tally.ofBallots channels ballots).mean c (middle ballots c total)) := by
  obtain ⟨l, p, hl, hp, hlp, -⟩ := h.exists_bounds
  have hmiddle : middle ballots c total = (List.range 256).filter fun u =>
      l ≤ ∑ x ∈ Finset.range (u + 1), together ballots c (·.toNat = x) ∧
        ∑ x ∈ Finset.range u, together ballots c (·.toNat = x) ≤ p := by
    simp only [middle, hl.value_eq, hp.value_eq, ← together_below, Nat.lt_succ_iff]
  rw [Tally.middleMean?, Tally.channels_ofBallots, Fault.unless_of h.channel_lt,
    h.weighed.middleMean_eq_mean hl hp hlp, hmiddle]
  rfl

/-- The value at which the votes reach the lower bound is the first that counts. -/
theorem isLeast_middle {u : UInt8} (hbelow : together ballots c (· < u) < value (0.4 * total))
    (hupto : value (0.4 * total) ≤ together ballots c (· ≤ u)) :
    IsLeast {x | x ∈ middle ballots c total} u.toNat := by
  obtain ⟨l, p, hl, hp, hlp, -⟩ := h.exists_bounds
  refine ⟨toNat_mem_middle.mpr ⟨hupto, ?_⟩, fun x hx => not_lt.mp fun hlt => ?_⟩
  · rw [hl.value_eq] at hbelow
    rw [hp.value_eq]
    exact hbelow.le.trans hlp
  · have hle : together ballots c (·.toNat ≤ x) ≤ together ballots c (· < u) :=
      h.together_mono fun y hy => by
        simp only [decide_eq_true_eq, UInt8.lt_iff_toNat_lt] at hy ⊢
        omega
    exact absurd ((mem_middle.mp hx).2.1.trans hle) hbelow.not_ge

/-- The value at which the votes pass the upper bound is the last that counts. -/
theorem isGreatest_middle {u : UInt8} (hbelow : together ballots c (· < u) ≤ value (0.6 * total))
    (hupto : value (0.6 * total) < together ballots c (· ≤ u)) :
    IsGreatest {x | x ∈ middle ballots c total} u.toNat := by
  obtain ⟨l, p, hl, hp, hlp, -⟩ := h.exists_bounds
  refine ⟨toNat_mem_middle.mpr ⟨?_, hbelow⟩, fun x hx => not_lt.mp fun hlt => ?_⟩
  · rw [hp.value_eq] at hupto
    rw [hl.value_eq]
    exact hlp.trans hupto.le
  · have hle : together ballots c (· ≤ u) ≤ together ballots c (·.toNat < x) :=
      h.together_mono fun y hy => by
        simp only [decide_eq_true_eq, UInt8.le_iff_toNat_le] at hy ⊢
        omega
    exact absurd (hle.trans (mem_middle.mp hx).2.2) hupto.not_ge

/-- The outcome is the value that holds all of the middle votes. -/
theorem middleMean_eq {v : UInt8}
    (hbelow : together ballots c (· < v) = 0 ∨ together ballots c (· < v) < value (0.4 * total))
    (habove : together ballots c (v < ·) = 0 ∨ value (0.6 * total) < together ballots c (· ≤ v))
    (hlimit : v.toNat * together ballots c (· = v) < limit) :
    (Tally.ofBallots channels ballots).middleMean c total = v := by
  obtain ⟨l, p, hl, hp, hlp, hlq⟩ := h.exists_bounds
  have hpos : 0 < together ballots c fun _ => true := h.amount.value_eq ▸ h.pos
  have hall : together ballots c (fun _ => true) =
      together ballots c (· ≤ v) + together ballots c (v < ·) :=
    together_eq_add (fun u => by simp [← Bool.decide_or, UInt8.le_or_lt]) fun u hu => by
      simp only [decide_eq_true_eq] at hu
      exact UInt8.not_lt.mpr hu.1 hu.2
  have hbelow' : together ballots c (· < v) =
      ∑ u ∈ Finset.range v.toNat, together ballots c (·.toNat = u) := by
    rw [← together_below]
    exact together_congr fun _ => decide_eq_decide.mpr UInt8.lt_iff_toNat_lt
  have hupto : together ballots c (· ≤ v) =
      ∑ u ∈ Finset.range (v.toNat + 1), together ballots c (·.toNat = u) := by
    rw [← together_below]
    exact together_congr fun _ =>
      decide_eq_decide.mpr (UInt8.le_iff_toNat_le.trans Nat.lt_succ_iff.symm)
  have hvalue : together ballots c (· = v) = together ballots c (·.toNat = v.toNat) :=
    together_congr fun _ => decide_eq_decide.mpr UInt8.toNat_inj.symm
  rw [hl.value_eq, hbelow'] at hbelow
  rw [hp.value_eq, hupto] at habove
  rw [hall, hupto] at hlq hpos
  rw [hvalue] at hlimit
  have hsplit := Finset.sum_range_succ (fun u => together ballots c (·.toNat = u)) v.toNat
  have hreach : l ≤ ∑ u ∈ Finset.range (v.toNat + 1), together ballots c (·.toNat = u) := by
    rcases habove with hzero | hlarge
    · rwa [hzero, add_zero] at hlq
    · exact hlp.trans hlarge.le
  have hvotes : 0 < together ballots c (·.toNat = v.toNat) := by
    rcases hbelow with hzero | hsmall
    · rcases habove with habove | hlarge
      · linarith
      · linarith [hp.nonneg]
    · linarith
  refine h.weighed.middleMean_eq hl hp hlp hbelow hreach (habove.imp_left fun hzero u hu _ => ?_)
    hvotes hlimit
  refine le_antisymm (hzero ▸ h.together_mono fun x hx => ?_) (h.together_nonneg _)
  simp only [decide_eq_true_eq, UInt8.lt_iff_toNat_lt] at hx ⊢
  omega

end AddUp

end Ballot

/-- **The mean is that of the middle votes.**  Let votes add up exactly.  The values that count are
those up to which the votes reach the lower bound while the votes below them do not pass the upper
bound, each with the weight of all of its votes.  The first of them is the one at which the lower
bound is met or crossed, the last the one at which the upper bound is passed.  So for some value
`v`, let the votes below it weigh less than the lower bound, or nothing, and let the votes up to it
weigh more than the upper bound, unless there are none above it; and let `v` times its weight be in
range.  Then the mean is `v`, whatever the other votes are for. -/
theorem Tally.middleMean?_eq_of_middle {channels c : ℕ} {ballots : List Ballot} {total : Float32}
    (h : Ballot.AddUp ballots channels c total) :
    (ofBallots channels ballots).middleMean? c total =
        .ok ((ofBallots channels ballots).mean c (Ballot.middle ballots c total)) ∧
      (∀ u : UInt8, Ballot.together ballots c (· < u) < value (0.4 * total) →
        value (0.4 * total) ≤ Ballot.together ballots c (· ≤ u) →
        IsLeast {x | x ∈ Ballot.middle ballots c total} u.toNat) ∧
      (∀ u : UInt8, Ballot.together ballots c (· < u) ≤ value (0.6 * total) →
        value (0.6 * total) < Ballot.together ballots c (· ≤ u) →
        IsGreatest {x | x ∈ Ballot.middle ballots c total} u.toNat) ∧
      ∀ v : UInt8,
        (Ballot.together ballots c (· < v) = 0 ∨
          Ballot.together ballots c (· < v) < value (0.4 * total)) →
        (Ballot.together ballots c (v < ·) = 0 ∨
          value (0.6 * total) < Ballot.together ballots c (· ≤ v)) →
        v.toNat * Ballot.together ballots c (· = v) < limit →
        (ofBallots channels ballots).middleMean? c total = .ok v := by
  refine ⟨h.middleMean?_eq, fun u => h.isLeast_middle, fun u => h.isGreatest_middle,
    fun v hbelow habove hlimit => ?_⟩
  rw [middleMean?, channels_ofBallots, Fault.unless_of h.channel_lt,
    h.middleMean_eq hbelow habove hlimit]
  rfl

/-- The bounds of five votes. -/
theorem Single.value_bounds_five :
    value (0.4 * Single.ofCount 5) = 2 ∧ value (0.6 * Single.ofCount 5) = 3 := by
  rw [show 0.4 * Single.ofCount 5 = Single.ofCount 2 by decide +kernel,
    show 0.6 * Single.ofCount 5 = Single.ofCount 3 by decide +kernel]
  exact ⟨Single.value_ofCount (by norm_num), Single.value_ofCount (by norm_num)⟩

/-- Eight votes of ten for 100, the others far from it; two of five that meet the lower bound; and
three of five that meet the upper bound. -/
theorem Tally.middleMean?_eq_of_middle_outliers :
    let around : List Ballot :=
      [⟨[0], Single.ofCount 1⟩, ⟨[100], Single.ofCount 8⟩, ⟨[255], Single.ofCount 1⟩]
    let reaching : List Ballot := [⟨[0], Single.ofCount 2⟩, ⟨[100], Single.ofCount 3⟩]
    let reached : List Ballot := [⟨[100], Single.ofCount 3⟩, ⟨[200], Single.ofCount 2⟩]
    (ofBallots 1 around).middleMean? 0 (Single.ofCount 10) = .ok 100 ∧
      IsLeast {x | x ∈ Ballot.middle reaching 0 (Single.ofCount 5)} 0 ∧
      IsGreatest {x | x ∈ Ballot.middle reached 0 (Single.ofCount 5)} 200 := by
  intro around reaching reached
  have haround : around = Ballot.counted [(0, 1), (100, 8), (255, 1)] := rfl
  have hreaching : reaching = Ballot.counted [(0, 2), (100, 3)] := rfl
  have hreached : reached = Ballot.counted [(100, 3), (200, 2)] := rfl
  obtain ⟨hlower, hupper⟩ := Single.value_bounds_five
  refine ⟨?_, ?_, ?_⟩
  · have hlower : value (0.4 * Single.ofCount 10) = 4 := by
      rw [show 0.4 * Single.ofCount 10 = Single.ofCount 4 by decide +kernel]
      exact Single.value_ofCount (by norm_num)
    have hupper : value (0.6 * Single.ofCount 10) = 6 := by
      rw [show 0.6 * Single.ofCount 10 = Single.ofCount 6 by decide +kernel]
      exact Single.value_ofCount (by norm_num)
    have hadd : Ballot.AddUp around 1 0 (Single.ofCount 10) :=
      haround ▸ Ballot.addUp_counted rfl (by decide) (by decide)
    refine (middleMean?_eq_of_middle hadd).2.2.2 100 (.inr ?_) (.inr ?_) ?_
    · rw [haround, Ballot.together_counted (k := 1) (by decide) (by decide), hlower]
      norm_num
    · rw [haround, Ballot.together_counted (k := 9) (by decide) (by decide), hupper]
      norm_num
    · rw [haround, Ballot.together_counted (k := 8) (by decide) (by decide),
        show UInt8.toNat 100 = 100 from rfl]
      norm_num [limit]
  · have hadd : Ballot.AddUp reaching 1 0 (Single.ofCount 5) :=
      hreaching ▸ Ballot.addUp_counted rfl (by decide) (by decide)
    refine (middleMean?_eq_of_middle hadd).2.1 0 ?_ ?_
    · rw [hreaching, Ballot.together_counted (k := 0) (by decide) (by decide), hlower]
      norm_num
    · rw [hreaching, Ballot.together_counted (k := 2) (by decide) (by decide), hlower]
      norm_num
  · have hadd : Ballot.AddUp reached 1 0 (Single.ofCount 5) :=
      hreached ▸ Ballot.addUp_counted rfl (by decide) (by decide)
    refine (middleMean?_eq_of_middle hadd).2.2.1 200 ?_ ?_
    · rw [hreached, Ballot.together_counted (k := 3) (by decide) (by decide), hupper]
      norm_num
    · rw [hreached, Ballot.together_counted (k := 5) (by decide) (by decide), hupper]
      norm_num

/-- On either side of `v` the votes weigh as much as the lower bound at most. -/
structure Ballot.Spans (ballots : List Ballot) (v : UInt8) (channels c : Nat) (total : Float32) :
    Prop where
  addUp : Ballot.AddUp ballots channels c total
  below : Ballot.together ballots c (· < v) ≤ value (0.4 * total)
  above : Ballot.together ballots c (v < ·) ≤ value (0.4 * total)

/-- Votes that reach the lower bound exactly count, and so do votes behind those that reach the
upper bound exactly; and a product can be out of range. -/
theorem Tally.middleMean?_at_bounds :
    let reaching : List Ballot := [⟨[0], Single.ofCount 2⟩, ⟨[100], Single.ofCount 3⟩]
    let reached : List Ballot := [⟨[100], Single.ofCount 3⟩, ⟨[200], Single.ofCount 2⟩]
    let huge : List Ballot := [⟨[100], .ofBits 0x7F000000⟩]
    (Ballot.Spans reaching 100 1 0 (Single.ofCount 5) ∧
      (ofBallots 1 reaching).middleMean? 0 (Single.ofCount 5) = .ok 60) ∧
    (Ballot.Spans reached 100 1 0 (Single.ofCount 5) ∧
      (ofBallots 1 reached).middleMean? 0 (Single.ofCount 5) = .ok 140) ∧
    Ballot.Spans huge 100 1 0 (.ofBits 0x7F000000) ∧
      (ofBallots 1 huge).middleMean? 0 (.ofBits 0x7F000000) = .ok 255 := by
  intro reaching reached huge
  have hreaching : reaching = Ballot.counted [(0, 2), (100, 3)] := rfl
  have hreached : reached = Ballot.counted [(100, 3), (200, 2)] := rfl
  have hlower := Single.value_bounds_five.1
  have hhuge : Amount (.ofBits 0x7F000000) ((8388608 : ℕ) * 2 ^ (104 : ℤ)) :=
    .of_unpack (by decide) ⟨by norm_num, by norm_num, .inl (by norm_num)⟩ rfl
  have hlower' : 0 ≤ value (0.4 * .ofBits 0x7F000000) := by
    obtain ⟨l, -, hl, -⟩ := Single.exists_bounds hhuge (by norm_num)
    rw [hl.value_eq]
    exact hl.nonneg
  refine ⟨⟨⟨?_, ?_, ?_⟩, by decide +kernel⟩, ⟨⟨?_, ?_, ?_⟩, by decide +kernel⟩, ⟨?_, ?_, ?_⟩,
    by decide +kernel⟩
  · exact hreaching ▸ Ballot.addUp_counted rfl (by decide) (by decide)
  · rw [hreaching, Ballot.together_counted (k := 2) (by decide) (by decide), hlower]
    norm_num
  · rw [hreaching, Ballot.together_counted (k := 0) (by decide) (by decide), hlower]
    norm_num
  · exact hreached ▸ Ballot.addUp_counted rfl (by decide) (by decide)
  · rw [hreached, Ballot.together_counted (k := 0) (by decide) (by decide), hlower]
    norm_num
  · rw [hreached, Ballot.together_counted (k := 2) (by decide) (by decide), hlower]
    norm_num
  · have htogether : Ballot.together huge 0 (fun _ => true) = (8388608 : ℕ) * 2 ^ (104 : ℤ) := by
      simp [huge, Ballot.together, Ballot.weights, Ballot.having, hhuge.value_eq]
    refine Ballot.addUp_of_multiple (e := 103) (by norm_num) le_rfl (by decide)
      (fun b hb => ?_) ?_ ?_ ?_
    · obtain rfl := List.mem_singleton.mp hb
      refine ⟨2 * 8388608, ?_⟩
      convert hhuge using 1
      norm_num
    · rw [htogether]
      norm_num
    · rw [htogether]
      norm_num
    · rw [htogether]
      exact hhuge
  · simpa [huge, Ballot.together, Ballot.weights, Ballot.having] using hlower'
  · simpa [huge, Ballot.together, Ballot.weights, Ballot.having] using hlower'

end Retouch
