import Retouch.Proofs.Number.Arithmetic
import Retouch.Voting.Tally

/-!
# Retouch — Voting — Ballots

The votes that a tally gets, and what they weigh.  A bin of the tally holds the sum of the weights
of its votes, in the order of the votes (`Tally.bin_ofBallots`).

`Ballot.together` is the exact weight of the votes for some values.  Votes whose sums are exact all
the way (`Ballot.AddUp`) are weighed by the tally as they are (`Ballot.AddUp.weighed`).  Weights
that are multiples of one power of two add up like this as long as 24 bits hold their sum
(`Ballot.addUp_of_multiple`), and so do counts (`Ballot.addUp_counted`).
-/

namespace Retouch

open Single (Amount Nearest value limit)

/-! ### Votes and exact sums -/

/-- A vote as a tally gets it: a pixel and its weight. -/
structure Ballot where
  pixel : List UInt8
  weight : Float32

namespace Single

/-- All sums on the way, in the order of the list, are exact. -/
def ExactSums (weights : List Float32) : Prop :=
  ∀ n ≤ weights.length,
    Amount ((weights.take n).foldl (· + ·) 0.0) ((weights.take n).map value).sum

/-- The sum of all is exact, too. -/
theorem ExactSums.amount {weights : List Float32} (h : ExactSums weights) :
    Amount (weights.foldl (· + ·) 0.0) (weights.map value).sum := by
  simpa using h weights.length le_rfl

/-- The single is a multiple of a power of two. -/
def Multiple (e : ℤ) (w : Float32) : Prop :=
  ∃ n : ℕ, Amount w (n * 2 ^ e)

variable {weights : List Float32} {e : ℤ}

theorem sum_value_nonneg (h : ∀ w ∈ weights, Multiple e w) : 0 ≤ (weights.map value).sum := by
  refine List.sum_nonneg fun q hq => ?_
  obtain ⟨w, hw, rfl⟩ := List.mem_map.mp hq
  obtain ⟨n, hn⟩ := h w hw
  exact hn.value_eq ▸ hn.nonneg

/-- Multiples of a power of two add up exactly as long as 24 bits hold their sum. -/
theorem exists_amount_foldl (he : -149 ≤ e) (he' : e ≤ 103) (h : ∀ w ∈ weights, Multiple e w)
    {s : Float32} {k : ℕ} (hs : Amount s (k * 2 ^ e))
    (hsum : k * 2 ^ e + (weights.map value).sum ≤ 2 ^ 24 * 2 ^ e) :
    ∃ n : ℕ, Amount (weights.foldl (· + ·) s) (n * 2 ^ e) ∧
      (n * 2 ^ e : ℚ) = k * 2 ^ e + (weights.map value).sum := by
  induction weights generalizing s k with
  | nil => exact ⟨k, hs, by simp⟩
  | cons w weights ih =>
    obtain ⟨n, hn⟩ := h w List.mem_cons_self
    have hrest : ∀ w ∈ weights, Multiple e w := fun w hw => h w (List.mem_cons_of_mem _ hw)
    have hnonneg := sum_value_nonneg hrest
    have hpos := two_zpow_pos e
    rw [List.map_cons, List.sum_cons, hn.value_eq] at hsum ⊢
    have hadd : (k * 2 ^ e + n * 2 ^ e : ℚ) = (k + n : ℕ) * 2 ^ e := by
      push_cast
      ring
    have hle : k + n ≤ 2 ^ 24 := by
      have hmul : ((k + n : ℕ) : ℚ) * 2 ^ e ≤ (2 ^ 24 : ℕ) * 2 ^ e := by
        push_cast
        linarith
      exact_mod_cast le_of_mul_le_mul_right hmul hpos
    have hrange : (2 ^ 24 * 2 ^ e : ℚ) < limit := by
      have hexp : (2 : ℚ) ^ e ≤ 2 ^ (103 : ℤ) := zpow_le_zpow_right₀ one_le_two he'
      norm_num [limit] at hexp ⊢
      linarith
    obtain ⟨r, hr, hnearest⟩ := hs.add hn (by linarith)
    rw [hadd] at hnearest
    rw [hnearest.eq_of_fits (fits_mul_zpow hle he)] at hr
    obtain ⟨m, hm, hvalue⟩ := ih hrest hr (by rw [← hadd]; linarith)
    exact ⟨m, hm, by rw [hvalue, ← hadd]; ring⟩

theorem multiple_foldl (he : -149 ≤ e) (he' : e ≤ 103) (h : ∀ w ∈ weights, Multiple e w)
    (hsum : (weights.map value).sum ≤ 2 ^ 24 * 2 ^ e) :
    Multiple e (weights.foldl (· + ·) 0.0) ∧
      Amount (weights.foldl (· + ·) 0.0) (weights.map value).sum := by
  obtain ⟨n, hn, hvalue⟩ := exists_amount_foldl he he' h (k := 0)
    (by rw [Nat.cast_zero, zero_mul]; exact amount_zero)
    (by rw [Nat.cast_zero, zero_mul, zero_add]; exact hsum)
  rw [Nat.cast_zero, zero_mul, zero_add] at hvalue
  exact ⟨⟨n, hn⟩, hvalue ▸ hn⟩

theorem exactSums_of_multiple (he : -149 ≤ e) (he' : e ≤ 103) (h : ∀ w ∈ weights, Multiple e w)
    (hsum : (weights.map value).sum ≤ 2 ^ 24 * 2 ^ e) : ExactSums weights := by
  intro n _
  have htake : ∀ w ∈ weights.take n, Multiple e w := fun w hw => h w (List.mem_of_mem_take hw)
  have hdrop := sum_value_nonneg fun w hw => h w (List.mem_of_mem_drop (i := n) hw)
  rw [← List.take_append_drop n weights, List.map_append, List.sum_append] at hsum
  exact (multiple_foldl he he' htake (by linarith)).2

end Single

namespace Ballot

/-- The votes whose sample in channel `c` is as asked for. -/
def having (ballots : List Ballot) (c : Nat) (wanted : UInt8 → Bool) : List Ballot :=
  ballots.filter fun b => b.pixel[c]?.any wanted

/-- The weights of the votes whose sample in channel `c` is as asked for. -/
def weights (ballots : List Ballot) (c : Nat) (wanted : UInt8 → Bool) : List Float32 :=
  (having ballots c wanted).map weight

/-- What these votes weigh together, exactly. -/
def together (ballots : List Ballot) (c : Nat) (wanted : UInt8 → Bool) : ℚ :=
  ((weights ballots c wanted).map value).sum

variable {ballots : List Ballot} {c : Nat}

theorem together_cons (b : Ballot) (ballots : List Ballot) (c : Nat) (wanted : UInt8 → Bool) :
    together (b :: ballots) c wanted =
      (if b.pixel[c]?.any wanted then value b.weight else 0) + together ballots c wanted := by
  cases hwanted : b.pixel[c]?.any wanted <;>
    simp [together, weights, having, hwanted]

/-- Votes of two kinds weigh as much as those of either kind, if none is of both. -/
theorem together_eq_add {wanted first second : UInt8 → Bool}
    (hwanted : ∀ u, wanted u = (first u || second u)) (hboth : ∀ u, ¬ (first u ∧ second u)) :
    together ballots c wanted = together ballots c first + together ballots c second := by
  induction ballots with
  | nil => simp [together, weights, having]
  | cons b ballots ih =>
    simp only [together, weights, having, List.filter_cons] at ih ⊢
    cases hsample : b.pixel[c]? with
    | none => simpa [hsample] using ih
    | some u =>
      have hu := hboth u
      cases hfirst : first u <;> cases hsecond : second u <;>
        simp_all [add_assoc, add_left_comm]

end Ballot

namespace Tally

/-! ### Bins -/

/-- The tally of the votes. -/
def ofBallots (channels : Nat) (ballots : List Ballot) : Tally :=
  ballots.foldl (fun t b => t.add b.pixel b.weight) (empty channels)

@[simp]
theorem channels_ofBallots (channels : Nat) (ballots : List Ballot) :
    (ofBallots channels ballots).channels = channels := by
  have hadd (t : Tally) :
      (ballots.foldl (fun t b => t.add b.pixel b.weight) t).channels = t.channels := by
    induction ballots generalizing t with
    | nil => rfl
    | cons b ballots ih => exact ih _
  exact hadd (empty channels)

theorem getD_modify {bins : Array Float32} {i j : Nat} (hj : j < bins.size)
    (f : Float32 → Float32) :
    (bins.modify i f).getD j 0.0 = if i = j then f (bins.getD j 0.0) else bins.getD j 0.0 := by
  simp only [Array.getD_eq_getD_getElem?, Array.getElem?_modify]
  split <;> simp [hj]

theorem getD_addFrom {channels : Nat} {bins : Array Float32} (hsize : bins.size = channels * 256)
    {c : Nat} (hc : c < channels) (u : UInt8) (k : Nat) (weight : Float32) (pixel : List UInt8) :
    (addFrom bins k weight pixel).getD (c * 256 + u.toNat) 0.0 =
      if k ≤ c ∧ pixel[c - k]? = some u then bins.getD (c * 256 + u.toNat) 0.0 + weight
      else bins.getD (c * 256 + u.toNat) 0.0 := by
  have hu := u.toNat_lt
  induction pixel generalizing bins k with
  | nil => simp [addFrom]
  | cons v pixel ih =>
    have hv := v.toNat_lt
    have hslot : c * 256 + u.toNat < bins.size := by omega
    rw [addFrom, ih (by rw [Array.size_modify, hsize]), getD_modify hslot]
    rcases lt_trichotomy k c with hk | rfl | hk
    · have hother : ¬ k * 256 + v.toNat = c * 256 + u.toNat := by omega
      have hnext : c - k = c - (k + 1) + 1 := by omega
      simp only [hother, if_false, hnext, List.getElem?_cons_succ, hk.le, Nat.succ_le_of_lt hk,
        true_and]
    · have hlast : ¬ k + 1 ≤ k := by omega
      have hslots : k * 256 + v.toNat = k * 256 + u.toNat ↔ v = u := by
        rw [Nat.add_left_cancel_iff, UInt8.toNat_inj]
      simp only [hlast, false_and, if_false, hslots, Nat.sub_self, List.getElem?_cons_zero,
        le_refl, true_and, Option.some.injEq]
    · have hother : ¬ k * 256 + v.toNat = c * 256 + u.toNat := by omega
      simp only [hother, if_false, Nat.not_le.mpr hk, Nat.not_le.mpr (Nat.lt_succ_of_lt hk),
        false_and]

theorem bin_add (t : Tally) {c : Nat} (hc : c < t.channels) (b : Ballot) (u : UInt8) :
    (t.add b.pixel b.weight).bin c u.toNat =
      if b.pixel[c]? = some u then t.bin c u.toNat + b.weight else t.bin c u.toNat := by
  have h := getD_addFrom t.size_eq hc u 0 b.weight b.pixel
  simp only [Nat.zero_le, Nat.sub_zero, true_and] at h
  exact h

theorem bin_foldl_add (ballots : List Ballot) (t : Tally) {c : Nat} (hc : c < t.channels)
    (u : UInt8) :
    (ballots.foldl (fun t b => t.add b.pixel b.weight) t).bin c u.toNat =
      (Ballot.weights ballots c (· = u)).foldl (· + ·) (t.bin c u.toNat) := by
  induction ballots generalizing t with
  | nil => rfl
  | cons b ballots ih =>
    have hrest := ih (t.add b.pixel b.weight) hc
    rw [bin_add t hc] at hrest
    rw [List.foldl_cons, hrest]
    simp only [Ballot.weights, Ballot.having, List.filter_cons]
    cases hsample : b.pixel[c]? with
    | none => simp
    | some x => by_cases hx : x = u <;> simp [hx]

/-- A bin holds the sum of the weights of its votes. -/
theorem bin_ofBallots {channels c : Nat} (hc : c < channels) (ballots : List Ballot) (u : UInt8) :
    (ofBallots channels ballots).bin c u.toNat =
      (Ballot.weights ballots c (· = u)).foldl (· + ·) 0.0 := by
  have hempty : (empty channels).bin c u.toNat = 0.0 := by
    rw [bin, empty, Array.getD_eq_getD_getElem?, Array.getElem?_replicate]
    split <;> rfl
  rw [ofBallots, bin_foldl_add ballots (empty channels) hc, hempty]

/-! ### Weighed bins -/

/-- The weight of the values below `n` in channel `c`, added up on the way. -/
def running (t : Tally) (c n : Nat) : Float32 :=
  (List.range n).foldl (fun sum u => sum + t.bin c u) 0.0

theorem running_succ (t : Tally) (c n : Nat) :
    t.running c (n + 1) = t.running c n + t.bin c n := by
  rw [running, List.range_succ, List.foldl_append]
  rfl

variable {t : Tally} {c : Nat}

/-- The bins of a channel hold the given weights, and these add up exactly on the way. -/
structure Weighed (t : Tally) (c : Nat) (weight : ℕ → ℚ) : Prop where
  bin : ∀ u < 256, Amount (t.bin c u) (weight u)
  running : ∀ n ≤ 256, Amount (t.running c n) (∑ u ∈ Finset.range n, weight u)

theorem Weighed.sum_le_sum {weight : ℕ → ℚ} (h : Weighed t c weight) {m n : ℕ} (hmn : m ≤ n)
    (hn : n ≤ 256) : ∑ u ∈ Finset.range m, weight u ≤ ∑ u ∈ Finset.range n, weight u := by
  refine Finset.sum_le_sum_of_subset_of_nonneg (by simpa using hmn) fun u hu _ => ?_
  exact (h.bin u (by have := Finset.mem_range.mp hu; omega)).nonneg

end Tally

namespace Ballot

variable {ballots : List Ballot} {channels c : Nat}

theorem together_congr {wanted wanted' : UInt8 → Bool} (h : ∀ u, wanted u = wanted' u) :
    together ballots c wanted = together ballots c wanted' := by
  rw [funext h]

/-- The votes for the values below `n` weigh as much as those for each of them do together. -/
theorem together_below (n : ℕ) : together ballots c (·.toNat < n) =
    ∑ u ∈ Finset.range n, together ballots c (·.toNat = u) := by
  induction n with
  | zero => simp [together, weights, having]
  | succ n ih =>
    rw [Finset.sum_range_succ, ← ih]
    refine together_eq_add (fun u => ?_) fun u hu => ?_
    · rw [← Bool.decide_or, decide_eq_decide]
      omega
    · simp only [decide_eq_true_eq] at hu
      omega

/-- The votes have samples in channel `c` whose weights add up exactly: those for each value, in
the order of the votes, then the bins, in the order of the values, and all of them to `total`. -/
structure AddUp (ballots : List Ballot) (channels c : Nat) (total : Float32) : Prop where
  channel_lt : c < channels
  bins : ∀ u, Single.ExactSums (weights ballots c (· = u))
  running : Single.ExactSums ((List.range 256).map ((Tally.ofBallots channels ballots).bin c))
  amount : Amount total (together ballots c fun _ => true)
  pos : 0 < value total

/-- The bin of a value holds what its votes weigh together. -/
theorem amount_bin (hc : c < channels)
    (hbins : ∀ u, Single.ExactSums (weights ballots c (· = u))) {u : ℕ} (hu : u < 256) :
    Amount ((Tally.ofBallots channels ballots).bin c u) (together ballots c (·.toNat = u)) := by
  have hbyte : (UInt8.ofNat u).toNat = u := Nat.mod_eq_of_lt hu
  have hwanted (w : UInt8) : decide (w = UInt8.ofNat u) = decide (w.toNat = u) :=
    decide_eq_decide.mpr (by rw [← UInt8.toNat_inj, hbyte])
  have hsum := Tally.bin_ofBallots hc ballots (UInt8.ofNat u)
  rw [hbyte] at hsum
  rw [hsum, ← together_congr hwanted]
  exact (hbins (UInt8.ofNat u)).amount

/-- The values of the bins below `n`, added up. -/
theorem sum_value_bin (hc : c < channels)
    (hbins : ∀ u, Single.ExactSums (weights ballots c (· = u))) {n : ℕ} (hn : n ≤ 256) :
    (((List.range n).map ((Tally.ofBallots channels ballots).bin c)).map value).sum =
      together ballots c (·.toNat < n) := by
  rw [together_below]
  induction n with
  | zero => simp
  | succ n ih =>
    rw [List.range_succ, List.map_append, List.map_append, List.sum_append, Finset.sum_range_succ,
      ih (Nat.le_of_succ_le hn), List.map_singleton, List.map_singleton, List.sum_singleton,
      (amount_bin hc hbins hn).value_eq]

theorem AddUp.weighed {total : Float32} (h : AddUp ballots channels c total) :
    (Tally.ofBallots channels ballots).Weighed c fun u => together ballots c (·.toNat = u) := by
  refine ⟨fun u hu => amount_bin h.channel_lt h.bins hu, fun n hn => ?_⟩
  have hsums := h.running n (by simpa using hn)
  rw [← List.map_take, List.take_range, Nat.min_eq_left hn,
    sum_value_bin h.channel_lt h.bins hn, together_below, List.foldl_map] at hsums
  exact hsums

/-- Weights that are multiples of one power of two add up exactly as long as 24 bits hold their
sum. -/
theorem addUp_of_multiple {total : Float32} {e : ℤ} (he : -149 ≤ e) (he' : e ≤ 103)
    (hc : c < channels) (h : ∀ b ∈ ballots, Single.Multiple e b.weight)
    (hpos : 0 < together ballots c fun _ => true)
    (hsum : (together ballots c fun _ => true) ≤ 2 ^ 24 * 2 ^ e)
    (htotal : Amount total (together ballots c fun _ => true)) :
    AddUp ballots channels c total := by
  have hmultiple (wanted : UInt8 → Bool) :
      ∀ w ∈ weights ballots c wanted, Single.Multiple e w := by
    intro w hw
    obtain ⟨b, hb, rfl⟩ := List.mem_map.mp hw
    exact h b (List.mem_of_mem_filter hb)
  have hle (wanted : UInt8 → Bool) : together ballots c wanted ≤ 2 ^ 24 * 2 ^ e := by
    have hrest : 0 ≤ together ballots c (! wanted ·) := Single.sum_value_nonneg (hmultiple _)
    have hsplit : together ballots c (fun _ => true) =
        together ballots c wanted + together ballots c (! wanted ·) :=
      together_eq_add (fun u => (Bool.or_not_self (wanted u)).symm) (by simp)
    linarith
  have hbins (u : UInt8) : Single.ExactSums (weights ballots c (· = u)) :=
    Single.exactSums_of_multiple he he' (hmultiple _) (hle _)
  refine ⟨hc, hbins, Single.exactSums_of_multiple he he' (fun w hw => ?_) ?_, htotal,
    htotal.value_eq ▸ hpos⟩
  · obtain ⟨u, hu, rfl⟩ := List.mem_map.mp hw
    have hbyte : (UInt8.ofNat u).toNat = u := Nat.mod_eq_of_lt (List.mem_range.mp hu)
    have hbin := (Single.multiple_foldl he he' (hmultiple (· = UInt8.ofNat u)) (hle _)).1
    rwa [← Tally.bin_ofBallots hc, hbyte] at hbin
  · rw [sum_value_bin hc hbins le_rfl]
    exact hle _

/-- Counts add up exactly as long as 24 bits hold their sum. -/
theorem addUp_of_counts {n : ℕ} (hc : c < channels)
    (h : ∀ b ∈ ballots, ∃ k ≤ 2 ^ 24, b.weight = Single.ofCount k)
    (htogether : (together ballots c fun _ => true) = n) (hpos : 0 < n) (hn : n ≤ 2 ^ 24) :
    AddUp ballots channels c (Single.ofCount n) := by
  refine addUp_of_multiple (e := 0) (by norm_num) (by norm_num) hc (fun b hb => ?_) ?_ ?_ ?_
  · obtain ⟨k, hk, hweight⟩ := h b hb
    exact ⟨k, by simpa [hweight] using Single.amount_ofCount hk⟩
  · rw [htogether]
    exact_mod_cast hpos
  · rw [htogether, zpow_zero, mul_one]
    exact_mod_cast hn
  · rw [htogether]
    exact Single.amount_ofCount hn

/-- Votes for samples of one channel, each with a count as its weight. -/
def counted (votes : List (UInt8 × ℕ)) : List Ballot :=
  votes.map fun (u, n) => ⟨[u], Single.ofCount n⟩

theorem together_counted {votes : List (UInt8 × ℕ)} (h : ∀ vote ∈ votes, vote.2 ≤ 2 ^ 24)
    {wanted : UInt8 → Bool} {k : ℕ}
    (hk : ((votes.filter fun vote => wanted vote.1).map Prod.snd).sum = k) :
    together (counted votes) 0 wanted = k := by
  subst hk
  induction votes with
  | nil => simp [counted, together, weights, having]
  | cons vote votes ih =>
    have hvalue := Single.value_ofCount (h vote List.mem_cons_self)
    have hrest := ih fun vote hvote => h vote (List.mem_cons_of_mem _ hvote)
    rw [show counted (vote :: votes) = ⟨[vote.1], Single.ofCount vote.2⟩ :: counted votes from rfl,
      together_cons, hrest]
    cases hwanted : wanted vote.1 <;> simp [hwanted, hvalue]

/-- They add up exactly as long as 24 bits hold their sum. -/
theorem addUp_counted {votes : List (UInt8 × ℕ)} {n : ℕ} (hsum : (votes.map Prod.snd).sum = n)
    (hpos : 0 < n) (hn : n ≤ 2 ^ 24) : AddUp (counted votes) 1 0 (Single.ofCount n) := by
  have hle : ∀ vote ∈ votes, vote.2 ≤ 2 ^ 24 := fun vote hvote =>
    (List.le_sum_of_mem (List.mem_map_of_mem hvote)).trans (hsum.trans_le hn)
  refine addUp_of_counts Nat.one_pos (fun b hb => ?_) ?_ hpos hn
  · obtain ⟨vote, hvote, rfl⟩ := List.mem_map.mp hb
    exact ⟨vote.2, hle vote hvote, rfl⟩
  · exact together_counted hle (by rwa [List.filter_true])

end Ballot

end Retouch
