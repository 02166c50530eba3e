import Retouch.Proofs.Voting.Casting
import Retouch.Proofs.Voting.Hidden
import Retouch.Proofs.Voting.Middle

/-!
# Retouch — Voting — Unanimous votes

When all votes for a pixel carry the same sample in a channel, its bin collects the same weights in
the same order as the total does, so it holds the very same single, however much has been rounded
on the way; and all other bins of the channel are empty.  The walk over the values then counts one
value only, and the mean of the middle votes is this value (`Tally.middleMean_eq_of_unanimous`).

That the total is a number in range needs no assumption.  Weights are small whatever the curve is
(`Similarity.exists_amount_weight`), and small weights stop adding up before they get too large
(`MatchField.exists_amount_total`).

Where a field matches every pixel of a canvas with itself, a pixel gets votes for itself only,
whatever the radius and however many of the windows are cut off at the borders.  So a repaint of the
canvas from itself leaves it as it is (`MatchField.Identity.repaint_eq`).
-/

namespace Retouch

open Single (Amount Nearest Fits value limit)

/-! ### Weights -/

theorem Single.exists_amount_toFloat32 (n : UInt64) :
    ∃ q ≤ (2 : ℚ) ^ 64, Amount n.toFloat32 q := by
  have hn : ((n.toNat : ℕ) : ℚ) ≤ 2 ^ 64 := by exact_mod_cast n.toNat_lt.le
  have hround := normalize_nearest n.toNat 0
  rw [zpow_zero, mul_one] at hround
  obtain ⟨q, hq, hnearest⟩ := Amount.of_nearest hround (hn.trans_lt (by norm_num [limit]))
  exact ⟨q, hnearest.le_of_le (fits_two_pow 64) hn, hq⟩

theorem Single.amount_two_pow_54 : Amount 18014398509481984.0 (2 ^ 54) := by
  have h : Amount 18014398509481984.0 ((8388608 : ℕ) * 2 ^ (31 : ℤ)) :=
    .of_unpack (by decide) ⟨by norm_num, by norm_num, .inl (by norm_num)⟩ rfl
  norm_num at h ⊢
  exact h

/-- Whatever the curve says, a weight is a small number and not below zero. -/
theorem Similarity.exists_amount_weight (distance : Nat) :
    ∃ q < (2 : ℚ) ^ (11 : ℤ), Amount (weight distance) q := by
  obtain ⟨p, hp, hword⟩ := Single.exists_amount_toFloat32
    (curve (min distance maxDistance) * 18014398509481984.0).toUInt64
  have hquotient : p / 2 ^ 54 ≤ 2 ^ 10 := by
    rw [div_le_iff₀ (by positivity)]
    exact hp.trans (by norm_num)
  obtain ⟨q, hq, hnearest⟩ := hword.div Single.amount_two_pow_54 (by positivity)
    (hquotient.trans_lt (by norm_num [limit]))
  have hle := hnearest.le_of_le (Single.fits_two_pow 10) hquotient
  exact ⟨q, hle.trans_lt (by norm_num), hq⟩

/-! ### Tallies -/

namespace Tally

variable {t : Tally} {c : Nat}

/-- A channel whose weight is all in one bin. -/
theorem weighed_of_one {v : ℕ} {q : ℚ} (hbin : Amount (t.bin c v) q)
    (hempty : ∀ u, u ≠ v → u < 256 → t.bin c u = 0.0) :
    t.Weighed c fun u => if u = v then q else 0 := by
  have hbins (u : ℕ) (hu : u < 256) : Amount (t.bin c u) (if u = v then q else 0) := by
    split
    · rename_i huv
      exact huv ▸ hbin
    · rename_i huv
      rw [hempty u huv hu]
      exact Single.amount_zero
  refine ⟨hbins, fun n hn => ?_⟩
  induction n with
  | zero => exact Single.amount_zero
  | succ n ih =>
    have hprevious := ih (Nat.le_of_succ_le hn)
    rw [running_succ, Finset.sum_range_succ]
    by_cases hnv : n = v
    · -- Nothing has been passed before the bin with the weight.
      have hnothing : ∑ u ∈ Finset.range n, (if u = v then q else 0) = 0 := by
        simp [Finset.sum_ite_eq', hnv]
      rw [hnothing] at hprevious ⊢
      rw [zero_add]
      exact hprevious.nothing_add (hbins n hn)
    · have hnothing := hbins n hn
      rw [if_neg hnv] at hnothing ⊢
      rw [add_zero]
      exact hprevious.add_nothing hnothing

/-- When all votes are for one value, their mean is this value. -/
theorem middleMean_eq_of_unanimous {total : Float32} {q : ℚ} (htotal : Amount total q)
    (hpos : 0 < q) {v : UInt8} (hlimit : v.toNat * q < limit) (hbin : t.bin c v.toNat = total)
    (hempty : ∀ u, u ≠ v.toNat → u < 256 → t.bin c u = 0.0) : t.middleMean c total = v := by
  obtain ⟨l, p, hl, hp, hlp, hlq⟩ := Single.exists_bounds htotal hpos
  have hweighed := weighed_of_one (hbin ▸ htotal) hempty
  refine hweighed.middleMean_eq hl hp hlp (.inl ?_) ?_ (.inl ?_) ?_ ?_
  · simp [Finset.sum_ite_eq']
  · simpa [Finset.sum_ite_eq'] using hlq
  · intro u hu _
    exact if_neg hu.ne'
  · simpa using hpos
  · simpa using hlimit

end Tally

/-! ### Votes -/

/-- The vote with the pixel it is for. -/
def Vote.toBallot (source : Canvas) (v : Vote) : Ballot :=
  ⟨source.image.pixel v.cell, v.weight⟩

theorem Vote.tally_eq_ofBallots (source : Canvas) (channels : Nat) (votes : List Vote) :
    tally source channels votes = .ofBallots channels (votes.map (toBallot source)) := by
  rw [Tally.ofBallots, List.foldl_map]
  rfl

/-- All votes carry the sample `u` in channel `c`. -/
def Vote.Unanimous (source : Canvas) (c : Nat) (u : UInt8) (votes : List Vote) : Prop :=
  ∀ v ∈ votes, (source.image.pixel v.cell)[c]? = some u

namespace Vote.Unanimous

variable {source : Canvas} {channels c : Nat} {u : UInt8} {votes : List Vote}

/-- The bin of the value gets the weights of all votes, and in the same order as the total. -/
theorem bin_eq_total (h : Unanimous source c u votes) (hc : c < channels) :
    (tally source channels votes).bin c u.toNat = total votes := by
  have hall : Ballot.having (votes.map (toBallot source)) c (· = u) =
      votes.map (toBallot source) := by
    refine List.filter_eq_self.mpr fun b hb => ?_
    obtain ⟨v, hv, rfl⟩ := List.mem_map.mp hb
    simp [toBallot, h v hv]
  rw [tally_eq_ofBallots, Tally.bin_ofBallots hc, Ballot.weights, hall, List.map_map,
    List.foldl_map]
  rfl

/-- No other bin of the channel gets any. -/
theorem bin_eq_zero (h : Unanimous source c u votes) (hc : c < channels) {n : ℕ}
    (hn : n ≠ u.toNat) (hn' : n < 256) : (tally source channels votes).bin c n = 0.0 := by
  have hbyte : (UInt8.ofNat n).toNat = n := Nat.mod_eq_of_lt hn'
  have hne : u ≠ UInt8.ofNat n := fun heq => hn (by rw [heq, hbyte])
  have hnone : Ballot.having (votes.map (toBallot source)) c (· = UInt8.ofNat n) = [] := by
    refine List.filter_eq_nil_iff.mpr fun b hb => ?_
    obtain ⟨v, hv, rfl⟩ := List.mem_map.mp hb
    simp [toBallot, h v hv, hne]
  have hbin := Tally.bin_ofBallots hc (votes.map (toBallot source)) (UInt8.ofNat n)
  rw [hbyte, Ballot.weights, hnone] at hbin
  rw [tally_eq_ofBallots, hbin]
  rfl

end Vote.Unanimous

namespace MatchField

variable {σ : Type} {f : MatchField σ} {zoom : Zoom} {source target : Canvas}

theorem exists_weight_of_mem_ballotAt {p : Nat} {v : Vote}
    (h : v ∈ f.ballotAt zoom source target p) :
    ∃ distance, v.weight = Similarity.weight distance := by
  obtain ⟨qy, -, h⟩ := List.mem_flatMap.mp h
  obtain ⟨qx, -, h⟩ := List.mem_filterMap.mp h
  unfold vote? at h
  dsimp only at h
  split at h
  · cases h
    exact ⟨_, rfl⟩
  · cases h

/-- The votes for a pixel have a total in range, however many they are. -/
theorem exists_amount_total (f : MatchField σ) (zoom : Zoom) (source target : Canvas) (p : Nat) :
    ∃ q ≤ (2 : ℚ) ^ 35, Amount (Vote.total (f.ballotAt zoom source target p)) q := by
  have hsmall : ∀ w ∈ (f.ballotAt zoom source target p).map Vote.weight,
      ∃ q < (2 : ℚ) ^ (11 : ℤ), Amount w q := by
    intro w hw
    obtain ⟨v, hv, rfl⟩ := List.mem_map.mp hw
    obtain ⟨distance, hweight⟩ := exists_weight_of_mem_ballotAt hv
    rw [hweight]
    exact Similarity.exists_amount_weight distance
  obtain ⟨q, hq, htotal⟩ := Single.exists_amount_accumulated (by norm_num) (by norm_num) hsmall
    Single.amount_zero (by positivity)
  rw [List.foldl_map] at htotal
  exact ⟨q, hq.trans_eq (by norm_num), htotal⟩

/-- Unanimous votes that are enough elect the sample they carry. -/
theorem verdictAt_of_unanimous {p c : Nat} (hc : c < target.depth)
    (hcolor : (target.layout.getD c .alpha).isColor) {u : UInt8}
    (h : Vote.Unanimous source c u (f.ballotAt zoom source target p)) :
    f.verdictAt zoom source target p c =
      if quorum ≤ Vote.total (f.ballotAt zoom source target p) then u
      else target.image.sample p c := by
  obtain ⟨q, hq, htotal⟩ := f.exists_amount_total zoom source target p
  have hquorum : Amount quorum 1 := by
    exact_mod_cast Single.amount_ofCount (n := 1) (by norm_num)
  have hu : (u.toNat : ℚ) ≤ 255 := by exact_mod_cast Nat.le_of_lt_succ u.toNat_lt
  rw [verdictAt, Tally.verdict]
  by_cases henough : 1 ≤ q
  · have hmean := Tally.middleMean_eq_of_unanimous htotal (by linarith) (v := u)
      (by norm_num [limit]; nlinarith) (h.bin_eq_total hc) fun n hn hn' => h.bin_eq_zero hc hn hn'
    rw [if_neg ((htotal.lt_iff hquorum).not.mpr (not_lt.mpr henough)), if_pos hcolor,
      if_pos ((hquorum.le_iff htotal).mpr henough), hmean]
  · rw [if_pos ((htotal.lt_iff hquorum).mpr (not_le.mp henough)),
      if_neg ((hquorum.le_iff htotal).not.mpr henough)]

/-! ### Pixels matched with themselves -/

/-- The field has the sides of the canvas and matches every pixel with itself. -/
structure Identity (f : MatchField σ) (canvas : Canvas) : Prop where
  width_eq : f.width = canvas.width
  height_eq : f.height = canvas.height
  size_eq : f.entries.size = f.width * f.height
  entry_eq : ∀ x < canvas.width, ∀ y < canvas.height,
    (f.entry (canvas.cell x y)).x = x ∧ (f.entry (canvas.cell x y)).y = y

namespace Identity

variable {canvas : Canvas}

/-- From wherever a patch votes, its vote is for the pixel itself. -/
theorem cell_of_vote? (h : f.Identity canvas) {x y qx qy : Nat} (hqx : qx < canvas.width)
    (hqy : qy < canvas.height) {v : Vote} (hv : f.vote? .same canvas x y qx qy = some v) :
    v.cell = canvas.cell x y := by
  have haim : f.aim .same qx qy = f.entry (canvas.cell qx qy) := by
    rw [aim, Canvas.cell, h.width_eq]
  obtain ⟨hx, hy⟩ := h.entry_eq qx hqx qy hqy
  have hx' : ((qx + x : Int) - qx).toNat = x := by omega
  have hy' : ((qy + y : Int) - qy).toNat = y := by omega
  simp only [vote?, haim, hx, hy, hx', hy'] at hv
  split at hv
  · cases hv
    rfl
  · cases hv

theorem cell_of_mem_ballotAt (h : f.Identity canvas) {p : Nat} {v : Vote}
    (hv : v ∈ f.ballotAt .same canvas canvas p) : v.cell = p := by
  have hcell : canvas.cell (p % canvas.width) (p / canvas.width) = p := Nat.div_add_mod' ..
  obtain ⟨qy, hqy, hv⟩ := List.mem_flatMap.mp hv
  obtain ⟨qx, hqx, hv⟩ := List.mem_filterMap.mp hv
  rw [centres_eq, List.mem_filter, List.mem_range] at hqx hqy
  rw [h.cell_of_vote? hqx.1 hqy.1 hv, hcell]

/-- A repaint by such a field changes nothing. -/
theorem repaint_eq (h : f.Identity canvas) : f.repaint .same canvas canvas = canvas := by
  have hself : canvas.withImage canvas.image = f.repaint .same canvas canvas := by
    refine withImage_eq_repaint (.refl _) fun p _ c hc => ?_
    cases hcolor : (canvas.layout.getD c .alpha).isColor with
    | false => exact (Tally.verdict_of_not_isColor _ _ hcolor _).symm
    | true =>
      have hc' : c < canvas.image.depth := hc
      rw [verdictAt_of_unanimous hc hcolor (u := canvas.image.sample p c), ite_self]
      intro v hv
      rw [h.cell_of_mem_ballotAt hv]
      simp [Raster.pixel, hc']
  exact hself.symm

theorem aligned (h : f.Identity canvas) : f.Aligned .same canvas canvas :=
  ⟨h.size_eq, ⟨h.width_eq.symm, h.height_eq.symm⟩, Nat.le_refl _⟩

end Identity

/-- **Unanimous votes are followed.**  If all votes for a pixel carry the same sample in a colour,
then a repaint leaves this sample there when the votes weigh one or more together, and the sample
before when they do not; and it ends where the sizes go together.

So if a field matches every pixel with itself, a repaint of a canvas from itself changes nothing,
at the borders or elsewhere. -/
theorem repaint?_unanimous (f : MatchField σ) :
    (∀ zoom source target,
      (∀ result, f.repaint? zoom source target = .ok result →
        ∀ p < target.area, ∀ c < target.depth, (target.layout.getD c .alpha).isColor → ∀ u,
          Vote.Unanimous source c u (f.ballotAt zoom source target p) →
          result.image.sample p c =
            if quorum ≤ Vote.total (f.ballotAt zoom source target p) then u
            else target.image.sample p c) ∧
      (f.Aligned zoom source target → f.radius ≠ Word.half64 →
        ∃ result, f.repaint? zoom source target = .ok result)) ∧
    ∀ canvas, f.Identity canvas →
      (∀ result, f.repaint? .same canvas canvas = .ok result → result = canvas) ∧
      (f.radius ≠ Word.half64 → f.repaint? .same canvas canvas = .ok canvas) := by
  refine ⟨fun zoom source target => ⟨?_, fun h hradius => ⟨_, h.repaint?_eq_ok hradius⟩⟩,
    fun canvas h => ⟨?_, fun hradius => ?_⟩⟩
  · intro result hresult p hp c hc hcolor u hunanimous
    rw [← (repaint?_eq_ok_iff.mp hresult).1, sample_repaint hp hc,
      verdictAt_of_unanimous hc hcolor hunanimous]
  · intro result hresult
    rw [← (repaint?_eq_ok_iff.mp hresult).1, h.repaint_eq]
  · rw [h.aligned.repaint?_eq_ok hradius, h.repaint_eq]

/-- Colours of which the first is the same all over, but for one pixel under a hole. -/
def skyCanvas : Canvas :=
  .ofParts (.generate 4 2 #[.color, .color] fun p c =>
      if c = 1 then (30 * p).toUInt8 else if p = 5 then 0 else 200)
    (.ofHoles 4 2 fun x y => x == 1 && y == 1)

/-- A good match and a bad one, for a target of twice the size. -/
def skyField : MatchField Unit :=
  ⟨⟨skyCanvas.halve, skyCanvas.halve, 1⟩, #[⟨0, 0, 0⟩, ⟨1, 0, maxDistance⟩], ()⟩

/-- Every pixel matched with itself, by patches larger than the canvas. -/
def stillField : MatchField Unit :=
  ⟨⟨skyCanvas, skyCanvas, 5⟩, Array.ofFn fun p : Fin 8 => ⟨p % 4, p / 4, 9000⟩, ()⟩

/-- At one end of a row there are enough votes, and at the other there are not; and nothing changes
where pixels are matched with themselves. -/
theorem repaint?_unanimous_sky :
    let target : Canvas := .ofParts (.blank 4 2 #[.color, .color]) (.blank 4 2 .gray)
    (∃ result, skyField.repaint? .double skyCanvas target = .ok result ∧
      result.image.sample 0 0 = 200 ∧ result.image.sample 3 0 = 0) ∧
    stillField.repaint? .same skyCanvas skyCanvas = .ok skyCanvas := by
  intro target
  obtain ⟨hvotes, hends⟩ := (repaint?_unanimous skyField).1 .double skyCanvas target
  obtain ⟨result, hresult⟩ := hends ⟨by decide, fun _ => by decide, Nat.le_refl _⟩ (by decide)
  have hunanimous (p : Nat) :
      Vote.Unanimous skyCanvas 0 200 (skyField.ballotAt .double skyCanvas target p) := by
    have hopen : ∀ q < skyCanvas.area, skyCanvas.isHole q = false →
        (skyCanvas.image.pixel q)[0]? = some 200 := by decide +kernel
    intro v hv
    obtain ⟨hcell, hhole⟩ := cell_of_mem_ballot hv
    exact hopen v.cell hcell hhole
  have hleft := hvotes result hresult 0 (by decide) 0 (by decide) rfl 200 (hunanimous 0)
  have hright := hvotes result hresult 3 (by decide) 0 (by decide) rfl 200 (hunanimous 3)
  have hself : stillField.Identity skyCanvas := ⟨rfl, rfl, rfl, by decide⟩
  refine ⟨⟨result, hresult, hleft.trans (if_pos ?_), hright.trans (if_neg ?_)⟩,
    ((repaint?_unanimous stillField).2 skyCanvas hself).2 (by decide)⟩
  · decide +kernel
  · decide +kernel

end MatchField

end Retouch
