import Mathlib.Tactic.Tauto
import Retouch.Voting.Repaint

/-!
# Retouch — Voting — Repainted samples

What a repaint leaves in a sample is a matter of four things: the tally of the votes for its pixel,
the weight of these votes, whether its channel carries colour, and the sample before
(`Tally.verdict`).  `sample_repaint` reads every sample of a repainted target this way, and an image
whose samples are these verdicts is the repainted one (`withImage_eq_repaint`).

`repaint?_eq_ok_iff` says when a checked repaint ends, also where there is nothing to repaint.
-/

namespace Retouch

/-- What votes with the given weight make of the sample `old` of channel `c`: the mean of the
middle votes, if there are enough of them and the channel carries colour. -/
def Tally.verdict (t : Tally) (total : Float32) (layout : Layout) (c : Nat) (old : UInt8) : UInt8 :=
  if total < quorum then old
  else if (layout.getD c .alpha).isColor then t.middleMean c total
  else old

/-- Without a vote a sample stays. -/
theorem Tally.verdict_zero (t : Tally) (layout : Layout) (c : Nat) (old : UInt8) :
    t.verdict 0.0 layout c old = old :=
  if_pos (by decide)

/-- Without colour a sample stays, too. -/
theorem Tally.verdict_of_not_isColor (t : Tally) (total : Float32) {layout : Layout} {c : Nat}
    (hcolor : (layout.getD c .alpha).isColor = false) (old : UInt8) :
    t.verdict total layout c old = old := by
  rw [verdict, hcolor]
  split <;> rfl

/-- An election, sample by sample. -/
theorem Vote.getD_elect (source : Canvas) {layout : Layout} {old : List UInt8}
    (hold : old.length = layout.size) (votes : List Vote) {c : Nat} (hc : c < layout.size) :
    (elect source layout old votes).getD c 0 =
      (tally source layout.size votes).verdict (total votes) layout c (old.getD c 0) := by
  have hc' : c < old.length := hold ▸ hc
  by_cases hquorum : total votes < quorum
  · simp only [elect, Tally.verdict, hquorum, if_true]
  · simp only [elect, Tally.verdict, hquorum, if_false]
    rw [List.getD_eq_getElem?_getD, List.getElem?_zipWith]
    simp [hc, hc']

namespace MatchField

variable {σ : Type} {f : MatchField σ} {zoom : Zoom} {source target : Canvas}

/-- The votes for pixel `p` of the target, in order. -/
def ballotAt (f : MatchField σ) (zoom : Zoom) (source target : Canvas) (p : Nat) : List Vote :=
  f.ballot zoom source target (p % target.width) (p / target.width)

/-- The verdict of these votes on channel `c`. -/
def verdictAt (f : MatchField σ) (zoom : Zoom) (source target : Canvas) (p c : Nat) : UInt8 :=
  let votes := f.ballotAt zoom source target p
  (Vote.tally source target.depth votes).verdict (Vote.total votes) target.layout c
    (target.image.sample p c)

/-- The samples of a repainted target are the verdicts of the votes for its pixels. -/
theorem sample_repaint {p c : Nat} (hp : p < target.area) (hc : c < target.depth) :
    (f.repaint zoom source target).image.sample p c = f.verdictAt zoom source target p c := by
  have hold : (target.image.pixel p).length = target.layout.size := target.image.length_pixel p
  have hsample : (target.image.pixel p).getD c 0 = target.image.sample p c := by
    have hc' : c < target.image.depth := hc
    simp [Raster.pixel, List.getD_eq_getElem?_getD, hc']
  have helect := Vote.getD_elect source hold (f.ballotAt zoom source target p) hc
  rw [hsample] at helect
  have hp' : p < target.width * target.height := hp
  have hc' : c < target.layout.size := hc
  show (Raster.generate target.width target.height target.layout _).sample p c = _
  rw [Raster.sample_generate hp' hc']
  refine Eq.trans ?_ helect
  simp [hp, repaintedPixel, ballotAt]

/-- Nothing is voted on a channel without colour. -/
theorem sample_repaint_of_not_isColor {p c : Nat} (hp : p < target.area) (hc : c < target.depth)
    (hcolor : (target.layout.getD c .alpha).isColor = false) :
    (f.repaint zoom source target).image.sample p c = target.image.sample p c :=
  (sample_repaint hp hc).trans (Tally.verdict_of_not_isColor _ _ hcolor _)

/-- A pixel that nobody votes for keeps its samples. -/
theorem sample_repaint_of_no_votes {p c : Nat} (hp : p < target.area) (hc : c < target.depth)
    (hvotes : f.ballotAt zoom source target p = []) :
    (f.repaint zoom source target).image.sample p c = target.image.sample p c := by
  rw [sample_repaint hp hc, verdictAt, hvotes]
  exact Tally.verdict_zero _ _ _ _

/-- The image of a repainted target is known by its samples. -/
theorem withImage_eq_repaint {image : Raster} (hshape : image.SameShape target.image)
    (hsample : ∀ p < target.area, ∀ c < target.depth,
      image.sample p c = f.verdictAt zoom source target p c) :
    target.withImage image = f.repaint zoom source target := by
  have himage : image = (f.repaint zoom source target).image := by
    refine Raster.ext_sample hshape.width_eq hshape.height_eq hshape.layout_eq fun p hp c hc => ?_
    have hp' : p < target.area := Nat.lt_of_lt_of_eq hp hshape.area_eq
    have hc' : c < target.depth := Nat.lt_of_lt_of_eq hc hshape.depth_eq
    rw [hsample p hp' c hc', sample_repaint hp' hc']
  rw [himage]
  rfl

/-- Where there is nothing to repaint, the target stays as it is. -/
theorem repaint_eq_self
    (h : ∀ p < target.area, 0 < target.depth → f.ballotAt zoom source target p = []) :
    f.repaint zoom source target = target := by
  have hself : target.withImage target.image = f.repaint zoom source target := by
    refine withImage_eq_repaint (.refl _) fun p hp c hc => ?_
    rw [← sample_repaint hp hc, sample_repaint_of_no_votes hp hc (h p hp (Nat.zero_lt_of_lt hc))]
  exact hself.symm

/-- A checked repaint ends with the plain one, and it does if the target has no sample or the field
has what it takes. -/
theorem repaint?_eq_ok_iff {result : Canvas} :
    f.repaint? zoom source target = .ok result ↔
      f.repaint zoom source target = result ∧
        (0 < target.area → 0 < target.depth → f.radius ≠ Word.half64 ∧
          (f.radius < Word.half64 → f.Covers zoom target ∧
            (source.depth ≤ target.depth ∨
              ∀ p < target.area, f.ballotAt zoom source target p = []))) := by
  by_cases hempty : target.area = 0 ∨ target.depth = 0
  · have hself : f.repaint zoom source target = target := repaint_eq_self fun p hp hdepth =>
      (hempty.elim (Nat.ne_of_gt (Nat.zero_lt_of_lt hp)) (Nat.ne_of_gt hdepth)).elim
    have hvacuous : ¬ (0 < target.area ∧ 0 < target.depth) := by omega
    rw [repaint?, if_pos hempty, hself]
    exact ⟨fun h => ⟨Except.ok.inj h, fun ha hd => (hvacuous ⟨ha, hd⟩).elim⟩,
      fun h => congrArg Except.ok h.1⟩
  · have ha : 0 < target.area := by omega
    have hd : 0 < target.depth := by omega
    have hnone : ((List.range target.area).all fun p =>
        (f.ballot zoom source target (p % target.width) (p / target.width)).isEmpty) = true ↔
        ∀ p < target.area, f.ballotAt zoom source target p = [] := by
      simp [ballotAt]
    have hok : (Except.ok (f.repaint zoom source target) : Except Fault Canvas) = .ok result ↔
        f.repaint zoom source target = result := ⟨Except.ok.inj, congrArg Except.ok⟩
    rw [repaint?, if_neg hempty, Fault.unless_bind_eq_ok_iff]
    by_cases hradius : f.radius < Word.half64
    · simp only [hradius, if_true, Fault.unless_bind_eq_ok_iff, hnone, hok, pure, Except.pure, ha,
        hd, true_implies]
      tauto
    · simp only [hradius, if_false, hok, pure, Except.pure, ha, hd, true_implies]
      tauto

/-- Where a repaint counts a vote, the source has no more channels than the target. -/
theorem depth_le_of_mem_ballotAt {result : Canvas}
    (h : f.repaint? zoom source target = .ok result) {p : Nat} (hp : p < target.area)
    (hdepth : 0 < target.depth) {v : Vote} (hv : v ∈ f.ballotAt zoom source target p) :
    source.depth ≤ target.depth := by
  obtain ⟨-, hchecks⟩ := repaint?_eq_ok_iff.mp h
  obtain ⟨-, hchecks⟩ := hchecks (Nat.zero_lt_of_lt hp) hdepth
  by_cases hradius : f.radius < Word.half64
  · obtain ⟨-, hle | hnone⟩ := hchecks hradius
    · exact hle
    · exact absurd hv (hnone p hp ▸ List.not_mem_nil)
  · -- A radius beyond the signed range reaches nothing.
    simp [ballotAt, ballot, centres, hradius] at hv

end MatchField

end Retouch
